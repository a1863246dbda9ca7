import MemStream.Lib.Framing
import MemStream.Server.Impl.Codec

namespace MemStream
namespace LengthPrefixCodec

theorem decode_eq (src : List UInt8)
    : decode src
        =
      if src.length < 4 then
        (.ok none, src)
      else if LittleEndian.decode (src.take 4) > maxFrameSize then
        (.error (frameTooLarge (LittleEndian.decode (src.take 4))), src)
      else if src.length < 4 + LittleEndian.decode (src.take 4) then
        (.ok none, src)
      else
        (.ok (some ((src.drop 4).take (LittleEndian.decode (src.take 4)))),
          (src.drop 4).drop (LittleEndian.decode (src.take 4))) := by
  rfl

theorem decode_error_iff (src : List UInt8)
    : (∃ e, (decode src).1 = .error e)
        ↔
      4 ≤ src.length ∧ LittleEndian.decode (src.take 4) > maxFrameSize := by
  rw [decode_eq]
  split
  . simp
    omega
  . split
    . simp
      omega
    . split
      all_goals
        simp
        omega

theorem decode_cases (src : List UInt8)
    : (decode src = (.ok none, src))
        ∨ (∃ e, decode src = (.error e, src) ∧ ∀ more, decode (src ++ more) = (.error e, src ++ more))
        ∨ (∃ frame rest, decode src = (.ok (some frame), rest)
            ∧ ∀ more, decode (src ++ more) = (.ok (some frame), rest ++ more)) := by
  rw [decode_eq]
  split
  . exact .inl rfl
  . next hlen =>
    have htake : ∀ more, (src ++ more).take 4 = src.take 4 := by
      intro more
      rw [List.take_append_of_le_length (by omega)]
    have hdrop : ∀ more, (src ++ more).drop 4 = src.drop 4 ++ more := by
      intro more
      rw [List.drop_append_of_le_length (by omega)]
    split
    . next hlarge =>
      refine .inr (.inl ⟨_, rfl, ?_⟩)
      intro more
      rw [decode_eq, htake, if_neg (by rw [List.length_append]; omega), if_pos hlarge]
    . next hsmall =>
      split
      . exact .inl rfl
      . next htotal =>
        refine .inr (.inr ⟨_, _, rfl, ?_⟩)
        intro more
        have hbody : LittleEndian.decode (src.take 4) ≤ (src.drop 4).length := by
          rw [List.length_drop]
          omega
        rw [decode_eq, htake, hdrop, if_neg (by rw [List.length_append]; omega), if_neg hsmall,
          if_neg (by rw [List.length_append]; omega), List.take_append_of_le_length hbody,
          List.drop_append_of_le_length hbody]

theorem decode_frame {body : List UInt8} (h : body.length ≤ maxFrameSize) (rest : List UInt8)
    : decode (Framing.frame body ++ rest) = (.ok (some body), rest) := by
  have htake : (Framing.frame body ++ rest).take 4 = LittleEndian.encode 4 body.length := by
    rw [List.take_append_of_le_length (by simp), Framing.frame_take]
  have hlen : LittleEndian.decode (LittleEndian.encode 4 body.length) = body.length := by
    apply LittleEndian.decode_encode_of_lt
    unfold maxFrameSize at h
    omega
  have hdrop : (Framing.frame body ++ rest).drop 4 = body ++ rest := by
    rw [List.drop_append_of_le_length (by simp), Framing.frame_drop]
  have hlength : (Framing.frame body ++ rest).length = 4 + body.length + rest.length := by simp
  rw [decode_eq, htake, hlen, hdrop, hlength, if_neg (by omega), if_neg (by omega), if_neg (by omega),
    List.take_left, List.drop_left]

theorem decode_take_frame {body : List UInt8} (h : body.length ≤ maxFrameSize) {n : Nat}
    (hn : n < (Framing.frame body).length)
    : decode ((Framing.frame body).take n) = (.ok none, (Framing.frame body).take n) := by
  have hlength : ((Framing.frame body).take n).length = n := by
    rw [List.length_take]
    omega
  rw [Framing.frame_length] at hn
  rw [decode_eq]
  split
  . rfl
  . next hshort =>
    have htake : ((Framing.frame body).take n).take 4 = LittleEndian.encode 4 body.length := by
      rw [List.take_take, Nat.min_eq_left (by omega), Framing.frame_take]
    have hlen : LittleEndian.decode (LittleEndian.encode 4 body.length) = body.length := by
      apply LittleEndian.decode_encode_of_lt
      unfold maxFrameSize at h
      omega
    rw [htake, hlen, if_neg (by omega), if_pos (by omega)]

end LengthPrefixCodec

namespace Incoming

open LengthPrefixCodec Framing

theorem drain_of_none {conn : Incoming} (h : decode conn.buffer = (.ok none, conn.buffer))
    : drain conn = conn := by
  rcases conn with ⟨frames, buffer, error⟩
  rw [drain]
  split
  all_goals
    next heq =>
    rw [h] at heq
    simp_all

theorem drain_of_frame {conn : Incoming} {frame buffer : List UInt8}
    (h : decode conn.buffer = (.ok (some frame), buffer))
    : drain conn = drain { conn with frames := conn.frames ++ [frame], buffer := buffer } := by
  rw [drain]
  split
  all_goals
    next heq =>
    rw [h] at heq
    simp_all

theorem drain_of_error {conn : Incoming} {e : IoError} {buffer : List UInt8}
    (h : decode conn.buffer = (.error e, buffer))
    : drain conn = { conn with buffer := buffer, error := some e } := by
  rw [drain]
  split
  all_goals
    next heq =>
    rw [h] at heq
    simp_all

theorem drain_append (conn : Incoming) (more : List UInt8) (hnone : conn.error = none)
    : (∃ e, (drain conn).error = some e
        ∧ (drain { conn with buffer := conn.buffer ++ more }).error = some e)
      ∨ ((drain conn).error = none
        ∧ drain { conn with buffer := conn.buffer ++ more }
            = drain { drain conn with buffer := (drain conn).buffer ++ more }
        ∧ drain (drain conn) = drain conn) := by
  rcases decode_cases conn.buffer with hstop | ⟨e, herr, hmore⟩ | ⟨frame, rest, hframe, hmore⟩
  . right
    rw [drain_of_none hstop]
    exact ⟨hnone, rfl, drain_of_none hstop⟩
  . left
    refine ⟨e, ?_, ?_⟩
    . rw [drain_of_error herr]
    . rw [drain_of_error (hmore more)]
  . have hshrinks := decode_shrinks hframe
    have hwhole : drain { conn with buffer := conn.buffer ++ more }
        = drain { conn with frames := conn.frames ++ [frame], buffer := rest ++ more } :=
      drain_of_frame (hmore more)
    rw [drain_of_frame hframe, hwhole]
    apply drain_append { conn with frames := conn.frames ++ [frame], buffer := rest } more hnone
termination_by conn.buffer.length

theorem foldl_feed {conn : Incoming} (hnone : conn.error = none) (hdrained : drain conn = conn)
    {chunks : List (List UInt8)} (h : (conn.feed chunks.flatten).error = none)
    : chunks.foldl feed conn = conn.feed chunks.flatten := by
  induction chunks generalizing conn with
  | nil =>
    rcases conn with ⟨frames, buffer, error⟩
    cases hnone
    rw [List.foldl_nil, List.flatten_nil]
    unfold feed
    rw [List.append_nil]
    exact hdrained.symm
  | cons chunk chunks ih =>
    have hfeed : ∀ bytes, conn.feed bytes = drain { conn with buffer := conn.buffer ++ bytes } := by
      intro bytes
      unfold feed
      simp only [hnone]
    rw [List.flatten_cons, hfeed, ← List.append_assoc] at h
    rcases drain_append { conn with buffer := conn.buffer ++ chunk } chunks.flatten hnone with
      ⟨e, _, herr⟩ | ⟨hfirst, happend, htwice⟩
    . rw [herr] at h
      cases h
    . rw [happend] at h
      rw [← hfeed chunk] at hfirst happend htwice h
      have hrest : (conn.feed chunk).feed chunks.flatten
          = drain { conn.feed chunk with buffer := (conn.feed chunk).buffer ++ chunks.flatten } := by
        rw [feed]
        simp only [hfirst]
      rw [List.foldl_cons, List.flatten_cons, hfeed (chunk ++ chunks.flatten), ← List.append_assoc,
        happend, ← hrest]
      apply ih hfirst htwice
      rw [hrest]
      exact h

theorem drain_take (frames : List (List UInt8)) {bodies : List (List UInt8)}
    (h : ∀ body ∈ bodies, body.length ≤ maxFrameSize) (n : Nat)
    : ∃ k rest, k ≤ bodies.length
        ∧ drain ⟨frames, (bodies.flatMap frame).take n, none⟩ = ⟨frames ++ bodies.take k, rest, none⟩
        ∧ (bodies.take k).flatMap frame ++ rest = (bodies.flatMap frame).take n
        ∧ (k < bodies.length → n < ((bodies.take (k + 1)).flatMap frame).length) := by
  induction bodies generalizing frames n with
  | nil =>
    refine ⟨0, [], Nat.le_refl 0, ?_, ?_, ?_⟩
    . rw [drain_of_none]
      . simp
      . simp [decode]
    . simp
    . simp
  | cons body bodies ih =>
    have hbody := h body (by simp)
    by_cases hcut : n < (frame body).length
    . have htake : ((body :: bodies).flatMap frame).take n = (frame body).take n := by
        rw [List.flatMap_cons, List.take_append_of_le_length (by omega)]
      refine ⟨0, (frame body).take n, Nat.zero_le _, ?_, ?_, ?_⟩
      . rw [htake, drain_of_none]
        . simp
        . apply decode_take_frame hbody hcut
      . rw [htake]
        simp
      . simp at hcut ⊢
        omega
    . have htake : ((body :: bodies).flatMap frame).take n
          = frame body ++ (bodies.flatMap frame).take (n - (frame body).length) := by
        rw [List.flatMap_cons, List.take_append, List.take_of_length_le (by omega)]
      rcases ih (frames ++ [body]) (fun b hb => h b (by simp [hb])) (n - (frame body).length) with
        ⟨k, rest, hk, hdrain, hrest, hnext⟩
      have hstep : drain ⟨frames, frame body ++ (bodies.flatMap frame).take (n - (frame body).length), none⟩
          = drain ⟨frames ++ [body], (bodies.flatMap frame).take (n - (frame body).length), none⟩ :=
        drain_of_frame (decode_frame hbody _)
      refine ⟨k + 1, rest, ?_, ?_, ?_, ?_⟩
      . simp [hk]
      . rw [htake, hstep, hdrain]
        simp
      . rw [htake, List.take_succ_cons, List.flatMap_cons, List.append_assoc, hrest]
      . intro hlt
        have := hnext (by simpa using hlt)
        rw [List.take_succ_cons, List.flatMap_cons, List.length_append]
        omega

theorem feed_chunks {bodies : List (List UInt8)} (h : ∀ body ∈ bodies, body.length ≤ maxFrameSize)
    {chunks : List (List UInt8)} {n : Nat} (hchunks : chunks.flatten = (bodies.flatMap frame).take n)
    : ∃ k rest, k ≤ bodies.length
        ∧ chunks.foldl feed new = ⟨bodies.take k, rest, none⟩
        ∧ (bodies.take k).flatMap frame ++ rest = chunks.flatten
        ∧ (k < bodies.length → n < ((bodies.take (k + 1)).flatMap frame).length) := by
  rcases drain_take [] h n with ⟨k, rest, hk, hdrain, hrest, hnext⟩
  rw [← hchunks, List.nil_append] at hdrain
  rw [← hchunks] at hrest
  have hfeed : new.feed chunks.flatten = ⟨bodies.take k, rest, none⟩ := hdrain
  refine ⟨k, rest, hk, ?_, hrest, hnext⟩
  rw [foldl_feed rfl, hfeed]
  . apply drain_of_none
    rfl
  . rw [hfeed]

theorem decode_chunks (bodies : List (List UInt8)) (h : ∀ body ∈ bodies, body.length ≤ maxFrameSize)
    (chunks : List (List UInt8))
    : (chunks.flatten = bodies.flatMap frame →
        chunks.foldl feed new = { frames := bodies, buffer := [], error := none })
      ∧ (∀ n, chunks.flatten = (bodies.flatMap frame).take n →
        ∃ k rest, k ≤ bodies.length
          ∧ (k < bodies.length → n < ((bodies.take (k + 1)).flatMap frame).length)
          ∧ chunks.flatten = (bodies.take k).flatMap frame ++ rest
          ∧ chunks.foldl feed new = { frames := bodies.take k, buffer := rest, error := none })
      ∧ (∀ src, (∃ e, (decode src).1 = .error e)
          ↔ 4 ≤ src.length ∧ LittleEndian.decode (src.take 4) > maxFrameSize) := by
  refine ⟨?_, ?_, decode_error_iff⟩
  . intro hchunks
    have hall : chunks.flatten = (bodies.flatMap frame).take (bodies.flatMap frame).length := by
      rw [List.take_length]
      exact hchunks
    rcases feed_chunks h hall with ⟨k, rest, hk, hfeed, hrest, hnext⟩
    -- a frame that is missing would be cut off by the end of the stream
    have hlast : k = bodies.length := by
      by_contra hne
      have hlt := hnext (by omega)
      have hsplit : (bodies.take (k + 1)).flatMap frame ++ (bodies.drop (k + 1)).flatMap frame
          = bodies.flatMap frame := by
        rw [← List.flatMap_append, List.take_append_drop]
      rw [← hsplit, List.length_append] at hlt
      omega
    rw [hlast, List.take_length] at hfeed hrest
    rw [hchunks] at hrest
    rw [hfeed, List.append_right_eq_self.mp hrest]
  . intro n hchunks
    rcases feed_chunks h hchunks with ⟨k, rest, hk, hfeed, hrest, hnext⟩
    exact ⟨k, rest, hk, hnext, hrest.symm, hfeed⟩

theorem decode_chunks_two
    : (∀ body ∈ [[1, 2], ([] : List UInt8)], body.length ≤ maxFrameSize)
        ∧ [[2, 0], [0, 0, 1], [2, 0, 0, 0, 0]].foldl feed new
            = { frames := [[1, 2], []], buffer := [], error := none } := by
  have h : ∀ body ∈ [[1, 2], ([] : List UInt8)], body.length ≤ maxFrameSize := by decide
  exact ⟨h, (decode_chunks [[1, 2], []] h [[2, 0], [0, 0, 1], [2, 0, 0, 0, 0]]).1 rfl⟩

end Incoming
end MemStream
