import MemStream.Lib.LittleEndian
import Mathlib.Data.List.Basic

/-!
Frames on a byte stream: four bytes with the length of the body, then the body. A reader takes the bytes one
by one, as they come, and knows when a frame is complete.
-/

namespace Framing

def frame (body : List UInt8) : List UInt8 :=
  LittleEndian.encode 4 body.length ++ body

def complete (bytes : List UInt8) : Bool :=
  4 ≤ bytes.length && bytes.length == 4 + LittleEndian.decode (bytes.take 4)

structure Reader where
  frames : List (List UInt8)
  rest : List UInt8
  deriving DecidableEq

namespace Reader

def new : Reader where
  frames := []
  rest := []

def push (reader : Reader) (b : UInt8) : Reader :=
  let rest := reader.rest ++ [b]
  if complete rest then
    { frames := reader.frames ++ [rest.drop 4], rest := [] }
  else
    { reader with rest := rest }

def read (reader : Reader) (bytes : List UInt8) : Reader :=
  bytes.foldl push reader

end Reader

@[simp]
theorem frame_length (body : List UInt8) : (frame body).length = 4 + body.length := by
  simp [frame]

theorem frame_drop (body : List UInt8) : (frame body).drop 4 = body := by
  simp [frame]

theorem frame_take (body : List UInt8) : (frame body).take 4 = LittleEndian.encode 4 body.length := by
  simp [frame]

theorem complete_take {body : List UInt8} (h : body.length < 4294967296) {n : Nat}
    (hn : n ≤ (frame body).length)
    : complete ((frame body).take n) = true ↔ n = (frame body).length := by
  have hlength : ((frame body).take n).length = n := by
    rw [List.length_take]
    omega
  rw [frame_length] at hn ⊢
  unfold complete
  rw [hlength]
  by_cases hshort : n < 4
  . simp
    omega
  . have htake : ((frame body).take n).take 4 = LittleEndian.encode 4 body.length := by
      rw [List.take_take, Nat.min_eq_left (by omega), frame_take]
    rw [htake, LittleEndian.decode_encode_of_lt (by omega)]
    simp
    omega

namespace Reader

theorem read_append (reader : Reader) (bytes bytes' : List UInt8)
    : reader.read (bytes ++ bytes') = (reader.read bytes).read bytes' := by
  unfold read
  rw [List.foldl_append]

theorem read_take_frame {reader : Reader} (hrest : reader.rest = []) {body : List UInt8}
    (h : body.length < 4294967296) {n : Nat} (hn : n < (frame body).length)
    : reader.read ((frame body).take n) = { reader with rest := (frame body).take n } := by
  induction n with
  | zero =>
    rcases reader with ⟨frames, rest⟩
    cases hrest
    rfl
  | succ n ih =>
    have hread := ih (by omega)
    rw [List.take_succ_eq_append_getElem (by omega), read_append, hread]
    unfold read push
    simp only [List.foldl_cons, List.foldl_nil]
    rw [← List.take_succ_eq_append_getElem (by omega), if_neg]
    rw [complete_take h (by omega)]
    omega

theorem read_frame {reader : Reader} (hrest : reader.rest = []) {body : List UInt8}
    (h : body.length < 4294967296)
    : reader.read (frame body) = { frames := reader.frames ++ [body], rest := [] } := by
  have hlength := frame_length body
  have hlast := List.take_succ_eq_append_getElem (show 3 + body.length < (frame body).length by omega)
  have hall : (frame body).take (3 + body.length + 1) = frame body := by
    apply List.take_of_length_le
    omega
  rw [hall] at hlast
  have hread := read_take_frame hrest h (show 3 + body.length < (frame body).length by omega)
  have hcomplete : complete (frame body) = true := by
    have := (complete_take h (Nat.le_refl _)).mpr rfl
    rw [List.take_length] at this
    assumption
  rw [hlast, read_append, hread]
  unfold read push
  simp only [List.foldl_cons, List.foldl_nil]
  rw [← hlast, if_pos hcomplete, frame_drop]

theorem frames_read_of_prefix {reader : Reader} (hrest : reader.rest = []) {bodies : List (List UInt8)}
    (h : ∀ body ∈ bodies, body.length < 4294967296) {bytes : List UInt8}
    (hbytes : bytes <+: bodies.flatMap frame)
    : (reader.read bytes).frames <+: reader.frames ++ bodies := by
  induction bodies generalizing reader bytes with
  | nil =>
    cases List.prefix_nil.mp hbytes
    exact List.prefix_append _ _
  | cons body bodies ih =>
    have hbody := h body (by simp)
    rw [List.flatMap_cons] at hbytes
    by_cases hcut : bytes.length < (frame body).length
    . have htake : bytes = (frame body).take bytes.length := by
        apply List.prefix_iff_eq_take.mp
        exact List.prefix_of_prefix_length_le hbytes (List.prefix_append _ _) (Nat.le_of_lt hcut)
      rw [htake, read_take_frame hrest hbody hcut]
      exact List.prefix_append _ _
    . have hwhole : frame body <+: bytes :=
        List.prefix_of_prefix_length_le (List.prefix_append _ _) hbytes (Nat.le_of_not_lt hcut)
      rcases hwhole with ⟨bytes', rfl⟩
      rw [read_append, read_frame hrest hbody, List.append_cons reader.frames body bodies]
      apply ih
      . rfl
      . exact fun b hb => h b (by simp [hb])
      . exact (List.prefix_append_right_inj _).mp hbytes

theorem frames_read_flatMap {reader : Reader} (hrest : reader.rest = []) {bodies : List (List UInt8)}
    (h : ∀ body ∈ bodies, body.length < 4294967296)
    : (reader.read (bodies.flatMap frame)).frames = reader.frames ++ bodies := by
  induction bodies generalizing reader with
  | nil => simp [read]
  | cons body bodies ih =>
    rw [List.flatMap_cons, read_append, read_frame hrest (h body (by simp)), ih rfl]
    . rw [List.append_assoc, List.singleton_append]
    . exact fun b hb => h b (by simp [hb])

end Reader
end Framing
