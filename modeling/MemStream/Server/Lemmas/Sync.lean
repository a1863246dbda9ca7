import MemStream.Db.Lemmas.Base64
import MemStream.Server.Impl.Sync
import MemStream.Server.Lemmas.Codec
import MemStream.Server.Lemmas.Reads

namespace MemStream

open Layout LengthPrefixCodec

section Sync

variable {toVec : AofEntry → List UInt8} {fromSlice : List UInt8 → Except String AofEntry}

theorem decodeEntries_toBase64 {entries : List AofEntry}
    (h : ∀ entry ∈ entries, fromSlice (toVec entry) = .ok entry)
    : decodeEntries fromSlice (entries.map fun e => (e.toBase64 toVec).toUTF8.data.toList)
        =
      .ok entries := by
  induction entries with
  | nil => rfl
  | cons entry entries ih =>
    have hentry := fromBase64_toBase64 (h entry (by simp))
    have hrest := ih (fun e he => h e (by simp [he]))
    simp only [List.map_cons, decodeEntries]
    rw [Array.toArray_toList, Utf8.fromUTF8?_toUTF8]
    simp only [hentry, hrest, Outcome.map_ok]

theorem syncFrame_eq (entries : List AofEntry)
    : syncFrame toVec entries
        =
      Command.tag (.haSync (entries.map fun e => (e.toBase64 toVec).toUTF8.data.toList))
        :: Command.fields ""
            (.haSync (entries.map fun e => (e.toBase64 toVec).toUTF8.data.toList)) := by
  rfl

theorem length_le_many (vals : List (List UInt8))
    : vals.length ≤ (many bytes vals).length
        ∧ ∀ val ∈ vals, val.length ≤ (many bytes vals).length := by
  induction vals with
  | nil => simp
  | cons val vals ih =>
    simp only [many, List.length_append, LittleEndian.encode_length, List.flatMap_cons] at ih ⊢
    have hval : (bytes val).length = 4 + val.length := by simp [bytes]
    rcases ih with ⟨hlength, hvals⟩
    constructor
    . rw [List.length_cons]
      omega
    . intro val' hval'
      rcases List.mem_cons.mp hval' with rfl | hmem
      . omega
      . have := hvals val' hmem
        omega

theorem parseCommand_syncFrame {entries : List AofEntry}
    (hsize : (syncFrame toVec entries).length ≤ maxFrameSize)
    : parseCommand ample (syncFrame toVec entries)
        =
      .ok (.haSync (entries.map fun e => (e.toBase64 toVec).toUTF8.data.toList)) := by
  rw [syncFrame_eq] at hsize ⊢
  have hle := length_le_many (entries.map fun e => (e.toBase64 toVec).toUTF8.data.toList)
  simp only [List.length_cons, Command.fields, maxFrameSize] at hsize
  apply (parses_of_reads (reads_fields _)).1
  constructor
  . unfold Layout.Fits
    omega
  . intro val hval
    have := hle.2 val hval
    unfold Layout.Fits
    omega

theorem sync_round_trip (entries : List AofEntry)
    (hserde : ∀ entry ∈ entries, fromSlice (toVec entry) = .ok entry)
    (hsize : (syncFrame toVec entries).length ≤ maxFrameSize)
    : ∃ items,
        (∀ rest, decode (sendRecvBytes (syncFrame toVec entries) ++ rest)
          = (.ok (some (syncFrame toVec entries)), rest))
          ∧ parseCommand ample (syncFrame toVec entries) = .ok (.haSync items)
          ∧ decodeEntries fromSlice items = .ok entries := by
  refine ⟨entries.map fun e => (e.toBase64 toVec).toUTF8.data.toList, ?_, ?_, ?_⟩
  . intro rest
    apply decode_frame hsize
  . exact parseCommand_syncFrame hsize
  . apply decodeEntries_toBase64 hserde

theorem sync_round_trip_two
    : let flush := "\x7b\"op\":\"KvFlush\",\"db\":\"d\"\x7d".toUTF8.data.toList
      let pop := "\x7b\"op\":\"ListPop\",\"key\":\"a\"\x7d".toUTF8.data.toList
      let toVec (entry : AofEntry) : List UInt8 := if entry = .kvFlush "d" then flush else pop
      let fromSlice (bytes : List UInt8) : Except String AofEntry :=
        if bytes = flush then .ok (.kvFlush "d")
        else if bytes = pop then .ok (.listPop "a")
        else .error "expected value at line 1 column 1"
      let entries : List AofEntry := [.kvFlush "d", .listPop "a"]
      (syncFrame toVec entries).length ≤ maxFrameSize
        ∧ ∃ items,
            decode (sendRecvBytes (syncFrame toVec entries)) = (.ok (some (syncFrame toVec entries)), [])
              ∧ parseCommand ample (syncFrame toVec entries) = .ok (.haSync items)
              ∧ decodeEntries fromSlice items = .ok entries := by
  intro flush pop toVec fromSlice entries
  have hserde : ∀ entry ∈ entries, fromSlice (toVec entry) = .ok entry := by
    decide +kernel
  have hsize : (syncFrame toVec entries).length ≤ maxFrameSize := by
    decide +kernel
  rcases sync_round_trip entries hserde hsize with ⟨items, hdecode, hparse, hentries⟩
  refine ⟨hsize, items, ?_, hparse, hentries⟩
  have := hdecode []
  rw [List.append_nil] at this
  exact this

/-
The whole file for a follower that has registered, in one frame.
-/

theorem length_syncFrame (entries : List AofEntry)
    : (syncFrame toVec entries).length
        =
      5 + (entries.map fun e => 4 + 4 * (((toVec e).length + 2) / 3)).sum := by
  have hitems : ((entries.map fun e => (e.toBase64 toVec).toUTF8.data.toList).flatMap fun b =>
        LittleEndian.encode 4 b.length ++ b).length
      = (entries.map fun e => 4 + 4 * (((toVec e).length + 2) / 3)).sum := by
    rw [List.length_flatMap, List.map_map]
    apply congrArg List.sum
    apply List.map_congr_left
    intro e _
    simp only [Function.comp_apply, List.length_append, LittleEndian.encode_length,
      AofEntry.length_toBase64]
  unfold syncFrame
  dsimp only
  rw [List.length_append, hitems, List.length_append, LittleEndian.encode_length]
  rfl

/-- The frames are accepted one by one as they were sent, and have the entries in their order. -/
structure CatchesUp (fromSlice : List UInt8 → Except String AofEntry) (sent : List (List UInt8))
    (aofCopy : List AofEntry)
    : Prop where
  lengths : ∀ bytes ∈ sent,
    LittleEndian.decode (bytes.take 4) = (bytes.drop 4).length
      ∧ (bytes.drop 4).length ≤ maxFrameSize
  accepted : ∀ bytes ∈ sent, ∀ rest, decode (bytes ++ rest) = (.ok (some (bytes.drop 4)), rest)
  entries : ∃ items : List (List (List UInt8)),
    sent.map (fun bytes => parseCommand ample (bytes.drop 4)) = items.map (fun vals => .ok (.haSync vals))
      ∧ decodeEntries fromSlice items.flatten = .ok aofCopy

theorem sendRecvBytes_eq (body : List UInt8) : sendRecvBytes body = Framing.frame body := by
  rfl

theorem catchesUp_of_length {aofCopy : List AofEntry}
    (hserde : ∀ entry ∈ aofCopy, fromSlice (toVec entry) = .ok entry)
    (hsize : (syncFrame toVec aofCopy).length ≤ maxFrameSize)
    : CatchesUp fromSlice [sendRecvBytes (syncFrame toVec aofCopy)] aofCopy where
  lengths := by
    intro bytes hbytes
    rw [List.mem_singleton.mp hbytes, sendRecvBytes_eq, Framing.frame_take, Framing.frame_drop]
    refine ⟨?_, hsize⟩
    apply LittleEndian.decode_encode_of_lt
    unfold maxFrameSize at hsize
    omega
  accepted := by
    intro bytes hbytes rest
    rw [List.mem_singleton.mp hbytes, sendRecvBytes_eq, Framing.frame_drop]
    exact decode_frame hsize rest
  entries := by
    refine ⟨[aofCopy.map fun e => (e.toBase64 toVec).toUTF8.data.toList], ?_, ?_⟩
    . rw [List.map_singleton, sendRecvBytes_eq, Framing.frame_drop, parseCommand_syncFrame hsize]
      rfl
    . rw [List.flatten_singleton]
      exact decodeEntries_toBase64 hserde

theorem not_catchesUp_of_length {aofCopy aofCopy' : List AofEntry}
    (hsize : maxFrameSize < (syncFrame toVec aofCopy).length)
    : ¬CatchesUp fromSlice [sendRecvBytes (syncFrame toVec aofCopy)] aofCopy' := by
  intro h
  have hle := (h.lengths _ (List.mem_singleton_self _)).2
  rw [sendRecvBytes_eq, Framing.frame_drop] at hle
  omega

theorem catchesUp_iff {aofCopy : List AofEntry}
    (hserde : ∀ entry ∈ aofCopy, fromSlice (toVec entry) = .ok entry)
    : CatchesUp fromSlice (catchUp toVec aofCopy) aofCopy
        ↔
      5 + (aofCopy.map fun e => 4 + 4 * (((toVec e).length + 2) / 3)).sum ≤ 16777216 := by
  have hmax : maxFrameSize = 16777216 := by rfl
  rw [← length_syncFrame, ← hmax]
  unfold catchUp
  cases aofCopy with
  | nil =>
    constructor
    . intro _
      exact Nat.le_of_ble_eq_true rfl
    . intro _
      exact ⟨by simp, by simp, [], rfl, rfl⟩
  | cons entry aofCopy =>
    rw [List.isEmpty_cons, if_neg (by simp)]
    constructor
    . intro h
      apply Nat.le_of_not_lt
      intro hlt
      exact not_catchesUp_of_length hlt h
    . exact catchesUp_of_length hserde

def setText : List UInt8 :=
  "\x7b\"op\":\"KvSet\",\"db\":\"d\",\"key\":\"k\",\"val\":[7],\"ttl\":0\x7d".toUTF8.data.toList

theorem length_setText : setText.length = 51 := by
  decide +kernel

def writeSet (_ : AofEntry) : List UInt8 :=
  setText

def readSet (bytes : List UInt8) : Except String AofEntry :=
  if bytes = setText then .ok (.kvSet "d" "k" [7] 0) else .error "expected value at line 1 column 1"

def manySets (n : Nat) : List AofEntry :=
  List.replicate n (.kvSet "d" "k" [7] 0)

theorem readSet_writeSet {n : Nat} : ∀ entry ∈ manySets n, readSet (writeSet entry) = .ok entry := by
  intro entry hentry
  rw [List.eq_of_mem_replicate hentry]
  exact if_pos rfl

theorem sum_manySets (n : Nat)
    : ((manySets n).map fun e => 4 + 4 * (((writeSet e).length + 2) / 3)).sum = 72 * n := by
  unfold manySets writeSet
  rw [List.map_replicate, List.sum_replicate_nat, length_setText]
  omega

theorem catchesUp_manySets
    : CatchesUp readSet (catchUp writeSet (manySets 233016)) (manySets 233016) := by
  rw [catchesUp_iff readSet_writeSet, sum_manySets]
  omega

theorem not_catchesUp_manySets
    : (∀ entry ∈ manySets 233017, readSet (writeSet entry) = .ok entry)
        ∧ ¬CatchesUp readSet (catchUp writeSet (manySets 233017)) (manySets 233017) := by
  refine ⟨readSet_writeSet, ?_⟩
  have hsize : maxFrameSize < (syncFrame writeSet (manySets 233017)).length := by
    rw [length_syncFrame, sum_manySets]
    unfold maxFrameSize
    omega
  have hempty : (manySets 233017).isEmpty = false := by
    unfold manySets
    rw [List.isEmpty_replicate]
    rfl
  unfold catchUp
  rw [hempty, if_neg Bool.false_ne_true]
  exact not_catchesUp_of_length hsize

end Sync
end MemStream
