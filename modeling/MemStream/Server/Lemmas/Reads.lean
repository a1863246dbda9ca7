import MemStream.Lib.Utf8
import MemStream.Server.Lemmas.Proto

namespace MemStream
namespace Cursor

open Layout

variable {α β : Type}

def Reads (reader : Reader α) (bytes : List UInt8) (val : α) : Prop :=
  ∀ front rest : List UInt8,
    reader ⟨front ++ (bytes ++ rest), front.length⟩
      =
    .ok (val, ⟨front ++ (bytes ++ rest), front.length + bytes.length⟩)

theorem reads_pure (val : α) : Reads (pure val) [] val := by
  intro front rest
  rfl

theorem Reads.bind {f : Reader α} {g : α → Reader β} {bytes bytes' : List UInt8} {a : α} {b : β}
    (hf : Reads f bytes a) (hg : Reads (g a) bytes' b)
    : Reads (f >>= g) (bytes ++ bytes') b := by
  intro front rest
  have hfirst := hf front (bytes' ++ rest)
  have hsecond := hg (front ++ bytes) rest
  rw [List.append_assoc, List.length_append] at hsecond
  simp only [Bind.bind, StateT.bind, Outcome.bind, List.append_assoc, hfirst, hsecond,
    List.length_append, Nat.add_assoc]

theorem Reads.map {f : Reader α} {bytes : List UInt8} {a : α} (h : Reads f bytes a) (g : α → β)
    : Reads (f >>= fun x => pure (g x)) bytes (g a) := by
  have := h.bind (reads_pure (g a)) (g := fun x => pure (g x))
  rw [List.append_nil] at this
  exact this

theorem reads_read (bytes : List UInt8) (eof : String) : Reads (read bytes.length eof) bytes bytes := by
  intro front rest
  rw [read_eq (by simp), if_neg]
  . rw [List.drop_left, List.take_left]
  . simp

theorem reads_encode (w n : Nat) (eof : String)
    : Reads (read w eof) (LittleEndian.encode w n) (LittleEndian.encode w n) := by
  have := reads_read (LittleEndian.encode w n) eof
  rw [LittleEndian.encode_length] at this
  exact this

theorem reads_readU16Le {n : Nat} (h : n < 65536)
    : Reads readU16Le (LittleEndian.encode 2 n) (UInt16.ofNat n) := by
  have := (reads_encode 2 n "unexpected EOF reading u16").map
    fun bytes => UInt16.ofNat (LittleEndian.decode bytes)
  rw [LittleEndian.decode_encode_of_lt h] at this
  exact this

theorem reads_readU32Le {n : Nat} (h : n < 4294967296)
    : Reads readU32Le (LittleEndian.encode 4 n) (UInt32.ofNat n) := by
  have := (reads_encode 4 n "unexpected EOF reading u32").map
    fun bytes => UInt32.ofNat (LittleEndian.decode bytes)
  rw [LittleEndian.decode_encode_of_lt h] at this
  exact this

theorem reads_u32 (x : UInt32) : Reads readU32Le (u32 x) x := by
  have := reads_readU32Le x.toNat_lt
  rw [UInt32.ofNat_toNat] at this
  exact this

theorem reads_readU64Le (x : UInt64) : Reads readU64Le (u64 x) x := by
  have := (reads_encode 8 x.toNat "unexpected EOF reading u64").map
    fun bytes => UInt64.ofNat (LittleEndian.decode bytes)
  rw [LittleEndian.decode_encode_uint64] at this
  exact this

theorem reads_readStr {s : String} (h : StrFits s) : Reads readStr (str s) s := by
  apply Reads.bind
  . apply reads_readU16Le h
  . have hread := reads_read s.toUTF8.data.toList "unexpected EOF reading string"
    rw [UInt16.toNat_ofNat_of_lt' h]
    rw [← List.append_nil s.toUTF8.data.toList]
    apply Reads.bind
    . rw [List.append_nil]
      exact hread
    . rw [Array.toArray_toList, Utf8.fromUTF8?_toUTF8]
      apply reads_pure

theorem reads_readBytes {val : List UInt8} (h : Layout.Fits val) : Reads readBytes (bytes val) val := by
  apply Reads.bind
  . apply reads_readU32Le h
  . rw [UInt32.toNat_ofNat_of_lt' h]
    apply reads_read

theorem reads_readMany {item : Reader α} {encode : α → List UInt8} {vals : List α}
    (h : ∀ val ∈ vals, Reads item (encode val) val)
    : Reads (readMany item vals.length) (vals.flatMap encode) vals := by
  induction vals with
  | nil => apply reads_pure
  | cons val vals ih =>
    rw [List.length_cons, List.flatMap_cons]
    apply Reads.bind
    . apply h
      simp
    . apply Reads.map
      apply ih
      intro val' hval'
      apply h
      simp [hval']

theorem reads_counted {item : Reader α} {encode : α → List UInt8} {vals : List α}
    (hlength : Layout.Fits vals) (h : ∀ val ∈ vals, Reads item (encode val) val) (size : Nat)
    (f : List α → β)
    : Reads (do
        let count ← readU32Le
        reserve ample size count.toNat
        let vals ← readMany item count.toNat
        pure (f vals)) (many encode vals) (f vals) := by
  apply Reads.bind
  . apply reads_readU32Le hlength
  . rw [UInt32.toNat_ofNat_of_lt' hlength, reserve_ample, pure_bind]
    apply Reads.map
    apply reads_readMany h

end Cursor

open Cursor Layout

theorem reads_readEntry {e : UInt64 × List UInt8} (h : Layout.Fits e.2)
    : Reads readEntry (entry e) e := by
  apply Reads.bind
  . apply reads_readU64Le
  . apply Reads.map
    apply reads_readBytes h

theorem reads_fields {cmd : Command} {listDb : String} (h : cmd.Fits listDb)
    : Reads (parseFields ample cmd.tag) (cmd.fields listDb) cmd := by
  cases cmd with
  | createGroup name => apply (reads_readStr h).map
  | dropGroup name => apply (reads_readStr h).map
  | add group timestamp payload =>
    apply (reads_readStr h.1).bind
    apply (reads_readU64Le timestamp).bind
    apply (reads_readBytes h.2).map
  | addRange group entries =>
    apply (reads_readStr h.1).bind
    apply reads_counted h.2.1
    intro e he
    apply reads_readEntry (h.2.2 e he)
  | read group id =>
    apply (reads_readStr h).bind
    apply (reads_readU64Le id).map
  | readRange group start stop =>
    apply (reads_readStr h).bind
    apply (reads_readU64Le start).bind
    apply (reads_readU64Le stop).map
  | remove group upToId =>
    apply (reads_readStr h).bind
    apply (reads_readU64Le upToId).map
  | listGroups => apply reads_pure
  | groupStats group => apply (reads_readStr h).map
  | setKey db key val ttlSecs =>
    apply (reads_readStr h.1).bind
    apply (reads_readStr h.2.1).bind
    apply (reads_readU64Le ttlSecs).bind
    apply (reads_readBytes h.2.2).map
  | getKey db key =>
    apply (reads_readStr h.1).bind
    apply (reads_readStr h.2).map
  | delKey db key =>
    apply (reads_readStr h.1).bind
    apply (reads_readStr h.2).map
  | keys db => apply (reads_readStr h).map
  | flush db => apply (reads_readStr h).map
  | lPush key val =>
    apply (reads_readStr h.1).bind
    apply (reads_readStr h.2.1).bind
    apply (reads_readBytes h.2.2).map
  | lPushRange key vals =>
    apply (reads_readStr h.1).bind
    apply (reads_readStr h.2.1).bind
    apply reads_counted h.2.2.1
    intro val hval
    apply reads_readBytes (h.2.2.2 val hval)
  | lPop key =>
    apply (reads_readStr h.1).bind
    apply (reads_readStr h.2).map
  | lPopRange key start stop =>
    apply (reads_readStr h.1).bind
    apply (reads_readStr h.2).bind
    apply (reads_u32 start).bind
    apply (reads_u32 stop).map
  | lPopCount key count =>
    apply (reads_readStr h.1).bind
    apply (reads_readStr h.2).bind
    apply (reads_u32 count).map
  | lLen key =>
    apply (reads_readStr h.1).bind
    apply (reads_readStr h.2).map
  | lFlush key =>
    apply (reads_readStr h.1).bind
    apply (reads_readStr h.2).map
  | haRegisterFollower addr => apply (reads_readStr h).map
  | haHeartBeat => apply reads_pure
  | haSync entries =>
    apply reads_counted h.1
    intro val hval
    apply reads_readBytes (h.2 val hval)

def Parses (frame : List UInt8) (cmd : Command) : Prop :=
  parseCommand ample frame = .ok cmd
    ∧ (readU8 >>= parseFields ample) (Cursor.new frame) = .ok (cmd, ⟨frame, frame.length⟩)

theorem parse_of_reads {tag : UInt8} {fields : List UInt8} {cmd : Command}
    (h : Reads (parseFields ample tag) fields cmd) (rest : List UInt8)
    : parseCommand ample (tag :: fields ++ rest) = .ok cmd
        ∧ (readU8 >>= parseFields ample) (Cursor.new (tag :: fields ++ rest))
            = .ok (cmd, ⟨tag :: fields ++ rest, (tag :: fields).length⟩) := by
  have hfields : parseFields ample tag ⟨tag :: (fields ++ rest), 1⟩
      = .ok (cmd, ⟨tag :: (fields ++ rest), 1 + fields.length⟩) := h [tag] rest
  constructor
  . rw [List.cons_append, parseCommand_cons]
    exact run'_eq_ok.mpr ⟨_, hfields⟩
  . simp only [Bind.bind, StateT.bind, Outcome.bind, List.cons_append, readU8_new, hfields]
    rw [List.length_cons, Nat.add_comm]

theorem parses_of_reads {tag : UInt8} {fields : List UInt8} {cmd : Command}
    (h : Reads (parseFields ample tag) fields cmd)
    : Parses (tag :: fields) cmd := by
  have := parse_of_reads h []
  rw [List.append_nil] at this
  exact this

end MemStream
