import Mathlib.Tactic.NormNum
import MemStream.Lib.Assoc
import MemStream.Db.Spec.Queues

/-!
The ownership of segments. The invariant says that every allocated segment is in exactly one place,
either free and zeroed or in the vector of one key, where it holds an item. The operations are made of
three changes: the pool grows, a free segment is given to a key, and segments of a key are drained.
-/

namespace MemStream
namespace SegList

def Item (seg : ListSegment) (payload : List UInt8) : Prop :=
  headerSize + payload.length ≤ segmentSize
    ∧ seg.read 16 (4 + payload.length) = LittleEndian.encode 4 payload.length ++ payload

theorem writeItem_eq_some (seg : ListSegment) {payload : List UInt8}
    (h : headerSize + payload.length ≤ segmentSize)
    : writeItem seg payload
        =
      some (seg.write 16 (LittleEndian.encode 4 payload.length ++ payload)) := by
  unfold headerSize at h
  unfold writeItem
  rw [Block.copyIn_eq_some (by simp; omega)]
  simp only [Option.bind_eq_bind, Option.bind_some]
  split
  . next hempty =>
    rw [List.isEmpty_iff] at hempty
    simp [hempty]
  . rw [Block.copyIn_eq_some (by unfold headerSize; omega)]
    have := Block.write_write_adjacent seg 16 (LittleEndian.encode 4 payload.length) payload
    simp only [LittleEndian.encode_length] at this
    rw [← this]
    rfl

theorem item_write (seg : ListSegment) {payload : List UInt8}
    (h : headerSize + payload.length ≤ segmentSize)
    : Item (seg.write 16 (LittleEndian.encode 4 payload.length ++ payload)) payload := by
  refine ⟨h, ?_⟩
  have := Block.read_write_self seg 16 (LittleEndian.encode 4 payload.length ++ payload)
  simp only [List.length_append, LittleEndian.encode_length] at this
  exact this

theorem Item.readItem_eq {seg : ListSegment} {payload : List UInt8} (h : Item seg payload)
    : readItem seg = some payload := by
  rcases h with ⟨hfits, hread⟩
  rw [Block.read_append] at hread
  have ⟨hlen, hpayload⟩ := List.append_inj hread (by simp)
  have hsmall : LittleEndian.decode (LittleEndian.encode 4 payload.length) = payload.length := by
    apply LittleEndian.decode_encode_of_lt
    unfold headerSize segmentSize at hfits
    norm_num
    omega
  unfold readItem
  rw [Block.copyOut_eq_some (by unfold segmentSize; omega), hlen]
  simp only [Option.bind_eq_bind, Option.bind_some, hsmall]
  rw [Block.copyOut_eq_some hfits]
  exact congrArg some hpayload

def item (list : SegList) (ptr : Nat) : List UInt8 :=
  (readItem (list.mem ptr)).getD []

structure Inv (list : SegList) : Prop where
  free_nodup : list.freeSegs.Nodup
  free_lt : ∀ ptr ∈ list.freeSegs, ptr < list.brk
  free_zero : ∀ ptr ∈ list.freeSegs, list.mem ptr = Block.zeroed
  segs_nodup : ∀ key, (list.segsOf key).Nodup
  segs_lt : ∀ key, ∀ ptr ∈ list.segsOf key, ptr < list.brk
  segs_apart : ∀ key key' ptr, ptr ∈ list.segsOf key → ptr ∈ list.segsOf key' → key = key'
  free_apart : ∀ key, ∀ ptr ∈ list.segsOf key, ptr ∉ list.freeSegs
  items : ∀ key, ∀ ptr ∈ list.segsOf key, ∃ payload, Item (list.mem ptr) payload
  covered : ∀ ptr < list.brk, ptr ∈ list.freeSegs ∨ ∃ key, ptr ∈ list.segsOf key

theorem Inv.readItem_eq {list : SegList} (hinv : list.Inv) {key : String} {ptr : Nat}
    (h : ptr ∈ list.segsOf key)
    : readItem (list.mem ptr) = some (list.item ptr) := by
  rcases hinv.items key ptr h with ⟨payload, hitem⟩
  unfold item
  rw [hitem.readItem_eq]
  rfl

theorem inv_blank : Inv blank where
  free_nodup := by simp [blank]
  free_lt := by simp [blank]
  free_zero := by simp [blank]
  segs_nodup := by simp [blank, segsOf]
  segs_lt := by simp [blank, segsOf]
  segs_apart := by simp [blank, segsOf]
  free_apart := by simp [blank, segsOf]
  items := by simp [blank, segsOf]
  covered := by simp [blank]

def abs (list : SegList) : Pooled where
  free := list.freeSegs.length
  queues := fun key => (list.written.lookup key).map fun segs => segs.map list.item

theorem abs_get (list : SegList) (key : String)
    : list.abs.queues.get key = (list.segsOf key).map list.item := by
  simp only [Queues.get, abs, segsOf]
  cases list.written.lookup key with
  | none => rfl
  | some segs => rfl

theorem segsOf_insert (list : SegList) (key key' : String) (segs : List Nat)
    : segsOf { list with written := list.written.insert key segs } key'
        =
      if key' = key then segs else list.segsOf key' := by
  unfold segsOf
  simp only [Assoc.lookup_insert]
  split
  . rfl
  . rfl

/-
The pool grows.
-/

def grown (list : SegList) : SegList :=
  { list with
    mem := fun ptr =>
      if list.brk ≤ ptr ∧ ptr < list.brk + growth then Block.zeroed else list.mem ptr
    brk := list.brk + growth
    freeSegs := list.freeSegs ++ List.range' list.brk growth }

theorem growSegs_eq (list : SegList) (alloc : Bool)
    : list.growSegs alloc = if alloc then (.ok (), list.grown) else (.panic, list) := by
  rfl

theorem grown_mem {list : SegList} {ptr : Nat} (h : ptr < list.brk)
    : list.grown.mem ptr = list.mem ptr := by
  simp only [grown]
  rw [if_neg]
  omega

theorem Inv.grown {list : SegList} (hinv : list.Inv) : Inv list.grown where
  free_nodup := by
    simp only [SegList.grown]
    rw [List.nodup_append']
    refine ⟨hinv.free_nodup, List.nodup_range', ?_⟩
    intro ptr hfree hnew
    have := hinv.free_lt ptr hfree
    simp only [List.mem_range'_1] at hnew
    omega
  free_lt := by
    intro ptr hptr
    simp only [SegList.grown, List.mem_append, List.mem_range'_1] at hptr ⊢
    cases hptr with
    | inl h =>
      have := hinv.free_lt ptr h
      omega
    | inr h => exact h.2
  free_zero := by
    intro ptr hptr
    simp only [SegList.grown, List.mem_append, List.mem_range'_1] at hptr ⊢
    split
    . rfl
    . next hnew =>
      cases hptr with
      | inl h => exact hinv.free_zero ptr h
      | inr h => exact absurd h hnew
  segs_nodup := hinv.segs_nodup
  segs_lt := by
    intro key ptr hptr
    have := hinv.segs_lt key ptr hptr
    simp only [SegList.grown]
    omega
  segs_apart := hinv.segs_apart
  free_apart := by
    intro key ptr hptr
    have hlt := hinv.segs_lt key ptr hptr
    have hfree := hinv.free_apart key ptr hptr
    simp only [SegList.grown, List.mem_append, List.mem_range'_1, hfree, false_or]
    omega
  items := by
    intro key ptr hptr
    rw [grown_mem (hinv.segs_lt key ptr hptr)]
    exact hinv.items key ptr hptr
  covered := by
    intro ptr hptr
    simp only [SegList.grown, List.mem_append, List.mem_range'_1] at hptr ⊢
    by_cases hlt : ptr < list.brk
    . cases hinv.covered ptr hlt with
      | inl h => exact .inl (.inl h)
      | inr h => exact .inr h
    . exact .inl (.inr (by omega))

theorem Inv.abs_grown {list : SegList} (hinv : list.Inv)
    : list.grown.abs = { list.abs with free := list.abs.free + growth } := by
  simp only [abs, Pooled.mk.injEq]
  constructor
  . simp [SegList.grown]
  . funext key
    show (list.written.lookup key).map _ = _
    cases hkey : list.written.lookup key with
    | none => rw [Option.map_none, Option.map_none]
    | some segs =>
      simp only [Option.map_some, Option.some.injEq]
      apply List.map_congr_left
      intro ptr hptr
      unfold item
      rw [grown_mem]
      apply hinv.segs_lt key
      unfold segsOf
      rw [hkey]
      exact hptr

end SegList
end MemStream
