import MemStream.Db.Lemmas.SegList.History

namespace MemStream
namespace SegList

inductive Call where
  | push (alloc : Bool) (key : String) (payload : List UInt8)
  | pushRange (alloc : Nat → Bool) (key : String) (items : List (List UInt8))
  | pop (key : String)
  | popCount (key : String) (count : Nat)
  | popRange (key : String) (start stop : Nat)
  | len (key : String)
  | flush (key : String)

def Call.key : Call → String
  | .push _ key _ | .pushRange _ key _ | .pop key | .popCount key _ | .popRange key _ _ | .len key
  | .flush key => key

def call (list : SegList) : Call → SegList
  | .push alloc key payload => (list.push alloc key payload).2
  | .pushRange alloc key items => (list.pushRange alloc key items).2
  | .pop key => (list.pop key).2
  | .popCount key count => (list.popCount key count).2
  | .popRange key start stop => (list.popRange key start stop).2
  | .len key => (list.len key).2
  | .flush key => (list.flush key).2

inductive Reachable : SegList → Prop where
  | new {list : SegList} (h : SegList.new true = .ok list) : Reachable list
  | call {list : SegList} (h : Reachable list) (c : Call) : Reachable (list.call c)

theorem Inv.call {list : SegList} (hinv : list.Inv) (c : Call) : Inv (list.call c) := by
  cases c with
  | push alloc key payload => exact (hinv.push_refines alloc key payload).1
  | pushRange alloc key items => exact (hinv.pushRange_refines alloc key items).1
  | pop key => exact (hinv.pop_refines key).1
  | popCount key count => exact (hinv.popCount_refines key count).1
  | popRange key start stop => exact (hinv.popRange_refines key start stop).1
  | len key => exact (hinv.len_refines key).1
  | flush key => exact (hinv.flush_refines key).1

theorem Reachable.inv {list : SegList} (h : list.Reachable) : list.Inv := by
  induction h with
  | new hnew =>
    rw [new_eq_ok, Outcome.ok.injEq] at hnew
    rw [← hnew]
    exact inv_blank.grown
  | call _ c ih => exact ih.call c

/-
The places of the segments.
-/

def places (list : SegList) : List Nat :=
  list.freeSegs ++ list.written.entries.flatMap Sigma.snd

theorem mem_entries {list : SegList} {key : String} {segs : List Nat}
    (h : ⟨key, segs⟩ ∈ list.written.entries)
    : list.segsOf key = segs := by
  apply segsOf_eq
  rwa [← Option.mem_def, AList.mem_lookup_iff]

theorem mem_places {list : SegList} {ptr : Nat}
    : ptr ∈ list.places ↔ ptr ∈ list.freeSegs ∨ ∃ key, ptr ∈ list.segsOf key := by
  unfold places
  rw [List.mem_append, List.mem_flatMap]
  apply or_congr Iff.rfl
  constructor
  . rintro ⟨⟨key, segs⟩, hmem, hptr⟩
    refine ⟨key, ?_⟩
    rw [mem_entries hmem]
    assumption
  . rintro ⟨key, hptr⟩
    unfold segsOf at hptr
    cases hlookup : list.written.lookup key with
    | none => simp [hlookup] at hptr
    | some segs =>
      rw [hlookup, Option.getD_some] at hptr
      exact ⟨⟨key, segs⟩, AList.mem_lookup_iff.mp hlookup, hptr⟩

theorem Inv.nodup_places {list : SegList} (hinv : list.Inv) : list.places.Nodup := by
  unfold places
  rw [List.nodup_append']
  refine ⟨hinv.free_nodup, ?_, ?_⟩
  . rw [List.nodup_flatMap]
    constructor
    . rintro ⟨key, segs⟩ hmem
      rw [← mem_entries hmem]
      exact hinv.segs_nodup key
    . -- two vectors belong to two keys
      apply (List.nodupKeys_iff_pairwise.mp list.written.nodupKeys).imp_of_mem
      rintro ⟨key, segs⟩ ⟨key', segs'⟩ hmem hmem' hne ptr hptr hptr'
      apply hne
      apply hinv.segs_apart key key' ptr
      . rw [mem_entries hmem]
        assumption
      . rw [mem_entries hmem']
        assumption
  . intro ptr hfree hptr
    rcases List.mem_flatMap.mp hptr with ⟨⟨key, segs⟩, hmem, hptr⟩
    apply hinv.free_apart key ptr _ hfree
    rw [mem_entries hmem]
    assumption

theorem Inv.places_perm {list : SegList} (hinv : list.Inv)
    : list.places.Perm (List.range list.brk) := by
  rw [List.perm_ext_iff_of_nodup hinv.nodup_places List.nodup_range]
  intro ptr
  rw [mem_places, List.mem_range]
  constructor
  . rintro (hfree | ⟨key, hptr⟩)
    . exact hinv.free_lt ptr hfree
    . exact hinv.segs_lt key ptr hptr
  . exact hinv.covered ptr

theorem Inv.length_places {list : SegList} (hinv : list.Inv) : list.places.length = list.brk := by
  rw [hinv.places_perm.length_eq, List.length_range]

theorem Item.length_bytes {seg : ListSegment} {payload : List UInt8} (h : Item seg payload)
    : seg.read 16 4 = LittleEndian.encode 4 payload.length := by
  have hread := h.2
  rw [Block.read_append] at hread
  exact (List.append_inj hread (by simp)).1

/-
How often a call lets the pool grow.
-/

def pushGrows (list : SegList) (alloc : Bool) : Nat :=
  if list.freeSegs.isEmpty && alloc then 1 else 0

def pushAllGrows (list : SegList) (alloc : Nat → Bool) (key : String) : List (List UInt8) → Nat
  | [] => 0
  | item :: items =>
    list.pushGrows (alloc 0)
      + match list.push (alloc 0) key item with
        | (.ok (), list) => list.pushAllGrows (fun i => alloc (i + 1)) key items
        | _ => 0

def pushRangeGrows (list : SegList) (alloc : Nat → Bool) (key : String) (items : List (List UInt8))
    : Nat :=
  if list.freeSegs.length < items.length then
    match list.growSegs (alloc 0) with
    | (.ok (), list) => 1 + list.pushAllGrows (fun i => alloc (i + 1)) key items
    | _ => 0
  else
    list.pushAllGrows (fun i => alloc (i + 1)) key items

def grows (list : SegList) : Call → Nat
  | .push alloc _ _ => list.pushGrows alloc
  | .pushRange alloc key items => list.pushRangeGrows alloc key items
  | .pop .. | .popCount .. | .popRange .. | .len .. | .flush .. => 0

theorem pushFree_brk (list : SegList) (key : String) (payload : List UInt8)
    : (list.pushFree key payload).2.brk = list.brk := by
  unfold pushFree
  split
  . rfl
  . split
    . rfl
    . split
      . rfl
      . rfl

theorem push_brk (list : SegList) (alloc : Bool) (key : String) (payload : List UInt8)
    : (list.push alloc key payload).2.brk = list.brk + growth * list.pushGrows alloc := by
  unfold push pushGrows
  rw [growSegs_eq]
  split
  . next hempty =>
    cases alloc with
    | true => simp [hempty, pushFree_brk, grown]
    | false => simp
  . next hfree => simp [hfree, pushFree_brk]

theorem pushAll_brk (list : SegList) (alloc : Nat → Bool) (key : String) (items : List (List UInt8))
    : (list.pushAll alloc key items).2.brk = list.brk + growth * list.pushAllGrows alloc key items := by
  induction items generalizing list alloc with
  | nil => rfl
  | cons item items ih =>
    have hpush := list.push_brk (alloc 0) key item
    unfold pushAll pushAllGrows
    rcases hres : list.push (alloc 0) key item with ⟨res, list'⟩
    rw [hres] at hpush
    cases res with
    | ok =>
      dsimp only at hpush ⊢
      rw [ih, hpush, Nat.mul_add, Nat.add_assoc]
    | err e => exact hpush
    | panic => exact hpush

theorem pushRange_brk (list : SegList) (alloc : Nat → Bool) (key : String)
    (items : List (List UInt8))
    : (list.pushRange alloc key items).2.brk
        =
      list.brk + growth * list.pushRangeGrows alloc key items := by
  unfold pushRange pushRangeGrows
  rw [growSegs_eq]
  split
  . cases alloc 0 with
    | true =>
      simp only [if_true, pushAll_brk, Nat.mul_add, ← Nat.add_assoc]
      rfl
    | false => rfl
  . apply pushAll_brk

theorem pop_brk (list : SegList) (key : String) : (list.pop key).2.brk = list.brk := by
  unfold pop
  split
  . rfl
  . rfl
  . dsimp only
    split
    . rfl
    . rfl

theorem popTimes_brk (list : SegList) (key : String) (n : Nat)
    : (list.popTimes key n).2.brk = list.brk := by
  induction n generalizing list with
  | zero => rfl
  | succ n ih =>
    have hpop := list.pop_brk key
    unfold popTimes
    rcases hres : list.pop key with ⟨res, list'⟩
    rw [hres] at hpop
    cases res with
    | ok data =>
      dsimp only
      rw [ih]
      exact hpop
    | err e => exact hpop
    | panic => exact hpop

theorem popCount_brk (list : SegList) (key : String) (count : Nat)
    : (list.popCount key count).2.brk = list.brk := by
  unfold popCount
  split
  . rfl
  . apply popTimes_brk

theorem takeOut_brk (list : SegList) (ptrs : List Nat) : (list.takeOut ptrs).2.brk = list.brk := by
  induction ptrs generalizing list with
  | nil => rfl
  | cons ptr ptrs ih =>
    unfold takeOut
    split
    . rfl
    . apply ih

theorem popRange_brk (list : SegList) (key : String) (start stop : Nat)
    : (list.popRange key start stop).2.brk = list.brk := by
  unfold popRange
  split
  . rfl
  . split
    . rfl
    . split
      . rfl
      . apply takeOut_brk

theorem len_brk (list : SegList) (key : String) : (list.len key).2.brk = list.brk := by
  unfold len
  split
  . rfl
  . rfl

theorem flush_brk (list : SegList) (key : String) : (list.flush key).2.brk = list.brk := by
  unfold flush
  split
  . rfl
  . dsimp only
    rw [foldl_release]
    rfl

theorem call_brk (list : SegList) (c : Call)
    : (list.call c).brk = list.brk + growth * list.grows c := by
  cases c with
  | push alloc key payload => apply push_brk
  | pushRange alloc key items => apply pushRange_brk
  | pop key => apply pop_brk
  | popCount key count => apply popCount_brk
  | popRange key start stop => apply popRange_brk
  | len key => apply len_brk
  | flush key => apply flush_brk

theorem owns_segments {list : SegList} (h : list.Reachable)
    : list.places.Perm (List.range list.brk)
        ∧ (∀ c, (list.call c).places.length = list.places.length + growth * list.grows c)
        ∧ (∀ ptr ∈ list.freeSegs, list.mem ptr = Block.zeroed)
        ∧ ∀ key, ∀ ptr ∈ list.segsOf key,
            ∃ n, (list.mem ptr).read 16 4 = LittleEndian.encode 4 n ∧ 20 + n ≤ 65536 := by
  refine ⟨h.inv.places_perm, ?_, h.inv.free_zero, ?_⟩
  . intro c
    rw [(h.call c).inv.length_places, h.inv.length_places, call_brk]
  . intro key ptr hptr
    rcases h.inv.items key ptr hptr with ⟨payload, hitem⟩
    exact ⟨payload.length, hitem.length_bytes, hitem.1⟩

-- an item that is one byte too long, and then one that fits
theorem owns_segments_after_pushRange
    : ∃ list : SegList,
        list = (blank.grown.call (.pushRange (fun _ => true) "k"
            [[7], List.replicate 65517 0])).call (.popCount "k" 3)
          ∧ list.places.Perm (List.range list.brk) := by
  refine ⟨_, rfl, (owns_segments ?_).1⟩
  exact ((Reachable.new new_eq_ok).call _).call _

end SegList
end MemStream
