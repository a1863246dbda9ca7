import MemStream.Db.Lemmas.SegList.Basic

namespace MemStream
namespace SegList

def given (list : SegList) (key : String) (payload : List UInt8) (ptr : Nat) (freeSegs : List Nat)
    : SegList :=
  { list with
    mem := Function.update list.mem ptr
      ((list.mem ptr).write 16 (LittleEndian.encode 4 payload.length ++ payload))
    freeSegs := freeSegs
    written := list.written.insert key (list.segsOf key ++ [ptr]) }

theorem given_segsOf (list : SegList) (key key' : String) (payload : List UInt8) (ptr : Nat)
    (freeSegs : List Nat)
    : (list.given key payload ptr freeSegs).segsOf key'
        =
      if key' = key then list.segsOf key ++ [ptr] else list.segsOf key' := by
  apply segsOf_insert

theorem mem_given_segsOf {list : SegList} {key key' : String} {payload : List UInt8}
    {ptr ptr' : Nat} {freeSegs : List Nat}
    : ptr' ∈ (list.given key payload ptr freeSegs).segsOf key'
        ↔ ptr' ∈ list.segsOf key' ∨ (key' = key ∧ ptr' = ptr) := by
  rw [given_segsOf]
  split
  . next h => simp [h]
  . next h => simp [h]

theorem given_mem_of_ne {list : SegList} {key : String} {payload : List UInt8} {ptr ptr' : Nat}
    {freeSegs : List Nat} (h : ptr' ≠ ptr)
    : (list.given key payload ptr freeSegs).mem ptr' = list.mem ptr' := by
  simp [given, h]

theorem Inv.ne_of_free {list : SegList} (hinv : list.Inv) {ptr : Nat} {freeSegs : List Nat}
    (hfree : list.freeSegs = ptr :: freeSegs) {key : String} {ptr' : Nat}
    (hptr' : ptr' ∈ list.segsOf key)
    : ptr' ≠ ptr := by
  intro heq
  apply hinv.free_apart key ptr' hptr'
  simp [hfree, heq]

theorem Inv.given {list : SegList} (hinv : list.Inv) (key : String) {payload : List UInt8}
    (hfits : headerSize + payload.length ≤ segmentSize) {ptr : Nat} {freeSegs : List Nat}
    (hfree : list.freeSegs = ptr :: freeSegs)
    : Inv (list.given key payload ptr freeSegs) := by
  have hnodup := hinv.free_nodup
  rw [hfree, List.nodup_cons] at hnodup
  have hne {key' : String} {ptr' : Nat} (h : ptr' ∈ list.segsOf key') : ptr' ≠ ptr :=
    hinv.ne_of_free hfree h
  have hstill {ptr' : Nat} (h : ptr' ∈ freeSegs) : ptr' ∈ list.freeSegs := by
    simp [hfree, h]
  constructor
  case free_nodup => exact hnodup.2
  case free_lt =>
    intro ptr' hptr'
    exact hinv.free_lt ptr' (hstill hptr')
  case free_zero =>
    intro ptr' hptr'
    rw [given_mem_of_ne]
    . exact hinv.free_zero ptr' (hstill hptr')
    . intro heq
      rw [heq] at hptr'
      exact hnodup.1 hptr'
  case segs_nodup =>
    intro key'
    rw [given_segsOf]
    split
    . rw [List.nodup_append']
      refine ⟨hinv.segs_nodup key, by simp, ?_⟩
      intro ptr' hptr' hmem
      rw [List.mem_singleton] at hmem
      exact hne hptr' hmem
    . exact hinv.segs_nodup key'
  case segs_lt =>
    intro key' ptr' hptr'
    rw [mem_given_segsOf] at hptr'
    cases hptr' with
    | inl h => exact hinv.segs_lt key' ptr' h
    | inr h =>
      apply hinv.free_lt
      simp [hfree, h.2]
  case segs_apart =>
    intro key' key'' ptr' h h'
    rw [mem_given_segsOf] at h h'
    cases h with
    | inl h =>
      cases h' with
      | inl h' => exact hinv.segs_apart key' key'' ptr' h h'
      | inr h' => exact absurd h'.2 (hne h)
    | inr h =>
      cases h' with
      | inl h' => exact absurd h.2 (hne h')
      | inr h' => rw [h.1, h'.1]
  case free_apart =>
    intro key' ptr' hptr' hmem
    rw [mem_given_segsOf] at hptr'
    cases hptr' with
    | inl h => exact hinv.free_apart key' ptr' h (hstill hmem)
    | inr h =>
      rw [h.2] at hmem
      exact hnodup.1 hmem
  case items =>
    intro key' ptr' hptr'
    rw [mem_given_segsOf] at hptr'
    cases hptr' with
    | inl h =>
      rw [given_mem_of_ne (hne h)]
      exact hinv.items key' ptr' h
    | inr h =>
      refine ⟨payload, ?_⟩
      simp only [SegList.given, h.2, Function.update_self]
      exact item_write _ hfits
  case covered =>
    intro ptr' hptr'
    cases hinv.covered ptr' hptr' with
    | inl h =>
      rw [hfree, List.mem_cons] at h
      cases h with
      | inl h => exact .inr ⟨key, mem_given_segsOf.mpr (.inr ⟨rfl, h⟩)⟩
      | inr h => exact .inl h
    | inr h =>
      rcases h with ⟨key', h⟩
      exact .inr ⟨key', mem_given_segsOf.mpr (.inl h)⟩

theorem Inv.abs_given {list : SegList} (hinv : list.Inv) (key : String) {payload : List UInt8}
    (hfits : headerSize + payload.length ≤ segmentSize) {ptr : Nat} {freeSegs : List Nat}
    (hfree : list.freeSegs = ptr :: freeSegs)
    : (list.given key payload ptr freeSegs).abs
        =
      ⟨list.abs.free - 1, list.abs.queues.set key (list.abs.queues.get key ++ [payload])⟩ := by
  have hsame {key' : String} {segs : List Nat} (hsegs : segs = list.segsOf key')
      : segs.map (list.given key payload ptr freeSegs).item = segs.map list.item := by
    apply List.map_congr_left
    intro ptr' hptr'
    rw [hsegs] at hptr'
    unfold item
    rw [given_mem_of_ne (hinv.ne_of_free hfree hptr')]
  have hnew : (list.given key payload ptr freeSegs).item ptr = payload := by
    unfold item
    simp only [SegList.given, Function.update_self]
    rw [(item_write _ hfits).readItem_eq]
    rfl
  rw [abs_get]
  simp only [abs, Pooled.mk.injEq]
  constructor
  . simp [SegList.given, hfree]
  . funext key'
    simp only [Queues.set]
    have hlookup : (list.given key payload ptr freeSegs).written.lookup key'
        = if key' = key then some (list.segsOf key ++ [ptr]) else list.written.lookup key' := by
      apply Assoc.lookup_insert
    rw [hlookup]
    split
    . simp only [Option.map_some, List.map_append, List.map_cons, List.map_nil, hnew]
      rw [hsame rfl]
    . cases hkey : list.written.lookup key' with
      | none => rw [Option.map_none, Option.map_none]
      | some segs =>
        simp only [Option.map_some]
        rw [hsame]
        unfold segsOf
        rw [hkey]
        rfl

theorem tooLarge_iff {payload : List UInt8}
    : Queues.tooLarge payload ↔ headerSize + payload.length > segmentSize := by
  unfold Queues.tooLarge headerSize segmentSize
  omega

theorem Inv.pushFree_refines {list : SegList} (hinv : list.Inv) (key : String)
    (payload : List UInt8)
    : Inv (list.pushFree key payload).2
        ∧ list.abs.pushFree key payload
            =
          ((list.pushFree key payload).1, (list.pushFree key payload).2.abs) := by
  unfold pushFree Pooled.pushFree
  simp only [tooLarge_iff]
  split
  . exact ⟨hinv, rfl⟩
  . next hfits =>
    have hfits : headerSize + payload.length ≤ segmentSize := by omega
    cases hfree : list.freeSegs with
    | nil =>
      rw [if_pos (by simp [abs, hfree])]
      exact ⟨hinv, rfl⟩
    | cons ptr freeSegs =>
      rw [if_neg (by simp [abs, hfree])]
      simp only [writeItem_eq_some _ hfits]
      refine ⟨hinv.given key hfits hfree, ?_⟩
      rw [← hinv.abs_given key hfits hfree]
      rfl

theorem Inv.push_refines {list : SegList} (hinv : list.Inv) (alloc : Bool) (key : String)
    (payload : List UInt8)
    : Inv (list.push alloc key payload).2
        ∧ list.abs.push alloc key payload
            =
          ((list.push alloc key payload).1, (list.push alloc key payload).2.abs) := by
  unfold push Pooled.push Pooled.grow
  rw [growSegs_eq]
  have hempty : list.abs.free = 0 ↔ list.freeSegs.isEmpty = true := by
    simp [abs]
  simp only [hempty]
  split
  . cases alloc with
    | true =>
      have := hinv.grown.pushFree_refines key payload
      rw [hinv.abs_grown] at this
      exact this
    | false => exact ⟨hinv, rfl⟩
  . exact hinv.pushFree_refines key payload

theorem Inv.pushAll_refines {list : SegList} (hinv : list.Inv) (alloc : Nat → Bool) (key : String)
    (items : List (List UInt8))
    : Inv (list.pushAll alloc key items).2
        ∧ list.abs.pushAll alloc key items
            =
          ((list.pushAll alloc key items).1, (list.pushAll alloc key items).2.abs) := by
  induction items generalizing list alloc with
  | nil => exact ⟨hinv, rfl⟩
  | cons item items ih =>
    have ⟨hinv', hpush⟩ := hinv.push_refines (alloc 0) key item
    unfold pushAll Pooled.pushAll
    rw [hpush]
    rcases hres : list.push (alloc 0) key item with ⟨res, list'⟩
    rw [hres] at hinv'
    cases res with
    | ok => exact ih hinv' _
    | err e => exact ⟨hinv', rfl⟩
    | panic => exact ⟨hinv', rfl⟩

theorem Inv.pushRange_refines {list : SegList} (hinv : list.Inv) (alloc : Nat → Bool)
    (key : String) (items : List (List UInt8))
    : Inv (list.pushRange alloc key items).2
        ∧ list.abs.pushRange alloc key items
            =
          ((list.pushRange alloc key items).1, (list.pushRange alloc key items).2.abs) := by
  unfold pushRange Pooled.pushRange Pooled.grow
  rw [growSegs_eq, show list.abs.free = list.freeSegs.length by rfl]
  split
  . cases alloc 0 with
    | true =>
      have := hinv.grown.pushAll_refines (fun i => alloc (i + 1)) key items
      rw [hinv.abs_grown] at this
      exact this
    | false => exact ⟨hinv, rfl⟩
  . exact hinv.pushAll_refines (fun i => alloc (i + 1)) key items

end SegList
end MemStream
