import MemStream.Db.Lemmas.SegList.Counts

namespace MemStream

namespace Queues

def fitting (items : List (List UInt8)) : List (List UInt8) :=
  items.takeWhile fun item => !decide (tooLarge item)

theorem fitting_cons_of_tooLarge {item : List UInt8} (h : tooLarge item) (items : List (List UInt8))
    : fitting (item :: items) = [] := by
  unfold fitting
  rw [List.takeWhile_cons_of_neg]
  simp [h]

theorem fitting_cons_of_fits {item : List UInt8} (h : ¬tooLarge item) (items : List (List UInt8))
    : fitting (item :: items) = item :: fitting items := by
  unfold fitting
  rw [List.takeWhile_cons_of_pos]
  simp [h]

theorem fitting_eq_self {items : List (List UInt8)} (h : ∀ item ∈ items, ¬tooLarge item)
    : fitting items = items := by
  induction items with
  | nil => rfl
  | cons item items ih =>
    rw [fitting_cons_of_fits (h item (by simp)), ih]
    intro item' hitem'
    exact h item' (List.mem_cons_of_mem item hitem')

theorem head_tooLarge_of_fitting_eq_nil {items : List (List UInt8)} (hnone : fitting items = [])
    (h : ¬∀ item ∈ items, ¬tooLarge item)
    : ∃ item ∈ items.head?, tooLarge item := by
  cases items with
  | nil => simp at h
  | cons item items =>
    refine ⟨item, rfl, Decidable.of_not_not fun hfits => ?_⟩
    rw [fitting_cons_of_fits hfits] at hnone
    contradiction

end Queues

namespace Pooled

/-- The allocator has memory whenever the free segments have run out, up to the first item that is too
large. -/
def Granted (free : Nat) (alloc : Nat → Bool) (items : List (List UInt8)) : Prop :=
  ∀ i < items.length,
    (∀ item ∈ items.take i, ¬Queues.tooLarge item)
      → free ≤ i → (i - free) % SegList.growth = 0 → alloc i = true

-- `push_range` grows once before it starts if it has fewer free segments than items
def RangeGranted (free : Nat) (alloc : Nat → Bool) (items : List (List UInt8)) : Prop :=
  if free < items.length then
    alloc 0 = true ∧ Granted (free + SegList.growth) (fun i => alloc (i + 1)) items
  else
    Granted free (fun i => alloc (i + 1)) items

variable {p : Pooled} {alloc : Nat → Bool} (key : String)

theorem granted_nil (free : Nat) (alloc : Nat → Bool) : Granted free alloc [] := by
  intro i hi
  contradiction

theorem granted_cons_of_tooLarge {free : Nat} {item : List UInt8} {items : List (List UInt8)}
    (h : Queues.tooLarge item)
    : Granted free alloc (item :: items) ↔ (free = 0 → alloc 0 = true) := by
  constructor
  . intro hgranted hfree
    apply hgranted 0
    . simp
    . simp
    . omega
    . rw [hfree, Nat.zero_mod]
  . intro hfirst i _ hfits hle _
    cases i with
    | zero => exact hfirst (by omega)
    | succ i =>
      rw [List.take_succ_cons] at hfits
      exact absurd h (hfits item (by simp))

theorem rangeGranted_of_le {free : Nat} {items : List (List UInt8)} (h : items.length ≤ free)
    : RangeGranted free alloc items := by
  unfold RangeGranted
  rw [if_neg (by omega)]
  intro i hi _ hle _
  omega

theorem growth_eq : SegList.growth = 16384 := by
  decide

theorem granted_cons_of_fits {free : Nat} {item : List UInt8} {items : List (List UInt8)}
    (h : ¬Queues.tooLarge item)
    : Granted free alloc (item :: items)
        ↔
      (free = 0 → alloc 0 = true)
        ∧ Granted ((if free = 0 then SegList.growth else free) - 1) (fun i => alloc (i + 1)) items := by
  -- the position at which the next growth is due, seen from the item behind this one
  have hnext (i : Nat)
      : free ≤ i + 1 ∧ (i + 1 - free) % SegList.growth = 0
          ↔
        (if free = 0 then SegList.growth else free) - 1 ≤ i
          ∧ (i - ((if free = 0 then SegList.growth else free) - 1)) % SegList.growth = 0 := by
    rw [growth_eq]
    split
    . omega
    . omega
  constructor
  . intro hgranted
    constructor
    . intro hfree
      apply hgranted 0
      . simp
      . simp
      . omega
      . rw [hfree, Nat.zero_mod]
    . intro i hi hfits hle hmod
      have ⟨hle, hmod⟩ := (hnext i).mpr ⟨hle, hmod⟩
      apply hgranted (i + 1)
      . simpa using hi
      . intro item' hitem'
        rw [List.take_succ_cons, List.mem_cons] at hitem'
        cases hitem' with
        | inl heq =>
          rw [heq]
          exact h
        | inr hmem => exact hfits item' hmem
      . exact hle
      . exact hmod
  . rintro ⟨hfirst, hrest⟩ i hi hfits hle hmod
    cases i with
    | zero => exact hfirst (by omega)
    | succ i =>
      have ⟨hle, hmod⟩ := (hnext i).mp ⟨hle, hmod⟩
      apply hrest i
      . simpa using hi
      . intro item' hitem'
        apply hfits
        rw [List.take_succ_cons]
        exact List.mem_cons_of_mem item hitem'
      . exact hle
      . exact hmod

theorem push_of_not_granted (h : ¬(p.free = 0 → alloc 0 = true)) (item : List UInt8)
    : (p.push (alloc 0) key item).1 = .panic := by
  have hfree : p.free = 0 := by
    apply Decidable.of_not_not
    intro hne
    exact h fun hzero => absurd hzero hne
  have halloc : ¬alloc 0 = true := fun halloc => h fun _ => halloc
  unfold push grow
  rw [if_pos hfree, if_neg halloc]

theorem push_of_granted (h : p.free = 0 → alloc 0 = true) (item : List UInt8)
    : p.push (alloc 0) key item
        =
      pushFree { p with free := if p.free = 0 then SegList.growth else p.free } key item := by
  unfold push grow
  split
  . next hfree =>
    rw [if_pos (h hfree), hfree, Nat.zero_add]
  . rfl

theorem pushFree_of_tooLarge {item : List UInt8} (h : Queues.tooLarge item)
    : p.pushFree key item = (.err .entryTooLarge, p) := by
  unfold pushFree
  rw [if_pos h]

theorem pushFree_of_fits {item : List UInt8} (h : ¬Queues.tooLarge item) (hfree : p.free ≠ 0)
    : p.pushFree key item
        =
      (.ok (), ⟨p.free - 1, p.queues.set key (p.queues.get key ++ [item])⟩) := by
  unfold pushFree
  rw [if_neg h, if_neg hfree]

theorem pushAll_of_not_granted {items : List (List UInt8)} (h : ¬Granted p.free alloc items)
    : (p.pushAll alloc key items).1 = .panic := by
  induction items generalizing p alloc with
  | nil => exact absurd (granted_nil p.free alloc) h
  | cons item items ih =>
    unfold pushAll
    by_cases hfirst : p.free = 0 → alloc 0 = true
    . by_cases hlarge : Queues.tooLarge item
      . exact absurd ((granted_cons_of_tooLarge hlarge).mpr hfirst) h
      . rw [push_of_granted key hfirst, pushFree_of_fits key hlarge]
        . dsimp only
          apply ih
          intro hrest
          exact h ((granted_cons_of_fits hlarge).mpr ⟨hfirst, hrest⟩)
        . dsimp only
          rw [growth_eq]
          split
          . simp
          . assumption
    . have hpanic := push_of_not_granted key hfirst item
      rcases hpush : p.push (alloc 0) key item with ⟨res, p'⟩
      rw [hpush] at hpanic
      dsimp only at hpanic
      rw [hpanic]

theorem pushAll_of_granted {items : List (List UInt8)} (h : Granted p.free alloc items)
    : (p.pushAll alloc key items).1
          = (if ∀ item ∈ items, ¬Queues.tooLarge item then .ok () else .err .entryTooLarge)
        ∧ ∀ key', (p.pushAll alloc key items).2.queues.get key'
            = if key' = key then p.queues.get key ++ Queues.fitting items
              else p.queues.get key' := by
  induction items generalizing p alloc with
  | nil =>
    refine ⟨by simp [pushAll], fun key' => ?_⟩
    unfold pushAll
    split
    . next heq =>
      rw [heq]
      simp [Queues.fitting]
    . rfl
  | cons item items ih =>
    by_cases hlarge : Queues.tooLarge item
    . have hfirst := (granted_cons_of_tooLarge hlarge).mp h
      unfold pushAll
      rw [push_of_granted key hfirst, pushFree_of_tooLarge key hlarge, Queues.fitting_cons_of_tooLarge hlarge]
      constructor
      . simp only [List.forall_mem_cons, hlarge, not_true_eq_false, false_and, if_false]
      . intro key'
        dsimp only
        split
        . next heq => rw [heq, List.append_nil]
        . rfl
    . have ⟨hfirst, hrest⟩ := (granted_cons_of_fits hlarge).mp h
      have hfree : (if p.free = 0 then SegList.growth else p.free) ≠ 0 := by
        rw [growth_eq]
        split
        . simp
        . assumption
      unfold pushAll
      rw [push_of_granted key hfirst, pushFree_of_fits key hlarge hfree, Queues.fitting_cons_of_fits hlarge]
      dsimp only
      have ⟨hres, hget⟩ := ih (p := ⟨_, p.queues.set key (p.queues.get key ++ [item])⟩) hrest
      constructor
      . rw [hres]
        simp only [List.forall_mem_cons, hlarge, not_false_eq_true, true_and]
      . intro key'
        rw [hget key']
        simp only [Queues.get_set]
        split
        . rw [if_pos trivial, List.append_assoc, List.singleton_append]
        . rfl

theorem pushRange_of_granted {items : List (List UInt8)} (h : RangeGranted p.free alloc items)
    : (p.pushRange alloc key items).1
          = (if ∀ item ∈ items, ¬Queues.tooLarge item then .ok () else .err .entryTooLarge)
        ∧ ∀ key', (p.pushRange alloc key items).2.queues.get key'
            = if key' = key then p.queues.get key ++ Queues.fitting items
              else p.queues.get key' := by
  unfold RangeGranted at h
  unfold pushRange grow
  split
  . next hfew =>
    rw [if_pos hfew] at h
    rw [if_pos h.1]
    exact pushAll_of_granted (p := { p with free := p.free + SegList.growth }) key h.2
  . next hmany =>
    rw [if_neg hmany] at h
    exact pushAll_of_granted key h

theorem pushRange_of_not_granted {items : List (List UInt8)}
    (h : ¬RangeGranted p.free alloc items)
    : (p.pushRange alloc key items).1 = .panic := by
  unfold RangeGranted at h
  unfold pushRange grow
  split
  . next hfew =>
    rw [if_pos hfew] at h
    by_cases halloc : alloc 0 = true
    . rw [if_pos halloc]
      apply pushAll_of_not_granted
      exact fun hgranted => h ⟨halloc, hgranted⟩
    . rw [if_neg halloc]
  . next hmany =>
    rw [if_neg hmany] at h
    exact pushAll_of_not_granted key h

end Pooled

namespace SegList

theorem Inv.pushRange_of_not_granted {list : SegList} (hinv : list.Inv) {alloc : Nat → Bool}
    (key : String) {items : List (List UInt8)}
    (h : ¬Pooled.RangeGranted list.freeSegs.length alloc items)
    : (list.pushRange alloc key items).1 = .panic := by
  have ⟨_, habs⟩ := hinv.pushRange_refines alloc key items
  have hres := Pooled.pushRange_of_not_granted (p := list.abs) key h
  rw [habs] at hres
  exact hres

theorem Inv.pushRange_spec {list : SegList} (hinv : list.Inv) {alloc : Nat → Bool} (key : String)
    {items : List (List UInt8)} (h : Pooled.RangeGranted list.freeSegs.length alloc items)
    : (list.pushRange alloc key items).1
          = (if ∀ item ∈ items, ¬Queues.tooLarge item then .ok () else .err .entryTooLarge)
        ∧ ∀ key', (list.pushRange alloc key items).2.items key'
            = if key' = key then list.items key ++ Queues.fitting items else list.items key' := by
  have ⟨_, habs⟩ := hinv.pushRange_refines alloc key items
  have ⟨hres, hget⟩ := Pooled.pushRange_of_granted (p := list.abs) key h
  rw [habs] at hres hget
  simp only [items_eq]
  exact ⟨hres, hget⟩

end SegList
end MemStream
