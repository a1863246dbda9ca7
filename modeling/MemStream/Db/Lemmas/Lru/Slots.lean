import MemStream.Db.Lemmas.Lru.Rep

namespace MemStream
namespace Lru

variable {κ ν : Type} [DecidableEq κ]

theorem mem_map_middle {α β : Type} {f : α → β} {as bs : List α} {a : α} {b : β}
    : b ∈ (as ++ a :: bs).map f ↔ b = f a ∨ b ∈ (as ++ bs).map f := by
  simp only [List.map_append, List.map_cons, List.mem_append, List.mem_cons]
  constructor
  . rintro (h | h | h)
    . exact .inr (.inl h)
    . exact .inl h
    . exact .inr (.inr h)
  . rintro (h | h | h)
    . exact .inr (.inl h)
    . exact .inl h
    . exact .inr (.inr h)

theorem Rep.fst_unique {lru : Lru κ ν} {as bs : List (Nat × Slot κ ν)} {p : Nat × Slot κ ν}
    (h : Rep lru (as ++ p :: bs))
    : p.1 ∉ (as ++ bs).map Prod.fst := by
  have hnodup := h.spells.nodup
  rw [List.map_append, List.map_cons, List.nodup_middle, List.nodup_cons] at hnodup
  rw [List.map_append]
  exact hnodup.1

theorem Rep.mem_of_rest {lru : Lru κ ν} {as bs : List (Nat × Slot κ ν)} {p q : Nat × Slot κ ν}
    (h : Rep lru (as ++ p :: bs)) (hq : q ∈ as ++ bs)
    : q ∈ as ++ p :: bs ∧ q.1 ≠ p.1 := by
  constructor
  . simp only [List.mem_append, List.mem_cons] at hq ⊢
    cases hq with
    | inl hq => exact .inl hq
    | inr hq => exact .inr (.inr hq)
  . intro heq
    apply h.fst_unique
    rw [← heq]
    exact List.mem_map_of_mem hq

theorem Rep.moved {lru lru' : Lru κ ν} {as bs : List (Nat × Slot κ ν)} {p : Nat × Slot κ ν}
    (h : Rep lru (as ++ p :: bs)) {slot : Slot κ ν} (hkey : slot.key = p.2.key)
    (hspells : lru'.links.Spells null (p.1 :: (as ++ bs).map Prod.fst))
    (hmap : lru'.map = lru.map) (hreverse : lru'.reverse = lru.reverse) (hfree : lru'.free = lru.free)
    (hcap : lru'.cap = lru.cap) (hlength : lru'.entries.length = lru.entries.length)
    (hdata : ∀ idx,
      lru'.data idx = if idx = p.1 then some (slot.value, slot.expiresAt) else lru.data idx)
    : Rep lru' ((p.1, slot) :: (as ++ bs)) where
  spells := hspells
  held := by
    intro q hq
    rw [hdata]
    rw [List.mem_cons] at hq
    cases hq with
    | inl heq => simp [heq]
    | inr hq =>
      have ⟨hmem, hne⟩ := h.mem_of_rest hq
      rw [if_neg hne]
      exact h.held q hmem
  named := by
    intro q hq
    rw [hreverse]
    rw [List.mem_cons] at hq
    cases hq with
    | inl heq =>
      rw [heq, hkey]
      exact h.named p (by simp)
    | inr hq => exact h.named q (h.mem_of_rest hq).1
  mapped := by
    intro key idx
    rw [hmap, h.mapped]
    constructor
    . rintro ⟨slot', hmem, hslot'⟩
      rw [List.mem_append, List.mem_cons] at hmem
      rcases hmem with hmem | heq | hmem
      . exact ⟨slot', by simp [hmem], hslot'⟩
      . refine ⟨slot, ?_, ?_⟩
        . simp [← heq]
        . rw [hkey, ← heq]
          exact hslot'
      . exact ⟨slot', by simp [hmem], hslot'⟩
    . rintro ⟨slot', hmem, hslot'⟩
      rw [List.mem_cons] at hmem
      cases hmem with
      | inl heq =>
        rw [Prod.mk.injEq] at heq
        refine ⟨p.2, by simp [heq.1], ?_⟩
        rw [← hkey, ← heq.2]
        exact hslot'
      | inr hmem => exact ⟨slot', (h.mem_of_rest hmem).1, hslot'⟩
  map_length := by
    rw [hmap, h.map_length]
    simp only [List.length_append, List.length_cons]
    omega
  blank := by
    intro idx hidx
    rw [hdata, hreverse]
    rw [List.map_cons, List.mem_cons, not_or] at hidx
    rw [if_neg hidx.1]
    apply h.blank
    rw [mem_map_middle, not_or]
    exact hidx
  reverse_length := by rw [hreverse, hlength, h.reverse_length]
  free_nodup := by
    rw [hfree]
    exact h.free_nodup
  free_iff := by
    intro idx
    rw [hfree, hlength, h.free_iff, mem_map_middle, List.map_cons, List.mem_cons]
  length_le := by
    rw [hlength, hcap]
    exact h.length_le
  cap_le := by
    rw [hcap]
    exact h.cap_le
  cap_pos := by
    rw [hcap]
    exact h.cap_pos

theorem Rep.vacated {lru lru' : Lru κ ν} {as bs : List (Nat × Slot κ ν)} {p : Nat × Slot κ ν}
    (h : Rep lru (as ++ p :: bs)) (hspells : lru'.links.Spells null ((as ++ bs).map Prod.fst))
    (hmap : lru'.map = lru.map.erase p.2.key) (hreverse : lru'.reverse = lru.reverse.set p.1 none)
    (hfree : lru'.free = lru.free ++ [p.1]) (hcap : lru'.cap = lru.cap)
    (hlength : lru'.entries.length = lru.entries.length)
    (hdata : ∀ idx, lru'.data idx = if idx = p.1 then none else lru.data idx)
    : Rep lru' (as ++ bs) := by
  have hmem : p.1 ∈ (as ++ p :: bs).map Prod.fst := by simp
  have hreverse' (idx : Nat)
      : lru'.reverse[idx]?.join = if idx = p.1 then none else lru.reverse[idx]?.join := by
    rw [hreverse, List.getElem?_set]
    split
    . next heq =>
      rw [if_pos heq.symm]
      split
      . rfl
      . rfl
    . next hne => rw [if_neg (fun heq => hne heq.symm)]
  constructor
  case spells => exact hspells
  case held =>
    intro q hq
    have ⟨hq', hne⟩ := h.mem_of_rest hq
    rw [hdata, if_neg hne]
    exact h.held q hq'
  case named =>
    intro q hq
    have ⟨hq', hne⟩ := h.mem_of_rest hq
    rw [hreverse', if_neg hne]
    exact h.named q hq'
  case mapped =>
    intro key idx
    rw [hmap, Assoc.lookup_erase]
    split
    . next heq =>
      simp only [reduceCtorEq, false_iff, not_exists, not_and]
      intro slot hslot
      rw [heq]
      exact h.key_unique hslot
    . next hne =>
      rw [h.mapped]
      constructor
      . rintro ⟨slot, hslot, hkey⟩
        rw [List.mem_append, List.mem_cons] at hslot
        rcases hslot with hslot | heq | hslot
        . exact ⟨slot, by simp [hslot], hkey⟩
        . rw [← heq] at hne
          exact absurd hkey.symm hne
        . exact ⟨slot, by simp [hslot], hkey⟩
      . rintro ⟨slot, hslot, hkey⟩
        exact ⟨slot, (h.mem_of_rest hslot).1, hkey⟩
  case map_length =>
    have hlookup : lru.map.lookup p.2.key = some p.1 := (h.mapped _ _).mpr ⟨p.2, by simp, rfl⟩
    have := Assoc.length_erase hlookup
    have := h.map_length
    rw [hmap]
    simp only [List.length_append, List.length_cons] at this ⊢
    omega
  case blank =>
    intro idx hidx
    rw [hdata, hreverse']
    split
    . exact ⟨rfl, rfl⟩
    . next hne =>
      apply h.blank
      rw [mem_map_middle, not_or]
      exact ⟨hne, hidx⟩
  case reverse_length => rw [hreverse, hlength, List.length_set, h.reverse_length]
  case free_nodup =>
    rw [hfree, List.nodup_append']
    refine ⟨h.free_nodup, by simp, ?_⟩
    intro idx hidx heq
    rw [List.mem_singleton] at heq
    rw [heq, h.free_iff] at hidx
    exact hidx.2 hmem
  case free_iff =>
    intro idx
    rw [hfree, hlength, List.mem_append, List.mem_singleton, h.free_iff, mem_map_middle, not_or]
    constructor
    . rintro (⟨hlt, _, hidx⟩ | heq)
      . exact ⟨hlt, hidx⟩
      . rw [heq]
        exact ⟨h.lt_length hmem, h.fst_unique⟩
    . rintro ⟨hlt, hidx⟩
      by_cases heq : idx = p.1
      . exact .inr heq
      . exact .inl ⟨hlt, heq, hidx⟩
  case length_le =>
    rw [hlength, hcap]
    exact h.length_le
  case cap_le =>
    rw [hcap]
    exact h.cap_le
  case cap_pos =>
    rw [hcap]
    exact h.cap_pos

theorem Rep.added {lru lru' : Lru κ ν} {r : List (Nat × Slot κ ν)} (h : Rep lru r) {idx : Nat}
    {slot : Slot κ ν} (hnew : lru.map.lookup slot.key = none) (hfresh : idx ∉ r.map Prod.fst)
    (hspells : lru'.links.Spells null (idx :: r.map Prod.fst))
    (hmap : lru'.map = lru.map.insert slot.key idx)
    (hreverse : ∀ idx',
      lru'.reverse[idx']?.join = if idx' = idx then some slot.key else lru.reverse[idx']?.join)
    (hdata : ∀ idx',
      lru'.data idx' = if idx' = idx then some (slot.value, slot.expiresAt) else lru.data idx')
    (hreverse_length : lru'.reverse.length = lru'.entries.length)
    (hlength : ∀ idx', idx' < lru'.entries.length ↔ idx' < lru.entries.length ∨ idx' = idx)
    (hnodup : lru'.free.Nodup) (hfree : ∀ idx', idx' ∈ lru'.free ↔ idx' ∈ lru.free ∧ idx' ≠ idx)
    (hle : lru'.entries.length ≤ lru'.cap) (hcap : lru'.cap = lru.cap)
    : Rep lru' ((idx, slot) :: r) := by
  have hne {p : Nat × Slot κ ν} (hp : p ∈ r) : p.1 ≠ idx := by
    intro heq
    apply hfresh
    rw [← heq]
    exact List.mem_map_of_mem hp
  constructor
  case spells => exact hspells
  case held =>
    intro p hp
    rw [hdata]
    rw [List.mem_cons] at hp
    cases hp with
    | inl heq => simp [heq]
    | inr hp =>
      rw [if_neg (hne hp)]
      exact h.held p hp
  case named =>
    intro p hp
    rw [hreverse]
    rw [List.mem_cons] at hp
    cases hp with
    | inl heq => simp [heq]
    | inr hp =>
      rw [if_neg (hne hp)]
      exact h.named p hp
  case mapped =>
    intro key idx'
    rw [hmap, Assoc.lookup_insert]
    split
    . next heq =>
      rw [heq]
      simp only [Option.some.injEq, List.mem_cons, Prod.mk.injEq]
      constructor
      . intro hidx
        exact ⟨slot, .inl ⟨hidx.symm, rfl⟩, rfl⟩
      . rintro ⟨slot', hmem | hmem, hslot'⟩
        . exact hmem.1.symm
        . exact absurd hslot' (h.lookup_eq_none hnew hmem)
    . next hkey =>
      rw [h.mapped]
      constructor
      . rintro ⟨slot', hmem, hslot'⟩
        exact ⟨slot', List.mem_cons_of_mem _ hmem, hslot'⟩
      . rintro ⟨slot', hmem, hslot'⟩
        rw [List.mem_cons, Prod.mk.injEq] at hmem
        cases hmem with
        | inl heq =>
          rw [heq.2] at hslot'
          exact absurd hslot'.symm hkey
        | inr hmem => exact ⟨slot', hmem, hslot'⟩
  case map_length => rw [hmap, Assoc.length_insert hnew, h.map_length, List.length_cons]
  case blank =>
    intro idx' hidx'
    rw [List.map_cons, List.mem_cons, not_or] at hidx'
    rw [hdata, hreverse, if_neg hidx'.1, if_neg hidx'.1]
    exact h.blank idx' hidx'.2
  case reverse_length => exact hreverse_length
  case free_nodup => exact hnodup
  case free_iff =>
    intro idx'
    rw [hfree, hlength, h.free_iff, List.map_cons, List.mem_cons, not_or]
    constructor
    . rintro ⟨⟨hlt, hmem⟩, hidx'⟩
      exact ⟨.inl hlt, hidx', hmem⟩
    . rintro ⟨hlt | heq, hidx', hmem⟩
      . exact ⟨⟨hlt, hmem⟩, hidx'⟩
      . exact absurd heq hidx'
  case length_le => exact hle
  case cap_le =>
    rw [hcap]
    exact h.cap_le
  case cap_pos =>
    rw [hcap]
    exact h.cap_pos

end Lru
end MemStream
