import MemStream.Lib.Assoc
import MemStream.Db.Spec.Recency
import MemStream.Db.Lemmas.Lru.Basic

namespace MemStream
namespace Lru

variable {κ ν : Type} [DecidableEq κ]

structure Rep (lru : Lru κ ν) (r : List (Nat × Slot κ ν)) : Prop where
  spells : lru.links.Spells null (r.map Prod.fst)
  held : ∀ p ∈ r, lru.data p.1 = some (p.2.value, p.2.expiresAt)
  named : ∀ p ∈ r, lru.reverse[p.1]?.join = some p.2.key
  mapped : ∀ key idx, lru.map.lookup key = some idx ↔ ∃ slot, (idx, slot) ∈ r ∧ slot.key = key
  map_length : lru.map.entries.length = r.length
  blank : ∀ idx, idx ∉ r.map Prod.fst → lru.data idx = none ∧ lru.reverse[idx]?.join = none
  reverse_length : lru.reverse.length = lru.entries.length
  free_nodup : lru.free.Nodup
  free_iff : ∀ idx, idx ∈ lru.free ↔ idx < lru.entries.length ∧ idx ∉ r.map Prod.fst
  length_le : lru.entries.length ≤ lru.cap
  cap_le : lru.cap ≤ null
  cap_pos : 0 < lru.cap

theorem rep_new {cap : Nat} (hle : cap ≤ null) (hpos : 0 < cap) (ttl : Nat)
    : Rep (new cap ttl : Lru κ ν) [] where
  spells := Links.spells_nil rfl rfl
  held := by simp
  named := by simp
  mapped := by simp [new]
  map_length := rfl
  blank := by simp [new, data, cell]
  reverse_length := rfl
  free_nodup := by simp [new]
  free_iff := by simp [new]
  length_le := by simp [new]
  cap_le := hle
  cap_pos := hpos

theorem Rep.cell_of_mem {lru : Lru κ ν} {r : List (Nat × Slot κ ν)} (h : Rep lru r) {idx : Nat}
    (hidx : idx ∈ r.map Prod.fst)
    : ∃ e, lru.cell idx = some e := by
  rw [List.mem_map] at hidx
  rcases hidx with ⟨p, hp, rfl⟩
  rcases exists_cell_of_data (h.held p hp) with ⟨e, he, _⟩
  exact ⟨e, he⟩

theorem Rep.lt_length {lru : Lru κ ν} {r : List (Nat × Slot κ ν)} (h : Rep lru r) {idx : Nat}
    (hidx : idx ∈ r.map Prod.fst)
    : idx < lru.entries.length := by
  rcases h.cell_of_mem hidx with ⟨e, he⟩
  exact lt_of_cell he

/-
Slots of a represented cache.
-/

theorem Rep.key_unique {lru : Lru κ ν} {as bs : List (Nat × Slot κ ν)} {p : Nat × Slot κ ν}
    (h : Rep lru (as ++ p :: bs)) {q : Nat × Slot κ ν} (hq : q ∈ as ++ bs)
    : q.2.key ≠ p.2.key := by
  intro heq
  have hp : lru.map.lookup p.2.key = some p.1 := (h.mapped _ _).mpr ⟨p.2, by simp, rfl⟩
  have hq' : lru.map.lookup p.2.key = some q.1 := by
    rw [h.mapped]
    refine ⟨q.2, ?_, heq⟩
    rw [List.mem_append] at hq ⊢
    cases hq with
    | inl hq => exact .inl hq
    | inr hq => exact .inr (List.mem_cons_of_mem _ hq)
  rw [hp, Option.some.injEq] at hq'
  have hnodup := h.spells.nodup
  rw [List.map_append, List.map_cons, List.nodup_middle, List.nodup_cons] at hnodup
  apply hnodup.1
  rw [hq', ← List.map_append]
  exact List.mem_map_of_mem hq

theorem Rep.lookup_eq_none {lru : Lru κ ν} {r : List (Nat × Slot κ ν)} (h : Rep lru r) {key : κ}
    (hkey : lru.map.lookup key = none) {p : Nat × Slot κ ν} (hp : p ∈ r)
    : p.2.key ≠ key := by
  intro heq
  have := (h.mapped key p.1).mpr ⟨p.2, hp, heq⟩
  rw [hkey] at this
  contradiction

theorem Rep.lookup_eq_some {lru : Lru κ ν} {r : List (Nat × Slot κ ν)} (h : Rep lru r) {key : κ}
    {idx : Nat} (hkey : lru.map.lookup key = some idx)
    : ∃ as slot bs, r = as ++ (idx, slot) :: bs ∧ slot.key = key := by
  rcases (h.mapped key idx).mp hkey with ⟨slot, hmem, hslot⟩
  rcases List.append_of_mem hmem with ⟨as, bs, hr⟩
  exact ⟨as, slot, bs, hr, hslot⟩

theorem find_eq_none {r : List (Nat × Slot κ ν)} {key : κ} (h : ∀ p ∈ r, p.2.key ≠ key)
    : Recency.find (r.map Prod.snd) key = none := by
  unfold Recency.find
  rw [List.find?_eq_none]
  intro slot hslot
  rw [List.mem_map] at hslot
  rcases hslot with ⟨p, hp, rfl⟩
  simp [h p hp]

theorem without_eq_self {r : List (Nat × Slot κ ν)} {key : κ} (h : ∀ p ∈ r, p.2.key ≠ key)
    : Recency.without (r.map Prod.snd) key = r.map Prod.snd := by
  unfold Recency.without
  rw [List.filter_eq_self]
  intro slot hslot
  rw [List.mem_map] at hslot
  rcases hslot with ⟨p, hp, rfl⟩
  simp [h p hp]

theorem Rep.find_eq {lru : Lru κ ν} {as bs : List (Nat × Slot κ ν)} {p : Nat × Slot κ ν}
    (h : Rep lru (as ++ p :: bs))
    : Recency.find ((as ++ p :: bs).map Prod.snd) p.2.key = some p.2 := by
  have has : Recency.find (as.map Prod.snd) p.2.key = none := by
    apply find_eq_none
    intro q hq
    exact h.key_unique (by simp [hq])
  unfold Recency.find at has ⊢
  rw [List.map_append, List.find?_append, has]
  simp

theorem Rep.without_eq {lru : Lru κ ν} {as bs : List (Nat × Slot κ ν)} {p : Nat × Slot κ ν}
    (h : Rep lru (as ++ p :: bs))
    : Recency.without ((as ++ p :: bs).map Prod.snd) p.2.key = (as ++ bs).map Prod.snd := by
  have hrest : Recency.without ((as ++ bs).map Prod.snd) p.2.key = (as ++ bs).map Prod.snd := by
    apply without_eq_self
    intro q hq
    exact h.key_unique hq
  unfold Recency.without at hrest ⊢
  rw [List.map_append, List.filter_append] at hrest
  rw [List.map_append, List.filter_append, List.map_cons, List.filter_cons_of_neg (by simp), hrest,
    ← List.map_append]

end Lru
end MemStream
