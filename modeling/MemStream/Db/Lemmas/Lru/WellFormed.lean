import MemStream.Db.Lemmas.Lru.Run

namespace MemStream
namespace Lru

variable {κ ν : Type}

def Occupied (lru : Lru κ ν) (idx : Nat) : Prop :=
  ∃ e, lru.entries[idx]? = some (some e)

/-- Following `link` from a slot visits these slots, and the last of them has no other behind it. -/
def Follows (lru : Lru κ ν) (link : Entry ν → Nat) : Nat → List Nat → Prop
  | idx, [] => idx = null
  | idx, i :: order =>
    idx = i ∧ idx ≠ null ∧ ∃ e, lru.entries[idx]? = some (some e) ∧ lru.Follows link (link e) order

structure WellFormed [DecidableEq κ] (lru : Lru κ ν) : Prop where
  linked : ∃ order,
    lru.Follows (·.next) lru.head order
      ∧ order.getLastD null = lru.tail
      ∧ lru.Follows (·.prev) lru.tail order.reverse
      ∧ order.Nodup
      ∧ ∀ idx, idx ∈ order ↔ lru.Occupied idx
  map_iff : ∀ key idx, lru.map.lookup key = some idx ↔ lru.reverse[idx]? = some (some key)
  reverse_iff : ∀ idx, (∃ key, lru.reverse[idx]? = some (some key)) ↔ lru.Occupied idx
  free_nodup : lru.free.Nodup
  free_iff : ∀ idx, idx ∈ lru.free ↔ lru.entries[idx]? = some none
  reverse_length : lru.reverse.length = lru.entries.length
  length_le : lru.entries.length ≤ lru.cap

theorem cell_eq_some {lru : Lru κ ν} {idx : Nat} {e : Entry ν}
    : lru.cell idx = some e ↔ lru.entries[idx]? = some (some e) := by
  unfold cell
  exact Option.join_eq_some_iff

theorem follows_of_stretch {lru : Lru κ ν} {link : Entry ν → Nat} {prev next : Nat → Nat}
    (hlink : ∀ i e, lru.cell i = some e → next i = link e) {p : Nat} {order : List Nat}
    (h : Links.Stretch prev next p order null) (hcell : ∀ i ∈ order, ∃ e, lru.cell i = some e)
    (hnull : ∀ i ∈ order, i ≠ null)
    : lru.Follows link (order.headD null) order := by
  induction order generalizing p with
  | nil => rfl
  | cons i order ih =>
    rcases h with ⟨_, hnext, hrest⟩
    rcases hcell i (by simp) with ⟨e, he⟩
    refine ⟨rfl, hnull i (by simp), e, cell_eq_some.mp he, ?_⟩
    rw [← hlink i e he, hnext]
    apply ih hrest
    . intro j hj
      exact hcell j (by simp [hj])
    . intro j hj
      exact hnull j (by simp [hj])

variable [DecidableEq κ]

namespace Rep

variable {lru : Lru κ ν} {r : List (Nat × Slot κ ν)}

theorem mem_iff_occupied (h : Rep lru r) (idx : Nat) : idx ∈ r.map Prod.fst ↔ lru.Occupied idx := by
  constructor
  . intro hidx
    rcases h.cell_of_mem hidx with ⟨e, he⟩
    exact ⟨e, cell_eq_some.mp he⟩
  . rintro ⟨e, he⟩
    by_contra hidx
    have hdata := (h.blank idx hidx).1
    unfold data at hdata
    rw [cell_eq_some.mpr he, Option.map_some] at hdata
    contradiction

theorem follows_next (h : Rep lru r) : lru.Follows (·.next) lru.head (r.map Prod.fst) := by
  have hhead : lru.head = (r.map Prod.fst).headD null := h.spells.head_eq
  have hlink : ∀ i e, lru.cell i = some e → lru.links.next i = e.next := by
    intro i e he
    exact links_next_eq he
  rw [hhead]
  apply follows_of_stretch hlink h.spells.linked
  . intro i hi
    exact h.cell_of_mem hi
  . exact h.spells.ne_null

theorem follows_prev (h : Rep lru r) : lru.Follows (·.prev) lru.tail (r.map Prod.fst).reverse := by
  have htail : lru.tail = (r.map Prod.fst).reverse.headD null := h.spells.reverse.head_eq
  have hlink : ∀ i e, lru.cell i = some e → lru.links.reverse.next i = e.prev := by
    intro i e he
    exact links_prev_eq he
  rw [htail]
  apply follows_of_stretch hlink h.spells.reverse.linked
  . intro i hi
    exact h.cell_of_mem (List.mem_reverse.mp hi)
  . exact h.spells.reverse.ne_null

theorem named_iff (h : Rep lru r) (idx : Nat) (key : κ)
    : lru.reverse[idx]? = some (some key) ↔ ∃ slot, (idx, slot) ∈ r ∧ slot.key = key := by
  rw [← Option.join_eq_some_iff]
  constructor
  . intro hkey
    by_cases hidx : idx ∈ r.map Prod.fst
    . rcases List.mem_map.mp hidx with ⟨p, hp, rfl⟩
      rw [h.named p hp, Option.some.injEq] at hkey
      exact ⟨p.2, hp, hkey⟩
    . rw [(h.blank idx hidx).2] at hkey
      contradiction
  . rintro ⟨slot, hslot, rfl⟩
    exact h.named (idx, slot) hslot

theorem wellFormed (h : Rep lru r) : lru.WellFormed := by
  constructor
  case linked =>
    refine ⟨r.map Prod.fst, h.follows_next, ?_, h.follows_prev, h.spells.nodup, h.mem_iff_occupied⟩
    exact h.spells.tail_eq.symm
  case map_iff =>
    intro key idx
    rw [h.mapped, h.named_iff]
  case reverse_iff =>
    intro idx
    rw [← h.mem_iff_occupied, List.mem_map]
    simp only [h.named_iff]
    constructor
    . rintro ⟨key, slot, hslot, _⟩
      exact ⟨(idx, slot), hslot, rfl⟩
    . rintro ⟨p, hp, rfl⟩
      exact ⟨p.2.key, p.2, hp, rfl⟩
  case free_nodup => exact h.free_nodup
  case free_iff =>
    intro idx
    rw [h.free_iff, h.mem_iff_occupied]
    constructor
    . rintro ⟨hlt, hidx⟩
      cases he : lru.entries[idx] with
      | none => rw [List.getElem?_eq_getElem hlt, he]
      | some e =>
        refine absurd ⟨e, ?_⟩ hidx
        rw [List.getElem?_eq_getElem hlt, he]
    . intro hnone
      refine ⟨(List.getElem?_eq_some_iff.mp hnone).1, ?_⟩
      rintro ⟨e, he⟩
      rw [hnone, Option.some.injEq] at he
      contradiction
  case reverse_length => exact h.reverse_length
  case length_le => exact h.length_le

theorem exists_allocSlot (h : Rep lru r) (key : κ) (e : Entry ν) : ∃ res, lru.allocSlot key e = some res := by
  cases hfree : lru.free using List.reverseRecOn with
  | nil =>
    unfold allocSlot
    rw [hfree]
    exact ⟨_, rfl⟩
  | append_singleton free idx =>
    rcases h.allocSlot_free hfree key e with ⟨lru', halloc, _⟩
    exact ⟨_, halloc⟩

theorem exists_relink (h : Rep lru r) {idx : Nat} (hidx : lru.Occupied idx)
    : ∃ lru1 lru2, lru.detach idx = some lru1 ∧ lru1.attachFront idx = some lru2 := by
  rw [← h.mem_iff_occupied, List.mem_map] at hidx
  rcases hidx with ⟨p, hp, rfl⟩
  rcases List.append_of_mem hp with ⟨as, bs, rfl⟩
  rcases h.touch with ⟨lru1, lru2, hdetach, hattach, _⟩
  exact ⟨lru1, lru2, hdetach, hattach⟩

end Rep

structure Safe (lru : Lru κ ν) : Prop where
  step : ∀ op, ∃ res, lru.step op = some res
  allocSlot : ∀ key e, ∃ res, lru.allocSlot key e = some res
  relink : ∀ idx, lru.Occupied idx →
    ∃ lru1 lru2, lru.detach idx = some lru1 ∧ lru1.attachFront idx = some lru2

theorem wellFormed_run (cap : UInt64) (hpos : 1 ≤ cap) (ttl : Nat) (ops : List (Recency.Op κ ν))
    : ∃ lru answers,
        Machine.tryRun step (new cap.toNat ttl : Lru κ ν) ops = some (answers, lru)
          ∧ lru.cap = cap.toNat
          ∧ lru.WellFormed
          ∧ lru.Safe := by
  have hle : cap.toNat ≤ null := by
    have := cap.toNat_lt
    unfold null
    omega
  rcases represents_run (UInt64.le_iff_toNat_le.mp hpos) hle ttl ops with ⟨lru, hrun, hrep⟩
  have hstep (op : Recency.Op κ ν) : ∃ res, lru.step op = some res := by
    rcases hrep.step_refines op with ⟨lru', hop, _⟩
    exact ⟨_, hop⟩
  rcases hrep.rep with ⟨r, hr, _⟩
  refine ⟨lru, _, hrun, hrep.cap_eq, hr.wellFormed, ?_⟩
  constructor
  case step => exact hstep
  case allocSlot =>
    intro key e
    exact hr.exists_allocSlot key e
  case relink =>
    intro idx hidx
    exact hr.exists_relink hidx

-- The second slot is vacated by the removal of "b" and the first one comes to the front again.
theorem wellFormed_run_two
    : (1 : UInt64) ≤ 2
        ∧ ∃ lru : Lru String Nat,
            (Machine.tryRun step (new 2 5)
                [.insert 0 "a" 1, .insert 1 "b" 2, .remove "b", .get 2 "a"]).map Prod.snd = some lru
            ∧ lru.free = [1]
            ∧ lru.head = 0
            ∧ lru.WellFormed
            ∧ lru.Safe := by
  have hpos : (1 : UInt64) ≤ 2 := by decide
  rcases wellFormed_run 2 hpos 5
    [.insert 0 "a" 1, .insert 1 "b" 2, .remove "b", .get 2 "a"]
    with ⟨lru, answers, hrun, _, hwell, hsafe⟩
  refine ⟨hpos, lru, ?_, ?_, ?_, hwell, hsafe⟩
  . exact congrArg (Option.map Prod.snd) hrun
  . cases hrun
    rfl
  . cases hrun
    rfl

end Lru
end MemStream
