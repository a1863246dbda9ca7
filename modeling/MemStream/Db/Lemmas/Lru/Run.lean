import MemStream.Lib.Machine
import MemStream.Db.Lemmas.Lru.Refine

namespace MemStream

namespace Recency

variable {κ ν : Type} [DecidableEq κ]

theorem lastInsert_concat (ops : List (Op κ ν)) (op : Op κ ν) (key : κ)
    : lastInsert (ops ++ [op]) key
        =
      match op with
      | .insert now key' value => if key' = key then some (now, value) else lastInsert ops key
      | _ => lastInsert ops key := by
  unfold lastInsert
  rw [List.foldl_append]
  rfl

theorem nodup_without {r : Recency κ ν} (h : (r.map Slot.key).Nodup) (key : κ)
    : ((r.without key).map Slot.key).Nodup := by
  apply List.Nodup.sublist _ h
  apply List.Sublist.map
  apply List.filter_sublist

theorem nodup_cons_without {r : Recency κ ν} (h : (r.map Slot.key).Nodup) (slot : Slot κ ν)
    : ((slot :: r.without slot.key).map Slot.key).Nodup := by
  rw [List.map_cons, List.nodup_cons]
  constructor
  . intro hmem
    rcases List.mem_map.mp hmem with ⟨slot', hslot', hkey⟩
    exact (mem_without.mp hslot').2 hkey
  . apply nodup_without h

theorem key_ne_of_find {r : Recency κ ν} {key : κ} (h : r.find key = none) {slot : Slot κ ν}
    (hslot : slot ∈ r)
    : slot.key ≠ key := by
  unfold find at h
  simpa using List.find?_eq_none.mp h slot hslot

structure Latest (ttl : Nat) (ops : List (Op κ ν)) (r : Recency κ ν) : Prop where
  nodup : (r.map Slot.key).Nodup
  latest : ∀ slot ∈ r, ∃ now,
    lastInsert ops slot.key = some (now, slot.value) ∧ slot.expiresAt = now + ttl

variable {ttl : Nat} {ops : List (Op κ ν)} {r : Recency κ ν}

theorem Latest.of_subset (h : Latest ttl ops r) {r' : Recency κ ν} (hnodup : (r'.map Slot.key).Nodup)
    (hsub : r' ⊆ r) {op : Op κ ν} (hop : ∀ key, lastInsert (ops ++ [op]) key = lastInsert ops key)
    : Latest ttl (ops ++ [op]) r' := by
  constructor
  . exact hnodup
  . intro slot hslot
    rw [hop]
    exact h.latest slot (hsub hslot)

theorem Latest.insert (h : Latest ttl ops r) (cap now : Nat) (key : κ) (value : ν)
    : Latest ttl (ops ++ [.insert now key value]) (r.insert cap ttl now key value) := by
  have hold : ∀ slot ∈ r, slot.key ≠ key → ∃ now',
      lastInsert (ops ++ [.insert now key value]) slot.key = some (now', slot.value)
        ∧ slot.expiresAt = now' + ttl := by
    intro slot hslot hne
    rw [lastInsert_concat]
    dsimp only
    rw [if_neg hne.symm]
    exact h.latest slot hslot
  have hnew : ∃ now', lastInsert (ops ++ [.insert now key value]) key = some (now', value)
      ∧ now + ttl = now' + ttl := by
    refine ⟨now, ?_, rfl⟩
    rw [lastInsert_concat]
    dsimp only
    rw [if_pos rfl]
  unfold Recency.insert
  split
  . constructor
    . exact nodup_cons_without h.nodup ⟨key, value, now + ttl⟩
    . intro slot hslot
      cases List.mem_cons.mp hslot with
      | inl heq =>
        rw [heq]
        exact hnew
      | inr hmem =>
        have hmem := mem_without.mp hmem
        exact hold slot hmem.1 hmem.2
  . next hfind =>
    have hsub : (if r.length = cap then r.dropLast else r).Sublist r := by
      split
      . apply List.dropLast_sublist
      . apply List.Sublist.refl
    constructor
    . rw [List.map_cons, List.nodup_cons]
      constructor
      . intro hmem
        rcases List.mem_map.mp hmem with ⟨slot, hslot, hkey⟩
        exact key_ne_of_find hfind (hsub.subset hslot) hkey
      . apply List.Nodup.sublist _ h.nodup
        apply List.Sublist.map
        exact hsub
    . intro slot hslot
      cases List.mem_cons.mp hslot with
      | inl heq =>
        rw [heq]
        exact hnew
      | inr hmem =>
        have hmem := hsub.subset hmem
        exact hold slot hmem (key_ne_of_find hfind hmem)

theorem without_subset (r : Recency κ ν) (key : κ) : r.without key ⊆ r := by
  intro slot hslot
  exact (mem_without.mp hslot).1

theorem Latest.step (h : Latest ttl ops r) (cap : Nat) (op : Op κ ν)
    : Latest ttl (ops ++ [op]) (step cap ttl r op).2 := by
  cases op with
  | insert now key value => exact h.insert cap now key value
  | get now key =>
    have hop (key' : κ) : lastInsert (ops ++ [.get now key]) key' = lastInsert ops key' := by
      rw [lastInsert_concat]
    show Latest ttl _ (r.get now key).2
    unfold Recency.get
    split
    . exact h.of_subset h.nodup (List.Subset.refl r) hop
    . next slot hfind =>
      have hslot := find_eq_some hfind
      split
      . exact h.of_subset (nodup_without h.nodup key) (without_subset r key) hop
      . apply h.of_subset _ _ hop
        . rw [← hslot.2]
          exact nodup_cons_without h.nodup slot
        . apply List.cons_subset.mpr
          exact ⟨hslot.1, without_subset r key⟩
  | remove key =>
    have hop (key' : κ) : lastInsert (ops ++ [.remove key]) key' = lastInsert ops key' := by
      rw [lastInsert_concat]
    exact h.of_subset (nodup_without h.nodup key) (without_subset r key) hop

end Recency

namespace Lru

variable {κ ν : Type} [DecidableEq κ]

def step (lru : Lru κ ν) : Recency.Op κ ν → Option (Option ν × Lru κ ν)
  | .insert now key value => (lru.insert now key value).map fun lru => (none, lru)
  | .get now key => lru.get now key
  | .remove key => lru.remove key

theorem Represents.step_refines {lru : Lru κ ν} {cap ttl : Nat} {recency : Recency κ ν}
    (h : Represents lru cap ttl recency) (op : Recency.Op κ ν)
    : ∃ lru', lru.step op = some ((recency.step cap ttl op).1, lru')
        ∧ Represents lru' cap ttl (recency.step cap ttl op).2 := by
  cases op with
  | insert now key value =>
    rcases h.insert_refines now key value with ⟨lru', hinsert, hrep⟩
    refine ⟨lru', ?_, hrep⟩
    simp only [step, hinsert, Option.map_some]
    rfl
  | get now key => exact h.get_refines now key
  | remove key => exact h.remove_refines key

theorem Represents.length_le {lru : Lru κ ν} {cap ttl : Nat} {recency : Recency κ ν}
    (h : Represents lru cap ttl recency)
    : lru.map.entries.length = recency.length ∧ recency.length ≤ cap := by
  rcases h with ⟨rfl, rfl, r, hrep, rfl⟩
  rw [List.length_map]
  exact ⟨hrep.map_length, hrep.length_le_cap⟩

theorem represents_run {cap : Nat} (hpos : 0 < cap) (hle : cap ≤ null) (ttl : Nat)
    (ops : List (Recency.Op κ ν))
    : ∃ lru,
        Machine.tryRun step (new cap ttl : Lru κ ν) ops
          = some ((Machine.run (Recency.step cap ttl) [] ops).1, lru)
          ∧ Represents lru cap ttl (Machine.run (Recency.step cap ttl) [] ops).2 := by
  have hnew : Represents (new cap ttl : Lru κ ν) cap ttl [] := represents_new hle hpos ttl
  exact Machine.tryRun_sim (R := fun lru recency => Represents lru cap ttl recency)
    (fun lru recency op h => h.step_refines op) hnew ops

theorem run_refines {cap : Nat} (hpos : 1 ≤ cap) (hle : cap ≤ null) (ttl : Nat)
    (ops : List (Recency.Op κ ν))
    : ∃ lru recency answers,
        Machine.run (Recency.step cap ttl) [] ops = (answers, recency)
          ∧ Machine.tryRun step (new cap ttl : Lru κ ν) ops = some (answers, lru)
          ∧ Represents lru cap ttl recency
          ∧ (recency.map Slot.key).Nodup
          ∧ (∀ slot ∈ recency, ∃ now,
              Recency.lastInsert ops slot.key = some (now, slot.value) ∧ slot.expiresAt = now + ttl)
          ∧ lru.map.keys.length = recency.length
          ∧ recency.length ≤ cap := by
  rcases represents_run hpos hle ttl ops with ⟨lru, hrun, hrep⟩
  have hlatest : Recency.Latest ttl ops (Machine.run (Recency.step cap ttl) [] ops).2 := by
    have hstart : Recency.Latest ttl ([] : List (Recency.Op κ ν)) [] := ⟨by simp, by simp⟩
    exact Machine.run_history (P := Recency.Latest ttl) (fun done r op h => h.step cap op) hstart ops
  refine ⟨lru, _, _, rfl, hrun, hrep, hlatest.nodup, hlatest.latest, ?_, hrep.length_le.2⟩
  rw [← hrep.length_le.1]
  simp [AList.keys, List.keys]

-- "b" is the one that is dropped for "c", and "a" has expired when it is asked for again
theorem run_refines_two
    : 1 ≤ 2 ∧ 2 ≤ null
        ∧ ∃ lru : Lru String Nat,
            (Machine.tryRun step (new 2 5)
                [.insert 0 "a" 1, .insert 1 "b" 2, .get 2 "a", .insert 3 "c" 3, .get 4 "b", .get 6 "a"]).map
                (fun res => (res.1.map Prod.snd, res.2))
              = some ([none, none, some 1, none, none, none], lru)
            ∧ Represents lru 2 5 [⟨"c", 3, 8⟩] := by
  have hle : 2 ≤ null := by decide
  rcases run_refines (by decide) hle 5
    [.insert 0 "a" 1, .insert 1 "b" 2, .get 2 "a", .insert 3 "c" 3, .get 4 "b", .get 6 "a"]
    with ⟨lru, recency, answers, hspec, hrun, hrep, _⟩
  cases hspec
  refine ⟨by decide, hle, lru, ?_, hrep⟩
  rw [hrun]
  rfl

end Lru
end MemStream
