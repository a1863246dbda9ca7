import Std.Data.TreeMap.Lemmas

namespace OrdMap

open Std

variable {α β : Type} [Ord α] [TransOrd α] [LawfulEqOrd α]

theorem getElem?_insert [DecidableEq α] (t : TreeMap α β) (k a : α) (v : β)
    : (t.insert k v)[a]? = if a = k then some v else t[a]? := by
  rw [TreeMap.getElem?_insert]
  by_cases h : a = k
  . simp [h]
  . have : ¬ compare k a = .eq := by
      rw [Std.compare_eq_iff_eq]
      exact fun hka => h hka.symm
    simp [h, this]

theorem getElem?_foldl_erase [DecidableEq α] (ks : List α) (t : TreeMap α β) (a : α)
    : (ks.foldl (fun t k => t.erase k) t)[a]? = if a ∈ ks then none else t[a]? := by
  induction ks generalizing t with
  | nil => simp
  | cons k ks ih =>
    rw [List.foldl_cons, ih, TreeMap.getElem?_erase]
    by_cases h1 : a ∈ ks
    . simp [h1]
    . by_cases h2 : a = k
      . simp [h2]
      . have : ¬ compare k a = .eq := by
          rw [Std.compare_eq_iff_eq]
          exact fun hka => h2 hka.symm
        simp [h1, h2, this]

theorem size_foldl_erase (ks : List α) (t : TreeMap α β) (hnodup : ks.Nodup)
    (hmem : ∀ k ∈ ks, k ∈ t)
    : (ks.foldl (fun t k => t.erase k) t).size + ks.length = t.size := by
  induction ks generalizing t with
  | nil => simp
  | cons k ks ih =>
    have hk : k ∈ t := hmem k (by simp)
    have hpos : 0 < t.size := by
      rw [← TreeMap.length_keys]
      apply List.length_pos_of_mem
      rw [TreeMap.mem_keys]
      exact hk
    have hsize : (t.erase k).size = t.size - 1 := by
      rw [TreeMap.size_erase]
      simp [hk]
    rw [List.nodup_cons] at hnodup
    rw [List.foldl_cons, List.length_cons, ← Nat.add_assoc, ih]
    . omega
    . exact hnodup.2
    . intro k' hk'
      rw [TreeMap.mem_erase]
      constructor
      . rw [ne_eq, Std.compare_eq_iff_eq]
        intro heq
        rw [heq] at hnodup
        exact hnodup.1 hk'
      . exact hmem k' (by simp [hk'])

theorem head?_toList_eq_none {t : TreeMap α β}
    : t.toList.head? = none ↔ ∀ k : α, t[k]? = none := by
  rw [List.head?_eq_none_iff]
  constructor
  . intro h k
    cases hk : t[k]? with
    | none => rfl
    | some v =>
      rw [← TreeMap.mem_toList_iff_getElem?_eq_some, h] at hk
      contradiction
  . intro h
    apply List.eq_nil_iff_forall_not_mem.mpr
    rintro ⟨k, v⟩ hmem
    rw [TreeMap.mem_toList_iff_getElem?_eq_some, h k] at hmem
    contradiction

theorem head?_toList_eq_some {t : TreeMap α β} {k : α} {v : β} (h : t.toList.head? = some (k, v))
    : t[k]? = some v ∧ ∀ k' v', t[k']? = some v' → k' = k ∨ compare k k' = .lt := by
  rcases List.head?_eq_some_iff.mp h with ⟨tail, htail⟩
  constructor
  . rw [← TreeMap.mem_toList_iff_getElem?_eq_some, htail]
    simp
  . intro k' v' hk'
    have hord := TreeMap.ordered_keys_toList (t := t)
    rw [← TreeMap.mem_toList_iff_getElem?_eq_some, htail] at hk'
    rw [htail, List.pairwise_cons] at hord
    cases List.mem_cons.mp hk' with
    | inl heq =>
      left
      injection heq
    | inr hmem =>
      right
      exact hord.1 (k', v') hmem

end OrdMap
