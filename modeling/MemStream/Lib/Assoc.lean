import Mathlib.Data.List.AList

namespace Assoc

structure Order (κ : Type) where
  arrange : List κ → List κ
  perm : ∀ keys, (arrange keys).Perm keys

/-- Which order it is depends on the keys only, and not on how they got into the map. -/
def Order.Canonical {κ : Type} (order : Order κ) : Prop :=
  ∀ keys keys' : List κ, keys.Perm keys' → order.arrange keys = order.arrange keys'

def Order.sorted {κ : Type} (le : κ → κ → Bool) : Order κ where
  arrange keys := keys.mergeSort le
  perm keys := List.mergeSort_perm keys le

section Sorted

variable {κ : Type} {le : κ → κ → Bool} (htrans : ∀ a b c, le a b → le b c → le a c)
  (htotal : ∀ a b, le a b || le b a)

include htrans htotal

theorem Order.pairwise_sorted (keys : List κ)
    : ((Order.sorted le).arrange keys).Pairwise fun a b => le a b := by
  exact List.pairwise_mergeSort htrans htotal keys

theorem Order.canonical_sorted (hantisymm : ∀ a b, le a b → le b a → a = b)
    : (Order.sorted le).Canonical := by
  intro keys keys' hperm
  apply List.Perm.eq_of_pairwise (fun a b _ _ => hantisymm a b)
  . exact Order.pairwise_sorted htrans htotal keys
  . exact Order.pairwise_sorted htrans htotal keys'
  . exact ((Order.sorted le).perm keys).trans (hperm.trans ((Order.sorted le).perm keys').symm)

end Sorted

variable {κ ν : Type} [DecidableEq κ]

theorem lookup_insert (m : AList fun _ : κ => ν) (k k' : κ) (v : ν)
    : (m.insert k v).lookup k' = if k' = k then some v else m.lookup k' := by
  split
  . next h => rw [h, AList.lookup_insert]
  . next h => rw [AList.lookup_insert_ne h]

theorem lookup_erase (m : AList fun _ : κ => ν) (k k' : κ)
    : (m.erase k).lookup k' = if k' = k then none else m.lookup k' := by
  split
  . next h => rw [h, AList.lookup_erase]
  . next h => rw [AList.lookup_erase_ne h]

theorem lookup_foldl_erase (ks : List κ) (m : AList fun _ : κ => ν) (k' : κ)
    : (ks.foldl (fun m k => m.erase k) m).lookup k' = if k' ∈ ks then none else m.lookup k' := by
  induction ks generalizing m with
  | nil => simp
  | cons k ks ih =>
    rw [List.foldl_cons, ih, lookup_erase]
    by_cases hk : k' = k
    . simp [hk]
    . simp [hk]

theorem length_insert {m : AList fun _ : κ => ν} {k : κ} (h : m.lookup k = none) (v : ν)
    : (m.insert k v).entries.length = m.entries.length + 1 := by
  rw [AList.lookup_eq_none] at h
  rw [AList.entries_insert_of_notMem h, List.length_cons]

theorem length_erase {m : AList fun _ : κ => ν} {k : κ} {v : ν} (h : m.lookup k = some v)
    : (m.erase k).entries.length + 1 = m.entries.length := by
  have hmem : k ∈ m.keys := by
    rw [← AList.mem_keys, ← AList.lookup_isSome, h]
    rfl
  have hkeys : (m.erase k).keys.length + 1 = m.keys.length := by
    rw [AList.keys_erase, List.length_erase_of_mem hmem]
    have := List.length_pos_of_mem hmem
    omega
  simpa [AList.keys, List.keys] using hkeys

theorem length_erase_le (m : AList fun _ : κ => ν) (k : κ)
    : (m.erase k).entries.length ≤ m.entries.length := by
  exact (List.kerase_sublist k m.entries).length_le

theorem length_insert_of_some {m : AList fun _ : κ => ν} {k : κ} {v : ν} (h : m.lookup k = some v)
    (v' : ν)
    : (m.insert k v').entries.length = m.entries.length := by
  have herase := length_erase h
  rw [AList.entries_insert, List.length_cons]
  exact herase

theorem length_foldl_erase {ks : List κ} (hnodup : ks.Nodup) {m : AList fun _ : κ => ν}
    (hmem : ∀ k ∈ ks, ∃ v, m.lookup k = some v)
    : (ks.foldl (fun m k => m.erase k) m).entries.length + ks.length = m.entries.length := by
  induction ks generalizing m with
  | nil => rfl
  | cons k ks ih =>
    rw [List.nodup_cons] at hnodup
    rcases hmem k (by simp) with ⟨v, hv⟩
    have herase := length_erase hv
    have hstill (k' : κ) (hk' : k' ∈ ks) : ∃ v, (m.erase k).lookup k' = some v := by
      rw [lookup_erase, if_neg]
      . exact hmem k' (by simp [hk'])
      . intro heq
        rw [heq] at hk'
        exact hnodup.1 hk'
    have hrest := ih hnodup.2 hstill
    rw [List.foldl_cons, List.length_cons]
    omega

theorem length_insert_le (m : AList fun _ : κ => ν) (k : κ) (v : ν)
    : (m.insert k v).entries.length ≤ m.entries.length + 1 := by
  rw [AList.entries_insert, List.length_cons]
  exact Nat.succ_le_succ (List.kerase_sublist k m.entries).length_le

end Assoc
