import Mathlib.Algebra.BigOperators.Group.List.Basic
import Mathlib.Algebra.Order.Ring.Nat
import Mathlib.Data.List.Basic

namespace Pool

variable {α : Type}

theorem mem_set_of_ne {pool : List α} {i : Nat} {a b : α} (hi : pool[i]? = some a) (hb : b ∈ pool)
    (hne : b ≠ a) (c : α)
    : b ∈ pool.set i c := by
  rcases List.mem_iff_getElem?.mp hb with ⟨j, hj⟩
  rw [List.mem_iff_getElem?]
  refine ⟨j, ?_⟩
  rw [List.getElem?_set_ne]
  . exact hj
  . rintro rfl
    rw [hi, Option.some.injEq] at hj
    exact hne hj.symm

theorem mem_set_self {pool : List α} {i : Nat} {a : α} (hi : pool[i]? = some a) (c : α)
    : c ∈ pool.set i c := by
  have ⟨hlt, _⟩ := List.getElem?_eq_some_iff.mp hi
  exact List.mem_set hlt c

theorem getElem?_of_set {pool : List α} {i j : Nat} {a b : α} (h : (pool.set i a)[j]? = some b)
    : (j = i ∧ b = a) ∨ (j ≠ i ∧ pool[j]? = some b) := by
  by_cases hj : j = i
  . left
    rw [hj, List.getElem?_set_self'] at h
    rcases Option.map_eq_some_iff.mp h with ⟨_, _, hb⟩
    exact ⟨hj, hb.symm⟩
  . right
    rw [List.getElem?_set_ne (Ne.symm hj)] at h
    exact ⟨hj, h⟩

theorem map_set_of_eq {β : Type} {pool : List α} {i : Nat} {a : α} (hi : pool[i]? = some a) {c : α}
    {f : α → β} (hc : f c = f a)
    : (pool.set i c).map f = pool.map f := by
  induction pool generalizing i with
  | nil => rfl
  | cons b pool ih =>
    cases i with
    | zero =>
      rw [List.getElem?_cons_zero, Option.some.injEq] at hi
      rw [List.set_cons_zero, List.map_cons, List.map_cons, hc, hi]
    | succ i =>
      rw [List.getElem?_cons_succ] at hi
      rw [List.set_cons_succ, List.map_cons, List.map_cons, ih hi]

theorem sum_map_set {pool : List α} {i : Nat} {a : α} (hi : pool[i]? = some a) (c : α) (f : α → Nat)
    : ((pool.set i c).map f).sum + f a = (pool.map f).sum + f c := by
  induction pool generalizing i with
  | nil => simp at hi
  | cons b pool ih =>
    cases i with
    | zero =>
      rw [List.getElem?_cons_zero, Option.some.injEq] at hi
      simp only [List.set_cons_zero, List.map_cons, List.sum_cons, hi]
      omega
    | succ i =>
      rw [List.getElem?_cons_succ] at hi
      have := ih hi
      simp only [List.set_cons_succ, List.map_cons, List.sum_cons]
      omega

theorem filterMap_set {β : Type} {pool : List α} {i : Nat} {a : α} (hi : pool[i]? = some a) (c : α)
    (f : α → Option β)
    : ((f a).toList ++ (pool.set i c).filterMap f).Perm ((f c).toList ++ pool.filterMap f) := by
  have hcons (b : α) (bs : List α) : (b :: bs).filterMap f = (f b).toList ++ bs.filterMap f := by
    rw [List.filterMap_cons]
    cases f b with
    | none => rfl
    | some val => rfl
  induction pool generalizing i with
  | nil => simp at hi
  | cons b pool ih =>
    cases i with
    | zero =>
      rw [List.getElem?_cons_zero, Option.some.injEq] at hi
      rw [List.set_cons_zero, hcons, hcons, hi]
      exact List.perm_append_comm_assoc _ _ _
    | succ i =>
      rw [List.getElem?_cons_succ] at hi
      rw [List.set_cons_succ, hcons, hcons]
      apply (List.perm_append_comm_assoc _ _ _).trans
      apply ((ih hi).append_left _).trans
      exact List.perm_append_comm_assoc _ _ _

theorem exists_of_sum_pos {pool : List α} {f : α → Nat} (h : 0 < (pool.map f).sum)
    : ∃ a ∈ pool, 0 < f a := by
  induction pool with
  | nil => simp at h
  | cons a pool ih =>
    rw [List.map_cons, List.sum_cons] at h
    by_cases ha : 0 < f a
    . exact ⟨a, by simp, ha⟩
    . rcases ih (by omega) with ⟨b, hb, hpos⟩
      exact ⟨b, by simp [hb], hpos⟩

end Pool
