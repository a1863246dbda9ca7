import Mathlib.Data.List.TakeWhile
import Mathlib.Order.Lattice

/-!
Queues whose elements have a number and a key, and that are sorted by the key, and by the number among
elements with the same key. An element with a new number belongs behind all that have the same key, and the
first element with a property is the least one that has it.
-/

namespace Ranked

variable {α κ : Type} [LinearOrder κ] {key : α → κ}

def Before (key : α → κ) (a b : Nat × α) : Prop :=
  key a.2 < key b.2 ∨ key a.2 = key b.2 ∧ a.1 < b.1

theorem Before.le {a b : Nat × α} (h : Before key a b) : key a.2 ≤ key b.2 := by
  cases h with
  | inl hlt => exact le_of_lt hlt
  | inr heq => exact le_of_eq heq.1

theorem lt_of_mem_dropWhile {q : List (Nat × α)} (h : q.Pairwise (Before key)) (k : κ)
    : ∀ e ∈ q.dropWhile (fun e => key e.2 ≤ k), k < key e.2 := by
  induction q with
  | nil => simp
  | cons a q ih =>
    rw [List.pairwise_cons] at h
    intro e he
    rw [List.dropWhile_cons] at he
    split at he
    . exact ih h.2 e he
    . next hk =>
      simp only [decide_eq_true_eq, not_le] at hk
      cases List.mem_cons.mp he with
      | inl heq =>
        rw [heq]
        exact hk
      | inr hmem => exact lt_of_lt_of_le hk (h.1 e hmem).le

theorem le_of_mem_takeWhile {q : List (Nat × α)} (k : κ)
    : ∀ e ∈ q.takeWhile (fun e => key e.2 ≤ k), key e.2 ≤ k := by
  intro e he
  simpa using List.mem_takeWhile_imp he

theorem pairwise_insert {q : List (Nat × α)} (h : q.Pairwise (Before key)) {n : Nat} (a : α)
    (hnew : ∀ e ∈ q, e.1 < n)
    : (q.takeWhile (fun e => key e.2 ≤ key a)
        ++ (n, a) :: q.dropWhile (fun e => key e.2 ≤ key a)).Pairwise (Before key) := by
  have hsplit : (q.takeWhile (fun e => key e.2 ≤ key a)
      ++ q.dropWhile (fun e => key e.2 ≤ key a)).Pairwise (Before key) := by
    rw [List.takeWhile_append_dropWhile]
    exact h
  rw [List.pairwise_append] at hsplit ⊢
  rcases hsplit with ⟨hfront, hback, hcross⟩
  refine ⟨hfront, ?_, ?_⟩
  . rw [List.pairwise_cons]
    refine ⟨?_, hback⟩
    intro e he
    exact Or.inl (lt_of_mem_dropWhile h (key a) e he)
  . intro e he e' he'
    cases List.mem_cons.mp he' with
    | inl heq =>
      rw [heq]
      -- what has the same key is older
      cases lt_or_eq_of_le (le_of_mem_takeWhile (key a) e he) with
      | inl hlt => exact Or.inl hlt
      | inr hkey => exact Or.inr ⟨hkey, hnew e ((List.takeWhile_sublist _).subset he)⟩
    | inr hmem => exact hcross e he e' hmem

theorem eq_or_before_of_first {front back : List (Nat × α)} {e : Nat × α}
    (h : (front ++ e :: back).Pairwise (Before key)) {P : Nat × α → Prop}
    (hfront : ∀ e' ∈ front, ¬P e')
    : ∀ e' ∈ front ++ e :: back, P e' → e' = e ∨ Before key e e' := by
  intro e' he' hp
  rw [List.pairwise_append, List.pairwise_cons] at h
  rw [List.mem_append, List.mem_cons] at he'
  rcases he' with hmem | heq | hmem
  . exact absurd hp (hfront e' hmem)
  . exact Or.inl heq
  . exact Or.inr (h.2.1.1 e' hmem)

end Ranked
