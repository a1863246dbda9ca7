import Mathlib.Data.List.TakeWhile

/-!
The search of `slice::partition_point`. It halves what is left of the slice until one element remains, and
looks at no other elements; what it finds has a meaning only where those for which the predicate holds come
first.
-/

namespace BinarySearch

variable {α : Type} (p : α → Bool) (xs : List α)

def holdsAt (i : Nat) : Bool :=
  xs[i]?.any p

def narrow (base size : Nat) : Nat :=
  if size > 1 then
    let half := size / 2
    let mid := base + half
    if holdsAt p xs mid then narrow mid (size - half) else narrow base (size - half)
  else
    base
termination_by size

def partitionPoint : Nat :=
  if xs.length = 0 then
    0
  else
    let base := narrow p xs 0 xs.length
    if holdsAt p xs base then base + 1 else base

variable {p xs}

theorem narrow_bounds {k : Nat} (hk : ∀ i < xs.length, holdsAt p xs i = decide (i < k))
    {base size : Nat} (hsize : 0 < size) (hbase : base = 0 ∨ base < k) (hupper : k ≤ base + size)
    (hlength : base + size ≤ xs.length)
    : (narrow p xs base size = 0 ∨ narrow p xs base size < k)
        ∧ k ≤ narrow p xs base size + 1
        ∧ narrow p xs base size < xs.length := by
  induction base, size using narrow.induct p xs with
  | case1 base size hmore half mid hmid ih =>
    unfold narrow
    rw [if_pos hmore, if_pos hmid]
    rw [hk mid (by omega), decide_eq_true_iff] at hmid
    apply ih
    . omega
    . exact Or.inr hmid
    . omega
    . omega
  | case2 base size hmore half mid hmid ih =>
    unfold narrow
    rw [if_pos hmore, if_neg hmid]
    rw [hk mid (by omega), decide_eq_true_iff] at hmid
    apply ih
    . omega
    . exact hbase
    . omega
    . omega
  | case3 base size hone =>
    unfold narrow
    rw [if_neg hone]
    omega

theorem partitionPoint_eq {k : Nat} (hk : ∀ i < xs.length, holdsAt p xs i = decide (i < k))
    (hle : k ≤ xs.length)
    : partitionPoint p xs = k := by
  unfold partitionPoint
  split
  . omega
  . next hpos =>
    have hupper : k ≤ 0 + xs.length := by omega
    have hlength : 0 + xs.length ≤ xs.length := by omega
    rcases narrow_bounds hk (Nat.pos_of_ne_zero hpos) (Or.inl rfl) hupper hlength
      with ⟨hbase, hnext, hlt⟩
    dsimp only
    rw [hk _ hlt]
    by_cases h : narrow p xs 0 xs.length < k
    . simp only [h, decide_true, if_true]
      omega
    . simp only [h, decide_false, Bool.false_eq_true, if_false]
      omega

theorem partitionPoint_append {front back : List α} (hfront : ∀ x ∈ front, p x = true)
    (hback : ∀ x ∈ back, p x = false)
    : partitionPoint p (front ++ back) = front.length := by
  apply partitionPoint_eq
  . intro i hi
    unfold holdsAt
    by_cases hlt : i < front.length
    . rw [List.getElem?_append_left hlt, List.getElem?_eq_getElem hlt]
      simp [hlt, hfront]
    . rw [List.length_append] at hi
      have hlt' : i - front.length < back.length := by omega
      rw [List.getElem?_append_right (by omega), List.getElem?_eq_getElem hlt']
      simp [hlt, hback]
  . simp

end BinarySearch
