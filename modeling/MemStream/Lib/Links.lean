import Mathlib.Data.List.Induction
import Mathlib.Data.List.Nodup
import Mathlib.Logic.Function.Basic

/-!
Doubly linked lists whose nodes are numbers: `prev` and `next` are the links of the nodes and `null` is
the number that stands for no node. `Spells` says which sequence of nodes is linked up. Unlinking a node
takes it out of the sequence and linking a node at the front puts it there.
-/

structure Links where
  prev : Nat → Nat
  next : Nat → Nat
  head : Nat
  tail : Nat

namespace Links

def unlink (null : Nat) (l : Links) (i : Nat) : Links where
  prev := if l.next i ≠ null then Function.update l.prev (l.next i) (l.prev i) else l.prev
  next := if l.prev i ≠ null then Function.update l.next (l.prev i) (l.next i) else l.next
  head := if l.prev i ≠ null then l.head else l.next i
  tail := if l.next i ≠ null then l.tail else l.prev i

def linkFront (null : Nat) (l : Links) (i : Nat) : Links where
  prev :=
    if l.head ≠ null then
      Function.update (Function.update l.prev i null) l.head i
    else
      Function.update l.prev i null
  next := Function.update l.next i l.head
  head := i
  tail := if l.head ≠ null then l.tail else i

def reverse (l : Links) : Links where
  prev := l.next
  next := l.prev
  head := l.tail
  tail := l.head

/-- The nodes of a stretch are linked to each other, to `p` before it and to `n` behind it. -/
def Stretch (prev next : Nat → Nat) : Nat → List Nat → Nat → Prop
  | _, [], _ => True
  | p, i :: order, n => prev i = p ∧ next i = order.headD n ∧ Stretch prev next i order n

theorem stretch_append {prev next : Nat → Nat} {p n : Nat} {as bs : List Nat}
    : Stretch prev next p (as ++ bs) n
        ↔ Stretch prev next p as (bs.headD n) ∧ Stretch prev next (as.getLastD p) bs n := by
  induction as generalizing p with
  | nil => simp [Stretch]
  | cons a as ih =>
    have hhead : (as ++ bs).headD n = as.headD (bs.headD n) := by
      cases as with
      | nil => rfl
      | cons a' as => rfl
    simp only [List.cons_append, Stretch, ih, hhead, List.getLastD_cons, and_assoc]

theorem getLastD_reverse (order : List Nat) (n : Nat) : order.reverse.getLastD n = order.headD n := by
  cases order with
  | nil => rfl
  | cons i order => rw [List.reverse_cons, List.getLastD_concat, List.headD_cons]

theorem headD_reverse (order : List Nat) (n : Nat) : order.reverse.headD n = order.getLastD n := by
  rw [← getLastD_reverse, List.reverse_reverse]

theorem Stretch.reverse {prev next : Nat → Nat} {p n : Nat} {order : List Nat}
    (h : Stretch prev next p order n)
    : Stretch next prev n order.reverse p := by
  induction order generalizing p with
  | nil => trivial
  | cons i order ih =>
    rcases h with ⟨hprev, hnext, hrest⟩
    rw [List.reverse_cons, stretch_append]
    refine ⟨ih hrest, ?_, hprev, trivial⟩
    rw [getLastD_reverse]
    exact hnext

theorem Stretch.congr {prev next prev' next' : Nat → Nat} {p n : Nat} {order : List Nat}
    (h : Stretch prev next p order n)
    (hprev : ∀ i ∈ order, prev' i = prev i) (hnext : ∀ i ∈ order, next' i = next i)
    : Stretch prev' next' p order n := by
  induction order generalizing p with
  | nil => trivial
  | cons i order ih =>
    rcases h with ⟨hp, hn, hrest⟩
    refine ⟨?_, ?_, ?_⟩
    . rw [hprev i (by simp)]
      exact hp
    . rw [hnext i (by simp)]
      exact hn
    . apply ih hrest
      . intro j hj
        exact hprev j (by simp [hj])
      . intro j hj
        exact hnext j (by simp [hj])

structure Spells (null : Nat) (l : Links) (order : List Nat) : Prop where
  linked : Stretch l.prev l.next null order null
  head_eq : l.head = order.headD null
  tail_eq : l.tail = order.getLastD null
  nodup : order.Nodup
  ne_null : ∀ i ∈ order, i ≠ null

variable {null : Nat} {l : Links}

theorem spells_nil (h : l.head = null) (h' : l.tail = null) : Spells null l [] where
  linked := trivial
  head_eq := h
  tail_eq := h'
  nodup := List.nodup_nil
  ne_null := by simp

theorem Spells.congr {l' : Links} {order : List Nat} (h : Spells null l order)
    (hprev : ∀ i ∈ order, l'.prev i = l.prev i) (hnext : ∀ i ∈ order, l'.next i = l.next i)
    (hhead : l'.head = l.head) (htail : l'.tail = l.tail)
    : Spells null l' order where
  linked := h.linked.congr hprev hnext
  head_eq := by
    rw [hhead]
    exact h.head_eq
  tail_eq := by
    rw [htail]
    exact h.tail_eq
  nodup := h.nodup
  ne_null := h.ne_null

theorem Spells.reverse {order : List Nat} (h : Spells null l order)
    : Spells null l.reverse order.reverse where
  linked := h.linked.reverse
  head_eq := by
    rw [headD_reverse]
    exact h.tail_eq
  tail_eq := by
    rw [getLastD_reverse]
    exact h.head_eq
  nodup := List.nodup_reverse.mpr h.nodup
  ne_null := by
    intro i hi
    exact h.ne_null i (List.mem_reverse.mp hi)

theorem Spells.prev_eq {as bs : List Nat} {i : Nat} (h : Spells null l (as ++ i :: bs))
    : l.prev i = as.getLastD null := by
  have := stretch_append.mp h.linked
  exact this.2.1

theorem Spells.next_eq {as bs : List Nat} {i : Nat} (h : Spells null l (as ++ i :: bs))
    : l.next i = bs.headD null := by
  have := stretch_append.mp h.linked
  exact this.2.2.1

theorem Spells.prev_eq_null_iff {as bs : List Nat} {i : Nat} (h : Spells null l (as ++ i :: bs))
    : l.prev i = null ↔ as = [] := by
  rw [h.prev_eq]
  cases as using List.reverseRecOn with
  | nil => simp
  | append_singleton as a =>
    have : a ≠ null := h.ne_null a (by simp)
    simp [this]

theorem Spells.next_eq_null_iff {as bs : List Nat} {i : Nat} (h : Spells null l (as ++ i :: bs))
    : l.next i = null ↔ bs = [] := by
  rw [h.next_eq]
  cases bs with
  | nil => simp
  | cons b bs =>
    have : b ≠ null := h.ne_null b (by simp)
    simp [this]

theorem Spells.unlink_before {as bs : List Nat} {i : Nat} (h : Spells null l (as ++ i :: bs))
    : Stretch (l.unlink null i).prev (l.unlink null i).next null as (bs.headD null) := by
  have hlinked := (stretch_append.mp h.linked).1
  have hnodup := h.nodup
  have hprev : ∀ j ∈ as, (l.unlink null i).prev j = l.prev j := by
    intro j hj
    simp only [unlink]
    split
    . next hnull =>
      apply Function.update_of_ne
      rw [h.next_eq] at hnull ⊢
      intro heq
      cases bs with
      | nil => exact hnull rfl
      | cons b bs =>
        simp only [List.headD_cons] at heq
        rw [List.nodup_append'] at hnodup
        exact hnodup.2.2 hj (by simp [heq])
    . rfl
  cases as using List.reverseRecOn with
  | nil => trivial
  | append_singleton as a =>
    have ha : l.prev i = a := by
      rw [h.prev_eq]
      simp
    have hnull : l.prev i ≠ null := by
      rw [ha]
      exact h.ne_null a (by simp)
    have hnext : (l.unlink null i).next = Function.update l.next a (bs.headD null) := by
      simp only [unlink]
      rw [if_pos hnull, ha, h.next_eq]
    rw [stretch_append] at hlinked ⊢
    rcases hlinked with ⟨hbefore, hlast, _, _⟩
    constructor
    . apply Stretch.congr hbefore
      . intro j hj
        exact hprev j (by simp [hj])
      . intro j hj
        rw [hnext]
        apply Function.update_of_ne
        intro heq
        have := (List.nodup_append'.mp hnodup).1
        rw [List.nodup_append'] at this
        exact this.2.2 hj (by simp [heq])
    . refine ⟨?_, ?_, trivial⟩
      . rw [hprev a (by simp)]
        exact hlast
      . rw [hnext]
        simp

theorem Spells.unlink_behind {as bs : List Nat} {i : Nat} (h : Spells null l (as ++ i :: bs))
    : Stretch (l.unlink null i).prev (l.unlink null i).next (as.getLastD null) bs null := by
  have hreverse : Spells null l.reverse (bs.reverse ++ i :: as.reverse) := by
    have := h.reverse
    rwa [List.reverse_append, List.reverse_cons, List.append_assoc] at this
  have hbefore := hreverse.unlink_before.reverse
  rw [headD_reverse, List.reverse_reverse] at hbefore
  exact hbefore

theorem Spells.unlink {as bs : List Nat} {i : Nat} (h : Spells null l (as ++ i :: bs))
    : Spells null (l.unlink null i) (as ++ bs) := by
  have hsub : (as ++ bs).Sublist (as ++ i :: bs) := by
    simp
  constructor
  case linked => exact stretch_append.mpr ⟨h.unlink_before, h.unlink_behind⟩
  case head_eq =>
    simp only [Links.unlink]
    split
    . next hnull =>
      rw [ne_eq, h.prev_eq_null_iff] at hnull
      rw [h.head_eq]
      cases as with
      | nil => exact absurd rfl hnull
      | cons a as => rfl
    . next hnull =>
      rw [ne_eq, not_not, h.prev_eq_null_iff] at hnull
      rw [h.next_eq, hnull]
      rfl
  case tail_eq =>
    simp only [Links.unlink]
    split
    . next hnull =>
      rw [ne_eq, h.next_eq_null_iff] at hnull
      rw [h.tail_eq]
      cases bs using List.reverseRecOn with
      | nil => exact absurd rfl hnull
      | append_singleton bs b =>
        have hlast : as ++ i :: (bs ++ [b]) = (as ++ i :: bs) ++ [b] := by simp
        rw [hlast, ← List.append_assoc, List.getLastD_concat, List.getLastD_concat]
    . next hnull =>
      rw [ne_eq, not_not, h.next_eq_null_iff] at hnull
      rw [h.prev_eq, hnull, List.append_nil]
  case nodup => exact h.nodup.sublist hsub
  case ne_null =>
    intro j hj
    exact h.ne_null j (hsub.subset hj)

theorem Spells.linkFront {order : List Nat} (h : Spells null l order) {i : Nat} (hfresh : i ∉ order)
    (hnull : i ≠ null)
    : Spells null (l.linkFront null i) (i :: order) := by
  have hnext {j : Nat} (hj : j ≠ i) : (l.linkFront null i).next j = l.next j := by
    simp only [Links.linkFront]
    exact Function.update_of_ne hj _ _
  constructor
  case linked =>
    refine ⟨?_, ?_, ?_⟩
    . simp only [Links.linkFront]
      split
      . rw [Function.update_of_ne, Function.update_self]
        rw [h.head_eq]
        cases order with
        | nil => exact hnull
        | cons j order =>
          intro heq
          exact hfresh (by simp [heq])
      . rw [Function.update_self]
    . simp only [Links.linkFront]
      rw [Function.update_self]
      exact h.head_eq
    . cases order with
      | nil => trivial
      | cons j order =>
        have hhead : l.head = j := h.head_eq
        have hprev : (l.linkFront null i).prev
            = Function.update (Function.update l.prev i null) j i := by
          simp only [Links.linkFront]
          rw [if_pos (by rw [hhead]; exact h.ne_null j (by simp)), hhead]
        rcases h.linked with ⟨_, hj, hrest⟩
        refine ⟨?_, ?_, ?_⟩
        . rw [hprev, Function.update_self]
        . rw [hnext (by intro heq; exact hfresh (by simp [heq]))]
          exact hj
        . apply Stretch.congr hrest
          . intro k hk
            have hkj : k ≠ j := by
              intro heq
              have := h.nodup
              rw [heq] at hk
              simp [hk] at this
            have hki : k ≠ i := by
              intro heq
              rw [heq] at hk
              exact hfresh (by simp [hk])
            rw [hprev, Function.update_of_ne hkj, Function.update_of_ne hki]
          . intro k hk
            apply hnext
            intro heq
            rw [heq] at hk
            exact hfresh (by simp [hk])
  case head_eq => rfl
  case tail_eq =>
    simp only [Links.linkFront]
    rw [h.tail_eq, h.head_eq]
    cases order with
    | nil => simp
    | cons j order =>
      rw [if_pos (by exact h.ne_null j (by simp))]
      simp
  case nodup => exact List.nodup_cons.mpr ⟨hfresh, h.nodup⟩
  case ne_null =>
    intro j hj
    rw [List.mem_cons] at hj
    cases hj with
    | inl heq =>
      rw [heq]
      exact hnull
    | inr hj => exact h.ne_null j hj

end Links
