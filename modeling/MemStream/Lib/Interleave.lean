import MemStream.Lib.Machine
import Mathlib.Data.List.Basic
import Mathlib.Logic.Function.Basic

/-!
Systems whose state has parts that the steps use one at a time. What a run does to a part is what the steps
of this part do to it, so that two runs whose steps come in the same order for each of the parts reach
states that are the same part by part, however the steps of different parts are interleaved.
-/

namespace Trace

variable {σ α κ : Type}

structure Separated (step : σ → α → Option σ) (part : α → κ) (Agree : κ → σ → σ → Prop) : Prop where
  equiv : ∀ k, Equivalence (Agree k)
  frame : ∀ {s s' : σ} {a : α} {k : κ}, step s a = some s' → part a ≠ k → Agree k s s'
  congr : ∀ {s t s' : σ} {a : α}, Agree (part a) s t → step s a = some s' →
    ∃ t', step t a = some t' ∧ Agree (part a) s' t'

variable [DecidableEq κ]

def ofPart (part : α → κ) (k : κ) (as : List α) : List α :=
  as.filter fun a => part a = k

theorem ofPart_cons_self {part : α → κ} (a : α) (as : List α)
    : ofPart part (part a) (a :: as) = a :: ofPart part (part a) as := by
  simp [ofPart]

theorem ofPart_cons_of_ne {part : α → κ} {a : α} {k : κ} (h : part a ≠ k) (as : List α)
    : ofPart part k (a :: as) = ofPart part k as := by
  simp [ofPart, h]

namespace Separated

variable {step : σ → α → Option σ} {part : α → κ} {Agree : κ → σ → σ → Prop}

theorem run_ofPart_congr (h : Separated step part Agree) {k : κ} {s t s' : σ} (hagree : Agree k s t)
    {as : List α} (hrun : run step s (ofPart part k as) = some s')
    : ∃ t', run step t (ofPart part k as) = some t' ∧ Agree k s' t' := by
  induction as generalizing s t with
  | nil =>
    cases Option.some.inj hrun
    exact ⟨t, rfl, hagree⟩
  | cons a as ih =>
    by_cases hpart : part a = k
    . subst hpart
      rw [ofPart_cons_self] at hrun ⊢
      rcases run_cons_eq_some.mp hrun with ⟨u, hu, hrest⟩
      rcases h.congr hagree hu with ⟨u', hu', hagree'⟩
      rcases ih hagree' hrest with ⟨t', ht', hend⟩
      exact ⟨t', run_cons_eq_some.mpr ⟨u', hu', ht'⟩, hend⟩
    . rw [ofPart_cons_of_ne hpart] at hrun ⊢
      exact ih hagree hrun

theorem run_ofPart (h : Separated step part Agree) (k : κ) {s t : σ} {as : List α}
    (hrun : run step s as = some t)
    : ∃ t', run step s (ofPart part k as) = some t' ∧ Agree k t t' := by
  induction as generalizing s with
  | nil => exact ⟨t, hrun, (h.equiv k).refl t⟩
  | cons a as ih =>
    rcases run_cons_eq_some.mp hrun with ⟨u, hu, hrest⟩
    rcases ih hrest with ⟨u', hu', hagree⟩
    by_cases hpart : part a = k
    . subst hpart
      rw [ofPart_cons_self]
      exact ⟨u', run_cons_eq_some.mpr ⟨u, hu, hu'⟩, hagree⟩
    . rw [ofPart_cons_of_ne hpart]
      have hframe := (h.equiv k).symm (h.frame hu hpart)
      rcases h.run_ofPart_congr hframe hu' with ⟨t', ht', hagree'⟩
      exact ⟨t', ht', (h.equiv k).trans hagree hagree'⟩

theorem exists_run (h : Separated step part Agree) {s : σ} {as : List α}
    (hparts : ∀ k, ∃ t, run step s (ofPart part k as) = some t)
    : ∃ t, run step s as = some t := by
  induction as generalizing s with
  | nil => exact ⟨s, rfl⟩
  | cons a as ih =>
    rcases hparts (part a) with ⟨t, ht⟩
    rw [ofPart_cons_self] at ht
    rcases run_cons_eq_some.mp ht with ⟨s', hs', hrest⟩
    have hparts' (k : κ) : ∃ t, run step s' (ofPart part k as) = some t := by
      by_cases hpart : part a = k
      . subst hpart
        exact ⟨t, hrest⟩
      . rcases hparts k with ⟨u, hu⟩
        rw [ofPart_cons_of_ne hpart] at hu
        rcases h.run_ofPart_congr (h.frame hs' hpart) hu with ⟨u', hu', _⟩
        exact ⟨u', hu'⟩
    rcases ih hparts' with ⟨u, hu⟩
    exact ⟨u, run_cons_eq_some.mpr ⟨s', hs', hu⟩⟩

theorem run_of_ofPart_eq (h : Separated step part Agree) {s t : σ} {as bs : List α}
    (hparts : ∀ k, ofPart part k as = ofPart part k bs) (hrun : run step s as = some t)
    : ∃ t', run step s bs = some t' ∧ ∀ k, Agree k t t' := by
  have hbs (k : κ) : ∃ u, run step s (ofPart part k bs) = some u ∧ Agree k t u := by
    rw [← hparts k]
    exact h.run_ofPart k hrun
  have hexists : ∃ t', run step s bs = some t' := by
    apply h.exists_run
    intro k
    rcases hbs k with ⟨u, hu, _⟩
    exact ⟨u, hu⟩
  rcases hexists with ⟨t', ht'⟩
  refine ⟨t', ht', ?_⟩
  intro k
  rcases hbs k with ⟨u, hu, hagree⟩
  rcases h.run_ofPart k ht' with ⟨u', hu', hagree'⟩
  cases Option.some.inj (hu.symm.trans hu')
  exact (h.equiv k).trans hagree ((h.equiv k).symm hagree')

end Separated
end Trace

/-
Lists whose items belong to parts. Where the items of each part come from a list of its own, in its order, there
is for each item what it comes from.
-/
theorem List.exists_of_parts {ω α β κ : Type} [DecidableEq κ] {part : ω → κ} {key : ω → β} {f : α → β}
    {order : List ω} {parts : κ → List α}
    (h : ∀ k, ((order.filter fun e => part e == k).map key) <+: (parts k).map f)
    : ∃ items : List (ω × α),
        items.map Prod.fst = order
          ∧ (∀ e ∈ items, key e.1 = f e.2)
          ∧ ∀ k, ((items.filter fun e => part e.1 == k).map Prod.snd) <+: parts k := by
  induction order generalizing parts with
  | nil => exact ⟨[], rfl, by simp, fun k => List.nil_prefix⟩
  | cons e order ih =>
    have hown := h (part e)
    rw [List.filter_cons_of_pos (by simp), List.map_cons] at hown
    cases hparts : parts (part e) with
    | nil =>
      rw [hparts, List.map_nil] at hown
      exact absurd (List.prefix_nil.mp hown) (by simp)
    | cons a rest =>
      rw [hparts, List.map_cons, List.cons_prefix_cons] at hown
      have hrest : ∀ k, ((order.filter fun e => part e == k).map key)
          <+: ((Function.update parts (part e) rest) k).map f := by
        intro k
        by_cases hk : k = part e
        . rw [hk, Function.update_self]
          exact hown.2
        . have hother := h k
          rw [List.filter_cons_of_neg (by simpa using Ne.symm hk)] at hother
          rw [Function.update_of_ne hk]
          exact hother
      rcases ih hrest with ⟨items, horder, hkey, hfirst⟩
      refine ⟨(e, a) :: items, by rw [List.map_cons, horder], ?_, ?_⟩
      . intro item hitem
        rcases List.mem_cons.mp hitem with rfl | hmem
        . exact hown.1
        . exact hkey item hmem
      . intro k
        have hk := hfirst k
        by_cases heq : k = part e
        . rw [heq, Function.update_self] at hk
          rw [heq, List.filter_cons_of_pos (by simp), List.map_cons, hparts, List.cons_prefix_cons]
          exact ⟨rfl, hk⟩
        . rw [Function.update_of_ne heq] at hk
          rw [List.filter_cons_of_neg (by simpa using Ne.symm heq)]
          exact hk
