import Mathlib.Data.List.Forall2

/-!
Runs of state machines: machines that answer every operation (`Machine`), and systems in which a step
may not be enabled (`Trace`). A run of a machine gives the history of operations with their answers
and the state that is reached. Both come with the rules by which a property of one step is carried to
a whole run: the simulation rule for `Machine`, and for `Trace` the invariant rule, over runs all of
whose steps meet a condition.
-/
namespace Machine

variable {σ τ α ρ : Type}

def run (step : σ → α → ρ × σ) : σ → List α → List (α × ρ) × σ
  | s, [] => ([], s)
  | s, a :: as =>
    let res := step s a
    let rest := run step res.2 as
    ((a, res.1) :: rest.1, rest.2)

@[simp]
theorem run_nil (step : σ → α → ρ × σ) (s : σ) : run step s [] = ([], s) := by
  rfl

theorem run_cons (step : σ → α → ρ × σ) (s : σ) (a : α) (as : List α)
    : run step s (a :: as)
        =
      ((a, (step s a).1) :: (run step (step s a).2 as).1, (run step (step s a).2 as).2) := by
  rfl

theorem run_append (step : σ → α → ρ × σ) (s : σ) (as bs : List α)
    : run step s (as ++ bs)
        =
      ((run step s as).1 ++ (run step (run step s as).2 bs).1,
        (run step (run step s as).2 bs).2) := by
  induction as generalizing s with
  | nil => simp
  | cons a as ih => simp [run_cons, ih]

theorem run_concat (step : σ → α → ρ × σ) (s : σ) (as : List α) (a : α)
    : run step s (as ++ [a])
        =
      ((run step s as).1 ++ [(a, (step (run step s as).2 a).1)],
        (step (run step s as).2 a).2) := by
  rw [run_append]
  simp [run_cons]

theorem run_ops (step : σ → α → ρ × σ) (s : σ) (as : List α) : (run step s as).1.map Prod.fst = as := by
  induction as generalizing s with
  | nil => rfl
  | cons a as ih => rw [run_cons, List.map_cons, ih]

theorem exists_of_mem_run {step : σ → α → ρ × σ} {s : σ} {as : List α} {e : α × ρ}
    (h : e ∈ (run step s as).1)
    : ∃ s', e.2 = (step s' e.1).1 := by
  induction as generalizing s with
  | nil => cases h
  | cons a as ih =>
    rw [run_cons] at h
    rcases List.mem_cons.mp h with rfl | hrest
    . exact ⟨s, rfl⟩
    . exact ih hrest

theorem run_map {β δ : Type} {step : σ → α → ρ × σ} {step' : σ → β → δ × σ} {f : β → α} {g : δ → ρ}
    {as : List β} (h : ∀ s, ∀ a ∈ as, step s (f a) = (g (step' s a).1, (step' s a).2)) (s : σ)
    : run step s (as.map f)
        =
      ((run step' s as).1.map (fun e => (f e.1, g e.2)), (run step' s as).2) := by
  induction as generalizing s with
  | nil => rfl
  | cons a as ih =>
    have hrest := ih fun s b hb => h s b (by simp [hb])
    rw [List.map_cons, run_cons, run_cons, h s a (by simp), hrest, List.map_cons]

theorem run_sim_on {step : σ → α → ρ × σ} {step' : τ → α → ρ × τ} {P : α → Prop} {R : σ → τ → Prop}
    (hstep : ∀ s t a, P a → R s t → (step s a).1 = (step' t a).1 ∧ R (step s a).2 (step' t a).2)
    {s : σ} {t : τ} (hst : R s t) {as : List α} (has : ∀ a ∈ as, P a)
    : (run step s as).1 = (run step' t as).1 ∧ R (run step s as).2 (run step' t as).2 := by
  induction as generalizing s t with
  | nil => exact ⟨rfl, hst⟩
  | cons a as ih =>
    have ⟨hres, hrel⟩ := hstep s t a (has a (by simp)) hst
    have ⟨hhist, hend⟩ := ih hrel (fun b hb => has b (by simp [hb]))
    simp only [run_cons, hres, hhist, true_and]
    exact hend

theorem run_sim {step : σ → α → ρ × σ} {step' : τ → α → ρ × τ} {R : σ → τ → Prop}
    (hstep : ∀ s t a, R s t → (step s a).1 = (step' t a).1 ∧ R (step s a).2 (step' t a).2)
    {s : σ} {t : τ} (hst : R s t) (as : List α)
    : (run step s as).1 = (run step' t as).1 ∧ R (run step s as).2 (run step' t as).2 := by
  apply run_sim_on (P := fun _ => True)
  . intro s t a _ h
    exact hstep s t a h
  . exact hst
  . intro _ _
    trivial

theorem run_forall₂ {δ : Type} {step : σ → α → ρ × σ} {step' : τ → α → δ × τ} {P : α → Prop}
    {R : σ → τ → Prop} {Q : α → ρ → δ → Prop}
    (hstep : ∀ s t a, P a → R s t → Q a (step s a).1 (step' t a).1 ∧ R (step s a).2 (step' t a).2)
    {s : σ} {t : τ} (hst : R s t) {as : List α} (has : ∀ a ∈ as, P a)
    : List.Forall₂ (fun e e' => e.1 = e'.1 ∧ Q e.1 e.2 e'.2) (run step s as).1 (run step' t as).1
        ∧ R (run step s as).2 (run step' t as).2 := by
  induction as generalizing s t with
  | nil => exact ⟨List.Forall₂.nil, hst⟩
  | cons a as ih =>
    have ⟨hres, hrel⟩ := hstep s t a (has a (by simp)) hst
    have ⟨hhist, hend⟩ := ih hrel (fun b hb => has b (by simp [hb]))
    rw [run_cons, run_cons]
    exact ⟨List.Forall₂.cons ⟨rfl, hres⟩ hhist, hend⟩

theorem run_history {step : σ → α → ρ × σ} {P : List α → σ → Prop}
    (hstep : ∀ done s a, P done s → P (done ++ [a]) (step s a).2)
    {s : σ} {done : List α} (hs : P done s) (as : List α)
    : P (done ++ as) (run step s as).2 := by
  induction as generalizing s done with
  | nil =>
    rw [List.append_nil]
    exact hs
  | cons a as ih =>
    rw [run_cons, List.append_cons]
    apply ih
    apply hstep
    exact hs

inductive Runs (step : σ → α → ρ → σ → Prop) : σ → List (α × ρ) → σ → Prop where
  | nil {s : σ} : Runs step s [] s
  | cons {s t u : σ} {a : α} {res : ρ} {history : List (α × ρ)} (hstep : step s a res t)
      (hrest : Runs step t history u) : Runs step s ((a, res) :: history) u

theorem runs_of_sim {ρ' : Type} {step : σ → α → ρ × σ} {spec : τ → α → ρ' → τ → Prop} {f : ρ' → ρ}
    {R : σ → τ → Prop}
    (hstep : ∀ s t a, R s t → ∃ res t', spec t a res t' ∧ f res = (step s a).1 ∧ R (step s a).2 t')
    {s : σ} {t : τ} (hst : R s t) (as : List α)
    : ∃ history t',
        Runs spec t history t'
          ∧ (run step s as).1 = history.map (fun e => (e.1, f e.2))
          ∧ R (run step s as).2 t' := by
  induction as generalizing s t with
  | nil => exact ⟨[], t, Runs.nil, rfl, hst⟩
  | cons a as ih =>
    rcases hstep s t a hst with ⟨res, u, hspec, hres, hrel⟩
    rcases ih hrel with ⟨history, t', hruns, hhist, hend⟩
    refine ⟨(a, res) :: history, t', Runs.cons hspec hruns, ?_, hend⟩
    rw [run_cons, hhist, List.map_cons, hres]

theorem runs_forall₂ {δ : Type} {step : σ → α → ρ × σ} {spec : τ → α → δ → τ → Prop} {P : α → Prop}
    {R : σ → τ → Prop} {Q : α → ρ → δ → Prop}
    (hstep : ∀ s t a, P a → R s t →
      ∃ res t', spec t a res t' ∧ Q a (step s a).1 res ∧ R (step s a).2 t')
    {s : σ} {t : τ} (hst : R s t) {as : List α} (has : ∀ a ∈ as, P a)
    : ∃ history t',
        Runs spec t history t'
          ∧ List.Forall₂ (fun e e' => e.1 = e'.1 ∧ Q e.1 e.2 e'.2) (run step s as).1 history
          ∧ R (run step s as).2 t' := by
  induction as generalizing s t with
  | nil => exact ⟨[], t, Runs.nil, List.Forall₂.nil, hst⟩
  | cons a as ih =>
    rcases hstep s t a (has a (by simp)) hst with ⟨res, u, hspec, hres, hrel⟩
    rcases ih hrel (fun b hb => has b (by simp [hb])) with ⟨history, t', hruns, hhist, hend⟩
    refine ⟨(a, res) :: history, t', Runs.cons hspec hruns, ?_, hend⟩
    rw [run_cons]
    exact List.Forall₂.cons ⟨rfl, hres⟩ hhist

def tryRun (step : σ → α → Option (ρ × σ)) : σ → List α → Option (List (α × ρ) × σ)
  | s, [] => some ([], s)
  | s, a :: as =>
    match step s a with
    | none => none
    | some res => (tryRun step res.2 as).map fun rest => ((a, res.1) :: rest.1, rest.2)

theorem tryRun_sim {step : σ → α → Option (ρ × σ)} {step' : τ → α → ρ × τ} {R : σ → τ → Prop}
    (hstep : ∀ s t a, R s t → ∃ s', step s a = some ((step' t a).1, s') ∧ R s' (step' t a).2)
    {s : σ} {t : τ} (hst : R s t) (as : List α)
    : ∃ s', tryRun step s as = some ((run step' t as).1, s') ∧ R s' (run step' t as).2 := by
  induction as generalizing s t with
  | nil => exact ⟨s, rfl, hst⟩
  | cons a as ih =>
    rcases hstep s t a hst with ⟨s', hs', hrel⟩
    rcases ih hrel with ⟨s'', hrun, hend⟩
    refine ⟨s'', ?_, hend⟩
    simp only [tryRun, hs', hrun, Option.map_some, run_cons]

end Machine

namespace Trace

variable {σ α : Type}

def run (step : σ → α → Option σ) : σ → List α → Option σ
  | s, [] => some s
  | s, a :: as =>
    match step s a with
    | some s' => run step s' as
    | none => none

def Along (step : σ → α → Option σ) (P : σ → α → Prop) : σ → List α → Prop
  | _, [] => True
  | s, a :: as => P s a ∧ ∀ s', step s a = some s' → Along step P s' as

instance decidableAlong (step : σ → α → Option σ) (P : σ → α → Prop) [∀ s a, Decidable (P s a)]
    : ∀ s as, Decidable (Along step P s as)
  | _, [] => isTrue trivial
  | s, a :: as =>
    match h : step s a with
    | some t =>
      have := decidableAlong step P t as
      decidable_of_iff (P s a ∧ Along step P t as) (by simp [Along, h])
    | none => decidable_of_iff (P s a) (by simp [Along, h])

theorem run_cons_eq_some {step : σ → α → Option σ} {s t : σ} {a : α} {as : List α}
    : run step s (a :: as) = some t ↔ ∃ s', step s a = some s' ∧ run step s' as = some t := by
  simp only [run]
  cases step s a <;> simp

theorem run_append {step : σ → α → Option σ} {s t : σ} {as bs : List α}
    : run step s (as ++ bs) = some t ↔ ∃ u, run step s as = some u ∧ run step u bs = some t := by
  induction as generalizing s with
  | nil => simp [run]
  | cons a as ih =>
    simp only [List.cons_append, run_cons_eq_some, ih]
    constructor
    . rintro ⟨s', hs', u, hu, ht⟩
      exact ⟨u, ⟨s', hs', hu⟩, ht⟩
    . rintro ⟨u, ⟨s', hs', hu⟩, ht⟩
      exact ⟨s', hs', u, hu, ht⟩

theorem inv_of_along {step : σ → α → Option σ} {P : σ → α → Prop} {Inv : σ → Prop}
    (hstep : ∀ s a s', Inv s → P s a → step s a = some s' → Inv s')
    {s t : σ} {as : List α} (hs : Inv s) (halong : Along step P s as)
    (hrun : run step s as = some t)
    : Inv t := by
  induction as generalizing s with
  | nil =>
    simp only [run, Option.some.injEq] at hrun
    rw [← hrun]
    exact hs
  | cons a as ih =>
    rcases run_cons_eq_some.mp hrun with ⟨s', hs', hrest⟩
    rcases halong with ⟨hp, halong⟩
    apply ih
    . exact hstep s a s' hs hp hs'
    . exact halong s' hs'
    . exact hrest

theorem along_cons {step : σ → α → Option σ} {P : σ → α → Prop} {s s' : σ} {a : α} {as : List α}
    (hstep : step s a = some s') (hp : P s a) (hrest : Along step P s' as)
    : Along step P s (a :: as) := by
  refine ⟨hp, ?_⟩
  intro t ht
  cases Option.some.inj (hstep.symm.trans ht)
  exact hrest

theorem along_of_append {step : σ → α → Option σ} {P : σ → α → Prop} {s t : σ} {as bs : List α}
    (h : Along step P s (as ++ bs)) (hrun : run step s as = some t)
    : Along step P s as ∧ Along step P t bs := by
  induction as generalizing s with
  | nil =>
    cases Option.some.inj hrun
    exact ⟨trivial, h⟩
  | cons a as ih =>
    rcases run_cons_eq_some.mp hrun with ⟨s', hs', hrest⟩
    have ⟨has, hbs⟩ := ih (h.2 s' hs') hrest
    exact ⟨along_cons hs' h.1 has, hbs⟩

theorem along_and_mem {step : σ → α → Option σ} {P : σ → α → Prop} {Q : α → Prop} {s : σ} {as : List α}
    (h : Along step P s as) (hmem : ∀ a ∈ as, Q a)
    : Along step (fun s a => P s a ∧ Q a) s as := by
  induction as generalizing s with
  | nil => trivial
  | cons a as ih =>
    refine ⟨⟨h.1, hmem a (by simp)⟩, ?_⟩
    intro s' hs'
    exact ih (h.2 s' hs') (fun b hb => hmem b (by simp [hb]))

theorem along_iff_inv {step : σ → α → Option σ} {P : σ → α → Prop} {Inv : σ → Prop}
    (hstep : ∀ s a s', Inv s → step s a = some s' → (P s a ↔ Inv s'))
    {s t : σ} {as : List α} (hs : Inv s) (hrun : run step s as = some t)
    : Along step P s as ↔ ∀ front u, front <+: as → run step s front = some u → Inv u := by
  constructor
  . intro halong front u hpre hfront
    rcases hpre with ⟨back, rfl⟩
    apply inv_of_along (fun s a s' hs hp hstep' => (hstep s a s' hs hstep').mp hp) hs _ hfront
    exact (along_of_append halong hfront).1
  . intro h
    induction as generalizing s with
    | nil => trivial
    | cons a as ih =>
      rcases run_cons_eq_some.mp hrun with ⟨s', hs', hrest⟩
      have hinv : Inv s' := by
        apply h [a] s' (List.prefix_append [a] as)
        exact run_cons_eq_some.mpr ⟨s', hs', rfl⟩
      apply along_cons hs' ((hstep s a s' hs hs').mpr hinv)
      apply ih hinv hrest
      intro front u hpre hfront
      apply h (a :: front) u (List.cons_prefix_cons.mpr ⟨rfl, hpre⟩)
      exact run_cons_eq_some.mpr ⟨s', hs', hfront⟩

theorem along_append {step : σ → α → Option σ} {P : σ → α → Prop} {s t : σ} {as bs : List α}
    (has : Along step P s as) (hrun : run step s as = some t) (hbs : Along step P t bs)
    : Along step P s (as ++ bs) := by
  induction as generalizing s with
  | nil =>
    cases Option.some.inj hrun
    exact hbs
  | cons a as ih =>
    rcases run_cons_eq_some.mp hrun with ⟨s', hs', hrest⟩
    exact along_cons hs' has.1 (ih (has.2 s' hs') hrest)

theorem history_of_along {step : σ → α → Option σ} {P : σ → α → Prop} {H : List α → σ → Prop}
    (hstep : ∀ done s a s', H done s → P s a → step s a = some s' → H (done ++ [a]) s')
    {s t : σ} {done as : List α} (hs : H done s) (halong : Along step P s as)
    (hrun : run step s as = some t)
    : H (done ++ as) t := by
  induction as generalizing s done with
  | nil =>
    cases Option.some.inj hrun
    rw [List.append_nil]
    exact hs
  | cons a as ih =>
    rcases run_cons_eq_some.mp hrun with ⟨s', hs', hrest⟩
    rw [List.append_cons]
    apply ih _ (halong.2 s' hs') hrest
    exact hstep done s a s' hs halong.1 hs'

theorem along_of_mem {step : σ → α → Option σ} {P : σ → α → Prop} {as : List α}
    (h : ∀ a ∈ as, ∀ s, P s a) (s : σ)
    : Along step P s as := by
  induction as generalizing s with
  | nil => trivial
  | cons a as ih =>
    refine ⟨h a (by simp) s, ?_⟩
    intro s' _
    exact ih (fun b hb => h b (by simp [hb])) s'

def emitted {β : Type} (step : σ → α → Option σ) (emit : σ → α → List β) : σ → List α → List β
  | _, [] => []
  | s, a :: as =>
    match step s a with
    | some s' => emit s a ++ emitted step emit s' as
    | none => []

theorem emitted_cons {β : Type} {step : σ → α → Option σ} (emit : σ → α → List β) {s s' : σ} {a : α}
    (hstep : step s a = some s') (as : List α)
    : emitted step emit s (a :: as) = emit s a ++ emitted step emit s' as := by
  rw [emitted, hstep]

theorem emitted_append {β : Type} {step : σ → α → Option σ} (emit : σ → α → List β) {s t : σ}
    {as : List α} (hrun : run step s as = some t) (bs : List α)
    : emitted step emit s (as ++ bs) = emitted step emit s as ++ emitted step emit t bs := by
  induction as generalizing s with
  | nil =>
    cases hrun
    rfl
  | cons a as ih =>
    rcases run_cons_eq_some.mp hrun with ⟨s', hs', hrest⟩
    rw [List.cons_append, emitted_cons emit hs', emitted_cons emit hs', ih hrest, List.append_assoc]

theorem mem_emitted {β : Type} {step : σ → α → Option σ} {emit : σ → α → List β} {s : σ} {as : List α}
    {b : β} (h : b ∈ emitted step emit s as)
    : ∃ a ∈ as, ∃ t, b ∈ emit t a := by
  induction as generalizing s with
  | nil => cases h
  | cons a as ih =>
    rw [emitted] at h
    split at h
    . rcases List.mem_append.mp h with hfirst | hrest
      . exact ⟨a, List.mem_cons_self .., s, hfirst⟩
      . rcases ih hrest with ⟨a', hmem, t, ht⟩
        exact ⟨a', List.mem_cons_of_mem a hmem, t, ht⟩
    . cases h

theorem inv_emitted {β : Type} {step : σ → α → Option σ} {emit : σ → α → List β} {Inv : List β → σ → Prop}
    (hstep : ∀ done s a s', Inv done s → step s a = some s' → Inv (done ++ emit s a) s')
    {s t : σ} {done : List β} {as : List α} (hs : Inv done s) (hrun : run step s as = some t)
    : Inv (done ++ emitted step emit s as) t := by
  induction as generalizing s done with
  | nil =>
    cases hrun
    unfold emitted
    rw [List.append_nil]
    exact hs
  | cons a as ih =>
    rcases run_cons_eq_some.mp hrun with ⟨s', hs', hrest⟩
    rw [emitted_cons emit hs', ← List.append_assoc]
    exact ih (hstep done s a s' hs hs') hrest

theorem inv_of_run {step : σ → α → Option σ} {Inv : σ → Prop}
    (hstep : ∀ s a s', Inv s → step s a = some s' → Inv s')
    {s t : σ} {as : List α} (hs : Inv s) (hrun : run step s as = some t)
    : Inv t := by
  apply inv_of_along (P := fun _ _ => True) _ hs (along_of_mem (fun _ _ _ => trivial) s) hrun
  intro s a s' hs _ hs'
  exact hstep s a s' hs hs'

end Trace
