import MemStream.Server.Lemmas.Main.Steps

namespace MemStream
namespace Process

variable {buildKey : String → UInt64 → UInt64} {s s' : Process}

def Idle (s : Process) : Prop :=
  s.holder = some .eventLoop ∧ s.core.pc = .receiving ∧ s.core.rx = []

def Blocked (s : Process) : Prop :=
  s.Idle ∧ ∃ caller ∈ s.waiting, caller ≠ .eventLoop

/--
The lock is not asked for while the event loop is idle, and the event loop does not get it with an empty
channel and others behind it.
-/
def Ready (s : Process) : Action → Prop
  | .ask .eventLoop => True
  | .ask _ => ¬s.Idle
  | .lock .eventLoop => s.core.rx = [] → ∀ caller ∈ s.waiting, caller = .eventLoop
  | _ => True

theorem not_blocked_mono (h : ¬s.Blocked) (hidle : s'.Idle → s.Idle)
    (hwaiting : ∀ caller ∈ s'.waiting, caller ≠ .eventLoop → caller ∈ s.waiting)
    : ¬s'.Blocked := by
  rintro ⟨hidle', caller, hmem, hne⟩
  apply h
  exact ⟨hidle hidle', caller, hwaiting caller hmem hne, hne⟩

theorem not_blocked_of_holder (hholder : s.holder ≠ some .eventLoop) : ¬s.Blocked := by
  intro hblocked
  apply hholder hblocked.1.1

theorem ask_ready_iff {caller : Caller} (h : ¬s.Blocked) (hstep : s.ask caller = some s')
    : s.Ready (.ask caller) ↔ ¬s'.Blocked := by
  rcases ask_eq_some hstep with ⟨task, main, rfl, _⟩
  by_cases heq : caller = .eventLoop
  . subst heq
    simp only [Ready, true_iff]
    apply not_blocked_mono h
    . exact id
    . intro caller hmem hne
      simpa [hne] using hmem
  . have hready : s.Ready (.ask caller) ↔ ¬s.Idle := by
      cases caller with
      | eventLoop => contradiction
      | _ => rfl
    rw [hready, not_iff_not]
    constructor
    . intro hidle
      exact ⟨hidle, caller, by simp, heq⟩
    . intro hblocked
      exact hblocked.1

theorem lock_ready_iff {caller : Caller} (hstep : s.lock caller = some s')
    : s.Ready (.lock caller) ↔ ¬s'.Blocked := by
  rcases lock_eq_some hstep with ⟨waiting, core, _, hwaiting, henter, rfl⟩
  by_cases heq : caller = .eventLoop
  . subst heq
    rcases Leader.start_eq_some henter with ⟨_, rfl⟩
    simp only [Ready, Blocked, Idle, hwaiting, true_and, List.mem_cons, forall_eq_or_imp]
    simp
  . have hready : s.Ready (.lock caller) ↔ True := by
      cases caller with
      | eventLoop => contradiction
      | _ => rfl
    rw [hready, true_iff]
    apply not_blocked_of_holder
    simpa using heq

theorem effect_not_blocked {a : Action} (h : ¬s.Blocked) (hask : ∀ caller, a ≠ .ask caller)
    (hlock : ∀ caller, a ≠ .lock caller) (heffect : Effect s a s')
    : ¬s'.Blocked := by
  cases heffect with
  | inside _ core _ hwait =>
    apply not_blocked_mono h
    . intro hidle
      exact ⟨hidle.1, hwait hidle.2⟩
    . intro caller hmem _
      assumption
  | ask caller => exact absurd rfl (hask caller)
  | lock caller => exact absurd rfl (hlock caller)
  | connect ok _ => assumption
  | bind ok _ => assumption
  | finished | answered | acked | heartbeatFollowers | answer =>
    apply not_blocked_of_holder
    simp

theorem step_ready_iff {a : Action} (h : ¬s.Blocked) (hstep : s.step buildKey a = some s')
    : s.Ready a ↔ ¬s'.Blocked := by
  have hact := (step_eq_some hstep).2
  cases a with
  | ask caller => exact ask_ready_iff h hact
  | lock caller => exact lock_ready_iff hact
  | _ =>
    simp only [Ready, true_iff]
    apply effect_not_blocked h _ _ (effect_of_step hstep)
    . simp
    . simp

theorem not_blocked_iff {conf : ReplicaConf} {db : DB} {old : List AofEntry} {t : Process}
    {actions : List Action} (hnew : new conf db old = some s)
    (hrun : Trace.run (step buildKey) s actions = some t)
    : (∀ front u, front <+: actions → Trace.run (step buildKey) s front = some u → ¬u.Blocked)
        ↔
      Trace.Along (step buildKey) Ready s actions := by
  have hinit : ¬s.Blocked := by
    rcases new_eq_some hnew with ⟨task, main, _, _, _, rfl⟩
    apply not_blocked_of_holder
    simp
  have hkeep (s : Process) (a : Action) (s' : Process) (h : ¬s.Blocked)
      (hstep : s.step buildKey a = some s')
      : s.Ready a ↔ ¬s'.Blocked :=
    step_ready_iff h hstep
  exact (Trace.along_iff_inv hkeep hinit hrun).symm

-- An event is in the channel before the event loop gets the lock.
def eventFirst : List Action :=
  leaderServes
    ++ [.call (.kvSet "d" "k" [1] 0) Env.steady, .ask .eventLoop, .lock .eventLoop, .ask (.heartbeat 0)]

theorem not_blocked_event_first
    : ∃ t,
        new (leaderConf 2) blankDb [] = some (leaderProcess 2)
          ∧ Trace.run (step fun _ id => id) (leaderProcess 2) eventFirst = some t
          ∧ ∀ front u,
              front <+: eventFirst
                → Trace.run (step fun _ id => id) (leaderProcess 2) front = some u
                → ¬u.Blocked := by
  refine ⟨_, new_leaderConf 2, rfl, ?_⟩
  refine (not_blocked_iff (new_leaderConf 2) rfl).mpr ?_
  have hout {s : Process} (hholder : s.holder = none) : ¬s.Idle := by
    intro hidle
    rw [hidle.1] at hholder
    contradiction
  apply Trace.along_cons rfl (hout rfl)
  apply Trace.along_cons rfl trivial
  apply Trace.along_cons rfl trivial
  apply Trace.along_cons rfl trivial
  apply Trace.along_cons rfl trivial
  apply Trace.along_cons rfl trivial
  refine Trace.along_cons rfl ?_ ?_
  . intro hrx
    contradiction
  . refine Trace.along_cons rfl ?_ trivial
    intro hidle
    have hrx := hidle.2.2
    contradiction

-- The event loop is there before `main`, which has to wait for it before it can serve a first event.
theorem main_blocked
    : ∃ t,
        new (leaderConf 2) blankDb [] = some (leaderProcess 2)
          ∧ Trace.run (step fun _ id => id) (leaderProcess 2)
              [.ask .eventLoop, .lock .eventLoop, .ask .main]
              = some t
          ∧ t.Blocked := by
  refine ⟨_, new_leaderConf 2, rfl, ⟨rfl, rfl, rfl⟩, .main, ?_, ?_⟩
  . decide
  . decide

end Process
end MemStream
