import MemStream.Db.Lemmas.Pipeline.Locks
import MemStream.Db.Lemmas.Pipeline.Stranded

/-!
Workers that sleep until resources are released. Between the check that fails and the call of `notified()`
a worker cannot be woken: if the last release falls into this window the worker sleeps although
everything it needs is free. A permit that was left in the queue's notification may make up for it.
-/

namespace MemStream

def WorkerPc.waits : WorkerPc → Bool
  | .refused | .sleeping => true
  | _ => false

def WorkerPc.active (pc : WorkerPc) : Bool :=
  pc.holds || pc = .notifying

namespace PipelineManager

variable {buildKey : String → UInt64 → UInt64} {pm pm' : PipelineManager}

def Lost (pm : PipelineManager) : Prop :=
  ∃ w ∈ pm.workers,
    w.pc = .sleeping
      ∧ (∀ r ∈ w.resources, pm.lm.state.holders r = 0)
      ∧ pm.lm.permit = false
      ∧ pm.dispatcher ≠ .notifying
      ∧ ∀ w' ∈ pm.workers, w'.pc.active = false

def NotifiesAgain (pm : PipelineManager) : Action → Prop
  | .notifyWaiters i => (∃ w ∈ pm.workers, w.pc = .refused) →
      ∃ j w, j ≠ i ∧ pm.workers[j]? = some w ∧ w.pc.active = true
  | _ => True

def Covered (pm : PipelineManager) : Prop :=
  (∃ w ∈ pm.workers, w.pc.waits = true) → ∃ w ∈ pm.workers, w.pc.active = true

theorem covered_new (db : DB) : (new db).Covered := by
  rintro ⟨w, hw, _⟩
  simp [new] at hw

theorem Covered.move (h : pm.Covered) {i : Nat} {w w' : Worker} (hget : pm.workers[i]? = some w)
    (hworkers : pm'.workers = pm.workers.set i w') (hwaits : w'.pc.waits = true → w.pc.waits = true)
    (hactive : w.pc.active = true → w'.pc.active = true)
    : pm'.Covered := by
  rintro ⟨v, hv, hvwaits⟩
  rw [hworkers] at hv ⊢
  have hbefore : ∃ w ∈ pm.workers, w.pc.waits = true := by
    rcases List.mem_or_eq_of_mem_set hv with hmem | rfl
    . exact ⟨v, hmem, hvwaits⟩
    . exact ⟨w, List.mem_of_getElem? hget, hwaits hvwaits⟩
  rcases h hbefore with ⟨a, ha, haactive⟩
  by_cases heq : a = w
  . rw [heq] at haactive
    exact ⟨w', Pool.mem_set_self hget w', hactive haactive⟩
  . exact ⟨a, Pool.mem_set_of_ne hget ha heq w', haactive⟩

theorem Covered.refuse (haccount : pm.Accounted) {i : Nat} {w : Worker}
    (hget : pm.workers[i]? = some w) (hpc : w.pc = .checking)
    (hcan : pm.lm.state.canAcquire w.resources = false)
    : (pm.setWorker i w .refused).Covered := by
  rw [← Bool.not_eq_true, LockState.canAcquire_iff] at hcan
  simp only [not_forall] at hcan
  rcases hcan with ⟨r, _, hr⟩
  rcases haccount.exists_holds (Nat.pos_of_ne_zero hr) with ⟨a, ha, hholds⟩
  intro _
  refine ⟨a, ?_, by simp [WorkerPc.active, hholds]⟩
  apply Pool.mem_set_of_ne hget ha
  rintro rfl
  rw [hpc] at hholds
  contradiction

theorem wake_of_active {w : Worker} (h : w.pc.active = true) : wake w = w := by
  unfold wake
  split
  . next hpc =>
    rw [hpc] at h
    contradiction
  . rfl

theorem refused_of_waits_wake {w : Worker} (h : (wake w).pc.waits = true) : w.pc = .refused := by
  unfold wake at h
  split at h
  . contradiction
  . next hne =>
    cases hpc : w.pc with
    | refused => rfl
    | sleeping => exact absurd hpc hne
    | _ =>
      rw [hpc] at h
      contradiction

theorem Covered.notifyWaiters {i : Nat} (hagain : pm.NotifiesAgain (.notifyWaiters i)) {w : Worker}
    (hworkers : pm'.workers = (pm.setWorker i w .sending).workers.map wake)
    : pm'.Covered := by
  rintro ⟨v, hv, hwaits⟩
  rw [hworkers] at hv ⊢
  rcases List.mem_map.mp hv with ⟨u, hu, rfl⟩
  have hrefused := refused_of_waits_wake hwaits
  have hmem : u ∈ pm.workers := by
    rcases List.mem_or_eq_of_mem_set hu with hmem | rfl
    . exact hmem
    . contradiction
  rcases hagain ⟨u, hmem, hrefused⟩ with ⟨j, a, hne, hget, hactive⟩
  refine ⟨a, ?_, hactive⟩
  rw [← wake_of_active hactive]
  apply List.mem_map_of_mem
  apply List.mem_of_getElem? (i := j)
  unfold setWorker
  rw [List.getElem?_set_ne (Ne.symm hne)]
  exact hget

theorem Covered.step (h : pm.Covered) (haccount : pm.Accounted) {action : Action}
    (hagain : pm.NotifiesAgain action) (hstep : pm.step buildKey action = some pm')
    : pm'.Covered := by
  cases action with
  | submit job =>
    cases submit_eq_some hstep
    exact h
  | recv =>
    rcases recv_eq_some hstep with ⟨job, channel, _, _, rfl⟩
    exact h
  | insert =>
    rcases insert_eq_some hstep with ⟨job, _, rfl⟩
    exact h
  | notifyOne waiter =>
    rcases notifyOne_eq_some hstep with ⟨_, ⟨i, w, hget, hpc, rfl⟩ | rfl⟩
    . apply h.move hget rfl (by simp [WorkerPc.waits])
      rw [hpc]
      simp [WorkerPc.active, WorkerPc.holds]
    . exact h
  | tryRecv =>
    rcases tryRecv_eq_some hstep with ⟨_, ⟨job, channel, _, rfl⟩ | rfl⟩
    . exact h
    . exact h
  | tryPopRunnable =>
    rcases tryPopRunnable_eq_some hstep with ⟨_, ⟨_, rfl⟩ | ⟨front, j, back, _, rfl⟩⟩
    . exact h
    . rintro ⟨v, hv, hwaits⟩
      rcases List.mem_append.mp hv with hmem | hnew
      . rcases h ⟨v, hmem, hwaits⟩ with ⟨a, ha, hactive⟩
        exact ⟨a, List.mem_append_left _ ha, hactive⟩
      . rw [List.mem_singleton.mp hnew] at hwaits
        contradiction
  | check i =>
    rcases check_eq_some hstep with ⟨w, hget, hpc, ⟨_, rfl⟩ | ⟨hcan, rfl⟩⟩
    . intro _
      exact ⟨_, Pool.mem_set_self hget _, rfl⟩
    . exact Covered.refuse haccount hget hpc hcan
  | notified i =>
    rcases notified_eq_some hstep with ⟨w, hget, hpc, rfl | rfl⟩
    . apply h.move hget rfl (by simp [WorkerPc.waits])
      rw [hpc]
      simp [WorkerPc.active, WorkerPc.holds]
    . apply h.move hget rfl
      . rw [hpc]
        simp [WorkerPc.waits]
      . rw [hpc]
        simp [WorkerPc.active, WorkerPc.holds]
  | execute i envs =>
    rcases execute_eq_some hstep with ⟨w, result, pc, db, hget, hpc, rfl | rfl, rfl⟩
    . exact h.move hget rfl (by simp [WorkerPc.waits]) fun _ => rfl
    . exact h.move hget rfl (by simp [WorkerPc.waits]) fun _ => rfl
  | release i =>
    rcases release_eq_some hstep with ⟨w, hget, hpc, rfl⟩
    exact h.move hget rfl (by simp [WorkerPc.waits]) fun _ => rfl
  | notifyWaiters i =>
    rcases notifyWaiters_eq_some hstep with ⟨w, hget, hpc, rfl⟩
    exact Covered.notifyWaiters hagain rfl
  | send i =>
    rcases send_eq_some hstep with ⟨w, answers, hget, hpc, rfl⟩
    apply h.move hget rfl (by simp [WorkerPc.waits])
    rw [hpc]
    simp [WorkerPc.active, WorkerPc.holds]

theorem not_lost_of_notifiesAgain (buildKey : String → UInt64 → UInt64) (db : DB) (actions : List Action)
    (hagain : Trace.Along (step buildKey) NotifiesAgain (new db) actions)
    (hrun : Trace.run (step buildKey) (new db) actions = some pm)
    : ¬pm.Lost := by
  have hstep (s : PipelineManager) (a : Action) (s' : PipelineManager) (hs : s.Covered ∧ s.Accounted)
      (hp : s.NotifiesAgain a) (hstep : s.step buildKey a = some s') : s'.Covered ∧ s'.Accounted :=
    ⟨hs.1.step hs.2 hp hstep, hs.2.step hstep⟩
  have hinv : pm.Covered ∧ pm.Accounted :=
    Trace.inv_of_along hstep ⟨covered_new db, accounted_new db⟩ hagain hrun
  rintro ⟨w, hw, hpc, _, _, _, hidle⟩
  rcases hinv.1 ⟨w, hw, by rw [hpc]; rfl⟩ with ⟨a, ha, hactive⟩
  rw [hidle a ha] at hactive
  contradiction

theorem active_wake (w : Worker) : (wake w).pc.active = w.pc.active := by
  unfold wake
  split
  . next hpc =>
    rw [hpc]
    rfl
  . rfl

theorem lost_of_missed_notification (haccount : pm.Accounted) {i k : Nat} {u w : Worker}
    (hi : pm.workers[i]? = some u) (hu : u.pc = .notifying) (hk : pm.workers[k]? = some w)
    (hw : w.pc = .refused) (hlast : ∀ j v, j ≠ i → pm.workers[j]? = some v → v.pc.active = false)
    (hpermit : pm.lm.permit = false) (hdispatcher : pm.dispatcher ≠ .notifying)
    : ∃ pm', Trace.run (step buildKey) pm [.notifyWaiters i, .notified k] = some pm' ∧ pm'.Lost := by
  have hne : i ≠ k := by
    rintro rfl
    rw [hi, Option.some.injEq] at hk
    rw [hk, hw] at hu
    contradiction
  have hnotify : pm.step buildKey (.notifyWaiters i)
      = some { pm with workers := (pm.setWorker i u .sending).workers.map wake } := by
    simp only [step, notifyWaiters, workerAt, hi, hu, if_true]
  generalize hpm1 : { pm with workers := (pm.setWorker i u .sending).workers.map wake } = pm1 at hnotify
  have hget : pm1.workers[k]? = some w := by
    rw [← hpm1]
    simp only [setWorker, List.getElem?_map, List.getElem?_set_ne hne, hk, Option.map_some, wake, hw]
    rfl
  have hinactive : ∀ v ∈ pm1.workers, v.pc.active = false := by
    rw [← hpm1]
    intro v hv
    rcases List.mem_map.mp hv with ⟨x, hx, rfl⟩
    rw [active_wake]
    rcases List.mem_iff_getElem?.mp hx with ⟨j, hj⟩
    by_cases heq : j = i
    . subst heq
      have ⟨hlt, _⟩ := List.getElem?_eq_some_iff.mp hi
      simp only [setWorker, List.getElem?_set_self hlt, Option.some.injEq] at hj
      rw [← hj]
      rfl
    . simp only [setWorker, List.getElem?_set_ne (Ne.symm heq)] at hj
      exact hlast j x heq hj
  have hsleep : pm1.step buildKey (.notified k) = some (pm1.setWorker k w .sleeping) := by
    have hpermit : pm1.lm.permit = false := by rw [← hpm1]; exact hpermit
    simp only [step, notified, workerAt, hget, hw, if_true, hpermit]
    rfl
  have hinactive' : ∀ v ∈ (pm1.setWorker k w .sleeping).workers, v.pc.active = false := by
    intro v hv
    rcases List.mem_or_eq_of_mem_set hv with hmem | rfl
    . exact hinactive v hmem
    . rfl
  refine ⟨pm1.setWorker k w .sleeping, ?_, ?_⟩
  . simp only [Trace.run, hnotify, hsleep]
  . refine ⟨_, Pool.mem_set_self hget _, rfl, ?_, ?_, ?_, hinactive'⟩
    . -- nobody holds anything, so that nothing is in use
      intro r _
      by_contra hr
      have haccount' := (haccount.step hnotify).step hsleep
      rcases haccount'.exists_holds (Nat.pos_of_ne_zero hr) with ⟨a, ha, hholds⟩
      have hidle := hinactive' a ha
      simp [WorkerPc.active, hholds] at hidle
    . rw [← hpm1]
      exact hpermit
    . rw [← hpm1]
      exact hdispatcher

-- two jobs are spawned before either of them holds the key-value store, and the first one gets it
def race : List Action :=
  [.submit (setJob 0), .submit (setJob 1), .recv, .insert, .notifyOne none, .tryRecv, .insert,
    .notifyOne none, .tryRecv, .tryPopRunnable, .tryRecv, .tryPopRunnable, .tryRecv,
    .tryPopRunnable, .check 0, .check 1, .notified 1, .check 1]

def raced (db : DB) : PipelineManager where
  db := db
  lm := ⟨⟨1, 0, 0⟩, false, []⟩
  channel := []
  dispatcher := .receiving
  workers := [⟨setJob 0, [.kv], .executing, none⟩, ⟨setJob 1, [.kv], .refused, none⟩]
  answers := []

theorem run_race (db : DB) : Trace.run (step buildKey) (new db) race = some (raced db) := by
  rfl

def ended (db : DB) (pc : WorkerPc) : PipelineManager where
  db := db
  lm := LockManager.new
  channel := []
  dispatcher := .receiving
  workers :=
    [⟨setJob 0, [.kv], .finished, some (.ok ())⟩, ⟨setJob 1, [.kv], pc, none⟩]
  answers := [(0, some (.ok ()))]

theorem not_lost_if_notified_in_time
    : ∃ db pm,
        DB.new true none = .ok db
          ∧ Trace.run (step fun _ id => id) (new db) (race ++ .notified 1 :: work 0) = some pm
          ∧ ¬pm.Lost := by
  refine ⟨⟨_, [], none⟩, ended _ .checking, rfl, Trace.run_append.mpr ⟨_, run_race _, rfl⟩, ?_⟩
  refine not_lost_of_notifiesAgain (fun _ id => id) _ (race ++ .notified 1 :: work 0) ?_
    (Trace.run_append.mpr ⟨_, run_race _, rfl⟩)
  refine Trace.along_append (Trace.along_of_mem ?_ _) (run_race _) ?_
  . simp [race, NotifiesAgain]
  . iterate 3 refine Trace.along_cons rfl trivial ?_
    -- the second worker sleeps when the first one notifies it
    refine Trace.along_cons rfl ?_ (Trace.along_cons rfl trivial trivial)
    rintro ⟨w, hw, hpc⟩
    have hpcs : w.pc ∈ [WorkerPc.notifying, .sleeping] := List.mem_map_of_mem (f := Worker.pc) hw
    rw [hpc] at hpcs
    simp at hpcs

theorem lost_if_notified_too_late
    : ∃ db pm,
        DB.new true none = .ok db
          ∧ Trace.run (step fun _ id => id) (new db) (race ++ (work 0 ++ [.notified 1])) = some pm
          ∧ pm.Lost := by
  refine ⟨⟨_, [], none⟩, ended _ .sleeping, rfl, Trace.run_append.mpr ⟨_, run_race _, rfl⟩, ?_⟩
  refine ⟨⟨setJob 1, [.kv], .sleeping, none⟩, by simp [ended], rfl, ?_, rfl, ?_, ?_⟩
  . simp [ended, LockManager.new, LockState.default, LockState.holders]
  . simp [ended]
  . simp [ended, WorkerPc.active, WorkerPc.holds]

end PipelineManager
end MemStream
