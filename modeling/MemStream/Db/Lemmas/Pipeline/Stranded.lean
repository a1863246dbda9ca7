import MemStream.Db.Lemmas.Pipeline.Steps
import MemStream.Db.Lemmas.Db.Run

/-!
Jobs in the queue. The dispatcher looks at the queue after a submission only, so that a job that was
blocked then is left behind if the resources it waits for are given back later.
-/

namespace MemStream
namespace PipelineManager

variable (buildKey : String → UInt64 → UInt64)

def Unattended (pm : PipelineManager) : Prop :=
  pm.dispatcher = .receiving ∧ pm.channel = [] ∧ pm.lm.queue ≠ []

/-- Whoever releases resources leaves others in use if there is nobody to look at the queue. -/
def KeepsSomeHeld (pm : PipelineManager) : Action → Prop
  | .release i => ∀ w, pm.workers[i]? = some w → pm.Unattended →
      ∃ r, 0 < (pm.lm.state.release w.resources).holders r
  | _ => True

structure Quiescent (pm : PipelineManager) : Prop where
  free : ∀ r, pm.lm.state.holders r = 0
  ended : ∀ w ∈ pm.workers, w.pc = .finished ∨ w.pc = .panicked
  dispatcher : pm.dispatcher = .receiving
  channel : pm.channel = []

def Blocked (pm : PipelineManager) : Prop :=
  pm.Unattended → ∃ r, 0 < pm.lm.state.holders r

def Action.submitted : Action → Option PipelineJob
  | .submit job => some job
  | _ => none

def DispatcherPc.jobs : DispatcherPc → List PipelineJob
  | .enqueuing job => [job]
  | _ => []

def jobs (pm : PipelineManager) : List PipelineJob :=
  pm.channel ++ DispatcherPc.jobs pm.dispatcher ++ pm.lm.queue.map QueuedJob.job
    ++ pm.workers.map Worker.job

variable {buildKey} {pm pm' : PipelineManager}

theorem not_unattended_of_dispatcher (h : pm.dispatcher ≠ .receiving) : pm.Blocked := by
  intro hun
  exact absurd hun.1 h

theorem Blocked.frame (h : pm.Blocked) (hdispatcher : pm'.dispatcher = pm.dispatcher)
    (hchannel : pm'.channel = pm.channel) (hqueue : pm'.lm.queue = pm.lm.queue)
    (hheld : ∀ r, pm.lm.state.holders r ≤ pm'.lm.state.holders r)
    : pm'.Blocked := by
  intro hun
  unfold Unattended at hun
  rw [hdispatcher, hchannel, hqueue] at hun
  rcases h hun with ⟨r, hr⟩
  exact ⟨r, Nat.lt_of_lt_of_le hr (hheld r)⟩

theorem Blocked.step (h : pm.Blocked) {action : Action} (hkeeps : pm.KeepsSomeHeld action)
    (hstep : pm.step buildKey action = some pm')
    : pm'.Blocked := by
  cases action with
  | submit job =>
    cases submit_eq_some hstep
    intro hun
    have := hun.2.1
    simp at this
  | recv =>
    rcases recv_eq_some hstep with ⟨job, channel, _, _, rfl⟩
    exact not_unattended_of_dispatcher (by simp)
  | insert =>
    rcases insert_eq_some hstep with ⟨job, _, rfl⟩
    exact not_unattended_of_dispatcher (by simp)
  | notifyOne waiter =>
    rcases notifyOne_eq_some hstep with ⟨_, ⟨i, w, _, _, rfl⟩ | rfl⟩
    . exact not_unattended_of_dispatcher (by simp)
    . exact not_unattended_of_dispatcher (by simp)
  | tryRecv =>
    rcases tryRecv_eq_some hstep with ⟨_, ⟨job, channel, _, rfl⟩ | rfl⟩
    . exact not_unattended_of_dispatcher (by simp)
    . exact not_unattended_of_dispatcher (by simp)
  | tryPopRunnable =>
    rcases tryPopRunnable_eq_some hstep with ⟨_, ⟨hblocked, rfl⟩ | ⟨front, j, back, _, rfl⟩⟩
    . -- a job that cannot run waits for something that is in use
      rintro ⟨_, _, hqueue⟩
      rcases List.exists_mem_of_ne_nil _ hqueue with ⟨j, hj⟩
      have hj := hblocked j hj
      rw [← Bool.not_eq_true, LockState.canAcquire_iff] at hj
      simp only [not_forall] at hj
      rcases hj with ⟨r, _, hr⟩
      exact ⟨r, Nat.pos_of_ne_zero hr⟩
    . exact not_unattended_of_dispatcher (by simp)
  | check i =>
    rcases check_eq_some hstep with ⟨w, _, _, ⟨_, rfl⟩ | ⟨_, rfl⟩⟩
    . refine Blocked.frame h ?_ ?_ ?_ ?_
      . rfl
      . rfl
      . rfl
      . intro r
        show _ ≤ (pm.lm.state.acquire w.resources).holders r
        rw [LockState.holders_acquire]
        omega
    . exact h.frame rfl rfl rfl fun _ => Nat.le_refl _
  | notified i =>
    rcases notified_eq_some hstep with ⟨w, _, _, rfl | rfl⟩
    . exact h.frame rfl rfl rfl fun _ => Nat.le_refl _
    . exact h.frame rfl rfl rfl fun _ => Nat.le_refl _
  | execute i envs =>
    rcases execute_eq_some hstep with ⟨w, result, pc, db, _, _, _, rfl⟩
    exact h.frame rfl rfl rfl fun _ => Nat.le_refl _
  | release i =>
    rcases release_eq_some hstep with ⟨w, hget, _, rfl⟩
    exact hkeeps w hget
  | notifyWaiters i =>
    rcases notifyWaiters_eq_some hstep with ⟨w, _, _, rfl⟩
    exact h.frame rfl rfl rfl fun _ => Nat.le_refl _
  | send i =>
    rcases send_eq_some hstep with ⟨w, answers, _, _, rfl⟩
    exact h.frame rfl rfl rfl fun _ => Nat.le_refl _

theorem map_job_setWorker {i : Nat} {w : Worker} (hget : pm.workers[i]? = some w) (pc : WorkerPc)
    (result : Option (Except PipelineError Unit))
    : (pm.setWorker i { w with result := result } pc).workers.map Worker.job
        =
      pm.workers.map Worker.job := by
  exact Pool.map_set_of_eq hget rfl

theorem map_job_wake (workers : List Worker)
    : (workers.map wake).map Worker.job = workers.map Worker.job := by
  rw [List.map_map]
  apply List.map_congr_left
  intro w _
  show (wake w).job = w.job
  unfold wake
  split
  . rfl
  . rfl

theorem jobs_eq_of_frame (hchannel : pm'.channel = pm.channel)
    (hdispatcher : DispatcherPc.jobs pm'.dispatcher = DispatcherPc.jobs pm.dispatcher)
    (hqueue : pm'.lm.queue = pm.lm.queue)
    (hworkers : pm'.workers.map Worker.job = pm.workers.map Worker.job)
    : pm'.jobs = pm.jobs := by
  unfold jobs
  rw [hchannel, hdispatcher, hqueue, hworkers]

theorem jobs_setWorker {i : Nat} {w : Worker} (hget : pm.workers[i]? = some w) {pc : WorkerPc}
    {result : Option (Except PipelineError Unit)}
    (hchannel : pm'.channel = pm.channel)
    (hdispatcher : DispatcherPc.jobs pm'.dispatcher = DispatcherPc.jobs pm.dispatcher)
    (hqueue : pm'.lm.queue = pm.lm.queue)
    (hworkers : pm'.workers = (pm.setWorker i { w with result := result } pc).workers)
    : pm'.jobs = pm.jobs := by
  apply jobs_eq_of_frame hchannel hdispatcher hqueue
  rw [hworkers]
  exact map_job_setWorker hget pc result

theorem jobs_received {job : PipelineJob} {channel : List PipelineJob}
    (hchannel : pm.channel = job :: channel) (hidle : DispatcherPc.jobs pm.dispatcher = [])
    : (jobs { pm with channel := channel, dispatcher := .enqueuing job }).Perm pm.jobs := by
  unfold jobs
  rw [hchannel, hidle]
  simp only [DispatcherPc.jobs, List.append_nil]
  apply List.Perm.append_right
  apply List.Perm.append_right
  exact List.perm_append_singleton job channel

theorem jobs_step {action : Action} (hstep : pm.step buildKey action = some pm')
    : pm'.jobs.Perm (pm.jobs ++ action.submitted.toList) := by
  have hkept (hsubmitted : action.submitted = none) (h : pm'.jobs = pm.jobs)
      : pm'.jobs.Perm (pm.jobs ++ action.submitted.toList) := by
    rw [h, hsubmitted, Option.toList_none, List.append_nil]
  cases action with
  | submit job =>
    cases submit_eq_some hstep
    rw [List.perm_iff_count]
    intro job'
    simp only [jobs, Action.submitted, List.count_append, Option.toList_some]
    omega
  | recv =>
    rcases recv_eq_some hstep with ⟨job, channel, hchannel, hdispatcher, rfl⟩
    rw [show Action.submitted _ = none by rfl, Option.toList_none, List.append_nil]
    exact jobs_received hchannel (by rw [hdispatcher]; rfl)
  | insert =>
    rcases insert_eq_some hstep with ⟨job, hdispatcher, rfl⟩
    rcases pm.lm.insert_eq job with ⟨front, back, hqueue, hinsert⟩
    rw [List.perm_iff_count]
    intro job'
    simp only [jobs, DispatcherPc.jobs, hdispatcher, hinsert, hqueue, LockManager.queued,
      Action.submitted, List.map_append, List.map_cons, List.count_append, List.count_cons,
      Option.toList_none, List.count_nil]
    omega
  | notifyOne waiter =>
    rcases notifyOne_eq_some hstep with ⟨hdispatcher, ⟨i, w, hget, _, rfl⟩ | rfl⟩
    . exact hkept rfl (jobs_setWorker hget rfl (by rw [hdispatcher]; rfl) rfl rfl)
    . exact hkept rfl (jobs_eq_of_frame rfl (by rw [hdispatcher]; rfl) rfl rfl)
  | tryRecv =>
    rcases tryRecv_eq_some hstep with ⟨hdispatcher, ⟨job, channel, hchannel, rfl⟩ | rfl⟩
    . rw [show Action.submitted _ = none by rfl, Option.toList_none, List.append_nil]
      exact jobs_received hchannel (by rw [hdispatcher]; rfl)
    . exact hkept rfl (jobs_eq_of_frame rfl (by rw [hdispatcher]; rfl) rfl rfl)
  | tryPopRunnable =>
    rcases tryPopRunnable_eq_some hstep
      with ⟨hdispatcher, ⟨_, rfl⟩ | ⟨front, j, back, hqueue, rfl⟩⟩
    . exact hkept rfl (jobs_eq_of_frame rfl (by rw [hdispatcher]; rfl) rfl rfl)
    . rw [List.perm_iff_count]
      intro job
      simp only [jobs, DispatcherPc.jobs, hdispatcher, hqueue, Action.submitted, List.map_append,
        List.map_cons, List.map_nil, List.count_append, List.count_cons, Option.toList_none,
        List.count_nil]
      omega
  | check i =>
    rcases check_eq_some hstep with ⟨w, hget, _, ⟨_, rfl⟩ | ⟨_, rfl⟩⟩
    . exact hkept rfl (jobs_setWorker hget rfl rfl rfl rfl)
    . exact hkept rfl (jobs_setWorker hget rfl rfl rfl rfl)
  | notified i =>
    rcases notified_eq_some hstep with ⟨w, hget, _, rfl | rfl⟩
    . exact hkept rfl (jobs_setWorker hget rfl rfl rfl rfl)
    . exact hkept rfl (jobs_setWorker hget rfl rfl rfl rfl)
  | execute i envs =>
    rcases execute_eq_some hstep with ⟨w, result, pc, db, hget, _, _, rfl⟩
    exact hkept rfl (jobs_setWorker hget rfl rfl rfl rfl)
  | release i =>
    rcases release_eq_some hstep with ⟨w, hget, _, rfl⟩
    exact hkept rfl (jobs_setWorker hget rfl rfl rfl rfl)
  | notifyWaiters i =>
    rcases notifyWaiters_eq_some hstep with ⟨w, hget, _, rfl⟩
    refine hkept rfl (jobs_eq_of_frame rfl rfl rfl ?_)
    rw [map_job_wake]
    exact map_job_setWorker hget .sending w.result
  | send i =>
    rcases send_eq_some hstep with ⟨w, answers, hget, _, rfl⟩
    exact hkept rfl (jobs_setWorker hget rfl rfl rfl rfl)

theorem jobs_run {actions : List Action} (hrun : Trace.run (step buildKey) pm actions = some pm')
    : pm'.jobs.Perm (pm.jobs ++ actions.filterMap Action.submitted) := by
  induction actions generalizing pm with
  | nil =>
    cases hrun
    simp
  | cons action actions ih =>
    rcases Trace.run_cons_eq_some.mp hrun with ⟨pm1, hstep, hrest⟩
    have hfirst := jobs_step hstep
    have hrest := ih hrest
    rw [List.filterMap_cons]
    cases hsub : action.submitted with
    | none =>
      rw [hsub, Option.toList_none, List.append_nil] at hfirst
      exact hrest.trans (hfirst.append_right _)
    | some job =>
      rw [hsub, Option.toList_some] at hfirst
      refine hrest.trans ((hfirst.append_right _).trans ?_)
      rw [List.append_assoc, List.singleton_append]

theorem blocked_new (db : DB) : (new db).Blocked := by
  intro hun
  exact absurd rfl hun.2.2

theorem queue_eq_nil_of_quiescent (buildKey : String → UInt64 → UInt64) (db : DB) (actions : List Action)
    (hkeeps : Trace.Along (step buildKey) KeepsSomeHeld (new db) actions)
    (hrun : Trace.run (step buildKey) (new db) actions = some pm) (hquiet : pm.Quiescent)
    : pm.lm.queue = [] ∧ (pm.workers.map Worker.job).Perm (actions.filterMap Action.submitted) := by
  have hblocked : pm.Blocked :=
    Trace.inv_of_along (fun _ _ _ hs hp hstep => hs.step hp hstep) (blocked_new db) hkeeps hrun
  have hqueue : pm.lm.queue = [] := by
    by_contra hne
    rcases hblocked ⟨hquiet.dispatcher, hquiet.channel, hne⟩ with ⟨r, hr⟩
    rw [hquiet.free r] at hr
    exact absurd hr (Nat.lt_irrefl 0)
  refine ⟨hqueue, ?_⟩
  have hjobs := jobs_run hrun
  simpa [jobs, new, LockManager.new, hqueue, hquiet.channel, hquiet.dispatcher, DispatcherPc.jobs]
    using hjobs

def setJob (n : Nat) : PipelineJob where
  commands := [.kvSet "d" "k" [1] 0]
  done := n

def dispatch (job : PipelineJob) : List Action :=
  [.submit job, .recv, .insert, .notifyOne none, .tryRecv, .tryPopRunnable]

def work (i : Nat) : List Action :=
  [.execute i fun _ => Env.steady, .release i, .notifyWaiters i, .send i]

theorem Quiescent.of_eq {n : Nat} (hstate : pm.lm.state = LockState.default)
    (hpcs : pm.workers.map Worker.pc = List.replicate n .finished) (hdispatcher : pm.dispatcher = .receiving)
    (hchannel : pm.channel = [])
    : pm.Quiescent := by
  refine ⟨?_, ?_, hdispatcher, hchannel⟩
  . intro r
    rw [hstate]
    cases r with
    | kv => rfl
    | list => rfl
    | log => rfl
  . intro w hw
    have hpc := List.mem_map_of_mem (f := Worker.pc) hw
    rw [hpcs] at hpc
    exact .inl (List.eq_of_mem_replicate hpc)

instance (pm : PipelineManager) : Decidable pm.Unattended :=
  inferInstanceAs (Decidable (_ ∧ _ ∧ _))

instance decidableKeepsSomeHeld (pm : PipelineManager) : ∀ a, Decidable (pm.KeepsSomeHeld a)
  | .release i =>
    decidable_of_iff
      (∀ w ∈ pm.workers[i]?, pm.Unattended →
        ∃ r ∈ [Resource.kv, .list, .log], 0 < (pm.lm.state.release w.resources).holders r)
      (by
        unfold KeepsSomeHeld
        constructor
        . intro h w hw hun
          rcases h w hw hun with ⟨r, _, hr⟩
          exact ⟨r, hr⟩
        . intro h w hw hun
          rcases h w hw hun with ⟨r, hr⟩
          exact ⟨r, by cases r <;> simp, hr⟩)
  | .submit _ | .recv | .insert | .notifyOne _ | .tryRecv | .tryPopRunnable | .check _ | .notified _
  | .execute _ _ | .notifyWaiters _ | .send _ => isTrue trivial

def flushJob (n : Nat) : PipelineJob where
  commands := [.listFlush "k"]
  done := n

def addJob (n : Nat) : PipelineJob where
  commands := [.logAdd "g" 0 []]
  done := n

-- When the first job releases the key-value store the third one waits for it, and the second one has the lists.
-- The fourth job makes the dispatcher look at the queue again.
def attended : List Action :=
  dispatch (setJob 0) ++ [.tryRecv, .tryPopRunnable, .check 0]
    ++ dispatch (flushJob 1) ++ [.tryRecv, .tryPopRunnable, .check 1]
    ++ dispatch (setJob 2) ++ work 0
    ++ dispatch (addJob 3) ++ [.tryRecv, .tryPopRunnable, .tryRecv, .tryPopRunnable, .check 2, .check 3]
    ++ work 1 ++ work 2 ++ work 3

theorem queue_eq_nil_after_jobs
    : ∃ db pm,
        DB.new true none = .ok db
          ∧ Trace.run (step fun _ id => id) (new db) attended = some pm
          ∧ pm.Quiescent
          ∧ pm.lm.queue = []
          ∧ (pm.workers.map Worker.job).Perm [setJob 0, flushJob 1, setJob 2, addJob 3] := by
  have hrun : (Trace.run (step fun _ id => id) (new DB.freshDb) attended).map
        (fun pm => (pm.lm.state, pm.workers.map Worker.pc, pm.dispatcher, pm.channel))
      = some (LockState.default, List.replicate 4 .finished, .receiving, []) := by
    decide +kernel
  rcases Option.map_eq_some_iff.mp hrun with ⟨pm, hpm, hobs⟩
  simp only [Prod.mk.injEq] at hobs
  rcases hobs with ⟨hstate, hpcs, hdispatcher, hchannel⟩
  have hquiet := Quiescent.of_eq hstate hpcs hdispatcher hchannel
  have hkeeps : Trace.Along (step fun _ id => id) KeepsSomeHeld (new DB.freshDb) attended := by
    decide +kernel
  refine ⟨_, pm, DB.new_eq none, hpm, hquiet, ?_⟩
  exact queue_eq_nil_of_quiescent (fun _ id => id) DB.freshDb attended hkeeps hpm hquiet

-- the second job is looked at while the first one runs, and never again
theorem queue_ne_nil_after_jobs
    : ∃ db pm,
        DB.new true none = .ok db
          ∧ Trace.run (step fun _ id => id) (new db)
              (dispatch (setJob 0) ++ [.tryRecv, .tryPopRunnable, .check 0] ++ dispatch (setJob 1)
                ++ work 0) = some pm
          ∧ pm.Quiescent
          ∧ pm.lm.queue = [LockManager.queued (setJob 1)] := by
  refine ⟨⟨_, [], none⟩, _, rfl, rfl, ?_, rfl⟩
  exact Quiescent.of_eq (n := 1) rfl rfl rfl rfl

end PipelineManager
end MemStream
