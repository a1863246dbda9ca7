import MemStream.Db.Lemmas.Pipeline.Stranded

namespace MemStream

structure ExecutedJob where
  job : PipelineJob
  envs : Nat → Env

namespace DB

variable (buildKey : String → UInt64 → UInt64)

def serve (db : DB) (e : ExecutedJob) : Outcome PipelineError Unit × DB :=
  db.executeJob buildKey e.envs e.job.commands

end DB

def WorkerPc.unstarted : WorkerPc → Bool
  | .checking | .refused | .sleeping | .executing => true
  | _ => false

def WorkerPc.owes : WorkerPc → Bool
  | .releasing | .notifying | .sending => true
  | _ => false

namespace Worker

def waitingJob (w : Worker) : Option PipelineJob :=
  if w.pc.unstarted then some w.job else none

def startedJob (w : Worker) : Option PipelineJob :=
  if w.pc.unstarted then none else some w.job

def unsentAnswer (w : Worker) : Option (Nat × Option (Except PipelineError Unit)) :=
  if w.pc.owes then some (w.job.done, w.result) else none

end Worker

def answerOf (e : ExecutedJob × Outcome PipelineError Unit)
    : Option (Nat × Option (Except PipelineError Unit)) :=
  match e.2 with
  | .ok () => some (e.1.job.done, some (.ok ()))
  | .err err => some (e.1.job.done, some (.error err))
  | .panic => none

namespace PipelineManager

variable (buildKey : String → UInt64 → UInt64)

def waiting (pm : PipelineManager) : List PipelineJob :=
  pm.channel ++ DispatcherPc.jobs pm.dispatcher ++ pm.lm.queue.map QueuedJob.job
    ++ pm.workers.filterMap Worker.waitingJob

def unsent (pm : PipelineManager) : List (Nat × Option (Except PipelineError Unit)) :=
  pm.workers.filterMap Worker.unsentAnswer

def executedBy (pm : PipelineManager) : Action → List ExecutedJob
  | .execute i envs =>
    match pm.workerAt i .executing with
    | some w => [⟨w.job, envs⟩]
    | none => []
  | _ => []

def executed (pm : PipelineManager) (actions : List Action) : List ExecutedJob :=
  Trace.emitted (step buildKey) executedBy pm actions

structure Serial (start : DB) (done : List ExecutedJob) (pm : PipelineManager) : Prop where
  db : (Machine.run (DB.serve buildKey) start done).2 = pm.db
  started : (done.map ExecutedJob.job).Perm (pm.workers.filterMap Worker.startedJob)
  answers : (pm.answers ++ pm.unsent).Perm
    ((Machine.run (DB.serve buildKey) start done).1.filterMap answerOf)

variable {buildKey} {pm pm' : PipelineManager} {start : DB} {done : List ExecutedJob}

theorem workerAt_of_getElem? {i : Nat} {w : Worker} {pc : WorkerPc} (hget : pm.workers[i]? = some w)
    (hpc : w.pc = pc)
    : pm.workerAt i pc = some w := by
  unfold workerAt
  rw [hget]
  dsimp only
  rw [if_pos hpc]

theorem filterMap_wake {β : Type} {f : Worker → Option β} (h : ∀ w, w.pc = .sleeping → f (wake w) = f w)
    (workers : List Worker)
    : (workers.map wake).filterMap f = workers.filterMap f := by
  rw [List.filterMap_map]
  apply List.filterMap_congr
  intro w _
  by_cases hpc : w.pc = .sleeping
  . exact h w hpc
  . show f (wake w) = f w
    unfold wake
    rw [if_neg hpc]

theorem serial_new (db : DB) : Serial buildKey db [] (new db) where
  db := rfl
  started := List.Perm.nil
  answers := List.Perm.nil

theorem Serial.move (h : Serial buildKey start done pm) {i : Nat} {w w' : Worker}
    (hget : pm.workers[i]? = some w) (hworkers : pm'.workers = pm.workers.set i w')
    (hstarted : w'.startedJob = w.startedJob) (hunsent : w'.unsentAnswer = w.unsentAnswer)
    (hdb : pm'.db = pm.db) (hanswers : pm'.answers = pm.answers)
    : Serial buildKey start done pm' where
  db := by
    rw [hdb]
    exact h.db
  started := by
    have hperm := Pool.filterMap_set hget w' Worker.startedJob
    rw [hstarted] at hperm
    rw [hworkers]
    exact h.started.trans ((List.perm_append_left_iff _).mp hperm).symm
  answers := by
    have hperm := Pool.filterMap_set hget w' Worker.unsentAnswer
    rw [hunsent] at hperm
    have hsame := (List.perm_append_left_iff _).mp hperm
    unfold unsent
    rw [hworkers, hanswers]
    exact (hsame.append_left _).trans h.answers

theorem Serial.frame (h : Serial buildKey start done pm) (hworkers : pm'.workers = pm.workers)
    (hdb : pm'.db = pm.db) (hanswers : pm'.answers = pm.answers)
    : Serial buildKey start done pm' where
  db := by
    rw [hdb]
    exact h.db
  started := by
    rw [hworkers]
    exact h.started
  answers := by
    unfold unsent
    rw [hworkers, hanswers]
    exact h.answers

theorem execute_cases {i : Nat} {envs : Nat → Env} (h : pm.execute buildKey i envs = some pm')
    : ∃ w res db result pc,
        pm.workers[i]? = some w
          ∧ w.pc = .executing
          ∧ pm.db.executeJob buildKey envs w.job.commands = (res, db)
          ∧ pm' = { pm.setWorker i { w with result := result } pc with db := db }
          ∧ pc.unstarted = false
          ∧ (if pc.owes then some (w.job.done, result) else none) = answerOf (⟨w.job, envs⟩, res) := by
  unfold execute at h
  split at h
  . simp at h
  . next w hw =>
    have ⟨hget, hpc⟩ := workerAt_eq_some hw
    split at h
    . next db heq =>
      exact ⟨w, _, db, _, .releasing, hget, hpc, heq, (Option.some.inj h).symm, rfl, rfl⟩
    . next e db heq =>
      exact ⟨w, _, db, _, .releasing, hget, hpc, heq, (Option.some.inj h).symm, rfl, rfl⟩
    . next db heq =>
      exact ⟨w, _, db, w.result, .panicked, hget, hpc, heq, (Option.some.inj h).symm, rfl, rfl⟩

theorem Serial.execute (h : Serial buildKey start done pm) {i : Nat} {envs : Nat → Env}
    (hstep : pm.execute buildKey i envs = some pm')
    : Serial buildKey start (done ++ pm.executedBy (.execute i envs)) pm' := by
  rcases execute_cases hstep with ⟨w, res, db, result, pc, hget, hpc, hres, rfl, hpc', hanswer⟩
  have hexecuted : pm.executedBy (.execute i envs) = [⟨w.job, envs⟩] := by
    unfold executedBy
    dsimp only
    rw [workerAt_of_getElem? hget hpc]
  have hserve : DB.serve buildKey pm.db ⟨w.job, envs⟩ = (res, db) := hres
  have hbefore : w.startedJob = none ∧ w.unsentAnswer = none := by
    unfold Worker.startedJob Worker.unsentAnswer
    rw [hpc]
    exact ⟨rfl, rfl⟩
  let w' : Worker := { w with result := result, pc := pc }
  have hafter : w'.startedJob = some w.job ∧ w'.unsentAnswer = answerOf (⟨w.job, envs⟩, res) := by
    refine ⟨?_, hanswer⟩
    show (if pc.unstarted then none else some w.job) = some w.job
    rw [hpc']
    rfl
  rw [hexecuted]
  constructor
  . rw [Machine.run_concat, h.db, hserve]
  . have hperm := Pool.filterMap_set hget w' Worker.startedJob
    rw [hbefore.1, hafter.1, Option.toList_none, List.nil_append, Option.toList_some] at hperm
    rw [List.map_append]
    apply (h.started.append_right _).trans
    apply List.perm_append_comm.trans
    exact hperm.symm
  . have hperm := Pool.filterMap_set hget w' Worker.unsentAnswer
    rw [hbefore.2, hafter.2, Option.toList_none, List.nil_append] at hperm
    have hsingle : [((⟨w.job, envs⟩ : ExecutedJob), res)].filterMap answerOf
        = (answerOf (⟨w.job, envs⟩, res)).toList := by
      rw [List.filterMap_cons]
      cases answerOf (⟨w.job, envs⟩, res) with
      | none => rfl
      | some val => rfl
    rw [Machine.run_concat, h.db, hserve, List.filterMap_append, hsingle]
    apply ((hperm.append_left _).trans _)
    apply (List.perm_append_comm_assoc _ _ _).trans
    apply List.perm_append_comm.trans
    exact h.answers.append_right _

theorem Serial.send (h : Serial buildKey start done pm) {i : Nat} (hstep : pm.send i = some pm')
    : Serial buildKey start done pm' := by
  unfold PipelineManager.send at hstep
  split at hstep
  . simp at hstep
  . next w hw =>
    have ⟨hget, hpc⟩ := workerAt_eq_some hw
    cases hstep
    let w' : Worker := { w with pc := .finished }
    have hstarted : w'.startedJob = w.startedJob := by
      unfold Worker.startedJob
      rw [hpc]
      rfl
    have hbefore : w.unsentAnswer = some (w.job.done, w.result) := by
      unfold Worker.unsentAnswer
      rw [hpc]
      rfl
    have hafter : w'.unsentAnswer = none := by
      rfl
    constructor
    . exact h.db
    . have hperm := Pool.filterMap_set hget w' Worker.startedJob
      rw [hstarted] at hperm
      exact h.started.trans ((List.perm_append_left_iff _).mp hperm).symm
    . have hperm := Pool.filterMap_set hget w' Worker.unsentAnswer
      rw [hbefore, hafter, Option.toList_some, Option.toList_none, List.nil_append] at hperm
      apply List.Perm.trans _ h.answers
      show (pm.answers ++ [(w.job.done, w.result)] ++ (pm.workers.set i w').filterMap _).Perm _
      rw [List.append_assoc]
      exact hperm.append_left _

theorem Serial.step (h : Serial buildKey start done pm) {action : Action}
    (hstep : pm.step buildKey action = some pm')
    : Serial buildKey start (done ++ pm.executedBy action) pm' := by
  have hnone (hexecuted : pm.executedBy action = []) (h : Serial buildKey start done pm')
      : Serial buildKey start (done ++ pm.executedBy action) pm' := by
    rw [hexecuted, List.append_nil]
    exact h
  -- a worker that stays on its side of the execution
  have hmove (pc : WorkerPc) {i : Nat} {w : Worker} (hexecuted : pm.executedBy action = [])
      (hget : pm.workers[i]? = some w) (hunstarted : pc.unstarted = w.pc.unstarted)
      (howes : pc.owes = w.pc.owes) (hworkers : pm'.workers = pm.workers.set i { w with pc := pc })
      (hdb : pm'.db = pm.db) (hanswers : pm'.answers = pm.answers)
      : Serial buildKey start (done ++ pm.executedBy action) pm' := by
    apply hnone hexecuted
    apply h.move hget hworkers _ _ hdb hanswers
    . unfold Worker.startedJob
      rw [hunstarted]
    . unfold Worker.unsentAnswer
      rw [howes]
  cases action with
  | submit job =>
    cases submit_eq_some hstep
    exact hnone rfl (h.frame rfl rfl rfl)
  | recv =>
    rcases recv_eq_some hstep with ⟨job, channel, _, _, rfl⟩
    exact hnone rfl (h.frame rfl rfl rfl)
  | insert =>
    rcases insert_eq_some hstep with ⟨job, _, rfl⟩
    exact hnone rfl (h.frame rfl rfl rfl)
  | notifyOne waiter =>
    rcases notifyOne_eq_some hstep with ⟨_, ⟨i, w, hget, hpc, rfl⟩ | rfl⟩
    . exact hmove .checking rfl hget (by rw [hpc]; rfl) (by rw [hpc]; rfl) rfl rfl rfl
    . exact hnone rfl (h.frame rfl rfl rfl)
  | tryRecv =>
    rcases tryRecv_eq_some hstep with ⟨_, ⟨job, channel, _, rfl⟩ | rfl⟩
    . exact hnone rfl (h.frame rfl rfl rfl)
    . exact hnone rfl (h.frame rfl rfl rfl)
  | tryPopRunnable =>
    rcases tryPopRunnable_eq_some hstep with ⟨_, ⟨_, rfl⟩ | ⟨front, j, back, _, rfl⟩⟩
    . exact hnone rfl (h.frame rfl rfl rfl)
    . apply hnone rfl
      refine ⟨h.db, ?_, ?_⟩
      . rw [List.filterMap_append]
        exact h.started.trans (by simp [Worker.startedJob, WorkerPc.unstarted])
      . unfold unsent
        rw [List.filterMap_append]
        have hunsent : [(⟨j.job, j.resources, .checking, none⟩ : Worker)].filterMap Worker.unsentAnswer
            = [] := by
          rfl
        rw [hunsent, List.append_nil]
        exact h.answers
  | check i =>
    rcases check_eq_some hstep with ⟨w, hget, hpc, ⟨_, rfl⟩ | ⟨_, rfl⟩⟩
    . exact hmove .executing rfl hget (by rw [hpc]; rfl) (by rw [hpc]; rfl) rfl rfl rfl
    . exact hmove .refused rfl hget (by rw [hpc]; rfl) (by rw [hpc]; rfl) rfl rfl rfl
  | notified i =>
    rcases notified_eq_some hstep with ⟨w, hget, hpc, rfl | rfl⟩
    . exact hmove .checking rfl hget (by rw [hpc]; rfl) (by rw [hpc]; rfl) rfl rfl rfl
    . exact hmove .sleeping rfl hget (by rw [hpc]; rfl) (by rw [hpc]; rfl) rfl rfl rfl
  | execute i envs => exact h.execute hstep
  | release i =>
    rcases release_eq_some hstep with ⟨w, hget, hpc, rfl⟩
    exact hmove .notifying rfl hget (by rw [hpc]; rfl) (by rw [hpc]; rfl) rfl rfl rfl
  | notifyWaiters i =>
    rcases notifyWaiters_eq_some hstep with ⟨w, hget, hpc, rfl⟩
    have hworkers : (pm.setWorker i w .sending).workers
        = pm.workers.set i { w with pc := .sending } := by
      rfl
    have hset : Serial buildKey start done (pm.setWorker i w .sending) := by
      apply h.move hget hworkers _ _ rfl rfl
      . unfold Worker.startedJob
        rw [hpc]
        rfl
      . unfold Worker.unsentAnswer
        rw [hpc]
        rfl
    apply hnone rfl
    refine ⟨hset.db, ?_, ?_⟩
    . dsimp only
      rw [filterMap_wake (by intro w hw; simp [Worker.startedJob, wake, hw, WorkerPc.unstarted])]
      exact hset.started
    . unfold unsent
      dsimp only
      rw [filterMap_wake (by intro w hw; simp [Worker.unsentAnswer, wake, hw, WorkerPc.owes])]
      exact hset.answers
  | send i => exact hnone rfl (h.send hstep)

theorem started_append_waiting (workers : List Worker)
    : (workers.filterMap Worker.startedJob ++ workers.filterMap Worker.waitingJob).Perm
        (workers.map Worker.job) := by
  induction workers with
  | nil => exact List.Perm.nil
  | cons w workers ih =>
    rw [List.map_cons, List.filterMap_cons, List.filterMap_cons]
    unfold Worker.startedJob Worker.waitingJob
    cases w.pc.unstarted with
    | true => exact List.perm_middle.trans (ih.cons _)
    | false => exact ih.cons _

/--
The jobs that were executed, run one after the other in the order in which they got the database, leave the
database and give the answers. The order goes on with every step, so that a job comes behind all those that
were answered before it was submitted.
-/
theorem executed_serially (buildKey : String → UInt64 → UInt64) (db : DB) (actions : List Action)
    (hrun : Trace.run (step buildKey) (new db) actions = some pm)
    : let order := executed buildKey (new db) actions
      let serial := Machine.run (DB.serve buildKey) db order
      serial.2 = pm.db
        ∧ (order.map ExecutedJob.job ++ pm.waiting).Perm (actions.filterMap Action.submitted)
        ∧ (pm.answers ++ pm.unsent).Perm (serial.1.filterMap answerOf)
        ∧ ∀ before after mid,
            actions = before ++ after →
            Trace.run (step buildKey) (new db) before = some mid →
            order = executed buildKey (new db) before ++ executed buildKey mid after := by
  have h : Serial buildKey db ([] ++ executed buildKey (new db) actions) pm :=
    Trace.inv_emitted (fun _ _ _ _ hs hstep => hs.step hstep) (serial_new db) hrun
  rw [List.nil_append] at h
  refine ⟨h.db, ?_, h.answers, ?_⟩
  . have hjobs := jobs_run hrun
    have hnew : (new db).jobs = [] := by
      rfl
    rw [hnew, List.nil_append] at hjobs
    apply List.Perm.trans _ hjobs
    unfold waiting jobs
    apply (h.started.append_right _).trans
    apply (List.perm_append_comm_assoc _ _ _).trans
    exact (started_append_waiting pm.workers).append_left _
  . rintro before after mid rfl hmid
    exact Trace.emitted_append executedBy hmid after

-- both jobs have a worker, and the one that was submitted last is the first that gets the store
def overtaking : List Action :=
  [.submit (setJob 0), .submit (setJob 1), .recv, .insert, .notifyOne none, .tryRecv, .insert,
    .notifyOne none, .tryRecv, .tryPopRunnable, .tryRecv, .tryPopRunnable, .check 1] ++ work 1
    ++ .check 0 :: work 0

theorem executed_serially_overtaken
    : ∃ db pm,
        DB.new true none = .ok db
          ∧ Trace.run (step fun _ id => id) (new db) overtaking = some pm
          ∧ pm.answers = [(1, some (.ok ())), (0, some (.ok ()))]
          ∧ (executed (fun _ id => id) (new db) overtaking).map ExecutedJob.job = [setJob 1, setJob 0]
          ∧ (Machine.run (DB.serve fun _ id => id) db
              (executed (fun _ id => id) (new db) overtaking)).2 = pm.db := by
  refine ⟨⟨_, [], none⟩, _, rfl, rfl, rfl, rfl, ?_⟩
  exact (executed_serially (fun _ id => id) _ overtaking rfl).1

end PipelineManager
end MemStream
