import MemStream.Db.Impl.Pipeline

/-!
This module contains the tasks of `PipelineManager::new`: the dispatcher, which takes the submitted jobs
to the queue and looks there for jobs that can run, and the workers it spawns for them. A state has the
places of all tasks in their code, and a step is what one task does between two points at which others
can come in between.

A `notified()` future is created and polled for the first time in one step. `notify_waiters` wakes all
workers that sleep in such a future, `notify_one` one of them; if there is none it leaves a permit, which
the next future to be polled takes.
-/

namespace MemStream

inductive DispatcherPc where
  -- `rx.recv().await`
  | receiving
  -- `lm.enqueue(job).await`, before the job is in the queue and before the notification
  | enqueuing (job : PipelineJob)
  | notifying
  -- `rx.try_recv()`
  | draining
  -- `lm.try_pop_runnable().await`
  | scanning
  deriving DecidableEq

inductive WorkerPc where
  -- the check of `lm2.acquire(&resources)`
  | checking
  -- the check has failed, `notified()` is not yet called
  | refused
  | sleeping
  | executing
  -- `lm2.release(&resources)`, before the update of the counters and before the notification
  | releasing
  | notifying
  -- `runnable_job.done.send(result)`
  | sending
  | finished
  -- the task has ended in a panic of `execute_job`
  | panicked
  deriving DecidableEq

structure Worker where
  job : PipelineJob
  resources : List Resource
  pc : WorkerPc
  result : Option (Except PipelineError Unit)

structure PipelineManager where
  db : DB
  lm : LockManager
  channel : List PipelineJob
  dispatcher : DispatcherPc
  workers : List Worker
  answers : List (Nat × Option (Except PipelineError Unit))

namespace PipelineManager

def channelCapacity : Nat := 256

def new (db : DB) : PipelineManager where
  db := db
  lm := LockManager.new
  channel := []
  dispatcher := .receiving
  workers := []
  answers := []

inductive Action where
  | submit (job : PipelineJob)
  | recv
  | insert
  | notifyOne (waiter : Option Nat)
  | tryRecv
  | tryPopRunnable
  | check (i : Nat)
  | notified (i : Nat)
  | execute (i : Nat) (envs : Nat → Env)
  | release (i : Nat)
  | notifyWaiters (i : Nat)
  | send (i : Nat)

variable (buildKey : String → UInt64 → UInt64)

def workerAt (pm : PipelineManager) (i : Nat) (pc : WorkerPc) : Option Worker :=
  match pm.workers[i]? with
  | some w => if w.pc = pc then some w else none
  | none => none

def setWorker (pm : PipelineManager) (i : Nat) (w : Worker) (pc : WorkerPc) : PipelineManager :=
  { pm with workers := pm.workers.set i { w with pc := pc } }

def submit (pm : PipelineManager) (job : PipelineJob) : Option PipelineManager :=
  if pm.channel.length < channelCapacity then
    some { pm with channel := pm.channel ++ [job] }
  else
    none

def recv (pm : PipelineManager) : Option PipelineManager :=
  match pm.dispatcher, pm.channel with
  | .receiving, job :: channel => some { pm with channel := channel, dispatcher := .enqueuing job }
  | _, _ => none

def insert (pm : PipelineManager) : Option PipelineManager :=
  match pm.dispatcher with
  | .enqueuing job => some { pm with lm := pm.lm.insert job, dispatcher := .notifying }
  | _ => none

def notifyOne (pm : PipelineManager) (waiter : Option Nat) : Option PipelineManager :=
  if pm.dispatcher ≠ .notifying then
    none
  else
    match waiter with
    | some i =>
      match pm.workerAt i .sleeping with
      | some w => some { pm.setWorker i w .checking with dispatcher := .draining }
      | none => none
    | none =>
      if pm.workers.any (·.pc = .sleeping) then
        none
      else
        some { pm with lm := { pm.lm with permit := true }, dispatcher := .draining }

def tryRecv (pm : PipelineManager) : Option PipelineManager :=
  match pm.dispatcher, pm.channel with
  | .draining, job :: channel => some { pm with channel := channel, dispatcher := .enqueuing job }
  | .draining, [] => some { pm with dispatcher := .scanning }
  | _, _ => none

def tryPopRunnable (pm : PipelineManager) : Option PipelineManager :=
  if pm.dispatcher ≠ .scanning then
    none
  else
    match pm.lm.tryPopRunnable with
    | none => some { pm with dispatcher := .receiving }
    | some ((job, resources), lm) =>
      some
        { pm with
          lm := lm
          dispatcher := .draining
          workers := pm.workers ++ [⟨job, resources, .checking, none⟩] }

def check (pm : PipelineManager) (i : Nat) : Option PipelineManager :=
  match pm.workerAt i .checking with
  | none => none
  | some w =>
    if pm.lm.state.canAcquire w.resources then
      some
        { pm.setWorker i w .executing with
          lm := { pm.lm with state := pm.lm.state.acquire w.resources } }
    else
      some (pm.setWorker i w .refused)

def notified (pm : PipelineManager) (i : Nat) : Option PipelineManager :=
  match pm.workerAt i .refused with
  | none => none
  | some w =>
    if pm.lm.permit then
      some { pm.setWorker i w .checking with lm := { pm.lm with permit := false } }
    else
      some (pm.setWorker i w .sleeping)

def execute (pm : PipelineManager) (i : Nat) (envs : Nat → Env) : Option PipelineManager :=
  match pm.workerAt i .executing with
  | none => none
  | some w =>
    match pm.db.executeJob buildKey envs w.job.commands with
    | (.ok (), db) => some { pm.setWorker i { w with result := some (.ok ()) } .releasing with db := db }
    | (.err e, db) =>
      some { pm.setWorker i { w with result := some (.error e) } .releasing with db := db }
    | (.panic, db) => some { pm.setWorker i w .panicked with db := db }

def release (pm : PipelineManager) (i : Nat) : Option PipelineManager :=
  match pm.workerAt i .releasing with
  | none => none
  | some w =>
    some
      { pm.setWorker i w .notifying with
        lm := { pm.lm with state := pm.lm.state.release w.resources } }

def wake (w : Worker) : Worker :=
  if w.pc = .sleeping then { w with pc := .checking } else w

def notifyWaiters (pm : PipelineManager) (i : Nat) : Option PipelineManager :=
  match pm.workerAt i .notifying with
  | none => none
  | some w => some { pm with workers := (pm.setWorker i w .sending).workers.map wake }

def send (pm : PipelineManager) (i : Nat) : Option PipelineManager :=
  match pm.workerAt i .sending with
  | none => none
  | some w =>
    some { pm.setWorker i w .finished with answers := pm.answers ++ [(w.job.done, w.result)] }

def step (pm : PipelineManager) : Action → Option PipelineManager
  | .submit job => pm.submit job
  | .recv => pm.recv
  | .insert => pm.insert
  | .notifyOne waiter => pm.notifyOne waiter
  | .tryRecv => pm.tryRecv
  | .tryPopRunnable => pm.tryPopRunnable
  | .check i => pm.check i
  | .notified i => pm.notified i
  | .execute i envs => pm.execute buildKey i envs
  | .release i => pm.release i
  | .notifyWaiters i => pm.notifyWaiters i
  | .send i => pm.send i

end PipelineManager
end MemStream
