import MemStream.Db.Impl.Db

/-!
This module contains the jobs of `pipeline.rs`: the commands a pipeline collects, what a worker does to
the database when it executes a job, the account of the stores that are in use and the queue of the jobs
that wait for them.

How the dispatcher and the workers take turns is in the module `Dispatcher`.
-/

namespace MemStream

inductive Resource where
  | kv
  | list
  | log
  deriving DecidableEq

inductive PipelineCommand where
  | kvSet (db key : String) (val : List UInt8) (ttl : Int64)
  | kvDel (db key : String)
  | kvFlush (db : String)
  | listPush (key : String) (payload : List UInt8)
  | listPop (key : String)
  | listFlush (key : String)
  | logAdd (group : String) (timestamp : UInt64) (payload : List UInt8)
  deriving DecidableEq

inductive PipelineError where
  | sendError
  | execError (e : DBError)
  deriving DecidableEq

-- `done` is the channel on which the submitter of the job waits for its result
structure PipelineJob where
  commands : List PipelineCommand
  done : Nat
  deriving DecidableEq

def PipelineCommand.resource : PipelineCommand → Resource
  | .kvSet .. | .kvDel .. | .kvFlush .. => .kv
  | .listPush .. | .listPop .. | .listFlush .. => .list
  | .logAdd .. => .log

def uniqueResources (commands : List PipelineCommand) : List Resource :=
  commands.foldl
    (fun seen c => if c.resource ∈ seen then seen else seen ++ [c.resource]) []

namespace DB

variable (buildKey : String → UInt64 → UInt64)

def execute (db : DB) (env : Env) : PipelineCommand → Outcome DBError Unit × DB
  | .kvSet d key val ttl => db.kvSet env d key val ttl
  | .kvDel d key => db.kvDel d key
  | .kvFlush d => db.kvFlush d
  | .listPush key payload => db.listPush env key payload
  | .listPop key =>
    let res := db.listPop key
    (res.1.map fun _ => (), res.2)
  | .listFlush key => db.listFlush key
  | .logAdd group timestamp payload =>
    let res := db.logAdd buildKey env group timestamp payload
    (res.1.map fun _ => (), res.2)

def executeJob (db : DB) (envs : Nat → Env) : List PipelineCommand → Outcome PipelineError Unit × DB
  | [] => (.ok (), db)
  | cmd :: commands =>
    match db.execute buildKey (envs 0) cmd with
    | (.ok (), db) => db.executeJob (fun i => envs (i + 1)) commands
    | (.err e, db) => (.err (.execError e), db)
    | (.panic, db) => (.panic, db)

end DB

structure LockState where
  kvHolders : Nat
  listHolders : Nat
  logHolders : Nat
  deriving DecidableEq

namespace LockState

def default : LockState where
  kvHolders := 0
  listHolders := 0
  logHolders := 0

def holders (state : LockState) : Resource → Nat
  | .kv => state.kvHolders
  | .list => state.listHolders
  | .log => state.logHolders

def canAcquire (state : LockState) (resources : List Resource) : Bool :=
  -- a job that needs more than the key-value store is looked at twice
  !(resources.any fun r =>
      r = .kv
        && (state.kvHolders > 0 && resources.contains .list
          || state.kvHolders > 0 && resources.contains .log))
    && resources.all fun r => !(state.holders r > 0)

def update (state : LockState) (f : Nat → Nat) : Resource → LockState
  | .kv => { state with kvHolders := f state.kvHolders }
  | .list => { state with listHolders := f state.listHolders }
  | .log => { state with logHolders := f state.logHolders }

def acquire (state : LockState) (resources : List Resource) : LockState :=
  resources.foldl (fun state r => state.update (· + 1) r) state

def release (state : LockState) (resources : List Resource) : LockState :=
  resources.foldl (fun state r => state.update (· - 1) r) state

end LockState

structure QueuedJob where
  opCount : Nat
  resources : List Resource
  job : PipelineJob
  deriving DecidableEq

-- of the `Notify` only the permit is stored here, who waits on it is known by the waiting tasks
structure LockManager where
  state : LockState
  permit : Bool
  queue : List QueuedJob

namespace LockManager

def new : LockManager where
  state := LockState.default
  permit := false
  queue := []

def queued (job : PipelineJob) : QueuedJob where
  opCount := job.commands.length
  resources := uniqueResources job.commands
  job := job

def partitionPoint (p : QueuedJob → Bool) (queue : List QueuedJob) : Nat :=
  (queue.takeWhile p).length

-- `enqueue` without the notification at its end
def insert (lm : LockManager) (job : PipelineJob) : LockManager :=
  let queued := queued job
  let pos := partitionPoint (fun j => j.opCount ≤ queued.opCount) lm.queue
  { lm with queue := lm.queue.insertIdx pos queued }

def tryPopRunnable (lm : LockManager) : Option ((PipelineJob × List Resource) × LockManager) :=
  match lm.queue.findIdx? fun j => lm.state.canAcquire j.resources with
  | none => none
  | some pos =>
    match lm.queue[pos]? with
    | none => none
    | some queued =>
      some ((queued.job, queued.resources), { lm with queue := lm.queue.eraseIdx pos })

end LockManager
end MemStream
