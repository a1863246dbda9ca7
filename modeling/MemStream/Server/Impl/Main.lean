import MemStream.Server.Impl.Ha

/-!
This module contains a process of `main.rs` from the point on at which the database has been loaded. The
manager of `ha.rs` is behind a lock that is given in the order in which it is asked for. It is asked for by
the task that `main` spawns for `start`, by `main` itself, and by the tasks of the connections that handle an
`HA_REGISTER` or an `HA_HEARTBEAT`. A connection is known by its number.

A step is what one of the tasks does between two points at which it can be suspended. What a call does with
the lock is a step of `Leader`. `main` ends the process when `register_master` fails or the address cannot be
bound.
-/

namespace MemStream

inductive ReplicaRole where
  | leader
  | follower
  deriving DecidableEq

structure ReplicaConf where
  isReplica : Bool
  role : Option ReplicaRole
  master : Option String
  eventBufferSize : Option Nat

inductive Caller where
  | eventLoop
  | main
  | register (client : Nat) (addr : String)
  | heartbeat (client : Nat)
  deriving DecidableEq

inductive TaskPc where
  | unspawned
  | spawned
  | asked
  | finished
  deriving DecidableEq

inductive MainPc where
  | spawned
  | asked
  -- `register_master` waits for the answer
  | awaiting
  | binding
  | serving
  | exited
  deriving DecidableEq

structure Process where
  conf : ReplicaConf
  core : Leader
  task : TaskPc
  main : MainPc
  -- the lock of the manager, with those that wait for it
  holder : Option Caller
  waiting : List Caller
  -- the answers to the registrations
  answers : List (Nat × Bool)

def Leader.enter (s : Leader) : Caller → Option Leader
  | .eventLoop => s.start
  | .register _ addr => s.register addr
  | .main | .heartbeat _ => some s

namespace Process

-- A replica has a master, whatever its role is: it is an `unwrap`.
def new (conf : ReplicaConf) (db : DB) (old : List AofEntry) : Option Process :=
  let core := Leader.new db conf.eventBufferSize old
  if conf.isReplica then
    match conf.master, conf.role with
    | none, _ => none
    | some _, some _ => some ⟨conf, core, .spawned, .spawned, none, [], []⟩
    | some _, none => some ⟨conf, core, .spawned, .binding, none, [], []⟩
  else
    some ⟨conf, core, .unspawned, .binding, none, [], []⟩

inductive Action where
  -- a client's operation, an `HA_SYNC`, the worker of the file, and the task of `heartbeat_followers`
  | call (op : DB.Op) (env : Env)
  | applyAof (entries : List (AofEntry × Env))
  | writeLine (ok : Bool)
  | remove (addr : String)
  | ask (caller : Caller)
  | lock (caller : Caller)
  -- `start`
  | receive
  | sync (delivered ok : Bool)
  | finish
  -- `register_follower`, and `ack_heartbeat`
  | heartbeat (ok : Bool)
  | copy (ok : Bool)
  | syncCopy (delivered : Bool)
  | ackHeartbeat
  -- `main`
  | heartbeatFollowers
  | connect (ok : Bool)
  | answer (ok : Bool)
  | bind (ok : Bool)

def Action.ofEventLoop : Action → Bool
  | .ask .eventLoop | .lock .eventLoop | .receive | .sync .. | .finish => true
  | _ => false

variable (buildKey : String → UInt64 → UInt64)

def ask (s : Process) : Caller → Option Process
  | .eventLoop =>
    if s.task = .spawned then
      some { s with task := .asked, waiting := s.waiting ++ [.eventLoop] }
    else
      none
  | .main =>
    if s.main = .spawned then
      some { s with main := .asked, waiting := s.waiting ++ [.main] }
    else
      none
  | caller =>
    if s.main = .serving then
      some { s with waiting := s.waiting ++ [caller] }
    else
      none

def lock (s : Process) (caller : Caller) : Option Process :=
  match s.holder, s.waiting with
  | none, first :: waiting =>
    if first = caller then
      (s.core.enter caller).map fun core =>
        { s with core := core, holder := some caller, waiting := waiting }
    else
      none
  | _, _ => none

-- The task ends with the call of `start`, whatever its result.
def inEventLoop (s : Process) (core : Option Leader) : Option Process :=
  match s.holder, core with
  | some .eventLoop, some core =>
    match core.pc with
    | .idle => some { s with core := core, task := .finished, holder := none }
    | _ => some { s with core := core }
  | _, _ => none

def inRegister (s : Process) (core : Option Leader) (ok : Bool) : Option Process :=
  match s.holder, core with
  | some (.register client _), some core =>
    match core.pc with
    | .idle => some { s with core := core, holder := none, answers := s.answers ++ [(client, ok)] }
    | _ => some { s with core := core }
  | _, _ => none

def ackHeartbeat (s : Process) : Option Process :=
  match s.holder with
  | some (.heartbeat _) => some { s with holder := none }
  | _ => none

def heartbeatFollowers (s : Process) : Option Process :=
  if s.holder = some .main ∧ s.conf.role = some .leader ∧ s.main = .asked then
    some { s with main := .binding, holder := none }
  else
    none

def connect (s : Process) (ok : Bool) : Option Process :=
  if s.holder = some .main ∧ s.conf.role = some .follower ∧ s.main = .asked then
    some { s with main := if ok then .awaiting else .exited }
  else
    none

def answer (s : Process) (ok : Bool) : Option Process :=
  if s.holder = some .main ∧ s.main = .awaiting then
    some { s with main := if ok then .binding else .exited, holder := none }
  else
    none

def bind (s : Process) (ok : Bool) : Option Process :=
  if s.main = .binding then
    some { s with main := if ok then .serving else .exited }
  else
    none

def heartbeats (s : Process) : Bool :=
  s.conf.isReplica ∧ s.conf.role = some .leader ∧ (s.main = .binding ∨ s.main = .serving)

def act (s : Process) : Action → Option Process
  | .call op env => if s.main = .serving then some { s with core := s.core.call buildKey op env } else none
  | .applyAof entries =>
    if s.main = .serving then
      some { s with core := { s.core with db := (s.core.db.applyAof buildKey entries).2 } }
    else
      none
  | .writeLine ok => (s.core.writeLine ok).map fun core => { s with core := core }
  | .remove addr => if s.heartbeats then some { s with core := s.core.remove addr } else none
  | .ask caller => s.ask caller
  | .lock caller => s.lock caller
  | .receive => s.inEventLoop s.core.receive
  | .sync delivered ok => s.inEventLoop (s.core.sync delivered ok)
  | .finish => s.inEventLoop s.core.finish
  | .heartbeat ok => s.inRegister (s.core.heartbeat ok) ok
  | .copy ok => s.inRegister (s.core.copy ok) ok
  | .syncCopy delivered => s.inRegister (s.core.syncCopy delivered) true
  | .ackHeartbeat => s.ackHeartbeat
  | .heartbeatFollowers => s.heartbeatFollowers
  | .connect ok => s.connect ok
  | .answer ok => s.answer ok
  | .bind ok => s.bind ok

-- the other tasks end with `main`
def step (s : Process) (a : Action) : Option Process :=
  match s.main with
  | .exited => none
  | _ => s.act buildKey a

end Process
end MemStream
