import MemStream.Db.Impl.Call

/-!
This module contains the replication of `ha.rs`. An event is an `AofEntry`, or an `AofEntry` with the number
of the write it comes from.

`HaManager::start` takes one event; `sync` says what becomes of the `sync_follower` for each of the
followers. `Leader` is the leader with everything that runs beside it. The manager is behind a lock, so that
a call of `start` and a call of `register_follower` never overlap, and a copy of the file is made with the
lock of the database, so that no write falls into it. A state has the place of the call that has the lock of
the manager, and a step is what it, a client or the task that writes the file does between two points at
which others can come in between.
-/

namespace MemStream

structure HaManager (ε : Type) where
  eventBufferSize : Option Nat
  followers : List String
  uncommittedEvents : List ε

inductive Recv (ε : Type) where
  | entry (e : ε)
  | disconnected
  | closed

namespace HaManager

variable {ε : Type}

def new (eventBufferSize : Option Nat) : HaManager ε where
  eventBufferSize := eventBufferSize
  followers := []
  uncommittedEvents := []

def push (ha : HaManager ε) (e : ε) : Option (List ε) × HaManager ε :=
  let events := ha.uncommittedEvents ++ [e]
  if events.length ≥ ha.eventBufferSize.getD 100 then
    (some events, { ha with uncommittedEvents := [] })
  else
    (none, { ha with uncommittedEvents := events })

def syncAll (sync : Nat → Except String Unit) (events : List ε)
    : Nat → List String → Outcome String Unit × List (Nat × String × List ε)
  | _, [] => (.ok (), [])
  | i, follower :: followers =>
    match sync i with
    | .error e => (.err e, [])
    | .ok () =>
      let res := syncAll sync events (i + 1) followers
      (res.1, (i, follower, events) :: res.2)

def start (ha : HaManager ε) (recv : Recv ε) (sync : Nat → Except String Unit)
    : Outcome String Unit × HaManager ε × List (Nat × String × List ε) :=
  match recv with
  | .disconnected => (.err "aof event channel disconnected", ha, [])
  | .closed => (.err "aof event closed", ha, [])
  | .entry e =>
    match ha.push e with
    | (none, ha) => (.ok (), ha, [])
    | (some events, ha) =>
      let res := syncAll sync events 0 ha.followers
      (res.1, ha, res.2)

-- `heartbeat_followers` removes a follower that has missed too many heartbeats
def remove (ha : HaManager ε) (addr : String) : HaManager ε :=
  { ha with followers := ha.followers.filter (· ≠ addr) }

end HaManager

abbrev Write := Nat × AofEntry

inductive HaPc where
  | idle
  -- `start`: waiting for an event, and sending the events to the rest of the followers
  | receiving
  | flushing (events : List Write) (followers : List String)
  -- `register_follower`: waiting for the heartbeat, before the copy of the file, and sending it
  | heartbeating (addr : String)
  | copying (addr : String)
  | syncing (addr : String) (copy : List Write)

structure Leader where
  db : DB
  calls : Nat
  -- what the worker has still to write, and what is in the file
  queue : List Write
  file : List Write
  rx : List Write
  ha : HaManager Write
  pc : HaPc
  -- the frames that have reached a follower
  frames : List (String × List Write)

namespace Leader

def new (db : DB) (eventBufferSize : Option Nat) (old : List AofEntry) : Leader where
  db := db
  calls := old.length
  queue := []
  file := (List.range old.length).zip old
  rx := []
  ha := HaManager.new eventBufferSize
  pc := .idle
  frames := []

inductive Action where
  | call (op : DB.Op) (env : Env)
  | writeLine (ok : Bool)
  | start
  | receive
  | sync (delivered ok : Bool)
  | finish
  | register (addr : String)
  | heartbeat (ok : Bool)
  | copy (ok : Bool)
  | syncCopy (delivered : Bool)
  | remove (addr : String)

variable (buildKey : String → UInt64 → UInt64)

-- whatever the operation queues for the file and sends as an event belongs to the same write
def call (s : Leader) (op : DB.Op) (env : Env) : Leader :=
  let db := (s.db.call buildKey env op).2
  { s with
    db := db
    calls := s.calls + 1
    queue := s.queue ++ (db.aof.drop s.db.aof.length).map fun entry => (s.calls, entry)
    rx := s.rx ++ ((db.events.getD []).drop (s.db.events.getD []).length).map fun entry =>
      (s.calls, entry) }

-- the result of the write to the file is not looked at
def writeLine (s : Leader) (ok : Bool) : Option Leader :=
  match s.queue, ok with
  | e :: queue, true => some { s with queue := queue, file := s.file ++ [e] }
  | _ :: queue, false => some { s with queue := queue }
  | [], _ => none

def start (s : Leader) : Option Leader :=
  match s.pc with
  | .idle => some { s with pc := .receiving }
  | _ => none

def receive (s : Leader) : Option Leader :=
  match s.pc, s.rx with
  | .receiving, e :: rx =>
    match s.ha.push e with
    | (none, ha) => some { s with rx := rx, ha := ha, pc := .idle }
    | (some events, ha) => some { s with rx := rx, ha := ha, pc := .flushing events ha.followers }
  | _, _ => none

-- A frame may reach the follower without an answer coming back.
def sync (s : Leader) (delivered ok : Bool) : Option Leader :=
  match s.pc with
  | .flushing events (follower :: followers) =>
    if ok && !delivered then
      none
    else
      some
        { s with
          frames := if delivered then s.frames ++ [(follower, events)] else s.frames
          pc := if ok then .flushing events followers else .idle }
  | _ => none

def finish (s : Leader) : Option Leader :=
  match s.pc with
  | .flushing _ [] => some { s with pc := .idle }
  | _ => none

def register (s : Leader) (addr : String) : Option Leader :=
  match s.pc with
  | .idle => some { s with pc := .heartbeating addr }
  | _ => none

def heartbeat (s : Leader) (ok : Bool) : Option Leader :=
  match s.pc, ok with
  | .heartbeating addr, true =>
    some
      { s with
        ha := { s.ha with followers := s.ha.followers ++ [addr] }
        pc := .copying addr }
  | .heartbeating _, false => some { s with pc := .idle }
  | _, _ => none

-- an empty copy is not sent
def copy (s : Leader) (ok : Bool) : Option Leader :=
  match s.pc, ok with
  | .copying addr, true =>
    some { s with pc := if s.file.isEmpty then .idle else .syncing addr s.file }
  | .copying _, false => some { s with pc := .idle }
  | _, _ => none

def syncCopy (s : Leader) (delivered : Bool) : Option Leader :=
  match s.pc with
  | .syncing addr copy =>
    some
      { s with
        frames := if delivered then s.frames ++ [(addr, copy)] else s.frames
        pc := .idle }
  | _ => none

def remove (s : Leader) (addr : String) : Leader :=
  { s with ha := s.ha.remove addr }

def step (s : Leader) : Action → Option Leader
  | .call op env => some (s.call buildKey op env)
  | .writeLine ok => s.writeLine ok
  | .start => s.start
  | .receive => s.receive
  | .sync delivered ok => s.sync delivered ok
  | .finish => s.finish
  | .register addr => s.register addr
  | .heartbeat ok => s.heartbeat ok
  | .copy ok => s.copy ok
  | .syncCopy delivered => s.syncCopy delivered
  | .remove addr => some (s.remove addr)

def delivered (s : Leader) (addr : String) : List Write :=
  (s.frames.filter fun frame => frame.1 = addr).flatMap Prod.snd

end Leader
end MemStream
