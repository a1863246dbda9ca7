import Mathlib.Data.List.AList

/-!
This module contains the task that `heartbeat_followers` of `ha.rs` starts. In every round it takes the
list of the followers as it is then and sends a heartbeat to one after the other; the outcome of each is
given with the round. Addresses are registered between two rounds, since the task has taken the list by
then.
-/

namespace MemStream

structure HeartbeatTask where
  followers : List String
  followerTimeout : AList fun _ : String => UInt8
  running : Bool

namespace HeartbeatTask

def new (followers : List String) : HeartbeatTask where
  followers := followers
  followerTimeout := ∅
  running := true

-- `map.entry(addr).or_insert(0)`
def count (task : HeartbeatTask) (addr : String) : UInt8 :=
  (task.followerTimeout.lookup addr).getD 0

def miss (task : HeartbeatTask) (addr : String) : HeartbeatTask :=
  if task.count addr ≥ 3 then
    { task with
      followers := task.followers.filter (· ≠ addr)
      followerTimeout := task.followerTimeout.erase addr }
  else
    { task with followerTimeout := task.followerTimeout.insert addr (task.count addr + 1) }

-- the `return` of an answer is the one of the task
def heartbeatEach (ok : String → Bool) : List String → HeartbeatTask → HeartbeatTask
  | [], task => task
  | addr :: followers, task =>
    if ok addr then { task with running := false }
    else heartbeatEach ok followers (task.miss addr)

def round (task : HeartbeatTask) (ok : String → Bool) : HeartbeatTask :=
  if task.running then
    if task.followers.isEmpty then task
    else heartbeatEach ok task.followers task
  else
    task

def register (task : HeartbeatTask) (addr : String) : HeartbeatTask :=
  { task with followers := task.followers ++ [addr] }

inductive Event where
  | round (ok : String → Bool)
  | register (addr : String)

def step (task : HeartbeatTask) : Event → HeartbeatTask
  | .round ok => task.round ok
  | .register addr => task.register addr

def after (task : HeartbeatTask) (events : List Event) : HeartbeatTask :=
  events.foldl step task

end HeartbeatTask
end MemStream
