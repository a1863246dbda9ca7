import MemStream.Server.Impl.Main

/-!
This module contains a leader and a follower that registers with it. The follower has one connection to the
leader, on which it sends its `HA_REGISTER` and waits for the answer. The frame is read by the task of this
connection at some time after it was sent. The answer may be that the connection is broken.

The follower binds the address that it has registered. Until then the address is free, or another process
accepts connections on it.
-/

namespace MemStream

structure Registration where
  leader : Process
  follower : Process
  -- the `HA_REGISTER` has been sent and not been read
  request : Bool
  -- another process has the address of the follower
  occupied : Bool

namespace Registration

def new (leader follower : Process) (occupied : Bool) : Registration where
  leader := leader
  follower := follower
  request := false
  occupied := occupied

inductive Action where
  | leader (a : Process.Action)
  | follower (a : Process.Action)
  | read
  | occupy (taken : Bool)

variable (buildKey : String → UInt64 → UInt64) (client : Nat) (addr : String)

def reachable (s : Registration) : Bool :=
  s.follower.main = .serving ∨ s.occupied

-- The requests that come on the connection of the follower are its own, and a heartbeat to its address does
-- not succeed unless somebody is there.
def leaderMay (s : Registration) : Process.Action → Bool
  | .ask (.register client' _) | .ask (.heartbeat client') => client' ≠ client
  | .heartbeat true =>
    match s.leader.core.pc with
    | .heartbeating addr' => addr' ≠ addr ∨ s.reachable
    | _ => true
  | _ => true

def followerMay (s : Registration) : Process.Action → Bool
  | .connect true => s.leader.main = .serving
  | .answer true => (client, true) ∈ s.leader.answers
  | .bind true => ¬s.occupied
  | _ => true

def sends : Process.Action → Bool
  | .connect true => true
  | _ => false

def step (s : Registration) : Action → Option Registration
  | .leader a =>
    if s.leaderMay client addr a then
      (s.leader.step buildKey a).map fun leader => { s with leader := leader }
    else
      none
  | .follower a =>
    if s.followerMay client a then
      (s.follower.step buildKey a).map fun follower =>
        { s with follower := follower, request := s.request || sends a }
    else
      none
  | .read =>
    if s.request then
      (s.leader.step buildKey (.ask (.register client addr))).map fun leader =>
        { s with leader := leader, request := false }
    else
      none
  | .occupy taken => some { s with occupied := taken }

end Registration
end MemStream
