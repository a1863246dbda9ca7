import MemStream.Lib.Framing

/-!
This module contains the connection pool of `pool.rs` and the exchanges of `StreamClient::send_recv` on its
connections. A state has the connections with whoever owns them: the channel, the handles, the call of
`acquire` that has the lock of the receiver, and the tasks that replace a connection. A step is what one
of them, or the server at the other end of a connection, does between two points at which others can come
in between.

A connection is two streams of bytes: `sent` is what the client has written, `answers` what the server has
answered so far. Of the bytes of the answers the first `arrived` have reached the client, who has taken the
first `taken` of these.
-/

namespace MemStream

structure Connection where
  sent : List UInt8
  answers : List (List UInt8)
  arrived : Nat
  taken : Nat
  closed : Bool
  deriving DecidableEq

namespace Connection

def connect : Connection where
  sent := []
  answers := []
  arrived := 0
  taken := 0
  closed := false

def requests (c : Connection) : Framing.Reader :=
  Framing.Reader.new.read c.sent

def replies (c : Connection) : List UInt8 :=
  c.answers.flatMap Framing.frame

def unread (c : Connection) : List UInt8 :=
  (c.replies.take c.arrived).drop c.taken

def isAlive (c : Connection) : Bool :=
  !c.closed && c.unread.isEmpty

def write (c : Connection) (bytes : List UInt8) : Connection :=
  { c with sent := c.sent ++ bytes }

inductive ServerAction where
  | answer (resp : List UInt8)
  | deliver (n : Nat)
  | close

def serve (c : Connection) : ServerAction → Option Connection
  | .answer resp =>
    if c.closed = false ∧ c.answers.length < c.requests.frames.length ∧ resp.length < 4294967296 then
      some { c with answers := c.answers ++ [resp] }
    else
      none
  | .deliver n =>
    if c.arrived + n ≤ c.replies.length then some { c with arrived := c.arrived + n } else none
  | .close => some { c with closed := true }

end Connection

-- A call of `send_recv`: the frame, how much had been sent on the connection before, how many bytes of
-- the frame with its length are written, and the bytes of the answer that were read.
structure Call where
  frame : List UInt8
  start : Nat
  written : Nat
  got : List UInt8
  deriving DecidableEq

namespace Call

def bytes (call : Call) : List UInt8 :=
  Framing.frame call.frame

def missing (call : Call) : Nat :=
  if call.got.length < 4 then
    4 - call.got.length
  else
    4 + LittleEndian.decode (call.got.take 4) - call.got.length

end Call

structure PooledClient where
  client : Connection
  poisoned : Bool
  call : Option Call
  deriving DecidableEq

namespace PooledClient

def new (client : Connection) : PooledClient where
  client := client
  poisoned := false
  call := none

inductive Action where
  | start (frame : List UInt8)
  | write (n : Nat)
  | read (n : Nat)
  -- one of the `?` of `send_recv`
  | fail
  | poison

def step (handle : PooledClient) : Action → Option PooledClient
  | .start frame =>
    match handle.call with
    | none => some { handle with call := some ⟨frame, handle.client.sent.length, 0, []⟩ }
    | some _ => none
  | .write n =>
    match handle.call with
    | none => none
    | some call =>
      if call.written + n ≤ call.bytes.length then
        some
          { handle with
            client := handle.client.write ((call.bytes.drop call.written).take n)
            call := some { call with written := call.written + n } }
      else
        none
  | .read n =>
    match handle.call with
    | none => none
    | some call =>
      if call.written = call.bytes.length ∧ n ≤ call.missing then
        let bytes := handle.client.unread.take n
        some
          { handle with
            client := { handle.client with taken := handle.client.taken + bytes.length }
            call := some { call with got := call.got ++ bytes } }
      else
        none
  | .fail =>
    match handle.call with
    | none => none
    | some _ => some { handle with call := none }
  | .poison => some { handle with poisoned := true }

end PooledClient

inductive AcquirePc where
  -- `rx.try_recv()` or `rx.recv().await`
  | receiving (attempts : Nat)
  | examining (attempts : Nat) (client : Connection)
  -- `StreamClient::connect(&self.addr).await` behind the loop
  | connecting
  deriving DecidableEq

inductive Replacement where
  | connecting
  | sending (client : Connection)
  deriving DecidableEq

structure Exchange where
  client : Connection
  call : Call
  resp : List UInt8
  deriving DecidableEq

structure ClientPool where
  maxSize : Nat
  slots : List Connection
  acquiring : Option AcquirePc
  handles : List PooledClient
  replacing : List Replacement
  returned : List Exchange
  deriving DecidableEq

namespace ClientPool

def new (size : Nat) : ClientPool where
  maxSize := size
  slots := List.replicate size Connection.connect
  acquiring := none
  handles := []
  replacing := []
  returned := []

inductive Place where
  | slot (i : Nat)
  | handle (i : Nat)
  | examined
  | replacement (i : Nat)

inductive Action where
  | lock
  | recv
  | examine
  | connect (ok : Bool)
  | cancel
  | call (i : Nat) (a : PooledClient.Action)
  | respond (i : Nat)
  | drop (i : Nat) (full : Bool)
  | release (i : Nat) (full : Bool)
  | discard (i : Nat)
  | reconnect (i : Nat) (ok : Bool)
  | send (i : Nat)
  | serve (place : Place) (a : Connection.ServerAction)

def spawnReplacement (pool : ClientPool) : ClientPool :=
  { pool with replacing := pool.replacing ++ [.connecting] }

def handOut (pool : ClientPool) (client : Connection) : ClientPool :=
  { pool with acquiring := none, handles := pool.handles ++ [.new client] }

def sending (pool : ClientPool) : Nat :=
  pool.replacing.countP fun
    | .sending _ => true
    | .connecting => false

-- The channel is also full for `try_send` if tasks that are sending have the last permits.
def trySend (pool : ClientPool) (client : Connection) (full : Bool) : Option ClientPool :=
  match full with
  | true => if pool.maxSize ≤ pool.slots.length + pool.sending then some pool else none
  | false =>
    if pool.slots.length < pool.maxSize then
      some { pool with slots := pool.slots ++ [client] }
    else
      none

def lock (pool : ClientPool) : Option ClientPool :=
  match pool.acquiring with
  | none => some { pool with acquiring := some (.receiving (pool.maxSize + 1)) }
  | some _ => none

def recv (pool : ClientPool) : Option ClientPool :=
  match pool.acquiring, pool.slots with
  | some (.receiving (attempts + 1)), client :: slots =>
    some { pool with slots := slots, acquiring := some (.examining attempts client) }
  | _, _ => none

def examine (pool : ClientPool) : Option ClientPool :=
  match pool.acquiring with
  | some (.examining attempts client) =>
    if client.isAlive then
      some (pool.handOut client)
    else
      let pc := if attempts = 0 then .connecting else .receiving attempts
      some { pool.spawnReplacement with acquiring := some pc }
  | _ => none

def connect (pool : ClientPool) (ok : Bool) : Option ClientPool :=
  match pool.acquiring, ok with
  | some .connecting, true => some (pool.handOut Connection.connect)
  | some .connecting, false => some { pool with acquiring := none }
  | _, _ => none

-- the future of `acquire` is dropped where it waits
def cancel (pool : ClientPool) : Option ClientPool :=
  match pool.acquiring with
  | some (.receiving _) | some .connecting => some { pool with acquiring := none }
  | _ => none

def call (pool : ClientPool) (i : Nat) (a : PooledClient.Action) : Option ClientPool :=
  match pool.handles[i]? with
  | none => none
  | some handle =>
    (handle.step a).map fun handle => { pool with handles := pool.handles.set i handle }

def respond (pool : ClientPool) (i : Nat) : Option ClientPool :=
  match pool.handles[i]? with
  | none => none
  | some handle =>
    match handle.call with
    | none => none
    | some call =>
      if call.written = call.bytes.length ∧ Framing.complete call.got then
        some
          { pool with
            handles := pool.handles.set i { handle with call := none }
            returned := pool.returned ++ [⟨handle.client, call, call.got.drop 4⟩] }
      else
        none

-- a handle can go out of scope at any time, also with a call that has not returned
def drop (pool : ClientPool) (i : Nat) (full : Bool) : Option ClientPool :=
  match pool.handles[i]? with
  | none => none
  | some handle =>
    let pool := { pool with handles := pool.handles.eraseIdx i }
    if handle.poisoned || !handle.client.isAlive then
      some pool.spawnReplacement
    else
      pool.trySend handle.client full

def release (pool : ClientPool) (i : Nat) (full : Bool) : Option ClientPool :=
  match pool.handles[i]? with
  | none => none
  | some handle =>
    let pool := { pool with handles := pool.handles.eraseIdx i }
    if handle.client.isAlive then
      pool.trySend handle.client full
    else
      some pool.spawnReplacement

def discard (pool : ClientPool) (i : Nat) : Option ClientPool :=
  match pool.handles[i]? with
  | none => none
  | some _ => some { pool with handles := pool.handles.eraseIdx i }.spawnReplacement

def reconnect (pool : ClientPool) (i : Nat) (ok : Bool) : Option ClientPool :=
  match pool.replacing[i]?, ok with
  | some .connecting, true =>
    some { pool with replacing := pool.replacing.set i (.sending Connection.connect) }
  | some .connecting, false => some { pool with replacing := pool.replacing.eraseIdx i }
  | _, _ => none

def send (pool : ClientPool) (i : Nat) : Option ClientPool :=
  match pool.replacing[i]? with
  | some (.sending client) =>
    if pool.slots.length < pool.maxSize then
      some
        { pool with
          slots := pool.slots ++ [client]
          replacing := pool.replacing.eraseIdx i }
    else
      none
  | _ => none

def serve (pool : ClientPool) (place : Place) (a : Connection.ServerAction) : Option ClientPool :=
  match place with
  | .slot i =>
    match pool.slots[i]? with
    | none => none
    | some c => (c.serve a).map fun c => { pool with slots := pool.slots.set i c }
  | .handle i =>
    match pool.handles[i]? with
    | none => none
    | some handle =>
      (handle.client.serve a).map fun c =>
        { pool with handles := pool.handles.set i { handle with client := c } }
  | .examined =>
    match pool.acquiring with
    | some (.examining attempts c) =>
      (c.serve a).map fun c => { pool with acquiring := some (.examining attempts c) }
    | _ => none
  | .replacement i =>
    match pool.replacing[i]? with
    | some (.sending c) =>
      (c.serve a).map fun c => { pool with replacing := pool.replacing.set i (.sending c) }
    | _ => none

def step (pool : ClientPool) : Action → Option ClientPool
  | .lock => pool.lock
  | .recv => pool.recv
  | .examine => pool.examine
  | .connect ok => pool.connect ok
  | .cancel => pool.cancel
  | .call i a => pool.call i a
  | .respond i => pool.respond i
  | .drop i full => pool.drop i full
  | .release i full => pool.release i full
  | .discard i => pool.discard i
  | .reconnect i ok => pool.reconnect i ok
  | .send i => pool.send i
  | .serve place a => pool.serve place a

end ClientPool
end MemStream
