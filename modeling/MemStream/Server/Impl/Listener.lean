import MemStream.Server.Impl.Codec
import MemStream.Server.Impl.Handler

/-!
This module contains the loop of `Server::start`, which accepts connections, and the tasks that it spawns for
them. A step is what one task does between two points at which others can come in between: it calls the
decoder, reads from its socket, handles a command while it has the lock of the database, or writes to its
socket.
-/

namespace MemStream

inductive ConnectionPc where
  | decoding
  -- the decoder has asked for more bytes
  | reading
  | handling (frame : List UInt8)
  | sending (rest : List UInt8)
  | closed
  deriving DecidableEq

-- `received` and `written` are all the bytes that have come and gone
structure ConnectionTask where
  received : List UInt8
  buffer : List UInt8
  eof : Bool
  pc : ConnectionPc
  written : List UInt8
  deriving DecidableEq

namespace ConnectionTask

open LengthPrefixCodec

def new : ConnectionTask where
  received := []
  buffer := []
  eof := false
  pc := .reading
  written := []

def decode (task : ConnectionTask) : Option ConnectionTask :=
  match task.pc with
  | .decoding =>
    match LengthPrefixCodec.decode task.buffer with
    | (.ok (some frame), buffer) => some { task with buffer := buffer, pc := .handling frame }
    | (.ok none, buffer) =>
      -- behind the end of the stream there is nothing to ask for
      some { task with buffer := buffer, pc := if task.eof then .closed else .reading }
    | (.error _, buffer) => some { task with buffer := buffer, pc := .closed }
  | _ => none

-- reading no bytes is the end of the stream
def read (task : ConnectionTask) (chunk : List UInt8) : Option ConnectionTask :=
  match task.pc with
  | .reading =>
    some
      { task with
        received := task.received ++ chunk
        buffer := task.buffer ++ chunk
        eof := chunk.isEmpty
        pc := .decoding }
  | _ => none

def answer (task : ConnectionTask) : Server.Response → ConnectionTask
  | .ok resp => { task with pc := .sending (encode resp []) }
  | .err e => nomatch e
  | .panic => { task with pc := .closed }

def write (task : ConnectionTask) (n : Nat) : Option ConnectionTask :=
  match task.pc with
  | .sending rest =>
    some
      { task with
        written := task.written ++ rest.take n
        pc := if (rest.drop n).isEmpty then .decoding else .sending (rest.drop n) }
  | _ => none

def fail (task : ConnectionTask) : Option ConnectionTask :=
  match task.pc with
  | .reading | .sending _ => some { task with pc := .closed }
  | _ => none

end ConnectionTask

structure Listener where
  db : DB
  tasks : List ConnectionTask

namespace Listener

inductive Action where
  | accept
  | decode (i : Nat)
  | read (i : Nat) (chunk : List UInt8)
  | handle (i : Nat) (senv : ServerEnv)
  | write (i : Nat) (n : Nat)
  | fail (i : Nat)

variable (buildKey : String → UInt64 → UInt64) (fromSlice : List UInt8 → Except String AofEntry)

def new (db : DB) : Listener where
  db := db
  tasks := []

def accept (l : Listener) : Listener :=
  { l with tasks := l.tasks ++ [.new] }

def withTask (l : Listener) (i : Nat) (f : ConnectionTask → Option ConnectionTask) : Option Listener :=
  match l.tasks[i]? with
  | some task => (f task).map fun task => { l with tasks := l.tasks.set i task }
  | none => none

def handling (l : Listener) (i : Nat) : Option (List UInt8) :=
  match l.tasks[i]? with
  | some { pc := .handling frame, .. } => some frame
  | _ => none

def handle (l : Listener) (i : Nat) (senv : ServerEnv) : Option Listener :=
  match l.tasks[i]?, l.handling i with
  | some task, some frame =>
    let res := Server.handleFrame buildKey fromSlice l.db senv frame
    some { l with db := res.2, tasks := l.tasks.set i (task.answer res.1) }
  | _, _ => none

def step (l : Listener) : Action → Option Listener
  | .accept => some l.accept
  | .decode i => l.withTask i (·.decode)
  | .read i chunk => l.withTask i (·.read chunk)
  | .handle i senv => l.handle buildKey fromSlice i senv
  | .write i n => l.withTask i (·.write n)
  | .fail i => l.withTask i (·.fail)

end Listener
end MemStream
