import MemStream.Db.Impl.Call
import MemStream.Db.Impl.Startup

/-!
This module contains a database of `db.rs` with its file, over any number of starts. Operations queue their
entries for the task of `aof_worker`, which takes them one by one and appends a line for each. A crash ends
the process at any moment: what was not yet written is gone, of the file the first `kept` bytes are left,
and `DB::new` starts again from them. A process that is stopped is one that crashes with nothing to lose.
-/

namespace MemStream

structure Node where
  db : DB
  file : List UInt8
  -- how many of the entries that were queued since the start are written
  written : Nat

namespace Node

inductive Action where
  | call (op : DB.Op) (env : Env)
  | writeLine
  | crash (kept : Nat) (schedule : List (AofEntry × Env))

variable (buildKey : String → UInt64 → UInt64) (toStr : AofEntry → String)
  (fromStr : String → Option AofEntry)

def new (db : DB) : Node where
  db := db
  file := []
  written := 0

def call (node : Node) (op : DB.Op) (env : Env) : Node :=
  { node with db := (node.db.call buildKey env op).2 }

def writeLine (node : Node) : Option Node :=
  match node.db.aof[node.written]? with
  | some entry =>
    some
      { node with
        file := AofFile.aofWorker toStr (some node.file) [entry]
        written := node.written + 1 }
  | none => none

def crash (node : Node) (kept : Nat) (schedule : List (AofEntry × Env)) : Option Node :=
  let file := node.file.take kept
  let events := node.db.events.map fun _ => []
  match DB.startUp buildKey fromStr true events (some file) schedule with
  | .ok db => some { db := db, file := file, written := 0 }
  | _ => none

def step (node : Node) : Action → Option Node
  | .call op env => some (node.call buildKey op env)
  | .writeLine => node.writeLine toStr
  | .crash kept schedule => node.crash buildKey fromStr kept schedule

end Node
end MemStream
