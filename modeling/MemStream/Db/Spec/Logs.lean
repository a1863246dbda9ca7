import MemStream.Db.Impl.Groups
import MemStream.Db.Spec.Log

namespace MemStream

namespace LogSpec

def appendRest (log : LogSpec) (alloc : Nat → Bool) (lastId : UInt64)
    : List (UInt64 × List UInt8) → Outcome LogError UInt64 × LogSpec
  | [] => (.ok lastId, log)
  | (timestamp, payload) :: entries =>
    match log.append (alloc 0) timestamp payload with
    | (.ok id, log) => log.appendRest (fun i => alloc (i + 1)) id entries
    | res => res

def appendAll (log : LogSpec) (alloc : Nat → Bool) (timestamp : UInt64) (payload : List UInt8)
    (entries : List (UInt64 × List UInt8))
    : Outcome LogError (UInt64 × UInt64) × LogSpec :=
  match log.append (alloc 0) timestamp payload with
  | (.ok firstId, log) =>
    let res := log.appendRest (fun i => alloc (i + 1)) firstId entries
    (res.1.map (firstId, ·), res.2)
  | (.err e, log) => (.err e, log)
  | (.panic, log) => (.panic, log)

end LogSpec

abbrev Logs := String → Option LogSpec

namespace Logs

def empty : Logs :=
  fun _ => none

def set (logs : Logs) (name : String) (log : Option LogSpec) : Logs :=
  fun name' => if name' = name then log else logs name'

def createGroup (logs : Logs) (alloc : Nat → Bool) (name : String)
    : Outcome GroupError Unit × Logs :=
  match logs name with
  | some _ => (.err (.groupAlreadyExists name), logs)
  | none =>
    if (List.range SegLog.initialSegments).all alloc then
      (.ok (), logs.set name (some LogSpec.empty))
    else
      (.panic, logs)

def dropGroup (logs : Logs) (name : String) : Outcome GroupError Unit × Logs :=
  match logs name with
  | some _ => (.ok (), logs.set name none)
  | none => (.err (.groupNotFound name), logs)

def onLog {α : Type} (logs : Logs) (group : String) (f : LogSpec → Outcome LogError α × LogSpec)
    : Outcome GroupError α × Logs :=
  match logs group with
  | none => (.err (.groupNotFound group), logs)
  | some log => ((f log).1.mapErr .logError, logs.set group (some (f log).2))

def add (logs : Logs) (alloc : Bool) (group : String) (timestamp : UInt64) (payload : List UInt8)
    : Outcome GroupError UInt64 × Logs :=
  logs.onLog group fun log => log.append alloc timestamp payload

def addRange (logs : Logs) (alloc : Nat → Bool) (group : String)
    : List (UInt64 × List UInt8) → Outcome GroupError (UInt64 × UInt64) × Logs
  | [] => (.err (.logError .entryNotFound), logs)
  | (timestamp, payload) :: entries =>
    logs.onLog group fun log => log.appendAll alloc timestamp payload entries

def remove (logs : Logs) (group : String) (upToId : UInt64) : Outcome GroupError Unit × Logs :=
  logs.onLog group fun log => (.ok (), log.trim upToId)

end Logs
end MemStream
