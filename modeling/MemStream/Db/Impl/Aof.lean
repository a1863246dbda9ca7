import Mathlib.Data.List.Basic

/-!
This module contains the entries of the append-only file of `aof.rs` and how they are separated by the
store they belong to when the file is loaded. The file is the list of its entries: its lines are the
JSON texts of entries and are read back as these.
-/

namespace MemStream

inductive AofEntry where
  | kvSet (db key : String) (val : List UInt8) (ttl : Int64)
  | kvDel (db key : String)
  | kvFlush (db : String)
  | logCreateGroup (name : String)
  | logDropGroup (name : String)
  | logAdd (group : String) (timestamp : UInt64) (payload : List UInt8)
  | logAddRange (group : String) (entries : List (UInt64 × List UInt8))
  | logRemove (group : String) (upToId : UInt64)
  | listPush (key : String) (payload : List UInt8)
  | listPushRange (key : String) (items : List (List UInt8))
  | listPop (key : String)
  | listPopRange (key : String) (start stop : Nat)
  | listPopCount (key : String) (count : Nat)
  | listFlush (key : String)
  deriving DecidableEq

inductive EntryCategory where
  | kv
  | log
  | list
  deriving DecidableEq

def AofEntry.category : AofEntry → EntryCategory
  | .kvSet .. | .kvDel .. | .kvFlush .. => .kv
  | .logCreateGroup .. | .logDropGroup .. | .logAdd .. | .logAddRange .. | .logRemove .. => .log
  | .listPush .. | .listPushRange .. | .listPop .. | .listPopRange .. | .listPopCount ..
  | .listFlush .. => .list

structure AofEntries where
  kvEntries : List AofEntry
  listEntries : List AofEntry
  logEntries : List AofEntry

namespace AofEntries

def empty : AofEntries where
  kvEntries := []
  listEntries := []
  logEntries := []

def push (entries : AofEntries) (entry : AofEntry) : AofEntries :=
  match entry.category with
  | .kv => { entries with kvEntries := entries.kvEntries ++ [entry] }
  | .log => { entries with logEntries := entries.logEntries ++ [entry] }
  | .list => { entries with listEntries := entries.listEntries ++ [entry] }

end AofEntries

-- three tasks apply the entries of one store each, side by side but each in the order of the file
structure AofEntries.Interleaves (entries : AofEntries) (schedule : List AofEntry) : Prop where
  kv : schedule.filter (·.category = .kv) = entries.kvEntries
  list : schedule.filter (·.category = .list) = entries.listEntries
  log : schedule.filter (·.category = .log) = entries.logEntries

def loadAofSeparated (file : List AofEntry) : AofEntries :=
  file.foldl AofEntries.push AofEntries.empty

end MemStream
