import MemStream.Db.Impl.Db

namespace MemStream
namespace DB

inductive Op where
  | kvSet (db key : String) (val : List UInt8) (ttl : Int64)
  | kvGet (db key : String)
  | kvDel (db key : String)
  | kvKeys (db : String)
  | kvFlush (db : String)
  | logCreateGroup (name : String)
  | logDropGroup (name : String)
  | logAdd (group : String) (timestamp : UInt64) (payload : List UInt8)
  | logAddRange (group : String) (entries : List (UInt64 × List UInt8))
  | logRead (group : String) (id : UInt64)
  | logReadRange (group : String) (start stop : UInt64)
  | logRemove (group : String) (upToId : UInt64)
  | logListGroups
  | logGroupStats (group : String)
  | listPush (key : String) (payload : List UInt8)
  | listPushRange (key : String) (items : List (List UInt8))
  | listPop (key : String)
  | listPopRange (key : String) (start stop : Nat)
  | listPopCount (key : String) (count : Nat)
  | listLen (key : String)
  | listFlush (key : String)

def outcome {α : Type} (res : Outcome DBError α × DB) : Outcome DBError Unit × DB :=
  (res.1.map fun _ => (), res.2)

variable (buildKey : String → UInt64 → UInt64)

def call (db : DB) (env : Env) : Op → Outcome DBError Unit × DB
  | .kvSet d key val ttl => outcome (db.kvSet env d key val ttl)
  | .kvGet d key => outcome (db.kvGet env d key)
  | .kvDel d key => outcome (db.kvDel d key)
  | .kvKeys d => outcome (db.kvKeys env d)
  | .kvFlush d => outcome (db.kvFlush d)
  | .logCreateGroup name => outcome (db.logCreateGroup env name)
  | .logDropGroup name => outcome (db.logDropGroup name)
  | .logAdd group timestamp payload => outcome (db.logAdd buildKey env group timestamp payload)
  | .logAddRange group entries => outcome (db.logAddRange buildKey env group entries)
  | .logRead group id => outcome (db.logRead buildKey env group id)
  | .logReadRange group start stop => outcome (db.logReadRange buildKey env group start stop)
  | .logRemove group upToId => outcome (db.logRemove buildKey group upToId)
  | .logListGroups => outcome (db.logListGroups env)
  | .logGroupStats group => outcome (db.logGroupStats group)
  | .listPush key payload => outcome (db.listPush env key payload)
  | .listPushRange key items => outcome (db.listPushRange env key items)
  | .listPop key => outcome (db.listPop key)
  | .listPopRange key start stop => outcome (db.listPopRange key start stop)
  | .listPopCount key count => outcome (db.listPopCount key count)
  | .listLen key => outcome (db.listLen key)
  | .listFlush key => outcome (db.listFlush key)

end DB
end MemStream
