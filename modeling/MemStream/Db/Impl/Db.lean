import MemStream.Db.Impl.Aof
import MemStream.Db.Impl.Groups
import MemStream.Db.Impl.Kv
import MemStream.Db.Impl.SegList

/-!
This module contains the database of `db.rs`: the three stores, the operations that log themselves to the
append-only file and to the followers, and the two functions that apply logged entries again. `aof` is
what was queued for the file in this order and `events` what was sent to the followers, if there is
someone to send it to.

`Env` has whatever a call may ask its environment for: the clocks, the order of the keys of a hash map
and the allocator.
-/

namespace MemStream

structure Env where
  clock : KvClock
  order : Assoc.Order String
  alloc : Nat → Bool
  instant : Nat → Nat

inductive DBError where
  | logCreateGroupError (e : GroupError)
  | logDropGroupError (e : GroupError)
  | logAppendError (e : GroupError)
  | logAppendRangeError (e : GroupError)
  | logReadError (e : GroupError)
  | logReadRangeError (e : GroupError)
  | logRemoveError (e : GroupError)
  | logGroupStatsError (e : GroupError)
  | kvSetError (e : String)
  | kvGetError (e : String)
  | kvDelError (e : String)
  | kvKeysError (e : String)
  | kvFlushError (e : String)
  | listPushError (e : ListError)
  | listPushRangeError (e : ListError)
  | listPopError (e : ListError)
  | listPopRangeError (e : ListError)
  | listPopCountError (e : ListError)
  | listLenError (e : ListError)
  | listFlushError (e : ListError)
  deriving DecidableEq

structure Stores where
  kvStore : KvStore
  list : SegList
  groupManager : GroupManager

structure DB extends Stores where
  aof : List AofEntry
  events : Option (List AofEntry)

variable (buildKey : String → UInt64 → UInt64)

namespace Stores

def new (alloc : Bool) : Outcome ListError Stores :=
  (SegList.new alloc).map fun list => ⟨KvStore.new, list, GroupManager.new⟩

def addRangeEnv (env : Env) (i : Nat) : Bool × Nat :=
  (env.alloc i, env.instant i)

end Stores

def discard {α ε : Type} (res : Outcome ε α) : Outcome DBError Unit :=
  match res with
  | .panic => .panic
  | _ => .ok ()

def applyAof (s : Stores) (env : Env) : AofEntry → Outcome DBError Unit × Stores
  | .kvSet db key val ttl =>
    let res := s.kvStore.set env.clock env.order db key val ttl
    (discard res.1, { s with kvStore := res.2 })
  | .kvDel db key =>
    let res := s.kvStore.del db key
    (discard res.1, { s with kvStore := res.2 })
  | .kvFlush db =>
    let res := s.kvStore.flush db
    (discard res.1, { s with kvStore := res.2 })
  | .logCreateGroup name =>
    let res := s.groupManager.createGroup env.alloc name
    (discard res.1, { s with groupManager := res.2 })
  | .logDropGroup name =>
    let res := s.groupManager.dropGroup name
    (discard res.1, { s with groupManager := res.2 })
  | .logAdd group timestamp payload =>
    let res := s.groupManager.add buildKey (env.alloc 0) (env.instant 0) group timestamp payload
    (discard res.1, { s with groupManager := res.2 })
  | .logAddRange group entries =>
    let res := s.groupManager.addRange buildKey (Stores.addRangeEnv env) group entries
    (discard res.1, { s with groupManager := res.2 })
  | .logRemove group upToId =>
    let res := s.groupManager.remove buildKey group upToId
    (discard res.1, { s with groupManager := res.2 })
  | .listPush key payload =>
    let res := s.list.push (env.alloc 0) key payload
    (discard res.1, { s with list := res.2 })
  | .listPushRange key items =>
    let res := s.list.pushRange env.alloc key items
    (discard res.1, { s with list := res.2 })
  | .listPop key =>
    let res := s.list.pop key
    (discard res.1, { s with list := res.2 })
  | .listPopRange key start stop =>
    let res := s.list.popRange key start stop
    (discard res.1, { s with list := res.2 })
  | .listPopCount key count =>
    let res := s.list.popCount key count
    (discard res.1, { s with list := res.2 })
  | .listFlush key =>
    let res := s.list.flush key
    (discard res.1, { s with list := res.2 })

def applyAll (s : Stores) : List (AofEntry × Env) → Outcome DBError Unit × Stores
  | [] => (.ok (), s)
  | (entry, env) :: entries =>
    match applyAof buildKey s env entry with
    | (.ok (), s) => applyAll s entries
    | res => res

structure Schedule (file : List AofEntry) where
  entries : List (AofEntry × Env)
  interleaves : (loadAofSeparated file).Interleaves (entries.map Prod.fst)

namespace DB

def loadAndApply (db : DB) {file : List AofEntry} (schedule : Schedule file)
    : Outcome DBError Unit × DB :=
  let res := applyAll buildKey db.toStores schedule.entries
  (res.1, { db with toStores := res.2 })

-- The functions of the lists and the groups are `async`. Their futures are dropped here without having
-- been awaited, only the functions of the key-value store run.
def applyAofEntry (db : DB) (env : Env) : AofEntry → DB
  | .kvSet d key val ttl =>
    { db with kvStore := (db.kvStore.set env.clock env.order d key val ttl).2 }
  | .kvDel d key => { db with kvStore := (db.kvStore.del d key).2 }
  | .kvFlush d => { db with kvStore := (db.kvStore.flush d).2 }
  | .logCreateGroup name =>
    let fut : Future GroupManager _ := fun gm => gm.createGroup env.alloc name
    { db with groupManager := fut.drop db.groupManager }
  | .logDropGroup name =>
    let fut : Future GroupManager _ := fun gm => gm.dropGroup name
    { db with groupManager := fut.drop db.groupManager }
  | .logAdd group timestamp payload =>
    let fut : Future GroupManager _ := fun gm =>
      gm.add buildKey (env.alloc 0) (env.instant 0) group timestamp payload
    { db with groupManager := fut.drop db.groupManager }
  | .logAddRange group entries =>
    let fut : Future GroupManager _ := fun gm =>
      gm.addRange buildKey (Stores.addRangeEnv env) group entries
    { db with groupManager := fut.drop db.groupManager }
  | .logRemove group upToId =>
    let fut : Future GroupManager _ := fun gm => gm.remove buildKey group upToId
    { db with groupManager := fut.drop db.groupManager }
  | .listPush key payload =>
    let fut : Future SegList _ := fun list => list.push (env.alloc 0) key payload
    { db with list := fut.drop db.list }
  | .listPushRange key items =>
    let fut : Future SegList _ := fun list => list.pushRange env.alloc key items
    { db with list := fut.drop db.list }
  | .listPop key =>
    let fut : Future SegList _ := fun list => list.pop key
    { db with list := fut.drop db.list }
  | .listPopRange key start stop =>
    let fut : Future SegList _ := fun list => list.popRange key start stop
    { db with list := fut.drop db.list }
  | .listPopCount key count =>
    let fut : Future SegList _ := fun list => list.popCount key count
    { db with list := fut.drop db.list }
  | .listFlush key =>
    let fut : Future SegList _ := fun list => list.flush key
    { db with list := fut.drop db.list }

def applyAof (db : DB) (entries : List (AofEntry × Env)) : Outcome DBError Unit × DB :=
  (.ok (), entries.foldl (fun db e => db.applyAofEntry buildKey e.2 e.1) db)

def new (alloc : Bool) (events : Option (List AofEntry)) : Outcome ListError DB :=
  (Stores.new alloc).map fun s => ⟨s, [], events⟩

def write (db : DB) (entry : AofEntry) : DB :=
  { db with aof := db.aof ++ [entry] }

def send (db : DB) (entry : AofEntry) : DB :=
  { db with events := db.events.map (· ++ [entry]) }

def log {ε α : Type} (db : DB) (res : Outcome ε α) (mapErr : ε → DBError) (entry : AofEntry)
    : Outcome DBError α × DB :=
  (res.mapErr mapErr, if res.isOk then (db.write entry).send entry else db)

def kvSet (db : DB) (env : Env) (d key : String) (val : List UInt8) (ttl : Int64)
    : Outcome DBError Unit × DB :=
  let res := db.kvStore.set env.clock env.order d key val ttl
  { db with kvStore := res.2 }.log res.1 .kvSetError (.kvSet d key val ttl)

def kvGet (db : DB) (env : Env) (d key : String) : Outcome DBError (Option DBEntry) × DB :=
  let res := db.kvStore.get env.clock d key
  (res.1.mapErr .kvGetError, { db with kvStore := res.2 })

def kvDel (db : DB) (d key : String) : Outcome DBError Unit × DB :=
  let res := db.kvStore.del d key
  { db with kvStore := res.2 }.log res.1 .kvDelError (.kvDel d key)

def kvKeys (db : DB) (env : Env) (d : String) : Outcome DBError (List String) × DB :=
  ((db.kvStore.keys env.order d).mapErr .kvKeysError, db)

-- the entry goes to the followers but not to the file
def kvFlush (db : DB) (d : String) : Outcome DBError Unit × DB :=
  let res := db.kvStore.flush d
  let db := { db with kvStore := res.2 }
  (res.1.mapErr .kvFlushError, if res.1.isOk then db.send (.kvFlush d) else db)

def logCreateGroup (db : DB) (env : Env) (name : String) : Outcome DBError Unit × DB :=
  let res := db.groupManager.createGroup env.alloc name
  { db with groupManager := res.2 }.log res.1 .logCreateGroupError (.logCreateGroup name)

def logDropGroup (db : DB) (name : String) : Outcome DBError Unit × DB :=
  let res := db.groupManager.dropGroup name
  { db with groupManager := res.2 }.log res.1 .logDropGroupError (.logDropGroup name)

def logAdd (db : DB) (env : Env) (group : String) (timestamp : UInt64) (payload : List UInt8)
    : Outcome DBError UInt64 × DB :=
  let res := db.groupManager.add buildKey (env.alloc 0) (env.instant 0) group timestamp payload
  { db with groupManager := res.2 }.log res.1 .logAppendError (.logAdd group timestamp payload)

def logAddRange (db : DB) (env : Env) (group : String) (entries : List (UInt64 × List UInt8))
    : Outcome DBError (UInt64 × UInt64) × DB :=
  let res := db.groupManager.addRange buildKey (Stores.addRangeEnv env) group entries
  { db with groupManager := res.2 }.log res.1 .logAppendRangeError (.logAddRange group entries)

def logRead (db : DB) (env : Env) (group : String) (id : UInt64)
    : Outcome DBError (UInt64 × UInt64 × List UInt8) × DB :=
  let res := db.groupManager.read buildKey (env.instant 0) group id
  (res.1.mapErr .logReadError, { db with groupManager := res.2 })

def logReadRange (db : DB) (env : Env) (group : String) (start stop : UInt64)
    : Outcome DBError (List (UInt64 × UInt64 × List UInt8)) × DB :=
  let res := db.groupManager.readRange buildKey env.instant group start stop
  (res.1.mapErr .logReadRangeError, { db with groupManager := res.2 })

def logRemove (db : DB) (group : String) (upToId : UInt64) : Outcome DBError Unit × DB :=
  let res := db.groupManager.remove buildKey group upToId
  { db with groupManager := res.2 }.log res.1 .logRemoveError (.logRemove group upToId)

def logListGroups (db : DB) (env : Env) : Outcome DBError (List String) × DB :=
  (.ok (db.groupManager.listGroups env.order), db)

def logGroupStats (db : DB) (group : String) : Outcome DBError GroupStats × DB :=
  ((db.groupManager.groupStats group).mapErr .logGroupStatsError, db)

def listPush (db : DB) (env : Env) (key : String) (payload : List UInt8)
    : Outcome DBError Unit × DB :=
  let res := db.list.push (env.alloc 0) key payload
  { db with list := res.2 }.log res.1 .listPushError (.listPush key payload)

def listPushRange (db : DB) (env : Env) (key : String) (items : List (List UInt8))
    : Outcome DBError Unit × DB :=
  let res := db.list.pushRange env.alloc key items
  { db with list := res.2 }.log res.1 .listPushRangeError (.listPushRange key items)

def listPop (db : DB) (key : String) : Outcome DBError (List UInt8) × DB :=
  let res := db.list.pop key
  { db with list := res.2 }.log res.1 .listPopError (.listPop key)

def listPopRange (db : DB) (key : String) (start stop : Nat)
    : Outcome DBError (List (List UInt8)) × DB :=
  let res := db.list.popRange key start stop
  { db with list := res.2 }.log res.1 .listPopRangeError (.listPopRange key start stop)

def listPopCount (db : DB) (key : String) (count : Nat)
    : Outcome DBError (List (List UInt8)) × DB :=
  let res := db.list.popCount key count
  { db with list := res.2 }.log res.1 .listPopCountError (.listPopCount key count)

def listLen (db : DB) (key : String) : Outcome DBError Nat × DB :=
  let res := db.list.len key
  (res.1.mapErr .listLenError, { db with list := res.2 })

def listFlush (db : DB) (key : String) : Outcome DBError Unit × DB :=
  let res := db.list.flush key
  { db with list := res.2 }.log res.1 .listFlushError (.listFlush key)

end DB
end MemStream
