import MemStream.Lib.Assoc
import MemStream.Lib.Outcome

/-!
This module contains the key-value store of `kv.rs`: named databases of entries that may expire, with an
eviction of little used entries once a database has grown to 1024 of them.

The readings of the wall clock, in milliseconds, and the order in which the hash map of a database gives
its keys are arguments of the functions that depend on them.
-/

namespace MemStream

structure DBEntry where
  val : List UInt8
  ttl : Int64
  usedCount : UInt64
  lastUsed : Int64
  deriving DecidableEq

structure KvDb where
  id : String
  entries : AList fun _ : String => DBEntry

structure KvStore where
  dbs : AList fun _ : String => KvDb

structure KvClock where
  expiryNow : Int64
  useNow : Int64

namespace KvDb

def new (id : String) : KvDb where
  id := id
  entries := ∅

def set (db : KvDb) (key : String) (entry : DBEntry) : KvDb :=
  { db with entries := db.entries.insert key entry }

def get (db : KvDb) (clock : KvClock) (key : String) : Option DBEntry × KvDb :=
  match db.entries.lookup key with
  | none => (none, db)
  | some entry =>
    if entry.ttl ≠ 0 ∧ entry.ttl < clock.expiryNow then
      (none, { db with entries := db.entries.erase key })
    else
      let entry := { entry with usedCount := entry.usedCount + 1, lastUsed := clock.useNow }
      (some entry, { db with entries := db.entries.insert key entry })

def del (db : KvDb) (key : String) : Outcome String Unit × KvDb :=
  match db.entries.lookup key with
  | none => (.err (key ++ " not found"), db)
  | some _ => (.ok (), { db with entries := db.entries.erase key })

def keys (db : KvDb) (order : Assoc.Order String) : List String :=
  order.arrange db.entries.keys

def flush (db : KvDb) : KvDb :=
  { db with entries := ∅ }

def sampleSize (db : KvDb) : Nat :=
  min (max (db.entries.entries.length / 5) 16) db.entries.entries.length

def candidates (db : KvDb) (order : Assoc.Order String) : List (String × UInt64 × Int64) :=
  ((order.arrange db.entries.keys).take db.sampleSize).filterMap fun key =>
    (db.entries.lookup key).map fun entry => (key, entry.usedCount, entry.lastUsed)

def lessUsed (a b : String × UInt64 × Int64) : Bool :=
  a.2.1 < b.2.1 || (a.2.1 == b.2.1 && a.2.2 ≤ b.2.2)

def expireLeastUsed (db : KvDb) (order : Assoc.Order String) : KvDb :=
  if db.sampleSize = 0 then
    db
  else
    let removed := ((db.candidates order).mergeSort lessUsed).take (max (db.sampleSize / 4) 1)
    { db with entries := removed.foldl (fun entries c => entries.erase c.1) db.entries }

end KvDb

namespace KvStore

def new : KvStore where
  dbs := ∅

-- `get_db_mut` makes a database that does not exist, so all functions that use it write it back
def getDb (store : KvStore) (db : String) : KvDb :=
  (store.dbs.lookup db).getD (KvDb.new db)

def putDb (store : KvStore) (db : String) (d : KvDb) : KvStore where
  dbs := store.dbs.insert db d

def set (store : KvStore) (clock : KvClock) (order : Assoc.Order String) (db key : String)
    (val : List UInt8) (ttl : Int64)
    : Outcome String Unit × KvStore :=
  let ttlTs := if ttl = 0 then 0 else clock.expiryNow + ttl
  let d := store.getDb db
  let d := if d.entries.entries.length ≥ 1024 then d.expireLeastUsed order else d
  (.ok (), store.putDb db (d.set key ⟨val, ttlTs, 0, clock.useNow⟩))

def get (store : KvStore) (clock : KvClock) (db key : String)
    : Outcome String (Option DBEntry) × KvStore :=
  let res := (store.getDb db).get clock key
  (.ok res.1, store.putDb db res.2)

def del (store : KvStore) (db key : String) : Outcome String Unit × KvStore :=
  let res := (store.getDb db).del key
  (res.1, store.putDb db res.2)

def keys (store : KvStore) (order : Assoc.Order String) (db : String)
    : Outcome String (List String) :=
  match store.dbs.lookup db with
  | none => .ok []
  | some d => .ok (d.keys order)

def flush (store : KvStore) (db : String) : Outcome String Unit × KvStore :=
  (.ok (), store.putDb db (store.getDb db).flush)

def createDb (store : KvStore) (id : String) : Outcome String Unit × KvStore :=
  match store.dbs.lookup id with
  | some _ => (.err ("database " ++ id ++ " already exists"), store)
  | none => (.ok (), store.putDb id (KvDb.new id))

end KvStore
end MemStream
