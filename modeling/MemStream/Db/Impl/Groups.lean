import MemStream.Lib.Assoc
import MemStream.Db.Impl.Lru
import MemStream.Db.Impl.SegLog

/-!
This module contains the log groups of `groups.rs`: every group has a log of its own and a cache of the
entries that were added last.

`buildKey` stands for `build_key` of `lru.rs`, whose hash function is not specified. The answers of the
allocator and the readings of the clock are arguments of the functions that ask for them; the loops take
those of their `i`-th round from `i`.
-/

namespace MemStream

inductive GroupError where
  | groupNotFound (name : String)
  | groupAlreadyExists (name : String)
  | logError (e : LogError)
  deriving DecidableEq, Repr

structure GroupStats where
  totalEntries : Nat
  totalSegments : Nat
  nextId : UInt64
  deriving DecidableEq, Repr

structure Group where
  name : String
  log : SegLog
  lruCache : Lru UInt64 LogEntry

structure GroupManager where
  groups : AList fun _ : String => Group

namespace Group

def cacheCap : Nat := 100000
def cacheTtl : Nat := 30 * 10 ^ 9

def new (alloc : Nat → Bool) (name : String) : Outcome LogError Group :=
  (SegLog.new alloc).map fun log => ⟨name, log, Lru.new cacheCap cacheTtl⟩

variable (buildKey : String → UInt64 → UInt64)

def cachePut (grp : Group) (now : Nat) (id timestamp : UInt64) (payload : List UInt8)
    : Option Group :=
  let entry := ⟨id, timestamp, payload.length, payload⟩
  (grp.lruCache.insert now (buildKey grp.name id) entry).map ({ grp with lruCache := · })

def cacheInvalidate (grp : Group) (id : UInt64) : Option Group :=
  (grp.lruCache.remove (buildKey grp.name id)).map fun res => { grp with lruCache := res.2 }

def append (grp : Group) (alloc : Bool) (now : Nat) (timestamp : UInt64) (payload : List UInt8)
    : Outcome GroupError UInt64 × Group :=
  match grp.log.append alloc timestamp payload with
  | (.ok id, log) =>
    match cachePut buildKey { grp with log := log } now id timestamp payload with
    | some grp => (.ok id, grp)
    | none => (.panic, { grp with log := log })
  | (.err e, log) => (.err (.logError e), { grp with log := log })
  | (.panic, log) => (.panic, { grp with log := log })

def appendRest (grp : Group) (env : Nat → Bool × Nat) (lastId : UInt64)
    : List (UInt64 × List UInt8) → Outcome GroupError UInt64 × Group
  | [] => (.ok lastId, grp)
  | (timestamp, payload) :: entries =>
    match append buildKey grp (env 0).1 (env 0).2 timestamp payload with
    | (.ok id, grp) => appendRest grp (fun i => env (i + 1)) id entries
    | (.err e, grp) => (.err e, grp)
    | (.panic, grp) => (.panic, grp)

def read (grp : Group) (now : Nat) (id : UInt64)
    : Outcome GroupError (UInt64 × UInt64 × List UInt8) × Group :=
  match grp.lruCache.get now (buildKey grp.name id) with
  | none => (.panic, grp)
  | some (some cached, lru) =>
    (.ok (cached.id, cached.timestamp, cached.payload), { grp with lruCache := lru })
  | some (none, lru) => ((grp.log.read id).mapErr .logError, { grp with lruCache := lru })

-- the loop of `read_range` over `n` ids: no entries as soon as one of them is not cached
def readCached (grp : Group) (now : Nat → Nat) (id : UInt64)
    : Nat → Option (Option (List (UInt64 × UInt64 × List UInt8)) × Group)
  | 0 => some (some [], grp)
  | n + 1 =>
    match grp.lruCache.get (now 0) (buildKey grp.name id) with
    | none => none
    | some (none, lru) => some (none, { grp with lruCache := lru })
    | some (some entry, lru) =>
      (readCached { grp with lruCache := lru } (fun i => now (i + 1)) (id + 1) n).map fun res =>
        (res.1.map ((entry.id, entry.timestamp, entry.payload) :: ·), res.2)

-- `Vec::with_capacity` panics above `isize::MAX` bytes, and an entry has 40 of them
def readRange (grp : Group) (now : Nat → Nat) (start stop : UInt64)
    : Outcome GroupError (List (UInt64 × UInt64 × List UInt8)) × Group :=
  let rangeLen := (stop - start + 1).toNat
  if 40 * rangeLen > 2 ^ 63 - 1 then
    (.panic, grp)
  else
    match readCached buildKey grp now start (stop.toNat + 1 - start.toNat) with
    | none => (.panic, grp)
    | some (some cached, grp) =>
      if cached.length = rangeLen then
        (.ok cached, grp)
      else
        ((grp.log.readRange start stop).mapErr .logError, grp)
    | some (none, grp) => ((grp.log.readRange start stop).mapErr .logError, grp)

def invalidateAll (grp : Group) : List UInt64 → Option Group
  | [] => some grp
  | id :: ids =>
    match cacheInvalidate buildKey grp id with
    | none => none
    | some grp => invalidateAll grp ids

def remove (grp : Group) (upToId : UInt64) : Outcome GroupError Unit × Group :=
  match grp.log.trim upToId with
  | (.ok removedIds, log) =>
    match invalidateAll buildKey { grp with log := log } removedIds with
    | some grp => (.ok (), grp)
    | none => (.panic, { grp with log := log })
  | (.err e, log) => (.err (.logError e), { grp with log := log })
  | (.panic, log) => (.panic, { grp with log := log })

def stats (grp : Group) : GroupStats where
  totalEntries := grp.log.totalEntries
  totalSegments := grp.log.totalSegments
  nextId := grp.log.nextId

end Group

namespace GroupManager

def new : GroupManager where
  groups := ∅

def createGroup (gm : GroupManager) (alloc : Nat → Bool) (name : String)
    : Outcome GroupError Unit × GroupManager :=
  match gm.groups.lookup name with
  | some _ => (.err (.groupAlreadyExists name), gm)
  | none =>
    match Group.new alloc name with
    | .ok grp => (.ok (), { gm with groups := gm.groups.insert name grp })
    | .err e => (.err (.logError e), gm)
    | .panic => (.panic, gm)

def dropGroup (gm : GroupManager) (name : String) : Outcome GroupError Unit × GroupManager :=
  match gm.groups.lookup name with
  | some _ => (.ok (), { gm with groups := gm.groups.erase name })
  | none => (.err (.groupNotFound name), gm)

def onGroup {α : Type} (gm : GroupManager) (group : String)
    (f : Group → Outcome GroupError α × Group)
    : Outcome GroupError α × GroupManager :=
  match gm.groups.lookup group with
  | none => (.err (.groupNotFound group), gm)
  | some grp => ((f grp).1, { gm with groups := gm.groups.insert group (f grp).2 })

variable (buildKey : String → UInt64 → UInt64)

def add (gm : GroupManager) (alloc : Bool) (now : Nat) (group : String) (timestamp : UInt64)
    (payload : List UInt8)
    : Outcome GroupError UInt64 × GroupManager :=
  gm.onGroup group fun grp => grp.append buildKey alloc now timestamp payload

def addRange (gm : GroupManager) (env : Nat → Bool × Nat) (group : String)
    : List (UInt64 × List UInt8) → Outcome GroupError (UInt64 × UInt64) × GroupManager
  | [] => (.err (.logError .entryNotFound), gm)
  | (timestamp, payload) :: entries =>
    gm.onGroup group fun grp =>
      match grp.append buildKey (env 0).1 (env 0).2 timestamp payload with
      | (.ok firstId, grp) =>
        let res := grp.appendRest buildKey (fun i => env (i + 1)) firstId entries
        (res.1.map (firstId, ·), res.2)
      | (.err e, grp) => (.err e, grp)
      | (.panic, grp) => (.panic, grp)

def read (gm : GroupManager) (now : Nat) (group : String) (id : UInt64)
    : Outcome GroupError (UInt64 × UInt64 × List UInt8) × GroupManager :=
  gm.onGroup group fun grp => grp.read buildKey now id

def readRange (gm : GroupManager) (now : Nat → Nat) (group : String) (start stop : UInt64)
    : Outcome GroupError (List (UInt64 × UInt64 × List UInt8)) × GroupManager :=
  gm.onGroup group fun grp => grp.readRange buildKey now start stop

def remove (gm : GroupManager) (group : String) (upToId : UInt64)
    : Outcome GroupError Unit × GroupManager :=
  gm.onGroup group fun grp => grp.remove buildKey upToId

def groupStats (gm : GroupManager) (group : String) : Outcome GroupError GroupStats :=
  match gm.groups.lookup group with
  | none => .err (.groupNotFound group)
  | some grp => .ok grp.stats

def listGroups (gm : GroupManager) (order : Assoc.Order String) : List String :=
  order.arrange gm.groups.keys

end GroupManager
end MemStream
