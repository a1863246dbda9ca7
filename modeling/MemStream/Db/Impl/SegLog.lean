import Std.Data.TreeMap.Lemmas
import Std.Data.TreeMap.AdditionalOperations
import MemStream.Lib.Outcome
import MemStream.Lib.LittleEndian
import MemStream.Lib.Block

/-!
This module contains the segmented log of `seg_log.rs`: entries are written one behind the other into
64 KB segments and found again through an ordered index from their id to their place.

The pointers in `segs` are owned by the log and never handed out, so the blocks behind them stand in
the list itself. The answers of the allocator are arguments of the functions that allocate. `append`
is cut into the roll-over to the next segment and the placement of the entry.
-/

namespace MemStream

namespace SegLog

def segmentSize : Nat := 64 * 1024
def initialSegments : Nat := 8
def maxSegments : Nat := 1024 * 1024 * 1024
def headerSize : Nat := 8 + 8 + 4

end SegLog

abbrev Segment := Block SegLog.segmentSize

structure EntryLoc where
  segmentIdx : Nat
  offset : Nat
  len : Nat
  deriving DecidableEq, Repr

inductive LogError where
  | entryTooLarge
  | segmentLimitReached
  | entryNotFound
  | allocationFailed
  | maxSegmentsReached
  | writeLockUnavailable
  deriving DecidableEq, Repr

structure SegLog where
  segs : List Segment
  activeSeg : Nat
  writeCursor : Nat
  idx : Std.TreeMap UInt64 EntryLoc
  nextId : UInt64
  entryCount : Nat
  -- whether the mutex `lock_write` is held
  lockWrite : Bool

structure LogEntry where
  id : UInt64
  timestamp : UInt64
  len : Nat
  payload : List UInt8
  deriving DecidableEq, Repr

namespace SegLog

def empty : SegLog where
  segs := List.replicate initialSegments Block.zeroed
  activeSeg := 0
  writeCursor := 0
  idx := ∅
  nextId := 1
  entryCount := 0
  lockWrite := false

def new (alloc : Nat → Bool) : Outcome LogError SegLog :=
  if (List.range initialSegments).all alloc then .ok empty else .panic

def allocateSeg (log : SegLog) (alloc : Bool) : Outcome LogError Unit × SegLog :=
  if log.segs.length ≥ maxSegments then
    (.err .maxSegmentsReached, log)
  else if alloc then
    (.ok (), { log with segs := log.segs ++ [Block.zeroed] })
  else
    (.err .allocationFailed, log)

def rollOver (log : SegLog) (alloc : Bool) (totalEntrySize : Nat) : Outcome LogError Unit × SegLog :=
  if log.writeCursor + totalEntrySize > segmentSize then
    let log := { log with activeSeg := log.activeSeg + 1, writeCursor := 0 }
    if log.activeSeg ≥ log.segs.length then
      log.allocateSeg alloc
    else
      (.ok (), log)
  else
    (.ok (), log)

def writeEntry (seg : Segment) (dst : Nat) (entryId timestamp : UInt64) (payload : List UInt8)
    : Option Segment := do
  let seg ← seg.copyIn dst (LittleEndian.encode 8 entryId.toNat)
  let seg ← seg.copyIn (dst + 8) (LittleEndian.encode 8 timestamp.toNat)
  let seg ← seg.copyIn (dst + 16) (LittleEndian.encode 4 payload.length)
  if payload.isEmpty then
    return seg
  else
    seg.copyIn (dst + headerSize) payload

def place (log : SegLog) (timestamp : UInt64) (payload : List UInt8)
    : Outcome LogError UInt64 × SegLog :=
  if log.lockWrite then
    (.err .writeLockUnavailable, log)
  else
    let entryId := log.nextId
    let totalEntrySize := headerSize + payload.length
    match log.segs[log.activeSeg]? with
    | none => (.panic, log)
    | some seg =>
      match writeEntry seg log.writeCursor entryId timestamp payload with
      | none => (.panic, log)
      | some seg =>
        let loc := ⟨log.activeSeg, log.writeCursor, totalEntrySize⟩
        (.ok entryId,
          { log with
            segs := log.segs.set log.activeSeg seg
            idx := log.idx.insert entryId loc
            writeCursor := log.writeCursor + totalEntrySize
            nextId := log.nextId + 1
            entryCount := log.entryCount + 1 })

def append (log : SegLog) (alloc : Bool) (timestamp : UInt64) (payload : List UInt8)
    : Outcome LogError UInt64 × SegLog :=
  let totalEntrySize := headerSize + payload.length
  if totalEntrySize > segmentSize then
    (.err .entryTooLarge, log)
  else
    match log.rollOver alloc totalEntrySize with
    | (.ok (), log) => log.place timestamp payload
    | (.err e, log) => (.err e, log)
    | (.panic, log) => (.panic, log)

def readEntry (seg : Segment) (src : Nat) : Option (UInt64 × UInt64 × List UInt8) := do
  let id ← seg.copyOut src 8
  let ts ← seg.copyOut (src + 8) 8
  let lenBytes ← seg.copyOut (src + 16) 4
  let len := LittleEndian.decode lenBytes
  let payload ← if len > 0 then seg.copyOut (src + headerSize) len else some []
  return (UInt64.ofNat (LittleEndian.decode id), UInt64.ofNat (LittleEndian.decode ts), payload)

def read (log : SegLog) (entryId : UInt64) : Outcome LogError (UInt64 × UInt64 × List UInt8) :=
  match log.idx[entryId]? with
  | none => .err .entryNotFound
  | some loc =>
    match log.segs[loc.segmentIdx]? with
    | none => .panic
    | some seg =>
      match readEntry seg loc.offset with
      | none => .panic
      | some entry => .ok entry

def readAll (log : SegLog) : List UInt64 → Outcome LogError (List (UInt64 × UInt64 × List UInt8))
  | [] => .ok []
  | id :: ids =>
    match log.read id with
    | .panic => .panic
    | .err _ => log.readAll ids
    | .ok entry => (log.readAll ids).map (entry :: ·)

def readRange (log : SegLog) (start stop : UInt64)
    : Outcome LogError (List (UInt64 × UInt64 × List UInt8)) :=
  -- `BTreeMap::range` panics on a range whose start is above its end
  if stop < start then
    .panic
  else
    log.readAll (log.idx.keys.filter fun id => start ≤ id ∧ id ≤ stop)

def zeroDead (segs : List Segment) (firstLive : Nat) : Option (List Segment) :=
  if firstLive ≤ segs.length then
    some (List.replicate firstLive Block.zeroed ++ segs.drop firstLive)
  else
    none

def trim (log : SegLog) (cutoffId : UInt64) : Outcome LogError (List UInt64) × SegLog :=
  let toRemove := log.idx.keys.filter (· < cutoffId)
  let log := { log with
    idx := toRemove.foldl (fun idx id => idx.erase id) log.idx
    entryCount := log.entryCount - toRemove.length }
  match log.idx.toList.head? with
  | none => (.ok toRemove, log)
  | some (_, firstLoc) =>
    match zeroDead log.segs firstLoc.segmentIdx with
    | none => (.panic, log)
    | some segs => (.ok toRemove, { log with segs := segs })

def getRawEntrySlice (log : SegLog) (entryId : UInt64) : Outcome String (List UInt8) :=
  match log.idx[entryId]? with
  | none => .err "entry not found"
  | some loc =>
    match log.segs[loc.segmentIdx]? with
    | none => .panic
    | some seg =>
      match seg.copyOut loc.offset loc.len with
      | none => .panic
      | some bytes => .ok bytes

def totalEntries (log : SegLog) : Nat :=
  log.entryCount

def totalSegments (log : SegLog) : Nat :=
  log.segs.length

end SegLog
end MemStream
