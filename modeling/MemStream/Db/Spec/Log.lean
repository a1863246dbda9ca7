import MemStream.Db.Impl.SegLog

/-!
What a log is for: an append-only map from ids to entries from which prefixes can be trimmed. Next to
the entries it only keeps account of the space they take, which decides when an append fails.
-/

namespace MemStream

structure LogSpace where
  segs : Nat
  activeSeg : Nat
  writeCursor : Nat
  deriving DecidableEq

namespace LogSpace

def rollOver (space : LogSpace) (alloc : Bool) (size : Nat) : Outcome LogError Unit × LogSpace :=
  if space.writeCursor + size > SegLog.segmentSize then
    if space.activeSeg + 1 < space.segs then
      (.ok (), ⟨space.segs, space.activeSeg + 1, 0⟩)
    else if space.segs ≥ SegLog.maxSegments then
      (.err .maxSegmentsReached, ⟨space.segs, space.activeSeg + 1, 0⟩)
    else if alloc then
      (.ok (), ⟨space.segs + 1, space.activeSeg + 1, 0⟩)
    else
      (.err .allocationFailed, ⟨space.segs, space.activeSeg + 1, 0⟩)
  else
    (.ok (), space)

def take (space : LogSpace) (size : Nat) : Outcome LogError Unit × LogSpace :=
  if space.activeSeg < space.segs then
    (.ok (), { space with writeCursor := space.writeCursor + size })
  else
    (.panic, space)

def claim (space : LogSpace) (alloc : Bool) (size : Nat) : Outcome LogError Unit × LogSpace :=
  if size > SegLog.segmentSize then
    (.err .entryTooLarge, space)
  else
    match space.rollOver alloc size with
    | (.ok (), space) => space.take size
    | res => res

end LogSpace

structure LogSpec where
  space : LogSpace
  nextId : UInt64
  live : UInt64 → Option (UInt64 × List UInt8)

namespace LogSpec

def empty : LogSpec where
  space := ⟨SegLog.initialSegments, 0, 0⟩
  nextId := 1
  live := fun _ => none

def enter (log : LogSpec) (timestamp : UInt64) (payload : List UInt8)
    : Outcome LogError Unit × LogSpace → Outcome LogError UInt64 × LogSpec
  | (.ok (), space) =>
    (.ok log.nextId,
      { space := space
        nextId := log.nextId + 1
        live := fun id => if id = log.nextId then some (timestamp, payload) else log.live id })
  | (.err e, space) => (.err e, { log with space := space })
  | (.panic, space) => (.panic, { log with space := space })

def append (log : LogSpec) (alloc : Bool) (timestamp : UInt64) (payload : List UInt8)
    : Outcome LogError UInt64 × LogSpec :=
  log.enter timestamp payload (log.space.claim alloc (SegLog.headerSize + payload.length))

def trim (log : LogSpec) (cutoffId : UInt64) : LogSpec :=
  { log with live := fun id => if id < cutoffId then none else log.live id }

end LogSpec
end MemStream
