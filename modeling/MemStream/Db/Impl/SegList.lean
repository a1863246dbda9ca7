import Mathlib.Data.List.AList
import MemStream.Lib.Outcome
import MemStream.Lib.LittleEndian
import MemStream.Lib.Block

/-!
This module contains the lists of `seg_list.rs`: every item of every key has a segment of its own, and
the segments of all keys come from one pool and go back to it.

A pointer is the number of its block in `mem`. The allocator hands out the blocks from `brk` on, all of
them zeroed; whether it can is an argument of the functions that allocate.
-/

namespace MemStream

inductive ListError where
  | entryTooLarge
  | allocFailed
  | keyNotFound
  | outOfRange
  deriving DecidableEq, Repr

namespace SegList

def segmentSize : Nat := 64 * 1024
def initialSpace : Nat := 1024 * 1024 * 1024
def headerSize : Nat := 8 + 8 + 4
def growth : Nat := initialSpace / segmentSize

end SegList

abbrev ListSegment := Block SegList.segmentSize

structure SegList where
  mem : Nat → ListSegment
  brk : Nat
  written : AList fun _ : String => List Nat
  freeSegs : List Nat

namespace SegList

def blank : SegList where
  mem := fun _ => Block.zeroed
  brk := 0
  written := ∅
  freeSegs := []

def growSegs (list : SegList) (alloc : Bool) : Outcome ListError Unit × SegList :=
  if alloc then
    (.ok (),
      { list with
        mem := fun ptr =>
          if list.brk ≤ ptr ∧ ptr < list.brk + growth then Block.zeroed else list.mem ptr
        brk := list.brk + growth
        freeSegs := list.freeSegs ++ List.range' list.brk growth })
  else
    (.panic, list)

def new (alloc : Bool) : Outcome ListError SegList :=
  match blank.growSegs alloc with
  | (.ok (), list) => .ok list
  | (.err e, _) => .err e
  | (.panic, _) => .panic

def writeItem (seg : ListSegment) (payload : List UInt8) : Option ListSegment := do
  let seg ← seg.copyIn 16 (LittleEndian.encode 4 payload.length)
  if payload.isEmpty then
    return seg
  else
    seg.copyIn headerSize payload

def readItem (seg : ListSegment) : Option (List UInt8) := do
  let lenBytes ← seg.copyOut 16 4
  seg.copyOut headerSize (LittleEndian.decode lenBytes)

def segsOf (list : SegList) (key : String) : List Nat :=
  (list.written.lookup key).getD []

def pushFree (list : SegList) (key : String) (payload : List UInt8)
    : Outcome ListError Unit × SegList :=
  if headerSize + payload.length > segmentSize then
    (.err .entryTooLarge, list)
  else
    match list.freeSegs with
    | [] => (.panic, list)
    | firstFree :: freeSegs =>
      match writeItem (list.mem firstFree) payload with
      | none => (.panic, { list with freeSegs := freeSegs })
      | some seg =>
        (.ok (),
          { list with
            mem := Function.update list.mem firstFree seg
            freeSegs := freeSegs
            written := list.written.insert key (list.segsOf key ++ [firstFree]) })

def push (list : SegList) (alloc : Bool) (key : String) (payload : List UInt8)
    : Outcome ListError Unit × SegList :=
  if list.freeSegs.isEmpty then
    match list.growSegs alloc with
    | (.ok (), list) => list.pushFree key payload
    | (.err _, list) => (.err .allocFailed, list)
    | (.panic, list) => (.panic, list)
  else
    list.pushFree key payload

def pushAll (list : SegList) (alloc : Nat → Bool) (key : String)
    : List (List UInt8) → Outcome ListError Unit × SegList
  | [] => (.ok (), list)
  | item :: items =>
    match list.push (alloc 0) key item with
    | (.ok (), list) => list.pushAll (fun i => alloc (i + 1)) key items
    | (.err e, list) => (.err e, list)
    | (.panic, list) => (.panic, list)

def pushRange (list : SegList) (alloc : Nat → Bool) (key : String) (items : List (List UInt8))
    : Outcome ListError Unit × SegList :=
  if list.freeSegs.length < items.length then
    match list.growSegs (alloc 0) with
    | (.ok (), list) => list.pushAll (fun i => alloc (i + 1)) key items
    | (.err _, list) => (.err .allocFailed, list)
    | (.panic, list) => (.panic, list)
  else
    list.pushAll (fun i => alloc (i + 1)) key items

def release (list : SegList) (ptr : Nat) : SegList :=
  { list with
    mem := Function.update list.mem ptr Block.zeroed
    freeSegs := list.freeSegs ++ [ptr] }

-- the loop of `pop_range` over the drained pointers; `pop` does the same with a single one
def takeOut (list : SegList) : List Nat → Outcome ListError (List (List UInt8)) × SegList
  | [] => (.ok [], list)
  | ptr :: ptrs =>
    match readItem (list.mem ptr) with
    | none => (.panic, list)
    | some data =>
      let rest := (list.release ptr).takeOut ptrs
      (rest.1.map (data :: ·), rest.2)

def pop (list : SegList) (key : String) : Outcome ListError (List UInt8) × SegList :=
  match list.written.lookup key with
  | none => (.err .keyNotFound, list)
  | some [] => (.err .keyNotFound, list)
  | some (segPtr :: segs) =>
    let list := { list with written := list.written.insert key segs }
    match readItem (list.mem segPtr) with
    | none => (.panic, list)
    | some data => (.ok data, list.release segPtr)

def popTimes (list : SegList) (key : String)
    : Nat → Outcome ListError (List (List UInt8)) × SegList
  | 0 => (.ok [], list)
  | n + 1 =>
    match list.pop key with
    | (.ok data, list) =>
      let rest := list.popTimes key n
      (rest.1.map (data :: ·), rest.2)
    | (.err e, list) => (.err e, list)
    | (.panic, list) => (.panic, list)

-- `Vec::with_capacity` panics above `isize::MAX` bytes, and a `Vec<u8>` has 24 of them
def popCount (list : SegList) (key : String) (count : Nat)
    : Outcome ListError (List (List UInt8)) × SegList :=
  if count * 24 > 2 ^ 63 - 1 then
    (.panic, list)
  else
    list.popTimes key (count + 1)

-- `Vec::drain` panics on a range whose start is above its end
def popRange (list : SegList) (key : String) (start stop : Nat)
    : Outcome ListError (List (List UInt8)) × SegList :=
  match list.written.lookup key with
  | none => (.err .keyNotFound, list)
  | some segs =>
    if stop > segs.length then
      (.err .outOfRange, list)
    else if start > stop then
      (.panic, list)
    else
      let targ := (segs.drop start).take (stop - start)
      { list with written := list.written.insert key (segs.take start ++ segs.drop stop) }.takeOut targ

def len (list : SegList) (key : String) : Outcome ListError Nat × SegList :=
  match list.written.lookup key with
  | none => (.ok 0, { list with written := list.written.insert key [] })
  | some segs => (.ok segs.length, list)

def flush (list : SegList) (key : String) : Outcome ListError Unit × SegList :=
  match list.written.lookup key with
  | none => (.err .keyNotFound, list)
  | some segs =>
    let list := segs.foldl release list
    (.ok (), { list with written := list.written.insert key [] })

end SegList
end MemStream
