import MemStream.Lib.LittleEndian
import MemStream.Lib.Outcome

/-!
This module contains the request format of `proto.rs`: a frame has an opcode and after it the fields of the
command. Strings have a length of two bytes in front of them and byte strings one of four, and all numbers
are little-endian. What follows the last field is ignored. `alloc` says for how many bytes there is memory.
-/

namespace MemStream

@[match_pattern] abbrev cmdCreateGroup : UInt8 := 0x01
@[match_pattern] abbrev cmdDropGroup : UInt8 := 0x02
@[match_pattern] abbrev cmdAdd : UInt8 := 0x03
@[match_pattern] abbrev cmdAddRange : UInt8 := 0x04
@[match_pattern] abbrev cmdRead : UInt8 := 0x05
@[match_pattern] abbrev cmdReadRange : UInt8 := 0x06
@[match_pattern] abbrev cmdRemove : UInt8 := 0x07
@[match_pattern] abbrev cmdListGroups : UInt8 := 0x08
@[match_pattern] abbrev cmdGroupStats : UInt8 := 0x09
@[match_pattern] abbrev cmdSet : UInt8 := 0x10
@[match_pattern] abbrev cmdGet : UInt8 := 0x11
@[match_pattern] abbrev cmdDel : UInt8 := 0x12
@[match_pattern] abbrev cmdKeys : UInt8 := 0x13
@[match_pattern] abbrev cmdFlush : UInt8 := 0x14
@[match_pattern] abbrev lpush : UInt8 := 0x15
@[match_pattern] abbrev lpushRange : UInt8 := 0x16
@[match_pattern] abbrev lpop : UInt8 := 0x17
@[match_pattern] abbrev lpopRange : UInt8 := 0x18
@[match_pattern] abbrev lpopCount : UInt8 := 0x19
@[match_pattern] abbrev llen : UInt8 := 0x20
@[match_pattern] abbrev lflush : UInt8 := 0x21
@[match_pattern] abbrev haRegister : UInt8 := 0x22
@[match_pattern] abbrev haHeartbeat : UInt8 := 0x23
@[match_pattern] abbrev haSync : UInt8 := 0x24

inductive Command where
  | createGroup (name : String)
  | dropGroup (name : String)
  | add (group : String) (timestamp : UInt64) (payload : List UInt8)
  | addRange (group : String) (entries : List (UInt64 × List UInt8))
  | read (group : String) (id : UInt64)
  | readRange (group : String) (start stop : UInt64)
  | remove (group : String) (upToId : UInt64)
  | listGroups
  | groupStats (group : String)
  | setKey (db key : String) (val : List UInt8) (ttlSecs : UInt64)
  | getKey (db key : String)
  | delKey (db key : String)
  | keys (db : String)
  | flush (db : String)
  | lPush (key : String) (val : List UInt8)
  | lPushRange (key : String) (vals : List (List UInt8))
  | lPop (key : String)
  | lPopRange (key : String) (start stop : UInt32)
  | lPopCount (key : String) (count : UInt32)
  | lLen (key : String)
  | lFlush (key : String)
  | haRegisterFollower (addr : String)
  | haHeartBeat
  | haSync (entries : List (List UInt8))
  deriving DecidableEq

structure ParseError where
  msg : String
  deriving DecidableEq

structure Cursor where
  buf : List UInt8
  pos : Nat

abbrev Reader (α : Type) := StateT Cursor (Outcome ParseError) α

namespace Cursor

def new (buf : List UInt8) : Cursor where
  buf := buf
  pos := 0

-- the subtraction, and the slice `buf[pos..pos + n]`
def remaining (cur : Cursor) : Outcome ParseError Nat :=
  if cur.pos ≤ cur.buf.length then .ok (cur.buf.length - cur.pos) else .panic

def slice (cur : Cursor) (n : Nat) : Outcome ParseError (List UInt8) :=
  if cur.pos + n ≤ cur.buf.length then .ok ((cur.buf.drop cur.pos).take n) else .panic

def read (n : Nat) (eof : String) : Reader (List UInt8) := fun cur => do
  let left ← cur.remaining
  if left < n then
    .err ⟨eof⟩
  else
    let bytes ← cur.slice n
    return (bytes, { cur with pos := cur.pos + n })

def readU8 : Reader UInt8 := do
  let bytes ← read 1 "unexpected EOF reading u8"
  return UInt8.ofNat (LittleEndian.decode bytes)

def readU16Le : Reader UInt16 := do
  let bytes ← read 2 "unexpected EOF reading u16"
  return UInt16.ofNat (LittleEndian.decode bytes)

def readU32Le : Reader UInt32 := do
  let bytes ← read 4 "unexpected EOF reading u32"
  return UInt32.ofNat (LittleEndian.decode bytes)

def readU64Le : Reader UInt64 := do
  let bytes ← read 8 "unexpected EOF reading u64"
  return UInt64.ofNat (LittleEndian.decode bytes)

def readStr : Reader String := do
  let len ← readU16Le
  let bytes ← read len.toNat "unexpected EOF reading string"
  match String.fromUTF8? ⟨bytes.toArray⟩ with
  | some s => return s
  | none => throw ⟨"invalid UTF-8"⟩

def readBytes : Reader (List UInt8) := do
  let len ← readU32Le
  read len.toNat "unexpected EOF reading bytes"

def readMany {α : Type} (item : Reader α) : Nat → Reader (List α)
  | 0 => return []
  | count + 1 => do
    let val ← item
    let vals ← readMany item count
    return val :: vals

-- `Vec::with_capacity`, with the size of an item; an allocation that fails aborts the process
def reserve (alloc : Nat → Bool) (size count : Nat) : Reader Unit := fun cur =>
  if count = 0 ∨ alloc (size * count) then .ok ((), cur) else .panic

end Cursor

abbrev ample (_bytes : Nat) : Bool :=
  true

open Cursor

def readEntry : Reader (UInt64 × List UInt8) := do
  let ts ← readU64Le
  let payload ← readBytes
  return (ts, payload)

-- the fields after the opcode; the database of a list command is read and dropped
def parseFields (alloc : Nat → Bool) : UInt8 → Reader Command
  | cmdCreateGroup => return .createGroup (← readStr)
  | cmdDropGroup => return .dropGroup (← readStr)
  | cmdAdd => do
    let group ← readStr
    let timestamp ← readU64Le
    let payload ← readBytes
    return .add group timestamp payload
  | cmdAddRange => do
    let group ← readStr
    let count ← readU32Le
    reserve alloc 24 count.toNat
    let entries ← readMany readEntry count.toNat
    return .addRange group entries
  | cmdRead => do
    let group ← readStr
    let id ← readU64Le
    return .read group id
  | cmdReadRange => do
    let group ← readStr
    let start ← readU64Le
    let stop ← readU64Le
    return .readRange group start stop
  | cmdRemove => do
    let group ← readStr
    let upToId ← readU64Le
    return .remove group upToId
  | cmdListGroups => return .listGroups
  | cmdGroupStats => return .groupStats (← readStr)
  | cmdSet => do
    let db ← readStr
    let key ← readStr
    let ttlSecs ← readU64Le
    let val ← readBytes
    return .setKey db key val ttlSecs
  | cmdGet => do
    let db ← readStr
    let key ← readStr
    return .getKey db key
  | cmdDel => do
    let db ← readStr
    let key ← readStr
    return .delKey db key
  | cmdKeys => return .keys (← readStr)
  | cmdFlush => return .flush (← readStr)
  | lpush => do
    let _db ← readStr
    let key ← readStr
    let val ← readBytes
    return .lPush key val
  | lpushRange => do
    let _db ← readStr
    let key ← readStr
    let count ← readU32Le
    reserve alloc 16 count.toNat
    let vals ← readMany readBytes count.toNat
    return .lPushRange key vals
  | lpop => do
    let _db ← readStr
    let key ← readStr
    return .lPop key
  | lpopRange => do
    let _db ← readStr
    let key ← readStr
    let start ← readU32Le
    let stop ← readU32Le
    return .lPopRange key start stop
  | lpopCount => do
    let _db ← readStr
    let key ← readStr
    let count ← readU32Le
    return .lPopCount key count
  | llen => do
    let _db ← readStr
    let key ← readStr
    return .lLen key
  | lflush => do
    let _db ← readStr
    let key ← readStr
    return .lFlush key
  | haRegister => return .haRegisterFollower (← readStr)
  | haHeartbeat => return .haHeartBeat
  | haSync => do
    let count ← readU32Le
    reserve alloc 16 count.toNat
    let vals ← readMany readBytes count.toNat
    return .haSync vals
  | _ => throw ⟨"unknown command tag"⟩

def parseCommand (alloc : Nat → Bool) (frame : List UInt8) : Outcome ParseError Command :=
  if frame.isEmpty then
    .err ⟨"empty frame"⟩
  else
    (do
      let tag ← readU8
      parseFields alloc tag).run' (Cursor.new frame)

end MemStream
