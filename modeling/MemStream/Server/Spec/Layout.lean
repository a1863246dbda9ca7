import MemStream.Server.Impl.Proto

/-!
This module contains the grammar of the requests: the bytes of each command, under the condition that the
lengths fit into the bytes in front of them. A list command has the name of a database in front of its own
fields, which is no part of the command.
-/

namespace MemStream
namespace Layout

def str (s : String) : List UInt8 :=
  LittleEndian.encode 2 s.toUTF8.data.toList.length ++ s.toUTF8.data.toList

def bytes (val : List UInt8) : List UInt8 :=
  LittleEndian.encode 4 val.length ++ val

def u32 (x : UInt32) : List UInt8 :=
  LittleEndian.encode 4 x.toNat

def u64 (x : UInt64) : List UInt8 :=
  LittleEndian.encode 8 x.toNat

def many {α : Type} (item : α → List UInt8) (vals : List α) : List UInt8 :=
  LittleEndian.encode 4 vals.length ++ vals.flatMap item

def entry (e : UInt64 × List UInt8) : List UInt8 :=
  u64 e.1 ++ bytes e.2

def StrFits (s : String) : Prop :=
  s.toUTF8.data.toList.length < 65536

def Fits {α : Type} (vals : List α) : Prop :=
  vals.length < 4294967296

end Layout

namespace Command

open Layout

def tag : Command → UInt8
  | .createGroup .. => cmdCreateGroup
  | .dropGroup .. => cmdDropGroup
  | .add .. => cmdAdd
  | .addRange .. => cmdAddRange
  | .read .. => cmdRead
  | .readRange .. => cmdReadRange
  | .remove .. => cmdRemove
  | .listGroups => cmdListGroups
  | .groupStats .. => cmdGroupStats
  | .setKey .. => cmdSet
  | .getKey .. => cmdGet
  | .delKey .. => cmdDel
  | .keys .. => cmdKeys
  | .flush .. => cmdFlush
  | .lPush .. => lpush
  | .lPushRange .. => lpushRange
  | .lPop .. => lpop
  | .lPopRange .. => lpopRange
  | .lPopCount .. => lpopCount
  | .lLen .. => llen
  | .lFlush .. => lflush
  | .haRegisterFollower .. => haRegister
  | .haHeartBeat => haHeartbeat
  | .haSync .. => MemStream.haSync

def fields (listDb : String) : Command → List UInt8
  | .createGroup name => str name
  | .dropGroup name => str name
  | .add group timestamp payload => str group ++ (u64 timestamp ++ bytes payload)
  | .addRange group entries => str group ++ many entry entries
  | .read group id => str group ++ u64 id
  | .readRange group start stop => str group ++ (u64 start ++ u64 stop)
  | .remove group upToId => str group ++ u64 upToId
  | .listGroups => []
  | .groupStats group => str group
  | .setKey db key val ttlSecs => str db ++ (str key ++ (u64 ttlSecs ++ bytes val))
  | .getKey db key => str db ++ str key
  | .delKey db key => str db ++ str key
  | .keys db => str db
  | .flush db => str db
  | .lPush key val => str listDb ++ (str key ++ bytes val)
  | .lPushRange key vals => str listDb ++ (str key ++ many bytes vals)
  | .lPop key => str listDb ++ str key
  | .lPopRange key start stop => str listDb ++ (str key ++ (u32 start ++ u32 stop))
  | .lPopCount key count => str listDb ++ (str key ++ u32 count)
  | .lLen key => str listDb ++ str key
  | .lFlush key => str listDb ++ str key
  | .haRegisterFollower addr => str addr
  | .haHeartBeat => []
  | .haSync entries => many bytes entries

def Fits (listDb : String) : Command → Prop
  | .createGroup name => StrFits name
  | .dropGroup name => StrFits name
  | .add group _ payload => StrFits group ∧ Layout.Fits payload
  | .addRange group entries =>
    StrFits group ∧ Layout.Fits entries ∧ ∀ entry ∈ entries, Layout.Fits entry.2
  | .read group _ => StrFits group
  | .readRange group _ _ => StrFits group
  | .remove group _ => StrFits group
  | .listGroups => True
  | .groupStats group => StrFits group
  | .setKey db key val _ => StrFits db ∧ StrFits key ∧ Layout.Fits val
  | .getKey db key => StrFits db ∧ StrFits key
  | .delKey db key => StrFits db ∧ StrFits key
  | .keys db => StrFits db
  | .flush db => StrFits db
  | .lPush key val => StrFits listDb ∧ StrFits key ∧ Layout.Fits val
  | .lPushRange key vals =>
    StrFits listDb ∧ StrFits key ∧ Layout.Fits vals ∧ ∀ val ∈ vals, Layout.Fits val
  | .lPop key => StrFits listDb ∧ StrFits key
  | .lPopRange key _ _ => StrFits listDb ∧ StrFits key
  | .lPopCount key _ => StrFits listDb ∧ StrFits key
  | .lLen key => StrFits listDb ∧ StrFits key
  | .lFlush key => StrFits listDb ∧ StrFits key
  | .haRegisterFollower addr => StrFits addr
  | .haHeartBeat => True
  | .haSync entries => Layout.Fits entries ∧ ∀ val ∈ entries, Layout.Fits val

end Command

open Layout

-- what stands in front of the number of items, and how large an item is in memory
inductive Counted : List UInt8 → Nat → Prop where
  | addRange {group : String} (h : StrFits group) : Counted (cmdAddRange :: str group) 24
  | lPushRange {db key : String} (hdb : StrFits db) (hkey : StrFits key)
    : Counted (lpushRange :: (str db ++ str key)) 16
  | haSync : Counted [haSync] 16

/-- The frame announces items, for which so many bytes are reserved before any of them is read. -/
def Reserves (frame : List UInt8) (bytes : Nat) : Prop :=
  ∃ head size count,
    Counted head size ∧ head ++ u32 count <+: frame ∧ count ≠ 0 ∧ bytes = size * count.toNat

/-- The bytes are the opcode of the command and its fields in the layout of that opcode. -/
def Encodes (cmd : Command) (bytes : List UInt8) : Prop :=
  ∃ listDb, cmd.Fits listDb ∧ bytes = cmd.tag :: cmd.fields listDb

end MemStream
