import MemStream.Lib.LittleEndian

namespace MemStream
namespace StreamClient

-- `(val.len() as u16).to_le_bytes()` and `(val.len() as u32).to_le_bytes()`
def lenU16 (val : List UInt8) : List UInt8 :=
  LittleEndian.encode 2 val.length

def lenU32 {α : Type} (val : List α) : List UInt8 :=
  LittleEndian.encode 4 val.length

def asBytes (s : String) : List UInt8 :=
  s.toUTF8.data.toList

def buildCmdWithGroup (tag : UInt8) (group : String) : List UInt8 :=
  [tag] ++ lenU16 (asBytes group) ++ asBytes group

def createGroup (name : String) : List UInt8 :=
  buildCmdWithGroup 0x01 name

def dropGroup (name : String) : List UInt8 :=
  buildCmdWithGroup 0x02 name

def add (group : String) (timestamp : UInt64) (payload : List UInt8) : List UInt8 :=
  [0x03] ++ lenU16 (asBytes group) ++ asBytes group ++ LittleEndian.encode 8 timestamp.toNat
    ++ lenU32 payload ++ payload

def addRange (group : String) (entries : List (UInt64 × List UInt8)) : List UInt8 :=
  [0x04] ++ lenU16 (asBytes group) ++ asBytes group ++ lenU32 entries
    ++ entries.flatMap fun entry =>
      LittleEndian.encode 8 entry.1.toNat ++ lenU32 entry.2 ++ entry.2

def read (group : String) (id : UInt64) : List UInt8 :=
  buildCmdWithGroup 0x05 group ++ LittleEndian.encode 8 id.toNat

def readRange (group : String) (start stop : UInt64) : List UInt8 :=
  buildCmdWithGroup 0x06 group ++ LittleEndian.encode 8 start.toNat ++ LittleEndian.encode 8 stop.toNat

def remove (group : String) (upToId : UInt64) : List UInt8 :=
  buildCmdWithGroup 0x07 group ++ LittleEndian.encode 8 upToId.toNat

def listGroups : List UInt8 :=
  [0x08]

def groupStats (group : String) : List UInt8 :=
  buildCmdWithGroup 0x09 group

def buildCmdWithDbKey (tag : UInt8) (db key : String) : List UInt8 :=
  [tag] ++ lenU16 (asBytes db) ++ asBytes db ++ lenU16 (asBytes key) ++ asBytes key

def kvSet (db key : String) (val : List UInt8) (ttlSecs : UInt64) : List UInt8 :=
  [0x10] ++ lenU16 (asBytes db) ++ asBytes db ++ lenU16 (asBytes key) ++ asBytes key
    ++ LittleEndian.encode 8 ttlSecs.toNat ++ lenU32 val ++ val

def kvGet (db key : String) : List UInt8 :=
  buildCmdWithDbKey 0x11 db key

def kvDel (db key : String) : List UInt8 :=
  buildCmdWithDbKey 0x12 db key

def kvKeys (db : String) : List UInt8 :=
  [0x13] ++ lenU16 (asBytes db) ++ asBytes db

def kvFlush (db : String) : List UInt8 :=
  [0x14] ++ lenU16 (asBytes db) ++ asBytes db

def buildCmdWithKey (tag : UInt8) (key : String) : List UInt8 :=
  [tag] ++ lenU16 (asBytes key) ++ asBytes key

def lPush (key : String) (val : List UInt8) : List UInt8 :=
  [0x20] ++ lenU16 (asBytes key) ++ asBytes key ++ lenU32 val ++ val

def lPushRange (key : String) (vals : List (List UInt8)) : List UInt8 :=
  [0x21] ++ lenU16 (asBytes key) ++ asBytes key ++ lenU32 vals
    ++ vals.flatMap fun val => lenU32 val ++ val

def lPop (key : String) : List UInt8 :=
  buildCmdWithKey 0x22 key

def lPopRange (key : String) (start stop : UInt32) : List UInt8 :=
  buildCmdWithKey 0x23 key ++ LittleEndian.encode 4 start.toNat ++ LittleEndian.encode 4 stop.toNat

def lPopCount (key : String) (count : UInt32) : List UInt8 :=
  buildCmdWithKey 0x24 key ++ LittleEndian.encode 4 count.toNat

def lLen (key : String) : List UInt8 :=
  buildCmdWithKey 0x25 key

def lFlush (key : String) : List UInt8 :=
  buildCmdWithKey 0x26 key

end StreamClient
end MemStream
