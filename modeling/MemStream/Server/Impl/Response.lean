import MemStream.Lib.LittleEndian

/-!
This module contains the `ResponseBuilder` of `proto.rs`. A response has four bytes of length, a status and
the fields of the answer. The buffer is cleared for each of them and the length is put in last.
-/

namespace MemStream

abbrev statusOk : UInt8 := 0x00
abbrev statusErr : UInt8 := 0x01

namespace ResponseBuilder

def finalize (buf : List UInt8) : List UInt8 :=
  LittleEndian.encode 4 (buf.length - 4) ++ buf.drop 4

def okEmpty : List UInt8 :=
  finalize ([0, 0, 0, 0] ++ [statusOk])

def okU64 (val : UInt64) : List UInt8 :=
  finalize ([0, 0, 0, 0] ++ [statusOk] ++ LittleEndian.encode 8 val.toNat)

def okU64Pair (a b : UInt64) : List UInt8 :=
  finalize
    ([0, 0, 0, 0] ++ [statusOk] ++ LittleEndian.encode 8 a.toNat ++ LittleEndian.encode 8 b.toNat)

def okEntry (id ts : UInt64) (payload : List UInt8) : List UInt8 :=
  finalize
    ([0, 0, 0, 0] ++ [statusOk] ++ LittleEndian.encode 8 id.toNat ++ LittleEndian.encode 8 ts.toNat
      ++ LittleEndian.encode 4 payload.length ++ payload)

def okEntries (entries : List (UInt64 × UInt64 × List UInt8)) : List UInt8 :=
  finalize
    ([0, 0, 0, 0] ++ [statusOk] ++ LittleEndian.encode 4 entries.length
      ++ entries.flatMap fun entry =>
        LittleEndian.encode 8 entry.1.toNat ++ LittleEndian.encode 8 entry.2.1.toNat
          ++ LittleEndian.encode 4 entry.2.2.length ++ entry.2.2)

-- `ok_group_list` and `ok_string_list` write the same bytes
def okNames (names : List String) : List UInt8 :=
  finalize
    ([0, 0, 0, 0] ++ [statusOk] ++ LittleEndian.encode 4 names.length
      ++ names.flatMap fun name =>
        LittleEndian.encode 2 name.utf8ByteSize ++ name.toUTF8.data.toList)

def okGroupList (groups : List String) : List UInt8 :=
  okNames groups

def okStringList (keys : List String) : List UInt8 :=
  okNames keys

def okStats (entries : UInt64) (segments : Nat) (nextId : UInt64) : List UInt8 :=
  finalize
    ([0, 0, 0, 0] ++ [statusOk] ++ LittleEndian.encode 8 entries.toNat
      ++ LittleEndian.encode 4 segments ++ LittleEndian.encode 8 nextId.toNat)

def okBytes (val : List UInt8) : List UInt8 :=
  finalize ([0, 0, 0, 0] ++ [statusOk] ++ LittleEndian.encode 4 val.length ++ val)

def okBytesList (items : List (List UInt8)) : List UInt8 :=
  finalize
    ([0, 0, 0, 0] ++ [statusOk] ++ LittleEndian.encode 4 items.length
      ++ items.flatMap fun item => LittleEndian.encode 4 item.length ++ item)

def err (msg : String) : List UInt8 :=
  finalize
    ([0, 0, 0, 0] ++ [statusErr] ++ LittleEndian.encode 2 msg.utf8ByteSize ++ msg.toUTF8.data.toList)

end ResponseBuilder
end MemStream
