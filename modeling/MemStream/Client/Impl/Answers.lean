import MemStream.Lib.LittleEndian
import MemStream.Lib.Outcome
import MemStream.Lib.Utf8

/-!
This module contains what the functions of the client in `client.rs` make of the answer to their request:
the value they return, or the message of the server. Indices and slices beyond the end of the answer
panic.
-/

namespace MemStream
namespace StreamClient

variable {α : Type}

def byteAt (resp : List UInt8) (i : Nat) : Outcome String UInt8 :=
  match resp[i]? with
  | some b => .ok b
  | none => .panic

def slice (resp : List UInt8) (start stop : Nat) : Outcome String (List UInt8) :=
  if start ≤ stop ∧ stop ≤ resp.length then
    .ok ((resp.drop start).take (stop - start))
  else
    .panic

def u16At (resp : List UInt8) (pos : Nat) : Outcome String Nat := do
  let bytes ← slice resp pos (pos + 2)
  return LittleEndian.decode bytes

def u32At (resp : List UInt8) (pos : Nat) : Outcome String Nat := do
  let bytes ← slice resp pos (pos + 4)
  return LittleEndian.decode bytes

def u64At (resp : List UInt8) (pos : Nat) : Outcome String UInt64 := do
  let bytes ← slice resp pos (pos + 8)
  return UInt64.ofNat (LittleEndian.decode bytes)

def extractErr (resp : List UInt8) : String :=
  if resp.length < 4 then
    "unknown error"
  else
    let msgLen := LittleEndian.decode ((resp.drop 1).take 2)
    if resp.length ≥ 3 + msgLen then
      Utf8.fromUtf8Lossy ((resp.drop 3).take msgLen)
    else
      "malformed error response"

def checkStatus (resp : List UInt8) : Outcome String Unit :=
  match resp with
  | [] => .err "empty response"
  | status :: _ => if status = 0x00 then .ok () else .err (extractErr resp)

def fixedAnswer (minLen : Nat) (read : List UInt8 → Outcome String α) (resp : List UInt8)
    : Outcome String α := do
  let status ← byteAt resp 0
  if status = 0x00 ∧ resp.length ≥ minLen then
    read resp
  else
    .err (extractErr resp)

-- the loops `for _ in 0..count`, with the position behind each item
def itemsAt (item : List UInt8 → Nat → Outcome String (α × Nat)) (resp : List UInt8)
    : Nat → Nat → Outcome String (List α)
  | 0, _ => return []
  | count + 1, pos => do
    let res ← item resp pos
    let vals ← itemsAt item resp count res.2
    return res.1 :: vals

def countedItems (item : List UInt8 → Nat → Outcome String (α × Nat)) (resp : List UInt8)
    : Outcome String (List α) := do
  let count ← u32At resp 1
  itemsAt item resp count 5

def entryAt (resp : List UInt8) (pos : Nat)
    : Outcome String ((UInt64 × UInt64 × List UInt8) × Nat) := do
  let id ← u64At resp pos
  let ts ← u64At resp (pos + 8)
  let plen ← u32At resp (pos + 16)
  let payload ← slice resp (pos + 20) (pos + 20 + plen)
  return ((id, ts, payload), pos + 20 + plen)

def nameAt (resp : List UInt8) (pos : Nat) : Outcome String (String × Nat) := do
  let len ← u16At resp pos
  let name ← slice resp (pos + 2) (pos + 2 + len)
  return (Utf8.fromUtf8Lossy name, pos + 2 + len)

def bytesAt (resp : List UInt8) (pos : Nat) : Outcome String (List UInt8 × Nat) := do
  let len ← u32At resp pos
  let bytes ← slice resp (pos + 4) (pos + 4 + len)
  return (bytes, pos + 4 + len)

def statusAnswer (read : List UInt8 → Outcome String α) (resp : List UInt8) : Outcome String α := do
  let status ← byteAt resp 0
  if status ≠ 0x00 then
    .err (extractErr resp)
  else
    read resp

def recv (sent : List UInt8) : List UInt8 :=
  (sent.drop 4).take (LittleEndian.decode (sent.take 4))

-- a missing value is an answer without fields, and a value of no bytes is taken for a missing one
def optionAnswer (resp : List UInt8) : Outcome String (Option (List UInt8)) :=
  statusAnswer
    (fun resp =>
      if resp.length < 5 then
        return none
      else do
        let len ← u32At resp 1
        if len = 0 then
          return none
        else do
          let val ← slice resp 5 (5 + len)
          return some val)
    resp

def createGroupAnswer (resp : List UInt8) : Outcome String Unit :=
  checkStatus resp

def dropGroupAnswer (resp : List UInt8) : Outcome String Unit :=
  checkStatus resp

def addAnswer (resp : List UInt8) : Outcome String UInt64 :=
  fixedAnswer 9 (fun resp => u64At resp 1) resp

def addRangeAnswer (resp : List UInt8) : Outcome String (UInt64 × UInt64) :=
  fixedAnswer 17
    (fun resp => do
      let first ← u64At resp 1
      let last ← u64At resp 9
      return (first, last))
    resp

def readAnswer (resp : List UInt8) : Outcome String (UInt64 × UInt64 × List UInt8) :=
  fixedAnswer 21
    (fun resp => do
      let entryId ← u64At resp 1
      let ts ← u64At resp 9
      let plen ← u32At resp 17
      let payload ← slice resp 21 (21 + plen)
      return (entryId, ts, payload))
    resp

def readRangeAnswer (resp : List UInt8) : Outcome String (List (UInt64 × UInt64 × List UInt8)) :=
  fixedAnswer 5 (countedItems entryAt) resp

def removeAnswer (resp : List UInt8) : Outcome String Unit :=
  checkStatus resp

def listGroupsAnswer (resp : List UInt8) : Outcome String (List String) :=
  fixedAnswer 5 (countedItems nameAt) resp

def groupStatsAnswer (resp : List UInt8) : Outcome String (UInt64 × UInt32 × UInt64) :=
  fixedAnswer 21
    (fun resp => do
      let entries ← u64At resp 1
      let segments ← u32At resp 9
      let nextId ← u64At resp 13
      return (entries, UInt32.ofNat segments, nextId))
    resp

def kvSetAnswer (resp : List UInt8) : Outcome String Unit :=
  checkStatus resp

def kvGetAnswer (resp : List UInt8) : Outcome String (Option (List UInt8)) :=
  optionAnswer resp

def kvDelAnswer (resp : List UInt8) : Outcome String Unit :=
  checkStatus resp

def kvKeysAnswer (resp : List UInt8) : Outcome String (List String) :=
  statusAnswer (countedItems nameAt) resp

def kvFlushAnswer (resp : List UInt8) : Outcome String Unit :=
  checkStatus resp

def lPushAnswer (resp : List UInt8) : Outcome String Unit :=
  checkStatus resp

def lPushRangeAnswer (resp : List UInt8) : Outcome String Unit :=
  checkStatus resp

def lPopAnswer (resp : List UInt8) : Outcome String (Option (List UInt8)) :=
  optionAnswer resp

def lPopRangeAnswer (resp : List UInt8) : Outcome String (List (List UInt8)) :=
  statusAnswer (countedItems bytesAt) resp

def lPopCountAnswer (resp : List UInt8) : Outcome String (List (List UInt8)) :=
  statusAnswer (countedItems bytesAt) resp

def lLenAnswer (resp : List UInt8) : Outcome String UInt64 :=
  fixedAnswer 9 (fun resp => u64At resp 1) resp

def lFlushAnswer (resp : List UInt8) : Outcome String Unit :=
  checkStatus resp

end StreamClient
end MemStream
