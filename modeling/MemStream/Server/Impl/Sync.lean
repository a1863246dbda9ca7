import MemStream.Db.Impl.Base64
import MemStream.Lib.Framing
import MemStream.Server.Impl.Proto

/-!
This module contains what a leader writes in `sync_follower` of `ha.rs` and what a follower makes of the
items of an `HaSync` in `handle_command` of `server.rs`.
-/

namespace MemStream

variable (toVec : AofEntry → List UInt8) (fromSlice : List UInt8 → Except String AofEntry)

def syncFrame (entries : List AofEntry) : List UInt8 :=
  let encoded := entries.map fun e => (e.toBase64 toVec).toUTF8.data.toList
  [haSync] ++ LittleEndian.encode 4 encoded.length
    ++ encoded.flatMap fun b => LittleEndian.encode 4 b.length ++ b

-- the two writes of `send_recv`
def sendRecvBytes (frame : List UInt8) : List UInt8 :=
  LittleEndian.encode 4 frame.length ++ frame

def catchUp (aofCopy : List AofEntry) : List (List UInt8) :=
  if aofCopy.isEmpty then [] else [sendRecvBytes (syncFrame toVec aofCopy)]

-- both results are unwrapped
def decodeEntries : List (List UInt8) → Outcome String (List AofEntry)
  | [] => .ok []
  | raw :: entries =>
    match String.fromUTF8? ⟨raw.toArray⟩ with
    | none => .panic
    | some s =>
      match fromBase64 fromSlice s with
      | .error _ => .panic
      | .ok entry => (decodeEntries entries).map (entry :: ·)

end MemStream
