import MemStream.Lib.LittleEndian

/-!
This module contains the decoder of `codec.rs` and what the loop of `Server::start` over a connection makes
of it: bytes come in pieces of any size and are appended to the buffer, and after each piece the decoder is
called until it has no more frame. An error ends the loop.
-/

namespace MemStream

inductive ErrorKind where
  | invalidData
  deriving DecidableEq

structure IoError where
  kind : ErrorKind
  msg : String
  deriving DecidableEq

namespace LengthPrefixCodec

def maxFrameSize : Nat :=
  16 * 1024 * 1024

def frameTooLarge (frameLen : Nat) : IoError where
  kind := .invalidData
  msg := "frame too large: " ++ toString frameLen ++ " bytes"

/-- One call of `decode`, with the buffer after it. -/
def decode (src : List UInt8) : Except IoError (Option (List UInt8)) × List UInt8 :=
  if src.length < 4 then
    (.ok none, src)
  else
    let frameLen := LittleEndian.decode (src.take 4)
    if frameLen > maxFrameSize then
      (.error (frameTooLarge frameLen), src)
    else
      let total := 4 + frameLen
      if src.length < total then
        (.ok none, src)
      else
        let src := src.drop 4
        (.ok (some (src.take frameLen)), src.drop frameLen)

theorem decode_shrinks {src frame rest : List UInt8} (h : decode src = (.ok (some frame), rest))
    : rest.length < src.length := by
  unfold decode at h
  split at h
  . simp at h
  . dsimp only at h
    split at h
    . simp at h
    . split at h
      . simp at h
      . simp only [Prod.mk.injEq] at h
        rw [← h.2]
        simp only [List.length_drop]
        omega

-- a response is put into the buffer as it is, it has its length already
def encode (item dst : List UInt8) : List UInt8 :=
  dst ++ item

end LengthPrefixCodec

structure Incoming where
  frames : List (List UInt8)
  buffer : List UInt8
  error : Option IoError
  deriving DecidableEq

namespace Incoming

open LengthPrefixCodec

def new : Incoming where
  frames := []
  buffer := []
  error := none

def drain (conn : Incoming) : Incoming :=
  match _h : decode conn.buffer with
  | (.ok none, buffer) => { conn with buffer := buffer }
  | (.ok (some frame), buffer) =>
    drain { conn with frames := conn.frames ++ [frame], buffer := buffer }
  | (.error e, buffer) => { conn with buffer := buffer, error := some e }
termination_by conn.buffer.length
decreasing_by exact decode_shrinks _h

def feed (conn : Incoming) (chunk : List UInt8) : Incoming :=
  match conn.error with
  | some _ => conn
  | none => drain { conn with buffer := conn.buffer ++ chunk }

end Incoming
end MemStream
