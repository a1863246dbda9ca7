import MemStream.Db.Impl.Aof
import MemStream.Lib.Outcome

/-!
This module contains `to_base64` and `from_base64` of `aof.rs`: the bytes of the JSON text of an entry,
three at a time as four characters. `toVec` and `fromSlice` stand for `serde_json::to_vec` and
`serde_json::from_slice`. None of the sums of shifted bytes reaches the width of a `u32`.
-/

namespace MemStream
namespace Base64

def chars : List Char :=
  "ABCDEFGHIJKLMNOPQRSTUVWXYZabcdefghijklmnopqrstuvwxyz0123456789+/".toList

theorem and_lt_length (n : Nat) : n &&& 63 < chars.length := by
  have := Nat.and_le_right (n := n) (m := 63)
  have hlength : chars.length = 64 := by decide
  omega

def charAt (n : Nat) : Char :=
  chars.get ⟨n &&& 63, and_lt_length n⟩

def encode : List UInt8 → List Char
  | b0 :: b1 :: b2 :: rest =>
    let b := (b0.toNat <<< 16) ||| (b1.toNat <<< 8) ||| b2.toNat
    charAt (b >>> 18) :: charAt (b >>> 12) :: charAt (b >>> 6) :: charAt b :: encode rest
  | [b0, b1] =>
    let b := (b0.toNat <<< 16) ||| (b1.toNat <<< 8)
    [charAt (b >>> 18), charAt (b >>> 12), charAt (b >>> 6), '=']
  | [b0] =>
    let b := b0.toNat <<< 16
    [charAt (b >>> 18), charAt (b >>> 12), '=', '=']
  | [] => []

-- the codes of `A`, `Z`, `a`, `z`, `0`, `9`, `+` and `/`
def decodeChar (c : UInt8) : UInt8 :=
  if 65 ≤ c ∧ c ≤ 90 then c - 65
  else if 97 ≤ c ∧ c ≤ 122 then c - 97 + 26
  else if 48 ≤ c ∧ c ≤ 57 then c - 48 + 52
  else if c = 43 then 62
  else if c = 47 then 63
  else 0

-- 61 is the code of `=`; what is left at the end of less than four bytes is not looked at
def decode : List UInt8 → List UInt8
  | c0 :: c1 :: c2 :: c3 :: rest =>
    let b := ((decodeChar c0).toNat <<< 18) ||| ((decodeChar c1).toNat <<< 12)
      ||| ((decodeChar c2).toNat <<< 6) ||| (decodeChar c3).toNat
    [UInt8.ofNat (b >>> 16)] ++ (if c2 ≠ 61 then [UInt8.ofNat (b >>> 8)] else [])
      ++ (if c3 ≠ 61 then [UInt8.ofNat b] else []) ++ decode rest
  | _ => []

/-
The loops of the source over the positions of the bytes, in `u32`. They compute `encode` and `decode`.
-/

def encodeLoop (json : List UInt8) (i : Nat) (out : List Char) : List Char :=
  if h : i + 2 < json.length then
    let b := (json[i].toUInt32 <<< 16) ||| (json[i + 1].toUInt32 <<< 8) ||| json[i + 2].toUInt32
    encodeLoop json (i + 3)
      (out ++ [charAt (b >>> 18).toNat, charAt (b >>> 12).toNat, charAt (b >>> 6).toNat,
        charAt b.toNat])
  else
    match hrest : json.length - i with
    | 1 =>
      let b := json[i].toUInt32 <<< 16
      out ++ [charAt (b >>> 18).toNat, charAt (b >>> 12).toNat] ++ ['=', '=']
    | 2 =>
      let b := (json[i].toUInt32 <<< 16) ||| (json[i + 1].toUInt32 <<< 8)
      out ++ [charAt (b >>> 18).toNat, charAt (b >>> 12).toNat, charAt (b >>> 6).toNat] ++ ['=']
    | _ => out
termination_by json.length - i

def decodeLoop (s : List UInt8) (i : Nat) (out : List UInt8) : List UInt8 :=
  if h : i + 3 < s.length then
    let b := ((decodeChar s[i]).toUInt32 <<< 18) ||| ((decodeChar s[i + 1]).toUInt32 <<< 12)
      ||| ((decodeChar s[i + 2]).toUInt32 <<< 6) ||| (decodeChar s[i + 3]).toUInt32
    decodeLoop s (i + 4)
      (out ++ [(b >>> 16).toUInt8] ++ (if s[i + 2] ≠ 61 then [(b >>> 8).toUInt8] else [])
        ++ (if s[i + 3] ≠ 61 then [b.toUInt8] else []))
  else
    out
termination_by s.length - i

end Base64

def AofEntry.toBase64 (toVec : AofEntry → List UInt8) (entry : AofEntry) : String :=
  String.ofList (Base64.encode (toVec entry))

def fromBase64 (fromSlice : List UInt8 → Except String AofEntry) (s : String) : Except String AofEntry :=
  fromSlice (Base64.decode s.toUTF8.data.toList)

end MemStream
