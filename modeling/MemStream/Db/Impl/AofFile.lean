import MemStream.Db.Impl.Aof
import MemStream.Lib.Outcome

/-!
This module contains the bytes of the append-only file of `aof.rs`. For reading, they are split into lines,
and the lines that are the JSON text of an entry are collected. Blank and corrupt lines are skipped; a line
that is not UTF-8 ends the reading with an error. A writer appends its lines to whatever is there. A path
that does not exist is `none`.

`fromStr` and `toStr` stand for `serde_json::from_str` and `serde_json::to_string`.
-/

namespace MemStream

namespace AofFile

-- `lines` of a buffered reader: a line ends with `\n` or `\r\n`, the last one possibly with none of them
def stripCr (line : List UInt8) : List UInt8 :=
  if line.getLast? = some 0x0D then line.dropLast else line

def splitLines (line : List UInt8) : List UInt8 → List (List UInt8)
  | [] => if line = [] then [] else [line]
  | b :: bs =>
    if b = 0x0A then
      stripCr line :: splitLines [] bs
    else
      splitLines (line ++ [b]) bs

def lines (bytes : List UInt8) : List (List UInt8) :=
  splitLines [] bytes

def isWhitespace (c : Char) : Bool :=
  let n := c.toNat
  (0x09 ≤ n && n ≤ 0x0D) || n = 0x20 || n = 0x85 || n = 0xA0 || n = 0x1680
    || (0x2000 ≤ n && n ≤ 0x200A) || n = 0x2028 || n = 0x2029 || n = 0x202F || n = 0x205F || n = 0x3000

def trim (line : String) : String :=
  String.ofList ((line.toList.dropWhile isWhitespace).reverse.dropWhile isWhitespace).reverse

def utf8Error : String :=
  "stream did not contain valid UTF-8"

def decodeLine (line : List UInt8) : Option String :=
  String.fromUTF8? ⟨line.toArray⟩

variable (fromStr : String → Option AofEntry) {γ : Type} (push : γ → AofEntry → γ)

def loadLines (entries : γ) : List (List UInt8) → Outcome String γ
  | [] => .ok entries
  | line :: rest =>
    match decodeLine line with
    | none => .err utf8Error
    | some line =>
      let line := trim line
      if line.isEmpty then
        loadLines entries rest
      else
        match fromStr line with
        | some entry => loadLines (push entries entry) rest
        | none => loadLines entries rest

def load (default : γ) : Option (List UInt8) → Outcome String γ
  | none => .ok default
  | some bytes => loadLines fromStr push default (lines bytes)

def loadAof : Option (List UInt8) → Outcome String (List AofEntry) :=
  load fromStr (fun entries entry => entries ++ [entry]) []

def loadAofSeparated : Option (List UInt8) → Outcome String AofEntries :=
  load fromStr AofEntries.push AofEntries.empty

section Writer

variable (toStr : AofEntry → String)

def line (entry : AofEntry) : List UInt8 :=
  (toStr entry).toUTF8.data.toList ++ [0x0A]

def aofWorker (file : Option (List UInt8)) (entries : List AofEntry) : List UInt8 :=
  file.getD [] ++ entries.flatMap (line toStr)

end Writer

def ValidUtf8 (file : Option (List UInt8)) : Prop :=
  ∀ bytes, file = some bytes → ∀ line ∈ lines bytes, (decodeLine line).isSome

end AofFile
end MemStream
