import Mathlib.Data.List.Sort
import Mathlib.Data.String.Basic

/-!
This module contains the values of `serde_json`, and what the handlers of the HTTP interface ask them for. An
object has its fields in the order of their names, as the map in it has.
-/

namespace MemStream

-- a number that is not an integer is kept as its bits
inductive Number where
  | posInt (n : UInt64)
  | negInt (n : Int64)
  | float (bits : UInt64)

inductive Value where
  | null
  | bool (b : Bool)
  | number (n : Number)
  | string (s : String)
  | array (items : List Value)
  | object (fields : List (String × Value))

namespace Value

def get (val : Value) (name : String) : Option Value :=
  match val with
  | .object fields => (fields.find? fun field => field.1 = name).map (·.2)
  | _ => none

def asU64 : Value → Option UInt64
  | .number (.posInt n) => some n
  | _ => none

def asStr : Value → Option String
  | .string s => some s
  | _ => none

-- `serde_json::from_value` where a `Vec<String>` is asked for
def asStrings : Value → Option (List String)
  | .array items => items.mapM asStr
  | _ => none

def ofU64 (n : UInt64) : Value :=
  .number (.posInt n)

def ofStrings (vals : List String) : Value :=
  .array (vals.map .string)

def json (fields : List (String × Value)) : Value :=
  .object (fields.insertionSort fun a b => a.1 ≤ b.1)

end Value
end MemStream
