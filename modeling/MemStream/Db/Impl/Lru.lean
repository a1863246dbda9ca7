import Mathlib.Algebra.Group.Nat.Defs
import Mathlib.Data.List.AList
import Mathlib.Data.Option.Basic

/-!
This module contains the cache of `lru.rs`. Its entries are in slots of a vector and are linked up from
the most to the least recently used one by the numbers of their slots.

Every function that indexes a vector or unwraps an entry has no result if that panics. `now` is the
reading of the monotonic clock, in nanoseconds.
-/

namespace MemStream

namespace Lru

def null : Nat := 2 ^ 64 - 1

structure Entry (ν : Type) where
  value : ν
  expiresAt : Nat
  prev : Nat
  next : Nat

end Lru

structure Lru (κ ν : Type) where
  map : AList fun _ : κ => Nat
  reverse : List (Option κ)
  entries : List (Option (Lru.Entry ν))
  free : List Nat
  head : Nat
  tail : Nat
  ttl : Nat
  cap : Nat

namespace Lru

variable {κ ν : Type}

def new (cap ttl : Nat) : Lru κ ν where
  map := ∅
  reverse := []
  entries := []
  free := []
  head := null
  tail := null
  ttl := ttl
  cap := cap

def modify (entries : List (Option (Entry ν))) (idx : Nat) (f : Entry ν → Entry ν)
    : Option (List (Option (Entry ν))) :=
  match entries[idx]? with
  | some (some e) => some (entries.set idx (some (f e)))
  | _ => none

def put {α : Type} (vec : List α) (idx : Nat) (a : α) : Option (List α) :=
  if idx < vec.length then some (vec.set idx a) else none

def allocSlot (lru : Lru κ ν) (key : κ) (entry : Entry ν) : Option (Nat × Lru κ ν) :=
  match lru.free.getLast? with
  | some idx => do
    let entries ← put lru.entries idx (some entry)
    let reverse ← put lru.reverse idx (some key)
    return (idx, { lru with free := lru.free.dropLast, entries := entries, reverse := reverse })
  | none =>
    some (lru.entries.length,
      { lru with entries := lru.entries ++ [some entry], reverse := lru.reverse ++ [some key] })

def setNext (lru : Lru κ ν) (prev next : Nat) : Option (Lru κ ν) :=
  if prev ≠ null then
    (modify lru.entries prev ({ · with next := next })).map ({ lru with entries := · })
  else
    some { lru with head := next }

def setPrev (lru : Lru κ ν) (prev next : Nat) : Option (Lru κ ν) :=
  if next ≠ null then
    (modify lru.entries next ({ · with prev := prev })).map ({ lru with entries := · })
  else
    some { lru with tail := prev }

def detach (lru : Lru κ ν) (idx : Nat) : Option (Lru κ ν) := do
  let e ← lru.entries[idx]?.join
  let lru ← lru.setNext e.prev e.next
  lru.setPrev e.prev e.next

def attachFront (lru : Lru κ ν) (idx : Nat) : Option (Lru κ ν) := do
  let entries ← modify lru.entries idx ({ · with prev := null, next := lru.head })
  if lru.head ≠ null then
    let entries ← modify entries lru.head ({ · with prev := idx })
    return { lru with entries := entries, head := idx }
  else
    return { lru with entries := entries, tail := idx, head := idx }

variable [DecidableEq κ]

def evict (lru : Lru κ ν) : Option (Lru κ ν) :=
  if lru.tail ≠ null then do
    let idx := lru.tail
    let lru ← lru.detach idx
    let map :=
      match lru.reverse[idx]? with
      | some (some oldKey) => lru.map.erase oldKey
      | _ => lru.map
    let entries ← put lru.entries idx none
    let reverse ← put lru.reverse idx none
    return { lru with map := map, entries := entries, reverse := reverse, free := lru.free ++ [idx] }
  else
    some lru

def insert (lru : Lru κ ν) (now : Nat) (key : κ) (value : ν) : Option (Lru κ ν) := do
  let expiresAt := now + lru.ttl
  match lru.map.lookup key with
  | some idx =>
    let lru ← lru.detach idx
    let entries ← modify lru.entries idx fun _ => ⟨value, expiresAt, null, null⟩
    { lru with entries := entries }.attachFront idx
  | none =>
    let lru ← if lru.map.entries.length = lru.cap then lru.evict else some lru
    let (idx, lru) ← lru.allocSlot key ⟨value, expiresAt, null, null⟩
    { lru with map := lru.map.insert key idx }.attachFront idx

def remove (lru : Lru κ ν) (key : κ) : Option (Option ν × Lru κ ν) :=
  match lru.map.lookup key with
  | none => some (none, lru)
  | some idx => do
    let lru ← { lru with map := lru.map.erase key }.detach idx
    let reverse ← put lru.reverse idx none
    let lru := { lru with reverse := reverse }
    match lru.entries[idx]? with
    | none => none
    | some none => some (none, lru)
    | some (some entry) =>
      some (some entry.value,
        { lru with entries := lru.entries.set idx none, free := lru.free ++ [idx] })

def get (lru : Lru κ ν) (now : Nat) (key : κ) : Option (Option ν × Lru κ ν) :=
  match lru.map.lookup key with
  | none => some (none, lru)
  | some idx =>
    match lru.entries[idx]? with
    | none => none
    | some none => some (none, lru)
    | some (some e) =>
      if e.expiresAt < now then do
        let (_, lru) ← lru.remove key
        return (none, lru)
      else do
        let lru ← lru.detach idx
        let lru ← lru.attachFront idx
        match lru.entries[idx]? with
        | none => none
        | some e => some (e.map (·.value), lru)

end Lru
end MemStream
