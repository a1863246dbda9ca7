import Mathlib.Data.List.Basic

/-!
What a cache is for: a list of keys with their values, from the most to the least recently used one,
that holds at most `cap` of them and forgets the last one when another key comes in.
-/

namespace MemStream

structure Slot (κ ν : Type) where
  key : κ
  value : ν
  expiresAt : Nat

abbrev Recency (κ ν : Type) := List (Slot κ ν)

namespace Recency

variable {κ ν : Type} [DecidableEq κ]

def find (r : Recency κ ν) (key : κ) : Option (Slot κ ν) :=
  r.find? (·.key = key)

def without (r : Recency κ ν) (key : κ) : Recency κ ν :=
  r.filter (·.key ≠ key)

theorem find_eq_some {r : Recency κ ν} {key : κ} {slot : Slot κ ν} (h : r.find key = some slot)
    : slot ∈ r ∧ slot.key = key := by
  unfold find at h
  constructor
  . apply List.mem_of_find?_eq_some h
  . simpa using List.find?_some h

theorem mem_without {r : Recency κ ν} {key : κ} {slot : Slot κ ν}
    : slot ∈ r.without key ↔ slot ∈ r ∧ slot.key ≠ key := by
  unfold without
  rw [List.mem_filter]
  simp

def insert (r : Recency κ ν) (cap ttl now : Nat) (key : κ) (value : ν) : Recency κ ν :=
  let slot := ⟨key, value, now + ttl⟩
  match r.find key with
  | some _ => slot :: r.without key
  | none => slot :: if r.length = cap then r.dropLast else r

def remove (r : Recency κ ν) (key : κ) : Option ν × Recency κ ν :=
  ((r.find key).map (·.value), r.without key)

def get (r : Recency κ ν) (now : Nat) (key : κ) : Option ν × Recency κ ν :=
  match r.find key with
  | none => (none, r)
  | some slot =>
    if slot.expiresAt < now then
      (none, r.without key)
    else
      (some slot.value, slot :: r.without key)

inductive Op (κ ν : Type) where
  | insert (now : Nat) (key : κ) (value : ν)
  | get (now : Nat) (key : κ)
  | remove (key : κ)

def step (cap ttl : Nat) (r : Recency κ ν) : Op κ ν → Option ν × Recency κ ν
  | .insert now key value => (none, r.insert cap ttl now key value)
  | .get now key => r.get now key
  | .remove key => r.remove key

def lastInsert (ops : List (Op κ ν)) (key : κ) : Option (Nat × ν) :=
  ops.foldl
    (fun last op =>
      match op with
      | .insert now key' value => if key' = key then some (now, value) else last
      | _ => last)
    none

end Recency
end MemStream
