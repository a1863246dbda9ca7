import MemStream.Db.Impl.SegList

/-!
What the lists are for: every key has a queue of byte strings of its own. `Queues` says what the
operations do to the queues; a missing key and an empty queue differ only in the error a caller sees.
`Pooled` adds the account of the free segments, which decides when an operation needs the allocator.
-/

namespace MemStream

abbrev Queues := String → Option (List (List UInt8))

namespace Queues

def empty : Queues :=
  fun _ => none

def get (q : Queues) (key : String) : List (List UInt8) :=
  (q key).getD []

def set (q : Queues) (key : String) (items : List (List UInt8)) : Queues :=
  fun key' => if key' = key then some items else q key'

def tooLarge (payload : List UInt8) : Prop :=
  payload.length + 20 > 65536

instance : DecidablePred tooLarge := fun payload =>
  inferInstanceAs (Decidable (payload.length + 20 > 65536))

def push (q : Queues) (key : String) (payload : List UInt8) : Outcome ListError Unit × Queues :=
  if tooLarge payload then
    (.err .entryTooLarge, q)
  else
    (.ok (), q.set key (q.get key ++ [payload]))

def pushRange (q : Queues) (key : String) : List (List UInt8) → Outcome ListError Unit × Queues
  | [] => (.ok (), q)
  | item :: items =>
    if tooLarge item then
      (.err .entryTooLarge, q)
    else
      (q.set key (q.get key ++ [item])).pushRange key items

def pop (q : Queues) (key : String) : Outcome ListError (List UInt8) × Queues :=
  match q.get key with
  | [] => (.err .keyNotFound, q)
  | item :: items => (.ok item, q.set key items)

def popRange (q : Queues) (key : String) (start stop : Nat)
    : Outcome ListError (List (List UInt8)) × Queues :=
  match q key with
  | none => (.err .keyNotFound, q)
  | some items =>
    if stop > items.length then
      (.err .outOfRange, q)
    else if start > stop then
      (.panic, q)
    else
      (.ok ((items.drop start).take (stop - start)), q.set key (items.take start ++ items.drop stop))

def len (q : Queues) (key : String) : Outcome ListError Nat × Queues :=
  (.ok (q.get key).length, q.set key (q.get key))

def flush (q : Queues) (key : String) : Outcome ListError Unit × Queues :=
  match q key with
  | none => (.err .keyNotFound, q)
  | some _ => (.ok (), q.set key [])

end Queues

structure Pooled where
  free : Nat
  queues : Queues

namespace Pooled

def grow (p : Pooled) (alloc : Bool) : Outcome ListError Unit × Pooled :=
  if alloc then (.ok (), { p with free := p.free + SegList.growth }) else (.panic, p)

def pushFree (p : Pooled) (key : String) (payload : List UInt8) : Outcome ListError Unit × Pooled :=
  if Queues.tooLarge payload then
    (.err .entryTooLarge, p)
  else if p.free = 0 then
    (.panic, p)
  else
    (.ok (), ⟨p.free - 1, p.queues.set key (p.queues.get key ++ [payload])⟩)

def push (p : Pooled) (alloc : Bool) (key : String) (payload : List UInt8)
    : Outcome ListError Unit × Pooled :=
  if p.free = 0 then
    match p.grow alloc with
    | (.ok (), p) => p.pushFree key payload
    | res => res
  else
    p.pushFree key payload

def pushAll (p : Pooled) (alloc : Nat → Bool) (key : String)
    : List (List UInt8) → Outcome ListError Unit × Pooled
  | [] => (.ok (), p)
  | item :: items =>
    match p.push (alloc 0) key item with
    | (.ok (), p) => p.pushAll (fun i => alloc (i + 1)) key items
    | res => res

def pushRange (p : Pooled) (alloc : Nat → Bool) (key : String) (items : List (List UInt8))
    : Outcome ListError Unit × Pooled :=
  if p.free < items.length then
    match p.grow (alloc 0) with
    | (.ok (), p) => p.pushAll (fun i => alloc (i + 1)) key items
    | res => res
  else
    p.pushAll (fun i => alloc (i + 1)) key items

def pop (p : Pooled) (key : String) : Outcome ListError (List UInt8) × Pooled :=
  match p.queues.get key with
  | [] => (.err .keyNotFound, p)
  | item :: items => (.ok item, ⟨p.free + 1, p.queues.set key items⟩)

def popTimes (p : Pooled) (key : String) : Nat → Outcome ListError (List (List UInt8)) × Pooled
  | 0 => (.ok [], p)
  | n + 1 =>
    match p.pop key with
    | (.ok data, p) =>
      let rest := p.popTimes key n
      (rest.1.map (data :: ·), rest.2)
    | (.err e, p) => (.err e, p)
    | (.panic, p) => (.panic, p)

def popCount (p : Pooled) (key : String) (count : Nat)
    : Outcome ListError (List (List UInt8)) × Pooled :=
  if count * 24 > 2 ^ 63 - 1 then (.panic, p) else p.popTimes key (count + 1)

def popRange (p : Pooled) (key : String) (start stop : Nat)
    : Outcome ListError (List (List UInt8)) × Pooled :=
  let res := p.queues.popRange key start stop
  match res.1 with
  | .ok items => (.ok items, ⟨p.free + items.length, res.2⟩)
  | _ => (res.1, p)

def len (p : Pooled) (key : String) : Outcome ListError Nat × Pooled :=
  ((p.queues.len key).1, { p with queues := (p.queues.len key).2 })

def flush (p : Pooled) (key : String) : Outcome ListError Unit × Pooled :=
  let res := p.queues.flush key
  match res.1 with
  | .ok () => (.ok (), ⟨p.free + (p.queues.get key).length, res.2⟩)
  | _ => (res.1, p)

end Pooled
end MemStream
