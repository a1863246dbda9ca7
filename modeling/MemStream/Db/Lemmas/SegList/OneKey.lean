import MemStream.Db.Lemmas.SegList.Batch

namespace MemStream

namespace Queues

def only (q : Queues) (key : String) : Queues :=
  fun key' => if key' = key then q key else none

theorem only_self (q : Queues) (key : String) : q.only key key = q key := by
  unfold only
  rw [if_pos rfl]

theorem get_only (q : Queues) (key : String) : (q.only key).get key = q.get key := by
  unfold get
  rw [only_self]

theorem set_only (q : Queues) (key : String) (items : List (List UInt8))
    : (q.set key items).only key = (q.only key).set key items := by
  funext key'
  unfold only set
  split
  . rw [if_pos rfl]
  . next hne => exact (if_neg hne).symm

theorem only_inj {q q' : Queues} {key : String} : q.only key = q'.only key ↔ q key = q' key := by
  constructor
  . intro h
    rw [← q.only_self key, h, only_self]
  . intro h
    unfold only
    rw [h]

structure Keeps (f : Queues → Queues) (key : String) : Prop where
  get : ∀ q, (f q).get key = q.get key
  set : ∀ q items, f (q.set key items) = (f q).set key items

theorem keeps_only (key : String) : Keeps (fun q => q.only key) key where
  get := fun q => q.get_only key
  set := fun q items => q.set_only key items

end Queues

namespace Pooled

def only (p : Pooled) (key : String) : Pooled where
  free := p.free
  queues := p.queues.only key

theorem only_inj {p p' : Pooled} {key : String}
    : p.only key = p'.only key ↔ p.free = p'.free ∧ p.queues key = p'.queues key := by
  unfold only
  rw [Pooled.mk.injEq, Queues.only_inj]

def mapQueues (p : Pooled) (f : Queues → Queues) : Pooled where
  free := p.free
  queues := f p.queues

variable (p : Pooled) {f : Queues → Queues} {key : String}

theorem pushFree_mapQueues (h : Queues.Keeps f key) (payload : List UInt8)
    : (p.mapQueues f).pushFree key payload
        =
      ((p.pushFree key payload).1, (p.pushFree key payload).2.mapQueues f) := by
  unfold pushFree mapQueues
  dsimp only
  split
  . rfl
  . split
    . rfl
    . rw [h.get, h.set]

theorem push_mapQueues (h : Queues.Keeps f key) (alloc : Bool) (payload : List UInt8)
    : (p.mapQueues f).push alloc key payload
        =
      ((p.push alloc key payload).1, (p.push alloc key payload).2.mapQueues f) := by
  have hfree : (p.mapQueues f).free = p.free := by rfl
  unfold push grow
  rw [hfree]
  split
  . cases alloc with
    | true => exact pushFree_mapQueues { p with free := p.free + SegList.growth } h payload
    | false => rfl
  . exact pushFree_mapQueues p h payload

theorem pushAll_mapQueues (h : Queues.Keeps f key) (alloc : Nat → Bool) (items : List (List UInt8))
    : (p.mapQueues f).pushAll alloc key items
        =
      ((p.pushAll alloc key items).1, (p.pushAll alloc key items).2.mapQueues f) := by
  induction items generalizing p alloc with
  | nil => rfl
  | cons item items ih =>
    unfold pushAll
    rw [push_mapQueues p h]
    rcases p.push (alloc 0) key item with ⟨res, p'⟩
    cases res with
    | ok val => exact ih p' _
    | err e => rfl
    | panic => rfl

theorem pushRange_mapQueues (h : Queues.Keeps f key) (alloc : Nat → Bool) (items : List (List UInt8))
    : (p.mapQueues f).pushRange alloc key items
        =
      ((p.pushRange alloc key items).1, (p.pushRange alloc key items).2.mapQueues f) := by
  have hfree : (p.mapQueues f).free = p.free := by rfl
  unfold pushRange grow
  rw [hfree]
  split
  . cases alloc 0 with
    | true => exact pushAll_mapQueues { p with free := p.free + SegList.growth } h _ items
    | false => rfl
  . exact pushAll_mapQueues p h _ items

theorem pop_mapQueues (h : Queues.Keeps f key)
    : (p.mapQueues f).pop key = ((p.pop key).1, (p.pop key).2.mapQueues f) := by
  have hget : (p.mapQueues f).queues.get key = p.queues.get key := h.get p.queues
  unfold pop
  rw [hget]
  split
  . rfl
  . unfold mapQueues
    rw [h.set]

theorem popTimes_mapQueues (h : Queues.Keeps f key) (n : Nat)
    : (p.mapQueues f).popTimes key n
        =
      ((p.popTimes key n).1, (p.popTimes key n).2.mapQueues f) := by
  induction n generalizing p with
  | zero => rfl
  | succ n ih =>
    unfold popTimes
    rw [pop_mapQueues p h]
    rcases p.pop key with ⟨res, p'⟩
    cases res with
    | ok data =>
      dsimp only
      rw [ih]
    | err e => rfl
    | panic => rfl

theorem popCount_mapQueues (h : Queues.Keeps f key) (count : Nat)
    : (p.mapQueues f).popCount key count
        =
      ((p.popCount key count).1, (p.popCount key count).2.mapQueues f) := by
  unfold popCount
  split
  . rfl
  . exact popTimes_mapQueues p h _

theorem len_mapQueues (h : Queues.Keeps f key)
    : (p.mapQueues f).len key = ((p.len key).1, (p.len key).2.mapQueues f) := by
  unfold len Queues.len mapQueues
  dsimp only
  rw [h.get, h.set]

-- `pop_range` and `flush` tell a missing key from an empty queue
theorem popRange_mapQueues (h : Queues.Keeps f key) (hqueue : f p.queues key = p.queues key)
    (start stop : Nat)
    : (p.mapQueues f).popRange key start stop
        =
      ((p.popRange key start stop).1, (p.popRange key start stop).2.mapQueues f) := by
  have hqueue' : (p.mapQueues f).queues key = p.queues key := hqueue
  unfold popRange Queues.popRange
  rw [hqueue']
  cases p.queues key with
  | none => rfl
  | some items =>
    by_cases hstop : stop > items.length
    . simp only [hstop, if_true]
    . by_cases hstart : start > stop
      . simp only [hstop, hstart, if_true, if_false]
      . simp only [hstop, hstart, if_false]
        unfold mapQueues
        rw [h.set]

theorem flush_mapQueues (h : Queues.Keeps f key) (hqueue : f p.queues key = p.queues key)
    : (p.mapQueues f).flush key = ((p.flush key).1, (p.flush key).2.mapQueues f) := by
  have hqueue' : (p.mapQueues f).queues key = p.queues key := hqueue
  have hget : (p.mapQueues f).queues.get key = p.queues.get key := h.get p.queues
  unfold flush Queues.flush
  rw [hqueue', hget]
  cases p.queues key with
  | none => rfl
  | some items =>
    dsimp only
    unfold mapQueues
    rw [h.set]

/-
When an operation leaves the queue of its key and the number of the free segments as they are.
-/

variable {p}

theorem only_ne_of_get {p' : Pooled} (h : p'.queues.get key ≠ p.queues.get key)
    : p'.only key ≠ p.only key := by
  intro heq
  apply h
  rw [← Queues.get_only p'.queues, ← Queues.get_only p.queues]
  exact congrArg (fun p : Pooled => p.queues.get key) heq

theorem pushFree_only_eq_iff (h : p.free ≠ 0) (payload : List UInt8)
    : (p.pushFree key payload).2.only key = p.only key ↔ Queues.tooLarge payload := by
  by_cases hlarge : Queues.tooLarge payload
  . rw [pushFree_of_tooLarge key hlarge]
    simp [hlarge]
  . rw [pushFree_of_fits key hlarge h]
    simp only [hlarge, iff_false]
    apply only_ne_of_get
    simp [Queues.set_get]

theorem push_only_eq_iff (alloc : Bool) (payload : List UInt8)
    : (p.push alloc key payload).2.only key = p.only key
        ↔
      if p.free = 0 then alloc = false else Queues.tooLarge payload := by
  unfold push grow
  by_cases hfree : p.free = 0
  . rw [if_pos hfree, if_pos hfree]
    cases alloc with
    | true =>
      simp only [if_true, Bool.true_eq_false, iff_false]
      intro heq
      have hcount := (only_inj.mp heq).1
      revert hcount
      unfold pushFree
      split
      . simp [growth_eq]
      . rw [if_neg (by simp [growth_eq])]
        simp only [growth_eq]
        omega
    | false => simp
  . rw [if_neg hfree, if_neg hfree]
    exact pushFree_only_eq_iff hfree payload

theorem get_prefix_pushFree (p : Pooled) (key : String) (payload : List UInt8)
    : p.queues.get key <+: (p.pushFree key payload).2.queues.get key := by
  unfold pushFree
  split
  . exact List.prefix_refl _
  . split
    . exact List.prefix_refl _
    . rw [Queues.set_get]
      exact List.prefix_append _ _

theorem get_prefix_push (p : Pooled) (key : String) (alloc : Bool) (payload : List UInt8)
    : p.queues.get key <+: (p.push alloc key payload).2.queues.get key := by
  unfold push grow
  split
  . cases alloc with
    | true => exact get_prefix_pushFree { p with free := p.free + SegList.growth } key payload
    | false => exact List.prefix_refl _
  . exact get_prefix_pushFree p key payload

theorem get_prefix_pushAll (p : Pooled) (key : String) (alloc : Nat → Bool) (items : List (List UInt8))
    : p.queues.get key <+: (p.pushAll alloc key items).2.queues.get key := by
  induction items generalizing p alloc with
  | nil => exact List.prefix_refl _
  | cons item items ih =>
    have hpush := get_prefix_push p key (alloc 0) item
    unfold pushAll
    rcases hres : p.push (alloc 0) key item with ⟨res, p'⟩
    rw [hres] at hpush
    cases res with
    | ok val => exact hpush.trans (ih p' _)
    | err e => exact hpush
    | panic => exact hpush

theorem pushAll_of_tooLarge (h : p.free ≠ 0) (alloc : Nat → Bool) {item : List UInt8}
    (hlarge : Queues.tooLarge item) (items : List (List UInt8))
    : (p.pushAll alloc key (item :: items)).2 = p := by
  unfold pushAll push
  rw [if_neg h, pushFree_of_tooLarge key hlarge]

theorem pushAll_of_fits (h : p.free ≠ 0) (alloc : Nat → Bool) {item : List UInt8}
    (hfits : ¬Queues.tooLarge item) (items : List (List UInt8))
    : (p.pushAll alloc key (item :: items)).2.queues.get key ≠ p.queues.get key := by
  unfold pushAll push
  rw [if_neg h, pushFree_of_fits key hfits h]
  dsimp only
  intro heq
  have hprefix := get_prefix_pushAll
    ⟨p.free - 1, p.queues.set key (p.queues.get key ++ [item])⟩ key (fun i => alloc (i + 1)) items
  rw [heq, Queues.set_get] at hprefix
  have hle := hprefix.length_le
  rw [List.length_append, List.length_singleton] at hle
  omega

theorem pushAll_only_eq_iff (h : p.free ≠ 0) (alloc : Nat → Bool) (item : List UInt8)
    (items : List (List UInt8))
    : (p.pushAll alloc key (item :: items)).2.only key = p.only key ↔ Queues.tooLarge item := by
  by_cases hlarge : Queues.tooLarge item
  . rw [pushAll_of_tooLarge h _ hlarge]
    simp [hlarge]
  . simp only [hlarge, iff_false]
    apply only_ne_of_get
    exact pushAll_of_fits h _ hlarge items

theorem pushAll_grown_only_ne (p : Pooled) (key : String) (alloc : Nat → Bool) (item : List UInt8)
    (items : List (List UInt8))
    : ({ p with free := p.free + SegList.growth }.pushAll alloc key (item :: items)).2.only key
        ≠
      p.only key := by
  have hfree : p.free + SegList.growth ≠ 0 := by
    rw [growth_eq]
    omega
  by_cases hlarge : Queues.tooLarge item
  . -- nothing is pushed, but the pool has grown
    rw [pushAll_of_tooLarge (p := { p with free := p.free + SegList.growth }) hfree _ hlarge]
    intro heq
    have hcount := (only_inj.mp heq).1
    rw [growth_eq] at hcount
    dsimp only at hcount
    omega
  . apply only_ne_of_get
    exact pushAll_of_fits (p := { p with free := p.free + SegList.growth }) hfree _ hlarge items

theorem pushRange_only_eq_iff (alloc : Nat → Bool) (items : List (List UInt8))
    : (p.pushRange alloc key items).2.only key = p.only key
        ↔
      if p.free < items.length then alloc 0 = false
      else ∀ item ∈ items.head?, Queues.tooLarge item := by
  unfold pushRange grow
  by_cases hfew : p.free < items.length
  . rw [if_pos hfew, if_pos hfew]
    cases items with
    | nil => simp at hfew
    | cons item items =>
      cases alloc 0 with
      | true => simp [pushAll_grown_only_ne p key]
      | false => simp
  . rw [if_neg hfew, if_neg hfew]
    cases items with
    | nil => simp [pushAll]
    | cons item items =>
      have hfree : p.free ≠ 0 := by
        rw [List.length_cons] at hfew
        omega
      simp only [List.head?_cons, Option.mem_def, Option.some.injEq, forall_eq']
      exact pushAll_only_eq_iff hfree _ item items

theorem pop_only_eq_iff : (p.pop key).2.only key = p.only key ↔ p.queues.get key = [] := by
  unfold pop
  split
  . next hempty => simp [hempty]
  . next item items hitems =>
    rw [hitems]
    simp only [reduceCtorEq, iff_false]
    apply only_ne_of_get
    rw [Queues.set_get, hitems]
    simp

theorem popTimes_only_eq_iff (n : Nat)
    : (p.popTimes key (n + 1)).2.only key = p.only key ↔ p.queues.get key = [] := by
  have hspec := (p.popTimes_spec key (n + 1)).2 key
  rw [if_pos rfl] at hspec
  cases hitems : p.queues.get key with
  | nil =>
    unfold popTimes pop
    rw [hitems]
    simp
  | cons item items =>
    simp only [reduceCtorEq, iff_false]
    apply only_ne_of_get
    rw [hspec, hitems, List.drop_succ_cons]
    intro heq
    have hlength := congrArg List.length heq
    rw [List.length_drop, List.length_cons] at hlength
    omega

theorem popCount_only_eq_iff (count : Nat)
    : (p.popCount key count).2.only key = p.only key
        ↔
      2 ^ 63 - 1 < count * 24 ∨ p.queues.get key = [] := by
  unfold popCount
  split
  . next hlarge =>
    constructor
    . intro _
      exact .inl hlarge
    . intro _
      rfl
  . next hsmall =>
    rw [popTimes_only_eq_iff, or_iff_right hsmall]

theorem popRange_only_eq_iff (start stop : Nat)
    : (p.popRange key start stop).2.only key = p.only key
        ↔
      ∀ items, p.queues key = some items → items.length < stop ∨ stop ≤ start := by
  unfold popRange Queues.popRange
  cases hqueue : p.queues key with
  | none => simp
  | some items =>
    simp only [Option.some.injEq, forall_eq']
    by_cases hstop : stop > items.length
    . simp [hstop]
    . by_cases hstart : start > stop
      . simp [hstop, hstart, Nat.le_of_lt hstart]
      . simp only [hstop, hstart, if_false, false_or]
        rw [only_inj]
        dsimp only
        unfold Queues.set
        rw [if_pos rfl, hqueue, Option.some.injEq, List.length_take, List.length_drop]
        constructor
        . rintro ⟨hcount, _⟩
          omega
        . intro hle
          have heq : start = stop := by omega
          subst heq
          rw [List.take_append_drop]
          exact ⟨by omega, rfl⟩

theorem len_only_eq_iff : (p.len key).2.only key = p.only key ↔ p.queues key ≠ none := by
  unfold len Queues.len
  rw [only_inj]
  dsimp only
  unfold Queues.set Queues.get
  rw [if_pos rfl]
  cases p.queues key with
  | none => simp
  | some items => simp

theorem flush_only_eq_iff : (p.flush key).2.only key = p.only key ↔ p.queues.get key = [] := by
  unfold flush Queues.flush Queues.get
  cases hqueue : p.queues key with
  | none => simp
  | some items =>
    dsimp only
    rw [only_inj]
    dsimp only
    unfold Queues.set
    rw [if_pos rfl, hqueue]
    cases items with
    | nil => simp
    | cons item items => simp

end Pooled
end MemStream
