import MemStream.Db.Lemmas.SegList.Ownership

namespace MemStream

namespace Pooled

theorem pop_fst (p : Pooled) (key : String)
    : (p.pop key).1
        =
      if 1 ≤ (p.queues.get key).length then .ok ((p.queues.get key).headD [])
      else .err .keyNotFound := by
  unfold pop
  split
  . next hempty => rw [hempty, if_neg (by simp)]
  . next hitems => rw [hitems, if_pos (by simp), List.headD_cons]

theorem pop_get (p : Pooled) (key key' : String)
    : (p.pop key).2.queues.get key'
        =
      if key' = key then (p.queues.get key).drop 1 else p.queues.get key' := by
  unfold pop
  split
  . next hempty =>
    split
    . next heq => rw [heq, hempty, List.drop_nil]
    . rfl
  . next hitems =>
    rw [hitems, List.drop_succ_cons, List.drop_zero]
    apply Queues.get_set

theorem popTimes_spec (p : Pooled) (key : String) (n : Nat)
    : (p.popTimes key n).1
          = (if n ≤ (p.queues.get key).length then .ok ((p.queues.get key).take n)
              else .err .keyNotFound)
        ∧ ∀ key', (p.popTimes key n).2.queues.get key'
            = if key' = key then (p.queues.get key).drop n else p.queues.get key' := by
  induction n generalizing p with
  | zero =>
    refine ⟨by simp [popTimes], fun key' => ?_⟩
    unfold popTimes
    split
    . next heq => rw [heq, List.drop_zero]
    . rfl
  | succ n ih =>
    have hfst := p.pop_fst key
    have hget := p.pop_get key
    unfold popTimes
    rcases hpop : p.pop key with ⟨res, p'⟩
    rw [hpop] at hfst hget
    dsimp only at hfst hget
    cases hitems : p.queues.get key with
    | nil =>
      rw [hitems, if_neg (by simp)] at hfst
      rw [hfst]
      dsimp only
      rw [if_neg (by simp)]
      refine ⟨rfl, fun key' => ?_⟩
      rw [hget key', hitems, List.drop_nil, List.drop_nil]
    | cons item items =>
      have hrest : p'.queues.get key = items := by
        rw [hget key, if_pos rfl, hitems, List.drop_succ_cons, List.drop_zero]
      rw [hitems, if_pos (by simp), List.headD_cons] at hfst
      have ⟨hres, hleft⟩ := ih p'
      rw [hrest] at hres hleft
      rw [hfst]
      dsimp only
      constructor
      . rw [hres]
        simp only [List.length_cons, Nat.add_le_add_iff_right, List.take_succ_cons]
        split
        . rfl
        . rfl
      . intro key'
        rw [hleft key', hget key', List.drop_succ_cons]
        split
        . rfl
        . rfl

end Pooled

namespace SegList

def items (list : SegList) (key : String) : List (List UInt8) :=
  (list.segsOf key).map list.item

theorem items_eq (list : SegList) (key : String) : list.items key = list.abs.queues.get key := by
  rw [abs_get]
  rfl

theorem Inv.popTimes_spec {list : SegList} (hinv : list.Inv) (key : String) (n : Nat)
    : (list.popTimes key n).1
          = (if n ≤ (list.items key).length then .ok ((list.items key).take n)
              else .err .keyNotFound)
        ∧ ∀ key', (list.popTimes key n).2.items key'
            = if key' = key then (list.items key).drop n else list.items key' := by
  have ⟨_, habs⟩ := hinv.popTimes_refines key n
  have ⟨hres, hget⟩ := list.abs.popTimes_spec key n
  rw [habs] at hres hget
  simp only [items_eq]
  exact ⟨hres, hget⟩

theorem Inv.popCount_spec {list : SegList} (hinv : list.Inv) (key : String) {count : Nat}
    (hcap : count * 24 ≤ 2 ^ 63 - 1)
    : (list.popCount key count).1
          = (if count < (list.items key).length then .ok ((list.items key).take (count + 1))
              else .err .keyNotFound)
        ∧ ∀ key', (list.popCount key count).2.items key'
            = if key' = key then (list.items key).drop (count + 1) else list.items key' := by
  unfold popCount
  rw [if_neg (by omega)]
  apply hinv.popTimes_spec

structure PopsExactly (list : SegList) (key : String) (n : Nat) : Prop where
  result : (list.popCount key n).1 = .ok ((list.items key).take n)
  rest : ∀ key', (list.popCount key n).2.items key'
    = if key' = key then (list.items key).drop n else list.items key'

theorem Inv.not_popsExactly {list : SegList} (hinv : list.Inv) (key : String) (n : Nat)
    : ¬list.PopsExactly key n := by
  intro h
  have hresult := h.result
  by_cases hcap : n * 24 ≤ 2 ^ 63 - 1
  . rw [(hinv.popCount_spec key hcap).1] at hresult
    split at hresult
    . have hlength := congrArg List.length (Outcome.ok.inj hresult)
      rw [List.length_take, List.length_take] at hlength
      omega
    . contradiction
  . unfold popCount at hresult
    rw [if_pos (by omega)] at hresult
    contradiction

/-- For every key and count that the list has enough items for: popping one by one gives what was asked
for, `pop_count` never does. -/
theorem never_popsExactly {list : SegList} (h : list.Reachable) {key : String} {n : Nat}
    (hn : n ≤ (list.items key).length)
    : (list.popTimes key n).1 = .ok ((list.items key).take n)
        ∧ (∀ key', (list.popTimes key n).2.items key'
            = if key' = key then (list.items key).drop n else list.items key')
        ∧ ¬list.PopsExactly key n := by
  have ⟨hresult, hrest⟩ := h.inv.popTimes_spec key n
  rw [if_pos hn] at hresult
  exact ⟨hresult, hrest, h.inv.not_popsExactly key n⟩

def oneItem : SegList :=
  blank.grown.call (.push true "k" [7])

theorem reachable_oneItem : oneItem.Reachable :=
  (Reachable.new new_eq_ok).call _

theorem oneItem_items : oneItem.items "k" = [[7]] := by
  rfl

theorem never_popsExactly_oneItem
    : (oneItem.popTimes "k" 1).1 = .ok [[7]] ∧ ¬oneItem.PopsExactly "k" 1 := by
  have hn : 1 ≤ (oneItem.items "k").length := by
    rw [oneItem_items]
    decide
  have h := never_popsExactly reachable_oneItem hn
  rw [oneItem_items] at h
  exact ⟨h.1, h.2.2⟩

theorem popCount_one_of_one
    : oneItem.Reachable
        ∧ oneItem.items "k" = [[7]]
        ∧ (oneItem.popCount "k" 1).1 = .err .keyNotFound
        ∧ (oneItem.popCount "k" 1).2.items "k" = []
        ∧ ¬oneItem.PopsExactly "k" 1 := by
  refine ⟨reachable_oneItem, oneItem_items, rfl, rfl, ?_⟩
  exact reachable_oneItem.inv.not_popsExactly "k" 1

/-
`pop_range`, with the two numbers of a frame.
-/

inductive RangeDefined (list : SegList) (key : String) (start stop : UInt32) : Prop where
  | removed
    (result : (list.popRange key start.toNat stop.toNat).1
      = .ok (((list.items key).drop start.toNat).take (stop.toNat - start.toNat)))
    (rest : ∀ key', (list.popRange key start.toNat stop.toNat).2.items key'
      = if key' = key then (list.items key).take start.toNat ++ (list.items key).drop stop.toNat
        else list.items key')
  | refused (e : ListError)
    (result : (list.popRange key start.toNat stop.toNat).1 = .err e)
    (unchanged : ∀ key', (list.popRange key start.toNat stop.toNat).2.items key' = list.items key')

theorem not_rangeDefined {list : SegList} {key : String} {start stop : UInt32}
    (h : (list.popRange key start.toNat stop.toNat).1 = .panic)
    : ¬list.RangeDefined key start stop := by
  intro hdefined
  cases hdefined with
  | removed result =>
    rw [h] at result
    contradiction
  | refused e result =>
    rw [h] at result
    contradiction

theorem Inv.popRange_spec {list : SegList} (hinv : list.Inv) (key : String) (start stop : Nat)
    : (list.popRange key start stop).1 = (list.abs.queues.popRange key start stop).1
        ∧ ∀ key', (list.popRange key start stop).2.items key'
            = (list.abs.queues.popRange key start stop).2.get key' := by
  have ⟨_, habs⟩ := hinv.popRange_refines key start stop
  have ⟨hres, hqueues⟩ := list.abs.popRange_eq key start stop
  rw [habs] at hres hqueues
  refine ⟨hres, fun key' => ?_⟩
  rw [items_eq, ← hqueues]

theorem rangeDefined_iff {list : SegList} (h : list.Reachable) (key : String) (start stop : UInt32)
    : list.RangeDefined key start stop
        ↔
      start ≤ stop ∨ list.written.lookup key = none ∨ (list.items key).length < stop.toNat := by
  have ⟨hres, hitems⟩ := h.inv.popRange_spec key start.toNat stop.toNat
  have hqueue : list.abs.queues key = (list.written.lookup key).map (·.map list.item) := by
    rfl
  unfold Queues.popRange at hres hitems
  rw [hqueue] at hres hitems
  have hsame (key' : String) : list.abs.queues.get key' = list.items key' := by
    rw [items_eq]
  cases hkey : list.written.lookup key with
  | none =>
    rw [hkey] at hres hitems
    simp only [true_or, or_true, iff_true]
    exact .refused .keyNotFound hres fun key' => (hitems key').trans (hsame key')
  | some segs =>
    have hsegs : segs.map list.item = list.items key := by
      unfold items
      rw [segsOf_eq hkey]
    simp only [hkey, Option.map_some, hsegs] at hres hitems
    by_cases hstop : stop.toNat > (list.items key).length
    . simp only [if_pos hstop] at hres hitems
      constructor
      . intro _
        exact .inr (.inr hstop)
      . intro _
        exact .refused .outOfRange hres fun key' => (hitems key').trans (hsame key')
    . simp only [if_neg hstop] at hres hitems
      rw [UInt32.le_iff_toNat_le]
      by_cases hstart : start.toNat > stop.toNat
      . simp only [if_pos hstart] at hres
        constructor
        . intro hdefined
          exact absurd hdefined (not_rangeDefined hres)
        . simp only [reduceCtorEq, false_or]
          omega
      . simp only [if_neg hstart] at hres hitems
        constructor
        . intro _
          omega
        . intro _
          refine .removed hres fun key' => ?_
          rw [hitems key', Queues.get_set, hsame]

theorem rangeDefined_oneItem : oneItem.RangeDefined "k" 0 1 := by
  apply (rangeDefined_iff reachable_oneItem "k" 0 1).mpr
  decide

theorem popRange_backwards
    : oneItem.Reachable
        ∧ (oneItem.popRange "k" (1 : UInt32).toNat (0 : UInt32).toNat).1 = .panic
        ∧ ¬oneItem.RangeDefined "k" 1 0 := by
  have hpanic : (oneItem.popRange "k" (1 : UInt32).toNat (0 : UInt32).toNat).1 = .panic := by
    rfl
  exact ⟨reachable_oneItem, hpanic, not_rangeDefined hpanic⟩

end SegList
end MemStream
