import MemStream.Db.Lemmas.Db.Load
import MemStream.Db.Lemmas.Groups.Batch
import MemStream.Db.Lemmas.SegList.Batch
import MemStream.Db.Lemmas.SegList.Counts

namespace MemStream

namespace SegList

variable {list : SegList}

theorem Inv.push_ne_panic_iff (hinv : list.Inv) (alloc : Nat → Bool) (key : String)
    (payload : List UInt8)
    : (list.push (alloc 0) key payload).1 ≠ .panic ↔ (list.freeSegs = [] → alloc 0 = true) := by
  have ⟨_, habs⟩ := hinv.push_refines (alloc 0) key payload
  have hfree : list.abs.free = 0 ↔ list.freeSegs = [] := List.length_eq_zero_iff
  rw [← congrArg Prod.fst habs, ← hfree]
  by_cases hgranted : list.abs.free = 0 → alloc 0 = true
  . have hne : (if list.abs.free = 0 then growth else list.abs.free) ≠ 0 := by
      rw [Pooled.growth_eq]
      split
      . simp
      . assumption
    rw [Pooled.push_of_granted key hgranted]
    by_cases hlarge : Queues.tooLarge payload
    . rw [Pooled.pushFree_of_tooLarge key hlarge]
      simpa using hgranted
    . rw [Pooled.pushFree_of_fits key hlarge hne]
      simpa using hgranted
  . rw [Pooled.push_of_not_granted key hgranted payload]
    simp only [ne_eq, not_true_eq_false, false_iff]
    exact hgranted

theorem Inv.pushRange_ne_panic_iff (hinv : list.Inv) (alloc : Nat → Bool) (key : String)
    (items : List (List UInt8))
    : (list.pushRange alloc key items).1 ≠ .panic
        ↔
      Pooled.RangeGranted list.freeSegs.length alloc items := by
  constructor
  . intro hne
    by_contra hgranted
    exact hne (hinv.pushRange_of_not_granted key hgranted)
  . intro hgranted
    rw [(hinv.pushRange_spec key hgranted).1]
    split
    . simp
    . simp

theorem Inv.pop_ne_panic (hinv : list.Inv) (key : String) : (list.pop key).1 ≠ .panic := by
  have ⟨_, habs⟩ := hinv.pop_refines key
  rw [← congrArg Prod.fst habs]
  unfold Pooled.pop
  split
  . simp
  . simp

theorem Inv.popCount_ne_panic_iff (hinv : list.Inv) (key : String) (count : Nat)
    : (list.popCount key count).1 ≠ .panic ↔ count * 24 ≤ 2 ^ 63 - 1 := by
  constructor
  . intro hne
    by_contra hcap
    apply hne
    unfold popCount
    rw [if_pos (by omega)]
  . intro hcap
    rw [(hinv.popCount_spec key hcap).1]
    split
    . simp
    . simp

theorem Inv.popRange_ne_panic_iff (hinv : list.Inv) (key : String) (start stop : Nat)
    : (list.popRange key start stop).1 ≠ .panic
        ↔
      start ≤ stop ∨ list.written.lookup key = none ∨ (list.items key).length < stop := by
  have hqueue : list.abs.queues key = (list.written.lookup key).map (·.map list.item) := by
    rfl
  rw [(hinv.popRange_spec key start stop).1]
  unfold Queues.popRange
  rw [hqueue]
  cases hkey : list.written.lookup key with
  | none => simp
  | some segs =>
    have hsegs : segs.map list.item = list.items key := by
      unfold SegList.items
      rw [segsOf_eq hkey]
    simp only [Option.map_some, hsegs, reduceCtorEq, false_or]
    by_cases hstop : stop > (list.items key).length
    . simp [hstop]
    . by_cases hstart : start > stop
      . simp [hstop, hstart]
      . simp only [if_neg hstop, if_neg hstart, ne_eq, reduceCtorEq, not_false_eq_true, true_iff]
        omega

theorem Inv.flush_ne_panic (hinv : list.Inv) (key : String) : (list.flush key).1 ≠ .panic := by
  have ⟨_, habs⟩ := hinv.flush_refines key
  rw [← congrArg Prod.fst habs]
  unfold Pooled.flush Queues.flush
  cases list.abs.queues key with
  | none => simp
  | some items => simp

end SegList

namespace Group

variable {buildKey : String → UInt64 → UInt64} {name : String} {grp : Group}

/-- The log has a segment to write to, or it refuses the first of the entries. -/
def Admits (grp : Group) (alloc : Bool) (entries : List (UInt64 × List UInt8)) : Prop :=
  ∀ entry ∈ entries.head?,
    grp.log.activeSeg < grp.log.segs.length
      ∨ grp.log.space.refusal alloc (SegLog.headerSize + entry.2.length) ≠ none

theorem admits_cons (grp : Group) (alloc : Bool) (timestamp : UInt64) (payload : List UInt8)
    (entries : List (UInt64 × List UInt8))
    : grp.Admits alloc ((timestamp, payload) :: entries)
        ↔
      grp.log.activeSeg < grp.log.segs.length
        ∨ grp.log.space.refusal alloc (SegLog.headerSize + payload.length) ≠ none := by
  unfold Admits
  simp

theorem Inv.append_ne_panic_iff (h : Inv buildKey name grp) (alloc : Bool) (now : Nat)
    (timestamp : UInt64) (payload : List UInt8)
    : (grp.append buildKey alloc now timestamp payload).1 ≠ .panic
        ↔
      grp.Admits alloc [(timestamp, payload)] := by
  have ⟨_, hres, _⟩ := h.append_eq alloc now timestamp payload
  rw [hres, admits_cons]
  cases hspace : grp.log.space.refusal alloc (SegLog.headerSize + payload.length) with
  | none =>
    rw [h.log.append_of_taken hspace timestamp]
    split
    . next hactive => simp [hactive]
    . next hstuck => simp [hstuck]
  | some e =>
    rw [h.log.append_eq_err hspace timestamp]
    simp

theorem Inv.appendAll_ne_panic_iff (h : Inv buildKey name grp) (env : Nat → Bool × Nat)
    (timestamp : UInt64) (payload : List UInt8) (entries : List (UInt64 × List UInt8))
    : (grp.appendAll buildKey env timestamp payload entries).1 ≠ .panic
        ↔
      grp.Admits (env 0).1 ((timestamp, payload) :: entries) := by
  rw [admits_cons]
  by_cases hfirst : grp.log.space.refusal (env 0).1 (SegLog.headerSize + payload.length) = none
  . by_cases hactive : grp.log.activeSeg < grp.log.segs.length
    . by_cases htakes : grp.log.space.TakesAll (fun i => (env i).1)
          (sizesOf ((timestamp, payload) :: entries))
      . rcases h.appendAll_of_taken hactive htakes with ⟨last, grp', hok, _⟩
        simp [hok, hactive]
      . rcases h.appendAll_of_rest_refused hactive hfirst htakes with ⟨e, grp', front, herr, _⟩
        simp [herr, hactive]
    . have hstuck : ∃ grp', grp.appendAll buildKey env timestamp payload entries = (.panic, grp') :=
        h.appendAll_of_stuck (by omega) hfirst
      rcases hstuck with ⟨grp', hpanic⟩
      simp [hpanic, hactive, hfirst]
  . have hrefused : ∃ e grp',
        grp.appendAll buildKey env timestamp payload entries = (.err e, grp')
          ∧ grp'.visible = grp.visible :=
      h.appendAll_of_first_refused hfirst
    rcases hrefused with ⟨e, grp', herr, _⟩
    simp [herr, hfirst]

end Group

namespace GroupManager

variable {buildKey : String → UInt64 → UInt64} {gm : GroupManager}

def Admits (gm : GroupManager) (alloc : Bool) (group : String)
    (entries : List (UInt64 × List UInt8)) : Prop :=
  ∀ grp, gm.groups.lookup group = some grp → grp.Admits alloc entries

theorem createGroup_ne_panic_iff (gm : GroupManager) (alloc : Nat → Bool) (name : String)
    : (gm.createGroup alloc name).1 ≠ .panic
        ↔
      (gm.groups.lookup name = none → (List.range SegLog.initialSegments).all alloc = true) := by
  unfold createGroup
  cases gm.groups.lookup name with
  | some grp => simp
  | none =>
    unfold Group.new SegLog.new
    by_cases halloc : (List.range SegLog.initialSegments).all alloc = true
    . simp only [if_pos halloc, Outcome.map_ok]
      simp [halloc]
    . simp only [if_neg halloc, Outcome.map_panic]
      simp [halloc]

theorem dropGroup_ne_panic (gm : GroupManager) (name : String)
    : (gm.dropGroup name).1 ≠ .panic := by
  unfold dropGroup
  split
  . simp
  . simp

theorem onGroup_ne_panic_iff {α : Type} (gm : GroupManager) (group : String)
    (f : Group → Outcome GroupError α × Group)
    : (gm.onGroup group f).1 ≠ .panic
        ↔
      ∀ grp, gm.groups.lookup group = some grp → (f grp).1 ≠ .panic := by
  unfold onGroup
  cases gm.groups.lookup group with
  | none => simp
  | some grp => simp

theorem Inv.add_ne_panic_iff (h : gm.Inv buildKey) (alloc : Bool) (now : Nat) (group : String)
    (timestamp : UInt64) (payload : List UInt8)
    : (gm.add buildKey alloc now group timestamp payload).1 ≠ .panic
        ↔
      gm.Admits alloc group [(timestamp, payload)] := by
  unfold add
  rw [onGroup_ne_panic_iff]
  constructor
  . intro hne grp hgrp
    exact ((h group grp hgrp).append_ne_panic_iff alloc now timestamp payload).mp (hne grp hgrp)
  . intro hadmits grp hgrp
    exact ((h group grp hgrp).append_ne_panic_iff alloc now timestamp payload).mpr
      (hadmits grp hgrp)

theorem Inv.addRange_ne_panic_iff (h : gm.Inv buildKey) (env : Nat → Bool × Nat) (group : String)
    (entries : List (UInt64 × List UInt8))
    : (gm.addRange buildKey env group entries).1 ≠ .panic ↔ gm.Admits (env 0).1 group entries := by
  cases entries with
  | nil => simp [addRange, Admits, Group.Admits]
  | cons entry entries =>
    rcases entry with ⟨timestamp, payload⟩
    rw [addRange_cons, onGroup_ne_panic_iff]
    constructor
    . intro hne grp hgrp
      exact ((h group grp hgrp).appendAll_ne_panic_iff env timestamp payload entries).mp
        (hne grp hgrp)
    . intro hadmits grp hgrp
      exact ((h group grp hgrp).appendAll_ne_panic_iff env timestamp payload entries).mpr
        (hadmits grp hgrp)

theorem Inv.remove_ne_panic (h : gm.Inv buildKey) (group : String) (upToId : UInt64)
    : (gm.remove buildKey group upToId).1 ≠ .panic := by
  unfold remove
  rw [onGroup_ne_panic_iff]
  intro grp hgrp
  rw [((h group grp hgrp).remove_refines upToId).2.1]
  simp

end GroupManager

variable {buildKey : String → UInt64 → UInt64} {s : Stores}

/-- The entry does not make the stores panic: for new segments there is memory, a range is not backwards
on a list that reaches to its end, and a count is within the capacity of a vector. -/
def Stores.Admits (s : Stores) (env : Env) : AofEntry → Prop
  | .logCreateGroup name =>
    s.groupManager.groups.lookup name = none
      → (List.range SegLog.initialSegments).all env.alloc = true
  | .logAdd group timestamp payload =>
    s.groupManager.Admits (env.alloc 0) group [(timestamp, payload)]
  | .logAddRange group entries => s.groupManager.Admits (env.alloc 0) group entries
  | .listPush _ _ => s.list.freeSegs = [] → env.alloc 0 = true
  | .listPushRange _ items => Pooled.RangeGranted s.list.freeSegs.length env.alloc items
  | .listPopRange key start stop =>
    start ≤ stop ∨ s.list.written.lookup key = none ∨ (s.list.items key).length < stop
  | .listPopCount _ count => count * 24 ≤ 2 ^ 63 - 1
  | _ => True

theorem discard_eq_ok_iff {α ε : Type} (res : Outcome ε α) : discard res = .ok () ↔ res ≠ .panic := by
  cases res with
  | ok val => simp [discard]
  | err e => simp [discard]
  | panic => simp [discard]

theorem Stores.Inv.applyAof_eq_ok_iff (h : s.Inv buildKey) (env : Env) (entry : AofEntry)
    : (applyAof buildKey s env entry).1 = .ok () ↔ s.Admits env entry := by
  cases entry with
  | kvSet db key val ttl => simp [applyAof, discard, KvStore.set, Admits]
  | kvDel db key =>
    simp only [applyAof, discard_eq_ok_iff, Admits, iff_true, KvStore.del, KvDb.del]
    split
    . simp
    . simp
  | kvFlush db => simp [applyAof, discard, KvStore.flush, Admits]
  | logCreateGroup name =>
    exact (discard_eq_ok_iff _).trans (s.groupManager.createGroup_ne_panic_iff env.alloc name)
  | logDropGroup name =>
    simp [applyAof, discard_eq_ok_iff, Admits, s.groupManager.dropGroup_ne_panic name]
  | logAdd group timestamp payload =>
    exact (discard_eq_ok_iff _).trans
      (h.groups.add_ne_panic_iff (env.alloc 0) (env.instant 0) group timestamp payload)
  | logAddRange group entries =>
    exact (discard_eq_ok_iff _).trans
      (h.groups.addRange_ne_panic_iff (addRangeEnv env) group entries)
  | logRemove group upToId =>
    simp [applyAof, discard_eq_ok_iff, Admits, h.groups.remove_ne_panic group upToId]
  | listPush key payload =>
    exact (discard_eq_ok_iff _).trans (h.list.push_ne_panic_iff env.alloc key payload)
  | listPushRange key items =>
    exact (discard_eq_ok_iff _).trans (h.list.pushRange_ne_panic_iff env.alloc key items)
  | listPop key => simp [applyAof, discard_eq_ok_iff, Admits, h.list.pop_ne_panic key]
  | listPopRange key start stop =>
    exact (discard_eq_ok_iff _).trans (h.list.popRange_ne_panic_iff key start stop)
  | listPopCount key count =>
    exact (discard_eq_ok_iff _).trans (h.list.popCount_ne_panic_iff key count)
  | listFlush key => simp [applyAof, discard_eq_ok_iff, Admits, h.list.flush_ne_panic key]

theorem applyAll_cons (s : Stores) (entry : AofEntry) (env : Env) (entries : List (AofEntry × Env))
    : applyAll buildKey s ((entry, env) :: entries)
        =
      if (applyAof buildKey s env entry).1 = .ok () then
        applyAll buildKey (applyAof buildKey s env entry).2 entries
      else
        applyAof buildKey s env entry := by
  rw [applyAll]
  rcases applyAof buildKey s env entry with ⟨res, s'⟩
  cases res with
  | ok val => rfl
  | err e => rfl
  | panic => rfl

/-- Every entry is admitted by the stores that the entries before it lead to. -/
def Stores.AdmitsAll (buildKey : String → UInt64 → UInt64) (s : Stores)
    (entries : List (AofEntry × Env)) : Prop :=
  ∀ front entry env,
    front ++ [(entry, env)] <+: entries → (applyAll buildKey s front).2.Admits env entry

theorem Stores.Inv.applyAll_eq_ok_iff (h : s.Inv buildKey) (entries : List (AofEntry × Env))
    : (applyAll buildKey s entries).1 = .ok () ↔ s.AdmitsAll buildKey entries := by
  induction entries generalizing s with
  | nil =>
    simp only [applyAll, true_iff]
    intro front entry env hfront
    simp at hfront
  | cons e entries ih =>
    rcases e with ⟨entry, env⟩
    have hinv : (applyAof buildKey s env entry).2.Inv buildKey := by
      rw [applyAof_eq]
      exact (h.perform_refines env entry).1
    have hentry := h.applyAof_eq_ok_iff env entry
    rw [applyAll_cons]
    constructor
    . intro hok front entry' env' hfront
      have hfirst : (applyAof buildKey s env entry).1 = .ok () := by
        by_contra hne
        rw [if_neg hne] at hok
        exact hne hok
      rw [if_pos hfirst] at hok
      cases front with
      | nil =>
        simp only [List.nil_append, List.cons_prefix_cons, List.nil_prefix, and_true,
          Prod.mk.injEq] at hfront
        rw [hfront.1, hfront.2]
        exact hentry.mp hfirst
      | cons e front =>
        rw [List.cons_append, List.cons_prefix_cons] at hfront
        rw [hfront.1, applyAll_cons, if_pos hfirst]
        exact (ih hinv).mp hok front entry' env' hfront.2
    . intro hadmits
      have hfirst : (applyAof buildKey s env entry).1 = .ok () := by
        apply hentry.mpr
        apply hadmits [] entry env
        simp
      rw [if_pos hfirst]
      apply (ih hinv).mpr
      intro front entry' env' hfront
      have hadmitted := hadmits ((entry, env) :: front) entry' env' (by simpa using hfront)
      rw [applyAll_cons, if_pos hfirst] at hadmitted
      exact hadmitted

end MemStream
