import MemStream.Db.Lemmas.Db.Run
import MemStream.Db.Lemmas.Groups.Batch
import MemStream.Db.Lemmas.SegList.Batch

namespace MemStream

namespace DB

/-- The states of a database: it is new, it applied the entries of its file or those of a leader, or an
operation was called on it. -/
inductive Reachable (buildKey : String → UInt64 → UInt64) : DB → Prop where
  | new {alloc : Bool} {events : Option (List AofEntry)} {db : DB} (h : DB.new alloc events = .ok db)
    : Reachable buildKey db
  | load {db : DB} (h : Reachable buildKey db) {file : List AofEntry} (schedule : Schedule file)
    : Reachable buildKey (db.loadAndApply buildKey schedule).2
  | follow {db : DB} (h : Reachable buildKey db) (entries : List (AofEntry × Env))
    : Reachable buildKey (db.applyAof buildKey entries).2
  | call {db : DB} (h : Reachable buildKey db) (env : Env) (op : Op)
    : Reachable buildKey (db.call buildKey env op).2

variable {buildKey : String → UInt64 → UInt64} {db : DB}

theorem Inv.applyAofEntry (hinv : db.toStores.Inv buildKey) (env : Env) (entry : AofEntry)
    : (db.applyAofEntry buildKey env entry).toStores.Inv buildKey := by
  cases entry with
  | _ => exact ⟨hinv.list, hinv.groups⟩

theorem Inv.applyAof (hinv : db.toStores.Inv buildKey) (entries : List (AofEntry × Env))
    : (db.applyAof buildKey entries).2.toStores.Inv buildKey := by
  unfold DB.applyAof
  dsimp only
  induction entries generalizing db with
  | nil => exact hinv
  | cons entry entries ih => exact ih (Inv.applyAofEntry hinv entry.2 entry.1)

theorem Reachable.inv (h : db.Reachable buildKey) : db.toStores.Inv buildKey := by
  induction h with
  | @new alloc events db hnew =>
    cases alloc with
    | true => exact inv_run hnew []
    | false => contradiction
  | load _ schedule ih => exact (ih.applyAll_refines schedule.entries).1
  | follow _ entries ih => exact Inv.applyAof ih entries
  | call _ env op ih => exact Inv.call ih env op

theorem reachable_freshDb (buildKey : String → UInt64 → UInt64) : freshDb.Reachable buildKey :=
  .new (new_eq none)

/-
Operations on the lists.
-/

def FailsClean {α : Type} (db : DB) (res : Outcome DBError α × DB) : Prop :=
  ∀ e,
    res.1 = .err e
      → (∀ key, res.2.list.items key = db.list.items key) ∧ res.2.aof = db.aof

theorem failsClean_log {α : Type} (db : DB) (res : Outcome ListError α × SegList)
    (wrap : ListError → DBError) (entry : AofEntry)
    : db.FailsClean ({ db with list := res.2 }.log res.1 wrap entry)
        ↔
      ∀ e, res.1 = .err e → ∀ key, res.2.items key = db.list.items key := by
  rcases res with ⟨res, list⟩
  unfold FailsClean log
  cases res with
  | ok val => simp
  | err e => simp [Outcome.isOk]
  | panic => simp

theorem listPopCount_failsClean_iff (h : db.Reachable buildKey) (key : String) (count : Nat)
    : db.FailsClean (db.listPopCount key count)
        ↔
      count < (db.list.items key).length
        ∨ db.list.items key = []
        ∨ 2 ^ 63 - 1 < count * 24 := by
  unfold listPopCount
  dsimp only
  rw [failsClean_log]
  by_cases hcap : count * 24 ≤ 2 ^ 63 - 1
  . have ⟨hres, hitems⟩ := h.inv.list.popCount_spec key hcap
    rw [hres]
    constructor
    . intro hclean
      by_cases hcount : count < (db.list.items key).length
      . exact .inl hcount
      . rw [if_neg hcount] at hclean
        have hsame := hclean .keyNotFound rfl key
        rw [hitems key, if_pos rfl, List.drop_of_length_le (by omega)] at hsame
        exact .inr (.inl hsame.symm)
    . rintro (hcount | hempty | hcap') e herr key'
      . rw [if_pos hcount] at herr
        contradiction
      . rw [hitems key']
        split
        . next heq => rw [heq, hempty, List.drop_nil]
        . rfl
      . omega
  . have hpanic : (db.list.popCount key count).1 = .panic := by
      unfold SegList.popCount
      rw [if_pos (by omega)]
    rw [hpanic]
    constructor
    . intro _
      right
      right
      omega
    . intro _ e herr
      contradiction

def oneItemDb : DB :=
  (freshDb.call (fun _ id => id) Env.steady (.listPush "k" [7])).2

theorem reachable_oneItemDb : oneItemDb.Reachable fun _ id => id :=
  (reachable_freshDb _).call _ _

theorem oneItemDb_items : oneItemDb.list.items "k" = [[7]] := by
  rfl

theorem listPopCount_failsClean_missing
    : (oneItemDb.listPopCount "other" 2).1 = .err (.listPopCountError .keyNotFound)
        ∧ oneItemDb.FailsClean (oneItemDb.listPopCount "other" 2) := by
  refine ⟨rfl, ?_⟩
  apply (listPopCount_failsClean_iff reachable_oneItemDb "other" 2).mpr
  exact .inr (.inl rfl)

-- The item is gone, and the file does not say so.
theorem listPopCount_loses_item
    : oneItemDb.Reachable (fun _ id => id)
        ∧ (oneItemDb.listPopCount "k" 2).1 = .err (.listPopCountError .keyNotFound)
        ∧ oneItemDb.list.items "k" = [[7]]
        ∧ (oneItemDb.listPopCount "k" 2).2.list.items "k" = []
        ∧ (oneItemDb.listPopCount "k" 2).2.aof = oneItemDb.aof
        ∧ ¬oneItemDb.FailsClean (oneItemDb.listPopCount "k" 2) := by
  have hlost : (oneItemDb.listPopCount "k" 2).2.list.items "k" = [] := by
    rfl
  refine ⟨reachable_oneItemDb, rfl, oneItemDb_items, hlost, rfl, ?_⟩
  intro hclean
  have hsame := (hclean _ rfl).1 "k"
  rw [hlost, oneItemDb_items] at hsame
  contradiction

structure PushesRange (db : DB) (env : Env) (key : String) (items : List (List UInt8)) : Prop where
  failsClean : db.FailsClean (db.listPushRange env key items)
  appends : (db.listPushRange env key items).1 = .ok ()
    → ∀ key', (db.listPushRange env key items).2.list.items key'
        = if key' = key then db.list.items key ++ items else db.list.items key'

theorem pushesRange_iff_list (db : DB) (env : Env) (key : String) (items : List (List UInt8))
    : db.PushesRange env key items
        ↔
      (∀ e,
        (db.list.pushRange env.alloc key items).1 = .err e
          → ∀ key', (db.list.pushRange env.alloc key items).2.items key' = db.list.items key')
        ∧ ((db.list.pushRange env.alloc key items).1 = .ok ()
          → ∀ key', (db.list.pushRange env.alloc key items).2.items key'
              = if key' = key then db.list.items key ++ items else db.list.items key') := by
  have hclean : db.FailsClean (db.listPushRange env key items) ↔ _ :=
    db.failsClean_log (db.list.pushRange env.alloc key items) _ _
  have hstores : (db.listPushRange env key items).2.toStores
      = { db.toStores with list := (db.list.pushRange env.alloc key items).2 } := by
    apply log_toStores
  have hok : (db.listPushRange env key items).1 = .ok ()
      ↔ (db.list.pushRange env.alloc key items).1 = .ok () := by
    apply Outcome.mapErr_eq_ok_iff
  rw [← hclean, ← hok]
  constructor
  . intro h
    refine ⟨h.failsClean, fun hres key' => ?_⟩
    rw [← h.appends hres key', hstores]
  . rintro ⟨hfails, happends⟩
    refine ⟨hfails, fun hres key' => ?_⟩
    rw [← happends hres key', hstores]

theorem pushesRange_iff (h : db.Reachable buildKey) (env : Env) (key : String)
    (items : List (List UInt8))
    : db.PushesRange env key items
        ↔
      (∀ item ∈ items, ¬Queues.tooLarge item)
        ∨ (∃ item ∈ items.head?, Queues.tooLarge item)
        ∨ ¬Pooled.RangeGranted db.list.freeSegs.length env.alloc items := by
  rw [pushesRange_iff_list]
  by_cases hgranted : Pooled.RangeGranted db.list.freeSegs.length env.alloc items
  . have ⟨hres, hitems⟩ := h.inv.list.pushRange_spec key hgranted
    simp only [hgranted, not_true_eq_false, or_false]
    rw [hres]
    by_cases hfits : ∀ item ∈ items, ¬Queues.tooLarge item
    . rw [if_pos hfits]
      constructor
      . intro _
        exact .inl hfits
      . intro _
        refine ⟨by simp, fun _ key' => ?_⟩
        rw [hitems key', Queues.fitting_eq_self hfits]
    . rw [if_neg hfits]
      constructor
      . rintro ⟨hfails, _⟩
        have hsame := hfails .entryTooLarge rfl key
        rw [hitems key, if_pos rfl, List.append_right_eq_self] at hsame
        exact .inr (Queues.head_tooLarge_of_fitting_eq_nil hsame hfits)
      . rintro (hall | ⟨item, hhead, hlarge⟩)
        . exact absurd hall hfits
        . have hnone : Queues.fitting items = [] := by
            rcases List.head?_eq_some_iff.mp hhead with ⟨rest, rfl⟩
            exact Queues.fitting_cons_of_tooLarge hlarge rest
          simp only [reduceCtorEq, false_imp_iff, and_true]
          intro e _ key'
          rw [hitems key', hnone]
          split
          . next heq => rw [heq, List.append_nil]
          . rfl
  . have hpanic := h.inv.list.pushRange_of_not_granted key hgranted
    simp [hpanic, hgranted]

theorem pushesRange_two : freshDb.PushesRange Env.steady "k" [[7], [8]] := by
  apply (pushesRange_iff (reachable_freshDb fun _ id => id) Env.steady "k" [[7], [8]]).mpr
  left
  decide

theorem length_freeSegs_freshDb : freshDb.list.freeSegs.length = 16384 := by
  simp [freshDb, SegList.blank, SegList.grown, Pooled.growth_eq]

theorem listPushRange_of_tooLarge (h : db.Reachable buildKey) (env : Env) (key : String)
    {items : List (List UInt8)} (hfree : items.length ≤ db.list.freeSegs.length)
    (hlarge : ¬∀ item ∈ items, ¬Queues.tooLarge item)
    : (db.listPushRange env key items).1 = .err (.listPushRangeError .entryTooLarge)
        ∧ (db.listPushRange env key items).2.list.items key
            = db.list.items key ++ Queues.fitting items
        ∧ (db.listPushRange env key items).2.aof = db.aof := by
  have hgranted : Pooled.RangeGranted db.list.freeSegs.length env.alloc items :=
    Pooled.rangeGranted_of_le hfree
  have ⟨hres, hitems⟩ := h.inv.list.pushRange_spec key hgranted
  rw [if_neg hlarge] at hres
  have hleft := hitems key
  rw [if_pos rfl] at hleft
  unfold listPushRange log
  dsimp only
  rw [hres]
  exact ⟨rfl, hleft, rfl⟩

theorem listPushRange_second_tooLarge {large : List UInt8} (hlarge : Queues.tooLarge large)
    : (freshDb.listPushRange Env.steady "k" [[7], large]).1
          = .err (.listPushRangeError .entryTooLarge)
        ∧ (freshDb.listPushRange Env.steady "k" [[7], large]).2.list.items "k" = [[7]]
        ∧ (freshDb.listPushRange Env.steady "k" [[7], large]).2.aof = []
        ∧ ¬freshDb.PushesRange Env.steady "k" [[7], large] := by
  have hfits : ¬Queues.tooLarge [7] := by
    decide
  have hfree : [[7], large].length ≤ freshDb.list.freeSegs.length := by
    rw [length_freeSegs_freshDb]
    simp
  have ⟨hres, hitems, haof⟩ := listPushRange_of_tooLarge (reachable_freshDb fun _ id => id)
    Env.steady "k" hfree (by simp [hlarge])
  rw [Queues.fitting_cons_of_fits hfits, Queues.fitting_cons_of_tooLarge hlarge] at hitems
  refine ⟨hres, hitems, haof, ?_⟩
  intro hpushes
  have hsame := (hpushes.failsClean _ hres).1 "k"
  rw [hitems, List.append_right_eq_self] at hsame
  simp at hsame

theorem tooLarge_replicate : Queues.tooLarge (List.replicate 65517 0) := by
  unfold Queues.tooLarge
  rw [List.length_replicate]
  omega

theorem listPushRange_leaves_item
    : ∃ large : List UInt8,
        large = List.replicate 65517 0
          ∧ freshDb.Reachable (fun _ id => id)
          ∧ (freshDb.listPushRange Env.steady "k" [[7], large]).1
              = .err (.listPushRangeError .entryTooLarge)
          ∧ (freshDb.listPushRange Env.steady "k" [[7], large]).2.list.items "k" = [[7]]
          ∧ (freshDb.listPushRange Env.steady "k" [[7], large]).2.aof = []
          ∧ ¬freshDb.PushesRange Env.steady "k" [[7], large] :=
  ⟨_, rfl, reachable_freshDb _, listPushRange_second_tooLarge tooLarge_replicate⟩

/-
Operations on the groups.
-/

structure AddsRange (buildKey : String → UInt64 → UInt64) (db : DB) (env : Env) (group : String)
    (entries : List (UInt64 × List UInt8)) : Prop where
  fails : ∀ e,
    (db.logAddRange buildKey env group entries).1 = .err e
      → (db.logAddRange buildKey env group entries).2.groupManager.visible group
            = db.groupManager.visible group
          ∧ (db.logAddRange buildKey env group entries).2.aof = db.aof
  adds : ∀ first last,
    (db.logAddRange buildKey env group entries).1 = .ok (first, last)
      → last.toNat + 1 = first.toNat + entries.length
          ∧ ∀ (i : Nat) timestamp payload,
              entries[i]? = some (timestamp, payload) → ∀ later,
                ((db.logAddRange buildKey env group entries).2.logRead buildKey later group
                    (first + UInt64.ofNat i)).1
                  = .ok (first + UInt64.ofNat i, timestamp, payload)

theorem addsRange_iff_groups (db : DB) (env : Env) (group : String)
    (entries : List (UInt64 × List UInt8))
    : db.AddsRange buildKey env group entries
        ↔
      db.groupManager.AddsRange buildKey (Stores.addRangeEnv env) group entries := by
  have hstores : (db.logAddRange buildKey env group entries).2.toStores
      = { db.toStores with
          groupManager :=
            (db.groupManager.addRange buildKey (Stores.addRangeEnv env) group entries).2 } := by
    apply log_toStores
  have hres : (db.logAddRange buildKey env group entries).1
      = (db.groupManager.addRange buildKey (Stores.addRangeEnv env) group entries).1.mapErr
          .logAppendRangeError := by
    rfl
  have haof : (db.logAddRange buildKey env group entries).2.aof = _ :=
    log_aof _ (db.groupManager.addRange buildKey (Stores.addRangeEnv env) group entries).1 _ _
  have hread (later : Env) (id timestamp : UInt64) (payload : List UInt8)
      : ((db.logAddRange buildKey env group entries).2.logRead buildKey later group id).1
            = .ok (id, timestamp, payload)
          ↔
        ((db.groupManager.addRange buildKey (Stores.addRangeEnv env) group entries).2.read buildKey
          (later.instant 0) group id).1 = .ok (id, timestamp, payload) := by
    unfold logRead
    rw [hstores]
    apply Outcome.mapErr_eq_ok_iff
  constructor
  . intro h
    constructor
    . intro e herr
      rw [herr] at hres
      have ⟨hvisible, _⟩ := h.fails _ hres
      rw [hstores] at hvisible
      exact hvisible
    . intro first last hok
      rw [hok] at hres
      have ⟨hlast, hentries⟩ := h.adds first last hres
      refine ⟨hlast, fun i timestamp payload hentry now => ?_⟩
      apply (hread { Env.steady with instant := fun _ => now } _ _ _).mp
      exact hentries i timestamp payload hentry _
  . intro h
    constructor
    . intro e herr
      rw [hres, Outcome.mapErr_eq_err_iff] at herr
      rcases herr with ⟨e', herr, _⟩
      rw [hstores, haof, herr]
      exact ⟨h.fails e' herr, rfl⟩
    . intro first last hok
      rw [hres, Outcome.mapErr_eq_ok_iff] at hok
      have ⟨hlast, hentries⟩ := h.adds first last hok
      refine ⟨hlast, fun i timestamp payload hentry later => ?_⟩
      apply (hread later _ _ _).mpr
      exact hentries i timestamp payload hentry _

theorem addsRange_iff (h : db.Reachable buildKey) {group : String}
    (hinj : Function.Injective (buildKey group)) (env : Env) (entries : List (UInt64 × List UInt8))
    : db.AddsRange buildKey env group entries
        ↔
      ∀ grp,
        db.groupManager.groups.lookup group = some grp → grp.AllOrFirst env.alloc entries := by
  rw [addsRange_iff_groups]
  exact h.inv.groups.addsRange_iff_allOrFirst hinj (Stores.addRangeEnv env) entries

def groupDb : DB :=
  (freshDb.call (fun _ id => id) Env.steady (.logCreateGroup "g")).2

def emptyGroup : Group :=
  ⟨"g", SegLog.empty, Lru.new Group.cacheCap Group.cacheTtl⟩

theorem reachable_groupDb : groupDb.Reachable fun _ id => id :=
  (reachable_freshDb _).call _ _

theorem lookup_groupDb : groupDb.groupManager.groups.lookup "g" = some emptyGroup := by
  rfl

theorem addsRange_two : groupDb.AddsRange (fun _ id => id) Env.steady "g" [(5, [7]), (6, [8])] := by
  apply (addsRange_iff reachable_groupDb (fun _ _ h => h) Env.steady _).mpr
  intro grp hgrp
  rw [lookup_groupDb, Option.some.injEq] at hgrp
  rw [← hgrp]
  right
  right
  exact ⟨rfl, rfl, trivial⟩

theorem logAddRange_of_err {env : Env} {group : String} {entries : List (UInt64 × List UInt8)}
    {e : GroupError}
    (h : (db.groupManager.addRange buildKey (Stores.addRangeEnv env) group entries).1 = .err e)
    : db.logAddRange buildKey env group entries
        =
      (.err (.logAppendRangeError e),
        { db with
          groupManager :=
            (db.groupManager.addRange buildKey (Stores.addRangeEnv env) group entries).2 }) := by
  unfold logAddRange log
  dsimp only
  rw [h]
  rfl

theorem logAddRange_second_tooLarge {large : List UInt8} (hlarge : Queues.tooLarge large)
    : ∃ e,
        (groupDb.logAddRange (fun _ id => id) Env.steady "g" [(5, [7]), (6, large)]).1 = .err e
          ∧ (groupDb.logAddRange (fun _ id => id) Env.steady "g" [(5, [7]), (6, large)]).2.aof
            = groupDb.aof
          ∧ ((groupDb.logAddRange (fun _ id => id) Env.steady "g" [(5, [7]), (6, large)]).2.logRead
              (fun _ id => id) Env.steady "g" 1).1 = .ok (1, 5, [7])
          ∧ ¬groupDb.AddsRange (fun _ id => id) Env.steady "g" [(5, [7]), (6, large)] := by
  have hinv := reachable_groupDb.inv.groups "g" emptyGroup lookup_groupDb
  have hactive : emptyGroup.log.activeSeg < emptyGroup.log.segs.length := by
    decide
  have hrest : ¬emptyGroup.log.space.TakesAll (fun i => (Stores.addRangeEnv Env.steady i).1)
      (sizesOf [(5, [7]), (6, large)]) := by
    rintro ⟨_, hnone, _⟩
    apply LogSpace.refusal_ne_none _ hnone
    unfold Queues.tooLarge at hlarge
    unfold SegLog.headerSize SegLog.segmentSize
    dsimp only
    omega
  rcases hinv.appendAll_of_rest_refused hactive rfl hrest with ⟨e, grp', front, happend, _, hext⟩
  rcases GroupManager.onGroup_of_some (f := fun grp => grp.appendAll (fun _ id => id)
    (Stores.addRangeEnv Env.steady) 5 [7] [(6, large)]) lookup_groupDb happend with ⟨hres, hlookup⟩
  rw [← GroupManager.addRange_cons] at hres hlookup
  have hlive := hext.new 0 (5, [7]) rfl 1 rfl
  refine ⟨.logAppendRangeError e, ?_⟩
  rw [logAddRange_of_err hres]
  refine ⟨rfl, rfl, ?_, ?_⟩
  . unfold logRead
    dsimp only
    rw [GroupManager.read_of_live hlookup hext.inv (fun _ _ h => h) hlive]
    rfl
  . rw [addsRange_iff_groups]
    intro hadds
    have hsame := hadds.fails e hres
    rw [GroupManager.visible_of_some hlookup, GroupManager.visible_of_some lookup_groupDb,
      Option.some.injEq] at hsame
    exact absurd hsame (hext.visible_ne (by simp))

theorem logAddRange_leaves_entry
    : ∃ large : List UInt8,
        large = List.replicate 65517 0
          ∧ groupDb.Reachable (fun _ id => id)
          ∧ ∃ e,
              (groupDb.logAddRange (fun _ id => id) Env.steady "g" [(5, [7]), (6, large)]).1 = .err e
                ∧ (groupDb.logAddRange (fun _ id => id) Env.steady "g" [(5, [7]), (6, large)]).2.aof
                  = groupDb.aof
                ∧ ((groupDb.logAddRange (fun _ id => id) Env.steady "g"
                    [(5, [7]), (6, large)]).2.logRead (fun _ id => id) Env.steady "g" 1).1
                  = .ok (1, 5, [7])
                ∧ ¬groupDb.AddsRange (fun _ id => id) Env.steady "g" [(5, [7]), (6, large)] :=
  ⟨_, rfl, reachable_groupDb, logAddRange_second_tooLarge tooLarge_replicate⟩

end DB
end MemStream
