import MemStream.Db.Lemmas.Groups.Manager
import MemStream.Db.Lemmas.SegLog.Failure

namespace MemStream

namespace LogSpace

/-- There is space for entries of these sizes, one behind the other. -/
def TakesAll (space : LogSpace) (alloc : Nat → Bool) : List Nat → Prop
  | [] => True
  | size :: sizes =>
    space.refusal (alloc 0) size = none
      ∧ (space.filled size).TakesAll (fun i => alloc (i + 1)) sizes

end LogSpace

def sizesOf (entries : List (UInt64 × List UInt8)) : List Nat :=
  entries.map fun entry => SegLog.headerSize + entry.2.length

namespace Group

def visible (grp : Group)
    : (UInt64 → Option (UInt64 × List UInt8)) × UInt64 × Lru UInt64 LogEntry :=
  (grp.log.entryAt, grp.log.nextId, grp.lruCache)

variable {buildKey : String → UInt64 → UInt64} {name : String} {grp : Group}

theorem append_lruCache_of_err {alloc : Bool} {now : Nat} {timestamp : UInt64}
    {payload : List UInt8} {e : GroupError}
    (h : (grp.append buildKey alloc now timestamp payload).1 = .err e)
    : (grp.append buildKey alloc now timestamp payload).2.lruCache = grp.lruCache := by
  unfold append at h ⊢
  split
  . split
    . simp_all
    . simp_all
  . rfl
  . rfl

/-- `grp'` has the entries of `grp` and behind them some more. -/
structure Extended (buildKey : String → UInt64 → UInt64) (name : String) (grp grp' : Group)
    (entries : List (UInt64 × List UInt8)) : Prop where
  inv : Inv buildKey name grp'
  next : grp'.log.nextId.toNat = grp.log.nextId.toNat + entries.length
  old : ∀ id, id < grp.log.nextId → grp'.log.entryAt id = grp.log.entryAt id
  new :
    ∀ i entry,
      entries[i]? = some entry
        → ∀ id : UInt64, id.toNat = grp.log.nextId.toNat + i → grp'.log.entryAt id = some entry

theorem Extended.nil {grp' : Group} (hinv : Inv buildKey name grp')
    (hvisible : grp'.visible = grp.visible)
    : Extended buildKey name grp grp' [] := by
  simp only [visible, Prod.mk.injEq] at hvisible
  constructor
  case inv => exact hinv
  case next => rw [hvisible.2.1, List.length_nil, Nat.add_zero]
  case old => simp [hvisible.1]
  case new => simp

theorem Extended.visible_ne {grp' : Group} {entries : List (UInt64 × List UInt8)}
    (h : Extended buildKey name grp grp' entries) (hentries : entries ≠ [])
    : grp'.visible ≠ grp.visible := by
  intro hvisible
  simp only [visible, Prod.mk.injEq] at hvisible
  have hnext := h.next
  have hpos := List.length_pos_of_ne_nil hentries
  rw [hvisible.2.1] at hnext
  omega

theorem Extended.cons {grp' grp'' : Group} {entry : UInt64 × List UInt8}
    {entries : List (UInt64 × List UInt8)} (hnext : grp'.log.nextId.toNat = grp.log.nextId.toNat + 1)
    (hlive : ∀ id, grp'.log.entryAt id
      = if id = grp.log.nextId then some entry else grp.log.entryAt id)
    (h : Extended buildKey name grp' grp'' entries)
    : Extended buildKey name grp grp'' (entry :: entries) := by
  constructor
  case inv => exact h.inv
  case next =>
    have hnext' := h.next
    rw [List.length_cons]
    omega
  case old =>
    intro id hid
    rw [UInt64.lt_iff_toNat_lt] at hid
    rw [h.old, hlive, if_neg]
    . rintro rfl
      omega
    . rw [UInt64.lt_iff_toNat_lt]
      omega
  case new =>
    intro i entry' hentry id hid
    cases i with
    | zero =>
      have heq : id = grp.log.nextId := by
        apply UInt64.toNat.inj
        omega
      rw [List.getElem?_cons_zero] at hentry
      rw [h.old, hlive, if_pos heq, hentry]
      rw [UInt64.lt_iff_toNat_lt]
      omega
    | succ i =>
      rw [List.getElem?_cons_succ] at hentry
      apply h.new i entry' hentry
      omega

theorem Inv.append_of_active (h : Inv buildKey name grp)
    (hactive : grp.log.activeSeg < grp.log.segs.length) {env : Bool × Nat} {payload : List UInt8}
    (hspace : grp.log.space.refusal env.1 (SegLog.headerSize + payload.length) = none)
    (timestamp : UInt64)
    : ∃ grp',
        grp.append buildKey env.1 env.2 timestamp payload = (.ok grp.log.nextId, grp')
          ∧ Inv buildKey name grp'
          ∧ grp'.log.space = grp.log.space.filled (SegLog.headerSize + payload.length)
          ∧ grp'.log.activeSeg < grp'.log.segs.length
          ∧ grp'.log.nextId.toNat = grp.log.nextId.toNat + 1
          ∧ ∀ id, grp'.log.entryAt id
              = if id = grp.log.nextId then some (timestamp, payload) else grp.log.entryAt id := by
  have ⟨hinv, hres, hlog⟩ := h.append_eq env.1 env.2 timestamp payload
  have ⟨hid, hspace', hnext, hlive⟩ := h.log.append_of_active hactive hspace timestamp
  have hactive' := h.log.active_append hactive (.inl hspace) timestamp
  rw [← hlog] at hspace' hnext hlive hactive'
  rw [hid, Outcome.mapErr_ok] at hres
  refine ⟨_, Prod.ext hres rfl, hinv, hspace', hactive', ?_, hlive⟩
  rw [hnext, h.log.nextId_succ]

theorem Inv.append_of_refused (h : Inv buildKey name grp) {env : Bool × Nat} {payload : List UInt8}
    (hspace : grp.log.space.refusal env.1 (SegLog.headerSize + payload.length) ≠ none)
    (timestamp : UInt64)
    : ∃ e grp',
        grp.append buildKey env.1 env.2 timestamp payload = (.err e, grp')
          ∧ Inv buildKey name grp'
          ∧ grp'.visible = grp.visible := by
  have ⟨hinv, hres, hlog⟩ := h.append_eq env.1 env.2 timestamp payload
  rcases Option.ne_none_iff_exists'.mp hspace with ⟨e, he⟩
  have herr := h.log.append_eq_err he timestamp
  have ⟨hnext, hlive⟩ := h.log.append_of_err herr
  rw [herr, Outcome.mapErr_err] at hres
  rw [← hlog] at hnext hlive
  refine ⟨.logError e, _, Prod.ext hres rfl, hinv, ?_⟩
  unfold visible
  rw [hnext, hlive, append_lruCache_of_err hres]

theorem Inv.appendRest_of_taken (h : Inv buildKey name grp)
    (hactive : grp.log.activeSeg < grp.log.segs.length) {env : Nat → Bool × Nat}
    {entries : List (UInt64 × List UInt8)}
    (htakes : grp.log.space.TakesAll (fun i => (env i).1) (sizesOf entries)) {lastId : UInt64}
    (hlast : lastId.toNat + 1 = grp.log.nextId.toNat)
    : ∃ last grp',
        grp.appendRest buildKey env lastId entries = (.ok last, grp')
          ∧ last.toNat = lastId.toNat + entries.length
          ∧ Extended buildKey name grp grp' entries := by
  induction entries generalizing grp env lastId with
  | nil => exact ⟨lastId, grp, rfl, rfl, .nil h rfl⟩
  | cons entry entries ih =>
    rcases entry with ⟨timestamp, payload⟩
    rcases htakes with ⟨hfirst, hrest⟩
    rcases h.append_of_active hactive hfirst timestamp
      with ⟨grp', happend, hinv, hspace, hactive', hnext, hlive⟩
    rw [← hspace] at hrest
    rcases ih hinv hactive' hrest hnext.symm with ⟨last, grp'', hok, hlength, hext⟩
    refine ⟨last, grp'', ?_, ?_, .cons hnext hlive hext⟩
    . unfold appendRest
      rw [happend]
      exact hok
    . rw [hlength, List.length_cons]
      omega

theorem Inv.appendRest_of_refused (h : Inv buildKey name grp)
    (hactive : grp.log.activeSeg < grp.log.segs.length) {env : Nat → Bool × Nat}
    {entries : List (UInt64 × List UInt8)}
    (htakes : ¬grp.log.space.TakesAll (fun i => (env i).1) (sizesOf entries)) (lastId : UInt64)
    : ∃ e grp' front,
        grp.appendRest buildKey env lastId entries = (.err e, grp')
          ∧ front <+: entries
          ∧ Extended buildKey name grp grp' front := by
  induction entries generalizing grp env lastId with
  | nil => exact absurd trivial htakes
  | cons entry entries ih =>
    rcases entry with ⟨timestamp, payload⟩
    unfold appendRest
    by_cases hfirst : grp.log.space.refusal (env 0).1 (SegLog.headerSize + payload.length) = none
    . rcases h.append_of_active hactive hfirst timestamp
        with ⟨grp', happend, hinv, hspace, hactive', hnext, hlive⟩
      have hrest : ¬grp'.log.space.TakesAll (fun i => (env (i + 1)).1) (sizesOf entries) := by
        rw [hspace]
        exact fun hrest => htakes ⟨hfirst, hrest⟩
      rcases ih hinv hactive' hrest grp.log.nextId with ⟨e, grp'', front, herr, hfront, hext⟩
      rw [happend]
      refine ⟨e, grp'', (timestamp, payload) :: front, herr, ?_, .cons hnext hlive hext⟩
      exact List.cons_prefix_cons.mpr ⟨rfl, hfront⟩
    . rcases h.append_of_refused hfirst timestamp with ⟨e, grp', happend, hinv, hvisible⟩
      rw [happend]
      exact ⟨e, grp', [], rfl, List.nil_prefix, .nil hinv hvisible⟩

def appendAll (buildKey : String → UInt64 → UInt64) (grp : Group) (env : Nat → Bool × Nat)
    (timestamp : UInt64) (payload : List UInt8) (entries : List (UInt64 × List UInt8))
    : Outcome GroupError (UInt64 × UInt64) × Group :=
  match grp.append buildKey (env 0).1 (env 0).2 timestamp payload with
  | (.ok firstId, grp) =>
    let res := grp.appendRest buildKey (fun i => env (i + 1)) firstId entries
    (res.1.map (firstId, ·), res.2)
  | (.err e, grp) => (.err e, grp)
  | (.panic, grp) => (.panic, grp)

section AppendAll

variable {env : Nat → Bool × Nat} {timestamp : UInt64} {payload : List UInt8}
  {entries : List (UInt64 × List UInt8)}

theorem Inv.appendAll_of_taken (h : Inv buildKey name grp)
    (hactive : grp.log.activeSeg < grp.log.segs.length)
    (htakes : grp.log.space.TakesAll (fun i => (env i).1) (sizesOf ((timestamp, payload) :: entries)))
    : ∃ last grp',
        grp.appendAll buildKey env timestamp payload entries = (.ok (grp.log.nextId, last), grp')
          ∧ last.toNat = grp.log.nextId.toNat + entries.length
          ∧ Extended buildKey name grp grp' ((timestamp, payload) :: entries) := by
  rcases htakes with ⟨hfirst, hrest⟩
  rcases h.append_of_active hactive hfirst timestamp
    with ⟨grp', happend, hinv, hspace, hactive', hnext, hlive⟩
  rw [← hspace] at hrest
  rcases hinv.appendRest_of_taken hactive' hrest hnext.symm with ⟨last, grp'', hok, hlast, hext⟩
  refine ⟨last, grp'', ?_, hlast, .cons hnext hlive hext⟩
  unfold appendAll
  rw [happend]
  dsimp only
  rw [hok]
  rfl

theorem Inv.appendAll_of_rest_refused (h : Inv buildKey name grp)
    (hactive : grp.log.activeSeg < grp.log.segs.length)
    (hfirst : grp.log.space.refusal (env 0).1 (SegLog.headerSize + payload.length) = none)
    (htakes : ¬grp.log.space.TakesAll (fun i => (env i).1)
      (sizesOf ((timestamp, payload) :: entries)))
    : ∃ e grp' front,
        grp.appendAll buildKey env timestamp payload entries = (.err e, grp')
          ∧ front <+: entries
          ∧ Extended buildKey name grp grp' ((timestamp, payload) :: front) := by
  rcases h.append_of_active hactive hfirst timestamp
    with ⟨grp', happend, hinv, hspace, hactive', hnext, hlive⟩
  have hrest : ¬grp'.log.space.TakesAll (fun i => (env (i + 1)).1) (sizesOf entries) := by
    rw [hspace]
    exact fun hrest => htakes ⟨hfirst, hrest⟩
  rcases hinv.appendRest_of_refused hactive' hrest grp.log.nextId
    with ⟨e, grp'', front, herr, hfront, hext⟩
  refine ⟨e, grp'', front, ?_, hfront, .cons hnext hlive hext⟩
  unfold appendAll
  rw [happend]
  dsimp only
  rw [herr]
  rfl

theorem Inv.appendAll_of_first_refused (h : Inv buildKey name grp)
    (hfirst : grp.log.space.refusal (env 0).1 (SegLog.headerSize + payload.length) ≠ none)
    : ∃ e grp',
        grp.appendAll buildKey env timestamp payload entries = (.err e, grp')
          ∧ grp'.visible = grp.visible := by
  rcases h.append_of_refused hfirst timestamp with ⟨e, grp', happend, _, hvisible⟩
  refine ⟨e, grp', ?_, hvisible⟩
  unfold appendAll
  rw [happend]

theorem Inv.appendAll_of_stuck (h : Inv buildKey name grp)
    (hstuck : grp.log.segs.length ≤ grp.log.activeSeg)
    (hfirst : grp.log.space.refusal (env 0).1 (SegLog.headerSize + payload.length) = none)
    : ∃ grp', grp.appendAll buildKey env timestamp payload entries = (.panic, grp') := by
  have ⟨_, hres, _⟩ := h.append_eq (env 0).1 (env 0).2 timestamp payload
  rw [h.log.append_of_taken hfirst timestamp, if_neg (by omega), Outcome.mapErr_panic] at hres
  refine ⟨(grp.append buildKey (env 0).1 (env 0).2 timestamp payload).2, ?_⟩
  unfold appendAll
  rw [← Prod.eta (grp.append buildKey (env 0).1 (env 0).2 timestamp payload), hres]

end AppendAll

/-- The log is stuck, or there is no space even for the first of the entries, or there is space for all of
them. -/
def AllOrFirst (grp : Group) (alloc : Nat → Bool) (entries : List (UInt64 × List UInt8)) : Prop :=
  grp.log.segs.length ≤ grp.log.activeSeg
    ∨ ¬grp.log.space.TakesAll alloc (sizesOf (entries.take 1))
    ∨ grp.log.space.TakesAll alloc (sizesOf entries)

end Group

namespace GroupManager

variable {buildKey : String → UInt64 → UInt64} {gm : GroupManager} {group : String}

def visible (gm : GroupManager) (group : String)
    : Option ((UInt64 → Option (UInt64 × List UInt8)) × UInt64 × Lru UInt64 LogEntry) :=
  (gm.groups.lookup group).map Group.visible

structure AddsRange (buildKey : String → UInt64 → UInt64) (gm : GroupManager) (env : Nat → Bool × Nat)
    (group : String) (entries : List (UInt64 × List UInt8)) : Prop where
  fails : ∀ e,
    (gm.addRange buildKey env group entries).1 = .err e
      → (gm.addRange buildKey env group entries).2.visible group = gm.visible group
  adds : ∀ first last,
    (gm.addRange buildKey env group entries).1 = .ok (first, last)
      → last.toNat + 1 = first.toNat + entries.length
          ∧ ∀ (i : Nat) timestamp payload,
              entries[i]? = some (timestamp, payload) → ∀ now,
                ((gm.addRange buildKey env group entries).2.read buildKey now group
                    (first + UInt64.ofNat i)).1
                  = .ok (first + UInt64.ofNat i, timestamp, payload)

theorem addRange_cons (gm : GroupManager) (buildKey : String → UInt64 → UInt64)
    (env : Nat → Bool × Nat) (group : String) (timestamp : UInt64) (payload : List UInt8)
    (entries : List (UInt64 × List UInt8))
    : gm.addRange buildKey env group ((timestamp, payload) :: entries)
        =
      gm.onGroup group fun grp => grp.appendAll buildKey env timestamp payload entries := by
  rfl

theorem onGroup_of_some {α : Type} {grp grp' : Group} {f : Group → Outcome GroupError α × Group}
    {res : Outcome GroupError α} (hgrp : gm.groups.lookup group = some grp) (hf : f grp = (res, grp'))
    : (gm.onGroup group f).1 = res ∧ (gm.onGroup group f).2.groups.lookup group = some grp' := by
  unfold onGroup
  rw [hgrp]
  dsimp only
  rw [hf, Assoc.lookup_insert, if_pos rfl]
  exact ⟨rfl, rfl⟩

theorem read_of_live {grp : Group} (hgrp : gm.groups.lookup group = some grp)
    (hinv : Group.Inv buildKey group grp) (hinj : Function.Injective (buildKey group)) {id timestamp : UInt64}
    {payload : List UInt8} (hlive : grp.log.entryAt id = some (timestamp, payload)) (now : Nat)
    : (gm.read buildKey now group id).1 = .ok (id, timestamp, payload) := by
  unfold read
  rw [(onGroup_of_some hgrp (Prod.eta _).symm).1, hinv.read_eq hinj, hinv.log.read_eq, hlive]
  rfl

theorem addsRange_of_err {env : Nat → Bool × Nat} {entries : List (UInt64 × List UInt8)} {e : GroupError}
    (herr : (gm.addRange buildKey env group entries).1 = .err e)
    (hvisible : (gm.addRange buildKey env group entries).2.visible group = gm.visible group)
    : gm.AddsRange buildKey env group entries := by
  constructor
  . intro _ _
    exact hvisible
  . intro first last hok
    rw [herr] at hok
    contradiction

theorem addsRange_of_panic {env : Nat → Bool × Nat} {entries : List (UInt64 × List UInt8)}
    (hpanic : (gm.addRange buildKey env group entries).1 = .panic)
    : gm.AddsRange buildKey env group entries := by
  constructor
  . intro e herr
    rw [hpanic] at herr
    contradiction
  . intro first last hok
    rw [hpanic] at hok
    contradiction

theorem addsRange_of_extended (hinj : Function.Injective (buildKey group)) {env : Nat → Bool × Nat}
    {entries : List (UInt64 × List UInt8)} {grp grp' : Group} {first last : UInt64}
    (hok : (gm.addRange buildKey env group entries).1 = .ok (first, last))
    (hgrp' : (gm.addRange buildKey env group entries).2.groups.lookup group = some grp')
    (hfirst : first = grp.log.nextId) (hlast : last.toNat + 1 = first.toNat + entries.length)
    (hext : Group.Extended buildKey group grp grp' entries)
    : gm.AddsRange buildKey env group entries := by
  constructor
  . intro e herr
    rw [hok] at herr
    contradiction
  . intro first' last' hok'
    rw [hok, Outcome.ok.injEq, Prod.mk.injEq] at hok'
    rcases hok' with ⟨rfl, rfl⟩
    refine ⟨hlast, ?_⟩
    intro i timestamp payload hentry now
    have ⟨hi, _⟩ := List.getElem?_eq_some_iff.mp hentry
    have hlt := last.toNat_lt
    apply read_of_live hgrp' hext.inv hinj
    apply hext.new i _ hentry
    rw [UInt64.toNat_add, UInt64.toNat_ofNat', ← hfirst]
    omega

theorem visible_of_some {grp : Group} (h : gm.groups.lookup group = some grp)
    : gm.visible group = some grp.visible := by
  unfold visible
  rw [h, Option.map_some]

theorem Inv.addsRange_cons_iff (h : Inv buildKey gm) (hinj : Function.Injective (buildKey group))
    (env : Nat → Bool × Nat) (timestamp : UInt64) (payload : List UInt8)
    (entries : List (UInt64 × List UInt8)) {grp : Group} (hgrp : gm.groups.lookup group = some grp)
    : gm.AddsRange buildKey env group ((timestamp, payload) :: entries)
        ↔
      grp.AllOrFirst (fun i => (env i).1) ((timestamp, payload) :: entries) := by
  have hinv := h group grp hgrp
  have hres {res : Outcome GroupError (UInt64 × UInt64)} {grp' : Group}
      (happend : grp.appendAll buildKey env timestamp payload entries = (res, grp'))
      : (gm.addRange buildKey env group ((timestamp, payload) :: entries)).1 = res
          ∧ (gm.addRange buildKey env group ((timestamp, payload) :: entries)).2.groups.lookup group
            = some grp' := by
    rw [addRange_cons]
    exact onGroup_of_some hgrp happend
  by_cases hfirst : grp.log.space.refusal (env 0).1 (SegLog.headerSize + payload.length) = none
  . by_cases hactive : grp.log.activeSeg < grp.log.segs.length
    . by_cases htakes : grp.log.space.TakesAll (fun i => (env i).1)
        (sizesOf ((timestamp, payload) :: entries))
      . rcases hinv.appendAll_of_taken hactive htakes with ⟨last, grp', happend, hlast, hext⟩
        have ⟨hok, hlookup⟩ := hres happend
        constructor
        . intro _
          exact .inr (.inr htakes)
        . intro _
          apply addsRange_of_extended hinj hok hlookup rfl _ hext
          rw [hlast, List.length_cons]
          omega
      -- the entries in front of the one that is refused stay
      . rcases hinv.appendAll_of_rest_refused hactive hfirst htakes
          with ⟨e, grp', front, happend, _, hext⟩
        have ⟨herr, hlookup⟩ := hres happend
        constructor
        . intro hadds
          have hsame := hadds.fails e herr
          rw [visible_of_some hlookup, visible_of_some hgrp, Option.some.injEq] at hsame
          exact absurd hsame (hext.visible_ne (by simp))
        . rintro (hstuck | hnone | hall)
          . omega
          . exact absurd ⟨hfirst, trivial⟩ hnone
          . exact absurd hall htakes
    . have hstuck : grp.log.segs.length ≤ grp.log.activeSeg := by omega
      rcases hinv.appendAll_of_stuck hstuck hfirst with ⟨grp', happend⟩
      constructor
      . intro _
        exact .inl hstuck
      . intro _
        exact addsRange_of_panic (hres happend).1
  . rcases hinv.appendAll_of_first_refused hfirst with ⟨e, grp', happend, hsame⟩
    have ⟨herr, hlookup⟩ := hres happend
    constructor
    . intro _
      right
      left
      exact fun htakes => hfirst htakes.1
    . intro _
      apply addsRange_of_err herr
      rw [visible_of_some hlookup, visible_of_some hgrp, hsame]

theorem Inv.addsRange_iff_allOrFirst (h : Inv buildKey gm) (hinj : Function.Injective (buildKey group))
    (env : Nat → Bool × Nat) (entries : List (UInt64 × List UInt8))
    : gm.AddsRange buildKey env group entries
        ↔
      ∀ grp,
        gm.groups.lookup group = some grp → grp.AllOrFirst (fun i => (env i).1) entries := by
  cases entries with
  | nil =>
    constructor
    . intro _ grp _
      exact .inr (.inr trivial)
    . intro _
      exact addsRange_of_err rfl rfl
  | cons entry entries =>
    rcases entry with ⟨timestamp, payload⟩
    cases hgrp : gm.groups.lookup group with
    | none =>
      have hmissing : gm.addRange buildKey env group ((timestamp, payload) :: entries)
          = (.err (.groupNotFound group), gm) := by
        rw [addRange_cons]
        unfold onGroup
        rw [hgrp]
      simp only [reduceCtorEq, false_imp_iff, implies_true, iff_true]
      apply addsRange_of_err
      . rw [hmissing]
      . rw [hmissing]
    | some grp =>
      simp only [Option.some.injEq, forall_eq']
      exact h.addsRange_cons_iff hinj env timestamp payload entries hgrp

end GroupManager
end MemStream
