import MemStream.Db.Lemmas.SegLog.History

namespace MemStream

namespace LogSpace

def refusal (space : LogSpace) (alloc : Bool) (size : Nat) : Option LogError :=
  if size > SegLog.segmentSize then
    some .entryTooLarge
  else if space.writeCursor + size ≤ SegLog.segmentSize then
    none
  else if space.activeSeg + 1 < space.segs then
    none
  else if space.segs ≥ SegLog.maxSegments then
    some .maxSegmentsReached
  else if alloc then
    none
  else
    some .allocationFailed

def filled (space : LogSpace) (size : Nat) : LogSpace :=
  if space.writeCursor + size ≤ SegLog.segmentSize then
    { space with writeCursor := space.writeCursor + size }
  else
    ⟨max space.segs (space.activeSeg + 2), space.activeSeg + 1, size⟩

def stranded (space : LogSpace) : LogSpace :=
  ⟨space.segs, space.activeSeg + 1, 0⟩

variable {space : LogSpace} {alloc : Bool} {size : Nat}

theorem claim_eq_ok (hactive : space.activeSeg < space.segs) (h : space.refusal alloc size = none)
    : space.claim alloc size = (.ok (), space.filled size) := by
  unfold refusal at h
  unfold claim rollOver filled
  split at h
  . contradiction
  . next hsize =>
    rw [if_neg hsize]
    split at h
    . next hfits =>
      rw [if_neg (by omega), if_pos hfits]
      simp [take, hactive]
    . next hfull =>
      rw [if_pos (by omega), if_neg hfull]
      split at h
      . next hnext =>
        rw [if_pos hnext]
        simp only [take, if_pos hnext, Nat.zero_add]
        rw [Nat.max_eq_left (by omega)]
      . next hlast =>
        have hsegs : space.segs = space.activeSeg + 1 := by omega
        rw [if_neg hlast]
        split at h
        . contradiction
        . next hmax =>
          rw [if_neg hmax]
          split at h
          . next halloc => simp [take, halloc, hsegs]
          . contradiction

theorem refusal_eq_tooLarge_iff
    : space.refusal alloc size = some .entryTooLarge ↔ size > SegLog.segmentSize := by
  unfold refusal
  constructor
  . intro h
    split at h
    . assumption
    . split at h
      . contradiction
      . split at h
        . contradiction
        . split at h
          . contradiction
          . split at h
            . contradiction
            . contradiction
  . intro h
    rw [if_pos h]

theorem refusal_ne_none (h : size > SegLog.segmentSize) : space.refusal alloc size ≠ none := by
  rw [refusal_eq_tooLarge_iff.mpr h]
  simp

theorem claim_eq_err {e : LogError} (h : space.refusal alloc size = some e)
    (hne : e ≠ .entryTooLarge)
    : space.claim alloc size = (.err e, space.stranded) := by
  unfold refusal at h
  unfold claim rollOver stranded
  split at h
  . exact absurd (Option.some.inj h).symm hne
  . next hsize =>
    rw [if_neg hsize]
    split at h
    . contradiction
    . next hfull =>
      rw [if_pos (by omega)]
      split at h
      . contradiction
      . next hlast =>
        rw [if_neg hlast]
        split at h
        . next hmax =>
          cases h
          rw [if_pos hmax]
        . next hmax =>
          rw [if_neg hmax]
          split at h
          . contradiction
          . next halloc =>
            cases h
            rw [if_neg halloc]

theorem claim_eq_panic (hactive : space.activeSeg = space.segs) (hcursor : space.writeCursor = 0)
    (h : space.refusal alloc size = none)
    : space.claim alloc size = (.panic, space) := by
  have hsize : ¬size > SegLog.segmentSize := by
    rw [← refusal_eq_tooLarge_iff, h]
    simp
  unfold claim rollOver
  rw [if_neg hsize, if_neg (by omega)]
  simp [take, hactive]

theorem filled_active (hactive : space.activeSeg < space.segs) (size : Nat)
    : (space.filled size).activeSeg < (space.filled size).segs := by
  unfold filled
  split
  . exact hactive
  . dsimp only
    omega

end LogSpace

namespace SegLog

variable {log : SegLog}

theorem Inv.append_space (hinv : log.Inv) (alloc : Bool) (timestamp : UInt64) (payload : List UInt8)
    : (log.append alloc timestamp payload).1
          = (log.space.claim alloc (headerSize + payload.length)).1.map (fun _ => log.nextId)
        ∧ (log.append alloc timestamp payload).2.space
          = (log.space.claim alloc (headerSize + payload.length)).2 := by
  have ⟨_, habs⟩ := hinv.append_refines alloc timestamp payload
  unfold LogSpec.append at habs
  have hspace : log.abs.space = log.space := by
    rfl
  rw [hspace] at habs
  rcases hclaim : log.space.claim alloc (headerSize + payload.length) with ⟨res, space⟩
  rw [hclaim] at habs
  cases res with
  | ok =>
    simp only [LogSpec.enter, Prod.mk.injEq] at habs
    exact ⟨habs.1.symm, congrArg LogSpec.space habs.2.symm⟩
  | err e =>
    simp only [LogSpec.enter, Prod.mk.injEq] at habs
    exact ⟨habs.1.symm, congrArg LogSpec.space habs.2.symm⟩
  | panic =>
    simp only [LogSpec.enter, Prod.mk.injEq] at habs
    exact ⟨habs.1.symm, congrArg LogSpec.space habs.2.symm⟩

def Spared (log : SegLog) (alloc : Bool) (payload : List UInt8) : Prop :=
  log.space.refusal alloc (headerSize + payload.length) = none
    ∨ log.space.refusal alloc (headerSize + payload.length) = some .entryTooLarge

def Unharmed (log : SegLog) (alloc : Bool) (timestamp : UInt64) (payload : List UInt8) : Prop :=
  ∀ e,
    (log.append alloc timestamp payload).1 = .err e
      → (log.append alloc timestamp payload).2 = log

theorem Inv.append_of_taken (hinv : log.Inv) {alloc : Bool} {payload : List UInt8}
    (h : log.space.refusal alloc (headerSize + payload.length) = none) (timestamp : UInt64)
    : (log.append alloc timestamp payload).1
        =
      if log.activeSeg < log.segs.length then .ok log.nextId else .panic := by
  have ⟨hres, _⟩ := hinv.append_space alloc timestamp payload
  rw [hres]
  split
  . next hactive => rw [LogSpace.claim_eq_ok hactive h, Outcome.map_ok]
  . next hactive =>
    have ⟨hend, hcursor⟩ := hinv.active.resolve_left hactive
    rw [LogSpace.claim_eq_panic hend hcursor h, Outcome.map_panic]

theorem append_of_tooLarge {alloc : Bool} {payload : List UInt8}
    (h : log.space.refusal alloc (headerSize + payload.length) = some .entryTooLarge)
    (timestamp : UInt64)
    : log.append alloc timestamp payload = (.err .entryTooLarge, log) := by
  unfold append
  dsimp only
  rw [if_pos (LogSpace.refusal_eq_tooLarge_iff.mp h)]

theorem Inv.append_of_refused (hinv : log.Inv) {alloc : Bool} {payload : List UInt8} {e : LogError}
    (h : log.space.refusal alloc (headerSize + payload.length) = some e) (hne : e ≠ .entryTooLarge)
    (timestamp : UInt64)
    : (log.append alloc timestamp payload).1 = .err e
        ∧ (log.append alloc timestamp payload).2.space = log.space.stranded := by
  have ⟨hres, hspace⟩ := hinv.append_space alloc timestamp payload
  rw [hres, hspace, LogSpace.claim_eq_err h hne]
  exact ⟨rfl, rfl⟩

theorem Inv.append_of_active (hinv : log.Inv) (hactive : log.activeSeg < log.segs.length)
    {alloc : Bool} {payload : List UInt8}
    (h : log.space.refusal alloc (headerSize + payload.length) = none) (timestamp : UInt64)
    : (log.append alloc timestamp payload).1 = .ok log.nextId
        ∧ (log.append alloc timestamp payload).2.space
          = log.space.filled (headerSize + payload.length)
        ∧ (log.append alloc timestamp payload).2.nextId = log.nextId + 1
        ∧ ∀ id, (log.append alloc timestamp payload).2.entryAt id
            = if id = log.nextId then some (timestamp, payload) else log.entryAt id := by
  have ⟨_, hspace⟩ := hinv.append_space alloc timestamp payload
  have ⟨_, habs⟩ := hinv.append_refines alloc timestamp payload
  have hres := hinv.append_of_taken h timestamp
  rw [if_pos hactive] at hres
  rw [hres] at habs
  have ⟨_, hnext, hlive⟩ := LogSpec.append_eq_ok habs
  rw [LogSpace.claim_eq_ok hactive h] at hspace
  exact ⟨hres, hspace, hnext, hlive⟩

theorem Inv.append_eq_err (hinv : log.Inv) {alloc : Bool} {payload : List UInt8} {e : LogError}
    (h : log.space.refusal alloc (headerSize + payload.length) = some e) (timestamp : UInt64)
    : (log.append alloc timestamp payload).1 = .err e := by
  by_cases he : e = .entryTooLarge
  . rw [he] at h ⊢
    rw [append_of_tooLarge h]
  . exact (hinv.append_of_refused h he timestamp).1

theorem Inv.append_of_err (hinv : log.Inv) {alloc : Bool} {timestamp : UInt64}
    {payload : List UInt8} {e : LogError} (h : (log.append alloc timestamp payload).1 = .err e)
    : (log.append alloc timestamp payload).2.nextId = log.nextId
        ∧ (log.append alloc timestamp payload).2.entryAt = log.entryAt := by
  have ⟨_, habs⟩ := hinv.append_refines alloc timestamp payload
  rw [h] at habs
  apply LogSpec.append_frame habs
  simp

theorem Inv.unharmed_iff (hinv : log.Inv) (alloc : Bool) (timestamp : UInt64)
    (payload : List UInt8)
    : log.Unharmed alloc timestamp payload ↔ log.Spared alloc payload := by
  unfold Unharmed Spared
  cases hrefusal : log.space.refusal alloc (headerSize + payload.length) with
  | none =>
    simp only [reduceCtorEq, or_false, iff_true]
    intro e herr
    rw [hinv.append_of_taken hrefusal] at herr
    split at herr
    . contradiction
    . contradiction
  | some e =>
    simp only [reduceCtorEq, false_or, Option.some.injEq]
    constructor
    . intro h
      apply Decidable.of_not_not
      intro hne
      have ⟨hres, hspace⟩ := hinv.append_of_refused hrefusal hne timestamp
      rw [h e hres] at hspace
      have hactive := congrArg LogSpace.activeSeg hspace
      simp [LogSpace.stranded] at hactive
    . intro he e' _
      rw [he] at hrefusal
      rw [append_of_tooLarge hrefusal]

theorem Inv.active_append (hinv : log.Inv) (hactive : log.activeSeg < log.segs.length) {alloc : Bool}
    {payload : List UInt8} (h : log.Spared alloc payload) (timestamp : UInt64)
    : (log.append alloc timestamp payload).2.activeSeg
        < (log.append alloc timestamp payload).2.segs.length := by
  cases h with
  | inl hnone =>
    have ⟨_, hspace⟩ := hinv.append_space alloc timestamp payload
    have hactive : log.space.activeSeg < log.space.segs := hactive
    have hfilled := LogSpace.filled_active hactive (headerSize + payload.length)
    rw [LogSpace.claim_eq_ok hactive hnone] at hspace
    dsimp only at hspace
    rw [← hspace] at hfilled
    exact hfilled
  | inr hlarge =>
    rw [append_of_tooLarge hlarge]
    exact hactive

theorem Inv.append_ne_panic (hinv : log.Inv) (hactive : log.activeSeg < log.segs.length)
    (alloc : Bool) (timestamp : UInt64) (payload : List UInt8)
    : (log.append alloc timestamp payload).1 ≠ .panic := by
  cases hrefusal : log.space.refusal alloc (headerSize + payload.length) with
  | none =>
    rw [hinv.append_of_taken hrefusal, if_pos hactive]
    simp
  | some e =>
    rw [hinv.append_eq_err hrefusal]
    simp

theorem Inv.active_trim (hinv : log.Inv) (hactive : log.activeSeg < log.segs.length)
    (cutoffId : UInt64)
    : (log.trim cutoffId).2.activeSeg < (log.trim cutoffId).2.segs.length := by
  rcases hinv.trim_eq cutoffId with ⟨segs, htrim, hlen, _⟩
  rw [htrim]
  simp only [SegLog.withoutTrimmed, hlen]
  exact hactive

/-
Runs.
-/

def after (ops : List Op) : SegLog :=
  (Machine.run step empty ops).2

theorem after_concat (ops : List Op) (op : Op) : after (ops ++ [op]) = ((after ops).step op).2 := by
  unfold after
  rw [Machine.run_concat]

theorem inv_after (ops : List Op) : (after ops).Inv :=
  (follows_run ops).inv

structure Usable (ops : List Op) : Prop where
  unharmed : ∀ front alloc timestamp payload,
    front ++ [.append alloc timestamp payload] <+: ops →
      (after front).Unharmed alloc timestamp payload
  active : ∀ front, front <+: ops → (after front).activeSeg < (after front).segs.length
  inBounds : ∀ front alloc timestamp payload,
    front ++ [.append alloc timestamp payload] <+: ops →
      ((after front).append alloc timestamp payload).1 ≠ .panic

theorem active_after {ops : List Op}
    (h : ∀ front alloc timestamp payload,
      front ++ [.append alloc timestamp payload] <+: ops → (after front).Spared alloc payload)
    : (after ops).activeSeg < (after ops).segs.length := by
  induction ops using List.reverseRecOn with
  | nil => decide
  | append_singleton ops op ih =>
    have hactive := ih fun front alloc timestamp payload hpre =>
      h front alloc timestamp payload (hpre.trans (List.prefix_append ops [op]))
    rw [after_concat]
    cases op with
    | append alloc timestamp payload =>
      apply (inv_after ops).active_append hactive
      exact h ops alloc timestamp payload (List.prefix_refl _)
    | trim cutoffId => exact (inv_after ops).active_trim hactive cutoffId

/-- A run leaves the log usable if and only if none of its appends rolls over to a segment that cannot be
had, for want of memory or because there are `MAX_SEGMENTS` of them. -/
theorem usable_iff (ops : List Op)
    : Usable ops
        ↔
      ∀ front alloc timestamp payload,
        front ++ [.append alloc timestamp payload] <+: ops → (after front).Spared alloc payload := by
  constructor
  . intro h front alloc timestamp payload hpre
    rw [← (inv_after front).unharmed_iff alloc timestamp payload]
    exact h.unharmed front alloc timestamp payload hpre
  . intro h
    have hactive (front : List Op) (hfront : front <+: ops)
        : (after front).activeSeg < (after front).segs.length := by
      apply active_after
      intro front' alloc timestamp payload hpre
      exact h front' alloc timestamp payload (hpre.trans hfront)
    refine ⟨?_, hactive, ?_⟩
    . intro front alloc timestamp payload hpre
      rw [(inv_after front).unharmed_iff]
      exact h front alloc timestamp payload hpre
    . intro front alloc timestamp payload hpre
      apply (inv_after front).append_ne_panic
      apply hactive
      exact (List.prefix_append front _).trans hpre

section Full

variable {payload : List UInt8} (hfull : payload.length = 65516)

def fullOps (payload : List UInt8) (n : Nat) : List Op :=
  List.replicate n (.append true 0 payload)

def stuckOps (payload : List UInt8) : List Op :=
  fullOps payload 8 ++ [.append false 0 payload]

include hfull

theorem Inv.append_full (hinv : log.Inv) (alloc : Bool)
    : (log.append alloc 0 payload).1
          = (log.space.claim alloc 65536).1.map (fun _ => log.nextId)
        ∧ (log.append alloc 0 payload).2.space = (log.space.claim alloc 65536).2 := by
  have h := hinv.append_space alloc 0 payload
  rw [hfull] at h
  exact h

omit hfull in
theorem claim_full {n : Nat} (hpos : 0 < n) (hlt : n < 8)
    : LogSpace.claim ⟨8, n - 1, 65536⟩ true 65536 = (.ok (), ⟨8, n, 65536⟩) := by
  rw [LogSpace.claim_eq_ok]
  . unfold LogSpace.filled
    dsimp only
    rw [if_neg (by unfold segmentSize; omega)]
    simp only [Prod.mk.injEq, LogSpace.mk.injEq, true_and, and_true]
    omega
  . dsimp only
    omega
  . unfold LogSpace.refusal segmentSize
    dsimp only
    rw [if_neg (by omega), if_neg (by omega), if_pos (by omega)]

omit hfull in
theorem claim_first : LogSpace.claim ⟨8, 0, 0⟩ true 65536 = (.ok (), ⟨8, 0, 65536⟩) := by
  rw [LogSpace.claim_eq_ok]
  . unfold LogSpace.filled segmentSize
    dsimp only
    rw [if_pos (by omega)]
  . dsimp only
    omega
  . unfold LogSpace.refusal segmentSize
    dsimp only
    rw [if_neg (by omega), if_pos (by omega)]

omit hfull in
theorem refusal_full
    : LogSpace.refusal ⟨8, 7, 65536⟩ false 65536 = some .allocationFailed := by
  unfold LogSpace.refusal segmentSize maxSegments
  dsimp only
  rw [if_neg (by omega), if_neg (by omega), if_neg (by omega), if_neg (by omega), if_neg (by simp)]

theorem space_after_full {n : Nat} (hpos : 0 < n) (hle : n ≤ 8)
    : (after (fullOps payload n)).space = ⟨8, n - 1, 65536⟩ := by
  induction n with
  | zero => contradiction
  | succ n ih =>
    have ⟨_, hspace⟩ := (inv_after (fullOps payload n)).append_full hfull true
    unfold fullOps at hspace ⊢
    rw [List.replicate_succ', after_concat]
    simp only [step]
    rw [hspace]
    by_cases hn : n = 0
    . have hnew : (after (List.replicate 0 (.append true 0 payload))).space = ⟨8, 0, 0⟩ := by
        rfl
      rw [hn, hnew, claim_first]
    . have hih := ih (by omega) (by omega)
      unfold fullOps at hih
      rw [hih, claim_full (by omega) (by omega)]
      rfl

theorem stuck_after_failed_allocation
    : ((after (fullOps payload 8)).append false 0 payload).1 = .err .allocationFailed
        ∧ ((after (stuckOps payload)).append true 0 []).1 = .panic
        ∧ ¬Usable (stuckOps payload) := by
  have ⟨hres, hspace⟩ := (inv_after (fullOps payload 8)).append_full hfull false
  rw [space_after_full hfull (by omega) (by omega), LogSpace.claim_eq_err refusal_full (by simp)]
    at hres hspace
  have hstuck : after (stuckOps payload) = ((after (fullOps payload 8)).append false 0 payload).2 := by
    unfold stuckOps
    rw [after_concat]
    simp only [step]
  rw [← hstuck] at hspace
  have htaken : (after (stuckOps payload)).space.refusal true (headerSize + ([] : List UInt8).length)
      = none := by
    rw [hspace]
    decide
  simp only [space, LogSpace.stranded, LogSpace.mk.injEq] at hspace
  rcases hspace with ⟨hsegs, hactive, _⟩
  refine ⟨hres, ?_, ?_⟩
  . rw [(inv_after (stuckOps payload)).append_of_taken htaken, if_neg]
    omega
  . intro h
    have hlt := h.active (stuckOps payload) (List.prefix_refl _)
    omega

end Full

-- The eight segments are full and there is no memory for another one: from then on an append panics.
theorem not_usable_after_failed_allocation
    : ∃ payload : List UInt8,
        payload = List.replicate 65516 0
          ∧ ((after (fullOps payload 8)).append false 0 payload).1 = .err .allocationFailed
          ∧ ((after (stuckOps payload)).append true 0 []).1 = .panic
          ∧ ¬Usable (stuckOps payload) := by
  refine ⟨_, rfl, ?_⟩
  apply stuck_after_failed_allocation
  apply List.length_replicate

end SegLog
end MemStream
