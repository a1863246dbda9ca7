import MemStream.Lib.Machine
import MemStream.Db.Lemmas.SegLog.Trim
import MemStream.Db.Lemmas.SegLog.ReadRange

namespace MemStream

namespace LogSpec

theorem append_eq_ok {log log' : LogSpec} {alloc : Bool} {timestamp id : UInt64}
    {payload : List UInt8} (h : log.append alloc timestamp payload = (.ok id, log'))
    : id = log.nextId
        ∧ log'.nextId = log.nextId + 1
        ∧ ∀ id', log'.live id' = if id' = id then some (timestamp, payload) else log.live id' := by
  unfold append enter at h
  split at h
  . simp only [Prod.mk.injEq, Outcome.ok.injEq] at h
    rcases h with ⟨hid, hlog⟩
    rw [← hlog, ← hid]
    exact ⟨rfl, rfl, fun _ => rfl⟩
  . simp at h
  . simp at h

theorem append_frame {log log' : LogSpec} {alloc : Bool} {timestamp : UInt64}
    {payload : List UInt8} {res : Outcome LogError UInt64}
    (h : log.append alloc timestamp payload = (res, log')) (hres : ∀ id, res ≠ .ok id)
    : log'.nextId = log.nextId ∧ log'.live = log.live := by
  unfold append enter at h
  split at h
  . simp only [Prod.mk.injEq] at h
    exact absurd h.1.symm (hres log.nextId)
  . simp only [Prod.mk.injEq] at h
    rw [← h.2]
    exact ⟨rfl, rfl⟩
  . simp only [Prod.mk.injEq] at h
    rw [← h.2]
    exact ⟨rfl, rfl⟩

end LogSpec

namespace SegLog

theorem new_eq_ok {alloc : Nat → Bool} (h : ∀ i, alloc i = true) : new alloc = .ok empty := by
  unfold new
  rw [if_pos (by simp [h])]

theorem inv_empty : Inv empty where
  unlocked := rfl
  segs_le := by
    simp only [empty, List.length_replicate]
    decide
  active := by
    left
    simp only [empty, List.length_replicate]
    decide
  cursor_le := by simp [empty]
  next_pos := by decide
  used := by simp [empty]
  interval := by
    refine ⟨1, fun id => ?_⟩
    simp only [empty, Std.TreeMap.not_mem_emptyc, false_iff]
    rw [UInt64.toNat_one]
    omega
  count := by simp [empty]
  before := by simp [empty]
  order := by simp [empty]
  stored := by simp [empty]

theorem empty_entryAt (id : UInt64) : empty.entryAt id = none := by
  apply entryAt_eq_none
  simp [empty]

theorem abs_empty : empty.abs = LogSpec.empty := by
  simp only [abs, LogSpec.empty, LogSpec.mk.injEq]
  refine ⟨rfl, rfl, ?_⟩
  funext id
  exact empty_entryAt id

inductive Op where
  | append (alloc : Bool) (timestamp : UInt64) (payload : List UInt8)
  | trim (cutoffId : UInt64)

inductive Answer where
  | appended (res : Outcome LogError UInt64)
  | trimmed (res : Outcome LogError (List UInt64))

def step (log : SegLog) : Op → Answer × SegLog
  | .append alloc timestamp payload =>
    let res := log.append alloc timestamp payload
    (.appended res.1, res.2)
  | .trim cutoffId =>
    let res := log.trim cutoffId
    (.trimmed res.1, res.2)

def returnedId : Op × Answer → Option UInt64
  | (_, .appended (.ok id)) => some id
  | _ => none

def Live (hist : List (Op × Answer)) (id timestamp : UInt64) (payload : List UInt8) : Prop :=
  ∃ earlier alloc later,
    hist = earlier ++ (.append alloc timestamp payload, .appended (.ok id)) :: later
      ∧ ∀ cutoffId res, (.trim cutoffId, res) ∈ later → cutoffId ≤ id

theorem live_concat (hist : List (Op × Answer)) (last : Op × Answer) (id timestamp : UInt64)
    (payload : List UInt8)
    : Live (hist ++ [last]) id timestamp payload
        ↔
      (∃ alloc, last = (.append alloc timestamp payload, .appended (.ok id)))
        ∨ (Live hist id timestamp payload
            ∧ ∀ cutoffId res, last = (.trim cutoffId, res) → cutoffId ≤ id) := by
  constructor
  . rintro ⟨earlier, alloc, later, heq, hlater⟩
    rcases List.eq_nil_or_concat later with hnil | ⟨later', last', hconcat⟩
    . left
      rw [hnil] at heq
      have hlast := (List.append_inj' heq rfl).2
      injection hlast with hlast
      exact ⟨alloc, hlast⟩
    . right
      rw [List.concat_eq_append] at hconcat
      rw [hconcat, ← List.cons_append, ← List.append_assoc] at heq
      have ⟨hhist, hlast⟩ := List.append_inj' heq rfl
      injection hlast with hlast
      constructor
      . refine ⟨earlier, alloc, later', hhist, fun cutoffId res hmem => ?_⟩
        apply hlater cutoffId res
        simp [hconcat, hmem]
      . intro cutoffId res htrim
        apply hlater cutoffId res
        simp [hconcat, ← hlast, htrim]
  . rintro (⟨alloc, rfl⟩ | ⟨⟨earlier, alloc, later, rfl, hlater⟩, hlast⟩)
    . exact ⟨hist, alloc, [], rfl, by simp⟩
    . refine ⟨earlier, alloc, later ++ [last], by simp, fun cutoffId res hmem => ?_⟩
      simp only [List.mem_append, List.mem_singleton] at hmem
      cases hmem with
      | inl hmem => exact hlater cutoffId res hmem
      | inr heq => exact hlast cutoffId res heq.symm

structure Follows (hist : List (Op × Answer)) (log : SegLog) : Prop where
  inv : log.Inv
  entries : ∀ id timestamp payload,
    log.entryAt id = some (timestamp, payload) ↔ Live hist id timestamp payload
  ids : (hist.filterMap returnedId).map UInt64.toNat
    = List.range' 1 (hist.filterMap returnedId).length
  next : log.nextId.toNat = (hist.filterMap returnedId).length + 1

theorem follows_empty : Follows [] empty where
  inv := inv_empty
  entries := by
    intro id timestamp payload
    rw [empty_entryAt]
    simp [Live]
  ids := rfl
  next := rfl

theorem Follows.append {hist : List (Op × Answer)} {log : SegLog} (h : Follows hist log)
    (alloc : Bool) (timestamp : UInt64) (payload : List UInt8)
    : Follows
        (hist ++ [(.append alloc timestamp payload,
          .appended (log.append alloc timestamp payload).1)])
        (log.append alloc timestamp payload).2 := by
  have ⟨hinv, hrefines⟩ := h.inv.append_refines alloc timestamp payload
  rcases happend : log.append alloc timestamp payload with ⟨res, log'⟩
  rw [happend] at hinv hrefines
  by_cases hres : ∃ id, res = .ok id
  . rcases hres with ⟨id, rfl⟩
    have ⟨hid, hnext, hlive⟩ := LogSpec.append_eq_ok hrefines
    have hnextId : log'.nextId = log.nextId + 1 := hnext
    have hreturned : (hist ++ [(Op.append alloc timestamp payload, Answer.appended (.ok id))]).filterMap
        returnedId = hist.filterMap returnedId ++ [id] := by
      simp [returnedId]
    refine ⟨hinv, ?_, ?_, ?_⟩
    . intro id' timestamp' payload'
      have hentry : log'.entryAt id' = if id' = id then some (timestamp, payload) else log.entryAt id' :=
        hlive id'
      rw [hentry, live_concat, ← h.entries]
      split
      . next heq =>
        have hfresh : log.entryAt id' = none := by
          apply entryAt_eq_none
          rw [heq, hid]
          exact h.inv.nextId_fresh
        rw [hfresh, heq]
        simp
      . next hne =>
        simp only [Prod.mk.injEq, Answer.appended.injEq, Outcome.ok.injEq, reduceCtorEq, false_and,
          IsEmpty.forall_iff, implies_true, and_true, iff_or_self]
        rintro ⟨_, _, heq⟩
        exact absurd heq.symm hne
    . rw [hreturned, List.length_append, List.length_singleton, List.range'_1_concat, List.map_append,
        ← h.ids, List.map_singleton, Nat.add_comm 1, ← h.next, hid]
      rfl
    . rw [hreturned, hnextId, h.inv.nextId_succ, h.next]
      simp
  . have hres : ∀ id, res ≠ .ok id := fun id hid => hres ⟨id, hid⟩
    have ⟨hnext, hlive⟩ := LogSpec.append_frame hrefines hres
    have hnextId : log'.nextId = log.nextId := hnext
    have hentry : log'.entryAt = log.entryAt := hlive
    have hreturned : (hist ++ [(Op.append alloc timestamp payload, Answer.appended res)]).filterMap
        returnedId = hist.filterMap returnedId := by
      rw [List.filterMap_append]
      cases res with
      | ok id => exact absurd rfl (hres id)
      | err e => simp [returnedId]
      | panic => simp [returnedId]
    refine ⟨hinv, ?_, ?_, ?_⟩
    . intro id' timestamp' payload'
      rw [hentry, live_concat, ← h.entries]
      simp only [Prod.mk.injEq, Answer.appended.injEq, reduceCtorEq, false_and, IsEmpty.forall_iff,
        implies_true, and_true, iff_or_self]
      rintro ⟨_, _, heq⟩
      exact absurd heq (hres id')
    . rw [hreturned]
      exact h.ids
    . rw [hreturned, hnextId]
      exact h.next

theorem Follows.trim {hist : List (Op × Answer)} {log : SegLog} (h : Follows hist log)
    (cutoffId : UInt64)
    : Follows (hist ++ [(.trim cutoffId, .trimmed (log.trim cutoffId).1)]) (log.trim cutoffId).2 := by
  have ⟨_, habs⟩ := h.inv.trim_refines cutoffId
  have hnextId : (log.trim cutoffId).2.nextId = log.nextId := congrArg LogSpec.nextId habs
  have hentry (id : UInt64)
      : (log.trim cutoffId).2.entryAt id = if id < cutoffId then none else log.entryAt id :=
    congrFun (congrArg LogSpec.live habs) id
  have hreturned : (hist ++ [(Op.trim cutoffId, Answer.trimmed (log.trim cutoffId).1)]).filterMap
      returnedId = hist.filterMap returnedId := by
    simp [returnedId]
  refine ⟨h.inv.trim cutoffId, ?_, ?_, ?_⟩
  . intro id timestamp payload
    rw [hentry, live_concat, ← h.entries]
    simp only [Prod.mk.injEq, reduceCtorEq, false_and, exists_false, Op.trim.injEq, and_imp, false_or]
    split
    . next hlt =>
      simp only [reduceCtorEq, false_iff, not_and]
      intro _ hall
      have hle := hall cutoffId _ rfl rfl
      rw [← UInt64.not_lt] at hle
      exact hle hlt
    . next hlt =>
      rw [UInt64.not_lt] at hlt
      simp [hlt]
  . rw [hreturned]
    exact h.ids
  . rw [hreturned, hnextId]
    exact h.next

theorem follows_run (ops : List Op)
    : Follows (Machine.run step empty ops).1 (Machine.run step empty ops).2 := by
  induction ops using List.reverseRecOn with
  | nil => exact follows_empty
  | append_singleton ops op ih =>
    rw [Machine.run_concat]
    cases op with
    | append alloc timestamp payload => exact ih.append alloc timestamp payload
    | trim cutoffId => exact ih.trim cutoffId

theorem run_refines_append_only_map (ops : List Op)
    : new (fun _ => true) = .ok empty
        ∧ let hist := (Machine.run step empty ops).1
          let log := (Machine.run step empty ops).2
          let ids := hist.filterMap returnedId
          ids.map UInt64.toNat = List.range' 1 ids.length
            ∧ (∀ id timestamp payload,
                Live hist id timestamp payload
                  → log.read id = .ok (id, timestamp, payload)
                      ∧ log.getRawEntrySlice id = .ok (encodeEntry id timestamp payload))
            ∧ (∀ id,
                (∀ timestamp payload, ¬ Live hist id timestamp payload)
                  → log.read id = .err .entryNotFound
                      ∧ log.getRawEntrySlice id = .err "entry not found")
            ∧ (∀ start stop,
                start ≤ stop
                  → ∃ entries,
                      log.readRange start stop = .ok entries
                        ∧ entries.Pairwise (fun e e' => e.1 < e'.1)
                        ∧ ∀ id timestamp payload,
                            (id, timestamp, payload) ∈ entries
                              ↔ Live hist id timestamp payload ∧ start ≤ id ∧ id ≤ stop) := by
  have hfollows := follows_run ops
  refine ⟨new_eq_ok fun _ => rfl, hfollows.ids, ?_, ?_, ?_⟩
  . intro id timestamp payload hlive
    rw [← hfollows.entries] at hlive
    rw [hfollows.inv.read_eq, hfollows.inv.getRawEntrySlice_eq, hlive]
    exact ⟨rfl, rfl⟩
  . intro id hdead
    have hnone : (Machine.run step empty ops).2.entryAt id = none := by
      cases hentry : (Machine.run step empty ops).2.entryAt id with
      | none => rfl
      | some entry => exact absurd ((hfollows.entries id entry.1 entry.2).mp hentry) (hdead _ _)
    rw [hfollows.inv.read_eq, hfollows.inv.getRawEntrySlice_eq, hnone]
    exact ⟨rfl, rfl⟩
  . intro start stop hle
    rcases hfollows.inv.readRange_spec hle with ⟨entries, hread, hsorted, hmem⟩
    refine ⟨entries, hread, hsorted, fun id timestamp payload => ?_⟩
    rw [hmem, hfollows.entries]

end SegLog
end MemStream
