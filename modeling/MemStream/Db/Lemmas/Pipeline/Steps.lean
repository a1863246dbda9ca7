import Mathlib.Data.Nat.SuccPred
import MemStream.Db.Impl.Dispatcher
import MemStream.Lib.Machine
import MemStream.Lib.Pool

namespace MemStream

namespace LockState

theorem canAcquire_iff (state : LockState) (resources : List Resource)
    : state.canAcquire resources = true ↔ ∀ r ∈ resources, state.holders r = 0 := by
  unfold canAcquire
  constructor
  . intro h r hr
    simp only [Bool.and_eq_true, List.all_eq_true] at h
    have := h.2 r hr
    simp only [gt_iff_lt, Bool.not_eq_eq_eq_not, Bool.not_true, decide_eq_false_iff_not] at this
    omega
  . intro h
    simp only [Bool.and_eq_true, List.all_eq_true]
    constructor
    . -- the first look at the key-value store says no more than the second
      simp only [Bool.not_eq_eq_eq_not, Bool.not_true, List.any_eq_false]
      intro r hr
      by_cases hkv : r = .kv
      . subst hkv
        have : state.kvHolders = 0 := h .kv hr
        simp [this]
      . simp [hkv]
    . intro r hr
      simp [h r hr]

theorem holders_update (state : LockState) (f : Nat → Nat) (r r' : Resource)
    : (state.update f r).holders r' = if r' = r then f (state.holders r') else state.holders r' := by
  cases r with
  | kv =>
    cases r' with
    | kv => rfl
    | list => rfl
    | log => rfl
  | list =>
    cases r' with
    | kv => rfl
    | list => rfl
    | log => rfl
  | log =>
    cases r' with
    | kv => rfl
    | list => rfl
    | log => rfl

theorem holders_foldl_update (f : Nat → Nat) (state : LockState) (resources : List Resource)
    (r : Resource)
    : (resources.foldl (fun state r => state.update f r) state).holders r
        =
      f^[resources.count r] (state.holders r) := by
  induction resources generalizing state with
  | nil => rfl
  | cons r' resources ih =>
    rw [List.foldl_cons, ih, holders_update]
    by_cases h : r = r'
    . rw [if_pos h, ← Function.iterate_succ_apply, h, List.count_cons_self]
    . rw [if_neg h, List.count_cons_of_ne (Ne.symm h)]

theorem holders_acquire (state : LockState) (resources : List Resource) (r : Resource)
    : (state.acquire resources).holders r = state.holders r + resources.count r := by
  unfold acquire
  rw [holders_foldl_update]
  exact Nat.succ_iterate _ _

theorem holders_release (state : LockState) (resources : List Resource) (r : Resource)
    : (state.release resources).holders r = state.holders r - resources.count r := by
  unfold release
  rw [holders_foldl_update]
  exact Nat.pred_iterate _ _

end LockState

namespace LockManager

theorem tryPopRunnable_eq_none {lm : LockManager} (h : lm.tryPopRunnable = none)
    : ∀ j ∈ lm.queue, lm.state.canAcquire j.resources = false := by
  unfold tryPopRunnable at h
  split at h
  . next hfind =>
    intro j hj
    simpa using List.findIdx?_eq_none_iff.mp hfind j hj
  . next pos hfind =>
    split at h
    . next hget =>
      have ⟨hlt, _⟩ := List.findIdx?_eq_some_iff_getElem.mp hfind
      rw [List.getElem?_eq_none_iff] at hget
      omega
    . simp at h

theorem tryPopRunnable_eq_some {lm lm' : LockManager} {job : PipelineJob} {resources : List Resource}
    (h : lm.tryPopRunnable = some ((job, resources), lm'))
    : ∃ front j back,
        lm.queue = front ++ j :: back
          ∧ lm.state.canAcquire j.resources = true
          ∧ (∀ j' ∈ front, lm.state.canAcquire j'.resources = false)
          ∧ j.job = job
          ∧ j.resources = resources
          ∧ lm' = { lm with queue := front ++ back } := by
  unfold tryPopRunnable at h
  split at h
  . simp at h
  . next pos hfind =>
    split at h
    . simp at h
    . next j hget =>
      rcases List.findIdx?_eq_some_iff_getElem.mp hfind with ⟨hlt, hpos, hfront⟩
      rw [List.getElem?_eq_getElem hlt, Option.some.injEq] at hget
      simp only [Option.some.injEq, Prod.mk.injEq] at h
      rcases h with ⟨⟨hjob, hresources⟩, hlm⟩
      refine ⟨lm.queue.take pos, j, lm.queue.drop (pos + 1), ?_, ?_, ?_, hjob, hresources, ?_⟩
      . rw [← hget, List.getElem_cons_drop, List.take_append_drop]
      . rw [← hget]
        exact hpos
      . intro j' hj'
        rcases List.mem_take_iff_getElem.mp hj' with ⟨k, hk, rfl⟩
        simpa using hfront k (by omega)
      . rw [← hlm, List.eraseIdx_eq_take_drop_succ]

theorem insertIdx_takeWhile (p : QueuedJob → Bool) (queue : List QueuedJob) (j : QueuedJob)
    : queue.insertIdx (queue.takeWhile p).length j = queue.takeWhile p ++ j :: queue.dropWhile p := by
  induction queue with
  | nil => rfl
  | cons j' queue ih =>
    cases hp : p j' with
    | true => simp [hp, ih]
    | false => simp [hp]

theorem insert_eq (lm : LockManager) (job : PipelineJob)
    : ∃ front back,
        lm.queue = front ++ back
          ∧ lm.insert job = { lm with queue := front ++ queued job :: back } := by
  unfold insert partitionPoint
  dsimp only
  rw [insertIdx_takeWhile]
  exact ⟨_, _, List.takeWhile_append_dropWhile.symm, rfl⟩

end LockManager

namespace PipelineManager

variable {pm pm' : PipelineManager}

theorem workerAt_eq_some {i : Nat} {pc : WorkerPc} {w : Worker} (h : pm.workerAt i pc = some w)
    : pm.workers[i]? = some w ∧ w.pc = pc := by
  unfold workerAt at h
  split at h
  . next w' hget =>
    split at h
    . next hpc =>
      rw [Option.some.injEq] at h
      subst h
      exact ⟨hget, hpc⟩
    . simp at h
  . simp at h

theorem submit_eq_some {job : PipelineJob} (h : pm.submit job = some pm')
    : pm' = { pm with channel := pm.channel ++ [job] } := by
  unfold submit at h
  split at h
  . exact (Option.some.inj h).symm
  . simp at h

theorem recv_eq_some (h : pm.recv = some pm')
    : ∃ job channel,
        pm.channel = job :: channel
          ∧ pm.dispatcher = .receiving
          ∧ pm' = { pm with channel := channel, dispatcher := .enqueuing job } := by
  unfold recv at h
  split at h
  . next job channel hdispatcher hchannel =>
    exact ⟨job, channel, hchannel, hdispatcher, (Option.some.inj h).symm⟩
  . simp at h

theorem insert_eq_some (h : pm.insert = some pm')
    : ∃ job,
        pm.dispatcher = .enqueuing job
          ∧ pm' = { pm with lm := pm.lm.insert job, dispatcher := .notifying } := by
  unfold insert at h
  split at h
  . next job hdispatcher => exact ⟨job, hdispatcher, (Option.some.inj h).symm⟩
  . simp at h

theorem notifyOne_eq_some {waiter : Option Nat} (h : pm.notifyOne waiter = some pm')
    : pm.dispatcher = .notifying
        ∧ ((∃ i w,
              pm.workers[i]? = some w
                ∧ w.pc = .sleeping
                ∧ pm' = { pm.setWorker i w .checking with dispatcher := .draining })
            ∨ pm' = { pm with lm := { pm.lm with permit := true }, dispatcher := .draining }) := by
  unfold notifyOne at h
  split at h
  . simp at h
  . next hdispatcher =>
    refine ⟨not_not.mp hdispatcher, ?_⟩
    split at h
    . next i =>
      split at h
      . next w hw =>
        have ⟨hget, hpc⟩ := workerAt_eq_some hw
        exact .inl ⟨i, w, hget, hpc, (Option.some.inj h).symm⟩
      . simp at h
    . split at h
      . simp at h
      . exact .inr (Option.some.inj h).symm

theorem tryRecv_eq_some (h : pm.tryRecv = some pm')
    : pm.dispatcher = .draining
        ∧ ((∃ job channel,
              pm.channel = job :: channel
                ∧ pm' = { pm with channel := channel, dispatcher := .enqueuing job })
            ∨ pm' = { pm with dispatcher := .scanning }) := by
  unfold tryRecv at h
  split at h
  . next job channel hdispatcher hchannel =>
    exact ⟨hdispatcher, .inl ⟨job, channel, hchannel, (Option.some.inj h).symm⟩⟩
  . next hdispatcher hchannel => exact ⟨hdispatcher, .inr (Option.some.inj h).symm⟩
  . simp at h

theorem tryPopRunnable_eq_some (h : pm.tryPopRunnable = some pm')
    : pm.dispatcher = .scanning
        ∧ (((∀ j ∈ pm.lm.queue, pm.lm.state.canAcquire j.resources = false)
              ∧ pm' = { pm with dispatcher := .receiving })
            ∨ ∃ front j back,
                pm.lm.queue = front ++ j :: back
                  ∧ pm'
                      = { pm with
                          lm := { pm.lm with queue := front ++ back }
                          dispatcher := .draining
                          workers := pm.workers ++ [⟨j.job, j.resources, .checking, none⟩] }) := by
  unfold tryPopRunnable at h
  split at h
  . simp at h
  . next hdispatcher =>
    refine ⟨not_not.mp hdispatcher, ?_⟩
    split at h
    . next hnone =>
      exact .inl ⟨LockManager.tryPopRunnable_eq_none hnone, (Option.some.inj h).symm⟩
    . next job resources lm hsome =>
      rcases LockManager.tryPopRunnable_eq_some hsome
        with ⟨front, j, back, hqueue, _, _, rfl, rfl, rfl⟩
      exact .inr ⟨front, j, back, hqueue, (Option.some.inj h).symm⟩

theorem check_eq_some {i : Nat} (h : pm.check i = some pm')
    : ∃ w,
        pm.workers[i]? = some w
          ∧ w.pc = .checking
          ∧ ((pm.lm.state.canAcquire w.resources = true
                ∧ pm'
                    = { pm.setWorker i w .executing with
                        lm := { pm.lm with state := pm.lm.state.acquire w.resources } })
              ∨ (pm.lm.state.canAcquire w.resources = false ∧ pm' = pm.setWorker i w .refused)) := by
  unfold check at h
  split at h
  . simp at h
  . next w hw =>
    have ⟨hget, hpc⟩ := workerAt_eq_some hw
    refine ⟨w, hget, hpc, ?_⟩
    split at h
    . next hcan => exact .inl ⟨hcan, (Option.some.inj h).symm⟩
    . next hcan => exact .inr ⟨Bool.not_eq_true _ ▸ hcan, (Option.some.inj h).symm⟩

theorem notified_eq_some {i : Nat} (h : pm.notified i = some pm')
    : ∃ w,
        pm.workers[i]? = some w
          ∧ w.pc = .refused
          ∧ (pm' = { pm.setWorker i w .checking with lm := { pm.lm with permit := false } }
              ∨ pm' = pm.setWorker i w .sleeping) := by
  unfold notified at h
  split at h
  . simp at h
  . next w hw =>
    have ⟨hget, hpc⟩ := workerAt_eq_some hw
    refine ⟨w, hget, hpc, ?_⟩
    split at h
    . exact .inl (Option.some.inj h).symm
    . exact .inr (Option.some.inj h).symm

theorem execute_eq_some {buildKey : String → UInt64 → UInt64} {i : Nat} {envs : Nat → Env}
    (h : pm.execute buildKey i envs = some pm')
    : ∃ w result pc db,
        pm.workers[i]? = some w
          ∧ w.pc = .executing
          ∧ (pc = .releasing ∨ pc = .panicked)
          ∧ pm' = { pm.setWorker i { w with result := result } pc with db := db } := by
  unfold execute at h
  split at h
  . simp at h
  . next w hw =>
    have ⟨hget, hpc⟩ := workerAt_eq_some hw
    split at h
    . exact ⟨w, _, .releasing, _, hget, hpc, .inl rfl, (Option.some.inj h).symm⟩
    . exact ⟨w, _, .releasing, _, hget, hpc, .inl rfl, (Option.some.inj h).symm⟩
    . exact ⟨w, w.result, .panicked, _, hget, hpc, .inr rfl, (Option.some.inj h).symm⟩

theorem release_eq_some {i : Nat} (h : pm.release i = some pm')
    : ∃ w,
        pm.workers[i]? = some w
          ∧ w.pc = .releasing
          ∧ pm'
              = { pm.setWorker i w .notifying with
                  lm := { pm.lm with state := pm.lm.state.release w.resources } } := by
  unfold release at h
  split at h
  . simp at h
  . next w hw =>
    have ⟨hget, hpc⟩ := workerAt_eq_some hw
    exact ⟨w, hget, hpc, (Option.some.inj h).symm⟩

theorem notifyWaiters_eq_some {i : Nat} (h : pm.notifyWaiters i = some pm')
    : ∃ w,
        pm.workers[i]? = some w
          ∧ w.pc = .notifying
          ∧ pm' = { pm with workers := (pm.setWorker i w .sending).workers.map wake } := by
  unfold notifyWaiters at h
  split at h
  . simp at h
  . next w hw =>
    have ⟨hget, hpc⟩ := workerAt_eq_some hw
    exact ⟨w, hget, hpc, (Option.some.inj h).symm⟩

theorem send_eq_some {i : Nat} (h : pm.send i = some pm')
    : ∃ w answers,
        pm.workers[i]? = some w
          ∧ w.pc = .sending
          ∧ pm' = { pm.setWorker i w .finished with answers := answers } := by
  unfold send at h
  split at h
  . simp at h
  . next w hw =>
    have ⟨hget, hpc⟩ := workerAt_eq_some hw
    exact ⟨w, _, hget, hpc, (Option.some.inj h).symm⟩

end PipelineManager
end MemStream
