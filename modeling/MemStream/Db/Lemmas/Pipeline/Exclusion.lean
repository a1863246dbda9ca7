import MemStream.Db.Lemmas.Pipeline.Wakeup
import Mathlib.Algebra.Order.BigOperators.Group.List

/-!
Jobs that run side by side. That a job can be spawned reserves nothing for it, only the check in `acquire`
keeps two jobs from having a resource at the same time. As a job names each of its resources once, the
counters then never go beyond one and are given back to zero.
-/

namespace MemStream

theorem nodup_foldl_resource {seen : List Resource} (h : seen.Nodup) (commands : List PipelineCommand)
    : (commands.foldl
        (fun seen c => if c.resource ∈ seen then seen else seen ++ [c.resource]) seen).Nodup := by
  induction commands generalizing seen with
  | nil =>
    rw [List.foldl_nil]
    assumption
  | cons c commands ih =>
    rw [List.foldl_cons]
    apply ih
    split
    . assumption
    . rw [← List.concat_eq_append]
      apply List.Nodup.concat
      . assumption
      . assumption

theorem nodup_uniqueResources (commands : List PipelineCommand) : (uniqueResources commands).Nodup := by
  apply nodup_foldl_resource
  apply List.nodup_nil

namespace PipelineManager

variable {buildKey : String → UInt64 → UInt64} {pm pm' : PipelineManager}

structure Deduplicated (pm : PipelineManager) : Prop where
  queue : ∀ j ∈ pm.lm.queue, j.resources = uniqueResources j.job.commands
  workers : ∀ w ∈ pm.workers, w.resources = uniqueResources w.job.commands

/-- Everything the counters are there for. Workers hold their resources between `acquire` and `release`. -/
structure Exclusive (pm : PipelineManager) : Prop where
  le_one : ∀ r, pm.lm.state.holders r ≤ 1
  counted : ∀ r,
    pm.lm.state.holders r
      =
    pm.workers.countP fun w => w.pc.holds && decide (r ∈ uniqueResources w.job.commands)
  apart : ∀ (i j : Nat) (w w' : Worker) (r : Resource),
    i ≠ j → pm.workers[i]? = some w → pm.workers[j]? = some w' →
    w.pc = .executing → w'.pc = .executing →
    r ∈ uniqueResources w.job.commands → r ∉ uniqueResources w'.job.commands
  -- no subtraction in the loop of `release` finds a zero
  unsaturated : ∀ w ∈ pm.workers, w.pc = .releasing → ∀ front r back,
    w.resources = front ++ r :: back → 0 < (pm.lm.state.release front).holders r
  free : (∀ w ∈ pm.workers, w.pc.holds = false) → pm.lm.state = LockState.default

theorem deduplicated_new (db : DB) : (new db).Deduplicated := by
  constructor
  . simp [new, LockManager.new]
  . simp [new]

theorem Deduplicated.move (h : pm.Deduplicated) {i : Nat} {w w' : Worker}
    (hget : pm.workers[i]? = some w) (hqueue : pm'.lm.queue = pm.lm.queue)
    (hworkers : pm'.workers = pm.workers.set i w') (hjob : w'.job = w.job)
    (hresources : w'.resources = w.resources)
    : pm'.Deduplicated := by
  constructor
  . rw [hqueue]
    exact h.queue
  . rw [hworkers]
    intro v hv
    cases List.mem_or_eq_of_mem_set hv with
    | inl hmem =>
      apply h.workers
      assumption
    | inr heq =>
      rw [heq, hjob, hresources]
      apply h.workers
      apply List.mem_of_getElem? hget

theorem Deduplicated.step (h : pm.Deduplicated) {action : Action}
    (hstep : pm.step buildKey action = some pm')
    : pm'.Deduplicated := by
  cases action with
  | submit job =>
    cases submit_eq_some hstep
    exact ⟨h.queue, h.workers⟩
  | recv =>
    rcases recv_eq_some hstep with ⟨job, channel, _, _, rfl⟩
    exact ⟨h.queue, h.workers⟩
  | insert =>
    rcases insert_eq_some hstep with ⟨job, _, rfl⟩
    rcases pm.lm.insert_eq job with ⟨front, back, hqueue, hinsert⟩
    constructor
    . dsimp only
      rw [hinsert]
      intro j hj
      rw [List.mem_append, List.mem_cons] at hj
      have hold (hmem : j ∈ front ∨ j ∈ back) : j.resources = uniqueResources j.job.commands := by
        apply h.queue
        rw [hqueue, List.mem_append]
        exact hmem
      rcases hj with hfront | rfl | hback
      . exact hold (.inl hfront)
      . rfl
      . exact hold (.inr hback)
    . exact h.workers
  | notifyOne waiter =>
    rcases notifyOne_eq_some hstep with ⟨_, ⟨i, w, hget, _, rfl⟩ | rfl⟩
    . exact h.move hget rfl rfl rfl rfl
    . exact ⟨h.queue, h.workers⟩
  | tryRecv =>
    rcases tryRecv_eq_some hstep with ⟨_, ⟨job, channel, _, rfl⟩ | rfl⟩
    . exact ⟨h.queue, h.workers⟩
    . exact ⟨h.queue, h.workers⟩
  | tryPopRunnable =>
    rcases tryPopRunnable_eq_some hstep with ⟨_, ⟨_, rfl⟩ | ⟨front, j, back, hqueue, rfl⟩⟩
    . exact ⟨h.queue, h.workers⟩
    . have hold := h.queue
      simp only [hqueue, List.forall_mem_append, List.forall_mem_cons] at hold
      constructor
      . simp only [List.forall_mem_append]
        exact ⟨hold.1, hold.2.2⟩
      . simp only [List.forall_mem_append, List.forall_mem_cons]
        refine ⟨h.workers, hold.2.1, ?_⟩
        simp
  | check i =>
    rcases check_eq_some hstep with ⟨w, hget, _, ⟨_, rfl⟩ | ⟨_, rfl⟩⟩
    . exact h.move hget rfl rfl rfl rfl
    . exact h.move hget rfl rfl rfl rfl
  | notified i =>
    rcases notified_eq_some hstep with ⟨w, hget, _, rfl | rfl⟩
    . exact h.move hget rfl rfl rfl rfl
    . exact h.move hget rfl rfl rfl rfl
  | execute i envs =>
    rcases execute_eq_some hstep with ⟨w, result, pc, db, hget, _, _, rfl⟩
    exact h.move hget rfl rfl rfl rfl
  | release i =>
    rcases release_eq_some hstep with ⟨w, hget, _, rfl⟩
    exact h.move hget rfl rfl rfl rfl
  | notifyWaiters i =>
    rcases notifyWaiters_eq_some hstep with ⟨w, hget, _, rfl⟩
    have hset : (pm.setWorker i w .sending).Deduplicated := by
      exact h.move hget rfl rfl rfl rfl
    constructor
    . exact h.queue
    . intro v hv
      rcases List.mem_map.mp hv with ⟨u, hu, rfl⟩
      unfold wake
      split
      . exact hset.workers u hu
      . exact hset.workers u hu
  | send i =>
    rcases send_eq_some hstep with ⟨w, answers, hget, _, rfl⟩
    exact h.move hget rfl rfl rfl rfl

theorem Deduplicated.nodup (h : pm.Deduplicated) {w : Worker} (hw : w ∈ pm.workers)
    : w.resources.Nodup := by
  rw [h.workers w hw]
  apply nodup_uniqueResources

theorem holders_le_one_step (h : ∀ r, pm.lm.state.holders r ≤ 1) (hdedup : pm.Deduplicated)
    {action : Action} (hstep : pm.step buildKey action = some pm') (r : Resource)
    : pm'.lm.state.holders r ≤ 1 := by
  cases action with
  | submit job =>
    cases submit_eq_some hstep
    apply h
  | recv =>
    rcases recv_eq_some hstep with ⟨job, channel, _, _, rfl⟩
    apply h
  | insert =>
    rcases insert_eq_some hstep with ⟨job, _, rfl⟩
    apply h
  | notifyOne waiter =>
    rcases notifyOne_eq_some hstep with ⟨_, ⟨i, w, _, _, rfl⟩ | rfl⟩
    . apply h
    . apply h
  | tryRecv =>
    rcases tryRecv_eq_some hstep with ⟨_, ⟨job, channel, _, rfl⟩ | rfl⟩
    . apply h
    . apply h
  | tryPopRunnable =>
    rcases tryPopRunnable_eq_some hstep with ⟨_, ⟨_, rfl⟩ | ⟨front, j, back, _, rfl⟩⟩
    . apply h
    . apply h
  | check i =>
    rcases check_eq_some hstep with ⟨w, hget, _, ⟨hcan, rfl⟩ | ⟨_, rfl⟩⟩
    . -- the check was for zeros, and each of them is counted up once
      have hnodup := hdedup.nodup (List.mem_of_getElem? hget)
      have hcount := List.nodup_iff_count_le_one.mp hnodup r
      rw [LockState.canAcquire_iff] at hcan
      dsimp only
      rw [LockState.holders_acquire]
      by_cases hr : r ∈ w.resources
      . rw [hcan r hr]
        omega
      . rw [List.count_eq_zero_of_not_mem hr]
        apply h
    . apply h
  | notified i =>
    rcases notified_eq_some hstep with ⟨w, _, _, rfl | rfl⟩
    . apply h
    . apply h
  | execute i envs =>
    rcases execute_eq_some hstep with ⟨w, result, pc, db, _, _, _, rfl⟩
    apply h
  | release i =>
    rcases release_eq_some hstep with ⟨w, _, _, rfl⟩
    have := h r
    dsimp only
    rw [LockState.holders_release]
    omega
  | notifyWaiters i =>
    rcases notifyWaiters_eq_some hstep with ⟨w, _, _, rfl⟩
    apply h
  | send i =>
    rcases send_eq_some hstep with ⟨w, answers, _, _, rfl⟩
    apply h

theorem sum_held_eq_countP {workers : List Worker}
    (h : ∀ w ∈ workers, w.resources = uniqueResources w.job.commands) (r : Resource)
    : (workers.map (Worker.held r)).sum
        =
      workers.countP fun w => w.pc.holds && decide (r ∈ uniqueResources w.job.commands) := by
  induction workers with
  | nil => rfl
  | cons w workers ih =>
    have hw : w.resources = uniqueResources w.job.commands := by
      apply h
      simp
    rw [List.map_cons, List.sum_cons, List.countP_cons, ih (fun v hv => h v (by simp [hv])),
      Nat.add_comm]
    congr 1
    unfold Worker.held
    rw [hw]
    cases w.pc.holds with
    | false => simp
    | true =>
      by_cases hr : r ∈ uniqueResources w.job.commands
      . simp [hr, List.count_eq_one_of_mem (nodup_uniqueResources _) hr]
      . simp [hr, List.count_eq_zero_of_not_mem hr]

theorem Accounted.held_add_held_le (h : pm.Accounted) {i j : Nat} {w w' : Worker} (hne : i ≠ j)
    (hi : pm.workers[i]? = some w) (hj : pm.workers[j]? = some w') (r : Resource)
    : w.held r + w'.held r ≤ pm.lm.state.holders r := by
  -- without the first worker the second one is still accounted for
  let idle : Worker := ⟨w.job, w.resources, .finished, w.result⟩
  have hidle : idle.held r = 0 := by rfl
  have hsum := Pool.sum_map_set hi idle (Worker.held r)
  have hmem : w' ∈ pm.workers.set i idle := by
    apply List.mem_of_getElem? (i := j)
    rw [List.getElem?_set_ne hne]
    exact hj
  have hle : w'.held r ≤ ((pm.workers.set i idle).map (Worker.held r)).sum := by
    apply List.single_le_sum
    . simp
    . exact List.mem_map_of_mem hmem
  rw [h r]
  omega

theorem Accounted.exclusive (h : pm.Accounted) (hdedup : pm.Deduplicated)
    (hone : ∀ r, pm.lm.state.holders r ≤ 1)
    : pm.Exclusive where
  le_one := hone
  counted := by
    intro r
    rw [h r]
    exact sum_held_eq_countP hdedup.workers r
  apart := by
    intro i j w w' r hne hi hj hw hw' hr hr'
    have hsum := h.held_add_held_le hne hi hj r
    rw [Worker.held_eq_count (by rw [hw]; rfl), Worker.held_eq_count (by rw [hw']; rfl),
      hdedup.workers w (List.mem_of_getElem? hi), hdedup.workers w' (List.mem_of_getElem? hj)] at hsum
    have := List.count_pos_iff.mpr hr
    have := List.count_pos_iff.mpr hr'
    have := hone r
    omega
  unsaturated := by
    intro w hw hpc front r back hresources
    rcases List.mem_iff_getElem?.mp hw with ⟨i, hi⟩
    have hle := h.held_le hi r
    have hnodup := hdedup.nodup hw
    rw [Worker.held_eq_count (by rw [hpc]; rfl), hresources] at hle
    rw [hresources, List.nodup_append] at hnodup
    have hfront : front.count r = 0 := by
      apply List.count_eq_zero_of_not_mem
      intro hmem
      exact hnodup.2.2 r hmem r (by simp) rfl
    rw [List.count_append, List.count_cons_self] at hle
    rw [LockState.holders_release]
    omega
  free := by
    intro hidle
    have hzero (r : Resource) : pm.lm.state.holders r = 0 := by
      by_contra hne
      rcases h.exists_holds (Nat.pos_of_ne_zero hne) with ⟨w, hw, hholds⟩
      rw [hidle w hw] at hholds
      contradiction
    have hkv : pm.lm.state.kvHolders = 0 := hzero .kv
    have hlist : pm.lm.state.listHolders = 0 := hzero .list
    have hlog : pm.lm.state.logHolders = 0 := hzero .log
    rcases hstate : pm.lm.state with ⟨kv, list, log⟩
    rw [hstate] at hkv hlist hlog
    simp only at hkv hlist hlog
    rw [hkv, hlist, hlog]
    rfl

theorem exclusive_run (buildKey : String → UInt64 → UInt64) (db : DB) (actions : List Action)
    (hrun : Trace.run (step buildKey) (new db) actions = some pm)
    : pm.Exclusive := by
  let Inv (pm : PipelineManager) : Prop :=
    pm.Accounted ∧ pm.Deduplicated ∧ ∀ r, pm.lm.state.holders r ≤ 1
  have hnew : Inv (new db) := by
    refine ⟨accounted_new db, deduplicated_new db, ?_⟩
    intro r
    cases r with
    | kv => apply Nat.zero_le
    | list => apply Nat.zero_le
    | log => apply Nat.zero_le
  have hstep (s : PipelineManager) (a : Action) (s' : PipelineManager) (hs : Inv s)
      (hstep : s.step buildKey a = some s') : Inv s' :=
    ⟨hs.1.step hstep, hs.2.1.step hstep, holders_le_one_step hs.2.2 hs.2.1 hstep⟩
  have hinv : Inv pm := Trace.inv_of_run hstep hnew hrun
  exact hinv.1.exclusive hinv.2.1 hinv.2.2

-- two jobs on the same store were spawned side by side, and one of them has it
theorem exclusive_race
    : ∃ db pm,
        DB.new true none = .ok db
          ∧ Trace.run (step fun _ id => id) (new db) race = some pm
          ∧ pm.workers.map Worker.pc = [.executing, .refused]
          ∧ pm.Exclusive := by
  refine ⟨⟨_, [], none⟩, raced _, rfl, run_race _, rfl, ?_⟩
  exact exclusive_run (fun _ id => id) _ race (run_race _)

end PipelineManager
end MemStream
