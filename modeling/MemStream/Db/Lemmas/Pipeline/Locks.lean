import MemStream.Db.Lemmas.Pipeline.Steps

namespace MemStream

-- a worker that has panicked never gives back what it has acquired
def WorkerPc.holds : WorkerPc → Bool
  | .executing | .releasing | .panicked => true
  | _ => false

def Worker.held (r : Resource) (w : Worker) : Nat :=
  if w.pc.holds then w.resources.count r else 0

theorem Worker.held_eq_count {w : Worker} (h : w.pc.holds = true) (r : Resource)
    : w.held r = w.resources.count r := by
  unfold held
  rw [if_pos h]

theorem Worker.held_eq_zero {w : Worker} (h : w.pc.holds = false) (r : Resource) : w.held r = 0 := by
  unfold held
  rw [h, if_neg Bool.false_ne_true]

namespace PipelineManager

variable {buildKey : String → UInt64 → UInt64} {pm pm' : PipelineManager}

def Accounted (pm : PipelineManager) : Prop :=
  ∀ r, pm.lm.state.holders r = (pm.workers.map (Worker.held r)).sum

theorem accounted_new (db : DB) : (new db).Accounted := by
  intro r
  cases r with
  | kv => rfl
  | list => rfl
  | log => rfl

theorem Accounted.held_le (h : pm.Accounted) {i : Nat} {w : Worker} (hget : pm.workers[i]? = some w)
    (r : Resource)
    : w.held r ≤ pm.lm.state.holders r := by
  have hsum := Pool.sum_map_set hget ⟨w.job, w.resources, .finished, w.result⟩ (Worker.held r)
  have hfinished : Worker.held r ⟨w.job, w.resources, .finished, w.result⟩ = 0 := rfl
  rw [h r]
  omega

theorem Accounted.exists_holds (h : pm.Accounted) {r : Resource} (hr : 0 < pm.lm.state.holders r)
    : ∃ w ∈ pm.workers, w.pc.holds = true := by
  rw [h r] at hr
  rcases Pool.exists_of_sum_pos hr with ⟨w, hw, hheld⟩
  refine ⟨w, hw, ?_⟩
  unfold Worker.held at hheld
  split at hheld
  . assumption
  . omega

theorem Accounted.move (h : pm.Accounted) {i : Nat} {w w' : Worker} (hget : pm.workers[i]? = some w)
    (hworkers : pm'.workers = pm.workers.set i w')
    (hstate : ∀ r, pm'.lm.state.holders r + w.held r = pm.lm.state.holders r + w'.held r)
    : pm'.Accounted := by
  intro r
  have hsum := Pool.sum_map_set hget w' (Worker.held r)
  have hr := hstate r
  rw [h r] at hr
  rw [hworkers]
  omega

theorem Accounted.move_same (h : pm.Accounted) {i : Nat} {w w' : Worker}
    (hget : pm.workers[i]? = some w) (hworkers : pm'.workers = pm.workers.set i w')
    (hstate : pm'.lm.state = pm.lm.state) (hresources : w'.resources = w.resources)
    (hpc : w'.pc.holds = w.pc.holds)
    : pm'.Accounted := by
  apply h.move hget hworkers
  intro r
  unfold Worker.held
  rw [hstate, hresources, hpc]

theorem held_wake (r : Resource) (w : Worker) : (wake w).held r = w.held r := by
  unfold wake
  split
  . next hpc => simp [Worker.held, hpc, WorkerPc.holds]
  . rfl

theorem Accounted.step (h : pm.Accounted) {action : Action}
    (hstep : pm.step buildKey action = some pm')
    : pm'.Accounted := by
  cases action with
  | submit job =>
    cases submit_eq_some hstep
    exact h
  | recv =>
    rcases recv_eq_some hstep with ⟨job, channel, _, _, rfl⟩
    exact h
  | insert =>
    rcases insert_eq_some hstep with ⟨job, _, rfl⟩
    exact h
  | notifyOne waiter =>
    rcases notifyOne_eq_some hstep with ⟨_, ⟨i, w, hget, hpc, rfl⟩ | rfl⟩
    . exact h.move_same hget rfl rfl rfl (by rw [hpc]; rfl)
    . exact h
  | tryRecv =>
    rcases tryRecv_eq_some hstep with ⟨_, ⟨job, channel, _, rfl⟩ | rfl⟩
    . exact h
    . exact h
  | tryPopRunnable =>
    rcases tryPopRunnable_eq_some hstep with ⟨_, ⟨_, rfl⟩ | ⟨front, j, back, _, rfl⟩⟩
    . exact h
    . intro r
      have hnew : Worker.held r ⟨j.job, j.resources, .checking, none⟩ = 0 := rfl
      simp only [List.map_append, List.map_cons, List.map_nil, List.sum_append, List.sum_singleton,
        hnew, Nat.add_zero]
      exact h r
  | check i =>
    rcases check_eq_some hstep with ⟨w, hget, hpc, ⟨_, rfl⟩ | ⟨_, rfl⟩⟩
    . apply h.move hget rfl
      intro r
      rw [Worker.held_eq_zero (by rw [hpc]; rfl), Worker.held_eq_count (by rfl)]
      exact LockState.holders_acquire _ _ r
    . exact h.move_same hget rfl rfl rfl (by rw [hpc]; rfl)
  | notified i =>
    rcases notified_eq_some hstep with ⟨w, hget, hpc, rfl | rfl⟩
    . exact h.move_same hget rfl rfl rfl (by rw [hpc]; rfl)
    . exact h.move_same hget rfl rfl rfl (by rw [hpc]; rfl)
  | execute i envs =>
    rcases execute_eq_some hstep with ⟨w, result, pc, db, hget, hpc, rfl | rfl, rfl⟩
    . exact h.move_same hget rfl rfl rfl (by rw [hpc]; rfl)
    . exact h.move_same hget rfl rfl rfl (by rw [hpc]; rfl)
  | release i =>
    rcases release_eq_some hstep with ⟨w, hget, hpc, rfl⟩
    apply h.move hget rfl
    intro r
    have hle := h.held_le hget r
    rw [Worker.held_eq_count (by rw [hpc]; rfl)] at hle ⊢
    rw [Worker.held_eq_zero (by rfl), LockState.holders_release]
    omega
  | notifyWaiters i =>
    rcases notifyWaiters_eq_some hstep with ⟨w, hget, hpc, rfl⟩
    intro r
    have hset : (pm.setWorker i w .sending).Accounted := h.move_same hget rfl rfl rfl (by rw [hpc]; rfl)
    have hmap : ((pm.setWorker i w .sending).workers.map wake).map (Worker.held r)
        = (pm.setWorker i w .sending).workers.map (Worker.held r) := by
      rw [List.map_map]
      exact List.map_congr_left fun w' _ => held_wake r w'
    dsimp only
    rw [hmap]
    exact hset r
  | send i =>
    rcases send_eq_some hstep with ⟨w, answers, hget, hpc, rfl⟩
    exact h.move_same hget rfl rfl rfl (by rw [hpc]; rfl)

end PipelineManager
end MemStream
