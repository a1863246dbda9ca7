import MemStream.Client.Lemmas.Pool.Steps

namespace MemStream
namespace ClientPool

variable {pool pool' : ClientPool}

def examined (pool : ClientPool) : Nat :=
  match pool.acquiring with
  | some (.examining ..) => 1
  | _ => 0

def capacity (pool : ClientPool) : Nat :=
  pool.slots.length + pool.handles.length + pool.examined + pool.replacing.length

def Waits (pool : ClientPool) : Prop :=
  (∃ attempts, pool.acquiring = some (.receiving attempts)) ∧ pool.slots = []

def Refillable (pool : ClientPool) : Prop :=
  pool.handles ≠ [] ∨ pool.replacing ≠ []

structure Stocked (size : Nat) (pool : ClientPool) : Prop where
  capacity : size ≤ pool.capacity
  refillable : pool.Waits → pool.Refillable

/-- A replacement fails only if there are enough other connections. -/
def Spare (pool : ClientPool) : Action → Prop
  | .reconnect _ false => pool.maxSize < pool.capacity
  | _ => True

theorem length_eraseIdx {α : Type} {as : List α} {i : Nat} {a : α} (h : as[i]? = some a)
    : (as.eraseIdx i).length + 1 = as.length := by
  have ⟨hlt, _⟩ := List.getElem?_eq_some_iff.mp h
  rw [List.length_eraseIdx_of_lt hlt]
  omega

theorem sending_le (pool : ClientPool) : pool.sending ≤ pool.replacing.length := by
  apply List.countP_le_length

theorem maxSize_of_givesUp {i : Nat} (h : pool.GivesUp i pool') : pool'.maxSize = pool.maxSize := by
  rcases h with ⟨handle, _, rfl | rfl | ⟨_, rfl⟩⟩
  . rfl
  . rfl
  . rfl

theorem maxSize_step {a : Action} (h : pool.step a = some pool') : pool'.maxSize = pool.maxSize := by
  cases a with
  | lock => rw [(lock_eq_some h).2]
  | recv =>
    rcases recv_eq_some h with ⟨attempts, client, slots, _, _, rfl⟩
    rfl
  | examine =>
    rcases examine_eq_some h with ⟨attempts, client, _, ⟨_, rfl⟩ | ⟨pc, _, rfl⟩⟩
    . rfl
    . rfl
  | connect ok =>
    rcases connect_eq_some h with ⟨_, rfl | rfl⟩
    . rfl
    . rfl
  | cancel => rw [(cancel_eq_some h).2]
  | call i a =>
    rcases call_eq_some h with ⟨handle, handle', _, _, rfl⟩
    rfl
  | respond i =>
    rcases respond_eq_some h with ⟨handle, call, _, _, _, _, rfl⟩
    rfl
  | drop i full => exact maxSize_of_givesUp (givesUp_of_drop h)
  | release i full => exact maxSize_of_givesUp (givesUp_of_release h)
  | discard i => exact maxSize_of_givesUp (givesUp_of_discard h)
  | reconnect i ok =>
    rcases reconnect_eq_some h with ⟨_, ⟨_, rfl⟩ | ⟨_, rfl⟩⟩
    . rfl
    . rfl
  | send i =>
    rcases send_eq_some h with ⟨client, _, rfl⟩
    rfl
  | serve place a =>
    rcases serve_eq_some h with ⟨i, c, rfl⟩ | ⟨i, handle, c, _, _, rfl⟩ | ⟨attempts, c, c', _, rfl⟩
      | ⟨i, c, rfl⟩
    . rfl
    . rfl
    . rfl
    . rfl

theorem maxSize_run {size : Nat} {actions : List Action}
    (h : Trace.run step (new size) actions = some pool)
    : pool.maxSize = size := by
  have hstep (p : ClientPool) (a : Action) (p' : ClientPool) (hp : p.maxSize = size)
      (hp' : p.step a = some p')
      : p'.maxSize = size := by
    rw [maxSize_step hp', hp]
  exact Trace.inv_of_run hstep rfl h

theorem capacity_of_givesUp {i : Nat} (h : pool.GivesUp i pool')
    (hcapacity : pool.maxSize ≤ pool.capacity)
    : pool.maxSize ≤ pool'.capacity := by
  rcases h with ⟨handle, hget, hcases⟩
  have herase := length_eraseIdx hget
  have hsending := pool.sending_le
  unfold capacity at hcapacity ⊢
  rcases hcases with rfl | rfl | ⟨hfull, rfl⟩
  . simp only [examined, List.length_append, List.length_singleton] at hcapacity ⊢
    omega
  . simp only [examined, List.length_append, List.length_singleton] at hcapacity ⊢
    omega
  . simp only
    omega

theorem capacity_step {a : Action} (hstep : pool.step a = some pool')
    (hcapacity : pool.maxSize ≤ pool.capacity)
    : pool.Spare a ↔ pool.maxSize ≤ pool'.capacity := by
  cases a with
  | lock =>
    rcases lock_eq_some hstep with ⟨hacquiring, rfl⟩
    simp only [capacity, examined, hacquiring] at hcapacity
    simpa [Spare, capacity, examined] using hcapacity
  | recv =>
    rcases recv_eq_some hstep with ⟨attempts, client, slots, hacquiring, hslots, rfl⟩
    simp only [capacity, examined, hacquiring, hslots, List.length_cons] at hcapacity
    simp only [Spare, capacity, examined, true_iff]
    omega
  | examine =>
    rcases examine_eq_some hstep with ⟨attempts, client, hacquiring, ⟨_, rfl⟩ | ⟨pc, hpc, rfl⟩⟩
    . simp only [capacity, examined, hacquiring] at hcapacity
      simp only [Spare, capacity, examined, handOut, List.length_append, List.length_singleton,
        true_iff]
      omega
    . simp only [capacity, examined, hacquiring] at hcapacity
      rcases hpc with rfl | rfl
      . simp only [Spare, capacity, examined, spawnReplacement, List.length_append,
          List.length_singleton, true_iff]
        omega
      . simp only [Spare, capacity, examined, spawnReplacement, List.length_append,
          List.length_singleton, true_iff]
        omega
  | connect ok =>
    rcases connect_eq_some hstep with ⟨hacquiring, rfl | rfl⟩
    . simp only [capacity, examined, hacquiring] at hcapacity
      simp only [Spare, capacity, examined, handOut, List.length_append, List.length_singleton,
        true_iff]
      omega
    . simp only [capacity, examined, hacquiring] at hcapacity
      simpa [Spare, capacity, examined] using hcapacity
  | cancel =>
    rcases cancel_eq_some hstep with ⟨⟨attempts, hacquiring⟩ | hacquiring, rfl⟩
    . simp only [capacity, examined, hacquiring] at hcapacity
      simpa [Spare, capacity, examined] using hcapacity
    . simp only [capacity, examined, hacquiring] at hcapacity
      simpa [Spare, capacity, examined] using hcapacity
  | call i a =>
    rcases call_eq_some hstep with ⟨handle, handle', _, _, rfl⟩
    simpa [Spare, capacity, examined] using hcapacity
  | respond i =>
    rcases respond_eq_some hstep with ⟨handle, call, _, _, _, _, rfl⟩
    simpa [Spare, capacity, examined] using hcapacity
  | drop i full =>
    have hcapacity' := capacity_of_givesUp (givesUp_of_drop hstep) hcapacity
    simpa [Spare] using hcapacity'
  | release i full =>
    have hcapacity' := capacity_of_givesUp (givesUp_of_release hstep) hcapacity
    simpa [Spare] using hcapacity'
  | discard i =>
    have hcapacity' := capacity_of_givesUp (givesUp_of_discard hstep) hcapacity
    simpa [Spare] using hcapacity'
  | reconnect i ok =>
    rcases reconnect_eq_some hstep with ⟨hget, ⟨rfl, rfl⟩ | ⟨rfl, rfl⟩⟩
    . simpa [Spare, capacity, examined] using hcapacity
    . have herase := length_eraseIdx hget
      simp only [Spare, capacity, examined] at hcapacity ⊢
      omega
  | send i =>
    rcases send_eq_some hstep with ⟨client, hget, rfl⟩
    have herase := length_eraseIdx hget
    simp only [Spare, capacity, examined, List.length_append, List.length_singleton,
      true_iff] at hcapacity ⊢
    omega
  | serve place a =>
    rcases serve_eq_some hstep with ⟨i, c, rfl⟩ | ⟨i, handle, c, _, _, rfl⟩
      | ⟨attempts, c, c', hacquiring, rfl⟩ | ⟨i, c, rfl⟩
    . simpa [Spare, capacity, examined] using hcapacity
    . simpa [Spare, capacity, examined] using hcapacity
    . simp only [capacity, examined, hacquiring] at hcapacity
      simpa [Spare, capacity, examined] using hcapacity
    . simpa [Spare, capacity, examined] using hcapacity

theorem stocked_of_capacity {size : Nat} (hsize : 1 ≤ size) (h : size ≤ pool.capacity)
    : Stocked size pool := by
  refine ⟨h, ?_⟩
  rintro ⟨⟨attempts, hacquiring⟩, hslots⟩
  unfold capacity examined at h
  rw [hacquiring, hslots] at h
  unfold Refillable
  rw [← List.length_pos_iff, ← List.length_pos_iff]
  simp only [List.length_nil] at h
  omega

theorem capacity_new (size : Nat) : (new size).capacity = size := by
  simp [new, capacity, examined]

theorem stocked_iff_spare {size : Nat} (hsize : 1 ≤ size) {actions : List Action}
    (hrun : Trace.run step (new size) actions = some pool)
    : (∀ front p, front <+: actions → Trace.run step (new size) front = some p → Stocked size p)
        ↔
      Trace.Along step Spare (new size) actions := by
  let Inv (p : ClientPool) : Prop := p.maxSize = size ∧ size ≤ p.capacity
  have hnew : Inv (new size) := by
    refine ⟨rfl, ?_⟩
    rw [capacity_new]
  have hstep (p : ClientPool) (a : Action) (p' : ClientPool) (hinv : Inv p)
      (hp' : p.step a = some p')
      : p.Spare a ↔ Inv p' := by
    rcases hinv with ⟨hmax, hcapacity⟩
    subst hmax
    rw [capacity_step hp' hcapacity]
    exact ⟨fun h => ⟨maxSize_step hp', h⟩, fun h => h.2⟩
  rw [Trace.along_iff_inv hstep hnew hrun]
  constructor
  . intro h front p hpre hp
    exact ⟨maxSize_run hp, (h front p hpre hp).capacity⟩
  . intro h front p hpre hp
    exact stocked_of_capacity hsize (h front p hpre hp).2

-- A pool of one connection. The server closes it and the one that replaces it; the third one, which
-- `acquire` makes itself, is more than the pool had, so that a replacement may fail now.
def closings : List Action :=
  [.serve (.slot 0) .close, .lock, .recv, .examine, .reconnect 0 true, .send 0,
    .serve (.slot 0) .close, .recv, .examine, .connect true]

theorem stocked_with_spare
    : ∃ pool,
        Trace.run step (new 1) (closings ++ [.reconnect 0 false]) = some pool
          ∧ ∀ front p, front <+: closings ++ [.reconnect 0 false] →
              Trace.run step (new 1) front = some p → Stocked 1 p := by
  refine ⟨_, rfl, ?_⟩
  refine (stocked_iff_spare (Nat.le_refl 1) rfl).mpr (Trace.along_append ?_ rfl ?_)
  . apply Trace.along_of_mem
    simp [closings, Spare]
  . exact Trace.along_cons rfl (show 1 < 2 by decide) trivial

theorem not_stocked_after_failure
    : ∃ pool,
        Trace.run step (new 1) [.serve (.slot 0) .close, .lock, .recv, .examine, .reconnect 0 false]
            = some pool
          ∧ pool.capacity = 0
          ∧ pool.Waits
          ∧ ¬pool.Refillable := by
  refine ⟨_, rfl, rfl, ⟨⟨1, rfl⟩, rfl⟩, ?_⟩
  rintro (hhandles | hreplacing)
  . exact hhandles rfl
  . exact hreplacing rfl

end ClientPool
end MemStream
