import MemStream.Db.Lemmas.Pipeline.Steps
import MemStream.Db.Spec.JobQueue
import MemStream.Lib.BinarySearch

namespace MemStream

open PendingJobs (opCount)

namespace LockManager

def step (lm : LockManager) : QueueOp → Option (PipelineJob × List Resource) × LockManager
  | .enqueue job => (none, lm.insert job)
  | .tryPopRunnable state =>
    let lm := { lm with state := state }
    match lm.tryPopRunnable with
    | none => (none, lm)
    | some (res, lm) => (some res, lm)

structure Holds (queue : List QueuedJob) (pending : PendingJobs) (q : List (Nat × PipelineJob))
    : Prop where
  queue_eq : queue = q.map fun e => queued e.2
  sorted : q.Pairwise (Ranked.Before opCount)
  perm : q.Perm pending.jobs

variable {lm : LockManager} {pending : PendingJobs} {q : List (Nat × PipelineJob)}

theorem holds_new : Holds new.queue PendingJobs.empty [] where
  queue_eq := rfl
  sorted := List.Pairwise.nil
  perm := List.Perm.nil

theorem queue_insert (hqueue : lm.queue = q.map fun e => queued e.2) (n : Nat) (job : PipelineJob)
    : (lm.insert job).queue
        =
      (q.takeWhile (fun e => opCount e.2 ≤ opCount job)
        ++ (n, job) :: q.dropWhile (fun e => opCount e.2 ≤ opCount job)).map
          fun e => queued e.2 := by
  unfold insert partitionPoint
  dsimp only
  rw [insertIdx_takeWhile, hqueue, List.takeWhile_map, List.dropWhile_map, List.map_append,
    List.map_cons]
  rfl

theorem Holds.enqueue (h : Holds lm.queue pending q) (job : PipelineJob)
    : Holds (lm.insert job).queue (pending.enqueue job)
        (q.takeWhile (fun e => opCount e.2 ≤ opCount job)
          ++ (pending.enqueued, job) :: q.dropWhile (fun e => opCount e.2 ≤ opCount job)) where
  queue_eq := queue_insert h.queue_eq pending.enqueued job
  sorted := by
    apply Ranked.pairwise_insert h.sorted
    intro e he
    exact pending.bound e (h.perm.subset he)
  perm := by
    apply List.perm_middle.trans
    rw [List.takeWhile_append_dropWhile]
    exact (h.perm.cons _).trans (List.perm_append_singleton _ _).symm

theorem Holds.remove {front back : List (Nat × PipelineJob)} {e : Nat × PipelineJob}
    (h : Holds lm.queue pending (front ++ e :: back))
    : Holds ((front ++ back).map fun e => queued e.2) (pending.remove e) (front ++ back) where
  queue_eq := rfl
  sorted := by
    apply List.Pairwise.sublist _ h.sorted
    rw [List.append_sublist_append_left]
    exact List.sublist_cons_self e back
  perm := by
    have hnodup := (h.perm.map Prod.fst).nodup_iff.mpr pending.nodup_numbers
    rw [← PendingJobs.filter_number rfl hnodup]
    exact h.perm.filter _

theorem Holds.partitionPoint_eq (h : Holds lm.queue pending q) (job : PipelineJob)
    : BinarySearch.partitionPoint (fun j => j.opCount ≤ (queued job).opCount) lm.queue
        =
      partitionPoint (fun j => j.opCount ≤ (queued job).opCount) lm.queue := by
  unfold partitionPoint
  rw [h.queue_eq, List.takeWhile_map, List.length_map]
  have hsplit : q.map (fun e => queued e.2)
      = (q.takeWhile (fun e => opCount e.2 ≤ opCount job)).map (fun e => queued e.2)
        ++ (q.dropWhile (fun e => opCount e.2 ≤ opCount job)).map fun e => queued e.2 := by
    rw [← List.map_append, List.takeWhile_append_dropWhile]
  rw [hsplit, BinarySearch.partitionPoint_append, List.length_map]
  . rfl
  . intro j hj
    rcases List.mem_map.mp hj with ⟨e, he, rfl⟩
    exact decide_eq_true (Ranked.le_of_mem_takeWhile (opCount job) e he)
  . intro j hj
    rcases List.mem_map.mp hj with ⟨e, he, rfl⟩
    apply decide_eq_false
    exact Nat.not_le_of_lt (Ranked.lt_of_mem_dropWhile h.sorted (opCount job) e he)

theorem Holds.next {front back : List (Nat × PipelineJob)} {e : Nat × PipelineJob}
    (h : Holds lm.queue pending (front ++ e :: back)) {state : LockState}
    (he : PendingJobs.Runnable state e) (hfront : ∀ e' ∈ front, ¬PendingJobs.Runnable state e')
    : pending.Next state e := by
  refine ⟨h.perm.subset (by simp), he, ?_⟩
  intro e' he'
  exact Ranked.eq_or_before_of_first h.sorted hfront e' (h.perm.symm.subset he')

theorem canAcquire_queued (state : LockState) (e : Nat × PipelineJob)
    : state.canAcquire (queued e.2).resources = true ↔ PendingJobs.Runnable state e := by
  exact LockState.canAcquire_iff state (uniqueResources e.2.commands)

def answer : Option (Nat × PipelineJob) → Option (PipelineJob × List Resource)
  | none => none
  | some e => some (e.2, uniqueResources e.2.commands)

theorem step_refines {lm : LockManager} {pending : PendingJobs} (op : QueueOp)
    (h : ∃ q, Holds lm.queue pending q)
    : ∃ res pending',
        PendingJobs.Step pending op res pending'
          ∧ answer res = (lm.step op).1
          ∧ ∃ q, Holds (lm.step op).2.queue pending' q := by
  rcases h with ⟨q, h⟩
  cases op with
  | enqueue job =>
    exact ⟨none, pending.enqueue job, PendingJobs.Step.enqueue, rfl, _, h.enqueue job⟩
  | tryPopRunnable state =>
    unfold step
    dsimp only
    split
    . next hpop =>
      refine ⟨none, pending, PendingJobs.Step.stay ?_, rfl, q, h⟩
      intro e he hrun
      have hfalse := tryPopRunnable_eq_none hpop (queued e.2) (by
        rw [h.queue_eq]
        exact List.mem_map_of_mem (h.perm.symm.subset he))
      rw [(canAcquire_queued state e).mpr hrun] at hfalse
      cases hfalse
    . next res lm' hpop =>
      rcases tryPopRunnable_eq_some hpop with ⟨front, j, back, hqueue, hcan, hfront, hjob, hres, rfl⟩
      rw [h.queue_eq] at hqueue
      rcases List.map_eq_append_iff.mp hqueue with ⟨qfront, qrest, rfl, rfl, hrest⟩
      rcases List.map_eq_cons_iff.mp hrest with ⟨e, qback, rfl, rfl, rfl⟩
      refine ⟨some e, pending.remove e, PendingJobs.Step.pop ?_, ?_, qfront ++ qback, ?_⟩
      . apply h.next ((canAcquire_queued state e).mp hcan)
        intro e' he'
        rw [← canAcquire_queued, hfront _ (List.mem_map_of_mem he')]
        simp
      . exact congrArg some (Prod.ext hjob hres)
      . rw [← List.map_append]
        exact h.remove

/-- Every run of the queue is a run of the pending jobs with the same answers, and in every state that is
reached the queue has the pending jobs in their order. -/
theorem run_shortest_first (ops : List QueueOp)
    : ∃ history pending,
        Machine.Runs PendingJobs.Step PendingJobs.empty history pending
          ∧ (Machine.run step new ops).1 = history.map (fun e => (e.1, answer e.2))
          ∧ (history.filterMap Prod.snd ++ pending.jobs).Perm (PendingJobs.arrivals 0 ops)
          ∧ (∃ q, Holds (Machine.run step new ops).2.queue pending q)
          ∧ ∀ job : PipelineJob,
              let isBefore (j : QueuedJob) : Bool := j.opCount ≤ (queued job).opCount
              BinarySearch.partitionPoint isBefore (Machine.run step new ops).2.queue
                =
              partitionPoint isBefore (Machine.run step new ops).2.queue := by
  have hsim := Machine.runs_of_sim (R := fun (lm : LockManager) pending => ∃ q, Holds lm.queue pending q)
    (fun _ _ op h => step_refines op h) ⟨[], holds_new⟩ ops
  rcases hsim with ⟨history, pending, hruns, hhist, q, h⟩
  refine ⟨history, pending, hruns, hhist, ?_, ⟨q, h⟩, h.partitionPoint_eq⟩
  have hops : history.map Prod.fst = ops := by
    rw [← Machine.run_ops step new ops, hhist, List.map_map]
    rfl
  have hperm := PendingJobs.runs_perm hruns
  rw [hops] at hperm
  exact hperm

end LockManager
end MemStream
