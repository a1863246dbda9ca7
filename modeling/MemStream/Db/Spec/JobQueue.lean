import MemStream.Db.Impl.Pipeline
import MemStream.Lib.Machine
import MemStream.Lib.Ranked
import Mathlib.Data.List.Enum
import Mathlib.Data.List.Nodup

/-!
What the queue of `pipeline.rs` is for: of the jobs that can run at once, the one with the fewest commands
runs first, and among jobs of the same size the one that has waited the longest. `PendingJobs` has the jobs
in the order in which they came, each with its number.
-/

namespace MemStream

inductive QueueOp where
  | enqueue (job : PipelineJob)
  -- a call that finds the stores held as `state` says
  | tryPopRunnable (state : LockState)

structure PendingJobs where
  enqueued : Nat
  jobs : List (Nat × PipelineJob)
  numbered : jobs.Pairwise fun e e' => e.1 < e'.1
  bound : ∀ e ∈ jobs, e.1 < enqueued

namespace PendingJobs

def empty : PendingJobs where
  enqueued := 0
  jobs := []
  numbered := List.Pairwise.nil
  bound := by simp

def enqueue (pending : PendingJobs) (job : PipelineJob) : PendingJobs where
  enqueued := pending.enqueued + 1
  jobs := pending.jobs ++ [(pending.enqueued, job)]
  numbered := by
    rw [List.pairwise_append]
    refine ⟨pending.numbered, List.pairwise_singleton _ _, ?_⟩
    intro e he e' he'
    rw [List.mem_singleton.mp he']
    exact pending.bound e he
  bound := by
    intro e he
    cases List.mem_append.mp he with
    | inl hold => exact Nat.lt_succ_of_lt (pending.bound e hold)
    | inr hnew =>
      rw [List.mem_singleton.mp hnew]
      exact Nat.lt_succ_self _

def remove (pending : PendingJobs) (e : Nat × PipelineJob) : PendingJobs where
  enqueued := pending.enqueued
  jobs := pending.jobs.filter fun e' => e'.1 ≠ e.1
  numbered := List.Pairwise.sublist List.filter_sublist pending.numbered
  bound := by
    intro e' he'
    exact pending.bound e' (List.mem_of_mem_filter he')

def Runnable (state : LockState) (e : Nat × PipelineJob) : Prop :=
  ∀ r ∈ uniqueResources e.2.commands, state.holders r = 0

def opCount (job : PipelineJob) : Nat :=
  job.commands.length

def Next (pending : PendingJobs) (state : LockState) (e : Nat × PipelineJob) : Prop :=
  e ∈ pending.jobs
    ∧ Runnable state e
    ∧ ∀ e' ∈ pending.jobs, Runnable state e' → e' = e ∨ Ranked.Before opCount e e'

inductive Step : PendingJobs → QueueOp → Option (Nat × PipelineJob) → PendingJobs → Prop where
  | enqueue {pending : PendingJobs} {job : PipelineJob}
      : Step pending (.enqueue job) none (pending.enqueue job)
  | pop {pending : PendingJobs} {state : LockState} {e : Nat × PipelineJob}
      (hnext : pending.Next state e)
      : Step pending (.tryPopRunnable state) (some e) (pending.remove e)
  | stay {pending : PendingJobs} {state : LockState}
      (hnone : ∀ e ∈ pending.jobs, ¬Runnable state e)
      : Step pending (.tryPopRunnable state) none pending

theorem nodup_numbers (pending : PendingJobs) : (pending.jobs.map Prod.fst).Nodup := by
  apply List.Pairwise.map Prod.fst _ pending.numbered
  intro e e' hlt
  exact Nat.ne_of_lt hlt

theorem filter_number {q front back : List (Nat × PipelineJob)} {e : Nat × PipelineJob}
    (hq : q = front ++ e :: back) (hnodup : (q.map Prod.fst).Nodup)
    : q.filter (fun e' => e'.1 ≠ e.1) = front ++ back := by
  rw [hq, (List.perm_middle.map Prod.fst).nodup_iff, List.map_cons, List.nodup_cons] at hnodup
  rw [hq, List.filter_append, List.filter_cons_of_neg (by simp), ← List.filter_append,
    List.filter_eq_self]
  intro e' he'
  simp only [decide_eq_true_eq]
  intro heq
  apply hnodup.1
  rw [← heq]
  exact List.mem_map_of_mem he'

theorem perm_remove {pending : PendingJobs} {e : Nat × PipelineJob} (he : e ∈ pending.jobs)
    : (e :: (pending.remove e).jobs).Perm pending.jobs := by
  rcases List.append_of_mem he with ⟨front, back, hq⟩
  unfold remove
  dsimp only
  rw [filter_number hq pending.nodup_numbers, hq]
  exact List.perm_middle.symm

def arrivals (n : Nat) : List QueueOp → List (Nat × PipelineJob)
  | [] => []
  | .enqueue job :: ops => (n, job) :: arrivals (n + 1) ops
  | .tryPopRunnable _ :: ops => arrivals n ops

theorem runs_perm {pending pending' : PendingJobs} {history : List (QueueOp × Option (Nat × PipelineJob))}
    (h : Machine.Runs Step pending history pending')
    : (history.filterMap Prod.snd ++ pending'.jobs).Perm
        (pending.jobs ++ arrivals pending.enqueued (history.map Prod.fst)) := by
  induction h with
  | nil => simp [arrivals]
  | cons hstep _ ih =>
    cases hstep with
    | enqueue =>
      simp only [List.filterMap_cons, List.map_cons, arrivals]
      apply ih.trans
      unfold enqueue
      simp
    | pop hnext =>
      simp only [List.filterMap_cons, List.map_cons, arrivals, List.cons_append]
      apply (ih.cons _).trans
      rw [← List.cons_append]
      exact (perm_remove hnext.1).append_right _
    | stay => simpa only [List.filterMap_cons, List.map_cons, arrivals] using ih

end PendingJobs
end MemStream
