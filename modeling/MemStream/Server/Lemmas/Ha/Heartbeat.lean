import MemStream.Lib.Assoc
import MemStream.Server.Impl.Heartbeat
import MemStream.Server.Lemmas.Ha.Steps

namespace MemStream
namespace HeartbeatTask

variable {task : HeartbeatTask} {ok : String → Bool} {addr other : String}

theorem count_miss_of_ne (h : addr ≠ other) : (task.miss other).count addr = task.count addr := by
  unfold miss
  split
  . unfold count
    dsimp only
    rw [Assoc.lookup_erase, if_neg h]
  . unfold count
    dsimp only
    rw [Assoc.lookup_insert, if_neg h]

theorem mem_miss_of_ne (h : addr ≠ other)
    : addr ∈ (task.miss other).followers ↔ addr ∈ task.followers := by
  unfold miss
  split
  . simp [h]
  . rfl

theorem not_mem_miss (h : 3 ≤ task.count addr) : addr ∉ (task.miss addr).followers := by
  unfold miss
  rw [if_pos h]
  simp

theorem count_miss (h : ¬3 ≤ task.count addr)
    : ((task.miss addr).count addr).toNat = (task.count addr).toNat + 1 := by
  have hlt : (task.count addr).toNat < 3 := by
    simpa [UInt8.le_iff_toNat_le] using h
  have hcount : (task.miss addr).count addr = task.count addr + 1 := by
    unfold miss
    rw [if_neg h]
    show ((task.followerTimeout.insert addr (task.count addr + 1)).lookup addr).getD 0 = _
    rw [Assoc.lookup_insert, if_pos rfl]
    rfl
  rw [hcount, UInt8.toNat_add, UInt8.toNat_one]
  omega

theorem running_miss (task : HeartbeatTask) (addr : String)
    : (task.miss addr).running = task.running := by
  unfold miss
  split
  . rfl
  . rfl

theorem followers_heartbeatEach (ok : String → Bool) (followers : List String) (task : HeartbeatTask)
    : ∃ removed : List String,
        (∀ addr ∈ removed, ok addr = false)
          ∧ (heartbeatEach ok followers task).followers = task.followers.filter (· ∉ removed) := by
  induction followers generalizing task with
  | nil => exact ⟨[], by simp, by simp [heartbeatEach]⟩
  | cons other followers ih =>
    unfold heartbeatEach
    split
    . exact ⟨[], by simp, by simp⟩
    . next hfails =>
      rcases ih (task.miss other) with ⟨removed, hremoved, hfollowers⟩
      rw [Bool.not_eq_true] at hfails
      rw [hfollowers]
      unfold miss
      split
      . refine ⟨other :: removed, ?_, ?_⟩
        . intro addr haddr
          rcases List.mem_cons.mp haddr with rfl | hmem
          . exact hfails
          . exact hremoved addr hmem
        . dsimp only
          rw [List.filter_filter]
          apply List.filter_congr
          intro addr _
          simp [Bool.and_comm]
      . exact ⟨removed, hremoved, rfl⟩

theorem running_heartbeatEach (ok : String → Bool) (followers : List String) (task : HeartbeatTask)
    : (heartbeatEach ok followers task).running = true
        ↔
      task.running = true ∧ ∀ addr ∈ followers, ok addr = false := by
  induction followers generalizing task with
  | nil => simp [heartbeatEach]
  | cons other followers ih =>
    unfold heartbeatEach
    split
    . next hok => simp [hok]
    . next hfails => simp [ih, running_miss, hfails]

theorem count_heartbeatEach {followers : List String} (hfails : ∀ other ∈ followers, ok other = false)
    (hmem : addr ∈ (heartbeatEach ok followers task).followers)
    : (task.count addr).toNat + followers.count addr
        ≤ ((heartbeatEach ok followers task).count addr).toNat := by
  induction followers generalizing task with
  | nil => exact Nat.le_refl _
  | cons other followers ih =>
    unfold heartbeatEach at hmem ⊢
    rw [if_neg (by simp [hfails other (by simp)])] at hmem ⊢
    have hrest := ih (fun other' hother' => hfails other' (by simp [hother'])) hmem
    by_cases heq : addr = other
    . subst heq
      have hsmall : ¬3 ≤ task.count addr := by
        intro hlarge
        rcases followers_heartbeatEach ok followers (task.miss addr) with ⟨removed, _, hfollowers⟩
        rw [hfollowers] at hmem
        exact not_mem_miss hlarge (List.mem_filter.mp hmem).1
      rw [count_miss hsmall] at hrest
      rw [List.count_cons_self]
      omega
    . rw [count_miss_of_ne heq] at hrest
      rw [List.count_cons_of_ne (Ne.symm heq)]
      exact hrest

theorem not_mem_heartbeatEach {followers : List String} (hmem : addr ∈ followers)
    (hcount : 3 ≤ task.count addr) (hfront : ∀ other ∈ followers.takeWhile (· ≠ addr), ok other = false)
    (haddr : ok addr = false)
    : addr ∉ (heartbeatEach ok followers task).followers := by
  induction followers generalizing task with
  | nil => cases hmem
  | cons other followers ih =>
    unfold heartbeatEach
    by_cases heq : other = addr
    . subst heq
      rw [if_neg (by simp [haddr])]
      rcases followers_heartbeatEach ok followers (task.miss other) with ⟨removed, _, hfollowers⟩
      rw [hfollowers]
      intro h
      exact not_mem_miss hcount (List.mem_filter.mp h).1
    . rw [List.takeWhile_cons_of_pos (by simp [heq])] at hfront
      rw [if_neg (by simp [hfront other (by simp)])]
      apply ih
      . exact (List.mem_cons.mp hmem).resolve_left (Ne.symm heq)
      . rw [count_miss_of_ne (Ne.symm heq)]
        exact hcount
      . intro other' hother'
        exact hfront other' (List.mem_cons_of_mem other hother')

theorem mem_heartbeatEach_of_answer {followers : List String}
    (hanswer : ∃ other ∈ followers.takeWhile (· ≠ addr), ok other = true)
    : addr ∈ (heartbeatEach ok followers task).followers ↔ addr ∈ task.followers := by
  induction followers generalizing task with
  | nil => simp at hanswer
  | cons other followers ih =>
    unfold heartbeatEach
    split
    . rfl
    . next hfails =>
      have hne : other ≠ addr := by
        rintro rfl
        simp at hanswer
      rw [List.takeWhile_cons_of_pos (by simp [hne])] at hanswer
      rw [ih, mem_miss_of_ne (Ne.symm hne)]
      rcases hanswer with ⟨other', hother', hok⟩
      rcases List.mem_cons.mp hother' with rfl | hrest
      . exact absurd hok hfails
      . exact ⟨other', hrest, hok⟩

theorem round_eq (h : task.running = true) (ok : String → Bool)
    : task.round ok = heartbeatEach ok task.followers task := by
  unfold round
  rw [if_pos h]
  split
  . next hempty =>
    rw [List.isEmpty_iff.mp hempty]
    rfl
  . rfl

theorem round_of_not_running (h : task.running = false) (ok : String → Bool) : task.round ok = task := by
  unfold round
  rw [h]
  rfl

theorem followers_round (task : HeartbeatTask) (ok : String → Bool)
    : ∃ removed : List String,
        (∀ addr ∈ removed, ok addr = false)
          ∧ (task.round ok).followers = task.followers.filter (· ∉ removed) := by
  cases h : task.running with
  | true =>
    rw [round_eq h]
    apply followers_heartbeatEach
  | false =>
    rw [round_of_not_running h]
    exact ⟨[], by simp, by simp⟩

theorem running_round (h : task.running = true) (ok : String → Bool)
    : (task.round ok).running = true ↔ ∀ addr ∈ task.followers, ok addr = false := by
  rw [round_eq h, running_heartbeatEach]
  simp [h]

theorem run_remove (buildKey : String → UInt64 → UInt64) (s : Leader) (removed : List String)
    : Trace.run (Leader.step buildKey) s (removed.map .remove)
        =
      some { s with ha := { s.ha with followers := s.ha.followers.filter (· ∉ removed) } } := by
  induction removed generalizing s with
  | nil => simp [Trace.run]
  | cons addr removed ih =>
    rw [List.map_cons, Trace.run_cons_eq_some]
    refine ⟨s.remove addr, rfl, ?_⟩
    rw [ih]
    unfold Leader.remove HaManager.remove
    dsimp only
    rw [List.filter_filter]
    congr 3
    apply List.filter_congr
    intro other _
    simp [Bool.and_comm]

theorem round_refines (buildKey : String → UInt64 → UInt64) {s : Leader}
    (h : s.ha.followers = task.followers) (ok : String → Bool)
    : ∃ removed : List String,
        Trace.run (Leader.step buildKey) s (removed.map .remove)
          =
        some { s with ha := { s.ha with followers := (task.round ok).followers } } := by
  rcases followers_round task ok with ⟨removed, _, hfollowers⟩
  refine ⟨removed, ?_⟩
  rw [run_remove, h, hfollowers]

theorem after_append (task : HeartbeatTask) (events events' : List Event)
    : task.after (events ++ events') = (task.after events).after events' := by
  unfold after
  rw [List.foldl_append]

theorem after_cons (task : HeartbeatTask) (event : Event) (events : List Event)
    : task.after (event :: events) = (task.step event).after events := by
  rfl

def Silent : HeartbeatTask → List Event → Prop
  | _, [] => True
  | task, event :: events =>
    (∀ ok, event = .round ok → ∀ addr ∈ task.followers, ok addr = false)
      ∧ Silent (task.step event) events

theorem running_step (h : task.running = true) (event : Event)
    : (task.step event).running = true
        ↔
      ∀ ok, event = .round ok → ∀ addr ∈ task.followers, ok addr = false := by
  cases event with
  | round ok =>
    rw [step, running_round h]
    simp
  | register addr => simp [step, register, h]

theorem running_after_of_not_running (h : task.running = false) (events : List Event)
    : (task.after events).running = false := by
  induction events generalizing task with
  | nil => exact h
  | cons event events ih =>
    rw [after_cons]
    apply ih
    cases event with
    | round ok =>
      rw [step, round_of_not_running h]
      exact h
    | register addr => exact h

theorem running_of_running_after (events : List Event) (h : (task.after events).running = true)
    : task.running = true := by
  apply Classical.byContradiction
  intro hstopped
  rw [Bool.not_eq_true] at hstopped
  rw [running_after_of_not_running hstopped] at h
  cases h

theorem running_after (h : task.running = true) (events : List Event)
    : (task.after events).running = true ↔ Silent task events := by
  induction events generalizing task with
  | nil => simp [after, Silent, h]
  | cons event events ih =>
    rw [after_cons]
    unfold Silent
    rw [← running_step h event]
    cases hstep : (task.step event).running with
    | true => simp [ih hstep]
    | false => simp [running_after_of_not_running hstep]

def Event.isRound : Event → Bool
  | .round _ => true
  | .register _ => false

def Event.Misses (addr : String) : Event → Prop
  | .round ok => ok addr = false
  | .register addr' => addr' ≠ addr

def Event.Answers (addr : String) : Event → Prop
  | .round ok => ok addr = true
  | .register _ => True

theorem mem_step_of_misses {event : Event} (h : event.Misses addr)
    (hmem : addr ∈ (task.step event).followers)
    : addr ∈ task.followers := by
  cases event with
  | round ok =>
    rcases followers_round task ok with ⟨removed, _, hfollowers⟩
    rw [step, hfollowers] at hmem
    exact (List.mem_filter.mp hmem).1
  | register addr' =>
    rcases List.mem_append.mp hmem with hold | hnew
    . exact hold
    . exact absurd (List.mem_singleton.mp hnew).symm h

theorem mem_of_mem_after {events : List Event} (h : ∀ event ∈ events, event.Misses addr)
    (hmem : addr ∈ (task.after events).followers)
    : addr ∈ task.followers := by
  induction events generalizing task with
  | nil => exact hmem
  | cons event events ih =>
    rw [after_cons] at hmem
    apply mem_step_of_misses (h event (by simp))
    exact ih (fun event' hevent' => h event' (by simp [hevent'])) hmem

theorem mem_step_of_answers {event : Event} (h : event.Answers addr) (hmem : addr ∈ task.followers)
    : addr ∈ (task.step event).followers := by
  cases event with
  | round ok =>
    rcases followers_round task ok with ⟨removed, hremoved, hfollowers⟩
    rw [step, hfollowers, List.mem_filter, decide_eq_true_eq]
    refine ⟨hmem, ?_⟩
    intro hgone
    have hok : ok addr = true := h
    rw [hremoved addr hgone] at hok
    cases hok
  | register addr' => exact List.mem_append_left _ hmem

theorem mem_after_of_answers {events : List Event} (h : ∀ event ∈ events, event.Answers addr)
    (hmem : addr ∈ task.followers)
    : addr ∈ (task.after events).followers := by
  induction events generalizing task with
  | nil => exact hmem
  | cons event events ih =>
    rw [after_cons]
    apply ih (fun event' hevent' => h event' (by simp [hevent']))
    exact mem_step_of_answers (h event (by simp)) hmem

theorem count_step {event : Event} (hmisses : event.Misses addr)
    (hrunning : (task.step event).running = true) (hmem : addr ∈ (task.step event).followers)
    : (task.count addr).toNat + (if event.isRound then 1 else 0)
        ≤ ((task.step event).count addr).toNat := by
  have hold := mem_step_of_misses hmisses hmem
  cases event with
  | round ok =>
    have hbefore : task.running = true := running_of_running_after [.round ok] hrunning
    rw [step, running_round hbefore] at hrunning
    rw [step, round_eq hbefore] at hmem ⊢
    have hcount := count_heartbeatEach hrunning hmem
    have hpos := List.count_pos_iff.mpr hold
    simp only [Event.isRound, if_true]
    omega
  | register addr' => exact Nat.le_refl _

theorem count_after {events : List Event} (hmisses : ∀ event ∈ events, event.Misses addr)
    (hrunning : (task.after events).running = true) (hmem : addr ∈ (task.after events).followers)
    : (task.count addr).toNat + events.countP Event.isRound
        ≤ ((task.after events).count addr).toNat := by
  induction events generalizing task with
  | nil => exact Nat.le_refl _
  | cons event events ih =>
    have hrest : ∀ event' ∈ events, event'.Misses addr :=
      fun event' hevent' => hmisses event' (by simp [hevent'])
    rw [after_cons] at hrunning hmem ⊢
    have hnext : (task.step event).running = true := running_of_running_after events hrunning
    have hfirst := count_step (hmisses event (by simp)) hnext (mem_of_mem_after hrest hmem)
    have hlast := ih hrest hrunning hmem
    rw [List.countP_cons]
    omega

/-
The fourth round in a row in which a follower does not answer.
-/

structure FourthMiss (task : HeartbeatTask) (events front mid : List Event) (ok : String → Bool)
    (addr : String)
    : Prop where
  part : front ++ mid ++ [.round ok] <+: events
  registered : addr ∈ (task.after front).followers
  rounds : mid.countP Event.isRound = 3
  misses : ∀ event ∈ mid, event.Misses addr
  last : ok addr = false

/-- The heartbeat of the fourth round is sent: nobody has answered in an earlier round, and in this one
nobody in front of the follower. -/
def Reached (task : HeartbeatTask) (events : List Event) (ok : String → Bool) (addr : String) : Prop :=
  Silent task events
    ∧ ∀ other ∈ (task.after events).followers.takeWhile (· ≠ addr), ok other = false

/-- Who does not answer is removed with the fourth round, and who does is not. -/
structure Detects (task : HeartbeatTask) (events : List Event) : Prop where
  dead : ∀ front mid ok addr,
    FourthMiss task events front mid ok addr
      → addr ∉ (task.after (front ++ mid ++ [.round ok])).followers
  alive : ∀ front mid addr,
    front ++ mid <+: events
      → addr ∈ (task.after front).followers
      → (∀ event ∈ mid, event.Answers addr)
      → addr ∈ (task.after (front ++ mid)).followers

theorem not_mem_round_iff {events mid front : List Event} (hrunning : task.running = true)
    (h : FourthMiss task events front mid ok addr)
    (hmem : addr ∈ (task.after (front ++ mid)).followers)
    : addr ∉ (task.after (front ++ mid ++ [.round ok])).followers
        ↔
      Reached task (front ++ mid) ok addr := by
  have hlast : task.after (front ++ mid ++ [.round ok]) = (task.after (front ++ mid)).round ok := by
    rw [after_append]
    rfl
  unfold Reached
  rw [hlast, ← running_after hrunning]
  cases hstill : (task.after (front ++ mid)).running with
  | false =>
    rw [round_of_not_running hstill]
    simp [hmem]
  | true =>
    rw [round_eq hstill]
    simp only [true_and]
    constructor
    . intro hgone other hother
      apply Classical.byContradiction
      intro hok
      rw [Bool.not_eq_false] at hok
      exact hgone ((mem_heartbeatEach_of_answer ⟨other, hother, hok⟩).mpr hmem)
    . intro hfront
      have hcount : 3 ≤ ((task.after (front ++ mid)).count addr).toNat := by
        rw [after_append] at hstill hmem ⊢
        have hle := count_after h.misses hstill hmem
        rw [h.rounds] at hle
        omega
      exact not_mem_heartbeatEach hmem (UInt8.le_iff_toNat_le.mpr hcount) hfront h.last

theorem detects_iff (followers : List String) (events : List Event)
    : Detects (new followers) events
        ↔
      ∀ front mid ok addr,
        FourthMiss (new followers) events front mid ok addr
          → addr ∈ ((new followers).after (front ++ mid)).followers
          → Reached (new followers) (front ++ mid) ok addr := by
  constructor
  . intro h front mid ok addr hmiss hmem
    exact (not_mem_round_iff rfl hmiss hmem).mp (h.dead front mid ok addr hmiss)
  . intro h
    constructor
    . intro front mid ok addr hmiss hlisted
      have hmem : addr ∈ ((new followers).after (front ++ mid)).followers := by
        rw [after_append] at hlisted
        apply mem_of_mem_after _ hlisted
        simpa [Event.Misses] using hmiss.last
      exact (not_mem_round_iff rfl hmiss hmem).mpr (h front mid ok addr hmiss hmem) hlisted
    . intro front mid addr _ hmem hanswers
      rw [after_append]
      exact mem_after_of_answers hanswers hmem

-- "a" answers, and "b" is not sent a heartbeat in any of the four rounds
theorem dead_follower_stays
    : let event : Event := .round fun addr => addr = "a"
      let events := [event, event, event, event]
      ((new ["a", "b"]).after events).followers = ["a", "b"]
        ∧ ¬Detects (new ["a", "b"]) events := by
  intro event events
  refine ⟨by decide, ?_⟩
  intro h
  refine h.dead [] [event, event, event] _ "b" ⟨List.prefix_refl _, ?_, ?_, ?_, ?_⟩ ?_
  . decide
  . rfl
  . simp [event, Event.Misses]
  . decide
  . decide

end HeartbeatTask
end MemStream
