import MemStream.Server.Lemmas.Ha.Flush
import MemStream.Server.Lemmas.Ha.Once

namespace MemStream
namespace HaManager

variable {ε : Type}

theorem syncAll_prefix (sync : Nat → Except String Unit) (events : List ε) (i : Nat)
    (followers : List String)
    : (syncAll sync events i followers).2.map (fun sent => sent.2.1) <+: followers := by
  induction followers generalizing i with
  | nil => exact List.prefix_refl []
  | cons follower followers ih =>
    unfold syncAll
    cases sync i with
    | error e => exact List.nil_prefix
    | ok val => exact List.cons_prefix_cons.mpr ⟨rfl, ih (i + 1)⟩

theorem start_prefix (ha : HaManager ε) (recv : Recv ε) (sync : Nat → Except String Unit)
    : (ha.start recv sync).2.2.map (fun sent => sent.2.1) <+: ha.followers := by
  by_cases hflushes : ha.Flushes recv
  . cases recv with
    | entry e =>
      rw [start_of_flushes hflushes]
      apply syncAll_prefix
    | disconnected => cases hflushes
    | closed => cases hflushes
  . rw [start_of_not_flushes hflushes]
    exact List.nil_prefix

end HaManager

namespace Leader

variable {buildKey : String → UInt64 → UInt64} {s s' : Leader}

/-- No follower is in the list twice, and nobody is sent the events of one flush twice. -/
structure Distinct (s : Leader) : Prop where
  followers : s.ha.followers.Nodup
  flushing : ∀ events followers, s.pc = .flushing events followers → followers.Nodup
  sent : ∀ recv sync, ((s.ha.start recv sync).2.2.map fun sent => sent.2.1).Nodup

theorem Distinct.of_nodup (hfollowers : s.ha.followers.Nodup)
    (hflushing : ∀ events followers, s.pc = .flushing events followers → followers.Nodup)
    : Distinct s where
  followers := hfollowers
  flushing := hflushing
  sent := by
    intro recv sync
    exact hfollowers.sublist (s.ha.start_prefix recv sync).sublist

theorem Distinct.move (h : Distinct s) (hfollowers : s'.ha.followers = s.ha.followers)
    (hpc : ∀ events followers, s'.pc = .flushing events followers → followers.Nodup)
    : Distinct s' := by
  apply Distinct.of_nodup
  . rw [hfollowers]
    exact h.followers
  . exact hpc

def Joins (s : Leader) : Action → Prop
  | .heartbeat true => ∀ addr, s.pc = .heartbeating addr → addr ∉ s.ha.followers
  | _ => True

theorem distinct_heartbeat_iff (h : Distinct s) {ok : Bool} (hstep : s.heartbeat ok = some s')
    : s.Joins (.heartbeat ok) ↔ Distinct s' := by
  unfold heartbeat at hstep
  split at hstep
  . next addr hpc =>
    cases hstep
    constructor
    . intro hjoins
      apply Distinct.of_nodup
      . show (s.ha.followers ++ [addr]).Nodup
        rw [List.nodup_append_comm, List.singleton_append, List.nodup_cons]
        exact ⟨hjoins addr hpc, h.followers⟩
      . simp
    . intro hdistinct addr' hpc'
      cases hpc.symm.trans hpc'
      have hnodup : (s.ha.followers ++ [addr]).Nodup := hdistinct.followers
      rw [List.nodup_append_comm, List.singleton_append, List.nodup_cons] at hnodup
      exact hnodup.1
  . cases hstep
    constructor
    . intro _
      exact h.move rfl (by simp)
    . intro _
      trivial
  . simp at hstep

theorem Distinct.step (h : Distinct s) {a : Action} (ha : ∀ ok, a ≠ .heartbeat ok)
    (hstep : s.step buildKey a = some s')
    : Distinct s' := by
  cases a with
  | call op env =>
    cases hstep
    exact h.move rfl h.flushing
  | writeLine ok =>
    rcases writeLine_eq_some hstep with ⟨e, queue, _, rfl | rfl⟩
    . exact h.move rfl h.flushing
    . exact h.move rfl h.flushing
  | start =>
    rcases start_eq_some hstep with ⟨_, rfl⟩
    exact h.move rfl (by simp)
  | receive =>
    rcases receive_eq_some hstep with ⟨e, rx, _, _, ⟨_, rfl⟩ | ⟨_, rfl⟩⟩
    . refine h.move rfl ?_
      -- the flush has a copy of the list
      intro events followers hpc
      cases hpc
      exact h.followers
    . exact h.move rfl (by simp)
  | sync delivered ok =>
    rcases sync_eq_some hstep with ⟨events, follower, followers, hpc, rfl⟩
    refine h.move rfl ?_
    intro events' followers' hpc'
    cases ok with
    | true =>
      cases hpc'
      exact (List.nodup_cons.mp (h.flushing events _ hpc)).2
    | false => cases hpc'
  | finish =>
    rcases finish_eq_some hstep with ⟨events, _, rfl⟩
    exact h.move rfl (by simp)
  | register addr =>
    rcases register_eq_some hstep with ⟨_, rfl⟩
    exact h.move rfl (by simp)
  | heartbeat ok => exact absurd rfl (ha ok)
  | copy ok =>
    rcases copy_eq_some hstep with ⟨addr, _, ⟨_, rfl⟩ | rfl⟩
    . exact h.move rfl (by simp)
    . exact h.move rfl (by simp)
  | syncCopy delivered =>
    rcases syncCopy_eq_some hstep with ⟨addr, copy, _, rfl⟩
    exact h.move rfl (by simp)
  | remove addr =>
    cases hstep
    apply Distinct.of_nodup
    . exact h.followers.filter _
    . exact h.flushing

theorem joins_iff_distinct (s : Leader) (a : Action) (s' : Leader) (h : Distinct s)
    (hstep : s.step buildKey a = some s')
    : s.Joins a ↔ Distinct s' := by
  cases a with
  | heartbeat ok => exact distinct_heartbeat_iff h hstep
  | _ =>
    constructor
    . intro _
      exact h.step (by simp) hstep
    . intro _
      trivial

theorem distinct_new (db : DB) (eventBufferSize : Option Nat) (old : List AofEntry)
    : Distinct (new db eventBufferSize old) := by
  apply Distinct.of_nodup
  . exact List.nodup_nil
  . simp [new]

theorem distinct_iff_joins (buildKey : String → UInt64 → UInt64) (db : DB)
    (eventBufferSize : Option Nat) (old : List AofEntry) {actions : List Action}
    (hrun : Trace.run (step buildKey) (new db eventBufferSize old) actions = some s)
    : (∀ front t,
          front <+: actions
            → Trace.run (step buildKey) (new db eventBufferSize old) front = some t
            → Distinct t)
        ↔
      Trace.Along (step buildKey) Joins (new db eventBufferSize old) actions := by
  exact (Trace.along_iff_inv joins_iff_distinct (distinct_new db eventBufferSize old) hrun).symm

-- an address that was removed comes back
theorem distinct_registered_again
    : ∃ s,
        Trace.run (step fun _ id => id) eager
            [.register "f", .heartbeat true, .copy true, .remove "f", .register "f", .heartbeat true]
            = some s
          ∧ s.ha.followers = ["f"]
          ∧ Distinct s := by
  have hmap : (Trace.run (step fun _ id => id) eager
        [.register "f", .heartbeat true, .copy true, .remove "f", .register "f", .heartbeat true]).map
          (fun s => s.ha.followers)
      = some ["f"] := by
    rfl
  rcases Option.map_eq_some_iff.mp hmap with ⟨s, hs, hfollowers⟩
  refine ⟨s, hs, hfollowers, ?_⟩
  refine (distinct_iff_joins (fun _ id => id) _ (some 1) [] hs).mpr ?_ _ s (List.prefix_refl _) hs
  apply Trace.along_cons rfl trivial
  apply Trace.along_cons rfl
  . intro addr _
    exact List.not_mem_nil
  . apply Trace.along_cons rfl trivial
    apply Trace.along_cons rfl trivial
    apply Trace.along_cons rfl trivial
    apply Trace.along_cons rfl
    . intro addr _
      exact List.not_mem_nil
    . trivial

-- a follower that starts again before it was removed
theorem sent_twice_if_registered_again
    : ∃ s,
        Trace.run (step fun _ id => id) eager
            [.register "f", .heartbeat true, .copy true, .register "f", .heartbeat true, .copy true]
            = some s
          ∧ s.ha.followers = ["f", "f"]
          ∧ (s.ha.start (.entry (0, .kvSet "d" "k" [1] 0)) fun _ => .ok ()).2.2
              = [(0, "f", [(0, .kvSet "d" "k" [1] 0)]), (1, "f", [(0, .kvSet "d" "k" [1] 0)])]
          ∧ ¬Distinct s := by
  refine ⟨_, rfl, rfl, rfl, ?_⟩
  intro h
  exact absurd h.followers (by decide)

end Leader
end MemStream
