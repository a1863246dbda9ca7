import MemStream.Lib.Machine
import MemStream.Server.Impl.Ha

namespace MemStream

namespace HaManager

variable {ε : Type}

theorem push_eq (ha : HaManager ε) (e : ε)
    : ha.eventBufferSize.getD 100 ≤ ha.uncommittedEvents.length + 1
          ∧ ha.push e = (some (ha.uncommittedEvents ++ [e]), { ha with uncommittedEvents := [] })
        ∨ ha.uncommittedEvents.length + 1 < ha.eventBufferSize.getD 100
          ∧ ha.push e = (none, { ha with uncommittedEvents := ha.uncommittedEvents ++ [e] }) := by
  unfold push
  dsimp only
  rw [List.length_append, List.length_singleton]
  split
  . next hfull => exact .inl ⟨hfull, rfl⟩
  . next hfull => exact .inr ⟨Nat.lt_of_not_le hfull, rfl⟩

end HaManager

namespace Leader

variable {buildKey : String → UInt64 → UInt64} {s s' : Leader}

theorem writeLine_eq_some {ok : Bool} (h : s.writeLine ok = some s')
    : ∃ e queue,
        s.queue = e :: queue
          ∧ (s' = { s with queue := queue, file := s.file ++ [e] } ∨ s' = { s with queue := queue }) := by
  unfold writeLine at h
  split at h
  . next e queue hqueue => exact ⟨e, queue, hqueue, .inl (Option.some.inj h).symm⟩
  . next e queue hqueue => exact ⟨e, queue, hqueue, .inr (Option.some.inj h).symm⟩
  . simp at h

theorem start_eq_some (h : s.start = some s') : s.pc = .idle ∧ s' = { s with pc := .receiving } := by
  unfold start at h
  split at h
  . next hpc => exact ⟨hpc, (Option.some.inj h).symm⟩
  . simp at h

theorem receive_eq_some (h : s.receive = some s')
    : ∃ e rx,
        s.pc = .receiving
          ∧ s.rx = e :: rx
          ∧ (s.ha.eventBufferSize.getD 100 ≤ s.ha.uncommittedEvents.length + 1
                ∧ s' =
                    { s with
                      rx := rx
                      ha := { s.ha with uncommittedEvents := [] }
                      pc := .flushing (s.ha.uncommittedEvents ++ [e]) s.ha.followers }
              ∨ s.ha.uncommittedEvents.length + 1 < s.ha.eventBufferSize.getD 100
                ∧ s' =
                    { s with
                      rx := rx
                      ha := { s.ha with uncommittedEvents := s.ha.uncommittedEvents ++ [e] }
                      pc := .idle }) := by
  unfold receive at h
  split at h
  . next e rx hpc hrx =>
    refine ⟨e, rx, hpc, hrx, ?_⟩
    rcases s.ha.push_eq e with ⟨hfull, hpush⟩ | ⟨hfull, hpush⟩
    . rw [hpush] at h
      exact .inl ⟨hfull, (Option.some.inj h).symm⟩
    . rw [hpush] at h
      exact .inr ⟨hfull, (Option.some.inj h).symm⟩
  . simp at h

theorem sync_eq_some {delivered ok : Bool} (h : s.sync delivered ok = some s')
    : ∃ events follower followers,
        s.pc = .flushing events (follower :: followers)
          ∧ s' =
              { s with
                frames := if delivered then s.frames ++ [(follower, events)] else s.frames
                pc := if ok then .flushing events followers else .idle } := by
  unfold sync at h
  split at h
  . next events follower followers hpc =>
    split at h
    . simp at h
    . exact ⟨events, follower, followers, hpc, (Option.some.inj h).symm⟩
  . simp at h

theorem finish_eq_some (h : s.finish = some s')
    : ∃ events, s.pc = .flushing events [] ∧ s' = { s with pc := .idle } := by
  unfold finish at h
  split at h
  . next events hpc => exact ⟨events, hpc, (Option.some.inj h).symm⟩
  . simp at h

theorem register_eq_some {addr : String} (h : s.register addr = some s')
    : s.pc = .idle ∧ s' = { s with pc := .heartbeating addr } := by
  unfold register at h
  split at h
  . next hpc => exact ⟨hpc, (Option.some.inj h).symm⟩
  . simp at h

theorem heartbeat_eq_some {ok : Bool} (h : s.heartbeat ok = some s')
    : ∃ addr,
        s.pc = .heartbeating addr
          ∧ (s' =
                { s with
                  ha := { s.ha with followers := s.ha.followers ++ [addr] }
                  pc := .copying addr }
              ∨ s' = { s with pc := .idle }) := by
  unfold heartbeat at h
  split at h
  . next addr hpc => exact ⟨addr, hpc, .inl (Option.some.inj h).symm⟩
  . next addr hpc => exact ⟨addr, hpc, .inr (Option.some.inj h).symm⟩
  . simp at h

theorem copy_eq_some {ok : Bool} (h : s.copy ok = some s')
    : ∃ addr,
        s.pc = .copying addr
          ∧ (ok = true ∧ s' = { s with pc := .syncing addr s.file } ∨ s' = { s with pc := .idle }) := by
  unfold copy at h
  split at h
  . next addr hpc =>
    refine ⟨addr, hpc, ?_⟩
    cases hempty : s.file.isEmpty with
    | true =>
      simp only [hempty, if_true, Option.some.injEq] at h
      exact .inr h.symm
    | false =>
      simp only [hempty, Bool.false_eq_true, if_false, Option.some.injEq] at h
      exact .inl ⟨rfl, h.symm⟩
  . next addr hpc => exact ⟨addr, hpc, .inr (Option.some.inj h).symm⟩
  . simp at h

theorem syncCopy_eq_some {delivered : Bool} (h : s.syncCopy delivered = some s')
    : ∃ addr copy,
        s.pc = .syncing addr copy
          ∧ s' =
              { s with
                frames := if delivered then s.frames ++ [(addr, copy)] else s.frames
                pc := .idle } := by
  unfold syncCopy at h
  split at h
  . next addr copy hpc => exact ⟨addr, copy, hpc, (Option.some.inj h).symm⟩
  . simp at h

theorem run_syncAll (buildKey : String → UInt64 → UInt64) (sync : Nat → Except String Unit)
    {events : List Write} {followers : List String} (i : Nat) {s : Leader}
    (hpc : s.pc = .flushing events followers)
    : ∃ actions,
        Trace.run (step buildKey) s actions
          =
        some
          { s with
            pc := .idle
            frames := s.frames ++ (HaManager.syncAll sync events i followers).2.map Prod.snd } := by
  induction followers generalizing i s with
  | nil =>
    refine ⟨[.finish], ?_⟩
    simp [Trace.run, step, finish, hpc, HaManager.syncAll]
  | cons follower followers ih =>
    unfold HaManager.syncAll
    cases hsync : sync i with
    | error e =>
      refine ⟨[.sync false false], ?_⟩
      simp [Trace.run, step, Leader.sync, hpc]
    | ok val =>
      let t : Leader :=
        { s with frames := s.frames ++ [(follower, events)], pc := .flushing events followers }
      have ht : s.step buildKey (.sync true true) = some t := by
        simp [step, Leader.sync, hpc, t]
      rcases ih (i + 1) (s := t) rfl with ⟨actions, hactions⟩
      refine ⟨.sync true true :: actions, ?_⟩
      rw [Trace.run_cons_eq_some]
      refine ⟨t, ht, ?_⟩
      rw [hactions]
      simp [t]

theorem run_start (buildKey : String → UInt64 → UInt64) (sync : Nat → Except String Unit) {e : Write}
    {rx : List Write} (hpc : s.pc = .idle) (hrx : s.rx = e :: rx)
    : ∃ actions,
        Trace.run (step buildKey) s actions
          =
        some
          { s with
            rx := rx
            ha := (s.ha.start (.entry e) sync).2.1
            frames := s.frames ++ (s.ha.start (.entry e) sync).2.2.map Prod.snd } := by
  let t : Leader := { s with pc := .receiving }
  have hstart : s.step buildKey .start = some t := by
    simp [step, start, hpc, t]
  rcases s.ha.push_eq e with ⟨_, hpush⟩ | ⟨_, hpush⟩
  . let u : Leader :=
      { s with
        rx := rx
        ha := { s.ha with uncommittedEvents := [] }
        pc := .flushing (s.ha.uncommittedEvents ++ [e]) s.ha.followers }
    have hreceive : t.step buildKey .receive = some u := by
      simp [step, receive, t, u, hrx, hpush]
    rcases run_syncAll buildKey sync 0 (s := u) rfl with ⟨actions, hactions⟩
    refine ⟨.start :: .receive :: actions, ?_⟩
    rw [Trace.run_cons_eq_some]
    refine ⟨t, hstart, ?_⟩
    rw [Trace.run_cons_eq_some]
    refine ⟨u, hreceive, ?_⟩
    rw [hactions]
    simp [HaManager.start, hpush, u, hpc]
  . refine ⟨[.start, .receive], ?_⟩
    simp [Trace.run, step, start, receive, hpc, hrx, hpush, HaManager.start]

end Leader
end MemStream
