import MemStream.Db.Lemmas.Db.Overwrite
import MemStream.Server.Lemmas.Ha.Once
import MemStream.Server.Lemmas.Listener
import MemStream.Server.Lemmas.Sync

/-!
The key-value store of a follower. It is sent the copy of the file and from then on the events. The copy may
be ahead of the events, and then the follower makes some of the writes a second time. It may not be behind the
events that were flushed before.
-/

namespace MemStream

open Overwrite

def HaPc.writes : HaPc → List Write
  | .flushing events _ => events
  | .syncing _ copy => copy
  | _ => []

def HaPc.awaited (addr : String) : HaPc → List Write
  | .flushing events followers => if addr ∈ followers then events else []
  | .syncing addr' copy => if addr' = addr then copy else []
  | _ => []

def HaPc.Before (addr : String) : HaPc → Prop
  | .flushing _ followers => addr ∉ followers
  | .syncing addr' _ => addr' ≠ addr
  | _ => True

theorem HaPc.awaited_subset (addr : String) (pc : HaPc) : pc.awaited addr ⊆ pc.writes := by
  cases pc with
  | flushing events followers =>
    dsimp only [HaPc.awaited]
    split
    . exact List.Subset.refl _
    . exact List.nil_subset _
  | syncing addr' copy =>
    dsimp only [HaPc.awaited]
    split
    . exact List.Subset.refl _
    . exact List.nil_subset _
  | _ => exact List.Subset.refl _

namespace Leader

variable {buildKey : String → UInt64 → UInt64} {names : Keyspace} {addr : String} {s s' : Leader}

def writes (s : Leader) : List Write :=
  s.file ++ s.queue ++ s.rx ++ s.ha.uncommittedEvents ++ s.pc.writes ++ s.frames.flatMap Prod.snd

def awaited (s : Leader) (addr : String) : List Write :=
  s.pc.awaited addr ++ s.ha.uncommittedEvents ++ s.rx

def framesFor (s : Leader) (addr : String) : List (List Write) :=
  (s.frames.filter fun frame => frame.1 = addr).map Prod.snd

theorem flatten_framesFor (s : Leader) (addr : String) : (s.framesFor addr).flatten = s.delivered addr := by
  unfold framesFor delivered
  rw [List.flatMap_def]

theorem delivered_append_awaited_subset (s : Leader) (addr : String)
    : s.delivered addr ++ s.awaited addr ⊆ s.writes := by
  intro w hw
  unfold delivered awaited at hw
  unfold writes
  simp only [List.mem_append, List.mem_flatMap, List.mem_filter] at hw ⊢
  rcases hw with ⟨frame, ⟨hframe, _⟩, hw⟩ | (hw | hw) | hw
  . exact .inr ⟨frame, hframe, hw⟩
  . exact .inl (.inr (s.pc.awaited_subset addr hw))
  . exact .inl (.inl (.inr hw))
  . exact .inl (.inl (.inl (.inr hw)))

theorem mem_frames_push {frames : List (String × List Write)} {frame : String × List Write}
    {delivered : Bool} {w : Write}
    (h : w ∈ (if delivered then frames ++ [frame] else frames).flatMap Prod.snd)
    : w ∈ frames.flatMap Prod.snd ∨ w ∈ frame.2 := by
  cases delivered with
  | true => simpa using h
  | false => exact .inl h

theorem writes_subset {a : Action} (ha : ∀ op env, a ≠ .call op env) (hstep : s.step buildKey a = some s')
    : s'.writes ⊆ s.writes := by
  intro w hw
  unfold writes at hw ⊢
  cases a with
  | call op env => exact absurd rfl (ha op env)
  | writeLine ok =>
    rcases writeLine_eq_some hstep with ⟨e, queue, hqueue, rfl | rfl⟩
    . rw [hqueue]
      simpa using hw
    . rw [hqueue]
      simp only [List.mem_append, List.mem_cons] at hw ⊢
      tauto
  | start =>
    rcases start_eq_some hstep with ⟨hpc, rfl⟩
    rw [hpc]
    exact hw
  | receive =>
    rcases receive_eq_some hstep with ⟨e, rx, hpc, hrx, ⟨_, rfl⟩ | ⟨_, rfl⟩⟩
    . rw [hpc, hrx]
      simp only [HaPc.writes, List.mem_append, List.mem_cons, List.not_mem_nil] at hw ⊢
      tauto
    . rw [hpc, hrx]
      simp only [HaPc.writes, List.mem_append, List.mem_cons, List.not_mem_nil] at hw ⊢
      tauto
  | sync delivered ok =>
    rcases sync_eq_some hstep with ⟨events, follower, followers, hpc, rfl⟩
    rw [hpc]
    rcases List.mem_append.mp hw with hw | hw
    . cases ok with
      | true => exact List.mem_append_left _ hw
      | false =>
        simp only [Bool.false_eq_true, if_false, HaPc.writes, List.mem_append, List.not_mem_nil] at hw ⊢
        tauto
    . rcases mem_frames_push hw with hold | hnew
      . exact List.mem_append_right _ hold
      . simp only [HaPc.writes, List.mem_append]
        tauto
  | finish =>
    rcases finish_eq_some hstep with ⟨events, hpc, rfl⟩
    rw [hpc]
    simp only [HaPc.writes, List.mem_append, List.not_mem_nil] at hw ⊢
    tauto
  | register addr' =>
    rcases register_eq_some hstep with ⟨hpc, rfl⟩
    rw [hpc]
    exact hw
  | heartbeat ok =>
    rcases heartbeat_eq_some hstep with ⟨addr', hpc, rfl | rfl⟩
    . rw [hpc]
      exact hw
    . rw [hpc]
      exact hw
  | copy ok =>
    rcases copy_eq_some hstep with ⟨addr', hpc, ⟨_, rfl⟩ | rfl⟩
    . rw [hpc]
      simp only [HaPc.writes, List.mem_append, List.not_mem_nil] at hw ⊢
      tauto
    . rw [hpc]
      exact hw
  | syncCopy delivered =>
    rcases syncCopy_eq_some hstep with ⟨addr', copy, hpc, rfl⟩
    rw [hpc]
    rcases List.mem_append.mp hw with hw | hw
    . simp only [HaPc.writes, List.mem_append, List.not_mem_nil] at hw ⊢
      tauto
    . rcases mem_frames_push hw with hold | hnew
      . exact List.mem_append_right _ hold
      . simp only [HaPc.writes, List.mem_append]
        tauto
  | remove addr' =>
    cases hstep
    exact hw

/-- The follower is in the list and the file has been copied for it. -/
def Joined (addr : String) (s : Leader) : Prop :=
  addr ∈ s.ha.followers ∧ s.pc ≠ .copying addr

/--
What the follower relies on. The clients use the names, and no time to live. Before it has joined, each write
is logged, and when the file is copied for it, the lines that are not there yet are of events that have not
been flushed yet. It registers once and is not removed, and what is sent to it arrives.
-/
def Reliable (names : Keyspace) (addr : String) (s : Leader) : Action → Prop
  | .call op _ => op.Within names ∧ ∀ d, op = .kvFlush d → s.Joined addr
  | .writeLine ok => ok = true ∨ s.Joined addr
  | .sync _ ok => ∀ events followers, s.pc = .flushing events followers → addr ∈ followers → ok = true
  | .register addr' => addr' = addr → addr ∉ s.ha.followers
  | .copy ok => s.pc = .copying addr → ok = true ∧ s.queue <:+ s.ha.uncommittedEvents ++ s.rx
  | .syncCopy delivered => ∀ copy, s.pc = .syncing addr copy → delivered = true
  | .remove addr' => addr' ≠ addr
  | _ => True

/-- What the key-value store has become by the writes. -/
def MadeBy (s : Leader) (writes : List Write) : Prop :=
  s.db.kvStore.values = writeAll AofEntry.effect (fun _ => none) (writes.map Prod.snd)

structure Before (addr : String) (s : Leader) : Prop where
  unsent : s.delivered addr = []
  avoids : s.pc.Before addr
  unlisted : s.pc ≠ .copying addr → addr ∉ s.ha.followers
  listed : s.pc = .copying addr → s.ha.followers.count addr = 1
  logged : s.MadeBy (s.file ++ s.queue)
  unflushed : s.ha.uncommittedEvents ++ s.rx <:+ s.file ++ s.queue

structure Following (addr : String) (s : Leader) : Prop where
  listed : s.ha.followers.count addr = 1
  joined : s.pc ≠ .heartbeating addr ∧ s.pc ≠ .copying addr
  flushing : ∀ events followers, s.pc = .flushing events followers → followers.count addr ≤ 1
  same : s.MadeBy (s.delivered addr ++ s.awaited addr)

structure Replicates (names : Keyspace) (addr : String) (s : Leader) : Prop where
  covers : names.Covers s.db.kvStore.values
  lasting : s.db.kvStore.Lasting
  listening : s.db.events.isSome
  within : ∀ w ∈ s.writes, w.2.Within names
  phase : Before addr s ∨ Following addr s

theorem MadeBy.append {writes ws : List Write} (h : s.MadeBy writes)
    (hvalues : s'.db.kvStore.values
      = writeAll AofEntry.effect s.db.kvStore.values (ws.map Prod.snd))
    : s'.MadeBy (writes ++ ws) := by
  unfold MadeBy at *
  rw [hvalues, h, List.map_append, writeAll_append]

theorem Replicates.call_eq (h : Replicates names addr s) {op : DB.Op} (hop : op.Within names)
    (buildKey : String → UInt64 → UInt64) (env : Env)
    : ∃ ws : List Write,
        (s.call buildKey op env).rx = s.rx ++ ws
          ∧ ((s.call buildKey op env).queue = s.queue ++ ws
              ∨ (∃ d, op = .kvFlush d) ∧ (s.call buildKey op env).queue = s.queue)
          ∧ (∀ w ∈ ws, w.2.Within names)
          ∧ (s.call buildKey op env).db.kvStore.values
              = writeAll AofEntry.effect s.db.kvStore.values (ws.map Prod.snd) := by
  rcases DB.call_sends h.covers h.lasting hop buildKey env with ⟨sent, hevents, haof, hsent, hvalues⟩
  rcases Option.isSome_iff_exists.mp h.listening with ⟨events, hlistening⟩
  refine ⟨sent.map fun entry => (s.calls, entry), ?_, ?_, ?_, ?_⟩
  . unfold Leader.call
    dsimp only
    rw [hevents, hlistening]
    simp
  . unfold Leader.call
    dsimp only
    rcases haof with haof | ⟨hflush, haof⟩
    . rw [haof]
      simp
    . rw [haof]
      simp [hflush]
  . intro w hw
    rcases List.mem_map.mp hw with ⟨entry, hentry, rfl⟩
    exact hsent entry hentry
  . rw [List.map_map]
    show (s.db.call buildKey env op).2.kvStore.values = _
    rw [hvalues]
    congr 1
    exact (List.map_id' sent).symm

theorem Before.call (h : Before addr s) {op : DB.Op} {env : Env} {ws : List Write}
    (hrx : (s.call buildKey op env).rx = s.rx ++ ws)
    (hqueue : (s.call buildKey op env).queue = s.queue ++ ws)
    (hvalues : (s.call buildKey op env).db.kvStore.values
      = writeAll AofEntry.effect s.db.kvStore.values (ws.map Prod.snd))
    : Before addr (s.call buildKey op env) where
  unsent := h.unsent
  avoids := h.avoids
  unlisted := h.unlisted
  listed := h.listed
  logged := by
    rw [hqueue, ← List.append_assoc]
    exact h.logged.append hvalues
  unflushed := by
    rw [hrx, hqueue, ← List.append_assoc, ← List.append_assoc]
    rcases h.unflushed with ⟨front, hfront⟩
    refine ⟨front, ?_⟩
    show front ++ (s.ha.uncommittedEvents ++ s.rx ++ ws) = s.file ++ s.queue ++ ws
    rw [← List.append_assoc, hfront]

theorem Following.call (h : Following addr s) {op : DB.Op} {env : Env} {ws : List Write}
    (hrx : (s.call buildKey op env).rx = s.rx ++ ws)
    (hvalues : (s.call buildKey op env).db.kvStore.values
      = writeAll AofEntry.effect s.db.kvStore.values (ws.map Prod.snd))
    : Following addr (s.call buildKey op env) where
  listed := h.listed
  joined := h.joined
  flushing := h.flushing
  same := by
    have hawaited : (s.call buildKey op env).awaited addr = s.awaited addr ++ ws := by
      unfold awaited
      rw [hrx, ← List.append_assoc]
      rfl
    rw [hawaited, ← List.append_assoc]
    exact h.same.append hvalues

theorem Before.not_joined (h : Before addr s) : ¬s.Joined addr := by
  intro hjoined
  exact h.unlisted hjoined.2 hjoined.1

theorem Replicates.call (h : Replicates names addr s) {op : DB.Op} {env : Env}
    (ha : s.Reliable names addr (.call op env))
    : Replicates names addr (s.call buildKey op env) := by
  rcases ha with ⟨hop, hflush⟩
  rcases h.call_eq hop buildKey env with ⟨ws, hrx, hqueue, hws, hvalues⟩
  refine ⟨?_, DB.lasting_call h.lasting hop buildKey env, ?_, ?_, ?_⟩
  . rw [hvalues]
    apply h.covers.writeAll
    intro entry hentry
    rcases List.mem_map.mp hentry with ⟨w, hw, rfl⟩
    exact hws w hw
  . show (s.db.call buildKey env op).2.events.isSome
    rcases s.db.call_events buildKey env op with hsame | ⟨entry, hnew⟩
    . rw [hsame]
      exact h.listening
    . rw [hnew, Option.isSome_map]
      exact h.listening
  . have hsubset : (s.call buildKey op env).writes ⊆ s.writes ++ ws := by
      intro w hw
      unfold writes at hw ⊢
      rw [hrx] at hw
      rcases hqueue with hqueue | ⟨_, hqueue⟩
      . rw [hqueue] at hw
        simp only [Leader.call, List.mem_append] at hw ⊢
        tauto
      . rw [hqueue] at hw
        simp only [Leader.call, List.mem_append] at hw ⊢
        tauto
    intro w hw
    rcases List.mem_append.mp (hsubset hw) with hold | hnew
    . exact h.within w hold
    . exact hws w hnew
  . rcases h.phase with hbefore | hfollowing
    . rcases hqueue with hqueue | ⟨⟨d, hd⟩, _⟩
      . exact .inl (hbefore.call hrx hqueue hvalues)
      . exact absurd (hflush d hd) hbefore.not_joined
    . exact .inr (hfollowing.call hrx hvalues)

theorem Before.move (h : Before addr s) {pc : HaPc} (hpc : s.pc ≠ .copying addr)
    (havoids : pc.Before addr) (hpc' : pc ≠ .copying addr)
    : Before addr { s with pc := pc } :=
  ⟨h.unsent, havoids, fun _ => h.unlisted hpc, fun heq => absurd heq hpc', h.logged, h.unflushed⟩

theorem Before.receive (h : Before addr s) (hstep : s.receive = some s') : Before addr s' := by
  rcases receive_eq_some hstep with ⟨e, rx, hpc, hrx, ⟨_, rfl⟩ | ⟨_, rfl⟩⟩
  . have hunlisted := h.unlisted (by simp [hpc])
    have hunflushed := h.unflushed
    rw [hrx] at hunflushed
    refine ⟨h.unsent, hunlisted, fun _ => hunlisted, by simp, h.logged, ?_⟩
    apply List.IsSuffix.trans _ hunflushed
    refine ⟨s.ha.uncommittedEvents ++ [e], ?_⟩
    simp
  . have hunflushed := h.unflushed
    rw [hrx] at hunflushed
    refine ⟨h.unsent, trivial, fun _ => h.unlisted (by simp [hpc]), by simp, h.logged, ?_⟩
    simpa using hunflushed

theorem Before.sync (h : Before addr s) {delivered ok : Bool} (hstep : s.sync delivered ok = some s')
    : Before addr s' := by
  rcases sync_eq_some hstep with ⟨events, follower, followers, hpc, rfl⟩
  have havoids := h.avoids
  rw [hpc] at havoids
  have hne : follower ≠ addr := by
    rintro rfl
    exact havoids (by simp)
  have hunlisted := h.unlisted (by simp [hpc])
  refine ⟨?_, ?_, fun _ => hunlisted, ?_, h.logged, h.unflushed⟩
  . rw [delivered_push rfl, h.unsent, if_neg (fun hand => hne hand.2), List.nil_append]
  . cases ok with
    | true => exact fun hmem => havoids (List.mem_cons_of_mem _ hmem)
    | false => trivial
  . cases ok with
    | true => simp
    | false => simp

theorem Before.heartbeat (h : Before addr s) {ok : Bool} (hstep : s.heartbeat ok = some s')
    : Before addr s' := by
  rcases heartbeat_eq_some hstep with ⟨addr', hpc, rfl | rfl⟩
  . have hunlisted := h.unlisted (by simp [hpc])
    refine ⟨h.unsent, trivial, ?_, ?_, h.logged, h.unflushed⟩
    . intro hne hmem
      rcases List.mem_append.mp hmem with hold | hnew
      . exact hunlisted hold
      . exact hne (by rw [List.mem_singleton.mp hnew])
    . intro heq
      cases heq
      show (s.ha.followers ++ [addr]).count addr = 1
      rw [List.count_append, List.count_eq_zero.mpr hunlisted, List.count_singleton_self]
  . exact h.move (by simp [hpc]) trivial (by simp)

theorem MadeBy.again {unflushed : List Write} (h : s.MadeBy (s.file ++ s.queue))
    (hunflushed : unflushed <:+ s.file ++ s.queue) (hqueue : s.queue <:+ unflushed)
    : s.MadeBy (s.file ++ unflushed) := by
  rcases hqueue with ⟨shared, rfl⟩
  rcases hunflushed with ⟨front, hfront⟩
  rw [← List.append_assoc] at hfront
  have hfile := List.append_cancel_right hfront
  unfold MadeBy at *
  rw [h, ← hfile]
  simp only [List.map_append]
  rw [writeAll_overlap]

theorem Before.copy (h : Before addr s) {ok : Bool} (ha : s.Reliable names addr (.copy ok))
    (hstep : s.copy ok = some s')
    : Before addr s' ∨ Following addr s' := by
  rcases copy_eq_some hstep with ⟨addr', hpc, hcases⟩
  by_cases heq : addr' = addr
  . rw [heq] at hpc
    rcases ha hpc with ⟨rfl, hsuffix⟩
    simp only [Leader.copy, hpc, Option.some.injEq] at hstep
    have hsame := h.logged.again h.unflushed hsuffix
    right
    rw [← hstep]
    cases hempty : s.file.isEmpty with
    | true =>
      refine ⟨h.listed hpc, by simp, by simp, ?_⟩
      rw [List.isEmpty_iff.mp hempty, List.nil_append] at hsame
      show s.MadeBy (s.delivered addr ++ ([] ++ s.ha.uncommittedEvents ++ s.rx))
      rw [h.unsent, List.nil_append, List.nil_append]
      exact hsame
    | false =>
      refine ⟨h.listed hpc, by simp, by simp, ?_⟩
      show s.MadeBy (s.delivered addr
        ++ ((if addr = addr then s.file else []) ++ s.ha.uncommittedEvents ++ s.rx))
      rw [h.unsent, List.nil_append, if_pos rfl, List.append_assoc]
      exact hsame
  . have hne : s.pc ≠ .copying addr := by
      rw [hpc]
      intro hcopying
      exact heq (HaPc.copying.inj hcopying)
    rcases hcases with ⟨_, rfl⟩ | rfl
    . exact .inl (h.move hne heq (by simp))
    . exact .inl (h.move hne trivial (by simp))

theorem Before.syncCopy (h : Before addr s) {delivered : Bool}
    (hstep : s.syncCopy delivered = some s')
    : Before addr s' := by
  rcases syncCopy_eq_some hstep with ⟨addr', copy, hpc, rfl⟩
  have hne : addr' ≠ addr := by
    have havoids := h.avoids
    rw [hpc] at havoids
    exact havoids
  refine ⟨?_, trivial, fun _ => h.unlisted (by simp [hpc]), by simp, h.logged, h.unflushed⟩
  rw [delivered_push rfl, h.unsent, if_neg (fun hand => hne hand.2), List.nil_append]

theorem count_filter_ne {followers : List String} {addr' : String} (hne : addr' ≠ addr)
    : (followers.filter (· ≠ addr')).count addr = followers.count addr := by
  apply List.count_filter
  simpa using hne.symm

theorem Before.remove (h : Before addr s) {addr' : String} (hne : addr' ≠ addr)
    : Before addr (s.remove addr') where
  unsent := h.unsent
  avoids := h.avoids
  unlisted := fun hpc hmem => h.unlisted hpc (List.mem_of_mem_filter hmem)
  listed := by
    intro hpc
    show (s.ha.followers.filter (· ≠ addr')).count addr = 1
    rw [count_filter_ne hne]
    exact h.listed hpc
  logged := h.logged
  unflushed := h.unflushed

theorem Before.step (h : Before addr s) {a : Action} (ha : s.Reliable names addr a)
    (hcall : ∀ op env, a ≠ .call op env) (hstep : s.step buildKey a = some s')
    : Before addr s' ∨ Following addr s' := by
  cases a with
  | call op env => exact absurd rfl (hcall op env)
  | writeLine ok =>
    rcases ha with rfl | hjoined
    . rcases hqueue : s.queue with _ | ⟨e, queue⟩
      . simp [Leader.step, writeLine, hqueue] at hstep
      . simp only [Leader.step, writeLine, hqueue, Option.some.injEq] at hstep
        have hlines : (s.file ++ [e]) ++ queue = s.file ++ s.queue := by
          rw [hqueue, List.append_assoc, List.singleton_append]
        rw [← hstep]
        refine .inl ⟨h.unsent, h.avoids, h.unlisted, h.listed, ?_, ?_⟩
        . show s.MadeBy ((s.file ++ [e]) ++ queue)
          rw [hlines]
          exact h.logged
        . show s.ha.uncommittedEvents ++ s.rx <:+ (s.file ++ [e]) ++ queue
          rw [hlines]
          exact h.unflushed
    . exact absurd hjoined h.not_joined
  | start =>
    rcases start_eq_some hstep with ⟨hpc, rfl⟩
    exact .inl (h.move (by simp [hpc]) trivial (by simp))
  | receive => exact .inl (h.receive hstep)
  | sync delivered ok => exact .inl (h.sync hstep)
  | finish =>
    rcases finish_eq_some hstep with ⟨events, hpc, rfl⟩
    exact .inl (h.move (by simp [hpc]) trivial (by simp))
  | register addr' =>
    rcases register_eq_some hstep with ⟨hpc, rfl⟩
    exact .inl (h.move (by simp [hpc]) trivial (by simp))
  | heartbeat ok => exact .inl (h.heartbeat hstep)
  | copy ok => exact h.copy ha hstep
  | syncCopy delivered => exact .inl (h.syncCopy hstep)
  | remove addr' =>
    cases hstep
    exact .inl (h.remove ha)

theorem Following.move (h : Following addr s) {pc : HaPc} (hheartbeating : pc ≠ .heartbeating addr)
    (hcopying : pc ≠ .copying addr) (hflushing : ∀ events followers, pc ≠ .flushing events followers)
    (hawaited : pc.awaited addr = s.pc.awaited addr)
    : Following addr { s with pc := pc } where
  listed := h.listed
  joined := ⟨hheartbeating, hcopying⟩
  flushing := fun events followers hpc => absurd hpc (hflushing events followers)
  same := by
    show s.MadeBy (s.delivered addr ++ (pc.awaited addr ++ s.ha.uncommittedEvents ++ s.rx))
    rw [hawaited]
    exact h.same

theorem Following.mem_followers (h : Following addr s) : addr ∈ s.ha.followers := by
  rw [← List.count_pos_iff, h.listed]
  exact Nat.one_pos

theorem Following.receive (h : Following addr s) (hstep : s.receive = some s') : Following addr s' := by
  rcases receive_eq_some hstep with ⟨e, rx, hpc, hrx, ⟨_, rfl⟩ | ⟨_, rfl⟩⟩
  . have hsame := h.same
    unfold awaited at hsame
    rw [hpc, hrx] at hsame
    refine ⟨h.listed, by simp, ?_, ?_⟩
    . rintro events followers heq
      cases heq
      exact Nat.le_of_eq h.listed
    . show s.MadeBy (s.delivered addr
        ++ ((if addr ∈ s.ha.followers then s.ha.uncommittedEvents ++ [e] else []) ++ [] ++ rx))
      rw [if_pos h.mem_followers]
      simpa [HaPc.awaited] using hsame
  . have hsame := h.same
    unfold awaited at hsame
    rw [hpc, hrx] at hsame
    refine ⟨h.listed, by simp, by simp, ?_⟩
    show s.MadeBy (s.delivered addr ++ ([] ++ (s.ha.uncommittedEvents ++ [e]) ++ rx))
    simpa [HaPc.awaited] using hsame

theorem Following.sync (h : Following addr s) {delivered ok : Bool}
    (ha : s.Reliable names addr (.sync delivered ok)) (hstep : s.sync delivered ok = some s')
    : Following addr s' := by
  rcases sync_eq_some hstep with ⟨events, follower, followers, hpc, hs'⟩
  have hsame := h.same
  unfold awaited at hsame
  rw [hpc] at hsame
  have hcount := h.flushing events (follower :: followers) hpc
  by_cases hmem : addr ∈ follower :: followers
  . have hok := ha events (follower :: followers) hpc hmem
    subst hok
    have hdelivered : delivered = true := by
      cases delivered with
      | true => rfl
      | false => simp [Leader.sync, hpc] at hstep
    subst hs'
    refine ⟨h.listed, by simp, ?_, ?_⟩
    . rintro _ _ heq
      cases heq
      exact Nat.le_trans List.count_le_count_cons hcount
    . unfold awaited
      rw [delivered_push rfl]
      show s.MadeBy _
      by_cases heq : follower = addr
      . have hnot : addr ∉ followers := by
          rw [heq, List.count_cons_self] at hcount
          exact List.count_eq_zero.mp (by omega)
        simpa [HaPc.awaited, heq, hnot, hdelivered] using hsame
      . have hrest : addr ∈ followers := by
          simpa [Ne.symm heq] using hmem
        simpa [HaPc.awaited, heq, hrest, hdelivered] using hsame
  . have hne : follower ≠ addr := by
      rintro rfl
      exact hmem (by simp)
    have hnot : addr ∉ followers := fun hrest => hmem (List.mem_cons_of_mem _ hrest)
    subst hs'
    refine ⟨h.listed, ?_, ?_, ?_⟩
    . cases ok with
      | true => simp
      | false => simp
    . rintro _ _ heq
      cases ok with
      | true =>
        cases heq
        exact Nat.le_trans List.count_le_count_cons hcount
      | false => cases heq
    . unfold awaited
      rw [delivered_push rfl]
      show s.MadeBy _
      cases ok with
      | true => simpa [HaPc.awaited, hne, hnot, hmem, Ne.symm hne] using hsame
      | false => simpa [HaPc.awaited, hne, hnot, hmem, Ne.symm hne] using hsame

theorem Following.syncCopy (h : Following addr s) {delivered : Bool}
    (ha : s.Reliable names addr (.syncCopy delivered)) (hstep : s.syncCopy delivered = some s')
    : Following addr s' := by
  rcases syncCopy_eq_some hstep with ⟨addr', copy, hpc, rfl⟩
  have hsame := h.same
  unfold awaited at hsame
  rw [hpc] at hsame
  refine ⟨h.listed, by simp, by simp, ?_⟩
  unfold awaited
  rw [delivered_push rfl]
  show s.MadeBy _
  by_cases heq : addr' = addr
  . rw [heq] at hpc
    have hdelivered := ha copy hpc
    simpa [HaPc.awaited, heq, hdelivered] using hsame
  . simpa [HaPc.awaited, heq] using hsame

theorem Following.heartbeat (h : Following addr s) {ok : Bool} (hstep : s.heartbeat ok = some s')
    : Following addr s' := by
  rcases heartbeat_eq_some hstep with ⟨addr', hpc, rfl | rfl⟩
  . have hne : addr' ≠ addr := by
      rintro rfl
      exact h.joined.1 hpc
    have hsame := h.same
    unfold awaited at hsame
    rw [hpc] at hsame
    refine ⟨?_, by simpa using hne, by simp, hsame⟩
    show (s.ha.followers ++ [addr']).count addr = 1
    rw [List.count_append, h.listed, List.count_singleton]
    simp [hne]
  . exact h.move (by simp) (by simp) (by simp) (by rw [hpc]; rfl)

theorem Following.copy (h : Following addr s) {ok : Bool} (hstep : s.copy ok = some s')
    : Following addr s' := by
  rcases copy_eq_some hstep with ⟨addr', hpc, hcases⟩
  have hne : addr' ≠ addr := by
    rintro rfl
    exact h.joined.2 hpc
  rcases hcases with ⟨_, rfl⟩ | rfl
  . exact h.move (by simp) (by simp) (by simp) (by simp [hpc, HaPc.awaited, hne])
  . exact h.move (by simp) (by simp) (by simp) (by rw [hpc]; rfl)

theorem Following.step (h : Following addr s) {a : Action} (ha : s.Reliable names addr a)
    (hcall : ∀ op env, a ≠ .call op env) (hstep : s.step buildKey a = some s')
    : Following addr s' := by
  cases a with
  | call op env => exact absurd rfl (hcall op env)
  | writeLine ok =>
    rcases writeLine_eq_some hstep with ⟨e, queue, _, rfl | rfl⟩
    . exact ⟨h.listed, h.joined, h.flushing, h.same⟩
    . exact ⟨h.listed, h.joined, h.flushing, h.same⟩
  | start =>
    rcases start_eq_some hstep with ⟨hpc, rfl⟩
    exact h.move (by simp) (by simp) (by simp) (by rw [hpc]; rfl)
  | receive => exact h.receive hstep
  | sync delivered ok => exact h.sync ha hstep
  | finish =>
    rcases finish_eq_some hstep with ⟨events, hpc, rfl⟩
    exact h.move (by simp) (by simp) (by simp) (by simp [hpc, HaPc.awaited])
  | register addr' =>
    rcases register_eq_some hstep with ⟨hpc, rfl⟩
    have hne : addr' ≠ addr := fun heq => ha heq h.mem_followers
    exact h.move (by simpa using hne) (by simp) (by simp) (by rw [hpc]; rfl)
  | heartbeat ok => exact h.heartbeat hstep
  | copy ok => exact h.copy hstep
  | syncCopy delivered => exact h.syncCopy ha hstep
  | remove addr' =>
    cases hstep
    refine ⟨?_, h.joined, h.flushing, h.same⟩
    show (s.ha.followers.filter (· ≠ addr')).count addr = 1
    rw [count_filter_ne ha]
    exact h.listed

theorem db_eq {a : Action} (hcall : ∀ op env, a ≠ .call op env) (hstep : s.step buildKey a = some s')
    : s'.db = s.db := by
  cases a with
  | call op env => exact absurd rfl (hcall op env)
  | writeLine ok =>
    rcases writeLine_eq_some hstep with ⟨_, _, _, rfl | rfl⟩
    . rfl
    . rfl
  | start =>
    rcases start_eq_some hstep with ⟨_, rfl⟩
    rfl
  | receive =>
    rcases receive_eq_some hstep with ⟨_, _, _, _, ⟨_, rfl⟩ | ⟨_, rfl⟩⟩
    . rfl
    . rfl
  | sync delivered ok =>
    rcases sync_eq_some hstep with ⟨_, _, _, _, rfl⟩
    rfl
  | finish =>
    rcases finish_eq_some hstep with ⟨_, _, rfl⟩
    rfl
  | register addr' =>
    rcases register_eq_some hstep with ⟨_, rfl⟩
    rfl
  | heartbeat ok =>
    rcases heartbeat_eq_some hstep with ⟨_, _, rfl | rfl⟩
    . rfl
    . rfl
  | copy ok =>
    rcases copy_eq_some hstep with ⟨_, _, ⟨_, rfl⟩ | rfl⟩
    . rfl
    . rfl
  | syncCopy delivered =>
    rcases syncCopy_eq_some hstep with ⟨_, _, _, rfl⟩
    rfl
  | remove addr' =>
    cases hstep
    rfl

theorem Replicates.step (h : Replicates names addr s) {a : Action} (ha : s.Reliable names addr a)
    (hstep : s.step buildKey a = some s')
    : Replicates names addr s' := by
  by_cases hcall : ∃ op env, a = .call op env
  . rcases hcall with ⟨op, env, rfl⟩
    cases hstep
    exact h.call ha
  . have hcall (op : DB.Op) (env : Env) : a ≠ .call op env := fun heq => hcall ⟨op, env, heq⟩
    have hdb := db_eq hcall hstep
    refine ⟨?_, ?_, ?_, ?_, ?_⟩
    . rw [hdb]
      exact h.covers
    . rw [hdb]
      exact h.lasting
    . rw [hdb]
      exact h.listening
    . intro w hw
      exact h.within w (writes_subset hcall hstep hw)
    . rcases h.phase with hbefore | hfollowing
      . exact hbefore.step ha hcall hstep
      . exact .inr (hfollowing.step ha hcall hstep)

theorem replicates_new {fresh db : DB} {old : List AofEntry} {schedule : Schedule old}
    (hfresh : DB.new true (some []) = .ok fresh) (hold : ∀ entry ∈ old, entry.Within names)
    (hload : fresh.loadAndApply buildKey schedule = (.ok (), db)) (eventBufferSize : Option Nat)
    (addr : String)
    : Replicates names addr (new db eventBufferSize old) := by
  have hnone : fresh.kvStore.values = fun _ => none := by
    rw [DB.new_kvStore hfresh]
    rfl
  have hcovers : names.Covers fresh.kvStore.values := by
    rw [hnone]
    exact names.covers_none
  have hlasting : fresh.kvStore.Lasting := by
    rw [DB.new_kvStore hfresh]
    intro d key entry hlookup
    cases hlookup
  have ⟨hvalues, hend⟩ := loadAndApply_values hcovers hlasting hold hload
  have hsnd : ((List.range old.length).zip old).map Prod.snd = old := by
    exact List.map_snd_zip (by simp)
  refine ⟨?_, hend, ?_, ?_, .inl ⟨rfl, trivial, by simp [new, HaManager.new], by simp [new], ?_, ?_⟩⟩
  . show names.Covers db.kvStore.values
    rw [hvalues]
    exact hcovers.writeAll hold
  . have hevents : fresh.events = db.events := congrArg (fun res => res.2.events) hload
    show db.events.isSome
    rw [← hevents]
    cases hfresh
    rfl
  . intro w hw
    simp only [writes, new, HaManager.new, HaPc.writes, List.append_nil, List.flatMap_nil] at hw
    apply hold
    rw [← hsnd]
    exact List.mem_map_of_mem hw
  . unfold MadeBy
    rw [← hnone]
    show db.kvStore.values = _
    rw [hvalues]
    simp [new, hsnd]
  . simp [new, HaManager.new]

theorem replicates_run {fresh db : DB} {old : List AofEntry} {schedule : Schedule old}
    (hfresh : DB.new true (some []) = .ok fresh) (hold : ∀ entry ∈ old, entry.Within names)
    (hload : fresh.loadAndApply buildKey schedule = (.ok (), db)) {eventBufferSize : Option Nat}
    {actions : List Action}
    (halong : Trace.Along (step buildKey) (Reliable names addr) (new db eventBufferSize old) actions)
    (hrun : Trace.run (step buildKey) (new db eventBufferSize old) actions = some s)
    : Replicates names addr s := by
  have hstart := replicates_new hfresh hold hload eventBufferSize addr
  exact Trace.inv_of_along (fun _ _ _ h ha hstep => h.step ha hstep) hstart halong hrun

end Leader

/-
The follower, which is sent the frames.
-/

section Follower

variable {toVec : AofEntry → List UInt8} {fromSlice : List UInt8 → Except String AofEntry}
variable {names : Keyspace} {follower : DB}

theorem serve_syncFrame (buildKey : String → UInt64 → UInt64)
    (h : names.Covers follower.kvStore.values) {handled : HandledFrame} {entries : List AofEntry}
    (hframe : handled.frame = syncFrame toVec entries)
    (hsize : handled.frame.length ≤ LengthPrefixCodec.maxFrameSize)
    (hserde : ∀ entry ∈ entries, fromSlice (toVec entry) = .ok entry)
    (hentries : ∀ entry ∈ entries, entry.Within names)
    : let res := Server.serve buildKey fromSlice follower handled
      res.2.kvStore.values = writeAll AofEntry.effect follower.kvStore.values entries
        ∧ res.2.list = follower.list
        ∧ res.2.groupManager = follower.groupManager := by
  intro res
  rw [hframe] at hsize
  let envs := entries.zipIdx.map fun e => (e.1, handled.senv.envs e.2)
  have hres : res.2 = (follower.applyAof buildKey envs).2 := by
    unfold res Server.serve
    rw [hframe, Server.handleFrame_haSync (parseCommand_syncFrame hsize)]
    unfold Server.handleCommand
    dsimp only
    rw [decodeEntries_toBase64 hserde]
    rfl
  have hfst : envs.map Prod.fst = entries := by
    unfold envs
    rw [List.map_map]
    exact List.zipIdx_map_fst 0 entries
  have hwithin (e : AofEntry × Env) (he : e ∈ envs) : e.1.Within names := by
    apply hentries
    rw [← hfst]
    exact List.mem_map_of_mem he
  rw [hres, ← hfst]
  exact DB.applyAof_values h hwithin

theorem run_serve_syncFrame (buildKey : String → UInt64 → UInt64)
    (h : names.Covers follower.kvStore.values) {order : List HandledFrame} {batches : List (List Write)}
    (horder : order.map HandledFrame.frame = batches.map fun ws => syncFrame toVec (ws.map Prod.snd))
    (hsize : ∀ handled ∈ order, handled.frame.length ≤ LengthPrefixCodec.maxFrameSize)
    (hserde : ∀ w ∈ batches.flatten, fromSlice (toVec w.2) = .ok w.2)
    (hwithin : ∀ w ∈ batches.flatten, w.2.Within names)
    : let follower' := (Machine.run (Server.serve buildKey fromSlice) follower order).2
      follower'.kvStore.values
          = writeAll AofEntry.effect follower.kvStore.values (batches.flatten.map Prod.snd)
        ∧ follower'.list = follower.list
        ∧ follower'.groupManager = follower.groupManager := by
  induction batches generalizing follower order with
  | nil =>
    rw [List.map_eq_nil_iff.mp horder]
    exact ⟨rfl, rfl, rfl⟩
  | cons ws batches ih =>
    rcases List.map_eq_cons_iff.mp horder with ⟨handled, order, rfl, hframe, hrest⟩
    have hentry {P : AofEntry → Prop} (hbatches : ∀ w ∈ (ws :: batches).flatten, P w.2)
        (entry : AofEntry) (hmem : entry ∈ ws.map Prod.snd) : P entry := by
      rcases List.mem_map.mp hmem with ⟨w, hw, rfl⟩
      exact hbatches w (by simp [hw])
    have hlater (w : Write) (hw : w ∈ batches.flatten) : w ∈ (ws :: batches).flatten := by
      rw [List.flatten_cons]
      exact List.mem_append_right _ hw
    have ⟨hvalues, hlist, hgroups⟩ :=
      serve_syncFrame buildKey h hframe (hsize handled (by simp)) (hentry hserde) (hentry hwithin)
    have hcovers : names.Covers
        (Server.serve buildKey fromSlice follower handled).2.kvStore.values := by
      rw [hvalues]
      exact h.writeAll (hentry hwithin)
    have ⟨hvalues', hlist', hgroups'⟩ :=
      ih hcovers hrest (fun handled' hmem => hsize handled' (by simp [hmem]))
        (fun w hw => hserde w (hlater w hw)) (fun w hw => hwithin w (hlater w hw))
    refine ⟨?_, hlist'.trans hlist, hgroups'.trans hgroups⟩
    rw [List.flatten_cons, List.map_append, writeAll_append, ← hvalues]
    exact hvalues'

end Follower

namespace Leader

/--
A follower that has handled the frames that it was sent, and then the writes that are still on the way, has
the values of the leader. When nothing is on the way it has them already. Its lists and logs stay as they were.
-/
theorem follower_converges {buildKey buildKey' : String → UInt64 → UInt64}
    {toVec : AofEntry → List UInt8} {fromSlice : List UInt8 → Except String AofEntry} {names : Keyspace}
    {addr : String} {fresh db follower : DB} {old : List AofEntry} {schedule : Schedule old}
    (hfresh : DB.new true (some []) = .ok fresh) (hold : ∀ entry ∈ old, entry.Within names)
    (hload : fresh.loadAndApply buildKey schedule = (.ok (), db)) {eventBufferSize : Option Nat}
    {actions : List Action} {s : Leader}
    (halong : Trace.Along (step buildKey) (Reliable names addr) (new db eventBufferSize old) actions)
    (hrun : Trace.run (step buildKey) (new db eventBufferSize old) actions = some s)
    (hjoined : s.Joined addr) (hempty : ∀ d key, follower.value d key = none)
    {order : List HandledFrame}
    (horder : order.map HandledFrame.frame
      = (s.framesFor addr).map fun ws => syncFrame toVec (ws.map Prod.snd))
    (hsize : ∀ handled ∈ order, handled.frame.length ≤ LengthPrefixCodec.maxFrameSize)
    (hserde : ∀ w ∈ s.delivered addr, fromSlice (toVec w.2) = .ok w.2)
    : let follower' := (Machine.run (Server.serve buildKey' fromSlice) follower order).2
      (∀ d key,
          s.db.value d key
            = writeAll AofEntry.effect follower'.kvStore.values ((s.awaited addr).map Prod.snd)
                (d, key))
        ∧ (s.awaited addr = [] → ∀ d key, follower'.value d key = s.db.value d key)
        ∧ follower'.list = follower.list
        ∧ follower'.groupManager = follower.groupManager := by
  have h := replicates_run hfresh hold hload halong hrun
  have hfollowing : Following addr s := by
    rcases h.phase with hbefore | hfollowing
    . exact absurd hjoined hbefore.not_joined
    . exact hfollowing
  have hnone : follower.kvStore.values = fun _ => none := by
    funext name
    exact hempty name.1 name.2
  have hcovers : names.Covers follower.kvStore.values := by
    rw [hnone]
    exact names.covers_none
  rw [← s.flatten_framesFor addr] at hserde
  have hwithin (w : Write) (hw : w ∈ (s.framesFor addr).flatten) : w.2.Within names := by
    rw [s.flatten_framesFor addr] at hw
    exact h.within w (s.delivered_append_awaited_subset addr (List.mem_append_left _ hw))
  have ⟨hvalues, hlist, hgroups⟩ :=
    run_serve_syncFrame buildKey' hcovers horder hsize hserde hwithin
  have hsame : s.db.kvStore.values
      = writeAll AofEntry.effect
          (Machine.run (Server.serve buildKey' fromSlice) follower order).2.kvStore.values
          ((s.awaited addr).map Prod.snd) := by
    rw [hvalues, hnone, s.flatten_framesFor addr, ← writeAll_append, ← List.map_append]
    exact hfollowing.same
  intro follower'
  refine ⟨?_, ?_, hlist, hgroups⟩
  . intro d key
    exact congrFun hsame (d, key)
  . intro hawaited d key
    rw [hawaited] at hsame
    exact (congrFun hsame (d, key)).symm

-- The write is in the copy, and its event comes behind the copy.
def repeated : List Action :=
  [.call (.kvSet "d" "k" [7] 0) Env.steady, .writeLine true, .register "f", .heartbeat true, .copy true,
    .syncCopy true, .start, .receive, .sync true true, .finish]

theorem reliable_repeated
    : Trace.Along (step fun _ id => id) (Reliable (.single "k") "f") eager repeated := by
  have hset : (DB.Op.kvSet "d" "k" [7] 0).Within (.single "k") :=
    ⟨rfl, by simp [Keyspace.single]⟩
  refine Trace.along_cons rfl ⟨hset, by simp⟩ ?_
  refine Trace.along_cons rfl (.inl rfl) ?_
  refine Trace.along_cons rfl (fun _ => by simp [eager, new, HaManager.new, call]) ?_
  refine Trace.along_cons rfl trivial ?_
  refine Trace.along_cons rfl (fun _ => ⟨rfl, List.nil_suffix⟩) ?_
  refine Trace.along_cons rfl (fun _ _ => rfl) ?_
  refine Trace.along_cons rfl trivial ?_
  refine Trace.along_cons rfl trivial ?_
  refine Trace.along_cons rfl (fun _ _ _ _ => rfl) ?_
  exact Trace.along_cons rfl trivial trivial

def repeatedFrame : HandledFrame where
  conn := 0
  frame := syncFrame writeSet [.kvSet "d" "k" [7] 0]
  senv := ⟨fun _ => Env.steady, .ok ()⟩

theorem follower_converges_repeated
    : ∃ s,
        Trace.run (step fun _ id => id) eager repeated = some s
          ∧ s.delivered "f" = [(0, .kvSet "d" "k" [7] 0), (0, .kvSet "d" "k" [7] 0)]
          ∧ ∀ d key,
              (Machine.run (Server.serve (fun _ id => id) readSet) DB.freshDb
                  [repeatedFrame, repeatedFrame]).2.value d key
                = s.db.value d key := by
  refine ⟨_, rfl, rfl, ?_⟩
  have hload : DB.loadAndApply (fun _ id => id)
      ⟨⟨KvStore.new, SegList.blank.grown, GroupManager.new⟩, [], some []⟩
      (Schedule.inOrder [] Env.steady) = (.ok (), _) := rfl
  have horder : [repeatedFrame, repeatedFrame].map HandledFrame.frame
      = [[(0, AofEntry.kvSet "d" "k" [7] 0)], [(0, .kvSet "d" "k" [7] 0)]].map fun ws =>
          syncFrame writeSet (ws.map Prod.snd) := rfl
  have hsize : ∀ handled ∈ [repeatedFrame, repeatedFrame],
      handled.frame.length ≤ LengthPrefixCodec.maxFrameSize := by
    decide +kernel
  have hserde : ∀ w ∈ [(0, AofEntry.kvSet "d" "k" [7] 0), (0, .kvSet "d" "k" [7] 0)],
      readSet (writeSet w.2) = .ok w.2 := by
    decide +kernel
  refine (follower_converges (DB.new_eq (some [])) (by simp) hload reliable_repeated rfl ?_ ?_
    horder hsize hserde).2.1 rfl
  . exact ⟨by decide, by simp⟩
  . intro d key
    rfl

end Leader
end MemStream
