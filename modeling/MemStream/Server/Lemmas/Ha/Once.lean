import MemStream.Db.Lemmas.Db.Run
import MemStream.Server.Lemmas.Ha.Steps

/-!
How often a write reaches a follower. It can come with the copy of the file and it can come as an event, so
that it comes twice if it is in the file already when the copy is made and its event has not been flushed.
-/

namespace MemStream

def tally (n : Nat) (writes : List Write) : Nat :=
  (writes.map Prod.fst).count n

@[simp]
theorem tally_nil (n : Nat) : tally n [] = 0 := by
  rfl

@[simp]
theorem tally_append (n : Nat) (writes writes' : List Write)
    : tally n (writes ++ writes') = tally n writes + tally n writes' := by
  simp [tally]

theorem tally_cons (n : Nat) (e : Write) (writes : List Write)
    : tally n (e :: writes) = tally n [e] + tally n writes := by
  rw [← tally_append, List.singleton_append]

theorem tally_call (n calls : Nat) (entries : List AofEntry)
    : tally n (entries.map fun entry => (calls, entry))
        =
      if n = calls then entries.length else 0 := by
  unfold tally
  rw [List.map_map]
  induction entries with
  | nil => simp
  | cons entry entries ih =>
    rw [List.map_cons, List.count_cons, ih]
    by_cases h : n = calls
    . simp [h]
    . simp [h, Ne.symm h]

theorem tally_eq_zero {n : Nat} {writes : List Write} (h : ∀ e ∈ writes, e.1 ≠ n)
    : tally n writes = 0 := by
  unfold tally
  rw [List.count_eq_zero]
  intro hmem
  rcases List.mem_map.mp hmem with ⟨e, he, heq⟩
  exact h e he heq

theorem exists_of_tally_pos {n : Nat} {writes : List Write} (h : 0 < tally n writes)
    : ∃ e ∈ writes, e.1 = n := by
  have hmem := List.count_pos_iff.mp h
  rcases List.mem_map.mp hmem with ⟨e, he, heq⟩
  exact ⟨e, he, heq⟩

def HaPc.Avoids (addr : String) : HaPc → Prop
  | .idle | .receiving => True
  | .flushing _ followers => addr ∉ followers
  | .heartbeating addr' | .copying addr' | .syncing addr' _ => addr' ≠ addr

namespace Leader

variable {buildKey : String → UInt64 → UInt64} {addr : String} {s s' : Leader}

theorem delivered_push {follower : String} {events : List Write} {delivered : Bool}
    (h : s'.frames = if delivered then s.frames ++ [(follower, events)] else s.frames) (addr : String)
    : s'.delivered addr
        =
      s.delivered addr ++ if delivered = true ∧ follower = addr then events else [] := by
  unfold Leader.delivered
  rw [h]
  cases delivered with
  | true =>
    by_cases heq : follower = addr
    . simp [heq]
    . simp [heq]
  | false => simp

def inFlush (s : Leader) (addr : String) (n : Nat) : Nat :=
  match s.pc with
  | .flushing events followers => followers.count addr * tally n events
  | _ => 0

def inCopy (s : Leader) (addr : String) (n : Nat) : Nat :=
  match s.pc with
  | .syncing addr' copy => if addr' = addr then tally n copy else 0
  | _ => 0

/-- How often a write has been sent to the follower or may still be. -/
def chances (s : Leader) (addr : String) (n : Nat) : Nat :=
  tally n (s.delivered addr) + s.inFlush addr n + s.inCopy addr n + tally n s.rx
    + tally n s.ha.uncommittedEvents

structure AtMostOnce (addr : String) (s : Leader) : Prop where
  chances_le : ∀ n, s.chances addr n ≤ 1
  chances_fresh : ∀ n, s.calls ≤ n → s.chances addr n = 0
  lines_le : ∀ n, tally n s.file + tally n s.queue ≤ 1
  lines_fresh : ∀ n, s.calls ≤ n → tally n s.file + tally n s.queue = 0
  listed : s.ha.followers.count addr ≤ 1
  unlisted : s.pc = .heartbeating addr → s.ha.followers.count addr = 0
  unsent : s.pc = .heartbeating addr ∨ s.pc = .copying addr → s.delivered addr = []

structure Unregistered (addr : String) (s : Leader) : Prop where
  unsent : s.delivered addr = []
  unlisted : addr ∉ s.ha.followers
  avoids : s.pc.Avoids addr

theorem AtMostOnce.mono (h : AtMostOnce addr s) (hcalls : s'.calls = s.calls)
    (hchances : ∀ n, s'.chances addr n ≤ s.chances addr n)
    (hlines : ∀ n, tally n s'.file + tally n s'.queue ≤ tally n s.file + tally n s.queue)
    (hlisted : s'.ha.followers.count addr ≤ 1)
    (hunlisted : s'.pc = .heartbeating addr → s'.ha.followers.count addr = 0)
    (hunsent : s'.pc = .heartbeating addr ∨ s'.pc = .copying addr → s'.delivered addr = [])
    : AtMostOnce addr s' where
  chances_le := fun n => Nat.le_trans (hchances n) (h.chances_le n)
  chances_fresh := by
    intro n hn
    rw [hcalls] at hn
    have := h.chances_fresh n hn
    have := hchances n
    omega
  lines_le := fun n => Nat.le_trans (hlines n) (h.lines_le n)
  lines_fresh := by
    intro n hn
    rw [hcalls] at hn
    have := h.lines_fresh n hn
    have := hlines n
    omega
  listed := hlisted
  unlisted := hunlisted
  unsent := hunsent

theorem AtMostOnce.move (h : AtMostOnce addr s) {pc : HaPc}
    (hchances : ∀ n, { s with pc := pc }.chances addr n ≤ s.chances addr n)
    (hunlisted : pc = .heartbeating addr → s.ha.followers.count addr = 0)
    (hunsent : pc = .heartbeating addr ∨ pc = .copying addr → s.delivered addr = [])
    : AtMostOnce addr { s with pc := pc } :=
  h.mono rfl hchances (fun _ => Nat.le_refl _) h.listed hunlisted hunsent

theorem AtMostOnce.idle (h : AtMostOnce addr s) : AtMostOnce addr { s with pc := .idle } := by
  apply h.move
  . intro n
    simp only [chances, inFlush, inCopy, delivered]
    omega
  . simp
  . simp

theorem AtMostOnce.call (h : AtMostOnce addr s) (op : DB.Op) (env : Env)
    : AtMostOnce addr (s.call buildKey op env) := by
  have hevents := s.db.length_call_events buildKey env op
  have hlines := s.db.length_call_aof buildKey env op
  have hchances (n : Nat)
      : (s.call buildKey op env).chances addr n ≤ s.chances addr n + if n = s.calls then 1 else 0 := by
    simp only [chances, inFlush, inCopy, delivered, Leader.call, tally_append, tally_call]
    by_cases heq : n = s.calls
    . simp only [if_pos heq]
      omega
    . simp only [if_neg heq]
      omega
  have hqueue (n : Nat)
      : tally n (s.call buildKey op env).file + tally n (s.call buildKey op env).queue
          ≤ tally n s.file + tally n s.queue + if n = s.calls then 1 else 0 := by
    simp only [Leader.call, tally_append, tally_call]
    by_cases heq : n = s.calls
    . simp only [if_pos heq]
      omega
    . simp only [if_neg heq]
      omega
  refine ⟨?_, ?_, ?_, ?_, h.listed, h.unlisted, h.unsent⟩
  . intro n
    have hn := hchances n
    split at hn
    . next heq =>
      have := h.chances_fresh n (Nat.le_of_eq heq.symm)
      omega
    . have := h.chances_le n
      omega
  . intro n hn
    have hn : s.calls + 1 ≤ n := hn
    have hcall := hchances n
    rw [if_neg (by omega)] at hcall
    have := h.chances_fresh n (by omega)
    omega
  . intro n
    have hn := hqueue n
    split at hn
    . next heq =>
      have := h.lines_fresh n (Nat.le_of_eq heq.symm)
      omega
    . have := h.lines_le n
      omega
  . intro n hn
    have hn : s.calls + 1 ≤ n := hn
    have hcall := hqueue n
    rw [if_neg (by omega)] at hcall
    have := h.lines_fresh n (by omega)
    omega

theorem AtMostOnce.receive (h : AtMostOnce addr s) (hstep : s.receive = some s')
    : AtMostOnce addr s' := by
  rcases receive_eq_some hstep with ⟨e, rx, hpc, hrx, ⟨_, rfl⟩ | ⟨_, rfl⟩⟩
  . refine h.mono rfl ?_ (fun _ => Nat.le_refl _) h.listed (by simp) (by simp)
    intro n
    -- the events are taken to each follower once, and the follower is there at most once
    have hflush : s.ha.followers.count addr * tally n (s.ha.uncommittedEvents ++ [e])
        ≤ tally n (s.ha.uncommittedEvents ++ [e]) := by
      exact Nat.le_trans (Nat.mul_le_mul_right _ h.listed) (Nat.le_of_eq (Nat.one_mul _))
    rw [tally_append] at hflush
    simp only [chances, inFlush, inCopy, delivered, hpc, hrx, tally_cons n e rx, tally_append, tally_nil]
    omega
  . refine h.mono rfl ?_ (fun _ => Nat.le_refl _) h.listed (by simp) (by simp)
    intro n
    simp only [chances, inFlush, inCopy, delivered, hpc, hrx, tally_cons n e rx, tally_append]
    omega

theorem AtMostOnce.sync (h : AtMostOnce addr s) {delivered ok : Bool}
    (hstep : s.sync delivered ok = some s')
    : AtMostOnce addr s' := by
  rcases sync_eq_some hstep with ⟨events, follower, followers, hpc, rfl⟩
  refine h.mono rfl ?_ (fun _ => Nat.le_refl _) h.listed ?_ ?_
  . intro n
    have hcount : (follower :: followers).count addr * tally n events
        = followers.count addr * tally n events + if follower = addr then tally n events else 0 := by
      rw [List.count_cons, Nat.add_mul]
      by_cases heq : follower = addr
      . simp [heq]
      . simp [heq]
    unfold chances
    rw [delivered_push rfl, tally_append]
    simp only [inFlush, inCopy, hpc, hcount]
    have hsent : tally n (if delivered = true ∧ follower = addr then events else [])
        ≤ if follower = addr then tally n events else 0 := by
      by_cases heq : follower = addr
      . cases delivered with
        | true => simp [heq]
        | false => simp
      . simp [heq]
    cases ok with
    | true =>
      simp only [if_true]
      omega
    | false =>
      simp only [Bool.false_eq_true, if_false]
      omega
  . cases ok with
    | true => simp
    | false => simp
  . cases ok with
    | true => simp
    | false => simp

theorem AtMostOnce.heartbeat (h : AtMostOnce addr s) {ok : Bool} (hstep : s.heartbeat ok = some s')
    : AtMostOnce addr s' := by
  rcases heartbeat_eq_some hstep with ⟨addr', hpc, rfl | rfl⟩
  . refine h.mono rfl ?_ (fun _ => Nat.le_refl _) ?_ ?_ ?_
    . intro n
      simp only [chances, inFlush, inCopy, delivered, hpc]
      omega
    . show (s.ha.followers ++ [addr']).count addr ≤ 1
      rw [List.count_append, List.count_singleton]
      by_cases heq : addr' = addr
      . subst heq
        rw [h.unlisted hpc]
        simp
      . have := h.listed
        simp [heq, this]
    . simp
    . rintro (hheart | hcopy)
      . contradiction
      . cases hcopy
        exact h.unsent (.inl hpc)
  . exact h.idle

theorem AtMostOnce.syncCopy (h : AtMostOnce addr s) {delivered : Bool}
    (hstep : s.syncCopy delivered = some s')
    : AtMostOnce addr s' := by
  rcases syncCopy_eq_some hstep with ⟨addr', copy, hpc, rfl⟩
  refine h.mono rfl ?_ (fun _ => Nat.le_refl _) h.listed (by simp) (by simp)
  intro n
  unfold chances
  rw [delivered_push rfl, tally_append]
  simp only [inFlush, inCopy, hpc]
  by_cases heq : addr' = addr
  . cases delivered with
    | true =>
      simp only [heq, and_self, if_true]
      omega
    | false => simp
  . simp only [heq, and_false, if_false, tally_nil]
    omega

/-- When the file is copied for the follower, no write in it has an event that was not flushed. -/
def Caught (addr : String) (s : Leader) : Action → Prop
  | .copy true =>
    s.pc = .copying addr →
      ∀ e ∈ s.file, ∀ e' ∈ s.rx ++ s.ha.uncommittedEvents, e.1 ≠ e'.1
  | _ => True

theorem AtMostOnce.copy (h : AtMostOnce addr s) {ok : Bool} (hcaught : s.Caught addr (.copy ok))
    (hstep : s.copy ok = some s')
    : AtMostOnce addr s' := by
  rcases copy_eq_some hstep with ⟨addr', hpc, ⟨rfl, rfl⟩ | rfl⟩
  . by_cases heq : addr' = addr
    . subst heq
      have hunsent : { s with pc := .syncing addr' s.file }.delivered addr' = [] := h.unsent (.inr hpc)
      have hchances (n : Nat)
          : { s with pc := .syncing addr' s.file }.chances addr' n
              = tally n s.file + (tally n s.rx + tally n s.ha.uncommittedEvents) := by
        unfold chances
        rw [hunsent]
        simp only [inFlush, inCopy, if_true, tally_nil]
        omega
      have hevents (n : Nat) : tally n s.rx + tally n s.ha.uncommittedEvents ≤ s.chances addr' n := by
        unfold chances
        omega
      refine ⟨?_, ?_, h.lines_le, h.lines_fresh, h.listed, by simp, by simp⟩
      . intro n
        rw [hchances]
        have hline := h.lines_le n
        have hevent := h.chances_le n
        have hle := hevents n
        by_cases hfile : tally n s.file = 0
        . omega
        . rcases exists_of_tally_pos (Nat.pos_of_ne_zero hfile) with ⟨e, hmem, rfl⟩
          have hnone : tally e.1 (s.rx ++ s.ha.uncommittedEvents) = 0 := by
            apply tally_eq_zero
            intro e' hmem'
            exact (hcaught hpc e hmem e' hmem').symm
          rw [tally_append] at hnone
          omega
      . intro n hn
        rw [hchances]
        have hline := h.lines_fresh n hn
        have hevent := h.chances_fresh n hn
        have hle := hevents n
        omega
    . apply h.move
      . intro n
        simp only [chances, inFlush, inCopy, delivered, heq, if_false]
        omega
      . simp
      . simp
  . exact h.idle

theorem AtMostOnce.step (h : AtMostOnce addr s) {a : Action} (hcaught : s.Caught addr a)
    (hregister : a = .register addr → s.Unregistered addr) (hstep : s.step buildKey a = some s')
    : AtMostOnce addr s' := by
  cases a with
  | call op env =>
    cases hstep
    exact h.call op env
  | writeLine ok =>
    rcases writeLine_eq_some hstep with ⟨e, queue, hqueue, rfl | rfl⟩
    . refine h.mono rfl (fun _ => Nat.le_refl _) ?_ h.listed h.unlisted h.unsent
      intro n
      show tally n (s.file ++ [e]) + tally n queue ≤ tally n s.file + tally n s.queue
      rw [hqueue, tally_cons n e queue, tally_append]
      omega
    . refine h.mono rfl (fun _ => Nat.le_refl _) ?_ h.listed h.unlisted h.unsent
      intro n
      show tally n s.file + tally n queue ≤ tally n s.file + tally n s.queue
      rw [hqueue, tally_cons n e queue]
      omega
  | start =>
    rcases start_eq_some hstep with ⟨hpc, rfl⟩
    apply h.move
    . intro n
      simp only [chances, inFlush, inCopy, delivered]
      omega
    . simp
    . simp
  | receive => exact h.receive hstep
  | sync delivered ok => exact h.sync hstep
  | finish =>
    rcases finish_eq_some hstep with ⟨events, _, rfl⟩
    exact h.idle
  | register addr' =>
    rcases register_eq_some hstep with ⟨hpc, rfl⟩
    apply h.move
    . intro n
      simp only [chances, inFlush, inCopy, delivered]
      omega
    . intro hheart
      cases hheart
      exact List.count_eq_zero.mpr (hregister rfl).unlisted
    . rintro (hheart | hcopy)
      . cases hheart
        exact (hregister rfl).unsent
      . contradiction
  | heartbeat ok => exact h.heartbeat hstep
  | copy ok => exact h.copy hcaught hstep
  | syncCopy delivered => exact h.syncCopy hstep
  | remove addr' =>
    cases hstep
    have hfollowers : (s.ha.followers.filter (· ≠ addr')).count addr ≤ s.ha.followers.count addr :=
      List.Sublist.count_le addr List.filter_sublist
    refine h.mono rfl (fun _ => Nat.le_refl _) (fun _ => Nat.le_refl _) ?_ ?_ h.unsent
    . exact Nat.le_trans hfollowers h.listed
    . intro hheart
      have hzero := h.unlisted hheart
      exact Nat.le_zero.mp (Nat.le_trans hfollowers (Nat.le_of_eq hzero))

theorem Unregistered.step (h : Unregistered addr s) {a : Action} (ha : a ≠ .register addr)
    (hstep : s.step buildKey a = some s')
    : Unregistered addr s' := by
  cases a with
  | call op env =>
    cases hstep
    exact ⟨h.unsent, h.unlisted, h.avoids⟩
  | writeLine ok =>
    rcases writeLine_eq_some hstep with ⟨e, queue, _, rfl | rfl⟩
    . exact ⟨h.unsent, h.unlisted, h.avoids⟩
    . exact ⟨h.unsent, h.unlisted, h.avoids⟩
  | start =>
    rcases start_eq_some hstep with ⟨_, rfl⟩
    exact ⟨h.unsent, h.unlisted, trivial⟩
  | receive =>
    rcases receive_eq_some hstep with ⟨e, rx, _, _, ⟨_, rfl⟩ | ⟨_, rfl⟩⟩
    . exact ⟨h.unsent, h.unlisted, h.unlisted⟩
    . exact ⟨h.unsent, h.unlisted, trivial⟩
  | sync delivered ok =>
    rcases sync_eq_some hstep with ⟨events, follower, followers, hpc, rfl⟩
    have havoids := h.avoids
    rw [hpc] at havoids
    have hne : follower ≠ addr := by
      rintro rfl
      exact havoids (by simp)
    refine ⟨?_, h.unlisted, ?_⟩
    . rw [delivered_push rfl, h.unsent, if_neg (fun hand => hne hand.2), List.nil_append]
    . cases ok with
      | true => exact fun hmem => havoids (List.mem_cons_of_mem _ hmem)
      | false => trivial
  | finish =>
    rcases finish_eq_some hstep with ⟨events, _, rfl⟩
    exact ⟨h.unsent, h.unlisted, trivial⟩
  | register addr' =>
    rcases register_eq_some hstep with ⟨_, rfl⟩
    refine ⟨h.unsent, h.unlisted, ?_⟩
    rintro rfl
    exact ha rfl
  | heartbeat ok =>
    rcases heartbeat_eq_some hstep with ⟨addr', hpc, rfl | rfl⟩
    . have hne : addr' ≠ addr := by
        have havoids := h.avoids
        rw [hpc] at havoids
        exact havoids
      refine ⟨h.unsent, ?_, hne⟩
      intro hmem
      rcases List.mem_append.mp hmem with hold | hnew
      . exact h.unlisted hold
      . exact hne (List.mem_singleton.mp hnew).symm
    . exact ⟨h.unsent, h.unlisted, trivial⟩
  | copy ok =>
    rcases copy_eq_some hstep with ⟨addr', hpc, ⟨_, rfl⟩ | rfl⟩
    . have havoids := h.avoids
      rw [hpc] at havoids
      exact ⟨h.unsent, h.unlisted, havoids⟩
    . exact ⟨h.unsent, h.unlisted, trivial⟩
  | syncCopy delivered =>
    rcases syncCopy_eq_some hstep with ⟨addr', copy, hpc, rfl⟩
    have havoids := h.avoids
    rw [hpc] at havoids
    refine ⟨?_, h.unlisted, trivial⟩
    rw [delivered_push rfl, h.unsent, if_neg (fun hand => havoids hand.2), List.nil_append]
  | remove addr' =>
    cases hstep
    exact ⟨h.unsent, fun hmem => h.unlisted (List.mem_of_mem_filter hmem), h.avoids⟩

theorem tally_zip_range (n : Nat) (old : List AofEntry)
    : tally n ((List.range old.length).zip old) = if n < old.length then 1 else 0 := by
  unfold tally
  rw [List.map_fst_zip (by simp), List.nodup_range.count]
  simp

theorem atMostOnce_new (addr : String) (db : DB) (eventBufferSize : Option Nat) (old : List AofEntry)
    : AtMostOnce addr (new db eventBufferSize old) where
  chances_le := by simp [new, HaManager.new, chances, inFlush, inCopy, delivered]
  chances_fresh := by simp [new, HaManager.new, chances, inFlush, inCopy, delivered]
  lines_le := by
    intro n
    simp only [new, tally_nil, tally_zip_range]
    split
    . omega
    . omega
  lines_fresh := by
    intro n hn
    have hn : old.length ≤ n := hn
    simp only [new, tally_nil, tally_zip_range]
    rw [if_neg (by omega)]
  listed := by simp [new, HaManager.new]
  unlisted := by simp [new]
  unsent := by simp [new]

theorem unregistered_new (addr : String) (db : DB) (eventBufferSize : Option Nat) (old : List AofEntry)
    : Unregistered addr (new db eventBufferSize old) where
  unsent := rfl
  unlisted := by simp [new, HaManager.new]
  avoids := trivial

theorem delivered_nodup_of_caught (buildKey : String → UInt64 → UInt64) (db : DB)
    (eventBufferSize : Option Nat) (old : List AofEntry) {before after : List Action}
    (hbefore : .register addr ∉ before) (hafter : .register addr ∉ after)
    (hrun : Trace.run (step buildKey) (new db eventBufferSize old)
      (before ++ .register addr :: after) = some s)
    (hcaught : Trace.Along (step buildKey) (Caught addr) (new db eventBufferSize old)
      (before ++ .register addr :: after))
    : ((s.delivered addr).map Prod.fst).Nodup := by
  rcases Trace.run_append.mp hrun with ⟨t, ht, hrest⟩
  rcases Trace.run_cons_eq_some.mp hrest with ⟨u, hu, hlast⟩
  have ⟨hfirst, hsecond⟩ := Trace.along_of_append hcaught ht
  have hne {actions : List Action} (hactions : .register addr ∉ actions) (a : Action)
      (hmem : a ∈ actions) : a ≠ .register addr := by
    rintro rfl
    exact hactions hmem
  -- before the registration, with the registration, and behind it
  have hunregistered : AtMostOnce addr t ∧ Unregistered addr t := by
    have hstart := And.intro (atMostOnce_new addr db eventBufferSize old)
      (unregistered_new addr db eventBufferSize old)
    have hkeep (s : Leader) (a : Action) (s' : Leader) (h : AtMostOnce addr s ∧ Unregistered addr s)
        (ha : s.Caught addr a ∧ a ≠ .register addr) (hstep : s.step buildKey a = some s')
        : AtMostOnce addr s' ∧ Unregistered addr s' :=
      ⟨h.1.step ha.1 (fun heq => absurd heq ha.2) hstep, h.2.step ha.2 hstep⟩
    exact Trace.inv_of_along hkeep hstart (Trace.along_and_mem hfirst (hne hbefore)) ht
  have hregistered : AtMostOnce addr u :=
    hunregistered.1.step hsecond.1 (fun _ => hunregistered.2) hu
  have hend : AtMostOnce addr s := by
    have hkeep (s : Leader) (a : Action) (s' : Leader) (h : AtMostOnce addr s)
        (ha : s.Caught addr a ∧ a ≠ .register addr) (hstep : s.step buildKey a = some s')
        : AtMostOnce addr s' :=
      h.step ha.1 (fun heq => absurd heq ha.2) hstep
    exact Trace.inv_of_along hkeep hregistered
      (Trace.along_and_mem (hsecond.2 u hu) (hne hafter)) hlast
  rw [List.nodup_iff_count_le_one]
  intro n
  have hle := hend.chances_le n
  unfold chances tally at hle
  omega

def eager : Leader :=
  new ⟨⟨KvStore.new, SegList.blank.grown, GroupManager.new⟩, [], some []⟩ (some 1) []

def setWrite : List Action :=
  [.call (.kvSet "d" "k" [1] 0) Env.steady, .writeLine true]

def registered : List Action :=
  .heartbeat true :: .copy true
    :: (.syncCopy true :: (setWrite ++ [.start, .receive, .sync true true, .finish]))

theorem delivered_nodup_flushed_before
    : ∃ s,
        Trace.run (step fun _ id => id) eager
            ((setWrite ++ [.start, .receive, .finish]) ++ .register "f" :: registered)
            = some s
          ∧ (s.delivered "f").map Prod.fst = [0, 1]
          ∧ ((s.delivered "f").map Prod.fst).Nodup := by
  have hmap : (Trace.run (step fun _ id => id) eager
        ((setWrite ++ [.start, .receive, .finish]) ++ .register "f" :: registered)).map
          (fun s => (s.delivered "f").map Prod.fst)
      = some [0, 1] := by
    rfl
  rcases Option.map_eq_some_iff.mp hmap with ⟨s, hs, hdelivered⟩
  refine ⟨s, hs, hdelivered, ?_⟩
  refine delivered_nodup_of_caught (fun _ id => id) _ (some 1) [] ?_ ?_ hs ?_
  . simp [setWrite]
  . simp [registered, setWrite]
  . refine Trace.along_append ?_ rfl ?_
    . apply Trace.along_of_mem
      simp [setWrite, Caught]
    . apply Trace.along_cons rfl trivial
      apply Trace.along_cons rfl trivial
      apply Trace.along_cons rfl
      . intro _ e _ e' hmem
        contradiction
      . apply Trace.along_of_mem
        simp [setWrite, Caught]

-- The write is in the file already, and its event is still in the channel.
theorem delivered_twice_if_not_flushed
    : ∃ s,
        Trace.run (step fun _ id => id) eager
            (setWrite
              ++ .register "f"
              :: [.heartbeat true, .copy true, .syncCopy true, .start, .receive, .sync true true,
                .finish])
            = some s
          ∧ s.delivered "f" = [(0, .kvSet "d" "k" [1] 0), (0, .kvSet "d" "k" [1] 0)]
          ∧ ¬((s.delivered "f").map Prod.fst).Nodup := by
  refine ⟨_, rfl, rfl, ?_⟩
  intro hnodup
  have hcount := List.nodup_iff_count_le_one.mp hnodup 0
  contradiction

end Leader
end MemStream
