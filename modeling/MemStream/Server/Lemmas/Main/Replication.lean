import MemStream.Db.Lemmas.Db.Run
import MemStream.Server.Lemmas.Main.Steps

namespace MemStream

namespace HaPc

def isFlushing : HaPc → Bool
  | .flushing .. => true
  | _ => false

def inStart : HaPc → Bool
  | .receiving | .flushing .. => true
  | _ => false

end HaPc

namespace Leader

def sent (s : Leader) : Nat :=
  (s.db.events.getD []).length

def pending (s : Leader) : Nat :=
  s.rx.length + s.ha.uncommittedEvents.length

theorem sent_call (buildKey : String → UInt64 → UInt64) (s : Leader) (op : DB.Op) (env : Env)
    : (s.call buildKey op env).sent + s.rx.length = s.sent + (s.call buildKey op env).rx.length := by
  simp only [sent, call, List.length_append, List.length_map, List.length_drop]
  rcases s.db.call_events buildKey env op with hsame | ⟨entry, hnew⟩
  . rw [hsame]
    omega
  . rw [hnew]
    cases s.db.events with
    | none => simp
    | some events =>
      simp only [Option.map_some, Option.getD_some, List.length_append, List.length_singleton]
      omega

end Leader

namespace Process

variable {buildKey : String → UInt64 → UInt64} {size : Option Nat} {s s' : Process}

def Stuck (buildKey : String → UInt64 → UInt64) (s : Process) : Prop :=
  ∀ a, a.ofEventLoop = true → s.step buildKey a = none

def tickets (s : Process) : Nat :=
  s.waiting.count .eventLoop + if s.holder = some .eventLoop then 1 else 0

def taken (s : Process) : Nat :=
  if s.task = .finished ∨ s.core.pc.isFlushing = true then 1 else 0

structure Once (size : Option Nat) (s : Process) : Prop where
  size_eq : s.core.ha.eventBufferSize = size
  tickets_eq : s.tickets = if s.task = .asked then 1 else 0
  inStart : s.core.pc.inStart = true → s.holder = some .eventLoop
  sent_eq : s.core.sent = s.core.rx.length + s.taken
  buffer_eq : s.core.ha.uncommittedEvents.length = if 2 ≤ size.getD 100 then s.taken else 0

theorem Once.task_eq (h : Once size s) (hholder : s.holder = some .eventLoop) : s.task = .asked := by
  have htickets := h.tickets_eq
  unfold tickets at htickets
  rw [if_pos hholder] at htickets
  split at htickets
  . assumption
  . omega

theorem Once.inStart_eq (h : Once size s) (hholder : s.holder ≠ some .eventLoop)
    : s.core.pc.inStart = false := by
  rw [Bool.eq_false_iff]
  intro hpc
  apply hholder (h.inStart hpc)

theorem isFlushing_of_inStart {pc : HaPc} (h : pc.inStart = false) : pc.isFlushing = false := by
  cases pc with
  | flushing events followers => contradiction
  | _ => rfl

theorem Once.frame (h : Once size s) (hsize : s'.core.ha.eventBufferSize = s.core.ha.eventBufferSize)
    (htask : s'.task = s.task) (htickets : s'.tickets = s.tickets)
    (hpc : s'.core.pc = s.core.pc ∨ s.core.pc.inStart = false ∧ s'.core.pc.inStart = false)
    (hholder : s'.holder = some .eventLoop ↔ s.holder = some .eventLoop)
    (hsent : s'.core.sent + s.core.rx.length = s.core.sent + s'.core.rx.length)
    (hbuffer : s'.core.ha.uncommittedEvents = s.core.ha.uncommittedEvents)
    : Once size s' := by
  have htaken : s'.taken = s.taken := by
    unfold taken
    rw [htask]
    rcases hpc with heq | ⟨hold, hnew⟩
    . rw [heq]
    . rw [isFlushing_of_inStart hold, isFlushing_of_inStart hnew]
  refine ⟨?_, ?_, ?_, ?_, ?_⟩
  . rw [hsize]
    apply h.size_eq
  . rw [htickets, htask]
    apply h.tickets_eq
  . intro hin
    rw [hholder]
    rcases hpc with heq | ⟨_, hnew⟩
    . apply h.inStart
      rw [← heq]
      assumption
    . rw [hnew] at hin
      contradiction
  . have := h.sent_eq
    omega
  . rw [hbuffer, htaken]
    apply h.buffer_eq

theorem Once.inEventLoop (h : Once size s) {core : Leader} (hstep : s.inEventLoop (some core) = some s')
    (hsize : core.ha.eventBufferSize = size) (hpc : core.pc = .idle ∨ core.pc.isFlushing = true)
    (hsent : core.sent = core.rx.length + 1)
    (hbuffer : core.ha.uncommittedEvents.length = if 2 ≤ size.getD 100 then 1 else 0)
    : Once size s' := by
  rcases inEventLoop_eq_some hstep with ⟨core, heq, hholder, hend⟩
  cases heq
  have htask := h.task_eq hholder
  have htickets := h.tickets_eq
  rw [if_pos htask] at htickets
  rcases hend with ⟨hidle, rfl⟩ | ⟨hbusy, rfl⟩
  . have htaken : { s with core := core, task := .finished, holder := none }.taken = 1 := by
      simp [taken]
    refine ⟨hsize, ?_, ?_, ?_, ?_⟩
    . simp only [tickets, hholder, if_true] at htickets
      simp [tickets]
      omega
    . rw [hidle]
      simp [HaPc.inStart]
    . rw [htaken]
      assumption
    . rw [htaken]
      assumption
  . have hflushing : core.pc.isFlushing = true := by
      apply hpc.resolve_left
      assumption
    have htaken : { s with core := core }.taken = 1 := by
      simp [taken, hflushing]
    refine ⟨hsize, ?_, ?_, ?_, ?_⟩
    . show s.tickets = if s.task = .asked then 1 else 0
      apply h.tickets_eq
    . intro
      assumption
    . rw [htaken]
      assumption
    . rw [htaken]
      assumption

theorem Once.receive (h : Once size s) (hstep : s.inEventLoop s.core.receive = some s')
    : Once size s' := by
  rcases inEventLoop_eq_some hstep with ⟨core, heq, hholder, _⟩
  rw [heq] at hstep
  rcases Leader.receive_eq_some heq with ⟨e, rx, hpc, hrx, hcore⟩
  have htaken : s.taken = 0 := by
    simp [taken, h.task_eq hholder, hpc, HaPc.isFlushing]
  have hsize := h.size_eq
  have hsent := h.sent_eq
  rw [htaken, hrx, List.length_cons, Nat.add_zero] at hsent
  have hbuffer := h.buffer_eq
  rw [htaken] at hbuffer
  have hempty : s.core.ha.uncommittedEvents.length = 0 := by
    split at hbuffer
    . assumption
    . assumption
  rw [hempty, hsize] at hcore
  rcases hcore with ⟨hfull, rfl⟩ | ⟨hroom, rfl⟩
  . apply h.inEventLoop hstep hsize (.inr rfl) hsent
    rw [if_neg (by omega)]
    rfl
  . apply h.inEventLoop hstep hsize (.inl rfl) hsent
    rw [if_pos (by omega), List.length_append, hempty]
    rfl

theorem Once.taken_eq (h : Once size s) (hpc : s.core.pc.isFlushing = true)
    : s.core.sent = s.core.rx.length + 1
        ∧ s.core.ha.uncommittedEvents.length = if 2 ≤ size.getD 100 then 1 else 0 := by
  have htaken : s.taken = 1 := by
    simp [taken, hpc]
  have hsent := h.sent_eq
  have hbuffer := h.buffer_eq
  rw [htaken] at hsent hbuffer
  exact ⟨hsent, hbuffer⟩

theorem Once.sync (h : Once size s) {delivered ok : Bool}
    (hstep : s.inEventLoop (s.core.sync delivered ok) = some s')
    : Once size s' := by
  rcases inEventLoop_eq_some hstep with ⟨core, heq, hholder, _⟩
  rw [heq] at hstep
  rcases Leader.sync_eq_some heq with ⟨events, follower, followers, hpc, rfl⟩
  rcases h.taken_eq (by rw [hpc]; rfl) with ⟨hsent, hbuffer⟩
  apply h.inEventLoop hstep h.size_eq _ hsent hbuffer
  cases ok with
  | true => exact .inr rfl
  | false => exact .inl rfl

theorem Once.finish (h : Once size s) (hstep : s.inEventLoop s.core.finish = some s')
    : Once size s' := by
  rcases inEventLoop_eq_some hstep with ⟨core, heq, hholder, _⟩
  rw [heq] at hstep
  rcases Leader.finish_eq_some heq with ⟨events, hpc, rfl⟩
  rcases h.taken_eq (by rw [hpc]; rfl) with ⟨hsent, hbuffer⟩
  exact h.inEventLoop hstep h.size_eq (.inl rfl) hsent hbuffer

theorem Once.ask (h : Once size s) {caller : Caller} (hstep : s.ask caller = some s')
    : Once size s' := by
  rcases ask_eq_some hstep with ⟨task, main, rfl, hcaller⟩
  have htickets := h.tickets_eq
  unfold tickets at htickets
  rcases hcaller with ⟨rfl, htask, rfl, rfl⟩ | ⟨rfl, _, rfl, rfl⟩ | ⟨hne, _, rfl, rfl⟩
  . have htaken
        : { s with task := TaskPc.asked, waiting := s.waiting ++ [Caller.eventLoop] }.taken = s.taken := by
      simp [taken, htask]
    refine ⟨h.size_eq, ?_, h.inStart, ?_, ?_⟩
    . simp only [htask, reduceCtorEq, if_false] at htickets
      simp only [tickets, List.count_append, List.count_singleton_self, if_true]
      omega
    . rw [htaken]
      apply h.sent_eq
    . rw [htaken]
      apply h.buffer_eq
  . refine h.frame rfl rfl ?_ (.inl rfl) Iff.rfl rfl rfl
    simp [tickets]
  . refine h.frame rfl rfl ?_ (.inl rfl) Iff.rfl rfl rfl
    simp [tickets, hne]

theorem Once.lock (h : Once size s) {caller : Caller} (hstep : s.lock caller = some s')
    : Once size s' := by
  rcases lock_eq_some hstep with ⟨waiting, core, hholder, hwaiting, henter, rfl⟩
  have hout : s.core.pc.inStart = false := by
    apply h.inStart_eq
    rw [hholder]
    simp
  cases caller with
  | eventLoop =>
    rcases Leader.start_eq_some henter with ⟨hpc, rfl⟩
    have htaken
        : { s with
              core := { s.core with pc := .receiving }
              holder := some Caller.eventLoop
              waiting := waiting }.taken
            = s.taken := by
      simp [taken, hpc, HaPc.isFlushing]
    refine ⟨h.size_eq, ?_, fun _ => rfl, ?_, ?_⟩
    . have htickets := h.tickets_eq
      simp only [tickets, hholder, hwaiting, List.count_cons_self] at htickets
      simp only [tickets, if_true]
      rw [← htickets]
      simp
    . rw [htaken]
      apply h.sent_eq
    . rw [htaken]
      apply h.buffer_eq
  | main =>
    cases henter
    refine h.frame rfl rfl ?_ (.inl rfl) ?_ rfl rfl
    . simp [tickets, hholder, hwaiting]
    . simp [hholder]
  | register client addr =>
    rcases Leader.register_eq_some henter with ⟨_, rfl⟩
    refine h.frame rfl rfl ?_ (.inr ⟨hout, rfl⟩) ?_ rfl rfl
    . simp [tickets, hholder, hwaiting]
    . simp [hholder]
  | heartbeat client =>
    cases henter
    refine h.frame rfl rfl ?_ (.inl rfl) ?_ rfl rfl
    . simp [tickets, hholder, hwaiting]
    . simp [hholder]

theorem Once.release (h : Once size s) {caller : Caller} (hholder : s.holder = some caller)
    (hne : caller ≠ .eventLoop) (hsize : s'.core.ha.eventBufferSize = s.core.ha.eventBufferSize)
    (htask : s'.task = s.task) (hwaiting : s'.waiting = s.waiting)
    (hpc : s'.core.pc.inStart = false) (hholder' : s'.holder = none ∨ s'.holder = s.holder)
    (hsent : s'.core.sent = s.core.sent) (hrx : s'.core.rx = s.core.rx)
    (hbuffer : s'.core.ha.uncommittedEvents = s.core.ha.uncommittedEvents)
    : Once size s' := by
  have hother : s.holder ≠ some .eventLoop := by
    rw [hholder]
    simpa using hne
  have hother' : s'.holder ≠ some .eventLoop := by
    rcases hholder' with hnone | hsame
    . rw [hnone]
      simp
    . rw [hsame]
      assumption
  refine h.frame hsize htask ?_ (.inr ⟨h.inStart_eq hother, hpc⟩) ?_ ?_ hbuffer
  . simp [tickets, hwaiting, hother, hother']
  . simp [hother, hother']
  . rw [hsent, hrx]

theorem Once.release_same (h : Once size s) {caller : Caller} (hholder : s.holder = some caller)
    (hne : caller ≠ .eventLoop) (hcore : s'.core = s.core) (htask : s'.task = s.task)
    (hwaiting : s'.waiting = s.waiting) (hholder' : s'.holder = none)
    : Once size s' := by
  have hpc : s'.core.pc.inStart = false := by
    rw [hcore]
    apply h.inStart_eq
    rw [hholder]
    simpa using hne
  apply h.release hholder hne (by rw [hcore]) htask hwaiting hpc (.inl hholder')
  . rw [hcore]
  . rw [hcore]
  . rw [hcore]

theorem Once.inRegister (h : Once size s) {core : Leader} {ok : Bool}
    (hstep : s.inRegister (some core) ok = some s')
    (hsize : core.ha.eventBufferSize = s.core.ha.eventBufferSize) (hpc : core.pc.inStart = false)
    (hsent : core.sent = s.core.sent) (hrx : core.rx = s.core.rx)
    (hbuffer : core.ha.uncommittedEvents = s.core.ha.uncommittedEvents)
    : Once size s' := by
  rcases inRegister_eq_some hstep with ⟨core, client, addr, heq, hholder, hend⟩
  cases heq
  rcases hend with ⟨_, rfl⟩ | ⟨_, rfl⟩
  . exact h.release hholder (by simp) hsize rfl rfl hpc (.inl rfl) hsent hrx hbuffer
  . exact h.release hholder (by simp) hsize rfl rfl hpc (.inr rfl) hsent hrx hbuffer

theorem Once.heartbeat (h : Once size s) {ok : Bool}
    (hstep : s.inRegister (s.core.heartbeat ok) ok = some s')
    : Once size s' := by
  rcases inRegister_eq_some hstep with ⟨core, _, _, heq, _, _⟩
  rw [heq] at hstep
  rcases Leader.heartbeat_eq_some heq with ⟨addr, _, rfl | rfl⟩
  . exact h.inRegister hstep rfl rfl rfl rfl rfl
  . exact h.inRegister hstep rfl rfl rfl rfl rfl

theorem Once.copy (h : Once size s) {ok : Bool} (hstep : s.inRegister (s.core.copy ok) ok = some s')
    : Once size s' := by
  rcases inRegister_eq_some hstep with ⟨core, _, _, heq, _, _⟩
  rw [heq] at hstep
  rcases Leader.copy_eq_some heq with ⟨addr, _, ⟨_, rfl⟩ | rfl⟩
  . exact h.inRegister hstep rfl rfl rfl rfl rfl
  . exact h.inRegister hstep rfl rfl rfl rfl rfl

theorem Once.syncCopy (h : Once size s) {delivered : Bool}
    (hstep : s.inRegister (s.core.syncCopy delivered) true = some s')
    : Once size s' := by
  rcases inRegister_eq_some hstep with ⟨core, _, _, heq, _, _⟩
  rw [heq] at hstep
  rcases Leader.syncCopy_eq_some heq with ⟨addr, copy, _, rfl⟩
  exact h.inRegister hstep rfl rfl rfl rfl rfl

theorem Once.step (h : Once size s) {a : Action} (hstep : s.step buildKey a = some s')
    : Once size s' := by
  have hact := (step_eq_some hstep).2
  cases a with
  | call op env =>
    simp only [act, Option.ite_none_right_eq_some, Option.some.injEq] at hact
    rcases hact with ⟨_, rfl⟩
    exact h.frame rfl rfl rfl (.inl rfl) Iff.rfl (s.core.sent_call buildKey op env) rfl
  | applyAof entries =>
    simp only [act, Option.ite_none_right_eq_some, Option.some.injEq] at hact
    rcases hact with ⟨_, rfl⟩
    refine h.frame rfl rfl rfl (.inl rfl) Iff.rfl ?_ rfl
    simp only [Leader.sent, DB.applyAof_events]
  | writeLine ok =>
    rcases Option.map_eq_some_iff.mp hact with ⟨core, hcore, rfl⟩
    rcases Leader.writeLine_eq_some hcore with ⟨e, queue, _, rfl | rfl⟩
    . exact h.frame rfl rfl rfl (.inl rfl) Iff.rfl rfl rfl
    . exact h.frame rfl rfl rfl (.inl rfl) Iff.rfl rfl rfl
  | remove addr =>
    simp only [act, Option.ite_none_right_eq_some, Option.some.injEq] at hact
    rcases hact with ⟨_, rfl⟩
    exact h.frame rfl rfl rfl (.inl rfl) Iff.rfl rfl rfl
  | ask caller => apply h.ask hact
  | lock caller => apply h.lock hact
  | receive => apply h.receive hact
  | sync delivered ok => apply h.sync hact
  | finish => apply h.finish hact
  | heartbeat ok => apply h.heartbeat hact
  | copy ok => apply h.copy hact
  | syncCopy delivered => apply h.syncCopy hact
  | ackHeartbeat =>
    rcases ackHeartbeat_eq_some hact with ⟨client, hholder, rfl⟩
    exact h.release_same hholder (by simp) rfl rfl rfl rfl
  | heartbeatFollowers =>
    rcases heartbeatFollowers_eq_some hact with ⟨hholder, _, _, rfl⟩
    exact h.release_same hholder (by simp) rfl rfl rfl rfl
  | connect ok =>
    rcases connect_eq_some hact with ⟨_, _, rfl⟩
    exact h.frame rfl rfl rfl (.inl rfl) Iff.rfl rfl rfl
  | answer ok =>
    rcases answer_eq_some hact with ⟨hholder, _, rfl⟩
    exact h.release_same hholder (by simp) rfl rfl rfl rfl
  | bind ok =>
    rcases bind_eq_some hact with ⟨_, rfl⟩
    exact h.frame rfl rfl rfl (.inl rfl) Iff.rfl rfl rfl

theorem once_new {conf : ReplicaConf} {db : DB} {old : List AofEntry} (hdb : db.events = some [])
    (h : new conf db old = some s)
    : Once conf.eventBufferSize s := by
  rcases new_eq_some h with ⟨task, main, hasked, hfinished, _, rfl⟩
  refine ⟨rfl, ?_, ?_, ?_, ?_⟩
  . simp [tickets, hasked]
  . simp [Leader.new, HaPc.inStart]
  . simp [Leader.sent, Leader.new, taken, hdb, hfinished, HaPc.isFlushing]
  . simp [Leader.new, HaManager.new, taken, hfinished, HaPc.isFlushing]

-- Only a process that serves sends events.
def Silent (s : Process) : Prop :=
  s.main = .serving ∨ s.core.sent = 0

theorem Silent.mono (h : Silent s) (hdb : s'.core.db = s.core.db)
    (hmain : s.main = .serving → s'.main = .serving)
    : Silent s' := by
  rcases h with hserving | hsent
  . exact .inl (hmain hserving)
  . right
    unfold Leader.sent
    rw [hdb]
    assumption

theorem Silent.step (h : Silent s) {a : Action} (hstep : s.step buildKey a = some s') : Silent s' := by
  cases effect_of_step hstep with
  | inside _ core hdb _ =>
    rcases hdb with hmain | hdb
    . exact .inl hmain
    . exact h.mono hdb id
  | ask caller _ hask =>
    rcases ask_eq_some hask with ⟨task, main, rfl, hcaller⟩
    refine h.mono rfl ?_
    intro hmain
    rcases hcaller with ⟨_, _, _, rfl⟩ | ⟨_, hspawned, _, _⟩ | ⟨_, _, _, rfl⟩
    . assumption
    . rw [hspawned] at hmain
      contradiction
    . assumption
  | lock caller core waiting _ _ hdb => exact h.mono hdb id
  | finished _ core _ hdb => exact h.mono hdb id
  | answered _ core client addr ok _ hdb => exact h.mono hdb id
  | acked client _ => exact h.mono rfl id
  | heartbeatFollowers _ _ hmain =>
    refine h.mono rfl ?_
    simp [hmain]
  | connect ok hmain =>
    refine h.mono rfl ?_
    simp [hmain]
  | answer ok _ hmain =>
    refine h.mono rfl ?_
    simp [hmain]
  | bind ok hmain =>
    refine h.mono rfl ?_
    simp [hmain]

theorem Once.not_flushing (h : Once size s) (hsilent : Silent s) (hstuck : s.Stuck buildKey)
    : s.core.pc.isFlushing = false := by
  rw [Bool.eq_false_iff]
  intro hflushing
  have hmain : s.main = .serving := by
    apply hsilent.resolve_right
    have := (h.taken_eq hflushing).1
    omega
  have hact (a : Action) (ha : a.ofEventLoop = true) : s.act buildKey a = none := by
    have hnone := hstuck a ha
    simp only [Process.step, hmain] at hnone
    assumption
  cases hpc : s.core.pc with
  | flushing events followers =>
    have hholder : s.holder = some .eventLoop := by
      apply h.inStart
      rw [hpc]
      rfl
    cases followers with
    | nil =>
      have hfinish := hact .finish rfl
      simp [act, Leader.finish, hpc, Process.inEventLoop, hholder] at hfinish
    | cons follower followers =>
      have hsync := hact (.sync true true) rfl
      simp [act, Leader.sync, hpc, Process.inEventLoop, hholder] at hsync
  | _ =>
    rw [hpc] at hflushing
    contradiction

/--
The event loop takes one event and is over with it. Nothing but this event is ever taken out of what is
pending, and it is only if it fills the buffer alone.
-/
theorem pending_lt_iff {fromStr : String → Option AofEntry} {alloc : Bool} {file : Option (List UInt8)}
    {schedule : List (AofEntry × Env)} {db : DB} {conf : ReplicaConf} {old : List AofEntry} {t : Process}
    {actions : List Action} (hdb : DB.startUp buildKey fromStr alloc (some []) file schedule = .ok db)
    (hnew : new conf db old = some s) (hrun : Trace.run (step buildKey) s actions = some t)
    (hover : t.task = .finished ∨ t.Stuck buildKey)
    : t.core.pending < conf.eventBufferSize.getD 100
        ↔
      t.core.sent < conf.eventBufferSize.getD 100
        ∨ conf.eventBufferSize.getD 100 = 1 ∧ t.core.sent = 1 ∧ t.task = .finished := by
  have hevents := DB.startUp_events buildKey fromStr hdb
  have hinit : Once conf.eventBufferSize s ∧ Silent s := by
    refine ⟨once_new hevents hnew, ?_⟩
    rcases new_eq_some hnew with ⟨task, main, _, _, _, rfl⟩
    right
    simp [Leader.sent, Leader.new, hevents]
  have hkeep (s : Process) (a : Action) (s' : Process) (h : Once conf.eventBufferSize s ∧ Silent s)
      (hstep : s.step buildKey a = some s')
      : Once conf.eventBufferSize s' ∧ Silent s' :=
    ⟨h.1.step hstep, h.2.step hstep⟩
  rcases Trace.inv_of_run hkeep hinit hrun with ⟨honce, hsilent⟩
  have hsent := honce.sent_eq
  have hbuffer := honce.buffer_eq
  unfold Leader.pending
  by_cases hfinished : t.task = .finished
  . have htaken : t.taken = 1 := by
      simp [taken, hfinished]
    rw [htaken] at hsent hbuffer
    simp only [hfinished, and_true]
    split at hbuffer
    . omega
    . omega
  . have htaken : t.taken = 0 := by
      have hflushing := honce.not_flushing hsilent (hover.resolve_left hfinished)
      simp [taken, hfinished, hflushing]
    rw [htaken] at hsent hbuffer
    simp only [hfinished, and_false, or_false]
    split at hbuffer
    . omega
    . omega

def setCall : Action :=
  .call (.kvSet "d" "k" [1] 0) Env.steady

def firstEvent : List Action :=
  [.ask .eventLoop, .lock .eventLoop, setCall, .receive]

theorem pending_lt_first_flushed
    : ∃ t,
        DB.startUp (fun _ id => id) (fun _ => none) true (some []) none [] = .ok blankDb
          ∧ new (leaderConf 1) blankDb [] = some (leaderProcess 1)
          ∧ Trace.run (step fun _ id => id) (leaderProcess 1) (leaderServes ++ firstEvent ++ [.finish])
              = some t
          ∧ t.task = .finished
          ∧ t.core.sent = 1
          ∧ t.core.pending < 1 := by
  have hmap
      : (Trace.run (step fun _ id => id) (leaderProcess 1) (leaderServes ++ firstEvent ++ [.finish])).map
          (fun t => (t.task, t.core.sent))
        = some (.finished, 1) := by
    rfl
  rcases Option.map_eq_some_iff.mp hmap with ⟨t, hrun, heq⟩
  rcases Prod.mk.inj heq with ⟨htask, hsent⟩
  refine ⟨t, startUp_blankDb, new_leaderConf 1, hrun, htask, hsent, ?_⟩
  have hiff := pending_lt_iff startUp_blankDb (new_leaderConf 1) hrun (.inl htask)
  apply hiff.mpr
  exact .inr ⟨rfl, hsent, htask⟩

-- The buffer is for two events. The task is over with the first one, and the next two stay in the channel.
theorem pending_behind_first_event
    : ∃ t,
        DB.startUp (fun _ id => id) (fun _ => none) true (some []) none [] = .ok blankDb
          ∧ new (leaderConf 2) blankDb [] = some (leaderProcess 2)
          ∧ Trace.run (step fun _ id => id) (leaderProcess 2) (leaderServes ++ firstEvent ++ [setCall, setCall])
              = some t
          ∧ t.task = .finished
          ∧ t.core.frames = []
          ∧ t.core.pending = 3
          ∧ ¬t.core.pending < (leaderConf 2).eventBufferSize.getD 100 := by
  refine ⟨_, startUp_blankDb, new_leaderConf 2, rfl, rfl, rfl, rfl, ?_⟩
  decide

end Process
end MemStream
