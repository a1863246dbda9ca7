import MemStream.Db.Lemmas.Db.Startup
import MemStream.Lib.Machine
import MemStream.Server.Impl.Main
import MemStream.Server.Lemmas.Ha.Steps

namespace MemStream
namespace Process

variable {buildKey : String → UInt64 → UInt64} {s s' : Process}

theorem step_eq_some {a : Action} (h : s.step buildKey a = some s')
    : s.main ≠ .exited ∧ s.act buildKey a = some s' := by
  unfold step at h
  split at h
  . simp at h
  . next hmain => exact ⟨hmain, h⟩

theorem ask_eq_some {caller : Caller} (h : s.ask caller = some s')
    : ∃ task main,
        s' = { s with task := task, main := main, waiting := s.waiting ++ [caller] }
          ∧ (caller = .eventLoop ∧ s.task = .spawned ∧ task = .asked ∧ main = s.main
              ∨ caller = .main ∧ s.main = .spawned ∧ task = s.task ∧ main = .asked
              ∨ caller ≠ .eventLoop ∧ s.main = .serving ∧ task = s.task ∧ main = s.main) := by
  unfold ask at h
  split at h
  . split at h
    . next htask => exact ⟨_, _, (Option.some.inj h).symm, .inl ⟨rfl, htask, rfl, rfl⟩⟩
    . simp at h
  . split at h
    . next hmain => exact ⟨_, _, (Option.some.inj h).symm, .inr (.inl ⟨rfl, hmain, rfl, rfl⟩)⟩
    . simp at h
  . next hloop _ =>
    split at h
    . next hmain => exact ⟨_, _, (Option.some.inj h).symm, .inr (.inr ⟨hloop, hmain, rfl, rfl⟩)⟩
    . simp at h

theorem lock_eq_some {caller : Caller} (h : s.lock caller = some s')
    : ∃ waiting core,
        s.holder = none
          ∧ s.waiting = caller :: waiting
          ∧ s.core.enter caller = some core
          ∧ s' = { s with core := core, holder := some caller, waiting := waiting } := by
  unfold lock at h
  split at h
  . next first waiting hholder hwaiting =>
    split at h
    . next heq =>
      rcases Option.map_eq_some_iff.mp h with ⟨core, hcore, rfl⟩
      rw [heq] at hwaiting
      exact ⟨waiting, core, hholder, hwaiting, hcore, rfl⟩
    . simp at h
  . simp at h

theorem inEventLoop_eq_some {core : Option Leader} (h : s.inEventLoop core = some s')
    : ∃ core',
        core = some core'
          ∧ s.holder = some .eventLoop
          ∧ (core'.pc = .idle ∧ s' = { s with core := core', task := .finished, holder := none }
              ∨ core'.pc ≠ .idle ∧ s' = { s with core := core' }) := by
  unfold inEventLoop at h
  split at h
  . next core' hholder =>
    split at h
    . next hpc => exact ⟨core', rfl, hholder, .inl ⟨hpc, (Option.some.inj h).symm⟩⟩
    . next hpc => exact ⟨core', rfl, hholder, .inr ⟨hpc, (Option.some.inj h).symm⟩⟩
  . simp at h

theorem inRegister_eq_some {core : Option Leader} {ok : Bool} (h : s.inRegister core ok = some s')
    : ∃ core' client addr,
        core = some core'
          ∧ s.holder = some (.register client addr)
          ∧ (core'.pc = .idle
                ∧ s' =
                    { s with
                      core := core'
                      holder := none
                      answers := s.answers ++ [(client, ok)] }
              ∨ core'.pc ≠ .idle ∧ s' = { s with core := core' }) := by
  unfold inRegister at h
  split at h
  . next client addr core' hholder =>
    refine ⟨core', client, addr, rfl, hholder, ?_⟩
    split at h
    . next hpc => exact .inl ⟨hpc, (Option.some.inj h).symm⟩
    . next hpc => exact .inr ⟨hpc, (Option.some.inj h).symm⟩
  . simp at h

theorem ackHeartbeat_eq_some (h : s.ackHeartbeat = some s')
    : ∃ client, s.holder = some (.heartbeat client) ∧ s' = { s with holder := none } := by
  unfold ackHeartbeat at h
  split at h
  . next client hholder => exact ⟨client, hholder, (Option.some.inj h).symm⟩
  . simp at h

theorem heartbeatFollowers_eq_some (h : s.heartbeatFollowers = some s')
    : s.holder = some .main
        ∧ s.conf.role = some .leader
        ∧ s.main = .asked
        ∧ s' = { s with main := .binding, holder := none } := by
  unfold heartbeatFollowers at h
  split at h
  . next hand => exact ⟨hand.1, hand.2.1, hand.2.2, (Option.some.inj h).symm⟩
  . simp at h

theorem connect_eq_some {ok : Bool} (h : s.connect ok = some s')
    : s.holder = some .main
        ∧ s.main = .asked
        ∧ s' = { s with main := if ok then .awaiting else .exited } := by
  unfold connect at h
  split at h
  . next hand => exact ⟨hand.1, hand.2.2, (Option.some.inj h).symm⟩
  . simp at h

theorem answer_eq_some {ok : Bool} (h : s.answer ok = some s')
    : s.holder = some .main
        ∧ s.main = .awaiting
        ∧ s' = { s with main := if ok then .binding else .exited, holder := none } := by
  unfold answer at h
  split at h
  . next hand => exact ⟨hand.1, hand.2, (Option.some.inj h).symm⟩
  . simp at h

theorem bind_eq_some {ok : Bool} (h : s.bind ok = some s')
    : s.main = .binding ∧ s' = { s with main := if ok then .serving else .exited } := by
  unfold bind at h
  split at h
  . next hmain => exact ⟨hmain, (Option.some.inj h).symm⟩
  . simp at h

inductive Effect (s : Process) : Action → Process → Prop where
  | inside (a : Action) (core : Leader) (hdb : s.main = .serving ∨ core.db = s.core.db)
      (hwait : core.pc = .receiving ∧ core.rx = [] → s.core.pc = .receiving ∧ s.core.rx = [])
      : Effect s a { s with core := core }
  | ask (caller : Caller) (s' : Process) (h : s.ask caller = some s') : Effect s (.ask caller) s'
  | lock (caller : Caller) (core : Leader) (waiting : List Caller) (hholder : s.holder = none)
      (hwaiting : s.waiting = caller :: waiting) (hdb : core.db = s.core.db)
      : Effect s (.lock caller) { s with core := core, holder := some caller, waiting := waiting }
  | finished (a : Action) (core : Leader) (hholder : s.holder = some .eventLoop)
      (hdb : core.db = s.core.db)
      : Effect s a { s with core := core, task := .finished, holder := none }
  | answered (a : Action) (core : Leader) (client : Nat) (addr : String) (ok : Bool)
      (hholder : s.holder = some (.register client addr)) (hdb : core.db = s.core.db)
      : Effect s a { s with core := core, holder := none, answers := s.answers ++ [(client, ok)] }
  | acked (client : Nat) (hholder : s.holder = some (.heartbeat client))
      : Effect s .ackHeartbeat { s with holder := none }
  | heartbeatFollowers (hholder : s.holder = some .main) (hrole : s.conf.role = some .leader)
      (hmain : s.main = .asked)
      : Effect s .heartbeatFollowers { s with main := .binding, holder := none }
  | connect (ok : Bool) (hmain : s.main = .asked)
      : Effect s (.connect ok) { s with main := if ok then .awaiting else .exited }
  | answer (ok : Bool) (hholder : s.holder = some .main) (hmain : s.main = .awaiting)
      : Effect s (.answer ok) { s with main := if ok then .binding else .exited, holder := none }
  | bind (ok : Bool) (hmain : s.main = .binding)
      : Effect s (.bind ok) { s with main := if ok then .serving else .exited }

theorem effect_inEventLoop (a : Action) {core : Option Leader} (h : s.inEventLoop core = some s')
    (hcore : ∀ core', core = some core' → core'.db = s.core.db ∧ core'.pc ≠ .receiving)
    : Effect s a s' := by
  rcases inEventLoop_eq_some h with ⟨core', heq, hholder, ⟨_, rfl⟩ | ⟨_, rfl⟩⟩
  . exact .finished a core' hholder (hcore core' heq).1
  . rcases hcore core' heq with ⟨hdb, hpc⟩
    exact .inside a core' (.inr hdb) (fun hwait => absurd hwait.1 hpc)

theorem effect_inRegister (a : Action) {core : Option Leader} {ok : Bool}
    (h : s.inRegister core ok = some s')
    (hcore : ∀ core', core = some core' → core'.db = s.core.db ∧ core'.pc ≠ .receiving)
    : Effect s a s' := by
  rcases inRegister_eq_some h with ⟨core', client, addr, heq, hholder, ⟨_, rfl⟩ | ⟨_, rfl⟩⟩
  . exact .answered a core' client addr ok hholder (hcore core' heq).1
  . rcases hcore core' heq with ⟨hdb, hpc⟩
    exact .inside a core' (.inr hdb) (fun hwait => absurd hwait.1 hpc)

theorem enter_db {core core' : Leader} {caller : Caller} (h : core.enter caller = some core')
    : core'.db = core.db := by
  cases caller with
  | eventLoop =>
    rcases Leader.start_eq_some h with ⟨_, rfl⟩
    rfl
  | register client addr =>
    rcases Leader.register_eq_some h with ⟨_, rfl⟩
    rfl
  | main | heartbeat client =>
    cases h
    rfl

theorem effect_of_step {a : Action} (h : s.step buildKey a = some s') : Effect s a s' := by
  have hact := (step_eq_some h).2
  cases a with
  | call op env =>
    simp only [act, Option.ite_none_right_eq_some, Option.some.injEq] at hact
    rcases hact with ⟨hmain, rfl⟩
    refine .inside _ _ (.inl hmain) ?_
    intro hwait
    exact ⟨hwait.1, (List.append_eq_nil_iff.mp hwait.2).1⟩
  | applyAof entries =>
    simp only [act, Option.ite_none_right_eq_some, Option.some.injEq] at hact
    rcases hact with ⟨hmain, rfl⟩
    exact .inside _ _ (.inl hmain) id
  | writeLine ok =>
    rcases Option.map_eq_some_iff.mp hact with ⟨core, hcore, rfl⟩
    rcases Leader.writeLine_eq_some hcore with ⟨_, _, _, rfl | rfl⟩
    . exact .inside _ _ (.inr rfl) id
    . exact .inside _ _ (.inr rfl) id
  | remove addr =>
    simp only [act, Option.ite_none_right_eq_some, Option.some.injEq] at hact
    rcases hact with ⟨_, rfl⟩
    exact .inside _ _ (.inr rfl) id
  | ask caller => exact .ask caller s' hact
  | lock caller =>
    rcases lock_eq_some hact with ⟨waiting, core, hholder, hwaiting, henter, rfl⟩
    exact .lock caller core waiting hholder hwaiting (enter_db henter)
  | receive =>
    apply effect_inEventLoop _ hact
    intro core hcore
    rcases Leader.receive_eq_some hcore with ⟨_, _, _, _, ⟨_, rfl⟩ | ⟨_, rfl⟩⟩
    . exact ⟨rfl, by simp⟩
    . exact ⟨rfl, by simp⟩
  | sync delivered ok =>
    apply effect_inEventLoop _ hact
    intro core hcore
    rcases Leader.sync_eq_some hcore with ⟨_, _, _, _, rfl⟩
    refine ⟨rfl, ?_⟩
    cases ok with
    | true => simp
    | false => simp
  | finish =>
    apply effect_inEventLoop _ hact
    intro core hcore
    rcases Leader.finish_eq_some hcore with ⟨_, _, rfl⟩
    exact ⟨rfl, by simp⟩
  | heartbeat ok =>
    apply effect_inRegister _ hact
    intro core hcore
    rcases Leader.heartbeat_eq_some hcore with ⟨_, _, rfl | rfl⟩
    . exact ⟨rfl, by simp⟩
    . exact ⟨rfl, by simp⟩
  | copy ok =>
    apply effect_inRegister _ hact
    intro core hcore
    rcases Leader.copy_eq_some hcore with ⟨_, _, ⟨_, rfl⟩ | rfl⟩
    . exact ⟨rfl, by simp⟩
    . exact ⟨rfl, by simp⟩
  | syncCopy delivered =>
    apply effect_inRegister _ hact
    intro core hcore
    rcases Leader.syncCopy_eq_some hcore with ⟨_, _, _, rfl⟩
    exact ⟨rfl, by simp⟩
  | ackHeartbeat =>
    rcases ackHeartbeat_eq_some hact with ⟨client, hholder, rfl⟩
    exact .acked client hholder
  | heartbeatFollowers =>
    rcases heartbeatFollowers_eq_some hact with ⟨hholder, hrole, hmain, rfl⟩
    exact .heartbeatFollowers hholder hrole hmain
  | connect ok =>
    rcases connect_eq_some hact with ⟨_, hmain, rfl⟩
    exact .connect ok hmain
  | answer ok =>
    rcases answer_eq_some hact with ⟨hholder, hmain, rfl⟩
    exact .answer ok hholder hmain
  | bind ok =>
    rcases bind_eq_some hact with ⟨hmain, rfl⟩
    exact .bind ok hmain

theorem new_eq_some {conf : ReplicaConf} {db : DB} {old : List AofEntry} (h : new conf db old = some s)
    : ∃ task main,
        task ≠ .asked
          ∧ task ≠ .finished
          ∧ (conf.isReplica = true → conf.role ≠ none → main = .spawned)
          ∧ s = ⟨conf, Leader.new db conf.eventBufferSize old, task, main, none, [], []⟩ := by
  unfold new at h
  dsimp only at h
  split at h
  . split at h
    . simp at h
    . exact ⟨.spawned, .spawned, by simp, by simp, by simp, (Option.some.inj h).symm⟩
    . next hrole =>
      exact ⟨.spawned, .binding, by simp, by simp, by simp [hrole], (Option.some.inj h).symm⟩
  . next hreplica =>
    exact ⟨.unspawned, .binding, by simp, by simp, by simp [hreplica], (Option.some.inj h).symm⟩

-- A database without a file, and a leader and its steps until it serves.
def blankDb : DB :=
  ⟨⟨KvStore.new, SegList.blank.grown, GroupManager.new⟩, [], some []⟩

theorem startUp_blankDb
    : DB.startUp (fun _ id => id) (fun _ => none) true (some []) none [] = .ok blankDb := by
  have hvalid : AofFile.ValidUtf8 none := by
    intro bytes hbytes
    cases hbytes
  rw [DB.startUp_eq _ _ (DB.new_true (some [])) hvalid]
  rfl

def leaderConf (eventBufferSize : Nat) : ReplicaConf where
  isReplica := true
  role := some .leader
  master := some "localhost:9090"
  eventBufferSize := some eventBufferSize

def leaderProcess (eventBufferSize : Nat) : Process where
  conf := leaderConf eventBufferSize
  core := Leader.new blankDb (some eventBufferSize) []
  task := .spawned
  main := .spawned
  holder := none
  waiting := []
  answers := []

theorem new_leaderConf (eventBufferSize : Nat)
    : new (leaderConf eventBufferSize) blankDb [] = some (leaderProcess eventBufferSize) := by
  rfl

def leaderServes : List Action :=
  [.ask .main, .lock .main, .heartbeatFollowers, .bind true]

end Process
end MemStream
