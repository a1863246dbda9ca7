import MemStream.Server.Impl.Registration
import MemStream.Server.Lemmas.Main.Steps

namespace MemStream

def Caller.registers (client : Nat) : Caller → Bool
  | .register client' _ => client' = client
  | _ => false

namespace Process

variable {buildKey : String → UInt64 → UInt64} {client : Nat} {s s' : Process}

def registrations (client : Nat) (s : Process) : Nat :=
  s.waiting.countP (Caller.registers client) + s.holder.toList.countP (Caller.registers client)

def answered (client : Nat) (s : Process) : Nat :=
  s.answers.countP fun answer => answer.1 = client

theorem registrations_pos {addr : String} (h : s.holder = some (.register client addr))
    : 0 < s.registrations client := by
  simp [registrations, h, Caller.registers]

theorem answered_pos {ok : Bool} (h : (client, ok) ∈ s.answers) : 0 < s.answered client := by
  unfold answered
  rw [List.countP_pos_iff]
  exact ⟨(client, ok), h, by simp⟩

theorem ask_register {addr : String} (h : s.step buildKey (.ask (.register client addr)) = some s')
    : s'.registrations client = s.registrations client + 1 ∧ s'.answered client = s.answered client := by
  have hask : s.ask (.register client addr) = some s' := (step_eq_some h).2
  rcases ask_eq_some hask with ⟨task, main, rfl, _⟩
  refine ⟨?_, rfl⟩
  simp [registrations, Caller.registers]
  omega

theorem step_registrations {a : Action} (hask : ∀ addr, a ≠ .ask (.register client addr))
    (h : s.step buildKey a = some s')
    : s'.registrations client + s'.answered client = s.registrations client + s.answered client
        ∧ s.answered client ≤ s'.answered client := by
  cases effect_of_step h with
  | inside _ core _ _ => exact ⟨rfl, Nat.le_refl _⟩
  | ask caller _ hstep =>
    rcases ask_eq_some hstep with ⟨task, main, rfl, _⟩
    refine ⟨?_, Nat.le_refl _⟩
    have hother : caller.registers client = false := by
      cases caller with
      | register client' addr =>
        simp only [Caller.registers, decide_eq_false_iff_not]
        rintro rfl
        exact hask addr rfl
      | _ => rfl
    simp [registrations, answered, hother]
  | lock caller core waiting hholder hwaiting _ =>
    refine ⟨?_, Nat.le_refl _⟩
    simp [registrations, answered, hholder, hwaiting, List.countP_cons]
  | finished _ core hholder _ =>
    refine ⟨?_, Nat.le_refl _⟩
    simp [registrations, answered, hholder, Caller.registers]
  | answered _ core client' addr ok hholder _ =>
    simp [registrations, answered, hholder, Caller.registers, List.countP_cons]
    omega
  | acked client' hholder =>
    refine ⟨?_, Nat.le_refl _⟩
    simp [registrations, answered, hholder, Caller.registers]
  | heartbeatFollowers hholder _ _ =>
    refine ⟨?_, Nat.le_refl _⟩
    simp [registrations, answered, hholder, Caller.registers]
  | connect ok _ => exact ⟨rfl, Nat.le_refl _⟩
  | answer ok hholder _ =>
    refine ⟨?_, Nat.le_refl _⟩
    simp [registrations, answered, hholder, Caller.registers]
  | bind ok _ => exact ⟨rfl, Nat.le_refl _⟩

theorem registrations_new (client : Nat) {conf : ReplicaConf} {db : DB} {old : List AofEntry}
    (h : new conf db old = some s)
    : s.registrations client = 0 ∧ s.answered client = 0 := by
  rcases new_eq_some h with ⟨task, main, _, _, _, rfl⟩
  exact ⟨rfl, rfl⟩

end Process

namespace Registration

variable {buildKey : String → UInt64 → UInt64} {client : Nat} {addr : String} {s s' : Registration}

def CallsBack (client : Nat) (addr : String) (s : Registration) : Prop :=
  s.leader.holder = some (.register client addr) ∧ s.leader.core.pc = .heartbeating addr

def tokens (client : Nat) (s : Registration) : Nat :=
  s.request.toNat + s.leader.registrations client + s.leader.answered client

structure Ordered (client : Nat) (s : Registration) : Prop where
  role : s.follower.conf.role = some .follower
  once : s.tokens client ≤ 1
  early : s.follower.main = .spawned ∨ s.follower.main = .asked → s.tokens client = 0
  late : s.follower.main = .binding ∨ s.follower.main = .serving → 0 < s.leader.answered client

theorem Ordered.not_serving (h : Ordered client s) (hcalls : s.CallsBack client addr)
    : s.follower.main ≠ .serving := by
  intro hmain
  have hanswered := h.late (.inr hmain)
  have hregistered := Process.registrations_pos hcalls.1
  have honce := h.once
  unfold tokens at honce
  omega

theorem Ordered.leader (h : Ordered client s) (hfollower : s'.follower = s.follower)
    (htokens : s'.tokens client = s.tokens client)
    (hanswered : s.leader.answered client ≤ s'.leader.answered client)
    : Ordered client s' where
  role := by
    rw [hfollower]
    apply h.role
  once := by
    rw [htokens]
    apply h.once
  early := by
    rw [hfollower, htokens]
    apply h.early
  late := by
    rw [hfollower]
    intro hmain
    apply Nat.lt_of_lt_of_le (h.late hmain) hanswered

theorem Ordered.follower (h : Ordered client s) {follower : Process}
    (hconf : follower.conf = s.follower.conf) (hmain : follower.main = s.follower.main)
    : Ordered client { s with follower := follower } where
  role := by
    rw [hconf]
    apply h.role
  once := h.once
  early := by
    rw [hmain]
    apply h.early
  late := by
    rw [hmain]
    apply h.late

theorem Ordered.connected (h : Ordered client s) {follower : Process}
    (hstep : s.follower.connect true = some follower)
    : Ordered client { s with follower := follower, request := true } := by
  rcases Process.connect_eq_some hstep with ⟨_, hmain, rfl⟩
  have hnone := h.early (.inr hmain)
  unfold tokens at hnone
  refine ⟨h.role, ?_, by simp, by simp⟩
  simp only [tokens, Bool.toNat_true]
  omega

theorem Ordered.effect (h : Ordered client s) {a : Process.Action} {follower : Process}
    (hmay : s.followerMay client a = true) (heffect : Process.Effect s.follower a follower)
    : Ordered client { s with follower := follower } := by
  cases heffect with
  | inside _ core _ _ => exact h.follower rfl rfl
  | ask caller _ hstep =>
    rcases Process.ask_eq_some hstep with ⟨task, main, rfl, hcaller⟩
    rcases hcaller with ⟨_, _, _, rfl⟩ | ⟨_, hspawned, _, rfl⟩ | ⟨_, _, _, rfl⟩
    . exact h.follower rfl rfl
    . refine ⟨h.role, h.once, fun _ => h.early (.inl hspawned), by simp⟩
    . exact h.follower rfl rfl
  | lock caller core waiting _ _ _ => exact h.follower rfl rfl
  | finished _ core _ _ => exact h.follower rfl rfl
  | answered _ core client' addr ok _ _ => exact h.follower rfl rfl
  | acked client' _ => exact h.follower rfl rfl
  | heartbeatFollowers _ hrole _ =>
    rw [h.role] at hrole
    contradiction
  | connect ok _ =>
    cases ok with
    | true => exact ⟨h.role, h.once, by simp, by simp⟩
    | false => exact ⟨h.role, h.once, by simp, by simp⟩
  | answer ok _ _ =>
    cases ok with
    | true =>
      refine ⟨h.role, h.once, by simp, fun _ => ?_⟩
      apply Process.answered_pos
      simpa [followerMay] using hmay
    | false => exact ⟨h.role, h.once, by simp, by simp⟩
  | bind ok hmain =>
    cases ok with
    | true => exact ⟨h.role, h.once, by simp, fun _ => h.late (.inl hmain)⟩
    | false => exact ⟨h.role, h.once, by simp, by simp⟩

theorem sends_eq_true {a : Process.Action} (h : sends a = true) : a = .connect true := by
  unfold sends at h
  split at h
  . rfl
  . contradiction

theorem ask_register_of_leaderMay {a : Process.Action} (h : s.leaderMay client addr a = true)
    (addr' : String)
    : a ≠ .ask (.register client addr') := by
  rintro rfl
  simp [leaderMay] at h

theorem Ordered.step (h : Ordered client s) {a : Action}
    (hstep : s.step buildKey client addr a = some s')
    : Ordered client s' := by
  cases a with
  | leader a =>
    simp only [Registration.step, Option.ite_none_right_eq_some, Option.map_eq_some_iff] at hstep
    rcases hstep with ⟨hmay, leader, hleader, rfl⟩
    rcases Process.step_registrations (ask_register_of_leaderMay hmay) hleader with ⟨hsum, hle⟩
    refine h.leader rfl ?_ hle
    unfold tokens
    dsimp only
    omega
  | follower a =>
    simp only [Registration.step, Option.ite_none_right_eq_some, Option.map_eq_some_iff] at hstep
    rcases hstep with ⟨hmay, follower, hfollower, rfl⟩
    cases hsends : sends a with
    | true =>
      cases sends_eq_true hsends
      rw [Bool.or_true]
      apply h.connected (Process.step_eq_some hfollower).2
    | false =>
      rw [Bool.or_false]
      apply h.effect hmay (Process.effect_of_step hfollower)
  | read =>
    simp only [Registration.step, Option.ite_none_right_eq_some, Option.map_eq_some_iff] at hstep
    rcases hstep with ⟨hrequest, leader, hleader, rfl⟩
    rcases Process.ask_register hleader with ⟨hregistered, hanswered⟩
    refine h.leader rfl ?_ (Nat.le_of_eq hanswered.symm)
    simp only [tokens, hrequest, hregistered, hanswered, Bool.toNat_true, Bool.toNat_false]
    omega
  | occupy taken =>
    cases hstep
    exact ⟨h.role, h.once, h.early, h.late⟩

theorem ordered_new {conf conf' : ReplicaConf} {db db' : DB} {old old' : List AofEntry}
    {leader follower : Process} (hleader : Process.new conf db old = some leader)
    (hfollower : Process.new conf' db' old' = some follower) (hreplica : conf'.isReplica = true)
    (hrole : conf'.role = some .follower) (occupied : Bool)
    : Ordered client (new leader follower occupied) := by
  rcases Process.registrations_new client hleader with ⟨hregistrations, hanswered⟩
  rcases Process.new_eq_some hfollower with ⟨task, main, _, _, hmain, rfl⟩
  have hmain : main = .spawned := by
    apply hmain hreplica
    simp [hrole]
  have htokens (follower : Process) : (new leader follower occupied).tokens client = 0 := by
    simp [tokens, new, hregistrations, hanswered]
  refine ⟨hrole, ?_, fun _ => htokens _, ?_⟩
  . rw [htokens]
    omega
  . simp [new, hmain]

theorem not_serving_when_called_back {conf conf' : ReplicaConf} {db db' : DB} {old old' : List AofEntry}
    {leader follower : Process} {occupied : Bool} {actions : List Action} {t : Registration}
    (hleader : Process.new conf db old = some leader)
    (hfollower : Process.new conf' db' old' = some follower) (hreplica : conf'.isReplica = true)
    (hrole : conf'.role = some .follower)
    (hrun : Trace.run (step buildKey client addr) (new leader follower occupied) actions = some t)
    (hcalls : t.CallsBack client addr)
    : t.follower.main ≠ .serving := by
  have hkeep (s : Registration) (a : Action) (s' : Registration) (h : Ordered client s)
      (hstep : s.step buildKey client addr a = some s')
      : Ordered client s' :=
    h.step hstep
  have hordered := Trace.inv_of_run hkeep (ordered_new hleader hfollower hreplica hrole occupied) hrun
  apply hordered.not_serving hcalls

def followerConf : ReplicaConf where
  isReplica := true
  role := some .follower
  master := some "localhost:9090"
  eventBufferSize := none

def followerProcess : Process where
  conf := followerConf
  core := Leader.new Process.blankDb none []
  task := .spawned
  main := .spawned
  holder := none
  waiting := []
  answers := []

theorem new_followerConf : Process.new followerConf Process.blankDb [] = some followerProcess := by
  rfl

def registers : List Action :=
  Process.leaderServes.map .leader
    ++ [.follower (.ask .main), .follower (.lock .main), .follower (.connect true), .read,
      .leader (.lock (.register 0 "localhost:9091"))]

theorem not_serving_when_registered
    : ∃ t,
        Process.new (Process.leaderConf 2) Process.blankDb [] = some (Process.leaderProcess 2)
          ∧ Process.new followerConf Process.blankDb [] = some followerProcess
          ∧ Trace.run (step (fun _ id => id) 0 "localhost:9091")
              (new (Process.leaderProcess 2) followerProcess false) registers
              = some t
          ∧ t.CallsBack 0 "localhost:9091"
          ∧ t.follower.main ≠ .serving := by
  have hmap
      : (Trace.run (step (fun _ id => id) 0 "localhost:9091")
            (new (Process.leaderProcess 2) followerProcess false) registers).map
          (fun t => (t.leader.holder, t.leader.core.pc))
        = some (some (.register 0 "localhost:9091"), .heartbeating "localhost:9091") := by
    rfl
  rcases Option.map_eq_some_iff.mp hmap with ⟨t, hrun, heq⟩
  have hcalls : t.CallsBack 0 "localhost:9091" := Prod.mk.inj heq
  refine ⟨t, Process.new_leaderConf 2, new_followerConf, hrun, hcalls, ?_⟩
  exact not_serving_when_called_back (Process.new_leaderConf 2) new_followerConf rfl rfl hrun hcalls

-- Nobody else is at the address, and the follower ends when it is told that the heartbeat has failed.
theorem registration_refused
    : ∃ t u,
        Process.new (Process.leaderConf 2) Process.blankDb [] = some (Process.leaderProcess 2)
          ∧ Process.new followerConf Process.blankDb [] = some followerProcess
          ∧ Trace.run (step (fun _ id => id) 0 "localhost:9091")
              (new (Process.leaderProcess 2) followerProcess false) registers
              = some t
          ∧ t.CallsBack 0 "localhost:9091"
          ∧ ¬t.follower.main = .serving
          ∧ t.step (fun _ id => id) 0 "localhost:9091" (.leader (.heartbeat true)) = none
          ∧ Trace.run (step (fun _ id => id) 0 "localhost:9091") t
              [.leader (.heartbeat false), .follower (.answer false)]
              = some u
          ∧ (0, false) ∈ u.leader.answers
          ∧ u.follower.main = .exited := by
  refine ⟨_, _, Process.new_leaderConf 2, new_followerConf, rfl, ⟨rfl, rfl⟩, ?_, rfl, rfl, ?_, rfl⟩
  . decide
  . decide

end Registration
end MemStream
