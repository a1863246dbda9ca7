import MemStream.Db.Impl.Pipeline
import MemStream.Db.Lemmas.Db.Run
import MemStream.Db.Lemmas.Kv.Basic

namespace MemStream

namespace PipelineCommand

def entry : PipelineCommand → AofEntry
  | .kvSet db key val ttl => .kvSet db key val ttl
  | .kvDel db key => .kvDel db key
  | .kvFlush db => .kvFlush db
  | .listPush key payload => .listPush key payload
  | .listPop key => .listPop key
  | .listFlush key => .listFlush key
  | .logAdd group timestamp payload => .logAdd group timestamp payload

def written : PipelineCommand → List AofEntry
  | .kvFlush _ => []
  | cmd => [cmd.entry]

def op : PipelineCommand → DB.Op
  | .kvSet db key val ttl => .kvSet db key val ttl
  | .kvDel db key => .kvDel db key
  | .kvFlush db => .kvFlush db
  | .listPush key payload => .listPush key payload
  | .listPop key => .listPop key
  | .listFlush key => .listFlush key
  | .logAdd group timestamp payload => .logAdd group timestamp payload

end PipelineCommand

namespace View

def performAll (v : View) (envs : Nat → Env) : List PipelineCommand → Option View
  | [] => some v
  | cmd :: commands =>
    match v.perform (envs 0) cmd.entry with
    | (.ok (), v) => v.performAll (fun i => envs (i + 1)) commands
    | _ => none

def Refuses (v : View) (env : Env) : PipelineCommand → Prop
  | .kvSet .. | .kvFlush .. => False
  | .kvDel db key => v.contents.kv db key = none
  | .listPush _ payload => Queues.tooLarge payload ∧ (v.lists.free = 0 → env.alloc 0 = true)
  | .listPop key => v.contents.lists key = []
  | .listFlush key => v.lists.queues key = none
  | .logAdd group _ payload =>
    ∀ log, v.logs group = some log →
      ∃ e, (log.space.claim (env.alloc 0) (SegLog.headerSize + payload.length)).1 = .err e

def NeverRefuses (v : View) (envs : Nat → Env) (commands : List PipelineCommand) : Prop :=
  ∀ before cmd after, commands = before ++ cmd :: after →
    ∀ v', v.performAll envs before = some v' → ¬v'.Refuses (envs before.length) cmd

/-- Nothing but empty databases has been flushed before a command is refused. -/
def RefusesFirst (v : View) (envs : Nat → Env) (commands : List PipelineCommand) : Prop :=
  ∃ flushes cmd after,
    commands = flushes ++ cmd :: after
      ∧ (∀ c ∈ flushes, ∃ db, c = .kvFlush db ∧ ∀ key, v.contents.kv db key = none)
      ∧ v.Refuses (envs flushes.length) cmd

theorem refuses_iff (v : View) (env : Env) (cmd : PipelineCommand)
    : v.Refuses env cmd ↔ ∃ e, (v.perform env cmd.entry).1 = .err e := by
  cases cmd with
  | kvSet db key val ttl => simp [Refuses, perform, PipelineCommand.entry, onKv, KvStore.set]
  | kvDel db key =>
    simp only [Refuses, PipelineCommand.entry, perform, onKv, KvStore.del, KvDb.del, contents]
    cases (v.kv.getDb db).entries.lookup key with
    | none => simp
    | some entry => simp
  | kvFlush db => simp [Refuses, perform, PipelineCommand.entry, onKv, KvStore.flush]
  | listPush key payload =>
    simp only [Refuses, PipelineCommand.entry, perform, onLists, Pooled.push, Pooled.grow]
    by_cases hfree : v.lists.free = 0
    . rw [if_pos hfree]
      by_cases halloc : env.alloc 0 = true
      . rw [if_pos halloc]
        by_cases hlarge : Queues.tooLarge payload
        . simp [Pooled.pushFree, hlarge, halloc]
        . simp only [Pooled.pushFree, hlarge, if_false]
          split
          . simp
          . simp
      . rw [if_neg halloc]
        simp [hfree, halloc]
    . rw [if_neg hfree]
      by_cases hlarge : Queues.tooLarge payload
      . simp [Pooled.pushFree, hlarge, hfree]
      . simp [Pooled.pushFree, hlarge, hfree]
  | listPop key =>
    simp only [Refuses, PipelineCommand.entry, perform, onLists, Pooled.pop, contents]
    cases v.lists.queues.get key with
    | nil => simp
    | cons item items => simp
  | listFlush key =>
    simp only [Refuses, PipelineCommand.entry, perform, onLists, Pooled.flush, Queues.flush]
    cases v.lists.queues key with
    | none => simp
    | some items => simp
  | logAdd group timestamp payload =>
    simp only [Refuses, PipelineCommand.entry, perform, onLogs, Logs.add, Logs.onLog]
    cases v.logs group with
    | none => simp
    | some log =>
      simp only [Option.some.injEq, forall_eq', LogSpec.append]
      rcases log.space.claim (env.alloc 0) (SegLog.headerSize + payload.length) with ⟨res, space⟩
      cases res with
      | ok val => simp [LogSpec.enter]
      | err e => simp [LogSpec.enter]
      | panic => simp [LogSpec.enter]

theorem contents_of_refused (v : View) (env : Env) {cmd : PipelineCommand} (h : v.Refuses env cmd)
    : (v.perform env cmd.entry).2.contents = v.contents := by
  cases cmd with
  | kvSet db key val ttl => exact absurd h id
  | kvDel db key =>
    have hlookup : (v.kv.getDb db).entries.lookup key = none := h
    simp only [PipelineCommand.entry, perform, onKv, KvStore.del, KvDb.del, hlookup, contents,
      Contents.mk.injEq, and_self, and_true]
    funext db' key'
    rw [KvStore.getDb_putDb]
    split
    . next heq => rw [heq]
    . rfl
  | kvFlush db => exact absurd h id
  | listPush key payload =>
    rcases h with ⟨hlarge, halloc⟩
    simp only [PipelineCommand.entry, perform, onLists, Pooled.push, Pooled.grow]
    by_cases hfree : v.lists.free = 0
    . rw [if_pos hfree, if_pos (halloc hfree)]
      simp [Pooled.pushFree, hlarge, contents]
    . rw [if_neg hfree]
      simp [Pooled.pushFree, hlarge, contents]
  | listPop key =>
    have hget : v.lists.queues.get key = [] := h
    simp [PipelineCommand.entry, perform, onLists, Pooled.pop, hget]
  | listFlush key =>
    have hget : v.lists.queues key = none := h
    simp [PipelineCommand.entry, perform, onLists, Pooled.flush, Queues.flush, hget]
  | logAdd group timestamp payload =>
    simp only [PipelineCommand.entry, perform, onLogs, Logs.add, Logs.onLog]
    cases hlog : v.logs group with
    | none => rfl
    | some log =>
      rcases h log hlog with ⟨e, he⟩
      simp only [contents, Contents.mk.injEq, true_and]
      funext group'
      unfold LogSpec.append Logs.set
      rcases hclaim : log.space.claim (env.alloc 0) (SegLog.headerSize + payload.length) with ⟨res, space⟩
      rw [hclaim] at he
      dsimp only at he
      rw [he]
      split
      . next heq =>
        rw [heq, hlog]
        rfl
      . rfl

theorem Refuses.congr {v v' : View} (hkv : v.contents.kv = v'.contents.kv) (hlists : v.lists = v'.lists)
    (hlogs : v.logs = v'.logs) {env : Env} {cmd : PipelineCommand} (h : v.Refuses env cmd)
    : v'.Refuses env cmd := by
  unfold Refuses at h ⊢
  rw [← hkv, ← hlists, ← hlogs, show v'.contents.lists = v.contents.lists by simp [contents, hlists]]
  exact h

theorem performAll_flushes (v : View) (envs : Nat → Env) {flushes : List PipelineCommand}
    (h : ∀ c ∈ flushes, ∃ db, c = .kvFlush db)
    : ∃ v',
        v.performAll envs flushes = some v'
          ∧ v'.lists = v.lists
          ∧ v'.logs = v.logs
          ∧ ∀ db key,
              v'.contents.kv db key
                = if .kvFlush db ∈ flushes then none else v.contents.kv db key := by
  induction flushes generalizing v envs with
  | nil => exact ⟨v, rfl, rfl, rfl, by simp⟩
  | cons c flushes ih =>
    rcases h c (by simp) with ⟨db, rfl⟩
    have hrest : ∀ c ∈ flushes, ∃ db, c = .kvFlush db := fun c hc => h c (by simp [hc])
    rcases ih (v.perform (envs 0) (.kvFlush db)).2 (fun i => envs (i + 1)) hrest
      with ⟨v', hv', hlists, hlogs, hkv⟩
    refine ⟨v', hv', hlists, hlogs, ?_⟩
    intro db' key
    rw [hkv]
    by_cases hmem : .kvFlush db' ∈ flushes
    . simp [hmem]
    . rw [if_neg hmem]
      simp only [perform, onKv, KvStore.flush, contents, KvStore.getDb_putDb]
      by_cases heq : db' = db
      . simp [heq, KvDb.flush]
      . simp [heq, hmem]

end View

namespace DB

variable (buildKey : String → UInt64 → UInt64)

structure JobAtomic (db : DB) (envs : Nat → Env) (commands : List PipelineCommand) : Prop where
  err : ∀ e db', db.executeJob buildKey envs commands = (.err e, db') →
    db'.toStores.contents = db.toStores.contents ∧ db'.aof = db.aof
  ok : ∀ db', db.executeJob buildKey envs commands = (.ok (), db') →
    ∃ v,
      db.toStores.view.performAll envs commands = some v
        ∧ db'.toStores.contents = v.contents
        ∧ db'.aof = db.aof ++ commands.flatMap PipelineCommand.written

variable {buildKey} {db : DB}

theorem outcome_unit (res : Outcome DBError Unit × DB) : outcome res = res := by
  rcases res with ⟨res, db⟩
  cases res with
  | ok val => rfl
  | err e => rfl
  | panic => rfl

theorem execute_eq_call (db : DB) (env : Env) (cmd : PipelineCommand)
    : db.execute buildKey env cmd = db.call buildKey env cmd.op := by
  cases cmd with
  | kvSet d key val ttl => exact (outcome_unit _).symm
  | kvDel d key => exact (outcome_unit _).symm
  | kvFlush d => exact (outcome_unit _).symm
  | listPush key payload => exact (outcome_unit _).symm
  | listPop key => rfl
  | listFlush key => exact (outcome_unit _).symm
  | logAdd group timestamp payload => rfl

theorem execute_refines (hinv : db.toStores.Inv buildKey) (env : Env) (cmd : PipelineCommand)
    : (db.execute buildKey env cmd).2.toStores.Inv buildKey
        ∧ db.toStores.view.perform env cmd.entry
            = ((db.execute buildKey env cmd).1, (db.execute buildKey env cmd).2.toStores.view)
        ∧ (db.execute buildKey env cmd).2.aof
            = if (db.execute buildKey env cmd).1.isOk then db.aof ++ cmd.written else db.aof := by
  rw [execute_eq_call]
  have hlogged (hentry : cmd.op.entry = some cmd.entry) (hwritten : cmd.written = [cmd.entry])
      : (db.call buildKey env cmd.op).2.toStores.Inv buildKey
        ∧ db.toStores.view.perform env cmd.entry
            = ((db.call buildKey env cmd.op).1, (db.call buildKey env cmd.op).2.toStores.view)
        ∧ (db.call buildKey env cmd.op).2.aof
            = if (db.call buildKey env cmd.op).1.isOk then db.aof ++ cmd.written else db.aof := by
    rw [db.call_eq_perform buildKey env hentry, perform_fst, perform_stores, perform_aof, hwritten]
    have ⟨hinv', hperform⟩ := hinv.perform_refines env cmd.entry
    exact ⟨hinv', hperform, rfl⟩
  cases cmd with
  | kvFlush d => exact ⟨⟨hinv.list, hinv.groups⟩, rfl, (List.append_nil _).symm⟩
  | _ => exact hlogged rfl rfl

theorem executeJob_cons (db : DB) (envs : Nat → Env) (cmd : PipelineCommand)
    (commands : List PipelineCommand)
    : db.executeJob buildKey envs (cmd :: commands)
        =
      match db.execute buildKey (envs 0) cmd with
      | (.ok (), db) => db.executeJob buildKey (fun i => envs (i + 1)) commands
      | (.err e, db) => (.err (.execError e), db)
      | (.panic, db) => (.panic, db) := by
  rfl

theorem executeJob_ok (hinv : db.toStores.Inv buildKey) {envs : Nat → Env}
    {commands : List PipelineCommand} {db' : DB}
    (h : db.executeJob buildKey envs commands = (.ok (), db'))
    : db.toStores.view.performAll envs commands = some db'.toStores.view
        ∧ db'.aof = db.aof ++ commands.flatMap PipelineCommand.written := by
  induction commands generalizing db envs with
  | nil =>
    cases h
    exact ⟨rfl, by simp⟩
  | cons cmd commands ih =>
    have ⟨hinv', hperform, haof⟩ := execute_refines hinv (envs 0) cmd
    rw [executeJob_cons] at h
    rw [View.performAll, hperform]
    rcases hres : db.execute buildKey (envs 0) cmd with ⟨res, db1⟩
    rw [hres] at h hinv' haof
    cases res with
    | ok val =>
      have ⟨hview, haof'⟩ := ih hinv' h
      refine ⟨hview, ?_⟩
      rw [haof', haof, if_pos (by rfl), List.flatMap_cons, List.append_assoc]
    | err e => cases h
    | panic => cases h

theorem executeJob_err (hinv : db.toStores.Inv buildKey) {envs : Nat → Env}
    {commands : List PipelineCommand} {e : PipelineError} {db' : DB}
    (h : db.executeJob buildKey envs commands = (.err e, db'))
    : ∃ before cmd after v,
        commands = before ++ cmd :: after
          ∧ db.toStores.view.performAll envs before = some v
          ∧ v.Refuses (envs before.length) cmd := by
  induction commands generalizing db envs with
  | nil => cases h
  | cons cmd commands ih =>
    have ⟨hinv', hperform, _⟩ := execute_refines hinv (envs 0) cmd
    rw [executeJob_cons] at h
    rcases hres : db.execute buildKey (envs 0) cmd with ⟨res, db1⟩
    rw [hres] at h hinv' hperform
    cases res with
    | ok val =>
      rcases ih hinv' h with ⟨before, cmd', after, v, rfl, hv, hrefuses⟩
      refine ⟨cmd :: before, cmd', after, v, rfl, ?_, hrefuses⟩
      rw [View.performAll, hperform]
      exact hv
    | err e' =>
      refine ⟨[], cmd, commands, _, rfl, rfl, ?_⟩
      rw [View.refuses_iff]
      exact ⟨e', congrArg Prod.fst hperform⟩
    | panic => cases h

theorem executeJob_of_refuses (hinv : db.toStores.Inv buildKey) {envs : Nat → Env}
    {before : List PipelineCommand} {v : View}
    (hbefore : db.toStores.view.performAll envs before = some v) {cmd : PipelineCommand}
    (hrefuses : v.Refuses (envs before.length) cmd) (after : List PipelineCommand)
    : ∃ e db',
        db.executeJob buildKey envs (before ++ cmd :: after) = (.err e, db')
          ∧ db'.toStores.contents = v.contents
          ∧ db'.aof = db.aof ++ before.flatMap PipelineCommand.written := by
  induction before generalizing db envs with
  | nil =>
    cases hbefore
    have ⟨_, hperform, haof⟩ := execute_refines hinv (envs 0) cmd
    have hcontents := View.contents_of_refused _ _ hrefuses
    rcases (View.refuses_iff _ _ _).mp hrefuses with ⟨e, he⟩
    rw [List.length_nil] at hcontents he
    rw [List.nil_append, executeJob_cons]
    rcases hres : db.execute buildKey (envs 0) cmd with ⟨res, db1⟩
    rw [hres] at hperform haof
    rw [hperform] at he hcontents
    cases (show res = .err e from he)
    exact ⟨_, _, rfl, hcontents, by simpa [Outcome.isOk] using haof⟩
  | cons c before ih =>
    have ⟨hinv', hperform, haof⟩ := execute_refines hinv (envs 0) c
    rw [View.performAll, hperform] at hbefore
    rw [List.cons_append, executeJob_cons]
    rcases hres : db.execute buildKey (envs 0) c with ⟨res, db1⟩
    rw [hres] at hbefore hinv' haof
    cases res with
    | ok val =>
      rcases ih hinv' hbefore hrefuses with ⟨e, db', hjob, hcontents, haof'⟩
      refine ⟨e, db', hjob, hcontents, ?_⟩
      rw [haof', haof, if_pos (by rfl), List.flatMap_cons, List.append_assoc]
    | err e => cases hbefore
    | panic => cases hbefore

theorem flush_of_written_eq_nil {commands : List PipelineCommand}
    (h : commands.flatMap PipelineCommand.written = [])
    : ∀ c ∈ commands, ∃ d, c = .kvFlush d := by
  intro c hc
  have hwritten := List.flatMap_eq_nil_iff.mp h c hc
  cases c with
  | kvFlush d => exact ⟨d, rfl⟩
  | _ => simp [PipelineCommand.written] at hwritten

theorem written_of_flushes {commands : List PipelineCommand}
    (h : ∀ c ∈ commands, ∃ d, c = .kvFlush d)
    : commands.flatMap PipelineCommand.written = [] := by
  rw [List.flatMap_eq_nil_iff]
  intro c hc
  rcases h c hc with ⟨d, rfl⟩
  rfl

theorem jobAtomic_iff (db : DB) (hinv : db.toStores.Inv buildKey) (envs : Nat → Env)
    (commands : List PipelineCommand)
    : JobAtomic buildKey db envs commands
        ↔
      db.toStores.view.NeverRefuses envs commands ∨ db.toStores.view.RefusesFirst envs commands := by
  constructor
  . intro h
    by_cases hnever : db.toStores.view.NeverRefuses envs commands
    . exact .inl hnever
    . right
      simp only [View.NeverRefuses, not_forall, not_not] at hnever
      rcases hnever with ⟨before, cmd, after, rfl, v, hv, hrefuses⟩
      rcases executeJob_of_refuses hinv hv hrefuses after with ⟨e, db', hjob, hcontents, haof⟩
      have ⟨hcontents', haof'⟩ := h.err e db' hjob
      have hflush := flush_of_written_eq_nil (List.append_right_eq_self.mp (haof.symm.trans haof'))
      rcases db.toStores.view.performAll_flushes envs hflush with ⟨v', hv', hlists, hlogs, hkv⟩
      cases Option.some.inj (hv.symm.trans hv')
      have hsame : v.contents = db.toStores.view.contents := hcontents.symm.trans hcontents'
      have hkv' : v.contents.kv = db.toStores.view.contents.kv := congrArg Contents.kv hsame
      refine ⟨before, cmd, after, rfl, ?_, hrefuses.congr hkv' hlists hlogs⟩
      intro c hc
      rcases hflush c hc with ⟨d, rfl⟩
      refine ⟨d, rfl, ?_⟩
      intro key
      rw [← hkv', hkv, if_pos hc]
  . intro h
    refine ⟨?_, ?_⟩
    . intro e db' hjob
      rcases h with hnever | ⟨flushes, cmd, after, rfl, hflush, hrefuses⟩
      . rcases executeJob_err hinv hjob with ⟨before, cmd, after, v, hsplit, hv, hrefuses⟩
        exact absurd hrefuses (hnever before cmd after hsplit v hv)
      . have hflush' : ∀ c ∈ flushes, ∃ d, c = .kvFlush d := by
          intro c hc
          rcases hflush c hc with ⟨d, rfl, _⟩
          exact ⟨d, rfl⟩
        rcases db.toStores.view.performAll_flushes envs hflush' with ⟨v, hv, hlists, hlogs, hkv⟩
        have hkv' : db.toStores.view.contents.kv = v.contents.kv := by
          funext d key
          rw [hkv]
          split
          . next hmem =>
            rcases hflush _ hmem with ⟨d', heq, hempty⟩
            cases heq
            exact hempty key
          . rfl
        have hrefuses' := hrefuses.congr hkv' hlists.symm hlogs.symm
        rcases executeJob_of_refuses hinv hv hrefuses' after with ⟨e', db'', hjob', hcontents, haof⟩
        rw [hjob', Prod.mk.injEq] at hjob
        rw [← hjob.2, haof, written_of_flushes hflush', List.append_nil]
        refine ⟨?_, rfl⟩
        rw [hcontents]
        unfold Stores.contents
        simp only [View.contents, hlists, hlogs, Contents.mk.injEq, and_self, and_true]
        exact hkv'.symm
    . intro db' hjob
      have ⟨hview, haof⟩ := executeJob_ok hinv hjob
      exact ⟨_, hview, rfl, haof⟩

theorem jobAtomic_flush_pop
    : ∃ db,
        DB.new true none = .ok db
          ∧ JobAtomic (fun _ id => id) db (fun _ => Env.steady) [.kvFlush "d", .listPop "l"] := by
  have hinv : Stores.Inv (fun _ id => id) ⟨KvStore.new, SegList.blank.grown, GroupManager.new⟩ :=
    Stores.inv_new Stores.new_eq_ok
  refine ⟨⟨_, [], none⟩, rfl, ?_⟩
  apply (jobAtomic_iff _ hinv _ _).mpr
  refine .inr ⟨[.kvFlush "d"], .listPop "l", [], rfl, ?_, rfl⟩
  intro c hc
  exact ⟨"d", List.mem_singleton.mp hc, fun _ => rfl⟩

-- the value that was set stays although the pop after it has failed
theorem not_jobAtomic_set_pop
    : ∃ db db',
        DB.new true none = .ok db
          ∧ db.executeJob (fun _ id => id) (fun _ => Env.steady) [.kvSet "d" "k" [1] 0, .listPop "l"]
              = (.err (.execError (.listPopError .keyNotFound)), db')
          ∧ db.toStores.contents.kv "d" "k" = none
          ∧ (db'.toStores.contents.kv "d" "k").isSome
          ∧ db.aof = []
          ∧ db'.aof = [.kvSet "d" "k" [1] 0]
          ∧ ¬JobAtomic (fun _ id => id) db (fun _ => Env.steady)
              [.kvSet "d" "k" [1] 0, .listPop "l"] := by
  refine ⟨⟨_, [], none⟩, _, rfl, rfl, rfl, rfl, rfl, rfl, ?_⟩
  intro h
  have := (h.err _ _ rfl).2
  contradiction

end DB
end MemStream
