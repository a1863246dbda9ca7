import MemStream.Db.Impl.Call
import MemStream.Db.Lemmas.Db.Basic

namespace MemStream
namespace DB

variable (buildKey : String → UInt64 → UInt64)

def Op.entry : Op → Option AofEntry
  | .kvSet db key val ttl => some (.kvSet db key val ttl)
  | .kvDel db key => some (.kvDel db key)
  | .logCreateGroup name => some (.logCreateGroup name)
  | .logDropGroup name => some (.logDropGroup name)
  | .logAdd group timestamp payload => some (.logAdd group timestamp payload)
  | .logAddRange group entries => some (.logAddRange group entries)
  | .logRemove group upToId => some (.logRemove group upToId)
  | .listPush key payload => some (.listPush key payload)
  | .listPushRange key items => some (.listPushRange key items)
  | .listPop key => some (.listPop key)
  | .listPopRange key start stop => some (.listPopRange key start stop)
  | .listPopCount key count => some (.listPopCount key count)
  | .listFlush key => some (.listFlush key)
  | .kvGet .. | .kvKeys .. | .kvFlush .. | .logRead .. | .logReadRange .. | .logListGroups
  | .logGroupStats .. | .listLen .. => none

def perform (db : DB) (env : Env) (entry : AofEntry) : Outcome DBError Unit × DB :=
  let res := db.toStores.perform buildKey env entry
  { db with toStores := res.2 }.log res.1 id entry

theorem log_onKv (db : DB) (wrap : String → DBError) (res : Outcome String Unit × KvStore)
    (entry : AofEntry)
    : outcome ({ db with kvStore := res.2 }.log res.1 wrap entry)
        =
      log { db with toStores := (db.toStores.onKv wrap res).2 } (db.toStores.onKv wrap res).1 id
        entry := by
  rcases res with ⟨res, store⟩
  cases res with
  | ok val => rfl
  | err e => rfl
  | panic => rfl

theorem log_onLists {α : Type} (db : DB) (wrap : ListError → DBError)
    (res : Outcome ListError α × SegList) (entry : AofEntry)
    : outcome ({ db with list := res.2 }.log res.1 wrap entry)
        =
      log { db with toStores := (db.toStores.onLists wrap res).2 } (db.toStores.onLists wrap res).1 id
        entry := by
  rcases res with ⟨res, list⟩
  cases res with
  | ok val => rfl
  | err e => rfl
  | panic => rfl

theorem log_onLogs {α : Type} (db : DB) (wrap : GroupError → DBError)
    (res : Outcome GroupError α × GroupManager) (entry : AofEntry)
    : outcome ({ db with groupManager := res.2 }.log res.1 wrap entry)
        =
      log { db with toStores := (db.toStores.onLogs wrap res).2 } (db.toStores.onLogs wrap res).1 id
        entry := by
  rcases res with ⟨res, gm⟩
  cases res with
  | ok val => rfl
  | err e => rfl
  | panic => rfl

theorem call_eq_perform (db : DB) (env : Env) {op : Op} {entry : AofEntry} (h : op.entry = some entry)
    : db.call buildKey env op = db.perform buildKey env entry := by
  cases op with
  | kvSet d key val ttl =>
    cases h
    apply log_onKv
  | kvDel d key =>
    cases h
    apply log_onKv
  | logCreateGroup name =>
    cases h
    apply log_onLogs
  | logDropGroup name =>
    cases h
    apply log_onLogs
  | logAdd group timestamp payload =>
    cases h
    apply log_onLogs
  | logAddRange group entries =>
    cases h
    apply log_onLogs
  | logRemove group upToId =>
    cases h
    apply log_onLogs
  | listPush key payload =>
    cases h
    apply log_onLists
  | listPushRange key items =>
    cases h
    apply log_onLists
  | listPop key =>
    cases h
    apply log_onLists
  | listPopRange key start stop =>
    cases h
    apply log_onLists
  | listPopCount key count =>
    cases h
    apply log_onLists
  | listFlush key =>
    cases h
    apply log_onLists
  | _ => contradiction

variable {buildKey} {db : DB}

theorem log_toStores {ε α : Type} (db : DB) (res : Outcome ε α) (mapErr : ε → DBError)
    (entry : AofEntry)
    : (db.log res mapErr entry).2.toStores = db.toStores := by
  unfold log
  split
  . rfl
  . rfl

theorem log_aof {ε α : Type} (db : DB) (res : Outcome ε α) (mapErr : ε → DBError) (entry : AofEntry)
    : (db.log res mapErr entry).2.aof = if res.isOk then db.aof ++ [entry] else db.aof := by
  unfold log
  split
  . rfl
  . rfl

theorem perform_stores (db : DB) (env : Env) (entry : AofEntry)
    : (db.perform buildKey env entry).2.toStores = (db.toStores.perform buildKey env entry).2 := by
  unfold perform
  rw [log_toStores]

theorem perform_aof (db : DB) (buildKey : String → UInt64 → UInt64) (env : Env) (entry : AofEntry)
    : (db.perform buildKey env entry).2.aof
        =
      if (db.toStores.perform buildKey env entry).1.isOk then db.aof ++ [entry] else db.aof := by
  unfold perform
  rw [log_aof]

theorem perform_fst (db : DB) (env : Env) (entry : AofEntry)
    : (db.perform buildKey env entry).1 = (db.toStores.perform buildKey env entry).1 := by
  unfold perform log
  dsimp only
  cases (db.toStores.perform buildKey env entry).1 with
  | ok val => rfl
  | err e => rfl
  | panic => rfl

theorem call_aof (buildKey : String → UInt64 → UInt64) (db : DB) (env : Env) (op : Op)
    : (db.call buildKey env op).2.aof = db.aof
        ∨ ∃ entry, op.entry = some entry
            ∧ (db.call buildKey env op).2.aof = db.aof ++ [entry] := by
  cases hentry : op.entry with
  | none =>
    cases op with
    | kvGet | kvKeys | kvFlush | logRead | logReadRange | logListGroups | logGroupStats | listLen =>
      exact .inl rfl
    | _ => contradiction
  | some entry =>
    rw [db.call_eq_perform buildKey env hentry, perform_aof]
    split
    . exact .inr ⟨entry, rfl, rfl⟩
    . exact .inl rfl

theorem call_events (buildKey : String → UInt64 → UInt64) (db : DB) (env : Env) (op : Op)
    : (db.call buildKey env op).2.events = db.events
        ∨ ∃ entry, (db.call buildKey env op).2.events = db.events.map (· ++ [entry]) := by
  cases hentry : op.entry with
  | none =>
    cases op with
    | kvGet | kvKeys | logRead | logReadRange | logListGroups | logGroupStats | listLen =>
      exact .inl rfl
    | kvFlush d => exact .inr ⟨.kvFlush d, rfl⟩
    | _ => contradiction
  | some entry =>
    rw [db.call_eq_perform buildKey env hentry]
    unfold perform log
    dsimp only
    split
    . exact .inr ⟨entry, rfl⟩
    . exact .inl rfl

theorem length_call_aof (buildKey : String → UInt64 → UInt64) (db : DB) (env : Env) (op : Op)
    : ((db.call buildKey env op).2.aof.drop db.aof.length).length ≤ 1 := by
  rcases db.call_aof buildKey env op with hsame | ⟨entry, _, hnew⟩
  . simp [hsame]
  . simp [hnew]

theorem length_call_events (buildKey : String → UInt64 → UInt64) (db : DB) (env : Env) (op : Op)
    : (((db.call buildKey env op).2.events.getD []).drop (db.events.getD []).length).length ≤ 1 := by
  rcases db.call_events buildKey env op with hsame | ⟨entry, hnew⟩
  . simp [hsame]
  . rw [hnew]
    cases db.events with
    | none => simp
    | some events => simp

theorem applyAof_events (buildKey : String → UInt64 → UInt64) (db : DB) (entries : List (AofEntry × Env))
    : (db.applyAof buildKey entries).2.events = db.events := by
  unfold applyAof
  dsimp only
  induction entries generalizing db with
  | nil => rfl
  | cons e entries ih =>
    rw [List.foldl_cons, ih]
    cases e.1 with
    | _ => rfl

theorem call_of_not_logged (hinv : db.toStores.Inv buildKey) (env : Env) {op : Op}
    (h : op.entry = none)
    : (db.call buildKey env op).2.toStores.Inv buildKey
        ∧ (db.call buildKey env op).2.aof = db.aof
        ∧ (db.call buildKey env op).2.toStores.contents.lists = db.toStores.contents.lists
        ∧ (db.call buildKey env op).2.groupManager.abs = db.groupManager.abs := by
  cases op with
  | kvGet d key => exact ⟨⟨hinv.list, hinv.groups⟩, rfl, rfl, rfl⟩
  | kvKeys d => exact ⟨⟨hinv.list, hinv.groups⟩, rfl, rfl, rfl⟩
  | kvFlush d => exact ⟨⟨hinv.list, hinv.groups⟩, rfl, rfl, rfl⟩
  | logRead group id =>
    have ⟨hgroups, habs⟩ := hinv.groups.read_frame (env.instant 0) group id
    exact ⟨⟨hinv.list, hgroups⟩, rfl, rfl, habs⟩
  | logReadRange group start stop =>
    have ⟨hgroups, habs⟩ := hinv.groups.readRange_frame env.instant group start stop
    exact ⟨⟨hinv.list, hgroups⟩, rfl, rfl, habs⟩
  | logListGroups => exact ⟨⟨hinv.list, hinv.groups⟩, rfl, rfl, rfl⟩
  | logGroupStats group => exact ⟨⟨hinv.list, hinv.groups⟩, rfl, rfl, rfl⟩
  | listLen key =>
    have ⟨hlist, habs⟩ := hinv.list.len_refines key
    refine ⟨⟨hlist, hinv.groups⟩, rfl, ?_, rfl⟩
    funext key'
    show (db.list.len key).2.abs.queues.get key' = db.list.abs.queues.get key'
    have hlen : (db.list.len key).2.abs = (db.list.abs.len key).2 := by rw [habs]
    rw [hlen]
    simp only [Pooled.len, Queues.len, Queues.get, Queues.set]
    split
    . next heq => rw [heq, Option.getD_some]
    . rfl
  | _ => contradiction

theorem Inv.call (hinv : db.toStores.Inv buildKey) (env : Env) (op : Op)
    : (db.call buildKey env op).2.toStores.Inv buildKey := by
  cases h : op.entry with
  | none => exact (call_of_not_logged hinv env h).1
  | some entry =>
    rw [db.call_eq_perform buildKey env h, perform_stores]
    exact (hinv.perform_refines env entry).1

theorem new_eq (events : Option (List AofEntry))
    : DB.new true events = .ok ⟨⟨KvStore.new, SegList.blank.grown, GroupManager.new⟩, [], events⟩ := by
  rfl

def freshDb : DB :=
  ⟨⟨KvStore.new, SegList.blank.grown, GroupManager.new⟩, [], none⟩

theorem inv_run {events : Option (List AofEntry)} (hnew : DB.new true events = .ok db)
    (ops : List (Op × Env))
    : (ops.foldl (fun db op => (db.call buildKey op.2 op.1).2) db).toStores.Inv buildKey := by
  induction ops using List.reverseRecOn with
  | nil =>
    unfold DB.new at hnew
    rw [Stores.new_eq_ok, Outcome.map_ok, Outcome.ok.injEq] at hnew
    rw [List.foldl_nil, ← hnew]
    exact Stores.inv_new Stores.new_eq_ok
  | append_singleton ops op ih =>
    rw [List.foldl_append]
    exact Inv.call ih op.2 op.1

end DB
end MemStream
