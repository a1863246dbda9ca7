import MemStream.Db.Lemmas.Db.Follower
import MemStream.Db.Lemmas.Db.Lifetime
import MemStream.Lib.Overwrite

namespace MemStream

/-- The names that are used as keys of each database. -/
structure Keyspace where
  keys : String → List String
  few : ∀ d, (keys d).length < 1024

def Keyspace.single (key : String) : Keyspace where
  keys := fun _ => [key]
  few := by simp

def AofEntry.effect : AofEntry → String × String → Option (Option (List UInt8))
  | .kvSet d key val _, name => if name = (d, key) then some (some val) else none
  | .kvDel d key, name => if name = (d, key) then some none else none
  | .kvFlush d, name => if name.1 = d then some none else none
  | _, _ => none

def AofEntry.Within (names : Keyspace) : AofEntry → Prop
  | .kvSet d key _ ttl => ttl = 0 ∧ key ∈ names.keys d
  | _ => True

def DB.Op.Within (names : Keyspace) : DB.Op → Prop
  | .kvSet d key _ ttl => ttl = 0 ∧ key ∈ names.keys d
  | _ => True

theorem AofEntry.effect_of_not_kv {entry : AofEntry} (h : entry.isKv = false) (name : String × String)
    : entry.effect name = none := by
  cases entry with
  | kvSet | kvDel | kvFlush => simp [AofEntry.isKv, AofEntry.category] at h
  | _ => rfl

open Overwrite

namespace KvStore

def values (store : KvStore) (name : String × String) : Option (List UInt8) :=
  store.value name.1 name.2

end KvStore

namespace Keyspace

variable {names : Keyspace}

/-- What has a value has one of the names. -/
def Covers (names : Keyspace) (values : String × String → Option (List UInt8)) : Prop :=
  ∀ name, (values name).isSome → name.2 ∈ names.keys name.1

theorem covers_none (names : Keyspace) : names.Covers fun _ => none := by
  intro name h
  cases h

theorem Covers.write {values : String × String → Option (List UInt8)} (h : names.Covers values)
    {entry : AofEntry} (hentry : entry.Within names)
    : names.Covers (write AofEntry.effect values entry) := by
  intro name hsome
  unfold Overwrite.write at hsome
  cases entry with
  | kvSet d key val ttl =>
    dsimp only [AofEntry.effect] at hsome
    split at hsome
    . next heq =>
      rw [heq]
      exact hentry.2
    . exact h name hsome
  | kvDel d key =>
    dsimp only [AofEntry.effect] at hsome
    split at hsome
    . cases hsome
    . exact h name hsome
  | kvFlush d =>
    dsimp only [AofEntry.effect] at hsome
    split at hsome
    . cases hsome
    . exact h name hsome
  | _ => exact h name hsome

theorem Covers.writeAll {values : String × String → Option (List UInt8)} (h : names.Covers values)
    {entries : List AofEntry} (hentries : ∀ entry ∈ entries, entry.Within names)
    : names.Covers (writeAll AofEntry.effect values entries) := by
  induction entries generalizing values with
  | nil => exact h
  | cons entry entries ih =>
    exact ih (h.write (hentries entry (by simp))) fun e he => hentries e (by simp [he])

theorem Covers.small {store : KvStore} (h : names.Covers store.values) : store.Small := by
  intro d
  have hsubset : (store.getDb d).entries.keys ⊆ names.keys d := by
    intro key hkey
    exact h (d, key) ((store.mem_keys_iff_value d key).mp hkey)
  have hle := (List.subperm_of_subset (store.getDb d).entries.keys_nodup hsubset).length_le
  have hlength : (store.getDb d).entries.keys.length = (store.getDb d).entries.entries.length := by
    simp [AList.keys, List.keys]
  have := names.few d
  omega

end Keyspace

namespace KvStore

variable {names : Keyspace} {store : KvStore}

theorem values_afterEntry (h : names.Covers store.values) (env : Env) {entry : AofEntry}
    (hentry : entry.Within names)
    : (store.afterEntry env entry).values = write AofEntry.effect store.values entry := by
  funext name
  rcases name with ⟨d', key'⟩
  unfold write
  cases entry with
  | kvSet d key val ttl =>
    rcases hentry with ⟨rfl, _⟩
    show (store.set env.clock env.order d key val 0).2.value d' key' = _
    rw [value_set (h.small d)]
    simp only [AofEntry.effect, Prod.mk.injEq]
    split
    . rfl
    . rfl
  | kvDel d key =>
    show (store.del d key).2.value d' key' = _
    rw [value_del]
    simp only [AofEntry.effect, Prod.mk.injEq]
    split
    . rfl
    . rfl
  | kvFlush d =>
    show (store.flush d).2.value d' key' = _
    rw [value_flush]
    simp only [AofEntry.effect]
    split
    . rfl
    . rfl
  | _ => rfl

theorem lasting_afterEntry (h : store.Lasting) (env : Env) {entry : AofEntry} (hentry : entry.Within names)
    : (store.afterEntry env entry).Lasting := by
  cases entry with
  | kvSet d key val ttl =>
    rcases hentry with ⟨rfl, _⟩
    exact h.set env.clock env.order d key val
  | kvDel d key => exact h.del d key
  | kvFlush d => exact h.flush d
  | _ => exact h

end KvStore

/-
The entries of the file, at a start and on a follower.
-/

section Entries

variable {buildKey : String → UInt64 → UInt64} {names : Keyspace}

theorem applyAll_values {s t : Stores} (h : names.Covers s.kvStore.values) (hlasting : s.kvStore.Lasting)
    {entries : List (AofEntry × Env)} (hentries : ∀ e ∈ entries, e.1.Within names)
    (hok : applyAll buildKey s entries = (.ok (), t))
    : t.kvStore.values = writeAll AofEntry.effect s.kvStore.values (entries.map Prod.fst)
        ∧ t.kvStore.Lasting := by
  induction entries generalizing s with
  | nil =>
    cases hok
    exact ⟨rfl, hlasting⟩
  | cons e entries ih =>
    rcases e with ⟨entry, env⟩
    have hentry : entry.Within names := hentries (entry, env) (by simp)
    unfold applyAll at hok
    split at hok
    . next s' hs' =>
      have hkv := applyAof_kvStore buildKey s env entry
      rw [hs'] at hkv
      have hvalues : s'.kvStore.values = write AofEntry.effect s.kvStore.values entry := by
        rw [hkv, KvStore.values_afterEntry h env hentry]
      have hcovers : names.Covers s'.kvStore.values := by
        rw [hvalues]
        exact h.write hentry
      have hlasting' : s'.kvStore.Lasting := by
        rw [hkv]
        exact KvStore.lasting_afterEntry hlasting env hentry
      have ⟨hrest, hend⟩ := ih hcovers hlasting' (fun e he => hentries e (by simp [he])) hok
      refine ⟨?_, hend⟩
      rw [hrest, hvalues]
      rfl
    . next hres =>
      rw [hok] at hres
      exact absurd rfl (hres t)

theorem applyAll_schedule_values {s t : Stores} (h : names.Covers s.kvStore.values)
    (hlasting : s.kvStore.Lasting) {file : List AofEntry} (hfile : ∀ entry ∈ file, entry.Within names)
    {schedule : List (AofEntry × Env)}
    (hschedule : (loadAofSeparated file).Interleaves (schedule.map Prod.fst))
    (hok : applyAll buildKey s schedule = (.ok (), t))
    : t.kvStore.values = writeAll AofEntry.effect s.kvStore.values file ∧ t.kvStore.Lasting := by
  have hidle (entry : AofEntry) (hentry : decide (entry.category = .kv) = false)
      : ∀ name, entry.effect name = none :=
    AofEntry.effect_of_not_kv hentry
  have hfilter := interleaves_iff.mp hschedule .kv
  have hentries (e : AofEntry × Env) (he : e ∈ schedule) : e.1.Within names := by
    cases hentry : e.1 with
    | kvSet d key val ttl =>
      have hmem : e.1 ∈ (schedule.map Prod.fst).filter (·.category = .kv) := by
        rw [List.mem_filter]
        refine ⟨List.mem_map_of_mem he, ?_⟩
        rw [hentry]
        rfl
      rw [hfilter, hentry] at hmem
      exact hfile _ (List.mem_of_mem_filter hmem)
    | _ => trivial
  have ⟨hvalues, hend⟩ := applyAll_values h hlasting hentries hok
  refine ⟨?_, hend⟩
  calc t.kvStore.values
    _ = writeAll AofEntry.effect s.kvStore.values (schedule.map Prod.fst) := hvalues
    _ = writeAll AofEntry.effect s.kvStore.values file := by
      rw [← writeAll_filter hidle _ (schedule.map Prod.fst), hfilter, writeAll_filter hidle]

theorem loadAndApply_values {fresh db : DB} (h : names.Covers fresh.kvStore.values)
    (hlasting : fresh.kvStore.Lasting) {file : List AofEntry}
    (hfile : ∀ entry ∈ file, entry.Within names) {schedule : Schedule file}
    (hload : fresh.loadAndApply buildKey schedule = (.ok (), db))
    : db.kvStore.values = writeAll AofEntry.effect fresh.kvStore.values file
        ∧ db.kvStore.Lasting := by
  unfold DB.loadAndApply at hload
  rcases hall : applyAll buildKey fresh.toStores schedule.entries with ⟨res, s⟩
  rw [hall] at hload
  rcases Prod.mk.inj hload with ⟨rfl, rfl⟩
  exact applyAll_schedule_values h hlasting hfile schedule.interleaves hall

theorem values_of_new {stores : Stores} (h : Stores.new true = .ok stores)
    : (stores.kvStore.values = fun _ => none) ∧ stores.kvStore.Lasting := by
  rw [Stores.new_eq_ok, Outcome.ok.injEq] at h
  subst h
  refine ⟨rfl, ?_⟩
  intro d key entry hlookup
  cases hlookup

namespace DB

theorem applyAofEntry_kvStore (db : DB) (env : Env) (entry : AofEntry)
    : (db.applyAofEntry buildKey env entry).kvStore = db.kvStore.afterEntry env entry := by
  cases entry with
  | _ => rfl

theorem applyAof_values {db : DB} (h : names.Covers db.kvStore.values)
    {entries : List (AofEntry × Env)} (hentries : ∀ e ∈ entries, e.1.Within names)
    : (db.applyAof buildKey entries).2.kvStore.values
          = writeAll AofEntry.effect db.kvStore.values (entries.map Prod.fst)
        ∧ (db.applyAof buildKey entries).2.list = db.list
        ∧ (db.applyAof buildKey entries).2.groupManager = db.groupManager := by
  unfold applyAof
  dsimp only
  induction entries generalizing db with
  | nil => exact ⟨rfl, rfl, rfl⟩
  | cons e entries ih =>
    rcases e with ⟨entry, env⟩
    have hentry : entry.Within names := hentries (entry, env) (by simp)
    have hvalues : (db.applyAofEntry buildKey env entry).kvStore.values
        = Overwrite.write AofEntry.effect db.kvStore.values entry := by
      rw [applyAofEntry_kvStore, KvStore.values_afterEntry h env hentry]
    have hframe : (db.applyAofEntry buildKey env entry).list = db.list
        ∧ (db.applyAofEntry buildKey env entry).groupManager = db.groupManager := by
      cases entry with
      | _ => exact ⟨rfl, rfl⟩
    have hcovers : names.Covers (db.applyAofEntry buildKey env entry).kvStore.values := by
      rw [hvalues]
      exact h.write hentry
    rw [List.foldl_cons]
    have ⟨hrest, hlist, hgroups⟩ := ih hcovers fun e he => hentries e (by simp [he])
    refine ⟨?_, hlist.trans hframe.1, hgroups.trans hframe.2⟩
    rw [hrest, hvalues]
    rfl

end DB
end Entries

/-
The operations of the database: what an operation sends has the effect of the operation, and is what it logs,
unless it is a flush.
-/

namespace DB

variable {buildKey : String → UInt64 → UInt64} {names : Keyspace} {db : DB}

theorem afterOp_eq_afterEntry {op : Op} {entry : AofEntry} (h : op.entry = some entry) (store : KvStore)
    (env : Env)
    : store.afterOp env op = store.afterEntry env entry := by
  cases op with
  | kvSet | kvDel | logCreateGroup | logDropGroup | logAdd | logAddRange | logRemove | listPush
  | listPushRange | listPop | listPopRange | listPopCount | listFlush =>
    cases h
    rfl
  | _ => contradiction

theorem Op.Within.entry {op : Op} (h : op.Within names) {entry : AofEntry} (hentry : op.entry = some entry)
    : entry.Within names := by
  cases op with
  | kvSet =>
    cases hentry
    exact h
  | kvDel | logCreateGroup | logDropGroup | logAdd | logAddRange | logRemove | listPush
  | listPushRange | listPop | listPopRange | listPopCount | listFlush =>
    cases hentry
    trivial
  | _ => contradiction

theorem write_of_failed {s : Stores} {env : Env} {entry : AofEntry}
    (h : (s.perform buildKey env entry).1.isOk = false)
    : Overwrite.write AofEntry.effect s.kvStore.values entry = s.kvStore.values := by
  cases entry with
  | kvSet | kvFlush => cases h
  | kvDel d key =>
    have hisOk : ((s.kvStore.del d key).1.mapErr DBError.kvDelError).isOk = false := h
    rw [Outcome.isOk_mapErr, KvStore.del_isOk] at hisOk
    have hnone := Option.not_isSome_iff_eq_none.mp (Bool.eq_false_iff.mp hisOk)
    funext name
    simp only [Overwrite.write, AofEntry.effect]
    split
    . next heq =>
      rw [heq]
      exact hnone.symm
    . rfl
  | _ => rfl

theorem lasting_call (h : db.kvStore.Lasting) {op : Op} (hop : op.Within names)
    (buildKey : String → UInt64 → UInt64) (env : Env)
    : (db.call buildKey env op).2.kvStore.Lasting := by
  rw [call_kvStore]
  cases hentry : op.entry with
  | none =>
    cases op with
    | kvGet d key => exact h.get env.clock d key
    | kvFlush d => exact h.flush d
    | kvKeys | logRead | logReadRange | logListGroups | logGroupStats | listLen => exact h
    | _ => contradiction
  | some entry =>
    rw [afterOp_eq_afterEntry hentry]
    exact KvStore.lasting_afterEntry h env (hop.entry hentry)

theorem call_sends (h : names.Covers db.kvStore.values) (hlasting : db.kvStore.Lasting) {op : Op}
    (hop : op.Within names) (buildKey : String → UInt64 → UInt64) (env : Env)
    : ∃ sent : List AofEntry,
        (db.call buildKey env op).2.events = db.events.map (· ++ sent)
          ∧ ((db.call buildKey env op).2.aof = db.aof ++ sent
              ∨ (∃ d, op = .kvFlush d) ∧ (db.call buildKey env op).2.aof = db.aof)
          ∧ (∀ entry ∈ sent, entry.Within names)
          ∧ (db.call buildKey env op).2.kvStore.values
              = writeAll AofEntry.effect db.kvStore.values sent := by
  have hnothing (hevents : (db.call buildKey env op).2.events = db.events)
      (haof : (db.call buildKey env op).2.aof = db.aof)
      (hvalues : (db.call buildKey env op).2.kvStore.values = db.kvStore.values)
      : ∃ sent : List AofEntry,
          (db.call buildKey env op).2.events = db.events.map (· ++ sent)
            ∧ ((db.call buildKey env op).2.aof = db.aof ++ sent
                ∨ (∃ d, op = .kvFlush d) ∧ (db.call buildKey env op).2.aof = db.aof)
            ∧ (∀ entry ∈ sent, entry.Within names)
            ∧ (db.call buildKey env op).2.kvStore.values
                = writeAll AofEntry.effect db.kvStore.values sent :=
    ⟨[], by simp [hevents], by simp [haof], by simp, hvalues⟩
  cases hentry : op.entry with
  | none =>
    cases op with
    | kvGet d key =>
      apply hnothing rfl rfl
      funext name
      exact hlasting.value_get env.clock d key name.1 name.2
    | kvFlush d =>
      have hentry : (AofEntry.kvFlush d).Within names := trivial
      refine ⟨[.kvFlush d], rfl, .inr ⟨⟨d, rfl⟩, rfl⟩, by simp [AofEntry.Within], ?_⟩
      rw [call_kvStore]
      exact KvStore.values_afterEntry h env hentry
    | kvKeys | logRead | logReadRange | logListGroups | logGroupStats | listLen =>
      exact hnothing rfl rfl rfl
    | _ => contradiction
  | some entry =>
    have hvalues : (db.call buildKey env op).2.kvStore.values
        = Overwrite.write AofEntry.effect db.kvStore.values entry := by
      rw [call_kvStore, afterOp_eq_afterEntry hentry, KvStore.values_afterEntry h env (hop.entry hentry)]
    cases hok : (db.toStores.perform buildKey env entry).1.isOk with
    | true =>
      refine ⟨[entry], ?_, .inl ?_, ?_, hvalues⟩
      . rw [db.call_eq_perform buildKey env hentry]
        unfold perform log
        simp only [hok, if_true]
        rfl
      . rw [db.call_eq_perform buildKey env hentry, perform_aof, hok, if_pos rfl]
      . intro entry' hmem
        rw [List.mem_singleton.mp hmem]
        exact hop.entry hentry
    | false =>
      apply hnothing
      . rw [db.call_eq_perform buildKey env hentry]
        unfold perform log
        simp only [hok, Bool.false_eq_true, if_false]
      . rw [db.call_eq_perform buildKey env hentry, perform_aof, hok, if_neg Bool.false_ne_true]
      . rw [hvalues, write_of_failed hok]

end DB
end MemStream
