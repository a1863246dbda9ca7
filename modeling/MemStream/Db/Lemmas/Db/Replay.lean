import MemStream.Db.Lemmas.Db.Basic
import MemStream.Lib.Interleave

namespace MemStream

namespace View

def Agree (v v' : View) : EntryCategory → Prop
  | .kv => v.kv = v'.kv
  | .list => v.lists = v'.lists
  | .log => v.logs = v'.logs

theorem perform_frame (v : View) (env : Env) {entry : AofEntry} {category : EntryCategory}
    (h : entry.category ≠ category)
    : v.Agree (v.perform env entry).2 category := by
  cases category with
  | kv =>
    cases entry with
    | kvSet db key val ttl => exact absurd rfl h
    | kvDel db key => exact absurd rfl h
    | kvFlush db => exact absurd rfl h
    | _ => rfl
  | list =>
    cases entry with
    | listPush key payload => exact absurd rfl h
    | listPushRange key items => exact absurd rfl h
    | listPop key => exact absurd rfl h
    | listPopRange key start stop => exact absurd rfl h
    | listPopCount key count => exact absurd rfl h
    | listFlush key => exact absurd rfl h
    | _ => rfl
  | log =>
    cases entry with
    | logCreateGroup name => exact absurd rfl h
    | logDropGroup name => exact absurd rfl h
    | logAdd group timestamp payload => exact absurd rfl h
    | logAddRange group entries => exact absurd rfl h
    | logRemove group upToId => exact absurd rfl h
    | _ => rfl

theorem perform_ne_panic_of_kv (v : View) (env : Env) {entry : AofEntry} (h : entry.category = .kv)
    : (v.perform env entry).1 ≠ .panic := by
  cases entry with
  | kvSet db key val ttl => simp [perform, onKv, KvStore.set]
  | kvDel db key =>
    simp only [perform, onKv, KvStore.del, KvDb.del]
    split
    . simp
    . simp
  | kvFlush db => simp [perform, onKv, KvStore.flush]
  | _ => contradiction

theorem replay_cons (v : View) (entry : AofEntry) (env : Env) (entries : List (AofEntry × Env))
    : v.replay ((entry, env) :: entries)
        =
      if (v.perform env entry).1 = .panic then
        (.panic, (v.perform env entry).2)
      else
        (v.perform env entry).2.replay entries := by
  rw [replay]
  rcases v.perform env entry with ⟨res, v'⟩
  cases res with
  | ok val => rfl
  | err e => rfl
  | panic => rfl

theorem replay_concat (v : View) (entries : List (AofEntry × Env)) (entry : AofEntry) (env : Env)
    {v' : View} (h : v.replay entries = (.ok (), v'))
    (hperform : (v'.perform env entry).1 ≠ .panic)
    : v.replay (entries ++ [(entry, env)]) = (.ok (), (v'.perform env entry).2) := by
  induction entries generalizing v with
  | nil =>
    rw [replay, Prod.mk.injEq] at h
    rw [List.nil_append, replay_cons, h.2, if_neg hperform, replay]
  | cons e entries ih =>
    rcases e with ⟨e, env'⟩
    rw [replay_cons] at h
    rw [List.cons_append, replay_cons]
    split at h
    . simp at h
    . next hres =>
      rw [if_neg hres]
      exact ih _ h

def ofCategory (category : EntryCategory) (entries : List (AofEntry × Env)) : List (AofEntry × Env) :=
  entries.filter fun e => e.1.category = category

end View

namespace Stores

def Agree : EntryCategory → Stores → Stores → Prop
  | .kv, s, t => s.kvStore = t.kvStore
  | .list, s, t => s.list = t.list
  | .log, s, t => s.groupManager = t.groupManager

def replace (s : Stores) (t : Stores) : EntryCategory → Stores
  | .kv => { s with kvStore := t.kvStore }
  | .list => { s with list := t.list }
  | .log => { s with groupManager := t.groupManager }

theorem agree_equiv (category : EntryCategory) : Equivalence (Agree category) := by
  cases category with
  | kv => exact ⟨fun _ => rfl, Eq.symm, Eq.trans⟩
  | list => exact ⟨fun _ => rfl, Eq.symm, Eq.trans⟩
  | log => exact ⟨fun _ => rfl, Eq.symm, Eq.trans⟩

theorem agree_replace (s t : Stores) (category : EntryCategory)
    : Agree category (s.replace t category) t := by
  cases category with
  | kv => rfl
  | list => rfl
  | log => rfl

theorem agree_replace_of_ne (s t : Stores) {category category' : EntryCategory}
    (h : category ≠ category')
    : Agree category' s (s.replace t category) := by
  cases category with
  | kv =>
    cases category' with
    | kv => contradiction
    | list => rfl
    | log => rfl
  | list =>
    cases category' with
    | kv => rfl
    | list => contradiction
    | log => rfl
  | log =>
    cases category' with
    | kv => rfl
    | list => rfl
    | log => contradiction

theorem replace_of_agree {s t : Stores} {category : EntryCategory} (h : Agree category s t)
    : t.replace s category = t := by
  rcases t with ⟨kvStore, list, groupManager⟩
  cases category with
  | kv =>
    have h : s.kvStore = kvStore := h
    simp only [replace, h]
  | list =>
    have h : s.list = list := h
    simp only [replace, h]
  | log =>
    have h : s.groupManager = groupManager := h
    simp only [replace, h]

theorem eq_of_agree {s t : Stores} (h : ∀ category, Agree category s t) : s = t := by
  rcases s with ⟨kvStore, list, groupManager⟩
  rcases t with ⟨kvStore', list', groupManager'⟩
  rw [Stores.mk.injEq]
  exact ⟨h .kv, h .list, h .log⟩

theorem Agree.view {s t : Stores} {category : EntryCategory} (h : Agree category s t)
    : s.view.Agree t.view category := by
  cases category with
  | kv => exact h
  | list => exact congrArg SegList.abs h
  | log => exact congrArg GroupManager.abs h

end Stores

section Separated

variable (buildKey : String → UInt64 → UInt64)

theorem applyAof_local (s t : Stores) (env : Env) (entry : AofEntry)
    : applyAof buildKey s env entry
        =
      ((applyAof buildKey (t.replace s entry.category) env entry).1,
        s.replace (applyAof buildKey (t.replace s entry.category) env entry).2 entry.category) := by
  cases entry with
  | kvSet | kvDel | kvFlush => rfl
  | logCreateGroup | logDropGroup | logAdd | logAddRange | logRemove => rfl
  | listPush | listPushRange | listPop | listPopRange | listPopCount | listFlush => rfl

def applyStep (s : Stores) (e : AofEntry × Env) : Option Stores :=
  if (applyAof buildKey s e.2 e.1).1 = .ok () then
    some (applyAof buildKey s e.2 e.1).2
  else
    none

theorem applyStep_eq_some {s s' : Stores} {e : AofEntry × Env}
    : applyStep buildKey s e = some s' ↔ applyAof buildKey s e.2 e.1 = (.ok (), s') := by
  unfold applyStep
  rcases applyAof buildKey s e.2 e.1 with ⟨res, t⟩
  simp

theorem separated_applyStep
    : Trace.Separated (applyStep buildKey) (fun e => e.1.category) Stores.Agree where
  equiv := Stores.agree_equiv
  frame := by
    intro s s' e category hstep hne
    rw [applyStep_eq_some, applyAof_local buildKey s s, Prod.mk.injEq] at hstep
    rw [← hstep.2]
    apply Stores.agree_replace_of_ne
    exact hne
  congr := by
    intro s t s' e hagree hstep
    rw [applyStep_eq_some, applyAof_local buildKey s t, Stores.replace_of_agree hagree,
      Prod.mk.injEq] at hstep
    refine ⟨(applyAof buildKey t e.2 e.1).2, ?_, ?_⟩
    . rw [applyStep_eq_some, ← hstep.1]
    . rw [← hstep.2]
      apply Stores.agree_replace

theorem applyAll_eq_ok {s t : Stores} {entries : List (AofEntry × Env)}
    : applyAll buildKey s entries = (.ok (), t)
        ↔
      Trace.run (applyStep buildKey) s entries = some t := by
  induction entries generalizing s with
  | nil => simp [applyAll, Trace.run]
  | cons e entries ih =>
    rcases e with ⟨entry, env⟩
    rw [Trace.run_cons_eq_some, applyAll]
    simp only [applyStep_eq_some, ← ih]
    rcases applyAof buildKey s env entry with ⟨res, s'⟩
    cases res with
    | ok val => simp
    | err e => simp
    | panic => simp

end Separated

theorem foldl_push (entries : AofEntries) (file : List AofEntry)
    : file.foldl AofEntries.push entries
        =
      { kvEntries := entries.kvEntries ++ file.filter (·.category = .kv)
        listEntries := entries.listEntries ++ file.filter (·.category = .list)
        logEntries := entries.logEntries ++ file.filter (·.category = .log) } := by
  induction file generalizing entries with
  | nil => simp
  | cons entry file ih =>
    rw [List.foldl_cons, ih]
    unfold AofEntries.push
    cases hcat : entry.category with
    | kv => simp [hcat]
    | list => simp [hcat]
    | log => simp [hcat]

theorem interleaves_iff {file schedule : List AofEntry}
    : (loadAofSeparated file).Interleaves schedule
        ↔
      ∀ category : EntryCategory,
        schedule.filter (·.category = category) = file.filter (·.category = category) := by
  unfold loadAofSeparated
  rw [foldl_push]
  constructor
  . rintro ⟨hkv, hlist, hlog⟩ category
    cases category with
    | kv => exact hkv
    | list => exact hlist
    | log => exact hlog
  . intro h
    exact ⟨h .kv, h .list, h .log⟩

namespace Schedule

def inOrder (file : List AofEntry) (env : Env) : Schedule file where
  entries := file.map fun entry => (entry, env)
  interleaves := by
    rw [interleaves_iff, List.map_map]
    intro category
    rw [show Prod.fst ∘ (fun entry => (entry, env)) = @id AofEntry by rfl, List.map_id]

theorem exists_inOrder {file : List AofEntry} {category : EntryCategory}
    {task : List (AofEntry × Env)}
    (h : task.map Prod.fst = file.filter (·.category = category))
    {P : Env → Prop} (htask : ∀ e ∈ task, P e.2) {env : Env} (henv : P env)
    : ∃ entries : List (AofEntry × Env),
        entries.map Prod.fst = file
          ∧ View.ofCategory category entries = task
          ∧ ∀ e ∈ entries, P e.2 := by
  unfold View.ofCategory
  induction file generalizing task with
  | nil =>
    have htask : task = [] := by simpa using h
    exact ⟨[], rfl, htask.symm, by simp⟩
  | cons entry file ih =>
    by_cases hcat : entry.category = category
    . rw [List.filter_cons_of_pos (by simpa using hcat)] at h
      rcases List.map_eq_cons_iff.mp h with ⟨e, task', rfl, rfl, hrest⟩
      rcases ih hrest (fun e' he' => htask e' (by simp [he'])) with ⟨entries, hmap, hof, hall⟩
      refine ⟨e :: entries, by simp [hmap], ?_, ?_⟩
      . rw [List.filter_cons_of_pos (by simpa using hcat), hof]
      . intro e' he'
        rcases List.mem_cons.mp he' with rfl | hmem
        . exact htask e' (by simp)
        . exact hall e' hmem
    . rw [List.filter_cons_of_neg (by simpa using hcat)] at h
      rcases ih h htask with ⟨entries, hmap, hof, hall⟩
      refine ⟨(entry, env) :: entries, by simp [hmap], ?_, ?_⟩
      . rw [List.filter_cons_of_neg (by simpa using hcat), hof]
      . intro e' he'
        rcases List.mem_cons.mp he' with rfl | hmem
        . exact henv
        . exact hall e' hmem

end Schedule

theorem DB.loadAndApply_of_inOrder {buildKey : String → UInt64 → UInt64} {fresh : DB}
    (hfresh : fresh.toStores.Inv buildKey) {file : List AofEntry} {P : Env → Prop}
    (henv : ∃ env, P env) {Q : EntryCategory → View → Prop}
    (hagree : ∀ {category : EntryCategory} {w w' : View},
      w.Agree w' category → Q category w → Q category w')
    (h : ∀ entries : List (AofEntry × Env), entries.map Prod.fst = file → (∀ e ∈ entries, P e.2) →
      ∃ v, fresh.toStores.view.replay entries = (.ok (), v) ∧ ∀ category, Q category v)
    (schedule : Schedule file) (hschedule : ∀ e ∈ schedule.entries, P e.2)
    : ∃ s,
        fresh.loadAndApply buildKey schedule = (.ok (), s)
          ∧ ∀ category, Q category s.toStores.view := by
  rcases henv with ⟨env, henv⟩
  have hsep := separated_applyStep buildKey
  have htask (category : EntryCategory)
      : ∃ t w,
          Trace.run (applyStep buildKey) fresh.toStores (View.ofCategory category schedule.entries)
              = some t
            ∧ Stores.Agree category w t
            ∧ Q category w.view := by
    have hmap : (View.ofCategory category schedule.entries).map Prod.fst
        = file.filter (·.category = category) := by
      rw [← interleaves_iff.mp schedule.interleaves category, List.filter_map]
      rfl
    rcases Schedule.exists_inOrder hmap (fun e he => hschedule e (List.mem_of_mem_filter he)) henv
      with ⟨entries, hfile, hof, hall⟩
    rcases h entries hfile hall with ⟨v, hv, hq⟩
    have ⟨_, hreplay⟩ := hfresh.applyAll_refines entries
    rw [hv, Prod.mk.injEq] at hreplay
    have hrun := (applyAll_eq_ok buildKey).mp (Prod.ext hreplay.1.symm rfl)
    rcases hsep.run_ofPart category hrun with ⟨t, ht, hagree⟩
    rw [← hof]
    refine ⟨t, _, ht, hagree, ?_⟩
    rw [← hreplay.2]
    exact hq category
  have hrun : ∃ s, Trace.run (applyStep buildKey) fresh.toStores schedule.entries = some s := by
    apply hsep.exists_run
    intro category
    rcases htask category with ⟨t, _, ht, _⟩
    exact ⟨t, ht⟩
  rcases hrun with ⟨s, hs⟩
  refine ⟨{ fresh with toStores := s }, ?_, ?_⟩
  . unfold loadAndApply
    rw [(applyAll_eq_ok buildKey).mpr hs]
  . intro category
    rcases htask category with ⟨t, w, ht, hw, hq⟩
    rcases hsep.run_ofPart category hs with ⟨t', ht', hagree'⟩
    cases Option.some.inj (ht.symm.trans ht')
    have hsame := (Stores.agree_equiv category).trans hw ((Stores.agree_equiv category).symm hagree')
    exact hagree hsame.view hq

end MemStream
