import MemStream.Db.Lemmas.Groups.Manager
import MemStream.Db.Lemmas.SegList.History
import MemStream.Db.Spec.View

namespace MemStream

def Env.steady : Env where
  clock := ⟨0, 0⟩
  order := ⟨id, fun keys => .refl keys⟩
  alloc := fun _ => true
  instant := fun _ => 0

variable (buildKey : String → UInt64 → UInt64)

namespace Stores

def onKv (s : Stores) (wrap : String → DBError) (res : Outcome String Unit × KvStore)
    : Outcome DBError Unit × Stores :=
  (res.1.mapErr wrap, { s with kvStore := res.2 })

def onLists {α : Type} (s : Stores) (wrap : ListError → DBError)
    (res : Outcome ListError α × SegList)
    : Outcome DBError Unit × Stores :=
  ((res.1.mapErr wrap).map fun _ => (), { s with list := res.2 })

def onLogs {α : Type} (s : Stores) (wrap : GroupError → DBError)
    (res : Outcome GroupError α × GroupManager)
    : Outcome DBError Unit × Stores :=
  ((res.1.mapErr wrap).map fun _ => (), { s with groupManager := res.2 })

def perform (s : Stores) (env : Env) : AofEntry → Outcome DBError Unit × Stores
  | .kvSet db key val ttl =>
    s.onKv .kvSetError (s.kvStore.set env.clock env.order db key val ttl)
  | .kvDel db key => s.onKv .kvDelError (s.kvStore.del db key)
  | .kvFlush db => s.onKv .kvFlushError (s.kvStore.flush db)
  | .logCreateGroup name =>
    s.onLogs .logCreateGroupError (s.groupManager.createGroup env.alloc name)
  | .logDropGroup name => s.onLogs .logDropGroupError (s.groupManager.dropGroup name)
  | .logAdd group timestamp payload =>
    s.onLogs .logAppendError
      (s.groupManager.add buildKey (env.alloc 0) (env.instant 0) group timestamp payload)
  | .logAddRange group entries =>
    s.onLogs .logAppendRangeError
      (s.groupManager.addRange buildKey (addRangeEnv env) group entries)
  | .logRemove group upToId =>
    s.onLogs .logRemoveError (s.groupManager.remove buildKey group upToId)
  | .listPush key payload => s.onLists .listPushError (s.list.push (env.alloc 0) key payload)
  | .listPushRange key items => s.onLists .listPushRangeError (s.list.pushRange env.alloc key items)
  | .listPop key => s.onLists .listPopError (s.list.pop key)
  | .listPopRange key start stop => s.onLists .listPopRangeError (s.list.popRange key start stop)
  | .listPopCount key count => s.onLists .listPopCountError (s.list.popCount key count)
  | .listFlush key => s.onLists .listFlushError (s.list.flush key)

structure Inv (s : Stores) : Prop where
  list : s.list.Inv
  groups : s.groupManager.Inv buildKey

def view (s : Stores) : View where
  kv := s.kvStore
  lists := s.list.abs
  logs := s.groupManager.abs

def contents (s : Stores) : Contents :=
  s.view.contents

variable {buildKey} {s : Stores}

theorem Inv.onLists_refines {α : Type} (h : s.Inv buildKey) (wrap : ListError → DBError)
    {res : Outcome ListError α × SegList} {spec : Outcome ListError α × Pooled}
    (hres : res.2.Inv ∧ spec = (res.1, res.2.abs))
    : (s.onLists wrap res).2.Inv buildKey
        ∧ s.view.onLists wrap spec = ((s.onLists wrap res).1, (s.onLists wrap res).2.view) := by
  rw [hres.2]
  exact ⟨⟨hres.1, h.groups⟩, rfl⟩

theorem Inv.onLogs_refines {α : Type} (h : s.Inv buildKey) (wrap : GroupError → DBError)
    {res : Outcome GroupError α × GroupManager} {spec : Outcome GroupError α × Logs}
    (hres : res.2.Inv buildKey ∧ spec = (res.1, res.2.abs))
    : (s.onLogs wrap res).2.Inv buildKey
        ∧ s.view.onLogs wrap spec = ((s.onLogs wrap res).1, (s.onLogs wrap res).2.view) := by
  rw [hres.2]
  exact ⟨⟨h.list, hres.1⟩, rfl⟩

theorem Inv.perform_refines (h : s.Inv buildKey) (env : Env) (entry : AofEntry)
    : (s.perform buildKey env entry).2.Inv buildKey
        ∧ s.view.perform env entry
            =
          ((s.perform buildKey env entry).1, (s.perform buildKey env entry).2.view) := by
  cases entry with
  | kvSet db key val ttl => exact ⟨⟨h.list, h.groups⟩, rfl⟩
  | kvDel db key => exact ⟨⟨h.list, h.groups⟩, rfl⟩
  | kvFlush db => exact ⟨⟨h.list, h.groups⟩, rfl⟩
  | logCreateGroup name =>
    exact h.onLogs_refines _ (h.groups.createGroup_refines env.alloc name)
  | logDropGroup name => exact h.onLogs_refines _ (h.groups.dropGroup_refines name)
  | logAdd group timestamp payload =>
    exact h.onLogs_refines _
      (h.groups.add_refines (env.alloc 0) (env.instant 0) group timestamp payload)
  | logAddRange group entries =>
    exact h.onLogs_refines _ (h.groups.addRange_refines (addRangeEnv env) group entries)
  | logRemove group upToId => exact h.onLogs_refines _ (h.groups.remove_refines group upToId)
  | listPush key payload =>
    exact h.onLists_refines _ (h.list.push_refines (env.alloc 0) key payload)
  | listPushRange key items =>
    exact h.onLists_refines _ (h.list.pushRange_refines env.alloc key items)
  | listPop key => exact h.onLists_refines _ (h.list.pop_refines key)
  | listPopRange key start stop =>
    exact h.onLists_refines _ (h.list.popRange_refines key start stop)
  | listPopCount key count => exact h.onLists_refines _ (h.list.popCount_refines key count)
  | listFlush key => exact h.onLists_refines _ (h.list.flush_refines key)

theorem new_eq_ok
    : new true = .ok ⟨KvStore.new, SegList.blank.grown, GroupManager.new⟩ := by
  unfold new
  rw [SegList.new_eq_ok]
  rfl

theorem inv_new {s : Stores} (h : new true = .ok s) : s.Inv buildKey := by
  rw [new_eq_ok, Outcome.ok.injEq] at h
  rw [← h]
  exact ⟨SegList.inv_blank.grown, GroupManager.inv_new buildKey⟩

end Stores

/-
Applying logged entries.
-/

theorem discard_mapErr {ε δ α β : Type} (res : Outcome ε α) (f : ε → δ) (g : α → β)
    : discard ((res.mapErr f).map g) = discard res := by
  cases res with
  | ok val => rfl
  | err e => rfl
  | panic => rfl

theorem discard_onLists {α : Type} (s : Stores) (wrap : ListError → DBError)
    (res : Outcome ListError α × SegList)
    : (discard res.1, { s with list := res.2 })
        =
      (discard (s.onLists wrap res).1, (s.onLists wrap res).2) := by
  unfold Stores.onLists
  rw [discard_mapErr]

theorem discard_onLogs {α : Type} (s : Stores) (wrap : GroupError → DBError)
    (res : Outcome GroupError α × GroupManager)
    : (discard res.1, { s with groupManager := res.2 })
        =
      (discard (s.onLogs wrap res).1, (s.onLogs wrap res).2) := by
  unfold Stores.onLogs
  rw [discard_mapErr]

theorem discard_onKv (s : Stores) (wrap : String → DBError) (res : Outcome String Unit × KvStore)
    : (discard res.1, { s with kvStore := res.2 })
        =
      (discard (s.onKv wrap res).1, (s.onKv wrap res).2) := by
  unfold Stores.onKv
  cases res.1 with
  | ok val => rfl
  | err e => rfl
  | panic => rfl

theorem applyAof_eq (s : Stores) (env : Env) (entry : AofEntry)
    : applyAof buildKey s env entry
        =
      (discard (s.perform buildKey env entry).1, (s.perform buildKey env entry).2) := by
  cases entry with
  | kvSet db key val ttl => apply discard_onKv
  | kvDel db key => apply discard_onKv
  | kvFlush db => apply discard_onKv
  | logCreateGroup name => apply discard_onLogs
  | logDropGroup name => apply discard_onLogs
  | logAdd group timestamp payload => apply discard_onLogs
  | logAddRange group entries => apply discard_onLogs
  | logRemove group upToId => apply discard_onLogs
  | listPush key payload => apply discard_onLists
  | listPushRange key items => apply discard_onLists
  | listPop key => apply discard_onLists
  | listPopRange key start stop => apply discard_onLists
  | listPopCount key count => apply discard_onLists
  | listFlush key => apply discard_onLists

theorem Stores.Inv.applyAll_refines {buildKey : String → UInt64 → UInt64} {s : Stores}
    (h : s.Inv buildKey) (entries : List (AofEntry × Env))
    : (applyAll buildKey s entries).2.Inv buildKey
        ∧ s.view.replay entries
            =
          ((applyAll buildKey s entries).1, (applyAll buildKey s entries).2.view) := by
  induction entries generalizing s with
  | nil => exact ⟨h, rfl⟩
  | cons entry entries ih =>
    rcases entry with ⟨entry, env⟩
    have ⟨hinv, hperform⟩ := h.perform_refines env entry
    unfold applyAll View.replay
    rw [applyAof_eq, hperform]
    rcases hres : s.perform buildKey env entry with ⟨res, s'⟩
    rw [hres] at hinv
    cases res with
    | ok val => exact ih hinv
    | err e => exact ih hinv
    | panic => exact ⟨hinv, rfl⟩

end MemStream
