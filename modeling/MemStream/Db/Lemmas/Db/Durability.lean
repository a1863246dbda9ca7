import MemStream.Db.Lemmas.Db.Run
import MemStream.Db.Lemmas.Db.Replay
import MemStream.Lib.Machine

/-!
The lists and the logs of a run survive a restart. A replay differs from the run in what is not logged:
a key with an empty list may be missing after it, so that an operation on the key that had succeeded is
refused, but then it would not have changed anything.
-/

namespace MemStream

namespace Queues

def Same (q q' : Queues) : Prop :=
  ∀ key, q.get key = q'.get key

theorem Same.set {q q' : Queues} (h : Same q q') (key : String) (items : List (List UInt8))
    : Same (q.set key items) (q'.set key items) := by
  intro key'
  rw [get_set, get_set, h key']

theorem Same.set_left {q q' : Queues} (h : Same q q') {key : String} {items : List (List UInt8)}
    (hitems : q'.get key = items)
    : Same (q.set key items) q' := by
  intro key'
  rw [get_set]
  split
  . next heq => rw [heq, hitems]
  . exact h key'

theorem Same.push {q q' : Queues} (h : Same q q') (key : String) (payload : List UInt8)
    : (q.push key payload).1 = (q'.push key payload).1
        ∧ Same (q.push key payload).2 (q'.push key payload).2 := by
  unfold Queues.push
  split
  . exact ⟨rfl, h⟩
  . rw [h key]
    exact ⟨rfl, h.set key _⟩

theorem Same.pushRange {q q' : Queues} (h : Same q q') (key : String) (items : List (List UInt8))
    : (q.pushRange key items).1 = (q'.pushRange key items).1
        ∧ Same (q.pushRange key items).2 (q'.pushRange key items).2 := by
  induction items generalizing q q' with
  | nil => exact ⟨rfl, h⟩
  | cons item items ih =>
    unfold Queues.pushRange
    split
    . exact ⟨rfl, h⟩
    . rw [h key]
      exact ih (h.set key _)

end Queues

namespace Pooled

def Same (p p' : Pooled) : Prop :=
  Queues.Same p.queues p'.queues

theorem Same.push {p p' : Pooled} (h : Same p p') (key : String) (payload : List UInt8)
    : (p.push true key payload).1 = (p'.push true key payload).1
        ∧ Same (p.push true key payload).2 (p'.push true key payload).2 := by
  have ⟨hres, hqueues⟩ := p.push_eq key payload
  have ⟨hres', hqueues'⟩ := p'.push_eq key payload
  unfold Same
  rw [hres, hqueues, hres', hqueues']
  exact Queues.Same.push h key payload

theorem Same.pushRange {p p' : Pooled} (h : Same p p') (key : String) (items : List (List UInt8))
    : (p.pushRange (fun _ => true) key items).1 = (p'.pushRange (fun _ => true) key items).1
        ∧ Same (p.pushRange (fun _ => true) key items).2
            (p'.pushRange (fun _ => true) key items).2 := by
  have ⟨hres, hqueues⟩ := p.pushRange_eq key items
  have ⟨hres', hqueues'⟩ := p'.pushRange_eq key items
  unfold Same
  rw [hres, hqueues, hres', hqueues']
  exact Queues.Same.pushRange h key items

theorem Same.pop {p p' : Pooled} (h : Same p p') (key : String)
    : (p.pop key).1 = (p'.pop key).1 ∧ Same (p.pop key).2 (p'.pop key).2 := by
  unfold Pooled.pop
  rw [h key]
  split
  . exact ⟨rfl, h⟩
  . exact ⟨rfl, Queues.Same.set h key _⟩

theorem Same.popTimes {p p' : Pooled} (h : Same p p') (key : String) (n : Nat)
    : (p.popTimes key n).1 = (p'.popTimes key n).1
        ∧ Same (p.popTimes key n).2 (p'.popTimes key n).2 := by
  induction n generalizing p p' with
  | zero => exact ⟨rfl, h⟩
  | succ n ih =>
    rcases h.pop key with ⟨hres, hsame⟩
    unfold Pooled.popTimes
    rcases hpop : p.pop key with ⟨res, p1⟩
    rcases hpop' : p'.pop key with ⟨res', p1'⟩
    rw [hpop, hpop'] at hres hsame
    dsimp only at hres hsame
    rw [← hres]
    cases res with
    | ok data =>
      rcases ih hsame with ⟨hrest, hsame'⟩
      dsimp only
      rw [hrest]
      exact ⟨rfl, hsame'⟩
    | err e => exact ⟨rfl, hsame⟩
    | panic => exact ⟨rfl, hsame⟩

theorem Same.popCount {p p' : Pooled} (h : Same p p') (key : String) (count : Nat)
    : (p.popCount key count).1 = (p'.popCount key count).1
        ∧ Same (p.popCount key count).2 (p'.popCount key count).2 := by
  unfold Pooled.popCount
  split
  . exact ⟨rfl, h⟩
  . exact h.popTimes key (count + 1)

theorem Same.popRange {p p' : Pooled} (h : Same p p') {key : String} {start stop : Nat}
    (hok : (p.popRange key start stop).1.isOk)
    : (p'.popRange key start stop).1 ≠ .panic
        ∧ Same (p.popRange key start stop).2 (p'.popRange key start stop).2 := by
  have hkey := h key
  have ⟨hres, hqueues⟩ := p.popRange_eq key start stop
  have ⟨hres', hqueues'⟩ := p'.popRange_eq key start stop
  unfold Same
  rw [hres] at hok
  rw [hqueues, hres', hqueues']
  unfold Queues.get at hkey
  unfold Queues.popRange at hok ⊢
  cases hq : p.queues key with
  | none =>
    rw [hq] at hok
    contradiction
  | some items =>
    rw [hq] at hok hkey
    dsimp only at hok ⊢
    rw [Option.getD_some] at hkey
    by_cases hstop : stop > items.length
    . rw [if_pos hstop] at hok
      contradiction
    . rw [if_neg hstop] at hok ⊢
      by_cases hstart : start > stop
      . rw [if_pos hstart] at hok
        contradiction
      . rw [if_neg hstart]
        cases hq' : p'.queues key with
        | none =>
          -- only the empty list is missing after a replay
          rw [hq', Option.getD_none] at hkey
          refine ⟨by simp, Queues.Same.set_left h ?_⟩
          unfold Queues.get
          rw [hq', hkey]
          simp
        | some items' =>
          rw [hq', Option.getD_some] at hkey
          dsimp only
          rw [← hkey, if_neg hstop, if_neg hstart]
          exact ⟨by simp, Queues.Same.set h key _⟩

theorem Same.flush {p p' : Pooled} (h : Same p p') {key : String} (hok : (p.flush key).1.isOk)
    : (p'.flush key).1 ≠ .panic ∧ Same (p.flush key).2 (p'.flush key).2 := by
  have ⟨hres, hqueues⟩ := p.flush_eq key
  have ⟨hres', hqueues'⟩ := p'.flush_eq key
  unfold Same
  rw [hres] at hok
  rw [hqueues, hres', hqueues']
  unfold Queues.flush at hok ⊢
  cases hq : p.queues key with
  | none =>
    rw [hq] at hok
    contradiction
  | some items =>
    cases hq' : p'.queues key with
    | none =>
      refine ⟨by simp, Queues.Same.set_left h ?_⟩
      unfold Queues.get
      rw [hq']
      rfl
    | some items' => exact ⟨by simp, Queues.Same.set h key _⟩

end Pooled

namespace View

structure Same (v v' : View) : Prop where
  lists : Pooled.Same v.lists v'.lists
  logs : v.logs = v'.logs

def SameAt (v : View) : EntryCategory → View → Prop
  | .kv, _ => True
  | .list, v' => Pooled.Same v.lists v'.lists
  | .log, v' => v.logs = v'.logs

def Succeeds (env : Env) : Prop :=
  ∀ i, env.alloc i = true

theorem onLists_same {α : Type} {v v' : View} (hlogs : v.logs = v'.logs) (wrap : ListError → DBError)
    {res res' : Outcome ListError α × Pooled}
    (h : res.1.isOk → res'.1 ≠ .panic ∧ Pooled.Same res.2 res'.2)
    (hok : (v.onLists wrap res).1.isOk)
    : (v'.onLists wrap res').1 ≠ .panic ∧ Same (v.onLists wrap res).2 (v'.onLists wrap res').2 := by
  rcases res with ⟨res, p⟩
  rcases res' with ⟨res', p'⟩
  have hres : res.isOk := by
    cases res with
    | ok val => rfl
    | err e => contradiction
    | panic => contradiction
  have ⟨hpanic, hsame⟩ := h hres
  refine ⟨?_, hsame, hlogs⟩
  cases res' with
  | ok val => simp [onLists]
  | err e => simp [onLists]
  | panic => exact absurd rfl hpanic

theorem isOk_ne_panic {ε α : Type} {res res' : Outcome ε α} (h : res = res') (hok : res.isOk)
    : res' ≠ .panic := by
  rintro rfl
  rw [h] at hok
  contradiction

theorem Same.perform {v v' : View} (h : Same v v') {env env' : Env} (henv : Succeeds env)
    (henv' : Succeeds env') (entry : AofEntry) (hok : (v.perform env entry).1.isOk)
    : (v'.perform env' entry).1 ≠ .panic
        ∧ Same (v.perform env entry).2 (v'.perform env' entry).2 := by
  have halloc : env.alloc = fun _ => true := funext henv
  have halloc' : env'.alloc = fun _ => true := funext henv'
  have hlists := h.lists
  have onLogs {α : Type} (wrap : GroupError → DBError) {res res' : Outcome GroupError α × Logs}
      (heq : res = res') (hok : (v.onLogs wrap res).1.isOk)
      : (v'.onLogs wrap res').1 ≠ .panic
          ∧ Same (v.onLogs wrap res).2 (v'.onLogs wrap res').2 := by
    rw [heq] at hok ⊢
    exact ⟨isOk_ne_panic rfl hok, hlists, rfl⟩
  cases entry with
  | kvSet db key val ttl => exact ⟨perform_ne_panic_of_kv v' env' rfl, hlists, h.logs⟩
  | kvDel db key => exact ⟨perform_ne_panic_of_kv v' env' rfl, hlists, h.logs⟩
  | kvFlush db => exact ⟨perform_ne_panic_of_kv v' env' rfl, hlists, h.logs⟩
  | logCreateGroup name =>
    apply onLogs _ _ hok
    rw [h.logs, halloc, halloc']
  | logDropGroup name =>
    apply onLogs _ _ hok
    rw [h.logs]
  | logAdd group timestamp payload =>
    apply onLogs _ _ hok
    rw [h.logs, halloc, halloc']
  | logAddRange group entries =>
    apply onLogs _ _ hok
    rw [h.logs, halloc, halloc']
  | logRemove group upToId =>
    apply onLogs _ _ hok
    rw [h.logs]
  | listPush key payload =>
    refine onLists_same h.logs _ (fun hres => ?_) hok
    rw [halloc] at hres ⊢
    rw [halloc']
    have ⟨heq, hsame⟩ := hlists.push key payload
    exact ⟨isOk_ne_panic heq hres, hsame⟩
  | listPushRange key items =>
    refine onLists_same h.logs _ (fun hres => ?_) hok
    rw [halloc] at hres ⊢
    rw [halloc']
    have ⟨heq, hsame⟩ := hlists.pushRange key items
    exact ⟨isOk_ne_panic heq hres, hsame⟩
  | listPop key =>
    refine onLists_same h.logs _ (fun hres => ?_) hok
    have ⟨heq, hsame⟩ := hlists.pop key
    exact ⟨isOk_ne_panic heq hres, hsame⟩
  | listPopRange key start stop =>
    exact onLists_same h.logs _ (fun hres => hlists.popRange hres) hok
  | listPopCount key count =>
    refine onLists_same h.logs _ (fun hres => ?_) hok
    have ⟨heq, hsame⟩ := hlists.popCount key count
    exact ⟨isOk_ne_panic heq hres, hsame⟩
  | listFlush key => exact onLists_same h.logs _ (fun hres => hlists.flush hres) hok

end View

namespace DB

variable (buildKey : String → UInt64 → UInt64)

def okStep (db : DB) (op : Op × Env) : Option DB :=
  match db.call buildKey op.2 op.1 with
  | (.ok (), db) => some db
  | _ => none

structure Durable (fresh : Stores) (db : DB) : Prop where
  inv : db.toStores.Inv buildKey
  replay : ∀ entries : List (AofEntry × Env), entries.map Prod.fst = db.aof →
    (∀ e ∈ entries, View.Succeeds e.2) →
    ∃ v, fresh.view.replay entries = (.ok (), v) ∧ View.Same db.toStores.view v

variable {buildKey} {db : DB}

theorem okStep_eq_some {op : Op × Env} {db' : DB} (h : db.okStep buildKey op = some db')
    : db.call buildKey op.2 op.1 = (.ok (), db') := by
  unfold okStep at h
  split at h
  . next heq =>
    rw [heq, Option.some.inj h]
  . simp at h

theorem new_eq_ok {events : Option (List AofEntry)} (h : DB.new true events = .ok db)
    : Stores.new true = .ok db.toStores ∧ db.aof = [] := by
  unfold DB.new at h
  rw [Stores.new_eq_ok, Outcome.map_ok, Outcome.ok.injEq] at h
  rw [← h, Stores.new_eq_ok]
  exact ⟨rfl, rfl⟩

theorem Durable.new {fresh : Stores} (hfresh : Stores.new true = .ok fresh)
    {events : Option (List AofEntry)} (hnew : DB.new true events = .ok db)
    : db.Durable buildKey fresh := by
  have ⟨hstores, haof⟩ := new_eq_ok hnew
  refine ⟨Stores.inv_new hstores, ?_⟩
  intro entries hentries _
  rw [haof, List.map_eq_nil_iff] at hentries
  rw [hfresh, Outcome.ok.injEq] at hstores
  rw [hentries, hstores]
  exact ⟨_, rfl, fun _ => rfl, rfl⟩

theorem Durable.step {fresh : Stores} (h : db.Durable buildKey fresh) {op : Op × Env}
    (halloc : View.Succeeds op.2) {db' : DB} (hstep : db.okStep buildKey op = some db')
    : db'.Durable buildKey fresh := by
  rcases op with ⟨op, env⟩
  have hcall := okStep_eq_some hstep
  dsimp only at halloc hcall
  cases hentry : op.entry with
  | none =>
    have ⟨hinv, haof, hlists, hlogs⟩ := call_of_not_logged h.inv env hentry
    rw [hcall] at hinv haof hlists hlogs
    refine ⟨hinv, ?_⟩
    intro entries hentries henvs
    rw [haof] at hentries
    rcases h.replay entries hentries henvs with ⟨v, hv, hsame⟩
    refine ⟨v, hv, ?_, ?_⟩
    . intro key
      rw [← hsame.lists key]
      exact congrFun hlists key
    . rw [← hsame.logs]
      exact hlogs
  | some entry =>
    have ⟨hinv, hperform⟩ := h.inv.perform_refines env entry
    rw [db.call_eq_perform buildKey env hentry] at hcall
    have hres : .ok () = (db.toStores.perform buildKey env entry).1 := by
      rw [← perform_fst, hcall]
    have hstores : db'.toStores = (db.toStores.perform buildKey env entry).2 := by
      rw [← perform_stores, hcall]
    have haof := db.perform_aof buildKey env entry
    rw [hcall] at haof
    dsimp only at haof
    rw [← hres] at hperform haof
    rw [← hstores] at hinv hperform
    refine ⟨hinv, ?_⟩
    intro entries hentries henvs
    rw [haof, if_pos (by rfl)] at hentries
    rcases List.map_eq_append_iff.mp hentries with ⟨front, last, rfl, hfront, hlast⟩
    rcases List.map_eq_singleton_iff.mp hlast with ⟨⟨entry', env'⟩, rfl, rfl⟩
    rcases h.replay front hfront (fun e he => henvs e (by simp [he])) with ⟨v, hv, hsame⟩
    have hok : (db.toStores.view.perform env entry').1.isOk := by
      rw [hperform]
      rfl
    have halloc' : View.Succeeds env' := henvs (entry', env') (by simp)
    have ⟨hpanic, hsame'⟩ := hsame.perform halloc halloc' entry' hok
    rw [hperform] at hsame'
    exact ⟨_, View.replay_concat _ front entry' env' hv hpanic, hsame'⟩

theorem Durable.start {fresh : DB} (h : db.Durable buildKey fresh.toStores)
    (hfresh : fresh.toStores.Inv buildKey) (schedule : Schedule db.aof)
    (hschedule : ∀ e ∈ schedule.entries, View.Succeeds e.2)
    : ∃ s,
        fresh.loadAndApply buildKey schedule = (.ok (), s)
          ∧ View.Same db.toStores.view s.toStores.view := by
  have hagree {category : EntryCategory} {w w' : View} (heq : w.Agree w' category)
      (hw : db.toStores.view.SameAt category w) : db.toStores.view.SameAt category w' := by
    cases category with
    | kv => trivial
    | list =>
      have heq : w.lists = w'.lists := heq
      show Pooled.Same db.toStores.view.lists w'.lists
      rw [← heq]
      exact hw
    | log => exact Eq.trans hw heq
  have hreplay (entries : List (AofEntry × Env)) (hentries : entries.map Prod.fst = db.aof)
      (henvs : ∀ e ∈ entries, View.Succeeds e.2)
      : ∃ v,
          fresh.toStores.view.replay entries = (.ok (), v)
            ∧ ∀ category, db.toStores.view.SameAt category v := by
    rcases h.replay entries hentries henvs with ⟨v, hv, hsame⟩
    refine ⟨v, hv, ?_⟩
    intro category
    cases category with
    | kv => trivial
    | list => exact hsame.lists
    | log => exact hsame.logs
  rcases DB.loadAndApply_of_inOrder hfresh ⟨Env.steady, fun _ => rfl⟩ hagree hreplay schedule hschedule
    with ⟨s, hs, hq⟩
  exact ⟨s, hs, hq .list, hq .log⟩

theorem run_survives_restart (buildKey : String → UInt64 → UInt64)
    {events events' : Option (List AofEntry)} {start fresh : DB}
    (hstart : DB.new true events = .ok start) (hfresh : DB.new true events' = .ok fresh)
    {ops : List (Op × Env)} (halloc : ∀ op ∈ ops, View.Succeeds op.2)
    (hrun : Trace.run (okStep buildKey) start ops = some db)
    (schedule : Schedule db.aof) (halloc' : ∀ e ∈ schedule.entries, View.Succeeds e.2)
    : ∃ s,
        fresh.loadAndApply buildKey schedule = (.ok (), s)
          ∧ s.toStores.contents.lists = db.toStores.contents.lists
          ∧ s.toStores.contents.logs = db.toStores.contents.logs := by
  have ⟨hnew, _⟩ := new_eq_ok hfresh
  have hdurable : db.Durable buildKey fresh.toStores := by
    have halong : Trace.Along (okStep buildKey) (fun _ op => View.Succeeds op.2) start ops :=
      Trace.along_of_mem (fun op hop _ => halloc op hop) start
    apply Trace.inv_of_along _ (Durable.new hnew hstart) halong hrun
    intro s op s' hs hop hstep
    exact hs.step hop hstep
  rcases hdurable.start (Stores.inv_new hnew) schedule halloc' with ⟨s, hs, hsame⟩
  refine ⟨s, hs, ?_, ?_⟩
  . funext key
    exact (hsame.lists key).symm
  . unfold Stores.contents View.contents
    rw [← hsame.logs]

def durableOps : List (Op × Env) :=
  [(.listPush "k" [1], Env.steady), (.logCreateGroup "g", Env.steady),
    (.listPush "k" [2], Env.steady), (.logAdd "g" 7 [3], Env.steady), (.listPop "k", Env.steady),
    (.listLen "other", Env.steady)]

theorem run_survives_restart_push_pop
    : ∃ start db s,
        DB.new true none = .ok start
          ∧ Trace.run (okStep fun _ id => id) start durableOps = some db
          ∧ start.loadAndApply (fun _ id => id) (Schedule.inOrder db.aof Env.steady) = (.ok (), s)
          ∧ s.toStores.contents.lists = db.toStores.contents.lists
          ∧ s.toStores.contents.logs = db.toStores.contents.logs := by
  have halloc : ∀ op ∈ durableOps, View.Succeeds op.2 := by
    simp [durableOps, View.Succeeds, Env.steady]
  have halloc' (file : List AofEntry)
      : ∀ e ∈ (Schedule.inOrder file Env.steady).entries, View.Succeeds e.2 := by
    simp [Schedule.inOrder, View.Succeeds, Env.steady]
  have h := run_survives_restart (fun _ id => id) (new_eq none) (new_eq none) halloc rfl
    (Schedule.inOrder _ Env.steady) (halloc' _)
  rcases h with ⟨s, hs⟩
  exact ⟨_, _, s, rfl, rfl, hs⟩

end DB
end MemStream
