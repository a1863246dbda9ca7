import MemStream.Db.Impl.Life
import MemStream.Db.Lemmas.Db.Cut
import MemStream.Db.Lemmas.Db.Durability

/-!
A database over any number of starts. The lists and the logs are always what a replay of the file and of
the queue behind it makes of empty stores, so that a start from a part of the file brings back contents
that the database has already had.
-/

namespace MemStream

namespace View

theorem Same.symm {v v' : View} (h : Same v v') : Same v' v :=
  ⟨fun key => (h.lists key).symm, h.logs.symm⟩

theorem Same.trans {v v' v'' : View} (h : Same v v') (h' : Same v' v'') : Same v v'' :=
  ⟨fun key => (h.lists key).trans (h'.lists key), h.logs.trans h'.logs⟩

theorem Same.contents_eq {s t : Stores} (h : Same s.view t.view)
    : s.contents.lists = t.contents.lists ∧ s.contents.logs = t.contents.logs := by
  constructor
  . funext key
    exact h.lists key
  . unfold Stores.contents View.contents
    rw [h.logs]

end View

namespace DB

variable {buildKey : String → UInt64 → UInt64} {db : DB}

def behind (db : DB) (front : List AofEntry) : DB :=
  { db with aof := front ++ db.aof }

theorem log_behind {ε α : Type} (db : DB) (front : List AofEntry) (res : Outcome ε α)
    (mapErr : ε → DBError) (entry : AofEntry)
    : (db.behind front).log res mapErr entry
        =
      ((db.log res mapErr entry).1, (db.log res mapErr entry).2.behind front) := by
  unfold log
  split
  . simp [behind, write, send]
  . rfl

theorem call_behind (db : DB) (front : List AofEntry) (env : Env) (op : Op)
    : (db.behind front).call buildKey env op
        =
      ((db.call buildKey env op).1, (db.call buildKey env op).2.behind front) := by
  cases hentry : op.entry with
  | none =>
    cases op with
    | kvGet | kvKeys | kvFlush | logRead | logReadRange | logListGroups | logGroupStats | listLen => rfl
    | _ => contradiction
  | some entry =>
    rw [call_eq_perform buildKey _ env hentry, call_eq_perform buildKey _ env hentry]
    exact log_behind { db with toStores := (db.toStores.perform buildKey env entry).2 } front _ id entry

def Refused (buildKey : String → UInt64 → UInt64) (db : DB) (op : Op) (env : Env) : Prop :=
  (db.call buildKey env op).1 ≠ .ok ()
    ∧ View.Same db.toStores.view (db.call buildKey env op).2.toStores.view

theorem call_aof_of_refused {op : Op} {env : Env} (h : (db.call buildKey env op).1 ≠ .ok ())
    : (db.call buildKey env op).2.aof = db.aof := by
  cases hentry : op.entry with
  | none =>
    rcases db.call_aof buildKey env op with hsame | ⟨entry, hsome, _⟩
    . exact hsame
    . rw [hentry] at hsome
      cases hsome
  | some entry =>
    rw [db.call_eq_perform buildKey env hentry] at h ⊢
    rw [perform_fst] at h
    rw [perform_aof, if_neg]
    intro hok
    apply h
    cases hres : (db.toStores.perform buildKey env entry).1 with
    | ok val => rfl
    | err e =>
      rw [hres] at hok
      cases hok
    | panic =>
      rw [hres] at hok
      cases hok

theorem Durable.refused {fresh : Stores} (h : db.Durable buildKey fresh) {op : Op} {env : Env}
    (hrefused : db.Refused buildKey op env)
    : (db.call buildKey env op).2.Durable buildKey fresh := by
  refine ⟨Inv.call h.inv env op, ?_⟩
  intro entries hentries henvs
  rw [call_aof_of_refused hrefused.1] at hentries
  rcases h.replay entries hentries henvs with ⟨v, hv, hsame⟩
  exact ⟨v, hv, hrefused.2.symm.trans hsame⟩

theorem Durable.startUp {fresh : Stores} (h : db.Durable buildKey fresh)
    (hfresh : Stores.new true = .ok fresh) {fromStr : String → Option AofEntry}
    {file : Option (List UInt8)} (hfile : AofFile.ValidUtf8 file) (schedule : Schedule db.aof)
    (hschedule : ∀ e ∈ schedule.entries, View.Succeeds e.2) (events : Option (List AofEntry))
    : ∃ s : Stores,
        DB.startUp buildKey fromStr true events file schedule.entries = .ok ⟨s, [], events⟩
          ∧ s.Inv buildKey
          ∧ View.Same db.toStores.view s.view := by
  have hnew : DB.new true events = .ok ⟨fresh, [], events⟩ := by
    unfold DB.new
    rw [hfresh, Outcome.map_ok]
  have hinv : fresh.Inv buildKey := Stores.inv_new hfresh
  have hstart : db.Durable buildKey (DB.mk fresh [] events).toStores := h
  rcases hstart.start hinv schedule hschedule with ⟨s, hs, hsame⟩
  have ⟨hinv', _⟩ := hinv.applyAll_refines schedule.entries
  unfold loadAndApply at hs
  simp only [Prod.mk.injEq] at hs
  rcases hs with ⟨hres, rfl⟩
  refine ⟨_, ?_, hinv', hsame⟩
  rw [startUp_eq buildKey fromStr hnew hfile, ← Prod.mk.eta (p := applyAll _ _ _), hres]

end DB

namespace Node

open AofFile

variable {buildKey : String → UInt64 → UInt64} {toStr : AofEntry → String}
  {fromStr : String → Option AofEntry} {node node' : Node} {fresh : Stores} {all : List AofEntry}

def onDisk (fromStr : String → Option AofEntry) (node : Node) : List AofEntry :=
  entriesOf fromStr (some node.file)

def entries (fromStr : String → Option AofEntry) (node : Node) : List AofEntry :=
  node.onDisk fromStr ++ node.db.aof.drop node.written

def Action.entry : Action → Option AofEntry
  | .call op _ => op.entry
  | .writeLine | .crash _ _ => none

structure Scheduled (fromStr : String → Option AofEntry) (file : List UInt8)
    (schedule : List (AofEntry × Env)) : Prop where
  interleaves : (loadAofSeparated (entriesOf fromStr (some file))).Interleaves (schedule.map Prod.fst)
  succeeds : ∀ e ∈ schedule, View.Succeeds e.2

def steadily (es : List AofEntry) : List (AofEntry × Env) :=
  es.map fun entry => (entry, Env.steady)

theorem scheduled_steadily {file : List UInt8} {es : List AofEntry}
    (h : entriesOf fromStr (some file) = es)
    : Scheduled fromStr file (steadily es) := by
  rw [← h]
  refine ⟨(Schedule.inOrder _ Env.steady).interleaves, ?_⟩
  intro e he
  rcases List.mem_map.mp he with ⟨_, _, rfl⟩
  exact fun _ => rfl

/-- Calls that fail leave no trace, and a crash that is followed by more calls has torn no line. -/
def Clean (buildKey : String → UInt64 → UInt64) (toStr : AofEntry → String)
    (fromStr : String → Option AofEntry) (node : Node)
    : Action → Prop
  | .call op env =>
    View.Succeeds env ∧ ((node.db.call buildKey env op).1 = .ok () ∨ node.db.Refused buildKey op env)
  | .writeLine => True
  | .crash kept schedule =>
    torn toStr (node.onDisk fromStr) kept = none ∧ Scheduled fromStr (node.file.take kept) schedule

theorem prefix_of_onDisk (fromStr : String → Option AofEntry) (node : Node)
    : node.onDisk fromStr <+: node.entries fromStr := by
  apply List.prefix_append

-- `front` is what was loaded at the last start
structure Faithful (buildKey : String → UInt64 → UInt64) (toStr : AofEntry → String)
    (fromStr : String → Option AofEntry) (fresh : Stores) (front : List AofEntry) (node : Node)
    : Prop where
  written_le : node.written ≤ node.db.aof.length
  onDisk_eq : node.onDisk fromStr = front ++ node.db.aof.take node.written
  file_eq : node.file = (node.onDisk fromStr).flatMap (line toStr)
  durable : (node.db.behind front).Durable buildKey fresh

namespace Faithful

variable {front : List AofEntry}

theorem entries_eq (h : node.Faithful buildKey toStr fromStr fresh front)
    : node.entries fromStr = front ++ node.db.aof := by
  unfold entries
  rw [h.onDisk_eq, List.append_assoc, List.take_append_drop]

theorem new (hfresh : Stores.new true = .ok fresh) {start : DB} {events : Option (List AofEntry)}
    (hstart : DB.new true events = .ok start)
    : (Node.new start).Faithful buildKey toStr fromStr fresh [] where
  written_le := Nat.zero_le _
  onDisk_eq := rfl
  file_eq := rfl
  durable := DB.Durable.new hfresh hstart

theorem call (h : node.Faithful buildKey toStr fromStr fresh front) {op : DB.Op} {env : Env}
    (hclean : node.Clean buildKey toStr fromStr (.call op env))
    : (node.call buildKey op env).Faithful buildKey toStr fromStr fresh front
        ∧ ((node.call buildKey op env).entries fromStr = node.entries fromStr
            ∨ ∃ entry, op.entry = some entry
                ∧ (node.call buildKey op env).entries fromStr = node.entries fromStr ++ [entry]) := by
  rcases hclean with ⟨henv, hres⟩
  have hdurable : ((node.db.call buildKey env op).2.behind front).Durable buildKey fresh := by
    have hbehind : (node.db.behind front).call buildKey env op
        = ((node.db.call buildKey env op).1, (node.db.call buildKey env op).2.behind front) :=
      node.db.call_behind front env op
    rcases hres with hok | hrefused
    . have hstep : (node.db.behind front).okStep buildKey (op, env)
          = some ((node.db.call buildKey env op).2.behind front) := by
        unfold DB.okStep
        rw [hbehind, hok]
      exact h.durable.step henv hstep
    . have hrefused' : (node.db.behind front).Refused buildKey op env := by
        unfold DB.Refused
        rw [hbehind]
        exact hrefused
      have hdurable := h.durable.refused hrefused'
      rw [hbehind] at hdurable
      exact hdurable
  have haof := node.db.call_aof buildKey env op
  have hwritten := h.written_le
  have hkept : (node.db.call buildKey env op).2.aof.take node.written = node.db.aof.take node.written
      ∧ node.written ≤ (node.db.call buildKey env op).2.aof.length := by
    rcases haof with hsame | ⟨entry, _, hnew⟩
    . rw [hsame]
      exact ⟨rfl, hwritten⟩
    . rw [hnew, List.take_append_of_le_length hwritten, List.length_append]
      exact ⟨rfl, by omega⟩
  have hfaithful : (node.call buildKey op env).Faithful buildKey toStr fromStr fresh front := by
    refine ⟨hkept.2, ?_, h.file_eq, hdurable⟩
    unfold Node.call
    dsimp only
    rw [hkept.1]
    exact h.onDisk_eq
  refine ⟨hfaithful, ?_⟩
  rw [hfaithful.entries_eq, h.entries_eq]
  unfold Node.call
  dsimp only
  rcases haof with hsame | ⟨entry, hentry, hnew⟩
  . left
    rw [hsame]
  . right
    refine ⟨entry, hentry, ?_⟩
    rw [hnew, List.append_assoc]

theorem writeLine (h : node.Faithful buildKey toStr fromStr fresh front)
    (hjson : Json toStr fromStr all) (hsub : node.entries fromStr ⊆ all)
    (hstep : node.writeLine toStr = some node')
    : node'.Faithful buildKey toStr fromStr fresh front ∧ node'.entries fromStr = node.entries fromStr := by
  unfold Node.writeLine at hstep
  split at hstep
  . next entry hget =>
    cases hstep
    rcases List.getElem?_eq_some_iff.mp hget with ⟨hlt, hentry⟩
    have htake : node.db.aof.take (node.written + 1) = node.db.aof.take node.written ++ [entry] := by
      rw [List.take_succ_eq_append_getElem hlt, hentry]
    have hfile : aofWorker toStr (some node.file) [entry]
        = (node.onDisk fromStr ++ [entry]).flatMap (line toStr) := by
      unfold aofWorker
      rw [Option.getD_some, List.flatMap_append, ← h.file_eq]
    have hmem : node.onDisk fromStr ++ [entry] ⊆ all := by
      have hpre : node.onDisk fromStr ++ [entry] <+: node.entries fromStr := by
        rw [h.entries_eq, h.onDisk_eq, List.append_assoc, ← htake, List.prefix_append_right_inj]
        apply List.take_prefix
      exact List.Subset.trans hpre.subset hsub
    have hdisk : entriesOf fromStr (some (aofWorker toStr (some node.file) [entry]))
        = node.onDisk fromStr ++ [entry] := by
      rw [hfile, hjson.entriesOf_flatMap_line hmem]
    have hfaithful : Faithful buildKey toStr fromStr fresh front
        { node with
          file := aofWorker toStr (some node.file) [entry]
          written := node.written + 1 } := by
      refine ⟨hlt, ?_, ?_, h.durable⟩
      . unfold onDisk
        dsimp only
        rw [hdisk, h.onDisk_eq, htake, List.append_assoc]
      . unfold onDisk
        dsimp only
        rw [hdisk, hfile]
    refine ⟨hfaithful, ?_⟩
    rw [hfaithful.entries_eq, h.entries_eq]
  . cases hstep

-- `u` is a node that has been what the rest of the file says
theorem crash {u : Node} (h : u.Faithful buildKey toStr fromStr fresh front)
    (hfresh : Stores.new true = .ok fresh) {kept : Nat} {schedule : List (AofEntry × Env)}
    (hvalid : ValidUtf8 (some (node.file.take kept)))
    (hentries : u.entries fromStr = entriesOf fromStr (some (node.file.take kept)))
    (hschedule : Scheduled fromStr (node.file.take kept) schedule)
    : ∃ s : Stores,
        node.crash buildKey fromStr kept schedule
            = some ⟨⟨s, [], node.db.events.map fun _ => []⟩, node.file.take kept, 0⟩
          ∧ s.Inv buildKey
          ∧ View.Same u.db.toStores.view s.view := by
  have haof : (u.db.behind front).aof = entriesOf fromStr (some (node.file.take kept)) := by
    rw [← hentries, h.entries_eq]
    rfl
  let schedule' : Schedule (u.db.behind front).aof :=
    { entries := schedule
      interleaves := by
        rw [haof]
        exact hschedule.interleaves }
  rcases h.durable.startUp hfresh hvalid schedule' hschedule.succeeds
    (node.db.events.map fun _ => []) with ⟨s, hs, hinv, hsame⟩
  refine ⟨s, ?_, hinv, hsame⟩
  unfold Node.crash
  dsimp only
  rw [hs]

theorem restarted {u : Node} (h : u.Faithful buildKey toStr fromStr fresh front) {file : List UInt8}
    (hfile : file = (u.entries fromStr).flatMap (line toStr))
    (hentries : u.entries fromStr = entriesOf fromStr (some file)) {s : Stores} (hinv : s.Inv buildKey)
    (hsame : View.Same u.db.toStores.view s.view) (events : Option (List AofEntry))
    : Faithful buildKey toStr fromStr fresh (u.entries fromStr) ⟨⟨s, [], events⟩, file, 0⟩ where
  written_le := Nat.zero_le _
  onDisk_eq := by
    rw [List.take_zero, List.append_nil, hentries]
    rfl
  file_eq := by
    unfold onDisk
    rw [← hentries]
    exact hfile
  durable := by
    refine ⟨hinv, ?_⟩
    intro es hes henvs
    have haof : es.map Prod.fst = (u.db.behind front).aof := by
      rw [hes, DB.behind, List.append_nil, h.entries_eq]
      rfl
    rcases h.durable.replay es haof henvs with ⟨v, hv, hsame'⟩
    exact ⟨v, hv, hsame.symm.trans hsame'⟩

end Faithful

/-- Every beginning of its entries is what the node, or an earlier one of the run, has consisted of. -/
structure History (buildKey : String → UInt64 → UInt64) (toStr : AofEntry → String)
    (fromStr : String → Option AofEntry) (fresh : Stores) (start : Node) (done : List Action) (node : Node)
    : Prop where
  run : Trace.run (step buildKey toStr fromStr) start done = some node
  faithful : ∃ front, node.Faithful buildKey toStr fromStr fresh front
  past : ∀ es, es <+: node.entries fromStr → ∃ before u front,
    before <+: done
      ∧ Trace.run (step buildKey toStr fromStr) start before = some u
      ∧ u.Faithful buildKey toStr fromStr fresh front
      ∧ u.entries fromStr = es

namespace History

variable {start : Node} {done : List Action} {action : Action}

theorem new (hfresh : Stores.new true = .ok fresh) {db : DB} {events : Option (List AofEntry)}
    (hdb : DB.new true events = .ok db)
    : History buildKey toStr fromStr fresh (Node.new db) [] (Node.new db) := by
  have hfaithful : (Node.new db).Faithful buildKey toStr fromStr fresh [] := Faithful.new hfresh hdb
  refine ⟨rfl, ⟨_, hfaithful⟩, ?_⟩
  intro es hes
  have hnil : es = [] := by
    rw [hfaithful.entries_eq] at hes
    have ⟨_, haof⟩ := DB.new_eq_ok hdb
    unfold Node.new at hes
    rw [haof] at hes
    exact List.prefix_nil.mp hes
  refine ⟨[], _, [], List.prefix_refl _, rfl, hfaithful, ?_⟩
  have ⟨_, haof⟩ := DB.new_eq_ok hdb
  rw [hfaithful.entries_eq, hnil]
  unfold Node.new
  rw [haof]
  rfl

theorem extend (h : History buildKey toStr fromStr fresh start done node)
    (hstep : node.step buildKey toStr fromStr action = some node') {front : List AofEntry}
    (hfaithful : node'.Faithful buildKey toStr fromStr fresh front)
    (hentries : ∀ es, es <+: node'.entries fromStr →
      es <+: node.entries fromStr ∨ es = node'.entries fromStr)
    : History buildKey toStr fromStr fresh start (done ++ [action]) node' := by
  have hrun : Trace.run (step buildKey toStr fromStr) start (done ++ [action]) = some node' := by
    rw [Trace.run_append]
    refine ⟨node, h.run, ?_⟩
    rw [Trace.run_cons_eq_some]
    exact ⟨node', hstep, rfl⟩
  refine ⟨hrun, ⟨front, hfaithful⟩, ?_⟩
  intro es hes
  cases hentries es hes with
  | inl hold =>
    rcases h.past es hold with ⟨before, u, front', hpre, hu⟩
    exact ⟨before, u, front', hpre.trans (List.prefix_append _ _), hu⟩
  | inr hwhole => exact ⟨done ++ [action], node', front, List.prefix_refl _, hrun, hfaithful, hwhole.symm⟩

theorem step (h : History buildKey toStr fromStr fresh start done node)
    (hfresh : Stores.new true = .ok fresh) (hjson : Json toStr fromStr all)
    (hsub : node.entries fromStr ⊆ all) (hclean : node.Clean buildKey toStr fromStr action)
    (hmem : ∀ entry, action.entry = some entry → entry ∈ all)
    (hstep : node.step buildKey toStr fromStr action = some node')
    : History buildKey toStr fromStr fresh start (done ++ [action]) node'
        ∧ node'.entries fromStr ⊆ all := by
  rcases h.faithful with ⟨front, hfaithful⟩
  cases action with
  | call op env =>
    rcases hfaithful.call hclean with ⟨hfaithful', hentries⟩
    have hnode : node.call buildKey op env = node' := Option.some.inj hstep
    rw [hnode] at hfaithful' hentries
    rcases hentries with hsame | ⟨entry, hentry, hnew⟩
    . refine ⟨h.extend hstep hfaithful' ?_, ?_⟩
      . intro es hes
        rw [hsame] at hes
        exact .inl hes
      . rw [hsame]
        exact hsub
    . refine ⟨h.extend hstep hfaithful' ?_, ?_⟩
      . intro es hes
        rw [hnew] at hes ⊢
        exact (List.prefix_concat_iff.mp hes).symm
      . rw [hnew, List.append_subset]
        refine ⟨hsub, ?_⟩
        intro e he
        rw [List.mem_singleton.mp he]
        exact hmem entry hentry
  | writeLine =>
    have ⟨hfaithful', hsame⟩ := hfaithful.writeLine hjson hsub hstep
    refine ⟨h.extend hstep hfaithful' ?_, ?_⟩
    . intro es hes
      rw [hsame] at hes
      exact .inl hes
    . rw [hsame]
      exact hsub
  | crash kept schedule =>
    rcases hclean with ⟨htorn, hschedule⟩
    rcases take_flatMap_line toStr (node.onDisk fromStr) kept with ⟨part, htake, _, hnone, _⟩
    rw [hnone htorn, List.append_nil, ← hfaithful.file_eq] at htake
    have hpre : complete toStr (node.onDisk fromStr) kept <+: node.entries fromStr :=
      (prefix_of_complete toStr _ _).trans (prefix_of_onDisk fromStr node)
    have hcomplete : complete toStr (node.onDisk fromStr) kept ⊆ all :=
      List.Subset.trans hpre.subset hsub
    rcases h.past _ hpre with ⟨before, u, front', _, _, hu, hentries⟩
    have hvalid : ValidUtf8 (some (node.file.take kept)) := by
      rw [htake]
      exact hjson.validUtf8_flatMap_line hcomplete
    have hcut : u.entries fromStr = entriesOf fromStr (some (node.file.take kept)) := by
      rw [hentries, htake, hjson.entriesOf_flatMap_line hcomplete]
    rcases hu.crash hfresh hvalid hcut hschedule with ⟨s, hcrash, hinv, hsame⟩
    cases Option.some.inj (hcrash.symm.trans hstep)
    have hfaithful' := hu.restarted (by rw [hentries, htake]) hcut hinv hsame
      (node.db.events.map fun _ => [])
    have hnew : entries fromStr ⟨⟨s, [], node.db.events.map fun _ => []⟩, node.file.take kept, 0⟩
        = complete toStr (node.onDisk fromStr) kept := by
      rw [hfaithful'.entries_eq, List.append_nil, hentries]
    refine ⟨h.extend hstep hfaithful' ?_, ?_⟩
    . intro es hes
      rw [hnew] at hes
      exact .inl (hes.trans hpre)
    . rw [hnew]
      exact hcomplete

theorem of_run {db : DB} {events : Option (List AofEntry)} (hdb : DB.new true events = .ok db)
    {actions : List Action} (hjson : Json toStr fromStr (actions.filterMap Action.entry))
    (halong : Trace.Along (Node.step buildKey toStr fromStr) (Clean buildKey toStr fromStr)
      (Node.new db) actions)
    (hrun : Trace.run (Node.step buildKey toStr fromStr) (Node.new db) actions = some node)
    : History buildKey toStr fromStr db.toStores (Node.new db) actions node
        ∧ node.entries fromStr ⊆ actions.filterMap Action.entry := by
  have ⟨hfresh, haof⟩ := DB.new_eq_ok hdb
  have hmem : ∀ a ∈ actions, ∀ entry, a.entry = some entry →
      entry ∈ actions.filterMap Action.entry := by
    intro a ha entry hentry
    exact List.mem_filterMap.mpr ⟨a, ha, hentry⟩
  let H (done : List Action) (u : Node) : Prop :=
    History buildKey toStr fromStr db.toStores (Node.new db) done u
      ∧ u.entries fromStr ⊆ actions.filterMap Action.entry
  have hnew : H [] (Node.new db) := by
    refine ⟨new hfresh hdb, ?_⟩
    have hfaithful : (Node.new db).Faithful buildKey toStr fromStr db.toStores [] :=
      Faithful.new hfresh hdb
    rw [hfaithful.entries_eq]
    unfold Node.new
    rw [haof]
    exact List.nil_subset _
  have h : H ([] ++ actions) node := by
    apply Trace.history_of_along _ hnew (Trace.along_and_mem halong hmem) hrun
    rintro done u a u' ⟨hu, hsub⟩ ⟨hclean, hentries⟩ hstep
    exact hu.step hfresh hjson hsub hclean hentries hstep
  exact h

end History

/--
A crash takes the lists and the logs back to where they have been, at a time not before that of the last
operation whose line is complete in the file.
-/
theorem crash_returns_to_past {buildKey : String → UInt64 → UInt64} {events : Option (List AofEntry)}
    {db : DB} (hdb : DB.new true events = .ok db) {actions : List Action}
    (hjson : Json toStr fromStr (actions.filterMap Action.entry))
    (halong : Trace.Along (step buildKey toStr fromStr) (Clean buildKey toStr fromStr) (new db) actions)
    (hrun : Trace.run (step buildKey toStr fromStr) (new db) actions = some node) {kept : Nat}
    (hvalid : ValidUtf8 (some (node.file.take kept))) {schedule : List (AofEntry × Env)}
    (hschedule : Scheduled fromStr (node.file.take kept) schedule)
    : ∃ node' before past,
        node.step buildKey toStr fromStr (.crash kept schedule) = some node'
          ∧ before <+: actions
          ∧ Trace.run (step buildKey toStr fromStr) (new db) before = some past
          ∧ complete toStr (node.onDisk fromStr) kept <+: past.entries fromStr
          ∧ node'.entries fromStr = past.entries fromStr
          ∧ node'.db.toStores.contents.lists = past.db.toStores.contents.lists
          ∧ node'.db.toStores.contents.logs = past.db.toStores.contents.logs := by
  have ⟨hfresh, _⟩ := DB.new_eq_ok hdb
  rcases History.of_run hdb hjson halong hrun with ⟨h, hsub⟩
  rcases h.faithful with ⟨front, hfaithful⟩
  have hdisk : Json toStr fromStr (node.onDisk fromStr) :=
    hjson.mono (List.Subset.trans (prefix_of_onDisk fromStr node).subset hsub)
  rw [hfaithful.file_eq] at hvalid
  have ⟨hcomplete, hcut⟩ := hdisk.entriesOf_cut hvalid
  rw [← hfaithful.file_eq] at hvalid hcomplete hcut
  rcases h.past _ (hcut.trans (prefix_of_onDisk fromStr node)) with
    ⟨before, past, front', hpre, hpast, hu, hentries⟩
  rcases hu.crash hfresh hvalid hentries hschedule with ⟨s, hcrash, _, hsame⟩
  refine ⟨_, before, past, hcrash, hpre, hpast, ?_, ?_, hsame.symm.contents_eq⟩
  . rw [hentries]
    exact hcomplete
  . rw [hentries]
    exact List.append_nil _

def lifeText (entry : AofEntry) : String :=
  if entry = .listPush "k" [1] then "\x7b\"op\":\"ListPush\",\"key\":\"k\",\"payload\":[1]\x7d"
  else "\x7b\"op\":\"ListPush\",\"key\":\"k\",\"payload\":[2]\x7d"

def lifeEntries : List AofEntry :=
  [.listPush "k" [1], .listPush "k" [2]]

def lifeRead (s : String) : Option AofEntry :=
  lifeEntries.find? fun entry => lifeText entry = s

def lifeStep : Node → Action → Option Node :=
  step (fun _ id => id) lifeText lifeRead

def firstLife : List Action :=
  [.call (.listPush "k" [1]) Env.steady, .writeLine, .crash 42 (steadily [.listPush "k" [1]])]

def secondLife : List Action :=
  [.call (.listPush "k" [2]) Env.steady, .writeLine]

theorem json_life : Json lifeText lifeRead lifeEntries := by
  apply json_find
  . show ∀ e ∈ lifeEntries, (lifeText e).toList.length = 41
    decide +kernel
  . decide +kernel
  . decide +kernel
  . intro entry hentry
    refine ⟨(lifeText entry).toList.tail.dropLast, ?_⟩
    revert entry
    decide +kernel

theorem life_along
    : Trace.Along lifeStep (Clean (fun _ id => id) lifeText lifeRead) (new DB.freshDb)
        (firstLife ++ secondLife) := by
  have hsome : (Trace.run lifeStep (new DB.freshDb) firstLife).isSome = true := by decide +kernel
  have hpush : (Trace.run lifeStep (new DB.freshDb) firstLife).all
      (fun node => (node.db.call (fun _ id => id) Env.steady (.listPush "k" [2])).1 = .ok ()) = true := by
    decide +kernel
  rcases Option.isSome_iff_exists.mp hsome with ⟨node, hnode⟩
  rw [hnode] at hpush
  have hfirst : Trace.Along lifeStep (Clean (fun _ id => id) lifeText lifeRead) (new DB.freshDb)
      firstLife := by
    refine Trace.along_cons rfl ⟨fun _ => rfl, .inl rfl⟩ ?_
    refine Trace.along_cons rfl trivial ?_
    refine ⟨⟨by decide +kernel, scheduled_steadily ?_⟩, fun _ _ => trivial⟩
    decide +kernel
  apply Trace.along_append hfirst hnode
  refine ⟨⟨fun _ => rfl, .inl ?_⟩, ?_⟩
  . simpa using hpush
  . intro _ _
    exact ⟨trivial, fun _ _ => trivial⟩

theorem crash_returns_to_past_torn
    : ∃ node,
        Trace.run lifeStep (new DB.freshDb) (firstLife ++ secondLife) = some node
          ∧ ∃ node' before past,
              lifeStep node (.crash 60 (steadily [.listPush "k" [1]])) = some node'
                ∧ before <+: firstLife ++ secondLife
                ∧ Trace.run lifeStep (new DB.freshDb) before = some past
                ∧ complete lifeText (node.onDisk lifeRead) 60 <+: past.entries lifeRead
                ∧ node'.entries lifeRead = past.entries lifeRead
                ∧ node'.db.toStores.contents.lists = past.db.toStores.contents.lists
                ∧ node'.db.toStores.contents.logs = past.db.toStores.contents.logs := by
  have hfile : (Trace.run lifeStep (new DB.freshDb) (firstLife ++ secondLife)).map Node.file
      = some (lifeEntries.flatMap (line lifeText)) := by
    decide +kernel
  rcases Option.map_eq_some_iff.mp hfile with ⟨node, hrun, hnode⟩
  refine ⟨node, hrun, ?_⟩
  have hvalid : ValidUtf8 (some (node.file.take 60)) := by
    intro bytes hbytes
    cases hbytes
    rw [hnode]
    decide +kernel
  have hschedule : Scheduled lifeRead (node.file.take 60) (steadily [.listPush "k" [1]]) := by
    apply scheduled_steadily
    rw [hnode]
    decide +kernel
  exact crash_returns_to_past (DB.new_eq none) json_life life_along hrun hvalid hschedule

/-- However often the node was restarted before, a restart that loses nothing changes nothing. -/
theorem restart_changes_nothing {buildKey : String → UInt64 → UInt64}
    {events : Option (List AofEntry)} {db : DB} (hdb : DB.new true events = .ok db)
    {actions : List Action} (hjson : Json toStr fromStr (actions.filterMap Action.entry))
    (halong : Trace.Along (step buildKey toStr fromStr) (Clean buildKey toStr fromStr) (new db) actions)
    (hrun : Trace.run (step buildKey toStr fromStr) (new db) actions = some node)
    (hwritten : node.written = node.db.aof.length) {schedule : List (AofEntry × Env)}
    (hschedule : Scheduled fromStr node.file schedule)
    : ∃ node',
        node.step buildKey toStr fromStr (.crash node.file.length schedule) = some node'
          ∧ node'.file = node.file
          ∧ node'.entries fromStr = node.entries fromStr
          ∧ node'.db.toStores.contents.lists = node.db.toStores.contents.lists
          ∧ node'.db.toStores.contents.logs = node.db.toStores.contents.logs := by
  have ⟨hfresh, _⟩ := DB.new_eq_ok hdb
  rcases History.of_run hdb hjson halong hrun with ⟨h, hsub⟩
  rcases h.faithful with ⟨front, hfaithful⟩
  have hfile : node.file.take node.file.length = node.file := List.take_length
  have hentries : node.entries fromStr = entriesOf fromStr (some node.file) := by
    unfold entries
    rw [hwritten, List.drop_length, List.append_nil]
    rfl
  have hvalid : ValidUtf8 (some node.file) := by
    rw [hfaithful.file_eq]
    exact hjson.validUtf8_flatMap_line (List.Subset.trans (prefix_of_onDisk fromStr node).subset hsub)
  rw [← hfile] at hschedule hvalid hentries
  rcases hfaithful.crash hfresh hvalid hentries hschedule with ⟨s, hcrash, _, hsame⟩
  refine ⟨_, hcrash, hfile, ?_, hsame.symm.contents_eq⟩
  rw [hentries]
  exact List.append_nil _

theorem restart_changes_nothing_again
    : ∃ node,
        Trace.run lifeStep (new DB.freshDb) (firstLife ++ secondLife) = some node
          ∧ ∃ node',
              lifeStep node (.crash node.file.length (steadily lifeEntries)) = some node'
                ∧ node'.file = node.file
                ∧ node'.entries lifeRead = node.entries lifeRead
                ∧ node'.db.toStores.contents.lists = node.db.toStores.contents.lists
                ∧ node'.db.toStores.contents.logs = node.db.toStores.contents.logs := by
  have hfile : (Trace.run lifeStep (new DB.freshDb) (firstLife ++ secondLife)).map
        (fun node => (node.file, node.written, node.db.aof.length))
      = some (lifeEntries.flatMap (line lifeText), 1, 1) := by
    decide +kernel
  rcases Option.map_eq_some_iff.mp hfile with ⟨node, hrun, hnode⟩
  simp only [Prod.mk.injEq] at hnode
  refine ⟨node, hrun, ?_⟩
  have hwritten : node.written = node.db.aof.length := by
    rw [hnode.2.1, hnode.2.2]
  have hschedule : Scheduled lifeRead node.file (steadily lifeEntries) := by
    apply scheduled_steadily
    rw [hnode.1]
    decide +kernel
  exact restart_changes_nothing (DB.new_eq none) json_life life_along hrun hwritten hschedule

end Node
end MemStream
