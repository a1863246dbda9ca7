import MemStream.Db.Lemmas.Db.Life
import MemStream.Db.Lemmas.Db.Overwrite

namespace MemStream
namespace Node

open AofFile Overwrite

variable {buildKey : String → UInt64 → UInt64} {toStr : AofEntry → String}
  {fromStr : String → Option AofEntry} {node node' : Node} {fresh : Stores} {all : List AofEntry}
  {names : Keyspace} {action : Action}

/-- The clients use the names, and no time to live, and do not flush a database, which is not logged. -/
def Action.Logged (names : Keyspace) : Action → Prop
  | .call op _ => op.Within names ∧ ∀ d, op ≠ .kvFlush d
  | .writeLine | .crash _ _ => True

structure KvReplayed (names : Keyspace) (fromStr : String → Option AofEntry) (node : Node) : Prop where
  covers : names.Covers node.db.kvStore.values
  lasting : node.db.kvStore.Lasting
  values : node.db.kvStore.values = writeAll AofEntry.effect (fun _ => none) (node.entries fromStr)

theorem KvReplayed.call (h : node.KvReplayed names fromStr) (hwritten : node.written ≤ node.db.aof.length)
    {op : DB.Op} {env : Env} (hop : (Action.call op env).Logged names)
    : (node.call buildKey op env).KvReplayed names fromStr := by
  rcases hop with ⟨hop, hflush⟩
  rcases DB.call_sends h.covers h.lasting hop buildKey env with ⟨sent, _, haof, hsent, hvalues⟩
  have haof : (node.db.call buildKey env op).2.aof = node.db.aof ++ sent := by
    rcases haof with haof | ⟨⟨d, hd⟩, _⟩
    . exact haof
    . exact absurd hd (hflush d)
  have hentries : (node.call buildKey op env).entries fromStr = node.entries fromStr ++ sent := by
    unfold entries onDisk Node.call
    dsimp only
    rw [haof, List.drop_append_of_le_length hwritten, List.append_assoc]
  refine ⟨?_, DB.lasting_call h.lasting hop buildKey env, ?_⟩
  . show names.Covers (node.db.call buildKey env op).2.kvStore.values
    rw [hvalues]
    exact h.covers.writeAll hsent
  . show (node.db.call buildKey env op).2.kvStore.values = _
    rw [hvalues, h.values, hentries, writeAll_append]

theorem KvReplayed.writeLine (h : node.KvReplayed names fromStr) (hstep : node.writeLine toStr = some node')
    (hentries : node'.entries fromStr = node.entries fromStr)
    : node'.KvReplayed names fromStr := by
  unfold Node.writeLine at hstep
  split at hstep
  . cases hstep
    refine ⟨h.covers, h.lasting, ?_⟩
    rw [hentries]
    exact h.values
  . cases hstep

theorem startUp_eq_ok {events : Option (List AofEntry)} {file : Option (List UInt8)}
    {schedule : List (AofEntry × Env)} {db : DB}
    (h : DB.startUp buildKey fromStr true events file schedule = .ok db)
    : ∃ fresh s,
        Stores.new true = .ok fresh
          ∧ applyAll buildKey fresh schedule = (.ok (), s)
          ∧ db = ⟨s, [], events⟩ := by
  have hnew := DB.new_true events
  by_cases hfile : ValidUtf8 file
  . rw [DB.startUp_eq buildKey fromStr hnew hfile] at h
    split at h
    . next s hall =>
      cases h
      exact ⟨_, s, Stores.new_eq_ok, hall, rfl⟩
    . cases h
  . rw [DB.startUp_eq_panic buildKey fromStr hnew hfile] at h
    cases h

theorem kvReplayed_of_crash {kept : Nat} {schedule : List (AofEntry × Env)}
    (hschedule : Scheduled fromStr (node.file.take kept) schedule)
    (hcrash : node.crash buildKey fromStr kept schedule = some node')
    (hwithin : ∀ entry ∈ node'.entries fromStr, entry.Within names)
    : node'.KvReplayed names fromStr := by
  unfold Node.crash at hcrash
  dsimp only at hcrash
  split at hcrash
  . next db hdb =>
    cases hcrash
    rcases startUp_eq_ok hdb with ⟨fresh, s, hfresh, hall, rfl⟩
    have ⟨hnone, hlasting⟩ := values_of_new hfresh
    have hentries : entries fromStr ⟨⟨s, [], node.db.events.map fun _ => []⟩, node.file.take kept, 0⟩
        = entriesOf fromStr (some (node.file.take kept)) := List.append_nil _
    rw [hentries] at hwithin
    have hcovers : names.Covers fresh.kvStore.values := by
      rw [hnone]
      exact names.covers_none
    have ⟨hvalues, hend⟩ := applyAll_schedule_values hcovers hlasting hwithin hschedule.interleaves hall
    rw [hnone] at hvalues
    refine ⟨?_, hend, ?_⟩
    . show names.Covers s.kvStore.values
      rw [hvalues]
      exact names.covers_none.writeAll hwithin
    . rw [hentries]
      exact hvalues
  . cases hcrash

theorem KvReplayed.step (h : node.KvReplayed names fromStr) {front : List AofEntry}
    (hfaithful : node.Faithful buildKey toStr fromStr fresh front) (hjson : Json toStr fromStr all)
    (hsub : node.entries fromStr ⊆ all) (hsub' : node'.entries fromStr ⊆ all)
    (hall : ∀ entry ∈ all, entry.Within names) (hlogged : action.Logged names)
    (hclean : node.Clean buildKey toStr fromStr action)
    (hstep : node.step buildKey toStr fromStr action = some node')
    : node'.KvReplayed names fromStr := by
  cases action with
  | call op env =>
    cases hstep
    exact h.call hfaithful.written_le hlogged
  | writeLine => exact h.writeLine hstep (hfaithful.writeLine hjson hsub hstep).2
  | crash kept schedule =>
    exact kvReplayed_of_crash hclean.2 hstep fun entry hmem => hall entry (hsub' hmem)

theorem within_of_logged {actions : List Action} (h : ∀ a ∈ actions, a.Logged names)
    : ∀ entry ∈ actions.filterMap Action.entry, entry.Within names := by
  intro entry hmem
  rcases List.mem_filterMap.mp hmem with ⟨a, ha, hentry⟩
  cases a with
  | call op env => exact (h _ ha).1.entry hentry
  | writeLine => cases hentry
  | crash kept schedule => cases hentry

theorem KvReplayed.of_run {db : DB} {events : Option (List AofEntry)} (hdb : DB.new true events = .ok db)
    {actions before : List Action} (hjson : Json toStr fromStr (actions.filterMap Action.entry))
    (halong : Trace.Along (Node.step buildKey toStr fromStr) (Clean buildKey toStr fromStr)
      (Node.new db) actions)
    (hlogged : ∀ a ∈ actions, a.Logged names) (hpre : before <+: actions)
    (hrun : Trace.run (Node.step buildKey toStr fromStr) (Node.new db) before = some node)
    : node.KvReplayed names fromStr := by
  have ⟨hfresh, haof⟩ := DB.new_eq_ok hdb
  have ⟨hnone, hlasting⟩ := values_of_new hfresh
  have hall := within_of_logged hlogged
  have hmem : ∀ a ∈ before, (∀ entry, a.entry = some entry →
      entry ∈ actions.filterMap Action.entry) ∧ a.Logged names := by
    intro a ha
    have ha := hpre.subset ha
    exact ⟨fun entry hentry => List.mem_filterMap.mpr ⟨a, ha, hentry⟩, hlogged a ha⟩
  have hbefore : Trace.Along (Node.step buildKey toStr fromStr) (Clean buildKey toStr fromStr)
      (Node.new db) before := by
    rcases hpre with ⟨rest, rfl⟩
    exact (Trace.along_of_append halong hrun).1
  let H (done : List Action) (u : Node) : Prop :=
    History buildKey toStr fromStr db.toStores (Node.new db) done u
      ∧ u.entries fromStr ⊆ actions.filterMap Action.entry
      ∧ u.KvReplayed names fromStr
  have hnew : H [] (Node.new db) := by
    have hentries : (Node.new db).entries fromStr = [] := by
      have hfaithful : (Node.new db).Faithful buildKey toStr fromStr db.toStores [] :=
        Faithful.new hfresh hdb
      rw [hfaithful.entries_eq]
      exact haof
    refine ⟨History.new hfresh hdb, ?_, ?_, hlasting, ?_⟩
    . rw [hentries]
      exact List.nil_subset _
    . show names.Covers db.kvStore.values
      rw [hnone]
      exact names.covers_none
    . rw [hentries]
      exact hnone
  have h : H ([] ++ before) node := by
    apply Trace.history_of_along _ hnew (Trace.along_and_mem hbefore hmem) hrun
    rintro done u a u' ⟨hu, hsub, hkv⟩ ⟨hclean, hentries, hlog⟩ hstep
    have ⟨hu', hsub'⟩ := hu.step hfresh hjson hsub hclean hentries hstep
    rcases hu.faithful with ⟨front, hfaithful⟩
    exact ⟨hu', hsub', hkv.step hfaithful hjson hsub hsub' hall hlog hclean hstep⟩
  exact h.2.2

/-- The whole database goes back to where it was at one time of the run. -/
theorem crash_returns_all_to_past {buildKey : String → UInt64 → UInt64} {toStr : AofEntry → String}
    {fromStr : String → Option AofEntry} {names : Keyspace} {events : Option (List AofEntry)}
    {db : DB} (hdb : DB.new true events = .ok db) {actions : List Action} {node : Node}
    (hlogged : ∀ a ∈ actions, a.Logged names)
    (hjson : Json toStr fromStr (actions.filterMap Action.entry))
    (halong : Trace.Along (step buildKey toStr fromStr) (Clean buildKey toStr fromStr) (new db) actions)
    (hrun : Trace.run (step buildKey toStr fromStr) (new db) actions = some node) {kept : Nat}
    (hvalid : ValidUtf8 (some (node.file.take kept))) {schedule : List (AofEntry × Env)}
    (hschedule : Scheduled fromStr (node.file.take kept) schedule)
    : ∃ node' before past,
        node.step buildKey toStr fromStr (.crash kept schedule) = some node'
          ∧ before <+: actions
          ∧ Trace.run (step buildKey toStr fromStr) (new db) before = some past
          ∧ complete toStr (node.onDisk fromStr) kept <+: past.entries fromStr
          ∧ (∀ d key, node'.db.value d key = past.db.value d key)
          ∧ node'.db.toStores.contents.lists = past.db.toStores.contents.lists
          ∧ node'.db.toStores.contents.logs = past.db.toStores.contents.logs := by
  have ⟨hfresh, _⟩ := DB.new_eq_ok hdb
  rcases History.of_run hdb hjson halong hrun with ⟨h, hsub⟩
  rcases h.faithful with ⟨front, hfaithful⟩
  have hdisk : Json toStr fromStr (node.onDisk fromStr) :=
    hjson.mono (List.Subset.trans (prefix_of_onDisk fromStr node).subset hsub)
  rw [hfaithful.file_eq] at hvalid
  have ⟨hcomplete, hcut⟩ := hdisk.entriesOf_cut hvalid
  rw [← hfaithful.file_eq] at hvalid hcomplete hcut
  have hkept := hcut.trans (prefix_of_onDisk fromStr node)
  rcases h.past _ hkept with ⟨before, past, front', hpre, hpast, hu, hentries⟩
  rcases hu.crash hfresh hvalid hentries hschedule with ⟨s, hcrash, _, hsame⟩
  have hnew : entries fromStr ⟨⟨s, [], node.db.events.map fun _ => []⟩, node.file.take kept, 0⟩
      = past.entries fromStr := by
    rw [hentries]
    exact List.append_nil _
  have hwithin : ∀ entry ∈ past.entries fromStr, entry.Within names := by
    rw [hentries]
    intro entry hmem
    exact within_of_logged hlogged entry (hsub (hkept.subset hmem))
  have hkv := KvReplayed.of_run hdb hjson halong hlogged hpre hpast
  have hkv' : KvReplayed names fromStr _ :=
    kvReplayed_of_crash hschedule hcrash (by rw [hnew]; exact hwithin)
  refine ⟨_, before, past, hcrash, hpre, hpast, ?_, ?_, hsame.symm.contents_eq⟩
  . rw [hentries]
    exact hcomplete
  . intro d key
    have hvalues := hkv'.values
    rw [hnew, ← hkv.values] at hvalues
    exact congrFun hvalues (d, key)

def kvText (entry : AofEntry) : String :=
  if entry = .kvSet "d" "k" [7] 0 then
    "\x7b\"op\":\"KvSet\",\"db\":\"d\",\"key\":\"k\",\"val\":[7],\"ttl\":0\x7d"
  else
    "\x7b\"op\":\"KvSet\",\"db\":\"d\",\"key\":\"k\",\"val\":[8],\"ttl\":0\x7d"

def kvEntries : List AofEntry :=
  [.kvSet "d" "k" [7] 0, .kvSet "d" "k" [8] 0]

def kvRead (s : String) : Option AofEntry :=
  kvEntries.find? fun entry => kvText entry = s

def overwritten : List Action :=
  [.call (.kvSet "d" "k" [7] 0) Env.steady, .writeLine, .call (.kvSet "d" "k" [8] 0) Env.steady, .writeLine]

theorem json_kv : Json kvText kvRead kvEntries := by
  apply json_find
  . show ∀ e ∈ kvEntries, (kvText e).toList.length = 51
    decide +kernel
  . decide +kernel
  . decide +kernel
  . intro entry hentry
    refine ⟨(kvText entry).toList.tail.dropLast, ?_⟩
    revert entry
    decide +kernel

theorem crash_returns_all_to_past_torn
    : ∃ node,
        Trace.run (step (fun _ id => id) kvText kvRead) (new DB.freshDb) overwritten = some node
          ∧ ∃ node' before past,
              node.step (fun _ id => id) kvText kvRead (.crash 60 (steadily [.kvSet "d" "k" [7] 0]))
                  = some node'
                ∧ before <+: overwritten
                ∧ Trace.run (step (fun _ id => id) kvText kvRead) (new DB.freshDb) before = some past
                ∧ complete kvText (node.onDisk kvRead) 60 <+: past.entries kvRead
                ∧ (∀ d key, node'.db.value d key = past.db.value d key)
                ∧ node'.db.toStores.contents.lists = past.db.toStores.contents.lists
                ∧ node'.db.toStores.contents.logs = past.db.toStores.contents.logs := by
  have hfile : (Trace.run (step (fun _ id => id) kvText kvRead) (new DB.freshDb) overwritten).map Node.file
      = some (kvEntries.flatMap (line kvText)) := by
    decide +kernel
  rcases Option.map_eq_some_iff.mp hfile with ⟨node, hrun, hnode⟩
  refine ⟨node, hrun, ?_⟩
  have hvalid : ValidUtf8 (some (node.file.take 60)) := by
    intro bytes hbytes
    cases hbytes
    rw [hnode]
    decide +kernel
  have hschedule : Scheduled kvRead (node.file.take 60) (steadily [.kvSet "d" "k" [7] 0]) := by
    apply scheduled_steadily
    rw [hnode]
    decide +kernel
  have hlogged : ∀ a ∈ overwritten, a.Logged (.single "k") := by
    simp [overwritten, Action.Logged, DB.Op.Within, Keyspace.single]
  have halong : Trace.Along (step (fun _ id => id) kvText kvRead) (Clean (fun _ id => id) kvText kvRead)
      (new DB.freshDb) overwritten := by
    refine Trace.along_cons rfl ⟨fun _ => rfl, .inl rfl⟩ ?_
    refine Trace.along_cons rfl trivial ?_
    refine Trace.along_cons rfl ⟨fun _ => rfl, .inl rfl⟩ ?_
    exact Trace.along_cons rfl trivial trivial
  exact crash_returns_all_to_past (DB.new_eq none) hlogged json_kv halong hrun hvalid hschedule

end Node
end MemStream
