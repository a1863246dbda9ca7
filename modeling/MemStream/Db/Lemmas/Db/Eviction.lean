import MemStream.Db.Lemmas.Db.Lifetime
import MemStream.Db.Lemmas.Kv.Bound
import MemStream.Db.Lemmas.Kv.Evict

/-!
Evictions across a restart. The file says nothing of them: a replay evicts again, by what it knows of the
use of the keys. It has not seen the reads, so that this is the time at which it sets a key.
-/

namespace MemStream
namespace DB

variable (buildKey : String → UInt64 → UInt64)

def Op.Kept : Op → Prop
  | .kvSet _ _ _ ttl => ttl = 0
  | .kvGet .. | .kvDel .. => True
  | _ => False

structure LiveOp where
  op : Op
  env : Env
  restart : KvClock

def LiveOp.replayEnv (op : LiveOp) : Env :=
  { op.env with clock := op.restart }

structure Mirror where
  live : DB
  entries : List (AofEntry × Env)
  logged : entries.map Prod.fst = live.aof

namespace Mirror

def start (db : DB) (h : db.aof = []) : Mirror where
  live := db
  entries := []
  logged := h.symm

theorem aof_append_drop_call (db : DB) (env : Env) (op : Op)
    : db.aof ++ (db.call buildKey env op).2.aof.drop db.aof.length = (db.call buildKey env op).2.aof := by
  rcases db.call_aof buildKey env op with hsame | ⟨entry, _, hnew⟩
  . rw [hsame, List.drop_length, List.append_nil]
  . rw [hnew, List.drop_left]

def step (m : Mirror) (op : LiveOp) : Mirror where
  live := (m.live.call buildKey op.env op.op).2
  entries := m.entries ++
    ((m.live.call buildKey op.env op.op).2.aof.drop m.live.aof.length).map (·, op.replayEnv)
  logged := by
    rw [List.map_append, m.logged, List.map_map]
    show _ ++ List.map id _ = _
    rw [List.map_id, aof_append_drop_call]

def schedule (m : Mirror) : Schedule m.live.aof where
  entries := m.entries
  interleaves := by
    rw [m.logged, interleaves_iff]
    intro category
    rfl

def run (m : Mirror) (ops : List LiveOp) : Mirror :=
  ops.foldl (step buildKey) m

/-- The replay of the file ends with the values of the live store. -/
def Reproduced (fresh : DB) (m : Mirror) : Prop :=
  ∃ s,
    fresh.loadAndApply buildKey m.schedule = (.ok (), s)
      ∧ ∀ d key, s.value d key = m.live.value d key

def replayed (fresh : DB) (m : Mirror) : KvStore :=
  m.entries.foldl (fun store e => store.afterEntry e.2 e.1) fresh.kvStore

end Mirror

/-- The time at which the replay of a run has set a key. -/
def replayUse (ops : List LiveOp) (d key : String) : Int64 :=
  ops.foldl (fun use op =>
    match op.op with
    | .kvSet d' key' _ _ => if d = d' ∧ key = key' then op.restart.useNow else use
    | _ => use) 0

theorem replayUse_concat (ops : List LiveOp) (op : LiveOp) (d key : String)
    : replayUse (ops ++ [op]) d key
        =
      match op.op with
      | .kvSet d' key' _ _ =>
        if d = d' ∧ key = key' then op.restart.useNow else replayUse ops d key
      | _ => replayUse ops d key := by
  unfold replayUse
  rw [List.foldl_append]
  rfl

end DB

variable {buildKey : String → UInt64 → UInt64}

theorem applyAof_of_kv (buildKey : String → UInt64 → UInt64) (s : Stores) (env : Env) {entry : AofEntry}
    (h : entry.category = .kv)
    : (applyAof buildKey s env entry).1 = .ok () := by
  cases entry with
  | kvSet | kvFlush => rfl
  | kvDel d key =>
    show discard ((s.kvStore.getDb d).del key).1 = .ok ()
    unfold KvDb.del
    cases (s.kvStore.getDb d).entries.lookup key with
    | none => rfl
    | some e => rfl
  | _ => contradiction

theorem applyAll_of_kv (buildKey : String → UInt64 → UInt64) (s : Stores)
    {entries : List (AofEntry × Env)} (h : ∀ e ∈ entries, e.1.category = .kv)
    : (applyAll buildKey s entries).1 = .ok ()
        ∧ (applyAll buildKey s entries).2.kvStore
            = entries.foldl (fun store e => store.afterEntry e.2 e.1) s.kvStore := by
  induction entries generalizing s with
  | nil => exact ⟨rfl, rfl⟩
  | cons e entries ih =>
    rcases e with ⟨entry, env⟩
    have hok := applyAof_of_kv buildKey s env (h (entry, env) (by simp))
    have hkv := applyAof_kvStore buildKey s env entry
    unfold applyAll
    rw [List.foldl_cons, ← hkv]
    rcases happly : applyAof buildKey s env entry with ⟨res, s'⟩
    rw [happly] at hok
    cases hok
    exact ih s' (fun e' hmem => h e' (by simp [hmem]))

namespace KvStore

variable {store : KvStore} {ops : List DB.LiveOp}

def Unread (store : KvStore) (ops : List DB.LiveOp) : Prop :=
  ∀ d key e, store.entry d key = some e →
    (e.usedCount, e.lastUsed) = ((0, DB.replayUse ops d key) : UInt64 × Int64)

theorem Unread.set (h : store.Unread ops) (d key : String) (val : List UInt8) (ttl : Int64) (env : Env)
    (restart : KvClock)
    : (store.set restart env.order d key val ttl).2.Unread
        (ops ++ [⟨.kvSet d key val ttl, env, restart⟩]) := by
  intro d' key' e he
  rw [DB.replayUse_concat]
  dsimp only
  rcases entry_of_entry_set he with ⟨hself, rfl⟩ | ⟨hself, he⟩
  . rw [if_pos hself]
  . rw [if_neg hself]
    exact h d' key' e he

theorem Unread.of_replayUse_eq {ops' : List DB.LiveOp} (h : store.Unread ops)
    (heq : ∀ d key, DB.replayUse ops' d key = DB.replayUse ops d key)
    : store.Unread ops' := by
  intro d key e he
  rw [heq]
  exact h d key e he

theorem Unread.del (h : store.Unread ops) (d key : String) : (store.del d key).2.Unread ops := by
  intro d' key' e he
  rw [entry_del] at he
  split at he
  . contradiction
  . exact h d' key' e he

theorem Unread.useOf (h : store.Unread ops) (d key : String) (hmem : key ∈ (store.getDb d).entries.keys)
    : (store.getDb d).useOf key = (0, DB.replayUse ops d key) := by
  rw [← AList.mem_keys, ← AList.lookup_isSome] at hmem
  rcases Option.isSome_iff_exists.mp hmem with ⟨e, he⟩
  rw [← h d key e he, KvDb.useOf, he]

theorem Unread.evicts_iff (h : store.Unread ops) {live : KvStore} {d : String}
    (hsame : ∀ key, live.value d key = store.value d key) {order : Assoc.Order String}
    (horder : order.Canonical) (key : String)
    : store.Evicts order d key
        ↔
      1024 ≤ (live.getDb d).entries.entries.length
        ∧ key ∈ (live.getDb d).firstBy order fun key => (0, DB.replayUse ops d key) := by
  rw [evicts_iff_firstBy, KvDb.firstBy_use_congr (h.useOf d), length_eq_of_value hsame,
    KvDb.firstBy_congr (keys_perm_of_value hsame) horder]

end KvStore

namespace DB
namespace Mirror

section Steps

variable (buildKey : String → UInt64 → UInt64) (m : Mirror)

theorem step_kvStore (op : LiveOp)
    : (m.step buildKey op).live.kvStore = m.live.kvStore.afterOp op.env op.op := by
  exact call_kvStore m.live op.env op.op

variable {buildKey m} in
theorem step_unlogged {op : LiveOp}
    (h : (m.live.call buildKey op.env op.op).2.aof = m.live.aof)
    : (m.step buildKey op).entries = m.entries := by
  show m.entries ++ List.map _ (List.drop _ (m.live.call buildKey op.env op.op).2.aof) = _
  rw [h, List.drop_length, List.map_nil, List.append_nil]

variable {buildKey m} in
theorem step_logged {op : LiveOp} {entry : AofEntry}
    (h : (m.live.call buildKey op.env op.op).2.aof = m.live.aof ++ [entry])
    : (m.step buildKey op).entries = m.entries ++ [(entry, op.replayEnv)] := by
  show m.entries ++ List.map _ (List.drop _ (m.live.call buildKey op.env op.op).2.aof) = _
  rw [h, List.drop_left]
  rfl

theorem step_kvSet_entries (d key : String) (val : List UInt8) (ttl : Int64) (env : Env)
    (restart : KvClock)
    : (m.step buildKey ⟨.kvSet d key val ttl, env, restart⟩).entries
        =
      m.entries ++ [(.kvSet d key val ttl, { env with clock := restart })] := by
  apply step_logged
  rfl

theorem step_kvGet_entries (d key : String) (env : Env) (restart : KvClock)
    : (m.step buildKey ⟨.kvGet d key, env, restart⟩).entries = m.entries := by
  apply step_unlogged
  rfl

theorem step_kvDel_entries (d key : String) (env : Env) (restart : KvClock)
    : (m.step buildKey ⟨.kvDel d key, env, restart⟩).entries
        =
      if (m.live.kvStore.value d key).isSome then
        m.entries ++ [(.kvDel d key, { env with clock := restart })]
      else
        m.entries := by
  have haof := m.live.call_kvDel_aof buildKey env d key
  split
  . next hsome =>
    rw [if_pos hsome] at haof
    exact step_logged haof
  . next hnone =>
    rw [if_neg hnone] at haof
    exact step_unlogged haof

end Steps

variable {fresh : DB} {m : Mirror} {ops : List LiveOp}

theorem replayed_concat {m' : Mirror} {entry : AofEntry} {env : Env}
    (h : m'.entries = m.entries ++ [(entry, env)])
    : m'.replayed fresh = (m.replayed fresh).afterEntry env entry := by
  unfold replayed
  rw [h, List.foldl_append]
  rfl

theorem replayed_congr {m' : Mirror} (h : m'.entries = m.entries)
    : m'.replayed fresh = m.replayed fresh := by
  unfold replayed
  rw [h]

structure Inv (fresh : DB) (ops : List LiveOp) (m : Mirror) : Prop where
  lasting : m.live.kvStore.Lasting
  kv : ∀ e ∈ m.entries, e.1.category = .kv
  unread : (m.replayed fresh).Unread ops

theorem Inv.reproduced_iff (h : m.Inv fresh ops)
    : m.Reproduced buildKey fresh
        ↔
      ∀ d key, m.live.kvStore.value d key = (m.replayed fresh).value d key := by
  have ⟨hok, hkv⟩ := applyAll_of_kv buildKey fresh.toStores h.kv
  have hload : fresh.loadAndApply buildKey m.schedule
      = (.ok (), { fresh with toStores := (applyAll buildKey fresh.toStores m.entries).2 }) := by
    exact Prod.ext hok rfl
  have hvalue (d key : String)
      : DB.value { fresh with toStores := (applyAll buildKey fresh.toStores m.entries).2 } d key
          = (m.replayed fresh).value d key := by
    rw [replayed, ← hkv]
    rfl
  unfold Reproduced
  rw [hload]
  constructor
  . rintro ⟨s, hs, hsame⟩ d key
    cases hs
    rw [← hvalue, hsame]
    rfl
  . intro hsame
    refine ⟨_, rfl, ?_⟩
    intro d key
    rw [hvalue, ← hsame]
    rfl

theorem Inv.kv_concat (h : m.Inv fresh ops) {m' : Mirror} {entry : AofEntry} {env : Env}
    (hentries : m'.entries = m.entries ++ [(entry, env)]) (hentry : entry.category = .kv)
    : ∀ e ∈ m'.entries, e.1.category = .kv := by
  intro e he
  rw [hentries] at he
  rcases List.mem_append.mp he with he | he
  . exact h.kv e he
  . rw [List.mem_singleton.mp he]
    assumption

theorem Inv.step (h : m.Inv fresh ops) {op : LiveOp} (hop : op.op.Kept)
    : (m.step buildKey op).Inv fresh (ops ++ [op]) := by
  rcases op with ⟨op, env, restart⟩
  cases op with
  | kvSet d key val ttl =>
    cases (show ttl = 0 from hop)
    have hentries := m.step_kvSet_entries buildKey d key val 0 env restart
    refine ⟨?_, h.kv_concat hentries rfl, ?_⟩
    . rw [step_kvStore]
      exact h.lasting.set env.clock env.order d key val
    . rw [replayed_concat hentries]
      exact h.unread.set d key val 0 env restart
  | kvGet d key =>
    have hentries := m.step_kvGet_entries buildKey d key env restart
    refine ⟨?_, ?_, ?_⟩
    . rw [step_kvStore]
      exact h.lasting.get env.clock d key
    . rw [hentries]
      exact h.kv
    . rw [replayed_congr hentries]
      exact h.unread.of_replayUse_eq (replayUse_concat ops _)
  | kvDel d key =>
    have hentries := m.step_kvDel_entries buildKey d key env restart
    have hlasting : (m.step buildKey ⟨.kvDel d key, env, restart⟩).live.kvStore.Lasting := by
      rw [step_kvStore]
      exact h.lasting.del d key
    split at hentries
    . refine ⟨hlasting, h.kv_concat hentries rfl, ?_⟩
      rw [replayed_concat hentries]
      exact (h.unread.del d key).of_replayUse_eq (replayUse_concat ops _)
    . refine ⟨hlasting, ?_, ?_⟩
      . rw [hentries]
        exact h.kv
      . rw [replayed_congr hentries]
        exact h.unread.of_replayUse_eq (replayUse_concat ops _)
  | _ => contradiction

/-- The keys that this set evicts come first in the sample also by the times at which they are replayed. -/
def SameEvictions (ops : List LiveOp) (live : DB) (op : LiveOp) : Prop :=
  match op.op with
  | .kvSet d key _ _ =>
    1024 ≤ (live.kvStore.getDb d).entries.entries.length →
      ∀ key', key' ≠ key →
        (key' ∈ (live.kvStore.getDb d).firstBy op.env.order (live.kvStore.getDb d).useOf
          ↔ key' ∈ (live.kvStore.getDb d).firstBy op.env.order fun key => (0, replayUse ops d key))
  | _ => True

theorem Inv.reproduced_step_iff (h : m.Inv fresh ops) {op : LiveOp} (hop : op.op.Kept)
    (horder : op.env.order.Canonical) (hsame : m.Reproduced buildKey fresh)
    : (m.step buildKey op).Reproduced buildKey fresh ↔ SameEvictions ops m.live op := by
  rw [h.reproduced_iff] at hsame
  rw [(h.step hop).reproduced_iff]
  rcases op with ⟨op, env, restart⟩
  cases op with
  | kvSet d key val ttl =>
    cases (show ttl = 0 from hop)
    have hentries := m.step_kvSet_entries buildKey d key val 0 env restart
    rw [step_kvStore, replayed_concat hentries]
    have hset := KvStore.value_set_eq_iff hsame env.clock restart env.order d key val
    refine hset.trans ?_
    unfold SameEvictions
    dsimp only
    have hevicts := h.unread.evicts_iff (hsame d) horder
    constructor
    . intro h' hfull key' hne
      have := h' key' hne
      rw [hevicts, KvStore.evicts_iff_firstBy] at this
      simpa [hfull] using this
    . intro h' key' hne
      rw [hevicts, KvStore.evicts_iff_firstBy]
      by_cases hfull : 1024 ≤ (m.live.kvStore.getDb d).entries.entries.length
      . simpa [hfull] using h' hfull key' hne
      . simp [hfull]
  | kvGet d key =>
    rw [step_kvStore, replayed_congr (m.step_kvGet_entries buildKey d key env restart)]
    refine iff_of_true ?_ trivial
    intro d' key'
    refine (h.lasting.value_get env.clock d key d' key').trans ?_
    exact hsame d' key'
  | kvDel d key =>
    have hentries := m.step_kvDel_entries buildKey d key env restart
    rw [step_kvStore]
    refine iff_of_true ?_ trivial
    intro d' key'
    refine (m.live.kvStore.value_del d key d' key').trans ?_
    split at hentries
    . rw [replayed_concat hentries]
      refine Eq.trans ?_ ((m.replayed fresh).value_del d key d' key').symm
      rw [hsame]
    . next hnone =>
      rw [replayed_congr hentries, ← hsame]
      split
      . next hand =>
        rw [Bool.not_eq_true, Option.isSome_eq_false_iff, Option.isNone_iff_eq_none] at hnone
        rw [hand.1, hand.2, hnone]
      . rfl
  | _ => contradiction

theorem run_concat (m : Mirror) (ops : List LiveOp) (op : LiveOp)
    : m.run buildKey (ops ++ [op]) = (m.run buildKey ops).step buildKey op := by
  unfold run
  rw [List.foldl_append]
  rfl

theorem run_live (m : Mirror) (ops : List LiveOp)
    : (m.run buildKey ops).live = m.live.after buildKey (ops.map fun op => (op.op, op.env)) := by
  induction ops using List.reverseRecOn with
  | nil => rfl
  | append_singleton ops op ih =>
    rw [run_concat, List.map_append, List.map_singleton, after_concat, ← ih]
    rfl

theorem inv_start {events events' : Option (List AofEntry)} {db : DB}
    (hdb : DB.new true events = .ok db) (hfresh : DB.new true events' = .ok fresh)
    : (start db (new_eq_ok hdb).2).Inv fresh [] := by
  have hempty (d key : String) : KvStore.new.entry d key = none := rfl
  refine ⟨?_, ?_, ?_⟩
  . apply KvStore.lasting_of_entry
    intro d key e he
    rw [start, new_kvStore hdb, hempty] at he
    contradiction
  . simp [start]
  . intro d key e he
    rw [replayed, start, List.foldl_nil, new_kvStore hfresh, hempty] at he
    contradiction

theorem inv_run {start : Mirror} (hstart : start.Inv fresh []) {ops : List LiveOp}
    (hops : ∀ op ∈ ops, op.op.Kept)
    : (start.run buildKey ops).Inv fresh ops := by
  induction ops using List.reverseRecOn with
  | nil => exact hstart
  | append_singleton ops op ih =>
    rw [run_concat]
    apply Inv.step
    . apply ih
      intro op' hmem
      exact hops op' (by simp [hmem])
    . exact hops op (by simp)

theorem reproduced_start {events events' : Option (List AofEntry)} {db : DB}
    (hdb : DB.new true events = .ok db) (hfresh : DB.new true events' = .ok fresh)
    : (start db (new_eq_ok hdb).2).Reproduced buildKey fresh := by
  rw [(inv_start hdb hfresh).reproduced_iff]
  intro d key
  rw [replayed, start, List.foldl_nil, new_kvStore hfresh, new_kvStore hdb]

theorem reproduced_run_concat_iff {events events' : Option (List AofEntry)} {db : DB}
    (hdb : DB.new true events = .ok db) (hfresh : DB.new true events' = .ok fresh) {op : LiveOp}
    (hops : ∀ op' ∈ ops ++ [op], op'.op.Kept) (horder : op.env.order.Canonical)
    (hsame : ((start db (new_eq_ok hdb).2).run buildKey ops).Reproduced buildKey fresh)
    : ((start db (new_eq_ok hdb).2).run buildKey (ops ++ [op])).Reproduced buildKey fresh
        ↔
      SameEvictions ops (db.after buildKey (ops.map fun op => (op.op, op.env))) op := by
  have hinv : ((start db (new_eq_ok hdb).2).run buildKey ops).Inv fresh ops := by
    apply inv_run (inv_start hdb hfresh)
    intro op' hmem
    exact hops op' (by simp [hmem])
  rw [run_concat, hinv.reproduced_step_iff (hops op (by simp)) horder hsame, run_live]
  rfl

theorem reproduced_run {events events' : Option (List AofEntry)} {db : DB}
    (hdb : DB.new true events = .ok db) (hfresh : DB.new true events' = .ok fresh)
    (hops : ∀ op ∈ ops, op.op.Kept) (horder : ∀ op ∈ ops, op.env.order.Canonical)
    (h : ∀ front op, front ++ [op] <+: ops →
      SameEvictions front (db.after buildKey (front.map fun op => (op.op, op.env))) op)
    : ((start db (new_eq_ok hdb).2).run buildKey ops).Reproduced buildKey fresh := by
  induction ops using List.reverseRecOn with
  | nil => exact reproduced_start hdb hfresh
  | append_singleton ops op ih =>
    have hpre := List.prefix_append ops [op]
    have hsame := ih (fun op' hmem => hops op' (by simp [hmem]))
      (fun op' hmem => horder op' (by simp [hmem])) (fun front op' h' => h front op' (h'.trans hpre))
    rw [reproduced_run_concat_iff hdb hfresh hops (horder op (by simp)) hsame]
    exact h ops op (List.prefix_refl _)

theorem reproduced_iff_sameEvictions (buildKey : String → UInt64 → UInt64)
    {events events' : Option (List AofEntry)} {db fresh : DB}
    (hdb : DB.new true events = .ok db) (hfresh : DB.new true events' = .ok fresh)
    {ops : List LiveOp} (hops : ∀ op ∈ ops, op.op.Kept)
    (horder : ∀ op ∈ ops, op.env.order.Canonical)
    : (∀ front, front <+: ops →
          ((start db (new_eq_ok hdb).2).run buildKey front).Reproduced buildKey fresh)
        ↔
      ∀ front op, front ++ [op] <+: ops →
        SameEvictions front (db.after buildKey (front.map fun op => (op.op, op.env))) op := by
  constructor
  . intro h front op hpre
    have hbefore := h front ((List.prefix_append front [op]).trans hpre)
    have hkept (op' : LiveOp) (hmem : op' ∈ front ++ [op]) : op'.op.Kept :=
      hops op' (hpre.subset hmem)
    rw [← reproduced_run_concat_iff hdb hfresh hkept (horder op (hpre.subset (by simp))) hbefore]
    exact h _ hpre
  . intro h front hpre
    apply reproduced_run hdb hfresh
    . intro op hmem
      exact hops op (hpre.subset hmem)
    . intro op hmem
      exact horder op (hpre.subset hmem)
    . intro front' op hpre'
      exact h front' op (hpre'.trans hpre)

def byName : Assoc.Order String :=
  Assoc.Order.sorted fun a b => decide (a ≤ b)

def fillKey (i : Nat) : String :=
  String.ofList (List.replicate i 'k')

def fillEnv : Env :=
  { Env.steady with order := byName }

def fillOp (i : Nat) : LiveOp :=
  ⟨.kvSet "d" (fillKey i) [] 0, fillEnv, ⟨0, 0⟩⟩

def fill (n : Nat) : List LiveOp :=
  (List.range n).map fillOp

def filled (buildKey : String → UInt64 → UInt64) (n : Nat) : DB :=
  freshDb.after buildKey ((fill n).map fun op => (op.op, op.env))

theorem byName_trans (a b c : String) (hab : decide (a ≤ b)) (hbc : decide (b ≤ c)) : decide (a ≤ c) := by
  rw [decide_eq_true_eq] at *
  exact String.le_trans hab hbc

theorem byName_total (a b : String) : decide (a ≤ b) || decide (b ≤ a) := by
  rw [Bool.or_eq_true, decide_eq_true_eq, decide_eq_true_eq]
  exact String.le_total a b

theorem canonical_byName : byName.Canonical := by
  apply Assoc.Order.canonical_sorted byName_trans byName_total
  intro a b hab hba
  rw [decide_eq_true_eq] at *
  exact String.le_antisymm hab hba

theorem arrange_byName {keys : List String} (h : "" ∈ keys)
    : ∃ rest, byName.arrange keys = "" :: rest := by
  have hsorted := Assoc.Order.pairwise_sorted byName_trans byName_total keys
  have hmem := (byName.perm keys).mem_iff.mpr h
  unfold byName at *
  cases hkeys : (Assoc.Order.sorted fun a b => decide (a ≤ b)).arrange keys with
  | nil =>
    rw [hkeys] at hmem
    contradiction
  | cons key rest =>
    rw [hkeys] at hmem hsorted
    rcases List.mem_cons.mp hmem with rfl | hmem
    . exact ⟨rest, rfl⟩
    . have hle := (List.pairwise_cons.mp hsorted).1 "" hmem
      rw [decide_eq_true_eq] at hle
      have hempty : key = "" := String.le_antisymm hle (List.nil_le key.toList)
      exact ⟨rest, by rw [hempty]⟩

theorem fillKey_inj {i j : Nat} (h : fillKey i = fillKey j) : i = j := by
  have := congrArg (fun s => s.toList.length) h
  simpa [fillKey] using this

theorem fill_succ (n : Nat) : fill (n + 1) = fill n ++ [fillOp n] := by
  unfold fill
  rw [List.range_succ, List.map_append, List.map_singleton]

variable (buildKey : String → UInt64 → UInt64)

theorem filled_succ (n : Nat)
    : (filled buildKey (n + 1)).kvStore
        =
      ((filled buildKey n).kvStore.set ⟨0, 0⟩ byName "d" (fillKey n) [] 0).2 := by
  unfold filled
  rw [fill_succ, List.map_append, List.map_singleton, after_concat, call_kvStore]
  rfl

theorem unread_filled (n : Nat) : (filled buildKey n).kvStore.Unread (fill n) := by
  induction n with
  | zero =>
    intro d key e he
    contradiction
  | succ n ih =>
    rw [filled_succ, fill_succ]
    exact ih.set "d" (fillKey n) [] 0 fillEnv ⟨0, 0⟩

theorem sameEvictions_of_unread {live : DB} (h : live.kvStore.Unread ops) (op : LiveOp)
    : SameEvictions ops live op := by
  unfold SameEvictions
  split
  . next d _ _ _ _ =>
    intro _ key' _
    rw [KvDb.firstBy_use_congr (h.useOf d)]
  . trivial

theorem exists_fill_of_prefix {n : Nat} (h : ops <+: fill n) : ∃ k, ops = fill k := by
  induction n with
  | zero => exact ⟨0, List.prefix_nil.mp h⟩
  | succ n ih =>
    rw [fill_succ, List.prefix_concat_iff] at h
    rcases h with heq | hpre
    . exact ⟨n + 1, by rw [heq, fill_succ]⟩
    . exact ih hpre

theorem sameEvictions_fill {n : Nat} {front : List LiveOp} {op : LiveOp}
    (h : front ++ [op] <+: fill n)
    : SameEvictions front (freshDb.after buildKey (front.map fun op => (op.op, op.env))) op := by
  rcases exists_fill_of_prefix ((List.prefix_append front [op]).trans h) with ⟨k, rfl⟩
  apply sameEvictions_of_unread
  apply unread_filled

theorem kept_fill {n : Nat} {op : LiveOp} (h : op ∈ fill n) : op.op.Kept := by
  rcases List.mem_map.mp h with ⟨i, _, rfl⟩
  rfl

theorem canonical_fill {n : Nat} {op : LiveOp} (h : op ∈ fill n) : op.env.order.Canonical := by
  rcases List.mem_map.mp h with ⟨i, _, rfl⟩
  exact canonical_byName

theorem restart_fill {n : Nat} {op : LiveOp} (h : op ∈ fill n) : op.restart.useNow = 0 := by
  rcases List.mem_map.mp h with ⟨i, _, rfl⟩
  rfl

-- The last of these sets finds 1024 keys that have not been read, and evicts.
theorem reproduced_fill_over
    : DB.new true none = .ok freshDb
        ∧ ((start freshDb rfl).run (fun _ id => id) (fill 1025)).Reproduced (fun _ id => id) freshDb := by
  have hops (op : LiveOp) (hop : op ∈ fill 1025) : op.op.Kept := kept_fill hop
  have horder (op : LiveOp) (hop : op ∈ fill 1025) : op.env.order.Canonical := canonical_fill hop
  have h := reproduced_iff_sameEvictions (fun _ id => id) (new_eq none) (new_eq none) hops horder
  exact ⟨rfl, h.mpr (fun _ _ => sameEvictions_fill _) (fill 1025) (List.prefix_refl _)⟩

theorem filled_kvStore (n : Nat)
    : (filled buildKey n).kvStore = KvStore.setKeys byName ((List.range n).map fillKey) := by
  induction n with
  | zero => rfl
  | succ n ih =>
    rw [filled_succ, ih, List.range_succ, List.map_append, List.map_singleton,
      KvStore.setKeys_concat]

theorem filled_eq {n : Nat} (h : n ≤ 1024)
    : ((filled buildKey n).kvStore.getDb "d").entries.entries.length = n
        ∧ ∀ i, (filled buildKey n).kvStore.value "d" (fillKey i) = if i < n then some [] else none := by
  have hlength : ((List.range n).map fillKey).length = n := by
    rw [List.length_map, List.length_range]
  have hnodup : ((List.range n).map fillKey).Nodup := by
    apply List.Nodup.map
    . intro i j heq
      exact fillKey_inj heq
    . exact List.nodup_range
  have ⟨hentries, hvalue⟩ := KvStore.setKeys_spec byName hnodup (by omega)
  rw [filled_kvStore]
  refine ⟨hentries.trans hlength, fun i => ?_⟩
  simp only [hvalue, List.mem_map_of_injective (fun _ _ => fillKey_inj), List.mem_range]

theorem replayUse_eq_zero (h : ∀ op ∈ ops, op.restart.useNow = 0) (d key : String)
    : replayUse ops d key = 0 := by
  induction ops using List.reverseRecOn with
  | nil => rfl
  | append_singleton ops op ih =>
    have hrest := ih (fun op' hmem => h op' (by simp [hmem]))
    rw [replayUse_concat]
    split
    . split
      . exact h op (by simp)
      . assumption
    . assumption

def readOp : LiveOp :=
  ⟨.kvGet "d" "", fillEnv, ⟨0, 0⟩⟩

def readRun (n : Nat) : List LiveOp :=
  fill n ++ [readOp]

def readStore (buildKey : String → UInt64 → UInt64) (n : Nat) : KvStore :=
  (freshDb.after buildKey ((readRun n).map fun op => (op.op, op.env))).kvStore

theorem readStore_eq (n : Nat)
    : readStore buildKey n = ((filled buildKey n).kvStore.get ⟨0, 0⟩ "d" "").2 := by
  unfold readStore readRun
  rw [List.map_append, List.map_singleton, after_concat, call_kvStore]
  rfl

theorem kept_readRun {n : Nat} {op : LiveOp} (h : op ∈ readRun n) : op.op.Kept := by
  rcases List.mem_append.mp h with h | h
  . exact kept_fill h
  . rw [List.mem_singleton.mp h]
    trivial

theorem canonical_readRun {n : Nat} {op : LiveOp} (h : op ∈ readRun n) : op.env.order.Canonical := by
  rcases List.mem_append.mp h with h | h
  . exact canonical_fill h
  . rw [List.mem_singleton.mp h]
    exact canonical_byName

theorem reproduced_readRun (n : Nat)
    : ((start freshDb rfl).run buildKey (readRun n)).Reproduced buildKey freshDb := by
  apply reproduced_run (new_eq none) (new_eq none)
  . intro op hop
    exact kept_readRun hop
  . intro op hop
    exact canonical_readRun hop
  . intro front op hpre
    unfold readRun at hpre
    rw [List.prefix_concat_iff] at hpre
    rcases hpre with heq | hpre
    . have hop : op = readOp := by
        simpa using (List.append_inj' heq rfl).2
      rw [hop]
      trivial
    . exact sameEvictions_fill buildKey hpre

theorem lasting_filled (n : Nat) : (filled buildKey n).kvStore.Lasting := by
  have hinv : ((start freshDb rfl).run buildKey (fill n)).Inv freshDb (fill n) := by
    apply inv_run (inv_start (new_eq none) (new_eq none))
    intro op hop
    exact kept_fill hop
  have hlasting := hinv.lasting
  rw [run_live] at hlasting
  exact hlasting

theorem useOf_filled (n : Nat) (key : String)
    : ((filled buildKey n).kvStore.getDb "d").useOf key = (0, 0) := by
  unfold KvDb.useOf
  cases hlookup : ((filled buildKey n).kvStore.getDb "d").entries.lookup key with
  | none => rfl
  | some e =>
    have hzero : replayUse (fill n) "d" key = 0 := by
      apply replayUse_eq_zero
      intro op hop
      exact restart_fill hop
    have huse := unread_filled buildKey n "d" key e hlookup
    rw [hzero] at huse
    exact huse

theorem value_readStore (n : Nat) (key : String)
    : (readStore buildKey n).value "d" key = (filled buildKey n).kvStore.value "d" key := by
  rw [readStore_eq, (lasting_filled buildKey n).value_get]

theorem length_readStore {n : Nat} (h : n ≤ 1024)
    : ((readStore buildKey n).getDb "d").entries.entries.length = n := by
  rw [KvStore.length_eq_of_value (value_readStore buildKey n), (filled_eq buildKey h).1]

theorem value_filled_first {n : Nat} (hpos : 0 < n) (hle : n ≤ 1024)
    : (filled buildKey n).kvStore.value "d" "" = some [] := by
  have hfirst := (filled_eq buildKey hle).2 0
  rw [if_pos hpos] at hfirst
  exact hfirst

theorem useOf_readStore_of_ne (n : Nat) {key : String} (h : key ≠ "")
    : ((readStore buildKey n).getDb "d").useOf key = (0, 0) := by
  have hentry : ((readStore buildKey n).getDb "d").entries.lookup key
      = ((filled buildKey n).kvStore.getDb "d").entries.lookup key := by
    have := (filled buildKey n).kvStore.entry_get ⟨0, 0⟩ "d" "" "d" key
    rw [if_neg (by simp [h]), ← readStore_eq] at this
    exact this
  rw [← useOf_filled buildKey n key]
  unfold KvDb.useOf
  rw [hentry]

theorem useOf_readStore {n : Nat} (hpos : 0 < n) (hle : n ≤ 1024)
    : ((readStore buildKey n).getDb "d").useOf "" = (1, 0) := by
  rcases Option.map_eq_some_iff.mp (value_filled_first buildKey hpos hle) with ⟨e, he, _⟩
  have huse := useOf_filled buildKey n ""
  rw [KvDb.useOf, he, Prod.mk.injEq] at huse
  have hentry := (filled buildKey n).kvStore.entry_get ⟨0, 0⟩ "d" "" "d" ""
  rw [if_pos ⟨rfl, rfl⟩, ← readStore_eq, (lasting_filled buildKey n).found_eq,
    show (filled buildKey n).kvStore.entry "d" "" = some e from he] at hentry
  rw [KvDb.useOf, show ((readStore buildKey n).getDb "d").entries.lookup "" = _ from hentry]
  simp [huse.1]

theorem replayUse_readRun (n : Nat) (d key : String) : replayUse (readRun n) d key = 0 := by
  apply replayUse_eq_zero
  intro op hop
  rcases List.mem_append.mp hop with hop | hop
  . exact restart_fill hop
  . rw [List.mem_singleton.mp hop]
    rfl

-- The read keeps the first key from being evicted, and the replay does not see it.
theorem not_sameEvictions_read {n : Nat} (hn : n = 1024)
    : ¬SameEvictions (readRun n)
        (freshDb.after buildKey ((readRun n).map fun op => (op.op, op.env))) (fillOp n) := by
  have hlength := length_readStore buildKey (Nat.le_of_eq hn)
  have hsize : ((readStore buildKey n).getDb "d").sampleSize = 204 := by
    unfold KvDb.sampleSize
    rw [hlength, hn]
    rfl
  have hkey : "" ≠ fillKey n := by
    intro heq
    have := fillKey_inj (show fillKey 0 = fillKey n from heq)
    omega
  intro h
  have hiff := h (Nat.le_of_eq (hlength.trans hn).symm) "" hkey
  have hlive : "" ∉ ((readStore buildKey n).getDb "d").firstBy byName
      ((readStore buildKey n).getDb "d").useOf := by
    apply KvDb.not_mem_firstBy
    . omega
    . intro key' hne
      rw [useOf_readStore buildKey (by omega) (by omega), useOf_readStore_of_ne buildKey n hne]
      exact Bool.false_ne_true
  apply hlive
  apply hiff.mpr
  show "" ∈ ((readStore buildKey n).getDb "d").firstBy byName _
  simp only [replayUse_readRun]
  rw [KvDb.firstBy_const, hsize]
  have hmem : "" ∈ ((readStore buildKey n).getDb "d").entries.keys := by
    rw [KvStore.mem_keys_iff_value, value_readStore, value_filled_first buildKey (by omega) (by omega)]
    rfl
  rcases arrange_byName hmem with ⟨rest, hrest⟩
  rw [hrest]
  simp

theorem not_reproduced_after_read
    : DB.new true none = .ok freshDb
        ∧ (∀ op ∈ readRun 1024 ++ [fillOp 1024], op.op.Kept ∧ op.env.order.Canonical)
        ∧ ¬((start freshDb rfl).run (fun _ id => id) (readRun 1024 ++ [fillOp 1024])).Reproduced
            (fun _ id => id) freshDb := by
  have hops (op : LiveOp) (hop : op ∈ readRun 1024 ++ [fillOp 1024])
      : op.op.Kept ∧ op.env.order.Canonical := by
    rcases List.mem_append.mp hop with hop | hop
    . exact ⟨kept_readRun hop, canonical_readRun hop⟩
    . rw [List.mem_singleton.mp hop]
      exact ⟨rfl, canonical_byName⟩
  refine ⟨rfl, hops, ?_⟩
  have hbefore := reproduced_readRun (fun _ id => id) 1024
  have hiff := reproduced_run_concat_iff (new_eq none) (new_eq none) (fun op hop => (hops op hop).1)
    canonical_byName hbefore
  intro h
  exact not_sameEvictions_read (fun _ id => id) rfl (hiff.mp h)

end Mirror
end DB
end MemStream
