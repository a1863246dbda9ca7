import MemStream.Db.Lemmas.Db.Durability
import MemStream.Db.Lemmas.Kv.Evict

namespace MemStream
namespace DB

variable (buildKey : String → UInt64 → UInt64)

def Op.Plain : Op → Prop
  | .kvSet _ _ _ ttl => ttl = 0
  | .kvGet .. | .kvDel .. | .kvKeys .. | .kvFlush .. => True
  | _ => False

def after (start : DB) (ops : List (Op × Env)) : DB :=
  (Machine.run (fun db op => db.call buildKey op.2 op.1) start ops).2

def value (db : DB) (d key : String) : Option (List UInt8) :=
  (db.toStores.contents.kv d key).map DBEntry.val

/-- Every start from the file that `db` has written ends with the values of `db`. -/
def KvRestored (fresh db : DB) : Prop :=
  ∀ schedule : Schedule db.aof, ∃ s,
    fresh.loadAndApply buildKey schedule = (.ok (), s) ∧ ∀ d key, s.value d key = db.value d key

structure Mirrored (db fresh : DB) : Prop where
  lasting : db.kvStore.Lasting
  replay : ∀ entries : List (AofEntry × Env), entries.map Prod.fst = db.aof →
    ∃ v, fresh.toStores.view.replay entries = (.ok (), v) ∧ ∀ d key, v.kv.value d key = db.value d key

variable {buildKey} {fresh db : DB}

theorem after_concat (start : DB) (ops : List (Op × Env)) (op : Op) (env : Env)
    : start.after buildKey (ops ++ [(op, env)])
        =
      ((start.after buildKey ops).call buildKey env op).2 := by
  unfold after
  rw [Machine.run_concat]

theorem call_kvDel_kvStore (db : DB) (buildKey : String → UInt64 → UInt64) (env : Env) (d key : String)
    : (db.call buildKey env (.kvDel d key)).2.kvStore = (db.kvStore.del d key).2 := by
  exact congrArg Stores.kvStore (log_toStores _ (db.kvStore.del d key).1 .kvDelError (.kvDel d key))

theorem call_kvDel_aof (db : DB) (buildKey : String → UInt64 → UInt64) (env : Env) (d key : String)
    : (db.call buildKey env (.kvDel d key)).2.aof
        =
      if (db.kvStore.value d key).isSome then db.aof ++ [.kvDel d key] else db.aof := by
  have haof := log_aof { db with kvStore := (db.kvStore.del d key).2 } (db.kvStore.del d key).1
    .kvDelError (.kvDel d key)
  rw [db.kvStore.del_isOk] at haof
  exact haof

theorem length_call_le (buildKey : String → UInt64 → UInt64) (hsmall : db.kvStore.Small) {op : Op}
    (hop : op.Plain) (env : Env) (d : String)
    : ((db.call buildKey env op).2.kvStore.getDb d).entries.entries.length
        ≤
      (db.kvStore.getDb d).entries.entries.length + 1 := by
  cases op with
  | kvSet d' key val ttl =>
    cases (show ttl = 0 from hop)
    exact KvStore.length_set_le (hsmall d') env.clock env.order key val 0 d
  | kvGet d' key => exact db.kvStore.length_get_le env.clock d' key d
  | kvDel d' key =>
    rw [call_kvDel_kvStore]
    exact db.kvStore.length_del_le d' key d
  | kvKeys d' => exact Nat.le_succ _
  | kvFlush d' => exact db.kvStore.length_flush_le d' d
  | _ => contradiction

theorem new_kvStore {events : Option (List AofEntry)} (h : DB.new true events = .ok db)
    : db.kvStore = KvStore.new := by
  have ⟨hstores, _⟩ := new_eq_ok h
  rw [Stores.new_eq_ok, Outcome.ok.injEq] at hstores
  rw [← hstores]

theorem small_after {events : Option (List AofEntry)} {start : DB}
    (hstart : DB.new true events = .ok start) {ops : List (Op × Env)}
    (hops : ∀ op ∈ ops, op.1.Plain) (hlength : ops.length < 1024)
    : (start.after buildKey ops).kvStore.Small := by
  have hcount (d : String)
      : ((start.after buildKey ops).kvStore.getDb d).entries.entries.length ≤ ops.length := by
    induction ops using List.reverseRecOn generalizing d with
    | nil =>
      show (start.kvStore.getDb d).entries.entries.length ≤ 0
      rw [new_kvStore hstart]
      rfl
    | append_singleton ops op ih =>
      rcases op with ⟨op, env⟩
      rw [List.length_append, List.length_singleton] at hlength ⊢
      have hrest := ih (fun op hmem => hops op (by simp [hmem])) (by omega)
      have hsmall : (start.after buildKey ops).kvStore.Small := by
        intro d'
        have := hrest d'
        omega
      have hop : op.Plain := hops (op, env) (by simp)
      rw [after_concat]
      have := length_call_le buildKey hsmall hop env d
      have := hrest d
      omega
  intro d
  have := hcount d
  omega

theorem Mirrored.unlogged (h : db.Mirrored fresh) {db' : DB} (hlasting : db'.kvStore.Lasting)
    (haof : db'.aof = db.aof) (hvalue : ∀ d key, db'.value d key = db.value d key)
    : db'.Mirrored fresh := by
  refine ⟨hlasting, ?_⟩
  intro entries hentries
  rw [haof] at hentries
  rcases h.replay entries hentries with ⟨v, hv, hsame⟩
  refine ⟨v, hv, ?_⟩
  intro d key
  rw [hsame, hvalue]

theorem Mirrored.logged (h : db.Mirrored fresh) {db' : DB} (hlasting : db'.kvStore.Lasting)
    {entry : AofEntry} (hentry : entry.category = .kv) (haof : db'.aof = db.aof ++ [entry])
    (hvalue : ∀ (env : Env) (v : View), (∀ d key, v.kv.value d key = db.value d key) →
      ∀ d key, (v.perform env entry).2.kv.value d key = db'.value d key)
    : db'.Mirrored fresh := by
  refine ⟨hlasting, ?_⟩
  intro entries hentries
  rw [haof] at hentries
  rcases List.map_eq_append_iff.mp hentries with ⟨front, last, rfl, hfront, hlast⟩
  rcases List.map_eq_singleton_iff.mp hlast with ⟨⟨entry', env⟩, rfl, rfl⟩
  rcases h.replay front hfront with ⟨v, hv, hsame⟩
  exact ⟨_, View.replay_concat _ front entry' env hv (v.perform_ne_panic_of_kv env hentry),
    hvalue env v hsame⟩

theorem Mirrored.step (h : db.Mirrored fresh) (hsmall : db.kvStore.Small) {op : Op} (hop : op.Plain)
    (env : Env) (hflush : ∀ d, op = .kvFlush d → ∀ key, db.value d key = none)
    : (db.call buildKey env op).2.Mirrored fresh := by
  cases op with
  | kvSet d key val ttl =>
    cases (show ttl = 0 from hop)
    refine h.logged (h.lasting.set env.clock env.order d key val) rfl rfl ?_
    intro env' v hsame d' key'
    -- the database is as small in the replay, so that nothing is evicted there either
    have hsmall' : (v.kv.getDb d).entries.entries.length < 1024 := by
      have hsame : ∀ key', v.kv.value d key' = db.kvStore.value d key' := hsame d
      rw [KvStore.length_eq_of_value hsame]
      exact hsmall d
    have hlive := KvStore.value_set (hsmall d) env.clock env.order key val d' key'
    have hreplay := KvStore.value_set hsmall' env'.clock env'.order key val d' key'
    rw [show v.kv.value d' key' = db.kvStore.value d' key' from hsame d' key'] at hreplay
    exact hreplay.trans hlive.symm
  | kvGet d key =>
    exact h.unlogged (h.lasting.get env.clock d key) rfl (h.lasting.value_get env.clock d key)
  | kvDel d key =>
    have hlive := db.kvStore.value_del d key
    have hkv := db.call_kvDel_kvStore buildKey env d key
    have haof := db.call_kvDel_aof buildKey env d key
    have hlasting : (db.call buildKey env (.kvDel d key)).2.kvStore.Lasting := by
      rw [hkv]
      exact h.lasting.del d key
    cases hvalue : db.kvStore.value d key with
    | none =>
      rw [hvalue] at haof
      refine h.unlogged hlasting haof ?_
      intro d' key'
      show (db.call buildKey env (.kvDel d key)).2.kvStore.value d' key' = db.kvStore.value d' key'
      rw [hkv, hlive]
      split
      . next hand => rw [hand.1, hand.2, hvalue]
      . rfl
    | some val =>
      rw [hvalue] at haof
      refine h.logged hlasting rfl haof ?_
      intro env' v hsame d' key'
      show (v.kv.del d key).2.value d' key'
        = (db.call buildKey env (.kvDel d key)).2.kvStore.value d' key'
      rw [hkv, hlive, KvStore.value_del]
      rw [show v.kv.value d' key' = db.kvStore.value d' key' from hsame d' key']
  | kvKeys d => exact h.unlogged h.lasting rfl fun _ _ => rfl
  | kvFlush d =>
    refine h.unlogged (h.lasting.flush d) rfl ?_
    intro d' key
    show (db.kvStore.flush d).2.value d' key = db.kvStore.value d' key
    rw [KvStore.value_flush]
    split
    . next hd =>
      rw [hd]
      exact (hflush d rfl key).symm
    . rfl
  | _ => contradiction

theorem Mirrored.restored (h : db.Mirrored fresh) (hfresh : fresh.toStores.Inv buildKey)
    : KvRestored buildKey fresh db := by
  intro schedule
  let Q (category : EntryCategory) (w : View) : Prop :=
    category = .kv → ∀ d key, w.kv.value d key = db.value d key
  have hagree {category : EntryCategory} {w w' : View} (heq : w.Agree w' category)
      (hw : Q category w) : Q category w' := by
    rintro rfl d key
    rw [← (show w.kv = w'.kv from heq)]
    exact hw rfl d key
  have hreplay (entries : List (AofEntry × Env)) (hentries : entries.map Prod.fst = db.aof)
      (_ : ∀ e ∈ entries, True)
      : ∃ v, fresh.toStores.view.replay entries = (.ok (), v) ∧ ∀ category, Q category v := by
    rcases h.replay entries hentries with ⟨v, hv, hsame⟩
    exact ⟨v, hv, fun _ _ => hsame⟩
  rcases DB.loadAndApply_of_inOrder (P := fun _ => True) hfresh ⟨Env.steady, trivial⟩ hagree hreplay
    schedule (fun _ _ => trivial) with ⟨s, hs, hq⟩
  exact ⟨s, hs, hq .kv rfl⟩

theorem Mirrored.new {events events' : Option (List AofEntry)}
    (hdb : DB.new true events = .ok db) (hfresh : DB.new true events' = .ok fresh)
    : db.Mirrored fresh := by
  have ⟨hstores, haof⟩ := new_eq_ok hdb
  have ⟨hfresh, _⟩ := new_eq_ok hfresh
  rw [hfresh, Outcome.ok.injEq] at hstores
  refine ⟨?_, ?_⟩
  . rw [new_kvStore hdb]
    intro d key entry hlookup
    cases hlookup
  . intro entries hentries
    rw [haof, List.map_eq_nil_iff] at hentries
    rw [hentries, hstores]
    exact ⟨_, rfl, fun _ _ => rfl⟩

theorem kvRestored_iff_flush_empty (buildKey : String → UInt64 → UInt64)
    {events events' : Option (List AofEntry)} {start : DB}
    (hstart : DB.new true events = .ok start) (hfresh : DB.new true events' = .ok fresh)
    (ops : List (Op × Env)) (hops : ∀ op ∈ ops, op.1.Plain)
    (hsmall : ∀ before, before <+: ops → (start.after buildKey before).kvStore.Small)
    : (∀ before, before <+: ops → KvRestored buildKey fresh (start.after buildKey before))
        ↔
      ∀ before d env, before ++ [(.kvFlush d, env)] <+: ops →
        ∀ key, (start.after buildKey before).value d key = none := by
  have hinv : fresh.toStores.Inv buildKey := Stores.inv_new (new_eq_ok hfresh).1
  constructor
  . intro h before d env hpre key
    -- the file is the same before and after the flush
    have hbefore := h before ((List.prefix_append before _).trans hpre)
    have hafter := h _ hpre
    rw [after_concat] at hafter
    rcases hbefore (Schedule.inOrder _ Env.steady) with ⟨s, hs, hvalue⟩
    rcases hafter (Schedule.inOrder _ Env.steady) with ⟨s', hs', hvalue'⟩
    have heq : s = s' := congrArg Prod.snd (hs.symm.trans hs')
    rw [← hvalue, heq, hvalue']
    show ((start.after buildKey before).kvStore.flush d).2.value d key = none
    rw [KvStore.value_flush, if_pos rfl]
  . intro hempty before hpre
    apply Mirrored.restored _ hinv
    induction before using List.reverseRecOn with
    | nil => exact Mirrored.new hstart hfresh
    | append_singleton before op ih =>
      rcases op with ⟨op, env⟩
      have hbefore := (List.prefix_append before [(op, env)]).trans hpre
      rw [after_concat]
      apply (ih hbefore).step (hsmall before hbefore)
      . exact hops (op, env) (hpre.subset (by simp))
      . rintro d rfl
        exact hempty before d env hpre

theorem kvRestored_after_flush_of_empty
    : ∃ start,
        DB.new true none = .ok start
          ∧ KvRestored (fun _ id => id) start
              (start.after (fun _ id => id)
                [(.kvFlush "d", Env.steady), (.kvSet "d" "k" [1] 0, Env.steady)]) := by
  have hops : ∀ op ∈ [(Op.kvFlush "d", Env.steady), (.kvSet "d" "k" [1] 0, Env.steady)],
      op.1.Plain := by
    simp [Op.Plain]
  refine ⟨_, new_eq none, ?_⟩
  refine (kvRestored_iff_flush_empty (fun _ id => id) (new_eq none) (new_eq none) _ hops ?_).mpr ?_ _
    (List.prefix_refl _)
  . intro before hpre
    apply small_after (new_eq none)
    . intro op hop
      exact hops op (hpre.subset hop)
    . exact Nat.lt_of_le_of_lt hpre.length_le (by decide)
  . intro before d env hpre key
    rcases before with _ | ⟨op, _ | ⟨op', before⟩⟩
    . rfl
    . simp at hpre
    . simp at hpre

theorem not_kvRestored_after_flush
    : ∃ start,
        DB.new true none = .ok start
          ∧ (∀ op ∈ [(Op.kvSet "d" "k" [1] 0, Env.steady), (.kvFlush "d", Env.steady)], op.1.Plain)
          ∧ (∀ before,
              before <+: [(Op.kvSet "d" "k" [1] 0, Env.steady), (.kvFlush "d", Env.steady)] →
              (start.after (fun _ id => id) before).kvStore.Small)
          ∧ ¬KvRestored (fun _ id => id) start
              (start.after (fun _ id => id)
                [(.kvSet "d" "k" [1] 0, Env.steady), (.kvFlush "d", Env.steady)]) := by
  have hops : ∀ op ∈ [(Op.kvSet "d" "k" [1] 0, Env.steady), (.kvFlush "d", Env.steady)],
      op.1.Plain := by
    simp [Op.Plain]
  refine ⟨_, new_eq none, hops, ?_, ?_⟩
  . intro before hpre
    apply small_after (new_eq none)
    . intro op hop
      exact hops op (hpre.subset hop)
    . exact Nat.lt_of_le_of_lt hpre.length_le (by decide)
  . intro h
    rcases h (Schedule.inOrder _ Env.steady) with ⟨s, hs, hvalue⟩
    have hback : s.value "d" "k" = some [1] := by
      have hs := congrArg (fun res => res.2.value "d" "k") hs
      exact hs.symm
    have := hback.symm.trans (hvalue "d" "k")
    contradiction

end DB
end MemStream
