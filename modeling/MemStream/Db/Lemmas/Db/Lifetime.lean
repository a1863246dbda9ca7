import MemStream.Db.Lemmas.Db.Load
import MemStream.Db.Lemmas.Db.KvDurability
import MemStream.Db.Lemmas.Kv.Expiry

namespace MemStream

def KvStore.afterOp (store : KvStore) (env : Env) : DB.Op → KvStore
  | .kvSet d key val ttl => (store.set env.clock env.order d key val ttl).2
  | .kvGet d key => (store.get env.clock d key).2
  | .kvDel d key => (store.del d key).2
  | .kvFlush d => (store.flush d).2
  | _ => store

def KvStore.afterEntry (store : KvStore) (env : Env) : AofEntry → KvStore
  | .kvSet d key val ttl => (store.set env.clock env.order d key val ttl).2
  | .kvDel d key => (store.del d key).2
  | .kvFlush d => (store.flush d).2
  | _ => store

def AofEntry.Touches (d key : String) : AofEntry → Prop
  | .kvSet d' key' .. | .kvDel d' key' => d' = d ∧ key' = key
  | .kvFlush d' => d' = d
  | _ => False

def DB.Op.Touches (d key : String) : DB.Op → Prop
  | .kvSet d' key' .. | .kvDel d' key' => d' = d ∧ key' = key
  | .kvFlush d' => d' = d
  | _ => False

theorem applyAof_kvStore (buildKey : String → UInt64 → UInt64) (s : Stores) (env : Env)
    (entry : AofEntry)
    : (applyAof buildKey s env entry).2.kvStore = s.kvStore.afterEntry env entry := by
  cases entry with
  | _ => rfl

namespace DB

variable {buildKey : String → UInt64 → UInt64}

theorem Op.touches_of_entry {op : Op} {entry : AofEntry} (h : op.entry = some entry) (d key : String)
    : entry.Touches d key ↔ op.Touches d key := by
  cases op with
  | kvSet | kvDel | logCreateGroup | logDropGroup | logAdd | logAddRange | logRemove | listPush
  | listPushRange | listPop | listPopRange | listPopCount | listFlush =>
    cases h
    rfl
  | _ => contradiction

theorem call_kvStore (db : DB) (env : Env) (op : Op)
    : (db.call buildKey env op).2.kvStore = db.kvStore.afterOp env op := by
  cases hentry : op.entry with
  | none =>
    cases op with
    | kvGet | kvKeys | kvFlush | logRead | logReadRange | logListGroups | logGroupStats | listLen => rfl
    | _ => contradiction
  | some entry =>
    have hstores : (db.call buildKey env op).2.toStores
        = (MemStream.applyAof buildKey db.toStores env entry).2 := by
      rw [db.call_eq_perform buildKey env hentry, perform_stores, applyAof_eq]
    rw [hstores, applyAof_kvStore]
    cases op with
    | kvSet | kvDel | logCreateGroup | logDropGroup | logAdd | logAddRange | logRemove | listPush
    | listPushRange | listPop | listPopRange | listPopCount | listFlush =>
      cases hentry
      rfl
    | _ => contradiction

theorem after_append (start : DB) (ops ops' : List (Op × Env))
    : start.after buildKey (ops ++ ops') = (start.after buildKey ops).after buildKey ops' := by
  unfold after
  rw [Machine.run_append]

theorem aof_after (buildKey : String → UInt64 → UInt64) (start : DB) (ops : List (Op × Env))
    : ∃ entries,
        (start.after buildKey ops).aof = start.aof ++ entries
          ∧ ∀ entry ∈ entries, ∃ op ∈ ops, op.1.entry = some entry := by
  induction ops using List.reverseRecOn with
  | nil => exact ⟨[], by simp [after], by simp⟩
  | append_singleton ops op ih =>
    rcases op with ⟨op, env⟩
    rcases ih with ⟨entries, haof, hentries⟩
    rw [after_concat]
    have hold (entry : AofEntry) (hmem : entry ∈ entries)
        : ∃ op' ∈ ops ++ [(op, env)], op'.1.entry = some entry := by
      rcases hentries entry hmem with ⟨op', hop', hentry⟩
      exact ⟨op', by simp [hop'], hentry⟩
    rcases (start.after buildKey ops).call_aof buildKey env op with hsame | ⟨entry, hentry, hnew⟩
    . exact ⟨entries, hsame.trans haof, hold⟩
    . refine ⟨entries ++ [entry], by rw [hnew, haof, List.append_assoc], ?_⟩
      intro entry' hmem
      rcases List.mem_append.mp hmem with hmem | hmem
      . exact hold entry' hmem
      . rw [List.mem_singleton.mp hmem]
        exact ⟨(op, env), by simp, hentry⟩

end DB

namespace KvStore

variable {store : KvStore} {d key : String} {val : List UInt8} {expiry now : Int64}

theorem Held.afterOp (h : store.Held d key val expiry now) (hsmall : store.Small) {op : DB.Op}
    (hop : ¬op.Touches d key) {env : Env} (hclock : env.clock.expiryNow ≤ now)
    : (store.afterOp env op).Held d key val expiry now := by
  cases op with
  | kvSet d' key' val' ttl => exact h.set (hsmall d') hop env.clock env.order val' ttl
  | kvGet d' key' => exact h.get hclock d' key'
  | kvDel d' key' => exact h.del hop
  | kvFlush d' => exact h.flush hop
  | _ => exact h

theorem Held.afterEntry (h : store.Held d key val expiry now) (hsmall : store.Small)
    {entry : AofEntry} (hentry : ¬entry.Touches d key) (env : Env)
    : (store.afterEntry env entry).Held d key val expiry now := by
  cases entry with
  | kvSet d' key' val' ttl => exact h.set (hsmall d') hentry env.clock env.order val' ttl
  | kvDel d' key' => exact h.del hentry
  | kvFlush d' => exact h.flush hentry
  | _ => exact h

end KvStore

namespace DB

variable {buildKey : String → UInt64 → UInt64} {d key : String} {val : List UInt8} {ttl : Int64}

def setRun (before : List (Op × Env)) (d key : String) (val : List UInt8) (ttl : Int64) (env : Env)
    (rest : List (Op × Env))
    : List (Op × Env) :=
  before ++ (.kvSet d key val ttl, env) :: rest

theorem held_after {start : DB} {before rest : List (Op × Env)} {env : Env} {now : Int64}
    (hrest : ∀ op ∈ rest, ¬op.1.Touches d key) (hclock : ∀ op ∈ rest, op.2.clock.expiryNow ≤ now)
    (hsmall : ∀ ops, ops <+: setRun before d key val ttl env rest →
      (start.after buildKey ops).kvStore.Small)
    : (start.after buildKey (setRun before d key val ttl env rest)).kvStore.Held d key val
        (KvStore.expiry env.clock ttl) now := by
  induction rest using List.reverseRecOn with
  | nil =>
    unfold setRun
    rw [after_concat, call_kvStore]
    apply KvStore.held_set
  | append_singleton rest op ih =>
    rcases op with ⟨op, env'⟩
    have hsplit : setRun before d key val ttl env (rest ++ [(op, env')])
        = setRun before d key val ttl env rest ++ [(op, env')] := by
      simp [setRun]
    have hpre := List.prefix_append (setRun before d key val ttl env rest) [(op, env')]
    rw [hsplit] at hsmall ⊢
    have hheld := ih (fun op' hmem => hrest op' (by simp [hmem]))
      (fun op' hmem => hclock op' (by simp [hmem])) (fun ops hops => hsmall ops (hops.trans hpre))
    rw [after_concat, call_kvStore]
    apply hheld.afterOp (hsmall _ hpre)
    . exact hrest (op, env') (by simp)
    . exact hclock (op, env') (by simp)

theorem schedule_split {file file' : List AofEntry} {entry : AofEntry} (hentry : entry.category = .kv)
    (schedule : Schedule (file ++ entry :: file'))
    : ∃ entries env entries',
        schedule.entries = entries ++ (entry, env) :: entries'
          ∧ ∀ e ∈ entries', e.1.category = .kv → e.1 ∈ file' := by
  have hkv := interleaves_iff.mp schedule.interleaves .kv
  rw [List.filter_append, List.filter_cons_of_pos (by simpa using hentry),
    List.filter_eq_append_iff] at hkv
  rcases hkv with ⟨front, back, hmap, _, hback⟩
  rcases List.filter_eq_cons_iff.mp hback with ⟨skipped, back', rfl, _, _, hback'⟩
  rw [← List.append_assoc] at hmap
  rcases List.map_eq_append_iff.mp hmap with ⟨entries, rest, hentries, _, hrest⟩
  rcases List.map_eq_cons_iff.mp hrest with ⟨⟨entry', env⟩, entries', rfl, rfl, rfl⟩
  refine ⟨entries, env, entries', hentries, ?_⟩
  intro e hmem he
  have hfilter : e.1 ∈ (entries'.map Prod.fst).filter (·.category = .kv) := by
    rw [List.mem_filter]
    exact ⟨List.mem_map_of_mem hmem, by simpa using he⟩
  rw [hback'] at hfilter
  exact List.mem_of_mem_filter hfilter

theorem not_touches_of_not_kv {entry : AofEntry} (h : entry.category ≠ .kv) (d key : String)
    : ¬entry.Touches d key := by
  cases entry with
  | kvSet | kvDel | kvFlush => exact absurd rfl h
  | _ => exact id

theorem held_applyAll {s t : Stores} {entries entries' : List (AofEntry × Env)} {env : Env}
    (hentries : ∀ e ∈ entries', ¬e.1.Touches d key)
    (hsmall : ∀ front, front <+: entries ++ (.kvSet d key val ttl, env) :: entries' →
      (applyAll buildKey s front).2.kvStore.Small)
    (hok : applyAll buildKey s (entries ++ (.kvSet d key val ttl, env) :: entries') = (.ok (), t))
    (now : Int64)
    : t.kvStore.Held d key val (KvStore.expiry env.clock ttl) now := by
  induction entries' using List.reverseRecOn generalizing t with
  | nil =>
    rw [applyAll_eq_ok, Trace.run_append] at hok
    rcases hok with ⟨u, _, hset⟩
    rcases Trace.run_cons_eq_some.mp hset with ⟨u', hu', ht⟩
    cases Option.some.inj ht
    rw [applyStep_eq_some] at hu'
    have hkv := applyAof_kvStore buildKey u env (.kvSet d key val ttl)
    rw [hu'] at hkv
    rw [hkv]
    apply KvStore.held_set
  | append_singleton entries' e ih =>
    have hsplit : entries ++ (.kvSet d key val ttl, env) :: (entries' ++ [e])
        = (entries ++ (.kvSet d key val ttl, env) :: entries') ++ [e] := by
      simp
    have hpre := List.prefix_append (entries ++ (.kvSet d key val ttl, env) :: entries') [e]
    rw [hsplit] at hsmall hok
    rw [applyAll_eq_ok, Trace.run_append] at hok
    rcases hok with ⟨u, hu, hlast⟩
    rcases Trace.run_cons_eq_some.mp hlast with ⟨u', hu', ht⟩
    cases Option.some.inj ht
    rw [applyStep_eq_some] at hu'
    rw [← applyAll_eq_ok] at hu
    have hheld := ih (fun e' hmem => hentries e' (by simp [hmem]))
      (fun front hfront => hsmall front (hfront.trans hpre)) hu
    have hsmall := hsmall _ hpre
    rw [hu] at hsmall
    have hkv := applyAof_kvStore buildKey u e.2 e.1
    rw [hu'] at hkv
    rw [hkv]
    exact hheld.afterEntry hsmall (hentries e (by simp)) e.2

theorem aof_setRun (start : DB) (before : List (Op × Env)) (env : Env) {rest : List (Op × Env)}
    (hrest : ∀ op ∈ rest, ¬op.1.Touches d key)
    : ∃ file file',
        (start.after buildKey (setRun before d key val ttl env rest)).aof
            = file ++ .kvSet d key val ttl :: file'
          ∧ ∀ entry ∈ file', ¬entry.Touches d key := by
  have hset : (start.after buildKey (before ++ [(.kvSet d key val ttl, env)])).aof
      = (start.after buildKey before).aof ++ [.kvSet d key val ttl] := by
    rw [after_concat]
    rfl
  rcases aof_after buildKey (start.after buildKey (before ++ [(.kvSet d key val ttl, env)])) rest
    with ⟨file', haof, hfile'⟩
  refine ⟨(start.after buildKey before).aof, file', ?_, ?_⟩
  . rw [← after_append, hset] at haof
    simpa [setRun] using haof
  . intro entry hmem
    rcases hfile' entry hmem with ⟨op, hop, hentry⟩
    rw [Op.touches_of_entry hentry]
    exact hrest op hop

theorem held_loadAndApply {fresh restarted : DB} {file front back : List AofEntry}
    (hfile : file = front ++ .kvSet d key val ttl :: back)
    (hback : ∀ entry ∈ back, ¬entry.Touches d key) (schedule : Schedule file) {restart : Int64}
    (hschedule : ∀ e ∈ schedule.entries, e.2.clock.expiryNow = restart)
    (hsmall : ∀ entries, entries <+: schedule.entries →
      (applyAll buildKey fresh.toStores entries).2.kvStore.Small)
    (hload : fresh.loadAndApply buildKey schedule = (.ok (), restarted)) (now : Int64)
    : ∃ clock : KvClock,
        clock.expiryNow = restart
          ∧ restarted.kvStore.Held d key val (KvStore.expiry clock ttl) now := by
  subst hfile
  rcases schedule_split rfl schedule with ⟨entries, env, entries', hentries, hmem⟩
  unfold loadAndApply at hload
  rw [hentries] at hschedule hsmall hload
  refine ⟨env.clock, hschedule (.kvSet d key val ttl, env) (by simp), ?_⟩
  rw [Prod.mk.injEq] at hload
  rw [← hload.2]
  refine held_applyAll ?_ hsmall (Prod.ext hload.1 rfl) now
  intro e he
  by_cases hkv : e.1.category = .kv
  . exact hback e.1 (hmem e he hkv)
  . exact not_touches_of_not_kv hkv d key

def kvGetValue (db : DB) (env : Env) (d key : String) : Option (List UInt8) :=
  match (db.kvGet env d key).1 with
  | .ok (some e) => some e.val
  | _ => none

theorem kvGetValue_eq (db : DB) (env : Env) (d key : String)
    : db.kvGetValue env d key = (db.kvStore.found env.clock d key).map DBEntry.val := by
  unfold kvGetValue kvGet KvStore.get KvStore.found Outcome.mapErr
  dsimp only
  cases ((db.kvStore.getDb d).get env.clock key).1 with
  | none => rfl
  | some e => rfl

/-- With the time 0 an entry does not expire, and a time beyond the last one of an `i64` is one long ago. -/
def Lives (deadline now : Int) : Prop :=
  deadline < 2 ^ 63 ∧ (deadline = 0 ∨ now ≤ deadline)

theorem lives_iff {set now ttl : Int64} (httl : 0 < ttl) (hle : set ≤ now)
    : set + ttl = 0 ∨ now ≤ set + ttl ↔ Lives (set.toInt + ttl.toInt) now.toInt := by
  have hadd := Int64.toInt_add set ttl
  have hset := Int64.le_iff_toInt_le.mp hle
  have hpos := Int64.lt_iff_toInt_lt.mp httl
  have hlow := set.le_toInt
  have hhigh := set.toInt_lt
  have htop := ttl.toInt_lt
  have hnow := now.toInt_lt
  rw [Int64.toInt_zero] at hpos
  rw [← Int64.toInt_inj, Int64.le_iff_toInt_le, Int64.toInt_zero, hadd]
  unfold Lives
  by_cases hover : set.toInt + ttl.toInt < 2 ^ 63
  . rw [Int.bmod_eq_of_le (by omega) (by omega)]
    omega
  . have hwrap : (set.toInt + ttl.toInt).bmod (2 ^ 64) = set.toInt + ttl.toInt - 2 ^ 64 := by
      rw [← Int.sub_bmod_right, Int.bmod_eq_of_le (by omega) (by omega)]
      rfl
    rw [hwrap]
    omega

structure LifetimeKept (live restarted : DB) (env : Env) (d key : String) (val : List UInt8)
    (deadline : Int) : Prop where
  live_iff : live.kvGetValue env d key = some val ↔ env.clock.expiryNow.toInt ≤ deadline
  restarted_iff : restarted.kvGetValue env d key = some val ↔ live.kvGetValue env d key = some val

/-- The key has not expired yet, or has also expired if its time starts with the restart. -/
def Unextended (deadline restartDeadline now : Int) : Prop :=
  now ≤ deadline ∧ restartDeadline < 2 ^ 63
    ∨ deadline < now ∧ deadline ≠ 0 ∧ (2 ^ 63 ≤ restartDeadline ∨ restartDeadline ≠ 0 ∧ restartDeadline < now)

theorem lives_kept_iff {deadline restartDeadline now : Int} (hle : deadline ≤ restartDeadline)
    (hnow : now < 2 ^ 63)
    : ((Lives deadline now ↔ now ≤ deadline) ∧ (Lives restartDeadline now ↔ Lives deadline now))
        ↔
      Unextended deadline restartDeadline now := by
  unfold Lives Unextended
  by_cases hexpired : now ≤ deadline
  . omega
  . omega

theorem lifetimeKept_iff (buildKey : String → UInt64 → UInt64) (start fresh : DB)
    {before rest : List (Op × Env)} {set env : Env} (httl : 0 < ttl)
    (hrest : ∀ op ∈ rest, ¬op.1.Touches d key)
    (hclock : ∀ op ∈ rest, op.2.clock.expiryNow ≤ env.clock.expiryNow)
    (hsmall : ∀ ops, ops <+: setRun before d key val ttl set rest →
      (start.after buildKey ops).kvStore.Small)
    {restart : Int64} (hrestart : set.clock.expiryNow ≤ restart)
    (hnow : restart ≤ env.clock.expiryNow)
    (schedule : Schedule (start.after buildKey (setRun before d key val ttl set rest)).aof)
    (hschedule : ∀ e ∈ schedule.entries, e.2.clock.expiryNow = restart)
    (hsmall' : ∀ entries, entries <+: schedule.entries →
      (applyAll buildKey fresh.toStores entries).2.kvStore.Small)
    {restarted : DB} (hload : fresh.loadAndApply buildKey schedule = (.ok (), restarted))
    : LifetimeKept (start.after buildKey (setRun before d key val ttl set rest)) restarted env d key
          val (set.clock.expiryNow.toInt + ttl.toInt)
        ↔
      Unextended (set.clock.expiryNow.toInt + ttl.toInt) (restart.toInt + ttl.toInt)
        env.clock.expiryNow.toInt := by
  rcases aof_setRun start before set hrest with ⟨file, file', haof, hfile'⟩
  have hlive := held_after hrest hclock hsmall
  rcases held_loadAndApply haof hfile' schedule hschedule hsmall' hload env.clock.expiryNow
    with ⟨clock, rfl, hheld⟩
  have hexpiry (clock : KvClock) : KvStore.expiry clock ttl = clock.expiryNow + ttl := by
    rw [KvStore.expiry, if_neg]
    rintro rfl
    contradiction
  have hset := Int64.le_trans hrestart hnow
  have hle := Int64.le_iff_toInt_le.mp hrestart
  rw [hexpiry] at hlive hheld
  rw [← lives_kept_iff (by omega) env.clock.expiryNow.toInt_lt]
  have hlive_iff := (hlive.found_iff rfl).trans (lives_iff httl hset)
  have hrestarted_iff := (hheld.found_iff rfl).trans (lives_iff httl hnow)
  rw [← kvGetValue_eq] at hlive_iff hrestarted_iff
  rw [← hlive_iff, ← hrestarted_iff]
  constructor
  . rintro ⟨hlive_iff, hrestarted_iff⟩
    exact ⟨hlive_iff, hrestarted_iff⟩
  . rintro ⟨hlive_iff, hrestarted_iff⟩
    exact ⟨hlive_iff, hrestarted_iff⟩

def envAt (now : Int64) : Env :=
  { Env.steady with clock := ⟨now, now⟩ }

def briefRun : List (Op × Env) :=
  setRun [] "d" "k" [1] 10 (envAt 1000) []

theorem small_set_new (env : Env) (d key : String) (val : List UInt8) (ttl : Int64)
    : (KvStore.new.set env.clock env.order d key val ttl).2.Small := by
  intro d'
  have hnew (d : String) : (KvStore.new.getDb d).entries.entries.length = 0 := rfl
  have hsmall : (KvStore.new.getDb d).entries.entries.length < 1024 := by
    rw [hnew]
    decide
  have hset := KvStore.length_set_le hsmall env.clock env.order key val ttl d'
  rw [hnew] at hset
  omega

theorem small_briefRun (buildKey : String → UInt64 → UInt64) (ops : List (Op × Env))
    (h : ops <+: briefRun)
    : (freshDb.after buildKey ops).kvStore.Small := by
  rcases ops with _ | ⟨op, _ | ⟨op', ops⟩⟩
  . exact fun d => Nat.zero_lt_succ _
  . cases (List.cons_prefix_cons.mp h).1
    exact small_set_new (envAt 1000) "d" "k" [1] 10
  . have := h.length_le
    simp [briefRun, setRun] at this

theorem small_briefReplay (buildKey : String → UInt64 → UInt64) (env : Env)
    (entries : List (AofEntry × Env)) (h : entries <+: [(.kvSet "d" "k" [1] 10, env)])
    : (applyAll buildKey freshDb.toStores entries).2.kvStore.Small := by
  rcases entries with _ | ⟨e, _ | ⟨e', entries⟩⟩
  . exact fun d => Nat.zero_lt_succ _
  . cases (List.cons_prefix_cons.mp h).1
    exact small_set_new env "d" "k" [1] 10
  . have := h.length_le
    simp at this

theorem lifetimeKept_long_after_restart
    : let live := freshDb.after (fun _ id => id) briefRun
      ∃ restarted,
        DB.new true none = .ok freshDb
          ∧ freshDb.loadAndApply (fun _ id => id) (Schedule.inOrder live.aof (envAt 1005))
              = (.ok (), restarted)
          ∧ LifetimeKept live restarted (envAt 1020) "d" "k" [1] 1010 := by
  refine ⟨_, new_eq none, rfl, ?_⟩
  have hrestart : (envAt 1000).clock.expiryNow ≤ (1005 : Int64) := by decide
  have hnow : (1005 : Int64) ≤ (envAt 1020).clock.expiryNow := by decide
  have hschedule : ∀ e ∈ [(AofEntry.kvSet "d" "k" [1] 10, envAt 1005)],
      e.2.clock.expiryNow = 1005 := by
    intro e he
    cases List.mem_singleton.mp he
    rfl
  apply (lifetimeKept_iff (fun _ id => id) freshDb freshDb (by decide) (by simp) (by simp)
    (small_briefRun _) hrestart hnow (Schedule.inOrder _ (envAt 1005)) hschedule
    (small_briefReplay _ _) rfl).mpr
  right
  decide

-- A restart five milliseconds after the set gives the key another five milliseconds.
theorem not_lifetimeKept_after_restart
    : let live := freshDb.after (fun _ id => id) briefRun
      ∃ restarted,
        DB.new true none = .ok freshDb
          ∧ (∀ ops, ops <+: briefRun → (freshDb.after (fun _ id => id) ops).kvStore.Small)
          ∧ freshDb.loadAndApply (fun _ id => id) (Schedule.inOrder live.aof (envAt 1005))
              = (.ok (), restarted)
          ∧ (∀ entries, entries <+: (Schedule.inOrder live.aof (envAt 1005)).entries →
              (applyAll (fun _ id => id) freshDb.toStores entries).2.kvStore.Small)
          ∧ ¬LifetimeKept live restarted (envAt 1012) "d" "k" [1] 1010 := by
  refine ⟨_, new_eq none, small_briefRun _, rfl, small_briefReplay _ _, ?_⟩
  rintro ⟨hlive, hrestarted⟩
  have hback := hlive.mp (hrestarted.mp (by decide))
  contradiction

end DB
end MemStream
