import MemStream.Db.Lemmas.Db.Replay

namespace MemStream

namespace AofEntry

def isKv (entry : AofEntry) : Bool :=
  entry.category = .kv

end AofEntry

namespace View

def withKv (v : View) (kv : KvStore) : View :=
  { v with kv := kv }

theorem perform_of_kv (kv : KvStore) (env : Env) {entry : AofEntry} (h : entry.isKv = true)
    : ∃ res kv',
        res ≠ .panic ∧ ∀ v : View, v.kv = kv → v.perform env entry = (res, v.withKv kv') := by
  cases entry with
  | kvSet db key val ttl =>
    refine ⟨.ok (), (kv.set env.clock env.order db key val ttl).2, by simp, ?_⟩
    rintro v rfl
    rfl
  | kvDel db key =>
    refine ⟨(kv.del db key).1.mapErr .kvDelError, (kv.del db key).2, ?_, ?_⟩
    . exact perform_ne_panic_of_kv ⟨kv, ⟨0, Queues.empty⟩, Logs.empty⟩ env
        (show (AofEntry.kvDel db key).category = .kv from rfl)
    . rintro v rfl
      rfl
  | kvFlush db =>
    refine ⟨.ok (), (kv.flush db).2, by simp, ?_⟩
    rintro v rfl
    rfl
  | _ => simp [AofEntry.isKv, AofEntry.category] at h

theorem perform_withKv (v : View) (kv : KvStore) (env : Env) {entry : AofEntry}
    (h : entry.isKv = false)
    : (v.withKv kv).perform env entry
        =
      ((v.perform env entry).1, (v.perform env entry).2.withKv kv) := by
  cases entry with
  | kvSet db key val ttl => simp [AofEntry.isKv, AofEntry.category] at h
  | kvDel db key => simp [AofEntry.isKv, AofEntry.category] at h
  | kvFlush db => simp [AofEntry.isKv, AofEntry.category] at h
  | _ => rfl

theorem perform_kv_of_not_kv (v : View) (env : Env) {entry : AofEntry} (h : entry.isKv = false)
    : (v.perform env entry).2.kv = v.kv := by
  have hne : entry.category ≠ .kv := by simpa [AofEntry.isKv] using h
  exact Eq.symm (v.perform_frame env hne)

theorem replay_filter (v : View) (kv : KvStore) (entries : List (AofEntry × Env))
    : (v.withKv kv).replay (entries.filter fun e => !e.1.isKv)
        =
      ((v.replay entries).1, (v.replay entries).2.withKv kv) := by
  induction entries generalizing v with
  | nil => rfl
  | cons entry entries ih =>
    rcases entry with ⟨entry, env⟩
    rw [replay_cons]
    cases hkv : entry.isKv with
    | true =>
      rcases perform_of_kv v.kv env hkv with ⟨res, kv', hres, hperform⟩
      rw [List.filter_cons_of_neg (by simp [hkv]), hperform v rfl, if_neg hres, ← ih]
      rfl
    | false =>
      rw [List.filter_cons_of_pos (by simp [hkv]), replay_cons, v.perform_withKv kv env hkv]
      split
      . rfl
      . exact ih _

end View

namespace DB

variable (buildKey : String → UInt64 → UInt64)

theorem applyAofEntry_of_kv (db : DB) (env : Env) {entry : AofEntry} (h : entry.isKv = true)
    : (db.applyAofEntry buildKey env entry).toStores.view
        =
      (db.toStores.view.perform env entry).2 := by
  cases entry with
  | kvSet d key val ttl => rfl
  | kvDel d key => rfl
  | kvFlush d => rfl
  | _ => simp [AofEntry.isKv, AofEntry.category] at h

theorem applyAofEntry_of_not_kv (db : DB) (env : Env) {entry : AofEntry} (h : entry.isKv = false)
    : db.applyAofEntry buildKey env entry = db := by
  cases entry with
  | kvSet d key val ttl => simp [AofEntry.isKv, AofEntry.category] at h
  | kvDel d key => simp [AofEntry.isKv, AofEntry.category] at h
  | kvFlush d => simp [AofEntry.isKv, AofEntry.category] at h
  | _ => rfl

theorem applyAof_view (db : DB) {v : View} (hv : v.kv = db.kvStore) {entries : List (AofEntry × Env)}
    (hok : (v.replay entries).1 = .ok ())
    : (db.applyAof buildKey entries).2.toStores.view
        =
      db.toStores.view.withKv (v.replay entries).2.kv := by
  unfold applyAof
  dsimp only
  induction entries generalizing db v with
  | nil =>
    rw [List.foldl_nil, View.replay, hv]
    rfl
  | cons entry entries ih =>
    rcases entry with ⟨entry, env⟩
    rw [View.replay_cons] at hok ⊢
    rw [List.foldl_cons]
    cases hkv : entry.isKv with
    | true =>
      rcases View.perform_of_kv v.kv env hkv with ⟨res, kv, hres, hperform⟩
      have hview := db.applyAofEntry_of_kv buildKey env hkv
      rw [hperform _ hv.symm] at hview
      rw [hperform v rfl] at hok ⊢
      rw [if_neg hres] at hok ⊢
      have hkv' : (v.withKv kv).kv = (db.applyAofEntry buildKey env entry).kvStore :=
        (congrArg View.kv hview).symm
      rw [ih _ hkv' hok, hview]
      rfl
    | false =>
      rw [db.applyAofEntry_of_not_kv buildKey env hkv]
      split at hok
      . simp at hok
      . next hres =>
        rw [if_neg hres]
        apply ih _ _ hok
        rw [v.perform_kv_of_not_kv env hkv]
        exact hv

theorem applyAof_agrees_iff (db : DB) (hinv : db.toStores.Inv buildKey)
    (entries : List (AofEntry × Env))
    : (∃ s,
        applyAll buildKey db.toStores entries = (.ok (), s)
          ∧ s.contents = (db.applyAof buildKey entries).2.toStores.contents)
        ↔
      ∃ v,
        db.toStores.view.replay (entries.filter fun e => !e.1.isKv) = (.ok (), v)
          ∧ v.contents.lists = db.toStores.contents.lists
          ∧ v.contents.logs = db.toStores.contents.logs := by
  have ⟨_, hreplay⟩ := hinv.applyAll_refines entries
  have hfilter := db.toStores.view.replay_filter db.kvStore entries
  rw [show db.toStores.view.withKv db.kvStore = db.toStores.view by rfl] at hfilter
  constructor
  . rintro ⟨s, hall, hsame⟩
    rw [hall] at hreplay
    have hview := db.applyAof_view buildKey (v := db.toStores.view) rfl
      (show (db.toStores.view.replay entries).1 = .ok () by rw [hreplay])
    refine ⟨s.view.withKv db.kvStore, ?_, ?_, ?_⟩
    . rw [hfilter, hreplay]
    . have := congrArg Contents.lists hsame
      unfold Stores.contents at this
      rw [hview] at this
      exact this
    . have := congrArg Contents.logs hsame
      unfold Stores.contents at this
      rw [hview] at this
      exact this
  . rintro ⟨v, hothers, hlists, hlogs⟩
    rw [hfilter, Prod.mk.injEq] at hothers
    rcases hothers with ⟨hok, hv⟩
    have hview := db.applyAof_view buildKey (v := db.toStores.view) rfl hok
    rw [hreplay] at hok hv hview
    refine ⟨(applyAll buildKey db.toStores entries).2, ?_, ?_⟩
    . rw [← hok]
    . unfold Stores.contents at hlists hlogs ⊢
      rw [← hv] at hlists hlogs
      rw [hview]
      generalize (applyAll buildKey db.toStores entries).2.view = w at hlists hlogs ⊢
      simp only [View.contents, Contents.mk.injEq]
      exact ⟨rfl, hlists, hlogs⟩

theorem applyAof_agrees_on_refused_pop
    : ∃ db s,
        DB.new true none = .ok db
          ∧ applyAll (fun _ id => id) db.toStores
              [(.kvSet "d" "k" [1] 0, Env.steady), (.listPop "k", Env.steady)] = (.ok (), s)
          ∧ s.contents
              = (db.applyAof (fun _ id => id)
                  [(.kvSet "d" "k" [1] 0, Env.steady), (.listPop "k", Env.steady)]).2.toStores.contents := by
  have hinv : Stores.Inv (fun _ id => id) ⟨KvStore.new, SegList.blank.grown, GroupManager.new⟩ :=
    Stores.inv_new Stores.new_eq_ok
  have h := (applyAof_agrees_iff (fun _ id => id) ⟨_, [], none⟩ hinv
    [(.kvSet "d" "k" [1] 0, Env.steady), (.listPop "k", Env.steady)]).mpr ⟨_, rfl, rfl, rfl⟩
  rcases h with ⟨s, hs⟩
  exact ⟨_, s, rfl, hs⟩

theorem applyAof_ne_applyAll
    : ∃ db,
        DB.new true none = .ok db
          ∧ (applyAll (fun _ id => id) db.toStores [(.listPush "k" [1], Env.steady)]).1 = .ok ()
          ∧ (applyAll (fun _ id => id) db.toStores
              [(.listPush "k" [1], Env.steady)]).2.contents.lists "k" = [[1]]
          ∧ (db.applyAof (fun _ id => id)
              [(.listPush "k" [1], Env.steady)]).2.toStores.contents.lists "k" = [] := by
  refine ⟨_, rfl, rfl, ?_, rfl⟩
  decide

end DB
end MemStream
