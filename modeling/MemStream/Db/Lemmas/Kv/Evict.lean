import MemStream.Db.Lemmas.Kv.Basic

namespace MemStream

namespace KvDb

def leastUsed (db : KvDb) (order : Assoc.Order String) : List String :=
  (((db.candidates order).mergeSort lessUsed).take (max (db.sampleSize / 4) 1)).map Prod.fst

theorem mem_candidates {db : KvDb} {order : Assoc.Order String} {c : String × UInt64 × Int64}
    (h : c ∈ db.candidates order)
    : ∃ e, db.entries.lookup c.1 = some e ∧ c.2 = (e.usedCount, e.lastUsed) := by
  unfold candidates at h
  rcases List.mem_filterMap.mp h with ⟨key, _, hkey⟩
  rcases Option.map_eq_some_iff.mp hkey with ⟨e, he, rfl⟩
  exact ⟨e, he, rfl⟩

theorem lookup_of_mem_leastUsed {db : KvDb} {order : Assoc.Order String} {key : String}
    (h : key ∈ db.leastUsed order)
    : ∃ e, db.entries.lookup key = some e := by
  rcases List.mem_map.mp h with ⟨c, hc, rfl⟩
  have hmem := List.mem_mergeSort.mp (List.mem_of_mem_take hc)
  rcases mem_candidates hmem with ⟨e, he, _⟩
  exact ⟨e, he⟩

theorem lookup_expireLeastUsed (db : KvDb) (order : Assoc.Order String) (key : String)
    : (db.expireLeastUsed order).entries.lookup key
        =
      if key ∈ db.leastUsed order then none else db.entries.lookup key := by
  unfold expireLeastUsed
  split
  . next hempty =>
    rw [if_neg]
    intro hmem
    rcases List.mem_map.mp hmem with ⟨c, hc, _⟩
    have hc := List.mem_mergeSort.mp (List.mem_of_mem_take hc)
    simp [candidates, hempty] at hc
  . rw [← Assoc.lookup_foldl_erase, leastUsed, List.foldl_map]

def firstBy (db : KvDb) (order : Assoc.Order String) (use : String → UInt64 × Int64) : List String :=
  ((((order.arrange db.entries.keys).take db.sampleSize).map fun key => (key, use key)).mergeSort
    lessUsed |>.take (max (db.sampleSize / 4) 1)).map Prod.fst

def useOf (db : KvDb) (key : String) : UInt64 × Int64 :=
  match db.entries.lookup key with
  | none => (0, 0)
  | some e => (e.usedCount, e.lastUsed)

theorem firstBy_use_congr {db : KvDb} {use use' : String → UInt64 × Int64}
    (h : ∀ key ∈ db.entries.keys, use key = use' key) (order : Assoc.Order String)
    : db.firstBy order use = db.firstBy order use' := by
  have hmap : ((order.arrange db.entries.keys).take db.sampleSize).map (fun key => (key, use key))
      = ((order.arrange db.entries.keys).take db.sampleSize).map fun key => (key, use' key) := by
    apply List.map_congr_left
    intro key hmem
    rw [h key ((order.perm _).mem_iff.mp (List.mem_of_mem_take hmem))]
  unfold firstBy
  rw [hmap]

theorem leastUsed_eq_firstBy (db : KvDb) (order : Assoc.Order String)
    : db.leastUsed order = db.firstBy order db.useOf := by
  have hcandidates : db.candidates order
      = ((order.arrange db.entries.keys).take db.sampleSize).map fun key => (key, db.useOf key) := by
    unfold candidates
    rw [← List.filterMap_eq_map]
    apply List.filterMap_congr
    intro key hmem
    have hkey := (order.perm _).mem_iff.mp (List.mem_of_mem_take hmem)
    rw [← AList.mem_keys, ← AList.lookup_isSome] at hkey
    rcases Option.isSome_iff_exists.mp hkey with ⟨e, he⟩
    simp only [he, Option.map_some, Function.comp_apply, useOf]
  unfold leastUsed firstBy
  rw [hcandidates]

theorem firstBy_congr {db db' : KvDb} (h : db.entries.keys.Perm db'.entries.keys)
    {order : Assoc.Order String} (horder : order.Canonical) (use : String → UInt64 × Int64)
    : db.firstBy order use = db'.firstBy order use := by
  have hlength : db.entries.entries.length = db'.entries.entries.length := by
    simpa [AList.keys, List.keys] using h.length_eq
  unfold firstBy sampleSize
  rw [horder _ _ h, hlength]

theorem lessUsed_iff (a b : String × UInt64 × Int64)
    : lessUsed a b
        ↔
      a.2.1.toNat < b.2.1.toNat
        ∨ a.2.1.toNat = b.2.1.toNat ∧ a.2.2.toInt ≤ b.2.2.toInt := by
  simp [lessUsed, UInt64.lt_iff_toNat_lt, ← UInt64.toNat_inj, Int64.le_iff_toInt_le]

theorem lessUsed_trans (a b c : String × UInt64 × Int64) (hab : lessUsed a b) (hbc : lessUsed b c)
    : lessUsed a c := by
  rw [lessUsed_iff] at *
  omega

theorem lessUsed_total (a b : String × UInt64 × Int64) : lessUsed a b || lessUsed b a := by
  rw [Bool.or_eq_true, lessUsed_iff, lessUsed_iff]
  omega

theorem firstBy_const (db : KvDb) (order : Assoc.Order String) (use : UInt64 × Int64)
    : db.firstBy order (fun _ => use)
        =
      ((order.arrange db.entries.keys).take db.sampleSize).take (max (db.sampleSize / 4) 1) := by
  have hsorted (keys : List String)
      : (keys.map fun key => (key, use)).Pairwise fun a b => lessUsed a b := by
    rw [List.pairwise_map]
    apply List.pairwise_of_forall
    intro a b
    rw [lessUsed_iff]
    dsimp only
    omega
  unfold firstBy
  rw [List.mergeSort_of_pairwise (hsorted _), ← List.map_take, List.map_map]
  apply List.map_id

theorem length_sample (db : KvDb) (order : Assoc.Order String)
    : ((order.arrange db.entries.keys).take db.sampleSize).length = db.sampleSize := by
  have hlength : (order.arrange db.entries.keys).length = db.entries.entries.length := by
    rw [(order.perm _).length_eq]
    simp [AList.keys, List.keys]
  rw [List.length_take, hlength]
  unfold sampleSize
  omega

theorem nodup_sample (db : KvDb) (order : Assoc.Order String)
    : ((order.arrange db.entries.keys).take db.sampleSize).Nodup := by
  apply List.Sublist.nodup (List.take_sublist _ _)
  exact (order.perm _).nodup_iff.mpr db.entries.keys_nodup

theorem not_mem_firstBy {db : KvDb} {order : Assoc.Order String} {use : String → UInt64 × Int64}
    {key : String} (hlarge : 2 ≤ db.sampleSize)
    (h : ∀ key', key' ≠ key → ¬lessUsed (key, use key) (key', use key'))
    : key ∉ db.firstBy order use := by
  let sample := ((order.arrange db.entries.keys).take db.sampleSize).map fun key => (key, use key)
  let count := max (db.sampleSize / 4) 1
  have hperm := List.mergeSort_perm sample lessUsed
  have huse (c : String × UInt64 × Int64) (hc : c ∈ sample.mergeSort lessUsed) : c = (c.1, use c.1) := by
    rcases List.mem_map.mp (hperm.mem_iff.mp hc) with ⟨key', _, rfl⟩
    rfl
  have hnodup : (sample.mergeSort lessUsed).Nodup := by
    rw [hperm.nodup_iff]
    apply List.Nodup.map _ (db.nodup_sample order)
    intro key key' heq
    exact congrArg Prod.fst heq
  have hsorted := List.pairwise_mergeSort lessUsed_trans lessUsed_total sample
  have hrest : 0 < ((sample.mergeSort lessUsed).drop count).length := by
    rw [List.length_drop, hperm.length_eq, List.length_map, length_sample]
    omega
  rw [← List.take_append_drop count (sample.mergeSort lessUsed)] at huse hnodup hsorted
  intro hmem
  rcases List.mem_map.mp hmem with ⟨c, hc, rfl⟩
  -- whatever comes after the key has been used as much, so it is the key again
  rcases List.exists_mem_of_length_pos hrest with ⟨c', hc'⟩
  have hle := (List.pairwise_append.mp hsorted).2.2 c hc c' hc'
  have hc_use := huse c (List.mem_append_left _ hc)
  have hc_use' := huse c' (List.mem_append_right _ hc')
  have hkey : c'.1 = c.1 := by
    apply Decidable.of_not_not
    intro hne
    apply h c'.1 hne
    rw [← hc_use, ← hc_use']
    assumption
  have heq : c' = c := by
    rw [hc_use, hc_use', hkey]
  rw [heq] at hc'
  exact (List.nodup_append.mp hnodup).2.2 c hc c hc' rfl

end KvDb

namespace KvStore

variable {store : KvStore}

def Evicts (store : KvStore) (order : Assoc.Order String) (d key : String) : Prop :=
  1024 ≤ (store.getDb d).entries.entries.length ∧ key ∈ (store.getDb d).leastUsed order

theorem entry_set_of_not_evicts {order : Assoc.Order String} {d d' key key' : String}
    (hne : ¬(d' = d ∧ key' = key)) (h : ¬(d' = d ∧ store.Evicts order d key')) (clock : KvClock)
    (val : List UInt8) (ttl : Int64)
    : (store.set clock order d key val ttl).2.entry d' key' = store.entry d' key' := by
  unfold set
  dsimp only
  rw [entry_putDb_set]
  by_cases hd : d' = d
  . subst hd
    rw [if_pos rfl, if_neg (fun heq => hne ⟨rfl, heq⟩)]
    split
    . next hfull =>
      rw [KvDb.lookup_expireLeastUsed, if_neg (fun hmem => h ⟨rfl, hfull, hmem⟩)]
      rfl
    . rfl
  . rw [if_neg hd]

theorem entry_set_of_evicts {order : Assoc.Order String} {d key key' : String} (hne : key' ≠ key)
    (h : store.Evicts order d key') (clock : KvClock) (val : List UInt8) (ttl : Int64)
    : (store.set clock order d key val ttl).2.entry d key' = none := by
  rcases h with ⟨hfull, hmem⟩
  unfold set
  dsimp only
  rw [entry_putDb_set, if_pos rfl, if_neg hne, if_pos hfull, KvDb.lookup_expireLeastUsed, if_pos hmem]

theorem evicts_iff_firstBy (store : KvStore) (order : Assoc.Order String) (d key : String)
    : store.Evicts order d key
        ↔
      1024 ≤ (store.getDb d).entries.entries.length
        ∧ key ∈ (store.getDb d).firstBy order (store.getDb d).useOf := by
  unfold Evicts
  rw [KvDb.leastUsed_eq_firstBy]

theorem Evicts.entry {order : Assoc.Order String} {d key : String} (h : store.Evicts order d key)
    : ∃ e, store.entry d key = some e := by
  exact KvDb.lookup_of_mem_leastUsed h.2

theorem entry_of_entry_set {clock : KvClock} {order : Assoc.Order String} {d key d' key' : String}
    {val : List UInt8} {ttl : Int64} {e : DBEntry}
    (h : (store.set clock order d key val ttl).2.entry d' key' = some e)
    : (d' = d ∧ key' = key) ∧ e = ⟨val, expiry clock ttl, 0, clock.useNow⟩
        ∨ ¬(d' = d ∧ key' = key) ∧ store.entry d' key' = some e := by
  by_cases hself : d' = d ∧ key' = key
  . rw [hself.1, hself.2, entry_set_self] at h
    exact .inl ⟨hself, (Option.some.inj h).symm⟩
  . right
    by_cases hevicts : d' = d ∧ store.Evicts order d key'
    . rw [hevicts.1, entry_set_of_evicts (fun heq => hself ⟨hevicts.1, heq⟩) hevicts.2] at h
      contradiction
    . rw [entry_set_of_not_evicts hself hevicts] at h
      exact ⟨hself, h⟩

theorem Lasting.set (h : store.Lasting) (clock : KvClock) (order : Assoc.Order String)
    (d key : String) (val : List UInt8)
    : (store.set clock order d key val 0).2.Lasting := by
  apply lasting_of_entry
  intro d' key' e he
  rcases entry_of_entry_set he with ⟨_, rfl⟩ | ⟨_, he⟩
  . rfl
  . exact h.entry he

theorem value_set_eq_iff {store' : KvStore} (h : ∀ d key, store.value d key = store'.value d key)
    (clock clock' : KvClock) (order : Assoc.Order String) (d key : String) (val : List UInt8)
    : (∀ d' key',
          (store.set clock order d key val 0).2.value d' key'
            = (store'.set clock' order d key val 0).2.value d' key')
        ↔
      ∀ key', key' ≠ key → (store.Evicts order d key' ↔ store'.Evicts order d key') := by
  constructor
  . intro hsame key' hne
    have hsame := hsame d key'
    by_cases hevicts : store.Evicts order d key'
    . by_cases hevicts' : store'.Evicts order d key'
      . simp [hevicts, hevicts']
      . rcases hevicts.entry with ⟨e, he⟩
        rw [value_eq, value_eq, entry_set_of_evicts hne hevicts,
          entry_set_of_not_evicts (by simp [hne]) (by simp [hevicts']), ← value_eq, ← h, value_eq, he]
          at hsame
        contradiction
    . by_cases hevicts' : store'.Evicts order d key'
      . rcases hevicts'.entry with ⟨e, he⟩
        rw [value_eq, value_eq, entry_set_of_evicts hne hevicts',
          entry_set_of_not_evicts (by simp [hne]) (by simp [hevicts]), ← value_eq, h, value_eq, he]
          at hsame
        contradiction
      . simp [hevicts, hevicts']
  . intro hevicts d' key'
    rw [value_eq, value_eq]
    by_cases hself : d' = d ∧ key' = key
    . rw [hself.1, hself.2, entry_set_self, entry_set_self]
      rfl
    . by_cases hgone : d' = d ∧ store.Evicts order d key'
      . have hne : key' ≠ key := fun heq => hself ⟨hgone.1, heq⟩
        rw [hgone.1, entry_set_of_evicts hne hgone.2,
          entry_set_of_evicts hne ((hevicts key' hne).mp hgone.2)]
      . have hgone' : ¬(d' = d ∧ store'.Evicts order d key') := by
          rintro ⟨hd, hgone'⟩
          exact hgone ⟨hd, (hevicts key' (fun heq => hself ⟨hd, heq⟩)).mpr hgone'⟩
        rw [entry_set_of_not_evicts hself hgone, entry_set_of_not_evicts hself hgone']
        exact h d' key'

end KvStore
end MemStream
