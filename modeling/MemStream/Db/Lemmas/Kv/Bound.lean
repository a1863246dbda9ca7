import Mathlib.Data.List.Induction
import MemStream.Db.Lemmas.Kv.History

namespace MemStream

namespace KvDb

def sample (db : KvDb) (order : Assoc.Order String) : List String :=
  (order.arrange db.entries.keys).take db.sampleSize

def sorted (db : KvDb) (order : Assoc.Order String) : List (String × UInt64 × Int64) :=
  ((db.sample order).map fun key => (key, db.useOf key)).mergeSort lessUsed

def removeCount (db : KvDb) : Nat :=
  max (db.sampleSize / 4) 1

variable {db : KvDb} {order : Assoc.Order String}

theorem leastUsed_eq_take (db : KvDb) (order : Assoc.Order String)
    : db.leastUsed order = ((db.sorted order).map Prod.fst).take db.removeCount := by
  rw [leastUsed_eq_firstBy, ← List.map_take]
  rfl

theorem sorted_perm (db : KvDb) (order : Assoc.Order String)
    : ((db.sorted order).map Prod.fst).Perm (db.sample order) := by
  have hperm := (List.mergeSort_perm ((db.sample order).map fun key => (key, db.useOf key)) lessUsed).map
    Prod.fst
  rw [List.map_map] at hperm
  apply hperm.trans
  apply List.Perm.of_eq
  apply List.map_id

theorem mem_sorted {c : String × UInt64 × Int64} (h : c ∈ db.sorted order) : c.2 = db.useOf c.1 := by
  rcases List.mem_map.mp (List.mem_mergeSort.mp h) with ⟨key, _, rfl⟩
  rfl

theorem nodup_leastUsed (db : KvDb) (order : Assoc.Order String) : (db.leastUsed order).Nodup := by
  rw [leastUsed_eq_take]
  apply (List.take_sublist _ _).nodup
  rw [(db.sorted_perm order).nodup_iff]
  exact db.nodup_sample order

theorem length_leastUsed (order : Assoc.Order String) (h : 0 < db.entries.entries.length)
    : (db.leastUsed order).length = db.removeCount := by
  have hsample := db.length_sample order
  rw [leastUsed_eq_take, List.length_take, (db.sorted_perm order).length_eq]
  unfold sample
  rw [hsample]
  apply Nat.min_eq_left
  unfold removeCount sampleSize
  omega

theorem mem_sample_of_mem_leastUsed {key : String} (h : key ∈ db.leastUsed order)
    : key ∈ db.sample order := by
  rw [leastUsed_eq_take] at h
  exact (db.sorted_perm order).mem_iff.mp (List.mem_of_mem_take h)

theorem lessUsed_of_mem_leastUsed {key key' : String} (hkey : key ∈ db.leastUsed order)
    (hkey' : key' ∈ db.sample order) (hleft : key' ∉ db.leastUsed order)
    : lessUsed (key, db.useOf key) (key', db.useOf key') := by
  have hsorted := List.pairwise_mergeSort lessUsed_trans lessUsed_total
    ((db.sample order).map fun key => (key, db.useOf key))
  have hsplit := List.take_append_drop db.removeCount (db.sorted order)
  rw [← (db.sorted_perm order).mem_iff, ← hsplit, List.map_append, List.mem_append] at hkey'
  rw [leastUsed_eq_take, ← List.map_take] at hkey hleft
  rcases List.mem_map.mp hkey with ⟨c, hc, rfl⟩
  rcases List.mem_map.mp (hkey'.resolve_left hleft) with ⟨c', hc', rfl⟩
  rw [← mem_sorted (List.mem_of_mem_take hc), ← mem_sorted (List.mem_of_mem_drop hc')]
  unfold sorted at hsplit
  rw [← hsplit] at hsorted
  exact (List.pairwise_append.mp hsorted).2.2 c hc c' hc'

theorem length_expireLeastUsed (order : Assoc.Order String) (h : 0 < db.entries.entries.length)
    : (db.expireLeastUsed order).entries.entries.length + db.removeCount
        =
      db.entries.entries.length := by
  have hsample : db.sampleSize ≠ 0 := by
    unfold sampleSize
    omega
  have hentries : (db.expireLeastUsed order).entries
      = (db.leastUsed order).foldl (fun entries key => entries.erase key) db.entries := by
    unfold expireLeastUsed
    rw [if_neg hsample, leastUsed, List.foldl_map]
  rw [hentries, ← length_leastUsed order h]
  apply Assoc.length_foldl_erase (db.nodup_leastUsed order)
  intro key hmem
  exact lookup_of_mem_leastUsed hmem

end KvDb

namespace KvStore

variable {store : KvStore}

inductive Reachable : KvStore → Prop where
  | new : Reachable KvStore.new
  | step {store : KvStore} (h : Reachable store) (op : Op) : Reachable (store.step op).2
  | createDb {store : KvStore} (h : Reachable store) (id : String) : Reachable (store.createDb id).2

def Bounded (store : KvStore) : Prop :=
  ∀ d, (store.getDb d).entries.entries.length ≤ 1024

theorem Bounded.putDb (h : store.Bounded) (d : String) {db : KvDb}
    (hdb : db.entries.entries.length ≤ 1024)
    : (store.putDb d db).Bounded := by
  intro d'
  rw [getDb_putDb]
  split
  . assumption
  . exact h d'

theorem Bounded.set (h : store.Bounded) (clock : KvClock) (order : Assoc.Order String)
    (d key : String) (val : List UInt8) (ttl : Int64)
    : (store.set clock order d key val ttl).2.Bounded := by
  have hlength := h d
  unfold KvStore.set
  dsimp only
  apply h.putDb
  split
  . next hfull =>
    have hpos : 0 < (store.getDb d).entries.entries.length := by omega
    have hexpire := KvDb.length_expireLeastUsed order hpos
    unfold KvDb.removeCount at hexpire
    apply Nat.le_trans (Assoc.length_insert_le _ key _)
    omega
  . apply Nat.le_trans (Assoc.length_insert_le _ key _)
    omega

theorem Bounded.get (h : store.Bounded) (clock : KvClock) (d key : String)
    : (store.get clock d key).2.Bounded := by
  apply h.putDb
  apply Nat.le_trans _ (h d)
  unfold KvDb.get
  split
  . exact Nat.le_refl _
  . next hlookup =>
    split
    . apply Assoc.length_erase_le
    . exact Nat.le_of_eq (Assoc.length_insert_of_some hlookup _)

theorem Bounded.del (h : store.Bounded) (d key : String) : (store.del d key).2.Bounded := by
  apply h.putDb
  apply Nat.le_trans _ (h d)
  unfold KvDb.del
  split
  . exact Nat.le_refl _
  . apply Assoc.length_erase_le

theorem Bounded.createDb (h : store.Bounded) (id : String) : (store.createDb id).2.Bounded := by
  unfold KvStore.createDb
  split
  . assumption
  . apply h.putDb
    simp [KvDb.new]

theorem Bounded.step (h : store.Bounded) (op : Op) : (store.step op).2.Bounded := by
  cases op with
  | set clock order d key val ttl => exact h.set clock order d key val ttl
  | get clock d key => exact h.get clock d key
  | del d key => exact h.del d key
  | keys order d => exact h
  | flush d =>
    apply h.putDb
    simp [KvDb.flush]

theorem Reachable.bounded (h : store.Reachable) : store.Bounded := by
  induction h with
  | new =>
    intro d
    simp [KvStore.new, getDb, KvDb.new]
  | step _ op ih => exact ih.step op
  | createDb _ id ih => exact ih.createDb id

def UsedLess (e e' : DBEntry) : Prop :=
  e.usedCount < e'.usedCount ∨ (e.usedCount = e'.usedCount ∧ e.lastUsed < e'.lastUsed)

/-- What a `set` removes from a database that has become too large. -/
structure Removes (db : KvDb) (order : Assoc.Order String) (removed : List String) : Prop where
  nodup : removed.Nodup
  count : removed.length
    = max 1 (min db.entries.entries.length (max 16 (db.entries.entries.length / 5)) / 4)
  sampled : ∀ key ∈ removed,
    key ∈ (order.arrange db.entries.keys).take
      (min db.entries.entries.length (max 16 (db.entries.entries.length / 5)))
  least : ∀ key ∈ removed, ∀ key' ∈ (order.arrange db.entries.keys).take
      (min db.entries.entries.length (max 16 (db.entries.entries.length / 5))),
    key' ∉ removed → ∀ e e', db.entries.lookup key = some e → db.entries.lookup key' = some e' →
      ¬UsedLess e' e

theorem sampleSize_eq (db : KvDb)
    : db.sampleSize
        =
      min db.entries.entries.length (max 16 (db.entries.entries.length / 5)) := by
  unfold KvDb.sampleSize
  omega

theorem removes_leastUsed {db : KvDb} (order : Assoc.Order String)
    (h : 0 < db.entries.entries.length)
    : Removes db order (db.leastUsed order) := by
  constructor
  case nodup => exact db.nodup_leastUsed order
  case count =>
    rw [KvDb.length_leastUsed order h, KvDb.removeCount, sampleSize_eq, Nat.max_comm]
  case sampled =>
    intro key hkey
    rw [← sampleSize_eq]
    exact KvDb.mem_sample_of_mem_leastUsed hkey
  case least =>
    intro key hkey key' hkey' hleft e e' he he' hless
    rw [← sampleSize_eq] at hkey'
    have hle := KvDb.lessUsed_of_mem_leastUsed hkey hkey' hleft
    rw [KvDb.lessUsed_iff] at hle
    simp only [KvDb.useOf, he, he'] at hle
    unfold UsedLess at hless
    rw [UInt64.lt_iff_toNat_lt, ← UInt64.toNat_inj, Int64.lt_iff_toInt_lt] at hless
    omega

theorem bounded_and_set_removes (h : store.Reachable)
    : store.Bounded
        ∧ ∀ clock order d key val ttl,
            1024 ≤ (store.getDb d).entries.entries.length →
              ∃ removed,
                Removes (store.getDb d) order removed
                  ∧ ∀ d' key', (store.set clock order d key val ttl).2.entry d' key'
                      = if d' = d ∧ key' = key then some ⟨val, expiry clock ttl, 0, clock.useNow⟩
                        else if d' = d ∧ key' ∈ removed then none
                        else store.entry d' key' := by
  refine ⟨h.bounded, ?_⟩
  intro clock order d key val ttl hfull
  refine ⟨(store.getDb d).leastUsed order, removes_leastUsed order (by omega), ?_⟩
  intro d' key'
  split
  . next hself => rw [hself.1, hself.2, entry_set_self]
  . next hother =>
    split
    . next hgone =>
      rw [hgone.1, entry_set_of_evicts _ ⟨hfull, hgone.2⟩]
      exact fun heq => hother ⟨hgone.1, heq⟩
    . next hkept =>
      rw [entry_set_of_not_evicts hother]
      exact fun hevicts => hkept ⟨hevicts.1, hevicts.2.2⟩

def setKeys (order : Assoc.Order String) (keys : List String) : KvStore :=
  keys.foldl (fun store key => (store.set ⟨0, 0⟩ order "d" key [] 0).2) new

theorem setKeys_concat (order : Assoc.Order String) (keys : List String) (key : String)
    : setKeys order (keys ++ [key]) = ((setKeys order keys).set ⟨0, 0⟩ order "d" key [] 0).2 := by
  unfold setKeys
  rw [List.foldl_append]
  rfl

theorem reachable_setKeys (order : Assoc.Order String) (keys : List String)
    : (setKeys order keys).Reachable := by
  induction keys using List.reverseRecOn with
  | nil => exact .new
  | append_singleton keys key ih =>
    rw [setKeys_concat]
    exact ih.step (.set ⟨0, 0⟩ order "d" key [] 0)

theorem setKeys_spec (order : Assoc.Order String) {keys : List String} (hnodup : keys.Nodup)
    (hle : keys.length ≤ 1024)
    : ((setKeys order keys).getDb "d").entries.entries.length = keys.length
        ∧ ∀ key, (setKeys order keys).value "d" key = if key ∈ keys then some [] else none := by
  induction keys using List.reverseRecOn with
  | nil => exact ⟨rfl, fun _ => rfl⟩
  | append_singleton keys key ih =>
    rw [List.length_append, List.length_singleton] at hle ⊢
    rw [List.nodup_append_comm, List.singleton_append, List.nodup_cons] at hnodup
    have ⟨hlength, hvalue⟩ := ih hnodup.2 (by omega)
    have hsmall : ((setKeys order keys).getDb "d").entries.entries.length < 1024 := by omega
    have hnew : ((setKeys order keys).getDb "d").entries.lookup key = none := by
      have := hvalue key
      rw [if_neg hnodup.1, value, Option.map_eq_none_iff] at this
      assumption
    rw [setKeys_concat]
    constructor
    . rw [set_eq hsmall, getDb_putDb, if_pos rfl, KvDb.set, Assoc.length_insert hnew, hlength]
    . intro key'
      rw [value_set hsmall, hvalue]
      by_cases hkey : key' = key
      . rw [if_pos ⟨rfl, hkey⟩, if_pos (by simp [hkey])]
      . rw [if_neg (fun hand => hkey hand.2)]
        simp only [List.mem_append, List.mem_singleton, hkey, or_false]

def anyOrder : Assoc.Order String where
  arrange := id
  perm := fun keys => .refl keys

def manyKeys : List String :=
  (List.range 1024).map fun i => String.ofList (List.replicate i 'k')

theorem length_manyKeys : manyKeys.length = 1024 := by
  unfold manyKeys
  rw [List.length_map, List.length_range]

theorem nodup_manyKeys : manyKeys.Nodup := by
  unfold manyKeys
  apply List.Nodup.map
  . intro i j heq
    simpa using congrArg (fun s => s.toList.length) heq
  . exact List.nodup_range

theorem set_removes_of_full
    : (setKeys anyOrder manyKeys).Bounded
        ∧ ∃ removed,
            Removes ((setKeys anyOrder manyKeys).getDb "d") anyOrder removed
              ∧ removed.length = 51
              ∧ ((setKeys anyOrder manyKeys).set ⟨0, 0⟩ anyOrder "d" "new" [7] 0).2.entry "d" "new"
                = some ⟨[7], 0, 0, 0⟩ := by
  have ⟨hbounded, hset⟩ := bounded_and_set_removes (reachable_setKeys anyOrder manyKeys)
  have hlength : ((setKeys anyOrder manyKeys).getDb "d").entries.entries.length = 1024 := by
    rw [(setKeys_spec anyOrder nodup_manyKeys (Nat.le_of_eq length_manyKeys)).1, length_manyKeys]
  rcases hset ⟨0, 0⟩ anyOrder "d" "new" [7] 0 (by omega) with ⟨removed, hremoves, hentry⟩
  refine ⟨hbounded, removed, hremoves, ?_, ?_⟩
  . rw [hremoves.count, hlength]
    rfl
  . rw [hentry "d" "new", if_pos ⟨rfl, rfl⟩]
    rfl

/-
A `set` of a key that is there already. The size of the database is looked at before the key is.
-/

def TouchesOnly (store : KvStore) (clock : KvClock) (order : Assoc.Order String) (d key : String)
    (val : List UInt8) (ttl : Int64)
    : Prop :=
  ∀ d' key',
    ¬(d' = d ∧ key' = key)
      → (store.set clock order d key val ttl).2.entry d' key' = store.entry d' key'

theorem exists_evicts {d : String} (hfull : 1024 ≤ (store.getDb d).entries.entries.length)
    (order : Assoc.Order String) (key : String)
    : ∃ key', key' ≠ key ∧ store.Evicts order d key' := by
  have hpos : 0 < (store.getDb d).entries.entries.length := by omega
  have hlength := KvDb.length_leastUsed order hpos
  have hnodup := (store.getDb d).nodup_leastUsed order
  unfold KvDb.removeCount KvDb.sampleSize at hlength
  -- at least 51 keys are removed, and one of two different keys is another one
  apply Classical.byContradiction
  intro hnone
  have hself (key' : String) (hmem : key' ∈ (store.getDb d).leastUsed order) : key' = key := by
    apply Decidable.of_not_not
    intro hne
    exact hnone ⟨key', hne, hfull, hmem⟩
  have hle : ((store.getDb d).leastUsed order).length ≤ [key].length := by
    apply List.Subperm.length_le
    apply List.subperm_of_subset hnodup
    intro key' hmem
    rw [hself key' hmem]
    exact List.mem_singleton_self key
  rw [List.length_singleton] at hle
  omega

theorem touchesOnly_iff (store : KvStore) (clock : KvClock) (order : Assoc.Order String)
    (d key : String) (val : List UInt8) (ttl : Int64)
    : store.TouchesOnly clock order d key val ttl ↔ (store.getDb d).entries.entries.length < 1024 := by
  constructor
  . intro h
    apply Nat.lt_of_not_le
    intro hfull
    rcases exists_evicts hfull order key with ⟨key', hne, hevicts⟩
    rcases hevicts.entry with ⟨e, he⟩
    have hkept := h d key' (fun hand => hne hand.2)
    rw [entry_set_of_evicts hne hevicts, he] at hkept
    cases hkept
  . intro hsmall d' key' hother
    rw [entry_set hsmall, if_neg hother]

-- the first of 1024 keys is set again, and another one is gone
theorem set_present_evicts
    : (setKeys anyOrder manyKeys).Reachable
        ∧ (setKeys anyOrder manyKeys).value "d" "" = some []
        ∧ ∃ key',
            key' ≠ ""
              ∧ (∃ e, (setKeys anyOrder manyKeys).entry "d" key' = some e)
              ∧ ((setKeys anyOrder manyKeys).set ⟨0, 0⟩ anyOrder "d" "" [7] 0).2.entry "d" key'
                = none := by
  have ⟨hlength, hvalue⟩ := setKeys_spec anyOrder nodup_manyKeys (Nat.le_of_eq length_manyKeys)
  have hmem : "" ∈ manyKeys := by
    unfold manyKeys
    rw [List.mem_map]
    exact ⟨0, by simp, rfl⟩
  have hfull : 1024 ≤ ((setKeys anyOrder manyKeys).getDb "d").entries.entries.length := by
    rw [hlength, length_manyKeys]
  rcases exists_evicts hfull anyOrder "" with ⟨key', hne, hevicts⟩
  refine ⟨reachable_setKeys anyOrder manyKeys, ?_, key', hne, hevicts.entry, ?_⟩
  . rw [hvalue, if_pos hmem]
  . exact entry_set_of_evicts hne hevicts ⟨0, 0⟩ [7] 0

end KvStore
end MemStream
