import MemStream.Db.Impl.Kv
import Mathlib.Data.List.Perm.Lattice

namespace MemStream
namespace KvStore

variable (store : KvStore)

def value (d key : String) : Option (List UInt8) :=
  ((store.getDb d).entries.lookup key).map DBEntry.val

def Small : Prop :=
  ∀ d, (store.getDb d).entries.entries.length < 1024

def Lasting : Prop :=
  ∀ d key entry, (store.getDb d).entries.lookup key = some entry → entry.ttl = 0

theorem getDb_putDb (d d' : String) (db : KvDb)
    : (store.putDb d db).getDb d' = if d' = d then db else store.getDb d' := by
  unfold getDb putDb
  rw [Assoc.lookup_insert]
  split
  . rfl
  . rfl

def entry (d key : String) : Option DBEntry :=
  (store.getDb d).entries.lookup key

theorem value_eq (d key : String) : store.value d key = (store.entry d key).map DBEntry.val := by
  rfl

theorem entry_putDb (d d' key : String) (db : KvDb)
    : (store.putDb d db).entry d' key
        =
      if d' = d then db.entries.lookup key else store.entry d' key := by
  unfold entry
  rw [getDb_putDb]
  split
  . rfl
  . rfl

theorem entry_putDb_set (d key : String) (db : KvDb) (e : DBEntry) (d' key' : String)
    : (store.putDb d (db.set key e)).entry d' key'
        =
      if d' = d then
        if key' = key then some e else db.entries.lookup key'
      else
        store.entry d' key' := by
  rw [entry_putDb, KvDb.set, Assoc.lookup_insert]

variable {store}

def expiry (clock : KvClock) (ttl : Int64) : Int64 :=
  if ttl = 0 then 0 else clock.expiryNow + ttl

theorem entry_set_self (store : KvStore) (clock : KvClock) (order : Assoc.Order String)
    (d key : String) (val : List UInt8) (ttl : Int64)
    : (store.set clock order d key val ttl).2.entry d key
        =
      some ⟨val, expiry clock ttl, 0, clock.useNow⟩ := by
  unfold set
  dsimp only
  rw [entry_putDb_set, if_pos rfl, if_pos rfl]
  rfl

theorem set_eq {d : String} (h : (store.getDb d).entries.entries.length < 1024) (clock : KvClock)
    (order : Assoc.Order String) (key : String) (val : List UInt8) (ttl : Int64)
    : (store.set clock order d key val ttl).2
        =
      store.putDb d ((store.getDb d).set key ⟨val, expiry clock ttl, 0, clock.useNow⟩) := by
  unfold set
  dsimp only
  rw [if_neg (by omega)]
  rfl

theorem entry_set {d : String} (h : (store.getDb d).entries.entries.length < 1024) (clock : KvClock)
    (order : Assoc.Order String) (key : String) (val : List UInt8) (ttl : Int64) (d' key' : String)
    : (store.set clock order d key val ttl).2.entry d' key'
        =
      if d' = d ∧ key' = key then some ⟨val, expiry clock ttl, 0, clock.useNow⟩
      else store.entry d' key' := by
  rw [set_eq h, entry_putDb_set, ite_and]
  split
  . next hd =>
    rw [hd]
    rfl
  . rfl

theorem value_set {d : String} (h : (store.getDb d).entries.entries.length < 1024) (clock : KvClock)
    (order : Assoc.Order String) (key : String) (val : List UInt8) (d' key' : String)
    : (store.set clock order d key val 0).2.value d' key'
        =
      if d' = d ∧ key' = key then some val else store.value d' key' := by
  rw [value_eq, entry_set h]
  split
  . rfl
  . rfl

theorem del_isOk (store : KvStore) (d key : String)
    : (store.del d key).1.isOk = (store.value d key).isSome := by
  unfold del KvDb.del value
  cases (store.getDb d).entries.lookup key with
  | none => rfl
  | some entry => rfl

theorem lookup_del (db : KvDb) (key key' : String)
    : (db.del key).2.entries.lookup key' = if key' = key then none else db.entries.lookup key' := by
  unfold KvDb.del
  cases hlookup : db.entries.lookup key with
  | none =>
    dsimp only
    split
    . next hkey => rw [hkey, hlookup]
    . rfl
  | some entry => exact Assoc.lookup_erase db.entries key key'

theorem entry_del (store : KvStore) (d key d' key' : String)
    : (store.del d key).2.entry d' key'
        =
      if d' = d ∧ key' = key then none else store.entry d' key' := by
  unfold del
  dsimp only
  rw [entry_putDb, lookup_del, ite_and]
  split
  . next hd =>
    rw [hd]
    rfl
  . rfl

theorem value_del (store : KvStore) (d key d' key' : String)
    : (store.del d key).2.value d' key'
        =
      if d' = d ∧ key' = key then none else store.value d' key' := by
  rw [value_eq, entry_del]
  split
  . rfl
  . rfl

theorem entry_flush (store : KvStore) (d d' key : String)
    : (store.flush d).2.entry d' key = if d' = d then none else store.entry d' key := by
  unfold flush
  dsimp only
  rw [entry_putDb]
  rfl

theorem value_flush (store : KvStore) (d d' key : String)
    : (store.flush d).2.value d' key = if d' = d then none else store.value d' key := by
  rw [value_eq, entry_flush]
  split
  . rfl
  . rfl

def found (store : KvStore) (clock : KvClock) (d key : String) : Option DBEntry :=
  ((store.getDb d).get clock key).1

theorem found_eq (store : KvStore) (clock : KvClock) (d key : String)
    : store.found clock d key
        =
      match store.entry d key with
      | none => none
      | some e =>
        if e.ttl ≠ 0 ∧ e.ttl < clock.expiryNow then none
        else some { e with usedCount := e.usedCount + 1, lastUsed := clock.useNow } := by
  unfold found entry KvDb.get
  cases (store.getDb d).entries.lookup key with
  | none => rfl
  | some e =>
    dsimp only
    split
    . rfl
    . rfl

theorem lookup_get (db : KvDb) (clock : KvClock) (key key' : String)
    : (db.get clock key).2.entries.lookup key'
        =
      if key' = key then (db.get clock key).1 else db.entries.lookup key' := by
  unfold KvDb.get
  cases hlookup : db.entries.lookup key with
  | none =>
    dsimp only
    split
    . next hkey => rw [hkey, hlookup]
    . rfl
  | some e =>
    dsimp only
    split
    . dsimp only
      rw [Assoc.lookup_erase]
    . dsimp only
      rw [Assoc.lookup_insert]

theorem entry_get (store : KvStore) (clock : KvClock) (d key d' key' : String)
    : (store.get clock d key).2.entry d' key'
        =
      if d' = d ∧ key' = key then store.found clock d key else store.entry d' key' := by
  unfold get
  dsimp only
  rw [entry_putDb, lookup_get]
  by_cases hd : d' = d
  . rw [if_pos hd, hd]
    by_cases hkey : key' = key
    . rw [if_pos hkey, if_pos ⟨rfl, hkey⟩]
      rfl
    . rw [if_neg hkey, if_neg (fun hand => hkey hand.2)]
      rfl
  . rw [if_neg hd, if_neg (fun hand => hd hand.1)]

theorem Lasting.entry (h : store.Lasting) {d key : String} {e : DBEntry}
    (he : store.entry d key = some e)
    : e.ttl = 0 := by
  exact h d key e he

theorem Lasting.found_eq (h : store.Lasting) (clock : KvClock) (d key : String)
    : store.found clock d key
        =
      (store.entry d key).map fun e =>
        { e with usedCount := e.usedCount + 1, lastUsed := clock.useNow } := by
  rw [KvStore.found_eq]
  cases hentry : store.entry d key with
  | none => rfl
  | some e =>
    dsimp only
    rw [if_neg (by simp [h.entry hentry])]
    rfl

theorem Lasting.value_get (h : store.Lasting) (clock : KvClock) (d key d' key' : String)
    : (store.get clock d key).2.value d' key' = store.value d' key' := by
  rw [value_eq, entry_get]
  split
  . next hand =>
    rw [h.found_eq clock d key, hand.1, hand.2, Option.map_map]
    rfl
  . rfl

theorem lasting_of_entry (h : ∀ {d key : String} {e : DBEntry}, store.entry d key = some e → e.ttl = 0)
    : store.Lasting := by
  intro d key e he
  exact h he

theorem Lasting.get (h : store.Lasting) (clock : KvClock) (d key : String)
    : (store.get clock d key).2.Lasting := by
  apply lasting_of_entry
  intro d' key' e he
  rw [entry_get, h.found_eq clock] at he
  split at he
  . rcases Option.map_eq_some_iff.mp he with ⟨e', he', rfl⟩
    have httl := h.entry he'
    exact httl
  . exact h.entry he

theorem Lasting.del (h : store.Lasting) (d key : String) : (store.del d key).2.Lasting := by
  apply lasting_of_entry
  intro d' key' e he
  rw [entry_del] at he
  split at he
  . simp at he
  . exact h.entry he

theorem Lasting.flush (h : store.Lasting) (d : String) : (store.flush d).2.Lasting := by
  apply lasting_of_entry
  intro d' key' e he
  rw [entry_flush] at he
  split at he
  . simp at he
  . exact h.entry he

theorem length_putDb_le {d : String} {db : KvDb}
    (h : db.entries.entries.length ≤ (store.getDb d).entries.entries.length + 1) (d' : String)
    : ((store.putDb d db).getDb d').entries.entries.length
        ≤
      (store.getDb d').entries.entries.length + 1 := by
  rw [getDb_putDb]
  split
  . next hd =>
    rw [hd]
    exact h
  . omega

theorem length_set_le {d : String} (h : (store.getDb d).entries.entries.length < 1024)
    (clock : KvClock) (order : Assoc.Order String) (key : String) (val : List UInt8) (ttl : Int64)
    (d' : String)
    : ((store.set clock order d key val ttl).2.getDb d').entries.entries.length
        ≤
      (store.getDb d').entries.entries.length + 1 := by
  rw [set_eq h]
  exact length_putDb_le (Assoc.length_insert_le _ key _) d'

theorem length_get_le (store : KvStore) (clock : KvClock) (d key d' : String)
    : ((store.get clock d key).2.getDb d').entries.entries.length
        ≤
      (store.getDb d').entries.entries.length + 1 := by
  apply length_putDb_le
  unfold KvDb.get
  split
  . exact Nat.le_succ _
  . split
    . exact Nat.le_succ_of_le (Assoc.length_erase_le _ key)
    . exact Assoc.length_insert_le _ key _

theorem length_del_le (store : KvStore) (d key d' : String)
    : ((store.del d key).2.getDb d').entries.entries.length
        ≤
      (store.getDb d').entries.entries.length + 1 := by
  apply length_putDb_le
  unfold KvDb.del
  split
  . exact Nat.le_succ _
  . exact Nat.le_succ_of_le (Assoc.length_erase_le _ key)

theorem length_flush_le (store : KvStore) (d d' : String)
    : ((store.flush d).2.getDb d').entries.entries.length
        ≤
      (store.getDb d').entries.entries.length + 1 := by
  apply length_putDb_le
  simp [KvDb.flush]

theorem mem_keys_iff_value (store : KvStore) (d key : String)
    : key ∈ (store.getDb d).entries.keys ↔ (store.value d key).isSome := by
  rw [← AList.mem_keys, ← AList.lookup_isSome, value, Option.isSome_map]

theorem keys_perm_of_value {store store' : KvStore} {d : String}
    (h : ∀ key, store.value d key = store'.value d key)
    : (store.getDb d).entries.keys.Perm (store'.getDb d).entries.keys := by
  rw [List.perm_ext_iff_of_nodup (AList.keys_nodup _) (AList.keys_nodup _)]
  intro key
  rw [mem_keys_iff_value, mem_keys_iff_value, h key]

theorem length_eq_of_value {store store' : KvStore} {d : String}
    (h : ∀ key, store.value d key = store'.value d key)
    : (store.getDb d).entries.entries.length = (store'.getDb d).entries.entries.length := by
  simpa [AList.keys, List.keys] using (keys_perm_of_value h).length_eq

end KvStore
end MemStream
