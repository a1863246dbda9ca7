import MemStream.Db.Lemmas.Kv.Bound

namespace MemStream
namespace KvStore

def Held (store : KvStore) (d key : String) (val : List UInt8) (expiry now : Int64) : Prop :=
  match store.entry d key with
  | some e => e.val = val ∧ e.ttl = expiry
  | none => expiry ≠ 0 ∧ expiry < now

variable {store : KvStore} {d key : String} {val : List UInt8} {expiry now : Int64}

theorem Held.of_entry_eq (h : store.Held d key val expiry now) {store' : KvStore}
    (hentry : store'.entry d key = store.entry d key)
    : store'.Held d key val expiry now := by
  unfold Held
  rw [hentry]
  exact h

theorem held_set (store : KvStore) (clock : KvClock) (order : Assoc.Order String) (d key : String)
    (val : List UInt8) (ttl now : Int64)
    : (store.set clock order d key val ttl).2.Held d key val (KvStore.expiry clock ttl) now := by
  unfold Held
  rw [entry_set_self]
  exact ⟨rfl, rfl⟩

theorem Held.set (h : store.Held d key val expiry now) {d' key' : String}
    (hsmall : (store.getDb d').entries.entries.length < 1024) (hne : ¬(d' = d ∧ key' = key))
    (clock : KvClock) (order : Assoc.Order String) (val' : List UInt8) (ttl : Int64)
    : (store.set clock order d' key' val' ttl).2.Held d key val expiry now := by
  apply h.of_entry_eq
  rw [entry_set hsmall, if_neg]
  rintro ⟨rfl, rfl⟩
  exact hne ⟨rfl, rfl⟩

theorem Held.del (h : store.Held d key val expiry now) {d' key' : String}
    (hne : ¬(d' = d ∧ key' = key))
    : (store.del d' key').2.Held d key val expiry now := by
  apply h.of_entry_eq
  rw [entry_del, if_neg]
  rintro ⟨rfl, rfl⟩
  exact hne ⟨rfl, rfl⟩

theorem Held.flush (h : store.Held d key val expiry now) {d' : String} (hne : d' ≠ d)
    : (store.flush d').2.Held d key val expiry now := by
  apply h.of_entry_eq
  rw [entry_flush, if_neg hne.symm]

theorem Held.get (h : store.Held d key val expiry now) {clock : KvClock}
    (hclock : clock.expiryNow ≤ now) (d' key' : String)
    : (store.get clock d' key').2.Held d key val expiry now := by
  by_cases hand : d = d' ∧ key = key'
  . unfold Held at h ⊢
    rw [entry_get, if_pos hand, ← hand.1, ← hand.2, found_eq]
    cases hentry : store.entry d key with
    | none =>
      rw [hentry] at h
      exact h
    | some e =>
      rw [hentry] at h
      rcases h with ⟨hval, httl⟩
      dsimp only
      by_cases hexpired : e.ttl ≠ 0 ∧ e.ttl < clock.expiryNow
      . rw [if_pos hexpired]
        rw [httl] at hexpired
        exact ⟨hexpired.1, Int64.lt_of_lt_of_le hexpired.2 hclock⟩
      . rw [if_neg hexpired]
        exact ⟨hval, httl⟩
  . apply h.of_entry_eq
    rw [entry_get, if_neg hand]

theorem Held.found_iff (h : store.Held d key val expiry now) {clock : KvClock}
    (hclock : clock.expiryNow = now)
    : (store.found clock d key).map DBEntry.val = some val ↔ expiry = 0 ∨ now ≤ expiry := by
  unfold Held at h
  rw [found_eq, hclock]
  cases hentry : store.entry d key with
  | none =>
    rw [hentry] at h
    simp [h.1, Int64.not_le.mpr h.2]
  | some e =>
    rw [hentry] at h
    rcases h with ⟨rfl, rfl⟩
    dsimp only
    split
    . next hexpired => simp [hexpired.1, Int64.not_le.mpr hexpired.2]
    . next hlives =>
      simp only [Option.map_some, true_iff]
      by_cases hzero : e.ttl = 0
      . exact .inl hzero
      . exact .inr (Int64.not_lt.mp fun hlt => hlives ⟨hzero, hlt⟩)

/-
An entry that no operation asks for. It stays as it is, unless a full database evicts it.
-/

def Op.Names (d key : String) : Op → Prop
  | .set _ _ db key' _ _ | .get _ db key' | .del db key' => db = d ∧ key' = key
  | .keys .. => False
  | .flush db => db = d

def Op.Evicts (store : KvStore) (d key : String) : Op → Prop
  | .set _ order db _ _ _ => db = d ∧ store.Evicts order d key
  | _ => False

def Spared (d key : String) : KvStore → List Op → Prop
  | _, [] => True
  | store, op :: ops => ¬op.Evicts store d key ∧ Spared d key (store.step op).2 ops

theorem entry_step_of_not_evicts {op : Op} (hnames : ¬op.Names d key)
    (hevicts : ¬op.Evicts store d key)
    : (store.step op).2.entry d key = store.entry d key := by
  cases op with
  | set clock order db key' val ttl =>
    apply entry_set_of_not_evicts
    . rintro ⟨rfl, rfl⟩
      exact hnames ⟨rfl, rfl⟩
    . rintro ⟨rfl, h⟩
      exact hevicts ⟨rfl, h⟩
  | get clock db key' =>
    apply (store.entry_get clock db key' d key).trans
    rw [if_neg]
    rintro ⟨rfl, rfl⟩
    exact hnames ⟨rfl, rfl⟩
  | del db key' =>
    apply (store.entry_del db key' d key).trans
    rw [if_neg]
    rintro ⟨rfl, rfl⟩
    exact hnames ⟨rfl, rfl⟩
  | keys order db => rfl
  | flush db =>
    apply (store.entry_flush db d key).trans
    rw [if_neg (fun heq => hnames heq.symm)]

theorem entry_step_of_evicts {op : Op} (hnames : ¬op.Names d key) (hevicts : op.Evicts store d key)
    : (store.step op).2.entry d key = none := by
  cases op with
  | set clock order db key' val ttl =>
    rcases hevicts with ⟨rfl, h⟩
    apply entry_set_of_evicts _ h
    rintro rfl
    exact hnames ⟨rfl, rfl⟩
  | _ => cases hevicts

theorem after_cons (store : KvStore) (op : Op) (ops : List Op)
    : store.after (op :: ops) = (store.step op).2.after ops := by
  rfl

theorem entry_after_of_none {ops : List Op} (hops : ∀ op ∈ ops, ¬op.Names d key)
    (hnone : store.entry d key = none)
    : (store.after ops).entry d key = none := by
  induction ops generalizing store with
  | nil => exact hnone
  | cons op ops ih =>
    rw [after_cons]
    apply ih (fun op' hop' => hops op' (by simp [hop']))
    by_cases hevicts : op.Evicts store d key
    . exact entry_step_of_evicts (hops op (by simp)) hevicts
    . rw [entry_step_of_not_evicts (hops op (by simp)) hevicts]
      exact hnone

theorem entry_after_of_spared {ops : List Op} (hops : ∀ op ∈ ops, ¬op.Names d key)
    (hspared : Spared d key store ops)
    : (store.after ops).entry d key = store.entry d key := by
  induction ops generalizing store with
  | nil => rfl
  | cons op ops ih =>
    rw [after_cons, ih (fun op' hop' => hops op' (by simp [hop'])) hspared.2]
    exact entry_step_of_not_evicts (hops op (by simp)) hspared.1

theorem entry_after_of_not_spared {ops : List Op} (hops : ∀ op ∈ ops, ¬op.Names d key)
    (hspared : ¬Spared d key store ops)
    : (store.after ops).entry d key = none := by
  induction ops generalizing store with
  | nil => exact absurd trivial hspared
  | cons op ops ih =>
    have hrest : ∀ op' ∈ ops, ¬op'.Names d key := fun op' hop' => hops op' (by simp [hop'])
    rw [after_cons]
    by_cases hevicts : op.Evicts store d key
    . apply entry_after_of_none hrest
      exact entry_step_of_evicts (hops op (by simp)) hevicts
    . apply ih hrest
      intro h
      exact hspared ⟨hevicts, h⟩

/-
What `keys` shows. It looks at no expiry, and an expired entry is there until a `get` asks for it.
-/

def Lists (store : KvStore) (order : Assoc.Order String) (d key : String) : Prop :=
  ∃ names, store.keys order d = .ok names ∧ key ∈ names

def Gets (store : KvStore) (clock : KvClock) (d key : String) : Prop :=
  ∃ e, (store.get clock d key).1 = .ok (some e)

def Expired (store : KvStore) (now : Int64) (d key : String) : Prop :=
  ∃ e, store.entry d key = some e ∧ e.ttl ≠ 0 ∧ e.ttl < now

theorem lists_iff (store : KvStore) (order : Assoc.Order String) (d key : String)
    : store.Lists order d key ↔ ∃ e, store.entry d key = some e := by
  unfold Lists KvStore.keys entry getDb
  cases store.dbs.lookup d with
  | none => simp [KvDb.new]
  | some db =>
    simp only [Outcome.ok.injEq, exists_eq_left', KvDb.keys, (order.perm _).mem_iff,
      Option.getD_some]
    rw [← AList.mem_keys, ← AList.lookup_isSome, Option.isSome_iff_exists]

theorem gets_iff (store : KvStore) (clock : KvClock) (d key : String)
    : store.Gets clock d key
        ↔
      (∃ e, store.entry d key = some e) ∧ ¬store.Expired clock.expiryNow d key := by
  have hget : store.Gets clock d key ↔ ∃ e, store.found clock d key = some e := by
    unfold Gets found KvStore.get
    simp only [Outcome.ok.injEq]
  rw [hget, found_eq]
  unfold Expired
  cases store.entry d key with
  | none => simp
  | some e => simp

theorem lists_iff_gets_iff (store : KvStore) (clock : KvClock) (order : Assoc.Order String)
    (d key : String)
    : (store.Lists order d key ↔ store.Gets clock d key) ↔ ¬store.Expired clock.expiryNow d key := by
  rw [lists_iff, gets_iff]
  constructor
  . intro h hexpired
    rcases hexpired with ⟨e, he, httl⟩
    exact (h.mp ⟨e, he⟩).2 ⟨e, he, httl⟩
  . intro h
    simp [h]

-- set at 0 for a millisecond, and asked for at 2
theorem keys_lists_expired
    : let store := (new.step (.set ⟨0, 0⟩ anyOrder "d" "k" [7] 1)).2
      store.Reachable
        ∧ store.keys anyOrder "d" = .ok ["k"]
        ∧ (store.get ⟨2, 2⟩ "d" "k").1 = .ok none
        ∧ ¬(store.Lists anyOrder "d" "k" ↔ store.Gets ⟨2, 2⟩ "d" "k") := by
  intro store
  have hkeys : store.keys anyOrder "d" = .ok ["k"] := by
    decide
  have hnone : (store.get ⟨2, 2⟩ "d" "k").1 = .ok none := by
    decide
  refine ⟨Reachable.new.step _, hkeys, hnone, ?_⟩
  intro h
  rcases h.mp ⟨["k"], hkeys, List.mem_singleton_self _⟩ with ⟨e, he⟩
  rw [hnone] at he
  cases he

end KvStore
end MemStream
