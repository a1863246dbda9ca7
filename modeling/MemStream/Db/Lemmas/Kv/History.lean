import Mathlib.Algebra.Group.Int.Defs
import MemStream.Lib.Machine
import MemStream.Db.Lemmas.Kv.Evict

namespace MemStream
namespace KvStore

inductive Op where
  | set (clock : KvClock) (order : Assoc.Order String) (db key : String) (val : List UInt8) (ttl : Int64)
  | get (clock : KvClock) (db key : String)
  | del (db key : String)
  | keys (order : Assoc.Order String) (db : String)
  | flush (db : String)

inductive Answer where
  | done (res : Outcome String Unit)
  | entry (res : Outcome String (Option DBEntry))
  | names (res : Outcome String (List String))

def step (store : KvStore) : Op → Answer × KvStore
  | .set clock order db key val ttl => (store.set clock order db key val ttl).map .done id
  | .get clock db key => (store.get clock db key).map .entry id
  | .del db key => (store.del db key).map .done id
  | .keys order db => (.names (store.keys order db), store)
  | .flush db => (store.flush db).map .done id

def after (store : KvStore) (ops : List Op) : KvStore :=
  (Machine.run step store ops).2

theorem after_append (store : KvStore) (ops ops' : List Op)
    : store.after (ops ++ ops') = (store.after ops).after ops' := by
  unfold after
  rw [Machine.run_append]

def Op.Clears (d key : String) : Op → Prop
  | .set _ _ db key' _ _ => db = d ∧ key' = key
  | .del db key' => db = d ∧ key' = key
  | .flush db => db = d
  | .get .. | .keys .. => False

/-- The `set` between `before` and `rest` is the latest one of the key, and the key was not deleted or
flushed since. -/
structure LastSet (ops : List Op) (d key : String) (before : List Op) (clock : KvClock)
    (order : Assoc.Order String) (val : List UInt8) (ttl : Int64) (rest : List Op) : Prop where
  split : ops = before ++ .set clock order d key val ttl :: rest
  kept : ∀ op ∈ rest, ¬op.Clears d key

-- the time of expiry as an integer, if it is one of an `i64`, has not passed
def Lives (clock : KvClock) (ttl now : Int64) : Prop :=
  ttl = 0
    ∨ (-2 ^ 63 ≤ clock.expiryNow.toInt + ttl.toInt ∧ clock.expiryNow.toInt + ttl.toInt < 2 ^ 63
      ∧ now.toInt ≤ clock.expiryNow.toInt + ttl.toInt)

def NeverFull (store : KvStore) (d : String) (ops : List Op) : Prop :=
  ∀ front clock order key val ttl back,
    ops = front ++ .set clock order d key val ttl :: back →
      ((store.after front).getDb d).entries.entries.length < 1024

theorem LastSet.concat {ops before rest : List Op} {d key : String} {clock : KvClock}
    {order : Assoc.Order String} {val : List UInt8} {ttl : Int64}
    (h : LastSet ops d key before clock order val ttl rest) {op : Op} (hop : ¬op.Clears d key)
    : LastSet (ops ++ [op]) d key before clock order val ttl (rest ++ [op]) := by
  rcases h with ⟨rfl, hkept⟩
  constructor
  . simp
  . intro op' hop'
    rcases List.mem_append.mp hop' with hmem | hmem
    . exact hkept op' hmem
    . rw [List.mem_singleton.mp hmem]
      exact hop

theorem found_eq_some {store : KvStore} {clock : KvClock} {d key : String} {e : DBEntry}
    (h : store.found clock d key = some e)
    : ∃ e', store.entry d key = some e' ∧ e'.val = e.val ∧ e'.ttl = e.ttl := by
  rw [found_eq] at h
  split at h
  . cases h
  . next e' he' =>
    split at h
    . cases h
    . cases h
      exact ⟨e', he', rfl, rfl⟩

theorem entry_step {store : KvStore} {op : Op} {d key : String} {e : DBEntry}
    (h : (store.step op).2.entry d key = some e)
    : (∃ clock order ttl, op = .set clock order d key e.val ttl)
        ∨ (¬op.Clears d key ∧ ∃ e', store.entry d key = some e' ∧ e'.val = e.val) := by
  cases op with
  | set clock order db key' val ttl =>
    change (store.set clock order db key' val ttl).2.entry d key = some e at h
    rcases entry_of_entry_set h with ⟨⟨rfl, rfl⟩, rfl⟩ | ⟨hne, hold⟩
    . exact .inl ⟨clock, order, ttl, rfl⟩
    . refine .inr ⟨?_, e, hold, rfl⟩
      rintro ⟨rfl, rfl⟩
      exact hne ⟨rfl, rfl⟩
  | get clock db key' =>
    right
    refine ⟨id, ?_⟩
    change (store.get clock db key').2.entry d key = some e at h
    rw [entry_get] at h
    split at h
    . next hand =>
      rcases found_eq_some h with ⟨e', he', hval, _⟩
      rw [hand.1, hand.2]
      exact ⟨e', he', hval⟩
    . exact ⟨e, h, rfl⟩
  | del db key' =>
    right
    change (store.del db key').2.entry d key = some e at h
    rw [entry_del] at h
    split at h
    . cases h
    . next hne =>
      refine ⟨?_, e, h, rfl⟩
      rintro ⟨rfl, rfl⟩
      exact hne ⟨rfl, rfl⟩
  | keys order db => exact .inr ⟨id, e, h, rfl⟩
  | flush db =>
    right
    change (store.flush db).2.entry d key = some e at h
    rw [entry_flush] at h
    split at h
    . cases h
    . next hne => exact ⟨fun heq => hne heq.symm, e, h, rfl⟩

def Explained (ops : List Op) (store : KvStore) : Prop :=
  ∀ d key e, store.entry d key = some e →
    ∃ before clock order ttl rest, LastSet ops d key before clock order e.val ttl rest

theorem Explained.step {ops : List Op} {store : KvStore} (h : Explained ops store) (op : Op)
    : Explained (ops ++ [op]) (store.step op).2 := by
  intro d key e he
  rcases entry_step he with ⟨clock, order, ttl, rfl⟩ | ⟨hop, e', he', hval⟩
  . exact ⟨ops, clock, order, ttl, [], rfl, by simp⟩
  . rcases h d key e' he' with ⟨before, clock, order, ttl, rest, hlast⟩
    rw [hval] at hlast
    exact ⟨before, clock, order, ttl, rest ++ [op], hlast.concat hop⟩

theorem explained_after (ops : List Op) : Explained ops (new.after ops) := by
  have hnew : Explained [] new := by
    intro d key e he
    cases he
  exact Machine.run_history (P := Explained) (fun ops store op h => h.step op) hnew ops

def Keeps (store : KvStore) (d key : String) (val : List UInt8) (expiry : Int64) : Prop :=
  ∃ e, store.entry d key = some e ∧ e.val = val ∧ e.ttl = expiry

theorem Keeps.found {store : KvStore} {d key : String} {val : List UInt8} {expiry : Int64}
    (h : store.Keeps d key val expiry) {clock : KvClock} (hclock : expiry = 0 ∨ clock.expiryNow ≤ expiry)
    : ∃ e, store.found clock d key = some e ∧ e.val = val ∧ e.ttl = expiry := by
  rcases h with ⟨e, he, rfl, rfl⟩
  refine ⟨{ e with usedCount := e.usedCount + 1, lastUsed := clock.useNow }, ?_, rfl, rfl⟩
  rw [found_eq, he]
  dsimp only
  rw [if_neg]
  rintro ⟨hne, hlt⟩
  cases hclock with
  | inl hzero => exact hne hzero
  | inr hle => exact Int64.not_lt.mpr hle hlt

theorem Keeps.step {store : KvStore} {d key : String} {val : List UInt8} {expiry : Int64}
    (h : store.Keeps d key val expiry) {op : Op} (hop : ¬op.Clears d key)
    (hget : ∀ clock, op = .get clock d key → expiry = 0 ∨ clock.expiryNow ≤ expiry)
    (hset : ∀ clock order key' val' ttl, op = .set clock order d key' val' ttl →
      (store.getDb d).entries.entries.length < 1024)
    : (store.step op).2.Keeps d key val expiry := by
  rcases h with ⟨e, he, hval, hexpiry⟩
  cases op with
  | set clock order db key' val' ttl =>
    refine ⟨e, ?_, hval, hexpiry⟩
    show (store.set clock order db key' val' ttl).2.entry d key = some e
    rw [entry_set_of_not_evicts, he]
    . rintro ⟨rfl, rfl⟩
      exact hop ⟨rfl, rfl⟩
    . rintro ⟨rfl, hevicts⟩
      have hsmall := hset clock order key' val' ttl rfl
      exact absurd hevicts.1 (by omega)
  | get clock db key' =>
    show ∃ e, (store.get clock db key').2.entry d key = some e ∧ _
    rw [entry_get]
    split
    . next hand =>
      rcases hand with ⟨rfl, rfl⟩
      exact Keeps.found ⟨e, he, hval, hexpiry⟩ (hget clock rfl)
    . exact ⟨e, he, hval, hexpiry⟩
  | del db key' =>
    refine ⟨e, ?_, hval, hexpiry⟩
    show (store.del db key').2.entry d key = some e
    rw [entry_del, if_neg, he]
    rintro ⟨rfl, rfl⟩
    exact hop ⟨rfl, rfl⟩
  | keys order db => exact ⟨e, he, hval, hexpiry⟩
  | flush db =>
    refine ⟨e, ?_, hval, hexpiry⟩
    show (store.flush db).2.entry d key = some e
    rw [entry_flush, if_neg, he]
    intro heq
    exact hop heq.symm

theorem Keeps.after {store : KvStore} {d key : String} {val : List UInt8} {expiry : Int64}
    (h : store.Keeps d key val expiry) {ops : List Op} (hops : ∀ op ∈ ops, ¬op.Clears d key)
    (hget : ∀ clock, .get clock d key ∈ ops → expiry = 0 ∨ clock.expiryNow ≤ expiry)
    (hfull : store.NeverFull d ops)
    : (store.after ops).Keeps d key val expiry := by
  induction ops generalizing store with
  | nil => exact h
  | cons op ops ih =>
    have hstep : (store.step op).2.Keeps d key val expiry := by
      apply h.step
      . apply hops
        simp
      . rintro clock rfl
        apply hget clock
        simp
      . rintro clock order key' val' ttl rfl
        exact hfull [] clock order key' val' ttl ops rfl
    apply ih hstep
    . intro op' hmem
      apply hops
      simp [hmem]
    . intro clock hmem
      apply hget clock
      simp [hmem]
    . intro front clock order key' val' ttl back hsplit
      apply hfull (op :: front) clock order key' val' ttl back
      rw [hsplit]
      rfl

theorem Lives.expiry {clock : KvClock} {ttl now : Int64} (h : Lives clock ttl now)
    : expiry clock ttl = 0 ∨ now ≤ expiry clock ttl := by
  unfold KvStore.expiry
  rcases h with hzero | ⟨hlow, hhigh, hnow⟩
  . rw [if_pos hzero]
    exact .inl rfl
  . split
    . exact .inl rfl
    . right
      rw [Int64.le_iff_toInt_le, Int64.toInt_add, Int.bmod_eq_of_le (by omega) (by omega)]
      exact hnow

theorem get_latest (ops : List Op) (clock : KvClock) (d key : String)
    : ∃ res, ((new.after ops).step (.get clock d key)).1 = .entry (.ok res)
        ∧ (∀ e, res = some e →
            ∃ before setClock order ttl rest, LastSet ops d key before setClock order e.val ttl rest)
        ∧ (∀ before setClock order val ttl rest, LastSet ops d key before setClock order val ttl rest →
            Lives setClock ttl clock.expiryNow →
            (∀ clock', .get clock' d key ∈ rest → Lives setClock ttl clock'.expiryNow) →
            (new.after (before ++ [.set setClock order d key val ttl])).NeverFull d rest →
            res.map DBEntry.val = some val) := by
  refine ⟨(new.after ops).found clock d key, rfl, ?_, ?_⟩
  . intro e he
    rcases found_eq_some he with ⟨e', he', hval, _⟩
    rw [← hval]
    exact explained_after ops d key e' he'
  . intro before setClock order val ttl rest hlast hlives hgets hfull
    have hops : ops = (before ++ [.set setClock order d key val ttl]) ++ rest := by
      rw [hlast.split]
      simp
    have hset : (new.after (before ++ [.set setClock order d key val ttl])).Keeps d key val
        (expiry setClock ttl) := by
      unfold KvStore.after
      rw [Machine.run_concat]
      exact ⟨_, entry_set_self _ setClock order d key val ttl, rfl, rfl⟩
    have hkeeps := hset.after hlast.kept (fun clock' hmem => (hgets clock' hmem).expiry) hfull
    rw [← after_append, ← hops] at hkeeps
    rcases hkeeps.found hlives.expiry with ⟨e, he, hval, _⟩
    rw [he, Option.map_some, hval]

theorem get_latest_kept
    : let order : Assoc.Order String := ⟨id, List.Perm.refl⟩
      let ops : List Op := [.set ⟨0, 0⟩ order "d" "k" [1] 10, .get ⟨5, 5⟩ "d" "k"]
      ∃ res, ((new.after ops).step (.get ⟨8, 8⟩ "d" "k")).1 = .entry (.ok res)
        ∧ res.map DBEntry.val = some [1] := by
  intro order ops
  rcases get_latest ops ⟨8, 8⟩ "d" "k" with ⟨res, hres, _, hlatest⟩
  refine ⟨res, hres, ?_⟩
  apply hlatest [] ⟨0, 0⟩ order [1] 10 [.get ⟨5, 5⟩ "d" "k"]
  . refine ⟨rfl, ?_⟩
    intro op hop
    rw [List.mem_singleton.mp hop]
    exact id
  . exact .inr (by decide)
  . intro clock' hmem
    cases List.mem_singleton.mp hmem
    exact .inr (by decide)
  . intro front clock' order' key val ttl back hsplit
    cases front with
    | nil => simp at hsplit
    | cons op front => simp at hsplit

-- The clock has been set back: a `get` at 20 has removed the entry that would still live at 5.
theorem get_after_clock_back
    : let order : Assoc.Order String := ⟨id, List.Perm.refl⟩
      let rest : List Op := [.get ⟨20, 20⟩ "d" "k"]
      let ops : List Op := .set ⟨0, 0⟩ order "d" "k" [1] 10 :: rest
      LastSet ops "d" "k" [] ⟨0, 0⟩ order [1] 10 rest
        ∧ Lives ⟨0, 0⟩ 10 5
        ∧ (new.after [.set ⟨0, 0⟩ order "d" "k" [1] 10]).NeverFull "d" rest
        ∧ ((new.after ops).step (.get ⟨5, 5⟩ "d" "k")).1 = .entry (.ok none) := by
  intro order rest ops
  refine ⟨⟨rfl, ?_⟩, ?_, ?_, rfl⟩
  . intro op hop
    rw [List.mem_singleton.mp hop]
    exact id
  . exact .inr (by decide)
  . intro front clock order' key val ttl back hsplit
    cases front with
    | nil => simp [rest] at hsplit
    | cons op front => simp [rest] at hsplit

end KvStore
end MemStream
