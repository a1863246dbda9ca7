import Mathlib.Data.List.Sort
import Mathlib.Data.UInt
import MemStream.Db.Lemmas.Groups.Basic

namespace MemStream
namespace Group

variable {buildKey : String → UInt64 → UInt64} {name : String} {grp : Group}

theorem Inv.get_eq (h : Inv buildKey name grp) (now : Nat) (id : UInt64)
    : ∃ res lru,
        grp.lruCache.get now (buildKey grp.name id) = some (res, lru)
          ∧ Inv buildKey name { grp with lruCache := lru }
          ∧ (Function.Injective (buildKey name)
              → ∀ entry, res = some entry
                → entry.id = id
                    ∧ grp.log.entryAt id = some (entry.timestamp, entry.payload)) := by
  rcases h.cache with ⟨recency, hrep, hcached⟩
  rcases hrep.get_refines now (buildKey grp.name id) with ⟨lru, hget, hrep'⟩
  refine ⟨_, lru, hget, ⟨h.name_eq, h.log, _, hrep', ?_⟩, ?_⟩
  . intro slot hslot
    exact hcached slot (Recency.mem_of_mem_get hslot)
  . intro hinj entry hentry
    rcases Recency.get_eq_some hentry with ⟨slot, hslot, hkey, hvalue⟩
    rcases hcached slot hslot with ⟨id', timestamp, payload, hkey', hvalue', hlive⟩
    have hid : id' = id := by
      apply hinj
      rw [← hkey', hkey, h.name_eq]
    rw [← hvalue, hvalue', ← hid]
    exact ⟨rfl, hlive⟩

theorem Inv.read_frame (h : Inv buildKey name grp) (now : Nat) (id : UInt64)
    : Inv buildKey name (grp.read buildKey now id).2
        ∧ (grp.read buildKey now id).2.log = grp.log := by
  rcases h.get_eq now id with ⟨res, lru, hget, hinv, _⟩
  unfold read
  rw [hget]
  cases res with
  | none => exact ⟨hinv, rfl⟩
  | some entry => exact ⟨hinv, rfl⟩

theorem Inv.read_eq (h : Inv buildKey name grp) (hinj : Function.Injective (buildKey name))
    (now : Nat) (id : UInt64)
    : (grp.read buildKey now id).1 = (grp.log.read id).mapErr .logError := by
  rcases h.get_eq now id with ⟨res, lru, hget, _, hentry⟩
  unfold read
  rw [hget]
  cases res with
  | none => rfl
  | some entry =>
    have ⟨hid, hlive⟩ := hentry hinj entry rfl
    rw [h.log.read_eq, hlive]
    dsimp only
    rw [hid]
    rfl

structure Lists (log : SegLog) (lo n : Nat) (entries : List (UInt64 × UInt64 × List UInt8))
    : Prop where
  sorted : entries.Pairwise fun e e' => e.1 < e'.1
  mem_iff : ∀ id timestamp payload,
    (id, timestamp, payload) ∈ entries
      ↔ log.entryAt id = some (timestamp, payload) ∧ lo ≤ id.toNat ∧ id.toNat < lo + n

theorem Lists.unique {log : SegLog} {lo n : Nat} {entries entries' : List (UInt64 × UInt64 × List UInt8)}
    (h : Lists log lo n entries) (h' : Lists log lo n entries')
    : entries = entries' := by
  have hirrefl : Std.Irrefl fun (e e' : UInt64 × UInt64 × List UInt8) => e.1 < e'.1 :=
    ⟨fun e => UInt64.lt_irrefl e.1⟩
  have hasymm : Std.Antisymm fun (e e' : UInt64 × UInt64 × List UInt8) => e.1 < e'.1 :=
    ⟨fun e e' hlt hlt' => absurd hlt' (UInt64.lt_asymm hlt)⟩
  apply h.sorted.eq_of_mem_iff h'.sorted
  rintro ⟨id, timestamp, payload⟩
  rw [h.mem_iff, h'.mem_iff]

theorem lists_nil (log : SegLog) (lo : Nat) : Lists log lo 0 [] where
  sorted := List.Pairwise.nil
  mem_iff := by
    intro id timestamp payload
    simp only [List.not_mem_nil, false_iff]
    omega

theorem Lists.cons {log : SegLog} {lo n : Nat} {entries : List (UInt64 × UInt64 × List UInt8)}
    (h : Lists log (lo + 1) n entries) {id timestamp : UInt64} {payload : List UInt8}
    (hid : id.toNat = lo) (hlive : log.entryAt id = some (timestamp, payload))
    : Lists log lo (n + 1) ((id, timestamp, payload) :: entries) where
  sorted := by
    rw [List.pairwise_cons]
    refine ⟨?_, h.sorted⟩
    rintro ⟨id', timestamp', payload'⟩ hmem
    have := ((h.mem_iff _ _ _).mp hmem).2
    rw [UInt64.lt_iff_toNat_lt]
    dsimp only
    omega
  mem_iff := by
    intro id' timestamp' payload'
    rw [List.mem_cons, h.mem_iff, Prod.mk.injEq, Prod.mk.injEq]
    constructor
    . rintro (⟨rfl, rfl, rfl⟩ | ⟨hlive', hrange⟩)
      . exact ⟨hlive, by omega⟩
      . exact ⟨hlive', by omega⟩
    . rintro ⟨hlive', hrange⟩
      by_cases heq : id' = id
      . left
        rw [heq, hlive, Option.some.injEq, Prod.mk.injEq] at hlive'
        exact ⟨heq, hlive'.1.symm, hlive'.2.symm⟩
      . right
        have : id'.toNat ≠ id.toNat := fun h => heq (UInt64.toNat_inj.mp h)
        exact ⟨hlive', by omega⟩

theorem lists_readRange {log : SegLog} (hinv : log.Inv) {start stop : UInt64} (h : start ≤ stop)
    : ∃ entries,
        log.readRange start stop = .ok entries
          ∧ Lists log start.toNat (stop.toNat + 1 - start.toNat) entries := by
  rcases hinv.readRange_spec h with ⟨entries, hread, hsorted, hmem⟩
  refine ⟨entries, hread, hsorted, fun id timestamp payload => ?_⟩
  rw [UInt64.le_iff_toNat_le] at h
  rw [hmem, UInt64.le_iff_toNat_le, UInt64.le_iff_toNat_le]
  constructor
  . rintro ⟨hlive, hrange⟩
    exact ⟨hlive, by omega⟩
  . rintro ⟨hlive, hrange⟩
    exact ⟨hlive, by omega⟩

theorem Inv.readCached_eq (h : Inv buildKey name grp) (now : Nat → Nat) (lo n : Nat)
    : ∃ res grp',
        readCached buildKey grp now (UInt64.ofNat lo) n = some (res, grp')
          ∧ Inv buildKey name grp'
          ∧ grp'.log = grp.log
          ∧ (Function.Injective (buildKey name)
              → lo + n ≤ 2 ^ 64
              → ∀ cached, res = some cached → Lists grp.log lo n cached ∧ cached.length = n) := by
  induction n generalizing grp now lo with
  | zero =>
    refine ⟨some [], grp, rfl, h, rfl, fun _ _ cached hcached => ?_⟩
    rw [Option.some.injEq] at hcached
    rw [← hcached]
    exact ⟨lists_nil grp.log lo, rfl⟩
  | succ n ih =>
    rcases h.get_eq (now 0) (UInt64.ofNat lo) with ⟨res, lru, hget, hinv, hentry⟩
    unfold readCached
    rw [hget]
    cases res with
    | none => exact ⟨none, _, rfl, hinv, rfl, fun _ _ cached hcached => by contradiction⟩
    | some entry =>
      rcases ih hinv (fun i => now (i + 1)) (lo + 1) with ⟨res, grp', hrest, hinv', hlog, hlists⟩
      rw [UInt64.ofNat_add] at hrest
      refine ⟨res.map ((entry.id, entry.timestamp, entry.payload) :: ·), grp', ?_, hinv', hlog, ?_⟩
      . dsimp only
        rw [show (1 : UInt64) = UInt64.ofNat 1 by rfl, hrest]
        rfl
      . intro hinj hle cached hcached
        rw [Option.map_eq_some_iff] at hcached
        rcases hcached with ⟨rest, hres, rfl⟩
        have ⟨hrest', hlen⟩ := hlists hinj (by omega) rest hres
        have ⟨hid, hlive⟩ := hentry hinj entry rfl
        refine ⟨hrest'.cons ?_ ?_, by simp [hlen]⟩
        . rw [hid, UInt64.toNat_ofNat_of_lt']
          unfold UInt64.size
          omega
        . rw [hid]
          exact hlive

theorem Inv.readRange_frame (h : Inv buildKey name grp) (now : Nat → Nat) (start stop : UInt64)
    : Inv buildKey name (grp.readRange buildKey now start stop).2
        ∧ (grp.readRange buildKey now start stop).2.log = grp.log := by
  rcases h.readCached_eq now start.toNat (stop.toNat + 1 - start.toNat)
    with ⟨res, grp', hread, hinv, hlog, _⟩
  rw [UInt64.ofNat_toNat] at hread
  unfold readRange
  dsimp only
  split
  . exact ⟨h, rfl⟩
  . rw [hread]
    cases res with
    | none => exact ⟨hinv, hlog⟩
    | some cached =>
      dsimp only
      split
      . exact ⟨hinv, hlog⟩
      . exact ⟨hinv, hlog⟩

theorem rangeLen_eq {start stop : UInt64} (h : start ≤ stop)
    (hlen : stop.toNat - start.toNat + 1 < 2 ^ 64)
    : (stop - start + 1).toNat = stop.toNat - start.toNat + 1 := by
  rw [UInt64.toNat_add, UInt64.toNat_sub_of_le _ _ h, UInt64.toNat_one, Nat.mod_eq_of_lt hlen]

theorem Inv.readRange_eq (h : Inv buildKey name grp) (hinj : Function.Injective (buildKey name))
    (now : Nat → Nat) {start stop : UInt64} (hle : start ≤ stop)
    (hcap : 40 * (stop - start + 1).toNat ≤ 2 ^ 63 - 1)
    : (grp.readRange buildKey now start stop).1
        =
      (grp.log.readRange start stop).mapErr .logError := by
  rcases h.readCached_eq now start.toNat (stop.toNat + 1 - start.toNat)
    with ⟨res, grp', hread, _, hlog, hlists⟩
  rw [UInt64.ofNat_toNat] at hread
  unfold readRange
  dsimp only
  rw [if_neg (by omega), hread]
  cases res with
  | none =>
    dsimp only
    rw [hlog]
  | some cached =>
    dsimp only
    split
    . have hbound := stop.toNat_lt
      rw [UInt64.le_iff_toNat_le] at hle
      have ⟨hcached, _⟩ := hlists hinj (by omega) cached rfl
      rcases lists_readRange h.log (UInt64.le_iff_toNat_le.mpr hle) with ⟨entries, hentries, hlisted⟩
      rw [hentries, hcached.unique hlisted]
      rfl
    . rw [hlog]

theorem Inv.readRange_eq_iff (h : Inv buildKey name grp)
    (hinj : Function.Injective (buildKey name)) (now : Nat → Nat) {start stop : UInt64}
    (hle : start ≤ stop) (hlen : stop.toNat - start.toNat + 1 < 2 ^ 64)
    : (grp.readRange buildKey now start stop).1 = (grp.log.readRange start stop).mapErr .logError
        ↔ 40 * (stop.toNat - start.toNat + 1) ≤ 2 ^ 63 - 1 := by
  rw [← rangeLen_eq hle hlen]
  constructor
  . intro heq
    rcases lists_readRange h.log hle with ⟨entries, hentries, _⟩
    rw [hentries] at heq
    by_contra hcap
    unfold readRange at heq
    dsimp only at heq
    rw [if_pos (by omega)] at heq
    contradiction
  . intro hcap
    exact h.readRange_eq hinj now hle hcap

end Group
end MemStream
