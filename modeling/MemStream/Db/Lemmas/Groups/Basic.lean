import MemStream.Db.Lemmas.Lru.Refine
import MemStream.Db.Lemmas.SegLog.History
import MemStream.Db.Spec.Logs

namespace MemStream

namespace Recency

variable {κ ν : Type} [DecidableEq κ]

theorem mem_of_mem_insert {r : Recency κ ν} {cap ttl now : Nat} {key : κ} {value : ν}
    {slot : Slot κ ν} (h : slot ∈ r.insert cap ttl now key value)
    : slot = ⟨key, value, now + ttl⟩ ∨ slot ∈ r := by
  unfold insert at h
  dsimp at h
  split at h
  . rw [List.mem_cons] at h
    cases h with
    | inl heq => exact .inl heq
    | inr hmem => exact .inr (mem_without.mp hmem).1
  . rw [List.mem_cons] at h
    cases h with
    | inl heq => exact .inl heq
    | inr hmem =>
      right
      split at hmem
      . exact List.mem_of_mem_dropLast hmem
      . exact hmem

theorem mem_of_mem_remove {r : Recency κ ν} {key : κ} {slot : Slot κ ν}
    (h : slot ∈ (r.remove key).2)
    : slot ∈ r ∧ slot.key ≠ key :=
  mem_without.mp h

theorem mem_of_mem_get {r : Recency κ ν} {now : Nat} {key : κ} {slot : Slot κ ν}
    (h : slot ∈ (r.get now key).2)
    : slot ∈ r := by
  unfold get at h
  split at h
  . exact h
  . next found hfound =>
    split at h
    . exact (mem_without.mp h).1
    . rw [List.mem_cons] at h
      cases h with
      | inl heq =>
        rw [heq]
        exact (find_eq_some hfound).1
      | inr hmem => exact (mem_without.mp hmem).1

theorem get_eq_some {r : Recency κ ν} {now : Nat} {key : κ} {value : ν}
    (h : (r.get now key).1 = some value)
    : ∃ slot ∈ r, slot.key = key ∧ slot.value = value := by
  unfold get at h
  split at h
  . contradiction
  . next found hfound =>
    split at h
    . contradiction
    . rw [Option.some.injEq] at h
      have ⟨hmem, hkey⟩ := find_eq_some hfound
      exact ⟨found, hmem, hkey, h⟩

end Recency

variable (buildKey : String → UInt64 → UInt64)

def Cached (name : String) (log : SegLog) (slot : Slot UInt64 LogEntry) : Prop :=
  ∃ id timestamp payload,
    slot.key = buildKey name id
      ∧ slot.value = ⟨id, timestamp, payload.length, payload⟩
      ∧ log.entryAt id = some (timestamp, payload)

namespace Group

structure Inv (name : String) (grp : Group) : Prop where
  name_eq : grp.name = name
  log : grp.log.Inv
  cache : ∃ recency,
    grp.lruCache.Represents cacheCap cacheTtl recency
      ∧ ∀ slot ∈ recency, Cached buildKey name grp.log slot

theorem inv_new (name : String)
    : Inv buildKey name ⟨name, SegLog.empty, Lru.new cacheCap cacheTtl⟩ where
  name_eq := rfl
  log := SegLog.inv_empty
  cache := ⟨[], Lru.represents_new (by decide) (by decide) _, by simp⟩

theorem cacheInvalidate_eq {grp : Group} {recency : Recency UInt64 LogEntry}
    (h : grp.lruCache.Represents cacheCap cacheTtl recency) (id : UInt64)
    : ∃ grp',
        cacheInvalidate buildKey grp id = some grp'
          ∧ grp'.log = grp.log
          ∧ grp'.name = grp.name
          ∧ grp'.lruCache.Represents cacheCap cacheTtl
              (recency.remove (buildKey grp.name id)).2 := by
  rcases h.remove_refines (buildKey grp.name id) with ⟨lru, hremove, hrep⟩
  refine ⟨{ grp with lruCache := lru }, ?_, rfl, rfl, hrep⟩
  unfold cacheInvalidate
  rw [hremove]
  rfl

theorem invalidateAll_eq {grp : Group} {recency : Recency UInt64 LogEntry}
    (h : grp.lruCache.Represents cacheCap cacheTtl recency) (ids : List UInt64)
    : ∃ grp' recency',
        invalidateAll buildKey grp ids = some grp'
          ∧ grp'.log = grp.log
          ∧ grp'.name = grp.name
          ∧ grp'.lruCache.Represents cacheCap cacheTtl recency'
          ∧ ∀ slot ∈ recency', slot ∈ recency ∧ ∀ id ∈ ids, slot.key ≠ buildKey grp.name id := by
  induction ids generalizing grp recency with
  | nil => exact ⟨grp, recency, rfl, rfl, rfl, h, by simp⟩
  | cons id ids ih =>
    rcases cacheInvalidate_eq buildKey h id with ⟨grp', heq, hlog, hname, hrep⟩
    rcases ih hrep with ⟨grp'', recency'', heq', hlog', hname', hrep', hslots⟩
    refine ⟨grp'', recency'', ?_, hlog'.trans hlog, hname'.trans hname, hrep', fun slot hslot => ?_⟩
    . unfold invalidateAll
      rw [heq]
      exact heq'
    . have ⟨hmem, hids⟩ := hslots slot hslot
      have ⟨hmem', hid⟩ := Recency.mem_of_mem_remove hmem
      refine ⟨hmem', fun id' hid' => ?_⟩
      rw [List.mem_cons] at hid'
      cases hid' with
      | inl heq =>
        rw [heq]
        exact hid
      | inr hid' =>
        rw [← hname]
        exact hids id' hid'

variable {buildKey} {name : String} {grp : Group}

theorem Inv.cachePut (h : Inv buildKey name grp) (now : Nat) {id timestamp : UInt64}
    {payload : List UInt8} (hlive : grp.log.entryAt id = some (timestamp, payload))
    : ∃ grp',
        cachePut buildKey grp now id timestamp payload = some grp'
          ∧ Inv buildKey name grp'
          ∧ grp'.log = grp.log := by
  rcases h.cache with ⟨recency, hrep, hcached⟩
  rcases hrep.insert_refines now (buildKey grp.name id) ⟨id, timestamp, payload.length, payload⟩
    with ⟨lru, hinsert, hrep'⟩
  refine ⟨{ grp with lruCache := lru }, ?_, ⟨h.name_eq, h.log, _, hrep', ?_⟩, rfl⟩
  . unfold Group.cachePut
    dsimp only
    rw [hinsert]
    rfl
  . intro slot hslot
    cases Recency.mem_of_mem_insert hslot with
    | inl heq =>
      rw [heq]
      exact ⟨id, timestamp, payload, by rw [h.name_eq], rfl, hlive⟩
    | inr hmem => exact hcached slot hmem

theorem Inv.append_eq (h : Inv buildKey name grp) (alloc : Bool) (now : Nat) (timestamp : UInt64)
    (payload : List UInt8)
    : Inv buildKey name (grp.append buildKey alloc now timestamp payload).2
        ∧ (grp.append buildKey alloc now timestamp payload).1
            = (grp.log.append alloc timestamp payload).1.mapErr .logError
        ∧ (grp.append buildKey alloc now timestamp payload).2.log
            = (grp.log.append alloc timestamp payload).2 := by
  have ⟨hinv, hrefines⟩ := h.log.append_refines alloc timestamp payload
  unfold append
  rcases happend : grp.log.append alloc timestamp payload with ⟨res, log⟩
  rw [happend] at hinv hrefines
  -- every entry that was live before still is
  have hkept : ∀ id entry, grp.log.entryAt id = some entry → log.entryAt id = some entry := by
    intro id entry hentry
    by_cases hok : ∃ id', res = .ok id'
    . rcases hok with ⟨id', rfl⟩
      have ⟨hid', _, hlive⟩ := LogSpec.append_eq_ok hrefines
      have hfresh := SegLog.entryAt_eq_none h.log.nextId_fresh
      have hne : id ≠ id' := by
        intro heq
        have hnext : id' = grp.log.nextId := hid'
        rw [heq, hnext, hfresh] at hentry
        contradiction
      have := hlive id
      rw [if_neg hne] at this
      exact this.trans hentry
    . have ⟨_, hlive⟩ := LogSpec.append_frame hrefines fun id' hid' => hok ⟨id', hid'⟩
      exact (congrFun hlive id).trans hentry
  have hinv' : Inv buildKey name { grp with log := log } := by
    rcases h.cache with ⟨recency, hrep, hcached⟩
    refine ⟨h.name_eq, hinv, recency, hrep, fun slot hslot => ?_⟩
    rcases hcached slot hslot with ⟨id, timestamp', payload', hkey, hvalue, hentry⟩
    exact ⟨id, timestamp', payload', hkey, hvalue, hkept id _ hentry⟩
  cases res with
  | ok id =>
    have ⟨_, _, hlive⟩ := LogSpec.append_eq_ok hrefines
    have hentry : log.entryAt id = some (timestamp, payload) := by
      have := hlive id
      rw [if_pos rfl] at this
      exact this
    rcases hinv'.cachePut now hentry with ⟨grp', hput, hgrp', hlog⟩
    dsimp only
    rw [hput]
    exact ⟨hgrp', rfl, hlog⟩
  | err e => exact ⟨hinv', rfl, rfl⟩
  | panic => exact ⟨hinv', rfl, rfl⟩

theorem Inv.append_refines (h : Inv buildKey name grp) (alloc : Bool) (now : Nat)
    (timestamp : UInt64) (payload : List UInt8)
    : Inv buildKey name (grp.append buildKey alloc now timestamp payload).2
        ∧ (grp.append buildKey alloc now timestamp payload).1
            = (grp.log.abs.append alloc timestamp payload).1.mapErr .logError
        ∧ (grp.append buildKey alloc now timestamp payload).2.log.abs
            = (grp.log.abs.append alloc timestamp payload).2 := by
  have ⟨hinv, hres, hlog⟩ := h.append_eq alloc now timestamp payload
  have ⟨_, hrefines⟩ := h.log.append_refines alloc timestamp payload
  rw [hrefines, hlog]
  exact ⟨hinv, hres, rfl⟩

theorem Inv.appendRest_refines (h : Inv buildKey name grp) (env : Nat → Bool × Nat)
    (lastId : UInt64) (entries : List (UInt64 × List UInt8))
    : Inv buildKey name (grp.appendRest buildKey env lastId entries).2
        ∧ (grp.appendRest buildKey env lastId entries).1
            = (grp.log.abs.appendRest (fun i => (env i).1) lastId entries).1.mapErr .logError
        ∧ (grp.appendRest buildKey env lastId entries).2.log.abs
            = (grp.log.abs.appendRest (fun i => (env i).1) lastId entries).2 := by
  induction entries generalizing grp env lastId with
  | nil => exact ⟨h, rfl, rfl⟩
  | cons entry entries ih =>
    rcases entry with ⟨timestamp, payload⟩
    have ⟨hinv, hres, hlog⟩ := h.append_refines (env 0).1 (env 0).2 timestamp payload
    unfold appendRest LogSpec.appendRest
    rcases hspec : grp.log.abs.append (env 0).1 timestamp payload with ⟨res, log⟩
    rcases happend : grp.append buildKey (env 0).1 (env 0).2 timestamp payload with ⟨res', grp'⟩
    rw [happend] at hinv hres hlog
    rw [hspec] at hres hlog
    dsimp only at hinv hres hlog
    rw [hres, ← hlog]
    cases res with
    | ok id => exact ih hinv (fun i => env (i + 1)) id
    | err e => exact ⟨hinv, rfl, rfl⟩
    | panic => exact ⟨hinv, rfl, rfl⟩

theorem Inv.remove_refines (h : Inv buildKey name grp) (upToId : UInt64)
    : Inv buildKey name (grp.remove buildKey upToId).2
        ∧ (grp.remove buildKey upToId).1 = .ok ()
        ∧ (grp.remove buildKey upToId).2.log.abs = grp.log.abs.trim upToId := by
  have ⟨htrim, habs⟩ := h.log.trim_refines upToId
  have hinv := h.log.trim upToId
  rcases h.cache with ⟨recency, hrep, hcached⟩
  unfold remove
  rcases hres : grp.log.trim upToId with ⟨res, log⟩
  rw [hres] at htrim habs hinv
  dsimp only at htrim
  rw [htrim]
  have hrep' : Lru.Represents (lruCache { grp with log := log }) cacheCap cacheTtl recency := hrep
  rcases invalidateAll_eq buildKey hrep' (grp.log.trimmedIds upToId)
    with ⟨grp', recency', heq, hlog, hname, hrep'', hslots⟩
  simp only [heq]
  refine ⟨⟨hname.trans h.name_eq, ?_, recency', hrep'', fun slot hslot => ?_⟩, ?_⟩
  . rw [hlog]
    exact hinv
  . have ⟨hmem, hids⟩ := hslots slot hslot
    rcases hcached slot hmem with ⟨id, timestamp, payload, hkey, hvalue, hentry⟩
    refine ⟨id, timestamp, payload, hkey, hvalue, ?_⟩
    have hlive : log.entryAt id = if id < upToId then none else grp.log.entryAt id :=
      congrFun (congrArg LogSpec.live habs) id
    rw [hlog]
    dsimp only
    rw [hlive, if_neg, hentry]
    intro hlt
    apply hids id
    . rw [SegLog.mem_trimmedIds]
      refine ⟨?_, hlt⟩
      rw [Std.TreeMap.mem_iff_isSome_getElem?]
      cases hloc : grp.log.idx[id]? with
      | some loc => rfl
      | none =>
        rw [SegLog.entryAt_eq_none hloc] at hentry
        contradiction
    . rw [hkey, h.name_eq]
  . refine ⟨trivial, ?_⟩
    rw [hlog]
    exact habs

end Group
end MemStream
