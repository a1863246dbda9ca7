import MemStream.Db.Lemmas.SegLog.Append

namespace MemStream
namespace SegLog

def trimmedIds (log : SegLog) (cutoffId : UInt64) : List UInt64 :=
  log.idx.keys.filter (· < cutoffId)

theorem mem_trimmedIds {log : SegLog} {cutoffId id : UInt64}
    : id ∈ log.trimmedIds cutoffId ↔ id ∈ log.idx ∧ id < cutoffId := by
  simp [trimmedIds]

def trimmedIdx (log : SegLog) (cutoffId : UInt64) : Std.TreeMap UInt64 EntryLoc :=
  (log.trimmedIds cutoffId).foldl (fun idx id => idx.erase id) log.idx

theorem trimmedIdx_getElem? (log : SegLog) (cutoffId id : UInt64)
    : (log.trimmedIdx cutoffId)[id]? = if id < cutoffId then none else log.idx[id]? := by
  unfold trimmedIdx
  rw [OrdMap.getElem?_foldl_erase]
  simp only [mem_trimmedIds, Std.TreeMap.mem_iff_isSome_getElem?]
  cases log.idx[id]? with
  | none => simp
  | some loc => simp

theorem trimmedIdx_eq_some {log : SegLog} {cutoffId id : UInt64} {loc : EntryLoc}
    (h : (log.trimmedIdx cutoffId)[id]? = some loc)
    : cutoffId.toNat ≤ id.toNat ∧ log.idx[id]? = some loc := by
  rw [trimmedIdx_getElem?] at h
  split at h
  . contradiction
  . next hlt =>
    rw [UInt64.lt_iff_toNat_lt] at hlt
    exact ⟨by omega, h⟩

theorem trimmedIds_nodup (log : SegLog) (cutoffId : UInt64) : (log.trimmedIds cutoffId).Nodup := by
  apply List.Nodup.filter
  exact Std.TreeMap.nodup_keys

def withoutTrimmed (log : SegLog) (cutoffId : UInt64) (segs : List Segment) : SegLog :=
  { log with
    segs := segs
    idx := log.trimmedIdx cutoffId
    entryCount := log.entryCount - (log.trimmedIds cutoffId).length }

theorem Inv.withoutTrimmed {log : SegLog} (hinv : log.Inv) (cutoffId : UInt64)
    {segs : List Segment} (hlen : segs.length = log.segs.length)
    (hat : ∀ (id : UInt64) loc timestamp payload,
        (log.trimmedIdx cutoffId)[id]? = some loc
          → At log.segs loc id timestamp payload
          → At segs loc id timestamp payload)
    : Inv (log.withoutTrimmed cutoffId segs) where
  unlocked := hinv.unlocked
  segs_le := by
    simp only [SegLog.withoutTrimmed, hlen]
    exact hinv.segs_le
  active := by
    simp only [SegLog.withoutTrimmed, hlen]
    exact hinv.active
  cursor_le := hinv.cursor_le
  next_pos := hinv.next_pos
  used := hinv.used
  interval := by
    rcases hinv.interval with ⟨first, hfirst⟩
    refine ⟨max first cutoffId.toNat, fun id => ?_⟩
    have hmem := hfirst id
    simp only [Std.TreeMap.mem_iff_isSome_getElem?] at hmem ⊢
    simp only [SegLog.withoutTrimmed, trimmedIdx_getElem?]
    split
    . next h =>
      rw [UInt64.lt_iff_toNat_lt] at h
      simp only [Option.isSome_none, Bool.false_eq_true, false_iff]
      omega
    . next h =>
      rw [UInt64.lt_iff_toNat_lt] at h
      rw [hmem]
      omega
  count := by
    have hsize := OrdMap.size_foldl_erase (log.trimmedIds cutoffId) log.idx
      (log.trimmedIds_nodup cutoffId) (fun id hid => (mem_trimmedIds.mp hid).1)
    simp only [SegLog.withoutTrimmed, trimmedIdx, hinv.count]
    omega
  before := by
    intro id loc hloc
    exact hinv.before id loc (trimmedIdx_eq_some hloc).2
  order := by
    intro id loc id' loc' hloc hloc'
    exact hinv.order id loc id' loc' (trimmedIdx_eq_some hloc).2 (trimmedIdx_eq_some hloc').2
  stored := by
    intro id loc hloc
    rcases hinv.stored id loc (trimmedIdx_eq_some hloc).2 with ⟨timestamp, payload, hstored⟩
    exact ⟨timestamp, payload, hat id loc timestamp payload hloc hstored⟩

theorem Inv.withoutTrimmed_entryAt {log : SegLog} (hinv : log.Inv) (cutoffId : UInt64)
    {segs : List Segment}
    (hat : ∀ (id : UInt64) loc timestamp payload,
        (log.trimmedIdx cutoffId)[id]? = some loc
          → At log.segs loc id timestamp payload
          → At segs loc id timestamp payload)
    (id : UInt64)
    : (log.withoutTrimmed cutoffId segs).entryAt id
        =
      if id < cutoffId then none else log.entryAt id := by
  split
  . next hlt =>
    apply entryAt_eq_none
    simp only [SegLog.withoutTrimmed, trimmedIdx_getElem?, hlt, ↓reduceIte]
  . next hlt =>
    have hidx : (log.trimmedIdx cutoffId)[id]? = log.idx[id]? := by
      rw [trimmedIdx_getElem?, if_neg hlt]
    apply hinv.entryAt_frame hidx
    intro loc timestamp payload hloc hstored
    exact hat id loc timestamp payload (hidx.trans hloc) hstored

theorem Inv.firstLive_le {log : SegLog} (hinv : log.Inv) {cutoffId first : UInt64}
    {firstLoc : EntryLoc} (hfirst : (log.trimmedIdx cutoffId).toList.head? = some (first, firstLoc))
    {id : UInt64} {loc : EntryLoc} (hloc : (log.trimmedIdx cutoffId)[id]? = some loc)
    : firstLoc.segmentIdx ≤ loc.segmentIdx := by
  have ⟨hhead, hmin⟩ := OrdMap.head?_toList_eq_some hfirst
  cases hmin id loc hloc with
  | inl heq =>
    rw [heq, hhead] at hloc
    injection hloc with hloc
    rw [hloc]
  | inr hlt =>
    apply Before.segmentIdx_le
    apply hinv.order first firstLoc id loc
    . exact (trimmedIdx_eq_some hhead).2
    . exact (trimmedIdx_eq_some hloc).2
    . rwa [Std.compare_eq_lt] at hlt

theorem trim_of_none {log : SegLog} {cutoffId : UInt64}
    (h : (log.trimmedIdx cutoffId).toList.head? = none)
    : log.trim cutoffId = (.ok (log.trimmedIds cutoffId), log.withoutTrimmed cutoffId log.segs) := by
  generalize htrim : log.trim cutoffId = res
  unfold trim at htrim
  dsimp at htrim
  split at htrim
  . exact htrim.symm
  . next hfirst =>
    have hfirst := h.symm.trans hfirst
    contradiction

theorem Inv.trim_of_some {log : SegLog} (hinv : log.Inv) {cutoffId first : UInt64}
    {firstLoc : EntryLoc} (h : (log.trimmedIdx cutoffId).toList.head? = some (first, firstLoc))
    : ∃ segs,
        log.trim cutoffId = (.ok (log.trimmedIds cutoffId), log.withoutTrimmed cutoffId segs)
          ∧ zeroDead log.segs firstLoc.segmentIdx = some segs
          ∧ firstLoc.segmentIdx ≤ log.segs.length := by
  have hbound : firstLoc.segmentIdx ≤ log.segs.length := by
    have ⟨hhead, _⟩ := OrdMap.head?_toList_eq_some h
    rcases hinv.stored first firstLoc (trimmedIdx_eq_some hhead).2 with ⟨_, _, seg, hseg, _⟩
    have := (List.getElem?_eq_some_iff.mp hseg).1
    omega
  have hzero : zeroDead log.segs firstLoc.segmentIdx
      = some (List.replicate firstLoc.segmentIdx Block.zeroed
          ++ log.segs.drop firstLoc.segmentIdx) := by
    unfold zeroDead
    rw [if_pos hbound]
  generalize htrim : log.trim cutoffId = res
  unfold trim at htrim
  dsimp at htrim
  split at htrim
  . next hnone =>
    have hnone := h.symm.trans hnone
    contradiction
  . next hfirst =>
    cases h.symm.trans hfirst
    rw [hzero] at htrim
    exact ⟨_, htrim.symm, hzero, hbound⟩

theorem zeroDead_eq_some {segs segs' : List Segment} {firstLive : Nat}
    (h : zeroDead segs firstLive = some segs')
    : segs' = List.replicate firstLive Block.zeroed ++ segs.drop firstLive := by
  unfold zeroDead at h
  split at h
  . exact (Option.some.inj h).symm
  . contradiction

theorem Inv.trim_eq {log : SegLog} (hinv : log.Inv) (cutoffId : UInt64)
    : ∃ segs,
        log.trim cutoffId = (.ok (log.trimmedIds cutoffId), log.withoutTrimmed cutoffId segs)
          ∧ segs.length = log.segs.length
          ∧ ∀ (id : UInt64) loc timestamp payload,
              (log.trimmedIdx cutoffId)[id]? = some loc
                → At log.segs loc id timestamp payload
                → At segs loc id timestamp payload := by
  cases hfirst : (log.trimmedIdx cutoffId).toList.head? with
  | none => exact ⟨log.segs, trim_of_none hfirst, rfl, fun _ _ _ _ _ hat => hat⟩
  | some first =>
    rcases first with ⟨first, firstLoc⟩
    rcases hinv.trim_of_some hfirst with ⟨segs, htrim, hzero, hbound⟩
    refine ⟨segs, htrim, ?_, ?_⟩
    . rw [zeroDead_eq_some hzero, List.length_append, List.length_replicate, List.length_drop]
      omega
    . intro id loc timestamp payload hloc hat
      exact hat.zeroDead (hinv.firstLive_le hfirst hloc) hzero

theorem Inv.trim {log : SegLog} (hinv : log.Inv) (cutoffId : UInt64)
    : Inv (log.trim cutoffId).2 := by
  rcases hinv.trim_eq cutoffId with ⟨segs, htrim, hlen, hat⟩
  rw [htrim]
  exact hinv.withoutTrimmed cutoffId hlen hat

theorem Inv.trim_refines {log : SegLog} (hinv : log.Inv) (cutoffId : UInt64)
    : (log.trim cutoffId).1 = .ok (log.trimmedIds cutoffId)
        ∧ (log.trim cutoffId).2.abs = log.abs.trim cutoffId := by
  rcases hinv.trim_eq cutoffId with ⟨segs, htrim, hlen, hat⟩
  rw [htrim]
  refine ⟨rfl, ?_⟩
  simp only [abs, LogSpec.trim, LogSpec.mk.injEq]
  refine ⟨?_, rfl, ?_⟩
  . simp [space, SegLog.withoutTrimmed, hlen]
  . funext id
    apply hinv.withoutTrimmed_entryAt cutoffId hat

end SegLog
end MemStream
