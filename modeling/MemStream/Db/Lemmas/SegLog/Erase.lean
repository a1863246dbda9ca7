import MemStream.Db.Lemmas.SegLog.Failure

namespace MemStream
namespace SegLog

def PackedBelow (idx : Std.TreeMap UInt64 EntryLoc) (n : Nat) : Prop :=
  ∀ (id : UInt64) loc i,
    idx[id]? = some loc → loc.segmentIdx ≤ i → i < n →
      ∃ (id' : UInt64) (loc' : EntryLoc),
        id ≤ id' ∧ idx[id']? = some loc' ∧ loc'.segmentIdx = i

theorem PackedBelow.mono {idx : Std.TreeMap UInt64 EntryLoc} {n m : Nat} (h : PackedBelow idx n)
    (hle : m ≤ n)
    : PackedBelow idx m := by
  intro id loc i hloc hge hlt
  apply h id loc i hloc hge
  omega

theorem PackedBelow.insert {idx : Std.TreeMap UInt64 EntryLoc} {n : Nat} (h : PackedBelow idx n)
    {id : UInt64} (hfresh : idx[id]? = none) (hlast : ∀ (id' : UInt64) loc, idx[id']? = some loc → id' < id)
    {loc : EntryLoc} (hloc : loc.segmentIdx = n)
    : PackedBelow (idx.insert id loc) (n + 1) := by
  intro id' loc' i hloc' hge hlt
  rw [OrdMap.getElem?_insert] at hloc'
  by_cases hi : i = n
  . refine ⟨id, loc, ?_, ?_, hloc.trans hi.symm⟩
    . split at hloc'
      . next heq =>
        rw [heq]
        exact UInt64.le_refl id
      . exact UInt64.le_of_lt (hlast id' loc' hloc')
    . rw [OrdMap.getElem?_insert, if_pos rfl]
  . split at hloc'
    . cases hloc'
      omega
    . rcases h id' loc' i hloc' hge (by omega) with ⟨id'', loc'', hle, hloc'', hseg⟩
      refine ⟨id'', loc'', hle, ?_, hseg⟩
      rw [OrdMap.getElem?_insert, if_neg, hloc'']
      intro heq
      rw [heq, hfresh] at hloc''
      contradiction

def Packed (log : SegLog) : Prop :=
  PackedBelow log.idx (min (log.activeSeg + 1) log.segs.length)

variable {log : SegLog}

theorem packed_of_no_segment (h : PackedBelow log.idx log.activeSeg)
    (hend : log.segs.length ≤ log.activeSeg)
    : log.Packed := by
  apply h.mono
  omega

theorem Inv.packed_rollOver (hinv : log.Inv) (h : log.Packed) (alloc : Bool) {size : Nat}
    (hsize : size ≤ segmentSize)
    : PackedBelow (log.rollOver alloc size).2.idx (log.rollOver alloc size).2.activeSeg
        ∧ ((log.rollOver alloc size).1 ≠ .ok () →
              (log.rollOver alloc size).2.segs.length ≤ (log.rollOver alloc size).2.activeSeg) := by
  have hactive := hinv.active
  generalize hroll : log.rollOver alloc size = res
  unfold SegLog.rollOver allocateSeg at hroll
  dsimp only at hroll
  split at hroll
  . have hnext : PackedBelow log.idx (log.activeSeg + 1) := by
      apply h.mono
      omega
    split at hroll
    . split at hroll
      . rw [← hroll]
        exact ⟨hnext, fun _ => by assumption⟩
      . split at hroll
        . rw [← hroll]
          exact ⟨hnext, fun hne => absurd rfl hne⟩
        . rw [← hroll]
          exact ⟨hnext, fun _ => by assumption⟩
    . rw [← hroll]
      exact ⟨hnext, fun hne => absurd rfl hne⟩
  . rw [← hroll]
    refine ⟨?_, fun hne => absurd rfl hne⟩
    apply h.mono
    dsimp only
    omega

theorem Inv.packed_place (hinv : log.Inv) (h : PackedBelow log.idx log.activeSeg) (timestamp : UInt64)
    {payload : List UInt8} (hfits : log.writeCursor + (headerSize + payload.length) ≤ segmentSize)
    : (log.place timestamp payload).2.Packed := by
  cases hseg : log.segs[log.activeSeg]? with
  | none =>
    rw [hinv.place_eq_panic timestamp payload hseg]
    apply packed_of_no_segment h
    simpa using hseg
  | some seg =>
    rw [hinv.place_eq_ok timestamp hfits hseg]
    let loc : EntryLoc := ⟨log.activeSeg, log.writeCursor, headerSize + payload.length⟩
    have hloc : loc.segmentIdx = log.activeSeg := by
      rfl
    have hpacked := h.insert hinv.nextId_fresh (fun id' loc' hloc' => hinv.lt_nextId hloc') hloc
    apply hpacked.mono
    simp only [SegLog.placed]
    omega

theorem Inv.packed_append (hinv : log.Inv) (h : log.Packed) (alloc : Bool) (timestamp : UInt64)
    (payload : List UInt8)
    : (log.append alloc timestamp payload).2.Packed := by
  unfold append
  dsimp only
  split
  . exact h
  . next hsize =>
    have hsize : headerSize + payload.length ≤ segmentSize := by omega
    have hinv' := hinv.rollOver alloc hsize
    have hfits := rollOver_fits log alloc hsize
    have ⟨hpacked, hend⟩ := hinv.packed_rollOver h alloc hsize
    rcases hroll : log.rollOver alloc (headerSize + payload.length) with ⟨res, log'⟩
    rw [hroll] at hinv' hfits hpacked hend
    cases res with
    | ok => exact hinv'.packed_place hpacked timestamp hfits
    | err e => exact packed_of_no_segment hpacked (hend (by simp))
    | panic => exact packed_of_no_segment hpacked (hend (by simp))

theorem Inv.packed_trim (hinv : log.Inv) (h : log.Packed) (cutoffId : UInt64)
    : (log.trim cutoffId).2.Packed := by
  rcases hinv.trim_eq cutoffId with ⟨segs, htrim, hlen, _⟩
  rw [htrim]
  intro id loc i hloc hge hlt
  simp only [SegLog.withoutTrimmed, hlen] at hloc hlt ⊢
  rcases trimmedIdx_eq_some hloc with ⟨hid, hold⟩
  rcases h id loc i hold hge hlt with ⟨id', loc', hle, hloc', hseg⟩
  refine ⟨id', loc', hle, ?_, hseg⟩
  rw [trimmedIdx_getElem?, if_neg, hloc']
  rw [UInt64.le_iff_toNat_le] at hle
  rw [UInt64.lt_iff_toNat_lt]
  omega

theorem packed_after (ops : List Op) : (after ops).Packed := by
  induction ops using List.reverseRecOn with
  | nil =>
    intro id loc i hloc
    simp [after, empty] at hloc
  | append_singleton ops op ih =>
    rw [after_concat]
    cases op with
    | append alloc timestamp payload => exact (inv_after ops).packed_append ih alloc timestamp payload
    | trim cutoffId => exact (inv_after ops).packed_trim ih cutoffId

structure Erases (log : SegLog) (cutoffId : UInt64) : Prop where
  returned : ∃ ids : List UInt64,
    (log.trim cutoffId).1 = .ok ids
      ∧ ids.Pairwise (· < ·)
      ∧ (∀ id, id ∈ ids ↔ (log.entryAt id).isSome ∧ id < cutoffId)
      ∧ (log.trim cutoffId).2.totalEntries + ids.length = log.totalEntries
  erased : ∀ i seg,
    i < (log.trim cutoffId).2.activeSeg →
      (log.trim cutoffId).2.segs[i]? = some seg →
        (∀ (id : UInt64) loc, (log.trim cutoffId).2.idx[id]? = some loc → loc.segmentIdx ≠ i) →
          seg.IsZero

theorem Inv.trim_returned (hinv : log.Inv) (cutoffId : UInt64)
    : ∃ ids : List UInt64,
        (log.trim cutoffId).1 = .ok ids
          ∧ ids.Pairwise (· < ·)
          ∧ (∀ id, id ∈ ids ↔ (log.entryAt id).isSome ∧ id < cutoffId)
          ∧ (log.trim cutoffId).2.totalEntries + ids.length = log.totalEntries := by
  have hsize := OrdMap.size_foldl_erase (log.trimmedIds cutoffId) log.idx
    (log.trimmedIds_nodup cutoffId) (fun id hid => (mem_trimmedIds.mp hid).1)
  rcases hinv.trim_eq cutoffId with ⟨segs, htrim, _⟩
  rw [htrim]
  refine ⟨log.trimmedIds cutoffId, rfl, log.keys_pairwise_lt.filter _, ?_, ?_⟩
  . intro id
    rw [mem_trimmedIds, hinv.mem_idx_iff]
  . simp only [SegLog.totalEntries, SegLog.withoutTrimmed, hinv.count]
    omega

def Erasable (log : SegLog) (cutoffId : UInt64) : Prop :=
  (∃ id, (log.entryAt id).isSome ∧ cutoffId ≤ id)
    ∨ ∀ i seg, i < log.activeSeg → log.segs[i]? = some seg → seg.IsZero

theorem Inv.survives_iff (hinv : log.Inv) (cutoffId : UInt64)
    : (∃ id, (log.entryAt id).isSome ∧ cutoffId ≤ id)
        ↔ (log.trimmedIdx cutoffId).toList.head? ≠ none := by
  rw [ne_eq, OrdMap.head?_toList_eq_none, not_forall]
  apply exists_congr
  intro id
  rw [← hinv.mem_idx_iff, Std.TreeMap.mem_iff_isSome_getElem?, trimmedIdx_getElem?, ← UInt64.not_lt]
  by_cases hlt : id < cutoffId
  . simp [hlt]
  . simp [hlt]

theorem Inv.erases_iff_erasable (hinv : log.Inv) (hpacked : log.Packed) (cutoffId : UInt64)
    : log.Erases cutoffId ↔ log.Erasable cutoffId := by
  unfold Erasable
  rw [hinv.survives_iff]
  cases hfirst : (log.trimmedIdx cutoffId).toList.head? with
  | none =>
    simp only [ne_eq, not_true, false_or]
    have htrim := trim_of_none hfirst
    rw [OrdMap.head?_toList_eq_none] at hfirst
    constructor
    . intro h i seg hlt hseg
      apply h.erased i seg
      . rw [htrim]
        exact hlt
      . rw [htrim]
        exact hseg
      . intro id loc hloc
        rw [htrim] at hloc
        have hnone := hfirst id
        have := hnone.symm.trans hloc
        contradiction
    . intro h
      refine ⟨hinv.trim_returned cutoffId, ?_⟩
      intro i seg hlt hseg _
      rw [htrim] at hlt hseg
      exact h i seg hlt hseg
  | some first =>
    simp only [ne_eq, reduceCtorEq, not_false_eq_true, true_or, iff_true]
    rcases first with ⟨first, firstLoc⟩
    rcases hinv.trim_of_some hfirst with ⟨segs, htrim, hzero, hbound⟩
    refine ⟨hinv.trim_returned cutoffId, ?_⟩
    intro i seg hlt hseg hdead
    rw [htrim] at hlt hseg hdead
    have hseg : segs[i]? = some seg := hseg
    rw [zeroDead_eq_some hzero] at hseg
    by_cases hi : i < firstLoc.segmentIdx
    . rw [List.getElem?_append_left (by simpa using hi), List.getElem?_replicate_of_lt hi] at hseg
      rw [← Option.some.inj hseg]
      apply Block.isZero_zeroed
    . -- behind the first live entry there is one in every segment
      have ⟨hhead, _⟩ := OrdMap.head?_toList_eq_some hfirst
      have ⟨hid, hold⟩ := trimmedIdx_eq_some hhead
      have hbelow : i < min (log.activeSeg + 1) log.segs.length := by
        have hlt : i < log.activeSeg := hlt
        have hactive := hinv.active
        omega
      rcases hpacked first firstLoc i hold (by omega) hbelow with ⟨id, loc, hle, hloc, hat⟩
      refine absurd hat (hdead id loc ?_)
      simp only [SegLog.withoutTrimmed]
      rw [trimmedIdx_getElem?, if_neg, hloc]
      rw [UInt64.le_iff_toNat_le] at hle
      rw [UInt64.lt_iff_toNat_lt]
      omega

/-- In every state that a run leads to, and for every cutoff. -/
theorem erases_iff (ops : List Op) (cutoffId : UInt64)
    : (after ops).Erases cutoffId ↔ (after ops).Erasable cutoffId := by
  exact (inv_after ops).erases_iff_erasable (packed_after ops) cutoffId

theorem At.not_isZero {segs : List Segment} {loc : EntryLoc} {id timestamp : UInt64}
    {payload : List UInt8} (h : At segs loc id timestamp payload) (hpos : 0 < id.toNat)
    {seg : Segment} (hseg : segs[loc.segmentIdx]? = some seg)
    : ¬seg.IsZero := by
  intro hzero
  rcases h with ⟨seg', hseg', hlen, hfits, hread⟩
  cases hseg.symm.trans hseg'
  unfold headerSize at hlen
  have hlen : loc.len = 8 + (12 + payload.length) := by omega
  rw [hlen] at hfits
  rw [hlen, Block.read_append, hzero.read (by omega)] at hread
  simp only [encodeEntry, List.append_assoc] at hread
  rcases List.append_inj hread (by simp) with ⟨hid, _⟩
  have hdecode : LittleEndian.decode (LittleEndian.encode 8 id.toNat) = id.toNat :=
    LittleEndian.decode_encode_of_lt id.toNat_lt
  rw [← hid] at hdecode
  have hnone : LittleEndian.decode (List.replicate 8 0) = 0 := by
    decide
  omega

/-
Two entries that fill a segment each, and no entry that survives.
-/

section Full

variable {payload : List UInt8} (hfull : payload.length = 65516)

include hfull

theorem abs_after_one
    : (after (fullOps payload 1)).abs
        =
      { space := ⟨8, 0, 65536⟩
        nextId := 2
        live := fun id => if id = 1 then some (0, payload) else none } := by
  have ⟨_, habs⟩ := inv_empty.append_refines true 0 payload
  have hspace : LogSpec.empty.space = ⟨8, 0, 0⟩ := by
    rfl
  have hsize : headerSize + 65516 = 65536 := by
    rfl
  rw [abs_empty, LogSpec.append, hspace, hfull, hsize, claim_first] at habs
  exact (congrArg Prod.snd habs).symm

theorem abs_after_two
    : (after (fullOps payload 2)).abs
        =
      { space := ⟨8, 1, 65536⟩
        nextId := 3
        live := fun id =>
          if id = 2 then some (0, payload) else if id = 1 then some (0, payload) else none } := by
  have ⟨_, habs⟩ := (inv_after (fullOps payload 1)).append_refines true 0 payload
  have hsize : headerSize + 65516 = 65536 := by
    rfl
  have hclaim := claim_full (show 0 < 1 by omega) (show 1 < 8 by omega)
  rw [abs_after_one hfull, LogSpec.append, hfull, hsize] at habs
  dsimp only at habs
  rw [hclaim] at habs
  exact (congrArg Prod.snd habs).symm

theorem not_erases_two : ¬(after (fullOps payload 2)).Erases 3 := by
  have hinv := inv_after (fullOps payload 2)
  have habs := abs_after_two hfull
  have hlive : (after (fullOps payload 2)).entryAt
      = fun id => if id = 2 then some (0, payload) else if id = 1 then some (0, payload) else none :=
    congrArg LogSpec.live habs
  have hactive : (after (fullOps payload 2)).activeSeg = 1 :=
    congrArg (fun log => log.space.activeSeg) habs
  rw [hinv.erases_iff_erasable (packed_after _)]
  rintro (⟨id, hid, hge⟩ | hzero)
  . rw [hlive] at hid
    dsimp only at hid
    split at hid
    . next heq =>
      rw [heq] at hge
      contradiction
    . split at hid
      . next heq =>
        rw [heq] at hge
        contradiction
      . contradiction
  . have hone : (after (fullOps payload 2)).entryAt 1 = some (0, payload) := by
      rw [hlive]
      rfl
    have htwo : (after (fullOps payload 2)).entryAt 2 = some (0, payload) := by
      rw [hlive]
      rfl
    rcases hinv.exists_at hone with ⟨loc, hloc, hat⟩
    rcases hinv.exists_at htwo with ⟨loc', hloc', hat'⟩
    -- no two entries of this size fit into one segment
    have horder := hinv.order 1 loc 2 loc' hloc hloc' (by decide)
    have hbefore := hinv.before 2 loc' hloc'
    rcases hat with ⟨seg, hseg, hlen, hrest⟩
    rcases hat' with ⟨_, _, hlen', hfits', _⟩
    unfold Before at horder hbefore
    unfold headerSize at hlen hlen'
    unfold segmentSize at hfits'
    have hlt : loc.segmentIdx < (after (fullOps payload 2)).activeSeg := by
      dsimp only at hbefore
      omega
    apply At.not_isZero ⟨seg, hseg, hlen, hrest⟩ (by decide) hseg
    exact hzero loc.segmentIdx seg hlt hseg

end Full

theorem segment_not_erased
    : ∃ payload : List UInt8,
        payload = List.replicate 65516 0 ∧ ¬(after (fullOps payload 2)).Erases 3 := by
  refine ⟨_, rfl, ?_⟩
  apply not_erases_two
  apply List.length_replicate

end SegLog
end MemStream
