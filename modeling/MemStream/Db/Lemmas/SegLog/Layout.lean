import MemStream.Db.Lemmas.SegLog.Failure

namespace MemStream
namespace SegLog

/-- The index has the last ids without a gap, their places follow each other in the order of the ids, and
all of them are inside of their segments and in front of the write cursor. -/
structure LaidOut (log : SegLog) : Prop where
  interval : ∃ first : Nat,
    ∀ id : UInt64, id ∈ log.idx ↔ first ≤ id.toNat ∧ id.toNat < log.nextId.toNat
  count : log.entryCount = log.idx.size
  increasing : ∀ (id id' : UInt64) loc loc',
    log.idx[id]? = some loc → log.idx[id']? = some loc' → id < id' →
      loc.segmentIdx < loc'.segmentIdx
        ∨ (loc.segmentIdx = loc'.segmentIdx ∧ loc.offset < loc'.offset)
  apart : ∀ (id id' : UInt64) loc loc',
    log.idx[id]? = some loc → log.idx[id']? = some loc' → id ≠ id' →
      loc.segmentIdx = loc'.segmentIdx →
        (List.range' loc.offset loc.len).Disjoint (List.range' loc'.offset loc'.len)
  inside : ∀ (id : UInt64) loc,
    log.idx[id]? = some loc → loc.segmentIdx < log.segs.length ∧ loc.offset + loc.len ≤ 65536
  before : ∀ (id : UInt64) loc,
    log.idx[id]? = some loc →
      loc.segmentIdx < log.activeSeg
        ∨ (loc.segmentIdx = log.activeSeg ∧ loc.offset + loc.len ≤ log.writeCursor)
  cursor_le : log.writeCursor ≤ 65536

variable {log : SegLog} {id id' : UInt64} {loc loc' : EntryLoc}

theorem Before.disjoint (h : Before loc loc') (hseg : loc.segmentIdx = loc'.segmentIdx)
    : (List.range' loc.offset loc.len).Disjoint (List.range' loc'.offset loc'.len) := by
  intro byte hbyte hbyte'
  rw [List.mem_range'_1] at hbyte hbyte'
  unfold Before at h
  omega

theorem Inv.len_pos (hinv : log.Inv) (h : log.idx[id]? = some loc) : 0 < loc.len := by
  rcases hinv.stored id loc h with ⟨timestamp, payload, seg, _, hlen, _⟩
  unfold headerSize at hlen
  omega

theorem Inv.apart (hinv : log.Inv) (h : log.idx[id]? = some loc) (h' : log.idx[id']? = some loc')
    (hne : id ≠ id') (hseg : loc.segmentIdx = loc'.segmentIdx)
    : (List.range' loc.offset loc.len).Disjoint (List.range' loc'.offset loc'.len) := by
  by_cases hlt : id < id'
  . exact (hinv.order id loc id' loc' h h' hlt).disjoint hseg
  . have hgt : id' < id := by
      rw [UInt64.lt_iff_toNat_lt] at hlt ⊢
      rw [ne_eq, ← UInt64.toNat_inj] at hne
      omega
    exact ((hinv.order id' loc' id loc h' h hgt).disjoint hseg.symm).symm

theorem Inv.laidOut (hinv : log.Inv) : log.LaidOut where
  interval := hinv.interval
  count := hinv.count
  increasing := by
    intro id id' loc loc' h h' hlt
    have hbefore := hinv.order id loc id' loc' h h' hlt
    have hpos := hinv.len_pos h
    unfold Before at hbefore
    omega
  apart := by
    intro id id' loc loc' h h' hne hseg
    exact hinv.apart h h' hne hseg
  inside := by
    intro id loc h
    rcases hinv.stored id loc h with ⟨timestamp, payload, seg, hseg, _, hfits, _⟩
    exact ⟨(List.getElem?_eq_some_iff.mp hseg).1, hfits⟩
  before := hinv.before
  cursor_le := hinv.cursor_le

theorem laidOut_after (ops : List Op)
    : new (fun _ => true) = .ok empty ∧ (after ops).LaidOut := by
  exact ⟨new_eq_ok fun _ => rfl, (inv_after ops).laidOut⟩

end SegLog
end MemStream
