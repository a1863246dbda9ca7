import Mathlib.Data.UInt
import MemStream.Lib.OrdMap
import MemStream.Db.Impl.SegLog

/-!
The layout of a segmented log. The invariant says that the places in the index lie one behind the
other in front of the write cursor and that each of them holds the bytes of the entry with its id. Its
bound `used` keeps the ids far away from the end of `u64`: every entry takes at least a header, and
there is room for `maxSegments` segments only.
-/

namespace MemStream
namespace SegLog

def encodeEntry (id timestamp : UInt64) (payload : List UInt8) : List UInt8 :=
  LittleEndian.encode 8 id.toNat ++ LittleEndian.encode 8 timestamp.toNat
    ++ LittleEndian.encode 4 payload.length ++ payload

@[simp]
theorem encodeEntry_length (id timestamp : UInt64) (payload : List UInt8)
    : (encodeEntry id timestamp payload).length = headerSize + payload.length := by
  simp only [encodeEntry, List.length_append, LittleEndian.encode_length]
  rfl

theorem writeEntry_eq_write (seg : Segment) (dst : Nat) (id timestamp : UInt64)
    (payload : List UInt8) (h : dst + (headerSize + payload.length) ≤ segmentSize)
    : writeEntry seg dst id timestamp payload
        =
      some (seg.write dst (encodeEntry id timestamp payload)) := by
  unfold headerSize at h
  unfold writeEntry
  rw [Block.copyIn_eq_some (by simp; omega)]
  simp only [Option.bind_eq_bind, Option.bind_some]
  rw [Block.copyIn_eq_some (by simp; omega)]
  simp only [Option.bind_some]
  rw [Block.copyIn_eq_some (by simp; omega)]
  simp only [Option.bind_some]
  have hts := Block.write_write_adjacent seg dst
    (LittleEndian.encode 8 id.toNat) (LittleEndian.encode 8 timestamp.toNat)
  have hlen := Block.write_write_adjacent seg dst
    (LittleEndian.encode 8 id.toNat ++ LittleEndian.encode 8 timestamp.toNat)
    (LittleEndian.encode 4 payload.length)
  simp only [LittleEndian.encode_length, List.length_append] at hts hlen
  rw [hts, hlen]
  split
  . next hempty =>
    rw [List.isEmpty_iff] at hempty
    simp [encodeEntry, hempty]
  . rw [Block.copyIn_eq_some (by unfold headerSize; omega)]
    have hpayload := Block.write_write_adjacent seg dst
      (LittleEndian.encode 8 id.toNat ++ LittleEndian.encode 8 timestamp.toNat
        ++ LittleEndian.encode 4 payload.length) payload
    simp only [LittleEndian.encode_length, List.length_append] at hpayload
    rw [encodeEntry, ← hpayload]
    rfl

theorem readEntry_eq_some (seg : Segment) (src : Nat) (id timestamp : UInt64)
    (payload : List UInt8) (h : src + (headerSize + payload.length) ≤ segmentSize)
    (hbytes : seg.read src (headerSize + payload.length) = encodeEntry id timestamp payload)
    : readEntry seg src = some (id, timestamp, payload) := by
  have hsplit : headerSize + payload.length = 8 + (8 + (4 + payload.length)) := by
    unfold headerSize
    omega
  rw [hsplit, Block.read_append, Block.read_append, Block.read_append] at hbytes
  simp only [encodeEntry, List.append_assoc] at hbytes
  have ⟨hid, hbytes⟩ := List.append_inj hbytes (by simp)
  have ⟨hts, hbytes⟩ := List.append_inj hbytes (by simp)
  have ⟨hlen, hpayload⟩ := List.append_inj hbytes (by simp)
  have hsmall : LittleEndian.decode (LittleEndian.encode 4 payload.length) = payload.length := by
    apply LittleEndian.decode_encode_of_lt
    unfold headerSize segmentSize at h
    norm_num
    omega
  unfold headerSize at h
  unfold readEntry
  rw [Block.copyOut_eq_some (by omega), hid]
  simp only [Option.bind_eq_bind, Option.bind_some]
  rw [Block.copyOut_eq_some (by omega), hts]
  simp only [Option.bind_some]
  rw [Block.copyOut_eq_some (by omega), show src + 16 = src + 8 + 8 by omega, hlen]
  simp only [Option.bind_some, hsmall]
  split
  . rw [Block.copyOut_eq_some (by unfold headerSize; omega)]
    rw [show src + headerSize = src + 8 + 8 + 4 by unfold headerSize; omega, hpayload]
    simp
  . have : payload = [] := by
      apply List.eq_nil_of_length_eq_zero
      omega
    simp [this]

def At (segs : List Segment) (loc : EntryLoc) (id timestamp : UInt64) (payload : List UInt8) : Prop :=
  ∃ seg,
    segs[loc.segmentIdx]? = some seg
      ∧ loc.len = headerSize + payload.length
      ∧ loc.offset + loc.len ≤ segmentSize
      ∧ seg.read loc.offset loc.len = encodeEntry id timestamp payload

def Before (a b : EntryLoc) : Prop :=
  a.segmentIdx < b.segmentIdx ∨ (a.segmentIdx = b.segmentIdx ∧ a.offset + a.len ≤ b.offset)

theorem Before.segmentIdx_le {a b : EntryLoc} (h : Before a b) : a.segmentIdx ≤ b.segmentIdx := by
  unfold Before at h
  omega

theorem At.append_segs {segs : List Segment} {loc : EntryLoc} {id timestamp : UInt64}
    {payload : List UInt8} (h : At segs loc id timestamp payload) (extra : List Segment)
    : At (segs ++ extra) loc id timestamp payload := by
  rcases h with ⟨seg, hseg, hrest⟩
  refine ⟨seg, ?_, hrest⟩
  rw [List.getElem?_append_left]
  . exact hseg
  . exact (List.getElem?_eq_some_iff.mp hseg).1

theorem At.write_behind {segs : List Segment} {loc : EntryLoc} {id timestamp : UInt64}
    {payload : List UInt8} (h : At segs loc id timestamp payload) {active cursor : Nat}
    {old : Segment} (hold : segs[active]? = some old) (hbefore : Before loc ⟨active, cursor, 0⟩)
    (bytes : List UInt8)
    : At (segs.set active (old.write cursor bytes)) loc id timestamp payload := by
  rcases h with ⟨seg, hseg, hlen, hfits, hread⟩
  by_cases heq : loc.segmentIdx = active
  . rw [heq, hold, Option.some.injEq] at hseg
    refine ⟨old.write cursor bytes, ?_, hlen, hfits, ?_⟩
    . rw [heq, List.getElem?_set_self]
      exact (List.getElem?_eq_some_iff.mp hold).1
    . rw [Block.read_write_of_disjoint, hseg, hread]
      left
      unfold Before at hbefore
      simp only at hbefore
      omega
  . refine ⟨seg, ?_, hlen, hfits, hread⟩
    rw [List.getElem?_set_ne]
    . exact hseg
    . omega

theorem At.zeroDead {segs segs' : List Segment} {loc : EntryLoc} {id timestamp : UInt64}
    {payload : List UInt8} (h : At segs loc id timestamp payload) {firstLive : Nat}
    (hle : firstLive ≤ loc.segmentIdx) (hzero : SegLog.zeroDead segs firstLive = some segs')
    : At segs' loc id timestamp payload := by
  rcases h with ⟨seg, hseg, hrest⟩
  unfold SegLog.zeroDead at hzero
  split at hzero
  . injection hzero with hzero
    refine ⟨seg, ?_, hrest⟩
    rw [← hzero, List.getElem?_append_right]
    . simp only [List.length_replicate, List.getElem?_drop]
      rw [show firstLive + (loc.segmentIdx - firstLive) = loc.segmentIdx by omega]
      exact hseg
    . simpa using hle
  . contradiction

structure Inv (log : SegLog) : Prop where
  unlocked : log.lockWrite = false
  segs_le : log.segs.length ≤ maxSegments
  active :
    log.activeSeg < log.segs.length ∨ (log.activeSeg = log.segs.length ∧ log.writeCursor = 0)
  cursor_le : log.writeCursor ≤ segmentSize
  next_pos : 0 < log.nextId.toNat
  used :
    headerSize * log.nextId.toNat ≤ log.activeSeg * segmentSize + log.writeCursor + headerSize
  interval :
    ∃ first, ∀ id : UInt64, id ∈ log.idx ↔ first ≤ id.toNat ∧ id.toNat < log.nextId.toNat
  count : log.entryCount = log.idx.size
  before :
    ∀ (id : UInt64) loc, log.idx[id]? = some loc → Before loc ⟨log.activeSeg, log.writeCursor, 0⟩
  order :
    ∀ (id : UInt64) loc (id' : UInt64) loc',
      log.idx[id]? = some loc → log.idx[id']? = some loc' → id < id' → Before loc loc'
  stored :
    ∀ (id : UInt64) loc,
      log.idx[id]? = some loc → ∃ timestamp payload, At log.segs loc id timestamp payload

theorem Inv.nextId_lt {log : SegLog} (hinv : log.Inv) : log.nextId.toNat + 1 < 2 ^ 64 := by
  have hused := hinv.used
  have hcursor := hinv.cursor_le
  have hactive := hinv.active
  have hsegs := hinv.segs_le
  unfold headerSize segmentSize at *
  unfold maxSegments at hsegs
  omega

theorem Inv.nextId_succ {log : SegLog} (hinv : log.Inv)
    : (log.nextId + 1).toNat = log.nextId.toNat + 1 := by
  have hlt := hinv.nextId_lt
  rw [UInt64.toNat_add, UInt64.toNat_one]
  omega

theorem Inv.lt_nextId {log : SegLog} (hinv : log.Inv) {id : UInt64} {loc : EntryLoc}
    (h : log.idx[id]? = some loc)
    : id < log.nextId := by
  rcases hinv.interval with ⟨first, hfirst⟩
  have hmem : id ∈ log.idx := by
    rw [Std.TreeMap.mem_iff_isSome_getElem?, h]
    rfl
  rw [UInt64.lt_iff_toNat_lt]
  exact ((hfirst id).mp hmem).2

theorem Inv.nextId_fresh {log : SegLog} (hinv : log.Inv) : log.idx[log.nextId]? = none := by
  cases h : log.idx[log.nextId]? with
  | none => rfl
  | some loc =>
    have := hinv.lt_nextId h
    rw [UInt64.lt_iff_toNat_lt] at this
    omega

theorem read_eq_ok {log : SegLog} {id : UInt64} {loc : EntryLoc} {timestamp : UInt64}
    {payload : List UInt8} (hloc : log.idx[id]? = some loc)
    (hat : At log.segs loc id timestamp payload)
    : log.read id = .ok (id, timestamp, payload) := by
  rcases hat with ⟨seg, hseg, hlen, hfits, hread⟩
  rw [hlen] at hfits hread
  unfold read
  simp only [hloc, hseg]
  rw [readEntry_eq_some seg loc.offset id timestamp payload hfits hread]

theorem getRawEntrySlice_eq_ok {log : SegLog} {id : UInt64} {loc : EntryLoc} {timestamp : UInt64}
    {payload : List UInt8} (hloc : log.idx[id]? = some loc)
    (hat : At log.segs loc id timestamp payload)
    : log.getRawEntrySlice id = .ok (encodeEntry id timestamp payload) := by
  rcases hat with ⟨seg, hseg, hlen, hfits, hread⟩
  unfold getRawEntrySlice
  simp only [hloc, hseg]
  rw [Block.copyOut_eq_some hfits, hread]

theorem read_eq_err {log : SegLog} {id : UInt64} (h : log.idx[id]? = none)
    : log.read id = .err .entryNotFound := by
  unfold read
  simp only [h]

theorem getRawEntrySlice_eq_err {log : SegLog} {id : UInt64} (h : log.idx[id]? = none)
    : log.getRawEntrySlice id = .err "entry not found" := by
  unfold getRawEntrySlice
  simp only [h]

def entryAt (log : SegLog) (id : UInt64) : Option (UInt64 × List UInt8) :=
  match log.read id with
  | .ok (_, timestamp, payload) => some (timestamp, payload)
  | _ => none

theorem entryAt_eq_some {log : SegLog} {id : UInt64} {loc : EntryLoc} {timestamp : UInt64}
    {payload : List UInt8} (hloc : log.idx[id]? = some loc)
    (hat : At log.segs loc id timestamp payload)
    : log.entryAt id = some (timestamp, payload) := by
  unfold entryAt
  rw [read_eq_ok hloc hat]

theorem entryAt_eq_none {log : SegLog} {id : UInt64} (h : log.idx[id]? = none)
    : log.entryAt id = none := by
  unfold entryAt
  rw [read_eq_err h]

theorem Inv.exists_at {log : SegLog} (hinv : log.Inv) {id timestamp : UInt64} {payload : List UInt8}
    (h : log.entryAt id = some (timestamp, payload))
    : ∃ loc, log.idx[id]? = some loc ∧ At log.segs loc id timestamp payload := by
  cases hloc : log.idx[id]? with
  | none =>
    rw [entryAt_eq_none hloc] at h
    contradiction
  | some loc =>
    rcases hinv.stored id loc hloc with ⟨timestamp', payload', hat⟩
    rw [entryAt_eq_some hloc hat] at h
    cases h
    exact ⟨loc, rfl, hat⟩

theorem Inv.entryAt_frame {log log' : SegLog} (hinv : log.Inv) {id : UInt64}
    (hidx : log'.idx[id]? = log.idx[id]?)
    (hat : ∀ loc timestamp payload,
        log.idx[id]? = some loc
          → At log.segs loc id timestamp payload
          → At log'.segs loc id timestamp payload)
    : log'.entryAt id = log.entryAt id := by
  cases hloc : log.idx[id]? with
  | none =>
    rw [entryAt_eq_none hloc, entryAt_eq_none]
    rw [hidx, hloc]
  | some loc =>
    rcases hinv.stored id loc hloc with ⟨timestamp, payload, hstored⟩
    rw [entryAt_eq_some hloc hstored, entryAt_eq_some (hidx.trans hloc)]
    exact hat loc timestamp payload hloc hstored

theorem Inv.read_eq {log : SegLog} (hinv : log.Inv) (id : UInt64)
    : log.read id
        =
      match log.entryAt id with
      | some (timestamp, payload) => .ok (id, timestamp, payload)
      | none => .err .entryNotFound := by
  cases hloc : log.idx[id]? with
  | none => rw [entryAt_eq_none hloc, read_eq_err hloc]
  | some loc =>
    rcases hinv.stored id loc hloc with ⟨timestamp, payload, hstored⟩
    rw [entryAt_eq_some hloc hstored, read_eq_ok hloc hstored]

theorem Inv.getRawEntrySlice_eq {log : SegLog} (hinv : log.Inv) (id : UInt64)
    : log.getRawEntrySlice id
        =
      match log.entryAt id with
      | some (timestamp, payload) => .ok (encodeEntry id timestamp payload)
      | none => .err "entry not found" := by
  cases hloc : log.idx[id]? with
  | none => rw [entryAt_eq_none hloc, getRawEntrySlice_eq_err hloc]
  | some loc =>
    rcases hinv.stored id loc hloc with ⟨timestamp, payload, hstored⟩
    rw [entryAt_eq_some hloc hstored, getRawEntrySlice_eq_ok hloc hstored]

theorem Inv.mem_idx_iff {log : SegLog} (hinv : log.Inv) (id : UInt64)
    : id ∈ log.idx ↔ (log.entryAt id).isSome := by
  rw [Std.TreeMap.mem_iff_isSome_getElem?]
  cases hloc : log.idx[id]? with
  | none => simp [entryAt_eq_none hloc]
  | some loc =>
    rcases hinv.stored id loc hloc with ⟨timestamp, payload, hstored⟩
    simp [entryAt_eq_some hloc hstored]

end SegLog
end MemStream
