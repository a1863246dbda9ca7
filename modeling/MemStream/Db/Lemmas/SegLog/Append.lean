import MemStream.Db.Spec.Log
import MemStream.Db.Lemmas.SegLog.Basic

namespace MemStream
namespace SegLog

def space (log : SegLog) : LogSpace :=
  ⟨log.segs.length, log.activeSeg, log.writeCursor⟩

theorem rollOver_frame (log : SegLog) (alloc : Bool) (size : Nat)
    : ∃ extra cursor active,
        (log.rollOver alloc size).2
          =
        { log with segs := log.segs ++ extra, writeCursor := cursor, activeSeg := active } := by
  generalize hroll : log.rollOver alloc size = res
  unfold rollOver allocateSeg at hroll
  dsimp at hroll
  split at hroll
  . split at hroll
    . split at hroll
      . exact ⟨[], 0, log.activeSeg + 1, by simp [← hroll]⟩
      . split at hroll
        . exact ⟨[Block.zeroed], 0, log.activeSeg + 1, by simp [← hroll]⟩
        . exact ⟨[], 0, log.activeSeg + 1, by simp [← hroll]⟩
    . exact ⟨[], 0, log.activeSeg + 1, by simp [← hroll]⟩
  . exact ⟨[], log.writeCursor, log.activeSeg, by simp [← hroll]⟩

theorem rollOver_space (log : SegLog) (alloc : Bool) (size : Nat)
    : log.space.rollOver alloc size
        =
      ((log.rollOver alloc size).1, (log.rollOver alloc size).2.space) := by
  unfold LogSpace.rollOver rollOver allocateSeg space
  dsimp
  split
  . split
    . next hlt =>
      have : ¬ log.activeSeg + 1 ≥ log.segs.length := by omega
      simp only [this, ↓reduceIte]
    . next hge =>
      have : log.activeSeg + 1 ≥ log.segs.length := by omega
      simp only [this, ↓reduceIte]
      split
      . rfl
      . split
        . simp
        . rfl
  . rfl

theorem Inv.nextSeg {log : SegLog} (hinv : log.Inv) (extra : List Segment)
    (hactive : log.activeSeg < log.segs.length) (hsegs : (log.segs ++ extra).length ≤ maxSegments)
    : Inv { log with segs := log.segs ++ extra, writeCursor := 0, activeSeg := log.activeSeg + 1 } where
  unlocked := hinv.unlocked
  segs_le := hsegs
  active := by
    simp only [List.length_append, and_true]
    omega
  cursor_le := by simp
  next_pos := hinv.next_pos
  used := by
    have hused := hinv.used
    have hcursor := hinv.cursor_le
    simp only [Nat.add_mul]
    omega
  interval := hinv.interval
  count := hinv.count
  before := by
    intro id loc hloc
    have := hinv.before id loc hloc
    unfold Before at *
    simp only at *
    omega
  order := hinv.order
  stored := by
    intro id loc hloc
    rcases hinv.stored id loc hloc with ⟨timestamp, payload, hat⟩
    exact ⟨timestamp, payload, hat.append_segs extra⟩

theorem Inv.rollOver {log : SegLog} (hinv : log.Inv) (alloc : Bool) {size : Nat}
    (hsize : size ≤ segmentSize)
    : Inv (log.rollOver alloc size).2 := by
  generalize hroll : log.rollOver alloc size = res
  unfold SegLog.rollOver allocateSeg at hroll
  dsimp at hroll
  split at hroll
  . have hactive : log.activeSeg < log.segs.length := by
      cases hinv.active with
      | inl h => exact h
      | inr h => omega
    have hold : Inv { log with writeCursor := 0, activeSeg := log.activeSeg + 1 } := by
      have := hinv.nextSeg [] hactive (by simpa using hinv.segs_le)
      simpa using this
    split at hroll
    . split at hroll
      . rw [← hroll]
        exact hold
      . split at hroll
        . rw [← hroll]
          apply hinv.nextSeg [Block.zeroed] hactive
          simp only [List.length_append, List.length_singleton]
          omega
        . rw [← hroll]
          exact hold
    . rw [← hroll]
      exact hold
  . rw [← hroll]
    exact hinv

theorem rollOver_fits (log : SegLog) (alloc : Bool) {size : Nat} (hsize : size ≤ segmentSize)
    : (log.rollOver alloc size).2.writeCursor + size ≤ segmentSize := by
  generalize hroll : log.rollOver alloc size = res
  unfold SegLog.rollOver allocateSeg at hroll
  dsimp at hroll
  split at hroll
  . split at hroll
    . split at hroll
      . rw [← hroll]
        simpa using hsize
      . split at hroll
        . rw [← hroll]
          simpa using hsize
        . rw [← hroll]
          simpa using hsize
    . rw [← hroll]
      simpa using hsize
  . rw [← hroll]
    dsimp
    omega

theorem Inv.rollOver_entryAt {log : SegLog} (hinv : log.Inv) (alloc : Bool) (size : Nat) (id : UInt64)
    : (log.rollOver alloc size).2.entryAt id = log.entryAt id := by
  rcases rollOver_frame log alloc size with ⟨extra, cursor, active, hframe⟩
  apply hinv.entryAt_frame
  . rw [hframe]
  . intro loc timestamp payload _ hat
    rw [hframe]
    exact hat.append_segs extra

def placed (log : SegLog) (seg : Segment) (timestamp : UInt64) (payload : List UInt8) : SegLog :=
  { log with
    segs := log.segs.set log.activeSeg
      (seg.write log.writeCursor (encodeEntry log.nextId timestamp payload))
    idx := log.idx.insert log.nextId
      ⟨log.activeSeg, log.writeCursor, headerSize + payload.length⟩
    writeCursor := log.writeCursor + (headerSize + payload.length)
    nextId := log.nextId + 1
    entryCount := log.entryCount + 1 }

theorem Inv.place_eq_ok {log : SegLog} (hinv : log.Inv) (timestamp : UInt64)
    {payload : List UInt8} (hfits : log.writeCursor + (headerSize + payload.length) ≤ segmentSize)
    {seg : Segment} (hseg : log.segs[log.activeSeg]? = some seg)
    : log.place timestamp payload = (.ok log.nextId, log.placed seg timestamp payload) := by
  unfold place
  rw [if_neg (by simp [hinv.unlocked])]
  simp only [hseg]
  rw [writeEntry_eq_write seg _ _ _ _ hfits]
  rfl

theorem Inv.place_eq_panic {log : SegLog} (hinv : log.Inv) (timestamp : UInt64)
    (payload : List UInt8) (hseg : log.segs[log.activeSeg]? = none)
    : log.place timestamp payload = (.panic, log) := by
  unfold place
  rw [if_neg (by simp [hinv.unlocked])]
  simp only [hseg]

theorem placed_at (log : SegLog) {seg : Segment} (hseg : log.segs[log.activeSeg]? = some seg)
    (timestamp : UInt64) {payload : List UInt8}
    (hfits : log.writeCursor + (headerSize + payload.length) ≤ segmentSize)
    : At (log.placed seg timestamp payload).segs
        ⟨log.activeSeg, log.writeCursor, headerSize + payload.length⟩
        log.nextId timestamp payload := by
  refine ⟨seg.write log.writeCursor (encodeEntry log.nextId timestamp payload), ?_, rfl, hfits, ?_⟩
  . unfold placed
    rw [List.getElem?_set_self]
    exact (List.getElem?_eq_some_iff.mp hseg).1
  . rw [← encodeEntry_length log.nextId timestamp payload, Block.read_write_self]

theorem placed_idx (log : SegLog) (seg : Segment) (timestamp : UInt64) (payload : List UInt8)
    (id : UInt64)
    : (log.placed seg timestamp payload).idx[id]?
        =
      if id = log.nextId then
        some ⟨log.activeSeg, log.writeCursor, headerSize + payload.length⟩
      else
        log.idx[id]? := by
  unfold placed
  apply OrdMap.getElem?_insert

theorem Inv.placed {log : SegLog} (hinv : log.Inv) (timestamp : UInt64) {payload : List UInt8}
    (hfits : log.writeCursor + (headerSize + payload.length) ≤ segmentSize) {seg : Segment}
    (hseg : log.segs[log.activeSeg]? = some seg)
    : Inv (log.placed seg timestamp payload) where
  unlocked := hinv.unlocked
  segs_le := by
    simp only [SegLog.placed, List.length_set]
    exact hinv.segs_le
  active := by
    left
    simp only [SegLog.placed, List.length_set]
    exact (List.getElem?_eq_some_iff.mp hseg).1
  cursor_le := hfits
  next_pos := by
    simp only [SegLog.placed, hinv.nextId_succ]
    omega
  used := by
    have hused := hinv.used
    simp only [SegLog.placed, hinv.nextId_succ, Nat.mul_add]
    omega
  interval := by
    rcases hinv.interval with ⟨first, hfirst⟩
    -- an empty index may start anywhere, also behind the entry that is placed now
    refine ⟨min first log.nextId.toNat, fun id => ?_⟩
    have heq : id = log.nextId ↔ id.toNat = log.nextId.toNat := UInt64.toNat_inj.symm
    have hmem := hfirst id
    simp only [Std.TreeMap.mem_iff_isSome_getElem?] at hmem ⊢
    rw [placed_idx]
    simp only [SegLog.placed, hinv.nextId_succ]
    split
    . next h =>
      rw [heq] at h
      simp only [Option.isSome_some, true_iff]
      omega
    . next h =>
      rw [heq] at h
      rw [hmem]
      omega
  count := by
    have hfresh : log.nextId ∉ log.idx := by
      rw [Std.TreeMap.mem_iff_isSome_getElem?, hinv.nextId_fresh]
      simp
    simp only [SegLog.placed, hinv.count]
    rw [Std.TreeMap.size_insert]
    simp [hfresh]
  before := by
    intro id loc hloc
    rw [placed_idx] at hloc
    split at hloc
    . injection hloc with hloc
      right
      rw [← hloc]
      exact ⟨rfl, Nat.le_refl _⟩
    . have := hinv.before id loc hloc
      unfold Before at *
      simp only [SegLog.placed] at *
      omega
  order := by
    intro id loc id' loc' hloc hloc' hlt
    rw [placed_idx] at hloc hloc'
    split at hloc'
    . next heq' =>
      injection hloc' with hloc'
      split at hloc
      . next heq =>
        rw [heq, heq'] at hlt
        simp at hlt
      . rw [← hloc']
        exact hinv.before id loc hloc
    . split at hloc
      . next heq =>
        have := hinv.lt_nextId hloc'
        rw [heq] at hlt
        rw [UInt64.lt_iff_toNat_lt] at *
        omega
      . exact hinv.order id loc id' loc' hloc hloc' hlt
  stored := by
    intro id loc hloc
    rw [placed_idx] at hloc
    split at hloc
    . next heq =>
      injection hloc with hloc
      rw [← hloc, heq]
      exact ⟨timestamp, payload, placed_at log hseg timestamp hfits⟩
    . rcases hinv.stored id loc hloc with ⟨timestamp', payload', hat⟩
      exact ⟨timestamp', payload', hat.write_behind hseg (hinv.before id loc hloc) _⟩

theorem Inv.placed_entryAt {log : SegLog} (hinv : log.Inv) (timestamp : UInt64)
    {payload : List UInt8} (hfits : log.writeCursor + (headerSize + payload.length) ≤ segmentSize)
    {seg : Segment} (hseg : log.segs[log.activeSeg]? = some seg) (id : UInt64)
    : (log.placed seg timestamp payload).entryAt id
        =
      if id = log.nextId then some (timestamp, payload) else log.entryAt id := by
  split
  . next heq =>
    rw [heq]
    apply entryAt_eq_some
    . rw [placed_idx, if_pos rfl]
    . exact placed_at log hseg timestamp hfits
  . next hne =>
    apply hinv.entryAt_frame
    . rw [placed_idx, if_neg hne]
    . intro loc timestamp' payload' hloc hat
      exact hat.write_behind hseg (hinv.before id loc hloc) _

def abs (log : SegLog) : LogSpec where
  space := log.space
  nextId := log.nextId
  live := log.entryAt

theorem Inv.place_refines {log : SegLog} (hinv : log.Inv) (timestamp : UInt64)
    {payload : List UInt8} (hfits : log.writeCursor + (headerSize + payload.length) ≤ segmentSize)
    : Inv (log.place timestamp payload).2
        ∧ log.abs.enter timestamp payload (log.space.take (headerSize + payload.length))
            =
          ((log.place timestamp payload).1, (log.place timestamp payload).2.abs) := by
  unfold LogSpace.take space
  cases hseg : log.segs[log.activeSeg]? with
  | none =>
    rw [hinv.place_eq_panic timestamp payload hseg]
    rw [if_neg (by simpa using hseg)]
    exact ⟨hinv, rfl⟩
  | some seg =>
    rw [hinv.place_eq_ok timestamp hfits hseg]
    rw [if_pos (List.getElem?_eq_some_iff.mp hseg).1]
    refine ⟨hinv.placed timestamp hfits hseg, ?_⟩
    simp only [LogSpec.enter, abs, Prod.mk.injEq, LogSpec.mk.injEq, true_and]
    refine ⟨?_, rfl, ?_⟩
    . simp [SegLog.placed, SegLog.space]
    . funext id
      rw [hinv.placed_entryAt timestamp hfits hseg id]
      rfl

theorem Inv.append_refines {log : SegLog} (hinv : log.Inv) (alloc : Bool) (timestamp : UInt64)
    (payload : List UInt8)
    : Inv (log.append alloc timestamp payload).2
        ∧ log.abs.append alloc timestamp payload
            =
          ((log.append alloc timestamp payload).1, (log.append alloc timestamp payload).2.abs) := by
  unfold SegLog.append LogSpec.append LogSpace.claim
  dsimp
  split
  . exact ⟨hinv, rfl⟩
  . next hsize =>
    have hsize : headerSize + payload.length ≤ segmentSize := by omega
    have hroll := hinv.rollOver alloc hsize
    have hfits := rollOver_fits log alloc hsize
    have hentry : (log.rollOver alloc (headerSize + payload.length)).2.entryAt = log.entryAt := by
      funext id
      apply hinv.rollOver_entryAt
    have hnext : (log.rollOver alloc (headerSize + payload.length)).2.nextId = log.nextId := by
      rcases rollOver_frame log alloc (headerSize + payload.length) with ⟨_, _, _, hframe⟩
      rw [hframe]
    rw [show log.abs.space = log.space by rfl, rollOver_space]
    rcases hres : log.rollOver alloc (headerSize + payload.length) with ⟨res, log'⟩
    simp only [hres] at hroll hfits hentry hnext
    have habs : log'.abs = { log.abs with space := log'.space } := by
      simp only [abs, hnext, hentry]
    cases res with
    | ok =>
      have hplace := hroll.place_refines timestamp hfits
      rw [habs] at hplace
      exact hplace
    | err e =>
      dsimp
      rw [habs]
      exact ⟨hroll, rfl⟩
    | panic =>
      dsimp
      rw [habs]
      exact ⟨hroll, rfl⟩

end SegLog
end MemStream
