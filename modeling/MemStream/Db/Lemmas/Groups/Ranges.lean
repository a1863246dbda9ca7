import MemStream.Db.Lemmas.Groups.Manager

namespace MemStream

def ListsRange (log : SegLog) (start stop : UInt64)
    (res : Outcome GroupError (List (UInt64 × UInt64 × List UInt8))) : Prop :=
  ∃ entries,
    res = .ok entries
      ∧ entries.Pairwise (fun e e' => e.1 < e'.1)
      ∧ ∀ id timestamp payload,
          (id, timestamp, payload) ∈ entries
            ↔ log.entryAt id = some (timestamp, payload) ∧ start ≤ id ∧ id ≤ stop

structure RangeRead (log : SegLog) (start stop : UInt64)
    (res : Outcome GroupError (List (UInt64 × UInt64 × List UInt8))) : Prop where
  listed : ListsRange log start stop res
  noUnderflow : (stop - start).toNat + start.toNat = stop.toNat
  noOverflow : (stop - start + 1).toNat = (stop - start).toNat + 1
  fits : 40 * (stop - start + 1).toNat ≤ 2 ^ 63 - 1

theorem listsRange_readRange {log : SegLog} (hinv : log.Inv) {start stop : UInt64} (h : start ≤ stop)
    : ListsRange log start stop ((log.readRange start stop).mapErr .logError) := by
  rcases hinv.readRange_spec h with ⟨entries, hread, hsorted, hmem⟩
  refine ⟨entries, ?_, hsorted, hmem⟩
  rw [hread, Outcome.mapErr_ok]

theorem not_listsRange_panic (log : SegLog) (start stop : UInt64)
    : ¬ListsRange log start stop .panic := by
  rintro ⟨entries, hres, _⟩
  contradiction

theorem sub_noUnderflow_iff (start stop : UInt64)
    : (stop - start).toNat + start.toNat = stop.toNat ↔ start ≤ stop := by
  have hstart := start.toNat_lt
  have hstop := stop.toNat_lt
  rw [UInt64.toNat_sub, UInt64.le_iff_toNat_le]
  omega

theorem rangeLen_toNat (start stop : UInt64)
    : (stop - start + 1).toNat = (2 ^ 64 - start.toNat + stop.toNat + 1) % 2 ^ 64 := by
  rw [UInt64.toNat_add, UInt64.toNat_sub, UInt64.toNat_one]
  omega

namespace Group

variable {buildKey : String → UInt64 → UInt64} {name : String} {grp : Group}

theorem readRange_of_too_long (now : Nat → Nat) {start stop : UInt64}
    (hcap : 2 ^ 63 - 1 < 40 * (stop - start + 1).toNat)
    : (grp.readRange buildKey now start stop).1 = .panic := by
  unfold readRange
  dsimp only
  rw [if_pos hcap]

theorem readRange_backwards (now : Nat → Nat) {start stop : UInt64} (h : stop < start)
    : (grp.readRange buildKey now start stop).1
        =
      if stop.toNat + 1 = start.toNat then .ok [] else .panic := by
  have hstart := start.toNat_lt
  have hlen := rangeLen_toNat start stop
  have hnone : stop.toNat + 1 - start.toNat = 0 := by
    rw [UInt64.lt_iff_toNat_lt] at h
    omega
  rw [UInt64.lt_iff_toNat_lt] at h
  split
  . next hnext =>
    have hzero : (stop - start + 1).toNat = 0 := by omega
    unfold readRange
    dsimp only
    rw [if_neg (by omega), hnone]
    unfold readCached
    dsimp only
    rw [if_pos (by rw [hzero, List.length_nil])]
  . next hnext =>
    have hpos : 0 < (stop - start + 1).toNat := by omega
    by_cases hcap : 2 ^ 63 - 1 < 40 * (stop - start + 1).toNat
    . exact readRange_of_too_long now hcap
    . unfold readRange
      dsimp only
      rw [if_neg hcap, hnone]
      unfold readCached
      dsimp only
      rw [if_neg (by rw [List.length_nil]; omega)]
      dsimp only
      unfold SegLog.readRange
      rw [if_pos (UInt64.lt_iff_toNat_lt.mpr h), Outcome.mapErr_panic]

theorem Inv.listsRange_iff (h : Inv buildKey name grp) (hinj : Function.Injective (buildKey name))
    (now : Nat → Nat) (start stop : UInt64)
    : ListsRange grp.log start stop (grp.readRange buildKey now start stop).1
        ↔
      start ≤ stop ∧ 40 * (stop - start + 1).toNat ≤ 2 ^ 63 - 1 ∨ stop.toNat + 1 = start.toNat := by
  by_cases hle : start ≤ stop
  . have hnext : ¬stop.toNat + 1 = start.toNat := by
      rw [UInt64.le_iff_toNat_le] at hle
      omega
    simp only [hle, hnext, true_and, or_false]
    constructor
    . intro hlisted
      apply Nat.le_of_not_lt
      intro hcap
      rw [readRange_of_too_long now hcap] at hlisted
      exact not_listsRange_panic grp.log start stop hlisted
    . intro hcap
      rw [h.readRange_eq hinj now hle hcap]
      exact listsRange_readRange h.log hle
  . have hlt := UInt64.not_le.mp hle
    simp only [hle, false_and, false_or]
    rw [readRange_backwards now hlt]
    split
    . next hnext =>
      simp only [hnext, iff_true]
      refine ⟨[], rfl, List.Pairwise.nil, ?_⟩
      intro id timestamp payload
      simp only [List.not_mem_nil, false_iff, not_and]
      intro _ hstart hstop
      exact hle (UInt64.le_trans hstart hstop)
    . next hnext =>
      simp only [hnext, iff_false]
      apply not_listsRange_panic

theorem Inv.rangeRead_iff (h : Inv buildKey name grp) (hinj : Function.Injective (buildKey name))
    (now : Nat → Nat) (start stop : UInt64)
    : RangeRead grp.log start stop (grp.readRange buildKey now start stop).1
        ↔
      start ≤ stop ∧ 40 * (stop.toNat - start.toNat + 1) ≤ 2 ^ 63 - 1 := by
  have hstop := stop.toNat_lt
  have hlen := rangeLen_toNat start stop
  constructor
  . intro hread
    have hle := (sub_noUnderflow_iff start stop).mp hread.noUnderflow
    have hsub := hread.noUnderflow
    have hadd := hread.noOverflow
    have hfits := hread.fits
    exact ⟨hle, by omega⟩
  . rintro ⟨hle, hcap⟩
    have hsub := (sub_noUnderflow_iff start stop).mpr hle
    rw [UInt64.le_iff_toNat_le] at hle
    have hexact : (stop - start + 1).toNat = stop.toNat - start.toNat + 1 := by omega
    refine ⟨?_, hsub, by omega, by omega⟩
    rw [h.listsRange_iff hinj, UInt64.le_iff_toNat_le]
    exact .inl ⟨hle, by omega⟩

end Group

namespace GroupManager

/-- A range is read as it should be if and only if it is not backwards and short enough for its entries to
be allocated. What comes back is right in two more cases, in which the length wraps around to 0: the range
that ends right before its start, and all ids. -/
theorem readRange_rangeRead_iff (buildKey : String → UInt64 → UInt64) (ops : List Op) (group : String)
    (hinj : Function.Injective (buildKey group)) (grp : Group)
    (hgrp : (run buildKey ops).groups.lookup group = some grp) (now : Nat → Nat) (start stop : UInt64)
    : (RangeRead grp.log start stop ((run buildKey ops).readRange buildKey now group start stop).1
          ↔ start ≤ stop ∧ 40 * (stop.toNat - start.toNat + 1) ≤ 2 ^ 63 - 1)
        ∧ (ListsRange grp.log start stop
              ((run buildKey ops).readRange buildKey now group start stop).1
            ↔ start ≤ stop ∧ 40 * (stop - start + 1).toNat ≤ 2 ^ 63 - 1
                ∨ stop.toNat + 1 = start.toNat) := by
  have hinv := inv_run buildKey ops group grp hgrp
  unfold readRange onGroup
  rw [hgrp]
  exact ⟨hinv.rangeRead_iff hinj now start stop, hinv.listsRange_iff hinj now start stop⟩

theorem rangeRead_one_entry
    : ∃ grp,
        let gm := run (fun _ id => id) [.createGroup (fun _ => true) "g", .add true 0 "g" 5 [7]]
        gm.groups.lookup "g" = some grp
          ∧ RangeRead grp.log 1 2 (gm.readRange (fun _ id => id) (fun _ => 1) "g" 1 2).1 := by
  have h := readRange_rangeRead_iff (fun _ id => id)
    [.createGroup (fun _ => true) "g", .add true 0 "g" 5 [7]] "g" (fun _ _ h => h) _ rfl
    (fun _ => 1) 1 2
  exact ⟨_, rfl, h.1.mpr (by decide)⟩

theorem readRange_backwards_panics
    : ∃ grp,
        let gm := run (fun _ id => id) [.createGroup (fun _ => true) "g"]
        gm.groups.lookup "g" = some grp
          ∧ (gm.readRange (fun _ id => id) (fun _ => 0) "g" 2 0).1 = .panic
          ∧ ¬RangeRead grp.log 2 0 (gm.readRange (fun _ id => id) (fun _ => 0) "g" 2 0).1 := by
  have hpanic : ((run (fun _ id => id) [.createGroup (fun _ => true) "g"]).readRange
      (fun _ id => id) (fun _ => 0) "g" 2 0).1 = .panic := by
    rfl
  refine ⟨_, rfl, hpanic, ?_⟩
  intro h
  rw [hpanic] at h
  exact not_listsRange_panic _ _ _ h.listed

end GroupManager
end MemStream
