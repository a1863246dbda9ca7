import MemStream.Db.Lemmas.SegList.Basic

namespace MemStream
namespace SegList

def released (list : SegList) (ptrs : List Nat) : SegList :=
  { list with
    mem := fun ptr => if ptr ∈ ptrs then Block.zeroed else list.mem ptr
    freeSegs := list.freeSegs ++ ptrs }

theorem released_nil (list : SegList) : list.released [] = list := by
  simp [released]

theorem released_cons (list : SegList) (ptr : Nat) (ptrs : List Nat)
    : list.released (ptr :: ptrs) = (list.release ptr).released ptrs := by
  simp only [released, release, mk.injEq, List.append_assoc, List.cons_append, List.nil_append,
    and_true]
  funext ptr'
  by_cases h1 : ptr' ∈ ptrs
  . simp [h1]
  . by_cases h2 : ptr' = ptr
    . simp [h2]
    . simp [h1, h2]

theorem foldl_release (list : SegList) (ptrs : List Nat)
    : ptrs.foldl release list = list.released ptrs := by
  induction ptrs generalizing list with
  | nil => rw [List.foldl_nil, released_nil]
  | cons ptr ptrs ih => rw [List.foldl_cons, ih, released_cons]

theorem takeOut_eq {list : SegList} {ptrs : List Nat} (hnodup : ptrs.Nodup)
    (hitem : ∀ ptr ∈ ptrs, readItem (list.mem ptr) = some (list.item ptr))
    : list.takeOut ptrs = (.ok (ptrs.map list.item), list.released ptrs) := by
  induction ptrs generalizing list with
  | nil => rw [takeOut, released_nil, List.map_nil]
  | cons ptr ptrs ih =>
    rw [List.nodup_cons] at hnodup
    have hne {ptr' : Nat} (h : ptr' ∈ ptrs) : ptr' ≠ ptr := by
      intro heq
      rw [heq] at h
      exact hnodup.1 h
    have hkept {ptr' : Nat} (h : ptr' ∈ ptrs) : (list.release ptr).mem ptr' = list.mem ptr' := by
      simp [release, hne h]
    have hitem' : ∀ ptr' ∈ ptrs,
        readItem ((list.release ptr).mem ptr') = some ((list.release ptr).item ptr') := by
      intro ptr' hptr'
      unfold item
      rw [hkept hptr']
      exact hitem ptr' (by simp [hptr'])
    have hrest := ih hnodup.2 hitem'
    have hmap : ptrs.map (list.release ptr).item = ptrs.map list.item := by
      apply List.map_congr_left
      intro ptr' hptr'
      unfold item
      rw [hkept hptr']
    unfold takeOut
    rw [hitem ptr (by simp)]
    simp only [hrest, hmap, released_cons, Outcome.map_ok, List.map_cons]

def drained (list : SegList) (key : String) (targ keep : List Nat) : SegList :=
  released { list with written := list.written.insert key keep } targ

theorem drained_segsOf (list : SegList) (key key' : String) (targ keep : List Nat)
    : (list.drained key targ keep).segsOf key' = if key' = key then keep else list.segsOf key' := by
  apply segsOf_insert

structure Drains (list : SegList) (key : String) (targ keep : List Nat) : Prop where
  perm : (list.segsOf key).Perm (targ ++ keep)
  nodup : (targ ++ keep).Nodup

theorem Inv.drains {list : SegList} (hinv : list.Inv) {key : String} {targ keep : List Nat}
    (hperm : (list.segsOf key).Perm (targ ++ keep))
    : Drains list key targ keep :=
  ⟨hperm, hperm.nodup_iff.mp (hinv.segs_nodup key)⟩

theorem Drains.mem_targ {list : SegList} {key : String} {targ keep : List Nat}
    (h : Drains list key targ keep) {ptr : Nat} (hptr : ptr ∈ targ)
    : ptr ∈ list.segsOf key := by
  rw [h.perm.mem_iff]
  simp [hptr]

theorem Drains.mem_drained {list : SegList} {key : String} {targ keep : List Nat}
    (h : Drains list key targ keep) {key' : String} {ptr : Nat}
    (hptr : ptr ∈ (list.drained key targ keep).segsOf key')
    : ptr ∈ list.segsOf key' := by
  rw [drained_segsOf] at hptr
  split at hptr
  . next heq =>
    rw [heq, h.perm.mem_iff]
    simp [hptr]
  . exact hptr

theorem Drains.not_mem_targ {list : SegList} {key : String} {targ keep : List Nat}
    (h : Drains list key targ keep) (hinv : list.Inv) {key' : String} {ptr : Nat}
    (hptr : ptr ∈ (list.drained key targ keep).segsOf key')
    : ptr ∉ targ := by
  intro htarg
  have hkey := hinv.segs_apart key' key ptr (h.mem_drained hptr) (h.mem_targ htarg)
  rw [drained_segsOf, if_pos hkey] at hptr
  exact List.disjoint_of_nodup_append h.nodup htarg hptr

theorem Drains.drained_mem {list : SegList} {key : String} {targ keep : List Nat}
    (h : Drains list key targ keep) (hinv : list.Inv) {key' : String} {ptr : Nat}
    (hptr : ptr ∈ (list.drained key targ keep).segsOf key')
    : (list.drained key targ keep).mem ptr = list.mem ptr := by
  simp only [drained, released]
  rw [if_neg (h.not_mem_targ hinv hptr)]

theorem Inv.drained {list : SegList} (hinv : list.Inv) {key : String} {targ keep : List Nat}
    (hperm : (list.segsOf key).Perm (targ ++ keep))
    : Inv (list.drained key targ keep) := by
  have hdrains := hinv.drains hperm
  constructor
  case free_nodup =>
    simp only [SegList.drained, released]
    rw [List.nodup_append']
    refine ⟨hinv.free_nodup, hdrains.nodup.of_append_left, ?_⟩
    intro ptr hfree htarg
    exact hinv.free_apart key ptr (hdrains.mem_targ htarg) hfree
  case free_lt =>
    intro ptr hptr
    simp only [SegList.drained, released, List.mem_append] at hptr
    cases hptr with
    | inl h => exact hinv.free_lt ptr h
    | inr h => exact hinv.segs_lt key ptr (hdrains.mem_targ h)
  case free_zero =>
    intro ptr hptr
    simp only [SegList.drained, released, List.mem_append] at hptr ⊢
    split
    . rfl
    . next hnot =>
      cases hptr with
      | inl h => exact hinv.free_zero ptr h
      | inr h => exact absurd h hnot
  case segs_nodup =>
    intro key'
    rw [drained_segsOf]
    split
    . exact hdrains.nodup.of_append_right
    . exact hinv.segs_nodup key'
  case segs_lt =>
    intro key' ptr hptr
    exact hinv.segs_lt key' ptr (hdrains.mem_drained hptr)
  case segs_apart =>
    intro key' key'' ptr h h'
    exact hinv.segs_apart key' key'' ptr (hdrains.mem_drained h) (hdrains.mem_drained h')
  case free_apart =>
    intro key' ptr hptr
    simp only [SegList.drained, released, List.mem_append, not_or]
    exact ⟨hinv.free_apart key' ptr (hdrains.mem_drained hptr), hdrains.not_mem_targ hinv hptr⟩
  case items =>
    intro key' ptr hptr
    rw [hdrains.drained_mem hinv hptr]
    exact hinv.items key' ptr (hdrains.mem_drained hptr)
  case covered =>
    intro ptr hptr
    cases hinv.covered ptr hptr with
    | inl h =>
      left
      simp [SegList.drained, released, h]
    | inr h =>
      rcases h with ⟨key', h⟩
      by_cases htarg : ptr ∈ targ
      . left
        simp [SegList.drained, released, htarg]
      . right
        refine ⟨key', ?_⟩
        rw [drained_segsOf]
        split
        . next heq =>
          rw [heq, hperm.mem_iff, List.mem_append] at h
          cases h with
          | inl h => exact absurd h htarg
          | inr h => exact h
        . exact h

theorem Inv.abs_drained {list : SegList} (hinv : list.Inv) {key : String} {targ keep : List Nat}
    (hperm : (list.segsOf key).Perm (targ ++ keep))
    : (list.drained key targ keep).abs
        =
      ⟨list.abs.free + targ.length, list.abs.queues.set key (keep.map list.item)⟩ := by
  have hdrains := hinv.drains hperm
  have hsame {key' : String} {segs : List Nat}
      (hsegs : segs = (list.drained key targ keep).segsOf key')
      : segs.map (list.drained key targ keep).item = segs.map list.item := by
    apply List.map_congr_left
    intro ptr hptr
    rw [hsegs] at hptr
    unfold item
    rw [hdrains.drained_mem hinv hptr]
  simp only [abs, Pooled.mk.injEq]
  constructor
  . simp [SegList.drained, released]
  . funext key'
    have hlookup : (list.drained key targ keep).written.lookup key'
        = if key' = key then some keep else list.written.lookup key' := by
      apply Assoc.lookup_insert
    simp only [Queues.set, hlookup]
    split
    . next heq =>
      simp only [Option.map_some]
      rw [hsame]
      rw [drained_segsOf, if_pos heq]
    . next hne =>
      cases hkey : list.written.lookup key' with
      | none => rw [Option.map_none, Option.map_none]
      | some segs =>
        simp only [Option.map_some]
        rw [hsame]
        rw [drained_segsOf, if_neg hne]
        unfold segsOf
        rw [hkey]
        rfl

theorem segsOf_eq {list : SegList} {key : String} {segs : List Nat}
    (h : list.written.lookup key = some segs)
    : list.segsOf key = segs := by
  unfold segsOf
  rw [h]
  rfl

theorem Inv.pop_refines {list : SegList} (hinv : list.Inv) (key : String)
    : Inv (list.pop key).2 ∧ list.abs.pop key = ((list.pop key).1, (list.pop key).2.abs) := by
  unfold pop Pooled.pop
  rw [abs_get]
  cases hkey : list.written.lookup key with
  | none =>
    have : list.segsOf key = [] := by
      unfold segsOf
      rw [hkey]
      rfl
    rw [this]
    exact ⟨hinv, rfl⟩
  | some segs =>
    rw [segsOf_eq hkey]
    cases segs with
    | nil => exact ⟨hinv, rfl⟩
    | cons ptr segs =>
      have hperm : (list.segsOf key).Perm ([ptr] ++ segs) := by
        rw [segsOf_eq hkey]
        exact List.Perm.refl _
      have hmem : ptr ∈ list.segsOf key := by simp [segsOf_eq hkey]
      have hread := hinv.readItem_eq hmem
      have hdrained : list.drained key [ptr] segs
          = release { list with written := list.written.insert key segs } ptr := by
        rw [SegList.drained, released_cons, released_nil]
      dsimp
      rw [hread]
      dsimp
      rw [← hdrained, hinv.abs_drained hperm]
      exact ⟨hinv.drained hperm, rfl⟩

theorem Inv.popTimes_refines {list : SegList} (hinv : list.Inv) (key : String) (n : Nat)
    : Inv (list.popTimes key n).2
        ∧ list.abs.popTimes key n = ((list.popTimes key n).1, (list.popTimes key n).2.abs) := by
  induction n generalizing list with
  | zero => exact ⟨hinv, rfl⟩
  | succ n ih =>
    have ⟨hinv', hpop⟩ := hinv.pop_refines key
    unfold popTimes Pooled.popTimes
    rw [hpop]
    rcases hres : list.pop key with ⟨res, list'⟩
    rw [hres] at hinv'
    cases res with
    | ok data =>
      have ⟨hinv'', hrest⟩ := ih hinv'
      dsimp
      rw [hrest]
      exact ⟨hinv'', rfl⟩
    | err e => exact ⟨hinv', rfl⟩
    | panic => exact ⟨hinv', rfl⟩

theorem Inv.popCount_refines {list : SegList} (hinv : list.Inv) (key : String) (count : Nat)
    : Inv (list.popCount key count).2
        ∧ list.abs.popCount key count
            =
          ((list.popCount key count).1, (list.popCount key count).2.abs) := by
  unfold popCount Pooled.popCount
  split
  . exact ⟨hinv, rfl⟩
  . exact hinv.popTimes_refines key (count + 1)

theorem Inv.popRange_refines {list : SegList} (hinv : list.Inv) (key : String) (start stop : Nat)
    : Inv (list.popRange key start stop).2
        ∧ list.abs.popRange key start stop
            =
          ((list.popRange key start stop).1, (list.popRange key start stop).2.abs) := by
  unfold popRange Pooled.popRange Queues.popRange
  have hqueue : list.abs.queues key = (list.written.lookup key).map (·.map list.item) := by
    rfl
  rw [hqueue]
  cases hkey : list.written.lookup key with
  | none => exact ⟨hinv, rfl⟩
  | some segs =>
    simp only [Option.map_some, List.length_map]
    split
    . exact ⟨hinv, rfl⟩
    . next hstop =>
      split
      . exact ⟨hinv, rfl⟩
      . next hstart =>
        have hsplit : segs
            = segs.take start ++ ((segs.drop start).take (stop - start) ++ segs.drop stop) := by
          have hstop : segs.drop stop = (segs.drop start).drop (stop - start) := by
            rw [List.drop_drop, show start + (stop - start) = stop by omega]
          rw [hstop, List.take_append_drop, List.take_append_drop]
        have hperm : (list.segsOf key).Perm
            ((segs.drop start).take (stop - start) ++ (segs.take start ++ segs.drop stop)) := by
          rw [segsOf_eq hkey]
          conv => lhs; rw [hsplit]
          rw [← List.append_assoc, ← List.append_assoc]
          exact List.perm_append_comm.append_right _
        have hdrains := hinv.drains hperm
        have hitem : ∀ ptr ∈ (segs.drop start).take (stop - start),
            readItem (list.mem ptr) = some (list.item ptr) := by
          intro ptr hptr
          exact hinv.readItem_eq (hdrains.mem_targ hptr)
        have htake : takeOut
            { list with written := list.written.insert key (segs.take start ++ segs.drop stop) }
            ((segs.drop start).take (stop - start)) = _ :=
          takeOut_eq hdrains.nodup.of_append_left hitem
        rw [htake]
        refine ⟨hinv.drained hperm, ?_⟩
        have habs := hinv.abs_drained hperm
        unfold SegList.drained at habs
        dsimp
        rw [habs]
        simp only [List.map_take, List.map_drop, List.map_append, List.length_take, List.length_drop,
          List.length_map]
        rfl

theorem Inv.len_refines {list : SegList} (hinv : list.Inv) (key : String)
    : Inv (list.len key).2 ∧ list.abs.len key = ((list.len key).1, (list.len key).2.abs) := by
  unfold len Pooled.len Queues.len
  rw [abs_get]
  cases hkey : list.written.lookup key with
  | none =>
    have hsegs : list.segsOf key = [] := by
      unfold segsOf
      rw [hkey]
      rfl
    have hperm : (list.segsOf key).Perm ([] ++ []) := by
      rw [hsegs]
      exact List.Perm.refl _
    have hdrained : list.drained key [] [] = { list with written := list.written.insert key [] } := by
      rw [SegList.drained, released_nil]
    rw [hsegs, ← hdrained]
    refine ⟨hinv.drained hperm, ?_⟩
    rw [hinv.abs_drained hperm]
    rfl
  | some segs =>
    refine ⟨hinv, ?_⟩
    rw [segsOf_eq hkey]
    simp only [List.length_map, Prod.mk.injEq, true_and]
    have hsame : list.abs.queues.set key (segs.map list.item) = list.abs.queues := by
      funext key'
      simp only [Queues.set]
      split
      . next heq =>
        rw [heq]
        simp [abs, hkey]
      . rfl
    rw [hsame]

theorem Inv.flush_refines {list : SegList} (hinv : list.Inv) (key : String)
    : Inv (list.flush key).2 ∧ list.abs.flush key = ((list.flush key).1, (list.flush key).2.abs) := by
  unfold flush Pooled.flush Queues.flush
  have hqueue : list.abs.queues key = (list.written.lookup key).map (·.map list.item) := by
    rfl
  rw [hqueue, abs_get]
  cases hkey : list.written.lookup key with
  | none => exact ⟨hinv, rfl⟩
  | some segs =>
    have hperm : (list.segsOf key).Perm (segs ++ []) := by
      rw [segsOf_eq hkey, List.append_nil]
    have hdrained : list.drained key segs []
        = { segs.foldl release list with
            written := (segs.foldl release list).written.insert key [] } := by
      rw [foldl_release]
      rfl
    dsimp
    rw [← hdrained, hinv.abs_drained hperm, segsOf_eq hkey]
    simp only [List.length_map, List.map_nil]
    exact ⟨hinv.drained hperm, trivial⟩

end SegList
end MemStream
