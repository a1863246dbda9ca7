import MemStream.Db.Lemmas.SegList.OneKey

namespace MemStream

namespace SegList

def exec (list : SegList) : Call → Answer × SegList
  | .push alloc key payload => (list.push alloc key payload).map .done id
  | .pushRange alloc key items => (list.pushRange alloc key items).map .done id
  | .pop key => (list.pop key).map .item id
  | .popCount key count => (list.popCount key count).map .items id
  | .popRange key start stop => (list.popRange key start stop).map .items id
  | .len key => (list.len key).map .length id
  | .flush key => (list.flush key).map .done id

def Call.ChecksFor (key : String) : Call → Prop
  | .popRange key' _ _ | .flush key' => key' = key
  | _ => False

/-- The calls have the same results whether `len` is called before them or not. -/
def SameAnswers (list : SegList) (key : String) (calls : List Call) : Prop :=
  (Machine.run exec (list.len key).2 calls).1 = (Machine.run exec list calls).1

def PresentAtChecks (key : String) : SegList → List Call → Prop
  | _, [] => True
  | list, c :: calls =>
    (c.ChecksFor key → list.written.lookup key ≠ none) ∧ PresentAtChecks key (list.call c) calls

theorem exec_snd (list : SegList) (c : Call) : (list.exec c).2 = list.call c := by
  cases c with
  | push alloc key payload => rfl
  | pushRange alloc key items => rfl
  | pop key => rfl
  | popCount key count => rfl
  | popRange key start stop => rfl
  | len key => rfl
  | flush key => rfl

end SegList

namespace Queues

def touch (q : Queues) (key : String) : Queues :=
  q.set key (q.get key)

theorem touch_apply (q : Queues) (key key' : String)
    : q.touch key key' = if key' = key then some (q.get key) else q key' := by
  rfl

theorem keeps_touch (key key' : String) : Keeps (fun q => q.touch key) key' where
  get := by
    intro q
    unfold get
    rw [touch_apply]
    split
    . next heq =>
      rw [heq]
      rfl
    . rfl
  set := by
    intro q items
    funext key''
    unfold touch get set
    by_cases hkey : key'' = key
    . by_cases hkey' : key = key'
      . simp [hkey, hkey']
      . simp [hkey, hkey']
    . simp [hkey]

theorem touch_of_ne (q : Queues) {key key' : String} (h : key' ≠ key)
    : q.touch key key' = q key' := by
  rw [touch_apply, if_neg h]

theorem touch_of_present {q : Queues} {key : String} (h : q key ≠ none) : q.touch key = q := by
  funext key'
  by_cases heq : key' = key
  . rw [touch_apply, if_pos heq, heq]
    unfold get
    cases hqueue : q key with
    | none => exact absurd hqueue h
    | some items => rfl
  . exact q.touch_of_ne heq

end Queues

namespace Pooled

def exec (p : Pooled) : SegList.Call → SegList.Answer × Pooled
  | .push alloc key payload => (p.push alloc key payload).map .done id
  | .pushRange alloc key items => (p.pushRange alloc key items).map .done id
  | .pop key => (p.pop key).map .item id
  | .popCount key count => (p.popCount key count).map .items id
  | .popRange key start stop => (p.popRange key start stop).map .items id
  | .len key => (p.len key).map .length id
  | .flush key => (p.flush key).map .done id

def touch (p : Pooled) (key : String) : Pooled :=
  p.mapQueues fun q => q.touch key

theorem exec_mapQueues (p : Pooled) {f : Queues → Queues} {c : SegList.Call}
    (h : Queues.Keeps f c.key) (hqueue : c.ChecksFor c.key → f p.queues c.key = p.queues c.key)
    : (p.mapQueues f).exec c = ((p.exec c).1, (p.exec c).2.mapQueues f) := by
  cases c with
  | push alloc key payload => exact congrArg (Prod.map _ id) (push_mapQueues p h alloc payload)
  | pushRange alloc key items => exact congrArg (Prod.map _ id) (pushRange_mapQueues p h alloc items)
  | pop key => exact congrArg (Prod.map _ id) (pop_mapQueues p h)
  | popCount key count => exact congrArg (Prod.map _ id) (popCount_mapQueues p h count)
  | popRange key start stop =>
    exact congrArg (Prod.map _ id) (popRange_mapQueues p h (hqueue rfl) start stop)
  | len key => exact congrArg (Prod.map _ id) (len_mapQueues p h)
  | flush key => exact congrArg (Prod.map _ id) (flush_mapQueues p h (hqueue rfl))

theorem exec_touch {p : Pooled} {key : String} {c : SegList.Call}
    (h : c.ChecksFor key → p.queues key ≠ none)
    : (p.touch key).exec c = ((p.exec c).1, (p.exec c).2.touch key) := by
  apply exec_mapQueues
  . apply Queues.keeps_touch
  . intro hchecks
    by_cases heq : c.key = key
    . rw [heq] at hchecks
      rw [Queues.touch_of_present (h hchecks)]
    . exact p.queues.touch_of_ne heq

theorem popRange_eq_keyNotFound {p : Pooled} {key : String} {start stop : Nat}
    : (p.popRange key start stop).1 = .err .keyNotFound ↔ p.queues key = none := by
  unfold popRange Queues.popRange
  cases p.queues key with
  | none => simp
  | some items =>
    by_cases hstop : stop > items.length
    . simp [hstop]
    . by_cases hstart : start > stop
      . simp [hstop, hstart]
      . simp [hstop, hstart]

theorem flush_eq_keyNotFound {p : Pooled} {key : String}
    : (p.flush key).1 = .err .keyNotFound ↔ p.queues key = none := by
  unfold flush Queues.flush
  cases p.queues key with
  | none => simp
  | some items => simp

theorem exec_touch_fst_ne {p : Pooled} {key : String} {c : SegList.Call} (hchecks : c.ChecksFor key)
    (hmissing : p.queues key = none)
    : ((p.touch key).exec c).1 ≠ (p.exec c).1 := by
  have hpresent : (p.touch key).queues key ≠ none := by
    show p.queues.touch key key ≠ none
    rw [Queues.touch_apply, if_pos rfl]
    exact Option.some_ne_none _
  intro heq
  apply hpresent
  cases c with
  | popRange key' start stop =>
    cases hchecks
    have hres : ((p.touch key).popRange key start stop).1 = (p.popRange key start stop).1 :=
      SegList.Answer.items.inj heq
    rw [popRange_eq_keyNotFound.mpr hmissing] at hres
    exact popRange_eq_keyNotFound.mp hres
  | flush key' =>
    cases hchecks
    have hres : ((p.touch key).flush key).1 = (p.flush key).1 := SegList.Answer.done.inj heq
    rw [flush_eq_keyNotFound.mpr hmissing] at hres
    exact flush_eq_keyNotFound.mp hres
  | push alloc key' payload => exact hchecks.elim
  | pushRange alloc key' items => exact hchecks.elim
  | pop key' => exact hchecks.elim
  | popCount key' count => exact hchecks.elim
  | len key' => exact hchecks.elim

end Pooled

namespace SegList

variable {list list' : SegList} {key : String}

theorem exec_of_refines {α : Type} {g : α → Answer} {res : α × SegList} {p : α × Pooled}
    (h : Inv res.2 ∧ p = (res.1, res.2.abs))
    : Inv (res.map g id).2 ∧ p.map g id = ((res.map g id).1, (res.map g id).2.abs) := by
  rcases h with ⟨hinv, rfl⟩
  exact ⟨hinv, rfl⟩

theorem Inv.exec_refines (hinv : list.Inv) (c : Call)
    : Inv (list.exec c).2 ∧ list.abs.exec c = ((list.exec c).1, (list.exec c).2.abs) := by
  cases c with
  | push alloc key payload => exact exec_of_refines (hinv.push_refines alloc key payload)
  | pushRange alloc key items => exact exec_of_refines (hinv.pushRange_refines alloc key items)
  | pop key => exact exec_of_refines (hinv.pop_refines key)
  | popCount key count => exact exec_of_refines (hinv.popCount_refines key count)
  | popRange key start stop => exact exec_of_refines (hinv.popRange_refines key start stop)
  | len key => exact exec_of_refines (hinv.len_refines key)
  | flush key => exact exec_of_refines (hinv.flush_refines key)

theorem abs_queues_eq_none : list.abs.queues key = none ↔ list.written.lookup key = none := by
  show (list.written.lookup key).map _ = none ↔ _
  exact Option.map_eq_none_iff

theorem run_eq_iff (hinv : list.Inv) (hinv' : list'.Inv) (habs : list'.abs = list.abs.touch key)
    (calls : List Call)
    : (Machine.run exec list' calls).1 = (Machine.run exec list calls).1
        ↔ PresentAtChecks key list calls := by
  induction calls generalizing list list' with
  | nil => simp [PresentAtChecks]
  | cons c calls ih =>
    have ⟨hnext, hexec⟩ := hinv.exec_refines c
    have ⟨hnext', hexec'⟩ := hinv'.exec_refines c
    rw [Machine.run_cons, Machine.run_cons, List.cons.injEq, Prod.mk.injEq]
    unfold PresentAtChecks
    rw [habs] at hexec'
    rw [← exec_snd]
    by_cases hpresent : c.ChecksFor key → list.written.lookup key ≠ none
    . have htouch : (list.abs.touch key).exec c
          = ((list.abs.exec c).1, (list.abs.exec c).2.touch key) := by
        apply Pooled.exec_touch
        intro hchecks
        exact fun hmissing => hpresent hchecks (abs_queues_eq_none.mp hmissing)
      rw [hexec', hexec, Prod.mk.injEq] at htouch
      rw [ih hnext hnext' htouch.2]
      constructor
      . rintro ⟨_, hrest⟩
        exact ⟨hpresent, hrest⟩
      . rintro ⟨_, hrest⟩
        exact ⟨⟨rfl, htouch.1⟩, hrest⟩
    . have ⟨hchecks, hmissing⟩ := Classical.not_imp.mp hpresent
      have hne := Pooled.exec_touch_fst_ne hchecks (abs_queues_eq_none.mpr (not_not.mp hmissing))
      rw [hexec', hexec] at hne
      constructor
      . rintro ⟨⟨_, hres⟩, _⟩
        exact absurd hres hne
      . rintro ⟨hif, _⟩
        exact absurd hif hpresent

theorem Inv.abs_len (hinv : list.Inv) (key : String)
    : Inv (list.len key).2 ∧ (list.len key).2.abs = list.abs.touch key := by
  have ⟨hnext, hlen⟩ := hinv.len_refines key
  refine ⟨hnext, ?_⟩
  exact (congrArg Prod.snd hlen).symm

theorem sameAnswers_iff (h : list.Reachable) (key : String)
    : (∀ calls, list.SameAnswers key calls ↔ PresentAtChecks key list calls)
        ∧ ((∀ calls, list.SameAnswers key calls) ↔ list.written.lookup key ≠ none) := by
  have ⟨hinv, habs⟩ := h.inv.abs_len key
  have hsame (calls : List Call) : list.SameAnswers key calls ↔ PresentAtChecks key list calls := by
    exact run_eq_iff h.inv hinv habs calls
  refine ⟨hsame, ?_⟩
  constructor
  . intro hall
    have hflush := (hsame [.flush key]).mp (hall [.flush key])
    exact hflush.1 rfl
  . intro hpresent calls
    have hlen : (list.len key).2 = list := by
      unfold len
      cases hlookup : list.written.lookup key with
      | none => exact absurd hlookup hpresent
      | some segs => rfl
    unfold SameAnswers
    rw [hlen]

theorem sameAnswers_oneItem
    : oneItem.SameAnswers "k" [.popRange "k" 0 1, .flush "k"]
        ∧ oneItem.SameAnswers "j" [.pop "j", .push true "j" [8], .flush "j"] := by
  have hk : oneItem.written.lookup "k" = some [0] := by rfl
  have hj : ((oneItem.call (.pop "j")).call (.push true "j" [8])).written.lookup "j" = some [1] := by
    rfl
  constructor
  . apply (sameAnswers_iff reachable_oneItem "k").2.mpr
    rw [hk]
    exact Option.some_ne_none _
  . apply ((sameAnswers_iff reachable_oneItem "j").1 _).mpr
    refine ⟨False.elim, False.elim, fun _ => ?_, trivial⟩
    rw [hj]
    exact Option.some_ne_none _

-- `len` has made the key that is not found without it
theorem not_sameAnswers_of_missing
    : ∃ list : SegList,
        new true = .ok list
          ∧ (Machine.run exec list [.popRange "k" 0 0, .flush "k"]).1.map Prod.snd
              = [.items (.err .keyNotFound), .done (.err .keyNotFound)]
          ∧ (Machine.run exec (list.len "k").2 [.popRange "k" 0 0, .flush "k"]).1.map Prod.snd
              = [.items (.ok []), .done (.ok ())]
          ∧ ¬list.SameAnswers "k" [.popRange "k" 0 0, .flush "k"] := by
  refine ⟨blank.grown, new_eq_ok, ?_, ?_, ?_⟩
  . rfl
  . rfl
  . intro h
    have hsecond := congrArg (List.map Prod.snd) h
    cases hsecond

end SegList
end MemStream
