import MemStream.Lib.Machine
import MemStream.Db.Lemmas.SegList.Push
import MemStream.Db.Lemmas.SegList.Drain

namespace MemStream

namespace Pooled

theorem pushFree_eq {p : Pooled} (h : p.free ≠ 0) (key : String) (payload : List UInt8)
    : (p.pushFree key payload).1 = (p.queues.push key payload).1
        ∧ (p.pushFree key payload).2.queues = (p.queues.push key payload).2 := by
  unfold pushFree Queues.push
  rw [if_neg h]
  split
  . exact ⟨rfl, rfl⟩
  . exact ⟨rfl, rfl⟩

theorem push_eq (p : Pooled) (key : String) (payload : List UInt8)
    : (p.push true key payload).1 = (p.queues.push key payload).1
        ∧ (p.push true key payload).2.queues = (p.queues.push key payload).2 := by
  unfold push
  split
  . exact pushFree_eq (p := { p with free := p.free + SegList.growth })
      (by simp [SegList.growth, SegList.initialSpace, SegList.segmentSize]) key payload
  . next h => exact pushFree_eq h key payload

theorem pushAll_eq (p : Pooled) (key : String) (items : List (List UInt8))
    : (p.pushAll (fun _ => true) key items).1 = (p.queues.pushRange key items).1
        ∧ (p.pushAll (fun _ => true) key items).2.queues = (p.queues.pushRange key items).2 := by
  induction items generalizing p with
  | nil => exact ⟨rfl, rfl⟩
  | cons item items ih =>
    have ⟨hres, hqueues⟩ := p.push_eq key item
    unfold pushAll Queues.pushRange
    rcases hpush : p.push true key item with ⟨res, p'⟩
    rw [hpush] at hres hqueues
    unfold Queues.push at hres hqueues
    split at hres
    . next hlarge =>
      simp only [hlarge, if_true] at hqueues ⊢
      dsimp at hres
      rw [hres]
      exact ⟨rfl, hqueues⟩
    . next hlarge =>
      simp only [hlarge, if_false] at hqueues ⊢
      dsimp at hres
      rw [hres, ← hqueues]
      exact ih p'

theorem pushRange_eq (p : Pooled) (key : String) (items : List (List UInt8))
    : (p.pushRange (fun _ => true) key items).1 = (p.queues.pushRange key items).1
        ∧ (p.pushRange (fun _ => true) key items).2.queues = (p.queues.pushRange key items).2 := by
  unfold pushRange
  split
  . exact pushAll_eq { p with free := p.free + SegList.growth } key items
  . exact pushAll_eq p key items

theorem pop_eq (p : Pooled) (key : String)
    : (p.pop key).1 = (p.queues.pop key).1 ∧ (p.pop key).2.queues = (p.queues.pop key).2 := by
  unfold pop Queues.pop
  split
  . exact ⟨rfl, rfl⟩
  . exact ⟨rfl, rfl⟩

theorem popRange_eq (p : Pooled) (key : String) (start stop : Nat)
    : (p.popRange key start stop).1 = (p.queues.popRange key start stop).1
        ∧ (p.popRange key start stop).2.queues = (p.queues.popRange key start stop).2 := by
  unfold popRange Queues.popRange
  cases p.queues key with
  | none => exact ⟨rfl, rfl⟩
  | some items =>
    by_cases hstop : stop > items.length
    . simp [hstop]
    . by_cases hstart : start > stop
      . simp [hstop, hstart]
      . simp [hstop, hstart]

theorem flush_eq (p : Pooled) (key : String)
    : (p.flush key).1 = (p.queues.flush key).1
        ∧ (p.flush key).2.queues = (p.queues.flush key).2 := by
  unfold flush Queues.flush
  cases p.queues key with
  | none => exact ⟨rfl, rfl⟩
  | some items => exact ⟨rfl, rfl⟩

end Pooled

namespace SegList

inductive Op where
  | push (key : String) (payload : List UInt8)
  | pushRange (key : String) (items : List (List UInt8))
  | pop (key : String)
  | popRange (key : String) (start stop : Nat) (h : start ≤ stop)
  | len (key : String)
  | flush (key : String)

inductive Answer where
  | done (res : Outcome ListError Unit)
  | item (res : Outcome ListError (List UInt8))
  | items (res : Outcome ListError (List (List UInt8)))
  | length (res : Outcome ListError Nat)

def Op.key : Op → String
  | .push key _ => key
  | .pushRange key _ => key
  | .pop key => key
  | .popRange key _ _ _ => key
  | .len key => key
  | .flush key => key

def step (list : SegList) : Op → Answer × SegList
  | .push key payload => (list.push true key payload).map .done id
  | .pushRange key items => (list.pushRange (fun _ => true) key items).map .done id
  | .pop key => (list.pop key).map .item id
  | .popRange key start stop _ => (list.popRange key start stop).map .items id
  | .len key => (list.len key).map .length id
  | .flush key => (list.flush key).map .done id

end SegList

namespace Queues

def step (q : Queues) : SegList.Op → SegList.Answer × Queues
  | .push key payload => (q.push key payload).map .done id
  | .pushRange key items => (q.pushRange key items).map .done id
  | .pop key => (q.pop key).map .item id
  | .popRange key start stop _ => (q.popRange key start stop).map .items id
  | .len key => (q.len key).map .length id
  | .flush key => (q.flush key).map .done id

theorem set_of_ne (q : Queues) {key key' : String} (items : List (List UInt8)) (h : key' ≠ key)
    : q.set key items key' = q key' := by
  unfold set
  rw [if_neg h]

theorem get_set (q : Queues) (key key' : String) (items : List (List UInt8))
    : (q.set key items).get key' = if key' = key then items else q.get key' := by
  unfold get set
  split
  . rfl
  . rfl

theorem set_get (q : Queues) (key : String) (items : List (List UInt8))
    : (q.set key items).get key = items := by
  rw [get_set, if_pos rfl]

theorem pushRange_of_ne (q : Queues) {key key' : String} (items : List (List UInt8))
    (h : key' ≠ key)
    : (q.pushRange key items).2 key' = q key' := by
  induction items generalizing q with
  | nil => rfl
  | cons item items ih =>
    unfold pushRange
    split
    . rfl
    . rw [ih, set_of_ne q _ h]

theorem pushRange_eq_ok {q : Queues} {key : String} {items : List (List UInt8)}
    (h : (q.pushRange key items).1 = .ok ())
    : (q.pushRange key items).2.get key = q.get key ++ items := by
  induction items generalizing q with
  | nil => simp [pushRange]
  | cons item items ih =>
    unfold pushRange at h ⊢
    split at h
    . simp at h
    . next hlarge =>
      rw [if_neg hlarge, ih h, set_get]
      simp

theorem step_of_ne (q : Queues) (op : SegList.Op) {key : String} (h : key ≠ op.key)
    : (q.step op).2 key = q key := by
  cases op with
  | push key' payload =>
    simp only [step, push]
    split
    . rfl
    . exact q.set_of_ne _ h
  | pushRange key' items => exact q.pushRange_of_ne items h
  | pop key' =>
    simp only [step, pop]
    split
    . rfl
    . exact q.set_of_ne _ h
  | popRange key' start stop hle =>
    simp only [step, popRange]
    split
    . rfl
    . split
      . rfl
      . rw [if_neg (by omega)]
        exact q.set_of_ne _ h
  | len key' => exact q.set_of_ne _ h
  | flush key' =>
    simp only [step, flush]
    split
    . rfl
    . exact q.set_of_ne _ h

end Queues

namespace SegList

structure Follows (list : SegList) (q : Queues) : Prop where
  inv : list.Inv
  queues : list.abs.queues = q

theorem follows_of_refines {α : Type} {g : α → Answer}
    {res : α × SegList} {spec : α × Queues} {p : α × Pooled}
    (hrefines : Inv res.2 ∧ p = (res.1, res.2.abs)) (heq : p.1 = spec.1 ∧ p.2.queues = spec.2)
    : (res.map g id).1 = (spec.map g id).1
        ∧ Follows (res.map g id).2 (spec.map g id).2 := by
  rcases hrefines with ⟨hinv, hp⟩
  rw [hp] at heq
  simp only [Prod.map_fst, Prod.map_snd, id]
  rw [heq.1]
  exact ⟨rfl, hinv, heq.2⟩

theorem Follows.step {list : SegList} {q : Queues} (h : Follows list q) (op : Op)
    : (list.step op).1 = (q.step op).1 ∧ Follows (list.step op).2 (q.step op).2 := by
  rcases h with ⟨hinv, rfl⟩
  cases op with
  | push key payload =>
    exact follows_of_refines (hinv.push_refines true key payload) (list.abs.push_eq key payload)
  | pushRange key items =>
    exact follows_of_refines (hinv.pushRange_refines (fun _ => true) key items)
      (list.abs.pushRange_eq key items)
  | pop key => exact follows_of_refines (hinv.pop_refines key) (list.abs.pop_eq key)
  | popRange key start stop _ =>
    exact follows_of_refines (hinv.popRange_refines key start stop)
      (list.abs.popRange_eq key start stop)
  | len key => exact follows_of_refines (hinv.len_refines key) ⟨rfl, rfl⟩
  | flush key => exact follows_of_refines (hinv.flush_refines key) (list.abs.flush_eq key)

theorem new_eq_ok : new true = .ok blank.grown := by
  unfold new
  rw [growSegs_eq]
  rfl

theorem follows_new : Follows blank.grown Queues.empty where
  inv := inv_blank.grown
  queues := by
    rw [inv_blank.abs_grown]
    rfl

theorem follows_run (ops : List Op)
    : (Machine.run step blank.grown ops).1 = (Machine.run Queues.step Queues.empty ops).1
        ∧ Follows (Machine.run step blank.grown ops).2 (Machine.run Queues.step Queues.empty ops).2 := by
  apply Machine.run_sim
  . intro list q op h
    exact h.step op
  . exact follows_new

theorem run_refines_queues (ops : List Op)
    : ∃ list,
        new true = .ok list
          ∧ let run := Machine.run step list ops
            let spec := Machine.run Queues.step Queues.empty ops
            run.1 = spec.1
              ∧ run.2.abs.queues = spec.2
              ∧ (∀ op key,
                  key ≠ op.key → (run.2.step op).2.abs.queues key = run.2.abs.queues key)
              ∧ (∀ key items,
                  (run.2.pushRange (fun _ => true) key items).1 = .ok ()
                    → (run.2.pushRange (fun _ => true) key items).2.abs.queues.get key
                        = run.2.abs.queues.get key ++ items) := by
  have ⟨hhist, hfollows⟩ := follows_run ops
  refine ⟨blank.grown, new_eq_ok, hhist, hfollows.queues, ?_, ?_⟩
  . intro op key hkey
    have ⟨_, hnext⟩ := hfollows.step op
    rw [hnext.queues, hfollows.queues]
    exact Queues.step_of_ne _ op hkey
  . intro key items hok
    have ⟨hres, hnext⟩ := hfollows.step (.pushRange key items)
    have hqueues := hnext.queues
    simp only [step, Queues.step, Prod.map_fst, Prod.map_snd, id, Answer.done.injEq] at hres hqueues
    rw [hqueues, hfollows.queues]
    apply Queues.pushRange_eq_ok
    rw [← hres]
    exact hok

end SegList
end MemStream
