/-!
This module contains the results that calls of a Rust function can have: `Ok(val)`, `Err(e)`, or none
because the call panicked. An access through a raw pointer outside of its block has no defined result
either and is counted as a panic, and so is an allocation that ends the process.

Futures are state transformers that do nothing before they are polled: `await` runs one to its end, a
future that goes out of scope without having been polled has no effect.
-/

inductive Outcome (ε : Type u) (α : Type v) where
  | ok (val : α)
  | err (e : ε)
  | panic
  deriving DecidableEq, Repr

namespace Outcome

def map (f : α → β) : Outcome ε α → Outcome ε β
  | .ok val => .ok (f val)
  | .err e => .err e
  | .panic => .panic

def mapErr (f : ε → δ) : Outcome ε α → Outcome δ α
  | .ok val => .ok val
  | .err e => .err (f e)
  | .panic => .panic

def isOk : Outcome ε α → Bool
  | .ok _ => true
  | _ => false

def bind : Outcome ε α → (α → Outcome ε β) → Outcome ε β
  | .ok val, f => f val
  | .err e, _ => .err e
  | .panic, _ => .panic

instance : Monad (Outcome ε) where
  pure := .ok
  bind := bind

instance : LawfulMonad (Outcome ε) := by
  refine LawfulMonad.mk' _ ?_ ?_ ?_
  . intro _ res
    cases res <;> rfl
  . intro _ _ _ _
    rfl
  . intro _ _ _ res _ _
    cases res <;> rfl

instance : MonadExceptOf ε (Outcome ε) where
  throw := .err
  tryCatch res handle :=
    match res with
    | .err e => handle e
    | res => res

@[simp]
theorem pure_eq (val : α) : (pure val : Outcome ε α) = ok val := by
  rfl

@[simp]
theorem ok_bind (val : α) (f : α → Outcome ε β) : (ok val >>= f) = f val := by
  rfl

@[simp]
theorem map_ok (f : α → β) (val : α) : (ok val : Outcome ε α).map f = ok (f val) := by
  rfl

@[simp]
theorem map_err (f : α → β) (e : ε) : (err e : Outcome ε α).map f = err e := by
  rfl

@[simp]
theorem map_panic (f : α → β) : (panic : Outcome ε α).map f = panic := by
  rfl

@[simp]
theorem mapErr_ok (f : ε → δ) (val : α) : (ok val : Outcome ε α).mapErr f = ok val := by
  rfl

@[simp]
theorem mapErr_err (f : ε → δ) (e : ε) : (err e : Outcome ε α).mapErr f = err (f e) := by
  rfl

@[simp]
theorem mapErr_panic (f : ε → δ) : (panic : Outcome ε α).mapErr f = panic := by
  rfl

theorem bind_eq_ok {res : Outcome ε α} {f : α → Outcome ε β} {val : β} (h : (res >>= f) = ok val)
    : ∃ val', res = ok val' ∧ f val' = ok val := by
  cases res with
  | ok val' => exact ⟨val', rfl, h⟩
  | err e => cases h
  | panic => cases h

theorem map_eq_ok {res : Outcome ε α} {f : α → β} {val : β} (h : res.map f = ok val)
    : ∃ val', res = ok val' ∧ f val' = val := by
  cases res with
  | ok val' => exact ⟨val', rfl, ok.inj h⟩
  | err e => cases h
  | panic => cases h

theorem map_eq_err {res : Outcome ε α} {f : α → β} {e : ε} (h : res.map f = err e) : res = err e := by
  cases res with
  | ok val => cases h
  | err e' => exact congrArg err (err.inj h)
  | panic => cases h

theorem map_eq_panic {res : Outcome ε α} {f : α → β} (h : res.map f = panic) : res = panic := by
  cases res with
  | ok val => cases h
  | err e => cases h
  | panic => rfl

theorem map_injective {f : α → β} (hinj : Function.Injective f)
    : Function.Injective (map f : Outcome ε α → Outcome ε β) := by
  intro res res' h
  cases res with
  | ok val =>
    rcases map_eq_ok h.symm with ⟨val', rfl, heq⟩
    rw [hinj heq]
  | err e => exact (map_eq_err h.symm).symm
  | panic => exact (map_eq_panic h.symm).symm

theorem mapErr_eq_ok_iff (f : ε → δ) (res : Outcome ε α) (val : α)
    : res.mapErr f = ok val ↔ res = ok val := by
  cases res with
  | ok val' => simp
  | err e => simp
  | panic => simp

theorem mapErr_eq_err_iff (f : ε → δ) (res : Outcome ε α) (e : δ)
    : res.mapErr f = err e ↔ ∃ e', res = err e' ∧ f e' = e := by
  cases res with
  | ok val => simp
  | err e' => simp
  | panic => simp

theorem isOk_mapErr (f : ε → δ) (res : Outcome ε α) : (res.mapErr f).isOk = res.isOk := by
  cases res with
  | ok val => rfl
  | err e => rfl
  | panic => rfl

theorem isOk_map (f : α → β) (res : Outcome ε α) : (res.map f).isOk = res.isOk := by
  cases res with
  | ok val => rfl
  | err e => rfl
  | panic => rfl

theorem map_bind (g : β → γ) (res : Outcome ε α) (f : α → Outcome ε β)
    : (res >>= f).map g = (res >>= fun val => (f val).map g) := by
  cases res with
  | ok val => rfl
  | err e => rfl
  | panic => rfl

theorem map_mapErr (f : ε → δ) (g : α → β) (res : Outcome ε α)
    : (res.mapErr f).map g = (res.map g).mapErr f := by
  cases res with
  | ok val => rfl
  | err e => rfl
  | panic => rfl

end Outcome

def Future (σ : Type u) (α : Type v) := σ → α × σ

namespace Future

def await (fut : Future σ α) (s : σ) : α × σ :=
  fut s

def drop (_fut : Future σ α) (s : σ) : σ :=
  s

end Future
