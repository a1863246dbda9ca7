import MemStream.Lib.Outcome

namespace Fallible

variable {σ ε α β : Type}

theorem bind_eq_ok {f : StateT σ (Outcome ε) α} {g : α → StateT σ (Outcome ε) β} {s s' : σ} {b : β}
    (h : (f >>= g) s = .ok (b, s'))
    : ∃ a t, f s = .ok (a, t) ∧ g a t = .ok (b, s') := by
  simp only [bind, StateT.bind] at h
  cases hres : f s with
  | ok res =>
    rw [hres] at h
    exact ⟨res.1, res.2, rfl, h⟩
  | err e =>
    rw [hres] at h
    cases h
  | panic =>
    rw [hres] at h
    cases h

theorem bind_ne_panic {f : StateT σ (Outcome ε) α} {g : α → StateT σ (Outcome ε) β} {s : σ}
    (hf : f s ≠ .panic) (hg : ∀ a t, f s = .ok (a, t) → g a t ≠ .panic)
    : (f >>= g) s ≠ .panic := by
  simp only [bind, StateT.bind]
  cases hres : f s with
  | ok res => exact hg res.1 res.2 hres
  | err e => simp [Outcome.bind]
  | panic => exact absurd hres hf

end Fallible
