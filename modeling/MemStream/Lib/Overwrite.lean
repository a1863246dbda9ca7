import Mathlib.Data.List.Induction

namespace Overwrite

variable {κ ν ω : Type}

def write (effect : ω → κ → Option ν) (values : κ → ν) (w : ω) : κ → ν :=
  fun key => (effect w key).getD (values key)

def writeAll (effect : ω → κ → Option ν) (values : κ → ν) (ws : List ω) : κ → ν :=
  ws.foldl (write effect) values

def last (effect : ω → κ → Option ν) (ws : List ω) (key : κ) : Option ν :=
  ws.reverse.findSome? fun w => effect w key

variable {effect : ω → κ → Option ν}

@[simp]
theorem writeAll_nil (effect : ω → κ → Option ν) (values : κ → ν) : writeAll effect values [] = values := by
  rfl

theorem writeAll_append (values : κ → ν) (ws ws' : List ω)
    : writeAll effect values (ws ++ ws') = writeAll effect (writeAll effect values ws) ws' := by
  unfold writeAll
  rw [List.foldl_append]

theorem writeAll_concat (values : κ → ν) (ws : List ω) (w : ω)
    : writeAll effect values (ws ++ [w]) = write effect (writeAll effect values ws) w := by
  rw [writeAll_append]
  rfl

theorem write_of_idle {w : ω} (h : ∀ key, effect w key = none) (values : κ → ν)
    : write effect values w = values := by
  funext key
  unfold write
  rw [h, Option.getD_none]

theorem writeAll_eq (effect : ω → κ → Option ν) (values : κ → ν) (ws : List ω) (key : κ)
    : writeAll effect values ws key = (last effect ws key).getD (values key) := by
  induction ws using List.reverseRecOn with
  | nil => rfl
  | append_singleton ws w ih =>
    rw [writeAll_concat]
    unfold write last at *
    rw [ih, List.reverse_concat, List.findSome?_cons]
    cases effect w key with
    | none => rfl
    | some val => rfl

theorem writeAll_again (values : κ → ν) (ws : List ω)
    : writeAll effect (writeAll effect values ws) ws = writeAll effect values ws := by
  funext key
  rw [writeAll_eq effect (writeAll effect values ws) ws, writeAll_eq effect values ws]
  cases last effect ws key with
  | none => rfl
  | some val => rfl

theorem writeAll_overlap (values : κ → ν) (front shared back : List ω)
    : writeAll effect values ((front ++ shared) ++ (shared ++ back))
        =
      writeAll effect values (front ++ shared ++ back) := by
  calc writeAll effect values ((front ++ shared) ++ (shared ++ back))
    _ = writeAll effect (writeAll effect (writeAll effect values (front ++ shared)) shared) back := by
      rw [writeAll_append, writeAll_append]
    _ = writeAll effect (writeAll effect values (front ++ shared)) back := by
      rw [writeAll_append values front shared, writeAll_again]
    _ = writeAll effect values (front ++ shared ++ back) := by
      rw [writeAll_append values (front ++ shared)]

theorem writeAll_filter {p : ω → Bool} (h : ∀ w, p w = false → ∀ key, effect w key = none)
    (values : κ → ν) (ws : List ω)
    : writeAll effect values (ws.filter p) = writeAll effect values ws := by
  induction ws using List.reverseRecOn with
  | nil => rfl
  | append_singleton ws w ih =>
    rw [List.filter_append, writeAll_append, ih, writeAll_append]
    cases hw : p w with
    | true => rw [List.filter_cons_of_pos hw, List.filter_nil]
    | false =>
      rw [List.filter_cons_of_neg (by simp [hw]), List.filter_nil]
      exact (write_of_idle (h w hw) _).symm

end Overwrite
