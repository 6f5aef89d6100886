import Mathlib.Tactic.Common

/-!
# Computations that stop

Lemmas on `EStateM`: a computation on a state returns a value or stops with a
reason, and leaves a state in both cases. `bind_ok` and `bind_error` take a
sequence apart, and `finish` puts a result together from an outcome and a state.
-/

namespace RvOs.Exec

variable {ε σ α β : Type}

theorem bind_ok {x : EStateM ε σ α} {f : α → EStateM ε σ β} {s s' : σ} {a : α} (h : x s = .ok a s') :
    (x >>= f) s = f a s' := by
  show EStateM.bind x f s = _
  rw [EStateM.bind, h]

theorem bind_error {x : EStateM ε σ α} {f : α → EStateM ε σ β} {s s' : σ} {e : ε} (h : x s = .error e s') :
    (x >>= f) s = .error e s' := by
  show EStateM.bind x f s = _
  rw [EStateM.bind, h]

theorem map_ok {x : EStateM ε σ α} {f : α → β} {s s' : σ} {a : α} (h : x s = .ok a s') :
    (f <$> x) s = .ok (f a) s' := by
  rw [map_eq_pure_bind]
  exact bind_ok h

theorem map_error {x : EStateM ε σ α} {f : α → β} {s s' : σ} {e : ε} (h : x s = .error e s') :
    (f <$> x) s = .error e s' := by
  rw [map_eq_pure_bind]
  exact bind_error h

/-- The result with an outcome and a state. -/
def finish (r : Except ε α) (s : σ) : EStateM.Result ε σ α :=
  match r with
  | .ok a => .ok a s
  | .error e => .error e s

/-- The outcome of a result. -/
def outcome : EStateM.Result ε σ α → Except ε α
  | .ok a _ => .ok a
  | .error e _ => .error e

/-- The state of a result. -/
def final : EStateM.Result ε σ α → σ
  | .ok _ s => s
  | .error _ s => s

@[simp] theorem outcome_finish (r : Except ε α) (s : σ) : outcome (finish r s) = r := by cases r <;> rfl

@[simp] theorem final_finish (r : Except ε α) (s : σ) : final (finish r s) = s := by cases r <;> rfl

@[simp] theorem final_map (f : α → β) (x : EStateM ε σ α) (s : σ) : final ((f <$> x) s) = final (x s) := by
  cases h : x s with
  | ok a s' => rw [map_ok h]; rfl
  | error e s' => rw [map_error h]; rfl

end RvOs.Exec
