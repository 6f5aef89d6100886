import Mathlib.Tactic.Common

/-!
# Loops

A loop on its variables, whose iterations may fail (`loop`). What it returns
does not depend on the fuel that it gets (`Ends.eq`), so that a loop which ends
for every state of an invariant (`loop_total`) is known from its iterations
(`Ends.again`, `Ends.leave`).
-/

namespace RvOs

/-- What an iteration does: it goes on with the variables, or leaves with a value. -/
inductive Next (σ α : Type) where
  | again (s : σ)
  | leave (a : α)

/-- The loop: `none` is an iteration that fails, and a loop with more than `fuel` of them. -/
def loop {σ α : Type} (body : σ → Option (Next σ α)) : Nat → σ → Option α
  | 0, _ => none
  | fuel + 1, s => do
    match ← body s with
    | .again s => loop body fuel s
    | .leave a => some a

/-- A bind of what is defined. -/
theorem bind_of_some {α β : Type} {x : Option α} {a : α} (h : x = some a) (f : α → Option β) : (x >>= f) = f a := by
  rw [h]
  rfl

variable {σ α : Type} {body : σ → Option (Next σ α)} {s s' : σ} {a b : α} {n m : Nat}

theorem loop_again (h : body s = some (.again s')) (n : Nat) : loop body (n + 1) s = loop body n s' := by
  rw [loop, h]
  rfl

theorem loop_leave (h : body s = some (.leave a)) (n : Nat) : loop body (n + 1) s = some a := by
  rw [loop, h]
  rfl

/-- More fuel does not change what is returned. -/
theorem loop_fuel (h : loop body n s = some a) (hle : n ≤ m) : loop body m s = some a := by
  induction n generalizing m s with
  | zero => cases h
  | succ n ih =>
    obtain ⟨m, rfl⟩ := Nat.exists_eq_add_of_lt hle
    rw [loop, Option.bind_eq_bind, Option.bind_eq_some_iff] at h
    obtain ⟨next, hbody, h⟩ := h
    cases next with
    | again s' => exact (loop_again hbody _).trans (ih h (by omega))
    | leave b => exact (loop_leave hbody _).trans h

/-- The loop ends with `a`. -/
def Ends (body : σ → Option (Next σ α)) (s : σ) (a : α) : Prop := ∃ n, loop body n s = some a

theorem Ends.again (h : body s = some (.again s')) (hs : Ends body s' a) : Ends body s a := by
  obtain ⟨n, hn⟩ := hs
  exact ⟨n + 1, (loop_again h n).trans hn⟩

theorem Ends.leave (h : body s = some (.leave a)) : Ends body s a := ⟨1, loop_leave h 0⟩

/-- A loop ends in one way, -/
theorem Ends.eq (h : Ends body s a) (hb : loop body m s = some b) : a = b := by
  obtain ⟨n, hn⟩ := h
  have ha := loop_fuel hn (Nat.le_max_left n m)
  rw [loop_fuel hb (Nat.le_max_right n m)] at ha
  exact (Option.some.inj ha).symm

/-- and where an invariant says that each iteration is defined and a measure gets smaller, it ends. -/
theorem loop_total (inv : σ → Prop) (measure : σ → Nat) (post : α → Prop)
    (step : ∀ s, inv s → (∃ s', body s = some (.again s') ∧ inv s' ∧ measure s' < measure s) ∨
      ∃ a, body s = some (.leave a) ∧ post a)
    (hs : inv s) (hn : measure s < n) : ∃ a, loop body n s = some a ∧ post a := by
  induction n generalizing s with
  | zero => exact absurd hn (Nat.not_lt_zero _)
  | succ n ih =>
    rcases step s hs with ⟨s', hbody, hs', hlt⟩ | ⟨a, hbody, ha⟩
    · obtain ⟨a, hloop, ha⟩ := ih hs' (by omega)
      exact ⟨a, (loop_again hbody n).trans hloop, ha⟩
    · exact ⟨a, loop_leave hbody n, ha⟩

end RvOs
