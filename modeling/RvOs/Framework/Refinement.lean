import Mathlib.Logic.Relation

/-!
# Refinement

A machine `step` and a specification `spec` of it, which is told what a state
of the machine stands for by `abs`. In states that meet the invariant, and as
long as the specification is in states that are `Ok`, both make the same steps
(`Refines`). So they have the same runs (`Refines.run`, `Refines.reach`), and
machines that stand for the same have the same runs too (`Refines.agree`).
Where the specification has one next state at most, all runs of the machine
lead to one end (`Refines.ends`, `Refines.runsTo`).
-/

namespace RvOs

open Relation

variable {σ τ α : Type*}

structure Refines (step : σ → σ → Prop) (spec : α → α → Prop) (abs : σ → α) (Inv : σ → Prop) (Ok : α → Prop) :
    Prop where
  forward : ∀ s s', Inv s → Ok (abs s) → step s s' → spec (abs s) (abs s') ∧ Inv s'
  backward : ∀ s a, Inv s → Ok (abs s) → spec (abs s) a → ∃ s', step s s' ∧ abs s' = a

/-- The specification stays in states that are `Ok`. -/
def Stays (spec : α → α → Prop) (Ok : α → Prop) (a : α) : Prop := ∀ a', ReflTransGen spec a a' → Ok a'

variable {step : σ → σ → Prop} {step' : τ → τ → Prop} {spec : α → α → Prop} {abs : σ → α} {abs' : τ → α}
  {Inv : σ → Prop} {Inv' : τ → Prop} {Ok : α → Prop} {s s' : σ} {a a' : α}

theorem Stays.ok (h : Stays spec Ok a) : Ok a := h a .refl

theorem Stays.run (h : Stays spec Ok a) (hr : ReflTransGen spec a a') : Stays spec Ok a' :=
  fun a'' hr' => h a'' (hr.trans hr')

/-- A run of the machine is one of the specification, and keeps the invariant. -/
theorem Refines.run (h : Refines step spec abs Inv Ok) (hi : Inv s) (ho : Stays spec Ok (abs s))
    (hr : ReflTransGen step s s') : ReflTransGen spec (abs s) (abs s') ∧ Inv s' := by
  induction hr with
  | refl => exact ⟨.refl, hi⟩
  | tail _ hstep ih =>
    obtain ⟨hr, hi⟩ := ih
    obtain ⟨hs, hi'⟩ := h.forward _ _ hi (ho _ hr) hstep
    exact ⟨hr.tail hs, hi'⟩

/-- A run of the specification is one of the machine. -/
theorem Refines.reach (h : Refines step spec abs Inv Ok) (hi : Inv s) (ho : Stays spec Ok (abs s))
    (hr : ReflTransGen spec (abs s) a) : ∃ s', ReflTransGen step s s' ∧ abs s' = a ∧ Inv s' := by
  induction hr with
  | refl => exact ⟨s, .refl, rfl, hi⟩
  | tail hr hspec ih =>
    obtain ⟨s₁, hr₁, rfl, hi₁⟩ := ih
    obtain ⟨s', hstep, rfl⟩ := h.backward _ _ hi₁ (ho _ hr) hspec
    exact ⟨s', hr₁.tail hstep, rfl, (h.forward _ _ hi₁ (ho _ hr) hstep).2⟩

/-- What is not in `abs` has no effect on what a machine can do. -/
theorem Refines.agree {t : τ} (h : Refines step spec abs Inv Ok) (h' : Refines step' spec abs' Inv' Ok) (hi : Inv s)
    (hi' : Inv' t) (he : abs' t = abs s) (ho : Stays spec Ok (abs s)) (hr : ReflTransGen step s s') :
    ∃ t', ReflTransGen step' t t' ∧ abs' t' = abs s' := by
  obtain ⟨hspec, -⟩ := h.run hi ho hr
  rw [← he] at ho hspec
  obtain ⟨t', ht, hab, -⟩ := h'.reach hi' ho hspec
  exact ⟨t', ht, hab⟩

/-- One run of the machine ends in what no step of the specification leaves: every other run can be led to it. -/
theorem Refines.ends (h : Refines step spec abs Inv Ok) (hu : ∀ a b c, spec a b → spec a c → b = c) (hi : Inv s)
    (ho : Stays spec Ok (abs s)) {s₁ s₂ : σ} (h₁ : ReflTransGen step s s₁) (h₂ : ReflTransGen step s s₂)
    (hf : ∀ c, ¬ spec (abs s₂) c) : ∃ s', ReflTransGen step s₁ s' ∧ abs s' = abs s₂ := by
  obtain ⟨hr₁, hi₁⟩ := h.run hi ho h₁
  obtain ⟨hr₂, -⟩ := h.run hi ho h₂
  rcases ReflTransGen.total_of_right_unique (fun a b c => hu a b c) hr₁ hr₂ with hr | hr
  · obtain ⟨s', hs, he, -⟩ := h.reach hi₁ (ho.run hr₁) hr
    exact ⟨s', hs, he⟩
  · -- the other run is past an end
    rcases ReflTransGen.cases_head hr with he | ⟨c, hc, -⟩
    · exact ⟨s₁, .refl, he.symm⟩
    · exact absurd hc (hf c)

/-! ## Runs to an end -/

/-- The specification runs to `z`, and is `Ok` all the way. -/
structure RunsTo (spec : α → α → Prop) (Ok : α → Prop) (a z : α) : Prop where
  stays : Stays spec Ok a
  run : ReflTransGen spec a z

theorem RunsTo.stop {z : α} (ho : Ok z) (hf : ∀ c, ¬ spec z c) : RunsTo spec Ok z z := by
  refine ⟨fun a' h => ?_, .refl⟩
  rcases ReflTransGen.cases_head h with rfl | ⟨c, hc, -⟩
  · exact ho
  · exact absurd hc (hf c)

theorem RunsTo.head {z : α} (hu : ∀ a b c, spec a b → spec a c → b = c) (ho : Ok a) (hs : spec a a')
    (h : RunsTo spec Ok a' z) : RunsTo spec Ok a z := by
  refine ⟨fun b hb => ?_, h.run.head hs⟩
  rcases ReflTransGen.cases_head hb with rfl | ⟨c, hc, hr⟩
  · exact ho
  · obtain rfl := hu _ _ _ hs hc
    exact h.stays b hr

/-- A machine that starts there has a run to that end, and every other run can be led to it. -/
theorem Refines.runsTo (h : Refines step spec abs Inv Ok) (hu : ∀ a b c, spec a b → spec a c → b = c) {z : α}
    (hi : Inv s) (hz : RunsTo spec Ok (abs s) z) (hf : ∀ c, ¬ spec z c) (hr : ReflTransGen step s s') :
    ∃ s'', ReflTransGen step s' s'' ∧ abs s'' = z := by
  obtain ⟨s₁, hr₁, rfl, -⟩ := h.reach hi hz.stays hz.run
  exact h.ends hu hi hz.stays hr hr₁ hf

end RvOs
