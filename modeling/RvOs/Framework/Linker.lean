import Mathlib.Logic.Function.Basic
import Mathlib.Tactic.Common

/-!
# Output sections of linker scripts

The statements of an output section, over the symbols they define, and the
addresses they give (`link`): the location counter only grows, an input section
goes to the first pattern that accepts its name, and a symbol is where its last
definition stands. A region between two symbols with no input in it is empty
(`region_empty`), and `region_single` is the one with one input section.
-/

namespace RvOs.Linker

/-- A section of an object file, without its contents. -/
structure InputSection where
  name : String
  align : Nat
  size : Nat
  deriving DecidableEq

/-- The name in `*(name)`, where `starting` is a name that ends in `*`. -/
inductive Pattern where
  | exact (name : String)
  | starting (start : String)

def Pattern.accepts : Pattern → String → Bool
  | .exact name, s => s == name
  | .starting start, s => start.toList.isPrefixOf s.toList

/-- A statement on the location counter `.`. -/
inductive Statement (σ : Type) where
  /-- `. = ALIGN(n);` -/
  | align (n : Nat)
  /-- `x = .;` -/
  | symbol (x : σ)
  /-- `*(pattern)` -/
  | input (pattern : Pattern)

structure Layout (σ : Type) where
  dot : Nat
  /-- The input sections that have no place yet. -/
  remaining : List InputSection
  symbols : σ → Nat
  placed : List (InputSection × Nat)

/-- The first multiple of `a` from `n` on. -/
def alignTo (n a : Nat) : Nat := n + (a - n % a) % a

variable {σ : Type}

def Layout.place (l : Layout σ) (s : InputSection) : Layout σ :=
  { l with dot := alignTo l.dot s.align + s.size, placed := l.placed ++ [(s, alignTo l.dot s.align)] }

/-- Where the input sections of a name start. -/
def Layout.find (l : Layout σ) (name : String) : Option Nat := (l.placed.find? (·.1.name == name)).map (·.2)

/-! ## Alignment -/

theorem le_alignTo (n a : Nat) : n ≤ alignTo n a := Nat.le_add_right ..

theorem alignTo_of_dvd {n a : Nat} (h : a ∣ n) : alignTo n a = n := by
  rw [alignTo, Nat.mod_eq_zero_of_dvd h, Nat.sub_zero, Nat.mod_self, Nat.add_zero]

theorem dvd_alignTo (n : Nat) {a : Nat} (h : 0 < a) : a ∣ alignTo n a := by
  have hlt := Nat.mod_lt n h
  have hn := Nat.div_add_mod n a
  rw [alignTo]
  by_cases h0 : n % a = 0
  · rw [h0, Nat.sub_zero, Nat.mod_self, Nat.add_zero]
    exact Nat.dvd_of_mod_eq_zero h0
  · rw [Nat.mod_eq_of_lt (show a - n % a < a by omega)]
    refine ⟨n / a + 1, ?_⟩
    rw [Nat.mul_add]
    omega

/-! ## Placing input sections -/

theorem foldl_place : ∀ (ss : List InputSection) (l : Layout σ), ∃ dot placed,
    ss.foldl .place l = { l with dot, placed := l.placed ++ placed } ∧ l.dot ≤ dot ∧ placed.map (·.1) = ss
  | [], l => ⟨l.dot, [], by rw [List.append_nil]; rfl, Nat.le_refl _, rfl⟩
  | s :: ss, l => by
    obtain ⟨dot, placed, h, hdot, hp⟩ := foldl_place ss (l.place s)
    refine ⟨dot, (s, alignTo l.dot s.align) :: placed, ?_, ?_, by rw [List.map_cons, hp]⟩
    · show ss.foldl .place (l.place s) = _
      rw [h, Layout.place, List.append_assoc]
      rfl
    · have := le_alignTo l.dot s.align
      have : alignTo l.dot s.align + s.size ≤ dot := hdot
      omega

/-- Sections of other names are placed. -/
theorem find_append {l : Layout σ} {name : String} {placed : List (InputSection × Nat)}
    (h : ∀ p ∈ placed, p.1.name ≠ name) (dot : Nat) (remaining : List InputSection) :
    Layout.find { l with dot, remaining, placed := l.placed ++ placed } name = l.find name := by
  have hn : placed.find? (·.1.name == name) = none := by
    simpa [List.find?_eq_none] using h
  rw [Layout.find, Layout.find, List.find?_append, hn, Option.or_none]

/-! ## Scripts -/

variable [DecidableEq σ]

def Layout.step (l : Layout σ) : Statement σ → Layout σ
  | .align n => { l with dot := alignTo l.dot n }
  | .symbol x => { l with symbols := Function.update l.symbols x l.dot }
  | .input pattern =>
    let (accepted, remaining) := l.remaining.partition (pattern.accepts ·.name)
    accepted.foldl .place { l with remaining }

def Layout.run (l : Layout σ) (script : List (Statement σ)) : Layout σ := script.foldl .step l

/-- The output section with the statements `script`, at `start`. -/
def link (start : Nat) (sections : List InputSection) (script : List (Statement σ)) : Layout σ :=
  Layout.run ⟨start, sections, fun _ => 0, []⟩ script

/-! ## Statements -/

theorem run_append (l : Layout σ) (script script' : List (Statement σ)) :
    l.run (script ++ script') = (l.run script).run script' := List.foldl_append ..

theorem step_input (l : Layout σ) (pattern : Pattern) : ∃ dot placed, l.step (.input pattern) =
    { l with
      dot, placed := l.placed ++ placed, remaining := l.remaining.filter (!pattern.accepts ·.name) } ∧
    l.dot ≤ dot ∧ ∀ p ∈ placed, pattern.accepts p.1.name = true := by
  let remaining := l.remaining.filter (!pattern.accepts ·.name)
  obtain ⟨dot, placed, h, hdot, hp⟩ := foldl_place (l.remaining.filter (pattern.accepts ·.name)) { l with remaining }
  refine ⟨dot, placed, ?_, hdot, fun p hm => ?_⟩
  · rw [Layout.step, List.partition_eq_filter_filter]
    exact h
  · have : p.1 ∈ l.remaining.filter (pattern.accepts ·.name) := hp ▸ List.mem_map_of_mem hm
    exact (List.mem_filter.mp this).2

theorem dot_le_step (l : Layout σ) (st : Statement σ) : l.dot ≤ (l.step st).dot := by
  cases st with
  | align n => exact le_alignTo l.dot n
  | symbol x => exact Nat.le_refl _
  | input pattern =>
    obtain ⟨dot, placed, h, hdot, -⟩ := step_input l pattern
    rw [h]
    exact hdot

theorem dot_le_run (l : Layout σ) (script : List (Statement σ)) : l.dot ≤ (l.run script).dot := by
  induction script generalizing l with
  | nil => exact Nat.le_refl _
  | cons st script ih => exact Nat.le_trans (dot_le_step l st) (ih _)

theorem step_symbols {x : σ} {st : Statement σ} (h : st ≠ .symbol x) (l : Layout σ) :
    (l.step st).symbols x = l.symbols x := by
  cases st with
  | align n => rfl
  | symbol y => exact Function.update_of_ne (fun e => h (congrArg _ e.symm)) ..
  | input pattern =>
    obtain ⟨dot, placed, hs, -⟩ := step_input l pattern
    rw [hs]

/-- A symbol that is not defined again stays. -/
theorem run_symbols {x : σ} {script : List (Statement σ)} (h : ∀ st ∈ script, st ≠ .symbol x) (l : Layout σ) :
    (l.run script).symbols x = l.symbols x := by
  induction script generalizing l with
  | nil => rfl
  | cons st script ih =>
    obtain ⟨hst, h⟩ := List.forall_mem_cons.mp h
    exact (ih h _).trans (step_symbols hst l)

/-- The statement has no pattern for input sections of the name. -/
def Statement.Skips (name : String) : Statement σ → Prop
  | .input pattern => pattern.accepts name = false
  | _ => True

variable {name : String}

theorem step_skips {st : Statement σ} (h : st.Skips name) (l : Layout σ) :
    (l.step st).remaining.filter (·.name == name) = l.remaining.filter (·.name == name) ∧
      (l.step st).find name = l.find name := by
  cases st with
  | align n => exact ⟨rfl, rfl⟩
  | symbol y => exact ⟨rfl, rfl⟩
  | input pattern =>
    obtain ⟨dot, placed, hs, -, hp⟩ := step_input l pattern
    rw [hs]
    refine ⟨?_, find_append (fun p hm e => ?_) _ _⟩
    · rw [List.filter_filter]
      refine List.filter_congr fun s _ => ?_
      by_cases hs : s.name = name
      · simp [hs, show pattern.accepts name = false from h]
      · simp [hs]
    · have := hp p hm
      rw [e, show pattern.accepts name = false from h] at this
      exact absurd this (by decide)

theorem run_skips {script : List (Statement σ)} (h : ∀ st ∈ script, st.Skips name) (l : Layout σ) :
    (l.run script).remaining.filter (·.name == name) = l.remaining.filter (·.name == name) ∧
      (l.run script).find name = l.find name := by
  induction script generalizing l with
  | nil => exact ⟨rfl, rfl⟩
  | cons st script ih =>
    obtain ⟨hst, h⟩ := List.forall_mem_cons.mp h
    obtain ⟨hr, hf⟩ := step_skips hst l
    exact ⟨(ih h _).1.trans hr, (ih h _).2.trans hf⟩

theorem step_find {st : Statement σ} {l : Layout σ} {a : Nat} (h : l.find name = some a) :
    (l.step st).find name = some a := by
  cases st with
  | align n => exact h
  | symbol y => exact h
  | input pattern =>
    obtain ⟨dot, placed, hs, -⟩ := step_input l pattern
    obtain ⟨p, hp, rfl⟩ := Option.map_eq_some_iff.mp h
    rw [hs, Layout.find, List.find?_append, hp, Option.some_or]
    rfl

/-- A section that has its place keeps it. -/
theorem run_find {l : Layout σ} {a : Nat} (h : l.find name = some a) (script : List (Statement σ)) :
    (l.run script).find name = some a := by
  induction script generalizing l with
  | nil => exact h
  | cons st script ih => exact ih (step_find h)

/-! ## Regions -/

/-- Statements for the region of the input sections of a name, between two symbols. -/
def region (n : Nat) (lo : σ) (name : String) (hi : σ) : List (Statement σ) :=
  [.align n, .symbol lo, .input (.exact name), .align n, .symbol hi]

variable {n : Nat} {lo hi : σ} {l : Layout σ}

omit [DecidableEq σ] in
theorem region_skips {name' : String} (h : name' ≠ name) : ∀ st ∈ region n lo name hi, st.Skips name' := by
  simp [region, Statement.Skips, Pattern.accepts, h]

/-- Without input the region is empty. -/
theorem region_empty (hn : 0 < n) (hne : lo ≠ hi) (h : l.remaining.filter (·.name == name) = []) :
    (l.run (region n lo name hi)).dot = alignTo l.dot n ∧
      (l.run (region n lo name hi)).symbols lo = alignTo l.dot n ∧
      (l.run (region n lo name hi)).symbols hi = alignTo l.dot n := by
  simp only [region, Layout.run, List.foldl_cons, List.foldl_nil, Layout.step, List.partition_eq_filter_filter,
    Pattern.accepts, h, alignTo_of_dvd (dvd_alignTo l.dot hn), Function.update_self, Function.update_of_ne hne,
    and_self]

/-- The region of one input section. -/
theorem region_single {s : InputSection} (h : l.remaining.filter (·.name == name) = [s])
    (hf : l.find name = none) :
    (l.run (region n lo name hi)).dot = alignTo (alignTo (alignTo l.dot n) s.align + s.size) n ∧
      (l.run (region n lo name hi)).find name = some (alignTo (alignTo l.dot n) s.align) := by
  have hs : s.name = name := by
    have : s ∈ l.remaining.filter (·.name == name) := h ▸ List.mem_singleton_self s
    simpa using (List.mem_filter.mp this).2
  rw [Layout.find, Option.map_eq_none_iff] at hf
  simp only [region, Layout.run, List.foldl_cons, List.foldl_nil, Layout.step, List.partition_eq_filter_filter,
    Pattern.accepts, h, Layout.place, Layout.find, List.find?_append, hf, true_and]
  simp [hs]

end RvOs.Linker
