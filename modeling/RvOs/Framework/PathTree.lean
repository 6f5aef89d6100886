import Mathlib.Data.List.Induction
import Mathlib.Tactic.Common

/-!
# Trees of nodes reached by paths

Nodes `N` are linked by `next : N → I → Option N`, and `nodeAt next r p` is
the node at the end of the path `p` from the root `r`. `IsTree next r d`: no
node is reached by two paths of length at most `d`, so no node is linked
twice or is the root. A fresh node linked into a tree adds one path and moves
no other (`nodeAt_link`, `IsTree.link`); a change below depth `d` moves none
(`nodeAt_congr`).
-/

namespace RvOs.PathTree

variable {N I : Type*} {next next' : N → I → Option N} {r n g : N} {p q : List I} {i : I} {d : Nat}

/-- The node at the end of the path `p` from `r`. -/
def nodeAt (next : N → I → Option N) (r : N) (p : List I) : Option N := p.foldlM next r

@[simp] theorem nodeAt_nil (next : N → I → Option N) (r : N) : nodeAt next r [] = some r := rfl

@[simp] theorem nodeAt_concat (next : N → I → Option N) (r : N) (p : List I) (i : I) :
    nodeAt next r (p ++ [i]) = (nodeAt next r p).bind (next · i) := by
  simp only [nodeAt, List.foldlM_append, List.foldlM_cons, List.foldlM_nil]
  cases List.foldlM next r p with
  | none => rfl
  | some x => cases h : next x i <;> simp [h]

attribute [irreducible] nodeAt

/-- No node is reached by two paths of length at most `d`. -/
def IsTree (next : N → I → Option N) (r : N) (d : Nat) : Prop :=
  ∀ p q x, p.length ≤ d → q.length ≤ d → nodeAt next r p = some x → nodeAt next r q = some x → p = q

/-- The links followed by paths of length at most `d` are those of nodes
reached by shorter ones. -/
theorem nodeAt_congr (h : ∀ p x i, p.length < d → nodeAt next r p = some x → next' x i = next x i) :
    p.length ≤ d → nodeAt next' r p = nodeAt next r p := by
  induction p using List.reverseRecOn with
  | nil => exact fun _ => (nodeAt_nil ..).trans (nodeAt_nil ..).symm
  | append_singleton p i ih =>
    intro hp
    rw [List.length_append, List.length_singleton] at hp
    rw [nodeAt_concat, nodeAt_concat, ih (by omega)]
    cases hx : nodeAt next r p with
    | none => rfl
    | some x => exact h p x i hp hx

/-- A root without links reaches only itself. -/
theorem nodeAt_leaf (h : ∀ i, next r i = none) : nodeAt next r p = some n → p = [] ∧ n = r := by
  induction p using List.reverseRecOn generalizing n with
  | nil => exact fun e => ⟨rfl, (Option.some.inj (nodeAt_nil next r ▸ e)).symm⟩
  | append_singleton p i ih =>
    intro e
    rw [nodeAt_concat, Option.bind_eq_some_iff] at e
    obtain ⟨x, hx, hi⟩ := e
    rw [(ih hx).2, h] at hi
    cases hi

theorem IsTree.leaf (h : ∀ i, next r i = none) : IsTree next r d :=
  fun _ _ _ _ _ hp hq => (nodeAt_leaf h hp).1.trans (nodeAt_leaf h hq).1.symm

section Link

variable (ht : IsTree next r d) (hq : nodeAt next r q = some n) (hd : q.length < d)
  (h₀ : next n i = none) (hg : ∀ p, p.length ≤ d → nodeAt next r p ≠ some g)
  (h₁ : next' n i = some g) (h₂ : ∀ j, next' g j = none)
  (h₃ : ∀ p x j, p.length < d → nodeAt next r p = some x → ¬ (x = n ∧ j = i) → next' x j = next x j)

include ht hq hd h₀ h₁ h₂ h₃

/-- Linking the fresh node `g` at index `i` of the node at `q`: only the path
`q ++ [i]` changes. -/
theorem nodeAt_link [DecidableEq I] (hp : p.length ≤ d) :
    nodeAt next' r p = if p = q ++ [i] then some g else nodeAt next r p := by
  induction p using List.reverseRecOn with
  | nil => simp
  | append_singleton p j ih =>
    rw [List.length_append, List.length_singleton] at hp
    rw [nodeAt_concat, nodeAt_concat, ih (by omega)]
    by_cases hpq : p = q ++ [i]
    · -- below the fresh node there is nothing, before and after
      have hn : nodeAt next r p = none := by rw [hpq, nodeAt_concat, hq]; exact h₀
      have hne : p ++ [j] ≠ q ++ [i] := fun e => by
        have := congrArg List.length e
        rw [hpq] at this; simp at this
      rw [if_pos hpq, if_neg hne, hn]
      exact h₂ j
    · rw [if_neg hpq]
      by_cases hj : p ++ [j] = q ++ [i]
      · obtain ⟨hpe, hji⟩ := List.append_inj' hj rfl
        rw [if_pos hj, hpe, hq, List.singleton_inj.mp hji]
        exact h₁
      · rw [if_neg hj]
        cases hx : nodeAt next r p with
        | none => rfl
        | some x =>
          refine h₃ p x j hp hx fun ⟨hxn, hji⟩ => hj ?_
          rw [ht p q n (by omega) (by omega) (hxn ▸ hx) hq, hji]

include hg

/-- A tree stays one when a fresh node is linked into it. -/
theorem IsTree.link : IsTree next' r d := by
  classical
  have e := fun {p} hp => nodeAt_link (p := p) ht hq hd h₀ h₁ h₂ h₃ hp
  intro p p' x hp hp' hx hx'
  rw [e hp] at hx
  rw [e hp'] at hx'
  by_cases h : p = q ++ [i] <;> by_cases h' : p' = q ++ [i] <;> simp only [h, h', ite_true, ite_false] at hx hx'
  · rw [h, h']
  · exact absurd (hx'.trans hx.symm) (hg p' hp')
  · exact absurd (hx.trans hx'.symm) (hg p hp)
  · exact ht p p' x hp hp' hx hx'

end Link

theorem IsTree.congr (ht : IsTree next r d)
    (h : ∀ p x i, p.length < d → nodeAt next r p = some x → next' x i = next x i) :
    IsTree next' r d := fun p q x hp hq hx hx' =>
  ht p q x hp hq (nodeAt_congr h hp ▸ hx) (nodeAt_congr h hq ▸ hx')

end RvOs.PathTree
