import Mathlib.Logic.Function.Basic
import RvOs.Framework.Mem

/-!
# Assembly programs

The RV64 instructions of hand-written trap code, on registers, CSRs and
memory, and programs of labelled blocks (`Program`). A block ends by going to
another one, by a call, which a function on states stands for, or by `sret`.
`run` is the whole program, `runToCall` its part up to the first call and
`path` the blocks of that part.
Sequences of stores and loads off one base register are `saves_ok`,
`storeVia_ok`, `loads_ok` and `csrLoads_ok`, and a whole frame is
`saves_storeVia_ok`.
-/

namespace RvOs.RiscV

abbrev Word := BitVec 64

/-- The registers, by their ABI names. -/
inductive Reg where
  | zero | ra | sp | gp | tp | t0 | t1 | t2 | s0 | s1 | a0 | a1 | a2 | a3 | a4 | a5 | a6 | a7
  | s2 | s3 | s4 | s5 | s6 | s7 | s8 | s9 | s10 | s11 | t3 | t4 | t5 | t6
  deriving DecidableEq

inductive Csr where
  | sstatus | sepc | scause | stval | sscratch
  deriving DecidableEq

structure State where
  gpr : Reg → Word
  csr : Csr → Word
  mem : Mem

namespace State

def get (s : State) (r : Reg) : Word := if r = .zero then 0 else s.gpr r
def set (s : State) (r : Reg) (v : Word) : State := { s with gpr := Function.update s.gpr r v }
def setCsr (s : State) (c : Csr) (v : Word) : State := { s with csr := Function.update s.csr c v }

variable (s : State) (r r' : Reg) (c c' : Csr) (v : Word)

@[simp] theorem set_csr : (s.set r v).csr = s.csr := rfl
@[simp] theorem setCsr_get : (s.setCsr c v).get r = s.get r := rfl
@[simp] theorem mem_get (m : Mem) : { s with mem := m }.get r = s.get r := rfl
@[simp] theorem get_zero : s.get .zero = 0 := rfl

theorem get_set : (s.set r v).get r' = if r' = .zero then 0 else if r' = r then v else s.get r' := by
  unfold get set
  simp only [Function.update_apply]
  split <;> rfl

theorem get_set_of_ne {r r' : Reg} (h : r' ≠ r) : (s.set r v).get r' = s.get r' := by
  rw [get_set, if_neg h, get]
  split <;> rfl

theorem get_set_self {r : Reg} (h : r ≠ .zero) : (s.set r v).get r = v := by
  rw [get_set, if_neg h, if_pos rfl]

theorem setCsr_csr : (s.setCsr c v).csr c' = if c' = c then v else s.csr c' := by
  unfold setCsr
  simp only [Function.update_apply]

end State

/-- Instructions, with the operands in assembly order. -/
inductive Instr where
  | ld (rd : Reg) (off : Nat) (base : Reg)
  | sd (rs : Reg) (off : Nat) (base : Reg)
  | addi (rd rs : Reg) (imm : Int)
  | andi (rd rs : Reg) (imm : Nat)
  | mv (rd rs : Reg)
  | csrr (rd : Reg) (csr : Csr)
  | csrw (csr : Csr) (rs : Reg)
  | csrrw (rd : Reg) (csr : Csr) (rs : Reg)

def exec (s : State) : Instr → State
  | .ld rd off base => s.set rd (s.mem.read64 (s.get base + BitVec.ofNat 64 off))
  | .sd rs off base => { s with mem := s.mem.write64 (s.get base + BitVec.ofNat 64 off) (s.get rs) }
  | .addi rd rs imm => s.set rd (s.get rs + BitVec.ofInt 64 imm)
  | .andi rd rs imm => s.set rd (s.get rs &&& BitVec.ofNat 64 imm)
  | .mv rd rs => s.set rd (s.get rs)
  | .csrr rd csr => s.set rd (s.csr csr)
  | .csrw csr rs => s.setCsr csr (s.get rs)
  -- the register written gets the old value of the CSR
  | .csrrw rd csr rs => (s.setCsr csr (s.get rs)).set rd (s.csr csr)

/-- Straight-line code. -/
def execAll (is : List Instr) (s : State) : State := is.foldl exec s

theorem execAll_cons (i : Instr) (is : List Instr) (s : State) :
    execAll (i :: is) s = execAll is (exec s i) := rfl

theorem execAll_nil (s : State) : execAll [] s = s := rfl

theorem execAll_append (is js : List Instr) (s : State) : execAll (is ++ js) s = execAll js (execAll is s) :=
  List.foldl_append ..

/-- How a block ends: `beqz` goes to its label or falls through, a call returns to a block. -/
inductive Exit (L : Type*) where
  | goto (l : L)
  | beqz (rs : Reg) (taken next : L)
  | call (next : L)
  | sret

structure Block (L : Type*) where
  body : List Instr
  exit : Exit L

abbrev Program (L : Type*) := L → Block L

def Instr.isStore : Instr → Bool
  | .sd .. => true
  | _ => false

theorem exec_mem {i : Instr} (h : i.isStore = false) (s : State) : (exec s i).mem = s.mem := by
  cases i with
  | sd => cases h
  | ld | addi | andi | mv | csrr | csrw | csrrw => rfl

/-- Code without stores keeps memory. -/
theorem execAll_mem {is : List Instr} (h : ∀ i ∈ is, i.isStore = false) (s : State) : (execAll is s).mem = s.mem := by
  induction is generalizing s with
  | nil => rfl
  | cons i is ih =>
    obtain ⟨hi, h⟩ := List.forall_mem_cons.mp h
    rw [execAll_cons, ih h, exec_mem hi]

section Run

variable {L : Type*} (prog : Program L) (callee : State → State)

/-- The label `beqz` goes to. -/
def branch (s : State) (rs : Reg) (taken next : L) : L := if s.get rs = 0 then taken else next

/-- At most `n` blocks from `l` to an `sret`. -/
def run : Nat → L → State → Option State
  | 0, _, _ => none
  | n + 1, l, s =>
    let s := execAll (prog l).body s
    match (prog l).exit with
    | .goto l => run n l s
    | .beqz rs taken next => run n (branch s rs taken next) s
    | .call next => run n next (callee s)
    | .sret => some s

/-- At most `n` blocks from `l` to a call, and the state that is called in. -/
def runToCall : Nat → L → State → Option State
  | 0, _, _ => none
  | n + 1, l, s =>
    let s := execAll (prog l).body s
    match (prog l).exit with
    | .goto l => runToCall n l s
    | .beqz rs taken next => runToCall n (branch s rs taken next) s
    | .call _ => some s
    | .sret => none

/-- The first `n` blocks from `l`, up to a call or an `sret`. -/
def path : Nat → L → State → List L
  | 0, _, _ => []
  | n + 1, l, s =>
    let s := execAll (prog l).body s
    l :: match (prog l).exit with
      | .goto l => path n l s
      | .beqz rs taken next => path n (branch s rs taken next) s
      | .call _ => []
      | .sret => []

variable {prog callee} {l l' taken next : L} {rs : Reg} (s : State) (n : Nat)

theorem run_goto (h : (prog l).exit = .goto l') :
    run prog callee (n + 1) l s = run prog callee n l' (execAll (prog l).body s) := by
  rw [run, h]

theorem run_beqz (h : (prog l).exit = .beqz rs taken next) : run prog callee (n + 1) l s =
    run prog callee n (branch (execAll (prog l).body s) rs taken next) (execAll (prog l).body s) := by
  rw [run, h]

theorem run_call (h : (prog l).exit = .call next) :
    run prog callee (n + 1) l s = run prog callee n next (callee (execAll (prog l).body s)) := by
  rw [run, h]

theorem run_sret (h : (prog l).exit = .sret) :
    run prog callee (n + 1) l s = some (execAll (prog l).body s) := by
  rw [run, h]

theorem runToCall_goto (h : (prog l).exit = .goto l') :
    runToCall prog (n + 1) l s = runToCall prog n l' (execAll (prog l).body s) := by
  rw [runToCall, h]

theorem runToCall_beqz (h : (prog l).exit = .beqz rs taken next) : runToCall prog (n + 1) l s =
    runToCall prog n (branch (execAll (prog l).body s) rs taken next) (execAll (prog l).body s) := by
  rw [runToCall, h]

theorem runToCall_call (h : (prog l).exit = .call next) :
    runToCall prog (n + 1) l s = some (execAll (prog l).body s) := by
  rw [runToCall, h]

theorem path_goto (h : (prog l).exit = .goto l') :
    path prog (n + 1) l s = l :: path prog n l' (execAll (prog l).body s) := by
  rw [path, h]

theorem path_beqz (h : (prog l).exit = .beqz rs taken next) : path prog (n + 1) l s =
    l :: path prog n (branch (execAll (prog l).body s) rs taken next) (execAll (prog l).body s) := by
  rw [path, h]

theorem path_call (h : (prog l).exit = .call next) : path prog (n + 1) l s = [l] := by
  rw [path, h]

theorem path_sret (h : (prog l).exit = .sret) : path prog (n + 1) l s = [l] := by
  rw [path, h]

end Run

/-! ## Stores and loads off a base register -/

def saves (base : Reg) (slots : List (Reg × Nat)) : List Instr := slots.map fun (r, o) => .sd r o base

def loads (base : Reg) (slots : List (Reg × Nat)) : List Instr := slots.map fun (r, o) => .ld r o base

/-- Words at two offsets from one address do not overlap. -/
def Apart (o o' : Nat) : Prop := o + 8 ≤ o' ∨ o' + 8 ≤ o

instance (o o' : Nat) : Decidable (Apart o o') := inferInstanceAs (Decidable (_ ∨ _))

theorem Apart.symm {o o' : Nat} (h : Apart o o') : Apart o' o := Or.symm h

theorem sep_of_apart (a : Addr) {o o' : Nat} (h : Apart o o') (ho : o < 2 ^ 63) (ho' : o' < 2 ^ 63) :
    Mem.Sep (a + BitVec.ofNat 64 o) 8 (a + BitVec.ofNat 64 o') 8 := by
  intro x hx hx'
  have := x.isLt; have := a.isLt
  unfold Apart at h
  rw [BitVec.toNat_sub, BitVec.toNat_add, BitVec.toNat_ofNat] at hx hx'
  omega

/-- Stores of registers at offsets apart: each word holds its register, words
apart from all are unchanged, and so is the rest of the state. -/
theorem saves_ok (base : Reg) : ∀ (slots : List (Reg × Nat)) (s : State),
    slots.Pairwise (fun p q => Apart p.2 q.2) → (∀ p ∈ slots, p.2 < 2 ^ 63) →
    ∃ m, execAll (saves base slots) s = { s with mem := m } ∧
      (∀ p ∈ slots, m.read64 (s.get base + BitVec.ofNat 64 p.2) = s.get p.1) ∧
      ∀ o < 2 ^ 63, (∀ p ∈ slots, Apart o p.2) →
        m.read64 (s.get base + BitVec.ofNat 64 o) = s.mem.read64 (s.get base + BitVec.ofNat 64 o)
  | [], s, _, _ => ⟨s.mem, rfl, by simp, fun _ _ _ => rfl⟩
  | (r, o) :: slots, s, hp, hlt => by
    obtain ⟨ho, hp⟩ := List.pairwise_cons.mp hp
    obtain ⟨hlt₀, hlt⟩ := List.forall_mem_cons.mp hlt
    obtain ⟨m, he, hin, hout⟩ := saves_ok base slots (exec s (.sd r o base)) hp hlt
    refine ⟨m, he, List.forall_mem_cons.mpr ⟨?_, hin⟩, fun o' ho' ha => ?_⟩
    · refine (hout o hlt₀ ho).trans ?_
      exact Mem.read64_write64_self ..
    · obtain ⟨ha₀, ha⟩ := List.forall_mem_cons.mp ha
      refine (hout o' ho' ha).trans ?_
      exact Mem.read64_write64_sep (sep_of_apart _ ha₀ ho' hlt₀)

theorem execAll_saves_csr (base : Reg) (slots : List (Reg × Nat)) (s : State) :
    (execAll (saves base slots) s).csr = s.csr := by
  induction slots generalizing s with
  | nil => rfl
  | cons p slots ih => exact ih (exec s (.sd p.1 p.2 base))

/-- Bytes outside the words stored are unchanged. -/
theorem saves_outside (base : Reg) {x : Addr} (slots : List (Reg × Nat)) : ∀ s : State,
    (∀ p ∈ slots, ¬ (x - (s.get base + BitVec.ofNat 64 p.2)).toNat < 8) →
    (execAll (saves base slots) s).mem x = s.mem x := by
  induction slots with
  | nil => exact fun s _ => rfl
  | cons p slots ih =>
    intro s h
    obtain ⟨hp, h⟩ := List.forall_mem_cons.mp h
    exact (ih (exec s (.sd p.1 p.2 base)) h).trans (Mem.write64_apply hp)

section Via

variable {α : Type*} (value : α → Word)

/-- Values stored through the register `tmp`. -/
def storeVia (tmp base : Reg) (slots : List (α × Nat)) (s : State) : State :=
  slots.foldl (fun s p => exec (s.set tmp (value p.1)) (.sd tmp p.2 base)) s

theorem storeVia_ok {tmp base : Reg} (ht : tmp ≠ .zero) (hb : base ≠ tmp) :
    ∀ (slots : List (α × Nat)) (s : State), slots.Pairwise (fun p q => Apart p.2 q.2) →
    (∀ p ∈ slots, p.2 < 2 ^ 63) → ∃ m v, storeVia value tmp base slots s = { s.set tmp v with mem := m } ∧
      (∀ p ∈ slots, m.read64 (s.get base + BitVec.ofNat 64 p.2) = value p.1) ∧
      ∀ o < 2 ^ 63, (∀ p ∈ slots, Apart o p.2) →
        m.read64 (s.get base + BitVec.ofNat 64 o) = s.mem.read64 (s.get base + BitVec.ofNat 64 o)
  | [], s, _, _ => by
    refine ⟨s.mem, s.gpr tmp, ?_, by simp, fun _ _ _ => rfl⟩
    rw [State.set, Function.update_eq_self]
    rfl
  | (c, o) :: slots, s, hp, hlt => by
    obtain ⟨ho, hp⟩ := List.pairwise_cons.mp hp
    obtain ⟨hlt₀, hlt⟩ := List.forall_mem_cons.mp hlt
    have hbase : (s.set tmp (value c)).get base = s.get base := State.get_set_of_ne s (value c) hb
    have htmp : (s.set tmp (value c)).get tmp = value c := State.get_set_self s (value c) ht
    obtain ⟨m, v, he, hin, hout⟩ := storeVia_ok ht hb slots (exec (s.set tmp (value c)) (.sd tmp o base)) hp hlt
    rw [exec, State.mem_get, hbase] at hin hout
    rw [htmp] at hout
    refine ⟨m, v, ?_, List.forall_mem_cons.mpr ⟨?_, hin⟩, fun o' ho' ha => ?_⟩
    · refine he.trans ?_
      rw [exec, State.set, State.set, State.set, Function.update_idem]
    · rw [hout o hlt₀ ho]
      exact Mem.read64_write64_self ..
    · obtain ⟨ha₀, ha⟩ := List.forall_mem_cons.mp ha
      rw [hout o' ho' ha]
      exact Mem.read64_write64_sep (sep_of_apart _ ha₀ ho' hlt₀)

theorem storeVia_outside {tmp base : Reg} (hb : base ≠ tmp) {x : Addr} (slots : List (α × Nat)) : ∀ s : State,
    (∀ p ∈ slots, ¬ (x - (s.get base + BitVec.ofNat 64 p.2)).toNat < 8) →
    (storeVia value tmp base slots s).mem x = s.mem x := by
  induction slots with
  | nil => exact fun s _ => rfl
  | cons p slots ih =>
    intro s h
    have hbase : (s.set tmp (value p.1)).get base = s.get base := State.get_set_of_ne s _ hb
    rw [← hbase] at h
    obtain ⟨hp, h⟩ := List.forall_mem_cons.mp h
    exact (ih (exec (s.set tmp (value p.1)) (.sd tmp p.2 base)) h).trans (Mem.write64_apply hp)

/-- Registers stored, and then values through `tmp`: every word holds its own. -/
theorem saves_storeVia_ok {tmp base : Reg} (ht : tmp ≠ .zero) (hb : base ≠ tmp) {regs : List (Reg × Nat)}
    {slots : List (α × Nat)} (hregs : regs.Pairwise fun p q => Apart p.2 q.2)
    (hslots : slots.Pairwise fun p q => Apart p.2 q.2) (ha : ∀ p ∈ regs, ∀ q ∈ slots, Apart p.2 q.2)
    (hlt : ∀ p ∈ regs, p.2 < 2 ^ 63) (hlt' : ∀ p ∈ slots, p.2 < 2 ^ 63) (s : State) :
    ∃ m v, storeVia value tmp base slots (execAll (saves base regs) s) = { s.set tmp v with mem := m } ∧
      (∀ p ∈ regs, m.read64 (s.get base + BitVec.ofNat 64 p.2) = s.get p.1) ∧
      ∀ p ∈ slots, m.read64 (s.get base + BitVec.ofNat 64 p.2) = value p.1 := by
  obtain ⟨m, he, hin, -⟩ := saves_ok base regs s hregs hlt
  obtain ⟨m', v, he', hin', hout⟩ := storeVia_ok value ht hb slots { s with mem := m } hslots hlt'
  refine ⟨m', v, ?_, fun p hp => ?_, hin'⟩
  · rw [he, he']
    rfl
  · exact (hout p.2 (hlt p hp) (ha p hp)).trans (hin p hp)

end Via

/-- CSRs stored through the register `tmp`. -/
def csrSaves (tmp base : Reg) (slots : List (Csr × Nat)) : List Instr :=
  slots.flatMap fun (c, o) => [.csrr tmp c, .sd tmp o base]

theorem execAll_csrSaves (tmp base : Reg) (slots : List (Csr × Nat)) (s : State) :
    execAll (csrSaves tmp base slots) s = storeVia s.csr tmp base slots s := by
  induction slots generalizing s with
  | nil => rfl
  | cons p slots ih => exact ih (exec (exec s (.csrr tmp p.1)) (.sd tmp p.2 base))

/-- Loads into different registers, none of them the base. -/
theorem loads_ok (base : Reg) : ∀ (slots : List (Reg × Nat)) (s : State), (slots.map (·.1)).Nodup →
    base ∉ slots.map (·.1) → .zero ∉ slots.map (·.1) →
    ∃ g, execAll (loads base slots) s = { s with gpr := g } ∧
      (∀ p ∈ slots, g p.1 = s.mem.read64 (s.get base + BitVec.ofNat 64 p.2)) ∧
      ∀ r, r ∉ slots.map (·.1) → g r = s.gpr r
  | [], s, _, _, _ => ⟨s.gpr, rfl, by simp, fun _ _ => rfl⟩
  | (r, o) :: slots, s, hn, hb, hz => by
    rw [List.map_cons, List.nodup_cons] at hn
    rw [List.map_cons, List.mem_cons, not_or] at hb hz
    obtain ⟨g, he, hin, hout⟩ := loads_ok base slots (exec s (.ld r o base)) hn.2 hb.2 hz.2
    have hbase : (exec s (.ld r o base)).get base = s.get base := State.get_set_of_ne s _ hb.1
    rw [hbase] at hin
    refine ⟨g, he, List.forall_mem_cons.mpr ⟨?_, hin⟩, fun r' hr' => ?_⟩
    · rw [hout r hn.1]
      exact Function.update_self ..
    · rw [List.map_cons, List.mem_cons, not_or] at hr'
      rw [hout r' hr'.2]
      exact Function.update_of_ne hr'.1 ..

/-- CSRs loaded through the register `tmp`. -/
def csrLoads (tmp base : Reg) (slots : List (Csr × Nat)) : List Instr :=
  slots.flatMap fun (c, o) => [.ld tmp o base, .csrw c tmp]

theorem csrLoads_ok {tmp base : Reg} (ht : tmp ≠ .zero) (hb : base ≠ tmp) :
    ∀ (slots : List (Csr × Nat)) (s : State), (slots.map (·.1)).Nodup →
    ∃ k v, execAll (csrLoads tmp base slots) s = { s.set tmp v with csr := k } ∧
      (∀ p ∈ slots, k p.1 = s.mem.read64 (s.get base + BitVec.ofNat 64 p.2)) ∧
      ∀ c, c ∉ slots.map (·.1) → k c = s.csr c
  | [], s, _ => by
    refine ⟨s.csr, s.gpr tmp, ?_, by simp, fun _ _ => rfl⟩
    rw [State.set, Function.update_eq_self]
    rfl
  | (c, o) :: slots, s, hn => by
    rw [List.map_cons, List.nodup_cons] at hn
    let v₀ := s.mem.read64 (s.get base + BitVec.ofNat 64 o)
    have hbase : ((s.set tmp v₀).setCsr c v₀).get base = s.get base := State.get_set_of_ne s v₀ hb
    obtain ⟨k, v, he, hin, hout⟩ := csrLoads_ok ht hb slots ((s.set tmp v₀).setCsr c v₀) hn.2
    rw [hbase] at hin
    refine ⟨k, v, ?_, List.forall_mem_cons.mpr ⟨?_, hin⟩, fun c' hc' => ?_⟩
    · rw [csrLoads, List.flatMap_cons, execAll_append, execAll_cons, exec, execAll_cons, exec, execAll_nil,
        State.get_set_self _ _ ht]
      refine he.trans ?_
      rw [State.set, State.setCsr, State.set, State.set, Function.update_idem]
    · rw [hout c hn.1, State.setCsr_csr, if_pos rfl]
    · rw [List.map_cons, List.mem_cons, not_or] at hc'
      rw [hout c' hc'.2, State.setCsr_csr, if_neg hc'.1, State.set_csr]

end RvOs.RiscV
