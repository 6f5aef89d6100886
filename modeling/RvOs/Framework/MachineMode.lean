import RvOs.Framework.RiscV

/-!
# Machine-mode code

The CSRs of M-mode and straight-line code that accesses them (`execAllM`), over
the instructions of `RiscV`. Registers that no instruction writes are kept
(`execAllM_get`).
-/

namespace RvOs.RiscV

inductive MCsr where
  | mstatus | mepc | mcause | mtval | mscratch
  deriving DecidableEq

structure MState extends State where
  mcsr : MCsr → Word

inductive MInstr where
  | base (i : Instr)
  | csrr (rd : Reg) (csr : MCsr)
  | csrrw (rd : Reg) (csr : MCsr) (rs : Reg)

def MInstr.exec (s : MState) : MInstr → MState
  | .base i => { s with toState := RiscV.exec s.toState i }
  | .csrr rd csr => { s with toState := s.toState.set rd (s.mcsr csr) }
  | .csrrw rd csr rs =>
    { toState := s.toState.set rd (s.mcsr csr), mcsr := Function.update s.mcsr csr (s.get rs) }

def MInstr.csrw (csr : MCsr) (rs : Reg) : MInstr := .csrrw .zero csr rs

/-- Straight-line code. -/
def execAllM (is : List MInstr) (s : MState) : MState := is.foldl MInstr.exec s

theorem execAllM_cons (i : MInstr) (is : List MInstr) (s : MState) :
    execAllM (i :: is) s = execAllM is (i.exec s) := rfl

theorem execAllM_append (is js : List MInstr) (s : MState) : execAllM (is ++ js) s = execAllM js (execAllM is s) :=
  List.foldl_append ..

theorem execAllM_base (is : List Instr) (s : MState) :
    execAllM (is.map .base) s = { s with toState := execAll is s.toState } := by
  induction is generalizing s with
  | nil => rfl
  | cons i is ih => exact ih (MInstr.exec s (.base i))

/-- CSRs stored through the register `tmp`. -/
def csrSavesM (tmp base : Reg) (slots : List (MCsr × Nat)) : List MInstr :=
  slots.flatMap fun (c, o) => [.csrr tmp c, .base (.sd tmp o base)]

theorem execAllM_csrSavesM (tmp base : Reg) (slots : List (MCsr × Nat)) (s : MState) :
    execAllM (csrSavesM tmp base slots) s =
      { s with toState := storeVia s.mcsr tmp base slots s.toState } := by
  induction slots generalizing s with
  | nil => rfl
  | cons p slots ih => exact ih (MInstr.exec (MInstr.exec s (.csrr tmp p.1)) (.base (.sd tmp p.2 base)))

/-! ## Registers that are kept -/

/-- The register that an instruction writes. -/
def Instr.dest : Instr → Option Reg
  | .ld rd _ _ => some rd
  | .sd _ _ _ => none
  | .addi rd _ _ => some rd
  | .andi rd _ _ => some rd
  | .mv rd _ => some rd
  | .csrr rd _ => some rd
  | .csrw _ _ => none
  | .csrrw rd _ _ => some rd

def MInstr.dest : MInstr → Option Reg
  | .base i => i.dest
  | .csrr rd _ => some rd
  | .csrrw rd _ _ => some rd

variable {r : Reg}

theorem exec_get {i : Instr} (h : i.dest ≠ some r) (s : State) : (exec s i).get r = s.get r := by
  cases i with
  | sd | csrw => rfl
  | ld | addi | andi | mv | csrr | csrrw => exact State.get_set_of_ne _ _ fun e => h (congrArg some e.symm)

theorem MInstr.exec_get {i : MInstr} (h : i.dest ≠ some r) (s : MState) : (i.exec s).get r = s.get r := by
  cases i with
  | base i => exact RiscV.exec_get h s.toState
  | csrr | csrrw => exact State.get_set_of_ne _ _ fun e => h (congrArg some e.symm)

theorem execAllM_get {is : List MInstr} (h : ∀ i ∈ is, i.dest ≠ some r) (s : MState) :
    (execAllM is s).get r = s.get r := by
  induction is generalizing s with
  | nil => rfl
  | cons i is ih =>
    obtain ⟨hi, h⟩ := List.forall_mem_cons.mp h
    rw [execAllM_cons, ih h, MInstr.exec_get hi]

end RvOs.RiscV
