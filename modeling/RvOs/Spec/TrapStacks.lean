import RvOs.Impl.KernelImage
import RvOs.Impl.MachineTrap
import RvOs.Spec.TrapRuns

/-!
# What the trap stacks are for

Runs of M-mode traps (`MachineStep`), and the stacks of an image: every frame
is to be in the region of its trap stack, and these are to be apart from each
other and from the boot stack (`TrapStacksSound`).
-/

namespace RvOs

open RiscV

/-- The hart from `machine_traps_init` on, with the states in which its traps
call `machine_trap_handler`, the last one first. -/
structure MachineRun where
  state : MState
  called : List MState

inductive MachineStep : MachineRun → MachineRun → Prop where
  /-- Code of any mode, outside `m_trap.S` and `machine_traps_init`, which alone write `mscratch`. -/
  | code {s s' called} (h : s'.mcsr .mscratch = s.mcsr .mscratch) : MachineStep ⟨s, called⟩ ⟨s', called⟩
  /-- A trap keeps the registers, memory, the CSRs of S-mode and `mscratch`. -/
  | trap {s taken called} (hs : taken.toState = s.toState) (h : taken.mcsr .mscratch = s.mcsr .mscratch) :
    MachineStep ⟨s, called⟩ ⟨execAllM machineTrapEntry taken, execAllM machineTrapEntry taken :: called⟩

/-- M-mode after `machine_traps_init`. -/
def machineReady (machineTrapStackTop : U64) (s : MState) : MachineRun := ⟨machineTrapsInit machineTrapStackTop s, []⟩

namespace Region

variable (r : Region)

/-- The frame at `a`. -/
def HasFrame (a : Addr) : Prop := r.lo.toNat ≤ a.toNat ∧ a.toNat + 288 ≤ r.hi.toNat

def Disjoint (r' : Region) : Prop :=
  ∀ x : Addr, ¬ (r.lo ≤ x ∧ x < r.hi ∧ r'.lo ≤ x ∧ x < r'.hi)

end Region

namespace KernelImage

variable (k : KernelImage)

/-- A U-mode trap of a run calls its handler in `t`. -/
def UserTrap (t : State) : Prop :=
  ∃ s c, Relation.ReflTransGen TrapStep (trapsReady (k.symbol .supervisorTrapStackTop) s) c ∧
    ∃ p ∈ c.pending, p.mode = .user ∧ p.called = t

/-- The trap that comes after `earlier` ones in a run in M-mode calls its handler in `t`. -/
def MachineTrap (earlier : List MState) (t : MState) : Prop :=
  k.boot = .machine ∧
    ∃ s c, Relation.ReflTransGen MachineStep (machineReady (k.symbol .machineTrapStackTop) s) c ∧
      c.called = t :: earlier

structure TrapStacksSound : Prop where
  supervisorFrame : ∀ t, k.UserTrap t → k.supervisorTrapStack.HasFrame (t.get .a0)
  machineFrame : ∀ earlier t, k.MachineTrap earlier t → k.machineTrapStack.HasFrame (t.get .a0)
  traps : k.supervisorTrapStack.Disjoint k.machineTrapStack
  supervisor : k.supervisorTrapStack.Disjoint k.bootStack
  machine : k.machineTrapStack.Disjoint k.bootStack

/-- The frames are at the top of the boot stack, and not in the regions of the
trap stacks, where no frame is. -/
structure TrapsOnBootStack : Prop where
  supervisorFrame : ∀ t, k.UserTrap t → ¬ k.supervisorTrapStack.HasFrame (t.get .a0) ∧
    k.bootStack.HasFrame (t.get .a0) ∧ t.get .a0 = k.stackTop - 288
  machineFrame : ∀ earlier t, k.MachineTrap earlier t → ¬ k.machineTrapStack.HasFrame (t.get .a0)
  -- until then `mscratch` is as `machine_traps_init` leaves it
  firstMachineFrame : ∀ t, k.MachineTrap [] t → k.bootStack.HasFrame (t.get .a0) ∧ t.get .a0 = k.stackTop - 288

end KernelImage

end RvOs
