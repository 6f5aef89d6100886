import RvOs.Impl.KernelImage
import RvOs.Impl.Supervisor
import RvOs.Spec.KernelMap
import RvOs.Spec.UserRuns

/-!
# From boot to the user program

A boot (`UserBoot`) is `supervisor_main` up to the `sret` of `user_enter`,
which is called on the boot stack with the context of the program that was
loaded (`EntersUser`). It is to leave a hart that is ready to run that program
(`Boots`) from its start (`Task.start`).
-/

namespace RvOs

open RiscV

/-- The bytes of the boot stack, which the traps from U-mode use too. -/
def KernelImage.onBootStack (k : KernelImage) (a : Addr) : Prop :=
  k.stackBottom.toNat ≤ a.toNat ∧ a.toNat < k.stackTop.toNat

/-- `user_enter` is called in `s`, with the memory `m` of the loader. -/
structure EntersUser (k : KernelImage) (program : LoadedUserProgram) (hartid dtb : U64) (m : Mem) (s : State) :
    Prop where
  context : contextAt s.mem (s.get .a0) =
    userContextInit (s.csr .sstatus) program.entry program.stackTop hartid dtb
  sscratch : s.csr .sscratch = k.symbol .supervisorTrapStackTop
  /-- Only the copies from and to user memory set SUM. -/
  sum : hasFlag (s.csr .sstatus) SSTATUS_SUM = false
  mem : ∀ a, ¬ k.onBootStack a → s.mem a = m a

/-- The hart after the `sret` in `s`. -/
def UserHart.enter (s : State) (rx tx : List Byte) : UserHart :=
  { toState := sret s, mode := sretMode s, pc := s.csr .sepc, rx, tx }

/-- The hart is ready to run the program `t` in the memory `m₀`. -/
structure Boots (k : KernelImage) (root : Addr) (m₀ : Mem) (m : UserHart) (t : Task) : Prop where
  space : UserSpace root k.onBootStack k.stackTop (.ofTables m₀ root) m₀
  status : UserStatus (m.csr .sstatus)
  ready : UserReady k.onBootStack k.stackTop (.ofTables m₀ root) m₀ (m.csr .sstatus) m
  task : m.task (.ofTables m₀ root) = t

/-- The bytes of the image in memory. -/
def imageBytes (m : Mem) (imageStart imageEnd : Addr) : List Byte :=
  (List.range (imageEnd - imageStart).toNat).map fun i => m (imageStart + BitVec.ofNat 64 i)

/-- A program that starts: its image, and zeros in the rest of its memory. -/
def Task.start (image : List Byte) (hartid dtb : U64) (rx tx : List Byte) : Task where
  reg := fun r =>
    match r with
    | .sp => USER_STACK_TOP
    | .a0 => hartid
    | .a1 => dtb
    | _ => 0
  pc := USER_TEXT_START
  mem va := image.getD (va - USER_TEXT_START).toNat 0
  rx := rx
  tx := tx

/-- A boot with the user program at `[imageStart, imageEnd)` of the kernel image. -/
structure UserBoot where
  image : KernelImage
  symbols : ImageSymbols
  sym : KernelSymbols
  imageStart : Addr
  imageEnd : Addr
  hartid : U64
  dtb : Fdt
  /-- Memory and statics at `supervisor_main`, after `paging_init`, and after the loader. -/
  start : BootState
  kernel : Supervisor
  loaded : KState
  program : LoadedUserProgram
  /-- The hart at `user_enter` and at its `sret`. -/
  enter : State
  leave : State
  within : PlatformWithin (2 ^ 56) kernel.platform
  stack : image.stackTop.toNat ≤ kernel.platform.kernelEnd.toNat
  user : imageStart.toNat ≤ imageEnd.toNat ∧ imageEnd.toNat ≤ kernel.platform.kernelEnd.toNat
  main : supervisorMain symbols sym dtb start gUartBaseInitial = some (some kernel)
  load : processLoadInitialUserProgram .direct .phys kernel.root imageStart imageEnd kernel.toKState =
    some (some program, loaded)
  enters : EntersUser image program hartid dtb.addr loaded.mem enter
  sret : run (fun _ => userEnter) id 1 () enter = some leave

namespace UserBoot

variable (B : UserBoot)

def root : Addr := satpRoot B.kernel.satp

def translation : Translation := .ofTables B.loaded.mem B.root

/-- The kernel's own memory: its image, with the boot stack in it. -/
def own (a : Addr) : Prop := a.toNat < B.kernel.platform.kernelEnd.toNat

/-- The image of the user program. -/
def userImage : List Byte := imageBytes B.start.mem B.imageStart B.imageEnd

variable (rx tx : List Byte)

/-- U-mode, with `tx` sent during boot. -/
def hart : UserHart := .enter B.leave rx tx

def task : Task := .start B.userImage B.hartid B.dtb.addr rx tx

/-- `sstatus` in U-mode, and in the frames of its traps. -/
def status : U64 := sretStatus (B.leave.csr .sstatus)

def frameStatus : U64 := takenStatus .user B.status

end UserBoot

end RvOs
