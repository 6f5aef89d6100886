import RvOs.Proof.TrapRuns
import RvOs.Spec.TrapStacks

/-!
# Trap frames are on the boot stack

No input section goes to the region of a trap stack, so that both regions are
empty, at the top of the boot stack (`layout_ok`). A trap from U-mode and the
first one of M-mode build their frames below these (`userTrap_frame`,
`machineTrap_frame`).
-/

namespace RvOs

open RiscV Linker

/-! ## The image -/

/-- `.bss` up to the stacks. -/
def kernelBssFront : List (Statement BssSymbol) := [
  .symbol .bssStart,
  .input (.exact ".bss"),
  .input (.exact ".sbss"),
  .input (.starting ".sbss"),
  .input (.exact "COMMON")]

/-- `.bss` after the stacks. -/
def kernelBssBack : List (Statement BssSymbol) := [.input (.starting ".bss."), .align 4096, .symbol .bssEnd]

theorem kernelBss_eq : kernelBss = kernelBssFront ++
    (region 16 .kernelStackBottom ".bss.stack" .kernelStackTop ++
      (region 16 .supervisorTrapStackBottom ".bss.trapstack" .supervisorTrapStackTop ++
        (region 16 .machineTrapStackBottom ".bss.mtrapstack" .machineTrapStackTop ++ kernelBssBack))) := rfl

theorem kernelBssFront_skips : ∀ name ∈ [".bss.stack", ".bss.trapstack", ".bss.mtrapstack"],
    ∀ st ∈ kernelBssFront, st.Skips name := by
  simp [kernelBssFront, Statement.Skips, Pattern.accepts]
  decide

/-- The layout after the boot stack. -/
def afterStack (k : KernelImage) : Layout BssSymbol :=
  (link k.start k.sections kernelBssFront).run (region 16 .kernelStackBottom ".bss.stack" .kernelStackTop)

/-- The stack of the entry code is placed, and no section is left for a trap stack. -/
theorem afterStack_ok (k : KernelImage) : ∃ b, (afterStack k).find ".bss.stack" = some b ∧
    (afterStack k).dot = b + 8192 ∧ 16 ∣ b + 8192 ∧
    (afterStack k).remaining.filter (·.name == ".bss.trapstack") = [] ∧
    (afterStack k).remaining.filter (·.name == ".bss.mtrapstack") = [] := by
  obtain ⟨l₁, h₁⟩ : ∃ l, l = link k.start k.sections kernelBssFront := ⟨_, rfl⟩
  have hfront (name : String) (hn : name ∈ [".bss.stack", ".bss.trapstack", ".bss.mtrapstack"]) :
      l₁.remaining.filter (·.name == name) = k.sections.filter (·.name == name) ∧ l₁.find name = none := by
    rw [h₁]
    exact run_skips (kernelBssFront_skips name hn) _
  have hrest (name : String) (hn : name ∈ [".bss.trapstack", ".bss.mtrapstack"]) :
      (afterStack k).remaining.filter (·.name == name) = k.sections.filter (·.name == name) := by
    rw [afterStack, ← h₁]
    refine (run_skips (region_skips ?_) l₁).1.trans (hfront name (.tail _ hn)).1
    rintro rfl
    simp at hn
  obtain ⟨hdot, hfind⟩ : (afterStack k).dot = _ ∧ (afterStack k).find ".bss.stack" = _ := by
    rw [afterStack, ← h₁]
    exact region_single ((hfront _ (by simp)).1.trans k.stack) (hfront _ (by simp)).2
  obtain ⟨b, hb⟩ : ∃ b, b = alignTo (alignTo l₁.dot 16) bootStackSection.align := ⟨_, rfl⟩
  have hdvd : 16 ∣ b + 8192 := by
    have : 2 ^ 16 ∣ b := hb ▸ dvd_alignTo _ (by decide)
    omega
  rw [← hb] at hdot hfind
  exact ⟨b, hfind, hdot.trans (alignTo_of_dvd hdvd), hdvd, (hrest _ (by simp)).trans k.trapstack,
    (hrest _ (by simp)).trans k.mtrapstack⟩

/-- The regions of the trap stacks are empty, and start where the boot stack ends. -/
theorem layout_ok (k : KernelImage) : ∃ b, k.layout.find ".bss.stack" = some b ∧ b + 8192 < 2 ^ 64 ∧
    k.layout.symbols .supervisorTrapStackBottom = b + 8192 ∧ k.layout.symbols .supervisorTrapStackTop = b + 8192 ∧
    k.layout.symbols .machineTrapStackBottom = b + 8192 ∧ k.layout.symbols .machineTrapStackTop = b + 8192 := by
  obtain ⟨b, hfind, hdot₂, hdvd, hs, hm⟩ := afterStack_ok k
  let l₃ := (afterStack k).run (region 16 .supervisorTrapStackBottom ".bss.trapstack" .supervisorTrapStackTop)
  let l₄ := l₃.run (region 16 .machineTrapStackBottom ".bss.mtrapstack" .machineTrapStackTop)
  have hlayout : k.layout = l₄.run kernelBssBack := by
    rw [KernelImage.layout, link, kernelBss_eq, run_append, run_append, run_append, run_append]
    rfl
  obtain ⟨hdot₃, hlo₃, hhi₃⟩ : l₃.dot = _ ∧ _ := region_empty (by decide) (by decide) hs
  obtain ⟨hdot₄, hlo₄, hhi₄⟩ : l₄.dot = _ ∧ _ :=
    region_empty (by decide) (by decide) ((run_skips (region_skips (by decide)) _).1.trans hm)
  rw [hdot₂, alignTo_of_dvd hdvd] at hdot₃ hlo₃ hhi₃
  rw [hdot₃, alignTo_of_dvd hdvd] at hdot₄ hlo₄ hhi₄
  have hback (x : BssSymbol) (hx : x ≠ .bssEnd) : k.layout.symbols x = l₄.symbols x := by
    rw [hlayout]
    refine run_symbols ?_ l₄
    simp [kernelBssBack, hx.symm]
  have hregion (x : BssSymbol) (hx : x = .supervisorTrapStackBottom ∨ x = .supervisorTrapStackTop) :
      k.layout.symbols x = l₃.symbols x := by
    refine (hback x ?_).trans (run_symbols ?_ l₃)
    · obtain rfl | rfl := hx <;> decide
    · obtain rfl | rfl := hx <;> simp [region]
  refine ⟨b, ?_, ?_, ?_, ?_, ?_, ?_⟩
  · rw [hlayout]
    exact run_find (run_find (run_find hfind _) _) _
  · have hle := dot_le_run l₄ kernelBssBack
    rw [← hlayout, hdot₄] at hle
    exact Nat.lt_of_le_of_lt hle k.fits
  · rw [hregion _ (.inl rfl), hlo₃]
  · rw [hregion _ (.inr rfl), hhi₃]
  · rw [hback _ (by decide), hlo₄]
  · rw [hback _ (by decide), hhi₄]

/-- The addresses of the stacks. -/
structure TopOfStack (k : KernelImage) : Prop where
  supervisorBottom : k.symbol .supervisorTrapStackBottom = k.stackTop
  supervisorTop : k.symbol .supervisorTrapStackTop = k.stackTop
  machineBottom : k.symbol .machineTrapStackBottom = k.stackTop
  machineTop : k.symbol .machineTrapStackTop = k.stackTop
  boot : k.stackBottom.toNat + 8192 = k.stackTop.toNat

theorem KernelImage.topOfStack (k : KernelImage) : TopOfStack k := by
  obtain ⟨b, hb, hlt, hlo, hhi, hmlo, hmhi⟩ := layout_ok k
  have hbottom : k.stackBottom = BitVec.ofNat 64 b := by
    rw [KernelImage.stackBottom, hb, Option.getD_some]
  have htop : BitVec.ofNat 64 (b + 8192) = k.stackTop := by
    rw [KernelImage.stackTop, hbottom, BitVec.ofNat_add]
    rfl
  refine ⟨?_, ?_, ?_, ?_, ?_⟩
  · rw [KernelImage.symbol, hlo, htop]
  · rw [KernelImage.symbol, hhi, htop]
  · rw [KernelImage.symbol, hmlo, htop]
  · rw [KernelImage.symbol, hmhi, htop]
  · rw [← htop, hbottom, BitVec.toNat_ofNat, BitVec.toNat_ofNat]
    omega

theorem supervisorTrapStack_eq (k : KernelImage) : k.supervisorTrapStack = ⟨k.stackTop, k.stackTop⟩ := by
  rw [KernelImage.supervisorTrapStack, k.topOfStack.supervisorBottom, k.topOfStack.supervisorTop]

theorem machineTrapStack_eq (k : KernelImage) : k.machineTrapStack = ⟨k.stackTop, k.stackTop⟩ := by
  rw [KernelImage.machineTrapStack, k.topOfStack.machineBottom, k.topOfStack.machineTop]

variable {k : KernelImage}

/-- An empty region has no frame. -/
theorem not_hasFrame (a top : U64) : ¬ Region.HasFrame ⟨top, top⟩ a := by
  intro h
  have hlo : top.toNat ≤ a.toNat := h.1
  have hhi : a.toNat + 288 ≤ top.toNat := h.2
  omega

theorem bootStack_hasFrame (k : KernelImage) : k.bootStack.HasFrame (k.stackTop - 288) := by
  have h := k.topOfStack.boot
  have hsub : (k.stackTop - 288).toNat = k.stackTop.toNat - 288 := by
    rw [BitVec.toNat_sub_of_le (BitVec.le_def.mpr ?_)]
    · rfl
    · show 288 ≤ k.stackTop.toNat
      omega
  show k.stackBottom.toNat ≤ _ ∧ _ + 288 ≤ k.stackTop.toNat
  rw [hsub]
  omega

/-! ## Traps from U-mode -/

/-- A pending trap from U-mode has its frame below the trap stack. -/
theorem Nested.userFrame {top : U64} {p : PendingTrap} (hu : p.mode = .user) :
    ∀ {pending : List PendingTrap} {v : Word},
    Nested top pending v → p ∈ pending → p.called.get .a0 = top - 288
  | q :: pending, v, ⟨hn, hq, ⟨epc, cause, tval, ht⟩, hc, _⟩, hm => by
    obtain rfl | hm := List.mem_cons.mp hm
    · rw [hq hu] at hn
      rw [hc, (called_ok _).2.1, ht, trapStack_takeTrap, hu]
      exact congrArg (· - 288) hn
    · exact hn.userFrame hu hm

theorem userTrap_frame {t : State} (h : k.UserTrap t) :
    t.get .a0 = k.symbol .supervisorTrapStackTop - 288 := by
  obtain ⟨s, c, hr, p, hm, hu, rfl⟩ := h
  exact (trapRuns_inv hr).nested.userFrame hu hm

theorem userTrap_exists (k : KernelImage) : ∃ t, k.UserTrap t :=
  ⟨_, _, _, userEcall_run _, _, .head _, rfl, rfl⟩

/-! ## Traps of M-mode -/

/-- The entry code swaps the stack pointer with `mscratch`, and keeps it from then on. -/
theorem machineTrapEntry_frame (s : MState) :
    (execAllM machineTrapEntry s).get .a0 = s.mcsr .mscratch - 288 := by
  let body := (machineTrapEntry.drop 2).dropLast
  have hbody : ∀ i ∈ body, i.dest ≠ some .sp := by decide
  have hsplit : machineTrapEntry =
      .csrrw .sp .mscratch .sp :: .base (.addi .sp .sp (-288)) :: (body ++ [.base (.mv .a0 .sp)]) := rfl
  have hmv (u : MState) : (execAllM [.base (.mv .a0 .sp)] u).get .a0 = u.get .sp := rfl
  rw [hsplit, execAllM_cons, execAllM_cons, execAllM_append, hmv, execAllM_get hbody, BitVec.sub_eq_add_neg]
  rfl

/-- `mscratch` until the first trap, and the frame of this one. -/
structure MachineInv (top : U64) (c : MachineRun) : Prop where
  none : c.called = [] → c.state.mcsr .mscratch = top
  first : ∀ t, c.called = [t] → t.get .a0 = top - 288

theorem MachineStep.inv {top : U64} {c c' : MachineRun} (h : MachineStep c c') (hc : MachineInv top c) :
    MachineInv top c' := by
  cases h with
  | code h => exact ⟨fun h0 => h.trans (hc.none h0), hc.first⟩
  | trap hs h =>
    refine ⟨nofun, fun t ht => ?_⟩
    obtain ⟨rfl, h0⟩ := List.cons.inj ht
    rw [machineTrapEntry_frame, h]
    exact congrArg (· - 288) (hc.none h0)

theorem machineRuns_inv {top : U64} {s : MState} {c : MachineRun}
    (h : Relation.ReflTransGen MachineStep (machineReady top s) c) : MachineInv top c := by
  induction h with
  | refl =>
    refine ⟨fun _ => ?_, nofun⟩
    show Function.update s.mcsr .mscratch top .mscratch = top
    exact Function.update_self ..
  | tail _ hstep ih => exact hstep.inv ih

theorem machineTrap_frame {t : MState} (h : k.MachineTrap [] t) :
    t.get .a0 = k.symbol .machineTrapStackTop - 288 := by
  obtain ⟨-, s, c, hr, hc⟩ := h
  exact (machineRuns_inv hr).first t hc

/-! ## The stacks -/

theorem KernelImage.trapsOnBootStack (k : KernelImage) : k.TrapsOnBootStack := by
  refine ⟨fun t ht => ?_, fun earlier t ht => ?_, fun t ht => ?_⟩
  · have ha := userTrap_frame ht
    rw [k.topOfStack.supervisorTop] at ha
    rw [supervisorTrapStack_eq, ha]
    exact ⟨not_hasFrame _ _, bootStack_hasFrame k, rfl⟩
  · rw [machineTrapStack_eq]
    exact not_hasFrame _ _
  · have ha := machineTrap_frame ht
    rw [k.topOfStack.machineTop] at ha
    rw [ha]
    exact ⟨bootStack_hasFrame k, rfl⟩

theorem KernelImage.not_trapStacksSound (k : KernelImage) : ¬ k.TrapStacksSound := by
  intro h
  obtain ⟨t, ht⟩ := userTrap_exists k
  exact (k.trapsOnBootStack.supervisorFrame t ht).1 (h.supervisorFrame t ht)

/-- `kernel-m` with a `.bss` of 64 bytes. -/
def machineImage : KernelImage where
  boot := .machine
  start := 0x80010000
  sections := [⟨".bss", 8, 64⟩, bootStackSection]
  stack := by decide
  trapstack := by decide
  mtrapstack := by decide
  fits := by decide

theorem machineImage_not_sound : ¬ machineImage.TrapStacksSound := machineImage.not_trapStacksSound

/-- In every image the trap stacks are not there: the frame of each trap from
U-mode, and of the first one in M-mode, is at the top of the boot stack. -/
theorem trapStacks_unsound (k : KernelImage) : ¬ k.TrapStacksSound ∧ k.TrapsOnBootStack :=
  ⟨k.not_trapStacksSound, k.trapsOnBootStack⟩

end RvOs
