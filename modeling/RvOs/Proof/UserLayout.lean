import RvOs.Proof.Pte
import RvOs.Spec.UserLayout

/-!
# The layout of a program

`process_memory_layout_init` rounds and adds modulo 2⁶⁴ before its only
comparison (`stackStart_le_iff`). Sizes that fit are laid out as they are to be
(`LayoutSizes.Fits.placed`), and it is wrong exactly on sizes that do not fit
but seem to after wrapping (`processMemoryLayoutInit_sound_iff`).
-/

namespace RvOs

variable {z : LayoutSizes}

/-- Rounding up, modulo 2⁶⁴. -/
theorem toNat_alignUp_mod (x : U64) : (alignUp x PAGE_SIZE).toNat = pagesUp x.toNat % 2 ^ 64 := by
  have hx := x.isLt
  have h : x + PAGE_SIZE - 1 = x + 4095 := by
    rw [PAGE_SIZE]
    bv_omega
  rw [alignUp, Bits.toNat_and_not_low _ (k := 12) (by decide), h, BitVec.toNat_add, pagesUp,
    show (4095 : U64).toNat = 4095 from rfl]
  omega

theorem toNat_alignUp_of_lt {x : U64} (h : pagesUp x.toNat < 2 ^ 64) :
    (alignUp x PAGE_SIZE).toNat = pagesUp x.toNat := by
  rw [toNat_alignUp_mod, Nat.mod_eq_of_lt h]

theorem le_pagesUp (n : Nat) : n ≤ pagesUp n := by
  unfold pagesUp
  omega

theorem pagesUp_mod (n : Nat) : pagesUp n % 4096 = 0 := by
  unfold pagesUp
  omega

theorem LayoutSizes.stackSize_mod (z : LayoutSizes) : z.stackSize % 4096 = 0 := by
  have := pagesUp_mod z.stack.toNat
  unfold LayoutSizes.stackSize
  omega

/-- The heap's start and the stack's size and start, as the code computes them. -/
def LayoutSizes.heapStart (z : LayoutSizes) : U64 :=
  USER_TEXT_START + alignUp z.text PAGE_SIZE + alignUp z.rodata PAGE_SIZE + alignUp z.data PAGE_SIZE +
    alignUp z.bss PAGE_SIZE

def LayoutSizes.stackBytes (z : LayoutSizes) : U64 :=
  if alignUp z.stack PAGE_SIZE = 0 then PAGE_SIZE else alignUp z.stack PAGE_SIZE

def LayoutSizes.stackStart (z : LayoutSizes) : U64 := USER_STACK_TOP - z.stackBytes

theorem toNat_heapStart (z : LayoutSizes) : z.heapStart.toNat = z.low % 2 ^ 64 := by
  rw [LayoutSizes.heapStart, LayoutSizes.low, BitVec.toNat_add, BitVec.toNat_add, BitVec.toNat_add, BitVec.toNat_add]
  simp only [toNat_alignUp_mod, Nat.mod_add_mod, Nat.add_mod_mod]

theorem toNat_stackBytes (z : LayoutSizes) : z.stackBytes.toNat = z.wrappedStack := by
  have h := toNat_alignUp_mod z.stack
  have hlt := z.stack.isLt
  have hp : pagesUp z.stack.toNat ≤ 2 ^ 64 := by
    unfold pagesUp
    omega
  have hmod := pagesUp_mod z.stack.toNat
  have h0 : alignUp z.stack PAGE_SIZE = 0 ↔ (alignUp z.stack PAGE_SIZE).toNat = 0 :=
    BitVec.toNat_inj.symm
  rw [LayoutSizes.stackBytes, LayoutSizes.wrappedStack, LayoutSizes.stackSize]
  by_cases hz : alignUp z.stack PAGE_SIZE = 0
  · rw [if_pos hz, show PAGE_SIZE.toNat = 4096 from rfl]
    rw [h0, h] at hz
    split <;> omega
  · rw [if_neg hz, h]
    rw [h0, h] at hz
    split <;> omega

theorem toNat_stackStart (z : LayoutSizes) :
    z.stackStart.toNat = (2 ^ 64 + USER_STACK_TOP.toNat - z.wrappedStack) % 2 ^ 64 := by
  have := z.stackBytes.isLt
  rw [LayoutSizes.stackStart, BitVec.toNat_sub, ← toNat_stackBytes]
  congr 1
  omega

/-- The layout the code writes. -/
def LayoutSizes.layout (z : LayoutSizes) : ProcessMemoryLayout where
  text := ⟨USER_TEXT_START, alignUp z.text PAGE_SIZE, PTE_R ||| PTE_X ||| PTE_U⟩
  rodata := ⟨USER_TEXT_START + alignUp z.text PAGE_SIZE, alignUp z.rodata PAGE_SIZE, PTE_R ||| PTE_U⟩
  data := ⟨USER_TEXT_START + alignUp z.text PAGE_SIZE + alignUp z.rodata PAGE_SIZE, alignUp z.data PAGE_SIZE,
    PTE_R ||| PTE_W ||| PTE_U⟩
  bss := ⟨USER_TEXT_START + alignUp z.text PAGE_SIZE + alignUp z.rodata PAGE_SIZE + alignUp z.data PAGE_SIZE,
    alignUp z.bss PAGE_SIZE, PTE_R ||| PTE_W ||| PTE_U⟩
  heap := ⟨z.heapStart, 0, PTE_R ||| PTE_W ||| PTE_U⟩
  stack := ⟨z.stackStart, z.stackBytes, PTE_R ||| PTE_W ||| PTE_U⟩
  heapBreak := z.heapStart
  stackTop := USER_STACK_TOP
  entry := USER_TEXT_START

theorem layoutInit_eq (z : LayoutSizes) : processMemoryLayoutInit z.text z.rodata z.data z.bss z.stack =
    if z.stackStart ≤ z.heapStart then none else some z.layout := by
  have htop : alignDown USER_STACK_TOP PAGE_SIZE = USER_STACK_TOP := by decide
  simp only [processMemoryLayoutInit, htop, LayoutSizes.layout, LayoutSizes.stackStart, LayoutSizes.stackBytes,
    LayoutSizes.heapStart]
  congr 1

theorem processMemoryLayoutInitAt_eq (l : ProcessMemoryLayout) (z : LayoutSizes) :
    processMemoryLayoutInitAt l z = if z.stackStart ≤ z.heapStart then (false, l) else (true, z.layout) := by
  rw [processMemoryLayoutInitAt, layoutInit_eq]
  by_cases h : z.stackStart ≤ z.heapStart
  · simp only [if_pos h, Option.isSome_none, Option.getD_none]
  · simp only [if_neg h, Option.isSome_some, Option.getD_some]

/-- What the code's comparison says of the sizes. -/
theorem stackStart_le_iff (z : LayoutSizes) : z.stackStart ≤ z.heapStart ↔ z.Full := by
  have hb := toNat_stackBytes z
  have hlt := z.stackBytes.isLt
  rw [BitVec.le_def, toNat_stackStart, toNat_heapStart, LayoutSizes.Full]
  split <;> omega

/-- Sizes that fit, wrapped or not. -/
theorem LayoutSizes.Fits.bounds (h : z.Fits) : z.low + z.stackSize < USER_STACK_TOP.toNat ∧
    z.wrappedStack = z.stackSize ∧ ¬ z.Full := by
  have ht : (alignDown USER_STACK_TOP PAGE_SIZE).toNat = USER_STACK_TOP.toNat := by decide
  have htop : USER_STACK_TOP.toNat = 0x3FFFFFF000 := rfl
  have htext : USER_TEXT_START.toNat = 0x400000 := rfl
  rw [LayoutSizes.Fits, ht] at h
  have hlow : z.low + z.stackSize < USER_STACK_TOP.toNat := by
    unfold LayoutSizes.low
    omega
  have hw : z.wrappedStack = z.stackSize := by
    rw [LayoutSizes.wrappedStack, if_neg (by omega)]
  refine ⟨hlow, hw, ?_⟩
  rw [LayoutSizes.Full, hw, if_pos (by omega)]
  omega

theorem MemoryRegion.end_empty {r : MemoryRegion} (h : r.size = 0) : r.end_ = r.start.toNat := by
  rw [MemoryRegion.end_, h]
  rfl

/-- A region that ends where another starts, or before. -/
def MemoryRegion.Before (r r' : MemoryRegion) : Prop := r.end_ ≤ r'.start.toNat

instance : Trans MemoryRegion.Before MemoryRegion.Before MemoryRegion.Before :=
  ⟨fun {_ r _} h h' => Nat.le_trans h (Nat.le_trans (Nat.le_add_right _ r.size.toNat) h')⟩

/-- The addresses of the regions, when the sizes fit: nothing wraps. -/
structure LayoutSizes.Plain (z : LayoutSizes) : Prop where
  text : (alignUp z.text PAGE_SIZE).toNat = pagesUp z.text.toNat
  rodata : (alignUp z.rodata PAGE_SIZE).toNat = pagesUp z.rodata.toNat
  data : (alignUp z.data PAGE_SIZE).toNat = pagesUp z.data.toNat
  bss : (alignUp z.bss PAGE_SIZE).toNat = pagesUp z.bss.toNat
  rodataStart : z.layout.rodata.start.toNat = USER_TEXT_START.toNat + pagesUp z.text.toNat
  dataStart : z.layout.data.start.toNat = z.layout.rodata.start.toNat + pagesUp z.rodata.toNat
  bssStart : z.layout.bss.start.toNat = z.layout.data.start.toNat + pagesUp z.data.toNat
  heapStart : z.heapStart.toNat = z.layout.bss.start.toNat + pagesUp z.bss.toNat
  stack : z.stackBytes.toNat = z.stackSize
  stackStart : z.stackStart.toNat + z.stackSize = USER_STACK_TOP.toNat
  gap : z.heapStart.toNat + 4096 ≤ z.stackStart.toNat

theorem LayoutSizes.Fits.plain (h : z.Fits) : z.Plain := by
  obtain ⟨hlow, hw, -⟩ := h.bounds
  have htop : USER_STACK_TOP.toNat = 0x3FFFFFF000 := rfl
  have htext : USER_TEXT_START.toNat = 0x400000 := rfl
  have hb := toNat_stackBytes z
  have hs := toNat_stackStart z
  unfold LayoutSizes.low at hlow
  have ht := toNat_alignUp_of_lt (x := z.text) (by omega)
  have hr := toNat_alignUp_of_lt (x := z.rodata) (by omega)
  have hd := toNat_alignUp_of_lt (x := z.data) (by omega)
  have hbs := toNat_alignUp_of_lt (x := z.bss) (by omega)
  have h₁ : z.layout.rodata.start.toNat = USER_TEXT_START.toNat + pagesUp z.text.toNat := by
    rw [← ht]
    exact BitVec.toNat_add_of_lt (by omega)
  have h₂ : z.layout.data.start.toNat = z.layout.rodata.start.toNat + pagesUp z.rodata.toNat := by
    rw [← hr]
    exact BitVec.toNat_add_of_lt (x := z.layout.rodata.start) (by omega)
  have h₃ : z.layout.bss.start.toNat = z.layout.data.start.toNat + pagesUp z.data.toNat := by
    rw [← hd]
    exact BitVec.toNat_add_of_lt (x := z.layout.data.start) (by omega)
  have h₄ : z.heapStart.toNat = z.layout.bss.start.toNat + pagesUp z.bss.toNat := by
    rw [← hbs]
    exact BitVec.toNat_add_of_lt (x := z.layout.bss.start) (by omega)
  have mt := pagesUp_mod z.text.toNat
  have mr := pagesUp_mod z.rodata.toNat
  have md := pagesUp_mod z.data.toNat
  have mb := pagesUp_mod z.bss.toNat
  have hss := z.stackSize_mod
  exact ⟨ht, hr, hd, hbs, h₁, h₂, h₃, h₄, hb.trans hw, by omega, by omega⟩

section Plain

variable (p : z.Plain)

include p

/-! Each region ends where the next one starts, or before. -/

theorem LayoutSizes.Plain.text_end : z.layout.text.end_ = z.layout.rodata.start.toNat := by
  rw [p.rodataStart, ← p.text]
  rfl

theorem LayoutSizes.Plain.rodata_end : z.layout.rodata.end_ = z.layout.data.start.toNat := by
  rw [p.dataStart, ← p.rodata]
  rfl

theorem LayoutSizes.Plain.data_end : z.layout.data.end_ = z.layout.bss.start.toNat := by
  rw [p.bssStart, ← p.data]
  rfl

theorem LayoutSizes.Plain.bss_end : z.layout.bss.end_ = z.layout.heap.start.toNat := by
  show _ = z.heapStart.toNat
  rw [p.heapStart, ← p.bss]
  rfl

theorem LayoutSizes.Plain.heap_end : z.layout.heap.end_ + 4096 ≤ z.layout.stack.start.toNat := by
  have hsize : z.layout.heap.size = 0 := rfl
  rw [MemoryRegion.end_empty hsize]
  exact p.gap

theorem LayoutSizes.Plain.stack_end : z.layout.stack.end_ = USER_STACK_TOP.toNat := by
  show z.stackStart.toNat + z.stackBytes.toNat = _
  rw [p.stack, p.stackStart]

theorem LayoutSizes.Plain.chain : z.layout.regions.IsChain MemoryRegion.Before := by
  have hheap := p.heap_end
  simp only [ProcessMemoryLayout.regions, List.isChain_cons_cons, MemoryRegion.Before]
  exact ⟨p.text_end.le, p.rodata_end.le, p.data_end.le, p.bss_end.le, by omega, .singleton _⟩

theorem LayoutSizes.Plain.aligned : ∀ r ∈ z.layout.regions, r.start.toNat % 4096 = 0 ∧ r.size.toNat % 4096 = 0 := by
  have hmod := pagesUp_mod
  have htext : USER_TEXT_START.toNat % 4096 = 0 := rfl
  have htop : USER_STACK_TOP.toNat % 4096 = 0 := rfl
  have hrodata : z.layout.rodata.start.toNat % 4096 = 0 := by
    have := hmod z.text.toNat
    rw [p.rodataStart]
    omega
  have hdata : z.layout.data.start.toNat % 4096 = 0 := by
    have := hmod z.rodata.toNat
    rw [p.dataStart]
    omega
  have hbss : z.layout.bss.start.toNat % 4096 = 0 := by
    have := hmod z.data.toNat
    rw [p.bssStart]
    omega
  have hheap : z.heapStart.toNat % 4096 = 0 := by
    have := hmod z.bss.toNat
    rw [p.heapStart]
    omega
  have hsize := z.stackSize_mod
  have hstack : z.stackStart.toNat % 4096 = 0 := by
    have := p.stackStart
    omega
  simp only [ProcessMemoryLayout.regions, List.forall_mem_cons, List.not_mem_nil, false_imp_iff, implies_true,
    and_true]
  exact ⟨⟨htext, p.text ▸ hmod _⟩, ⟨hrodata, p.rodata ▸ hmod _⟩, ⟨hdata, p.data ▸ hmod _⟩, ⟨hbss, p.bss ▸ hmod _⟩,
    ⟨hheap, rfl⟩, hstack, p.stack ▸ hsize⟩

theorem LayoutSizes.Plain.within : ∀ r ∈ z.layout.regions,
    USER_TEXT_START.toNat ≤ r.start.toNat ∧ r.end_ ≤ USER_STACK_TOP.toNat := by
  have hle : ∀ r : MemoryRegion, r.start.toNat ≤ r.end_ := fun r => Nat.le_add_right ..
  have hp := p.chain.pairwise
  have hsplit : z.layout.regions =
      [z.layout.text, z.layout.rodata, z.layout.data, z.layout.bss, z.layout.heap] ++ [z.layout.stack] := rfl
  intro r hr
  constructor
  · -- the text is before the others
    rcases List.mem_cons.mp hr with rfl | hr
    · exact Nat.le_refl _
    · exact Nat.le_trans (hle z.layout.text) ((List.pairwise_cons.mp hp).1 r hr)
  · -- and the stack after them
    rw [hsplit] at hp hr
    rw [← p.stack_end]
    rcases List.mem_append.mp hr with hr | hr
    · exact Nat.le_trans ((List.pairwise_append.mp hp).2.2 r hr _ (List.mem_singleton_self _)) (hle z.layout.stack)
    · rw [List.mem_singleton.mp hr]

end Plain

theorem LayoutSizes.Fits.placed (h : z.Fits) : z.Placed z.layout := by
  have p := h.plain
  refine ⟨rfl, p.text_end.symm, p.rodata_end.symm, p.data_end.symm, p.bss_end.symm, p.aligned, ?_, ?_, p.within,
    p.heap_end, rfl⟩
  · refine ⟨p.text ▸ le_pagesUp _, p.rodata ▸ le_pagesUp _, p.data ▸ le_pagesUp _, p.bss ▸ le_pagesUp _, ?_⟩
    show z.stack.toNat ≤ z.stackBytes.toNat
    rw [p.stack]
    exact Nat.le_trans (le_pagesUp _) (Nat.le_max_right ..)
  · exact p.chain.pairwise.imp fun {r r'} hb x hx => by
      unfold MemoryRegion.Before at hb
      omega

/-! ## Every call -/

theorem run_full (h : z.Full) (l : ProcessMemoryLayout) : processMemoryLayoutInitAt l z = (false, l) := by
  rw [processMemoryLayoutInitAt_eq, if_pos ((stackStart_le_iff z).mpr h)]

theorem run_room (h : ¬ z.Full) (l : ProcessMemoryLayout) : processMemoryLayoutInitAt l z = (true, z.layout) := by
  rw [processMemoryLayoutInitAt_eq, if_neg fun hle => h ((stackStart_le_iff z).mp hle)]

/-- The code accepts and places sizes that fit, and is wrong on others exactly when
they have room modulo 2⁶⁴. -/
theorem processMemoryLayoutInit_sound_iff (z : LayoutSizes) : LayoutSound z ↔ z.Fits ∨ z.Full := by
  refine ⟨fun h => ?_, fun h => ?_⟩
  · by_cases hfull : z.Full
    · exact .inr hfull
    · exact .inl ((h.accepts z.layout).mp (by rw [run_room hfull]))
  · rcases h with hfit | hfull
    · have hrun := run_room hfit.bounds.2.2
      refine ⟨fun l => ?_, fun l _ => ?_, fun l hf => ?_⟩
      · rw [hrun]
        exact iff_of_true rfl hfit
      · rw [hrun]
        exact hfit.placed
      · rw [hrun] at hf
        cases hf
    · have hrun := run_full hfull
      refine ⟨fun l => ?_, fun l ht => ?_, fun l _ => by rw [hrun]⟩
      · rw [hrun]
        exact iff_of_false (by simp) fun hfit => hfit.bounds.2.2 hfull
      · rw [hrun] at ht
        cases ht

/-- An image of 2⁶⁴ − 1 bytes is rounded to none, and accepted. -/
theorem processMemoryLayoutInit_wraps : ¬ LayoutSound ⟨0xFFFFFFFFFFFFFFFF, 0, 0, 0, 4096⟩ := by
  intro h
  have hroom : ¬ LayoutSizes.Full ⟨0xFFFFFFFFFFFFFFFF, 0, 0, 0, 4096⟩ := by decide
  have hno : ¬ LayoutSizes.Fits ⟨0xFFFFFFFFFFFFFFFF, 0, 0, 0, 4096⟩ := by decide
  refine hno ((h.accepts (LayoutSizes.layout ⟨0xFFFFFFFFFFFFFFFF, 0, 0, 0, 4096⟩)).mp ?_)
  rw [run_room hroom]

end RvOs
