import RvOs.Proof.TableShape
import RvOs.Proof.UartNode
import RvOs.Spec.Console

/-!
# The console's address

The driver stays at the address of the image, and `paging_init` maps the page
of the device tree's. What it accesses is mapped in the UART exactly when the
two are the same, or when the UART reaches over from the page before
(`supervisorMain_console_iff`).
-/

namespace RvOs

variable {image : ImageSymbols} {sym : KernelSymbols} {dtb : Fdt} {b : BootState} {s : Supervisor} {n : Nat}

/-- The calls that led to `paging_init`. -/
theorem supervisorMain_calls {gUartBase : U64} (h : supervisorMain image sym dtb b gUartBase = some (some s)) :
    platformInfoInit image .zero dtb = (true, s.platform) ∧ s.gUartBase = gUartBase ∧
      ∃ allocator, physicalPageAllocatorInit s.platform = (true, allocator) ∧
        pagingInit sym s.platform { b with allocator, root := 0 } = some (true, s.toBootState) := by
  rw [supervisorMain] at h
  obtain ⟨ok, platform, hinfo⟩ : ∃ ok platform, platformInfoInit image .zero dtb = (ok, platform) := ⟨_, _, rfl⟩
  obtain ⟨ok', allocator, hall⟩ : ∃ ok' allocator, physicalPageAllocatorInit platform = (ok', allocator) := ⟨_, _, rfl⟩
  simp only [hinfo, hall] at h
  cases ok with
  | false => simp at h
  | true =>
    cases ok' with
    | false => simp at h
    | true =>
      simp only [Bool.not_true, Bool.false_eq_true, ite_false, Option.bind_eq_bind, Option.bind_eq_some_iff,
        Prod.exists] at h
      obtain ⟨ok, b', hp, h⟩ := h
      cases ok with
      | false => simp at h
      | true =>
        simp only [Bool.not_true, Bool.false_eq_true, ite_false, Option.pure_def, Option.some.injEq] at h
        subst h
        exact ⟨hinfo, rfl, allocator, hall, hp⟩

theorem supervisorMain_some {gUartBase : U64} (h : supervisorMain image sym dtb b gUartBase = some (some s)) :
    ∃ b₀ : BootState, platformInfoInit image .zero dtb = (true, s.platform) ∧
      physicalPageAllocatorInit s.platform = (true, b₀.allocator) ∧
      pagingInit sym s.platform b₀ = some (true, s.toBootState) ∧ s.gUartBase = gUartBase := by
  obtain ⟨hinfo, hu, allocator, hall, hp⟩ := supervisorMain_calls h
  exact ⟨{ b with allocator, root := 0 }, hinfo, hall, hp, hu⟩

/-- The UART is where the device tree has it. -/
theorem platformInfoInit_uart {platform : PlatformInfo} (h : platformInfoInit image .zero dtb = (true, platform)) :
    dtbGetUartBase (some dtb) = (true, platform.uartBase) := by
  rw [platformInfoInit] at h
  have hd : dtbInit dtb = none ∨ dtbInit dtb = some dtb := by
    rw [dtbInit]
    split
    · exact .inl rfl
    · split
      · exact .inl rfl
      · exact .inr rfl
  rcases hd with hd | hd
  · simp [hd] at h
  obtain ⟨ok, uartBase, hu⟩ : ∃ ok uartBase, dtbGetUartBase (some dtb) = (ok, uartBase) := ⟨_, _, rfl⟩
  obtain ⟨ok', ramBase, ramSize, hm⟩ : ∃ ok' ramBase ramSize, dtbGetMemoryRange (some dtb) = (ok', ramBase, ramSize) :=
    ⟨_, _, _, rfl⟩
  simp only [hd, hu, hm] at h
  cases ok with
  | false => simp at h
  | true =>
    cases ok' with
    | false => simp at h
    | true =>
      simp only [Option.isNone_some, Bool.not_true, Bool.false_eq_true, ite_false, Prod.mk.injEq, true_and] at h
      rw [hu, ← h]

section Tables

variable {platform : PlatformInfo} {b' : BootState} {g : Addr}

/-- A frame of one of these ranges that a page below 2³⁸ translates to is that page. -/
theorem reaches_page {start size flags : U64} {j : Nat} {x pa fl : U64} (hx : Aligned x) (hlt : x.toNat < 2 ^ 37)
    (hpa : pa.toNat < 2 ^ 37) (h : (MapRange.identity start size flags).Reaches j x pa fl) :
    start + pageOff j = x := by
  have ho : x &&& (PAGE_SIZE - 1) = 0 := (aligned_iff x).mpr hx
  have hpage := vpnOf_inj (by unfold Canonical; omega) (by unfold Canonical; omega) h.identity
  have hal := (aligned_add_pageOff start j).mpr h.aligned.2
  have hf : pa = start + pageOff j := by
    rw [h.frame, ho]
    exact BitVec.add_zero _
  rw [← hf] at hal ⊢
  unfold Aligned at hx hal
  exact BitVec.eq_of_toNat_eq (by omega)

/-- A page at itself, readable and writable, is translated to itself. -/
theorem KernelTables.identity_page (h : KernelTables sym platform b b' g) {start size : U64}
    (hr : MapRange.identity start size (PTE_R ||| PTE_W) ∈ kernelRanges sym platform) {j : Nat}
    (hj : j < (MapRange.identity start size (PTE_R ||| PTE_W)).pages) {x : U64} (hx : start + pageOff j = x)
    {off : U64} (ho : off.toNat < 4096) (hlt : x.toNat + off.toNat < 2 ^ 37) :
    sv39Translate b'.mem (satpRoot b'.satp) (x + off) = some (x + off, leafFlags (PTE_R ||| PTE_W)) := by
  have hadd : (x + off).toNat = x.toNat + off.toNat := by
    rw [BitVec.toNat_add]
    omega
  rw [← hx] at hlt hadd ⊢
  exact h.page hr legalFlags_rw hj (by show (start + pageOff j).toNat < _; omega) ho
    (by unfold Canonical; show (start + pageOff j + off).toNat < _ ∨ _; omega)

/-- The writable page at `x` is in the UART's page or in another of the ranges at themselves. -/
theorem writable_cases (h : KernelTables sym platform b b' g) {x pa fl : U64} (hx : Aligned x)
    (hlt : x.toNat < 2 ^ 37) (hpa : pa.toNat < 2 ^ 37)
    (ht : sv39Translate b'.mem (satpRoot b'.satp) x = some (pa, fl)) (hw : hasFlag fl PTE_W = true) :
    x = uartPage platform ∨ WritablePage sym platform x := by
  obtain ⟨r, hr, j, hj⟩ := h.reaches ht
  have hfl := hj.flags
  have hin := hj.lt
  simp only [kernelRanges, List.mem_cons, List.not_mem_nil, or_false] at hr
  rcases hr with rfl | rfl | rfl | rfl | rfl | rfl | rfl
  · rw [hfl] at hw
    exact absurd hw rx_not_w
  · rw [hfl] at hw
    exact absurd hw r_not_w
  · exact .inr ⟨_, by simp [writableRanges], j, hin, reaches_page hx hlt hpa hj⟩
  · exact .inr ⟨_, by simp [writableRanges], j, hin, reaches_page hx hlt hpa hj⟩
  · have hp : (MapRange.identity (uartPage platform) PAGE_SIZE (PTE_R ||| PTE_W)).pages = 1 := by
      show (alignUp PAGE_SIZE PAGE_SIZE).toNat / 4096 = 1
      decide
    have hz : uartPage platform + pageOff j = uartPage platform := by
      rw [hp] at hin
      rw [show j = 0 by omega]
      exact BitVec.add_zero _
    exact .inl ((reaches_page hx hlt hpa hj).symm.trans hz)
  · exact .inr ⟨_, by simp [writableRanges], j, hin, reaches_page hx hlt hpa hj⟩
  · -- the direct map is in the upper half
    have hv := toNat_physToVirt (p := pa) (by omega)
    have hpage := vpnOf_inj (by unfold Canonical; omega) (by unfold Canonical; omega) hj.direct
    omega

end Tables

/-- What is mapped later leaves the console where it is. -/
theorem ConsoleReached.keep {u satp gUartBase : U64} {m m' : Mem} (hk : KeepsValid (satpRoot satp) m m')
    (h : ConsoleReached u n gUartBase m satp) : ConsoleReached u n gUartBase m' satp := fun a ha => by
  obtain ⟨hin, pa, fl, ht, h⟩ := h a ha
  exact ⟨hin, pa, fl, sv39Translate_keep hk ht, h⟩

/-- The condition on the UART's address `u`, for `n` registers. -/
def ConsoleMapped (sym : KernelSymbols) (platform : PlatformInfo) (n : Nat) : Prop :=
  platform.uartBase = 0x10000000 ∨ platform.uartBase.toNat < 0x10000000 ∧
    0x10000006 ≤ platform.uartBase.toNat + n ∧ WritablePage sym platform 0x10000000

/-- The page of the driver's address is one of `paging_init`'s. -/
theorem console_page {platform : PlatformInfo} (hc : ConsoleMapped sym platform n) : ∃ start size j,
    MapRange.identity start size (PTE_R ||| PTE_W) ∈ kernelRanges sym platform ∧
      j < (MapRange.identity start size (PTE_R ||| PTE_W)).pages ∧ start + pageOff j = 0x10000000 := by
  rcases hc with hu | ⟨-, -, r, hr, j, hj, hx⟩
  · refine ⟨uartPage platform, PAGE_SIZE, 0, by simp [kernelRanges], ?_, ?_⟩
    · show 0 < (alignUp PAGE_SIZE PAGE_SIZE).toNat / 4096
      decide
    · rw [uartPage, hu]
      decide
  · simp only [writableRanges, List.mem_cons, List.not_mem_nil, or_false] at hr
    rcases hr with rfl | rfl | rfl
    · exact ⟨_, _, j, by simp [kernelRanges], hj, hx⟩
    · exact ⟨_, _, j, by simp [kernelRanges], hj, hx⟩
    · exact ⟨_, _, j, by simp [kernelRanges], hj, hx⟩

section Sound

variable (hn : 6 ≤ n) (hn' : n ≤ 4096) (hw : PlatformWithin (2 ^ 56) s.platform)
  (h : supervisorMain image sym dtb b gUartBaseInitial = some (some s))

include hw h

theorem supervisor_tables : ∃ b₀ g, KernelTables sym s.platform b₀ s.toBootState g ∧ RunInv b₀.allocator g s.toKState ∧
    s.gUartBase = 0x10000000 := by
  obtain ⟨b₀, -, hall, hp, hu⟩ := supervisorMain_some h
  have ha := allocOk_of_pagingInit hw hall hp
  obtain ⟨g, hg⟩ := pagingInit_ok ha hp
  exact ⟨b₀, g, hg, ⟨hg.inv, pagingInit_run hp, hg.le, hg.tables⟩, hu⟩

include hn'

theorem consoleMapped_of_sound (hs : ConsoleSound n s) : ConsoleMapped sym s.platform n := by
  obtain ⟨b₀, g, hg, -, hu⟩ := supervisor_tables hw h
  have hr := hs [] s.toKState (by simp) rfl
  rw [hu] at hr
  obtain ⟨⟨hle, hlt⟩, pa, fl, ht, hpa, -, hfw⟩ := hr (.store, 0x10000000) (by simp [uartAccesses, uartReg])
  obtain ⟨⟨-, hlt'⟩, -⟩ := hr (.load, 0x10000005) (by simp [uartAccesses, uartRegOffset, UART_LSR])
  have hb := hpa.2
  simp only at hle hlt hlt' ht
  change s.platform.uartBase.toNat ≤ 0x10000000 at hle
  change 0x10000005 < _ at hlt'
  by_cases he : s.platform.uartBase = 0x10000000
  · exact .inl he
  have hne : s.platform.uartBase.toNat ≠ 0x10000000 := fun e => he (BitVec.eq_of_toNat_eq e)
  refine .inr ⟨by omega, by omega, ?_⟩
  rcases writable_cases hg (by decide) (by decide) (by omega) ht hfw with hx | hx
  · -- the page of the UART starts at or below it
    have hup := congrArg BitVec.toNat hx
    rw [toNat_uartPage] at hup
    change 0x10000000 = _ at hup
    omega
  · exact hx

omit hn' in
include hn in
theorem consoleSound_of_mapped (hc : ConsoleMapped sym s.platform n) : ConsoleSound n s := by
  intro calls s' hf hrun
  obtain ⟨b₀, g, hg, hinv, hu⟩ := supervisor_tables hw h
  obtain ⟨start, size, j, hr, hj, hx⟩ := console_page hc
  have hroot : satpRoot s.satp = g := by rw [hg.satp, satpRoot_makeSatpSv39 hg.frame]
  -- the registers are in the UART
  have hin : ∀ off : U64, off.toNat ≤ 5 → InUart s.platform.uartBase n (0x10000000 + off) := fun off ho => by
    have e : (0x10000000 + off).toNat = 0x10000000 + off.toNat := by
      rw [BitVec.toNat_add, show (0x10000000 : U64).toNat = 0x10000000 from rfl]
      omega
    unfold InUart
    rcases hc with hu | ⟨h₁, h₂, -⟩
    · rw [hu, e, show (0x10000000 : U64).toNat = 0x10000000 from rfl]
      omega
    · omega
  have hreg : ∀ off : U64, off.toNat ≤ 5 → InUart s.platform.uartBase n (0x10000000 + off) ∧
      ∃ pa fl, sv39Translate s.mem (satpRoot s.satp) (0x10000000 + off) = some (pa, fl) ∧
        InUart s.platform.uartBase n pa ∧ hasFlag fl PTE_R = true ∧ hasFlag fl PTE_W = true := fun off ho =>
    ⟨hin off ho, _, _, hg.identity_page hr hj hx (by omega) (by
      rw [show (0x10000000 : U64).toNat = 0x10000000 from rfl]; omega), hin off ho, by decide, by decide⟩
  have hnow : ConsoleReached s.platform.uartBase n s.gUartBase s.mem s.satp := by
    rw [hu]
    simp only [ConsoleReached, uartAccesses, uartReg, uartRegOffset, List.forall_mem_cons, List.not_mem_nil,
      false_imp_iff, implies_true, and_true]
    exact ⟨hreg 0 (by decide), hreg 5 (by decide), hreg 0 (by decide)⟩
  obtain ⟨s'', hrun', -, hgr⟩ := runTableCalls_ok calls hf hinv
  rw [← hg.root] at hrun'
  obtain rfl : s'' = s' := Option.some.inj (hrun'.symm.trans hrun)
  refine hnow.keep ?_
  rw [hroot]
  exact fun p f i hp hf hv => hgr.grows.entries p f i hp hf hv

include hn in
/-- The driver's accesses are mapped in the UART's `n` registers exactly when
the device tree has it where the image does, or it reaches there from below and
a writable page is there. -/
theorem supervisorMain_console_iff : ConsoleSound n s ↔ s.platform.uartBase = 0x10000000 ∨
    s.platform.uartBase.toNat < 0x10000000 ∧ 0x10000006 ≤ s.platform.uartBase.toNat + n ∧
      WritablePage sym s.platform 0x10000000 :=
  ⟨consoleMapped_of_sound hn' hw h, consoleSound_of_mapped hn hw h⟩

end Sound

/-! ## A device tree -/

/-- The device tree of the sample platform, with its UART at `uart`. -/
def sampleDtb (uart : BitVec 32) : Fdt where
  addr := 0x80004000
  totalsize := 0x00010000
  headerOk := true
  root := .node [cellsProperty "#address-cells" [2], cellsProperty "#size-cells" [2]]
    [.node [stringProperty "device_type" "memory", cellsProperty "reg" [0, 0x80000000, 0, 0x20000]] [],
     .node [stringProperty "compatible" "ns16550a", cellsProperty "reg" [0, uart, 0, 0x100]] []]

def sampleImage : ImageSymbols where
  kernelStart := 0x80000000
  kernelEnd := 0x80004000
  bssStart := 0x80003000
  bssEnd := 0x80004000

variable (gUartBase : U64) in
theorem supervisorMain_eq {platform : PlatformInfo} {a : PhysicalPageAllocator} {b' : BootState}
    (hinfo : platformInfoInit image .zero dtb = (true, platform))
    (hall : physicalPageAllocatorInit platform = (true, a))
    (hp : pagingInit sym platform { b with allocator := a, root := 0 } = some (true, b')) :
    supervisorMain image sym dtb b gUartBase = some (some ⟨b', platform, gUartBase⟩) := by
  rw [supervisorMain]
  simp only [hinfo, hall, hp, Bool.not_true, Bool.false_eq_true, ite_false, Option.bind_eq_bind, Option.bind_some,
    Option.pure_def]

theorem supervisorMain_console_sample : ∃ s, supervisorMain sampleImage sampleSymbols (sampleDtb 0x10000000)
    (sampleBoot fun _ => 0) gUartBaseInitial = some (some s) ∧ ConsoleSound 8 s := by
  have hinfo : platformInfoInit sampleImage .zero (sampleDtb 0x10000000) = (true, samplePlatform) := by decide +kernel
  obtain ⟨-, b', -, -, hp, -⟩ := sample_pagingInit fun _ => 0
  have h := supervisorMain_eq (b := sampleBoot fun _ => 0) gUartBaseInitial hinfo
    (sample_allocator fun _ => 0) hp
  exact ⟨_, h, (supervisorMain_console_iff (by decide) (by decide) (sample_within (by decide)) h).mpr (.inl rfl)⟩

/-- With the UART at 0x20000000 the driver's address is not mapped. -/
theorem movedUart_not_sound : ∃ s, supervisorMain sampleImage sampleSymbols (sampleDtb 0x20000000)
    (sampleBoot fun _ => 0) gUartBaseInitial = some (some s) ∧ ¬ ConsoleSound 8 s := by
  have hinfo : platformInfoInit sampleImage .zero (sampleDtb 0x20000000) =
      (true, { samplePlatform with uartBase := 0x20000000 }) := by decide +kernel
  have hall : physicalPageAllocatorInit { samplePlatform with uartBase := 0x20000000 } =
      (true, ⟨0x80005000, 0x80020000⟩) := by decide
  have hs : (Outline.pagingInit sampleSymbols { samplePlatform with uartBase := 0x20000000 }
      ⟨0x80005000, 0x80020000⟩).isSome = true := by decide +kernel
  obtain ⟨o, ho⟩ := Option.isSome_iff_exists.mp hs
  obtain ⟨b', -, hp, -⟩ := Outline.pagingInit_ok (b := sampleBoot fun _ => 0) ⟨by decide, by decide, by decide⟩ ho
  have h := supervisorMain_eq (b := sampleBoot fun _ => 0) gUartBaseInitial hinfo hall hp
  refine ⟨_, h, fun hc => ?_⟩
  -- the UART starts past the driver's address
  have hr := hc [] _ (by simp) rfl
  have hle := (hr (.store, 0x10000000) (by simp [uartAccesses, uartReg, gUartBaseInitial])).1.1
  change (0x20000000 : U64).toNat ≤ (0x10000000 : U64).toNat at hle
  exact absurd hle (by decide)

end RvOs
