import RvOs.Proof.BootedUser
import RvOs.Proof.InitRuns

/-!
# The system runs the init program

Where the hart is ready to run `init.S` it runs it to its end
(`UserReady.initEnds`). After a boot the input buffer starts in a page of the
image, which is not writable, unless it starts the page after it: as soon as a
line is complete the kernel panics (`bootedInit_ends`).
-/

namespace RvOs

open RiscV Relation

/-! ## Any address space -/

section Space

variable {T : Translation} {root : Addr} {stack : Addr → Prop} {top status : U64} {m₀ : Mem} {m : UserHart}
  {code : ∀ T, UserCode T} {text : List Byte} {addr : Nat → U64} {writable : Bool}

/-- Every run of the hart that has started the program leads to the end of the program. -/
theorem UserReady.initEnds (hU : UserSpace root stack top T m₀) (hS : UserStatus status)
    (hR : UserReady stack top T m₀ status m) (h : RunsInit (code T) text addr) (hm : InitMemory T text.length writable)
    {t : Task} (ht : m.task T = t) (hpc : t.pc = USER_TEXT_START) (h0 : t.reg .zero = 0)
    (htext : HasText text t.toUserState) (hrodata : HasRodata text.length t.toUserState) {x : Fate UserHart}
    (hx : ReflTransGen (UserStep root stack code) (.runs m) x) :
    ReflTransGen (UserStep root stack code) x
      (.stops (initOutcome writable t.rx).1 (t.tx ++ (initOutcome writable t.rx).2)) := by
  obtain ⟨p, b, hp⟩ := initPlaced hm.size
  have hi : UserInv stack top T m₀ status (.runs m) := hR
  have hend : RunsTo (TaskStep (code T) (takenStatus .user status)) (TaskOk (code T)) (.runs t) _ :=
    h.runsTo hp hm hpc h0 htext hrodata
  have hstart : Fate.map (UserHart.task T) (.runs m) = .runs t := congrArg Fate.runs ht
  rw [← hstart] at hend
  obtain ⟨y, hy, he⟩ := (user_refines hU hS code).runsTo (fun _ _ _ => taskStep_unique) hi hend
    (fun c hc => by cases hc) hx
  cases y with
  | runs m' => cases he
  | stops why tx =>
    cases he
    exact hy

end Space

/-! ## After a boot -/

section Boot

variable (B : UserBoot) {text : List Byte}

theorem length_userImage : B.userImage.length = (B.imageEnd - B.imageStart).toNat := by
  rw [UserBoot.userImage, imageBytes, List.length_map, List.length_range]

theorem length_initImage (text : List Byte) : (initImage text).length = sectionStart text.length + 44 := by
  have hle : text.length ≤ sectionStart text.length := by
    rw [sectionStart]
    omega
  rw [initImage, List.length_append, List.length_append, List.length_replicate, List.length_append, promptText_length,
    echoText_length]
  omega

section Init

variable (himage : B.userImage = initImage text)

include himage

theorem imageSize_eq : (B.imageEnd - B.imageStart).toNat = sectionStart text.length + 44 := by
  rw [← length_userImage, himage, length_initImage]

/-- The image with its input buffer after it is below the stack. -/
theorem initImage_fits : 0x400000 + sectionStart text.length + 4096 < 0x3FFFFFE000 := by
  obtain ⟨-, text', bss, stack, s₁, hl, -⟩ := B.mapped
  have hfit := hl.fits
  have hsize := imageSize_eq B himage
  rw [Fits, imagePages, hsize] at hfit
  omega

/-- The input buffer can be stored to when it starts a page. -/
theorem UserBoot.initMemory : InitMemory B.translation text.length (bufferStartsPage text.length) := by
  have hfits := initImage_fits B himage
  have hsize := imageSize_eq B himage
  have hle : text.length ≤ sectionStart text.length ∧ sectionStart text.length % 16 = 0 := by
    rw [sectionStart]
    omega
  have hpages : imagePages (B.imageEnd - B.imageStart) = (sectionStart text.length + 44 + 4095) / 4096 := by
    rw [imagePages, hsize]
  obtain ⟨p, b, hp⟩ := initPlaced (show text.length ≤ 0x4000000000 by omega)
  have hstart := hp.start; have hbuffer := hp.buffer
  have hva : ∀ i, i < 64 → (byteAddr (InitSymbol.inputBuffer.addr text.length) i).toNat =
      0x400000 + sectionStart text.length + 48 + i := fun i hi => by
    rw [hp.inputBuffer, toNat_byteAddr_ofNat (by omega)]
    omega
  -- the rest of the last page of the image, and the page after it
  have hmay : ∀ i < 64, 4096 * imagePages (B.imageEnd - B.imageStart) ≤ sectionStart text.length + 48 + i →
      ∀ access, B.translation.userMay access (byteAddr (InitSymbol.inputBuffer.addr text.length) i) = true :=
    fun i hi h access => B.bss_may access (by rw [hva i hi]; omega) (by rw [hva i hi]; omega)
  have hdenied : ∀ i < 64, sectionStart text.length + 48 + i < 4096 * imagePages (B.imageEnd - B.imageStart) →
      ¬ B.translation.Allows .store (byteAddr (InitSymbol.inputBuffer.addr text.length) i) :=
    fun i hi h => B.text_denied (by rw [hva i hi]; omega) (by rw [hva i hi]; omega)
  have hpage : bufferStartsPage text.length = true → ∀ i, 4096 * imagePages (B.imageEnd - B.imageStart) ≤
      sectionStart text.length + 48 + i := fun h i => by
    rw [bufferStartsPage, decide_eq_true_eq] at h
    omega
  refine ⟨hp.size, fun i hi => ?_, fun i hi h => hmay i hi (hpage h i) _, fun i hi h => hmay i hi (hpage h i) _,
    fun h => ?_, fun i hi hallow => ?_⟩
  · rw [promptText_length, echoText_length] at hi
    have hrodata : (byteAddr (InitSymbol.prompt.addr text.length) i).toNat = p + i := by
      rw [hp.prompt, toNat_byteAddr_ofNat (by omega)]
    have hlow : 0x400000 ≤ (byteAddr (InitSymbol.prompt.addr text.length) i).toNat := by omega
    obtain ⟨pa, ht⟩ := B.text_page hlow (by omega)
    exact userMay_iff.mpr ⟨_, _, ht, by decide, by decide⟩
  · rw [bufferStartsPage, decide_eq_false_iff_not] at h
    exact hdenied 0 (by decide) (by omega)
  · by_cases hlt : sectionStart text.length + 48 + i < 4096 * imagePages (B.imageEnd - B.imageStart)
    · exact absurd hallow (hdenied i hi hlt)
    · exact hmay i hi (Nat.not_lt.mp hlt) _

/-- The program starts with its code and its strings in memory. -/
theorem UserBoot.hasText (rx tx : List Byte) : HasText text (B.task rx tx).toUserState := fun i hi => by
  have hfits := initImage_fits B himage
  have hle : text.length ≤ sectionStart text.length := by
    rw [sectionStart]
    omega
  show B.userImage.getD (byteAddr USER_TEXT_START i - USER_TEXT_START).toNat 0 = _
  rw [byteAddr, Mem.add_ofNat_sub _ (by omega), himage, initImage, List.append_assoc, List.getD_append _ _ _ _ hi]

theorem UserBoot.hasRodata (rx tx : List Byte) : HasRodata text.length (B.task rx tx).toUserState := fun i hi => by
  have hfits := initImage_fits B himage
  have hle : text.length ≤ sectionStart text.length := by
    rw [sectionStart]
    omega
  obtain ⟨p, b, hp⟩ := initPlaced (show text.length ≤ 0x4000000000 by omega)
  have hi' := hi
  rw [List.length_append, promptText_length, echoText_length] at hi'
  have hlen : (text ++ List.replicate (sectionStart text.length - text.length) 0).length =
      sectionStart text.length := by
    rw [List.length_append, List.length_replicate]
    omega
  have hva : byteAddr (InitSymbol.prompt.addr text.length) i =
      USER_TEXT_START + BitVec.ofNat 64 (sectionStart text.length + i) := by
    rw [hp.prompt, hp.start, byteAddr, ← BitVec.ofNat_add, Nat.add_assoc, BitVec.ofNat_add]
    rfl
  show B.userImage.getD (byteAddr (InitSymbol.prompt.addr text.length) i - USER_TEXT_START).toNat 0 = _
  rw [hva, Mem.add_ofNat_sub _ (by omega), himage, initImage, List.getD_append_right _ _ _ _ (by omega), hlen,
    Nat.add_sub_cancel_left]

end Init

end Boot

/-! ## A boot with the program -/

/-- One instruction a line, for any machine code of `text` bytes. -/
def lineCode (text : Nat) (T : Translation) : UserCode T where
  event u :=
    match initText[(u.pc - USER_TEXT_START).toNat / 4]? with
    | none => .trap 2 0
    | some instr =>
      match instr.result text u.reg with
      | none => .trap 8 0
      | some (rd, v) => .next { u with pc := u.pc + 4, reg := Function.update (Function.update u.reg rd v) .zero 0 }
  zero := fun _ _ h => by
    split at h
    · cases h
    · split at h
      · cases h
      · cases h
        rfl
  stores := fun _ _ _ h _ => by
    split at h
    · cases h
    · split at h
      · cases h
      · cases h
        rfl
  ebreak := fun _ _ h => by
    split at h
    · cases h
    · split at h
      · cases h
      · cases h

def lineAddr (i : Nat) : U64 := byteAddr USER_TEXT_START (4 * i)

/-- No line writes `zero`. -/
theorem initText_rd {instr : InitInstr} (hi : instr ∈ initText) {n : Nat} {reg : Reg → U64} {rd : Reg} {v : U64}
    (h : instr.result n reg = some (rd, v)) : rd ≠ .zero := by
  revert rd v
  revert instr
  simp [initText, InitInstr.result]

theorem lineCode_runs (T : Translation) (text : List Byte) : RunsInit (lineCode text.length T) text lineAddr := by
  have hlt : ∀ {i : Nat} {instr : InitInstr}, initText[i]? = some instr → i < 27 := fun h =>
    (List.getElem?_eq_some_iff.mp h).1
  have hat : ∀ i, i < 27 → (lineAddr i - USER_TEXT_START).toNat / 4 = i := fun i hi => by
    rw [lineAddr, byteAddr, Mem.add_ofNat_sub _ (by omega)]
    omega
  have hnext : ∀ i, lineAddr (i + 1) = lineAddr i + 4 := fun i => by
    rw [lineAddr, lineAddr, byteAddr, byteAddr, Nat.mul_succ, BitVec.ofNat_add, BitVec.add_assoc]
    rfl
  refine ⟨rfl, fun i instr u rd v hi hpc h0 _ hresult => .single ?_, fun i u hi hpc _ => ⟨⟨0, ?_⟩, hnext i⟩⟩
  · have hrd : rd ≠ .zero := initText_rd (List.mem_of_getElem? hi) hresult
    have hzero : Function.update (Function.update u.reg rd v) .zero 0 = Function.update u.reg rd v := by
      rw [Function.update_eq_self_iff, Function.update_of_ne hrd.symm, h0]
    simp only [lineCode, hpc, hat i (hlt hi), hi, hresult, hzero, hnext]
  · simp only [lineCode, hpc, hat i (hlt hi), hi, InitInstr.result]

/-- The kernel image with `init.S` at 0x80002000. -/
def initMemoryAt (text : List Byte) : Mem := fun a => (initImage text).getD (a - 0x80002000).toNat 0

theorem imageBytes_initMemoryAt {text : List Byte} {imageEnd : Addr}
    (he : (imageEnd - 0x80002000).toNat = (initImage text).length) :
    imageBytes (initMemoryAt text) 0x80002000 imageEnd = initImage text := by
  refine List.ext_getElem (by rw [imageBytes, List.length_map, List.length_range, he]) fun i hi hi' => ?_
  simp only [imageBytes, List.getElem_map, List.getElem_range, initMemoryAt]
  have := (imageEnd - 0x80002000).isLt
  rw [Mem.add_ofNat_sub _ (by omega), List.getD_eq_getElem _ _ hi']

/-- A boot of `samplePlatform` with the program. -/
theorem sample_init (text : List Byte) (hlt : text.length ≤ 4048) :
    ∃ B : UserBoot, B.userImage = initImage text := by
  have hle : sectionStart text.length ≤ 4048 := by
    rw [sectionStart]
    omega
  have hend : (BitVec.ofNat 64 (0x80002000 + (initImage text).length) : Addr).toNat =
      0x80002000 + (initImage text).length := by
    rw [BitVec.toNat_ofNat, length_initImage]
    omega
  have hsub : (BitVec.ofNat 64 (0x80002000 + (initImage text).length) - 0x80002000 : Addr).toNat =
      (initImage text).length := by
    rw [BitVec.toNat_sub, hend, length_initImage, show (0x80002000 : Addr).toNat = 0x80002000 from rfl]
    omega
  obtain ⟨B, hm, hs, he, -⟩ := sample_userBoot (initMemoryAt text) (.ofNat 64 (0x80002000 + (initImage text).length))
    (by rw [hend]; exact Nat.le_add_right _ _) (by rw [hend, length_initImage]; omega)
    (by rw [imagePages, hsub, length_initImage]; omega)
  refine ⟨B, ?_⟩
  rw [UserBoot.userImage, hm, hs, he]
  exact imageBytes_initMemoryAt hsub

/-! ## Its end -/

variable (B : UserBoot) {text : List Byte} {code : ∀ T, UserCode T} {addr : Nat → U64} {rx tx : List Byte}

/-- "hi" and enter. -/
def hiKeys : List Byte := [0x68, 0x69, 0x0D]

end RvOs
