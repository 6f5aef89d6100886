import RvOs.Framework.Refinement
import RvOs.Proof.UserRuns
import RvOs.Spec.InitRuns

/-!
# The init program runs to its end

Lines without a call are run by `RunsInit.lines`, by induction on them, and
calls by `RunsInit.write` and its like. Put together they are the program
(`RunsInit.runsTo`).
-/

namespace RvOs

open RiscV Relation

variable {T : Translation} {code : UserCode T} {text : List Byte} {addr : Nat → U64} {status : U64} {t t' : Task}
  {z : Fate Task} {i : Nat} {buffer : U64} {bytes : List Byte}

/-! ## Lines -/

/-- Instructions are steps of the program. -/
theorem runsTo_events {u : UserState} (hr : ReflTransGen (fun a b => code.event a = .next b) t.toUserState u)
    (hz : RunsTo (TaskStep code status) (TaskOk code) (.runs { t with toUserState := u }) z) :
    RunsTo (TaskStep code status) (TaskOk code) (.runs t) z := by
  suffices h : ∀ a, ReflTransGen (fun a b => code.event a = .next b) a u →
      RunsTo (TaskStep code status) (TaskOk code) (.runs { t with toUserState := a }) z from h _ hr
  intro a ha
  induction ha using ReflTransGen.head_induction_on with
  | refl => exact hz
  | @head a c hac _ ih =>
    have hstep : TaskStep code status (.runs { t with toUserState := a }) _ := .next _
    rw [Task.next, hac] at hstep
    refine .head (fun _ _ _ => taskStep_unique) (fun tval he => ?_) hstep ih
    rw [hac] at he
    cases he

/-- The registers after an instruction. -/
def InitInstr.exec (text : Nat) (reg : Reg → U64) (instr : InitInstr) : Reg → U64 :=
  match instr.result text reg with
  | some (rd, v) => Function.update reg rd v
  | none => reg

/-- An instruction that goes to the next line. -/
def InitInstr.IsPlain (instr : InitInstr) : Prop := instr ≠ .ecall ∧ instr ≠ .j

instance (instr : InitInstr) : Decidable instr.IsPlain := inferInstanceAs (Decidable (_ ∧ _))

theorem InitInstr.IsPlain.exec {instr : InitInstr} (h : instr.IsPlain) (text : Nat) (reg : Reg → U64) :
    ∃ rd v, instr.result text reg = some (rd, v) ∧ instr.exec text reg = Function.update reg rd v := by
  cases instr with
  | li | la | sub | mv => exact ⟨_, _, rfl, rfl⟩
  | ecall => exact absurd rfl h.1
  | j => exact absurd rfl h.2

/-- The program is at line `i`. -/
structure AtLine (text : List Byte) (addr : Nat → U64) (t : Task) (i : Nat) : Prop where
  pc : t.pc = addr i
  zero : t.reg .zero = 0
  text : HasText text t.toUserState

/-- The program after the lines `is` from line `i` on. -/
def Task.afterLines (text : List Byte) (addr : Nat → U64) (i : Nat) (is : List InitInstr) (t : Task) : Task :=
  { t with pc := addr (i + is.length), reg := is.foldl (InitInstr.exec text.length) t.reg }

theorem AtLine.lines (ha : AtLine text addr t i) (is : List InitInstr)
    (h0 : (is.foldl (InitInstr.exec text.length) t.reg) .zero = t.reg .zero) :
    AtLine text addr (t.afterLines text addr i is) (i + is.length) := ⟨rfl, h0.trans ha.zero, ha.text⟩

/-- Instructions keep `zero`. -/
theorem events_zero {u u' : UserState} (hr : ReflTransGen (fun a b => code.event a = .next b) u u')
    (h0 : u.reg .zero = 0) : u'.reg .zero = 0 := by
  rcases ReflTransGen.cases_tail hr with rfl | ⟨c, -, hc⟩
  · exact h0
  · exact code.zero c u' hc

section Init

variable (h : RunsInit code text addr)

include h

/-- Lines one after the other. -/
theorem RunsInit.lines (is : List InitInstr) : ∀ (t : Task) (i : Nat), (∃ rest, initText.drop i = is ++ rest) →
    (∀ x ∈ is, x.IsPlain) → AtLine text addr t i →
    RunsTo (TaskStep code status) (TaskOk code) (.runs (t.afterLines text addr i is)) z →
    RunsTo (TaskStep code status) (TaskOk code) (.runs t) z := by
  induction is with
  | nil =>
    intro t i _ _ ha hz
    have ht : t.afterLines text addr i [] = t := congrArg (fun pc => ({ t with pc := pc } : Task)) ha.pc.symm
    rwa [ht] at hz
  | cons x is ih =>
    rintro t i ⟨rest, hdrop⟩ hplain ha hz
    obtain ⟨hx, hplain⟩ := List.forall_mem_cons.mp hplain
    obtain ⟨rd, v, hresult, hexec⟩ := hx.exec text.length t.reg
    have hi : initText[i]? = some x := by
      rw [← Nat.add_zero i, ← List.getElem?_drop, hdrop]
      rfl
    have htail : initText.drop (i + 1) = is ++ rest := by
      rw [← List.drop_drop, hdrop]
      rfl
    have hline := h.line i x t.toUserState rd v hi ha.pc ha.zero ha.text hresult
    refine runsTo_events hline ?_
    refine ih { t with pc := addr (i + 1), reg := Function.update t.reg rd v } (i + 1) ⟨rest, htail⟩ hplain
      ⟨rfl, events_zero hline ha.zero, ha.text⟩ ?_
    rw [Task.afterLines, List.foldl_cons, hexec, List.length_cons, Nat.add_comm is.length, ← Nat.add_assoc] at hz
    exact hz

/-! ## Calls -/

theorem RunsInit.next (hi : initText[i]? = some .ecall) (ha : AtLine text addr t i) :
    t.next code status = t.trap T status 8 := by
  obtain ⟨⟨tval, he⟩, -⟩ := h.ecall i t.toUserState hi ha.pc ha.text
  rw [Task.next, he]

/-- A call that returns, -/
theorem RunsInit.returns {a0 : U64} (hi : initText[i]? = some .ecall) (ha : AtLine text addr t i) (hc : t.Confined T)
    (hcall : t.call T = .runs (a0, t'))
    (hz : RunsTo (TaskStep code status) (TaskOk code) (.runs (t'.resume status a0)) z) :
    RunsTo (TaskStep code status) (TaskOk code) (.runs t) z := by
  have hstep : TaskStep code status (.runs t) _ := .next t
  rw [h.next hi ha, Task.trap, if_pos rfl, hcall] at hstep
  exact .head (fun _ _ _ => taskStep_unique) (fun _ _ => hc) hstep hz

/-- and one that does not. -/
theorem RunsInit.stops {why : Stop} {tx : List Byte} (hi : initText[i]? = some .ecall) (ha : AtLine text addr t i)
    (hc : t.Confined T) (hcall : t.call T = .stops why tx) :
    RunsTo (TaskStep code status) (TaskOk code) (.runs t) (.stops why tx) := by
  have hstep : TaskStep code status (.runs t) _ := .next t
  rw [h.next hi ha, Task.trap, if_pos rfl, hcall] at hstep
  refine .head (fun _ _ _ => taskStep_unique) (fun _ _ => hc) hstep (.stop trivial fun c hc => ?_)
  cases hc

omit h in
theorem Task.send_small {total : U64} {n : Nat} (h0 : 0 < n) (hn : n ≤ 256) (hb : buffer ≠ 0)
    (hload : ∀ i < n, T.userMay .load (byteAddr buffer i) = true) :
    t.send T total buffer n = .runs (total, { t with tx := t.tx ++ (t.bytes buffer n).filter (· ≠ 0) }) := by
  rw [Task.send, if_neg (by omega), if_neg hb, Nat.min_eq_left hn, if_pos hload, Nat.sub_self, Task.send, if_pos rfl]

/-- `write(1, buffer, n)` for `bytes` of its own. -/
theorem RunsInit.write (hi : initText[i]? = some .ecall) (ha : AtLine text addr t i) (h7 : t.reg .a7 = SYSCALL_WRITE)
    (h0 : t.reg .a0 = 1) (h1 : t.reg .a1 = buffer) (h2 : (t.reg .a2).toNat = bytes.length) (hb : buffer ≠ 0)
    (hlen : 0 < bytes.length ∧ bytes.length ≤ 256)
    (hload : ∀ j < bytes.length, T.userMay .load (byteAddr buffer j) = true)
    (hmem : ∀ j < bytes.length, t.mem (byteAddr buffer j) = bytes.getD j 0)
    (hz : RunsTo (TaskStep code status) (TaskOk code)
      (.runs ({ t with tx := t.tx ++ bytes.filter (· ≠ 0) }.resume status (t.reg .a2))) z) :
    RunsTo (TaskStep code status) (TaskOk code) (.runs t) z := by
  have hbytes : t.bytes buffer bytes.length = bytes := by
    refine List.ext_getElem (by rw [Task.bytes, List.length_map, List.length_range]) fun j hj hj' => ?_
    simp only [Task.bytes, List.getElem_map, List.getElem_range]
    rw [hmem j hj', List.getD_eq_getElem _ _ hj']
  have hcall : t.call T = .runs (t.reg .a2, { t with tx := t.tx ++ bytes.filter (· ≠ 0) }) := by
    rw [Task.call, if_neg (by rw [h7]; decide), if_pos h7, Task.write, if_neg (by rw [h0]; decide), h1, h2,
      Task.send_small hlen.1 hlen.2 hb hload, hbytes]
  refine h.returns hi ha ?_ hcall hz
  rintro access va (⟨-, -, rfl, j, hj, rfl⟩ | ⟨hread, -⟩) -
  · rw [h1]
    exact hload j (h2 ▸ hj)
  · rw [h7] at hread
    exact absurd hread (by decide)

end Init

/-! ## Its data -/

theorem promptText_length : promptText.length = 32 := by decide

theorem echoText_length : echoText.length = 12 := by decide

/-- `.rodata` is at `p`, after `.text`, and the input buffer at `b`, after `.rodata`. -/
structure InitPlaced (n p b : Nat) : Prop where
  size : n ≤ 0x4000000000
  start : p = 0x400000 + sectionStart n
  rodata : 0x400000 + n ≤ p ∧ p ≤ 0x400000 + n + 15
  buffer : b = p + 48
  prompt : InitSymbol.prompt.addr n = BitVec.ofNat 64 p
  promptEnd : InitSymbol.promptEnd.addr n = BitVec.ofNat 64 (p + 32)
  echoPrefix : InitSymbol.echoPrefix.addr n = BitVec.ofNat 64 (p + 32)
  echoPrefixEnd : InitSymbol.echoPrefixEnd.addr n = BitVec.ofNat 64 (p + 44)
  inputBuffer : InitSymbol.inputBuffer.addr n = BitVec.ofNat 64 b

theorem initPlaced {n : Nat} (hn : n ≤ 0x4000000000) : ∃ p b, InitPlaced n p b := by
  have hstart : ∀ m, m ≤ sectionStart m ∧ sectionStart m ≤ m + 15 := fun m => by
    rw [sectionStart]
    omega
  have hrodata : (userLink (initSizes n)).userRodataStart = 0x400000 + n := by
    show placeSection 0x400000 n = _
    rw [placeSection]
    split
    · omega
    · omega
  have hbss : (userLink (initSizes n)).userBssStart = sectionStart (0x400000 + n) + 44 := by
    have hdata : (userLink (initSizes n)).userBssStart =
      placeSection (userLink (initSizes n)).userRodataStart (promptText.length + echoText.length) := rfl
    rw [hdata, hrodata, promptText_length, echoText_length, placeSection, if_neg (by decide), sectionStart]
  have h1 := hstart (0x400000 + n)
  have hp : sectionStart (0x400000 + n) = 0x400000 + sectionStart n := by
    rw [sectionStart, sectionStart]
    omega
  have hb : sectionStart (sectionStart (0x400000 + n) + 44) = sectionStart (0x400000 + n) + 48 := by
    rw [sectionStart, sectionStart]
    omega
  refine ⟨sectionStart (0x400000 + n), sectionStart (sectionStart (0x400000 + n) + 44), hn, hp, h1, hb,
    ?_, ?_, ?_, ?_, ?_⟩
  · rw [InitSymbol.addr, hrodata]
  · rw [InitSymbol.addr, hrodata, promptText_length]
  · rw [InitSymbol.addr, hrodata, promptText_length]
  · rw [InitSymbol.addr, hrodata, promptText_length, echoText_length]
  · rw [InitSymbol.addr, hbss]

theorem ofNat_ne {n : Nat} (h0 : 0 < n) (hlt : n < 2 ^ 64) : BitVec.ofNat 64 n ≠ 0 := by
  rw [ne_eq, ← BitVec.toNat_inj, BitVec.toNat_ofNat, Nat.mod_eq_of_lt hlt]
  exact Nat.ne_of_gt h0

theorem toNat_byteAddr_ofNat {a j : Nat} (h : a + j < 2 ^ 64) : (byteAddr (BitVec.ofNat 64 a) j).toNat = a + j := by
  rw [byteAddr, ← BitVec.ofNat_add, BitVec.toNat_ofNat, Nat.mod_eq_of_lt h]

theorem InitPlaced.buffer_ne {n p b : Nat} (hp : InitPlaced n p b) : BitVec.ofNat 64 b ≠ 0 := by
  have := hp.size; have := hp.rodata; have := hp.buffer
  exact ofNat_ne (by omega) (by omega)

/-- The strings are in memory. -/
def HasRodata (n : Nat) (u : UserState) : Prop :=
  ∀ i < (promptText ++ echoText).length,
    u.mem (byteAddr (InitSymbol.prompt.addr n) i) = (promptText ++ echoText).getD i 0

/-! ## The program, from its end -/

section Program

variable (h : RunsInit code text addr) {p b : Nat} (hp : InitPlaced text.length p b) {line : List Byte}

include h

theorem RunsInit.resumed {a0 : U64} (hi : initText[i]? = some .ecall) (ha : AtLine text addr t i) (hpc : t'.pc = t.pc)
    (hreg : t'.reg = t.reg) (htext : HasText text t'.toUserState) :
    AtLine text addr (t'.resume status a0) (i + 1) := by
  obtain ⟨-, hnext⟩ := h.ecall i t.toUserState hi ha.pc ha.text
  refine ⟨?_, (congrFun hreg .zero).trans ha.zero, htext⟩
  rw [hnext, ← ha.pc, ← hpc]
  rfl

omit h in
theorem Task.store_at (hl : line.length ≤ 64) {j : Nat} (hj : j < line.length) :
    (t.store buffer line).mem (byteAddr buffer j) = line.getD j 0 := by
  have hsub : (byteAddr buffer j - buffer).toNat = j := Mem.add_ofNat_sub buffer (by omega)
  refine (if_pos ?_).trans ?_
  · rw [hsub]
    exact hj
  · rw [hsub]

omit h in
/-- A line stored at `b` leaves what is below. -/
theorem Task.store_below (hl : line.length ≤ 64) (hb : b < 2 ^ 63) {va : U64} (hva : va.toNat < b) :
    (t.store (BitVec.ofNat 64 b) line).mem va = t.mem va := by
  refine if_neg ?_
  rw [BitVec.toNat_sub, BitVec.toNat_ofNat]
  omega

/-- `exit_group(0)`. -/
theorem RunsInit.exits (ha : AtLine text addr t 23) :
    RunsTo (TaskStep code status) (TaskOk code) (.runs t) (.stops .halted (t.tx ++ exitText 0)) := by
  let is : List InitInstr := [.li .a0 0, .li .a7 94]
  have h7 : (t.afterLines text addr 23 is).reg .a7 = SYSCALL_EXIT_GROUP := rfl
  refine h.lines is t 23 ⟨_, rfl⟩ (by decide) ha (h.stops rfl (ha.lines is rfl) ?_ ?_)
  · rintro access va (⟨hw, -⟩ | ⟨hr, -⟩) -
    · rw [h7] at hw
      exact absurd hw (by decide)
    · rw [h7] at hr
      exact absurd hr (by decide)
  · rw [Task.call, if_neg (by rw [h7]; decide), if_neg (by rw [h7]; decide), if_pos (.inr h7)]
    rfl

include hp

/-- `write(1, input_buffer, bytes_read)`. -/
theorem RunsInit.echoes (ha : AtLine text addr t 18) (hlen : 0 < line.length ∧ line.length ≤ 64)
    (h0 : t.reg .s0 = BitVec.ofNat 64 line.length)
    (hload : ∀ j < 64, T.userMay .load (byteAddr (BitVec.ofNat 64 b) j) = true)
    (hmem : ∀ j < line.length, t.mem (byteAddr (BitVec.ofNat 64 b) j) = line.getD j 0) :
    RunsTo (TaskStep code status) (TaskOk code) (.runs t)
      (.stops .halted (t.tx ++ line.filter (· ≠ 0) ++ exitText 0)) := by
  let is : List InitInstr := [.li .a0 1, .la .a1 .inputBuffer, .mv .a2 .s0, .li .a7 64]
  refine h.lines is t 18 ⟨_, rfl⟩ (by decide) ha ?_
  refine h.write rfl (ha.lines is rfl) rfl rfl hp.inputBuffer ?_ hp.buffer_ne ⟨hlen.1, by omega⟩
    (fun j hj => hload j (by omega)) hmem ?_
  · show (t.reg .s0).toNat = _
    rw [h0, BitVec.toNat_ofNat]
    omega
  · exact h.exits (h.resumed rfl (ha.lines is rfl) rfl rfl ha.text)

/-- From the end of `read` on. -/
theorem RunsInit.prints (ha : AtLine text addr t 11) (hrodata : HasRodata text.length t.toUserState)
    (hr : ∀ j < promptText.length + echoText.length,
      T.userMay .load (byteAddr (InitSymbol.prompt.addr text.length) j) = true)
    (hlen : 0 < line.length ∧ line.length ≤ 64) (h0 : t.reg .a0 = BitVec.ofNat 64 line.length)
    (hload : ∀ j < 64, T.userMay .load (byteAddr (BitVec.ofNat 64 b) j) = true)
    (hmem : ∀ j < line.length, t.mem (byteAddr (BitVec.ofNat 64 b) j) = line.getD j 0) :
    RunsTo (TaskStep code status) (TaskOk code) (.runs t)
      (.stops .halted (t.tx ++ echoText ++ line.filter (· ≠ 0) ++ exitText 0)) := by
  have hsize := hp.size; have hrange := hp.rodata
  have hshift : ∀ j, byteAddr (BitVec.ofNat 64 (p + 32)) j = byteAddr (InitSymbol.prompt.addr text.length) (32 + j) :=
    fun j => by rw [hp.prompt, byteAddr, byteAddr, ← BitVec.ofNat_add, ← BitVec.ofNat_add, Nat.add_assoc]
  let is : List InitInstr :=
    [.mv .s0 .a0, .li .a0 1, .la .a1 .echoPrefix, .la .a2 .echoPrefixEnd, .sub .a2 .a2 .a1, .li .a7 64]
  refine h.lines is t 11 ⟨_, rfl⟩ (by decide) ha ?_
  refine h.write rfl (ha.lines is rfl) rfl rfl hp.echoPrefix (show _ = echoText.length from ?_)
    (ofNat_ne (by omega) (by omega)) (by decide)
    (fun j hj => ?_) (fun j hj => ?_) ?_
  · show (InitSymbol.echoPrefixEnd.addr text.length - InitSymbol.echoPrefix.addr text.length).toNat = _
    rw [hp.echoPrefix, hp.echoPrefixEnd, show p + 44 = (p + 32) + 12 by omega, BitVec.ofNat_add (p + 32),
      BitVec.add_comm, BitVec.add_sub_cancel]
    rfl
  · rw [hshift]
    exact hr _ (by rw [promptText_length]; omega)
  · rw [hshift]
    refine (hrodata (32 + j) (by rw [List.length_append, promptText_length]; omega)).trans ?_
    rw [List.getD_append_right _ _ _ _ (by rw [promptText_length]; omega), promptText_length, Nat.add_sub_cancel_left]
  · exact h.echoes hp (h.resumed rfl (ha.lines is rfl) rfl rfl ha.text) hlen h0 hload hmem

variable {writable : Bool} (hm : InitMemory T text.length writable)

omit h hp in
include hm in
/-- What `read` has to store to is the program's own, or out of reach. -/
theorem InitMemory.confined (h7 : t.reg .a7 = SYSCALL_READ) (h1 : t.reg .a1 = InitSymbol.inputBuffer.addr text.length)
    (h2 : t.reg .a2 = 64) : t.Confined T := by
  rintro access va (⟨hw, -⟩ | ⟨-, -, -, rfl, line, hline, j, hj, rfl⟩) hallow
  · rw [h7] at hw
    exact absurd hw (by decide)
  · rw [h2, lineOf, Option.map_eq_some_iff] at hline
    obtain ⟨⟨line', rest⟩, hedit, rfl⟩ := hline
    have hlen : line'.length ≤ 64 := (editLine_length (by decide) (Nat.zero_le _) hedit).2
    have hj : j < 64 := Nat.lt_of_lt_of_le hj hlen
    rw [h1] at hallow ⊢
    exact hm.own j hj hallow

omit h hp in
theorem Task.read_waits (he : editLine 64 t.rx [] = none) :
    t.read T 0 buffer 64 = .stops .waiting (t.tx ++ shown 64 t.rx []) := by
  have hlimit : min (64 : U64).toNat 256 = 64 := rfl
  rw [Task.read, if_neg (by decide), if_neg (by decide), hlimit]
  dsimp only
  rw [he]

omit h hp in
theorem Task.read_line {rest : List Byte} (hb : buffer ≠ 0) (he : editLine 64 t.rx [] = some (line, rest)) :
    t.read T 0 buffer 64 =
      if ∀ i < line.length, T.userMay .store (byteAddr buffer i) = true then
        .runs (BitVec.ofNat 64 line.length,
          { t with rx := rest, tx := t.tx ++ shown 64 t.rx [] }.store buffer line)
      else .stops .panicked (t.tx ++ shown 64 t.rx [] ++ panicText) := by
  have hlimit : min (64 : U64).toNat 256 = 64 := rfl
  rw [Task.read, if_neg (by decide), if_neg (by decide), hlimit]
  dsimp only
  rw [he]
  exact if_neg hb

/-- The lines of `read(0, input_buffer, 64)`. -/
def readLines : List InitInstr := [.li .a0 0, .la .a1 .inputBuffer, .li .a2 64, .li .a7 63]

omit h in
theorem call_readLines : (t.afterLines text addr 6 readLines).call T =
    (t.afterLines text addr 6 readLines).read T 0 (BitVec.ofNat 64 b) 64 := by
  rw [← hp.inputBuffer]
  rfl

include hm

/-- From the end of the first `write` on, when there is no line, -/
theorem RunsInit.waits (ha : AtLine text addr t 6) (he : editLine 64 t.rx [] = none) :
    RunsTo (TaskStep code status) (TaskOk code) (.runs t) (.stops .waiting (t.tx ++ shown 64 t.rx [])) := by
  refine h.lines readLines t 6 ⟨_, rfl⟩ (by decide) ha ?_
  exact h.stops rfl (ha.lines readLines rfl) (hm.confined rfl rfl rfl) ((call_readLines hp).trans (Task.read_waits he))

/-- when it cannot be stored, -/
theorem RunsInit.faults (hw : writable = false) (ha : AtLine text addr t 6) {rest : List Byte}
    (he : editLine 64 t.rx [] = some (line, rest)) :
    RunsTo (TaskStep code status) (TaskOk code) (.runs t)
      (.stops .panicked (t.tx ++ shown 64 t.rx [] ++ panicText)) := by
  have hlen := editLine_length (by decide) (Nat.zero_le _) he
  have hdenied : ¬ ∀ i < line.length, T.userMay .store (byteAddr (BitVec.ofNat 64 b) i) = true := fun hall => by
    rw [← hp.inputBuffer] at hall
    exact hm.fault hw (allows_of_userMay (hall 0 hlen.1))
  refine h.lines readLines t 6 ⟨_, rfl⟩ (by decide) ha ?_
  have he₁ : editLine 64 (t.afterLines text addr 6 readLines).rx [] = some (line, rest) := he
  refine h.stops rfl (ha.lines readLines rfl) (hm.confined rfl rfl rfl) ((call_readLines hp).trans ?_)
  exact (Task.read_line hp.buffer_ne he₁).trans (if_neg hdenied)

/-- and when it can. -/
theorem RunsInit.reads (hw : writable = true) (ha : AtLine text addr t 6)
    (hrodata : HasRodata text.length t.toUserState) {rest : List Byte}
    (he : editLine 64 t.rx [] = some (line, rest)) :
    RunsTo (TaskStep code status) (TaskOk code) (.runs t)
      (.stops .halted (t.tx ++ shown 64 t.rx [] ++ echoText ++ line.filter (· ≠ 0) ++ exitText 0)) := by
  have hlen := editLine_length (by decide) (Nat.zero_le _) he
  have hsize := hp.size; have hrange := hp.rodata; have hbuffer := hp.buffer
  have hall : ∀ i < line.length, T.userMay .store (byteAddr (BitVec.ofNat 64 b) i) = true := fun i hi => by
    rw [← hp.inputBuffer]
    exact hm.store i (by omega) hw
  let t₁ := t.afterLines text addr 6 readLines
  let t₂ := { t₁ with rx := rest, tx := t.tx ++ shown 64 t.rx [] }.store (BitVec.ofNat 64 b) line
  have ha₁ : AtLine text addr t₁ 10 := ha.lines readLines rfl
  -- the line is stored past the code and the strings
  have hbelow : ∀ va : U64, va.toNat < b → t₂.mem va = t.mem va := fun va hva =>
    Task.store_below hlen.2 (by omega) hva
  have htext : HasText text t₂.toUserState := fun i hi => by
    refine (hbelow _ ?_).trans (ha.text i hi)
    rw [byteAddr, BitVec.toNat_add, BitVec.toNat_ofNat, show USER_TEXT_START.toNat = 0x400000 from rfl]
    omega
  have hrodata' : HasRodata text.length t₂.toUserState := fun i hi => by
    refine (hbelow _ ?_).trans (hrodata i hi)
    rw [List.length_append, promptText_length, echoText_length] at hi
    rw [hp.prompt, toNat_byteAddr_ofNat (by omega)]
    omega
  have he₁ : editLine 64 t₁.rx [] = some (line, rest) := he
  have hcall : t₁.call T = .runs (BitVec.ofNat 64 line.length, t₂) :=
    (call_readLines hp).trans ((Task.read_line hp.buffer_ne he₁).trans (if_pos hall))
  refine h.lines readLines t 6 ⟨_, rfl⟩ (by decide) ha ?_
  refine h.returns rfl ha₁ (hm.confined rfl rfl rfl) hcall ?_
  refine h.prints hp (h.resumed rfl ha₁ rfl rfl htext) hrodata' hm.rodata hlen rfl (fun j hj => ?_) fun j hj =>
    Task.store_at hlen.2 hj
  rw [← hp.inputBuffer]
  exact hm.load j hj hw

/-- The program runs to its end. -/
theorem RunsInit.runsTo (hpc : t.pc = USER_TEXT_START) (h0 : t.reg .zero = 0) (htext : HasText text t.toUserState)
    (hrodata : HasRodata text.length t.toUserState) :
    RunsTo (TaskStep code status) (TaskOk code) (.runs t)
      (.stops (initOutcome writable t.rx).1 (t.tx ++ (initOutcome writable t.rx).2)) := by
  have hsize := hp.size; have hrange := hp.rodata
  have ha : AtLine text addr t 0 := ⟨hpc.trans h.entry.symm, h0, htext⟩
  let is : List InitInstr := [.li .a0 1, .la .a1 .prompt, .la .a2 .promptEnd, .sub .a2 .a2 .a1, .li .a7 64]
  refine h.lines is t 0 ⟨_, rfl⟩ (by decide) ha ?_
  refine h.write rfl (ha.lines is rfl) rfl rfl hp.prompt (show _ = promptText.length from ?_)
    (ofNat_ne (by omega) (by omega)) (by decide) (fun j hj => ?_) (fun j hj => ?_) ?_
  · show (InitSymbol.promptEnd.addr text.length - InitSymbol.prompt.addr text.length).toNat = _
    rw [hp.prompt, hp.promptEnd, BitVec.ofNat_add, BitVec.add_comm, BitVec.add_sub_cancel]
    rfl
  · rw [← hp.prompt]
    exact hm.rodata j (by omega)
  · rw [← hp.prompt]
    refine (hrodata j (by rw [List.length_append]; omega)).trans ?_
    rw [List.getD_append _ _ _ _ hj]
  have hprompt : promptText.filter (· ≠ 0) = promptText := by decide
  rw [hprompt]
  let t₁ := { t.afterLines text addr 0 is with tx := t.tx ++ promptText }.resume status
    ((t.afterLines text addr 0 is).reg .a2)
  have ha₁ : AtLine text addr t₁ 6 := h.resumed rfl (ha.lines is rfl) rfl rfl htext
  cases he : editLine 64 t.rx [] with
  | none =>
    have hout : initOutcome writable t.rx = (.waiting, promptText ++ shown 64 t.rx []) := by
      rw [initOutcome, he]
    rw [hout, ← List.append_assoc]
    exact h.waits hp hm ha₁ he
  | some r =>
    obtain ⟨line, rest⟩ := r
    have hout : initOutcome writable t.rx =
        if writable then
          (.halted, promptText ++ shown 64 t.rx [] ++ echoText ++ line.filter (· ≠ 0) ++ exitText 0)
        else (.panicked, promptText ++ shown 64 t.rx [] ++ panicText) := by
      rw [initOutcome, he]
    by_cases hw : writable = true
    · have hend : RunsTo (TaskStep code status) (TaskOk code) (.runs t₁) (.stops .halted
          (t.tx ++ promptText ++ shown 64 t.rx [] ++ echoText ++ line.filter (· ≠ 0) ++ exitText 0)) :=
        h.reads hp hm hw ha₁ hrodata he
      rw [hout, if_pos hw]
      simp only [List.append_assoc] at hend ⊢
      exact hend
    · have hend : RunsTo (TaskStep code status) (TaskOk code) (.runs t₁) (.stops .panicked
          (t.tx ++ promptText ++ shown 64 t.rx [] ++ panicText)) :=
        h.faults hp hm (eq_false_of_ne_true hw) ha₁ he
      rw [hout, if_neg hw]
      simp only [List.append_assoc] at hend ⊢
      exact hend

end Program

end RvOs
