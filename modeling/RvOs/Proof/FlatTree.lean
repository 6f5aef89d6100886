import RvOs.Proof.DtbBlob
import RvOs.Spec.FlatTree

/-!
# libfdt reads the tree
-/

namespace RvOs

open FdtBlob

variable {fdt : FdtBlob} {h : FdtHeader} {p q r : Nat} {tag w : BitVec 32} {name : List Byte}

/-- Induction on a tree: what holds of a node if it holds of its children. -/
@[elab_as_elim]
theorem FdtNode.ind {P : FdtNode → Prop}
    (node : ∀ properties children, (∀ n ∈ children, P n) → P (.node properties children)) (n : FdtNode) : P n :=
  match n with
  | .node properties children => node properties children fun n _ => FdtNode.ind node n
termination_by sizeOf n

theorem fdt32_of_holds (hw : Holds fdt.load p (be32 w)) : fdt.fdt32ToCpu p = some w := by
  rw [be32] at hw
  simp only [holds_cons, holds_nil, and_true, Nat.add_assoc, Nat.reduceAdd] at hw
  obtain ⟨h0, h1, h2, h3⟩ := hw
  rw [fdt32ToCpu, bind_of_some h0, bind_of_some h1, bind_of_some h2, bind_of_some h3, append_be32]
  rfl

theorem tagEnd_aligned (n : Nat) : tagEnd n % 4 = 0 := Nat.mul_mod_left ..

theorem tagEnd_of_aligned (hp : p % 4 = 0) : tagEnd p = p := by
  rw [tagEnd]
  omega

theorem inStruct_append {bs cs : List Byte} :
    InStruct fdt h p (bs ++ cs) ↔ InStruct fdt h p bs ∧ InStruct fdt h (p + bs.length) cs := by
  rw [InStruct, InStruct, InStruct, List.length_append, holds_append, Nat.add_assoc]
  constructor
  · rintro ⟨hle, hbs, hcs⟩
    exact ⟨⟨by omega, hbs⟩, by omega, hcs⟩
  · rintro ⟨⟨-, hbs⟩, hle, hcs⟩
    exact ⟨by omega, hbs, hcs⟩

/-! ## Offsets are multiples of 4 -/

theorem NopsAt.aligned (hn : NopsAt fdt h p q) (hp : p % 4 = 0) : q % 4 = 0 := by
  induction hn with
  | nil => exact hp
  | cons nop _ ih => exact ih (by rw [nop.2]; omega)

theorem PropAt.end_lt {x : FdtProperty} (hx : PropAt fdt h x p q) :
    q < h.structSize + 4 ∧ q % 4 = 0 ∧ p + 12 ≤ h.structSize := by
  obtain ⟨len, nameoff, -, -, hin, -, rfl⟩ := hx
  have hle := hin.1
  simp only [List.length_append, length_be32] at hle
  refine ⟨?_, tagEnd_aligned _, by omega⟩
  rw [tagEnd]
  omega

theorem BeginAt.end_lt (hb : BeginAt fdt h p q) : q < h.structSize + 4 ∧ q % 4 = 0 ∧ p + 5 ≤ h.structSize := by
  obtain ⟨name, -, hin, rfl⟩ := hb
  have hle := hin.1
  simp only [List.length_append, length_be32, List.length_singleton] at hle
  refine ⟨?_, tagEnd_aligned _, by omega⟩
  rw [tagEnd]
  omega

theorem PropsAt.aligned {xs : List FdtProperty} (hxs : PropsAt fdt h xs p q) (hp : p % 4 = 0) : q % 4 = 0 := by
  induction xs generalizing p with
  | nil => exact hxs ▸ hp
  | cons x xs ih =>
    obtain ⟨p1, p2, -, hx, hxs⟩ := hxs
    exact ih hxs hx.end_lt.2.1

theorem NodeAt.aligned {n : FdtNode} (hn : NodeAt fdt h n p q) : q % 4 = 0 := by
  induction n using FdtNode.ind generalizing p q with
  | node properties children ih =>
    obtain ⟨p1, p2, p3, p4, hb, hprops, hchildren, hnops, hend⟩ := hn
    have h2 := hprops.aligned hb.end_lt.2.1
    have h3 : p3 % 4 = 0 := by
      clear hprops
      induction children generalizing p2 with
      | nil => exact hchildren ▸ h2
      | cons n ns ihs =>
        obtain ⟨p5, p6, -, hn, hns⟩ := hchildren
        exact ihs (fun n hn => ih n (List.mem_cons_of_mem _ hn)) p6 hns (ih n List.mem_cons_self hn)
    have h4 := hnops.aligned h3
    rw [hend.2]
    omega

theorem ChildrenAt.aligned {ns : List FdtNode} (hns : ChildrenAt fdt h ns p q) (hp : p % 4 = 0) : q % 4 = 0 := by
  induction ns generalizing p with
  | nil => exact hns ▸ hp
  | cons n ns ih =>
    obtain ⟨p1, p2, -, hn, hns⟩ := hns
    exact ih hns hn.aligned

section

variable (ha : fdt.Accepted h) (hc : fdt.Covers (readable h))

include ha

/-! ## Tags -/

theorem fdtOffsetPtr_in (len : BitVec 32) (hle : p + len.toNat ≤ h.structSize) :
    fdt.fdtOffsetPtr p len = some (some (h.offDtStruct.toNat + p)) := by
  have hsize := ha.structSize_le
  rw [fdtOffsetPtr_eq ha (by omega), Int.toNat_natCast, if_pos ⟨by omega, hle⟩]

/-- A tag and what belongs to it. -/
theorem fdtNextTag_of (htag : InStruct fdt h p (be32 tag)) (hskip : fdt.skipTag tag (p + 4) = some (some (q : Int)))
    (hge : p ≤ q) (hle : q ≤ h.structSize) : fdt.fdtNextTag p = some (tag, (tagEnd q : Int)) := by
  have hsize := ha.structSize_le
  have hlen : (BitVec.ofInt 32 ((q : Int) - p)).toNat = q - p := by
    rw [BitVec.toNat_ofInt]
    omega
  have hptr := fdtOffsetPtr_in ha (BitVec.ofInt 32 ((q : Int) - p)) (show p + _ ≤ _ by omega)
  have halign : fdtTagalign q = (tagEnd q : Int) := by
    rw [fdtTagalign, tagEnd, FDT_TAGSIZE]
    omega
  rw [fdtNextTag, bind_of_some (fdtOffsetPtr_in ha 4 htag.1)]
  dsimp only
  rw [bind_of_some (fdt32_of_holds htag.2), bind_of_some (show fdt.skipTag tag (p + FDT_TAGSIZE) = _ from hskip)]
  dsimp only
  rw [bind_of_some hptr, halign]
  rfl

/-- A tag of its own. -/
theorem fdtNextTag_word (ht : tag = FDT_END ∨ tag = FDT_END_NODE ∨ tag = FDT_NOP) (hp : p % 4 = 0)
    (hw : WordAt fdt h tag p q) : fdt.fdtNextTag p = some (tag, (q : Int)) := by
  obtain ⟨hw, rfl⟩ := hw
  have hskip : fdt.skipTag tag (p + 4) = some (some ((p + 4 : Nat) : Int)) := by
    rw [skipTag, if_neg (by rcases ht with rfl | rfl | rfl <;> decide),
      if_neg (by rcases ht with rfl | rfl | rfl <;> decide), if_pos ht]
    rfl
  rw [fdtNextTag_of ha hw hskip (by omega) hw.1, tagEnd_of_aligned (by omega)]

theorem skipProperty_eq {len : BitVec 32} (hv : 16 ≤ h.version.toNat) (hlen : InStruct fdt h p (be32 len))
    (hle : p + 8 + len.toNat ≤ h.structSize) : fdt.skipProperty p = some (some ((p + 8 + len.toNat : Nat) : Int)) := by
  have hsize := ha.structSize_le
  have hp : (BitVec.ofInt 32 (p : Int)).toNat = p := by
    rw [BitVec.toNat_ofInt]
    omega
  have hsum : (len + BitVec.ofInt 32 (p : Int)).toNat = len.toNat + p := by
    rw [BitVec.toNat_add, hp]
    omega
  have hno : ¬ (INT_MAX ≤ len + BitVec.ofInt 32 (p : Int) ∨
      len + BitVec.ofInt 32 (p : Int) < BitVec.ofInt 32 (p : Int)) := by
    simp only [BitVec.le_def, BitVec.lt_def, hsum, hp, INT_MAX, BitVec.reduceToNat]
    omega
  have hoffset : (p : Int) + (12 - FDT_TAGSIZE + len.toNat) = ((p + 8 + len.toNat : Nat) : Int) := by
    rw [FDT_TAGSIZE]
    omega
  rw [skipProperty, bind_of_some (fdtOffsetPtr_in ha 4 hlen.1)]
  dsimp only
  rw [bind_of_some (fdt32_of_holds hlen.2), if_neg hno, hoffset, bind_of_some ha.version,
    toInt_ofInt_eq (by omega) (by omega),
    if_pos (show ((p + 8 + len.toNat : Nat) : Int) < 2 ^ 31 by omega),
    if_neg fun hold => absurd (show h.version.toNat < 16 from hold.1) (Nat.not_lt.mpr hv)]
  rfl

theorem fdtNextTag_prop {x : FdtProperty} (hv : 16 ≤ h.version.toNat) (hx : PropAt fdt h x p q) :
    fdt.fdtNextTag p = some (FDT_PROP, (q : Int)) := by
  obtain ⟨len, nameoff, hlen, -, hin, -, rfl⟩ := hx
  have hle := hin.1
  simp only [inStruct_append, List.length_append, length_be32] at hin hle
  rw [← hlen] at hle ⊢
  refine fdtNextTag_of ha hin.1.1.1 ?_ (by omega) (by omega)
  rw [skipTag, if_neg (by decide), if_pos rfl]
  exact skipProperty_eq ha hv (p := p + 4) hin.1.1.2 (by omega)

include hc

theorem skipName_eq (h0 : 0 ∉ name) (hin : InStruct fdt h p (name ++ [0])) :
    fdt.skipName p = some (some ((p + name.length + 1 : Nat) : Int)) := by
  have hends : Ends fdt.skipNameBody (p : Int) (some ((p + name.length + 1 : Nat) : Int)) := by
    induction name generalizing p with
    | nil =>
      obtain ⟨hle, hb⟩ := hin
      refine .leave ?_
      rw [skipNameBody, bind_of_some (fdtOffsetPtr_in ha 1 hle)]
      dsimp only
      rw [bind_of_some (holds_cons.mp hb).1, if_neg (by simp)]
      rfl
    | cons b name ih =>
      rw [List.mem_cons, not_or] at h0
      obtain ⟨hle, hb⟩ := hin
      rw [List.cons_append, List.length_cons, List.length_append] at hle
      obtain ⟨hb, hrest⟩ := holds_cons.mp hb
      have hnext := ih h0.2 (p := p + 1) ⟨by rw [List.length_append]; omega, hrest⟩
      refine .again ?_ (show Ends _ ((p + 1 : Nat) : Int) _ from ?_)
      · rw [skipNameBody, bind_of_some (fdtOffsetPtr_in ha 1 (show p + 1 ≤ _ by omega))]
        dsimp only
        rw [bind_of_some hb, if_pos (Ne.symm h0.1)]
        rfl
      · rwa [show p + (b :: name).length + 1 = p + 1 + name.length + 1 by rw [List.length_cons]; omega]
  have hle := hin.1
  rw [List.length_append] at hle
  obtain ⟨r, hr, -⟩ := skipName_total ha hc (show (p : Int) ≤ h.structSize by omega)
  rw [hr, hends.eq hr]

theorem fdtNextTag_begin (hb : BeginAt fdt h p q) : fdt.fdtNextTag p = some (FDT_BEGIN_NODE, (q : Int)) := by
  obtain ⟨name, h0, hin, rfl⟩ := hb
  have hle := hin.1
  rw [List.append_assoc, inStruct_append] at hin
  simp only [List.length_append, length_be32, List.length_singleton] at hle
  refine fdtNextTag_of ha hin.1 ?_ (by omega) (by omega)
  rw [skipTag, if_pos rfl]
  exact skipName_eq ha hc h0 hin.2

omit ha hc in
theorem fdtCheckTagOffset_of (hnext : fdt.fdtNextTag p = some (tag, (q : Int))) (hp : p % 4 = 0) :
    fdt.fdtCheckTagOffset tag p = some (q : Int) := by
  rw [fdtCheckTagOffset, if_neg (by rw [FDT_TAGSIZE]; omega), bind_of_some hnext]
  exact if_neg (not_not.mpr rfl)

/-! ## Properties -/

omit hc in
theorem nextprop_nops {e : Int} (hn : NopsAt fdt h p q) (hp : p % 4 = 0) (hq : Ends fdt.nextpropBody q e) :
    Ends fdt.nextpropBody p e := by
  induction hn with
  | nil => exact hq
  | cons nop nops ih =>
    refine .again ?_ (ih (by rw [nop.2]; omega) hq)
    rw [nextpropBody, bind_of_some (fdtNextTag_word ha (.inr (.inr rfl)) hp nop)]
    rfl

theorem nextprop_eq {e : Int} (hlt : p < h.structSize + 4) (he : Ends fdt.nextpropBody p e) :
    fdt.nextprop p = some e := by
  obtain ⟨r, hr, -⟩ := nextprop_total ha hc (show (p : Int) < h.structSize + 4 by omega)
  rw [hr, he.eq hr]

/-- The properties `xs` are found from `offset` on. -/
def Lists (fdt : FdtBlob) (h : FdtHeader) : Int → List FdtProperty → Prop
  | offset, [] => offset = -FDT_ERR_NOTFOUND
  | offset, x :: xs => ∃ p q : Nat, offset = p ∧ p % 4 = 0 ∧ PropAt fdt h x p q ∧
      ∃ next, fdt.fdtNextPropertyOffset p = some next ∧ Lists fdt h next xs

theorem lists_of_props (hv : 16 ≤ h.version.toNat) {xs : List FdtProperty} (hxs : PropsAt fdt h xs p q) (hp : p % 4 = 0)
    (hend : Ends fdt.nextpropBody q (-FDT_ERR_NOTFOUND)) : ∃ r, Ends fdt.nextpropBody p r ∧ Lists fdt h r xs := by
  induction xs generalizing p with
  | nil =>
    cases hxs
    exact ⟨_, hend, rfl⟩
  | cons x xs ih =>
    obtain ⟨p1, p2, hnops, hx, hxs⟩ := hxs
    have hp1 := hnops.aligned hp
    obtain ⟨hlt, hp2, -⟩ := hx.end_lt
    obtain ⟨r, hr, hlist⟩ := ih hxs hp2
    have hnext := fdtNextTag_prop ha hv hx
    refine ⟨p1, nextprop_nops ha hnops hp (.leave ?_), p1, p2, rfl, hp1, hx, r, ?_, hlist⟩
    · rw [nextpropBody, bind_of_some hnext]
      rfl
    · rw [fdtNextPropertyOffset, bind_of_some (show fdt.fdtCheckPropOffset p1 = _ from fdtCheckTagOffset_of hnext hp1),
        if_neg (by omega)]
      exact nextprop_eq ha hc hlt hr

/-! ## Names -/

omit ha hc in
theorem memchrLoop_eq {load : Nat → Option Byte} {s : List Byte} {n i : Nat} (h0 : 0 ∉ s) (hs : Holds load i (s ++ [0]))
    (hn : s.length < n) : memchrLoop load 0 n i = some (some (i + s.length)) := by
  induction s generalizing n i with
  | nil =>
    cases n with
    | zero => cases hn
    | succ n =>
      rw [memchrLoop, bind_of_some (holds_cons.mp hs).1]
      rfl
  | cons b s ih =>
    rw [List.mem_cons, not_or] at h0
    cases n with
    | zero => cases hn
    | succ n =>
      obtain ⟨hb, hs⟩ := holds_cons.mp hs
      rw [memchrLoop, bind_of_some hb, if_neg (show ¬ b = BitVec.setWidth 8 0 by simpa using Ne.symm h0.1),
        ih h0.2 hs (Nat.lt_of_succ_lt_succ hn), List.length_cons, Nat.add_right_comm, Nat.add_assoc]

omit ha hc in
/-- `memcmp` finds no difference between equal bytes only. -/
theorem memcmpLoop_eq {x y : Nat → Option Byte} {s t : List Byte} {i : Nat} (hlen : s.length = t.length)
    (hs : Holds x i s) (ht : Holds y i t) : ∃ c, memcmpLoop x y s.length i = some c ∧ (c = 0 ↔ s = t) := by
  induction s generalizing t i with
  | nil => exact ⟨0, rfl, by simp [List.length_eq_zero_iff.mp hlen.symm]⟩
  | cons a s ih =>
    cases t with
    | nil => cases hlen
    | cons b t =>
      obtain ⟨ha, hs⟩ := holds_cons.mp hs
      obtain ⟨hb, ht⟩ := holds_cons.mp ht
      rw [List.length_cons, memcmpLoop, bind_of_some ha, bind_of_some hb]
      by_cases hab : a = b
      · obtain ⟨c, hc, hiff⟩ := ih (Nat.succ.inj hlen) hs ht
        refine ⟨c, (if_neg (not_not.mpr hab)).trans hc, ?_⟩
        rw [hiff, hab, List.cons_inj_right]
      · have hne : a.toNat ≠ b.toNat := fun heq => hab (BitVec.eq_of_toNat_eq heq)
        refine ⟨_, if_pos hab, ⟨fun h0 => absurd h0 (by omega), fun heq => absurd (List.cons.inj heq).1 hab⟩⟩

omit ha hc in
theorem nul_not_mem_literal {s : String} (hs : Plain s) : 0 ∉ literal s := by
  rw [literal, List.mem_map]
  rintro ⟨c, hc, h0⟩
  have h0 : c.toNat % 2 ^ 8 = 0 := congrArg BitVec.toNat h0
  have := hs c hc
  omega

omit ha hc in
/-- Names are their bytes. -/
theorem literal_inj {s t : String} (hs : Plain s) (ht : Plain t) : literal s = literal t ↔ s = t := by
  refine ⟨fun heq => String.toList_inj.mp ?_, fun heq => congrArg literal heq⟩
  unfold Plain at hs ht
  rw [literal, literal] at heq
  generalize s.toList = cs at hs heq
  generalize t.toList = ds at ht heq
  induction cs generalizing ds with
  | nil => exact (List.map_eq_nil_iff.mp heq.symm).symm
  | cons c cs ih =>
    cases ds with
    | nil => cases heq
    | cons d ds =>
      obtain ⟨hcd, heq⟩ := List.cons.inj heq
      rw [List.forall_mem_cons] at hs ht
      have := congrArg BitVec.toNat hcd
      rw [BitVec.toNat_ofNat, BitVec.toNat_ofNat] at this
      have hcd : c = d := Char.toNat_inj.mp (by omega)
      rw [hcd, ih hs.2 ds ht.2 heq]

variable (htotal : h.totalsize.toNat < 2 ^ 31 - 1) {nameoff : BitVec 32} {s : String}

include htotal

omit hc in
theorem fdtGetString_eq (hname : NameAt fdt h nameoff s) : fdt.fdtGetString nameoff.toInt =
    some (some (h.offDtStrings.toNat + nameoff.toNat), ((literal s).length : Int)) := by
  obtain ⟨hplain, hle, hbytes⟩ := hname
  have hend := ha.strings_le
  have hint : nameoff.toInt = nameoff.toNat := BitVec.toInt_eq_toNat_of_lt (by omega)
  have habs : (nameoff + h.offDtStrings).toNat = h.offDtStrings.toNat + nameoff.toNat := by
    rw [BitVec.toNat_add]
    omega
  have hsize : (BitVec.ofInt 32 (h.totalsize.toNat : Int)) = h.totalsize := by
    rw [BitVec.ofInt_natCast, BitVec.ofNat_toNat, BitVec.setWidth_eq]
  have hlimit : ∃ n, fdt.stringLimit nameoff.toInt (h.totalsize - (nameoff + h.offDtStrings)) = some (.ok n) ∧
      (literal s).length < n.toNat := by
    have hlen : (h.totalsize - (nameoff + h.offDtStrings)).toNat =
        h.totalsize.toNat - (h.offDtStrings.toNat + nameoff.toNat) := by
      rw [BitVec.toNat_sub, habs]
      omega
    have hsub : (h.sizeDtStrings - nameoff).toNat = h.sizeDtStrings.toNat - nameoff.toNat := by
      rw [BitVec.toNat_sub]
      omega
    rw [stringLimit, bind_of_some ha.magic, if_pos rfl, if_neg (by omega), bind_of_some ha.version, BitVec.ofInt_toInt]
    by_cases hv : h.version ≥ 17
    swap
    · exact ⟨_, if_neg hv, by omega⟩
    rw [if_pos hv, bind_of_some ha.sizeDtStrings,
      if_neg (show ¬ nameoff ≥ h.sizeDtStrings by rw [ge_iff_le, BitVec.le_def]; omega), bind_of_some ha.sizeDtStrings]
    by_cases hlt : h.sizeDtStrings - nameoff < h.totalsize - (nameoff + h.offDtStrings)
    · rw [if_pos hlt, bind_of_some ha.sizeDtStrings]
      exact ⟨_, rfl, by omega⟩
    · exact ⟨_, if_neg hlt, by omega⟩
  obtain ⟨n, hlimit, hn⟩ := hlimit
  rw [fdtGetString, bind_of_some (fdtRoProbe_eq ha), if_pos htotal, if_neg (by omega), bind_of_some ha.offDtStrings,
    BitVec.ofInt_toInt, hsize]
  dsimp only
  rw [if_neg (show ¬ nameoff + h.offDtStrings ≥ h.totalsize by rw [ge_iff_le, BitVec.le_def, habs]; omega),
    bind_of_some hlimit]
  dsimp only
  rw [habs, memchr, bind_of_some (memchrLoop_eq (s := literal s) (nul_not_mem_literal hplain) ?_ hn)]
  · rw [Nat.zero_add]
    rfl
  · intro i hi
    rw [Nat.zero_add]
    exact hbytes i hi

omit hc in
/-- A string is compared with all its bytes. -/
theorem fdtStringEq_eq {t : String} (hname : NameAt fdt h nameoff s) (ht : Plain t) :
    fdt.fdtStringEq nameoff.toInt (literal t ++ [0]) (literal t).length = some (s == t) := by
  rw [fdtStringEq, bind_of_some (fdtGetString_eq ha htotal hname)]
  dsimp only
  by_cases hlen : ((literal s).length : Int) = (literal t).length
  swap
  · have hne : s ≠ t := fun heq => hlen (by rw [heq])
    rw [if_neg hlen, beq_false_of_ne hne]
    rfl
  have hlen' : (literal s).length = (literal t).length := Int.ofNat.inj hlen
  obtain ⟨c, hc, hiff⟩ := memcmpLoop_eq (i := 0) (y := fun i => (literal t ++ [0])[i]?) hlen'
    (x := fun i => fdt.load (h.offDtStrings.toNat + nameoff.toNat + i))
    (fun i hi => by
      rw [Nat.zero_add]
      exact (holds_append.mp hname.2.2).1 i hi)
    fun i hi => by
      rw [Nat.zero_add]
      exact (List.getElem?_append_left hi).trans (List.getElem?_eq_getElem hi)
  rw [if_pos hlen, ← hlen', memcmp, bind_of_some hc]
  rw [literal_inj hname.1 ht] at hiff
  by_cases hst : s = t
  · rw [hiff.mpr hst, hst, BEq.rfl]
    rfl
  · rw [beq_false_of_ne hst, decide_eq_false (mt hiff.mp hst)]
    rfl

/-! ## Values -/

variable (hv : 16 ≤ h.version.toNat) {xs : List FdtProperty} {x : FdtProperty} {t : String}

include hv

omit hc htotal in
theorem fdtGetPropertyByOffset_eq (hx : PropAt fdt h x p q) (hp : p % 4 = 0) :
    fdt.fdtGetPropertyByOffset p = some (some (h.offDtStruct.toNat + p), (x.value.length : Int)) := by
  have hsize := ha.structSize_le
  have hcheck := fdtCheckTagOffset_of (fdtNextTag_prop ha hv hx) hp
  obtain ⟨len, nameoff, hlen, -, hin, -, -⟩ := hx
  have hle := hin.1
  simp only [inStruct_append, List.length_append, length_be32] at hin hle
  rw [fdtGetPropertyByOffset, bind_of_some (show fdt.fdtCheckPropOffset p = _ from hcheck), if_neg (by omega),
    bind_of_some ha.offDtStruct, Int.toNat_natCast]
  dsimp only
  rw [Nat.add_assoc, bind_of_some (fdt32_of_holds hin.1.1.2.2), BitVec.toInt_eq_toNat_of_lt (by omega), hlen]
  rfl

omit hc hv in
theorem propName_eq (hx : PropAt fdt h x p q) (ht : Plain t) :
    ∃ nameoff, fdt.fdt32ToCpu (h.offDtStruct.toNat + p + 8) = some nameoff ∧
      fdt.fdtStringEq nameoff.toInt (literal t ++ [0]) (literal t).length = some (x.name == t) := by
  obtain ⟨len, nameoff, -, hname, hin, -, -⟩ := hx
  simp only [inStruct_append, List.length_append, length_be32, Nat.reduceAdd] at hin
  refine ⟨nameoff, ?_, fdtStringEq_eq ha htotal hname ht⟩
  rw [Nat.add_assoc]
  exact fdt32_of_holds hin.1.2.2

omit hc in
/-- The properties of a node are compared in turn. -/
theorem getProperty_of_lists {r : Int} (hl : Lists fdt h r xs) (ht : Plain t) : match RvOs.fdtGetprop xs t with
    | none => Ends (fdt.getPropertyBody (literal t ++ [0]) (literal t).length) r (none, -FDT_ERR_NOTFOUND)
    | some x => ∃ p q, PropAt fdt h x p q ∧ Ends (fdt.getPropertyBody (literal t ++ [0]) (literal t).length) r
        (some (h.offDtStruct.toNat + p, (p : Int)), (x.value.length : Int)) := by
  induction xs generalizing r with
  | nil =>
    cases hl
    exact .leave rfl
  | cons x xs ih =>
    obtain ⟨p, q, rfl, hp, hx, next, hnext, hl⟩ := hl
    obtain ⟨nameoff, hoff, hcmp⟩ := propName_eq ha htotal hx ht
    have hbody : fdt.getPropertyBody (literal t ++ [0]) (literal t).length p =
        if (x.name == t) = true then some (.leave (some (h.offDtStruct.toNat + p, (p : Int)), (x.value.length : Int)))
        else some (.again next) := by
      rw [getPropertyBody, if_pos (by omega), bind_of_some (fdtGetPropertyByOffset_eq ha hv hx hp)]
      dsimp only
      rw [bind_of_some hoff, bind_of_some hcmp, bind_of_some hnext]
      rfl
    rw [RvOs.fdtGetprop, List.find?_cons]
    cases hname : x.name == t with
    | true =>
      rw [hname, if_pos rfl] at hbody
      exact ⟨p, q, hx, .leave hbody⟩
    | false =>
      rw [hname, if_neg Bool.false_ne_true] at hbody
      have hrest := ih hl
      dsimp only
      rw [RvOs.fdtGetprop] at hrest
      cases hfind : xs.find? fun p => p.name == t with
      | none =>
        rw [hfind] at hrest
        exact .again hbody hrest
      | some y =>
        rw [hfind] at hrest
        obtain ⟨p', q', hy, hends⟩ := hrest
        exact ⟨p', q', hy, .again hbody hends⟩

omit ha hc htotal hv in
theorem strlen_eq {s : List Byte} (h0 : 0 ∉ s) : strlen (s ++ [0]) = some s.length := by
  induction s with
  | nil => rfl
  | cons b s ih =>
    rw [List.mem_cons, not_or] at h0
    rw [List.cons_append, strlen, if_pos (Ne.symm h0.1), ih h0.2]
    rfl

omit hc htotal hv in
theorem valueAt_of_prop (hx : PropAt fdt h x p q) : ValueAt fdt h (h.offDtStruct.toNat + p + 12) x := by
  have hle := ha.struct_le
  obtain ⟨len, nameoff, -, -, hin, hafter, -⟩ := hx
  have hend := hin.1
  simp only [List.length_append, length_be32] at hend
  refine ⟨by omega, fun i b hb => ?_⟩
  rw [FdtProperty.byte]
  by_cases hi : i < x.value.length
  · rw [dif_pos hi]
    have hvalue := (inStruct_append.mp hin).2.2 i hi
    simp only [List.length_append, length_be32, ← Nat.add_assoc] at hvalue
    rw [hvalue] at hb
    exact Option.some.inj hb
  · rw [dif_neg hi]
    refine hafter (i - x.value.length) b ?_
    rw [Nat.add_assoc _ x.value.length, Nat.add_sub_cancel' (Nat.not_lt.mp hi)]
    exact hb

/-- `fdt_getprop` on a node finds its properties. -/
theorem looksUp_of_node {p1 p2 : Nat} (hb : BeginAt fdt h p p1) (hp : p % 4 = 0) (hxs : PropsAt fdt h xs p1 p2)
    (hend : Ends fdt.nextpropBody p2 (-FDT_ERR_NOTFOUND)) : LooksUp fdt h p xs := by
  intro t ht
  obtain ⟨hlt, hp1, hle⟩ := hb.end_lt
  have hsize := ha.structSize_le
  obtain ⟨r, hr, hlist⟩ := lists_of_props ha hc hv hxs hp1 hend
  have hfirst : fdt.fdtFirstPropertyOffset p = some r := by
    rw [fdtFirstPropertyOffset, bind_of_some (show fdt.fdtCheckNodeOffset p = _ from
      fdtCheckTagOffset_of (fdtNextTag_begin ha hc hb) hp), if_neg (by omega)]
    exact nextprop_eq ha hc hlt hr
  have hstrlen := strlen_eq (nul_not_mem_literal ht)
  obtain ⟨q, len, hq, -⟩ := fdtGetPropertyNamelen_total ha hc
    (show (literal t).length ≤ (literal t ++ [0]).length by simp)
    (show (p : Int) < 2 ^ 31 by omega)
  have hloop : loop (fdt.getPropertyBody (literal t ++ [0]) (literal t).length) intLimit r = some (q, len) := by
    rw [fdtGetPropertyNamelen, bind_of_some hfirst] at hq
    exact hq
  have hget : fdt.fdtGetprop p t = fdt.fdtGetpropNamelen p (literal t ++ [0]) (literal t).length := by
    rw [FdtBlob.fdtGetprop]
    exact bind_of_some hstrlen _
  have hprops := getProperty_of_lists ha htotal hv hlist ht
  cases hfind : RvOs.fdtGetprop xs t with
  | none =>
    rw [hfind] at hprops
    cases hprops.eq hloop
    rw [hget, fdtGetpropNamelen, bind_of_some hq]
    rfl
  | some x =>
    rw [hfind] at hprops
    obtain ⟨p', q', hx, hends⟩ := hprops
    cases hends.eq hloop
    refine ⟨h.offDtStruct.toNat + p' + 12, ?_, valueAt_of_prop ha hx⟩
    obtain ⟨len, nameoff, -, -, hin, -, -⟩ := hx
    simp only [inStruct_append, length_be32] at hin
    rw [hget, fdtGetpropNamelen, bind_of_some hq]
    dsimp only
    rw [bind_of_some ha.version, Nat.add_assoc, bind_of_some (fdt32_of_holds hin.1.1.2.2),
      if_neg fun hold => absurd (show h.version.toNat < 16 from hold.1) (Nat.not_lt.mpr hv)]
    rfl

/-! ## Nodes -/

omit hc htotal hv in
theorem nextNode_nops {r : Int} (hn : NopsAt fdt h p q) (hp : p % 4 = 0)
    (hq : Ends fdt.nextNodeBody (q, none) (r, none)) :
    Ends fdt.nextNodeBody (p, none) (r, none) := by
  induction hn with
  | nil => exact hq
  | cons nop nops ih =>
    refine .again ?_ (ih (by rw [nop.2]; omega) hq)
    rw [nextNodeBody, bind_of_some (fdtNextTag_word ha (.inr (.inr rfl)) hp nop)]
    rfl

omit hc htotal in
theorem nextNode_props {r : Int} (hxs : PropsAt fdt h xs p q) (hp : p % 4 = 0)
    (hq : Ends fdt.nextNodeBody (q, none) (r, none)) : Ends fdt.nextNodeBody (p, none) (r, none) := by
  induction xs generalizing p with
  | nil =>
    cases hxs
    exact hq
  | cons x xs ih =>
    obtain ⟨p1, p2, hnops, hx, hxs⟩ := hxs
    refine nextNode_nops ha hnops hp (.again ?_ (ih hxs hx.end_lt.2.1))
    rw [nextNodeBody, bind_of_some (fdtNextTag_prop ha hv hx)]
    rfl

omit htotal hv in
/-- The properties of a node end where its children or its closing tag are. -/
theorem nextprop_end {ns : List FdtNode} {p1 p2 : Nat} (hns : ChildrenAt fdt h ns p p1) (hp : p % 4 = 0)
    (hnops : NopsAt fdt h p1 p2) (hend : WordAt fdt h FDT_END_NODE p2 q) :
    Ends fdt.nextpropBody p (-FDT_ERR_NOTFOUND) := by
  cases ns with
  | nil =>
    cases hns
    refine nextprop_nops ha hnops hp (.leave ?_)
    rw [nextpropBody, bind_of_some (fdtNextTag_word ha (.inr (.inl rfl)) (hnops.aligned hp) hend)]
    rfl
  | cons n ns =>
    obtain ⟨p3, p4, hnops', hn, -⟩ := hns
    obtain ⟨properties, children⟩ := n
    obtain ⟨_, _, _, _, hb, -⟩ := hn
    refine nextprop_nops ha hnops' hp (.leave ?_)
    rw [nextpropBody, bind_of_some (fdtNextTag_begin ha hc hb)]
    rfl

/-- From `p` on, `fdt_next_node` goes through `nodes`. -/
def VisitsFrom (fdt : FdtBlob) (h : FdtHeader) (p : Nat) (nodes : List FdtEntry) : Prop :=
  ∃ r, Ends fdt.nextNodeBody (p, none) (r, none) ∧ Visits fdt h r nodes

/-- The nodes of a tree come before those that follow it, -/
theorem visits_node {n : FdtNode} (parent : List FdtProperty) {nodes : List FdtEntry} (hn : NodeAt fdt h n p q)
    (hp : p % 4 = 0) (hq : VisitsFrom fdt h q nodes) : VisitsFrom fdt h p (n.entries parent ++ nodes) := by
  induction n using FdtNode.ind generalizing parent p q nodes with
  | node properties children ih =>
    obtain ⟨p1, p2, p3, p4, hb, hprops, hchildren, hnops, hend⟩ := hn
    obtain ⟨-, h1, hle⟩ := hb.end_lt
    have h2 := hprops.aligned h1
    have h3 := hchildren.aligned h2
    have htag := fdtNextTag_begin ha hc hb
    have hlooks := looksUp_of_node ha hc htotal hv hb hp hprops (nextprop_end ha hc hchildren h2 hnops hend)
    have hrest : VisitsFrom fdt h p3 nodes := by
      obtain ⟨r, hr, hvisits⟩ := hq
      refine ⟨r, nextNode_nops ha hnops h3 (.again ?_ hr), hvisits⟩
      rw [nextNodeBody, bind_of_some (fdtNextTag_word ha (.inr (.inl rfl)) (hnops.aligned h3) hend)]
      rfl
    have hchildren : VisitsFrom fdt h p2 (FdtNode.entriesOf properties children ++ nodes) := by
      clear hprops hlooks
      induction children generalizing p2 with
      | nil => exact hchildren ▸ hrest
      | cons n ns ihs =>
        obtain ⟨p5, p6, hnops', hn, hns⟩ := hchildren
        obtain ⟨r, hr, hvisits⟩ := ih n List.mem_cons_self properties hn (hnops'.aligned h2)
          (ihs (fun n hn => ih n (List.mem_cons_of_mem _ hn)) p6 hns hn.aligned)
        rw [FdtNode.entriesOf, List.append_assoc]
        exact ⟨r, nextNode_nops ha hnops' h2 hr, hvisits⟩
    obtain ⟨r, hr, hvisits⟩ := hchildren
    have hsize := ha.structSize_le
    obtain ⟨r', d, hnext, -⟩ := fdtNextNode_total ha hc none (show (p : Int) < 2 ^ 31 by omega)
    have hloop : fdt.fdtNextNode p none = loop fdt.nextNodeBody intLimit ((p1 : Int), none) := by
      rw [fdtNextNode, if_pos (by omega),
        bind_of_some (show fdt.fdtCheckNodeOffset p = _ from fdtCheckTagOffset_of htag hp)]
      exact if_neg (by omega)
    have hfirst : Ends fdt.nextNodeBody (p, none) (p, none) := by
      refine .leave ?_
      rw [nextNodeBody, bind_of_some htag]
      rfl
    refine ⟨p, hfirst, p, rfl, hlooks, r, ?_, hvisits⟩
    rw [hloop] at hnext ⊢
    rw [hnext, (nextNode_props ha hv hprops h1 hr).eq hnext]

end

/-- `fdt_next_node` goes through the nodes of the tree in document order, and `fdt_getprop` finds
the properties of each. The root is at offset 0. -/
theorem visits_tree {root : FdtNode} (ht : HasTree fdt h root) :
    LooksUp fdt h 0 root.properties ∧ ∃ first, fdt.fdtNextNode (-1) none = some (first, none) ∧
        Visits fdt h first (root.entries []) := by
  obtain ⟨p, q, r, hroot, hnops, hend⟩ := ht.tree
  have ha := ht.accepted
  have hc : fdt.Covers (readable h) := fun i hi => ht.covers i (Nat.lt_add_right 6 hi)
  have hlast : VisitsFrom fdt h p [] := by
    refine ⟨-FDT_ERR_NOTFOUND, nextNode_nops ha hnops hroot.aligned (.leave ?_), rfl⟩
    rw [nextNodeBody, bind_of_some (fdtNextTag_word ha (.inl rfl) (hnops.aligned hroot.aligned) hend)]
    dsimp only
    rw [if_neg (by decide), if_neg (by decide), if_pos rfl]
    exact if_pos (Or.inl (Int.natCast_nonneg r))
  obtain ⟨first, hfirst, hvisits⟩ := visits_node ha hc ht.totalsize_lt ht.version_ge [] hroot rfl hlast
  rw [List.append_nil] at hvisits
  obtain ⟨first', d, hnext, -⟩ := fdtNextNode_total ha hc none (show (-1 : Int) < 2 ^ 31 by decide)
  have hloop : fdt.fdtNextNode (-1) none = loop fdt.nextNodeBody intLimit (0, none) := rfl
  rw [hloop] at hnext
  refine ⟨?_, first, by rw [hloop, hnext, hfirst.eq hnext], hvisits⟩
  obtain ⟨properties, children⟩ := root
  obtain ⟨p1, -, -, -, hb, -⟩ := hroot
  have hzero : Ends fdt.nextNodeBody (0, none) (0, none) := by
    refine .leave ?_
    rw [nextNodeBody,
      bind_of_some (show fdt.fdtNextTag 0 = some (FDT_BEGIN_NODE, (p1 : Int)) from fdtNextTag_begin ha hc hb)]
    rfl
  have heq := (hfirst.eq hnext).trans (hzero.eq hnext).symm
  obtain ⟨p', hp', hlooks, -⟩ := hvisits
  have hp' : p' = 0 := by
    have := congrArg Prod.fst heq
    dsimp only at this
    omega
  exact hp' ▸ hlooks

end RvOs
