import RvOs.Proof.DtbRefines
import RvOs.Spec.Flatten

/-!
# What is written is read

The bytes of a tree stand for it (`flatten_represents`).
-/

namespace RvOs

open FdtBlob

variable {byte : Nat → Byte} {addr : U64} {p s : Nat} {root n : DtNode} {bs name : List Byte}
  {xs : List (String × List Byte)}

/-! ## Lengths -/

@[simp] theorem length_pad (bs : List Byte) : (pad bs).length = tagEnd bs.length := by
  rw [pad, List.length_append, List.length_replicate, tagEnd]
  omega

/-- Padded bytes end at a multiple of 4. -/
theorem add_tagEnd (hp : p % 4 = 0) (n : Nat) : p + tagEnd n = tagEnd (p + n) := by
  rw [tagEnd, tagEnd]
  omega

/-- Where the strings are does not matter for the length of the tags. -/
theorem length_propertyTags (s t : Nat) (xs : List (String × List Byte)) :
    (propertyTags s xs).length = (propertyTags t xs).length := by
  induction xs generalizing s t with
  | nil => rfl
  | cons x xs ih =>
    rw [propertyTags, propertyTags, List.length_append, List.length_append, ih _ (t + (literal x.1).length + 1)]
    simp only [length_pad, List.length_append, length_be32]

theorem length_tags (hn : n.Named) (s t : Nat) : (n.tags s).length = (n.tags t).length := by
  induction hn generalizing s t with
  | node hname hproperties hchildren ih =>
    rename_i name properties children
    have hall (s t : Nat) : (DtNode.tagsOfAll s children).length = (DtNode.tagsOfAll t children).length := by
      clear hchildren
      induction children generalizing s t with
      | nil => rfl
      | cons n ns ihs =>
        simp only [DtNode.tagsOfAll, List.length_append]
        rw [ih n List.mem_cons_self s t, ihs (fun n hn => ih n (List.mem_cons_of_mem _ hn)) _ (t + n.strings.length)]
    simp only [DtNode.tags, List.length_append]
    rw [length_propertyTags s t, hall _ (t + (stringsOf properties).length)]

/-! ## The blocks -/

section

variable {h : FdtHeader}

theorem inStruct_pad (hin : InStruct (memoryBlob byte addr) h p (pad bs)) : InStruct (memoryBlob byte addr) h p bs :=
  (inStruct_append.mp hin).1

/-- A name in the strings block. -/
theorem nameAt_of {name : String} (hname : Plain name) (hle : s + (literal name).length + 1 ≤ h.sizeDtStrings.toNat)
    (hs : Holds (memoryBlob byte addr).load (h.offDtStrings.toNat + s) (literal name ++ [0])) :
    NameAt (memoryBlob byte addr) h (BitVec.ofNat 32 s) name := by
  have hlt := h.sizeDtStrings.isLt
  have heq : (BitVec.ofNat 32 s).toNat = s := by
    rw [BitVec.toNat_ofNat]
    omega
  rw [NameAt, heq]
  exact ⟨hname, hle, hs⟩

variable (hstart : h.offDtStruct.toNat = structStart) (hsize : h.structSize < 2 ^ 32)

include hstart hsize

theorem propsAt_of (hp : p % 4 = 0) (hin : InStruct (memoryBlob byte addr) h p (propertyTags s xs))
    (hs : Holds (memoryBlob byte addr).load (h.offDtStrings.toNat + s) (stringsOf xs))
    (hle : s + (stringsOf xs).length ≤ h.sizeDtStrings.toNat) (hplain : ∀ x ∈ xs, Plain x.1) :
    PropsAt (memoryBlob byte addr) h (viewProperties byte p xs) p (p + (propertyTags s xs).length) := by
  induction xs generalizing p s with
  | nil => rfl
  | cons x xs ih =>
    obtain ⟨name, value⟩ := x
    rw [List.forall_mem_cons] at hplain
    rw [propertyTags, inStruct_append] at hin
    rw [show stringsOf ((name, value) :: xs) = literal name ++ [0] ++ stringsOf xs from rfl] at hs hle
    rw [holds_append] at hs
    simp only [List.length_append, List.length_singleton] at hs hle
    obtain ⟨hx, hxs⟩ := hin
    have hlen : (pad (be32 FDT_PROP ++ be32 (BitVec.ofNat 32 value.length) ++ be32 (BitVec.ofNat 32 s) ++
        value)).length =
        tagEnd (12 + value.length) := by
      simp only [length_pad, List.length_append, length_be32]
    have hq : p + tagEnd (12 + value.length) = tagEnd (p + 12 + value.length) := by rw [add_tagEnd hp, Nat.add_assoc]
    rw [hlen, hq] at hxs
    have hxle := (inStruct_pad hx).1
    simp only [List.length_append, length_be32] at hxle
    have hvalue : (BitVec.ofNat 32 value.length).toNat = value.length := by
      rw [BitVec.toNat_ofNat]
      omega
    have hname : NameAt (memoryBlob byte addr) h (BitVec.ofNat 32 s) name := nameAt_of hplain.1 (by omega) hs.1
    refine ⟨p, tagEnd (p + 12 + value.length), .nil p,
      ⟨_, _, hvalue, hname, inStruct_pad hx, fun i b hb => ?_, rfl⟩, ?_⟩
    · rw [hstart] at hb
      exact Option.some.inj hb
    · rw [propertyTags, List.length_append, hlen, ← Nat.add_assoc, hq]
      exact ih (tagEnd_aligned _) hxs (by rw [← Nat.add_assoc, ← Nat.add_assoc]; exact hs.2) (by omega) hplain.2

theorem nodeAt_of (hn : n.Named) (hp : p % 4 = 0) (hin : InStruct (memoryBlob byte addr) h p (n.tags s))
    (hs : Holds (memoryBlob byte addr).load (h.offDtStrings.toNat + s) n.strings)
    (hle : s + n.strings.length ≤ h.sizeDtStrings.toNat) :
    NodeAt (memoryBlob byte addr) h (n.view byte p) p (p + (n.tags s).length) := by
  induction hn generalizing p s with
  | node hname hproperties hchildren ih =>
    rename_i name properties children
    rw [DtNode.strings, holds_append] at hs
    rw [DtNode.strings, List.length_append] at hle
    rw [DtNode.tags, inStruct_append, inStruct_append, inStruct_append] at hin
    obtain ⟨⟨⟨hbegin, hprops⟩, hall⟩, hend⟩ := hin
    have hb : (beginTag name).length = tagEnd (4 + name.length + 1) := by
      rw [beginTag, length_pad]
      simp only [List.length_append, length_be32, List.length_singleton]
    have hq : p + (beginTag name).length = tagEnd (p + 4 + name.length + 1) := by
      rw [hb, add_tagEnd hp, ← Nat.add_assoc, ← Nat.add_assoc]
    have hq4 : (p + (beginTag name).length) % 4 = 0 := hq ▸ tagEnd_aligned _
    have hprops' := propsAt_of hstart hsize hq4 hprops hs.1 (by omega) hproperties
    have hchildren' : ∀ {q t : Nat}, q % 4 = 0 → InStruct (memoryBlob byte addr) h q (DtNode.tagsOfAll t children) →
        Holds (memoryBlob byte addr).load (h.offDtStrings.toNat + t) (DtNode.stringsOfAll children) →
        t + (DtNode.stringsOfAll children).length ≤ h.sizeDtStrings.toNat →
        ChildrenAt (memoryBlob byte addr) h (DtNode.viewAll byte q children) q
            (q + (DtNode.tagsOfAll t children).length) := by
      clear hs hle hall hend hprops hprops' hproperties
      induction children with
      | nil =>
        intro q t hq hin hs hle
        rfl
      | cons n ns ihs =>
        intro q t hq hin hs hle
        rw [DtNode.tagsOfAll, inStruct_append] at hin
        rw [DtNode.stringsOfAll, holds_append] at hs
        rw [DtNode.stringsOfAll, List.length_append] at hle
        have hn := ih n List.mem_cons_self hq hin.1 hs.1 (by omega)
        rw [DtNode.tagsOfAll, List.length_append, ← Nat.add_assoc, DtNode.viewAll,
          length_tags (hchildren n List.mem_cons_self) 0 t]
        rw [Nat.add_assoc] at hs
        exact ⟨q, _, .nil q, hn, ihs (fun n hn => hchildren n (List.mem_cons_of_mem _ hn))
          (fun n hn => ih n (List.mem_cons_of_mem _ hn)) hn.aligned hin.2 hs.2 (by omega)⟩
    simp only [List.length_append, ← Nat.add_assoc] at hall hend
    rw [Nat.add_assoc] at hs
    have hchildren' := hchildren' (hprops'.aligned hq4) hall hs.2 (by omega)
    rw [DtNode.view, DtNode.tags]
    simp only [List.length_append, length_be32, ← Nat.add_assoc]
    rw [length_propertyTags 0 s]
    exact ⟨_, _, _, _, ⟨name, hname, inStruct_pad hbegin, hq⟩, hprops', hchildren', .nil _, hend, rfl⟩

end

/-! ## The header -/

section

variable (hflat : Holds (memoryBlob byte addr).load 0 (flatten root)) (hsize : root.size < 2 ^ 31 - 1)
  (haddr : addr &&& 7 = 0)

include hflat

theorem flatten_parts :
    ((memoryBlob byte addr).fdtMagic = some FDT_MAGIC ∧
        (memoryBlob byte addr).fdtTotalsize = some root.header.totalsize ∧
      (memoryBlob byte addr).fdtOffDtStruct = some 56 ∧
      (memoryBlob byte addr).fdtOffDtStrings = some root.header.offDtStrings ∧
      (memoryBlob byte addr).fdtOffMemRsvmap = some 40 ∧ (memoryBlob byte addr).fdtVersion = some 17 ∧
      (memoryBlob byte addr).fdtLastCompVersion = some 16 ∧
      (memoryBlob byte addr).fdtSizeDtStrings = some root.header.sizeDtStrings ∧
      (memoryBlob byte addr).fdtSizeDtStruct = some root.header.sizeDtStruct) ∧
      Holds (memoryBlob byte addr).load structStart root.structBlock ∧
      Holds (memoryBlob byte addr).load (structStart + root.structBlock.length) root.strings := by
  simp only [flatten, holds_append, List.length_append, length_be32, List.length_replicate, Nat.reduceAdd,
    Nat.zero_add] at hflat
  obtain ⟨⟨⟨⟨⟨⟨⟨⟨⟨⟨⟨⟨h0, h1⟩, h2⟩, h3⟩, h4⟩, h5⟩, h6⟩, -⟩, h8⟩, h9⟩, -⟩, hstruct⟩, hstrings⟩ := hflat
  exact ⟨⟨fdt32_of_holds h0, fdt32_of_holds h1, fdt32_of_holds h2, fdt32_of_holds h3, fdt32_of_holds h4,
    fdt32_of_holds h5,
    fdt32_of_holds h6, fdt32_of_holds h8, fdt32_of_holds h9⟩, hstruct, hstrings⟩

include hsize

omit hflat in
theorem header_toNat : root.header.totalsize.toNat = root.size ∧ root.header.offDtStruct.toNat = structStart ∧
    root.header.offDtStrings.toNat = structStart + root.structBlock.length ∧
    root.header.sizeDtStrings.toNat = root.strings.length ∧
        root.header.sizeDtStruct.toNat = root.structBlock.length := by
  have hlt : structStart + root.structBlock.length + root.strings.length < 2 ^ 31 - 1 := hsize
  have hstart : structStart = 56 := rfl
  refine ⟨?_, rfl, ?_, ?_, ?_⟩ <;>
  · refine (BitVec.toNat_ofNat ..).trans (Nat.mod_eq_of_lt ?_)
    omega

include haddr

theorem flatten_check : (memoryBlob byte addr).fdtCheckHeader = some 0 := by
  obtain ⟨⟨hmagic, htotal, hstruct, hstrings, hrsvmap, hversion, hlast, hsizeStrings, hsizeStruct⟩, -, -⟩ :=
    flatten_parts hflat
  obtain ⟨ntotal, nstruct, nstrings, nsizeStrings, nsizeStruct⟩ := header_toNat hsize
  have hstart : structStart = 56 := rfl
  have hsum : root.size = structStart + root.structBlock.length + root.strings.length := rfl
  have hoff : checkOff (BitVec.ofNat 32 40) root.header.totalsize 40 = true :=
    checkOff_iff.mpr ⟨Nat.le_refl _, show 40 ≤ _ by omega⟩
  have hok : (memoryBlob byte addr).checkStruct (BitVec.ofNat 32 40) root.header.totalsize 17 = some true := by
    rw [checkStruct, if_neg (by decide), bind_of_some hstruct, bind_of_some hsizeStruct]
    refine congrArg some (checkBlock_iff.mpr ⟨by decide, ?_⟩)
    rw [show (56 : BitVec 32).toNat = 56 from rfl]
    omega
  have hblock : checkBlock (BitVec.ofNat 32 40) root.header.totalsize root.header.offDtStrings
      root.header.sizeDtStrings = true :=
    checkBlock_iff.mpr ⟨show 40 ≤ _ by omega, by omega⟩
  rw [fdtCheckHeader, if_neg (show ¬ (memoryBlob byte addr).addr &&& 7 ≠ 0 from not_not.mpr haddr), bind_of_some hmagic,
    if_neg (not_not.mpr rfl), bind_of_some hversion, if_neg (by decide), bind_of_some hlast, if_neg (by decide),
    bind_of_some hlast, if_neg (by decide), show fdtHeaderSize 17 = 40 from rfl]
  dsimp only
  rw [bind_of_some htotal, if_neg (by omega), if_neg (show ¬ root.header.totalsize > INT_MAX from
      Nat.not_lt.mpr (show root.header.totalsize.toNat ≤ 2 ^ 31 - 1 by omega)), bind_of_some hrsvmap,
      if_neg (by decide),
    bind_of_some hstruct, if_neg (by decide), bind_of_some hrsvmap, hoff, if_neg (by decide), bind_of_some hok,
    if_neg (by decide), bind_of_some hstrings, bind_of_some hsizeStrings, hblock]
  rfl

/-- The bytes of a tree stand for the tree, wherever they are and whatever comes after them. -/
theorem flatten_represents (hn : root.Named) : Represents (memoryBlob byte addr) (memoryTree byte addr root) := by
  obtain ⟨⟨hmagic, htotal, hstruct, hstrings, hrsvmap, hversion, hlast, hsizeStrings, hsizeStruct⟩, hblock, hnames⟩ :=
    flatten_parts hflat
  obtain ⟨ntotal, nstruct, nstrings, nsizeStrings, nsizeStruct⟩ := header_toNat hsize
  have hstart : structStart = 56 := rfl
  have hsum : root.size = structStart + root.structBlock.length + root.strings.length := rfl
  have hstructSize : root.header.structSize = root.structBlock.length := (if_pos (Nat.le_refl 17)).trans nsizeStruct
  have ha : (memoryBlob byte addr).Accepted root.header :=
    { aligned := haddr
      magic := hmagic
      totalsize := htotal
      offDtStruct := hstruct
      offDtStrings := hstrings
      version := hversion
      lastCompVersion := ⟨16, by decide, hlast⟩
      sizeDtStrings := hsizeStrings
      sizeDtStruct := fun _ => hsizeStruct
      version_ge := show 2 ≤ 17 by decide
      totalsize_lt := by omega
      struct_ge := by omega
      struct_aligned := by omega
      struct_le := by omega
      strings_le := by omega }
  have hin : InStruct (memoryBlob byte addr) root.header 0 root.structBlock :=
    ⟨by omega, by rw [nstruct]; exact hblock⟩
  rw [DtNode.structBlock, inStruct_append, Nat.zero_add] at hin
  have hroot := nodeAt_of (s := 0) nstruct (by omega) hn rfl hin.1 (by rw [nstrings]; exact hnames) (by omega)
  rw [Nat.zero_add] at hroot
  exact
    { addr := rfl
      totalsize := rfl
      check := ⟨0, flatten_check hflat hsize haddr, by simp [memoryTree]⟩
      tree := fun _ => ⟨root.header, ha, show 16 ≤ 17 by decide, by omega, fun i _ => rfl, _, _, _, hroot,
        .nil _, hin.2, rfl⟩ }

end

end RvOs
