import RvOs.Impl.DtbBlob

/-!
# What libfdt may read

A blob that `fdt_check_header` accepts is `totalsize` bytes long (`Accepted`).
The functions that read its tree are to stay in these bytes, and to return, for
any bytes.
-/

namespace RvOs

/-- The fields of the header that are used. -/
structure FdtHeader where
  totalsize : BitVec 32
  offDtStruct : BitVec 32
  offDtStrings : BitVec 32
  version : BitVec 32
  sizeDtStrings : BitVec 32
  sizeDtStruct : BitVec 32

/-- The size of the structure block. Before version 17 it goes to the end of the blob. -/
def FdtHeader.structSize (h : FdtHeader) : Nat :=
  if 17 ≤ h.version.toNat then h.sizeDtStruct.toNat else h.totalsize.toNat - h.offDtStruct.toNat

namespace FdtBlob

/-- The blob has the header `h`, with what `fdt_check_header` checks of it. -/
structure Accepted (fdt : FdtBlob) (h : FdtHeader) : Prop where
  aligned : fdt.addr &&& 7 = 0
  magic : fdt.fdtMagic = some FDT_MAGIC
  totalsize : fdt.fdtTotalsize = some h.totalsize
  offDtStruct : fdt.fdtOffDtStruct = some h.offDtStruct
  offDtStrings : fdt.fdtOffDtStrings = some h.offDtStrings
  version : fdt.fdtVersion = some h.version
  lastCompVersion : ∃ v ≤ FDT_LAST_SUPPORTED_VERSION, fdt.fdtLastCompVersion = some v
  sizeDtStrings : fdt.fdtSizeDtStrings = some h.sizeDtStrings
  sizeDtStruct : 17 ≤ h.version.toNat → fdt.fdtSizeDtStruct = some h.sizeDtStruct
  version_ge : 2 ≤ h.version.toNat
  totalsize_lt : h.totalsize.toNat < 2 ^ 31
  struct_ge : 32 ≤ h.offDtStruct.toNat
  struct_aligned : h.offDtStruct.toNat % 4 = 0
  struct_le : h.offDtStruct.toNat + h.structSize ≤ h.totalsize.toNat
  strings_le : h.offDtStrings.toNat + h.sizeDtStrings.toNat ≤ h.totalsize.toNat

/-- The bytes that may be read: those of the blob, and of the nine words that every
check of a header reads. -/
def readable (h : FdtHeader) : Nat := max 36 h.totalsize.toNat

/-- All of these bytes can be loaded. -/
def Covers (fdt : FdtBlob) (n : Nat) : Prop := ∀ i < n, (fdt.load i).isSome

/-- The blob with its first `n` bytes only. -/
def truncate (fdt : FdtBlob) (n : Nat) : FdtBlob where
  addr := fdt.addr
  load := fun i => if i < n then fdt.load i else none

end FdtBlob

end RvOs
