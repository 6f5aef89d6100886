import RvOs.Proof.PagingAgree
import RvOs.Proof.TableShape

/-!
# The software walk of tables that were mapped

Every leaf that legal calls of `paging_map` make is legal (`pagingMap_legal`),
so `paging_query` and Sv39 agree after any sequence of them
(`pagingQuery_agrees`), if the frames of the tables are below 2⁵⁶: the entry of
a table at 2⁵⁶ is reserved, and `paging_query` reads another table through it
(`highTable_not_agree`).
-/

namespace RvOs

variable {g : Addr} {s s' : KState} {va pa flags : U64}

/-- Every leaf below `g` is legal. -/
def LegalSpace (m : Mem) (g : Addr) : Prop := ∀ v e, space m g v = some e → LegalLeaf e

/-- On legal leaves the two walks agree. -/
theorem KInv.walksAgree (h : KInv g s) (hr : physToVirt g ≠ 0) (hl : LegalSpace s.mem g) : WalksAgree s.mem g :=
  fun va hc => by rw [pagingQuery_physToVirt hr, sv39Translate_eq h.tables (hl _) hc]

/-- With a null root pointer nothing is mapped, and `paging_query` finds nothing. -/
theorem KInv.walksAgree_null (h : KInv g s) (hr : physToVirt g = 0) (hs : space s.mem g = fun _ => none) :
    WalksAgree s.mem g := fun va hc => by
  have hn : ∀ v e, space s.mem g v ≠ some e := fun v e => by rw [hs]; exact nofun
  rw [hr, pagingQuery, pagingQueryVia, if_pos rfl, sv39Translate_eq h.tables (fun e he => absurd he (hn _ e)) hc,
    AddrSpace.translate, hs, Option.map_none]

theorem pagingMap_legal (h : KInv g s) (hr : physToVirt g ≠ 0) (hl : LegalSpace s.mem g) (va : U64)
    (hpa : pa.toNat < 2 ^ 56) (hf : LegalFlags flags) :
    ∃ ok s', pagingMap .direct (physToVirt g) va pa flags s = some (ok, s') ∧ KInv g s' ∧ LegalSpace s'.mem g := by
  by_cases ha : Aligned va ∧ Aligned pa
  · obtain ⟨ok, s', he, hm⟩ := pagingMapVia_ok (o := KERNEL_DIRECT_MAP_BASE) (pteIsValid_leaf hf.lt)
      (pteIsLeaf_leaf hf.lt hf.leaf) h hr ha.1 ha.2
    refine ⟨ok, s', he, hm.inv, fun v e hv => ?_⟩
    cases ok with
    | false => exact hl v e ((hm.failed rfl).1 ▸ hv)
    | true =>
      rw [(hm.mapped rfl).2.2] at hv
      by_cases hvv : v = vpnOf va
      · rw [hvv, Function.update_self] at hv
        exact Option.some.inj hv ▸ legalLeaf_pte hpa hf
      · rw [Function.update_of_ne hvv] at hv
        exact hl v e hv
  · exact ⟨false, s, pagingMapVia_unaligned ha, h, hl⟩

theorem runTableCalls_legal (hr : physToVirt g ≠ 0) (calls : List TableCall) (hc : ∀ c ∈ calls, c.LegalMap)
    (h : KInv g s) (hl : LegalSpace s.mem g) :
    ∃ s', runTableCalls (physToVirt g) calls s = some s' ∧ KInv g s' ∧ LegalSpace s'.mem g := by
  induction calls generalizing s with
  | nil => exact ⟨s, rfl, h, hl⟩
  | cons c cs ih =>
    obtain ⟨hc, hcs⟩ := List.forall_mem_cons.mp hc
    cases c with
    | mapRange | region => exact hc.elim
    | map va pa flags =>
      obtain ⟨ok, s₁, he, h₁, hl₁⟩ := pagingMap_legal h hr hl va hc.1 hc.2
      obtain ⟨s', hrun, hs'⟩ := ih hcs h₁ hl₁
      refine ⟨s', ?_, hs'⟩
      rw [runTableCalls, TableCall.run, he]
      exact hrun

theorem runTableCalls_null (calls : List TableCall) (s : KState) : runTableCalls 0 calls s = some s := by
  induction calls with
  | nil => rfl
  | cons c cs ih =>
    obtain ⟨ok, he⟩ := c.run_null s
    rw [runTableCalls, he]
    exact ih

/-- After any sequence of legal calls of `paging_map` the walks agree. -/
theorem pagingQuery_agrees {s₀ : KState} (hle : s₀.allocator.current.toNat ≤ s₀.allocator.end_.toNat)
    (hend : s₀.allocator.end_.toNat ≤ 2 ^ 56) (hc : pagingCreateRootTable s₀ = some (g, s)) (hg : g ≠ 0)
    (calls : List TableCall) (hcalls : ∀ c ∈ calls, c.LegalMap) :
    ∃ s', runTableCalls (physToVirt g) calls s = some s' ∧ WalksAgree s'.mem g := by
  obtain ⟨-, -, h, hs⟩ := pagingCreateRootTable_ok hle hend hc hg
  by_cases hr : physToVirt g = 0
  · rw [hr]
    exact ⟨s, runTableCalls_null calls s, h.walksAgree_null hr hs⟩
  · have hl : LegalSpace s.mem g := fun v e he => by
      rw [hs] at he
      cases he
    obtain ⟨s', hrun, h', hl'⟩ := runTableCalls_legal hr calls hcalls h hl
    exact ⟨s', hrun, h'.walksAgree hr hl'⟩

/-- Two mappings below a root just created. -/
theorem pagingQuery_agrees_root : ∃ s', runTableCalls (physToVirt 0x80005000)
      [.map 0x400000 0x80010000 (PTE_R ||| PTE_X), .map 0xFFFFFFC000000000 0 (PTE_R ||| PTE_W)] freshRoot = some s' ∧
    WalksAgree s'.mem 0x80005000 := by
  have hp : physicalAllocPage ⟨0x80005000, 0x80020000⟩ = (0x80005000, ⟨0x80006000, 0x80020000⟩) := by decide
  have hc := pagingCreateRootTable_eq (s := ⟨fun _ => 0, ⟨0x80005000, 0x80020000⟩⟩) hp (by decide)
  refine pagingQuery_agrees (by decide) (by decide) hc (by decide) _ fun c hm => ?_
  simp only [List.mem_cons, List.not_mem_nil, or_false] at hm
  rcases hm with rfl | rfl
  · exact ⟨by decide, legalFlags_rx⟩
  · exact ⟨by decide, legalFlags_rw⟩

/-! ## Tables at 2⁵⁶ -/

/-- The last frame below 2⁵⁶ and the one at it are free; at address 0 is a pointer
to frame 0, and at address 8 a leaf. -/
def highFrames : KState where
  mem := Mem.write64 (Mem.write64 (fun _ => 0) 0 PTE_V) 8 (PTE_V ||| PTE_R)
  allocator := ⟨0xFFFFFFFFFFF000, 0x100000000001000⟩

/-- Its root table, the other frame, and the states before and after that is linked. -/
def highRoot : Addr := 0xFFFFFFFFFFF000

def highTable : Addr := 0x100000000000000

def highStart : KState := ⟨zeroTable highFrames.mem highRoot PAGE_TABLE_ENTRIES, ⟨highTable, 0x100000000001000⟩⟩

def highEnd : KState := ⟨linkTable highStart.mem highRoot 0 highTable, ⟨0x100000000001000, 0x100000000001000⟩⟩

theorem highStart_entry (i : Idx) : entry highStart.mem highRoot i = 0 := entry_zeroTable (by decide) i

theorem highEnd_entry {f : Addr} (hf : Aligned f) (i : Idx) : entry highEnd.mem f i =
    if f = highRoot ∧ i = 0 then pteFromPhysAddr highTable PTE_V else if f = highTable then 0
      else entry highStart.mem f i :=
  entry_link (by decide) (by decide) (by decide) hf

/-- The table is linked, and then no frame is left. -/
theorem highStart_map : pagingMap .direct (physToVirt highRoot) 0 0 PTE_R highStart = some (false, highEnd) := by
  have hlink : nextTable .direct physToVirt (entryPtr (physToVirt highRoot) ((0 : Idx).setWidth 64)) highStart =
      some (some (physToVirt highTable), highEnd) :=
    nextTable_free (by rw [highStart_entry]; rfl) (by decide) (by decide)
  have hload : View.direct.load64 highEnd.mem (entryPtr (physToVirt highTable) ((0 : Idx).setWidth 64)) = some 0 := by
    rw [physToVirt, entryPtr_offset]
    refine (View.offset_load64 ..).trans (congrArg some ?_)
    rw [← entry, highEnd_entry (by decide), if_neg (by decide), if_pos rfl]
  have hfull : nextTable .direct physToVirt (entryPtr (physToVirt highTable) ((0 : Idx).setWidth 64)) highEnd =
      some (none, highEnd) := nextTable_full hload rfl (by decide) rfl
  rw [pagingMap, pagingMapVia, if_neg (by decide), if_neg (by decide), if_neg (by decide), sv39Vpn2_eq,
    show (vpnOf 0).i2 = 0 by decide, hlink, Option.bind_eq_bind, Option.bind_some]
  show mapFromLevel1 .direct physToVirt (physToVirt highTable) 0 0 PTE_R highEnd = _
  rw [mapFromLevel1, sv39Vpn1_eq, show (vpnOf 0).i1 = 0 by decide, hfull]
  rfl

theorem highEnd_root : entry highEnd.mem highRoot 0 = pteFromPhysAddr highTable PTE_V := by
  rw [highEnd_entry (by decide), if_pos ⟨rfl, rfl⟩]

theorem highEnd_low (i : Idx) : entry highEnd.mem 0 i = entry highFrames.mem 0 i := by
  rw [highEnd_entry (by decide), if_neg fun h => absurd h.1 (by decide), if_neg (by decide)]
  exact entry_zeroTable_ne (by decide) (by decide) (by decide) i

/-- `paging_query` goes on at frame 0. -/
theorem highEnd_query : pagingQuery .direct (physToVirt highRoot) 0x1000 highEnd.mem =
    some (some (0, PTE_V ||| PTE_R)) := by
  have h2 : child highEnd.mem highRoot 0 = some 0 := by
    rw [child, highEnd_root]
    decide
  have h1 : child highEnd.mem 0 0 = some 0 := by
    rw [child, highEnd_low]
    decide
  have h0 : entry highFrames.mem 0 1 = PTE_V ||| PTE_R := by decide
  rw [pagingQuery_physToVirt (by decide), AddrSpace.translate, space, tableAt_two,
    show (vpnOf 0x1000).i2 = 0 by decide, show (vpnOf 0x1000).i1 = 0 by decide, show (vpnOf 0x1000).i0 = 1 by decide,
    h2, Option.bind_some, h1, Option.bind_some, highEnd_low, h0]
  rfl

/-- Sv39 does not. -/
theorem highEnd_sv39 : sv39Translate highEnd.mem highRoot 0x1000 = none := by
  have he : entry highEnd.mem highRoot ((0x1000 : U64).extractLsb' (12 + 9 * (1 + 1)) 9) =
      pteFromPhysAddr highTable PTE_V := highEnd_root
  rw [sv39Translate, if_pos (by decide), sv39Walk_succ 1 _ he, if_pos (by decide)]
  rfl

/-- With a table at 2⁵⁶ the walks do not agree. -/
theorem highTable_not_agree : ∃ g s s', pagingCreateRootTable highFrames = some (g, s) ∧ g ≠ 0 ∧
    (∀ c ∈ [TableCall.map 0 0 PTE_R], c.LegalMap) ∧ runTableCalls (physToVirt g) [.map 0 0 PTE_R] s = some s' ∧
    ¬ WalksAgree s'.mem g := by
  refine ⟨highRoot, highStart, highEnd, pagingCreateRootTable_eq (by decide) (by decide), by decide,
    ?_, ?_, fun h => ?_⟩
  · intro c hc
    rw [List.mem_singleton.mp hc]
    exact ⟨by decide, legalFlags_r⟩
  · rw [runTableCalls, TableCall.run, highStart_map]
    rfl
  · have hq := h 0x1000 (by decide)
    rw [highEnd_query, highEnd_sv39] at hq
    cases hq

end RvOs
