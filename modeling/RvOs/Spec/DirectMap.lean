import RvOs.Impl.Process
import RvOs.Spec.FrameRuns

/-!
# What the direct map is to be

The upper half of the canonical addresses, from `KERNEL_DIRECT_MAP_BASE` up, is
the direct map's: RAM is there once, and the lower half is left to the identity
mappings and to the user program.
-/

namespace RvOs

/-- The direct map of a platform, as the tables see it: addresses count modulo 2³⁹. -/
structure DirectWindow (platform : PlatformInfo) : Prop where
  base_le : ∀ p, platform.InRam p → KERNEL_DIRECT_MAP_BASE ≤ physToVirt p
  no_wrap : ∀ p, platform.InRam p → (physToVirt p).toNat = KERNEL_DIRECT_MAP_BASE.toNat + p.toNat
  canonical : ∀ p, platform.InRam p → Canonical (physToVirt p)
  inverse : ∀ p, platform.InRam p → virtToPhys (physToVirt p) = p
  injective : ∀ p q, platform.InRam p → platform.InRam q →
    (physToVirt p).toNat % 2 ^ 39 = (physToVirt q).toNat % 2 ^ 39 → p = q
  /-- The pages of the direct map, byte by byte. -/
  upper : ∀ off < alignUp platform.ramSize PAGE_SIZE, 2 ^ 38 ≤ (physToVirt platform.ramBase + off).toNat % 2 ^ 39
  user : ∀ off < alignUp platform.ramSize PAGE_SIZE, ∀ x, x = (physToVirt platform.ramBase + off).toNat % 2 ^ 39 →
    ¬ (USER_TEXT_START.toNat ≤ x ∧ x < USER_STACK_TOP.toNat)

end RvOs
