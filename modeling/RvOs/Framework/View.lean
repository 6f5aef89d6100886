import RvOs.Framework.Mem

/-!
# Access through an address translation

A `View` resolves a pointer to a physical address for a load or a store, in a
given memory (the translation tables are in it), or faults (`none`). Loads and
stores through a view act on physical memory. `View.offset o` is the view
through a window at a constant distance from physical memory.
-/

namespace RvOs

inductive Access where
  | load
  | store
  deriving DecidableEq

/-- The physical address a pointer resolves to, `none` for a fault. -/
abbrev View := Mem → Access → Addr → Option Addr

namespace View

variable (V : View)

def load64 (m : Mem) (p : Addr) : Option (BitVec 64) := (V m .load p).map m.read64
def store64 (m : Mem) (p : Addr) (v : BitVec 64) : Option Mem := (V m .store p).map (m.write64 · v)
def load8 (m : Mem) (p : Addr) : Option Byte := (V m .load p).map m
def store8 (m : Mem) (p : Addr) (v : Byte) : Option Mem := (V m .store p).map (m.write8 · v)

/-- Physical memory seen at `p + o` for each address `p`. -/
def offset (o : Addr) : View := fun _ _ p => some (p - o)

variable (m : Mem) (o p : Addr)

theorem offset_add (access : Access) : offset o m access (p + o) = some p := congrArg some (BitVec.add_sub_cancel p o)

@[simp] theorem offset_load64 : (offset o).load64 m (p + o) = some (m.read64 p) := by
  rw [load64, offset_add, Option.map_some]

@[simp] theorem offset_store64 (v : BitVec 64) : (offset o).store64 m (p + o) v = some (m.write64 p v) := by
  rw [store64, offset_add, Option.map_some]

@[simp] theorem offset_load8 : (offset o).load8 m (p + o) = some (m p) := by
  rw [load8, offset_add, Option.map_some]

@[simp] theorem offset_store8 (v : Byte) : (offset o).store8 m (p + o) v = some (m.write8 p v) := by
  rw [store8, offset_add, Option.map_some]

end View

end RvOs
