import Mathlib.Algebra.Order.Group.Nat

/-!
# Transfer request blocks

The blocks that the rings of the xHCI controller are made of, and the pointers into a ring.
-/

namespace RPiKernel.Xhci

/-- A transfer request block. -/
structure Trb where
  parameter : BitVec 64
  status : BitVec 32
  control : BitVec 32
  deriving DecidableEq, Repr

namespace Trb

def zero : Trb := { parameter := 0#64, status := 0#32, control := 0#32 }

def cycleBit (trb : Trb) : Bool := trb.control &&& 1#32 != 0#32

/-- The block with its cycle bit replaced. -/
def withCycleBit (trb : Trb) (cycle : Bool) : Trb :=
  { trb with control := (trb.control &&& ~~~1#32) ||| if cycle then 1#32 else 0#32 }

@[simp] theorem cycleBit_zero : zero.cycleBit = false := rfl

theorem cycleBit_eq_getLsbD (trb : Trb) : trb.cycleBit = trb.control.getLsbD 0 := by
  rw [cycleBit, BitVec.and_one_eq_setWidth_ofBool_getLsbD]
  cases trb.control.getLsbD 0 with
  | false => rfl
  | true => rfl

/-- Setting bits keeps a cycle bit that is set. -/
theorem cycleBit_or (trb : Trb) (bits : BitVec 32) :
    { trb with control := trb.control ||| bits }.cycleBit =
      (trb.cycleBit || bits.getLsbD 0) := by
  rw [cycleBit_eq_getLsbD, cycleBit_eq_getLsbD, BitVec.getLsbD_or]

@[simp] theorem cycleBit_withCycleBit (trb : Trb) (cycle : Bool) :
    (trb.withCycleBit cycle).cycleBit = cycle := by
  have hclear : (trb.control &&& ~~~1#32).getLsbD 0 = false := by
    rw [BitVec.getLsbD_and]
    exact Bool.and_false _
  rw [cycleBit_eq_getLsbD, withCycleBit, BitVec.getLsbD_or, hclear]
  cases cycle with
  | false => rfl
  | true => rfl

end Trb

/-- `get_physical_address` of a slot. -/
def addressOf (base slot : Nat) : Nat := base + 16 * slot

def advanceRingPointer (current ringSize : Nat) : Nat := (current + 1) % 2 ^ 32 % ringSize

/-- The pointer behind the slot of an item is the slot of the next item. -/
theorem advanceRingPointer_mod {n : Nat} (hn : n ∣ 2 ^ 32) (k : Nat) :
    advanceRingPointer (k % n) n = (k + 1) % n := by
  rw [advanceRingPointer, Nat.mod_mod_of_dvd _ hn, Nat.mod_add_mod]

end RPiKernel.Xhci
