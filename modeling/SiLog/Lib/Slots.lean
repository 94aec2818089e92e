import Mathlib.Algebra.Group.Nat.Defs

/-! # Slots in a block of memory

    A block holds `c` slots of `e` bytes each, one behind the other.  The size
    of the block and the offset of a slot are computed in 32-bit words and so
    modulo `2 ^ 32`.  The slots lie inside a block of the computed size exactly
    if the product of `e` and `c` is below `2 ^ 32`, and the offsets are then
    the true ones.
-/

namespace Slots

variable {e c b : UInt32} {i : ℕ}

/-- `c` slots of `e` bytes lie inside a block of `b` bytes. -/
def Inside (e : UInt32) (c : ℕ) (b : UInt32) : Prop := ∀ i, i < c → (i + 1) * e.toNat ≤ b.toNat

/-- The `e` bytes at the computed offset of slot `i` lie inside a block of `b` bytes. -/
def Addressed (e b : UInt32) (i : ℕ) : Prop := (UInt32.ofNat i * e).toNat + e.toNat ≤ b.toNat

theorem toNat_mul_of_lt {a b : UInt32} (h : a.toNat * b.toNat < 2 ^ 32) :
    (a * b).toNat = a.toNat * b.toNat := by
  rw [UInt32.toNat_mul, Nat.mod_eq_of_lt h]

/-- The slots are inside if and only if the product does not wrap. -/
theorem inside_iff (hc : c ≠ 0) : Inside e c.toNat (e * c) ↔ e.toNat * c.toNat < 2 ^ 32 := by
  have hpos : 0 < c.toNat := Nat.pos_of_ne_zero fun h => hc (UInt32.toNat_inj.mp h)
  constructor
  · intro h
    -- the last slot ends at the true product
    have hlast := h (c.toNat - 1) (Nat.sub_lt hpos Nat.one_pos)
    rw [Nat.sub_add_cancel hpos, Nat.mul_comm] at hlast
    exact Nat.lt_of_le_of_lt hlast (e * c).toNat_lt
  · intro h i hi
    rw [toNat_mul_of_lt h, Nat.mul_comm]
    exact Nat.mul_le_mul_left e.toNat hi

/-- The computed offset is the true one. -/
theorem addressed_of_lt (h : e.toNat * c.toNat < 2 ^ 32) (hi : i < c.toNat) : Addressed e (e * c) i := by
  have hword : (UInt32.ofNat i).toNat = i := UInt32.toNat_ofNat_of_lt' (Nat.lt_trans hi c.toNat_lt)
  have hend : (i + 1) * e.toNat ≤ e.toNat * c.toNat := by
    rw [Nat.mul_comm]
    exact Nat.mul_le_mul_left e.toNat hi
  have hoffset : (UInt32.ofNat i).toNat * e.toNat < 2 ^ 32 := by
    rw [hword]
    exact Nat.lt_of_le_of_lt (Nat.mul_le_mul_right e.toNat (Nat.le_succ i)) (Nat.lt_of_le_of_lt hend h)
  unfold Addressed
  rw [toNat_mul_of_lt hoffset, toNat_mul_of_lt h, hword, ← Nat.succ_mul]
  exact hend

end Slots
