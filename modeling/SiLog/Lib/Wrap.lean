import Mathlib.Data.Nat.ModEq
import Mathlib.Tactic.Ring

/-! # Counters that wrap at 2^32

    A ring buffer counts positions in 32-bit words.  The unwrapped count is
    a natural number `t`; the word is `UInt32.ofNat t` and the slot of `t` in
    a ring of `2 ^ j` slots is the word masked with `2 ^ j - 1`.  Two
    positions less than one ring apart have different slots, and the
    wrapped difference of two positions less than `2 ^ 32` apart is their
    difference.
-/

namespace Wrap

theorem ofNat_eq_ofNat {a b : ℕ} : UInt32.ofNat a = UInt32.ofNat b ↔ a % 2 ^ 32 = b % 2 ^ 32 := by
  rw [UInt32.ofNat_eq_iff_mod_eq_toNat, UInt32.toNat_ofNat']

/-- Words of two positions less than `2 ^ 32` apart are equal only if the
    positions are. -/
theorem ofNat_ne {a b : ℕ} (hlt : a < b) (hnear : b < a + 2 ^ 32) :
    UInt32.ofNat a ≠ UInt32.ofNat b := by
  rw [Ne, ofNat_eq_ofNat]
  omega

theorem ofNat_succ (a : ℕ) : UInt32.ofNat a + 1 = UInt32.ofNat (a + 1) := by
  rw [UInt32.ofNat_add, UInt32.ofNat_one]

theorem ofNat_pred (a : ℕ) : UInt32.ofNat (a + 1) - 1 = UInt32.ofNat a := by
  rw [← UInt32.ofNat_one, ← UInt32.ofNat_sub (by omega), Nat.add_sub_cancel]

theorem ofNat_add_word (a : ℕ) (c : UInt32) : UInt32.ofNat a + c = UInt32.ofNat (a + c.toNat) := by
  rw [UInt32.ofNat_add, UInt32.ofNat_toNat]

/-- The wrapped distance of two positions against a bound. -/
theorem word_sub_lt {t r : ℕ} {c : UInt32} (hle : r ≤ t) :
    UInt32.ofNat t - UInt32.ofNat r < c ↔ (t - r) % 2 ^ 32 < c.toNat := by
  rw [← UInt32.ofNat_sub hle, UInt32.lt_iff_toNat_lt, UInt32.toNat_ofNat']

/-! ## Slots -/

section slots
variable {c : UInt32} {j : ℕ} (hc : c.toNat = 2 ^ j)
include hc

theorem toNat_pred : (c - 1).toNat = 2 ^ j - 1 := by
  have h1 : (1 : UInt32) ≤ c := by
    rw [UInt32.le_iff_toNat_le, hc]
    exact Nat.one_le_two_pow
  rw [UInt32.toNat_sub_of_le _ _ h1, hc]
  rfl

/-- The masked word of `t` is `t` modulo the number of slots. -/
theorem toNat_slot (t : ℕ) : (UInt32.ofNat t &&& (c - 1)).toNat = t % c.toNat := by
  -- the ring divides the range of the word, so reducing twice is reducing once
  have hdvd : 2 ^ j ∣ 2 ^ 32 := by
    have hlt : 2 ^ j < 2 ^ 32 := hc ▸ c.toNat_lt
    exact Nat.pow_dvd_pow 2 (Nat.pow_lt_pow_iff_right (by decide) |>.mp hlt).le
  rw [UInt32.toNat_and, toNat_pred hc, Nat.and_two_pow_sub_one_eq_mod, UInt32.toNat_ofNat',
    Nat.mod_mod_of_dvd _ hdvd, hc]

/-- The positions of the first lap are their own slots. -/
theorem slot_of_lt {t : ℕ} (ht : t < c.toNat) : UInt32.ofNat t &&& (c - 1) = UInt32.ofNat t := by
  have hlt : t < 2 ^ 32 := ht.trans c.toNat_lt
  rw [← UInt32.toNat_inj, toNat_slot hc, UInt32.toNat_ofNat', Nat.mod_eq_of_lt ht,
    Nat.mod_eq_of_lt hlt]

/-- Two positions less than one lap apart have different slots. -/
theorem slot_inj {r t u : ℕ} (ht : r ≤ t ∧ t < r + c.toNat) (hu : r ≤ u ∧ u < r + c.toNat)
    (h : UInt32.ofNat t &&& (c - 1) = UInt32.ofNat u &&& (c - 1)) : t = u := by
  have hmod : t % c.toNat = u % c.toNat := by
    rw [← toNat_slot hc, ← toNat_slot hc, h]
  -- equal residues differ by a multiple of the ring, and the window is shorter than that
  rcases Nat.lt_trichotomy t u with hlt | heq | hlt
  · have hdvd := (Nat.modEq_iff_dvd' hlt.le).mp hmod
    have := Nat.le_of_dvd (by omega) hdvd
    omega
  · exact heq
  · have hdvd := (Nat.modEq_iff_dvd' hlt.le).mp hmod.symm
    have := Nat.le_of_dvd (by omega) hdvd
    omega

/-- The position one lap later has the same slot. -/
theorem slot_lap (t : ℕ) :
    UInt32.ofNat (t + c.toNat) &&& (c - 1) = UInt32.ofNat t &&& (c - 1) := by
  rw [← UInt32.toNat_inj, toNat_slot hc, toNat_slot hc, Nat.add_mod_right]

end slots

end Wrap
