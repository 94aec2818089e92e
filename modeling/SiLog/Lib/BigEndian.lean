import Mathlib.Data.List.Basic
import Mathlib.Data.Nat.Bitwise
import Mathlib.Tactic.Ring

/-! # Words as big-endian bytes

    A word is written most significant byte first and read back by shifting
    each byte to its place and taking the union.  Writing and reading are
    inverse to each other, so two words with the same bytes are equal.
-/

namespace BigEndian

/-! ## 64-bit words -/

/-- The bytes of a 64-bit word. -/
def bytes64 (w : UInt64) : List UInt8 :=
  [((w >>> 56) &&& 0xFF).toUInt8, ((w >>> 48) &&& 0xFF).toUInt8,
   ((w >>> 40) &&& 0xFF).toUInt8, ((w >>> 32) &&& 0xFF).toUInt8,
   ((w >>> 24) &&& 0xFF).toUInt8, ((w >>> 16) &&& 0xFF).toUInt8,
   ((w >>> 8) &&& 0xFF).toUInt8, (w &&& 0xFF).toUInt8]

/-- The 64-bit word with the given bytes. -/
def word64 (b₀ b₁ b₂ b₃ b₄ b₅ b₆ b₇ : UInt8) : UInt64 :=
  (b₀.toUInt64 <<< 56) ||| (b₁.toUInt64 <<< 48) ||| (b₂.toUInt64 <<< 40) |||
  (b₃.toUInt64 <<< 32) ||| (b₄.toUInt64 <<< 24) ||| (b₅.toUInt64 <<< 16) |||
  (b₆.toUInt64 <<< 8) ||| b₇.toUInt64

/-! ## 32-bit words -/

/-- The bytes of a 32-bit word. -/
def bytes32 (w : UInt32) : List UInt8 :=
  [((w >>> 24) &&& 0xFF).toUInt8, ((w >>> 16) &&& 0xFF).toUInt8,
   ((w >>> 8) &&& 0xFF).toUInt8, (w &&& 0xFF).toUInt8]

/-- The 32-bit word with the given bytes. -/
def word32 (b₀ b₁ b₂ b₃ : UInt8) : UInt32 :=
  (b₀.toUInt32 <<< 24) ||| (b₁.toUInt32 <<< 16) ||| (b₂.toUInt32 <<< 8) ||| b₃.toUInt32

/-! ## Bytes as digits -/

/-- Taking the union with the next lower byte appends a digit. -/
theorem shiftLeft_or_byte {a b k : ℕ} (hb : b < 256) :
    (a <<< (k + 8)) ||| (b <<< k) = (a * 256 + b) <<< k := by
  have hor : (a <<< 8) ||| b = a * 256 + b := by
    rw [← Nat.shiftLeft_add_eq_or_of_lt (show b < 2 ^ 8 from hb), Nat.shiftLeft_eq]
  rw [Nat.add_comm k 8, Nat.shiftLeft_add, ← Nat.shiftLeft_or_distrib, hor]

theorem toNat_byte_shiftLeft64 (b : UInt8) {k : UInt64} {j : ℕ} (hk : k.toNat = j) (hj : j ≤ 56) :
    (b.toUInt64 <<< k).toNat = b.toNat <<< j := by
  have hb : b.toNat < 2 ^ 8 := b.toNat_lt
  have hlt : b.toNat <<< j < 2 ^ 64 := by
    rw [Nat.shiftLeft_eq]
    calc b.toNat * 2 ^ j < 2 ^ 8 * 2 ^ j :=
          Nat.mul_lt_mul_of_pos_right hb (Nat.two_pow_pos _)
      _ ≤ 2 ^ 8 * 2 ^ 56 := Nat.mul_le_mul_left _ (Nat.pow_le_pow_right (by decide) hj)
      _ = 2 ^ 64 := by decide
  rw [UInt64.toNat_shiftLeft, UInt8.toNat_toUInt64, hk, Nat.mod_eq_of_lt (by omega : j < 64),
    Nat.mod_eq_of_lt hlt]

theorem toNat_byte_shiftLeft32 (b : UInt8) {k : UInt32} {j : ℕ} (hk : k.toNat = j) (hj : j ≤ 24) :
    (b.toUInt32 <<< k).toNat = b.toNat <<< j := by
  have hb : b.toNat < 2 ^ 8 := b.toNat_lt
  have hlt : b.toNat <<< j < 2 ^ 32 := by
    rw [Nat.shiftLeft_eq]
    calc b.toNat * 2 ^ j < 2 ^ 8 * 2 ^ j :=
          Nat.mul_lt_mul_of_pos_right hb (Nat.two_pow_pos _)
      _ ≤ 2 ^ 8 * 2 ^ 24 := Nat.mul_le_mul_left _ (Nat.pow_le_pow_right (by decide) hj)
      _ = 2 ^ 32 := by decide
  rw [UInt32.toNat_shiftLeft, UInt8.toNat_toUInt32, hk, Nat.mod_eq_of_lt (by omega : j < 32),
    Nat.mod_eq_of_lt hlt]

/-- The digits of a word. -/
theorem toNat_word64 (b₀ b₁ b₂ b₃ b₄ b₅ b₆ b₇ : UInt8) :
    (word64 b₀ b₁ b₂ b₃ b₄ b₅ b₆ b₇).toNat =
      ((((((b₀.toNat * 256 + b₁.toNat) * 256 + b₂.toNat) * 256 + b₃.toNat) * 256 +
        b₄.toNat) * 256 + b₅.toNat) * 256 + b₆.toNat) * 256 + b₇.toNat := by
  unfold word64
  simp only [UInt64.toNat_or, toNat_byte_shiftLeft64 _ (k := 56) (j := 56) rfl (by decide),
    toNat_byte_shiftLeft64 _ (k := 48) (j := 48) rfl (by decide),
    toNat_byte_shiftLeft64 _ (k := 40) (j := 40) rfl (by decide),
    toNat_byte_shiftLeft64 _ (k := 32) (j := 32) rfl (by decide),
    toNat_byte_shiftLeft64 _ (k := 24) (j := 24) rfl (by decide),
    toNat_byte_shiftLeft64 _ (k := 16) (j := 16) rfl (by decide),
    toNat_byte_shiftLeft64 _ (k := 8) (j := 8) rfl (by decide), UInt8.toNat_toUInt64]
  have hlast : b₇.toNat = b₇.toNat <<< 0 := rfl
  -- byte by byte from the top: each union appends a digit to the number so far
  rw [hlast]
  show ((((((_ <<< (48 + 8) ||| _ <<< 48) ||| _ <<< 40) ||| _ <<< 32) ||| _ <<< 24) ||| _ <<< 16)
    ||| _ <<< 8) ||| _ = _
  rw [shiftLeft_or_byte b₁.toNat_lt, show 48 = 40 + 8 from rfl, shiftLeft_or_byte b₂.toNat_lt,
    show 40 = 32 + 8 from rfl, shiftLeft_or_byte b₃.toNat_lt, show 32 = 24 + 8 from rfl,
    shiftLeft_or_byte b₄.toNat_lt, show 24 = 16 + 8 from rfl, shiftLeft_or_byte b₅.toNat_lt,
    show 16 = 8 + 8 from rfl, shiftLeft_or_byte b₆.toNat_lt, show 8 = 0 + 8 from rfl,
    shiftLeft_or_byte b₇.toNat_lt]
  rfl

theorem toNat_word32 (b₀ b₁ b₂ b₃ : UInt8) :
    (word32 b₀ b₁ b₂ b₃).toNat =
      ((b₀.toNat * 256 + b₁.toNat) * 256 + b₂.toNat) * 256 + b₃.toNat := by
  unfold word32
  simp only [UInt32.toNat_or, toNat_byte_shiftLeft32 _ (k := 24) (j := 24) rfl (by decide),
    toNat_byte_shiftLeft32 _ (k := 16) (j := 16) rfl (by decide),
    toNat_byte_shiftLeft32 _ (k := 8) (j := 8) rfl (by decide), UInt8.toNat_toUInt32]
  have hlast : b₃.toNat = b₃.toNat <<< 0 := rfl
  rw [hlast]
  show ((_ <<< (16 + 8) ||| _ <<< 16) ||| _ <<< 8) ||| _ = _
  rw [shiftLeft_or_byte b₁.toNat_lt, show 16 = 8 + 8 from rfl, shiftLeft_or_byte b₂.toNat_lt,
    show 8 = 0 + 8 from rfl, shiftLeft_or_byte b₃.toNat_lt]
  rfl

theorem toNat_byte64 (w : UInt64) {k : UInt64} {j : ℕ} (hk : k.toNat = j) (hj : j < 64) :
    ((w >>> k) &&& 0xFF).toUInt8.toNat = w.toNat / 2 ^ j % 256 := by
  rw [UInt64.toNat_toUInt8, UInt64.toNat_and, UInt64.toNat_shiftRight, hk, Nat.mod_eq_of_lt hj,
    Nat.shiftRight_eq_div_pow]
  -- the mask and the truncation to a byte both take the residue modulo 256
  show (_ &&& (2 ^ 8 - 1)) % 2 ^ 8 = _
  rw [Nat.and_two_pow_sub_one_eq_mod, Nat.mod_mod]

theorem toNat_byte32 (w : UInt32) {k : UInt32} {j : ℕ} (hk : k.toNat = j) (hj : j < 32) :
    ((w >>> k) &&& 0xFF).toUInt8.toNat = w.toNat / 2 ^ j % 256 := by
  rw [UInt32.toNat_toUInt8, UInt32.toNat_and, UInt32.toNat_shiftRight, hk, Nat.mod_eq_of_lt hj,
    Nat.shiftRight_eq_div_pow]
  show (_ &&& (2 ^ 8 - 1)) % 2 ^ 8 = _
  rw [Nat.and_two_pow_sub_one_eq_mod, Nat.mod_mod]

theorem map_toNat_bytes64 (w : UInt64) : (bytes64 w).map UInt8.toNat =
    [w.toNat / 2 ^ 56 % 256, w.toNat / 2 ^ 48 % 256, w.toNat / 2 ^ 40 % 256,
     w.toNat / 2 ^ 32 % 256, w.toNat / 2 ^ 24 % 256, w.toNat / 2 ^ 16 % 256,
     w.toNat / 2 ^ 8 % 256, w.toNat % 256] := by
  have hlow := toNat_byte64 w (k := 0) (j := 0) rfl (by decide)
  rw [UInt64.shiftRight_zero, pow_zero, Nat.div_one] at hlow
  simp only [bytes64, List.map_cons, List.map_nil, hlow,
    toNat_byte64 w (k := 56) (j := 56) rfl (by decide),
    toNat_byte64 w (k := 48) (j := 48) rfl (by decide),
    toNat_byte64 w (k := 40) (j := 40) rfl (by decide),
    toNat_byte64 w (k := 32) (j := 32) rfl (by decide),
    toNat_byte64 w (k := 24) (j := 24) rfl (by decide),
    toNat_byte64 w (k := 16) (j := 16) rfl (by decide),
    toNat_byte64 w (k := 8) (j := 8) rfl (by decide)]

theorem map_toNat_bytes32 (w : UInt32) : (bytes32 w).map UInt8.toNat =
    [w.toNat / 2 ^ 24 % 256, w.toNat / 2 ^ 16 % 256, w.toNat / 2 ^ 8 % 256, w.toNat % 256] := by
  have hlow := toNat_byte32 w (k := 0) (j := 0) rfl (by decide)
  rw [UInt32.shiftRight_zero, pow_zero, Nat.div_one] at hlow
  simp only [bytes32, List.map_cons, List.map_nil, hlow,
    toNat_byte32 w (k := 24) (j := 24) rfl (by decide),
    toNat_byte32 w (k := 16) (j := 16) rfl (by decide),
    toNat_byte32 w (k := 8) (j := 8) rfl (by decide)]

/-! ## Reading what was written -/

theorem bytes_eq_iff {bs bs' : List UInt8} :
    bs = bs' ↔ bs.map UInt8.toNat = bs'.map UInt8.toNat :=
  (List.map_injective_iff.mpr fun _ _ => UInt8.toNat_inj.mp).eq_iff.symm

/-- The bytes of a word and the word of the bytes determine each other. -/
theorem bytes64_eq_iff {w : UInt64} {b₀ b₁ b₂ b₃ b₄ b₅ b₆ b₇ : UInt8} :
    bytes64 w = [b₀, b₁, b₂, b₃, b₄, b₅, b₆, b₇] ↔ w = word64 b₀ b₁ b₂ b₃ b₄ b₅ b₆ b₇ := by
  have hw := w.toNat_lt
  have h₀ := b₀.toNat_lt
  have h₁ := b₁.toNat_lt
  have h₂ := b₂.toNat_lt
  have h₃ := b₃.toNat_lt
  have h₄ := b₄.toNat_lt
  have h₅ := b₅.toNat_lt
  have h₆ := b₆.toNat_lt
  have h₇ := b₇.toNat_lt
  rw [bytes_eq_iff, map_toNat_bytes64, ← UInt64.toNat_inj, toNat_word64]
  simp only [List.map_cons, List.map_nil, List.cons.injEq, and_true]
  constructor
  · rintro ⟨e₀, e₁, e₂, e₃, e₄, e₅, e₆, e₇⟩
    omega
  · intro e
    omega

theorem bytes32_eq_iff {w : UInt32} {b₀ b₁ b₂ b₃ : UInt8} :
    bytes32 w = [b₀, b₁, b₂, b₃] ↔ w = word32 b₀ b₁ b₂ b₃ := by
  have hw := w.toNat_lt
  have h₀ := b₀.toNat_lt
  have h₁ := b₁.toNat_lt
  have h₂ := b₂.toNat_lt
  have h₃ := b₃.toNat_lt
  rw [bytes_eq_iff, map_toNat_bytes32, ← UInt32.toNat_inj, toNat_word32]
  simp only [List.map_cons, List.map_nil, List.cons.injEq, and_true]
  omega

end BigEndian
