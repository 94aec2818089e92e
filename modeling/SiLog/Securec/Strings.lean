import SiLog.Securec

/-! # Copies, concatenations and comparisons (`silog_securec.c`)

    A source string and the strings that are compared are given without their
    NUL; behind the end of a string nothing is read.  The copies and
    concatenations check the length before they write.  An array that does not
    hold a string counts as full.  The array and the source are two objects of
    one address space, so the sum of two lengths does not wrap around.

    `strncmp_s` compares the bytes that both strings have and, unlike
    `strcmp_s`, does not look at the lengths: a string and a proper prefix of it
    are equal to it.
-/

namespace SiLog.Securec

/-! ## Section 1: Copies -/

/-- `strcpy_s` -/
def strcpyS (dest : Option (List UInt8)) (destMax : ℕ) (src : Option (List UInt8)) :
    Errno × Option (List UInt8) :=
  match dest with
  | none => (.einval, none)
  | some dest =>
    if destMax = 0 then (.einval, some dest)
    else
      match src with
      | none => (.einval, some (dest.set 0 0))
      | some src =>
        if destMax ≤ src.length then (.erange, some (dest.set 0 0))
        else (.eok, some (store dest src))

/-- `strncpy_s` -/
def strncpyS (dest : Option (List UInt8)) (destMax : ℕ) (src : Option (List UInt8)) (count : ℕ) :
    Errno × Option (List UInt8) :=
  match dest with
  | none => (.einval, none)
  | some dest =>
    if destMax = 0 then (.einval, some dest)
    else
      match src with
      | none => (.einval, some (dest.set 0 0))
      | some src =>
        let srcLen := min count src.length
        if destMax ≤ srcLen then (.erange, some (dest.set 0 0))
        else (.eok, some (store dest (src.take srcLen)))

/-- `strcat_s` -/
def strcatS (dest : Option (List UInt8)) (destMax : ℕ) (src : Option (List UInt8)) :
    Errno × Option (List UInt8) :=
  match dest with
  | none => (.einval, none)
  | some dest =>
    if destMax = 0 then (.einval, some dest)
    else
      match src with
      | none => (.einval, some dest)
      | some src =>
        let destLen := strnlen dest destMax
        if destMax ≤ destLen + src.length then (.erange, some dest)
        else (.eok, some (store dest (dest.take destLen ++ src)))

/-- A call that is to leave `string` in the first `destMax` bytes: it does so if the string fits
    with its NUL, and otherwise returns `ERANGE` and leaves the array as `failed` says.  No byte
    behind the first `destMax` changes. -/
def Leaves (result : Errno × Option (List UInt8)) (dest : List UInt8) (destMax : ℕ)
    (string : List UInt8) (failed : List UInt8 → Prop) : Prop :=
  ∃ dest', result.2 = some dest' ∧
    dest'.length = dest.length ∧ dest'.drop destMax = dest.drop destMax ∧
    (result.1 = .eok ↔ string.length < destMax) ∧
    (result.1 = .eok → cString dest' = some string) ∧
    (result.1 ≠ .eok → result.1 = .erange ∧ failed dest')

section copies
variable {dest src string : List UInt8} {destMax count : ℕ} {failed : List UInt8 → Prop}

theorem drop_store (h : string.length < destMax) :
    (store dest string).drop destMax = dest.drop destMax := by
  unfold store
  rw [List.drop_append, List.drop_drop]
  have hfront : (string ++ [0]).drop destMax = [] := by
    apply List.drop_eq_nil_of_le
    rw [List.length_append, List.length_singleton]
    omega
  have hoffset : string.length + 1 + (destMax - (string ++ [0]).length) = destMax := by
    rw [List.length_append, List.length_singleton]
    omega
  rw [hfront, List.nil_append, hoffset]

/-- The text that is there. -/
theorem leaves_store (hdest : destMax ≤ dest.length) (hnul : 0 ∉ string) (hfits : string.length < destMax) :
    Leaves (.eok, some (store dest string)) dest destMax string failed := by
  refine ⟨_, rfl, length_store (by omega), drop_store hfits, iff_of_true rfl hfits, fun _ => ?_, ?_⟩
  · exact cString_of_prefix (List.prefix_append _ _) hnul
  · intro hne
    exact absurd rfl hne

theorem leaves_erange {dest' : List UInt8} (hlen : dest'.length = dest.length)
    (hdrop : dest'.drop destMax = dest.drop destMax) (hlong : ¬ string.length < destMax)
    (hfailed : failed dest') : Leaves (.erange, some dest') dest destMax string failed := by
  have hne : Errno.erange ≠ .eok := by decide
  exact ⟨dest', rfl, hlen, hdrop, iff_of_false hne hlong, fun h => absurd h hne, fun _ => ⟨rfl, hfailed⟩⟩

/-- The copies leave an empty string. -/
theorem leaves_empty (hpos : 1 ≤ destMax) (hdest : destMax ≤ dest.length)
    (hlong : ¬ string.length < destMax) :
    Leaves (.erange, some (dest.set 0 0)) dest destMax string fun dest' => cString dest' = some [] := by
  obtain ⟨b, rest, rfl⟩ := List.exists_cons_of_length_pos (Nat.lt_of_lt_of_le hpos hdest)
  apply leaves_erange
  · rw [List.length_set]
  · rw [List.drop_set_of_lt hpos]
  · exact hlong
  · exact cString_of_prefix (List.prefix_append [0] rest) List.not_mem_nil

/-- The scan for the NUL stops at the bound. -/
theorem strnlen_eq_min (a : List UInt8) (m : ℕ) : strnlen a m = min m (a.takeWhile (· ≠ 0)).length := by
  unfold strnlen
  rw [← List.take_takeWhile, List.length_take]

theorem take_strnlen {a : List UInt8} {m : ℕ} (h : (a.takeWhile (· ≠ 0)).length < m) :
    a.take (strnlen a m) = a.takeWhile (· ≠ 0) := by
  rw [strnlen_eq_min, Nat.min_eq_right h.le]
  exact (List.prefix_iff_eq_take.mp (List.takeWhile_prefix _)).symm

/-- Both concatenations, for the bytes that they append. -/
theorem leaves_append (hdest : destMax ≤ dest.length) (hsrc : 0 ∉ src) :
    Leaves (if destMax ≤ strnlen dest destMax + src.length then (.erange, some dest)
        else (.eok, some (store dest (dest.take (strnlen dest destMax) ++ src))))
      dest destMax (dest.takeWhile (· ≠ 0) ++ src) (· = dest) := by
  have hlen := strnlen_eq_min dest destMax
  have hsum : (dest.takeWhile (· ≠ 0) ++ src).length = (dest.takeWhile (· ≠ 0)).length + src.length :=
    List.length_append
  split
  next hfull => exact leaves_erange rfl rfl (by omega) rfl
  next hroom =>
    rw [take_strnlen (by omega)]
    apply leaves_store hdest
    · rw [List.mem_append, not_or]
      exact ⟨zero_notMem_takeWhile dest, hsrc⟩
    · omega

/-- **Copies and concatenations.** On every array of at least `destMax` bytes, terminated or not, and
    every string, the four functions leave the string that they are to make exactly if it is
    shorter than `destMax`.  Otherwise they return `ERANGE` with an empty string or the array
    unchanged, and no byte from `destMax` on is ever written. -/
theorem copy_and_concatenate (hpos : 1 ≤ destMax) (hdest : destMax ≤ dest.length) (hsrc : 0 ∉ src)
    (count : ℕ) :
    Leaves (strcpyS (some dest) destMax (some src)) dest destMax src
      (fun dest' => cString dest' = some []) ∧
    Leaves (strncpyS (some dest) destMax (some src) count) dest destMax
      (src.take (min src.length count)) (fun dest' => cString dest' = some []) ∧
    Leaves (strcatS (some dest) destMax (some src)) dest destMax
      (dest.takeWhile (· ≠ 0) ++ src) (· = dest) ∧
    Leaves (strncatS (some dest) destMax (some src) count) dest destMax
      (dest.takeWhile (· ≠ 0) ++ src.take (min src.length count)) (· = dest) := by
  have hne : destMax ≠ 0 := by omega
  have hcut : 0 ∉ src.take (min count src.length) := fun h => hsrc (List.mem_of_mem_take h)
  have hcutlen : (src.take (min count src.length)).length = min count src.length := by
    rw [List.length_take]
    omega
  rw [Nat.min_comm src.length count]
  refine ⟨?_, ?_, ?_, ?_⟩
  · simp only [strcpyS, if_neg hne]
    split
    next hlong => exact leaves_empty hpos hdest (not_lt.mpr hlong)
    next hfits => exact leaves_store hdest hsrc (not_le.mp hfits)
  · simp only [strncpyS, if_neg hne]
    split
    next hlong => exact leaves_empty hpos hdest (by rw [hcutlen]; exact not_lt.mpr hlong)
    next hfits => exact leaves_store hdest hcut (by rw [hcutlen]; exact not_le.mp hfits)
  · simp only [strcatS, if_neg hne]
    exact leaves_append hdest hsrc
  · simp only [strncatS, if_neg hne]
    have happend := leaves_append hdest hcut
    rw [hcutlen] at happend
    exact happend

end copies

/-- An array of six bytes without a NUL, of which four may be used: the copies work, and there is
    nothing to append to. -/
theorem copy_and_concatenate_unterminated :
    strncpyS (some [120, 120, 120, 120, 120, 120]) 4 (some [97, 98]) 1 =
      (.eok, some [97, 0, 120, 120, 120, 120]) ∧
    Leaves (strcatS (some [120, 120, 120, 120, 120, 120]) 4 (some [97, 98]))
      [120, 120, 120, 120, 120, 120] 4 [120, 120, 120, 120, 120, 120, 97, 98]
      (· = [120, 120, 120, 120, 120, 120]) := by
  have hdest : 4 ≤ ([120, 120, 120, 120, 120, 120] : List UInt8).length := by decide
  have hsrc : 0 ∉ ([97, 98] : List UInt8) := by decide
  obtain ⟨_, _, hcat, _⟩ := copy_and_concatenate (by decide) hdest hsrc 1
  exact ⟨rfl, hcat⟩

/-! ## Section 2: Comparisons -/

/-- `memcmp` of the C library; only the sign of the result is specified. -/
def memcmp : List UInt8 → List UInt8 → ℕ → ℤ
  | x :: xs, y :: ys, n + 1 => if x = y then memcmp xs ys n else (x.toNat : ℤ) - y.toNat
  | _, _, _ => 0

/-- The beginning of both comparisons: what they do with `NULL` and with a bound of zero. -/
def compareWith (str1 : Option (List UInt8)) (str1Max : ℕ) (str2 : Option (List UInt8)) (str2Max : ℕ)
    (result : Bool) (compare : List UInt8 → List UInt8 → ℤ) : Errno × Option ℤ :=
  if result = false then (.einval, none)
  else if str1.isNone ∨ str1Max = 0 then
    (.eok, some (if str2.isNone ∨ str2Max = 0 then 0 else -1))
  else if str2.isNone ∨ str2Max = 0 then (.eok, some 1)
  else (.eok, some (compare (str1.getD []) (str2.getD [])))

/-- `strcmp_s`; `result` tells whether the pointer for the result is not `NULL`. -/
def strcmpS (str1 : Option (List UInt8)) (str1Max : ℕ) (str2 : Option (List UInt8)) (str2Max : ℕ)
    (result : Bool) : Errno × Option ℤ :=
  compareWith str1 str1Max str2 str2Max result fun s₁ s₂ =>
    let len1 := strnlen s₁ str1Max
    let len2 := strnlen s₂ str2Max
    let minLen := if len1 < len2 then len1 else len2
    let cmp := memcmp s₁ s₂ minLen
    if cmp ≠ 0 then cmp
    else if len1 < len2 then -1
    else if len2 < len1 then 1
    else 0

/-- `strncmp_s` -/
def strncmpS (str1 : Option (List UInt8)) (str1Max : ℕ) (str2 : Option (List UInt8)) (str2Max : ℕ)
    (count : ℕ) (result : Bool) : Errno × Option ℤ :=
  compareWith str1 str1Max str2 str2Max result fun s₁ s₂ =>
    let len1 := strnlen s₁ str1Max
    let len2 := strnlen s₂ str2Max
    let maxCompare := if len1 < count then len1 else count
    let maxCompare := if len2 < maxCompare then len2 else maxCompare
    -- the source stores `cmp` in both branches of the last test
    memcmp s₁ s₂ maxCompare

/-- The string up to its bound, and of that the first `count` bytes. -/
def cut (s : List UInt8) (max count : ℕ) : List UInt8 := ((s.take max).takeWhile (· ≠ 0)).take count

/-- `strncmp_s` has the sign of `strcmp_s` for the strings that are cut. -/
def SameSign (s₁ : List UInt8) (max₁ : ℕ) (s₂ : List UInt8) (max₂ count : ℕ) : Prop :=
  ∃ r r', strncmpS (some s₁) max₁ (some s₂) max₂ count true = (.eok, some r) ∧
    strcmpS (some (cut s₁ max₁ count)) max₁ (some (cut s₂ max₂ count)) max₂ true = (.eok, some r') ∧
    r.sign = r'.sign

section compare
variable {a b a' b' s s₁ s₂ : List UInt8} {max max₁ max₂ count n : ℕ}

theorem memcmp_of_front (ha : a' <+: a) (hb : b' <+: b) (hna : n ≤ a'.length) (hnb : n ≤ b'.length) :
    memcmp a b n = memcmp a' b' n := by
  obtain ⟨t, rfl⟩ := ha
  obtain ⟨u, rfl⟩ := hb
  induction n generalizing a' b' with
  | zero => simp [memcmp]
  | succ n ih =>
    cases a' with
    | nil => exact absurd hna (Nat.not_succ_le_zero n)
    | cons x xs =>
      cases b' with
      | nil => exact absurd hnb (Nat.not_succ_le_zero n)
      | cons y ys =>
        simp only [List.cons_append, memcmp]
        rw [ih (Nat.le_of_succ_le_succ hna) (Nat.le_of_succ_le_succ hnb)]

theorem memcmp_eq_zero_iff (ha : n ≤ a.length) (hb : n ≤ b.length) :
    memcmp a b n = 0 ↔ a.take n = b.take n := by
  induction n generalizing a b with
  | zero => simp [memcmp]
  | succ n ih =>
    cases a with
    | nil => exact absurd ha (Nat.not_succ_le_zero n)
    | cons x xs =>
      cases b with
      | nil => exact absurd hb (Nat.not_succ_le_zero n)
      | cons y ys =>
        rw [memcmp, List.take_succ_cons, List.take_succ_cons, List.cons.injEq]
        split
        next heq =>
          rw [ih (Nat.le_of_succ_le_succ ha) (Nat.le_of_succ_le_succ hb)]
          simp [heq]
        next hne =>
          have hnat : x.toNat ≠ y.toNat := fun h => hne (UInt8.toNat_inj.mp h)
          simp only [hne, false_and, iff_false]
          omega

/-- Two strings that agree as far as both go. -/
theorem take_min_eq_iff : a.take (min a.length b.length) = b.take (min a.length b.length) ↔
    a <+: b ∨ b <+: a := by
  rcases Nat.le_total a.length b.length with hle | hle
  · rw [Nat.min_eq_left hle, List.take_length, ← List.prefix_iff_eq_take]
    constructor
    · exact Or.inl
    · rintro (h | h)
      · exact h
      · exact h.eq_of_length_le hle ▸ List.prefix_rfl
  · rw [Nat.min_eq_right hle, List.take_length, eq_comm, ← List.prefix_iff_eq_take]
    constructor
    · exact Or.inr
    · rintro (h | h)
      · exact h.eq_of_length_le hle ▸ List.prefix_rfl
      · exact h

theorem eq_iff_of_comparable (h : a <+: b ∨ b <+: a) : a = b ↔ a.length = b.length := by
  constructor
  · exact congrArg List.length
  · intro hlen
    rcases h with h | h
    · exact h.eq_of_length hlen
    · exact (h.eq_of_length hlen.symm).symm

theorem cut_isPrefix_self (s : List UInt8) (max count : ℕ) : cut s max count <+: s :=
  (List.take_prefix _ _).trans ((List.takeWhile_prefix _).trans (List.take_prefix _ _))

theorem length_cut (s : List UInt8) (max count : ℕ) :
    (cut s max count).length = min count (strnlen s max) := by
  unfold cut strnlen
  rw [List.length_take]

/-- A string that was cut is not cut again. -/
theorem strnlen_cut (s : List UInt8) (max count : ℕ) :
    strnlen (cut s max count) max = (cut s max count).length := by
  have hself : (cut s max count).takeWhile (· ≠ 0) = cut s max count := by
    unfold cut
    rw [← List.take_takeWhile, List.takeWhile_idem]
  have hle : (cut s max count).length ≤ max := by
    rw [length_cut, strnlen_eq_min]
    omega
  rw [strnlen_eq_min, hself, Nat.min_eq_right hle]

/-- What `strncmp_s` returns, in terms of the strings that are cut. -/
theorem strncmpS_eq (h₁ : 0 < max₁) (h₂ : 0 < max₂) (s₁ s₂ : List UInt8) (count : ℕ) :
    strncmpS (some s₁) max₁ (some s₂) max₂ count true =
      (.eok, some (memcmp (cut s₁ max₁ count) (cut s₂ max₂ count)
        (min (cut s₁ max₁ count).length (cut s₂ max₂ count).length))) := by
  have hmin : (if strnlen s₂ max₂ < (if strnlen s₁ max₁ < count then strnlen s₁ max₁ else count)
      then strnlen s₂ max₂ else (if strnlen s₁ max₁ < count then strnlen s₁ max₁ else count)) =
      min (cut s₁ max₁ count).length (cut s₂ max₂ count).length := by
    rw [length_cut, length_cut]
    split <;> split at * <;> omega
  simp only [strncmpS, compareWith, Bool.true_eq_false, if_false, Option.isNone_some, Bool.false_eq_true,
    false_or, h₁.ne', h₂.ne', Option.getD_some, hmin]
  rw [memcmp_of_front (cut_isPrefix_self s₁ max₁ count) (cut_isPrefix_self s₂ max₂ count)
    (Nat.min_le_left _ _) (Nat.min_le_right _ _)]

/-- What `strcmp_s` returns for strings that are shorter than their bounds. -/
theorem strcmpS_eq (h₁ : 0 < max₁) (h₂ : 0 < max₂) (ha : strnlen a max₁ = a.length)
    (hb : strnlen b max₂ = b.length) :
    strcmpS (some a) max₁ (some b) max₂ true =
      (.eok, some (if memcmp a b (min a.length b.length) ≠ 0 then memcmp a b (min a.length b.length)
        else if a.length < b.length then -1 else if b.length < a.length then 1 else 0)) := by
  have hmin : (if a.length < b.length then a.length else b.length) = min a.length b.length := by
    split <;> omega
  simp only [strcmpS, compareWith, Bool.true_eq_false, if_false, Option.isNone_some, Bool.false_eq_true,
    false_or, h₁.ne', h₂.ne', Option.getD_some, ha, hb, hmin]

/-- **Agreement of the comparisons.** For all strings, positive bounds and counts, `strncmp_s` has the sign
    of `strcmp_s` on the strings that are cut exactly if none of these is a proper prefix of the
    other. -/
theorem strncmpS_sameSign_iff (h₁ : 0 < max₁) (h₂ : 0 < max₂) (s₁ s₂ : List UInt8) (count : ℕ) :
    SameSign s₁ max₁ s₂ max₂ count ↔
      (cut s₁ max₁ count <+: cut s₂ max₂ count ∨ cut s₂ max₂ count <+: cut s₁ max₁ count →
        cut s₁ max₁ count = cut s₂ max₂ count) := by
  have hstrncmp := strncmpS_eq h₁ h₂ s₁ s₂ count
  have hstrcmp := strcmpS_eq h₁ h₂ (strnlen_cut s₁ max₁ count) (strnlen_cut s₂ max₂ count)
  unfold SameSign
  rw [hstrncmp, hstrcmp]
  generalize cut s₁ max₁ count = a, cut s₂ max₂ count = b
  have hzero : memcmp a b (min a.length b.length) = 0 ↔ a <+: b ∨ b <+: a :=
    (memcmp_eq_zero_iff (Nat.min_le_left _ _) (Nat.min_le_right _ _)).trans take_min_eq_iff
  rw [← hzero]
  generalize memcmp a b (min a.length b.length) = cmp at hzero
  simp only [Prod.mk.injEq, true_and, Option.some.injEq, exists_and_left, exists_eq_left']
  by_cases hcmp : cmp = 0
  · have hlength := eq_iff_of_comparable (hzero.mp hcmp)
    simp only [hcmp, ne_eq, not_true_eq_false, if_false, true_implies, hlength]
    split
    · exact iff_of_false (by decide) (by omega)
    · split
      · exact iff_of_false (by decide) (by omega)
      · exact iff_of_true rfl (by omega)
  · simp only [hcmp, ne_eq, not_false_eq_true, if_true, false_implies]

end compare

theorem strncmpS_sameSign_iff_test :
    strncmpS (some [72, 101, 108, 108, 111]) 16 (some [72, 101, 108, 105, 117, 109]) 16 3 true = (.eok, some 0) ∧
    SameSign [72, 101, 108, 108, 111] 16 [72, 101, 108, 105, 117, 109] 16 3 :=
  ⟨by decide, (strncmpS_sameSign_iff (by decide) (by decide) _ _ 3).mpr fun _ => by decide⟩

/-- `"ab"` and `"abc"`: equal for `strncmp_s` with a count of 3, and less for `strcmp_s`. -/
theorem strncmpS_ignores_length :
    strncmpS (some [97, 98]) 16 (some [97, 98, 99]) 16 3 true = (.eok, some 0) ∧
    strcmpS (some [97, 98]) 16 (some [97, 98, 99]) 16 true = (.eok, some (-1)) ∧
    ¬ SameSign [97, 98] 16 [97, 98, 99] 16 3 := by
  refine ⟨by decide, by decide, ?_⟩
  rintro ⟨r, r', hr, hr', hsign⟩
  cases hr
  cases hr'
  exact absurd hsign (by decide)

end SiLog.Securec
