import Mathlib.Data.List.TakeWhile
import SiLog.Lib.Printf

/-! # Bounded text functions (`silog_securec.c`)

    An array is the list of its bytes, and a string is what stands before the
    first NUL.  `snprintf_s` cuts the text off where the array ends and returns
    the length of the whole text, as `vsnprintf` does; its callers take the
    number for what was written.
-/

open Printf

namespace SiLog.Securec

/-! ## Section 1: Strings in arrays -/

/-- The string in an array; `none` if the array has no NUL. -/
def cString (a : List UInt8) : Option (List UInt8) :=
  if 0 ∈ a then some (a.takeWhile (· ≠ 0)) else none

/-- A text and a NUL at the start of an array. -/
def store (dest t : List UInt8) : List UInt8 := t ++ [0] ++ dest.drop (t.length + 1)

/-- `strnlen` of an array. -/
def strnlen (a : List UInt8) (maxlen : ℕ) : ℕ := ((a.take maxlen).takeWhile (· ≠ 0)).length

theorem zero_notMem_takeWhile (a : List UInt8) : 0 ∉ a.takeWhile (· ≠ 0) := by
  intro h
  have hne := List.mem_takeWhile_imp h
  simp at hne

theorem takeWhile_of_notMem {t : List UInt8} (ht : 0 ∉ t) : t.takeWhile (· ≠ 0) = t := by
  rw [List.takeWhile_eq_self_iff]
  intro b hb
  rw [decide_eq_true_eq]
  rintro rfl
  exact ht hb

/-- Nothing behind a NUL counts. -/
theorem takeWhile_append_nul (t rest : List UInt8) :
    (t ++ [0] ++ rest).takeWhile (· ≠ 0) = t.takeWhile (· ≠ 0) := by
  induction t with
  | nil => rfl
  | cons b t ih =>
    rw [List.cons_append, List.cons_append, List.takeWhile_cons, List.takeWhile_cons, ih]

theorem cString_eq {a t : List UInt8} (h : t ++ [0] <+: a) : cString a = some (t.takeWhile (· ≠ 0)) := by
  have hmem : 0 ∈ a := h.subset (List.mem_append_right t (List.mem_singleton_self 0))
  obtain ⟨rest, rfl⟩ := h
  unfold cString
  rw [if_pos hmem, takeWhile_append_nul]

theorem cString_of_prefix {a t : List UInt8} (h : t ++ [0] <+: a) (ht : 0 ∉ t) :
    cString a = some t := by
  rw [cString_eq h, takeWhile_of_notMem ht]

theorem takeWhile_of_cString {a t : List UInt8} (h : cString a = some t) : a.takeWhile (· ≠ 0) = t := by
  unfold cString at h
  split at h
  · exact Option.some.inj h
  · cases h

/-- The string of an array is shorter than the array and has no NUL. -/
theorem cString_eq_some {a t : List UInt8} (h : cString a = some t) : t.length < a.length ∧ 0 ∉ t := by
  have hnot := zero_notMem_takeWhile a
  have hmem : 0 ∈ a := by
    by_contra hmem
    unfold cString at h
    rw [if_neg hmem] at h
    cases h
  obtain rfl := takeWhile_of_cString h
  refine ⟨?_, hnot⟩
  refine lt_of_le_of_ne (List.takeWhile_prefix _).length_le fun heq => hnot ?_
  rw [(List.takeWhile_prefix _).eq_of_length heq]
  exact hmem

/-- A NUL at or behind the end of the string. -/
theorem prefix_set {a t : List UInt8} {i : ℕ} (h : t ++ [0] <+: a) (hi : t.length ≤ i) :
    t ++ [0] <+: a.set i 0 := by
  obtain ⟨rest, rfl⟩ := h
  rw [List.append_assoc, List.set_append]
  split
  next hlt => omega
  next =>
    refine (List.prefix_append_right_inj _).mpr ?_
    cases i - t.length with
    | zero => exact List.prefix_append [0] _
    | succ k => exact List.prefix_append [0] _

theorem length_store {dest t : List UInt8} (h : t.length < dest.length) :
    (store dest t).length = dest.length := by
  unfold store
  simp
  omega

/-! ## Section 2: Formatted text -/

/-- The largest `int`. -/
def intMax : ℕ := 2 ^ 31 - 1

/-- `vsnprintf` of the C library: the number it returns, and the array with what fits into `size`
    bytes.  A text longer than `INT_MAX` is an error; `none` is undefined behaviour. -/
def vsnprintf (dest : List UInt8) (size : ℕ) : Output → Option (ℤ × List UInt8)
  | .undefined => none
  | .failed => some (-1, dest)
  | .text t =>
    if intMax < t.length then some (-1, dest)
    else if size = 0 then some (t.length, dest)
    else some (t.length, store dest (t.take (size - 1)))

/-- A size that the array has keeps the call inside the array. -/
theorem vsnprintf_length {dest : List UInt8} {size : ℕ} {output : Output} (hout : output ≠ .undefined)
    (hsize : size ≤ dest.length) :
    ∃ result dest', vsnprintf dest size output = some (result, dest') ∧ dest'.length = dest.length := by
  cases output with
  | undefined => exact absurd rfl hout
  | failed => exact ⟨-1, dest, rfl, rfl⟩
  | text t =>
    unfold vsnprintf
    dsimp only
    split
    · exact ⟨-1, dest, rfl, rfl⟩
    · split
      · exact ⟨t.length, dest, rfl, rfl⟩
      next hpos =>
        have hcut : (t.take (size - 1)).length ≤ size - 1 := List.length_take_le _ _
        exact ⟨t.length, _, rfl, length_store (by omega)⟩

/-- `snprintf_s`; `none` for an array or a format is a NULL pointer. -/
def snprintfS (convert : Conversion → List Arg → Option (List UInt8)) (dest : Option (List UInt8))
    (destMax count : ℕ) (format : Option (List UInt8)) (args : List Arg) :
    Option (ℤ × Option (List UInt8)) :=
  match dest with
  | none => some (-1, none)
  | some dest =>
    if destMax = 0 then some (-1, some dest)
    else
      match format with
      | none => some (-1, some (dest.set 0 0))
      | some fmt =>
        let maxWrite := if count < destMax - 1 then count else destMax - 1
        (vsnprintf dest (maxWrite + 1) (vprintf convert fmt args)).map fun (result, dest) =>
          if result < 0 then (-1, some (dest.set 0 0)) else (result, some (dest.set maxWrite 0))

/-- `vsnprintf_s`; its body is that of `snprintf_s`. -/
def vsnprintfS (convert : Conversion → List Arg → Option (List UInt8)) (dest : Option (List UInt8))
    (destMax count : ℕ) (format : Option (List UInt8)) (argList : List Arg) :
    Option (ℤ × Option (List UInt8)) :=
  snprintfS convert dest destMax count format argList

section snprintf
variable {convert : Conversion → List Arg → Option (List UInt8)} {dest fmt t : List UInt8}
  {args : List Arg} {destMax count n : ℕ}

/-- What `snprintf_s` stores and returns. -/
theorem snprintfS_stores (htext : vprintf convert fmt args = .text t) (hpos : 0 < destMax)
    (hdest : destMax ≤ dest.length) (count : ℕ) (hle : t.length ≤ intMax) :
    ∃ dest', snprintfS convert (some dest) destMax count (some fmt) args =
        some ((t.length : ℤ), some dest') ∧
      dest'.length = dest.length ∧ t.take (min count (destMax - 1)) ++ [0] <+: dest' := by
  have hcut : (t.take (min count (destMax - 1))).length ≤ min count (destMax - 1) := List.length_take_le _ t
  have hnot : ¬ (t.length : ℤ) < 0 := by omega
  have hmax : (if count < destMax - 1 then count else destMax - 1) = min count (destMax - 1) := by
    split <;> omega
  refine ⟨(store dest (t.take (min count (destMax - 1)))).set (min count (destMax - 1)) 0, ?_, ?_, ?_⟩
  · unfold snprintfS
    simp only [htext, vsnprintf, if_neg hpos.ne', if_neg (not_lt.mpr hle), hmax, Nat.add_sub_cancel,
      Nat.add_one_ne_zero, if_false, Option.map_some, if_neg hnot]
  · rw [List.length_set, length_store (by omega)]
  · exact prefix_set (List.prefix_append _ _) hcut

/-- The same for `snprintf_s(dest, n + 1, n, ...)`. -/
theorem snprintfS_text (htext : vprintf convert fmt args = .text t) (hdest : dest.length = n + 1)
    (hle : t.length ≤ intMax) :
    ∃ dest', snprintfS convert (some dest) (n + 1) n (some fmt) args =
        some ((t.length : ℤ), some dest') ∧
      dest'.length = n + 1 ∧ t.take n ++ [0] <+: dest' := by
  obtain ⟨dest', heq, hlen, hpre⟩ := snprintfS_stores htext (Nat.add_one_pos n) hdest.ge n hle
  rw [Nat.add_sub_cancel, min_self] at hpre
  exact ⟨dest', heq, hlen.trans hdest, hpre⟩

theorem snprintfS_too_long (htext : vprintf convert fmt args = .text t) (hpos : 0 < destMax)
    (hlt : intMax < t.length) :
    snprintfS convert (some dest) destMax count (some fmt) args = some (-1, some (dest.set 0 0)) := by
  unfold snprintfS
  simp only [htext, vsnprintf, if_pos hlt, if_neg hpos.ne', Option.map_some]
  rfl

/-- Whatever the text is, the array holds a string afterwards. -/
theorem snprintfS_string (htext : vprintf convert fmt args = .text t) (hnul : 0 ∉ t)
    (hdest : dest.length = n + 1) :
    ∃ r dest' s, snprintfS convert (some dest) (n + 1) n (some fmt) args = some (r, some dest') ∧
      dest'.length = n + 1 ∧ s ++ [0] <+: dest' ∧ s.length ≤ n ∧ 0 ∉ s := by
  by_cases hle : t.length ≤ intMax
  · obtain ⟨dest', heq, hlen, hpre⟩ := snprintfS_text htext hdest hle
    exact ⟨_, dest', _, heq, hlen, hpre, List.length_take_le n t, fun h => hnul (List.mem_of_mem_take h)⟩
  · obtain ⟨b, rest, rfl⟩ := List.exists_cons_of_length_eq_add_one hdest
    refine ⟨_, _, [], snprintfS_too_long htext (Nat.add_one_pos n) (not_le.mp hle), ?_,
      List.prefix_append [0] rest, Nat.zero_le n, List.not_mem_nil⟩
    rw [List.length_set, hdest]

/-- The array holds the first bytes of the text, up to both limits, and the number returned is
    theirs; a negative number says nothing. -/
def Reports (call : Option (ℤ × Option (List UInt8))) (destMax count : ℕ) (t : List UInt8) : Prop :=
  ∃ r dest', call = some (r, some dest') ∧
    (0 ≤ r → cString dest' = some (t.take (min count (destMax - 1))) ∧
      r = (t.take (min count (destMax - 1))).length)

/-- **What the formatters report.** `snprintf_s` and `vsnprintf_s` return the number of bytes written
    exactly if the text is not cut off, or too long for an `int`. -/
theorem snprintfS_reports_iff (htext : vprintf convert fmt args = .text t) (hnul : 0 ∉ t)
    (hpos : 1 ≤ destMax) (hdest : destMax ≤ dest.length) (count : ℕ) :
    Reports (snprintfS convert (some dest) destMax count (some fmt) args) destMax count t ∧
      Reports (vsnprintfS convert (some dest) destMax count (some fmt) args) destMax count t ↔
    t.length ≤ min count (destMax - 1) ∨ intMax < t.length := by
  unfold vsnprintfS
  rw [and_self]
  by_cases hle : t.length ≤ intMax
  · obtain ⟨dest', heq, _, hpre⟩ := snprintfS_stores htext hpos hdest count hle
    have hstring : cString dest' = some (t.take (min count (destMax - 1))) :=
      cString_of_prefix hpre fun h => hnul (List.mem_of_mem_take h)
    rw [or_iff_left (not_lt.mpr hle)]
    constructor
    · rintro ⟨r, dest'', heq', h⟩
      rw [heq] at heq'
      cases heq'
      obtain ⟨_, hlen⟩ := h (Int.natCast_nonneg _)
      rw [List.length_take] at hlen
      omega
    · intro hfits
      refine ⟨_, dest', heq, fun _ => ⟨hstring, ?_⟩⟩
      rw [List.length_take]
      omega
  · -- the number is -1
    refine iff_of_true ⟨_, _, snprintfS_too_long htext hpos (not_le.mp hle), fun h => ?_⟩
      (Or.inr (not_le.mp hle))
    exact absurd h (by decide)

end snprintf

theorem snprintfS_reports_iff_fits :
    Reports (snprintfS convertPlain (some (List.replicate 16 1)) 16 15 (some (ascii "%s=%d"))
      [.str (ascii "len"), .int 42]) 16 15 (ascii "len=42") :=
  ((snprintfS_reports_iff rfl (by decide) (by decide) (by decide) 15).mpr (Or.inl (by decide))).1

/-- `snprintf_s(dest, 16, 5, "Hello World")` writes 5 bytes and returns 11. -/
theorem snprintfS_returns_whole_length :
    vprintf convertPlain (ascii "Hello World") [] = .text (ascii "Hello World") ∧
    (∃ dest', snprintfS convertPlain (some (List.replicate 16 1)) 16 5 (some (ascii "Hello World")) [] =
        some (11, some dest') ∧ cString dest' = some (ascii "Hello")) ∧
    ¬ Reports (snprintfS convertPlain (some (List.replicate 16 1)) 16 5 (some (ascii "Hello World")) [])
      16 5 (ascii "Hello World") := by
  refine ⟨rfl, ⟨_, rfl, by decide⟩, ?_⟩
  rintro ⟨r, dest', heq, h⟩
  cases heq
  exact absurd (h (by decide)).2 (by decide)

/-! ## Section 3: Concatenation -/

/-- The results of the string functions. -/
inductive Errno where
  | eok | einval | erange
  deriving DecidableEq

/-- `strncat_s`; `none` is a NULL pointer and `src` is given without its NUL. -/
def strncatS (dest : Option (List UInt8)) (destMax : ℕ) (src : Option (List UInt8)) (count : ℕ) :
    Errno × Option (List UInt8) :=
  match dest with
  | none => (.einval, none)
  | some dest =>
    if destMax = 0 then (.einval, some dest)
    else
      match src with
      | none => (.einval, some dest)
      | some src =>
        let destLen := strnlen dest destMax
        let srcLen := min count src.length
        if destMax ≤ destLen + srcLen then (.erange, some dest)
        else (.eok, some (store dest (dest.take destLen ++ src.take srcLen)))

end SiLog.Securec
