import Mathlib.Algebra.Group.Nat.Defs
import Mathlib.Data.List.Basic
import Mathlib.Data.Int.Notation

/-! # Format strings of the C library

    A format is a list of bytes.  It is read as literal bytes and conversion
    specifications; `%%` is a literal.  Every conversion specification takes
    at least one argument, and one more for each `*`.

    What a conversion writes is a parameter, `convert`.  A format that is
    malformed, or an argument that is missing or of another type, is
    undefined behaviour.
-/

namespace Printf

/-! ## Section 1: Conversion specifications -/

/-- A field width or a precision. -/
inductive Size where
  | number (n : ℕ)
  | star
  deriving DecidableEq

/-- A length modifier. -/
inductive Length where
  | none | hh | h | l | ll | j | z | t | L
  deriving DecidableEq

/-- A conversion specifier other than `%`. -/
inductive Specifier where
  | d | i | o | u | x | X | f | F | e | E | g | G | a | A | c | s | p | n
  deriving DecidableEq

structure Conversion where
  flags     : List UInt8
  width     : Option Size
  precision : Option Size
  length    : Length
  specifier : Specifier
  deriving DecidableEq

inductive Directive where
  | literal (b : UInt8)
  | conversion (c : Conversion)
  deriving DecidableEq

def Directive.isLiteral : Directive → Bool
  | .literal _ => true
  | .conversion _ => false

/-! ## Section 2: Reading a format -/

def percent : UInt8 := 37

def isFlag (b : UInt8) : Bool :=
  match Char.ofNat b.toNat with
  | '-' | '+' | ' ' | '#' | '0' => true
  | _ => false

def isDigit (b : UInt8) : Bool := (Char.ofNat b.toNat).isDigit

/-- The number that the digits spell. -/
def number (ds : List UInt8) : ℕ := ds.foldl (fun n b => 10 * n + (b.toNat - 48)) 0

/-- A `*` or a number, if there is one. -/
def parseSize (l : List UInt8) : Option Size × List UInt8 :=
  match l with
  | [] => (none, [])
  | b :: rest =>
    if Char.ofNat b.toNat = '*' then (some .star, rest)
    else if isDigit b then (some (.number (number (l.takeWhile isDigit))), l.dropWhile isDigit)
    else (none, l)

/-- A precision; a lone `.` is a precision of zero. -/
def parsePrecision (l : List UInt8) : Option Size × List UInt8 :=
  match l with
  | [] => (none, [])
  | b :: rest =>
    if Char.ofNat b.toNat = '.' then
      let r := parseSize rest
      (some (r.1.getD (.number 0)), r.2)
    else (none, l)

def parseLength (l : List UInt8) : Length × List UInt8 :=
  match l.map fun b => Char.ofNat b.toNat with
  | 'h' :: 'h' :: _ => (.hh, l.drop 2)
  | 'h' :: _ => (.h, l.drop 1)
  | 'l' :: 'l' :: _ => (.ll, l.drop 2)
  | 'l' :: _ => (.l, l.drop 1)
  | 'j' :: _ => (.j, l.drop 1)
  | 'z' :: _ => (.z, l.drop 1)
  | 't' :: _ => (.t, l.drop 1)
  | 'L' :: _ => (.L, l.drop 1)
  | _ => (.none, l)

def Specifier.ofByte (b : UInt8) : Option Specifier :=
  match Char.ofNat b.toNat with
  | 'd' => some .d | 'i' => some .i | 'o' => some .o | 'u' => some .u
  | 'x' => some .x | 'X' => some .X | 'f' => some .f | 'F' => some .F
  | 'e' => some .e | 'E' => some .E | 'g' => some .g | 'G' => some .G
  | 'a' => some .a | 'A' => some .A | 'c' => some .c | 's' => some .s
  | 'p' => some .p | 'n' => some .n
  | _ => none

/-- The length modifiers that go with a specifier. -/
def Specifier.accepts : Specifier → Length → Bool
  | .d, m | .i, m | .o, m | .u, m | .x, m | .X, m | .n, m => m ≠ .L
  | .f, m | .F, m | .e, m | .E, m | .g, m | .G, m | .a, m | .A, m =>
    m = .none ∨ m = .l ∨ m = .L
  | .c, m | .s, m => m = .none ∨ m = .l
  | .p, m => m = .none

/-- A conversion specification behind its `%`, and the rest of the format. -/
def parseConversion (l : List UInt8) : Option (Conversion × List UInt8) :=
  let flags := l.takeWhile isFlag
  let width := parseSize (l.dropWhile isFlag)
  let precision := parsePrecision width.2
  let length := parseLength precision.2
  match length.2 with
  | [] => none
  | b :: rest =>
    (Specifier.ofByte b).bind fun specifier =>
      if specifier.accepts length.1 then
        some ({ flags := flags, width := width.1, precision := precision.1, length := length.1
                specifier := specifier }, rest)
      else none

/-- The directives of a format; every turn reads a byte, so the length is enough
    fuel. -/
def parseLoop : ℕ → List UInt8 → Option (List Directive)
  | _, [] => some []
  | 0, _ :: _ => none
  | fuel + 1, b :: rest =>
    if b ≠ percent then (parseLoop fuel rest).map (.literal b :: ·)
    else if rest.head? = some percent then
      (parseLoop fuel rest.tail).map (.literal percent :: ·)
    else
      (parseConversion rest).bind fun r => (parseLoop fuel r.2).map (.conversion r.1 :: ·)

/-- `none` if the format is malformed. -/
def parse (fmt : List UInt8) : Option (List Directive) := parseLoop fmt.length fmt

/-- The format is well formed and takes no argument. -/
def takesNone (fmt : List UInt8) : Bool :=
  match parse fmt with
  | some ds => ds.all Directive.isLiteral
  | none => false

/-! ## Section 3: Arguments -/

/-- The type of an argument, up to the signedness of a number. -/
inductive Kind where
  | integer (m : Length)
  | floating (m : Length)
  | character (m : Length)
  | string (m : Length)
  | pointer
  | count (m : Length)
  deriving DecidableEq

/-- An argument: a number or an address, and the bytes behind the address. -/
structure Arg where
  kind  : Kind
  value : ℤ
  bytes : List UInt8

def Specifier.kind (m : Length) : Specifier → Kind
  | .d | .i | .o | .u | .x | .X => .integer m
  -- the modifier `l` has no effect here
  | .f | .F | .e | .E | .g | .G | .a | .A => .floating (if m = .l then .none else m)
  | .c => .character m
  | .s => .string m
  | .p => .pointer
  | .n => .count m

/-- The `int` that a `*` takes. -/
def starKinds : Option Size → List Kind
  | some .star => [.integer .none]
  | _ => []

/-- The types of the arguments that a conversion takes. -/
def Conversion.kinds (c : Conversion) : List Kind :=
  starKinds c.width ++ starKinds c.precision ++ [c.specifier.kind c.length]

/-! ## Section 4: Writing -/

/-- What a call writes.  It may also fail, with a negative return value. -/
inductive Output where
  | undefined
  | failed
  | text (t : List UInt8)

/-- A text in front. -/
def Output.prepend (t : List UInt8) : Output → Output
  | .text u => .text (t ++ u)
  | o => o

variable (convert : Conversion → List Arg → Option (List UInt8))

/-- The output of the directives.  Arguments that are left over are ignored. -/
def render : List Directive → List Arg → Output
  | [], _ => .text []
  | .literal b :: ds, args => (render ds args).prepend [b]
  | .conversion c :: ds, args =>
    let taken := args.take c.kinds.length
    if taken.map Arg.kind = c.kinds then
      match convert c taken with
      | some t => (render ds (args.drop c.kinds.length)).prepend t
      | none => .failed
    else .undefined

/-- The text that a function of the `printf` family makes of a format and its
    arguments. -/
def vprintf (fmt : List UInt8) (args : List Arg) : Output :=
  match parse fmt with
  | some ds => render convert ds args
  | none => .undefined

/-! ## Section 5: Formats that take no argument -/

/-- Literals do not look at the arguments. -/
theorem render_of_literals {ds : List Directive} (h : ds.all Directive.isLiteral)
    (args : List Arg) : ∃ t, render convert ds args = .text t ∧ render convert ds [] = .text t := by
  induction ds with
  | nil => exact ⟨[], rfl, rfl⟩
  | cons d ds ih =>
    rw [List.all_cons, Bool.and_eq_true] at h
    cases d with
    | literal b =>
      obtain ⟨t, hargs, hnil⟩ := ih h.2
      exact ⟨[b] ++ t, by rw [render, hargs]; rfl, by rw [render, hnil]; rfl⟩
    | conversion c => exact nomatch h.1

/-- A conversion without its arguments is undefined. -/
theorem render_nil_of_conversion {ds : List Directive} (h : ¬ ds.all Directive.isLiteral) :
    render convert ds [] = .undefined := by
  induction ds with
  | nil => exact absurd rfl h
  | cons d ds ih =>
    cases d with
    | literal b =>
      have hrest : ¬ ds.all Directive.isLiteral := by simpa [Directive.isLiteral] using h
      rw [render, ih hrest]
      rfl
    | conversion c =>
      -- it takes at least one argument, and there is none
      have hne : ¬ ([] : List Kind) = c.kinds := by simp [Conversion.kinds]
      rw [render, List.take_nil, List.map_nil]
      exact if_neg hne

/-- A format that takes no argument writes the same text whatever is passed to it. -/
theorem vprintf_of_takesNone {fmt : List UInt8} (h : takesNone fmt) (args : List Arg) :
    ∃ t, vprintf convert fmt args = .text t ∧ vprintf convert fmt [] = .text t := by
  unfold takesNone at h
  unfold vprintf
  cases hparse : parse fmt with
  | some ds =>
    rw [hparse] at h
    exact render_of_literals convert h args
  | none =>
    rw [hparse] at h
    cases h

/-- Any other format is undefined without arguments. -/
theorem vprintf_nil_of_not_takesNone {fmt : List UInt8} (h : ¬ takesNone fmt) :
    vprintf convert fmt [] = .undefined := by
  unfold takesNone at h
  unfold vprintf
  cases hparse : parse fmt with
  | some ds =>
    rw [hparse] at h
    exact render_nil_of_conversion convert h
  | none => rfl

theorem parseLoop_of_no_percent {fmt : List UInt8} (h : percent ∉ fmt) {fuel : ℕ}
    (hfuel : fmt.length ≤ fuel) : parseLoop fuel fmt = some (fmt.map .literal) := by
  induction fmt generalizing fuel with
  | nil => cases fuel <;> rfl
  | cons b fmt ih =>
    rw [List.mem_cons, not_or] at h
    cases fuel with
    | zero => exact absurd hfuel (Nat.not_succ_le_zero _)
    | succ fuel =>
      rw [parseLoop, if_pos (Ne.symm h.1), ih h.2 (Nat.le_of_succ_le_succ hfuel)]
      rfl

theorem render_literals (t : List UInt8) (args : List Arg) :
    render convert (t.map .literal) args = .text t := by
  induction t with
  | nil => rfl
  | cons b t ih =>
    rw [List.map_cons, render, ih]
    rfl

/-- A format without a `%` is its own text. -/
theorem vprintf_of_no_percent {fmt : List UInt8} (h : percent ∉ fmt) (args : List Arg) :
    vprintf convert fmt args = .text fmt := by
  unfold vprintf parse
  rw [parseLoop_of_no_percent h (Nat.le_refl _)]
  exact render_literals convert fmt args

/-! ## Section 6: Strings and decimal numbers -/

/-- The bytes of a string literal. -/
def ascii (s : String) : List UInt8 := s.toList.map Char.toUInt8

def decimal (n : ℕ) : List UInt8 := (Nat.toDigits 10 n).map Char.toUInt8

/-- A number with zeros in front of its digits up to a width. -/
def integer (width : ℕ) (z : ℤ) : List UInt8 :=
  let digits := decimal z.natAbs
  if z < 0 then 45 :: (List.replicate (width - 1 - digits.length) 48 ++ digits)
  else List.replicate (width - digits.length) 48 ++ digits

/-- A width behind the flag `0`; zero if there is neither. -/
def Conversion.zeroWidth (c : Conversion) : Option ℕ :=
  match c.flags, c.width with
  | [], none => some 0
  | [48], some (.number n) => some n
  | _, _ => none

/-- What `%s`, `%d` and `%u` write, the numbers also with the flag `0` and a width. -/
def convertPlain (c : Conversion) : List Arg → Option (List UInt8)
  | [arg] =>
    if c.precision ≠ none ∨ c.length ≠ .none then none
    else
      match c.specifier, c.zeroWidth with
      | .d, some width | .u, some width => some (integer width arg.value)
      | .s, some 0 => some arg.bytes
      | _, _ => none
  | _ => none

/-- An `int` or `unsigned int` argument. -/
def Arg.int (z : ℤ) : Arg := { kind := .integer .none, value := z, bytes := [] }

/-- A string argument, without its NUL. -/
def Arg.str (s : List UInt8) : Arg := { kind := .string .none, value := 0, bytes := s }

theorem length_decimal_le {n k : ℕ} (hk : 0 < k) (h : n < 10 ^ k) : (decimal n).length ≤ k := by
  unfold decimal
  rw [List.length_map]
  exact (Nat.length_toDigits_le_iff (by decide) hk).mpr h

theorem toUInt8_ne_zero {c : Char} (h : c.isDigit = true) : c.toUInt8 ≠ 0 := by
  unfold Char.isDigit at h
  rw [Bool.and_eq_true, decide_eq_true_eq, decide_eq_true_eq] at h
  obtain ⟨hge, hle⟩ := h
  intro hzero
  have hnat := congrArg UInt8.toNat hzero
  rw [Char.toUInt8, UInt32.toNat_toUInt8] at hnat
  have hlow : 48 ≤ c.val.toNat := hge
  have hhigh : c.val.toNat ≤ 57 := hle
  have hsmall : c.val.toNat % 2 ^ 8 = c.val.toNat := Nat.mod_eq_of_lt (by omega)
  rw [hsmall, UInt8.toNat_zero] at hnat
  omega

theorem zero_notMem_decimal (n : ℕ) : 0 ∉ decimal n := by
  intro h
  obtain ⟨c, hc, hzero⟩ := List.mem_map.mp h
  exact toUInt8_ne_zero (Nat.isDigit_of_mem_toDigits (by decide) (by decide) hc) hzero

theorem zero_notMem_integer (width : ℕ) (z : ℤ) : 0 ∉ integer width z := by
  have hdigits := zero_notMem_decimal z.natAbs
  unfold integer
  dsimp only
  split
  · simp [hdigits]
  · simp [hdigits]

/-- Without a width a number has its digits and perhaps a sign. -/
theorem length_integer_le {z : ℤ} {k : ℕ} (hk : 0 < k) (h : z.natAbs < 10 ^ k) :
    (integer 0 z).length ≤ k + if z < 0 then 1 else 0 := by
  have hdigits := length_decimal_le hk h
  unfold integer
  dsimp only
  rw [Nat.zero_sub, List.replicate_zero, List.nil_append]
  split
  · rw [List.length_cons]
    omega
  · omega

/-! ## Section 7: Spaces in front and characters -/

/-- A number with spaces in front up to a width. -/
def padded (width : ℕ) (z : ℤ) : List UInt8 :=
  let t := integer 0 z
  List.replicate (width - t.length) 32 ++ t

/-- Besides, what `%d` with a width and `%c` write. -/
def convertSpaced (c : Conversion) (args : List Arg) : Option (List UInt8) :=
  match args with
  | [arg] =>
    if c.flags = [] ∧ c.precision = none ∧ c.length = .none then
      match c.specifier, c.width with
      | .d, some (.number n) => some (padded n arg.value)
      | .c, none => some [UInt8.ofInt arg.value]
      | _, _ => convertPlain c args
    else convertPlain c args
  | _ => convertPlain c args

/-- A `char` argument. -/
def Arg.char (b : UInt8) : Arg := { kind := .character .none, value := b.toNat, bytes := [] }

end Printf
