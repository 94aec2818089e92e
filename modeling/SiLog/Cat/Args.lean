import SiLog.Lib.Printf
import Mathlib.Data.List.TakeWhile

/-! # The command line of `silogcat` (`silog_cat.c`)

    `SilogCatParseArgs` walks over `argv[1..argc)` and changes the
    configuration option by option.  It returns 0 at the end of the list, ends
    the process at `-h`, and returns -1 at an option without its argument or
    at a word that is no option.

    The command lines that it accepts are a language: sequences of options,
    each with its argument behind it.  The result is read off the sequence,
    and every other command line fails at the first word that does not belong
    to one.
-/

open Printf

namespace SiLog.Cat

/-! ## Section 1: The configuration -/

/-- A string in an array of `n` characters. -/
structure Text (n : ℕ) where
  bytes : List UInt8
  noNul : 0 ∉ bytes
  lt    : bytes.length < n

/-- `strncpy(dest, src, n)` into an array of `n + 1` characters whose last one is a NUL. -/
def Text.copy (n : ℕ) (src : List UInt8) : Text (n + 1) where
  bytes := (src.takeWhile (· ≠ 0)).take n
  noNul := fun h => by
    have hne := List.mem_takeWhile_imp (List.mem_of_mem_take h)
    simp at hne
  lt := by
    rw [List.length_take]
    omega

/-- `SilogCatConfig` -/
structure SilogCatConfig where
  serverAddr : Text 64
  serverPort : UInt16
  filterTag  : Text 32
  minLevel   : UInt32
  useColor   : Bool

/-- The initial value of `g_silogCatConfig`. -/
def SilogCatConfig.initial : SilogCatConfig where
  serverAddr := .copy 63 (ascii "127.0.0.1")
  serverPort := 9090
  filterTag := .copy 31 []
  minLevel := 0
  useColor := false

/-! ## Section 2: The words of the command line -/

/-- An element of `argv`, without its NUL. -/
abbrev Word : Type := List UInt8

/-- `tolower` -/
def lower (b : UInt8) : UInt8 := if 65 ≤ b ∧ b ≤ 90 then b + 32 else b

/-- `strcasecmp(s, t) == 0` -/
def sameIgnoringCase (s t : Word) : Bool := s.map lower = t.map lower

/-- `SilogCatParseLevel` -/
def silogCatParseLevel (levelStr : Word) : UInt32 :=
  if sameIgnoringCase levelStr (ascii "DEBUG") ∨ sameIgnoringCase levelStr (ascii "D") then 0
  else if sameIgnoringCase levelStr (ascii "INFO") ∨ sameIgnoringCase levelStr (ascii "I") then 1
  else if sameIgnoringCase levelStr (ascii "WARN") ∨ sameIgnoringCase levelStr (ascii "W") then 2
  else if sameIgnoringCase levelStr (ascii "ERROR") ∨ sameIgnoringCase levelStr (ascii "E") then 3
  else if sameIgnoringCase levelStr (ascii "FATAL") ∨ sameIgnoringCase levelStr (ascii "F") then 4
  else 0

/-- `isspace` -/
def isSpace (b : UInt8) : Bool := b = 32 ∨ (9 ≤ b ∧ b ≤ 13)

/-- `atoi`: white space, a sign and digits, as far as they go.  A number that is no `int` is
    undefined behaviour. -/
def atoi (s : Word) : Option ℤ :=
  let s := s.dropWhile isSpace
  let digits := if s.head? = some 45 ∨ s.head? = some 43 then s.tail else s
  let n : ℤ := number (digits.takeWhile isDigit)
  let z := if s.head? = some 45 then -n else n
  if -2147483648 ≤ z ∧ z ≤ 2147483647 then some z else none

/-! ## Section 3: `SilogCatParseArgs` -/

/-- How the function ends.  Nothing reads the configuration unless it returns 0. -/
inductive Outcome where
  /-- It returns 0. -/
  | parsed (config : SilogCatConfig)
  /-- It prints the help and calls `exit(0)`. -/
  | help
  /-- It reports `message` and returns -1. -/
  | missing (message : List UInt8)
  /-- It reports `message`, prints the help and returns -1. -/
  | unknown (message : List UInt8)

/-- `strcmp` with both names of an option. -/
def isOption (arg : Word) (short long : String) : Bool := arg = ascii short ∨ arg = ascii long

/-- `SilogCatParseArgs`, from the words that are left on; `none` is undefined behaviour. -/
def silogCatParseArgs (config : SilogCatConfig) : List Word → Option Outcome
  | [] => some (.parsed config)
  | arg :: rest =>
    if isOption arg "-h" "--help" then some .help
    else if isOption arg "-s" "--server" then
      match rest with
      | [] => some (.missing (ascii "Error: -s requires an argument\n"))
      | addr :: rest =>
        silogCatParseArgs { config with serverAddr := .copy 63 addr } rest
    else if isOption arg "-p" "--port" then
      match rest with
      | [] => some (.missing (ascii "Error: -p requires an argument\n"))
      | port :: rest =>
        (atoi port).bind fun n => silogCatParseArgs { config with serverPort := .ofInt n } rest
    else if isOption arg "-t" "--tag" then
      match rest with
      | [] => some (.missing (ascii "Error: -t requires an argument\n"))
      | tag :: rest => silogCatParseArgs { config with filterTag := .copy 31 tag } rest
    else if isOption arg "-l" "--level" then
      match rest with
      | [] => some (.missing (ascii "Error: -l requires an argument\n"))
      | level :: rest => silogCatParseArgs { config with minLevel := silogCatParseLevel level } rest
    else if isOption arg "-c" "--color" then
      silogCatParseArgs { config with useColor := true } rest
    else some (.unknown (ascii "Unknown option: " ++ arg ++ ascii "\n"))

/-! ## Section 4: The language of command lines -/

/-- The options that take an argument. -/
inductive Key where
  | server
  | port
  | tag
  | level
  deriving DecidableEq

def Key.letter : Key → List UInt8
  | .server => ascii "s"
  | .port => ascii "p"
  | .tag => ascii "t"
  | .level => ascii "l"

def Key.long : Key → List UInt8
  | .server => ascii "server"
  | .port => ascii "port"
  | .tag => ascii "tag"
  | .level => ascii "level"

/-- The two spellings of a name. -/
def spelling (letter long : List UInt8) (isLong : Bool) : Word :=
  if isLong then ascii "--" ++ long else ascii "-" ++ letter

/-- An option as it is given, with its argument. -/
inductive Opt where
  | value (key : Key) (isLong : Bool) (argument : Word)
  | color (isLong : Bool)

def Opt.words : Opt → List Word
  | .value key isLong argument => [spelling key.letter key.long isLong, argument]
  | .color isLong => [spelling (ascii "c") (ascii "color") isLong]

/-- What an option does to the configuration; `none` for a port that is no `int`. -/
def Opt.apply (config : SilogCatConfig) : Opt → Option SilogCatConfig
  | .value .server _ addr => some { config with serverAddr := .copy 63 addr }
  | .value .port _ port => (atoi port).map fun n => { config with serverPort := .ofInt n }
  | .value .tag _ tag => some { config with filterTag := .copy 31 tag }
  | .value .level _ level => some { config with minLevel := silogCatParseLevel level }
  | .color _ => some { config with useColor := true }

/-- The words of some options, one after the other. -/
def Opt.line (opts : List Opt) : List Word := (opts.map Opt.words).flatten

/-- How the words behind the options end the function, with the configuration so far. -/
inductive Ends (config : SilogCatConfig) : List Word → Outcome → Prop where
  | parsed : Ends config [] (.parsed config)
  | help (isLong : Bool) (rest : List Word) :
      Ends config (spelling (ascii "h") (ascii "help") isLong :: rest) .help
  | missing (key : Key) (isLong : Bool) :
      Ends config [spelling key.letter key.long isLong]
        (.missing (ascii "Error: -" ++ key.letter ++ ascii " requires an argument\n"))
  | unknown (word : Word) (rest : List Word)
      (hkey : ∀ (key : Key) isLong, word ≠ spelling key.letter key.long isLong)
      (hcolor : ∀ isLong, word ≠ spelling (ascii "c") (ascii "color") isLong)
      (hhelp : ∀ isLong, word ≠ spelling (ascii "h") (ascii "help") isLong) :
      Ends config (word :: rest) (.unknown (ascii "Unknown option: " ++ word ++ ascii "\n"))

/-! ## Section 5: The function reads the language -/

section parse
variable {config config' : SilogCatConfig} {rest : List Word}

/-- An option in front is applied. -/
theorem parse_option (opt : Opt) (rest : List Word) :
    silogCatParseArgs config (opt.words ++ rest) =
      (opt.apply config).bind fun config' => silogCatParseArgs config' rest := by
  cases opt with
  | value key isLong argument =>
    cases key with
    | port =>
      simp only [Opt.apply, Option.bind_map, Function.comp_def]
      cases isLong
      all_goals rfl
    | _ =>
      cases isLong
      all_goals rfl
  | color isLong =>
    cases isLong
    all_goals
      cases rest
      all_goals rfl

theorem parse_line (opts : List Opt) (rest : List Word) :
    silogCatParseArgs config (Opt.line opts ++ rest) =
      (opts.foldlM Opt.apply config).bind fun config' => silogCatParseArgs config' rest := by
  induction opts generalizing config with
  | nil => rfl
  | cons opt opts ih =>
    have hline : Opt.line (opt :: opts) ++ rest = opt.words ++ (Opt.line opts ++ rest) := by
      simp [Opt.line]
    rw [hline, parse_option]
    simp only [ih, List.foldlM_cons, Option.bind_eq_bind, Option.bind_assoc]

/-- The words that end the function. -/
theorem parse_ends {out : Outcome} (h : Ends config rest out) :
    silogCatParseArgs config rest = some out := by
  cases h with
  | parsed => rfl
  | help isLong rest =>
    cases isLong
    all_goals
      cases rest
      all_goals rfl
  | missing key isLong =>
    cases key
    all_goals
      cases isLong
      all_goals rfl
  | unknown word rest hkey hcolor hhelp =>
    have hno : ∀ (short long : String), word ≠ ascii short → word ≠ ascii long →
        isOption word short long = false := by
      intro short long hshort hlong
      simp [isOption, hshort, hlong]
    rw [silogCatParseArgs.eq_def]
    dsimp only
    rw [hno "-h" "--help" (hhelp false) (hhelp true),
      hno "-s" "--server" (hkey .server false) (hkey .server true),
      hno "-p" "--port" (hkey .port false) (hkey .port true),
      hno "-t" "--tag" (hkey .tag false) (hkey .tag true),
      hno "-l" "--level" (hkey .level false) (hkey .level true),
      hno "-c" "--color" (hcolor false) (hcolor true)]
    rfl

/-- A name of an option is one of its two spellings. -/
theorem isOption_cases {arg : Word} {short long : String} {letter name : List UInt8}
    (hshort : ascii short = spelling letter name false)
    (hlong : ascii long = spelling letter name true) (h : isOption arg short long = true) :
    ∃ isLong, arg = spelling letter name isLong := by
  obtain h | h := of_decide_eq_true h
  · exact ⟨false, h.trans hshort⟩
  · exact ⟨true, h.trans hlong⟩

theorem isOption_eq_false {arg : Word} {short long : String} {letter name : List UInt8}
    (hshort : ascii short = spelling letter name false)
    (hlong : ascii long = spelling letter name true) (h : ¬ isOption arg short long = true)
    (isLong : Bool) : arg ≠ spelling letter name isLong := by
  intro harg
  apply h
  cases isLong with
  | false => exact decide_eq_true (Or.inl (harg.trans hshort.symm))
  | true => exact decide_eq_true (Or.inr (harg.trans hlong.symm))

/-- What the function reads: options, and then what ends it. -/
def Reads (config : SilogCatConfig) (args : List Word) (out : Outcome) : Prop :=
  ∃ opts rest config', args = Opt.line opts ++ rest ∧
    opts.foldlM Opt.apply config = some config' ∧ Ends config' rest out

theorem Reads.ends {out : Outcome} (h : Ends config rest out) : Reads config rest out :=
  ⟨[], rest, config, rfl, rfl, h⟩

theorem Reads.option (opt : Opt) {out : Outcome} (happly : opt.apply config = some config')
    (h : Reads config' rest out) : Reads config (opt.words ++ rest) out := by
  obtain ⟨opts, rest', config'', rfl, hopts, hends⟩ := h
  refine ⟨opt :: opts, rest', config'', ?_, ?_, hends⟩
  · simp [Opt.line]
  · rw [List.foldlM_cons, happly]
    exact hopts

/-- Every way through the function is an option in front, or an end. -/
theorem reads_of_parse {args : List Word} {out : Outcome}
    (h : silogCatParseArgs config args = some out) : Reads config args out := by
  fun_induction silogCatParseArgs config args with
  | case1 config =>
    rw [← Option.some.inj h]
    exact Reads.ends .parsed
  | case2 config arg rest hopt =>
    obtain ⟨isLong, rfl⟩ := isOption_cases rfl rfl hopt
    rw [← Option.some.inj h]
    exact Reads.ends (.help isLong rest)
  | case3 config arg _ hopt =>
    obtain ⟨isLong, rfl⟩ := isOption_cases rfl rfl hopt
    rw [← Option.some.inj h]
    exact Reads.ends (.missing .server isLong)
  | case4 config arg _ hopt addr rest ih =>
    obtain ⟨isLong, rfl⟩ := isOption_cases rfl rfl hopt
    exact Reads.option (.value .server isLong addr) rfl (ih h)
  | case5 config arg _ _ hopt =>
    obtain ⟨isLong, rfl⟩ := isOption_cases rfl rfl hopt
    rw [← Option.some.inj h]
    exact Reads.ends (.missing .port isLong)
  | case6 config arg _ _ hopt port rest ih =>
    obtain ⟨isLong, rfl⟩ := isOption_cases rfl rfl hopt
    obtain ⟨n, hn, hrest⟩ := Option.bind_eq_some_iff.mp h
    refine Reads.option (.value .port isLong port) ?_ (ih n hrest)
    simp [Opt.apply, hn]
  | case7 config arg _ _ _ hopt =>
    obtain ⟨isLong, rfl⟩ := isOption_cases rfl rfl hopt
    rw [← Option.some.inj h]
    exact Reads.ends (.missing .tag isLong)
  | case8 config arg _ _ _ hopt tag rest ih =>
    obtain ⟨isLong, rfl⟩ := isOption_cases rfl rfl hopt
    exact Reads.option (.value .tag isLong tag) rfl (ih h)
  | case9 config arg _ _ _ _ hopt =>
    obtain ⟨isLong, rfl⟩ := isOption_cases rfl rfl hopt
    rw [← Option.some.inj h]
    exact Reads.ends (.missing .level isLong)
  | case10 config arg _ _ _ _ hopt level rest ih =>
    obtain ⟨isLong, rfl⟩ := isOption_cases rfl rfl hopt
    exact Reads.option (.value .level isLong level) rfl (ih h)
  | case11 config arg rest _ _ _ _ _ hopt ih =>
    obtain ⟨isLong, rfl⟩ := isOption_cases rfl rfl hopt
    exact Reads.option (.color isLong) rfl (ih h)
  | case12 config arg rest hhelp hserver hport htag hlevel hcolor =>
    rw [← Option.some.inj h]
    refine Reads.ends (.unknown arg rest ?_ (isOption_eq_false rfl rfl hcolor)
      (isOption_eq_false rfl rfl hhelp))
    intro key
    cases key with
    | server => exact isOption_eq_false rfl rfl hserver
    | port => exact isOption_eq_false rfl rfl hport
    | tag => exact isOption_eq_false rfl rfl htag
    | level => exact isOption_eq_false rfl rfl hlevel

/-- A `-p` behind some options whose argument `atoi` finds no `int` in. -/
def BadPort (args : List Word) : Prop :=
  ∃ opts isLong port rest, args = Opt.line opts ++ (Opt.words (.value .port isLong port) ++ rest) ∧
    atoi port = none

theorem BadPort.option (opt : Opt) (h : BadPort rest) : BadPort (opt.words ++ rest) := by
  obtain ⟨opts, isLong, port, rest', rfl, hport⟩ := h
  refine ⟨opt :: opts, isLong, port, rest', ?_, hport⟩
  simp [Opt.line]

/-- Only the number behind a `-p` leaves the function without a result. -/
theorem badPort_of_parse {args : List Word} (h : silogCatParseArgs config args = none) :
    BadPort args := by
  fun_induction silogCatParseArgs config args with
  | case1 | case2 | case3 | case5 | case7 | case9 | case12 => cases h
  | case4 config arg _ hopt addr rest ih =>
    obtain ⟨isLong, rfl⟩ := isOption_cases rfl rfl hopt
    exact BadPort.option (.value .server isLong addr) (ih h)
  | case6 config arg _ _ hopt port rest ih =>
    obtain ⟨isLong, rfl⟩ := isOption_cases rfl rfl hopt
    cases hport : atoi port with
    | none => exact ⟨[], isLong, port, rest, rfl, hport⟩
    | some n =>
      rw [hport] at h
      exact BadPort.option (.value .port isLong port) (ih n h)
  | case8 config arg _ _ _ hopt tag rest ih =>
    obtain ⟨isLong, rfl⟩ := isOption_cases rfl rfl hopt
    exact BadPort.option (.value .tag isLong tag) (ih h)
  | case10 config arg _ _ _ _ hopt level rest ih =>
    obtain ⟨isLong, rfl⟩ := isOption_cases rfl rfl hopt
    exact BadPort.option (.value .level isLong level) (ih h)
  | case11 config arg rest _ _ _ _ _ hopt ih =>
    obtain ⟨isLong, rfl⟩ := isOption_cases rfl rfl hopt
    exact BadPort.option (.color isLong) (ih h)

theorem parse_badPort {args : List Word} (h : BadPort args) :
    silogCatParseArgs config args = none := by
  obtain ⟨opts, isLong, port, rest, rfl, hport⟩ := h
  rw [parse_line]
  cases opts.foldlM Opt.apply config with
  | none => rfl
  | some config' =>
    rw [Option.bind_some, parse_option]
    simp [Opt.apply, hport]

end parse

/-- **The command line.** `SilogCatParseArgs` ends with `out` exactly when the words are some options,
    each with its argument, and behind them what makes it end this way: nothing, `-h`, an option
    without its argument, or a word that is no option.  The configuration is what the options
    make of the one before, in order.  It always ends, but for a `-p` whose argument is no `int`. -/
theorem silogCatParseArgs_iff (config : SilogCatConfig) (args : List Word) :
    (∀ out, silogCatParseArgs config args = some out ↔ Reads config args out) ∧
    (silogCatParseArgs config args = none ↔ BadPort args) := by
  refine ⟨fun out => ⟨reads_of_parse, ?_⟩, badPort_of_parse, parse_badPort⟩
  intro h
  obtain ⟨opts, rest, config', rfl, hopts, hends⟩ := h
  rw [parse_line, hopts]
  exact parse_ends hends

end SiLog.Cat
