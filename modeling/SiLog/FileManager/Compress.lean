import SiLog.FileManager.Spec
import SiLog.Lib.Shell

/-! # The command that compresses a file (`SilogFileManagerDoCompress`)

    The path is pasted between double quotes and the line is given to `system`.
    Quotes keep blanks and operators in the path together, but the shell still
    looks for quotes, dollar signs, backquotes and backslashes in it, and nothing
    escapes them.
-/

open Lts Shell

namespace SiLog.FileManager

/-- `CMD_ARG_BUF_SIZE` -/
def cmdArgBufSize : ℕ := 32

def gzip : Str := ['g', 'z', 'i', 'p']

def devNull : Str := ['/', 'd', 'e', 'v', '/', 'n', 'u', 'l', 'l']

/-- The line before the path. -/
def commandStart : Str := gzip ++ [' ', doubleQuote]

/-- What follows the quote behind the path. -/
def redirection : Str := [' ', '2', '>'] ++ devNull

/-- The line that `SilogFileManagerDoCompress` gives to `system`. -/
def compressCommand (filePath : Str) : Str :=
  snprintfS (pathMaxLen + cmdArgBufSize) (commandStart ++ filePath ++ doubleQuote :: redirection)

/-- The shell runs `gzip` with the path as its one argument, and nothing else. -/
def NamesOneFile (filePath : Str) : Prop :=
  readCommand (compressCommand filePath) =
    some ⟨[gzip, filePath], [⟨['2'], '>', devNull⟩]⟩

section command
variable {s s' : State} {filePath : Str}

/-- The line is not cut off. -/
theorem compressCommand_eq (h : filePath.length < pathMaxLen) :
    compressCommand filePath = commandStart ++ (filePath ++ doubleQuote :: redirection) := by
  unfold compressCommand
  rw [snprintfS_eq, List.append_assoc]
  simp only [List.length_append, List.length_cons, show commandStart.length = 6 from rfl,
    show redirection.length = 12 from rfl, cmdArgBufSize, pathMaxLen] at h ⊢
  omega

/-- The shell behind the first quote. -/
def quoteOpened : State := ⟨.double, some ⟨[], true⟩, [.word gzip]⟩

theorem exec_commandStart : exec step ⟨.plain, none, []⟩ commandStart = some quoteOpened := by decide

/-- Inside double quotes the rest of the line is text, and the quote stays open. -/
theorem exec_redirection_double (hmode : s.mode = .double)
    (h : exec step s redirection = some s') : s'.mode = .double := by
  rw [exec_verbatim (verbatim_of_all (by decide)) hmode] at h
  cases h
  rw [pushAll_mode, hmode]

/-- Outside of quotes its blank ends the word. -/
theorem exec_redirection_plain (hmode : s.mode = .plain)
    (h : exec step s redirection = some s') : s'.size ≤ s.size + 11 := by
  have hblank : step s ' ' = some ⟨.plain, none, s.flush⟩ := by
    unfold step
    simp only [hmode]
    rfl
  obtain ⟨s₁, hs₁, hrest⟩ := Option.bind_eq_some_iff.mp h
  obtain rfl := Option.some.inj (hblank.symm.trans hs₁)
  have hsize : State.size ⟨.plain, none, s.flush⟩ = s.size := size_flush_plain hmode
  have hle := exec_size hrest
  rw [hsize] at hle
  exact hle

/-- From the end of the path on, the line loses its quote and its blank, or a quote stays open. -/
theorem exec_commandEnd (h : exec step s (doubleQuote :: redirection) = some s')
    (hplain : s'.mode = .plain) :
    s.mode ≠ .doubleEscaped ∧ s'.size ≤ s.size + 11 := by
  obtain ⟨s₁, hs₁, hrest⟩ := Option.bind_eq_some_iff.mp h
  rw [step_doubleQuote] at hs₁
  cases hmode : s.mode with
  | plain =>
    rw [hmode] at hs₁
    obtain rfl := Option.some.inj hs₁
    have hdouble := exec_redirection_double (quote_mode s .double) hrest
    exact absurd (hdouble.symm.trans hplain) (by decide)
  | escaped =>
    rw [hmode] at hs₁
    obtain rfl := Option.some.inj hs₁
    refine ⟨by decide, (exec_redirection_plain rfl hrest).trans ?_⟩
    simp only [State.size, push_tokens, wordSize_push, hmode, Mode.pending]
    omega
  | double =>
    rw [hmode] at hs₁
    obtain rfl := Option.some.inj hs₁
    refine ⟨by decide, (exec_redirection_plain rfl hrest).trans ?_⟩
    simp only [State.size, hmode, Mode.pending]
    omega
  | doubleEscaped =>
    rw [hmode] at hs₁
    obtain rfl := Option.some.inj hs₁
    have hdouble := exec_redirection_double rfl hrest
    exact absurd (hdouble.symm.trans hplain) (by decide)
  | single =>
    have hsingle := exec_single (by decide) hmode h
    exact absurd (hsingle.symm.trans hplain) (by decide)

/-- The shell reads the path, and then the end of the line. -/
theorem readCommand_compressCommand (h : filePath.length < pathMaxLen) :
    readCommand (compressCommand filePath) =
      ((exec step quoteOpened filePath).bind fun s =>
        exec step s (doubleQuote :: redirection)).bind fun s' =>
        if s'.mode = .plain then parse s'.flush else none := by
  rw [compressCommand_eq h, readCommand, lex, exec_append, exec_commandStart, Option.bind_some, exec_append,
    Option.bind_assoc]
  congr 1
  funext s'
  split <;> rfl

theorem namesOneFile_iff (h : filePath.length < pathMaxLen) :
    NamesOneFile filePath ↔ Verbatim filePath := by
  unfold NamesOneFile
  rw [readCommand_compressCommand h]
  constructor
  · intro hread
    by_contra hverbatim
    obtain ⟨s', hexec, hparse⟩ := Option.bind_eq_some_iff.mp hread
    obtain ⟨s, hpath, hend⟩ := Option.bind_eq_some_iff.mp hexec
    split at hparse
    next hplain =>
      obtain ⟨hmode, hsize⟩ := exec_commandEnd hend hplain
      have hlost := (exec_not_verbatim hverbatim rfl hpath).resolve_left hmode
      -- the command that is wanted is too long for what is left of the line
      have hcommand := parse_size hparse
      rw [size_flush_plain hplain] at hcommand
      simp only [Command.size, Redirection.chars, List.flatten_cons, List.flatten_nil, List.flatMap_cons,
        List.flatMap_nil, List.length_append, List.length_cons, List.length_nil,
        show gzip.length = 4 from rfl, show devNull.length = 9 from rfl] at hcommand
      have hopened : quoteOpened.size = 4 := rfl
      omega
    next => cases hparse
  · intro hverbatim
    rw [exec_verbatim hverbatim rfl, quoteOpened, pushAll_quoted]
    rfl

end command

/-- **The command names one file.** For every path of at most 511 bytes, the line runs `gzip` with
    exactly that path exactly if the path is `Verbatim`: without a quote, a dollar sign and a
    backquote, and without a backslash before another one, before a newline or at the end. -/
theorem compressCommand_names_iff (filePath : CString pathMaxLen) :
    NamesOneFile filePath.chars ↔ Verbatim filePath.chars :=
  namesOneFile_iff filePath.lt

theorem System.historyTarget_lt (s : System) (timestamp : CString 32) :
    (s.historyTarget timestamp).length < pathMaxLen := by
  obtain ⟨k, hk, heq, _⟩ := s.historyTarget_cases timestamp
  rw [heq]
  exact (length_historyPath s.fm.config timestamp hk).2

/-- The paths that rotations hand over are among them. -/
theorem rotation_names_iff {s : System} {env : RotateEnv} {path : Str}
    (h : (silogFileManagerRotateInternal s env).renamed.bind Renaming.target = some path) :
    NamesOneFile path ↔ Verbatim path := by
  have hpath : path = s.historyTarget env.timestamp := by
    rw [rotateInternal_renamed] at h
    cases hren : s.renameCurrent env with
    | none =>
      rw [hren] at h
      cases h
    | some fs₂ =>
      rw [hren] at h
      exact (Option.some.inj h).symm
  rw [hpath]
  exact namesOneFile_iff (s.historyTarget_lt env.timestamp)

/-! ### A base name with a dollar sign -/

def dollarConfig : SilogLogFileConfig :=
  { silogFileManagerGetDefaultConfig with
    logFileBase := ⟨['$', 'H', 'O', 'M', 'E'], by decide, by decide⟩ }

def dollarInit : System :=
  ((System.initial fun _ => none).call (.init (some dollarConfig) smoothInit)).sys

/-- The file is `/tmp/silog/$HOME_20240101_000000_000.log`, and the shell expands a variable of that
    name. -/
theorem dollar_is_expanded :
    Steps Step (System.initial fun _ => none) [.init (some dollarConfig) smoothInit] dollarInit ∧
    (dollarInit.call (.rotate smoothRotate)).renamed.bind Renaming.target =
      some (historyPath dollarConfig newYear 0) ∧
    (historyPath dollarConfig newYear 0).length ≤ 511 ∧
    Char.ofNat 0 ∉ historyPath dollarConfig newYear 0 ∧
    readCommand (compressCommand (historyPath dollarConfig newYear 0)) = none ∧
    ¬ NamesOneFile (historyPath dollarConfig newYear 0) := by
  have hread : readCommand (compressCommand (historyPath dollarConfig newYear 0)) = none := by
    decide +kernel
  refine ⟨Steps.single rfl, by decide +kernel, by decide +kernel, by decide +kernel, hread, ?_⟩
  intro h
  rw [NamesOneFile, hread] at h
  cases h

end SiLog.FileManager
