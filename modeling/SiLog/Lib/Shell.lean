import Mathlib.Data.List.Basic
import SiLog.Lib.Lts

/-! # Command lines of the shell

    The POSIX shell reads a command line character by character and cuts it into
    words and operators.  This file has the quoting rules and the simple
    commands: words and redirections.  A line with an expansion, a comment or an
    open quote is not read, and neither is a line with more than one command.

    A character of the line gives at most one character of the command.  Between
    double quotes a text comes out as it is exactly if it is `Verbatim`; every
    other text loses a character.
-/

open Lts

namespace Shell

/-! ## Characters -/

def doubleQuote : Char := Char.ofNat 34
def singleQuote : Char := Char.ofNat 39
def backslash : Char := Char.ofNat 92
def backquote : Char := Char.ofNat 96
def newline : Char := Char.ofNat 10

/-- The characters between words. -/
def blanks : List Char := [' ', Char.ofNat 9]

/-- The characters of the operators. -/
def operators : List Char := ['|', '&', ';', '<', '>', '(', ')', newline]

/-- The characters that start an expansion, also between double quotes.  Before any other character
    the meaning of a dollar sign is unspecified. -/
def expansions : List Char := ['$', backquote]

/-- The patterns of file names, outside of quotes. -/
def patterns : List Char := ['*', '?', '[']

/-- What a backslash escapes between double quotes, besides the newline. -/
def escapables : List Char := ['$', backquote, doubleQuote, backslash]

/-! ## Tokens -/

inductive Token where
  | word (text : List Char)
  | ioNumber (text : List Char)
  | operator (c : Char)
  deriving DecidableEq

inductive Mode where
  | plain | escaped | double | doubleEscaped | single
  deriving DecidableEq

/-- A word that has begun, and whether some of it is quoted. -/
structure Word where
  text   : List Char
  quoted : Bool
  deriving DecidableEq

structure State where
  mode   : Mode
  word   : Option Word
  tokens : List Token
  deriving DecidableEq

/-- The tokens when the word ends. -/
def State.flush (s : State) : List Token :=
  match s.word with
  | none => s.tokens
  | some w => s.tokens ++ [.word w.text]

/-- The tokens when an operator ends the word: digits before a redirection are a file descriptor. -/
def State.flushBefore (s : State) (c : Char) : List Token :=
  match s.word with
  | none => s.tokens
  | some w =>
    if (c = '<' ∨ c = '>') ∧ w.quoted = false ∧ w.text.all Char.isDigit = true then
      s.tokens ++ [.ioNumber w.text]
    else s.tokens ++ [.word w.text]

/-- The word with one character more. -/
def State.push (s : State) (c : Char) (quoted : Bool) : State :=
  match s.word with
  | none => { s with word := some ⟨[c], quoted⟩ }
  | some w => { s with word := some ⟨w.text ++ [c], w.quoted || quoted⟩ }

/-- The word with a quoted text at its end. -/
def State.pushAll (s : State) (text : List Char) : State := text.foldl (fun s c => s.push c true) s

/-- A quote begins, and with it a word. -/
def State.quote (s : State) (mode : Mode) : State :=
  match s.word with
  | none => { s with mode := mode, word := some ⟨[], true⟩ }
  | some w => { s with mode := mode, word := some ⟨w.text, true⟩ }

/-- One character. -/
def step (s : State) (c : Char) : Option State :=
  match s.mode with
  | .plain =>
    if c ∈ blanks then some ⟨.plain, none, s.flush⟩
    else if c ∈ operators then some ⟨.plain, none, s.flushBefore c ++ [.operator c]⟩
    else if c = doubleQuote then some (s.quote .double)
    else if c = singleQuote then some (s.quote .single)
    else if c = backslash then some { s with mode := .escaped }
    else if c ∈ expansions ∨ c ∈ patterns then none
    else if (c = '~' ∨ c = '#') ∧ s.word = none then none
    else some (s.push c false)
  | .escaped =>
    -- a backslash before a newline joins two lines
    if c = newline then some { s with mode := .plain }
    else some { s.push c true with mode := .plain }
  | .double =>
    if c = doubleQuote then some { s with mode := .plain }
    else if c = backslash then some { s with mode := .doubleEscaped }
    else if c ∈ expansions then none
    else some (s.push c true)
  | .doubleEscaped =>
    if c = newline then some { s with mode := .double }
    else if c ∈ escapables then some { s.push c true with mode := .double }
    -- any other backslash stays
    else some { (s.push backslash true).push c true with mode := .double }
  | .single =>
    if c = singleQuote then some { s with mode := .plain } else some (s.push c true)

/-- The tokens of a line; `none` if a quote is open at its end. -/
def lex (line : List Char) : Option (List Token) :=
  (exec step ⟨.plain, none, []⟩ line).bind fun s => if s.mode = .plain then some s.flush else none

/-! ## Simple commands -/

structure Redirection where
  ioNumber : List Char
  operator : Char
  target   : List Char
  deriving DecidableEq

structure Command where
  words        : List (List Char)
  redirections : List Redirection
  deriving DecidableEq

def Command.addRedirection (command : Command) (r : Redirection) : Option Command :=
  if r.operator = '<' ∨ r.operator = '>' then
    some { command with redirections := r :: command.redirections }
  else none

/-- A simple command; any other operator ends it, and another command follows. -/
def parse : List Token → Option Command
  | [] => some ⟨[], []⟩
  | .word text :: ts => (parse ts).map fun command => { command with words := text :: command.words }
  | .ioNumber n :: .operator c :: .word text :: ts => (parse ts).bind (·.addRedirection ⟨n, c, text⟩)
  | .operator c :: .word text :: ts => (parse ts).bind (·.addRedirection ⟨[], c, text⟩)
  | _ => none

/-- The command of a line. -/
def readCommand (line : List Char) : Option Command := (lex line).bind parse

/-! ## Sizes -/

/-- The characters of a token. -/
def Token.chars : Token → List Char
  | .word text => text
  | .ioNumber text => text
  | .operator c => [c]

def size (ts : List Token) : ℕ := (ts.flatMap Token.chars).length

/-- The characters of the word that has begun. -/
def wordSize (word : Option Word) : ℕ := word.elim 0 fun w => w.text.length

/-- A backslash that may still become a character. -/
def Mode.pending : Mode → ℕ
  | .escaped => 1
  | .doubleEscaped => 1
  | _ => 0

def State.size (s : State) : ℕ := Shell.size s.tokens + wordSize s.word + s.mode.pending

section sizes
variable {s s' : State} {c : Char} {cs : List Char}

@[simp] theorem size_append (ts us : List Token) : size (ts ++ us) = size ts + size us := by
  simp [size]

@[simp] theorem size_singleton (t : Token) : size [t] = t.chars.length := by
  simp [size]

theorem size_cons (t : Token) (ts : List Token) : size (t :: ts) = t.chars.length + size ts := by
  simp [size]

@[simp] theorem size_flush (s : State) : size s.flush = size s.tokens + wordSize s.word := by
  unfold State.flush
  cases s.word with
  | none => rfl
  | some w =>
    rw [size_append, size_singleton]
    rfl

theorem size_flush_plain (h : s.mode = .plain) : size s.flush = s.size := by
  rw [size_flush, State.size, h]
  rfl

@[simp] theorem size_flushBefore (s : State) (c : Char) :
    size (s.flushBefore c) = size s.tokens + wordSize s.word := by
  unfold State.flushBefore
  cases s.word with
  | none => rfl
  | some w =>
    dsimp only
    split <;> rw [size_append, size_singleton] <;> rfl

@[simp] theorem push_mode (s : State) (c : Char) (q : Bool) : (s.push c q).mode = s.mode := by
  unfold State.push
  cases s.word <;> rfl

@[simp] theorem push_tokens (s : State) (c : Char) (q : Bool) : (s.push c q).tokens = s.tokens := by
  unfold State.push
  cases s.word <;> rfl

@[simp] theorem wordSize_push (s : State) (c : Char) (q : Bool) :
    wordSize (s.push c q).word = wordSize s.word + 1 := by
  unfold State.push
  cases s.word with
  | none => rfl
  | some w => simp [wordSize]

@[simp] theorem quote_mode (s : State) (mode : Mode) : (s.quote mode).mode = mode := by
  unfold State.quote
  cases s.word <;> rfl

@[simp] theorem quote_tokens (s : State) (mode : Mode) : (s.quote mode).tokens = s.tokens := by
  unfold State.quote
  cases s.word <;> rfl

@[simp] theorem wordSize_quote (s : State) (mode : Mode) :
    wordSize (s.quote mode).word = wordSize s.word := by
  unfold State.quote
  cases s.word <;> rfl

@[simp] theorem wordSize_none : wordSize none = 0 := rfl

/-- A character of the line gives at most one of the command. -/
theorem step_size (h : step s c = some s') : s'.size ≤ s.size + 1 := by
  unfold step at h
  unfold State.size
  cases hmode : s.mode with
  | plain =>
    simp only [hmode] at h
    split_ifs at h <;> cases h <;> simp [hmode, Mode.pending, Token.chars]
    omega
  | escaped =>
    simp only [hmode] at h
    split_ifs at h <;> cases h <;> simp [Mode.pending] <;> omega
  | double =>
    simp only [hmode] at h
    split_ifs at h <;> cases h <;> simp [hmode, Mode.pending]
    omega
  | doubleEscaped =>
    simp only [hmode] at h
    split_ifs at h <;> cases h <;> simp [Mode.pending] <;> omega
  | single =>
    simp only [hmode] at h
    split_ifs at h <;> cases h <;> simp [hmode, Mode.pending]
    omega

theorem size_push (s : State) (c : Char) (q : Bool) : (s.push c q).size = s.size + 1 := by
  simp only [State.size, push_mode, push_tokens, wordSize_push]
  omega

theorem exec_size (h : exec step s cs = some s') : s'.size ≤ s.size + cs.length := by
  induction cs generalizing s with
  | nil =>
    cases h
    exact Nat.le_refl _
  | cons c cs ih =>
    obtain ⟨s₁, hs₁, hrest⟩ := Option.bind_eq_some_iff.mp h
    have hstep := step_size hs₁
    have hle := ih hrest
    rw [List.length_cons]
    omega

end sizes

/-- The characters of a redirection. -/
def Redirection.chars (r : Redirection) : List Char := r.ioNumber ++ r.operator :: r.target

def Command.size (command : Command) : ℕ :=
  command.words.flatten.length + (command.redirections.flatMap Redirection.chars).length

theorem Command.size_addRedirection {command command' : Command} {r : Redirection}
    (h : command.addRedirection r = some command') : command'.size = r.chars.length + command.size := by
  unfold Command.addRedirection at h
  split at h
  · cases h
    simp only [Command.size, List.flatMap_cons, List.length_append]
    omega
  · cases h

/-- The parser loses nothing. -/
theorem parse_size {ts : List Token} {command : Command} (h : parse ts = some command) :
    command.size = size ts := by
  induction ts using parse.induct generalizing command with
  | case1 =>
    cases h
    rfl
  | case2 text ts ih =>
    obtain ⟨rest, hrest, rfl⟩ := Option.map_eq_some_iff.mp h
    rw [size_cons, ← ih hrest]
    simp only [Command.size, List.flatten_cons, List.length_append, Token.chars]
    omega
  | case3 n c text ts ih =>
    obtain ⟨rest, hrest, hadd⟩ := Option.bind_eq_some_iff.mp h
    rw [Command.size_addRedirection hadd, ih hrest, size_cons, size_cons, size_cons]
    simp only [Redirection.chars, Token.chars, List.length_append, List.length_cons, List.length_nil]
    omega
  | case4 c text ts ih =>
    obtain ⟨rest, hrest, hadd⟩ := Option.bind_eq_some_iff.mp h
    rw [Command.size_addRedirection hadd, ih hrest, size_cons, size_cons]
    simp only [Redirection.chars, Token.chars, List.length_append, List.length_cons, List.length_nil]
    omega
  | case5 ts hnil hword hio hoperator =>
    rw [parse] at h
    · cases h
    all_goals assumption

/-! ## Text between double quotes -/

/-- A text that means itself between double quotes. -/
def Verbatim : List Char → Prop
  | [] => True
  | c :: cs =>
    c ≠ doubleQuote ∧ c ∉ expansions ∧
      (c = backslash → ∃ d ∈ cs.head?, d ∉ escapables ∧ d ≠ newline) ∧ Verbatim cs

section verbatim
variable {s s' : State} {c d : Char} {text : List Char}

/-- A character without a meaning of its own. -/
theorem step_ordinary (hmode : s.mode = .double) (hquote : c ≠ doubleQuote) (hbackslash : c ≠ backslash)
    (hexpansion : c ∉ expansions) : step s c = some (s.push c true) := by
  unfold step
  simp only [hmode, if_neg hquote, if_neg hbackslash, if_neg hexpansion]

/-- What a double quote does. -/
theorem step_doubleQuote (s : State) :
    step s doubleQuote = some (match s.mode with
      | .plain => s.quote .double
      | .escaped => { s.push doubleQuote true with mode := .plain }
      | .double => { s with mode := .plain }
      | .doubleEscaped => { s.push doubleQuote true with mode := .double }
      | .single => s.push doubleQuote true) := by
  obtain ⟨mode, word, tokens⟩ := s
  cases mode <;> rfl

/-- A backslash before such a character stays. -/
theorem exec_backslash (hmode : s.mode = .double) (hescapable : d ∉ escapables) (hnewline : d ≠ newline)
    (text : List Char) :
    exec step s (backslash :: d :: text) = exec step (s.push backslash true) (d :: text) := by
  have hbackslash : step s backslash = some { s with mode := .doubleEscaped } := by
    have hne : backslash ≠ doubleQuote := by decide
    unfold step
    simp only [hmode, if_neg hne, if_true]
  have hescaped : step { s with mode := .doubleEscaped } d =
      some ((s.push backslash true).push d true) := by
    obtain ⟨mode, word, tokens⟩ := s
    obtain rfl : mode = .double := hmode
    simp only [step, if_neg hnewline, if_neg hescapable]
    cases word <;> rfl
  have hordinary : step (s.push backslash true) d = some ((s.push backslash true).push d true) := by
    apply step_ordinary
    · rw [push_mode, hmode]
    · rintro rfl
      exact hescapable (by decide)
    · rintro rfl
      exact hescapable (by decide)
    · intro h
      exact hescapable (List.mem_append_left [doubleQuote, backslash] h)
  simp only [exec, hbackslash, hescaped, hordinary, Option.bind_some]

theorem pushAll_quoted (mode : Mode) (w : List Char) (ts : List Token) (text : List Char) :
    State.pushAll ⟨mode, some ⟨w, true⟩, ts⟩ text = ⟨mode, some ⟨w ++ text, true⟩, ts⟩ := by
  induction text generalizing w with
  | nil => rw [List.append_nil, State.pushAll, List.foldl_nil]
  | cons c text ih => exact (ih (w ++ [c])).trans (by rw [List.append_assoc, List.singleton_append])

theorem pushAll_mode (s : State) (text : List Char) : (s.pushAll text).mode = s.mode := by
  induction text generalizing s with
  | nil => rfl
  | cons c text ih => exact (ih (s.push c true)).trans (push_mode s c true)

/-- A text without any of the characters that have a meaning. -/
theorem verbatim_of_all (h : text.all (fun c => decide (c ∉ escapables)) = true) : Verbatim text := by
  induction text with
  | nil => trivial
  | cons c text ih =>
    rw [List.all_cons, Bool.and_eq_true, decide_eq_true_eq] at h
    obtain ⟨hc, htext⟩ := h
    refine ⟨?_, ?_, ?_, ih htext⟩
    · rintro rfl
      exact hc (by decide)
    · intro hmem
      exact hc (List.mem_append_left [doubleQuote, backslash] hmem)
    · rintro rfl
      exact absurd (by decide) hc

theorem exec_verbatim (hverbatim : Verbatim text) (hmode : s.mode = .double) :
    exec step s text = some (s.pushAll text) := by
  induction text generalizing s with
  | nil => rfl
  | cons c text ih =>
    obtain ⟨hquote, hexpansion, hescape, hrest⟩ := hverbatim
    have hmode' : (s.push c true).mode = .double := by rw [push_mode, hmode]
    have htail : exec step (s.push c true) text = some (s.pushAll (c :: text)) := ih hrest hmode'
    rw [← htail]
    by_cases hc : c = backslash
    · subst hc
      obtain ⟨d, hd, hescapable, hnewline⟩ := hescape rfl
      obtain ⟨rest, rfl⟩ := List.head?_eq_some_iff.mp hd
      exact exec_backslash hmode hescapable hnewline rest
    · rw [exec, step_ordinary hmode hquote hc hexpansion]
      rfl

/-- A backslash that is taken away. -/
theorem exec_escape (hmode : s.mode = .double) (hd : d ∈ escapables ∨ d = newline)
    (h : exec step s (backslash :: d :: text) = some s') : s'.size ≤ s.size + 1 + text.length := by
  obtain ⟨mode, word, tokens⟩ := s
  obtain rfl : mode = .double := hmode
  obtain ⟨s₁, hs₁, hrest⟩ := Option.bind_eq_some_iff.mp h
  obtain rfl : ⟨.doubleEscaped, word, tokens⟩ = s₁ := Option.some.inj hs₁
  obtain ⟨s₂, hs₂, hrest⟩ := Option.bind_eq_some_iff.mp hrest
  have hsize : s₂.size ≤ State.size ⟨.double, word, tokens⟩ + 1 := by
    unfold step at hs₂
    dsimp only at hs₂
    split_ifs at hs₂ with hnewline hescapable
    · cases hs₂
      exact Nat.le_succ _
    · cases hs₂
      simp only [State.size, push_tokens, wordSize_push, Mode.pending]
      omega
    · exact absurd hd (not_or.mpr ⟨hescapable, hnewline⟩)
  have hle := exec_size hrest
  omega

/-- Any other text loses a character, if it does not end in the middle of an escape. -/
theorem exec_not_verbatim (hverbatim : ¬ Verbatim text) (hmode : s.mode = .double)
    (h : exec step s text = some s') : s'.mode = .doubleEscaped ∨ s'.size < s.size + text.length := by
  induction text generalizing s with
  | nil => exact absurd trivial hverbatim
  | cons c text ih =>
    obtain ⟨s₁, hs₁, hrest⟩ := Option.bind_eq_some_iff.mp h
    by_cases hquote : c = doubleQuote
    · -- the quote ends here, and its end is not a character of the command
      rw [hquote, step_doubleQuote, hmode] at hs₁
      obtain rfl := Option.some.inj hs₁
      have hle := exec_size hrest
      simp only [State.size, hmode, Mode.pending, List.length_cons] at hle ⊢
      omega
    by_cases hc : c = backslash
    · subst hc
      cases text with
      | nil =>
        left
        unfold step at hs₁
        simp only [hmode, if_neg hquote, if_true] at hs₁
        cases hs₁
        cases hrest
        rfl
      | cons d text =>
        by_cases hd : d ∈ escapables ∨ d = newline
        · right
          have hle := exec_escape hmode hd h
          simp only [List.length_cons]
          omega
        · rw [not_or] at hd
          rw [exec_backslash hmode hd.1 hd.2] at h
          have hrest : ¬ Verbatim (d :: text) := by
            intro hrest
            exact hverbatim ⟨hquote, by decide, fun _ => ⟨d, rfl, hd⟩, hrest⟩
          have hmode' : (s.push backslash true).mode = .double := by rw [push_mode, hmode]
          refine (ih hrest hmode' h).imp_right fun hlost => ?_
          rw [size_push] at hlost
          simp only [List.length_cons] at hlost ⊢
          omega
    by_cases hexpansion : c ∈ expansions
    · unfold step at hs₁
      simp only [hmode, if_neg hquote, if_neg hc, if_pos hexpansion] at hs₁
      cases hs₁
    · rw [step_ordinary hmode hquote hc hexpansion] at hs₁
      obtain rfl := Option.some.inj hs₁
      have htext : ¬ Verbatim text := by
        intro htext
        exact hverbatim ⟨hquote, hexpansion, fun h => absurd h hc, htext⟩
      have hmode' : (s.push c true).mode = .double := by rw [push_mode, hmode]
      refine (ih htext hmode' hrest).imp_right fun hlost => ?_
      rw [size_push] at hlost
      simp only [List.length_cons]
      omega

/-- An open single quote. -/
theorem exec_single (htext : singleQuote ∉ text) (hmode : s.mode = .single)
    (h : exec step s text = some s') : s'.mode = .single := by
  induction text generalizing s with
  | nil =>
    cases h
    exact hmode
  | cons c text ih =>
    rw [List.mem_cons, not_or] at htext
    have hstep : step s c = some (s.push c true) := by
      unfold step
      simp only [hmode, if_neg (Ne.symm htext.1)]
    obtain ⟨s₁, hs₁, hrest⟩ := Option.bind_eq_some_iff.mp h
    obtain rfl := Option.some.inj (hstep.symm.trans hs₁)
    exact ih htext.2 (by rw [push_mode, hmode]) hrest

end verbatim

example : readCommand "cat \"a\"'\"'\"b\" 2>/dev/null".toList =
    some ⟨["cat".toList, "a\"b".toList], [⟨"2".toList, '>', "/dev/null".toList⟩]⟩ := by decide
example : readCommand "cat \"a\\b\\\\c\" 2 >/dev/null".toList =
    some ⟨["cat".toList, "a\\b\\c".toList, "2".toList], [⟨[], '>', "/dev/null".toList⟩]⟩ := by decide
example : readCommand "cat \"a\"; ls \"b\"".toList = none := by decide

end Shell
