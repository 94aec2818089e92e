import Mathlib.Algebra.Group.Int.Defs
import SiLog.Error
import SiLog.Securec

/-! # The log of the log system (`silog_prelog.c`)

    Until the log system runs, its parts write their own messages to a file and
    to the standard output.  A line is built in an array of 1024 bytes in two
    calls: `snprintf_s` makes the prefix, and `vsnprintf` puts the message
    behind it.

    The number that the first call returns is the offset of the second one.
    `snprintf_s` returns the length of the whole text also when it cuts the text
    off, so a long module name moves the second call out of the array.
-/

open Printf SiLog.Securec

namespace SiLog.Prelog

/-! ## Section 1: The manager -/

/-- `SilogPrelogConfig_t`.  A level is a 32-bit word; the first four have names. -/
structure SilogPrelogConfig where
  path         : List UInt8
  minLevel     : UInt32
  enableStdout : Bool

/-- `SilogPrelogManager_t`; `file` is what has been written to the open file and `stdout` what has
    been written to the standard output. -/
structure SilogPrelogManager where
  file        : Option (List UInt8)
  config      : SilogPrelogConfig
  initialized : Bool
  stdout      : List UInt8

def silogPrelogLevelToString (level : UInt32) : List UInt8 :=
  match level.toNat with
  | 0 => ascii "DEBUG"
  | 1 => ascii "INFO"
  | 2 => ascii "WARNING"
  | 3 => ascii "ERROR"
  | _ => ascii "UNKNOWN"

def defaultConfig : SilogPrelogConfig where
  path := ascii "/tmp/silog_prelog.txt"
  minLevel := 0
  enableStdout := false

/-- `SilogPrelogInit`; `opens` tells which files `fopen` opens, and the mode `"w"` empties them. -/
def silogPrelogInit (opens : List UInt8 → Bool) (m : SilogPrelogManager)
    (config : Option SilogPrelogConfig) : ErrorCode × SilogPrelogManager :=
  if m.initialized then (.ok, m)
  else
    let config := config.getD defaultConfig
    if opens config.path then
      (.ok, { m with file := some [], config := config, initialized := true })
    else
      (.ok, { m with file := none, config := { config with enableStdout := true }, initialized := true })

/-! ## Section 2: Writing -/

/-- `SILOG_PRELOG_MSG_MAX` -/
def msgMax : ℕ := 1024

def prefixFormat : List UInt8 := ascii "[%s] [%s] [%s] "

def prefixArgs (errText module : List UInt8) (level : UInt32) : List Arg :=
  [.str errText, .str module, .str (silogPrelogLevelToString level)]

/-- The conversion to `size_t`. -/
def sizeT (z : ℤ) : ℕ := (z % 2 ^ 64).toNat

theorem sizeT_of_lt {z : ℤ} (hnonneg : 0 ≤ z) (hlt : z < 2 ^ 64) : (sizeT z : ℤ) = z := by
  unfold sizeT
  rw [Int.emod_eq_of_lt hnonneg hlt, Int.toNat_of_nonneg hnonneg]

/-- `vsnprintf(buf + offset, size, ...)` -/
structure MessageCall where
  offset : ℤ
  size   : ℕ
  buf    : List UInt8

/-- `SilogPrelogWriteV` from the prefix to its second formatting call; `errText` is the text of
    `errno`, and `buf` what the stack holds. -/
def messageCall (errText module : List UInt8) (level : UInt32) (buf : List UInt8) :
    Option MessageCall := do
  let (n, buf) ← snprintfS convertPlain (some buf) msgMax (msgMax - 1) (some prefixFormat)
    (prefixArgs errText module level)
  let buf ← buf
  let (n, buf) := if n < 0 then (0, buf.set 0 0) else (n, buf)
  -- the type of `sizeof(buf) - n` is that of `sizeof(buf)`
  return { offset := n, size := sizeT (msgMax - n), buf := buf }

/-- The number that the call returns, and the array.  There is no address behind the end of the
    array. -/
def MessageCall.run (call : MessageCall) (output : Output) : Option (ℤ × List UInt8) :=
  if call.buf.length < call.offset then none
  else
    (vsnprintf (call.buf.drop call.offset.toNat) call.size output).map fun (msgLen, rest) =>
      (msgLen, call.buf.take call.offset.toNat ++ rest)

/-- `fputs` to the file and to the standard output. -/
def SilogPrelogManager.puts (m : SilogPrelogManager) (line : List UInt8) : SilogPrelogManager :=
  { m with file := m.file.map (· ++ line)
           stdout := if m.config.enableStdout then m.stdout ++ line else m.stdout }

/-- `SilogPrelogWriteV` behind its second formatting call. -/
def SilogPrelogManager.finish (m : SilogPrelogManager) (msgLen : ℤ) (buf : List UInt8) :
    Option (ErrorCode × SilogPrelogManager) :=
  if msgLen < 0 then some (.strErr, m)
  else
    -- a failure of `strncat_s` is ignored
    ((strncatS (some buf) msgMax (some (ascii "\n")) 1).2.bind cString).map fun line =>
      (.ok, m.puts line)

/-- `SilogPrelogWriteV`; `none` for a text is a NULL pointer, and as the result undefined
    behaviour. -/
def silogPrelogWriteV (convert : Conversion → List Arg → Option (List UInt8)) (m : SilogPrelogManager)
    (errText : List UInt8) (module : Option (List UInt8)) (level : UInt32) (fmt : Option (List UInt8))
    (args : List Arg) (buf : List UInt8) : Option (ErrorCode × SilogPrelogManager) :=
  match module, fmt with
  | some module, some fmt =>
    if m.initialized = false then some (.transNotInit, m)
    else if level < m.config.minLevel then some (.ok, m)
    else do
      let call ← messageCall errText module level buf
      let (msgLen, buf) ← call.run (vprintf convert fmt args)
      m.finish msgLen buf
  | _, _ => some (.nullPtr, m)

/-! ## Section 3: The prefix -/

section prefixText
variable (errText module : List UInt8) (level : UInt32)

def prefixText : List UInt8 :=
  [ascii "[", errText, ascii "] [", module, ascii "] [", silogPrelogLevelToString level,
   ascii "] "].flatten

theorem vprintf_prefixText :
    vprintf convertPlain prefixFormat (prefixArgs errText module level) =
      .text (prefixText errText module level) := rfl

/-- The length of the prefix: its three texts and 9 bytes between them. -/
def prefixLength : ℕ := errText.length + module.length + (silogPrelogLevelToString level).length + 9

theorem length_prefixText : (prefixText errText module level).length = prefixLength errText module level := by
  simp only [prefixText, prefixLength, List.flatten_cons, List.flatten_nil, List.length_append,
    List.length_nil, show (ascii "[").length = 1 from rfl, show (ascii "] [").length = 3 from rfl,
    show (ascii "] ").length = 2 from rfl]
  omega

end prefixText

section call
variable {errText module : List UInt8} {level : UInt32} {buf : List UInt8}

/-- The offset is the length of the prefix, however long that is; the array holds what fits. -/
theorem messageCall_of_le (hbuf : buf.length = msgMax) (hle : prefixLength errText module level ≤ intMax) :
    ∃ buf', messageCall errText module level buf =
        some ⟨prefixLength errText module level,
          sizeT (msgMax - prefixLength errText module level), buf'⟩ ∧
      buf'.length = msgMax ∧ (prefixText errText module level).take 1023 ++ [0] <+: buf' := by
  rw [← length_prefixText] at hle ⊢
  obtain ⟨buf', hformat, hlen, hpre⟩ :=
    snprintfS_text (n := 1023) (vprintf_prefixText errText module level) hbuf hle
  have hformat' : snprintfS convertPlain (some buf) msgMax (msgMax - 1) (some prefixFormat)
      (prefixArgs errText module level) =
      some (((prefixText errText module level).length : ℤ), some buf') := hformat
  have hnot : ¬ ((prefixText errText module level).length : ℤ) < 0 := by omega
  refine ⟨buf', ?_, hlen, hpre⟩
  unfold messageCall
  simp only [hformat', Option.bind_eq_bind, Option.bind_some, if_neg hnot]
  rfl

/-- A prefix that is too long for an `int` is left out. -/
theorem messageCall_of_lt (hbuf : buf.length = msgMax) (hlt : intMax < prefixLength errText module level) :
    ∃ buf', messageCall errText module level buf = some ⟨0, msgMax, buf'⟩ ∧ buf'.length = msgMax := by
  rw [← length_prefixText] at hlt
  have hformat : snprintfS convertPlain (some buf) msgMax (msgMax - 1) (some prefixFormat)
      (prefixArgs errText module level) = some (-1, some (buf.set 0 0)) :=
    snprintfS_too_long (vprintf_prefixText errText module level) (by decide) hlt
  refine ⟨(buf.set 0 0).set 0 0, ?_, ?_⟩
  · unfold messageCall
    simp only [hformat, Option.bind_eq_bind, Option.bind_some]
    rfl
  · rw [List.length_set, List.length_set, hbuf]

end call

/-! ## Section 4: The second call -/

/-- The call starts inside the array, and its size is what is left of the array. -/
structure MessageCall.Inside (call : MessageCall) : Prop where
  lower : 0 ≤ call.offset
  upper : call.offset < msgMax
  size  : (call.size : ℤ) = msgMax - call.offset

theorem inside_iff_lt {n : ℕ} {buf : List UInt8} :
    MessageCall.Inside ⟨n, sizeT (msgMax - n), buf⟩ ↔ n < msgMax := by
  constructor
  · intro h
    exact Int.ofNat_lt.mp h.upper
  · intro hlt
    have hleft : (sizeT (msgMax - n) : ℤ) = msgMax - n := by
      apply sizeT_of_lt
      · omega
      · unfold msgMax
        omega
    exact ⟨Int.natCast_nonneg n, Int.ofNat_lt.mpr hlt, hleft⟩

theorem inside_start {buf : List UInt8} : MessageCall.Inside ⟨0, msgMax, buf⟩ where
  lower := Int.le_refl 0
  upper := Int.ofNat_lt.mpr (by decide)
  size  := (Int.sub_zero _).symm

/-- Such a call writes to the array only. -/
theorem MessageCall.Inside.run {call : MessageCall} (h : call.Inside) (hbuf : call.buf.length = msgMax)
    {output : Output} (hout : output ≠ .undefined) :
    ∃ msgLen buf, call.run output = some (msgLen, buf) ∧ buf.length = msgMax := by
  have hlower := h.lower
  have hupper := h.upper
  have hsize := h.size
  have hleft : call.size ≤ (call.buf.drop call.offset.toNat).length := by
    rw [List.length_drop, hbuf]
    omega
  obtain ⟨msgLen, rest, hrun, hrest⟩ := vsnprintf_length hout hleft
  refine ⟨msgLen, call.buf.take call.offset.toNat ++ rest, ?_, ?_⟩
  · unfold MessageCall.run
    rw [if_neg (by rw [hbuf]; omega), hrun]
    rfl
  · rw [List.length_append, hrest, List.length_take, List.length_drop, hbuf]
    omega

/-- What follows the prefix does not depend on it. -/
theorem silogPrelogWriteV_eq {errText module : List UInt8} {level : UInt32} {buf : List UInt8}
    {call : MessageCall} (hcall : messageCall errText module level buf = some call)
    (convert : Conversion → List Arg → Option (List UInt8)) {m : SilogPrelogManager} (fmt : List UInt8)
    (args : List Arg) (hinit : m.initialized = true) (hlevel : m.config.minLevel ≤ level) :
    silogPrelogWriteV convert m errText (some module) level (some fmt) args buf =
      (call.run (vprintf convert fmt args)).bind fun r => m.finish r.1 r.2 := by
  unfold silogPrelogWriteV
  simp only [hinit, Bool.true_eq_false, if_false, if_neg (UInt32.not_lt.mpr hlevel), hcall,
    Option.bind_eq_bind, Option.bind_some]

/-- **The message stays in the array.** In every call of `SilogPrelogWriteV` that gets to its
    second formatting call, that call starts inside the array and is given the size that is left
    of it, exactly if the prefix is shorter than the array or too long for an `int`.  The
    message is then formatted inside the array. -/
theorem messageCall_inside_iff (errText module : List UInt8) (level : UInt32) (buf : Vector UInt8 msgMax) :
    ∃ call, messageCall errText module level buf.toList = some call ∧
      (∀ convert m fmt args, m.initialized = true → m.config.minLevel ≤ level →
        silogPrelogWriteV convert m errText (some module) level (some fmt) args buf.toList =
          (call.run (vprintf convert fmt args)).bind fun r => m.finish r.1 r.2) ∧
      (call.Inside ↔ prefixLength errText module level < msgMax ∨
        intMax < prefixLength errText module level) ∧
      (call.Inside → ∀ output, output ≠ .undefined →
        ∃ msgLen buf', call.run output = some (msgLen, buf') ∧ buf'.length = msgMax) := by
  by_cases hle : prefixLength errText module level ≤ intMax
  · obtain ⟨buf', hcall, hlen, _⟩ := messageCall_of_le buf.length_toList hle
    refine ⟨_, hcall, fun convert _ fmt args => silogPrelogWriteV_eq hcall convert fmt args, ?_,
      fun hinside output hout => hinside.run hlen hout⟩
    rw [inside_iff_lt, or_iff_left (not_lt.mpr hle)]
  · obtain ⟨buf', hcall, hlen⟩ := messageCall_of_lt buf.length_toList (not_le.mp hle)
    refine ⟨_, hcall, fun convert _ fmt args => silogPrelogWriteV_eq hcall convert fmt args, ?_,
      fun hinside output hout => hinside.run hlen hout⟩
    exact iff_of_true inside_start (Or.inr (not_le.mp hle))

/-- The manager after `SilogPrelogInit(NULL)`. -/
def started : SilogPrelogManager where
  file := some []
  config := defaultConfig
  initialized := true
  stdout := []

theorem messageCall_inside_iff_daemon :
    ∃ call, messageCall (ascii "Success") (ascii "daemon") 3 (Vector.replicate msgMax 0).toList = some call ∧
      call.Inside ∧
      ∃ msgLen buf', call.run (vprintf convertPlain (ascii "bind failed") []) = some (msgLen, buf') ∧
        buf'.length = msgMax := by
  obtain ⟨call, hcall, _, hiff, hrun⟩ :=
    messageCall_inside_iff (ascii "Success") (ascii "daemon") 3 (Vector.replicate msgMax 0)
  have hinside : call.Inside := hiff.mpr (Or.inl (by decide))
  refine ⟨call, hcall, hinside, hrun hinside _ ?_⟩
  rw [vprintf_of_no_percent _ (by decide)]
  exact Output.noConfusion

/-- A module name of 1100 bytes: the second call starts behind the array, and its size is almost
    the whole address space. -/
theorem long_module_outside :
    (silogPrelogInit (fun _ => true) { started with file := none, initialized := false } none).2 = started ∧
    (∃ buf, messageCall (ascii "Success") (List.replicate 1100 109) 3 (Vector.replicate msgMax 0).toList =
        some ⟨1121, 2 ^ 64 - 97, buf⟩ ∧ ¬ MessageCall.Inside ⟨1121, 2 ^ 64 - 97, buf⟩) ∧
    silogPrelogWriteV convertPlain started (ascii "Success") (some (List.replicate 1100 109)) 3
      (some (ascii "bind failed")) [] (Vector.replicate msgMax 0).toList = none := by
  have hlen : prefixLength (ascii "Success") (List.replicate 1100 109) 3 = 1121 := by
    unfold prefixLength
    rw [List.length_replicate]
    rfl
  have hle : prefixLength (ascii "Success") (List.replicate 1100 109) 3 ≤ intMax := by
    rw [hlen]
    decide
  obtain ⟨buf, hcall, hbuf, _⟩ := messageCall_of_le (Vector.replicate msgMax 0).length_toList hle
  rw [hlen] at hcall
  have hcall' : messageCall (ascii "Success") (List.replicate 1100 109) 3
      (Vector.replicate msgMax 0).toList = some ⟨1121, 2 ^ 64 - 97, buf⟩ := hcall
  refine ⟨rfl, ⟨buf, hcall', fun h => absurd h.upper (show ¬ (1121 : ℤ) < msgMax by decide)⟩, ?_⟩
  unfold silogPrelogWriteV
  simp only [hcall', Option.bind_eq_bind, Option.bind_some]
  have hout : MessageCall.run ⟨1121, 2 ^ 64 - 97, buf⟩
      (vprintf convertPlain (ascii "bind failed") []) = none := by
    unfold MessageCall.run
    rw [if_pos (by rw [hbuf]; exact show (msgMax : ℤ) < 1121 by decide)]
  rw [hout]
  rfl

end SiLog.Prelog
