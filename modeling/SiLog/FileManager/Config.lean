import Mathlib.Data.List.TakeWhile

/-! # Configuration and file names of the file manager (`silog_file_manager.c`)

    The strings of the configuration are C strings in arrays of a fixed size, so
    their length is bounded and no path that is built from them is cut off.
-/

namespace SiLog.FileManager

/-! ## Section 1: Strings -/

/-- The characters of a C string, one for each byte. -/
abbrev Str : Type := List Char

/-- Stated once, so that the definitions that compare strings do not each carry a proof of it. -/
instance : LawfulBEq Str := inferInstance

/-- A C string in an array of `n` bytes. -/
structure CString (n : ℕ) where
  chars : Str
  noNul : Char.ofNat 0 ∉ chars
  lt    : chars.length < n

/-- What `snprintf_s(dest, destMax, destMax - 1, ...)` stores of a formatted text.  It
    cuts a text that is too long and does not report it. -/
def snprintfS (destMax : ℕ) (text : Str) : Str := text.take (destMax - 1)

/-- `snprintf_s(dest, n, n - 1, "%s", text)`.  The argument ends at its first NUL. -/
def CString.ofText (n : ℕ) (hn : 0 < n) (text : Str) : CString n where
  chars := snprintfS n (text.takeWhile (· ≠ Char.ofNat 0))
  noNul := fun h => by
    have := List.mem_takeWhile_imp (List.mem_of_mem_take h)
    simp at this
  lt := by
    unfold snprintfS
    rw [List.length_take]
    omega

/-- `PATH_MAX_LEN` -/
abbrev pathMaxLen : ℕ := 512

def dotLog : Str := ['.', 'l', 'o', 'g']
def dotGz : Str := ['.', 'g', 'z']

/-! ## Section 2: Configuration -/

/-- `SilogFlushMode` -/
inductive SilogFlushMode where
  | sync
  | async
  deriving DecidableEq

/-- `SilogCompressMode` -/
inductive SilogCompressMode where
  | sync
  | async
  deriving DecidableEq

/-- `SilogLogFileConfig` -/
structure SilogLogFileConfig where
  logDir               : CString 256
  logFileBase          : CString 64
  maxFileSize          : UInt32
  maxFileCount         : UInt32
  enableCompression    : Bool
  compressMode         : SilogCompressMode
  flushMode            : SilogFlushMode
  asyncFlushIntervalMs : UInt32
  asyncFlushSize       : UInt32
  rotateRetryCount     : UInt32
  rotateRetryDelayMs   : UInt32

/-- `DEFAULT_LOG_DIR` -/
def defaultLogDir : CString 256 where
  chars := ['/', 't', 'm', 'p', '/', 's', 'i', 'l', 'o', 'g']
  noNul := by decide
  lt := by decide

/-- `DEFAULT_LOG_FILE_BASE` -/
def defaultLogFileBase : CString 64 where
  chars := ['s', 'i', 'l', 'o', 'g']
  noNul := by decide
  lt := by decide

/-- `SilogFileManagerGetDefaultConfig` -/
def silogFileManagerGetDefaultConfig : SilogLogFileConfig where
  logDir := defaultLogDir
  logFileBase := defaultLogFileBase
  maxFileSize := 10 * 1024 * 1024
  maxFileCount := 10
  enableCompression := true
  compressMode := .async
  flushMode := .async
  asyncFlushIntervalMs := 1000
  asyncFlushSize := 4 * 1024
  rotateRetryCount := 3
  rotateRetryDelayMs := 100

/-! ## Section 3: Paths -/

/-- `SilogFileManagerGetCurrentPath` -/
def silogFileManagerGetCurrentPath (config : SilogLogFileConfig) : Str :=
  snprintfS pathMaxLen (config.logDir.chars ++ ['/'] ++ config.logFileBase.chars ++ dotLog)

/-- The history name that `SilogFileManagerRotateInternal` tries as number `seq`. -/
def historyPath (config : SilogLogFileConfig) (timestamp : CString 32) (seq : ℕ) : Str :=
  if seq = 0 then
    snprintfS pathMaxLen (config.logDir.chars ++ ['/'] ++ config.logFileBase.chars ++ ['_'] ++
      timestamp.chars ++ dotLog)
  else
    snprintfS pathMaxLen (config.logDir.chars ++ ['/'] ++ config.logFileBase.chars ++ ['_'] ++
      timestamp.chars ++ ['_'] ++ Nat.toDigits 10 seq ++ dotLog)

theorem snprintfS_eq {destMax : ℕ} {text : Str} (h : text.length ≤ destMax - 1) :
    snprintfS destMax text = text :=
  List.take_of_length_le h

theorem currentPath_eq (config : SilogLogFileConfig) :
    silogFileManagerGetCurrentPath config =
      config.logDir.chars ++ ['/'] ++ config.logFileBase.chars ++ dotLog := by
  have hdir := config.logDir.lt
  have hbase := config.logFileBase.lt
  apply snprintfS_eq
  simp only [List.length_append, dotLog, List.length_cons, List.length_nil, pathMaxLen]
  omega

/-- A history name is not cut off. -/
theorem historyPath_eq (config : SilogLogFileConfig) (timestamp : CString 32) {seq : ℕ}
    (hseq : seq < 10) :
    historyPath config timestamp seq =
      config.logDir.chars ++ ['/'] ++ config.logFileBase.chars ++ ['_'] ++ timestamp.chars ++
        (if seq = 0 then [] else ['_'] ++ Nat.toDigits 10 seq) ++ dotLog := by
  have hdir := config.logDir.lt
  have hbase := config.logFileBase.lt
  have hts := timestamp.lt
  have hdigits : (Nat.toDigits 10 seq).length = 1 := by
    rw [Nat.toDigits_of_lt_base hseq]
    rfl
  unfold historyPath
  split
  · rw [snprintfS_eq (by simp [dotLog, pathMaxLen]; omega), List.append_nil]
  · rw [snprintfS_eq (by simp [dotLog, hdigits, pathMaxLen]; omega)]
    simp only [List.append_assoc]

/-- A history name is longer than the name of the current file, and shorter than the
    buffer. -/
theorem length_historyPath (config : SilogLogFileConfig) (timestamp : CString 32) {seq : ℕ}
    (hseq : seq < 10) :
    (silogFileManagerGetCurrentPath config).length < (historyPath config timestamp seq).length ∧
    (historyPath config timestamp seq).length < pathMaxLen := by
  have hdir := config.logDir.lt
  have hbase := config.logFileBase.lt
  have hts := timestamp.lt
  have hsuffix : (if seq = 0 then [] else ['_'] ++ Nat.toDigits 10 seq).length ≤ 2 := by
    rw [Nat.toDigits_of_lt_base hseq]
    split <;> simp
  rw [currentPath_eq, historyPath_eq config timestamp hseq]
  simp only [List.length_append, dotLog, List.length_cons, List.length_nil, pathMaxLen] at hsuffix ⊢
  omega

theorem historyPath_ne_currentPath (config : SilogLogFileConfig) (timestamp : CString 32) {seq : ℕ}
    (hseq : seq < 10) :
    historyPath config timestamp seq ≠ silogFileManagerGetCurrentPath config := by
  intro heq
  have hlt := (length_historyPath config timestamp hseq).1
  rw [heq] at hlt
  exact lt_irrefl _ hlt

end SiLog.FileManager
