import SiLog.FileManager.Clean
import SiLog.Lib.Files
import SiLog.Lib.Lts

/-! # The file manager (`silog_file_manager.c`)

    One global record, guarded by a lock that every public function holds from
    beginning to end: a run is a sequence of complete calls, with rounds of the
    compression thread between them.  `SilogFileManagerRotateInternal` closes
    the current file, renames it with a few attempts and opens it again, for
    appending when no attempt succeeded and else for writing from the start.

    What the system calls return is part of a call: whether `fopen` succeeds,
    whether an attempt to rename does, what `scandir` finds, what the clock
    says.  `fwrite` writes a whole record or nothing.
-/

open Files Lts

namespace SiLog.FileManager

/-! ## Section 1: State -/

/-- `SilogFileManager` without its lock.  `compressThread` tells whether a thread runs
    under the handle; `compressQueue` is `none` when it owns no buffers. -/
structure SilogFileManager where
  config                : SilogLogFileConfig
  currentFd             : Option (FileStream Str UInt8)
  currentSize           : UInt32
  asyncBufferSize       : UInt64
  lastFlushTimeMs       : UInt64
  initialized           : Bool
  compressThread        : Bool
  compressQueue         : Option (List Str)
  compressThreadRunning : Bool

/-- `g_fileManager` and the files. -/
structure System where
  fm : SilogFileManager
  fs : Fs Str UInt8

/-- The configuration in `g_fileManager` before the first call. -/
def zeroConfig : SilogLogFileConfig where
  logDir := ⟨[], List.not_mem_nil, by decide⟩
  logFileBase := ⟨[], List.not_mem_nil, by decide⟩
  maxFileSize := 0
  maxFileCount := 0
  enableCompression := false
  compressMode := .sync
  flushMode := .sync
  asyncFlushIntervalMs := 0
  asyncFlushSize := 0
  rotateRetryCount := 0
  rotateRetryDelayMs := 0

/-- The process before its first call. -/
def System.initial (fs : Fs Str UInt8) : System where
  fm :=
    { config := zeroConfig, currentFd := none, currentSize := 0, asyncBufferSize := 0,
      lastFlushTimeMs := 0, initialized := false, compressThread := false,
      compressQueue := none, compressThreadRunning := false }
  fs := fs

/-- The path of the current file. -/
def System.currentPath (s : System) : Str := silogFileManagerGetCurrentPath s.fm.config

/-- The rename step of a rotation: the target of the attempt that succeeded, if one
    did, and the files right after it. -/
structure Renaming where
  target : Option Str
  fs     : Fs Str UInt8

/-- What a call returns and leaves behind, and the rename step if it came to one. -/
structure Outcome where
  ret      : ErrorCode
  sys      : System
  renamed  : Option Renaming

/-- A call that does not rotate. -/
def System.returns (s : System) (ret : ErrorCode) : Outcome := ⟨ret, s, none⟩

/-! ## Section 2: Compression -/

/-- `COMPRESS_QUEUE_SIZE` -/
def compressQueueSize : ℕ := 64

/-- `SilogFileManagerDoCompress`, for a path that the shell leaves as it is.  `gzip` tells whether
    `system` runs `gzip` and that can write; if not, the file stays and nobody is told. -/
def silogFileManagerDoCompress (fs : Fs Str UInt8) (gzip : Bool) (filePath : Str) : Fs Str UInt8 :=
  if gzip then fs.pack filePath (filePath ++ dotGz) else fs

/-- `SilogFileManagerDoCompress` for one task after the other. -/
def compressTasks : Fs Str UInt8 → (ℕ → Bool) → List Str → Fs Str UInt8
  | fs, _, [] => fs
  | fs, gzips, task :: tasks =>
    compressTasks (silogFileManagerDoCompress fs (gzips 0) task) (fun i => gzips (i + 1)) tasks

/-- `SilogFileManagerCompressFile`.  A full queue drops the task. -/
def silogFileManagerCompressFile (s : System) (gzip : Bool) (filePath : Str) : System :=
  if s.fm.config.enableCompression = false then s
  else
    match s.fm.config.compressMode with
    | .async =>
      let task := snprintfS 512 filePath
      { s with fm := { s.fm with
          compressQueue := s.fm.compressQueue.map fun tasks =>
            if tasks.length < compressQueueSize then tasks ++ [task] else tasks } }
    | .sync => { s with fs := silogFileManagerDoCompress s.fs gzip filePath }

/-- One round of `SilogFileManagerCompressThread`. -/
def silogFileManagerCompressThread (s : System) (gzip : Bool) : System :=
  match s.fm.compressThread, s.fm.compressQueue with
  | true, some (task :: tasks) =>
    { fm := { s.fm with compressQueue := some tasks }
      fs := silogFileManagerDoCompress s.fs gzip task }
  | _, _ => s

/-! ## Section 3: Rotation -/

/-- `MAX_SEQ_RETRY_COUNT` -/
abbrev maxSeqRetryCount : ℕ := 10

/-- The search for a history name.  When all names are taken, the last one tried is the
    result. -/
def findHistoryPath (config : SilogLogFileConfig) (fs : Fs Str UInt8) (timestamp : CString 32) :
    ℕ → ℕ → Str → Str
  | 0, _, path => path
  | fuel + 1, seq, path =>
    -- `while (seq < MAX_SEQ_RETRY_COUNT)`: a name for which `stat` fails is free
    if seq < maxSeqRetryCount then
      let path := historyPath config timestamp seq
      if (fs path).isNone then path
      else findHistoryPath config fs timestamp fuel (seq + 1) path
    else path

/-- The attempts to rename from number `retry` on; `none` if all fail.  `renames` tells
    whether the system lets an attempt succeed. -/
def renameLoop (fs : Fs Str UInt8) (source target : Str) (renames : ℕ → Bool) :
    ℕ → ℕ → Option (Fs Str UInt8)
  | 0, _ => none
  | fuel + 1, retry =>
    -- the pause between two attempts changes nothing
    match (if renames retry then fs.rename source target else none) with
    | some fs' => some fs'
    | none => renameLoop fs source target renames fuel (retry + 1)

/-- `fflush` and `fclose` of the current file. -/
def System.closeCurrent (s : System) : System :=
  match s.fm.currentFd with
  | none => s
  | some st => { fm := { s.fm with currentFd := none }, fs := (st.flush s.fs).2 }

/-- What a rotation meets.  `timestamp` is the formatted time, `reopen` tells whether `fopen`
    succeeds and `gzip` whether `gzip` does; `scan` and `mem` are for the clean-up, and `unlink`
    tells which files can be deleted. -/
structure RotateEnv where
  timestamp : CString 32
  renames   : ℕ → Bool
  reopen    : Bool
  gzip      : Bool
  scan      : Option (List DirEntry)
  mem       : ℕ → FileInfo
  unlink    : Str → Bool

/-- The history name of a rotation. -/
def System.historyTarget (s : System) (timestamp : CString 32) : Str :=
  findHistoryPath s.fm.config s.fs timestamp maxSeqRetryCount 0 []

/-- Close the current file and try to rename it: the files after the attempt that
    succeeds. -/
def System.renameCurrent (s : System) (env : RotateEnv) : Option (Fs Str UInt8) :=
  renameLoop s.closeCurrent.fs s.currentPath (s.historyTarget env.timestamp) env.renames
    s.fm.config.rotateRetryCount.toNat 0

/-- `SilogFileManagerCleanOldFiles` deletes files; one that cannot be deleted stays. -/
def System.cleanOldFiles (s : System) (scan : Option (List DirEntry)) (mem : ℕ → FileInfo)
    (unlink : Str → Bool) : System :=
  { s with fs :=
      ((silogFileManagerCleanOldFiles s.fm.config scan mem).2.filter unlink).foldl Fs.unlink s.fs }

/-- `SilogFileManagerRotateInternal` -/
def silogFileManagerRotateInternal (s : System) (env : RotateEnv) : Outcome :=
  let target := s.historyTarget env.timestamp
  let s₁ := s.closeCurrent
  match s.renameCurrent env with
  | none =>
    -- no attempt succeeded: append to the current file
    if env.reopen then
      let r := fopenAppend s₁.fs s.currentPath
      ⟨.fileWrite, ⟨{ s₁.fm with currentFd := some r.1 }, r.2⟩, some ⟨none, s₁.fs⟩⟩
    else ⟨.fileOpen, s₁, some ⟨none, s₁.fs⟩⟩
  | some fs₂ =>
    if env.reopen then
      let r := fopenWrite fs₂ s.currentPath
      let s₂ : System :=
        ⟨{ s₁.fm with currentFd := some r.1, currentSize := 0, asyncBufferSize := 0 }, r.2⟩
      ⟨.ok, (silogFileManagerCompressFile s₂ env.gzip target).cleanOldFiles env.scan env.mem env.unlink,
        some ⟨some target, fs₂⟩⟩
    else ⟨.fileOpen, ⟨s₁.fm, fs₂⟩, some ⟨some target, fs₂⟩⟩

/-- `SilogFileManagerRotate` -/
def silogFileManagerRotate (s : System) (env : RotateEnv) : Outcome :=
  if s.fm.initialized = false then s.returns .fileManagerNotInit
  else silogFileManagerRotateInternal s env

/-! ## Section 4: Init and Deinit -/

/-- What `stat` and `mkdir` say about the log directory. -/
inductive DirOutcome where
  | directory
  /-- The path exists and is not a directory. -/
  | other
  /-- `mkdir` succeeds, or another process was faster (`EEXIST`). -/
  | created
  | failed
  deriving DecidableEq

/-- `SilogFileManagerEnsureDir` -/
def silogFileManagerEnsureDir : DirOutcome → ErrorCode
  | .directory => .ok
  | .other => .fileOpen
  | .created => .ok
  | .failed => .fileOpen

/-- What `SilogFileManagerInit` meets. -/
structure InitEnv where
  dir           : DirOutcome
  fopen         : Bool
  stat          : Bool
  queueInit     : ErrorCode
  pthreadCreate : Bool
  now           : UInt64

/-- `SilogFileManagerInitWithConfig`.  When the thread cannot be created,
    `compressThreadRunning` stays set. -/
def silogFileManagerInitWithConfig (s : System) (config : SilogLogFileConfig) (env : InitEnv) :
    Outcome :=
  if s.fm.initialized then s.returns .ok
  else
    let fm₁ := { s.fm with config := config }
    if silogFileManagerEnsureDir env.dir ≠ .ok then
      { s with fm := fm₁ }.returns (silogFileManagerEnsureDir env.dir)
    else
      let path := silogFileManagerGetCurrentPath config
      if env.fopen = false then
        { s with fm := { fm₁ with currentFd := none } }.returns .fileOpen
      else
        let r := fopenAppend s.fs path
        -- `currentSize` is a `uint32_t`, whatever the size of the file
        let size := if env.stat then UInt32.ofNat (r.2.content path).length else 0
        let fm₂ := { fm₁ with currentFd := some r.1, currentSize := size }
        -- from here on a failure closes the file again
        if env.queueInit ≠ .ok then
          System.returns ⟨{ fm₂ with currentFd := none }, (r.1.flush r.2).2⟩ env.queueInit
        else if env.pthreadCreate = false then
          let fm₃ := { fm₂ with
            currentFd := none, compressQueue := none, compressThreadRunning := true }
          System.returns ⟨fm₃, (r.1.flush r.2).2⟩ .threadCreate
        else
          let fm₃ := { fm₂ with
            compressThread := true, compressQueue := some [], compressThreadRunning := true,
            asyncBufferSize := 0, lastFlushTimeMs := env.now, initialized := true }
          System.returns ⟨fm₃, r.2⟩ .ok

/-- `SilogFileManagerInit`; no configuration is the default one. -/
def silogFileManagerInit (s : System) (config : Option SilogLogFileConfig) (env : InitEnv) : Outcome :=
  silogFileManagerInitWithConfig s (config.getD silogFileManagerGetDefaultConfig) env

/-- `SilogFileManagerDeinit`.  The compression thread finishes the tasks that are left
    before it is joined; joining a handle without a thread is taken to return. -/
def silogFileManagerDeinit (s : System) (gzips : ℕ → Bool) : Outcome :=
  let s₁ := s.closeCurrent
  let fm₂ := { s₁.fm with initialized := false }
  if s.fm.compressThreadRunning then
    -- the thread works off what is left behind its loop
    let tasks := if s.fm.compressThread then s.fm.compressQueue.getD [] else []
    let fm₃ := { fm₂ with
      compressThreadRunning := false, compressThread := false, compressQueue := none }
    System.returns ⟨fm₃, compressTasks s₁.fs gzips tasks⟩ .ok
  else System.returns ⟨fm₂, s₁.fs⟩ .ok

/-! ## Section 5: Setters -/

/-- Change the configuration. -/
def System.setConfig (s : System) (f : SilogLogFileConfig → SilogLogFileConfig) : System :=
  { s with fm := { s.fm with config := f s.fm.config } }

/-- A setter for a string, refused after `SilogFileManagerInit`; the argument may be
    `NULL`. -/
def System.setText (s : System) (text : Option Str)
    (f : Str → SilogLogFileConfig → SilogLogFileConfig) : Outcome :=
  match text with
  | none => s.returns .invalidArg
  | some text => if s.fm.initialized then s.returns .busy else (s.setConfig (f text)).returns .ok

def silogFileManagerSetLogDir (s : System) (dir : Option Str) : Outcome :=
  s.setText dir fun dir c => { c with logDir := CString.ofText 256 (by decide) dir }

def silogFileManagerSetLogFileBase (s : System) (base : Option Str) : Outcome :=
  s.setText base fun base c => { c with logFileBase := CString.ofText 64 (by decide) base }

def silogFileManagerSetMaxFileSize (s : System) (size : UInt32) : Outcome :=
  (s.setConfig fun c => { c with maxFileSize := size }).returns .ok

def silogFileManagerSetMaxFileCount (s : System) (count : UInt32) : Outcome :=
  (s.setConfig fun c => { c with maxFileCount := count }).returns .ok

def silogFileManagerSetCompression (s : System) (enable : Bool) : Outcome :=
  (s.setConfig fun c => { c with enableCompression := enable }).returns .ok

def silogFileManagerSetCompressMode (s : System) (mode : SilogCompressMode) : Outcome :=
  (s.setConfig fun c => { c with compressMode := mode }).returns .ok

def silogFileManagerSetFlushMode (s : System) (mode : SilogFlushMode) : Outcome :=
  (s.setConfig fun c => { c with flushMode := mode }).returns .ok

def silogFileManagerSetAsyncFlushInterval (s : System) (intervalMs : UInt32) : Outcome :=
  (s.setConfig fun c => { c with asyncFlushIntervalMs := intervalMs }).returns .ok

def silogFileManagerSetAsyncFlushSize (s : System) (size : UInt32) : Outcome :=
  (s.setConfig fun c => { c with asyncFlushSize := size }).returns .ok

/-! ## Section 6: Writing -/

/-- The bytes `data[0..len)` of a call. -/
structure Record where
  bytes : List UInt8
  lt    : bytes.length < 2 ^ 32

def Record.len (r : Record) : UInt32 := UInt32.ofNat r.bytes.length

theorem Record.toNat_len (d : Record) : d.len.toNat = d.bytes.length := UInt32.toNat_ofNat_of_lt' d.lt

/-- What a write meets: `written` tells whether `fwrite` takes the record, `passed` how
    many of the bytes held back then go to the file. -/
structure WriteEnv where
  rotate  : RotateEnv
  written : Bool
  passed  : ℕ
  now     : UInt64

/-- `fflush` of the stream `st` that is the current file. -/
def System.flushCurrent (s : System) (st : FileStream Str UInt8) : System :=
  ⟨{ s.fm with currentFd := some (st.flush s.fs).1, asyncBufferSize := 0 }, (st.flush s.fs).2⟩

/-- The end of `SilogFileManagerWriteRaw`: flush if the mode, the amount held back or the
    time since the last flush asks for it. -/
def System.flushAfterWrite (s : System) (st : FileStream Str UInt8) (len : UInt32) (now : UInt64) :
    System :=
  match s.fm.config.flushMode with
  | .sync => s.flushCurrent st
  | .async =>
    -- the times are milliseconds in 64 bits and their difference wraps
    let size := s.fm.asyncBufferSize + len.toUInt64
    if s.fm.config.asyncFlushSize.toUInt64 ≤ size ∨
        s.fm.config.asyncFlushIntervalMs.toUInt64 ≤ now - s.fm.lastFlushTimeMs then
      let s' := s.flushCurrent st
      { s' with fm := { s'.fm with lastFlushTimeMs := now } }
    else { s with fm := { s.fm with currentFd := some st, asyncBufferSize := size } }

/-- `SilogFileManagerWriteRaw` from `fwrite` on. -/
def System.writeRecord (s : System) (data : Record) (env : WriteEnv) : ErrorCode × System :=
  match s.fm.currentFd with
  | none => (.fileManagerNotInit, s) -- not reached: the caller has seen a current file
  | some st =>
    if env.written = false then
      let r := st.spill s.fs env.passed
      (.fileWrite, ⟨{ s.fm with currentFd := some r.1 }, r.2⟩)
    else
      let r := st.write s.fs data.bytes env.passed
      let s' : System := ⟨{ s.fm with currentSize := s.fm.currentSize + data.len }, r.2⟩
      (.ok, s'.flushAfterWrite r.1 data.len env.now)

/-- `SilogFileManagerWriteRaw`; the argument may be `NULL`. -/
def silogFileManagerWriteRaw (s : System) (data : Option Record) (env : WriteEnv) : Outcome :=
  match data with
  | none => s.returns .invalidArg
  | some data =>
    if data.len = 0 then s.returns .invalidArg
    else if s.fm.initialized = false ∨ s.fm.currentFd.isNone then s.returns .fileManagerNotInit
    -- the sum is one of 32-bit words
    else if s.fm.config.maxFileSize ≤ s.fm.currentSize + data.len then
      let r := silogFileManagerRotateInternal s env.rotate
      if r.ret ≠ .ok then r
      else
        let w := r.sys.writeRecord data env
        ⟨w.1, w.2, r.renamed⟩
    else
      let w := s.writeRecord data env
      ⟨w.1, w.2, none⟩

/-- `SilogFileManagerFlush` -/
def silogFileManagerFlush (s : System) (now : UInt64) : Outcome :=
  match s.fm.currentFd with
  | none => s.returns .ok
  | some st =>
    let s' := s.flushCurrent st
    { s' with fm := { s'.fm with lastFlushTimeMs := now } }.returns .ok

/-! ## Section 7: Runs -/

/-- A call with what it meets, or a round of the compression thread. -/
inductive Call where
  | init (config : Option SilogLogFileConfig) (env : InitEnv)
  | deinit (gzips : ℕ → Bool)
  | setLogDir (dir : Option Str)
  | setLogFileBase (base : Option Str)
  | setMaxFileSize (size : UInt32)
  | setMaxFileCount (count : UInt32)
  | setCompression (enable : Bool)
  | setCompressMode (mode : SilogCompressMode)
  | setFlushMode (mode : SilogFlushMode)
  | setAsyncFlushInterval (intervalMs : UInt32)
  | setAsyncFlushSize (size : UInt32)
  | writeRaw (data : Option Record) (env : WriteEnv)
  | rotate (env : RotateEnv)
  | flush (now : UInt64)
  | compress (gzip : Bool)

/-- Carry out a call. -/
def System.call (s : System) : Call → Outcome
  | .init config env => silogFileManagerInit s config env
  | .deinit gzips => silogFileManagerDeinit s gzips
  | .setLogDir dir => silogFileManagerSetLogDir s dir
  | .setLogFileBase base => silogFileManagerSetLogFileBase s base
  | .setMaxFileSize size => silogFileManagerSetMaxFileSize s size
  | .setMaxFileCount count => silogFileManagerSetMaxFileCount s count
  | .setCompression enable => silogFileManagerSetCompression s enable
  | .setCompressMode mode => silogFileManagerSetCompressMode s mode
  | .setFlushMode mode => silogFileManagerSetFlushMode s mode
  | .setAsyncFlushInterval intervalMs => silogFileManagerSetAsyncFlushInterval s intervalMs
  | .setAsyncFlushSize size => silogFileManagerSetAsyncFlushSize s size
  | .writeRaw data env => silogFileManagerWriteRaw s data env
  | .rotate env => silogFileManagerRotate s env
  | .flush now => silogFileManagerFlush s now
  | .compress gzip => (silogFileManagerCompressThread s gzip).returns .ok

/-- The transition relation. -/
def Step (s : System) (c : Call) (s' : System) : Prop := s' = (s.call c).sys

/-! ### Calls that meet no failure -/

/-- `20240101_000000_000` -/
def newYear : CString 32 where
  chars := ['2', '0', '2', '4', '0', '1', '0', '1', '_', '0', '0', '0', '0', '0', '0', '_', '0', '0', '0']
  noNul := by decide
  lt := by decide

/-- All system calls succeed and the directory scan finds nothing to delete. -/
def smoothRotate : RotateEnv where
  timestamp := newYear
  renames := fun _ => true
  reopen := true
  gzip := true
  scan := some []
  mem := fun _ => noFile
  unlink := fun _ => true

def smoothInit : InitEnv where
  dir := .directory
  fopen := true
  stat := true
  queueInit := .ok
  pthreadCreate := true
  now := 0

def plainConfig : SilogLogFileConfig :=
  { silogFileManagerGetDefaultConfig with enableCompression := false }

/-- One byte is written and stays in the stream. -/
def smoothWrite : WriteEnv where
  rotate := smoothRotate
  written := true
  passed := 0
  now := 0

def recordSeven : Record := ⟨[7], by decide⟩

end SiLog.FileManager
