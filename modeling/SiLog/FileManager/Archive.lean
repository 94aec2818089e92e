import SiLog.FileManager.Stems
import SiLog.FileManager.Conservation
import SiLog.FileManager.Compress
import SiLog.Lib.Archive

/-! # The log and its archive

    With compression on a rotated file is packed later, by the compression
    thread or in the rotation itself, and the clean-up deletes history files
    when there are too many.  The log is then an archive: the parts that were
    rotated away, each in a file of its own, packed or not, or deleted, and
    the current file.

    The records that were accepted are all in there, in order, whatever fails
    on the way, as long as a rotation finds a name without a file, and one that
    the shell leaves as it is when it is to be compressed.  The name may be that
    of a part that was packed: `gzip` then leaves the new file alone.
-/

open Files Lts Archive Shell

namespace SiLog.FileManager

open Stems (dotLog_ne_dotGz dotGz_ne_currentPath append_dotGz_ne_self)

/-! ## Section 1: What happens to the history files -/

/-- The file that `gzip` makes of the one at `path`. -/
abbrev gz (path : Str) : Str := path ++ dotGz

/-- `gzip` for one task: it packs the file if it is there and is not packed under this name
    already. -/
def packs (fs : Fs Str UInt8) (gzip : Bool) (task : Str) : List (Event Str UInt8) :=
  if gzip ∧ (fs task).isSome ∧ fs (gz task) = none then [.moved task (gz task)] else []

/-- The same for one task after the other. -/
def packsAll : Fs Str UInt8 → (ℕ → Bool) → List Str → List (Event Str UInt8)
  | _, _, [] => []
  | fs, gzips, task :: tasks =>
    packs fs (gzips 0) task ++
      packsAll (silogFileManagerDoCompress fs (gzips 0) task) (fun i => gzips (i + 1)) tasks

/-- Compression behind a rotation, unless it is left to the thread. -/
def System.packsNow (s : System) (fs : Fs Str UInt8) (gzip : Bool) (target : Str) :
    List (Event Str UInt8) :=
  if s.fm.config.enableCompression = true ∧ s.fm.config.compressMode = .sync then packs fs gzip target
  else []

/-- The files that the clean-up deletes. -/
def System.cleaned (s : System) (env : RotateEnv) : List Str :=
  (silogFileManagerCleanOldFiles s.fm.config env.scan env.mem).2.filter env.unlink

/-- A rotation: the current file gets its history name, and if it can be opened again compression
    and clean-up follow. -/
def System.rotates (s : System) (env : RotateEnv) : List (Event Str UInt8) :=
  match s.renameCurrent env with
  | none => []
  | some fs =>
    let target := s.historyTarget env.timestamp
    .added target (fs.content target) ::
      if env.reopen then
        s.packsNow (fopenWrite fs s.currentPath).2 env.gzip target ++ (s.cleaned env).map .deleted
      else []

/-- What a call does to the history files. -/
def System.events (s : System) : Call → List (Event Str UInt8)
  | .deinit gzips =>
    if s.fm.compressThreadRunning ∧ s.fm.compressThread then
      packsAll s.closeCurrent.fs gzips (s.fm.compressQueue.getD [])
    else []
  | .compress gzip =>
    match s.fm.compressThread, s.fm.compressQueue with
    | true, some (task :: _) => packs s.fs gzip task
    | _, _ => []
  | c => ((s.rotation c).map s.rotates).getD []

/-- A round of the compression thread takes a task, or finds nothing to do. -/
theorem System.compressThread_cases (s : System) (gzip : Bool) :
    (∃ task tasks, s.fm.compressQueue = some (task :: tasks) ∧
      silogFileManagerCompressThread s gzip =
        ⟨{ s.fm with compressQueue := some tasks }, silogFileManagerDoCompress s.fs gzip task⟩ ∧
      s.events (.compress gzip) = packs s.fs gzip task) ∨
    (silogFileManagerCompressThread s gzip = s ∧ s.events (.compress gzip) = []) := by
  cases hthread : s.fm.compressThread with
  | false =>
    refine Or.inr ⟨?_, ?_⟩
    · simp only [silogFileManagerCompressThread, hthread]
    · simp only [System.events, hthread]
  | true =>
    cases hqueue : s.fm.compressQueue with
    | none =>
      refine Or.inr ⟨?_, ?_⟩
      · simp only [silogFileManagerCompressThread, hthread, hqueue]
      · simp only [System.events, hthread, hqueue]
    | some queue =>
      cases queue with
      | nil =>
        refine Or.inr ⟨?_, ?_⟩
        · simp only [silogFileManagerCompressThread, hthread, hqueue]
        · simp only [System.events, hthread, hqueue]
      | cons task tasks =>
        refine Or.inl ⟨task, tasks, rfl, ?_, ?_⟩
        · simp only [silogFileManagerCompressThread, hthread, hqueue]
        · simp only [System.events, hthread, hqueue]

/-- A run with all that has happened to the history files. -/
structure LogRun where
  run    : Run
  events : List (Event Str UInt8)

def LogRun.initial (fs : Fs Str UInt8) : LogRun := ⟨Run.initial fs, []⟩

def LogRun.next (r : LogRun) (c : Call) : LogRun :=
  ⟨r.run.next c, r.events ++ r.run.sys.events c⟩

/-- The transition relation of runs. -/
def LogStep (r : LogRun) (c : Call) (r' : LogRun) : Prop := r' = r.next c

/-- The call keeps to the log directory and file base, and a rotation finds a name without a
    file, and one that the shell does not change if the file is to be compressed. -/
structure Tidy (config₀ : SilogLogFileConfig) (r : LogRun) (c : Call) : Prop where
  place    : ∀ config env, c = .init config env →
               SamePlace config₀ (config.getD silogFileManagerGetDefaultConfig)
  free     : ∀ env, r.run.sys.rotation c = some env →
               ∃ seq, seq < 10 ∧
                 r.run.sys.fs (historyPath r.run.sys.fm.config env.timestamp seq) = none
  verbatim : ∀ env, r.run.sys.rotation c = some env →
               r.run.sys.fm.config.enableCompression = true →
               Verbatim (r.run.sys.historyTarget env.timestamp)

/-! ## Section 2: Names -/

/-- A path that a rotation may give to the current file. -/
def IsName (current path : Str) : Prop := path ≠ current ∧ ∃ front, path = front ++ dotLog

theorem IsName.ne_gz {current path : Str} (h : IsName current path) (task : Str) : path ≠ gz task := by
  obtain ⟨_, front, rfl⟩ := h
  exact dotLog_ne_dotGz front task

theorem System.historyTarget_isName (s : System) (timestamp : CString 32) :
    IsName s.currentPath (s.historyTarget timestamp) := by
  refine ⟨s.historyTarget_ne_currentPath timestamp, ?_⟩
  obtain ⟨k, hk, heq, _⟩ := s.historyTarget_cases timestamp
  rw [heq, historyPath_eq s.fm.config timestamp hk]
  exact ⟨_, rfl⟩

/-- The task of the compression thread names the whole path. -/
theorem System.historyTarget_task (s : System) (timestamp : CString 32) :
    snprintfS 512 (s.historyTarget timestamp) = s.historyTarget timestamp := by
  have hlen := s.historyTarget_lt timestamp
  unfold pathMaxLen at hlen
  apply snprintfS_eq
  omega

/-! ## Section 3: Calls that do not rotate -/

/-- Streams write to `path`, which is the current path of an initialised manager. -/
structure System.Placed (path : Str) (s : System) : Prop where
  wf    : s.Wf
  place : s.fm.initialized = true → s.currentPath = path

/-- The same without tasks for the compression thread. -/
def System.idle (s : System) : System := { s with fm := { s.fm with compressQueue := none } }

/-- The tasks of the compression thread. -/
def System.tasks (s : System) : List Str := s.fm.compressQueue.getD []

section idle
variable {s s' : System} {path : Str}

theorem System.Placed.settled (h : s.Placed path) : s.idle.Settled path := ⟨h.wf, h.place, rfl⟩

theorem System.Placed.of_idle (h : s.idle.Settled path) : s.Placed path := ⟨h.wf, h.place⟩

/-- The tasks do not matter to the files. -/
theorem Effect.of_idle {target : Option Str} {bytes : List UInt8}
    (h : Effect path s.idle target bytes s'.idle) : Effect path s target bytes s' := by
  cases h with
  | write hbytes hother => exact .write hbytes hother
  | rotate hne hfree htarget hbytes hother => exact .rotate hne hfree htarget hbytes hother

theorem closeCurrent_idle (s : System) : s.idle.closeCurrent = s.closeCurrent.idle := by
  unfold System.closeCurrent System.idle
  dsimp only
  split <;> rfl

theorem closeCurrent_tasks (s : System) : s.closeCurrent.tasks = s.tasks := by
  unfold System.tasks
  rw [s.closeCurrent_fm]

theorem writeRecord_idle (s : System) (d : Record) (env : WriteEnv) :
    s.idle.writeRecord d env = ((s.writeRecord d env).1, (s.writeRecord d env).2.idle) := by
  unfold System.writeRecord
  cases hfd : s.fm.currentFd with
  | none => simp [System.idle, hfd]
  | some st =>
    simp only [System.idle, hfd]
    split
    · rfl
    · unfold System.flushAfterWrite
      dsimp only
      split
      · rfl
      · split <;> rfl

theorem initWithConfig_idle (s : System) (config : SilogLogFileConfig) (env : InitEnv) :
    (silogFileManagerInitWithConfig s.idle config env).sys.idle =
      (silogFileManagerInitWithConfig s config env).sys.idle := by
  unfold silogFileManagerInitWithConfig
  simp only [show s.idle.fm.initialized = s.fm.initialized from rfl]
  split
  · rfl
  · split
    · rfl
    · split
      · rfl
      · split
        · rfl
        · split
          · rfl
          · rfl

theorem initWithConfig_tasks (s : System) (config : SilogLogFileConfig) (env : InitEnv) :
    ∀ t ∈ (silogFileManagerInitWithConfig s config env).sys.tasks, t ∈ s.tasks := by
  intro t ht
  obtain ⟨_, heq⟩ | ⟨_, fm, fs, ret, heq, _, _, hqueue, _⟩ | ⟨_, fm, heq, _, _, hqueue, _⟩ :=
    initWithConfig_cases s config env
  · rw [heq] at ht
    exact ht
  · rw [heq] at ht
    obtain hsame | hnone := hqueue
    · rw [System.tasks, show (System.returns ⟨fm, fs⟩ ret).sys.fm.compressQueue = fm.compressQueue from rfl,
        hsame] at ht
      exact ht
    · rw [System.tasks, show (System.returns ⟨fm, fs⟩ ret).sys.fm.compressQueue = fm.compressQueue from rfl,
        hnone] at ht
      exact absurd ht List.not_mem_nil
  · rw [heq, System.tasks, show (System.returns ⟨fm, _⟩ ErrorCode.ok).sys.fm.compressQueue =
      fm.compressQueue from rfl, hqueue] at ht
    exact absurd ht List.not_mem_nil

/-- What is known of a system without tasks holds with them. -/
theorem transfer {s₁ : System} {target : Option Str} {bytes : List UInt8} (hset : s₁.Settled path)
    (heff : Effect path s.idle target bytes s₁) (heq : s₁.idle = s'.idle) :
    s'.Placed path ∧ Effect path s target bytes s' := by
  have hplaced : s₁.idle.Settled path := ⟨hset.wf, hset.place, rfl⟩
  have heff' : Effect path s.idle target bytes s₁.idle := by
    cases heff with
    | write hbytes hother => exact .write hbytes hother
    | rotate hne hfree htarget hbytes hother => exact .rotate hne hfree htarget hbytes hother
  rw [heq] at hplaced heff'
  exact ⟨.of_idle hplaced, heff'.of_idle⟩

theorem setText_idle (s : System) (text : Option Str)
    (f : Str → SilogLogFileConfig → SilogLogFileConfig) :
    (s.idle.setText text f).sys.idle = (s.setText text f).sys.idle := by
  unfold System.setText
  cases text with
  | none => rfl
  | some text =>
    simp only [show s.idle.fm.initialized = s.fm.initialized from rfl]
    split <;> rfl

theorem setText_tasks (s : System) (text : Option Str)
    (f : Str → SilogLogFileConfig → SilogLogFileConfig) : (s.setText text f).sys.tasks = s.tasks := by
  unfold System.setText
  cases text with
  | none => rfl
  | some text =>
    dsimp only
    split <;> rfl

theorem flush_idle (s : System) (now : UInt64) :
    (silogFileManagerFlush s.idle now).sys.idle = (silogFileManagerFlush s now).sys.idle := by
  unfold silogFileManagerFlush
  simp only [show s.idle.fm.currentFd = s.fm.currentFd from rfl]
  cases s.fm.currentFd with
  | none => rfl
  | some st => rfl

theorem flush_tasks (s : System) (now : UInt64) : (silogFileManagerFlush s now).sys.tasks = s.tasks := by
  unfold silogFileManagerFlush
  cases s.fm.currentFd with
  | none => rfl
  | some st => rfl

theorem writeRecord_tasks (s : System) (d : Record) (env : WriteEnv) :
    (s.writeRecord d env).2.tasks = s.tasks := by
  unfold System.writeRecord
  cases s.fm.currentFd with
  | none => rfl
  | some st =>
    dsimp only
    split
    · rfl
    · unfold System.flushAfterWrite
      dsimp only
      split
      · rfl
      · split <;> rfl

/-- The end of a write: the record is added if the call returns `SILOG_OK`. -/
theorem writeRecord_plain (hs : s.Placed path) (hinit : s.fm.initialized = true) (d : Record)
    (env : WriteEnv) :
    (s.writeRecord d env).2.Placed path ∧
    Effect path s none (if (s.writeRecord d env).1 = .ok then d.bytes else []) (s.writeRecord d env).2 := by
  have hidle := writeRecord_idle s d env
  obtain ⟨hset, heff⟩ := writeRecord_effect hs.settled hinit d env
  rw [hidle] at hset heff
  exact transfer hset heff rfl

/-- A call that neither rotates nor works off tasks adds the record that it accepts to the current
    file. -/
theorem plain_call (hs : s.Placed path) {c : Call} (hrot : s.rotation c = none) (hdeinit : ∀ gzips, c ≠ .deinit gzips)
    (hcompress : ∀ gzip, c ≠ .compress gzip)
    (hplace : ∀ config env, c = .init config env →
      silogFileManagerGetCurrentPath (config.getD silogFileManagerGetDefaultConfig) = path) :
    (s.call c).sys.Placed path ∧
    Effect path s none ((c.accepted (s.call c).ret).getD []) (s.call c).sys ∧
    ∀ t ∈ (s.call c).sys.tasks, t ∈ s.tasks := by
  have hwf := hs.wf.call c
  cases c with
  | init config env =>
    obtain ⟨hset, heff⟩ := initWithConfig_effect hs.settled (hplace config env rfl) env
    obtain ⟨hplaced, heff'⟩ := transfer hset heff (initWithConfig_idle s _ env)
    exact ⟨hplaced, heff', initWithConfig_tasks s _ env⟩
  | deinit gzips => exact absurd rfl (hdeinit gzips)
  | setLogDir dir =>
    obtain ⟨hset, heff⟩ := setText_effect hs.settled dir
      fun dir c => { c with logDir := CString.ofText 256 (by decide) dir }
    obtain ⟨hplaced, heff'⟩ := transfer hset heff (setText_idle s dir _)
    exact ⟨hplaced, heff', fun t ht => setText_tasks s dir _ ▸ ht⟩
  | setLogFileBase base =>
    obtain ⟨hset, heff⟩ := setText_effect hs.settled base
      fun base c => { c with logFileBase := CString.ofText 64 (by decide) base }
    obtain ⟨hplaced, heff'⟩ := transfer hset heff (setText_idle s base _)
    exact ⟨hplaced, heff', fun t ht => setText_tasks s base _ ▸ ht⟩
  | setMaxFileSize size => exact ⟨⟨hwf, hs.place⟩, Effect.of_same rfl rfl, fun _ ht => ht⟩
  | setMaxFileCount count => exact ⟨⟨hwf, hs.place⟩, Effect.of_same rfl rfl, fun _ ht => ht⟩
  | setCompression enable => exact ⟨⟨hwf, hs.place⟩, Effect.of_same rfl rfl, fun _ ht => ht⟩
  | setCompressMode mode => exact ⟨⟨hwf, hs.place⟩, Effect.of_same rfl rfl, fun _ ht => ht⟩
  | setFlushMode mode => exact ⟨⟨hwf, hs.place⟩, Effect.of_same rfl rfl, fun _ ht => ht⟩
  | setAsyncFlushInterval intervalMs => exact ⟨⟨hwf, hs.place⟩, Effect.of_same rfl rfl, fun _ ht => ht⟩
  | setAsyncFlushSize size => exact ⟨⟨hwf, hs.place⟩, Effect.of_same rfl rfl, fun _ ht => ht⟩
  | writeRaw data env =>
    obtain ⟨_, ret, hret, heq⟩ | ⟨d, rfl, hinit, _, ⟨_, heq⟩ | ⟨hsome, _⟩ | ⟨hsome, _⟩⟩ :=
      writeRaw_cases s data env
    · -- refused: nothing is accepted
      have hnone : Call.accepted ret (.writeRaw data env) = none := by
        cases data with
        | none => rfl
        | some d => exact if_neg hret
      have heq' : s.call (.writeRaw data env) = s.returns ret := heq
      rw [heq']
      refine ⟨hs, ?_, fun _ ht => ht⟩
      rw [show (s.returns ret).ret = ret from rfl, hnone]
      exact Effect.of_same rfl rfl
    · have heq' : s.call (.writeRaw (some d) env) = _ := heq
      obtain ⟨hplaced, heff⟩ := writeRecord_plain hs hinit d env
      rw [heq']
      refine ⟨hplaced, ?_, fun t ht => writeRecord_tasks s d env ▸ ht⟩
      rw [accepted_writeRaw]
      exact heff
    · rw [hrot] at hsome
      cases hsome
    · rw [hrot] at hsome
      cases hsome
  | rotate env =>
    have hoff : ¬ s.fm.initialized := fun hinit => by
      rw [System.rotation, if_pos hinit] at hrot
      cases hrot
    have heq : s.call (.rotate env) = s.returns .fileManagerNotInit :=
      if_pos (Bool.not_eq_true _ ▸ hoff)
    rw [heq]
    exact ⟨hs, Effect.of_same rfl rfl, fun _ ht => ht⟩
  | flush now =>
    obtain ⟨hset, heff⟩ := flush_effect hs.settled now
    obtain ⟨hplaced, heff'⟩ := transfer hset heff (flush_idle s now)
    exact ⟨hplaced, heff', fun t ht => flush_tasks s now ▸ ht⟩
  | compress gzip => exact absurd rfl (hcompress gzip)

/-! ## Section 4: The rename step -/

theorem renameCurrent_idle (s : System) (env : RotateEnv) :
    s.idle.renameCurrent env = s.renameCurrent env := by
  unfold System.renameCurrent
  rw [closeCurrent_idle]
  rfl

theorem closeCurrent_plain (hs : s.Placed path) : Effect path s none [] s.closeCurrent := by
  have heff := closeCurrent_effect hs.settled
  rw [closeCurrent_idle] at heff
  exact heff.of_idle

/-- The rename fails, and the file is opened again or stays closed. -/
theorem unrenamed_effect (hs : s.Placed path)
    (h : s'.fs = (fopenAppend s.closeCurrent.fs path).2 ∧
        s'.fm.currentFd = some (fopenAppend s.closeCurrent.fs path).1 ∨
      s'.fs = s.closeCurrent.fs ∧ s'.fm.currentFd = none) :
    Effect path s none [] s' := by
  have hclosed : s.closeCurrent.fm.currentFd = none := by rw [s.closeCurrent_fm]
  refine (closeCurrent_plain hs).append ?_
  obtain ⟨hfs, hfd⟩ | ⟨hfs, hfd⟩ := h
  · exact fopenAppend_effect hclosed hfs (Or.inr hfd)
  · exact Effect.of_same hfs (hfd.trans hclosed.symm)

/-- The rename succeeds, and a new file is begun or there is none. -/
theorem renamed_effect (hs : s.Placed path) (hinit : s.fm.initialized = true) {env : RotateEnv}
    {fs₂ : Fs Str UInt8} (hren : s.renameCurrent env = some fs₂)
    (hfree : s.fs (s.historyTarget env.timestamp) = none)
    (h : s'.fs = (fopenWrite fs₂ path).2 ∧ s'.fm.currentFd = some (fopenWrite fs₂ path).1 ∨
      s'.fs = fs₂ ∧ s'.fm.currentFd = none) :
    Effect path s (some (s.historyTarget env.timestamp)) [] s' := by
  have hne : s.historyTarget env.timestamp ≠ path :=
    hs.place hinit ▸ s.historyTarget_ne_currentPath env.timestamp
  obtain ⟨htarget, hcur, hother⟩ :=
    renameCurrent_moves hs.settled hinit ((renameCurrent_idle s env).trans hren)
  obtain ⟨hfs, hfd⟩ | ⟨hfs, hfd⟩ := h
  · refine .rotate hne hfree ?_ ?_ ?_
    · rw [hfs]
      exact (Function.update_of_ne hne _ _).trans htarget
    · have hopen := System.bytesAt_of_open hfd (show (fopenWrite fs₂ path).1.path = path from rfl)
      rw [hopen, hfs]
      exact fopenWrite_bytes
    · intro p hp ht
      rw [hfs]
      exact (Function.update_of_ne hp _ _).trans (hother p hp ht)
  · refine .rotate hne hfree (hfs ▸ htarget) ?_ ?_
    · rw [System.bytesAt_of_closed hfd, hfs, Fs.content, hcur]
      rfl
    · intro p hp ht
      rw [hfs]
      exact hother p hp ht

end idle

/-! ## Section 5: The archive -/

/-- A task of the compression thread: a history file that its command names. -/
def IsTask (current task : Str) : Prop := IsName current task ∧ NamesOneFile task

/-- The history files are those of `fs₀` after `events`, and `bytes` are the archive and the current
    file. -/
structure Shelved (config₀ : SilogLogFileConfig) (fs₀ : Fs Str UInt8) (events : List (Event Str UInt8))
    (bytes : List UInt8) (s : System) : Prop where
  keeps : Archive.Keeps s.fs (track events)
  own   : ∀ p ∈ track events, IsName (silogFileManagerGetCurrentPath config₀) p.name
  file  : ∀ p ∈ track events, ∀ f, p.file = some f → f = p.name ∨ f = gz p.name
  text  : text (track events) ++ s.bytesAt (silogFileManagerGetCurrentPath config₀) = bytes
  files : ∀ path, path ≠ silogFileManagerGetCurrentPath config₀ → s.fs path = replay fs₀ events path
  moved : ∀ a b, .moved a b ∈ events → b = gz a ∧ NamesOneFile a

theorem System.bytesAt_congr {s s' : System} {path : Str} (hfs : s'.fs path = s.fs path)
    (hfd : s'.fm.currentFd = s.fm.currentFd) : s'.bytesAt path = s.bytesAt path := by
  unfold System.bytesAt System.pending
  rw [Fs.content_congr hfs, hfd]

theorem compressFile_config (s : System) (gzip : Bool) (filePath : Str) :
    (silogFileManagerCompressFile s gzip filePath).fm.config = s.fm.config := by
  unfold silogFileManagerCompressFile
  split
  · rfl
  · split <;> rfl

/-- The file that a rotation renames has all bytes. -/
theorem renamed_content {s : System} {path : Str} (hs : s.Placed path) (hinit : s.fm.initialized = true)
    {env : RotateEnv} {fs₂ : Fs Str UInt8} (hren : s.renameCurrent env = some fs₂) :
    fs₂.content (s.historyTarget env.timestamp) = s.bytesAt path := by
  have htarget : fs₂ (s.historyTarget env.timestamp) = some (s.bytesAt path) :=
    (renameCurrent_moves hs.settled hinit ((renameCurrent_idle s env).trans hren)).1
  unfold Fs.content
  rw [htarget]
  rfl

namespace Shelved

variable {config₀ : SilogLogFileConfig} {fs₀ : Fs Str UInt8} {events : List (Event Str UInt8)}
  {bytes : List UInt8} {s s' : System}

/-- No part is in the current file. -/
theorem file_ne_current (h : Shelved config₀ fs₀ events bytes s) {p : Part Str UInt8}
    (hp : p ∈ track events) {f : Str} (hf : p.file = some f) :
    f ≠ silogFileManagerGetCurrentPath config₀ := by
  obtain rfl | rfl := h.file p hp f hf
  · exact (h.own p hp).1
  · exact dotGz_ne_currentPath config₀ p.name

/-- Bytes are added to the current file. -/
theorem write (h : Shelved config₀ fs₀ events bytes s)
    {new : List UInt8} (heff : Effect (silogFileManagerGetCurrentPath config₀) s none new s') :
    Shelved config₀ fs₀ events (bytes ++ new) s' := by
  cases heff with
  | write hbytes hother =>
    refine ⟨?_, h.own, h.file, ?_, ?_, h.moved⟩
    · apply h.keeps.congr
      intro p hp f hf
      exact hother f (h.file_ne_current hp hf)
    · rw [hbytes, ← List.append_assoc, h.text]
    · intro path hcur
      rw [hother path hcur]
      exact h.files path hcur

/-- The same files and the same stream. -/
theorem same (h : Shelved config₀ fs₀ events bytes s)
    (hfs : s'.fs = s.fs) (hfd : s'.fm.currentFd = s.fm.currentFd) :
    Shelved config₀ fs₀ events bytes s' := by
  have hwrite := h.write (Effect.of_same hfs hfd)
  rw [List.append_nil] at hwrite
  exact hwrite

/-- Something happens to the history files: a new one comes from the current file, one is packed, or
    one is deleted. -/
theorem event (h : Shelved config₀ fs₀ events bytes s) {e : Event Str UInt8} (hfresh : e.Fresh s.fs)
    (hcur : silogFileManagerGetCurrentPath config₀ ∉ e.paths)
    (hnames : ∀ name ∈ e.names, IsName (silogFileManagerGetCurrentPath config₀) name)
    (hmoved : ∀ a b, e = .moved a b → b = gz a ∧ IsTask (silogFileManagerGetCurrentPath config₀) a)
    (hfiles : ∀ path, path ≠ silogFileManagerGetCurrentPath config₀ → s'.fs path = e.files s.fs path)
    (hbytes : e.bytes ++ s'.bytesAt (silogFileManagerGetCurrentPath config₀) =
      s.bytesAt (silogFileManagerGetCurrentPath config₀)) :
    Shelved config₀ fs₀ (events ++ [e]) bytes s' := by
  have hown : ∀ q ∈ e.parts (track events),
      IsName (silogFileManagerGetCurrentPath config₀) q.name := by
    intro q hq
    obtain ⟨p, hp, heq, _⟩ | ⟨new, rfl, _⟩ := mem_parts_cases hq
    · exact heq ▸ h.own p hp
    · exact hnames q.name List.mem_cons_self
  have hfile : ∀ q ∈ e.parts (track events), ∀ f, q.file = some f → f = q.name ∨ f = gz q.name := by
    intro q hq f hf
    obtain ⟨p, hp, heq, hcases⟩ | ⟨new, rfl, hnew⟩ := mem_parts_cases hq
    · rw [heq]
      obtain hsame | ⟨source, rfl, hsource⟩ := hcases f hf
      · exact h.file p hp f hsame
      · obtain ⟨rfl, hname, _⟩ := hmoved source f rfl
        -- the file that was packed is not a packed one
        obtain rfl | hgz := h.file p hp source hsource
        · exact Or.inr rfl
        · exact absurd hgz (hname.ne_gz p.name)
    · exact Or.inl (Option.some.inj (hf.symm.trans hnew))
  refine ⟨?_, ?_, ?_, ?_, ?_, ?_⟩
  · rw [track_concat]
    apply (h.keeps.step hfresh).congr
    intro q hq f hf
    apply hfiles
    obtain rfl | rfl := hfile q hq f hf
    · exact (hown q hq).1
    · exact dotGz_ne_currentPath config₀ q.name
  · rw [track_concat]
    exact hown
  · rw [track_concat]
    exact hfile
  · rw [track_concat, parts_text, List.append_assoc, hbytes]
    exact h.text
  · intro path hpath
    rw [hfiles path hpath, replay_append]
    apply Event.files_congr
    · intro p hp
      exact h.files p fun heq => hcur (heq ▸ hp)
    · exact h.files path hpath
  · intro a b hmem
    obtain hmem | hmem := List.mem_append.mp hmem
    · exact h.moved a b hmem
    · obtain ⟨hgz, _, hone⟩ := hmoved a b (List.mem_singleton.mp hmem).symm
      exact ⟨hgz, hone⟩

/-- The current file becomes a part of the archive. -/
theorem rotate (h : Shelved config₀ fs₀ events bytes s)
    {target : Str} (hname : IsName (silogFileManagerGetCurrentPath config₀) target)
    (heff : Effect (silogFileManagerGetCurrentPath config₀) s (some target) [] s') :
    Shelved config₀ fs₀
      (events ++ [.added target (s.bytesAt (silogFileManagerGetCurrentPath config₀))]) bytes s' := by
  cases heff with
  | rotate hne hfree htarget hbytes hother =>
    refine h.event hfree ?_ ?_ nofun ?_ ?_
    · exact fun hmem => hne (List.mem_singleton.mp hmem).symm
    · intro name hmem
      rw [List.mem_singleton.mp hmem]
      exact hname
    · intro path hpath
      by_cases heq : path = target
      · subst heq
        show s'.fs path = Function.update s.fs path _ path
        rw [htarget, Function.update_self]
      · exact (hother path hpath heq).trans (Function.update_of_ne heq _ _).symm
    · rw [hbytes]
      exact List.append_nil _

/-- `gzip` is run for a history file, and succeeds or not. -/
theorem pack (h : Shelved config₀ fs₀ events bytes s) {gzip : Bool} {task : Str}
    (htask : IsTask (silogFileManagerGetCurrentPath config₀) task)
    (hfs : s'.fs = silogFileManagerDoCompress s.fs gzip task)
    (hfd : s'.fm.currentFd = s.fm.currentFd) :
    Shelved config₀ fs₀ (events ++ packs s.fs gzip task) bytes s' := by
  unfold packs
  unfold silogFileManagerDoCompress at hfs
  split
  next hpack =>
    obtain ⟨hgzip, hsome, hfree⟩ := hpack
    rw [if_pos hgzip, pack_moves hsome hfree] at hfs
    have hcur : silogFileManagerGetCurrentPath config₀ ∉
        (Event.moved task (gz task) : Event Str UInt8).paths := by
      intro hmem
      obtain heq | hmem := List.mem_cons.mp hmem
      · exact htask.1.1 heq.symm
      · exact dotGz_ne_currentPath config₀ task (List.mem_singleton.mp hmem).symm
    refine h.event ⟨hfree, append_dotGz_ne_self task⟩ hcur nofun ?_ ?_ ?_
    · rintro a b ⟨⟩
      exact ⟨rfl, htask⟩
    · exact fun path _ => congrFun hfs path
    · exact System.bytesAt_congr ((congrFun hfs _).trans (Event.files_other hcur)) hfd
  next hskip =>
    rw [List.append_nil]
    apply h.same _ hfd
    rw [hfs]
    split
    next hgzip => exact pack_refused fun hpack => hskip ⟨hgzip, hpack⟩
    next => rfl

/-- The clean-up deletes files, not the current one. -/
theorem clean {l : List Str} (h : Shelved config₀ fs₀ events bytes s)
    (hl : silogFileManagerGetCurrentPath config₀ ∉ l) (hfs : s'.fs = l.foldl Fs.unlink s.fs)
    (hfd : s'.fm.currentFd = s.fm.currentFd) :
    Shelved config₀ fs₀ (events ++ l.map .deleted) bytes s' := by
  induction l generalizing s events with
  | nil =>
    rw [List.map_nil, List.append_nil]
    exact h.same hfs hfd
  | cons path l ih =>
    rw [List.mem_cons, not_or] at hl
    have hcur : silogFileManagerGetCurrentPath config₀ ∉ (Event.deleted path : Event Str UInt8).paths :=
      fun hmem => hl.1 (List.mem_singleton.mp hmem)
    have hdeleted : Shelved config₀ fs₀ (events ++ [.deleted path]) bytes ⟨s.fm, s.fs.unlink path⟩ := by
      refine h.event trivial hcur nofun nofun (fun _ _ => rfl) ?_
      exact System.bytesAt_congr (Event.files_other hcur) rfl
    have hrest := ih hdeleted hl.2 hfs hfd
    rw [List.append_assoc] at hrest
    exact hrest

/-- Tasks are worked off one after the other. -/
theorem packAll (h : Shelved config₀ fs₀ events bytes s) {tasks : List Str} (gzips : ℕ → Bool)
    (htasks : ∀ task ∈ tasks, IsTask (silogFileManagerGetCurrentPath config₀) task) :
    Shelved config₀ fs₀ (events ++ packsAll s.fs gzips tasks) bytes
      ⟨s.fm, compressTasks s.fs gzips tasks⟩ := by
  induction tasks generalizing s events gzips with
  | nil =>
    rw [packsAll, List.append_nil]
    exact h
  | cons task tasks ih =>
    have hfirst : Shelved config₀ fs₀ (events ++ packs s.fs (gzips 0) task) bytes
        ⟨s.fm, silogFileManagerDoCompress s.fs (gzips 0) task⟩ :=
      h.pack (htasks task List.mem_cons_self) rfl rfl
    have hrest := ih hfirst (fun i => gzips (i + 1)) fun task htask =>
      htasks task (List.mem_cons_of_mem _ htask)
    rw [List.append_assoc] at hrest
    exact hrest

/-- The file is packed now or later. -/
theorem compressFile (h : Shelved config₀ fs₀ events bytes s) (gzip : Bool)
    (htasks : ∀ task ∈ s.tasks, IsTask (silogFileManagerGetCurrentPath config₀) task) {target : Str}
    (htarget : s.fm.config.enableCompression = true →
      IsTask (silogFileManagerGetCurrentPath config₀) target) (hlen : snprintfS 512 target = target) :
    Shelved config₀ fs₀ (events ++ s.packsNow s.fs gzip target) bytes
      (silogFileManagerCompressFile s gzip target) ∧
    ∀ task ∈ (silogFileManagerCompressFile s gzip target).tasks,
      IsTask (silogFileManagerGetCurrentPath config₀) task := by
  unfold silogFileManagerCompressFile System.packsNow
  cases hon : s.fm.config.enableCompression with
  | false =>
    rw [if_pos rfl, if_neg (by simp), List.append_nil]
    exact ⟨h, htasks⟩
  | true =>
    have hone := htarget hon
    rw [if_neg (show ¬ true = false by simp)]
    cases hmode : s.fm.config.compressMode with
    | async =>
      rw [if_neg (by simp), List.append_nil]
      refine ⟨h.same rfl rfl, ?_⟩
      intro task htask
      unfold System.tasks at htask htasks
      cases hqueue : s.fm.compressQueue with
      | none =>
        rw [hqueue] at htask
        cases htask
      | some tasks =>
        rw [hqueue] at htask htasks
        dsimp only [Option.map_some, Option.getD_some] at htask htasks
        split at htask
        · obtain hold | hnew := List.mem_append.mp htask
          · exact htasks task hold
          · rw [List.mem_singleton.mp hnew, hlen]
            exact hone
        · exact htasks task htask
    | sync =>
      rw [if_pos ⟨rfl, rfl⟩]
      exact ⟨h.pack hone rfl rfl, htasks⟩

/-- A rotation archives the current file if it renames it. -/
theorem rotateInternal (h : Shelved config₀ fs₀ events bytes s)
    (hs : s.Placed (silogFileManagerGetCurrentPath config₀)) (hinit : s.fm.initialized = true)
    (htasks : ∀ task ∈ s.tasks, IsTask (silogFileManagerGetCurrentPath config₀) task) {env : RotateEnv}
    (hfree : s.fs (s.historyTarget env.timestamp) = none)
    (hverbatim : s.fm.config.enableCompression = true → Verbatim (s.historyTarget env.timestamp)) :
    Shelved config₀ fs₀ (events ++ s.rotates env) bytes (silogFileManagerRotateInternal s env).sys ∧
    ∀ task ∈ (silogFileManagerRotateInternal s env).sys.tasks,
      IsTask (silogFileManagerGetCurrentPath config₀) task := by
  have hfm := s.closeCurrent_fm
  have hclosed : s.closeCurrent.fm.currentFd = none := by rw [hfm]
  have hqueue : ∀ task ∈ s.closeCurrent.tasks, IsTask (silogFileManagerGetCurrentPath config₀) task := by
    rw [closeCurrent_tasks]
    exact htasks
  have hpath := hs.place hinit
  have hname : IsName (silogFileManagerGetCurrentPath config₀) (s.historyTarget env.timestamp) :=
    hpath ▸ s.historyTarget_isName env.timestamp
  unfold System.rotates
  obtain ⟨hren, _, heq⟩ | ⟨hren, _, heq⟩ | ⟨fs₂, hren, hopen, heq⟩ | ⟨fs₂, hren, hopen, heq⟩ :=
    rotateInternal_cases s env
  · -- not renamed and opened again
    rw [heq, hren, List.append_nil]
    have heff : Effect (silogFileManagerGetCurrentPath config₀) s none []
        ⟨{ s.closeCurrent.fm with currentFd := some (fopenAppend s.closeCurrent.fs s.currentPath).1 },
          (fopenAppend s.closeCurrent.fs s.currentPath).2⟩ :=
      unrenamed_effect hs (Or.inl ⟨by rw [hpath], by rw [hpath]⟩)
    have hwrite := h.write heff
    rw [List.append_nil] at hwrite
    exact ⟨hwrite, hqueue⟩
  · -- not renamed, and the file stays closed
    rw [heq, hren, List.append_nil]
    have hwrite := h.write (unrenamed_effect hs (Or.inr ⟨rfl, hclosed⟩))
    rw [List.append_nil] at hwrite
    exact ⟨hwrite, hqueue⟩
  · -- renamed, and a new file is begun; then compression and clean-up
    rw [heq, hren]
    dsimp only
    rw [if_pos hopen, renamed_content hs hinit hren]
    have heff : Effect (silogFileManagerGetCurrentPath config₀) s (some (s.historyTarget env.timestamp)) []
        ⟨{ s.closeCurrent.fm with
          currentFd := some (fopenWrite fs₂ s.currentPath).1, currentSize := 0, asyncBufferSize := 0 },
          (fopenWrite fs₂ s.currentPath).2⟩ :=
      renamed_effect hs hinit hren hfree (Or.inl ⟨by rw [hpath], by rw [hpath]⟩)
    have hconfig : s.closeCurrent.fm.config = s.fm.config := by rw [hfm]
    have htarget : s.closeCurrent.fm.config.enableCompression = true →
        IsTask (silogFileManagerGetCurrentPath config₀) (s.historyTarget env.timestamp) := by
      intro hon
      rw [hconfig] at hon
      exact ⟨hname, (namesOneFile_iff (s.historyTarget_lt env.timestamp)).mpr (hverbatim hon)⟩
    obtain ⟨hpacked, htasks'⟩ := (h.rotate hname heff).compressFile env.gzip hqueue htarget
      (s.historyTarget_task env.timestamp)
    have hnow : System.packsNow ⟨{ s.closeCurrent.fm with
        currentFd := some (fopenWrite fs₂ s.currentPath).1, currentSize := 0, asyncBufferSize := 0 },
        (fopenWrite fs₂ s.currentPath).2⟩ = s.packsNow := by
      unfold System.packsNow
      rw [hconfig]
    rw [hnow] at hpacked
    have hcur : silogFileManagerGetCurrentPath config₀ ∉ s.cleaned env := by
      rw [← hpath]
      exact fun hmem => currentPath_not_cleaned s.fm.config env.scan env.mem (List.mem_of_mem_filter hmem)
    refine ⟨?_, htasks'⟩
    rw [← List.singleton_append, ← List.append_assoc, ← List.append_assoc]
    apply hpacked.clean hcur
    · unfold System.cleanOldFiles System.cleaned
      rw [compressFile_config]
      exact congrArg (fun config => List.foldl Fs.unlink _
        ((silogFileManagerCleanOldFiles config env.scan env.mem).2.filter env.unlink)) hconfig
    · rfl
  · -- renamed, and there is no current file
    rw [heq, hren]
    dsimp only
    rw [if_neg (by simp [hopen]), renamed_content hs hinit hren]
    have heff : Effect (silogFileManagerGetCurrentPath config₀) s (some (s.historyTarget env.timestamp)) []
        ⟨s.closeCurrent.fm, fs₂⟩ := renamed_effect hs hinit hren hfree (Or.inr ⟨rfl, hclosed⟩)
    exact ⟨h.rotate hname heff, hqueue⟩

/-- The tasks that are left are worked off at the end. -/
theorem deinit (h : Shelved config₀ fs₀ events bytes s)
    (hs : s.Placed (silogFileManagerGetCurrentPath config₀)) (gzips : ℕ → Bool)
    (htasks : ∀ task ∈ s.tasks, IsTask (silogFileManagerGetCurrentPath config₀) task) :
    Shelved config₀ fs₀ (events ++ s.events (.deinit gzips)) bytes (silogFileManagerDeinit s gzips).sys ∧
    ∀ task ∈ (silogFileManagerDeinit s gzips).sys.tasks,
      IsTask (silogFileManagerGetCurrentPath config₀) task := by
  have hclosed := h.write (closeCurrent_plain hs)
  rw [List.append_nil] at hclosed
  unfold silogFileManagerDeinit System.events
  dsimp only
  cases hflag : s.fm.compressThreadRunning with
  | true =>
    rw [if_pos rfl]
    refine ⟨?_, fun task htask => absurd htask List.not_mem_nil⟩
    have hstopped : Shelved config₀ fs₀ events bytes
        ⟨{ s.closeCurrent.fm with
          initialized := false, compressThreadRunning := false, compressThread := false,
          compressQueue := none }, s.closeCurrent.fs⟩ := hclosed.same rfl rfl
    cases hthread : s.fm.compressThread with
    | true =>
      rw [if_pos rfl, if_pos ⟨rfl, rfl⟩]
      exact hstopped.packAll gzips htasks
    | false =>
      rw [if_neg (by simp), if_neg (by simp), List.append_nil]
      exact hstopped
  | false =>
    rw [if_neg (by simp), if_neg (by simp), List.append_nil]
    refine ⟨hclosed.same rfl rfl, ?_⟩
    intro task htask
    have hold : task ∈ s.closeCurrent.tasks := htask
    rw [closeCurrent_tasks] at hold
    exact htasks task hold

/-- A round of the compression thread. -/
theorem compressThread (h : Shelved config₀ fs₀ events bytes s) (gzip : Bool)
    (htasks : ∀ task ∈ s.tasks, IsTask (silogFileManagerGetCurrentPath config₀) task) :
    Shelved config₀ fs₀ (events ++ s.events (.compress gzip)) bytes
      (silogFileManagerCompressThread s gzip) ∧
    ∀ task ∈ (silogFileManagerCompressThread s gzip).tasks,
      IsTask (silogFileManagerGetCurrentPath config₀) task := by
  obtain ⟨task, tasks, hqueue, hnext, hevents⟩ | ⟨hnext, hevents⟩ := s.compressThread_cases gzip
  · rw [hnext, hevents]
    unfold System.tasks at htasks ⊢
    rw [hqueue] at htasks
    refine ⟨h.pack (htasks task List.mem_cons_self) rfl rfl, ?_⟩
    intro task' htask'
    exact htasks task' (List.mem_cons_of_mem task htask')
  · rw [hnext, hevents, List.append_nil]
    exact ⟨h, htasks⟩

end Shelved

/-! ## Section 6: Runs -/

section events
variable {s : System} {c : Call}

theorem packs_names (fs : Fs Str UInt8) (gzip : Bool) (task : Str) :
    (packs fs gzip task).flatMap Event.names = [] := by
  unfold packs
  split <;> rfl

theorem packsAll_names (fs : Fs Str UInt8) (gzips : ℕ → Bool) (tasks : List Str) :
    (packsAll fs gzips tasks).flatMap Event.names = [] := by
  induction tasks generalizing fs gzips with
  | nil => rfl
  | cons task tasks ih => rw [packsAll, List.flatMap_append, packs_names, ih, List.nil_append]

theorem rotates_names (s : System) (env : RotateEnv) :
    (s.rotates env).flatMap Event.names = (silogFileManagerRotateInternal s env).target.toList := by
  unfold System.rotates Outcome.target
  rw [rotateInternal_renamed]
  cases s.renameCurrent env with
  | none => rfl
  | some fs =>
    show s.historyTarget env.timestamp :: List.flatMap Event.names _ = [s.historyTarget env.timestamp]
    congr 1
    split
    · have hnow : ∀ fs', (s.packsNow fs' env.gzip (s.historyTarget env.timestamp)).flatMap Event.names = [] := by
        intro fs'
        unfold System.packsNow
        split
        · exact packs_names _ _ _
        · rfl
      rw [List.flatMap_append, hnow, List.nil_append, List.flatMap_eq_nil_iff]
      intro e he
      obtain ⟨path, _, rfl⟩ := List.mem_map.mp he
      rfl
    · rfl

theorem events_of_rotation {env : RotateEnv} (hrot : s.rotation c = some env) :
    s.events c = s.rotates env := by
  cases c with
  | deinit gzips => cases hrot
  | compress gzip => cases hrot
  | _ => exact congrArg (fun o => (o.map s.rotates).getD []) hrot

theorem events_of_plain (hrot : s.rotation c = none) (hdeinit : ∀ gzips, c ≠ .deinit gzips)
    (hcompress : ∀ gzip, c ≠ .compress gzip) : s.events c = [] := by
  cases c with
  | deinit gzips => exact absurd rfl (hdeinit gzips)
  | compress gzip => exact absurd rfl (hcompress gzip)
  | _ => exact congrArg (fun o => (o.map s.rotates).getD []) hrot

/-- The names that a call adds to the archive are those of its rotation. -/
theorem events_names (s : System) (c : Call) :
    (s.events c).flatMap Event.names = (s.call c).target.toList := by
  unfold Outcome.target
  rw [call_renamed]
  cases hrot : s.rotation c with
  | some env => rw [events_of_rotation hrot, rotates_names]; rfl
  | none =>
    cases c with
    | deinit gzips =>
      unfold System.events
      dsimp only
      split
      · exact packsAll_names _ _ _
      · rfl
    | compress gzip =>
      unfold System.events
      dsimp only
      split
      · exact packs_names _ _ _
      · rfl
    | _ => rw [events_of_plain hrot nofun nofun]; rfl

end events

/-- The invariant of tidy runs from `fs₀`. -/
structure Archived (config₀ : SilogLogFileConfig) (fs₀ : Fs Str UInt8) (r : LogRun) : Prop where
  placed  : r.run.sys.Placed (silogFileManagerGetCurrentPath config₀)
  tasks   : ∀ task ∈ r.run.sys.tasks, IsTask (silogFileManagerGetCurrentPath config₀) task
  names   : (track r.events).map Part.name = r.run.history
  shelved : Shelved config₀ fs₀ r.events
              (fs₀.content (silogFileManagerGetCurrentPath config₀) ++ r.run.accepted.flatten) r.run.sys

section archived
variable {config₀ : SilogLogFileConfig} {fs₀ : Fs Str UInt8} {r r' : LogRun} {c : Call}

theorem archived_initial (config₀ : SilogLogFileConfig) (fs₀ : Fs Str UInt8) :
    Archived config₀ fs₀ (LogRun.initial fs₀) where
  placed := ⟨System.initial_wf fs₀, fun h => absurd h Bool.false_ne_true⟩
  tasks := fun _ h => absurd h List.not_mem_nil
  names := rfl
  shelved := by
    refine ⟨keeps_nil fs₀, ?_, ?_, ?_, fun _ _ => rfl, ?_⟩
    · exact fun _ h => absurd h List.not_mem_nil
    · exact fun _ h => absurd h List.not_mem_nil
    · exact (List.append_nil _).trans (List.append_nil _).symm
    · exact fun _ _ h => absurd h List.not_mem_nil

theorem System.Placed.of_keeps {s s' : System} {path : Str} (hs : s.Placed path)
    (hinit : s.fm.initialized = true) (hk : s.Keeps s') : s'.Placed path :=
  ⟨hk.wf hinit, fun _ => hk.currentPath.trans (hs.place hinit)⟩

theorem flatten_accepted (accepted : List (List UInt8)) (record : Option (List UInt8)) :
    (accepted ++ record.toList).flatten = accepted.flatten ++ record.getD [] := by
  cases record <;> simp

/-- What a call leaves behind. -/
theorem Archived.next (hA : Archived config₀ fs₀ r)
    (hplaced : (r.run.sys.call c).sys.Placed (silogFileManagerGetCurrentPath config₀))
    (htasks : ∀ task ∈ (r.run.sys.call c).sys.tasks, IsTask (silogFileManagerGetCurrentPath config₀) task)
    (hshelved : Shelved config₀ fs₀ (r.events ++ r.run.sys.events c)
      (fs₀.content (silogFileManagerGetCurrentPath config₀) ++ r.run.accepted.flatten ++
        (c.accepted (r.run.sys.call c).ret).getD []) (r.run.sys.call c).sys) :
    Archived config₀ fs₀ (r.next c) := by
  refine ⟨hplaced, htasks, ?_, ?_⟩
  · show (track (r.events ++ r.run.sys.events c)).map Part.name =
      r.run.history ++ (r.run.sys.call c).target.toList
    rw [track_names, List.flatMap_append, ← track_names, hA.names, events_names]
  · rw [List.append_assoc, ← flatten_accepted] at hshelved
    exact hshelved

/-- A call that comes to a rotation, and what follows the rotation. -/
theorem Archived.next_rotation (hA : Archived config₀ fs₀ r) (hc : Tidy config₀ r c) {env : RotateEnv}
    (hrot : r.run.sys.rotation c = some env) (hinit : r.run.sys.fm.initialized = true)
    (hcall : ∀ s', s' = (silogFileManagerRotateInternal r.run.sys env).sys →
      s'.Placed (silogFileManagerGetCurrentPath config₀) → s'.fm.initialized = true →
      (r.run.sys.call c).sys.Placed (silogFileManagerGetCurrentPath config₀) ∧
      Effect (silogFileManagerGetCurrentPath config₀) s' none
        ((c.accepted (r.run.sys.call c).ret).getD []) (r.run.sys.call c).sys ∧
      (r.run.sys.call c).sys.tasks = s'.tasks) :
    Archived config₀ fs₀ (r.next c) := by
  have hkeeps := rotateInternal_keeps r.run.sys env
  obtain ⟨hplaced, heff, htasks⟩ := hcall _ rfl (hA.placed.of_keeps hinit hkeeps)
    (hkeeps.initialized.trans hinit)
  have hfree := (r.run.sys.historyTarget_free_iff env.timestamp).mpr (hc.free env hrot)
  obtain ⟨hshelved, htasks'⟩ := hA.shelved.rotateInternal hA.placed hinit hA.tasks hfree
    (hc.verbatim env hrot)
  apply hA.next hplaced
  · rw [htasks]
    exact htasks'
  · rw [events_of_rotation hrot]
    exact hshelved.write heff

/-- A call that does not come to a rotation. -/
theorem Archived.step_plain (hA : Archived config₀ fs₀ r) (hrot : r.run.sys.rotation c = none)
    (hplace : ∀ config env, c = .init config env →
      silogFileManagerGetCurrentPath (config.getD silogFileManagerGetDefaultConfig) =
        silogFileManagerGetCurrentPath config₀) :
    Archived config₀ fs₀ (r.next c) := by
  have hwf := hA.placed.wf.call c
  by_cases hdeinit : ∃ gzips, c = .deinit gzips
  · obtain ⟨gzips, rfl⟩ := hdeinit
    obtain ⟨hshelved, htasks⟩ := hA.shelved.deinit hA.placed gzips hA.tasks
    refine hA.next ⟨hwf, ?_⟩ htasks ?_
    · intro hinit
      have hoff : (silogFileManagerDeinit r.run.sys gzips).sys.fm.initialized = false := by
        unfold silogFileManagerDeinit
        dsimp only
        split <;> rfl
      exact absurd (hoff.symm.trans hinit) Bool.false_ne_true
    · rw [show (Call.accepted _ (Call.deinit gzips)).getD [] = [] from rfl, List.append_nil]
      exact hshelved
  · by_cases hcompress : ∃ gzip, c = .compress gzip
    · obtain ⟨gzip, rfl⟩ := hcompress
      obtain ⟨hshelved, htasks⟩ := hA.shelved.compressThread gzip hA.tasks
      refine hA.next ⟨hwf, ?_⟩ htasks ?_
      · intro hinit
        have hsame : (silogFileManagerCompressThread r.run.sys gzip).fm.initialized =
            r.run.sys.fm.initialized ∧
            (silogFileManagerCompressThread r.run.sys gzip).currentPath = r.run.sys.currentPath := by
          unfold silogFileManagerCompressThread
          split
          · exact ⟨rfl, rfl⟩
          · exact ⟨rfl, rfl⟩
        exact hsame.2.trans (hA.placed.place (hsame.1.symm.trans hinit))
      · rw [show (Call.accepted _ (Call.compress gzip)).getD [] = [] from rfl, List.append_nil]
        exact hshelved
    · obtain ⟨hplaced, heff, htasks⟩ := plain_call hA.placed hrot (not_exists.mp hdeinit)
        (not_exists.mp hcompress) hplace
      refine hA.next hplaced (fun task htask => hA.tasks task (htasks task htask)) ?_
      rw [events_of_plain hrot (not_exists.mp hdeinit) (not_exists.mp hcompress), List.append_nil]
      exact hA.shelved.write heff

/-- A call that comes to a rotation, and behind it may write a record. -/
theorem Archived.step_rotation (hA : Archived config₀ fs₀ r) (hc : Tidy config₀ r c) {env : RotateEnv}
    (hrot : r.run.sys.rotation c = some env) : Archived config₀ fs₀ (r.next c) := by
  cases c with
  | rotate env' =>
    have hsome : (if r.run.sys.fm.initialized then some env' else none) = some env := hrot
    obtain ⟨hinit, heq⟩ := Option.ite_none_right_eq_some.mp hsome
    obtain rfl := Option.some.inj heq
    have heq : r.run.sys.call (.rotate env') = silogFileManagerRotateInternal r.run.sys env' := by
      show silogFileManagerRotate r.run.sys env' = _
      unfold silogFileManagerRotate
      rw [hinit, if_neg (by simp)]
    refine hA.next_rotation hc hrot hinit ?_
    intro s' hs' hplaced _
    rw [heq, ← hs']
    exact ⟨hplaced, Effect.of_same rfl rfl, rfl⟩
  | writeRaw data env' =>
    obtain ⟨hnone, _⟩ | ⟨d, rfl, hinit, _, ⟨hnone, _⟩ | ⟨hsome, hret, heq⟩ | ⟨hsome, hret, heq⟩⟩ :=
      writeRaw_cases r.run.sys data env'
    · rw [hnone] at hrot
      cases hrot
    · rw [hnone] at hrot
      cases hrot
    · obtain rfl := Option.some.inj (hsome.symm.trans hrot)
      have heq' : r.run.sys.call (.writeRaw (some d) env') = _ := heq
      refine hA.next_rotation hc hrot hinit ?_
      intro s' hs' hplaced _
      rw [heq', ← hs', accepted_writeRaw, if_neg hret]
      exact ⟨hplaced, Effect.of_same rfl rfl, rfl⟩
    · obtain rfl := Option.some.inj (hsome.symm.trans hrot)
      have heq' : r.run.sys.call (.writeRaw (some d) env') = _ := heq
      refine hA.next_rotation hc hrot hinit ?_
      intro s' hs' hplaced hinit'
      obtain ⟨hplaced', heff⟩ := writeRecord_plain hplaced hinit' d env'
      rw [heq', ← hs', accepted_writeRaw]
      exact ⟨hplaced', heff, writeRecord_tasks s' d env'⟩
  | _ => cases hrot

theorem Archived.step (hA : Archived config₀ fs₀ r) (hstep : LogStep r c r') (hc : Tidy config₀ r c) :
    Archived config₀ fs₀ r' := by
  rw [hstep]
  cases hrot : r.run.sys.rotation c with
  | none =>
    apply hA.step_plain hrot
    intro config env heq
    obtain ⟨hdir, hbase⟩ := hc.place config env heq
    unfold silogFileManagerGetCurrentPath
    rw [hdir, hbase]
  | some env => exact hA.step_rotation hc hrot

theorem archived_run {calls : List Call}
    (hrun : Steps (Guarded LogStep (Tidy config₀)) (LogRun.initial fs₀) calls r) : Archived config₀ fs₀ r :=
  hrun.invariant (fun _ _ _ hR hA => hA.step hR.1 hR.2) (archived_initial config₀ fs₀)

end archived

/-- The log of a run has `bytes`: what was rotated away, in the order of the rotations, then the
    current file and what its stream holds back.  What was rotated away is in files of its own,
    under its name or packed; a part without a file was in a file that the clean-up has deleted. -/
structure LogRun.Holds (config₀ : SilogLogFileConfig) (r : LogRun) (bytes : List UInt8) : Prop where
  names : (track r.events).map Part.name = r.run.history
  bytes : text (track r.events) ++ r.run.sys.fs.content (silogFileManagerGetCurrentPath config₀) ++
            r.run.sys.pending = bytes
  files : ∀ p ∈ track r.events, ∀ f, p.file = some f →
            (f = p.name ∨ f = gz p.name) ∧ r.run.sys.fs f = some p.bytes
  own   : (track r.events).Pairwise fun p q => ∀ f, p.file = some f → q.file ≠ some f
  gone  : ∀ i p, (track r.events)[i]? = some p → p.file = none → Deleted r.events i

theorem Archived.holds {config₀ : SilogLogFileConfig} {fs₀ : Fs Str UInt8} {r : LogRun}
    (hA : Archived config₀ fs₀ r) :
    r.Holds config₀ (fs₀.content (silogFileManagerGetCurrentPath config₀) ++ r.run.accepted.flatten) where
  names := hA.names
  bytes := (List.append_assoc _ _ _).trans hA.shelved.text
  files := fun p hp f hf => ⟨hA.shelved.file p hp f hf, hA.shelved.keeps.holds p hp f hf⟩
  own := hA.shelved.keeps.distinct
  gone := fun _ _ hp hgone => deleted_of_gone hp hgone

/-! ### Two parts of one name -/

/-- A clean-up that finds the file of a rotation at new year. -/
def lateRotate : RotateEnv where
  timestamp := ⟨['l', 'a', 't', 'e', 'r'], by decide, by decide⟩
  renames := fun _ => true
  reopen := true
  gzip := true
  scan := some [⟨⟨['s', 'i', 'l', 'o', 'g', '_'] ++ newYear.chars ++ dotLog, by decide, by decide⟩, some 0⟩]
  mem := fun _ => noFile
  unlink := fun _ => true

/-- The second rotation meets the timestamp of the first one, whose file was packed, the clean-up
    of the third one deletes the second file, and its own file cannot be packed. -/
def twiceCalls : List Call :=
  [.init none smoothInit, .writeRaw (some recordSeven) smoothWrite, .rotate smoothRotate,
   .compress true, .writeRaw (some recordSeven) smoothWrite, .rotate smoothRotate, .compress true,
   .setMaxFileCount 0, .writeRaw (some recordSeven) smoothWrite, .rotate lateRotate,
   .compress false, .writeRaw (some recordSeven) smoothWrite]

def twiceRun : LogRun := twiceCalls.foldl LogRun.next (LogRun.initial fun _ => none)

theorem tidy_of_no_rotation {config₀ : SilogLogFileConfig} {r : LogRun} {c : Call}
    (hinit : ∀ config env, c ≠ .init config env) (hrot : (r.run.sys.rotation c).isNone = true) :
    Tidy config₀ r c := by
  have hnone : ∀ env, r.run.sys.rotation c ≠ some env := by
    intro env henv
    rw [henv] at hrot
    cases hrot
  exact ⟨fun config env h => absurd h (hinit config env), fun env henv => absurd henv (hnone env),
    fun env henv => absurd henv (hnone env)⟩

/-- The first of the ten names is free, and has no character that the shell knows. -/
theorem tidy_rotate {config₀ : SilogLogFileConfig} {r : LogRun} {env : RotateEnv}
    (hfree : (r.run.sys.fs (historyPath r.run.sys.fm.config env.timestamp 0)).isNone = true)
    (hplain : (r.run.sys.historyTarget env.timestamp).all (fun c => decide (c ∉ escapables)) = true) :
    Tidy config₀ r (.rotate env) := by
  have henv : ∀ env', r.run.sys.rotation (.rotate env) = some env' → env = env' := by
    intro env' hrot
    have hsome : (if r.run.sys.fm.initialized then some env else none) = some env' := hrot
    obtain ⟨_, heq⟩ := Option.ite_none_right_eq_some.mp hsome
    exact Option.some.inj heq
  refine ⟨fun config env' h => (by cases h), ?_, ?_⟩
  · intro env' hrot
    obtain rfl := henv env' hrot
    exact ⟨0, by omega, Option.isNone_iff_eq_none.mp hfree⟩
  · intro env' hrot _
    obtain rfl := henv env' hrot
    exact verbatim_of_all hplain

theorem twiceRun_steps :
    Steps (Guarded LogStep (Tidy silogFileManagerGetDefaultConfig)) (LogRun.initial fun _ => none)
      twiceCalls twiceRun := by
  refine Steps.cons _ _ ⟨rfl, ?_, fun env henv => (by cases henv), fun env henv => (by cases henv)⟩ ?_
  · intro config env h
    cases h
    exact ⟨rfl, rfl⟩
  refine Steps.cons _ _ ⟨rfl, tidy_of_no_rotation (fun _ _ h => (by cases h)) (by decide +kernel)⟩ ?_
  refine Steps.cons _ _ ⟨rfl, tidy_rotate (by decide +kernel) (by decide +kernel)⟩ ?_
  refine Steps.cons _ _ ⟨rfl, tidy_of_no_rotation (fun _ _ h => (by cases h)) (by decide +kernel)⟩ ?_
  refine Steps.cons _ _ ⟨rfl, tidy_of_no_rotation (fun _ _ h => (by cases h)) (by decide +kernel)⟩ ?_
  refine Steps.cons _ _ ⟨rfl, tidy_rotate (by decide +kernel) (by decide +kernel)⟩ ?_
  refine Steps.cons _ _ ⟨rfl, tidy_of_no_rotation (fun _ _ h => (by cases h)) (by decide +kernel)⟩ ?_
  refine Steps.cons _ _ ⟨rfl, tidy_of_no_rotation (fun _ _ h => (by cases h)) (by decide +kernel)⟩ ?_
  refine Steps.cons _ _ ⟨rfl, tidy_of_no_rotation (fun _ _ h => (by cases h)) (by decide +kernel)⟩ ?_
  refine Steps.cons _ _ ⟨rfl, tidy_rotate (by decide +kernel) (by decide +kernel)⟩ ?_
  refine Steps.cons _ _ ⟨rfl, tidy_of_no_rotation (fun _ _ h => (by cases h)) (by decide +kernel)⟩ ?_
  exact Steps.single ⟨rfl, tidy_of_no_rotation (fun _ _ h => (by cases h)) (by decide +kernel)⟩

def twiceEvents : List (Event Str UInt8) :=
  [.added (historyPath silogFileManagerGetDefaultConfig newYear 0) [7],
   .moved (historyPath silogFileManagerGetDefaultConfig newYear 0)
     (gz (historyPath silogFileManagerGetDefaultConfig newYear 0)),
   .added (historyPath silogFileManagerGetDefaultConfig newYear 0) [7],
   .added (historyPath silogFileManagerGetDefaultConfig lateRotate.timestamp 0) [7],
   .deleted (historyPath silogFileManagerGetDefaultConfig newYear 0)]

end SiLog.FileManager
