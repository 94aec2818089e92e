import SiLog.FileManager.Spec

/-! # What the file manager holds

    `SilogFileManagerInit` acquires the current file, the compression queue, a
    flag and the compression thread, in this order, and undoes what it did at
    each point where it can fail.  `SilogFileManagerDeinit` decides by the flag
    alone whether there is a thread to join and a queue to destroy.  The two
    disagree on one path: when `pthread_create` fails, the flag stays set.
-/

open Files Lts

namespace SiLog.FileManager

/-! ## Section 1: `Init` succeeds or fails -/

/-- All that `SilogFileManagerInit` needs is there. -/
def InitEnv.Ready (env : InitEnv) : Prop :=
  silogFileManagerEnsureDir env.dir = .ok ∧ env.fopen = true ∧ env.queueInit = .ok ∧
  env.pthreadCreate = true

instance (env : InitEnv) : Decidable env.Ready := inferInstanceAs (Decidable (_ ∧ _))

/-- `SilogFileManagerInit` gets as far as the creation of the thread. -/
def InitEnv.ReachesThread (env : InitEnv) : Prop :=
  silogFileManagerEnsureDir env.dir = .ok ∧ env.fopen = true ∧ env.queueInit = .ok

instance (env : InitEnv) : Decidable env.ReachesThread := inferInstanceAs (Decidable (_ ∧ _))

section init
variable {s : System} {config : SilogLogFileConfig} {env : InitEnv}

theorem initWithConfig_again (h : s.fm.initialized = true) :
    silogFileManagerInitWithConfig s config env = s.returns .ok := by
  unfold silogFileManagerInitWithConfig
  rw [if_pos h]

/-- The record after a successful `SilogFileManagerInitWithConfig`. -/
def SilogFileManager.started (fm : SilogFileManager) (config : SilogLogFileConfig) (env : InitEnv)
    (fs : Fs Str UInt8) : SilogFileManager :=
  { fm with
    config := config
    currentFd := some (fopenAppend fs (silogFileManagerGetCurrentPath config)).1
    currentSize :=
      if env.stat then UInt32.ofNat (fs.content (silogFileManagerGetCurrentPath config)).length else 0
    asyncBufferSize := 0
    lastFlushTimeMs := env.now
    initialized := true
    compressThread := true
    compressQueue := some []
    compressThreadRunning := true }

theorem initWithConfig_ready (h : s.fm.initialized = false) (henv : env.Ready) :
    silogFileManagerInitWithConfig s config env =
      System.returns ⟨s.fm.started config env s.fs,
        (fopenAppend s.fs (silogFileManagerGetCurrentPath config)).2⟩ .ok := by
  obtain ⟨hdir, hopen, hqueue, hthread⟩ := henv
  have hcontent : (fopenAppend s.fs (silogFileManagerGetCurrentPath config)).2.content
      (silogFileManagerGetCurrentPath config) =
      s.fs.content (silogFileManagerGetCurrentPath config) := Fs.content_update_self _ _ _
  unfold silogFileManagerInitWithConfig SilogFileManager.started
  simp only [h, hdir, hopen, hqueue, hthread, hcontent, ne_eq, not_true_eq_false, if_false,
    Bool.false_eq_true, Bool.true_eq_false]

/-- A failed `SilogFileManagerInitWithConfig` has closed the file and destroyed the queue,
    but leaves the flag set if the thread was what failed. -/
theorem initWithConfig_failed (config : SilogLogFileConfig) (h : s.fm.initialized = false)
    (henv : ¬ env.Ready) :
    ∃ fm fs ret, silogFileManagerInitWithConfig s config env = System.returns ⟨fm, fs⟩ ret ∧
      ret ≠ .ok ∧ fm.initialized = false ∧ (s.fm.currentFd = none → fm.currentFd = none) ∧
      fm.compressThread = s.fm.compressThread ∧
      (s.fm.compressQueue = none → fm.compressQueue = none) ∧
      fm.compressThreadRunning = (decide env.ReachesThread || s.fm.compressThreadRunning) ∧
      fm.asyncBufferSize = s.fm.asyncBufferSize := by
  unfold silogFileManagerInitWithConfig
  rw [if_neg (Bool.eq_false_iff.mp h)]
  dsimp only
  split
  · next hdir =>
    refine ⟨_, _, _, rfl, hdir, h, id, rfl, id, ?_, rfl⟩
    rw [decide_eq_false fun hr : env.ReachesThread => hdir hr.1, Bool.false_or]
  · next hdir =>
    split
    · next hopen =>
      refine ⟨_, _, _, rfl, by decide, h, fun _ => rfl, rfl, id, ?_, rfl⟩
      rw [decide_eq_false fun hr : env.ReachesThread => Bool.eq_false_iff.mp hopen hr.2.1,
        Bool.false_or]
    · next hopen =>
      split
      · next hqueue =>
        refine ⟨_, _, _, rfl, hqueue, h, fun _ => rfl, rfl, id, ?_, rfl⟩
        rw [decide_eq_false fun hr : env.ReachesThread => hqueue hr.2.2, Bool.false_or]
      · next hqueue =>
        have hreach : env.ReachesThread :=
          ⟨not_not.mp hdir, Bool.eq_true_of_not_eq_false hopen, not_not.mp hqueue⟩
        split
        · refine ⟨_, _, _, rfl, by decide, h, fun _ => rfl, rfl, fun _ => rfl, ?_, rfl⟩
          rw [decide_eq_true hreach, Bool.true_or]
        · next hthread =>
          exact absurd ⟨hreach.1, hreach.2.1, hreach.2.2, Bool.eq_true_of_not_eq_false hthread⟩ henv

/-- `SilogFileManagerInit` of a manager that is not initialised returns `SILOG_OK` exactly
    if all is there. -/
theorem initWithConfig_ok_iff (h : s.fm.initialized = false) :
    (silogFileManagerInitWithConfig s config env).ret = .ok ↔ env.Ready := by
  by_cases henv : env.Ready
  · exact iff_of_true (by rw [initWithConfig_ready h henv]; rfl) henv
  · obtain ⟨fm, fs, ret, heq, hret, _⟩ := initWithConfig_failed config h henv
    exact iff_of_false (by rw [heq]; exact hret) henv

/-- What it returns depends on what it meets alone. -/
theorem initWithConfig_ret {s' : System} (h : s.fm.initialized = false)
    (h' : s'.fm.initialized = false) (config : SilogLogFileConfig) (env : InitEnv) :
    (silogFileManagerInitWithConfig s config env).ret =
      (silogFileManagerInitWithConfig s' config env).ret := by
  unfold silogFileManagerInitWithConfig
  rw [if_neg (Bool.eq_false_iff.mp h), if_neg (Bool.eq_false_iff.mp h')]
  dsimp only
  by_cases hdir : silogFileManagerEnsureDir env.dir ≠ .ok
  · rw [if_pos hdir, if_pos hdir]
    rfl
  · rw [if_neg hdir, if_neg hdir]
    by_cases hopen : env.fopen = false
    · rw [if_pos hopen, if_pos hopen]
      rfl
    · rw [if_neg hopen, if_neg hopen]
      by_cases hqueue : env.queueInit ≠ .ok
      · rw [if_pos hqueue, if_pos hqueue]
        rfl
      · rw [if_neg hqueue, if_neg hqueue]
        by_cases hthread : env.pthreadCreate = false
        · rw [if_pos hthread, if_pos hthread]
          rfl
        · rw [if_neg hthread, if_neg hthread]
          rfl

end init

/-! ## Section 2: Calls that start and stop nothing -/

/-- `s'` holds the thread, the flag and the queue that `s` holds, and a manager that is not
    initialised has opened no file. -/
structure System.SameHold (s s' : System) : Prop where
  initialized           : s'.fm.initialized = s.fm.initialized
  compressThread        : s'.fm.compressThread = s.fm.compressThread
  compressThreadRunning : s'.fm.compressThreadRunning = s.fm.compressThreadRunning
  compressQueue         : s'.fm.compressQueue.isSome = s.fm.compressQueue.isSome
  closed                : s.fm.initialized = false → s.fm.currentFd = none → s'.fm.currentFd = none

namespace System.SameHold

variable {s s' s'' : System}

theorem refl (s : System) : s.SameHold s := ⟨rfl, rfl, rfl, rfl, fun _ h => h⟩

theorem trans (h : s.SameHold s') (h' : s'.SameHold s'') : s.SameHold s'' where
  initialized := h'.initialized.trans h.initialized
  compressThread := h'.compressThread.trans h.compressThread
  compressThreadRunning := h'.compressThreadRunning.trans h.compressThreadRunning
  compressQueue := h'.compressQueue.trans h.compressQueue
  closed := fun hi hfd => h'.closed (h.initialized.trans hi) (h.closed hi hfd)

/-- For an initialised manager the stream does not matter. -/
theorem of_initialized (hinit : s.fm.initialized = true) (h₁ : s'.fm.initialized = s.fm.initialized)
    (h₂ : s'.fm.compressThread = s.fm.compressThread)
    (h₃ : s'.fm.compressThreadRunning = s.fm.compressThreadRunning)
    (h₄ : s'.fm.compressQueue.isSome = s.fm.compressQueue.isSome) : s.SameHold s' :=
  ⟨h₁, h₂, h₃, h₄, fun hi => (by rw [hinit] at hi; cases hi)⟩

end System.SameHold

theorem compressFile_sameHold (s : System) (gzip : Bool) (filePath : Str) :
    s.SameHold (silogFileManagerCompressFile s gzip filePath) := by
  unfold silogFileManagerCompressFile
  split
  · exact .refl s
  · split
    · exact ⟨rfl, rfl, rfl, Option.isSome_map, fun _ h => h⟩
    · exact ⟨rfl, rfl, rfl, rfl, fun _ h => h⟩

theorem compressThread_sameHold (s : System) (gzip : Bool) :
    s.SameHold (silogFileManagerCompressThread s gzip) := by
  unfold silogFileManagerCompressThread
  split
  · next hqueue => exact ⟨rfl, rfl, rfl, by rw [hqueue]; rfl, fun _ h => h⟩
  · exact .refl s

section running
variable {s : System}

theorem rotateInternal_sameHold (hinit : s.fm.initialized = true) (env : RotateEnv) :
    s.SameHold (silogFileManagerRotateInternal s env).sys := by
  have hclose := s.closeCurrent_fm
  obtain ⟨_, _, heq⟩ | ⟨_, _, heq⟩ | ⟨fs₂, _, _, heq⟩ | ⟨fs₂, _, _, heq⟩ := rotateInternal_cases s env
  · rw [heq, hclose]
    exact .of_initialized hinit rfl rfl rfl rfl
  · rw [heq]
    exact .of_initialized hinit (by rw [hclose]) (by rw [hclose]) (by rw [hclose]) (by rw [hclose])
  · rw [heq, hclose]
    have hopened : s.SameHold ⟨{ s.fm with
        currentFd := some (fopenWrite fs₂ s.currentPath).1, currentSize := 0,
        asyncBufferSize := 0 }, (fopenWrite fs₂ s.currentPath).2⟩ :=
      .of_initialized hinit rfl rfl rfl rfl
    obtain ⟨h₁, h₂, h₃, h₄, h₅⟩ :=
      hopened.trans (compressFile_sameHold _ env.gzip (s.historyTarget env.timestamp))
    exact ⟨h₁, h₂, h₃, h₄, h₅⟩
  · rw [heq, hclose]
    exact .of_initialized hinit rfl rfl rfl rfl

theorem flushAfterWrite_sameHold (hinit : s.fm.initialized = true) (st : FileStream Str UInt8)
    (len : UInt32) (now : UInt64) : s.SameHold (s.flushAfterWrite st len now) := by
  unfold System.flushAfterWrite
  split
  · exact .of_initialized hinit rfl rfl rfl rfl
  · dsimp only
    split <;> exact .of_initialized hinit rfl rfl rfl rfl

theorem writeRecord_sameHold (hinit : s.fm.initialized = true) (d : Record) (env : WriteEnv) :
    s.SameHold (s.writeRecord d env).2 := by
  unfold System.writeRecord
  cases s.fm.currentFd with
  | none => exact .refl s
  | some st =>
    dsimp only
    split
    · exact .of_initialized hinit rfl rfl rfl rfl
    · have hsize : s.SameHold ⟨{ s.fm with currentSize := s.fm.currentSize + d.len },
          (st.write s.fs d.bytes env.passed).2⟩ := .of_initialized hinit rfl rfl rfl rfl
      exact hsize.trans (flushAfterWrite_sameHold (hsize.initialized.trans hinit) _ _ _)

theorem writeRaw_sameHold (s : System) (data : Option Record) (env : WriteEnv) :
    s.SameHold (silogFileManagerWriteRaw s data env).sys := by
  obtain ⟨_, ret, _, heq⟩ | ⟨d, _, hinit, _, ⟨_, heq⟩ | ⟨_, _, heq⟩ | ⟨_, _, heq⟩⟩ :=
    writeRaw_cases s data env
  · rw [heq]
    exact .refl s
  · rw [heq]
    exact writeRecord_sameHold hinit d env
  · rw [heq]
    exact rotateInternal_sameHold hinit env.rotate
  · rw [heq]
    have hrot := rotateInternal_sameHold hinit env.rotate
    exact hrot.trans (writeRecord_sameHold (hrot.initialized.trans hinit) d env)

theorem setText_sameHold (s : System) (text : Option Str)
    (f : Str → SilogLogFileConfig → SilogLogFileConfig) : s.SameHold (s.setText text f).sys := by
  unfold System.setText
  cases text with
  | none => exact .refl s
  | some text =>
    dsimp only
    split
    · exact .refl s
    · exact ⟨rfl, rfl, rfl, rfl, fun _ h => h⟩

/-- Only `Init` and `Deinit` start and stop something. -/
theorem call_sameHold (s : System) {c : Call} (hinit : ∀ config env, c ≠ .init config env)
    (hdeinit : ∀ gzips, c ≠ .deinit gzips) : s.SameHold (s.call c).sys := by
  cases c with
  | init config env => exact absurd rfl (hinit config env)
  | deinit gzips => exact absurd rfl (hdeinit gzips)
  | setLogDir dir => exact setText_sameHold s dir _
  | setLogFileBase base => exact setText_sameHold s base _
  | writeRaw data env => exact writeRaw_sameHold s data env
  | rotate env =>
    show s.SameHold (silogFileManagerRotate s env).sys
    unfold silogFileManagerRotate
    cases hi : s.fm.initialized with
    | false => exact .refl s
    | true => exact rotateInternal_sameHold hi env
  | flush now =>
    show s.SameHold (silogFileManagerFlush s now).sys
    unfold silogFileManagerFlush
    cases hfd : s.fm.currentFd with
    | none => exact .refl s
    | some st => exact ⟨rfl, rfl, rfl, rfl, fun _ h => (by rw [hfd] at h; cases h)⟩
  | compress gzip => exact compressThread_sameHold s gzip
  | setMaxFileSize _ | setMaxFileCount _ | setCompression _ | setCompressMode _ | setFlushMode _
  | setAsyncFlushInterval _ | setAsyncFlushSize _ => exact ⟨rfl, rfl, rfl, rfl, fun _ h => h⟩

end running

/-! ## Section 3: What is held while initialised and while not -/

/-- An initialised manager has its thread, flag and queue.  One that is not has no file, no
    thread and no queue; the flag is another matter. -/
structure System.Lifecycle (s : System) : Prop where
  up   : s.fm.initialized = true →
    s.fm.compressThread = true ∧ s.fm.compressThreadRunning = true ∧ s.fm.compressQueue.isSome = true
  down : s.fm.initialized = false →
    s.fm.currentFd = none ∧ s.fm.compressThread = false ∧ s.fm.compressQueue = none

namespace System.Lifecycle

variable {s s' : System}

theorem of_sameHold (h : s.Lifecycle) (hs : s.SameHold s') : s'.Lifecycle where
  up := by
    intro hi
    rw [hs.compressThread, hs.compressThreadRunning, hs.compressQueue]
    exact h.up (hs.initialized ▸ hi)
  down := by
    intro hi
    rw [hs.initialized] at hi
    obtain ⟨hfd, hthread, hqueue⟩ := h.down hi
    refine ⟨hs.closed hi hfd, hs.compressThread.trans hthread, ?_⟩
    rw [← Option.isNone_iff_eq_none, ← Option.not_isSome, hs.compressQueue, hqueue]
    rfl

theorem initWithConfig (h : s.Lifecycle) (config : SilogLogFileConfig) (env : InitEnv) :
    (silogFileManagerInitWithConfig s config env).sys.Lifecycle := by
  cases hi : s.fm.initialized with
  | true =>
    rw [initWithConfig_again hi]
    exact h
  | false =>
    by_cases henv : env.Ready
    · rw [initWithConfig_ready hi henv]
      exact ⟨fun _ => ⟨rfl, rfl, rfl⟩, fun hno => (by cases hno)⟩
    · obtain ⟨fm, fs, ret, heq, _, hinit, hfd, hthread, hqueue, _⟩ :=
        initWithConfig_failed config hi henv
      obtain ⟨hfd₀, hthread₀, hqueue₀⟩ := h.down hi
      rw [heq]
      exact ⟨fun hyes => (by rw [show fm.initialized = true from hyes] at hinit; cases hinit),
        fun _ => ⟨hfd hfd₀, hthread.trans hthread₀, hqueue hqueue₀⟩⟩

theorem deinit (h : s.Lifecycle) (gzips : ℕ → Bool) : (silogFileManagerDeinit s gzips).sys.Lifecycle := by
  have hclose := s.closeCurrent_fm
  unfold silogFileManagerDeinit
  dsimp only
  rw [hclose]
  split
  · exact ⟨fun hyes => (by cases hyes), fun _ => ⟨rfl, rfl, rfl⟩⟩
  · next hflag =>
    refine ⟨fun hyes => (by cases hyes), fun _ => ?_⟩
    -- without the flag the manager was not initialised
    cases hi : s.fm.initialized with
    | true => exact absurd (h.up hi).2.1 hflag
    | false => exact ⟨rfl, (h.down hi).2⟩

theorem call (h : s.Lifecycle) (c : Call) : (s.call c).sys.Lifecycle := by
  by_cases hinit : ∃ config env, c = .init config env
  · obtain ⟨config, env, rfl⟩ := hinit
    exact h.initWithConfig _ env
  · by_cases hdeinit : ∃ gzips, c = .deinit gzips
    · obtain ⟨gzips, rfl⟩ := hdeinit
      exact h.deinit gzips
    · push Not at hinit hdeinit
      exact h.of_sameHold (call_sameHold s hinit hdeinit)

theorem initial (fs : Fs Str UInt8) : (System.initial fs).Lifecycle :=
  ⟨fun hyes => (by cases hyes), fun _ => ⟨rfl, rfl, rfl⟩⟩

end System.Lifecycle

/-! ## Section 4: Nothing is left running -/

/-- A manager that is not initialised has no file, no flag, no queue and no thread, and
    `Deinit` finds nothing to do. -/
def NothingLeft (s : System) : Prop :=
  s.fm.initialized = false →
    s.fm.currentFd = none ∧ s.fm.compressThreadRunning = false ∧ s.fm.compressQueue = none ∧
    s.fm.compressThread = false ∧ ∀ gzips, (silogFileManagerDeinit s gzips).sys = s

/-- An `Init` that comes to the creation of the thread creates it. -/
def ThreadStarts (s : System) (c : Call) : Prop :=
  ∀ config env, c = .init config env → s.fm.initialized = false → env.ReachesThread →
    env.pthreadCreate = true

section left
variable {s s' : System}

/-- `Deinit` decides by the flag. -/
theorem deinit_of_idle (hi : s.fm.initialized = false) (hfd : s.fm.currentFd = none)
    (hflag : s.fm.compressThreadRunning = false) (gzips : ℕ → Bool) :
    (silogFileManagerDeinit s gzips).sys = s := by
  obtain ⟨⟨config, fd, size, buffer, last, init, thread, queue, flag⟩, fs⟩ := s
  cases hi
  cases hfd
  cases hflag
  rfl

theorem nothingLeft_iff_flag (h : s.Lifecycle) :
    NothingLeft s ↔ (s.fm.initialized = false → s.fm.compressThreadRunning = false) := by
  constructor
  · exact fun hleft hi => (hleft hi).2.1
  · intro hflag hi
    obtain ⟨hfd, hthread, hqueue⟩ := h.down hi
    exact ⟨hfd, hflag hi, hqueue, hthread, deinit_of_idle hi hfd (hflag hi)⟩

theorem deinit_flag (s : System) (gzips : ℕ → Bool) :
    (silogFileManagerDeinit s gzips).sys.fm.compressThreadRunning = false := by
  have hclose := s.closeCurrent_fm
  unfold silogFileManagerDeinit
  dsimp only
  rw [hclose]
  split
  · rfl
  · next hflag => exact Bool.eq_false_iff.mpr hflag

/-- A call leaves something running exactly if it is an `Init` that cannot create the
    thread. -/
theorem nothingLeft_call_iff (h : s.Lifecycle) (hleft : NothingLeft s) (c : Call) :
    NothingLeft (s.call c).sys ↔ ThreadStarts s c := by
  rw [nothingLeft_iff_flag (h.call c)]
  by_cases hinit : ∃ config env, c = .init config env
  · obtain ⟨config, env, rfl⟩ := hinit
    show ((silogFileManagerInitWithConfig s _ env).sys.fm.initialized = false →
      (silogFileManagerInitWithConfig s _ env).sys.fm.compressThreadRunning = false) ↔ _
    cases hi : s.fm.initialized with
    | true =>
      rw [initWithConfig_again hi]
      refine iff_of_true (fun hno => ?_) fun _ _ _ hno => ?_
      · rw [show s.fm.initialized = false from hno] at hi
        cases hi
      · rw [hno] at hi
        cases hi
    | false =>
      by_cases henv : env.Ready
      · rw [initWithConfig_ready hi henv]
        refine iff_of_true (fun hno => (by cases hno)) ?_
        rintro _ _ ⟨⟩ _ _
        exact henv.2.2.2
      · obtain ⟨fm, fs, ret, heq, _, hno, _, _, _, hflag, _⟩ := initWithConfig_failed
          (config.getD silogFileManagerGetDefaultConfig) hi henv
        rw [(hleft hi).2.1, Bool.or_false] at hflag
        rw [heq]
        show (fm.initialized = false → fm.compressThreadRunning = false) ↔ _
        rw [hflag, decide_eq_false_iff_not]
        constructor
        · rintro hreach _ _ ⟨⟩ _ hr
          exact absurd hr (hreach hno)
        · intro hstarts _ hr
          exact henv ⟨hr.1, hr.2.1, hr.2.2, hstarts _ _ rfl hi hr⟩
  · have hstarts : ThreadStarts s c := fun config env heq => absurd ⟨config, env, heq⟩ hinit
    refine iff_of_true ?_ hstarts
    by_cases hdeinit : ∃ gzips, c = .deinit gzips
    · obtain ⟨gzips, rfl⟩ := hdeinit
      exact fun _ => deinit_flag s gzips
    · push Not at hinit hdeinit
      have hs := call_sameHold s hinit hdeinit
      rw [hs.initialized, hs.compressThreadRunning]
      exact fun hi => (hleft hi).2.1

end left

/-- **Failures leave nothing running.** In a run of any calls and failures, every state
    without initialisation has nothing left to release exactly if no `Init` of the
    run fails at the creation of the compression thread. -/
theorem nothingLeft_iff_threadStarts {fs₀ : Fs Str UInt8} {calls : List Call} {s : System} :
    Steps (Ensuring Step NothingLeft) (System.initial fs₀) calls s ↔
      Steps (Guarded Step ThreadStarts) (System.initial fs₀) calls s := by
  refine ensuring_iff_guarded (System.Lifecycle.initial fs₀) ?_ ?_ ?_
  · exact fun _ => ⟨rfl, rfl, rfl, rfl, fun _ => rfl⟩
  · rintro s c s' rfl h _ _
    exact h.call c
  · rintro s c s' rfl h hleft
    exact nothingLeft_call_iff h hleft c

/-- `pthread_create` fails, on an empty directory. -/
def noThreadInit : Call := .init none { smoothInit with pthreadCreate := false }

def noThread : System := ((System.initial fun _ => none).call noThreadInit).sys

/-- The flag stays set, and `Deinit` goes on to join a thread that was never created and to
    destroy the queue again. -/
theorem noThread_leaves_flag :
    Steps Step (System.initial fun _ => none) [noThreadInit] noThread ∧
    ((System.initial fun _ => none).call noThreadInit).ret = .threadCreate ∧
    noThread.fm.initialized = false ∧ noThread.fm.compressThreadRunning = true ∧
    ¬ NothingLeft noThread := by
  refine ⟨Steps.single rfl, rfl, rfl, rfl, ?_⟩
  intro hleft
  exact absurd (hleft rfl).2.1 (by decide)

end SiLog.FileManager
