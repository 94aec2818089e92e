import SiLog.FileManager.Model

/-! # What the calls of the file manager do

    One lemma for each function that says all it can do, and what they have in
    common: an open stream always belongs to an initialised manager and writes
    to the current file.
-/

open Files Lts

namespace SiLog.FileManager

/-! ## Section 1: The search and the attempts -/

section search
variable {config : SilogLogFileConfig} {fs : Fs Str UInt8} {timestamp : CString 32}

/-- The search ends at a name that is free, or at one of ten that are all taken. -/
theorem findHistoryPath_cases {fuel seq : ℕ} {path : Str} (hfuel : seq + fuel = 10)
    (hpath : 0 < seq → path = historyPath config timestamp (seq - 1))
    (htaken : ∀ i, i < seq → fs (historyPath config timestamp i) ≠ none) :
    ∃ k, k < 10 ∧ findHistoryPath config fs timestamp fuel seq path =
        historyPath config timestamp k ∧
      (fs (historyPath config timestamp k) = none ∨
        ∀ i, i < 10 → fs (historyPath config timestamp i) ≠ none) := by
  induction fuel generalizing seq path with
  | zero =>
    -- all ten were tried: the result is the last of them, free or not
    refine ⟨seq - 1, by omega, hpath (by omega), Or.inr fun i hi => htaken i (by omega)⟩
  | succ fuel ih =>
    unfold findHistoryPath
    rw [if_pos (show seq < maxSeqRetryCount by unfold maxSeqRetryCount; omega)]
    dsimp only
    split
    · next hfree => exact ⟨seq, by omega, rfl, Or.inl (Option.isNone_iff_eq_none.mp hfree)⟩
    · next hbusy =>
      -- this name is taken too
      refine ih (by omega) (fun _ => rfl) ?_
      intro i hi
      rcases Nat.lt_succ_iff_lt_or_eq.mp hi with hlt | rfl
      · exact htaken i hlt
      · exact fun hnone => hbusy (Option.isNone_iff_eq_none.mpr hnone)

end search

theorem System.historyTarget_cases (s : System) (timestamp : CString 32) :
    ∃ k, k < 10 ∧ s.historyTarget timestamp = historyPath s.fm.config timestamp k ∧
      (s.fs (historyPath s.fm.config timestamp k) = none ∨
        ∀ i, i < 10 → s.fs (historyPath s.fm.config timestamp i) ≠ none) :=
  findHistoryPath_cases (by rfl) (fun h => by omega) (fun i hi => by omega)

theorem System.historyTarget_ne_currentPath (s : System) (timestamp : CString 32) :
    s.historyTarget timestamp ≠ s.currentPath := by
  obtain ⟨k, hk, heq, _⟩ := s.historyTarget_cases timestamp
  rw [heq]
  exact historyPath_ne_currentPath s.fm.config timestamp hk

/-- The target is free exactly if one of the ten names is. -/
theorem System.historyTarget_free_iff (s : System) (timestamp : CString 32) :
    s.fs (s.historyTarget timestamp) = none ↔
      ∃ k, k < 10 ∧ s.fs (historyPath s.fm.config timestamp k) = none := by
  obtain ⟨k, hk, heq, hcase⟩ := s.historyTarget_cases timestamp
  rw [heq]
  constructor
  · exact fun hfree => ⟨k, hk, hfree⟩
  · rintro ⟨i, hi, hfree⟩
    rcases hcase with hnone | hall
    · exact hnone
    · exact absurd hfree (hall i hi)

theorem rename_of_renameLoop {fs fs' : Fs Str UInt8} {source target : Str} {renames : ℕ → Bool}
    {fuel retry : ℕ} (h : renameLoop fs source target renames fuel retry = some fs') :
    fs.rename source target = some fs' := by
  induction fuel generalizing retry with
  | zero => cases h
  | succ fuel ih =>
    unfold renameLoop at h
    split at h
    · next fs₁ hatt =>
      split at hatt
      · rw [hatt]
        exact h
      · cases hatt
    · exact ih h

/-- The loop succeeds exactly if there is a file and one of the attempts may succeed. -/
theorem renameLoop_isSome_iff {fs : Fs Str UInt8} {source target : Str} {renames : ℕ → Bool}
    {fuel retry : ℕ} :
    (renameLoop fs source target renames fuel retry).isSome ↔
      (fs source).isSome ∧ ∃ i, retry ≤ i ∧ i < retry + fuel ∧ renames i = true := by
  induction fuel generalizing retry with
  | zero =>
    constructor
    · intro h; cases h
    · rintro ⟨_, i, hle, hlt, _⟩; omega
  | succ fuel ih =>
    unfold renameLoop
    by_cases hren : renames retry = true
    · rw [if_pos hren]
      cases hfile : fs.rename source target with
      | some fs' =>
        have hsome : (fs source).isSome := (fs.rename_isSome_iff source target).mp (Option.isSome_of_mem hfile)
        exact iff_of_true rfl ⟨hsome, retry, le_refl _, by omega, hren⟩
      | none =>
        -- without a file no later attempt succeeds either
        have hnone : ¬ (fs source).isSome := by
          rw [← fs.rename_isSome_iff source target, hfile]
          exact Bool.false_ne_true
        exact iff_of_false (fun h => hnone (ih.mp h).1) (fun h => hnone h.1)
    · rw [if_neg hren]
      show (renameLoop fs source target renames fuel (retry + 1)).isSome ↔ _
      rw [ih]
      -- the attempt `retry` fails, so one that succeeds is a later one
      refine and_congr_right fun _ => ?_
      constructor
      · rintro ⟨i, hle, hlt, htrue⟩
        exact ⟨i, by omega, by omega, htrue⟩
      · rintro ⟨i, hle, hlt, htrue⟩
        refine ⟨i, ?_, by omega, htrue⟩
        rcases Nat.lt_or_ge retry i with h | h
        · exact h
        · obtain rfl : i = retry := by omega
          exact absurd htrue hren

/-! ## Section 2: What a rotation does -/

/-- The four ways through `SilogFileManagerRotateInternal`. -/
theorem rotateInternal_cases (s : System) (env : RotateEnv) :
    (s.renameCurrent env = none ∧ env.reopen = true ∧ silogFileManagerRotateInternal s env =
      ⟨.fileWrite, ⟨{ s.closeCurrent.fm with
          currentFd := some (fopenAppend s.closeCurrent.fs s.currentPath).1 },
        (fopenAppend s.closeCurrent.fs s.currentPath).2⟩, some ⟨none, s.closeCurrent.fs⟩⟩) ∨
    (s.renameCurrent env = none ∧ env.reopen = false ∧ silogFileManagerRotateInternal s env =
      ⟨.fileOpen, s.closeCurrent, some ⟨none, s.closeCurrent.fs⟩⟩) ∨
    (∃ fs₂, s.renameCurrent env = some fs₂ ∧ env.reopen = true ∧
      silogFileManagerRotateInternal s env =
        ⟨.ok, (silogFileManagerCompressFile ⟨{ s.closeCurrent.fm with
            currentFd := some (fopenWrite fs₂ s.currentPath).1, currentSize := 0,
            asyncBufferSize := 0 }, (fopenWrite fs₂ s.currentPath).2⟩
          env.gzip (s.historyTarget env.timestamp)).cleanOldFiles env.scan env.mem
          env.unlink,
          some ⟨some (s.historyTarget env.timestamp), fs₂⟩⟩) ∨
    (∃ fs₂, s.renameCurrent env = some fs₂ ∧ env.reopen = false ∧
      silogFileManagerRotateInternal s env =
        ⟨.fileOpen, ⟨s.closeCurrent.fm, fs₂⟩,
          some ⟨some (s.historyTarget env.timestamp), fs₂⟩⟩) := by
  unfold silogFileManagerRotateInternal
  cases hren : s.renameCurrent env with
  | none =>
    cases hopen : env.reopen with
    | true => exact Or.inl ⟨rfl, rfl, rfl⟩
    | false => exact Or.inr (Or.inl ⟨rfl, rfl, rfl⟩)
  | some fs₂ =>
    cases hopen : env.reopen with
    | true => exact Or.inr (Or.inr (Or.inl ⟨fs₂, rfl, rfl, rfl⟩))
    | false => exact Or.inr (Or.inr (Or.inr ⟨fs₂, rfl, rfl, rfl⟩))

/-- The rename step of a rotation. -/
theorem rotateInternal_renamed (s : System) (env : RotateEnv) :
    (silogFileManagerRotateInternal s env).renamed =
      match s.renameCurrent env with
      | none => some ⟨none, s.closeCurrent.fs⟩
      | some fs₂ => some ⟨some (s.historyTarget env.timestamp), fs₂⟩ := by
  obtain ⟨hren, _, heq⟩ | ⟨hren, _, heq⟩ | ⟨fs₂, hren, _, heq⟩ | ⟨fs₂, hren, _, heq⟩ :=
    rotateInternal_cases s env
  all_goals rw [heq, hren]

/-- The rotation that a call comes to. -/
def System.rotation (s : System) : Call → Option RotateEnv
  | .rotate env => if s.fm.initialized then some env else none
  | .writeRaw (some data) env =>
    if data.len ≠ 0 ∧ s.fm.initialized ∧ s.fm.currentFd.isSome ∧
        s.fm.config.maxFileSize ≤ s.fm.currentSize + data.len then some env.rotate
    else none
  | _ => none

/-- The ways through `SilogFileManagerInitWithConfig`: nothing to do, failed, and ready.
    A failed call may have created the current file. -/
theorem initWithConfig_cases (s : System) (config : SilogLogFileConfig) (env : InitEnv) :
    (s.fm.initialized = true ∧ silogFileManagerInitWithConfig s config env = s.returns .ok) ∨
    (s.fm.initialized = false ∧ ∃ fm fs ret,
      silogFileManagerInitWithConfig s config env = System.returns ⟨fm, fs⟩ ret ∧
      fm.initialized = false ∧ (fm.currentFd = s.fm.currentFd ∨ fm.currentFd = none) ∧
      (fm.compressQueue = s.fm.compressQueue ∨ fm.compressQueue = none) ∧
      (fs = s.fs ∨ fs = (fopenAppend s.fs (silogFileManagerGetCurrentPath config)).2)) ∨
    (s.fm.initialized = false ∧ ∃ fm, silogFileManagerInitWithConfig s config env =
        System.returns ⟨fm, (fopenAppend s.fs (silogFileManagerGetCurrentPath config)).2⟩ .ok ∧
      fm.config = config ∧ fm.initialized = true ∧ fm.compressQueue = some [] ∧
      fm.currentFd = some (fopenAppend s.fs (silogFileManagerGetCurrentPath config)).1) := by
  unfold silogFileManagerInitWithConfig
  cases hinit : s.fm.initialized with
  | true => exact Or.inl ⟨rfl, rfl⟩
  | false =>
    right
    rw [if_neg Bool.false_ne_true]
    dsimp only
    split
    · -- no directory
      exact Or.inl ⟨rfl, _, _, _, rfl, hinit, Or.inl rfl, Or.inl rfl, Or.inl rfl⟩
    · split
      · -- `fopen` fails
        exact Or.inl ⟨rfl, _, _, _, rfl, hinit, Or.inr rfl, Or.inl rfl, Or.inl rfl⟩
      · split
        · -- no queue
          exact Or.inl ⟨rfl, _, _, _, rfl, hinit, Or.inr rfl, Or.inl rfl, Or.inr fopenAppend_flush⟩
        · split
          · -- no thread
            exact Or.inl ⟨rfl, _, _, _, rfl, hinit, Or.inr rfl, Or.inr rfl, Or.inr fopenAppend_flush⟩
          · exact Or.inr ⟨rfl, _, rfl, rfl, rfl, rfl, rfl⟩

theorem deinit_renamed (s : System) (gzips : ℕ → Bool) :
    (silogFileManagerDeinit s gzips).renamed = none := by
  unfold silogFileManagerDeinit
  dsimp only
  split <;> rfl

theorem setText_renamed (s : System) (text : Option Str)
    (f : Str → SilogLogFileConfig → SilogLogFileConfig) : (s.setText text f).renamed = none := by
  unfold System.setText
  cases text with
  | none => rfl
  | some text =>
    dsimp only
    split <;> rfl

theorem flush_renamed (s : System) (now : UInt64) : (silogFileManagerFlush s now).renamed = none := by
  unfold silogFileManagerFlush
  cases s.fm.currentFd <;> rfl

/-- The ways through `SilogFileManagerWriteRaw`: refused, written, stopped by a rotation
    that failed, and written after a rotation. -/
theorem writeRaw_cases (s : System) (data : Option Record) (env : WriteEnv) :
    (s.rotation (.writeRaw data env) = none ∧ ∃ ret, ret ≠ .ok ∧
      silogFileManagerWriteRaw s data env = s.returns ret) ∨
    ∃ d, data = some d ∧ s.fm.initialized = true ∧ s.fm.currentFd.isSome = true ∧
      ((s.rotation (.writeRaw data env) = none ∧ silogFileManagerWriteRaw s data env =
        ⟨(s.writeRecord d env).1, (s.writeRecord d env).2, none⟩) ∨
      (s.rotation (.writeRaw data env) = some env.rotate ∧
        (silogFileManagerRotateInternal s env.rotate).ret ≠ .ok ∧
        silogFileManagerWriteRaw s data env = silogFileManagerRotateInternal s env.rotate) ∨
      (s.rotation (.writeRaw data env) = some env.rotate ∧
        (silogFileManagerRotateInternal s env.rotate).ret = .ok ∧
        silogFileManagerWriteRaw s data env =
          ⟨((silogFileManagerRotateInternal s env.rotate).sys.writeRecord d env).1,
            ((silogFileManagerRotateInternal s env.rotate).sys.writeRecord d env).2,
            (silogFileManagerRotateInternal s env.rotate).renamed⟩)) := by
  cases data with
  | none => exact Or.inl ⟨rfl, .invalidArg, by decide, rfl⟩
  | some d =>
    -- the checks before the rotation, all at once
    by_cases hok : d.len ≠ 0 ∧ s.fm.initialized = true ∧ s.fm.currentFd.isSome = true
    · right
      obtain ⟨hlen, hinit, hfd⟩ := hok
      have hopen : ¬ (s.fm.initialized = false ∨ s.fm.currentFd.isNone = true) := by
        simp [hinit, Option.isSome_iff_ne_none.mp hfd]
      refine ⟨d, rfl, hinit, hfd, ?_⟩
      by_cases hfull : s.fm.config.maxFileSize ≤ s.fm.currentSize + d.len
      · right
        have hrot : s.rotation (.writeRaw (some d) env) = some env.rotate :=
          if_pos ⟨hlen, hinit, hfd, hfull⟩
        by_cases hret : (silogFileManagerRotateInternal s env.rotate).ret = .ok
        · refine Or.inr ⟨hrot, hret, ?_⟩
          simp only [silogFileManagerWriteRaw, if_neg hlen, if_neg hopen, if_pos hfull,
            if_neg (not_not.mpr hret)]
        · refine Or.inl ⟨hrot, hret, ?_⟩
          simp only [silogFileManagerWriteRaw, if_neg hlen, if_neg hopen, if_pos hfull, if_pos hret]
      · refine Or.inl ⟨if_neg fun h => hfull h.2.2.2, ?_⟩
        simp only [silogFileManagerWriteRaw, if_neg hlen, if_neg hopen, if_neg hfull]
    · left
      refine ⟨if_neg fun h => hok ⟨h.1, h.2.1, h.2.2.1⟩, ?_⟩
      by_cases hlen : d.len = 0
      · exact ⟨.invalidArg, by decide, by simp only [silogFileManagerWriteRaw, if_pos hlen]⟩
      · have hclosed : s.fm.initialized = false ∨ s.fm.currentFd.isNone = true := by
          by_contra hopen
          push Not at hopen
          exact hok ⟨hlen, by simpa using hopen.1, by simpa [Option.isSome_iff_ne_none] using hopen.2⟩
        exact ⟨.fileManagerNotInit, by decide, by
          simp only [silogFileManagerWriteRaw, if_neg hlen, if_pos hclosed]⟩

/-- A call has a rename step exactly if it comes to a rotation. -/
theorem call_renamed (s : System) (c : Call) :
    (s.call c).renamed =
      (s.rotation c).bind fun env => (silogFileManagerRotateInternal s env).renamed := by
  cases c with
  | init config env =>
    show (silogFileManagerInitWithConfig s _ env).renamed = none
    obtain ⟨_, heq⟩ | ⟨_, fm, fs, ret, heq, _⟩ | ⟨_, fm, heq, _⟩ := initWithConfig_cases s _ env
    all_goals
      rw [heq]
      rfl
  | deinit gzips => exact deinit_renamed s gzips
  | setLogDir dir => exact setText_renamed s dir _
  | setLogFileBase base => exact setText_renamed s base _
  | writeRaw data env =>
    show (silogFileManagerWriteRaw s data env).renamed = _
    obtain ⟨hrot, ret, _, heq⟩ | ⟨d, _, _, _, ⟨hrot, heq⟩ | ⟨hrot, _, heq⟩ | ⟨hrot, _, heq⟩⟩ :=
      writeRaw_cases s data env
    all_goals
      rw [heq, hrot]
      rfl
  | rotate env =>
    show (silogFileManagerRotate s env).renamed = _
    unfold silogFileManagerRotate System.rotation
    cases s.fm.initialized <;> rfl
  | flush now => exact flush_renamed s now
  | setMaxFileSize size => rfl
  | setMaxFileCount count => rfl
  | setCompression enable => rfl
  | setCompressMode mode => rfl
  | setFlushMode mode => rfl
  | setAsyncFlushInterval intervalMs => rfl
  | setAsyncFlushSize size => rfl
  | compress => rfl

/-! ## Section 3: The stream is open at the current path -/

/-- An open stream belongs to an initialised manager and writes to the current file. -/
def System.Wf (s : System) : Prop :=
  ∀ st, s.fm.currentFd = some st → s.fm.initialized = true ∧ st.path = s.currentPath

namespace System

variable {s s' : System}

theorem wf_of_closed (h : s.fm.currentFd = none) : s.Wf := by
  intro st hst
  rw [h] at hst
  cases hst

theorem closeCurrent_fm (s : System) : s.closeCurrent.fm = { s.fm with currentFd := none } := by
  obtain ⟨⟨_, fd, _, _, _, _, _, _, _⟩, _⟩ := s
  cases fd <;> rfl

/-- Closing writes to the current file only. -/
theorem closeCurrent_other (hwf : s.Wf) {path : Str} (hne : path ≠ s.currentPath) :
    s.closeCurrent.fs path = s.fs path := by
  unfold closeCurrent
  cases hfd : s.fm.currentFd with
  | none => rfl
  | some st => exact (st.flush_passes s.fs).other path (by rw [(hwf st hfd).2]; exact hne)

/-- After closing there is a current file if there was one or a stream was open. -/
theorem closeCurrent_current_isSome (hwf : s.Wf) :
    (s.closeCurrent.fs s.currentPath).isSome ↔
      s.fm.currentFd.isSome ∨ (s.fs s.currentPath).isSome := by
  unfold closeCurrent
  cases hfd : s.fm.currentFd with
  | none => simp
  | some st =>
    have hpath := (hwf st hfd).2
    simp [← hpath, FileStream.flush, FileStream.spill]

end System

/-- `s'` has the configuration and the initialisation of `s`, and a stream that is open in
    `s'` writes to the current file. -/
structure System.Keeps (s s' : System) : Prop where
  config      : s'.fm.config = s.fm.config
  initialized : s'.fm.initialized = s.fm.initialized
  path        : ∀ st, s'.fm.currentFd = some st → st.path = s.currentPath

namespace System

variable {s s' s'' : System}

theorem Keeps.currentPath (h : s.Keeps s') : s'.currentPath = s.currentPath := by
  unfold System.currentPath
  rw [h.config]

theorem Keeps.wf (h : s.Keeps s') (hinit : s.fm.initialized = true) : s'.Wf := by
  intro st hst
  refine ⟨h.initialized.trans hinit, ?_⟩
  rw [h.currentPath]
  exact h.path st hst

theorem Keeps.trans (h : s.Keeps s') (h' : s'.Keeps s'') : s.Keeps s'' where
  config := h'.config.trans h.config
  initialized := h'.initialized.trans h.initialized
  path := fun st hst => (h'.path st hst).trans h.currentPath

/-- Changing a setting other than a name. -/
theorem Wf.setConfig (hwf : s.Wf) {f : SilogLogFileConfig → SilogLogFileConfig}
    (hpath : silogFileManagerGetCurrentPath (f s.fm.config) = s.currentPath) : (s.setConfig f).Wf := by
  intro st hst
  obtain ⟨hinit, heq⟩ := hwf st hst
  exact ⟨hinit, heq.trans hpath.symm⟩

theorem Wf.setText (hwf : s.Wf) (text : Option Str)
    (f : Str → SilogLogFileConfig → SilogLogFileConfig) : (s.setText text f).sys.Wf := by
  unfold System.setText
  cases text with
  | none => exact hwf
  | some text =>
    dsimp only
    split
    · exact hwf
    · next hinit =>
      -- not initialised, so no stream is open
      intro st hst
      exact absurd (hwf st hst).1 hinit

end System

theorem compressFile_keeps {s₀ s : System} (h : s₀.Keeps s) (gzip : Bool) (filePath : Str) :
    s₀.Keeps (silogFileManagerCompressFile s gzip filePath) := by
  unfold silogFileManagerCompressFile
  split
  · exact h
  · split
    · exact ⟨h.config, h.initialized, h.path⟩
    · exact ⟨h.config, h.initialized, h.path⟩

theorem rotateInternal_keeps (s : System) (env : RotateEnv) :
    s.Keeps (silogFileManagerRotateInternal s env).sys := by
  have hclose := s.closeCurrent_fm
  obtain ⟨_, _, heq⟩ | ⟨_, _, heq⟩ | ⟨fs₂, _, _, heq⟩ | ⟨fs₂, _, _, heq⟩ := rotateInternal_cases s env
  · rw [heq, hclose]
    exact ⟨rfl, rfl, fun st hst => by cases hst; rfl⟩
  · rw [heq]
    refine ⟨by rw [hclose], by rw [hclose], fun st hst => ?_⟩
    rw [hclose] at hst
    cases hst
  · rw [heq, hclose]
    -- the new stream first; compression and clean-up leave the record alone but for its queue
    have hopened : s.Keeps ⟨{ s.fm with
        currentFd := some (fopenWrite fs₂ s.currentPath).1, currentSize := 0,
        asyncBufferSize := 0 }, (fopenWrite fs₂ s.currentPath).2⟩ :=
      ⟨rfl, rfl, fun st hst => by cases hst; rfl⟩
    obtain ⟨hc, hi, hp⟩ := compressFile_keeps hopened env.gzip (s.historyTarget env.timestamp)
    exact ⟨hc, hi, hp⟩
  · rw [heq, hclose]
    exact ⟨rfl, rfl, fun st hst => by cases hst⟩

theorem flushCurrent_keeps {s : System} {st : FileStream Str UInt8} (hpath : st.path = s.currentPath) :
    s.Keeps (s.flushCurrent st) :=
  ⟨rfl, rfl, fun st' hst => by cases hst; exact hpath⟩

theorem flushAfterWrite_keeps {s : System} {st : FileStream Str UInt8} (hpath : st.path = s.currentPath)
    (len : UInt32) (now : UInt64) : s.Keeps (s.flushAfterWrite st len now) := by
  obtain ⟨hc, hi, hp⟩ := flushCurrent_keeps hpath
  unfold System.flushAfterWrite
  split
  · exact ⟨hc, hi, hp⟩
  · dsimp only
    split
    · exact ⟨hc, hi, hp⟩
    · exact ⟨rfl, rfl, fun st' hst => by cases hst; exact hpath⟩

theorem writeRecord_keeps {s : System} (hwf : s.Wf) (d : Record) (env : WriteEnv) :
    s.Keeps (s.writeRecord d env).2 := by
  unfold System.writeRecord
  cases hfd : s.fm.currentFd with
  | none => exact ⟨rfl, rfl, fun st hst => by rw [hfd] at hst; cases hst⟩
  | some st =>
    have hpath := (hwf st hfd).2
    dsimp only
    split
    · exact ⟨rfl, rfl, fun st' hst => by cases hst; exact hpath⟩
    · have hpath' : (st.write s.fs d.bytes env.passed).1.path =
          System.currentPath ⟨{ s.fm with currentSize := s.fm.currentSize + d.len },
            (st.write s.fs d.bytes env.passed).2⟩ := hpath
      obtain ⟨hc, hi, hp⟩ := flushAfterWrite_keeps hpath' d.len env.now
      exact ⟨hc, hi, hp⟩

/-- Every call keeps streams at the current path. -/
theorem System.Wf.initWithConfig {s : System} (hwf : s.Wf) (config : SilogLogFileConfig)
    (env : InitEnv) : (silogFileManagerInitWithConfig s config env).sys.Wf := by
  obtain ⟨_, heq⟩ | ⟨hinit, fm, fs, ret, heq, _, hfd, _⟩ | ⟨_, fm, heq, hconfig, hinit, _, hfd⟩ :=
    initWithConfig_cases s config env
  · rw [heq]
    exact hwf
  · rw [heq]
    refine System.wf_of_closed ?_
    rcases hfd with h | h
    · -- no stream was open before
      show fm.currentFd = none
      rw [h]
      by_contra hne
      obtain ⟨st, hst⟩ := Option.ne_none_iff_exists'.mp hne
      rw [(hwf st hst).1] at hinit
      cases hinit
    · exact h
  · rw [heq]
    intro st hst
    obtain rfl : (fopenAppend s.fs _).1 = st := Option.some.inj (hfd.symm.trans hst)
    refine ⟨hinit, ?_⟩
    unfold System.currentPath
    show _ = silogFileManagerGetCurrentPath fm.config
    rw [hconfig]
    rfl

/-- A write keeps the configuration and the file. -/
theorem writeRaw_keeps {s : System} (hwf : s.Wf) (data : Option Record) (env : WriteEnv) :
    s.Keeps (silogFileManagerWriteRaw s data env).sys := by
  obtain ⟨_, ret, _, heq⟩ | ⟨d, _, hinit, _, ⟨_, heq⟩ | ⟨_, _, heq⟩ | ⟨_, _, heq⟩⟩ :=
    writeRaw_cases s data env
  · rw [heq]
    exact ⟨rfl, rfl, fun st hst => (hwf st hst).2⟩
  · rw [heq]
    exact writeRecord_keeps hwf d env
  · rw [heq]
    exact rotateInternal_keeps s env.rotate
  · rw [heq]
    -- the rotation, and then the record on what it leaves
    have hrot := rotateInternal_keeps s env.rotate
    exact hrot.trans (writeRecord_keeps (hrot.wf hinit) d env)

theorem System.Wf.writeRaw {s : System} (hwf : s.Wf) (data : Option Record) (env : WriteEnv) :
    (silogFileManagerWriteRaw s data env).sys.Wf := by
  obtain ⟨_, ret, _, heq⟩ | ⟨_, _, hinit, _, _⟩ := writeRaw_cases s data env
  · rw [heq]
    exact hwf
  · exact (writeRaw_keeps hwf data env).wf hinit

theorem System.Wf.call {s : System} (hwf : s.Wf) (c : Call) : (s.call c).sys.Wf := by
  cases c with
  | init config env => exact hwf.initWithConfig _ env
  | deinit gzips =>
    refine System.wf_of_closed ?_
    show (silogFileManagerDeinit s gzips).sys.fm.currentFd = none
    unfold silogFileManagerDeinit
    dsimp only
    rw [s.closeCurrent_fm]
    split <;> rfl
  | setLogDir dir => exact hwf.setText dir _
  | setLogFileBase base => exact hwf.setText base _
  | setMaxFileSize size => exact hwf.setConfig rfl
  | setMaxFileCount count => exact hwf.setConfig rfl
  | setCompression enable => exact hwf.setConfig rfl
  | setCompressMode mode => exact hwf.setConfig rfl
  | setFlushMode mode => exact hwf.setConfig rfl
  | setAsyncFlushInterval intervalMs => exact hwf.setConfig rfl
  | setAsyncFlushSize size => exact hwf.setConfig rfl
  | writeRaw data env => exact hwf.writeRaw data env
  | rotate env =>
    show (silogFileManagerRotate s env).sys.Wf
    unfold silogFileManagerRotate
    cases hinit : s.fm.initialized with
    | false => exact hwf
    | true => exact (rotateInternal_keeps s env).wf hinit
  | flush now =>
    show (silogFileManagerFlush s now).sys.Wf
    unfold silogFileManagerFlush
    cases hfd : s.fm.currentFd with
    | none => exact hwf
    | some st =>
      obtain ⟨hinit, hpath⟩ := hwf st hfd
      obtain ⟨hc, hi, hp⟩ := flushCurrent_keeps hpath
      exact System.Keeps.wf ⟨hc, hi, hp⟩ hinit
  | compress gzip =>
    show (silogFileManagerCompressThread s gzip).Wf
    unfold silogFileManagerCompressThread
    split
    · exact hwf
    · exact hwf

theorem System.initial_wf (fs : Fs Str UInt8) : (System.initial fs).Wf := System.wf_of_closed rfl

end SiLog.FileManager
