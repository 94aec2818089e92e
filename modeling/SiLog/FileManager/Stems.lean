import SiLog.FileManager.Spec

/-! # History names and compressed files

    The compression thread does not take the lock: it replaces `X.log` by
    `X.log.gz` while a rotation is in progress as well as between two calls.
    The search for a history name looks for `X.log` only, so a name comes back
    as soon as its file has been compressed.

    Here a rotation is a sequence of steps, one for each system call it makes, and
    the thread takes a task off the queue and runs `gzip` at any point between
    them.  The steps of a rotation that nothing comes between make up
    `SilogFileManagerRotateInternal`.
-/

open Files Lts

namespace SiLog.FileManager.Stems

/-! ## Section 1: State -/

/-- Where a rotation is: at `stat` of name number `seq`, and then, with its name chosen,
    before it closes the current file, at an attempt to rename, at `fopen`, and before
    the compression and the clean-up. -/
inductive Rotation where
  | search (timestamp : CString 32) (seq : ℕ)
  | close (path : Str)
  | rename (path : Str) (retry : ℕ)
  | reopen (path : Str)
  /-- No attempt has succeeded. -/
  | reopenAppend
  | issue (path : Str)
  | clean

/-- The file manager, the rotation in progress and the task that `gzip` is run for. -/
structure State where
  sys         : System
  rotation    : Option Rotation
  compressing : Option Str

/-- The process before its first call. -/
def State.initial (fs : Fs Str UInt8) : State where
  sys := .initial fs
  rotation := none
  compressing := none

/-! ## Section 2: Steps -/

inductive Act where
  /-- A complete call that does not rotate. -/
  | call (c : Call)
  /-- The end of a `SilogFileManagerWriteRaw` that has rotated. -/
  | write (data : Record) (env : WriteEnv)
  /-- A call comes to its rotation. -/
  | begin (timestamp : CString 32)
  | stat
  | close
  | rename (ok : Bool)
  | reopen (ok : Bool)
  | issue (gzip : Bool)
  | clean (scan : Option (List DirEntry)) (mem : ℕ → FileInfo) (unlink : Str → Bool)
  /-- The compression thread. -/
  | pop
  | gzip (ok : Bool)

/-- The loop over the attempts goes on, or is over. -/
def attempt (config : SilogLogFileConfig) (path : Str) (retry : ℕ) : Rotation :=
  if retry < config.rotateRetryCount.toNat then .rename path retry else .reopenAppend

/-- A step of the rotation in progress. -/
def stepRotation (s : System) : Rotation → Act → Option (System × Option Rotation)
  | .search timestamp seq, .stat =>
    let path := historyPath s.fm.config timestamp seq
    if (s.fs path).isNone then some (s, some (.close path))
    else if seq + 1 < maxSeqRetryCount then some (s, some (.search timestamp (seq + 1)))
    -- the last name is taken over although it exists
    else some (s, some (.close path))
  | .close path, .close => some (s.closeCurrent, some (attempt s.fm.config path 0))
  | .rename path retry, .rename ok =>
    match (if ok then s.fs.rename s.currentPath path else none) with
    | some fs => some ({ s with fs := fs }, some (.reopen path))
    | none => some (s, some (attempt s.fm.config path (retry + 1)))
  | .reopen path, .reopen ok =>
    if ok then
      let r := fopenWrite s.fs s.currentPath
      some (⟨{ s.fm with currentFd := some r.1, currentSize := 0, asyncBufferSize := 0 }, r.2⟩,
        some (.issue path))
    else some (s, none)
  | .reopenAppend, .reopen ok =>
    if ok then
      let r := fopenAppend s.fs s.currentPath
      some (⟨{ s.fm with currentFd := some r.1 }, r.2⟩, none)
    else some (s, none)
  | .issue path, .issue gzip => some (silogFileManagerCompressFile s gzip path, some .clean)
  | .clean, .clean scan mem unlink => some (s.cleanOldFiles scan mem unlink, none)
  | _, _ => none

/-- A step while no rotation is in progress. -/
def stepIdle (s : State) : Act → Option (System × Option Rotation)
  | .call (.compress _) => none
  | .call (.deinit gzips) =>
    -- the thread is joined
    if s.compressing.isNone then some ((silogFileManagerDeinit s.sys gzips).sys, none) else none
  | .call c => if (s.sys.rotation c).isNone then some ((s.sys.call c).sys, none) else none
  | .write data env =>
    if s.sys.fm.initialized then some ((s.sys.writeRecord data env).2, none) else none
  | .begin timestamp =>
    if s.sys.fm.initialized then some (s.sys, some (.search timestamp 0)) else none
  | _ => none

/-- A step of the thread that holds the lock. -/
def State.proceed (s : State) (a : Act) : Option (System × Option Rotation) :=
  match s.rotation with
  | none => stepIdle s a
  | some r => stepRotation s.sys r a

/-- One step. -/
def step (s : State) : Act → Option State
  | .pop =>
    match s.compressing, s.sys.fm.compressThread, s.sys.fm.compressQueue with
    | none, true, some (task :: tasks) =>
      some { s with sys := { s.sys with fm := { s.sys.fm with compressQueue := some tasks } }
                    compressing := some task }
    | _, _, _ => none
  | .gzip ok =>
    s.compressing.map fun task =>
      { s with sys := { s.sys with fs := silogFileManagerDoCompress s.sys.fs ok task }
               compressing := none }
  | a => (s.proceed a).map fun r => { s with sys := r.1, rotation := r.2 }

def Step (s : State) (a : Act) (s' : State) : Prop := step s a = some s'

/-! ### A rotation that nothing comes between -/

section whole
variable {c : Option Str}

/-- The search is one `stat` for each name it tries. -/
theorem search_steps (s : System) (timestamp : CString 32) {fuel seq : ℕ} (path : Str)
    (hfuel : seq + (fuel + 1) = maxSeqRetryCount) :
    ∃ acts, Steps Step ⟨s, some (.search timestamp seq), c⟩ acts
      ⟨s, some (.close (findHistoryPath s.fm.config s.fs timestamp (fuel + 1) seq path)), c⟩ := by
  induction fuel generalizing seq path with
  | zero =>
    refine ⟨[.stat], Steps.single ?_⟩
    have hlast : ¬ seq + 1 < maxSeqRetryCount := by omega
    unfold findHistoryPath findHistoryPath Step step State.proceed stepRotation
    rw [if_pos (by omega)]
    dsimp only
    rw [if_neg hlast]
    split <;> rfl
  | succ fuel ih =>
    obtain ⟨acts, hrest⟩ := ih (historyPath s.fm.config timestamp seq)
      (show seq + 1 + (fuel + 1) = maxSeqRetryCount by omega)
    have hmore : seq + 1 < maxSeqRetryCount := by omega
    rw [findHistoryPath, if_pos (by omega)]
    dsimp only
    by_cases hfree : (s.fs (historyPath s.fm.config timestamp seq)).isNone = true
    · refine ⟨[.stat], Steps.single ?_⟩
      simp only [Step, step, State.proceed, stepRotation, if_pos hfree, Option.map_some]
    · rw [if_neg hfree]
      refine ⟨.stat :: acts, Steps.cons _ _ ?_ hrest⟩
      simp only [Step, step, State.proceed, stepRotation, if_neg hfree, if_pos hmore, Option.map_some]

/-- The loop over the attempts. -/
theorem rename_steps (s : System) (path : Str) (renames : ℕ → Bool) {fuel retry : ℕ}
    (hfuel : retry + fuel = s.fm.config.rotateRetryCount.toNat) :
    ∃ acts, Steps Step ⟨s, some (attempt s.fm.config path retry), c⟩ acts
      (match renameLoop s.fs s.currentPath path renames fuel retry with
        | some fs => ⟨{ s with fs := fs }, some (.reopen path), c⟩
        | none => ⟨s, some .reopenAppend, c⟩) := by
  induction fuel generalizing retry with
  | zero =>
    refine ⟨[], ?_⟩
    rw [attempt, if_neg (by omega)]
    exact Steps.nil _
  | succ fuel ih =>
    obtain ⟨acts, hrest⟩ := ih (show retry + 1 + fuel = s.fm.config.rotateRetryCount.toNat by omega)
    rw [attempt, if_pos (by omega), renameLoop]
    cases hrename : (if renames retry = true then s.fs.rename s.currentPath path else none) with
    | some fs =>
      refine ⟨[.rename (renames retry)], Steps.single ?_⟩
      simp only [Step, step, State.proceed, stepRotation, hrename, Option.map_some]
    | none =>
      refine ⟨.rename (renames retry) :: acts, Steps.cons _ _ ?_ hrest⟩
      simp only [Step, step, State.proceed, stepRotation, hrename, Option.map_some]

theorem issue_step (s : System) (path : Str) (gzip : Bool) :
    Step ⟨s, some (.issue path), c⟩ (.issue gzip)
      ⟨silogFileManagerCompressFile s gzip path, some .clean, c⟩ := rfl

theorem clean_step (s : System) (scan : Option (List DirEntry)) (mem : ℕ → FileInfo)
    (unlink : Str → Bool) :
    Step ⟨s, some .clean, c⟩ (.clean scan mem unlink) ⟨s.cleanOldFiles scan mem unlink, none, c⟩ := rfl

/-- `SilogFileManagerRotateInternal` is a run of such steps. -/
theorem rotateInternal_steps {s : System} (hinit : s.fm.initialized = true) (env : RotateEnv) :
    ∃ acts, Steps Step ⟨s, none, c⟩ acts ⟨(silogFileManagerRotateInternal s env).sys, none, c⟩ := by
  obtain ⟨stats, hsearch⟩ := search_steps (c := c) s env.timestamp []
    (show 0 + (9 + 1) = maxSeqRetryCount from rfl)
  have hcurrent : s.closeCurrent.currentPath = s.currentPath := by
    unfold System.currentPath
    rw [s.closeCurrent_fm]
  have hconfig : s.closeCurrent.fm.config = s.fm.config := by rw [s.closeCurrent_fm]
  obtain ⟨attempts, hrename⟩ := rename_steps (c := c) s.closeCurrent (s.historyTarget env.timestamp)
    env.renames (Nat.zero_add s.closeCurrent.fm.config.rotateRetryCount.toNat)
  rw [hcurrent, hconfig] at hrename
  have hbegin : Step ⟨s, none, c⟩ (.begin env.timestamp) ⟨s, some (.search env.timestamp 0), c⟩ := by
    simp only [Step, step, State.proceed, stepIdle, if_pos hinit, Option.map_some]
  have hclose : Step ⟨s, some (.close (s.historyTarget env.timestamp)), c⟩ .close
      ⟨s.closeCurrent, some (attempt s.fm.config (s.historyTarget env.timestamp) 0), c⟩ := rfl
  have hmoved := (Steps.cons _ _ hbegin (hsearch.append (Steps.cons _ _ hclose hrename)))
  obtain ⟨hren, hopen, heq⟩ | ⟨hren, hopen, heq⟩ | ⟨fs₂, hren, hopen, heq⟩ |
    ⟨fs₂, hren, hopen, heq⟩ := rotateInternal_cases s env
  all_goals
    unfold System.renameCurrent at hren
    rw [hren] at hmoved
    rw [heq]
  · have hreopen : Step ⟨s.closeCurrent, some .reopenAppend, c⟩ (.reopen true)
        ⟨⟨{ s.closeCurrent.fm with
            currentFd := some (fopenAppend s.closeCurrent.fs s.currentPath).1 },
          (fopenAppend s.closeCurrent.fs s.currentPath).2⟩, none, c⟩ := by
      simp only [Step, step, State.proceed, stepRotation, if_true, Option.map_some, hcurrent]
    exact ⟨_, hmoved.append (Steps.single hreopen)⟩
  · have hreopen : Step ⟨s.closeCurrent, some .reopenAppend, c⟩ (.reopen false)
        ⟨s.closeCurrent, none, c⟩ := rfl
    exact ⟨_, hmoved.append (Steps.single hreopen)⟩
  · have hpath : System.currentPath ⟨s.closeCurrent.fm, fs₂⟩ = s.currentPath := hcurrent
    have hreopen : Step ⟨⟨s.closeCurrent.fm, fs₂⟩, some (.reopen (s.historyTarget env.timestamp)), c⟩
        (.reopen true)
        ⟨⟨{ s.closeCurrent.fm with
            currentFd := some (fopenWrite fs₂ s.currentPath).1, currentSize := 0,
            asyncBufferSize := 0 }, (fopenWrite fs₂ s.currentPath).2⟩,
          some (.issue (s.historyTarget env.timestamp)), c⟩ := by
      simp only [Step, step, State.proceed, stepRotation, if_true, Option.map_some, hpath]
    exact ⟨_, hmoved.append (Steps.cons _ _ hreopen
      (Steps.cons _ _ (issue_step _ _ env.gzip) (Steps.single (clean_step _ env.scan env.mem env.unlink))))⟩
  · have hreopen : Step ⟨⟨s.closeCurrent.fm, fs₂⟩, some (.reopen (s.historyTarget env.timestamp)), c⟩
        (.reopen false) ⟨⟨s.closeCurrent.fm, fs₂⟩, none, c⟩ := rfl
    exact ⟨_, hmoved.append (Steps.single hreopen)⟩

end whole

/-! ## Section 3: Unique stems -/

/-- A name that was chosen has neither a file nor a compressed file, and still no
    compressed file when the task for it is issued. -/
def StemOk (fs : Fs Str UInt8) : Rotation → Prop
  | .close path | .rename path _ => fs path = none ∧ fs (path ++ dotGz) = none
  | .reopen path | .issue path => fs (path ++ dotGz) = none
  | _ => True

/-- While compression is on, the rotation in progress has a name of its own. -/
def UniqueStem (s : State) : Prop :=
  s.sys.fm.config.enableCompression = true → ∀ r, s.rotation = some r → StemOk s.sys.fs r

/-- While compression is on, a name that `stat` does not find has no compressed file, the
    last name is one that `stat` does not find, and no `gzip` that succeeds is run for a file
    between its renaming and its own task. -/
def StemFree (s : State) : Act → Prop
  | .stat => s.sys.fm.config.enableCompression = true →
    ∀ timestamp seq, s.rotation = some (.search timestamp seq) →
      (s.sys.fs (historyPath s.sys.fm.config timestamp seq) = none →
        s.sys.fs (historyPath s.sys.fm.config timestamp seq ++ dotGz) = none) ∧
      (seq + 1 = maxSeqRetryCount → s.sys.fs (historyPath s.sys.fm.config timestamp seq) = none)
  | .gzip ok => ok = true → s.sys.fm.config.enableCompression = true →
    ∀ path, s.rotation = some (.reopen path) ∨ s.rotation = some (.issue path) →
      s.compressing = some path → s.sys.fs path = none
  | _ => True

/-! ## Section 4: Names -/

/-- A name of the current file or of a history file is not that of a compressed file. -/
theorem dotLog_ne_dotGz (a b : Str) : a ++ dotLog ≠ b ++ dotGz := by
  intro heq
  have hlast : (a ++ dotLog).getLast? = (b ++ dotGz).getLast? := by rw [heq]
  simp [dotLog, dotGz] at hlast

theorem append_dotGz_ne_self (path : Str) : path ++ dotGz ≠ path := by
  intro heq
  have hlength : (path ++ dotGz).length = path.length := by rw [heq]
  simp [dotGz] at hlength

/-- `path` is one of the ten names of a rotation. -/
def IsHistory (config : SilogLogFileConfig) (path : Str) : Prop :=
  ∃ timestamp seq, seq < maxSeqRetryCount ∧ path = historyPath config timestamp seq

section names
variable {config : SilogLogFileConfig} {path : Str}

theorem IsHistory.ne_dotGz (h : IsHistory config path) (task : Str) : path ≠ task ++ dotGz := by
  obtain ⟨timestamp, seq, hseq, rfl⟩ := h
  rw [historyPath_eq config timestamp hseq]
  exact dotLog_ne_dotGz _ _

theorem IsHistory.ne_currentPath (h : IsHistory config path) :
    path ≠ silogFileManagerGetCurrentPath config := by
  obtain ⟨timestamp, seq, hseq, rfl⟩ := h
  exact historyPath_ne_currentPath config timestamp hseq

theorem dotGz_ne_currentPath (config : SilogLogFileConfig) (path : Str) :
    path ++ dotGz ≠ silogFileManagerGetCurrentPath config := by
  rw [currentPath_eq]
  exact (dotLog_ne_dotGz _ _).symm

end names

/-! ## Section 5: Steps of a rotation -/

/-- The search is not over, and the name is one of the ten. -/
def NameOk (config : SilogLogFileConfig) : Rotation → Prop
  | .search _ seq => seq < maxSeqRetryCount
  | .close path | .rename path _ | .reopen path | .issue path => IsHistory config path
  | _ => True

section rotation
variable {s s' : System} {r : Rotation} {r' : Option Rotation} {a : Act}

theorem attempt_name {config : SilogLogFileConfig} {path : Str} (h : IsHistory config path)
    (config' : SilogLogFileConfig) (retry : ℕ) : NameOk config (attempt config' path retry) := by
  unfold attempt
  split
  · exact h
  · trivial

theorem attempt_stem {fs : Fs Str UInt8} {path : Str} (hfree : fs path = none)
    (hgz : fs (path ++ dotGz) = none) (config : SilogLogFileConfig) (retry : ℕ) :
    StemOk fs (attempt config path retry) := by
  unfold attempt
  split
  · exact ⟨hfree, hgz⟩
  · trivial

/-- What `stat` decides. -/
theorem stat_cases {timestamp : CString 32} {seq : ℕ} (hseq : seq < maxSeqRetryCount)
    (hstep : stepRotation s (.search timestamp seq) .stat = some (s', r')) :
    s' = s ∧
    ((s.fs (historyPath s.fm.config timestamp seq) = none ∧
        r' = some (.close (historyPath s.fm.config timestamp seq))) ∨
      (s.fs (historyPath s.fm.config timestamp seq) ≠ none ∧ seq + 1 < maxSeqRetryCount ∧
        r' = some (.search timestamp (seq + 1))) ∨
      (s.fs (historyPath s.fm.config timestamp seq) ≠ none ∧ seq + 1 = maxSeqRetryCount ∧
        r' = some (.close (historyPath s.fm.config timestamp seq)))) := by
  unfold stepRotation at hstep
  dsimp only at hstep
  split at hstep
  next hfree =>
    cases hstep
    exact ⟨rfl, Or.inl ⟨Option.isNone_iff_eq_none.mp hfree, rfl⟩⟩
  next htaken =>
    have hfile : s.fs (historyPath s.fm.config timestamp seq) ≠ none :=
      fun hnone => htaken (Option.isNone_iff_eq_none.mpr hnone)
    split at hstep
    next hlt =>
      cases hstep
      exact ⟨rfl, Or.inr (Or.inl ⟨hfile, hlt, rfl⟩)⟩
    next hge =>
      cases hstep
      exact ⟨rfl, Or.inr (Or.inr ⟨hfile, by omega, rfl⟩)⟩

/-- What the other steps of a rotation do. -/
theorem stepRotation_cases (ha : a ≠ .stat) (hstep : stepRotation s r a = some (s', r')) :
    (∃ path, r = .close path ∧ s' = s.closeCurrent ∧ r' = some (attempt s.fm.config path 0)) ∨
    (∃ path retry fs, r = .rename path retry ∧ s.fs.rename s.currentPath path = some fs ∧
      s' = { s with fs := fs } ∧ r' = some (.reopen path)) ∨
    (∃ path retry, r = .rename path retry ∧ s' = s ∧
      r' = some (attempt s.fm.config path (retry + 1))) ∨
    (∃ path, r = .reopen path ∧ r' = some (.issue path) ∧
      s' = ⟨{ s.fm with
        currentFd := some (fopenWrite s.fs s.currentPath).1, currentSize := 0, asyncBufferSize := 0 },
        (fopenWrite s.fs s.currentPath).2⟩) ∨
    (r' = none ∧ s' = ⟨{ s.fm with currentFd := some (fopenAppend s.fs s.currentPath).1 },
      (fopenAppend s.fs s.currentPath).2⟩) ∨
    (∃ path gzip, r = .issue path ∧ s' = silogFileManagerCompressFile s gzip path ∧ r' = some .clean) ∨
    (∃ scan mem unlink, s' = s.cleanOldFiles scan mem unlink ∧ r' = none) ∨
    -- `fopen` has failed
    (s' = s ∧ r' = none) := by
  unfold stepRotation at hstep
  split at hstep
  · exact absurd rfl ha
  · next path =>
    cases hstep
    exact Or.inl ⟨path, rfl, rfl, rfl⟩
  · next path retry ok =>
    split at hstep
    next fs hrename =>
      cases hstep
      cases ok with
      | false => cases hrename
      | true => exact Or.inr (Or.inl ⟨path, retry, fs, rfl, hrename, rfl, rfl⟩)
    next =>
      cases hstep
      exact Or.inr (Or.inr (Or.inl ⟨path, retry, rfl, rfl, rfl⟩))
  · next path ok =>
    cases ok with
    | false =>
      cases hstep
      iterate 7 right
      exact ⟨rfl, rfl⟩
    | true =>
      cases hstep
      exact Or.inr (Or.inr (Or.inr (Or.inl ⟨path, rfl, rfl, rfl⟩)))
  · next ok =>
    cases ok with
    | false =>
      cases hstep
      iterate 7 right
      exact ⟨rfl, rfl⟩
    | true =>
      cases hstep
      iterate 4 right
      exact Or.inl ⟨rfl, rfl⟩
  · next path gzip =>
    cases hstep
    iterate 5 right
    exact Or.inl ⟨path, gzip, rfl, rfl, rfl⟩
  · next scan mem unlink =>
    cases hstep
    iterate 6 right
    exact Or.inl ⟨scan, mem, unlink, rfl, rfl⟩
  · cases hstep

/-- They leave the name without a compressed file. -/
theorem stepRotation_stem (hwf : s.Wf) (hname : NameOk s.fm.config r) (hstem : StemOk s.fs r)
    (ha : a ≠ .stat) (hstep : stepRotation s r a = some (s', r')) {r₁ : Rotation}
    (hr₁ : r' = some r₁) : StemOk s'.fs r₁ := by
  subst hr₁
  obtain ⟨path, rfl, rfl, hr₁⟩ | ⟨path, retry, fs, rfl, hrename, rfl, hr₁⟩ |
    ⟨path, retry, rfl, rfl, hr₁⟩ | ⟨path, rfl, hr₁, rfl⟩ | ⟨hr₁, _⟩ | ⟨path, gzip, rfl, rfl, hr₁⟩ |
    ⟨scan, mem, unlink, _, hr₁⟩ | ⟨_, hr₁⟩ := stepRotation_cases ha hstep
  all_goals cases hr₁
  · -- `close`
    obtain ⟨hfree, hgz⟩ := hstem
    apply attempt_stem
    · rw [System.closeCurrent_other hwf (IsHistory.ne_currentPath hname)]
      exact hfree
    · rw [System.closeCurrent_other hwf (dotGz_ne_currentPath _ _)]
      exact hgz
  · -- `rename`
    show fs (path ++ dotGz) = none
    rw [Fs.rename_other hrename (dotGz_ne_currentPath _ _) (append_dotGz_ne_self path)]
    exact hstem.2
  · exact attempt_stem hstem.1 hstem.2 _ _
  · -- `fopen`
    exact (Function.update_of_ne (dotGz_ne_currentPath s.fm.config path) _ _).trans hstem
  · trivial

/-- Every step of a rotation keeps the configuration and the stream in order. -/
theorem stepRotation_keeps (hwf : s.Wf) (hname : NameOk s.fm.config r)
    (hstep : stepRotation s r a = some (s', r')) : s.Keeps s' := by
  have hsame : s.Keeps s := ⟨rfl, rfl, fun st hst => (hwf st hst).2⟩
  by_cases hstat : a = .stat
  · subst hstat
    cases r with
    | search timestamp seq =>
      obtain ⟨rfl, _⟩ := stat_cases hname hstep
      exact hsame
    | _ => cases hstep
  · obtain ⟨path, rfl, rfl, _⟩ | ⟨path, retry, fs, rfl, _, rfl, _⟩ | ⟨path, retry, rfl, rfl, _⟩ |
      ⟨path, rfl, _, rfl⟩ | ⟨_, rfl⟩ | ⟨path, gzip, rfl, rfl, _⟩ |
      ⟨scan, mem, unlink, rfl, _⟩ | ⟨rfl, _⟩ :=
      stepRotation_cases hstat hstep
    · refine ⟨by rw [s.closeCurrent_fm], by rw [s.closeCurrent_fm], fun st hst => ?_⟩
      rw [s.closeCurrent_fm] at hst
      cases hst
    · exact ⟨rfl, rfl, hsame.path⟩
    · exact hsame
    · exact ⟨rfl, rfl, fun st hst => by cases hst; rfl⟩
    · exact ⟨rfl, rfl, fun st hst => by cases hst; rfl⟩
    · exact compressFile_keeps hsame gzip path
    · exact ⟨rfl, rfl, hsame.path⟩
    · exact hsame

/-- The name stays one of the ten. -/
theorem stepRotation_name (hname : NameOk s.fm.config r)
    (hstep : stepRotation s r a = some (s', r')) {r₁ : Rotation} (hr₁ : r' = some r₁) :
    NameOk s.fm.config r₁ := by
  subst hr₁
  by_cases hstat : a = .stat
  · subst hstat
    cases r with
    | search timestamp seq =>
      obtain ⟨rfl, ⟨_, hr₁⟩ | ⟨_, hlt, hr₁⟩ | ⟨_, _, hr₁⟩⟩ := stat_cases hname hstep
      · cases hr₁
        exact ⟨timestamp, seq, hname, rfl⟩
      · cases hr₁
        exact hlt
      · cases hr₁
        exact ⟨timestamp, seq, hname, rfl⟩
    | _ => cases hstep
  · obtain ⟨path, rfl, _, hr₁⟩ | ⟨path, retry, fs, rfl, _, _, hr₁⟩ | ⟨path, retry, rfl, _, hr₁⟩ |
      ⟨path, rfl, hr₁, _⟩ | ⟨hr₁, _⟩ | ⟨path, gzip, rfl, _, hr₁⟩ |
      ⟨scan, mem, unlink, _, hr₁⟩ | ⟨_, hr₁⟩ :=
      stepRotation_cases hstat hstep
    all_goals cases hr₁
    · exact attempt_name hname _ _
    · exact hname
    · exact attempt_name hname _ _
    · exact hname
    · trivial

end rotation

/-! ## Section 6: `gzip` -/

section gzip
variable {fs : Fs Str UInt8} {task path : Str}

/-- A task makes the compressed file of its own name, if the file is there. -/
theorem doCompress_dotGz_iff (hgz : fs (path ++ dotGz) = none) :
    silogFileManagerDoCompress fs true task (path ++ dotGz) = none ↔ (task = path → fs path = none) := by
  unfold silogFileManagerDoCompress
  rw [if_pos rfl]
  by_cases htask : task = path
  · subst htask
    constructor
    · intro hnone _
      by_contra hfile
      exact Fs.pack_packed hfile (append_dotGz_ne_self task) hnone
    · intro hfree
      rw [Fs.pack_of_none (hfree rfl)]
      exact hgz
  · refine iff_of_true ?_ fun heq => absurd heq htask
    apply Fs.pack_eq_none hgz
    exact fun heq => htask (List.append_cancel_right heq).symm

/-- Before the renaming a task for the same name finds no file. -/
theorem doCompress_free {config : SilogLogFileConfig} (hpath : IsHistory config path)
    (hfree : fs path = none) (hgz : fs (path ++ dotGz) = none) :
    silogFileManagerDoCompress fs true task path = none ∧
    silogFileManagerDoCompress fs true task (path ++ dotGz) = none := by
  constructor
  · exact Fs.pack_eq_none hfree (hpath.ne_dotGz task)
  · exact (doCompress_dotGz_iff hgz).mpr fun _ => hfree

theorem gzip_stem {config : SilogLogFileConfig} {r : Rotation} (hname : NameOk config r)
    (hstem : StemOk fs r) (task : Str) :
    StemOk (silogFileManagerDoCompress fs true task) r ↔
      ∀ path, r = .reopen path ∨ r = .issue path → task = path → fs path = none := by
  cases r with
  | close path =>
    refine iff_of_true (doCompress_free hname hstem.1 hstem.2) ?_
    rintro _ (h | h) <;> cases h
  | rename path retry =>
    refine iff_of_true (doCompress_free hname hstem.1 hstem.2) ?_
    rintro _ (h | h) <;> cases h
  | reopen path =>
    refine (doCompress_dotGz_iff hstem).trans ⟨fun h path' hr => ?_, fun h => h path (Or.inl rfl)⟩
    rcases hr with hr | hr <;> cases hr
    exact h
  | issue path =>
    refine (doCompress_dotGz_iff hstem).trans ⟨fun h path' hr => ?_, fun h => h path (Or.inr rfl)⟩
    rcases hr with hr | hr <;> cases hr
    exact h
  | search timestamp seq =>
    refine iff_of_true trivial ?_
    rintro _ (h | h) <;> cases h
  | reopenAppend =>
    refine iff_of_true trivial ?_
    rintro _ (h | h) <;> cases h
  | clean =>
    refine iff_of_true trivial ?_
    rintro _ (h | h) <;> cases h

end gzip

/-! ## Section 7: Runs -/

structure Inv (s : State) : Prop where
  wf   : s.sys.Wf
  up   : s.rotation.isSome = true → s.sys.fm.initialized = true
  name : ∀ r, s.rotation = some r → NameOk s.sys.fm.config r

section runs
variable {s s' : State} {a : Act}

/-- The three kinds of steps. -/
theorem step_cases (hstep : Step s a s') :
    (a = .pop ∧ ∃ tasks task, s' = { s with
      sys := { s.sys with fm := { s.sys.fm with compressQueue := some tasks } }
      compressing := some task }) ∨
    (∃ ok task, a = .gzip ok ∧ s.compressing = some task ∧ s' = { s with
      sys := { s.sys with fs := silogFileManagerDoCompress s.sys.fs ok task }, compressing := none }) ∨
    ((∀ ok, a ≠ .gzip ok) ∧ ∃ sys r', s.proceed a = some (sys, r') ∧
      s' = { s with sys := sys, rotation := r' }) := by
  cases a with
  | pop =>
    unfold Step step at hstep
    dsimp only at hstep
    split at hstep
    · cases hstep
      exact Or.inl ⟨rfl, _, _, rfl⟩
    · cases hstep
  | gzip ok =>
    obtain ⟨task, htask, rfl⟩ := Option.map_eq_some_iff.mp hstep
    exact Or.inr (Or.inl ⟨ok, task, rfl, htask, rfl⟩)
  | _ =>
    obtain ⟨⟨sys, r'⟩, hproceed, rfl⟩ := Option.map_eq_some_iff.mp hstep
    exact Or.inr (Or.inr ⟨fun _ => nofun, sys, r', hproceed, rfl⟩)

/-- Without a rotation in progress a step is a call, or begins a rotation. -/
theorem stepIdle_cases (hwf : s.sys.Wf) {sys : System} {r' : Option Rotation}
    (hstep : stepIdle s a = some (sys, r')) :
    a ≠ .stat ∧ ((r' = none ∧ sys.Wf) ∨
      ∃ timestamp, r' = some (.search timestamp 0) ∧ sys = s.sys ∧ s.sys.fm.initialized = true) := by
  unfold stepIdle at hstep
  split at hstep
  · cases hstep
  · next gzips =>
    split at hstep
    · cases hstep
      exact ⟨nofun, Or.inl ⟨rfl, hwf.call (.deinit gzips)⟩⟩
    · cases hstep
  · next c _ _ =>
    split at hstep
    · cases hstep
      exact ⟨nofun, Or.inl ⟨rfl, hwf.call c⟩⟩
    · cases hstep
  · next data env =>
    split at hstep
    next hinit =>
      cases hstep
      exact ⟨nofun, Or.inl ⟨rfl, (writeRecord_keeps hwf data env).wf hinit⟩⟩
    next => cases hstep
  · next timestamp =>
    split at hstep
    next hinit =>
      cases hstep
      exact ⟨nofun, Or.inr ⟨timestamp, rfl, rfl, hinit⟩⟩
    next => cases hstep
  · cases hstep

/-- Only `stat` and `gzip` have a condition. -/
theorem stemFree_of_ne (hstat : a ≠ .stat) (hgzip : ∀ ok, a ≠ .gzip ok) : StemFree s a := by
  cases a with
  | stat => exact absurd rfl hstat
  | gzip ok => exact absurd rfl (hgzip ok)
  | _ => trivial

/-- A step of the rotation in progress. -/
theorem Inv.proceed (hI : Inv s) (hU : UniqueStem s) {r : Rotation} (hr : s.rotation = some r)
    (hgzip : ∀ ok, a ≠ .gzip ok) {sys : System} {r' : Option Rotation}
    (hstep : stepRotation s.sys r a = some (sys, r')) :
    Inv { s with sys := sys, rotation := r' } ∧
    (UniqueStem { s with sys := sys, rotation := r' } ↔ StemFree s a) := by
  have hinit := hI.up (by rw [hr]; rfl)
  have hname := hI.name r hr
  have hkeeps := stepRotation_keeps hI.wf hname hstep
  refine ⟨⟨hkeeps.wf hinit, fun _ => hkeeps.initialized.trans hinit, fun r₁ hr₁ => ?_⟩, ?_⟩
  · show NameOk sys.fm.config r₁
    rw [hkeeps.config]
    exact stepRotation_name hname hstep hr₁
  · by_cases hstat : a = .stat
    · subst hstat
      cases r with
      | search timestamp seq =>
        have hfree_iff : StemFree s .stat ↔ (s.sys.fm.config.enableCompression = true →
            (s.sys.fs (historyPath s.sys.fm.config timestamp seq) = none →
              s.sys.fs (historyPath s.sys.fm.config timestamp seq ++ dotGz) = none) ∧
            (seq + 1 = maxSeqRetryCount →
              s.sys.fs (historyPath s.sys.fm.config timestamp seq) = none)) := by
          constructor
          · exact fun h hon => h hon timestamp seq hr
          · rintro h hon timestamp' seq' hr'
            cases hr.symm.trans hr'
            exact h hon
        rw [hfree_iff]
        obtain ⟨rfl, ⟨hfree, rfl⟩ | ⟨htaken, hlt, rfl⟩ | ⟨htaken, hlast, rfl⟩⟩ :=
          stat_cases hname hstep
        · constructor
          · exact fun hU' hon => ⟨fun _ => (hU' hon _ rfl).2, fun _ => hfree⟩
          · rintro h hon r₁ ⟨⟩
            exact ⟨hfree, (h hon).1 hfree⟩
        · refine iff_of_true ?_ fun _ => ⟨fun hfree => absurd hfree htaken, fun hlast => by omega⟩
          rintro _ r₁ ⟨⟩
          trivial
        · constructor
          · exact fun hU' hon => absurd (hU' hon _ rfl).1 htaken
          · exact fun h hon => absurd ((h hon).2 hlast) htaken
      | _ => cases hstep
    · refine iff_of_true ?_ (stemFree_of_ne hstat hgzip)
      intro hon r₁ hr₁
      have hon₀ : s.sys.fm.config.enableCompression = true := by
        rw [← hkeeps.config]
        exact hon
      exact stepRotation_stem hI.wf hname (hU hon₀ r hr) hstat hstep hr₁

/-- One step: the stem is unique afterwards exactly if the step meets the condition. -/
theorem Inv.step (hI : Inv s) (hU : UniqueStem s) (hstep : Step s a s') :
    Inv s' ∧ (UniqueStem s' ↔ StemFree s a) := by
  obtain ⟨rfl, tasks, task, rfl⟩ | ⟨ok, task, rfl, htask, rfl⟩ | ⟨hgzip, sys, r', hproceed, rfl⟩ :=
    step_cases hstep
  · -- the thread takes a task off the queue
    exact ⟨⟨hI.wf, hI.up, hI.name⟩, iff_of_true hU trivial⟩
  · refine ⟨⟨hI.wf, hI.up, hI.name⟩, ?_⟩
    cases ok with
    | false => exact iff_of_true hU fun hok => absurd hok Bool.false_ne_true
    | true =>
      constructor
      · intro hU' _ hon path hr hpath
        cases htask.symm.trans hpath
        rcases hr with hr | hr
        · exact (gzip_stem (hI.name _ hr) (hU hon _ hr) task).mp (hU' hon _ hr) task (Or.inl rfl) rfl
        · exact (gzip_stem (hI.name _ hr) (hU hon _ hr) task).mp (hU' hon _ hr) task (Or.inr rfl) rfl
      · intro hfree hon r hr
        apply (gzip_stem (hI.name r hr) (hU hon r hr) task).mpr
        rintro path hpath rfl
        apply hfree rfl hon task _ htask
        rcases hpath with rfl | rfl
        · exact Or.inl hr
        · exact Or.inr hr
  · unfold State.proceed at hproceed
    cases hr : s.rotation with
    | some r =>
      rw [hr] at hproceed
      exact hI.proceed hU hr hgzip hproceed
    | none =>
      rw [hr] at hproceed
      obtain ⟨hstat, hcase⟩ := stepIdle_cases hI.wf hproceed
      have hfree := stemFree_of_ne (s := s) hstat hgzip
      rcases hcase with ⟨rfl, hwf⟩ | ⟨timestamp, rfl, rfl, hinit⟩
      · refine ⟨⟨hwf, fun h => (by cases h), fun r hr => (by cases hr)⟩, iff_of_true ?_ hfree⟩
        rintro _ r ⟨⟩
      · refine ⟨⟨hI.wf, fun _ => hinit, ?_⟩, iff_of_true ?_ hfree⟩
        · rintro r ⟨⟩
          show 0 < maxSeqRetryCount
          decide
        · rintro _ r ⟨⟩
          trivial

end runs

/-- **Unique stems.** In a run of any calls, rotations and rounds of the compression thread,
    in any order of their steps, the names of all rotations are unique exactly if every
    step of the run finds its name free. -/
theorem uniqueStem_iff_stemFree {fs₀ : Fs Str UInt8} {acts : List Act} {s : State} :
    Steps (Ensuring Step UniqueStem) (State.initial fs₀) acts s ↔
      Steps (Guarded Step StemFree) (State.initial fs₀) acts s := by
  have hinit : Inv (State.initial fs₀) :=
    ⟨System.initial_wf fs₀, fun h => (by cases h), fun r hr => (by cases hr)⟩
  have hunique : UniqueStem (State.initial fs₀) := by
    rintro _ r ⟨⟩
  apply ensuring_iff_guarded hinit hunique
  · intro s a s' hstep hI hU _
    exact (hI.step hU hstep).1
  · intro s a s' hstep hI hU
    exact (hI.step hU hstep).2

/-! ### Two rotations within a millisecond -/

/-- A rotation at `newYear` up to its task. -/
def toTask : List Act := [.begin newYear, .stat, .close, .rename true, .reopen true]

/-- The file of the first rotation is compressed before the second one begins. -/
def sameStem : List Act :=
  [.call (.init none smoothInit)] ++ toTask ++
    [.issue true, .clean (some []) (fun _ => noFile) fun _ => true, .pop, .gzip true] ++ toTask

theorem sameStem_runs : (exec step (State.initial fun _ => none) sameStem).isSome = true := by
  decide +kernel

def issuing : State := (exec step (State.initial fun _ => none) sameStem).get sameStem_runs

/-- The second rotation takes the name of the first one, and its task is about to be issued
    although the compressed file exists. -/
theorem sameStem_not_unique :
    Steps Step (State.initial fun _ => none) sameStem issuing ∧
    issuing.sys.fm.config.enableCompression = true ∧
    issuing.rotation = some (.issue (historyPath silogFileManagerGetDefaultConfig newYear 0)) ∧
    issuing.sys.fs (historyPath silogFileManagerGetDefaultConfig newYear 0 ++ dotGz) = some [] ∧
    ¬ UniqueStem issuing := by
  have hon : issuing.sys.fm.config.enableCompression = true := by decide +kernel
  have hrotation : issuing.rotation =
      some (.issue (historyPath silogFileManagerGetDefaultConfig newYear 0)) := rfl
  have hgz : issuing.sys.fs (historyPath silogFileManagerGetDefaultConfig newYear 0 ++ dotGz) =
      some [] := by decide +kernel
  refine ⟨steps_of_exec (fun _ _ _ => id) (Option.some_get sameStem_runs).symm, hon, hrotation, hgz, ?_⟩
  intro hunique
  have hnone : issuing.sys.fs (historyPath silogFileManagerGetDefaultConfig newYear 0 ++ dotGz) = none :=
    hunique hon _ hrotation
  rw [hnone] at hgz
  cases hgz

end SiLog.FileManager.Stems
