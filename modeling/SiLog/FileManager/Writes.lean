import SiLog.FileManager.Overwrite
import SiLog.FileManager.Sizes

/-! # Writes that come to a rotation

    `SilogFileManagerWriteRaw` rotates before it writes if the record would
    bring the current file to `maxFileSize`.  Three things are said of this:
    a write fails if the rotation cannot rename the file, although the file is
    open again and could take the record; the size of the file stays below the
    limit as long as the sum that is compared with it does not wrap; and the
    file that is archived is empty if the first record is as long as the
    limit.
-/

open Files Lts

namespace SiLog.FileManager

/-! ## Section 1: One write -/

section write
variable {s : System}

/-- A rotation that renames the file and opens the new one. -/
theorem rotateInternal_renames (hwf : s.Wf) {env : RotateEnv} {fs₂ : Fs Str UInt8}
    (hren : s.renameCurrent env = some fs₂) (hopen : env.reopen = true) :
    (silogFileManagerRotateInternal s env).ret = .ok ∧
    (silogFileManagerRotateInternal s env).renamed = some ⟨some (s.historyTarget env.timestamp), fs₂⟩ ∧
    (silogFileManagerRotateInternal s env).sys.fm.currentFd.isSome = true ∧
    (silogFileManagerRotateInternal s env).sys.fm.currentSize = 0 ∧
    (silogFileManagerRotateInternal s env).sys.bytesAt s.currentPath = [] ∧
    fs₂.content (s.historyTarget env.timestamp) = s.bytesAt s.currentPath := by
  have hclose := s.closeCurrent_fm
  obtain ⟨hnone, _, _⟩ | ⟨hnone, _, _⟩ | ⟨fs, hsome, _, heq⟩ | ⟨fs, _, hno, _⟩ :=
    rotateInternal_cases s env
  · rw [hnone] at hren
    cases hren
  · rw [hnone] at hren
    cases hren
  · obtain rfl : fs = fs₂ := Option.some.inj (hsome.symm.trans hren)
    set s₂ : System := ⟨{ s.closeCurrent.fm with
      currentFd := some (fopenWrite fs s.currentPath).1, currentSize := 0,
      asyncBufferSize := 0 }, (fopenWrite fs s.currentPath).2⟩ with hs₂
    have hpath₂ : s₂.currentPath = s.currentPath := by
      unfold System.currentPath
      rw [hs₂, hclose]
    have hlong : s₂.currentPath.length < (s.historyTarget env.timestamp).length := by
      rw [hpath₂]
      exact (s.length_historyTarget env.timestamp).1
    have hsame := (compressFile_sameCurrent s₂ env.gzip hlong).trans
      (cleanOldFiles_sameCurrent _ env.scan env.mem env.unlink)
    have hbytes : s₂.bytesAt s₂.currentPath = [] := by
      rw [hpath₂]
      exact fopenWrite_bytes
    have hmoved := Fs.rename_target (rename_of_renameLoop hren)
      (s.historyTarget_ne_currentPath env.timestamp)
    rw [heq]
    refine ⟨rfl, rfl, ?_, hsame.size, ?_, ?_⟩
    · show Option.isSome (System.fm _).currentFd = true
      rw [hsame.fd]
      rfl
    · rw [← hpath₂, ← hsame.path, hsame.bytesAt, hbytes]
    · unfold Fs.content
      rw [hmoved, Option.getD_some, s.closeCurrent_content hwf]
  · rw [hopen] at hno
    cases hno

/-- A rotation that cannot rename the file opens it again. -/
theorem rotateInternal_keeps_file (hwf : s.Wf) {env : RotateEnv} (hren : s.renameCurrent env = none)
    (hopen : env.reopen = true) :
    (silogFileManagerRotateInternal s env).ret = .fileWrite ∧
    (silogFileManagerRotateInternal s env).renamed = some ⟨none, s.closeCurrent.fs⟩ ∧
    (silogFileManagerRotateInternal s env).sys.fm.currentFd.isSome = true ∧
    (silogFileManagerRotateInternal s env).sys.fm.currentSize = s.fm.currentSize ∧
    (silogFileManagerRotateInternal s env).sys.bytesAt s.currentPath = s.bytesAt s.currentPath := by
  obtain ⟨_, _, heq⟩ | ⟨_, hno, _⟩ | ⟨fs, hsome, _, _⟩ | ⟨fs, hsome, _, _⟩ := rotateInternal_cases s env
  · rw [heq, s.closeCurrent_fm]
    refine ⟨rfl, rfl, rfl, rfl, ?_⟩
    set st := (fopenAppend s.closeCurrent.fs s.currentPath).1 with hst
    have hpath : st.path = s.currentPath := rfl
    rw [System.bytesAt_of_open rfl hpath]
    exact fopenAppend_bytes.trans (s.closeCurrent_content hwf)
  · rw [hopen] at hno
    cases hno
  · rw [hsome] at hren
    cases hren
  · rw [hsome] at hren
    cases hren

/-- The sum that is compared with the limit reaches it. -/
def System.Full (s : System) (d : Record) : Prop :=
  s.fm.config.maxFileSize ≤ s.fm.currentSize + d.len

/-- One of the attempts that the configuration allows renames the file. -/
def System.Renames (s : System) (env : RotateEnv) : Prop :=
  ∃ i, i < s.fm.config.rotateRetryCount.toNat ∧ env.renames i = true

theorem renameCurrent_isSome_of_open (hwf : s.Wf) (hfd : s.fm.currentFd.isSome = true)
    (env : RotateEnv) : (s.renameCurrent env).isSome ↔ s.Renames env := by
  have hne : s.fm.currentFd ≠ none := Option.isSome_iff_ne_none.mp hfd
  rw [renameCurrent_isSome_iff hwf]
  unfold System.Renames
  constructor
  · rintro ⟨hattempt, _⟩
    push Not at hattempt
    obtain ⟨i, hi, hren⟩ := hattempt
    exact ⟨i, hi, Bool.eq_true_of_not_eq_false hren⟩
  · rintro ⟨i, hi, hren⟩
    refine ⟨fun hall => ?_, fun hnone => hne hnone.1⟩
    rw [hall i hi] at hren
    cases hren

/-- The ways through `SilogFileManagerWriteRaw` when `fopen` and `fwrite` succeed. -/
inductive Written (s : System) (d : Record) (env : WriteEnv) (o : Outcome) : Prop where
  /-- The record goes behind what the file has. -/
  | appended (hfull : ¬ s.Full d) (hret : o.ret = .ok) (hmoved : o.renamed = none)
      (hsize : o.sys.fm.currentSize = s.fm.currentSize + d.len)
      (hbytes : o.sys.bytesAt s.currentPath = s.bytesAt s.currentPath ++ d.bytes)
  /-- The file is archived and the record goes to a new one. -/
  | archived (target : Str) (fs₂ : Fs Str UInt8) (hfull : s.Full d) (hren : s.Renames env.rotate)
      (hret : o.ret = .ok) (hmoved : o.renamed = some ⟨some target, fs₂⟩)
      (hcontent : fs₂.content target = s.bytesAt s.currentPath) (hsize : o.sys.fm.currentSize = d.len)
      (hbytes : o.sys.bytesAt s.currentPath = d.bytes)
  /-- The file cannot be renamed and the record is not written. -/
  | refused (fs₂ : Fs Str UInt8) (hfull : s.Full d) (hren : ¬ s.Renames env.rotate)
      (hret : o.ret = .fileWrite) (hmoved : o.renamed = some ⟨none, fs₂⟩)
      (hsize : o.sys.fm.currentSize = s.fm.currentSize)
      (hbytes : o.sys.bytesAt s.currentPath = s.bytesAt s.currentPath)

theorem writeRaw_written (hwf : s.Wf) (hfd : s.fm.currentFd.isSome = true) {d : Record}
    (hlen : d.bytes ≠ []) {env : WriteEnv} (hopen : env.rotate.reopen = true)
    (hwritten : env.written = true) :
    Written s d env (silogFileManagerWriteRaw s (some d) env) ∧
    (silogFileManagerWriteRaw s (some d) env).sys.fm.currentFd.isSome = true := by
  obtain ⟨st, hst⟩ := Option.isSome_iff_exists.mp hfd
  obtain ⟨hinit, _⟩ := hwf st hst
  have hlen' : d.len ≠ 0 := by
    intro hzero
    have hnat := congrArg UInt32.toNat hzero
    rw [d.toNat_len] at hnat
    exact hlen (List.eq_nil_of_length_eq_zero hnat)
  have hchecks : ¬ (s.fm.initialized = false ∨ s.fm.currentFd.isNone = true) := by
    simp [hinit, hst]
  have hrenames := renameCurrent_isSome_of_open hwf hfd env.rotate
  unfold silogFileManagerWriteRaw
  dsimp only
  rw [if_neg hlen', if_neg hchecks]
  by_cases hfull : s.Full d
  · rw [if_pos (show s.fm.config.maxFileSize ≤ s.fm.currentSize + d.len from hfull)]
    cases hren : s.renameCurrent env.rotate with
    | some fs₂ =>
      obtain ⟨hret, hmoved, hfd₂, hsize₂, hbytes₂, hcontent⟩ := rotateInternal_renames hwf hren hopen
      have hkeeps := rotateInternal_keeps s env.rotate
      obtain ⟨hret', hfd', hsize', hbytes'⟩ := writeRecord_written (hkeeps.wf hinit) hfd₂ d hwritten
      rw [if_neg (not_not.mpr hret)]
      rw [hsize₂, UInt32.zero_add] at hsize'
      rw [hkeeps.currentPath, hbytes₂, List.nil_append] at hbytes'
      rw [hren] at hrenames
      exact ⟨.archived _ _ hfull (hrenames.mp rfl) hret' hmoved hcontent hsize' hbytes', hfd'⟩
    | none =>
      obtain ⟨hret, hmoved, hfd₂, hsize₂, hbytes₂⟩ := rotateInternal_keeps_file hwf hren hopen
      rw [if_pos (by rw [hret]; decide)]
      rw [hren] at hrenames
      have hnot : ¬ s.Renames env.rotate := fun h => absurd (hrenames.mpr h) Bool.false_ne_true
      exact ⟨.refused _ hfull hnot hret hmoved hsize₂ hbytes₂, hfd₂⟩
  · rw [if_neg (show ¬ s.fm.config.maxFileSize ≤ s.fm.currentSize + d.len from hfull)]
    obtain ⟨hret, hfd', hsize, hbytes⟩ := writeRecord_written hwf hfd d hwritten
    exact ⟨.appended hfull hret rfl hsize hbytes, hfd'⟩

end write

/-! ## Section 2: A rotation that fails -/

/-- The call has returned `SILOG_OK` with the record at the end of the current file: behind what
    the file had, or alone if that was archived. -/
def Appends (s : System) (d : Record) (o : Outcome) : Prop :=
  o.ret = .ok ∧ o.sys.bytesAt s.currentPath =
    (if o.target.isSome = true then [] else s.bytesAt s.currentPath) ++ d.bytes

/-- **Writing goes on.** In every state of every run with an open file, if `fopen` and `fwrite` succeed,
    a write appends its record exactly if it does not come to a rotation or one of the attempts to
    rename succeeds. -/
theorem writeRaw_appends_iff {fs₀ : Fs Str UInt8} {calls : List Call} {s : System}
    (hrun : Steps Step (System.initial fs₀) calls s) (hfd : s.fm.currentFd.isSome = true) {d : Record}
    (hlen : d.bytes ≠ []) {env : WriteEnv} (hopen : env.rotate.reopen = true)
    (hwritten : env.written = true) :
    Appends s d (s.call (.writeRaw (some d) env)) ↔ ¬ s.Full d ∨ s.Renames env.rotate := by
  have hwf : s.Wf := by
    refine hrun.invariant ?_ (System.initial_wf fs₀)
    intro s c s' hstep hwf
    rw [hstep]
    exact hwf.call c
  have hwrite := (writeRaw_written hwf hfd hlen hopen hwritten).1
  change Appends s d (silogFileManagerWriteRaw s (some d) env) ↔ _
  unfold Appends Outcome.target
  cases hwrite with
  | appended hfull hret hmoved hsize hbytes =>
    rw [hret, hmoved, hbytes]
    exact iff_of_true ⟨rfl, rfl⟩ (Or.inl hfull)
  | archived target fs₂ hfull hren hret hmoved hcontent hsize hbytes =>
    rw [hret, hmoved, hbytes]
    exact iff_of_true ⟨rfl, rfl⟩ (Or.inr hren)
  | refused fs₂ hfull hren hret hmoved hsize hbytes =>
    refine iff_of_false ?_ (not_or.mpr ⟨not_not.mpr hfull, hren⟩)
    rintro ⟨hok, _⟩
    rw [hret] at hok
    cases hok

/-- Every record comes to a rotation. -/
def limitOne : SilogLogFileConfig := { plainConfig with maxFileSize := 1 }

/-- The manager after `SilogFileManagerInit` in an empty directory. -/
def startedEmpty (config : SilogLogFileConfig) (env : InitEnv) : System :=
  ((System.initial fun _ => none).call (.init (some config) env)).sys

theorem steps_startedEmpty (config : SilogLogFileConfig) (env : InitEnv) :
    Steps Step (System.initial fun _ => none) [.init (some config) env] (startedEmpty config env) :=
  Steps.single rfl

/-- The third of three attempts succeeds. -/
def thirdAttempt : WriteEnv := { smoothWrite with rotate := { smoothRotate with renames := (· == 2) } }

theorem writeRaw_appends_iff_third :
    Appends (startedEmpty limitOne smoothInit) recordSeven
      ((startedEmpty limitOne smoothInit).call (.writeRaw (some recordSeven) thirdAttempt)) :=
  (writeRaw_appends_iff (steps_startedEmpty limitOne smoothInit) rfl (by decide) rfl rfl).mpr
    (Or.inr ⟨2, by decide, rfl⟩)

/-- No attempt succeeds. -/
def noAttempt : WriteEnv :=
  { smoothWrite with rotate := { smoothRotate with renames := fun _ => false } }

/-- The file is open again and has not got the record. -/
theorem writeRaw_drops_record :
    Steps Step (System.initial fun _ => none) [.init (some limitOne) smoothInit]
      (startedEmpty limitOne smoothInit) ∧
    ((startedEmpty limitOne smoothInit).call (.writeRaw (some recordSeven) noAttempt)).ret = .fileWrite ∧
    ((startedEmpty limitOne smoothInit).call
      (.writeRaw (some recordSeven) noAttempt)).sys.fm.currentFd.isSome = true ∧
    ((startedEmpty limitOne smoothInit).call (.writeRaw (some recordSeven) noAttempt)).sys.bytesAt
      (silogFileManagerGetCurrentPath limitOne) = [] ∧
    ¬ Appends (startedEmpty limitOne smoothInit) recordSeven
      ((startedEmpty limitOne smoothInit).call (.writeRaw (some recordSeven) noAttempt)) := by
  have hret : ((startedEmpty limitOne smoothInit).call
      (.writeRaw (some recordSeven) noAttempt)).ret = .fileWrite := by
    decide +kernel
  refine ⟨steps_startedEmpty limitOne smoothInit, hret, by decide +kernel, by decide +kernel, ?_⟩
  rintro ⟨hok, _⟩
  rw [hret] at hok
  cases hok

/-! ## Section 3: The size of the current file -/

/-- No file operation of the write fails. -/
structure WriteEnv.Smooth (env : WriteEnv) : Prop where
  reopen  : env.rotate.reopen = true
  renames : ∀ i, env.rotate.renames i = true
  written : env.written = true

theorem smoothWrite_smooth : smoothWrite.Smooth := ⟨rfl, fun _ => rfl, rfl⟩

/-- A manager with its file open that keeps to `config`. -/
structure Writable (config : SilogLogFileConfig) (s : System) : Prop where
  wf     : s.Wf
  life   : s.Lifecycle
  tasks  : LongTasks s
  config : s.fm.config = config
  opened : s.fm.currentFd.isSome = true

namespace Writable

variable {config : SilogLogFileConfig} {s : System}

theorem path (h : Writable config s) : s.currentPath = silogFileManagerGetCurrentPath config := by
  unfold System.currentPath
  rw [h.config]

theorem writeRaw (h : Writable config s) {d : Record} (hlen : d.bytes ≠ []) {env : WriteEnv}
    (hsmooth : env.Smooth) : Writable config (s.call (.writeRaw (some d) env)).sys where
  wf := h.wf.call _
  life := h.life.call _
  tasks := longTasks_call h.wf h.life h.tasks _
  config := (writeRaw_keeps h.wf (some d) env).config.trans h.config
  opened := (writeRaw_written h.wf h.opened hlen hsmooth.reopen hsmooth.written).2

theorem compress (h : Writable config s) (gzip : Bool) :
    Writable config (s.call (.compress gzip)).sys where
  wf := h.wf.call _
  life := h.life.call _
  tasks := longTasks_call h.wf h.life h.tasks _
  config := (compressThread_sameCurrent h.tasks gzip).config.trans h.config
  opened := (congrArg Option.isSome (compressThread_sameCurrent h.tasks gzip).fd).trans h.opened

end Writable

/-- `SilogFileManagerInit` leaves the file open and empty. -/
theorem startedEmpty_writable (config : SilogLogFileConfig) {env : InitEnv} (henv : env.Ready) :
    Writable config (startedEmpty config env) ∧ (startedEmpty config env).fm.currentSize = 0 ∧
    (startedEmpty config env).bytesAt (startedEmpty config env).currentPath = [] := by
  have hwf := (System.initial_wf fun _ => none).call (.init (some config) env)
  have hlife := (System.Lifecycle.initial fun _ => none).call (.init (some config) env)
  have heq : startedEmpty config env = ⟨(System.initial fun _ => none).fm.started config env fun _ => none,
      (fopenAppend (fun _ => none) (silogFileManagerGetCurrentPath config)).2⟩ :=
    congrArg Outcome.sys (initWithConfig_ready (s := System.initial fun _ => none) rfl henv)
  have htasks : LongTasks (startedEmpty config env) := by
    rw [heq]
    intro task htask
    cases htask
  refine ⟨⟨hwf, hlife, htasks, by rw [heq]; rfl, by rw [heq]; rfl⟩, ?_, ?_⟩
  · rw [heq]
    exact ite_self (0 : UInt32)
  · rw [heq]
    exact fopenAppend_bytes

/-- A write of a record below the limit in which no file operation fails, or a round of the
    compression thread. -/
def CapStep (s : System) (c : Call) (s' : System) : Prop :=
  Step s c s' ∧ ((∃ gzip, c = .compress gzip) ∨ ∃ d env, c = .writeRaw (some d) env ∧ env.Smooth ∧
    0 < d.bytes.length ∧ d.bytes.length < s.fm.config.maxFileSize.toNat)

/-- After a write that returns `SILOG_OK` the current file is shorter than the limit. -/
def Capped (s : System) (c : Call) : Prop :=
  ∀ data env, c = .writeRaw data env → (s.call c).ret = .ok →
    ((s.call c).sys.bytesAt (s.call c).sys.currentPath).length < s.fm.config.maxFileSize.toNat

/-- The counter and the length of the record add up to less than `2 ^ 32`. -/
def NoWrap (s : System) (c : Call) : Prop :=
  ∀ d env, c = .writeRaw (some d) env → s.fm.currentSize.toNat + d.bytes.length < 2 ^ 32

/-- The file is counted and stays below the limit; it may be empty if the limit is zero. -/
structure CapInv (config : SilogLogFileConfig) (s : System) : Prop where
  writable : Writable config s
  counted  : Counted s
  below    : s.bytesAt s.currentPath = [] ∨ (s.bytesAt s.currentPath).length < config.maxFileSize.toNat

theorem System.full_of_noWrap {s : System} {d : Record}
    (hwrap : s.fm.currentSize.toNat + d.bytes.length < 2 ^ 32) :
    s.Full d ↔ s.fm.config.maxFileSize.toNat ≤ s.fm.currentSize.toNat + d.bytes.length := by
  unfold System.Full
  rw [UInt32.le_iff_toNat_le, UInt32.toNat_add, d.toNat_len, Nat.mod_eq_of_lt hwrap]

/-- A sum that wraps is below both its terms, so it does not reach the limit. -/
theorem System.not_full_of_wrap {s : System} {d : Record}
    (hwrap : 2 ^ 32 ≤ s.fm.currentSize.toNat + d.bytes.length)
    (hlen : d.bytes.length < s.fm.config.maxFileSize.toNat) : ¬ s.Full d := by
  unfold System.Full
  have hsize := s.fm.currentSize.toNat_lt
  have hd := d.lt
  rw [UInt32.le_iff_toNat_le, UInt32.toNat_add, d.toNat_len]
  omega

section cap
variable {config : SilogLogFileConfig} {s : System} {d : Record} {env : WriteEnv}

theorem capped_writeRaw (hwf : s.Wf) : Capped s (.writeRaw (some d) env) ↔
    ((silogFileManagerWriteRaw s (some d) env).ret = .ok →
      ((silogFileManagerWriteRaw s (some d) env).sys.bytesAt s.currentPath).length <
        s.fm.config.maxFileSize.toNat) := by
  rw [← (writeRaw_keeps hwf (some d) env).currentPath]
  constructor
  · intro hcap
    exact hcap (some d) env rfl
  · intro hcap data' env' heq
    cases heq
    exact hcap

theorem noWrap_writeRaw : NoWrap s (.writeRaw (some d) env) ↔
    s.fm.currentSize.toNat + d.bytes.length < 2 ^ 32 := by
  constructor
  · intro hno
    exact hno d env rfl
  · intro hno d' env' heq
    cases heq
    exact hno

namespace CapInv

theorem below_limit (h : CapInv config s) (hlen : d.bytes.length < config.maxFileSize.toNat) :
    (s.bytesAt s.currentPath).length < config.maxFileSize.toNat := by
  rcases h.below with hnil | hlt
  · rw [hnil]
    exact Nat.lt_of_le_of_lt (Nat.zero_le _) hlen
  · exact hlt

/-- A sum that reaches the limit has not wrapped. -/
theorem noWrap_of_full (h : CapInv config s) (hlen : d.bytes.length < config.maxFileSize.toNat)
    (hfull : s.Full d) : s.fm.currentSize.toNat + d.bytes.length < 2 ^ 32 := by
  by_contra hover
  rw [← h.writable.config] at hlen
  exact System.not_full_of_wrap (not_lt.mp hover) hlen hfull

/-- A write is capped exactly if the sum does not wrap. -/
theorem capped_iff (h : CapInv config s) (hsmooth : env.Smooth) (hpos : 0 < d.bytes.length)
    (hlen : d.bytes.length < config.maxFileSize.toNat) :
    Capped s (.writeRaw (some d) env) ↔ NoWrap s (.writeRaw (some d) env) := by
  have hwrite := (writeRaw_written h.writable.wf h.writable.opened (List.ne_nil_of_length_pos hpos)
    hsmooth.reopen hsmooth.written).1
  have hcount : s.fm.currentSize.toNat = (s.bytesAt s.currentPath).length := h.counted
  rw [capped_writeRaw h.writable.wf, noWrap_writeRaw, h.writable.config]
  cases hwrite with
  | appended hfull hret hmoved hsize hbytes =>
    have hlimit := config.maxFileSize.toNat_lt
    rw [hbytes, List.length_append, ← hcount]
    constructor
    · intro hcap
      exact (hcap hret).trans hlimit
    · intro hno _
      rw [System.full_of_noWrap hno, h.writable.config] at hfull
      exact not_le.mp hfull
  | archived target fs₂ hfull hren hret hmoved hcontent hsize hbytes =>
    rw [hbytes]
    exact iff_of_true (fun _ => hlen) (h.noWrap_of_full hlen hfull)
  | refused fs₂ hfull hren hret hmoved hsize hbytes =>
    rw [hret]
    exact iff_of_true (fun hok => by cases hok) (h.noWrap_of_full hlen hfull)

theorem writeRaw (h : CapInv config s) (hsmooth : env.Smooth) (hpos : 0 < d.bytes.length)
    (hlen : d.bytes.length < config.maxFileSize.toNat) (hno : NoWrap s (.writeRaw (some d) env)) :
    CapInv config (s.call (.writeRaw (some d) env)).sys := by
  have hne : d.bytes ≠ [] := List.ne_nil_of_length_pos hpos
  have hnext := h.writable.writeRaw hne hsmooth
  have hwrite := (writeRaw_written h.writable.wf h.writable.opened hne hsmooth.reopen hsmooth.written).1
  have hcount : s.fm.currentSize.toNat = (s.bytesAt s.currentPath).length := h.counted
  have hsum := noWrap_writeRaw.mp hno
  -- the counter follows the file in each of the three ways
  have hcounted : (silogFileManagerWriteRaw s (some d) env).sys.fm.currentSize.toNat =
      ((silogFileManagerWriteRaw s (some d) env).sys.bytesAt s.currentPath).length ∧
      ((silogFileManagerWriteRaw s (some d) env).sys.bytesAt s.currentPath).length <
        config.maxFileSize.toNat := by
    cases hwrite with
    | appended hfull hret hmoved hsize hbytes =>
      rw [System.full_of_noWrap hsum, h.writable.config] at hfull
      rw [hsize, hbytes, UInt32.toNat_add, d.toNat_len, List.length_append, Nat.mod_eq_of_lt hsum, hcount]
      rw [hcount] at hfull
      exact ⟨rfl, not_le.mp hfull⟩
    | archived target fs₂ hfull hren hret hmoved hcontent hsize hbytes =>
      rw [hsize, hbytes]
      exact ⟨d.toNat_len, hlen⟩
    | refused fs₂ hfull hren hret hmoved hsize hbytes =>
      rw [hsize, hbytes]
      exact ⟨hcount, h.below_limit hlen⟩
  rw [← (writeRaw_keeps h.writable.wf (some d) env).currentPath] at hcounted
  exact ⟨hnext, hcounted.1, Or.inr hcounted.2⟩

theorem compress (h : CapInv config s) (gzip : Bool) :
    CapInv config (s.call (.compress gzip)).sys := by
  have hsame : s.SameCurrent (s.call (.compress gzip)).sys :=
    compressThread_sameCurrent h.writable.tasks gzip
  refine ⟨h.writable.compress gzip, h.counted.of_sameCurrent hsame, ?_⟩
  rw [hsame.bytesAt]
  exact h.below

end CapInv

theorem startedEmpty_capInv (config : SilogLogFileConfig) {env : InitEnv} (henv : env.Ready) :
    CapInv config (startedEmpty config env) := by
  obtain ⟨hwritable, hsize, hbytes⟩ := startedEmpty_writable config henv
  refine ⟨hwritable, ?_, Or.inl hbytes⟩
  unfold Counted
  rw [hsize, hbytes]
  rfl

theorem capStep_capped_iff {s' : System} {c : Call} (hstep : CapStep s c s') (h : CapInv config s) :
    Capped s c ↔ NoWrap s c := by
  obtain ⟨_, ⟨gzip, rfl⟩ | ⟨d, env, rfl, hsmooth, hpos, hlen⟩⟩ := hstep
  · exact iff_of_true (fun _ _ heq => by cases heq) (fun _ _ heq => by cases heq)
  · rw [h.writable.config] at hlen
    exact h.capped_iff hsmooth hpos hlen

theorem capStep_capInv {s' : System} {c : Call} (hstep : CapStep s c s') (hno : NoWrap s c)
    (h : CapInv config s) : CapInv config s' := by
  obtain ⟨rfl, ⟨gzip, rfl⟩ | ⟨d, env, rfl, hsmooth, hpos, hlen⟩⟩ := hstep
  · exact h.compress gzip
  · rw [h.writable.config] at hlen
    exact h.writeRaw hsmooth hpos hlen hno

/-- With a limit of at most `2 ^ 31` no sum wraps. -/
theorem noWrap_of_limit {s' : System} {c : Call} (hstep : CapStep s c s') (h : CapInv config s)
    (hlimit : config.maxFileSize.toNat ≤ 2 ^ 31) : NoWrap s c := by
  obtain ⟨_, ⟨gzip, rfl⟩ | ⟨d, env, rfl, hsmooth, hpos, hlen⟩⟩ := hstep
  · intro d env heq
    cases heq
  · rw [h.writable.config] at hlen
    have hbelow := h.below_limit hlen
    have hcount : s.fm.currentSize.toNat = (s.bytesAt s.currentPath).length := h.counted
    rw [noWrap_writeRaw, hcount]
    omega

end cap

/-! ### Two records just below the limit -/

/-- The longest record below the limit. -/
def longest (config : SilogLogFileConfig) : Record where
  bytes := List.replicate (config.maxFileSize.toNat - 1) 0
  lt := by
    have hlimit := config.maxFileSize.toNat_lt
    rw [List.length_replicate]
    omega

def writeLongest (config : SilogLogFileConfig) : Call := .writeRaw (some (longest config)) smoothWrite

/-- The manager after `n` of them. -/
def afterLongest (config : SilogLogFileConfig) (env : InitEnv) : ℕ → System
  | 0 => startedEmpty config env
  | n + 1 => ((afterLongest config env n).call (writeLongest config)).sys

section longest
variable {config : SilogLogFileConfig} {env : InitEnv}

theorem length_longest (config : SilogLogFileConfig) :
    (longest config).bytes.length = config.maxFileSize.toNat - 1 := List.length_replicate

theorem capStep_longest {s : System} (h : Writable config s) (hlimit : 1 < config.maxFileSize.toNat) :
    CapStep s (writeLongest config) (s.call (writeLongest config)).sys := by
  have hlength := length_longest config
  refine ⟨rfl, Or.inr ⟨longest config, smoothWrite, rfl, smoothWrite_smooth, by omega, ?_⟩⟩
  rw [h.config]
  omega

/-- The first record fits. -/
theorem afterLongest_one (henv : env.Ready) (hlimit : 1 < config.maxFileSize.toNat) :
    CapInv config (afterLongest config env 1) ∧
    (afterLongest config env 1).fm.currentSize.toNat = config.maxFileSize.toNat - 1 := by
  have hstart := startedEmpty_capInv config henv
  have hsize := (startedEmpty_writable config henv).2.1
  have hlength := length_longest config
  have hmax := config.maxFileSize.toNat_lt
  have hsum : (startedEmpty config env).fm.currentSize.toNat + (longest config).bytes.length < 2 ^ 32 := by
    rw [hsize, UInt32.toNat_zero]
    omega
  have hnext := capStep_capInv (capStep_longest hstart.writable hlimit) (noWrap_writeRaw.mpr hsum) hstart
  have hwrite := (writeRaw_written (d := longest config) hstart.writable.wf hstart.writable.opened
    (List.ne_nil_of_length_pos (by omega)) smoothWrite_smooth.reopen smoothWrite_smooth.written).1
  have hnot : ¬ (startedEmpty config env).Full (longest config) := by
    rw [System.full_of_noWrap hsum, hsize, hstart.writable.config, UInt32.toNat_zero]
    omega
  refine ⟨hnext, ?_⟩
  cases hwrite with
  | appended hfull hret hmoved hcurrent hbytes =>
    refine (congrArg UInt32.toNat hcurrent).trans ?_
    rw [hsize, UInt32.zero_add, Record.toNat_len, hlength]
  | archived target fs₂ hfull => exact absurd hfull hnot
  | refused fs₂ hfull => exact absurd hfull hnot

theorem steps_afterLongest (henv : env.Ready) (hlimit : 1 < config.maxFileSize.toNat) :
    Steps CapStep (startedEmpty config env) [writeLongest config, writeLongest config]
      (afterLongest config env 2) :=
  Steps.cons _ _ (capStep_longest (startedEmpty_writable config henv).1 hlimit)
    (Steps.single (capStep_longest (afterLongest_one henv hlimit).1.writable hlimit))

/-- The sum for the second record wraps if the limit is above `2 ^ 31`. -/
theorem second_longest_wraps (henv : env.Ready) (hlimit : 2 ^ 31 < config.maxFileSize.toNat) :
    ¬ Capped (afterLongest config env 1) (writeLongest config) := by
  have hone : 1 < config.maxFileSize.toNat := by omega
  obtain ⟨hinv, hsize⟩ := afterLongest_one henv hone
  have hlength := length_longest config
  rw [capStep_capped_iff (capStep_longest hinv.writable hone) hinv]
  intro hno
  have hsum := noWrap_writeRaw.mp hno
  omega

end longest

/-- **Size of the current file.** In a run of writes of records below the limit, from
    `SilogFileManagerInit` in an empty directory and without a failure, the file stays below the limit
    exactly if no sum wraps.  All such runs stay below it exactly if the limit is at most
    `2 ^ 31`. -/
theorem currentFile_capped_iff (config : SilogLogFileConfig) {env : InitEnv} (henv : env.Ready) :
    (∀ calls s, Steps (Guarded CapStep Capped) (startedEmpty config env) calls s ↔
      Steps (Guarded CapStep NoWrap) (startedEmpty config env) calls s) ∧
    ((∀ calls s, Steps CapStep (startedEmpty config env) calls s →
      Steps (Guarded CapStep Capped) (startedEmpty config env) calls s) ↔
      config.maxFileSize.toNat ≤ 2 ^ 31) := by
  have hstart := startedEmpty_capInv config henv
  refine ⟨fun calls s => ?_, ?_, ?_⟩
  · refine guarded_iff hstart ?_ fun s c s' hstep h => capStep_capped_iff hstep h
    intro s c s' hstep hcap h
    exact capStep_capInv hstep ((capStep_capped_iff hstep h).mp hcap) h
  · intro hall
    by_contra hlimit
    have hrun := hall _ _ (steps_afterLongest henv (by omega))
    -- the run is determined, and its second step breaks the cap
    cases hrun with
    | cons _ _ hfirst hrest =>
      obtain ⟨⟨rfl, _⟩, _⟩ := hfirst
      cases hrest with
      | cons _ _ hsecond _ => exact second_longest_wraps henv (by omega) hsecond.2
  · intro hlimit calls s hrun
    refine hrun.guarded_of_invariant hstart ?_
    intro s c s' hstep h
    have hno := noWrap_of_limit hstep h hlimit
    exact ⟨(capStep_capped_iff hstep h).mpr hno, capStep_capInv hstep hno h⟩

theorem currentFile_capped_iff_default :
    smoothInit.Ready ∧
    Steps (Guarded CapStep Capped) (startedEmpty plainConfig smoothInit)
      [.writeRaw (some recordSeven) smoothWrite]
      ((startedEmpty plainConfig smoothInit).call (.writeRaw (some recordSeven) smoothWrite)).sys := by
  refine ⟨by decide, (currentFile_capped_iff plainConfig (by decide)).2.mpr (by decide) _ _ ?_⟩
  exact Steps.single ⟨rfl, Or.inr ⟨recordSeven, smoothWrite, rfl, smoothWrite_smooth, by decide, by decide⟩⟩

/-- `UINT32_MAX` -/
def limitMax : SilogLogFileConfig := { plainConfig with maxFileSize := 4294967295 }

/-- The second of two records of `4294967294` bytes is appended to the first. -/
theorem second_record_passes_limit :
    Steps CapStep (startedEmpty limitMax smoothInit) [writeLongest limitMax, writeLongest limitMax]
      (afterLongest limitMax smoothInit 2) ∧
    ¬ Capped (afterLongest limitMax smoothInit 1) (writeLongest limitMax) :=
  ⟨steps_afterLongest (by decide) (by decide), second_longest_wraps (by decide) (by decide)⟩

/-! ## Section 4: What is archived -/

/-- The record of a call to `SilogFileManagerWriteRaw`, if it has one. -/
def Call.record : Call → Option Record
  | .writeRaw (some d) _ => if d.bytes = [] then none else some d
  | _ => none

/-- A write in which no file operation fails, or a round of the compression thread. -/
def WriteStep (r : Run) (c : Call) (r' : Run) : Prop :=
  RunStep r c r' ∧ ((∃ gzip, c = .compress gzip) ∨ ∃ data env, c = .writeRaw data env ∧ env.Smooth)

/-- The file that the call archives, if it does, has a record that was accepted before. -/
def ArchivesRecord (r : Run) (c : Call) : Prop :=
  ∀ target fs, (r.sys.call c).renamed = some ⟨some target, fs⟩ →
    ∃ bytes ∈ r.accepted, bytes ≠ [] ∧ bytes <:+: fs.content target

/-- The run after `SilogFileManagerInit` in an empty directory. -/
def startedRun (config : SilogLogFileConfig) (env : InitEnv) : Run :=
  (Run.initial fun _ => none).next (.init (some config) env)

/-- No record has been accepted. -/
structure Blank (config : SilogLogFileConfig) (r : Run) : Prop where
  writable : Writable config r.sys
  size     : r.sys.fm.currentSize = 0
  accepted : r.accepted = []

/-- The current file ends in a record. -/
structure Filled (config : SilogLogFileConfig) (r : Run) : Prop where
  writable : Writable config r.sys
  ends     : ∃ bytes ∈ r.accepted, bytes ≠ [] ∧ bytes <:+ r.sys.bytesAt r.sys.currentPath

section archive
variable {config : SilogLogFileConfig} {r r' : Run} {c : Call}

/-- A step without a record leaves the current file alone and archives nothing. -/
theorem writeStep_quiet (hstep : WriteStep r c r') (hw : Writable config r.sys)
    (hquiet : c.record = none) :
    Writable config r'.sys ∧ r.sys.SameCurrent r'.sys ∧ r'.accepted = r.accepted ∧
    (r.sys.call c).renamed = none := by
  obtain ⟨rfl, ⟨gzip, rfl⟩ | ⟨data, env, rfl, hsmooth⟩⟩ := hstep
  · exact ⟨hw.compress gzip, compressThread_sameCurrent hw.tasks gzip, List.append_nil _, rfl⟩
  · have hnone : ∃ ret : ErrorCode, ret ≠ .ok ∧
        silogFileManagerWriteRaw r.sys data env = r.sys.returns ret := by
      cases data with
      | none => exact ⟨.invalidArg, by decide, rfl⟩
      | some d =>
        have hnil : d.bytes = [] := by
          by_contra hne
          rw [Call.record, if_neg hne] at hquiet
          cases hquiet
        have hlen : d.len = 0 := by rw [Record.len, hnil]; rfl
        exact ⟨.invalidArg, by decide, by unfold silogFileManagerWriteRaw; exact if_pos hlen⟩
    obtain ⟨ret, hret, heq⟩ := hnone
    have hcall : r.sys.call (.writeRaw data env) = r.sys.returns ret := heq
    have haccepted : Call.accepted ret (.writeRaw data env) = none := by
      cases data with
      | none => rfl
      | some d => exact if_neg hret
    unfold Run.next
    rw [hcall]
    refine ⟨hw, .refl _, ?_, rfl⟩
    show r.accepted ++ (Call.accepted ret _).toList = r.accepted
    rw [haccepted]
    exact List.append_nil _

theorem writeStep_record {d : Record} (hstep : WriteStep r c r') (hrecord : c.record = some d) :
    ∃ env, c = .writeRaw (some d) env ∧ env.Smooth ∧ d.bytes ≠ [] := by
  obtain ⟨_, ⟨gzip, rfl⟩ | ⟨data, env, rfl, hsmooth⟩⟩ := hstep
  · cases hrecord
  · cases data with
    | none => cases hrecord
    | some d' =>
      by_cases hnil : d'.bytes = []
      · rw [Call.record, if_pos hnil] at hrecord
        cases hrecord
      · rw [Call.record, if_neg hnil] at hrecord
        cases hrecord
        exact ⟨env, rfl, hsmooth, hnil⟩

theorem run_currentPath (hw : Writable config r.sys) (data : Option Record) (env : WriteEnv) :
    (r.next (.writeRaw data env)).sys.currentPath = r.sys.currentPath :=
  (writeRaw_keeps hw.wf data env).currentPath

/-- A record that is accepted is at the end of the current file. -/
theorem filled_of_ok {d : Record} {env : WriteEnv} (hw : Writable config r.sys) (hsmooth : env.Smooth)
    (hne : d.bytes ≠ []) (hret : (silogFileManagerWriteRaw r.sys (some d) env).ret = .ok)
    (hends : d.bytes <:+ (silogFileManagerWriteRaw r.sys (some d) env).sys.bytesAt r.sys.currentPath) :
    Filled config (r.next (.writeRaw (some d) env)) := by
  have haccepted : Call.accepted (r.sys.call (.writeRaw (some d) env)).ret (.writeRaw (some d) env) =
      some d.bytes := if_pos hret
  refine ⟨hw.writeRaw hne hsmooth, d.bytes, ?_, hne, ?_⟩
  · unfold Run.next
    rw [haccepted]
    exact List.mem_append_right _ (List.mem_singleton_self _)
  · rw [run_currentPath hw]
    exact hends

theorem archivesRecord_of_unmoved (h : ∀ target fs, (r.sys.call c).renamed ≠ some ⟨some target, fs⟩) :
    ArchivesRecord r c := by
  intro target fs heq
  exact absurd heq (h target fs)

/-- From a file with a record on, every file that is archived has one. -/
theorem Filled.step (h : Filled config r) (hstep : WriteStep r c r') :
    ArchivesRecord r c ∧ Filled config r' := by
  obtain ⟨bytes, hin, hne, hends⟩ := h.ends
  cases hrecord : c.record with
  | none =>
    obtain ⟨hw, hsame, haccepted, hmoved⟩ := writeStep_quiet hstep h.writable hrecord
    refine ⟨archivesRecord_of_unmoved (by simp [hmoved]), hw, bytes, ?_, hne, ?_⟩
    · rw [haccepted]
      exact hin
    · rw [hsame.bytesAt]
      exact hends
  | some d =>
    obtain ⟨env, rfl, hsmooth, hd⟩ := writeStep_record hstep hrecord
    obtain ⟨rfl, _⟩ := hstep
    have hwrite := (writeRaw_written h.writable.wf h.writable.opened hd hsmooth.reopen hsmooth.written).1
    cases hwrite with
    | appended hfull hret hmoved hsize hbytes =>
      refine ⟨archivesRecord_of_unmoved (by simp [System.call, hmoved]),
        filled_of_ok h.writable hsmooth hd hret ?_⟩
      rw [hbytes]
      exact List.suffix_append _ _
    | archived target fs₂ hfull hren hret hmoved hcontent hsize hbytes =>
      refine ⟨?_, filled_of_ok h.writable hsmooth hd hret (hbytes ▸ List.suffix_rfl)⟩
      -- what is archived is the file that ends in the record
      intro target' fs heq
      obtain ⟨rfl, rfl⟩ : target = target' ∧ fs₂ = fs := by simpa [System.call, hmoved] using heq
      rw [hcontent]
      exact ⟨bytes, hin, hne, hends.isInfix⟩
    | refused fs₂ hfull hren hret hmoved hsize hbytes =>
      refine ⟨archivesRecord_of_unmoved (by simp [System.call, hmoved]), h.writable.writeRaw hd hsmooth,
        bytes, List.mem_append_left _ hin, hne, ?_⟩
      rw [run_currentPath h.writable]
      exact hbytes.symm ▸ hends

/-- The first record is archived with nothing before it if it reaches the limit. -/
theorem Blank.record (h : Blank config r) (hretry : config.rotateRetryCount ≠ 0) {d : Record}
    {env : WriteEnv} (hd : d.bytes ≠ []) (hsmooth : env.Smooth) :
    (ArchivesRecord r (.writeRaw (some d) env) ↔ d.bytes.length < config.maxFileSize.toNat) ∧
    (d.bytes.length < config.maxFileSize.toNat → Filled config (r.next (.writeRaw (some d) env))) := by
  have hwrite := (writeRaw_written h.writable.wf h.writable.opened hd hsmooth.reopen hsmooth.written).1
  have hrenames : r.sys.Renames env.rotate := by
    refine ⟨0, ?_, hsmooth.renames 0⟩
    rw [h.writable.config]
    exact Nat.pos_of_ne_zero fun hzero => hretry (UInt32.toNat_inj.mp hzero)
  have hfull_iff : r.sys.Full d ↔ config.maxFileSize.toNat ≤ d.bytes.length := by
    unfold System.Full
    rw [h.size, h.writable.config, UInt32.zero_add, UInt32.le_iff_toNat_le, d.toNat_len]
  cases hwrite with
  | appended hfull hret hmoved hsize hbytes =>
    rw [hfull_iff, not_le] at hfull
    refine ⟨iff_of_true (archivesRecord_of_unmoved (by simp [System.call, hmoved])) hfull, fun _ => ?_⟩
    refine filled_of_ok h.writable hsmooth hd hret ?_
    rw [hbytes]
    exact List.suffix_append _ _
  | archived target fs₂ hfull hren hret hmoved hcontent hsize hbytes =>
    rw [hfull_iff] at hfull
    refine ⟨iff_of_false ?_ (not_lt.mpr hfull), fun hlt => absurd hfull (not_le.mpr hlt)⟩
    intro harchives
    obtain ⟨bytes, hin, _⟩ := harchives target fs₂ hmoved
    rw [h.accepted] at hin
    cases hin
  | refused fs₂ hfull hren => exact absurd hrenames hren

theorem Blank.quiet (h : Blank config r) (hstep : WriteStep r c r') (hquiet : c.record = none) :
    ArchivesRecord r c ∧ Blank config r' := by
  obtain ⟨hw, hsame, haccepted, hmoved⟩ := writeStep_quiet hstep h.writable hquiet
  exact ⟨archivesRecord_of_unmoved (by simp [hmoved]), hw, hsame.size.trans h.size,
    haccepted.trans h.accepted⟩

/-- Without an attempt to rename nothing is archived. -/
theorem archivesRecord_of_no_retry (hretry : config.rotateRetryCount = 0) (hstep : WriteStep r c r')
    (hw : Writable config r.sys) : ArchivesRecord r c ∧ Writable config r'.sys := by
  cases hrecord : c.record with
  | none =>
    obtain ⟨hw', _, _, hmoved⟩ := writeStep_quiet hstep hw hrecord
    exact ⟨archivesRecord_of_unmoved (by simp [hmoved]), hw'⟩
  | some d =>
    obtain ⟨env, rfl, hsmooth, hd⟩ := writeStep_record hstep hrecord
    obtain ⟨rfl, _⟩ := hstep
    refine ⟨archivesRecord_of_unmoved ?_, hw.writeRaw hd hsmooth⟩
    have hwrite := (writeRaw_written hw.wf hw.opened hd hsmooth.reopen hsmooth.written).1
    cases hwrite with
    | appended hfull hret hmoved hsize hbytes => simp [System.call, hmoved]
    | archived target fs₂ hfull hren hret hmoved hcontent hsize hbytes =>
      obtain ⟨i, hi, _⟩ := hren
      rw [hw.config, hretry] at hi
      exact absurd hi (Nat.not_lt_zero i)
    | refused fs₂ hfull hren hret hmoved hsize hbytes => simp [System.call, hmoved]

theorem Filled.run (h : Filled config r) {calls : List Call} (hrun : Steps WriteStep r calls r') :
    Steps (Guarded WriteStep ArchivesRecord) r calls r' :=
  hrun.guarded_of_invariant h fun _ _ _ hstep h => h.step hstep

/-- The first record of a list of calls. -/
def firstRecord (calls : List Call) : Option Record := calls.findSome? Call.record

theorem Blank.run_iff (hretry : config.rotateRetryCount ≠ 0) {calls : List Call} (h : Blank config r) :
    Steps (Guarded WriteStep ArchivesRecord) r calls r' ↔
      Steps WriteStep r calls r' ∧
      ∀ d, firstRecord calls = some d → d.bytes.length < config.maxFileSize.toNat := by
  induction calls generalizing r with
  | nil =>
    constructor
    · intro hrun
      exact ⟨hrun.of_guarded, fun d hd => by cases hd⟩
    · intro hrun
      cases hrun.1
      exact Steps.nil _
  | cons c calls ih =>
    unfold firstRecord at ih ⊢
    rw [List.findSome?_cons]
    cases hrecord : c.record with
    | none =>
      -- the file is still empty after the call
      constructor
      · intro hrun
        cases hrun with
        | cons _ _ hstep hrest =>
          obtain ⟨hrest', hfirst⟩ := (ih (h.quiet hstep.1 hrecord).2).mp hrest
          exact ⟨Steps.cons c calls hstep.1 hrest', hfirst⟩
      · rintro ⟨hrun, hfirst⟩
        cases hrun with
        | cons _ _ hstep hrest =>
          obtain ⟨harchives, hblank⟩ := h.quiet hstep hrecord
          exact Steps.cons c calls ⟨hstep, harchives⟩ ((ih hblank).mpr ⟨hrest, hfirst⟩)
    | some d =>
      -- this is the first record, and behind it no condition is left
      constructor
      · intro hrun
        refine ⟨hrun.of_guarded, fun d' heq => ?_⟩
        obtain rfl : d = d' := Option.some.inj heq
        cases hrun with
        | cons _ _ hstep hrest =>
          obtain ⟨env, rfl, hsmooth, hd⟩ := writeStep_record hstep.1 hrecord
          exact (h.record hretry hd hsmooth).1.mp hstep.2
      · rintro ⟨hrun, hfirst⟩
        cases hrun with
        | cons _ _ hstep hrest =>
          obtain ⟨env, rfl, hsmooth, hd⟩ := writeStep_record hstep hrecord
          obtain ⟨hiff, hfilled⟩ := h.record hretry hd hsmooth
          have hlt := hfirst d rfl
          obtain rfl := hstep.1
          exact Steps.cons _ calls ⟨hstep, hiff.mpr hlt⟩ ((hfilled hlt).run hrest)

end archive

/-- **What is archived.** In a run of writes, from `SilogFileManagerInit` in an empty directory and
    without a failure, every archived file has a record exactly if the first record is shorter than
    the limit or no attempt to rename is made. -/
theorem archivesRecord_iff (config : SilogLogFileConfig) {env : InitEnv} (henv : env.Ready)
    (calls : List Call) (r : Run) :
    Steps (Guarded WriteStep ArchivesRecord) (startedRun config env) calls r ↔
      Steps WriteStep (startedRun config env) calls r ∧
      (config.rotateRetryCount = 0 ∨
        ∀ d, firstRecord calls = some d → d.bytes.length < config.maxFileSize.toNat) := by
  obtain ⟨hwritable, hsize, _⟩ := startedEmpty_writable config henv
  by_cases hretry : config.rotateRetryCount = 0
  · constructor
    · intro hrun
      exact ⟨hrun.of_guarded, Or.inl hretry⟩
    · rintro ⟨hrun, _⟩
      exact hrun.guarded_of_invariant hwritable fun _ _ _ hstep hw =>
        archivesRecord_of_no_retry hretry hstep hw
  · have hblank : Blank config (startedRun config env) := ⟨hwritable, hsize, rfl⟩
    rw [hblank.run_iff hretry, or_iff_right hretry]

/-- The run of one write of `recordSeven`. -/
def sevenRun (config : SilogLogFileConfig) : Run :=
  (startedRun config smoothInit).next (.writeRaw (some recordSeven) smoothWrite)

theorem sevenRun_step (config : SilogLogFileConfig) :
    WriteStep (startedRun config smoothInit) (.writeRaw (some recordSeven) smoothWrite) (sevenRun config) :=
  ⟨rfl, Or.inr ⟨_, _, rfl, smoothWrite_smooth⟩⟩

theorem archivesRecord_iff_plain :
    smoothInit.Ready ∧
    Steps (Guarded WriteStep ArchivesRecord) (startedRun plainConfig smoothInit)
      [.writeRaw (some recordSeven) smoothWrite] (sevenRun plainConfig) := by
  refine ⟨by decide, (archivesRecord_iff plainConfig (by decide) _ _).mpr ⟨?_, Or.inr ?_⟩⟩
  · exact Steps.single (sevenRun_step plainConfig)
  · intro d hd
    obtain rfl : recordSeven = d := Option.some.inj hd
    decide

/-- A record of one byte reaches a limit of one, and the empty file becomes a history file. -/
theorem first_record_archives_empty :
    Steps WriteStep (startedRun limitOne smoothInit) [.writeRaw (some recordSeven) smoothWrite]
      (sevenRun limitOne) ∧
    (sevenRun limitOne).history = [historyPath limitOne newYear 0] ∧
    (sevenRun limitOne).sys.fs (historyPath limitOne newYear 0) = some [] ∧
    ¬ ArchivesRecord (startedRun limitOne smoothInit) (.writeRaw (some recordSeven) smoothWrite) := by
  refine ⟨Steps.single (sevenRun_step limitOne), by decide +kernel, by decide +kernel, ?_⟩
  intro h
  have htarget : (((startedRun limitOne smoothInit).sys.call
      (.writeRaw (some recordSeven) smoothWrite)).renamed.bind Renaming.target).isSome = true := by
    decide +kernel
  obtain ⟨target, htarget⟩ := Option.isSome_iff_exists.mp htarget
  obtain ⟨⟨_, fs⟩, hr, rfl⟩ := Option.bind_eq_some_iff.mp htarget
  obtain ⟨bytes, hin, _⟩ := h target fs hr
  cases hin

end SiLog.FileManager
