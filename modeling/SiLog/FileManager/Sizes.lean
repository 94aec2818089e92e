import SiLog.FileManager.Conservation
import SiLog.FileManager.Lifecycle

/-! # The two counters of the file manager

    `currentSize` counts the bytes of the current file and decides when to
    rotate.  It follows the file through writes and rotations but for one
    path: when a rotation has renamed the file and cannot open the new one, the
    counter keeps its value, and a later rotation that finds nothing to rename
    and opens the file for appending does not reset it.

    `asyncBufferSize` counts the bytes written since the last flush.  It is an
    upper bound of what the stream holds back, in every run, and so a crash
    loses less than `asyncFlushSize` bytes and at most what was written within
    `asyncFlushIntervalMs`.
-/

open Files Lts

namespace SiLog.FileManager

/-! ## Section 1: Calls that leave the current file alone -/

section frame
variable {p : Str}

/-- Compression touches the file and its `.gz`, which are longer names than `p`. -/
theorem doCompress_of_lt (fs : Fs Str UInt8) (gzip : Bool) {task : Str} (hlt : p.length < task.length) :
    silogFileManagerDoCompress fs gzip task p = fs p := by
  have htask : p ≠ task := by
    rintro rfl
    exact lt_irrefl _ hlt
  have hgz : p ≠ task ++ dotGz := by
    rintro rfl
    rw [List.length_append] at hlt
    omega
  unfold silogFileManagerDoCompress
  split
  · exact fs.pack_other htask hgz
  · rfl

theorem foldl_unlink_of_notMem (fs : Fs Str UInt8) {paths : List Str} (hp : p ∉ paths) :
    paths.foldl Fs.unlink fs p = fs p := by
  induction paths generalizing fs with
  | nil => rfl
  | cons path paths ih =>
    rw [List.mem_cons, not_or] at hp
    rw [List.foldl_cons, ih _ hp.2]
    exact Function.update_of_ne hp.1 _ _

end frame

/-- The tasks of the compression thread have longer names than the current file. -/
def LongTasks (s : System) : Prop :=
  ∀ task ∈ s.fm.compressQueue.getD [], s.currentPath.length < task.length

/-- `s'` has the stream, the counters and the current file of `s`. -/
structure System.SameCurrent (s s' : System) : Prop where
  config  : s'.fm.config = s.fm.config
  fd      : s'.fm.currentFd = s.fm.currentFd
  size    : s'.fm.currentSize = s.fm.currentSize
  buffer  : s'.fm.asyncBufferSize = s.fm.asyncBufferSize
  current : s'.fs s.currentPath = s.fs s.currentPath

namespace System.SameCurrent

variable {s s' s'' : System}

theorem refl (s : System) : s.SameCurrent s := ⟨rfl, rfl, rfl, rfl, rfl⟩

theorem path (h : s.SameCurrent s') : s'.currentPath = s.currentPath := by
  unfold System.currentPath
  rw [h.config]

theorem trans (h : s.SameCurrent s') (h' : s'.SameCurrent s'') : s.SameCurrent s'' where
  config := h'.config.trans h.config
  fd := h'.fd.trans h.fd
  size := h'.size.trans h.size
  buffer := h'.buffer.trans h.buffer
  current := by rw [← h.path, h'.current, h.path, h.current]

theorem pending (h : s.SameCurrent s') : s'.pending = s.pending := by
  unfold System.pending
  rw [h.fd]

theorem bytesAt (h : s.SameCurrent s') : s'.bytesAt s'.currentPath = s.bytesAt s.currentPath := by
  unfold System.bytesAt
  rw [h.path, h.pending, Fs.content_congr h.current]

end System.SameCurrent

theorem compressFile_sameCurrent (s : System) (gzip : Bool) {filePath : Str}
    (hlt : s.currentPath.length < filePath.length) :
    s.SameCurrent (silogFileManagerCompressFile s gzip filePath) := by
  unfold silogFileManagerCompressFile
  split
  · exact .refl s
  · split
    · exact ⟨rfl, rfl, rfl, rfl, rfl⟩
    · exact ⟨rfl, rfl, rfl, rfl, doCompress_of_lt s.fs gzip hlt⟩

theorem cleanOldFiles_sameCurrent (s : System) (scan : Option (List DirEntry)) (mem : ℕ → FileInfo)
    (unlink : Str → Bool) : s.SameCurrent (s.cleanOldFiles scan mem unlink) :=
  ⟨rfl, rfl, rfl, rfl, foldl_unlink_of_notMem s.fs fun h =>
    currentPath_not_cleaned s.fm.config scan mem (List.mem_of_mem_filter h)⟩

theorem compressThread_sameCurrent {s : System} (htasks : LongTasks s) (gzip : Bool) :
    s.SameCurrent (silogFileManagerCompressThread s gzip) := by
  unfold silogFileManagerCompressThread
  split
  · next task tasks _ hqueue =>
    have hlt : s.currentPath.length < task.length := htasks task (by rw [hqueue]; exact List.mem_cons_self)
    exact ⟨rfl, rfl, rfl, rfl, doCompress_of_lt s.fs gzip hlt⟩
  · exact .refl s

theorem System.length_historyTarget (s : System) (timestamp : CString 32) :
    s.currentPath.length < (s.historyTarget timestamp).length ∧
    (s.historyTarget timestamp).length < pathMaxLen := by
  obtain ⟨k, hk, heq, _⟩ := s.historyTarget_cases timestamp
  rw [heq]
  exact length_historyPath s.fm.config timestamp hk

/-- Closing writes what was held back. -/
theorem System.closeCurrent_content (s : System) (hwf : s.Wf) :
    s.closeCurrent.fs.content s.currentPath = s.bytesAt s.currentPath := by
  cases hfd : s.fm.currentFd with
  | none =>
    rw [System.bytesAt_of_closed hfd]
    unfold System.closeCurrent
    rw [hfd]
  | some st =>
    obtain ⟨_, hpath⟩ := hwf st hfd
    rw [System.bytesAt_of_open hfd hpath, ← hpath, ← FileStream.flush_content]
    unfold System.closeCurrent
    rw [hfd]

/-! ## Section 2: The tasks -/

section tasks
variable {s s' : System}

theorem longTasks_of_queue (htasks : LongTasks s) (hconfig : s'.currentPath = s.currentPath)
    (hqueue : ∀ task ∈ s'.fm.compressQueue.getD [], task ∈ s.fm.compressQueue.getD []) :
    LongTasks s' := by
  intro task htask
  rw [hconfig]
  exact htasks task (hqueue task htask)

theorem longTasks_of_none (hqueue : s.fm.compressQueue = none) : LongTasks s := by
  intro task htask
  rw [hqueue] at htask
  cases htask

/-- What a rotation submits is the name it has chosen. -/
theorem compressFile_longTasks (htasks : LongTasks s) (gzip : Bool) {filePath : Str}
    (hlt : s.currentPath.length < filePath.length) (hmax : filePath.length < pathMaxLen) :
    LongTasks (silogFileManagerCompressFile s gzip filePath) := by
  unfold silogFileManagerCompressFile
  split
  · exact htasks
  · split
    · intro task htask
      have hcut : snprintfS 512 filePath = filePath := snprintfS_eq (by unfold pathMaxLen at hmax; omega)
      rw [hcut] at htask
      cases hqueue : s.fm.compressQueue with
      | none =>
        rw [hqueue] at htask
        cases htask
      | some tasks =>
        have hold : ∀ t ∈ tasks, s.currentPath.length < t.length := by
          intro t ht
          exact htasks t (by rw [hqueue]; exact ht)
        rw [hqueue] at htask
        have htask' : task ∈ (if tasks.length < compressQueueSize then tasks ++ [filePath] else tasks) :=
          htask
        show s.currentPath.length < task.length
        split at htask'
        · rcases List.mem_append.mp htask' with hin | hin
          · exact hold task hin
          · rw [List.mem_singleton.mp hin]
            exact hlt
        · exact hold task htask'
    · exact htasks

theorem rotateInternal_longTasks (htasks : LongTasks s) (env : RotateEnv) :
    LongTasks (silogFileManagerRotateInternal s env).sys := by
  have hclose := s.closeCurrent_fm
  obtain ⟨hlt, hmax⟩ := s.length_historyTarget env.timestamp
  obtain ⟨_, _, heq⟩ | ⟨_, _, heq⟩ | ⟨fs₂, _, _, heq⟩ | ⟨fs₂, _, _, heq⟩ := rotateInternal_cases s env
  · rw [heq, hclose]
    exact htasks
  · rw [heq]
    unfold LongTasks System.currentPath
    rw [hclose]
    exact htasks
  · rw [heq, hclose]
    exact compressFile_longTasks (s := ⟨{ s.fm with
      currentFd := some (fopenWrite fs₂ s.currentPath).1, currentSize := 0,
      asyncBufferSize := 0 }, (fopenWrite fs₂ s.currentPath).2⟩) htasks env.gzip hlt hmax
  · rw [heq, hclose]
    exact htasks

end tasks

/-! ## Section 3: What `currentSize` counts -/

/-- An open stream of an initialised manager: `currentSize` is the number of bytes in its
    file and those held back for it. -/
def SizeExact (s : System) : Prop :=
  ∀ st, s.fm.initialized = true → s.fm.currentFd = some st →
    s.fm.currentSize.toNat = (st.bytes s.fs).length

/-- The current file has fewer than `2 ^ 32` bytes. -/
def Small (s : System) : Prop := ∀ st, s.fm.currentFd = some st → (st.bytes s.fs).length < 2 ^ 32

/-- `stat` finds the file that `Init` has just opened. -/
def StatWorks (c : Call) : Prop := ∀ config env, c = .init config env → env.stat = true

/-- The steps of runs in which `stat` works and the current file stays small. -/
def SmallStep (s : System) (c : Call) (s' : System) : Prop := Step s c s' ∧ StatWorks c ∧ Small s'

/-- The current file is counted, whether a stream is open or not. -/
def Counted (s : System) : Prop := s.fm.currentSize.toNat = (s.bytesAt s.currentPath).length

/-- The current file of an initialised manager is counted, or there is none and no stream is
    open. -/
def Tracked (s : System) : Prop :=
  s.fm.initialized = true → Counted s ∨ (s.fm.currentFd = none ∧ s.fs s.currentPath = none)

/-- The invariant. -/
structure SizeInv (s : System) : Prop where
  wf      : s.Wf
  life    : s.Lifecycle
  tasks   : LongTasks s
  tracked : Tracked s

section counted
variable {s s' : System}

theorem Tracked.counted (h : Tracked s) (hwf : s.Wf) (hfd : s.fm.currentFd.isSome = true) :
    Counted s := by
  obtain ⟨st, hst⟩ := Option.isSome_iff_exists.mp hfd
  rcases h (hwf st hst).1 with hcount | ⟨hnone, _⟩
  · exact hcount
  · rw [hnone] at hst
    cases hst

theorem sizeExact_iff_counted (hwf : s.Wf) (hfd : s.fm.currentFd.isSome = true) :
    SizeExact s ↔ Counted s := by
  obtain ⟨st, hst⟩ := Option.isSome_iff_exists.mp hfd
  obtain ⟨hinit, hpath⟩ := hwf st hst
  unfold Counted
  rw [System.bytesAt_of_open hst hpath]
  constructor
  · exact fun h => h st hinit hst
  · intro h st' _ hst'
    obtain rfl : st = st' := Option.some.inj (hst.symm.trans hst')
    exact h

theorem Tracked.sizeExact (h : Tracked s) (hwf : s.Wf) : SizeExact s := by
  cases hfd : s.fm.currentFd with
  | none =>
    intro st _ hst
    rw [hfd] at hst
    cases hst
  | some st =>
    have hsome : s.fm.currentFd.isSome = true := by rw [hfd]; rfl
    exact (sizeExact_iff_counted hwf hsome).mpr (h.counted hwf hsome)

theorem Tracked.of_sameCurrent (h : s.SameCurrent s') (hinit : s'.fm.initialized = s.fm.initialized)
    (htracked : Tracked s) : Tracked s' := by
  intro hi
  rw [hinit] at hi
  unfold Counted
  rw [h.size, h.bytesAt, h.fd, h.path, h.current]
  exact htracked hi

theorem Counted.of_sameCurrent (h : s.SameCurrent s') (hcount : Counted s) : Counted s' := by
  unfold Counted
  rw [h.size, h.bytesAt]
  exact hcount

theorem closeCurrent_counted (hwf : s.Wf) (hcount : Counted s) : Counted s.closeCurrent := by
  have hpath : s.closeCurrent.currentPath = s.currentPath := by
    unfold System.currentPath
    rw [s.closeCurrent_fm]
  have hclosed : s.closeCurrent.fm.currentFd = none := by rw [s.closeCurrent_fm]
  unfold Counted
  rw [hpath, System.bytesAt_of_closed hclosed, s.closeCurrent_content hwf, s.closeCurrent_fm]
  exact hcount

/-- Opening the file again for appending. -/
theorem counted_fopenAppend (hfd : s.fm.currentFd = none) (hfs : s'.fs = (fopenAppend s.fs s.currentPath).2)
    (hfm : s'.fm = { s.fm with currentFd := some (fopenAppend s.fs s.currentPath).1 }) :
    Counted s' ↔ Counted s := by
  have hpath : s'.currentPath = s.currentPath := by
    unfold System.currentPath
    rw [hfm]
  have hfd' : s'.fm.currentFd = some (fopenAppend s.fs s.currentPath).1 := by rw [hfm]
  have hopen : (fopenAppend s.fs s.currentPath).1.path = s.currentPath := rfl
  have hbytes : s'.bytesAt s'.currentPath = s.bytesAt s.currentPath := by
    rw [hpath, System.bytesAt_of_closed hfd, System.bytesAt_of_open hfd' hopen, hfs]
    exact fopenAppend_bytes
  unfold Counted
  rw [hbytes, hfm]

/-- What a rotation does to the counter: the file is opened again or stays closed, with the
    bytes it had, or it is renamed and begun anew or missing. -/
theorem rotateInternal_counted (hwf : s.Wf) (env : RotateEnv) :
    ((silogFileManagerRotateInternal s env).ret ≠ .ok ∧ env.reopen = true ∧
      (silogFileManagerRotateInternal s env).sys.fm.currentFd.isSome = true ∧
      (Counted (silogFileManagerRotateInternal s env).sys ↔ Counted s.closeCurrent)) ∨
    ((silogFileManagerRotateInternal s env).ret ≠ .ok ∧ env.reopen = false ∧
      (silogFileManagerRotateInternal s env).sys = s.closeCurrent) ∨
    ((s.fm.currentFd.isSome ∨ (s.fs s.currentPath).isSome) ∧
      Counted (silogFileManagerRotateInternal s env).sys) ∨
    ((silogFileManagerRotateInternal s env).ret ≠ .ok ∧ env.reopen = false ∧
      (silogFileManagerRotateInternal s env).sys.fm.currentFd = none ∧
      (silogFileManagerRotateInternal s env).sys.fs s.currentPath = none) := by
  have hclose := s.closeCurrent_fm
  have hclosed : s.closeCurrent.fm.currentFd = none := by rw [hclose]
  have hpath : s.closeCurrent.currentPath = s.currentPath := by
    unfold System.currentPath
    rw [hclose]
  obtain ⟨_, hopen, heq⟩ | ⟨_, hopen, heq⟩ | ⟨fs₂, hren, _, heq⟩ | ⟨fs₂, hren, hopen, heq⟩ :=
    rotateInternal_cases s env
  · refine Or.inl ?_
    rw [heq]
    exact ⟨show ErrorCode.fileWrite ≠ .ok by decide, hopen, rfl,
      counted_fopenAppend hclosed (by rw [hpath]) (by rw [hpath])⟩
  · refine Or.inr (Or.inl ?_)
    rw [heq]
    exact ⟨show ErrorCode.fileOpen ≠ .ok by decide, hopen, rfl⟩
  · refine Or.inr (Or.inr (Or.inl ⟨?_, ?_⟩))
    · -- there was something to rename
      rw [← System.closeCurrent_current_isSome hwf]
      exact (Fs.rename_isSome_iff _ _ _).mp (Option.isSome_of_mem (rename_of_renameLoop hren))
    · rw [heq, hclose]
      set s₂ : System := ⟨{ s.fm with
        currentFd := some (fopenWrite fs₂ s.currentPath).1, currentSize := 0,
        asyncBufferSize := 0 }, (fopenWrite fs₂ s.currentPath).2⟩ with hs₂
      have hcount : Counted s₂ := by
        have hbytes : s₂.bytesAt s₂.currentPath = [] := fopenWrite_bytes
        unfold Counted
        rw [hbytes]
        rfl
      have hlt : s₂.currentPath.length < (s.historyTarget env.timestamp).length :=
        (s.length_historyTarget env.timestamp).1
      exact hcount.of_sameCurrent
        ((compressFile_sameCurrent s₂ env.gzip hlt).trans
          (cleanOldFiles_sameCurrent _ env.scan env.mem env.unlink))
  · refine Or.inr (Or.inr (Or.inr ?_))
    rw [heq]
    exact ⟨show ErrorCode.fileOpen ≠ .ok by decide, hopen, hclosed, Fs.rename_source (rename_of_renameLoop hren)⟩

theorem flushAfterWrite_size (s : System) (st : FileStream Str UInt8) (len : UInt32) (now : UInt64) :
    (s.flushAfterWrite st len now).fm.currentSize = s.fm.currentSize := by
  unfold System.flushAfterWrite
  split
  · rfl
  · dsimp only
    split <;> rfl

/-- A record that `fwrite` takes. -/
theorem writeRecord_written (hwf : s.Wf) (hfd : s.fm.currentFd.isSome = true) (d : Record)
    {env : WriteEnv} (hwritten : env.written = true) :
    (s.writeRecord d env).1 = .ok ∧ (s.writeRecord d env).2.fm.currentFd.isSome = true ∧
    (s.writeRecord d env).2.fm.currentSize = s.fm.currentSize + d.len ∧
    (s.writeRecord d env).2.bytesAt s.currentPath = s.bytesAt s.currentPath ++ d.bytes := by
  obtain ⟨st, hst⟩ := Option.isSome_iff_exists.mp hfd
  obtain ⟨_, hpath⟩ := hwf st hst
  unfold System.writeRecord
  rw [hst]
  dsimp only
  rw [if_neg (by rw [hwritten]; decide)]
  obtain ⟨st', hfd', _, hpass⟩ := flushAfterWrite_passes
    (s := ⟨{ s.fm with currentSize := s.fm.currentSize + d.len },
      (st.write s.fs d.bytes env.passed).2⟩) (st.write s.fs d.bytes env.passed).1 d.len env.now
  refine ⟨rfl, by rw [hfd']; rfl, flushAfterWrite_size _ _ _ _, ?_⟩
  -- what the library passes on at once, and what the flush passes on
  exact System.bytesAt_of_passes hst hpath hfd'
    ((FileStream.spill_passes { st with buffered := st.buffered ++ d.bytes } s.fs env.passed).trans hpass)

/-- A record that `fwrite` does not take. -/
theorem writeRecord_not_written (hwf : s.Wf) (hfd : s.fm.currentFd.isSome = true) (d : Record)
    {env : WriteEnv} (hwritten : env.written = false) :
    (s.writeRecord d env).2.fm.currentSize = s.fm.currentSize ∧
    (s.writeRecord d env).2.bytesAt s.currentPath = s.bytesAt s.currentPath := by
  obtain ⟨st, hst⟩ := Option.isSome_iff_exists.mp hfd
  obtain ⟨_, hpath⟩ := hwf st hst
  unfold System.writeRecord
  rw [hst]
  dsimp only
  rw [if_pos hwritten]
  refine ⟨rfl, ?_⟩
  have hpass : Passes { st with buffered := st.buffered ++ [] } s.fs (st.spill s.fs env.passed).1
      (st.spill s.fs env.passed).2 := by
    rw [List.append_nil]
    exact st.spill_passes s.fs env.passed
  exact (System.bytesAt_of_passes hst hpath rfl hpass).trans (List.append_nil _)

/-- A record that is written is counted, if the counter does not wrap. -/
theorem writeRecord_counted (hwf : s.Wf) (hcount : Counted s) (d : Record) (env : WriteEnv)
    (hsmall : Small (s.writeRecord d env).2) : Counted (s.writeRecord d env).2 := by
  have hkeeps := writeRecord_keeps hwf d env
  cases hfd : s.fm.currentFd with
  | none =>
    unfold System.writeRecord
    rw [hfd]
    exact hcount
  | some st =>
    have hopen : s.fm.currentFd.isSome = true := by rw [hfd]; rfl
    unfold Counted at hcount ⊢
    rw [hkeeps.currentPath]
    cases hwritten : env.written with
    | false =>
      obtain ⟨hsize, hbytes⟩ := writeRecord_not_written hwf hopen d hwritten
      rw [hsize, hbytes]
      exact hcount
    | true =>
      obtain ⟨_, hopen', hsize, hbytes⟩ := writeRecord_written hwf hopen d hwritten
      obtain ⟨st', hfd'⟩ := Option.isSome_iff_exists.mp hopen'
      have hlt := hsmall st' hfd'
      rw [← System.bytesAt_of_open hfd' (hkeeps.path st' hfd'), hbytes, List.length_append, ← hcount] at hlt
      rw [hsize, hbytes, List.length_append, ← hcount, UInt32.toNat_add, d.toNat_len, Nat.mod_eq_of_lt hlt]

end counted

/-! ## Section 4: One call -/

/-- A rotation does not open the current file again with a stale counter: not when there is
    no stream and no file, `fopen` succeeds and `currentSize` is not 0. -/
def NoStaleReopen (s : System) (c : Call) : Prop :=
  ∀ env, c = .rotate env → s.fm.initialized = true → s.fm.currentFd = none →
    s.fs s.currentPath = none → env.reopen = true → s.fm.currentSize = 0

section calls
variable {s : System}

theorem System.closeCurrent_of_closed (hfd : s.fm.currentFd = none) : s.closeCurrent = s := by
  unfold System.closeCurrent
  rw [hfd]

/-- Without a stream and a file, `currentSize` is exact if it is 0. -/
theorem counted_missing_iff (hfd : s.fm.currentFd = none) (hfile : s.fs s.currentPath = none) :
    Counted s ↔ s.fm.currentSize = 0 := by
  have hbytes : s.bytesAt s.currentPath = [] := by
    rw [System.bytesAt_of_closed hfd]
    unfold Fs.content
    rw [hfile]
    rfl
  unfold Counted
  rw [hbytes, ← UInt32.toNat_inj]
  rfl

/-- A rotation of a file that is counted, or that is missing and not opened with a stale
    counter. -/
theorem rotateInternal_tracked (hwf : s.Wf) (env : RotateEnv)
    (h : Counted s ∨ (s.fm.currentFd = none ∧ s.fs s.currentPath = none ∧
      (env.reopen = true → s.fm.currentSize = 0))) :
    Tracked (silogFileManagerRotateInternal s env).sys := by
  have hpath := (rotateInternal_keeps s env).currentPath
  intro _
  obtain ⟨_, hopen, _, hiff⟩ | ⟨_, hopen, heq⟩ | ⟨_, hcount⟩ | ⟨_, _, hfd, hfile⟩ :=
    rotateInternal_counted hwf env
  · refine Or.inl (hiff.mpr ?_)
    rcases h with hcount | ⟨hfd, hfile, hzero⟩
    · exact closeCurrent_counted hwf hcount
    · rw [System.closeCurrent_of_closed hfd]
      exact (counted_missing_iff hfd hfile).mpr (hzero hopen)
  · rw [heq]
    rcases h with hcount | ⟨hfd, hfile, _⟩
    · exact Or.inl (closeCurrent_counted hwf hcount)
    · rw [System.closeCurrent_of_closed hfd]
      exact Or.inr ⟨hfd, hfile⟩
  · exact Or.inl hcount
  · rw [hpath]
    exact Or.inr ⟨hfd, hfile⟩

theorem SizeInv.writeRaw (hI : SizeInv s) (data : Option Record) (env : WriteEnv)
    (hsmall : Small (silogFileManagerWriteRaw s data env).sys) :
    Tracked (silogFileManagerWriteRaw s data env).sys := by
  obtain ⟨_, ret, _, heq⟩ | ⟨d, _, hinit, hfd, hrest⟩ := writeRaw_cases s data env
  · rw [heq]
    exact hI.tracked
  · have hcount := hI.tracked.counted hI.wf hfd
    obtain ⟨_, heq⟩ | ⟨_, _, heq⟩ | ⟨_, hret, heq⟩ := hrest
    · rw [heq] at hsmall ⊢
      exact fun _ => Or.inl (writeRecord_counted hI.wf hcount d env hsmall)
    · rw [heq]
      exact rotateInternal_tracked hI.wf env.rotate (Or.inl hcount)
    · rw [heq] at hsmall ⊢
      have hwf := (rotateInternal_keeps s env.rotate).wf hinit
      -- a rotation that returns `SILOG_OK` has begun a new file
      have hnew : Counted (silogFileManagerRotateInternal s env.rotate).sys := by
        obtain ⟨hno, _⟩ | ⟨hno, _⟩ | ⟨_, hnew⟩ | ⟨hno, _⟩ := rotateInternal_counted hI.wf env.rotate
        · exact absurd hret hno
        · exact absurd hret hno
        · exact hnew
        · exact absurd hret hno
      exact fun _ => Or.inl (writeRecord_counted hwf hnew d env hsmall)

theorem SizeInv.init (hI : SizeInv s) (config : SilogLogFileConfig) {env : InitEnv}
    (hstat : env.stat = true) (hsmall : Small (silogFileManagerInitWithConfig s config env).sys) :
    Tracked (silogFileManagerInitWithConfig s config env).sys := by
  cases hi : s.fm.initialized with
  | true =>
    rw [initWithConfig_again hi]
    exact hI.tracked
  | false =>
    by_cases henv : env.Ready
    · rw [initWithConfig_ready hi henv] at hsmall ⊢
      intro _
      left
      set path := silogFileManagerGetCurrentPath config
      have hbytes : (fopenAppend s.fs path).1.bytes (fopenAppend s.fs path).2 = s.fs.content path :=
        fopenAppend_bytes
      have hlt := hsmall _ rfl
      unfold Counted
      show (if env.stat then UInt32.ofNat _ else 0).toNat = _
      rw [if_pos hstat, UInt32.toNat_ofNat_of_lt' (by rw [← hbytes]; exact hlt), ← hbytes]
      rfl
    · obtain ⟨fm, fs, ret, heq, _, hno, _⟩ := initWithConfig_failed config hi henv
      rw [heq]
      intro hyes
      rw [show fm.initialized = true from hyes] at hno
      cases hno

theorem SizeInv.flush (hI : SizeInv s) (now : UInt64) : Tracked (silogFileManagerFlush s now).sys := by
  unfold silogFileManagerFlush
  cases hfd : s.fm.currentFd with
  | none => exact hI.tracked
  | some st =>
    obtain ⟨hinit, hpath⟩ := hI.wf st hfd
    have hcount := hI.tracked.counted hI.wf (by rw [hfd]; rfl)
    intro _
    left
    have hpass : Passes { st with buffered := st.buffered ++ [] } s.fs (st.flush s.fs).1
        (st.flush s.fs).2 := by
      rw [List.append_nil]
      exact st.flush_passes s.fs
    have hfd' : (s.flushCurrent st).fm.currentFd = some (st.flush s.fs).1 := rfl
    have hbytes := System.bytesAt_of_passes hfd hpath hfd' hpass
    rw [List.append_nil] at hbytes
    unfold Counted
    show s.fm.currentSize.toNat = ((s.flushCurrent st).bytesAt s.currentPath).length
    rw [hbytes]
    exact hcount

theorem setText_tracked (h : Tracked s) (text : Option Str)
    (f : Str → SilogLogFileConfig → SilogLogFileConfig) : Tracked (s.setText text f).sys := by
  unfold System.setText
  cases text with
  | none => exact h
  | some text =>
    dsimp only
    split
    · exact h
    · next hno => exact fun hyes => absurd hyes hno

/-- Every call keeps the current file counted, unless it opens it with a stale counter. -/
theorem SizeInv.tracked_call (hI : SizeInv s) {c : Call} (hC : NoStaleReopen s c) (hstat : StatWorks c)
    (hsmall : Small (s.call c).sys) : Tracked (s.call c).sys := by
  cases c with
  | init config env => exact hI.init _ (hstat config env rfl) hsmall
  | deinit gzips =>
    intro hyes
    have hno : (silogFileManagerDeinit s gzips).sys.fm.initialized = false := by
      unfold silogFileManagerDeinit
      dsimp only
      split <;> rfl
    rw [show (silogFileManagerDeinit s gzips).sys.fm.initialized = true from hyes] at hno
    cases hno
  | setLogDir dir => exact setText_tracked hI.tracked dir _
  | setLogFileBase base => exact setText_tracked hI.tracked base _
  | writeRaw data env => exact hI.writeRaw data env hsmall
  | rotate env =>
    show Tracked (silogFileManagerRotate s env).sys
    unfold silogFileManagerRotate
    cases hi : s.fm.initialized with
    | false => exact hI.tracked
    | true =>
      refine rotateInternal_tracked hI.wf env ?_
      rcases hI.tracked hi with hcount | ⟨hfd, hfile⟩
      · exact Or.inl hcount
      · exact Or.inr ⟨hfd, hfile, hC env rfl hi hfd hfile⟩
  | flush now => exact hI.flush now
  | compress gzip =>
    exact hI.tracked.of_sameCurrent (compressThread_sameCurrent hI.tasks gzip)
      (compressThread_sameHold s gzip).initialized
  | setMaxFileSize _ | setMaxFileCount _ | setCompression _ | setCompressMode _ | setFlushMode _
  | setAsyncFlushInterval _ | setAsyncFlushSize _ => exact hI.tracked

/-- A call that opens the current file with a stale counter leaves it wrong. -/
theorem SizeInv.not_sizeExact (hI : SizeInv s) {c : Call} (hC : ¬ NoStaleReopen s c) :
    ¬ SizeExact (s.call c).sys := by
  unfold NoStaleReopen at hC
  push Not at hC
  obtain ⟨env, rfl, hi, hfd, hfile, hopen, hne⟩ := hC
  have hwf := (rotateInternal_keeps s env).wf hi
  have hsys : (s.call (.rotate env)).sys = (silogFileManagerRotateInternal s env).sys := by
    show (silogFileManagerRotate s env).sys = _
    unfold silogFileManagerRotate
    rw [if_neg (by rw [hi]; decide)]
  rw [hsys]
  obtain ⟨_, _, hsome, hiff⟩ | ⟨_, hno, _⟩ | ⟨hfound, _⟩ | ⟨_, hno, _⟩ :=
    rotateInternal_counted hI.wf env
  · rw [sizeExact_iff_counted hwf hsome, hiff, System.closeCurrent_of_closed hfd,
      counted_missing_iff hfd hfile]
    exact hne
  · rw [hopen] at hno
    cases hno
  · -- there is nothing to rename
    rw [hfd, hfile] at hfound
    simp at hfound
  · rw [hopen] at hno
    cases hno

theorem setText_longTasks (htasks : LongTasks s) (text : Option Str)
    (f : Str → SilogLogFileConfig → SilogLogFileConfig)
    (hi : (s.setText text f).sys.fm.initialized = true) : LongTasks (s.setText text f).sys := by
  unfold System.setText at hi ⊢
  cases text with
  | none => exact htasks
  | some text =>
    dsimp only at hi ⊢
    split at hi
    · next hyes =>
      rw [if_pos hyes]
      exact htasks
    · next hno => exact absurd hi hno

theorem writeRecord_queue (s : System) (d : Record) (env : WriteEnv) :
    (s.writeRecord d env).2.fm.compressQueue = s.fm.compressQueue := by
  unfold System.writeRecord
  cases s.fm.currentFd with
  | none => rfl
  | some st =>
    dsimp only
    split
    · rfl
    · obtain ⟨_, _, hqueue, _⟩ := flushAfterWrite_passes
        (s := ⟨{ s.fm with currentSize := s.fm.currentSize + d.len },
          (st.write s.fs d.bytes env.passed).2⟩) (st.write s.fs d.bytes env.passed).1 d.len env.now
      exact hqueue

theorem writeRaw_longTasks (hwf : s.Wf) (htasks : LongTasks s) (data : Option Record) (env : WriteEnv) :
    LongTasks (silogFileManagerWriteRaw s data env).sys := by
  have hrecord : ∀ {s : System}, s.Wf → LongTasks s → ∀ d, LongTasks (s.writeRecord d env).2 := by
    intro s hwf htasks d
    refine longTasks_of_queue htasks (writeRecord_keeps hwf d env).currentPath fun t ht => ?_
    rwa [writeRecord_queue] at ht
  obtain ⟨_, ret, _, heq⟩ | ⟨d, _, hinit, hfd, ⟨_, heq⟩ | ⟨_, _, heq⟩ | ⟨_, _, heq⟩⟩ :=
    writeRaw_cases s data env
  · rw [heq]
    exact htasks
  · rw [heq]
    exact hrecord hwf htasks d
  · rw [heq]
    exact rotateInternal_longTasks htasks env.rotate
  · rw [heq]
    exact hrecord ((rotateInternal_keeps s env.rotate).wf hinit)
      (rotateInternal_longTasks htasks env.rotate) d

/-- The tasks stay those of the current directory and base. -/
theorem longTasks_call (hwf : s.Wf) (hlife : s.Lifecycle) (htasks : LongTasks s) (c : Call) :
    LongTasks (s.call c).sys := by
  cases hi : (s.call c).sys.fm.initialized with
  | false => exact longTasks_of_none ((hlife.call c).down hi).2.2
  | true =>
    cases c with
    | init config env =>
      show LongTasks (silogFileManagerInitWithConfig s _ env).sys
      cases hi₀ : s.fm.initialized with
      | true =>
        rw [initWithConfig_again hi₀]
        exact htasks
      | false =>
        by_cases henv : env.Ready
        · rw [initWithConfig_ready hi₀ henv]
          exact fun task htask => (by cases htask)
        · obtain ⟨fm, fs, ret, heq, _, hno, _⟩ :=
            initWithConfig_failed (config.getD silogFileManagerGetDefaultConfig) hi₀ henv
          have hyes : (silogFileManagerInitWithConfig s _ env).sys.fm.initialized = true := hi
          rw [heq] at hyes
          rw [show fm.initialized = true from hyes] at hno
          cases hno
    | deinit gzips =>
      unfold System.call silogFileManagerDeinit at hi
      dsimp only at hi
      split at hi <;> cases hi
    | setLogDir dir => exact setText_longTasks htasks dir _ hi
    | setLogFileBase base => exact setText_longTasks htasks base _ hi
    | writeRaw data env => exact writeRaw_longTasks hwf htasks data env
    | rotate env =>
      show LongTasks (silogFileManagerRotate s env).sys
      unfold silogFileManagerRotate
      split
      · exact htasks
      · exact rotateInternal_longTasks htasks env
    | flush now =>
      show LongTasks (silogFileManagerFlush s now).sys
      unfold silogFileManagerFlush
      cases s.fm.currentFd with
      | none => exact htasks
      | some st => exact htasks
    | compress gzip =>
      show LongTasks (silogFileManagerCompressThread s gzip)
      unfold silogFileManagerCompressThread
      split
      · next task tasks _ hqueue =>
        refine longTasks_of_queue htasks rfl fun t ht => ?_
        rw [hqueue]
        exact List.mem_cons_of_mem task ht
      · exact htasks
    | setMaxFileSize _ | setMaxFileCount _ | setCompression _ | setCompressMode _ | setFlushMode _
    | setAsyncFlushInterval _ | setAsyncFlushSize _ => exact htasks

end calls

/-! ## Section 5: Size accounting in runs -/

theorem SizeInv.initial (fs₀ : Fs Str UInt8) : SizeInv (System.initial fs₀) where
  wf := System.initial_wf fs₀
  life := System.Lifecycle.initial fs₀
  tasks := longTasks_of_none rfl
  tracked := fun hyes => (by cases hyes)

/-- **Size accounting.** In a run in which `stat` works and the current file stays below
    `2 ^ 32` bytes, `currentSize` is exact in all states exactly if no rotation opens
    a missing current file with a counter that is not 0. -/
theorem sizeExact_iff_noStaleReopen {fs₀ : Fs Str UInt8} {calls : List Call} {s : System} :
    Steps (Ensuring SmallStep SizeExact) (System.initial fs₀) calls s ↔
      Steps (Guarded SmallStep NoStaleReopen) (System.initial fs₀) calls s := by
  have hiff : ∀ s c, SizeInv s → StatWorks c → Small (s.call c).sys →
      (SizeExact (s.call c).sys ↔ NoStaleReopen s c) := by
    intro s c hI hstat hsmall
    constructor
    · intro hexact
      by_contra hC
      exact hI.not_sizeExact hC hexact
    · exact fun hC => (hI.tracked_call hC hstat hsmall).sizeExact (hI.wf.call c)
  refine ensuring_iff_guarded (SizeInv.initial fs₀) ?_ ?_ ?_
  · exact (SizeInv.initial fs₀).tracked.sizeExact (System.initial_wf fs₀)
  · rintro s c s' ⟨rfl, hstat, hsmall⟩ hI _ hexact
    have hC := (hiff s c hI hstat hsmall).mp hexact
    exact ⟨hI.wf.call c, hI.life.call c, longTasks_call hI.wf hI.life hI.tasks c, hI.tracked_call hC hstat hsmall⟩
  · rintro s c s' ⟨rfl, hstat, hsmall⟩ hI _
    exact hiff s c hI hstat hsmall

/-! ### A second rotation after one that could not open the new file -/

/-- The current file has one byte; the first rotation renames it and cannot open the new
    file, the second finds no file to rename and opens it. -/
def staleCalls : List Call :=
  [.init (some plainConfig) smoothInit, .rotate { smoothRotate with reopen := false },
   .rotate smoothRotate]

def staleSystem : System :=
  staleCalls.foldl (fun s c => (s.call c).sys) (System.initial oneByte)

theorem small_of_all {s : System}
    (h : (s.fm.currentFd.all fun st => decide ((st.bytes s.fs).length < 2 ^ 32)) = true) : Small s := by
  intro st hst
  rw [hst] at h
  exact of_decide_eq_true h

theorem staleCalls_steps : Steps SmallStep (System.initial oneByte) staleCalls staleSystem := by
  refine Steps.cons _ _ ⟨rfl, ?_, small_of_all (by decide +kernel)⟩ ?_
  · rintro _ _ ⟨⟩
    rfl
  refine Steps.cons _ _ ⟨rfl, fun _ _ h => (by cases h), small_of_all (by decide +kernel)⟩ ?_
  exact Steps.cons _ _ ⟨rfl, fun _ _ h => (by cases h), small_of_all (by decide +kernel)⟩ (Steps.nil _)

/-- The stream is open on an empty file and `currentSize` is 1. -/
theorem stale_size :
    Steps SmallStep (System.initial oneByte) staleCalls staleSystem ∧
    staleSystem.fm.initialized = true ∧ staleSystem.fm.currentSize = 1 ∧
    (staleSystem.fm.currentFd.map fun st => st.bytes staleSystem.fs) = some [] ∧
    ¬ SizeExact staleSystem := by
  have hsize : staleSystem.fm.currentSize = 1 := by decide +kernel
  have hbytes : (staleSystem.fm.currentFd.map fun st => st.bytes staleSystem.fs) = some [] := by
    decide +kernel
  refine ⟨staleCalls_steps, by decide +kernel, hsize, hbytes, ?_⟩
  intro hexact
  obtain ⟨st, hst, hnil⟩ := Option.map_eq_some_iff.mp hbytes
  have hlen := hexact st (by decide +kernel) hst
  rw [hnil, hsize] at hlen
  cases hlen

/-! ## Section 6: What `asyncBufferSize` bounds -/

/-- The stream holds back at most `asyncBufferSize` bytes, and that is a 32-bit number. -/
structure FlushInv (s : System) : Prop where
  bound : s.pending.length ≤ s.fm.asyncBufferSize.toNat
  lt    : s.fm.asyncBufferSize.toNat < 2 ^ 32

/-- What a write at time `now` may leave in the stream. -/
def FlushBound (s : System) (now : UInt64) : Prop :=
  s.pending = [] ∨
  (s.fm.config.flushMode = .async ∧ s.pending.length < s.fm.config.asyncFlushSize.toNat ∧
    now - s.fm.lastFlushTimeMs < s.fm.config.asyncFlushIntervalMs.toUInt64)

section flush
variable {s s' : System}

theorem pending_of_closed (hfd : s.fm.currentFd = none) : s.pending = [] := by
  unfold System.pending
  rw [hfd]

theorem pending_of_open {st : FileStream Str UInt8} (hfd : s.fm.currentFd = some st) :
    s.pending = st.buffered := by
  unfold System.pending
  rw [hfd]

/-- Nothing is held back, and the counter is as it was or 0. -/
theorem FlushInv.of_nil (h : FlushInv s) (hnil : s'.pending = [])
    (hbuffer : s'.fm.asyncBufferSize = s.fm.asyncBufferSize ∨ s'.fm.asyncBufferSize = 0) :
    FlushInv s' := by
  refine ⟨?_, ?_⟩
  · rw [hnil]
    exact Nat.zero_le _
  · rcases hbuffer with heq | heq
    · rw [heq]
      exact h.lt
    · rw [heq]
      decide

/-- The flush of a write, where the record is counted but the stream may have passed on some
    of it. -/
theorem flushAfterWrite_bound {st : FileStream Str UInt8} {len : UInt32} (now : UInt64)
    (hlt : s.fm.asyncBufferSize.toNat < 2 ^ 32)
    (hheld : st.buffered.length ≤ s.fm.asyncBufferSize.toNat + len.toNat) :
    FlushInv (s.flushAfterWrite st len now) ∧ FlushBound (s.flushAfterWrite st len now) now := by
  have hflushed : ∀ s' : System, s'.fm.currentFd = some (st.flush s.fs).1 → s'.pending = [] := by
    intro s' hfd
    rw [pending_of_open hfd]
    exact FileStream.flush_buffered
  have hzero : (0 : UInt64).toNat < 2 ^ 32 := by decide
  have hsum : (s.fm.asyncBufferSize + len.toUInt64).toNat = s.fm.asyncBufferSize.toNat + len.toNat := by
    have := len.toNat_lt
    rw [UInt64.toNat_add, UInt32.toNat_toUInt64, Nat.mod_eq_of_lt (by omega)]
  unfold System.flushAfterWrite
  split
  · have hnil := hflushed (s.flushCurrent st) rfl
    exact ⟨⟨by rw [hnil]; exact Nat.zero_le _, hzero⟩, Or.inl hnil⟩
  · next hmode =>
    dsimp only
    split
    · have hnil := hflushed (s.flushCurrent st) rfl
      exact ⟨⟨show (s.flushCurrent st).pending.length ≤ _ by rw [hnil]; exact Nat.zero_le _, hzero⟩,
        Or.inl hnil⟩
    · next hkeep =>
      rw [not_or, UInt64.not_le, UInt64.not_le, UInt64.lt_iff_toNat_lt, UInt32.toNat_toUInt64] at hkeep
      obtain ⟨hsize, htime⟩ := hkeep
      have := s.fm.config.asyncFlushSize.toNat_lt
      refine ⟨⟨?_, by show (s.fm.asyncBufferSize + len.toUInt64).toNat < _; omega⟩,
        Or.inr ⟨hmode, ?_, htime⟩⟩
      · show st.buffered.length ≤ (s.fm.asyncBufferSize + len.toUInt64).toNat
        omega
      · show st.buffered.length < s.fm.config.asyncFlushSize.toNat
        omega

theorem FlushInv.writeRecord (h : FlushInv s) (d : Record) (env : WriteEnv) :
    FlushInv (s.writeRecord d env).2 ∧
    ((s.writeRecord d env).1 = .ok → FlushBound (s.writeRecord d env).2 env.now) := by
  have hbound := h.bound
  unfold System.writeRecord
  cases hfd : s.fm.currentFd with
  | none => exact ⟨h, fun hret => (by cases hret)⟩
  | some st =>
    rw [pending_of_open hfd] at hbound
    dsimp only
    split
    · refine ⟨⟨?_, h.lt⟩, fun hret => (by cases hret)⟩
      show (st.buffered.drop env.passed).length ≤ s.fm.asyncBufferSize.toNat
      rw [List.length_drop]
      omega
    · have hheld : (st.write s.fs d.bytes env.passed).1.buffered.length ≤
          s.fm.asyncBufferSize.toNat + d.len.toNat := by
        show ((st.buffered ++ d.bytes).drop env.passed).length ≤ _
        rw [List.length_drop, List.length_append, d.toNat_len]
        omega
      obtain ⟨hinv, hleft⟩ := flushAfterWrite_bound
        (s := ⟨{ s.fm with currentSize := s.fm.currentSize + d.len },
          (st.write s.fs d.bytes env.passed).2⟩) env.now h.lt hheld
      exact ⟨hinv, fun _ => hleft⟩

theorem FlushInv.rotateInternal (h : FlushInv s) (env : RotateEnv) :
    FlushInv (silogFileManagerRotateInternal s env).sys := by
  have hclose := s.closeCurrent_fm
  have hclosed : s.closeCurrent.fm.currentFd = none := by rw [hclose]
  obtain ⟨_, _, heq⟩ | ⟨_, _, heq⟩ | ⟨fs₂, _, _, heq⟩ | ⟨fs₂, _, _, heq⟩ := rotateInternal_cases s env
  · rw [heq, hclose]
    exact h.of_nil rfl (Or.inl rfl)
  · rw [heq]
    exact h.of_nil (pending_of_closed hclosed) (Or.inl (by rw [hclose]))
  · rw [heq, hclose]
    set s₂ : System := ⟨{ s.fm with
      currentFd := some (fopenWrite fs₂ s.currentPath).1, currentSize := 0,
      asyncBufferSize := 0 }, (fopenWrite fs₂ s.currentPath).2⟩ with hs₂
    have hsame := (compressFile_sameCurrent s₂ env.gzip (s.length_historyTarget env.timestamp).1).trans
      (cleanOldFiles_sameCurrent _ env.scan env.mem env.unlink)
    exact h.of_nil hsame.pending (Or.inr hsame.buffer)
  · rw [heq]
    exact h.of_nil (pending_of_closed hclosed) (Or.inl (by rw [hclose]))

theorem FlushInv.writeRaw (h : FlushInv s) (data : Option Record) (env : WriteEnv) :
    FlushInv (silogFileManagerWriteRaw s data env).sys ∧
    ((silogFileManagerWriteRaw s data env).ret = .ok →
      FlushBound (silogFileManagerWriteRaw s data env).sys env.now) := by
  obtain ⟨_, ret, hret, heq⟩ | ⟨d, _, _, _, ⟨_, heq⟩ | ⟨_, hret, heq⟩ | ⟨_, _, heq⟩⟩ :=
    writeRaw_cases s data env
  · rw [heq]
    exact ⟨h, fun hok => absurd hok hret⟩
  · rw [heq]
    exact h.writeRecord d env
  · rw [heq]
    exact ⟨h.rotateInternal env.rotate, fun hok => absurd hok hret⟩
  · rw [heq]
    exact (h.rotateInternal env.rotate).writeRecord d env

theorem FlushInv.init (h : FlushInv s) (hlife : s.Lifecycle) (config : SilogLogFileConfig)
    (env : InitEnv) : FlushInv (silogFileManagerInitWithConfig s config env).sys := by
  cases hi : s.fm.initialized with
  | true =>
    rw [initWithConfig_again hi]
    exact h
  | false =>
    by_cases henv : env.Ready
    · rw [initWithConfig_ready hi henv]
      exact h.of_nil rfl (Or.inr rfl)
    · obtain ⟨fm, fs, ret, heq, _, _, hfd, _, _, _, hbuffer⟩ := initWithConfig_failed config hi henv
      rw [heq]
      exact h.of_nil (pending_of_closed (hfd (hlife.down hi).1)) (Or.inl hbuffer)

theorem setText_flushInv (h : FlushInv s) (text : Option Str)
    (f : Str → SilogLogFileConfig → SilogLogFileConfig) : FlushInv (s.setText text f).sys := by
  unfold System.setText
  cases text with
  | none => exact h
  | some text =>
    dsimp only
    split
    · exact h
    · exact ⟨h.bound, h.lt⟩

theorem FlushInv.call (h : FlushInv s) (hlife : s.Lifecycle) (c : Call) : FlushInv (s.call c).sys := by
  cases c with
  | init config env => exact h.init hlife _ env
  | deinit gzips =>
    have hclose := s.closeCurrent_fm
    show FlushInv (silogFileManagerDeinit s gzips).sys
    unfold silogFileManagerDeinit
    dsimp only
    rw [hclose]
    split <;> exact h.of_nil rfl (Or.inl rfl)
  | setLogDir dir => exact setText_flushInv h dir _
  | setLogFileBase base => exact setText_flushInv h base _
  | writeRaw data env => exact (h.writeRaw data env).1
  | rotate env =>
    show FlushInv (silogFileManagerRotate s env).sys
    unfold silogFileManagerRotate
    split
    · exact h
    · exact h.rotateInternal env
  | flush now =>
    show FlushInv (silogFileManagerFlush s now).sys
    unfold silogFileManagerFlush
    cases hfd : s.fm.currentFd with
    | none => exact h
    | some st => exact h.of_nil FileStream.flush_buffered (Or.inr rfl)
  | compress gzip =>
    show FlushInv (silogFileManagerCompressThread s gzip)
    unfold silogFileManagerCompressThread
    split
    · exact ⟨h.bound, h.lt⟩
    · exact h
  | setMaxFileSize _ | setMaxFileCount _ | setCompression _ | setCompressMode _ | setFlushMode _
  | setAsyncFlushInterval _ | setAsyncFlushSize _ => exact ⟨h.bound, h.lt⟩

end flush

/-- **Flush bound.** In every state of every run the stream holds back at most
    `asyncBufferSize` bytes, and a write that returns `SILOG_OK` leaves nothing in it or,
    in async mode, fewer than `asyncFlushSize` bytes and a last flush less than
    `asyncFlushIntervalMs` ago. -/
theorem async_flush_bound {fs₀ : Fs Str UInt8} {calls : List Call} {s : System}
    (hrun : Steps Step (System.initial fs₀) calls s) :
    s.pending.length ≤ s.fm.asyncBufferSize.toNat ∧
    ∀ data env, (s.call (.writeRaw data env)).ret = .ok →
      FlushBound (s.call (.writeRaw data env)).sys env.now := by
  have hstep : ∀ s c s', Step s c s' → s.Lifecycle ∧ FlushInv s → s'.Lifecycle ∧ FlushInv s' := by
    rintro s c s' rfl ⟨hlife, h⟩
    exact ⟨hlife.call c, h.call hlife c⟩
  obtain ⟨_, h⟩ := hrun.invariant hstep
    ⟨System.Lifecycle.initial fs₀, Nat.zero_le _, show (0 : UInt64).toNat < 2 ^ 32 by decide⟩
  exact ⟨h.bound, fun data env => (h.writeRaw data env).2⟩

/-- A record is written, the mode is switched and another record is written while the clock
    stands still. -/
def switchedCalls : List Call :=
  [.init none smoothInit, .writeRaw (some recordSeven) smoothWrite, .setFlushMode .sync,
   .setAsyncFlushSize 3, .setFlushMode .async]

def switched : System := switchedCalls.foldl (fun s c => (s.call c).sys) (System.initial fun _ => none)

theorem async_flush_bound_switched :
    switched.pending = [7] ∧ switched.pending.length ≤ switched.fm.asyncBufferSize.toNat ∧
    FlushBound (switched.call (.writeRaw (some recordSeven) smoothWrite)).sys 0 := by
  have hrun : Steps Step (System.initial fun _ => none) switchedCalls switched :=
    Steps.cons _ _ rfl (Steps.cons _ _ rfl (Steps.cons _ _ rfl (Steps.cons _ _ rfl
      (Steps.cons _ _ rfl (Steps.nil _)))))
  obtain ⟨hbound, hleft⟩ := async_flush_bound hrun
  exact ⟨by decide +kernel, hbound, hleft _ smoothWrite (by decide +kernel)⟩

end SiLog.FileManager
