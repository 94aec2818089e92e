import SiLog.FileManager.Spec

/-! # No byte of the log is lost

    A journal is a sequence of finished parts and a current one; a rotation
    finishes the current part and a record goes to its end.  The history files
    in the order of their rotations and the current file with what its stream
    holds back are such a journal, and every call acts on it by a rotation, a
    record or both, also when a rename or an `fopen` fails half way.

    This holds on one log directory and file base, without compression, while
    rotations find free names and the clean-up deletes nothing.
-/

open Files Lts

namespace SiLog.FileManager

/-! ## Section 1: The journal -/

/-- The finished parts of a log and its current one. -/
structure Journal where
  finished : List (List UInt8)
  current  : List UInt8

namespace Journal

/-- All bytes in order. -/
def text (j : Journal) : List UInt8 := j.finished.flatten ++ j.current

/-- Finish the current part. -/
def rotate (j : Journal) : Journal := ⟨j.finished ++ [j.current], []⟩

/-- Add bytes at the end. -/
def append (j : Journal) (bytes : List UInt8) : Journal := ⟨j.finished, j.current ++ bytes⟩

@[simp] theorem text_rotate (j : Journal) : j.rotate.text = j.text := by
  simp [text, rotate]

@[simp] theorem text_append (j : Journal) (bytes : List UInt8) :
    (j.append bytes).text = j.text ++ bytes := by
  simp [text, append]

end Journal

/-! ## Section 2: Runs with their history -/

/-- A system, the targets of its rotations in order and the records that were accepted. -/
structure Run where
  sys      : System
  history  : List Str
  accepted : List (List UInt8)

def Run.initial (fs : Fs Str UInt8) : Run := ⟨System.initial fs, [], []⟩

/-- The target of the rename step of a call, if it succeeded. -/
def Outcome.target (o : Outcome) : Option Str := o.renamed.bind Renaming.target

/-- The record of a call that returned `ret`, if it is a write that returned `SILOG_OK`. -/
def Call.accepted (ret : ErrorCode) : Call → Option (List UInt8)
  | .writeRaw (some d) _ => if ret = .ok then some d.bytes else none
  | _ => none

def Run.next (r : Run) (c : Call) : Run where
  sys := (r.sys.call c).sys
  history := r.history ++ (r.sys.call c).target.toList
  accepted := r.accepted ++ (c.accepted (r.sys.call c).ret).toList

/-- The transition relation of runs. -/
def RunStep (r : Run) (c : Call) (r' : Run) : Prop := r' = r.next c

/-- The configuration names the same log directory and file base. -/
def SamePlace (config₀ config : SilogLogFileConfig) : Prop :=
  config.logDir = config₀.logDir ∧ config.logFileBase = config₀.logFileBase

/-- The rotation happens with compression off, finds a free name and is followed by a
    clean-up that deletes nothing. -/
def Undisturbed (s : System) (env : RotateEnv) : Prop :=
  s.fm.config.enableCompression = false ∧
  (∃ seq, seq < 10 ∧ s.fs (historyPath s.fm.config env.timestamp seq) = none) ∧
  (silogFileManagerCleanOldFiles s.fm.config env.scan env.mem).2 = []

/-- The call keeps to the log directory and file base, and a rotation is undisturbed. -/
def Orderly (config₀ : SilogLogFileConfig) (r : Run) (c : Call) : Prop :=
  (∀ config env, c = .init config env →
    SamePlace config₀ (config.getD silogFileManagerGetDefaultConfig)) ∧
  ∀ env, r.sys.rotation c = some env → Undisturbed r.sys env

/-! ## Section 3: What a call does to the files -/

/-- The bytes that the stream holds back. -/
def System.pending (s : System) : List UInt8 :=
  match s.fm.currentFd with
  | none => []
  | some st => st.buffered

/-- The bytes of the file at `path` and those held back. -/
def System.bytesAt (s : System) (path : Str) : List UInt8 := s.fs.content path ++ s.pending

/-- From `s` to `s'` the current file at `path` was renamed to the target, if there is one,
    and then `bytes` were added to it.  Nothing else has changed. -/
inductive Effect (path : Str) (s : System) : Option Str → List UInt8 → System → Prop where
  | write {s' : System} {bytes : List UInt8} (hbytes : s'.bytesAt path = s.bytesAt path ++ bytes)
      (hother : ∀ p, p ≠ path → s'.fs p = s.fs p) : Effect path s none bytes s'
  | rotate {s' : System} {target : Str} {bytes : List UInt8} (hne : target ≠ path)
      (hfree : s.fs target = none) (htarget : s'.fs target = some (s.bytesAt path))
      (hbytes : s'.bytesAt path = bytes)
      (hother : ∀ p, p ≠ path → p ≠ target → s'.fs p = s.fs p) :
      Effect path s (some target) bytes s'

namespace System

variable {s s' : System} {path : Str}

theorem bytesAt_of_closed (h : s.fm.currentFd = none) : s.bytesAt path = s.fs.content path := by
  unfold bytesAt pending
  rw [h]
  exact List.append_nil _

theorem bytesAt_of_open {st : FileStream Str UInt8} (h : s.fm.currentFd = some st)
    (hpath : st.path = path) : s.bytesAt path = st.bytes s.fs := by
  unfold bytesAt pending FileStream.bytes
  rw [h, hpath]

/-- The stream passes bytes on, after `bytes` were given to it. -/
theorem bytesAt_of_passes {st st' : FileStream Str UInt8} {bytes : List UInt8}
    (hfd : s.fm.currentFd = some st) (hpath : st.path = path) (hfd' : s'.fm.currentFd = some st')
    (hpass : Passes { st with buffered := st.buffered ++ bytes } s.fs st' s'.fs) :
    s'.bytesAt path = s.bytesAt path ++ bytes := by
  rw [bytesAt_of_open hfd hpath, bytesAt_of_open hfd' (hpass.path.trans hpath), hpass.bytes]
  exact (List.append_assoc _ _ _).symm

/-- Streams write to `path`, which is the current path of an initialised manager, and there
    is nothing to compress. -/
structure Settled (path : Str) (s : System) : Prop where
  wf    : s.Wf
  place : s.fm.initialized = true → s.currentPath = path
  tasks : s.fm.compressQueue.getD [] = []

theorem Settled.path_of_open (h : s.Settled path) {st : FileStream Str UInt8}
    (hfd : s.fm.currentFd = some st) : st.path = path := by
  obtain ⟨hinit, hpath⟩ := h.wf st hfd
  exact hpath.trans (h.place hinit)

theorem Settled.closed_of_not_initialized (h : s.Settled path) (hinit : s.fm.initialized = false) :
    s.fm.currentFd = none := by
  by_contra hne
  obtain ⟨st, hst⟩ := Option.ne_none_iff_exists'.mp hne
  rw [(h.wf st hst).1] at hinit
  cases hinit

theorem Settled.of_keeps (h : s.Settled path) (hinit : s.fm.initialized = true) (hk : s.Keeps s')
    (htasks : s'.fm.compressQueue = s.fm.compressQueue) : s'.Settled path where
  wf := hk.wf hinit
  place := fun _ => hk.currentPath.trans (h.place hinit)
  tasks := by rw [htasks]; exact h.tasks

end System

namespace Effect

variable {s s' s'' : System} {path : Str}

theorem of_same (hfs : s'.fs = s.fs) (hfd : s'.fm.currentFd = s.fm.currentFd) :
    Effect path s none [] s' := by
  refine write ?_ (fun p _ => by rw [hfs])
  unfold System.bytesAt System.pending
  rw [hfs, hfd, List.append_nil]

/-- Bytes that are added after a call without bytes. -/
theorem append {target : Option Str} {bytes : List UInt8} (h : Effect path s target [] s')
    (h' : Effect path s' none bytes s'') : Effect path s target bytes s'' := by
  cases h' with
  | write hbytes' hother' =>
    cases h with
    | write hbytes hother =>
      -- two writes are one
      refine write ?_ fun p hp => (hother' p hp).trans (hother p hp)
      rw [hbytes', hbytes, List.append_nil]
    | rotate hne hfree htarget hbytes hother =>
      -- the target is not the current file, so a later write does not reach it
      refine rotate hne hfree ((hother' _ hne).trans htarget) ?_
        fun p hp ht => (hother' p hp).trans (hother p hp ht)
      rw [hbytes', hbytes, List.nil_append]

/-- The stream of the current file passes bytes on, after `bytes` were given to it. -/
theorem of_passes {st st' : FileStream Str UInt8} {bytes : List UInt8} (hs : s.Settled path)
    (hfd : s.fm.currentFd = some st) (hfd' : s'.fm.currentFd = some st')
    (hpass : Passes { st with buffered := st.buffered ++ bytes } s.fs st' s'.fs) :
    Effect path s none bytes s' := by
  have hpath := hs.path_of_open hfd
  refine write ?_ fun p hp => hpass.other p (by rw [hpath]; exact hp)
  exact System.bytesAt_of_passes hfd hpath hfd' hpass

end Effect

section calls
variable {s : System} {path : Str}

theorem closeCurrent_effect (hs : s.Settled path) : Effect path s none [] s.closeCurrent := by
  have hclosed : s.closeCurrent.fm.currentFd = none := by rw [s.closeCurrent_fm]
  cases hfd : s.fm.currentFd with
  | none =>
    refine Effect.of_same ?_ (hclosed.trans hfd.symm)
    unfold System.closeCurrent
    rw [hfd]
  | some st =>
    have hpath := hs.path_of_open hfd
    have hfs : s.closeCurrent.fs = (st.flush s.fs).2 := by
      unfold System.closeCurrent
      rw [hfd]
    refine Effect.write ?_ fun p hp => ?_
    · rw [System.bytesAt_of_closed hclosed, System.bytesAt_of_open hfd hpath, hfs, ← hpath,
        FileStream.flush_content, List.append_nil]
    · rw [hfs]
      exact (st.flush_passes s.fs).other p (by rw [hpath]; exact hp)

/-- Opening the file for appending when no stream is open. -/
theorem fopenAppend_effect {s' : System} (hfd : s.fm.currentFd = none)
    (hfs' : s'.fs = (fopenAppend s.fs path).2)
    (hfd' : s'.fm.currentFd = none ∨ s'.fm.currentFd = some (fopenAppend s.fs path).1) :
    Effect path s none [] s' := by
  refine Effect.write ?_ fun p hp => ?_
  · rw [System.bytesAt_of_closed hfd, List.append_nil]
    rcases hfd' with h | h
    · -- opened and closed again by a failed `Init`
      rw [System.bytesAt_of_closed h, hfs']
      exact Fs.content_update_self _ _ _
    · rw [System.bytesAt_of_open h (show (fopenAppend s.fs path).1.path = path from rfl), hfs']
      exact fopenAppend_bytes
  · rw [hfs']
    exact Function.update_of_ne hp _ _

/-- A rename that succeeds moves all bytes of the current file to the target. -/
theorem renameCurrent_moves (hs : s.Settled path) (hinit : s.fm.initialized = true)
    {env : RotateEnv} {fs₂ : Fs Str UInt8} (hren : s.renameCurrent env = some fs₂) :
    fs₂ (s.historyTarget env.timestamp) = some (s.bytesAt path) ∧ fs₂ path = none ∧
    ∀ p, p ≠ path → p ≠ s.historyTarget env.timestamp → fs₂ p = s.fs p := by
  have hclosed : s.closeCurrent.fm.currentFd = none := by rw [s.closeCurrent_fm]
  have hrename := rename_of_renameLoop hren
  rw [hs.place hinit] at hrename
  have hne : s.historyTarget env.timestamp ≠ path :=
    hs.place hinit ▸ s.historyTarget_ne_currentPath env.timestamp
  -- the rename starts from a closed file, which has all bytes
  cases closeCurrent_effect hs with
  | write hbytes hother =>
    rw [System.bytesAt_of_closed hclosed, List.append_nil] at hbytes
    refine ⟨?_, Fs.rename_source hrename, fun p hp ht => ?_⟩
    · rw [Fs.rename_target hrename hne, hbytes]
    · rw [Fs.rename_other hrename hp ht, hother p hp]

/-- A rotation keeps all bytes on every way through it. -/
theorem rotateInternal_effect (hs : s.Settled path) (hinit : s.fm.initialized = true)
    {env : RotateEnv} (henv : Undisturbed s env) :
    (silogFileManagerRotateInternal s env).sys.Settled path ∧
    Effect path s (silogFileManagerRotateInternal s env).target []
      (silogFileManagerRotateInternal s env).sys := by
  obtain ⟨hoff, hfree, hclean⟩ := henv
  have hkeeps := rotateInternal_keeps s env
  have hfm := s.closeCurrent_fm
  have hclosed : s.closeCurrent.fm.currentFd = none := by rw [hfm]
  have hclose := closeCurrent_effect hs
  have hpath := hs.place hinit
  have hne : s.historyTarget env.timestamp ≠ path := hpath ▸ s.historyTarget_ne_currentPath _
  have htfree := (s.historyTarget_free_iff env.timestamp).mpr hfree
  obtain ⟨_, _, heq⟩ | ⟨_, _, heq⟩ | ⟨fs₂, hren, _, heq⟩ | ⟨fs₂, hren, _, heq⟩ :=
    rotateInternal_cases s env
  · -- not renamed and opened again
    rw [heq] at hkeeps ⊢
    refine ⟨hs.of_keeps hinit hkeeps (by rw [hfm]), hclose.append ?_⟩
    exact fopenAppend_effect hclosed (by rw [hpath]) (Or.inr (by rw [hpath]))
  · -- not renamed, and the file stays closed
    rw [heq] at hkeeps ⊢
    exact ⟨hs.of_keeps hinit hkeeps (by rw [hfm]), hclose⟩
  · -- renamed, and a new file is begun
    obtain ⟨htarget, _, hother⟩ := renameCurrent_moves hs hinit hren
    have hsys : (silogFileManagerRotateInternal s env).sys =
        ⟨{ s.fm with currentFd := some (fopenWrite fs₂ path).1, currentSize := 0,
                     asyncBufferSize := 0 }, (fopenWrite fs₂ path).2⟩ := by
      rw [heq, hfm, hpath]
      unfold silogFileManagerCompressFile
      dsimp only
      rw [if_pos hoff]
      unfold System.cleanOldFiles
      dsimp only
      rw [hclean]
      rfl
    have htgt : (silogFileManagerRotateInternal s env).target =
        some (s.historyTarget env.timestamp) := by rw [heq]; rfl
    rw [hsys] at hkeeps ⊢
    rw [htgt]
    refine ⟨hs.of_keeps hinit hkeeps rfl, Effect.rotate hne htfree ?_ ?_ ?_⟩
    · exact (Function.update_of_ne hne _ _).trans htarget
    · show (fopenWrite fs₂ path).2.content path ++ (fopenWrite fs₂ path).1.buffered = []
      exact fopenWrite_bytes
    · exact fun p hp ht => (Function.update_of_ne hp _ _).trans (hother p hp ht)
  · -- renamed, and there is no current file
    obtain ⟨htarget, hcur, hother⟩ := renameCurrent_moves hs hinit hren
    have hempty : fs₂.content path = [] := by
      unfold Fs.content
      rw [hcur]
      rfl
    rw [heq] at hkeeps ⊢
    exact ⟨hs.of_keeps hinit hkeeps (by rw [hfm]), Effect.rotate hne htfree htarget
      ((System.bytesAt_of_closed (s := ⟨s.closeCurrent.fm, fs₂⟩) hclosed).trans hempty) hother⟩

/-- What is left of a stream after `SilogFileManagerWriteRaw` has given it a record. -/
theorem flushAfterWrite_passes (st : FileStream Str UInt8) (len : UInt32) (now : UInt64) :
    ∃ st', (s.flushAfterWrite st len now).fm.currentFd = some st' ∧
      (s.flushAfterWrite st len now).fm.compressQueue = s.fm.compressQueue ∧
      Passes st s.fs st' (s.flushAfterWrite st len now).fs := by
  unfold System.flushAfterWrite
  split
  · exact ⟨_, rfl, rfl, st.flush_passes s.fs⟩
  · dsimp only
    split
    · exact ⟨_, rfl, rfl, st.flush_passes s.fs⟩
    · exact ⟨st, rfl, rfl, Passes.refl st s.fs⟩

/-- A record is added if the write returns `SILOG_OK`, and else nothing. -/
theorem writeRecord_effect (hs : s.Settled path) (hinit : s.fm.initialized = true) (d : Record)
    (env : WriteEnv) :
    (s.writeRecord d env).2.Settled path ∧
    Effect path s none (if (s.writeRecord d env).1 = .ok then d.bytes else [])
      (s.writeRecord d env).2 := by
  have hkeeps := writeRecord_keeps hs.wf d env
  unfold System.writeRecord at hkeeps ⊢
  cases hfd : s.fm.currentFd with
  | none => exact ⟨hs, Effect.of_same rfl rfl⟩
  | some st =>
    rw [hfd] at hkeeps
    dsimp only at hkeeps ⊢
    split
    · next hnot =>
      rw [if_pos hnot] at hkeeps
      refine ⟨hs.of_keeps hinit hkeeps rfl, Effect.of_passes hs hfd rfl ?_⟩
      -- nothing was taken, but bytes held back earlier may have gone to the file
      rw [if_neg (show ErrorCode.fileWrite ≠ .ok by decide), List.append_nil]
      exact st.spill_passes s.fs env.passed
    · next hdone =>
      rw [if_neg hdone] at hkeeps
      obtain ⟨st', hfd', htasks, hpass⟩ := flushAfterWrite_passes
        (s := ⟨{ s.fm with currentSize := s.fm.currentSize + d.len },
          (st.write s.fs d.bytes env.passed).2⟩) (st.write s.fs d.bytes env.passed).1 d.len env.now
      refine ⟨hs.of_keeps hinit hkeeps htasks, Effect.of_passes hs hfd hfd' ?_⟩
      rw [if_pos rfl]
      exact (FileStream.spill_passes _ s.fs env.passed).trans hpass

/-- A setter for a name is refused or comes before initialisation. -/
theorem setText_effect (hs : s.Settled path) (text : Option Str)
    (f : Str → SilogLogFileConfig → SilogLogFileConfig) :
    (s.setText text f).sys.Settled path ∧ Effect path s none [] (s.setText text f).sys := by
  unfold System.setText
  cases text with
  | none => exact ⟨hs, Effect.of_same rfl rfl⟩
  | some text =>
    dsimp only
    split
    · exact ⟨hs, Effect.of_same rfl rfl⟩
    · next hinit =>
      -- before initialisation no stream is open and the path is free to change
      refine ⟨⟨System.wf_of_closed ?_, fun h => absurd h hinit, hs.tasks⟩, Effect.of_same rfl rfl⟩
      exact hs.closed_of_not_initialized (Bool.not_eq_true _ ▸ hinit)

theorem initWithConfig_effect (hs : s.Settled path) {config : SilogLogFileConfig}
    (hplace : silogFileManagerGetCurrentPath config = path) (env : InitEnv) :
    (silogFileManagerInitWithConfig s config env).sys.Settled path ∧
    Effect path s none [] (silogFileManagerInitWithConfig s config env).sys := by
  obtain ⟨_, heq⟩ | ⟨hinit, fm, fs, ret, heq, hinit', hfd', hqueue, hfs⟩ |
    ⟨hinit, fm, heq, hconfig, hinit', hqueue, hfd'⟩ := initWithConfig_cases s config env
  · rw [heq]
    exact ⟨hs, Effect.of_same rfl rfl⟩
  · have hfd := hs.closed_of_not_initialized hinit
    -- a failed call: no stream stays open, and the file may have been created
    have hclosed : fm.currentFd = none := by
      rcases hfd' with h | h
      · exact h.trans hfd
      · exact h
    rw [heq]
    refine ⟨⟨System.wf_of_closed hclosed, fun h => ?_, ?_⟩, ?_⟩
    · exact absurd h (by rw [show (System.returns ⟨fm, fs⟩ ret).sys.fm.initialized = false from hinit']
                         exact Bool.false_ne_true)
    · show fm.compressQueue.getD [] = []
      rcases hqueue with h | h
      · rw [h]
        exact hs.tasks
      · rw [h]
        rfl
    · rcases hfs with rfl | rfl
      · exact Effect.of_same rfl (hclosed.trans hfd.symm)
      · exact fopenAppend_effect hfd (by rw [hplace]; rfl) (Or.inl hclosed)
  · have hfd := hs.closed_of_not_initialized hinit
    -- ready: the stream is at the end of the current file
    have hcur : System.currentPath ⟨fm, (fopenAppend s.fs path).2⟩ = path := by
      unfold System.currentPath
      dsimp only
      rw [hconfig, hplace]
    rw [heq, hplace]
    rw [hplace] at hfd'
    refine ⟨⟨?_, fun _ => hcur, ?_⟩, fopenAppend_effect hfd rfl (Or.inr hfd')⟩
    · intro st hst
      obtain rfl : (fopenAppend s.fs path).1 = st := Option.some.inj (hfd'.symm.trans hst)
      exact ⟨hinit', hcur.symm⟩
    · show fm.compressQueue.getD [] = []
      rw [hqueue]
      rfl

theorem deinit_effect (hs : s.Settled path) (gzips : ℕ → Bool) :
    (silogFileManagerDeinit s gzips).sys.Settled path ∧
    Effect path s none [] (silogFileManagerDeinit s gzips).sys := by
  have hfm := s.closeCurrent_fm
  have hclose := closeCurrent_effect hs
  have hclosed : s.closeCurrent.fm.currentFd = none := by rw [hfm]
  have hqueue : s.closeCurrent.fm.compressQueue.getD [] = [] := by rw [hfm]; exact hs.tasks
  unfold silogFileManagerDeinit
  dsimp only
  split
  · -- the thread finds nothing to compress
    have htasks : (if s.fm.compressThread = true then s.fm.compressQueue.getD [] else []) = [] := by
      rw [hs.tasks, ite_self]
    rw [htasks]
    refine ⟨⟨System.wf_of_closed hclosed, fun h => ?_, rfl⟩, hclose.append (Effect.of_same rfl rfl)⟩
    cases h
  · refine ⟨⟨System.wf_of_closed hclosed, fun h => ?_, hqueue⟩, hclose.append (Effect.of_same rfl rfl)⟩
    cases h

theorem flush_effect (hs : s.Settled path) (now : UInt64) :
    (silogFileManagerFlush s now).sys.Settled path ∧
    Effect path s none [] (silogFileManagerFlush s now).sys := by
  have hwf := hs.wf.call (.flush now)
  change (silogFileManagerFlush s now).sys.Wf at hwf
  unfold silogFileManagerFlush at hwf ⊢
  cases hfd : s.fm.currentFd with
  | none => exact ⟨hs, Effect.of_same rfl rfl⟩
  | some st =>
    rw [hfd] at hwf
    refine ⟨⟨hwf, hs.place, hs.tasks⟩, Effect.of_passes hs hfd rfl ?_⟩
    rw [List.append_nil]
    exact st.flush_passes s.fs

theorem compressThread_same (hs : s.Settled path) (gzip : Bool) :
    silogFileManagerCompressThread s gzip = s := by
  have htasks := hs.tasks
  unfold silogFileManagerCompressThread
  split
  · next hqueue =>
    rw [hqueue] at htasks
    cases htasks
  · rfl

theorem accepted_writeRaw (ret : ErrorCode) (d : Record) (env : WriteEnv) :
    (Call.accepted ret (.writeRaw (some d) env)).getD [] = if ret = .ok then d.bytes else [] := by
  show (if ret = .ok then some d.bytes else none).getD [] = _
  split <;> rfl

theorem writeRaw_effect (hs : s.Settled path) (data : Option Record) (env : WriteEnv)
    (hquiet : ∀ e, s.rotation (.writeRaw data env) = some e → Undisturbed s e) :
    (silogFileManagerWriteRaw s data env).sys.Settled path ∧
    Effect path s (silogFileManagerWriteRaw s data env).target
      ((Call.accepted (silogFileManagerWriteRaw s data env).ret (.writeRaw data env)).getD [])
      (silogFileManagerWriteRaw s data env).sys := by
  obtain ⟨_, ret, hret, heq⟩ |
    ⟨d, rfl, hinit, _, ⟨_, heq⟩ | ⟨hrot, hret, heq⟩ | ⟨hrot, hret, heq⟩⟩ := writeRaw_cases s data env
  · -- refused: the call has changed nothing and its record is not accepted
    have hnone : Call.accepted ret (.writeRaw data env) = none := by
      cases data with
      | none => rfl
      | some d => exact if_neg hret
    rw [heq]
    refine ⟨hs, ?_⟩
    show Effect path s none ((Call.accepted ret (.writeRaw data env)).getD []) s
    rw [hnone]
    exact Effect.of_same rfl rfl
  · obtain ⟨hset, heff⟩ := writeRecord_effect hs hinit d env
    rw [heq]
    refine ⟨hset, ?_⟩
    show Effect path s none ((Call.accepted (s.writeRecord d env).1 (.writeRaw (some d) env)).getD []) _
    rw [accepted_writeRaw]
    exact heff
  · rw [heq, accepted_writeRaw, if_neg hret]
    exact rotateInternal_effect hs hinit (hquiet _ hrot)
  · obtain ⟨hset, heff⟩ := rotateInternal_effect hs hinit (hquiet _ hrot)
    obtain ⟨hset', heff'⟩ := writeRecord_effect hset
      ((rotateInternal_keeps s env.rotate).initialized.trans hinit) d env
    rw [heq, accepted_writeRaw]
    exact ⟨hset', heff.append heff'⟩

/-- Every orderly call of a settled system acts on the current file by a rotation, the record
    it accepts, or both. -/
theorem call_effect {config₀ : SilogLogFileConfig} {r : Run} {c : Call}
    (hs : r.sys.Settled (silogFileManagerGetCurrentPath config₀)) (hc : Orderly config₀ r c) :
    (r.sys.call c).sys.Settled (silogFileManagerGetCurrentPath config₀) ∧
    Effect (silogFileManagerGetCurrentPath config₀) r.sys (r.sys.call c).target
      ((c.accepted (r.sys.call c).ret).getD []) (r.sys.call c).sys := by
  obtain ⟨hplace, hquiet⟩ := hc
  have hwf := hs.wf.call c
  -- calls that do not come to a rotation have no target
  have htarget : r.sys.rotation c = none → (r.sys.call c).target = none := by
    intro hrot
    unfold Outcome.target
    rw [call_renamed, hrot]
    rfl
  cases c with
  | init config env =>
    obtain ⟨hdir, hbase⟩ := hplace config env rfl
    rw [htarget rfl]
    refine initWithConfig_effect hs ?_ env
    unfold silogFileManagerGetCurrentPath
    rw [hdir, hbase]
  | deinit gzips =>
    rw [htarget rfl]
    exact deinit_effect hs gzips
  | setLogDir dir =>
    rw [htarget rfl]
    exact setText_effect hs dir _
  | setLogFileBase base =>
    rw [htarget rfl]
    exact setText_effect hs base _
  | setMaxFileSize size => exact ⟨⟨hwf, hs.place, hs.tasks⟩, Effect.of_same rfl rfl⟩
  | setMaxFileCount count => exact ⟨⟨hwf, hs.place, hs.tasks⟩, Effect.of_same rfl rfl⟩
  | setCompression enable => exact ⟨⟨hwf, hs.place, hs.tasks⟩, Effect.of_same rfl rfl⟩
  | setCompressMode mode => exact ⟨⟨hwf, hs.place, hs.tasks⟩, Effect.of_same rfl rfl⟩
  | setFlushMode mode => exact ⟨⟨hwf, hs.place, hs.tasks⟩, Effect.of_same rfl rfl⟩
  | setAsyncFlushInterval intervalMs => exact ⟨⟨hwf, hs.place, hs.tasks⟩, Effect.of_same rfl rfl⟩
  | setAsyncFlushSize size => exact ⟨⟨hwf, hs.place, hs.tasks⟩, Effect.of_same rfl rfl⟩
  | writeRaw data env => exact writeRaw_effect hs data env hquiet
  | rotate env =>
    show (silogFileManagerRotate r.sys env).sys.Settled _ ∧
      Effect _ r.sys (silogFileManagerRotate r.sys env).target [] (silogFileManagerRotate r.sys env).sys
    unfold silogFileManagerRotate
    cases hinit : r.sys.fm.initialized with
    | false => exact ⟨hs, Effect.of_same rfl rfl⟩
    | true => exact rotateInternal_effect hs hinit (hquiet env (if_pos hinit))
  | flush now =>
    rw [htarget rfl]
    exact flush_effect hs now
  | compress gzip =>
    show (silogFileManagerCompressThread r.sys gzip).Settled _ ∧
      Effect _ r.sys none [] (silogFileManagerCompressThread r.sys gzip)
    rw [compressThread_same hs gzip]
    exact ⟨hs, Effect.of_same rfl rfl⟩

end calls

/-! ## Section 4: Runs -/

/-- The journal of a run: the history files in the order of their rotations and the current
    file with what is held back. -/
def Run.journal (r : Run) (path : Str) : Journal :=
  ⟨r.history.map r.sys.fs.content, r.sys.bytesAt path⟩

/-- The invariant of orderly runs from `fs₀`: the history files are all there, were not there
    at the beginning, and the files that are not part of the log have not changed. -/
structure Conserved (config₀ : SilogLogFileConfig) (fs₀ : Fs Str UInt8) (r : Run) : Prop where
  settled : r.sys.Settled (silogFileManagerGetCurrentPath config₀)
  exist   : ∀ p, p ∈ r.history → r.sys.fs p ≠ none
  notCur  : silogFileManagerGetCurrentPath config₀ ∉ r.history
  nodup   : r.history.Nodup
  fresh   : ∀ p, p ∈ r.history → fs₀ p = none
  others  : ∀ p, p ≠ silogFileManagerGetCurrentPath config₀ → p ∉ r.history → r.sys.fs p = fs₀ p
  text    : (r.journal (silogFileManagerGetCurrentPath config₀)).text =
              fs₀.content (silogFileManagerGetCurrentPath config₀) ++ r.accepted.flatten

/-- What a call does to the journal. -/
theorem journal_effect {r : Run} {path : Str} {s' : System} {target : Option Str}
    {bytes : List UInt8} {a : List (List UInt8)} (hcur : path ∉ r.history)
    (hexist : ∀ p, p ∈ r.history → r.sys.fs p ≠ none) (h : Effect path r.sys target bytes s') :
    Run.journal ⟨s', r.history ++ target.toList, a⟩ path =
      match target with
      | none => (r.journal path).append bytes
      | some _ => (r.journal path).rotate.append bytes := by
  cases h with
  | write hbytes hother =>
    have hmap : r.history.map s'.fs.content = r.history.map r.sys.fs.content :=
      List.map_congr_left fun p hp => Fs.content_congr (hother p (ne_of_mem_of_not_mem hp hcur))
    show Journal.mk ((r.history ++ []).map s'.fs.content) (s'.bytesAt path) = _
    rw [List.append_nil, hmap, hbytes]
    rfl
  | @rotate _ target _ hne hfree htarget hbytes hother =>
    have hmap : r.history.map s'.fs.content = r.history.map r.sys.fs.content := by
      refine List.map_congr_left fun p hp => Fs.content_congr (hother p ?_ ?_)
      · exact ne_of_mem_of_not_mem hp hcur
      · rintro rfl
        -- a history file exists, and the target did not
        exact hexist p hp hfree
    show Journal.mk ((r.history ++ [target]).map s'.fs.content) (s'.bytesAt path) = _
    rw [List.map_append, hmap, hbytes]
    unfold Journal.rotate Journal.append Run.journal
    simp [Fs.content, htarget]

/-- What one call preserves. -/
theorem Conserved.effect {config₀ : SilogLogFileConfig} {fs₀ : Fs Str UInt8} {r : Run}
    (hr : Conserved config₀ fs₀ r) {s' : System} {target : Option Str} {record : Option (List UInt8)}
    (hset : s'.Settled (silogFileManagerGetCurrentPath config₀))
    (heff : Effect (silogFileManagerGetCurrentPath config₀) r.sys target (record.getD []) s') :
    Conserved config₀ fs₀ ⟨s', r.history ++ target.toList, r.accepted ++ record.toList⟩ := by
  have hjournal := journal_effect (a := r.accepted ++ record.toList) hr.notCur hr.exist heff
  have hflatten : (r.accepted ++ record.toList).flatten = r.accepted.flatten ++ record.getD [] := by
    cases record <;> simp
  cases heff with
  | write hbytes hother =>
    refine ⟨hset, ?_, ?_, ?_, ?_, ?_, ?_⟩
    all_goals simp only [Option.toList_none, List.append_nil]
    · intro p hp
      rw [hother p (ne_of_mem_of_not_mem hp hr.notCur)]
      exact hr.exist p hp
    · exact hr.notCur
    · exact hr.nodup
    · exact hr.fresh
    · intro p hne hp
      rw [hother p hne]
      exact hr.others p hne hp
    · simp only [Option.toList_none, List.append_nil] at hjournal
      rw [hjournal, Journal.text_append, hr.text, hflatten, List.append_assoc]
  | @rotate _ target _ hne hfree htarget hbytes hother =>
    -- all history files exist, so the free target is a new one
    have hnew : target ∉ r.history := fun hin => hr.exist target hin hfree
    refine ⟨hset, ?_, ?_, ?_, ?_, ?_, ?_⟩
    all_goals simp only [Option.toList_some, List.mem_append, List.mem_singleton]
    · rintro p (hp | rfl)
      · rw [hother p (ne_of_mem_of_not_mem hp hr.notCur) (ne_of_mem_of_not_mem hp hnew)]
        exact hr.exist p hp
      · rw [htarget]
        exact Option.some_ne_none _
    · rintro (hp | heq)
      · exact hr.notCur hp
      · exact hne heq.symm
    · exact List.nodup_append.mpr ⟨hr.nodup, List.nodup_singleton _, fun a ha b hb hab =>
        hnew (by rw [← List.mem_singleton.mp hb, ← hab]; exact ha)⟩
    · -- the target was not there before and is not part of the log, so never was
      rintro p (hp | rfl)
      · exact hr.fresh p hp
      · rw [← hr.others p hne hnew]
        exact hfree
    · intro p hp hin
      push Not at hin
      rw [hother p hp hin.2]
      exact hr.others p hp hin.1
    · rw [Option.toList_some] at hjournal
      rw [hjournal, Journal.text_append, Journal.text_rotate, hr.text, hflatten, List.append_assoc]

theorem Conserved.step {config₀ : SilogLogFileConfig} {fs₀ : Fs Str UInt8} {r r' : Run} {c : Call}
    (hr : Conserved config₀ fs₀ r) (hstep : RunStep r c r') (hc : Orderly config₀ r c) :
    Conserved config₀ fs₀ r' := by
  obtain ⟨hset, heff⟩ := call_effect hr.settled hc
  rw [hstep]
  exact hr.effect hset heff

theorem Conserved.initial (config₀ : SilogLogFileConfig) (fs₀ : Fs Str UInt8) :
    Conserved config₀ fs₀ (Run.initial fs₀) where
  settled := ⟨System.initial_wf fs₀, fun h => (by cases h), rfl⟩
  exist := fun _ h => absurd h List.not_mem_nil
  notCur := List.not_mem_nil
  nodup := List.nodup_nil
  fresh := fun _ h => absurd h List.not_mem_nil
  others := fun _ _ _ => rfl
  text := by
    show [] ++ (fs₀.content _ ++ []) = fs₀.content _ ++ []
    rfl

/-- **Log content conservation.** In every orderly run, the history files in the order of
    their rotations, the current file and what its stream holds back are what the current
    file had at the beginning and the records that were accepted, in order.  The
    history files are new, and no other file has changed.  A closed stream holds nothing
    back. -/
theorem log_conserved {config₀ : SilogLogFileConfig} {fs₀ : Fs Str UInt8} {calls : List Call} {r : Run}
    (hrun : Steps (Guarded RunStep (Orderly config₀)) (Run.initial fs₀) calls r) :
    (r.history.map r.sys.fs.content).flatten ++
        r.sys.fs.content (silogFileManagerGetCurrentPath config₀) ++ r.sys.pending =
      fs₀.content (silogFileManagerGetCurrentPath config₀) ++ r.accepted.flatten ∧
    (r.sys.fm.currentFd = none → r.sys.pending = []) ∧
    r.history.Nodup ∧ (∀ p, p ∈ r.history → fs₀ p = none) ∧
    ∀ p, p ≠ silogFileManagerGetCurrentPath config₀ → p ∉ r.history → r.sys.fs p = fs₀ p := by
  have hr : Conserved config₀ fs₀ r :=
    hrun.invariant (fun _ _ _ hR hr => hr.step hR.1 hR.2) (Conserved.initial config₀ fs₀)
  refine ⟨?_, ?_, hr.nodup, hr.fresh, hr.others⟩
  · rw [← hr.text, List.append_assoc]
    rfl
  · intro hclosed
    unfold System.pending
    rw [hclosed]

/-! ### A rotation that cannot open the new file -/

/-- The rename succeeds at the second attempt and `fopen` fails. -/
def halfRotate : RotateEnv := { smoothRotate with renames := fun i => i == 1, reopen := false }

/-- A record, the rotation, a rotation that finds no current file, a record. -/
def halfRotateCalls : List Call :=
  [.init (some plainConfig) smoothInit, .writeRaw (some recordSeven) smoothWrite, .rotate halfRotate,
   .rotate smoothRotate, .writeRaw (some recordSeven) smoothWrite, .deinit fun _ => true]

/-- The files before the first call: the current one has one byte. -/
def oneByte : Fs Str UInt8 := fun path =>
  if path = silogFileManagerGetCurrentPath plainConfig then some [1] else none

def halfRotated : Run := halfRotateCalls.foldl Run.next (Run.initial oneByte)

theorem orderly_of_no_rotation {config₀ : SilogLogFileConfig} {r : Run} {c : Call}
    (hinit : ∀ config env, c ≠ .init config env) (hrot : (r.sys.rotation c).isNone = true) :
    Orderly config₀ r c := by
  refine ⟨fun config env h => absurd h (hinit config env), fun env henv => ?_⟩
  rw [henv] at hrot
  cases hrot

theorem orderly_rotate {config₀ : SilogLogFileConfig} {r : Run} {env : RotateEnv}
    (h : Undisturbed r.sys env) : Orderly config₀ r (.rotate env) := by
  refine ⟨fun config env' h => (by cases h), fun env' henv => ?_⟩
  have hsome : (if r.sys.fm.initialized then some env else none) = some env' := henv
  split at hsome
  · cases hsome
    exact h
  · cases hsome

theorem halfRotated_steps :
    Steps (Guarded RunStep (Orderly plainConfig)) (Run.initial oneByte) halfRotateCalls halfRotated := by
  refine Steps.cons _ _ ⟨rfl, ?_, fun env henv => (by cases henv)⟩ ?_
  · rintro config env ⟨⟩
    exact ⟨rfl, rfl⟩
  refine Steps.cons _ _ ⟨rfl, orderly_of_no_rotation (fun _ _ h => (by cases h)) (by decide +kernel)⟩ ?_
  refine Steps.cons _ _ ⟨rfl, orderly_rotate ⟨rfl, ⟨0, by decide, by decide +kernel⟩, rfl⟩⟩ ?_
  refine Steps.cons _ _ ⟨rfl, orderly_rotate ⟨rfl, ⟨1, by decide, by decide +kernel⟩, rfl⟩⟩ ?_
  refine Steps.cons _ _ ⟨rfl, orderly_of_no_rotation (fun _ _ h => (by cases h)) (by decide +kernel)⟩ ?_
  exact Steps.cons _ _ ⟨rfl, orderly_of_no_rotation (fun _ _ h => (by cases h)) rfl⟩ (Steps.nil _)

theorem log_conserved_halfRotated :
    halfRotated.accepted = [[7], [7]] ∧
    halfRotated.history = [historyPath plainConfig newYear 0] ∧
    (halfRotated.history.map halfRotated.sys.fs.content).flatten ++
        halfRotated.sys.fs.content (silogFileManagerGetCurrentPath plainConfig) = [1, 7, 7] := by
  refine ⟨by decide +kernel, by decide +kernel, ?_⟩
  obtain ⟨htext, hclosed, _⟩ := log_conserved halfRotated_steps
  rw [hclosed (by decide +kernel), List.append_nil] at htext
  rw [htext]
  decide +kernel

end SiLog.FileManager
