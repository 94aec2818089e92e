import SiLog.Cat.Screen
import SiLog.FileManager.Archive
import SiLog.Pipeline.Delivery

/-! # From `silogLog` to the log files and to a screen

    The write thread of the daemon hands the line of an entry to the file
    manager, and then broadcasts the entry if the remote service is enabled.
    This file puts the parts together: the pipeline up to the write thread,
    the file manager with its rotations, and a `silogcat` on its link to the
    remote service.  All of them go on independently, and other threads may
    call the file manager and the remote service in between.

    A part takes part in a step with a label of its own, so that a run of the
    whole has a run of each part behind it, and what is known about the parts
    holds of the whole.  The results follow an entry from one end to the
    other.
-/

open Lts SiLog.Daemon SiLog.Remote

namespace SiLog.EndToEnd

/-! ## Section 1: The system -/

/-- The C libraries of the daemon and of `silogcat`, and the command line of the latter. -/
structure Site where
  lib       : Pipeline.CLibrary
  catConfig : Cat.SilogCatConfig
  catTime   : Int64 → Option Line.Tm

/-- The pipeline, the file manager with what its calls have done so far, a `silogcat` with its link to
    the service, `g_remoteEnabled`, and the entry that the write thread has handed to the file
    manager and not yet thought of broadcasting. -/
structure State (κ ι : Type*) where
  pipe          : Pipeline.State κ ι
  files         : FileManager.LogRun
  watch         : Cat.Watch
  remoteEnabled : Bool
  written       : Option LogEntry

inductive Act (κ ι : Type*) where
  /-- A step of the pipeline other than the writing of an entry. -/
  | pipe (a : Pipeline.Act κ ι)
  /-- The write thread formats its entry and calls `SilogFileManagerWriteRaw`. -/
  | write (timebuf : Vector UInt8 32) (logbuf : Vector UInt8 512) (env : FileManager.WriteEnv)
  /-- The write thread tests `g_remoteEnabled`, and calls `SilogRemoteBroadcast` if it is set. -/
  | broadcast (sends : ℕ → ℕ → SendResult)
  /-- A call of the file manager in another thread. -/
  | files (c : FileManager.Call)
  /-- A step of `silogcat`, or a call of the remote service in another thread. -/
  | watch (a : Cat.WatchAct)
  /-- A store to `g_remoteEnabled`. -/
  | setRemote (enabled : Bool)

/-! ## Section 2: The body of the write thread -/

/-- The bytes for `SilogFileManagerWriteRaw` fit into the buffer. -/
theorem format_length {localtimeR : Int64 → Option Line.Tm} {e : LogEntry} {timebuf logbuf line : List UInt8}
    (h : Line.silogDaemonWriteThreadFormat localtimeR e timebuf logbuf = some (some line)) :
    line.length ≤ Line.logMsgBufSize := by
  unfold Line.silogDaemonWriteThreadFormat at h
  simp only [Option.bind_eq_bind, Option.bind_eq_some_iff] at h
  obtain ⟨_, _, _, _, _, _, _, _, _, _, ⟨len, logbuf'⟩, _, h⟩ := h
  dsimp only at h
  split at h
  · cases h
  · obtain ⟨buf, _, rfl⟩ := Option.map_eq_some_iff.mp (Option.some.inj h)
    refine (List.length_take_le _ _).trans ?_
    split
    · rw [Int.toNat_natCast]
    · omega

/-- The entry that the write thread holds and the record that it makes of it; `none` for an entry that
    is skipped. -/
def State.record {κ ι : Type*} (lib : Pipeline.CLibrary) (s : State κ ι) (timebuf : Vector UInt8 32)
    (logbuf : Vector UInt8 512) : Option (LogEntry × FileManager.Record) :=
  match s.pipe.daemon.write with
  | .format e =>
    let entry := Logger.entryOfElem e
    match h : Line.silogDaemonWriteThreadFormat lib.localtimeR entry timebuf.toList logbuf.toList with
    | some (some line) => some (entry, ⟨line, (format_length h).trans_lt (by decide)⟩)
    | _ => none
  | _ => none

/-- The record fits into the buffer of the write thread. -/
theorem record_length {κ ι : Type*} {lib : Pipeline.CLibrary} {s : State κ ι} {timebuf : Vector UInt8 32}
    {logbuf : Vector UInt8 512} {e : LogEntry} {d : FileManager.Record}
    (h : s.record lib timebuf logbuf = some (e, d)) : d.bytes.length ≤ Line.logMsgBufSize := by
  unfold State.record at h
  split at h
  · dsimp only at h
    split at h
    next hline =>
      cases h
      exact format_length hline
    · cases h
  · cases h

section step
variable {κ ι : Type*} [DecidableEq κ] [DecidableEq ι]

/-- What a step is for the pipeline. -/
def Act.pipeAct : Act κ ι → Option (Pipeline.Act κ ι)
  | .pipe a => some a
  | .write timebuf logbuf _ => some (.write timebuf logbuf)
  | _ => none

/-- The call of the file manager in a step. -/
def State.fileCall (lib : Pipeline.CLibrary) (s : State κ ι) : Act κ ι → Option FileManager.Call
  | .write timebuf logbuf env =>
    (s.record lib timebuf logbuf).map fun r => .writeRaw (some r.2) env
  | .files c => some c
  | _ => none

/-- What a step is for the link and `silogcat`. -/
def State.watchAct (s : State κ ι) : Act κ ι → Option Cat.WatchAct
  | .broadcast sends =>
    if s.remoteEnabled then s.written.map fun e => .server (.broadcast (some e) sends) else none
  | .watch a => some a
  | _ => none

/-- The entry to broadcast after a step. -/
def State.writtenAfter (lib : Pipeline.CLibrary) (s : State κ ι) : Act κ ι → Option LogEntry
  | .write timebuf logbuf _ => (s.record lib timebuf logbuf).map Prod.fst
  | .broadcast _ => none
  | _ => s.written

def State.remoteAfter (s : State κ ι) : Act κ ι → Bool
  | .setRemote enabled => enabled
  | _ => s.remoteEnabled

/-- Only the write thread writes, and only it broadcasts.  It goes on to the next entry behind the
    broadcast. -/
def State.Allows (s : State κ ι) : Act κ ι → Prop
  | .pipe a => (∀ timebuf logbuf, a ≠ .write timebuf logbuf) ∧
      (a = .other .writeTest → s.written = none)
  | .broadcast _ => s.written.isSome
  | .files c => ∀ data env, c ≠ .writeRaw data env
  | .watch a => ∀ e sends, a ≠ .server (.broadcast (some e) sends)
  | _ => True

/-- One step of the system. -/
structure Step (site : Site) (s : State κ ι) (a : Act κ ι) (s' : State κ ι) : Prop where
  allowed       : s.Allows a
  pipe          : Moves (Pipeline.Step site.lib) s.pipe a.pipeAct s'.pipe
  files         : Moves FileManager.LogStep s.files (s.fileCall site.lib a) s'.files
  watch         : Moves (Cat.WatchStep site.catConfig site.catTime) s.watch (s.watchAct a) s'.watch
  remoteEnabled : s'.remoteEnabled = s.remoteAfter a
  written       : s'.written = s.writtenAfter site.lib a

end step

/-- The pipeline at its start, the file manager before its first call and `silogcat` before its own;
    `fs` are the files. -/
def State.initial {κ ι : Type*} (b : Pipeline.Start κ) (fs : Files.Fs FileManager.Str UInt8) :
    State κ ι where
  pipe := .initial b
  files := .initial fs
  watch := .initial
  remoteEnabled := false
  written := none

/-! ## Section 3: What a step leaves alone -/

/-- The daemon hands over an entry only by formatting it, and the write thread leaves its loop test
    only by the test. -/
theorem shutdown_step {d d' : Shutdown.State} {b : Shutdown.Act} (h : Shutdown.Step d b d')
    (hformat : ∀ ok, b ≠ .format ok) :
    d'.handed = d.handed ∧ (d.write = .test → b ≠ .writeTest → d'.write = .test) := by
  obtain ⟨_, _, hwrite, hhanded, _⟩ | ⟨_, _, _, _, _, _, rfl⟩ | ⟨htest, _, rfl⟩ |
    ⟨_, _, _, _, hafter, _, rfl⟩ | ⟨ok, _, hact, _⟩ := Shutdown.step_effect h
  · exact ⟨hhanded, fun hpc _ => hwrite.trans hpc⟩
  · exact ⟨rfl, fun hpc _ => hpc⟩
  · exact ⟨rfl, fun _ hne => absurd htest hne⟩
  · refine ⟨rfl, fun hpc _ => ?_⟩
    -- no step of `Pop` starts at the loop test
    rw [hpc] at hafter
    cases hafter
  · exact absurd hact (hformat ok)

section pipe
variable {κ ι : Type*} [DecidableEq κ] [DecidableEq ι] {lib : Pipeline.CLibrary}
  {p p' : Pipeline.State κ ι} {a : Pipeline.Act κ ι}

/-- A step of the pipeline other than the writing of an entry. -/
theorem pipe_step (h : Pipeline.Step lib p a p') (hwrite : ∀ timebuf logbuf, a ≠ .write timebuf logbuf) :
    p'.lines = p.lines ∧ p'.daemon.handed = p.daemon.handed ∧
      (p.daemon.write = .test → a ≠ .other .writeTest → p'.daemon.write = .test) := by
  unfold Pipeline.Step at h
  cases a with
  | silogLog p t m =>
    obtain ⟨_, _, hpush⟩ := Option.bind_eq_some_iff.mp h
    obtain ⟨_, _, rfl⟩ := Option.map_eq_some_iff.mp hpush
    exact ⟨rfl, rfl, fun hpc _ => hpc⟩
  | push p a =>
    obtain ⟨_, h⟩ := Option.ite_none_right_eq_some.mp h
    obtain ⟨_, _, rfl⟩ := Option.map_eq_some_iff.mp h
    exact ⟨rfl, rfl, fun hpc _ => hpc⟩
  | setLevel p level =>
    cases h
    exact ⟨rfl, rfl, fun hpc _ => hpc⟩
  | pop p a =>
    obtain ⟨_, _, hafter⟩ := Option.bind_eq_some_iff.mp h
    obtain ⟨_, _, rfl⟩ := Option.map_eq_some_iff.mp hafter
    exact ⟨rfl, rfl, fun hpc _ => hpc⟩
  | send p env =>
    simp only [Pipeline.step] at h
    split at h
    · cases h
      exact ⟨rfl, rfl, fun hpc _ => hpc⟩
    · cases h
  | inject d =>
    cases h
    exact ⟨rfl, rfl, fun hpc _ => hpc⟩
  | socketEvent e =>
    cases h
    exact ⟨rfl, rfl, fun hpc _ => hpc⟩
  | recvStart env =>
    obtain ⟨daemon, hdaemon, rfl⟩ := Option.map_eq_some_iff.mp h
    obtain ⟨hhanded, htest⟩ := shutdown_step hdaemon (by simp)
    exact ⟨rfl, hhanded, fun hpc _ => htest hpc (by simp)⟩
  | recv ok =>
    obtain ⟨_, h⟩ := Option.ite_none_right_eq_some.mp h
    dsimp only at h
    split at h
    · cases h
      exact ⟨rfl, rfl, fun hpc _ => hpc⟩
    · obtain ⟨daemon, hdaemon, rfl⟩ := Option.map_eq_some_iff.mp h
      obtain ⟨hhanded, htest⟩ := shutdown_step hdaemon (by simp)
      exact ⟨rfl, hhanded, fun hpc _ => htest hpc (by simp)⟩
  | recvPushStart =>
    obtain ⟨_, _, h⟩ := Option.bind_eq_some_iff.mp h
    obtain ⟨daemon, hdaemon, rfl⟩ := Option.map_eq_some_iff.mp h
    obtain ⟨hhanded, htest⟩ := shutdown_step hdaemon (by simp)
    exact ⟨rfl, hhanded, fun hpc _ => htest hpc (by simp)⟩
  | recvPush b =>
    obtain ⟨_, h⟩ := Option.ite_none_right_eq_some.mp h
    obtain ⟨daemon, hdaemon, rfl⟩ := Option.map_eq_some_iff.mp h
    obtain ⟨hhanded, htest⟩ := shutdown_step hdaemon (by simp)
    exact ⟨rfl, hhanded, fun hpc _ => htest hpc (by simp)⟩
  | recvClose =>
    obtain ⟨daemon, hdaemon, rfl⟩ := Option.map_eq_some_iff.mp h
    obtain ⟨hhanded, htest⟩ := shutdown_step hdaemon (by simp)
    exact ⟨rfl, hhanded, fun hpc _ => htest hpc (by simp)⟩
  | other b =>
    obtain ⟨hlocal, h⟩ := Option.ite_none_right_eq_some.mp h
    obtain ⟨daemon, hdaemon, rfl⟩ := Option.map_eq_some_iff.mp h
    obtain ⟨hhanded, htest⟩ := shutdown_step hdaemon (fun ok hb => by
      subst hb
      cases hlocal)
    refine ⟨rfl, hhanded, fun hpc hne => htest hpc fun hb => hne ?_⟩
    rw [hb]
  | write timebuf logbuf => exact absurd rfl (hwrite timebuf logbuf)

end pipe

section state
variable {κ ι : Type*} [DecidableEq κ] [DecidableEq ι] {lib : Pipeline.CLibrary} {s : State κ ι}
  {p' : Pipeline.State κ ι} {timebuf : Vector UInt8 32} {logbuf : Vector UInt8 512}

/-- The writing of an entry: the entry is skipped, or its record is the new line. -/
theorem write_step (h : Pipeline.Step lib s.pipe (.write timebuf logbuf) p') :
    s.pipe.daemon.write ≠ .test ∧ p'.daemon.write = .test ∧
    (s.record lib timebuf logbuf = none ∧ p'.lines = s.pipe.lines ∧
        p'.daemon.handed = s.pipe.daemon.handed ∨
      ∃ e d, s.record lib timebuf logbuf = some (Logger.entryOfElem e, d) ∧
        p'.lines = s.pipe.lines ++ [d.bytes] ∧
        p'.daemon.handed = s.pipe.daemon.handed ++ [e]) := by
  unfold Pipeline.Step at h
  simp only [Pipeline.step] at h
  split at h
  next e hwrite =>
    obtain ⟨line, hline, h⟩ := Option.bind_eq_some_iff.mp h
    obtain ⟨daemon, hdaemon, rfl⟩ := Option.map_eq_some_iff.mp h
    simp only [Shutdown.step, hwrite, Option.some.injEq] at hdaemon
    subst hdaemon
    refine ⟨by simp [hwrite], rfl, ?_⟩
    unfold State.record
    rw [hwrite]
    dsimp only
    split
    next line' hline' =>
      rw [hline] at hline'
      cases hline'
      exact Or.inr ⟨e, _, rfl, rfl, rfl⟩
    next hnone =>
      cases line with
      | none => exact Or.inl ⟨rfl, List.append_nil _, rfl⟩
      | some line => exact absurd hline (hnone line)
  · cases h

end state

/-- The entries that a step broadcasts. -/
def broadcasts : Cat.WatchAct → List LogEntry
  | .server c => c.entries
  | _ => []

/-- The service remembers the entries that it broadcasts. -/
theorem watch_step {config : Cat.SilogCatConfig} {localtimeR : Int64 → Option Line.Tm} {w w' : Cat.Watch}
    {a : Cat.WatchAct} (h : Cat.WatchStep config localtimeR w a w') :
    w'.link.server.history = w.link.server.history ++ broadcasts a := by
  obtain ⟨_, main, _, rfl⟩ := h
  cases a with
  | server c => exact history_call w.link.server c
  | accept i fd getFl setFl => exact history_call w.link.server (.accept (.connection fd) getFl setFl)
  | signal => exact (List.append_nil _).symm
  | start => exact (List.append_nil _).symm
  | test =>
    simp only [Cat.Watch.linkAct, broadcasts, List.append_nil]
    split <;> rfl
  | check env =>
    simp only [Cat.Watch.linkAct, broadcasts, List.append_nil]
    split <;> rfl
  | receive select => exact (List.append_nil _).symm

/-- The records that a call of the file manager adds to the accepted ones. -/
theorem accepted_files {c : FileManager.Call} (hother : ∀ data env, c ≠ .writeRaw data env)
    (r : FileManager.LogRun) : (r.next c).run.accepted = r.run.accepted := by
  have hnone : FileManager.Call.accepted (r.run.sys.call c).ret c = none := by
    cases c with
    | writeRaw data env => exact absurd rfl (hother data env)
    | _ => rfl
  unfold FileManager.LogRun.next FileManager.Run.next
  rw [hnone, Option.toList_none, List.append_nil]

theorem accepted_write (r : FileManager.LogRun) (d : FileManager.Record) (env : FileManager.WriteEnv) :
    (r.next (.writeRaw (some d) env)).run.accepted =
      r.run.accepted ++ (if (r.run.sys.call (.writeRaw (some d) env)).ret = .ok then [d.bytes] else []) := by
  unfold FileManager.LogRun.next FileManager.Run.next FileManager.Call.accepted
  dsimp only
  split <;> rfl

section effect
variable {κ ι : Type*}

/-- The entries that were broadcast and the one that the write thread is about to broadcast. -/
def State.sent (s : State κ ι) : List LogEntry := s.watch.link.server.history ++ s.written.toList

/-- An entry to broadcast is there only between its line and the next loop test. -/
def WrittenOk (s : State κ ι) : Prop := s.written.isSome → s.pipe.daemon.write = .test

variable [DecidableEq κ] [DecidableEq ι] {site : Site} {s s' : State κ ι} {a : Act κ ι}

/-- What a step does to the lines, the records and the entries to broadcast: nothing new, or one of
    each. -/
structure Quiet (s s' : State κ ι) : Prop where
  lines    : s'.pipe.lines = s.pipe.lines
  handed   : s'.pipe.daemon.handed = s.pipe.daemon.handed
  accepted : s'.files.run.accepted = s.files.run.accepted
  sent     : s'.sent.Sublist s.sent

structure Writes (site : Site) (s : State κ ι) (a : Act κ ι) (s' : State κ ι) (e : Pipeline.Entry)
    (d : FileManager.Record) (env : FileManager.WriteEnv) : Prop where
  call   : s.fileCall site.lib a = some (.writeRaw (some d) env)
  lines  : s'.pipe.lines = s.pipe.lines ++ [d.bytes]
  handed : s'.pipe.daemon.handed = s.pipe.daemon.handed ++ [e]
  files  : s'.files = s.files.next (.writeRaw (some d) env)
  sent   : s'.sent = s.sent ++ [Logger.entryOfElem e]

omit [DecidableEq κ] [DecidableEq ι] in
theorem Quiet.of_pipe (hpipe : s'.pipe = s.pipe)
    (haccepted : s'.files.run.accepted = s.files.run.accepted) (hsent : s'.sent.Sublist s.sent) :
    Quiet s s' :=
  ⟨by rw [hpipe], by rw [hpipe], haccepted, hsent⟩

omit [DecidableEq κ] [DecidableEq ι] in
/-- A step that leaves the entry to broadcast alone. -/
theorem quiet_of_same (hW : WrittenOk s) (hpipe : s'.pipe = s.pipe) (hwritten : s'.written = s.written)
    (haccepted : s'.files.run.accepted = s.files.run.accepted)
    (hhistory : s'.watch.link.server.history = s.watch.link.server.history) :
    WrittenOk s' ∧ Quiet s s' := by
  refine ⟨?_, .of_pipe hpipe haccepted ?_⟩
  · unfold WrittenOk
    rw [hwritten, hpipe]
    exact hW
  · rw [State.sent, State.sent, hhistory, hwritten]

theorem step_effect (hW : WrittenOk s) (h : Step site s a s') :
    WrittenOk s' ∧ (Quiet s s' ∨ ∃ e d env, Writes site s a s' e d env) := by
  obtain ⟨hallowed, hpipe, hfiles, hwatch, _, hwritten⟩ := h
  cases a with
  | pipe a =>
    obtain ⟨hwrite, htest⟩ := hallowed
    obtain ⟨hlines, hhanded, hkept⟩ := pipe_step hpipe hwrite
    simp only [State.writtenAfter] at hwritten
    refine ⟨?_, Or.inl ⟨hlines, hhanded, ?_, ?_⟩⟩
    · intro hsome
      rw [hwritten] at hsome
      refine hkept (hW hsome) fun ha => ?_
      rw [htest ha] at hsome
      cases hsome
    · rw [show s'.files = s.files from hfiles]
    · rw [State.sent, State.sent, show s'.watch = s.watch from hwatch, hwritten]
  | write timebuf logbuf env =>
    obtain ⟨hpc, hpc', hcase⟩ := write_step hpipe
    have hnone : s.written = none := by
      cases hw : s.written with
      | none => rfl
      | some e => exact absurd (hW (by rw [hw]; rfl)) hpc
    simp only [State.fileCall, State.writtenAfter] at hfiles hwritten
    refine ⟨fun _ => hpc', ?_⟩
    obtain ⟨hrecord, hlines, hhanded⟩ | ⟨e, d, hrecord, hlines, hhanded⟩ := hcase
    · rw [hrecord] at hfiles hwritten
      refine Or.inl ⟨hlines, hhanded, ?_, ?_⟩
      · rw [show s'.files = s.files from hfiles]
      · rw [State.sent, State.sent, show s'.watch = s.watch from hwatch, hwritten, hnone]
        exact List.Sublist.refl _
    · rw [hrecord] at hfiles hwritten
      refine Or.inr ⟨e, d, env, ?_, hlines, hhanded, hfiles, ?_⟩
      · rw [State.fileCall, hrecord]
        rfl
      · rw [State.sent, State.sent, show s'.watch = s.watch from hwatch, hwritten, hnone]
        exact congrArg (· ++ [Logger.entryOfElem e]) (List.append_nil _).symm
  | broadcast sends =>
    have hgone : s'.written = none := hwritten
    refine ⟨fun hsome => ?_, Or.inl (.of_pipe hpipe (by rw [show s'.files = s.files from hfiles]) ?_)⟩
    · rw [hgone] at hsome
      cases hsome
    · simp only [State.watchAct] at hwatch
      rw [State.sent, State.sent, hgone, Option.toList_none, List.append_nil]
      split at hwatch
      · cases hw : s.written with
        | none =>
          rw [hw] at hwatch
          rw [show s'.watch = s.watch from hwatch]
          exact List.sublist_append_left _ _
        | some e =>
          rw [hw] at hwatch
          rw [watch_step hwatch]
          exact List.Sublist.refl _
      · -- the service is not enabled, and the entry is not broadcast
        rw [show s'.watch = s.watch from hwatch]
        exact List.sublist_append_left _ _
  | files c =>
    have haccepted : s'.files.run.accepted = s.files.run.accepted := by
      rw [show s'.files = s.files.next c from hfiles, accepted_files hallowed]
    obtain ⟨hW', hquiet⟩ := quiet_of_same hW hpipe hwritten haccepted
      (by rw [show s'.watch = s.watch from hwatch])
    exact ⟨hW', Or.inl hquiet⟩
  | watch b =>
    have hnone : broadcasts b = [] := by
      cases b with
      | server c =>
        cases c with
        | broadcast entry sends =>
          cases entry with
          | none => rfl
          | some e => exact absurd rfl (hallowed e sends)
        | _ => rfl
      | _ => rfl
    obtain ⟨hW', hquiet⟩ := quiet_of_same hW hpipe hwritten (by rw [show s'.files = s.files from hfiles])
      (by rw [watch_step hwatch, hnone, List.append_nil])
    exact ⟨hW', Or.inl hquiet⟩
  | setRemote enabled =>
    obtain ⟨hW', hquiet⟩ := quiet_of_same hW hpipe hwritten (by rw [show s'.files = s.files from hfiles])
      (by rw [show s'.watch = s.watch from hwatch])
    exact ⟨hW', Or.inl hquiet⟩

end effect

end SiLog.EndToEnd
