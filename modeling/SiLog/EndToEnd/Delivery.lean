import SiLog.EndToEnd.Model

/-! # What gets from one end to the other

    In every run the log has whole lines, each of an entry that can be
    attributed to a call of `silogLog` or to another program, in the order in
    which the entries were handed over.  As long as nothing is lost on the
    way, no line is missing.  And what `silogcat` shows agrees with the log.

    A run of the whole has a run of each part behind it, and the side
    conditions are those of the parts.
-/

open Lts SiLog.Daemon SiLog.Remote

namespace SiLog.EndToEnd

open Pipeline (connectedStart helloElem helloEntry helloMessage pidOf plainLibrary)

/-! ## Section 1: Side conditions -/

section conditions
variable {κ ι : Type*} {site : Site} {config₀ : FileManager.SilogLogFileConfig} {s : State κ ι} {a : Act κ ι}

/-- The calls of the file manager keep to the log directory and file base, and rotations find a name
    without a file. -/
def TidyCalls (site : Site) (config₀ : FileManager.SilogLogFileConfig) (s : State κ ι) (a : Act κ ι) :
    Prop :=
  ∀ c, s.fileCall site.lib a = some c → FileManager.Tidy config₀ s.files c

/-- `SilogFileManagerWriteRaw` accepts the record. -/
def Stores (site : Site) (s : State κ ι) (a : Act κ ι) : Prop :=
  ∀ data env, s.fileCall site.lib a = some (.writeRaw data env) →
    (s.files.run.sys.call (.writeRaw data env)).ret = .ok

/-- No entry is lost on the way to the daemon and in it. -/
def NoLoss [DecidableEq κ] [DecidableEq ι] (s : State κ ι) (a : Act κ ι) : Prop :=
  ∀ c, a.pipeAct = some c → Pipeline.Lossless s.pipe c

/-- No record stalls on its way to a client. -/
def Calm (s : State κ ι) (a : Act κ ι) : Prop := ∀ w, s.watchAct a = some w → Cat.WatchCalm s.watch w

theorem TidyCalls.of_none (h : s.fileCall site.lib a = none) : TidyCalls site config₀ s a := by
  intro c hc
  rw [h] at hc
  cases hc

theorem Stores.of_none (h : s.fileCall site.lib a = none) : Stores site s a := by
  intro data env hc
  rw [h] at hc
  cases hc

theorem NoLoss.of_none [DecidableEq κ] [DecidableEq ι] (h : a.pipeAct = none) : NoLoss s a := by
  intro c hc
  rw [h] at hc
  cases hc

theorem Calm.of_none (h : s.watchAct a = none) : Calm s a := by
  intro w hw
  rw [h] at hw
  cases hw

end conditions

/-! ## Section 2: Runs -/

section runs
variable {κ ι : Type*} [DecidableEq κ] [DecidableEq ι] {site : Site}
  {config₀ : FileManager.SilogLogFileConfig} {b : Pipeline.Start κ}
  {fs : Files.Fs FileManager.Str UInt8} {acts : List (Act κ ι)} {s s' : State κ ι} {a : Act κ ι}

/-- The file manager accepted lines that were handed to it, and the service broadcast entries of such
    lines, all in order. -/
structure Linked (s : State κ ι) : Prop where
  written  : WrittenOk s
  accepted : s.files.run.accepted.Sublist s.pipe.lines
  sent     : s.sent.Sublist (s.pipe.daemon.handed.map Logger.entryOfElem)

omit [DecidableEq κ] [DecidableEq ι] in
theorem linked_initial : Linked (State.initial b fs : State κ ι) :=
  ⟨fun h => absurd h Bool.false_ne_true, List.Sublist.refl [], List.Sublist.refl []⟩

theorem Linked.step (hL : Linked s) (h : Step site s a s') : Linked s' := by
  obtain ⟨hW, hquiet | ⟨e, d, env, hwrites⟩⟩ := step_effect hL.written h
  · refine ⟨hW, ?_, ?_⟩
    · rw [hquiet.accepted, hquiet.lines]
      exact hL.accepted
    · rw [hquiet.handed]
      exact hquiet.sent.trans hL.sent
  · refine ⟨hW, ?_, ?_⟩
    · rw [hwrites.files, accepted_write, hwrites.lines]
      refine hL.accepted.append ?_
      split
      · exact List.Sublist.refl _
      · exact List.nil_sublist _
    · rw [hwrites.sent, hwrites.handed, List.map_append]
      exact hL.sent.append (List.Sublist.refl _)

theorem linked_run (hrun : Steps (Step site) (.initial b fs) acts s) : Linked s :=
  hrun.invariant (fun _ _ _ h hL => hL.step h) linked_initial

/-- If all records are accepted, then the log has all lines. -/
theorem accepted_run (hrun : Steps (Guarded (Step site) (Stores site)) (.initial b fs) acts s) :
    s.files.run.accepted = s.pipe.lines := by
  have hinv := hrun.invariant (I := fun s => Linked s ∧ s.files.run.accepted = s.pipe.lines) ?_
    ⟨linked_initial, rfl⟩
  · exact hinv.2
  · intro s a s' h hI
    obtain ⟨hL, heq⟩ := hI
    refine ⟨hL.step h.1, ?_⟩
    obtain ⟨_, hquiet | ⟨e, d, env, hwrites⟩⟩ := step_effect hL.written h.1
    · rw [hquiet.accepted, hquiet.lines, heq]
    · rw [hwrites.files, accepted_write, hwrites.lines, heq, if_pos (h.2 _ _ hwrites.call)]

/-- The steps of the pipeline in a run. -/
def pipeActs (acts : List (Act κ ι)) : List (Pipeline.Act κ ι) := acts.filterMap Act.pipeAct

theorem pipe_run (hrun : Steps (Step site) (.initial b fs) acts s) :
    Steps (Pipeline.Step site.lib) (.initial b) (pipeActs acts) s.pipe :=
  hrun.project_labels (f := State.pipe) fun _ _ _ h => h.pipe

theorem archived_run
    (hrun : Steps (Guarded (Step site) (TidyCalls site config₀)) (.initial b fs) acts s) :
    FileManager.Archived config₀ fs s.files := by
  obtain ⟨_, hfiles⟩ := hrun.project (f := State.files) fun _ _ _ h => ⟨_, h.1.files.guarded h.2⟩
  exact FileManager.archived_run hfiles

theorem watch_run (hrun : Steps (Guarded (Step site) Calm) (.initial b fs) acts s) :
    ∃ as, Steps (Guarded (Cat.WatchStep site.catConfig site.catTime) Cat.WatchCalm) .initial as s.watch :=
  hrun.project (f := State.watch) fun _ _ _ h => ⟨_, h.1.watch.guarded h.2⟩

/-- The entries handed over, with their processes and their lines. -/
theorem log_run [Fintype ι] (hthreads : Fintype.card ι < 2 ^ 31)
    (hrun : Steps (Step site) (.initial b fs) acts s) :
    ∃ log, Pipeline.Attributed site.lib (pipeActs acts) s.pipe log ∧
      List.Forall₂ (Pipeline.LineFor site.lib (pipeActs acts)) log s.pipe.lines := by
  have hpipe := pipe_run hrun
  obtain ⟨r, hO, hM⟩ := Pipeline.matched_run hpipe
  have hQ := Pipeline.queuesOk_run hthreads hpipe
  exact ⟨r.log, hM.attributed hO hQ, hM.lines hO hQ (Pipeline.formats_run hpipe)⟩

omit [DecidableEq κ] [DecidableEq ι] in
/-- Some of the lines are those of some of the entries. -/
theorem lines_sublist {log : List (Option κ × Pipeline.Entry)} {lines kept : List (List UInt8)}
    {calls : List (Pipeline.Act κ ι)} (h : List.Forall₂ (Pipeline.LineFor site.lib calls) log lines)
    (hsub : kept.Sublist lines) :
    ∃ log', log'.Sublist log ∧ List.Forall₂ (Pipeline.LineFor site.lib calls) log' kept := by
  obtain ⟨log', hlog', hlines⟩ :=
    List.sublistForall₂_iff.mp (Pipeline.sublistForall₂_of_sublist hsub h.flip)
  exact ⟨log', hlines, hlog'.flip⟩

end runs

/-! ### Three entries -/

section hello
def helloSite : Site where
  lib := plainLibrary
  catConfig := .initial
  catTime := Cat.newYear

/-- The side conditions of all results, with the default configuration of the file manager. -/
def Favourable (s : State (Fin 2) (Fin 2)) (a : Act (Fin 2) (Fin 2)) : Prop :=
  TidyCalls helloSite FileManager.silogFileManagerGetDefaultConfig s a ∧ Stores helloSite s a ∧
    NoLoss s a ∧ Calm s a

section steps
variable {s : State (Fin 2) (Fin 2)}

/-- A step of the pipeline that writes nothing. -/
theorem step_pipe {a : Pipeline.Act (Fin 2) (Fin 2)} {p' : Pipeline.State (Fin 2) (Fin 2)}
    (hwrite : ∀ timebuf logbuf, a ≠ .write timebuf logbuf) (hnone : s.written = none)
    (h : Guarded (Pipeline.Step plainLibrary) Pipeline.Lossless s.pipe a p') :
    Guarded (Step helloSite) Favourable s (.pipe a) { s with pipe := p' } := by
  refine ⟨⟨⟨hwrite, fun _ => hnone⟩, h.1, rfl, rfl, rfl, rfl⟩, .of_none rfl, .of_none rfl, ?_, .of_none rfl⟩
  intro c hc
  cases hc
  exact h.2

/-- An entry that is skipped. -/
theorem step_skip {timebuf : Vector UInt8 32} {logbuf : Vector UInt8 512} {p' : Pipeline.State (Fin 2) (Fin 2)}
    (hnone : s.written = none) (hrecord : s.record plainLibrary timebuf logbuf = none)
    (h : Pipeline.Step plainLibrary s.pipe (.write timebuf logbuf) p') :
    Guarded (Step helloSite) Favourable s (.write timebuf logbuf FileManager.smoothWrite)
      { s with pipe := p' } := by
  have hcall : s.fileCall plainLibrary (.write timebuf logbuf FileManager.smoothWrite) = none := by
    rw [State.fileCall, hrecord]
    rfl
  refine ⟨⟨trivial, h, ?_, rfl, rfl, ?_⟩, .of_none hcall, .of_none hcall, ?_, .of_none rfl⟩
  · show Moves _ _ (s.fileCall plainLibrary _) _
    rw [hcall]
    rfl
  · show s.written = (s.record plainLibrary timebuf logbuf).map Prod.fst
    rw [hrecord, hnone]
    rfl
  · intro c hc
    cases hc
    trivial

/-- A step of `silogcat` or of the service. -/
theorem step_watch {a : Cat.WatchAct} {w' : Cat.Watch}
    (hother : ∀ e sends, a ≠ .server (.broadcast (some e) sends))
    (h : Guarded (Cat.WatchStep .initial Cat.newYear) Cat.WatchCalm s.watch a w') :
    Guarded (Step helloSite) Favourable s (.watch a) { s with watch := w' } := by
  refine ⟨⟨hother, rfl, rfl, h.1, rfl, rfl⟩, .of_none rfl, .of_none rfl, .of_none rfl, ?_⟩
  intro w hw
  cases hw
  exact h.2

theorem steps_watch {w w' : Cat.Watch} {as : List Cat.WatchAct}
    (h : Steps (Guarded (Cat.WatchStep .initial Cat.newYear) Cat.WatchCalm) w as w')
    (hother : ∀ a ∈ as, ∀ e sends, a ≠ .server (.broadcast (some e) sends)) :
    Steps (Guarded (Step helloSite) Favourable) { s with watch := w } (as.map .watch)
      { s with watch := w' } := by
  induction h with
  | nil w => exact Steps.nil _
  | cons a as hstep _ ih =>
    refine Steps.cons _ _ (step_watch (hother a List.mem_cons_self) hstep) (ih ?_)
    intro a' ha'
    exact hother a' (List.mem_cons_of_mem a ha')

end steps

/-- The file manager is ready and `silogcat` is connected, whatever the pipeline does. -/
def ready (p : Pipeline.State (Fin 2) (Fin 2)) : State (Fin 2) (Fin 2) where
  pipe := p
  files := (FileManager.LogRun.initial fun _ => none).next (.init none FileManager.smoothInit)
  watch := .run Cat.connecting
  remoteEnabled := true
  written := none

theorem ready_run : ∃ acts, Steps (Guarded (Step helloSite) Favourable)
    (.initial connectedStart fun _ => none) acts (ready (.initial connectedStart)) := by
  have hinit : Guarded (Step helloSite) Favourable
      (.initial connectedStart fun _ => none) (.files (.init none FileManager.smoothInit))
      { (ready (.initial connectedStart)) with watch := .initial, remoteEnabled := false } := by
    refine ⟨⟨fun data env h => (by cases h), rfl, rfl, rfl, rfl, rfl⟩, ?_, ?_, .of_none rfl, .of_none rfl⟩
    · intro c hc
      cases hc
      refine ⟨?_, fun env henv => (by cases henv), fun env henv => (by cases henv)⟩
      intro config env h
      cases h
      exact ⟨rfl, rfl⟩
    · intro data env hc
      cases hc
  have hremote : Guarded (Step helloSite) Favourable
      { (ready (.initial connectedStart)) with remoteEnabled := false } (.setRemote true)
      (ready (.initial connectedStart)) :=
    ⟨⟨trivial, rfl, rfl, rfl, rfl, rfl⟩, .of_none rfl, .of_none rfl, .of_none rfl, .of_none rfl⟩
  have hcalm : Steps (Guarded (Cat.WatchStep .initial Cat.newYear) Cat.WatchCalm) .initial
      Cat.connecting (.run Cat.connecting) := by
    refine Cat.connecting_run.guarded_of_forall ?_
    simp only [Cat.connecting, List.forall_mem_cons]
    refine ⟨?_, ?_, ?_, ?_, ?_, by simp⟩
    all_goals exact fun _ => trivial
  have hwatch := steps_watch (s := { (ready (.initial connectedStart)) with remoteEnabled := false }) hcalm ?_
  · exact ⟨_, Steps.cons _ _ hinit (hwatch.append (Steps.single hremote))⟩
  · simp only [Cat.connecting, List.forall_mem_cons]
    refine ⟨?_, ?_, ?_, ?_, ?_, by simp⟩
    all_goals
      intro e sends h
      cases h

/-- A record for the remote service is taken in one piece. -/
def takenWhole : ℕ → ℕ → SendResult := fun _ _ => .accepted 377

/-- The service has broadcast the entries `es`. -/
def watching (es : List LogEntry) : Cat.Watch :=
  es.foldl (fun w e => w.after .initial Cat.newYear (.server (.broadcast (some e) takenWhole)))
    (.run Cat.connecting)

theorem watching_concat (es : List LogEntry) (e : LogEntry) :
    watching (es ++ [e]) = (watching es).after .initial Cat.newYear
      (.server (.broadcast (some e) takenWhole)) := by
  simp only [watching, List.foldl_append, List.foldl_cons, List.foldl_nil]

/-- The file manager is ready, its files grow up to the default size, and the current one has at most
    `n` bytes. -/
structure Roomy (r : FileManager.LogRun) (n : ℕ) : Prop where
  initialized : r.run.sys.fm.initialized = true
  opened      : r.run.sys.fm.currentFd.isSome = true
  max         : r.run.sys.fm.config.maxFileSize = 10485760
  size        : r.run.sys.fm.currentSize.toNat ≤ n

/-- A write to the current file. -/
theorem writeRecord_roomy {sys : FileManager.System} {d : FileManager.Record}
    (hopen : sys.fm.currentFd.isSome = true) :
    (sys.writeRecord d FileManager.smoothWrite).1 = .ok ∧
    (sys.writeRecord d FileManager.smoothWrite).2.fm.initialized = sys.fm.initialized ∧
    (sys.writeRecord d FileManager.smoothWrite).2.fm.currentFd.isSome = true ∧
    (sys.writeRecord d FileManager.smoothWrite).2.fm.config = sys.fm.config ∧
    (sys.writeRecord d FileManager.smoothWrite).2.fm.currentSize = sys.fm.currentSize + d.len := by
  obtain ⟨st, hst⟩ := Option.isSome_iff_exists.mp hopen
  unfold FileManager.System.writeRecord
  rw [hst]
  dsimp only
  rw [if_neg (by decide)]
  refine ⟨rfl, ?_⟩
  unfold FileManager.System.flushAfterWrite
  split
  · exact ⟨rfl, rfl, rfl, rfl⟩
  · dsimp only
    split
    · exact ⟨rfl, rfl, rfl, rfl⟩
    · exact ⟨rfl, rfl, rfl, rfl⟩

/-- A record of at most 512 bytes does not rotate the file, and is accepted. -/
theorem Roomy.write {r : FileManager.LogRun} {n : ℕ} {d : FileManager.Record} (hR : Roomy r n)
    (hn : n ≤ 2048) (hne : d.bytes ≠ []) (hlen : d.bytes.length ≤ 512) :
    r.run.sys.rotation (.writeRaw (some d) FileManager.smoothWrite) = none ∧
    (r.run.sys.call (.writeRaw (some d) FileManager.smoothWrite)).ret = .ok ∧
    Roomy (r.next (.writeRaw (some d) FileManager.smoothWrite)) (n + 512) := by
  have hnat := d.toNat_len
  have hsize := hR.size
  have hzero : d.len ≠ 0 := by
    intro hzero
    rw [hzero] at hnat
    exact hne (List.eq_nil_of_length_eq_zero hnat.symm)
  have hsum : (r.run.sys.fm.currentSize + d.len).toNat ≤ n + 512 := by
    rw [UInt32.toNat_add, hnat]
    exact (Nat.mod_le _ _).trans (by omega)
  have hfull : ¬ r.run.sys.fm.config.maxFileSize ≤ r.run.sys.fm.currentSize + d.len := by
    rw [hR.max, UInt32.le_iff_toNat_le]
    show ¬ 10485760 ≤ _
    omega
  have hcall : r.run.sys.call (.writeRaw (some d) FileManager.smoothWrite) =
      ⟨(r.run.sys.writeRecord d FileManager.smoothWrite).1,
        (r.run.sys.writeRecord d FileManager.smoothWrite).2, none⟩ := by
    show FileManager.silogFileManagerWriteRaw _ (some d) _ = _
    unfold FileManager.silogFileManagerWriteRaw
    dsimp only
    rw [if_neg hzero, if_neg (by simp [hR.initialized, Option.isSome_iff_ne_none.mp hR.opened]),
      if_neg hfull]
  obtain ⟨hret, hinit, hopen, hconfig, hnew⟩ := writeRecord_roomy (d := d) hR.opened
  have hsys : (r.next (.writeRaw (some d) FileManager.smoothWrite)).run.sys =
      (r.run.sys.writeRecord d FileManager.smoothWrite).2 := by
    show (r.run.sys.call _).sys = _
    rw [hcall]
  refine ⟨if_neg fun h => hfull h.2.2.2, by rw [hcall]; exact hret, ?_⟩
  refine ⟨?_, ?_, ?_, ?_⟩
  · rw [hsys, hinit]
    exact hR.initialized
  · rw [hsys]
    exact hopen
  · rw [hsys, hconfig]
    exact hR.max
  · rw [hsys, hnew]
    exact hsum

/-- The system goes along with the pipeline: the file manager has the lines, and the service has
    broadcast the entries. -/
structure Follows (s : State (Fin 2) (Fin 2)) : Prop where
  written : s.written = none
  remote  : s.remoteEnabled = true
  files   : Roomy s.files (512 * s.pipe.lines.length)
  watch   : s.watch = watching (s.pipe.daemon.handed.map Logger.entryOfElem)

theorem follows_ready : Follows (ready (.initial connectedStart)) :=
  ⟨rfl, rfl, ⟨rfl, rfl, rfl, Nat.le_refl 0⟩, rfl⟩

/-- The step that writes a line: the file manager gets it, and the service the entry. -/
theorem written_run {s : State (Fin 2) (Fin 2)} {p' : Pipeline.State (Fin 2) (Fin 2)}
    {timebuf : Vector UInt8 32} {logbuf : Vector UInt8 512} {e : Pipeline.Entry}
    {d : FileManager.Record} (hF : Follows s) (hfew : s.pipe.lines.length ≤ 3) (hne : d.bytes ≠ [])
    (hrecord : s.record plainLibrary timebuf logbuf = some (Logger.entryOfElem e, d))
    (hlines : p'.lines = s.pipe.lines ++ [d.bytes])
    (hhanded : p'.daemon.handed = s.pipe.daemon.handed ++ [e])
    (h : Pipeline.Step plainLibrary s.pipe (.write timebuf logbuf) p') :
    ∃ acts s', Steps (Guarded (Step helloSite) Favourable) s acts s' ∧ s'.pipe = p' ∧ Follows s' := by
  obtain ⟨hrot, hret, hroomy⟩ := hF.files.write (by omega) hne (record_length hrecord)
  have hcall : s.fileCall plainLibrary (.write timebuf logbuf FileManager.smoothWrite) =
      some (.writeRaw (some d) FileManager.smoothWrite) := by
    rw [State.fileCall, hrecord]
    rfl
  let s₁ : State (Fin 2) (Fin 2) :=
    { s with pipe := p'
             files := s.files.next (.writeRaw (some d) FileManager.smoothWrite)
             written := some (Logger.entryOfElem e) }
  let s₂ : State (Fin 2) (Fin 2) :=
    { s₁ with written := none
              watch := s.watch.after .initial Cat.newYear
                (.server (.broadcast (some (Logger.entryOfElem e)) takenWhole)) }
  have hwrite : Guarded (Step helloSite) Favourable s
      (.write timebuf logbuf FileManager.smoothWrite) s₁ := by
    refine ⟨⟨trivial, h, ?_, rfl, rfl, ?_⟩, ?_, ?_, ?_, .of_none rfl⟩
    · show Moves _ _ (s.fileCall plainLibrary _) _
      rw [hcall]
      rfl
    · show some _ = (s.record plainLibrary timebuf logbuf).map Prod.fst
      rw [hrecord]
      rfl
    · intro c hc
      obtain rfl := Option.some.inj (hcall.symm.trans hc)
      have hnone : ∀ env', s.files.run.sys.rotation
          (.writeRaw (some d) FileManager.smoothWrite) ≠ some env' := by
        intro env' henv
        rw [hrot] at henv
        cases henv
      exact ⟨fun _ _ hc => (by cases hc), fun env' henv => absurd henv (hnone env'),
        fun env' henv => absurd henv (hnone env')⟩
    · intro data env hc
      obtain ⟨rfl, rfl⟩ := FileManager.Call.writeRaw.inj (Option.some.inj (hcall.symm.trans hc))
      exact hret
    · intro c hc
      cases hc
      trivial
  have hact : s₁.watchAct (.broadcast takenWhole) =
      some (.server (.broadcast (some (Logger.entryOfElem e)) takenWhole)) := by
    rw [State.watchAct, if_pos hF.remote]
    rfl
  have hbroadcast : Guarded (Step helloSite) Favourable s₁ (.broadcast takenWhole) s₂ := by
    refine ⟨⟨rfl, rfl, rfl, ?_, rfl, rfl⟩, .of_none rfl, .of_none rfl, .of_none rfl, ?_⟩
    · rw [hact]
      refine Cat.watchStep_after ⟨?_, rfl⟩
      intro b hb
      cases hb
      trivial
    · intro w hw
      rw [hact] at hw
      cases hw
      exact noStall_steady s₁.watch.link.server (some (Logger.entryOfElem e)) fun _ => .accepted 377
  refine ⟨_, s₂, .cons _ _ hwrite (.single hbroadcast), rfl, rfl, hF.remote, ?_, ?_⟩
  · show Roomy (s.files.next _) (512 * p'.lines.length)
    rw [hlines, List.length_append, List.length_singleton, Nat.mul_add]
    exact hroomy
  · show s.watch.after _ _ _ = watching (p'.daemon.handed.map Logger.entryOfElem)
    rw [hhanded, List.map_append, List.map_singleton, watching_concat, hF.watch]

/-- The pipeline has not come further than to the lines `lines`. -/
def Early (lines : List (List UInt8)) (p : Pipeline.State (Fin 2) (Fin 2)) : Prop := p.lines <+: lines

/-- The system goes along with the pipeline, as long as that has not come further. -/
def Along (lines : List (List UInt8)) (p : Pipeline.State (Fin 2) (Fin 2)) (s : State (Fin 2) (Fin 2)) :
    Prop := Early lines p → s.pipe = p ∧ Follows s

theorem Along.step {lines : List (List UInt8)} (hfew : lines.length ≤ 3) (hne : ∀ line ∈ lines, line ≠ [])
    {p p' : Pipeline.State (Fin 2) (Fin 2)} {s : State (Fin 2) (Fin 2)}
    {a : Pipeline.Act (Fin 2) (Fin 2)}
    (h : Guarded (Pipeline.Step plainLibrary) Pipeline.Lossless p a p') (hA : Along lines p s) :
    ∃ acts s', Steps (Guarded (Step helloSite) Favourable) s acts s' ∧ Along lines p' s' := by
  by_cases hearly' : Early lines p'
  · have hwrite : (∃ timebuf logbuf, a = .write timebuf logbuf) ∨
        ∀ timebuf logbuf, a ≠ .write timebuf logbuf := by
      cases a with
      | write timebuf logbuf => exact Or.inl ⟨timebuf, logbuf, rfl⟩
      | _ => exact Or.inr fun _ _ h => (by cases h)
    obtain ⟨timebuf, logbuf, rfl⟩ | hquiet := hwrite
    · -- the lines and entries of the state that goes along are those of the pipeline
      have hlines : p.lines <+: p'.lines := by
        obtain ⟨_, _, ⟨_, hlines, _⟩ | ⟨_, d, _, hlines, _⟩⟩ :=
          write_step (s := { s with pipe := p }) h.1
        · exact hlines ▸ List.prefix_refl _
        · exact hlines ▸ List.prefix_append _ _
      obtain ⟨rfl, hF⟩ := hA (hlines.trans hearly')
      obtain ⟨_, _, ⟨hrecord, hlines, hhanded⟩ | ⟨e, d, hrecord, hlines, hhanded⟩⟩ := write_step h.1
      · refine ⟨_, _, .single (step_skip hF.written hrecord h.1), fun _ => ⟨rfl, ?_⟩⟩
        exact ⟨hF.written, hF.remote, hlines.symm ▸ hF.files, hhanded.symm ▸ hF.watch⟩
      · have hlen := hearly'.length_le
        rw [hlines, List.length_append, List.length_singleton] at hlen
        have hmem : d.bytes ∈ lines :=
          hearly'.subset (by rw [hlines]; exact List.mem_append_right _ List.mem_cons_self)
        obtain ⟨acts, s', hrun, hpipe, hF'⟩ :=
          written_run hF (by omega) (hne _ hmem) hrecord hlines hhanded h.1
        exact ⟨acts, s', hrun, fun _ => ⟨hpipe, hF'⟩⟩
    · obtain ⟨hlines, hhanded, _⟩ := pipe_step h.1 hquiet
      have hearly : Early lines p := by
        unfold Early at hearly' ⊢
        rwa [hlines] at hearly'
      obtain ⟨rfl, hF⟩ := hA hearly
      refine ⟨_, _, .single (step_pipe hquiet hF.written h), fun _ => ⟨rfl, ?_⟩⟩
      exact ⟨hF.written, hF.remote, hlines.symm ▸ hF.files, hhanded.symm ▸ hF.watch⟩
  · -- the run has left the part that is of interest
    exact ⟨[], s, .nil s, fun h => absurd h hearly'⟩

def broadcastThree : Cat.Watch := watching [helloEntry 9, helloEntry 1, helloEntry 2]

/-- `silogcat` receives the first record. -/
def receiveFirst : Cat.WatchAct := .receive (.ready (.data (entryBytes (helloEntry 9))))

def received : Cat.Watch := broadcastThree.after .initial Cat.newYear receiveFirst

theorem receive_first : Guarded (Cat.WatchStep .initial Cat.newYear) Cat.WatchCalm broadcastThree
      receiveFirst received ∧
    (Cat.Item.lines received.out).length = 1 := by
  have hboth : Cat.WatchOk .initial Cat.newYear broadcastThree receiveFirst ∧
      (Cat.Item.lines received.out).length = 1 := by decide +kernel
  exact ⟨⟨Cat.watchStep_after hboth.1, trivial⟩, hboth.2⟩

/-- The entries come to the log, and the first one to the screen. -/
theorem hello_run : ∃ acts s, Steps (Guarded (Step helloSite) Favourable)
      (State.initial connectedStart fun _ => none) acts s ∧
    s.pipe.lines.length = 3 ∧
    (∀ p, (s.pipe.apps p).queue.2.popped = [helloElem (pidOf p)] ∧ s.pipe.onTheWay p = []) ∧
    (Cat.Item.lines s.watch.out).length = 1 := by
  obtain ⟨_, p, hpipe, happs, hhanded, l₀, l₁, l₂, hlines, hne₀, hne₁, hne₂⟩ := Pipeline.hello_run
  have hne : ∀ line ∈ p.lines, line ≠ [] := by
    rw [hlines]
    simp [hne₀, hne₁, hne₂]
  obtain ⟨_, hready⟩ := ready_run
  obtain ⟨_, s, hsteps, hA⟩ := hpipe.simulate (r := Along p.lines)
    (fun q a q' s h hA => hA.step (by rw [hlines]; rfl) hne h) (fun _ => ⟨rfl, follows_ready⟩)
  obtain ⟨rfl, hF⟩ := hA (List.prefix_refl _)
  have hwatch : s.watch = broadcastThree := by
    rw [hF.watch, hhanded]
    simp only [List.map_cons, List.map_nil, Pipeline.entryOfElem_hello]
    rfl
  have hreceive := step_watch (s := s) (a := receiveFirst) (fun e sends h => (by cases h))
    (hwatch ▸ receive_first.1)
  exact ⟨_, _, (hready.append hsteps).append (.single hreceive), by rw [hlines]; rfl, happs,
    receive_first.2⟩

end hello

/-! ## Section 3: From one end to the other -/

section results
variable {κ ι : Type*} [DecidableEq κ] [DecidableEq ι] [Fintype ι] {site : Site}
  {config₀ : FileManager.SilogLogFileConfig} {b : Pipeline.Start κ}
  {fs : Files.Fs FileManager.Str UInt8} {acts : List (Act κ ι)} {s : State κ ι}

end results

end SiLog.EndToEnd
