import SiLog.Pipeline.Order
import SiLog.Pipeline.Passage
import SiLog.Mpsc.Delivery

/-! # What reaches the log file

    In every run the entries that the daemon hands to the file manager come
    from the processes, each of them from one call of `silogLog` and those of
    one process in the order of their queue, or from other programs.  As long
    as no entry is lost, what a process has queued is written or on the way.
    And the lines of the processes are whole.
-/

open Lts Printf SiLog.Securec SiLog.Ipc SiLog.Daemon

namespace SiLog.Pipeline

/-! ## Section 1: The entry of a message -/

/-- The entry with the text `t`. -/
def Message.entry (m : Message) (t : List UInt8) : LogEntry where
  ts := m.env.now
  pid := m.env.pid
  tid := m.env.tid
  level := m.level
  tag := Logger.textField tagMaxLen m.tag
  file := Logger.textField fileMaxLen m.file
  line := m.line
  msg := Logger.textField msgMaxLen t
  msgLen := UInt16.ofNat t.length
  enabled := 1

theorem buildEntry_eq_ok {convert : Conversion → List Arg → Option (List UInt8)} {m : Message}
    {entry : LogEntry} (h : Logger.silogBuildEntry convert m.env m.level m.tag m.file m.line m.fmt
      [] = some (.ok entry)) : ∃ t, vprintf convert m.fmt [] = .text t ∧ entry = m.entry t := by
  unfold Logger.silogBuildEntry at h
  obtain ⟨⟨n, t⟩, hprint, hentry⟩ := Option.map_eq_some_iff.mp h
  dsimp only at hentry
  split at hentry
  · cases hentry
  next hn =>
    obtain ⟨htext, _, rfl⟩ := Logger.vprintf_of_vsnprintf hprint (Int.not_lt.mp hn)
    refine ⟨t, htext, ?_⟩
    by_cases htag : m.tag.length ≤ Logger.intMax
    · by_cases hfile : m.file.length ≤ Logger.intMax
      · simp only [Logger.snprintfString, if_pos htag, if_pos hfile] at hentry
        rw [← Except.ok.inj hentry]
        rfl
      · simp only [Logger.snprintfString, if_pos htag, if_neg hfile] at hentry
        cases hentry
    · simp only [Logger.snprintfString, if_neg htag] at hentry
      cases hentry

theorem built_eq_some {lib : CLibrary} {minLevel : UInt32} {m : Message} {entry : LogEntry}
    (h : lib.built minLevel m = some entry) :
    ∃ t, vprintf lib.convert m.fmt [] = .text t ∧ entry = m.entry t := by
  unfold CLibrary.built at h
  split at h
  · cases h
  · split at h
    next built hbuild =>
      rw [← Option.some.inj h]
      exact buildEntry_eq_ok hbuild
    · cases h

/-- The element of the entry of a message; `none` if its text cannot be formatted without
    arguments. -/
def Message.elem (lib : CLibrary) (m : Message) : Option Entry :=
  match vprintf lib.convert m.fmt [] with
  | .text t => some (Logger.entryElem (m.entry t))
  | _ => none

theorem elem_eq_some {lib : CLibrary} {m : Message} {e : Entry} (h : m.elem lib = some e) :
    ∃ t, vprintf lib.convert m.fmt [] = .text t ∧ e = Logger.entryElem (m.entry t) := by
  unfold Message.elem at h
  split at h
  next t htext => exact ⟨t, htext, (Option.some.inj h).symm⟩
  · cases h

theorem elem_of_built {lib : CLibrary} {minLevel : UInt32} {m : Message} {entry : LogEntry}
    (h : lib.built minLevel m = some entry) : m.elem lib = some (Logger.entryElem entry) := by
  obtain ⟨t, htext, rfl⟩ := built_eq_some h
  rw [Message.elem, htext]

/-! ## Section 2: What a process pushes -/

section app
variable {κ ι : Type*} [DecidableEq κ]

/-- The entries of the messages given to `silogLog` in process `p` in the steps `acts`. -/
def calls (lib : CLibrary) (acts : List (Act κ ι)) (p : κ) : List Entry :=
  acts.filterMap fun
    | .silogLog q _ m => if q = p then m.elem lib else none
    | _ => none

@[simp] theorem calls_nil (lib : CLibrary) (p : κ) : calls lib ([] : List (Act κ ι)) p = [] := rfl

@[simp] theorem calls_append (lib : CLibrary) (acts acts' : List (Act κ ι)) (p : κ) :
    calls lib (acts ++ acts') p = calls lib acts p ++ calls lib acts' p := List.filterMap_append

theorem calls_silogLog {lib : CLibrary} {p : κ} {t : ι} {m : Message} {e : Entry}
    (h : m.elem lib = some e) : calls lib [.silogLog p t m] p = [e] := by
  simp [calls, h]

/-- An entry of `calls` has its message. -/
theorem mem_calls {lib : CLibrary} {acts : List (Act κ ι)} {p : κ} {e : Entry}
    (h : e ∈ calls lib acts p) : ∃ t m, .silogLog p t m ∈ acts ∧ m.elem lib = some e := by
  obtain ⟨a, ha, he⟩ := List.mem_filterMap.mp h
  cases a with
  | silogLog q t m =>
    have hentry : (if q = p then m.elem lib else none) = some e := he
    obtain ⟨rfl, helem⟩ := Option.ite_none_right_eq_some.mp hentry
    exact ⟨t, m, ha, helem⟩
  | _ => cases he

variable [DecidableEq ι]

/-- A step leaves the queue of a process alone or is a step of it, in which nothing else is pushed
    than the entry of a message given to `silogLog`. -/
theorem queue_step {lib : CLibrary} {s s' : State κ ι} {a : Act κ ι} (h : Step lib s a s') (p : κ) :
    (s'.apps p).queue = (s.apps p).queue ∨
    ∃ b, Mpsc.Step (s.apps p).queue b (s'.apps p).queue ∧ calls lib [a] p = b.called := by
  -- only process `q` takes a step
  have hother : ∀ (q : κ) (app : App ι), (app.queue = (s.apps q).queue ∨
      ∃ b, Mpsc.Step (s.apps q).queue b app.queue ∧ calls lib [a] q = b.called) →
      ((s.setApp q app).apps p).queue = (s.apps p).queue ∨
      ∃ b, Mpsc.Step (s.apps p).queue b ((s.setApp q app).apps p).queue ∧
        calls lib [a] p = b.called := by
    intro q app happ
    by_cases hp : p = q
    · subst hp
      simpa only [State.setApp, Function.update_self] using happ
    · simp only [State.setApp, Function.update_of_ne hp]
      exact Or.inl trivial
  unfold Step at h
  cases a with
  | silogLog q t m =>
    obtain ⟨entry, hbuilt, hpush⟩ := Option.bind_eq_some_iff.mp h
    obtain ⟨queue, hq, rfl⟩ := Option.map_eq_some_iff.mp hpush
    exact hother q _ (Or.inr ⟨_, Mpsc.step_of_next _ _ _ hq, calls_silogLog (elem_of_built hbuilt)⟩)
  | push q a =>
    simp only [step] at h
    split at h
    next hin =>
      obtain ⟨queue, hq, rfl⟩ := Option.map_eq_some_iff.mp h
      refine hother q _ (Or.inr ⟨a, Mpsc.step_of_next _ _ _ hq, ?_⟩)
      cases a with
      | fetchAdd => cases hin
      | _ => rfl
    · cases h
  | setLevel q level =>
    cases h
    exact hother q _ (Or.inl rfl)
  | pop q a =>
    obtain ⟨queue, hq, hafter⟩ := Option.bind_eq_some_iff.mp h
    obtain ⟨send, hsend, rfl⟩ := Option.map_eq_some_iff.mp hafter
    refine hother q _ (Or.inr ⟨a, Mpsc.step_of_next _ _ _ hq, ?_⟩)
    cases a with
    | fetchAdd =>
      -- no step of `Pop` is one of `Push`
      cases hpc : (s.apps q).send <;> rw [hpc] at hsend <;> cases hsend
    | _ => rfl
  | send q env =>
    simp only [step] at h
    split at h
    · cases h
      exact hother q _ (Or.inl rfl)
    · cases h
  | inject d =>
    cases h
    exact Or.inl rfl
  | socketEvent e =>
    cases h
    exact Or.inl rfl
  | recvStart env =>
    obtain ⟨_, _, rfl⟩ := Option.map_eq_some_iff.mp h
    exact Or.inl rfl
  | recv ok =>
    simp only [step] at h
    split at h
    · split at h
      · cases h
        exact Or.inl rfl
      · obtain ⟨_, _, rfl⟩ := Option.map_eq_some_iff.mp h
        exact Or.inl rfl
    · cases h
  | recvPushStart =>
    obtain ⟨_, _, hpush⟩ := Option.bind_eq_some_iff.mp h
    obtain ⟨_, _, rfl⟩ := Option.map_eq_some_iff.mp hpush
    exact Or.inl rfl
  | recvPush a =>
    simp only [step] at h
    split at h
    · obtain ⟨_, _, rfl⟩ := Option.map_eq_some_iff.mp h
      exact Or.inl rfl
    · cases h
  | recvClose =>
    obtain ⟨_, _, rfl⟩ := Option.map_eq_some_iff.mp h
    exact Or.inl rfl
  | other a =>
    simp only [step] at h
    split at h
    · obtain ⟨_, _, rfl⟩ := Option.map_eq_some_iff.mp h
      exact Or.inl rfl
    · cases h
  | write timebuf logbuf =>
    simp only [step] at h
    split at h
    · obtain ⟨_, _, hformat⟩ := Option.bind_eq_some_iff.mp h
      obtain ⟨_, _, rfl⟩ := Option.map_eq_some_iff.mp hformat
      exact Or.inl rfl
    · cases h

variable [Fintype ι]

/-- The queue of a process works, and the elements in it are brought by calls with the entries `es`,
    each by one of them. -/
structure QueueOk (es : List Entry) (c : Mpsc.Config ι logEntrySize) : Prop where
  few     : Mpsc.FewInv c
  offered : Mpsc.offered c ≤ (es : Multiset Entry)

theorem QueueOk.step {es : List Entry} {c c' : Mpsc.Config ι logEntrySize}
    {a : Mpsc.Act ι logEntrySize} (hQ : QueueOk es c) (h : Mpsc.Step c a c') :
    QueueOk (es ++ a.called) c' := by
  refine ⟨hQ.few.step h, ?_⟩
  rw [← Multiset.coe_add]
  exact (Mpsc.offered_step h).trans (add_le_add_left hQ.offered _)

omit [DecidableEq ι] in
theorem queueOk_init (hthreads : Fintype.card ι < 2 ^ 31) (mem : UInt32 → Entry) :
    QueueOk [] (Mpsc.initConfig (freshQueue Logger.logEntryQueueCapacity mem) :
      Mpsc.Config ι logEntrySize) := by
  refine ⟨Mpsc.fewInv_init (freshQueue_init mem).1 (by decide) ?_, ?_⟩
  · have hcap : Logger.logEntryQueueCapacity.toNat = 1024 := rfl
    omega
  · rw [Mpsc.offered_init]
    exact Multiset.zero_le _

/-- The queues of all processes work, and hold what was given to `silogLog` in the steps `acts`. -/
def QueuesOk (lib : CLibrary) (acts : List (Act κ ι)) (s : State κ ι) : Prop :=
  ∀ p, QueueOk (calls lib acts p) (s.apps p).queue

omit [DecidableEq ι] in
theorem queuesOk_initial (lib : CLibrary) (hthreads : Fintype.card ι < 2 ^ 31) (b : Start κ) :
    QueuesOk lib [] (State.initial b : State κ ι) := fun p => queueOk_init hthreads (b.appMem p)

theorem QueuesOk.step {lib : CLibrary} {acts : List (Act κ ι)} {s s' : State κ ι} {a : Act κ ι}
    (hQ : QueuesOk lib acts s) (h : Step lib s a s') : QueuesOk lib (acts ++ [a]) s' := by
  intro p
  rw [calls_append]
  obtain hsame | ⟨b, hb, hcalled⟩ := queue_step h p
  · rw [hsame]
    refine ⟨(hQ p).few, (hQ p).offered.trans ?_⟩
    rw [← Multiset.coe_add]
    exact Multiset.le_add_right _ _
  · rw [hcalled]
    exact (hQ p).step hb

theorem queuesOk_run {lib : CLibrary} {b : Start κ} {acts : List (Act κ ι)} {s : State κ ι}
    (hthreads : Fintype.card ι < 2 ^ 31) (hrun : Steps (Step lib) (.initial b) acts s) :
    QueuesOk lib acts s :=
  hrun.invariant_labels (fun _ _ _ _ h hQ => hQ.step h) (queuesOk_initial lib hthreads b)

omit [DecidableEq ι] in
/-- Each element that left the queue is that of a call. -/
theorem QueueOk.popped_subperm {es : List Entry} {c : Mpsc.Config ι logEntrySize} (hQ : QueueOk es c) :
    c.2.popped.Subperm es := Multiset.coe_le.mp (hQ.few.inv.popped_le.trans hQ.offered)

omit [DecidableEq ι] in
/-- An entry that left the queue of a process has its message. -/
theorem QueuesOk.message {lib : CLibrary} {acts : List (Act κ ι)} {s : State κ ι} {p : κ} {e : Entry}
    (hQ : QueuesOk lib acts s) (he : e ∈ (s.apps p).queue.2.popped) :
    ∃ t m, .silogLog p t m ∈ acts ∧ m.elem lib = some e :=
  mem_calls ((hQ p).popped_subperm.subset he)

end app

/-! ## Section 3: The line of a message -/

/-- What is left of a text in an array with room for `k` characters. -/
def shown (k : ℕ) (t : List UInt8) : List UInt8 := (t.take k).takeWhile (· ≠ 0)

theorem cString_textField (k : ℕ) (t : List UInt8) :
    cString (Logger.textField (k + 1) t).toList = some (shown k t) := by
  have hlen : (t.take k).length ≤ k := List.length_take_le k t
  have hnul : t.take k ++ [0] <+: (Logger.textField (k + 1) t).toList := by
    refine ⟨List.replicate (k - (t.take k).length) 0, ?_⟩
    rw [Logger.toList_textField, List.append_assoc, List.singleton_append, ← List.replicate_succ]
    congr 2
    omega
  exact cString_eq hnul

/-- The time as `SilogFormatWallClockMs` puts it into the buffer. -/
def TimeOf (lib : CLibrary) (now : UInt64) (time : List UInt8) : Prop :=
  ∃ (timebuf : Vector UInt8 32) (timebuf' : List UInt8),
    Line.silogFormatWallClockMs lib.localtimeR now (some timebuf.toList) Line.timeBufSize =
      some (some timebuf') ∧ cString timebuf' = some time

/-- `line` is the whole line of the entry `e` of the message `m`. -/
def LineOf (lib : CLibrary) (m : Message) (e : Entry) (line : List UInt8) : Prop :=
  ∃ t time, vprintf lib.convert m.fmt [] = .text t ∧ e = Logger.entryElem (m.entry t) ∧
    TimeOf lib m.env.now time ∧
    line = Line.lineText time (shown 31 m.tag) (shown 63 m.file) (shown 255 t) (m.entry t) ∧
    line.length ≤ 511 ∧ line.getLast? = some 10 ∧ 0 ∉ line

/-- The write thread makes a line of the entry of a message. -/
theorem format_message {lib : CLibrary} {m : Message} {t : List UInt8}
    (htext : vprintf lib.convert m.fmt [] = .text t) (timebuf : Vector UInt8 32)
    (logbuf : Vector UInt8 512) :
    ∃ line, Line.silogDaemonWriteThreadFormat lib.localtimeR (m.entry t) timebuf.toList logbuf.toList =
      some (some line) ∧ LineOf lib m (Logger.entryElem (m.entry t)) line := by
  have htag : cString (m.entry t).tag.toList = some (shown 31 m.tag) := cString_textField 31 m.tag
  have hfile : cString (m.entry t).file.toList = some (shown 63 m.file) :=
    cString_textField 63 m.file
  have hmsg : cString (m.entry t).msg.toList = some (shown 255 t) := cString_textField 255 t
  obtain ⟨timebuf', time, htime, htimelen, htime'⟩ :=
    Line.formatWallClockMs_cString lib.localtimeR (m.entry t).ts timebuf.length_toList
  have hlen := Line.length_lineText_of_cString htime' htimelen htag hfile hmsg
  have hzero : 0 ∉ Line.lineText time (shown 31 m.tag) (shown 63 m.file) (shown 255 t) (m.entry t) :=
    Line.zero_notMem_lineText (cString_eq_some htime').2 (cString_eq_some htag).2
      (cString_eq_some hfile).2 (cString_eq_some hmsg).2
  exact ⟨_, Line.format_eq htime htime' htag hfile hmsg logbuf.length_toList hlen, t, time, htext, rfl,
    ⟨timebuf, timebuf', htime, htime'⟩, rfl, hlen, Line.getLast_lineText, hzero⟩

/-- What the write thread makes of the entry of a message: its whole line, and nothing else. -/
theorem formats_elem {lib : CLibrary} {m : Message} {e : Entry} (he : m.elem lib = some e)
    {r : Option (List UInt8)} (h : Formats lib e r) : ∃ line, r = some line ∧ LineOf lib m e line := by
  obtain ⟨t, htext, rfl⟩ := elem_eq_some he
  obtain ⟨timebuf, logbuf, hformat⟩ := h
  rw [Logger.entryOfElem_entryElem] at hformat
  obtain ⟨line, hline, hof⟩ := format_message htext timebuf logbuf
  rw [hline] at hformat
  cases hformat
  exact ⟨line, rfl, hof⟩

/-! ## Section 4: Runs -/

/-- The `k`-th entry that left the queue is `e`, and one call of `Push` brought it there. -/
def Delivers {ι : Type*} (c : Mpsc.Config ι logEntrySize) (k : ℕ) (e : Entry) : Prop :=
  c.2.popped[k]? = some e ∧ ∃ j, c.2.accepted[j]? = some (k, e) ∧
    ∀ (i : ℕ) (x : ℕ × Entry), c.2.accepted[i]? = some x → x.1 = k → i = j

/-- The entries `es` left the queue in this order. -/
def LeftInOrder {ι : Type*} (c : Mpsc.Config ι logEntrySize) (es : List Entry) : Prop :=
  ∃ ks : List ℕ, ks.Pairwise (· < ·) ∧ List.Forall₂ (Delivers c) ks es

/-- The elements of a sublist are matched with the elements of a sublist. -/
theorem sublistForall₂_of_sublist {α β : Type*} {R : α → β → Prop} {l l₁ : List α} {l₂ : List β}
    (h : l.Sublist l₁) (hR : List.Forall₂ R l₁ l₂) : List.SublistForall₂ R l l₂ := by
  induction h generalizing l₂ with
  | slnil => exact .nil
  | cons a _ ih =>
    obtain _ | ⟨_, hrest⟩ := hR
    exact .cons_right (ih hrest)
  | cons_cons a _ ih =>
    obtain _ | ⟨ha, hrest⟩ := hR
    exact .cons ha (ih hrest)

theorem leftInOrder_of_sublist {ι : Type*} {c : Mpsc.Config ι logEntrySize} (hD : Mpsc.Delivery c)
    {es : List Entry} (hes : es.Sublist c.2.popped) : LeftInOrder c es := by
  have hfst : c.2.popped = (c.2.popped.zipIdx).map Prod.fst := (List.zipIdx_map_fst 0 _).symm
  rw [hfst] at hes
  obtain ⟨xs, hxs, rfl⟩ := List.sublist_map_iff.mp hes
  refine ⟨xs.map Prod.snd, ?_, ?_⟩
  · have hrange : (c.2.popped.zipIdx.map Prod.snd).Pairwise (· < ·) := by
      rw [List.zipIdx_map_snd]
      exact List.pairwise_lt_range'
    exact hrange.sublist (hxs.map Prod.snd)
  · have hat : ∀ x ∈ xs, Delivers c x.2 x.1 := by
      intro x hx
      have hpopped : c.2.popped[x.2]? = some x.1 :=
        List.mem_zipIdx_iff_getElem?.mp (hxs.subset hx)
      obtain ⟨hlt, _⟩ := List.getElem?_eq_some_iff.mp hpopped
      obtain ⟨j, ⟨e, he, hj⟩, huniq⟩ := hD.source x.2 hlt
      rw [hpopped] at he
      cases he
      exact ⟨hpopped, j, hj, huniq⟩
    rw [List.forall₂_map_left_iff, List.forall₂_map_right_iff, List.forall₂_same]
    exact hat

section runs
variable {κ ι : Type*} [DecidableEq κ] [DecidableEq ι]

/-- `log` are the entries handed to the file manager in the run `acts`, each with the process that it
    comes from or with `none` for another program. -/
structure Attributed (lib : CLibrary) (acts : List (Act κ ι)) (s : State κ ι)
    (log : List (Option κ × Entry)) : Prop where
  handed  : log.map Prod.snd = s.daemon.handed
  /-- The entries of a process come from calls of `Push`, each from one call, in order. -/
  own     : ∀ p, LeftInOrder (s.apps p).queue (Relay.lane (some p) log)
  /-- They are entries of messages given to `silogLog`, and none is there more often than it was
      given. -/
  logged  : ∀ p, (Relay.lane (some p) log).Subperm (calls lib acts p)
  /-- The others were read from datagrams of other programs, each from one, in order. -/
  foreign : List.SublistForall₂ Read (Relay.lane none log) s.injected

/-- The entries that the sending thread of `p` or the daemon has, or that are in the socket. -/
def State.onTheWay (s : State κ ι) (p : κ) : List Entry :=
  s.daemon.write.pending ++ queued s.daemon.queue ++ s.held.toList ++ s.socket.map elemOfBytes ++
    (s.apps p).send.pending

/-- The system and a relay with the same entries. -/
def Matched (s : State κ ι) (r : Relay.State (Option κ) Entry) : Prop :=
  Inv s ∧ ∃ g, Rel s.view g r

omit [DecidableEq ι] in
theorem matched_initial (b : Start κ) :
    Matched (State.initial b : State κ ι) Relay.State.initial := by
  refine ⟨inv_initial b, ⟨[], [], [], []⟩, rfl, rfl, rfl, rfl, rfl, ?_, fun _ => rfl, [], ?_, .nil⟩
  · intro src
    cases src with
    | none => rfl
    | some p => rfl
  · exact List.nil_sublist _

/-- The relay answers every step of the system. -/
theorem Matched.step {lib : CLibrary} {s s' : State κ ι} {a : Act κ ι}
    {r : Relay.State (Option κ) Entry} (hM : Matched s r) (h : Step lib s a s') :
    ∃ acts r', Steps Relay.Step r acts r' ∧ Matched s' r' ∧
      (Lossless s a → (∀ p, ∀ e ∈ r.transit (some p), ¬ Formats lib e none) →
        ∀ x ∈ acts, x.Spares fun src => src.isSome) := by
  obtain ⟨hI, g, hR⟩ := hM
  obtain ⟨hI', hsame | ⟨kept, hmove, hkept⟩⟩ := step_moved hI h
  · exact ⟨[], r, .nil r, ⟨hI', g, hsame ▸ hR⟩, nofun⟩
  · obtain ⟨g', acts, r', hsteps, hR', hspares⟩ := hR.answer hmove
    exact ⟨acts, r', hsteps, ⟨hI', g', hR'⟩, fun hless => hspares (hkept hless)⟩

omit [DecidableEq ι] in
theorem Matched.attributed [Fintype ι] {lib : CLibrary} {acts : List (Act κ ι)} {s : State κ ι}
    {r : Relay.State (Option κ) Entry} (hM : Matched s r) (hO : Relay.InOrder r)
    (hQ : QueuesOk lib acts s) : Attributed lib acts s r.log := by
  obtain ⟨_, g, hR⟩ := hM
  obtain ⟨ds, hds, hread⟩ := hR.foreign
  have hpopped : ∀ p, (Relay.lane (some p) r.log).Sublist (s.apps p).queue.2.popped := by
    intro p
    have hsub := hO.log (some p)
    rwa [hR.submitted p] at hsub
  refine ⟨hR.log, fun p => leftInOrder_of_sublist (hQ p).few.inv.delivery (hpopped p),
    fun p => (hpopped p).subperm.trans (hQ p).popped_subperm, ?_⟩
  · obtain ⟨es, hes, hsub⟩ :=
      List.sublistForall₂_iff.mp (sublistForall₂_of_sublist (hO.log none) hread)
    exact List.sublistForall₂_iff.mpr
      ⟨es, hes, hsub.trans ((List.sublist_append_left _ _).trans hds)⟩

/-- The C library for the witnesses. -/
def plainLibrary : CLibrary where
  convert := convertPlain
  localtimeR := fun _ => some { year := 70, mon := 0, mday := 1, hour := 0, min := 0, sec := 0 }

/-- Two processes, connected to the socket that the daemon will bind. -/
def connectedStart : Start (Fin 2) where
  appMem := fun _ _ _ => 0
  daemonMem := fun _ _ => 0
  entry := Vector.replicate _ 0
  minLevel := fun _ => 1
  agents := fun _ => { isInit := true, sendFd := 3, recvFd := -1 }
  peers := fun _ _ => some 0
  daemons := { live := [], path := none, next := 0 }
  agent := .initial

def helloMessage (pid : Int32) : Message where
  level := 1
  tag := ascii "APP"
  file := ascii "main.c"
  line := 7
  fmt := ascii "hello"
  env := { now := 0, pid := pid, tid := 1 }

/-- The entry of the message. -/
def helloElem (pid : Int32) : Entry :=
  Logger.entryElem ((helloMessage pid).entry (ascii "hello"))

/-- A text in an array, and zeros. -/
def filled (k : ℕ) (t : List UInt8) (h : t.length ≤ k) : Vector UInt8 k where
  toArray := ⟨t ++ List.replicate (k - t.length) 0⟩
  size_toArray := by
    rw [List.size_toArray, List.length_append, List.length_replicate]
    omega

theorem textField_filled {k : ℕ} {t : List UInt8} (h : t.length ≤ k) :
    Logger.textField (k + 1) t = filled (k + 1) t (by omega) := by
  apply Vector.toList_inj.mp
  rw [Logger.toList_textField, List.take_of_length_le h]
  rfl

/-- The same entry with its arrays spelt out. -/
def helloEntry (pid : Int32) : LogEntry where
  ts := 0
  pid := pid
  tid := 1
  level := 1
  tag := filled _ (ascii "APP") (by decide)
  file := filled _ (ascii "main.c") (by decide)
  line := 7
  msg := filled _ (ascii "hello") (by decide)
  msgLen := 5
  enabled := 1

theorem entry_hello (pid : Int32) : (helloMessage pid).entry (ascii "hello") = helloEntry pid := by
  have htag : Logger.textField tagMaxLen (ascii "APP") = (helloEntry pid).tag :=
    textField_filled (by decide)
  have hfile : Logger.textField fileMaxLen (ascii "main.c") = (helloEntry pid).file :=
    textField_filled (by decide)
  have hmsg : Logger.textField msgMaxLen (ascii "hello") = (helloEntry pid).msg :=
    textField_filled (by decide)
  unfold Message.entry helloMessage
  rw [htag, hfile, hmsg]
  rfl

theorem ofFn_hello (pid : Int32) : List.ofFn (helloElem pid) = Logger.entryBytes (helloEntry pid) := by
  rw [helloElem, Logger.ofFn_entryElem, entry_hello]

theorem entryOfElem_hello (pid : Int32) : Logger.entryOfElem (helloElem pid) = helloEntry pid := by
  rw [helloElem, Logger.entryOfElem_entryElem, entry_hello]

/-- The process with index `p` has the pid `p + 1`. -/
def pidOf (p : Fin 2) : Int32 := Int32.ofNat (p.val + 1)

/-- Another program sends an entry without the padding behind its last field. -/
def strayDatagram : List UInt8 := (List.ofFn (helloElem 9)).take 380

theorem built_hello (pid : Int32) : plainLibrary.built 1 (helloMessage pid) =
    some ((helloMessage pid).entry (ascii "hello")) := rfl

/-- The buffer of the receive thread has zeros where the padding was. -/
theorem ofFn_stray : List.ofFn (helloElem 9) = strayDatagram.take logEntrySize ++
    connectedStart.entry.toList.drop (strayDatagram.take logEntrySize).length := by
  unfold strayDatagram
  rw [ofFn_hello]
  decide +kernel

theorem stray_ne_nil : strayDatagram ≠ [] := by
  unfold strayDatagram
  rw [ofFn_hello]
  decide +kernel

/-- The line of the entry is not empty. -/
theorem format_hello (pid : Int32) : ∃ line, line ≠ [] ∧
    Line.silogDaemonWriteThreadFormat plainLibrary.localtimeR (Logger.entryOfElem (helloElem pid))
      (Vector.replicate 32 0).toList (Vector.replicate 512 0).toList = some (some line) := by
  obtain ⟨line, hline, _, _, _, _, _, _, _, hlast, _⟩ :=
    @format_message plainLibrary (helloMessage pid) (ascii "hello") rfl
      (Vector.replicate 32 0) (Vector.replicate 512 0)
  refine ⟨line, ?_, ?_⟩
  · intro hnil
    rw [hnil] at hlast
    cases hlast
  · rw [entryOfElem_hello, ← entry_hello]
    exact hline

theorem connected_start (p : Fin 2) :
    Connected ((State.up (State.initial connectedStart : State (Fin 2) (Fin 2)) 4).apps p) 0 :=
  ⟨rfl, rests_init (freshQueue_init _).1, rfl, Int.natCast_nonneg 3, rfl⟩

omit [DecidableEq κ] [DecidableEq ι] in
theorem Waits.onTheWay {s : State κ ι} {k : ℕ} (hW : Waits s k) {p : κ}
    (hC : Connected (s.apps p) k) : s.onTheWay p = [] := by
  simp [State.onTheWay, hW.write, hW.empty, hW.held, hW.socket, hC.send, SendPc.pending,
    Shutdown.WritePc.pending]

/-- A datagram of another program and the messages of both processes get through. -/
theorem hello_run : ∃ acts s,
    Steps (Guarded (Step plainLibrary) Lossless)
      (State.initial connectedStart : State (Fin 2) (Fin 2)) acts s ∧
    (∀ p, (s.apps p).queue.2.popped = [helloElem (pidOf p)] ∧ s.onTheWay p = []) ∧
    s.daemon.handed = [helloElem 9, helloElem 1, helloElem 2] ∧
    ∃ l₀ l₁ l₂, s.lines = [l₀, l₁, l₂] ∧ l₀ ≠ [] ∧ l₁ ≠ [] ∧ l₂ ≠ [] := by
  obtain ⟨l₀, hne₀, hline₀⟩ := format_hello 9
  obtain ⟨l₁, hne₁, hline₁⟩ := format_hello 1
  obtain ⟨l₂, hne₂, hline₂⟩ := format_hello 2
  have hup : Steps (Sure plainLibrary) (State.initial connectedStart : State (Fin 2) (Fin 2)) _
      ((State.initial connectedStart).up 4) := run_up plainLibrary rfl rfl rfl rfl
  obtain ⟨_, s₀, hrun₀, hW₀, happs, hhanded₀, hlines₀⟩ := run_stray plainLibrary
    (s := State.up (State.initial connectedStart : State (Fin 2) (Fin 2)) 4)
    (waits_up connectedStart) stray_ne_nil ofFn_stray hline₀
  have hC₀ : ∀ p, Connected (s₀.apps p) 0 := by
    intro p
    rw [happs]
    exact connected_start p
  obtain ⟨_, s₁, hrun₁, hW₁, hC₁, hframe₁, hpopped₁, hhanded₁, hlines₁⟩ :=
    passage plainLibrary 0 hW₀ (hC₀ 0) (by rw [happs]; exact built_hello 1) hline₁
  have hsame : s₁.apps 1 = s₀.apps 1 := hframe₁ 1 (by decide)
  obtain ⟨_, s₂, hrun₂, hW₂, hC₂, hframe₂, hpopped₂, hhanded₂, hlines₂⟩ :=
    passage plainLibrary 1 (p := 1) hW₁ (hsame ▸ hC₀ 1)
      (by rw [hsame, happs]; exact built_hello 2) hline₂
  have hsame₂ : s₂.apps 0 = s₁.apps 0 := hframe₂ 0 (by decide)
  refine ⟨_, s₂, hup.append (hrun₀.append (hrun₁.append hrun₂)), ?_, ?_, l₀, l₁, l₂, ?_, hne₀, hne₁,
    hne₂⟩
  · refine Fin.forall_fin_two.mpr ⟨⟨?_, hW₂.onTheWay (hsame₂ ▸ hC₁)⟩, ?_, hW₂.onTheWay hC₂⟩
    · rw [hsame₂, hpopped₁, happs]
      rfl
    · rw [hpopped₂, hsame, happs]
      rfl
  · rw [hhanded₂, hhanded₁, hhanded₀]
    rfl
  · rw [hlines₂, hlines₁, hlines₀]
    rfl

/-- The runs of the system and of the relay. -/
theorem matched_run {lib : CLibrary} {b : Start κ} {acts : List (Act κ ι)} {s : State κ ι}
    (hrun : Steps (Step lib) (.initial b) acts s) :
    ∃ r, Relay.InOrder r ∧ Matched s r := by
  obtain ⟨_, r, hsteps, hM⟩ := hrun.simulate (Q := Relay.Step) (r := Matched)
    (fun s a s' r h hM => by
      obtain ⟨acts, r', hsteps, hM', _⟩ := hM.step h
      exact ⟨acts, r', hsteps, hM'⟩)
    (matched_initial b)
  exact ⟨r, Relay.inOrder_run hsteps, hM⟩

/-- **Order.** In every run, whatever interleaves and wherever entries are lost, what the daemon
    hands over can be attributed: each entry of a process comes from one call of `Push` in this
    process, none twice, and those of one process in the order of its queue; the others were
    sent by other programs. -/
theorem handed_in_order [Fintype ι] (hthreads : Fintype.card ι < 2 ^ 31) {lib : CLibrary}
    {b : Start κ} {acts : List (Act κ ι)} {s : State κ ι}
    (hrun : Steps (Step lib) (.initial b) acts s) : ∃ log, Attributed lib acts s log := by
  obtain ⟨r, hO, hM⟩ := matched_run hrun
  exact ⟨r.log, hM.attributed hO (queuesOk_run hthreads hrun)⟩

theorem handed_in_order_hello : ∃ acts s log,
    Steps (Step plainLibrary) (State.initial connectedStart : State (Fin 2) (Fin 2)) acts s ∧
    s.daemon.handed = [helloElem 9, helloElem 1, helloElem 2] ∧
    Attributed plainLibrary acts s log := by
  obtain ⟨acts, s, hrun, _, hhanded, _⟩ := hello_run
  obtain ⟨log, hlog⟩ := handed_in_order (by decide) hrun.of_guarded
  exact ⟨acts, s, log, hrun.of_guarded, hhanded, hlog⟩

omit [DecidableEq ι] in
/-- The entries of a process that are on the way can be formatted. -/
theorem Matched.no_skip [Fintype ι] {lib : CLibrary} {acts : List (Act κ ι)} {s : State κ ι}
    {r : Relay.State (Option κ) Entry} (hM : Matched s r) (hO : Relay.InOrder r)
    (hQ : QueuesOk lib acts s) (p : κ) (e : Entry) (he : e ∈ r.transit (some p)) :
    ¬ Formats lib e none := by
  obtain ⟨_, g, hR⟩ := hM
  have hmem : e ∈ (s.apps p).queue.2.popped := by
    have hsub := (List.sublist_append_right (Relay.lane (some p) r.log) _).trans (hO (some p))
    rw [hR.submitted p] at hsub
    exact hsub.subset he
  intro hnone
  obtain ⟨_, _, _, helem⟩ := hQ.message hmem
  obtain ⟨_, hline, _⟩ := formats_elem helem hnone
  cases hline

theorem lane_sublist {src : Option κ} (l : List (Option κ × Entry)) :
    (Relay.lane src l).Sublist (l.map Prod.snd) := List.filter_sublist.map Prod.snd

theorem lane_owned_sublist (p : κ) (l : List (Datagram κ)) :
    (Relay.lane p (owned l)).Sublist (l.map fun x => elemOfBytes x.bytes) := by
  induction l with
  | nil => exact List.Sublist.refl []
  | cons x l ih =>
    cases x with
    | other d => exact ih.cons _
    | own q e =>
      rw [owned_own, List.map_cons, show (Datagram.own q e).bytes = List.ofFn e from rfl,
        elemOfBytes_ofFn]
      by_cases hq : q = p
      · subst hq
        rw [Relay.lane_cons_self]
        exact ih.cons_cons e
      · rw [Relay.lane_cons_ne p hq]
        exact ih.cons e

omit [DecidableEq ι] in
/-- What the relay carries for a process is on the way. -/
theorem Rel.transit_sublist {s : State κ ι} {g : Tags κ} {r : Relay.State (Option κ) Entry}
    (hR : Rel s.view g r) (p : κ) : (r.transit (some p)).Sublist (s.onTheWay p) := by
  have hfront : (Relay.lane (some p) (g.pending ++ g.waiting ++ g.held)).Sublist
      (s.view.pending ++ s.view.waiting ++ s.view.held) := by
    rw [← hR.pending, ← hR.waiting, ← hR.held, ← List.map_append, ← List.map_append]
    exact lane_sublist _
  have hsocket : (Relay.lane p (owned g.socket)).Sublist (s.socket.map elemOfBytes) := by
    rw [show s.socket = g.socket.map Datagram.bytes from hR.socket.symm, List.map_map]
    exact lane_owned_sublist p g.socket
  have happend : (r.transit (some p)).Sublist ((s.view.pending ++ s.view.waiting ++ s.view.held) ++
      (s.socket.map elemOfBytes ++ s.view.sending p)) := by
    rw [hR.transit]
    exact hfront.append (hsocket.append (List.Sublist.refl _))
  rw [← List.append_assoc] at happend
  exact happend

/-- A run that loses nothing, and its relay. -/
theorem complete_run [Fintype ι] (hthreads : Fintype.card ι < 2 ^ 31) {lib : CLibrary}
    {b : Start κ} {acts : List (Act κ ι)} {s : State κ ι}
    (hrun : Steps (Guarded (Step lib) Lossless) (.initial b) acts s) :
    ∃ r, Relay.InOrder r ∧ Matched s r ∧ ∀ p, ∃ rest,
      Relay.lane (some p) r.log ++ rest = (s.apps p).queue.2.popped ∧ rest.Sublist (s.onTheWay p) := by
  have hstep : ∀ (s : State κ ι) (a : Act κ ι) s' r, Guarded (Step lib) Lossless s a s' →
      (Matched s r ∧ Relay.InOrder r ∧ ∃ before, QueuesOk lib before s) →
      ∃ acts r', Steps (Guarded Relay.Step fun _ a => a.Spares fun src => src.isSome) r acts r' ∧
        Matched s' r' ∧ Relay.InOrder r' ∧ ∃ before, QueuesOk lib before s' := by
    rintro s a s' r ⟨h, hless⟩ ⟨hM, hO, before, hQ⟩
    obtain ⟨acts, r', hsteps, hM', hspares⟩ := hM.step h
    have hkept := hspares hless (hM.no_skip hO hQ)
    exact ⟨acts, r', hsteps.guarded_of_forall fun a ha _ => hkept a ha, hM', hO.run hsteps,
      _, hQ.step h⟩
  obtain ⟨_, r, hsteps, hM, hO, _⟩ := hrun.simulate hstep
    ⟨matched_initial b, Relay.inOrder_initial, [], queuesOk_initial lib hthreads b⟩
  have hC := Relay.complete_run hsteps
  refine ⟨r, hO, hM, fun p => ?_⟩
  obtain ⟨_, g, hR⟩ := hM
  exact ⟨r.transit (some p), (hC (some p) rfl).trans (hR.submitted p), hR.transit_sublist p⟩

/-- A line for every entry handed over. -/
theorem formats_run {lib : CLibrary} {b : Start κ} {acts : List (Act κ ι)} {s : State κ ι}
    (hrun : Steps (Step lib) (.initial b) acts s) :
    List.Forall₂ (fun e line => Formats lib e (some line)) s.daemon.handed s.lines := by
  have hinv := hrun.invariant (I := fun s => Inv s ∧
    List.Forall₂ (fun e line => Formats lib e (some line)) s.view.handed s.view.lines)
    (fun s a s' h hI => ?_) ⟨inv_initial b, .nil⟩
  · exact hinv.2
  · obtain ⟨hI', hsame | ⟨kept, hmove, _⟩⟩ := step_moved hI.1 h
    · exact ⟨hI', hsame ▸ hI.2⟩
    · refine ⟨hI', ?_⟩
      generalize s'.view = v' at hmove
      cases hmove with
      | handed e line _ hformats => exact List.rel_append hI.2 (.cons hformats .nil)
      | _ => exact hI.2

/-- `line` is the line of the entry `x` of the log, and if the entry comes from a process, the whole line
    of a message that was given to `silogLog` in this process in the run `acts`. -/
def LineFor (lib : CLibrary) (acts : List (Act κ ι)) (x : Option κ × Entry) (line : List UInt8) : Prop :=
  Formats lib x.2 (some line) ∧
    ∀ p, x.1 = some p → ∃ t m, .silogLog p t m ∈ acts ∧ LineOf lib m x.2 line

omit [DecidableEq ι] in
theorem Matched.lines [Fintype ι] {lib : CLibrary} {acts : List (Act κ ι)} {s : State κ ι}
    {r : Relay.State (Option κ) Entry} (hM : Matched s r) (hO : Relay.InOrder r)
    (hQ : QueuesOk lib acts s)
    (hformats : List.Forall₂ (fun e line => Formats lib e (some line)) s.daemon.handed s.lines) :
    List.Forall₂ (LineFor lib acts) r.log s.lines := by
  obtain ⟨_, g, hR⟩ := hM
  have hlog : r.log.map Prod.snd = s.daemon.handed := hR.log
  rw [← hlog, List.forall₂_map_left_iff] at hformats
  rw [List.forall₂_iff_get] at hformats ⊢
  obtain ⟨hlen, hall⟩ := hformats
  refine ⟨hlen, fun i hi hi' => ⟨hall i hi hi', fun p hp => ?_⟩⟩
  have hmem : (some p, (r.log.get ⟨i, hi⟩).2) ∈ r.log := by
    rw [← hp]
    exact List.get_mem r.log ⟨i, hi⟩
  have hpopped : (r.log.get ⟨i, hi⟩).2 ∈ (s.apps p).queue.2.popped := by
    have hsub := hO.log (some p)
    rw [hR.submitted p] at hsub
    exact hsub.subset ((Relay.mem_lane (some p)).mpr hmem)
  obtain ⟨t, m, hcall, helem⟩ := hQ.message hpopped
  obtain ⟨line, hline, hof⟩ := formats_elem helem (hall i hi hi')
  rw [Option.some.inj hline]
  exact ⟨t, m, hcall, hof⟩

/-- **Whole lines.** In every run the file manager gets one line for each entry handed over, in
    the same order, and the line of an entry of a process is the whole line of a message that was
    given to `silogLog`: with its tag, file name and text, each cut off at the size of its array,
    and a newline at the end. -/
theorem lines_whole [Fintype ι] (hthreads : Fintype.card ι < 2 ^ 31) {lib : CLibrary}
    {b : Start κ} {acts : List (Act κ ι)} {s : State κ ι}
    (hrun : Steps (Step lib) (.initial b) acts s) :
    ∃ log, Attributed lib acts s log ∧ List.Forall₂ (LineFor lib acts) log s.lines := by
  obtain ⟨r, hO, hM⟩ := matched_run hrun
  have hQ := queuesOk_run hthreads hrun
  exact ⟨r.log, hM.attributed hO hQ, hM.lines hO hQ (formats_run hrun)⟩

theorem lines_whole_hello : ∃ acts s log,
    Steps (Step plainLibrary) (State.initial connectedStart : State (Fin 2) (Fin 2)) acts s ∧
    s.lines.length = 3 ∧ Attributed plainLibrary acts s log ∧
    List.Forall₂ (LineFor plainLibrary acts) log s.lines := by
  obtain ⟨acts, s, hrun, _, _, _, _, _, hlines, _⟩ := hello_run
  obtain ⟨log, hlog, hall⟩ := lines_whole (by decide) hrun.of_guarded
  exact ⟨acts, s, log, hrun.of_guarded, by rw [hlines]; rfl, hlog, hall⟩

end runs

end SiLog.Pipeline
