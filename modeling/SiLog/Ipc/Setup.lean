import SiLog.Ipc.Model
import SiLog.Lib.Lts

/-! # Several threads set up the local communication

    `SilogIpcInit` tests `isInit`, stores it and then resets the two descriptors,
    each with an atomic access of its own.  Between the test and the last reset
    another thread can test `isInit` too, see it clear or set, and go on: its
    descriptor may then be reset, or it may use a descriptor that is still the
    zero of the initial value.

    One step is one atomic access, or the system calls between two of them.
    Each thread makes any calls in any order; `SilogIpcClientClose` and
    `SilogIpcServerClose` are not among them.
-/

open Lts

namespace SiLog.Ipc.Setup

/-! ## Section 1: State -/

/-- Where a thread is. -/
inductive Pc where
  | idle
  /-- In `SilogIpcInit`, which has found `isInit` clear: the three stores. -/
  | storeInit
  | resetSend
  | resetRecv
  /-- In `SilogIpcDgramClientInit` before `connect`, at its store, and at its return. -/
  | connect
  | storeSend (fd : ℤ)
  | clientReturn
  /-- In `SilogIpcDgramServerInit` before `bind`, at its store, and at its return. -/
  | bind
  | storeRecv (fd : ℤ)
  | serverReturn
  /-- In `SilogIpcDgramClientSend` at the load of `sendFd`, and at `send`. -/
  | loadSend
  | send (fd : ℤ)
  /-- The server has refused: the exchange, the new connection and its store, the second
      load and the second `send`. -/
  | exchange
  | reconnect
  | storeAgain (fd : ℤ)
  | loadAgain
  | sendAgain (fd : ℤ)
  /-- In `SilogIpcDgramServerRecv` at the load of `recvFd`, and at `recv`. -/
  | loadRecv
  | recv (fd : ℤ)

/-- What a run is judged by; no function reads it. -/
inductive Note where
  /-- A descriptor was stored by a `ClientInit` or `ServerInit`. -/
  | storedSend (fd : ℤ)
  | storedRecv (fd : ℤ)
  /-- `ClientInit` or `ServerInit` has returned `SILOG_OK`. -/
  | clientOk
  | serverOk
  /-- A descriptor was passed to `send` or `recv`. -/
  | usedSend (fd : ℤ)
  | usedRecv (fd : ℤ)
  deriving DecidableEq

/-- The agent, the threads `τ` and what has happened so far. -/
structure State (τ : Type*) where
  agent : SilogIpcAgent
  pc    : τ → Pc
  log   : List Note

/-- The process before its first call. -/
def State.initial {τ : Type*} : State τ := { agent := .initial, pc := fun _ => .idle, log := [] }

/-! ## Section 2: Steps -/

/-- The calls, each of which loads `isInit` first, and the steps inside them. -/
inductive Op where
  | callInit (type : SilogIpcType)
  | callClientInit
  | callServerInit
  | callSend
  | callRecv
  /-- `socket`, `setNonblock` and `connect` or `bind`; `none` if one of them fails. -/
  | socket (fd : Option ℕ)
  | send (result : SendResult)
  /-- The next atomic access, or the return. -/
  | next

/-- A step of a thread that is at `pc`. -/
def Op.run (agent : SilogIpcAgent) : Pc → Op → Option (Pc × SilogIpcAgent × List Note)
  | .idle, .callInit type =>
    if agent.isInit then some (.idle, agent, [])
    else match type with
      | .unixDgram => some (.storeInit, agent, [])
      | .unixStream => some (.idle, agent, [])
  | .storeInit, .next => some (.resetSend, { agent with isInit := true }, [])
  | .resetSend, .next => some (.resetRecv, { agent with sendFd := -1 }, [])
  | .resetRecv, .next => some (.idle, { agent with recvFd := -1 }, [])
  | .idle, .callClientInit => some (if agent.isInit then .connect else .idle, agent, [])
  | .connect, .socket fd => some (fd.elim .idle fun fd => .storeSend fd, agent, [])
  | .storeSend fd, .next => some (.clientReturn, { agent with sendFd := fd }, [.storedSend fd])
  | .clientReturn, .next => some (.idle, agent, [.clientOk])
  | .idle, .callServerInit => some (if agent.isInit then .bind else .idle, agent, [])
  | .bind, .socket fd => some (fd.elim .idle fun fd => .storeRecv fd, agent, [])
  | .storeRecv fd, .next => some (.serverReturn, { agent with recvFd := fd }, [.storedRecv fd])
  | .serverReturn, .next => some (.idle, agent, [.serverOk])
  | .idle, .callSend => some (if agent.isInit then .loadSend else .idle, agent, [])
  | .loadSend, .next =>
    some (if agent.sendFd < 0 then .idle else .send agent.sendFd, agent, [])
  | .send fd, .send result =>
    match result with
    | .refused => some (.exchange, agent, [.usedSend fd])
    | _ => some (.idle, agent, [.usedSend fd])
  | .exchange, .next => some (.reconnect, { agent with sendFd := -1 }, [])
  | .reconnect, .socket fd => some (fd.elim .idle fun fd => .storeAgain fd, agent, [])
  | .storeAgain fd, .next => some (.loadAgain, { agent with sendFd := fd }, [.storedSend fd])
  -- the second load is not tested
  | .loadAgain, .next => some (.sendAgain agent.sendFd, agent, [])
  | .sendAgain fd, .send _ => some (.idle, agent, [.usedSend fd])
  | .idle, .callRecv => some (if agent.isInit then .loadRecv else .idle, agent, [])
  | .loadRecv, .next =>
    some (if agent.recvFd < 0 then .idle else .recv agent.recvFd, agent, [])
  | .recv fd, .next => some (.idle, agent, [.usedRecv fd])
  | _, _ => none

variable {τ : Type*} [DecidableEq τ]

/-- Thread `a.1` makes the step `a.2`. -/
def step (s : State τ) (a : τ × Op) : Option (State τ) :=
  (a.2.run s.agent (s.pc a.1)).map fun r =>
    { agent := r.2.1, pc := Function.update s.pc a.1 r.1, log := s.log ++ r.2.2 }

def Step (s : State τ) (a : τ × Op) (s' : State τ) : Prop := step s a = some s'

/-! ### One thread alone

    Without the others, the steps of a call make up the function of `SiLog.Ipc.Model`. -/

/-- The steps `ops` of thread `t`, one after the other. -/
def alone (s : State τ) (t : τ) (ops : List Op) : Option (State τ) := exec step s (ops.map (t, ·))

/-- `SilogIpcDgramClientInit` leaves the agent as it is, or stores a descriptor. -/
theorem dgramClientInit_agent (w : World) (env : InitEnv) :
    (silogIpcDgramClientInit w env).2.agent = w.agent ∨
    ∃ fd : ℕ, (silogIpcDgramClientInit w env).2.agent = { w.agent with sendFd := fd } := by
  unfold silogIpcDgramClientInit
  dsimp only
  split
  · exact Or.inl rfl
  · next fd _ =>
    split
    · exact Or.inl rfl
    · split
      · exact Or.inl rfl
      · split
        · exact Or.inr ⟨fd, rfl⟩
        · exact Or.inl rfl

theorem dgramServerInit_agent (agent : SilogIpcAgent) (env : ServerEnv) :
    (silogIpcDgramServerInit agent env).2 = agent ∨
    ∃ fd : ℕ, (silogIpcDgramServerInit agent env).2 = { agent with recvFd := fd } := by
  unfold silogIpcDgramServerInit
  split
  · exact Or.inl rfl
  · next fd _ =>
    dsimp only
    split
    · exact Or.inl rfl
    · split
      · exact Or.inl rfl
      · exact Or.inr ⟨fd, rfl⟩

theorem alone_init (s : State τ) {t : τ} (hidle : s.pc t = .idle) (type : SilogIpcType) :
    ∃ ops, alone s t ops = some { s with agent := silogIpcInit s.agent type } := by
  have hpc := Function.update_eq_self t s.pc
  rw [hidle] at hpc
  unfold silogIpcInit
  cases hinit : s.agent.isInit with
  | true =>
    refine ⟨[.callInit type], ?_⟩
    simp [alone, exec, step, Op.run, hidle, hinit, hpc]
  | false =>
    cases type with
    | unixStream =>
      refine ⟨[.callInit .unixStream], ?_⟩
      simp [alone, exec, step, Op.run, hidle, hinit, hpc]
    | unixDgram =>
      refine ⟨[.callInit .unixDgram, .next, .next, .next], ?_⟩
      simp [alone, exec, step, Op.run, hidle, hinit, hpc]

theorem alone_clientInit (s : State τ) {t : τ} (hidle : s.pc t = .idle) {w : World}
    (hw : w.agent = s.agent) (env : InitEnv) :
    ∃ ops notes, alone s t ops =
      some { s with agent := (silogIpcClientInit w env).2.agent, log := s.log ++ notes } := by
  have hpc := Function.update_eq_self t s.pc
  rw [hidle] at hpc
  unfold silogIpcClientInit
  rw [hw]
  cases hinit : s.agent.isInit with
  | false =>
    refine ⟨[.callClientInit], [], ?_⟩
    simp [alone, exec, step, Op.run, hidle, hinit, hpc, hw]
  | true =>
    rw [if_neg (by decide)]
    rcases dgramClientInit_agent w env with heq | ⟨fd, heq⟩
    · refine ⟨[.callClientInit, .socket none], [], ?_⟩
      simp [alone, exec, step, Op.run, hidle, hinit, hpc, heq, hw]
    · refine ⟨[.callClientInit, .socket (some fd), .next, .next], [.storedSend fd, .clientOk], ?_⟩
      simp [alone, exec, step, Op.run, hidle, hinit, hpc, heq, hw]

theorem alone_serverInit (s : State τ) {t : τ} (hidle : s.pc t = .idle) (env : ServerEnv) :
    ∃ ops notes, alone s t ops =
      some { s with agent := (silogIpcServerInit s.agent env).2, log := s.log ++ notes } := by
  have hpc := Function.update_eq_self t s.pc
  rw [hidle] at hpc
  unfold silogIpcServerInit
  cases hinit : s.agent.isInit with
  | false =>
    refine ⟨[.callServerInit], [], ?_⟩
    simp [alone, exec, step, Op.run, hidle, hinit, hpc]
  | true =>
    rw [if_neg (by decide)]
    rcases dgramServerInit_agent s.agent env with heq | ⟨fd, heq⟩
    · refine ⟨[.callServerInit, .socket none], [], ?_⟩
      simp [alone, exec, step, Op.run, hidle, hinit, hpc, heq]
    · refine ⟨[.callServerInit, .socket (some fd), .next, .next], [.storedRecv fd, .serverOk], ?_⟩
      simp [alone, exec, step, Op.run, hidle, hinit, hpc, heq]

/-! ## Section 3: A finished setup stays -/

/-- Once a `ClientInit` (`ServerInit`) has returned `SILOG_OK`, `sendFd` (`recvFd`) is a
    descriptor that one of them has stored, and only such descriptors were used. -/
structure Kept (s : State τ) : Prop where
  client   : Note.clientOk ∈ s.log → Note.storedSend s.agent.sendFd ∈ s.log
  server   : Note.serverOk ∈ s.log → Note.storedRecv s.agent.recvFd ∈ s.log
  usedSend : ∀ fd, Note.usedSend fd ∈ s.log → Note.storedSend fd ∈ s.log
  usedRecv : ∀ fd, Note.usedRecv fd ∈ s.log → Note.storedRecv fd ∈ s.log

/-- `SilogIpcInit` has found `isInit` clear and its last store is to come. -/
def Pc.inInit : Pc → Bool
  | .storeInit | .resetSend | .resetRecv => true
  | _ => false

/-- The step loads `isInit`. -/
def Op.loadsInit : Op → Bool
  | .callInit _ | .callClientInit | .callServerInit | .callSend | .callRecv => true
  | _ => false

/-- No thread loads `isInit` while another one is between its test in `SilogIpcInit` and
    the last store there, and no `send` is refused, so that no descriptor is closed. -/
structure Undisturbed (s : State τ) (a : τ × Op) : Prop where
  alone : a.2.loadsInit → ∀ t, (s.pc t).inInit = false
  kept  : a.2 ≠ .send .refused

/-! ## Section 4: After the first `SilogIpcInit` -/

/-- What was used was stored before, and who has returned has stored. -/
def NoteOk (log : List Note) : Note → Prop
  | .storedSend _ | .storedRecv _ => True
  | .clientOk => ∃ fd, Note.storedSend fd ∈ log
  | .serverOk => ∃ fd, Note.storedRecv fd ∈ log
  | .usedSend fd => Note.storedSend fd ∈ log
  | .usedRecv fd => Note.storedRecv fd ∈ log

/-- Each descriptor is still the one that was reset, or one that was stored. -/
structure AgentOk (agent : SilogIpcAgent) (log : List Note) : Prop where
  isInit : agent.isInit = true
  sendFd : (agent.sendFd = -1 ∧ ∀ fd, Note.storedSend fd ∉ log) ∨ Note.storedSend agent.sendFd ∈ log
  recvFd : (agent.recvFd = -1 ∧ ∀ fd, Note.storedRecv fd ∉ log) ∨ Note.storedRecv agent.recvFd ∈ log
  notes  : ∀ n ∈ log, NoteOk log n

/-- A thread outside `SilogIpcInit` and outside the reconnection, with a descriptor that
    was stored if it has one. -/
def PcOk (log : List Note) : Pc → Prop
  | .idle | .connect | .bind | .loadSend | .loadRecv | .storeSend _ | .storeRecv _ => True
  | .clientReturn => NoteOk log .clientOk
  | .serverReturn => NoteOk log .serverOk
  | .send fd => NoteOk log (.usedSend fd)
  | .recv fd => NoteOk log (.usedRecv fd)
  | _ => False

theorem NoteOk.append {log : List Note} {n : Note} (h : NoteOk log n) (notes : List Note) :
    NoteOk (log ++ notes) n := by
  cases n with
  | clientOk =>
    obtain ⟨fd, hfd⟩ := h
    exact ⟨fd, List.mem_append_left notes hfd⟩
  | serverOk =>
    obtain ⟨fd, hfd⟩ := h
    exact ⟨fd, List.mem_append_left notes hfd⟩
  | usedSend fd => exact List.mem_append_left notes h
  | usedRecv fd => exact List.mem_append_left notes h
  | _ => trivial

theorem PcOk.append {log : List Note} {pc : Pc} (h : PcOk log pc) (notes : List Note) :
    PcOk (log ++ notes) pc := by
  cases pc with
  | clientReturn => exact NoteOk.append (n := .clientOk) h notes
  | serverReturn => exact NoteOk.append (n := .serverOk) h notes
  | send fd => exact NoteOk.append (n := .usedSend fd) h notes
  | recv fd => exact NoteOk.append (n := .usedRecv fd) h notes
  | _ => exact h

namespace AgentOk

variable {agent : SilogIpcAgent} {log : List Note}

theorem notes_append (h : AgentOk agent log) {n : Note} (hn : NoteOk (log ++ [n]) n) :
    ∀ m ∈ log ++ [n], NoteOk (log ++ [n]) m := by
  intro m hm
  rcases List.mem_append.mp hm with hold | hnew
  · exact (h.notes m hold).append [n]
  · obtain rfl : m = n := by simpa using hnew
    exact hn

theorem storeSend (h : AgentOk agent log) (fd : ℤ) :
    AgentOk { agent with sendFd := fd } (log ++ [.storedSend fd]) where
  isInit := h.isInit
  sendFd := Or.inr (List.mem_append_right log List.mem_cons_self)
  recvFd := by simpa using h.recvFd
  notes := h.notes_append trivial

theorem storeRecv (h : AgentOk agent log) (fd : ℤ) :
    AgentOk { agent with recvFd := fd } (log ++ [.storedRecv fd]) where
  isInit := h.isInit
  sendFd := by simpa using h.sendFd
  recvFd := Or.inr (List.mem_append_right log List.mem_cons_self)
  notes := h.notes_append trivial

/-- A note that is not about a store. -/
theorem note (h : AgentOk agent log) {n : Note} (hn : NoteOk log n)
    (hsend : ∀ fd, n ≠ .storedSend fd) (hrecv : ∀ fd, n ≠ .storedRecv fd) :
    AgentOk agent (log ++ [n]) where
  isInit := h.isInit
  sendFd := by
    rcases h.sendFd with ⟨hreset, hnone⟩ | hstored
    · refine Or.inl ⟨hreset, fun fd hmem => ?_⟩
      rcases List.mem_append.mp hmem with hold | hnew
      · exact hnone fd hold
      · exact hsend fd (List.mem_singleton.mp hnew).symm
    · exact Or.inr (List.mem_append_left _ hstored)
  recvFd := by
    rcases h.recvFd with ⟨hreset, hnone⟩ | hstored
    · refine Or.inl ⟨hreset, fun fd hmem => ?_⟩
      rcases List.mem_append.mp hmem with hold | hnew
      · exact hnone fd hold
      · exact hrecv fd (List.mem_singleton.mp hnew).symm
    · exact Or.inr (List.mem_append_left _ hstored)
  notes := h.notes_append (hn.append [n])

/-- A descriptor that passes the test was stored. -/
theorem stored_of_nonneg (h : AgentOk agent log) (hfd : ¬ agent.sendFd < 0) :
    Note.storedSend agent.sendFd ∈ log := by
  rcases h.sendFd with ⟨hreset, _⟩ | hstored
  · rw [hreset] at hfd
    exact absurd (by decide) hfd
  · exact hstored

theorem storedRecv_of_nonneg (h : AgentOk agent log) (hfd : ¬ agent.recvFd < 0) :
    Note.storedRecv agent.recvFd ∈ log := by
  rcases h.recvFd with ⟨hreset, _⟩ | hstored
  · rw [hreset] at hfd
    exact absurd (by decide) hfd
  · exact hstored

/-- A step of one thread. -/
theorem run (h : AgentOk agent log) {pc pc' : Pc} {op : Op} {agent' : SilogIpcAgent}
    {notes : List Note} (hpc : PcOk log pc) (hsend : op ≠ .send .refused)
    (hrun : op.run agent pc = some (pc', agent', notes)) :
    AgentOk agent' (log ++ notes) ∧ PcOk (log ++ notes) pc' := by
  have hquiet : AgentOk agent (log ++ []) := by rwa [List.append_nil]
  unfold Op.run at hrun
  split at hrun
  · -- `SilogIpcInit` finds `isInit` set
    rw [if_pos h.isInit] at hrun
    cases hrun
    exact ⟨hquiet, trivial⟩
  · exact hpc.elim
  · exact hpc.elim
  · exact hpc.elim
  · rw [if_pos h.isInit] at hrun
    cases hrun
    exact ⟨hquiet, trivial⟩
  · -- `connect` fails or not
    next fd =>
    cases hrun
    cases fd <;> exact ⟨hquiet, trivial⟩
  · cases hrun
    exact ⟨h.storeSend _, _, List.mem_append_right log List.mem_cons_self⟩
  · cases hrun
    exact ⟨h.note hpc nofun nofun, trivial⟩
  · rw [if_pos h.isInit] at hrun
    cases hrun
    exact ⟨hquiet, trivial⟩
  · -- so does `bind`
    next fd =>
    cases hrun
    cases fd <;> exact ⟨hquiet, trivial⟩
  · cases hrun
    exact ⟨h.storeRecv _, _, List.mem_append_right log List.mem_cons_self⟩
  · cases hrun
    exact ⟨h.note hpc nofun nofun, trivial⟩
  · rw [if_pos h.isInit] at hrun
    cases hrun
    exact ⟨hquiet, trivial⟩
  · -- `SilogIpcDgramClientSend` loads `sendFd`
    cases hrun
    refine ⟨hquiet, ?_⟩
    split
    · trivial
    next hfd => exact List.mem_append_left _ (h.stored_of_nonneg hfd)
  · split at hrun
    · exact absurd rfl hsend
    · cases hrun
      exact ⟨h.note hpc nofun nofun, trivial⟩
  · exact hpc.elim
  · exact hpc.elim
  · exact hpc.elim
  · exact hpc.elim
  · exact hpc.elim
  · rw [if_pos h.isInit] at hrun
    cases hrun
    exact ⟨hquiet, trivial⟩
  · -- `SilogIpcDgramServerRecv` loads `recvFd`
    cases hrun
    refine ⟨hquiet, ?_⟩
    split
    · trivial
    next hfd => exact List.mem_append_left _ (h.storedRecv_of_nonneg hfd)
  · cases hrun
    exact ⟨h.note hpc nofun nofun, trivial⟩
  · cases hrun

end AgentOk

/-! ## Section 5: The three phases of a run -/

/-- Before the first `SilogIpcInit` nobody is in a call. -/
structure Before (s : State τ) : Prop where
  isInit : s.agent.isInit = false
  idle   : ∀ t, s.pc t = .idle
  log    : s.log = []

/-- Thread `t` is in `SilogIpcInit`, alone. -/
structure During (t : τ) (s : State τ) : Prop where
  inInit : (s.pc t).inInit
  idle   : ∀ t', t' ≠ t → s.pc t' = .idle
  log    : s.log = []
  isInit : s.pc t ≠ .storeInit → s.agent.isInit = true
  sendFd : s.pc t = .resetRecv → s.agent.sendFd = -1

/-- The first `SilogIpcInit` is over. -/
structure After (s : State τ) : Prop where
  agent : AgentOk s.agent s.log
  pc    : ∀ t, PcOk s.log (s.pc t)

def Phase (s : State τ) : Prop := Before s ∨ (∃ t, During t s) ∨ After s

section phases
variable {s s' : State τ} {a : τ × Op}

omit [DecidableEq τ] in
theorem Phase.kept (h : Phase s) : Kept s := by
  have hempty : s.log = [] → Kept s := by
    intro hlog
    constructor <;> simp [hlog]
  rcases h with h | ⟨_, h⟩ | h
  · exact hempty h.log
  · exact hempty h.log
  · refine ⟨fun hok => ?_, fun hok => ?_, fun fd hused => h.agent.notes _ hused,
      fun fd hused => h.agent.notes _ hused⟩
    · obtain ⟨fd, hfd⟩ := h.agent.notes _ hok
      rcases h.agent.sendFd with ⟨_, hnone⟩ | hstored
      · exact absurd hfd (hnone fd)
      · exact hstored
    · obtain ⟨fd, hfd⟩ := h.agent.notes _ hok
      rcases h.agent.recvFd with ⟨_, hnone⟩ | hstored
      · exact absurd hfd (hnone fd)
      · exact hstored

/-- A step of a thread, with what it leaves of the others. -/
theorem step_cases (hstep : Step s a s') :
    ∃ pc' agent' notes, a.2.run s.agent (s.pc a.1) = some (pc', agent', notes) ∧
      s' = { agent := agent', pc := Function.update s.pc a.1 pc', log := s.log ++ notes } := by
  obtain ⟨⟨pc', agent', notes⟩, hrun, rfl⟩ := Option.map_eq_some_iff.mp hstep
  exact ⟨pc', agent', notes, hrun, rfl⟩

omit [DecidableEq τ] in
/-- A call made while `isInit` is clear returns at once, or begins `SilogIpcInit`. -/
theorem Before.run (h : Before s) {pc' : Pc} {agent' : SilogIpcAgent} {notes : List Note}
    (hrun : a.2.run s.agent .idle = some (pc', agent', notes)) :
    (pc' = .idle ∨ pc' = .storeInit) ∧ agent' = s.agent ∧ notes = [] := by
  have hinit := h.isInit
  cases hop : a.2 with
  | callInit type =>
    cases type <;> simp [hop, Op.run, hinit] at hrun <;> simp [hrun]
  | callClientInit =>
    simp [hop, Op.run, hinit] at hrun
    simp [hrun]
  | callServerInit =>
    simp [hop, Op.run, hinit] at hrun
    simp [hrun]
  | callSend =>
    simp [hop, Op.run, hinit] at hrun
    simp [hrun]
  | callRecv =>
    simp [hop, Op.run, hinit] at hrun
    simp [hrun]
  | socket fd => simp [hop, Op.run] at hrun
  | send result => simp [hop, Op.run] at hrun
  | next => simp [hop, Op.run] at hrun

theorem Before.step (h : Before s) (hstep : Step s a s') : Phase s' := by
  obtain ⟨pc', agent', notes, hrun, rfl⟩ := step_cases hstep
  rw [h.idle a.1] at hrun
  obtain ⟨hpc', rfl, rfl⟩ := h.run hrun
  rcases hpc' with rfl | rfl
  · refine Or.inl ⟨h.isInit, fun t => ?_, by simpa using h.log⟩
    by_cases ht : t = a.1
    · rw [ht]
      exact Function.update_self _ _ _
    · exact (Function.update_of_ne ht _ _).trans (h.idle t)
  · have hself : Function.update s.pc a.1 .storeInit a.1 = .storeInit := Function.update_self _ _ _
    refine Or.inr (Or.inl ⟨a.1, ?_, fun t ht => ?_, by simpa using h.log, ?_, ?_⟩)
    · show (Function.update s.pc a.1 .storeInit a.1).inInit
      rw [hself]
      rfl
    · exact (Function.update_of_ne ht _ _).trans (h.idle t)
    · exact fun hne => absurd hself hne
    · intro heq
      have hboth : Pc.storeInit = .resetRecv := hself.symm.trans heq
      cases hboth

/-- A thread that is not in a call loads `isInit` next. -/
theorem loadsInit_of_idle {agent : SilogIpcAgent} {op : Op} {r : Pc × SilogIpcAgent × List Note}
    (hrun : op.run agent .idle = some r) : op.loadsInit := by
  cases op with
  | socket fd => cases hrun
  | send result => cases hrun
  | next => cases hrun
  | _ => rfl

theorem During.step {t : τ} (h : During t s) (hcalm : Undisturbed s a) (hstep : Step s a s') :
    Phase s' := by
  obtain ⟨pc', agent', notes, hrun, rfl⟩ := step_cases hstep
  by_cases ht : a.1 = t
  · subst ht
    have hothers : ∀ t, t ≠ a.1 → Function.update s.pc a.1 pc' t = .idle :=
      fun t ht => (Function.update_of_ne ht _ _).trans (h.idle t ht)
    have hself : Function.update s.pc a.1 pc' a.1 = pc' := Function.update_self _ _ _
    have hin := h.inInit
    cases hpc : s.pc a.1 <;> simp [hpc, Pc.inInit] at hin
    · -- `isInit` is stored
      cases hop : a.2 <;> rw [hop, hpc] at hrun <;> cases hrun
      refine Or.inr (Or.inl ⟨a.1, ?_, hothers, by simpa using h.log, fun _ => rfl, ?_⟩)
      · show (Function.update s.pc a.1 .resetSend a.1).inInit
        rw [hself]
        rfl
      · intro heq
        have hboth : Pc.resetSend = .resetRecv := hself.symm.trans heq
        cases hboth
    · cases hop : a.2 <;> rw [hop, hpc] at hrun <;> cases hrun
      refine Or.inr (Or.inl ⟨a.1, ?_, hothers, by simpa using h.log, fun _ => ?_, fun _ => rfl⟩)
      · show (Function.update s.pc a.1 .resetRecv a.1).inInit
        rw [hself]
        rfl
      · exact h.isInit (by rw [hpc]; nofun)
    · -- the last store: both descriptors are reset
      cases hop : a.2 <;> rw [hop, hpc] at hrun <;> cases hrun
      refine Or.inr (Or.inr ⟨⟨h.isInit (by rw [hpc]; nofun), Or.inl ⟨h.sendFd hpc, ?_⟩,
        Or.inl ⟨rfl, ?_⟩, ?_⟩, fun t => ?_⟩)
      · simp [h.log]
      · simp [h.log]
      · simp [h.log]
      · by_cases ht : t = a.1
        · subst ht
          show PcOk _ (Function.update s.pc a.1 .idle a.1)
          rw [hself]
          trivial
        · show PcOk _ (Function.update s.pc a.1 .idle t)
          rw [hothers t ht]
          trivial
  · -- another thread would load `isInit`
    rw [h.idle a.1 ht] at hrun
    have hin := hcalm.alone (loadsInit_of_idle hrun) t
    rw [h.inInit] at hin
    cases hin

theorem After.step (h : After s) (hcalm : Undisturbed s a) (hstep : Step s a s') : After s' := by
  obtain ⟨pc', agent', notes, hrun, rfl⟩ := step_cases hstep
  obtain ⟨hagent, hpc⟩ := h.agent.run (h.pc a.1) hcalm.kept hrun
  refine ⟨hagent, fun t => ?_⟩
  by_cases ht : t = a.1
  · subst ht
    show PcOk _ (Function.update s.pc a.1 pc' a.1)
    rw [Function.update_self]
    exact hpc
  · show PcOk _ (Function.update s.pc a.1 pc' t)
    rw [Function.update_of_ne ht]
    exact (h.pc t).append notes

theorem Phase.step (h : Phase s) (hcalm : Undisturbed s a) (hstep : Step s a s') : Phase s' := by
  rcases h with h | ⟨t, h⟩ | h
  · exact h.step hstep
  · exact h.step hcalm hstep
  · exact Or.inr (Or.inr (h.step hcalm hstep))

end phases

/-- **Setup.** In every run in which no thread loads `isInit` while another one is in
    the middle of `SilogIpcInit`, and no `send` is refused, a finished setup stays and
    only descriptors that were stored are used. -/
theorem kept_of_undisturbed {acts : List (τ × Op)} {s : State τ}
    (hrun : Steps (Guarded Step Undisturbed) State.initial acts s) : Kept s := by
  have hphase : Phase s := by
    apply hrun.invariant
    · intro s a s' hstep h
      exact h.step hstep.2 hstep.1
    · exact Or.inl ⟨rfl, fun _ => rfl, rfl⟩
  exact hphase.kept

/-! ### Two threads -/

/-- The thread of the daemon, and one that logs. -/
inductive Caller where
  | daemon
  | logger
  deriving DecidableEq

/-- The daemon initialises, then the other thread sets up the client and sends. -/
def calmRun : List (Caller × Op) :=
  [(.daemon, .callInit .unixDgram), (.daemon, .next), (.daemon, .next), (.daemon, .next),
   (.logger, .callInit .unixDgram), (.logger, .callClientInit), (.logger, .socket (some 3)),
   (.logger, .next), (.logger, .next), (.logger, .callSend), (.logger, .next), (.logger, .send .sent)]

def calm : State Caller := (exec step State.initial calmRun).get rfl

omit [DecidableEq τ] in
theorem undisturbed_inside (s : State τ) {a : τ × Op} (hload : a.2.loadsInit = false)
    (hsend : a.2 ≠ .send .refused) : Undisturbed s a := by
  refine ⟨fun h => ?_, hsend⟩
  rw [hload] at h
  cases h

theorem calm_steps : Steps (Guarded Step Undisturbed) State.initial calmRun calm := by
  have hcall : ∀ (s : State Caller) (a : Caller × Op), (s.pc .daemon).inInit = false →
      (s.pc .logger).inInit = false → a.2 ≠ .send .refused → Undisturbed s a := by
    intro s a hd hl hsend
    refine ⟨fun _ t => ?_, hsend⟩
    cases t with
    | daemon => exact hd
    | logger => exact hl
  refine .cons _ _ ⟨rfl, hcall _ _ rfl rfl nofun⟩ ?_
  refine .cons _ _ ⟨rfl, undisturbed_inside _ rfl nofun⟩ ?_
  refine .cons _ _ ⟨rfl, undisturbed_inside _ rfl nofun⟩ ?_
  refine .cons _ _ ⟨rfl, undisturbed_inside _ rfl nofun⟩ ?_
  refine .cons _ _ ⟨rfl, hcall _ _ rfl rfl nofun⟩ ?_
  refine .cons _ _ ⟨rfl, hcall _ _ rfl rfl nofun⟩ ?_
  refine .cons _ _ ⟨rfl, undisturbed_inside _ rfl nofun⟩ ?_
  refine .cons _ _ ⟨rfl, undisturbed_inside _ rfl nofun⟩ ?_
  refine .cons _ _ ⟨rfl, undisturbed_inside _ rfl nofun⟩ ?_
  refine .cons _ _ ⟨rfl, hcall _ _ rfl rfl nofun⟩ ?_
  refine .cons _ _ ⟨rfl, undisturbed_inside _ rfl nofun⟩ ?_
  exact .single ⟨rfl, undisturbed_inside _ rfl nofun⟩

theorem kept_of_undisturbed_calm :
    calm.log = [.storedSend 3, .clientOk, .usedSend 3] ∧ Kept calm :=
  ⟨rfl, kept_of_undisturbed calm_steps⟩

/-- Both threads find `isInit` clear, and one of them is done before the other stores. -/
def resetRun : List (Caller × Op) :=
  [(.logger, .callInit .unixDgram), (.daemon, .callInit .unixDgram), (.daemon, .next),
   (.daemon, .next), (.daemon, .next), (.daemon, .callServerInit), (.daemon, .socket (some 3)),
   (.daemon, .next), (.daemon, .next), (.logger, .next), (.logger, .next), (.logger, .next)]

def reset : State Caller := (exec step State.initial resetRun).get rfl

/-- The logging thread finds `isInit` set and the descriptor not yet reset. -/
def zeroRun : List (Caller × Op) :=
  [(.daemon, .callInit .unixDgram), (.daemon, .next), (.logger, .callInit .unixDgram),
   (.logger, .callClientInit), (.logger, .socket none), (.logger, .callSend), (.logger, .next),
   (.logger, .send .sent)]

def zero : State Caller := (exec step State.initial zeroRun).get rfl

/-- The descriptor of a finished `SilogIpcServerInit` is gone, and `send` gets a descriptor
    that nobody has opened. -/
theorem reset_zero_not_kept :
    Steps Step State.initial resetRun reset ∧ Note.serverOk ∈ reset.log ∧ reset.agent.recvFd = -1 ∧
    ¬ Kept reset ∧
    Steps Step State.initial zeroRun zero ∧ zero.log = [.usedSend 0] ∧ ¬ Kept zero := by
  have hlog : reset.log = [.storedRecv 3, .serverOk] := rfl
  have hzero : zero.log = [.usedSend 0] := rfl
  have hok : Note.serverOk ∈ reset.log := by
    rw [hlog]
    decide
  refine ⟨steps_of_exec (fun _ _ _ => id) (Option.some_get rfl).symm, hok, rfl, ?_,
    steps_of_exec (fun _ _ _ => id) (Option.some_get rfl).symm, hzero, ?_⟩
  · intro hkept
    have hstored := hkept.server hok
    rw [hlog] at hstored
    exact absurd hstored (by decide)
  · intro hkept
    have hstored := hkept.usedSend 0 (by rw [hzero]; decide)
    rw [hzero] at hstored
    exact absurd hstored (by decide)

end SiLog.Ipc.Setup
