import SiLog.Entry
import SiLog.Ipc.Model
import SiLog.Lib.Lts

/-! # The receive thread (`SilogDaemonRecvThreadFunc`)

    The thread receives into one `logEntry_t` over and over and pushes it when
    `SilogIpcServerRecv` returns a positive number.  That number may also be
    the size of a datagram of another length, or an error code: the codes
    are positive, against the header, which promises a negative number.

    Every turn of the loop is recorded with the datagram it took from the
    socket and the entry it gave to `SilogMpscQueuePush`.
-/

open Lts SiLog.Ipc

namespace SiLog.Daemon.Receive

/-! ## Section 1: The thread -/

/-- Where the thread is. -/
inductive Pc where
  | start
  | loop
  | done
  deriving DecidableEq

/-- What a turn of the loop took from the socket and what it pushed. -/
structure Turn where
  received : Option (List UInt8)
  pushed   : Option (List UInt8)
  deriving DecidableEq

/-- The thread, and the agent that it shares with the other threads of the process. -/
structure State where
  pc    : Pc
  agent : SilogIpcAgent
  entry : List UInt8
  turns : List Turn

/-- The thread at its start; `entry` is not initialised. -/
def State.initial (agent : SilogIpcAgent) (entry : Vector UInt8 logEntrySize) : State :=
  { pc := .start, agent := agent, entry := entry.toList, turns := [] }

inductive Act where
  /-- `SilogIpcInit` and `SilogIpcServerInit`. -/
  | start (env : ServerEnv)
  /-- The flag is set; `recv` finds `r`. -/
  | turn (r : RecvResult)
  /-- The flag is not set; `SilogIpcServerClose`. -/
  | leave
  /-- Another thread calls `SilogIpcInit` or `SilogIpcServerClose`. -/
  | otherInit (type : SilogIpcType)
  | otherClose

/-- The datagram that a call of `SilogIpcServerRecv` takes from the socket. -/
def received (agent : SilogIpcAgent) : RecvResult → Option (List UInt8)
  | .datagram d => if agent.isInit ∧ 0 ≤ agent.recvFd then some d else none
  | .failed => none

/-- A turn of the loop. -/
def State.turn (s : State) (r : RecvResult) : State :=
  let n := silogIpcServerRecv s.agent s.entry r
  { s with entry := n.2
           turns := s.turns ++ [{ received := received s.agent r
                                  pushed := if 0 < n.1 then some n.2 else none }] }

def step (s : State) (a : Act) : Option State :=
  match a, s.pc with
  | .start env, .start =>
    let r := silogIpcServerInit (silogIpcInit s.agent .unixDgram) env
    some { s with agent := r.2, pc := if r.1 = .ok then .loop else .done }
  | .turn r, .loop => some (s.turn r)
  | .leave, .loop => some { s with agent := silogIpcServerClose s.agent, pc := .done }
  | .otherInit type, _ => some { s with agent := silogIpcInit s.agent type }
  | .otherClose, _ => some { s with agent := silogIpcServerClose s.agent }
  | _, _ => none

def Step (s : State) (a : Act) (s' : State) : Prop := step s a = some s'

/-! ## Section 2: One turn -/

/-- What the turn pushed, it received. -/
def Turn.Faithful (t : Turn) : Prop :=
  ∀ e, t.pushed = some e → t.received = some e ∧ e.length = logEntrySize

/-- The layer is initialised, and a datagram that the turn takes from the socket has
    the size of an entry or is empty. -/
def Fits (s : State) : Act → Prop
  | .turn r => s.agent.isInit ∧
    ∀ d, received s.agent r = some d → d.length = logEntrySize ∨ d.length = 0
  | _ => True

/-- The buffer keeps its size. -/
theorem length_serverRecv (agent : SilogIpcAgent) (buf : List UInt8) (r : RecvResult) :
    (silogIpcServerRecv agent buf r).2.length = buf.length := by
  unfold silogIpcServerRecv silogIpcDgramServerRecv
  split_ifs
  · rfl
  · rfl
  · cases r with
    | failed => rfl
    | datagram d =>
      simp only [List.length_append, List.length_take, List.length_drop]
      omega

theorem serverRecv_datagram {agent : SilogIpcAgent} {buf d : List UInt8}
    (hinit : agent.isInit) (hfd : 0 ≤ agent.recvFd) :
    silogIpcServerRecv agent buf (.datagram d) =
      (((d.take buf.length).length : ℤ),
        d.take buf.length ++ buf.drop (d.take buf.length).length) := by
  simp only [silogIpcServerRecv, hinit, Bool.true_eq_false, if_false, silogIpcDgramServerRecv,
    if_neg (Int.not_lt.mpr hfd)]

/-- Once the layer is initialised, a call that takes no datagram returns nothing
    positive. -/
theorem serverRecv_nothing {agent : SilogIpcAgent} (buf : List UInt8) {r : RecvResult}
    (hinit : agent.isInit) (hnone : received agent r = none) :
    (silogIpcServerRecv agent buf r).1 ≤ 0 := by
  simp only [silogIpcServerRecv, hinit, Bool.true_eq_false, if_false, silogIpcDgramServerRecv]
  by_cases hfd : agent.recvFd < 0
  · simp only [if_pos hfd, Int.le_refl]
  · rw [if_neg hfd]
    cases r with
    | failed => exact (by decide : (-1 : ℤ) ≤ 0)
    | datagram d =>
      have hsome : received agent (.datagram d) = some d := if_pos ⟨hinit, Int.not_lt.mp hfd⟩
      rw [hnone] at hsome
      cases hsome

/-- The record of a turn. -/
def State.record (s : State) (r : RecvResult) : Turn :=
  { received := received s.agent r
    pushed := if 0 < (silogIpcServerRecv s.agent s.entry r).1 then
      some (silogIpcServerRecv s.agent s.entry r).2 else none }

theorem turns_turn (s : State) (r : RecvResult) : (s.turn r).turns = s.turns ++ [s.record r] := rfl

/-- A turn with a datagram is faithful exactly when the size is right. -/
theorem faithful_datagram {s : State} {d : List UInt8} (hlen : s.entry.length = logEntrySize)
    (hinit : s.agent.isInit) (hfd : 0 ≤ s.agent.recvFd) :
    (s.record (.datagram d)).Faithful ↔ d.length = logEntrySize ∨ d.length = 0 := by
  have hrecv : received s.agent (.datagram d) = some d := if_pos ⟨hinit, hfd⟩
  simp only [Turn.Faithful, State.record, hrecv, serverRecv_datagram hinit hfd, hlen,
    Option.some.injEq]
  constructor
  · intro hfaith
    by_cases hzero : d.length = 0
    · exact Or.inr hzero
    · -- something was pushed, so it is the datagram
      have hpos : 0 < ((d.take logEntrySize).length : ℤ) := by
        rw [List.length_take]
        exact Int.natCast_pos.mpr (Nat.lt_min.mpr ⟨by decide, Nat.pos_of_ne_zero hzero⟩)
      obtain ⟨heq, hsize⟩ := hfaith _ (if_pos hpos)
      exact Or.inl (heq ▸ hsize)
  · rintro (hsize | hzero) e he
    · have htake : d.take logEntrySize = d := List.take_of_length_le (Nat.le_of_eq hsize)
      have hdrop : s.entry.drop d.length = [] := List.drop_eq_nil_of_le (by omega)
      rw [htake, hdrop, List.append_nil] at he
      split at he
      · cases he
        exact ⟨rfl, hsize⟩
      · cases he
    · have hnil : d = [] := List.length_eq_zero_iff.mp hzero
      subst hnil
      cases he

/-- A turn is faithful exactly when its datagram fits. -/
theorem faithful_iff_fits {s : State} (hlen : s.entry.length = logEntrySize) (r : RecvResult) :
    (s.record r).Faithful ↔ Fits s (.turn r) := by
  by_cases hinit : s.agent.isInit
  · cases hrecv : received s.agent r with
    | none =>
      have hle := serverRecv_nothing s.entry hinit hrecv
      refine iff_of_true ?_ ⟨hinit, fun d hd => ?_⟩
      · intro e he
        rw [State.record, if_neg (by omega)] at he
        cases he
      · rw [hrecv] at hd
        cases hd
    | some d =>
      cases r with
      | failed => cases hrecv
      | datagram d' =>
        have hfd : 0 ≤ s.agent.recvFd := by
          by_contra hfd
          rw [received, if_neg (fun h => hfd h.2)] at hrecv
          cases hrecv
        rw [faithful_datagram hlen hinit hfd]
        have hsome : received s.agent (.datagram d') = some d' := if_pos ⟨hinit, hfd⟩
        simp only [Fits, hinit, hsome, true_and, Option.some.injEq, forall_eq']
  · -- the code is positive, and the old content of the buffer is pushed
    refine iff_of_false ?_ fun h => hinit h.1
    intro hfaith
    have hunset : s.agent.isInit = false := Bool.not_eq_true _ ▸ hinit
    have hcode : silogIpcServerRecv s.agent s.entry r = (1005, s.entry) := if_pos hunset
    have hpushed : (s.record r).pushed = some s.entry := by
      rw [State.record, hcode]
      rfl
    have hnone : (s.record r).received = none := by
      cases r with
      | failed => rfl
      | datagram d => exact if_neg fun h => hinit h.1
    have hsome := (hfaith _ hpushed).1
    rw [hnone] at hsome
    cases hsome

/-! ## Section 3: Runs -/

/-- A step is a turn, or it leaves the buffer and the record alone. -/
theorem step_cases {s s' : State} {a : Act} (h : Step s a s') :
    (∃ r, a = .turn r ∧ s' = s.turn r) ∨
    (∀ r, a ≠ .turn r) ∧ s'.entry = s.entry ∧ s'.turns = s.turns := by
  unfold Step step at h
  split at h
  · cases h
    exact Or.inr ⟨nofun, rfl, rfl⟩
  · cases h
    exact Or.inl ⟨_, rfl, rfl⟩
  · cases h
    exact Or.inr ⟨nofun, rfl, rfl⟩
  · cases h
    exact Or.inr ⟨nofun, rfl, rfl⟩
  · cases h
    exact Or.inr ⟨nofun, rfl, rfl⟩
  · cases h

theorem length_entry_step {s s' : State} {a : Act} (h : Step s a s')
    (hlen : s.entry.length = logEntrySize) : s'.entry.length = logEntrySize := by
  obtain ⟨r, _, rfl⟩ | ⟨_, hentry, _⟩ := step_cases h
  · exact (length_serverRecv s.agent s.entry r).trans hlen
  · rw [hentry, hlen]

/-- Some turn pushed what it did not receive. -/
def Tainted (s : State) : Prop := ∃ t ∈ s.turns, ¬ t.Faithful

theorem tainted_step {s s' : State} {a : Act} (h : Step s a s') (hT : Tainted s) : Tainted s' := by
  obtain ⟨t, hmem, ht⟩ := hT
  obtain ⟨r, _, rfl⟩ | ⟨_, _, hturns⟩ := step_cases h
  · exact ⟨t, List.mem_append_left _ hmem, ht⟩
  · exact ⟨t, hturns ▸ hmem, ht⟩

theorem tainted_of_not_fits {s s' : State} {a : Act} (h : Step s a s')
    (hlen : s.entry.length = logEntrySize) (hnot : ¬ Fits s a) : Tainted s' := by
  obtain ⟨r, rfl, rfl⟩ | ⟨hother, _⟩ := step_cases h
  · refine ⟨s.record r, ?_, fun hfaith => hnot ((faithful_iff_fits hlen r).mp hfaith)⟩
    rw [turns_turn]
    exact List.mem_append_right _ List.mem_cons_self
  · cases a with
    | turn r => exact absurd rfl (hother r)
    | _ => exact absurd trivial hnot

/-- The entries of a run in which every datagram fits were received. -/
theorem faithful_step {s s' : State} {a : Act} (h : Step s a s') (hfits : Fits s a)
    (hlen : s.entry.length = logEntrySize) (hall : ∀ t ∈ s.turns, t.Faithful) :
    ∀ t ∈ s'.turns, t.Faithful := by
  obtain ⟨r, rfl, rfl⟩ | ⟨_, _, hturns⟩ := step_cases h
  · intro t hmem
    rw [turns_turn, List.mem_append, List.mem_singleton] at hmem
    rcases hmem with hmem | rfl
    · exact hall t hmem
    · exact (faithful_iff_fits hlen r).mpr hfits
  · rw [hturns]
    exact hall

/-- **Only received entries are pushed** by a run if and only if in each of its turns
    the layer is initialised and the datagram has the size of an entry or is
    empty. -/
theorem pushed_received_iff_fits {agent : SilogIpcAgent} {entry : Vector UInt8 logEntrySize}
    {acts : List Act} {s : State} (hrun : Steps Step (.initial agent entry) acts s) :
    (∀ t ∈ s.turns, t.Faithful) ↔ Steps (Guarded Step Fits) (.initial agent entry) acts s := by
  have hlen₀ : (State.initial agent entry).entry.length = logEntrySize := Vector.length_toList
  constructor
  · intro hall
    have hor := hrun.guarded_or (C := Fits) (I := fun s => s.entry.length = logEntrySize)
      (B := Tainted) hlen₀ (fun _ _ _ => length_entry_step) (fun _ _ _ h _ => tainted_step h)
      (fun _ _ _ => tainted_of_not_fits)
    rcases hor with hguard | ⟨t, hmem, ht⟩
    · exact hguard
    · exact absurd (hall t hmem) ht
  · intro hguard
    have hinv := hguard.invariant
      (I := fun s => s.entry.length = logEntrySize ∧ ∀ t ∈ s.turns, t.Faithful)
      (fun _ _ _ h hI => ⟨length_entry_step h.1 hI.1, faithful_step h.1 h.2 hI.1 hI.2⟩)
      ⟨hlen₀, nofun⟩
    exact hinv.2

/-- The system calls of `SilogIpcServerInit` succeed. -/
def serverUp : ServerEnv := { socket := some 4, getFl := true, setFl := true, bindOk := true }

/-- One datagram of the right size, an empty one and a turn without any. -/
def fittingRun : List Act :=
  [.start serverUp, .turn (.datagram (List.replicate logEntrySize 65)), .turn (.datagram []),
   .turn .failed, .leave]

def fitted : State :=
  (exec step (.initial .initial (Vector.replicate _ 0)) fittingRun).get rfl

theorem pushed_received_iff_fits_fitting :
    (fitted.turns.map fun t => t.pushed) = [some (List.replicate logEntrySize 65), none, none] ∧
    ∀ t ∈ fitted.turns, t.Faithful := by
  have hrun : Steps Step (.initial .initial (Vector.replicate _ 0)) fittingRun fitted :=
    steps_of_exec (fun _ _ _ => id) (Option.some_get rfl).symm
  refine ⟨by decide +kernel, (pushed_received_iff_fits hrun).mpr ?_⟩
  refine .cons _ _ ⟨rfl, trivial⟩ (.cons _ _ ⟨rfl, rfl, ?_⟩ (.cons _ _ ⟨rfl, rfl, ?_⟩
    (.cons _ _ ⟨rfl, rfl, nofun⟩ (.cons _ _ ⟨rfl, trivial⟩ (.nil _)))))
  · rintro d ⟨⟩
    exact Or.inl (by decide +kernel)
  · rintro d ⟨⟩
    exact Or.inr rfl

/-- An entry, and then a datagram of one byte. -/
def shortRun : List Act :=
  [.start serverUp, .turn (.datagram (List.replicate logEntrySize 65)), .turn (.datagram [66])]

def shortened : State :=
  (exec step (.initial .initial (Vector.replicate _ 0)) shortRun).get rfl

/-- The second entry pushed is one byte of the second datagram and the rest of the
    first one. -/
theorem shortRun_pushes_old_bytes :
    Steps Step (.initial .initial (Vector.replicate _ 0)) shortRun shortened ∧
    (shortened.turns.map fun t => t.pushed) =
      [some (List.replicate logEntrySize 65), some (66 :: List.replicate (logEntrySize - 1) 65)] ∧
    ¬ ∀ t ∈ shortened.turns, t.Faithful := by
  refine ⟨steps_of_exec (fun _ _ _ => id) (Option.some_get rfl).symm, by decide +kernel, ?_⟩
  intro hall
  have hlast : shortened.turns[1]? =
      some { received := some [66]
             pushed := some (66 :: List.replicate (logEntrySize - 1) 65) } := by decide +kernel
  have hrecv := (hall _ (List.mem_of_getElem? hlast) _ rfl).1
  exact absurd hrecv (by decide +kernel)

end SiLog.Daemon.Receive
