import SiLog.Entry
import SiLog.Mpsc.Single

/-! # Stopping the daemon

    The receive thread, the write thread and the thread that calls
    `SilogDaemonDeinit` share the flag `g_daemonRunning`.  Both threads leave
    their loops at the first test that finds the flag cleared, whatever is in
    `logQueue` at that moment; the compression thread of the file manager, in
    contrast, empties its queue first.

    The model goes from the creation of the two threads to the return of
    `SilogDaemonDeinit`.  `logQueue` is the queue of `SiLog.Mpsc` with one
    producer, and its steps interleave with those of the three threads.
-/

open Lts

namespace SiLog.Daemon.Shutdown

/-- An entry, as the queue stores it. -/
abbrev Entry : Type := Mpsc.Elem logEntrySize

/-- `logQueue` with its calls in progress. -/
abbrev LogQueue : Type := Mpsc.Config Unit logEntrySize

/-- A step of `SilogMpscQueuePush` or `SilogMpscQueuePop`. -/
abbrev QueueAct : Type := Mpsc.Act Unit logEntrySize

/-! ## Section 1: State -/

/-- Where `SilogDaemonRecvThreadFunc` is. -/
inductive RecvPc where
  /-- In `SilogIpcServerInit`. -/
  | ipcInit
  /-- At the loop test. -/
  | test
  /-- In `SilogIpcServerRecv`, or asleep. -/
  | body
  /-- In `SilogMpscQueuePush`. -/
  | push
  /-- Behind the loop. -/
  | left
  | done
  deriving DecidableEq

/-- Where `SilogDaemonWriteThreadFunc` is. -/
inductive WritePc where
  /-- At the loop test. -/
  | test
  | body
  /-- In `SilogMpscQueuePop`. -/
  | pop
  /-- `Pop` has returned the entry; it is formatted and written next. -/
  | format (e : Entry)
  | done

/-- Where the main thread is. -/
inductive MainPc where
  /-- In `SilogDaemonInit`, behind the creation of the threads. -/
  | storeRunning
  /-- `SilogDaemonInit` has returned. -/
  | up
  | joinRecv
  | joinWrite
  | release
  /-- `SilogDaemonDeinit` has returned. -/
  | returned
  deriving DecidableEq

/-- The daemon.  `handed` are the entries given to `SilogFileManagerWriteRaw`. -/
structure State where
  main    : MainPc
  running : Bool
  recv    : RecvPc
  write   : WritePc
  queue   : LogQueue
  handed  : List Entry

/-- The threads have just been created. -/
def State.initial (q : Mpsc.SiLogMpscQueue logEntrySize) : State where
  main := .storeRunning
  running := false
  recv := .ipcInit
  write := .test
  queue := Mpsc.initConfig q
  handed := []

/-! ## Section 2: Steps -/

inductive Act where
  | storeRunning
  /-- `SilogDaemonDeinit` is called and clears the flag. -/
  | callDeinit
  | joinRecv
  | joinWrite
  | release
  /-- The result of `SilogIpcServerInit`. -/
  | recvStart (ok : Bool)
  | recvTest
  /-- `SilogIpcServerRecv` returns nothing positive. -/
  | recvNothing
  /-- `SilogIpcServerClose`. -/
  | recvClose
  /-- A step of `Push`; the first one comes with the entry received. -/
  | push (a : QueueAct)
  | writeTest
  /-- A step of `Pop`. -/
  | pop (a : QueueAct)
  /-- `snprintf_s`, and `SilogFileManagerWriteRaw` unless that fails. -/
  | format (ok : Bool)

/-- The receive thread behind a step of its `Push`. -/
def RecvPc.after : RecvPc → QueueAct → Option RecvPc
  | .body, .fetchAdd _ _ => some .push
  | .push, .loadRead _ | .push, .cas _ _ | .push, .copyByte _ _ => some .push
  -- `Push` returns
  | .push, .fetchSub _ | .push, .storeReady _ => some .test
  | _, _ => none

/-- The write thread behind a step of its `Pop` that takes the queue from `q` to `q'`. -/
def WritePc.after (q q' : LogQueue) : WritePc → QueueAct → Option WritePc
  | .body, .popLoadRead _ => some .pop
  | .pop, .popLoadSeq =>
    match q'.1.pop with
    -- the queue is empty: the thread sleeps and goes on
    | .idle => some .test
    | _ => some .pop
  | .pop, .popCopyByte _ | .pop, .popStoreSeq => some .pop
  | .pop, .popStoreRead =>
    match q.1.pop with
    | .advance _ out => some (.format out)
    | _ => none
  | _, _ => none

/-- One step of the daemon. -/
def step (s : State) : Act → Option State
  | .storeRunning =>
    if s.main = .storeRunning then some { s with main := .up, running := true } else none
  | .callDeinit =>
    if s.main = .up then some { s with main := .joinRecv, running := false } else none
  | .joinRecv =>
    if s.main = .joinRecv ∧ s.recv = .done then some { s with main := .joinWrite } else none
  | .joinWrite =>
    match s.main, s.write with
    | .joinWrite, .done => some { s with main := .release }
    | _, _ => none
  -- the remote service, the file manager and the queue
  | .release => if s.main = .release then some { s with main := .returned } else none
  | .recvStart ok =>
    if s.recv = .ipcInit then some { s with recv := if ok then .test else .done } else none
  | .recvTest =>
    if s.recv = .test then some { s with recv := if s.running then .body else .left } else none
  | .recvNothing => if s.recv = .body then some { s with recv := .test } else none
  | .recvClose => if s.recv = .left then some { s with recv := .done } else none
  | .push a =>
    (s.recv.after a).bind fun recv =>
      (Mpsc.next s.queue a).map fun q => { s with recv := recv, queue := q }
  | .writeTest =>
    match s.write with
    | .test => some { s with write := if s.running then .body else .done }
    | _ => none
  | .pop a =>
    (Mpsc.next s.queue a).bind fun q =>
      (s.write.after s.queue q a).map fun write => { s with write := write, queue := q }
  | .format ok =>
    match s.write with
    | .format e =>
      some { s with write := .test, handed := if ok then s.handed ++ [e] else s.handed }
    | _ => none

def Step (s : State) (a : Act) (s' : State) : Prop := step s a = some s'

/-! ## Section 3: An orderly stop -/

def WritePc.isDone : WritePc → Bool
  | .done => true
  | _ => false

/-- When the write thread leaves its loop, a `Pop` would find the queue empty; no
    `Push` returns `SILOG_OK` after that; and every entry can be formatted. -/
def Orderly (s : State) : Act → Prop
  | .writeTest => s.running = false →
    (Mpsc.silogMpscQueuePop s.queue.1.queue).1 = .transQueueEmpty
  | .push (.storeReady _) => s.write.isDone = false
  | .format ok => ok
  | _ => True

/-- The entry that was popped and not yet handed over. -/
def WritePc.pending : WritePc → List Entry
  | .format e => [e]
  | _ => []

/-! ## Section 4: What a step does to the queue -/

section queue
variable {c c' : LogQueue} {a : QueueAct}

/-- A step of `Push` leaves the consumer alone, and only its last one adds an entry. -/
theorem push_effect {pc pc' : RecvPc} (hafter : pc.after a = some pc')
    (hstep : Mpsc.Step c a c') : c'.1.pop = c.1.pop ∧ c'.2.popped = c.2.popped ∧
      (a ≠ .storeReady () ∧ c'.2.pushed = c.2.pushed ∨
        a = .storeReady () ∧ ∃ e, c'.2.pushed = c.2.pushed ++ [e]) := by
  cases a with
  | fetchAdd p e =>
    obtain ⟨_, rfl⟩ := Mpsc.step_fetchAdd hstep
    exact ⟨rfl, rfl, Or.inl ⟨nofun, rfl⟩⟩
  | loadRead p =>
    obtain ⟨_, _, _, ⟨_, rfl⟩ | ⟨_, rfl⟩⟩ := Mpsc.step_loadRead hstep <;>
      exact ⟨rfl, rfl, Or.inl ⟨nofun, rfl⟩⟩
  | fetchSub p =>
    obtain ⟨_, _, rfl⟩ := Mpsc.step_fetchSub hstep
    exact ⟨rfl, rfl, Or.inl ⟨nofun, rfl⟩⟩
  | cas p spurious =>
    obtain ⟨_, _, _, ⟨_, rfl⟩ | ⟨_, rfl⟩ | rfl⟩ := Mpsc.step_cas hstep <;>
      exact ⟨rfl, rfl, Or.inl ⟨nofun, rfl⟩⟩
  | copyByte p b =>
    obtain ⟨_, _, _, _, rfl⟩ := Mpsc.step_copyByte hstep
    exact ⟨rfl, rfl, Or.inl ⟨nofun, rfl⟩⟩
  | storeReady p =>
    obtain ⟨e, _, _, rfl⟩ := Mpsc.step_storeReady hstep
    refine ⟨rfl, rfl, Or.inr ⟨rfl, e, ?_⟩⟩
    simp [Mpsc.History.pushed, Mpsc.History.returnOk]
  | _ => cases pc <;> cases hafter

/-- What a step of `Pop` does: it goes on, it finds the queue empty, or it returns an
    entry. -/
theorem pop_effect {pc pc' : WritePc} (hafter : pc.after c c' a = some pc')
    (hstep : Mpsc.Step c a c') : c'.2.pushed = c.2.pushed ∧ pc.isDone = false ∧
      pc.pending = [] ∧
      (pc' = .pop ∧ c'.2.popped = c.2.popped ∨
        pc' = .test ∧ c'.1.pop = .idle ∧ c'.2.popped = c.2.popped ∨
        ∃ e, pc' = .format e ∧ c'.1.pop = .idle ∧ c'.2.popped = c.2.popped ++ [e]) := by
  cases a with
  | popLoadRead out =>
    obtain ⟨_, rfl⟩ := Mpsc.step_popLoadRead hstep
    cases pc with
    | body =>
      cases hafter
      exact ⟨rfl, rfl, rfl, Or.inl ⟨rfl, rfl⟩⟩
    | _ => cases hafter
  | popLoadSeq =>
    cases pc with
    | pop =>
      obtain ⟨_, _, _, ⟨_, rfl⟩ | ⟨_, rfl⟩⟩ := Mpsc.step_popLoadSeq hstep
      · cases hafter
        exact ⟨rfl, rfl, rfl, Or.inr (Or.inl ⟨rfl, rfl, rfl⟩)⟩
      · cases hafter
        exact ⟨rfl, rfl, rfl, Or.inl ⟨rfl, rfl⟩⟩
    | _ => cases hafter
  | popCopyByte b =>
    obtain ⟨_, _, _, _, rfl⟩ := Mpsc.step_popCopyByte hstep
    cases pc with
    | pop =>
      cases hafter
      exact ⟨rfl, rfl, rfl, Or.inl ⟨rfl, rfl⟩⟩
    | _ => cases hafter
  | popStoreSeq =>
    obtain ⟨_, _, _, rfl⟩ := Mpsc.step_popStoreSeq hstep
    cases pc with
    | pop =>
      cases hafter
      exact ⟨rfl, rfl, rfl, Or.inl ⟨rfl, rfl⟩⟩
    | _ => cases hafter
  | popStoreRead =>
    cases pc with
    | pop =>
      obtain ⟨_, out, hpc, rfl⟩ := Mpsc.step_popStoreRead hstep
      simp only [WritePc.after, hpc] at hafter
      cases hafter
      exact ⟨rfl, rfl, rfl, Or.inr (Or.inr ⟨out, rfl, rfl, rfl⟩)⟩
    | _ => cases hafter
  | _ => cases pc <;> cases hafter

end queue

/-- `SilogDaemonDeinit` has joined the write thread. -/
def MainPc.joined : MainPc → Bool
  | .release | .returned => true
  | _ => false

/-- What a step does: it leaves the queue and the write thread alone, or it is a step
    of `Push`, the loop test of the write thread, a step of `Pop`, or the
    writing of an entry. -/
theorem step_effect {s s' : State} {a : Act} (h : Step s a s') :
    (Orderly s a ∧ s'.queue = s.queue ∧ s'.write = s.write ∧ s'.handed = s.handed ∧
      (s'.main.joined → s.main.joined ∨ s.write = .done)) ∨
    (∃ b recv q, a = .push b ∧ s.recv.after b = some recv ∧ Mpsc.Step s.queue b q ∧
      s' = { s with recv := recv, queue := q }) ∨
    (a = .writeTest ∧ s.write = .test ∧
      s' = { s with write := if s.running then .body else .done }) ∨
    (∃ b write q, a = .pop b ∧ s.write.after s.queue q b = some write ∧
      Mpsc.Step s.queue b q ∧ s' = { s with write := write, queue := q }) ∨
    (∃ ok e, a = .format ok ∧ s.write = .format e ∧
      s' = { s with write := .test, handed := if ok then s.handed ++ [e] else s.handed }) := by
  unfold Step step at h
  cases a with
  | recvStart | recvTest | recvNothing | recvClose =>
    dsimp only at h
    split at h
    · cases h
      exact Or.inl ⟨trivial, rfl, rfl, rfl, Or.inl⟩
    · cases h
  | storeRunning | callDeinit | joinRecv =>
    dsimp only at h
    split at h
    · cases h
      exact Or.inl ⟨trivial, rfl, rfl, rfl, fun h => nomatch h⟩
    · cases h
  | joinWrite =>
    dsimp only at h
    split at h
    next hdone =>
      cases h
      exact Or.inl ⟨trivial, rfl, rfl, rfl, fun _ => Or.inr hdone⟩
    · cases h
  | release =>
    dsimp only at h
    split at h
    next hmain =>
      cases h
      exact Or.inl ⟨trivial, rfl, rfl, rfl, fun _ => Or.inl (by rw [hmain]; rfl)⟩
    · cases h
  | push b =>
    obtain ⟨recv, hafter, hnext⟩ := Option.bind_eq_some_iff.mp h
    obtain ⟨q, hq, rfl⟩ := Option.map_eq_some_iff.mp hnext
    exact Or.inr (Or.inl ⟨b, recv, q, rfl, hafter, Mpsc.step_of_next _ _ _ hq, rfl⟩)
  | writeTest =>
    dsimp only at h
    split at h
    next hwrite =>
      cases h
      exact Or.inr (Or.inr (Or.inl ⟨rfl, hwrite, rfl⟩))
    · cases h
  | pop b =>
    obtain ⟨q, hq, hafter⟩ := Option.bind_eq_some_iff.mp h
    obtain ⟨write, hwrite, rfl⟩ := Option.map_eq_some_iff.mp hafter
    exact Or.inr (Or.inr (Or.inr (Or.inl
      ⟨b, write, q, rfl, hwrite, Mpsc.step_of_next _ _ _ hq, rfl⟩)))
  | format ok =>
    dsimp only at h
    split at h
    next e hwrite =>
      cases h
      exact Or.inr (Or.inr (Or.inr (Or.inr ⟨ok, e, rfl, hwrite, rfl⟩)))
    · cases h

/-! ## Section 5: Invariants -/

/-- The queue has one producer and one consumer, `Pop` runs only inside the write
    thread, and no entry is handed over before it is popped. -/
structure Inv (s : State) : Prop where
  single : Mpsc.SingleInv s.queue
  idle   : s.write ≠ .pop → s.queue.1.pop = .idle
  joined : s.main.joined → s.write = .done
  handed : s.handed.length + s.write.pending.length ≤ s.queue.2.popped.length

theorem Inv.step {s s' : State} {a : Act} (hI : Inv s) (h : Step s a s') : Inv s' := by
  obtain ⟨_, hq, hw, hh, hj⟩ | ⟨b, recv, q, rfl, hafter, hq, rfl⟩ | ⟨rfl, hw, rfl⟩ |
    ⟨b, write, q, rfl, hafter, hq, rfl⟩ | ⟨ok, e, rfl, hw, rfl⟩ := step_effect h
  · refine ⟨hq ▸ hI.single, fun hpop => ?_, fun hjoin => ?_, ?_⟩
    · rw [hq]
      exact hI.idle (hw ▸ hpop)
    · rw [hw]
      exact (hj hjoin).elim hI.joined id
    · rw [hq, hw, hh]
      exact hI.handed
  · obtain ⟨hpop, hpopped, _⟩ := push_effect hafter hq
    refine ⟨hI.single.step hq, fun hw => hpop.trans (hI.idle hw), hI.joined, ?_⟩
    rw [hpopped]
    exact hI.handed
  · have hidle := hI.idle (by rw [hw]; exact nofun)
    have hle := hI.handed
    rw [hw] at hle
    refine ⟨hI.single, fun _ => hidle, fun hjoin => ?_, ?_⟩
    · have hdone := hI.joined hjoin
      rw [hw] at hdone
      cases hdone
    · cases hrun : s.running <;> exact hle
  · obtain ⟨_, hnot, hpend, heff⟩ := pop_effect hafter hq
    have hle := hI.handed
    rw [hpend] at hle
    have hjoin : ¬ s.main.joined := by
      intro hjoin
      rw [hI.joined hjoin] at hnot
      cases hnot
    refine ⟨hI.single.step hq, ?_, fun h => absurd h hjoin, ?_⟩
    · obtain ⟨rfl, _⟩ | ⟨rfl, hidle, _⟩ | ⟨_, rfl, hidle, _⟩ := heff
      · exact fun h => absurd rfl h
      · exact fun _ => hidle
      · exact fun _ => hidle
    · obtain ⟨rfl, hpopped⟩ | ⟨rfl, _, hpopped⟩ | ⟨_, rfl, _, hpopped⟩ := heff
      · rw [hpopped]
        exact hle
      · rw [hpopped]
        exact hle
      · rw [hpopped, List.length_append]
        exact Nat.succ_le_succ hle
  · have hidle := hI.idle (by rw [hw]; exact nofun)
    have hle := hI.handed
    rw [hw] at hle
    refine ⟨hI.single, fun _ => hidle, fun hjoin => ?_, ?_⟩
    · have hdone := hI.joined hjoin
      rw [hw] at hdone
      cases hdone
    · cases ok with
      | true =>
        rw [if_pos rfl, List.length_append]
        exact hle
      | false => exact (Nat.le_add_right _ _).trans hle

/-- Nothing is lost so far: what was popped was handed over or is about to be, and
    when the write thread is done, everything was popped. -/
structure Kept (s : State) : Prop where
  handed   : s.handed ++ s.write.pending = s.queue.2.popped
  finished : s.write = .done → s.queue.2.popped = s.queue.2.pushed

/-- An orderly step loses nothing. -/
theorem Kept.step {s s' : State} {a : Act} (hK : Kept s) (hI : Inv s) (horderly : Orderly s a)
    (h : Step s a s') : Kept s' := by
  obtain ⟨_, hq, hw, hh, _⟩ | ⟨b, recv, q, rfl, hafter, hq, rfl⟩ | ⟨rfl, hw, rfl⟩ |
    ⟨b, write, q, rfl, hafter, hq, rfl⟩ | ⟨ok, e, rfl, hw, rfl⟩ := step_effect h
  · refine ⟨?_, fun hdone => ?_⟩
    · rw [hq, hw, hh]
      exact hK.handed
    · rw [hq]
      exact hK.finished (hw ▸ hdone)
  · obtain ⟨_, hpopped, hpushed⟩ := push_effect hafter hq
    refine ⟨hK.handed.trans hpopped.symm, fun hdone => ?_⟩
    rcases hpushed with ⟨_, hpushed⟩ | ⟨rfl, _⟩
    · exact hpopped.trans ((hK.finished hdone).trans hpushed.symm)
    · -- no push returns once the write thread is done
      have hdone' : s.write = .done := hdone
      rw [Orderly, hdone'] at horderly
      cases horderly
  · have hhanded := hK.handed
    rw [hw] at hhanded
    have hidle := hI.idle (by rw [hw]; exact nofun)
    cases hrun : s.running with
    | true => exact ⟨hhanded, fun h => nomatch h⟩
    | false => exact ⟨hhanded, fun _ => (hI.single.pop_empty_iff hidle).mp (horderly hrun)⟩
  · obtain ⟨_, _, hpend, heff⟩ := pop_effect hafter hq
    have hhanded := hK.handed
    rw [hpend, List.append_nil] at hhanded
    obtain ⟨rfl, hpopped⟩ | ⟨rfl, _, hpopped⟩ | ⟨_, rfl, _, hpopped⟩ := heff
    · exact ⟨(List.append_nil _).trans (hhanded.trans hpopped.symm), fun h => nomatch h⟩
    · exact ⟨(List.append_nil _).trans (hhanded.trans hpopped.symm), fun h => nomatch h⟩
    · refine ⟨?_, fun h => nomatch h⟩
      rw [hpopped, ← hhanded]
      rfl
  · have hhanded := hK.handed
    rw [hw] at hhanded
    have hok : ok = true := horderly
    subst hok
    exact ⟨(List.append_nil _).trans hhanded, fun h => nomatch h⟩

/-- An entry is lost: it was popped and not handed over, or the write thread is done
    and it was not popped. -/
def Lost (s : State) : Prop :=
  s.handed.length + s.write.pending.length < s.queue.2.popped.length ∨
  s.write = .done ∧ s.queue.2.popped.length < s.queue.2.pushed.length

/-- What is lost stays lost. -/
theorem Lost.step {s s' : State} {a : Act} (hL : Lost s) (h : Step s a s') : Lost s' := by
  obtain ⟨_, hq, hw, hh, _⟩ | ⟨b, recv, q, rfl, hafter, hq, rfl⟩ | ⟨rfl, hw, rfl⟩ |
    ⟨b, write, q, rfl, hafter, hq, rfl⟩ | ⟨ok, e, rfl, hw, rfl⟩ := step_effect h
  · unfold Lost
    rw [hq, hw, hh]
    exact hL
  · obtain ⟨_, hpopped, hpushed⟩ := push_effect hafter hq
    have hmore : s.queue.2.pushed.length ≤ q.2.pushed.length := by
      rcases hpushed with ⟨_, hpushed⟩ | ⟨_, e, hpushed⟩
      · rw [hpushed]
      · rw [hpushed, List.length_append]
        exact Nat.le_add_right _ _
    rcases hL with hlt | ⟨hdone, hlt⟩
    · exact Or.inl (hlt.trans_eq (congrArg List.length hpopped).symm)
    · refine Or.inr ⟨hdone, ?_⟩
      rw [hpopped]
      exact hlt.trans_le hmore
  · rcases hL with hlt | ⟨hdone, _⟩
    · rw [hw] at hlt
      refine Or.inl ?_
      cases hrun : s.running <;> exact hlt
    · rw [hw] at hdone
      cases hdone
  · obtain ⟨_, hnot, hpend, heff⟩ := pop_effect hafter hq
    rcases hL with hlt | ⟨hdone, _⟩
    · rw [hpend] at hlt
      obtain ⟨rfl, hpopped⟩ | ⟨rfl, _, hpopped⟩ | ⟨_, rfl, _, hpopped⟩ := heff
      · exact Or.inl (hlt.trans_eq (congrArg List.length hpopped).symm)
      · exact Or.inl (hlt.trans_eq (congrArg List.length hpopped).symm)
      · refine Or.inl ?_
        rw [hpopped, List.length_append]
        exact Nat.succ_lt_succ hlt
    · rw [hdone] at hnot
      cases hnot
  · rcases hL with hlt | ⟨hdone, _⟩
    · rw [hw] at hlt
      refine Or.inl ?_
      cases ok with
      | true =>
        rw [if_pos rfl, List.length_append]
        exact hlt
      | false => exact (Nat.le_add_right _ _).trans_lt hlt
    · rw [hw] at hdone
      cases hdone

/-- A step that is not orderly loses an entry. -/
theorem lost_of_not_orderly {s s' : State} {a : Act} (hI : Inv s) (h : Step s a s')
    (hnot : ¬ Orderly s a) : Lost s' := by
  have hle := hI.single.popped_isPrefix.length_le
  obtain ⟨horderly, _⟩ | ⟨b, recv, q, rfl, hafter, hq, rfl⟩ | ⟨rfl, hw, rfl⟩ |
    ⟨b, write, q, rfl, _, _, rfl⟩ | ⟨ok, e, rfl, hw, rfl⟩ := step_effect h
  · exact absurd horderly hnot
  · obtain ⟨_, hpopped, hpushed⟩ := push_effect hafter hq
    rcases hpushed with ⟨hother, _⟩ | ⟨rfl, e, hpushed⟩
    · refine absurd ?_ hnot
      cases b with
      | storeReady p => exact absurd rfl hother
      | _ => trivial
    · -- the push returns when the write thread is gone
      have hdone : s.write = .done := by
        cases hw : s.write with
        | done => rfl
        | _ => exact absurd (by rw [Orderly, hw]; rfl) hnot
      refine Or.inr ⟨hdone, ?_⟩
      rw [hpopped, hpushed, List.length_append]
      exact Nat.lt_succ_of_le hle
  · have hidle := hI.idle (by rw [hw]; exact nofun)
    obtain ⟨hrun, hmore⟩ := Classical.not_imp.mp hnot
    rw [hI.single.pop_empty_iff hidle] at hmore
    refine Or.inr ⟨by rw [hrun]; rfl, ?_⟩
    refine hle.lt_of_ne fun heq => hmore ?_
    exact hI.single.popped_isPrefix.eq_of_length heq
  · exact absurd trivial hnot
  · have hhanded := hI.handed
    rw [hw] at hhanded
    cases ok with
    | true => exact absurd rfl hnot
    | false => exact Or.inl hhanded

/-! ## Section 6: The stop of the daemon -/

/-- `DAEMON_LOG_QUEUE_CAPACITY` -/
def logQueueCapacity : UInt32 := 4096

theorem inv_initial {mem : Option (UInt32 → Entry)} {seqOk : Bool}
    {q : Mpsc.SiLogMpscQueue logEntrySize}
    (hinit : Mpsc.silogMpscQueueInit logQueueCapacity mem seqOk = .ok q) : Inv (.initial q) :=
  ⟨Mpsc.singleInv_init hinit (by decide), fun _ => rfl, (nomatch ·), le_refl 0⟩

/-- **Orderly stop.** When `SilogDaemonDeinit` has returned, the write thread has
    handed over every entry whose `SilogMpscQueuePush` returned `SILOG_OK`, if and
    only if the stop was orderly. -/
theorem handed_iff_orderly {mem : Option (UInt32 → Entry)} {seqOk : Bool}
    {q : Mpsc.SiLogMpscQueue logEntrySize} {acts : List Act} {s : State}
    (hinit : Mpsc.silogMpscQueueInit logQueueCapacity mem seqOk = .ok q)
    (hrun : Steps Step (.initial q) acts s) (hret : s.main = .returned) :
    s.handed = s.queue.2.pushed ↔ Steps (Guarded Step Orderly) (.initial q) acts s := by
  have hI : Inv s := hrun.invariant (fun _ _ _ h hI => hI.step h) (inv_initial hinit)
  have hdone : s.write = .done := hI.joined (by rw [hret]; rfl)
  constructor
  · intro hall
    have hor := hrun.guarded_or (C := Orderly) (I := Inv) (B := Lost) (inv_initial hinit)
      (fun _ _ _ h hI => hI.step h) (fun _ _ _ h _ hL => hL.step h)
      (fun _ _ _ h hI hnot => lost_of_not_orderly hI h hnot)
    rcases hor with hguard | hlost
    · exact hguard
    · -- something is missing at the end
      have hlen : s.handed.length = s.queue.2.pushed.length := congrArg List.length hall
      have hle := hI.single.popped_isPrefix.length_le
      have hle' := hI.handed
      rcases hlost with hlt | ⟨_, hlt⟩ <;> omega
  · intro hguard
    have hboth := hguard.invariant (I := fun s => Inv s ∧ Kept s)
      (fun _ _ _ h hIK => ⟨hIK.1.step h.1, hIK.2.step hIK.1 h.2 h.1⟩)
      ⟨inv_initial hinit, rfl, fun h => nomatch h⟩
    have hhanded := hboth.2.handed
    rw [hdone] at hhanded
    rw [← hboth.2.finished hdone, ← hhanded]
    exact (List.append_nil _).symm

/-- `logQueue` with its memory zeroed. -/
def logQueue : Mpsc.SiLogMpscQueue logEntrySize where
  buffer := fun _ _ => 0
  capacity := logQueueCapacity
  writePos := 0
  readPos := 0
  seq := fun i => i
  capacityMask := 4095

theorem logQueue_init :
    Mpsc.silogMpscQueueInit logQueueCapacity (some fun _ _ => 0) true = .ok logQueue := by
  rfl

theorem step_push {s : State} {b : QueueAct} {recv : RecvPc} {q : LogQueue}
    (hafter : s.recv.after b = some recv) (hq : Mpsc.Step s.queue b q) :
    Step s (.push b) { s with recv := recv, queue := q } := by
  simp only [Step, step, hafter, Option.bind_some, Mpsc.next_of_step hq, Option.map_some]

theorem step_pop {s : State} {b : QueueAct} {write : WritePc} {q : LogQueue}
    (hafter : s.write.after s.queue q b = some write) (hq : Mpsc.Step s.queue b q) :
    Step s (.pop b) { s with write := write, queue := q } := by
  simp only [Step, step, Mpsc.next_of_step hq, Option.bind_some, hafter, Option.map_some]

/-- The steps of `Push` between the first and the last. -/
theorem steps_inPush {s : State} {c c' : LogQueue} {mid : List QueueAct}
    (hrun : Steps Mpsc.Step c mid c') (hin : ∀ b ∈ mid, b.inPush) :
    Steps (Guarded Step Orderly) { s with recv := .push, queue := c } (mid.map .push)
      { s with recv := .push, queue := c' } := by
  induction hrun with
  | nil c => exact .nil _
  | @cons c c₁ c' b mid hstep _ ih =>
    obtain ⟨hb, hin⟩ := List.forall_mem_cons.mp hin
    have hafter : RecvPc.after .push b = some .push ∧
        Orderly { s with recv := .push, queue := c } (.push b) := by
      cases b with
      | loadRead | cas | copyByte => exact ⟨rfl, trivial⟩
      | _ => cases hb
    exact .cons _ _ ⟨step_push hafter.1 hstep, hafter.2⟩ (ih hin)

/-- The bytes that `Pop` copies. -/
theorem steps_popCopy {s : State} {c c' : LogQueue} {mid : List (Fin logEntrySize)}
    (hrun : Steps Mpsc.Step c (mid.map .popCopyByte) c') :
    Steps (Guarded Step Orderly) { s with write := .pop, queue := c }
      (mid.map fun b => .pop (.popCopyByte b)) { s with write := .pop, queue := c' } := by
  induction mid generalizing c with
  | nil =>
    cases hrun
    exact .nil _
  | cons b mid ih =>
    obtain _ | ⟨_, _, hstep, hrest⟩ := hrun
    exact .cons _ _ ⟨step_pop rfl hstep, trivial⟩ (ih hrest)

/-- The receive thread pushes an entry and nothing else runs. -/
theorem steps_pushAlone {s : State} {e : Entry} {turns : List Bool}
    {q' : Mpsc.SiLogMpscQueue logEntrySize} (hbody : s.recv = .body)
    (hidle : s.queue.1.push () = .idle) (hnot : s.write.isDone = false)
    (hpush : Mpsc.silogMpscQueuePush s.queue.1.queue e turns = some (.ok, q')) :
    ∃ acts h', Steps (Guarded Step Orderly) s acts
        { s with recv := .test, queue := (s.queue.1.setPush q' () .idle, h') } ∧
      h'.popped = s.queue.2.popped ∧ h'.pushed = s.queue.2.pushed ++ [e] := by
  obtain ⟨c₁, mid, c₂, h', hfirst, hmid, hin, hlast, hpopped, hpushed⟩ :=
    Mpsc.steps_push (h := s.queue.2) (p := ()) hidle hpush
  have hstart : Step s (.push (.fetchAdd () e)) { s with recv := .push, queue := c₁ } :=
    step_push (by rw [hbody]; rfl) hfirst
  have hend : Step { s with recv := .push, queue := c₂ } (.push (.storeReady ()))
      { s with recv := .test, queue := (s.queue.1.setPush q' () .idle, h') } := step_push rfl hlast
  exact ⟨_, h', .cons _ _ ⟨hstart, trivial⟩
    ((steps_inPush hmid hin).append (.single ⟨hend, hnot⟩)), hpopped, hpushed⟩

/-- The write thread pops an entry and writes it, and nothing else runs. -/
theorem steps_popAlone {s : State} {e : Entry} {q' : Mpsc.SiLogMpscQueue logEntrySize}
    (hbody : s.write = .body) (hidle : s.queue.1.pop = .idle)
    (hpop : Mpsc.silogMpscQueuePop s.queue.1.queue = (.ok, some e, q')) :
    ∃ acts, Steps (Guarded Step Orderly) s acts
      { s with write := .test, queue := (s.queue.1.setPop q' .idle, s.queue.2.pop e)
               handed := s.handed ++ [e] } := by
  obtain ⟨w, q₂, mid, hload, hcheck, hcopy, hfree, hadvance⟩ :=
    Mpsc.steps_pop_ok (h := s.queue.2) (fun _ => 0) hidle hpop
  have hstart : Step s (.pop (.popLoadRead fun _ => 0))
      { s with write := .pop
               queue := (s.queue.1.setPop s.queue.1.queue (.loaded w fun _ => 0), s.queue.2) } :=
    step_pop (by rw [hbody]; rfl) hload
  have hready : Step
      { s with write := .pop
               queue := (s.queue.1.setPop s.queue.1.queue (.loaded w fun _ => 0), s.queue.2) }
      (.pop .popLoadSeq)
      { s with write := .pop
               queue := (s.queue.1.setPop s.queue.1.queue (.copy w (fun _ => 0) ∅), s.queue.2) } :=
    step_pop rfl hcheck
  have hfreed : Step
      { s with write := .pop
               queue := (s.queue.1.setPop s.queue.1.queue (.copy w e Finset.univ), s.queue.2) }
      (.pop .popStoreSeq)
      { s with write := .pop, queue := (s.queue.1.setPop q₂ (.advance w e), s.queue.2) } :=
    step_pop rfl hfree
  have hpopped : Step
      { s with write := .pop, queue := (s.queue.1.setPop q₂ (.advance w e), s.queue.2) }
      (.pop .popStoreRead)
      { s with write := .format e, queue := (s.queue.1.setPop q' .idle, s.queue.2.pop e) } :=
    step_pop rfl hadvance
  have hwritten : Step
      { s with write := .format e, queue := (s.queue.1.setPop q' .idle, s.queue.2.pop e) }
      (.format true)
      { s with write := .test, queue := (s.queue.1.setPop q' .idle, s.queue.2.pop e)
               handed := s.handed ++ [e] } := rfl
  exact ⟨_, .cons _ _ ⟨hstart, trivial⟩ (.cons _ _ ⟨hready, trivial⟩
    ((steps_popCopy hcopy).append (.cons _ _ ⟨hfreed, trivial⟩
      (.cons _ _ ⟨hpopped, trivial⟩ (.single ⟨hwritten, rfl⟩)))))⟩

/-- The daemon after the receive thread has pushed an entry. -/
theorem steps_pushOne (e : Entry) : ∃ acts q h',
    Steps (Guarded Step Orderly) (.initial logQueue) acts
      { State.initial logQueue with
        main := .up, running := true, recv := .test
        queue := ((State.initial logQueue).queue.1.setPush q () .idle, h') } ∧
    h'.popped = [] ∧ h'.pushed = [e] ∧ Mpsc.Holds q 0 [e] := by
  obtain ⟨hcap, hholds⟩ := Mpsc.holds_init logQueue_init
  have hroom : ([] : List Entry).length < logQueue.capacity.toNat := by
    rw [hcap]
    decide
  have hfair : false ∈ [false] := List.mem_cons_self
  obtain ⟨q, hpush, _, hq⟩ := hholds.push_ok hroom e hfair
  let s : State := { State.initial logQueue with main := .up, running := true, recv := .body }
  have hup : Steps Step (.initial logQueue) [.storeRunning, .recvStart true, .recvTest] s :=
    steps_of_exec (fun _ _ _ => id) rfl
  have hpush' : Mpsc.silogMpscQueuePush s.queue.1.queue e [false] = some (.ok, q) := hpush
  obtain ⟨acts, h', hsteps, hpopped, hpushed⟩ := steps_pushAlone (s := s) rfl rfl rfl hpush'
  have hup' := hup.guarded_of_forall (C := Orderly) (by simp [Orderly])
  exact ⟨_, q, h', hup'.append hsteps, hpopped, hpushed, hq⟩

/-- `SilogDaemonDeinit` is called with both threads at their loop tests, and they go
    one after the other. -/
def stopRun : List Act :=
  [.callDeinit, .recvTest, .recvClose, .joinRecv, .writeTest, .joinWrite, .release]

/-- The daemon when `SilogDaemonDeinit` has returned. -/
def State.stopped (s : State) : State :=
  { s with main := .returned, running := false, recv := .done, write := .done }

theorem steps_stop {s : State} (hmain : s.main = .up) (hrecv : s.recv = .test)
    (hwrite : s.write = .test) : Steps Step s stopRun s.stopped := by
  obtain ⟨main, running, recv, write, queue, handed⟩ := s
  cases hmain
  cases hrecv
  cases hwrite
  exact steps_of_exec (fun _ _ _ => id) rfl

/-- The daemon stops before the write thread has looked at the queue: the entry that
    was accepted is not handed over. -/
theorem hasty_stop_loses_entry :
    ¬ ∀ acts s, Steps Step (.initial logQueue) acts s → s.main = .returned →
      s.handed = s.queue.2.pushed := by
  intro hall
  obtain ⟨acts, q, h', hpush, _, hpushed, _⟩ := steps_pushOne fun _ => 65
  have hstop := hpush.of_guarded.append (steps_stop rfl rfl rfl)
  have hhanded : [] = h'.pushed := hall _ _ hstop rfl
  rw [hpushed] at hhanded
  cases hhanded

/-- The same stop with the queue empty is orderly. -/
theorem steps_stop_orderly {s : State} (hmain : s.main = .up) (hrecv : s.recv = .test)
    (hwrite : s.write = .test)
    (hempty : (Mpsc.silogMpscQueuePop s.queue.1.queue).1 = .transQueueEmpty) :
    Steps (Guarded Step Orderly) s stopRun s.stopped := by
  obtain ⟨main, running, recv, write, queue, handed⟩ := s
  cases hmain
  cases hrecv
  cases hwrite
  have hjoin : Steps Step ⟨.up, running, .test, .test, queue, handed⟩
      [.callDeinit, .recvTest, .recvClose, .joinRecv]
      ⟨.joinWrite, false, .done, .test, queue, handed⟩ := steps_of_exec (fun _ _ _ => id) rfl
  have hleave : Step ⟨.joinWrite, false, .done, .test, queue, handed⟩ .writeTest
      ⟨.joinWrite, false, .done, .done, queue, handed⟩ := rfl
  have hrelease : Steps Step ⟨.joinWrite, false, .done, .done, queue, handed⟩
      [.joinWrite, .release] ⟨.returned, false, .done, .done, queue, handed⟩ :=
    steps_of_exec (fun _ _ _ => id) rfl
  exact (hjoin.guarded_of_forall (by simp [Orderly])).append
    (.cons _ _ ⟨hleave, fun _ => hempty⟩ (hrelease.guarded_of_forall (by simp [Orderly])))

/-- One entry goes through the queue before the daemon stops. -/
theorem handed_iff_orderly_one : ∃ acts s,
    Steps Step (.initial logQueue) acts s ∧ s.main = .returned ∧
    s.queue.2.pushed = [fun _ => 65] ∧ s.handed = s.queue.2.pushed := by
  obtain ⟨acts, q, h', hpush, _, hpushed, hq⟩ := steps_pushOne fun _ => 65
  obtain ⟨q₂, hpop, _, hq₂⟩ := hq.pop_ok
  let s₁ : State := { State.initial logQueue with
    main := .up, running := true, recv := .test, write := .body
    queue := ((State.initial logQueue).queue.1.setPush q () .idle, h') }
  have htest : Guarded Step Orderly { s₁ with write := .test } .writeTest s₁ :=
    ⟨rfl, fun h => nomatch h⟩
  have hpop' : Mpsc.silogMpscQueuePop s₁.queue.1.queue = (.ok, some fun _ => 65, q₂) := hpop
  obtain ⟨acts₂, hwritten⟩ := steps_popAlone (s := s₁) rfl rfl hpop'
  let s₂ : State := { s₁ with
    write := .test, queue := (s₁.queue.1.setPop q₂ .idle, s₁.queue.2.pop fun _ => 65)
    handed := s₁.handed ++ [fun _ => 65] }
  have hempty : (Mpsc.silogMpscQueuePop s₂.queue.1.queue).1 = .transQueueEmpty :=
    congrArg Prod.fst hq₂.run.pop_nil
  have hall := hpush.append (.cons _ _ htest
    (hwritten.append (steps_stop_orderly (s := s₂) rfl rfl rfl hempty)))
  exact ⟨_, _, hall.of_guarded, rfl, hpushed,
    (handed_iff_orderly logQueue_init hall.of_guarded rfl).mpr hall⟩

end SiLog.Daemon.Shutdown
