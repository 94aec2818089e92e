import SiLog.Error
import SiLog.Lib.Lts
import Mathlib.Data.List.Basic

/-! # Starting and stopping the daemon (`silog_daemon.c`)

    `SilogDaemonInit` creates the receive thread and the write thread and only
    then stores `true` into `g_daemonRunning`, which both threads test at the
    top of their loops.  A thread that gets to its test first leaves its loop
    and is gone.

    The main thread calls `SilogDaemonInit` and `SilogDaemonDeinit` any number of
    times; the threads it has created run interleaved with it.  One step is
    one access to the flag, one `pthread_create` or `pthread_join`, or a
    stretch of code between those.  `SilogIpcServerInit` succeeds.
-/

open Lts

namespace SiLog.Daemon

/-! ## Section 1: State -/

/-- What a thread runs. -/
inductive Role where
  | recv
  | write
  deriving DecidableEq

/-- Where a thread is. -/
inductive ThreadPc where
  /-- `SilogDaemonRecvThreadFunc` before its loop. -/
  | ipcInit
  /-- At `while (atomic_load(&g_daemonRunning))`. -/
  | test
  /-- In the body of the loop. -/
  | body
  /-- Behind the loop. -/
  | left
  | done
  deriving DecidableEq

structure Thread where
  role : Role
  pc   : ThreadPc
  deriving DecidableEq

/-- Where the main thread is. -/
inductive MainPc where
  /-- Not in a call, and the last one was not a successful `Init`. -/
  | stopped
  | fileManagerInit
  | queueInit
  | createRecv
  | createWrite
  | remoteInit
  | storeRunning
  /-- `SilogDaemonInit` has returned `SILOG_OK` and `SilogDaemonDeinit` was not
      called since. -/
  | up
  | joinRecv
  | joinWrite
  | release
  deriving DecidableEq

/-- The daemon.  `threads` are all threads ever created; `recvThread` and
    `writeThread` are the handles, `none` when they are 0. -/
structure State where
  main          : MainPc
  running       : Bool
  recvThread    : Option ℕ
  writeThread   : Option ℕ
  threads       : List Thread
  fileManager   : Bool
  logQueue      : Bool
  remoteEnabled : Bool
  initResult    : ErrorCode

/-- The process before its first call. -/
def State.initial : State where
  main := .stopped
  running := false
  recvThread := none
  writeThread := none
  threads := []
  fileManager := false
  logQueue := false
  remoteEnabled := false
  initResult := .unknown

/-! ## Section 2: Steps -/

inductive Act where
  /-- `SilogDaemonInit` is called and loads the flag. -/
  | callInit
  /-- `SilogFileManagerInit`, `SilogMpscQueueInit` and `SilogDaemonRemoteInit` with
      their results. -/
  | initFileManager (ret : ErrorCode)
  | initQueue (ret : ErrorCode)
  | initRemote (ret : ErrorCode)
  /-- The two `pthread_create` calls and whether they succeed. -/
  | createRecv (ok : Bool)
  | createWrite (ok : Bool)
  | storeRunning
  /-- `SilogDaemonDeinit` is called and stores `false`. -/
  | callDeinit
  | joinRecv
  | joinWrite
  | release
  /-- The next step of thread `k`. -/
  | thread (k : ℕ)

/-- `SilogDaemonInit` returns an error. -/
def State.failInit (s : State) (ret : ErrorCode) : State :=
  { s with main := .stopped, initResult := ret }

/-- The handle's thread has ended, or there is none. -/
def State.joinable (s : State) (handle : Option ℕ) : Bool :=
  match handle with
  | none => true
  | some k => (s.threads[k]?.map Thread.pc) == some .done

/-- The next step of a thread. -/
def Thread.step (t : Thread) (running : Bool) : Option Thread :=
  match t.pc with
  | .ipcInit => some { t with pc := .test }
  | .test => some { t with pc := if running then .body else .left }
  | .body => some { t with pc := .test }
  | .left => some { t with pc := .done }
  | .done => none

/-- One step of the daemon. -/
def step (s : State) (a : Act) : Option State :=
  match a, s.main with
  | .callInit, .stopped | .callInit, .up =>
    -- already running: `SilogDaemonInit` returns `SILOG_OK` at once
    if s.running then some { s with main := .up, initResult := .ok }
    else some { s with main := .fileManagerInit }
  | .initFileManager ret, .fileManagerInit =>
    if ret = .ok then some { s with main := .queueInit, fileManager := true }
    else some (s.failInit ret)
  | .initQueue ret, .queueInit =>
    if ret = .ok then some { s with main := .createRecv, logQueue := true }
    else some ({ s with fileManager := false }.failInit ret)
  | .createRecv ok, .createRecv =>
    if ok then some { s with main := .createWrite, recvThread := some s.threads.length
                             threads := s.threads ++ [{ role := .recv, pc := .ipcInit }] }
    -- the handle is reset; the file manager and the queue stay as they are
    else some ({ s with recvThread := none }.failInit .threadCreate)
  | .createWrite ok, .createWrite =>
    if ok then some { s with main := .remoteInit, writeThread := some s.threads.length
                             threads := s.threads ++ [{ role := .write, pc := .test }] }
    else some ({ s with writeThread := none }.failInit .threadCreate)
  | .initRemote ret, .remoteInit =>
    -- a failure of the remote service is only logged
    some { s with main := .storeRunning, remoteEnabled := s.remoteEnabled || ret == .ok }
  | .storeRunning, .storeRunning =>
    some { s with main := .up, running := true, initResult := .ok }
  | .callDeinit, .stopped | .callDeinit, .up =>
    some { s with main := .joinRecv, running := false }
  | .joinRecv, .joinRecv =>
    if s.joinable s.recvThread then some { s with main := .joinWrite, recvThread := none }
    else none
  | .joinWrite, .joinWrite =>
    if s.joinable s.writeThread then some { s with main := .release, writeThread := none }
    else none
  | .release, .release =>
    some { s with main := .stopped, remoteEnabled := false, fileManager := false
                  logQueue := false }
  | .thread k, _ =>
    match s.threads[k]? with
    | some t => (t.step s.running).map fun t' => { s with threads := s.threads.set k t' }
    | none => none
  | _, _ => none

/-- The transition relation. -/
def Step (s : State) (a : Act) (s' : State) : Prop := step s a = some s'

/-! ## Section 3: Survival -/

/-- The handle is that of a thread in the given role that has not left its loop. -/
def State.Alive (s : State) (handle : Option ℕ) (role : Role) : Prop :=
  ∃ k t, handle = some k ∧ s.threads[k]? = some t ∧ t.role = role ∧
    (t.pc = .ipcInit ∨ t.pc = .test ∨ t.pc = .body)

/-- While the daemon is up, its two threads have not left their loops. -/
def Survives (s : State) : Prop :=
  s.main = .up → s.Alive s.recvThread .recv ∧ s.Alive s.writeThread .write

/-- `SilogDaemonInit` has created the receive thread and not yet stored the flag. -/
def MainPc.recvStarting : MainPc → Bool
  | .createWrite | .remoteInit | .storeRunning => true
  | _ => false

/-- `SilogDaemonInit` has created the write thread and not yet stored the flag. -/
def MainPc.writeStarting : MainPc → Bool
  | .remoteInit | .storeRunning => true
  | _ => false

/-- A thread that `SilogDaemonInit` has created does not execute its loop test
    before `SilogDaemonInit` stores the flag. -/
def Late (s : State) (a : Act) : Prop :=
  ∀ k t, a = .thread k → s.threads[k]? = some t → t.pc = .test →
    (s.recvThread = some k → s.main.recvStarting = false) ∧
    (s.writeThread = some k → s.main.writeStarting = false)

instance (s : State) : (a : Act) → Decidable (Late s a)
  | .thread k =>
    decidable_of_iff (∀ t ∈ s.threads[k]?, t.pc = .test →
        (s.recvThread = some k → s.main.recvStarting = false) ∧
        (s.writeThread = some k → s.main.writeStarting = false))
      ⟨fun h _ t ha => Act.thread.inj ha ▸ h t, fun h t => h k t rfl⟩
  | .callInit | .initFileManager _ | .initQueue _ | .initRemote _ | .createRecv _ | .createWrite _
  | .storeRunning | .callDeinit | .joinRecv | .joinWrite | .release => isTrue nofun

/-- The flag is set exactly while the daemon is up, and the threads of the current
    start are in their loops. -/
structure Inv (s : State) : Prop where
  flag  : s.running ↔ s.main = .up
  recv  : s.main = .up ∨ s.main.recvStarting → s.Alive s.recvThread .recv
  write : s.main = .up ∨ s.main.writeStarting → s.Alive s.writeThread .write

/-! ## Section 4: Every step keeps the invariant -/

/-- Where no thread of the current start is to be alive. -/
def MainPc.outside : MainPc → Bool
  | .up | .createWrite | .remoteInit | .storeRunning => false
  | _ => true

theorem inv_of_outside {s : State} (hmain : s.main.outside) (hrun : s.running = false) : Inv s := by
  cases hpc : s.main <;> simp [hpc, MainPc.outside] at hmain <;>
    exact ⟨by simp [hrun, hpc], by simp [hpc, MainPc.recvStarting],
      by simp [hpc, MainPc.writeStarting]⟩

theorem Inv.not_running {s : State} (hI : Inv s) (hmain : s.main ≠ .up) : s.running = false := by
  by_contra h
  exact hmain (hI.flag.mp (by simpa using h))

theorem State.Alive.append {s : State} {handle : Option ℕ} {role : Role} (h : s.Alive handle role)
    (t : Thread) (s' : State) (hs' : s'.threads = s.threads ++ [t]) : s'.Alive handle role := by
  obtain ⟨k, t', hk, ht', hrole, hpc⟩ := h
  refine ⟨k, t', hk, ?_, hrole, hpc⟩
  obtain ⟨hlt, _⟩ := List.getElem?_eq_some_iff.mp ht'
  -- the new thread is added behind the old ones
  rw [hs', List.getElem?_append_left hlt, ht']

theorem alive_created {s : State} {handle : Option ℕ} {t : Thread} {l : List Thread}
    (hs : s.threads = l ++ [t]) (hhandle : handle = some l.length)
    (hpc : t.pc = .ipcInit ∨ t.pc = .test) : s.Alive handle t.role := by
  refine ⟨l.length, t, hhandle, by rw [hs, List.getElem?_concat_length], rfl, ?_⟩
  rcases hpc with h | h
  · exact Or.inl h
  · exact Or.inr (Or.inl h)

/-- A step of a thread that is in its loop and finds the flag set, or is not at its
    test, leaves it in its loop. -/
theorem Thread.step_alive {t t' : Thread} {running : Bool} (hstep : t.step running = some t')
    (hpc : t.pc = .ipcInit ∨ t.pc = .test ∨ t.pc = .body) (htest : t.pc = .test → running) :
    t'.role = t.role ∧ (t'.pc = .ipcInit ∨ t'.pc = .test ∨ t'.pc = .body) := by
  unfold Thread.step at hstep
  rcases hpc with h | h | h
  · rw [h] at hstep
    cases hstep
    exact ⟨rfl, Or.inr (Or.inl rfl)⟩
  · have hrun := htest h
    rw [h] at hstep
    simp only [hrun, if_true] at hstep
    cases hstep
    exact ⟨rfl, Or.inr (Or.inr rfl)⟩
  · rw [h] at hstep
    cases hstep
    exact ⟨rfl, Or.inr (Or.inl rfl)⟩

/-- A handle stays alive over a step of thread `k`. -/
theorem State.Alive.thread {s : State} {handle : Option ℕ} {role : Role} {k : ℕ} {t t' : Thread}
    (h : s.Alive handle role) (hk : s.threads[k]? = some t) (hstep : t.step s.running = some t')
    (htest : handle = some k → t.pc = .test → s.running) :
    { s with threads := s.threads.set k t' }.Alive handle role := by
  obtain ⟨j, t₀, hj, ht₀, hrole, hpc⟩ := h
  by_cases hjk : j = k
  · -- the thread of the handle itself makes the step
    subst hjk
    rw [hk] at ht₀
    cases ht₀
    obtain ⟨hrole', hpc'⟩ := Thread.step_alive hstep hpc (htest hj)
    obtain ⟨hlt, _⟩ := List.getElem?_eq_some_iff.mp hk
    exact ⟨j, t', hj, List.getElem?_set_self hlt, hrole'.trans hrole, hpc'⟩
  · refine ⟨j, t₀, hj, ?_, hrole, hpc⟩
    show (s.threads.set k t')[j]? = some t₀
    rw [List.getElem?_set_ne (Ne.symm hjk), ht₀]

/-- A thread of a start that is over finds the flag set. -/
theorem Inv.running {s : State} {starting : Bool} (hI : Inv s) (hmain : s.main = .up ∨ starting)
    (hover : starting = false) : s.running := by
  rcases hmain with hup | hstart
  · exact hI.flag.mpr hup
  · rw [hover] at hstart
    cases hstart

theorem Inv.thread {s : State} {k : ℕ} {t t' : Thread} (hI : Inv s) (hlate : Late s (.thread k))
    (hk : s.threads[k]? = some t) (hstep : t.step s.running = some t') :
    Inv { s with threads := s.threads.set k t' } := by
  refine ⟨hI.flag, ?_, ?_⟩
  · intro hmain
    refine (hI.recv hmain).thread hk hstep ?_
    intro hhandle htest
    exact hI.running hmain ((hlate k t rfl hk htest).1 hhandle)
  · intro hmain
    refine (hI.write hmain).thread hk hstep ?_
    intro hhandle htest
    exact hI.running hmain ((hlate k t rfl hk htest).2 hhandle)

/-- Every step that meets `Late` keeps the invariant. -/
theorem Inv.step {s s' : State} {a : Act} (hI : Inv s) (hlate : Late s a) (hstep : Step s a s') :
    Inv s' := by
  unfold Step Daemon.step at hstep
  split at hstep
  · -- `callInit` before a start: the flag is not set
    next hmain =>
    have hrun := hI.not_running (by rw [hmain]; decide)
    rw [if_neg (by simp [hrun])] at hstep
    cases hstep
    exact inv_of_outside rfl hrun
  · -- `callInit` while up
    next hmain =>
    rw [if_pos (hI.flag.mpr hmain)] at hstep
    cases hstep
    exact ⟨iff_of_true (hI.flag.mpr hmain) rfl, fun _ => hI.recv (Or.inl hmain),
      fun _ => hI.write (Or.inl hmain)⟩
  · -- `initFileManager`, which fails or goes on
    next hmain =>
    have hrun := hI.not_running (by rw [hmain]; decide)
    split at hstep <;> cases hstep <;> exact inv_of_outside rfl hrun
  · -- `initQueue`
    next hmain =>
    have hrun := hI.not_running (by rw [hmain]; decide)
    split at hstep <;> cases hstep <;> exact inv_of_outside rfl hrun
  · -- `createRecv`: the new thread is the last one of the list
    next hmain =>
    have hrun := hI.not_running (by rw [hmain]; decide)
    split at hstep
    · cases hstep
      refine ⟨by simp [hrun], fun _ => ?_, fun h => by simp [MainPc.writeStarting] at h⟩
      exact alive_created (t := { role := .recv, pc := .ipcInit }) rfl rfl (Or.inl rfl)
    · cases hstep
      exact inv_of_outside rfl hrun
  · -- `createWrite`: so is this one, and the receive thread keeps its place
    next hmain =>
    have hrun := hI.not_running (by rw [hmain]; decide)
    have hrecv := hI.recv (Or.inr (by rw [hmain]; rfl))
    split at hstep
    · cases hstep
      refine ⟨by simp [hrun], fun _ => hrecv.append _ _ rfl, fun _ => ?_⟩
      exact alive_created (t := { role := .write, pc := .test }) rfl rfl (Or.inr rfl)
    · cases hstep
      exact inv_of_outside rfl hrun
  · -- `initRemote`: its result does not matter
    next hmain =>
    have hrun := hI.not_running (by rw [hmain]; decide)
    cases hstep
    exact ⟨by simp [hrun], fun _ => hI.recv (Or.inr (by rw [hmain]; rfl)),
      fun _ => hI.write (Or.inr (by rw [hmain]; rfl))⟩
  · -- `storeRunning`: here the flag and the two threads meet
    next hmain =>
    cases hstep
    exact ⟨by simp, fun _ => hI.recv (Or.inr (by rw [hmain]; rfl)),
      fun _ => hI.write (Or.inr (by rw [hmain]; rfl))⟩
  · -- `callDeinit` clears the flag, before a start and while up
    cases hstep
    exact inv_of_outside rfl rfl
  · cases hstep
    exact inv_of_outside rfl rfl
  · -- `joinRecv`
    next hmain =>
    have hrun := hI.not_running (by rw [hmain]; decide)
    split at hstep <;> cases hstep
    exact inv_of_outside rfl hrun
  · -- `joinWrite`
    next hmain =>
    have hrun := hI.not_running (by rw [hmain]; decide)
    split at hstep <;> cases hstep
    exact inv_of_outside rfl hrun
  · -- `release`
    next hmain =>
    have hrun := hI.not_running (by rw [hmain]; decide)
    cases hstep
    exact inv_of_outside rfl hrun
  · -- a thread, if there is one of that number
    next k _ =>
    split at hstep
    · next t hk =>
      obtain ⟨t', ht', rfl⟩ := Option.map_eq_some_iff.mp hstep
      exact hI.thread hlate hk ht'
    · cases hstep
  · cases hstep

theorem inv_initial : Inv State.initial := inv_of_outside rfl rfl

/-- **Start-up.** In every run in which no thread tests the flag between its creation
    and the store of `SilogDaemonInit`, the threads survive. -/
theorem survives_of_late {acts : List Act} {s : State}
    (hrun : Steps (Guarded Step Late) State.initial acts s) : Survives s := by
  have hI := hrun.invariant (fun _ _ _ hR hI => Inv.step hI hR.2 hR.1) inv_initial
  exact fun hup => ⟨hI.recv (Or.inl hup), hI.write (Or.inl hup)⟩

/-- A start in which the receive thread gets to its loop early, and both threads test the flag
    when it is set. -/
def lateStart : List Act :=
  [.callInit, .initFileManager .ok, .initQueue .ok, .createRecv true, .thread 0, .createWrite true,
   .initRemote .ok, .storeRunning, .thread 1, .thread 0, .thread 1, .thread 1, .thread 0]

def lateStarted : State := (exec step State.initial lateStart).get rfl

theorem survives_of_late_lateStart :
    lateStarted.main = .up ∧ lateStarted.threads = [⟨.recv, .test⟩, ⟨.write, .body⟩] ∧
    Survives lateStarted := by
  have hlate : Steps (Guarded Step Late) State.initial lateStart lateStarted :=
    guarded_of_exec (fun _ _ _ => id) (Option.some_get rfl).symm (by decide)
  exact ⟨rfl, rfl, survives_of_late hlate⟩

/-- The write thread is scheduled as soon as it is created. -/
def hastyStart : List Act :=
  [.callInit, .initFileManager .ok, .initQueue .ok, .createRecv true, .createWrite true,
   .thread 1, .initRemote .ok, .storeRunning]

def hastyStarted : State := (exec step State.initial hastyStart).get rfl

/-- The write thread is gone and `SilogDaemonInit` has returned `SILOG_OK`. -/
theorem hastyStart_loses_thread :
    Steps Step State.initial hastyStart hastyStarted ∧ hastyStarted.initResult = .ok ∧
    ¬ Survives hastyStarted := by
  refine ⟨steps_of_exec (fun _ _ _ => id) (Option.some_get rfl).symm, rfl, ?_⟩
  intro hsurvive
  -- the write thread has number 1 and is behind its loop
  obtain ⟨k, t, hk, ht, _, hpc⟩ := (hsurvive rfl).2
  have hgone : hastyStarted.threads[1]? = some { role := .write, pc := .left } := rfl
  obtain rfl : 1 = k := Option.some.inj hk
  obtain rfl := Option.some.inj (hgone.symm.trans ht)
  simp at hpc

end SiLog.Daemon
