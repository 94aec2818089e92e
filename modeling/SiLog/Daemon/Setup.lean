import SiLog.Entry
import SiLog.Daemon.Startup
import SiLog.FileManager.Lifecycle
import SiLog.Mpsc.Model
import SiLog.Remote.Accounting

/-! # What the daemon holds

    `SilogDaemonInit` acquires the file manager, the buffers of `logQueue`, the
    receive thread and the write thread, in this order, and then tries to start
    the remote service, whose failure it only logs.  When the queue cannot be
    set up it shuts the file manager down again; when a thread cannot be
    created it just returns.  The guard against a second call reads
    `g_daemonRunning`, which is stored last, so after such a return the next
    call goes through all of it once more.

    The calls are modelled one after the other, over the models of the parts;
    what the threads do once they are created is the subject of
    `SiLog.Daemon.Startup`.
-/

open Lts

namespace SiLog.Daemon.Setup

/-! ## Section 1: The memory of the queue -/

/-- The blocks that `SiMalloc` has handed out and `SiFree` has not taken back. -/
structure Memory where
  live : List ℕ
  next : ℕ

/-- `SiMalloc`, with whether it succeeds. -/
def Memory.alloc (m : Memory) (ok : Bool) : Option ℕ × Memory :=
  if ok then (some m.next, { live := m.next :: m.live, next := m.next + 1 }) else (none, m)

/-- `SiFree`, unless the pointer is `NULL`. -/
def Memory.free (m : Memory) : Option ℕ → Memory
  | none => m
  | some block => { m with live := m.live.erase block }

/-- The two pointers of `logQueue`, `none` when they are `NULL`, and the memory. -/
structure LogQueue where
  buffer : Option ℕ
  seq    : Option ℕ
  memory : Memory

/-- `SilogMpscQueueInit` for elements of `n` bytes, as far as the memory is concerned.
    What the pointers were before does not matter. -/
def LogQueue.init (q : LogQueue) (n : ℕ) (capacity : UInt32) (bufferOk seqOk : Bool) :
    ErrorCode × LogQueue :=
  if n = 0 ∨ capacity = 0 then (.invalidArg, q)
  else if capacity &&& (capacity - 1) ≠ 0 then (.invalidArg, q)
  else
    let r := q.memory.alloc bufferOk
    if r.1 = none then (.outOfMemory, { q with buffer := none, memory := r.2 })
    else
      let r' := r.2.alloc seqOk
      if r'.1 = none then (.outOfMemory, { buffer := none, seq := none, memory := r'.2.free r.1 })
      else (.ok, { buffer := r.1, seq := r'.1, memory := r'.2 })

/-- `SilogMpscQueueDestroy` -/
def LogQueue.destroy (q : LogQueue) : LogQueue :=
  { buffer := none, seq := none, memory := (q.memory.free q.buffer).free q.seq }

/-! ## Section 2: The process -/

/-- `DAEMON_LOG_QUEUE_CAPACITY` -/
def daemonLogQueueCapacity : UInt32 := 4096

/-- The globals of the daemon and of the parts it starts.  A thread handle is `none`
    when it is 0; `threads` are the receive and write threads that were created and
    not joined, out of `created`; `initResult` is what `SilogDaemonInit` last returned. -/
structure Process where
  running       : Bool
  files         : FileManager.System
  logQueue      : LogQueue
  recvThread    : Option ℕ
  writeThread   : Option ℕ
  threads       : List ℕ
  created       : ℕ
  remoteEnabled : Bool
  remoteThread  : Bool
  remote        : Remote.Server
  initResult    : ErrorCode

/-- The process before its first call. -/
def Process.initial (fs : Files.Fs FileManager.Str UInt8) : Process where
  running := false
  files := .initial fs
  logQueue := { buffer := none, seq := none, memory := { live := [], next := 0 } }
  recvThread := none
  writeThread := none
  threads := []
  created := 0
  remoteEnabled := false
  remoteThread := false
  remote := .initial
  initResult := .unknown

/-- What the calls made by `SilogDaemonInit` meet; `gzips` is for the tasks left to
    `SilogFileManagerDeinit`. -/
structure InitEnv where
  files        : FileManager.InitEnv
  gzips        : ℕ → Bool
  bufferOk     : Bool
  seqOk        : Bool
  recvCreate   : Bool
  writeCreate  : Bool
  remote       : Remote.InitEnv
  remoteCreate : Bool

/-- `SilogDaemonRecvThreadInit` -/
def silogDaemonRecvThreadInit (p : Process) (ok : Bool) : ErrorCode × Process :=
  if ok = false then (.threadCreate, { p with recvThread := none })
  else (.ok, { p with recvThread := some p.created
                      threads := p.created :: p.threads
                      created := p.created + 1 })

/-- `SilogDaemonWriteThreadInit` -/
def silogDaemonWriteThreadInit (p : Process) (ok : Bool) : ErrorCode × Process :=
  if ok = false then (.threadCreate, { p with writeThread := none })
  else (.ok, { p with writeThread := some p.created
                      threads := p.created :: p.threads
                      created := p.created + 1 })

/-- The configuration that `SilogDaemonRemoteInit` passes on; a zero stands for the
    default. -/
def remoteConfig (config : Option Remote.SilogRemoteConfig) : Remote.SilogRemoteConfig where
  listenPort := match config with
    | some c => if c.listenPort ≠ 0 then c.listenPort else Remote.defaultPort
    | none => Remote.defaultPort
  maxClients := match config with
    | some c => if c.maxClients ≠ 0 then c.maxClients else Remote.defaultMaxClients
    | none => Remote.defaultMaxClients

/-- `SilogDaemonRemoteInit` -/
def silogDaemonRemoteInit (p : Process) (config : Option Remote.SilogRemoteConfig)
    (env : Remote.InitEnv) (create : Bool) : ErrorCode × Process :=
  if p.remoteEnabled then (.ok, p)
  else
    let r := Remote.silogRemoteInit p.remote (some (remoteConfig config)) env
    if r.1 ≠ .ok then (r.1, { p with remote := r.2 })
    else if create = false then (.threadCreate, { p with remote := Remote.silogRemoteDeinit r.2 })
    else (.ok, { p with remote := r.2, remoteThread := true, remoteEnabled := true })

/-- `SilogDaemonRemoteDeinit` -/
def silogDaemonRemoteDeinit (p : Process) : Process :=
  if p.remoteEnabled = false then p
  else { p with remote := Remote.silogRemoteDeinit p.remote
                remoteThread := false
                remoteEnabled := false }

/-- `SilogDaemonInit` returns. -/
def Process.returns (p : Process) (ret : ErrorCode) : Process := { p with initResult := ret }

/-- `SilogDaemonInit` -/
def silogDaemonInit (p : Process) (env : InitEnv) : Process :=
  if p.running then p.returns .ok
  else
    let f := FileManager.silogFileManagerInit p.files none env.files
    let p := { p with files := f.sys }
    if f.ret ≠ .ok then p.returns f.ret
    else
      let q := p.logQueue.init logEntrySize daemonLogQueueCapacity env.bufferOk env.seqOk
      let p := { p with logQueue := q.2 }
      if q.1 ≠ .ok then
        { p with files := (FileManager.silogFileManagerDeinit p.files env.gzips).sys }.returns q.1
      else
        -- the two exits below leave everything as it is
        let r := silogDaemonRecvThreadInit p env.recvCreate
        if r.1 ≠ .ok then r.2.returns r.1
        else
          let w := silogDaemonWriteThreadInit r.2 env.writeCreate
          if w.1 ≠ .ok then w.2.returns w.1
          else
            -- the result is only logged
            let p := (silogDaemonRemoteInit w.2 (some ⟨0, 0⟩) env.remote env.remoteCreate).2
            { p with running := true }.returns .ok

/-- `pthread_join`, unless the handle is 0; the thread behind it has left its loop. -/
def join (threads : List ℕ) : Option ℕ → List ℕ
  | none => threads
  | some k => threads.erase k

/-- `SilogDaemonDeinit` -/
def silogDaemonDeinit (p : Process) (gzips : ℕ → Bool) : Process :=
  let p := { p with running := false }
  let p := { p with threads := join p.threads p.recvThread, recvThread := none }
  let p := { p with threads := join p.threads p.writeThread, writeThread := none }
  let p := silogDaemonRemoteDeinit p
  { p with files := (FileManager.silogFileManagerDeinit p.files gzips).sys
           logQueue := p.logQueue.destroy }

/-- A call. -/
inductive Call where
  | init (env : InitEnv)
  | deinit (gzips : ℕ → Bool)

def Process.call (p : Process) : Call → Process
  | .init env => silogDaemonInit p env
  | .deinit gzips => silogDaemonDeinit p gzips

/-- The transition relation. -/
def Step (p : Process) (c : Call) (p' : Process) : Prop := p' = p.call c

/-! ## Section 3: A failure is clean -/

/-- The file manager is not initialised and holds nothing, `logQueue` owns no buffers and
    there are no threads, so that nothing is lost either. -/
structure Clean (p : Process) : Prop where
  files       : p.files.fm.initialized = false
  currentFd   : p.files.fm.currentFd = none
  compress    : p.files.fm.compressThread = false ∧ p.files.fm.compressQueue = none
  buffer      : p.logQueue.buffer = none
  seq         : p.logQueue.seq = none
  memory      : p.logQueue.memory.live = []
  recvThread  : p.recvThread = none
  writeThread : p.writeThread = none
  threads     : p.threads = []

/-- The same files, sockets, memory and numbers in a process that has made no call. -/
def Process.fresh (p : Process) : Process :=
  { Process.initial p.files.fs with
    logQueue := { buffer := none, seq := none, memory := p.logQueue.memory }
    created := p.created
    remote := { p.remote with mgr := .initial } }

/-- The next `SilogDaemonInit` behaves as a first call: it returns the same, and does the
    same when it succeeds. -/
def AsFirst (p : Process) : Prop :=
  ∀ env, (silogDaemonInit p env).initResult = (silogDaemonInit p.fresh env).initResult ∧
    ((silogDaemonInit p env).initResult = .ok → silogDaemonInit p env = silogDaemonInit p.fresh env)

/-- An error has left nothing behind. -/
def FailsClean (p : Process) : Prop := p.initResult ≠ .ok → Clean p ∧ AsFirst p

/-- A `SilogDaemonInit` that comes to the threads creates both. -/
def CreatesThreads (p : Process) : Call → Prop
  | .init env => p.running = false → env.files.Ready → env.bufferOk = true → env.seqOk = true →
    env.recvCreate = true ∧ env.writeCreate = true
  | .deinit _ => True

/-! ## Section 4: The parts -/

/-- The queue after a successful `SilogMpscQueueInit`. -/
def LogQueue.filled (q : LogQueue) : LogQueue where
  buffer := some q.memory.next
  seq := some (q.memory.next + 1)
  memory := { live := (q.memory.next + 1) :: q.memory.next :: q.memory.live
              next := q.memory.next + 2 }

/-- The arguments of `SilogDaemonInit` pass the checks. -/
theorem LogQueue.init_eq (q : LogQueue) (bufferOk seqOk : Bool) :
    q.init logEntrySize daemonLogQueueCapacity bufferOk seqOk =
      if bufferOk = false then (.outOfMemory, { q with buffer := none })
      else if seqOk = false then
        (.outOfMemory, { buffer := none, seq := none
                         memory := { q.memory with next := q.memory.next + 1 } })
      else (.ok, q.filled) := by
  have hargs : ¬ (logEntrySize = 0 ∨ daemonLogQueueCapacity = 0) := by decide
  have hpow : ¬ daemonLogQueueCapacity &&& (daemonLogQueueCapacity - 1) ≠ 0 := by decide
  unfold LogQueue.init
  rw [if_neg hargs, if_neg hpow]
  cases bufferOk <;> cases seqOk <;> simp [Memory.alloc, Memory.free, LogQueue.filled]

/-- A queue that owns nothing owns nothing after a failure either. -/
theorem LogQueue.init_failed {q : LogQueue} (hbuffer : q.buffer = none) (hseq : q.seq = none)
    {bufferOk seqOk : Bool} (h : ¬ (bufferOk = true ∧ seqOk = true)) :
    ∃ next, q.init logEntrySize daemonLogQueueCapacity bufferOk seqOk =
      (.outOfMemory, { q with memory := { q.memory with next := next } }) := by
  obtain ⟨buffer, seq, memory⟩ := q
  subst hbuffer hseq
  rw [LogQueue.init_eq]
  cases bufferOk with
  | false => exact ⟨memory.next, rfl⟩
  | true =>
    cases seqOk with
    | false => exact ⟨memory.next + 1, rfl⟩
    | true => exact absurd ⟨rfl, rfl⟩ h

/-- The result is that of the model of the queue. -/
theorem LogQueue.init_result {n : ℕ} (q : LogQueue) (capacity : UInt32)
    (mem : UInt32 → Mpsc.Elem n) (bufferOk seqOk : Bool) :
    (q.init n capacity bufferOk seqOk).1 =
      match Mpsc.silogMpscQueueInit capacity (if bufferOk then some mem else none) seqOk with
      | .ok _ => .ok
      | .error e => e := by
  unfold LogQueue.init Mpsc.silogMpscQueueInit
  split
  · rfl
  · split
    · rfl
    · cases bufferOk <;> cases seqOk <;> rfl

/-- A remote service that is not started. -/
structure RemoteIdle (m : Remote.SilogRemoteManager) : Prop where
  isInit      : m.isInit = false
  listenFd    : m.listenFd = -1
  clientCount : m.clientCount = 0

/-- Starting the service does not depend on what it was used for before. -/
theorem remoteInit_idle {s : Remote.Server} (h : RemoteIdle s.mgr)
    (config : Option Remote.SilogRemoteConfig) (env : Remote.InitEnv) :
    Remote.silogRemoteInit s config env =
      Remote.silogRemoteInit { s with mgr := .initial } config env := by
  obtain ⟨⟨isInit, listenFd, port, max, clients, count⟩, kernel, history⟩ := s
  obtain ⟨rfl, rfl, rfl⟩ := h
  rfl

theorem remoteInit_error_idle {s : Remote.Server} (h : RemoteIdle s.mgr)
    (config : Option Remote.SilogRemoteConfig) (env : Remote.InitEnv)
    (hret : (Remote.silogRemoteInit s config env).1 ≠ .ok) :
    RemoteIdle (Remote.silogRemoteInit s config env).2.mgr := by
  obtain ⟨_, hoff, _, hfd, hcount, _⟩ | ⟨_, hok, _⟩ := Remote.init_exits config env h.isInit
  · refine ⟨hoff, ?_, ?_⟩
    · rcases hfd with hfd | hfd <;> rw [hfd]
      exact h.listenFd
    · rcases hcount with hcount | hcount <;> rw [hcount]
      exact h.clientCount
  · exact absurd hok hret

theorem remoteInit_ok_isInit {s : Remote.Server} (h : RemoteIdle s.mgr)
    (config : Option Remote.SilogRemoteConfig) (env : Remote.InitEnv)
    (hret : (Remote.silogRemoteInit s config env).1 = .ok) :
    (Remote.silogRemoteInit s config env).2.mgr.isInit = true := by
  obtain ⟨herr, _⟩ | ⟨_, _, _, hon, _⟩ := Remote.init_exits config env h.isInit
  · exact absurd hret herr
  · exact hon

theorem remoteDeinit_idle {s : Remote.Server} (h : s.mgr.isInit = true) :
    RemoteIdle (Remote.silogRemoteDeinit s).mgr := by
  unfold Remote.silogRemoteDeinit
  rw [if_neg (by rw [h]; decide)]
  exact ⟨rfl, rfl, rfl⟩

/-! ## Section 5: What `SilogDaemonInit` does to a process that is not running -/

section init
variable {p : Process} {env : InitEnv}

/-- All four acquisitions have succeeded. -/
def Process.staffed (p : Process) (env : InitEnv) : Process :=
  { p with
    files := (FileManager.silogFileManagerInit p.files none env.files).sys
    logQueue := p.logQueue.filled
    recvThread := some p.created
    writeThread := some (p.created + 1)
    threads := (p.created + 1) :: p.created :: p.threads
    created := p.created + 2 }

theorem filesInit_ok_iff (hC : Clean p) :
    (FileManager.silogFileManagerInit p.files none env.files).ret = .ok ↔ env.files.Ready :=
  FileManager.initWithConfig_ok_iff hC.files

/-- The file manager fails. -/
theorem init_files (hrun : p.running = false) (hC : Clean p) (henv : ¬ env.files.Ready) :
    silogDaemonInit p env =
      { p with files := (FileManager.silogFileManagerInit p.files none env.files).sys
               initResult := (FileManager.silogFileManagerInit p.files none env.files).ret } := by
  unfold silogDaemonInit
  rw [if_neg (by rw [hrun]; decide)]
  dsimp only
  rw [if_pos (mt (filesInit_ok_iff hC).mp henv)]
  rfl

/-- The queue fails. -/
theorem init_queue (hrun : p.running = false) (hC : Clean p) (henv : env.files.Ready)
    (hqueue : ¬ (env.bufferOk = true ∧ env.seqOk = true)) :
    ∃ next, silogDaemonInit p env =
      { p with files := (FileManager.silogFileManagerDeinit
                 (FileManager.silogFileManagerInit p.files none env.files).sys env.gzips).sys
               logQueue := { p.logQueue with memory := { p.logQueue.memory with next := next } }
               initResult := .outOfMemory } := by
  obtain ⟨next, hq⟩ := LogQueue.init_failed hC.buffer hC.seq hqueue
  refine ⟨next, ?_⟩
  unfold silogDaemonInit
  rw [if_neg (by rw [hrun]; decide)]
  dsimp only
  rw [if_neg (not_not_intro ((filesInit_ok_iff hC).mpr henv)), hq]
  rfl

/-- From the threads on. -/
theorem init_threads (hrun : p.running = false) (hC : Clean p) (henv : env.files.Ready)
    (hb : env.bufferOk = true) (hs : env.seqOk = true) :
    silogDaemonInit p env =
      let q := { p with files := (FileManager.silogFileManagerInit p.files none env.files).sys
                        logQueue := p.logQueue.filled }
      if env.recvCreate = false then { q with recvThread := none, initResult := .threadCreate }
      else if env.writeCreate = false then
        { q with recvThread := some p.created, threads := p.created :: p.threads
                 created := p.created + 1, writeThread := none, initResult := .threadCreate }
      else
        { (silogDaemonRemoteInit (p.staffed env) (some ⟨0, 0⟩) env.remote env.remoteCreate).2 with
          running := true, initResult := .ok } := by
  have hfiles := (filesInit_ok_iff hC).mpr henv
  unfold silogDaemonInit
  rw [if_neg (by rw [hrun]; decide)]
  dsimp only
  rw [if_neg (not_not_intro hfiles), LogQueue.init_eq, hb, hs]
  cases env.recvCreate with
  | false => rfl
  | true =>
    cases env.writeCreate with
    | false => rfl
    | true => rfl

end init

/-! ## Section 6: The invariant -/

/-- The queue owns its two blocks, and the handles are those of the two threads. -/
structure Up (p : Process) : Prop where
  queue   : ∃ b s, p.logQueue.buffer = some b ∧ p.logQueue.seq = some s ∧
    p.logQueue.memory.live = [s, b]
  threads : ∃ r w, p.recvThread = some r ∧ p.writeThread = some w ∧ p.threads = [w, r]

/-- The remote service is enabled exactly while it is started. -/
structure RemoteInv (p : Process) : Prop where
  off : p.remoteEnabled = false → RemoteIdle p.remote.mgr ∧ p.remoteThread = false
  on  : p.remoteEnabled = true → p.remote.mgr.isInit = true

structure Inv (p : Process) : Prop where
  files  : p.files.Lifecycle
  idle   : p.running = false → Clean p ∧ p.remoteEnabled = false
  up     : p.running = true → Up p
  remote : RemoteInv p

section steps
variable {p : Process} {env : InitEnv}

/-- A process that is not running, with another file manager that is not initialised. -/
theorem Inv.with_files (hI : Inv p) (hrun : p.running = false) {files : FileManager.System}
    (hL : files.Lifecycle) (hinit : files.fm.initialized = false) (next : ℕ) (ret : ErrorCode) :
    Inv { p with
      files := files
      logQueue := { p.logQueue with memory := { p.logQueue.memory with next := next } }
      initResult := ret } := by
  obtain ⟨hC, hremote⟩ := hI.idle hrun
  obtain ⟨hfd, hcompress⟩ := hL.down hinit
  refine ⟨hL, fun _ => ⟨⟨hinit, hfd, hcompress, hC.buffer, hC.seq, hC.memory, hC.recvThread,
    hC.writeThread, hC.threads⟩, hremote⟩, ?_, hI.remote.off, hI.remote.on⟩
  intro hup
  exact absurd (hrun.symm.trans hup) (by decide)

theorem deinit_initialized (s : FileManager.System) (gzips : ℕ → Bool) :
    (FileManager.silogFileManagerDeinit s gzips).sys.fm.initialized = false := by
  unfold FileManager.silogFileManagerDeinit
  dsimp only
  split <;> rfl

theorem filesInit_initialized (hC : Clean p) (henv : env.files.Ready) :
    (FileManager.silogFileManagerInit p.files none env.files).sys.fm.initialized = true := by
  unfold FileManager.silogFileManagerInit
  rw [FileManager.initWithConfig_ready hC.files henv]
  rfl

theorem filesInit_failed (hC : Clean p) (henv : ¬ env.files.Ready) :
    (FileManager.silogFileManagerInit p.files none env.files).sys.fm.initialized = false := by
  unfold FileManager.silogFileManagerInit
  obtain ⟨fm, fs, ret, heq, _, hinit, _⟩ := FileManager.initWithConfig_failed
    (Option.getD none FileManager.silogFileManagerGetDefaultConfig) hC.files henv
  rw [heq]
  exact hinit

/-- The early exits of `SilogDaemonInit` keep the invariant. -/
theorem Inv.init_early (hI : Inv p) (hrun : p.running = false)
    (hearly : ¬ (env.files.Ready ∧ env.bufferOk = true ∧ env.seqOk = true)) :
    Inv (silogDaemonInit p env) ∧ (silogDaemonInit p env).running = false := by
  have hC := (hI.idle hrun).1
  have hL := hI.files.initWithConfig FileManager.silogFileManagerGetDefaultConfig env.files
  by_cases henv : env.files.Ready
  · have hqueue : ¬ (env.bufferOk = true ∧ env.seqOk = true) := fun h => hearly ⟨henv, h⟩
    obtain ⟨next, heq⟩ := init_queue hrun hC henv hqueue
    rw [heq]
    exact ⟨hI.with_files hrun (hL.deinit env.gzips) (deinit_initialized _ _) next _, hrun⟩
  · rw [init_files hrun hC henv]
    exact ⟨hI.with_files hrun hL (filesInit_failed hC henv) p.logQueue.memory.next _, hrun⟩

/-- `SilogDaemonRemoteInit` touches the remote service only. -/
theorem remoteInit_cases (hR : RemoteInv p) (config : Option Remote.SilogRemoteConfig)
    (renv : Remote.InitEnv) (create : Bool) :
    ∃ enabled thread remote, (silogDaemonRemoteInit p config renv create).2 =
      { p with remoteEnabled := enabled, remoteThread := thread, remote := remote } ∧
      RemoteInv { p with remoteEnabled := enabled, remoteThread := thread, remote := remote } := by
  unfold silogDaemonRemoteInit
  cases henabled : p.remoteEnabled with
  | true =>
    rw [if_pos rfl]
    exact ⟨p.remoteEnabled, p.remoteThread, p.remote, rfl, hR⟩
  | false =>
    obtain ⟨hidle, hthread⟩ := hR.off henabled
    rw [if_neg (by decide)]
    dsimp only
    split
    next herr =>
      refine ⟨false, p.remoteThread, _, by rw [← henabled], fun _ => ⟨?_, hthread⟩, ?_⟩
      · exact remoteInit_error_idle hidle _ _ herr
      · intro hon
        cases hon
    next hret =>
      have hon := remoteInit_ok_isInit hidle _ _ (not_not.mp hret)
      split
      · refine ⟨false, p.remoteThread, _, by rw [← henabled], fun _ => ⟨?_, hthread⟩, ?_⟩
        · exact remoteDeinit_idle hon
        · intro hno
          cases hno
      · refine ⟨true, true, _, rfl, ?_, fun _ => hon⟩
        intro hno
        cases hno

/-- The successful exit. -/
theorem Inv.init_ok (hI : Inv p) (hrun : p.running = false) (henv : env.files.Ready)
    (hb : env.bufferOk = true) (hs : env.seqOk = true) (hr : env.recvCreate = true)
    (hw : env.writeCreate = true) :
    Inv (silogDaemonInit p env) ∧ (silogDaemonInit p env).running = true ∧
      (silogDaemonInit p env).initResult = .ok := by
  have hC := (hI.idle hrun).1
  have hL := hI.files.initWithConfig FileManager.silogFileManagerGetDefaultConfig env.files
  have hstaffed : RemoteInv (p.staffed env) := ⟨hI.remote.off, hI.remote.on⟩
  obtain ⟨enabled, thread, remote, heq, hR⟩ :=
    remoteInit_cases hstaffed (some ⟨0, 0⟩) env.remote env.remoteCreate
  rw [init_threads hrun hC henv hb hs, hr, hw]
  dsimp only
  rw [if_neg (by decide), if_neg (by decide), heq]
  refine ⟨⟨hL, fun hno => (by cases hno), fun _ => ⟨?_, ?_⟩, hR.off, hR.on⟩, rfl, rfl⟩
  · refine ⟨p.logQueue.memory.next, p.logQueue.memory.next + 1, rfl, rfl, ?_⟩
    show _ :: _ :: p.logQueue.memory.live = _
    rw [hC.memory]
  · refine ⟨p.created, p.created + 1, rfl, rfl, ?_⟩
    show _ :: _ :: p.threads = _
    rw [hC.threads]

theorem erase_erase_pair (a b : ℕ) : ([a, b].erase b).erase a = [] := by
  by_cases hab : a = b
  · rw [hab, List.erase_cons_head, List.erase_cons_head]
  · rw [List.erase_cons_tail (by simpa using hab), List.erase_cons_head, List.erase_cons_head]

theorem remoteDeinit_cases (hR : RemoteInv p) :
    ∃ remote, silogDaemonRemoteDeinit p =
      { p with remoteEnabled := false, remoteThread := false, remote := remote } ∧
      RemoteIdle remote.mgr := by
  unfold silogDaemonRemoteDeinit
  cases henabled : p.remoteEnabled with
  | false =>
    obtain ⟨hidle, hthread⟩ := hR.off henabled
    refine ⟨p.remote, ?_, hidle⟩
    obtain ⟨_, _, _, _, _, _, _, enabled, thread, _, _⟩ := p
    obtain rfl : enabled = false := henabled
    obtain rfl : thread = false := hthread
    exact if_pos rfl
  | true =>
    refine ⟨_, ?_, remoteDeinit_idle (hR.on henabled)⟩
    rw [if_neg (by decide)]

/-- Joined threads and freed blocks are all there were. -/
theorem Inv.released (hI : Inv p) :
    p.logQueue.destroy.memory.live = [] ∧ join (join p.threads p.recvThread) p.writeThread = [] := by
  unfold LogQueue.destroy
  cases hrun : p.running with
  | false =>
    have hC := (hI.idle hrun).1
    rw [hC.buffer, hC.seq, hC.recvThread, hC.writeThread, hC.threads]
    exact ⟨hC.memory, rfl⟩
  | true =>
    obtain ⟨⟨b, s, hb, hs, hlive⟩, r, w, hr, hw, hthreads⟩ := hI.up hrun
    rw [hb, hs, hr, hw, hthreads]
    refine ⟨?_, erase_erase_pair w r⟩
    show (p.logQueue.memory.live.erase b).erase s = []
    rw [hlive]
    exact erase_erase_pair s b

theorem Inv.deinit (hI : Inv p) (gzips : ℕ → Bool) :
    Inv (silogDaemonDeinit p gzips) ∧ (silogDaemonDeinit p gzips).running = false := by
  have hR : RemoteInv { p with
      running := false, recvThread := none, writeThread := none
      threads := join (join p.threads p.recvThread) p.writeThread } := ⟨hI.remote.off, hI.remote.on⟩
  obtain ⟨remote, heq, hidle⟩ := remoteDeinit_cases hR
  obtain ⟨hmemory, hthreads⟩ := hI.released
  have hL := hI.files.deinit gzips
  have hinit := deinit_initialized p.files gzips
  obtain ⟨hfd, hcompress⟩ := hL.down hinit
  unfold silogDaemonDeinit
  dsimp only
  rw [heq]
  refine ⟨⟨hL, fun _ => ⟨⟨hinit, hfd, hcompress, rfl, rfl, hmemory, rfl, rfl, hthreads⟩, rfl⟩, ?_,
    fun _ => ⟨hidle, rfl⟩, ?_⟩, rfl⟩
  · intro hup
    cases hup
  · intro hon
    cases hon

/-! ## Section 7: The next call is a first call -/

theorem clean_fresh (hC : Clean p) : Clean p.fresh :=
  ⟨rfl, rfl, ⟨rfl, rfl⟩, rfl, rfl, hC.memory, rfl, rfl, rfl⟩

/-- Without the history of the remote service the daemon starts it in the same way. -/
theorem remoteInit_forget (p : Process) (henabled : p.remoteEnabled = false) (hidle : RemoteIdle p.remote.mgr)
    (ret : ErrorCode) (config : Option Remote.SilogRemoteConfig) (renv : Remote.InitEnv)
    (create : Bool) :
    (silogDaemonRemoteInit { p with
        remote := { p.remote with mgr := .initial }, initResult := ret } config renv create).2 =
      { (silogDaemonRemoteInit p config renv create).2 with initResult := ret } := by
  unfold silogDaemonRemoteInit
  simp only [henabled, Bool.false_eq_true, if_false]
  rw [remoteInit_idle hidle]
  by_cases hret : (Remote.silogRemoteInit { p.remote with mgr := .initial }
      (some (remoteConfig config)) renv).1 ≠ .ok
  · rw [if_pos hret, if_pos hret]
  · rw [if_neg hret, if_neg hret]
    cases create <;> rfl

/-- After a successful `SilogFileManagerInit` the record has nothing of the old one. -/
theorem staffed_fresh (hC : Clean p) (henabled : p.remoteEnabled = false)
    (hthread : p.remoteThread = false) (hrun : p.running = false) (henv : env.files.Ready) :
    p.fresh.staffed env = { p.staffed env with
      remote := { p.remote with mgr := .initial }, initResult := .unknown } := by
  unfold Process.staffed FileManager.silogFileManagerInit
  rw [FileManager.initWithConfig_ready hC.files henv,
    FileManager.initWithConfig_ready (clean_fresh hC).files henv, hrun, henabled, hthread, hC.threads]
  rfl

theorem asFirst (hI : Inv p) (hrun : p.running = false) : AsFirst p := by
  intro env
  obtain ⟨hC, henabled⟩ := hI.idle hrun
  obtain ⟨hidle, hthread⟩ := hI.remote.off henabled
  have hC₀ := clean_fresh hC
  have hrun₀ : p.fresh.running = false := rfl
  by_cases henv : env.files.Ready
  · by_cases hqueue : env.bufferOk = true ∧ env.seqOk = true
    · obtain ⟨hb, hs⟩ := hqueue
      rw [init_threads hrun hC henv hb hs, init_threads hrun₀ hC₀ henv hb hs]
      dsimp only
      split
      · exact ⟨rfl, fun hok => (by cases hok)⟩
      · split
        · exact ⟨rfl, fun hok => (by cases hok)⟩
        · refine ⟨rfl, fun _ => ?_⟩
          rw [staffed_fresh hC henabled hthread hrun henv]
          have hforget := remoteInit_forget (p.staffed env) henabled hidle .unknown
            (some ⟨0, 0⟩) env.remote env.remoteCreate
          exact congrArg (fun q : Process => { q with running := true, initResult := .ok })
            hforget.symm
    · obtain ⟨next, heq⟩ := init_queue hrun hC henv hqueue
      obtain ⟨next₀, heq₀⟩ := init_queue hrun₀ hC₀ henv hqueue
      rw [heq, heq₀]
      exact ⟨rfl, fun hok => (by cases hok)⟩
  · rw [init_files hrun hC henv, init_files hrun₀ hC₀ henv]
    refine ⟨?_, fun hok => absurd ((filesInit_ok_iff hC).mp hok) henv⟩
    exact FileManager.initWithConfig_ret hC.files hC₀.files _ _

theorem failsClean_of_idle (hI : Inv p) (hrun : p.running = false) : FailsClean p :=
  fun _ => ⟨(hI.idle hrun).1, asFirst hI hrun⟩

/-! ## Section 8: Runs -/

/-- Behind the two exits without clean-up the file manager is still initialised. -/
theorem init_stranded (hI : Inv p) (hrun : p.running = false) (henv : env.files.Ready)
    (hb : env.bufferOk = true) (hs : env.seqOk = true)
    (hno : ¬ (env.recvCreate = true ∧ env.writeCreate = true)) :
    ¬ FailsClean (silogDaemonInit p env) := by
  have hC := (hI.idle hrun).1
  have hinit := filesInit_initialized hC henv
  rw [init_threads hrun hC henv hb hs]
  dsimp only
  intro hclean
  split at hclean
  · have hfiles := (hclean (show ErrorCode.threadCreate ≠ .ok by decide)).1.files
    exact absurd (hinit.symm.trans hfiles) (by decide)
  · split at hclean
    · have hfiles := (hclean (show ErrorCode.threadCreate ≠ .ok by decide)).1.files
      exact absurd (hinit.symm.trans hfiles) (by decide)
    next hr hw => exact hno ⟨Bool.eq_true_of_not_eq_false hr, Bool.eq_true_of_not_eq_false hw⟩

/-- One call from a process in order: an error leaves nothing behind exactly if the
    call creates the threads that it comes to, and then the process is in order again. -/
theorem Inv.call (hI : Inv p) (c : Call) :
    (FailsClean (p.call c) ↔ CreatesThreads p c) ∧ (FailsClean (p.call c) → Inv (p.call c)) := by
  cases c with
  | deinit gzips =>
    obtain ⟨hI', hrun'⟩ := hI.deinit gzips
    exact ⟨iff_of_true (failsClean_of_idle hI' hrun') trivial, fun _ => hI'⟩
  | init env =>
    show (FailsClean (silogDaemonInit p env) ↔ CreatesThreads p (.init env)) ∧
      (FailsClean (silogDaemonInit p env) → Inv (silogDaemonInit p env))
    cases hrun : p.running with
    | true =>
      have heq : silogDaemonInit p env = p.returns .ok := if_pos hrun
      rw [heq]
      refine ⟨iff_of_true (fun herr => absurd rfl herr) ?_, fun _ => ?_⟩
      · intro hno
        exact absurd (hrun.symm.trans hno) (by decide)
      · exact ⟨hI.files, fun hno => absurd (hrun.symm.trans hno) (by decide), fun h => ⟨(hI.up h).1,
          (hI.up h).2⟩, hI.remote.off, hI.remote.on⟩
    | false =>
      by_cases hreach : env.files.Ready ∧ env.bufferOk = true ∧ env.seqOk = true
      · obtain ⟨henv, hb, hs⟩ := hreach
        by_cases hthreads : env.recvCreate = true ∧ env.writeCreate = true
        · obtain ⟨hI', _, hok⟩ := hI.init_ok hrun henv hb hs hthreads.1 hthreads.2
          exact ⟨iff_of_true (fun herr => absurd hok herr) fun _ _ _ _ => hthreads, fun _ => hI'⟩
        · have hstranded := init_stranded hI hrun henv hb hs hthreads
          refine ⟨iff_of_false hstranded ?_, fun h => absurd h hstranded⟩
          intro hcreates
          exact hthreads (hcreates hrun henv hb hs)
      · obtain ⟨hI', hrun'⟩ := hI.init_early hrun hreach
        refine ⟨iff_of_true (failsClean_of_idle hI' hrun') ?_, fun _ => hI'⟩
        intro _ henv hb hs
        exact absurd ⟨henv, hb, hs⟩ hreach

end steps

theorem inv_initial (fs : Files.Fs FileManager.Str UInt8) : Inv (Process.initial fs) := by
  refine ⟨.initial fs, fun _ => ⟨⟨rfl, rfl, ⟨rfl, rfl⟩, rfl, rfl, rfl, rfl, rfl, rfl⟩, rfl⟩, ?_,
    fun _ => ⟨⟨rfl, rfl, rfl⟩, rfl⟩, ?_⟩
  · intro hup
    cases hup
  · intro hon
    cases hon

/-- **A failed start leaves nothing.** In a run of any calls and failures, every error of
    `SilogDaemonInit` leaves the daemon as before its first call exactly if no
    `SilogDaemonInit` of the run fails at the creation of one of its two threads. -/
theorem failsClean_iff_createsThreads {fs : Files.Fs FileManager.Str UInt8} {calls : List Call}
    {p : Process} :
    Steps (Ensuring Step FailsClean) (Process.initial fs) calls p ↔
      Steps (Guarded Step CreatesThreads) (Process.initial fs) calls p := by
  apply ensuring_iff_guarded (inv_initial fs) (failsClean_of_idle (inv_initial fs) rfl)
  · rintro p c _ rfl hI _ hF'
    exact (hI.call c).2 hF'
  · rintro p c _ rfl hI _
    exact (hI.call c).1

/-! ## Section 9: The steps of a start

    `SiLog.Daemon.Startup` takes `SilogDaemonInit` apart into steps, between which the
    threads run, and leaves open what the parts return. -/

/-- `s` is what the model of the start sees of `p`. -/
structure Shows (p : Process) (s : Daemon.State) : Prop where
  main          : s.main = if p.running then .up else .stopped
  running       : s.running = p.running
  recvThread    : s.recvThread = p.recvThread
  writeThread   : s.writeThread = p.writeThread
  threads       : s.threads.length = p.created
  fileManager   : s.fileManager = p.files.fm.initialized
  logQueue      : s.logQueue = p.logQueue.buffer.isSome
  remoteEnabled : s.remoteEnabled = p.remoteEnabled
  initResult    : s.initResult = p.initResult

theorem shows_initial (fs : Files.Fs FileManager.Str UInt8) :
    Shows (Process.initial fs) Daemon.State.initial :=
  ⟨rfl, rfl, rfl, rfl, rfl, rfl, rfl, rfl, rfl⟩

theorem remoteInit_enabled (p : Process) (config : Option Remote.SilogRemoteConfig)
    (renv : Remote.InitEnv) (create : Bool) :
    (silogDaemonRemoteInit p config renv create).2.remoteEnabled =
      (p.remoteEnabled || (silogDaemonRemoteInit p config renv create).1 == .ok) := by
  unfold silogDaemonRemoteInit
  cases henabled : p.remoteEnabled with
  | true => rw [if_pos rfl, henabled, Bool.true_or]
  | false =>
    rw [if_neg (by decide)]
    dsimp only
    split
    next herr => simp [herr]
    · split <;> rfl

/-- The steps once the file manager and the queue are there: the two threads, the remote
    service and the flag. -/
theorem init_steps_threads {p : Process} {s : Daemon.State} {env : InitEnv} (hI : Inv p)
    (hs : Shows p s) (hrun : p.running = false) (henv : env.files.Ready)
    (hb : env.bufferOk = true) (hseq : env.seqOk = true) :
    ∃ acts s', Steps Daemon.Step s acts s' ∧ Shows (silogDaemonInit p env) s' := by
  have hC := (hI.idle hrun).1
  have hinit := filesInit_initialized hC henv
  obtain ⟨main, running, recvThread, writeThread, threads, fileManager, logQueue, enabled, result⟩ := s
  obtain ⟨hmain, hrunning, rfl, rfl, hthreads, rfl, rfl, rfl, rfl⟩ := hs
  dsimp only at hmain hrunning hthreads
  rw [hrun] at hmain hrunning
  subst hmain hrunning
  rw [init_threads hrun hC henv hb hseq]
  dsimp only
  by_cases hr : env.recvCreate = false
  · rw [if_pos hr]
    refine ⟨[.callInit, .initFileManager .ok, .initQueue .ok, .createRecv false],
      ⟨.stopped, false, none, p.writeThread, threads, true, true, p.remoteEnabled, .threadCreate⟩,
      steps_of_exec (f := Daemon.step) (fun _ _ _ => id) rfl, ?_⟩
    exact ⟨by rw [hrun]; rfl, hrun.symm, rfl, rfl, hthreads, hinit.symm, rfl, rfl, rfl⟩
  · rw [if_neg hr]
    by_cases hw : env.writeCreate = false
    · rw [if_pos hw]
      refine ⟨[.callInit, .initFileManager .ok, .initQueue .ok, .createRecv true,
        .createWrite false], ⟨.stopped, false, some threads.length, none,
        threads ++ [⟨.recv, .ipcInit⟩], true, true, p.remoteEnabled, .threadCreate⟩,
        steps_of_exec (f := Daemon.step) (fun _ _ _ => id) rfl, ?_⟩
      refine ⟨by rw [hrun]; rfl, hrun.symm, congrArg some hthreads, rfl, ?_, hinit.symm, rfl, rfl,
        rfl⟩
      rw [← hthreads]
      exact List.length_append
    · rw [if_neg hw]
      -- the remote service may fail; the daemon is up all the same
      have hstaffed : RemoteInv (p.staffed env) := ⟨hI.remote.off, hI.remote.on⟩
      have henabled := remoteInit_enabled (p.staffed env) (some ⟨0, 0⟩) env.remote env.remoteCreate
      obtain ⟨enabled, thread, remote, heq, _⟩ :=
        remoteInit_cases hstaffed (some ⟨0, 0⟩) env.remote env.remoteCreate
      have hlength : (threads ++ [(⟨.recv, .ipcInit⟩ : Thread)]).length = p.created + 1 := by
        rw [List.length_append, hthreads]
        rfl
      rw [heq] at henabled ⊢
      refine ⟨[.callInit, .initFileManager .ok, .initQueue .ok, .createRecv true,
        .createWrite true, .initRemote (silogDaemonRemoteInit (p.staffed env) (some ⟨0, 0⟩)
          env.remote env.remoteCreate).1, .storeRunning],
        ⟨.up, true, some threads.length, some (threads ++ [(⟨.recv, .ipcInit⟩ : Thread)]).length,
          threads ++ [⟨.recv, .ipcInit⟩] ++ [⟨.write, .test⟩], true, true, _, .ok⟩,
        steps_of_exec (f := Daemon.step) (fun _ _ _ => id) rfl, ?_⟩
      refine ⟨rfl, rfl, congrArg some hthreads, congrArg some hlength, ?_, hinit.symm, rfl,
        henabled.symm, rfl⟩
      rw [List.length_append, hlength]
      rfl

/-- The steps of a start that fails before. -/
theorem init_steps_early {p : Process} {s : Daemon.State} {env : InitEnv} (hI : Inv p)
    (hs : Shows p s) (hrun : p.running = false)
    (hreach : ¬ (env.files.Ready ∧ env.bufferOk = true ∧ env.seqOk = true)) :
    ∃ acts s', Steps Daemon.Step s acts s' ∧ Shows (silogDaemonInit p env) s' := by
  have hC := (hI.idle hrun).1
  obtain ⟨main, running, recvThread, writeThread, threads, fileManager, logQueue, enabled, result⟩ := s
  obtain ⟨hmain, hrunning, rfl, rfl, hthreads, rfl, rfl, rfl, rfl⟩ := hs
  dsimp only at hmain hrunning hthreads
  rw [hrun] at hmain hrunning
  subst hmain hrunning
  by_cases henv : env.files.Ready
  · obtain ⟨next, heq⟩ := init_queue hrun hC henv fun hqueue => hreach ⟨henv, hqueue⟩
    rw [heq]
    refine ⟨[.callInit, .initFileManager .ok, .initQueue .outOfMemory], _,
      steps_of_exec (f := Daemon.step) (fun _ _ _ => id) rfl, ?_⟩
    exact ⟨by simp [Daemon.State.failInit, hrun], hrun.symm, rfl, rfl, hthreads,
      (deinit_initialized _ _).symm, rfl, rfl, rfl⟩
  · have hret : (FileManager.silogFileManagerInit p.files none env.files).ret ≠ .ok :=
      mt (filesInit_ok_iff hC).mp henv
    have hinit := filesInit_failed hC henv
    rw [init_files hrun hC henv]
    refine ⟨[.callInit, .initFileManager _], _,
      Steps.cons _ _ rfl (Steps.single (if_neg hret)), ?_⟩
    exact ⟨by rw [hrun]; rfl, hrun.symm, rfl, rfl, hthreads, hC.files.trans hinit.symm, rfl, rfl, rfl⟩

/-- `SilogDaemonInit` is a run of such steps, with no thread in between. -/
theorem init_steps {p : Process} {s : Daemon.State} (hI : Inv p) (hs : Shows p s) (env : InitEnv) :
    ∃ acts s', Steps Daemon.Step s acts s' ∧ Shows (silogDaemonInit p env) s' := by
  cases hrun : p.running with
  | true =>
    obtain ⟨hmain, hrunning, hrecv, hwrite, hthreads, hfiles, hqueue, henabled, _⟩ := hs
    have heq : silogDaemonInit p env = p.returns .ok := if_pos hrun
    have hup : s.main = .up := by rw [hmain, hrun]; rfl
    have hstep : Daemon.Step s .callInit { s with main := .up, initResult := .ok } := by
      unfold Daemon.Step Daemon.step
      rw [hup]
      exact if_pos (hrunning.trans hrun)
    rw [heq]
    refine ⟨[.callInit], _, Steps.single hstep, ?_⟩
    exact ⟨hup.symm.trans hmain, hrunning, hrecv, hwrite, hthreads, hfiles, hqueue, henabled, rfl⟩
  | false =>
    by_cases hreach : env.files.Ready ∧ env.bufferOk = true ∧ env.seqOk = true
    · exact init_steps_threads hI hs hrun hreach.1 hreach.2.1 hreach.2.2
    · exact init_steps_early hI hs hrun hreach

/-- All succeeds but the creation of the write thread. -/
def noWriteThread : InitEnv where
  files := FileManager.smoothInit
  gzips := fun _ => true
  bufferOk := true
  seqOk := true
  recvCreate := true
  writeCreate := false
  remote := { malloc := true, socket := some 3, bind := true, listen := true, getFl := true, setFl := true }
  remoteCreate := true

def halfStarted : Process := silogDaemonInit (Process.initial fun _ => none) noWriteThread

/-- The receive thread, the buffers and the file manager stay, and the next
    `SilogDaemonInit` overwrites the pointers of the queue. -/
theorem halfStarted_leaves_all :
    Steps Step (Process.initial fun _ => none) [.init noWriteThread] halfStarted ∧
    halfStarted.initResult = .threadCreate ∧ halfStarted.files.fm.initialized = true ∧
    halfStarted.logQueue.buffer = some 0 ∧ halfStarted.threads = [0] ∧
    (silogDaemonInit halfStarted noWriteThread).logQueue.buffer = some 2 ∧
    (silogDaemonInit halfStarted noWriteThread).logQueue.memory.live = [3, 2, 1, 0] ∧
    ¬ FailsClean halfStarted := by
  refine ⟨Steps.single rfl, rfl, rfl, rfl, rfl, rfl, rfl, ?_⟩
  intro hclean
  have herr : halfStarted.initResult ≠ .ok := nofun
  exact absurd (hclean herr).1.files (by decide)

end SiLog.Daemon.Setup
