import SiLog.Daemon.Setup
import SiLog.Remote.Serving

/-! # The remote service inside the daemon

    Three threads of the daemon call the remote service.  The main thread starts
    it in `SilogDaemonRemoteInit`, after the write thread is created, and shuts
    it down in `SilogDaemonRemoteDeinit`, after the write thread is joined.  The
    write thread calls `SilogRemoteBroadcast` when it finds `g_remoteEnabled`
    set.  The remote service thread calls `SilogRemoteAccept` as long as
    `g_remoteRunning` is set.

    This file puts `SiLog.Daemon.Startup` and `SiLog.Remote.Threads` together:
    the steps of the daemon, with the start and the shutdown of the service
    taken apart at the accesses to the flags, and the steps of the calls that
    the threads make.  Nothing else calls the service.
-/

open Lts

namespace SiLog.Daemon.Service

/-! ## Section 1: State -/

/-- The threads that call the service, by their numbers in `threads` and `acceptors`. -/
inductive Caller where
  | main
  | write (k : ℕ)
  | remote (k : ℕ)
  deriving DecidableEq

/-- Where the main thread is in `SilogDaemonRemoteInit` or `SilogDaemonRemoteDeinit`. -/
inductive RemotePc where
  | out
  /-- `SilogRemoteInit` has yet to store `isInit`. -/
  | publish
  | storeRunning
  | create
  /-- The thread was not created; `SilogRemoteDeinit` is next. -/
  | undo
  | enable
  | join
  | deinit
  | disable
  deriving DecidableEq

/-- Where a write thread is in the body of its loop. -/
inductive WritePc where
  /-- Before the test of `g_remoteEnabled`. -/
  | before
  /-- The test has found it set; `SilogRemoteBroadcast` is next. -/
  | call (entry : LogEntry)
  | inside
  | after

/-- Where a remote service thread is. -/
inductive AcceptPc where
  /-- At `while (atomic_load(&g_remoteRunning))`. -/
  | test
  | call
  | inside
  | done
  deriving DecidableEq

/-- The daemon and the service.  `acceptors` are all remote service threads ever
    created; `remoteThread` is `none` when `g_remoteThread` is 0. -/
structure State where
  daemon        : Daemon.State
  main          : RemotePc
  write         : ℕ → WritePc
  acceptors     : List AcceptPc
  remoteThread  : Option ℕ
  remoteRunning : Bool
  remote        : Remote.System Caller

/-- The process before its first call. -/
def State.initial : State where
  daemon := .initial
  main := .out
  write := fun _ => .before
  acceptors := []
  remoteThread := none
  remoteRunning := false
  remote := .start .initial

/-! ## Section 2: Steps -/

inductive Act where
  /-- A step of `SiLog.Daemon.Startup` that is not taken apart here. -/
  | daemon (a : Daemon.Act)
  /-- `SilogDaemonRemoteInit` is called, and `SilogRemoteInit` runs up to the store of
      `isInit`. -/
  | remoteInit (env : Remote.InitEnv)
  | publish
  | storeRunning
  | createRemote (ok : Bool)
  | undo
  | enable
  /-- `SilogDaemonRemoteDeinit` is called and stores `false` into `g_remoteRunning`. -/
  | remoteDeinit
  | joinRemote
  | deinit
  | disable
  /-- Write thread `k` has written `entry` and tests `g_remoteEnabled`. -/
  | testEnabled (k : ℕ) (entry : LogEntry)
  | broadcast (k : ℕ)
  | leaveBroadcast (k : ℕ)
  /-- Remote service thread `k` tests `g_remoteRunning`. -/
  | acceptTest (k : ℕ)
  | accept (k : ℕ)
  | leaveAccept (k : ℕ)
  /-- A step of a thread that is inside `SilogRemoteBroadcast` or `SilogRemoteAccept`. -/
  | serve (a : Remote.Act Caller)

/-- The configuration that `SilogDaemonInit` gives to `SilogDaemonRemoteInit`. -/
def config : Option Remote.SilogRemoteConfig := some { listenPort := 0, maxClients := 0 }

/-- The kernel hands out a descriptor that is not in use. -/
def freshSocket (k : Remote.Sockets) (env : Remote.InitEnv) : Bool :=
  env.socket.all fun fd => decide (0 ≤ fd) && decide (fd ∉ k.opened)

/-- The service is left in state `server`. -/
def State.withServer (s : State) (server : Remote.Server) : State :=
  { s with remote := { s.remote with server := server } }

/-- The manager with `isInit` set to `b`. -/
def setInit (server : Remote.Server) (b : Bool) : Remote.Server :=
  { server with mgr := { server.mgr with isInit := b } }

/-- A step of the daemon. -/
def State.lift (s : State) (a : Daemon.Act) : Option State :=
  (Daemon.step s.daemon a).map fun d => { s with daemon := d }

/-- `SilogDaemonRemoteInit` returns `ret`. -/
def State.finish (s : State) (ret : ErrorCode) : Option State :=
  { s with main := .out }.lift (.initRemote ret)

/-- The thread of a step inside `SilogRemoteBroadcast` or `SilogRemoteAccept`. -/
def insider : Remote.Act Caller → Option Caller
  | .broadcastLock t | .send t _ | .relock t => some t
  | .acceptCall t _ | .acceptLock t _ _ | .acceptClose t => some t
  | .broadcast _ _ | .accept _ | .deinit _ => none

/-- The thread is inside one of the two calls. -/
def State.isInside (s : State) : Caller → Bool
  | .main => false
  | .write k => match s.write k with
    | .inside => true
    | _ => false
  | .remote k => s.acceptors[k]? == some .inside

/-- A step of the service. -/
def State.serve (s : State) (a : Remote.Act Caller) : Option State :=
  (s.remote.next a).map fun r => { s with remote := r }

/-- The call of thread `t` has returned. -/
def State.returned (s : State) (t : Caller) : Bool :=
  match s.remote.pc t with
  | .idle => true
  | _ => false

/-- Write thread `k` goes on to `pc`. -/
def State.setWrite (s : State) (k : ℕ) (pc : WritePc) : State :=
  { s with write := Function.update s.write k pc }

/-- Remote service thread `k` goes on to `pc`. -/
def State.setAcceptor (s : State) (k : ℕ) (pc : AcceptPc) : State :=
  { s with acceptors := s.acceptors.set k pc }

/-- A write thread at the end of the body of its loop. -/
def State.leavesBody (s : State) (k : ℕ) : Bool :=
  s.daemon.threads[k]? == some { role := .write, pc := .body }

/-- A step of the daemon that is not taken apart. -/
def daemonStep (s : State) : Daemon.Act → Option State
  | .initRemote _ => none
  | .release =>
    -- `SilogDaemonRemoteDeinit` returns at once if the service is not enabled
    if s.main = .out ∧ s.daemon.remoteEnabled = false then s.lift .release else none
  | .thread k =>
    if s.leavesBody k then
      match s.write k with
      -- the queue was empty, or the entry could not be formatted
      | .before => s.lift (.thread k)
      | .after => (s.setWrite k .before).lift (.thread k)
      | _ => none
    else s.lift (.thread k)
  | a => s.lift a

/-- `SilogRemoteInit` up to the store of `isInit`. -/
def remoteInitStep (s : State) (env : Remote.InitEnv) : Option State :=
  if s.daemon.remoteEnabled then s.finish .ok
  else
    let r := Remote.silogRemoteInit s.remote.server (some (Setup.remoteConfig config)) env
    if r.1 ≠ .ok then (s.withServer r.2).finish r.1
    else if s.remote.server.mgr.isInit then some { s with main := .storeRunning }
    else some { s.withServer (setInit r.2 false) with main := .publish }

/-- One step of the daemon with its service. -/
def step (s : State) : Act → Option State
  | .daemon a => daemonStep s a
  | .remoteInit env =>
    if s.daemon.main = .remoteInit ∧ s.main = .out ∧ freshSocket s.remote.server.kernel env then
      remoteInitStep s env
    else none
  | .publish =>
    if s.main = .publish then
      some { s.withServer (setInit s.remote.server true) with main := .storeRunning }
    else none
  | .storeRunning =>
    if s.main = .storeRunning then some { s with main := .create, remoteRunning := true } else none
  | .createRemote ok =>
    if s.main = .create then
      if ok then some { s with main := .enable, remoteThread := some s.acceptors.length
                               acceptors := s.acceptors ++ [.test] }
      -- the flag stays set
      else some { s with main := .undo }
    else none
  | .undo =>
    if s.main = .undo then (s.serve (.deinit .main)).bind fun s => s.finish .threadCreate else none
  | .enable => if s.main = .enable then s.finish .ok else none
  | .remoteDeinit =>
    if s.daemon.main = .release ∧ s.main = .out ∧ s.daemon.remoteEnabled then
      some { s with main := .join, remoteRunning := false }
    else none
  | .joinRemote =>
    if s.main = .join ∧ (s.remoteThread.all fun k => s.acceptors[k]? == some .done) then
      some { s with main := .deinit, remoteThread := none }
    else none
  | .deinit =>
    if s.main = .deinit then
      (s.serve (.deinit .main)).map fun s => { s with main := .disable }
    else none
  | .disable => if s.main = .disable then { s with main := .out }.lift .release else none
  | .testEnabled k entry =>
    if s.leavesBody k then
      match s.write k with
      | .before => some (s.setWrite k (if s.daemon.remoteEnabled then .call entry else .after))
      | _ => none
    else none
  | .broadcast k =>
    match s.write k with
    | .call entry => (s.setWrite k .inside).serve (.broadcast (.write k) (some entry))
    | _ => none
  | .leaveBroadcast k =>
    if s.isInside (.write k) ∧ s.returned (.write k) then some (s.setWrite k .after) else none
  | .acceptTest k =>
    if s.acceptors[k]? = some .test then
      some (s.setAcceptor k (if s.remoteRunning then .call else .done))
    else none
  | .accept k =>
    if s.acceptors[k]? = some .call then (s.setAcceptor k .inside).serve (.accept (.remote k))
    else none
  | .leaveAccept k =>
    if s.isInside (.remote k) ∧ s.returned (.remote k) then some (s.setAcceptor k .test) else none
  | .serve a =>
    if (insider a).any s.isInside then s.serve a else none

/-- The transition relation. -/
def Step (s : State) (a : Act) (s' : State) : Prop := step s a = some s'

end SiLog.Daemon.Service
