import SiLog.Logger.Image
import SiLog.Ipc.Client
import SiLog.Daemon.Receive
import SiLog.Daemon.Shutdown
import SiLog.Daemon.Line

/-! # The way of an entry from `silogLog` to the log file

    An entry passes through four threads and three queues.

    - `silogLog`, in any thread of a logging process, builds it and pushes it
      into the queue of the process.
    - `silogEntrySendHandle`, the sending thread of the process, pops it and
      sends it as a datagram.
    - `SilogDaemonRecvThreadFunc` receives it and pushes it into `logQueue`.
    - `SilogDaemonWriteThreadFunc` pops it, formats it into a line and hands
      the line to the file manager.

    This file puts the models of the parts together: any number of logging
    processes with any number of threads, their queues step by step, the
    sockets with daemons that come and go, and one daemon with its threads.
    Everything interleaves.  The socket of the daemon is open to other
    programs too, which may send any datagram.
-/

open Lts Printf SiLog.Ipc SiLog.Daemon

namespace SiLog.Pipeline

/-! ## Section 1: A logging process -/

/-- An entry, as the queues store it. -/
abbrev Entry : Type := Mpsc.Elem logEntrySize

/-- Where `silogEntrySendHandle` is. -/
inductive SendPc where
  /-- At the top of the loop. -/
  | body
  /-- In `SilogMpscQueuePop`. -/
  | pop
  /-- `Pop` has returned the entry; `SilogIpcClientSend` is next. -/
  | send (e : Entry)

/-- A logging process: `g_logEntryMgr` with its queue, the sending thread and the agent
    of the IPC layer. -/
structure App (ι : Type*) where
  minLevel : UInt32
  queue    : Mpsc.Config ι logEntrySize
  send     : SendPc
  agent    : SilogIpcAgent
  peer     : ℤ → Option ℕ

/-- What a call of `silogLog` is given, and what it asks the system for. -/
structure Message where
  level : UInt32
  tag   : List UInt8
  file  : List UInt8
  line  : UInt32
  fmt   : List UInt8
  env   : Logger.BuildEnv

/-- The functions of the C library that the threads rely on. -/
structure CLibrary where
  convert    : Conversion → List Arg → Option (List UInt8)
  localtimeR : Int64 → Option Line.Tm

/-- The entry that a call of `silogLog` pushes: none below the minimum level, or if it
    cannot be built.  The arguments are not passed on. -/
def CLibrary.built (lib : CLibrary) (minLevel : UInt32) (m : Message) : Option LogEntry :=
  if m.level < minLevel then none
  else match Logger.silogBuildEntry lib.convert m.env m.level m.tag m.file m.line m.fmt [] with
    | some (.ok entry) => some entry
    | _ => none

/-- The sending thread behind a step of its `Pop` that takes the queue from `q` to `q'`. -/
def SendPc.after {ι : Type*} (q q' : Mpsc.Config ι logEntrySize) :
    SendPc → Mpsc.Act ι logEntrySize → Option SendPc
  | .body, .popLoadRead _ => some .pop
  | .pop, .popLoadSeq =>
    match q'.1.pop with
    -- the queue is empty: the thread sleeps and goes on
    | .idle => some .body
    | _ => some .pop
  | .pop, .popCopyByte _ | .pop, .popStoreSeq => some .pop
  | .pop, .popStoreRead =>
    match q.1.pop with
    | .advance _ out => some (.send out)
    | _ => none
  | _, _ => none

/-! ## Section 2: The system -/

/-- The processes `κ` with their threads `ι`, the daemon sockets, and one daemon: its
    agent, its socket with the datagrams that wait there, the buffer of the receive
    thread, the entry that it has received and not yet pushed, and the lines handed to
    `SilogFileManagerWriteRaw`.  `injected` are the datagrams that other programs sent; no step
    reads it. -/
structure State (κ ι : Type*) where
  apps     : κ → App ι
  daemons  : Daemons
  agent    : SilogIpcAgent
  mine     : Option ℕ
  socket   : List (List UInt8)
  entry    : List UInt8
  held     : Option Entry
  daemon   : Shutdown.State
  lines    : List (List UInt8)
  injected : List (List UInt8)

inductive Act (κ ι : Type*) where
  /-- Thread `t` of process `p` calls `silogLog`, up to the first step of its `Push`. -/
  | silogLog (p : κ) (t : ι) (m : Message)
  /-- A later step of a `Push` in process `p`. -/
  | push (p : κ) (a : Mpsc.Act ι logEntrySize)
  /-- `silogSetLevel` -/
  | setLevel (p : κ) (level : UInt32)
  /-- A step of `Pop` in the sending thread of `p`. -/
  | pop (p : κ) (a : Mpsc.Act ι logEntrySize)
  /-- `SilogIpcClientSend` in the sending thread of `p`. -/
  | send (p : κ) (env : SendEnv)
  /-- Another program sends a datagram to the socket of the daemon. -/
  | inject (d : List UInt8)
  /-- A daemon binds or closes its socket. -/
  | socketEvent (e : DaemonEvent)
  /-- `SilogIpcInit` and `SilogIpcServerInit` in the receive thread. -/
  | recvStart (env : ServerEnv)
  /-- `SilogIpcServerRecv`; the flag tells that `recv` looks at the socket and does not fail. -/
  | recv (ok : Bool)
  /-- The first step of the `Push` of the receive thread. -/
  | recvPushStart
  | recvPush (a : Shutdown.QueueAct)
  /-- `SilogIpcServerClose` in the receive thread. -/
  | recvClose
  /-- A loop test, a step of `Pop` in the write thread or a step of the main thread. -/
  | other (a : Shutdown.Act)
  /-- The write thread formats its entry and writes the line; the buffers hold what was in
      them before. -/
  | write (timebuf : Vector UInt8 32) (logbuf : Vector UInt8 512)

/-- The later steps of a `Push`. -/
def inPush {ι : Type*} : Mpsc.Act ι logEntrySize → Bool
  | .loadRead _ | .fetchSub _ | .cas _ _ | .copyByte _ _ | .storeReady _ => true
  | _ => false

/-- The last step of a `Push`. -/
def endsPush {ι : Type*} : Mpsc.Act ι logEntrySize → Bool
  | .fetchSub _ | .storeReady _ => true
  | _ => false

/-- The daemon steps that only concern the daemon. -/
def isLocal : Shutdown.Act → Bool
  | .storeRunning | .callDeinit | .joinRecv | .joinWrite | .release | .recvTest | .writeTest
  | .pop _ => true
  | _ => false

/-- The datagrams that arrived at the socket of the daemon. -/
def arrivals (mine : Option ℕ) (delivered : List (ℕ × List UInt8)) : List (List UInt8) :=
  (delivered.filter fun x => mine = some x.1).map Prod.snd

/-- What `recv` finds. -/
def recvResult (socket : List (List UInt8)) (ok : Bool) : RecvResult :=
  match socket with
  | d :: _ => if ok then .datagram d else .failed
  | [] => .failed

/-- The element in a buffer. -/
def elemOfBytes (bs : List UInt8) : Entry := fun i => bs.getD i 0

/-- The socket events of `SilogIpcDgramServerInit`. -/
def serverEvents (env : ServerEnv) : List DaemonEvent :=
  if env.socket.isSome ∧ setNonblock env.getFl env.setFl = .ok ∧ env.bindOk then daemonStart
  else [.unlink]

section step
variable {κ ι : Type*} [DecidableEq κ] [DecidableEq ι]

def State.setApp (s : State κ ι) (p : κ) (app : App ι) : State κ ι :=
  { s with apps := Function.update s.apps p app }

/-- The agent of process `p` and the daemons after `SilogIpcClientSend` of `e`. -/
def State.sent (s : State κ ι) (p : κ) (e : Entry) (env : SendEnv) : World :=
  let app := s.apps p
  let w : World := { agent := app.agent, peer := app.peer, daemons := s.daemons, delivered := [] }
  (silogIpcClientSend w (List.ofFn e) env).2

/-- Process `p` sends `e`. -/
def State.sendEntry (s : State κ ι) (p : κ) (e : Entry) (env : SendEnv) : State κ ι :=
  let w := s.sent p e env
  -- an error is only reported: the entry is gone
  { s.setApp p { s.apps p with agent := w.agent, peer := w.peer, send := .body } with
    daemons := w.daemons
    socket := s.socket ++ arrivals s.mine w.delivered }

/-- `SilogIpcServerRecv` in the receive thread: the state afterwards and the number it
    returned. -/
def State.recvDatagram (s : State κ ι) (ok : Bool) : State κ ι × ℤ :=
  let r := recvResult s.socket ok
  let n := silogIpcServerRecv s.agent s.entry r
  let taken := (Receive.received s.agent r).isSome
  ({ s with entry := n.2, socket := if taken then s.socket.tail else s.socket }, n.1)

/-- One step of the system. -/
def step (lib : CLibrary) (s : State κ ι) : Act κ ι → Option (State κ ι)
  | .silogLog p t m =>
    (lib.built (s.apps p).minLevel m).bind fun e =>
      (Mpsc.next (s.apps p).queue (.fetchAdd t (Logger.entryElem e))).map fun q =>
        s.setApp p { s.apps p with queue := q }
  | .push p a =>
    if inPush a then
      (Mpsc.next (s.apps p).queue a).map fun q => s.setApp p { s.apps p with queue := q }
    else none
  | .setLevel p level => some (s.setApp p { s.apps p with minLevel := level })
  | .pop p a =>
    (Mpsc.next (s.apps p).queue a).bind fun q =>
      ((s.apps p).send.after (s.apps p).queue q a).map fun send =>
        s.setApp p { s.apps p with queue := q, send := send }
  | .send p env =>
    match (s.apps p).send with
    | .send e => some (s.sendEntry p e env)
    | _ => none
  | .inject d => some { s with socket := s.socket ++ [d], injected := s.injected ++ [d] }
  | .socketEvent e => some { s with daemons := s.daemons.event e }
  | .recvStart env =>
    let r := silogIpcServerInit (silogIpcInit s.agent .unixDgram) env
    (Shutdown.step s.daemon (.recvStart (r.1 = .ok))).map fun daemon =>
      { s with daemon := daemon, agent := r.2
               mine := if r.1 = .ok then some s.daemons.next else none
               daemons := s.daemons.events (serverEvents env) }
  | .recv ok =>
    if s.daemon.recv = .body ∧ s.held.isNone then
      let r := s.recvDatagram ok
      if 0 < r.2 then some { r.1 with held := some (elemOfBytes r.1.entry) }
      else (Shutdown.step s.daemon .recvNothing).map fun daemon => { r.1 with daemon := daemon }
    else none
  | .recvPushStart =>
    s.held.bind fun e =>
      (Shutdown.step s.daemon (.push (.fetchAdd () e))).map fun daemon => { s with daemon := daemon }
  | .recvPush a =>
    if inPush a then
      (Shutdown.step s.daemon (.push a)).map fun daemon =>
        { s with daemon := daemon, held := if endsPush a then none else s.held }
    else none
  | .recvClose =>
    (Shutdown.step s.daemon .recvClose).map fun daemon =>
      { s with daemon := daemon, agent := silogIpcServerClose s.agent
               daemons := s.daemons.events (s.mine.elim [.unlink] daemonStop) }
  | .other a =>
    if isLocal a then (Shutdown.step s.daemon a).map fun daemon => { s with daemon := daemon }
    else none
  | .write timebuf logbuf =>
    match s.daemon.write with
    | .format e =>
      -- reading an entry of another program may be undefined behaviour
      (Line.silogDaemonWriteThreadFormat lib.localtimeR (Logger.entryOfElem e) timebuf.toList
        logbuf.toList).bind fun line =>
        (Shutdown.step s.daemon (.format line.isSome)).map fun daemon =>
          { s with daemon := daemon, lines := s.lines ++ line.toList }
    | _ => none

def Step (lib : CLibrary) (s : State κ ι) (a : Act κ ι) (s' : State κ ι) : Prop :=
  step lib s a = some s'

end step

/-! ## Section 3: The start -/

/-- A queue after `SilogMpscQueueInit`, with what the allocator returned for the buffer. -/
def freshQueue (capacity : UInt32) (mem : UInt32 → Entry) : Mpsc.SiLogMpscQueue logEntrySize where
  buffer := mem
  capacity := capacity
  writePos := 0
  readPos := 0
  seq := fun i => i
  capacityMask := capacity - 1

theorem freshQueue_init (mem : UInt32 → Entry) :
    Mpsc.silogMpscQueueInit Logger.logEntryQueueCapacity (some mem) true =
      .ok (freshQueue Logger.logEntryQueueCapacity mem) ∧
    Mpsc.silogMpscQueueInit Shutdown.logQueueCapacity (some mem) true =
      .ok (freshQueue Shutdown.logQueueCapacity mem) := ⟨rfl, rfl⟩

/-- What the model does not determine of the start: the contents of memory that is not
    initialised, the minimum levels and the agents with their connections. -/
structure Start (κ : Type*) where
  appMem    : κ → UInt32 → Entry
  daemonMem : UInt32 → Entry
  entry     : Vector UInt8 logEntrySize
  minLevel  : κ → UInt32
  agents    : κ → SilogIpcAgent
  peers     : κ → ℤ → Option ℕ
  daemons   : Daemons
  agent     : SilogIpcAgent

/-- The processes have been initialised, and the daemon has created its threads. -/
def State.initial {κ ι : Type*} (b : Start κ) : State κ ι where
  apps := fun p =>
    { minLevel := b.minLevel p
      queue := Mpsc.initConfig (freshQueue Logger.logEntryQueueCapacity (b.appMem p))
      send := .body
      agent := b.agents p
      peer := b.peers p }
  daemons := b.daemons
  agent := b.agent
  mine := none
  socket := []
  entry := b.entry.toList
  held := none
  daemon := .initial (freshQueue Shutdown.logQueueCapacity b.daemonMem)
  lines := []
  injected := []

end SiLog.Pipeline
