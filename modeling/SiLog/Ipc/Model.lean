import SiLog.Error
import Mathlib.Data.List.Basic
import Mathlib.Data.Int.Notation
import Mathlib.Logic.Function.Basic

/-! # Local communication (`silog_ipc.c`)

    The logging processes send their entries as datagrams to a Unix domain
    socket that the daemon binds at `LOGD_SOCKET_PATH`.  The module keeps one
    `SilogIpcAgent` per process, with a descriptor for each side.

    A client's descriptor is connected to one socket, not to the path.  When
    the daemon restarts it binds a new socket, and the descriptor still
    names the old one.
-/

namespace SiLog.Ipc

/-! ## Section 1: The agent -/

/-- `SilogIpcType_t` -/
inductive SilogIpcType where
  | unixDgram
  | unixStream
  deriving DecidableEq

/-- `SilogIpcAgent` -/
structure SilogIpcAgent where
  isInit : Bool
  sendFd : ℤ
  recvFd : ℤ
  deriving DecidableEq

/-- The initial value of `g_silogIpcAgent`. -/
def SilogIpcAgent.initial : SilogIpcAgent := { isInit := false, sendFd := 0, recvFd := 0 }

/-- `SilogIpcInit`; the stream type is not implemented. -/
def silogIpcInit (agent : SilogIpcAgent) (type : SilogIpcType) : SilogIpcAgent :=
  if agent.isInit then agent
  else match type with
    | .unixDgram => { isInit := true, sendFd := -1, recvFd := -1 }
    | .unixStream => agent

/-- `setNonblock`, with whether the two calls of `fcntl` succeed. -/
def setNonblock (getFl setFl : Bool) : ErrorCode :=
  if getFl = false then .netFileError
  else if setFl = false then .netFileError
  else .ok

/-! ## Section 2: The daemon's sockets -/

/-- The sockets of the daemons that are open, the one that the path names, and the
    number of the next one. -/
structure Daemons where
  live : List ℕ
  path : Option ℕ
  next : ℕ

/-- What a daemon does to its socket.  `SilogIpcDgramServerInit` does `unlink` and
    then `bind`, `SilogIpcDgramServerClose` does `close` and then `unlink`. -/
inductive DaemonEvent where
  | bind
  | close (k : ℕ)
  | unlink

def Daemons.event (d : Daemons) : DaemonEvent → Daemons
  -- a path that is in use cannot be bound
  | .bind =>
    if d.path.isSome then d
    else { live := d.next :: d.live, path := some d.next, next := d.next + 1 }
  | .close k => { d with live := d.live.filter (· ≠ k) }
  | .unlink => { d with path := none }

def Daemons.events (d : Daemons) (es : List DaemonEvent) : Daemons := es.foldl Daemons.event d

/-- Daemon socket `k` is bound. -/
def Daemons.BoundBy (d : Daemons) (k : ℕ) : Prop := d.path = some k ∧ k ∈ d.live

instance (d : Daemons) (k : ℕ) : Decidable (d.BoundBy k) := inferInstanceAs (Decidable (_ ∧ _))

theorem Daemons.events_append (d : Daemons) (es fs : List DaemonEvent) :
    d.events (es ++ fs) = (d.events es).events fs := List.foldl_append

/-! ## Section 3: The client -/

/-- A client process and the daemons.  `peer` is the daemon socket that a descriptor
    is connected to, and `delivered` the datagrams that arrived at a socket. -/
structure World where
  agent     : SilogIpcAgent
  peer      : ℤ → Option ℕ
  daemons   : Daemons
  delivered : List (ℕ × List UInt8)

/-- What the system calls of `SilogIpcDgramClientInit` return, and what the daemons do
    before the call of `connect`.  `connect` fails by itself when nothing is
    bound; `connectOk` tells that it does not fail otherwise. -/
structure InitEnv where
  gap       : List DaemonEvent
  socket    : Option ℕ
  getFl     : Bool
  setFl     : Bool
  connectOk : Bool

/-- `SilogIpcDgramClientInit`.  The path fits in `sun_path`. -/
def silogIpcDgramClientInit (w : World) (env : InitEnv) : ErrorCode × World :=
  let w := { w with daemons := w.daemons.events env.gap }
  match env.socket with
  | none => (.netFileCreate, w)
  | some fd =>
    let ret := setNonblock env.getFl env.setFl
    if ret ≠ .ok then (ret, w)
    else match w.daemons.path with
      | none => (.netConnect, w)
      | some k =>
        if k ∈ w.daemons.live ∧ env.connectOk then
          (.ok, { w with agent := { w.agent with sendFd := fd }
                         peer := Function.update w.peer fd (some k) })
        else (.netConnect, w)

/-- `SilogIpcDgramClientClose` -/
def silogIpcDgramClientClose (w : World) : World :=
  let fd := w.agent.sendFd
  { w with agent := { w.agent with sendFd := -1 }
           peer := if 0 ≤ fd then Function.update w.peer fd none else w.peer }

/-- What `send` returns; `refused` stands for `ECONNREFUSED` and `ENOENT`. -/
inductive SendResult where
  | sent
  | refused
  | failed

/-- `send`.  A closed peer refuses the datagram, and the descriptor is not connected
    any more.  `ok` tells that an open peer has room. -/
def World.send (w : World) (fd : ℤ) (data : List UInt8) (ok : Bool) : SendResult × World :=
  match w.peer fd with
  -- `ENOTCONN`
  | none => (.failed, w)
  | some k =>
    if k ∉ w.daemons.live then (.refused, { w with peer := Function.update w.peer fd none })
    else if ok then (.sent, { w with delivered := w.delivered ++ [(k, data)] })
    else (.failed, w)

/-- What the system calls of `SilogIpcDgramClientSend` return; `gap` is what the daemons
    do between the new `connect` and the second `send`. -/
structure SendEnv where
  sendOk   : Bool
  init     : InitEnv
  gap      : List DaemonEvent
  resendOk : Bool

/-- `SilogIpcDgramClientSend` -/
def silogIpcDgramClientSend (w : World) (data : List UInt8) (env : SendEnv) : ErrorCode × World :=
  let fd := w.agent.sendFd
  if fd < 0 then (.netFileError, w)
  else match w.send fd data env.sendOk with
    | (.sent, w) => (.ok, w)
    | (.failed, w) => (.netSend, w)
    -- perhaps the server has restarted: connect again
    | (.refused, w) =>
      match silogIpcDgramClientInit (silogIpcDgramClientClose w) env.init with
      | (.ok, w) =>
        let w := { w with daemons := w.daemons.events env.gap }
        match w.send w.agent.sendFd data env.resendOk with
        | (.sent, w) => (.ok, w)
        | (_, w) => (.netSend, w)
      | (_, w) => (.netSend, w)

/-- `SilogIpcClientInit` -/
def silogIpcClientInit (w : World) (env : InitEnv) : ErrorCode × World :=
  if w.agent.isInit = false then (.notImplemented, w) else silogIpcDgramClientInit w env

/-- `SilogIpcClientSend` -/
def silogIpcClientSend (w : World) (data : List UInt8) (env : SendEnv) : ErrorCode × World :=
  if w.agent.isInit = false then (.notImplemented, w) else silogIpcDgramClientSend w data env

/-! ## Section 4: The server -/

/-- What the system calls of `SilogIpcDgramServerInit` return. -/
structure ServerEnv where
  socket : Option ℕ
  getFl  : Bool
  setFl  : Bool
  bindOk : Bool

/-- `SilogIpcDgramServerInit`, as far as the agent is concerned. -/
def silogIpcDgramServerInit (agent : SilogIpcAgent) (env : ServerEnv) :
    ErrorCode × SilogIpcAgent :=
  match env.socket with
  | none => (.netFileCreate, agent)
  | some fd =>
    let ret := setNonblock env.getFl env.setFl
    if ret ≠ .ok then (ret, agent)
    else if env.bindOk = false then (.netFileOpen, agent)
    else (.ok, { agent with recvFd := fd })

/-- `SilogIpcServerInit` -/
def silogIpcServerInit (agent : SilogIpcAgent) (env : ServerEnv) : ErrorCode × SilogIpcAgent :=
  if agent.isInit = false then (.notImplemented, agent) else silogIpcDgramServerInit agent env

/-- What `recv` finds at the socket; `failed` stands for `EAGAIN` too. -/
inductive RecvResult where
  | datagram (d : List UInt8)
  | failed

/-- `SilogIpcDgramServerRecv` into a buffer of `buf.length` bytes: the number it returns
    and the buffer.  A longer datagram is cut off, a shorter one leaves the
    rest of the buffer as it is. -/
def silogIpcDgramServerRecv (agent : SilogIpcAgent) (buf : List UInt8) (r : RecvResult) :
    ℤ × List UInt8 :=
  if agent.recvFd < 0 then (0, buf)
  else match r with
    | .failed => (-1, buf)
    | .datagram d =>
      let d := d.take buf.length
      (d.length, d ++ buf.drop d.length)

/-- `SilogIpcServerRecv`; error codes are returned through the same `int32_t`. -/
def silogIpcServerRecv (agent : SilogIpcAgent) (buf : List UInt8) (r : RecvResult) :
    ℤ × List UInt8 :=
  if agent.isInit = false then (ErrorCode.notImplemented.toInt, buf)
  else silogIpcDgramServerRecv agent buf r

/-- `SilogIpcServerClose`, as far as the agent is concerned. -/
def silogIpcServerClose (agent : SilogIpcAgent) : SilogIpcAgent :=
  if agent.isInit = false then agent
  else { agent with recvFd := -1, isInit := false }

end SiLog.Ipc
