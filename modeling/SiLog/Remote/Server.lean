import SiLog.Remote.Codec
import SiLog.Lib.Lts
import SiLog.Lib.Ledger
import Mathlib.Logic.Function.Basic

/-! # The remote log service (`silog_remote.c`, server side)

    The daemon keeps a table of client connections.  `Accept` puts a new
    connection into a free slot and `Broadcast` sends an entry to every active
    slot in turn.  The sockets are non-blocking: `send` takes as many bytes as
    fit and reports `EAGAIN` when none do.

    The calls are modelled one after the other; what the system calls return is
    part of the label of a call.  The kernel side is the set of open
    descriptors, the ledger of how they were opened and closed and, for each
    of them, the bytes sent on the connection behind it.
-/

namespace SiLog.Remote

/-! ## Section 1: Descriptors -/

/-- The descriptors of the process, what was sent on them and how they were
    opened and closed so far. -/
structure Sockets where
  opened : List ℤ
  sent   : ℤ → List UInt8
  log    : List (Ledger.Event ℤ)

/-- The kernel hands out `fd`, with a new connection behind it. -/
def Sockets.open (k : Sockets) (fd : ℤ) : Sockets :=
  { opened := fd :: k.opened
    sent := Function.update k.sent fd []
    log := k.log ++ [.acquired fd] }

/-- `close(fd)` -/
def Sockets.close (k : Sockets) (fd : ℤ) : Sockets :=
  { k with opened := k.opened.erase fd, log := k.log ++ [.released fd] }

/-- `bytes` are accepted on `fd`. -/
def Sockets.push (k : Sockets) (fd : ℤ) (bytes : List UInt8) : Sockets :=
  { k with sent := Function.update k.sent fd (k.sent fd ++ bytes) }

/-! ## Section 2: The manager -/

/-- `SilogRemoteClient`; the peer's address is only printed. -/
structure SilogRemoteClient where
  fd     : ℤ
  active : Bool
  deriving DecidableEq

/-- An empty slot. -/
def SilogRemoteClient.empty : SilogRemoteClient := { fd := -1, active := false }

/-- `SilogRemoteManager`.  `clients` is `none` when the pointer is NULL, and the
    entries below `maxClients` are the array otherwise. -/
structure SilogRemoteManager where
  isInit      : Bool
  listenFd    : ℤ
  listenPort  : UInt16
  maxClients  : UInt32
  clients     : Option (ℕ → SilogRemoteClient)
  clientCount : UInt32

/-- `SILOG_REMOTE_DEFAULT_PORT` -/
def defaultPort : UInt16 := 9090

/-- `SILOG_REMOTE_DEFAULT_MAX_CLIENTS` -/
def defaultMaxClients : UInt32 := 10

/-- The initial value of `g_silogRemoteMgr`. -/
def SilogRemoteManager.initial : SilogRemoteManager where
  isInit := false
  listenFd := -1
  listenPort := defaultPort
  maxClients := defaultMaxClients
  clients := none
  clientCount := 0

/-- The service, its descriptors and the entries broadcast so far (which no
    function reads). -/
structure Server where
  mgr     : SilogRemoteManager
  kernel  : Sockets
  history : List LogEntry

/-- The service before its first call. -/
def Server.initial : Server where
  mgr := .initial
  kernel := { opened := [], sent := fun _ => [], log := [] }
  history := []

/-- `clients[i]` -/
def SilogRemoteManager.client (m : SilogRemoteManager) (i : ℕ) : SilogRemoteClient :=
  match m.clients with
  | some cs => cs i
  | none => .empty

/-- `clients[i] = c` -/
def SilogRemoteManager.setClient (m : SilogRemoteManager) (i : ℕ) (c : SilogRemoteClient) :
    SilogRemoteManager :=
  { m with clients := m.clients.map fun cs => Function.update cs i c }

/-- `SilogRemoteFindFreeSlot`; `none` is a negative result: `-1`, or an index that
    does not fit into `int32_t`. -/
def silogRemoteFindFreeSlot (m : SilogRemoteManager) : Option ℕ :=
  ((List.range m.maxClients.toNat).find? fun i => !(m.client i).active).filter (· < 2 ^ 31)

/-- `SilogRemoteCloseClientInternal` -/
def silogRemoteCloseClientInternal (s : Server) (idx : ℕ) : Server :=
  if s.mgr.maxClients.toNat ≤ idx then s
  else
    let client := s.mgr.client idx
    -- close(fd) only for an active slot; the slot is reset in any case
    let kernel :=
      if client.active ∧ 0 ≤ client.fd then s.kernel.close client.fd else s.kernel
    let clientCount :=
      if client.active ∧ 0 < s.mgr.clientCount then s.mgr.clientCount - 1 else s.mgr.clientCount
    { s with mgr := { s.mgr.setClient idx .empty with clientCount := clientCount }
             kernel := kernel }

/-! ## Section 3: Starting and stopping -/

/-- `SilogRemoteConfig_t`; the authentication switch is not read. -/
structure SilogRemoteConfig where
  listenPort : UInt16
  maxClients : UInt32

/-- `SilogRemoteSetNonblock`: whether the two `fcntl` calls succeed. -/
def silogRemoteSetNonblock (getOk setOk : Bool) : ErrorCode :=
  if getOk = false then .netFileError
  else if setOk = false then .netFileError
  else .ok

/-- What the system calls of `SilogRemoteInit` return. -/
structure InitEnv where
  malloc : Bool
  socket : Option ℤ
  bind   : Bool
  listen : Bool
  getFl  : Bool
  setFl  : Bool

/-- `SilogRemoteInit` -/
def silogRemoteInit (s : Server) (config : Option SilogRemoteConfig) (env : InitEnv) :
    ErrorCode × Server :=
  if s.mgr.isInit then (.ok, s)
  else
    -- a zero in the configuration stands for the default
    let port := match config with
      | some c => if c.listenPort = 0 then defaultPort else c.listenPort
      | none => defaultPort
    let max := match config with
      | some c => if c.maxClients = 0 then defaultMaxClients else c.maxClients
      | none => defaultMaxClients
    let m := { s.mgr with listenPort := port, maxClients := max, clients := none }
    if env.malloc = false then (.outOfMemory, { s with mgr := m })
    else
      let m := { m with clientCount := 0 }
      match env.socket with
      | none => (.netFileCreate, { s with mgr := { m with listenFd := -1 } })
      | some fd =>
        let opened := s.kernel.open fd
        -- the four exits below close the socket and free the table
        let abort := { s with mgr := { m with listenFd := -1 }, kernel := opened.close fd }
        if env.bind = false then (.netFileOpen, abort)
        else if env.listen = false then (.netFileError, abort)
        else if silogRemoteSetNonblock env.getFl env.setFl ≠ .ok then
          (silogRemoteSetNonblock env.getFl env.setFl, abort)
        else (.ok, { s with
          mgr := { m with listenFd := fd, clients := some fun _ => .empty, isInit := true }
          kernel := opened })

/-- `SilogRemoteDeinit` -/
def silogRemoteDeinit (s : Server) : Server :=
  if s.mgr.isInit = false then s
  else
    let s := (List.range s.mgr.maxClients.toNat).foldl silogRemoteCloseClientInternal s
    let kernel := if 0 ≤ s.mgr.listenFd then s.kernel.close s.mgr.listenFd else s.kernel
    { s with
      mgr := { s.mgr with listenFd := -1, clients := none, clientCount := 0, isInit := false }
      kernel := kernel }

/-- What `accept` returns. -/
inductive AcceptResult where
  | connection (fd : ℤ)
  | wouldBlock
  | failed

/-- `SilogRemoteAccept` -/
def silogRemoteAccept (s : Server) (result : AcceptResult) (getFl setFl : Bool) :
    ErrorCode × Server :=
  if s.mgr.isInit = false then (.netFileError, s)
  else match result with
    | .wouldBlock => (.netTimeout, s)
    | .failed => (.netFileError, s)
    | .connection fd =>
      let opened := s.kernel.open fd
      -- the exits below close the connection that was just taken
      let reject := { s with kernel := opened.close fd }
      if s.mgr.maxClients ≤ s.mgr.clientCount then (.netFileError, reject)
      else match silogRemoteFindFreeSlot s.mgr with
        | none => (.netFileError, reject)
        | some slot =>
          if silogRemoteSetNonblock getFl setFl ≠ .ok then
            (silogRemoteSetNonblock getFl setFl, reject)
          else (.ok, { s with
            mgr := { s.mgr.setClient slot { fd := fd, active := true } with
                     clientCount := s.mgr.clientCount + 1 }
            kernel := opened })

/-! ## Section 4: Sending -/

/-- What one `send` returns.  `accepted k` takes `k + 1` bytes, or all that were
    asked if they are fewer. -/
inductive SendResult where
  | accepted (k : ℕ)
  | wouldBlock
  | zero
  | failed

/-- The loop of `SilogRemoteSendFull` over what is left of the buffer, with the
    bytes that were accepted.  Every round that continues takes a byte, so
    the length of the buffer is enough fuel. -/
def sendLoop : ℕ → (ℕ → SendResult) → List UInt8 → List UInt8 × ErrorCode
  | 0, _, _ => ([], .ok)
  | fuel + 1, results, buf =>
    if buf = [] then ([], .ok)
    else match results 0 with
      | .accepted k =>
        let rest := sendLoop fuel (fun j => results (j + 1)) (buf.drop (k + 1))
        (buf.take (k + 1) ++ rest.1, rest.2)
      | .wouldBlock => ([], .netTimeout)
      | .zero => ([], .netFileError)
      | .failed => ([], .netFileError)

/-- `SilogRemoteSendFull` with the results of its `send` calls. -/
def silogRemoteSendFull (results : ℕ → SendResult) (buf : List UInt8) :
    List UInt8 × ErrorCode :=
  sendLoop buf.length results buf

/-- One turn of the loop of `SilogRemoteBroadcast`, with the count of clients served. -/
def broadcastTo (buf : List UInt8) (sends : ℕ → ℕ → SendResult) (s : Server × ℕ) (i : ℕ) :
    Server × ℕ :=
  let client := s.1.mgr.client i
  if client.active = false ∨ client.fd < 0 then s
  else
    let r := silogRemoteSendFull (sends i) buf
    let s' := { s.1 with kernel := s.1.kernel.push client.fd r.1 }
    -- a would-block keeps the client, whatever part of the record was taken
    if r.2 = .ok then (s', s.2 + 1)
    else if r.2 = .netTimeout then (s', s.2)
    else (silogRemoteCloseClientInternal s' i, s.2)

/-- `SilogRemoteBroadcast`; `sends i` are the results of the `send` calls to slot `i`.
    The second component is what `*sentCount` is set to. -/
def silogRemoteBroadcast (s : Server) (entry : Option LogEntry) (sends : ℕ → ℕ → SendResult) :
    ErrorCode × ℕ × Server :=
  if s.mgr.isInit = false then (.transNotInit, 0, s)
  else match entry with
    | none => (.nullPtr, 0, s)
    | some e =>
      if s.mgr.clientCount = 0 then (.ok, 0, s)
      else match silogRemoteSerializeEntry e (some (List.replicate entrySize 0)) (some 0) with
        | (some buf, some bufLen) =>
          if bufLen = 0 then (.invalidArg, 0, s)
          else
            let r := (List.range s.mgr.maxClients.toNat).foldl
              (broadcastTo (buf.take bufLen) sends) (s, 0)
            (.ok, r.2, r.1)
        | _ => (.invalidArg, 0, s)

/-- `SilogRemoteGetClientCount` -/
def silogRemoteGetClientCount (s : Server) : UInt32 :=
  if s.mgr.isInit then s.mgr.clientCount else 0

/-! ## Section 5: Calls -/

/-- A call with what its system calls return. -/
inductive Call where
  | init (config : Option SilogRemoteConfig) (env : InitEnv)
  | accept (result : AcceptResult) (getFl setFl : Bool)
  | broadcast (entry : Option LogEntry) (sends : ℕ → ℕ → SendResult)
  | getClientCount
  | deinit

/-- The state after a call. -/
def Server.call (s : Server) : Call → Server
  | .init config env => (silogRemoteInit s config env).2
  | .accept result getFl setFl => (silogRemoteAccept s result getFl setFl).2
  | .broadcast entry sends =>
    { (silogRemoteBroadcast s entry sends).2.2 with history := s.history ++ entry.toList }
  | .getClientCount => s
  | .deinit => silogRemoteDeinit s

/-- The kernel hands out only descriptors that are not in use. -/
def FreshFd (s : Server) : Call → Prop
  | .init _ env => ∀ fd, env.socket = some fd → 0 ≤ fd ∧ fd ∉ s.kernel.opened
  | .accept result _ _ => ∀ fd, result = .connection fd → 0 ≤ fd ∧ fd ∉ s.kernel.opened
  | _ => True

instance (s : Server) : (c : Call) → Decidable (FreshFd s c)
  | .init _ env => inferInstanceAs (Decidable (∀ fd ∈ env.socket, 0 ≤ fd ∧ fd ∉ s.kernel.opened))
  | .accept (.connection fd) _ _ =>
    decidable_of_iff (0 ≤ fd ∧ fd ∉ s.kernel.opened)
      ⟨fun h _ hfd => AcceptResult.connection.inj hfd ▸ h, fun h => h fd rfl⟩
  | .accept .wouldBlock _ _ => isTrue fun _ hfd => nomatch hfd
  | .accept .failed _ _ => isTrue fun _ hfd => nomatch hfd
  | .broadcast _ _ => isTrue trivial
  | .getClientCount => isTrue trivial
  | .deinit => isTrue trivial

/-- One complete call. -/
def Step (s : Server) (c : Call) (s' : Server) : Prop := FreshFd s c ∧ s' = s.call c

end SiLog.Remote
