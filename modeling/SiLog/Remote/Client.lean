import SiLog.Remote.Codec
import SiLog.Lib.Blocks
import SiLog.Lib.Lts

/-! # The remote log client (`silog_remote.c`, client side)

    The client reads records of `entrySize` bytes from a TCP stream.  A
    `recv` returns some of the bytes asked for, so a record may arrive in any
    number of pieces, with timeouts in between; `recvBuf` and `recvOffset`
    keep the piece that is there.  The connection may break at any point and
    be opened again.

    This file proves that the pieces do not matter: on each connection the
    callback gets the records that the bytes of that connection spell out,
    cut into consecutive blocks.
-/

open Lts Blocks

namespace SiLog.Remote

/-! ## Section 1: The client -/

/-- `SilogRemoteClientConfig` -/
structure SilogRemoteClientConfig where
  serverAddr   : String
  serverPort   : UInt16
  useReconnect : Bool
  reconnectMs  : UInt32

/-- `SilogRemoteClientCtx` -/
structure SilogRemoteClientCtx where
  isInit      : Bool
  isConnected : Bool
  socketFd    : ℤ
  config      : SilogRemoteClientConfig
  recvBuf     : List UInt8
  recvOffset  : ℕ

/-- `SILOG_REMOTE_DEFAULT_SERVER_ADDR` -/
def defaultServerAddr : String := "127.0.0.1"

/-- `SILOG_REMOTE_DEFAULT_PORT` -/
def defaultServerPort : UInt16 := 9090

/-- `SILOG_REMOTE_DEFAULT_RECONNECT_MS` -/
def defaultReconnectMs : UInt32 := 5000

/-- The initial value of `g_silogRemoteClient`. -/
def SilogRemoteClientCtx.initial : SilogRemoteClientCtx where
  isInit := false
  isConnected := false
  socketFd := -1
  config := { serverAddr := "", serverPort := 0, useReconnect := false, reconnectMs := 0 }
  recvBuf := List.replicate entrySize 0
  recvOffset := 0

/-- `SilogRemoteClientInit` -/
def silogRemoteClientInit (ctx : SilogRemoteClientCtx) (config : Option SilogRemoteClientConfig) :
    ErrorCode × SilogRemoteClientCtx :=
  if ctx.isInit then (.ok, ctx)
  else
    let config := match config with
      | some c =>
        { c with
          serverAddr := if c.serverAddr = "" then defaultServerAddr else c.serverAddr
          serverPort := if c.serverPort = 0 then defaultServerPort else c.serverPort
          reconnectMs := if c.reconnectMs = 0 then defaultReconnectMs else c.reconnectMs }
      | none =>
        { serverAddr := defaultServerAddr, serverPort := defaultServerPort, useReconnect := true,
          reconnectMs := defaultReconnectMs }
    (.ok, { ctx with config := config, socketFd := -1, isConnected := false, recvOffset := 0,
                     isInit := true })

/-- `SilogRemoteClientDisconnect` -/
def silogRemoteClientDisconnect (ctx : SilogRemoteClientCtx) : SilogRemoteClientCtx :=
  if ctx.isInit = false then ctx
  else
    { ctx with socketFd := if 0 ≤ ctx.socketFd then -1 else ctx.socketFd
               isConnected := false
               recvOffset := 0 }

/-- `SilogRemoteClientDeinit` -/
def silogRemoteClientDeinit (ctx : SilogRemoteClientCtx) : SilogRemoteClientCtx :=
  if ctx.isInit = false then ctx
  else { silogRemoteClientDisconnect ctx with isInit := false, recvOffset := 0 }

/-- What the system calls of `SilogRemoteClientConnect` return; the result of making
    the socket non-blocking is ignored. -/
structure ConnectEnv where
  socket    : Option ℤ
  addrOk    : Bool
  connectOk : Bool

/-- `SilogRemoteClientConnect` -/
def silogRemoteClientConnect (ctx : SilogRemoteClientCtx) (env : ConnectEnv) :
    ErrorCode × SilogRemoteClientCtx :=
  if ctx.isInit = false then (.transNotInit, ctx)
  else if ctx.isConnected then (.ok, ctx)
  else match env.socket with
    | none => (.netFileCreate, { ctx with socketFd := -1 })
    | some fd =>
      if env.addrOk = false then (.invalidArg, { ctx with socketFd := -1 })
      else if env.connectOk = false then (.netConnect, { ctx with socketFd := -1 })
      else (.ok, { ctx with socketFd := fd, isConnected := true, recvOffset := 0 })

/-! ## Section 2: Receiving -/

/-- What `recv` returns. -/
inductive RecvResult where
  | data (bytes : List UInt8)
  | wouldBlock
  | failed
  | closed

/-- What `select` returns, and `recv` after it. -/
inductive SelectResult where
  | ready (r : RecvResult)
  | timeout
  | interrupted
  | failed

/-- `memset_s` of an entry to zero. -/
def zeroEntry : LogEntry where
  ts := 0
  pid := 0
  tid := 0
  level := 0
  tag := Vector.replicate tagMaxLen 0
  file := Vector.replicate fileMaxLen 0
  line := 0
  msg := Vector.replicate msgMaxLen 0
  msgLen := 0
  enabled := 0

/-- The bytes that `recv` writes at an offset of the buffer. -/
def writeAt (buf : List UInt8) (offset : ℕ) (bytes : List UInt8) : List UInt8 :=
  buf.take offset ++ bytes ++ buf.drop (offset + bytes.length)

/-- `memmove_s` of what is behind the first record to the front of the buffer. -/
def moveRemaining (buf : List UInt8) (remaining : ℕ) : List UInt8 :=
  if remaining ≤ buf.length then (buf.drop entrySize).take remaining ++ buf.drop remaining
  else buf

/-- The loop over the complete records, with the entries that go to the callback.
    Every turn takes `entrySize` bytes off the offset, so the offset is enough
    fuel. -/
def recordLoop : ℕ → List UInt8 → ℕ → List LogEntry × List UInt8 × ℕ
  | 0, buf, offset => ([], buf, offset)
  | fuel + 1, buf, offset =>
    if offset < entrySize then ([], buf, offset)
    else
      let entries := match silogRemoteDeserializeEntry (some buf) (some zeroEntry) with
        | (.ok, some entry) => [entry]
        | _ => []
      let remaining := offset - entrySize
      let buf := if 0 < remaining then moveRemaining buf remaining else buf
      let rest := recordLoop fuel buf remaining
      (entries ++ rest.1, rest.2)

/-- What a call of `SilogRemoteClientReceive` does: the code it returns, the offset
    and the size it gives to `recv`, the bytes it gets and the entries it passes
    to the callback. -/
structure Receipt where
  code    : ErrorCode
  request : Option (ℕ × ℕ)
  bytes   : List UInt8
  entries : List LogEntry
  ctx     : SilogRemoteClientCtx

/-- A call that gets no bytes. -/
def Receipt.empty (code : ErrorCode) (request : Option (ℕ × ℕ)) (ctx : SilogRemoteClientCtx) :
    Receipt :=
  { code := code, request := request, bytes := [], entries := [], ctx := ctx }

/-- The number of bytes asked for, in `size_t` arithmetic. -/
def SilogRemoteClientCtx.needed (ctx : SilogRemoteClientCtx) : ℕ :=
  (2 ^ 64 + entrySize - ctx.recvOffset) % 2 ^ 64

/-- `SilogRemoteClientReceive`; `callback` tells whether the pointer is not NULL. -/
def silogRemoteClientReceive (ctx : SilogRemoteClientCtx) (callback : Bool)
    (select : SelectResult) : Receipt :=
  if ctx.isInit = false then .empty .transNotInit none ctx
  else if ctx.isConnected = false then .empty .netClosed none ctx
  else if callback = false then .empty .nullPtr none ctx
  else match select with
    | .interrupted => .empty .netTimeout none ctx
    | .failed => .empty .netFileError none (silogRemoteClientDisconnect ctx)
    | .timeout => .empty .netTimeout none ctx
    | .ready r =>
      let request := some (ctx.recvOffset, ctx.needed)
      match r with
      | .wouldBlock => .empty .netTimeout request ctx
      -- an interrupted `recv` ends here too
      | .failed => .empty .netRecv request (silogRemoteClientDisconnect ctx)
      | .closed => .empty .netClosed request (silogRemoteClientDisconnect ctx)
      | .data bytes =>
        let buf := writeAt ctx.recvBuf ctx.recvOffset bytes
        let offset := ctx.recvOffset + bytes.length
        let r := recordLoop offset buf offset
        { code := .ok, request := request, bytes := bytes, entries := r.1,
          ctx := { ctx with recvBuf := r.2.1, recvOffset := r.2.2 } }

/-! ## Section 3: Runs -/

/-- What arrived on a connection and what the callback got from it. -/
structure Stream where
  received  : List UInt8
  delivered : List LogEntry

/-- The client with its connections, the latest first, and the requests it made to
    `recv` (which no function reads). -/
structure Client where
  ctx      : SilogRemoteClientCtx
  streams  : List Stream
  requests : List (ℕ × ℕ)

def Client.initial : Client := { ctx := .initial, streams := [], requests := [] }

/-- A call with what its system calls return. -/
inductive ClientCall where
  | init (config : Option SilogRemoteClientConfig)
  | connect (env : ConnectEnv)
  | disconnect
  | receive (callback : Bool) (select : SelectResult)
  | deinit

/-- What a call of `Receive` adds to the current connection. -/
def Stream.add (st : Stream) (r : Receipt) : Stream :=
  { received := st.received ++ r.bytes, delivered := st.delivered ++ r.entries }

/-- The state after a call. -/
def Client.call (c : Client) : ClientCall → Client
  | .init config => { c with ctx := (silogRemoteClientInit c.ctx config).2 }
  | .connect env =>
    let ctx := (silogRemoteClientConnect c.ctx env).2
    -- a new connection
    if c.ctx.isConnected = false ∧ ctx.isConnected then
      { c with ctx := ctx, streams := { received := [], delivered := [] } :: c.streams }
    else { c with ctx := ctx }
  | .disconnect => { c with ctx := silogRemoteClientDisconnect c.ctx }
  | .receive callback select =>
    let r := silogRemoteClientReceive c.ctx callback select
    { ctx := r.ctx
      streams := c.streams.modifyHead fun st => st.add r
      requests := r.request.toList ++ c.requests }
  | .deinit => { c with ctx := silogRemoteClientDeinit c.ctx }

/-- `recv` returns at least one byte and at most the bytes asked for. -/
def RecvOk (c : Client) : ClientCall → Prop
  | .receive _ (.ready (.data bytes)) => 0 < bytes.length ∧ bytes.length ≤ c.ctx.needed
  | _ => True

instance (c : Client) : (a : ClientCall) → Decidable (RecvOk c a)
  | .receive _ (.ready (.data bytes)) =>
    inferInstanceAs (Decidable (0 < bytes.length ∧ bytes.length ≤ c.ctx.needed))
  | .receive _ (.ready .wouldBlock) => isTrue trivial
  | .receive _ (.ready .failed) => isTrue trivial
  | .receive _ (.ready .closed) => isTrue trivial
  | .receive _ .timeout => isTrue trivial
  | .receive _ .interrupted => isTrue trivial
  | .receive _ .failed => isTrue trivial
  | .init _ => isTrue trivial
  | .connect _ => isTrue trivial
  | .disconnect => isTrue trivial
  | .deinit => isTrue trivial

/-- One complete call. -/
def ClientStep (c : Client) (a : ClientCall) (c' : Client) : Prop := RecvOk c a ∧ c' = c.call a

/-! ## Section 4: The buffer holds what is left over -/

/-- The callback got the entries of the consecutive full blocks. -/
def Stream.Exact (st : Stream) : Prop :=
  (st.delivered.map fun e => (ErrorCode.ok, some e)) =
    (blocks entrySize st.received).map fun b =>
      silogRemoteDeserializeEntry (some b) (some zeroEntry)

/-- The invariant. -/
structure ClientInv (c : Client) : Prop where
  size     : c.ctx.recvBuf.length = entrySize
  offset   : c.ctx.recvOffset < entrySize
  exact    : ∀ st ∈ c.streams, st.Exact
  requests : ∀ r ∈ c.requests, 0 < r.2 ∧ r.1 + r.2 ≤ entrySize
  current  : c.ctx.isConnected → ∃ st past, c.streams = st :: past ∧
    c.ctx.recvBuf.take c.ctx.recvOffset = leftover entrySize st.received

section steps
variable {c : Client}

theorem entrySize_pos : 0 < entrySize := by decide

theorem ClientInv.needed (hC : ClientInv c) : c.ctx.needed = entrySize - c.ctx.recvOffset := by
  have hlt := hC.offset
  unfold SilogRemoteClientCtx.needed
  -- the difference is not negative, so nothing wraps around
  rw [Nat.add_sub_assoc hlt.le, Nat.add_mod_left]
  exact Nat.mod_eq_of_lt ((Nat.sub_le _ _).trans_lt (by decide))

theorem length_writeAt {buf bytes : List UInt8} {offset : ℕ}
    (hle : offset + bytes.length ≤ buf.length) : (writeAt buf offset bytes).length = buf.length := by
  simp only [writeAt, List.length_append, List.length_take, List.length_drop]
  omega

theorem take_writeAt {buf bytes : List UInt8} {offset : ℕ}
    (hle : offset + bytes.length ≤ buf.length) :
    (writeAt buf offset bytes).take (offset + bytes.length) = buf.take offset ++ bytes := by
  have hlen : (buf.take offset ++ bytes).length = offset + bytes.length := by
    rw [List.length_append, List.length_take]
    omega
  rw [writeAt, ← hlen, List.take_left]

/-- A record that is not complete yet. -/
theorem recordLoop_lt {fuel offset : ℕ} {buf : List UInt8} (hlt : offset < entrySize) :
    recordLoop fuel buf offset = ([], buf, offset) := by
  cases fuel with
  | zero => rfl
  | succ fuel => rw [recordLoop, if_pos hlt]

/-- A record that is just complete. -/
theorem recordLoop_eq {buf : List UInt8} (hlen : buf.length = entrySize) :
    recordLoop (376 + 1) buf entrySize = ([decodeEntry buf], buf, 0) := by
  have hdes : silogRemoteDeserializeEntry (some buf) (some zeroEntry) =
      (.ok, some (decodeEntry buf)) := by
    rw [silogRemoteDeserializeEntry, if_neg (by omega)]
  rw [recordLoop, if_neg (lt_irrefl _), hdes, Nat.sub_self]
  simp only [lt_irrefl, if_false, recordLoop_lt entrySize_pos, List.append_nil]

/-- What the loop does with at most one record. -/
theorem recordLoop_of_le {buf : List UInt8} {offset : ℕ} (hlen : buf.length = entrySize)
    (hle : offset ≤ entrySize) :
    recordLoop offset buf offset =
      if offset < entrySize then ([], buf, offset) else ([decodeEntry buf], buf, 0) := by
  rcases hle.lt_or_eq with hlt | rfl
  · rw [recordLoop_lt hlt, if_pos hlt]
  · rw [if_neg (lt_irrefl _)]
    exact recordLoop_eq hlen

/-- Bytes that do not complete a record. -/
theorem Stream.Exact.fragment {st : Stream} {d : List UInt8} (h : st.Exact)
    (hlt : (leftover entrySize st.received).length + d.length < entrySize) :
    Stream.Exact { received := st.received ++ d, delivered := st.delivered ++ [] } := by
  unfold Stream.Exact at h ⊢
  rw [(blocks_append_lt hlt).1, List.append_nil]
  exact h

/-- Bytes that complete a record. -/
theorem Stream.Exact.complete {st : Stream} {d : List UInt8} (h : st.Exact)
    (heq : (leftover entrySize st.received).length + d.length = entrySize) :
    Stream.Exact { received := st.received ++ d
                   delivered := st.delivered ++ [decodeEntry (leftover entrySize st.received ++ d)] } := by
  unfold Stream.Exact at h ⊢
  have hdes : silogRemoteDeserializeEntry (some (leftover entrySize st.received ++ d))
      (some zeroEntry) = (.ok, some (decodeEntry (leftover entrySize st.received ++ d))) := by
    rw [silogRemoteDeserializeEntry, if_neg (by rw [List.length_append]; omega)]
  rw [(blocks_append_eq entrySize_pos heq).1, List.map_append, List.map_append, h,
    List.map_singleton, List.map_singleton, hdes]

/-- A call that gets no bytes and keeps the connection, or drops it. -/
theorem ClientInv.receive_empty (hC : ClientInv c) {code : ErrorCode} {request : Option (ℕ × ℕ)}
    {ctx : SilogRemoteClientCtx} (hreq : ∀ r ∈ request, 0 < r.2 ∧ r.1 + r.2 ≤ entrySize)
    (hctx : ctx = c.ctx ∨ ctx = silogRemoteClientDisconnect c.ctx) :
    ClientInv { ctx := ctx
                streams := c.streams.modifyHead fun st => st.add (.empty code request ctx)
                requests := request.toList ++ c.requests } := by
  have hsame : (c.streams.modifyHead fun st => st.add (.empty code request ctx)) = c.streams := by
    cases c.streams with
    | nil => rfl
    | cons st past => simp [List.modifyHead, Stream.add, Receipt.empty]
  have hreqs : ∀ r ∈ request.toList ++ c.requests, 0 < r.2 ∧ r.1 + r.2 ≤ entrySize := by
    intro r hr
    rcases List.mem_append.mp hr with hr | hr
    · exact hreq r (Option.mem_toList.mp hr)
    · exact hC.requests r hr
  rw [hsame]
  rcases hctx with rfl | rfl
  · exact ⟨hC.size, hC.offset, hC.exact, hreqs, hC.current⟩
  · unfold silogRemoteClientDisconnect
    split
    · exact ⟨hC.size, hC.offset, hC.exact, hreqs, hC.current⟩
    · exact ⟨hC.size, entrySize_pos, hC.exact, hreqs, fun h => nomatch h⟩

/-- A call that gets bytes. -/
theorem ClientInv.receive_data (hC : ClientInv c) {bytes : List UInt8} (hinit : c.ctx.isInit)
    (hconn : c.ctx.isConnected) (hle : bytes.length ≤ c.ctx.needed) :
    ClientInv (c.call (.receive true (.ready (.data bytes)))) := by
  obtain ⟨st, past, hst, hheld⟩ := hC.current hconn
  have hoff : (leftover entrySize st.received).length = c.ctx.recvOffset := by
    rw [← hheld, List.length_take, hC.size]
    exact Nat.min_eq_left hC.offset.le
  have hneed := hC.needed
  have hlt := hC.offset
  have hfit : c.ctx.recvOffset + bytes.length ≤ entrySize := by omega
  have hfit' : c.ctx.recvOffset + bytes.length ≤ c.ctx.recvBuf.length := by
    rw [hC.size]
    exact hfit
  have hlen : (writeAt c.ctx.recvBuf c.ctx.recvOffset bytes).length = entrySize := by
    rw [length_writeAt hfit', hC.size]
  have htake := take_writeAt hfit'
  rw [hheld] at htake
  have hreqs : ∀ r ∈ (c.ctx.recvOffset, c.ctx.needed) :: c.requests,
      0 < r.2 ∧ r.1 + r.2 ≤ entrySize := by
    rintro r (_ | ⟨_, hr⟩)
    · exact ⟨by omega, by omega⟩
    · exact hC.requests r hr
  simp only [Client.call, silogRemoteClientReceive, hinit, hconn, Bool.true_eq_false, if_false,
    recordLoop_of_le hlen hfit, hst, List.modifyHead_cons, Stream.add, Option.toList_some,
    List.singleton_append]
  rcases hfit.lt_or_eq with hlt' | heq
  · -- the record is still incomplete
    rw [if_pos hlt']
    have hlt'' : (leftover entrySize st.received).length + bytes.length < entrySize := by
      rw [hoff]
      exact hlt'
    refine ⟨hlen, hlt', ?_, hreqs, fun _ => ⟨_, past, rfl, ?_⟩⟩
    · rintro st' (_ | ⟨_, hmem⟩)
      · exact (hC.exact st (by rw [hst]; exact List.mem_cons_self)).fragment hlt''
      · exact hC.exact st' (by rw [hst]; exact List.mem_cons_of_mem st hmem)
    · rw [(blocks_append_lt hlt'').2]
      exact htake
  · -- the record is complete, and the buffer is empty again
    rw [if_neg (by omega)]
    have heq' : (leftover entrySize st.received).length + bytes.length = entrySize := by
      rw [hoff]
      exact heq
    have hbuf : writeAt c.ctx.recvBuf c.ctx.recvOffset bytes =
        leftover entrySize st.received ++ bytes := by
      rw [← htake, List.take_of_length_le (by omega)]
    refine ⟨hlen, entrySize_pos, ?_, hreqs, fun _ => ⟨_, past, rfl, ?_⟩⟩
    · rintro st' (_ | ⟨_, hmem⟩)
      · rw [hbuf]
        exact (hC.exact st (by rw [hst]; exact List.mem_cons_self)).complete heq'
      · exact hC.exact st' (by rw [hst]; exact List.mem_cons_of_mem st hmem)
    · rw [(blocks_append_eq entrySize_pos heq').2, List.take_zero]

/-- A call of `Receive` gets bytes, or it does nothing but drop the connection. -/
theorem receive_cases (ctx : SilogRemoteClientCtx) (callback : Bool) (select : SelectResult) :
    (ctx.isInit ∧ ctx.isConnected ∧ callback ∧ ∃ bytes, select = .ready (.data bytes)) ∨
    ∃ code request ctx', silogRemoteClientReceive ctx callback select = .empty code request ctx' ∧
      (request = none ∨ request = some (ctx.recvOffset, ctx.needed)) ∧
      (ctx' = ctx ∨ ctx' = silogRemoteClientDisconnect ctx) := by
  unfold silogRemoteClientReceive
  split_ifs with hinit hconn hcall
  · exact Or.inr ⟨_, _, _, rfl, Or.inl rfl, Or.inl rfl⟩
  · exact Or.inr ⟨_, _, _, rfl, Or.inl rfl, Or.inl rfl⟩
  · exact Or.inr ⟨_, _, _, rfl, Or.inl rfl, Or.inl rfl⟩
  · cases select with
    | interrupted => exact Or.inr ⟨_, _, _, rfl, Or.inl rfl, Or.inl rfl⟩
    | failed => exact Or.inr ⟨_, _, _, rfl, Or.inl rfl, Or.inr rfl⟩
    | timeout => exact Or.inr ⟨_, _, _, rfl, Or.inl rfl, Or.inl rfl⟩
    | ready r =>
      cases r with
      | wouldBlock => exact Or.inr ⟨_, _, _, rfl, Or.inr rfl, Or.inl rfl⟩
      | failed => exact Or.inr ⟨_, _, _, rfl, Or.inr rfl, Or.inr rfl⟩
      | closed => exact Or.inr ⟨_, _, _, rfl, Or.inr rfl, Or.inr rfl⟩
      | data bytes =>
        exact Or.inl ⟨Bool.not_eq_false _ ▸ hinit, Bool.not_eq_false _ ▸ hconn,
          Bool.not_eq_false _ ▸ hcall, bytes, rfl⟩

/-- A call of `Receive`. -/
theorem ClientInv.receive (hC : ClientInv c) {callback : Bool} {select : SelectResult}
    (hok : RecvOk c (.receive callback select)) :
    ClientInv (c.call (.receive callback select)) := by
  rcases receive_cases c.ctx callback select with
    ⟨hinit, hconn, rfl, bytes, rfl⟩ | ⟨code, request, ctx', heq, hreq, hctx⟩
  · exact hC.receive_data hinit hconn hok.2
  · simp only [Client.call, heq]
    refine hC.receive_empty ?_ hctx
    rcases hreq with rfl | rfl
    · exact nofun
    · intro r hr
      cases hr
      have hneed := hC.needed
      have hlt := hC.offset
      exact ⟨by omega, by omega⟩

/-- The calls that only change the connection: the buffer stays as it is, and
    the offset too or it goes to zero. -/
theorem ClientInv.reset (hC : ClientInv c) {ctx : SilogRemoteClientCtx}
    (hbuf : ctx.recvBuf = c.ctx.recvBuf) (hoff : ctx.recvOffset < entrySize)
    (hdown : ctx.isConnected = false) : ClientInv { c with ctx := ctx } := by
  refine ⟨?_, hoff, hC.exact, hC.requests, fun h => ?_⟩
  · rw [← hC.size, hbuf]
  · rw [hdown] at h
    cases h

theorem ClientInv.init (hC : ClientInv c) (config : Option SilogRemoteClientConfig) :
    ClientInv (c.call (.init config)) := by
  simp only [Client.call, silogRemoteClientInit]
  split
  · exact hC
  · exact hC.reset rfl entrySize_pos rfl

theorem ClientInv.disconnect (hC : ClientInv c) : ClientInv (c.call .disconnect) := by
  simp only [Client.call, silogRemoteClientDisconnect]
  split
  · exact hC
  · exact hC.reset rfl entrySize_pos rfl

theorem ClientInv.deinit (hC : ClientInv c) : ClientInv (c.call .deinit) := by
  simp only [Client.call, silogRemoteClientDeinit, silogRemoteClientDisconnect]
  split
  · exact hC
  · exact hC.reset rfl entrySize_pos rfl

/-- What `Connect` does to the context. -/
theorem connect_cases (ctx : SilogRemoteClientCtx) (env : ConnectEnv) :
    (silogRemoteClientConnect ctx env).2 = ctx ∨
    ctx.isConnected = false ∧ ((silogRemoteClientConnect ctx env).2 = { ctx with socketFd := -1 } ∨
      ∃ fd, (silogRemoteClientConnect ctx env).2 =
        { ctx with socketFd := fd, isConnected := true, recvOffset := 0 }) := by
  unfold silogRemoteClientConnect
  split
  · exact Or.inl rfl
  split
  · exact Or.inl rfl
  next hconn =>
    refine Or.inr ⟨Bool.not_eq_true _ ▸ hconn, ?_⟩
    split
    · exact Or.inl rfl
    next fd _ =>
      split_ifs with haddr hconnect
      · exact Or.inl rfl
      · exact Or.inl rfl
      · exact Or.inr ⟨fd, rfl⟩

/-- A connection starts with an empty stream and an empty buffer. -/
theorem ClientInv.connect (hC : ClientInv c) (env : ConnectEnv) :
    ClientInv (c.call (.connect env)) := by
  rcases connect_cases c.ctx env with heq | ⟨hdown, heq | ⟨fd, heq⟩⟩
  · have hold : ¬ (c.ctx.isConnected = false ∧ c.ctx.isConnected) := by simp
    simp only [Client.call, heq, if_neg hold]
    exact hC
  · simp only [Client.call, heq, hdown, Bool.false_eq_true, and_false, if_false]
    exact hC.reset rfl hC.offset rfl
  · simp only [Client.call, heq, hdown, and_self, if_true]
    refine ⟨hC.size, entrySize_pos, ?_, hC.requests, fun _ => ⟨_, c.streams, rfl, ?_⟩⟩
    · rintro st (_ | ⟨_, hmem⟩)
      · simp only [Stream.Exact, blocks_nil, List.map_nil]
      · exact hC.exact st hmem
    · rw [leftover_nil, List.take_zero]

end steps

/-- A call keeps the invariant. -/
theorem ClientInv.step {c c' : Client} {a : ClientCall} (h : ClientStep c a c')
    (hC : ClientInv c) : ClientInv c' := by
  obtain ⟨hok, rfl⟩ := h
  cases a with
  | init config => exact hC.init config
  | connect env => exact hC.connect env
  | disconnect => exact hC.disconnect
  | receive callback select => exact hC.receive hok
  | deinit => exact hC.deinit

theorem clientInv_initial : ClientInv .initial :=
  ⟨List.length_replicate, entrySize_pos, nofun, nofun, fun h => nomatch h⟩

/-! ## Section 5: Reassembly -/

/-- What the client has done with the bytes that arrived: per connection, the
    entries of the full blocks went to the callback, in order and nothing
    else; the buffer holds what is left over from the current connection; and
    no `recv` was asked for nothing or for bytes behind the buffer. -/
structure Reassembles (c : Client) : Prop where
  exact    : ∀ st ∈ c.streams, st.Exact
  held     : c.ctx.isConnected → ∃ st past, c.streams = st :: past ∧
    c.ctx.recvBuf.take c.ctx.recvOffset = leftover entrySize st.received
  offset   : c.ctx.recvOffset < entrySize
  requests : ∀ r ∈ c.requests, 0 < r.2 ∧ r.1 + r.2 ≤ c.ctx.recvBuf.length

/-- **Reassembly.** However the bytes of each connection are split over the
    results of `recv`, with timeouts, errors and new connections in between,
    the callback gets the entries that the blocks of each connection decode
    to. -/
theorem receive_reassembles {as : List ClientCall} {c : Client}
    (h : Steps ClientStep .initial as c) : Reassembles c := by
  have hC : ClientInv c := h.invariant (fun _ _ _ hstep => ClientInv.step hstep) clientInv_initial
  refine ⟨hC.exact, hC.current, hC.offset, ?_⟩
  rw [hC.size]
  exact hC.requests

/-- The calls of a client that gets a record in two pieces and, on its second
    connection, part of another one. -/
def fragmentedCalls : List ClientCall :=
  let up : ConnectEnv := { socket := some 3, addrOk := true, connectOk := true }
  [.init none, .connect up, .receive true (.ready (.data (List.replicate 100 65))),
   .receive true .interrupted, .receive true (.ready (.data (List.replicate 277 66))),
   .receive true (.ready (.data [67])), .receive true (.ready .closed), .connect up,
   .receive true (.ready (.data [68, 69]))]

theorem receive_reassembles_fragmented :
    Steps ClientStep .initial fragmentedCalls (fragmentedCalls.foldl Client.call .initial) ∧
    ((fragmentedCalls.foldl Client.call .initial).streams.map fun st =>
      (st.received.length, st.delivered.length)) = [(2, 0), (378, 1)] ∧
    Reassembles (fragmentedCalls.foldl Client.call .initial) := by
  have hrun : Steps ClientStep .initial fragmentedCalls
      (fragmentedCalls.foldl Client.call .initial) := by
    refine .cons _ _ ⟨trivial, rfl⟩ (.cons _ _ ⟨trivial, rfl⟩ (.cons _ _ ⟨?_, rfl⟩
      (.cons _ _ ⟨trivial, rfl⟩ (.cons _ _ ⟨?_, rfl⟩ (.cons _ _ ⟨?_, rfl⟩
        (.cons _ _ ⟨trivial, rfl⟩ (.cons _ _ ⟨trivial, rfl⟩ (.cons _ _ ⟨?_, rfl⟩ (.nil _)))))))))
    all_goals exact ⟨by decide +kernel, by decide +kernel⟩
  exact ⟨hrun, by decide +kernel, receive_reassembles hrun⟩

end SiLog.Remote
