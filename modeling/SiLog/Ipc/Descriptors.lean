import SiLog.Ipc.Model
import SiLog.Lib.Ledger
import SiLog.Lib.Lts

/-! # The descriptors of the local communication

    `SilogIpcDgramClientInit` and `SilogIpcDgramServerInit` each open a socket, close
    it again when something fails, and else store it over whatever the field
    held.  The close functions exchange the field with `-1` and close what they
    find, but they are ignored while `isInit` is clear, and `SilogIpcServerClose`
    clears it for both sides.

    The calls are modelled one after the other, with the table of the sockets
    that the module has opened.
-/

open Lts Ledger

namespace SiLog.Ipc.Descriptors

/-! ## Section 1: The two sides -/

/-- The client's descriptor and the server's. -/
inductive Side where
  | client
  | server
  deriving DecidableEq

def Side.other : Side → Side
  | .client => .server
  | .server => .client

/-- `sendFd` or `recvFd` -/
def fd (agent : SilogIpcAgent) : Side → ℤ
  | .client => agent.sendFd
  | .server => agent.recvFd

/-- `atomic_store` to `sendFd` or `recvFd` -/
def setFd (agent : SilogIpcAgent) : Side → ℤ → SilogIpcAgent
  | .client, v => { agent with sendFd := v }
  | .server, v => { agent with recvFd := v }

/-- The agent and the sockets that the module has opened. -/
structure Process where
  agent   : SilogIpcAgent
  sockets : Table ℤ

/-- The process before its first call. -/
def Process.initial : Process := { agent := .initial, sockets := { held := [], log := [] } }

/-! ## Section 2: The functions -/

/-- What `socket`, the two calls of `fcntl` and `connect` or `bind` return. -/
structure SocketEnv where
  socket : Option ℕ
  getFl  : Bool
  setFl  : Bool
  ok     : Bool

/-- The body that the two init functions share: `failed` is returned when the last
    call fails, and every error closes the socket again. -/
def openSocket (p : Process) (side : Side) (failed : ErrorCode) (env : SocketEnv) :
    ErrorCode × Process :=
  match env.socket with
  | none => (.netFileCreate, p)
  | some n =>
    let sockets := p.sockets.acquire n
    let ret := setNonblock env.getFl env.setFl
    if ret ≠ .ok then (ret, { p with sockets := sockets.release n })
    else if env.ok = false then (failed, { p with sockets := sockets.release n })
    else (.ok, { agent := setFd p.agent side n, sockets := sockets })

/-- The body that the two close functions share. -/
def closeSocket (p : Process) (side : Side) : Process :=
  let old := fd p.agent side
  { agent := setFd p.agent side (-1)
    sockets := if 0 ≤ old then p.sockets.release old else p.sockets }

/-- `SilogIpcDgramClientInit` -/
def silogIpcDgramClientInit (p : Process) (env : SocketEnv) : ErrorCode × Process :=
  openSocket p .client .netConnect env

/-- `SilogIpcDgramServerInit`; the path that it unlinks first is not of interest here. -/
def silogIpcDgramServerInit (p : Process) (env : SocketEnv) : ErrorCode × Process :=
  openSocket p .server .netFileOpen env

/-- `SilogIpcDgramClientClose` -/
def silogIpcDgramClientClose (p : Process) : Process := closeSocket p .client

/-- `SilogIpcDgramServerClose` -/
def silogIpcDgramServerClose (p : Process) : Process := closeSocket p .server

/-- What the system calls of `SilogIpcDgramClientSend` return. -/
structure SendEnv where
  send   : SendResult
  init   : SocketEnv
  resend : SendResult

/-- `SilogIpcDgramClientSend` -/
def silogIpcDgramClientSend (p : Process) (env : SendEnv) : ErrorCode × Process :=
  if p.agent.sendFd < 0 then (.netFileError, p)
  else match env.send with
    | .sent => (.ok, p)
    | .failed => (.netSend, p)
    | .refused =>
      match silogIpcDgramClientInit (silogIpcDgramClientClose p) env.init with
      | (.ok, p) =>
        match env.resend with
        | .sent => (.ok, p)
        | _ => (.netSend, p)
      | (_, p) => (.netSend, p)

/-- `SilogIpcClientInit` -/
def silogIpcClientInit (p : Process) (env : SocketEnv) : ErrorCode × Process :=
  if p.agent.isInit = false then (.notImplemented, p) else silogIpcDgramClientInit p env

/-- `SilogIpcClientSend` -/
def silogIpcClientSend (p : Process) (env : SendEnv) : ErrorCode × Process :=
  if p.agent.isInit = false then (.notImplemented, p) else silogIpcDgramClientSend p env

/-- `SilogIpcClientClose` -/
def silogIpcClientClose (p : Process) : Process :=
  if p.agent.isInit = false then p else silogIpcDgramClientClose p

/-- `SilogIpcServerInit` -/
def silogIpcServerInit (p : Process) (env : SocketEnv) : ErrorCode × Process :=
  if p.agent.isInit = false then (.notImplemented, p) else silogIpcDgramServerInit p env

/-- `SilogIpcServerClose` -/
def silogIpcServerClose (p : Process) : Process :=
  if p.agent.isInit = false then p
  else
    let p := silogIpcDgramServerClose p
    { p with agent := { p.agent with isInit := false } }

/-- A call with what its system calls return.  `SilogIpcServerRecv` reads the agent
    and changes nothing. -/
inductive Call where
  | init (type : SilogIpcType)
  | clientInit (env : SocketEnv)
  | clientSend (env : SendEnv)
  | clientClose
  | serverInit (env : SocketEnv)
  | serverRecv (buf : List UInt8) (result : RecvResult)
  | serverClose

def Process.call (p : Process) : Call → Process
  | .init type => { p with agent := silogIpcInit p.agent type }
  | .clientInit env => (silogIpcClientInit p env).2
  | .clientSend env => (silogIpcClientSend p env).2
  | .clientClose => silogIpcClientClose p
  | .serverInit env => (silogIpcServerInit p env).2
  | .serverRecv _ _ => p
  | .serverClose => silogIpcServerClose p

/-- `socket` returns a descriptor that is not in use; the one that is closed before may
    come again. -/
def FreshFd (p : Process) : Call → Prop
  | .clientInit env | .serverInit env => ∀ n, env.socket = some n → (n : ℤ) ∉ p.sockets.held
  | .clientSend env => ∀ n, env.init.socket = some n →
    (n : ℤ) ∉ (silogIpcDgramClientClose p).sockets.held
  | _ => True

/-- One complete call. -/
def Step (p : Process) (c : Call) (p' : Process) : Prop := FreshFd p c ∧ p' = p.call c

/-! ### The same functions over the daemon's sockets

    `SiLog.Ipc.Model` follows the connection of the client instead of its sockets. -/

/-- What the client sees of the daemons when it connects. -/
def seen (d : Daemons) (env : InitEnv) : SocketEnv where
  socket := env.socket
  getFl := env.getFl
  setFl := env.setFl
  ok := match (d.events env.gap).path with
    | none => false
    | some k => decide (k ∈ (d.events env.gap).live) && env.connectOk

theorem dgramClientInit_model {p : Process} {w : World} (h : p.agent = w.agent) (env : InitEnv) :
    (silogIpcDgramClientInit p (seen w.daemons env)).1 = (Ipc.silogIpcDgramClientInit w env).1 ∧
    (silogIpcDgramClientInit p (seen w.daemons env)).2.agent =
      (Ipc.silogIpcDgramClientInit w env).2.agent := by
  unfold silogIpcDgramClientInit openSocket Ipc.silogIpcDgramClientInit seen
  dsimp only
  cases env.socket with
  | none => exact ⟨rfl, h⟩
  | some n =>
    dsimp only
    by_cases hret : setNonblock env.getFl env.setFl ≠ .ok
    · rw [if_pos hret, if_pos hret]
      exact ⟨rfl, h⟩
    · rw [if_neg hret, if_neg hret]
      cases (w.daemons.events env.gap).path with
      | none => exact ⟨rfl, h⟩
      | some k =>
        dsimp only
        by_cases hlive : k ∈ (w.daemons.events env.gap).live ∧ env.connectOk = true
        · rw [if_pos hlive, if_neg (by simp [hlive])]
          exact ⟨rfl, by rw [h]; rfl⟩
        · rw [if_neg hlive, if_pos (by simpa using hlive)]
          exact ⟨rfl, h⟩

theorem dgramServerInit_model (p : Process) (env : ServerEnv) :
    (silogIpcDgramServerInit p ⟨env.socket, env.getFl, env.setFl, env.bindOk⟩).1 =
      (Ipc.silogIpcDgramServerInit p.agent env).1 ∧
    (silogIpcDgramServerInit p ⟨env.socket, env.getFl, env.setFl, env.bindOk⟩).2.agent =
      (Ipc.silogIpcDgramServerInit p.agent env).2 := by
  unfold silogIpcDgramServerInit openSocket Ipc.silogIpcDgramServerInit
  dsimp only
  cases env.socket with
  | none => exact ⟨rfl, rfl⟩
  | some n =>
    dsimp only
    by_cases hret : setNonblock env.getFl env.setFl ≠ .ok
    · rw [if_pos hret, if_pos hret]
      exact ⟨rfl, rfl⟩
    · rw [if_neg hret, if_neg hret]
      cases env.bindOk <;> exact ⟨rfl, rfl⟩

theorem serverClose_model (p : Process) :
    (silogIpcServerClose p).agent = Ipc.silogIpcServerClose p.agent := by
  unfold silogIpcServerClose Ipc.silogIpcServerClose
  cases p.agent.isInit <;> rfl

/-- What the client sees when it sends. -/
def seenBySend (w : World) (data : List UInt8) (env : Ipc.SendEnv) : SendEnv :=
  let first := w.send w.agent.sendFd data env.sendOk
  let again := (Ipc.silogIpcDgramClientInit (Ipc.silogIpcDgramClientClose first.2) env.init).2
  let late := { again with daemons := again.daemons.events env.gap }
  { send := first.1
    init := seen first.2.daemons env.init
    resend := (late.send late.agent.sendFd data env.resendOk).1 }

theorem send_agent (w : World) (n : ℤ) (data : List UInt8) (ok : Bool) :
    (w.send n data ok).2.agent = w.agent := by
  unfold World.send
  split
  · rfl
  · split
    · rfl
    · split <;> rfl

theorem dgramClientSend_model {p : Process} {w : World} (h : p.agent = w.agent)
    (data : List UInt8) (env : Ipc.SendEnv) :
    (silogIpcDgramClientSend p (seenBySend w data env)).1 =
      (Ipc.silogIpcDgramClientSend w data env).1 ∧
    (silogIpcDgramClientSend p (seenBySend w data env)).2.agent =
      (Ipc.silogIpcDgramClientSend w data env).2.agent := by
  unfold silogIpcDgramClientSend Ipc.silogIpcDgramClientSend seenBySend
  rw [h]
  by_cases hneg : w.agent.sendFd < 0
  · simp only [if_pos hneg]
    exact ⟨trivial, h⟩
  · simp only [if_neg hneg]
    have hfirst := send_agent w w.agent.sendFd data env.sendOk
    generalize w.send w.agent.sendFd data env.sendOk = first at hfirst ⊢
    obtain ⟨result, w₁⟩ := first
    have h₁ : p.agent = w₁.agent := h.trans hfirst.symm
    cases result with
    | sent => exact ⟨rfl, h₁⟩
    | failed => exact ⟨rfl, h₁⟩
    | refused =>
      have hclose : (silogIpcDgramClientClose p).agent =
          (Ipc.silogIpcDgramClientClose w₁).agent := by
        unfold silogIpcDgramClientClose closeSocket Ipc.silogIpcDgramClientClose
        rw [h₁]
        rfl
      obtain ⟨hret, hagent⟩ := dgramClientInit_model hclose env.init
      have hdaemons : (Ipc.silogIpcDgramClientClose w₁).daemons = w₁.daemons := rfl
      rw [hdaemons] at hret hagent
      dsimp only
      generalize silogIpcDgramClientInit (silogIpcDgramClientClose p) (seen w₁.daemons env.init) = r
        at hret hagent ⊢
      generalize Ipc.silogIpcDgramClientInit (Ipc.silogIpcDgramClientClose w₁) env.init = r'
        at hret hagent ⊢
      obtain ⟨ret, p₂⟩ := r
      obtain ⟨ret', w₂⟩ := r'
      obtain rfl : ret = ret' := hret
      cases ret with
      | ok =>
        dsimp only at hagent ⊢
        have hsecond := send_agent { w₂ with daemons := w₂.daemons.events env.gap }
          w₂.agent.sendFd data env.resendOk
        generalize World.send { w₂ with daemons := w₂.daemons.events env.gap }
          w₂.agent.sendFd data env.resendOk = second at hsecond ⊢
        obtain ⟨result', w₃⟩ := second
        have h₃ : p₂.agent = w₃.agent := hagent.trans hsecond.symm
        cases result' <;> exact ⟨rfl, h₃⟩
      | _ => exact ⟨rfl, hagent⟩

/-! ## Section 3: No socket is lost -/

/-- Every socket that was opened is `sendFd` or `recvFd` and open, or was closed exactly
    once; nothing else was closed. -/
def NoneLost (p : Process) : Prop :=
  p.sockets.Accounted fun n => n = p.agent.sendFd ∨ n = p.agent.recvFd

/-- All calls that open a socket succeed. -/
structure SocketEnv.Succeeds (env : SocketEnv) : Prop where
  socket : env.socket.isSome = true
  getFl  : env.getFl = true
  setFl  : env.setFl = true
  ok     : env.ok = true

/-- A descriptor is stored only over one that is not in use: `ClientInit` and `ServerInit`
    succeed only with the field negative, and `SilogIpcInit` resets the fields only when
    `sendFd` is not open. -/
def Careful (p : Process) : Call → Prop
  | .init .unixDgram => p.agent.isInit = false → p.agent.sendFd ∉ p.sockets.held
  | .clientInit env => p.agent.isInit = true → env.Succeeds → p.agent.sendFd < 0
  | .serverInit env => p.agent.isInit = true → env.Succeeds → p.agent.recvFd < 0
  | _ => True

/-! ## Section 4: The invariant -/

@[simp] theorem fd_setFd (agent : SilogIpcAgent) (side : Side) (v : ℤ) :
    fd (setFd agent side v) side = v := by
  cases side <;> rfl

@[simp] theorem fd_setFd_other (agent : SilogIpcAgent) (side : Side) (v : ℤ) :
    fd (setFd agent side v) side.other = fd agent side.other := by
  cases side <;> rfl

@[simp] theorem isInit_setFd (agent : SilogIpcAgent) (side : Side) (v : ℤ) :
    (setFd agent side v).isInit = agent.isInit := by
  cases side <;> rfl

@[simp] theorem Side.other_other (side : Side) : side.other.other = side := by
  cases side <;> rfl

theorem Side.eq_or (side side' : Side) : side' = side ∨ side' = side.other := by
  cases side <;> cases side' <;> simp [Side.other]

/-- While `isInit` is set, each field is `-1` or an open socket, and not both the same
    one.  While it is clear, `recvFd` is not open. -/
structure Inv (p : Process) : Prop where
  order    : p.sockets.InOrder
  nonneg   : ∀ n ∈ p.sockets.held, 0 ≤ n
  fields   : p.agent.isInit = true → ∀ side, fd p.agent side = -1 ∨ fd p.agent side ∈ p.sockets.held
  down     : p.agent.isInit = false → p.agent.recvFd ∉ p.sockets.held
  distinct : ∀ side, fd p.agent side ∈ p.sockets.held → fd p.agent side.other ≠ fd p.agent side

/-- Every open socket is in a field. -/
def Owned (p : Process) : Prop := ∀ n ∈ p.sockets.held, ∃ side, n = fd p.agent side

section steps
variable {p : Process} {side : Side}

theorem noneLost_iff (h : p.sockets.InOrder) : NoneLost p ↔ Owned p := by
  unfold NoneLost
  rw [h.accounted_iff]
  constructor
  · intro hlost n hn
    rcases hlost n hn with hsend | hrecv
    · exact ⟨.client, hsend⟩
    · exact ⟨.server, hrecv⟩
  · intro howned n hn
    obtain ⟨side, hside⟩ := howned n hn
    cases side with
    | client => exact Or.inl hside
    | server => exact Or.inr hside

theorem Inv.neg_one_not_mem (hI : Inv p) : (-1 : ℤ) ∉ p.sockets.held :=
  fun hmem => absurd (hI.nonneg _ hmem) (by decide)

/-- A field that is not negative is open. -/
theorem Inv.mem_of_nonneg (hI : Inv p) (hinit : p.agent.isInit = true) (hfd : 0 ≤ fd p.agent side) :
    fd p.agent side ∈ p.sockets.held := by
  rcases hI.fields hinit side with hneg | hmem
  · rw [hneg] at hfd
    exact absurd hfd (by decide)
  · exact hmem

/-! ### Closing -/

/-- What is open after the field of `side` is closed. -/
theorem Inv.closed (hI : Inv p) (hinit : p.agent.isInit = true) (side : Side) :
    (closeSocket p side).sockets.InOrder ∧
    ∀ n, n ∈ (closeSocket p side).sockets.held ↔ n ≠ fd p.agent side ∧ n ∈ p.sockets.held := by
  unfold closeSocket
  dsimp only
  split
  next hfd =>
    exact ⟨hI.order.release (hI.mem_of_nonneg hinit hfd), fun _ => hI.order.mem_release⟩
  next hfd =>
    refine ⟨hI.order, fun n => ⟨fun hn => ⟨?_, hn⟩, And.right⟩⟩
    rintro rfl
    exact hfd (hI.nonneg _ hn)

theorem Inv.close (hI : Inv p) (howned : Owned p) (hinit : p.agent.isInit = true) (side : Side) :
    Inv (closeSocket p side) ∧ Owned (closeSocket p side) := by
  obtain ⟨horder, hmem⟩ := hI.closed hinit side
  have hagent : (closeSocket p side).agent = setFd p.agent side (-1) := rfl
  have hneg : (-1 : ℤ) ∉ (closeSocket p side).sockets.held :=
    fun h => hI.neg_one_not_mem ((hmem _).mp h).2
  refine ⟨⟨horder, fun n hn => hI.nonneg n ((hmem n).mp hn).2, fun _ side' => ?_, fun hoff => ?_,
    fun side' hside' => ?_⟩, fun n hn => ?_⟩
  · rw [hagent]
    rcases Side.eq_or side side' with rfl | rfl
    · exact Or.inl (fd_setFd _ _ _)
    · rw [fd_setFd_other]
      rcases hI.fields hinit side.other with hminus | hopen
      · exact Or.inl hminus
      · refine Or.inr ((hmem _).mpr ⟨?_, hopen⟩)
        have hne := hI.distinct _ hopen
        rw [Side.other_other] at hne
        exact hne.symm
  · rw [hagent, isInit_setFd, hinit] at hoff
    cases hoff
  · rw [hagent] at hside' ⊢
    rcases Side.eq_or side side' with rfl | rfl
    · rw [fd_setFd] at hside'
      exact absurd hside' hneg
    · rw [Side.other_other, fd_setFd]
      intro heq
      rw [← heq] at hside'
      exact hneg hside'
  · obtain ⟨hne, hn⟩ := (hmem n).mp hn
    obtain ⟨side', hside'⟩ := howned n hn
    rcases Side.eq_or side side' with rfl | rfl
    · exact absurd hside' hne
    · refine ⟨side.other, ?_⟩
      rw [hagent, fd_setFd_other]
      exact hside'

/-! ### Opening -/

/-- A failure leaves the fields alone and closes what was opened; a success stores the new
    socket. -/
theorem openSocket_cases (p : Process) (side : Side) {failed : ErrorCode} (hfailed : failed ≠ .ok)
    (env : SocketEnv) :
    (¬ env.Succeeds ∧ ∃ ret sockets, ret ≠ .ok ∧
      openSocket p side failed env = (ret, { p with sockets := sockets }) ∧
      (sockets = p.sockets ∨
        ∃ n, env.socket = some n ∧ sockets = (p.sockets.acquire n).release n)) ∨
    (env.Succeeds ∧ ∃ n, env.socket = some n ∧
      openSocket p side failed env =
        (.ok, { agent := setFd p.agent side n, sockets := p.sockets.acquire n })) := by
  unfold openSocket
  cases hsocket : env.socket with
  | none =>
    refine Or.inl ⟨fun h => ?_, .netFileCreate, p.sockets, nofun, rfl, Or.inl rfl⟩
    have hsome := h.socket
    rw [hsocket] at hsome
    cases hsome
  | some n =>
    dsimp only
    cases hget : env.getFl with
    | false =>
      refine Or.inl ⟨fun h => ?_, .netFileError, _, nofun, rfl, Or.inr ⟨n, rfl, rfl⟩⟩
      exact absurd (hget.symm.trans h.getFl) (by decide)
    | true =>
      cases hset : env.setFl with
      | false =>
        refine Or.inl ⟨fun h => ?_, .netFileError, _, nofun, rfl, Or.inr ⟨n, rfl, rfl⟩⟩
        exact absurd (hset.symm.trans h.setFl) (by decide)
      | true =>
        cases hok : env.ok with
        | false =>
          refine Or.inl ⟨fun h => ?_, failed, _, hfailed, rfl, Or.inr ⟨n, rfl, rfl⟩⟩
          exact absurd (hok.symm.trans h.ok) (by decide)
        | true => exact Or.inr ⟨⟨by rw [hsocket]; rfl, hget, hset, hok⟩, n, rfl, rfl⟩

theorem Inv.with_sockets (hI : Inv p) {sockets : Table ℤ} (horder : sockets.InOrder)
    (hheld : sockets.held = p.sockets.held) : Inv { p with sockets := sockets } := by
  obtain ⟨_, hnonneg, hfields, hdown, hdistinct⟩ := hI
  rw [← hheld] at hnonneg hfields hdown hdistinct
  exact ⟨horder, hnonneg, hfields, hdown, hdistinct⟩

/-- A new socket in the field of `side`. -/
theorem Inv.stored (hI : Inv p) (hinit : p.agent.isInit = true) (side : Side) {n : ℕ}
    (hfresh : (n : ℤ) ∉ p.sockets.held) :
    Inv { agent := setFd p.agent side n, sockets := p.sockets.acquire n } := by
  have hother : fd p.agent side.other ≠ n := by
    rcases hI.fields hinit side.other with hneg | hmem
    · rw [hneg]
      omega
    · exact fun heq => hfresh (heq ▸ hmem)
  refine ⟨hI.order.acquire hfresh, fun k hk => ?_, fun _ side' => ?_, fun hoff => ?_,
    fun side' hside' => ?_⟩
  · rcases List.mem_cons.mp hk with rfl | hk
    · exact Int.natCast_nonneg n
    · exact hI.nonneg k hk
  · rcases Side.eq_or side side' with rfl | rfl
    · exact Or.inr (List.mem_cons.mpr (Or.inl (fd_setFd _ _ _)))
    · show fd (setFd p.agent side n) side.other = -1 ∨
        fd (setFd p.agent side n) side.other ∈ (n : ℤ) :: p.sockets.held
      rw [fd_setFd_other]
      rcases hI.fields hinit side.other with hneg | hmem
      · exact Or.inl hneg
      · exact Or.inr (List.mem_cons_of_mem _ hmem)
  · rw [isInit_setFd, hinit] at hoff
    cases hoff
  · show fd (setFd p.agent side n) side'.other ≠ fd (setFd p.agent side n) side'
    rcases Side.eq_or side side' with rfl | rfl
    · rw [fd_setFd, fd_setFd_other]
      exact hother
    · rw [Side.other_other, fd_setFd, fd_setFd_other]
      exact hother.symm

/-- Nothing is lost exactly if the field was negative. -/
theorem Inv.owned_stored_iff (hI : Inv p) (howned : Owned p) (hinit : p.agent.isInit = true)
    (side : Side) {n : ℕ} (hfresh : (n : ℤ) ∉ p.sockets.held) :
    Owned { agent := setFd p.agent side n, sockets := p.sockets.acquire n } ↔
      fd p.agent side < 0 := by
  constructor
  · -- the old socket would be in no field
    intro howned'
    by_contra hfd
    have hold := hI.mem_of_nonneg hinit (Int.not_lt.mp hfd)
    obtain ⟨side', hside'⟩ := howned' _ (List.mem_cons_of_mem _ hold)
    rcases Side.eq_or side side' with rfl | rfl
    · rw [fd_setFd] at hside'
      exact hfresh (hside' ▸ hold)
    · rw [fd_setFd_other] at hside'
      exact hI.distinct side hold hside'.symm
  · intro hneg k hk
    rcases List.mem_cons.mp hk with rfl | hold
    · exact ⟨side, (fd_setFd _ _ _).symm⟩
    · obtain ⟨side', hside'⟩ := howned k hold
      rcases Side.eq_or side side' with rfl | rfl
      · have hpos := hI.nonneg k hold
        omega
      · exact ⟨side.other, hside'.trans (fd_setFd_other _ _ _).symm⟩

theorem Inv.open (hI : Inv p) (howned : Owned p) (hinit : p.agent.isInit = true) (side : Side)
    {failed : ErrorCode} (hfailed : failed ≠ .ok) {env : SocketEnv}
    (hfresh : ∀ n, env.socket = some n → (n : ℤ) ∉ p.sockets.held) :
    Inv (openSocket p side failed env).2 ∧
    (Owned (openSocket p side failed env).2 ↔ (env.Succeeds → fd p.agent side < 0)) := by
  obtain ⟨hno, ret, sockets, _, heq, hsockets⟩ | ⟨hyes, n, hn, heq⟩ :=
    openSocket_cases p side hfailed env
  · rw [heq]
    have hheld : sockets.InOrder ∧ sockets.held = p.sockets.held := by
      rcases hsockets with rfl | ⟨n, hn, rfl⟩
      · exact ⟨hI.order, rfl⟩
      · exact ⟨hI.order.acquire_release (hfresh n hn), Table.held_acquire_release⟩
    refine ⟨hI.with_sockets hheld.1 hheld.2, iff_of_true ?_ fun h => absurd h hno⟩
    intro k hk
    exact howned k (hheld.2 ▸ hk)
  · rw [heq]
    have hiff := hI.owned_stored_iff howned hinit side (hfresh n hn)
    exact ⟨hI.stored hinit side (hfresh n hn), hiff.trans ⟨fun h _ => h, fun h => h hyes⟩⟩

/-! ### Calls -/

/-- `SilogIpcInit` resets the fields. -/
theorem Inv.reset (hI : Inv p) (howned : Owned p) (hoff : p.agent.isInit = false) :
    Inv { p with agent := { isInit := true, sendFd := -1, recvFd := -1 } } ∧
    (Owned { p with agent := { isInit := true, sendFd := -1, recvFd := -1 } } ↔
      p.agent.sendFd ∉ p.sockets.held) := by
  have hfields : ∀ side, fd { isInit := true, sendFd := -1, recvFd := -1 } side = -1 := by
    intro side
    cases side <;> rfl
  refine ⟨⟨hI.order, hI.nonneg, fun _ side => Or.inl (hfields side), fun hno => ?_,
    fun side hside => ?_⟩, ?_, ?_⟩
  · cases hno
  · rw [hfields side] at hside
    exact absurd hside hI.neg_one_not_mem
  · intro howned' hmem
    obtain ⟨side, hside⟩ := howned' _ hmem
    rw [hfields side] at hside
    exact hI.neg_one_not_mem (hside ▸ hmem)
  · intro hclosed n hn
    obtain ⟨side, rfl⟩ := howned n hn
    cases side with
    | client => exact absurd hn hclosed
    | server => exact absurd hn (hI.down hoff)

/-- `SilogIpcServerClose` clears `isInit` when `recvFd` is closed. -/
theorem Inv.shut (hI : Inv p) (howned : Owned p) (hrecv : p.agent.recvFd = -1) :
    Inv { p with agent := { p.agent with isInit := false } } ∧
    Owned { p with agent := { p.agent with isInit := false } } := by
  have hfields : ∀ side, fd { p.agent with isInit := false } side = fd p.agent side := by
    intro side
    cases side <;> rfl
  refine ⟨⟨hI.order, hI.nonneg, fun hno => ?_, fun _ => ?_, fun side hside => ?_⟩, fun n hn => ?_⟩
  · cases hno
  · show p.agent.recvFd ∉ p.sockets.held
    rw [hrecv]
    exact hI.neg_one_not_mem
  · rw [hfields] at hside ⊢
    rw [hfields]
    exact hI.distinct side hside
  · obtain ⟨side, hside⟩ := howned n hn
    exact ⟨side, by rw [hfields]; exact hside⟩

/-- A refused datagram closes `sendFd` before it opens a new socket. -/
theorem Inv.send (hI : Inv p) (howned : Owned p) (hinit : p.agent.isInit = true) {env : SendEnv}
    (hfresh : FreshFd p (.clientSend env)) :
    Inv (silogIpcDgramClientSend p env).2 ∧ Owned (silogIpcDgramClientSend p env).2 := by
  obtain ⟨hI₁, howned₁⟩ := hI.close howned hinit .client
  have hinit₁ : (closeSocket p .client).agent.isInit = true := hinit
  have hfailed : ErrorCode.netConnect ≠ .ok := nofun
  obtain ⟨hI₂, hiff⟩ := hI₁.open howned₁ hinit₁ .client hfailed hfresh
  have howned₂ := hiff.mpr fun _ => show (-1 : ℤ) < 0 by decide
  unfold silogIpcDgramClientSend
  split
  · exact ⟨hI, howned⟩
  · split
    · exact ⟨hI, howned⟩
    · exact ⟨hI, howned⟩
    · unfold silogIpcDgramClientInit silogIpcDgramClientClose
      split
      next heq =>
        rw [heq] at hI₂ howned₂
        split <;> exact ⟨hI₂, howned₂⟩
      next heq =>
        rw [heq] at hI₂ howned₂
        exact ⟨hI₂, howned₂⟩

/-- While `isInit` is clear, everything but `SilogIpcInit` is ignored. -/
theorem call_off (hoff : p.agent.isInit = false) {c : Call} (hc : c ≠ .init .unixDgram) :
    p.call c = p ∧ Careful p c := by
  have hno : ¬ p.agent.isInit = true := by rw [hoff]; decide
  cases c with
  | init type =>
    cases type with
    | unixDgram => exact absurd rfl hc
    | unixStream => exact ⟨by simp [Process.call, silogIpcInit, hoff], trivial⟩
  | clientInit env => exact ⟨by simp [Process.call, silogIpcClientInit, hoff], fun h => absurd h hno⟩
  | clientSend env => exact ⟨by simp [Process.call, silogIpcClientSend, hoff], trivial⟩
  | clientClose => exact ⟨by simp [Process.call, silogIpcClientClose, hoff], trivial⟩
  | serverInit env => exact ⟨by simp [Process.call, silogIpcServerInit, hoff], fun h => absurd h hno⟩
  | serverRecv buf result => exact ⟨rfl, trivial⟩
  | serverClose => exact ⟨by simp [Process.call, silogIpcServerClose, hoff], trivial⟩

/-- A call while `isInit` is set. -/
theorem Inv.call_on (hI : Inv p) (howned : Owned p) (hon : p.agent.isInit = true) {c : Call}
    (hfresh : FreshFd p c) : Inv (p.call c) ∧ (Owned (p.call c) ↔ Careful p c) := by
  cases c with
  | init type =>
    have heq : p.call (.init type) = p := by simp [Process.call, silogIpcInit, hon]
    rw [heq]
    refine ⟨hI, iff_of_true howned ?_⟩
    cases type with
    | unixDgram => exact fun hoff => absurd (hon.symm.trans hoff) (by decide)
    | unixStream => trivial
  | clientInit env =>
    have heq : p.call (.clientInit env) = (openSocket p .client .netConnect env).2 := by
      simp [Process.call, silogIpcClientInit, silogIpcDgramClientInit, hon]
    have hfailed : ErrorCode.netConnect ≠ .ok := nofun
    rw [heq]
    obtain ⟨hI', hiff⟩ := hI.open howned hon .client hfailed hfresh
    exact ⟨hI', hiff.trans ⟨fun h _ => h, fun h => h hon⟩⟩
  | clientSend env =>
    have heq : p.call (.clientSend env) = (silogIpcDgramClientSend p env).2 := by
      simp [Process.call, silogIpcClientSend, hon]
    rw [heq]
    obtain ⟨hI', howned'⟩ := hI.send howned hon hfresh
    exact ⟨hI', iff_true_intro howned'⟩
  | clientClose =>
    have heq : p.call .clientClose = closeSocket p .client := by
      simp [Process.call, silogIpcClientClose, silogIpcDgramClientClose, hon]
    rw [heq]
    obtain ⟨hI', howned'⟩ := hI.close howned hon .client
    exact ⟨hI', iff_true_intro howned'⟩
  | serverInit env =>
    have heq : p.call (.serverInit env) = (openSocket p .server .netFileOpen env).2 := by
      simp [Process.call, silogIpcServerInit, silogIpcDgramServerInit, hon]
    have hfailed : ErrorCode.netFileOpen ≠ .ok := nofun
    rw [heq]
    obtain ⟨hI', hiff⟩ := hI.open howned hon .server hfailed hfresh
    exact ⟨hI', hiff.trans ⟨fun h _ => h, fun h => h hon⟩⟩
  | serverRecv buf result => exact ⟨hI, iff_true_intro howned⟩
  | serverClose =>
    have heq : p.call .serverClose = { closeSocket p .server with
        agent := { (closeSocket p .server).agent with isInit := false } } := by
      simp [Process.call, silogIpcServerClose, silogIpcDgramServerClose, hon]
    rw [heq]
    obtain ⟨hI₁, howned₁⟩ := hI.close howned hon .server
    obtain ⟨hI', howned'⟩ := hI₁.shut howned₁ rfl
    exact ⟨hI', iff_true_intro howned'⟩

/-- One call: nothing is lost exactly if the call is careful. -/
theorem Inv.call (hI : Inv p) (howned : Owned p) {c : Call} (hfresh : FreshFd p c) :
    Inv (p.call c) ∧ (Owned (p.call c) ↔ Careful p c) := by
  cases hinit : p.agent.isInit with
  | true => exact hI.call_on howned hinit hfresh
  | false =>
    by_cases hc : c = .init .unixDgram
    · subst hc
      have heq : p.call (.init .unixDgram) =
          { p with agent := { isInit := true, sendFd := -1, recvFd := -1 } } := by
        simp [Process.call, silogIpcInit, hinit]
      rw [heq]
      obtain ⟨hI', hiff⟩ := hI.reset howned hinit
      exact ⟨hI', hiff.trans ⟨fun h _ => h, fun h => h hinit⟩⟩
    · obtain ⟨heq, hcareful⟩ := call_off hinit hc
      rw [heq]
      exact ⟨hI, iff_of_true howned hcareful⟩

end steps

theorem inv_initial : Inv Process.initial := by
  refine ⟨⟨List.nodup_nil, balanced_nil⟩, fun n hn => ?_, fun hon => ?_, fun _ => List.not_mem_nil,
    fun side hside => ?_⟩
  · cases hn
  · cases hon
  · cases hside

/-- **Descriptors.** In a run of any calls and failures, no socket is lost or closed
    twice in any state exactly if every call of the run is careful. -/
theorem noneLost_iff_careful {calls : List Call} {p : Process} :
    Steps (Ensuring Step NoneLost) Process.initial calls p ↔
      Steps (Guarded Step Careful) Process.initial calls p := by
  have howned₀ : Owned Process.initial := fun n hn => (by cases hn)
  apply ensuring_iff_guarded inv_initial ((noneLost_iff inv_initial.order).mpr howned₀)
  · rintro p c _ ⟨hfresh, rfl⟩ hI hlost _
    exact (hI.call ((noneLost_iff hI.order).mp hlost) hfresh).1
  · rintro p c _ ⟨hfresh, rfl⟩ hI hlost
    obtain ⟨hI', hiff⟩ := hI.call ((noneLost_iff hI.order).mp hlost) hfresh
    exact (noneLost_iff hI'.order).trans hiff

/-! ### Three ways to lose a socket -/

/-- All calls succeed and `socket` returns `n`. -/
def smooth (n : ℕ) : SocketEnv := { socket := some n, getFl := true, setFl := true, ok := true }

/-- The client is set up twice. -/
def twiceClient : List Call := [.init .unixDgram, .clientInit (smooth 3), .clientInit (smooth 4)]

/-- The server is set up twice. -/
def twiceServer : List Call := [.init .unixDgram, .serverInit (smooth 3), .serverInit (smooth 4)]

/-- The server is closed before the client, and the module is initialised again. -/
def serverFirst : List Call :=
  [.init .unixDgram, .clientInit (smooth 3), .serverInit (smooth 4), .serverClose, .clientClose,
   .init .unixDgram]

def Process.run (p : Process) (calls : List Call) : Process := calls.foldl Process.call p

/-- The first socket was not closed and is in no field. -/
theorem not_noneLost {p : Process} {n : ℤ} {later : List (Event ℤ)}
    (hlog : p.sockets.log = .acquired n :: later) (hopen : releases n later = 0)
    (hsend : n ≠ p.agent.sendFd) (hrecv : n ≠ p.agent.recvFd) : ¬ NoneLost p := by
  intro hlost
  rcases hlost.acquired [] n later hlog with hone | ⟨_, _, howned | howned⟩
  · rw [hopen] at hone
    cases hone
  · exact hsend howned
  · exact hrecv howned

/-- Socket 3 is lost in all three runs. -/
theorem socket_lost :
    (Steps Step .initial twiceClient (Process.initial.run twiceClient) ∧
      ¬ NoneLost (Process.initial.run twiceClient)) ∧
    (Steps Step .initial twiceServer (Process.initial.run twiceServer) ∧
      ¬ NoneLost (Process.initial.run twiceServer)) ∧
    Steps Step .initial serverFirst (Process.initial.run serverFirst) ∧
      ¬ NoneLost (Process.initial.run serverFirst) := by
  refine ⟨⟨?_, ?_⟩, ⟨?_, ?_⟩, ?_, ?_⟩
  · refine .cons _ _ ⟨trivial, rfl⟩ (.cons _ _ ⟨?_, rfl⟩ (.single ⟨?_, rfl⟩)) <;>
      · rintro n ⟨⟩
        decide
  · exact not_noneLost rfl rfl (by decide) (by decide)
  · refine .cons _ _ ⟨trivial, rfl⟩ (.cons _ _ ⟨?_, rfl⟩ (.single ⟨?_, rfl⟩)) <;>
      · rintro n ⟨⟩
        decide
  · exact not_noneLost rfl rfl (by decide) (by decide)
  · refine .cons _ _ ⟨trivial, rfl⟩ (.cons _ _ ⟨?_, rfl⟩ (.cons _ _ ⟨?_, rfl⟩
      (.cons _ _ ⟨trivial, rfl⟩ (.cons _ _ ⟨trivial, rfl⟩ (.single ⟨trivial, rfl⟩))))) <;>
      · rintro n ⟨⟩
        decide
  · exact not_noneLost rfl rfl (by decide) (by decide)

end SiLog.Ipc.Descriptors
