import SiLog.Ipc.Model
import SiLog.Lib.Lts

/-! # The client and restarts of the daemon

    `SilogIpcDgramClientSend` closes its descriptor before it connects again.
    When the new connection fails, `sendFd` stays `-1`, and every later call
    returns at its first test: nothing connects again.  The same holds of a
    second `send` that is refused: the descriptor is not connected any more,
    and the error that follows is not one that leads to a new connection.

    So the client recovers from the restarts of the daemon as long as every
    call that notices one finds the daemon there again.
-/

open Lts

namespace SiLog.Ipc

/-! ## Section 1: Runs -/

/-- A step of a daemon, or a call of `SilogIpcClientSend`. -/
inductive Act where
  | daemon (e : DaemonEvent)
  | send (data : List UInt8) (env : SendEnv)

def World.act (w : World) : Act → World
  | .daemon e => { w with daemons := w.daemons.event e }
  | .send data env => (silogIpcClientSend w data env).2

def Step (w : World) (a : Act) (w' : World) : Prop := w' = w.act a

/-- A daemon socket is bound during a whole call, and the system calls do not fail
    against it. -/
structure Steady (d : Daemons) (env : SendEnv) : Prop where
  bound     : ∃ k, ∀ es, es <+: env.init.gap ++ env.gap → (d.events es).BoundBy k
  sendOk    : env.sendOk
  socket    : env.init.socket.isSome
  getFl     : env.init.getFl
  setFl     : env.init.setFl
  connectOk : env.init.connectOk
  resendOk  : env.resendOk

/-- The call returns `SILOG_OK` and delivers one datagram. -/
def Delivers (w : World) (data : List UInt8) (env : SendEnv) : Prop :=
  (silogIpcClientSend w data env).1 = .ok ∧
  ∃ k, (silogIpcClientSend w data env).2.delivered = w.delivered ++ [(k, data)]

/-- Whatever the daemons do next, a call with a daemon bound delivers. -/
def Recovers (w : World) : Prop :=
  ∀ es data env, Steady (w.daemons.events es) env →
    Delivers { w with daemons := w.daemons.events es } data env

/-! ## Section 2: When a call keeps the connection -/

/-- The socket that the client is connected to is closed. -/
def World.Stale (w : World) : Prop :=
  0 ≤ w.agent.sendFd ∧ ∃ j, w.peer w.agent.sendFd = some j ∧ j ∉ w.daemons.live

/-- `SilogIpcDgramClientInit` connects `fd` to daemon socket `k`. -/
structure Connects (d : Daemons) (env : InitEnv) (fd k : ℕ) : Prop where
  socket    : env.socket = some fd
  getFl     : env.getFl
  setFl     : env.setFl
  connectOk : env.connectOk
  bound     : (d.events env.gap).BoundBy k

/-- A call that finds its connection stale gets a new one: a daemon socket is bound
    when it connects, and still open at the `send` after that. -/
def Reconnects (w : World) : Act → Prop
  | .daemon _ => True
  | .send _ env => w.Stale → ∃ fd k, Connects w.daemons env.init fd k ∧
    k ∈ (w.daemons.events (env.init.gap ++ env.gap)).live

/-- The client is connected to some socket, open or closed. -/
structure Connected (w : World) : Prop where
  init   : w.agent.isInit
  sendFd : 0 ≤ w.agent.sendFd
  peer   : ∃ j, w.peer w.agent.sendFd = some j

/-- The client has no connection and will not make one. -/
structure Stuck (w : World) : Prop where
  init : w.agent.isInit
  gone : w.agent.sendFd < 0 ∨ w.peer w.agent.sendFd = none

variable {w : World} {data : List UInt8}

/-! ## Section 3: The functions -/

theorem setNonblock_eq_ok {getFl setFl : Bool} :
    setNonblock getFl setFl = .ok ↔ getFl ∧ setFl := by
  cases getFl <;> cases setFl <;> simp [setNonblock]

theorem send_of_none {fd : ℤ} {ok : Bool} (hpeer : w.peer fd = none) :
    w.send fd data ok = (.failed, w) := by
  rw [World.send, hpeer]

theorem send_of_closed {fd : ℤ} {k : ℕ} (data : List UInt8) (ok : Bool) (hpeer : w.peer fd = some k)
    (hclosed : k ∉ w.daemons.live) :
    w.send fd data ok = (.refused, { w with peer := Function.update w.peer fd none }) := by
  simp only [World.send, hpeer, if_pos hclosed]

theorem send_of_open {fd : ℤ} {k : ℕ} (data : List UInt8) (ok : Bool) (hpeer : w.peer fd = some k)
    (hopen : k ∈ w.daemons.live) :
    w.send fd data ok =
      if ok then (.sent, { w with delivered := w.delivered ++ [(k, data)] }) else (.failed, w) := by
  simp only [World.send, hpeer, if_neg (not_not_intro hopen)]

theorem dgramClientInit_ok {env : InitEnv} {fd k : ℕ} (h : Connects w.daemons env fd k) :
    silogIpcDgramClientInit w env =
      (.ok, { w with agent := { w.agent with sendFd := fd }
                     peer := Function.update w.peer fd (some k)
                     daemons := w.daemons.events env.gap }) := by
  have hret : setNonblock env.getFl env.setFl = .ok := setNonblock_eq_ok.mpr ⟨h.getFl, h.setFl⟩
  simp only [silogIpcDgramClientInit, h.socket, hret, ne_eq, not_true_eq_false, if_false,
    h.bound.1, h.bound.2, h.connectOk, and_self, if_true]

theorem dgramClientInit_error {env : InitEnv} (h : ∀ fd k, ¬ Connects w.daemons env fd k) :
    ∃ ret, ret ≠ .ok ∧
      silogIpcDgramClientInit w env = (ret, { w with daemons := w.daemons.events env.gap }) := by
  unfold silogIpcDgramClientInit
  dsimp only
  split
  · exact ⟨_, by decide, rfl⟩
  next fd hsock =>
    split
    next hret => exact ⟨_, hret, rfl⟩
    next hret =>
      obtain ⟨hget, hset⟩ := setNonblock_eq_ok.mp (not_not.mp hret)
      split
      · exact ⟨_, by decide, rfl⟩
      next k hpath =>
        split
        next hlive => exact absurd ⟨hsock, hget, hset, hlive.2, hpath, hlive.1⟩ (h fd k)
        next => exact ⟨_, by decide, rfl⟩

/-- A stuck client stays stuck, whatever it calls. -/
theorem Stuck.send (hS : Stuck w) (data : List UInt8) (env : SendEnv) :
    silogIpcClientSend w data env = (.netFileError, w) ∨
    silogIpcClientSend w data env = (.netSend, w) := by
  have hinit : ¬ w.agent.isInit = false := by simp [hS.init]
  rw [silogIpcClientSend, if_neg hinit, silogIpcDgramClientSend]
  by_cases hfd : w.agent.sendFd < 0
  · exact Or.inl (if_pos hfd)
  · rcases hS.gone with hgone | hgone
    · exact absurd hgone hfd
    · refine Or.inr ?_
      simp only [if_neg hfd, send_of_none hgone]

theorem Stuck.act (hS : Stuck w) (a : Act) : Stuck (w.act a) := by
  cases a with
  | daemon e => exact ⟨hS.init, hS.gone⟩
  | send data env =>
    rcases hS.send data env with heq | heq <;>
      · rw [World.act, heq]
        exact hS

/-- A call with an open connection leaves it as it is. -/
theorem Connected.send_open (hC : Connected w) {j : ℕ} (hpeer : w.peer w.agent.sendFd = some j)
    (hlive : j ∈ w.daemons.live) (env : SendEnv) :
    silogIpcClientSend w data env =
      if env.sendOk then (.ok, { w with delivered := w.delivered ++ [(j, data)] })
      else (.netSend, w) := by
  have hinit : ¬ w.agent.isInit = false := by simp [hC.init]
  rw [silogIpcClientSend, if_neg hinit, silogIpcDgramClientSend]
  simp only [if_neg (Int.not_lt.mpr hC.sendFd), send_of_open data env.sendOk hpeer hlive]
  cases env.sendOk <;> rfl

/-- The client after it has closed its stale connection. -/
def World.dropped (w : World) : World :=
  { w with agent := { w.agent with sendFd := -1 }
           peer := Function.update w.peer w.agent.sendFd none }

/-- A call with a stale connection drops it and makes a new one. -/
theorem Connected.send_stale (hC : Connected w) (hstale : w.Stale) (env : SendEnv) :
    silogIpcClientSend w data env =
      match silogIpcDgramClientInit w.dropped env.init with
      | (.ok, w) =>
        let w := { w with daemons := w.daemons.events env.gap }
        match w.send w.agent.sendFd data env.resendOk with
        | (.sent, w) => (.ok, w)
        | (_, w) => (.netSend, w)
      | (_, w) => (.netSend, w) := by
  obtain ⟨hfd, j, hpeer, hclosed⟩ := hstale
  have hinit : ¬ w.agent.isInit = false := by simp [hC.init]
  have hdropped : silogIpcDgramClientClose
      { w with peer := Function.update w.peer w.agent.sendFd none } = w.dropped := by
    simp only [silogIpcDgramClientClose, if_pos hfd, Function.update_idem, World.dropped]
  rw [silogIpcClientSend, if_neg hinit, silogIpcDgramClientSend]
  simp only [if_neg (Int.not_lt.mpr hfd), send_of_closed data env.sendOk hpeer hclosed]
  exact hdropped ▸ rfl

/-- The client connected anew, behind the second `send`. -/
def World.reconnected (w : World) (env : SendEnv) (fd k : ℕ) : World :=
  { w with agent := { w.agent with sendFd := fd }
           peer := Function.update w.dropped.peer fd (some k)
           daemons := w.daemons.events (env.init.gap ++ env.gap) }

theorem Connected.send_reconnects (hC : Connected w) (hstale : w.Stale) {env : SendEnv} {fd k : ℕ}
    (hconn : Connects w.daemons env.init fd k)
    (hopen : k ∈ (w.daemons.events (env.init.gap ++ env.gap)).live) :
    silogIpcClientSend w data env =
      if env.resendOk then
        (.ok, { w.reconnected env fd k with delivered := w.delivered ++ [(k, data)] })
      else (.netSend, w.reconnected env fd k) := by
  have hconn' : Connects w.dropped.daemons env.init fd k := hconn
  have hpeer : (w.reconnected env fd k).peer fd = some k := Function.update_self _ _ _
  have hsend := send_of_open data env.resendOk hpeer hopen
  rw [World.reconnected, Daemons.events_append] at hsend
  rw [hC.send_stale hstale, dgramClientInit_ok hconn']
  dsimp only [World.dropped] at hsend ⊢
  rw [hsend, World.reconnected, Daemons.events_append]
  cases env.resendOk <;> rfl

/-- A call that does not get a new connection leaves the client stuck. -/
theorem Connected.stuck_of_not_reconnects (hC : Connected w) {env : SendEnv}
    (h : ¬ Reconnects w (.send data env)) : Stuck (silogIpcClientSend w data env).2 := by
  obtain ⟨hstale, hnot⟩ := Classical.not_imp.mp h
  rw [hC.send_stale hstale]
  by_cases hconn : ∃ fd k, Connects w.dropped.daemons env.init fd k
  · -- the new peer is closed before the second `send`
    obtain ⟨fd, k, hconn⟩ := hconn
    have hclosed : k ∉ (w.daemons.events (env.init.gap ++ env.gap)).live :=
      fun hopen => hnot ⟨fd, k, hconn, hopen⟩
    have hpeer : (w.reconnected env fd k).peer fd = some k := Function.update_self _ _ _
    have hsend := send_of_closed data env.resendOk hpeer hclosed
    rw [World.reconnected, Daemons.events_append] at hsend
    rw [dgramClientInit_ok hconn]
    dsimp only [World.dropped] at hsend ⊢
    rw [hsend]
    exact ⟨hC.init, Or.inr (Function.update_self _ _ _)⟩
  · have hnone : ∀ fd k, ¬ Connects w.dropped.daemons env.init fd k :=
      fun fd k hconn' => hconn ⟨fd, k, hconn'⟩
    obtain ⟨ret, hret, heq⟩ := dgramClientInit_error hnone
    rw [heq]
    cases ret with
    | ok => exact absurd rfl hret
    | _ => exact ⟨hC.init, Or.inl (by show (-1 : ℤ) < 0; decide)⟩

/-! ## Section 4: Steps and runs -/

theorem Connected.stale_or (hC : Connected w) :
    w.Stale ∨ ∃ j, w.peer w.agent.sendFd = some j ∧ j ∈ w.daemons.live := by
  obtain ⟨j, hpeer⟩ := hC.peer
  by_cases hlive : j ∈ w.daemons.live
  · exact Or.inr ⟨j, hpeer, hlive⟩
  · exact Or.inl ⟨hC.sendFd, j, hpeer, hlive⟩

theorem Connected.reconnected (hC : Connected w) (env : SendEnv) (fd k : ℕ) :
    Connected (w.reconnected env fd k) :=
  ⟨hC.init, Int.natCast_nonneg fd, k, Function.update_self _ _ _⟩

/-- A step that meets the condition keeps the client connected. -/
theorem Connected.act (hC : Connected w) {a : Act} (h : Reconnects w a) : Connected (w.act a) := by
  cases a with
  | daemon e => exact ⟨hC.init, hC.sendFd, hC.peer⟩
  | send data env =>
    rw [World.act]
    rcases hC.stale_or with hstale | ⟨j, hpeer, hlive⟩
    · obtain ⟨fd, k, hconn, hopen⟩ := h hstale
      have hC' := hC.reconnected env fd k
      rw [hC.send_reconnects hstale hconn hopen]
      split
      · exact ⟨hC'.init, hC'.sendFd, hC'.peer⟩
      · exact hC'
    · rw [hC.send_open hpeer hlive]
      split
      · exact ⟨hC.init, hC.sendFd, hC.peer⟩
      · exact hC

/-- A connected client delivers while a daemon is bound. -/
theorem Connected.delivers (hC : Connected w) {env : SendEnv} (hS : Steady w.daemons env) :
    Delivers w data env := by
  rcases hC.stale_or with hstale | ⟨j, hpeer, hlive⟩
  · obtain ⟨k, hbound⟩ := hS.bound
    obtain ⟨fd, hfd⟩ := Option.isSome_iff_exists.mp hS.socket
    have hconn : Connects w.daemons env.init fd k :=
      ⟨hfd, hS.getFl, hS.setFl, hS.connectOk, hbound _ (List.prefix_append _ _)⟩
    have hopen := (hbound _ (List.prefix_refl _)).2
    rw [Delivers, hC.send_reconnects hstale hconn hopen, if_pos hS.resendOk]
    exact ⟨rfl, k, rfl⟩
  · rw [Delivers, hC.send_open hpeer hlive, if_pos hS.sendOk]
    exact ⟨rfl, j, rfl⟩

theorem Connected.recovers (hC : Connected w) : Recovers w := by
  intro es data env hS
  have hC' : Connected { w with daemons := w.daemons.events es } := ⟨hC.init, hC.sendFd, hC.peer⟩
  exact hC'.delivers hS

/-- What a daemon does when it starts. -/
def daemonStart : List DaemonEvent := [.unlink, .bind]

/-- What a daemon with socket `k` does when it stops. -/
def daemonStop (k : ℕ) : List DaemonEvent := [.close k, .unlink]

/-- System calls that succeed, with no step of a daemon in between. -/
def smoothEnv : SendEnv where
  sendOk := true
  init := { gap := [], socket := some 3, getFl := true, setFl := true, connectOk := true }
  gap := []
  resendOk := true

theorem steady_smoothEnv {d : Daemons} {k : ℕ} (h : d.BoundBy k) : Steady d smoothEnv := by
  refine ⟨⟨k, ?_⟩, rfl, rfl, rfl, rfl, rfl, rfl⟩
  intro es hes
  rw [List.prefix_nil.mp hes]
  exact h

/-- A stuck client does not deliver after the next start of the daemon. -/
theorem Stuck.not_recovers (hS : Stuck w) : ¬ Recovers w := by
  intro hrec
  have hbound : (w.daemons.events daemonStart).BoundBy w.daemons.next :=
    ⟨rfl, List.mem_cons_self⟩
  have hS' : Stuck { w with daemons := w.daemons.events daemonStart } := ⟨hS.init, hS.gone⟩
  have hok := (hrec daemonStart [] smoothEnv (steady_smoothEnv hbound)).1
  rcases hS'.send [] smoothEnv with heq | heq <;>
    · rw [heq] at hok
      cases hok

/-- The client is connected after a successful `SilogIpcClientInit`. -/
theorem connected_of_init {w₀ : World} {env : InitEnv}
    (hinit : silogIpcClientInit w env = (.ok, w₀)) : Connected w₀ := by
  unfold silogIpcClientInit at hinit
  split at hinit
  · cases hinit
  next hset =>
    by_cases hconn : ∃ fd k, Connects w.daemons env fd k
    · obtain ⟨fd, k, hconn⟩ := hconn
      rw [dgramClientInit_ok hconn] at hinit
      cases hinit
      exact ⟨by simpa using hset, Int.natCast_nonneg fd, k, Function.update_self _ _ _⟩
    · have hnone : ∀ fd k, ¬ Connects w.daemons env fd k := fun fd k h => hconn ⟨fd, k, h⟩
      obtain ⟨ret, hret, heq⟩ := dgramClientInit_error hnone
      rw [heq] at hinit
      cases hinit
      exact absurd rfl hret

/-- **Restarts of the daemon.** After a successful `SilogIpcClientInit`, the client
    recovers from what the daemons did in a run exactly when every call of the
    run that found its connection stale got a new one. -/
theorem recovers_iff_reconnects {w₀ w' : World} {env : InitEnv} {acts : List Act}
    (hinit : silogIpcClientInit { w with agent := silogIpcInit w.agent .unixDgram } env = (.ok, w₀))
    (hrun : Steps Step w₀ acts w') :
    Recovers w' ↔ Steps (Guarded Step Reconnects) w₀ acts w' := by
  have hC₀ := connected_of_init hinit
  constructor
  · intro hrec
    -- a run that breaks the condition ends stuck
    have hor := hrun.guarded_or (C := Reconnects) (I := fun w => Connected w ∨ Stuck w) (B := Stuck)
      (Or.inl hC₀) ?_ ?_ ?_
    · rcases hor with hguard | hstuck
      · exact hguard
      · exact absurd hrec hstuck.not_recovers
    · rintro w a w' rfl (hC | hS)
      · by_cases h : Reconnects w a
        · exact Or.inl (hC.act h)
        · cases a with
          | daemon e => exact absurd trivial h
          | send data env => exact Or.inr (hC.stuck_of_not_reconnects h)
      · exact Or.inr (hS.act a)
    · rintro w a w' rfl _ hS
      exact hS.act a
    · rintro w a w' rfl (hC | hS) h
      · cases a with
        | daemon e => exact absurd trivial h
        | send data env => exact hC.stuck_of_not_reconnects h
      · exact hS.act a
  · intro hguard
    refine Connected.recovers ?_
    refine hguard.invariant (I := Connected) ?_ hC₀
    rintro w a w' ⟨rfl, h⟩ hC
    exact hC.act h

/-- A daemon is bound, and nothing is connected. -/
def bootWorld : World where
  agent := .initial
  peer := fun _ => none
  daemons := { live := [0], path := some 0, next := 1 }
  delivered := []

/-- The client after `SilogIpcInit` and `SilogIpcClientInit`. -/
def readyWorld : World :=
  (silogIpcClientInit { bootWorld with agent := silogIpcInit bootWorld.agent .unixDgram }
    smoothEnv.init).2

theorem readyWorld_init :
    silogIpcClientInit { bootWorld with agent := silogIpcInit bootWorld.agent .unixDgram }
      smoothEnv.init = (.ok, readyWorld) := rfl

/-- The daemon restarts, and only then the client sends. -/
def restartRun : List Act :=
  (daemonStop 0 ++ daemonStart).map .daemon ++ [.send [7] smoothEnv]

theorem recovers_iff_reconnects_restart :
    Steps Step readyWorld restartRun (restartRun.foldl World.act readyWorld) ∧
    (restartRun.foldl World.act readyWorld).delivered = [(1, [7])] ∧
    Recovers (restartRun.foldl World.act readyWorld) := by
  have hrun : Steps Step readyWorld restartRun (restartRun.foldl World.act readyWorld) :=
    .cons _ _ rfl (.cons _ _ rfl (.cons _ _ rfl (.cons _ _ rfl (.cons _ _ rfl (.nil _)))))
  refine ⟨hrun, rfl, (recovers_iff_reconnects readyWorld_init hrun).mpr ?_⟩
  refine .cons _ _ ⟨rfl, trivial⟩ (.cons _ _ ⟨rfl, trivial⟩ (.cons _ _ ⟨rfl, trivial⟩
    (.cons _ _ ⟨rfl, trivial⟩ (.cons _ _ ⟨rfl, fun _ => ?_⟩ (.nil _)))))
  -- the new daemon's socket has number 1
  exact ⟨3, 1, ⟨rfl, rfl, rfl, rfl, by decide⟩, by decide⟩

/-- The client sends while no daemon is there, and once more when one is. -/
def outageRun : List Act :=
  (daemonStop 0).map .daemon ++ [.send [7] smoothEnv] ++ daemonStart.map .daemon

/-- With a daemon bound again and all system calls succeeding, `SilogIpcClientSend` still
    returns `SILOG_NET_FILE_ERROR` and delivers nothing. -/
theorem outageRun_stuck :
    silogIpcClientInit { bootWorld with agent := silogIpcInit bootWorld.agent .unixDgram }
      smoothEnv.init = (.ok, readyWorld) ∧
    Steps Step readyWorld outageRun (outageRun.foldl World.act readyWorld) ∧
    Steady (outageRun.foldl World.act readyWorld).daemons smoothEnv ∧
    (silogIpcClientSend (outageRun.foldl World.act readyWorld) [8] smoothEnv).1 = .netFileError ∧
    ¬ Delivers (outageRun.foldl World.act readyWorld) [8] smoothEnv := by
  have hbound : (outageRun.foldl World.act readyWorld).daemons.BoundBy 1 := by decide
  have hcode : (silogIpcClientSend (outageRun.foldl World.act readyWorld) [8] smoothEnv).1 =
      .netFileError := rfl
  refine ⟨rfl, ?_, steady_smoothEnv hbound, hcode, ?_⟩
  · exact .cons _ _ rfl (.cons _ _ rfl (.cons _ _ rfl (.cons _ _ rfl (.cons _ _ rfl (.nil _)))))
  · intro hdeliver
    rw [Delivers, hcode] at hdeliver
    exact nomatch hdeliver.1

end SiLog.Ipc
