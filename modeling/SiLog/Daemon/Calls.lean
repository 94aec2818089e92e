import SiLog.Daemon.Serving

/-! # What the calls of the service find

    The results about the remote service inside the daemon, over every run of
    `SilogDaemonInit` and `SilogDaemonDeinit` with the threads interleaved: every
    access to the client table finds it, a `Broadcast` closes only the
    connection on which its own `send` failed, and every socket is accounted
    for at every moment.
-/

open Lts Ledger

namespace SiLog.Daemon.Service

/-- The step reads or writes `clients[i]` for some `i`. -/
def Accesses (s : State) : Act → Prop
  | .serve a => Remote.Accesses s.remote a
  | .undo | .deinit => Remote.Accesses s.remote (.deinit .main)
  | _ => False

/-! ## Section 1: Access to the table -/

section access
variable {s s' : State} {acts : List Act}

theorem inv_of_run (hrun : Steps Step State.initial acts s) : Inv s :=
  hrun.invariant (fun _ _ _ hstep hI => Inv.step hI hstep) inv_initial

/-- The service is up in every step that gets to the table. -/
theorem Inv.up_of_accesses (hI : Inv s) {a : Act} (hstep : Step s a s') (hacc : Accesses s a) :
    s.mode = .up := by
  unfold Step Service.step at hstep
  cases a with
  | serve a =>
    dsimp only at hstep
    split at hstep
    · next hin =>
      obtain ⟨t, _, hin⟩ := (Option.any_eq_true _ _).mp hin
      exact hI.control.up_of_inside hin
    · cases hstep
  | undo =>
    dsimp only at hstep
    split at hstep
    · next hmain => simp [State.mode, hmain]
    · cases hstep
  | deinit =>
    dsimp only at hstep
    split at hstep
    · next hmain => simp [State.mode, hmain]
    · cases hstep
  | _ => exact hacc.elim

/-- **Access to the table.** In every run of the daemon every access to the client table
    finds it allocated, and `SilogRemoteDeinit` is called only when no other thread
    is in a call of the service. -/
theorem table_allocated (hrun : Steps Step State.initial acts s) :
    (∀ a s', Step s a s' → Accesses s a → s.remote.server.mgr.clients.isSome) ∧
    (∀ s', Step s .undo s' ∨ Step s .deinit s' → ∀ t, s.remote.pc t = .idle) := by
  have hI := inv_of_run hrun
  constructor
  · intro a s' hstep hacc
    have hservice := hI.service
    rw [hI.up_of_accesses hstep hacc] at hservice
    exact hservice.1.flight.table
  · intro s' hstep
    have hmain : s.main = .undo ∨ s.main = .deinit := by
      rcases hstep with h | h <;> simp only [Step, Service.step] at h <;> split at h
      · next hmain => exact Or.inl hmain
      · cases h
      · next hmain => exact Or.inr hmain
      · cases h
    rcases hmain with hmain | hmain
    · exact (hI.quiet_between (Or.inl (by rw [hmain]; rfl)) (by rw [hmain]; simp)
        (by rw [hmain]; simp)).1
    · exact (hI.quiet_between (Or.inr (by rw [hmain]; rfl)) (by rw [hmain]; simp)
        (by rw [hmain]; simp)).1

end access

/-- A start in which everything succeeds. -/
def startRun : List Act :=
  [.daemon .callInit, .daemon (.initFileManager .ok), .daemon (.initQueue .ok),
   .daemon (.createRecv true), .daemon (.createWrite true),
   .remoteInit { malloc := true, socket := some 3, bind := true, listen := true, getFl := true,
                 setFl := true },
   .publish, .storeRunning, .createRemote true, .enable, .daemon .storeRunning]

/-- `accept` hands out descriptor 4. -/
def acceptRun : List Act :=
  startRun ++ [.acceptTest 0, .accept 0, .serve (.acceptCall (.remote 0) (.connection 4))]

/-- The write thread sends to the client, and the `send` fails. -/
def sendRun : List Act :=
  acceptRun ++ [.serve (.acceptLock (.remote 0) true true), .leaveAccept 0, .daemon (.thread 1),
    .testEnabled 1 (Remote.sampleEntry 0), .broadcast 1, .serve (.broadcastLock (.write 1)),
    .serve (.send (.write 1) .failed)]

@[irreducible] def sendFailed : State :=
  (exec step State.initial sendRun).get (by decide +kernel)

theorem sendFailed_run : Steps Step State.initial sendRun sendFailed := by
  unfold sendFailed
  exact steps_of_exec (fun _ _ _ h => h) (Option.some_get (by decide +kernel)).symm

theorem table_allocated_sendFailed :
    Accesses sendFailed (.serve (.relock (.write 1))) ∧
    sendFailed.remote.server.mgr.clients.isSome := by
  have hsome : (step sendFailed (.serve (.relock (.write 1)))).isSome := by decide +kernel
  obtain ⟨s', hs'⟩ := Option.isSome_iff_exists.mp hsome
  have hacc : Accesses sendFailed (.serve (.relock (.write 1))) := by
    show Remote.Reaches sendFailed.remote.server.mgr (sendFailed.remote.pc (.write 1))
    decide +kernel
  exact ⟨hacc, (table_allocated sendFailed_run).1 _ s' hs' hacc⟩

/-! ## Section 2: The connection that is closed -/

section closed
variable {s s' : State} {acts : List Act}

/-- **The connection closed.** In every run of the daemon a `Broadcast` that comes back
    from a `send`, whatever it returned, finds the connection of that `send` in the
    slot, still open; so what it closes is the connection that failed. -/
theorem broadcast_keeps_slot (hrun : Steps Step State.initial acts s) {t : Caller} {i : ℕ}
    {ret : ErrorCode} {conn : Option Remote.Connection} {buf : List UInt8}
    (hpc : s.remote.pc t = .sent i ret conn buf) :
    (s.remote.server.mgr.client i).active ∧ conn.isSome ∧
    conn = s.remote.server.kernel.connection (s.remote.server.mgr.client i).fd := by
  have hI := inv_of_run hrun
  have hin : s.isInside t := by
    by_contra hout
    rw [hI.outside t (by simpa using hout)] at hpc
    cases hpc
  have hservice := hI.service
  rw [hI.control.up_of_inside hin] at hservice
  obtain ⟨hL, hK⟩ := hservice
  have hkeeps := hK t
  rw [hpc] at hkeeps
  obtain ⟨hact, hconn⟩ := hkeeps
  refine ⟨hact, ?_, hconn⟩
  rw [hconn, Remote.Sockets.connection, if_pos (hL.flight.slots.opened i hact).2]
  rfl

end closed

/-- The slot that a call of `Broadcast` comes back to, with what its `send` returned. -/
def sentTo : Remote.Pc → Option (ℕ × ErrorCode)
  | .sent i ret _ _ => some (i, ret)
  | _ => none

theorem broadcast_keeps_slot_sendFailed :
    ∃ conn buf, sendFailed.remote.pc (.write 1) = .sent 0 .netFileError conn buf ∧
      (sendFailed.remote.server.mgr.client 0).active ∧ conn.isSome ∧
      conn = sendFailed.remote.server.kernel.connection
        (sendFailed.remote.server.mgr.client 0).fd := by
  have hsent : sentTo (sendFailed.remote.pc (.write 1)) = some (0, .netFileError) := by
    decide +kernel
  cases hpc : sendFailed.remote.pc (.write 1) with
  | sent i ret conn buf =>
    rw [hpc] at hsent
    cases hsent
    exact ⟨conn, buf, rfl, broadcast_keeps_slot sendFailed_run hpc⟩
  | _ =>
    rw [hpc] at hsent
    cases hsent

/-! ## Section 3: The sockets -/

section sockets
variable {s s' : State} {acts : List Act}

/-- What holds of the sockets at every moment. -/
structure SocketsAccounted (s : State) : Prop where
  count    : s.remote.server.mgr.clientCount.toNat = (Remote.activeSlots s.remote.server.mgr).card
  bound    : s.remote.server.mgr.clientCount ≤ s.remote.server.mgr.maxClients
  /-- An open socket is the listening one, or in one slot, or with one call of `Accept`. -/
  held     : ∀ fd ∈ s.remote.server.kernel.opened, ∃! h, Remote.Holds s.remote fd h
  /-- Each time a descriptor was obtained it was closed exactly once since, or it was
      not closed and is open. -/
  obtained : ∀ earlier fd later, s.remote.server.kernel.log = earlier ++ .acquired fd :: later →
    releases fd later = 1 ∨ (releases fd later = 0 ∧ fd ∈ s.remote.server.kernel.opened)
  /-- Nothing is closed that was not obtained. -/
  closed   : ∀ earlier fd later, s.remote.server.kernel.log = earlier ++ .released fd :: later →
    Event.acquired fd ∈ earlier
  stopped  : s.daemon.main = .stopped → s.remote.server.kernel.opened = []

/-- Before a start and after `SilogDaemonDeinit` the service is down. -/
theorem Inv.mode_of_stopped (hI : Inv s) (hmain : s.daemon.main = .stopped) : s.mode = .down := by
  have hC := hI.control
  have hoff := hC.crew.not_enabled (by rw [hmain]; rfl)
  unfold State.mode
  cases hpc : s.main with
  | out => simp [hoff]
  | disable => rfl
  | _ =>
    first
    | have hs := (hC.starting (by rw [hpc]; rfl)).1; rw [hmain] at hs; cases hs
    | have hs := (hC.stopping (by rw [hpc]; rfl)).1; rw [hmain] at hs; cases hs

/-- What the ledger says, from its being in order. -/
theorem accounted_of_books {server : Remote.Server}
    (hcount : server.mgr.clientCount.toNat = (Remote.activeSlots server.mgr).card)
    (hbooks : Balanced server.kernel.log server.kernel.opened)
    (hserver : s.remote.server = server)
    (hheld : ∀ fd ∈ server.kernel.opened, ∃! h, Remote.Holds s.remote fd h)
    (hstopped : s.daemon.main = .stopped → server.kernel.opened = []) : SocketsAccounted s := by
  subst hserver
  refine ⟨hcount, ?_, hheld, ?_, ?_, hstopped⟩
  · rw [UInt32.le_iff_toNat_le, hcount]
    exact (Finset.card_filter_le _ _).trans (Finset.card_range _).le
  · intro earlier fd later hlog
    rw [hlog] at hbooks
    rcases hbooks.exactly_once with ⟨hone, _⟩ | ⟨hnone, _, hopen⟩
    · exact Or.inl hone
    · exact Or.inr ⟨hnone, hopen⟩
  · intro earlier fd later hlog
    rw [hlog] at hbooks
    exact hbooks.acquired_before

/-- **Accounting of the sockets.** In every run of the daemon, at every moment, the count
    of clients is that of the slots in use, every open socket has one holder,
    every socket obtained was closed exactly once or is open, and none is open
    before a start, after a failed one and after `SilogDaemonDeinit`. -/
theorem sockets_accounted (hrun : Steps Step State.initial acts s) : SocketsAccounted s := by
  have hI := inv_of_run hrun
  have hservice := hI.service
  cases hmode : s.mode with
  | down =>
    rw [hmode] at hservice
    obtain ⟨hoff, hA⟩ := hservice
    have hempty := hA.opened_of_off hoff
    apply accounted_of_books hA.count hA.books rfl _ fun _ => hempty
    intro fd hfd
    rw [hempty] at hfd
    cases hfd
  | publishing =>
    rw [hmode] at hservice
    have hA : Remote.Accounts (setInit s.remote.server true) := hservice
    have hmain : s.main = .publish := by
      unfold State.mode at hmode
      split at hmode
      · next hmain => exact hmain
      · cases hmode
      · split at hmode <;> cases hmode
      · cases hmode
    obtain ⟨hidle, _⟩ := hI.quiet_between (Or.inl (by rw [hmain]; rfl)) (by rw [hmain]; simp)
      (by rw [hmain]; simp)
    -- the same service, but for the flag
    have hL : Remote.LiveAccounts { s.remote with server := setInit s.remote.server true } := by
      apply Remote.Accounts.live hA rfl
      intro t
      show Remote.inFlight (s.remote.pc t) = none
      rw [hidle]
      rfl
    have hholds : ∀ fd h, Remote.Holds { s.remote with server := setInit s.remote.server true } fd h ↔
        Remote.Holds s.remote fd h := by
      intro fd h
      cases h <;> exact Iff.rfl
    have hcount : s.remote.server.mgr.clientCount.toNat =
        (Remote.activeSlots s.remote.server.mgr).card := hA.count
    apply accounted_of_books hcount hA.books rfl
    · intro fd hfd
      have hone := hL.holder hfd
      simpa only [hholds] using hone
    · intro hstopped
      have hdown := hI.mode_of_stopped hstopped
      rw [hmode] at hdown
      cases hdown
  | up =>
    rw [hmode] at hservice
    obtain ⟨hL, _⟩ := hservice
    obtain ⟨k, hA, _, _⟩ := hL.settled
    have hcount : s.remote.server.mgr.clientCount.toNat =
        (Remote.activeSlots s.remote.server.mgr).card := hA.count
    apply accounted_of_books hcount hL.books rfl
    · intro fd hfd
      exact hL.holder hfd
    · intro hstopped
      have hdown := hI.mode_of_stopped hstopped
      rw [hmode] at hdown
      cases hdown

end sockets

@[irreducible] def accepted : State :=
  (exec step State.initial acceptRun).get (by decide +kernel)

theorem accepted_run : Steps Step State.initial acceptRun accepted := by
  unfold accepted
  exact steps_of_exec (fun _ _ _ h => h) (Option.some_get (by decide +kernel)).symm

/-- Descriptor 4 is in no slot yet. -/
theorem sockets_accounted_accepted :
    accepted.remote.server.kernel.opened = [4, 3] ∧
    Remote.activeSlots accepted.remote.server.mgr = ∅ ∧ SocketsAccounted accepted := by
  refine ⟨by decide +kernel, by decide +kernel, sockets_accounted accepted_run⟩

end SiLog.Daemon.Service
