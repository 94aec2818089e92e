import SiLog.Remote.Accounting

/-! # The remote log service with several threads

    `Broadcast`, `Accept` and `Deinit` are called from different threads.
    The lock of the manager protects the table, but not all of a call:
    `Broadcast` tests `isInit` before it takes the lock, gives the lock up
    for every `send` and takes it again afterwards with the slot number it
    remembers; `Accept` tests `isInit` and calls `accept` before it takes the
    lock.

    Each stretch of code under the lock is one step here, and so is each
    test of `isInit`, each `send`, each `accept` and each `close` outside the
    lock.  What the calls return to their callers is left out; the functions
    that run one at a time have it.
-/

open Lts Ledger

namespace SiLog.Remote

/-! ## Section 1: State -/

/-- A connection: the descriptor and how many times it has been handed out. -/
abbrev Connection : Type := ℤ × ℕ

/-- The connection behind a descriptor, if it is open. -/
def Sockets.connection (k : Sockets) (fd : ℤ) : Option Connection :=
  if fd ∈ k.opened then some (fd, k.log.count (.acquired fd)) else none

/-- Where a thread is. -/
inductive Pc where
  | idle
  /-- `Broadcast` has found `isInit` set; the lock is next. -/
  | broadcast (entry : LogEntry)
  /-- `Broadcast` sends to slot `i` without the lock; `rest` of `buf` is left. -/
  | sending (i : ℕ) (fd : ℤ) (rest buf : List UInt8)
  /-- `SilogRemoteSendFull` has returned `ret`; the lock is next.  `conn` is the
      connection of the last `send` (which no function reads). -/
  | sent (i : ℕ) (ret : ErrorCode) (conn : Option Connection) (buf : List UInt8)
  /-- `Accept` has found `isInit` set; `accept` is next. -/
  | accepting
  /-- `accept` has returned `fd`; the lock is next. -/
  | accepted (fd : ℤ)
  /-- The lock is given up again; `close(fd)` is next. -/
  | rejecting (fd : ℤ)

/-- The service and its threads `τ`. -/
structure System (τ : Type*) where
  server : Server
  pc     : τ → Pc

/-- The service with no call in progress. -/
def System.start {τ : Type*} (s : Server) : System τ := { server := s, pc := fun _ => .idle }

/-! ## Section 2: The stretches under the lock -/

/-- The first slot from `k` on that the loop of `Broadcast` does not skip. -/
def nextClient (m : SilogRemoteManager) (k : ℕ) : Option ℕ :=
  (List.range' k (m.maxClients.toNat - k)).find? fun i =>
    (m.client i).active && decide (0 ≤ (m.client i).fd)

/-- The loop of `Broadcast` from slot `k` on, up to where it gives the lock up. -/
def broadcastFrom (m : SilogRemoteManager) (buf : List UInt8) (k : ℕ) : Pc :=
  match nextClient m k with
  | some i => .sending i (m.client i).fd buf buf
  | none => .idle

/-- The first stretch of `Broadcast`. -/
def broadcastLocked (m : SilogRemoteManager) (e : LogEntry) : Pc :=
  if m.clientCount = 0 then .idle
  else match silogRemoteSerializeEntry e (some (List.replicate entrySize 0)) (some 0) with
    | (some buf, some bufLen) => if bufLen = 0 then .idle else broadcastFrom m (buf.take bufLen) 0
    | _ => .idle

/-- A result of `SilogRemoteSendFull` on which `Broadcast` closes the client. -/
def SendFailed (ret : ErrorCode) : Prop := ret ≠ .ok ∧ ret ≠ .netTimeout

instance (ret : ErrorCode) : Decidable (SendFailed ret) :=
  inferInstanceAs (Decidable (_ ∧ _))

/-- The start of the stretch after a `send`: a client that failed is closed. -/
def afterSend (s : Server) (i : ℕ) (ret : ErrorCode) : Server :=
  if SendFailed ret then silogRemoteCloseClientInternal s i else s

/-- The stretch of `Accept`; `none` if the connection is turned away. -/
def acceptLocked (s : Server) (fd : ℤ) (getFl setFl : Bool) : Option Server :=
  if s.mgr.maxClients ≤ s.mgr.clientCount then none
  else match silogRemoteFindFreeSlot s.mgr with
    | none => none
    | some slot =>
      if silogRemoteSetNonblock getFl setFl ≠ .ok then none
      else some { s with
        mgr := { s.mgr.setClient slot { fd := fd, active := true } with
                 clientCount := s.mgr.clientCount + 1 } }

/-! ## Section 3: Steps -/

/-- A step of a thread, with what its system calls return. -/
inductive Act (τ : Type*) where
  | broadcast     : τ → Option LogEntry → Act τ
  | broadcastLock : τ → Act τ
  | send          : τ → SendResult → Act τ
  | relock        : τ → Act τ
  | accept        : τ → Act τ
  | acceptCall    : τ → AcceptResult → Act τ
  | acceptLock    : τ → Bool → Bool → Act τ
  | acceptClose   : τ → Act τ
  | deinit        : τ → Act τ

/-- The step is the one of `Deinit`. -/
def Act.isDeinit {τ : Type*} : Act τ → Bool
  | .deinit _ => true
  | _ => false

/-- A `send` of the rest of the buffer; on a descriptor that is not open it fails. -/
def sendStep (k : Sockets) (i : ℕ) (fd : ℤ) (rest buf : List UInt8) :
    SendResult → Option (Sockets × Pc)
  | .accepted n =>
    if fd ∈ k.opened then
      let left := rest.drop (n + 1)
      some (k.push fd (rest.take (n + 1)),
        if left = [] then .sent i .ok (k.connection fd) buf else .sending i fd left buf)
    else none
  | .wouldBlock =>
    if fd ∈ k.opened then some (k, .sent i .netTimeout (k.connection fd) buf) else none
  | .zero =>
    if fd ∈ k.opened then some (k, .sent i .netFileError (k.connection fd) buf) else none
  | .failed => some (k, .sent i .netFileError (k.connection fd) buf)

section steps
variable {τ : Type*} [DecidableEq τ]

/-- Thread `t` goes to `pc` and the service becomes `server`. -/
def System.move (s : System τ) (t : τ) (server : Server) (pc : Pc) : System τ :=
  { server := server, pc := Function.update s.pc t pc }

/-- The state after a step, if it is enabled. -/
def System.next (s : System τ) : Act τ → Option (System τ)
  | .broadcast t entry =>
    match s.pc t with
    | .idle =>
      some (s.move t s.server (if s.server.mgr.isInit = false then .idle else match entry with
        | none => .idle
        | some e => .broadcast e))
    | _ => none
  | .broadcastLock t =>
    match s.pc t with
    | .broadcast e => some (s.move t s.server (broadcastLocked s.server.mgr e))
    | _ => none
  | .send t r =>
    match s.pc t with
    | .sending i fd rest buf =>
      (sendStep s.server.kernel i fd rest buf r).map fun x =>
        s.move t { s.server with kernel := x.1 } x.2
    | _ => none
  | .relock t =>
    match s.pc t with
    | .sent i ret _ buf =>
      let server := afterSend s.server i ret
      some (s.move t server (broadcastFrom server.mgr buf (i + 1)))
    | _ => none
  | .accept t =>
    match s.pc t with
    | .idle =>
      some (s.move t s.server (if s.server.mgr.isInit = false then .idle else .accepting))
    | _ => none
  | .acceptCall t r =>
    match s.pc t with
    | .accepting =>
      match r with
      -- on a listening socket that was closed `accept` fails
      | .connection fd =>
        if s.server.mgr.listenFd ∈ s.server.kernel.opened ∧ 0 ≤ fd ∧
            fd ∉ s.server.kernel.opened then
          some (s.move t { s.server with kernel := s.server.kernel.open fd } (.accepted fd))
        else none
      | .wouldBlock => some (s.move t s.server .idle)
      | .failed => some (s.move t s.server .idle)
    | _ => none
  | .acceptLock t getFl setFl =>
    match s.pc t with
    | .accepted fd =>
      match acceptLocked s.server fd getFl setFl with
      | none => some (s.move t s.server (.rejecting fd))
      | some server => some (s.move t server .idle)
    | _ => none
  | .acceptClose t =>
    match s.pc t with
    | .rejecting fd =>
      some (s.move t { s.server with kernel := s.server.kernel.close fd } .idle)
    | _ => none
  | .deinit t =>
    match s.pc t with
    | .idle => some (s.move t (silogRemoteDeinit s.server) .idle)
    | _ => none

/-- The transition relation. -/
def ThreadStep (s : System τ) (a : Act τ) (s' : System τ) : Prop := s.next a = some s'

@[simp] theorem move_server (s : System τ) (t : τ) (server : Server) (pc : Pc) :
    (s.move t server pc).server = server := rfl

@[simp] theorem move_pc_self (s : System τ) (t : τ) (server : Server) (pc : Pc) :
    (s.move t server pc).pc t = pc := by
  simp [System.move]

theorem move_pc_of_ne (s : System τ) {t t' : τ} (server : Server) (pc : Pc) (hne : t' ≠ t) :
    (s.move t server pc).pc t' = s.pc t' := by
  simp [System.move, hne]

/-! ## Section 4: What each step can do -/

section inversion
variable {s s' : System τ} {t : τ}

theorem step_broadcast {entry : Option LogEntry} (h : ThreadStep s (.broadcast t entry) s') :
    s.pc t = .idle ∧ ∃ pc, s' = s.move t s.server pc ∧ (pc = .idle ∨ ∃ e, pc = .broadcast e) := by
  simp only [ThreadStep, System.next] at h
  split at h
  · next hpc =>
    refine ⟨hpc, _, (Option.some.inj h).symm, ?_⟩
    split
    · exact Or.inl rfl
    · cases entry with
      | none => exact Or.inl rfl
      | some e => exact Or.inr ⟨e, rfl⟩
  · cases h

theorem step_broadcastLock (h : ThreadStep s (.broadcastLock t) s') :
    ∃ e, s.pc t = .broadcast e ∧ s' = s.move t s.server (broadcastLocked s.server.mgr e) := by
  simp only [ThreadStep, System.next] at h
  split at h
  · next e hpc => exact ⟨e, hpc, (Option.some.inj h).symm⟩
  · cases h

/-- The first stretch of `Broadcast` returns at once or begins its loop. -/
theorem broadcastLocked_cases (m : SilogRemoteManager) (e : LogEntry) :
    broadcastLocked m e = .idle ∨
    (m.clientCount ≠ 0 ∧ ∃ buf, broadcastLocked m e = broadcastFrom m buf 0) := by
  unfold broadcastLocked
  split
  · exact Or.inl rfl
  · next hcount =>
    split
    · split
      · exact Or.inl rfl
      · exact Or.inr ⟨hcount, _, rfl⟩
    · exact Or.inl rfl

theorem broadcastFrom_cases (m : SilogRemoteManager) (buf : List UInt8) (k : ℕ) :
    broadcastFrom m buf k = .idle ∨
    ∃ i, k ≤ i ∧ i < m.maxClients.toNat ∧ (m.client i).active ∧
      broadcastFrom m buf k = .sending i (m.client i).fd buf buf := by
  unfold broadcastFrom
  cases hnext : nextClient m k with
  | none => exact Or.inl rfl
  | some i =>
    obtain ⟨hlo, hhi⟩ := List.mem_range'_1.mp (List.mem_of_find?_eq_some hnext)
    have hact := List.find?_some hnext
    rw [Bool.and_eq_true] at hact
    exact Or.inr ⟨i, hlo, by omega, hact.1, rfl⟩

theorem step_send {r : SendResult} (h : ThreadStep s (.send t r) s') :
    ∃ i fd rest buf k pc, s.pc t = .sending i fd rest buf ∧
      s' = s.move t { s.server with kernel := k } pc ∧
      k.opened = s.server.kernel.opened ∧ k.log = s.server.kernel.log ∧
      ((∃ left, pc = .sending i fd left buf) ∨
        ∃ ret, pc = .sent i ret (s.server.kernel.connection fd) buf) := by
  simp only [ThreadStep, System.next] at h
  split at h
  · next i fd rest buf hpc =>
    obtain ⟨x, hx, rfl⟩ := Option.map_eq_some_iff.mp h
    refine ⟨i, fd, rest, buf, x.1, x.2, hpc, rfl, ?_⟩
    cases r with
    | accepted n =>
      simp only [sendStep] at hx
      split at hx
      · cases hx
        refine ⟨rfl, rfl, ?_⟩
        dsimp only
        split
        · exact Or.inr ⟨_, rfl⟩
        · exact Or.inl ⟨_, rfl⟩
      · cases hx
    | wouldBlock =>
      simp only [sendStep] at hx
      split at hx <;> cases hx
      exact ⟨rfl, rfl, Or.inr ⟨_, rfl⟩⟩
    | zero =>
      simp only [sendStep] at hx
      split at hx <;> cases hx
      exact ⟨rfl, rfl, Or.inr ⟨_, rfl⟩⟩
    | failed =>
      cases hx
      exact ⟨rfl, rfl, Or.inr ⟨_, rfl⟩⟩
  · cases h

theorem step_relock (h : ThreadStep s (.relock t) s') :
    ∃ i ret conn buf, s.pc t = .sent i ret conn buf ∧
      s' = s.move t (afterSend s.server i ret)
        (broadcastFrom (afterSend s.server i ret).mgr buf (i + 1)) := by
  simp only [ThreadStep, System.next] at h
  split at h
  · next i ret conn buf hpc => exact ⟨i, ret, conn, buf, hpc, (Option.some.inj h).symm⟩
  · cases h

theorem step_accept (h : ThreadStep s (.accept t) s') :
    s.pc t = .idle ∧ ∃ pc, s' = s.move t s.server pc ∧ (pc = .idle ∨ pc = .accepting) := by
  simp only [ThreadStep, System.next] at h
  split at h
  · next hpc =>
    refine ⟨hpc, _, (Option.some.inj h).symm, ?_⟩
    split
    · exact Or.inl rfl
    · exact Or.inr rfl
  · cases h

theorem step_acceptCall {r : AcceptResult} (h : ThreadStep s (.acceptCall t r) s') :
    s.pc t = .accepting ∧
    (s' = s.move t s.server .idle ∨
      ∃ fd, s.server.mgr.listenFd ∈ s.server.kernel.opened ∧ 0 ≤ fd ∧
        fd ∉ s.server.kernel.opened ∧
        s' = s.move t { s.server with kernel := s.server.kernel.open fd } (.accepted fd)) := by
  simp only [ThreadStep, System.next] at h
  split at h
  · next hpc =>
    refine ⟨hpc, ?_⟩
    cases r with
    | connection fd =>
      dsimp only at h
      split at h
      · next hok => exact Or.inr ⟨fd, hok.1, hok.2.1, hok.2.2, (Option.some.inj h).symm⟩
      · cases h
    | wouldBlock => exact Or.inl (Option.some.inj h).symm
    | failed => exact Or.inl (Option.some.inj h).symm
  · cases h

theorem acceptLocked_some {server server' : Server} {fd : ℤ} {getFl setFl : Bool}
    (h : acceptLocked server fd getFl setFl = some server') :
    server.mgr.clientCount < server.mgr.maxClients ∧
    ∃ slot, silogRemoteFindFreeSlot server.mgr = some slot ∧
      server' = { server with
        mgr := { server.mgr.setClient slot { fd := fd, active := true } with
                 clientCount := server.mgr.clientCount + 1 } } := by
  unfold acceptLocked at h
  split at h
  · cases h
  · next hroom =>
    split at h
    · cases h
    · next slot hslot =>
      split at h
      · cases h
      · exact ⟨UInt32.not_le.mp hroom, slot, hslot, (Option.some.inj h).symm⟩

theorem step_acceptLock {getFl setFl : Bool} (h : ThreadStep s (.acceptLock t getFl setFl) s') :
    ∃ fd, s.pc t = .accepted fd ∧
      ((acceptLocked s.server fd getFl setFl = none ∧ s' = s.move t s.server (.rejecting fd)) ∨
       ∃ server, acceptLocked s.server fd getFl setFl = some server ∧
        s' = s.move t server .idle) := by
  simp only [ThreadStep, System.next] at h
  split at h
  · next fd hpc =>
    refine ⟨fd, hpc, ?_⟩
    split at h
    · next hnone => exact Or.inl ⟨hnone, (Option.some.inj h).symm⟩
    · next server hsome => exact Or.inr ⟨server, hsome, (Option.some.inj h).symm⟩
  · cases h

theorem step_acceptClose (h : ThreadStep s (.acceptClose t) s') :
    ∃ fd, s.pc t = .rejecting fd ∧
      s' = s.move t { s.server with kernel := s.server.kernel.close fd } .idle := by
  simp only [ThreadStep, System.next] at h
  split at h
  · next fd hpc => exact ⟨fd, hpc, (Option.some.inj h).symm⟩
  · cases h

theorem step_deinit (h : ThreadStep s (.deinit t) s') :
    s.pc t = .idle ∧ s' = s.move t (silogRemoteDeinit s.server) .idle := by
  simp only [ThreadStep, System.next] at h
  split at h
  · next hpc => exact ⟨hpc, (Option.some.inj h).symm⟩
  · cases h

/-- A `send` may fail, whatever the descriptor. -/
theorem enabled_send_failed {i : ℕ} {fd : ℤ} {rest buf : List UInt8}
    (hpc : s.pc t = .sending i fd rest buf) :
    ThreadStep s (.send t .failed)
      (s.move t s.server (.sent i .netFileError (s.server.kernel.connection fd) buf)) := by
  simp only [ThreadStep, System.next, hpc, sendStep, Option.map_some]

theorem enabled_relock {i : ℕ} {ret : ErrorCode} {conn : Option Connection} {buf : List UInt8}
    (hpc : s.pc t = .sent i ret conn buf) :
    ThreadStep s (.relock t) (s.move t (afterSend s.server i ret)
      (broadcastFrom (afterSend s.server i ret).mgr buf (i + 1))) := by
  simp only [ThreadStep, System.next, hpc]

end inversion

/-! ## Section 5: A call that runs alone

    The functions that run one at a time are the steps of one thread taken in
    a row. -/

section alone
variable {s : System τ} {t : τ}

@[simp] theorem move_move (server server' : Server) (pc pc' : Pc) :
    (s.move t server pc).move t server' pc' = s.move t server' pc' := by
  simp [System.move]

theorem move_self {pc : Pc} (hpc : s.pc t = pc) : s.move t s.server pc = s := by
  simp [System.move, ← hpc]

theorem steps_acceptAlone {result : AcceptResult} (getFl setFl : Bool) (hidle : s.pc t = .idle)
    (hfresh : ∀ fd, result = .connection fd → s.server.mgr.listenFd ∈ s.server.kernel.opened ∧
      0 ≤ fd ∧ fd ∉ s.server.kernel.opened) :
    ∃ acts, Steps ThreadStep s acts
      (s.move t (silogRemoteAccept s.server result getFl setFl).2 .idle) := by
  have hstay : s.move t s.server .idle = s := move_self hidle
  unfold silogRemoteAccept
  by_cases hinit : s.server.mgr.isInit = false
  · rw [if_pos hinit, hstay]
    exact ⟨[], Steps.nil s⟩
  · rw [if_neg hinit]
    have henter : ThreadStep s (.accept t) (s.move t s.server .accepting) := by
      simp only [ThreadStep, System.next, hidle]
      rw [if_neg hinit]
    cases result with
    | wouldBlock =>
      refine ⟨_, Steps.cons _ _ henter (Steps.single (a := .acceptCall t .wouldBlock) ?_)⟩
      simp only [ThreadStep, System.next, move_pc_self, move_server, move_move]
    | failed =>
      refine ⟨_, Steps.cons _ _ henter (Steps.single (a := .acceptCall t .failed) ?_)⟩
      simp only [ThreadStep, System.next, move_pc_self, move_server, move_move]
    | connection fd =>
      obtain ⟨server, hserver⟩ : ∃ x : Server,
          x = { s.server with kernel := s.server.kernel.open fd } := ⟨_, rfl⟩
      have hcall : ThreadStep (s.move t s.server .accepting) (.acceptCall t (.connection fd))
          (s.move t server (.accepted fd)) := by
        simp only [ThreadStep, System.next, move_pc_self, move_server, if_pos (hfresh fd rfl),
          move_move, ← hserver]
      have hreject : acceptLocked server fd getFl setFl = none →
          ∃ acts, Steps ThreadStep s acts
            (s.move t { server with kernel := server.kernel.close fd } .idle) := by
        intro hnone
        have hlock : ThreadStep (s.move t server (.accepted fd)) (.acceptLock t getFl setFl)
            (s.move t server (.rejecting fd)) := by
          simp only [ThreadStep, System.next, move_pc_self, move_server, hnone, move_move]
        have hclose : ThreadStep (s.move t server (.rejecting fd)) (.acceptClose t)
            (s.move t { server with kernel := server.kernel.close fd } .idle) := by
          simp only [ThreadStep, System.next, move_pc_self, move_server, move_move]
        exact ⟨_, Steps.cons _ _ henter (Steps.cons _ _ hcall
          (Steps.cons _ _ hlock (Steps.single hclose)))⟩
      rw [hserver] at hreject
      dsimp only
      -- the ways out of the stretch under the lock
      split
      · next hfull => exact hreject (if_pos hfull)
      · next hroom =>
        split
        · next hnone => exact hreject (by simp [acceptLocked, hnone])
        · next slot hslot =>
          split
          · next hfl => exact hreject (by simp [acceptLocked, hslot, hfl])
          · next hfl =>
            refine ⟨_, Steps.cons _ _ henter (Steps.cons _ _ hcall
              (Steps.single (a := .acceptLock t getFl setFl) ?_))⟩
            have hlocked : acceptLocked server fd getFl setFl = some { server with
                mgr := { s.server.mgr.setClient slot { fd := fd, active := true } with
                         clientCount := s.server.mgr.clientCount + 1 } } := by
              simp [acceptLocked, hserver, hroom, hslot, hfl]
            simp only [ThreadStep, System.next, move_pc_self, move_server, hlocked, move_move]
            rw [hserver]

theorem push_nil (k : Sockets) (fd : ℤ) : k.push fd [] = k := by
  simp [Sockets.push]

theorem push_push (k : Sockets) (fd : ℤ) (a b : List UInt8) :
    (k.push fd a).push fd b = k.push fd (a ++ b) := by
  simp [Sockets.push]

/-- `SilogRemoteSendFull`, one `send` after the other. -/
theorem steps_sendLoop {server : Server} {i : ℕ} {fd : ℤ} (buf : List UInt8)
    (hopen : fd ∈ server.kernel.opened) {fuel : ℕ} (results : ℕ → SendResult) {rest : List UInt8}
    (hne : rest ≠ []) (hfuel : rest.length ≤ fuel) :
    ∃ acts conn, Steps ThreadStep (s.move t server (.sending i fd rest buf)) acts
      (s.move t { server with kernel := server.kernel.push fd (sendLoop fuel results rest).1 }
        (.sent i (sendLoop fuel results rest).2 conn buf)) := by
  induction fuel generalizing server results rest with
  | zero =>
    have hlen : rest.length = 0 := Nat.le_zero.mp hfuel
    exact absurd (List.eq_nil_of_length_eq_zero hlen) hne
  | succ fuel ih =>
    rw [sendLoop, if_neg hne]
    have hlast : ∀ (r : SendResult) (ret : ErrorCode) (k : Sockets) (conn : Option Connection),
        sendStep server.kernel i fd rest buf r = some (k, .sent i ret conn buf) →
        Steps ThreadStep (s.move t server (.sending i fd rest buf)) [.send t r]
          (s.move t { server with kernel := k } (.sent i ret conn buf)) := by
      intro r ret k conn hr
      refine Steps.single ?_
      simp only [ThreadStep, System.next, move_pc_self, move_server, hr, Option.map_some, move_move]
    cases results 0 with
    | accepted n =>
      by_cases hleft : rest.drop (n + 1) = []
      · -- the last round; the loop ends with nothing left
        have hdone : sendLoop fuel (fun j => results (j + 1)) (rest.drop (n + 1)) = ([], .ok) := by
          rw [hleft]
          cases fuel <;> simp [sendLoop]
        dsimp only
        rw [hdone, List.append_nil]
        refine ⟨_, _, hlast (.accepted n) .ok _ (server.kernel.connection fd) ?_⟩
        simp only [sendStep, if_pos hopen, if_pos hleft]
      · have hstep : ThreadStep (s.move t server (.sending i fd rest buf)) (.send t (.accepted n))
            (s.move t { server with kernel := server.kernel.push fd (rest.take (n + 1)) }
              (.sending i fd (rest.drop (n + 1)) buf)) := by
          simp only [ThreadStep, System.next, move_pc_self, move_server, sendStep, if_pos hopen,
            if_neg hleft, Option.map_some, move_move]
        let server₁ : Server :=
          { server with kernel := server.kernel.push fd (rest.take (n + 1)) }
        have hopen' : fd ∈ server₁.kernel.opened := hopen
        obtain ⟨acts, conn, hrest⟩ := ih hopen' (fun j => results (j + 1)) hleft
          (by rw [List.length_drop]; omega)
        dsimp only at hrest ⊢
        rw [push_push] at hrest
        exact ⟨_, conn, Steps.cons _ _ hstep hrest⟩
    | wouldBlock =>
      refine ⟨_, _, hlast .wouldBlock .netTimeout _ (server.kernel.connection fd) ?_⟩
      simp only [sendStep, if_pos hopen, push_nil]
    | zero =>
      refine ⟨_, _, hlast .zero .netFileError _ (server.kernel.connection fd) ?_⟩
      simp only [sendStep, if_pos hopen, push_nil]
    | failed =>
      refine ⟨_, _, hlast .failed .netFileError _ (server.kernel.connection fd) ?_⟩
      simp only [sendStep, push_nil]

/-- The loop of `Broadcast` from slot `k` on. -/
theorem steps_broadcastLoop {buf : List UInt8} (hbuf : buf ≠ []) (sends : ℕ → ℕ → SendResult)
    {server : Server} (hS : Slots server) {k d : ℕ} (hkd : k + d = server.mgr.maxClients.toNat)
    (count : ℕ) :
    ∃ acts, Steps ThreadStep (s.move t server (broadcastFrom server.mgr buf k)) acts
      (s.move t ((List.range' k d).foldl (broadcastTo buf sends) (server, count)).1 .idle) := by
  induction d generalizing server k count with
  | zero =>
    have hend : broadcastFrom server.mgr buf k = .idle := by
      simp [broadcastFrom, nextClient, ← hkd]
    rw [hend]
    exact ⟨[], Steps.nil _⟩
  | succ d ih =>
    have hk : k < server.mgr.maxClients.toNat := by omega
    have hrange : server.mgr.maxClients.toNat - k = d + 1 := by omega
    have hrange' : server.mgr.maxClients.toNat - (k + 1) = d := by omega
    rw [List.range'_succ, List.foldl_cons]
    by_cases hact : (server.mgr.client k).active
    · -- the slot is served: sends without the lock, then the rest of the loop
      have hpos := (hS.opened k hact).1
      have hfrom : broadcastFrom server.mgr buf k =
          .sending k (server.mgr.client k).fd buf buf := by
        have hnext : nextClient server.mgr k = some k := by
          rw [nextClient, hrange, List.range'_succ, List.find?_cons_of_pos]
          simp [hact, hpos]
        rw [broadcastFrom, hnext]
      obtain ⟨acts, conn, hsend⟩ := steps_sendLoop (s := s) (t := t) (i := k) buf
        (hS.opened k hact).2 (sends k) hbuf (le_refl _)
      obtain ⟨ret, hret⟩ : ∃ x, x = (silogRemoteSendFull (sends k) buf).2 := ⟨_, rfl⟩
      obtain ⟨server₁, hserver₁⟩ : ∃ x : Server, x = { server with
          kernel := server.kernel.push (server.mgr.client k).fd
            (silogRemoteSendFull (sends k) buf).1 } := ⟨_, rfl⟩
      rw [← silogRemoteSendFull, ← hret, ← hserver₁] at hsend
      have hturn : (broadcastTo buf sends (server, count) k).1 = afterSend server₁ k ret := by
        unfold broadcastTo afterSend SendFailed
        rw [if_neg (by simp [hact, hpos])]
        simp only [← hret, ← hserver₁]
        by_cases hok : ret = .ok
        · simp [hok]
        · by_cases htime : ret = .netTimeout
          · simp [htime]
          · simp [hok, htime]
      have hrelock := enabled_relock (move_pc_self s t server₁ (.sent k ret conn buf))
      rw [move_server, move_move] at hrelock
      have hS' := hS.broadcastTo buf sends count hk
      have hmax := broadcastTo_maxClients buf sends count (s := server) (i := k)
      rw [hturn] at hS' hmax
      obtain ⟨acts', hrest⟩ := ih hS' (k := k + 1) (by rw [hmax]; show k + 1 + d = _; omega)
        (broadcastTo buf sends (server, count) k).2
      rw [← hturn] at hrest hrelock
      rw [hfrom]
      exact ⟨_, hsend.append (Steps.cons _ _ hrelock hrest)⟩
    · -- the slot is skipped
      have hskip : (broadcastTo buf sends (server, count) k) = (server, count) := by
        unfold broadcastTo
        rw [if_pos (Or.inl (by simpa using hact))]
      have hfrom : broadcastFrom server.mgr buf k = broadcastFrom server.mgr buf (k + 1) := by
        have hnext : nextClient server.mgr k = nextClient server.mgr (k + 1) := by
          rw [nextClient, nextClient, hrange, hrange', List.range'_succ, List.find?_cons_of_neg]
          simp [hact]
        rw [broadcastFrom, broadcastFrom, hnext]
      rw [hskip, hfrom]
      exact ih hS (k := k + 1) (by omega) count

theorem steps_broadcastAlone {entry : Option LogEntry} (sends : ℕ → ℕ → SendResult)
    (hidle : s.pc t = .idle) (hS : Slots s.server) :
    ∃ acts, Steps ThreadStep s acts
      (s.move t (silogRemoteBroadcast s.server entry sends).2.2 .idle) := by
  have hstay : s.move t s.server .idle = s := move_self hidle
  by_cases hearly : s.server.mgr.isInit = false ∨ entry = none
  · rw [broadcast_eq_self (by tauto), hstay]
    exact ⟨[], Steps.nil s⟩
  · push Not at hearly
    obtain ⟨hinit, hentry⟩ := hearly
    obtain ⟨e, rfl⟩ := Option.ne_none_iff_exists'.mp hentry
    have henter : ThreadStep s (.broadcast t (some e)) (s.move t s.server (.broadcast e)) := by
      simp only [ThreadStep, System.next, hidle]
      rw [if_neg hinit]
    have hlock : ThreadStep (s.move t s.server (.broadcast e)) (.broadcastLock t)
        (s.move t s.server (broadcastLocked s.server.mgr e)) := by
      simp only [ThreadStep, System.next, move_pc_self, move_server, move_move]
    by_cases hcount : s.server.mgr.clientCount = 0
    · rw [broadcast_eq_self (Or.inr (Or.inr hcount))]
      have hnone : broadcastLocked s.server.mgr e = .idle := if_pos hcount
      rw [hnone] at hlock
      exact ⟨_, Steps.cons _ _ henter (Steps.single hlock)⟩
    · rw [broadcast_eq (by simpa using hinit) hcount]
      have hlocked : broadcastLocked s.server.mgr e =
          broadcastFrom s.server.mgr (entryBytes e) 0 := by
        rw [broadcastLocked, if_neg hcount, serialize_entry]
        have htake : (entryBytes e).take entrySize = entryBytes e :=
          List.take_of_length_le (by rw [length_entryBytes])
        simp [htake]
      have hbuf : entryBytes e ≠ [] := by
        intro hnil
        have := length_entryBytes e
        rw [hnil] at this
        cases this
      obtain ⟨acts, hloop⟩ := steps_broadcastLoop (s := s) (t := t) hbuf sends hS
        (k := 0) (d := s.server.mgr.maxClients.toNat) (Nat.zero_add _) 0
      rw [← List.range_eq_range'] at hloop
      rw [hlocked] at hlock
      exact ⟨_, Steps.cons _ _ henter (Steps.cons _ _ hlock hloop)⟩

end alone

end steps

end SiLog.Remote
