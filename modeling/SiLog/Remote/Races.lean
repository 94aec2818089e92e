import SiLog.Remote.Threads
import Mathlib.Data.Fintype.Basic

/-! # Races between `Broadcast`, `Accept` and `Deinit`

    A call that has given the lock up comes back with what it remembers.  Two
    things can go wrong in between.

    `Deinit` may free the table.  `Broadcast` does not test `isInit` again
    when it takes the lock back, and `Accept` does not test it under the lock
    at all, so both go on to a table that is not there.

    Another thread may close the slot and `Accept` may fill it again.  A
    `Broadcast` whose `send` failed then closes the connection that sits in
    the slot now, which is not the one that failed.

    For each of the two this file says exactly which steps do the harm.
-/

open Lts Ledger

namespace SiLog.Remote

variable {τ : Type*} [DecidableEq τ]

/-! ## Section 1: Access to the table -/

/-- The call at `pc` has left the lock or not yet taken it, and gets to the table
    when it takes it next. -/
def Reaches (m : SilogRemoteManager) : Pc → Prop
  | .sending i _ _ _ => i < m.maxClients.toNat
  | .sent i ret _ _ => (SendFailed ret ∧ i < m.maxClients.toNat) ∨ i + 1 < m.maxClients.toNat
  | .accepted _ => 0 < m.maxClients.toNat
  | _ => False

instance (m : SilogRemoteManager) (pc : Pc) : Decidable (Reaches m pc) :=
  match pc with
  | .sending _ _ _ _ => inferInstanceAs (Decidable (_ < _))
  | .sent _ _ _ _ => inferInstanceAs (Decidable (_ ∨ _))
  | .accepted _ => inferInstanceAs (Decidable (_ < _))
  | .idle | .broadcast _ | .accepting | .rejecting _ => inferInstanceAs (Decidable False)

/-- The step reads or writes `clients[i]` for some `i`. -/
def Accesses (s : System τ) : Act τ → Prop
  | .broadcastLock _ => s.server.mgr.clientCount ≠ 0 ∧ 0 < s.server.mgr.maxClients.toNat
  -- in `SilogRemoteCloseClientInternal(i)` or in the next turn of the loop
  | .relock t => Reaches s.server.mgr (s.pc t)
  -- in `SilogRemoteFindFreeSlot`
  | .acceptLock _ _ _ => s.server.mgr.clientCount < s.server.mgr.maxClients
  | .deinit _ => s.server.mgr.isInit ∧ 0 < s.server.mgr.maxClients.toNat
  | _ => False

/-- `Deinit` shuts the service down only when no other call is on its way back to
    the table. -/
def DeinitAlone (s : System τ) (a : Act τ) : Prop :=
  ∀ t, a = .deinit t → s.server.mgr.isInit → ∀ t', ¬ Reaches s.server.mgr (s.pc t')

instance [Fintype τ] (s : System τ) : (a : Act τ) → Decidable (DeinitAlone s a)
  | .deinit t =>
    decidable_of_iff (s.server.mgr.isInit → ∀ t', ¬ Reaches s.server.mgr (s.pc t'))
      ⟨fun h _ _ => h, fun h => h t rfl⟩
  | .broadcast _ _ | .broadcastLock _ | .send _ _ | .relock _ | .accept _ | .acceptCall _ _
  | .acceptLock _ _ _ | .acceptClose _ => isTrue nofun

/-- While the service is up the table is there; when it is down nobody gets to it. -/
structure TableInv (s : System τ) : Prop where
  on  : s.server.mgr.isInit → s.server.mgr.clients.isSome
  off : s.server.mgr.isInit = false → s.server.mgr.clientCount = 0 ∧ s.server.mgr.listenFd = -1 ∧
    ∀ t, ¬ Reaches s.server.mgr (s.pc t)
  pos : ∀ fd ∈ s.server.kernel.opened, 0 ≤ fd

section table
variable {s s' : System τ} {t : τ}

/-- A step that leaves the manager alone. -/
theorem TableInv.move (hT : TableInv s) {k : Sockets} {pc : Pc}
    (hpos : ∀ fd ∈ k.opened, 0 ≤ fd)
    (hpc : s.server.mgr.isInit = false → ¬ Reaches s.server.mgr pc) :
    TableInv (s.move t { s.server with kernel := k } pc) := by
  refine ⟨hT.on, ?_, hpos⟩
  intro hoff
  obtain ⟨hcount, hlisten, hnone⟩ := hT.off hoff
  refine ⟨hcount, hlisten, ?_⟩
  intro t'
  by_cases ht : t' = t
  · subst ht
    rw [move_pc_self]
    exact hpc hoff
  · rw [move_pc_of_ne _ _ _ ht]
    exact hnone t'

/-- The loop of `Broadcast` goes on to the table only if there are slots left. -/
theorem reaches_broadcastFrom {m : SilogRemoteManager} {buf : List UInt8} {k : ℕ}
    (h : Reaches m (broadcastFrom m buf k)) : k < m.maxClients.toNat := by
  rcases broadcastFrom_cases m buf k with heq | ⟨i, hlo, hhi, _, _⟩
  · rw [heq] at h
    exact h.elim
  · omega

theorem close_clients_isSome (server : Server) (i : ℕ) :
    (silogRemoteCloseClientInternal server i).mgr.clients.isSome = server.mgr.clients.isSome := by
  unfold silogRemoteCloseClientInternal
  split
  · rfl
  · exact Option.isSome_map

/-- The descriptors that are open after a slot was closed were open before. -/
theorem mem_of_mem_close {server : Server} {i : ℕ} {fd : ℤ}
    (h : fd ∈ (silogRemoteCloseClientInternal server i).kernel.opened) :
    fd ∈ server.kernel.opened := by
  unfold silogRemoteCloseClientInternal at h
  split at h
  · exact h
  · dsimp only at h
    split at h
    · exact List.mem_of_mem_erase h
    · exact h

theorem afterSend_cases (server : Server) (i : ℕ) (ret : ErrorCode) :
    afterSend server i ret = server ∨
    (SendFailed ret ∧ i < server.mgr.maxClients.toNat ∧
      afterSend server i ret = silogRemoteCloseClientInternal server i) := by
  unfold afterSend
  split
  · next hfail =>
    by_cases hi : i < server.mgr.maxClients.toNat
    · exact Or.inr ⟨hfail, hi, rfl⟩
    · refine Or.inl ?_
      unfold silogRemoteCloseClientInternal
      rw [if_pos (not_lt.mp hi)]
  · exact Or.inl rfl

/-- `Deinit` closes descriptors and opens none. -/
theorem mem_of_mem_deinit {server : Server} {fd : ℤ}
    (h : fd ∈ (silogRemoteDeinit server).kernel.opened) : fd ∈ server.kernel.opened := by
  have hfold : ∀ (l : List ℕ) (sv : Server),
      fd ∈ (l.foldl silogRemoteCloseClientInternal sv).kernel.opened → fd ∈ sv.kernel.opened := by
    intro l
    induction l with
    | nil => exact fun _ h => h
    | cons i l ih => exact fun sv h => mem_of_mem_close (ih _ h)
  unfold silogRemoteDeinit at h
  split at h
  · exact h
  · dsimp only at h
    split at h
    · exact hfold _ _ (List.mem_of_mem_erase h)
    · exact hfold _ _ h

theorem foldl_close_maxClients (l : List ℕ) (server : Server) :
    (l.foldl silogRemoteCloseClientInternal server).mgr.maxClients = server.mgr.maxClients := by
  induction l generalizing server with
  | nil => rfl
  | cons i l ih => rw [List.foldl_cons, ih, close_maxClients]

/-- The service after `Deinit` has shut it down. -/
theorem deinit_down {server : Server} (hon : server.mgr.isInit) :
    (silogRemoteDeinit server).mgr.isInit = false ∧
    (silogRemoteDeinit server).mgr.clients = none ∧
    (silogRemoteDeinit server).mgr.clientCount = 0 ∧
    (silogRemoteDeinit server).mgr.listenFd = -1 ∧
    (silogRemoteDeinit server).mgr.maxClients = server.mgr.maxClients := by
  unfold silogRemoteDeinit
  rw [if_neg (by simp [hon])]
  exact ⟨rfl, rfl, rfl, rfl, foldl_close_maxClients _ _⟩

theorem reaches_congr {m m' : SilogRemoteManager} (h : m'.maxClients = m.maxClients) (pc : Pc) :
    Reaches m' pc ↔ Reaches m pc := by
  cases pc <;> simp only [Reaches, h]

omit [DecidableEq τ] in
/-- A call that gets to the table finds the service up. -/
theorem TableInv.up (hT : TableInv s) {pc : Pc} (hpc : s.pc t = pc)
    (hreach : Reaches s.server.mgr pc) : s.server.mgr.isInit = true := by
  by_contra hoff
  obtain ⟨_, _, hnone⟩ := hT.off (by simpa using hoff)
  exact hnone t (hpc ▸ hreach)

/-- A step that keeps the service up and the table in place. -/
theorem TableInv.move_up {server : Server} {pc : Pc} (hon : server.mgr.isInit = true)
    (htable : server.mgr.clients.isSome) (hpos : ∀ fd ∈ server.kernel.opened, 0 ≤ fd) :
    TableInv (s.move t server pc) := by
  refine ⟨fun _ => htable, ?_, hpos⟩
  intro hoff
  rw [move_server, hon] at hoff
  cases hoff

theorem TableInv.relock (hT : TableInv s) (hstep : ThreadStep s (.relock t) s') :
    TableInv s' := by
  obtain ⟨i, ret, conn, buf, hpc, rfl⟩ := step_relock hstep
  rcases afterSend_cases s.server i ret with hsame | ⟨hfail, hi, hclose⟩
  · rw [hsame]
    refine hT.move hT.pos ?_
    intro hoff hreach
    have hon := hT.up hpc (Or.inr (reaches_broadcastFrom hreach))
    rw [hon] at hoff
    cases hoff
  · rw [hclose]
    have hon := hT.up hpc (Or.inl ⟨hfail, hi⟩)
    apply TableInv.move_up
    · rw [close_isInit]
      exact hon
    · rw [close_clients_isSome]
      exact hT.on hon
    · intro fd hfd
      exact hT.pos fd (mem_of_mem_close hfd)

theorem TableInv.acceptCall {r : AcceptResult} (hT : TableInv s)
    (hstep : ThreadStep s (.acceptCall t r) s') : TableInv s' := by
  obtain ⟨_, rfl | ⟨fd, hlisten, hpos, _, rfl⟩⟩ := step_acceptCall hstep
  · exact hT.move hT.pos fun _ => id
  · apply hT.move
    · intro f hf
      rcases List.mem_cons.mp hf with rfl | hf
      · exact hpos
      · exact hT.pos f hf
    · intro hoff
      -- the listening socket was closed
      have hneg := (hT.off hoff).2.1
      have := hT.pos _ hlisten
      omega

theorem TableInv.acceptLock {getFl setFl : Bool} (hT : TableInv s)
    (hstep : ThreadStep s (.acceptLock t getFl setFl) s') : TableInv s' := by
  obtain ⟨fd, hpc, ⟨_, rfl⟩ | ⟨server, hplace, rfl⟩⟩ := step_acceptLock hstep
  · exact hT.move hT.pos fun _ => id
  · obtain ⟨hroom, slot, hslot, rfl⟩ := acceptLocked_some hplace
    have hon := hT.up hpc (lt_of_le_of_lt (Nat.zero_le _) (UInt32.lt_iff_toNat_lt.mp hroom))
    apply TableInv.move_up
    · exact hon
    · show (s.server.mgr.clients.map _).isSome
      rw [Option.isSome_map]
      exact hT.on hon
    · exact hT.pos

theorem TableInv.deinit (hT : TableInv s) (halone : DeinitAlone s (.deinit t))
    (hstep : ThreadStep s (.deinit t) s') : TableInv s' := by
  obtain ⟨_, rfl⟩ := step_deinit hstep
  by_cases hon : s.server.mgr.isInit
  · obtain ⟨hoff, _, hcount, hlisten, hmax⟩ := deinit_down hon
    refine ⟨?_, ?_, fun fd hfd => hT.pos fd (mem_of_mem_deinit hfd)⟩
    · intro h
      rw [move_server, hoff] at h
      cases h
    · intro _
      refine ⟨hcount, hlisten, ?_⟩
      intro t'
      rw [move_server, reaches_congr hmax]
      by_cases ht : t' = t
      · subst ht
        rw [move_pc_self]
        exact id
      · rw [move_pc_of_ne _ _ _ ht]
        exact halone t rfl hon t'
  · have hsame : silogRemoteDeinit s.server = s.server := by
      unfold silogRemoteDeinit
      rw [if_pos (by simpa using hon)]
    rw [hsame]
    exact hT.move hT.pos fun _ => id

theorem TableInv.step {a : Act τ} (hT : TableInv s) (halone : DeinitAlone s a)
    (hstep : ThreadStep s a s') : TableInv s' := by
  cases a with
  | broadcast t entry =>
    obtain ⟨_, pc, rfl, rfl | ⟨e, rfl⟩⟩ := step_broadcast hstep <;>
      exact hT.move hT.pos fun _ => id
  | broadcastLock t =>
    obtain ⟨e, _, rfl⟩ := step_broadcastLock hstep
    refine hT.move hT.pos ?_
    intro hoff
    -- with no clients counted the call returns
    have hidle : broadcastLocked s.server.mgr e = .idle := if_pos (hT.off hoff).1
    rw [hidle]
    exact id
  | send t r =>
    obtain ⟨i, fd, rest, buf, k, pc, hpc, rfl, hopened, _, hcase⟩ := step_send hstep
    refine hT.move (by rw [hopened]; exact hT.pos) ?_
    intro hoff
    have hnone := (hT.off hoff).2.2 t
    rw [hpc] at hnone
    rcases hcase with ⟨left, rfl⟩ | ⟨ret, rfl⟩
    · exact hnone
    · rintro (⟨_, hi⟩ | hi)
      · exact hnone hi
      · exact hnone (Nat.lt_of_succ_lt hi)
  | relock t => exact hT.relock hstep
  | accept t =>
    obtain ⟨_, pc, rfl, rfl | rfl⟩ := step_accept hstep <;>
      exact hT.move hT.pos fun _ => id
  | acceptCall t r => exact hT.acceptCall hstep
  | acceptLock t getFl setFl => exact hT.acceptLock hstep
  | acceptClose t =>
    obtain ⟨fd, _, rfl⟩ := step_acceptClose hstep
    exact hT.move (fun f hf => hT.pos f (List.mem_of_mem_erase hf)) fun _ => id
  | deinit t => exact hT.deinit halone hstep

/-- Under the invariant every access finds the table. -/
theorem TableInv.access {a : Act τ} (hT : TableInv s) (hstep : ThreadStep s a s')
    (hacc : Accesses s a) : s.server.mgr.clients.isSome := by
  apply hT.on
  cases a with
  | broadcastLock t =>
    by_contra hoff
    exact hacc.1 (hT.off (by simpa using hoff)).1
  | relock t => exact hT.up rfl hacc
  | acceptLock t getFl setFl =>
    obtain ⟨fd, hpc, _⟩ := step_acceptLock hstep
    exact hT.up hpc (lt_of_le_of_lt (Nat.zero_le _) (UInt32.lt_iff_toNat_lt.mp hacc))
  | deinit t => exact hacc.1
  | broadcast t entry => exact hacc.elim
  | send t r => exact hacc.elim
  | accept t => exact hacc.elim
  | acceptCall t r => exact hacc.elim
  | acceptClose t => exact hacc.elim

/-- A call on its way to the table finds it gone after `Deinit`. -/
theorem access_after_deinit {server : Server} (hdown : server.mgr.clients = none)
    (hcount : server.mgr.clientCount = 0) {t : τ} (hserver : s.server = server)
    (hreach : Reaches server.mgr (s.pc t)) :
    ∃ acts s₁ b s₂, Steps ThreadStep s acts s₁ ∧ ThreadStep s₁ b s₂ ∧ Accesses s₁ b ∧
      s₁.server.mgr.clients = none := by
  subst hserver
  cases hpc : s.pc t with
  | idle => rw [hpc] at hreach; exact hreach.elim
  | broadcast e => rw [hpc] at hreach; exact hreach.elim
  | accepting => rw [hpc] at hreach; exact hreach.elim
  | rejecting fd => rw [hpc] at hreach; exact hreach.elim
  | sending i fd rest buf =>
    rw [hpc] at hreach
    -- its `send` fails and it comes back to close the slot
    refine ⟨_, _, .relock t, _, Steps.single (enabled_send_failed hpc),
      enabled_relock (move_pc_self _ _ _ _), ?_, hdown⟩
    rw [Accesses, move_pc_self]
    exact Or.inl ⟨⟨by decide, by decide⟩, hreach⟩
  | sent i ret conn buf =>
    exact ⟨[], s, .relock t, _, Steps.nil s, enabled_relock hpc, hreach, hdown⟩
  | accepted fd =>
    rw [hpc] at hreach
    have hroom : s.server.mgr.clientCount < s.server.mgr.maxClients := by
      rw [UInt32.lt_iff_toNat_lt, hcount]
      exact hreach
    obtain ⟨s₂, hs₂⟩ : ∃ s₂, ThreadStep s (.acceptLock t true true) s₂ := by
      simp only [ThreadStep, System.next, hpc]
      split <;> exact ⟨_, rfl⟩
    exact ⟨[], s, .acceptLock t true true, s₂, Steps.nil s, hs₂, hroom, hdown⟩

end table

/-- `SilogRemoteInit` that returns `SILOG_OK` from the initial state. -/
theorem init_up {config : Option SilogRemoteConfig} {env : InitEnv} {s : Server}
    (h : silogRemoteInit Server.initial config env = (.ok, s)) :
    ∃ fd, env.socket = some fd ∧ s.mgr.isInit = true ∧ s.mgr.clients = some (fun _ => .empty) ∧
      s.kernel = Server.initial.kernel.open fd := by
  have hret : (silogRemoteInit Server.initial config env).1 = .ok := by rw [h]
  have hserver : (silogRemoteInit Server.initial config env).2 = s := by rw [h]
  have hoff : Server.initial.mgr.isInit = false := rfl
  obtain ⟨herr, _⟩ | ⟨fd, _, hfd, hon, hclients, _, _, hkernel⟩ := init_exits config env hoff
  · exact absurd hret herr
  · rw [hserver] at hon hclients hkernel
    exact ⟨fd, hfd, hon, hclients, hkernel⟩

omit [DecidableEq τ] in
theorem tableInv_start {config : Option SilogRemoteConfig} {env : InitEnv} {s₀ : Server}
    (hinit : silogRemoteInit Server.initial config env = (.ok, s₀))
    (hfd : FreshFd Server.initial (.init config env)) :
    TableInv (System.start s₀ : System τ) := by
  obtain ⟨fd, hsock, hon, hclients, hkernel⟩ := init_up hinit
  refine ⟨?_, ?_, ?_⟩
  · intro _
    show s₀.mgr.clients.isSome
    rw [hclients]
    rfl
  · intro hoff
    have hoff' : s₀.mgr.isInit = false := hoff
    rw [hon] at hoff'
    cases hoff'
  · intro f hf
    have hf' : f ∈ s₀.kernel.opened := hf
    rw [hkernel] at hf'
    rw [List.mem_singleton.mp hf']
    exact (hfd fd hsock).1

/-- **Access to the table.** In every run in which `Deinit` shuts the service down
    only when no call is on its way back to the table, every access finds the
    table allocated.  And any other `Deinit` can be followed by an access to the
    table that is gone. -/
theorem table_allocated_of_deinitAlone {config : Option SilogRemoteConfig} {env : InitEnv}
    {s₀ : Server} (hinit : silogRemoteInit Server.initial config env = (.ok, s₀))
    (hfd : FreshFd Server.initial (.init config env)) {acts : List (Act τ)} {s : System τ}
    (hrun : Steps ThreadStep (System.start s₀) acts s) :
    (Steps (Guarded ThreadStep DeinitAlone) (System.start s₀) acts s →
      ∀ a s', ThreadStep s a s' → Accesses s a → s.server.mgr.clients.isSome) ∧
    (∀ a s', ThreadStep s a s' → ¬ DeinitAlone s a →
      ∃ acts' s₁ b s₂, Steps ThreadStep (System.start s₀) (acts ++ a :: acts') s₁ ∧
        ThreadStep s₁ b s₂ ∧ Accesses s₁ b ∧ s₁.server.mgr.clients = none) := by
  constructor
  · intro hguard a s' hstep hacc
    have hT := hguard.invariant (fun _ _ _ hR hT => TableInv.step hT hR.2 hR.1)
      (tableInv_start hinit hfd)
    exact hT.access hstep hacc
  · intro a s' hstep hnot
    unfold DeinitAlone at hnot
    push Not at hnot
    obtain ⟨t, rfl, hon, t', hreach⟩ := hnot
    obtain ⟨hidle, rfl⟩ := step_deinit hstep
    obtain ⟨_, hclients, hcount, _, hmax⟩ := deinit_down hon
    have hne : t' ≠ t := by
      rintro rfl
      rw [hidle] at hreach
      exact hreach
    obtain ⟨acts', s₁, b, s₂, hsteps, hb, hacc, hgone⟩ :=
      access_after_deinit (s := s.move t (silogRemoteDeinit s.server) .idle) hclients hcount rfl
        (t := t') (by rw [move_pc_of_ne _ _ _ hne, reaches_congr hmax]; exact hreach)
    exact ⟨acts', s₁, b, s₂, hrun.append (Steps.cons _ _ hstep hsteps), hb, hacc, hgone⟩

/-! ### A `Deinit` between `send` and the lock -/

/-- The service with the default configuration, right after `SilogRemoteInit`. -/
def upServer : Server :=
  (silogRemoteInit Server.initial none
    { malloc := true, socket := some 3, bind := true, listen := true, getFl := true,
      setFl := true }).2

theorem upServer_init : silogRemoteInit Server.initial none
    { malloc := true, socket := some 3, bind := true, listen := true, getFl := true,
      setFl := true } = (.ok, upServer) := rfl

theorem upServer_fresh : FreshFd Server.initial (.init none
    { malloc := true, socket := some 3, bind := true, listen := true, getFl := true,
      setFl := true }) := by
  rintro fd ⟨⟩
  exact ⟨by decide, List.not_mem_nil⟩

/-- Three threads. -/
inductive Caller where
  | a
  | b
  | c
  deriving DecidableEq

instance : Fintype Caller where
  elems := {.a, .b, .c}
  complete := fun t => by
    cases t
    all_goals decide

/-- Thread `t` accepts a connection on `fd`. -/
def acceptRun (t : Caller) (fd : ℤ) : List (Act Caller) :=
  [.accept t, .acceptCall t (.connection fd), .acceptLock t true true]

/-- Thread `t` begins a broadcast and is in its first `send`. -/
def broadcastRun (t : Caller) : List (Act Caller) :=
  [.broadcast t (some (sampleEntry 0)), .broadcastLock t]

/-- Thread `a` sends to a client while thread `b` shuts the service down. -/
def deinitRun : List (Act Caller) :=
  acceptRun .a 4 ++ broadcastRun .a ++ [.deinit .b, .send .a .failed]

def deinitedInSend : System Caller :=
  (exec System.next (System.start upServer) deinitRun).get (by decide +kernel)

/-- Thread `a` takes the lock and closes slot 0 of a table that is not there. -/
theorem deinit_in_send_run :
    silogRemoteInit Server.initial none
      { malloc := true, socket := some 3, bind := true, listen := true, getFl := true,
        setFl := true } = (.ok, upServer) ∧
    Steps ThreadStep (System.start upServer) deinitRun deinitedInSend ∧
    ∃ s', ThreadStep deinitedInSend (.relock .a) s' ∧ Accesses deinitedInSend (.relock .a) ∧
      ¬ deinitedInSend.server.mgr.clients.isSome := by
  have hsome : (deinitedInSend.next (.relock .a)).isSome := by decide +kernel
  obtain ⟨s', hs'⟩ := Option.isSome_iff_exists.mp hsome
  refine ⟨upServer_init,
    steps_of_exec (fun _ _ _ h => h) (Option.some_get (by decide +kernel)).symm, s', hs', ?_, ?_⟩
  · show Reaches deinitedInSend.server.mgr (deinitedInSend.pc .a)
    decide +kernel
  · decide +kernel

/-- The same broadcast without the shutdown. -/
def failedSendRun : List (Act Caller) := acceptRun .a 4 ++ broadcastRun .a ++ [.send .a .failed]

/-- The call remembers a slot. -/
def Pc.remembers : Pc → Bool
  | .sending _ _ _ _ => true
  | .sent _ _ _ _ => true
  | _ => false

/-- The steps of three threads in which no slot is filled while a call remembers one. -/
def System.calmNext (s : System Caller) (a : Act Caller) : Option (System Caller) :=
  match a with
  | .acceptLock _ _ _ =>
    if (s.pc .a).remembers = false ∧ (s.pc .b).remembers = false ∧ (s.pc .c).remembers = false then
      s.next a
    else none
  | _ => s.next a

theorem next_of_calmNext {s s' : System Caller} {a : Act Caller} (h : s.calmNext a = some s') :
    s.next a = some s' := by
  cases a with
  | acceptLock t getFl setFl =>
    simp only [System.calmNext] at h
    split at h
    · exact h
    · cases h
  | _ => exact h

@[irreducible] def failedSend : System Caller :=
  (exec System.calmNext (System.start upServer) failedSendRun).get (by decide +kernel)

theorem failedSend_exec :
    exec System.calmNext (System.start upServer) failedSendRun = some failedSend := by
  unfold failedSend
  exact (Option.some_get (by decide +kernel)).symm

theorem failedSend_run : Steps ThreadStep (System.start upServer) failedSendRun failedSend := by
  apply steps_of_exec _ failedSend_exec
  intro s a s' h
  exact next_of_calmNext h

theorem failedSend_live (a : Act Caller) (ha : a ∈ failedSendRun) : a.isDeinit = false := by
  have hall : failedSendRun.all (fun a => !a.isDeinit) = true := rfl
  simpa using List.all_eq_true.mp hall a ha

/-- Thread `b` shuts the service down after that, while a broadcast of thread `c` waits for the
    lock. -/
def stoppedRun : List (Act Caller) :=
  failedSendRun ++
    [.relock .a, .broadcast .c (some (sampleEntry 1)), .deinit .b, .broadcastLock .c]

@[irreducible] def stopped : System Caller :=
  (exec System.next (System.start upServer) stoppedRun).get (by decide +kernel)

theorem stopped_run :
    Steps (Guarded ThreadStep DeinitAlone) (System.start upServer) stoppedRun stopped := by
  unfold stopped
  exact guarded_of_exec (fun _ _ _ h => h) (Option.some_get (by decide +kernel)).symm
    (by decide +kernel)

theorem failedSend_alone :
    Steps (Guarded ThreadStep DeinitAlone) (System.start upServer) failedSendRun failedSend := by
  refine failedSend_run.guarded_of_forall fun a ha _ t heq => ?_
  have hno := failedSend_live a ha
  rw [heq] at hno
  cases hno

/-- The thread that comes back from its `send` finds the table, and after the shutdown nobody gets
    to it. -/
theorem table_allocated_of_deinitAlone_stopped :
    (Accesses failedSend (.relock .a) ∧ failedSend.server.mgr.clients.isSome) ∧
    stopped.server.mgr.isInit = false ∧ stopped.server.mgr.clients = none ∧
    ∀ a s', ThreadStep stopped a s' → ¬ Accesses stopped a := by
  have hsome : (failedSend.next (.relock .a)).isSome := by decide +kernel
  obtain ⟨s', hs'⟩ := Option.isSome_iff_exists.mp hsome
  have hacc : Accesses failedSend (.relock .a) := by
    show Reaches failedSend.server.mgr (failedSend.pc .a)
    decide +kernel
  have hgone : ¬ stopped.server.mgr.clients.isSome := by decide +kernel
  obtain ⟨hsafe, _⟩ := table_allocated_of_deinitAlone upServer_init upServer_fresh failedSend_run
  obtain ⟨hdown, _⟩ :=
    table_allocated_of_deinitAlone upServer_init upServer_fresh stopped_run.of_guarded
  refine ⟨⟨hacc, hsafe failedSend_alone (.relock .a) s' hs' hacc⟩, by decide +kernel,
    Option.not_isSome_iff_eq_none.mp hgone, ?_⟩
  intro a s' hstep hacc
  exact hgone (hdown stopped_run a s' hstep hacc)

/-! ## Section 2: The connection that is closed -/

/-- A `Broadcast` that takes the lock after a failed `send` and finds its slot in use
    finds the connection of that `send` in it. -/
def ClosesOwn (s : System τ) : Prop :=
  ∀ t i ret conn buf, s.pc t = .sent i ret conn buf → SendFailed ret →
    (s.server.mgr.client i).active →
    conn.isSome ∧ conn = s.server.kernel.connection (s.server.mgr.client i).fd

/-- A call at `pc` can live with `fd` being put into `slot`: it does not remember
    that slot, or it remembers this descriptor or connection. -/
def Tolerates (k : Sockets) (slot : ℕ) (fd : ℤ) : Pc → Prop
  | .sending i fd' _ _ => i = slot → fd' = fd
  | .sent i ret conn _ => i = slot → SendFailed ret → conn = k.connection fd
  | _ => True

/-- `Accept` fills a slot only if every other call can live with that. -/
def FillsTolerated (s : System τ) (a : Act τ) : Prop :=
  ∀ t getFl setFl fd slot, a = .acceptLock t getFl setFl → s.pc t = .accepted fd →
    (acceptLocked s.server fd getFl setFl).isSome → silogRemoteFindFreeSlot s.server.mgr = some slot →
    ∀ t', Tolerates s.server.kernel slot fd (s.pc t')

/-- The descriptor that `Accept` has taken and not yet put away. -/
def inFlight : Pc → Option ℤ
  | .accepted fd => some fd
  | .rejecting fd => some fd
  | _ => none

/-- The slots hold open descriptors, and so do the calls of `Accept`, each its own. -/
structure FlightInv (s : System τ) : Prop where
  slots  : Slots s.server
  table  : s.server.mgr.clients.isSome
  flight : ∀ t fd, inFlight (s.pc t) = some fd → 0 ≤ fd ∧ fd ∈ s.server.kernel.opened ∧
    ∀ i, (s.server.mgr.client i).active → (s.server.mgr.client i).fd ≠ fd
  apart  : ∀ t t' fd, inFlight (s.pc t) = some fd → inFlight (s.pc t') = some fd → t = t'

/-- What a call remembers of its slot is still so if the slot is in use. -/
def Remembers (server : Server) : Pc → Prop
  | .sending i fd _ _ => (server.mgr.client i).active → (server.mgr.client i).fd = fd
  | .sent i ret conn _ => SendFailed ret → (server.mgr.client i).active →
      conn = server.kernel.connection (server.mgr.client i).fd
  | _ => True

section flight
variable {s s' : System τ} {t : τ}

/-- A step of `t` that keeps the table and the descriptors that the others have in
    flight. -/
theorem FlightInv.move (hF : FlightInv s) {server : Server} {pc : Pc} (hslots : Slots server)
    (htable : server.mgr.clients.isSome)
    (hothers : ∀ t' fd, t' ≠ t → inFlight (s.pc t') = some fd → fd ∈ server.kernel.opened ∧
      ∀ i, (server.mgr.client i).active → (server.mgr.client i).fd ≠ fd)
    (hpc : ∀ fd, inFlight pc = some fd → 0 ≤ fd ∧ fd ∈ server.kernel.opened ∧
      (∀ i, (server.mgr.client i).active → (server.mgr.client i).fd ≠ fd) ∧
      ∀ t', t' ≠ t → inFlight (s.pc t') ≠ some fd) :
    FlightInv (s.move t server pc) := by
  refine ⟨hslots, htable, ?_, ?_⟩
  · intro t' fd hfd
    by_cases ht : t' = t
    · subst ht
      rw [move_pc_self] at hfd
      obtain ⟨hpos, hopen, hfree, _⟩ := hpc fd hfd
      exact ⟨hpos, hopen, hfree⟩
    · rw [move_pc_of_ne _ _ _ ht] at hfd
      obtain ⟨hopen, hfree⟩ := hothers t' fd ht hfd
      exact ⟨(hF.flight t' fd hfd).1, hopen, hfree⟩
  · intro t₁ t₂ fd h₁ h₂
    by_cases ht₁ : t₁ = t <;> by_cases ht₂ : t₂ = t
    · rw [ht₁, ht₂]
    · subst ht₁
      rw [move_pc_self] at h₁
      rw [move_pc_of_ne _ _ _ ht₂] at h₂
      exact absurd h₂ ((hpc fd h₁).2.2.2 t₂ ht₂)
    · subst ht₂
      rw [move_pc_self] at h₂
      rw [move_pc_of_ne _ _ _ ht₁] at h₁
      exact absurd h₁ ((hpc fd h₂).2.2.2 t₁ ht₁)
    · rw [move_pc_of_ne _ _ _ ht₁] at h₁
      rw [move_pc_of_ne _ _ _ ht₂] at h₂
      exact hF.apart t₁ t₂ fd h₁ h₂

/-- A step that leaves the service alone and has nothing in flight. -/
theorem FlightInv.move_same (hF : FlightInv s) {pc : Pc} (hpc : inFlight pc = none) :
    FlightInv (s.move t s.server pc) :=
  hF.move hF.slots hF.table (fun t' fd _ hfd => (hF.flight t' fd hfd).2)
    (fun fd hfd => by rw [hpc] at hfd; cases hfd)

theorem inFlight_broadcastFrom (m : SilogRemoteManager) (buf : List UInt8) (k : ℕ) :
    inFlight (broadcastFrom m buf k) = none := by
  rcases broadcastFrom_cases m buf k with h | ⟨i, _, _, _, h⟩ <;> rw [h] <;> rfl

theorem inFlight_broadcastLocked (m : SilogRemoteManager) (e : LogEntry) :
    inFlight (broadcastLocked m e) = none := by
  rcases broadcastLocked_cases m e with h | ⟨_, buf, h⟩ <;> rw [h]
  · rfl
  · exact inFlight_broadcastFrom m buf 0

/-- The client that is active after a slot was closed was so before. -/
theorem client_of_close {server : Server} {i j : ℕ} (hi : i < server.mgr.maxClients.toNat)
    (hact : ((silogRemoteCloseClientInternal server i).mgr.client j).active) :
    j ≠ i ∧ (silogRemoteCloseClientInternal server i).mgr.client j = server.mgr.client j := by
  have hne : j ≠ i := by
    rintro rfl
    rw [close_client_self server hi] at hact
    cases hact
  exact ⟨hne, close_client_ne server hne⟩

/-- A descriptor that no active slot holds survives the closing of a slot. -/
theorem mem_close_of_free {server : Server} {i : ℕ} {fd : ℤ} (hfd : fd ∈ server.kernel.opened)
    (hfree : (server.mgr.client i).active → (server.mgr.client i).fd ≠ fd) :
    fd ∈ (silogRemoteCloseClientInternal server i).kernel.opened := by
  by_cases hact : (server.mgr.client i).active
  · exact close_opened (Ne.symm (hfree hact)) hfd
  · unfold silogRemoteCloseClientInternal
    split
    · exact hfd
    · simp only [hact, Bool.false_eq_true, false_and, if_false]
      exact hfd

theorem Slots.closeFree {server : Server} (hS : Slots server) {fd : ℤ}
    (hfree : ∀ i, (server.mgr.client i).active → (server.mgr.client i).fd ≠ fd) :
    Slots { server with kernel := server.kernel.close fd } := by
  refine ⟨?_, hS.distinct⟩
  intro i hact
  exact ⟨(hS.opened i hact).1, (List.mem_erase_of_ne (hfree i hact)).mpr (hS.opened i hact).2⟩

theorem FlightInv.send {r : SendResult} (hF : FlightInv s) (hstep : ThreadStep s (.send t r) s') :
    FlightInv s' := by
  obtain ⟨i, fd, rest, buf, k, pc, _, rfl, hopened, _, hcase⟩ := step_send hstep
  have hnone : inFlight pc = none := by
    rcases hcase with ⟨left, rfl⟩ | ⟨ret, rfl⟩ <;> rfl
  refine hF.move ⟨?_, hF.slots.distinct⟩ hF.table ?_ (fun fd hfd => by rw [hnone] at hfd; cases hfd)
  · intro i hact
    rw [hopened]
    exact hF.slots.opened i hact
  · intro t' fd _ hfd
    rw [hopened]
    exact (hF.flight t' fd hfd).2

theorem FlightInv.relock (hF : FlightInv s) (hstep : ThreadStep s (.relock t) s') :
    FlightInv s' := by
  obtain ⟨i, ret, conn, buf, _, rfl⟩ := step_relock hstep
  have hnone := inFlight_broadcastFrom (afterSend s.server i ret).mgr buf (i + 1)
  rcases afterSend_cases s.server i ret with hsame | ⟨_, hi, hclose⟩
  · rw [hsame] at hnone ⊢
    exact hF.move_same hnone
  · rw [hclose] at hnone ⊢
    refine hF.move (hF.slots.close hi) (by rw [close_clients_isSome]; exact hF.table) ?_
      (fun fd hfd => by rw [hnone] at hfd; cases hfd)
    intro t' fd _ hfd
    obtain ⟨_, hopen, hfree⟩ := hF.flight t' fd hfd
    refine ⟨mem_close_of_free hopen (hfree i), ?_⟩
    intro j hact
    obtain ⟨_, hsame⟩ := client_of_close hi hact
    rw [hsame] at hact ⊢
    exact hfree j hact

theorem FlightInv.acceptCall {r : AcceptResult} (hF : FlightInv s)
    (hstep : ThreadStep s (.acceptCall t r) s') : FlightInv s' := by
  obtain ⟨_, rfl | ⟨fd, _, hpos, hfresh, rfl⟩⟩ := step_acceptCall hstep
  · exact hF.move_same rfl
  · refine hF.move (hF.slots.open fd) hF.table ?_ ?_
    · intro t' f _ hf
      obtain ⟨_, hopen, hfree⟩ := hF.flight t' f hf
      exact ⟨List.mem_cons_of_mem _ hopen, hfree⟩
    · rintro f ⟨⟩
      -- the new descriptor was not open, and those of the others were
      refine ⟨hpos, List.mem_cons_self, ?_, ?_⟩
      · intro i hact heq
        exact hfresh (heq ▸ (hF.slots.opened i hact).2)
      · intro t' _ hf
        exact hfresh (hF.flight t' _ hf).2.1

/-- The descriptor goes from the call into the slot. -/
theorem FlightInv.fill {fd : ℤ} {slot : ℕ} {count : UInt32} (hF : FlightInv s)
    (hfd : inFlight (s.pc t) = some fd) :
    FlightInv (s.move t
      { s.server with
        mgr := { s.server.mgr.setClient slot { fd := fd, active := true } with
          clientCount := count } } .idle) := by
  obtain ⟨hpos, hopen, hfree⟩ := hF.flight t fd hfd
  refine hF.move (hF.slots.fill hpos hopen hfree slot _) ?_ ?_ (fun f hf => by cases hf)
  · show (s.server.mgr.clients.map _).isSome
    rw [Option.isSome_map]
    exact hF.table
  · intro t' f ht hf
    obtain ⟨_, hopen', hfree'⟩ := hF.flight t' f hf
    refine ⟨hopen', ?_⟩
    intro j hact
    show ((s.server.mgr.setClient slot _).client j).fd ≠ f
    obtain ⟨rfl, h⟩ | ⟨_, h⟩ := client_accepted (m := s.server.mgr) hact
    · rw [h]
      rintro rfl
      exact ht (hF.apart t' t _ hf hfd)
    · rw [h]
      exact hfree' j (by rw [← h]; exact hact)

theorem FlightInv.acceptLock {getFl setFl : Bool} (hF : FlightInv s)
    (hstep : ThreadStep s (.acceptLock t getFl setFl) s') : FlightInv s' := by
  obtain ⟨fd, hpc, hcase⟩ := step_acceptLock hstep
  have hfd : inFlight (s.pc t) = some fd := by rw [hpc]; rfl
  rcases hcase with ⟨_, rfl⟩ | ⟨server, hplace, rfl⟩
  · obtain ⟨hpos, hopen, hfree⟩ := hF.flight t fd hfd
    refine hF.move hF.slots hF.table (fun t' f _ hf => (hF.flight t' f hf).2) ?_
    rintro f ⟨⟩
    exact ⟨hpos, hopen, hfree, fun t' ht hf => ht (hF.apart t' t _ hf hfd)⟩
  · obtain ⟨_, slot, _, rfl⟩ := acceptLocked_some hplace
    exact hF.fill hfd

theorem FlightInv.acceptClose (hF : FlightInv s) (hstep : ThreadStep s (.acceptClose t) s') :
    FlightInv s' := by
  obtain ⟨fd, hpc, rfl⟩ := step_acceptClose hstep
  have hfd : inFlight (s.pc t) = some fd := by rw [hpc]; rfl
  obtain ⟨_, _, hfree⟩ := hF.flight t fd hfd
  refine hF.move (hF.slots.closeFree hfree) hF.table ?_ (fun f hf => by cases hf)
  intro t' f ht hf
  obtain ⟨_, hopen', hfree'⟩ := hF.flight t' f hf
  refine ⟨(List.mem_erase_of_ne ?_).mpr hopen', hfree'⟩
  rintro rfl
  exact ht (hF.apart t' t _ hf hfd)

theorem FlightInv.step {a : Act τ} (hF : FlightInv s) (hlive : a.isDeinit = false)
    (hstep : ThreadStep s a s') : FlightInv s' := by
  cases a with
  | broadcast t entry =>
    obtain ⟨_, pc, rfl, rfl | ⟨e, rfl⟩⟩ := step_broadcast hstep <;> exact hF.move_same rfl
  | broadcastLock t =>
    obtain ⟨e, _, rfl⟩ := step_broadcastLock hstep
    exact hF.move_same (inFlight_broadcastLocked _ _)
  | send t r => exact hF.send hstep
  | relock t => exact hF.relock hstep
  | accept t =>
    obtain ⟨_, pc, rfl, rfl | rfl⟩ := step_accept hstep <;> exact hF.move_same rfl
  | acceptCall t r => exact hF.acceptCall hstep
  | acceptLock t getFl setFl => exact hF.acceptLock hstep
  | acceptClose t => exact hF.acceptClose hstep
  | deinit t => cases hlive

/-! ### What a call remembers -/

/-- The connection behind a descriptor depends on the open descriptors and the
    ledger only. -/
theorem connection_congr {k k' : Sockets} {fd : ℤ} (hopen : fd ∈ k'.opened ↔ fd ∈ k.opened)
    (hlog : k'.log.count (.acquired fd) = k.log.count (.acquired fd)) :
    k'.connection fd = k.connection fd := by
  simp only [Sockets.connection, hopen, hlog]

theorem connection_open {k : Sockets} {fd f : ℤ} (hne : f ≠ fd) :
    (k.open fd).connection f = k.connection f := by
  apply connection_congr
  · simp [Sockets.open, hne]
  · simp [Sockets.open, Ne.symm hne]

theorem connection_close {k : Sockets} {fd f : ℤ} (hne : f ≠ fd) :
    (k.close fd).connection f = k.connection f := by
  apply connection_congr
  · exact List.mem_erase_of_ne hne
  · simp [Sockets.close]

theorem connection_closeClient {server : Server} {i : ℕ} {f : ℤ}
    (hne : (server.mgr.client i).active → f ≠ (server.mgr.client i).fd) :
    (silogRemoteCloseClientInternal server i).kernel.connection f = server.kernel.connection f := by
  unfold silogRemoteCloseClientInternal
  split
  · rfl
  · dsimp only
    split
    · next hact => exact connection_close (hne hact.1)
    · rfl

/-- What is remembered stays so when the slots in use and their connections stay. -/
theorem Remembers.mono {server server' : Server} {pc : Pc} (h : Remembers server pc)
    (hclient : ∀ i, (server'.mgr.client i).active → server'.mgr.client i = server.mgr.client i)
    (hconn : ∀ i, (server'.mgr.client i).active →
      server'.kernel.connection (server.mgr.client i).fd =
        server.kernel.connection (server.mgr.client i).fd) : Remembers server' pc := by
  cases pc with
  | sending i fd rest buf =>
    intro hact
    have hsame := hclient i hact
    rw [hsame] at hact ⊢
    exact h hact
  | sent i ret conn buf =>
    intro hfail hact
    have hc := hconn i hact
    have hsame := hclient i hact
    rw [hsame] at hact ⊢
    rw [hc]
    exact h hfail hact
  | _ => trivial

/-- What is remembered stays so when a slot is filled with what the call can live
    with. -/
theorem Remembers.fill {server server' : Server} {pc : Pc} {slot : ℕ} {fd : ℤ}
    (h : Remembers server pc) (htol : Tolerates server.kernel slot fd pc)
    (hself : server'.mgr.client slot = { fd := fd, active := true })
    (hother : ∀ i, i ≠ slot → server'.mgr.client i = server.mgr.client i)
    (hkernel : server'.kernel = server.kernel) : Remembers server' pc := by
  cases pc with
  | sending i fd' rest buf =>
    intro hact
    by_cases hi : i = slot
    · -- the slot was filled with the descriptor that the call sends to
      rw [hi, hself, htol hi]
    · rw [hother i hi] at hact ⊢
      exact h hact
  | sent i ret conn buf =>
    intro hfail hact
    rw [hkernel]
    by_cases hi : i = slot
    · rw [hi, hself]
      exact htol hi hfail
    · rw [hother i hi] at hact ⊢
      exact h hfail hact
  | _ => trivial

/-- The loop of `Broadcast` remembers what is in the slot. -/
theorem remembers_broadcastFrom (server : Server) (buf : List UInt8) (k : ℕ) :
    Remembers server (broadcastFrom server.mgr buf k) := by
  rcases broadcastFrom_cases server.mgr buf k with h | ⟨i, _, _, _, h⟩ <;> rw [h]
  · trivial
  · exact fun _ => rfl

theorem remembers_broadcastLocked (server : Server) (e : LogEntry) :
    Remembers server (broadcastLocked server.mgr e) := by
  rcases broadcastLocked_cases server.mgr e with h | ⟨_, buf, h⟩ <;> rw [h]
  · trivial
  · exact remembers_broadcastFrom server buf 0

/-- The invariant: descriptors in order and every memory right. -/
structure OwnInv (s : System τ) : Prop where
  flight : FlightInv s
  memory : ∀ t, Remembers s.server (s.pc t)

theorem OwnInv.memory_move (hO : OwnInv s) {server : Server} {pc : Pc}
    (hothers : ∀ t', t' ≠ t → Remembers s.server (s.pc t') → Remembers server (s.pc t'))
    (hpc : Remembers server pc) :
    ∀ t', Remembers (s.move t server pc).server ((s.move t server pc).pc t') := by
  intro t'
  by_cases ht : t' = t
  · subst ht
    rw [move_pc_self]
    exact hpc
  · rw [move_pc_of_ne _ _ _ ht]
    exact hothers t' ht (hO.memory t')

theorem OwnInv.step {a : Act τ} (hO : OwnInv s) (hlive : a.isDeinit = false)
    (hfill : FillsTolerated s a) (hstep : ThreadStep s a s') : OwnInv s' := by
  refine ⟨hO.flight.step hlive hstep, ?_⟩
  have hF := hO.flight
  cases a with
  | broadcast t entry =>
    obtain ⟨_, pc, rfl, rfl | ⟨e, rfl⟩⟩ := step_broadcast hstep <;>
      exact hO.memory_move (fun _ _ => id) trivial
  | broadcastLock t =>
    obtain ⟨e, _, rfl⟩ := step_broadcastLock hstep
    exact hO.memory_move (fun _ _ => id) (remembers_broadcastLocked _ _)
  | send t r =>
    obtain ⟨i, fd, rest, buf, k, pc, hpc, rfl, hopened, hlog, hcase⟩ := step_send hstep
    have hconn : ∀ f, k.connection f = s.server.kernel.connection f := fun f =>
      connection_congr (by rw [hopened]) (by rw [hlog])
    refine hO.memory_move (fun t' _ h => h.mono (fun _ _ => rfl) fun _ _ => hconn _) ?_
    have hmem := hO.memory t
    rw [hpc] at hmem
    rcases hcase with ⟨left, rfl⟩ | ⟨ret, rfl⟩
    · exact hmem
    · -- the `send` was on the descriptor of the slot, if the slot is still in use
      intro _ hact
      show _ = k.connection _
      rw [hconn, ← hmem hact]
  | relock t =>
    obtain ⟨i, ret, conn, buf, _, rfl⟩ := step_relock hstep
    refine hO.memory_move ?_ (remembers_broadcastFrom _ _ _)
    intro t' _ hmem
    rcases afterSend_cases s.server i ret with hsame | ⟨_, hi, hclose⟩
    · rw [hsame]
      exact hmem
    · rw [hclose]
      refine hmem.mono (fun j hact => (client_of_close hi hact).2) ?_
      intro j hact
      obtain ⟨hne, hsame⟩ := client_of_close hi hact
      rw [hsame] at hact
      exact connection_closeClient fun hact' heq => hne (hF.slots.distinct j i hact hact' heq)
  | accept t =>
    obtain ⟨_, pc, rfl, rfl | rfl⟩ := step_accept hstep <;>
      exact hO.memory_move (fun _ _ => id) trivial
  | acceptCall t r =>
    obtain ⟨_, rfl | ⟨fd, _, _, hfresh, rfl⟩⟩ := step_acceptCall hstep
    · exact hO.memory_move (fun _ _ => id) trivial
    · refine hO.memory_move (fun t' _ hmem => hmem.mono (fun _ _ => rfl) ?_) trivial
      intro i hact
      exact connection_open fun heq => hfresh (heq ▸ (hF.slots.opened i hact).2)
  | acceptLock t getFl setFl =>
    obtain ⟨fd, hpc, ⟨_, rfl⟩ | ⟨server, hplace, rfl⟩⟩ := step_acceptLock hstep
    · exact hO.memory_move (fun _ _ => id) trivial
    · obtain ⟨_, slot, hslot, hserver⟩ := acceptLocked_some hplace
      have htol := hfill t getFl setFl fd slot rfl hpc (by rw [hplace]; rfl) hslot
      refine hO.memory_move ?_ trivial
      intro t' _ hmem
      subst hserver
      exact hmem.fill (htol t') (client_setClient_self hF.table slot _)
        (fun i hi => client_setClient_ne s.server.mgr _ hi) rfl
  | acceptClose t =>
    obtain ⟨fd, hpc, rfl⟩ := step_acceptClose hstep
    have hfd : inFlight (s.pc t) = some fd := by rw [hpc]; rfl
    refine hO.memory_move (fun t' _ hmem => hmem.mono (fun _ _ => rfl) ?_) trivial
    intro i hact
    exact connection_close ((hF.flight t fd hfd).2.2 i hact)
  | deinit t => cases hlive

omit [DecidableEq τ] in
theorem OwnInv.closesOwn (hO : OwnInv s) : ClosesOwn s := by
  intro t i ret conn buf hpc hfail hact
  have hmem := hO.memory t
  rw [hpc] at hmem
  have hconn := hmem hfail hact
  refine ⟨?_, hconn⟩
  rw [hconn, Sockets.connection, if_pos (hO.flight.slots.opened i hact).2]
  rfl

omit [DecidableEq τ] in
theorem ownInv_start {config : Option SilogRemoteConfig} {env : InitEnv} {s₀ : Server}
    (hinit : silogRemoteInit Server.initial config env = (.ok, s₀)) :
    OwnInv (System.start s₀ : System τ) := by
  obtain ⟨fd, _, _, hclients, _⟩ := init_up hinit
  have hnone : NoneActive s₀ := fun i => by
    simp [SilogRemoteManager.client, hclients, SilogRemoteClient.empty]
  refine ⟨⟨hnone.slots, ?_, ?_, ?_⟩, fun t => trivial⟩
  · show s₀.mgr.clients.isSome
    rw [hclients]
    rfl
  · intro t fd hfd
    cases hfd
  · intro t t' fd hfd
    cases hfd

/-- A slot that is filled against the memory of a call leads to the wrong connection
    being closed. -/
theorem not_closesOwn_of_fill {getFl setFl : Bool} {fd : ℤ} {slot : ℕ} (hF : FlightInv s)
    (hstep : ThreadStep s (.acceptLock t getFl setFl) s') (hpc : s.pc t = .accepted fd)
    (hplace : (acceptLocked s.server fd getFl setFl).isSome)
    (hslot : silogRemoteFindFreeSlot s.server.mgr = some slot) {t' : τ}
    (htol : ¬ Tolerates s.server.kernel slot fd (s.pc t')) :
    ∃ acts s₁, Steps ThreadStep s' acts s₁ ∧ (∀ a ∈ acts, a.isDeinit = false) ∧ ¬ ClosesOwn s₁ := by
  obtain ⟨server, hplace⟩ := Option.isSome_iff_exists.mp hplace
  obtain ⟨_, slot', hslot', hserver⟩ := acceptLocked_some hplace
  rw [hslot] at hslot'
  cases hslot'
  have hopen := (hF.flight t fd (by rw [hpc]; rfl)).2.1
  have hself : server.mgr.client slot = { fd := fd, active := true } := by
    rw [hserver]
    exact client_setClient_self hF.table slot _
  have hkernel : server.kernel = s.server.kernel := by rw [hserver]
  have hs' : s' = s.move t server .idle := by
    obtain ⟨fd', hpc', ⟨hnone, _⟩ | ⟨server', hsome, heq⟩⟩ := step_acceptLock hstep
    · rw [hpc] at hpc'
      cases hpc'
      rw [hplace] at hnone
      cases hnone
    · rw [hpc] at hpc'
      cases hpc'
      rw [hplace] at hsome
      cases hsome
      exact heq
  subst hs'
  have hne : t' ≠ t := by
    rintro rfl
    rw [hpc] at htol
    exact htol trivial
  have hpc₁ := move_pc_of_ne s (t := t) server .idle hne
  cases hpc' : s.pc t' with
  | sending i fd' rest buf =>
    rw [hpc'] at htol hpc₁
    obtain ⟨rfl, hfd⟩ := Classical.not_imp.mp htol
    -- the `send` fails, on another descriptor than the one in the slot now
    refine ⟨_, _, Steps.single (enabled_send_failed hpc₁), fun a ha => ?_, ?_⟩
    · rw [List.mem_singleton.mp ha]
      rfl
    · intro hown
      obtain ⟨_, hconn⟩ := hown t' i _ _ buf (move_pc_self _ _ _ _) ⟨by decide, by decide⟩
        (by rw [move_server, move_server, hself])
      rw [move_server, move_server, hself, hkernel] at hconn
      simp only [Sockets.connection, if_pos hopen] at hconn
      split at hconn
      · exact hfd (congrArg Prod.fst (Option.some.inj hconn))
      · cases hconn
  | sent i ret conn buf =>
    rw [hpc'] at htol hpc₁
    obtain ⟨rfl, hrest⟩ := Classical.not_imp.mp htol
    obtain ⟨hfail, hconn⟩ := Classical.not_imp.mp hrest
    refine ⟨[], _, Steps.nil _, fun a ha => (nomatch ha), ?_⟩
    intro hown
    obtain ⟨_, hsame⟩ := hown t' i ret conn buf hpc₁ hfail (by rw [move_server, hself])
    rw [move_server, hself, hkernel] at hsame
    exact hconn hsame
  | _ => rw [hpc'] at htol; exact absurd trivial htol

end flight

/-- **The connection closed.** In every run of `Broadcast` and `Accept` in which
    `Accept` fills slots only as the calls in progress can live with, a
    `Broadcast` closes only the connection on which its own `send` failed.  And any
    other filling of a slot can be followed by the closing of another connection. -/
theorem closes_own_of_fillsTolerated {config : Option SilogRemoteConfig} {env : InitEnv}
    {s₀ : Server} (hinit : silogRemoteInit Server.initial config env = (.ok, s₀))
    {acts : List (Act τ)} {s : System τ} (hrun : Steps ThreadStep (System.start s₀) acts s)
    (hlive : ∀ a ∈ acts, a.isDeinit = false) :
    (Steps (Guarded ThreadStep FillsTolerated) (System.start s₀) acts s → ClosesOwn s) ∧
    (∀ a s', ThreadStep s a s' → ¬ FillsTolerated s a →
      ∃ acts' s₁, Steps ThreadStep (System.start s₀) (acts ++ a :: acts') s₁ ∧
        (∀ b ∈ acts', b.isDeinit = false) ∧ ¬ ClosesOwn s₁) := by
  constructor
  · intro hguard
    have hO := hguard.invariant_of_mem (fun _ a _ ha hR hO => OwnInv.step hO (hlive a ha) hR.2 hR.1)
      (ownInv_start hinit)
    exact hO.closesOwn
  · intro a s' hstep hnot
    unfold FillsTolerated at hnot
    push Not at hnot
    obtain ⟨t, getFl, setFl, fd, slot, rfl, hpc, hplace, hslot, t', htol⟩ := hnot
    have hF := hrun.invariant_of_mem (fun _ a _ ha hR hF => FlightInv.step hF (hlive a ha) hR)
      (ownInv_start hinit).flight
    obtain ⟨acts', s₁, hsteps, hdead, hbad⟩ :=
      not_closesOwn_of_fill hF hstep hpc hplace hslot htol
    exact ⟨acts', s₁, hrun.append (Steps.cons _ _ hstep hsteps), hdead, hbad⟩

/-! ### Two broadcasters and a new client -/

/-- The sends of threads `a` and `b` to the client on descriptor 4 fail; thread `a`
    closes it, and thread `c` puts a new client into the slot. -/
def refillRun : List (Act Caller) :=
  acceptRun .c 4 ++ broadcastRun .a ++ broadcastRun .b ++
  [.send .a .failed, .send .b .failed, .relock .a] ++ acceptRun .c 5

@[irreducible] def refilled : System Caller :=
  (exec System.next (System.start upServer) refillRun).get (by decide +kernel)

theorem refilled_run : Steps ThreadStep (System.start upServer) refillRun refilled := by
  unfold refilled
  exact steps_of_exec (fun _ _ _ h => h) (Option.some_get (by decide +kernel)).symm

/-- What thread `t` is about to close: its slot, the connection of its failed `send` and
    the connection in the slot. -/
def System.closing (s : System τ) (t : τ) : Option (ℕ × Option Connection × Option Connection) :=
  match s.pc t with
  | .sent i ret conn _ =>
    if SendFailed ret ∧ (s.server.mgr.client i).active then
      some (i, conn, s.server.kernel.connection (s.server.mgr.client i).fd)
    else none
  | _ => none

omit [DecidableEq τ] in
theorem ClosesOwn.closing {s : System τ} (h : ClosesOwn s) {t : τ} {i : ℕ}
    {conn conn' : Option Connection} (hc : s.closing t = some (i, conn, conn')) : conn = conn' := by
  unfold System.closing at hc
  split at hc
  · next i ret conn buf hpc =>
    split at hc
    · next hcond =>
      cases hc
      exact (h t _ ret _ buf hpc hcond.1 hcond.2).2
    · cases hc
  · cases hc

/-- Thread `b` closes the new client, on descriptor 5. -/
theorem refill_closes_other :
    silogRemoteInit Server.initial none
      { malloc := true, socket := some 3, bind := true, listen := true, getFl := true,
        setFl := true } = (.ok, upServer) ∧
    Steps ThreadStep (System.start upServer) refillRun refilled ∧
    (∀ a ∈ refillRun, a.isDeinit = false) ∧ ¬ ClosesOwn refilled := by
  have hall : refillRun.all (fun a => !a.isDeinit) = true := rfl
  refine ⟨upServer_init, refilled_run, fun a ha => by simpa using List.all_eq_true.mp hall a ha, ?_⟩
  intro hown
  have hclosing : refilled.closing .b = some (0, some (4, 1), some (5, 1)) := by decide +kernel
  have hsame := hown.closing hclosing
  cases hsame

theorem fillsTolerated_of_calmNext {s s' : System Caller} {a : Act Caller}
    (h : s.calmNext a = some s') : FillsTolerated s a := by
  rintro t getFl setFl fd slot rfl _ _ _ t'
  simp only [System.calmNext] at h
  split at h
  · next hcalm =>
    have ht' : (s.pc t').remembers = false := by
      cases t' with
      | a => exact hcalm.1
      | b => exact hcalm.2.1
      | c => exact hcalm.2.2
    cases hpc : s.pc t' <;> simp [hpc, Pc.remembers] at ht' <;> trivial
  · cases h

theorem closes_own_of_fillsTolerated_failedSend :
    failedSend.closing .a = some (0, some (4, 1), some (4, 1)) ∧ ClosesOwn failedSend := by
  have hguard : Steps (Guarded ThreadStep FillsTolerated) (System.start upServer) failedSendRun
      failedSend :=
    steps_of_exec (fun _ _ _ h => ⟨next_of_calmNext h, fillsTolerated_of_calmNext h⟩) failedSend_exec
  obtain ⟨hown, _⟩ := closes_own_of_fillsTolerated upServer_init failedSend_run failedSend_live
  exact ⟨by decide +kernel, hown hguard⟩

end SiLog.Remote
