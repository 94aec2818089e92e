import SiLog.Remote.Races

/-! # A service with one broadcaster

    The two dangers of `SiLog.Remote.Races` come from calls that run at the same
    time as a `Deinit`, and from several calls of `Broadcast` at once.  This file
    has what holds in a run without either: the books balance at every
    moment, also while a call of `Accept` has a descriptor that is in no slot
    yet, and the slot that `Broadcast` remembers is not touched by anyone else.
-/

open Lts Ledger

namespace SiLog.Remote

variable {τ : Type*} [DecidableEq τ]

/-! ## Section 1: The books while calls are in progress -/

/-- The service with other descriptors. -/
def Server.withKernel (s : Server) (k : Sockets) : Server := { s with kernel := k }

/-- The service is up and its books balance, up to the descriptors in flight: those
    that are open are those with which the books balance as between calls, and
    those that calls of `Accept` have taken. -/
structure LiveAccounts (s : System τ) : Prop where
  on      : s.server.mgr.isInit = true
  flight  : FlightInv s
  nodup   : s.server.kernel.opened.Nodup
  books   : Balanced s.server.kernel.log s.server.kernel.opened
  settled : ∃ k, Accounts (s.server.withKernel k) ∧
    (∀ fd, fd ∈ s.server.kernel.opened ↔ fd ∈ k.opened ∨ ∃ t, inFlight (s.pc t) = some fd) ∧
    ∀ t fd, inFlight (s.pc t) = some fd → fd ∉ k.opened

section live
variable {s s' : System τ} {t : τ}

omit [DecidableEq τ] in
/-- A step that leaves the manager, the open descriptors and those in flight. -/
theorem LiveAccounts.congr (hL : LiveAccounts s) (hF : FlightInv s')
    (hmgr : s'.server.mgr = s.server.mgr) (hhist : s'.server.history = s.server.history)
    (hopened : s'.server.kernel.opened = s.server.kernel.opened)
    (hlog : s'.server.kernel.log = s.server.kernel.log)
    (hflight : ∀ t, inFlight (s'.pc t) = inFlight (s.pc t)) : LiveAccounts s' := by
  obtain ⟨k, hA, hmem, hapart⟩ := hL.settled
  refine ⟨?_, hF, ?_, ?_, k, ?_, ?_, ?_⟩
  · rw [hmgr]
    exact hL.on
  · rw [hopened]
    exact hL.nodup
  · rw [hopened, hlog]
    exact hL.books
  · have hsame : s'.server.withKernel k = s.server.withKernel k := by
      simp only [Server.withKernel, hmgr, hhist]
    rw [hsame]
    exact hA
  · intro fd
    rw [hopened, hmem]
    simp only [hflight]
  · intro t fd hfd
    rw [hflight] at hfd
    exact hapart t fd hfd

/-- The descriptors in flight when `t` goes on to a place with the same one. -/
theorem inFlight_move {server : Server} {pc : Pc} (hpc : inFlight pc = inFlight (s.pc t)) (t' : τ) :
    inFlight ((s.move t server pc).pc t') = inFlight (s.pc t') := by
  by_cases ht : t' = t
  · subst ht
    rw [move_pc_self]
    exact hpc
  · rw [move_pc_of_ne _ _ _ ht]

/-- A step of `t` that changes no more than what was sent. -/
theorem LiveAccounts.move (hL : LiveAccounts s) {k : Sockets} {pc : Pc}
    (hF : FlightInv (s.move t { s.server with kernel := k } pc))
    (hopened : k.opened = s.server.kernel.opened) (hlog : k.log = s.server.kernel.log)
    (hpc : inFlight pc = inFlight (s.pc t)) :
    LiveAccounts (s.move t { s.server with kernel := k } pc) :=
  hL.congr hF rfl rfl hopened hlog (inFlight_move hpc)

theorem LiveAccounts.send {r : SendResult} (hL : LiveAccounts s)
    (hstep : ThreadStep s (.send t r) s') : LiveAccounts s' := by
  have hF := hL.flight.send hstep
  obtain ⟨i, fd, rest, buf, k, pc, hpc, rfl, hopened, hlog, hcase⟩ := step_send hstep
  apply hL.move hF hopened hlog
  rw [hpc]
  rcases hcase with ⟨left, rfl⟩ | ⟨ret, rfl⟩ <;> rfl

/-- A descriptor that `t` takes. -/
theorem LiveAccounts.acceptCall {r : AcceptResult} (hL : LiveAccounts s)
    (hstep : ThreadStep s (.acceptCall t r) s') : LiveAccounts s' := by
  have hF := hL.flight.acceptCall hstep
  obtain ⟨hpc, rfl | ⟨fd, _, _, hfresh, rfl⟩⟩ := step_acceptCall hstep
  · apply hL.move hF rfl rfl
    rw [hpc]
    rfl
  · obtain ⟨k, hA, hmem, hapart⟩ := hL.settled
    have hnew : fd ∉ k.opened := by
      intro hk
      exact hfresh ((hmem fd).mpr (Or.inl hk))
    refine ⟨hL.on, hF, List.nodup_cons.mpr ⟨hfresh, hL.nodup⟩, books_open hL.books hfresh,
      k, hA, ?_, ?_⟩
    · intro f
      show f ∈ fd :: s.server.kernel.opened ↔ _
      rw [List.mem_cons, hmem]
      constructor
      · rintro (rfl | hk | ⟨t', hf⟩)
        · exact Or.inr ⟨t, by rw [move_pc_self]; rfl⟩
        · exact Or.inl hk
        · have ht : t' ≠ t := by
            rintro rfl
            rw [hpc] at hf
            cases hf
          exact Or.inr ⟨t', by rw [move_pc_of_ne _ _ _ ht]; exact hf⟩
      · rintro (hk | ⟨t', hf⟩)
        · exact Or.inr (Or.inl hk)
        · by_cases ht : t' = t
          · subst ht
            rw [move_pc_self] at hf
            exact Or.inl (Option.some.inj hf).symm
          · rw [move_pc_of_ne _ _ _ ht] at hf
            exact Or.inr (Or.inr ⟨t', hf⟩)
    · intro t' f hf
      by_cases ht : t' = t
      · subst ht
        rw [move_pc_self] at hf
        rw [← Option.some.inj hf]
        exact hnew
      · rw [move_pc_of_ne _ _ _ ht] at hf
        exact hapart t' f hf

/-- The descriptors in flight without the one that `t` gives away. -/
theorem inFlight_given {server : Server} {fd f : ℤ} (hF : FlightInv s)
    (hfd : inFlight (s.pc t) = some fd) :
    (∃ t', inFlight ((s.move t server .idle).pc t') = some f) ↔
      f ≠ fd ∧ ∃ t', inFlight (s.pc t') = some f := by
  constructor
  · rintro ⟨t', hf⟩
    have ht : t' ≠ t := by
      rintro rfl
      rw [move_pc_self] at hf
      cases hf
    rw [move_pc_of_ne _ _ _ ht] at hf
    refine ⟨?_, t', hf⟩
    rintro rfl
    exact ht (hF.apart t' t _ hf hfd)
  · rintro ⟨hne, t', hf⟩
    have ht : t' ≠ t := by
      rintro rfl
      rw [hf] at hfd
      exact hne (Option.some.inj hfd)
    exact ⟨t', by rw [move_pc_of_ne _ _ _ ht]; exact hf⟩

theorem LiveAccounts.acceptLock {getFl setFl : Bool} (hL : LiveAccounts s)
    (hstep : ThreadStep s (.acceptLock t getFl setFl) s') : LiveAccounts s' := by
  have hF := hL.flight.acceptLock hstep
  obtain ⟨fd, hpc, ⟨_, rfl⟩ | ⟨server, hplace, rfl⟩⟩ := step_acceptLock hstep
  · apply hL.move hF rfl rfl
    rw [hpc]
    rfl
  · obtain ⟨hroom, slot, hslot, rfl⟩ := acceptLocked_some hplace
    have hfd : inFlight (s.pc t) = some fd := by
      rw [hpc]
      rfl
    obtain ⟨k, hA, hmem, hapart⟩ := hL.settled
    have hnew := hapart t fd hfd
    have hpos := (hL.flight.flight t fd hfd).1
    -- the descriptor goes from the call to the balanced service
    refine ⟨hL.on, hF, hL.nodup, hL.books, k.open fd,
      hA.accept hpos hnew hL.on hroom hslot, ?_, ?_⟩
    · intro f
      rw [inFlight_given hL.flight hfd]
      show f ∈ s.server.kernel.opened ↔ f ∈ fd :: k.opened ∨ _
      rw [hmem, List.mem_cons]
      by_cases hf : f = fd
      · subst hf
        exact iff_of_true (Or.inr ⟨t, hfd⟩) (Or.inl (Or.inl rfl))
      · simp only [hf, false_or, ne_eq, not_false_eq_true, true_and]
    · intro t' f hf
      obtain ⟨hne, t'', hf'⟩ := (inFlight_given hL.flight hfd).mp ⟨t', hf⟩
      show f ∉ fd :: k.opened
      rw [List.mem_cons, not_or]
      exact ⟨hne, hapart t'' f hf'⟩

theorem LiveAccounts.acceptClose (hL : LiveAccounts s) (hstep : ThreadStep s (.acceptClose t) s') :
    LiveAccounts s' := by
  have hF := hL.flight.acceptClose hstep
  obtain ⟨fd, hpc, rfl⟩ := step_acceptClose hstep
  have hfd : inFlight (s.pc t) = some fd := by
    rw [hpc]
    rfl
  obtain ⟨k, hA, hmem, hapart⟩ := hL.settled
  have hopen := (hL.flight.flight t fd hfd).2.1
  refine ⟨hL.on, hF, hL.nodup.erase _, books_close hL.books hL.nodup hopen, k, hA, ?_, ?_⟩
  · intro f
    rw [inFlight_given hL.flight hfd]
    show f ∈ (s.server.kernel.close fd).opened ↔ _
    rw [mem_close hL.nodup, hmem]
    constructor
    · rintro ⟨hne, hk | hf⟩
      · exact Or.inl hk
      · exact Or.inr ⟨hne, hf⟩
    · rintro (hk | ⟨hne, hf⟩)
      · refine ⟨?_, Or.inl hk⟩
        rintro rfl
        exact hapart t _ hfd hk
      · exact ⟨hne, Or.inr hf⟩
  · intro t' f hf
    obtain ⟨_, t'', hf'⟩ := (inFlight_given hL.flight hfd).mp ⟨t', hf⟩
    exact hapart t'' f hf'

/-- What closing a slot does to the manager does not depend on the descriptors. -/
theorem close_with_kernel (server : Server) (k : Sockets) (i : ℕ) :
    ∃ k', silogRemoteCloseClientInternal (server.withKernel k) i =
        (silogRemoteCloseClientInternal server i).withKernel k' ∧
      (((silogRemoteCloseClientInternal server i).kernel = server.kernel ∧ k' = k) ∨
        ((server.mgr.client i).active ∧
          (silogRemoteCloseClientInternal server i).kernel =
            server.kernel.close (server.mgr.client i).fd ∧
          k' = k.close (server.mgr.client i).fd)) := by
  by_cases hi : server.mgr.maxClients.toNat ≤ i
  · have hsame : ∀ server' : Server, server'.mgr = server.mgr →
        silogRemoteCloseClientInternal server' i = server' := by
      intro server' hmgr
      unfold silogRemoteCloseClientInternal
      rw [hmgr, if_pos hi]
    rw [hsame server rfl]
    exact ⟨k, hsame _ rfl, Or.inl ⟨rfl, rfl⟩⟩
  · unfold silogRemoteCloseClientInternal
    rw [if_neg hi, if_neg (show ¬ (server.withKernel k).mgr.maxClients.toNat ≤ i from hi)]
    by_cases hact : (server.mgr.client i).active ∧ 0 ≤ (server.mgr.client i).fd
    · refine ⟨k.close (server.mgr.client i).fd, ?_, Or.inr ⟨hact.1, ?_, rfl⟩⟩
      · dsimp only [Server.withKernel]
        congr 1
        exact if_pos hact
      · exact if_pos hact
    · refine ⟨k, ?_, Or.inl ⟨?_, rfl⟩⟩
      · dsimp only [Server.withKernel]
        congr 1
        exact if_neg hact
      · exact if_neg hact

theorem LiveAccounts.relock (hL : LiveAccounts s) (hstep : ThreadStep s (.relock t) s') :
    LiveAccounts s' := by
  have hF := hL.flight.relock hstep
  obtain ⟨i, ret, conn, buf, hpc, rfl⟩ := step_relock hstep
  have hnone : inFlight (s.pc t) = none := by
    rw [hpc]
    rfl
  have hflight : ∀ (server : Server) (m : SilogRemoteManager) (t' : τ),
      inFlight ((s.move t server (broadcastFrom m buf (i + 1))).pc t') = inFlight (s.pc t') := by
    intro server m
    apply inFlight_move
    rw [hnone]
    exact inFlight_broadcastFrom m buf (i + 1)
  rcases afterSend_cases s.server i ret with hsame | ⟨_, hi, hclose⟩
  · rw [hsame] at hF ⊢
    exact hL.congr hF rfl rfl rfl rfl (hflight _ _)
  · rw [hclose] at hF ⊢
    obtain ⟨k, hA, hmem, hapart⟩ := hL.settled
    obtain ⟨k', heq, hkernel⟩ := close_with_kernel s.server k i
    have hA' : Accounts ((silogRemoteCloseClientInternal s.server i).withKernel k') := by
      rw [← heq]
      exact hA.close hi
    have hon : (silogRemoteCloseClientInternal s.server i).mgr.isInit = true := by
      rw [close_isInit]
      exact hL.on
    rcases hkernel with ⟨hreal, rfl⟩ | ⟨hact, hreal, rfl⟩
    · refine ⟨hon, hF, ?_, ?_, k', hA', ?_, ?_⟩
      · rw [move_server, hreal]
        exact hL.nodup
      · rw [move_server, hreal]
        exact hL.books
      · intro fd
        rw [move_server, hreal, hmem]
        simp only [hflight]
      · intro t' fd hfd
        rw [hflight] at hfd
        exact hapart t' fd hfd
    · have hopen := (hL.flight.slots.opened i hact).2
      refine ⟨hon, hF, ?_, ?_, _, hA', ?_, ?_⟩
      · rw [move_server, hreal]
        exact hL.nodup.erase _
      · rw [move_server, hreal]
        exact books_close hL.books hL.nodup hopen
      · intro fd
        simp only [hflight]
        have hnd : k.opened.Nodup := hA.nodup
        rw [move_server, hreal, mem_close hL.nodup, mem_close hnd, hmem]
        constructor
        · rintro ⟨hne, hk | hf⟩
          · exact Or.inl ⟨hne, hk⟩
          · exact Or.inr hf
        · rintro (⟨hne, hk⟩ | ⟨t', hf⟩)
          · exact ⟨hne, Or.inl hk⟩
          · -- no slot holds a descriptor in flight
            exact ⟨Ne.symm ((hL.flight.flight t' fd hf).2.2 i hact), Or.inr ⟨t', hf⟩⟩
      · intro t' fd hfd hk
        rw [hflight] at hfd
        exact hapart t' fd hfd (List.mem_of_mem_erase hk)

theorem LiveAccounts.step {a : Act τ} (hL : LiveAccounts s) (hlive : a.isDeinit = false)
    (hstep : ThreadStep s a s') : LiveAccounts s' := by
  have hF := hL.flight.step hlive hstep
  cases a with
  | broadcast t entry =>
    obtain ⟨hpc, pc, rfl, hcase⟩ := step_broadcast hstep
    apply hL.move hF rfl rfl
    rw [hpc]
    rcases hcase with rfl | ⟨e, rfl⟩ <;> rfl
  | broadcastLock t =>
    obtain ⟨e, hpc, rfl⟩ := step_broadcastLock hstep
    apply hL.move hF rfl rfl
    rw [hpc, inFlight_broadcastLocked]
    rfl
  | send t r => exact hL.send hstep
  | relock t => exact hL.relock hstep
  | accept t =>
    obtain ⟨hpc, pc, rfl, hcase⟩ := step_accept hstep
    apply hL.move hF rfl rfl
    rw [hpc]
    rcases hcase with rfl | rfl <;> rfl
  | acceptCall t r => exact hL.acceptCall hstep
  | acceptLock t getFl setFl => exact hL.acceptLock hstep
  | acceptClose t => exact hL.acceptClose hstep
  | deinit t => cases hlive

omit [DecidableEq τ] in
/-- With nothing in flight the books are those of the service between calls. -/
theorem LiveAccounts.accounts (hL : LiveAccounts s) (hnone : ∀ t, inFlight (s.pc t) = none) :
    Accounts s.server := by
  obtain ⟨k, hA, hmem, _⟩ := hL.settled
  have hsame : ∀ fd, fd ∈ s.server.kernel.opened ↔ fd ∈ k.opened := by
    intro fd
    rw [hmem]
    simp [hnone]
  refine ⟨hL.flight.slots, hA.below, hA.count, hL.nodup, hL.books, ?_, hA.listen, hA.table, hA.off⟩
  intro fd
  rw [hsame]
  exact hA.owned fd

omit [DecidableEq τ] in
/-- A service that is up between calls. -/
theorem Accounts.live (hA : Accounts s.server) (hon : s.server.mgr.isInit = true)
    (hnone : ∀ t, inFlight (s.pc t) = none) : LiveAccounts s := by
  refine ⟨hon, ⟨hA.slots, hA.table hon, ?_, ?_⟩, hA.nodup, hA.books, s.server.kernel, hA, ?_, ?_⟩
  · intro t fd hfd
    rw [hnone] at hfd
    cases hfd
  · intro t t' fd hfd
    rw [hnone] at hfd
    cases hfd
  · intro fd
    simp [hnone]
  · intro t fd hfd
    rw [hnone] at hfd
    cases hfd

end live

/-- Who can have an open descriptor. -/
inductive Holder (τ : Type*) where
  | listener
  | slot (i : ℕ)
  | call (t : τ)

def Holds (s : System τ) (fd : ℤ) : Holder τ → Prop
  | .listener => s.server.mgr.listenFd = fd
  | .slot i => (s.server.mgr.client i).active ∧ (s.server.mgr.client i).fd = fd
  | .call t => inFlight (s.pc t) = some fd

section holders
variable {s : System τ}

omit [DecidableEq τ] in
/-- The listening socket is in no slot and with no call. -/
theorem LiveAccounts.listener_apart (hL : LiveAccounts s) {h : Holder τ}
    (hh : Holds s s.server.mgr.listenFd h) : h = .listener := by
  obtain ⟨k, hA, _, hapart⟩ := hL.settled
  cases h with
  | listener => rfl
  | slot i => exact absurd hh.2 ((hA.listen hL.on).2 i hh.1)
  | call t => exact absurd ((hA.owned _).mpr (Or.inl ⟨hL.on, rfl⟩)) (hapart t _ hh)

omit [DecidableEq τ] in
/-- A descriptor that a call has taken is in no slot. -/
theorem LiveAccounts.call_apart (hL : LiveAccounts s) {fd : ℤ} {i : ℕ} {t : τ}
    (hslot : Holds s fd (.slot i)) (hcall : Holds s fd (.call t)) : False :=
  (hL.flight.flight t fd hcall).2.2 i hslot.1 hslot.2

omit [DecidableEq τ] in
theorem LiveAccounts.holder_unique (hL : LiveAccounts s) {fd : ℤ} {h h' : Holder τ}
    (hh : Holds s fd h) (hh' : Holds s fd h') : h = h' := by
  cases h with
  | listener =>
    have hfd : s.server.mgr.listenFd = fd := hh
    rw [← hfd] at hh'
    exact (hL.listener_apart hh').symm
  | slot i =>
    cases h' with
    | listener =>
      have hfd : s.server.mgr.listenFd = fd := hh'
      rw [← hfd] at hh
      exact hL.listener_apart hh
    | slot j =>
      rw [hL.flight.slots.distinct i j hh.1 hh'.1 (hh.2.trans hh'.2.symm)]
    | call t => exact (hL.call_apart hh hh').elim
  | call t =>
    cases h' with
    | listener =>
      have hfd : s.server.mgr.listenFd = fd := hh'
      rw [← hfd] at hh
      exact hL.listener_apart hh
    | slot j => exact (hL.call_apart hh' hh).elim
    | call t' => rw [hL.flight.apart t t' fd hh hh']

omit [DecidableEq τ] in
/-- An open descriptor has exactly one holder. -/
theorem LiveAccounts.holder (hL : LiveAccounts s) {fd : ℤ} (hfd : fd ∈ s.server.kernel.opened) :
    ∃! h, Holds s fd h := by
  have hsome : ∃ h, Holds s fd h := by
    obtain ⟨k, hA, hmem, _⟩ := hL.settled
    rcases (hmem fd).mp hfd with hk | ⟨t, ht⟩
    · rcases (hA.owned fd).mp hk with ⟨_, hlisten⟩ | ⟨i, hi⟩
      · exact ⟨.listener, hlisten.symm⟩
      · exact ⟨.slot i, hi⟩
    · exact ⟨.call t, ht⟩
  obtain ⟨h, hh⟩ := hsome
  exact ⟨h, hh, fun h' hh' => hL.holder_unique hh' hh⟩

end holders

/-! ## Section 2: The slot that `Broadcast` remembers -/

/-- The slot that the call at `pc` remembers is in use, with the connection it sends to. -/
def KeepsSlot (server : Server) : Pc → Prop
  | .sending i fd _ _ => (server.mgr.client i).active ∧ (server.mgr.client i).fd = fd
  | .sent i _ conn _ => (server.mgr.client i).active ∧
      conn = server.kernel.connection (server.mgr.client i).fd
  | _ => True

/-- At most one thread is in the loop of `Broadcast`. -/
def OneBroadcaster (s : System τ) : Prop :=
  ∀ t t', (s.pc t).remembers → (s.pc t').remembers → t = t'

section keeps
variable {s s' : System τ} {t : τ}

theorem keepsSlot_of_not_remembers {server : Server} {pc : Pc} (h : pc.remembers = false) :
    KeepsSlot server pc := by
  cases pc with
  | sending i fd rest buf => cases h
  | sent i ret conn buf => cases h
  | _ => trivial

/-- The slots in use and their connections stay. -/
theorem KeepsSlot.mono {server server' : Server} {pc : Pc} (h : KeepsSlot server pc)
    (hclient : ∀ i, (server.mgr.client i).active → server'.mgr.client i = server.mgr.client i)
    (hconn : ∀ i, (server.mgr.client i).active →
      server'.kernel.connection (server.mgr.client i).fd =
        server.kernel.connection (server.mgr.client i).fd) : KeepsSlot server' pc := by
  cases pc with
  | sending i fd rest buf =>
    obtain ⟨hact, hfd⟩ := h
    show (server'.mgr.client i).active ∧ (server'.mgr.client i).fd = fd
    rw [hclient i hact]
    exact ⟨hact, hfd⟩
  | sent i ret conn buf =>
    obtain ⟨hact, hc⟩ := h
    show (server'.mgr.client i).active ∧ conn = server'.kernel.connection (server'.mgr.client i).fd
    rw [hclient i hact, hconn i hact]
    exact ⟨hact, hc⟩
  | _ => trivial

theorem keepsSlot_broadcastFrom (server : Server) (buf : List UInt8) (k : ℕ) :
    KeepsSlot server (broadcastFrom server.mgr buf k) := by
  rcases broadcastFrom_cases server.mgr buf k with h | ⟨i, _, _, hact, h⟩ <;> rw [h]
  · trivial
  · exact ⟨hact, rfl⟩

theorem keepsSlot_broadcastLocked (server : Server) (e : LogEntry) :
    KeepsSlot server (broadcastLocked server.mgr e) := by
  rcases broadcastLocked_cases server.mgr e with h | ⟨_, buf, h⟩ <;> rw [h]
  · trivial
  · exact keepsSlot_broadcastFrom server buf 0

/-- A step of `t` after which the others find what they remember. -/
theorem keepsSlot_move {server : Server} {pc : Pc} (hpc : KeepsSlot server pc)
    (hothers : ∀ t', t' ≠ t → KeepsSlot server (s.pc t')) :
    ∀ t', KeepsSlot (s.move t server pc).server ((s.move t server pc).pc t') := by
  intro t'
  by_cases ht : t' = t
  · subst ht
    rw [move_pc_self]
    exact hpc
  · rw [move_pc_of_ne _ _ _ ht]
    exact hothers t' ht

theorem keepsSlot_step {a : Act τ} (hK : ∀ t, KeepsSlot s.server (s.pc t)) (hF : FlightInv s)
    (hone : OneBroadcaster s) (hlive : a.isDeinit = false) (hstep : ThreadStep s a s') :
    ∀ t, KeepsSlot s'.server (s'.pc t) := by
  cases a with
  | broadcast t entry =>
    obtain ⟨_, pc, rfl, rfl | ⟨e, rfl⟩⟩ := step_broadcast hstep <;>
      exact keepsSlot_move trivial fun t' _ => hK t'
  | broadcastLock t =>
    obtain ⟨e, _, rfl⟩ := step_broadcastLock hstep
    exact keepsSlot_move (keepsSlot_broadcastLocked _ _) fun t' _ => hK t'
  | send t r =>
    obtain ⟨i, fd, rest, buf, k, pc, hpc, rfl, hopened, hlog, hcase⟩ := step_send hstep
    have hconn : ∀ f, k.connection f = s.server.kernel.connection f := fun f =>
      connection_congr (by rw [hopened]) (by rw [hlog])
    have hown := hK t
    rw [hpc] at hown
    obtain ⟨hact, hfd⟩ := hown
    apply keepsSlot_move
    · rcases hcase with ⟨left, rfl⟩ | ⟨ret, rfl⟩
      · exact ⟨hact, hfd⟩
      · refine ⟨hact, ?_⟩
        show _ = k.connection _
        rw [hconn, hfd]
    · intro t' _
      exact (hK t').mono (fun _ _ => rfl) fun _ _ => hconn _
  | relock t =>
    obtain ⟨i, ret, conn, buf, hpc, rfl⟩ := step_relock hstep
    apply keepsSlot_move (keepsSlot_broadcastFrom _ _ _)
    intro t' ht
    -- no other thread remembers a slot
    apply keepsSlot_of_not_remembers
    rw [← Bool.not_eq_true]
    intro hrem
    exact ht (hone t' t hrem (by rw [hpc]; rfl))
  | accept t =>
    obtain ⟨_, pc, rfl, rfl | rfl⟩ := step_accept hstep <;>
      exact keepsSlot_move trivial fun t' _ => hK t'
  | acceptCall t r =>
    obtain ⟨_, rfl | ⟨fd, _, _, hfresh, rfl⟩⟩ := step_acceptCall hstep
    · exact keepsSlot_move trivial fun t' _ => hK t'
    · refine keepsSlot_move ?_ ?_
      · trivial
      · intro t' _
        refine (hK t').mono (fun _ _ => rfl) ?_
        intro i hact
        exact connection_open fun heq => hfresh (heq ▸ (hF.slots.opened i hact).2)
  | acceptLock t getFl setFl =>
    obtain ⟨fd, hpc, ⟨_, rfl⟩ | ⟨server, hplace, rfl⟩⟩ := step_acceptLock hstep
    · exact keepsSlot_move trivial fun t' _ => hK t'
    · obtain ⟨_, slot, hslot, rfl⟩ := acceptLocked_some hplace
      obtain ⟨_, hfree⟩ := findFreeSlot_some hslot
      refine keepsSlot_move trivial ?_
      intro t' _
      refine (hK t').mono ?_ (fun _ _ => rfl)
      intro i hact
      -- the slot that is filled was not in use
      apply client_setClient_ne s.server.mgr
      rintro rfl
      rw [hfree] at hact
      cases hact
  | acceptClose t =>
    obtain ⟨fd, hpc, rfl⟩ := step_acceptClose hstep
    have hfd : inFlight (s.pc t) = some fd := by
      rw [hpc]
      rfl
    refine keepsSlot_move trivial ?_
    intro t' _
    refine (hK t').mono (fun _ _ => rfl) ?_
    intro i hact
    exact connection_close ((hF.flight t fd hfd).2.2 i hact)
  | deinit t => cases hlive

end keeps

/-! ## Section 3: Whose step it is -/

/-- The thread that takes a step. -/
def Act.thread : Act τ → τ
  | .broadcast t _ | .broadcastLock t | .send t _ | .relock t => t
  | .accept t | .acceptCall t _ | .acceptLock t _ _ | .acceptClose t => t
  | .deinit t => t

/-- The thread is in no call, or in `Accept`. -/
def Pc.accepts : Pc → Bool
  | .idle | .accepting | .accepted _ | .rejecting _ => true
  | .broadcast _ | .sending _ _ _ _ | .sent _ _ _ _ => false

section thread
variable {s s' : System τ} {t : τ}

theorem step_move {a : Act τ} (h : ThreadStep s a s') : ∃ server pc, s' = s.move a.thread server pc := by
  cases a with
  | broadcast t entry => obtain ⟨_, pc, rfl, _⟩ := step_broadcast h; exact ⟨_, _, rfl⟩
  | broadcastLock t => obtain ⟨_, _, rfl⟩ := step_broadcastLock h; exact ⟨_, _, rfl⟩
  | send t r => obtain ⟨_, _, _, _, _, _, _, rfl, _⟩ := step_send h; exact ⟨_, _, rfl⟩
  | relock t => obtain ⟨_, _, _, _, _, rfl⟩ := step_relock h; exact ⟨_, _, rfl⟩
  | accept t => obtain ⟨_, pc, rfl, _⟩ := step_accept h; exact ⟨_, _, rfl⟩
  | acceptCall t r =>
    obtain ⟨_, rfl | ⟨fd, _, _, _, rfl⟩⟩ := step_acceptCall h
    · exact ⟨_, _, rfl⟩
    · exact ⟨_, _, rfl⟩
  | acceptLock t getFl setFl =>
    obtain ⟨fd, _, ⟨_, rfl⟩ | ⟨server, _, rfl⟩⟩ := step_acceptLock h
    · exact ⟨_, _, rfl⟩
    · exact ⟨_, _, rfl⟩
  | acceptClose t => obtain ⟨_, _, rfl⟩ := step_acceptClose h; exact ⟨_, _, rfl⟩
  | deinit t => obtain ⟨_, rfl⟩ := step_deinit h; exact ⟨_, _, rfl⟩

/-- The other threads stay where they are. -/
theorem step_pc_of_ne {a : Act τ} (h : ThreadStep s a s') (hne : t ≠ a.thread) : s'.pc t = s.pc t := by
  obtain ⟨server, pc, rfl⟩ := step_move h
  exact move_pc_of_ne s server pc hne

/-- A thread that is not in `Broadcast` gets there by calling it only. -/
theorem accepts_step {a : Act τ} (h : ThreadStep s a s') (hacc : (s.pc t).accepts)
    (hcall : ∀ entry, a ≠ .broadcast t entry) : (s'.pc t).accepts := by
  by_cases ht : t = a.thread
  · cases a with
    | broadcast t' entry =>
      obtain rfl : t = t' := ht
      exact absurd rfl (hcall entry)
    | broadcastLock t' =>
      obtain rfl : t = t' := ht
      obtain ⟨e, hpc, _⟩ := step_broadcastLock h
      rw [hpc] at hacc
      cases hacc
    | send t' r =>
      obtain rfl : t = t' := ht
      obtain ⟨_, _, _, _, _, _, hpc, _⟩ := step_send h
      rw [hpc] at hacc
      cases hacc
    | relock t' =>
      obtain rfl : t = t' := ht
      obtain ⟨_, _, _, _, hpc, _⟩ := step_relock h
      rw [hpc] at hacc
      cases hacc
    | accept t' =>
      obtain rfl : t = t' := ht
      obtain ⟨_, pc, rfl, rfl | rfl⟩ := step_accept h <;> rw [move_pc_self] <;> rfl
    | acceptCall t' r =>
      obtain rfl : t = t' := ht
      obtain ⟨_, rfl | ⟨fd, _, _, _, rfl⟩⟩ := step_acceptCall h <;> rw [move_pc_self] <;> rfl
    | acceptLock t' getFl setFl =>
      obtain rfl : t = t' := ht
      obtain ⟨fd, _, ⟨_, rfl⟩ | ⟨server, _, rfl⟩⟩ := step_acceptLock h <;> rw [move_pc_self] <;> rfl
    | acceptClose t' =>
      obtain rfl : t = t' := ht
      obtain ⟨_, _, rfl⟩ := step_acceptClose h
      rw [move_pc_self]
      rfl
    | deinit t' =>
      obtain rfl : t = t' := ht
      obtain ⟨_, rfl⟩ := step_deinit h
      rw [move_pc_self]
      rfl
  · rw [step_pc_of_ne h ht]
    exact hacc

omit [DecidableEq τ] in
theorem not_remembers_of_accepts (h : (s.pc t).accepts) : (s.pc t).remembers = false := by
  cases hpc : s.pc t with
  | sending i fd rest buf => rw [hpc] at h; cases h
  | sent i ret conn buf => rw [hpc] at h; cases h
  | _ => rfl

end thread

end SiLog.Remote
