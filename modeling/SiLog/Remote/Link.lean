import SiLog.Remote.Accounting
import SiLog.Remote.Client
import Mathlib.Data.List.Forall2

/-! # The remote link, from `Broadcast` to the callback

    The service and a client, with the connections between them.  A connection
    waits at the listening socket until `SilogRemoteAccept` takes it.  What
    the service sends on it arrives in order, in any pieces and at any time,
    and maybe not at all.  The service may have other clients too, and both
    sides may start, stop and break connections as they like.

    The results are about the whole link.  As long as no record stalls, what
    the callback gets on a connection are entries that were broadcast after
    it was accepted, and over all connections none comes twice.  When no
    `send` blocks or fails, none is left out either.
-/

open Lts Blocks

namespace SiLog.Remote

/-! ## Section 1: What a call does to a connection -/

section fate
variable {s s' : Server} {c : Call} {j : ℕ}

/-- A record that is given up is not sent whole. -/
theorem sendLoop_lt {fuel : ℕ} {results : ℕ → SendResult} {buf : List UInt8}
    (hret : (sendLoop fuel results buf).2 ≠ .ok) :
    (sendLoop fuel results buf).1.length < buf.length := by
  induction fuel generalizing results buf with
  | zero => exact absurd rfl hret
  | succ fuel ih =>
    by_cases hne : buf = []
    · rw [sendLoop, if_pos hne] at hret
      exact absurd rfl hret
    · have hpos : 0 < buf.length := List.length_pos_iff.mpr hne
      cases h₀ : results 0 with
      | accepted k =>
        simp only [sendLoop, hne, if_false, h₀] at hret ⊢
        have hlt := ih hret
        rw [List.length_drop] at hlt
        rw [List.length_append, List.length_take]
        omega
      | wouldBlock => simpa [sendLoop, hne, h₀] using hpos
      | zero => simpa [sendLoop, hne, h₀] using hpos
      | failed => simpa [sendLoop, hne, h₀] using hpos

/-- The turn of slot `i` sends on the descriptor of slot `i` only. -/
theorem broadcastTo_sent (buf : List UInt8) (sends : ℕ → ℕ → SendResult) (count : ℕ) (hS : Slots s)
    (i : ℕ) (fd : ℤ) :
    (broadcastTo buf sends (s, count) i).1.kernel.sent fd =
      if (s.mgr.client i).active ∧ (s.mgr.client i).fd = fd then
        s.kernel.sent fd ++ (silogRemoteSendFull (sends i) buf).1
      else s.kernel.sent fd := by
  have hpush : ∀ bytes, (s.kernel.push (s.mgr.client i).fd bytes).sent fd =
      if (s.mgr.client i).fd = fd then s.kernel.sent fd ++ bytes else s.kernel.sent fd := by
    intro bytes
    by_cases hfd : (s.mgr.client i).fd = fd
    · rw [if_pos hfd, Sockets.push, hfd]
      exact Function.update_self _ _ _
    · rw [if_neg hfd]
      exact Function.update_of_ne (Ne.symm hfd) _ _
  obtain ⟨hskip, h⟩ | ⟨hact, _, h⟩ | ⟨hact, _, _, h⟩ := broadcastTo_cases buf sends count s i
  · have hidle : ¬ (s.mgr.client i).active := by
      intro hact
      obtain hoff | hneg := hskip
      · rw [hoff] at hact
        cases hact
      · exact absurd (hS.opened i hact).1 (by omega)
    rw [h, if_neg fun hand => hidle hand.1]
  · rw [h]
    simp only [hpush, hact, true_and]
  · rw [h]
    simp only [close_sent, hpush, hact, true_and]

/-- The loop of a broadcast does not touch a descriptor that none of its slots holds. -/
theorem foldl_sent_other (buf : List UInt8) (sends : ℕ → ℕ → SendResult) (count : ℕ) {l : List ℕ}
    (hS : Slots s) (hl : ∀ i ∈ l, i < s.mgr.maxClients.toNat) (hnodup : l.Nodup) {fd : ℤ}
    (hfree : ∀ i ∈ l, (s.mgr.client i).active → (s.mgr.client i).fd ≠ fd) :
    (l.foldl (broadcastTo buf sends) (s, count)).1.kernel.sent fd = s.kernel.sent fd := by
  induction l generalizing s count with
  | nil => rfl
  | cons i l ih =>
    obtain ⟨hi, hnodup'⟩ := List.nodup_cons.mp hnodup
    have hS₁ := hS.broadcastTo buf sends count (hl i List.mem_cons_self)
    have hmax := broadcastTo_maxClients buf sends count (s := s) (i := i)
    have hne : ¬ ((s.mgr.client i).active ∧ (s.mgr.client i).fd = fd) :=
      fun hand => hfree i List.mem_cons_self hand.1 hand.2
    rw [List.foldl_cons, ih _ hS₁ (fun j hj => by rw [hmax]; exact hl j (List.mem_cons_of_mem i hj))
      hnodup', broadcastTo_sent buf sends count hS, if_neg hne]
    intro j hj hact
    have hji : j ≠ i := fun h => hi (h ▸ hj)
    have hsame := (broadcastTo_other buf sends count hS hji).1
    rw [hsame] at hact ⊢
    exact hfree j (List.mem_cons_of_mem i hj) hact

/-- The loop of a broadcast sends one record, or a part of it, to each slot that it gets to. -/
theorem foldl_sent (buf : List UInt8) (sends : ℕ → ℕ → SendResult) (count : ℕ) {l : List ℕ}
    (hS : Slots s) (hl : ∀ i ∈ l, i < s.mgr.maxClients.toNat) (hnodup : l.Nodup) (hj : j ∈ l)
    (hact : (s.mgr.client j).active) :
    (l.foldl (broadcastTo buf sends) (s, count)).1.kernel.sent (s.mgr.client j).fd =
      s.kernel.sent (s.mgr.client j).fd ++ (silogRemoteSendFull (sends j) buf).1 := by
  induction l generalizing s count with
  | nil => exact absurd hj List.not_mem_nil
  | cons i l ih =>
    obtain ⟨hi, hnodup'⟩ := List.nodup_cons.mp hnodup
    have hS₁ := hS.broadcastTo buf sends count (hl i List.mem_cons_self)
    have hmax := broadcastTo_maxClients buf sends count (s := s) (i := i)
    have hl₁ : ∀ k ∈ l, k < (broadcastTo buf sends (s, count) i).1.mgr.maxClients.toNat :=
      fun k hk => by rw [hmax]; exact hl k (List.mem_cons_of_mem i hk)
    rw [List.foldl_cons]
    by_cases hji : j = i
    · subst hji
      rw [foldl_sent_other buf sends _ hS₁ hl₁ hnodup', broadcastTo_sent buf sends count hS,
        if_pos ⟨hact, rfl⟩]
      intro k hk hactk
      have hkj : k ≠ j := fun h => hi (h ▸ hk)
      have hsame := (broadcastTo_other buf sends count hS hkj).1
      rw [hsame] at hactk ⊢
      exact fun heq => hkj (hS.distinct k j hactk hact heq)
    · have hsame := (broadcastTo_other buf sends count hS hji).1
      have hjl : j ∈ l := (List.mem_cons.mp hj).resolve_left hji
      have hrest := ih (broadcastTo buf sends (s, count) i).2 hS₁ hl₁ hnodup' hjl
        (by rw [hsame]; exact hact)
      rw [hsame] at hrest
      rw [hrest, broadcastTo_sent buf sends count hS, if_neg]
      exact fun hand => hji (hS.distinct j i hact hand.1 hand.2.symm)

theorem close_listenFd (s : Server) (i : ℕ) :
    (silogRemoteCloseClientInternal s i).mgr.listenFd = s.mgr.listenFd := by
  unfold silogRemoteCloseClientInternal
  split
  · rfl
  · rfl

theorem foldl_listenFd (buf : List UInt8) (sends : ℕ → ℕ → SendResult) (count : ℕ) (l : List ℕ) :
    (l.foldl (broadcastTo buf sends) (s, count)).1.mgr.listenFd = s.mgr.listenFd := by
  induction l generalizing s count with
  | nil => rfl
  | cons i l ih =>
    rw [List.foldl_cons, ih]
    obtain ⟨_, h⟩ | ⟨_, _, h⟩ | ⟨_, _, _, h⟩ := broadcastTo_cases buf sends count s i
    · rw [h]
    · rw [h]
    · rw [h, close_listenFd]

theorem closeAll_sent (l : List ℕ) :
    (l.foldl silogRemoteCloseClientInternal s).kernel.sent = s.kernel.sent := by
  induction l generalizing s with
  | nil => rfl
  | cons i l ih => rw [List.foldl_cons, ih, close_sent]

/-- What a call sends to slot `j`. -/
def taken (c : Call) (j : ℕ) : List UInt8 :=
  match c with
  | .broadcast (some e) sends => (silogRemoteSendFull (sends j) (entryBytes e)).1
  | _ => []

/-- The call does not give up slot `j`. -/
def Keeps (c : Call) (j : ℕ) : Prop :=
  match c with
  | .broadcast (some e) sends =>
    (silogRemoteSendFull (sends j) (entryBytes e)).2 = .ok ∨
      (silogRemoteSendFull (sends j) (entryBytes e)).2 = .netTimeout
  | _ => True

theorem Accounts.on_of_active (hA : Accounts s) (hact : (s.mgr.client j).active) :
    s.mgr.isInit ∧ s.mgr.clientCount ≠ 0 := by
  have hon : s.mgr.isInit := by
    by_contra hoff
    rw [SilogRemoteManager.client, (hA.off (Bool.not_eq_true _ ▸ hoff)).1] at hact
    cases hact
  refine ⟨hon, fun hzero => ?_⟩
  have hcard := hA.count
  rw [hzero] at hcard
  have hmem : j ∈ activeSlots s.mgr := mem_activeSlots.mpr ⟨hA.below j hact, hact⟩
  rw [Finset.card_eq_zero.mp hcard.symm] at hmem
  exact absurd hmem (Finset.notMem_empty j)

/-- A broadcast to the connection in slot `j`. -/
theorem broadcast_fate (hA : Accounts s) (hact : (s.mgr.client j).active) (e : LogEntry)
    (sends : ℕ → ℕ → SendResult) :
    (s.call (.broadcast (some e) sends)).kernel.sent (s.mgr.client j).fd =
        s.kernel.sent (s.mgr.client j).fd ++ taken (.broadcast (some e) sends) j ∧
      ((s.mgr.client j).fd ∈ (s.call (.broadcast (some e) sends)).kernel.opened →
        (s.call (.broadcast (some e) sends)).mgr.client j = s.mgr.client j ∧
          Keeps (.broadcast (some e) sends) j) := by
  obtain ⟨hinit, hcount⟩ := hA.on_of_active hact
  have hl : ∀ i ∈ List.range s.mgr.maxClients.toNat, i < s.mgr.maxClients.toNat :=
    fun i hi => List.mem_range.mp hi
  have hnodup := List.nodup_range (n := s.mgr.maxClients.toNat)
  have hj : j ∈ List.range s.mgr.maxClients.toNat := List.mem_range.mpr (hA.below j hact)
  have hA' := hA.broadcastLoop (entryBytes e) sends 0 hl
  obtain ⟨_, hsame, hafter⟩ := foldl_broadcastTo (entryBytes e) sends 0 hA.slots hnodup hl
  have hsent := foldl_sent (entryBytes e) sends 0 hA.slots hl hnodup hj hact
  have hlisten := foldl_listenFd (s := s) (entryBytes e) sends 0
    (List.range s.mgr.maxClients.toNat)
  simp only [Server.call, broadcast_eq hinit hcount]
  refine ⟨hsent, fun hopen => ?_⟩
  obtain ⟨_, hfd⟩ | ⟨i, hi, hfd⟩ := (hA'.owned _).mp hopen
  · -- the listening socket is another one
    rw [hlisten] at hfd
    exact absurd hfd ((hA.listen hinit).2 j hact)
  · -- a slot that is active afterwards was active before, with the same descriptor
    have hold : (s.mgr.client i).active ∧
        ((List.range s.mgr.maxClients.toNat).foldl (broadcastTo (entryBytes e) sends)
          (s, 0)).1.mgr.client i = s.mgr.client i ∧
        (i < s.mgr.maxClients.toNat → Keeps (.broadcast (some e) sends) i) := by
      by_cases hlt : i < s.mgr.maxClients.toNat
      · have hslot := hafter i (List.mem_range.mpr hlt)
        have hacti : (s.mgr.client i).active := by
          by_contra hidle
          rw [hslot.idle (by simpa using hidle)] at hi
          cases hi
        have hkeeps : Keeps (.broadcast (some e) sends) i := by
          by_contra hnot
          obtain ⟨hok, htime⟩ := not_or.mp hnot
          rw [hslot.lost hacti hok htime] at hi
          cases hi
        exact ⟨hacti, (hslot.kept hacti hkeeps).1, fun _ => hkeeps⟩
      · have hclient := (hsame i (by simpa using hlt)).1
        rw [hclient] at hi
        exact ⟨hi, hclient, fun h => absurd h hlt⟩
    obtain ⟨hacti, hclient, hkeeps⟩ := hold
    rw [hclient] at hfd
    have hij : i = j := hA.slots.distinct i j hacti hact hfd
    subst hij
    exact ⟨hclient, hkeeps (hA.below i hact)⟩

/-- What a call does to the connection in slot `j`: it sends something on it, and if the
    descriptor is still open afterwards, it is in the same slot. -/
theorem call_fate (hA : Accounts s) (hstep : Step s c s') (hact : (s.mgr.client j).active) :
    s'.kernel.sent (s.mgr.client j).fd = s.kernel.sent (s.mgr.client j).fd ++ taken c j ∧
    ((s.mgr.client j).fd ∈ s'.kernel.opened → s'.mgr.client j = s.mgr.client j ∧ Keeps c j) := by
  obtain ⟨hinit, hcount⟩ := hA.on_of_active hact
  have hA' := hA.step hstep
  obtain ⟨hfresh, rfl⟩ := hstep
  cases c with
  | init config env =>
    have hsame : s.call (.init config env) = s := by
      simp only [Server.call, silogRemoteInit, hinit, if_true]
    rw [hsame]
    exact ⟨(List.append_nil _).symm, fun _ => ⟨rfl, trivial⟩⟩
  | accept result getFl setFl =>
    simp only [Server.call]
    obtain h | ⟨fd, hr, _, h | ⟨slot, _, hslot, h⟩⟩ := accept_cases s result getFl setFl
    · rw [h]
      exact ⟨(List.append_nil _).symm, fun _ => ⟨rfl, trivial⟩⟩
    · rw [h]
      refine ⟨?_, fun _ => ⟨rfl, trivial⟩⟩
      exact (hA.slots.open_sent (hfresh fd hr).2 hact).trans (List.append_nil _).symm
    · rw [h]
      refine ⟨?_, fun _ => ⟨?_, trivial⟩⟩
      · exact (hA.slots.open_sent (hfresh fd hr).2 hact).trans (List.append_nil _).symm
      · have hne : j ≠ slot := by
          intro hj
          have hidle := (findFreeSlot_some hslot).2
          rw [← hj, hact] at hidle
          cases hidle
        exact client_setClient_ne s.mgr _ hne
  | broadcast entry sends =>
    cases entry with
    | none =>
      rw [broadcast_early (Or.inr (Or.inl rfl))]
      exact ⟨(List.append_nil _).symm, fun _ => ⟨rfl, trivial⟩⟩
    | some e => exact broadcast_fate hA hact e sends
  | getClientCount => exact ⟨(List.append_nil _).symm, fun _ => ⟨rfl, trivial⟩⟩
  | deinit =>
    have hoff : (s.call .deinit).mgr.isInit = false := by
      simp only [Server.call, silogRemoteDeinit, hinit, Bool.true_eq_false, if_false]
    have hsent : (s.call .deinit).kernel.sent = s.kernel.sent := by
      simp only [Server.call, silogRemoteDeinit, hinit, Bool.true_eq_false, if_false]
      split
      · exact closeAll_sent _
      · exact closeAll_sent _
    refine ⟨by rw [hsent]; exact (List.append_nil _).symm, fun hopen => ?_⟩
    rw [hA'.opened_of_off hoff] at hopen
    exact absurd hopen List.not_mem_nil

end fate

/-! ## Section 2: The link -/

/-- The server's end of a connection. -/
inductive Far where
  /-- It is in the queue of the listening socket. -/
  | waiting
  /-- `accept` returned `fd` for it. -/
  | accepted (fd : ℤ)
  | closed
  deriving DecidableEq

/-- A connection: all that the server sent on it, and how many entries were broadcast
    before it was accepted, or before it was opened as long as it waits. -/
structure Wire where
  far   : Far
  sent  : List UInt8
  since : ℕ

/-- A connection that was just opened, after `n` entries. -/
def Wire.opened (n : ℕ) : Wire := { far := .waiting, sent := [], since := n }

/-- The connection after a call of the server. -/
def Wire.after (s' : Server) (w : Wire) : Wire :=
  match w.far with
  -- closing the listening socket drops what waits there
  | .waiting => if s'.mgr.isInit then w else { w with far := .closed }
  | .accepted fd =>
    { w with far := if fd ∈ s'.kernel.opened then .accepted fd else .closed
             sent := s'.kernel.sent fd }
  | .closed => w

/-- The service and a client, with the connections that the client opened, the latest
    first, one for each of its streams. -/
structure Link where
  server : Server
  client : Client
  wires  : List Wire

def Link.initial : Link := { server := .initial, client := .initial, wires := [] }

inductive LinkAct where
  /-- Any call of the service; connections of other clients are accepted here. -/
  | server (c : Call)
  /-- `SilogRemoteAccept` takes connection `i`. -/
  | accept (i : ℕ) (fd : ℤ) (getFl setFl : Bool)
  | client (a : ClientCall)

/-- The call opens a new connection. -/
def Link.connects (l : Link) (a : ClientCall) : Bool :=
  !l.client.ctx.isConnected && (l.client.call a).ctx.isConnected

/-- The state after a step. -/
def Link.next (l : Link) : LinkAct → Link
  | .server c =>
    let s' := l.server.call c
    { l with server := s', wires := l.wires.map (Wire.after s') }
  | .accept i fd getFl setFl =>
    let s' := l.server.call (.accept (.connection fd) getFl setFl)
    let taken (w : Wire) : Wire :=
      { w with far := .accepted fd, since := l.server.history.length }
    { l with server := s', wires := (l.wires.modify i taken).map (Wire.after s') }
  | .client a =>
    { l with client := l.client.call a
             wires := if l.connects a then .opened l.server.history.length :: l.wires else l.wires }

/-- The bytes that `recv` gives to the client were sent on its connection: they come next. -/
def Arrives (l : Link) : ClientCall → Prop
  | .receive _ (.ready (.data bytes)) =>
    match l.client.streams, l.wires with
    | st :: _, w :: _ => st.received ++ bytes <+: w.sent
    | _, _ => False
  | _ => True

/-- What the system makes sure of at a step. -/
def LinkOk (l : Link) : LinkAct → Prop
  | .server c => FreshFd l.server c
  | .accept i fd getFl setFl =>
    l.server.mgr.isInit ∧ l.wires[i]?.map Wire.far = some .waiting ∧
      FreshFd l.server (.accept (.connection fd) getFl setFl)
  -- a connection is opened to a socket that listens
  | .client a => RecvOk l.client a ∧ Arrives l a ∧ (l.connects a → l.server.mgr.isInit)

instance (l : Link) : (a : ClientCall) → Decidable (Arrives l a)
  | .receive _ (.ready (.data bytes)) =>
    match hst : l.client.streams, hw : l.wires with
    | st :: _, w :: _ =>
      decidable_of_iff (st.received ++ bytes <+: w.sent) (by simp only [Arrives, hst, hw])
    | [], _ => isFalse (by simp only [Arrives, hst, not_false_eq_true])
    | _ :: _, [] => isFalse (by simp only [Arrives, hst, hw, not_false_eq_true])
  | .receive _ (.ready .wouldBlock) => isTrue trivial
  | .receive _ (.ready .failed) => isTrue trivial
  | .receive _ (.ready .closed) => isTrue trivial
  | .receive _ .timeout => isTrue trivial
  | .receive _ .interrupted => isTrue trivial
  | .receive _ .failed => isTrue trivial
  | .init _ => isTrue trivial
  | .connect _ => isTrue trivial
  | .disconnect => isTrue trivial
  | .deinit => isTrue trivial

instance (l : Link) : (a : LinkAct) → Decidable (LinkOk l a)
  | .server _ => inferInstanceAs (Decidable (FreshFd _ _))
  | .accept _ _ _ _ => inferInstanceAs (Decidable (_ ∧ _ ∧ _))
  | .client _ => inferInstanceAs (Decidable (_ ∧ _ ∧ _))

def LinkStep (l : Link) (a : LinkAct) (l' : Link) : Prop := LinkOk l a ∧ l' = l.next a

/-! ## Section 3: What a call does to a wire -/

section wire
variable {s s' : Server} {c : Call} {w : Wire}

/-- The entries that a call broadcasts. -/
def Call.entries : Call → List LogEntry
  | .broadcast entry _ => entry.toList
  | _ => []

theorem closeAll_history (l : List ℕ) :
    (l.foldl silogRemoteCloseClientInternal s).history = s.history := by
  induction l generalizing s with
  | nil => rfl
  | cons i l ih =>
    rw [List.foldl_cons, ih]
    unfold silogRemoteCloseClientInternal
    split
    · rfl
    · rfl

theorem history_init (config : Option SilogRemoteConfig) (env : InitEnv) :
    (silogRemoteInit s config env).2.history = s.history := by
  unfold silogRemoteInit
  split
  · rfl
  · -- no exit of the call changes the history
    dsimp only
    split
    · rfl
    · split
      · rfl
      · split_ifs
        all_goals rfl

theorem history_call (s : Server) (c : Call) : (s.call c).history = s.history ++ c.entries := by
  cases c with
  | init config env => exact (history_init config env).trans (List.append_nil _).symm
  | accept result getFl setFl =>
    refine Eq.trans ?_ (List.append_nil _).symm
    simp only [Server.call]
    obtain h | ⟨fd, _, _, h | ⟨slot, _, _, h⟩⟩ := accept_cases s result getFl setFl
    · rw [h]
    · rw [h]
    · rw [h]
  | broadcast entry sends => rfl
  | getClientCount => exact (List.append_nil _).symm
  | deinit =>
    refine Eq.trans ?_ (List.append_nil _).symm
    simp only [Server.call, silogRemoteDeinit]
    split
    · rfl
    · exact closeAll_history _

/-- An accepted connection is in a slot, and its stream is the one of the descriptor. -/
structure Placed (s : Server) (w : Wire) : Prop where
  since    : w.since ≤ s.history.length
  waiting  : w.far = .waiting → w.sent = []
  accepted : ∀ fd, w.far = .accepted fd →
    ∃ j, (s.mgr.client j).active ∧ (s.mgr.client j).fd = fd ∧ s.kernel.sent fd = w.sent

/-- What a call does to a connection that no slot holds. -/
theorem Placed.idle (hP : Placed s w) (hidle : ∀ fd, w.far ≠ .accepted fd) :
    Placed (s.call c) (w.after (s.call c)) ∧ (w.after (s.call c)).sent = w.sent ∧
      (w.after (s.call c)).since = w.since ∧
      ∀ fd, (w.after (s.call c)).far ≠ .accepted fd := by
  have hgrow : w.since ≤ (s.call c).history.length := by
    rw [history_call, List.length_append]
    exact hP.since.trans (Nat.le_add_right _ _)
  unfold Wire.after
  cases hfar : w.far with
  | waiting =>
    simp only
    split
    · exact ⟨⟨hgrow, hP.waiting, fun fd h => absurd h (hidle fd)⟩, rfl, rfl, hidle⟩
    · exact ⟨⟨hgrow, nofun, nofun⟩, rfl, rfl, nofun⟩
  | accepted fd => exact absurd hfar (hidle fd)
  | closed =>
    exact ⟨⟨hgrow, hP.waiting, fun fd h => absurd h (hidle fd)⟩, rfl, rfl, hidle⟩

/-- What a call does to a connection that slot `j` holds. -/
theorem Placed.served (hP : Placed s w) (hA : Accounts s) (hstep : Step s c s') {fd : ℤ}
    (hfar : w.far = .accepted fd) :
    Placed s' (w.after s') ∧ (w.after s').since = w.since ∧
      ∃ j, (s.mgr.client j).active ∧ (w.after s').sent = w.sent ++ taken c j ∧
        ((w.after s').far = .closed ∨ (w.after s').far = w.far ∧ Keeps c j) := by
  obtain ⟨j, hact, hfd, hsent⟩ := hP.accepted fd hfar
  obtain ⟨htaken, hopen⟩ := call_fate hA hstep hact
  rw [hfd] at htaken hopen
  have hgrow : w.since ≤ s'.history.length := by
    rw [hstep.2, history_call, List.length_append]
    exact hP.since.trans (Nat.le_add_right _ _)
  have hstream : s'.kernel.sent fd = w.sent ++ taken c j := by rw [htaken, hsent]
  unfold Wire.after
  rw [hfar]
  dsimp only
  by_cases hmem : fd ∈ s'.kernel.opened
  · rw [if_pos hmem]
    obtain ⟨hslot, hkeeps⟩ := hopen hmem
    refine ⟨⟨hgrow, nofun, ?_⟩, rfl, j, hact, hstream, Or.inr ⟨rfl, hkeeps⟩⟩
    intro fd' hfd'
    cases hfd'
    rw [← hslot] at hact hfd
    exact ⟨j, hact, hfd, rfl⟩
  · rw [if_neg hmem]
    exact ⟨⟨hgrow, nofun, nofun⟩, rfl, j, hact, hstream, Or.inl rfl⟩

/-- A connection that is accepted starts with nothing sent. -/
theorem placed_accept (hA : Accounts s) {fd : ℤ} {getFl setFl : Bool} (hinit : s.mgr.isInit)
    (hstep : Step s (.accept (.connection fd) getFl setFl) s') (hfar : w.far = .accepted fd)
    (hsince : w.since = s.history.length) :
    Placed s' (w.after s') ∧ (w.after s').sent = [] ∧ (w.after s').since = s'.history.length := by
  obtain ⟨hfresh, rfl⟩ := hstep
  have hA' := hA.step (c := .accept (.connection fd) getFl setFl) ⟨hfresh, rfl⟩
  have hhist : (s.call (.accept (.connection fd) getFl setFl)).history = s.history :=
    (history_call s _).trans (List.append_nil _)
  have hempty : (s.call (.accept (.connection fd) getFl setFl)).kernel.sent fd = [] := by
    have hopened : (s.kernel.open fd).sent fd = [] := Function.update_self _ _ _
    simp only [Server.call, silogRemoteAccept, hinit, Bool.true_eq_false, if_false]
    split
    · exact hopened
    · split
      · exact hopened
      · split
        · exact hopened
        · exact hopened
  have hlisten : (s.call (.accept (.connection fd) getFl setFl)).mgr.listenFd = s.mgr.listenFd := by
    simp only [Server.call]
    obtain h | ⟨_, _, _, h | ⟨slot, _, _, h⟩⟩ := accept_cases s (.connection fd) getFl setFl
    · rw [h]
    · rw [h]
    · rw [h]
      rfl
  generalize s.call (.accept (.connection fd) getFl setFl) = s' at hA' hhist hempty hlisten
  have hlen : w.since = s'.history.length := by rw [hsince, hhist]
  unfold Wire.after
  rw [hfar]
  dsimp only
  by_cases hmem : fd ∈ s'.kernel.opened
  · rw [if_pos hmem]
    refine ⟨⟨hlen.le, nofun, ?_⟩, hempty, hlen⟩
    intro fd' hfd'
    cases hfd'
    obtain ⟨_, hfd⟩ | ⟨j, hact, hfd⟩ := (hA'.owned fd).mp hmem
    · -- the listening socket was open before
      have hold : fd ∈ s.kernel.opened := (hA.owned fd).mpr (Or.inl ⟨hinit, hfd.trans hlisten⟩)
      exact absurd hold (hfresh fd rfl).2
    · exact ⟨j, hact, hfd, rfl⟩
  · rw [if_neg hmem]
    exact ⟨⟨hlen.le, nofun, nofun⟩, hempty, hlen⟩

/-- Whole records were sent, of entries broadcast since the connection was accepted, and on a
    connection that is closed maybe the first part of one more. -/
def Aligned (s : Server) (w : Wire) : Prop :=
  ∃ (es : List LogEntry) (part : List UInt8), es.Sublist (s.history.drop w.since) ∧
    w.sent = (es.map entryBytes).flatten ++ part ∧ part.length < entrySize ∧
    (w.far ≠ .closed → part = [])

/-- Every entry broadcast since the connection was accepted was sent on it. -/
def Whole (s : Server) (w : Wire) : Prop :=
  ∀ fd, w.far = .accepted fd → w.sent = ((s.history.drop w.since).map entryBytes).flatten

/-- A call that does not stall sends nothing, or a whole record, or gives up the slot. -/
theorem taken_cases {j : ℕ} (hA : Accounts s) (hact : (s.mgr.client j).active)
    (hcalm : NoStall s c) :
    taken c j = [] ∨ (∃ e, c.entries = [e] ∧ taken c j = entryBytes e) ∨
      (¬ Keeps c j ∧ (taken c j).length < entrySize) := by
  cases c with
  | broadcast entry sends =>
    cases entry with
    | none => exact Or.inl rfl
    | some e =>
      obtain ⟨hinit, hcount⟩ := hA.on_of_active hact
      have hstall : ¬ Stalls (sends j) (entryBytes e).length := by
        rw [length_entryBytes]
        exact hcalm hinit hcount j (hA.below j hact) hact
      obtain ⟨_, hall, _⟩ | ⟨_, hnone, _⟩ | ⟨_, _, _, h⟩ | ⟨hok, htime, _⟩ :=
        silogRemoteSendFull_cases (sends j) (entryBytes e)
      · exact Or.inr (Or.inl ⟨e, rfl, hall⟩)
      · exact Or.inl hnone
      · exact absurd h hstall
      · refine Or.inr (Or.inr ⟨not_or.mpr ⟨hok, htime⟩, ?_⟩)
        have hlt : (taken (.broadcast (some e) sends) j).length < (entryBytes e).length :=
          sendLoop_lt hok
        rwa [length_entryBytes] at hlt
  | _ => exact Or.inl rfl

theorem drop_history_call (hP : Placed s w) :
    (s.call c).history.drop w.since = s.history.drop w.since ++ c.entries := by
  rw [history_call, List.drop_append_of_le_length hP.since]

theorem Aligned.call (h : Aligned s w) (hP : Placed s w) (hA : Accounts s) (hstep : Step s c s')
    (hcalm : NoStall s c) : Aligned s' (w.after s') := by
  obtain ⟨es, part, hsub, hsent, hlt, hpart⟩ := h
  have hgrow : es.Sublist (s'.history.drop w.since) := by
    rw [hstep.2, drop_history_call hP]
    exact hsub.trans (List.sublist_append_left _ _)
  by_cases hidle : ∀ fd, w.far ≠ .accepted fd
  · -- nothing is sent
    have hpart' : (w.after s').far ≠ .closed → part = [] := by
      intro hopen
      apply hpart
      intro hclosed
      rw [Wire.after, hclosed] at hopen
      exact hopen hclosed
    obtain ⟨_, hsame, hsince, _⟩ := hP.idle (c := c) hidle
    rw [← hstep.2] at hsame hsince
    exact ⟨es, part, by rw [hsince]; exact hgrow, by rw [hsame]; exact hsent, hlt, hpart'⟩
  · push Not at hidle
    obtain ⟨fd, hfar⟩ := hidle
    obtain ⟨_, hsince, j, hact, hadd, hfate⟩ := hP.served hA hstep hfar
    have hnil : part = [] := hpart (by rw [hfar]; exact nofun)
    rw [hnil, List.append_nil] at hsent
    unfold Aligned
    rw [hsince, hadd, hsent]
    obtain hnone | ⟨e, hentry, hall⟩ | ⟨hlost, hshort⟩ := taken_cases hA hact hcalm
    · rw [hnone]
      exact ⟨es, [], hgrow, rfl, entrySize_pos, fun _ => rfl⟩
    · -- one more record
      refine ⟨es ++ [e], [], ?_, ?_, entrySize_pos, fun _ => rfl⟩
      · rw [hstep.2, drop_history_call hP, hentry]
        exact hsub.append (List.Sublist.refl [e])
      · rw [hall, List.map_append, List.flatten_append, List.append_nil]
        simp
    · -- the connection is given up
      refine ⟨es, taken c j, hgrow, rfl, hshort, fun hopen => ?_⟩
      obtain hclosed | ⟨_, hkeeps⟩ := hfate
      · exact absurd hclosed hopen
      · exact absurd hkeeps hlost

/-- No `send` to a client blocks or fails. -/
def AllTaken (s : Server) : Call → Prop
  | .broadcast (some _) sends => ∀ i, (s.mgr.client i).active → ∀ k, 0 < (sends i k).taken
  | _ => True

/-- A record all of whose `send` calls take bytes is sent whole. -/
theorem sendLoop_taken {fuel : ℕ} {results : ℕ → SendResult} {buf : List UInt8}
    (htaken : ∀ k, 0 < (results k).taken) : (sendLoop fuel results buf).2 = .ok := by
  induction fuel generalizing results buf with
  | zero => rfl
  | succ fuel ih =>
    by_cases hne : buf = []
    · rw [sendLoop, if_pos hne]
    · obtain ⟨k, h₀⟩ := SendResult.accepted_of_taken (htaken 0)
      simp only [sendLoop, hne, if_false, h₀]
      exact ih fun j => htaken (j + 1)

theorem taken_of_allTaken {j : ℕ} (hact : (s.mgr.client j).active) (hall : AllTaken s c) :
    taken c j = (c.entries.map entryBytes).flatten := by
  cases c with
  | broadcast entry sends =>
    cases entry with
    | none => rfl
    | some e =>
      have hok : (sendLoop (entryBytes e).length (sends j) (entryBytes e)).2 = .ok :=
        sendLoop_taken (hall j hact)
      simp only [taken, silogRemoteSendFull, sendLoop_ok (le_refl _) hok, Call.entries,
        Option.toList_some, List.map_singleton, List.flatten_singleton]
  | _ => rfl

theorem Whole.call (h : Whole s w) (hP : Placed s w) (hA : Accounts s) (hstep : Step s c s')
    (hall : AllTaken s c) : Whole s' (w.after s') := by
  intro fd' hfar'
  by_cases hidle : ∀ fd, w.far ≠ .accepted fd
  · obtain ⟨_, _, _, hstill⟩ := hP.idle (c := c) hidle
    rw [← hstep.2] at hstill
    exact absurd hfar' (hstill fd')
  · push Not at hidle
    obtain ⟨fd, hfar⟩ := hidle
    obtain ⟨_, hsince, j, hact, hadd, _⟩ := hP.served hA hstep hfar
    rw [hadd, hsince, h fd hfar, taken_of_allTaken hact hall, hstep.2, drop_history_call hP,
      List.map_append, List.flatten_append]

end wire

/-! ## Section 4: The invariant -/

/-- The call of the service that a step makes. -/
def LinkAct.call : LinkAct → Option Call
  | .server c => some c
  | .accept _ fd getFl setFl => some (.accept (.connection fd) getFl setFl)
  | .client _ => none

/-- A list changed in one place keeps up with another one. -/
theorem forall₂_modify {α β : Type*} {R Q : α → β → Prop} {f : β → β} {xs : List α} {ys : List β}
    (h : List.Forall₂ R xs ys) {i : ℕ} (hother : ∀ x y, R x y → Q x y)
    (hat : ∀ x y, ys[i]? = some y → R x y → Q x (f y)) : List.Forall₂ Q xs (ys.modify i f) := by
  induction h generalizing i with
  | nil =>
    rw [List.modify_nil]
    exact .nil
  | @cons x y xs ys hxy hrest ih =>
    cases i with
    | zero =>
      rw [List.modify_zero_cons]
      exact .cons (hat x y rfl hxy) (hrest.imp hother)
    | succ i =>
      rw [List.modify_succ_cons]
      exact .cons (hother x y hxy) (ih fun x y hy => hat x y hy)

/-- A call of the client opens a connection, or gets bytes on the current one, or
    leaves its streams alone. -/
theorem client_cases (c : Client) (a : ClientCall) :
    (c.ctx.isConnected = false ∧ (c.call a).ctx.isConnected ∧
      (c.call a).streams = { received := [], delivered := [] } :: c.streams) ∨
    ((c.ctx.isConnected ∨ (c.call a).ctx.isConnected = false) ∧
      ((c.call a).streams = c.streams ∨
        ∃ callback r, a = .receive callback (.ready (.data r.bytes)) ∧
          (c.call a).streams = c.streams.modifyHead fun st => st.add r)) := by
  by_cases hconn : c.ctx.isConnected
  · -- an open connection stays the current one
    refine Or.inr ⟨Or.inl hconn, ?_⟩
    cases a with
    | connect env =>
      simp only [Client.call, hconn, Bool.true_eq_false, false_and, if_false, true_or]
    | receive callback select =>
      obtain ⟨hinit, _, rfl, bytes, rfl⟩ | ⟨code, request, ctx', heq, _, _⟩ :=
        receive_cases c.ctx callback select
      · refine Or.inr ⟨true, silogRemoteClientReceive c.ctx true (.ready (.data bytes)), ?_, rfl⟩
        simp only [silogRemoteClientReceive, hinit, hconn, Bool.true_eq_false, if_false]
      · refine Or.inl ?_
        simp only [Client.call, heq]
        cases c.streams with
        | nil => rfl
        | cons st past => simp [List.modifyHead, Stream.add, Receipt.empty]
    | _ => exact Or.inl rfl
  · have hdown : c.ctx.isConnected = false := Bool.not_eq_true _ ▸ hconn
    cases a with
    | connect env =>
      by_cases hup : (silogRemoteClientConnect c.ctx env).2.isConnected
      · simp only [Client.call, hdown, hup, and_self, if_true, true_or]
      · have hdown' : (silogRemoteClientConnect c.ctx env).2.isConnected = false :=
          Bool.not_eq_true _ ▸ hup
        simp only [Client.call, hdown, hdown', Bool.false_eq_true, and_false, if_false, or_true,
          true_and, true_or, false_and]
    | receive callback select =>
      obtain ⟨_, hup, _, _, _⟩ | ⟨code, request, ctx', heq, _, hctx⟩ :=
        receive_cases c.ctx callback select
      · exact absurd hup hconn
      · have hctx' : ctx'.isConnected = false := by
          obtain rfl | rfl := hctx
          · exact hdown
          · unfold silogRemoteClientDisconnect
            split
            · exact hdown
            · rfl
        refine Or.inr ⟨Or.inr ?_, Or.inl ?_⟩
        · simp only [Client.call, heq]
          exact hctx'
        · simp only [Client.call, heq]
          cases c.streams with
          | nil => rfl
          | cons st past => simp [List.modifyHead, Stream.add, Receipt.empty]
    | init config =>
      refine Or.inr ⟨Or.inr ?_, Or.inl rfl⟩
      simp only [Client.call, silogRemoteClientInit]
      split
      · exact hdown
      · rfl
    | disconnect =>
      refine Or.inr ⟨Or.inr ?_, Or.inl rfl⟩
      simp only [Client.call, silogRemoteClientDisconnect]
      split
      · exact hdown
      · rfl
    | deinit =>
      refine Or.inr ⟨Or.inr ?_, Or.inl rfl⟩
      simp only [Client.call, silogRemoteClientDeinit, silogRemoteClientDisconnect]
      split
      · exact hdown
      · rfl

section step
variable {l l' : Link} {a : LinkAct}

/-- The connections stay paired with the streams of the client. -/
theorem paired_step {P : Server → Stream → Wire → Prop}
    (h : List.Forall₂ (P l.server) l.client.streams l.wires) (hstep : LinkStep l a l')
    (hcall : ∀ c s', a.call = some c → Step l.server c s' →
      ∀ st w, P l.server st w → P s' st (w.after s'))
    (haccept : ∀ fd getFl setFl s', l.server.mgr.isInit →
      Step l.server (.accept (.connection fd) getFl setFl) s' →
      ∀ st w, w.far = .waiting → P l.server st w →
        P s' st (Wire.after s' { w with far := .accepted fd, since := l.server.history.length }))
    (hopened : P l.server { received := [], delivered := [] } (.opened l.server.history.length))
    (harrives : ∀ st w r, st.received ++ r.bytes <+: w.sent → P l.server st w →
      P l.server (st.add r) w) :
    List.Forall₂ (P l'.server) l'.client.streams l'.wires := by
  obtain ⟨hok, rfl⟩ := hstep
  cases a with
  | server c =>
    exact List.forall₂_map_right_iff.mpr
      (h.imp fun st w hpair => hcall c _ rfl ⟨hok, rfl⟩ st w hpair)
  | accept i fd getFl setFl =>
    obtain ⟨hinit, hwaiting, hfresh⟩ := hok
    refine List.forall₂_map_right_iff.mpr (forall₂_modify h ?_ ?_)
    · intro st w hpair
      exact hcall _ _ rfl ⟨hfresh, rfl⟩ st w hpair
    · intro st w hw hpair
      rw [hw] at hwaiting
      exact haccept fd getFl setFl _ hinit ⟨hfresh, rfl⟩ st w (Option.some.inj hwaiting) hpair
  | client a =>
    obtain ⟨_, harr, _⟩ := hok
    obtain ⟨hdown, hup, hstreams⟩ | ⟨hstays, hstreams⟩ := client_cases l.client a
    · have hconnects : l.connects a = true := by simp [Link.connects, hdown, hup]
      simp only [Link.next, hconnects, if_true]
      rw [hstreams]
      exact .cons hopened h
    · have hconnects : l.connects a = false := by
        obtain hup | hdown := hstays
        · simp [Link.connects, hup]
        · simp [Link.connects, hdown]
      simp only [Link.next, hconnects, Bool.false_eq_true, if_false]
      obtain hsame | ⟨callback, r, rfl, hadd⟩ := hstreams
      · rw [hsame]
        exact h
      · rw [hadd]
        simp only [Arrives] at harr
        generalize l.client.streams = sts, l.wires = ws at h harr
        cases h with
        | nil => exact .nil
        | cons hpair hrest => exact .cons (harrives _ _ r harr hpair) hrest

/-- What the client got so far was sent on its connection. -/
structure Joined (s : Server) (st : Stream) (w : Wire) : Prop where
  arrived : st.received <+: w.sent
  placed  : Placed s w

theorem Joined.call {s s' : Server} {c : Call} {st : Stream} {w : Wire} (h : Joined s st w)
    (hA : Accounts s) (hstep : Step s c s') : Joined s' st (w.after s') := by
  by_cases hidle : ∀ fd, w.far ≠ .accepted fd
  · obtain ⟨hplaced, hsame, _⟩ := h.placed.idle (c := c) hidle
    rw [← hstep.2] at hplaced hsame
    exact ⟨by rw [hsame]; exact h.arrived, hplaced⟩
  · push Not at hidle
    obtain ⟨fd, hfar⟩ := hidle
    obtain ⟨hplaced, _, j, _, hadd, _⟩ := h.placed.served hA hstep hfar
    refine ⟨?_, hplaced⟩
    rw [hadd]
    exact h.arrived.trans (List.prefix_append _ _)

theorem Joined.accept {s s' : Server} {st : Stream} {w : Wire} {fd : ℤ} {getFl setFl : Bool}
    (h : Joined s st w) (hA : Accounts s) (hinit : s.mgr.isInit)
    (hstep : Step s (.accept (.connection fd) getFl setFl) s') (hwaiting : w.far = .waiting) :
    Joined s' st (Wire.after s' { w with far := .accepted fd, since := s.history.length }) := by
  obtain ⟨hplaced, hempty, _⟩ := placed_accept hA hinit hstep
    (w := { w with far := .accepted fd, since := s.history.length }) rfl rfl
  have harrived := h.arrived
  rw [h.placed.waiting hwaiting] at harrived
  refine ⟨?_, hplaced⟩
  rw [hempty]
  exact harrived

/-- The invariant of the link. -/
structure LinkInv (l : Link) : Prop where
  server : Accounts l.server
  client : ClientInv l.client
  joined : List.Forall₂ (Joined l.server) l.client.streams l.wires

theorem linkInv_initial : LinkInv .initial :=
  ⟨accounts_initial, clientInv_initial, .nil⟩

theorem placed_opened (s : Server) : Placed s (.opened s.history.length) :=
  ⟨le_refl _, fun _ => rfl, nofun⟩

theorem LinkInv.step (hI : LinkInv l) (hstep : LinkStep l a l') : LinkInv l' := by
  have hjoined := paired_step hI.joined hstep
    (fun c s' _ hcall st w h => h.call hI.server hcall)
    (fun fd getFl setFl s' hinit hcall st w hfar h => h.accept hI.server hinit hcall hfar)
    ⟨List.nil_prefix, placed_opened _⟩
    (fun st w r harr h => ⟨harr, h.placed⟩)
  obtain ⟨hok, rfl⟩ := hstep
  cases a with
  | server c => exact ⟨hI.server.step ⟨hok, rfl⟩, hI.client, hjoined⟩
  | accept i fd getFl setFl => exact ⟨hI.server.step ⟨hok.2.2, rfl⟩, hI.client, hjoined⟩
  | client a => exact ⟨hI.server, hI.client.step ⟨hok.1, rfl⟩, hjoined⟩

/-- No call of the service stalls. -/
def LinkCalm (l : Link) (a : LinkAct) : Prop := ∀ c, a.call = some c → NoStall l.server c

/-- The connections are aligned. -/
def AllAligned (l : Link) : Prop :=
  List.Forall₂ (fun st w => Joined l.server st w ∧ Aligned l.server w) l.client.streams l.wires

theorem AllAligned.step (h : AllAligned l) (hI : LinkInv l) (hstep : LinkStep l a l')
    (hcalm : LinkCalm l a) : AllAligned l' := by
  refine paired_step (P := fun s st w => Joined s st w ∧ Aligned s w) h hstep ?_ ?_ ?_ ?_
  · intro c s' hc hcall st w hpair
    obtain ⟨hjoin, halign⟩ := hpair
    exact ⟨hjoin.call hI.server hcall, halign.call hjoin.placed hI.server hcall (hcalm c hc)⟩
  · intro fd getFl setFl s' hinit hcall st w hfar hpair
    obtain ⟨_, hempty, _⟩ := placed_accept hI.server hinit hcall
      (w := { w with far := .accepted fd, since := l.server.history.length }) rfl rfl
    refine ⟨hpair.1.accept hI.server hinit hcall hfar, [], [], ?_, hempty, entrySize_pos,
      fun _ => rfl⟩
    exact List.nil_sublist _
  · exact ⟨⟨List.nil_prefix, placed_opened _⟩, [], [], List.nil_sublist _, rfl, entrySize_pos,
      fun _ => rfl⟩
  · intro st w r harr hpair
    exact ⟨⟨harr, hpair.1.placed⟩, hpair.2⟩

/-- No `send` of a call blocks or fails. -/
def LinkTaken (l : Link) (a : LinkAct) : Prop := ∀ c, a.call = some c → AllTaken l.server c

/-- The connections have it all. -/
def AllWhole (l : Link) : Prop :=
  List.Forall₂ (fun st w => Joined l.server st w ∧ Whole l.server w) l.client.streams l.wires

theorem AllWhole.step (h : AllWhole l) (hI : LinkInv l) (hstep : LinkStep l a l')
    (htaken : LinkTaken l a) : AllWhole l' := by
  refine paired_step (P := fun s st w => Joined s st w ∧ Whole s w) h hstep ?_ ?_ ?_ ?_
  · intro c s' hc hcall st w hpair
    obtain ⟨hjoin, hwhole⟩ := hpair
    exact ⟨hjoin.call hI.server hcall, hwhole.call hjoin.placed hI.server hcall (htaken c hc)⟩
  · intro fd getFl setFl s' hinit hcall st w hfar hpair
    obtain ⟨_, hempty, hsince⟩ := placed_accept hI.server hinit hcall
      (w := { w with far := .accepted fd, since := l.server.history.length }) rfl rfl
    refine ⟨hpair.1.accept hI.server hinit hcall hfar, fun _ _ => ?_⟩
    rw [hempty, hsince, List.drop_length]
    rfl
  · exact ⟨⟨List.nil_prefix, placed_opened _⟩, nofun⟩
  · intro st w r harr hpair
    exact ⟨⟨harr, hpair.1.placed⟩, hpair.2⟩

end step

/-! ## Section 5: What is read off -/

/-- The callback got the entries that the full blocks of the stream were sent for. -/
theorem delivered_of_arrived {st : Stream} {sent part : List UInt8} {es : List LogEntry}
    (hexact : st.Exact) (harrived : st.received <+: sent)
    (hsent : sent = (es.map entryBytes).flatten ++ part) (hpart : part.length < entrySize) :
    st.delivered =
      (es.take (st.received.length / entrySize)).map fun e => decodeEntry (entryBytes e) := by
  have hlength : ∀ b ∈ es.map entryBytes, b.length = entrySize := by
    intro b hb
    obtain ⟨e, _, rfl⟩ := List.mem_map.mp hb
    exact length_entryBytes e
  rw [hsent] at harrived
  have hblocks := blocks_of_prefix entrySize_pos hlength hpart harrived
  have hread : ∀ e, silogRemoteDeserializeEntry (some (entryBytes e)) (some zeroEntry) =
      (ErrorCode.ok, some (decodeEntry (entryBytes e))) := by
    intro e
    simp only [silogRemoteDeserializeEntry, length_entryBytes, if_neg (lt_irrefl _)]
  have hmap := hexact
  unfold Stream.Exact at hmap
  rw [hblocks, ← List.map_take, List.map_map] at hmap
  simp only [Function.comp_def, hread] at hmap
  have hinj : Function.Injective fun e : LogEntry => (ErrorCode.ok, some e) := by
    intro e e' he
    exact Option.some.inj (Prod.mk.inj he).2
  apply hinj.list_map
  rw [List.map_map]
  exact hmap

/-- The callback got `e` as it is read off the wire; it is the entry itself if the entry survives
    the wire. -/
def ReadOff (got e : LogEntry) : Prop := ∃ ts, got = received e ts ∧ (RoundTrips e → got = e)

theorem readOff_map (es : List LogEntry) :
    List.Forall₂ ReadOff (es.map fun e => decodeEntry (entryBytes e)) es := by
  rw [List.forall₂_map_left_iff, List.forall₂_same]
  intro e _
  have hread := decodeEntry_append e [] rfl
  rw [List.append_nil] at hread
  exact ⟨_, hread, (roundTrips_iff_decodeEntry e).mp⟩

/-- What the callback got on an aligned connection. -/
theorem delivered_of_aligned {s : Server} {st : Stream} {w : Wire} (hexact : st.Exact)
    (hjoin : Joined s st w) (halign : Aligned s w) :
    ∃ es : List LogEntry, es.Sublist (s.history.drop w.since) ∧
      st.delivered = es.map fun e => decodeEntry (entryBytes e) := by
  obtain ⟨es, part, hsub, hsent, hpart, _⟩ := halign
  exact ⟨_, (List.take_sublist _ _).trans hsub,
    delivered_of_arrived hexact hjoin.arrived hsent hpart⟩

/-! ## Section 6: Over all connections -/

theorem since_after (s' : Server) (w : Wire) : (w.after s').since = w.since := by
  unfold Wire.after
  split
  · split
    · rfl
    · rfl
  · rfl
  · rfl

/-- What the callback got on some connections, the latest first, in the order of time. -/
def allDelivered (streams : List Stream) : List LogEntry :=
  (streams.reverse.map Stream.delivered).flatten

theorem allDelivered_cons (st : Stream) (past : List Stream) :
    allDelivered (st :: past) = allDelivered past ++ st.delivered := by
  simp [allDelivered]

/-- `es` were read off the first `n` entries of the history. -/
def ReadBefore (s : Server) (n : ℕ) (got : List LogEntry) : Prop :=
  ∃ es : List LogEntry, es.Sublist (s.history.take n) ∧
    got = es.map fun e => decodeEntry (entryBytes e)

/-- What the callback got on earlier connections was broadcast before the current one was
    opened. -/
def PastBefore (l : Link) : Prop :=
  ∀ st past w older, l.client.streams = st :: past → l.wires = w :: older →
    ReadBefore l.server w.since (allDelivered past)

section order
variable {l l' : Link} {a : LinkAct}

theorem ReadBefore.call {s : Server} {n m : ℕ} {got : List LogEntry} (h : ReadBefore s n got)
    (hnm : n ≤ m) (hn : n ≤ s.history.length) (c : Call) : ReadBefore (s.call c) m got := by
  obtain ⟨es, hsub, hgot⟩ := h
  refine ⟨es, hsub.trans ?_, hgot⟩
  have hsame : s.history.take n = (s.call c).history.take n := by
    rw [history_call, List.take_append_of_le_length hn]
  rw [hsame]
  exact (List.take_prefix_take_left hnm).sublist

/-- Everything got so far was broadcast so far. -/
theorem readBefore_all (hI : LinkInv l) (halign : AllAligned l) (hpast : PastBefore l) :
    ReadBefore l.server l.server.history.length (allDelivered l.client.streams) := by
  unfold ReadBefore
  rw [List.take_length]
  have hexact := hI.client.exact
  unfold AllAligned at halign
  unfold PastBefore at hpast
  generalize l.client.streams = sts, l.wires = ws at hexact halign hpast
  cases halign with
  | nil => exact ⟨[], List.nil_sublist _, rfl⟩
  | @cons st w past older hpair hrest =>
    obtain ⟨es, hes, hgot⟩ := hpast st past w older rfl rfl
    obtain ⟨es', hes', hgot'⟩ :=
      delivered_of_aligned (hexact st List.mem_cons_self) hpair.1 hpair.2
    refine ⟨es ++ es', ?_, ?_⟩
    · rw [← List.take_append_drop w.since l.server.history]
      exact hes.append hes'
    · rw [allDelivered_cons, hgot, hgot', List.map_append]

/-- A call of the service leaves the earlier connections alone. -/
theorem PastBefore.call (hpast : PastBefore l) (hI : LinkInv l) {st : Stream} {past : List Stream}
    {w : Wire} {older : List Wire} (hst : l.client.streams = st :: past) (hw : l.wires = w :: older)
    (c : Call) {n : ℕ} (hn : w.since ≤ n) : ReadBefore (l.server.call c) n (allDelivered past) := by
  have hplaced : Placed l.server w := by
    have hjoined := hI.joined
    rw [hst, hw] at hjoined
    cases hjoined with
    | cons hpair _ => exact hpair.placed
  exact (hpast st past w older hst hw).call hn hplaced.since c

theorem PastBefore.step (hpast : PastBefore l) (hI : LinkInv l) (halign : AllAligned l)
    (hstep : LinkStep l a l') : PastBefore l' := by
  obtain ⟨hok, rfl⟩ := hstep
  intro st past w older hst hw
  cases a with
  | server c =>
    obtain ⟨w₀, older₀, hw₀, rfl, _⟩ := List.map_eq_cons_iff.mp hw
    rw [since_after]
    exact hpast.call hI hst hw₀ c (le_refl _)
  | accept i fd getFl setFl =>
    obtain ⟨w₁, older₁, hw₁, rfl, _⟩ := List.map_eq_cons_iff.mp hw
    rw [since_after]
    cases hwires : l.wires with
    | nil =>
      rw [hwires, List.modify_nil] at hw₁
      cases hw₁
    | cons w₀ older₀ =>
      refine hpast.call hI hst hwires _ ?_
      rw [hwires] at hw₁
      cases i with
      | zero =>
        -- the current connection is accepted now
        rw [List.modify_zero_cons] at hw₁
        rw [← (List.cons.inj hw₁).1]
        have hjoined := hI.joined
        rw [show l.client.streams = st :: past from hst, hwires] at hjoined
        cases hjoined with
        | cons hpair _ => exact hpair.placed.since
      | succ i =>
        rw [List.modify_succ_cons] at hw₁
        rw [(List.cons.inj hw₁).1]
  | client a =>
    obtain ⟨hdown, hup, hstreams⟩ | ⟨hstays, hstreams⟩ := client_cases l.client a
    · -- everything before the new connection is past
      have hconnects : l.connects a = true := by simp [Link.connects, hdown, hup]
      simp only [Link.next, hconnects, if_true, List.cons.injEq] at hw
      simp only [Link.next] at hst
      rw [hstreams, List.cons.injEq] at hst
      rw [← hw.1, ← hst.2]
      exact readBefore_all hI halign hpast
    · have hconnects : l.connects a = false := by
        obtain hup | hdown := hstays
        · simp [Link.connects, hup]
        · simp [Link.connects, hdown]
      simp only [Link.next, hconnects, Bool.false_eq_true, if_false] at hw
      simp only [Link.next] at hst
      obtain hsame | ⟨callback, r, _, hadd⟩ := hstreams
      · rw [hsame] at hst
        exact hpast st past w older hst hw
      · rw [hadd] at hst
        cases hold : l.client.streams with
        | nil =>
          rw [hold] at hst
          cases hst
        | cons st₀ past₀ =>
          rw [hold, List.modifyHead_cons, List.cons.injEq] at hst
          rw [← hst.2]
          exact hpast st₀ past₀ w older hold hw

end order

/-! ## Section 7: From `Broadcast` to the callback -/

/-- The service starts, and a client connects and is accepted. -/
def connected : List LinkAct :=
  [.server (.init none { malloc := true, socket := some 3, bind := true, listen := true,
                         getFl := true, setFl := true }),
   .client (.init none),
   .client (.connect { socket := some 5, addrOk := true, connectOk := true }),
   .accept 0 4 true true]

/-- The first of two records is read in two pieces; what `send` does with the second one is given. -/
def served (second : SendResult) : List LinkAct :=
  [.server (.broadcast (some (sampleEntry 0)) fun _ _ => .accepted 376),
   .client (.receive true (.ready (.data ((entryBytes (sampleEntry 0)).take 100)))),
   .server (.broadcast (some (sampleEntry 1)) fun _ _ => second),
   .client (.receive true (.ready (.data ((entryBytes (sampleEntry 0)).drop 100))))]

/-- The client loses its connection and opens another one; the service notices the loss when it
    sends the next record. -/
def servedAgain : List LinkAct :=
  [.client (.receive true (.ready .closed)),
   .client (.connect { socket := some 6, addrOk := true, connectOk := true }),
   .accept 0 7 true true,
   .server (.broadcast (some (sampleEntry 2)) fun i _ => if i = 0 then .failed else .accepted 376),
   .client (.receive true (.ready (.data (entryBytes (sampleEntry 2)))))]

def Link.run (acts : List LinkAct) : Link := acts.foldl Link.next .initial

theorem Link.run_of_allowed {acts : List LinkAct}
    (h : Allowed LinkOk Link.next .initial acts) : Steps LinkStep .initial acts (.run acts) :=
  steps_of_allowed (fun _ _ hok => ⟨hok, rfl⟩) h

/-- A client that has no room for the second record, and is served again on another connection. -/
def missed : List LinkAct := connected ++ served .wouldBlock ++ servedAgain

theorem missed_delivered : Allowed LinkOk Link.next .initial missed ∧
    ((Link.run missed).client.streams.map fun st => st.delivered.length) = [1, 1] ∧
    (allDelivered (Link.run missed).client.streams).length = 2 ∧
    (Link.run missed).server.history.length = 3 := by
  decide +kernel

theorem missed_calm : Steps (Guarded LinkStep LinkCalm) .initial missed (.run missed) := by
  refine (Link.run_of_allowed missed_delivered.1).guarded_of_forall ?_
  simp only [missed, connected, served, servedAgain, List.cons_append, List.nil_append,
    List.forall_mem_cons, LinkCalm, LinkAct.call]
  refine ⟨?_, ?_, ?_, ?_, ?_, ?_, ?_, ?_, ?_, ?_, ?_, ?_, ?_, nofun⟩
  all_goals intro l c hc
  all_goals cases hc
  · trivial
  · trivial
  · exact noStall_steady _ _ _
  · exact noStall_steady _ _ _
  · trivial
  · exact noStall_steady _ _ _

/-- Runs in which no record stalls. -/
theorem aligned_run {acts : List LinkAct} {l : Link}
    (hrun : Steps (Guarded LinkStep LinkCalm) .initial acts l) :
    LinkInv l ∧ AllAligned l ∧ PastBefore l :=
  hrun.invariant (I := fun l => LinkInv l ∧ AllAligned l ∧ PastBefore l)
    (fun _ _ _ hstep h => ⟨h.1.step hstep.1, h.2.1.step h.1 hstep.1 hstep.2,
      h.2.2.step h.1 h.2.1 hstep.1⟩)
    ⟨linkInv_initial, .nil, fun _ _ _ _ hst => nomatch hst⟩

/-- What the callback got was read off entries that were broadcast. -/
theorem delivered_run {acts : List LinkAct} {l : Link}
    (hrun : Steps (Guarded LinkStep LinkCalm) .initial acts l) :
    ∃ es : List LogEntry, es.Sublist l.server.history ∧
      allDelivered l.client.streams = es.map fun e => decodeEntry (entryBytes e) := by
  obtain ⟨hI, haligned, hpast⟩ := aligned_run hrun
  obtain ⟨es, hes, hgot⟩ := readBefore_all hI haligned hpast
  rw [List.take_length] at hes
  exact ⟨es, hes, hgot⟩

/-- **Delivery over the link.** Whatever the service, the client and the network do, in any order,
    with any number of connections one after the other: if no `send` of a broadcast reports a
    would-block after a part of the record, then what the callback gets on a connection are
    entries that were broadcast after the connection was accepted, each at most once and in
    order. -/
theorem link_delivers {acts : List LinkAct} {l : Link}
    (hrun : Steps (Guarded LinkStep LinkCalm) .initial acts l) :
    List.Forall₂ (fun st w => ∃ es : List LogEntry,
      es.Sublist (l.server.history.drop w.since) ∧ List.Forall₂ ReadOff st.delivered es)
      l.client.streams l.wires := by
  obtain ⟨hI, haligned, _⟩ := aligned_run hrun
  refine ((List.forall₂_and_left _ _).mpr ⟨hI.client.exact, haligned⟩).imp ?_
  intro st w hpair
  obtain ⟨hexact, hjoin, halign⟩ := hpair
  obtain ⟨es, hsub, hes⟩ := delivered_of_aligned hexact hjoin halign
  rw [hes]
  exact ⟨es, hsub, readOff_map es⟩

theorem link_delivers_missed :
    ((Link.run missed).client.streams.map fun st => st.delivered.length) = [1, 1] ∧
    (Link.run missed).server.history.length = 3 ∧
    List.Forall₂ (fun st w => ∃ es : List LogEntry,
        es.Sublist ((Link.run missed).server.history.drop w.since) ∧
          List.Forall₂ ReadOff st.delivered es)
      (Link.run missed).client.streams (Link.run missed).wires :=
  ⟨missed_delivered.2.1, missed_delivered.2.2.2, link_delivers missed_calm⟩

/-- **Order over the link.** In such a run, over all its connections together, the callback gets no
    entry twice and none out of order: what it got altogether was read off a subsequence of the
    entries broadcast. -/
theorem link_order {acts : List LinkAct} {l : Link}
    (hrun : Steps (Guarded LinkStep LinkCalm) .initial acts l) :
    ∃ es : List LogEntry, es.Sublist l.server.history ∧
      List.Forall₂ ReadOff (allDelivered l.client.streams) es := by
  obtain ⟨es, hes, hgot⟩ := delivered_run hrun
  rw [hgot]
  exact ⟨es, hes, readOff_map es⟩

theorem link_order_missed :
    (allDelivered (Link.run missed).client.streams).length = 2 ∧
    ∃ es : List LogEntry, es.Sublist (Link.run missed).server.history ∧
      List.Forall₂ ReadOff (allDelivered (Link.run missed).client.streams) es :=
  ⟨missed_delivered.2.2.1, link_order missed_calm⟩

/-- **Completeness of the link.** If no `send` of a broadcast blocks or fails, then what the callback
    got on a connection that is open are the first of the entries broadcast since it was
    accepted, without a gap: as many as have arrived whole. -/
theorem link_complete {acts : List LinkAct} {l : Link}
    (hrun : Steps (Guarded LinkStep LinkTaken) .initial acts l) :
    List.Forall₂ (fun st w => ∀ fd, w.far = .accepted fd → List.Forall₂ ReadOff st.delivered
        ((l.server.history.drop w.since).take (st.received.length / entrySize)))
      l.client.streams l.wires := by
  have hinv : LinkInv l ∧ AllWhole l :=
    hrun.invariant (I := fun l => LinkInv l ∧ AllWhole l)
      (fun _ _ _ hstep h => ⟨h.1.step hstep.1, h.2.step h.1 hstep.1 hstep.2⟩)
      ⟨linkInv_initial, .nil⟩
  obtain ⟨hI, hwhole⟩ := hinv
  refine ((List.forall₂_and_left _ _).mpr ⟨hI.client.exact, hwhole⟩).imp ?_
  intro st w hpair fd hfar
  obtain ⟨hexact, hjoin, hall⟩ := hpair
  have hsent := hall fd hfar
  rw [← List.append_nil (List.flatten _)] at hsent
  rw [delivered_of_arrived hexact hjoin.arrived hsent entrySize_pos]
  exact readOff_map _

/-- The first record has arrived and the second one is on its way. -/
theorem link_complete_served :
    Steps (Guarded LinkStep LinkTaken) .initial (connected ++ served (.accepted 376))
      (.run (connected ++ served (.accepted 376))) ∧
    ((Link.run (connected ++ served (.accepted 376))).client.streams.map fun st =>
      st.delivered.length) = [1] ∧
    List.Forall₂ (fun st w => ∀ fd, w.far = .accepted fd → List.Forall₂ ReadOff st.delivered
        (((Link.run (connected ++ served (.accepted 376))).server.history.drop w.since).take
          (st.received.length / entrySize)))
      (Link.run (connected ++ served (.accepted 376))).client.streams
      (Link.run (connected ++ served (.accepted 376))).wires := by
  have hrun : Steps (Guarded LinkStep LinkTaken) .initial (connected ++ served (.accepted 376))
      (.run (connected ++ served (.accepted 376))) := by
    refine (Link.run_of_allowed (by decide +kernel)).guarded_of_forall ?_
    simp only [connected, served, List.cons_append, List.nil_append, List.forall_mem_cons, LinkTaken,
      LinkAct.call]
    refine ⟨?_, ?_, ?_, ?_, ?_, ?_, ?_, ?_, nofun⟩
    all_goals intro l c hc
    all_goals cases hc
    · trivial
    · trivial
    · exact fun _ _ _ => Nat.succ_pos _
    · exact fun _ _ _ => Nat.succ_pos _
  exact ⟨hrun, by decide +kernel, link_complete hrun⟩

end SiLog.Remote
