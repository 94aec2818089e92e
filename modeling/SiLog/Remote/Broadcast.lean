import SiLog.Remote.Server
import Mathlib.Algebra.BigOperators.Group.Finset.Basic

/-! # Broadcast and the framing of the streams

    The client cuts its stream into blocks of `SILOG_REMOTE_ENTRY_SIZE` bytes,
    so what the server has sent on a connection it keeps must be whole
    entries.  `SilogRemoteSendFull` gives up on a would-block without
    remembering what the record's earlier `send` calls accepted, and `Broadcast`
    keeps the connection.  The streams stay framed exactly as long as no
    would-block comes after a partial send.
-/

open Lts

namespace SiLog.Remote

/-! ## Section 1: `SilogRemoteSendFull` -/

/-- How many bytes a `send` takes when enough are asked. -/
def SendResult.taken : SendResult → ℕ
  | .accepted k => k + 1
  | _ => 0

/-- Only an accepting `send` takes bytes. -/
theorem SendResult.accepted_of_taken {r : SendResult} (h : 0 < r.taken) : ∃ k, r = .accepted k := by
  cases r with
  | accepted k => exact ⟨k, rfl⟩
  | wouldBlock => cases h
  | zero => cases h
  | failed => cases h

/-- How many bytes the first `j` calls take. -/
def takenBefore (results : ℕ → SendResult) (j : ℕ) : ℕ := ∑ i ∈ Finset.range j, (results i).taken

/-- The `send` number `j` for a record of `len` bytes reports a would-block and
    the ones before it took bytes but not all. -/
def BlocksAt (results : ℕ → SendResult) (len j : ℕ) : Prop :=
  results j = .wouldBlock ∧ (∀ i, i < j → 0 < (results i).taken) ∧ takenBefore results j < len

/-- A would-block after a partial send of a record of `len` bytes. -/
def Stalls (results : ℕ → SendResult) (len : ℕ) : Prop := ∃ j, 0 < j ∧ BlocksAt results len j

/-- A socket that does the same at every `send` blocks at the first one or never. -/
theorem not_stalls_steady (r : SendResult) (len : ℕ) : ¬ Stalls (fun _ => r) len := by
  intro ⟨j, hj, hblock, htaken, _⟩
  have hfirst := htaken 0 hj
  rw [show r = .wouldBlock from hblock] at hfirst
  cases hfirst

theorem takenBefore_succ (results : ℕ → SendResult) (j : ℕ) :
    takenBefore results (j + 1) = takenBefore (fun i => results (i + 1)) j + (results 0).taken :=
  Finset.sum_range_succ' _ j

/-- A record blocked at `j + 1` is blocked at `j` after its first part. -/
theorem blocksAt_succ {results : ℕ → SendResult} {k len j : ℕ} (h₀ : results 0 = .accepted k) :
    BlocksAt results len (j + 1) ↔
      k + 1 < len ∧ BlocksAt (fun i => results (i + 1)) (len - (k + 1)) j := by
  have hsum := takenBefore_succ results j
  rw [h₀] at hsum
  simp only [SendResult.taken] at hsum
  unfold BlocksAt
  rw [hsum]
  constructor
  · rintro ⟨hj, hpos, hlt⟩
    exact ⟨by omega, hj, fun i hi => hpos (i + 1) (by omega), by omega⟩
  · rintro ⟨hk, hj, hpos, hlt⟩
    refine ⟨hj, ?_, by omega⟩
    intro i hi
    cases i with
    -- the first call took the part that was cut off
    | zero => rw [h₀]; exact Nat.succ_pos k
    | succ i => exact hpos i (by omega)

/-- A record that blocks is cut off there. -/
theorem sendLoop_of_blocksAt {fuel j : ℕ} {results : ℕ → SendResult} {buf : List UInt8}
    (hfuel : buf.length ≤ fuel) (hb : BlocksAt results buf.length j) :
    (sendLoop fuel results buf).2 = .netTimeout ∧
    (sendLoop fuel results buf).1.length = takenBefore results j := by
  have hpos : 0 < buf.length := Nat.zero_lt_of_lt hb.2.2
  have hne : buf ≠ [] := List.ne_nil_of_length_pos hpos
  induction fuel generalizing results buf j with
  | zero => omega
  | succ fuel ih =>
    cases j with
    -- the very first call blocks: nothing was taken
    | zero => simp [sendLoop, hne, hb.1, takenBefore]
    | succ j =>
      -- a call before the blocked one took bytes, so the loop goes on with the rest
      obtain ⟨k, h₀⟩ := SendResult.accepted_of_taken (hb.2.1 0 (Nat.succ_pos j))
      obtain ⟨hk, hb'⟩ := (blocksAt_succ h₀).mp hb
      have hlen : (buf.drop (k + 1)).length = buf.length - (k + 1) := List.length_drop
      rw [← hlen] at hb'
      have hfuel' : (buf.drop (k + 1)).length ≤ fuel := by omega
      obtain ⟨hret, hsent⟩ := ih hfuel' hb' (by omega) (List.ne_nil_of_length_pos (by omega))
      simp only [sendLoop, hne, if_false, h₀]
      refine ⟨hret, ?_⟩
      rw [List.length_append, hsent, List.length_take, takenBefore_succ, h₀, SendResult.taken]
      omega

/-- A record that is given up was blocked. -/
theorem blocksAt_of_sendLoop {fuel : ℕ} {results : ℕ → SendResult} {buf : List UInt8}
    (hret : (sendLoop fuel results buf).2 = .netTimeout) :
    ∃ j, BlocksAt results buf.length j ∧
      (sendLoop fuel results buf).1.length = takenBefore results j := by
  induction fuel generalizing results buf with
  | zero => cases hret
  | succ fuel ih =>
    by_cases hne : buf = []
    · simp [sendLoop, hne] at hret
    · cases h₀ : results 0 with
      | accepted k =>
        simp only [sendLoop, hne, if_false, h₀] at hret ⊢
        obtain ⟨j, hb, hlen⟩ := ih hret
        have hk : k + 1 < buf.length := by
          have := hb.2.2
          rw [List.length_drop] at this
          omega
        rw [List.length_drop] at hb
        refine ⟨j + 1, (blocksAt_succ h₀).mpr ⟨hk, hb⟩, ?_⟩
        rw [List.length_append, hlen, List.length_take, takenBefore_succ, h₀, SendResult.taken]
        omega
      | wouldBlock =>
        refine ⟨0, ⟨h₀, fun i hi => absurd hi (Nat.not_lt_zero i), List.length_pos_of_ne_nil hne⟩, ?_⟩
        simp [sendLoop, hne, h₀, takenBefore]
      | zero => simp [sendLoop, hne, h₀] at hret
      | failed => simp [sendLoop, hne, h₀] at hret

/-- A record that is not given up is sent whole. -/
theorem sendLoop_ok {fuel : ℕ} {results : ℕ → SendResult} {buf : List UInt8}
    (hfuel : buf.length ≤ fuel) (hret : (sendLoop fuel results buf).2 = .ok) :
    (sendLoop fuel results buf).1 = buf := by
  induction fuel generalizing results buf with
  | zero => rw [List.eq_nil_of_length_eq_zero (Nat.le_zero.mp hfuel)]; rfl
  | succ fuel ih =>
    by_cases hne : buf = []
    · simp [sendLoop, hne]
    · cases h₀ : results 0 with
      | accepted k =>
        simp only [sendLoop, hne, if_false, h₀] at hret ⊢
        rw [ih (by rw [List.length_drop]; omega) hret, List.take_append_drop]
      | wouldBlock => simp [sendLoop, hne, h₀] at hret
      | zero => simp [sendLoop, hne, h₀] at hret
      | failed => simp [sendLoop, hne, h₀] at hret

/-- What `SilogRemoteSendFull` can do with a record. -/
theorem silogRemoteSendFull_cases (results : ℕ → SendResult) (buf : List UInt8) :
    ((silogRemoteSendFull results buf).2 = .ok ∧ (silogRemoteSendFull results buf).1 = buf ∧
      ¬ Stalls results buf.length) ∨
    ((silogRemoteSendFull results buf).2 = .netTimeout ∧
      (silogRemoteSendFull results buf).1 = [] ∧ ¬ Stalls results buf.length) ∨
    ((silogRemoteSendFull results buf).2 = .netTimeout ∧
      0 < (silogRemoteSendFull results buf).1.length ∧
      (silogRemoteSendFull results buf).1.length < buf.length ∧ Stalls results buf.length) ∨
    ((silogRemoteSendFull results buf).2 ≠ .ok ∧
      (silogRemoteSendFull results buf).2 ≠ .netTimeout ∧ ¬ Stalls results buf.length) := by
  unfold silogRemoteSendFull
  have hstall : Stalls results buf.length → (sendLoop buf.length results buf).2 = .netTimeout :=
    fun ⟨_, _, hb⟩ => (sendLoop_of_blocksAt (le_refl _) hb).1
  by_cases htime : (sendLoop buf.length results buf).2 = .netTimeout
  · obtain ⟨j, hb, hlen⟩ := blocksAt_of_sendLoop htime
    cases j with
    | zero =>
      -- the first `send` already blocked, and no other one was made
      refine Or.inr (Or.inl ⟨htime, List.eq_nil_of_length_eq_zero hlen, ?_⟩)
      rintro ⟨i, hi, hbi⟩
      have := hbi.2.1 0 hi
      rw [hb.1] at this
      exact absurd this (lt_irrefl 0)
    | succ j =>
      have hpos : 0 < takenBefore results (j + 1) := by
        have := hb.2.1 0 (Nat.succ_pos j)
        rw [takenBefore_succ]
        omega
      exact Or.inr (Or.inr (Or.inl ⟨htime, by omega, by rw [hlen]; exact hb.2.2,
        j + 1, Nat.succ_pos j, hb⟩))
  · have hnot : ¬ Stalls results buf.length := fun hs => htime (hstall hs)
    by_cases hok : (sendLoop buf.length results buf).2 = .ok
    · exact Or.inl ⟨hok, sendLoop_ok (le_refl _) hok, hnot⟩
    · exact Or.inr (Or.inr (Or.inr ⟨hok, htime, hnot⟩))

/-! ## Section 2: The slots -/

/-- The active slots hold open descriptors, each its own. -/
structure Slots (s : Server) : Prop where
  opened   : ∀ i, (s.mgr.client i).active → 0 ≤ (s.mgr.client i).fd ∧
    (s.mgr.client i).fd ∈ s.kernel.opened
  distinct : ∀ i j, (s.mgr.client i).active → (s.mgr.client j).active →
    (s.mgr.client i).fd = (s.mgr.client j).fd → i = j

theorem client_setClient_ne (m : SilogRemoteManager) {i j : ℕ} (c : SilogRemoteClient)
    (hne : j ≠ i) : (m.setClient i c).client j = m.client j := by
  unfold SilogRemoteManager.client SilogRemoteManager.setClient
  cases m.clients with
  | none => rfl
  | some cs => simp [Function.update_of_ne hne]

/-- A slot that is overwritten while the table is there. -/
theorem client_setClient_cases (m : SilogRemoteManager) (i : ℕ) (c : SilogRemoteClient) :
    (m.setClient i c).client i = c ∨ (m.setClient i c).client i = .empty := by
  unfold SilogRemoteManager.client SilogRemoteManager.setClient
  cases m.clients with
  | none => exact Or.inr rfl
  | some cs => exact Or.inl (by simp)

theorem close_client_ne (s : Server) {i j : ℕ} (hne : j ≠ i) :
    (silogRemoteCloseClientInternal s i).mgr.client j = s.mgr.client j := by
  unfold silogRemoteCloseClientInternal
  split
  · rfl
  · exact client_setClient_ne s.mgr .empty hne

theorem close_client_self (s : Server) {i : ℕ} (hi : i < s.mgr.maxClients.toNat) :
    (silogRemoteCloseClientInternal s i).mgr.client i = .empty := by
  unfold silogRemoteCloseClientInternal
  rw [if_neg (not_le.mpr hi)]
  rcases client_setClient_cases s.mgr i .empty with h | h <;> exact h

@[simp] theorem close_sent (s : Server) (i : ℕ) :
    (silogRemoteCloseClientInternal s i).kernel.sent = s.kernel.sent := by
  unfold silogRemoteCloseClientInternal
  split
  · rfl
  · dsimp only
    split <;> rfl

@[simp] theorem close_maxClients (s : Server) (i : ℕ) :
    (silogRemoteCloseClientInternal s i).mgr.maxClients = s.mgr.maxClients := by
  unfold silogRemoteCloseClientInternal
  split <;> rfl

/-- A descriptor other than the one of slot `i` stays open. -/
theorem close_opened {s : Server} {i : ℕ} {fd : ℤ} (hne : fd ≠ (s.mgr.client i).fd)
    (hfd : fd ∈ s.kernel.opened) : fd ∈ (silogRemoteCloseClientInternal s i).kernel.opened := by
  unfold silogRemoteCloseClientInternal
  split
  · exact hfd
  · dsimp only
    split
    · exact (List.mem_erase_of_ne hne).mpr hfd
    · exact hfd

theorem Slots.close {s : Server} (hS : Slots s) {i : ℕ} (hi : i < s.mgr.maxClients.toNat) :
    Slots (silogRemoteCloseClientInternal s i) := by
  have hother : ∀ j, ((silogRemoteCloseClientInternal s i).mgr.client j).active → j ≠ i := by
    rintro j hj rfl
    rw [close_client_self s hi] at hj
    cases hj
  constructor
  · intro j hj
    have hji := hother j hj
    rw [close_client_ne s hji] at hj ⊢
    obtain ⟨hpos, hopen⟩ := hS.opened j hj
    refine ⟨hpos, ?_⟩
    by_cases hfd : (s.mgr.client j).fd = (s.mgr.client i).fd
    · -- two slots with one descriptor: slot `i` is not active and nothing is closed
      -- `Slots.distinct` leaves only the case that slot `i` was idle
      by_cases hact : (s.mgr.client i).active
      · exact absurd (hS.distinct j i hj hact hfd) hji
      · unfold silogRemoteCloseClientInternal
        rw [if_neg (not_le.mpr hi)]
        simp only [hact, Bool.false_eq_true, false_and, if_false]
        exact hopen
    · exact close_opened hfd hopen
  · intro j k hj hk
    rw [close_client_ne s (hother j hj), close_client_ne s (hother k hk)]
    rw [close_client_ne s (hother j hj)] at hj
    rw [close_client_ne s (hother k hk)] at hk
    exact hS.distinct j k hj hk

/-! ## Section 3: One broadcast -/

/-- What a broadcast does to slot `i`. -/
structure SlotAfter (buf : List UInt8) (sends : ℕ → ℕ → SendResult) (s s' : Server) (i : ℕ) :
    Prop where
  idle : (s.mgr.client i).active = false → (s'.mgr.client i).active = false
  kept : (s.mgr.client i).active →
    (silogRemoteSendFull (sends i) buf).2 = .ok ∨
      (silogRemoteSendFull (sends i) buf).2 = .netTimeout →
    s'.mgr.client i = s.mgr.client i ∧
    s'.kernel.sent (s.mgr.client i).fd =
      s.kernel.sent (s.mgr.client i).fd ++ (silogRemoteSendFull (sends i) buf).1
  lost : (s.mgr.client i).active →
    (silogRemoteSendFull (sends i) buf).2 ≠ .ok →
    (silogRemoteSendFull (sends i) buf).2 ≠ .netTimeout → (s'.mgr.client i).active = false

/-- What a broadcast leaves alone. -/
def SlotSame (s s' : Server) (i : ℕ) : Prop :=
  s'.mgr.client i = s.mgr.client i ∧
  ((s.mgr.client i).active →
    s'.kernel.sent (s.mgr.client i).fd = s.kernel.sent (s.mgr.client i).fd)

theorem SlotSame.trans {s s' s'' : Server} {i : ℕ} (h : SlotSame s s' i) (h' : SlotSame s' s'' i) :
    SlotSame s s'' i := by
  refine ⟨h'.1.trans h.1, ?_⟩
  intro hact
  have h₂ := h'.2
  rw [h.1] at h₂
  rw [h₂ hact, h.2 hact]

theorem SlotAfter.then_same {buf : List UInt8} {sends : ℕ → ℕ → SendResult} {s s' s'' : Server}
    {i : ℕ} (h : SlotAfter buf sends s s' i) (h' : SlotSame s' s'' i) :
    SlotAfter buf sends s s'' i := by
  constructor
  · intro hidle
    rw [h'.1]
    exact h.idle hidle
  · intro hact hret
    obtain ⟨hclient, hsent⟩ := h.kept hact hret
    have h₂ := h'.2
    rw [hclient] at h₂
    exact ⟨h'.1.trans hclient, (h₂ hact).trans hsent⟩
  · intro hact hok htime
    rw [h'.1]
    exact h.lost hact hok htime

theorem SlotAfter.of_same {buf : List UInt8} {sends : ℕ → ℕ → SendResult} {s s' s'' : Server}
    {i : ℕ} (h : SlotSame s s' i) (h' : SlotAfter buf sends s' s'' i) :
    SlotAfter buf sends s s'' i := by
  obtain ⟨hclient, hsent⟩ := h
  constructor
  · intro hidle
    exact h'.idle (by rw [hclient]; exact hidle)
  · intro hact hret
    have hkept := h'.kept (by rw [hclient]; exact hact) hret
    rw [hclient, hsent hact] at hkept
    exact hkept
  · intro hact hok htime
    exact h'.lost (by rw [hclient]; exact hact) hok htime

section turn
variable (buf : List UInt8) (sends : ℕ → ℕ → SendResult) (count : ℕ) {s : Server} {i : ℕ}

/-- The three outcomes of a turn. -/
theorem broadcastTo_cases (s : Server) (i : ℕ) :
    (((s.mgr.client i).active = false ∨ (s.mgr.client i).fd < 0) ∧
      (broadcastTo buf sends (s, count) i).1 = s) ∨
    ((s.mgr.client i).active ∧
      ((silogRemoteSendFull (sends i) buf).2 = .ok ∨
        (silogRemoteSendFull (sends i) buf).2 = .netTimeout) ∧
      (broadcastTo buf sends (s, count) i).1 =
        { s with kernel := s.kernel.push (s.mgr.client i).fd
                   (silogRemoteSendFull (sends i) buf).1 }) ∨
    ((s.mgr.client i).active ∧
      (silogRemoteSendFull (sends i) buf).2 ≠ .ok ∧
      (silogRemoteSendFull (sends i) buf).2 ≠ .netTimeout ∧
      (broadcastTo buf sends (s, count) i).1 =
        silogRemoteCloseClientInternal
          { s with kernel := s.kernel.push (s.mgr.client i).fd
                     (silogRemoteSendFull (sends i) buf).1 } i) := by
  unfold broadcastTo
  dsimp only
  split
  · next hskip => exact Or.inl ⟨hskip, rfl⟩
  · next hact =>
    -- the guard of the source is a disjunction; its negation gives an active slot
    have hact' : (s.mgr.client i).active := by
      by_contra h
      exact hact (Or.inl (by simpa using h))
    split
    · next hok => exact Or.inr (Or.inl ⟨hact', Or.inl hok, rfl⟩)
    · next hok =>
      split
      · next htime => exact Or.inr (Or.inl ⟨hact', Or.inr htime, rfl⟩)
      · next htime => exact Or.inr (Or.inr ⟨hact', hok, htime, rfl⟩)

theorem Slots.push (hS : Slots s) (fd : ℤ) (bytes : List UInt8) :
    Slots { s with kernel := s.kernel.push fd bytes } :=
  ⟨hS.opened, hS.distinct⟩

theorem Slots.broadcastTo (hS : Slots s) (hi : i < s.mgr.maxClients.toNat) :
    Slots (broadcastTo buf sends (s, count) i).1 := by
  rcases broadcastTo_cases buf sends count s i with ⟨_, h⟩ | ⟨_, _, h⟩ | ⟨_, _, _, h⟩
  · rw [h]; exact hS
  · rw [h]; exact hS.push _ _
  · rw [h]; exact (hS.push _ _).close hi

theorem broadcastTo_maxClients :
    (Remote.broadcastTo buf sends (s, count) i).1.mgr.maxClients = s.mgr.maxClients := by
  rcases broadcastTo_cases buf sends count s i with ⟨_, h⟩ | ⟨_, _, h⟩ | ⟨_, _, _, h⟩
  · rw [h]
  · rw [h]
  · rw [h, close_maxClients]

/-- A turn leaves the other slots alone. -/
theorem broadcastTo_other (hS : Slots s) {j : ℕ} (hne : j ≠ i) :
    SlotSame s (Remote.broadcastTo buf sends (s, count) i).1 j := by
  have hpush : (s.mgr.client i).active → (s.mgr.client j).active →
      (s.kernel.push (s.mgr.client i).fd (silogRemoteSendFull (sends i) buf).1).sent
        (s.mgr.client j).fd = s.kernel.sent (s.mgr.client j).fd := by
    intro hi hj
    have hfd : (s.mgr.client j).fd ≠ (s.mgr.client i).fd := fun h => hne (hS.distinct j i hj hi h)
    exact Function.update_of_ne hfd _ _
  rcases broadcastTo_cases buf sends count s i with ⟨_, h⟩ | ⟨hi, _, h⟩ | ⟨hi, _, _, h⟩
  · rw [h]; exact ⟨rfl, fun _ => rfl⟩
  · rw [h]; exact ⟨rfl, hpush hi⟩
  · rw [h]
    refine ⟨close_client_ne _ hne, ?_⟩
    rw [close_sent]
    exact hpush hi

/-- A turn does to its own slot what the result of the send says. -/
theorem broadcastTo_self (hS : Slots s) (hi : i < s.mgr.maxClients.toNat) :
    SlotAfter buf sends s (Remote.broadcastTo buf sends (s, count) i).1 i := by
  have hpush : (s.kernel.push (s.mgr.client i).fd (silogRemoteSendFull (sends i) buf).1).sent
      (s.mgr.client i).fd =
        s.kernel.sent (s.mgr.client i).fd ++ (silogRemoteSendFull (sends i) buf).1 :=
    Function.update_self _ _ _
  rcases broadcastTo_cases buf sends count s i with ⟨hskip, h⟩ | ⟨hact, hret, h⟩ | ⟨hact, hok, htime, h⟩
  · -- an active slot has a descriptor, so a slot that is skipped is not active
    have hidle : (s.mgr.client i).active = false := by
      by_contra hact
      have hact' : (s.mgr.client i).active := by simpa using hact
      have hpos := (hS.opened i hact').1
      rcases hskip with hf | hneg
      · exact hact hf
      · omega
    rw [h]
    exact ⟨id, fun hact => absurd hact (by simp [hidle]), fun hact => absurd hact (by simp [hidle])⟩
  · rw [h]
    refine ⟨id, fun _ _ => ⟨rfl, hpush⟩, fun _ hok htime => ?_⟩
    exact absurd hret (by simp [hok, htime])
  · rw [h]
    have hempty := close_client_self
      { s with kernel := s.kernel.push (s.mgr.client i).fd (silogRemoteSendFull (sends i) buf).1 } hi
    refine ⟨fun hidle => ?_, fun _ hret => ?_, fun _ _ _ => ?_⟩
    · exact absurd hact (by simp [hidle])
    · exact absurd hret (by simp [hok, htime])
    · rw [hempty]; rfl

end turn

/-- The loop of a broadcast over some slots: each of them is served once and the
    others are left alone. -/
theorem foldl_broadcastTo (buf : List UInt8) (sends : ℕ → ℕ → SendResult) (count : ℕ)
    {l : List ℕ} {s : Server} (hS : Slots s) (hnodup : l.Nodup)
    (hl : ∀ i ∈ l, i < s.mgr.maxClients.toNat) :
    Slots (l.foldl (broadcastTo buf sends) (s, count)).1 ∧
    (∀ i, i ∉ l → SlotSame s (l.foldl (broadcastTo buf sends) (s, count)).1 i) ∧
    ∀ i ∈ l, SlotAfter buf sends s (l.foldl (broadcastTo buf sends) (s, count)).1 i := by
  induction l generalizing s count with
  | nil => exact ⟨hS, fun i _ => ⟨rfl, fun _ => rfl⟩, fun i hi => absurd hi List.not_mem_nil⟩
  | cons j l ih =>
    obtain ⟨hj, hnodup'⟩ := List.nodup_cons.mp hnodup
    have hjmax := hl j List.mem_cons_self
    -- the turn of slot `j` first, and the rest of the loop from the state it leaves
    rw [List.foldl_cons]
    have hS₁ := hS.broadcastTo buf sends count hjmax
    have hmax₁ := broadcastTo_maxClients buf sends count (s := s) (i := j)
    have hother : ∀ i, i ≠ j → SlotSame s (broadcastTo buf sends (s, count) j).1 i :=
      fun i hi => broadcastTo_other buf sends count hS hi
    have hself := broadcastTo_self buf sends count hS hjmax
    obtain ⟨hSl, hsame, hafter⟩ := ih _ hS₁ hnodup' (fun i hi => by
      rw [hmax₁]; exact hl i (List.mem_cons_of_mem j hi))
    refine ⟨hSl, ?_, ?_⟩
    · intro i hi
      obtain ⟨hij, hil⟩ := not_or.mp (mt List.mem_cons.mpr hi)
      exact (hother i hij).trans (hsame i hil)
    · intro i hi
      rcases List.mem_cons.mp hi with rfl | hil
      · -- `j` was served first and does not come up again in `l`
        exact hself.then_same (hsame i hj)
      · exact SlotAfter.of_same (hother i (fun h => hj (h ▸ hil))) (hafter i hil)

/-- The entry of a `Broadcast` fills the buffer. -/
theorem serialize_entry (e : LogEntry) :
    silogRemoteSerializeEntry e (some (List.replicate entrySize 0)) (some 0) =
      (some (entryBytes e), some entrySize) := by
  simp only [silogRemoteSerializeEntry, List.length_replicate, lt_irrefl, if_false]
  rw [List.drop_eq_nil_of_le (by rw [List.length_replicate]), List.append_nil]

/-- The call of `Broadcast` that gets to its loop. -/
theorem broadcast_eq {s : Server} {e : LogEntry} {sends : ℕ → ℕ → SendResult}
    (hinit : s.mgr.isInit) (hcount : s.mgr.clientCount ≠ 0) :
    (silogRemoteBroadcast s (some e) sends).2.2 =
      ((List.range s.mgr.maxClients.toNat).foldl (broadcastTo (entryBytes e) sends) (s, 0)).1 := by
  -- `bufLen` is the whole buffer
  have htake : (entryBytes e).take entrySize = entryBytes e :=
    List.take_of_length_le (by rw [length_entryBytes])
  unfold silogRemoteBroadcast
  rw [if_neg (by simp [hinit])]
  simp only [hcount, if_false, serialize_entry, htake]
  rfl

/-- The calls of `Broadcast` that return early. -/
theorem broadcast_eq_self {s : Server} {entry : Option LogEntry} {sends : ℕ → ℕ → SendResult}
    (h : s.mgr.isInit = false ∨ entry = none ∨ s.mgr.clientCount = 0) :
    (silogRemoteBroadcast s entry sends).2.2 = s := by
  unfold silogRemoteBroadcast
  split
  · rfl
  · next hinit =>
    cases entry with
    | none => rfl
    | some e =>
      have hcount : s.mgr.clientCount = 0 := by simpa [hinit] using h
      simp [hcount]

/-! ## Section 4: Framing -/

/-- What was sent on a connection that is still active is a concatenation of
    complete encodings of some of the entries broadcast, in order. -/
def Framed (s : Server) : Prop :=
  ∀ i, (s.mgr.client i).active → ∃ es : List LogEntry, es.Sublist s.history ∧
    s.kernel.sent (s.mgr.client i).fd = (es.map entryBytes).flatten

/-- No `send` to an active client reports a would-block after a partial send of
    the record. -/
def NoStall (s : Server) : Call → Prop
  | .broadcast (some _) sends => s.mgr.isInit → s.mgr.clientCount ≠ 0 →
      ∀ i, i < s.mgr.maxClients.toNat → (s.mgr.client i).active → ¬ Stalls (sends i) entrySize
  | _ => True

theorem noStall_steady (s : Server) (entry : Option LogEntry) (r : ℕ → SendResult) :
    NoStall s (.broadcast entry fun i _ => r i) := by
  cases entry with
  | none => trivial
  | some e => exact fun _ _ i _ _ => not_stalls_steady (r i) entrySize

theorem length_flatten_entries (es : List LogEntry) :
    (es.map entryBytes).flatten.length = entrySize * es.length := by
  induction es with
  | nil => rfl
  | cons e es ih =>
    rw [List.map_cons, List.flatten_cons, List.length_append, length_entryBytes, ih,
      List.length_cons, Nat.mul_succ, Nat.add_comm]

theorem Framed.weaken {s : Server} (hF : Framed s) (extra : List LogEntry) :
    Framed { s with history := s.history ++ extra } := by
  intro i hact
  obtain ⟨es, hsub, hsent⟩ := hF i hact
  exact ⟨es, hsub.trans (List.sublist_append_left _ _), hsent⟩

/-- A broadcast keeps the streams framed exactly when no record stalls. -/
theorem Framed.broadcast_iff {s s' : Server} {e : LogEntry} {sends : ℕ → ℕ → SendResult}
    (hF : Framed s)
    (hsame : ∀ i, s.mgr.maxClients.toNat ≤ i → SlotSame s s' i)
    (hafter : ∀ i, i < s.mgr.maxClients.toNat → SlotAfter (entryBytes e) sends s s' i) :
    Framed { s' with history := s.history ++ [e] } ↔
      ∀ i, i < s.mgr.maxClients.toNat → (s.mgr.client i).active →
        ¬ Stalls (sends i) entrySize := by
  have hcases := fun i => silogRemoteSendFull_cases (sends i) (entryBytes e)
  simp only [length_entryBytes] at hcases
  constructor
  · intro hF' i hi hact hstall
    obtain ⟨_, _, hn⟩ | ⟨_, _, hn⟩ | ⟨hret, hpos, hlt, _⟩ | ⟨_, _, hn⟩ := hcases i
    · exact hn hstall
    · exact hn hstall
    · -- a part of a record was added to whole records
      obtain ⟨hclient, hsent⟩ := (hafter i hi).kept hact (Or.inr hret)
      obtain ⟨es, _, hes⟩ := hF i hact
      obtain ⟨es', _, hes'⟩ := hF' i (by rw [hclient]; exact hact)
      simp only [hclient] at hes'
      rw [hsent, hes] at hes'
      have hlen := congrArg List.length hes'
      rw [List.length_append, length_flatten_entries, length_flatten_entries] at hlen
      have hmod : (silogRemoteSendFull (sends i) (entryBytes e)).1.length % entrySize = 0 := by
        have := congrArg (· % entrySize) hlen
        simpa [Nat.mul_add_mod, Nat.mul_mod_right] using this
      rw [Nat.mod_eq_of_lt hlt] at hmod
      omega
    · exact hn hstall
  · intro hclean i hact'
    by_cases hi : i < s.mgr.maxClients.toNat
    · have hact : (s.mgr.client i).active := by
        by_contra h
        have hidle := (hafter i hi).idle (by simpa using h)
        rw [hidle] at hact'
        cases hact'
      obtain ⟨hret, hall, _⟩ | ⟨hret, hnone, _⟩ | ⟨_, _, _, hstall⟩ | ⟨hok, htime, _⟩ := hcases i
      · -- the whole record was added
        obtain ⟨hclient, hsent⟩ := (hafter i hi).kept hact (Or.inl hret)
        obtain ⟨es, hsub, hes⟩ := hF i hact
        refine ⟨es ++ [e], hsub.append (List.Sublist.refl [e]), ?_⟩
        simp only [hclient]
        rw [hsent, hall, hes]
        simp
      · -- the first `send` blocked: this client misses the record
        obtain ⟨hclient, hsent⟩ := (hafter i hi).kept hact (Or.inr hret)
        obtain ⟨es, hsub, hes⟩ := hF i hact
        refine ⟨es, hsub.trans (List.sublist_append_left _ _), ?_⟩
        simp only [hclient]
        rw [hsent, hnone, hes, List.append_nil]
      · exact absurd hstall (hclean i hi hact)
      · -- the client was closed
        have hlost := (hafter i hi).lost hact hok htime
        rw [hlost] at hact'
        cases hact'
    · -- a slot the loop does not get to
      obtain ⟨hclient, hsent⟩ := hsame i (not_lt.mp hi)
      have hact : (s.mgr.client i).active := by
        have h := hact'
        rw [hclient] at h
        exact h
      obtain ⟨es, hsub, hes⟩ := hF i hact
      refine ⟨es, hsub.trans (List.sublist_append_left _ _), ?_⟩
      simp only [hclient]
      rw [hsent hact, hes]

/-! ## Section 5: The other calls -/

/-- No slot is active. -/
def NoneActive (s : Server) : Prop := ∀ i, (s.mgr.client i).active = false

theorem NoneActive.slots {s : Server} (h : NoneActive s) : Slots s where
  opened := fun i hact => absurd hact (by simp [h i])
  distinct := fun i j hact => absurd hact (by simp [h i])

theorem NoneActive.framed {s : Server} (h : NoneActive s) : Framed s :=
  fun i hact => absurd hact (by simp [h i])

theorem init_cases (s : Server) (config : Option SilogRemoteConfig) (env : InitEnv) :
    (silogRemoteInit s config env).2 = s ∨ NoneActive (silogRemoteInit s config env).2 := by
  unfold silogRemoteInit
  split
  · exact Or.inl rfl
  · refine Or.inr fun i => ?_
    dsimp only
    -- the five splits are the exits for `malloc`, `socket`, `bind`, `listen` and `fcntl`; the table is
    -- not there or is all empty on each
    split
    · rfl
    · split
      · rfl
      · split
        · rfl
        · split
          · rfl
          · split <;> rfl

theorem deinit_cases (s : Server) :
    silogRemoteDeinit s = s ∨ NoneActive (silogRemoteDeinit s) := by
  unfold silogRemoteDeinit
  split
  · exact Or.inl rfl
  · exact Or.inr fun _ => rfl

/-- `Accept` does nothing, or closes the new connection again, or puts it into a
    free slot. -/
theorem accept_cases (s : Server) (result : AcceptResult) (getFl setFl : Bool) :
    (silogRemoteAccept s result getFl setFl).2 = s ∨
    ∃ fd, result = .connection fd ∧ s.mgr.isInit ∧
      ((silogRemoteAccept s result getFl setFl).2 =
        { s with kernel := (s.kernel.open fd).close fd } ∨
       ∃ slot, s.mgr.clientCount < s.mgr.maxClients ∧
        silogRemoteFindFreeSlot s.mgr = some slot ∧
        (silogRemoteAccept s result getFl setFl).2 =
        { s with mgr := { s.mgr.setClient slot { fd := fd, active := true } with
                          clientCount := s.mgr.clientCount + 1 }
                 kernel := s.kernel.open fd }) := by
  unfold silogRemoteAccept
  split
  · exact Or.inl rfl
  · next hinit =>
    cases result with
    | wouldBlock => exact Or.inl rfl
    | failed => exact Or.inl rfl
    | connection fd =>
      refine Or.inr ⟨fd, rfl, by simpa using hinit, ?_⟩
      dsimp only
      split
      · exact Or.inl rfl
      · next hroom =>
        split
        · exact Or.inl rfl
        · next slot hslot =>
          split
          · exact Or.inl rfl
          · exact Or.inr ⟨slot, UInt32.not_le.mp hroom, hslot, rfl⟩

section accept
variable {s : Server} {fd : ℤ}

/-- The stream of an active slot is not touched by a new descriptor. -/
theorem Slots.open_sent (hS : Slots s) (hfresh : fd ∉ s.kernel.opened) {i : ℕ}
    (hact : (s.mgr.client i).active) :
    (s.kernel.open fd).sent (s.mgr.client i).fd = s.kernel.sent (s.mgr.client i).fd := by
  have hne : (s.mgr.client i).fd ≠ fd := by
    intro h
    exact hfresh (by rw [← h]; exact (hS.opened i hact).2)
  exact Function.update_of_ne hne _ _

theorem Slots.reject (hS : Slots s) : Slots { s with kernel := (s.kernel.open fd).close fd } := by
  refine ⟨?_, hS.distinct⟩
  intro i hact
  refine ⟨(hS.opened i hact).1, ?_⟩
  show _ ∈ (fd :: s.kernel.opened).erase fd
  rw [List.erase_cons_head]
  exact (hS.opened i hact).2

/-- After a connection was put into a slot, an active slot is that one or was
    active before. -/
theorem client_accepted {slot i : ℕ} {m : SilogRemoteManager}
    (hact : ((m.setClient slot { fd := fd, active := true }).client i).active) :
    (i = slot ∧ (m.setClient slot { fd := fd, active := true }).client i =
      { fd := fd, active := true }) ∨
    (i ≠ slot ∧ (m.setClient slot { fd := fd, active := true }).client i = m.client i) := by
  by_cases hi : i = slot
  · subst hi
    rcases client_setClient_cases m i { fd := fd, active := true } with h | h
    · exact Or.inl ⟨rfl, h⟩
    · rw [h] at hact
      cases hact
  · exact Or.inr ⟨hi, client_setClient_ne m _ hi⟩

theorem Slots.open (hS : Slots s) (fd : ℤ) : Slots { s with kernel := s.kernel.open fd } :=
  ⟨fun i hact => ⟨(hS.opened i hact).1, List.mem_cons_of_mem _ (hS.opened i hact).2⟩, hS.distinct⟩

/-- An open descriptor that no slot holds is put into a slot. -/
theorem Slots.fill (hS : Slots s) (hpos : 0 ≤ fd) (hopen : fd ∈ s.kernel.opened)
    (hfree : ∀ i, (s.mgr.client i).active → (s.mgr.client i).fd ≠ fd) (slot : ℕ)
    (clientCount : UInt32) :
    Slots { s with mgr := { s.mgr.setClient slot { fd := fd, active := true } with
                            clientCount := clientCount } } := by
  constructor
  · intro i hact
    show 0 ≤ ((s.mgr.setClient slot _).client i).fd ∧
      ((s.mgr.setClient slot _).client i).fd ∈ s.kernel.opened
    obtain ⟨rfl, h⟩ | ⟨_, h⟩ := client_accepted (m := s.mgr) hact
    · rw [h]
      exact ⟨hpos, hopen⟩
    · rw [h]
      exact hS.opened i (by rw [← h]; exact hact)
  · intro i j hi hj
    show ((s.mgr.setClient slot _).client i).fd = ((s.mgr.setClient slot _).client j).fd → i = j
    -- two active slots: one that was active before does not hold `fd`
    obtain ⟨rfl, h⟩ | ⟨_, h⟩ := client_accepted (m := s.mgr) hi <;>
    obtain ⟨rfl, h'⟩ | ⟨_, h'⟩ := client_accepted (m := s.mgr) hj
    · exact fun _ => rfl
    · have hj' : (s.mgr.client j).active := by rw [← h']; exact hj
      rw [h, h']
      exact fun heq => absurd heq.symm (hfree j hj')
    · have hi' : (s.mgr.client i).active := by rw [← h]; exact hi
      rw [h, h']
      exact fun heq => absurd heq (hfree i hi')
    · have hi' : (s.mgr.client i).active := by rw [← h]; exact hi
      have hj' : (s.mgr.client j).active := by rw [← h']; exact hj
      rw [h, h']
      exact hS.distinct i j hi' hj'

theorem Slots.accept (hS : Slots s) (hpos : 0 ≤ fd) (hfresh : fd ∉ s.kernel.opened) (slot : ℕ)
    (clientCount : UInt32) :
    Slots { s with mgr := { s.mgr.setClient slot { fd := fd, active := true } with
                            clientCount := clientCount }
                   kernel := s.kernel.open fd } :=
  (hS.open fd).fill hpos List.mem_cons_self
    (fun i hact heq => hfresh (heq ▸ (hS.opened i hact).2)) slot clientCount

theorem Framed.reject (hF : Framed s) (hS : Slots s) (hfresh : fd ∉ s.kernel.opened) :
    Framed { s with kernel := (s.kernel.open fd).close fd } := by
  intro i hact
  obtain ⟨es, hsub, hes⟩ := hF i hact
  exact ⟨es, hsub, (hS.open_sent hfresh hact).trans hes⟩

theorem Framed.accept (hF : Framed s) (hS : Slots s) (hfresh : fd ∉ s.kernel.opened) (slot : ℕ)
    (clientCount : UInt32) :
    Framed { s with mgr := { s.mgr.setClient slot { fd := fd, active := true } with
                             clientCount := clientCount }
                    kernel := s.kernel.open fd } := by
  intro i hact
  show ∃ es : List LogEntry, es.Sublist s.history ∧
    (s.kernel.open fd).sent ((s.mgr.setClient slot _).client i).fd = _
  obtain ⟨rfl, h⟩ | ⟨_, h⟩ := client_accepted (m := s.mgr) hact
  · -- nothing was sent on the new connection yet
    refine ⟨[], List.nil_sublist _, ?_⟩
    rw [h]
    exact Function.update_self _ _ _
  · have hact' : (s.mgr.client i).active := by rw [← h]; exact hact
    obtain ⟨es, hsub, hes⟩ := hF i hact'
    refine ⟨es, hsub, ?_⟩
    rw [h]
    exact (hS.open_sent hfresh hact').trans hes

end accept

/-! ## Section 6: Runs -/

/-- A `Broadcast` call that does not get to its loop. -/
theorem broadcast_early {s : Server} {entry : Option LogEntry} {sends : ℕ → ℕ → SendResult}
    (h : s.mgr.isInit = false ∨ entry = none ∨ s.mgr.clientCount = 0) :
    s.call (.broadcast entry sends) = { s with history := s.history ++ entry.toList } := by
  unfold Server.call
  simp only [broadcast_eq_self h]

/-- The loop of a `Broadcast` call. -/
theorem Slots.broadcast_loop {s : Server} {e : LogEntry} {sends : ℕ → ℕ → SendResult}
    (hS : Slots s) (hinit : s.mgr.isInit) (hcount : s.mgr.clientCount ≠ 0) :
    ∃ s', s.call (.broadcast (some e) sends) = { s' with history := s.history ++ [e] } ∧
      Slots s' ∧ (∀ i, s.mgr.maxClients.toNat ≤ i → SlotSame s s' i) ∧
      ∀ i, i < s.mgr.maxClients.toNat → SlotAfter (entryBytes e) sends s s' i := by
  obtain ⟨hS', hsame, hafter⟩ := foldl_broadcastTo (entryBytes e) sends 0 hS
    (List.nodup_range (n := s.mgr.maxClients.toNat)) (fun i hi => List.mem_range.mp hi)
  refine ⟨_, ?_, hS', fun i hi => hsame i (by rw [List.mem_range]; omega),
    fun i hi => hafter i (List.mem_range.mpr hi)⟩
  unfold Server.call
  simp only [broadcast_eq hinit hcount, Option.toList_some]

theorem Slots.step {s s' : Server} {c : Call} (hS : Slots s) (hstep : Step s c s') : Slots s' := by
  obtain ⟨hfresh, rfl⟩ := hstep
  cases c with
  | init config env =>
    show Slots (silogRemoteInit s config env).2
    rcases init_cases s config env with h | h
    · rw [h]; exact hS
    · exact h.slots
  | accept result getFl setFl =>
    show Slots (silogRemoteAccept s result getFl setFl).2
    obtain h | ⟨fd, hr, _, h | ⟨slot, _, _, h⟩⟩ := accept_cases s result getFl setFl
    · rw [h]; exact hS
    · rw [h]; exact hS.reject
    · rw [h]; exact hS.accept (hfresh fd hr).1 (hfresh fd hr).2 slot _
  | broadcast entry sends =>
    by_cases hearly : s.mgr.isInit = false ∨ entry = none ∨ s.mgr.clientCount = 0
    · rw [broadcast_early hearly]
      exact ⟨hS.opened, hS.distinct⟩
    · push Not at hearly
      obtain ⟨hinit, hentry, hcount⟩ := hearly
      obtain ⟨e, rfl⟩ := Option.ne_none_iff_exists'.mp hentry
      obtain ⟨s', h, hS', _, _⟩ := hS.broadcast_loop (by simpa using hinit) hcount
      rw [h]
      exact ⟨hS'.opened, hS'.distinct⟩
  | getClientCount => exact hS
  | deinit =>
    show Slots (silogRemoteDeinit s)
    rcases deinit_cases s with h | h
    · rw [h]; exact hS
    · exact h.slots

/-- A call keeps the streams framed exactly when no record stalls in it. -/
theorem Framed.step_iff {s s' : Server} {c : Call} (hS : Slots s) (hF : Framed s)
    (hstep : Step s c s') : Framed s' ↔ NoStall s c := by
  obtain ⟨hfresh, rfl⟩ := hstep
  cases c with
  | init config env =>
    refine iff_of_true ?_ trivial
    show Framed (silogRemoteInit s config env).2
    rcases init_cases s config env with h | h
    · rw [h]; exact hF
    · exact h.framed
  | accept result getFl setFl =>
    refine iff_of_true ?_ trivial
    show Framed (silogRemoteAccept s result getFl setFl).2
    obtain h | ⟨fd, hr, _, h | ⟨slot, _, _, h⟩⟩ := accept_cases s result getFl setFl
    · rw [h]; exact hF
    · rw [h]; exact hF.reject hS (hfresh fd hr).2
    · rw [h]; exact hF.accept hS (hfresh fd hr).2 slot _
  | broadcast entry sends =>
    by_cases hearly : s.mgr.isInit = false ∨ entry = none ∨ s.mgr.clientCount = 0
    · rw [broadcast_early hearly]
      refine iff_of_true (hF.weaken _) ?_
      cases entry with
      | none => trivial
      | some e =>
        intro hinit hcount
        simp [hinit, hcount] at hearly
    · push Not at hearly
      obtain ⟨hinit, hentry, hcount⟩ := hearly
      have hinit' : s.mgr.isInit := by simpa using hinit
      obtain ⟨e, rfl⟩ := Option.ne_none_iff_exists'.mp hentry
      obtain ⟨s', h, _, hsame, hafter⟩ := hS.broadcast_loop hinit' hcount
      rw [h, hF.broadcast_iff hsame hafter]
      exact ⟨fun hclean _ _ => hclean, fun hclean => hclean hinit' hcount⟩
  | getClientCount => exact iff_of_true hF trivial
  | deinit =>
    refine iff_of_true ?_ trivial
    show Framed (silogRemoteDeinit s)
    rcases deinit_cases s with h | h
    · rw [h]; exact hF
    · exact h.framed

theorem noneActive_initial : NoneActive Server.initial := fun _ => rfl

/-- **Framing.** A run keeps every active stream framed after each of its calls if
    and only if no `send` in it reports a would-block after a partial send. -/
theorem framed_iff_noStall (calls : List Call) (s : Server) :
    Steps (Ensuring Step Framed) Server.initial calls s ↔
      Steps (Guarded Step NoStall) Server.initial calls s :=
  ensuring_iff_guarded noneActive_initial.slots noneActive_initial.framed
    (fun _ _ _ hstep hS _ _ => hS.step hstep) (fun _ _ _ hstep hS hF => hF.step_iff hS hstep)

/-- A client whose buffer takes 10 bytes of the first record and is full then. -/
def slowClient : List Call :=
  [.init none { malloc := true, socket := some 3, bind := true, listen := true,
                getFl := true, setFl := true },
   .accept (.connection 4) true true,
   .broadcast (some (sampleEntry 0)) fun _ j => if j = 0 then .accepted 9 else .wouldBlock]

/-- The state after the calls, one after the other. -/
def Server.run (s : Server) (calls : List Call) : Server := calls.foldl Server.call s

/-- The client is still active and has 10 bytes of a record. -/
theorem slowClient_not_framed :
    Steps Step Server.initial slowClient (Server.initial.run slowClient) ∧
    ¬ Framed (Server.initial.run slowClient) := by
  constructor
  · refine Steps.cons _ _ ⟨?_, rfl⟩ (Steps.cons _ _ ⟨?_, rfl⟩ (Steps.single ⟨trivial, rfl⟩))
    · rintro fd ⟨⟩
      exact ⟨by decide, List.not_mem_nil⟩
    · rintro fd ⟨⟩
      exact ⟨by decide, by decide⟩
  · intro hF
    obtain ⟨es, _, hes⟩ := hF 0 (by decide +kernel)
    -- 10 bytes are no multiple of the record size
    have hlen := congrArg List.length hes
    rw [length_flatten_entries] at hlen
    have hten : ((Server.initial.run slowClient).kernel.sent
        ((Server.initial.run slowClient).mgr.client 0).fd).length = 10 := by decide +kernel
    rw [hten, show entrySize = 377 from rfl] at hlen
    omega

end SiLog.Remote
