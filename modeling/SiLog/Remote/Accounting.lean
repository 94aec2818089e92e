import SiLog.Remote.Broadcast
import Mathlib.Data.Finset.Card

/-! # Connection accounting

    `clientCount` is kept by hand next to the slots, and the descriptors
    that `socket` and `accept` hand out are closed by hand on every way out.
    This file proves that the books balance after every call, whatever the
    system calls return: the count is that of the active slots, and each
    descriptor that was obtained is the listening socket, or sits in exactly
    one slot, or was closed exactly once.
-/

open Lts Ledger

namespace SiLog.Remote

/-! ## Section 1: The invariant -/

/-- The slots in use. -/
def activeSlots (m : SilogRemoteManager) : Finset ℕ :=
  (Finset.range m.maxClients.toNat).filter fun i => (m.client i).active

/-- The count, the slots and the descriptors agree. -/
structure Accounts (s : Server) : Prop where
  slots  : Slots s
  below  : ∀ i, (s.mgr.client i).active → i < s.mgr.maxClients.toNat
  count  : s.mgr.clientCount.toNat = (activeSlots s.mgr).card
  nodup  : s.kernel.opened.Nodup
  books  : Balanced s.kernel.log s.kernel.opened
  owned  : ∀ fd, fd ∈ s.kernel.opened ↔
    (s.mgr.isInit ∧ fd = s.mgr.listenFd) ∨ ∃ i, (s.mgr.client i).active ∧ (s.mgr.client i).fd = fd
  listen : s.mgr.isInit → 0 ≤ s.mgr.listenFd ∧
    ∀ i, (s.mgr.client i).active → (s.mgr.client i).fd ≠ s.mgr.listenFd
  table  : s.mgr.isInit → s.mgr.clients.isSome
  off    : s.mgr.isInit = false → s.mgr.clients = none ∧ s.mgr.listenFd = -1

theorem mem_activeSlots {m : SilogRemoteManager} {i : ℕ} :
    i ∈ activeSlots m ↔ i < m.maxClients.toNat ∧ (m.client i).active := by
  simp [activeSlots]

/-! ## Section 2: Descriptors -/

section kernel
variable {k : Sockets} {fd : ℤ}

theorem books_open (hb : Balanced k.log k.opened) (hfresh : fd ∉ k.opened) :
    Balanced (k.open fd).log (k.open fd).opened :=
  hb.acquire hfresh fun _ => List.mem_cons

theorem mem_close (hnd : k.opened.Nodup) {f : ℤ} :
    f ∈ (k.close fd).opened ↔ f ≠ fd ∧ f ∈ k.opened :=
  hnd.mem_erase_iff

theorem books_close (hb : Balanced k.log k.opened) (hnd : k.opened.Nodup) (hopen : fd ∈ k.opened) :
    Balanced (k.close fd).log (k.close fd).opened :=
  hb.release hopen fun _ => mem_close hnd

/-- A connection that is closed again right after it was taken. -/
theorem opened_open_close : ((k.open fd).close fd).opened = k.opened :=
  List.erase_cons_head fd k.opened

theorem books_open_close (hb : Balanced k.log k.opened) (hnd : k.opened.Nodup)
    (hfresh : fd ∉ k.opened) :
    Balanced ((k.open fd).close fd).log ((k.open fd).close fd).opened :=
  books_close (books_open hb hfresh) (List.nodup_cons.mpr ⟨hfresh, hnd⟩) List.mem_cons_self

end kernel

/-! ## Section 3: Closing a slot -/

section close
variable {s : Server} {i : ℕ}

theorem client_setClient_empty (m : SilogRemoteManager) (i : ℕ) :
    (m.setClient i .empty).client i = .empty := by
  rcases client_setClient_cases m i .empty with h | h <;> exact h

/-- Emptying a slot leaves the other active slots. -/
theorem active_setClient_empty {m : SilogRemoteManager} {j : ℕ} :
    ((m.setClient i .empty).client j).active ↔ j ≠ i ∧ (m.client j).active := by
  by_cases hj : j = i
  · subst hj
    rw [client_setClient_empty]
    simp [SilogRemoteClient.empty]
  · rw [client_setClient_ne m .empty hj]
    simp [hj]

theorem activeSlots_setClient_empty (m : SilogRemoteManager) (i : ℕ) (count : UInt32) :
    activeSlots { m.setClient i .empty with clientCount := count } = (activeSlots m).erase i := by
  ext j
  rw [Finset.mem_erase, mem_activeSlots, mem_activeSlots]
  show _ ∧ ((m.setClient i .empty).client j).active ↔ _
  rw [active_setClient_empty]
  exact and_left_comm

theorem close_idle (hi : i < s.mgr.maxClients.toNat) (hidle : (s.mgr.client i).active = false) :
    silogRemoteCloseClientInternal s i =
      { s with mgr := { s.mgr.setClient i .empty with clientCount := s.mgr.clientCount } } := by
  unfold silogRemoteCloseClientInternal
  rw [if_neg (not_le.mpr hi)]
  simp [hidle]

theorem Accounts.close_active (hA : Accounts s) (hact : (s.mgr.client i).active) :
    silogRemoteCloseClientInternal s i =
      { s with mgr := { s.mgr.setClient i .empty with clientCount := s.mgr.clientCount - 1 }
               kernel := s.kernel.close (s.mgr.client i).fd } := by
  have hi := hA.below i hact
  -- the slot is counted, so the count is not zero
  have hpos : 0 < s.mgr.clientCount := by
    rw [UInt32.lt_iff_toNat_lt, hA.count]
    exact Finset.card_pos.mpr ⟨i, mem_activeSlots.mpr ⟨hi, hact⟩⟩
  unfold silogRemoteCloseClientInternal
  rw [if_neg (not_le.mpr hi)]
  simp [hact, (hA.slots.opened i hact).1, hpos]

@[simp] theorem close_isInit (s : Server) (i : ℕ) :
    (silogRemoteCloseClientInternal s i).mgr.isInit = s.mgr.isInit := by
  unfold silogRemoteCloseClientInternal
  split <;> rfl

/-- The descriptors that the other slots hold. -/
theorem held_setClient_empty {m : SilogRemoteManager} {fd : ℤ} :
    (∃ j, ((m.setClient i .empty).client j).active ∧ ((m.setClient i .empty).client j).fd = fd) ↔
      ∃ j, j ≠ i ∧ (m.client j).active ∧ (m.client j).fd = fd := by
  constructor
  · rintro ⟨j, hj, hfd⟩
    obtain ⟨hji, hj'⟩ := active_setClient_empty.mp hj
    rw [client_setClient_ne _ _ hji] at hfd
    exact ⟨j, hji, hj', hfd⟩
  · rintro ⟨j, hji, hj, hfd⟩
    refine ⟨j, active_setClient_empty.mpr ⟨hji, hj⟩, ?_⟩
    rw [client_setClient_ne _ _ hji]
    exact hfd

/-- What is left to show when slot `i` is emptied: the count and the descriptors fit
    the other slots. -/
theorem Accounts.empty_slot (hA : Accounts s) {count : UInt32} {k : Sockets}
    (hslots : Slots { s with mgr := { s.mgr.setClient i .empty with clientCount := count }
                             kernel := k })
    (hcount : count.toNat = ((activeSlots s.mgr).erase i).card) (hnodup : k.opened.Nodup)
    (hbooks : Balanced k.log k.opened)
    (howned : ∀ fd, fd ∈ k.opened ↔ (s.mgr.isInit ∧ fd = s.mgr.listenFd) ∨
      ∃ j, j ≠ i ∧ (s.mgr.client j).active ∧ (s.mgr.client j).fd = fd) :
    Accounts { s with mgr := { s.mgr.setClient i .empty with clientCount := count }
                      kernel := k } := by
  refine ⟨hslots, ?_, ?_, hnodup, hbooks, ?_, ?_, ?_, ?_⟩
  · intro j hj
    exact hA.below j (active_setClient_empty.mp hj).2
  · rw [activeSlots_setClient_empty]
    exact hcount
  · intro fd
    exact (howned fd).trans (or_congr_right held_setClient_empty.symm)
  · intro hinit
    refine ⟨(hA.listen hinit).1, ?_⟩
    intro j hj
    obtain ⟨hji, hj'⟩ := active_setClient_empty.mp hj
    show ((s.mgr.setClient i .empty).client j).fd ≠ _
    rw [client_setClient_ne _ _ hji]
    exact (hA.listen hinit).2 j hj'
  · intro hinit
    show (s.mgr.clients.map fun cs => Function.update cs i .empty).isSome
    rw [Option.isSome_map]
    exact hA.table hinit
  · intro hinit
    obtain ⟨hnone, hfd⟩ := hA.off hinit
    refine ⟨?_, hfd⟩
    show (s.mgr.clients.map fun cs => Function.update cs i .empty) = none
    rw [hnone]
    rfl

theorem Accounts.close (hA : Accounts s) (hi : i < s.mgr.maxClients.toNat) :
    Accounts (silogRemoteCloseClientInternal s i) := by
  have hslots := hA.slots.close hi
  by_cases hact : (s.mgr.client i).active
  · rw [hA.close_active hact] at hslots ⊢
    have hmem : i ∈ activeSlots s.mgr := mem_activeSlots.mpr ⟨hi, hact⟩
    have hopen := (hA.slots.opened i hact).2
    apply hA.empty_slot hslots _ (hA.nodup.erase _) (books_close hA.books hA.nodup hopen)
    · -- the descriptor that goes is the one of slot `i` and of no other
      intro fd
      rw [mem_close hA.nodup, hA.owned]
      constructor
      · rintro ⟨hne, hlisten | ⟨j, hj, rfl⟩⟩
        · exact Or.inl hlisten
        · exact Or.inr ⟨j, fun h => hne (h ▸ rfl), hj, rfl⟩
      · rintro (⟨hinit, rfl⟩ | ⟨j, hji, hj, rfl⟩)
        · exact ⟨Ne.symm ((hA.listen hinit).2 i hact), Or.inl ⟨hinit, rfl⟩⟩
        · exact ⟨fun heq => hji (hA.slots.distinct j i hj hact heq), Or.inr ⟨j, hj, rfl⟩⟩
    · rw [Finset.card_erase_of_mem hmem, ← hA.count]
      have hle : (1 : UInt32) ≤ s.mgr.clientCount := by
        rw [UInt32.le_iff_toNat_le, hA.count]
        exact Finset.card_pos.mpr ⟨i, hmem⟩
      exact UInt32.toNat_sub_of_le _ _ hle
  · have hidle : (s.mgr.client i).active = false := by simpa using hact
    rw [close_idle hi hidle] at hslots ⊢
    apply hA.empty_slot hslots _ hA.nodup hA.books
    · intro fd
      rw [hA.owned]
      apply or_congr_right
      constructor
      · rintro ⟨j, hj, hfd⟩
        exact ⟨j, fun h => hact (h ▸ hj), hj, hfd⟩
      · rintro ⟨j, _, hj, hfd⟩
        exact ⟨j, hj, hfd⟩
    · rw [Finset.erase_eq_of_notMem]
      · exact hA.count
      · rw [mem_activeSlots]
        exact fun h => hact h.2

end close

/-! ## Section 4: The calls -/

section calls
variable {s : Server}

/-- Closing slots one after the other, as `Deinit` does. -/
theorem Accounts.closeAll (hA : Accounts s) {l : List ℕ} (hl : ∀ i ∈ l, i < s.mgr.maxClients.toNat) :
    Accounts (l.foldl silogRemoteCloseClientInternal s) ∧
    (l.foldl silogRemoteCloseClientInternal s).mgr.isInit = s.mgr.isInit ∧
    ∀ i, ((l.foldl silogRemoteCloseClientInternal s).mgr.client i).active →
      (s.mgr.client i).active ∧ i ∉ l := by
  induction l generalizing s with
  | nil => exact ⟨hA, rfl, fun i hi => ⟨hi, List.not_mem_nil⟩⟩
  | cons j l ih =>
    have hj := hl j List.mem_cons_self
    obtain ⟨hA', hinit, hact⟩ := ih (hA.close hj) (fun i hi => by
      rw [close_maxClients]
      exact hl i (List.mem_cons_of_mem j hi))
    refine ⟨hA', hinit.trans (close_isInit s j), ?_⟩
    intro i hi
    obtain ⟨hi', hil⟩ := hact i hi
    have hij : i ≠ j := by
      rintro rfl
      rw [close_client_self s hj] at hi'
      cases hi'
    rw [close_client_ne s hij] at hi'
    exact ⟨hi', fun h => (List.mem_cons.mp h).elim hij hil⟩

theorem Accounts.broadcastLoop (hA : Accounts s) (buf : List UInt8) (sends : ℕ → ℕ → SendResult)
    (sent : ℕ) {l : List ℕ} (hl : ∀ i ∈ l, i < s.mgr.maxClients.toNat) :
    Accounts (l.foldl (broadcastTo buf sends) (s, sent)).1 := by
  induction l generalizing s sent with
  | nil => exact hA
  | cons i l ih =>
    have hpush : ∀ fd bytes, Accounts { s with kernel := s.kernel.push fd bytes } := fun fd bytes =>
      ⟨hA.slots.push fd bytes, hA.below, hA.count, hA.nodup, hA.books, hA.owned, hA.listen,
        hA.table, hA.off⟩
    have hturn : Accounts (broadcastTo buf sends (s, sent) i).1 := by
      rcases broadcastTo_cases buf sends sent s i with ⟨_, h⟩ | ⟨_, _, h⟩ | ⟨_, _, _, h⟩
      · rw [h]; exact hA
      · rw [h]; exact hpush _ _
      · rw [h]; exact (hpush _ _).close (hl i List.mem_cons_self)
    refine ih hturn _ fun j hj => ?_
    rw [broadcastTo_maxClients buf sends sent]
    exact hl j (List.mem_cons_of_mem i hj)

theorem findFreeSlot_some {m : SilogRemoteManager} {slot : ℕ}
    (h : silogRemoteFindFreeSlot m = some slot) :
    slot < m.maxClients.toNat ∧ (m.client slot).active = false := by
  obtain ⟨hfind, _⟩ := Option.filter_eq_some_iff.mp h
  refine ⟨List.mem_range.mp (List.mem_of_find?_eq_some hfind), ?_⟩
  simpa using List.find?_some hfind

theorem client_setClient_self {m : SilogRemoteManager} (hsome : m.clients.isSome) (i : ℕ)
    (c : SilogRemoteClient) : (m.setClient i c).client i = c := by
  obtain ⟨cs, hcs⟩ := Option.isSome_iff_exists.mp hsome
  simp [SilogRemoteManager.setClient, SilogRemoteManager.client, hcs]

theorem Accounts.reject (hA : Accounts s) {fd : ℤ} (hfresh : fd ∉ s.kernel.opened) :
    Accounts { s with kernel := (s.kernel.open fd).close fd } := by
  refine ⟨hA.slots.reject, hA.below, hA.count, ?_, books_open_close hA.books hA.nodup hfresh, ?_,
    hA.listen, hA.table, hA.off⟩
  · rw [opened_open_close]
    exact hA.nodup
  · rw [opened_open_close]
    exact hA.owned

theorem activeSlots_setClient_active {m : SilogRemoteManager} {slot : ℕ} {fd : ℤ} {count : UInt32}
    (hsome : m.clients.isSome) (hlt : slot < m.maxClients.toNat) :
    activeSlots { m.setClient slot { fd := fd, active := true } with clientCount := count } =
      insert slot (activeSlots m) := by
  ext j
  rw [Finset.mem_insert, mem_activeSlots, mem_activeSlots]
  show _ ∧ ((m.setClient slot { fd := fd, active := true }).client j).active ↔ _
  by_cases hj : j = slot
  · subst hj
    rw [client_setClient_self hsome]
    exact iff_of_true ⟨hlt, rfl⟩ (Or.inl rfl)
  · rw [client_setClient_ne m _ hj]
    exact ⟨Or.inr, fun h => h.resolve_left hj⟩

/-- The descriptors that the slots hold when one more is in use. -/
theorem held_setClient_active {m : SilogRemoteManager} {slot : ℕ} {fd f : ℤ}
    (hsome : m.clients.isSome) (hidle : (m.client slot).active = false) :
    (∃ j, ((m.setClient slot { fd := fd, active := true }).client j).active ∧
      ((m.setClient slot { fd := fd, active := true }).client j).fd = f) ↔
      f = fd ∨ ∃ j, (m.client j).active ∧ (m.client j).fd = f := by
  have hself := client_setClient_self hsome slot { fd := fd, active := true }
  constructor
  · rintro ⟨j, hj, hf⟩
    obtain ⟨rfl, h⟩ | ⟨_, h⟩ := client_accepted hj
    · rw [h] at hf
      exact Or.inl hf.symm
    · rw [h] at hj hf
      exact Or.inr ⟨j, hj, hf⟩
  · rintro (rfl | ⟨j, hj, hf⟩)
    · exact ⟨slot, by rw [hself], by rw [hself]⟩
    · have hne : j ≠ slot := by
        rintro rfl
        rw [hidle] at hj
        cases hj
      refine ⟨j, ?_⟩
      rw [client_setClient_ne m _ hne]
      exact ⟨hj, hf⟩

theorem Accounts.accept (hA : Accounts s) {fd : ℤ} {slot : ℕ} (hpos : 0 ≤ fd)
    (hfresh : fd ∉ s.kernel.opened) (hinit : s.mgr.isInit)
    (hroom : s.mgr.clientCount < s.mgr.maxClients)
    (hslot : silogRemoteFindFreeSlot s.mgr = some slot) :
    Accounts { s with mgr := { s.mgr.setClient slot { fd := fd, active := true } with
                               clientCount := s.mgr.clientCount + 1 }
                      kernel := s.kernel.open fd } := by
  obtain ⟨hlt, hidle⟩ := findFreeSlot_some hslot
  have hlisten : fd ≠ s.mgr.listenFd := by
    rintro rfl
    exact hfresh ((hA.owned _).mpr (Or.inl ⟨hinit, rfl⟩))
  refine ⟨hA.slots.accept hpos hfresh slot _, ?_, ?_, List.nodup_cons.mpr ⟨hfresh, hA.nodup⟩,
    books_open hA.books hfresh, ?_, ?_, ?_, fun hoff => absurd (hinit.symm.trans hoff) (by decide)⟩
  · intro j hj
    obtain ⟨rfl, _⟩ | ⟨_, h⟩ := client_accepted (m := s.mgr) hj
    · exact hlt
    · exact hA.below j (by rw [← h]; exact hj)
  · -- one more slot, and no wrap since the count was below the limit
    rw [activeSlots_setClient_active (hA.table hinit) hlt,
      Finset.card_insert_of_notMem (by rw [mem_activeSlots]; simp [hidle]), ← hA.count]
    have hlt' : s.mgr.clientCount.toNat < s.mgr.maxClients.toNat := UInt32.lt_iff_toNat_lt.mp hroom
    have hmax := s.mgr.maxClients.toNat_lt
    show (s.mgr.clientCount + 1).toNat = _
    rw [UInt32.toNat_add]
    exact Nat.mod_eq_of_lt (by simp only [UInt32.reduceToNat]; omega)
  · intro f
    show f ∈ fd :: s.kernel.opened ↔ _
    rw [List.mem_cons, hA.owned, or_left_comm]
    exact or_congr_right (held_setClient_active (hA.table hinit) hidle).symm
  · intro _
    refine ⟨(hA.listen hinit).1, ?_⟩
    intro j hj
    show ((s.mgr.setClient slot { fd := fd, active := true }).client j).fd ≠ _
    obtain ⟨rfl, h⟩ | ⟨_, h⟩ := client_accepted (m := s.mgr) hj
    · rw [h]
      exact hlisten
    · rw [h]
      exact (hA.listen hinit).2 j (by rw [← h]; exact hj)
  · intro _
    show (s.mgr.clients.map fun cs => Function.update cs slot _).isSome
    rw [Option.isSome_map]
    exact hA.table hinit

/-- A service that is off: no table, no descriptor. -/
theorem Accounts.opened_of_off (hA : Accounts s) (hoff : s.mgr.isInit = false) :
    s.kernel.opened = [] := by
  rw [List.eq_nil_iff_forall_not_mem]
  intro fd hfd
  rcases (hA.owned fd).mp hfd with ⟨hinit, _⟩ | ⟨i, hi, _⟩
  · rw [hoff] at hinit
    cases hinit
  · rw [SilogRemoteManager.client, (hA.off hoff).1] at hi
    cases hi

theorem Accounts.count_of_off (hA : Accounts s) (hoff : s.mgr.isInit = false) :
    s.mgr.clientCount = 0 := by
  have hnone : activeSlots s.mgr = ∅ := by
    apply Finset.filter_eq_empty_iff.mpr
    intro i _
    simp [SilogRemoteManager.client, (hA.off hoff).1, SilogRemoteClient.empty]
  have hcount := hA.count
  rw [hnone] at hcount
  exact UInt32.toNat_inj.mp hcount

/-- The books of a service without slots in use. -/
theorem accounts_of_idle (hcount : s.mgr.clientCount = 0) (hidle : NoneActive s)
    (hnodup : s.kernel.opened.Nodup) (hbooks : Balanced s.kernel.log s.kernel.opened)
    (howned : ∀ fd, fd ∈ s.kernel.opened ↔ s.mgr.isInit ∧ fd = s.mgr.listenFd)
    (hlisten : s.mgr.isInit → 0 ≤ s.mgr.listenFd ∧ s.mgr.clients.isSome)
    (hoff : s.mgr.isInit = false → s.mgr.clients = none ∧ s.mgr.listenFd = -1) : Accounts s := by
  have hnone : ∀ i, ¬ (s.mgr.client i).active := fun i hi => by simp [hidle i] at hi
  refine ⟨hidle.slots, fun i hi => absurd hi (hnone i), ?_, hnodup, hbooks, ?_,
    fun hinit => ⟨(hlisten hinit).1, fun i hi => absurd hi (hnone i)⟩,
    fun hinit => (hlisten hinit).2, hoff⟩
  · have hempty : activeSlots s.mgr = ∅ :=
      Finset.filter_eq_empty_iff.mpr fun i _ => hnone i
    rw [hcount, hempty]
    rfl
  · intro fd
    rw [howned]
    constructor
    · exact Or.inl
    · rintro (h | ⟨i, hi, _⟩)
      · exact h
      · exact absurd hi (hnone i)

/-- The exits of `SilogRemoteInit`: five that fail and leave no descriptor, and the
    successful one. -/
theorem init_exits (config : Option SilogRemoteConfig) (env : InitEnv)
    (hoff : s.mgr.isInit = false) :
    ((silogRemoteInit s config env).1 ≠ .ok ∧
      (silogRemoteInit s config env).2.mgr.isInit = false ∧
      (silogRemoteInit s config env).2.mgr.clients = none ∧
      ((silogRemoteInit s config env).2.mgr.listenFd = s.mgr.listenFd ∨
        (silogRemoteInit s config env).2.mgr.listenFd = -1) ∧
      ((silogRemoteInit s config env).2.mgr.clientCount = s.mgr.clientCount ∨
        (silogRemoteInit s config env).2.mgr.clientCount = 0) ∧
      ((silogRemoteInit s config env).2.kernel = s.kernel ∨
        ∃ fd, env.socket = some fd ∧
          (silogRemoteInit s config env).2.kernel = (s.kernel.open fd).close fd)) ∨
    ∃ fd, (silogRemoteInit s config env).1 = .ok ∧ env.socket = some fd ∧
      (silogRemoteInit s config env).2.mgr.isInit = true ∧
      (silogRemoteInit s config env).2.mgr.clients = some (fun _ => .empty) ∧
      (silogRemoteInit s config env).2.mgr.listenFd = fd ∧
      (silogRemoteInit s config env).2.mgr.clientCount = 0 ∧
      (silogRemoteInit s config env).2.kernel = s.kernel.open fd := by
  unfold silogRemoteInit
  rw [if_neg (by simp [hoff])]
  dsimp only
  split
  · exact Or.inl ⟨nofun, hoff, rfl, Or.inl rfl, Or.inl rfl, Or.inl rfl⟩
  · split
    · exact Or.inl ⟨nofun, hoff, rfl, Or.inr rfl, Or.inr rfl, Or.inl rfl⟩
    · next fd hfd =>
      have habort := (⟨fd, hfd, rfl⟩ : ∃ f, env.socket = some f ∧
        (s.kernel.open fd).close fd = (s.kernel.open f).close f)
      split
      · exact Or.inl ⟨nofun, hoff, rfl, Or.inr rfl, Or.inr rfl, Or.inr habort⟩
      · split
        · exact Or.inl ⟨nofun, hoff, rfl, Or.inr rfl, Or.inr rfl, Or.inr habort⟩
        · split
          · next hfl => exact Or.inl ⟨hfl, hoff, rfl, Or.inr rfl, Or.inr rfl, Or.inr habort⟩
          · exact Or.inr ⟨fd, rfl, hfd, rfl, rfl, rfl, rfl, rfl⟩

theorem Accounts.init (hA : Accounts s) (config : Option SilogRemoteConfig) (env : InitEnv)
    (hfresh : ∀ fd, env.socket = some fd → 0 ≤ fd ∧ fd ∉ s.kernel.opened) :
    Accounts (silogRemoteInit s config env).2 := by
  cases hinit : s.mgr.isInit with
  | true =>
    have hsame : (silogRemoteInit s config env).2 = s := by
      unfold silogRemoteInit
      rw [if_pos hinit]
    rw [hsame]
    exact hA
  | false =>
    have hempty := hA.opened_of_off hinit
    obtain ⟨_, hoff, hnone, hfd, hc, hk⟩ | ⟨fd, _, hsock, hon, hsome, hfd, hc, hk⟩ :=
      init_exits config env hinit
    · have hopened : (silogRemoteInit s config env).2.kernel.opened = [] := by
        rcases hk with hk | ⟨fd, _, hk⟩
        · rw [hk, hempty]
        · rw [hk, opened_open_close, hempty]
      refine accounts_of_idle ?_ (fun i => by simp [SilogRemoteManager.client, hnone,
        SilogRemoteClient.empty]) ?_ ?_ ?_ ?_ ?_
      · rcases hc with hc | hc <;> rw [hc]
        exact hA.count_of_off hinit
      · rw [hopened]
        exact List.nodup_nil
      · rcases hk with hk | ⟨fd, hsock, hk⟩
        · rw [hk]
          exact hA.books
        · rw [hk]
          exact books_open_close hA.books hA.nodup (hfresh fd hsock).2
      · intro fd
        rw [hopened, hoff]
        simp
      · intro hon
        rw [hoff] at hon
        cases hon
      · intro _
        refine ⟨hnone, ?_⟩
        rcases hfd with hfd | hfd <;> rw [hfd]
        exact (hA.off hinit).2
    · obtain ⟨hpos, hnew⟩ := hfresh fd hsock
      refine accounts_of_idle hc (fun i => by simp [SilogRemoteManager.client, hsome,
        SilogRemoteClient.empty]) ?_ ?_ ?_ ?_ ?_
      · rw [hk]
        exact List.nodup_cons.mpr ⟨hnew, hA.nodup⟩
      · rw [hk]
        exact books_open hA.books hnew
      · intro f
        rw [hk, hon, hfd]
        show f ∈ fd :: s.kernel.opened ↔ _
        rw [hempty]
        simp
      · intro _
        rw [hfd, hsome]
        exact ⟨hpos, rfl⟩
      · intro hoff
        rw [hon] at hoff
        cases hoff

theorem Accounts.deinit (hA : Accounts s) : Accounts (silogRemoteDeinit s) := by
  unfold silogRemoteDeinit
  split
  · exact hA
  · next hon =>
    obtain ⟨hA₁, hinit, hact⟩ := hA.closeAll (l := List.range s.mgr.maxClients.toNat)
      (fun i hi => List.mem_range.mp hi)
    set s₁ := (List.range s.mgr.maxClients.toNat).foldl silogRemoteCloseClientInternal s
    have hon₁ : s₁.mgr.isInit = true := hinit.trans (by simpa using hon)
    -- every slot was closed, so only the listening socket is left
    have hnone : ∀ i, ¬ (s₁.mgr.client i).active := by
      intro i hi
      obtain ⟨hi', hl⟩ := hact i hi
      exact hl (List.mem_range.mpr (hA.below i hi'))
    have hleft : ∀ fd, fd ∈ s₁.kernel.opened ↔ fd = s₁.mgr.listenFd := by
      intro fd
      rw [hA₁.owned]
      constructor
      · rintro (h | ⟨i, hi, _⟩)
        · exact h.2
        · exact absurd hi (hnone i)
      · exact fun h => Or.inl ⟨hon₁, h⟩
    simp only [(hA₁.listen hon₁).1, if_true]
    refine accounts_of_idle rfl (fun _ => rfl) (hA₁.nodup.erase _)
      (books_close hA₁.books hA₁.nodup ((hleft _).mpr rfl)) ?_ (fun h => by cases h)
      (fun _ => ⟨rfl, rfl⟩)
    intro fd
    rw [mem_close hA₁.nodup, hleft]
    simp

theorem Accounts.step {s' : Server} {c : Call} (hA : Accounts s) (hstep : Step s c s') :
    Accounts s' := by
  obtain ⟨hfresh, rfl⟩ := hstep
  cases c with
  | init config env => exact hA.init config env hfresh
  | accept result getFl setFl =>
    show Accounts (silogRemoteAccept s result getFl setFl).2
    obtain h | ⟨fd, hr, hinit, h | ⟨slot, hroom, hslot, h⟩⟩ := accept_cases s result getFl setFl
    · rw [h]; exact hA
    · rw [h]; exact hA.reject (hfresh fd hr).2
    · rw [h]; exact hA.accept (hfresh fd hr).1 (hfresh fd hr).2 hinit hroom hslot
  | broadcast entry sends =>
    have hhist : ∀ {t : Server}, Accounts t → Accounts { t with history := s.history ++ entry.toList } :=
      fun h => ⟨⟨h.slots.opened, h.slots.distinct⟩, h.below, h.count, h.nodup, h.books, h.owned,
        h.listen, h.table, h.off⟩
    refine hhist ?_
    by_cases hearly : s.mgr.isInit = false ∨ entry = none ∨ s.mgr.clientCount = 0
    · rw [broadcast_eq_self hearly]
      exact hA
    · push Not at hearly
      obtain ⟨hinit, hentry, hcount⟩ := hearly
      obtain ⟨e, rfl⟩ := Option.ne_none_iff_exists'.mp hentry
      rw [broadcast_eq (by simpa using hinit) hcount]
      exact hA.broadcastLoop _ _ _ fun i hi => List.mem_range.mp hi
  | getClientCount => exact hA
  | deinit => exact hA.deinit

end calls

theorem accounts_initial : Accounts Server.initial :=
  accounts_of_idle rfl noneActive_initial List.nodup_nil balanced_nil
    (fun fd => by simp [Server.initial, SilogRemoteManager.initial])
    (fun h => by cases h) (fun _ => ⟨rfl, rfl⟩)

/-! ## Section 5: The books balance -/

/-- `fd` is the listening socket, or sits in exactly one active slot, and not both. -/
def HeldOnce (s : Server) (fd : ℤ) : Prop :=
  (fd = s.mgr.listenFd ∧ ∀ i, (s.mgr.client i).active → (s.mgr.client i).fd ≠ fd) ∨
  (fd ≠ s.mgr.listenFd ∧ ∃! i, (s.mgr.client i).active ∧ (s.mgr.client i).fd = fd)

/-- What holds between calls. -/
structure Balances (s : Server) : Prop where
  count    : s.mgr.clientCount.toNat = (activeSlots s.mgr).card
  bound    : s.mgr.clientCount ≤ s.mgr.maxClients
  active   : ∀ i, (s.mgr.client i).active →
    i < s.mgr.maxClients.toNat ∧ (s.mgr.client i).fd ∈ s.kernel.opened
  distinct : ∀ i j, (s.mgr.client i).active → (s.mgr.client j).active →
    (s.mgr.client i).fd = (s.mgr.client j).fd → i = j
  /-- Each time a descriptor was obtained it was closed exactly once since, or it
      was not closed and is held. -/
  obtained : ∀ earlier fd later, s.kernel.log = earlier ++ .acquired fd :: later →
    (releases fd later = 1 ∧ (Event.acquired fd ∉ later → fd ∉ s.kernel.opened)) ∨
    (releases fd later = 0 ∧ fd ∈ s.kernel.opened ∧ HeldOnce s fd)
  /-- Nothing is closed that was not obtained. -/
  closed   : ∀ earlier fd later, s.kernel.log = earlier ++ .released fd :: later →
    Event.acquired fd ∈ earlier
  off      : s.mgr.isInit = false →
    s.mgr.clients = none ∧ s.mgr.listenFd = -1 ∧ s.kernel.opened = []

theorem Accounts.heldOnce {s : Server} (hA : Accounts s) {fd : ℤ} (hfd : fd ∈ s.kernel.opened) :
    HeldOnce s fd := by
  rcases (hA.owned fd).mp hfd with ⟨hinit, rfl⟩ | ⟨i, hi, rfl⟩
  · exact Or.inl ⟨rfl, (hA.listen hinit).2⟩
  · have hon : s.mgr.isInit := by
      by_contra hoff
      rw [SilogRemoteManager.client, (hA.off (by simpa using hoff)).1] at hi
      cases hi
    refine Or.inr ⟨(hA.listen hon).2 i hi, i, ⟨hi, rfl⟩, ?_⟩
    rintro j ⟨hj, hfd'⟩
    exact hA.slots.distinct j i hj hi hfd'

theorem Accounts.balances {s : Server} (hA : Accounts s) : Balances s where
  count := hA.count
  bound := by
    rw [UInt32.le_iff_toNat_le, hA.count]
    exact (Finset.card_filter_le _ _).trans (Finset.card_range _).le
  active := fun i hi => ⟨hA.below i hi, (hA.slots.opened i hi).2⟩
  distinct := hA.slots.distinct
  obtained := by
    intro earlier fd later hlog
    have hbooks := hA.books
    rw [hlog] at hbooks
    rcases hbooks.exactly_once with h | ⟨hnone, _, hheld⟩
    · exact Or.inl h
    · exact Or.inr ⟨hnone, hheld, hA.heldOnce hheld⟩
  closed := by
    intro earlier fd later hlog
    have hbooks := hA.books
    rw [hlog] at hbooks
    exact hbooks.acquired_before
  off := fun hoff => ⟨(hA.off hoff).1, (hA.off hoff).2, hA.opened_of_off hoff⟩

/-- **Accounting.** The books balance after every call of every run. -/
theorem accounting {calls : List Call} {s : Server} (hrun : Steps Step Server.initial calls s) :
    Balances s :=
  (hrun.invariant (fun _ _ _ hstep hA => Accounts.step hA hstep) accounts_initial).balances

/-- A client that is accepted and lost, a second one that gets its slot and its
    descriptor, and a third that is turned away. -/
def lostClient : List Call :=
  [.init (some { listenPort := 0, maxClients := 1 })
     { malloc := true, socket := some 3, bind := true, listen := true, getFl := true, setFl := true },
   .accept (.connection 4) true true,
   .broadcast (some (sampleEntry 0)) fun _ _ => .failed,
   .accept (.connection 4) true true,
   .accept (.connection 5) true true]

theorem accounting_lostClient :
    (Server.initial.run lostClient).kernel.log =
      [.acquired 3, .acquired 4, .released 4, .acquired 4, .acquired 5, .released 5] ∧
    Balances (Server.initial.run lostClient) := by
  have hrun : Steps Step Server.initial lostClient (Server.initial.run lostClient) := by
    refine Steps.cons _ _ ⟨?_, rfl⟩ (Steps.cons _ _ ⟨?_, rfl⟩ (Steps.cons _ _ ⟨trivial, rfl⟩
      (Steps.cons _ _ ⟨?_, rfl⟩ (Steps.single ⟨?_, rfl⟩))))
    · rintro fd ⟨⟩
      exact ⟨by decide, List.not_mem_nil⟩
    all_goals
      rintro fd ⟨⟩
      exact ⟨by decide, by decide +kernel⟩
  exact ⟨by decide +kernel, accounting hrun⟩

end SiLog.Remote
