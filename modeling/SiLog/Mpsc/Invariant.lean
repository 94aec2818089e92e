import SiLog.Mpsc.Model
import SiLog.Lib.Tickets
import SiLog.Lib.Wrap
import Mathlib.Algebra.BigOperators.Group.Finset.Basic
import Mathlib.Algebra.Order.BigOperators.Group.Finset
import Mathlib.Algebra.Order.Group.Multiset
import Mathlib.Tactic.Abel

/-! # The invariant of the queue

    `Push` calls hold positions in three ways: undecided (between `fetch_add`
    and the full check), on the way back (between a failed check and
    `fetch_sub`) and accepted.  An accepted position stays with its call for
    good.  The positions held are tickets of a dispenser with give-backs, so
    they are `Tickets.Parked`: a position held twice has a position below it
    that nobody holds, and the consumer cannot pass that one.

    The slot of a position in the consumer's window follows the life of the
    one call accepted at it.  Where two calls were accepted at one position
    nothing is said about the slot.
-/

open Lts Tickets

namespace SiLog.Mpsc

variable {ι : Type*} {n : ℕ}

/-! ## Section 1: Positions held -/

/-- The position of a call that is undecided. -/
def undecided (pc : PushPc n) (t : ℕ) : Multiset ℕ :=
  match pc with
  | .ticketed _ _ => {t}
  | _ => 0

/-- The position of a call that is undecided or on the way back. -/
def inflight (pc : PushPc n) (t : ℕ) : Multiset ℕ :=
  match pc with
  | .ticketed _ _ => {t}
  | .rollback _ => {t}
  | _ => 0

/-- The position and the element of a call that is accepted and has not returned. -/
def writing (pc : PushPc n) (t : ℕ) : Multiset (ℕ × Elem n) :=
  match pc with
  | .claim e _ => {(t, e)}
  | .copy e _ _ => {(t, e)}
  | _ => 0

section shares
variable (e : Elem n) (w : UInt32) (d : Finset (Fin n)) (t : ℕ)

@[simp] theorem undecided_idle : undecided (.idle : PushPc n) t = 0 := rfl
@[simp] theorem undecided_ticketed : undecided (.ticketed e w) t = {t} := rfl
@[simp] theorem undecided_rollback : undecided (.rollback w : PushPc n) t = 0 := rfl
@[simp] theorem undecided_claim : undecided (.claim e w) t = 0 := rfl
@[simp] theorem undecided_copy : undecided (.copy e w d) t = 0 := rfl

@[simp] theorem inflight_idle : inflight (.idle : PushPc n) t = 0 := rfl
@[simp] theorem inflight_ticketed : inflight (.ticketed e w) t = {t} := rfl
@[simp] theorem inflight_rollback : inflight (.rollback w : PushPc n) t = {t} := rfl
@[simp] theorem inflight_claim : inflight (.claim e w) t = 0 := rfl
@[simp] theorem inflight_copy : inflight (.copy e w d) t = 0 := rfl

@[simp] theorem writing_idle : writing (.idle : PushPc n) t = 0 := rfl
@[simp] theorem writing_ticketed : writing (.ticketed e w) t = 0 := rfl
@[simp] theorem writing_rollback : writing (.rollback w : PushPc n) t = 0 := rfl
@[simp] theorem writing_claim : writing (.claim e w) t = {(t, e)} := rfl
@[simp] theorem writing_copy : writing (.copy e w d) t = {(t, e)} := rfl

end shares

/-- The word that `fetch_add` gave to the call in progress. -/
def word (pc : PushPc n) : Option UInt32 :=
  match pc with
  | .idle => none
  | .ticketed _ w => some w
  | .rollback w => some w
  | .claim _ w => some w
  | .copy _ w _ => some w

/-- The positions of the accepted calls. -/
def History.positions (h : History ι n) : Multiset ℕ := (h.accepted.map Prod.fst : List ℕ)

@[simp] theorem positions_issue [DecidableEq ι] (h : History ι n) (p : ι) :
    (h.issue p).positions = h.positions := rfl

@[simp] theorem positions_giveBack (h : History ι n) : h.giveBack.positions = h.positions := rfl

@[simp] theorem positions_accept (h : History ι n) (p : ι) (e : Elem n) :
    (h.accept p e).positions = h.positions + {h.ticket p} := by
  simp only [History.positions, History.accept, List.map_append, List.map_cons, List.map_nil]
  rw [← Multiset.coe_add, Multiset.coe_singleton]

@[simp] theorem positions_returnOk (h : History ι n) (p : ι) (e : Elem n) :
    (h.returnOk p e).positions = h.positions := rfl

@[simp] theorem positions_pop (h : History ι n) (out : Elem n) :
    (h.pop out).positions = h.positions := rfl

section held
variable [Fintype ι]

/-- All positions held. -/
def held (c : Config ι n) : Multiset ℕ :=
  c.2.positions + ∑ p, inflight (c.1.push p) (c.2.ticket p)

/-- The accepted calls that have not returned. -/
def writers (c : Config ι n) : Multiset (ℕ × Elem n) :=
  ∑ p, writing (c.1.push p) (c.2.ticket p)

end held

/-! ## Section 2: The invariant -/

/-- The slot of position `t`. -/
def SiLogMpscQueue.slot (q : SiLogMpscQueue n) (t : ℕ) : UInt32 := q.index (UInt32.ofNat t)

/-- The number of slots. -/
def State.cap (s : State ι n) : ℕ := s.queue.capacity.toNat

/-- The consumer has marked its slot free and not yet moved on. -/
def PopPc.freed : PopPc n → Bool
  | .advance _ _ => true
  | _ => false

/-- The marker of a slot whose element is complete. -/
def readyMark (c : Config ι n) (t : ℕ) : UInt32 :=
  if t = c.2.popped.length ∧ c.1.pop.freed then UInt32.ofNat (t + c.1.cap)
  else UInt32.ofNat (t + 1)

/-- What the slot of a position holds in the phases of the call accepted at it. -/
structure SlotOk (c : Config ι n) (t : ℕ) : Prop where
  free  : t ∉ c.2.positions → c.1.queue.seq (c.1.queue.slot t) = UInt32.ofNat t
  claim : ∀ p e w, c.1.push p = .claim e w → c.2.ticket p = t →
    c.1.queue.seq (c.1.queue.slot t) = UInt32.ofNat t
  copy  : ∀ p e w d, c.1.push p = .copy e w d → c.2.ticket p = t →
    c.1.queue.seq (c.1.queue.slot t) = UInt32.ofNat (t + c.1.cap) ∧
    ∀ b ∈ d, c.1.queue.buffer (c.1.queue.slot t) b = e b
  ready : ∀ e, (t, e) ∈ c.2.returnedOk →
    c.1.queue.seq (c.1.queue.slot t) = readyMark c t ∧
    c.1.queue.buffer (c.1.queue.slot t) = e

/-- What the consumer knows at each point of `Pop`. -/
def PopOk (c : Config ι n) : Prop :=
  match c.1.pop with
  | .idle => True
  | .loaded read _ => read = UInt32.ofNat c.2.popped.length
  | .copy read out done => read = UInt32.ofNat c.2.popped.length ∧
      ∃ e, (c.2.popped.length, e) ∈ c.2.returnedOk ∧ ∀ b ∈ done, out b = e b
  | .advance read out => read = UInt32.ofNat c.2.popped.length ∧
      (c.2.popped.length, out) ∈ c.2.returnedOk

/-- The invariant. -/
structure Inv [Fintype ι] (c : Config ι n) : Prop where
  pow      : ∃ j, c.1.cap = 2 ^ j
  two      : 2 ≤ c.1.cap
  mask     : c.1.queue.capacityMask = c.1.queue.capacity - 1
  writePos : c.1.queue.writePos = UInt32.ofNat c.2.written
  readPos  : c.1.queue.readPos = UInt32.ofNat c.2.popped.length
  card     : c.2.written = (held c).card
  parked   : Parked (held c)
  words    : ∀ p w, word (c.1.push p) = some w → w = UInt32.ofNat (c.2.ticket p)
  split    : (c.2.accepted : Multiset (ℕ × Elem n)) = c.2.returnedOk + writers c
  popped   : ∀ i e, c.2.popped[i]? = some e → (i, e) ∈ c.2.returnedOk
  window   : ∀ t ∈ c.2.positions, t < c.2.popped.length + c.1.cap
  slots    : ∀ t, c.2.popped.length ≤ t → t < c.2.popped.length + c.1.cap →
    c.2.positions.count t ≤ 1 → SlotOk c t
  pop      : PopOk c

/-! ## Section 3: Sum plumbing -/

section sums
variable [Fintype ι] [DecidableEq ι]

/-- Changing one summand. -/
theorem sum_change_one {M : Type*} [AddCommMonoid M] (g g' : ι → M) (p : ι)
    (hoff : ∀ q, q ≠ p → g' q = g q) : ∑ q, g' q + g p = ∑ q, g q + g' p := by
  have hg := Finset.add_sum_erase Finset.univ g (Finset.mem_univ p)
  have hg' := Finset.add_sum_erase Finset.univ g' (Finset.mem_univ p)
  have hsame : ∑ q ∈ Finset.univ.erase p, g' q = ∑ q ∈ Finset.univ.erase p, g q :=
    Finset.sum_congr rfl fun q hq => hoff q (Finset.ne_of_mem_erase hq)
  rw [← hg, ← hg', hsame]
  abel

/-- Two different summands are below the sum together. -/
theorem add_le_sum_of_ne {β : Type*} (g : ι → Multiset β) {p q : ι} (hne : p ≠ q) :
    g p + g q ≤ ∑ x, g x := by
  rw [← Finset.add_sum_erase Finset.univ g (Finset.mem_univ p)]
  apply add_le_add_right
  exact Finset.single_le_sum (fun _ _ => Multiset.zero_le _)
    (Finset.mem_erase.mpr ⟨hne.symm, Finset.mem_univ q⟩)

end sums

/-! ## Section 4: Consequences of the invariant -/

theorem mem_positions {h : History ι n} {t : ℕ} {e : Elem n} (hm : (t, e) ∈ h.accepted) :
    t ∈ h.positions :=
  Multiset.mem_coe.mpr (List.mem_map.mpr ⟨(t, e), hm, rfl⟩)

/-- Two accepted calls at one position. -/
theorem two_le_count {h : History ι n} {t : ℕ} {d e : Elem n}
    (hle : ({(t, d)} + {(t, e)} : Multiset (ℕ × Elem n)) ≤ h.accepted) :
    2 ≤ h.positions.count t := by
  have hmap := Multiset.map_le_map (f := Prod.fst) hle
  have hcount := Multiset.count_le_of_le t hmap
  simpa [History.positions] using hcount

theorem add_capacity (s : State ι n) (t : ℕ) :
    UInt32.ofNat t + s.queue.capacity = UInt32.ofNat (t + s.cap) :=
  Wrap.ofNat_add_word t _

section consequences
variable [Fintype ι] {c : Config ι n}

theorem positions_le_held (c : Config ι n) : c.2.positions ≤ held c :=
  Multiset.le_add_right _ _

theorem writing_le_writers (c : Config ι n) (p : ι) :
    writing (c.1.push p) (c.2.ticket p) ≤ writers c :=
  Finset.single_le_sum (f := fun q => writing (c.1.push q) (c.2.ticket q))
    (fun _ _ => Multiset.zero_le _) (Finset.mem_univ p)

theorem Inv.returnedOk_le (hI : Inv c) :
    (c.2.returnedOk : Multiset (ℕ × Elem n)) ≤ c.2.accepted := by
  rw [hI.split]
  exact Multiset.le_add_right _ _

theorem Inv.mem_accepted (hI : Inv c) {x : ℕ × Elem n} (hx : x ∈ c.2.returnedOk) :
    x ∈ c.2.accepted :=
  Multiset.mem_coe.mp (Multiset.mem_of_le hI.returnedOk_le (Multiset.mem_coe.mpr hx))

/-- A call that is accepted and has not returned is listed as accepted. -/
theorem Inv.writing_mem (hI : Inv c) {p : ι} {t : ℕ} {e : Elem n}
    (hw : writing (c.1.push p) (c.2.ticket p) = {(t, e)}) : (t, e) ∈ c.2.accepted := by
  have hle := writing_le_writers c p
  rw [hw] at hle
  have hmem : (t, e) ∈ (c.2.accepted : Multiset (ℕ × Elem n)) := by
    rw [hI.split]
    exact Multiset.mem_add.mpr (Or.inr (Multiset.singleton_le.mp hle))
  exact Multiset.mem_coe.mp hmem

/-- A call in progress and a call that returned at the same position. -/
theorem Inv.two_of_ok_writing (hI : Inv c) {p : ι} {t : ℕ} {e e' : Elem n}
    (hok : (t, e') ∈ c.2.returnedOk) (hw : writing (c.1.push p) (c.2.ticket p) = {(t, e)}) :
    2 ≤ c.2.positions.count t := by
  have hle := writing_le_writers c p
  rw [hw] at hle
  apply two_le_count (d := e') (e := e)
  rw [hI.split]
  exact add_le_add (Multiset.singleton_le.mpr (Multiset.mem_coe.mpr hok)) hle

/-- Two calls in progress at the same position. -/
theorem Inv.two_of_writing [DecidableEq ι] (hI : Inv c) {p q : ι} {t : ℕ} {e e' : Elem n}
    (hne : p ≠ q) (hp : writing (c.1.push p) (c.2.ticket p) = {(t, e)})
    (hq : writing (c.1.push q) (c.2.ticket q) = {(t, e')}) :
    2 ≤ c.2.positions.count t := by
  have hle := add_le_sum_of_ne (fun x => writing (c.1.push x) (c.2.ticket x)) hne
  simp only [hp, hq] at hle
  apply two_le_count (d := e) (e := e')
  rw [hI.split]
  exact hle.trans (Multiset.le_add_left _ _)

/-- The positions the consumer has passed. -/
theorem Inv.mem_of_lt (hI : Inv c) {i : ℕ} (hi : i < c.2.popped.length) : i ∈ c.2.positions :=
  mem_positions (hI.mem_accepted (hI.popped i _ (List.getElem?_eq_getElem hi)))

/-- A position up to the first one that the consumer has not passed is
    accepted at most once. -/
theorem Inv.count_le_one (hI : Inv c) {t : ℕ} (hpre : ∀ i, i < t → i ∈ c.2.positions) :
    c.2.positions.count t ≤ 1 :=
  (hI.parked.mono (positions_le_held c)).count_le_one hpre

/-- No undecided call and none on the way back is behind the consumer. -/
theorem Inv.inflight_ge (hI : Inv c) {p : ι} {t : ℕ}
    (ht : t ∈ inflight (c.1.push p) (c.2.ticket p)) : c.2.popped.length ≤ t := by
  have hle : inflight (c.1.push p) (c.2.ticket p) ≤
      ∑ q, inflight (c.1.push q) (c.2.ticket q) :=
    Finset.single_le_sum (f := fun q => inflight (c.1.push q) (c.2.ticket q))
      (fun _ _ => Multiset.zero_le _) (Finset.mem_univ p)
  exact hI.parked.rest_ge (fun i hi => hI.mem_of_lt hi) (Multiset.mem_of_le hle ht)

/-- No accepted call in progress is behind the consumer. -/
theorem Inv.writing_ge (hI : Inv c) {p : ι} {t : ℕ} {e : Elem n}
    (hw : writing (c.1.push p) (c.2.ticket p) = {(t, e)}) : c.2.popped.length ≤ t := by
  by_contra hlt
  have hret := hI.popped t _ (List.getElem?_eq_getElem (by omega))
  have htwo := hI.two_of_ok_writing hret hw
  have hone := hI.count_le_one (t := t) fun i hi => hI.mem_of_lt (by omega)
  omega

theorem Inv.writing_lt (hI : Inv c) {p : ι} {t : ℕ} {e : Elem n}
    (hw : writing (c.1.push p) (c.2.ticket p) = {(t, e)}) : t < c.2.popped.length + c.1.cap :=
  hI.window t (mem_positions (hI.writing_mem hw))

/-- The slot of the position that is next for the consumer. -/
theorem Inv.slot_next (hI : Inv c) : SlotOk c c.2.popped.length :=
  hI.slots _ (le_refl _) (by have := hI.two; omega)
    (hI.count_le_one fun i hi => hI.mem_of_lt hi)

theorem Inv.slot_inj (hI : Inv c) {t u : ℕ}
    (ht : c.2.popped.length ≤ t ∧ t < c.2.popped.length + c.1.cap)
    (hu : c.2.popped.length ≤ u ∧ u < c.2.popped.length + c.1.cap)
    (h : c.1.queue.slot t = c.1.queue.slot u) : t = u := by
  obtain ⟨j, hj⟩ := hI.pow
  unfold SiLogMpscQueue.slot SiLogMpscQueue.index at h
  rw [hI.mask] at h
  exact Wrap.slot_inj hj ht hu h

theorem Inv.slot_lap (hI : Inv c) (t : ℕ) :
    c.1.queue.slot (t + c.1.cap) = c.1.queue.slot t := by
  obtain ⟨j, hj⟩ := hI.pow
  unfold SiLogMpscQueue.slot SiLogMpscQueue.index
  rw [hI.mask]
  exact Wrap.slot_lap hj t

theorem Inv.cap_lt (_hI : Inv c) : c.1.cap < 2 ^ 32 := c.1.queue.capacity.toNat_lt

end consequences

end SiLog.Mpsc
