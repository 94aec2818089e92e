import SiLog.Mpsc.Delivery
import Mathlib.Tactic.FinCases

/-! # When nothing is lost

    A `Push` that returned `SILOG_OK` is lost when a position below its own was
    given back: the consumer stops at that position for good.  This file
    proves that these are the only losses.  `Orderly` says of one full check
    that it neither lets a call in above a position that was refused nor
    refuses a position below a call that was let in.  A run that ends with no
    call in progress loses nothing if and only if all its full checks were
    orderly.
-/

open Lts Tickets

namespace SiLog.Mpsc

variable {ι : Type*} {n : ℕ}

/-! ## Section 1: Draining a queue at rest -/

/-- The slots from `r` on are ready with the elements `es` and the next one is not. -/
structure ReadyRun (q : SiLogMpscQueue n) (r : ℕ) (es : List (Elem n)) : Prop where
  pow     : ∃ j, q.capacity.toNat = 2 ^ j
  mask    : q.capacityMask = q.capacity - 1
  readPos : q.readPos = UInt32.ofNat r
  le      : es.length ≤ q.capacity.toNat
  ready   : ∀ i e, es[i]? = some e → q.seq (q.slot (r + i)) = UInt32.ofNat (r + i + 1) ∧
    q.buffer (q.slot (r + i)) = e
  stop    : es.length < q.capacity.toNat →
    q.seq (q.slot (r + es.length)) ≠ UInt32.ofNat (r + es.length + 1)

theorem ReadyRun.slot_ne {q : SiLogMpscQueue n} {r i : ℕ} {es : List (Elem n)}
    (hR : ReadyRun q r es) (hpos : 0 < i) (hlt : i < q.capacity.toNat) :
    q.slot (r + i) ≠ q.slot r := by
  obtain ⟨j, hj⟩ := hR.pow
  unfold SiLogMpscQueue.slot SiLogMpscQueue.index
  rw [hR.mask]
  intro heq
  -- less than a lap apart, so the slots differ
  have := Wrap.slot_inj hj (r := r) ⟨Nat.le_add_right _ _, by omega⟩ ⟨le_refl _, by omega⟩ heq
  omega

/-- The queue after a `Pop` of the element at position `r`. -/
def SiLogMpscQueue.popped (q : SiLogMpscQueue n) (r : ℕ) : SiLogMpscQueue n :=
  (q.storeSeq (q.slot r) (UInt32.ofNat (r + q.capacity.toNat))).storeRead (UInt32.ofNat (r + 1))

/-- `Pop` on a ready slot returns its element. -/
theorem ReadyRun.pop_eq {q : SiLogMpscQueue n} {r : ℕ} {e : Elem n} {es : List (Elem n)}
    (hR : ReadyRun q r (e :: es)) : silogMpscQueuePop q = (.ok, some e, q.popped r) := by
  obtain ⟨hseq, hbuf⟩ := hR.ready 0 e rfl
  rw [Nat.add_zero] at hseq hbuf
  have hindex : q.index q.readPos = q.slot r := by rw [hR.readPos]; rfl
  unfold silogMpscQueuePop
  simp only [hindex]
  rw [if_neg (not_not.mpr (by rw [hseq, hR.readPos, Wrap.ofNat_succ])), hbuf, hR.readPos,
    Wrap.ofNat_succ, Wrap.ofNat_add_word]
  rfl

/-- After a `Pop` the markers behind the element popped are as they were, and the
    marker one lap ahead of it is that of a free slot. -/
theorem ReadyRun.seq_popped {q : SiLogMpscQueue n} {r i : ℕ} {es : List (Elem n)}
    (hR : ReadyRun q r es) (hpos : 0 < i) (hi : i ≤ q.capacity.toNat) :
    (q.popped r).seq ((q.popped r).slot (r + i)) =
      if i < q.capacity.toNat then q.seq (q.slot (r + i)) else UInt32.ofNat (r + i) := by
  show (q.storeSeq (q.slot r) _).seq (q.slot (r + i)) = _
  split
  · next hlt => rw [seq_storeSeq_ne (hR.slot_ne hpos hlt)]
  · next hge =>
    obtain ⟨j, hj⟩ := hR.pow
    have hfull : i = q.capacity.toNat := by omega
    have hlap : q.slot (r + i) = q.slot r := by
      unfold SiLogMpscQueue.slot SiLogMpscQueue.index
      rw [hR.mask, hfull]
      exact Wrap.slot_lap hj r
    rw [hlap, seq_storeSeq_self, hfull]

/-- A `Pop` leaves the elements behind the one popped ready. -/
theorem ReadyRun.popped {q : SiLogMpscQueue n} {r : ℕ} {e : Elem n} {es : List (Elem n)}
    (hR : ReadyRun q r (e :: es)) : ReadyRun (q.popped r) (r + 1) es := by
  have hlen : es.length + 1 ≤ q.capacity.toNat := hR.le
  refine ⟨hR.pow, hR.mask, rfl, (by show es.length ≤ q.capacity.toNat; omega), ?_, ?_⟩
  · intro i e' hi
    have hilt : i < es.length := (List.getElem?_eq_some_iff.mp hi).1
    have hne : q.slot (r + (i + 1)) ≠ q.slot r := hR.slot_ne (by omega) (by omega)
    obtain ⟨hseq', hbuf'⟩ := hR.ready (i + 1) e' (by simpa using hi)
    -- the slots behind the one popped are as they were
    have hassoc : r + 1 + i = r + (i + 1) := by omega
    rw [hassoc]
    exact ⟨(seq_storeSeq_ne hne).trans hseq', hbuf'⟩
  · intro _
    have hassoc : r + 1 + es.length = r + (es.length + 1) := by omega
    rw [hassoc, hR.seq_popped (by omega) hlen]
    split
    · next hlt => exact hR.stop hlt
    · -- the queue was full: the slot after the last one is the one just freed
      exact Wrap.ofNat_ne (by omega) (by omega)

/-- `Pop` finds the first slot not ready. -/
theorem ReadyRun.pop_nil {q : SiLogMpscQueue n} {r : ℕ} (hR : ReadyRun q r []) :
    silogMpscQueuePop q = (.transQueueEmpty, none, q) := by
  have hpos : 0 < q.capacity.toNat := by
    obtain ⟨j, hj⟩ := hR.pow
    rw [hj]
    exact Nat.two_pow_pos j
  have hseq := hR.stop hpos
  rw [List.length_nil, Nat.add_zero] at hseq
  have hindex : q.index q.readPos = q.slot r := by rw [hR.readPos]; rfl
  unfold silogMpscQueuePop
  simp only [hindex]
  rw [if_pos (by rw [hR.readPos, Wrap.ofNat_succ]; exact hseq)]

/-- `Pop` returns the elements in turn and then `SILOG_TRANS_QUEUE_EMPTY`. -/
theorem ReadyRun.drains {q : SiLogMpscQueue n} {r : ℕ} {es : List (Elem n)}
    (hR : ReadyRun q r es) : ∃ q', Drains q es q' := by
  induction es generalizing q r with
  | nil => exact ⟨q, Drains.empty hR.pop_nil⟩
  | cons e es ih =>
    obtain ⟨q', hd⟩ := ih hR.popped
    exact ⟨q', Drains.pop hR.pop_eq hd⟩

/-- Draining is deterministic. -/
theorem Drains.unique {q q' q'' : SiLogMpscQueue n} {es es' : List (Elem n)}
    (h : Drains q es q') (h' : Drains q es' q'') : es = es' := by
  induction h generalizing es' with
  | empty hpop =>
    cases h' with
    | empty _ => rfl
    | pop hpop' _ => rw [hpop] at hpop'; cases hpop'
  | pop hpop _ ih =>
    cases h' with
    | empty hpop' => rw [hpop] at hpop'; cases hpop'
    | pop hpop' hrest =>
      rw [hpop] at hpop'
      simp only [Prod.mk.injEq, Option.some.injEq, true_and] at hpop'
      obtain ⟨rfl, rfl⟩ := hpop'
      rw [ih hrest]

/-! ## Section 2: Orderly full checks -/

section orderly
variable [Fintype ι]

/-- The positions of the calls that are accepted or may still be. -/
def kept (c : Config ι n) : Multiset ℕ :=
  c.2.positions + ∑ p, undecided (c.1.push p) (c.2.ticket p)

/-- The full check of `p` lets its call in only if every position below is held
    by a call that is accepted or undecided (and the check is not a lap off), and
    refuses it only if no call with a later position is accepted. -/
def Orderly (c : Config ι n) (a : Act ι n) : Prop :=
  ∀ p, a = .loadRead p →
    (Accepts c p → c.2.ticket p < c.2.popped.length + c.1.cap ∧
      ∀ i, i < c.2.ticket p → i ∈ kept c) ∧
    (Rejects c p → ∀ t ∈ c.2.positions, t ≤ c.2.ticket p)

instance (c : Config ι n) : (a : Act ι n) → Decidable (Orderly c a)
  | .loadRead p =>
    decidable_of_iff
      ((Accepts c p → c.2.ticket p < c.2.popped.length + c.1.cap ∧
          ∀ i, i < c.2.ticket p → i ∈ kept c) ∧
        (Rejects c p → ∀ t ∈ c.2.positions, t ≤ c.2.ticket p))
      ⟨fun h _ ha => Act.loadRead.inj ha ▸ h, fun h => h p rfl⟩
  | .fetchAdd _ _ | .fetchSub _ | .cas _ _ | .copyByte _ _ | .storeReady _ | .popLoadRead _
  | .popLoadSeq | .popCopyByte _ | .popStoreSeq | .popStoreRead => isTrue nofun

/-- Below an accepted position every position is accepted or undecided. -/
def Closed (c : Config ι n) : Prop := ∀ t ∈ c.2.positions, ∀ i, i < t → i ∈ kept c

theorem undecided_le_inflight (pc : PushPc n) (t : ℕ) : undecided pc t ≤ inflight pc t := by
  cases pc <;> simp [undecided]

theorem kept_le_held (c : Config ι n) : kept c ≤ held c :=
  add_le_add_right (Finset.sum_le_sum fun _ _ => undecided_le_inflight _ _) _

end orderly

section steps
variable [Fintype ι] [DecidableEq ι] {s : State ι n} {h : History ι n} {p : ι}

/-- `kept` does not change when the call of `p` keeps its share. -/
theorem kept_setPush {q : SiLogMpscQueue n} {pc : PushPc n} {h' : History ι n}
    (hpos : h'.positions = h.positions) (hticket : h'.ticket = h.ticket)
    (hsame : undecided pc (h.ticket p) = undecided (s.push p) (h.ticket p)) :
    kept (s.setPush q p pc, h') = kept (s, h) := by
  have hsum := sum_push (s := s) undecided pc
    (show ∀ x, x ≠ p → h.ticket x = h.ticket x from fun _ _ => rfl)
  rw [hsame] at hsum
  unfold kept
  simp only [State.setPush, hpos, hticket]
  rw [add_right_cancel hsum]

theorem kept_fetchAdd {e : Elem n} (hpc : s.push p = .idle) :
    kept (s.setPush s.queue.fetchAdd p (.ticketed e s.queue.writePos), h.issue p) =
      kept (s, h) + {h.written} := by
  have hsum := sum_push (s := s) undecided (.ticketed e s.queue.writePos)
    (show ∀ x, x ≠ p → (h.issue p).ticket x = h.ticket x from
      fun x hx => Function.update_of_ne hx _ _)
  have hself : (h.issue p).ticket p = h.written := Function.update_self _ _ _
  rw [hpc, undecided_idle, undecided_ticketed, add_zero, hself] at hsum
  unfold kept
  simp only [State.setPush, positions_issue]
  rw [add_assoc, hsum]

theorem kept_accept {e : Elem n} {w : UInt32} (hpc : s.push p = .ticketed e w) :
    kept (s.setPush s.queue p (.claim e w), h.accept p e) = kept (s, h) := by
  have hsum := sum_push (s := s) undecided (.claim e w)
    (show ∀ x, x ≠ p → (h.accept p e).ticket x = h.ticket x from fun _ _ => rfl)
  rw [hpc, undecided_ticketed, undecided_claim, add_zero] at hsum
  unfold kept
  simp only [State.setPush, positions_accept]
  rw [← hsum, add_assoc, add_comm {h.ticket p}]

theorem kept_reject {e : Elem n} {w : UInt32} (hpc : s.push p = .ticketed e w) :
    kept (s.setPush s.queue p (.rollback w), h) + {h.ticket p} = kept (s, h) := by
  have hsum := sum_push (s := s) undecided (.rollback w)
    (show ∀ x, x ≠ p → h.ticket x = h.ticket x from fun _ _ => rfl)
  rw [hpc, undecided_ticketed, undecided_rollback, add_zero] at hsum
  unfold kept
  simp only [State.setPush]
  rw [← hsum, add_assoc]

/-- What a step does to the positions accepted and kept. -/
inductive KeptStep (c c' : Config ι n) : Act ι n → Prop where
  | same {a : Act ι n} (hpos : c'.2.positions = c.2.positions) (hkept : kept c' = kept c) :
      KeptStep c c' a
  | issue {p : ι} {e : Elem n} (hpos : c'.2.positions = c.2.positions)
      (hkept : kept c' = kept c + {c.2.written}) : KeptStep c c' (.fetchAdd p e)
  | accept {p : ι} (hacc : Accepts c p) (hpos : c'.2.positions = c.2.positions + {c.2.ticket p})
      (hkept : kept c' = kept c) : KeptStep c c' (.loadRead p)
  | reject {p : ι} (hrej : Rejects c p) (hpos : c'.2.positions = c.2.positions)
      (hkept : kept c' + {c.2.ticket p} = kept c) : KeptStep c c' (.loadRead p)

theorem keptStep {c c' : Config ι n} {a : Act ι n} (hstep : Step c a c') : KeptStep c c' a := by
  obtain ⟨s, h⟩ := c
  cases a with
  | fetchAdd p e =>
    obtain ⟨hpc, rfl⟩ := step_fetchAdd hstep
    exact .issue rfl (kept_fetchAdd hpc)
  | loadRead p =>
    obtain ⟨e, w, hpc, ⟨hroom, rfl⟩ | ⟨hfull, rfl⟩⟩ := step_loadRead hstep
    · exact .accept ⟨e, w, hpc, hroom⟩ (positions_accept _ _ _) (kept_accept hpc)
    · exact .reject ⟨e, w, hpc, hfull⟩ rfl (kept_reject hpc)
  | fetchSub p =>
    obtain ⟨w, hpc, rfl⟩ := step_fetchSub hstep
    exact .same rfl (kept_setPush rfl rfl (by simp [show s.push p = _ from hpc]))
  | cas p spurious =>
    obtain ⟨e, w, hpc, ⟨_, rfl⟩ | ⟨_, rfl⟩ | rfl⟩ := step_cas hstep
    · exact .same rfl (kept_setPush rfl rfl (by simp [show s.push p = _ from hpc]))
    · exact .same rfl (kept_setPush rfl rfl (by simp [show s.push p = _ from hpc]))
    · exact .same rfl (kept_setPush rfl rfl (by simp [show s.push p = _ from hpc]))
  | copyByte p b =>
    obtain ⟨e, w, d, hpc, rfl⟩ := step_copyByte hstep
    exact .same rfl (kept_setPush rfl rfl (by simp [show s.push p = _ from hpc]))
  | storeReady p =>
    obtain ⟨e, w, hpc, rfl⟩ := step_storeReady hstep
    exact .same rfl (kept_setPush rfl rfl (by simp [show s.push p = _ from hpc]))
  | popLoadRead out => obtain ⟨_, rfl⟩ := step_popLoadRead hstep; exact .same rfl rfl
  | popLoadSeq =>
    obtain ⟨_, _, _, ⟨_, rfl⟩ | ⟨_, rfl⟩⟩ := step_popLoadSeq hstep
    · exact .same rfl rfl
    · exact .same rfl rfl
  | popCopyByte b => obtain ⟨_, _, _, _, rfl⟩ := step_popCopyByte hstep; exact .same rfl rfl
  | popStoreSeq => obtain ⟨_, _, _, rfl⟩ := step_popStoreSeq hstep; exact .same rfl rfl
  | popStoreRead => obtain ⟨_, _, _, rfl⟩ := step_popStoreRead hstep; exact .same rfl rfl

/-- An orderly step keeps the accepted positions closed. -/
theorem Closed.step {c c' : Config ι n} {a : Act ι n} (hC : Closed c) (hO : Orderly c a)
    (hstep : Step c a c') : Closed c' := by
  intro t ht i hi
  cases keptStep hstep with
  | same hpos hkept =>
    rw [hpos] at ht
    rw [hkept]
    exact hC t ht i hi
  | issue hpos hkept =>
    rw [hpos] at ht
    rw [hkept]
    exact Multiset.mem_add.mpr (Or.inl (hC t ht i hi))
  | @accept p hacc hpos hkept =>
    rw [hpos, Multiset.mem_add, Multiset.mem_singleton] at ht
    rw [hkept]
    rcases ht with ht | rfl
    · exact hC t ht i hi
    · -- the call let in: everything below it is kept
      exact ((hO p rfl).1 hacc).2 i hi
  | @reject p hrej hpos hkept =>
    rw [hpos] at ht
    -- the position refused is not below an accepted one
    have hle : t ≤ c.2.ticket p := (hO p rfl).2 hrej t ht
    have hmem := hC t ht i hi
    rw [← hkept, Multiset.mem_add, Multiset.mem_singleton] at hmem
    exact hmem.resolve_right (by omega)

omit [DecidableEq ι] in
/-- The first position below an accepted one that nobody keeps. -/
theorem exists_gap {c : Config ι n} (hC : ¬ Closed c) :
    ∃ t ∈ c.2.positions, ∃ g, g < t ∧ g ∉ kept c ∧ ∀ i, i < g → i ∈ kept c := by
  unfold Closed at hC
  push Not at hC
  obtain ⟨t, ht, i, hi, hnot⟩ := hC
  classical
  have hex : ∃ g, g ∉ kept c := ⟨i, hnot⟩
  -- the lowest position that nobody keeps
  have hmin := Nat.find_min' hex hnot
  refine ⟨t, ht, Nat.find hex, by omega, Nat.find_spec hex, ?_⟩
  intro j hj
  exact not_not.mp (Nat.find_min hex hj)

/-- A gap below an accepted position is never filled: the next position issued
    is above it. -/
theorem not_closed_step {c c' : Config ι n} {a : Act ι n} (hI : Inv c) (hC : ¬ Closed c)
    (hstep : Step c a c') : ¬ Closed c' := by
  obtain ⟨t, ht, g, hgt, hg, hpre⟩ := exists_gap hC
  intro hC'
  cases keptStep hstep with
  | same hpos hkept =>
    exact hg (hkept ▸ hC' t (hpos ▸ ht) g hgt)
  | issue hpos hkept =>
    have hmem := hC' t (hpos ▸ ht) g hgt
    rw [hkept, Multiset.mem_add, Multiset.mem_singleton] at hmem
    rcases hmem with hmem | heq
    · exact hg hmem
    · -- `g` positions below the gap and one above it are held
      have hle : t ::ₘ Multiset.range g ≤ kept c :=
        cons_range_le (Multiset.mem_add.mpr (Or.inl ht)) hgt hpre
      have hcard := Multiset.card_le_card (hle.trans (kept_le_held c))
      rw [Multiset.card_cons, Multiset.card_range, ← hI.card] at hcard
      omega
  | @accept p hacc hpos hkept =>
    have ht' : t ∈ c'.2.positions := hpos ▸ Multiset.mem_add.mpr (Or.inl ht)
    exact hg (hkept ▸ hC' t ht' g hgt)
  | @reject p hrej hpos hkept =>
    have hmem := hC' t (hpos ▸ ht) g hgt
    exact hg (hkept ▸ Multiset.mem_add.mpr (Or.inl hmem))

/-- A full check that is not orderly opens a gap below an accepted position. -/
theorem not_closed_of_not_orderly {c c' : Config ι n} {a : Act ι n} (hI : Inv c)
    (hlap : NoLap c a) (hO : ¬ Orderly c a) (hstep : Step c a c') : ¬ Closed c' := by
  unfold Orderly at hO
  push Not at hO
  obtain ⟨p, rfl, hO⟩ := hO
  intro hC'
  obtain ⟨s, h⟩ := c
  obtain ⟨e, w, hpc, ⟨hroom, rfl⟩ | ⟨hfull, rfl⟩⟩ := step_loadRead hstep
  · have hacc : Accepts (s, h) p := ⟨e, w, hpc, hroom⟩
    have hnrej : ¬ Rejects (s, h) p := by
      rintro ⟨e', w', hpc', hfull⟩
      rw [hpc] at hpc'
      cases hpc'
      exact hfull hroom
    -- let in above a position that nobody keeps
    have hgap : ∃ i, i < h.ticket p ∧ i ∉ kept (s, h) := by
      by_contra hno
      push Not at hno
      obtain ⟨hrej, _⟩ := hO fun _ => ⟨hlap p rfl hacc, hno⟩
      exact hnrej hrej
    obtain ⟨i, hi, hnot⟩ := hgap
    have hmem : h.ticket p ∈ (h.accept p e).positions := by
      rw [positions_accept]
      exact Multiset.mem_add.mpr (Or.inr (Multiset.mem_singleton_self _))
    have hkept := hC' (h.ticket p) hmem i hi
    rw [kept_accept hpc] at hkept
    exact hnot hkept
  · have hnacc : ¬ Accepts (s, h) p := by
      rintro ⟨e', w', hpc', hroom⟩
      rw [hpc] at hpc'
      cases hpc'
      exact hfull hroom
    -- refused below an accepted position
    obtain ⟨_, t, ht, hlt⟩ := hO fun hacc => absurd hacc hnacc
    have hmem := hC' t ht (h.ticket p) hlt
    have hkept := kept_reject (h := h) hpc
    -- if the position were kept by another call, two calls would hold it
    have hcount : 2 ≤ (kept (s, h)).count (h.ticket p) := by
      have hone := Multiset.one_le_count_iff_mem.mpr hmem
      rw [← hkept, Multiset.count_add, Multiset.count_singleton_self]
      exact Nat.succ_le_succ hone
    have hheld := (hI.parked.mono (kept_le_held (s, h))).count_le_one (t := h.ticket p) (by
      intro i hi
      rw [← hkept]
      exact Multiset.mem_add.mpr (Or.inl (hC' t ht i (lt_trans hi hlt))))
    omega

end steps

/-! ## Section 3: What a drain returns -/

section rest
variable [Fintype ι] {c : Config ι n}

theorem kept_quiet (hq : Quiet c.1) : kept c = c.2.positions := by
  simp [kept, hq.1]

theorem Inv.returnedOk_perm (hI : Inv c) (hq : Quiet c.1) : c.2.accepted.Perm c.2.returnedOk := by
  have hnone : writers c = 0 := by simp [writers, hq.1]
  have hsplit := hI.split
  rw [hnone, add_zero] at hsplit
  exact Multiset.coe_eq_coe.mp hsplit

theorem Inv.card_positions (hI : Inv c) (hq : Quiet c.1) :
    c.2.positions.card = c.2.returnedOk.length := by
  rw [← (hI.returnedOk_perm hq).length_eq]
  simp [History.positions]

/-- When nobody is in progress and `m` is the first position without an accepted
    call, the drain returns the elements of the positions up to `m`. -/
theorem Inv.drain (hI : Inv c) (hq : Quiet c.1) {m : ℕ} (hpre : ∀ i, i < m → i ∈ c.2.positions)
    (hstop : m ∉ c.2.positions) :
    ∃ es q', Drains c.1.queue es q' ∧ (c.2.popped ++ es).length = m ∧
      ∀ k e, (c.2.popped ++ es)[k]? = some e → (k, e) ∈ c.2.returnedOk := by
  have hrm : c.2.popped.length ≤ m := by
    by_contra hlt
    exact hstop (hI.mem_of_lt (by omega))
  have hmcap : m ≤ c.2.popped.length + c.1.cap := by
    by_contra hlt
    have := hI.window _ (hpre (c.2.popped.length + c.1.cap) (by omega))
    omega
  -- the call accepted at a position below `m` has returned and its slot is ready
  have hready : ∀ t, c.2.popped.length ≤ t → t < m →
      c.1.queue.seq (c.1.queue.slot t) = UInt32.ofNat (t + 1) ∧
      (t, c.1.queue.buffer (c.1.queue.slot t)) ∈ c.2.returnedOk := by
    intro t hlo hhi
    obtain ⟨⟨u, e⟩, hx, rfl⟩ := List.mem_map.mp (Multiset.mem_coe.mp (hpre t hhi))
    have hret := (hI.returnedOk_perm hq).mem_iff.mp hx
    have hok := hI.slots u hlo (by omega) (hI.count_le_one fun i hi => hpre i (lt_trans hi hhi))
    obtain ⟨hseq, hbuf⟩ := hok.ready e hret
    refine ⟨?_, by rw [hbuf]; exact hret⟩
    rw [hseq]
    simp [readyMark, hq.2, PopPc.freed]
  -- what the drain returns, position by position
  set es := (List.range (m - c.2.popped.length)).map
    fun i => c.1.queue.buffer (c.1.queue.slot (c.2.popped.length + i)) with hes
  have hlen : es.length = m - c.2.popped.length := by simp [hes]
  have hget : ∀ i e, es[i]? = some e → c.2.popped.length + i < m ∧
      c.1.queue.buffer (c.1.queue.slot (c.2.popped.length + i)) = e := by
    intro i e hi
    obtain ⟨hlt, hval⟩ := List.getElem?_eq_some_iff.mp hi
    exact ⟨by omega, by simpa [hes] using hval⟩
  have hR : ReadyRun c.1.queue c.2.popped.length es := by
    refine ⟨hI.pow, hI.mask, hI.readPos, (by show es.length ≤ c.1.cap; omega), ?_, ?_⟩
    · intro i e hi
      obtain ⟨hlt, hbuf⟩ := hget i e hi
      exact ⟨(hready _ (by omega) hlt).1, hbuf⟩
    · intro hlt
      have hlt' : es.length < c.1.cap := hlt
      have hm : c.2.popped.length + es.length = m := by omega
      rw [hm]
      -- nobody was accepted at `m`, so its slot is free and `Pop` stops there
      rw [(hI.slots m hrm (by omega) (hI.count_le_one hpre)).free hstop]
      exact Wrap.ofNat_ne (by omega) (by omega)
  obtain ⟨q', hd⟩ := hR.drains
  refine ⟨es, q', hd, by rw [List.length_append]; omega, ?_⟩
  intro k e hk
  rw [List.getElem?_append] at hk
  split at hk
  · exact hI.popped k e hk
  · obtain ⟨hlt, hbuf⟩ := hget _ e hk
    have hk' : c.2.popped.length + (k - c.2.popped.length) = k := by omega
    rw [hk'] at hlt hbuf
    rw [← hbuf]
    exact (hready k (by omega) hlt).2

end rest

/-- Elements listed by their positions, all of them returned and as many as
    there are, are the elements returned. -/
theorem perm_of_indexed {es : List (Elem n)} {l : List (ℕ × Elem n)}
    (hmem : ∀ k e, es[k]? = some e → (k, e) ∈ l) (hlen : es.length = l.length) :
    es.Perm (l.map Prod.snd) := by
  set ix := es.zipIdx.map Prod.swap with hix
  have hfst : ix.map Prod.fst = List.range es.length := by
    rw [hix, List.map_map, List.range_eq_range', ← List.zipIdx_map_snd 0 es]
    rfl
  have hnodup : ix.Nodup := by
    apply List.Nodup.of_map Prod.fst
    rw [hfst]
    exact List.nodup_range
  have hsub : ix ⊆ l := by
    intro x hx
    obtain ⟨⟨e, k⟩, hek, rfl⟩ := List.mem_map.mp hx
    exact hmem k e (List.mem_zipIdx_iff_getElem?.mp hek)
  -- different positions, all of them in `l`, and as many as `l` has
  have hperm : ix.Perm l := (hnodup.subperm hsub).perm_of_length_le (by simp [hix, hlen])
  have hsnd : ix.map Prod.snd = es := by
    rw [hix, List.map_map]
    exact List.zipIdx_map_fst 0 es
  rw [← hsnd]
  exact hperm.map Prod.snd

/-! ## Section 4: No loss -/

/-- Calling `Pop` until it finds the queue empty brings the elements returned to
    exactly those of the `Push` calls that returned `SILOG_OK`, each once. -/
def NoLoss (c : Config ι n) : Prop :=
  ∃ es q', Drains c.1.queue es q' ∧ (c.2.popped ++ es).Perm (c.2.returnedOk.map Prod.snd)

section noLoss
variable [Fintype ι] {c : Config ι n}

/-- With no gap below an accepted position the drain returns everything. -/
theorem Inv.noLoss_of_closed (hI : Inv c) (hq : Quiet c.1) (hC : Closed c) : NoLoss c := by
  have hrange : c.2.positions = Multiset.range c.2.positions.card := by
    apply (hI.parked.mono (positions_le_held c)).eq_range
    intro t ht i hi
    have := hC t ht i hi
    rwa [kept_quiet hq] at this
  obtain ⟨es, q', hd, hlen, hmem⟩ := hI.drain hq (m := c.2.positions.card)
    (fun i hi => by rw [hrange]; exact Multiset.mem_range.mpr hi)
    (by rw [hrange, Multiset.card_range]; exact Multiset.notMem_range_self)
  exact ⟨es, q', hd, perm_of_indexed hmem (hlen.trans (hI.card_positions hq))⟩

/-- Below a gap the drain stops short. -/
theorem Inv.not_noLoss_of_gap (hI : Inv c) (hq : Quiet c.1) (hC : ¬ Closed c) : ¬ NoLoss c := by
  obtain ⟨t, ht, g, hgt, hg, hpre⟩ := exists_gap hC
  rw [kept_quiet hq] at hg hpre
  obtain ⟨es, q', hd, hlen, _⟩ := hI.drain hq hpre hg
  rintro ⟨es', q'', hd', hperm⟩
  rw [← hd.unique hd'] at hperm
  -- the drain has returned `g` elements, one for each position below the gap
  have hcard : c.2.positions.card = g := by
    rw [hI.card_positions hq, ← List.length_map Prod.snd, ← hperm.length_eq, hlen]
  have hle : t ::ₘ Multiset.range g ≤ c.2.positions := cons_range_le ht hgt hpre
  have := Multiset.card_le_card hle
  rw [Multiset.card_cons, Multiset.card_range] at this
  omega

variable [DecidableEq ι]

/-- The invariant and the absence of gaps, along orderly runs. -/
theorem Closed.run {c₀ : Config ι n} {acts : List (Act ι n)} (hI : Inv c₀) (hC : Closed c₀)
    (hrun : Steps (Guarded Step Orderly) c₀ acts c) : Inv c ∧ Closed c :=
  hrun.invariant (I := fun c => Inv c ∧ Closed c)
    (fun _ _ _ hR h =>
      ⟨h.1.step (fun p ha hacc => ((hR.2 p ha).1 hacc).1) hR.1, h.2.step hR.2 hR.1⟩) ⟨hI, hC⟩

omit [DecidableEq ι] in
theorem closed_init (q : SiLogMpscQueue n) : Closed (initConfig q : Config ι n) := by
  intro t ht
  simp [initConfig, History.positions] at ht

/-- **No loss.** A run that ends with no call in progress loses nothing if its
    full checks are all orderly; and with few enough producers for the 32-bit
    distance to be exact, only then. -/
theorem noLoss_iff_orderly {capacity : UInt32} {mem : Option (UInt32 → Elem n)}
    {seqOk : Bool} {q : SiLogMpscQueue n} {acts : List (Act ι n)}
    (hinit : silogMpscQueueInit capacity mem seqOk = .ok q) (hcap : 2 ≤ capacity)
    (hrun : Steps Step (initConfig q) acts c) (hq : Quiet c.1) :
    (Steps (Guarded Step Orderly) (initConfig q) acts c → NoLoss c) ∧
    (capacity.toNat + Fintype.card ι ≤ 2 ^ 32 → NoLoss c →
      Steps (Guarded Step Orderly) (initConfig q) acts c) := by
  constructor
  · intro hord
    obtain ⟨hI, hC⟩ := Closed.run (inv_init hinit hcap) (closed_init q) hord
    exact hI.noLoss_of_closed hq hC
  · intro hfew hloss
    have hF := hrun.invariant (fun _ _ _ hstep hF => FewInv.step hF hstep)
      (fewInv_init hinit hcap hfew)
    -- the first disorderly check opens a gap and the gap stays
    have hor := hrun.guarded_or (C := Orderly) (I := FewInv) (B := fun c => ¬ Closed c)
      (fewInv_init hinit hcap hfew) (fun _ _ _ hstep hF => hF.step hstep)
      (fun _ _ _ hstep hF hC => not_closed_step hF.inv hC hstep)
      (fun _ _ _ hstep hF hO =>
        not_closed_of_not_orderly hF.inv (hF.inv.noLap hF.near hF.few _) hO hstep)
    rcases hor with hord | hgap
    · exact hord
    · exact absurd hloss (hF.inv.not_noLoss_of_gap hq hgap)

end noLoss

/-! ### Three producers, and the overtaking run -/

/-- Two calls have returned, and one found the queue full. -/
def settled : Config (Fin 3) 1 := (exec next (initConfig pairQueue) settledRun).get (by decide)

theorem noLoss_iff_orderly_settled :
    settled.2.returnedOk = [(1, fun _ => 20), (0, fun _ => 10)] ∧ NoLoss settled := by
  have hord : Steps (Guarded Step Orderly) (initConfig pairQueue) settledRun settled :=
    guarded_of_exec step_of_next (Option.some_get (by decide)).symm (by decide +kernel)
  have hquiet : Quiet settled.1 := ⟨fun p => by fin_cases p <;> rfl, rfl⟩
  exact ⟨rfl, (noLoss_iff_orderly pairQueue_init (by decide) hord.of_guarded hquiet).1 hord⟩

/-- Three calls returned `SILOG_OK`, two elements were popped and the consumer
    finds the queue empty. -/
theorem overtake_loses :
    silogMpscQueueInit 2 (some fun _ _ => 0) true = .ok pairQueue ∧
    Steps Step (initConfig pairQueue) overtakeRun overtaken ∧ Quiet overtaken.1 ∧
    ¬ NoLoss overtaken := by
  refine ⟨pairQueue_init, overtaken_run, ⟨fun p => by fin_cases p <;> rfl, rfl⟩, ?_⟩
  rintro ⟨es, q', hd, hperm⟩
  have hempty : Drains overtaken.1.queue [] overtaken.1.queue := Drains.empty (o := none) rfl
  have hlen := hperm.length_eq
  rw [← hempty.unique hd] at hlen
  exact absurd hlen (by decide)

end SiLog.Mpsc
