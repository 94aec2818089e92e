import SiLog.Mpsc.Preserve
import Mathlib.Data.List.NodupEquivFin
import Mathlib.Algebra.Order.BigOperators.Group.Multiset

/-! # What the queue delivers, and when `Push` waits

    - `silogMpscQueue_delivery`: the `k`-th `Pop` returns the element of the
      one `Push` that passed the full check at position `k`, and never reads
      a slot in use.
    - `cas_ready_of_fresh`: as long as no two calls pass the full check at the
      same position, the compare-exchange finds the slot free.  Out of order
      give-backs do let two calls in: `cas_blocked_run`.
-/

open Lts Tickets

namespace SiLog.Mpsc

variable {ι : Type*} [Fintype ι] [DecidableEq ι] {n : ℕ}

/-! ## Section 1: How far a position can be ahead -/

/-- Undecided positions are near the consumer. -/
def Near (c : Config ι n) : Prop :=
  ∀ p e w, c.1.push p = .ticketed e w →
    c.2.ticket p < c.2.popped.length + c.1.cap + Fintype.card ι

omit [DecidableEq ι] in
theorem card_inflight_le (pc : PushPc n) (t : ℕ) : (inflight pc t).card ≤ 1 := by
  cases pc <;> simp

/-- `fetch_add` by an idle producer returns a near position: at most
    `capacity` accepted calls are ahead of the consumer and every other
    producer has at most one call in flight. -/
theorem Inv.written_lt {s : State ι n} {h : History ι n} {p : ι} (hI : Inv (s, h))
    (hpc : s.push p = .idle) : h.written < h.popped.length + s.cap + Fintype.card ι := by
  -- accepted positions are parked below the end of the window
  have hA : h.positions.card ≤ h.popped.length + s.cap :=
    hI.parked.card_le (positions_le_held (s, h)) hI.window
  have hsum : (∑ q, inflight (s.push q) (h.ticket q)).card < Fintype.card ι := by
    -- one for each of the other producers
    have hone : ∑ q ∈ Finset.univ.erase p, (inflight (s.push q) (h.ticket q)).card ≤
        (Finset.univ.erase p).card • 1 :=
      Finset.sum_le_card_nsmul _ _ _ fun q _ => card_inflight_le _ _
    rw [← Finset.add_sum_erase Finset.univ _ (Finset.mem_univ p), hpc, inflight_idle, zero_add,
      Multiset.card_sum]
    rw [Finset.card_erase_of_mem (Finset.mem_univ p), Finset.card_univ, nsmul_eq_mul, mul_one, Nat.cast_id] at hone
    have hpos : 0 < Fintype.card ι := Fintype.card_pos_iff.mpr ⟨p⟩
    omega
  have hcard : h.written = (held (s, h)).card := hI.card
  unfold held at hcard
  rw [Multiset.card_add] at hcard
  simp only at hcard
  omega

theorem Near.step {c c' : Config ι n} {a : Act ι n} (hI : Inv c) (hnear : Near c)
    (hstep : Step c a c') : Near c' := by
  obtain ⟨s, h⟩ := c
  -- a producer that is undecided after a step of another one was so before
  have hkeep : ∀ (q : SiLogMpscQueue n) (p : ι) (pc : PushPc n) (h' : History ι n),
      q.capacity = s.queue.capacity → h'.popped = h.popped → h'.ticket = h.ticket →
      (∀ e w, pc ≠ .ticketed e w) → Near (s.setPush q p pc, h') := by
    intro q p pc h' hcap hpop htick hpc x e w hx
    by_cases hxp : x = p
    · subst hxp
      simp only [State.setPush, Function.update_self] at hx
      exact absurd hx (hpc e w)
    · simp only [State.setPush, Function.update_of_ne hxp] at hx
      simp only [State.cap, State.setPush, hcap, hpop, htick]
      exact hnear x e w hx
  cases a with
  | fetchAdd p e =>
    obtain ⟨hpc, rfl⟩ := step_fetchAdd hstep
    intro x e' w hx
    by_cases hxp : x = p
    · subst hxp
      simp only [History.issue, Function.update_self]
      -- the position just taken
      exact hI.written_lt hpc
    · simp only [State.setPush, Function.update_of_ne hxp] at hx
      simp only [History.issue, Function.update_of_ne hxp]
      exact hnear x e' w hx
  | loadRead p =>
    obtain ⟨e, w, _, ⟨_, rfl⟩ | ⟨_, rfl⟩⟩ := step_loadRead hstep
    · exact hkeep _ _ _ _ rfl rfl rfl (fun _ _ hx => by cases hx)
    · exact hkeep _ _ _ _ rfl rfl rfl (fun _ _ hx => by cases hx)
  | fetchSub p =>
    obtain ⟨w, _, rfl⟩ := step_fetchSub hstep
    exact hkeep _ _ _ _ rfl rfl rfl (fun _ _ hx => by cases hx)
  | cas p spurious =>
    obtain ⟨e, w, _, ⟨_, rfl⟩ | ⟨_, rfl⟩ | rfl⟩ := step_cas hstep
    · exact hkeep _ _ _ _ rfl rfl rfl (fun _ _ hx => by cases hx)
    · exact hkeep _ _ _ _ rfl rfl rfl (fun _ _ hx => by cases hx)
    · exact hkeep _ _ _ _ rfl rfl rfl (fun _ _ hx => by cases hx)
  | copyByte p b =>
    obtain ⟨e, w, d, _, rfl⟩ := step_copyByte hstep
    exact hkeep _ _ _ _ rfl rfl rfl (fun _ _ hx => by cases hx)
  | storeReady p =>
    obtain ⟨e, w, _, rfl⟩ := step_storeReady hstep
    exact hkeep _ _ _ _ rfl rfl rfl (fun _ _ hx => by cases hx)
  | popLoadRead out =>
    obtain ⟨_, rfl⟩ := step_popLoadRead hstep
    exact hnear
  | popLoadSeq =>
    obtain ⟨_, _, _, ⟨_, rfl⟩ | ⟨_, rfl⟩⟩ := step_popLoadSeq hstep
    · exact hnear
    · exact hnear
  | popCopyByte b =>
    obtain ⟨_, _, _, _, rfl⟩ := step_popCopyByte hstep
    exact hnear
  | popStoreSeq =>
    obtain ⟨_, _, _, rfl⟩ := step_popStoreSeq hstep
    exact hnear
  | popStoreRead =>
    obtain ⟨_, out, _, rfl⟩ := step_popStoreRead hstep
    intro x e w hx
    -- the consumer only comes nearer
    have hold : h.ticket x < h.popped.length + s.cap + Fintype.card ι := hnear x e w hx
    show h.ticket x < (h.popped ++ [out]).length + s.cap + Fintype.card ι
    rw [List.length_append]
    omega

omit [DecidableEq ι] in
/-- With few enough producers the full check is exact. -/
theorem Inv.noLap {c : Config ι n} (hI : Inv c) (hnear : Near c)
    (hfew : c.1.cap + Fintype.card ι ≤ 2 ^ 32) (a : Act ι n) : NoLap c a := by
  rintro p - ⟨e, w, hpc, hroom⟩
  have hlt := hnear p e w hpc
  have hge : c.2.popped.length ≤ c.2.ticket p :=
    hI.inflight_ge (p := p) (by rw [hpc]; exact Multiset.mem_singleton_self _)
  have hw : w = UInt32.ofNat (c.2.ticket p) := hI.words p w (by rw [hpc]; rfl)
  unfold SiLogMpscQueue.hasRoom at hroom
  rw [hw, hI.readPos, Wrap.word_sub_lt hge] at hroom
  have hroom' : (c.2.ticket p - c.2.popped.length) % 2 ^ 32 < c.1.cap := hroom
  -- the distance is below `2 ^ 32`, so the check compares the true numbers
  rw [Nat.mod_eq_of_lt (by omega)] at hroom'
  omega

omit [Fintype ι] in
/-- The capacity and its mask never change. -/
theorem shape_step {c c' : Config ι n} {a : Act ι n} (hstep : Step c a c') :
    c'.1.queue.capacity = c.1.queue.capacity ∧ c'.1.queue.capacityMask = c.1.queue.capacityMask := by
  cases a with
  | fetchAdd p e => obtain ⟨_, rfl⟩ := step_fetchAdd hstep; exact ⟨rfl, rfl⟩
  | loadRead p =>
    obtain ⟨_, _, _, ⟨_, rfl⟩ | ⟨_, rfl⟩⟩ := step_loadRead hstep <;> exact ⟨rfl, rfl⟩
  | fetchSub p => obtain ⟨_, _, rfl⟩ := step_fetchSub hstep; exact ⟨rfl, rfl⟩
  | cas p _ =>
    obtain ⟨_, _, _, ⟨_, rfl⟩ | ⟨_, rfl⟩ | rfl⟩ := step_cas hstep <;> exact ⟨rfl, rfl⟩
  | copyByte p b => obtain ⟨_, _, _, _, rfl⟩ := step_copyByte hstep; exact ⟨rfl, rfl⟩
  | storeReady p => obtain ⟨_, _, _, rfl⟩ := step_storeReady hstep; exact ⟨rfl, rfl⟩
  | popLoadRead out => obtain ⟨_, rfl⟩ := step_popLoadRead hstep; exact ⟨rfl, rfl⟩
  | popLoadSeq =>
    obtain ⟨_, _, _, ⟨_, rfl⟩ | ⟨_, rfl⟩⟩ := step_popLoadSeq hstep <;> exact ⟨rfl, rfl⟩
  | popCopyByte b => obtain ⟨_, _, _, _, rfl⟩ := step_popCopyByte hstep; exact ⟨rfl, rfl⟩
  | popStoreSeq => obtain ⟨_, _, _, rfl⟩ := step_popStoreSeq hstep; exact ⟨rfl, rfl⟩
  | popStoreRead => obtain ⟨_, _, _, rfl⟩ := step_popStoreRead hstep; exact ⟨rfl, rfl⟩

omit [Fintype ι] in
theorem cap_step {c c' : Config ι n} {a : Act ι n} (hstep : Step c a c') : c'.1.cap = c.1.cap :=
  congrArg UInt32.toNat (shape_step hstep).1

/-- The invariant together with what keeps the counters from lapping. -/
structure FewInv (c : Config ι n) : Prop where
  inv  : Inv c
  near : Near c
  few  : c.1.cap + Fintype.card ι ≤ 2 ^ 32

theorem FewInv.step {c c' : Config ι n} {a : Act ι n} (hF : FewInv c) (hstep : Step c a c') :
    FewInv c' where
  inv := hF.inv.step (hF.inv.noLap hF.near hF.few a) hstep
  near := hF.near.step hF.inv hstep
  few := by rw [cap_step hstep]; exact hF.few

section init
variable {capacity : UInt32} {mem : Option (UInt32 → Elem n)} {seqOk : Bool}
  {q : SiLogMpscQueue n}

omit [Fintype ι] [DecidableEq ι] in
theorem cap_init (hinit : silogMpscQueueInit capacity mem seqOk = .ok q) :
    (initConfig q : Config ι n).1.cap = capacity.toNat := by
  obtain ⟨_, _, rfl⟩ := init_ok hinit
  rfl

omit [DecidableEq ι] in
theorem fewInv_init (hinit : silogMpscQueueInit capacity mem seqOk = .ok q) (hcap : 2 ≤ capacity)
    (hfew : capacity.toNat + Fintype.card ι ≤ 2 ^ 32) : FewInv (initConfig q : Config ι n) where
  inv := inv_init hinit hcap
  near := by intro p e w hx; simp [initConfig] at hx
  few := by rw [cap_init hinit]; exact hfew

end init

/-! ## Section 2: Delivery -/

/-- The `k`-th successful `Pop` (from 0) returned the element of the `j`-th
    accepted `Push`, which held write position `k`. -/
def DeliveredBy (c : Config ι n) (k j : ℕ) : Prop :=
  ∃ e, c.2.popped[k]? = some e ∧ c.2.accepted[j]? = some (k, e)

/-- What consumers are promised. -/
structure Delivery (c : Config ι n) : Prop where
  /-- Each `Pop` returns the whole element of a `Push` accepted at its position. -/
  source : ∀ k, k < c.2.popped.length → ∃ j, DeliveredBy c k j ∧
    ∀ i x, c.2.accepted[i]? = some x → x.1 = k → i = j
  /-- No `Push` is delivered twice. -/
  once   : ∀ k l j, DeliveredBy c k j → DeliveredBy c l j → k = l
  /-- While `Pop` copies, the producer of the slot has returned and no other
      producer has claimed it or writes to it. -/
  stable : ∀ read out d, c.1.pop = .copy read out d →
    (∃ e, (c.2.popped.length, e) ∈ c.2.returnedOk ∧
      c.1.queue.buffer (c.1.queue.index read) = e) ∧
    ∀ p e w d', c.1.push p = .claim e w ∨ c.1.push p = .copy e w d' →
      c.1.queue.index w ≠ c.1.queue.index read

omit [Fintype ι] [DecidableEq ι] in
/-- Two accepted calls at different places of the list and one position. -/
theorem two_le_count_of_lt {h : History ι n} {t i j : ℕ} {x y : ℕ × Elem n} (hlt : i < j)
    (hi : h.accepted[i]? = some x) (hx : x.1 = t)
    (hj : h.accepted[j]? = some y) (hy : y.1 = t) : 2 ≤ h.positions.count t := by
  obtain ⟨hib, rfl⟩ := List.getElem?_eq_some_iff.mp hi
  obtain ⟨hjb, rfl⟩ := List.getElem?_eq_some_iff.mp hj
  have hdup : List.Duplicate t (h.accepted.map Prod.fst) := by
    rw [List.duplicate_iff_exists_distinct_get]
    refine ⟨⟨i, by simpa using hib⟩, ⟨j, by simpa using hjb⟩, hlt, ?_, ?_⟩
    · simp [hx]
    · simp [hy]
  simpa [History.positions] using List.duplicate_iff_two_le_count.mp hdup

omit [Fintype ι] [DecidableEq ι] in
theorem eq_of_count_le_one {h : History ι n} {t i j : ℕ} {x y : ℕ × Elem n}
    (hcount : h.positions.count t ≤ 1) (hi : h.accepted[i]? = some x) (hx : x.1 = t)
    (hj : h.accepted[j]? = some y) (hy : y.1 = t) : i = j := by
  rcases Nat.lt_trichotomy i j with hlt | heq | hlt
  · have := two_le_count_of_lt hlt hi hx hj hy
    omega
  · exact heq
  · have := two_le_count_of_lt hlt hj hy hi hx
    omega

omit [DecidableEq ι] in
/-- The invariant gives the delivery guarantees. -/
theorem Inv.delivery {c : Config ι n} (hI : Inv c) : Delivery c where
  source := by
    intro k hk
    have hpop : c.2.popped[k]? = some c.2.popped[k] := List.getElem?_eq_getElem hk
    obtain ⟨j, hj⟩ := List.mem_iff_getElem?.mp (hI.mem_accepted (hI.popped k _ hpop))
    refine ⟨j, ⟨_, hpop, hj⟩, ?_⟩
    intro i x hi hx
    -- below position `k` all are accepted, so `k` is accepted once
    exact eq_of_count_le_one (hI.count_le_one fun l hl => hI.mem_of_lt (by omega)) hi hx hj rfl
  once := by
    rintro k l j ⟨e, _, hk⟩ ⟨e', _, hl⟩
    rw [hk] at hl
    exact (Prod.mk.inj (Option.some.inj hl)).1
  stable := by
    intro read out d hpc
    obtain ⟨s, h⟩ := c
    obtain ⟨hread, e, he, _, hbuf⟩ := hI.popCopy hpc
    refine ⟨⟨e, he, hbuf⟩, ?_⟩
    intro p e' w d' hpush heq
    have hwr : writing (s.push p) (h.ticket p) = {(h.ticket p, e')} := by
      rcases hpush with hx | hx
      · have hx' : s.push p = .claim e' w := hx
        rw [hx']; rfl
      · have hx' : s.push p = .copy e' w d' := hx
        rw [hx']; rfl
    have hword : word (s.push p) = some w := by
      rcases hpush with hx | hx
      · have hx' : s.push p = .claim e' w := hx
        rw [hx']; rfl
      · have hx' : s.push p = .copy e' w d' := hx
        rw [hx']; rfl
    -- a producer in this slot would be at the consumer's own position
    have hslot : s.queue.slot (h.ticket p) = s.queue.slot h.popped.length := by
      rw [← hI.index_eq hword]
      exact heq.trans (by rw [hread]; rfl)
    have htwo : 2 ≤ s.cap := hI.two
    have hpos : h.ticket p = h.popped.length :=
      hI.slot_inj ⟨hI.writing_ge hwr, hI.writing_lt hwr⟩
        ⟨le_refl _, Nat.lt_add_of_pos_right (by show 0 < s.cap; omega)⟩ hslot
    -- but a call has returned for that position, and only one is accepted at it
    have hret : (h.ticket p, e) ∈ h.returnedOk := by rw [hpos]; exact he
    have hcount : 2 ≤ h.positions.count (h.ticket p) := hI.two_of_ok_writing hret hwr
    have hone : h.positions.count (h.ticket p) ≤ 1 :=
      hI.count_le_one fun i hi => hI.mem_of_lt (by rw [hpos] at hi; exact hi)
    omega

/-- **Delivery safety.** With fewer than `2 ^ 31` producers, in every state of
    every run the delivery guarantees hold, through full queues, give-backs
    and the wrap of the counters. -/
theorem silogMpscQueue_delivery {capacity : UInt32} {mem : Option (UInt32 → Elem n)}
    {seqOk : Bool} {q : SiLogMpscQueue n} {acts : List (Act ι n)} {c : Config ι n}
    (hinit : silogMpscQueueInit capacity mem seqOk = .ok q) (hcap : 2 ≤ capacity)
    (hproducers : Fintype.card ι < 2 ^ 31) (hrun : Steps Step (initConfig q) acts c) :
    Delivery c := by
  -- a power of two that is a 32-bit word is at most `2 ^ 31`
  have hfew : capacity.toNat + Fintype.card ι ≤ 2 ^ 32 := by
    obtain ⟨⟨j, hj⟩, _⟩ := init_ok hinit
    have hlt : 2 ^ j < 2 ^ 32 := hj ▸ capacity.toNat_lt
    have hj31 : j ≤ 31 := by
      have := (Nat.pow_lt_pow_iff_right (a := 2) (by decide)).mp hlt
      omega
    have hle : 2 ^ j ≤ 2 ^ 31 := Nat.pow_le_pow_right (by decide) hj31
    omega
  have hF := hrun.invariant (fun _ _ _ hstep hF => FewInv.step hF hstep)
    (fewInv_init hinit hcap hfew)
  exact hF.inv.delivery

/-! ### A small queue to run -/

/-- One-byte elements, two slots. -/
def pairQueue : SiLogMpscQueue 1 where
  buffer := fun _ _ => 0
  capacity := 2
  writePos := 0
  readPos := 0
  seq := fun i => i
  capacityMask := 1

theorem pairQueue_init :
    silogMpscQueueInit 2 (some fun _ _ => 0) true = .ok pairQueue := rfl

/-- A `Push` of one byte by `p` that nothing interrupts. -/
def pushRun (p : Fin 3) (b : UInt8) : List (Act (Fin 3) 1) :=
  [.fetchAdd p (fun _ => b), .loadRead p, .cas p false, .copyByte p 0, .storeReady p]

/-- A `Pop` that nothing interrupts. -/
def popRun : List (Act (Fin 3) 1) :=
  [.popLoadRead (fun _ => 0), .popLoadSeq, .popCopyByte 0, .popStoreSeq, .popStoreRead]

/-- Producer 0 finds the queue full at position 2.  Before it gives the position
    back, the consumer frees both slots and producer 1, one position later,
    is let in. -/
def overtakeRun : List (Act (Fin 3) 1) :=
  pushRun 0 10 ++ pushRun 0 11 ++
  [.fetchAdd 0 (fun _ => 12), .fetchAdd 1 (fun _ => 13), .loadRead 0] ++
  popRun ++ popRun ++
  [.loadRead 1, .fetchSub 0, .cas 1 false, .copyByte 1 0, .storeReady 1]

/-- Where `overtakeRun` ends. -/
def overtaken : Config (Fin 3) 1 := (exec next (initConfig pairQueue) overtakeRun).get (by decide)

theorem overtaken_run : Steps Step (initConfig pairQueue) overtakeRun overtaken :=
  steps_of_exec step_of_next (Option.some_get (by decide)).symm

theorem silogMpscQueue_delivery_overtake :
    overtaken.2.popped = [fun _ => 10, fun _ => 11] ∧ Delivery overtaken :=
  ⟨by decide, silogMpscQueue_delivery pairQueue_init (by decide) (by decide) overtaken_run⟩

/-! ## Section 3: The compare-exchange -/

/-- Every producer past the full check finds its slot free: the
    compare-exchange does not have to wait and the loop is not left through
    `expected == desired`. -/
def CasReady (c : Config ι n) : Prop :=
  ∀ p e w, c.1.push p = .claim e w →
    c.1.queue.seq (c.1.queue.index w) = w ∧
    c.1.queue.seq (c.1.queue.index w) ≠ w + c.1.queue.capacity ∧
    casTurn c.1.queue e w false =
      (c.1.queue.storeSeq (c.1.queue.index w) (w + c.1.queue.capacity), .copy e w ∅)

/-- The full check lets a call in only at a position in the window at which no
    other call was let in. -/
def Fresh (c : Config ι n) (a : Act ι n) : Prop :=
  ∀ p, a = .loadRead p → Accepts c p →
    c.2.ticket p < c.2.popped.length + c.1.cap ∧ c.2.ticket p ∉ c.2.positions

instance (c : Config ι n) : (a : Act ι n) → Decidable (Fresh c a)
  | .loadRead p =>
    decidable_of_iff (Accepts c p →
        c.2.ticket p < c.2.popped.length + c.1.cap ∧ c.2.ticket p ∉ c.2.positions)
      ⟨fun h _ ha => Act.loadRead.inj ha ▸ h, fun h => h p rfl⟩
  | .fetchAdd _ _ | .fetchSub _ | .cas _ _ | .copyByte _ _ | .storeReady _ | .popLoadRead _
  | .popLoadSeq | .popCopyByte _ | .popStoreSeq | .popStoreRead => isTrue nofun

/-- The accepted positions are different. -/
structure FreshInv (c : Config ι n) : Prop where
  inv   : Inv c
  nodup : c.2.positions.Nodup

omit [DecidableEq ι] in
theorem FreshInv.casReady {c : Config ι n} (hF : FreshInv c) : CasReady c := by
  obtain ⟨s, h⟩ := c
  intro p e w hpc
  have hseq : s.queue.seq (s.queue.index w) = w :=
    hF.inv.seq_claim hpc (Multiset.nodup_iff_count_le_one.mp hF.nodup _)
  have hword : w = UInt32.ofNat (h.ticket p) :=
    hF.inv.words p w (by simp only; rw [show s.push p = .claim e w from hpc]; rfl)
  -- the escape branch would need a marker one lap ahead
  have hne : w ≠ w + s.queue.capacity := by
    rw [hword, add_capacity]
    exact hF.inv.word_ne_lap _
  refine ⟨hseq, ?_, ?_⟩
  · show s.queue.seq (s.queue.index w) ≠ _
    rw [hseq]
    exact hne
  · unfold casTurn
    rw [if_pos ⟨hseq, rfl⟩]

omit [Fintype ι] in
/-- Only an accepting full check changes the accepted positions. -/
theorem positions_step {c c' : Config ι n} {a : Act ι n} (hstep : Step c a c') :
    c'.2.positions = c.2.positions ∨
    ∃ p, a = .loadRead p ∧ Accepts c p ∧ c'.2.positions = c.2.positions + {c.2.ticket p} := by
  cases a with
  | fetchAdd p e => obtain ⟨_, rfl⟩ := step_fetchAdd hstep; exact Or.inl rfl
  | loadRead p =>
    obtain ⟨e, w, hpc, ⟨hroom, rfl⟩ | ⟨_, rfl⟩⟩ := step_loadRead hstep
    · -- the only step that accepts
      exact Or.inr ⟨p, rfl, ⟨e, w, hpc, hroom⟩, positions_accept _ _ _⟩
    · exact Or.inl rfl
  | fetchSub p => obtain ⟨_, _, rfl⟩ := step_fetchSub hstep; exact Or.inl rfl
  | cas p _ =>
    obtain ⟨_, _, _, ⟨_, rfl⟩ | ⟨_, rfl⟩ | rfl⟩ := step_cas hstep <;> exact Or.inl rfl
  | copyByte p b => obtain ⟨_, _, _, _, rfl⟩ := step_copyByte hstep; exact Or.inl rfl
  | storeReady p => obtain ⟨_, _, _, rfl⟩ := step_storeReady hstep; exact Or.inl rfl
  | popLoadRead out => obtain ⟨_, rfl⟩ := step_popLoadRead hstep; exact Or.inl rfl
  | popLoadSeq =>
    obtain ⟨_, _, _, ⟨_, rfl⟩ | ⟨_, rfl⟩⟩ := step_popLoadSeq hstep <;> exact Or.inl rfl
  | popCopyByte b => obtain ⟨_, _, _, _, rfl⟩ := step_popCopyByte hstep; exact Or.inl rfl
  | popStoreSeq => obtain ⟨_, _, _, rfl⟩ := step_popStoreSeq hstep; exact Or.inl rfl
  | popStoreRead => obtain ⟨_, _, _, rfl⟩ := step_popStoreRead hstep; exact Or.inl rfl

theorem FreshInv.step {c c' : Config ι n} {a : Act ι n} (hF : FreshInv c) (hfresh : Fresh c a)
    (hstep : Step c a c') : FreshInv c' where
  inv := hF.inv.step (fun p ha hacc => (hfresh p ha hacc).1) hstep
  nodup := by
    rcases positions_step hstep with hsame | ⟨p, ha, hacc, hpos⟩
    · rw [hsame]
      exact hF.nodup
    · rw [hpos, Multiset.nodup_add, Multiset.disjoint_singleton]
      exact ⟨hF.nodup, Multiset.nodup_singleton _, (hfresh p ha hacc).2⟩

/-- **`Push` does not wait** in any state of a run whose full checks let calls
    in at fresh positions only. -/
theorem cas_ready_of_fresh {capacity : UInt32} {mem : Option (UInt32 → Elem n)}
    {seqOk : Bool} {q : SiLogMpscQueue n} {acts : List (Act ι n)} {c : Config ι n}
    (hinit : silogMpscQueueInit capacity mem seqOk = .ok q) (hcap : 2 ≤ capacity)
    (hrun : Steps (Guarded Step Fresh) (initConfig q) acts c) : CasReady c := by
  have hF₀ : FreshInv (initConfig q : Config ι n) :=
    ⟨inv_init hinit hcap, by simp [initConfig, History.positions]⟩
  have hF := hrun.invariant (fun _ _ _ hR hF => FreshInv.step hF hR.2 hR.1) hF₀
  exact hF.casReady

/-- Producers 0 and 1 take positions and pass the full check the other way round; producer 2 finds
    the queue full; a compare-exchange fails spuriously. -/
def contendedRun : List (Act (Fin 3) 1) :=
  [.fetchAdd 0 (fun _ => 10), .fetchAdd 1 (fun _ => 20), .loadRead 1, .loadRead 0,
   .fetchAdd 2 (fun _ => 30), .loadRead 2, .cas 1 true]

def contended : Config (Fin 3) 1 :=
  (exec next (initConfig pairQueue) contendedRun).get (by decide)

theorem cas_ready_of_fresh_contended :
    contended.1.push 0 = .claim (fun _ => 10) 0 ∧ contended.1.push 1 = .claim (fun _ => 20) 1 ∧
    contended.1.push 2 = .rollback 2 ∧ CasReady contended := by
  have hfresh : Steps (Guarded Step Fresh) (initConfig pairQueue) contendedRun contended :=
    guarded_of_exec step_of_next (Option.some_get (by decide)).symm (by decide +kernel)
  exact ⟨rfl, rfl, rfl, cas_ready_of_fresh pairQueue_init (by decide) hfresh⟩

/-- Producer 2 gives its position back, and the other two write their elements, the later position
    first. -/
def settledRun : List (Act (Fin 3) 1) :=
  contendedRun ++ [.fetchSub 2, .cas 0 false, .cas 1 false, .copyByte 1 0, .storeReady 1,
    .copyByte 0 0, .storeReady 0]

/-- After `overtakeRun` the next position issued is 3 again, which producer 1
    already filled. -/
def blockedRun : List (Act (Fin 3) 1) :=
  overtakeRun ++ [.fetchAdd 2 (fun _ => 14), .loadRead 2]

def blocked : Config (Fin 3) 1 := (exec next (initConfig pairQueue) blockedRun).get (by decide)

/-- Producer 2 is past the full check at position 3 and the marker of its slot
    is 4, not 3. -/
theorem cas_blocked_run :
    silogMpscQueueInit 2 (some fun _ _ => 0) true = .ok pairQueue ∧
    Steps Step (initConfig pairQueue) blockedRun blocked ∧ ¬ CasReady blocked := by
  refine ⟨pairQueue_init, steps_of_exec step_of_next (Option.some_get (by decide)).symm, ?_⟩
  intro hready
  have hseq := (hready 2 (fun _ => 14) 3 rfl).1
  exact absurd hseq (by decide +kernel)

/-! ## Section 4: The elements come from the calls -/

/-- The element of a call that is undecided. -/
def offer (pc : PushPc n) : Multiset (Elem n) :=
  match pc with
  | .ticketed e _ => {e}
  | _ => 0

/-- The elements of the calls that are accepted or undecided. -/
def offered (c : Config ι n) : Multiset (Elem n) :=
  ((c.2.accepted.map Prod.snd : List (Elem n)) : Multiset (Elem n)) + ∑ p, offer (c.1.push p)

/-- The element of the call of `Push` that a step begins. -/
def Act.called {ι : Type*} {n : ℕ} : Act ι n → List (Elem n)
  | .fetchAdd _ e => [e]
  | _ => []

section calls
variable {c c' : Config ι n} {a : Act ι n}

omit [DecidableEq ι] in
theorem offered_init (q : SiLogMpscQueue n) : offered (initConfig q : Config ι n) = 0 := by
  simp [offered, initConfig, offer]

theorem sum_offer (s : State ι n) (q : SiLogMpscQueue n) (p : ι) (pc : PushPc n) :
    ∑ x, offer ((s.setPush q p pc).push x) + offer (s.push p) =
      ∑ x, offer (s.push x) + offer pc := by
  have hsum := sum_change_one (fun x => offer (s.push x))
    (fun x => offer ((s.setPush q p pc).push x)) p
    (fun x hx => by simp only [State.setPush, Function.update_of_ne hx])
  simpa only [State.setPush, Function.update_self] using hsum

/-- A step after which the producer is not undecided and which accepts nothing. -/
theorem offered_setPush_le {s : State ι n} {h h' : History ι n} (q : SiLogMpscQueue n) (p : ι)
    {pc : PushPc n} (hpc : offer pc = 0) (haccepted : h'.accepted = h.accepted) :
    offered (s.setPush q p pc, h') ≤ offered (s, h) := by
  have hsum := sum_offer s q p pc
  rw [hpc, add_zero] at hsum
  unfold offered
  rw [haccepted, ← hsum]
  exact add_le_add_right (Multiset.le_add_right _ _) _

/-- Only a call that begins brings an element. -/
theorem offered_step (h : Step c a c') : offered c' ≤ offered c + (a.called : Multiset (Elem n)) := by
  obtain ⟨s, hist⟩ := c
  cases a with
  | fetchAdd p e =>
    obtain ⟨hidle, rfl⟩ := step_fetchAdd h
    have hsum := sum_offer s s.queue.fetchAdd p (.ticketed e s.queue.writePos)
    rw [show s.push p = .idle from hidle, show offer (.idle : PushPc n) = 0 from rfl, add_zero] at hsum
    unfold offered
    rw [hsum, ← add_assoc]
    exact le_refl _
  | loadRead p =>
    refine le_trans ?_ (Multiset.le_add_right _ _)
    obtain ⟨e, w, hpc, ⟨_, rfl⟩ | ⟨_, rfl⟩⟩ := step_loadRead h
    · have hsum := sum_offer s s.queue p (.claim e w)
      rw [show s.push p = .ticketed e w from hpc, show offer (.ticketed e w) = {e} from rfl,
        show offer (.claim e w) = 0 from rfl, add_zero] at hsum
      -- the element moves from the undecided ones to the accepted ones
      unfold offered
      rw [← hsum]
      simp only [History.accept, List.map_append, List.map_cons, List.map_nil]
      rw [← Multiset.coe_add, Multiset.coe_singleton, add_assoc,
        add_comm ({e} : Multiset (Elem n))]
    · exact offered_setPush_le _ _ rfl rfl
  | fetchSub p =>
    obtain ⟨_, _, rfl⟩ := step_fetchSub h
    exact (offered_setPush_le _ _ rfl rfl).trans (Multiset.le_add_right _ _)
  | cas p spurious =>
    obtain ⟨_, _, _, ⟨_, rfl⟩ | ⟨_, rfl⟩ | rfl⟩ := step_cas h
    all_goals exact (offered_setPush_le _ _ rfl rfl).trans (Multiset.le_add_right _ _)
  | copyByte p b =>
    obtain ⟨_, _, _, _, rfl⟩ := step_copyByte h
    exact (offered_setPush_le _ _ rfl rfl).trans (Multiset.le_add_right _ _)
  | storeReady p =>
    obtain ⟨_, _, _, rfl⟩ := step_storeReady h
    exact (offered_setPush_le _ _ rfl rfl).trans (Multiset.le_add_right _ _)
  | popLoadRead out =>
    obtain ⟨_, rfl⟩ := step_popLoadRead h
    exact Multiset.le_add_right _ _
  | popLoadSeq =>
    obtain ⟨_, _, _, ⟨_, rfl⟩ | ⟨_, rfl⟩⟩ := step_popLoadSeq h
    all_goals exact Multiset.le_add_right _ _
  | popCopyByte b =>
    obtain ⟨_, _, _, _, rfl⟩ := step_popCopyByte h
    exact Multiset.le_add_right _ _
  | popStoreSeq =>
    obtain ⟨_, _, _, rfl⟩ := step_popStoreSeq h
    exact Multiset.le_add_right _ _
  | popStoreRead =>
    obtain ⟨_, _, _, rfl⟩ := step_popStoreRead h
    exact Multiset.le_add_right _ _

omit [DecidableEq ι] in
/-- What left the queue was brought by accepted calls, each element by one of them. -/
theorem Inv.popped_subperm (hI : Inv c) : c.2.popped.Subperm (c.2.accepted.map Prod.snd) := by
  have hnodup : (c.2.popped.zipIdx.map Prod.swap).Nodup := by
    have hrange : ((c.2.popped.zipIdx.map Prod.swap).map Prod.fst).Nodup := by
      rw [List.map_map, show Prod.fst ∘ Prod.swap = (Prod.snd : Elem n × ℕ → ℕ) from rfl,
        List.zipIdx_map_snd]
      exact List.nodup_range'
    exact hrange.of_map _
  have hsub : c.2.popped.zipIdx.map Prod.swap ⊆ c.2.accepted := by
    intro x hx
    obtain ⟨y, hy, rfl⟩ := List.mem_map.mp hx
    exact hI.mem_accepted (hI.popped y.2 y.1 (List.mem_zipIdx_iff_getElem?.mp hy))
  have hmap := Multiset.map_le_map (f := Prod.snd)
    (Multiset.coe_le.mpr (List.subperm_of_subset hnodup hsub))
  rw [Multiset.map_coe, Multiset.map_coe, List.map_map,
    show Prod.snd ∘ Prod.swap = (Prod.fst : Elem n × ℕ → Elem n) from rfl,
    List.zipIdx_map_fst] at hmap
  exact Multiset.coe_le.mp hmap

omit [DecidableEq ι] in
theorem Inv.popped_le (hI : Inv c) : (c.2.popped : Multiset (Elem n)) ≤ offered c :=
  (Multiset.coe_le.mpr hI.popped_subperm).trans (Multiset.le_add_right _ _)

end calls

end SiLog.Mpsc
