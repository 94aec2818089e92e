import SiLog.Mpsc.Invariant

/-! # Every step keeps the invariant

    One inversion lemma says what each atomic operation can do; one lemma
    per operation then carries the invariant over it.  The only operation
    that needs more than the invariant is the full check: it must not accept
    a position a whole lap of the 32-bit counter away (`NoLap`).  With fewer
    than `2 ^ 32 - capacity` producers the counters cannot get that far.
-/

open Lts Tickets

namespace SiLog.Mpsc

variable {ι : Type*} [DecidableEq ι] {n : ℕ}

/-! ## Section 1: What each operation can do -/

section inversion
variable {c c' : Config ι n} {p : ι}

theorem step_fetchAdd {e : Elem n} (h : Step c (.fetchAdd p e) c') :
    c.1.push p = .idle ∧
    c' = (c.1.setPush c.1.queue.fetchAdd p (.ticketed e c.1.queue.writePos),
          c.2.issue p) := by
  obtain ⟨hs, hh⟩ := h
  simp only [step, pushStep] at hs
  split at hs
  · -- enabled for an idle producer only
    next hidle => exact ⟨hidle, Prod.ext (Option.some.inj hs).symm hh⟩
  · cases hs

theorem step_loadRead (h : Step c (.loadRead p) c') :
    ∃ e w, c.1.push p = .ticketed e w ∧
      ((c.1.queue.hasRoom w ∧
        c' = (c.1.setPush c.1.queue p (.claim e w), c.2.accept p e)) ∨
       (¬ c.1.queue.hasRoom w ∧
        c' = (c.1.setPush c.1.queue p (.rollback w), c.2))) := by
  obtain ⟨hs, hh⟩ := h
  simp only [step, pushStep] at hs
  split at hs
  · next e w hpc =>
    refine ⟨e, w, hpc, ?_⟩
    simp only [observe, hpc] at hh
    -- the system and the history branch on the same check
    by_cases hroom : c.1.queue.hasRoom w
    · simp only [hroom, if_true] at hs hh
      exact Or.inl ⟨hroom, Prod.ext (Option.some.inj hs).symm hh⟩
    · simp only [hroom, if_false] at hs hh
      exact Or.inr ⟨hroom, Prod.ext (Option.some.inj hs).symm hh⟩
  · cases hs

theorem step_fetchSub (h : Step c (.fetchSub p) c') :
    ∃ w, c.1.push p = .rollback w ∧
      c' = (c.1.setPush c.1.queue.fetchSub p .idle, c.2.giveBack) := by
  obtain ⟨hs, hh⟩ := h
  simp only [step, pushStep] at hs
  split at hs
  · next w hpc => exact ⟨w, hpc, Prod.ext (Option.some.inj hs).symm hh⟩
  · cases hs

theorem step_cas {spurious : Bool} (h : Step c (.cas p spurious) c') :
    ∃ e w, c.1.push p = .claim e w ∧
      ((c.1.queue.seq (c.1.queue.index w) = w ∧
        c' = (c.1.setPush (c.1.queue.storeSeq (c.1.queue.index w) (w + c.1.queue.capacity)) p
                (.copy e w ∅), c.2)) ∨
       (c.1.queue.seq (c.1.queue.index w) = w + c.1.queue.capacity ∧
        c' = (c.1.setPush c.1.queue p (.copy e w ∅), c.2)) ∨
       c' = (c.1.setPush c.1.queue p (.claim e w), c.2)) := by
  obtain ⟨hs, hh⟩ := h
  simp only [step, pushStep] at hs
  split at hs
  · next e w hpc =>
    refine ⟨e, w, hpc, ?_⟩
    have hs' := (Option.some.inj hs).symm
    simp only [casTurn] at hs'
    split at hs'
    · -- the marker was `w`: the slot is claimed
      next hwin => exact Or.inl ⟨hwin.1, Prod.ext hs' hh⟩
    · split at hs'
      · -- the marker was `desired` already
        next hesc => exact Or.inr (Or.inl ⟨hesc, Prod.ext hs' hh⟩)
      · -- another turn of the loop
        exact Or.inr (Or.inr (Prod.ext hs' hh))
  · cases hs

theorem step_copyByte {b : Fin n} (h : Step c (.copyByte p b) c') :
    ∃ e w d, c.1.push p = .copy e w d ∧
      c' = (c.1.setPush (c.1.queue.writeByte (c.1.queue.index w) b e) p
              (.copy e w (insert b d)), c.2) := by
  obtain ⟨hs, hh⟩ := h
  simp only [step, pushStep] at hs
  split at hs
  · next e w d hpc =>
    split at hs
    · cases hs
    · exact ⟨e, w, d, hpc, Prod.ext (Option.some.inj hs).symm hh⟩
  · cases hs

theorem step_storeReady (h : Step c (.storeReady p) c') :
    ∃ e w, c.1.push p = .copy e w Finset.univ ∧
      c' = (c.1.setPush (c.1.queue.storeSeq (c.1.queue.index w) (w + 1)) p .idle,
            c.2.returnOk p e) := by
  obtain ⟨hs, hh⟩ := h
  simp only [step, pushStep] at hs
  split at hs
  · next e w d hpc =>
    split at hs
    · next hall =>
      subst hall
      simp only [observe, hpc] at hh
      exact ⟨e, w, hpc, Prod.ext (Option.some.inj hs).symm hh⟩
    · cases hs
  · cases hs

theorem step_popLoadRead {out : Elem n} (h : Step c (.popLoadRead out) c') :
    c.1.pop = .idle ∧ c' = (c.1.setPop c.1.queue (.loaded c.1.queue.readPos out), c.2) := by
  obtain ⟨hs, hh⟩ := h
  simp only [step, popStep] at hs
  split at hs
  · next hidle => exact ⟨hidle, Prod.ext (Option.some.inj hs).symm hh⟩
  · cases hs

theorem step_popLoadSeq (h : Step c .popLoadSeq c') :
    ∃ read out, c.1.pop = .loaded read out ∧
      ((c.1.queue.seq (c.1.queue.index read) ≠ read + 1 ∧
        c' = (c.1.setPop c.1.queue .idle, c.2)) ∨
       (c.1.queue.seq (c.1.queue.index read) = read + 1 ∧
        c' = (c.1.setPop c.1.queue (.copy read out ∅), c.2))) := by
  obtain ⟨hs, hh⟩ := h
  simp only [step, popStep] at hs
  split at hs
  · next read out hpc =>
    refine ⟨read, out, hpc, ?_⟩
    by_cases hseq : c.1.queue.seq (c.1.queue.index read) = read + 1
    · simp only [hseq, ne_eq, not_true_eq_false, if_false] at hs
      exact Or.inr ⟨hseq, Prod.ext (Option.some.inj hs).symm hh⟩
    · simp only [hseq, ne_eq, not_false_eq_true, if_true] at hs
      exact Or.inl ⟨hseq, Prod.ext (Option.some.inj hs).symm hh⟩
  · cases hs

theorem step_popCopyByte {b : Fin n} (h : Step c (.popCopyByte b) c') :
    ∃ read out d, c.1.pop = .copy read out d ∧
      c' = (c.1.setPop c.1.queue
        (.copy read (Function.update out b (c.1.queue.buffer (c.1.queue.index read) b))
          (insert b d)), c.2) := by
  obtain ⟨hs, hh⟩ := h
  simp only [step, popStep] at hs
  split at hs
  · next read out d hpc =>
    split at hs
    · cases hs
    · exact ⟨read, out, d, hpc, Prod.ext (Option.some.inj hs).symm hh⟩
  · cases hs

theorem step_popStoreSeq (h : Step c .popStoreSeq c') :
    ∃ read out, c.1.pop = .copy read out Finset.univ ∧
      c' = (c.1.setPop (c.1.queue.storeSeq (c.1.queue.index read) (read + c.1.queue.capacity))
        (.advance read out), c.2) := by
  obtain ⟨hs, hh⟩ := h
  simp only [step, popStep] at hs
  split at hs
  · next read out d hpc =>
    split at hs
    · next hall =>
      subst hall
      exact ⟨read, out, hpc, Prod.ext (Option.some.inj hs).symm hh⟩
    · cases hs
  · cases hs

theorem step_popStoreRead (h : Step c .popStoreRead c') :
    ∃ read out, c.1.pop = .advance read out ∧
      c' = (c.1.setPop (c.1.queue.storeRead (read + 1)) .idle, c.2.pop out) := by
  obtain ⟨hs, hh⟩ := h
  simp only [step, popStep] at hs
  split at hs
  · next read out hpc =>
    simp only [observe, hpc] at hh
    exact ⟨read, out, hpc, Prod.ext (Option.some.inj hs).symm hh⟩
  · cases hs

end inversion

/-! ## Section 2: Sums after a step of one producer -/

section sums
variable [Fintype ι] {s : State ι n} {h : History ι n} {p : ι}

/-- A sum over the producers after producer `p` went to `pc` and, possibly,
    took a new ticket. -/
theorem sum_push {β : Type*} (f : PushPc n → ℕ → Multiset β) (pc : PushPc n)
    {ticket : ι → ℕ} (hoff : ∀ x, x ≠ p → ticket x = h.ticket x) :
    ∑ x, f (Function.update s.push p pc x) (ticket x) + f (s.push p) (h.ticket p) =
      ∑ x, f (s.push x) (h.ticket x) + f pc (ticket p) := by
  have hsum := sum_change_one (fun x => f (s.push x) (h.ticket x))
    (fun x => f (Function.update s.push p pc x) (ticket x)) p
    (fun x hx => by simp only [Function.update_of_ne hx, hoff x hx])
  simpa only [Function.update_self] using hsum

/-- The positions held do not change when the call of `p` keeps its share. -/
theorem held_setPush {q : SiLogMpscQueue n} {pc : PushPc n} {h' : History ι n}
    (hpos : h'.positions = h.positions) (hticket : h'.ticket = h.ticket)
    (hsame : inflight pc (h.ticket p) = inflight (s.push p) (h.ticket p)) :
    held (s.setPush q p pc, h') = held (s, h) := by
  have hsum := sum_push (s := s) inflight pc
    (show ∀ x, x ≠ p → h.ticket x = h.ticket x from fun _ _ => rfl)
  rw [hsame] at hsum
  unfold held
  simp only [State.setPush, hpos, hticket]
  rw [add_right_cancel hsum]

/-- The calls accepted and not returned do not change when the call of `p`
    keeps its share. -/
theorem writers_setPush {q : SiLogMpscQueue n} {pc : PushPc n} {h' : History ι n}
    (hoff : ∀ x, x ≠ p → h'.ticket x = h.ticket x)
    (hsame : writing pc (h'.ticket p) = writing (s.push p) (h.ticket p)) :
    writers (s.setPush q p pc, h') = writers (s, h) := by
  have hsum := sum_push (s := s) (h := h) (p := p) writing pc hoff
  rw [hsame] at hsum
  exact add_right_cancel hsum

end sums

/-! ## Section 3: Slots that a step leaves alone -/

section frame
variable {s : State ι n} {h : History ι n}

@[simp] theorem slot_storeSeq (q : SiLogMpscQueue n) (i v : UInt32) (t : ℕ) :
    (q.storeSeq i v).slot t = q.slot t := rfl

@[simp] theorem slot_writeByte (q : SiLogMpscQueue n) (i : UInt32) (b : Fin n) (e : Elem n)
    (t : ℕ) : (q.writeByte i b e).slot t = q.slot t := rfl

theorem seq_storeSeq_ne {q : SiLogMpscQueue n} {i v k : UInt32} (hne : k ≠ i) :
    (q.storeSeq i v).seq k = q.seq k := by
  simp [SiLogMpscQueue.storeSeq, hne]

@[simp] theorem seq_storeSeq_self (q : SiLogMpscQueue n) (i v : UInt32) :
    (q.storeSeq i v).seq i = v := by
  simp [SiLogMpscQueue.storeSeq]

theorem buffer_writeByte_ne {q : SiLogMpscQueue n} {i k : UInt32} {b : Fin n} {e : Elem n}
    (hne : k ≠ i) : (q.writeByte i b e).buffer k = q.buffer k := by
  simp [SiLogMpscQueue.writeByte, hne]

theorem buffer_writeByte_self (q : SiLogMpscQueue n) (i : UInt32) (b : Fin n) (e : Elem n) :
    (q.writeByte i b e).buffer i = Function.update (q.buffer i) b (e b) := by
  simp [SiLogMpscQueue.writeByte]

/-- Two queues agree on capacity, mask, and the slot of `t`. -/
structure SameSlot (q q' : SiLogMpscQueue n) (t : ℕ) : Prop where
  capacity : q'.capacity = q.capacity
  mask     : q'.capacityMask = q.capacityMask
  seq      : q'.seq (q.slot t) = q.seq (q.slot t)
  buffer   : q'.buffer (q.slot t) = q.buffer (q.slot t)

theorem SameSlot.slot {q q' : SiLogMpscQueue n} {t : ℕ} (hq : SameSlot q q' t) :
    q'.slot t = q.slot t := by
  unfold SiLogMpscQueue.slot SiLogMpscQueue.index
  rw [hq.mask]

/-- A step of producer `p` keeps the slot of a position that `p` is not
    writing afterwards. -/
theorem SlotOk.setPush {q : SiLogMpscQueue n} {p : ι} {pc : PushPc n} {h' : History ι n} {t : ℕ}
    (hok : SlotOk (s, h) t) (hq : SameSlot s.queue q t)
    (hpc : h'.ticket p = t → writing pc t = 0)
    (hoff : ∀ x, x ≠ p → h'.ticket x = h.ticket x)
    (hpos : t ∉ h'.positions → t ∉ h.positions)
    (hret : ∀ e, (t, e) ∈ h'.returnedOk → (t, e) ∈ h.returnedOk)
    (hpopped : h'.popped = h.popped) : SlotOk (s.setPush q p pc, h') t := by
  have hcap : (s.setPush q p pc).cap = s.cap := by
    simp only [State.cap, State.setPush, hq.capacity]
  have hmark : readyMark (s.setPush q p pc, h') t = readyMark (s, h) t := by
    unfold readyMark
    rw [hpopped, hcap]
    rfl
  constructor
  · intro hnot
    show q.seq (q.slot t) = _
    rw [hq.slot, hq.seq]
    exact hok.free (hpos hnot)
  · intro x e w hx ht
    show q.seq (q.slot t) = _
    rw [hq.slot, hq.seq]
    -- `p` itself is at `pc` now, the others are where they were
    by_cases hxp : x = p
    · subst hxp
      simp only [State.setPush, Function.update_self] at hx
      have := hpc ht
      simp [hx, writing] at this
    · simp only [State.setPush, Function.update_of_ne hxp] at hx
      exact hok.claim x e w hx (by rw [← hoff x hxp]; exact ht)
  · intro x e w d hx ht
    show q.seq (q.slot t) = _ ∧ ∀ b ∈ d, q.buffer (q.slot t) b = e b
    rw [hq.slot, hq.seq, hq.buffer, hcap]
    by_cases hxp : x = p
    · subst hxp
      simp only [State.setPush, Function.update_self] at hx
      have := hpc ht
      simp [hx, writing] at this
    · simp only [State.setPush, Function.update_of_ne hxp] at hx
      exact hok.copy x e w d hx (by rw [← hoff x hxp]; exact ht)
  · intro e he
    show q.seq (q.slot t) = _ ∧ q.buffer (q.slot t) = e
    rw [hq.slot, hq.seq, hq.buffer, hmark]
    exact hok.ready e (hret e he)

omit [DecidableEq ι] in
/-- A step of the consumer keeps a slot it does not write, unless it starts
    or ends the freeing of that slot. -/
theorem SlotOk.setPop {q : SiLogMpscQueue n} {pc : PopPc n} {h' : History ι n} {t : ℕ}
    (hok : SlotOk (s, h) t) (hq : SameSlot s.queue q t)
    (hticket : h'.ticket = h.ticket) (hpos : h'.positions = h.positions)
    (hret : h'.returnedOk = h.returnedOk)
    (hmark : readyMark (s.setPop q pc, h') t = readyMark (s, h) t) :
    SlotOk (s.setPop q pc, h') t := by
  have hcap : (s.setPop q pc).cap = s.cap := by
    simp only [State.cap, State.setPop, hq.capacity]
  constructor
  · intro hnot
    show q.seq (q.slot t) = _
    rw [hq.slot, hq.seq]
    exact hok.free (by rw [← hpos]; exact hnot)
  · intro x e w hx ht
    show q.seq (q.slot t) = _
    rw [hq.slot, hq.seq]
    exact hok.claim x e w hx (by rw [← hticket]; exact ht)
  · intro x e w d hx ht
    show q.seq (q.slot t) = _ ∧ ∀ b ∈ d, q.buffer (q.slot t) b = e b
    rw [hq.slot, hq.seq, hq.buffer, hcap]
    exact hok.copy x e w d hx (by rw [← hticket]; exact ht)
  · intro e he
    show q.seq (q.slot t) = _ ∧ q.buffer (q.slot t) = e
    rw [hq.slot, hq.seq, hq.buffer, hmark]
    exact hok.ready e (by rw [← hret]; exact he)

end frame

/-! ## Section 4: Steps of the producers -/

section push
variable [Fintype ι] {s : State ι n} {h : History ι n} {p : ι}

theorem sameSlot_refl (q : SiLogMpscQueue n) (t : ℕ) : SameSlot q q t := ⟨rfl, rfl, rfl, rfl⟩

/-- The words held after producer `p` went to `pc`. -/
theorem Inv.words_setPush (hI : Inv (s, h)) {q : SiLogMpscQueue n} {pc : PushPc n}
    {ticket : ι → ℕ} (hoff : ∀ x, x ≠ p → ticket x = h.ticket x)
    (hword : ∀ w, word pc = some w → w = UInt32.ofNat (ticket p)) :
    ∀ x w, word ((s.setPush q p pc).push x) = some w → w = UInt32.ofNat (ticket x) := by
  intro x w hw
  by_cases hxp : x = p
  · subst hxp
    simp only [State.setPush, Function.update_self] at hw
    exact hword w hw
  · simp only [State.setPush, Function.update_of_ne hxp] at hw
    rw [hoff x hxp]
    exact hI.words x w hw

theorem Inv.fetchAdd (hI : Inv (s, h)) (e : Elem n) (hpc : s.push p = .idle) :
    Inv (s.setPush s.queue.fetchAdd p (.ticketed e s.queue.writePos), h.issue p) := by
  have hoff : ∀ x, x ≠ p → (h.issue p).ticket x = h.ticket x :=
    fun x hx => Function.update_of_ne hx _ _
  have hself : (h.issue p).ticket p = h.written := Function.update_self _ _ _
  -- the counter that `fetch_add` returns is the number of positions held
  have hheld : held (s.setPush s.queue.fetchAdd p (.ticketed e s.queue.writePos), h.issue p) =
      h.written ::ₘ held (s, h) := by
    have hsum := sum_push (s := s) inflight (.ticketed e s.queue.writePos) hoff
    rw [hpc, inflight_idle, add_zero, hself, inflight_ticketed] at hsum
    unfold held
    simp only [State.setPush, positions_issue]
    rw [hsum, ← Multiset.singleton_add]
    abel
  refine ⟨hI.pow, hI.two, hI.mask, ?_, hI.readPos, ?_, ?_, ?_, ?_, hI.popped, hI.window, ?_, hI.pop⟩
  · -- both counters go up by one
    show s.queue.writePos + 1 = UInt32.ofNat (h.written + 1)
    rw [hI.writePos, Wrap.ofNat_succ]
  · rw [hheld, Multiset.card_cons, ← hI.card]
    rfl
  · -- issuing the number of positions held keeps them parked
    have hparked := hI.parked.issue
    rw [← hI.card] at hparked
    rw [hheld]
    exact hparked
  · apply hI.words_setPush hoff
    intro w hw
    rw [hself]
    simp only [word, Option.some.injEq] at hw
    rw [← hw]
    exact hI.writePos
  · rw [writers_setPush hoff (by rw [hpc]; rfl)]
    exact hI.split
  · intro t hlo hhi hcount
    exact (hI.slots t hlo hhi hcount).setPush ⟨rfl, rfl, rfl, rfl⟩ (fun _ => rfl) hoff
      (fun hn => hn) (fun _ he => he) rfl

/-- The full check fails. -/
theorem Inv.reject (hI : Inv (s, h)) {e : Elem n} {w : UInt32} (hpc : s.push p = .ticketed e w) :
    Inv (s.setPush s.queue p (.rollback w), h) := by
  -- the position stays held until `fetch_sub`
  have hheld : held (s.setPush s.queue p (.rollback w), h) = held (s, h) :=
    held_setPush rfl rfl (by simp [hpc])
  have hoff : ∀ x, x ≠ p → h.ticket x = h.ticket x := fun _ _ => rfl
  refine ⟨hI.pow, hI.two, hI.mask, hI.writePos, hI.readPos, ?_, ?_, ?_, ?_, hI.popped, hI.window,
    ?_, hI.pop⟩
  · rw [hheld]; exact hI.card
  · rw [hheld]; exact hI.parked
  · apply hI.words_setPush hoff
    intro v hv
    exact hI.words p v (by simpa [hpc, word] using hv)
  · rw [writers_setPush hoff (by rw [hpc]; rfl)]
    exact hI.split
  · intro t hlo hhi hcount
    exact (hI.slots t hlo hhi hcount).setPush (sameSlot_refl _ _) (fun _ => rfl) hoff
      (fun hn => hn) (fun _ he => he) rfl

/-- The full check passes at a position within the window. -/
theorem Inv.accept (hI : Inv (s, h)) {e : Elem n} {w : UInt32} (hpc : s.push p = .ticketed e w)
    (hwin : h.ticket p < h.popped.length + s.cap) :
    Inv (s.setPush s.queue p (.claim e w), h.accept p e) := by
  have hoff : ∀ x, x ≠ p → (h.accept p e).ticket x = h.ticket x := fun _ _ => rfl
  -- the position moves from the undecided ones to the accepted ones
  have hheld : held (s.setPush s.queue p (.claim e w), h.accept p e) = held (s, h) := by
    have hsum := sum_push (s := s) inflight (.claim e w) hoff
    rw [hpc, inflight_ticketed, inflight_claim, add_zero] at hsum
    unfold held
    simp only [positions_accept, State.setPush]
    rw [add_assoc, add_comm {h.ticket p}, hsum]
  have hwriters : writers (s.setPush s.queue p (.claim e w), h.accept p e) =
      writers (s, h) + {(h.ticket p, e)} := by
    have hsum := sum_push (s := s) writing (.claim e w) hoff
    rw [hpc, writing_ticketed, writing_claim, add_zero] at hsum
    exact hsum
  refine ⟨hI.pow, hI.two, hI.mask, hI.writePos, hI.readPos, ?_, ?_, ?_, ?_, hI.popped, ?_, ?_,
    hI.pop⟩
  · rw [hheld]; exact hI.card
  · rw [hheld]; exact hI.parked
  · apply hI.words_setPush hoff
    intro v hv
    exact hI.words p v (by simpa [hpc, word] using hv)
  · rw [hwriters, ← add_assoc]
    show ((h.accepted ++ [(h.ticket p, e)] : List (ℕ × Elem n)) : Multiset (ℕ × Elem n)) = _
    rw [← Multiset.coe_add, Multiset.coe_singleton, hI.split]
    rfl
  · intro t ht
    rw [positions_accept, Multiset.mem_add, Multiset.mem_singleton] at ht
    rcases ht with ht | rfl
    · exact hI.window t ht
    · exact hwin
  · intro t hlo hhi hcount
    rw [positions_accept, Multiset.count_add] at hcount
    have hok : SlotOk (s, h) t :=
      hI.slots t hlo hhi (le_trans (Nat.le_add_right _ _) hcount)
    by_cases htp : h.ticket p = t
    · -- nobody was accepted at `t` before, so its slot is free
      have hfree : t ∉ h.positions := by
        rw [htp, Multiset.count_singleton_self] at hcount
        exact Multiset.count_eq_zero.mp (by omega)
      have hseq := hok.free hfree
      constructor
      · intro _; exact hseq
      · intro _ _ _ _ _; exact hseq
      · intro x e' w' d hx ht
        by_cases hxp : x = p
        · subst hxp; simp [State.setPush] at hx
        · simp only [State.setPush, Function.update_of_ne hxp] at hx
          exact hok.copy x e' w' d hx ht
      · intro e' he'; exact hok.ready e' he'
    · -- another position: nothing happens to its slot
      refine hok.setPush (sameSlot_refl _ _) (fun ht => absurd ht htp) hoff ?_ (fun _ he => he) rfl
      intro hn hmem
      exact hn (by rw [positions_accept]; exact Multiset.mem_add.mpr (Or.inl hmem))

theorem Inv.fetchSub (hI : Inv (s, h)) {w : UInt32} (hpc : s.push p = .rollback w) :
    Inv (s.setPush s.queue.fetchSub p .idle, h.giveBack) := by
  have hoff : ∀ x, x ≠ p → h.giveBack.ticket x = h.ticket x := fun _ _ => rfl
  -- one position less is held, and not the highest in general
  have hheld : held (s.setPush s.queue.fetchSub p .idle, h.giveBack) + {h.ticket p} =
      held (s, h) := by
    have hsum := sum_push (s := s) inflight .idle hoff
    rw [hpc, inflight_rollback, inflight_idle, add_zero] at hsum
    unfold held
    simp only [State.setPush, positions_giveBack]
    rw [add_assoc, hsum]
  have hcard : h.written = (held (s.setPush s.queue.fetchSub p .idle, h.giveBack)).card + 1 := by
    have := hI.card
    rwa [← hheld, Multiset.card_add, Multiset.card_singleton] at this
  refine ⟨hI.pow, hI.two, hI.mask, ?_, hI.readPos, ?_, ?_, ?_, ?_, hI.popped, hI.window, ?_, hI.pop⟩
  · -- the counter was not zero, so it does not wrap downwards
    show s.queue.writePos - 1 = UInt32.ofNat (h.written - 1)
    rw [hI.writePos]
    show UInt32.ofNat h.written - 1 = _
    rw [hcard, Wrap.ofNat_pred, Nat.add_sub_cancel]
  · show h.written - 1 = _
    omega
  · -- fewer positions are still parked
    apply hI.parked.mono
    rw [← hheld]
    exact Multiset.le_add_right _ _
  · apply hI.words_setPush hoff
    intro v hv
    simp [word] at hv
  · rw [writers_setPush hoff (by rw [hpc]; rfl)]
    exact hI.split
  · intro t hlo hhi hcount
    exact (hI.slots t hlo hhi hcount).setPush ⟨rfl, rfl, rfl, rfl⟩ (fun _ => rfl) hoff
      (fun hn => hn) (fun _ he => he) rfl

/-- Producer `p` is past the full check and stays there: what such a step must
    show is about the slots alone. -/
theorem Inv.writing_step (hI : Inv (s, h)) {q : SiLogMpscQueue n} {pc : PushPc n}
    (hcapacity : q.capacity = s.queue.capacity) (hmask : q.capacityMask = s.queue.capacityMask)
    (hwritePos : q.writePos = s.queue.writePos) (hreadPos : q.readPos = s.queue.readPos)
    (hinf : inflight pc (h.ticket p) = inflight (s.push p) (h.ticket p))
    (hwr : writing pc (h.ticket p) = writing (s.push p) (h.ticket p))
    (hword : word pc = word (s.push p))
    (hslots : ∀ t, h.popped.length ≤ t → t < h.popped.length + s.cap →
      h.positions.count t ≤ 1 → SlotOk (s.setPush q p pc, h) t) :
    Inv (s.setPush q p pc, h) := by
  have hcap : (s.setPush q p pc).cap = s.cap := by
    simp only [State.cap, State.setPush, hcapacity]
  have hheld : held (s.setPush q p pc, h) = held (s, h) := held_setPush rfl rfl hinf
  have hoff : ∀ x, x ≠ p → h.ticket x = h.ticket x := fun _ _ => rfl
  refine ⟨?_, ?_, ?_, ?_, ?_, ?_, ?_, ?_, ?_, hI.popped, ?_, ?_, hI.pop⟩
  · rw [hcap]; exact hI.pow
  · rw [hcap]; exact hI.two
  · show q.capacityMask = q.capacity - 1
    rw [hcapacity, hmask]; exact hI.mask
  · show q.writePos = _
    rw [hwritePos]; exact hI.writePos
  · show q.readPos = _
    rw [hreadPos]; exact hI.readPos
  · rw [hheld]; exact hI.card
  · rw [hheld]; exact hI.parked
  · apply hI.words_setPush hoff
    intro v hv
    exact hI.words p v (by rw [← hword]; exact hv)
  · rw [writers_setPush hoff hwr]; exact hI.split
  · rw [hcap]; exact hI.window
  · rw [hcap]; exact hslots

omit [DecidableEq ι] in
/-- The word of a call is its position. -/
theorem Inv.index_eq (hI : Inv (s, h)) {w : UInt32} (hw : word (s.push p) = some w) :
    s.queue.index w = s.queue.slot (h.ticket p) := by
  have hweq : w = UInt32.ofNat (h.ticket p) := hI.words p w hw
  rw [hweq]
  rfl

/-- A call alone at its position decides what the slot must hold. -/
theorem Inv.slotOk_alone (hI : Inv (s, h)) {e : Elem n} {q : SiLogMpscQueue n} {pc : PushPc n}
    {h' : History ι n} (hwr : writing (s.push p) (h.ticket p) = {(h.ticket p, e)})
    (hcount : h.positions.count (h.ticket p) ≤ 1)
    (hticket : h'.ticket = h.ticket) (hpos : h'.positions = h.positions)
    (hclaim : ∀ e' w, pc = .claim e' w → q.seq (q.slot (h.ticket p)) = UInt32.ofNat (h.ticket p))
    (hcopy : ∀ e' w d, pc = .copy e' w d →
      q.seq (q.slot (h.ticket p)) = UInt32.ofNat (h.ticket p + q.capacity.toNat) ∧
      ∀ b ∈ d, q.buffer (q.slot (h.ticket p)) b = e' b)
    (hready : ∀ e', (h.ticket p, e') ∈ h'.returnedOk → (h.ticket p, e') ∉ h.returnedOk →
      q.seq (q.slot (h.ticket p)) = readyMark (s.setPush q p pc, h') (h.ticket p) ∧
      q.buffer (q.slot (h.ticket p)) = e') :
    SlotOk (s.setPush q p pc, h') (h.ticket p) := by
  -- no other call in progress is at this position
  have hother : ∀ x e', x ≠ p → writing (s.push x) (h.ticket x) ≠ {(h.ticket p, e')} := by
    intro x e' hxp hxw
    have htwo : 2 ≤ h.positions.count (h.ticket p) := hI.two_of_writing hxp hxw hwr
    omega
  constructor
  · intro hn
    rw [hpos] at hn
    exact absurd (mem_positions (hI.writing_mem hwr)) hn
  · intro x e' w hx ht
    by_cases hxp : x = p
    · subst hxp
      simp only [State.setPush, Function.update_self] at hx
      exact hclaim e' w hx
    · simp only [State.setPush, Function.update_of_ne hxp, hticket] at hx ht
      exact absurd (by rw [hx, ht]; rfl) (hother x e' hxp)
  · intro x e' w d hx ht
    by_cases hxp : x = p
    · subst hxp
      simp only [State.setPush, Function.update_self] at hx
      exact hcopy e' w d hx
    · simp only [State.setPush, Function.update_of_ne hxp, hticket] at hx ht
      exact absurd (by rw [hx, ht]; rfl) (hother x e' hxp)
  · intro e' he'
    refine hready e' he' ?_
    intro hold
    -- nothing had returned here before: that would be a second call
    have htwo : 2 ≤ h.positions.count (h.ticket p) := hI.two_of_ok_writing hold hwr
    omega

omit [DecidableEq ι] in
/-- The slot of a position other than the one that `p` is writing. -/
theorem Inv.slot_ne (hI : Inv (s, h)) {e : Elem n} {t : ℕ}
    (hwr : writing (s.push p) (h.ticket p) = {(h.ticket p, e)})
    (hlo : h.popped.length ≤ t) (hhi : t < h.popped.length + s.cap) (htp : h.ticket p ≠ t) :
    s.queue.slot t ≠ s.queue.slot (h.ticket p) := fun heq =>
  htp (hI.slot_inj ⟨hlo, hhi⟩ ⟨hI.writing_ge hwr, hI.writing_lt hwr⟩ heq).symm

/-- The compare-exchange succeeds. -/
theorem Inv.cas_win (hI : Inv (s, h)) {e : Elem n} {w : UInt32} (hpc : s.push p = .claim e w) :
    Inv (s.setPush (s.queue.storeSeq (s.queue.index w) (w + s.queue.capacity)) p (.copy e w ∅),
      h) := by
  have hwr : writing (s.push p) (h.ticket p) = {(h.ticket p, e)} := by rw [hpc]; rfl
  have hweq : w = UInt32.ofNat (h.ticket p) := hI.words p w (by rw [hpc]; rfl)
  rw [hI.index_eq (by rw [hpc]; rfl)]
  refine hI.writing_step rfl rfl rfl rfl (by simp [hpc]) (by simp [hpc]) (by rw [hpc]; rfl) ?_
  intro t hlo hhi hcount
  by_cases htp : h.ticket p = t
  · subst htp
    refine hI.slotOk_alone hwr hcount rfl rfl (fun _ _ hx => by cases hx) ?_
      (fun _ hnew hold => absurd hnew hold)
    intro e' w' d hx
    obtain ⟨rfl, rfl, rfl⟩ := PushPc.copy.inj hx
    -- no byte is copied yet
    refine ⟨?_, fun b hb => absurd hb (Finset.notMem_empty b)⟩
    rw [slot_storeSeq, seq_storeSeq_self, hweq]
    exact add_capacity s _
  · exact (hI.slots t hlo hhi hcount).setPush
      ⟨rfl, rfl, seq_storeSeq_ne (hI.slot_ne hwr hlo hhi htp), rfl⟩
      (fun ht => absurd ht htp) (fun _ _ => rfl) (fun hn => hn) (fun _ he => he) rfl

omit [DecidableEq ι] in
/-- A call alone at its position finds its slot free. -/
theorem Inv.seq_claim (hI : Inv (s, h)) {e : Elem n} {w : UInt32} (hpc : s.push p = .claim e w)
    (hcount : h.positions.count (h.ticket p) ≤ 1) : s.queue.seq (s.queue.index w) = w := by
  have hwr : writing (s.push p) (h.ticket p) = {(h.ticket p, e)} := by rw [hpc]; rfl
  have hword : word (s.push p) = some w := by rw [hpc]; rfl
  have hweq : w = UInt32.ofNat (h.ticket p) := hI.words p w hword
  have hok := hI.slots (h.ticket p) (hI.writing_ge hwr) (hI.writing_lt hwr) hcount
  have hseq : s.queue.seq (s.queue.slot (h.ticket p)) = UInt32.ofNat (h.ticket p) :=
    hok.claim p e w hpc rfl
  rw [hI.index_eq hword, hseq, ← hweq]

omit [DecidableEq ι] in
/-- A word and the word one lap later differ. -/
theorem Inv.word_ne_lap (hI : Inv (s, h)) (t : ℕ) :
    UInt32.ofNat t ≠ UInt32.ofNat (t + s.cap) := by
  have htwo : 2 ≤ s.cap := hI.two
  have hlt : s.cap < 2 ^ 32 := hI.cap_lt
  exact Wrap.ofNat_ne (by omega) (by omega)

/-- The loop is left through `expected == desired`.  This needs two calls
    accepted at the position. -/
theorem Inv.cas_escape (hI : Inv (s, h)) {e : Elem n} {w : UInt32} (hpc : s.push p = .claim e w)
    (hesc : s.queue.seq (s.queue.index w) = w + s.queue.capacity) :
    Inv (s.setPush s.queue p (.copy e w ∅), h) := by
  have hweq : w = UInt32.ofNat (h.ticket p) := hI.words p w (by rw [hpc]; rfl)
  refine hI.writing_step rfl rfl rfl rfl (by simp [hpc]) (by simp [hpc]) (by rw [hpc]; rfl) ?_
  intro t hlo hhi hcount
  by_cases htp : h.ticket p = t
  · subst htp
    -- alone at its position it would have found the slot free
    have hseq := hI.seq_claim hpc hcount
    rw [hesc, hweq, add_capacity] at hseq
    exact absurd hseq.symm (hI.word_ne_lap _)
  · exact (hI.slots t hlo hhi hcount).setPush (sameSlot_refl _ _)
      (fun ht => absurd ht htp) (fun _ _ => rfl) (fun hn => hn) (fun _ he => he) rfl

omit [Fintype ι] in
/-- The compare-exchange fails and the loop goes round. -/
theorem setPush_self {pc : PushPc n} (hpc : s.push p = pc) : s.setPush s.queue p pc = s := by
  unfold State.setPush
  rw [← hpc, Function.update_eq_self]

theorem Inv.copyByte (hI : Inv (s, h)) {e : Elem n} {w : UInt32} {d : Finset (Fin n)}
    (b : Fin n) (hpc : s.push p = .copy e w d) :
    Inv (s.setPush (s.queue.writeByte (s.queue.index w) b e) p (.copy e w (insert b d)), h) := by
  have hwr : writing (s.push p) (h.ticket p) = {(h.ticket p, e)} := by rw [hpc]; rfl
  rw [hI.index_eq (by rw [hpc]; rfl)]
  refine hI.writing_step rfl rfl rfl rfl (by simp [hpc]) (by simp [hpc]) (by rw [hpc]; rfl) ?_
  intro t hlo hhi hcount
  by_cases htp : h.ticket p = t
  · subst htp
    refine hI.slotOk_alone hwr hcount rfl rfl (fun _ _ hx => by cases hx) ?_
      (fun _ hnew hold => absurd hnew hold)
    intro e' w' d' hx
    obtain ⟨rfl, rfl, rfl⟩ := PushPc.copy.inj hx
    obtain ⟨hseq, hbuf⟩ := (hI.slots _ hlo hhi hcount).copy p e w d hpc rfl
    refine ⟨hseq, ?_⟩
    intro b' hb'
    rw [slot_writeByte, buffer_writeByte_self]
    -- the byte just copied, and those copied before
    by_cases hbb : b' = b
    · rw [hbb, Function.update_self]
    · rw [Function.update_of_ne hbb]
      exact hbuf b' ((Finset.mem_insert.mp hb').resolve_left hbb)
  · exact (hI.slots t hlo hhi hcount).setPush
      ⟨rfl, rfl, rfl, buffer_writeByte_ne (hI.slot_ne hwr hlo hhi htp)⟩
      (fun ht => absurd ht htp) (fun _ _ => rfl) (fun hn => hn) (fun _ he => he) rfl

omit [DecidableEq ι] in
/-- A position that a call is writing is not one that the consumer is freeing: no
    call has returned for it. -/
theorem Inv.not_freed (hI : Inv (s, h)) {e : Elem n}
    (hwr : writing (s.push p) (h.ticket p) = {(h.ticket p, e)})
    (hcount : h.positions.count (h.ticket p) ≤ 1) :
    ¬ (h.ticket p = h.popped.length ∧ s.pop.freed = true) := by
  rintro ⟨hr, hf⟩
  have hpop := hI.pop
  unfold PopOk at hpop
  cases hp : s.pop with
  | idle => simp [hp, PopPc.freed] at hf
  | loaded _ _ => simp [hp, PopPc.freed] at hf
  | copy _ _ _ => simp [hp, PopPc.freed] at hf
  | advance read out =>
    simp only [hp] at hpop
    have hok : (h.ticket p, out) ∈ h.returnedOk := by rw [hr]; exact hpop.2
    have htwo : 2 ≤ h.positions.count (h.ticket p) := hI.two_of_ok_writing hok hwr
    omega

omit [DecidableEq ι] [Fintype ι] in
/-- What the consumer has found returned is returned still when more calls return. -/
theorem PopOk.mono {c c' : Config ι n} (hok : PopOk c) (hpop : c'.1.pop = c.1.pop)
    (hpopped : c'.2.popped = c.2.popped)
    (hmem : ∀ {x}, x ∈ c.2.returnedOk → x ∈ c'.2.returnedOk) : PopOk c' := by
  unfold PopOk at hok ⊢
  rw [hpop, hpopped]
  cases hp : c.1.pop with
  | idle => trivial
  | loaded _ _ =>
    simp only [hp] at hok
    exact hok
  | copy _ _ _ =>
    simp only [hp] at hok
    obtain ⟨hr, e', he', hb⟩ := hok
    exact ⟨hr, e', hmem he', hb⟩
  | advance _ _ =>
    simp only [hp] at hok
    exact ⟨hok.1, hmem hok.2⟩

theorem Inv.storeReady (hI : Inv (s, h)) {e : Elem n} {w : UInt32}
    (hpc : s.push p = .copy e w Finset.univ) :
    Inv (s.setPush (s.queue.storeSeq (s.queue.index w) (w + 1)) p .idle, h.returnOk p e) := by
  have hwr : writing (s.push p) (h.ticket p) = {(h.ticket p, e)} := by rw [hpc]; rfl
  have hweq : w = UInt32.ofNat (h.ticket p) := hI.words p w (by rw [hpc]; rfl)
  have hoff : ∀ x, x ≠ p → (h.returnOk p e).ticket x = h.ticket x := fun _ _ => rfl
  rw [hI.index_eq (by rw [hpc]; rfl)]
  set q := s.queue.storeSeq (s.queue.slot (h.ticket p)) (w + 1) with hq
  have hheld : held (s.setPush q p .idle, h.returnOk p e) = held (s, h) :=
    held_setPush rfl rfl (by simp [hpc])
  -- the call moves from the ones in progress to the ones that returned
  have hwriters : writers (s.setPush q p .idle, h.returnOk p e) + {(h.ticket p, e)} =
      writers (s, h) := by
    have hsum := sum_push (s := s) writing .idle hoff
    rw [hwr, writing_idle, add_zero] at hsum
    exact hsum
  have hmem : ∀ {x}, x ∈ h.returnedOk → x ∈ (h.returnOk p e).returnedOk :=
    fun hx => List.mem_append.mpr (Or.inl hx)
  refine ⟨hI.pow, hI.two, hI.mask, hI.writePos, hI.readPos, ?_, ?_, ?_, ?_, ?_, hI.window, ?_, ?_⟩
  · rw [hheld]; exact hI.card
  · rw [hheld]; exact hI.parked
  · apply hI.words_setPush hoff
    intro v hv
    simp [word] at hv
  · show (h.accepted : Multiset (ℕ × Elem n)) =
      ((h.returnedOk ++ [(h.ticket p, e)] : List (ℕ × Elem n)) : Multiset (ℕ × Elem n)) + _
    rw [← Multiset.coe_add, Multiset.coe_singleton, add_assoc, add_comm {(h.ticket p, e)}, hwriters]
    exact hI.split
  · intro i e' hi
    exact hmem (hI.popped i e' hi)
  · intro t hlo hhi hcount
    by_cases htp : h.ticket p = t
    · subst htp
      refine hI.slotOk_alone hwr hcount rfl rfl (fun _ _ hx => by cases hx)
        (fun _ _ _ hx => by cases hx) ?_
      intro e' hnew hold
      have he : e' = e := by
        rcases List.mem_append.mp hnew with hx | hx
        · exact absurd hx hold
        · exact (Prod.mk.inj (List.mem_singleton.mp hx)).2
      subst he
      -- all bytes are copied, so the slot holds the element
      obtain ⟨_, hbuf⟩ := (hI.slots _ hlo hhi hcount).copy p e' w _ hpc rfl
      refine ⟨?_, funext fun b => hbuf b (Finset.mem_univ b)⟩
      -- the consumer is not freeing this slot: nothing had returned for it
      have hnotfreed := hI.not_freed hwr hcount
      have hmark : readyMark (s.setPush q p .idle, h.returnOk p e') (h.ticket p) =
          UInt32.ofNat (h.ticket p + 1) := if_neg hnotfreed
      rw [hmark, hq, slot_storeSeq, seq_storeSeq_self, hweq, Wrap.ofNat_succ]
    · refine (hI.slots t hlo hhi hcount).setPush
        ⟨rfl, rfl, seq_storeSeq_ne (hI.slot_ne hwr hlo hhi htp), rfl⟩
        (fun ht => absurd ht htp) hoff (fun hn => hn) ?_ rfl
      intro e' he'
      rcases List.mem_append.mp he' with hx | hx
      · exact hx
      · exact absurd (Prod.mk.inj (List.mem_singleton.mp hx)).1.symm htp
  · exact hI.pop.mono rfl rfl hmem

end push

/-! ## Section 5: Steps of the consumer -/

section pop
variable [Fintype ι] {s : State ι n} {h : History ι n}

omit [DecidableEq ι] in
/-- A step of the consumer that stores nothing. -/
theorem Inv.setPop (hI : Inv (s, h)) {pc : PopPc n} (hold : s.pop.freed = false)
    (hnew : pc.freed = false) (hpop : PopOk (s.setPop s.queue pc, h)) :
    Inv (s.setPop s.queue pc, h) := by
  refine ⟨hI.pow, hI.two, hI.mask, hI.writePos, hI.readPos, hI.card, hI.parked, hI.words,
    hI.split, hI.popped, hI.window, ?_, hpop⟩
  intro t hlo hhi hcount
  refine (hI.slots t hlo hhi hcount).setPop (sameSlot_refl _ _) rfl rfl rfl ?_
  simp [readyMark, State.setPop, hold, hnew]

omit [DecidableEq ι] in
/-- **Publication.** The marker `read + 1` is only there once the call accepted
    at the position has returned. -/
theorem Inv.ready_of_seq (hI : Inv (s, h))
    (hseq : s.queue.seq (s.queue.slot h.popped.length) = UInt32.ofNat (h.popped.length + 1)) :
    ∃ e, (h.popped.length, e) ∈ h.returnedOk := by
  have hok : SlotOk (s, h) h.popped.length := hI.slot_next
  have htwo : 2 ≤ s.cap := hI.two
  have hlt : s.cap < 2 ^ 32 := hI.cap_lt
  have hne : UInt32.ofNat h.popped.length ≠ UInt32.ofNat (h.popped.length + 1) :=
    Wrap.ofNat_ne (by omega) (by omega)
  by_cases hpos : h.popped.length ∈ h.positions
  · obtain ⟨⟨t, e⟩, hx, rfl⟩ := List.mem_map.mp (Multiset.mem_coe.mp hpos)
    have hmem : (h.popped.length, e) ∈ (h.returnedOk : Multiset (ℕ × Elem n)) + writers (s, h) := by
      have hsplit := hI.split
      rw [← hsplit]
      exact Multiset.mem_coe.mpr hx
    rcases Multiset.mem_add.mp hmem with hret | hwr
    · exact ⟨e, Multiset.mem_coe.mp hret⟩
    · -- the call is still in progress: its marker is another one
      obtain ⟨p, _, hp⟩ := Multiset.mem_sum.mp hwr
      cases hpc : s.push p with
      | idle => simp [hpc] at hp
      | ticketed _ _ => simp [hpc] at hp
      | rollback _ => simp [hpc] at hp
      | claim e' w =>
        simp only [hpc, writing_claim, Multiset.mem_singleton, Prod.mk.injEq] at hp
        have hfree := hok.claim p e' w hpc hp.1.symm
        exact absurd (hfree.symm.trans hseq) hne
      | copy e' w d =>
        simp only [hpc, writing_copy, Multiset.mem_singleton, Prod.mk.injEq] at hp
        have hbusy := (hok.copy p e' w d hpc hp.1.symm).1
        exact absurd (hseq.symm.trans hbusy) (Wrap.ofNat_ne (by show _ < _ + s.cap; omega)
          (by show _ + s.cap < _; omega))
  · exact absurd ((hok.free hpos).symm.trans hseq) hne

omit [DecidableEq ι] in
theorem Inv.popLoadRead (hI : Inv (s, h)) (out : Elem n) (hpc : s.pop = .idle) :
    Inv (s.setPop s.queue (.loaded s.queue.readPos out), h) :=
  hI.setPop (by rw [hpc]; rfl) rfl hI.readPos

omit [DecidableEq ι] in
/-- `Pop` finds the queue empty. -/
theorem Inv.popEmpty (hI : Inv (s, h)) {read : UInt32} {out : Elem n}
    (hpc : s.pop = .loaded read out) : Inv (s.setPop s.queue .idle, h) :=
  hI.setPop (by rw [hpc]; rfl) rfl trivial

omit [DecidableEq ι] in
/-- `Pop` finds an element. -/
theorem Inv.popReady (hI : Inv (s, h)) {read : UInt32} {out : Elem n}
    (hpc : s.pop = .loaded read out)
    (hseq : s.queue.seq (s.queue.index read) = read + 1) :
    Inv (s.setPop s.queue (.copy read out ∅), h) := by
  have hread : read = UInt32.ofNat h.popped.length := by
    have hpop := hI.pop
    simpa only [PopOk, hpc] using hpop
  rw [hread, Wrap.ofNat_succ] at hseq
  obtain ⟨e, he⟩ := hI.ready_of_seq hseq
  exact hI.setPop (by rw [hpc]; rfl) rfl
    ⟨hread, e, he, fun b hb => absurd hb (Finset.notMem_empty b)⟩

omit [DecidableEq ι] in
/-- While the consumer copies, the slot holds the element of the call that
    returned for its position. -/
theorem Inv.popCopy (hI : Inv (s, h)) {read : UInt32} {out : Elem n} {d : Finset (Fin n)}
    (hpc : s.pop = .copy read out d) :
    read = UInt32.ofNat h.popped.length ∧
    ∃ e, (h.popped.length, e) ∈ h.returnedOk ∧ (∀ b ∈ d, out b = e b) ∧
      s.queue.buffer (s.queue.index read) = e := by
  have hpop := hI.pop
  simp only [PopOk, hpc] at hpop
  obtain ⟨hread, e, he, hout⟩ := hpop
  refine ⟨hread, e, he, hout, ?_⟩
  have hok : SlotOk (s, h) h.popped.length := hI.slot_next
  rw [hread]
  exact (hok.ready e he).2

omit [DecidableEq ι] in
theorem Inv.popCopyByte (hI : Inv (s, h)) {read : UInt32} {out : Elem n} {d : Finset (Fin n)}
    (b : Fin n) (hpc : s.pop = .copy read out d) :
    Inv (s.setPop s.queue
      (.copy read (Function.update out b (s.queue.buffer (s.queue.index read) b)) (insert b d)),
      h) := by
  obtain ⟨hread, e, he, hout, hbuf⟩ := hI.popCopy hpc
  refine hI.setPop (by rw [hpc]; rfl) rfl ⟨hread, e, he, ?_⟩
  intro b' hb'
  -- the slot holds the element `e` while the consumer copies it
  by_cases hbb : b' = b
  · rw [hbb, Function.update_self, hbuf]
  · rw [Function.update_of_ne hbb]
    exact hout b' ((Finset.mem_insert.mp hb').resolve_left hbb)

omit [DecidableEq ι] in
theorem Inv.popStoreSeq (hI : Inv (s, h)) {read : UInt32} {out : Elem n}
    (hpc : s.pop = .copy read out Finset.univ) :
    Inv (s.setPop (s.queue.storeSeq (s.queue.index read) (read + s.queue.capacity))
      (.advance read out), h) := by
  obtain ⟨hread, e, he, hout, hbuf⟩ := hI.popCopy hpc
  -- the copy is complete
  have hout' : out = e := funext fun b => hout b (Finset.mem_univ b)
  subst hout'
  have hindex : s.queue.index read = s.queue.slot h.popped.length := by rw [hread]; rfl
  have htwo : 2 ≤ s.cap := hI.two
  refine ⟨hI.pow, hI.two, hI.mask, hI.writePos, hI.readPos, hI.card, hI.parked, hI.words,
    hI.split, hI.popped, hI.window, ?_, ⟨hread, he⟩⟩
  intro t hlo hhi hcount
  have hok : SlotOk (s, h) t := hI.slots t hlo hhi hcount
  rw [hindex]
  by_cases htr : t = h.popped.length
  · subst htr
    have hmem : h.popped.length ∈ h.positions := mem_positions (hI.mem_accepted he)
    -- the call at this position has returned, so no other is in progress there
    have hother : ∀ x e', writing (s.push x) (h.ticket x) ≠ {(h.popped.length, e')} := by
      intro x e' hxw
      have htwo' : 2 ≤ h.positions.count h.popped.length := hI.two_of_ok_writing he hxw
      have hcount' : h.positions.count h.popped.length ≤ 1 := hcount
      omega
    constructor
    · intro hn; exact absurd hmem hn
    · intro x e' w hx ht
      have hx' : s.push x = .claim e' w := hx
      exact absurd (by rw [hx', ← ht]; rfl) (hother x e')
    · intro x e' w d hx ht
      have hx' : s.push x = .copy e' w d := hx
      exact absurd (by rw [hx', ← ht]; rfl) (hother x e')
    · intro e' he'
      refine ⟨?_, (hok.ready e' he').2⟩
      show (s.queue.storeSeq _ _).seq (s.queue.slot h.popped.length) = readyMark _ _
      rw [seq_storeSeq_self, hread]
      simp only [readyMark, State.setPop, PopPc.freed, and_self, if_true]
      exact add_capacity s _
  · have hne : s.queue.slot t ≠ s.queue.slot h.popped.length := fun heq =>
      htr (hI.slot_inj ⟨hlo, hhi⟩ ⟨le_refl _, Nat.lt_add_of_pos_right (by show 0 < s.cap; omega)⟩ heq)
    refine hok.setPop ⟨rfl, rfl, seq_storeSeq_ne hne, rfl⟩ rfl rfl rfl ?_
    simp [readyMark, State.setPop, htr]

omit [DecidableEq ι] in
theorem Inv.popStoreRead (hI : Inv (s, h)) {read : UInt32} {out : Elem n}
    (hpc : s.pop = .advance read out) :
    Inv (s.setPop (s.queue.storeRead (read + 1)) .idle, h.pop out) := by
  have hpop := hI.pop
  simp only [PopOk, hpc] at hpop
  obtain ⟨hread, hret⟩ := hpop
  have hlen : (h.pop out).popped.length = h.popped.length + 1 := by
    simp [History.pop]
  refine ⟨hI.pow, hI.two, hI.mask, hI.writePos, ?_, hI.card, hI.parked, hI.words, hI.split,
    ?_, ?_, ?_, trivial⟩
  · rw [hlen, hread]
    exact Wrap.ofNat_succ _
  · intro i e hi
    have hi' : (h.popped ++ [out])[i]? = some e := hi
    rw [List.getElem?_append] at hi'
    split at hi'
    · exact hI.popped i e hi'
    · -- the element just popped
      next hge =>
      obtain ⟨hzero, hout⟩ := List.getElem?_eq_some_iff.mp hi'
      simp only [List.length_singleton] at hzero
      have hieq : i = h.popped.length := by omega
      simp only [hieq, Nat.sub_self, List.getElem_cons_zero] at hout
      rw [hieq, ← hout]
      exact hret
  · intro t ht
    rw [hlen]
    have hlt : t < h.popped.length + s.cap := hI.window t ht
    show t < _ + s.cap
    omega
  · intro t hlo hhi hcount
    rw [hlen] at hlo hhi
    have hhi' : t < h.popped.length + 1 + s.cap := hhi
    by_cases htop : t = h.popped.length + s.cap
    · -- the slot just freed, one lap later; nobody is accepted at it yet
      have hnot : t ∉ h.positions := fun hm => by
        have hlt : t < h.popped.length + s.cap := hI.window t hm
        omega
      have hslot : s.queue.slot t = s.queue.slot h.popped.length := by
        rw [htop]; exact hI.slot_lap _
      have hseq : s.queue.seq (s.queue.slot t) = UInt32.ofNat t := by
        have hok : SlotOk (s, h) h.popped.length := hI.slot_next
        have hmark := (hok.ready out hret).1
        rw [hslot, htop]
        simpa [readyMark, hpc, PopPc.freed] using hmark
      have hwr : ∀ x e', writing (s.push x) (h.ticket x) ≠ {(t, e')} := fun x e' hxw =>
        hnot (mem_positions (hI.writing_mem hxw))
      constructor
      · intro _; exact hseq
      · intro _ _ _ _ _; exact hseq
      · intro x e' w d hx ht
        have hx' : s.push x = .copy e' w d := hx
        exact absurd (by rw [hx', ← ht]; rfl) (hwr x e')
      · intro e' he'
        exact absurd (mem_positions (hI.mem_accepted he')) hnot
    · refine (hI.slots t (by show h.popped.length ≤ t; omega)
        (by show t < h.popped.length + s.cap; omega) hcount).setPop ⟨rfl, rfl, rfl, rfl⟩ rfl rfl rfl ?_
      have hne : t ≠ h.popped.length := by omega
      simp [readyMark, State.setPop, PopPc.freed, hne]

end pop

/-! ## Section 6: The invariant along runs -/

/-- The full check of `p` accepts its position now. -/
def Accepts (c : Config ι n) (p : ι) : Prop :=
  ∃ e w, c.1.push p = .ticketed e w ∧ c.1.queue.hasRoom w

/-- The full check of `p` rejects its position now. -/
def Rejects (c : Config ι n) (p : ι) : Prop :=
  ∃ e w, c.1.push p = .ticketed e w ∧ ¬ c.1.queue.hasRoom w

/-- The word of a call that is at its full check. -/
def PushPc.checked : PushPc n → Option UInt32
  | .ticketed _ write => some write
  | _ => none

theorem ticketed_iff {pc : PushPc n} {P : UInt32 → Prop} :
    (∃ w ∈ pc.checked, P w) ↔ ∃ e w, pc = .ticketed e w ∧ P w := by
  cases pc with
  | ticketed e w => simp [PushPc.checked]
  | _ => simp [PushPc.checked]

instance (c : Config ι n) (p : ι) : Decidable (Accepts c p) :=
  decidable_of_iff (∃ w ∈ (c.1.push p).checked, c.1.queue.hasRoom w) ticketed_iff

instance (c : Config ι n) (p : ι) : Decidable (Rejects c p) :=
  decidable_of_iff (∃ w ∈ (c.1.push p).checked, ¬ c.1.queue.hasRoom w) ticketed_iff

/-- A position that the full check accepts is less than `capacity` ahead of
    the consumer, counted without the wrap. -/
def NoLap (c : Config ι n) (a : Act ι n) : Prop :=
  ∀ p, a = .loadRead p → Accepts c p → c.2.ticket p < c.2.popped.length + c.1.cap

section run
variable [Fintype ι] {c c' : Config ι n}

/-- Every step that meets `NoLap` keeps the invariant. -/
theorem Inv.step {a : Act ι n} (hI : Inv c) (hlap : NoLap c a) (hstep : Step c a c') : Inv c' := by
  obtain ⟨s, h⟩ := c
  cases a with
  | fetchAdd p e =>
    obtain ⟨hpc, rfl⟩ := step_fetchAdd hstep
    exact hI.fetchAdd e hpc
  | loadRead p =>
    obtain ⟨e, w, hpc, ⟨hroom, rfl⟩ | ⟨_, rfl⟩⟩ := step_loadRead hstep
    · exact hI.accept hpc (hlap p rfl ⟨e, w, hpc, hroom⟩)
    · exact hI.reject hpc
  | fetchSub p =>
    obtain ⟨w, hpc, rfl⟩ := step_fetchSub hstep
    exact hI.fetchSub hpc
  | cas p spurious =>
    obtain ⟨e, w, hpc, ⟨_, rfl⟩ | ⟨hesc, rfl⟩ | rfl⟩ := step_cas hstep
    · exact hI.cas_win hpc
    · exact hI.cas_escape hpc hesc
    · rw [setPush_self hpc]
      exact hI
  | copyByte p b =>
    obtain ⟨e, w, d, hpc, rfl⟩ := step_copyByte hstep
    exact hI.copyByte b hpc
  | storeReady p =>
    obtain ⟨e, w, hpc, rfl⟩ := step_storeReady hstep
    exact hI.storeReady hpc
  | popLoadRead out =>
    obtain ⟨hpc, rfl⟩ := step_popLoadRead hstep
    exact hI.popLoadRead out hpc
  | popLoadSeq =>
    obtain ⟨read, out, hpc, ⟨_, rfl⟩ | ⟨hseq, rfl⟩⟩ := step_popLoadSeq hstep
    · exact hI.popEmpty hpc
    · exact hI.popReady hpc hseq
  | popCopyByte b =>
    obtain ⟨read, out, d, hpc, rfl⟩ := step_popCopyByte hstep
    exact hI.popCopyByte b hpc
  | popStoreSeq =>
    obtain ⟨read, out, hpc, rfl⟩ := step_popStoreSeq hstep
    exact hI.popStoreSeq hpc
  | popStoreRead =>
    obtain ⟨read, out, hpc, rfl⟩ := step_popStoreRead hstep
    exact hI.popStoreRead hpc

omit [DecidableEq ι] [Fintype ι] in
/-- What `SilogMpscQueueInit` sets up when it returns `SILOG_OK`. -/
theorem init_ok {capacity : UInt32} {mem : Option (UInt32 → Elem n)} {seqOk : Bool}
    {q : SiLogMpscQueue n} (hinit : silogMpscQueueInit capacity mem seqOk = .ok q) :
    (∃ j, capacity.toNat = 2 ^ j) ∧
    ∃ bytes, q = { buffer := bytes, capacity := capacity, writePos := 0, readPos := 0,
                   seq := fun i => i, capacityMask := capacity - 1 } := by
  unfold silogMpscQueueInit at hinit
  split at hinit
  · cases hinit
  · next hne =>
    split at hinit
    · cases hinit
    · next hand =>
      split at hinit
      · cases hinit
      · next bytes =>
        split at hinit
        · cases hinit
        · refine ⟨?_, bytes, (Except.ok.inj hinit).symm⟩
          have hzero : capacity.toNat ≠ 0 := fun h0 =>
            hne (Or.inr (UInt32.toNat_inj.mp h0))
          have hle : (1 : UInt32) ≤ capacity := by
            rw [UInt32.le_iff_toNat_le]
            exact Nat.one_le_iff_ne_zero.mpr hzero
          -- the test of the code is the usual one for powers of two
          have hnat : capacity.toNat &&& (capacity.toNat - 1) = 0 := by
            have := congrArg UInt32.toNat (not_not.mp hand)
            rwa [UInt32.toNat_and, UInt32.toNat_sub_of_le _ _ hle] at this
          exact (Nat.and_sub_one_eq_zero_iff_isPowerOfTwo hzero).mp hnat

omit [DecidableEq ι] in
/-- The invariant holds right after `SilogMpscQueueInit`. -/
theorem inv_init {capacity : UInt32} {mem : Option (UInt32 → Elem n)} {seqOk : Bool}
    {q : SiLogMpscQueue n} (hinit : silogMpscQueueInit capacity mem seqOk = .ok q)
    (hcap : 2 ≤ capacity) : Inv (initConfig q : Config ι n) := by
  obtain ⟨⟨j, hj⟩, bytes, rfl⟩ := init_ok hinit
  refine ⟨⟨j, hj⟩, ?_, rfl, rfl, rfl, ?_, ?_, ?_, ?_, ?_, ?_, ?_, trivial⟩
  · exact UInt32.le_iff_toNat_le.mp hcap
  · simp [initConfig, held, History.positions]
  · simp only [initConfig, held, History.positions, List.map_nil, inflight_idle,
      Finset.sum_const_zero, add_zero]
    exact parked_zero
  · intro p w hw
    simp [initConfig, word] at hw
  · simp [initConfig, writers]
  · intro i e hi
    simp [initConfig] at hi
  · intro t ht
    simp [initConfig, History.positions] at ht
  · intro t _ hhi _
    -- at the beginning each marker is the index of its slot
    have hlt : t < capacity.toNat := by simpa [initConfig, State.cap] using hhi
    constructor
    · intro _
      exact Wrap.slot_of_lt hj hlt
    · intro p e w hx
      simp [initConfig] at hx
    · intro p e w d hx
      simp [initConfig] at hx
    · intro e he
      simp [initConfig] at he

/-- Every run that meets `NoLap` keeps the invariant. -/
theorem Inv.run {acts : List (Act ι n)} (hrun : Steps (Guarded Step NoLap) c acts c')
    (hI : Inv c) : Inv c' :=
  hrun.invariant (fun _ _ _ hR hI => hI.step hR.2 hR.1) hI

end run

end SiLog.Mpsc
