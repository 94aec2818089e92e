import SiLog.Mpsc.NoLoss

/-! # Calls one after the other

    `SilogMpscQueuePush` and `SilogMpscQueuePop` when no other call runs at
    the same time.  The queue is then a bounded FIFO list: `Holds q r es`
    says that the queue `q` stores the elements `es`, the first of them at
    position `r`.  Positions are counted without the wrap, so the relation
    does not see the words wrap around.

    The weak compare-exchange may fail spuriously.  A call of `Push` is
    given the list of the turns of its loop, `true` for a spurious failure;
    the call returns as soon as one turn is not spurious.
-/

open Lts

namespace SiLog.Mpsc

variable {n : ℕ}

/-! ## Section 1: The calls -/

/-- `memcpy_s` into slot `i`. -/
def SiLogMpscQueue.writeElem (q : SiLogMpscQueue n) (i : UInt32) (e : Elem n) :
    SiLogMpscQueue n :=
  { q with buffer := Function.update q.buffer i e }

/-- The compare-exchange loop of `Push`; `none` if it is still looping after
    the given turns. -/
def casLoop (q : SiLogMpscQueue n) (e : Elem n) (write : UInt32) :
    List Bool → Option (SiLogMpscQueue n)
  | [] => none
  | spurious :: turns =>
    match casTurn q e write spurious with
    | (q', .copy _ _ _) => some q'
    | (q', _) => casLoop q' e write turns

/-- `SilogMpscQueuePush` from its call to its return, when nothing else runs;
    `none` if its loop is still running after the given turns. -/
def silogMpscQueuePush (q : SiLogMpscQueue n) (e : Elem n) (turns : List Bool) :
    Option (ErrorCode × SiLogMpscQueue n) :=
  let write := q.writePos
  let q₁ := q.fetchAdd
  if ¬ q₁.hasRoom write then some (.transQueueFull, q₁.fetchSub)
  else (casLoop q₁ e write turns).map fun q₂ =>
    let index := q₂.index write
    (.ok, (q₂.writeElem index e).storeSeq index (write + 1))

/-- A call on the queue. -/
inductive Call (n : ℕ) where
  | push : Elem n → List Bool → Call n
  | pop  : Call n

/-- Some turn of the loop of `Push` does not fail spuriously. -/
def Call.Fair : Call n → Prop
  | .push _ turns => false ∈ turns
  | .pop => True

/-- What a call returns: the code and, for a `Pop` that returns `SILOG_OK`, the
    element. -/
abbrev Return (n : ℕ) : Type := ErrorCode × Option (Elem n)

def SiLogMpscQueue.call (q : SiLogMpscQueue n) : Call n → Option (Return n × SiLogMpscQueue n)
  | .push e turns => (silogMpscQueuePush q e turns).map fun r => ((r.1, none), r.2)
  | .pop =>
    let r := silogMpscQueuePop q
    some ((r.1, r.2.1), r.2.2)

/-- The abstract queue: a list of at most `cap` elements. -/
def fifoCall (cap : ℕ) (es : List (Elem n)) : Call n → Option (Return n × List (Elem n))
  | .push e _ =>
    if es.length < cap then some ((.ok, none), es ++ [e])
    else some ((.transQueueFull, none), es)
  | .pop =>
    match es with
    | [] => some ((.transQueueEmpty, none), [])
    | e :: es => some ((.ok, some e), es)

/-! ## Section 2: The representation relation -/

/-- The queue stores `es` from position `r` on and all its other slots are free. -/
structure Holds (q : SiLogMpscQueue n) (r : ℕ) (es : List (Elem n)) : Prop where
  run      : ReadyRun q r es
  writePos : q.writePos = UInt32.ofNat (r + es.length)
  free     : ∀ i, es.length ≤ i → i < q.capacity.toNat →
    q.seq (q.slot (r + i)) = UInt32.ofNat (r + i)

section holds
variable {q : SiLogMpscQueue n} {r : ℕ} {es : List (Elem n)}

theorem Holds.cap_pos (hH : Holds q r es) : 0 < q.capacity.toNat := by
  obtain ⟨j, hj⟩ := hH.run.pow
  rw [hj]
  exact Nat.two_pow_pos j

/-- Two positions of the window have different slots. -/
theorem Holds.slot_ne (hH : Holds q r es) {i k : ℕ} (hi : i < q.capacity.toNat)
    (hk : k < q.capacity.toNat) (hne : i ≠ k) : q.slot (r + i) ≠ q.slot (r + k) := by
  obtain ⟨j, hj⟩ := hH.run.pow
  unfold SiLogMpscQueue.slot SiLogMpscQueue.index
  rw [hH.run.mask]
  intro heq
  have := Wrap.slot_inj hj (r := r) ⟨Nat.le_add_right _ _, by omega⟩
    ⟨Nat.le_add_right _ _, by omega⟩ heq
  omega

/-- The full check compares the number of stored elements with the capacity. -/
theorem Holds.hasRoom_iff (hH : Holds q r es) :
    q.fetchAdd.hasRoom q.writePos ↔ es.length < q.capacity.toNat := by
  show q.writePos - q.readPos < q.capacity ↔ _
  have hlt : es.length < 2 ^ 32 := lt_of_le_of_lt hH.run.le q.capacity.toNat_lt
  rw [hH.writePos, hH.run.readPos, Wrap.word_sub_lt (Nat.le_add_right r _), Nat.add_sub_cancel_left,
    Nat.mod_eq_of_lt hlt]

/-- The slot for the next element is free, so the loop leaves at the first turn
    that is not spurious, with the slot claimed. -/
theorem Holds.casLoop (hH : Holds q r es) (hlt : es.length < q.capacity.toNat) (e : Elem n)
    {turns : List Bool} (hfair : false ∈ turns) :
    casLoop q.fetchAdd e q.writePos turns =
      some (q.fetchAdd.storeSeq (q.slot (r + es.length))
        (UInt32.ofNat (r + es.length + q.capacity.toNat))) := by
  have hseq : q.fetchAdd.seq (q.fetchAdd.index q.writePos) = q.writePos := by
    rw [hH.writePos]
    exact hH.free es.length (le_refl _) hlt
  have hdesired : q.writePos + q.capacity = UInt32.ofNat (r + es.length + q.capacity.toNat) := by
    rw [hH.writePos, Wrap.ofNat_add_word]
  have hne : q.writePos ≠ q.writePos + q.capacity := by
    rw [hdesired, hH.writePos]
    exact Wrap.ofNat_ne (by have := hH.cap_pos; omega)
      (by have := q.capacity.toNat_lt; omega)
  induction turns with
  | nil => cases hfair
  | cons spurious turns ih =>
    cases spurious with
    | false =>
      -- the marker is `write`: the exchange succeeds
      have hturn : casTurn q.fetchAdd e q.writePos false =
          (q.fetchAdd.storeSeq (q.fetchAdd.index q.writePos) (q.writePos + q.capacity),
            .copy e q.writePos ∅) := if_pos ⟨hseq, rfl⟩
      rw [Mpsc.casLoop, hturn, hdesired, hH.writePos]
      rfl
    | true =>
      -- a spurious failure reads `write`, which is not `desired`
      have hturn : casTurn q.fetchAdd e q.writePos true = (q.fetchAdd, .claim e q.writePos) := by
        unfold casTurn
        rw [if_neg (fun h => Bool.noConfusion h.2), if_neg]
        rw [hseq]
        exact hne
      rw [Mpsc.casLoop, hturn]
      exact ih (by simpa using hfair)

/-- A `Push` into a queue with room returns `SILOG_OK` and appends. -/
theorem Holds.push_ok (hH : Holds q r es) (hlt : es.length < q.capacity.toNat) (e : Elem n)
    {turns : List Bool} (hfair : false ∈ turns) :
    ∃ q', silogMpscQueuePush q e turns = some (.ok, q') ∧ q'.capacity = q.capacity ∧
      Holds q' r (es ++ [e]) := by
  -- the slot is claimed, filled and marked ready; nothing else changes
  let q₂ := q.fetchAdd.storeSeq (q.slot (r + es.length))
    (UInt32.ofNat (r + es.length + q.capacity.toNat))
  let q' := (q₂.writeElem (q.slot (r + es.length)) e).storeSeq (q.slot (r + es.length))
    (UInt32.ofNat (r + es.length + 1))
  have hindex : q₂.index q.writePos = q.slot (r + es.length) := by rw [hH.writePos]; rfl
  have hother : ∀ i, i < q.capacity.toNat → i ≠ es.length →
      q'.seq (q.slot (r + i)) = q.seq (q.slot (r + i)) ∧
      q'.buffer (q.slot (r + i)) = q.buffer (q.slot (r + i)) := by
    intro i hi hne
    have hslot := hH.slot_ne hi hlt hne
    exact ⟨(seq_storeSeq_ne hslot).trans (seq_storeSeq_ne hslot),
      Function.update_of_ne hslot _ _⟩
  refine ⟨q', ?_, rfl, ?_⟩
  · unfold silogMpscQueuePush
    rw [if_neg (not_not.mpr (hH.hasRoom_iff.mpr hlt)), hH.casLoop hlt e hfair, Option.map_some]
    show some (ErrorCode.ok, (q₂.writeElem (q₂.index q.writePos) e).storeSeq
      (q₂.index q.writePos) (q.writePos + 1)) = some (ErrorCode.ok, q')
    rw [hindex, hH.writePos, Wrap.ofNat_succ]
  have hfree : ∀ i, (es ++ [e]).length ≤ i → i < q.capacity.toNat →
      q'.seq (q.slot (r + i)) = UInt32.ofNat (r + i) := by
    intro i hlo hhi
    rw [List.length_append, List.length_singleton] at hlo
    rw [(hother i hhi (by omega)).1]
    exact hH.free i (by omega) hhi
  refine ⟨⟨hH.run.pow, hH.run.mask, hH.run.readPos, ?_, ?_, ?_⟩, ?_, hfree⟩
  · rw [List.length_append, List.length_singleton]
    exact hlt
  · intro i e' hi
    show q'.seq (q.slot (r + i)) = _ ∧ q'.buffer (q.slot (r + i)) = _
    rcases Nat.lt_or_ge i es.length with hlo | hge
    · rw [List.getElem?_append_left hlo] at hi
      obtain ⟨hseq, hbuf⟩ := hother i (by omega) (by omega)
      rw [hseq, hbuf]
      exact hH.run.ready i e' hi
    · -- the new element
      have hieq : i = es.length := by
        have := (List.getElem?_eq_some_iff.mp hi).1
        rw [List.length_append, List.length_singleton] at this
        omega
      subst hieq
      rw [List.getElem?_concat_length] at hi
      cases hi
      exact ⟨seq_storeSeq_self _ _ _, Function.update_self _ _ _⟩
  · intro hroom
    have hseq := hfree _ (le_refl _) hroom
    show q'.seq (q.slot (r + (es ++ [e]).length)) ≠ _
    rw [hseq]
    exact Wrap.ofNat_ne (by omega) (by omega)
  · show q.writePos + 1 = _
    rw [hH.writePos, Wrap.ofNat_succ, List.length_append, List.length_singleton, Nat.add_assoc]

/-- A `Push` into a full queue takes a position and gives it back. -/
theorem Holds.push_full (hH : Holds q r es) (hfull : ¬ es.length < q.capacity.toNat) (e : Elem n)
    (turns : List Bool) : silogMpscQueuePush q e turns = some (.transQueueFull, q) := by
  unfold silogMpscQueuePush
  rw [if_pos (fun hroom => hfull (hH.hasRoom_iff.mp hroom))]
  have hback : q.fetchAdd.fetchSub = q := by
    show { q with writePos := q.writePos + 1 - 1 } = q
    rw [UInt32.add_sub_cancel]
  rw [hback]

/-- A `Pop` of a queue that is not empty returns its head. -/
theorem Holds.pop_ok {e : Elem n} (hH : Holds q r (e :: es)) :
    ∃ q', silogMpscQueuePop q = (.ok, some e, q') ∧ q'.capacity = q.capacity ∧
      Holds q' (r + 1) es := by
  refine ⟨_, hH.run.pop_eq, rfl, hH.run.popped, ?_, ?_⟩
  · show q.writePos = _
    rw [hH.writePos, List.length_cons]
    congr 1
    omega
  · intro i hlo hhi
    have hhi' : i < q.capacity.toNat := hhi
    have hassoc : r + 1 + i = r + (i + 1) := by omega
    rw [hassoc, hH.run.seq_popped (by omega) hhi']
    split
    · next hlt => exact hH.free (i + 1) (by simpa using hlo) hlt
    · rfl

/-- Each call does what the list does, and a call that is refused changes nothing. -/
theorem Holds.call (hH : Holds q r es) {c : Call n} (hfair : c.Fair) :
    ∃ o q' es' r', q.call c = some (o, q') ∧
      fifoCall q.capacity.toNat es c = some (o, es') ∧
      q'.capacity = q.capacity ∧ Holds q' r' es' ∧ (o.1 ≠ .ok → q' = q) := by
  cases c with
  | push e turns =>
    by_cases hlt : es.length < q.capacity.toNat
    · obtain ⟨q', hpush, hcap, hH'⟩ := hH.push_ok hlt e hfair
      refine ⟨(.ok, none), q', es ++ [e], r, ?_, if_pos hlt, hcap, hH', fun h => absurd rfl h⟩
      rw [SiLogMpscQueue.call, hpush, Option.map_some]
    · refine ⟨(.transQueueFull, none), q, es, r, ?_, if_neg hlt, rfl, hH, fun _ => rfl⟩
      rw [SiLogMpscQueue.call, hH.push_full hlt, Option.map_some]
  | pop =>
    cases es with
    | nil =>
      refine ⟨(.transQueueEmpty, none), q, [], r, ?_, rfl, rfl, hH, fun _ => rfl⟩
      rw [SiLogMpscQueue.call, hH.run.pop_nil]
    | cons e es =>
      obtain ⟨q', hpop, hcap, hH'⟩ := hH.pop_ok
      refine ⟨(.ok, some e), q', es, r + 1, ?_, rfl, hcap, hH', fun h => absurd rfl h⟩
      rw [SiLogMpscQueue.call, hpop]

end holds

/-- `SilogMpscQueueInit` sets up the empty queue. -/
theorem holds_init {capacity : UInt32} {mem : Option (UInt32 → Elem n)} {seqOk : Bool}
    {q : SiLogMpscQueue n} (hinit : silogMpscQueueInit capacity mem seqOk = .ok q) :
    q.capacity = capacity ∧ Holds q 0 [] := by
  obtain ⟨⟨j, hj⟩, bytes, rfl⟩ := init_ok hinit
  have hfree : ∀ i, i < capacity.toNat →
      UInt32.ofNat (0 + i) &&& (capacity - 1) = UInt32.ofNat (0 + i) := by
    intro i hi
    rw [Nat.zero_add]
    exact Wrap.slot_of_lt hj hi
  refine ⟨rfl, ⟨⟨j, hj⟩, rfl, rfl, Nat.zero_le _, ?_, ?_⟩, rfl, fun i _ hi => hfree i hi⟩
  · intro i e hi
    cases hi
  · intro hlt
    have hne : UInt32.ofNat (0 + 0) ≠ UInt32.ofNat (0 + 0 + 1) := by decide
    exact ne_of_eq_of_ne (hfree 0 hlt) hne

/-! ## Section 3: The queue is a bounded FIFO list -/

/-- **FIFO refinement.** From `SilogMpscQueueInit` on, any sequence of calls
    returns (the compare-exchange loops end) and returns what the list of at
    most `capacity` elements returns; after it, a call that does not return
    `SILOG_OK` leaves the queue as it is. -/
theorem silogMpscQueue_refines_fifo {capacity : UInt32} {mem : Option (UInt32 → Elem n)}
    {seqOk : Bool} {q : SiLogMpscQueue n}
    (hinit : silogMpscQueueInit capacity mem seqOk = .ok q) {calls : List (Call n)}
    (hfair : ∀ c ∈ calls, c.Fair) :
    ∃ returns q' es, outputs SiLogMpscQueue.call q calls = some (returns, q') ∧
      outputs (fifoCall capacity.toNat) [] calls = some (returns, es) ∧
      es.length ≤ capacity.toNat ∧
      ∀ c : Call n, c.Fair → ∃ o q'', q'.call c = some (o, q'') ∧ (o.1 ≠ .ok → q'' = q') := by
  obtain ⟨hcap, hH⟩ := holds_init hinit
  -- the calls of the code and of the list run side by side
  obtain ⟨returns, q', es, hq, hes, hcap', r, hH'⟩ :=
    outputs_of_simulation (f := SiLogMpscQueue.call) (g := fifoCall capacity.toNat)
      (P := Call.Fair) (r := fun q es => q.capacity = capacity ∧ ∃ r, Holds q r es)
      (by
        rintro q es c hc ⟨hcap, r, hH⟩
        obtain ⟨o, q', es', r', hcall, hlist, hsame, hH', _⟩ := hH.call hc
        exact ⟨o, q', es', hcall, hcap ▸ hlist, hsame.trans hcap, r', hH'⟩)
      ⟨hcap, 0, hH⟩ hfair
  refine ⟨returns, q', es, hq, hes, hcap' ▸ hH'.run.le, fun c hc => ?_⟩
  obtain ⟨o, q'', _, _, hcall, _, _, _, hkeep⟩ := hH'.call hc
  exact ⟨o, q'', hcall, hkeep⟩

/-- Three pushes into a queue of two slots, with a spurious failure, and three pops. -/
def pairCalls : List (Call 1) :=
  [.push (fun _ => 10) [true, false], .push (fun _ => 20) [false], .push (fun _ => 30) [false],
   .pop, .pop, .pop]

theorem silogMpscQueue_refines_fifo_pair :
    (outputs SiLogMpscQueue.call pairQueue pairCalls).map Prod.fst =
      some [(.ok, none), (.ok, none), (.transQueueFull, none),
        (.ok, some fun _ => 10), (.ok, some fun _ => 20), (.transQueueEmpty, none)] := by
  have hfair : ∀ c ∈ pairCalls, c.Fair := by simp [pairCalls, Call.Fair]
  obtain ⟨returns, q', es, hq, hes, _, _⟩ := silogMpscQueue_refines_fifo pairQueue_init hfair
  have hlist : outputs (fifoCall 2) [] pairCalls =
      some ([(.ok, none), (.ok, none), (.transQueueFull, none),
        (.ok, some fun _ => 10), (.ok, some fun _ => 20), (.transQueueEmpty, none)], []) := rfl
  have hsame := Option.some.inj (hes.symm.trans hlist)
  rw [hq, Option.map_some]
  exact congrArg (fun r => some r.1) hsame

/-! ## Section 4: An uninterrupted call is a run of its steps

    The functions above are the steps of one thread taken in a row. -/

section interleaving
variable {ι : Type*} [DecidableEq ι] {s : State ι n} {h : History ι n} {p : ι}

/-- A producer that moves twice is where its second move takes it. -/
@[simp] theorem setPush_setPush (q q' : SiLogMpscQueue n) (pc pc' : PushPc n) :
    (s.setPush q p pc).setPush q' p pc' = s.setPush q' p pc' := by
  simp [State.setPush]

omit [DecidableEq ι] in
@[simp] theorem setPop_setPop (q q' : SiLogMpscQueue n) (pc pc' : PopPc n) :
    (s.setPop q pc).setPop q' pc' = s.setPop q' pc' := rfl

@[simp] theorem push_setPush_self (q : SiLogMpscQueue n) (pc : PushPc n) :
    (s.setPush q p pc).push p = pc := by
  simp [State.setPush]

/-- The bytes `bs` of `e` over those of `d`. -/
def overlay (e d : Elem n) (bs : List (Fin n)) : Elem n := fun b => if b ∈ bs then e b else d b

@[simp] theorem overlay_nil (e d : Elem n) : overlay e d [] = d := by
  funext b
  simp [overlay]

theorem overlay_finRange (e d : Elem n) : overlay e d (List.finRange n) = e := by
  funext b
  simp [overlay]

theorem overlay_cons (e d : Elem n) (b : Fin n) (bs : List (Fin n)) :
    overlay e (Function.update d b (e b)) bs = overlay e d (b :: bs) := by
  funext b'
  by_cases hb : b' = b
  · subst hb
    simp [overlay]
  · simp [overlay, hb]

/-- `memcpy_s` of `Push`, byte by byte. -/
theorem steps_copy (e : Elem n) (w : UInt32) {bs : List (Fin n)} (hnd : bs.Nodup)
    (q : SiLogMpscQueue n) {d : Finset (Fin n)} (hd : ∀ b ∈ bs, b ∉ d) :
    Steps Step (s.setPush q p (.copy e w d), h) (bs.map (Act.copyByte p))
      (s.setPush (q.writeElem (q.index w) (overlay e (q.buffer (q.index w)) bs)) p
        (.copy e w (d ∪ bs.toFinset)), h) := by
  induction bs generalizing q d with
  | nil =>
    have hsame : q.writeElem (q.index w) (overlay e (q.buffer (q.index w)) []) = q := by
      simp [SiLogMpscQueue.writeElem]
    rw [hsame, List.toFinset_nil, Finset.union_empty]
    exact Steps.nil _
  | cons b bs ih =>
    obtain ⟨hb, hnd⟩ := List.nodup_cons.mp hnd
    have hstep : Step (s.setPush q p (.copy e w d), h) (.copyByte p b)
        (s.setPush (q.writeByte (q.index w) b e) p (.copy e w (insert b d)), h) := by
      refine ⟨?_, rfl⟩
      simp only [step, pushStep, push_setPush_self, if_neg (hd b List.mem_cons_self),
        setPush_setPush]
      rfl
    have hrest := ih hnd (q.writeByte (q.index w) b e) (d := insert b d) (by
      intro b' hb'
      rw [Finset.mem_insert, not_or]
      exact ⟨fun heq => hb (heq ▸ hb'), hd b' (List.mem_cons_of_mem b hb')⟩)
    -- the slot of the position does not move, and its bytes go on from what was copied
    have hindex : (q.writeByte (q.index w) b e).index w = q.index w := rfl
    have hqueue : (q.writeByte (q.index w) b e).writeElem (q.index w)
        (overlay e ((q.writeByte (q.index w) b e).buffer (q.index w)) bs) =
        q.writeElem (q.index w) (overlay e (q.buffer (q.index w)) (b :: bs)) := by
      rw [buffer_writeByte_self, overlay_cons]
      simp [SiLogMpscQueue.writeElem, SiLogMpscQueue.writeByte]
    have hdone : insert b d ∪ bs.toFinset = d ∪ (b :: bs).toFinset := by
      rw [List.toFinset_cons, Finset.insert_union, Finset.union_insert]
    rw [hindex, hqueue, hdone] at hrest
    exact Steps.cons _ _ hstep hrest

omit [DecidableEq ι] in
/-- A turn leaves the loop, or does nothing. -/
theorem casTurn_cases (q : SiLogMpscQueue n) (e : Elem n) (w : UInt32) (spurious : Bool) :
    (∃ q', casTurn q e w spurious = (q', .copy e w ∅)) ∨
    casTurn q e w spurious = (q, .claim e w) := by
  simp only [casTurn]
  split
  · exact Or.inl ⟨_, rfl⟩
  · split
    · exact Or.inl ⟨_, rfl⟩
    · exact Or.inr rfl

/-- The steps of `Push` between the first and the last. -/
def Act.inPush : Act ι n → Bool
  | .loadRead _ | .cas _ _ | .copyByte _ _ => true
  | _ => false

/-- The turns of the loop, one after the other. -/
theorem steps_casLoop {q q' : SiLogMpscQueue n} {e : Elem n} {w : UInt32} {turns : List Bool}
    (hloop : casLoop q e w turns = some q') :
    ∃ acts, Steps Step (s.setPush q p (.claim e w), h) acts (s.setPush q' p (.copy e w ∅), h) ∧
      ∀ a ∈ acts, a.inPush := by
  induction turns with
  | nil => cases hloop
  | cons spurious turns ih =>
    have hstep : ∀ q₁ pc, casTurn q e w spurious = (q₁, pc) →
        Step (s.setPush q p (.claim e w), h) (.cas p spurious) (s.setPush q₁ p pc, h) := by
      intro q₁ pc hturn
      refine ⟨?_, rfl⟩
      have hqueue : (s.setPush q p (.claim e w)).queue = q := rfl
      simp only [step, pushStep, push_setPush_self, hqueue, hturn, setPush_setPush]
    rw [casLoop] at hloop
    -- claimed, left through the escape, or once more
    rcases casTurn_cases q e w spurious with ⟨q₁, hturn⟩ | hturn
    · rw [hturn] at hloop
      cases hloop
      exact ⟨_, Steps.single (hstep _ _ hturn), by simp [Act.inPush]⟩
    · rw [hturn] at hloop
      obtain ⟨acts, hrest, hin⟩ := ih hloop
      exact ⟨_, Steps.cons _ _ (hstep _ _ hturn) hrest, List.forall_mem_cons.mpr ⟨rfl, hin⟩⟩

/-- An uninterrupted `Push`: its first step, those in between, and its last one. -/
theorem steps_push {e : Elem n} {turns : List Bool} {code : ErrorCode} {q' : SiLogMpscQueue n}
    (hidle : s.push p = .idle) (hpush : silogMpscQueuePush s.queue e turns = some (code, q')) :
    ∃ c₁ mid c₂ h', Step (s, h) (.fetchAdd p e) c₁ ∧ Steps Step c₁ mid c₂ ∧
      (∀ a ∈ mid, a.inPush) ∧
      Step c₂ (if code = .ok then .storeReady p else .fetchSub p) (s.setPush q' p .idle, h') ∧
      h'.popped = h.popped ∧
      h'.returnedOk.map Prod.snd =
        h.returnedOk.map Prod.snd ++ if code = .ok then [e] else [] := by
  have hissue : Step (s, h) (.fetchAdd p e)
      (s.setPush s.queue.fetchAdd p (.ticketed e s.queue.writePos), h.issue p) := by
    refine ⟨?_, rfl⟩
    simp only [step, pushStep, hidle]
  unfold silogMpscQueuePush at hpush
  by_cases hroom : s.queue.fetchAdd.hasRoom s.queue.writePos
  · rw [if_neg (not_not.mpr hroom), Option.map_eq_some_iff] at hpush
    obtain ⟨q₂, hloop, hret⟩ := hpush
    obtain ⟨rfl, rfl⟩ := Prod.mk.inj hret
    set w := s.queue.writePos
    have hcheck : Step (s.setPush s.queue.fetchAdd p (.ticketed e w), h.issue p) (.loadRead p)
        (s.setPush s.queue.fetchAdd p (.claim e w), (h.issue p).accept p e) := by
      have hqueue : (s.setPush s.queue.fetchAdd p (.ticketed e w)).queue = s.queue.fetchAdd := rfl
      constructor
      · simp only [step, pushStep, push_setPush_self, hqueue, if_pos hroom, setPush_setPush]
      · simp only [observe, push_setPush_self, hqueue, if_pos hroom]
    obtain ⟨turnActs, hturns, hturnIn⟩ :=
      steps_casLoop (s := s) (h := (h.issue p).accept p e) (p := p) hloop
    have hcopy := steps_copy (s := s) (h := (h.issue p).accept p e) (p := p) e w
      (List.nodup_finRange n) q₂ (d := ∅) (fun b _ => Finset.notMem_empty b)
    have hall : ∅ ∪ (List.finRange n).toFinset = (Finset.univ : Finset (Fin n)) := by
      rw [Finset.empty_union, List.toFinset_finRange]
    rw [overlay_finRange, hall] at hcopy
    have hready : Step (s.setPush (q₂.writeElem (q₂.index w) e) p (.copy e w Finset.univ),
          (h.issue p).accept p e) (.storeReady p)
        (s.setPush ((q₂.writeElem (q₂.index w) e).storeSeq (q₂.index w) (w + 1)) p .idle,
          ((h.issue p).accept p e).returnOk p e) := by
      constructor
      · simp only [step, pushStep, push_setPush_self, if_true, setPush_setPush]
        rfl
      · simp only [observe, push_setPush_self]
    refine ⟨_, _, _, _, hissue, Steps.cons _ _ hcheck (hturns.append hcopy), ?_, hready, rfl, ?_⟩
    · intro a ha
      rcases List.mem_cons.mp ha with rfl | ha
      · rfl
      · rcases List.mem_append.mp ha with ha | ha
        · exact hturnIn a ha
        · obtain ⟨b, _, rfl⟩ := List.mem_map.mp ha
          rfl
    · simp [History.returnOk, History.accept, History.issue]
  · rw [if_pos hroom] at hpush
    obtain ⟨rfl, rfl⟩ := Prod.mk.inj (Option.some.inj hpush)
    set w := s.queue.writePos
    have hcheck : Step (s.setPush s.queue.fetchAdd p (.ticketed e w), h.issue p) (.loadRead p)
        (s.setPush s.queue.fetchAdd p (.rollback w), h.issue p) := by
      have hqueue : (s.setPush s.queue.fetchAdd p (.ticketed e w)).queue = s.queue.fetchAdd := rfl
      constructor
      · simp only [step, pushStep, push_setPush_self, hqueue, if_neg hroom, setPush_setPush]
      · simp only [observe, push_setPush_self, hqueue, if_neg hroom]
    have hback : Step (s.setPush s.queue.fetchAdd p (.rollback w), h.issue p) (.fetchSub p)
        (s.setPush s.queue.fetchAdd.fetchSub p .idle, (h.issue p).giveBack) := by
      refine ⟨?_, rfl⟩
      simp only [step, pushStep, push_setPush_self, setPush_setPush]
      rfl
    refine ⟨_, _, _, _, hissue, Steps.single hcheck, by simp [Act.inPush], hback, rfl, ?_⟩
    simp [History.giveBack, History.issue]

/-- `memcpy_s` of `Pop`, byte by byte. -/
theorem steps_popCopy (w : UInt32) {bs : List (Fin n)} (hnd : bs.Nodup) (q : SiLogMpscQueue n)
    (out : Elem n) {d : Finset (Fin n)} (hd : ∀ b ∈ bs, b ∉ d) :
    Steps Step (s.setPop q (.copy w out d), h) (bs.map Act.popCopyByte)
      (s.setPop q (.copy w (overlay (q.buffer (q.index w)) out bs) (d ∪ bs.toFinset)), h) := by
  induction bs generalizing out d with
  | nil =>
    rw [overlay_nil, List.toFinset_nil, Finset.union_empty]
    exact Steps.nil _
  | cons b bs ih =>
    obtain ⟨hb, hnd⟩ := List.nodup_cons.mp hnd
    have hstep : Step (s.setPop q (.copy w out d), h) (.popCopyByte b)
        (s.setPop q (.copy w (Function.update out b (q.buffer (q.index w) b)) (insert b d)), h) := by
      refine ⟨?_, rfl⟩
      have hpop : (s.setPop q (.copy w out d)).pop = .copy w out d := rfl
      simp only [step, popStep, hpop, if_neg (hd b List.mem_cons_self), setPop_setPop]
      rfl
    have hrest := ih hnd (Function.update out b (q.buffer (q.index w) b)) (d := insert b d) (by
      intro b' hb'
      rw [Finset.mem_insert, not_or]
      exact ⟨fun heq => hb (heq ▸ hb'), hd b' (List.mem_cons_of_mem b hb')⟩)
    have hdone : insert b d ∪ bs.toFinset = d ∪ (b :: bs).toFinset := by
      rw [List.toFinset_cons, Finset.insert_union, Finset.union_insert]
    rw [overlay_cons, hdone] at hrest
    exact Steps.cons _ _ hstep hrest

/-- An uninterrupted `Pop` of a ready slot, whatever is in the caller's buffer: it
    loads the position and the marker, copies, and moves on. -/
theorem steps_pop_ok {e : Elem n} {q' : SiLogMpscQueue n} (out : Elem n) (hidle : s.pop = .idle)
    (hpop : silogMpscQueuePop s.queue = (.ok, some e, q')) :
    ∃ (w : UInt32) (q₂ : SiLogMpscQueue n) (mid : List (Fin n)),
      Step (s, h) (.popLoadRead out) (s.setPop s.queue (.loaded w out), h) ∧
      Step (s.setPop s.queue (.loaded w out), h) .popLoadSeq
        (s.setPop s.queue (.copy w out ∅), h) ∧
      Steps Step (s.setPop s.queue (.copy w out ∅), h) (mid.map .popCopyByte)
        (s.setPop s.queue (.copy w e Finset.univ), h) ∧
      Step (s.setPop s.queue (.copy w e Finset.univ), h) .popStoreSeq
        (s.setPop q₂ (.advance w e), h) ∧
      Step (s.setPop q₂ (.advance w e), h) .popStoreRead (s.setPop q' .idle, h.pop e) := by
  set w := s.queue.readPos with hw
  have hload : Step (s, h) (.popLoadRead out) (s.setPop s.queue (.loaded w out), h) := by
    refine ⟨?_, rfl⟩
    simp only [step, popStep, hidle, hw]
  have hloaded : (s.setPop s.queue (.loaded w out)).pop = .loaded w out := rfl
  have hqueue : (s.setPop s.queue (.loaded w out)).queue = s.queue := rfl
  unfold silogMpscQueuePop at hpop
  have hseq : s.queue.seq (s.queue.index w) = w + 1 := by
    by_contra hne
    simp only [← hw, ne_eq, hne, not_false_eq_true, if_true] at hpop
    cases hpop
  simp only [← hw, hseq, ne_eq, not_true_eq_false, if_false] at hpop
  obtain ⟨_, hpair⟩ := Prod.mk.inj hpop
  obtain ⟨he, rfl⟩ := Prod.mk.inj hpair
  cases he
  have hcheck : Step (s.setPop s.queue (.loaded w out), h) .popLoadSeq
      (s.setPop s.queue (.copy w out ∅), h) := by
    refine ⟨?_, rfl⟩
    simp only [step, popStep, hloaded, hqueue, hseq, ne_eq, not_true_eq_false, if_false,
      setPop_setPop]
  have hcopy := steps_popCopy (s := s) (h := h) w (List.nodup_finRange n) s.queue out (d := ∅)
    (fun b _ => Finset.notMem_empty b)
  have hall : ∅ ∪ (List.finRange n).toFinset = (Finset.univ : Finset (Fin n)) := by
    rw [Finset.empty_union, List.toFinset_finRange]
  rw [overlay_finRange, hall] at hcopy
  set e := s.queue.buffer (s.queue.index w)
  have hfree : Step (s.setPop s.queue (.copy w e Finset.univ), h) .popStoreSeq
      (s.setPop (s.queue.storeSeq (s.queue.index w) (w + s.queue.capacity)) (.advance w e), h) := by
    refine ⟨?_, rfl⟩
    have hpc : (s.setPop s.queue (.copy w e Finset.univ)).pop = .copy w e Finset.univ := rfl
    simp only [step, popStep, hpc, if_true, setPop_setPop]
    rfl
  exact ⟨w, _, _, hload, hcheck, hcopy, hfree, rfl, rfl⟩

/-- An uninterrupted `Pop` that finds the next slot not ready. -/
theorem steps_pop_empty {o : Option (Elem n)} {q' : SiLogMpscQueue n} (out : Elem n)
    (hidle : s.pop = .idle) (hpop : silogMpscQueuePop s.queue = (.transQueueEmpty, o, q')) :
    ∃ w, Step (s, h) (.popLoadRead out) (s.setPop s.queue (.loaded w out), h) ∧
      Step (s.setPop s.queue (.loaded w out), h) .popLoadSeq (s.setPop q' .idle, h) := by
  set w := s.queue.readPos with hw
  have hloaded : (s.setPop s.queue (.loaded w out)).pop = .loaded w out := rfl
  have hqueue : (s.setPop s.queue (.loaded w out)).queue = s.queue := rfl
  unfold silogMpscQueuePop at hpop
  have hseq : s.queue.seq (s.queue.index w) ≠ w + 1 := by
    intro heq
    simp only [← hw, heq, ne_eq, not_true_eq_false, if_false] at hpop
    cases hpop
  simp only [← hw, hseq, ne_eq, not_false_eq_true, if_true] at hpop
  obtain ⟨_, hpair⟩ := Prod.mk.inj hpop
  obtain ⟨_, rfl⟩ := Prod.mk.inj hpair
  refine ⟨w, ⟨?_, rfl⟩, ?_, rfl⟩
  · simp only [step, popStep, hidle, hw]
  · simp only [step, popStep, hloaded, hqueue, hseq, ne_eq, not_false_eq_true, if_true,
      setPop_setPop]

end interleaving

end SiLog.Mpsc
