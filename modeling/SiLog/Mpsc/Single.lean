import SiLog.Mpsc.Sequential

/-! # One producer

    The daemon's receive thread is the only producer of `logQueue`, and the
    file manager guards the pushes into `compressQueue` with its lock.  With
    one producer the positions are issued one after the other, so that no
    position is overtaken: the accepted elements are the positions
    `0, 1, 2, …` in the order of the run, and a position that is given back
    is the last one issued.  The queue is then a FIFO that loses nothing,
    under every interleaving with the consumer.
-/

open Lts

namespace SiLog.Mpsc

variable {n : ℕ} {c c' : Config Unit n}

/-! ## Section 1: The invariant -/

/-- The number of `Push` calls that returned `SILOG_OK`. -/
def History.oks {ι : Type*} (h : History ι n) : ℕ := h.returnedOk.length

/-- How the history stands at each point of the producer. -/
def Phase (pc : PushPc n) (h : History Unit n) : Prop :=
  match pc with
  | .idle => h.written = h.oks ∧ h.accepted = h.returnedOk
  | .ticketed _ _ | .rollback _ =>
    h.written = h.oks + 1 ∧ h.ticket () = h.oks ∧ h.accepted = h.returnedOk
  | .claim e _ | .copy e _ _ =>
    h.written = h.oks + 1 ∧ h.ticket () = h.oks ∧ h.accepted = h.returnedOk ++ [(h.oks, e)]

/-- The calls returned in the order of their positions, without a gap. -/
structure SingleInv (c : Config Unit n) : Prop where
  few   : FewInv c
  order : c.2.returnedOk.map Prod.fst = List.range c.2.oks
  phase : Phase (c.1.push ()) c.2

theorem SingleInv.step {a : Act Unit n} (hS : SingleInv c) (hstep : Step c a c') :
    SingleInv c' := by
  have hfew := hS.few.step hstep
  have horder := hS.order
  have hphase := hS.phase
  cases a with
  | fetchAdd p e =>
    obtain ⟨hpc, rfl⟩ := step_fetchAdd hstep
    rw [hpc] at hphase
    refine ⟨hfew, horder, ?_⟩
    rw [push_setPush_self]
    have hticket : (c.2.issue p).ticket () = c.2.written := by simp [History.issue]
    exact ⟨congrArg (· + 1) hphase.1, hticket.trans hphase.1, hphase.2⟩
  | loadRead p =>
    obtain ⟨e, w, hpc, ⟨_, rfl⟩ | ⟨_, rfl⟩⟩ := step_loadRead hstep
    · rw [hpc] at hphase
      obtain ⟨hw, ht, ha⟩ := hphase
      refine ⟨hfew, horder, ?_⟩
      rw [push_setPush_self]
      refine ⟨hw, ht, ?_⟩
      show c.2.accepted ++ [(c.2.ticket (), e)] = _
      rw [ht, ha]
      rfl
    · rw [hpc] at hphase
      refine ⟨hfew, horder, ?_⟩
      rw [push_setPush_self]
      exact hphase
  | fetchSub p =>
    obtain ⟨w, hpc, rfl⟩ := step_fetchSub hstep
    rw [hpc] at hphase
    refine ⟨hfew, horder, ?_⟩
    rw [push_setPush_self]
    -- the position given back is the last one issued
    exact ⟨congrArg (· - 1) hphase.1, hphase.2.2⟩
  | cas p spurious =>
    obtain ⟨e, w, hpc, ⟨_, rfl⟩ | ⟨_, rfl⟩ | rfl⟩ := step_cas hstep <;>
      rw [hpc] at hphase <;>
      refine ⟨hfew, horder, ?_⟩ <;>
      rw [push_setPush_self] <;>
      exact hphase
  | copyByte p b =>
    obtain ⟨e, w, d, hpc, rfl⟩ := step_copyByte hstep
    rw [hpc] at hphase
    refine ⟨hfew, horder, ?_⟩
    rw [push_setPush_self]
    exact hphase
  | storeReady p =>
    obtain ⟨e, w, hpc, rfl⟩ := step_storeReady hstep
    rw [hpc] at hphase
    obtain ⟨hw, ht, ha⟩ := hphase
    have hlen : (c.2.returnOk () e).oks = c.2.oks + 1 := by
      simp [History.oks, History.returnOk]
    have hret : (c.2.returnOk () e).returnedOk = c.2.returnedOk ++ [(c.2.oks, e)] := by
      show c.2.returnedOk ++ [(c.2.ticket (), e)] = _
      rw [ht]
    refine ⟨hfew, ?_, ?_⟩
    · show (c.2.returnOk () e).returnedOk.map Prod.fst = List.range (c.2.returnOk () e).oks
      rw [hlen, hret, List.map_append, List.range_succ, horder]
      rfl
    · rw [push_setPush_self]
      exact ⟨hw.trans hlen.symm, ha.trans hret.symm⟩
  | popLoadRead out =>
    obtain ⟨_, rfl⟩ := step_popLoadRead hstep
    exact ⟨hfew, horder, hphase⟩
  | popLoadSeq =>
    obtain ⟨_, _, _, ⟨_, rfl⟩ | ⟨_, rfl⟩⟩ := step_popLoadSeq hstep <;>
      exact ⟨hfew, horder, hphase⟩
  | popCopyByte b =>
    obtain ⟨_, _, _, _, rfl⟩ := step_popCopyByte hstep
    exact ⟨hfew, horder, hphase⟩
  | popStoreSeq =>
    obtain ⟨_, _, _, rfl⟩ := step_popStoreSeq hstep
    exact ⟨hfew, horder, hphase⟩
  | popStoreRead =>
    obtain ⟨_, _, _, rfl⟩ := step_popStoreRead hstep
    exact ⟨hfew, horder, hphase⟩

theorem singleInv_init {capacity : UInt32} {mem : Option (UInt32 → Elem n)} {seqOk : Bool}
    {q : SiLogMpscQueue n} (hinit : silogMpscQueueInit capacity mem seqOk = .ok q)
    (hcap : 2 ≤ capacity) : SingleInv (initConfig q) where
  few := fewInv_init hinit hcap (by
    have := capacity.toNat_lt
    rw [Fintype.card_unit]
    omega)
  order := rfl
  phase := ⟨rfl, rfl⟩

/-! ## Section 2: The elements in order -/

/-- The elements of the calls that returned `SILOG_OK`, in order. -/
def History.pushed {ι : Type*} (h : History ι n) : List (Elem n) := h.returnedOk.map Prod.snd

theorem length_pushed (h : History Unit n) : h.pushed.length = h.oks := by
  simp [History.pushed, History.oks]

/-- The call at position `t` is the `t`-th that returned. -/
theorem SingleInv.pushed_of_mem (hS : SingleInv c) {t : ℕ} {e : Elem n}
    (hmem : (t, e) ∈ c.2.returnedOk) : c.2.pushed[t]? = some e := by
  obtain ⟨i, hi⟩ := List.getElem?_of_mem hmem
  have hfst : (c.2.returnedOk.map Prod.fst)[i]? = some t := by rw [List.getElem?_map, hi]; rfl
  rw [hS.order] at hfst
  obtain ⟨hlt, hval⟩ := List.getElem?_eq_some_iff.mp hfst
  rw [List.getElem_range] at hval
  subst hval
  rw [History.pushed, List.getElem?_map, hi]
  rfl

theorem SingleInv.mem_of_pushed (hS : SingleInv c) {t : ℕ} {e : Elem n}
    (hget : c.2.pushed[t]? = some e) : (t, e) ∈ c.2.returnedOk := by
  rw [History.pushed, List.getElem?_map, Option.map_eq_some_iff] at hget
  obtain ⟨⟨u, e'⟩, hi, rfl⟩ := hget
  have hfst : (c.2.returnedOk.map Prod.fst)[t]? = some u := by rw [List.getElem?_map, hi]; rfl
  rw [hS.order] at hfst
  obtain ⟨hlt, hval⟩ := List.getElem?_eq_some_iff.mp hfst
  rw [List.getElem_range] at hval
  subst hval
  exact List.mem_of_getElem? hi

theorem SingleInv.popped_isPrefix (hS : SingleInv c) : c.2.popped <+: c.2.pushed := by
  rw [List.prefix_iff_getElem?]
  intro i hi
  exact hS.pushed_of_mem (hS.few.inv.popped i _ (List.getElem?_eq_getElem hi))

/-! ## Section 3: Positions -/

/-- The accepted positions: those of the calls that returned and, past the full
    check, the next one. -/
theorem SingleInv.positions (hS : SingleInv c) :
    c.2.positions = Multiset.range c.2.oks ∨
    (∃ e w, c.1.push () = .claim e w ∨ ∃ d, c.1.push () = .copy e w d) ∧
      c.2.ticket () = c.2.oks ∧ c.2.positions = Multiset.range (c.2.oks + 1) := by
  have hphase := hS.phase
  have hrange : (c.2.returnedOk.map Prod.fst : Multiset ℕ) = Multiset.range c.2.oks := by
    rw [hS.order]
    rfl
  have hsame : c.2.accepted = c.2.returnedOk → c.2.positions = Multiset.range c.2.oks := by
    intro ha
    rw [History.positions, ha, hrange]
  have hmore : ∀ e, c.2.accepted = c.2.returnedOk ++ [(c.2.oks, e)] →
      c.2.positions = Multiset.range (c.2.oks + 1) := by
    intro e ha
    rw [History.positions, ha, List.map_append, hS.order, List.map_singleton, ← List.range_succ]
    rfl
  cases hpc : c.1.push () with
  | idle =>
    rw [hpc] at hphase
    exact Or.inl (hsame hphase.2)
  | ticketed e w =>
    rw [hpc] at hphase
    exact Or.inl (hsame hphase.2.2)
  | rollback w =>
    rw [hpc] at hphase
    exact Or.inl (hsame hphase.2.2)
  | claim e w =>
    rw [hpc] at hphase
    exact Or.inr ⟨⟨e, w, Or.inl rfl⟩, hphase.2.1, hmore e hphase.2.2⟩
  | copy e w d =>
    rw [hpc] at hphase
    exact Or.inr ⟨⟨e, w, Or.inr ⟨d, rfl⟩⟩, hphase.2.1, hmore e hphase.2.2⟩

theorem SingleInv.nodup (hS : SingleInv c) : c.2.positions.Nodup := by
  rcases hS.positions with heq | ⟨_, _, heq⟩ <;> rw [heq] <;> exact Multiset.nodup_range _

theorem SingleInv.slotOk (hS : SingleInv c) {t : ℕ} (hlo : c.2.popped.length ≤ t)
    (hhi : t < c.2.popped.length + c.1.cap) : SlotOk c t :=
  hS.few.inv.slots t hlo hhi (Multiset.nodup_iff_count_le_one.mp hS.nodup t)

/-- At most `capacity` accepted elements are waiting. -/
theorem SingleInv.oks_le (hS : SingleInv c) : c.2.oks ≤ c.2.popped.length + c.1.cap := by
  by_contra hlt
  have hmem : c.2.oks - 1 ∈ c.2.positions := by
    rcases hS.positions with heq | ⟨_, _, heq⟩ <;> rw [heq, Multiset.mem_range] <;> omega
  have := hS.few.inv.window _ hmem
  omega

/-! ## Section 4: What the consumer finds -/

/-- The slot after the last accepted element is not ready, wherever the producer is. -/
theorem SingleInv.stop (hS : SingleInv c) (hlo : c.2.popped.length ≤ c.2.oks)
    (hhi : c.2.oks < c.2.popped.length + c.1.cap) :
    c.1.queue.seq (c.1.queue.slot c.2.oks) ≠ UInt32.ofNat (c.2.oks + 1) := by
  have hslot := hS.slotOk hlo hhi
  have hfree : UInt32.ofNat c.2.oks ≠ UInt32.ofNat (c.2.oks + 1) :=
    Wrap.ofNat_ne (by omega) (by omega)
  rcases hS.positions with heq | ⟨⟨e, w, hpc | ⟨d, hpc⟩⟩, ht, _⟩
  · rw [hslot.free (by rw [heq]; exact Multiset.notMem_range_self)]
    exact hfree
  · rw [hslot.claim () e w hpc ht]
    exact hfree
  · -- during the copy the marker is a lap ahead, which is not one ahead
    rw [(hslot.copy () e w d hpc ht).1]
    have htwo := hS.few.inv.two
    have hlt := hS.few.inv.cap_lt
    exact (Wrap.ofNat_ne (by omega) (by omega)).symm

/-- With no `Pop` in progress the queue holds the accepted elements that were not
    popped, in order. -/
theorem SingleInv.readyRun (hS : SingleInv c) (hidle : c.1.pop = .idle) :
    ReadyRun c.1.queue c.2.popped.length (c.2.pushed.drop c.2.popped.length) := by
  have hI := hS.few.inv
  have hle : c.2.popped.length ≤ c.2.oks :=
    length_pushed c.2 ▸ hS.popped_isPrefix.length_le
  have hlen : (c.2.pushed.drop c.2.popped.length).length = c.2.oks - c.2.popped.length := by
    rw [List.length_drop, length_pushed]
  have hcap := hS.oks_le
  refine ⟨hI.pow, hI.mask, hI.readPos, ?_, ?_, ?_⟩
  · show _ ≤ c.1.cap
    omega
  · intro i e hi
    have hilt := (List.getElem?_eq_some_iff.mp hi).1
    rw [List.getElem?_drop] at hi
    have hmem := hS.mem_of_pushed hi
    obtain ⟨hseq, hbuf⟩ := (hS.slotOk (Nat.le_add_right _ i) (by omega)).ready e hmem
    refine ⟨hseq.trans ?_, hbuf⟩
    simp [readyMark, hidle, PopPc.freed]
  · intro hlt
    have hlt' : (c.2.pushed.drop c.2.popped.length).length < c.1.cap := hlt
    have hend : c.2.popped.length + (c.2.pushed.drop c.2.popped.length).length = c.2.oks := by
      omega
    rw [hend]
    exact hS.stop hle (by omega)

/-- With no `Pop` in progress, the next one finds the queue empty exactly when every
    accepted element was popped. -/
theorem SingleInv.pop_empty_iff (hS : SingleInv c) (hidle : c.1.pop = .idle) :
    (silogMpscQueuePop c.1.queue).1 = .transQueueEmpty ↔ c.2.popped = c.2.pushed := by
  have hrun := hS.readyRun hidle
  have hsplit := List.prefix_iff_eq_append.mp hS.popped_isPrefix
  cases hwait : c.2.pushed.drop c.2.popped.length with
  | nil =>
    rw [hwait] at hrun hsplit
    rw [List.append_nil] at hsplit
    exact iff_of_true (by rw [hrun.pop_nil]) hsplit
  | cons e es =>
    rw [hwait] at hrun
    refine iff_of_false (by rw [hrun.pop_eq]; exact nofun) fun heq => ?_
    rw [heq, List.drop_length] at hwait
    cases hwait

/-- The full check refuses only when `capacity` accepted elements are waiting. -/
theorem SingleInv.full (hS : SingleInv c) (hrej : Rejects c ()) :
    c.2.oks = c.2.popped.length + c.1.cap := by
  obtain ⟨e, w, hpc, hfull⟩ := hrej
  have hI := hS.few.inv
  have hphase := hS.phase
  rw [hpc] at hphase
  obtain ⟨_, ht, _⟩ := hphase
  have hle : c.2.popped.length ≤ c.2.oks :=
    length_pushed c.2 ▸ hS.popped_isPrefix.length_le
  have hw : w = UInt32.ofNat c.2.oks := by
    rw [← ht]
    exact hI.words () w (by rw [hpc]; rfl)
  have hcap := hS.oks_le
  have hlt := hI.cap_lt
  unfold SiLogMpscQueue.hasRoom at hfull
  rw [hw, hI.readPos, Wrap.word_sub_lt hle, Nat.mod_eq_of_lt (by omega)] at hfull
  have hfull' : ¬ c.2.oks - c.2.popped.length < c.1.cap := hfull
  omega

/-! ## Section 5: A lossless FIFO -/

/-- What one producer and one consumer are promised. -/
structure LosslessFifo (c : Config Unit n) : Prop where
  /-- The elements popped are the first ones accepted. -/
  inOrder  : c.2.popped <+: c.2.pushed
  /-- A drain returns the accepted elements that were not popped, and nothing else. -/
  drain    : c.1.pop = .idle →
    (∃ q', Drains c.1.queue (c.2.pushed.drop c.2.popped.length) q') ∧
    ∀ es q', Drains c.1.queue es q' → c.2.popped ++ es = c.2.pushed
  /-- The compare-exchange of `Push` does not wait. -/
  casReady : CasReady c
  /-- `Push` turns to `SILOG_TRANS_QUEUE_FULL` only at a load of `readPos` with
      `capacity` accepted elements not yet popped. -/
  full     : Rejects c () → (c.2.pushed.drop c.2.popped.length).length = c.1.cap

theorem SingleInv.losslessFifo (hS : SingleInv c) : LosslessFifo c where
  inOrder := hS.popped_isPrefix
  drain := by
    intro hidle
    obtain ⟨q', hd⟩ := (hS.readyRun hidle).drains
    refine ⟨⟨q', hd⟩, ?_⟩
    intro es q'' hd'
    rw [← hd.unique hd']
    exact List.prefix_iff_eq_append.mp hS.popped_isPrefix
  casReady := FreshInv.casReady ⟨hS.few.inv, hS.nodup⟩
  full := by
    intro hrej
    rw [List.length_drop, length_pushed, hS.full hrej]
    omega

/-- **Single producer.** In every state of every run with one producer and one
    consumer the queue is a lossless FIFO. -/
theorem silogMpscQueue_single_lossless {capacity : UInt32} {mem : Option (UInt32 → Elem n)}
    {seqOk : Bool} {q : SiLogMpscQueue n} {acts : List (Act Unit n)}
    (hinit : silogMpscQueueInit capacity mem seqOk = .ok q) (hcap : 2 ≤ capacity)
    (hrun : Steps Step (initConfig q) acts c) : LosslessFifo c := by
  have hS := hrun.invariant (fun _ _ _ hstep hS => SingleInv.step hS hstep)
    (singleInv_init hinit hcap)
  exact hS.losslessFifo

/-- Two pushes that fill the queue and a third up to its full check, with a `Pop`
    begun in between. -/
def crowdedRun : List (Act Unit 1) :=
  [.fetchAdd () (fun _ => 10), .loadRead (), .cas () false, .copyByte () (Fin.last 0),
   .storeReady (), .popLoadRead (fun _ => 0), .popLoadSeq,
   .fetchAdd () (fun _ => 20), .loadRead (), .cas () true, .cas () false,
   .copyByte () (Fin.last 0), .storeReady (), .popCopyByte (Fin.last 0),
   .fetchAdd () (fun _ => 30)]

def crowded : Config Unit 1 := (exec next (initConfig pairQueue) crowdedRun).get (by decide)

theorem silogMpscQueue_single_lossless_crowded :
    crowded.2.pushed = [fun _ => 10, fun _ => 20] ∧ Rejects crowded () ∧ LosslessFifo crowded :=
  ⟨by decide, ⟨fun _ => 30, 2, rfl, by decide⟩,
    silogMpscQueue_single_lossless pairQueue_init (by decide)
      (steps_of_exec step_of_next (Option.some_get (by decide)).symm)⟩

end SiLog.Mpsc
