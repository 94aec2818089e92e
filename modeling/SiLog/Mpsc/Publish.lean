import SiLog.Mpsc.Single

/-! # Publication of an element

    A `Push` marks its slot `p + capacity` before it copies the element and
    `p + 1` after, and `Pop` takes the slot when it finds `p + 1`.  The two
    markers differ for every capacity that `SilogMpscQueueInit` accepts but
    one: with a single slot `p + capacity` is `p + 1`, and the claim of the
    slot already publishes it.  With one producer, `Pop` returns finished
    elements only, under every interleaving, exactly when the capacity is
    not 1.
-/

open Lts

namespace SiLog.Mpsc

variable {n : ℕ} {c : Config Unit n}

/-! ## Section 1: Finished copies -/

/-- The `memcpy_s` of `e` into the slot of position `t` is complete: its `Push` has
    returned, or has only the ready marker to store. -/
def Copied (c : Config Unit n) (t : ℕ) (e : Elem n) : Prop :=
  (t, e) ∈ c.2.returnedOk ∨
  ∃ w, c.1.push () = .copy e w Finset.univ ∧ c.2.ticket () = t

/-- If the next step is the return of `SILOG_OK` from `Pop`, it returns the element of
    the position that is due, whose copy is complete. -/
def Published (c : Config Unit n) : Prop :=
  ∀ c', Step c .popStoreRead c' →
    ∃ e, Copied c c.2.popped.length e ∧ c'.2.popped = c.2.popped ++ [e]

/-- The consumer's part of the invariant says so. -/
theorem published_of_popOk (hok : PopOk c) : Published c := by
  intro c' hstep
  obtain ⟨read, out, hpc, rfl⟩ := step_popStoreRead hstep
  unfold PopOk at hok
  rw [hpc] at hok
  exact ⟨out, Or.inl hok.2, rfl⟩

/-! ## Section 2: A single slot -/

/-- `SilogMpscQueueInit` refuses empty elements. -/
theorem elem_ne_zero {capacity : UInt32} {mem : Option (UInt32 → Elem n)} {seqOk : Bool}
    {q : SiLogMpscQueue n} (hinit : silogMpscQueueInit capacity mem seqOk = .ok q) : n ≠ 0 := by
  rintro rfl
  simp [silogMpscQueueInit] at hinit

/-- The accepted capacities are 1 and those the other results are about. -/
theorem two_le_capacity {capacity : UInt32} {mem : Option (UInt32 → Elem n)} {seqOk : Bool}
    {q : SiLogMpscQueue n} (hinit : silogMpscQueueInit capacity mem seqOk = .ok q)
    (hne : capacity ≠ 1) : 2 ≤ capacity := by
  obtain ⟨⟨j, hj⟩, _⟩ := init_ok hinit
  rw [UInt32.le_iff_toNat_le]
  cases j with
  | zero => exact absurd (UInt32.toNat_inj.mp hj) hne
  | succ j =>
    have hpos := Nat.one_le_two_pow (n := j)
    have htwo : (2 : UInt32).toNat = 2 := rfl
    rw [hj, Nat.pow_succ, htwo]
    omega

/-- The queue right after the only slot was claimed for position 0. -/
def SiLogMpscQueue.claimedFirst (q : SiLogMpscQueue n) : SiLogMpscQueue n :=
  q.fetchAdd.storeSeq 0 1

/-- The producer has claimed the slot for `e` and has copied nothing yet. -/
def claimedConfig (q : SiLogMpscQueue n) (e : Elem n) : Config Unit n :=
  ({ queue := q.claimedFirst, push := fun _ => .copy e 0 ∅, pop := .idle },
   { written := 1, ticket := fun _ => 0, accepted := [(0, e)], returnedOk := [], popped := [] })

section singleSlot
variable {mem : Option (UInt32 → Elem n)} {seqOk : Bool} {q : SiLogMpscQueue n}

/-- The first `Push`, up to its compare-exchange. -/
theorem steps_claim_single (hinit : silogMpscQueueInit 1 mem seqOk = .ok q) (e : Elem n) :
    Steps Step (initConfig q) [.fetchAdd () e, .loadRead (), .cas () false]
      (claimedConfig q e) := by
  obtain ⟨_, bytes, rfl⟩ := init_ok hinit
  refine steps_of_exec step_of_next ?_
  have hpush : ∀ (f : Unit → PushPc n) (pc : PushPc n), Function.update f () pc = fun _ => pc :=
    fun f pc => funext fun _ => Function.update_self ..
  simp [exec, next, step, pushStep, initConfig, State.setPush, hpush, casTurn,
    SiLogMpscQueue.hasRoom, SiLogMpscQueue.fetchAdd, claimedConfig, observe, History.issue,
    History.accept, SiLogMpscQueue.claimedFirst, SiLogMpscQueue.index, SiLogMpscQueue.storeSeq]

/-- The claim stores `0 + capacity`, which is what `Pop` takes for ready. -/
theorem pop_claimedFirst (hinit : silogMpscQueueInit 1 mem seqOk = .ok q) :
    silogMpscQueuePop q.claimedFirst =
      (.ok, some (q.buffer 0), (q.claimedFirst.storeSeq 0 1).storeRead 1) := by
  obtain ⟨_, bytes, rfl⟩ := init_ok hinit
  simp [silogMpscQueuePop, SiLogMpscQueue.claimedFirst, SiLogMpscQueue.fetchAdd,
    SiLogMpscQueue.storeSeq, SiLogMpscQueue.index]

/-- The consumer takes the slot while no byte of it has been copied. -/
theorem not_published_single (hinit : silogMpscQueueInit 1 mem seqOk = .ok q) :
    ∃ (acts : List (Act Unit n)) (c : Config Unit n),
      Steps Step (initConfig q) acts c ∧ ¬ Published c := by
  obtain ⟨w, q₂, mid, hload, hcheck, hcopy, hfree, hreturn⟩ :=
    steps_pop_ok (s := (claimedConfig q fun _ => 0).1) (h := (claimedConfig q fun _ => 0).2)
      (fun _ => 0) rfl (pop_claimedFirst hinit)
  refine ⟨_, _, (steps_claim_single hinit _).append
    (Steps.cons _ _ hload (Steps.cons _ _ hcheck (hcopy.append (Steps.single hfree)))), ?_⟩
  intro hpub
  obtain ⟨e, hmem | ⟨w', hpc, _⟩, _⟩ := hpub _ hreturn
  · cases hmem
  · -- the copy has not begun, and elements are not empty
    have hdone : (∅ : Finset (Fin n)) = Finset.univ := by
      have hpc' : PushPc.copy (fun _ => 0) 0 ∅ = PushPc.copy e w' Finset.univ := hpc
      injection hpc'
    have hpos : 0 < n := Nat.pos_of_ne_zero (elem_ne_zero hinit)
    have hmem : (⟨0, hpos⟩ : Fin n) ∈ (∅ : Finset (Fin n)) := hdone ▸ Finset.mem_univ _
    exact Finset.notMem_empty _ hmem

end singleSlot

/-! ## Section 3: Every accepted capacity -/

/-- **Publication.** With one producer, `Pop` returns only finished elements in every
    state of every run, exactly when the capacity is not 1. -/
theorem silogMpscQueue_published_iff {capacity : UInt32} {mem : Option (UInt32 → Elem n)}
    {seqOk : Bool} {q : SiLogMpscQueue n}
    (hinit : silogMpscQueueInit capacity mem seqOk = .ok q) :
    (∀ (acts : List (Act Unit n)) (c : Config Unit n),
      Steps Step (initConfig q) acts c → Published c) ↔ capacity ≠ 1 := by
  constructor
  · rintro hall rfl
    obtain ⟨acts, c, hrun, hnot⟩ := not_published_single hinit
    exact hnot (hall acts c hrun)
  · intro hne acts c hrun
    have hS := hrun.invariant (fun _ _ _ hstep hS => SingleInv.step hS hstep)
      (singleInv_init hinit (two_le_capacity hinit hne))
    exact published_of_popOk hS.few.inv.pop

theorem silogMpscQueue_published_iff_pair :
    Steps Step (initConfig pairQueue) crowdedRun crowded ∧ Published crowded := by
  have hrun : Steps Step (initConfig pairQueue) crowdedRun crowded :=
    steps_of_exec step_of_next (Option.some_get (by decide)).symm
  exact ⟨hrun, (silogMpscQueue_published_iff pairQueue_init).mpr (by decide) _ _ hrun⟩

/-- A single slot, with what the allocator left in the buffer. -/
def singleQueue : SiLogMpscQueue 1 where
  buffer := fun _ _ => 7
  capacity := 1
  writePos := 0
  readPos := 0
  seq := fun i => i
  capacityMask := 0

/-- A `Pop` between the compare-exchange of the first `Push` and its copy. -/
def staleRun : List (Act Unit 1) :=
  [.fetchAdd () (fun _ => 10), .loadRead (), .cas () false,
   .popLoadRead (fun _ => 0), .popLoadSeq, .popCopyByte (Fin.last 0), .popStoreSeq]

def stale : Config Unit 1 := (exec next (initConfig singleQueue) staleRun).get (by decide)

/-- `Pop` returns the allocator's byte 7, and nothing was copied into the slot. -/
theorem single_slot_stale :
    silogMpscQueueInit 1 (some fun _ _ => 7) true = .ok singleQueue ∧
    Steps Step (initConfig singleQueue) staleRun stale ∧
    (next stale .popStoreRead).map (fun c => c.2.popped) = some [fun _ => 7] ∧
    ¬ Published stale := by
  refine ⟨rfl, steps_of_exec step_of_next (Option.some_get (by decide)).symm, by decide, ?_⟩
  intro hpub
  obtain ⟨c', hc'⟩ := Option.isSome_iff_exists.mp (by decide : (next stale .popStoreRead).isSome)
  obtain ⟨e, hmem | ⟨w, hpc, _⟩, _⟩ := hpub c' (step_of_next _ _ _ hc')
  · cases hmem
  · have hpc' : PushPc.copy (fun _ => 10) 0 ∅ = PushPc.copy e w (Finset.univ : Finset (Fin 1)) :=
      hpc
    injection hpc' with _ _ hdone
    exact absurd hdone (by decide)

end SiLog.Mpsc
