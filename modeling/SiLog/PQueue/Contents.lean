import SiLog.PQueue.Order

/-! # The contents of the queue

    Both sifts move a hole through the array, with the element that belongs
    into it held aside, so no element is lost or doubled whatever the
    comparison answers and whichever allocation fails.  `SiftUp` always stops.
    `SiftDown` stops as long as its way down does not come to index
    `2 ^ 31 - 1`: from there the right child is index 0 in 32 bits, and with an
    inconsistent comparison the loop goes round for ever.
-/

open Lts Heap

namespace SiLog.PQueue

variable {α : Type*} {compare : α → α → ℤ}

/-! ## Section 1: Calls with all their arguments -/

/-- A call; the element or the buffer for it may be `NULL`, and so may the queue. -/
inductive Request (α : Type*) where
  | push (element : Option α) (alloc : Bool)
  | pop (out : Bool) (alloc : Bool)
  | peek (out : Bool)
  | clear
  | reserve (newCapacity : UInt32) (mem : Option (ℕ → α))
  /-- One of the above with `queue == NULL`. -/
  | nullQueue

/-- The code, the element written to the caller's buffer and the queue after a call; `none`
    if the call does not return. -/
def SiLogPQueue.request (q : SiLogPQueue α) :
    Request α → Option (ErrorCode × Option α × SiLogPQueue α)
  | .push none _ => some (.invalidArg, none, q)
  | .push (some element) alloc =>
    let r := silogPQueuePush q element alloc
    some (r.1, none, r.2)
  | .pop false _ => some (.invalidArg, none, q)
  | .pop true alloc => silogPQueuePop q alloc
  | .peek false => some (.invalidArg, none, q)
  | .peek true =>
    let r := silogPQueuePeek q
    some (r.1, r.2, q)
  -- `SilogPQueueClear` returns nothing
  | .clear => some (.ok, none, silogPQueueClear q)
  | .reserve newCapacity mem =>
    let r := silogPQueueReserve q newCapacity mem
    some (r.1, none, r.2)
  | .nullQueue => some (.invalidArg, none, q)

/-- The transition relation. -/
def RequestStep (q : SiLogPQueue α) (req : Request α) (q' : SiLogPQueue α) : Prop :=
  ∃ code out, q.request req = some (code, out, q')

/-! ## Section 2: What a call does to the contents -/

/-- The contents and the size stay as they are. -/
def SameContents (q q' : SiLogPQueue α) : Prop := q'.elems = q.elems ∧ q'.size = q.size

/-- A push that succeeds adds its element, a pop that succeeds takes away the one it returns,
    `Clear` empties the queue, and every other call changes nothing. -/
def Conserves (q : SiLogPQueue α) (req : Request α) (code : ErrorCode) (out : Option α)
    (q' : SiLogPQueue α) : Prop :=
  match req with
  | .push (some e) _ =>
    if code = .ok then q'.elems = e ::ₘ q.elems ∧ q'.size = q.size + 1 else SameContents q q'
  | .pop true _ =>
    if code = .ok then ∃ e, out = some e ∧ e ::ₘ q'.elems = q.elems ∧ q'.size + 1 = q.size
    else SameContents q q'
  | .clear => q'.elems = 0 ∧ q'.size = 0
  | _ => SameContents q q'

/-- The loop of `SiftUp` stops by its own test and not because the fuel runs out. -/
theorem siftUpLoop_stops (compare : α → α → ℤ) (temp : α) {fuel i : ℕ} (b : ℕ → α) (hfuel : i ≤ fuel) :
    (siftUpLoop compare temp fuel b i).2 = 0 ∨
    compare temp ((siftUpLoop compare temp fuel b i).1
      (((siftUpLoop compare temp fuel b i).2 - 1) / 2)) ≤ 0 := by
  induction fuel generalizing b i with
  | zero => exact Or.inl (by rw [siftUpLoop]; omega)
  | succ fuel ih =>
    unfold siftUpLoop
    split
    · next hzero => exact Or.inl hzero
    · dsimp only
      split
      · next hle => exact Or.inr hle
      · exact ih _ (by omega)

section calls
variable {q : SiLogPQueue α}

/-- A push that finds room, whatever the comparison and the allocation. -/
theorem silogPQueuePush_room (hroom : q.size < q.capacity) (e : α) (alloc : Bool) :
    ∃ b, silogPQueuePush q e alloc = (.ok, { q with buffer := b, size := q.size + 1 }) ∧
      Heap.elems b (q.size + 1) = e ::ₘ q.elems := by
  have hb : ∀ i, i < q.size → Function.update q.buffer q.size e i = q.buffer i := fun i hi =>
    Function.update_of_ne (by omega) _ _
  have hlast : Function.update q.buffer q.size e q.size = e := Function.update_self _ _ _
  have helems : Heap.elems (Function.update q.buffer q.size e) (q.size + 1) = e ::ₘ q.elems := by
    rw [elems_succ, hlast, elems_congr hb]
    rfl
  unfold silogPQueuePush
  rw [if_neg (not_le.mpr hroom)]
  cases alloc with
  | false =>
    -- the element stays at the end
    exact ⟨_, rfl, helems⟩
  | true =>
    have hsift : Heap.elems (Function.update
        (siftUpLoop q.compare e q.size (Function.update q.buffer q.size e) q.size).1
        (siftUpLoop q.compare e q.size (Function.update q.buffer q.size e) q.size).2 e)
        (q.size + 1) = Heap.elems (Function.update q.buffer q.size e) (q.size + 1) := by
      rw [(elems_siftUpLoop q.compare e (Nat.lt_succ_self q.size)).2, Function.update_idem]
    refine ⟨_, ?_, hsift.trans helems⟩
    simp only [siftUp, Nat.add_sub_cancel, hlast]
    rfl

theorem silogPQueuePush_full (hfull : q.capacity ≤ q.size) (e : α) (alloc : Bool) :
    silogPQueuePush q e alloc = (.busy, q) := by
  unfold silogPQueuePush
  rw [if_pos hfull]

/-- The array that `SiftDown` starts from in a pop. -/
def SiLogPQueue.lastToRoot (q : SiLogPQueue α) : ℕ → α :=
  Function.update q.buffer 0 (q.buffer (q.size - 1))

/-- A pop whose temporary can be allocated sinks the last element along a way that stays
    below index `2 ^ 31 - 1`. -/
def ShortWay (q : SiLogPQueue α) (req : Request α) : Prop :=
  req = .pop true true → 1 < q.size →
    ∀ k, (chosen q.compare (q.size - 1) q.lastToRoot)^[k] 0 < 2 ^ 31 - 1

/-- Queues with at most `2 ^ 31` elements meet the condition. -/
theorem shortWay_of_size_le (hsize : q.size ≤ 2 ^ 31) (req : Request α) : ShortWay q req :=
  fun _ hlt => iterate_chosen_lt q.compare q.lastToRoot (by omega) (by omega)

/-- A pop from a queue that is not empty returns the root and takes it away. -/
theorem silogPQueuePop_contents (hpos : 0 < q.size) {alloc : Bool}
    (hway : ShortWay q (.pop true alloc)) :
    ∃ b, silogPQueuePop q alloc =
        some (.ok, some (q.buffer 0), { q with buffer := b, size := q.size - 1 }) ∧
      q.buffer 0 ::ₘ Heap.elems b (q.size - 1) = q.elems := by
  obtain ⟨n, hn⟩ : ∃ n, q.size = n + 1 := ⟨q.size - 1, by omega⟩
  have hn' : q.size - 1 = n := by omega
  have helems : 0 < n → q.buffer 0 ::ₘ Heap.elems q.lastToRoot n = q.elems := by
    intro hnpos
    unfold SiLogPQueue.elems SiLogPQueue.lastToRoot
    rw [hn, Nat.add_sub_cancel]
    exact elems_moveLast q.buffer hnpos
  rcases Nat.eq_zero_or_pos n with rfl | hnpos
  · -- the only element
    rw [hn']
    refine ⟨q.buffer, ?_, (silogPQueuePop_single hn).2⟩
    unfold silogPQueuePop
    rw [if_neg (by omega)]
    simp [hn]
  · cases alloc with
    | false =>
      -- `SiftDown` gives up and the last element stays at the root
      refine ⟨q.lastToRoot, ?_, hn' ▸ helems hnpos⟩
      unfold silogPQueuePop SiLogPQueue.lastToRoot
      rw [if_neg (by omega)]
      simp [hn, hnpos, siftDown]
    | true =>
      have hway' := hway rfl (by omega)
      rw [hn'] at hway'
      obtain ⟨b', j, hloop, _, _, _, hel⟩ := siftDownLoop_descent q.compare (q.buffer n) hway' hnpos
        (show n < 0 + (n + 1) by omega)
      refine ⟨Function.update b' j (q.buffer n), ?_, ?_⟩
      · have hroot : q.lastToRoot = Function.update q.buffer 0 (q.buffer n) := by
          unfold SiLogPQueue.lastToRoot
          rw [hn']
        rw [silogPQueuePop_eq hn hnpos, ← hroot, hloop, Option.map_some, hn']
      · rw [hn', hel]
        unfold SiLogPQueue.lastToRoot
        rw [hn', Function.update_idem]
        have := helems hnpos
        unfold SiLogPQueue.lastToRoot at this
        rwa [hn'] at this

theorem silogPQueuePop_empty (hzero : q.size = 0) (alloc : Bool) :
    silogPQueuePop q alloc = some (.transQueueEmpty, none, q) := by
  unfold silogPQueuePop
  rw [if_pos hzero]

/-- `realloc` keeps what is below the old capacity. -/
theorem silogPQueueReserve_same (hle : q.size ≤ q.capacity) (newCapacity : UInt32)
    (mem : Option (ℕ → α)) :
    SameContents q (silogPQueueReserve q newCapacity mem).2 ∧
    (silogPQueueReserve q newCapacity mem).2.size ≤ (silogPQueueReserve q newCapacity mem).2.capacity := by
  unfold silogPQueueReserve
  split
  · exact ⟨⟨rfl, rfl⟩, hle⟩
  · next hcap =>
    cases mem with
    | none => exact ⟨⟨rfl, rfl⟩, hle⟩
    | some mem =>
      refine ⟨⟨elems_congr fun i hi => if_pos (lt_of_lt_of_le hi hle), rfl⟩, ?_⟩
      exact hle.trans (not_le.mp hcap).le

/-- Every call that meets the condition returns and does to the contents what it should. -/
theorem request_conserves (hle : q.size ≤ q.capacity) {req : Request α} (hway : ShortWay q req) :
    ∃ code out q', q.request req = some (code, out, q') ∧ Conserves q req code out q' ∧
      q'.size ≤ q'.capacity := by
  cases req with
  | push element alloc =>
    cases element with
    | none => exact ⟨_, _, _, rfl, ⟨rfl, rfl⟩, hle⟩
    | some e =>
      by_cases hroom : q.size < q.capacity
      · obtain ⟨b, hpush, helems⟩ := silogPQueuePush_room hroom e alloc
        refine ⟨.ok, none, { q with buffer := b, size := q.size + 1 }, ?_, ?_, hroom⟩
        · simp only [SiLogPQueue.request, hpush]
        · unfold Conserves
          rw [if_pos rfl]
          exact ⟨helems, rfl⟩
      · refine ⟨.busy, none, q, ?_, ?_, hle⟩
        · simp only [SiLogPQueue.request, silogPQueuePush_full (not_lt.mp hroom)]
        · exact ⟨rfl, rfl⟩
  | pop out alloc =>
    cases out with
    | false => exact ⟨_, _, _, rfl, ⟨rfl, rfl⟩, hle⟩
    | true =>
      rcases Nat.eq_zero_or_pos q.size with hzero | hpos
      · exact ⟨_, _, _, silogPQueuePop_empty hzero alloc, ⟨rfl, rfl⟩, hle⟩
      · obtain ⟨b, hpop, helems⟩ := silogPQueuePop_contents hpos hway
        refine ⟨_, _, _, hpop, ?_, (Nat.sub_le _ _).trans hle⟩
        unfold Conserves
        rw [if_pos rfl]
        exact ⟨q.buffer 0, rfl, helems, Nat.sub_add_cancel hpos⟩
  | peek out =>
    cases out with
    | false => exact ⟨_, _, _, rfl, ⟨rfl, rfl⟩, hle⟩
    | true => exact ⟨_, _, _, rfl, ⟨rfl, rfl⟩, hle⟩
  | clear => exact ⟨_, _, _, rfl, ⟨rfl, rfl⟩, Nat.zero_le _⟩
  | reserve newCapacity mem =>
    obtain ⟨hsame, hle'⟩ := silogPQueueReserve_same hle newCapacity mem
    exact ⟨_, _, _, rfl, hsame, hle'⟩
  | nullQueue => exact ⟨_, _, _, rfl, ⟨rfl, rfl⟩, hle⟩

end calls

/-! ## Section 3: Runs -/

theorem size_le_of_init {capacity : UInt32} {mem : Option (ℕ → α)} {q₀ : SiLogPQueue α}
    (hinit : silogPQueueInit capacity compare mem = .ok q₀) : q₀.size ≤ q₀.capacity := by
  unfold silogPQueueInit at hinit
  split at hinit
  · cases hinit
  · cases mem with
    | none => cases hinit
    | some mem =>
      cases hinit
      exact Nat.zero_le _

theorem size_le_step {q q' : SiLogPQueue α} {req : Request α} (hle : q.size ≤ q.capacity)
    (hway : ShortWay q req) (hstep : RequestStep q req q') : q'.size ≤ q'.capacity := by
  obtain ⟨code, out, hreq⟩ := hstep
  obtain ⟨_, _, _, hreq', _, hle'⟩ := request_conserves hle hway
  rw [hreq] at hreq'
  cases hreq'
  exact hle'

/-- **Contents are conserved.** In every run from `SilogPQueueInit` whose pops sink the last
    element along a short way, each further such call returns and changes the contents
    as it should, and `SiftUp` stops by its own test. -/
theorem contents_conserved {capacity : UInt32} {mem : Option (ℕ → α)} {q₀ q : SiLogPQueue α}
    {reqs : List (Request α)} (hinit : silogPQueueInit capacity compare mem = .ok q₀)
    (hrun : Steps (Guarded RequestStep ShortWay) q₀ reqs q) :
    (∀ req, ShortWay q req →
      ∃ code out q', q.request req = some (code, out, q') ∧ Conserves q req code out q') ∧
    ∀ e b index,
      (siftUpLoop q.compare e index b index).2 = 0 ∨
      q.compare e ((siftUpLoop q.compare e index b index).1
        (((siftUpLoop q.compare e index b index).2 - 1) / 2)) ≤ 0 := by
  have hle := hrun.invariant (I := fun q => q.size ≤ q.capacity)
    (fun _ _ _ hR hle => size_le_step hle hR.2 hR.1) (size_le_of_init hinit)
  refine ⟨fun req hway => ?_, fun e b index => siftUpLoop_stops q.compare e b (le_refl index)⟩
  obtain ⟨code, out, q', hreq, hcons, _⟩ := request_conserves hle hway
  exact ⟨code, out, q', hreq, hcons⟩

/-! ### A comparison that puts everything above everything -/

def everAbove (_ _ : ℕ) : ℤ := 1

def contrary : SiLogPQueue ℕ :=
  { buffer := fun _ => 0, capacity := 2, size := 0, compare := everAbove }

/-- Two pushes, one of them without the memory to sift, and a third that finds no room. -/
def contraryPushes : List (Request ℕ) :=
  [.push (some 1) true, .push (some 2) false, .push (some 3) true]

/-- The queue after a call that returns. -/
def SiLogPQueue.after (q : SiLogPQueue α) (req : Request α) : Option (SiLogPQueue α) :=
  (q.request req).map fun r => r.2.2

theorem requestStep_of_after (q : SiLogPQueue α) (req : Request α) (q' : SiLogPQueue α)
    (h : q.after req = some q') : RequestStep q req q' := by
  obtain ⟨⟨code, out, _⟩, hreq, rfl⟩ := Option.map_eq_some_iff.mp h
  exact ⟨code, out, hreq⟩

def contraryFull : SiLogPQueue ℕ := (exec SiLogPQueue.after contrary contraryPushes).get rfl

theorem contents_conserved_contrary :
    contraryFull.size = 2 ∧
    ∃ code out q', contraryFull.request (.pop true true) = some (code, out, q') ∧
      Conserves contraryFull (.pop true true) code out q' := by
  have hrun : Steps RequestStep contrary contraryPushes contraryFull :=
    steps_of_exec requestStep_of_after (Option.some_get rfl).symm
  have hinit : silogPQueueInit 2 everAbove (some fun _ => 0) = .ok contrary := rfl
  refine ⟨rfl, (contents_conserved hinit (hrun.guarded_of_forall ?_)).1 _
    (shortWay_of_size_le (by decide) _)⟩
  intro req hreq q heq
  subst heq
  simp [contraryPushes] at hreq

/-! ## Section 4: A pop that does not return -/

/-- `i` is on the left edge of the tree: `i + 1` is a power of two. -/
def spine (i : ℕ) : Bool := 2 ^ Nat.log2 (i + 1) == i + 1

theorem spine_iff {i : ℕ} : spine i = true ↔ ∃ k, i + 1 = 2 ^ k := by
  unfold spine
  rw [beq_iff_eq]
  constructor
  · exact fun h => ⟨_, h.symm⟩
  · rintro ⟨k, hk⟩
    rw [hk, Nat.log2_two_pow]

/-- A right child is not on the left edge. -/
theorem spine_right (k : ℕ) : spine (2 ^ (k + 1)) = false := by
  rw [Bool.eq_false_iff]
  intro h
  obtain ⟨l, hl⟩ := spine_iff.mp h
  have hpos := Nat.two_pow_pos k
  rw [Nat.pow_succ] at hl
  cases l with
  | zero => omega
  | succ l =>
    rw [Nat.pow_succ] at hl
    omega

/-- `true` is above everything, itself included. -/
def spineCompare (a _ : Bool) : ℤ := if a then 1 else 0

/-- The hole is on the left edge at level `k` of an array of `2 ^ 31` elements, and the left
    edge holds `true` but for the hole at the root. -/
structure Spinning (b : ℕ → Bool) (k : ℕ) : Prop where
  le   : k ≤ 31
  off  : ∀ j, spine j = false → b j = false
  on   : ∀ l, 1 ≤ l → l ≤ 31 → b (2 ^ l - 1) = true
  root : 0 < k → b 0 = true

/-- The array after a round keeps its left edge. -/
theorem Spinning.update {b : ℕ → Bool} {k m : ℕ} (h : Spinning b k) (hm : m ≤ 31) :
    Spinning (Function.update b (2 ^ k - 1) true) m where
  le := hm
  off := by
    intro j hj
    rw [Function.update_of_ne, h.off j hj]
    rintro rfl
    rw [Bool.eq_false_iff] at hj
    exact hj (spine_iff.mpr ⟨k, Nat.sub_add_cancel (Nat.one_le_two_pow)⟩)
  on := by
    intro l hl hl'
    by_cases heq : 2 ^ l - 1 = 2 ^ k - 1
    · rw [heq, Function.update_self]
    · rw [Function.update_of_ne heq, h.on l hl hl']
  root := by
    intro _
    rcases Nat.eq_zero_or_pos k with rfl | hk
    · rw [Nat.pow_zero, Nat.sub_self, Function.update_self]
    · by_cases heq : 0 = 2 ^ k - 1
      · rw [← heq, Function.update_self]
      · rw [Function.update_of_ne heq, h.root hk]

/-- Above the last level the left child is chosen. -/
theorem Spinning.largestOf_lt {b : ℕ → Bool} {k : ℕ} (h : Spinning b k) (hk : k < 31) :
    largestOf spineCompare (2 ^ 31) b (2 ^ k - 1) = 2 ^ (k + 1) - 1 := by
  have hpos := Nat.two_pow_pos k
  have hle : 2 ^ k ≤ 2 ^ 30 := Nat.pow_le_pow_right (by omega) (by omega)
  have hsucc : 2 ^ (k + 1) = 2 ^ k * 2 := Nat.pow_succ 2 k
  have hl : (2 * (2 ^ k - 1) + 1) % 2 ^ 32 = 2 ^ (k + 1) - 1 := by omega
  have hr : (2 * (2 ^ k - 1) + 2) % 2 ^ 32 = 2 ^ (k + 1) := by omega
  have hleft : 2 ^ (k + 1) - 1 < 2 ^ 31 := by omega
  have hup : 0 < spineCompare (b (2 ^ (k + 1) - 1)) (b (2 ^ k - 1)) := by
    rw [h.on (k + 1) (by omega) (by omega)]
    exact Int.one_pos
  have hstay : ∀ y, ¬ 0 < spineCompare (b (2 ^ (k + 1))) y := by
    intro y
    rw [h.off _ (spine_right k)]
    exact lt_irrefl 0
  unfold largestOf
  rw [hl, hr]
  simp only [hleft, hup, and_self, if_true, hstay, and_false, if_false]

/-- At the last level the right child is index 0. -/
theorem Spinning.largestOf_last {b : ℕ → Bool} (h : Spinning b 31) :
    largestOf spineCompare (2 ^ 31) b (2 ^ 31 - 1) = 0 := by
  have hl : (2 * (2 ^ 31 - 1) + 1) % 2 ^ 32 = 2 ^ 32 - 1 := by omega
  have hr : (2 * (2 ^ 31 - 1) + 2) % 2 ^ 32 = 0 := by omega
  unfold largestOf
  rw [hl, hr]
  simp [h.root (by omega), spineCompare]

/-- The loop of `SiftDown` goes round the left edge, however often it is run. -/
theorem Spinning.loop {b : ℕ → Bool} {k : ℕ} (h : Spinning b k) (fuel : ℕ) :
    siftDownLoop spineCompare (2 ^ 31) fuel b (2 ^ k - 1) = none := by
  induction fuel generalizing b k with
  | zero => rfl
  | succ fuel ih =>
    unfold siftDownLoop
    dsimp only
    have hpos := Nat.two_pow_pos k
    rcases Nat.lt_or_ge k 31 with hk | hk
    · rw [h.largestOf_lt hk, h.on (k + 1) (by omega) (by omega), if_neg (by rw [Nat.pow_succ]; omega)]
      exact ih (h.update (by omega))
    · obtain rfl : k = 31 := le_antisymm h.le hk
      rw [h.largestOf_last, h.root (by omega), if_neg (by omega)]
      exact ih (k := 0) (h.update (by omega))

/-- Pushes without the memory to sift fill the array in order. -/
theorem steps_pushes (q : SiLogPQueue Bool) (f : ℕ → Bool) (hzero : q.size = 0) {m : ℕ}
    (hroom : m ≤ q.capacity) :
    Steps RequestStep q ((List.range m).map fun i => .push (some (f i)) false)
      { q with buffer := fun i => if i < m then f i else q.buffer i, size := m } := by
  induction m with
  | zero =>
    have hsame : ({ q with buffer := fun i => if i < 0 then f i else q.buffer i, size := 0 } :
        SiLogPQueue Bool) = q := by
      obtain ⟨buffer, capacity, size, compare⟩ := q
      cases hzero
      simp
    rw [hsame]
    exact Steps.nil q
  | succ m ih =>
    rw [List.range_succ, List.map_append]
    refine (ih (by omega)).append (Steps.single ⟨.ok, none, ?_⟩)
    have hbuffer : Function.update (fun i => if i < m then f i else q.buffer i) m (f m) =
        fun i => if i < m + 1 then f i else q.buffer i := by
      funext i
      rcases eq_or_ne i m with rfl | hne
      · simp
      · rw [Function.update_of_ne hne]
        have hiff : i < m ↔ i < m + 1 := by omega
        simp only [hiff]
    have hfull : ¬ q.capacity ≤ m := by omega
    simp only [SiLogPQueue.request, silogPQueuePush, if_neg hfull, siftUp, if_true, hbuffer]

/-- A queue for one element that is made larger. -/
def oneSlot : SiLogPQueue Bool :=
  { buffer := fun _ => false, capacity := 1, size := 0, compare := spineCompare }

def wideCapacity : UInt32 := 2147483649

def wide : SiLogPQueue Bool := (silogPQueueReserve oneSlot wideCapacity (some fun _ => false)).2

/-- `Reserve` to `2 ^ 31 + 1` elements and as many pushes. -/
def spineRequests : List (Request Bool) :=
  .reserve wideCapacity (some fun _ => false) ::
    (List.range (2 ^ 31 + 1)).map fun i => .push (some (spine i)) false

def spineQueue : SiLogPQueue Bool :=
  { wide with
    buffer := fun i => if i < 2 ^ 31 + 1 then spine i else wide.buffer i
    size := 2 ^ 31 + 1 }

theorem spineQueue_spinning : Spinning spineQueue.lastToRoot 0 where
  le := by omega
  off := by
    intro j hj
    have hj0 : j ≠ 0 := by
      rintro rfl
      cases hj
    unfold SiLogPQueue.lastToRoot
    rw [Function.update_of_ne hj0]
    show (if j < 2 ^ 31 + 1 then spine j else wide.buffer j) = false
    split
    · exact hj
    · show (if j < 1 then false else false) = false
      rw [ite_self]
  on := by
    intro l hl hl'
    have htwo : 2 ^ 1 ≤ 2 ^ l := Nat.pow_le_pow_right (by omega) hl
    have hle : 2 ^ l ≤ 2 ^ 31 := Nat.pow_le_pow_right (by omega) hl'
    unfold SiLogPQueue.lastToRoot
    rw [Function.update_of_ne (by omega)]
    show (if 2 ^ l - 1 < 2 ^ 31 + 1 then spine (2 ^ l - 1) else _) = true
    rw [if_pos (by omega)]
    exact spine_iff.mpr ⟨l, by omega⟩
  root := fun h => absurd h (lt_irrefl 0)

/-- `SiftDown` goes round for ever: `Pop` does not return. -/
theorem spine_pop_does_not_return :
    silogPQueueInit 1 spineCompare (some fun _ => false) = .ok oneSlot ∧
    Steps RequestStep oneSlot spineRequests spineQueue ∧
    spineQueue.request (.pop true true) = none ∧
    ∀ fuel, siftDownLoop spineCompare (2 ^ 31) fuel spineQueue.lastToRoot 0 = none := by
  have hloop : ∀ fuel, siftDownLoop spineCompare (2 ^ 31) fuel spineQueue.lastToRoot 0 = none :=
    fun fuel => spineQueue_spinning.loop fuel
  refine ⟨rfl, ?_, ?_, hloop⟩
  · exact Steps.cons _ _ ⟨.ok, none, rfl⟩ (steps_pushes wide spine rfl (by decide))
  · show silogPQueuePop spineQueue true = none
    rw [silogPQueuePop_eq (n := 2 ^ 31) rfl (by omega)]
    exact congrArg (Option.map _) (hloop _)

end SiLog.PQueue
