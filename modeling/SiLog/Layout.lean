import SiLog.Lib.Slots
import SiLog.Mpsc.Delivery
import SiLog.PQueue.Contents

/-! # The arrays of the two queues

    `SilogPQueueInit`, `SilogPQueueReserve` and `SilogMpscQueueInit` ask the
    allocator for `elementSize * capacity` bytes, and the slots are addressed
    at `index * elementSize`.  Both products are 32-bit words.  A queue
    addresses slots below its capacity only, so it stays inside its array as
    long as the product of the two numbers does not wrap, and does not have
    room for its last slot otherwise.
-/

open Lts Slots

namespace SiLog.Layout

/-! ## Section 1: The slots that a call addresses -/

section slots
open PQueue

variable {α : Type*}

/-- The slots that the loop of `SiftUp` addresses; the last one is where the element goes. -/
def siftUpSlots (compare : α → α → ℤ) (temp : α) : ℕ → (ℕ → α) → ℕ → List ℕ
  | 0, _, index => [index]
  | fuel + 1, buffer, index =>
    if index = 0 then [index]
    else
      let parent := (index - 1) / 2
      if compare temp (buffer parent) ≤ 0 then [parent, index]
      else
        parent :: index ::
          siftUpSlots compare temp fuel (Function.update buffer index (buffer parent)) parent

/-- The slots that are compared in one turn of `SiftDown`. -/
def comparedSlots (compare : α → α → ℤ) (size : ℕ) (buffer : ℕ → α) (index : ℕ) : List ℕ :=
  let left := (2 * index + 1) % 2 ^ 32
  let right := (2 * index + 2) % 2 ^ 32
  let largest := if left < size ∧ 0 < compare (buffer left) (buffer index) then left else index
  (if left < size then [left, index] else []) ++ (if right < size then [right, largest] else [])

/-- The slots that the first turns of `SiftDown` address. -/
def siftDownSlots (compare : α → α → ℤ) (size : ℕ) : ℕ → (ℕ → α) → ℕ → List ℕ
  | 0, _, _ => []
  | turns + 1, buffer, index =>
    let largest := largestOf compare size buffer index
    comparedSlots compare size buffer index ++
      if largest = index then [index]
      else largest :: index ::
        siftDownSlots compare size turns (Function.update buffer index (buffer largest)) largest

/-- The slots that a call addresses, up to the given turns of `SiftDown`. -/
def slotsOf (q : SiLogPQueue α) (turns : ℕ) : Request α → List ℕ
  | .push (some element) alloc =>
    if q.capacity ≤ q.size then []
    else q.size ::
      if alloc = false then []
      else q.size ::
        siftUpSlots q.compare element q.size (Function.update q.buffer q.size element) q.size
  | .pop true alloc =>
    if q.size = 0 then []
    else 0 ::
      if 0 < q.size - 1 then
        (q.size - 1) :: 0 ::
          if alloc = false then []
          else 0 :: siftDownSlots q.compare (q.size - 1) turns q.lastToRoot 0
      else []
  | .peek true => if q.size = 0 then [] else [0]
  | _ => []

theorem siftUpSlots_le (compare : α → α → ℤ) (temp : α) {fuel : ℕ} {b : ℕ → α} {index i : ℕ}
    (hi : i ∈ siftUpSlots compare temp fuel b index) : i ≤ index := by
  induction fuel generalizing b index with
  | zero =>
    rw [siftUpSlots, List.mem_singleton] at hi
    exact hi.le
  | succ fuel ih =>
    rw [siftUpSlots] at hi
    split at hi
    · rw [List.mem_singleton] at hi
      exact hi.le
    · dsimp only at hi
      split at hi
      · simp only [List.mem_cons, List.not_mem_nil, or_false] at hi
        omega
      · simp only [List.mem_cons] at hi
        rcases hi with rfl | rfl | hi
        · omega
        · exact le_refl _
        · have := ih hi
          omega

/-- The choice between two indices. -/
theorem ite_lt {p : Prop} [Decidable p] {i j n : ℕ} (hi : p → i < n) (hj : j < n) :
    (if p then i else j) < n := by
  split
  next h => exact hi h
  next => exact hj

theorem largestOf_lt {compare : α → α → ℤ} {size : ℕ} {b : ℕ → α} {index : ℕ} (hindex : index < size) :
    largestOf compare size b index < size :=
  ite_lt And.left (ite_lt And.left hindex)

theorem comparedSlots_lt {compare : α → α → ℤ} {size : ℕ} {b : ℕ → α} {index i : ℕ}
    (hindex : index < size) (hi : i ∈ comparedSlots compare size b index) : i < size := by
  unfold comparedSlots at hi
  rcases List.mem_append.mp hi with hi | hi
  · split at hi
    next hleft =>
      simp only [List.mem_cons, List.not_mem_nil, or_false] at hi
      rcases hi with rfl | rfl
      · exact hleft
      · exact hindex
    next => cases hi
  · split at hi
    next hright =>
      simp only [List.mem_cons, List.not_mem_nil, or_false] at hi
      rcases hi with rfl | rfl
      · exact hright
      · exact ite_lt And.left hindex
    next => cases hi

theorem siftDownSlots_lt {compare : α → α → ℤ} {size turns : ℕ} {b : ℕ → α} {index i : ℕ}
    (hindex : index < size) (hi : i ∈ siftDownSlots compare size turns b index) : i < size := by
  induction turns generalizing b index with
  | zero => cases hi
  | succ turns ih =>
    rw [siftDownSlots] at hi
    rcases List.mem_append.mp hi with hi | hi
    · exact comparedSlots_lt hindex hi
    · split at hi
      · rw [List.mem_singleton] at hi
        exact hi ▸ hindex
      · simp only [List.mem_cons] at hi
        rcases hi with rfl | rfl | hi
        · exact largestOf_lt hindex
        · exact hindex
        · exact ih (largestOf_lt hindex) hi

/-- A call addresses slots below the capacity only. -/
theorem slotsOf_lt {q : SiLogPQueue α} (hle : q.size ≤ q.capacity) {turns : ℕ} {req : Request α} {i : ℕ}
    (hi : i ∈ slotsOf q turns req) : i < q.capacity := by
  unfold slotsOf at hi
  split at hi
  · split at hi
    · cases hi
    next hroom =>
      have hlt : q.size < q.capacity := not_le.mp hroom
      rcases List.mem_cons.mp hi with rfl | hi
      · exact hlt
      · split at hi
        · cases hi
        · rcases List.mem_cons.mp hi with rfl | hi
          · exact hlt
          · exact lt_of_le_of_lt (siftUpSlots_le _ _ hi) hlt
  · split at hi
    · cases hi
    next hne =>
      rcases List.mem_cons.mp hi with rfl | hi
      · omega
      · split at hi
        next hpos =>
          simp only [List.mem_cons] at hi
          rcases hi with rfl | rfl | hi
          · omega
          · omega
          · split at hi
            · cases hi
            · rcases List.mem_cons.mp hi with rfl | hi
              · omega
              · have := siftDownSlots_lt hpos hi
                omega
        next => cases hi
  · split at hi
    · cases hi
    · rw [List.mem_singleton] at hi
      omega
  · cases hi

/-- The loop of `SiftUp` writes to these slots only. -/
theorem siftUpLoop_frame (compare : α → α → ℤ) (temp : α) {fuel : ℕ} {b : ℕ → α} {index i : ℕ}
    (hi : i ∉ siftUpSlots compare temp fuel b index) :
    (siftUpLoop compare temp fuel b index).1 i = b i ∧ i ≠ (siftUpLoop compare temp fuel b index).2 := by
  induction fuel generalizing b index with
  | zero => exact ⟨rfl, fun heq => hi (List.mem_singleton.mpr heq)⟩
  | succ fuel ih =>
    rw [siftUpSlots] at hi
    rw [siftUpLoop]
    split at hi
    next hzero =>
      rw [if_pos hzero]
      exact ⟨rfl, fun heq => hi (List.mem_singleton.mpr heq)⟩
    next hzero =>
      rw [if_neg hzero]
      dsimp only at hi ⊢
      split at hi
      next hstop =>
        rw [if_pos hstop]
        simp only [List.mem_cons, List.not_mem_nil, or_false, not_or] at hi
        exact ⟨rfl, hi.2⟩
      next hstop =>
        rw [if_neg hstop]
        simp only [List.mem_cons, not_or] at hi
        obtain ⟨_, hindex, hrest⟩ := hi
        obtain ⟨hkeep, hend⟩ := ih hrest
        exact ⟨hkeep.trans (Function.update_of_ne hindex _ _), hend⟩

/-- So does that of `SiftDown`, if it stops. -/
theorem siftDownLoop_frame {compare : α → α → ℤ} {size turns : ℕ} {b b' : ℕ → α} {index i j : ℕ}
    (hloop : siftDownLoop compare size turns b index = some (b', j))
    (hi : i ∉ siftDownSlots compare size turns b index) : b' i = b i ∧ i ≠ j := by
  induction turns generalizing b index with
  | zero => cases hloop
  | succ turns ih =>
    rw [siftDownSlots] at hi
    rw [siftDownLoop] at hloop
    simp only [List.mem_append, not_or] at hi
    obtain ⟨_, hi⟩ := hi
    split at hi
    next hstop =>
      rw [if_pos hstop] at hloop
      cases hloop
      exact ⟨rfl, fun heq => hi (List.mem_singleton.mpr heq)⟩
    next hstop =>
      rw [if_neg hstop] at hloop
      simp only [List.mem_cons, not_or] at hi
      obtain ⟨_, hindex, hrest⟩ := hi
      obtain ⟨hkeep, hend⟩ := ih hloop hrest
      exact ⟨hkeep.trans (Function.update_of_ne hindex _ _), hend⟩

theorem push_frame {q : SiLogPQueue α} {e : α} {alloc : Bool} {turns i : ℕ}
    (hi : i ∉ slotsOf q turns (.push (some e) alloc)) :
    (silogPQueuePush q e alloc).2.buffer i = q.buffer i := by
  rw [slotsOf] at hi
  unfold silogPQueuePush
  split at hi
  next hfull =>
    rw [if_pos hfull]
  next hfull =>
    rw [if_neg hfull]
    simp only [List.mem_cons, not_or] at hi
    obtain ⟨hne, hi⟩ := hi
    cases alloc with
    | false => exact Function.update_of_ne hne _ _
    | true =>
      simp only [Bool.true_eq_false, if_false, List.mem_cons, not_or] at hi
      obtain ⟨hkeep, hend⟩ := siftUpLoop_frame q.compare e hi.2
      simp only [siftUp, Bool.true_eq_false, if_false, Nat.add_sub_cancel, Function.update_self]
      rw [Function.update_of_ne hend, hkeep]
      exact Function.update_of_ne hne _ _

theorem pop_frame {q q' : SiLogPQueue α} {alloc : Bool} {code : ErrorCode} {out : Option α} {i : ℕ}
    (hpop : silogPQueuePop q alloc = some (code, out, q'))
    (hi : i ∉ slotsOf q q.size (.pop true alloc)) : q'.buffer i = q.buffer i := by
  rw [slotsOf] at hi
  unfold silogPQueuePop at hpop
  split at hi
  next hzero =>
    rw [if_pos hzero] at hpop
    cases hpop
    rfl
  next hzero =>
    rw [if_neg hzero] at hpop
    simp only [List.mem_cons, not_or] at hi
    obtain ⟨hne, hi⟩ := hi
    dsimp only at hpop
    split at hi
    next hpos =>
      rw [if_pos hpos] at hpop
      simp only [List.mem_cons, not_or] at hi
      obtain ⟨_, _, hi⟩ := hi
      have hroot : Function.update q.buffer 0 (q.buffer (q.size - 1)) i = q.buffer i :=
        Function.update_of_ne hne _ _
      obtain ⟨q₃, hsift, heq⟩ := Option.map_eq_some_iff.mp hpop
      cases heq
      cases alloc with
      | false =>
        cases hsift
        exact hroot
      | true =>
        simp only [siftDown, Bool.true_eq_false, if_false,
          Nat.sub_add_cancel (Nat.pos_of_ne_zero hzero)] at hsift
        simp only [Bool.true_eq_false, if_false, List.mem_cons, not_or] at hi
        obtain ⟨⟨b', j⟩, hloop, hq⟩ := Option.map_eq_some_iff.mp hsift
        obtain ⟨hkeep, hend⟩ := siftDownLoop_frame hloop hi.2
        rw [← hq]
        exact (Function.update_of_ne hend _ _).trans (hkeep.trans hroot)
    next hpos =>
      rw [if_neg hpos] at hpop
      cases hpop
      rfl

end slots

/-! ## Section 2: The priority queue in its array -/

section pqueue
open PQueue

variable {α : Type*}

/-- The queue with its element size and the bytes that it has asked for. -/
structure Block (α : Type*) where
  queue       : SiLogPQueue α
  elementSize : UInt32
  bytes       : UInt32

/-- `SilogPQueueInit` with the element size and the argument of `SiMalloc`. -/
def Block.init (elementSize capacity : UInt32) (compare : α → α → ℤ) (mem : Option (ℕ → α)) :
    Except ErrorCode (Block α) :=
  if elementSize = 0 then .error .invalidArg
  else
    match silogPQueueInit capacity compare mem with
    | .error code => .error code
    | .ok q => .ok ⟨q, elementSize, elementSize * capacity⟩

/-- The array after a call: `SilogPQueueReserve` asks `realloc` for another number of bytes. -/
def Block.bytesAfter (s : Block α) (req : Request α) (code : ErrorCode) : UInt32 :=
  match req with
  | .reserve newCapacity _ => if code = .ok then s.elementSize * newCapacity else s.bytes
  | _ => s.bytes

def Block.request (s : Block α) (req : Request α) : Option (ErrorCode × Option α × Block α) :=
  (s.queue.request req).map fun (code, out, q) =>
    (code, out, ⟨q, s.elementSize, s.bytesAfter req code⟩)

/-- The transition relation. -/
def BlockStep (s : Block α) (req : Request α) (s' : Block α) : Prop :=
  ∃ code out, s.request req = some (code, out, s')

/-- All slots lie inside the array, and so does all that a call addresses. -/
def Block.Inside (s : Block α) : Prop :=
  Slots.Inside s.elementSize s.queue.capacity s.bytes ∧
  ∀ req turns, ∀ i ∈ slotsOf s.queue turns req, Addressed s.elementSize s.bytes i

/-- A call to `SilogPQueueReserve` with a larger capacity, for which `realloc` has memory, asks
    for less than `2 ^ 32` bytes. -/
def Fits (s : Block α) (req : Request α) : Prop :=
  ∀ newCapacity mem, req = .reserve newCapacity (some mem) → s.queue.capacity < newCapacity.toNat →
    s.elementSize.toNat * newCapacity.toNat < 2 ^ 32

/-- The invariant. -/
structure BlockInv (s : Block α) : Prop where
  size  : s.queue.size ≤ s.queue.capacity
  bytes : ∃ c : UInt32, c ≠ 0 ∧ s.queue.capacity = c.toNat ∧ s.bytes = s.elementSize * c

theorem pop_shape {q q' : SiLogPQueue α} {alloc : Bool} {code : ErrorCode} {out : Option α}
    (hpop : silogPQueuePop q alloc = some (code, out, q')) :
    q'.capacity = q.capacity ∧ q'.size ≤ q.size := by
  unfold silogPQueuePop at hpop
  split at hpop
  · cases hpop
    exact ⟨rfl, le_refl _⟩
  · dsimp only at hpop
    split at hpop
    · obtain ⟨q₃, hsift, heq⟩ := Option.map_eq_some_iff.mp hpop
      cases heq
      unfold siftDown at hsift
      split at hsift
      · cases hsift
        exact ⟨rfl, Nat.sub_le _ _⟩
      · obtain ⟨r, _, hq⟩ := Option.map_eq_some_iff.mp hsift
        rw [← hq]
        exact ⟨rfl, Nat.sub_le _ _⟩
    · cases hpop
      exact ⟨rfl, Nat.sub_le _ _⟩

/-- What a call other than `SilogPQueueReserve` does to the numbers of the queue. -/
theorem request_shape {q q' : SiLogPQueue α} {req : Request α} {code : ErrorCode} {out : Option α}
    (hle : q.size ≤ q.capacity) (hreq : q.request req = some (code, out, q'))
    (hother : ∀ newCapacity mem, req ≠ .reserve newCapacity mem) :
    q'.capacity = q.capacity ∧ q'.size ≤ q'.capacity := by
  cases req with
  | push element alloc =>
    cases element with
    | none =>
      cases hreq
      exact ⟨rfl, hle⟩
    | some e =>
      by_cases hroom : q.size < q.capacity
      · obtain ⟨b, hpush, _⟩ := silogPQueuePush_room hroom e alloc
        simp only [SiLogPQueue.request, hpush] at hreq
        cases hreq
        exact ⟨rfl, hroom⟩
      · simp only [SiLogPQueue.request, silogPQueuePush_full (not_lt.mp hroom)] at hreq
        cases hreq
        exact ⟨rfl, hle⟩
  | pop wanted alloc =>
    cases wanted with
    | false =>
      cases hreq
      exact ⟨rfl, hle⟩
    | true =>
      obtain ⟨hcap, hsize⟩ := pop_shape hreq
      exact ⟨hcap, hcap ▸ hsize.trans hle⟩
  | peek wanted =>
    cases wanted <;> cases hreq <;> exact ⟨rfl, hle⟩
  | clear =>
    cases hreq
    exact ⟨rfl, Nat.zero_le _⟩
  | reserve newCapacity mem => exact absurd rfl (hother newCapacity mem)
  | nullQueue =>
    cases hreq
    exact ⟨rfl, hle⟩

/-- What `SilogPQueueReserve` does to them. -/
theorem reserve_shape {q : SiLogPQueue α} (hle : q.size ≤ q.capacity) (newCapacity : UInt32)
    (mem : Option (ℕ → α)) :
    ((newCapacity.toNat ≤ q.capacity ∨ mem = none) ∧
      (silogPQueueReserve q newCapacity mem).1 ≠ .ok ∧ (silogPQueueReserve q newCapacity mem).2 = q) ∨
    (q.capacity < newCapacity.toNat ∧ mem.isSome = true ∧
      (silogPQueueReserve q newCapacity mem).1 = .ok ∧
      (silogPQueueReserve q newCapacity mem).2.capacity = newCapacity.toNat ∧
      (silogPQueueReserve q newCapacity mem).2.size ≤ newCapacity.toNat) := by
  unfold silogPQueueReserve
  split
  next hcap => exact Or.inl ⟨Or.inl hcap, show ErrorCode.invalidArg ≠ .ok by decide, rfl⟩
  next hcap =>
    have hgrows := not_le.mp hcap
    cases mem with
    | none => exact Or.inl ⟨Or.inr rfl, show ErrorCode.outOfMemory ≠ .ok by decide, rfl⟩
    | some mem => exact Or.inr ⟨hgrows, rfl, rfl, rfl, hle.trans hgrows.le⟩

section block
variable {s s' : Block α} {req : Request α}

theorem BlockInv.inside_iff (h : BlockInv s) :
    s.Inside ↔ s.elementSize.toNat * s.queue.capacity < 2 ^ 32 := by
  obtain ⟨c, hc, hcap, hbytes⟩ := h.bytes
  unfold Block.Inside
  rw [hcap, hbytes, Slots.inside_iff hc]
  constructor
  · exact And.left
  · intro hlt
    refine ⟨hlt, fun req turns i hi => addressed_of_lt hlt ?_⟩
    rw [← hcap]
    exact slotsOf_lt h.size hi

/-- One call: the invariant, and when the slots are inside afterwards. -/
theorem BlockInv.step (h : BlockInv s) (hstep : BlockStep s req s') :
    BlockInv s' ∧ (s.Inside → (s'.Inside ↔ Fits s req)) := by
  obtain ⟨code, out, hreq⟩ := hstep
  obtain ⟨⟨_, _, q'⟩, hq, heq⟩ := Option.map_eq_some_iff.mp hreq
  cases heq
  by_cases hreserve : ∃ newCapacity mem, req = .reserve newCapacity mem
  · obtain ⟨newCapacity, mem, rfl⟩ := hreserve
    cases hq
    obtain ⟨hrefused, hne, hsame⟩ | ⟨hgrows, hmem, hok, hcap, hsize⟩ := reserve_shape h.size newCapacity mem
    · -- nothing has changed
      have hs : (⟨(silogPQueueReserve s.queue newCapacity mem).2, s.elementSize,
          s.bytesAfter (.reserve newCapacity mem) (silogPQueueReserve s.queue newCapacity mem).1⟩ :
          Block α) = s := by
        rw [hsame]
        unfold Block.bytesAfter
        dsimp only
        rw [if_neg hne]
      have hfits : Fits s (.reserve newCapacity mem) := by
        intro newCapacity' mem' heq hgrows
        cases heq
        rcases hrefused with hle | hnone
        · exact absurd hgrows (not_lt.mpr hle)
        · cases hnone
      rw [hs]
      exact ⟨h, fun hinside => iff_of_true hinside hfits⟩
    · have hinv : BlockInv (⟨(silogPQueueReserve s.queue newCapacity mem).2, s.elementSize,
          s.bytesAfter (.reserve newCapacity mem) (silogPQueueReserve s.queue newCapacity mem).1⟩ :
          Block α) := by
        refine ⟨hcap ▸ hsize, newCapacity, ?_, hcap, if_pos hok⟩
        rintro rfl
        exact absurd hgrows (Nat.not_lt_zero _)
      refine ⟨hinv, fun _ => ?_⟩
      rw [hinv.inside_iff, hcap]
      constructor
      · intro hlt newCapacity' mem' heq _
        cases heq
        exact hlt
      · intro hfits
        obtain ⟨mem, rfl⟩ := Option.isSome_iff_exists.mp hmem
        exact hfits newCapacity mem rfl hgrows
  · have hother : ∀ newCapacity mem, req ≠ .reserve newCapacity mem := by
      intro newCapacity mem heq
      exact hreserve ⟨newCapacity, mem, heq⟩
    obtain ⟨hcap, hle⟩ := request_shape h.size hq hother
    obtain ⟨c, hc, hcapacity, hbytes⟩ := h.bytes
    have hkeep : s.bytesAfter req code = s.bytes := by
      unfold Block.bytesAfter
      split
      next newCapacity mem => exact absurd rfl (hother newCapacity mem)
      next => rfl
    have hinv : BlockInv ⟨q', s.elementSize, s.bytesAfter req code⟩ :=
      ⟨hle, c, hc, hcap.trans hcapacity, hkeep.trans hbytes⟩
    refine ⟨hinv, fun hinside => iff_of_true ?_ fun newCapacity mem heq => absurd heq (hother newCapacity _)⟩
    rw [hinv.inside_iff, hcap]
    exact h.inside_iff.mp hinside

end block

theorem Block.init_ok {elementSize capacity : UInt32} {compare : α → α → ℤ} {mem : Option (ℕ → α)}
    {s : Block α} (hinit : Block.init elementSize capacity compare mem = .ok s) :
    BlockInv s ∧ s.elementSize = elementSize ∧ s.queue.capacity = capacity.toNat := by
  unfold Block.init at hinit
  split at hinit
  · cases hinit
  · split at hinit
    · cases hinit
    next q hq =>
      have hle := size_le_of_init hq
      unfold silogPQueueInit at hq
      split at hq
      · cases hq
      next hcap =>
        cases mem with
        | none => cases hq
        | some mem =>
          cases hq
          cases hinit
          exact ⟨⟨hle, capacity, hcap, rfl, rfl⟩, rfl, rfl⟩

end pqueue

/-! ## Section 3: The ring in its array -/

section ring
open Mpsc

variable {ι : Type*} [DecidableEq ι] {n : ℕ}

/-- The slot whose bytes a step copies. -/
def slotOf (s : State ι n) : Act ι n → Option UInt32
  | .copyByte p _ =>
    match s.push p with
    | .copy _ write _ => some (s.queue.index write)
    | _ => none
  | .popCopyByte _ =>
    match s.pop with
    | .copy read _ _ => some (s.queue.index read)
    | _ => none
  | _ => none

/-- All slots lie inside an array of `bytes` bytes, and so does what the next step copies. -/
def RingInside (elementSize bytes : UInt32) (s : State ι n) : Prop :=
  Slots.Inside elementSize s.queue.capacity.toNat bytes ∧
  ∀ a i, slotOf s a = some i → Addressed elementSize bytes i.toNat

omit [DecidableEq ι] in
theorem slotOf_index {s : State ι n} {a : Act ι n} {i : UInt32} (hi : slotOf s a = some i) :
    ∃ pos, i = s.queue.index pos := by
  unfold slotOf at hi
  split at hi
  · split at hi
    next write _ _ => exact ⟨write, (Option.some.inj hi).symm⟩
    next => cases hi
  · split at hi
    next read _ _ _ => exact ⟨read, (Option.some.inj hi).symm⟩
    next => cases hi
  · cases hi

/-- A step writes to this slot only. -/
theorem slotOf_frame {c c' : Config ι n} {a : Act ι n} (hstep : Mpsc.Step c a c') {i : UInt32}
    (hi : slotOf c.1 a ≠ some i) : c'.1.queue.buffer i = c.1.queue.buffer i := by
  cases a with
  | fetchAdd p e =>
    obtain ⟨_, rfl⟩ := step_fetchAdd hstep
    rfl
  | loadRead p =>
    obtain ⟨_, _, _, ⟨_, rfl⟩ | ⟨_, rfl⟩⟩ := step_loadRead hstep
    · rfl
    · rfl
  | fetchSub p =>
    obtain ⟨_, _, rfl⟩ := step_fetchSub hstep
    rfl
  | cas p _ =>
    obtain ⟨_, _, _, ⟨_, rfl⟩ | ⟨_, rfl⟩ | rfl⟩ := step_cas hstep
    · rfl
    · rfl
    · rfl
  | copyByte p b =>
    obtain ⟨e, w, d, hpc, rfl⟩ := step_copyByte hstep
    simp only [slotOf, hpc, ne_eq, Option.some.injEq] at hi
    exact Function.update_of_ne (Ne.symm hi) _ _
  | storeReady p =>
    obtain ⟨_, _, _, rfl⟩ := step_storeReady hstep
    rfl
  | popLoadRead out =>
    obtain ⟨_, rfl⟩ := step_popLoadRead hstep
    rfl
  | popLoadSeq =>
    obtain ⟨_, _, _, ⟨_, rfl⟩ | ⟨_, rfl⟩⟩ := step_popLoadSeq hstep
    · rfl
    · rfl
  | popCopyByte b =>
    obtain ⟨_, _, _, _, rfl⟩ := step_popCopyByte hstep
    rfl
  | popStoreSeq =>
    obtain ⟨_, _, _, rfl⟩ := step_popStoreSeq hstep
    rfl
  | popStoreRead =>
    obtain ⟨_, _, _, rfl⟩ := step_popStoreRead hstep
    rfl

/-- The mask keeps the slot below the capacity. -/
theorem index_lt {q : SiLogMpscQueue n} (hne : q.capacity ≠ 0)
    (hmask : q.capacityMask = q.capacity - 1) (pos : UInt32) :
    (q.index pos).toNat < q.capacity.toNat := by
  have hle : (q.index pos).toNat ≤ q.capacityMask.toNat := by
    rw [SiLogMpscQueue.index, UInt32.toNat_and]
    exact Nat.and_le_right
  have hpos : 0 < q.capacity.toNat := Nat.pos_of_ne_zero fun h => hne (UInt32.toNat_inj.mp h)
  have hone : 1 ≤ q.capacity := UInt32.le_iff_toNat_le.mpr hpos
  rw [hmask, UInt32.toNat_sub_of_le _ _ hone] at hle
  exact Nat.lt_of_le_of_lt hle (Nat.sub_lt hpos Nat.one_pos)

/-- In every run the slots are inside exactly if the product does not wrap. -/
theorem ringInside_iff {elementSize capacity : UInt32} {mem : Option (UInt32 → Elem n)} {seqOk : Bool}
    {q : SiLogMpscQueue n} (hinit : silogMpscQueueInit capacity mem seqOk = .ok q) :
    (∀ acts (c : Config ι n), Steps Step (initConfig q) acts c →
      RingInside elementSize (elementSize * capacity) c.1) ↔
    elementSize.toNat * capacity.toNat < 2 ^ 32 := by
  obtain ⟨⟨j, hj⟩, bytes, rfl⟩ := init_ok hinit
  have hne : capacity ≠ 0 := by
    intro h
    rw [h] at hj
    exact absurd hj.symm (Nat.two_pow_pos j).ne'
  constructor
  · intro h
    exact (Slots.inside_iff hne).mp (h [] _ (Steps.nil _)).1
  · intro hlt acts c hrun
    have hshape : c.1.queue.capacity = capacity ∧ c.1.queue.capacityMask = capacity - 1 := by
      refine hrun.invariant
        (I := fun c => c.1.queue.capacity = capacity ∧ c.1.queue.capacityMask = capacity - 1)
        (fun c a c' hstep h => ?_) ⟨rfl, rfl⟩
      obtain ⟨hcap, hmask⟩ := shape_step hstep
      exact ⟨hcap.trans h.1, hmask.trans h.2⟩
    unfold RingInside
    rw [hshape.1]
    refine ⟨(Slots.inside_iff hne).mpr hlt, fun a i hi => addressed_of_lt hlt ?_⟩
    obtain ⟨pos, rfl⟩ := slotOf_index hi
    have hindex := index_lt (hshape.1.symm ▸ hne) (hshape.2.trans (by rw [hshape.1])) pos
    rw [hshape.1] at hindex
    exact hindex

end ring

/-! ## Section 4: Both queues -/

section queues
open PQueue Mpsc

variable {α ι : Type*} [DecidableEq ι]

/-- **Slots inside the array.** `SilogPQueueInit` and `SilogMpscQueueInit` make room for all slots
    exactly if the product of their arguments does not wrap.  The priority queue then stays
    inside its array exactly as long as no `SilogPQueueReserve` that succeeds wraps. -/
theorem queue_slots_inside_iff (elementSize capacity : UInt32) :
    (∀ (compare : α → α → ℤ) (mem : Option (ℕ → α)) (s₀ : Block α),
      Block.init elementSize capacity compare mem = .ok s₀ →
      (s₀.Inside ↔ elementSize.toNat * capacity.toNat < 2 ^ 32) ∧
      (elementSize.toNat * capacity.toNat < 2 ^ 32 → ∀ reqs s,
        Steps (Ensuring BlockStep Block.Inside) s₀ reqs s ↔ Steps (Guarded BlockStep Fits) s₀ reqs s)) ∧
    (∀ (mem : Option (UInt32 → Elem elementSize.toNat)) (seqOk : Bool)
        (q : SiLogMpscQueue elementSize.toNat),
      silogMpscQueueInit capacity mem seqOk = .ok q →
      ((∀ acts (c : Config ι elementSize.toNat), Steps Mpsc.Step (initConfig q) acts c →
        RingInside elementSize (elementSize * capacity) c.1) ↔
      elementSize.toNat * capacity.toNat < 2 ^ 32)) := by
  constructor
  · intro compare mem s₀ hinit
    obtain ⟨hinv, hsize, hcap⟩ := Block.init_ok hinit
    have hiff : s₀.Inside ↔ elementSize.toNat * capacity.toNat < 2 ^ 32 := by
      rw [hinv.inside_iff, hsize, hcap]
    refine ⟨hiff, fun hlt reqs s => ?_⟩
    exact ensuring_iff_guarded hinv (hiff.mpr hlt)
      (fun _ _ _ hstep h _ _ => (h.step hstep).1)
      (fun _ _ _ hstep h hinside => (h.step hstep).2 hinside)
  · intro mem seqOk q hinit
    exact ringInside_iff hinit

end queues

/-! ### Elements of eight bytes -/

/-- Eight-byte words by value. -/
def byWord (a b : UInt64) : ℤ := (a.toNat : ℤ) - b.toNat

/-- Four words. -/
def words : Block UInt64 where
  queue := { buffer := fun _ => 0, capacity := 4, size := 0, compare := byWord }
  elementSize := 8
  bytes := 32

def wordCalls : List (PQueue.Request UInt64) :=
  [.push (some 5) true, .reserve 8 (some fun _ => 0), .push (some 7) true, .pop true true]

theorem wordCalls_fit : ∃ s, Steps (Guarded BlockStep Fits) words wordCalls s := by
  refine ⟨_, Steps.cons _ _ ⟨⟨_, _, rfl⟩, ?_⟩ (Steps.cons _ _ ⟨⟨_, _, rfl⟩, ?_⟩
    (Steps.cons _ _ ⟨⟨_, _, rfl⟩, ?_⟩ (Steps.cons _ _ ⟨⟨_, _, rfl⟩, ?_⟩ (Steps.nil _))))⟩
  · intro newCapacity mem heq
    cases heq
  · intro newCapacity mem heq _
    cases heq
    decide
  · intro newCapacity mem heq
    cases heq
  · intro newCapacity mem heq
    cases heq

/-- A ring of four words. -/
def wordRing : Mpsc.SiLogMpscQueue 8 where
  buffer := fun _ _ => 0
  capacity := 4
  writePos := 0
  readPos := 0
  seq := fun i => i
  capacityMask := 3

/-- Its producer is about to copy. -/
def copying : Mpsc.Config Unit 8 :=
  (exec Mpsc.next (Mpsc.initConfig wordRing)
    [.fetchAdd () (fun _ => 1), .loadRead (), .cas () false]).get (by decide)

theorem copying_run : Steps Mpsc.Step (Mpsc.initConfig wordRing)
    [.fetchAdd () (fun _ => 1), .loadRead (), .cas () false] copying :=
  steps_of_exec Mpsc.step_of_next (Option.some_get (by decide)).symm

theorem queue_slots_inside_iff_words :
    (∃ s, Steps (Ensuring BlockStep Block.Inside) words wordCalls s) ∧
    slotOf copying.1 (.copyByte () 0) = some 0 ∧ RingInside 8 32 copying.1 := by
  obtain ⟨hblock, hring⟩ := queue_slots_inside_iff (α := UInt64) (ι := Unit) 8 4
  obtain ⟨s, hs⟩ := wordCalls_fit
  refine ⟨⟨s, ?_⟩, by decide, ?_⟩
  · exact ((hblock byWord (some fun _ => 0) words rfl).2 (by decide) wordCalls s).mpr hs
  · exact (hring (some fun _ _ => 0) true wordRing rfl).mpr (by decide) _ _ copying_run

/-! ### A product that wraps -/

/-- Large elements by their first byte. -/
def byFirst (a b : Mpsc.Elem 65537) : ℤ := ((a 0).toNat : ℤ) - (b 0).toNat

/-- `65537 * 65536` is `65536` in 32 bits. -/
def wrapped : Block (Mpsc.Elem 65537) where
  queue := { buffer := fun _ _ => 0, capacity := 65536, size := 0, compare := byFirst }
  elementSize := 65537
  bytes := 65536

def wrappedRing : Mpsc.SiLogMpscQueue 65537 where
  buffer := fun _ _ => 0
  capacity := 65536
  writePos := 0
  readPos := 0
  seq := fun i => i
  capacityMask := 65535

/-- Both functions return `SILOG_OK`, and the first slot is larger than the array.  The first
    `SilogPQueuePush` writes to it. -/
theorem first_slot_outside :
    Block.init 65537 65536 byFirst (some fun _ _ => 0) = .ok wrapped ∧
    ¬ Slots.Inside wrapped.elementSize wrapped.queue.capacity wrapped.bytes ∧
    0 ∈ slotsOf wrapped.queue 0 (.push (some fun _ => 1) true) ∧
    ¬ Addressed wrapped.elementSize wrapped.bytes 0 ∧
    Mpsc.silogMpscQueueInit 65536 (some fun _ _ => 0) true = .ok wrappedRing ∧
    ¬ RingInside (ι := Unit) 65537 (65537 * 65536) (Mpsc.initConfig wrappedRing).1 := by
  have hslot : ¬ Slots.Inside 65537 65536 65536 := by
    intro h
    exact absurd (h 0 (by decide)) (by decide)
  refine ⟨rfl, hslot, by decide, by unfold Addressed; decide, rfl, ?_⟩
  intro h
  exact hslot h.1

end SiLog.Layout
