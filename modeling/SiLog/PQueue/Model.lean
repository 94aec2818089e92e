import SiLog.Error
import SiLog.Lib.Heap
import SiLog.Lib.Lts
import Mathlib.Algebra.Group.Nat.Defs

/-! # The priority queue (`silog_pqueue.c`)

    A binary heap in an array of `capacity` elements, ordered by the caller's
    comparison: the element at index 0 is to be one of the highest.  `SiftUp` and
    `SiftDown` keep the element to be placed in a buffer of their own, whose
    allocation may fail; they then leave the array as it is.

    Indices are 32-bit words.  Only the child indices of `SiftDown` can wrap.
-/

namespace SiLog.PQueue

variable {α : Type*}

/-! ## Section 1: The queue -/

/-- `SiLogPQueue` with elements in `α`. -/
structure SiLogPQueue (α : Type*) where
  buffer   : ℕ → α
  capacity : ℕ
  size     : ℕ
  compare  : α → α → ℤ

/-- `SilogPQueueInit`.  `mem` is what the allocator returns (its bytes are not
    initialised). -/
def silogPQueueInit (capacity : UInt32) (compare : α → α → ℤ) (mem : Option (ℕ → α)) :
    Except ErrorCode (SiLogPQueue α) :=
  if capacity = 0 then .error .invalidArg
  else match mem with
    | none => .error .outOfMemory
    | some mem =>
      .ok { buffer := mem, capacity := capacity.toNat, size := 0, compare := compare }

/-- The elements stored. -/
def SiLogPQueue.elems (q : SiLogPQueue α) : Multiset α := Heap.elems q.buffer q.size

/-! ## Section 2: Sifting -/

/-- The loop of `SiftUp`: the array and the index where it stops.  The index
    shrinks, so the index itself is enough fuel. -/
def siftUpLoop (compare : α → α → ℤ) (temp : α) : ℕ → (ℕ → α) → ℕ → (ℕ → α) × ℕ
  | 0, buffer, index => (buffer, index)
  | fuel + 1, buffer, index =>
    if index = 0 then (buffer, index)
    else
      let parent := (index - 1) / 2
      -- the source compares with the temporary here and moves the parent down
      if compare temp (buffer parent) ≤ 0 then (buffer, index)
      else siftUpLoop compare temp fuel (Function.update buffer index (buffer parent)) parent

/-- `SiftUp`; `alloc` tells whether the temporary is allocated. -/
def siftUp (q : SiLogPQueue α) (index : ℕ) (alloc : Bool) : SiLogPQueue α :=
  if alloc = false then q
  else
    let temp := q.buffer index
    let r := siftUpLoop q.compare temp index q.buffer index
    { q with buffer := Function.update r.1 r.2 temp }

/-- The index that `SiftDown` chooses among `index` and its children.  It compares
    with what stands in the array at `index`. -/
def largestOf (compare : α → α → ℤ) (size : ℕ) (buffer : ℕ → α) (index : ℕ) : ℕ :=
  -- `index` is the slot, which after a move still holds the element copied up
  let left := (2 * index + 1) % 2 ^ 32
  let right := (2 * index + 2) % 2 ^ 32
  let largest := if left < size ∧ 0 < compare (buffer left) (buffer index) then left else index
  if right < size ∧ 0 < compare (buffer right) (buffer largest) then right else largest

/-- The loop of `SiftDown`; `none` when the fuel runs out. -/
def siftDownLoop (compare : α → α → ℤ) (size : ℕ) : ℕ → (ℕ → α) → ℕ → Option ((ℕ → α) × ℕ)
  | 0, _, _ => none
  | fuel + 1, buffer, index =>
    let largest := largestOf compare size buffer index
    if largest = index then some (buffer, index)
    else siftDownLoop compare size fuel (Function.update buffer index (buffer largest)) largest

/-- `SiftDown`; `none` if it does not return. -/
def siftDown (q : SiLogPQueue α) (index : ℕ) (alloc : Bool) : Option (SiLogPQueue α) :=
  if alloc = false then some q
  else
    let temp := q.buffer index
    (siftDownLoop q.compare q.size (q.size + 1) q.buffer index).map fun r =>
      { q with buffer := Function.update r.1 r.2 temp }

/-! ## Section 3: Operations -/

/-- `SilogPQueuePush` -/
def silogPQueuePush (q : SiLogPQueue α) (element : α) (alloc : Bool) : ErrorCode × SiLogPQueue α :=
  if q.capacity ≤ q.size then (.busy, q)
  else
    let q' := { q with buffer := Function.update q.buffer q.size element, size := q.size + 1 }
    -- a failed allocation in `SiftUp` is not reported
    (.ok, siftUp q' (q'.size - 1) alloc)

/-- `SilogPQueuePop`: the code, the element returned and the queue. -/
def silogPQueuePop (q : SiLogPQueue α) (alloc : Bool) :
    Option (ErrorCode × Option α × SiLogPQueue α) :=
  if q.size = 0 then some (.transQueueEmpty, none, q)
  else
    let out := q.buffer 0
    let q₁ := { q with size := q.size - 1 }
    if 0 < q₁.size then
      let q₂ := { q₁ with buffer := Function.update q₁.buffer 0 (q₁.buffer q₁.size) }
      (siftDown q₂ 0 alloc).map fun q₃ => (.ok, some out, q₃)
    else some (.ok, some out, q₁)

/-- `SilogPQueuePeek` -/
def silogPQueuePeek (q : SiLogPQueue α) : ErrorCode × Option α :=
  if q.size = 0 then (.transQueueEmpty, none) else (.ok, some (q.buffer 0))

/-- `SilogPQueueClear` -/
def silogPQueueClear (q : SiLogPQueue α) : SiLogPQueue α := { q with size := 0 }

/-- `SilogPQueueReserve`.  `mem` is the array after `realloc`, which keeps the elements
    below the old capacity. -/
def silogPQueueReserve (q : SiLogPQueue α) (newCapacity : UInt32) (mem : Option (ℕ → α)) :
    ErrorCode × SiLogPQueue α :=
  if newCapacity.toNat ≤ q.capacity then (.invalidArg, q)
  else match mem with
    | none => (.outOfMemory, q)
    | some mem =>
      (.ok, { q with buffer := fun i => if i < q.capacity then q.buffer i else mem i
                     capacity := newCapacity.toNat })

/-! ## Section 4: Runs -/

/-- A call with what its allocations return. -/
inductive Op (α : Type*) where
  | push (element : α) (alloc : Bool)
  | pop (alloc : Bool)
  | peek
  | clear
  | reserve (newCapacity : UInt32) (mem : Option (ℕ → α))

/-- The queue after a complete call; `none` if the call does not return. -/
def SiLogPQueue.call (q : SiLogPQueue α) : Op α → Option (SiLogPQueue α)
  | .push element alloc => some (silogPQueuePush q element alloc).2
  | .pop alloc => (silogPQueuePop q alloc).map fun r => r.2.2
  | .peek => some q
  | .clear => some (silogPQueueClear q)
  | .reserve newCapacity mem => some (silogPQueueReserve q newCapacity mem).2

/-- The transition relation. -/
def Step (q : SiLogPQueue α) (op : Op α) (q' : SiLogPQueue α) : Prop := q.call op = some q'

/-- All allocations of a call succeed. -/
def Op.Allocates : Op α → Prop
  | .push _ alloc => alloc = true
  | .pop alloc => alloc = true
  | .peek => True
  | .clear => True
  | .reserve _ mem => mem.isSome

instance {α : Type*} : (op : Op α) → Decidable op.Allocates
  | .push _ alloc => inferInstanceAs (Decidable (alloc = true))
  | .pop alloc => inferInstanceAs (Decidable (alloc = true))
  | .peek => isTrue trivial
  | .clear => isTrue trivial
  | .reserve _ mem => inferInstanceAs (Decidable (mem.isSome = true))

/-- The comparison is a total preorder: swapping the arguments turns the sign, and
    "at least as high" is transitive. -/
structure TotalPreorder (compare : α → α → ℤ) : Prop where
  sign  : ∀ a b, (compare a b).sign = -(compare b a).sign
  trans : ∀ a b c, 0 ≤ compare a b → 0 ≤ compare b c → 0 ≤ compare a c

end SiLog.PQueue
