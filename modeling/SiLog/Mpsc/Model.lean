import SiLog.Error
import SiLog.Lib.Lts
import Mathlib.Data.Fintype.Pi
import Mathlib.Logic.Function.Basic

/-! # The multi-producer single-consumer queue (`silog_mpsc.c`)

    The queue is a ring of `capacity` slots with a 32-bit write position
    shared by the producers, a 32-bit read position owned by the consumer
    and one 32-bit sequence marker per slot.  For the position `p` that is
    due in a slot the marker reads

    - `p` when the slot is free,
    - `p + capacity` while a producer copies its element in,
    - `p + 1` when the element is ready.

    `Push` takes a position with `fetch_add`, gives it back with
    `fetch_sub` when the queue looks full, and otherwise claims the slot
    with a compare-exchange.

    The model has one step for every atomic operation and one for every
    byte that a copy moves, in any order; the local computation that
    follows an atomic operation belongs to its step.  The queue is
    initialised and the arguments are not NULL, so the entry checks of
    `Push` and `Pop` pass.  All operations are sequentially consistent.
-/

namespace SiLog.Mpsc

/-! ## Section 1: The queue -/

/-- The content of an element: `elementSize = n` bytes. -/
abbrev Elem (n : ℕ) : Type := Fin n → UInt8

/-- `SiLogMpscQueue` with elements of `n` bytes. -/
structure SiLogMpscQueue (n : ℕ) where
  buffer       : UInt32 → Elem n
  capacity     : UInt32
  writePos     : UInt32
  readPos      : UInt32
  seq          : UInt32 → UInt32
  capacityMask : UInt32

/-- `SilogMpscQueueInit`.  `bufferMem` is what the allocator returns for the
    buffer (its bytes are not initialised), `seqOk` whether the second
    allocation succeeds.  A buffer with a place for every index is what the
    call gets when `elementSize * capacity` is less than `2^32`, the 32-bit
    number of bytes that it asks for. -/
def silogMpscQueueInit {n : ℕ} (capacity : UInt32) (bufferMem : Option (UInt32 → Elem n))
    (seqOk : Bool) : Except ErrorCode (SiLogMpscQueue n) :=
  if n = 0 ∨ capacity = 0 then .error .invalidArg
  else if capacity &&& (capacity - 1) ≠ 0 then .error .invalidArg
  else match bufferMem with
    | none => .error .outOfMemory
    | some mem =>
      if seqOk = false then .error .outOfMemory
      else .ok
        { buffer := mem
          capacity := capacity
          writePos := 0
          readPos := 0
          seq := fun i => i
          capacityMask := capacity - 1 }

/-- The slot of a position: `pos & capacityMask`. -/
def SiLogMpscQueue.index {n : ℕ} (q : SiLogMpscQueue n) (pos : UInt32) : UInt32 :=
  pos &&& q.capacityMask

/-- `atomic_fetch_add(&writePos, 1)`; the word it returns is the old `writePos`. -/
def SiLogMpscQueue.fetchAdd {n : ℕ} (q : SiLogMpscQueue n) : SiLogMpscQueue n :=
  { q with writePos := q.writePos + 1 }

/-- `atomic_fetch_sub(&writePos, 1)`. -/
def SiLogMpscQueue.fetchSub {n : ℕ} (q : SiLogMpscQueue n) : SiLogMpscQueue n :=
  { q with writePos := q.writePos - 1 }

/-- `atomic_store(&readPos, v)`. -/
def SiLogMpscQueue.storeRead {n : ℕ} (q : SiLogMpscQueue n) (v : UInt32) : SiLogMpscQueue n :=
  { q with readPos := v }

/-- `atomic_store(&seq[i], v)`. -/
def SiLogMpscQueue.storeSeq {n : ℕ} (q : SiLogMpscQueue n) (i v : UInt32) : SiLogMpscQueue n :=
  { q with seq := Function.update q.seq i v }

/-- One byte of a copy into slot `i`. -/
def SiLogMpscQueue.writeByte {n : ℕ} (q : SiLogMpscQueue n) (i : UInt32) (b : Fin n)
    (e : Elem n) : SiLogMpscQueue n :=
  { q with buffer := Function.update q.buffer i (Function.update (q.buffer i) b (e b)) }

/-- The full check of `Push`: `write - read < capacity` in 32-bit arithmetic. -/
def SiLogMpscQueue.hasRoom {n : ℕ} (q : SiLogMpscQueue n) (write : UInt32) : Prop :=
  write - q.readPos < q.capacity

instance {n : ℕ} (q : SiLogMpscQueue n) (write : UInt32) : Decidable (q.hasRoom write) :=
  inferInstanceAs (Decidable (_ < _))

/-! ## Section 2: Threads -/

/-- Where a producer is in `SilogMpscQueuePush`. -/
inductive PushPc (n : ℕ) where
  | idle
  /-- `fetch_add` has returned `write`; `readPos` is loaded next. -/
  | ticketed (e : Elem n) (write : UInt32)
  /-- The queue looked full; `fetch_sub` is next. -/
  | rollback (write : UInt32)
  /-- In the compare-exchange loop. -/
  | claim (e : Elem n) (write : UInt32)
  /-- In `memcpy_s`, with the bytes in `done` copied. -/
  | copy (e : Elem n) (write : UInt32) (done : Finset (Fin n))

/-- Where the consumer is in `SilogMpscQueuePop`; `out` is the caller's buffer. -/
inductive PopPc (n : ℕ) where
  | idle
  /-- `readPos` is loaded; the marker of its slot is next. -/
  | loaded (read : UInt32) (out : Elem n)
  /-- In `memcpy_s`, with the bytes in `done` copied. -/
  | copy (read : UInt32) (out : Elem n) (done : Finset (Fin n))
  /-- The slot is marked free; `readPos` is stored next. -/
  | advance (read : UInt32) (out : Elem n)

/-- The queue with its producers `ι` and its consumer. -/
structure State (ι : Type*) (n : ℕ) where
  queue : SiLogMpscQueue n
  push  : ι → PushPc n
  pop   : PopPc n

/-- The atomic operations and byte copies of the two functions. -/
inductive Act (ι : Type*) (n : ℕ) where
  | fetchAdd     : ι → Elem n → Act ι n
  | loadRead     : ι → Act ι n
  | fetchSub     : ι → Act ι n
  /-- The flag is set when the weak compare-exchange fails spuriously. -/
  | cas          : ι → Bool → Act ι n
  | copyByte     : ι → Fin n → Act ι n
  | storeReady   : ι → Act ι n
  | popLoadRead  : Elem n → Act ι n
  | popLoadSeq   : Act ι n
  | popCopyByte  : Fin n → Act ι n
  | popStoreSeq  : Act ι n
  | popStoreRead : Act ι n

/-! ## Section 3: Steps -/

section steps
variable {ι : Type*} [DecidableEq ι] {n : ℕ}

/-- Producer `p` goes to `pc` and the queue becomes `q`. -/
def State.setPush (s : State ι n) (q : SiLogMpscQueue n) (p : ι) (pc : PushPc n) : State ι n :=
  { s with queue := q, push := Function.update s.push p pc }

/-- The consumer goes to `pc` and the queue becomes `q`. -/
def State.setPop (s : State ι n) (q : SiLogMpscQueue n) (pc : PopPc n) : State ι n :=
  { s with queue := q, pop := pc }

/-- A turn of the loop `while (!compare_exchange_weak(&seq[index], &expected, desired))`. -/
def casTurn (q : SiLogMpscQueue n) (e : Elem n) (write : UInt32) (spurious : Bool) :
    SiLogMpscQueue n × PushPc n :=
  let index := q.index write
  let desired := write + q.capacity
  if q.seq index = write ∧ spurious = false then
    (q.storeSeq index desired, .copy e write ∅)
  else if q.seq index = desired then
    -- "already written, should not happen": leaves the loop without the slot
    (q, .copy e write ∅)
  else
    (q, .claim e write)

/-- One step of a producer in `SilogMpscQueuePush`. -/
def pushStep (s : State ι n) (p : ι) : Act ι n → Option (State ι n)
  | .fetchAdd _ e =>
    match s.push p with
    | .idle => some (s.setPush s.queue.fetchAdd p (.ticketed e s.queue.writePos))
    | _ => none
  | .loadRead _ =>
    match s.push p with
    | .ticketed e write =>
      -- a call that finds the queue full goes on to give its position back
      some (s.setPush s.queue p
        (if s.queue.hasRoom write then .claim e write else .rollback write))
    | _ => none
  | .fetchSub _ =>
    match s.push p with
    -- `SILOG_TRANS_QUEUE_FULL`
    | .rollback _ => some (s.setPush s.queue.fetchSub p .idle)
    | _ => none
  | .cas _ spurious =>
    match s.push p with
    | .claim e write =>
      let r := casTurn s.queue e write spurious
      some (s.setPush r.1 p r.2)
    | _ => none
  | .copyByte _ b =>
    match s.push p with
    | .copy e write done =>
      -- `memcpy_s` moves the bytes in any order, each of them once
      if b ∈ done then none
      else some (s.setPush (s.queue.writeByte (s.queue.index write) b e) p
        (.copy e write (insert b done)))
    | _ => none
  | .storeReady _ =>
    match s.push p with
    | .copy _ write done =>
      -- the copy is complete; `SILOG_OK`
      if done = Finset.univ then
        some (s.setPush (s.queue.storeSeq (s.queue.index write) (write + 1)) p .idle)
      else none
    | _ => none
  | _ => none

/-- One step of the consumer in `SilogMpscQueuePop`. -/
def popStep (s : State ι n) : Act ι n → Option (State ι n)
  | .popLoadRead out =>
    match s.pop with
    | .idle => some (s.setPop s.queue (.loaded s.queue.readPos out))
    | _ => none
  | .popLoadSeq =>
    match s.pop with
    | .loaded read out =>
      -- another marker than `read + 1` is `SILOG_TRANS_QUEUE_EMPTY`
      some (s.setPop s.queue
        (if s.queue.seq (s.queue.index read) ≠ read + 1 then .idle else .copy read out ∅))
    | _ => none
  | .popCopyByte b =>
    match s.pop with
    | .copy read out done =>
      if b ∈ done then none
      else some (s.setPop s.queue
        (.copy read (Function.update out b (s.queue.buffer (s.queue.index read) b))
          (insert b done)))
    | _ => none
  | .popStoreSeq =>
    match s.pop with
    | .copy read out done =>
      -- the slot is free for the position one lap later
      if done = Finset.univ then
        some (s.setPop (s.queue.storeSeq (s.queue.index read) (read + s.queue.capacity))
          (.advance read out))
      else none
    | _ => none
  | .popStoreRead =>
    match s.pop with
    -- `SILOG_OK`
    | .advance read _ => some (s.setPop (s.queue.storeRead (read + 1)) .idle)
    | _ => none
  | _ => none

/-- One step of the system. -/
def step (s : State ι n) (a : Act ι n) : Option (State ι n) :=
  match a with
  | .fetchAdd p _ | .loadRead p | .fetchSub p | .cas p _ | .copyByte p _ | .storeReady p =>
    pushStep s p a
  | .popLoadRead _ | .popLoadSeq | .popCopyByte _ | .popStoreSeq | .popStoreRead =>
    popStep s a

/-! ## Section 4: History

    What a run has done so far, for the statements about it.  No step
    reads it. -/

/-- `written` is `writePos` without the wrap and `ticket p` the position that
    the current `Push` of `p` took, without the wrap.  `accepted` lists the
    `Push` calls that passed the full check with their positions, `returnedOk`
    those that returned `SILOG_OK`, and `popped` the elements that `Pop`
    returned, all in the order of the run. -/
structure History (ι : Type*) (n : ℕ) where
  written    : ℕ
  ticket     : ι → ℕ
  accepted   : List (ℕ × Elem n)
  returnedOk : List (ℕ × Elem n)
  popped     : List (Elem n)

/-- `p` takes a position. -/
def History.issue (h : History ι n) (p : ι) : History ι n :=
  { h with written := h.written + 1, ticket := Function.update h.ticket p h.written }

/-- A position is given back. -/
def History.giveBack (h : History ι n) : History ι n :=
  { h with written := h.written - 1 }

/-- The `Push` of `e` by `p` passes the full check. -/
def History.accept (h : History ι n) (p : ι) (e : Elem n) : History ι n :=
  { h with accepted := h.accepted ++ [(h.ticket p, e)] }

/-- The `Push` of `e` by `p` returns `SILOG_OK`. -/
def History.returnOk (h : History ι n) (p : ι) (e : Elem n) : History ι n :=
  { h with returnedOk := h.returnedOk ++ [(h.ticket p, e)] }

/-- `Pop` returns `SILOG_OK` with `out`. -/
def History.pop (h : History ι n) (out : Elem n) : History ι n :=
  { h with popped := h.popped ++ [out] }

/-- What a step of the system adds to the history. -/
def observe (s : State ι n) (h : History ι n) (a : Act ι n) : History ι n :=
  match a with
  | .fetchAdd p _ => h.issue p
  | .loadRead p =>
    match s.push p with
    | .ticketed e write => if s.queue.hasRoom write then h.accept p e else h
    | _ => h
  | .fetchSub _ => h.giveBack
  | .storeReady p =>
    match s.push p with
    | .copy e _ _ => h.returnOk p e
    | _ => h
  | .popStoreRead =>
    match s.pop with
    | .advance _ out => h.pop out
    | _ => h
  | _ => h

/-- A configuration: the system and what it has done. -/
abbrev Config (ι : Type*) (n : ℕ) : Type _ := State ι n × History ι n

/-- The transition relation on configurations. -/
def Step (c : Config ι n) (a : Act ι n) (c' : Config ι n) : Prop :=
  step c.1 a = some c'.1 ∧ c'.2 = observe c.1 c.2 a

/-- The configuration right after `SilogMpscQueueInit`. -/
def initConfig (q : SiLogMpscQueue n) : Config ι n :=
  ({ queue := q, push := fun _ => .idle, pop := .idle },
   { written := 0, ticket := fun _ => 0, accepted := [], returnedOk := [], popped := [] })

/-- The configuration after a step, if it is enabled. -/
def next (c : Config ι n) (a : Act ι n) : Option (Config ι n) :=
  (step c.1 a).map fun s' => (s', observe c.1 c.2 a)

theorem step_of_next (c : Config ι n) (a : Act ι n) (c' : Config ι n) (h : next c a = some c') :
    Step c a c' := by
  obtain ⟨s', hs', rfl⟩ := Option.map_eq_some_iff.mp h
  exact ⟨hs', rfl⟩

theorem next_of_step {c c' : Config ι n} {a : Act ι n} (h : Step c a c') : next c a = some c' := by
  rw [next, h.1, Option.map_some, ← h.2]

/-- No `Push` and no `Pop` is in progress. -/
def Quiet (s : State ι n) : Prop := (∀ p, s.push p = .idle) ∧ s.pop = .idle

end steps

/-! ## Section 5: A `Pop` that runs on its own -/

/-- `SilogMpscQueuePop` from its call to its return, when nothing else runs. -/
def silogMpscQueuePop {n : ℕ} (q : SiLogMpscQueue n) :
    ErrorCode × Option (Elem n) × SiLogMpscQueue n :=
  let read := q.readPos
  let index := q.index read
  if q.seq index ≠ read + 1 then (.transQueueEmpty, none, q)
  else (.ok, some (q.buffer index),
    (q.storeSeq index (read + q.capacity)).storeRead (read + 1))

/-- Calling `Pop` until it returns `SILOG_TRANS_QUEUE_EMPTY` yields `es`. -/
inductive Drains {n : ℕ} : SiLogMpscQueue n → List (Elem n) → SiLogMpscQueue n → Prop where
  | empty : ∀ {q q' : SiLogMpscQueue n} {o},
      silogMpscQueuePop q = (.transQueueEmpty, o, q') → Drains q [] q'
  | pop : ∀ {q q₁ q' : SiLogMpscQueue n} {e : Elem n} {es : List (Elem n)},
      silogMpscQueuePop q = (.ok, some e, q₁) → Drains q₁ es q' → Drains q (e :: es) q'

end SiLog.Mpsc
