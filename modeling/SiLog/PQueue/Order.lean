import SiLog.PQueue.Model

/-! # The order of the queue

    `SiftUp` restores the heap order after a push.  `SiftDown` does not after a
    pop: from its second round on it compares the children with what it has
    just copied away and not with the element to be placed, so in a heap that
    element always ends up at most one level below the root.  The root stays
    the highest element in every run in which no pop needs more than that.
-/

open Lts Heap

namespace SiLog.PQueue

variable {α : Type*} {compare : α → α → ℤ}

/-! ## Section 1: Comparison -/

/-- `a` is at least as high as `b`. -/
def Above (compare : α → α → ℤ) (a b : α) : Prop := 0 ≤ compare a b

namespace TotalPreorder

theorem neg_iff (hc : TotalPreorder compare) (a b : α) : compare a b < 0 ↔ 0 < compare b a := by
  rw [← Int.sign_eq_neg_one_iff_neg, ← Int.sign_eq_one_iff_pos, hc.sign]
  omega

theorem above_of_nonpos (hc : TotalPreorder compare) {a b : α} (h : compare a b ≤ 0) :
    Above compare b a := by
  have := hc.neg_iff b a
  unfold Above
  omega

theorem refl (hc : TotalPreorder compare) : Std.Refl (Above compare) where
  refl a := by
    have := hc.neg_iff a a
    unfold Above
    omega

theorem isTrans (hc : TotalPreorder compare) : IsTrans α (Above compare) where
  trans := hc.trans

end TotalPreorder

/-! ## Section 2: `SiftUp` -/

/-- `SiftUp` moves elements and loses none, whatever the comparison. -/
theorem elems_siftUpLoop (compare : α → α → ℤ) (temp : α) {fuel n i : ℕ} {b : ℕ → α} (hi : i < n) :
    (siftUpLoop compare temp fuel b i).2 < n ∧
    elems (Function.update (siftUpLoop compare temp fuel b i).1
      (siftUpLoop compare temp fuel b i).2 temp) n = elems (Function.update b i temp) n := by
  induction fuel generalizing b i with
  | zero => exact ⟨hi, rfl⟩
  | succ fuel ih =>
    unfold siftUpLoop
    split
    · exact ⟨hi, rfl⟩
    · dsimp only
      split
      · exact ⟨hi, rfl⟩
      · -- the parent moves down; `temp` is placed further up
        have hp : (i - 1) / 2 < n := by omega
        obtain ⟨hlt, hel⟩ := ih (b := Function.update b i (b ((i - 1) / 2))) hp
        exact ⟨hlt, hel.trans (elems_move b temp hi hp)⟩

/-- `SiftUp` restores the order. -/
theorem ordered_siftUpLoop (hc : TotalPreorder compare) {temp : α} {fuel n i : ℕ} {b : ℕ → α}
    (hfuel : i ≤ fuel) (hi : i < n) (h : Rising (Above compare) b n i temp) :
    Ordered (Above compare) (Function.update (siftUpLoop compare temp fuel b i).1
      (siftUpLoop compare temp fuel b i).2 temp) n := by
  have := hc.isTrans
  induction fuel generalizing b i with
  | zero =>
    exact h.place (fun hpos => by omega)
  | succ fuel ih =>
    unfold siftUpLoop
    split
    · exact h.place (fun hpos => by omega)
    · next hne =>
      dsimp only
      split
      · next hle => exact h.place (fun _ => hc.above_of_nonpos hle)
      · next hgt =>
        -- `temp` is above the parent: the hole moves up and the order around it stays
        have hx : Above compare temp (b (parent i)) := by
          show 0 ≤ compare temp (b ((i - 1) / 2))
          omega
        have hlt : parent i < i := parent_lt (by omega)
        exact ih (show parent i ≤ fuel by omega) (show parent i < n by omega)
          (h.step (by omega) hi hx)

/-! ## Section 3: `SiftDown` -/

/-- What `SiftDown` chooses among `index` and its children, in arithmetic without wrap. -/
def chosen (compare : α → α → ℤ) (size : ℕ) (buffer : ℕ → α) (index : ℕ) : ℕ :=
  let largest :=
    if 2 * index + 1 < size ∧ 0 < compare (buffer (2 * index + 1)) (buffer index) then 2 * index + 1
    else index
  if 2 * index + 2 < size ∧ 0 < compare (buffer (2 * index + 2)) (buffer largest) then 2 * index + 2
  else largest

/-- From index `2 ^ 31 - 1` on the right child wraps. -/
theorem largestOf_eq_chosen (compare : α → α → ℤ) (n : ℕ) (b : ℕ → α) {i : ℕ} (hi : i < 2 ^ 31 - 1) :
    largestOf compare n b i = chosen compare n b i := by
  have hl : (2 * i + 1) % 2 ^ 32 = 2 * i + 1 := Nat.mod_eq_of_lt (by omega)
  have hr : (2 * i + 2) % 2 ^ 32 = 2 * i + 2 := Nat.mod_eq_of_lt (by omega)
  unfold largestOf chosen
  rw [hl, hr]

/-- The choice is the index itself or one of its children. -/
theorem chosen_cases (compare : α → α → ℤ) (n : ℕ) (b : ℕ → α) (i : ℕ) :
    chosen compare n b i = i ∨
    ((chosen compare n b i = 2 * i + 1 ∨ chosen compare n b i = 2 * i + 2) ∧
      chosen compare n b i < n) := by
  unfold chosen
  dsimp only
  -- `m` is the choice after the left child
  generalize hm : (if 2 * i + 1 < n ∧ 0 < compare (b (2 * i + 1)) (b i) then 2 * i + 1 else i) = m
  have hm' : m = i ∨ (m = 2 * i + 1 ∧ m < n) := by
    rw [← hm]
    split
    · next h => exact Or.inr ⟨rfl, h.1⟩
    · exact Or.inl rfl
  split
  · next h => exact Or.inr ⟨Or.inr rfl, h.1⟩
  · rcases hm' with h | ⟨h, hlt⟩
    · exact Or.inl h
    · exact Or.inr ⟨Or.inl h, hlt⟩

theorem chosen_lt {n i : ℕ} (b : ℕ → α) (hi : i < n) : chosen compare n b i < n := by
  rcases chosen_cases compare n b i with h | ⟨_, h⟩
  · rw [h]
    exact hi
  · exact h

/-- The choice at `j` does not read the array below `j`. -/
theorem chosen_update (compare : α → α → ℤ) (n : ℕ) (b : ℕ → α) {i j : ℕ} (hij : i < j) (y : α) :
    chosen compare n (Function.update b i y) j = chosen compare n b j := by
  have hsame : ∀ k, j ≤ k → Function.update b i y k = b k := fun k hk =>
    Function.update_of_ne (by omega) _ _
  unfold chosen
  rw [hsame (2 * j + 1) (by omega), hsame (2 * j + 2) (by omega), hsame j (le_refl j)]
  dsimp only
  rw [hsame _ (by split <;> omega)]

/-- The way down from `j` does not change when the array is updated above it. -/
theorem iterate_chosen_update (compare : α → α → ℤ) (n : ℕ) (b : ℕ → α) {i j : ℕ} (hij : i < j)
    (y : α) (k : ℕ) :
    (chosen compare n (Function.update b i y))^[k] j = (chosen compare n b)^[k] j := by
  induction k generalizing j with
  | zero => rfl
  | succ k ih =>
    rw [Function.iterate_succ_apply, Function.iterate_succ_apply, chosen_update compare n b hij]
    refine ih ?_
    rcases chosen_cases compare n b j with h | ⟨h, _⟩ <;> omega

/-- `SiftDown` returns, moves elements and loses none, whatever the comparison, if its way
    down stays where no index wraps.  It only touches the array from its index on. -/
theorem siftDownLoop_descent (compare : α → α → ℤ) (x : α) {fuel n i : ℕ} {b : ℕ → α}
    (hway : ∀ k, (chosen compare n b)^[k] i < 2 ^ 31 - 1) (hi : i < n) (hfuel : n < i + fuel) :
    ∃ b' j, siftDownLoop compare n fuel b i = some (b', j) ∧ i ≤ j ∧ j < n ∧
      (∀ k, k < i → b' k = b k) ∧
      elems (Function.update b' j x) n = elems (Function.update b i x) n := by
  induction fuel generalizing b i with
  | zero => omega
  | succ fuel ih =>
    unfold siftDownLoop
    rw [largestOf_eq_chosen compare n b (show i < 2 ^ 31 - 1 from hway 0)]
    dsimp only
    split
    · exact ⟨b, i, rfl, le_refl i, hi, fun _ _ => rfl, rfl⟩
    · next hne =>
      obtain heq | ⟨hcase, hlt⟩ := chosen_cases compare n b i
      · exact absurd heq hne
      · have hway' : ∀ k, (chosen compare n (Function.update b i (b (chosen compare n b i))))^[k]
            (chosen compare n b i) < 2 ^ 31 - 1 := by
          intro k
          rw [iterate_chosen_update compare n b (by omega), ← Function.iterate_succ_apply]
          exact hway (k + 1)
        obtain ⟨b', j, hloop, hij, hj, hsame, hel⟩ := ih hway' hlt (by omega)
        -- the index grows with every round, which bounds their number
        refine ⟨b', j, hloop, by omega, hj, ?_, hel.trans (elems_move b x hi hlt)⟩
        intro k hk
        rw [hsame k (by omega), Function.update_of_ne (by omega)]

/-- With fewer than `2 ^ 31` elements the way down is short enough. -/
theorem iterate_chosen_lt (compare : α → α → ℤ) {n i : ℕ} (b : ℕ → α) (hn : n < 2 ^ 31) (hi : i < n)
    (k : ℕ) : (chosen compare n b)^[k] i < 2 ^ 31 - 1 := by
  induction k generalizing i with
  | zero =>
    rw [Function.iterate_zero, id_eq]
    omega
  | succ k ih =>
    rw [Function.iterate_succ_apply]
    exact ih (chosen_lt b hi)

/-- `SiftDown` of fewer than `2 ^ 31` elements. -/
theorem siftDownLoop_spec (compare : α → α → ℤ) (x : α) {fuel n i : ℕ} {b : ℕ → α}
    (hn : n < 2 ^ 31) (hi : i < n) (hfuel : n < i + fuel) :
    ∃ b' j, siftDownLoop compare n fuel b i = some (b', j) ∧ i ≤ j ∧ j < n ∧
      (∀ k, k < i → b' k = b k) ∧
      elems (Function.update b' j x) n = elems (Function.update b i x) n :=
  siftDownLoop_descent compare x (iterate_chosen_lt compare b hn hi) hi hfuel

/-- What the first round of `SiftDown` finds at the root. -/
theorem largestOf_root (hc : TotalPreorder compare) (n : ℕ) (b : ℕ → α) :
    (largestOf compare n b 0 = 0 ∧ (1 < n → Above compare (b 0) (b 1)) ∧
      (2 < n → Above compare (b 0) (b 2))) ∨
    ∃ c d, ((c = 1 ∧ d = 2) ∨ (c = 2 ∧ d = 1 ∧ 0 < compare (b 2) (b 1))) ∧
      largestOf compare n b 0 = c ∧ c < n ∧ 0 < compare (b c) (b 0) ∧
      (d < n → Above compare (b c) (b d)) := by
  have := hc.isTrans
  -- at index 0 the child indices are the constants 1 and 2
  have hdef : largestOf compare n b 0 =
      if 2 < n ∧ 0 < compare (b 2) (b (if 1 < n ∧ 0 < compare (b 1) (b 0) then 1 else 0)) then 2
      else if 1 < n ∧ 0 < compare (b 1) (b 0) then 1 else 0 := rfl
  rw [hdef]
  by_cases h₁ : 1 < n ∧ 0 < compare (b 1) (b 0)
  · simp only [h₁, and_self, if_true]
    by_cases h₂ : 2 < n ∧ 0 < compare (b 2) (b 1)
    · refine Or.inr ⟨2, 1, Or.inr ⟨rfl, rfl, h₂.2⟩, if_pos h₂, h₂.1, ?_, fun _ => h₂.2.le⟩
      -- the right child is above the left one and that above the root
      by_contra hle
      have h₀₂ : Above compare (b 0) (b 2) := hc.above_of_nonpos (not_lt.mp hle)
      have h₀₁ : Above compare (b 0) (b 1) := trans_of _ h₀₂ (show Above compare (b 2) (b 1) from h₂.2.le)
      have := (hc.neg_iff (b 0) (b 1)).mpr h₁.2
      unfold Above at h₀₁
      omega
    · refine Or.inr ⟨1, 2, Or.inl ⟨rfl, rfl⟩, if_neg h₂, h₁.1, h₁.2, ?_⟩
      intro h2n
      exact hc.above_of_nonpos (not_lt.mp fun h => h₂ ⟨h2n, h⟩)
  · simp only [h₁, if_false]
    have h₀₁ : 1 < n → Above compare (b 0) (b 1) := fun h1n =>
      hc.above_of_nonpos (not_lt.mp fun h => h₁ ⟨h1n, h⟩)
    by_cases h₂ : 2 < n ∧ 0 < compare (b 2) (b 0)
    · have h1n : 1 < n := by omega
      refine Or.inr ⟨2, 1, Or.inr ⟨rfl, rfl, ?_⟩, if_pos h₂, h₂.1, h₂.2, fun _ =>
        trans_of _ (show Above compare (b 2) (b 0) from h₂.2.le) (h₀₁ h1n)⟩
      -- the right child is above the root, the root above the left child
      by_contra hle
      have h₀₂ : Above compare (b 0) (b 2) :=
        trans_of _ (h₀₁ h1n) (hc.above_of_nonpos (not_lt.mp hle))
      have := (hc.neg_iff (b 0) (b 2)).mpr h₂.2
      unfold Above at h₀₂
      omega
    · refine Or.inl ⟨if_neg h₂, h₀₁, ?_⟩
      intro h2n
      exact hc.above_of_nonpos (not_lt.mp fun h => h₂ ⟨h2n, h⟩)

/-- Below a child of the root the array is ordered, so the second round stops. -/
theorem largestOf_child (hc : TotalPreorder compare) {n c : ℕ} {b : ℕ → α}
    (h : OrderedBelow (Above compare) b n) (hcase : c = 1 ∨ c = 2) (v : α) :
    largestOf compare n (Function.update b 0 v) c = c := by
  -- neither child of `c` is above it, and the update at the root touches none of the three
  have hstop : ∀ j, parent j = c → 0 < j → j < n →
      ¬ 0 < compare (Function.update b 0 v j) (Function.update b 0 v c) := by
    intro j hp hpos hj hlt
    rw [Function.update_of_ne (by omega), Function.update_of_ne (by omega)] at hlt
    have hab := h j hpos hj (by omega)
    rw [hp] at hab
    have := (hc.neg_iff (b c) (b j)).mpr hlt
    unfold Above at hab
    omega
  unfold largestOf
  have hl : (2 * c + 1) % 2 ^ 32 = 2 * c + 1 := Nat.mod_eq_of_lt (by omega)
  have hr : (2 * c + 2) % 2 ^ 32 = 2 * c + 2 := Nat.mod_eq_of_lt (by omega)
  rw [hl, hr]
  have hleft : ¬ (2 * c + 1 < n ∧
      0 < compare (Function.update b 0 v (2 * c + 1)) (Function.update b 0 v c)) :=
    fun ⟨hj, hlt⟩ => hstop (2 * c + 1) (by unfold parent; omega) (by omega) hj hlt
  have hright : ¬ (2 * c + 2 < n ∧
      0 < compare (Function.update b 0 v (2 * c + 2)) (Function.update b 0 v c)) :=
    fun ⟨hj, hlt⟩ => hstop (2 * c + 2) (by unfold parent; omega) (by omega) hj hlt
  simp only [hleft, if_false, hright]

/-- In a heap with a new root `SiftDown` stops at the root or one level below it. -/
theorem siftDownLoop_root (hc : TotalPreorder compare) {n : ℕ} {b : ℕ → α}
    (h : OrderedBelow (Above compare) b n) (hn : 0 < n) :
    (siftDownLoop compare n (n + 1) b 0 = some (b, 0) ∧ Ordered (Above compare) b n) ∨
    ∃ c d, ((c = 1 ∧ d = 2) ∨ (c = 2 ∧ d = 1 ∧ 0 < compare (b 2) (b 1))) ∧ c < n ∧
      0 < compare (b c) (b 0) ∧ (d < n → Above compare (b c) (b d)) ∧
      siftDownLoop compare n (n + 1) b 0 = some (Function.update b 0 (b c), c) := by
  obtain ⟨hroot, h₁, h₂⟩ | ⟨c, d, hcd, hroot, hcn, hpos, hd⟩ := largestOf_root hc n b
  · left
    refine ⟨?_, h.ordered h₁ h₂⟩
    unfold siftDownLoop
    simp only [hroot, if_true]
  · right
    refine ⟨c, d, hcd, hcn, hpos, hd, ?_⟩
    -- two rounds: the child goes up, and then the loop stops at it
    obtain ⟨fuel, rfl⟩ : ∃ fuel, n = fuel + 1 := ⟨n - 1, by omega⟩
    have hchild := largestOf_child hc h (c := c) (by omega) (b c)
    unfold siftDownLoop
    simp only [hroot, show c ≠ 0 by omega, if_false]
    unfold siftDownLoop
    simp only [hchild, if_true]

/-! ## Section 4: Push and pop -/

/-- A push that finds room keeps the order and adds its element. -/
theorem silogPQueuePush_ordered {q : SiLogPQueue α} (hc : TotalPreorder q.compare)
    (hq : Ordered (Above q.compare) q.buffer q.size) (e : α) (hroom : q.size < q.capacity) :
    ∃ b, silogPQueuePush q e true = (.ok, { q with buffer := b, size := q.size + 1 }) ∧
      Ordered (Above q.compare) b (q.size + 1) ∧
      Heap.elems b (q.size + 1) = e ::ₘ q.elems := by
  have hb : ∀ i, i < q.size → Function.update q.buffer q.size e i = q.buffer i := fun i hi =>
    Function.update_of_ne (by omega) _ _
  have hlast : Function.update q.buffer q.size e q.size = e := Function.update_self _ _ _
  refine ⟨_, ?_, ordered_siftUpLoop hc (le_refl q.size) (Nat.lt_succ_self _)
    ((hq.congr hb).rising e), ?_⟩
  · unfold silogPQueuePush
    rw [if_neg (not_le.mpr hroom)]
    simp only [siftUp, Nat.add_sub_cancel, hlast]
    rfl
  · rw [(elems_siftUpLoop q.compare e (Nat.lt_succ_self _)).2, Function.update_idem, elems_succ,
      hlast, elems_congr hb]
    rfl

/-- No element is above its parent. -/
def HeapOrdered (q : SiLogPQueue α) : Prop :=
  ∀ parent child, child = 2 * parent + 1 ∨ child = 2 * parent + 2 → child < q.size →
    0 ≤ q.compare (q.buffer parent) (q.buffer child)

theorem heapOrdered_iff (q : SiLogPQueue α) :
    HeapOrdered q ↔ Ordered (Above q.compare) q.buffer q.size := by
  constructor
  · intro h i hpos hi
    apply h
    · unfold parent
      omega
    · exact hi
  · intro h p c hchild hc
    have hparent : parent c = p := by
      unfold parent
      omega
    have hord := h c (by omega) hc
    rw [hparent] at hord
    exact hord

/-- **`SiftUp` restores the order.** After a `SilogPQueuePush` that returns `SILOG_OK`, with its
    temporary allocated, no element is above its parent if none was before. -/
theorem push_restores_order {q q' : SiLogPQueue α} {element : α} (hc : TotalPreorder q.compare)
    (hq : HeapOrdered q) (hpush : silogPQueuePush q element true = (.ok, q')) :
    q'.size = q.size + 1 ∧ q'.compare = q.compare ∧ q'.elems = element ::ₘ q.elems ∧ HeapOrdered q' := by
  have hroom : q.size < q.capacity := by
    by_contra hfull
    unfold silogPQueuePush at hpush
    rw [if_pos (not_lt.mp hfull)] at hpush
    cases hpush
  obtain ⟨b, heq, hord, helems⟩ := silogPQueuePush_ordered hc ((heapOrdered_iff q).mp hq) element hroom
  rw [heq] at hpush
  cases hpush
  exact ⟨rfl, rfl, helems, (heapOrdered_iff _).mpr hord⟩

/-- The higher child of the root, among the first `n` elements. -/
def higherChild (compare : α → α → ℤ) (b : ℕ → α) (n : ℕ) : ℕ :=
  if 2 < n ∧ 0 < compare (b 2) (b 1) then 2 else 1

/-- The last element, which a pop moves to the root, does not have to sink below the
    first level: it is not below the higher child of the root, or it is at
    least as high as that one's children.  `n` is the size after the pop. -/
def Shallow (q : SiLogPQueue α) : Prop :=
  ∀ n, q.size = n + 1 → 1 < n →
    q.compare (q.buffer n) (q.buffer (higherChild q.compare q.buffer n)) < 0 →
    ∀ j, j = 2 * higherChild q.compare q.buffer n + 1 ∨
        j = 2 * higherChild q.compare q.buffer n + 2 → j < n →
      0 ≤ q.compare (q.buffer n) (q.buffer j)

theorem shallow_iff (q : SiLogPQueue α) : Shallow q ↔
    (1 < q.size - 1 →
      q.compare (q.buffer (q.size - 1)) (q.buffer (higherChild q.compare q.buffer (q.size - 1))) < 0 →
      ∀ j, j < q.size - 1 → (j = 2 * higherChild q.compare q.buffer (q.size - 1) + 1 ∨
          j = 2 * higherChild q.compare q.buffer (q.size - 1) + 2) →
        0 ≤ q.compare (q.buffer (q.size - 1)) (q.buffer j)) := by
  constructor
  · intro h hsize hlow j hj hchild
    exact h (q.size - 1) (by omega) hsize hlow j hchild hj
  · intro h n hn hlt hlow j hchild hj
    obtain rfl : n = q.size - 1 := by omega
    exact h hlt hlow j hj hchild

instance (q : SiLogPQueue α) : Decidable (Shallow q) := decidable_of_iff' _ (shallow_iff q)

/-- The child that `SiftDown` moves up is the higher one. -/
theorem higherChild_eq (hc : TotalPreorder compare) {b : ℕ → α} {n c d : ℕ}
    (hcd : (c = 1 ∧ d = 2) ∨ (c = 2 ∧ d = 1 ∧ 0 < compare (b 2) (b 1))) (hcn : c < n)
    (hd : d < n → Above compare (b c) (b d)) : higherChild compare b n = c := by
  unfold higherChild
  rcases hcd with ⟨rfl, rfl⟩ | ⟨rfl, rfl, hstrict⟩
  · rw [if_neg]
    rintro ⟨h2n, hlt⟩
    have hneg := (hc.neg_iff (b 1) (b 2)).mpr hlt
    have hab := hd h2n
    unfold Above at hab
    omega
  · rw [if_pos ⟨hcn, hstrict⟩]

/-- What a pop leaves behind when the heap has `n + 1 > 1` elements. -/
theorem silogPQueuePop_eq {q : SiLogPQueue α} {n : ℕ} (hn : q.size = n + 1) (hpos : 0 < n) :
    silogPQueuePop q true =
      (siftDownLoop q.compare n (n + 1)
        (Function.update q.buffer 0 (q.buffer n)) 0).map fun r =>
          (.ok, some (q.buffer 0),
            { q with buffer := Function.update r.1 r.2 (q.buffer n), size := n }) := by
  unfold silogPQueuePop
  rw [if_neg (by omega)]
  simp only [hn, Nat.add_sub_cancel, hpos, if_true, siftDown, Function.update_self,
    Bool.true_eq_false, if_false, Option.map_map]
  rfl

/-- A pop of the only element. -/
theorem silogPQueuePop_single {q : SiLogPQueue α} (hn : q.size = 1) :
    silogPQueuePop q true = some (.ok, some (q.buffer 0), { q with size := 0 }) ∧
    q.buffer 0 ::ₘ Heap.elems q.buffer 0 = q.elems := by
  constructor
  · unfold silogPQueuePop
    rw [if_neg (by omega)]
    simp [hn]
  · unfold SiLogPQueue.elems
    rw [hn, elems_succ]

/-- The elements that stay when the last of `n + 1` is moved to the root. -/
theorem elems_moveLast (b : ℕ → α) {n : ℕ} (hpos : 0 < n) :
    b 0 ::ₘ elems (Function.update b 0 (b n)) n = elems b (n + 1) := by
  rw [elems_update b (b n) hpos, elems_succ]

/-- A pop from a heap returns the root and removes it; if the last element does not
    have to sink below the first level, what is left is a heap. -/
theorem silogPQueuePop_ordered {q : SiLogPQueue α} (hc : TotalPreorder q.compare)
    (hq : Ordered (Above q.compare) q.buffer q.size) (hsize : 0 < q.size) :
    ∃ b, silogPQueuePop q true =
        some (.ok, some (q.buffer 0), { q with buffer := b, size := q.size - 1 }) ∧
      q.buffer 0 ::ₘ Heap.elems b (q.size - 1) = q.elems ∧
      (Shallow q → Ordered (Above q.compare) b (q.size - 1)) := by
  obtain ⟨n, hn⟩ : ∃ n, q.size = n + 1 := ⟨q.size - 1, by omega⟩
  have hn' : q.size - 1 = n := by omega
  rw [hn']
  rcases Nat.eq_zero_or_pos n with rfl | hpos
  · obtain ⟨hpop, helems⟩ := silogPQueuePop_single hn
    exact ⟨q.buffer, hpop, helems, fun _ i hi hlt => by omega⟩
  · rw [silogPQueuePop_eq hn hpos]
    set x := q.buffer n with hx
    set b := Function.update q.buffer 0 x with hb
    have hb0 : b 0 = x := Function.update_self _ _ _
    have hbi : ∀ i, i ≠ 0 → b i = q.buffer i := fun i hi => Function.update_of_ne hi _ _
    have hsub : OrderedBelow (Above q.compare) b n := hq.below (by omega) x
    have helems : q.buffer 0 ::ₘ elems b n = q.elems := by
      unfold SiLogPQueue.elems
      rw [hn]
      exact elems_moveLast q.buffer hpos
    -- `x` is the last element and `b` the array with `x` at its root
    obtain ⟨hloop, hord⟩ | ⟨c, d, hcd, hcn, hlt, hd, hloop⟩ := siftDownLoop_root hc hsub hpos
    · rw [hloop]
      have hsame : Function.update b 0 x = b := by rw [← hb0, Function.update_eq_self]
      refine ⟨b, ?_, helems, fun _ => hord⟩
      simp only [Option.map_some, hsame]
    · rw [hloop]
      refine ⟨Function.update (Function.update b 0 (b c)) c x, by simp only [Option.map_some], ?_, ?_⟩
      · rw [elems_move b x hpos hcn, ← hb0, Function.update_eq_self]
        exact helems
      · intro hshallow
        have hc0 : c ≠ 0 := by omega
        -- the children of the root are those of the old array
        have hhigher : higherChild q.compare q.buffer n = c := by
          refine higherChild_eq hc (d := d) ?_ hcn ?_
          · rwa [hbi 2 (by omega), hbi 1 (by omega)] at hcd
          · intro hdn
            have := hd hdn
            rwa [hbi c hc0, hbi d (by omega)] at this
        have hbelow : q.compare x (q.buffer c) < 0 := by
          rw [hc.neg_iff, ← hbi c hc0, ← hb0]
          exact hlt
        have hsh := hshallow n hn (by omega)
        rw [hhigher] at hsh
        -- what `Shallow` is for: `x` is above the children of its new place
        refine hsub.place_child (d := d) (by omega) (by rw [← hb0]; exact hlt.le) hd ?_
        intro i hpos hi hp
        rw [hbi i (by omega)]
        refine hsh hbelow i ?_ hi
        unfold parent at hp
        omega

/-- A pop returns the root and removes it, whatever the array and the comparison. -/
theorem silogPQueuePop_spec {q : SiLogPQueue α} (hpos : 0 < q.size) (hsize : q.size ≤ 2 ^ 31) :
    ∃ b, silogPQueuePop q true =
        some (.ok, some (q.buffer 0), { q with buffer := b, size := q.size - 1 }) ∧
      q.buffer 0 ::ₘ Heap.elems b (q.size - 1) = q.elems ∧
      (TotalPreorder q.compare → 1 < q.size - 1 →
        ∃ j, 0 < j ∧ j < q.size - 1 ∧ Above q.compare (b 0) (b j)) := by
  obtain ⟨n, hn⟩ : ∃ n, q.size = n + 1 := ⟨q.size - 1, by omega⟩
  have hn' : q.size - 1 = n := by omega
  rw [hn']
  rcases Nat.eq_zero_or_pos n with rfl | hnpos
  · obtain ⟨hpop, helems⟩ := silogPQueuePop_single hn
    exact ⟨q.buffer, hpop, helems, fun _ h => absurd h (by omega)⟩
  · rw [silogPQueuePop_eq hn hnpos]
    set x := q.buffer n
    set b := Function.update q.buffer 0 x with hb
    have hb0 : b 0 = x := Function.update_self _ _ _
    obtain ⟨b', j, hloop, _, hj, _, hel⟩ :=
      siftDownLoop_spec q.compare x (b := b) (show n < 2 ^ 31 by omega) hnpos
        (show n < 0 + (n + 1) by omega)
    refine ⟨Function.update b' j x, by rw [hloop, Option.map_some], ?_, ?_⟩
    · rw [hel, hb, Function.update_idem, ← hb]
      unfold SiLogPQueue.elems
      rw [hn]
      exact elems_moveLast q.buffer hnpos
    · intro hc hlt
      unfold siftDownLoop at hloop
      obtain ⟨hroot, h₁, _⟩ | ⟨c, d, hcd, hroot, hcn, hcpos, _⟩ := largestOf_root hc n b
      · -- the moved element is above the left child
        simp only [hroot, if_true, Option.some.injEq, Prod.mk.injEq] at hloop
        obtain ⟨rfl, rfl⟩ := hloop
        refine ⟨1, by omega, hlt, ?_⟩
        rw [Function.update_self, Function.update_of_ne (by omega), ← hb0]
        exact h₁ hlt
      · -- a child went up, and the moved element lies below it somewhere
        have hc0 : c ≠ 0 := by omega
        simp only [hroot, hc0, if_false] at hloop
        obtain ⟨b'', k, hloop', hck, hk, hsame, _⟩ :=
          siftDownLoop_spec q.compare x (b := Function.update b 0 (b c))
            (show n < 2 ^ 31 by omega) hcn (show n < c + n by omega)
        rw [hloop'] at hloop
        obtain ⟨rfl, rfl⟩ := Prod.mk.inj (Option.some.inj hloop)
        refine ⟨k, by omega, hk, ?_⟩
        rw [Function.update_self, Function.update_of_ne (by omega), hsame 0 (by omega),
          Function.update_self, ← hb0]
        exact hcpos.le

/-! ## Section 5: Runs -/

/-- The queue is a heap for its comparison. -/
structure HeapInv (compare : α → α → ℤ) (q : SiLogPQueue α) : Prop where
  cmp     : q.compare = compare
  le      : q.size ≤ q.capacity
  ordered : Ordered (Above compare) q.buffer q.size

/-- The allocations of the call succeed and a pop is shallow. -/
def ShallowCall (q : SiLogPQueue α) (op : Op α) : Prop :=
  op.Allocates ∧ ∀ alloc, op = .pop alloc → Shallow q

instance (q : SiLogPQueue α) : (op : Op α) → Decidable (ShallowCall q op)
  | .pop alloc =>
    decidable_of_iff (alloc = true ∧ Shallow q)
      ⟨fun h => ⟨h.1, fun _ _ => h.2⟩, fun h => ⟨h.1, h.2 alloc rfl⟩⟩
  | .push element alloc =>
    decidable_of_iff (Op.push element alloc).Allocates ⟨fun h => ⟨h, nofun⟩, fun h => h.1⟩
  | .peek => isTrue ⟨trivial, nofun⟩
  | .clear => isTrue ⟨trivial, nofun⟩
  | .reserve newCapacity mem =>
    decidable_of_iff (Op.reserve newCapacity mem).Allocates ⟨fun h => ⟨h, nofun⟩, fun h => h.1⟩

theorem HeapInv.step (hc : TotalPreorder compare) {q q' : SiLogPQueue α} {op : Op α}
    (hq : HeapInv compare q) (hsh : ShallowCall q op) (hstep : Step q op q') :
    HeapInv compare q' := by
  obtain ⟨rfl, hle, hord⟩ := hq
  unfold Step at hstep
  obtain ⟨halloc, hshallow⟩ := hsh
  cases op with
  | push e alloc =>
    obtain rfl : alloc = true := halloc
    cases hstep
    by_cases hroom : q.size < q.capacity
    · obtain ⟨b, hpush, hb, _⟩ := silogPQueuePush_ordered hc hord e hroom
      rw [hpush]
      exact ⟨rfl, hroom, hb⟩
    · unfold silogPQueuePush
      rw [if_pos (not_lt.mp hroom)]
      exact ⟨rfl, hle, hord⟩
  | pop alloc =>
    obtain rfl : alloc = true := halloc
    rcases Nat.eq_zero_or_pos q.size with hzero | hpos
    · simp only [SiLogPQueue.call, silogPQueuePop, hzero, if_true, Option.map_some,
        Option.some.injEq] at hstep
      rw [← hstep]
      exact ⟨rfl, hle, hord⟩
    · obtain ⟨b, hpop, _, hb⟩ := silogPQueuePop_ordered hc hord hpos
      simp only [SiLogPQueue.call, hpop, Option.map_some, Option.some.injEq] at hstep
      rw [← hstep]
      exact ⟨rfl, (Nat.sub_le _ _).trans hle, hb (hshallow true rfl)⟩
  | peek =>
    cases hstep
    exact ⟨rfl, hle, hord⟩
  | clear =>
    cases hstep
    exact ⟨rfl, Nat.zero_le _, fun i _ hi => absurd hi (Nat.not_lt_zero i)⟩
  | reserve newCapacity mem =>
    cases hstep
    obtain ⟨mem, rfl⟩ := Option.isSome_iff_exists.mp halloc
    unfold silogPQueueReserve
    split
    · exact ⟨rfl, hle, hord⟩
    · next hcap =>
      refine ⟨rfl, hle.trans (not_le.mp hcap).le, hord.congr fun i hi => ?_⟩
      exact if_pos (lt_of_lt_of_le hi hle)

/-- What `Peek` or `Pop` returns is at least as high as every element stored, and a
    `Pop` from a queue that is not empty does return. -/
structure TopHighest (q : SiLogPQueue α) : Prop where
  peek : ∀ e, silogPQueuePeek q = (.ok, some e) → ∀ x ∈ q.elems, 0 ≤ q.compare e x
  pop  : 0 < q.size → ∃ e q', silogPQueuePop q true = some (.ok, some e, q') ∧
    ∀ x ∈ q.elems, 0 ≤ q.compare e x

theorem HeapInv.topHighest (hc : TotalPreorder compare) {q : SiLogPQueue α}
    (hq : HeapInv compare q) : TopHighest q := by
  obtain ⟨rfl, hle, hord⟩ := hq
  have := hc.refl
  have := hc.isTrans
  have hroot : ∀ x ∈ q.elems, 0 ≤ q.compare (q.buffer 0) x := by
    intro x hx
    obtain ⟨i, hi, rfl⟩ := mem_elems.mp hx
    exact hord.root hi
  constructor
  · intro e he
    unfold silogPQueuePeek at he
    split at he
    · cases he
    · cases he
      exact hroot
  · intro hpos
    obtain ⟨b, hpop, _, _⟩ := silogPQueuePop_ordered hc hord hpos
    exact ⟨_, _, hpop, hroot⟩

/-- Shallow pops in a row, with the elements they return. -/
inductive Drains : SiLogPQueue α → List α → SiLogPQueue α → Prop where
  | nil : ∀ q, Drains q [] q
  | pop : ∀ {q q₁ q' : SiLogPQueue α} {e : α} {es : List α}, Shallow q →
      silogPQueuePop q true = some (.ok, some e, q₁) → Drains q₁ es q' → Drains q (e :: es) q'

/-- A drain returns the contents from high to low. -/
theorem HeapInv.drain (hc : TotalPreorder compare) {q q' : SiLogPQueue α} {es : List α}
    (hq : HeapInv compare q) (hd : Drains q es q') :
    es.Pairwise (fun a b => 0 ≤ compare a b) ∧ (es : Multiset α) + q'.elems = q.elems := by
  induction hd with
  | nil q => exact ⟨List.Pairwise.nil, Multiset.zero_add _⟩
  | @pop q q₁ q' e es hsh hpop _ ih =>
    have hcall : ShallowCall q (.pop true) := ⟨rfl, fun _ _ => hsh⟩
    have hq₁ : HeapInv compare q₁ := hq.step hc hcall (by
      unfold Step
      simp only [SiLogPQueue.call, hpop, Option.map_some])
    obtain ⟨hsorted, hcontents⟩ := ih hq₁
    have hpos : 0 < q.size := by
      -- an empty queue returns no element
      rcases Nat.eq_zero_or_pos q.size with hzero | hpos
      · simp [silogPQueuePop, hzero] at hpop
      · exact hpos
    have hcq := hq.cmp
    obtain ⟨b, hpop', helems, _⟩ := silogPQueuePop_ordered (q := q) (by rw [hcq]; exact hc)
      (by rw [hcq]; exact hq.ordered) hpos
    obtain ⟨rfl, rfl⟩ : q.buffer 0 = e ∧ { q with buffer := b, size := q.size - 1 } = q₁ := by
      rw [hpop'] at hpop
      simpa using hpop
    refine ⟨List.pairwise_cons.mpr ⟨?_, hsorted⟩, ?_⟩
    · intro x hx
      -- what is returned later was stored now
      have hmem : x ∈ q.elems := by
        rw [← helems]
        refine Multiset.mem_cons_of_mem ?_
        show x ∈ SiLogPQueue.elems { q with buffer := b, size := q.size - 1 }
        rw [← hcontents]
        exact Multiset.mem_add.mpr (Or.inl (Multiset.mem_coe.mpr hx))
      obtain ⟨i, hi, rfl⟩ := mem_elems.mp hmem
      have := hc.refl
      have := hc.isTrans
      exact hq.ordered.root hi
    · rw [← helems, ← Multiset.cons_coe, Multiset.cons_add, hcontents]
      rfl

/-- **Priority order.** In every run from `SilogPQueueInit` in which no pop has to sink
    the last element below the first level, the root is one of the highest, and
    a drain returns the contents in order. -/
theorem priority_order {capacity : UInt32} {mem : Option (ℕ → α)} {q₀ q : SiLogPQueue α}
    {ops : List (Op α)} (hc : TotalPreorder compare)
    (hinit : silogPQueueInit capacity compare mem = .ok q₀)
    (hrun : Steps (Guarded Step ShallowCall) q₀ ops q) :
    TopHighest q ∧ ∀ es q', Drains q es q' →
      es.Pairwise (fun a b => 0 ≤ compare a b) ∧ (es : Multiset α) + q'.elems = q.elems := by
  have hq₀ : HeapInv compare q₀ := by
    unfold silogPQueueInit at hinit
    split at hinit
    · cases hinit
    · cases mem with
      | none => cases hinit
      | some mem =>
        cases hinit
        exact ⟨rfl, Nat.zero_le _, fun i _ hi => absurd hi (Nat.not_lt_zero i)⟩
  have hq := hrun.invariant (fun _ _ _ hR hq => HeapInv.step hc hq hR.2 hR.1) hq₀
  exact ⟨hq.topHighest hc, fun es q' hd => hq.drain hc hd⟩

/-! ### Numbers with the usual order -/

/-- A comparison as the header recommends it for a heap with the largest number on top. -/
def byValue (a b : ℕ) : ℤ := (a : ℤ) - b

theorem byValue_total : TotalPreorder byValue where
  sign a b := by
    rw [← Int.sign_neg]
    congr 1
    unfold byValue
    omega
  trans a b c := by
    unfold byValue
    omega

/-- An empty queue with room for eight numbers. -/
def numbers : SiLogPQueue ℕ :=
  { buffer := fun _ => 0, capacity := 8, size := 0, compare := byValue }

theorem numbers_init : silogPQueueInit 8 byValue (some fun _ => 0) = .ok numbers := rfl

/-- Six pushes and two pops, each of which moves the last element down to the first level. -/
def shallowPops : List (Op ℕ) :=
  [9, 8, 5, 3, 4, 5].map (fun v => .push v true) ++ [.pop true, .pop true]

def shallowPopped : SiLogPQueue ℕ :=
  (exec SiLogPQueue.call numbers shallowPops).get (by decide +kernel)

theorem priority_order_shallowPops :
    silogPQueuePeek shallowPopped = (.ok, some 5) ∧ TopHighest shallowPopped ∧
    ∀ es q', Drains shallowPopped es q' →
      es.Pairwise (fun a b => 0 ≤ byValue a b) ∧
      (es : Multiset ℕ) + q'.elems = shallowPopped.elems := by
  have hrun : Steps (Guarded Step ShallowCall) numbers shallowPops shallowPopped :=
    guarded_of_exec (fun _ _ _ => id) (Option.some_get _).symm (by decide +kernel)
  exact ⟨by decide +kernel, priority_order byValue_total numbers_init hrun⟩

/-- Equal numbers, and a fourth one that rises to the root. -/
theorem push_restores_order_ties :
    TotalPreorder byValue ∧
    ∃ q', silogPQueuePush ⟨fun _ => 2, 8, 3, byValue⟩ 7 true = (.ok, q') ∧ q'.buffer 0 = 7 ∧ HeapOrdered q' := by
  have hq : HeapOrdered ⟨fun _ => 2, 8, 3, byValue⟩ := fun _ _ _ _ => show (0 : ℤ) ≤ byValue 2 2 by decide
  exact ⟨byValue_total, _, rfl, rfl, (push_restores_order byValue_total hq rfl).2.2.2⟩

/-- Eight pushes and two pops. -/
def deepPops : List (Op ℕ) :=
  [9, 8, 1, 7, 6, 0, 0, 5].map (fun v => .push v true) ++ [.pop true, .pop true]

def deepPopped : SiLogPQueue ℕ :=
  (exec SiLogPQueue.call numbers deepPops).get (by decide +kernel)

/-- The next element would be 5 although 7 is stored. -/
theorem deepPops_break_order :
    TotalPreorder byValue ∧ silogPQueueInit 8 byValue (some fun _ => 0) = .ok numbers ∧
    Steps Step numbers deepPops deepPopped ∧ (∀ op ∈ deepPops, op.Allocates) ∧
    ¬ TopHighest deepPopped := by
  refine ⟨byValue_total, numbers_init, steps_of_exec (fun _ _ _ => id) (Option.some_get _).symm,
    ?_, ?_⟩
  · intro op hop
    simp only [deepPops, List.map_cons, List.map_nil, List.cons_append, List.nil_append,
      List.mem_cons, List.not_mem_nil, or_false] at hop
    rcases hop with rfl | rfl | rfl | rfl | rfl | rfl | rfl | rfl | rfl | rfl <;> rfl
  · intro htop
    have hseven : 7 ∈ deepPopped.elems := mem_elems.mpr ⟨1, by decide +kernel, by decide +kernel⟩
    exact absurd (htop.peek 5 (by decide +kernel) 7 hseven) (by decide +kernel)

end SiLog.PQueue
