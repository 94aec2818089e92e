import Mathlib.Data.Multiset.Range
import Mathlib.Logic.Equiv.Basic
import Mathlib.Order.Defs.Unbundled

/-! # Binary heaps in arrays

    The children of the entry at `i` are at `2 * i + 1` and `2 * i + 2`.  The
    relation `r a b` reads "`a` is at least as high as `b`"; an array is ordered
    when every entry is below its parent.

    Repairs move a hole through the array: the entry `x` that belongs into the
    hole is kept aside, and a step copies the entry of a neighbour into the
    hole.  `Rising` is the invariant of a hole on its way up; on the way down
    the file has the two cases of a hole at the root and one level below it.
-/

namespace Heap

variable {α : Type*}

/-- The parent of an index. -/
def parent (i : ℕ) : ℕ := (i - 1) / 2

theorem parent_lt {i : ℕ} (hi : 0 < i) : parent i < i := by
  unfold parent
  omega

/-- Every entry below `n` is below its parent. -/
def Ordered (r : α → α → Prop) (b : ℕ → α) (n : ℕ) : Prop :=
  ∀ i, 0 < i → i < n → r (b (parent i)) (b i)

theorem Ordered.congr {r : α → α → Prop} {b b' : ℕ → α} {n : ℕ} (h : Ordered r b n)
    (heq : ∀ i, i < n → b' i = b i) : Ordered r b' n := by
  intro i hpos hi
  have hlt := parent_lt hpos
  rw [heq i hi, heq (parent i) (by omega)]
  exact h i hpos hi

/-- The root of an ordered array is above every entry. -/
theorem Ordered.root {r : α → α → Prop} [Std.Refl r] [IsTrans α r] {b : ℕ → α} {n : ℕ}
    (h : Ordered r b n) {i : ℕ} (hi : i < n) : r (b 0) (b i) := by
  induction i using Nat.strongRecOn with
  | ind i ih =>
    rcases Nat.eq_zero_or_pos i with rfl | hpos
    · exact refl_of r (b 0)
    · have hlt := parent_lt hpos
      exact trans_of r (ih (parent i) hlt (by omega)) (h i hpos hi)

/-! ## Contents -/

/-- The entries below `n`. -/
def elems (b : ℕ → α) (n : ℕ) : Multiset α := (Multiset.range n).map b

theorem mem_elems {b : ℕ → α} {n : ℕ} {x : α} : x ∈ elems b n ↔ ∃ i, i < n ∧ b i = x := by
  simp [elems]

theorem card_elems (b : ℕ → α) (n : ℕ) : (elems b n).card = n := by
  simp [elems]

theorem elems_succ (b : ℕ → α) (n : ℕ) : elems b (n + 1) = b n ::ₘ elems b n := by
  simp [elems, Multiset.range_succ]

theorem elems_congr {b b' : ℕ → α} {n : ℕ} (h : ∀ i, i < n → b i = b' i) :
    elems b n = elems b' n :=
  Multiset.map_congr rfl fun i hi => h i (Multiset.mem_range.mp hi)

/-- Replacing one entry. -/
theorem elems_update (b : ℕ → α) {i n : ℕ} (y : α) (hi : i < n) :
    b i ::ₘ elems (Function.update b i y) n = y ::ₘ elems b n := by
  -- count the index `i` apart from the others
  have hsplit : Multiset.range n = i ::ₘ (Multiset.range n).erase i :=
    (Multiset.cons_erase (Multiset.mem_range.mpr hi)).symm
  have hnot : i ∉ (Multiset.range n).erase i := (Multiset.nodup_range n).notMem_erase
  have hrest : ((Multiset.range n).erase i).map (Function.update b i y) =
      ((Multiset.range n).erase i).map b :=
    Multiset.map_congr rfl fun k hk => by
      rw [Function.update_of_ne]
      rintro rfl
      exact hnot hk
  unfold elems
  rw [hsplit, Multiset.map_cons, Multiset.map_cons, Function.update_self, hrest,
    Multiset.cons_swap]

/-- What is left without the root has all other entries. -/
theorem mem_of_cons_elems {b : ℕ → α} {n j : ℕ} {rest : Multiset α} (h : b 0 ::ₘ rest = elems b n)
    (hj : 0 < j) (hjn : j < n) : b j ∈ rest := by
  have hzero : 0 ∈ Multiset.range n := Multiset.mem_range.mpr (by omega)
  have hrest : rest = ((Multiset.range n).erase 0).map b := by
    rw [elems, ← Multiset.cons_erase hzero, Multiset.map_cons] at h
    exact (Multiset.cons_inj_right (b 0)).mp h
  rw [hrest]
  refine Multiset.mem_map_of_mem b ?_
  rw [Multiset.mem_erase_of_ne (by omega)]
  exact Multiset.mem_range.mpr hjn

theorem map_swap_range {i j n : ℕ} (hi : i < n) (hj : j < n) :
    (Multiset.range n).map (Equiv.swap i j) = Multiset.range n := by
  refine Multiset.Nodup.ext ((Multiset.nodup_range n).map (Equiv.swap i j).injective)
    (Multiset.nodup_range n) |>.mpr fun k => ?_
  have hclosed : ∀ k, k < n → Equiv.swap i j k < n := by
    intro k hk
    rw [Equiv.swap_apply_def]
    split
    · exact hj
    · split
      · exact hi
      · exact hk
  rw [Multiset.mem_map, Multiset.mem_range]
  constructor
  · rintro ⟨l, hl, rfl⟩
    exact hclosed l (Multiset.mem_range.mp hl)
  · intro hk
    exact ⟨Equiv.swap i j k, Multiset.mem_range.mpr (hclosed k hk), Equiv.swap_apply_self i j k⟩

/-- Moving the entry of `j` into the hole at `i` moves the hole and keeps the
    contents. -/
theorem elems_move (b : ℕ → α) {i j n : ℕ} (x : α) (hi : i < n) (hj : j < n) :
    elems (Function.update (Function.update b i (b j)) j x) n = elems (Function.update b i x) n := by
  have hswap : Function.update (Function.update b i (b j)) j x =
      Function.update b i x ∘ Equiv.swap i j := by
    -- moving the hole is swapping the two indices
    funext k
    rcases eq_or_ne k j with rfl | hkj
    · simp
    · rcases eq_or_ne k i with rfl | hki
      · simp [hkj, Ne.symm hkj]
      · simp [hkj, hki, Equiv.swap_apply_of_ne_of_ne hki hkj]
  unfold elems
  rw [hswap, ← Multiset.map_map, map_swap_range hi hj]

/-! ## A hole on its way up -/

section up
variable {r : α → α → Prop} {b : ℕ → α} {n i : ℕ} {x : α}

/-- The array is ordered away from the hole at `i`, and `x` and the entry above the
    hole are above the children of the hole. -/
structure Rising (r : α → α → Prop) (b : ℕ → α) (n i : ℕ) (x : α) : Prop where
  pairs : ∀ j, 0 < j → j < n → j ≠ i → parent j ≠ i → r (b (parent j)) (b j)
  below : ∀ j, 0 < j → j < n → parent j = i → r x (b j)
  above : ∀ j, 0 < j → j < n → parent j = i → 0 < i → r (b (parent i)) (b j)

/-- A hole behind the last entry. -/
theorem Ordered.rising (h : Ordered r b n) (x : α) : Rising r b (n + 1) n x where
  pairs := fun j hpos hj hne _ => h j hpos (by omega)
  below := fun j hpos hj hp => by have := parent_lt hpos; omega
  above := fun j hpos hj hp => by have := parent_lt hpos; omega

/-- Filling the hole. -/
theorem Rising.place (h : Rising r b n i x) (htop : 0 < i → r (b (parent i)) x) :
    Ordered r (Function.update b i x) n := by
  intro j hpos hj
  have hlt := parent_lt hpos
  by_cases hji : j = i
  · subst hji
    rw [Function.update_self, Function.update_of_ne (by omega)]
    exact htop hpos
  · rw [Function.update_of_ne hji]
    by_cases hpi : parent j = i
    · rw [hpi, Function.update_self]
      exact h.below j hpos hj hpi
    · rw [Function.update_of_ne hpi]
      exact h.pairs j hpos hj hji hpi

/-- The parent of the hole is moved down. -/
theorem Rising.step [IsTrans α r] (h : Rising r b n i x) (hi : 0 < i) (hin : i < n)
    (hx : r x (b (parent i))) :
    Rising r (Function.update b i (b (parent i))) n (parent i) x := by
  have hp := parent_lt hi
  -- what stood below the parent of the hole stands below it still
  have hpar : ∀ j, 0 < j → j < n → parent j = parent i → j ≠ i → r (b (parent i)) (b j) := by
    intro j hpos hj hpj hji
    have := h.pairs j hpos hj hji (by omega)
    rwa [hpj] at this
  constructor
  · intro j hpos hj hjp hpjp
    have hjlt := parent_lt hpos
    by_cases hji : j = i
    · exact absurd (by rw [hji]) hpjp
    · rw [Function.update_of_ne hji]
      by_cases hpi : parent j = i
      · rw [hpi, Function.update_self]
        exact h.above j hpos hj hpi hi
      · rw [Function.update_of_ne hpi]
        exact h.pairs j hpos hj hji hpi
  · intro j hpos hj hpj
    by_cases hji : j = i
    · rw [hji, Function.update_self]
      exact hx
    · rw [Function.update_of_ne hji]
      exact trans_of r hx (hpar j hpos hj hpj hji)
  · intro j hpos hj hpj hppos
    have hpp := parent_lt hppos
    -- the entry above the new hole is above the one moved down, and so above its children
    have hgrand : r (b (parent (parent i))) (b (parent i)) :=
      h.pairs (parent i) hppos (by omega) (by omega) (by omega)
    rw [Function.update_of_ne (show parent (parent i) ≠ i by omega)]
    by_cases hji : j = i
    · rw [hji, Function.update_self]
      exact hgrand
    · rw [Function.update_of_ne hji]
      exact trans_of r hgrand (hpar j hpos hj hpj hji)

end up

/-! ## A hole at the root -/

section down
variable {r : α → α → Prop} {b : ℕ → α} {n : ℕ} {x : α}

/-- Every entry below `n` whose parent is not the root is below its parent. -/
def OrderedBelow (r : α → α → Prop) (b : ℕ → α) (n : ℕ) : Prop :=
  ∀ i, 0 < i → i < n → parent i ≠ 0 → r (b (parent i)) (b i)

theorem Ordered.below (h : Ordered r b n) {m : ℕ} (hm : m ≤ n) (x : α) :
    OrderedBelow r (Function.update b 0 x) m := by
  intro i hpos hi hp
  rw [Function.update_of_ne hp, Function.update_of_ne (by omega)]
  exact h i hpos (by omega)

theorem parent_eq_zero {i : ℕ} (hi : 0 < i) : parent i = 0 ↔ i = 1 ∨ i = 2 := by
  unfold parent
  omega

/-- A root above its two children. -/
theorem OrderedBelow.ordered (h : OrderedBelow r b n) (h₁ : 1 < n → r (b 0) (b 1))
    (h₂ : 2 < n → r (b 0) (b 2)) : Ordered r b n := by
  intro i hpos hi
  by_cases hp : parent i = 0
  · rw [hp]
    rcases (parent_eq_zero hpos).mp hp with rfl | rfl
    · exact h₁ hi
    · exact h₂ hi
  · exact h i hpos hi hp

/-- The higher child `c` of the root is moved up and `x` takes its place, above the
    children of `c`; `d` is the other child. -/
theorem OrderedBelow.place_child (h : OrderedBelow r b n) {c d : ℕ}
    (hcd : (c = 1 ∧ d = 2) ∨ (c = 2 ∧ d = 1)) (hx : r (b c) x) (hd : d < n → r (b c) (b d))
    (hchildren : ∀ i, 0 < i → i < n → parent i = c → r x (b i)) :
    Ordered r (Function.update (Function.update b 0 (b c)) c x) n := by
  have hc0 : c ≠ 0 := by omega
  have hother : ∀ i, i ≠ 0 → i ≠ c →
      Function.update (Function.update b 0 (b c)) c x i = b i := fun i hi hic => by
    rw [Function.update_of_ne hic, Function.update_of_ne hi]
  have hroot : Function.update (Function.update b 0 (b c)) c x 0 = b c := by
    rw [Function.update_of_ne (Ne.symm hc0), Function.update_self]
  intro i hpos hi
  by_cases hp : parent i = 0
  · rw [hp, hroot]
    by_cases hic : i = c
    · rw [hic, Function.update_self]
      exact hx
    · have hid : i = d := by
        have := (parent_eq_zero hpos).mp hp
        omega
      rw [hother i (by omega) hic, hid]
      exact hd (hid ▸ hi)
  · have hic : i ≠ c := by
      intro heq
      exact hp ((parent_eq_zero hpos).mpr (by omega))
    rw [hother i (by omega) hic]
    by_cases hpc : parent i = c
    · rw [hpc, Function.update_self]
      exact hchildren i hpos hi hpc
    · rw [hother (parent i) hp hpc]
      exact h i hpos hi hp

end down

end Heap
