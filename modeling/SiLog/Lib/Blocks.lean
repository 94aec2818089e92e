import Mathlib.Data.List.Basic
import Mathlib.Tactic.Ring

/-! # Cutting a stream into blocks

    A stream of items is cut into consecutive blocks of `k` items; what does
    not fill a block is left over.  A reader that asks for at most what is
    missing to the next block completes at most one block at a time.
-/

namespace Blocks

variable {α : Type*} {k : ℕ} {l d : List α}

/-- The consecutive full blocks of `k` items. -/
def blocks (k : ℕ) (l : List α) : List (List α) :=
  (List.range (l.length / k)).map fun i => (l.drop (i * k)).take k

/-- What is left after the last full block. -/
def leftover (k : ℕ) (l : List α) : List α := l.drop (l.length / k * k)

@[simp] theorem blocks_nil : blocks k ([] : List α) = [] := by simp [blocks]

@[simp] theorem leftover_nil : leftover k ([] : List α) = [] := by simp [leftover]

theorem length_leftover (k : ℕ) (l : List α) : (leftover k l).length = l.length % k := by
  rw [leftover, List.length_drop, Nat.mod_eq_sub_div_mul]

/-- The blocks of a stream do not change when items are added behind them. -/
theorem block_append {i : ℕ} (hi : i < l.length / k) :
    ((l ++ d).drop (i * k)).take k = (l.drop (i * k)).take k := by
  have hle : (i + 1) * k ≤ l.length :=
    (Nat.mul_le_mul_right k hi).trans (Nat.div_mul_le_self l.length k)
  have hle' : i * k + k ≤ l.length := by rw [← Nat.succ_mul]; exact hle
  rw [List.drop_append_of_le_length (by omega),
    List.take_append_of_le_length (by rw [List.length_drop]; omega)]

theorem length_div_append_lt (hlt : (leftover k l).length + d.length < k) :
    (l ++ d).length / k = l.length / k := by
  rw [length_leftover] at hlt
  have hk : 0 < k := by omega
  rw [List.length_append]
  conv_lhs => rw [← Nat.div_add_mod l.length k, Nat.add_assoc, Nat.mul_add_div hk]
  rw [Nat.div_eq_of_lt hlt, Nat.add_zero]

theorem length_div_append_eq (hk : 0 < k) (heq : (leftover k l).length + d.length = k) :
    (l ++ d).length / k = l.length / k + 1 := by
  rw [length_leftover] at heq
  rw [List.length_append]
  conv_lhs => rw [← Nat.div_add_mod l.length k, Nat.add_assoc, Nat.mul_add_div hk, heq]
  rw [Nat.div_self hk]

/-- Items that do not fill the next block are added to what is left over. -/
theorem blocks_append_lt (hlt : (leftover k l).length + d.length < k) :
    blocks k (l ++ d) = blocks k l ∧ leftover k (l ++ d) = leftover k l ++ d := by
  have hdiv := length_div_append_lt hlt
  constructor
  · rw [blocks, blocks, hdiv]
    refine List.map_congr_left fun i hi => ?_
    exact block_append (List.mem_range.mp hi)
  · rw [leftover, leftover, hdiv, List.drop_append_of_le_length (Nat.div_mul_le_self _ _)]

/-- Items that just fill the next block complete it. -/
theorem blocks_append_eq (hk : 0 < k) (heq : (leftover k l).length + d.length = k) :
    blocks k (l ++ d) = blocks k l ++ [leftover k l ++ d] ∧ leftover k (l ++ d) = [] := by
  have hdiv := length_div_append_eq hk heq
  have hdrop : (l ++ d).drop (l.length / k * k) = leftover k l ++ d := by
    rw [List.drop_append_of_le_length (Nat.div_mul_le_self _ _), leftover]
  constructor
  · rw [blocks, blocks, hdiv, List.range_succ, List.map_append, List.map_singleton, hdrop,
      List.take_of_length_le (by rw [List.length_append]; omega)]
    congr 1
    refine List.map_congr_left fun i hi => ?_
    exact block_append (List.mem_range.mp hi)
  · rw [leftover, hdiv, Nat.succ_mul, ← List.drop_drop, hdrop]
    exact List.drop_eq_nil_of_le (by rw [List.length_append]; omega)

/-- A first block stands in front of the blocks of the rest. -/
theorem blocks_block_append {b : List α} (hk : 0 < k) (hb : b.length = k) (l : List α) :
    blocks k (b ++ l) = b :: blocks k l := by
  have hcount : (b ++ l).length / k = l.length / k + 1 := by
    rw [List.length_append, hb, Nat.add_comm, Nat.add_div_right _ hk]
  rw [blocks, blocks, hcount, List.range_succ_eq_map, List.map_cons, List.map_map]
  congr 1
  · rw [Nat.zero_mul, List.drop_zero, ← hb, List.take_left]
  · refine List.map_congr_left fun i _ => ?_
    have hdrop : (b ++ l).drop ((i + 1) * k) = l.drop (i * k) := by
      rw [Nat.succ_mul, Nat.add_comm, ← List.drop_drop, ← hb, List.drop_left]
    exact congrArg (List.take k) hdrop

/-- Whatever part of a stream of whole blocks has arrived, with less than a block behind them: its
    full blocks are the first ones. -/
theorem blocks_of_prefix {bs : List (List α)} {part : List α} (hk : 0 < k)
    (hbs : ∀ b ∈ bs, b.length = k) (hpart : part.length < k) (hl : l <+: bs.flatten ++ part) :
    blocks k l = bs.take (l.length / k) := by
  induction bs generalizing l with
  | nil =>
    have hlt : l.length < k := hl.length_le.trans_lt hpart
    rw [blocks, Nat.div_eq_of_lt hlt, List.take_nil, List.range_zero, List.map_nil]
  | cons b bs ih =>
    obtain ⟨hb, hbs⟩ := List.forall_mem_cons.mp hbs
    by_cases hlt : l.length < k
    · rw [blocks, Nat.div_eq_of_lt hlt, List.take_zero, List.range_zero, List.map_nil]
    · -- the first block has arrived
      rw [List.flatten_cons, List.append_assoc] at hl
      obtain ⟨l', rfl⟩ : b <+: l :=
        List.prefix_of_prefix_length_le (List.prefix_append _ _) hl (by omega)
      have hcount : (b ++ l').length / k = l'.length / k + 1 := by
        rw [List.length_append, hb, Nat.add_comm, Nat.add_div_right _ hk]
      rw [blocks_block_append hk hb, ih hbs ((List.prefix_append_right_inj b).mp hl), hcount,
        List.take_succ_cons]

end Blocks
