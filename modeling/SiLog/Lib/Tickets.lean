import Mathlib.Data.Multiset.Count
import Mathlib.Data.Multiset.Filter
import Mathlib.Data.Multiset.Range
import Mathlib.Data.Finset.Basic
import Mathlib.Tactic.Linarith

/-! # Tickets that may be given back

    A dispenser holds a counter.  `issue` hands out the value of the
    counter and increments it; a holder may give its ticket back, which
    decrements the counter.  When the give-backs happen out of order two
    holders can have the same ticket.

    The multiset `H` of the tickets held, in whatever way the holders use
    them, always satisfies `Parked H`: fewer than or exactly `n` of them are
    below `n`.  So a ticket held twice has a hole below it, and a holder of
    a ticket whose predecessors are all held is alone.
-/

namespace Tickets

/-- At most `n` of the tickets in `H` are below `n`, for every `n`. -/
def Parked (H : Multiset ℕ) : Prop := ∀ n, H.countP (· < n) ≤ n

theorem parked_zero : Parked 0 := fun n => by simp

/-- The counter of a dispenser is the number of tickets held: handing it
    out keeps the tickets parked. -/
theorem Parked.issue {H : Multiset ℕ} (h : Parked H) : Parked (H.card ::ₘ H) := by
  intro n
  have hcard : H.countP (· < n) ≤ H.card := Multiset.countP_le_card _ _
  have hn := h n
  rw [Multiset.countP_cons]
  -- the new ticket is below `n` only if all that are held fit below `n`
  split <;> omega

/-- Giving tickets back keeps the others parked. -/
theorem Parked.mono {H H' : Multiset ℕ} (h : Parked H) (hle : H' ≤ H) : Parked H' :=
  fun n => (Multiset.countP_le_of_le _ hle).trans (h n)

/-! ## Counting below a prefix that is all held -/

theorem range_le_of_forall_mem {H : Multiset ℕ} {r : ℕ} (hpre : ∀ i, i < r → i ∈ H) :
    Multiset.range r ≤ H := by
  rw [Multiset.le_iff_subset (Multiset.nodup_range r)]
  intro i hi
  exact hpre i (Multiset.mem_range.mp hi)

/-- The tickets below a hole `g` and one above it. -/
theorem cons_range_le {H : Multiset ℕ} {g t : ℕ} (ht : t ∈ H) (hgt : g < t)
    (hpre : ∀ i, i < g → i ∈ H) : t ::ₘ Multiset.range g ≤ H := by
  rw [Multiset.le_iff_subset (Multiset.nodup_cons.mpr
    ⟨by rw [Multiset.mem_range]; omega, Multiset.nodup_range g⟩)]
  intro x hx
  rcases Multiset.mem_cons.mp hx with rfl | hx
  · exact ht
  · exact hpre x (Multiset.mem_range.mp hx)

theorem countP_range_self (r : ℕ) : (Multiset.range r).countP (· < r) = r := by
  rw [Multiset.countP_eq_card_filter, Multiset.filter_eq_self.mpr, Multiset.card_range]
  intro i hi
  exact Multiset.mem_range.mp hi

/-- If all tickets below `r` are held by `P` and `P` together with a rest
    `Q` is parked, then no ticket of `Q` is below `r`. -/
theorem Parked.rest_ge {P Q : Multiset ℕ} {r t : ℕ} (h : Parked (P + Q))
    (hpre : ∀ i, i < r → i ∈ P) (ht : t ∈ Q) : r ≤ t := by
  by_contra hlt
  -- `P` alone already fills the places below `r`
  have hP : r ≤ P.countP (· < r) := by
    have := Multiset.countP_le_of_le (· < r) (range_le_of_forall_mem hpre)
    rwa [countP_range_self] at this
  have hQ : 0 < Q.countP (· < r) := Multiset.countP_pos.mpr ⟨t, ht, by omega⟩
  have hPQ := h r
  rw [Multiset.countP_add] at hPQ
  omega

/-- A ticket whose predecessors are all held is held at most once. -/
theorem Parked.count_le_one {H : Multiset ℕ} {t : ℕ} (h : Parked H)
    (hpre : ∀ i, i < t → i ∈ H) : H.count t ≤ 1 := by
  by_contra hcount
  -- the tickets below `t` and twice `t` itself are one too many
  have hle : Multiset.range t + Multiset.replicate 2 t ≤ H := by
    rw [Multiset.le_iff_count]
    intro i
    rw [Multiset.count_add, Multiset.count_replicate]
    by_cases hit : t = i
    · subst hit
      have h0 : (Multiset.range t).count t = 0 :=
        Multiset.count_eq_zero.mpr Multiset.notMem_range_self
      simp only [h0, if_true]
      omega
    · have hr : (Multiset.range t).count i ≤ H.count i :=
        Multiset.count_le_of_le i (range_le_of_forall_mem hpre)
      simpa [hit] using hr
  have hcard := Multiset.countP_le_of_le (· < t + 1) hle
  have hall : (Multiset.range t + Multiset.replicate 2 t).countP (· < t + 1) = t + 2 := by
    rw [Multiset.countP_eq_card_filter, Multiset.filter_eq_self.mpr]
    · simp
    · intro i hi
      rcases Multiset.mem_add.mp hi with hi | hi
      · have := Multiset.mem_range.mp hi; omega
      · have := Multiset.eq_of_mem_replicate hi; omega
  have := h (t + 1)
  omega

/-- If every ticket is below `n` then there are at most `n` of them. -/
theorem Parked.card_le {H : Multiset ℕ} {n : ℕ} (h : Parked H) {P : Multiset ℕ}
    (hP : P ≤ H) (hlt : ∀ t ∈ P, t < n) : P.card ≤ n := by
  have hall : P.countP (· < n) = P.card := Multiset.countP_eq_card.mpr hlt
  rw [← hall]
  exact (Multiset.countP_le_of_le _ hP).trans (h n)

/-- A downward closed multiset of parked tickets is an initial segment. -/
theorem Parked.eq_range {H : Multiset ℕ} (h : Parked H)
    (hdown : ∀ t ∈ H, ∀ i, i < t → i ∈ H) : H = Multiset.range H.card := by
  have hnodup : H.Nodup := by
    rw [Multiset.nodup_iff_count_le_one]
    intro t
    by_cases ht : t ∈ H
    · exact h.count_le_one (hdown t ht)
    · rw [Multiset.count_eq_zero.mpr ht]; omega
  -- a ticket `t` brings the `t + 1` tickets up to it
  have hlt : ∀ t ∈ H, t < H.card := by
    intro t ht
    have hle : Multiset.range (t + 1) ≤ H := range_le_of_forall_mem (by
      intro i hi
      rcases Nat.lt_succ_iff_lt_or_eq.mp hi with hi | rfl
      · exact hdown t ht i hi
      · exact ht)
    have := Multiset.card_le_card hle
    rw [Multiset.card_range] at this
    omega
  have hle : H ≤ Multiset.range H.card := by
    rw [Multiset.le_iff_subset hnodup]
    intro t ht
    exact Multiset.mem_range.mpr (hlt t ht)
  exact Multiset.eq_of_le_of_card_le hle (by rw [Multiset.card_range])

end Tickets
