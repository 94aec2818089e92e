import Mathlib.Data.List.Basic

/-! # Maximal runs in a list

    A run of a list is a non-empty stretch without separators that cannot be
    made longer on either side.  `IsRun` says so directly.  `Found` lists the
    runs from left to right: separators, a run, and behind the separator that
    ends it the same again.  Both describe the same runs.
-/

namespace Runs

variable {α : Type*} {p : α → Prop} {s t u r : List α} {i off : ℕ} {x : α} {l : List (ℕ × List α)}

/-- `r` is a run of `s` and starts at `i`; `p` tells the separators. -/
structure IsRun (p : α → Prop) (s : List α) (i : ℕ) (r : List α) : Prop where
  ne_nil : r ≠ []
  plain  : ∀ y ∈ r, ¬ p y
  place  : ∃ front back, s = front ++ r ++ back ∧ front.length = i ∧
             (∀ y ∈ front.getLast?, p y) ∧ (∀ y ∈ back.head?, p y)

/-- The runs of a list with their places, from left to right; the list starts at `off`. -/
inductive Found (p : α → Prop) : ℕ → List α → List (ℕ × List α) → Prop where
  | nil  : ∀ {off d}, (∀ y ∈ d, p y) → Found p off d []
  | last : ∀ {off d t}, (∀ y ∈ d, p y) → t ≠ [] → (∀ y ∈ t, ¬ p y) →
             Found p off (d ++ t) [(off + d.length, t)]
  | cons : ∀ {off d t x rest l}, (∀ y ∈ d, p y) → t ≠ [] → (∀ y ∈ t, ¬ p y) → p x →
             Found p (off + d.length + t.length + 1) rest l →
             Found p off (d ++ (t ++ x :: rest)) ((off + d.length, t) :: l)

/-! ## Every list has its runs -/

/-- The longest beginning with `p`. -/
theorem exists_split (p : α → Prop) (s : List α) :
    ∃ d u, s = d ++ u ∧ (∀ y ∈ d, p y) ∧ ∀ y ∈ u.head?, ¬ p y := by
  induction s with
  | nil => exact ⟨[], [], rfl, by simp, by simp⟩
  | cons x s ih =>
    by_cases hx : p x
    · obtain ⟨d, u, rfl, hd, hu⟩ := ih
      exact ⟨x :: d, u, rfl, List.forall_mem_cons.mpr ⟨hx, hd⟩, hu⟩
    · exact ⟨[], x :: s, rfl, by simp, by simpa using hx⟩

theorem exists_found (p : α → Prop) (off : ℕ) (s : List α) : ∃ l, Found p off s l := by
  induction hn : s.length using Nat.strongRecOn generalizing s off with
  | ind n ih =>
    obtain ⟨d, u, rfl, hd, hu⟩ := exists_split p s
    obtain ⟨t, v, rfl, ht, hv⟩ := exists_split (fun y => ¬ p y) u
    cases t with
    | nil =>
      cases v with
      | nil =>
        rw [List.append_nil, List.append_nil]
        exact ⟨[], Found.nil hd⟩
      | cons x rest => exact absurd (hu x rfl) (hv x rfl)
    | cons y t =>
      cases v with
      | nil =>
        rw [List.append_nil]
        exact ⟨_, Found.last hd (List.cons_ne_nil y t) ht⟩
      | cons x rest =>
        have hshort : rest.length < n := by
          rw [← hn]
          simp only [List.length_append, List.length_cons]
          omega
        obtain ⟨l, hl⟩ := ih rest.length hshort (off + d.length + (y :: t).length + 1) rest rfl
        exact ⟨_, Found.cons hd (List.cons_ne_nil y t) ht (not_not.mp (hv x rfl)) hl⟩

/-! ## The runs of a list from those of its end -/

theorem IsRun.exists_cons (h : IsRun p s i r) : ∃ y r', r = y :: r' ∧ ¬ p y := by
  obtain ⟨y, r', rfl⟩ := List.exists_cons_of_ne_nil h.ne_nil
  exact ⟨y, r', rfl, h.plain y List.mem_cons_self⟩

/-- No run starts at a separator. -/
theorem isRun_cons (hx : p x) : IsRun p (x :: s) i r ↔ ∃ j, i = 1 + j ∧ IsRun p s j r := by
  constructor
  · intro h
    obtain ⟨y, r', rfl, hy⟩ := h.exists_cons
    obtain ⟨front, back, hs, rfl, hfront, hback⟩ := h.place
    cases front with
    | nil =>
      obtain ⟨rfl, _⟩ := List.cons.inj hs
      exact absurd hx hy
    | cons z front =>
      obtain ⟨_, rfl⟩ := List.cons.inj hs
      refine ⟨front.length, List.length_cons.trans (Nat.add_comm _ _), h.ne_nil, h.plain, front, back,
        rfl, rfl, ?_, hback⟩
      intro w hw
      apply hfront
      rw [List.getLast?_cons, Option.mem_def.mp hw]
      rfl
  · rintro ⟨j, rfl, h⟩
    obtain ⟨front, back, rfl, rfl, hfront, hback⟩ := h.place
    refine ⟨h.ne_nil, h.plain, x :: front, back, rfl, List.length_cons.trans (Nat.add_comm _ _), ?_,
      hback⟩
    intro w hw
    rw [List.getLast?_cons] at hw
    cases hlast : front.getLast? with
    | none =>
      rw [hlast] at hw
      cases hw
      exact hx
    | some z =>
      rw [hlast] at hw
      cases hw
      exact hfront z hlast

theorem isRun_append_separators {d : List α} (hd : ∀ y ∈ d, p y) :
    IsRun p (d ++ s) i r ↔ ∃ j, i = d.length + j ∧ IsRun p s j r := by
  induction d generalizing i with
  | nil => simp
  | cons x d ih =>
    obtain ⟨hx, hd⟩ := List.forall_mem_cons.mp hd
    rw [List.cons_append, isRun_cons hx]
    simp only [ih hd, List.length_cons]
    constructor
    · rintro ⟨_, rfl, j, rfl, h⟩
      exact ⟨j, by omega, h⟩
    · rintro ⟨j, rfl, h⟩
      exact ⟨d.length + j, by omega, j, rfl, h⟩

/-- A run at the start of the list, and the runs behind it. -/
theorem isRun_append (hne : t ≠ []) (ht : ∀ y ∈ t, ¬ p y) (hu : ∀ y ∈ u.head?, p y) :
    IsRun p (t ++ u) i r ↔ (i = 0 ∧ r = t) ∨ ∃ j, i = t.length + j ∧ IsRun p u j r := by
  constructor
  · intro h
    obtain ⟨front, back, hs, rfl, hfront, hback⟩ := h.place
    rw [List.append_assoc] at hs
    rcases List.append_eq_append_iff.mp hs with ⟨c, rfl, rfl⟩ | ⟨c, rfl, hu'⟩
    · -- the run stands behind `t`
      refine Or.inr ⟨c.length, List.length_append, h.ne_nil, h.plain, c, back,
        (List.append_assoc _ _ _).symm, rfl, ?_, hback⟩
      intro y hy
      apply hfront
      rw [List.getLast?_append, Option.mem_def.mp hy]
      rfl
    · -- the run starts in `t`, and then at its start
      cases hlast : front.getLast? with
      | some y =>
        have hmem : y ∈ front := List.mem_of_getLast? hlast
        exact absurd (hfront y hlast) (ht y (List.mem_append_left c hmem))
      | none =>
        obtain rfl := List.getLast?_eq_none_iff.mp hlast
        refine Or.inl ⟨rfl, ?_⟩
        rw [List.nil_append] at ht ⊢
        rcases List.append_eq_append_iff.mp hu' with ⟨e, rfl, rfl⟩ | ⟨e, rfl, rfl⟩
        · cases e with
          | nil => exact (List.append_nil r).symm
          | cons y e => exact absurd (hback y rfl) (ht y (by simp))
        · cases e with
          | nil => exact List.append_nil c
          | cons y e => exact absurd (hu y rfl) (h.plain y (by simp))
  · rintro (⟨rfl, rfl⟩ | ⟨j, rfl, h⟩)
    · exact ⟨hne, ht, [], u, rfl, rfl, by simp, hu⟩
    · obtain ⟨y, r', rfl, hy⟩ := h.exists_cons
      obtain ⟨front, back, rfl, rfl, hfront, hback⟩ := h.place
      refine ⟨h.ne_nil, h.plain, t ++ front, back, by simp, List.length_append, ?_, hback⟩
      intro z hz
      rw [List.getLast?_append] at hz
      cases hlast : front.getLast? with
      | none =>
        -- a run right behind `t` would start at the separator
        obtain rfl := List.getLast?_eq_none_iff.mp hlast
        exact absurd (hu y rfl) hy
      | some w =>
        rw [hlast] at hz
        cases hz
        exact hfront _ hlast

theorem not_isRun_separators (hs : ∀ y ∈ s, p y) : ¬ IsRun p s i r := by
  intro h
  obtain ⟨y, r', rfl, hy⟩ := h.exists_cons
  obtain ⟨front, back, rfl, _⟩ := h.place
  exact hy (hs y (by simp))

/-! ## What is found -/

/-- Exactly the runs are found. -/
theorem Found.mem_iff (h : Found p off s l) : (i, r) ∈ l ↔ ∃ j, i = off + j ∧ IsRun p s j r := by
  induction h with
  | nil hd =>
    simp only [List.not_mem_nil, false_iff]
    rintro ⟨j, _, hrun⟩
    exact not_isRun_separators hd hrun
  | @last off d t hd hne ht =>
    have hrun : ∀ j, IsRun p t j r ↔ j = 0 ∧ r = t := by
      intro j
      have happend := isRun_append (u := []) (i := j) (r := r) hne ht (by simp)
      rw [List.append_nil] at happend
      rw [happend, or_iff_left]
      rintro ⟨k, _, hk⟩
      exact not_isRun_separators (by simp) hk
    simp only [isRun_append_separators hd, hrun, List.mem_singleton, Prod.mk.injEq]
    constructor
    · rintro ⟨rfl, rfl⟩
      exact ⟨d.length, rfl, 0, rfl, rfl, rfl⟩
    · rintro ⟨_, rfl, _, rfl, rfl, rfl⟩
      exact ⟨rfl, rfl⟩
  | @cons off d t x rest l hd hne ht hx _ ih =>
    have hhead : ∀ y ∈ (x :: rest).head?, p y := by
      rintro y ⟨⟩
      exact hx
    simp only [isRun_append_separators hd, isRun_append hne ht hhead, isRun_cons hx, List.mem_cons,
      Prod.mk.injEq, ih]
    constructor
    · rintro (⟨rfl, rfl⟩ | ⟨j, rfl, hrun⟩)
      · exact ⟨d.length, rfl, 0, rfl, Or.inl ⟨rfl, rfl⟩⟩
      · exact ⟨d.length + (t.length + (1 + j)), by omega, _, rfl, Or.inr ⟨_, rfl, j, rfl, hrun⟩⟩
    · rintro ⟨_, rfl, _, rfl, ⟨rfl, rfl⟩ | ⟨_, rfl, j, rfl, hrun⟩⟩
      · exact Or.inl ⟨rfl, rfl⟩
      · exact Or.inr ⟨j, by omega, hrun⟩

theorem Found.sorted (h : Found p off s l) : l.Pairwise fun a b => a.1 < b.1 := by
  induction h with
  | nil _ => exact List.Pairwise.nil
  | last _ _ _ => exact List.pairwise_singleton _ _
  | @cons off d t x rest l _ _ _ _ hrest ih =>
    refine List.Pairwise.cons ?_ ih
    rintro ⟨i, r⟩ hmem
    obtain ⟨j, rfl, _⟩ := hrest.mem_iff.mp hmem
    show off + d.length < off + d.length + t.length + 1 + j
    omega

end Runs
