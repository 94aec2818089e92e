import Mathlib.Data.List.Basic
import Mathlib.Tactic.Common

/-! # Ledgers of acquisitions and releases

    A ledger lists the acquisitions and releases of resources that are
    known by a key (descriptors, blocks of memory).  A key may be handed out
    again after it was released, so one key stands for many instances.
    `track` follows one key through a ledger and stops at the first entry
    that is out of order: an acquisition of a key that is held or a release
    of one that is not.  A ledger that `track` follows to the end releases
    every instance at most once.  A table is such a ledger with the keys that
    are held; it accounts for all instances exactly if every key held has an
    owner.
-/

namespace Ledger

variable {κ : Type*} [DecidableEq κ]

/-- An entry of a ledger. -/
inductive Event (κ : Type*) where
  | acquired : κ → Event κ
  | released : κ → Event κ
  deriving DecidableEq

/-- One entry, seen from key `k`; `none` if it is out of order. -/
def trackStep (k : κ) (held : Bool) : Event κ → Option Bool
  | .acquired j => if j = k then (if held then none else some true) else some held
  | .released j => if j = k then (if held then some false else none) else some held

/-- Whether `k` is held after the entries; `none` if one of them is out of order. -/
def track (k : κ) (held : Bool) : List (Event κ) → Option Bool
  | [] => some held
  | ev :: log => (trackStep k held ev).bind fun held' => track k held' log

theorem track_append (k : κ) (held : Bool) (log log' : List (Event κ)) :
    track k held (log ++ log') = (track k held log).bind fun held' => track k held' log' := by
  induction log generalizing held with
  | nil => rfl
  | cons ev log ih =>
    rw [List.cons_append, track, track, Option.bind_assoc]
    congr 1
    funext held'
    exact ih held'

/-! ## Ledgers in order -/

/-- The ledger is in order and leaves exactly the keys in `held` acquired. -/
def Balanced (log : List (Event κ)) (held : List κ) : Prop :=
  ∀ k, track k false log = some (decide (k ∈ held))

theorem balanced_nil : Balanced ([] : List (Event κ)) [] := fun _ => rfl

theorem Balanced.acquire {log : List (Event κ)} {held held' : List κ} {j : κ}
    (h : Balanced log held) (hfresh : j ∉ held) (hheld : ∀ k, k ∈ held' ↔ k = j ∨ k ∈ held) :
    Balanced (log ++ [.acquired j]) held' := by
  intro k
  rw [track_append, h k, Option.bind_some]
  by_cases hk : j = k
  · subst hk
    simp [track, trackStep, hfresh, hheld]
  · simp [track, trackStep, hk, hheld, Ne.symm hk]

theorem Balanced.release {log : List (Event κ)} {held held' : List κ} {j : κ}
    (h : Balanced log held) (hj : j ∈ held) (hheld : ∀ k, k ∈ held' ↔ k ≠ j ∧ k ∈ held) :
    Balanced (log ++ [.released j]) held' := by
  intro k
  rw [track_append, h k, Option.bind_some]
  by_cases hk : j = k
  · subst hk
    simp [track, trackStep, hj, hheld]
  · simp [track, trackStep, hk, hheld, Ne.symm hk]

/-! ## Instances -/

/-- The number of releases of an instance of `k`, where `later` is what follows
    its acquisition. -/
def releases (k : κ) (later : List (Event κ)) : ℕ :=
  (later.takeWhile fun ev => decide (ev ≠ .acquired k)).count (.released k)

/-- While `k` is not held it is not released. -/
theorem releases_of_track_false {k : κ} {held : Bool} {later : List (Event κ)}
    (h : track k false later = some held) :
    releases k later = 0 ∧ (Event.acquired k ∉ later → held = false) := by
  induction later with
  | nil => exact ⟨rfl, fun _ => (Option.some.inj h).symm⟩
  | cons ev later ih =>
    cases ev with
    | acquired j =>
      by_cases hj : j = k
      · subst hj
        exact ⟨by simp [releases], fun hno => absurd List.mem_cons_self hno⟩
      · rw [track, trackStep, if_neg hj, Option.bind_some] at h
        obtain ⟨hcount, hheld⟩ := ih h
        refine ⟨?_, fun hno => hheld fun hmem => hno (List.mem_cons_of_mem _ hmem)⟩
        simpa [releases, hj] using hcount
    | released j =>
      by_cases hj : j = k
      · subst hj
        simp [track, trackStep] at h
      · rw [track, trackStep, if_neg hj, Option.bind_some] at h
        obtain ⟨hcount, hheld⟩ := ih h
        refine ⟨?_, fun hno => hheld fun hmem => hno (List.mem_cons_of_mem _ hmem)⟩
        simpa [releases, hj] using hcount

/-- While `k` is held it is released at most once, and not at all only if it stays
    held to the end. -/
theorem releases_of_track_true {k : κ} {held : Bool} {later : List (Event κ)}
    (h : track k true later = some held) :
    (releases k later = 1 ∧ (Event.acquired k ∉ later → held = false)) ∨
    (releases k later = 0 ∧ Event.acquired k ∉ later ∧ held = true) := by
  induction later with
  | nil => exact Or.inr ⟨rfl, List.not_mem_nil, (Option.some.inj h).symm⟩
  | cons ev later ih =>
    cases ev with
    | acquired j =>
      by_cases hj : j = k
      · subst hj
        simp [track, trackStep] at h
      · rw [track, trackStep, if_neg hj, Option.bind_some] at h
        have hcount : releases k (.acquired j :: later) = releases k later := by
          simp [releases, hj]
        have hmem : Event.acquired k ∈ Event.acquired j :: later ↔ Event.acquired k ∈ later := by
          simp [Ne.symm hj]
        rw [hcount, hmem]
        exact ih h
    | released j =>
      by_cases hj : j = k
      · subst hj
        -- the release of this instance; from here on `k` is not held
        rw [track, trackStep, if_pos rfl, if_pos rfl, Option.bind_some] at h
        obtain ⟨hcount, hheld⟩ := releases_of_track_false h
        refine Or.inl ⟨?_, fun hno => hheld fun hmem => hno (List.mem_cons_of_mem _ hmem)⟩
        have hone : releases j (.released j :: later) = releases j later + 1 := by simp [releases]
        rw [hone, hcount]
      · rw [track, trackStep, if_neg hj, Option.bind_some] at h
        have hcount : releases k (.released j :: later) = releases k later := by
          simp [releases, hj]
        have hmem : Event.acquired k ∈ Event.released j :: later ↔ Event.acquired k ∈ later := by
          simp
        rw [hcount, hmem]
        exact ih h

/-- **Exactly once.** Every instance in a ledger in order was released exactly
    once, or is the one that is still held and was not released. -/
theorem Balanced.exactly_once {earlier later : List (Event κ)} {k : κ} {held : List κ}
    (h : Balanced (earlier ++ .acquired k :: later) held) :
    (releases k later = 1 ∧ (Event.acquired k ∉ later → k ∉ held)) ∨
    (releases k later = 0 ∧ Event.acquired k ∉ later ∧ k ∈ held) := by
  have hk := h k
  rw [track_append] at hk
  obtain ⟨b, _, hrest⟩ := Option.bind_eq_some_iff.mp hk
  rw [track] at hrest
  obtain ⟨b', hstep, hlater⟩ := Option.bind_eq_some_iff.mp hrest
  have hb' : b' = true := by
    cases b <;> simp [trackStep] at hstep
    exact hstep
  subst hb'
  simpa using releases_of_track_true hlater

/-- Nothing is released that was not acquired before. -/
theorem Balanced.acquired_before {earlier later : List (Event κ)} {k : κ} {held : List κ}
    (h : Balanced (earlier ++ .released k :: later) held) : Event.acquired k ∈ earlier := by
  have hk := h k
  rw [track_append] at hk
  obtain ⟨b, hb, hrest⟩ := Option.bind_eq_some_iff.mp hk
  by_contra hno
  have hfalse := (releases_of_track_false hb).2 hno
  subst hfalse
  simp [track, trackStep] at hrest

/-- A key that is held has a last acquisition. -/
theorem Balanced.last_acquired {log : List (Event κ)} {held : List κ} {k : κ}
    (h : Balanced log held) (hk : k ∈ held) :
    ∃ earlier later, log = earlier ++ .acquired k :: later ∧ Event.acquired k ∉ later := by
  have hmem : Event.acquired k ∈ log.reverse := by
    by_contra hno
    have hfalse := (releases_of_track_false (h k)).2 fun hmem => hno (List.mem_reverse.mpr hmem)
    simp [hk] at hfalse
  obtain ⟨later, earlier, heq, hlast⟩ := List.eq_append_cons_of_mem hmem
  refine ⟨earlier.reverse, later.reverse, ?_, fun hno => hlast (List.mem_reverse.mp hno)⟩
  rw [← List.reverse_reverse log, heq]
  simp

/-! ## Tables -/

/-- The keys that are held, and how that came about. -/
structure Table (κ : Type*) where
  held : List κ
  log  : List (Event κ)

namespace Table

variable {t : Table κ} {k : κ}

def acquire (t : Table κ) (k : κ) : Table κ := ⟨k :: t.held, t.log ++ [.acquired k]⟩

def release (t : Table κ) (k : κ) : Table κ := ⟨t.held.erase k, t.log ++ [.released k]⟩

/-- Every key is held once, and the ledger is in order. -/
structure InOrder (t : Table κ) : Prop where
  nodup : t.held.Nodup
  books : Balanced t.log t.held

theorem InOrder.acquire (h : t.InOrder) (hk : k ∉ t.held) : (t.acquire k).InOrder where
  nodup := List.nodup_cons.mpr ⟨hk, h.nodup⟩
  books := h.books.acquire hk fun _ => List.mem_cons

theorem InOrder.mem_release (h : t.InOrder) {j : κ} :
    j ∈ (t.release k).held ↔ j ≠ k ∧ j ∈ t.held := h.nodup.mem_erase_iff

theorem InOrder.release (h : t.InOrder) (hk : k ∈ t.held) : (t.release k).InOrder where
  nodup := h.nodup.erase k
  books := h.books.release hk fun _ => h.mem_release

theorem InOrder.acquire_release (h : t.InOrder) (hk : k ∉ t.held) :
    ((t.acquire k).release k).InOrder := (h.acquire hk).release List.mem_cons_self

theorem held_acquire_release : ((t.acquire k).release k).held = t.held := List.erase_cons_head k t.held

/-- Every instance was released exactly once, or was not released and is the one
    that an owner has; and nothing was released that was not acquired before. -/
structure Accounted (t : Table κ) (owned : κ → Prop) : Prop where
  acquired : ∀ earlier k later, t.log = earlier ++ .acquired k :: later →
    releases k later = 1 ∨ (releases k later = 0 ∧ Event.acquired k ∉ later ∧ owned k)
  released : ∀ earlier k later, t.log = earlier ++ .released k :: later → Event.acquired k ∈ earlier

theorem InOrder.accounted_iff (h : t.InOrder) {owned : κ → Prop} :
    t.Accounted owned ↔ ∀ k ∈ t.held, owned k := by
  constructor
  · intro hacc k hk
    obtain ⟨earlier, later, hlog, hlast⟩ := h.books.last_acquired hk
    have hbooks := h.books
    rw [hlog] at hbooks
    rcases hacc.acquired _ _ _ hlog with hone | ⟨_, _, howned⟩
    · -- the last instance is still held
      rcases hbooks.exactly_once with ⟨_, hgone⟩ | ⟨hnone, _⟩
      · exact absurd hk (hgone hlast)
      · rw [hnone] at hone
        cases hone
    · exact howned
  · intro howned
    constructor
    · intro earlier k later hlog
      have hbooks := h.books
      rw [hlog] at hbooks
      rcases hbooks.exactly_once with ⟨hone, _⟩ | ⟨hnone, hlast, hheld⟩
      · exact Or.inl hone
      · exact Or.inr ⟨hnone, hlast, howned k hheld⟩
    · intro earlier k later hlog
      have hbooks := h.books
      rw [hlog] at hbooks
      exact hbooks.acquired_before

end Table

end Ledger
