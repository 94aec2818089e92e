import SiLog.Lib.Lts
import Mathlib.Data.List.Basic
import Mathlib.Logic.Function.Basic

/-! # A relay of many sources into one log

    Every source submits items.  They travel one behind the other and are
    written to one log, in which the items of different sources are mixed.
    On the way an item may be lost, wherever it is at that moment.

    The items of one source stand in the log in the order in which they were
    submitted and none of them stands there twice; if nothing is lost, those
    that are not in the log are on the way.
-/

open Lts

namespace Relay

/-! ## The items of a source -/

section lane
variable {κ α : Type*} [DecidableEq κ] (p : κ)

/-- The items of source `p`. -/
def lane (l : List (κ × α)) : List α := (l.filter fun x => x.1 = p).map Prod.snd

@[simp] theorem lane_nil : lane p ([] : List (κ × α)) = [] := rfl

@[simp] theorem lane_append (l l' : List (κ × α)) : lane p (l ++ l') = lane p l ++ lane p l' := by
  simp [lane]

theorem lane_cons_self (a : α) (l : List (κ × α)) : lane p ((p, a) :: l) = a :: lane p l := by
  simp [lane]

theorem lane_cons_ne {q : κ} (h : q ≠ p) (a : α) (l : List (κ × α)) :
    lane p ((q, a) :: l) = lane p l := by
  simp [lane, h]

@[simp] theorem lane_singleton_self (a : α) : lane p [(p, a)] = [a] := lane_cons_self p a []

theorem lane_singleton_ne {q : κ} (h : q ≠ p) (a : α) : lane p [(q, a)] = [] :=
  lane_cons_ne p h a []

theorem mem_lane {a : α} {l : List (κ × α)} : a ∈ lane p l ↔ (p, a) ∈ l := by
  simp [lane]

end lane

/-! ## The relay -/

/-- What the sources submitted, what is on the way and what was written. -/
structure State (κ α : Type*) where
  submitted : κ → List α
  transit   : κ → List α
  log       : List (κ × α)

inductive Act (κ α : Type*) where
  | submit (p : κ) (a : α)
  /-- The first item of `p` on the way is written. -/
  | write (p : κ)
  /-- Item `i` of `p` on the way is lost. -/
  | lose (p : κ) (i : ℕ)

/-- No item of a source with `P` is lost. -/
def Act.Spares {κ α : Type*} (P : κ → Prop) : Act κ α → Prop
  | .lose p _ => ¬ P p
  | _ => True

section relay
variable {κ α : Type*} [DecidableEq κ]

def State.initial : State κ α := { submitted := fun _ => [], transit := fun _ => [], log := [] }

def next (s : State κ α) : Act κ α → Option (State κ α)
  | .submit p a =>
    some { s with submitted := Function.update s.submitted p (s.submitted p ++ [a])
                  transit := Function.update s.transit p (s.transit p ++ [a]) }
  | .write p =>
    match s.transit p with
    | [] => none
    | a :: rest => some { s with transit := Function.update s.transit p rest
                                 log := s.log ++ [(p, a)] }
  | .lose p i =>
    if i < (s.transit p).length then
      some { s with transit := Function.update s.transit p ((s.transit p).eraseIdx i) }
    else none

def Step (s : State κ α) (a : Act κ α) (s' : State κ α) : Prop := next s a = some s'

/-- Where the items of `p` are that were not lost. -/
def State.carried (s : State κ α) (p : κ) : List α := lane p s.log ++ s.transit p

/-- A source finds its items in the order in which it submitted them. -/
def InOrder (s : State κ α) : Prop := ∀ p, (s.carried p).Sublist (s.submitted p)

/-- The sources with `P` find all their items. -/
def Complete (P : κ → Prop) (s : State κ α) : Prop := ∀ p, P p → s.carried p = s.submitted p

/-- What a step does to the items of `p`. -/
theorem carried_step {s s' : State κ α} {a : Act κ α} (h : Step s a s') (p : κ) :
    (∃ x, s'.carried p = s.carried p ++ [x] ∧ s'.submitted p = s.submitted p ++ [x]) ∨
    (s'.carried p = s.carried p ∧ s'.submitted p = s.submitted p) ∨
    (∃ i, a = .lose p i ∧ (s'.carried p).Sublist (s.carried p) ∧
      s'.submitted p = s.submitted p) := by
  unfold Step at h
  cases a with
  | submit q x =>
    cases h
    by_cases hq : p = q
    · subst hq
      apply Or.inl
      exists x
      simp [State.carried, List.append_assoc]
    · apply Or.inr
      apply Or.inl
      simp [State.carried, Function.update_of_ne hq]
  | write q =>
    apply Or.inr
    apply Or.inl
    cases htransit : s.transit q with
    | nil =>
      rw [next, htransit] at h
      cases h
    | cons x rest =>
      rw [next, htransit] at h
      cases h
      by_cases hq : p = q
      · subst hq
        simp [State.carried, htransit]
      · simp [State.carried, Function.update_of_ne hq, lane_singleton_ne p (Ne.symm hq)]
  | lose q i =>
    apply Or.inr
    simp only [next] at h
    split at h
    · cases h
      by_cases hq : p = q
      · subst hq
        apply Or.inr
        refine ⟨i, rfl, ?_, rfl⟩
        simp only [State.carried, Function.update_self]
        exact (List.eraseIdx_sublist _ i).append_left _
      · apply Or.inl
        simp [State.carried, Function.update_of_ne hq]
    · cases h

theorem InOrder.step {s s' : State κ α} {a : Act κ α} (hO : InOrder s) (h : Step s a s') :
    InOrder s' := by
  intro p
  obtain ⟨x, hcarried, hsub⟩ | ⟨hcarried, hsub⟩ | ⟨_, _, hless, hsub⟩ := carried_step h p
  · rw [hcarried, hsub]
    exact (hO p).append (List.Sublist.refl [x])
  · rw [hcarried, hsub]
    exact hO p
  · rw [hsub]
    exact hless.trans (hO p)

theorem Complete.step {P : κ → Prop} {s s' : State κ α} {a : Act κ α} (hC : Complete P s)
    (hspares : a.Spares P) (h : Step s a s') : Complete P s' := by
  intro p hp
  obtain ⟨x, hcarried, hsub⟩ | ⟨hcarried, hsub⟩ | ⟨i, rfl, _⟩ := carried_step h p
  · rw [hcarried, hsub, hC p hp]
  · rw [hcarried, hsub, hC p hp]
  · exact absurd hp hspares

theorem inOrder_initial : InOrder (State.initial : State κ α) := fun _ => List.nil_sublist _

theorem complete_initial (P : κ → Prop) : Complete P (State.initial : State κ α) :=
  fun _ _ => rfl

/-- Every run keeps the order. -/
theorem InOrder.run {s s' : State κ α} {as : List (Act κ α)} (hO : InOrder s)
    (h : Steps Step s as s') : InOrder s' :=
  h.invariant (fun _ _ _ hstep hO => hO.step hstep) hO

/-- **Order.** In every run the items of a source are in the log in order. -/
theorem inOrder_run {s : State κ α} {as : List (Act κ α)} (h : Steps Step .initial as s) :
    InOrder s :=
  inOrder_initial.run h

/-- **Completeness.** A run that loses nothing of the sources with `P` has all their items in the
    log or on the way. -/
theorem complete_run {P : κ → Prop} {s : State κ α} {as : List (Act κ α)}
    (h : Steps (Guarded Step fun _ a => a.Spares P) .initial as s) : Complete P s :=
  h.invariant (fun _ _ _ hstep hC => hC.step hstep.2 hstep.1) (complete_initial P)

theorem InOrder.log {s : State κ α} (hO : InOrder s) (p : κ) :
    (lane p s.log).Sublist (s.submitted p) :=
  (List.sublist_append_left _ _).trans (hO p)

end relay

end Relay
