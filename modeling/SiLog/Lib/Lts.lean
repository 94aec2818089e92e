import Mathlib.Logic.Basic

/-! # Labelled transition systems

    A system is a relation `R s a s'`: label `a` takes state `s` to state
    `s'`.  This file has the finite runs of such a system, the invariant
    rule, the simulation of one system by another, the runs of the parts of
    a system, and the runs all of whose steps meet a side condition.  The
    last rule relates the two: a run either meets the condition at every
    step or ends in a state marked by the first step that broke it.  A run on
    a fixed input, with its side condition, can be checked by computation.
    The last section is about machines whose calls return an output.
-/

namespace Lts

variable {σ α : Type*} {R : σ → α → σ → Prop}

/-! ## Runs -/

/-- `Steps R s as s'`: the labels `as`, taken in order, lead from `s` to `s'`. -/
inductive Steps (R : σ → α → σ → Prop) : σ → List α → σ → Prop where
  | nil  : ∀ s, Steps R s [] s
  | cons : ∀ {s s' s'' : σ} (a : α) (as : List α),
             R s a s' → Steps R s' as s'' → Steps R s (a :: as) s''

theorem Steps.single {s s' : σ} {a : α} (h : R s a s') : Steps R s [a] s' :=
  Steps.cons a [] h (Steps.nil s')

/-- **Invariant rule.** What every step preserves, every run preserves. -/
theorem Steps.invariant {I : σ → Prop} {s s' : σ} {as : List α}
    (h : Steps R s as s') (hstep : ∀ s a s', R s a s' → I s → I s') (h₀ : I s) : I s' := by
  induction h with
  | nil _ => exact h₀
  | cons a as hR _ ih => exact ih (hstep _ _ _ hR h₀)

/-- **Counting rule.** If no step raises `m` and each one with its label in `p` lowers it,
    then a run has no more of these than `m` has gone down. -/
theorem Steps.countP_add_le {I : σ → Prop} {m : σ → Nat} {p : α → Bool} {s s' : σ} {as : List α}
    (h : Steps R s as s') (hI : ∀ s a s', R s a s' → I s → I s')
    (hm : ∀ s a s', R s a s' → I s → m s' + (if p a then 1 else 0) ≤ m s) (h₀ : I s) :
    as.countP p + m s' ≤ m s := by
  induction h with
  | nil _ => simp
  | cons a as hR _ ih =>
    have hrest := ih (hI _ _ _ hR h₀)
    have hstep := hm _ _ _ hR h₀
    rw [List.countP_cons]
    omega

/-- The invariant rule for steps with the labels of the run. -/
theorem Steps.invariant_of_mem {I : σ → Prop} {s s' : σ} {as : List α}
    (h : Steps R s as s') (hstep : ∀ s a s', a ∈ as → R s a s' → I s → I s') (h₀ : I s) : I s' := by
  induction h with
  | nil _ => exact h₀
  | cons a as hR _ ih =>
    exact ih (fun s b s' hb => hstep s b s' (List.mem_cons_of_mem a hb))
      (hstep _ _ _ List.mem_cons_self hR h₀)

/-- The invariant rule for properties of a state and of the labels that led to it. -/
theorem Steps.invariant_labels {I : List α → σ → Prop} {s s' : σ} {as : List α}
    (h : Steps R s as s') (hstep : ∀ as s a s', R s a s' → I as s → I (as ++ [a]) s')
    (h₀ : I [] s) : I as s' := by
  -- the labels before those of the run
  have hall : ∀ before, I before s → I (before ++ as) s' := by
    clear h₀
    induction h with
    | nil _ =>
      intro before hI
      rwa [List.append_nil]
    | cons a as hR _ ih =>
      intro before hI
      have hrest := ih _ (hstep before _ a _ hR hI)
      rwa [List.append_assoc] at hrest
  exact hall [] h₀

/-- Execute a list of labels; `none` if one of them is not enabled. -/
def exec (f : σ → α → Option σ) (s : σ) : List α → Option σ
  | [] => some s
  | a :: as => (f s a).bind fun s' => exec f s' as

theorem exec_append (f : σ → α → Option σ) (s : σ) (as bs : List α) :
    exec f s (as ++ bs) = (exec f s as).bind fun s' => exec f s' bs := by
  induction as generalizing s with
  | nil => rfl
  | cons a as ih =>
    simp only [List.cons_append, exec, ih, Option.bind_assoc]

theorem steps_of_exec {f : σ → α → Option σ} (hf : ∀ s a s', f s a = some s' → R s a s')
    {s s' : σ} {as : List α} (h : exec f s as = some s') : Steps R s as s' := by
  induction as generalizing s with
  | nil =>
    cases h
    exact Steps.nil _
  | cons a as ih =>
    obtain ⟨s₁, hs₁, hrest⟩ := Option.bind_eq_some_iff.mp h
    exact Steps.cons a as (hf s a s₁ hs₁) (ih hrest)

/-- The labels are allowed one after the other, in a system that `next` moves. -/
def Allowed (ok : σ → α → Prop) (next : σ → α → σ) (s : σ) : List α → Prop
  | [] => True
  | a :: as => ok s a ∧ Allowed ok next (next s a) as

instance decidableAllowed (ok : σ → α → Prop) [∀ s a, Decidable (ok s a)] (next : σ → α → σ) (s : σ) :
    (as : List α) → Decidable (Allowed ok next s as)
  | [] => isTrue trivial
  | a :: as =>
    haveI := decidableAllowed ok next (next s a) as
    inferInstanceAs (Decidable (ok s a ∧ Allowed ok next (next s a) as))

theorem steps_of_allowed {ok : σ → α → Prop} {next : σ → α → σ}
    (hR : ∀ s a, ok s a → R s a (next s a)) {s : σ} {as : List α} (h : Allowed ok next s as) :
    Steps R s as (as.foldl next s) := by
  induction as generalizing s with
  | nil => exact Steps.nil s
  | cons a as ih => exact Steps.cons a as (hR s a h.1) (ih h.2)

theorem Steps.append {s s' s'' : σ} {as bs : List α} (h : Steps R s as s')
    (h' : Steps R s' bs s'') : Steps R s (as ++ bs) s'' := by
  induction h with
  | nil _ => exact h'
  | cons a as hR _ ih => exact Steps.cons a (as ++ bs) hR (ih h')

/-- **Simulation.** If every step is answered by a run of another system that keeps
    the two related, then so is every run. -/
theorem Steps.simulate {τ β : Type*} {Q : τ → β → τ → Prop} {r : σ → τ → Prop} {s s' : σ} {t : τ}
    {as : List α} (h : Steps R s as s')
    (hstep : ∀ s a s' t, R s a s' → r s t → ∃ bs t', Steps Q t bs t' ∧ r s' t') (h₀ : r s t) :
    ∃ bs t', Steps Q t bs t' ∧ r s' t' := by
  induction h generalizing t with
  | nil s => exact ⟨[], t, Steps.nil t, h₀⟩
  | cons a as hR _ ih =>
    obtain ⟨bs, t₁, hbs, h₁⟩ := hstep _ _ _ _ hR h₀
    obtain ⟨cs, t₂, hcs, h₂⟩ := ih h₁
    exact ⟨bs ++ cs, t₂, hbs.append hcs, h₂⟩

/-! ## Parts of a system -/

/-- A part of a system takes part in a step, or stays as it is. -/
def Moves {τ β : Type*} (Q : τ → β → τ → Prop) (t : τ) : Option β → τ → Prop
  | none, t' => t' = t
  | some b, t' => Q t b t'

/-- **Projection.** The part `f` of a system has a run of its own behind every run of the
    system. -/
theorem Steps.project {τ β : Type*} {Q : τ → β → τ → Prop} {f : σ → τ} {s s' : σ} {as : List α}
    (h : Steps R s as s') (hstep : ∀ s a s', R s a s' → ∃ b, Moves Q (f s) b (f s')) :
    ∃ bs, Steps Q (f s) bs (f s') := by
  induction h with
  | nil s => exact ⟨[], Steps.nil _⟩
  | @cons s₁ s₂ s₃ a as hR _ ih =>
    obtain ⟨bs, hbs⟩ := ih
    obtain ⟨b, hb⟩ := hstep _ _ _ hR
    cases b with
    | none =>
      have hsame : f s₂ = f s₁ := hb
      rw [hsame] at hbs
      exact ⟨bs, hbs⟩
    | some b => exact ⟨b :: bs, Steps.cons b bs hb hbs⟩

/-- The labels of the part are those that it has in the steps of the system. -/
theorem Steps.project_labels {τ β : Type*} {Q : τ → β → τ → Prop} {f : σ → τ} {g : α → Option β}
    {s s' : σ} {as : List α} (h : Steps R s as s')
    (hstep : ∀ s a s', R s a s' → Moves Q (f s) (g a) (f s')) :
    Steps Q (f s) (as.filterMap g) (f s') := by
  induction h with
  | nil s => exact Steps.nil _
  | @cons s₁ s₂ s₃ a as hR _ ih =>
    have hmove := hstep _ _ _ hR
    cases hb : g a with
    | none =>
      rw [hb] at hmove
      have hsame : f s₂ = f s₁ := hmove
      rw [List.filterMap_cons_none hb, ← hsame]
      exact ih
    | some b =>
      rw [hb] at hmove
      rw [List.filterMap_cons_some hb]
      exact Steps.cons b _ hmove ih

/-! ## Runs that meet a side condition at every step -/

/-- The steps of `R` taken from a state where the label meets `C`. -/
def Guarded (R : σ → α → σ → Prop) (C : σ → α → Prop) (s : σ) (a : α) (s' : σ) : Prop :=
  R s a s' ∧ C s a

theorem Moves.guarded {τ β : Type*} {Q : τ → β → τ → Prop} {C : τ → β → Prop} {t t' : τ} {b : Option β}
    (h : Moves Q t b t') (hC : ∀ a, b = some a → C t a) : Moves (Guarded Q C) t b t' := by
  cases b with
  | none => exact h
  | some a => exact ⟨h, hC a rfl⟩

theorem Steps.of_guarded {C : σ → α → Prop} {s s' : σ} {as : List α}
    (h : Steps (Guarded R C) s as s') : Steps R s as s' := by
  induction h with
  | nil s => exact Steps.nil s
  | cons a as hR _ ih => exact Steps.cons a as hR.1 ih

/-- An execution whose labels meet the side condition, which a computation may check. -/
theorem guarded_of_exec {C : σ → α → Prop} [∀ s a, Decidable (C s a)] {f : σ → α → Option σ}
    (hf : ∀ s a s', f s a = some s' → R s a s') {s s' : σ} {as : List α}
    (h : exec f s as = some s')
    (hC : (exec (fun s a => if C s a then f s a else none) s as).isSome) :
    Steps (Guarded R C) s as s' := by
  induction as generalizing s with
  | nil =>
    cases h
    exact Steps.nil _
  | cons a as ih =>
    obtain ⟨s₁, hs₁, hrest⟩ := Option.bind_eq_some_iff.mp h
    by_cases hCa : C s a
    · refine Steps.cons a as ⟨hf s a s₁ hs₁, hCa⟩ (ih hrest ?_)
      simpa only [exec, if_pos hCa, hs₁, Option.bind_some] using hC
    · simp [exec, hCa] at hC

/-- A weaker side condition. -/
theorem Steps.guarded_mono {C D : σ → α → Prop} {s s' : σ} {as : List α}
    (h : Steps (Guarded R C) s as s') (hCD : ∀ s a, C s a → D s a) : Steps (Guarded R D) s as s' := by
  induction h with
  | nil s => exact Steps.nil s
  | cons a as hR _ ih => exact Steps.cons a as ⟨hR.1, hCD _ a hR.2⟩ ih

/-- A run of labels that meet the side condition in every state. -/
theorem Steps.guarded_of_forall {C : σ → α → Prop} {s s' : σ} {as : List α}
    (h : Steps R s as s') (hC : ∀ a ∈ as, ∀ s, C s a) : Steps (Guarded R C) s as s' := by
  induction h with
  | nil s => exact Steps.nil s
  | cons a as hR _ ih =>
    exact Steps.cons a as ⟨hR, hC a List.mem_cons_self _⟩
      (ih fun b hb => hC b (List.mem_cons_of_mem a hb))

/-- A run whose invariant gives the side condition. -/
theorem Steps.guarded_of_invariant {C : σ → α → Prop} {I : σ → Prop} {s s' : σ} {as : List α}
    (h : Steps R s as s') (h₀ : I s) (hstep : ∀ s a s', R s a s' → I s → C s a ∧ I s') :
    Steps (Guarded R C) s as s' := by
  induction h with
  | nil s => exact Steps.nil s
  | cons a as hR _ ih =>
    obtain ⟨hC, hI⟩ := hstep _ _ _ hR h₀
    exact Steps.cons a as ⟨hR, hC⟩ (ih hI)

/-- Two side conditions that agree along an invariant of the run. -/
theorem guarded_iff {C D : σ → α → Prop} {I : σ → Prop} {s s' : σ} {as : List α} (h₀ : I s)
    (hstep : ∀ s a s', R s a s' → C s a → I s → I s')
    (hCD : ∀ s a s', R s a s' → I s → (C s a ↔ D s a)) :
    Steps (Guarded R C) s as s' ↔ Steps (Guarded R D) s as s' := by
  constructor
  · intro h
    induction h with
    | nil s => exact Steps.nil s
    | cons a as hR _ ih =>
      exact Steps.cons a as ⟨hR.1, (hCD _ _ _ hR.1 h₀).mp hR.2⟩ (ih (hstep _ _ _ hR.1 hR.2 h₀))
  · intro h
    induction h with
    | nil s => exact Steps.nil s
    | cons a as hR _ ih =>
      have hC := (hCD _ _ _ hR.1 h₀).mpr hR.2
      exact Steps.cons a as ⟨hR.1, hC⟩ (ih (hstep _ _ _ hR.1 hC h₀))

/-- A run meets the side condition at every step, or its last state is
    marked: the first step that breaks the condition sets the mark `B`
    and no later step clears it. -/
theorem Steps.guarded_or {C : σ → α → Prop} {I B : σ → Prop} {s s' : σ} {as : List α}
    (h : Steps R s as s') (h₀ : I s)
    (hI : ∀ s a s', R s a s' → I s → I s')
    (hB : ∀ s a s', R s a s' → I s → B s → B s')
    (hbreak : ∀ s a s', R s a s' → I s → ¬ C s a → B s') :
    Steps (Guarded R C) s as s' ∨ B s' := by
  induction h with
  | nil s => exact Or.inl (Steps.nil s)
  | @cons s₁ s₂ s₃ a as hR hrest ih =>
    have hI₂ : I s₂ := hI _ _ _ hR h₀
    by_cases hC : C s₁ a
    · rcases ih hI₂ with hg | hb
      · exact Or.inl (Steps.cons a as ⟨hR, hC⟩ hg)
      · exact Or.inr hb
    · have hb₂ : B s₂ := hbreak _ _ _ hR h₀ hC
      -- the mark is set here and stays to the end of the run
      have hpair : I s₃ ∧ B s₃ :=
        hrest.invariant (I := fun s => I s ∧ B s)
          (fun s a s' hR h => ⟨hI s a s' hR h.1, hB s a s' hR h.1 h.2⟩) ⟨hI₂, hb₂⟩
      exact Or.inr hpair.2

/-! ## Runs that keep a property of their states -/

/-- The steps of `R` that end in a state with `F`. -/
def Ensuring (R : σ → α → σ → Prop) (F : σ → Prop) (s : σ) (a : α) (s' : σ) : Prop :=
  R s a s' ∧ F s'

/-- If a step from a state with `F` keeps `F` exactly when its label meets `C`,
    then a run has `F` in all its states exactly when it meets `C` at all its steps.
    The invariant `I` has to hold only as long as `F` does. -/
theorem ensuring_iff_guarded {C : σ → α → Prop} {I F : σ → Prop} {s s' : σ} {as : List α}
    (hI₀ : I s) (hF₀ : F s)
    (hI : ∀ s a s', R s a s' → I s → F s → F s' → I s')
    (hF : ∀ s a s', R s a s' → I s → F s → (F s' ↔ C s a)) :
    Steps (Ensuring R F) s as s' ↔ Steps (Guarded R C) s as s' := by
  constructor
  · intro hE
    induction hE with
    | nil s => exact Steps.nil s
    | cons a as hR _ ih =>
      exact Steps.cons a as ⟨hR.1, (hF _ _ _ hR.1 hI₀ hF₀).mp hR.2⟩
        (ih (hI _ _ _ hR.1 hI₀ hF₀ hR.2) hR.2)
  · intro hG
    induction hG with
    | nil s => exact Steps.nil s
    | cons a as hR _ ih =>
      have hF' := (hF _ _ _ hR.1 hI₀ hF₀).mpr hR.2
      exact Steps.cons a as ⟨hR.1, hF'⟩ (ih (hI _ _ _ hR.1 hI₀ hF₀ hF') hF')

/-! ## Machines with outputs

    A call `f s a` either does not return (`none`) or returns an output and
    the next state. -/

section outputs
variable {τ ω : Type*}

/-- The outputs of the calls `as` and the state after them; `none` if one of
    them does not return. -/
def outputs (f : σ → α → Option (ω × σ)) (s : σ) : List α → Option (List ω × σ)
  | [] => some ([], s)
  | a :: as => (f s a).bind fun r => (outputs f r.2 as).map fun rest => (r.1 :: rest.1, rest.2)

theorem outputs_cons {f : σ → α → Option (ω × σ)} {s s₁ s' : σ} {a : α} {as : List α}
    {o : ω} {os : List ω} (h : f s a = some (o, s₁)) (hrest : outputs f s₁ as = some (os, s')) :
    outputs f s (a :: as) = some (o :: os, s') := by
  simp only [outputs, h, Option.bind_some, hrest, Option.map_some]

/-- **Simulation rule.** If related states return the same output to every call
    with `P` and stay related, then every list of such calls returns, with the
    same outputs on both sides. -/
theorem outputs_of_simulation {f : σ → α → Option (ω × σ)} {g : τ → α → Option (ω × τ)}
    {P : α → Prop} {r : σ → τ → Prop}
    (hsim : ∀ s t a, P a → r s t →
      ∃ o s' t', f s a = some (o, s') ∧ g t a = some (o, t') ∧ r s' t')
    {s : σ} {t : τ} (h₀ : r s t) {as : List α} (hP : ∀ a ∈ as, P a) :
    ∃ os s' t', outputs f s as = some (os, s') ∧ outputs g t as = some (os, t') ∧ r s' t' := by
  induction as generalizing s t with
  | nil => exact ⟨[], s, t, rfl, rfl, h₀⟩
  | cons a as ih =>
    obtain ⟨o, s₁, t₁, hf, hg, h₁⟩ := hsim s t a (hP a List.mem_cons_self) h₀
    obtain ⟨os, s', t', hfs, hgs, h'⟩ := ih h₁ fun b hb => hP b (List.mem_cons_of_mem a hb)
    exact ⟨o :: os, s', t', outputs_cons hf hfs, outputs_cons hg hgs, h'⟩

end outputs

end Lts
