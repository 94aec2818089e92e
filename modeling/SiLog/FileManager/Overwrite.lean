import SiLog.FileManager.Spec

/-! # Rotations and existing history files

    `SilogFileManagerRotateInternal` looks for a name that is not taken yet but
    gives up after ten: if all ten are taken it goes on with the last one, and
    `rename` replaces that file.  This file has the exact condition under which
    no rotation of a run overwrites a file.
-/

open Files Lts

namespace SiLog.FileManager

/-! ## Section 1: One call -/

/-- The rename step of the call, if it has one, does not go onto an existing file, and
    right after it all files but the current one are as they were. -/
def NoOverwrite (s : System) (c : Call) : Prop :=
  ∀ r, (s.call c).renamed = some r →
    (∀ target, r.target = some target → s.fs target = none) ∧
    ∀ path, path ≠ s.currentPath → s.fs path ≠ none → r.fs path = s.fs path

/-- If the call comes to a rotation, one of the ten names is free, or the rename cannot
    succeed: no attempt does, or there is nothing to rename. -/
def NameFree (s : System) (c : Call) : Prop :=
  ∀ env, s.rotation c = some env →
    (∃ seq, seq < 10 ∧ s.fs (historyPath s.fm.config env.timestamp seq) = none) ∨
    (∀ i, i < s.fm.config.rotateRetryCount.toNat → env.renames i = false) ∨
    (s.fm.currentFd = none ∧ s.fs s.currentPath = none)

/-- When the rename step of a rotation succeeds. -/
theorem renameCurrent_isSome_iff {s : System} (hwf : s.Wf) (env : RotateEnv) :
    (s.renameCurrent env).isSome ↔
      ¬ (∀ i, i < s.fm.config.rotateRetryCount.toNat → env.renames i = false) ∧
      ¬ (s.fm.currentFd = none ∧ s.fs s.currentPath = none) := by
  unfold System.renameCurrent
  rw [renameLoop_isSome_iff, System.closeCurrent_current_isSome hwf, and_comm]
  refine and_congr ?_ ?_
  · simp
  · rw [not_and_or, Option.isSome_iff_ne_none, Option.isSome_iff_ne_none]

/-- A successful rename takes nothing but the target and the current file. -/
theorem renameCurrent_other {s : System} (hwf : s.Wf) {env : RotateEnv} {fs : Fs Str UInt8}
    (h : s.renameCurrent env = some fs) {path : Str} (hcur : path ≠ s.currentPath)
    (htarget : path ≠ s.historyTarget env.timestamp) : fs path = s.fs path := by
  rw [Fs.rename_other (rename_of_renameLoop h) hcur htarget]
  exact System.closeCurrent_other hwf hcur

theorem noOverwrite_iff {s : System} (hwf : s.Wf) (c : Call) : NoOverwrite s c ↔ NameFree s c := by
  unfold NoOverwrite NameFree
  rw [call_renamed]
  cases s.rotation c with
  | none =>
    constructor
    · intro _ env henv
      cases henv
    · intro _ r hr
      cases hr
  | some env =>
    rw [Option.bind_some, rotateInternal_renamed]
    have hsome := renameCurrent_isSome_iff hwf env
    have hfree := s.historyTarget_free_iff env.timestamp
    cases hren : s.renameCurrent env with
    | none =>
      -- nothing was renamed: both sides hold
      rw [hren] at hsome
      -- `hsome` says why: no attempt could succeed or there was no file
      have hblocked := not_and_or.mp fun h => absurd (hsome.mpr h) Bool.false_ne_true
      rw [not_not, not_not] at hblocked
      constructor
      · intro _ env' henv
        obtain rfl : env = env' := Option.some.inj henv
        exact Or.inr hblocked
      · intro _ r hr
        obtain rfl : ⟨none, s.closeCurrent.fs⟩ = r := Option.some.inj hr
        exact ⟨fun target h => (by cases h), fun path hcur _ => System.closeCurrent_other hwf hcur⟩
    | some fs₂ =>
      rw [hren] at hsome
      obtain ⟨hattempt, hfile⟩ := hsome.mp rfl
      constructor
      · intro h env' henv
        obtain rfl : env = env' := Option.some.inj henv
        exact Or.inl (hfree.mp ((h _ rfl).1 _ rfl))
      · intro h r hr
        obtain rfl : ⟨some (s.historyTarget env.timestamp), fs₂⟩ = r := Option.some.inj hr
        -- the rename has succeeded, so only the first way to be `NameFree` is left
        have hnone : s.fs (s.historyTarget env.timestamp) = none := by
          rcases h env rfl with hseq | hall | hnofile
          · exact hfree.mpr hseq
          · exact absurd hall hattempt
          · exact absurd hnofile hfile
        refine ⟨fun target ht => by cases ht; exact hnone, fun path hcur hex => ?_⟩
        refine renameCurrent_other hwf hren hcur ?_
        -- a file that exists is not the target, which is free
        rintro rfl
        exact hex hnone

/-! ## Section 2: Runs -/

/-- **History is kept.** In a run from any directory, no rotation overwrites a file exactly
    if each of them finds a free name or cannot rename. -/
theorem noOverwrite_iff_nameFree {fs₀ : Fs Str UInt8} {calls : List Call} {s : System} :
    Steps (Guarded Step NoOverwrite) (System.initial fs₀) calls s ↔
      Steps (Guarded Step NameFree) (System.initial fs₀) calls s := by
  refine guarded_iff (System.initial_wf fs₀) ?_ fun s c _ _ hwf => noOverwrite_iff hwf c
  rintro s c s' rfl _ hwf
  exact hwf.call c

/-! ### The eleventh rotation within a millisecond -/

/-- Ten rotations have taken place at `newYear`; each history file has one byte. -/
def tenRotated : Fs Str UInt8 := fun path =>
  if path ∈ (List.range 10).map (historyPath plainConfig newYear) then some [1] else none

def tenRotatedInit : System :=
  ((System.initial tenRotated).call (.init (some plainConfig) smoothInit)).sys

/-- The next rotation replaces the file that the tenth has made by an empty one. -/
theorem eleventh_rotation_overwrites :
    Steps Step (System.initial tenRotated) [.init (some plainConfig) smoothInit] tenRotatedInit ∧
    ¬ NoOverwrite tenRotatedInit (.rotate smoothRotate) ∧
    tenRotated (historyPath plainConfig newYear 9) = some [1] ∧
    (tenRotatedInit.call (.rotate smoothRotate)).sys.fs (historyPath plainConfig newYear 9) =
      some [] := by
  have htarget : (tenRotatedInit.call (.rotate smoothRotate)).renamed.bind Renaming.target =
      some (historyPath plainConfig newYear 9) := by
    decide +kernel
  have htaken : tenRotatedInit.fs (historyPath plainConfig newYear 9) = some [1] := by
    decide +kernel
  refine ⟨Steps.single rfl, ?_, by decide +kernel, by decide +kernel⟩
  intro h
  obtain ⟨r, hr, ht⟩ := Option.bind_eq_some_iff.mp htarget
  -- the target of the rename is the tenth name, which is taken
  rw [(h r hr).1 _ ht] at htaken
  cases htaken

end SiLog.FileManager
