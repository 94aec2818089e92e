import SiLog.Lib.Files
import Mathlib.Data.List.Induction
import Mathlib.Data.List.Pairwise

/-! # Archives of files that move and go away

    The parts of a log are archived one after the other, each in a new file.
    Later on a file may be packed, which moves its bytes to another path, and
    files may be deleted.

    The events that happened to the files tell for every part in which file it
    is, or that the file it was in was deleted.  What was not deleted is in a
    file of its own with all its bytes, also when the path of a part that was
    packed is used for a later part.
-/

open Files

namespace Archive

variable {P B : Type*}

/-! ## Section 1: Events -/

/-- What happens to the files. -/
inductive Event (P B : Type*) where
  /-- A part is archived in a new file. -/
  | added (name : P) (bytes : List B)
  /-- A file is packed: what was in `source` is in `target`. -/
  | moved (source target : P)
  | deleted (path : P)
  deriving DecidableEq

/-- The paths that an event is about. -/
def Event.paths : Event P B → List P
  | .added name _ => [name]
  | .moved source target => [source, target]
  | .deleted path => [path]

section replay
variable [DecidableEq P] {fs fs' : Fs P B} {e : Event P B} {path : P}

/-- The files after an event. -/
def Event.files (fs : Fs P B) : Event P B → Fs P B
  | .added name bytes => Function.update fs name (some bytes)
  | .moved source target => Function.update (Function.update fs target (fs source)) source none
  | .deleted path => fs.unlink path

/-- The files after the events, one after the other. -/
def replay (fs : Fs P B) (events : List (Event P B)) : Fs P B := events.foldl Event.files fs

@[simp] theorem replay_nil (fs : Fs P B) : replay fs [] = fs := rfl

theorem replay_append (fs : Fs P B) (events events' : List (Event P B)) :
    replay fs (events ++ events') = replay (replay fs events) events' :=
  List.foldl_append

theorem Event.files_other (h : path ∉ e.paths) : e.files fs path = fs path := by
  cases e with
  | added name bytes => exact Function.update_of_ne (List.ne_of_not_mem_cons h) _ _
  | moved source target =>
    have htarget : path ≠ target := fun heq => h (heq ▸ List.mem_cons_of_mem _ List.mem_cons_self)
    exact (Function.update_of_ne (List.ne_of_not_mem_cons h) _ _).trans
      (Function.update_of_ne htarget _ _)
  | deleted gone => exact Function.update_of_ne (List.ne_of_not_mem_cons h) _ _

/-- A path that no event is about keeps its file. -/
theorem replay_other {events : List (Event P B)} (h : ∀ e ∈ events, path ∉ e.paths) :
    replay fs events path = fs path := by
  induction events generalizing fs with
  | nil => rfl
  | cons e events ih =>
    show replay (e.files fs) events path = fs path
    rw [ih fun e he => h e (List.mem_cons_of_mem _ he)]
    exact Event.files_other (h e List.mem_cons_self)

/-- An event does the same to what it is about in files that agree there. -/
theorem Event.files_congr (hpaths : ∀ p ∈ e.paths, fs' p = fs p) (hpath : fs' path = fs path) :
    e.files fs' path = e.files fs path := by
  cases e with
  | added name bytes => simp only [Event.files, Function.update_apply, hpath]
  | moved source target =>
    simp only [Event.files, Function.update_apply, hpath, hpaths source List.mem_cons_self]
  | deleted gone => simp only [Event.files, Fs.unlink, Function.update_apply, hpath]

/-- Packing is such a move, if there is a file and nothing is in its way. -/
theorem pack_moves {source target : P} (hsome : (fs source).isSome) (hfree : fs target = none) :
    fs.pack source target = (Event.moved source target).files fs := by
  obtain ⟨bytes, hbytes⟩ := Option.isSome_iff_exists.mp hsome
  show fs.pack source target = Function.update (Function.update fs target (fs source)) source none
  unfold Fs.pack
  rw [hbytes, hfree]

theorem pack_refused {source target : P} (h : ¬ ((fs source).isSome ∧ fs target = none)) :
    fs.pack source target = fs := by
  unfold Fs.pack
  split
  next hbytes hfree => exact absurd ⟨by rw [hbytes]; rfl, hfree⟩ h
  next => rfl

end replay

/-! ## Section 2: Parts -/

/-- What was archived under `name`, and the file in which it is now. -/
structure Part (P B : Type*) where
  name  : P
  bytes : List B
  file  : Option P

/-- All bytes that were archived, in order. -/
def text (parts : List (Part P B)) : List B := (parts.map Part.bytes).flatten

@[simp] theorem text_nil : text ([] : List (Part P B)) = [] := rfl

@[simp] theorem text_append (parts parts' : List (Part P B)) :
    text (parts ++ parts') = text parts ++ text parts' := by
  simp [text]

@[simp] theorem text_singleton (p : Part P B) : text [p] = p.bytes := by
  simp [text]

/-- Parts that only change their files keep their text. -/
theorem text_map {g : Part P B → Part P B} (hg : ∀ p, (g p).bytes = p.bytes) (parts : List (Part P B)) :
    text (parts.map g) = text parts := by
  unfold text
  rw [List.map_map]
  exact congrArg List.flatten (List.map_congr_left fun p _ => hg p)

variable [DecidableEq P]

/-- The part after what was in the file `source` is in `target`. -/
def Part.move (source target : P) (p : Part P B) : Part P B :=
  { p with file := p.file.map fun f => if f = source then target else f }

/-- The part after the file `path` was deleted. -/
def Part.delete (path : P) (p : Part P B) : Part P B :=
  { p with file := p.file.filter fun f => f ≠ path }

theorem Part.move_file {a b f : P} {p : Part P B} (h : (p.move a b).file = some f) :
    (p.file = some a ∧ f = b) ∨ (p.file = some f ∧ f ≠ a) := by
  obtain ⟨g, hg, heq⟩ := Option.map_eq_some_iff.mp h
  split at heq
  next hga => exact Or.inl ⟨hga ▸ hg, heq.symm⟩
  next hga => exact Or.inr ⟨heq ▸ hg, fun hfa => hga (heq.trans hfa)⟩

theorem Part.delete_file {path f : P} {p : Part P B} (h : (p.delete path).file = some f) :
    p.file = some f ∧ f ≠ path := by
  obtain ⟨hf, hne⟩ := Option.filter_eq_some_iff.mp h
  exact ⟨hf, of_decide_eq_true hne⟩

/-- What is gone afterwards was gone before, or it was in the file. -/
theorem Part.delete_gone {path : P} {p : Part P B} (h : (p.delete path).file = none) :
    p.file = none ∨ p.file = some path := by
  cases hf : p.file with
  | none => exact Or.inl rfl
  | some f =>
    right
    by_contra hne
    have hkept : (p.delete path).file = some f :=
      Option.filter_eq_some_iff.mpr ⟨hf, decide_eq_true fun heq => hne (heq ▸ rfl)⟩
    rw [h] at hkept
    cases hkept

/-- The parts after an event. -/
def Event.parts (parts : List (Part P B)) : Event P B → List (Part P B)
  | .added name bytes => parts ++ [{ name := name, bytes := bytes, file := some name }]
  | .moved source target => parts.map (Part.move source target)
  | .deleted path => parts.map (Part.delete path)

/-- The parts that the events have archived, and where they are now. -/
def track (events : List (Event P B)) : List (Part P B) := events.foldl Event.parts []

@[simp] theorem track_nil : track ([] : List (Event P B)) = [] := rfl

theorem track_concat (events : List (Event P B)) (e : Event P B) :
    track (events ++ [e]) = e.parts (track events) := by
  unfold track
  rw [List.foldl_append]
  rfl

/-- A part without a file: the file in which it was has been deleted. -/
def Deleted (events : List (Event P B)) (i : ℕ) : Prop :=
  ∃ before path after p, events = before ++ .deleted path :: after ∧
    (track before)[i]? = some p ∧ p.file = some path

theorem Deleted.concat {events : List (Event P B)} {i : ℕ} (h : Deleted events i) (e : Event P B) :
    Deleted (events ++ [e]) i := by
  obtain ⟨before, path, after, p, rfl, hp, hf⟩ := h
  exact ⟨before, path, after ++ [e], p, by rw [List.append_assoc, List.cons_append], hp, hf⟩

/-- A part is gone only if the file was deleted in which it was at that time. -/
theorem deleted_of_gone {events : List (Event P B)} {i : ℕ} {p : Part P B}
    (hp : (track events)[i]? = some p) (hgone : p.file = none) : Deleted events i := by
  induction events using List.reverseRecOn generalizing p with
  | nil => cases hp
  | append_singleton events e ih =>
    rw [track_concat] at hp
    cases e with
    | added name bytes =>
      by_cases hi : i < (track events).length
      · rw [Event.parts, List.getElem?_append_left hi] at hp
        exact (ih hp hgone).concat _
      · -- the new part has a file
        rw [Event.parts, List.getElem?_append_right (Nat.le_of_not_lt hi), List.getElem?_singleton] at hp
        split at hp
        · cases hp
          cases hgone
        · cases hp
    | moved source target =>
      rw [Event.parts, List.getElem?_map] at hp
      obtain ⟨q, hq, rfl⟩ := Option.map_eq_some_iff.mp hp
      exact (ih hq (Option.map_eq_none_iff.mp hgone)).concat _
    | deleted path =>
      rw [Event.parts, List.getElem?_map] at hp
      obtain ⟨q, hq, rfl⟩ := Option.map_eq_some_iff.mp hp
      obtain hnone | hfile := Part.delete_gone hgone
      · exact (ih hq hnone).concat _
      · exact ⟨events, path, [], q, rfl, hq, hfile⟩

/-! ## Section 3: Where the parts are -/

/-- The parts that are not gone are in files of their own. -/
structure Keeps (fs : Fs P B) (parts : List (Part P B)) : Prop where
  holds    : ∀ p ∈ parts, ∀ f, p.file = some f → fs f = some p.bytes
  distinct : parts.Pairwise fun p q => ∀ f, p.file = some f → q.file ≠ some f

/-- The file that an event makes is a new one. -/
def Event.Fresh (fs : Fs P B) : Event P B → Prop
  | .added name _ => fs name = none
  | .moved source target => fs target = none ∧ target ≠ source
  | .deleted _ => True

section keeps
variable {fs fs' : Fs P B} {parts : List (Part P B)} {e : Event P B}

omit [DecidableEq P] in
theorem keeps_nil (fs : Fs P B) : Keeps fs [] :=
  ⟨fun _ h => absurd h List.not_mem_nil, .nil⟩

omit [DecidableEq P] in
/-- What happens to other files does not matter. -/
theorem Keeps.congr (hK : Keeps fs parts) (h : ∀ p ∈ parts, ∀ f, p.file = some f → fs' f = fs f) :
    Keeps fs' parts := by
  refine ⟨?_, hK.distinct⟩
  intro p hp f hf
  rw [h p hp f hf]
  exact hK.holds p hp f hf

omit [DecidableEq P] in
/-- A path without a file holds no part. -/
theorem Keeps.not_held (hK : Keeps fs parts) {path : P} (hfree : fs path = none) :
    ∀ p ∈ parts, p.file ≠ some path := by
  intro p hp hf
  have hbytes := hK.holds p hp path hf
  rw [hfree] at hbytes
  cases hbytes

theorem Keeps.added (hK : Keeps fs parts) {name : P} (bytes : List B) (hfree : fs name = none) :
    Keeps ((Event.added name bytes).files fs) ((Event.added name bytes).parts parts) := by
  have hnot := hK.not_held hfree
  refine ⟨?_, ?_⟩
  · intro p hp f hf
    obtain hp | hp := List.mem_append.mp hp
    · have hne : f ≠ name := fun heq => hnot p hp (heq ▸ hf)
      exact (Function.update_of_ne hne _ _).trans (hK.holds p hp f hf)
    · rw [List.mem_singleton.mp hp] at hf ⊢
      obtain rfl := Option.some.inj hf
      exact Function.update_self _ _ _
  · refine List.pairwise_append.mpr ⟨hK.distinct, List.pairwise_singleton _ _, ?_⟩
    intro p hp q hq f hf hf'
    rw [List.mem_singleton.mp hq] at hf'
    exact hnot p hp (hf.trans hf'.symm)

theorem Keeps.moved (hK : Keeps fs parts) {source target : P} (hfree : fs target = none)
    (hne : target ≠ source) :
    Keeps ((Event.moved source target).files fs) ((Event.moved source target).parts parts) := by
  have hnot := hK.not_held hfree
  refine ⟨?_, ?_⟩
  · intro p hp f hf
    obtain ⟨q, hq, rfl⟩ := List.mem_map.mp hp
    obtain ⟨hfile, rfl⟩ | ⟨hfile, hfa⟩ := Part.move_file hf
    · -- the part was in the file that was packed
      show Function.update (Function.update fs f (fs source)) source none f = some q.bytes
      rw [Function.update_of_ne hne, Function.update_self]
      exact hK.holds q hq source hfile
    · have hfb : f ≠ target := fun heq => hnot q hq (heq ▸ hfile)
      show Function.update (Function.update fs target (fs source)) source none f = some q.bytes
      rw [Function.update_of_ne hfa, Function.update_of_ne hfb]
      exact hK.holds q hq f hfile
  · show (parts.map (Part.move source target)).Pairwise _
    rw [List.pairwise_map]
    refine hK.distinct.imp_of_mem ?_
    intro p q hp hq hdistinct f hf hf'
    obtain ⟨hfile, rfl⟩ | ⟨hfile, hfa⟩ := Part.move_file hf
    · obtain ⟨hfile', _⟩ | ⟨hfile', _⟩ := Part.move_file hf'
      · exact hdistinct source hfile hfile'
      · exact hnot q hq hfile'
    · obtain ⟨_, rfl⟩ | ⟨hfile', _⟩ := Part.move_file hf'
      · exact hnot p hp hfile
      · exact hdistinct f hfile hfile'

/-- Deleting a file takes away the part that is in it and no other. -/
theorem Keeps.deleted (hK : Keeps fs parts) (path : P) :
    Keeps ((Event.deleted path).files fs) ((Event.deleted path).parts parts) := by
  refine ⟨?_, ?_⟩
  · intro p hp f hf
    obtain ⟨q, hq, rfl⟩ := List.mem_map.mp hp
    obtain ⟨hfile, hne⟩ := Part.delete_file hf
    exact (Function.update_of_ne hne _ _).trans (hK.holds q hq f hfile)
  · show (parts.map (Part.delete path)).Pairwise _
    rw [List.pairwise_map]
    refine hK.distinct.imp ?_
    intro p q hdistinct f hf hf'
    exact hdistinct f (Part.delete_file hf).1 (Part.delete_file hf').1

theorem Keeps.step (hK : Keeps fs parts) (hfresh : e.Fresh fs) : Keeps (e.files fs) (e.parts parts) := by
  cases e with
  | added name bytes => exact hK.added bytes hfresh
  | moved source target => exact hK.moved hfresh.1 hfresh.2
  | deleted path => exact hK.deleted path

end keeps

/-! ## Section 4: Names and bytes -/

section names
variable {parts : List (Part P B)} {e : Event P B}

/-- The names that an event adds to the archive. -/
def Event.names : Event P B → List P
  | .added name _ => [name]
  | _ => []

/-- The bytes that an event adds to the archive. -/
def Event.bytes : Event P B → List B
  | .added _ bytes => bytes
  | _ => []

theorem parts_names (e : Event P B) (parts : List (Part P B)) :
    (e.parts parts).map Part.name = parts.map Part.name ++ e.names := by
  cases e with
  | added name bytes => exact List.map_append
  | moved source target => exact (List.map_map ..).trans (List.append_nil _).symm
  | deleted path => exact (List.map_map ..).trans (List.append_nil _).symm

theorem parts_text (e : Event P B) (parts : List (Part P B)) :
    text (e.parts parts) = text parts ++ e.bytes := by
  cases e with
  | added name bytes => exact (text_append _ _).trans (congrArg (text parts ++ ·) (text_singleton _))
  | moved source target =>
    exact (text_map (g := Part.move source target) (fun _ => rfl) parts).trans
      (List.append_nil _).symm
  | deleted path =>
    exact (text_map (g := Part.delete path) (fun _ => rfl) parts).trans (List.append_nil _).symm

theorem track_names (events : List (Event P B)) :
    (track events).map Part.name = events.flatMap Event.names := by
  induction events using List.reverseRecOn with
  | nil => rfl
  | append_singleton events e ih =>
    rw [track_concat, parts_names, ih, List.flatMap_append, List.flatMap_singleton]

/-- A part was there before, and if it has a file then it was in it or in what was packed to it, or
    it is the new one. -/
theorem mem_parts_cases {q : Part P B} (hq : q ∈ e.parts parts) :
    (∃ p ∈ parts, q.name = p.name ∧ ∀ f, q.file = some f →
      p.file = some f ∨ ∃ source, e = .moved source f ∧ p.file = some source) ∨
    ∃ bytes, e = .added q.name bytes ∧ q.file = some q.name := by
  cases e with
  | added name bytes =>
    obtain hq | hq := List.mem_append.mp hq
    · exact Or.inl ⟨q, hq, rfl, fun f hf => Or.inl hf⟩
    · obtain rfl := List.mem_singleton.mp hq
      exact Or.inr ⟨bytes, rfl, rfl⟩
  | moved source target =>
    obtain ⟨p, hp, rfl⟩ := List.mem_map.mp hq
    refine Or.inl ⟨p, hp, rfl, fun f hf => ?_⟩
    obtain ⟨hfile, rfl⟩ | ⟨hfile, _⟩ := Part.move_file hf
    · exact Or.inr ⟨source, rfl, hfile⟩
    · exact Or.inl hfile
  | deleted path =>
    obtain ⟨p, hp, rfl⟩ := List.mem_map.mp hq
    exact Or.inl ⟨p, hp, rfl, fun f hf => Or.inl (Part.delete_file hf).1⟩

end names

end Archive
