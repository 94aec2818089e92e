import Mathlib.Logic.Function.Basic
import Mathlib.Data.Nat.Notation

/-! # Files and buffered streams

    A file system maps paths to contents.  A stream is open for writing at the
    end of one file and holds back what was written and not yet flushed; a part
    of it may be passed on to the file at any write.  The bytes of the file
    followed by the bytes held back do not depend on when that happens.
-/

namespace Files

variable {P B : Type*}

/-! ## Files -/

/-- The bytes of the files by path; `none` where there is no file. -/
abbrev Fs (P B : Type*) : Type _ := P → Option (List B)

/-- The bytes of a file, none if there is no file. -/
def Fs.content (fs : Fs P B) (path : P) : List B := (fs path).getD []

theorem Fs.content_congr {fs fs' : Fs P B} {p : P} (h : fs' p = fs p) :
    fs'.content p = fs.content p := by
  unfold Fs.content
  rw [h]

/-! ## Streams -/

/-- A `FILE *` that is open for writing at the end of the file at `path`. -/
structure FileStream (P B : Type*) where
  path     : P
  buffered : List B

/-- The bytes of the stream's file and those held back for it. -/
def FileStream.bytes (st : FileStream P B) (fs : Fs P B) : List B :=
  fs.content st.path ++ st.buffered

/-- `st'` and `fs'` are `st` and `fs` after some of the bytes held back have gone to the
    file. -/
structure Passes (st : FileStream P B) (fs : Fs P B) (st' : FileStream P B) (fs' : Fs P B) : Prop where
  path  : st'.path = st.path
  bytes : st'.bytes fs' = st.bytes fs
  other : ∀ p, p ≠ st.path → fs' p = fs p

theorem Passes.refl (st : FileStream P B) (fs : Fs P B) : Passes st fs st fs :=
  ⟨rfl, rfl, fun _ _ => rfl⟩

theorem Passes.trans {st st₁ st₂ : FileStream P B} {fs fs₁ fs₂ : Fs P B} (h : Passes st fs st₁ fs₁)
    (h' : Passes st₁ fs₁ st₂ fs₂) : Passes st fs st₂ fs₂ where
  path := h'.path.trans h.path
  bytes := h'.bytes.trans h.bytes
  other := fun p hp => (h'.other p (h.path ▸ hp)).trans (h.other p hp)

/-! ## Operations on files -/

variable [DecidableEq P]

/-- `rename`: it fails if there is no file to rename, and replaces an existing target. -/
def Fs.rename (fs : Fs P B) (source target : P) : Option (Fs P B) :=
  match fs source with
  | none => none
  | some bytes => some (Function.update (Function.update fs target (some bytes)) source none)

/-- `unlink` -/
def Fs.unlink (fs : Fs P B) (path : P) : Fs P B := Function.update fs path none

/-- Replace the file at `path` by one at `packed` unless that exists.  The bytes of a
    packed file are the bytes before packing. -/
def Fs.pack (fs : Fs P B) (path packed : P) : Fs P B :=
  match fs path, fs packed with
  | some bytes, none => Function.update (Function.update fs packed (some bytes)) path none
  | _, _ => fs

section rename
variable {fs fs' : Fs P B} {source target p : P}

theorem Fs.rename_isSome_iff (fs : Fs P B) (source target : P) :
    (fs.rename source target).isSome ↔ (fs source).isSome := by
  unfold Fs.rename
  cases fs source <;> simp

/-- The target takes over the bytes of the source. -/
theorem Fs.rename_target (h : fs.rename source target = some fs') (hne : target ≠ source) :
    fs' target = some (fs.content source) := by
  unfold Fs.rename at h
  split at h
  · cases h
  · next bytes hbytes =>
    cases h
    rw [Function.update_of_ne hne, Function.update_self]
    simp [Fs.content, hbytes]

theorem Fs.rename_source (h : fs.rename source target = some fs') : fs' source = none := by
  unfold Fs.rename at h
  split at h
  · cases h
  · cases h
    exact Function.update_self _ _ _

theorem Fs.rename_other (h : fs.rename source target = some fs') (hs : p ≠ source)
    (ht : p ≠ target) : fs' p = fs p := by
  unfold Fs.rename at h
  split at h
  · cases h
  · cases h
    rw [Function.update_of_ne hs, Function.update_of_ne ht]

end rename

/-- Packing touches the file and its packed form only. -/
theorem Fs.pack_other (fs : Fs P B) {path packed p : P} (hp : p ≠ path) (hq : p ≠ packed) :
    fs.pack path packed p = fs p := by
  unfold Fs.pack
  cases fs path with
  | none => rfl
  | some bytes =>
    cases fs packed with
    | none =>
      show Function.update (Function.update fs packed (some bytes)) path none p = fs p
      rw [Function.update_of_ne hp, Function.update_of_ne hq]
    | some _ => rfl

/-- Without a file there is nothing to pack. -/
theorem Fs.pack_of_none {fs : Fs P B} {path : P} (h : fs path = none) (packed : P) :
    fs.pack path packed = fs := by
  unfold Fs.pack
  rw [h]

/-- Packing makes the packed file only. -/
theorem Fs.pack_eq_none {fs : Fs P B} {path packed p : P} (h : fs p = none) (hp : p ≠ packed) :
    fs.pack path packed p = none := by
  by_cases hpath : p = path
  · rw [← hpath, Fs.pack_of_none h]
    exact h
  · rw [fs.pack_other hpath hp]
    exact h

theorem Fs.pack_packed {fs : Fs P B} {path packed : P} (hfile : fs path ≠ none)
    (hne : packed ≠ path) : fs.pack path packed packed ≠ none := by
  unfold Fs.pack
  cases hbytes : fs path with
  | none => exact absurd hbytes hfile
  | some bytes =>
    cases hpacked : fs packed with
    | none =>
      show Function.update (Function.update fs packed (some bytes)) path none packed ≠ none
      rw [Function.update_of_ne hne, Function.update_self]
      exact Option.some_ne_none bytes
    | some other =>
      show fs packed ≠ none
      rw [hpacked]
      exact Option.some_ne_none other

/-! ## Operations on streams -/

/-- Pass the first `k` bytes held back on to the file. -/
def FileStream.spill (st : FileStream P B) (fs : Fs P B) (k : ℕ) : FileStream P B × Fs P B :=
  ({ st with buffered := st.buffered.drop k },
   Function.update fs st.path (some (fs.content st.path ++ st.buffered.take k)))

/-- `fflush` -/
def FileStream.flush (st : FileStream P B) (fs : Fs P B) : FileStream P B × Fs P B :=
  st.spill fs st.buffered.length

/-- `fwrite` of a whole record, of which the library passes on `k` bytes of what it
    then holds. -/
def FileStream.write (st : FileStream P B) (fs : Fs P B) (data : List B) (k : ℕ) :
    FileStream P B × Fs P B :=
  { st with buffered := st.buffered ++ data }.spill fs k

/-- `fopen(path, "a")` when it succeeds. -/
def fopenAppend (fs : Fs P B) (path : P) : FileStream P B × Fs P B :=
  ({ path := path, buffered := [] }, Function.update fs path (some (fs.content path)))

/-- `fopen(path, "w")` when it succeeds. -/
def fopenWrite (fs : Fs P B) (path : P) : FileStream P B × Fs P B :=
  ({ path := path, buffered := [] }, Function.update fs path (some []))

section stream
variable {st : FileStream P B} {fs : Fs P B} {p : P}

theorem Fs.content_update_self (fs : Fs P B) (p : P) (bytes : List B) :
    Fs.content (Function.update fs p (some bytes)) p = bytes := by
  simp [Fs.content]

@[simp] theorem FileStream.flush_buffered : (st.flush fs).1.buffered = [] :=
  List.drop_length

theorem FileStream.spill_passes (st : FileStream P B) (fs : Fs P B) (k : ℕ) :
    Passes st fs (st.spill fs k).1 (st.spill fs k).2 where
  path := rfl
  bytes := by
    unfold FileStream.bytes FileStream.spill
    dsimp only
    rw [Fs.content_update_self, List.append_assoc, List.take_append_drop]
  other := fun _ hp => Function.update_of_ne hp _ _

theorem FileStream.flush_passes (st : FileStream P B) (fs : Fs P B) :
    Passes st fs (st.flush fs).1 (st.flush fs).2 :=
  st.spill_passes fs _

/-- After a flush the file has it all. -/
theorem FileStream.flush_content : (st.flush fs).2.content st.path = st.bytes fs := by
  rw [← (st.flush_passes fs).bytes, FileStream.bytes, FileStream.flush_buffered,
    List.append_nil, (st.flush_passes fs).path]

theorem fopenAppend_bytes : (fopenAppend fs p).1.bytes (fopenAppend fs p).2 = fs.content p := by
  unfold FileStream.bytes fopenAppend
  dsimp only
  rw [Fs.content_update_self, List.append_nil]

/-- Closing a stream that was just opened changes nothing. -/
theorem fopenAppend_flush :
    ((fopenAppend fs p).1.flush (fopenAppend fs p).2).2 = (fopenAppend fs p).2 := by
  unfold FileStream.flush FileStream.spill fopenAppend
  dsimp only
  rw [Fs.content_update_self, List.take_nil, List.append_nil, Function.update_idem]

theorem fopenWrite_bytes : (fopenWrite fs p).1.bytes (fopenWrite fs p).2 = [] := by
  unfold FileStream.bytes fopenWrite
  dsimp only
  rw [Fs.content_update_self, List.append_nil]

end stream

end Files
