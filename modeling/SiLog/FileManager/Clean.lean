import SiLog.FileManager.Config
import SiLog.PQueue.Contents

/-! # Cleaning up old files (`SilogFileManagerCleanOldFiles`)

    The history files of the directory go into a priority queue and are popped
    and deleted until at most `maxFileCount` are left.  `OldestFileCompare` is
    written for a queue with the lowest element on top, but the queue has the
    highest on top: the first file that is deleted is the newest one.
-/

open Heap

namespace SiLog.FileManager

open PQueue

/-! ## Section 1: The function -/

/-- An entry of the directory with the modification time that `stat` finds, `none` if
    it fails. -/
structure DirEntry where
  name  : CString 256
  mtime : Option ℤ

/-- `FileInfo` -/
structure FileInfo where
  path  : Str
  mtime : ℤ
  deriving DecidableEq

/-- `OldestFileCompare` -/
def oldestFileCompare (a b : FileInfo) : ℤ :=
  if a.mtime < b.mtime then -1 else if b.mtime < a.mtime then 1 else 0

/-- `strrchr`: the string from the last `c` on. -/
def strrchr (c : Char) : Str → Option Str
  | [] => none
  | a :: s =>
    match strrchr c s with
    | some t => some t
    | none => if a = c then some (a :: s) else none

/-- The name starts with `logFileBase` and an underscore and ends in `.log` or `.gz`. -/
def isHistory (config : SilogLogFileConfig) (name : Str) : Bool :=
  -- `strncmp` with the prefix, and `strrchr` for the extension
  (snprintfS 128 (config.logFileBase.chars ++ ['_'])).isPrefixOf name &&
  match strrchr '.' name with
  | some ext => ext == dotLog || ext == dotGz
  | none => false

/-- The history files of the directory. -/
def collect (config : SilogLogFileConfig) (entries : List DirEntry) : List FileInfo :=
  entries.filterMap fun d =>
    if isHistory config d.name.chars = false then none
    else d.mtime.map fun t =>
      { path := snprintfS pathMaxLen (config.logDir.chars ++ ['/'] ++ d.name.chars), mtime := t }

/-- Push the files one after the other. -/
def pushAll {α : Type*} (q : SiLogPQueue α) (infos : List α) : SiLogPQueue α :=
  infos.foldl (fun q info => (silogPQueuePush q info true).2) q

/-- `while (SilogPQueueSize(&fileQueue) > maxFileCount)`: the elements popped.  Every
    round makes the queue smaller, so its size is enough fuel. -/
def popLoop {α : Type*} (maxFileCount : ℕ) : ℕ → SiLogPQueue α → List α × SiLogPQueue α
  | 0, q => ([], q)
  | fuel + 1, q =>
    if maxFileCount < q.size then
      match silogPQueuePop q true with
      | some (_, some e, q') =>
        let r := popLoop maxFileCount fuel q'
        (e :: r.1, r.2)
      | _ => ([], q)
    else ([], q)

/-- `MAX_LOG_FILE_COUNT` -/
def maxLogFileCount : UInt32 := 128

/-- `SilogFileManagerCleanOldFiles`: the code and the paths unlinked.  `scan` is what
    `scandir` returns; `mem` is the memory of the queue, whose allocation succeeds. -/
def silogFileManagerCleanOldFiles (config : SilogLogFileConfig) (scan : Option (List DirEntry))
    (mem : ℕ → FileInfo) : ErrorCode × List Str :=
  match scan with
  | none => (.fileOpen, [])
  | some entries =>
    match silogPQueueInit maxLogFileCount oldestFileCompare (some mem) with
    -- not reached: the capacity is not 0 and the memory is there
    | .error _ => (.ok, [])
    | .ok fileQueue =>
      let q := pushAll fileQueue (collect config entries)
      (.ok, (popLoop config.maxFileCount.toNat q.size q).1.map FileInfo.path)

/-! ## Section 2: Filling the queue -/

theorem zero_le_oldestFileCompare {a b : FileInfo} :
    0 ≤ oldestFileCompare a b ↔ b.mtime ≤ a.mtime := by
  unfold oldestFileCompare
  split
  · constructor <;> intro _ <;> omega
  · split
    · constructor <;> intro _ <;> omega
    · constructor <;> intro _ <;> omega

theorem oldestFileCompare_total : TotalPreorder oldestFileCompare where
  sign a b := by
    unfold oldestFileCompare
    rcases lt_trichotomy a.mtime b.mtime with h | h | h
    · rw [if_pos h, if_neg (by omega), if_pos h]
      rfl
    · rw [if_neg (by omega), if_neg (by omega), if_neg (by omega), if_neg (by omega)]
      rfl
    · rw [if_neg (by omega), if_pos h, if_pos h]
      rfl
  trans a b c := by
    rw [zero_le_oldestFileCompare, zero_le_oldestFileCompare, zero_le_oldestFileCompare]
    omega

section queue
variable {α : Type*} {compare : α → α → ℤ}

/-- Pushes that all find room build a heap of what was pushed. -/
theorem pushAll_spec (hc : TotalPreorder compare) {q : SiLogPQueue α} {infos : List α}
    (hq : HeapInv compare q) (hroom : q.size + infos.length ≤ q.capacity) :
    HeapInv compare (pushAll q infos) ∧ (pushAll q infos).elems = (infos : Multiset α) + q.elems ∧
    (pushAll q infos).size = q.size + infos.length ∧
    (pushAll q infos).capacity = q.capacity := by
  induction infos generalizing q with
  | nil => exact ⟨hq, (Multiset.zero_add _).symm, rfl, rfl⟩
  | cons e infos ih =>
    rw [List.length_cons] at hroom
    obtain ⟨rfl, hle, hord⟩ := hq
    -- the first push, and the others from the heap it leaves
    obtain ⟨b, hpush, hb, helems⟩ := silogPQueuePush_ordered hc hord e (by omega)
    have hstep : pushAll q (e :: infos) =
        pushAll { q with buffer := b, size := q.size + 1 } infos := by
      unfold pushAll
      rw [List.foldl_cons, hpush]
    rw [hstep]
    obtain ⟨hinv, hel, hsize, hcap⟩ :=
      ih (q := { q with buffer := b, size := q.size + 1 })
        ⟨rfl, show q.size + 1 ≤ q.capacity by omega, hb⟩
        (show q.size + 1 + infos.length ≤ q.capacity by omega)
    refine ⟨hinv, ?_, ?_, hcap⟩
    · rw [hel, ← Multiset.cons_coe, Multiset.cons_add]
      show (infos : Multiset α) + Heap.elems b (q.size + 1) = _
      rw [helems, Multiset.add_cons]
    · rw [hsize, List.length_cons]
      show q.size + 1 + infos.length = _
      omega

/-! ## Section 3: Emptying it -/

/-- The loop pops down to `max` elements and loses none. -/
theorem popLoop_spec (max : ℕ) {fuel : ℕ} {q : SiLogPQueue α} (hsize : q.size ≤ 2 ^ 31)
    (hfuel : q.size ≤ fuel) :
    ((popLoop max fuel q).1 : Multiset α) + (popLoop max fuel q).2.elems = q.elems ∧
    (popLoop max fuel q).2.size = min q.size max := by
  induction fuel generalizing q with
  | zero =>
    refine ⟨Multiset.zero_add _, ?_⟩
    show q.size = min q.size max
    omega
  | succ fuel ih =>
    unfold popLoop
    split
    · next hlt =>
      -- `Pop` need not keep a heap, but it always takes one element away
      obtain ⟨b, hpop, helems, _⟩ := silogPQueuePop_spec (q := q) (by omega) hsize
      rw [hpop]
      dsimp only
      obtain ⟨hel, hs⟩ := ih (q := { q with buffer := b, size := q.size - 1 })
        (show q.size - 1 ≤ 2 ^ 31 by omega) (show q.size - 1 ≤ fuel by omega)
      refine ⟨?_, ?_⟩
      · rw [← Multiset.cons_coe, Multiset.cons_add, hel]
        exact helems
      · rw [hs]
        show min (q.size - 1) max = min q.size max
        omega
    · refine ⟨Multiset.zero_add _, ?_⟩
      show q.size = min q.size max
      omega

/-- The root is above some other element, if there is one. -/
def RootAboveOne (q : SiLogPQueue α) : Prop :=
  1 < q.size → ∃ j, 0 < j ∧ j < q.size ∧ Above q.compare (q.buffer 0) (q.buffer j)

/-- If the elements that are left are all at least as high as every element, and there
    are some, then no element was lower than they are.

    Every pop leaves a root that is above some other element.  So the last lower
    element to go could not be at the root. -/
theorem popLoop_all_high (hc : TotalPreorder compare) {max fuel : ℕ} {q : SiLogPQueue α}
    (hcmp : q.compare = compare) (hsize : q.size ≤ 2 ^ 31) (hmax : 0 < max)
    (hroot : RootAboveOne q)
    (hhigh : ∀ k ∈ (popLoop max fuel q).2.elems, ∀ a ∈ q.elems, Above compare k a) :
    ∀ a ∈ q.elems, ∀ k ∈ (popLoop max fuel q).2.elems, Above compare a k := by
  have := hc.isTrans
  induction fuel generalizing q with
  | zero => exact fun a ha k hk => hhigh a ha k hk
  | succ fuel ih =>
    unfold popLoop at hhigh ⊢
    split at hhigh
    · next hlt =>
      rw [if_pos hlt]
      obtain ⟨b, hpop, helems, hone⟩ := silogPQueuePop_spec (q := q) (by omega) hsize
      rw [hpop] at hhigh ⊢
      dsimp only at hhigh ⊢
      -- what is left after this pop is left in the end, so the hypothesis goes on to the rest
      have hrest := ih (q := { q with buffer := b, size := q.size - 1 }) hcmp
        (show q.size - 1 ≤ 2 ^ 31 by omega) (fun h => hone (hcmp ▸ hc) h) (fun k hk a ha =>
          hhigh k hk a (helems ▸ Multiset.mem_cons_of_mem ha))
      intro a ha k hk
      have ha' : a ∈ q.buffer 0 ::ₘ Heap.elems b (q.size - 1) := helems.symm ▸ ha
      rcases Multiset.mem_cons.mp ha' with rfl | hin
      · -- the popped root is above an element that stayed one pop longer
        obtain ⟨j, hj, hjn, hab⟩ := hroot (by omega)
        have hjin : q.buffer j ∈ Heap.elems b (q.size - 1) := mem_of_cons_elems helems hj hjn
        rw [hcmp] at hab
        exact trans_of _ hab (hrest _ hjin k hk)
      · exact hrest a hin k hk
    · next hle =>
      rw [if_neg hle]
      exact fun a ha k hk => hhigh a ha k hk

/-- A heap with two elements or more has its root above another element. -/
theorem rootAboveOne_of_heapInv {q : SiLogPQueue α} (hq : HeapInv compare q) : RootAboveOne q := by
  intro hlt
  refine ⟨1, by omega, hlt, ?_⟩
  rw [hq.cmp]
  exact hq.ordered 1 (by omega) hlt

/-- If more elements are stored than shall be left, the root is popped. -/
theorem root_mem_popLoop {max fuel : ℕ} {q : SiLogPQueue α} (hsize : q.size ≤ 2 ^ 31)
    (hfuel : q.size ≤ fuel) (hlt : max < q.size) : q.buffer 0 ∈ (popLoop max fuel q).1 := by
  obtain ⟨fuel, rfl⟩ : ∃ n, fuel = n + 1 := ⟨fuel - 1, by omega⟩
  obtain ⟨b, hpop, _, _⟩ := silogPQueuePop_spec (q := q) (by omega) hsize
  unfold popLoop
  rw [if_pos hlt, hpop]
  exact List.mem_cons_self

/-- Popping a heap down to `max` elements leaves the higher ones only if it pops
    nothing, leaves nothing, or all elements are equally high. -/
theorem popLoop_leaves_high_iff (hc : TotalPreorder compare) (max : ℕ) {fuel : ℕ} {q : SiLogPQueue α}
    (hq : HeapInv compare q) (hsize : q.size ≤ 2 ^ 31) (hfuel : q.size ≤ fuel) :
    (∀ u ∈ (popLoop max fuel q).1, ∀ k ∈ (popLoop max fuel q).2.elems, Above compare k u) ↔
      q.size ≤ max ∨ max = 0 ∨ ∀ a ∈ q.elems, ∀ b ∈ q.elems, Above compare a b := by
  have := hc.refl
  have := hc.isTrans
  obtain ⟨hsum, hleft⟩ := popLoop_spec max hsize hfuel
  constructor
  · intro horder
    by_contra hnot
    push Not at hnot
    obtain ⟨hlt, hmax, a, ha, b, hb, hab⟩ := hnot
    -- what is left is above the root, which was popped and is above everything
    have hhigh : ∀ k ∈ (popLoop max fuel q).2.elems, ∀ a ∈ q.elems, Above compare k a := by
      intro k hk a ha
      obtain ⟨i, hi, rfl⟩ := mem_elems.mp ha
      exact trans_of _ (horder _ (root_mem_popLoop hsize hfuel hlt) k hk) (hq.ordered.root hi)
    have hall := popLoop_all_high hc hq.cmp hsize (by omega) (rootAboveOne_of_heapInv hq) hhigh
    -- something is left because `max` is not 0
    have hk : (popLoop max fuel q).2.buffer 0 ∈ (popLoop max fuel q).2.elems :=
      mem_elems.mpr ⟨0, by omega, rfl⟩
    exact hab (trans_of _ (hall a ha _ hk) (hhigh _ hk b hb))
  · intro hcases u hu k hk
    have hcard := congrArg Multiset.card hsum
    have hpopped : 0 < (popLoop max fuel q).1.length := List.length_pos_of_mem hu
    have hkept : 0 < (popLoop max fuel q).2.elems.card := Multiset.card_pos_iff_exists_mem.mpr ⟨k, hk⟩
    rw [Multiset.card_add, Multiset.coe_card] at hcard
    have hcardq : q.elems.card = q.size := card_elems _ _
    have hcardr : (popLoop max fuel q).2.elems.card = (popLoop max fuel q).2.size := card_elems _ _
    -- in the first two cases nothing is popped or nothing is left, and `u` and `k` do not exist
    rcases hcases with hle | hzero | hall
    · omega
    · omega
    · refine hall k ?_ u ?_
      · exact hsum ▸ Multiset.mem_add.mpr (Or.inr hk)
      · exact hsum ▸ Multiset.mem_add.mpr (Or.inl (Multiset.mem_coe.mpr hu))

end queue

/-! ## Section 4: Which files are deleted -/

/-- Every file deleted is at most as new as every history file that is kept. -/
def DeletesOldest (infos : List FileInfo) (unlinked : List Str) : Prop :=
  ∀ u ∈ infos, ∀ k ∈ infos, u.path ∈ unlinked → k.path ∉ unlinked → u.mtime ≤ k.mtime

/-- The path of an entry is not cut off. -/
theorem entryPath_eq (config : SilogLogFileConfig) (d : DirEntry) :
    snprintfS pathMaxLen (config.logDir.chars ++ ['/'] ++ d.name.chars) =
      config.logDir.chars ++ ['/'] ++ d.name.chars := by
  have hdir := config.logDir.lt
  have hname := d.name.lt
  apply snprintfS_eq
  simp only [List.length_append, List.length_cons, List.length_nil, pathMaxLen]
  omega

/-- Entries with different names have different paths. -/
theorem collect_paths_nodup {config : SilogLogFileConfig} {entries : List DirEntry}
    (hnames : (entries.map fun d => d.name.chars).Nodup) :
    ((collect config entries).map FileInfo.path).Nodup := by
  have hpairs : entries.Pairwise fun d e => d.name.chars ≠ e.name.chars := List.pairwise_map.mp hnames
  refine List.pairwise_map.mpr (hpairs.filterMap _ ?_)
  intro d e hne a ha b hb heq
  -- the path determines the name because the directory is the same
  have hpath : ∀ {d : DirEntry} {a : FileInfo},
      (if isHistory config d.name.chars = false then none
        else d.mtime.map fun t => FileInfo.mk
          (snprintfS pathMaxLen (config.logDir.chars ++ ['/'] ++ d.name.chars)) t) = some a →
      a.path = config.logDir.chars ++ ['/'] ++ d.name.chars := by
    intro d a h
    split at h
    · cases h
    · obtain ⟨t, _, rfl⟩ := Option.map_eq_some_iff.mp h
      exact entryPath_eq config d
  rw [hpath ha, hpath hb] at heq
  exact hne (List.append_cancel_left heq)

/-- If no two files have one path, paths tell which files were deleted. -/
theorem deletesOldest_iff {infos popped : List FileInfo} {kept : Multiset FileInfo}
    (hpaths : (infos.map FileInfo.path).Nodup)
    (hsum : (popped : Multiset FileInfo) + kept = (infos : Multiset FileInfo)) :
    DeletesOldest infos (popped.map FileInfo.path) ↔
      ∀ u ∈ popped, ∀ k ∈ kept, u.mtime ≤ k.mtime := by
  have hinj : ∀ a ∈ infos, ∀ b ∈ infos, a.path = b.path → a = b := fun a ha b hb =>
    List.inj_on_of_nodup_map hpaths ha hb
  have hnodup : ((popped : Multiset FileInfo) + kept).Nodup := by
    rw [hsum]
    exact hpaths.of_map
  have hdisj := (Multiset.nodup_add.mp hnodup).2.2
  have hpopped : ∀ u ∈ popped, u ∈ infos := fun u hu =>
    Multiset.mem_coe.mp (hsum ▸ Multiset.mem_add.mpr (Or.inl (Multiset.mem_coe.mpr hu)))
  have hkept : ∀ k ∈ kept, k ∈ infos := fun k hk =>
    Multiset.mem_coe.mp (hsum ▸ Multiset.mem_add.mpr (Or.inr hk))
  constructor
  · intro h u hu k hk
    refine h u (hpopped u hu) k (hkept k hk) (List.mem_map_of_mem hu) ?_
    intro hin
    obtain ⟨v, hv, heq⟩ := List.mem_map.mp hin
    -- a popped file with the path of a kept one would be that one
    obtain rfl := hinj v (hpopped v hv) k (hkept k hk) heq
    exact Multiset.disjoint_left.mp hdisj (Multiset.mem_coe.mpr hv) hk
  · intro h u hu k hk hin hnot
    obtain ⟨v, hv, heq⟩ := List.mem_map.mp hin
    obtain rfl := hinj v (hpopped v hv) u hu heq
    refine h v hv k ?_
    have hmem : k ∈ (popped : Multiset FileInfo) + kept := hsum ▸ Multiset.mem_coe.mpr hk
    rcases Multiset.mem_add.mp hmem with hin' | hin'
    · exact absurd (List.mem_map_of_mem (Multiset.mem_coe.mp hin')) hnot
    · exact hin'

/-- **What the clean-up deletes.** With at most 128 history files, it deletes older
    files than it keeps only if it has nothing to delete, deletes all of them
    or they are all equally old. -/
theorem cleanOldFiles_deletesOldest_iff {config : SilogLogFileConfig} {entries : List DirEntry}
    (hnames : (entries.map fun d => d.name.chars).Nodup)
    (hcount : (collect config entries).length ≤ 128) (mem : ℕ → FileInfo) :
    DeletesOldest (collect config entries)
        (silogFileManagerCleanOldFiles config (some entries) mem).2 ↔
      (collect config entries).length ≤ config.maxFileCount.toNat ∨ config.maxFileCount = 0 ∨
      ∀ a ∈ collect config entries, ∀ b ∈ collect config entries, a.mtime = b.mtime := by
  set infos := collect config entries with hinfos
  -- 128 is the capacity of the queue, so every file finds room
  set q₀ : SiLogPQueue FileInfo :=
    { buffer := mem, capacity := 128, size := 0, compare := oldestFileCompare } with hq₀
  have hinit : HeapInv oldestFileCompare q₀ :=
    ⟨rfl, Nat.zero_le _, fun i _ hi => absurd hi (Nat.not_lt_zero i)⟩
  have hroom : q₀.size + infos.length ≤ q₀.capacity := show 0 + infos.length ≤ 128 by omega
  obtain ⟨hq, hel, hsize, _⟩ := pushAll_spec oldestFileCompare_total hinit hroom
  set q := pushAll q₀ infos
  have helems : q.elems = (infos : Multiset FileInfo) := by
    rw [hel]
    exact Multiset.add_zero _
  have hsize' : q.size = infos.length := by rw [hsize]; exact Nat.zero_add _
  have hle : q.size ≤ 2 ^ 31 := by omega
  have hsum := (popLoop_spec config.maxFileCount.toNat hle (le_refl _)).1
  have hclean : (silogFileManagerCleanOldFiles config (some entries) mem).2 =
      (popLoop config.maxFileCount.toNat q.size q).1.map FileInfo.path := rfl
  rw [hclean, deletesOldest_iff (collect_paths_nodup hnames) (hsum.trans helems)]
  have hiff := popLoop_leaves_high_iff oldestFileCompare_total config.maxFileCount.toNat hq hle
    (le_refl _)
  simp only [Above, zero_le_oldestFileCompare] at hiff
  rw [hiff, helems, hsize', ← UInt32.toNat_inj]
  refine or_congr Iff.rfl (or_congr Iff.rfl ?_)
  simp only [Multiset.mem_coe]
  constructor
  · intro h a ha b hb
    exact le_antisymm (h b hb a ha) (h a ha b hb)
  · intro h a ha b hb
    exact (h b hb a ha).le

/-- Nothing comes into the queue but what is pushed. -/
theorem mem_pushAll {α : Type*} {q : SiLogPQueue α} {infos : List α} {x : α}
    (hx : x ∈ (pushAll q infos).elems) : x ∈ infos ∨ x ∈ q.elems := by
  induction infos generalizing q with
  | nil => exact Or.inr hx
  | cons e infos ih =>
    rcases ih (q := (silogPQueuePush q e true).2) hx with hin | hin
    · exact Or.inl (List.mem_cons_of_mem e hin)
    · by_cases hroom : q.size < q.capacity
      · obtain ⟨b, hpush, helems⟩ := silogPQueuePush_room hroom e true
        have hin' : x ∈ Heap.elems b (q.size + 1) := by
          rw [hpush] at hin
          exact hin
        rw [helems, Multiset.mem_cons] at hin'
        rcases hin' with rfl | hin'
        · exact Or.inl List.mem_cons_self
        · exact Or.inr hin'
      · rw [silogPQueuePush_full (not_lt.mp hroom)] at hin
        exact Or.inr hin

theorem size_pushAll_le {α : Type*} {q : SiLogPQueue α} (infos : List α) (hle : q.size ≤ q.capacity) :
    (pushAll q infos).size ≤ q.capacity := by
  induction infos generalizing q with
  | nil => exact hle
  | cons e infos ih =>
    show (pushAll (silogPQueuePush q e true).2 infos).size ≤ q.capacity
    by_cases hroom : q.size < q.capacity
    · obtain ⟨b, hpush, _⟩ := silogPQueuePush_room hroom e true
      rw [hpush]
      exact ih (q := { q with buffer := b, size := q.size + 1 }) hroom
    · rw [silogPQueuePush_full (not_lt.mp hroom)]
      exact ih hle

/-- Only history files of the directory are collected. -/
theorem mem_collect {config : SilogLogFileConfig} {entries : List DirEntry} {info : FileInfo}
    (h : info ∈ collect config entries) :
    ∃ d ∈ entries, isHistory config d.name.chars = true ∧
      info.path = config.logDir.chars ++ ['/'] ++ d.name.chars := by
  obtain ⟨d, hd, hinfo⟩ := List.mem_filterMap.mp h
  split at hinfo
  · cases hinfo
  · next hhist =>
    obtain ⟨t, _, rfl⟩ := Option.map_eq_some_iff.mp hinfo
    exact ⟨d, hd, Bool.eq_true_of_not_eq_false hhist, entryPath_eq config d⟩

/-- And only what is collected is deleted. -/
theorem mem_cleanOldFiles {config : SilogLogFileConfig} {entries : List DirEntry}
    {mem : ℕ → FileInfo} {path : Str}
    (h : path ∈ (silogFileManagerCleanOldFiles config (some entries) mem).2) :
    ∃ d ∈ entries, isHistory config d.name.chars = true ∧
      path = config.logDir.chars ++ ['/'] ++ d.name.chars := by
  set q₀ : SiLogPQueue FileInfo :=
    { buffer := mem, capacity := 128, size := 0, compare := oldestFileCompare }
  set q := pushAll q₀ (collect config entries)
  have hsize : q.size ≤ 2 ^ 31 :=
    (size_pushAll_le (collect config entries) (Nat.zero_le 128 : q₀.size ≤ q₀.capacity)).trans
      (show 128 ≤ 2 ^ 31 by omega)
  have hsum := (popLoop_spec config.maxFileCount.toNat hsize (le_refl q.size)).1
  obtain ⟨info, hpopped, rfl⟩ := List.mem_map.mp h
  have hin : info ∈ q.elems := hsum ▸ Multiset.mem_add.mpr (Or.inl (Multiset.mem_coe.mpr hpopped))
  rcases mem_pushAll hin with hinfo | hnone
  · exact mem_collect hinfo
  · exact absurd hnone (Multiset.notMem_zero info)

/-- The current file is none of them: its name goes on with a dot and not with an
    underscore. -/
theorem currentPath_not_cleaned (config : SilogLogFileConfig) (scan : Option (List DirEntry))
    (mem : ℕ → FileInfo) :
    silogFileManagerGetCurrentPath config ∉ (silogFileManagerCleanOldFiles config scan mem).2 := by
  intro h
  cases scan with
  | none => cases h
  | some entries =>
    obtain ⟨d, _, hhist, heq⟩ := mem_cleanOldFiles h
    rw [currentPath_eq, List.append_assoc _ config.logFileBase.chars] at heq
    have hname := List.append_cancel_left heq
    unfold isHistory at hhist
    rw [Bool.and_eq_true, snprintfS_eq (by
      have := config.logFileBase.lt
      rw [List.length_append, List.length_singleton]
      omega), ← hname] at hhist
    have hprefix := List.isPrefixOf_iff_prefix.mp hhist.1
    have hdot := List.prefix_append_right_inj _ |>.mp hprefix
    exact absurd hdot (by decide)

/-! ### Two history files of which one is to be kept -/

def keepOne : SilogLogFileConfig := { silogFileManagerGetDefaultConfig with maxFileCount := 1 }

/-- `silog_1.log` and `silog_2.log` with their modification times. -/
def twoFiles (t₁ t₂ : ℤ) : List DirEntry :=
  [{ name := ⟨['s', 'i', 'l', 'o', 'g', '_', '1'] ++ dotLog, by decide, by decide⟩, mtime := some t₁ },
   { name := ⟨['s', 'i', 'l', 'o', 'g', '_', '2'] ++ dotLog, by decide, by decide⟩, mtime := some t₂ }]

def noFile : FileInfo := { path := [], mtime := 0 }

/-- Two files of the same age: either may go. -/
theorem cleanOldFiles_deletesOldest_same_age :
    DeletesOldest (collect keepOne (twoFiles 5 5))
      (silogFileManagerCleanOldFiles keepOne (some (twoFiles 5 5)) fun _ => noFile).2 :=
  (cleanOldFiles_deletesOldest_iff (by decide) (by decide) fun _ => noFile).mpr
    (Or.inr (Or.inr (by decide)))

/-- The newer of two files is deleted. -/
theorem cleanOldFiles_deletes_newer :
    ((twoFiles 1 2).map fun d => d.name.chars).Nodup ∧
    (collect keepOne (twoFiles 1 2)).length ≤ 128 ∧
    ¬ DeletesOldest (collect keepOne (twoFiles 1 2))
      (silogFileManagerCleanOldFiles keepOne (some (twoFiles 1 2)) fun _ => noFile).2 := by
  refine ⟨by decide, by decide, ?_⟩
  intro h
  have hcollect : collect keepOne (twoFiles 1 2) =
      [⟨keepOne.logDir.chars ++ ['/', 's', 'i', 'l', 'o', 'g', '_', '1'] ++ dotLog, 1⟩,
       ⟨keepOne.logDir.chars ++ ['/', 's', 'i', 'l', 'o', 'g', '_', '2'] ++ dotLog, 2⟩] := by
    decide +kernel
  have hunlinked : (silogFileManagerCleanOldFiles keepOne (some (twoFiles 1 2)) fun _ => noFile).2 =
      [keepOne.logDir.chars ++ ['/', 's', 'i', 'l', 'o', 'g', '_', '2'] ++ dotLog] := by
    decide +kernel
  rw [hcollect, hunlinked] at h
  have hle := h _ (List.mem_cons_of_mem _ List.mem_cons_self) _ List.mem_cons_self
    List.mem_cons_self (by decide)
  exact absurd hle (by decide)

end SiLog.FileManager
