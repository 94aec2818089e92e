import SiLog.FileManager.Model

/-! # What the clean-up leaves and what it touches

    `SilogFileManagerCleanOldFiles` sees the log directory through a queue of
    128 elements and through a filter on names.  A push that finds the queue
    full is ignored, so of a larger directory only the first 128 history
    files are counted and the others stay, whatever `maxFileCount` says.  The
    filter takes every name that starts with `logFileBase` and an underscore
    and ends in `.log` or `.gz`: the names of a rotation, but also those of
    another base that continues this one.
-/

open Heap

namespace SiLog.FileManager

open PQueue

/-! ## Section 1: What comes into the queue -/

section queue
variable {α : Type*} {compare : α → α → ℤ}

/-- Pushes into a full queue change nothing. -/
theorem pushAll_take {q : SiLogPQueue α} (infos : List α) (hle : q.size ≤ q.capacity) :
    pushAll q infos = pushAll q (infos.take (q.capacity - q.size)) := by
  induction infos generalizing q with
  | nil => rw [List.take_nil]
  | cons e infos ih =>
    by_cases hroom : q.size < q.capacity
    · obtain ⟨b, hpush, _⟩ := silogPQueuePush_room hroom e true
      have hstep : ∀ l, pushAll q (e :: l) =
          pushAll { q with buffer := b, size := q.size + 1 } l := by
        intro l
        unfold pushAll
        rw [List.foldl_cons, hpush]
      have htake : (e :: infos).take (q.capacity - q.size) =
          e :: infos.take (q.capacity - (q.size + 1)) := by
        rw [show q.capacity - q.size = q.capacity - (q.size + 1) + 1 by omega, List.take_succ_cons]
      rw [htake, hstep, hstep]
      exact ih (q := { q with buffer := b, size := q.size + 1 }) hroom
    · have hfull : pushAll q (e :: infos) = pushAll q infos := by
        unfold pushAll
        rw [List.foldl_cons, silogPQueuePush_full (not_lt.mp hroom)]
      have hnone : q.capacity - q.size = 0 := by omega
      rw [hfull, ih hle, hnone, List.take_zero, List.take_zero]

end queue

/-- The queue before the first push. -/
def emptyQueue (mem : ℕ → FileInfo) : SiLogPQueue FileInfo where
  buffer := mem
  capacity := 128
  size := 0
  compare := oldestFileCompare

/-- The queue after the scan of the directory. -/
def scanned (config : SilogLogFileConfig) (entries : List DirEntry) (mem : ℕ → FileInfo) :
    SiLogPQueue FileInfo :=
  pushAll (emptyQueue mem) (collect config entries)

section scan
variable {config : SilogLogFileConfig} {entries : List DirEntry} {mem : ℕ → FileInfo}

theorem cleanOldFiles_eq (config : SilogLogFileConfig) (entries : List DirEntry) (mem : ℕ → FileInfo) :
    silogFileManagerCleanOldFiles config (some entries) mem =
      (.ok, (popLoop config.maxFileCount.toNat (scanned config entries mem).size
        (scanned config entries mem)).1.map FileInfo.path) := rfl

/-- The queue is a heap of the first 128 history files. -/
theorem scanned_spec (config : SilogLogFileConfig) (entries : List DirEntry) (mem : ℕ → FileInfo) :
    HeapInv oldestFileCompare (scanned config entries mem) ∧
    (scanned config entries mem).elems = ((collect config entries).take 128 : Multiset FileInfo) ∧
    (scanned config entries mem).size = min (collect config entries).length 128 := by
  have hinit : HeapInv oldestFileCompare (emptyQueue mem) :=
    ⟨rfl, Nat.zero_le _, fun i _ hi => absurd hi (Nat.not_lt_zero i)⟩
  have htake : scanned config entries mem =
      pushAll (emptyQueue mem) ((collect config entries).take 128) :=
    pushAll_take (collect config entries) (Nat.zero_le 128)
  have hlen : ((collect config entries).take 128).length = min (collect config entries).length 128 := by
    rw [List.length_take, Nat.min_comm]
  have hroom : (emptyQueue mem).size + ((collect config entries).take 128).length ≤
      (emptyQueue mem).capacity := by
    rw [hlen]
    show 0 + _ ≤ 128
    omega
  obtain ⟨hq, hel, hsize, _⟩ := pushAll_spec oldestFileCompare_total hinit hroom
  rw [htake]
  refine ⟨hq, ?_, ?_⟩
  · rw [hel]
    exact Multiset.add_zero _
  · rw [hsize, hlen]
    exact Nat.zero_add _

/-- What is unlinked and what is kept are together the first 128 history files, of which at most
    `maxFileCount` are kept. -/
theorem cleanOldFiles_spec (config : SilogLogFileConfig) (entries : List DirEntry)
    (mem : ℕ → FileInfo) :
    ∃ (popped : List FileInfo) (kept : Multiset FileInfo),
      silogFileManagerCleanOldFiles config (some entries) mem = (.ok, popped.map FileInfo.path) ∧
      (popped : Multiset FileInfo) + kept = ((collect config entries).take 128 : Multiset FileInfo) ∧
      popped.length = min (collect config entries).length 128 - config.maxFileCount.toNat := by
  obtain ⟨hq, hel, hsize⟩ := scanned_spec config entries mem
  have hle : (scanned config entries mem).size ≤ 2 ^ 31 := by omega
  obtain ⟨hsum, hleft⟩ := popLoop_spec config.maxFileCount.toNat hle (le_refl _)
  refine ⟨_, _, cleanOldFiles_eq config entries mem, hsum.trans hel, ?_⟩
  have hcard := congrArg Multiset.card hsum
  rw [Multiset.card_add, Multiset.coe_card, SiLogPQueue.elems, SiLogPQueue.elems, card_elems,
    card_elems, hleft] at hcard
  omega

/-- If something is deleted, a file that is newer than all others in the queue is. -/
theorem newest_unlinked (info : FileInfo)
    (hlt : config.maxFileCount.toNat < min (collect config entries).length 128)
    (hin : info ∈ (collect config entries).take 128)
    (hnew : ∀ other ∈ (collect config entries).take 128, other = info ∨ other.mtime < info.mtime) :
    info.path ∈ (silogFileManagerCleanOldFiles config (some entries) mem).2 := by
  have := oldestFileCompare_total.refl
  have := oldestFileCompare_total.isTrans
  obtain ⟨hq, hel, hsize⟩ := scanned_spec config entries mem
  have hroot := root_mem_popLoop (q := scanned config entries mem) (by omega) (le_refl _)
    (show config.maxFileCount.toNat < _ by omega)
  -- the root is at least as new as every file in the queue, so it is this one
  have hmem : (scanned config entries mem).buffer 0 ∈ (collect config entries).take 128 := by
    rw [← Multiset.mem_coe, ← hel]
    exact mem_elems.mpr ⟨0, by omega, rfl⟩
  obtain ⟨i, hi, heq⟩ : ∃ i, i < (scanned config entries mem).size ∧
      (scanned config entries mem).buffer i = info := by
    rw [← Multiset.mem_coe, ← hel] at hin
    exact mem_elems.mp hin
  have habove := hq.ordered.root hi
  rw [heq, Above, zero_le_oldestFileCompare] at habove
  rw [cleanOldFiles_eq]
  refine List.mem_map.mpr ⟨_, hroot, ?_⟩
  rcases hnew _ hmem with hsame | holder
  · rw [hsame]
  · omega

end scan

/-! ## Section 2: How many files are left -/

/-- The names of the directory that the clean-up counts. -/
def histories (config : SilogLogFileConfig) (entries : List DirEntry) : List DirEntry :=
  entries.filter fun d => isHistory config d.name.chars

def entryPath (config : SilogLogFileConfig) (d : DirEntry) : Str :=
  config.logDir.chars ++ ['/'] ++ d.name.chars

/-- The history files that are not unlinked. -/
def historiesLeft (config : SilogLogFileConfig) (entries : List DirEntry) (unlinked : List Str) :
    List DirEntry :=
  (histories config entries).filter fun d => entryPath config d ∉ unlinked

section count
variable {config : SilogLogFileConfig} {entries : List DirEntry}

theorem collect_paths (config : SilogLogFileConfig) (hstat : ∀ d ∈ entries, d.mtime.isSome) :
    (collect config entries).map FileInfo.path =
      (histories config entries).map (entryPath config) := by
  induction entries with
  | nil => rfl
  | cons d entries ih =>
    have hrest := ih fun e he => hstat e (List.mem_cons_of_mem d he)
    obtain ⟨t, ht⟩ := Option.isSome_iff_exists.mp (hstat d List.mem_cons_self)
    unfold collect histories at hrest ⊢
    by_cases hhist : isHistory config d.name.chars = true
    · rw [List.filter_cons, if_pos hhist, List.map_cons, ← hrest]
      simp only [List.filterMap_cons, hhist, ht, Bool.true_eq_false, if_false, Option.map_some,
        List.map_cons, entryPath_eq]
      rfl
    · rw [List.filter_cons, if_neg hhist, ← hrest]
      simp only [List.filterMap_cons, Bool.eq_false_of_not_eq_true hhist, if_true]

/-- Taking members away from a list without repetitions. -/
theorem length_filter_notMem {α : Type*} {l taken : List α} {p : α → Bool}
    (hp : ∀ a, p a = true ↔ a ∉ taken) (hl : l.Nodup)
    (hle : (taken : Multiset α) ≤ (l : Multiset α)) :
    (l.filter p).length = l.length - taken.length := by
  classical
  have hfilter : l.filter p = l.filter (· ∉ taken) :=
    List.filter_congr fun a _ => Bool.eq_iff_iff.mpr ((hp a).trans decide_eq_true_iff.symm)
  rw [hfilter, ← hl.sdiff_eq_filter, ← Multiset.coe_card, ← Multiset.coe_sub, Multiset.card_sub hle,
    Multiset.coe_card, Multiset.coe_card]

/-- The number of history files after the clean-up. -/
theorem length_historiesLeft (hnames : (entries.map fun d => d.name.chars).Nodup)
    (hstat : ∀ d ∈ entries, d.mtime.isSome) (mem : ℕ → FileInfo) :
    (historiesLeft config entries
      (silogFileManagerCleanOldFiles config (some entries) mem).2).length =
      (histories config entries).length -
        (min (histories config entries).length 128 - config.maxFileCount.toNat) := by
  obtain ⟨popped, kept, heq, hsum, hlen⟩ := cleanOldFiles_spec config entries mem
  have hpaths := collect_paths config hstat
  have hcount : (collect config entries).length = (histories config entries).length := by
    have := congrArg List.length hpaths
    rwa [List.length_map, List.length_map] at this
  -- what is unlinked are paths of history files
  have hle : ((popped.map FileInfo.path : List Str) : Multiset Str) ≤
      ((histories config entries).map (entryPath config) : List Str) := by
    rw [← hpaths, ← Multiset.map_coe, ← Multiset.map_coe]
    refine Multiset.map_le_map ?_
    calc (popped : Multiset FileInfo) ≤ popped + kept := Multiset.le_add_right _ _
      _ = ((collect config entries).take 128 : Multiset FileInfo) := hsum
      _ ≤ (collect config entries : Multiset FileInfo) := (List.take_sublist _ _).subperm
  have hnodup : ((histories config entries).map (entryPath config)).Nodup := by
    rw [← hpaths]
    exact collect_paths_nodup hnames
  have hleft := length_filter_notMem (p := fun path => decide (path ∉ popped.map FileInfo.path))
    (fun path => decide_eq_true_iff) hnodup hle
  rw [List.filter_map, List.length_map, List.length_map, List.length_map] at hleft
  rw [heq]
  calc (historiesLeft config entries (popped.map FileInfo.path)).length
      = (histories config entries).length - popped.length := hleft
    _ = _ := by rw [hlen, hcount]

/-- **History count.** With scan, `stat`, allocation and `unlink` succeeding, the clean-up leaves at
    most `maxFileCount` history files exactly if there were at most 128 of them or at
    most `maxFileCount`. -/
theorem cleanOldFiles_bounded_iff (hnames : (entries.map fun d => d.name.chars).Nodup)
    (hstat : ∀ d ∈ entries, d.mtime.isSome) (mem : ℕ → FileInfo) :
    ((silogFileManagerCleanOldFiles config (some entries) mem).1 = .ok ∧
      (historiesLeft config entries
        (silogFileManagerCleanOldFiles config (some entries) mem).2).length ≤
        config.maxFileCount.toNat) ↔
      (histories config entries).length ≤ 128 ∨
      (histories config entries).length ≤ config.maxFileCount.toNat := by
  have hok : (silogFileManagerCleanOldFiles config (some entries) mem).1 = .ok := by
    rw [cleanOldFiles_eq]
  rw [length_historiesLeft hnames hstat mem]
  constructor
  · rintro ⟨_, hle⟩
    omega
  · intro h
    exact ⟨hok, by omega⟩

end count

/-! ### More files than the queue has room for -/

theorem strrchr_append {c : Char} {s t u : Str} (h : strrchr c t = some u) :
    strrchr c (s ++ t) = some u := by
  induction s with
  | nil => exact h
  | cons a s ih =>
    rw [List.cons_append, strrchr, ih]

/-- Whatever stands between the prefix and the extension. -/
theorem isHistory_of_parts (config : SilogLogFileConfig) (mid : Str) {ext : Str}
    (hext : ext = dotLog ∨ ext = dotGz) :
    isHistory config (config.logFileBase.chars ++ ['_'] ++ mid ++ ext) = true := by
  have hbase := config.logFileBase.lt
  have hcut : snprintfS 128 (config.logFileBase.chars ++ ['_']) = config.logFileBase.chars ++ ['_'] := by
    apply snprintfS_eq
    rw [List.length_append, List.length_singleton]
    omega
  have hself : strrchr '.' ext = some ext := by rcases hext with rfl | rfl <;> decide
  have hlast := strrchr_append (s := config.logFileBase.chars ++ ['_'] ++ mid) hself
  unfold isHistory
  rw [hcut, hlast, Bool.and_eq_true]
  refine ⟨?_, ?_⟩
  · rw [List.isPrefixOf_iff_prefix, List.append_assoc _ mid]
    exact List.prefix_append _ _
  · rcases hext with rfl | rfl <;> decide

/-- `silog_`, `i` letters and `.log`. -/
def longName (i : Fin 129) : CString 256 where
  chars := keepOne.logFileBase.chars ++ ['_'] ++ List.replicate i 'x' ++ dotLog
  noNul := by
    have hx : ¬ Char.ofNat 0 = 'x' := by decide
    have hfront : Char.ofNat 0 ∉ keepOne.logFileBase.chars ++ ['_'] := by decide
    have hback : Char.ofNat 0 ∉ dotLog := by decide
    simp only [List.mem_append, List.mem_replicate, hx, and_false, or_false, hback] at hfront ⊢
    exact hfront
  lt := by
    rw [List.length_append, List.length_append, List.length_replicate]
    have hfront : (keepOne.logFileBase.chars ++ ['_']).length = 6 := by decide
    have hback : dotLog.length = 4 := rfl
    have := i.isLt
    omega

/-- 129 history files. -/
def manyFiles : List DirEntry := (List.finRange 129).map fun i => ⟨longName i, some 0⟩

theorem manyFiles_names_nodup : (manyFiles.map fun d => d.name.chars).Nodup := by
  unfold manyFiles
  rw [List.map_map]
  refine (List.nodup_finRange 129).map fun i j hij => ?_
  have hlen := congrArg List.length hij
  show i = j
  simp only [Function.comp, longName, List.length_append, List.length_replicate] at hlen
  exact Fin.ext (by omega)

theorem histories_manyFiles : histories keepOne manyFiles = manyFiles := by
  refine List.filter_eq_self.mpr fun d hd => ?_
  obtain ⟨i, _, rfl⟩ := List.mem_map.mp hd
  exact isHistory_of_parts keepOne _ (Or.inl rfl)

/-- Two files are kept although one is the limit. -/
theorem cleanOldFiles_leaves_two :
    (manyFiles.map fun d => d.name.chars).Nodup ∧ (∀ d ∈ manyFiles, d.mtime.isSome) ∧
    (silogFileManagerCleanOldFiles keepOne (some manyFiles) fun _ => noFile).1 = .ok ∧
    keepOne.maxFileCount = 1 ∧
    (historiesLeft keepOne manyFiles
      (silogFileManagerCleanOldFiles keepOne (some manyFiles) fun _ => noFile).2).length = 2 := by
  have hstat : ∀ d ∈ manyFiles, d.mtime.isSome := by
    intro d hd
    obtain ⟨i, _, rfl⟩ := List.mem_map.mp hd
    rfl
  refine ⟨manyFiles_names_nodup, hstat, by rw [cleanOldFiles_eq], rfl, ?_⟩
  rw [length_historiesLeft manyFiles_names_nodup hstat, histories_manyFiles]
  have hlen : manyFiles.length = 129 := by
    unfold manyFiles
    rw [List.length_map, List.length_finRange]
  rw [hlen]
  rfl

/-- Of two files one is left. -/
theorem cleanOldFiles_bounded_iff_twoFiles :
    (historiesLeft keepOne (twoFiles 1 2)
      (silogFileManagerCleanOldFiles keepOne (some (twoFiles 1 2)) fun _ => noFile).2).length ≤ 1 :=
  ((cleanOldFiles_bounded_iff (by decide) (by decide) fun _ => noFile).mpr
    (Or.inl (by decide +kernel))).2

/-! ## Section 3: Names -/

/-- `YYYYMMDD_HHMMSS_mmm` -/
def IsTimestamp (s : Str) : Prop :=
  ∃ date time msec : Str, s = date ++ ['_'] ++ time ++ ['_'] ++ msec ∧
    date.length = 8 ∧ time.length = 6 ∧ msec.length = 3 ∧
    ∀ c ∈ date ++ time ++ msec, c.isDigit = true

/-- The sequence number of a name. -/
def seqSuffix (seq : ℕ) : Str := if seq = 0 then [] else ['_'] ++ Nat.toDigits 10 seq

/-- A name that `SilogFileManagerRotateInternal` gives to a file of `base`, and that it has after
    compression. -/
def OwnName (base name : Str) : Prop :=
  ∃ timestamp seq gz, IsTimestamp timestamp ∧ seq < 10 ∧
    name = base ++ ['_'] ++ timestamp ++ seqSuffix seq ++ dotLog ++ (if gz = true then dotGz else [])

section names
variable {config : SilogLogFileConfig}

theorem IsTimestamp.length {s : Str} (h : IsTimestamp s) : s.length = 19 := by
  obtain ⟨date, time, msec, rfl, hdate, htime, hmsec, _⟩ := h
  simp only [List.length_append, List.length_singleton, hdate, htime, hmsec]

/-- The names of a rotation are such names. -/
theorem ownName_historyPath {timestamp : CString 32} (hts : IsTimestamp timestamp.chars) {seq : ℕ}
    (hseq : seq < 10) :
    ∃ name, historyPath config timestamp seq = config.logDir.chars ++ ['/'] ++ name ∧
      OwnName config.logFileBase.chars name ∧ OwnName config.logFileBase.chars (name ++ dotGz) := by
  refine ⟨config.logFileBase.chars ++ ['_'] ++ timestamp.chars ++ seqSuffix seq ++ dotLog, ?_, ?_, ?_⟩
  · rw [historyPath_eq config timestamp hseq]
    simp only [seqSuffix, List.append_assoc]
  · exact ⟨timestamp.chars, seq, false, hts, hseq, (List.append_nil _).symm⟩
  · exact ⟨timestamp.chars, seq, true, hts, hseq, rfl⟩

/-- The suffix ends in a digit behind an underscore, and so does not look like the end of a
    timestamp. -/
theorem seqSuffix_eq {s s' : Str} {front front' : Str} {seq seq' : ℕ} (hs : IsTimestamp s)
    (hs' : IsTimestamp s') (hseq : seq < 10) (hseq' : seq' < 10)
    (h : front ++ s ++ seqSuffix seq = front' ++ s' ++ seqSuffix seq') :
    front ++ s = front' ++ s' := by
  -- the last character but one is a digit without a suffix and an underscore with one
  have hlast : ∀ (front : Str) {s : Str} {seq : ℕ}, IsTimestamp s → seq < 10 →
      ((front ++ s ++ seqSuffix seq).reverse[1]?).map Char.isDigit = some (decide (seq = 0)) := by
    rintro front _ seq ⟨date, time, msec, rfl, _, _, hmsec, hdigit⟩ hseq
    by_cases hzero : seq = 0
    · obtain ⟨a, b, c, rfl⟩ := List.length_eq_three.mp hmsec
      have hb : b.isDigit = true := hdigit b (by simp)
      simp [seqSuffix, hzero, hb]
    · simp [seqSuffix, hzero, Nat.toDigits_of_lt_base hseq]
  have hiff : seq = 0 ↔ seq' = 0 := by
    have heq := (hlast front hs hseq).symm.trans
      ((congrArg (fun t => (t.reverse[1]?).map Char.isDigit) h).trans (hlast front' hs' hseq'))
    exact decide_eq_decide.mp (Option.some.inj heq)
  have hlen : (seqSuffix seq).length = (seqSuffix seq').length := by
    unfold seqSuffix
    rw [Nat.toDigits_of_lt_base hseq, Nat.toDigits_of_lt_base hseq']
    simp only [hiff]
    split <;> rfl
  exact (List.append_inj' h hlen).1

/-- A name belongs to one base. -/
theorem OwnName.base_eq {base base' name : Str} (h : OwnName base name) (h' : OwnName base' name) :
    base' = base := by
  obtain ⟨ts, seq, gz, hts, hseq, rfl⟩ := h
  obtain ⟨ts', seq', gz', hts', hseq', heq⟩ := h'
  -- the extensions first
  have hext : ∀ {s s' : Str} {gz gz' : Bool}, s ++ dotLog ++ (if gz = true then dotGz else []) =
      s' ++ dotLog ++ (if gz' = true then dotGz else []) → s = s' := by
    intro s s' gz gz' h
    have hgz : gz = gz' := by
      have hlast := congrArg (fun t => t.reverse.head?) h
      cases gz <;> cases gz' <;> simp [dotLog, dotGz] at hlast ⊢
    subst hgz
    exact List.append_cancel_right (List.append_cancel_right h)
  have hfront := seqSuffix_eq hts hts' hseq hseq' (hext heq)
  have hlen : ts.length = ts'.length := hts.length.trans hts'.length.symm
  exact (List.append_cancel_right (List.append_inj' hfront hlen).1).symm

theorem not_ownName_of_length {base name : Str} (h : name.length < base.length + 24) :
    ¬ OwnName base name := by
  rintro ⟨ts, seq, gz, hts, _, rfl⟩
  simp only [List.length_append, hts.length, List.length_singleton] at h
  have hlog : dotLog.length = 4 := rfl
  omega

end names

/-! ## Section 4: What the clean-up touches -/

/-- In whatever order `scandir` lists the names and whatever `stat` says of them, only history files
    of this base are unlinked: not the current file, and no file of another base. -/
def TouchesOwn (config : SilogLogFileConfig) (names : List (CString 256)) : Prop :=
  ∀ (entries : List DirEntry) (mem : ℕ → FileInfo), (entries.map DirEntry.name).Perm names →
    ∀ path ∈ (silogFileManagerCleanOldFiles config (some entries) mem).2,
      path ≠ silogFileManagerGetCurrentPath config ∧
      ∃ name, path = config.logDir.chars ++ ['/'] ++ name ∧
        OwnName config.logFileBase.chars name ∧
        ∀ base, OwnName base name → base = config.logFileBase.chars

/-- The names that the filter takes. -/
def matching (config : SilogLogFileConfig) (names : List (CString 256)) : List (CString 256) :=
  names.filter fun name => isHistory config name.chars

section touches
variable {config : SilogLogFileConfig} {entries : List DirEntry} {names : List (CString 256)}

theorem length_collect_le (config : SilogLogFileConfig)
    (hperm : (entries.map DirEntry.name).Perm names) :
    (collect config entries).length ≤ (matching config names).length := by
  have hmatch : (matching config names).length = (histories config entries).length := by
    unfold matching histories
    rw [← (hperm.filter _).length_eq, List.filter_map, List.length_map]
    rfl
  rw [hmatch]
  unfold collect histories
  rw [List.length_filterMap_eq_countP, ← List.countP_eq_length_filter]
  refine List.countP_mono_left fun d _ hd => ?_
  by_contra hno
  rw [if_pos (Bool.eq_false_of_not_eq_true hno)] at hd
  cases hd

/-- Nothing is deleted if the queue holds at most `maxFileCount` files. -/
theorem cleanOldFiles_nil (mem : ℕ → FileInfo) (hperm : (entries.map DirEntry.name).Perm names)
    (hle : min (matching config names).length 128 ≤ config.maxFileCount.toNat) :
    (silogFileManagerCleanOldFiles config (some entries) mem).2 = [] := by
  obtain ⟨popped, kept, heq, _, hlen⟩ := cleanOldFiles_spec config entries mem
  have hcollect := length_collect_le config hperm
  have hnil : popped = [] := List.eq_nil_of_length_eq_zero (by omega)
  rw [heq, hnil]
  rfl

/-- A name that the filter takes is deleted if it is listed first and is the newest one. -/
theorem foreign_unlinked {foreign : CString 256} (others : List (CString 256))
    (hhist : isHistory config foreign.chars = true)
    (hlt : config.maxFileCount.toNat < min (matching config (foreign :: others)).length 128) :
    config.logDir.chars ++ ['/'] ++ foreign.chars ∈
      (silogFileManagerCleanOldFiles config
        (some (⟨foreign, some 1⟩ :: others.map fun name => ⟨name, some 0⟩)) fun _ => noFile).2 := by
  set entries : List DirEntry := ⟨foreign, some 1⟩ :: others.map fun name => ⟨name, some 0⟩
    with hentries
  set rest := collect config (others.map fun name => ⟨name, some 0⟩) with hrest
  have hcollect : collect config entries =
      ⟨config.logDir.chars ++ ['/'] ++ foreign.chars, 1⟩ :: rest := by
    rw [hentries]
    unfold collect
    simp only [List.filterMap_cons, hhist, Bool.true_eq_false, if_false, Option.map_some,
      entryPath_eq config ⟨foreign, some 1⟩]
    rfl
  have hstat : ∀ d ∈ entries, d.mtime.isSome := by
    intro d hd
    rcases List.mem_cons.mp hd with rfl | hd
    · rfl
    · obtain ⟨name, _, rfl⟩ := List.mem_map.mp hd
      rfl
  have hnames : entries.map DirEntry.name = foreign :: others := by
    rw [hentries, List.map_cons, List.map_map]
    exact congrArg (foreign :: ·) (List.map_id others)
  have hlen : (collect config entries).length = (matching config (foreign :: others)).length := by
    have hpaths := congrArg List.length (collect_paths config hstat)
    rw [List.length_map, List.length_map] at hpaths
    rw [hpaths, ← hnames]
    unfold matching histories
    rw [List.filter_map, List.length_map]
    rfl
  refine newest_unlinked ⟨config.logDir.chars ++ ['/'] ++ foreign.chars, 1⟩ ?_ ?_ ?_
  · rw [hlen]
    exact hlt
  · rw [hcollect]
    exact List.mem_cons_self
  · intro other hother
    rw [hcollect] at hother
    rcases List.mem_cons.mp (List.mem_of_mem_take hother) with hsame | hin
    · exact Or.inl hsame
    · right
      obtain ⟨d, hd, hinfo⟩ := List.mem_filterMap.mp hin
      obtain ⟨name, _, rfl⟩ := List.mem_map.mp hd
      split at hinfo
      · cases hinfo
      · cases hinfo
        exact Int.zero_lt_one

/-- **What the clean-up touches.** It touches history files of its own base only, exactly if the filter
    takes no other names in the directory or there is nothing to delete. -/
theorem touchesOwn_iff (config : SilogLogFileConfig) (names : List (CString 256)) :
    TouchesOwn config names ↔
      (∀ name ∈ names, isHistory config name.chars = true →
        OwnName config.logFileBase.chars name.chars) ∨
      min (matching config names).length 128 ≤ config.maxFileCount.toNat := by
  constructor
  · intro h
    by_contra hnot
    push Not at hnot
    obtain ⟨⟨foreign, hin, hhist, hforeign⟩, hlt⟩ := hnot
    obtain ⟨front, back, rfl⟩ := List.append_of_mem hin
    have hperm : (foreign :: (front ++ back)).Perm (front ++ foreign :: back) :=
      List.perm_middle.symm
    have hcount : (matching config (foreign :: (front ++ back))).length =
        (matching config (front ++ foreign :: back)).length := (hperm.filter _).length_eq
    have hunlinked := foreign_unlinked (front ++ back) hhist (by rw [hcount]; exact hlt)
    refine hforeign ?_
    obtain ⟨_, name, hpath, hown, _⟩ := h _ _ (by
      rw [List.map_cons, List.map_map]
      refine List.Perm.trans ?_ hperm
      rw [show (front ++ back).map (DirEntry.name ∘ fun name => ⟨name, some 0⟩) = front ++ back
        from List.map_id _]) _ hunlinked
    rwa [List.append_cancel_left hpath]
  · rintro (hall | hle) entries mem hperm path hpath
    · obtain ⟨d, hd, hhist, hpathd⟩ := mem_cleanOldFiles hpath
      have hown := hall d.name (hperm.subset (List.mem_map_of_mem hd)) hhist
      refine ⟨fun hcur => currentPath_not_cleaned config (some entries) mem (hcur ▸ hpath), ?_⟩
      exact ⟨d.name.chars, hpathd, hown, fun base hbase => hown.base_eq hbase⟩
    · rw [cleanOldFiles_nil mem hperm hle] at hpath
      cases hpath

end touches

/-! ### A base that continues another one -/

/-- `silog_extra` -/
def extraBase : CString 64 where
  chars := defaultLogFileBase.chars ++ ['_', 'e', 'x', 't', 'r', 'a']
  noNul := by decide
  lt := by decide

/-- The current file of `silog_extra` and an older history file of `silog`, in one directory. -/
def sharedDir : List DirEntry :=
  [{ name := ⟨extraBase.chars ++ dotLog, by decide, by decide⟩, mtime := some 1 },
   { name := ⟨defaultLogFileBase.chars ++ ['_'] ++ newYear.chars ++ dotLog, by decide, by decide⟩
     mtime := some 0 }]

/-- The clean-up of `silog` deletes the file that `silog_extra` writes to. -/
theorem cleanOldFiles_unlinks_other_base :
    (silogFileManagerCleanOldFiles keepOne (some sharedDir) fun _ => noFile).2 =
      [silogFileManagerGetCurrentPath { keepOne with logFileBase := extraBase }] ∧
    ¬ TouchesOwn keepOne (sharedDir.map DirEntry.name) := by
  have hunlinked : (silogFileManagerCleanOldFiles keepOne (some sharedDir) fun _ => noFile).2 =
      [silogFileManagerGetCurrentPath { keepOne with logFileBase := extraBase }] := by
    decide +kernel
  refine ⟨hunlinked, fun h => ?_⟩
  obtain ⟨_, name, hpath, hown, _⟩ := h sharedDir (fun _ => noFile) (List.Perm.refl _)
    (silogFileManagerGetCurrentPath { keepOne with logFileBase := extraBase })
    (by rw [hunlinked]; exact List.mem_singleton_self _)
  -- the name is too short to have a timestamp in it
  have hlen := congrArg List.length hpath
  rw [List.length_append] at hlen
  refine not_ownName_of_length ?_ hown
  have hcur : (silogFileManagerGetCurrentPath { keepOne with logFileBase := extraBase }).length = 26 := by
    decide
  have hdir : (keepOne.logDir.chars ++ ['/']).length = 11 := by decide
  have hbase : keepOne.logFileBase.chars.length = 5 := by decide
  omega

end SiLog.FileManager
