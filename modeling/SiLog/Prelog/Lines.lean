import SiLog.Lib.Lts
import SiLog.Prelog
import SiLog.Securec.Strings

/-! # The lines of the file (`silog_prelog.c`)

    `strncat_s` puts the newline behind the message.  It refuses when the array
    is full, and `SilogPrelogWriteV` does not look at what it returns: the
    record is written without its newline, and the next one follows on the same
    line.
-/

open Lts Printf SiLog.Securec

namespace SiLog.Prelog

/-! ## Section 1: The line -/

section line
variable (errText module : List UInt8) (level : UInt32) (t : List UInt8)

/-- The record in the array: the prefix and the message, which is a string, up to the end of the
    array. -/
def record : List UInt8 := (prefixText errText module level ++ t.takeWhile (· ≠ 0)).take (msgMax - 1)

/-- What is written to the file. -/
def line : List UInt8 :=
  if (record errText module level t).length < msgMax - 1 then record errText module level t ++ ascii "\n"
  else record errText module level t

end line

section line
variable {errText module : List UInt8} {level : UInt32} {t buf rest : List UInt8}

theorem zero_notMem_prefixText (herr : 0 ∉ errText) (hmodule : 0 ∉ module) :
    0 ∉ prefixText errText module level := by
  have hlevel : 0 ∉ silogPrelogLevelToString level := by
    unfold silogPrelogLevelToString
    split <;> decide
  have hopen : 0 ∉ ascii "[" := by decide
  have hnext : 0 ∉ ascii "] [" := by decide
  have hclose : 0 ∉ ascii "] " := by decide
  simp [prefixText, herr, hmodule, hlevel, hopen, hnext, hclose]

/-- The string in the array before the newline. -/
theorem cString_eq_record (hnul : 0 ∉ prefixText errText module level)
    (hbuf : (prefixText errText module level ++ t).take (msgMax - 1) ++ [0] <+: buf) :
    cString buf = some (record errText module level t) := by
  rw [cString_eq hbuf, ← List.take_takeWhile, List.takeWhile_append, takeWhile_of_notMem hnul, if_pos rfl]
  rfl

/-- `strncat_s` and the string that is there afterwards. -/
theorem strncatS_line (hlen : buf.length = msgMax)
    (hrecord : cString buf = some (record errText module level t)) :
    (strncatS (some buf) msgMax (some (ascii "\n")) 1).2.bind cString =
      some (line errText module level t) := by
  have hnewline : 0 ∉ ascii "\n" := by decide
  obtain ⟨buf', heq, _, _, hok, hstring, hfailed⟩ := leaves_append hlen.ge hnewline
  rw [takeWhile_of_cString hrecord, List.length_append, show (ascii "\n").length = 1 from rfl,
    ← Nat.lt_sub_iff_add_lt] at hok
  rw [takeWhile_of_cString hrecord] at hstring
  have hcall : (strncatS (some buf) msgMax (some (ascii "\n")) 1).2 = some buf' := heq
  rw [hcall, Option.bind_some]
  unfold line
  by_cases hroom : (record errText module level t).length < msgMax - 1
  · rw [if_pos hroom]
    exact hstring (hok.mpr hroom)
  · -- the array is full, and stays as it is
    have hsame : buf' = buf := (hfailed fun h => hroom (hok.mp h)).2
    rw [if_neg hroom, hsame]
    exact hrecord

theorem take_prefixText (hshort : prefixLength errText module level < msgMax) :
    (prefixText errText module level).take (msgMax - 1) = prefixText errText module level := by
  apply List.take_of_length_le
  rw [length_prefixText]
  omega

theorem getLast?_prefixText : (prefixText errText module level).getLast? = some 32 := by
  have hend : (ascii "] ").getLast? = some 32 := rfl
  simp [prefixText, List.getLast?_append, hend]

theorem line_ne_nil (errText module : List UInt8) (level : UInt32) (t : List UInt8) :
    line errText module level t ≠ [] := by
  have hlen : (record errText module level t).length ≠ 0 := by
    unfold record
    rw [List.length_take, List.length_append, length_prefixText, prefixLength, msgMax]
    omega
  have hne : record errText module level t ≠ [] := fun h => hlen (congrArg List.length h)
  unfold line
  split
  · exact List.append_ne_nil_of_left_ne_nil hne _
  · exact hne

/-- A line has one newline and ends with it exactly if there is no other newline in it and room for
    this one. -/
theorem line_iff (hshort : prefixLength errText module level < msgMax) (hplain : 10 ∉ t) :
    (line errText module level t).count 10 = 1 ∧ (line errText module level t).getLast? = some 10 ↔
      10 ∉ prefixText errText module level ∧
        prefixLength errText module level + (t.takeWhile (· ≠ 0)).length < msgMax - 1 := by
  have hmessage : 10 ∉ t.takeWhile (· ≠ 0) := fun h => hplain ((List.takeWhile_prefix _).subset h)
  have hlen : (prefixText errText module level ++ t.takeWhile (· ≠ 0)).length =
      prefixLength errText module level + (t.takeWhile (· ≠ 0)).length := by
    rw [List.length_append, length_prefixText]
  by_cases hroom : prefixLength errText module level + (t.takeWhile (· ≠ 0)).length < msgMax - 1
  · have hrecord : record errText module level t = prefixText errText module level ++ t.takeWhile (· ≠ 0) :=
      List.take_of_length_le (by omega)
    have hline : line errText module level t =
        prefixText errText module level ++ t.takeWhile (· ≠ 0) ++ ascii "\n" := by
      unfold line
      rw [hrecord, if_pos (by omega)]
    have hone : (ascii "\n").count 10 = 1 := rfl
    have hlast : (ascii "\n").getLast? = some 10 := rfl
    rw [hline, List.count_append, List.count_append, List.count_eq_zero.mpr hmessage, hone,
      List.getLast?_append, hlast, Option.some_or, and_iff_left rfl, and_iff_left hroom,
      ← List.count_eq_zero]
    omega
  · -- a full array ends with a byte of the message, or with the space behind the prefix
    have hline : line errText module level t =
        prefixText errText module level ++
          (t.takeWhile (· ≠ 0)).take (msgMax - 1 - prefixLength errText module level) := by
      unfold line record
      rw [if_neg (by rw [List.length_take]; omega), List.take_append, take_prefixText hshort,
        length_prefixText]
    refine iff_of_false (fun h => ?_) (fun h => hroom h.2)
    have hlast := h.2
    rw [hline, List.getLast?_append, getLast?_prefixText] at hlast
    cases hmsg : ((t.takeWhile (· ≠ 0)).take (msgMax - 1 - prefixLength errText module level)).getLast? with
    | none =>
      rw [hmsg] at hlast
      exact absurd hlast (by decide)
    | some y =>
      rw [hmsg] at hlast
      obtain rfl : y = 10 := Option.some.inj hlast
      exact hmessage (List.mem_of_mem_take (List.mem_of_getLast? hmsg))

end line

/-! ## Section 2: One call -/

section call
variable {convert : Conversion → List Arg → Option (List UInt8)} {m : SilogPrelogManager}
  {errText module fmt t : List UInt8} {level : UInt32} {args : List Arg}

/-- With a short prefix the second call starts right behind it. -/
theorem messageCall_of_short (buf : Vector UInt8 msgMax)
    (hshort : prefixLength errText module level < msgMax) :
    ∃ rest, messageCall errText module level buf.toList =
        some ⟨prefixLength errText module level, msgMax - prefixLength errText module level,
          prefixText errText module level ++ rest⟩ ∧
      rest.length = msgMax - prefixLength errText module level := by
  have hle : prefixLength errText module level ≤ intMax := by
    unfold msgMax at hshort
    unfold intMax
    omega
  obtain ⟨buf', hcall, hlen, hpre⟩ := messageCall_of_le buf.length_toList hle
  have hsize : sizeT (msgMax - prefixLength errText module level) =
      msgMax - prefixLength errText module level := by
    have hinside : MessageCall.Inside ⟨prefixLength errText module level,
        sizeT (msgMax - prefixLength errText module level), buf'⟩ := inside_iff_lt.mpr hshort
    have hleft := hinside.size
    dsimp only at hleft
    omega
  rw [show 1023 = msgMax - 1 from rfl, take_prefixText hshort] at hpre
  obtain ⟨rest, hrest⟩ := (List.prefix_append _ _).trans hpre
  rw [hsize, ← hrest] at hcall
  refine ⟨rest, hcall, ?_⟩
  rw [← hrest, List.length_append, length_prefixText] at hlen
  omega

/-- The call in the terms of `vsnprintf`. -/
theorem run_behind_prefix {front rest : List UInt8} {n size : ℕ} (hn : front.length = n) (output : Output) :
    MessageCall.run ⟨n, size, front ++ rest⟩ output =
      (vsnprintf rest size output).map fun (msgLen, rest) => (msgLen, front ++ rest) := by
  have hinside : ¬ ((front ++ rest).length : ℤ) < n := by
    rw [List.length_append, hn]
    omega
  unfold MessageCall.run
  simp only [if_neg hinside, Int.toNat_natCast]
  rw [← hn, List.drop_left, List.take_left]

/-- A message that can be formatted: its line is written. -/
theorem silogPrelogWriteV_text (hinit : m.initialized = true) (hlevel : m.config.minLevel ≤ level)
    (hshort : prefixLength errText module level < msgMax) (herr : 0 ∉ errText) (hmodule : 0 ∉ module)
    (htext : vprintf convert fmt args = .text t) (hle : t.length ≤ intMax) (buf : Vector UInt8 msgMax) :
    silogPrelogWriteV convert m errText (some module) level (some fmt) args buf.toList =
      some (.ok, m.puts (line errText module level t)) := by
  obtain ⟨rest, hcall, hrest⟩ := messageCall_of_short buf hshort
  have hsize : msgMax - prefixLength errText module level ≠ 0 := by omega
  have hprint : vsnprintf rest (msgMax - prefixLength errText module level) (.text t) =
      some ((t.length : ℤ), store rest (t.take (msgMax - prefixLength errText module level - 1))) := by
    simp only [vsnprintf, if_neg (not_lt.mpr hle), if_neg hsize]
  rw [silogPrelogWriteV_eq hcall convert fmt args hinit hlevel, htext,
    run_behind_prefix (length_prefixText errText module level), hprint]
  have hnot : ¬ (t.length : ℤ) < 0 := by omega
  simp only [Option.map_some, Option.bind_some, SilogPrelogManager.finish, if_neg hnot]
  rw [strncatS_line]
  · rfl
  · rw [List.length_append, length_prefixText, length_store, hrest]
    · omega
    · have hcut : (t.take (msgMax - prefixLength errText module level - 1)).length ≤ _ :=
        List.length_take_le _ t
      omega
  · apply cString_eq_record (zero_notMem_prefixText herr hmodule)
    rw [List.take_append, take_prefixText hshort, length_prefixText, List.append_assoc, Nat.sub_right_comm]
    exact (List.prefix_append_right_inj _).mpr (List.prefix_append _ _)

/-- Any other message is an error, and nothing is written. -/
theorem silogPrelogWriteV_fails (hinit : m.initialized = true) (hlevel : m.config.minLevel ≤ level)
    (hshort : prefixLength errText module level < msgMax)
    (hfail : ∀ t, vprintf convert fmt args = .text t → intMax < t.length) (buf : Vector UInt8 msgMax)
    {code : ErrorCode} {m' : SilogPrelogManager}
    (h : silogPrelogWriteV convert m errText (some module) level (some fmt) args buf.toList =
      some (code, m')) :
    code = .strErr ∧ m' = m := by
  obtain ⟨rest, hcall, hrest⟩ := messageCall_of_short buf hshort
  rw [silogPrelogWriteV_eq hcall convert fmt args hinit hlevel,
    run_behind_prefix (length_prefixText errText module level)] at h
  cases hout : vprintf convert fmt args with
  | undefined =>
    rw [hout] at h
    cases h
  | failed =>
    rw [hout] at h
    cases h
    exact ⟨rfl, rfl⟩
  | text t =>
    rw [hout, vsnprintf, if_pos (hfail t hout)] at h
    cases h
    exact ⟨rfl, rfl⟩

end call

/-! ## Section 3: Whole runs

    The lock puts the calls of all threads in an order. -/

/-- A call of `SilogPrelogWrite` with a prefix that fits into the array and a message without
    a newline. -/
structure WriteCall (convert : Conversion → List Arg → Option (List UInt8)) where
  errText       : List UInt8
  module        : Option (List UInt8)
  level         : UInt32
  fmt           : Option (List UInt8)
  args          : List Arg
  buf           : Vector UInt8 msgMax
  errText_nul   : 0 ∉ errText
  module_nul    : ∀ text ∈ module, 0 ∉ text
  prefix_short  : ∀ text ∈ module, prefixLength errText text level < msgMax
  message_plain : ∀ f ∈ fmt, ∀ t, vprintf convert f args = .text t → 10 ∉ t

/-- The manager, and the number of records that were written. -/
@[ext]
structure Written where
  manager : SilogPrelogManager
  records : ℕ

section runs
variable (convert : Conversion → List Arg → Option (List UInt8))

/-- The call gets past the checks and the level filter. -/
def Passes (m : SilogPrelogManager) (c : WriteCall convert) : Prop :=
  c.module.isSome ∧ c.fmt.isSome ∧ m.initialized = true ∧ m.config.minLevel ≤ c.level

instance (m : SilogPrelogManager) (c : WriteCall convert) : Decidable (Passes convert m c) := by
  unfold Passes
  infer_instance

/-- A call that returns; it counts if it passes and returns `SILOG_OK`. -/
def Writes (s : Written) (c : WriteCall convert) (s' : Written) : Prop :=
  ∃ code, silogPrelogWriteV convert s.manager c.errText c.module c.level c.fmt c.args c.buf.toList =
      some (code, s'.manager) ∧
    s'.records = if Passes convert s.manager c ∧ code = .ok then s.records + 1 else s.records

/-- There is a newline for each record, and the last one ends the file. -/
def OneLineEach (s : Written) : Prop :=
  ∃ file, s.manager.file = some file ∧ file.count 10 = s.records ∧
    (0 < s.records → file.getLast? = some 10)

/-- If the call writes a record, then there is no newline in its prefix, and prefix, message and
    newline are shorter than the array. -/
def Fits (s : Written) (c : WriteCall convert) : Prop :=
  Passes convert s.manager c → ∀ module ∈ c.module, ∀ fmt ∈ c.fmt, ∀ t,
    vprintf convert fmt c.args = .text t → t.length ≤ intMax →
      10 ∉ prefixText c.errText module c.level ∧
        prefixLength c.errText module c.level + (t.takeWhile (· ≠ 0)).length + 1 < msgMax

end runs

section runs
variable {convert : Conversion → List Arg → Option (List UInt8)} {s s' : Written} {c : WriteCall convert}

theorem silogPrelogWriteV_blocked {code : ErrorCode} {m m' : SilogPrelogManager}
    (hpass : ¬ Passes convert m c)
    (h : silogPrelogWriteV convert m c.errText c.module c.level c.fmt c.args c.buf.toList =
      some (code, m')) : m' = m := by
  unfold silogPrelogWriteV at h
  split at h
  next hmodule hfmt =>
    split at h
    · cases h
      rfl
    next hinit =>
      split at h
      · cases h
        rfl
      next hlevel =>
        refine absurd ⟨?_, ?_, by simpa using hinit, UInt32.not_lt.mp hlevel⟩ hpass
        · rw [hmodule]
          rfl
        · rw [hfmt]
          rfl
  next =>
    cases h
    rfl

/-- A call writes the line of its message, or nothing. -/
theorem Writes.cases (h : Writes convert s c s') :
    (s' = s ∧ Fits convert s c) ∨
    ∃ module fmt t, c.module = some module ∧ c.fmt = some fmt ∧ Passes convert s.manager c ∧
      vprintf convert fmt c.args = .text t ∧ t.length ≤ intMax ∧
      s' = ⟨s.manager.puts (line c.errText module c.level t), s.records + 1⟩ := by
  obtain ⟨code, hwrite, hrecords⟩ := h
  by_cases hpass : Passes convert s.manager c
  · have ⟨hsome, hsome', hinit, hlevel⟩ := hpass
    obtain ⟨module, hmodule⟩ := Option.isSome_iff_exists.mp hsome
    obtain ⟨fmt, hfmt⟩ := Option.isSome_iff_exists.mp hsome'
    have hshort := c.prefix_short module hmodule
    rw [hmodule, hfmt] at hwrite
    by_cases htext : ∃ t, vprintf convert fmt c.args = .text t ∧ t.length ≤ intMax
    · obtain ⟨t, htext, hle⟩ := htext
      have hline := silogPrelogWriteV_text hinit hlevel hshort c.errText_nul (c.module_nul module hmodule)
        htext hle c.buf
      rw [hline] at hwrite
      obtain ⟨rfl, hmanager⟩ := Prod.mk.inj (Option.some.inj hwrite)
      rw [if_pos ⟨hpass, rfl⟩] at hrecords
      exact Or.inr ⟨module, fmt, t, hmodule, hfmt, hpass, htext, hle, Written.ext hmanager.symm hrecords⟩
    · have hlong : ∀ t, vprintf convert fmt c.args = .text t → intMax < t.length :=
        fun t ht => not_le.mp fun hle => htext ⟨t, ht, hle⟩
      obtain ⟨rfl, hmanager⟩ := silogPrelogWriteV_fails hinit hlevel hshort hlong c.buf hwrite
      rw [if_neg (fun h => ErrorCode.noConfusion h.2)] at hrecords
      refine Or.inl ⟨Written.ext hmanager hrecords, fun _ module' _ fmt' hfmt' t ht hle => ?_⟩
      obtain rfl : fmt = fmt' := Option.some.inj (hfmt.symm.trans hfmt')
      exact absurd hle (not_le.mpr (hlong t ht))
  · rw [if_neg (fun h => hpass h.1)] at hrecords
    exact Or.inl ⟨Written.ext (silogPrelogWriteV_blocked hpass hwrite) hrecords, fun h => absurd h hpass⟩

/-- One call keeps the lines apart exactly if it fits. -/
theorem Writes.oneLineEach_iff (h : Writes convert s c s') (hs : OneLineEach s) :
    OneLineEach s' ↔ Fits convert s c := by
  obtain ⟨file, hfile, hcount, hlast⟩ := hs
  rcases h.cases with ⟨rfl, hfits⟩ | ⟨module, fmt, t, hmodule, hfmt, hpass, htext, hle, rfl⟩
  · exact iff_of_true ⟨file, hfile, hcount, hlast⟩ hfits
  · have hiff := line_iff (c.prefix_short module hmodule) (c.message_plain fmt hfmt t htext)
    have hfits : Fits convert s c ↔ 10 ∉ prefixText c.errText module c.level ∧
        prefixLength c.errText module c.level + (t.takeWhile (· ≠ 0)).length < msgMax - 1 := by
      constructor
      · intro hfits
        obtain ⟨hplain, hroom⟩ := hfits hpass module hmodule fmt hfmt t htext hle
        exact ⟨hplain, by omega⟩
      · rintro ⟨hplain, hroom⟩ _ module' hmodule' fmt' hfmt' t' ht' _
        obtain rfl : module = module' := Option.some.inj (hmodule.symm.trans hmodule')
        obtain rfl : fmt = fmt' := Option.some.inj (hfmt.symm.trans hfmt')
        obtain rfl : t = t' := Output.text.inj (htext.symm.trans ht')
        exact ⟨hplain, by omega⟩
    rw [hfits, ← hiff]
    -- the file before the call has a newline for each record, so only the new line counts
    have hfile' : (s.manager.puts (line c.errText module c.level t)).file =
        some (file ++ line c.errText module c.level t) := by
      unfold SilogPrelogManager.puts
      rw [hfile]
      rfl
    have hne := line_ne_nil c.errText module c.level t
    constructor
    · rintro ⟨file', heq, hcount', hlast'⟩
      obtain rfl := Option.some.inj (hfile'.symm.trans heq)
      rw [List.count_append, hcount] at hcount'
      rw [List.getLast?_append_of_ne_nil _ hne] at hlast'
      exact ⟨Nat.add_left_cancel hcount', hlast' (Nat.succ_pos _)⟩
    · rintro ⟨hone, hend⟩
      refine ⟨_, hfile', ?_, fun _ => ?_⟩
      · rw [List.count_append, hcount, hone]
      · rw [List.getLast?_append_of_ne_nil _ hne, hend]

/-- **One line for each record.** After `SilogPrelogInit` has opened the file, a run of calls has a
    newline for each record in every state that it reaches exactly if every call fits. -/
theorem records_on_lines_iff {opens : List UInt8 → Bool} {m : SilogPrelogManager}
    {config : Option SilogPrelogConfig} (hnew : m.initialized = false)
    (hopens : opens (config.getD defaultConfig).path = true) (calls : List (WriteCall convert))
    (s' : Written) :
    Steps (Ensuring (Writes convert) OneLineEach) ⟨(silogPrelogInit opens m config).2, 0⟩ calls s' ↔
      Steps (Guarded (Writes convert) (Fits convert)) ⟨(silogPrelogInit opens m config).2, 0⟩ calls s' := by
  have hfile : (silogPrelogInit opens m config).2.file = some [] := by
    unfold silogPrelogInit
    simp only [hnew, Bool.false_eq_true, if_false, hopens, if_true]
  have hstart : OneLineEach ⟨(silogPrelogInit opens m config).2, 0⟩ :=
    ⟨[], hfile, rfl, fun h => absurd h (Nat.lt_irrefl 0)⟩
  exact ensuring_iff_guarded (I := fun _ => True) trivial hstart (fun _ _ _ _ _ _ _ => trivial)
    fun _ _ _ h _ hs => h.oneLineEach_iff hs

end runs

/-- `SilogPrelogWrite("daemon", SILOG_PRELOG_LEVEL_ERROR, t)`, for a text `t` without directives. -/
def daemonCall (t : List UInt8) (hpercent : 37 ∉ t) (hplain : 10 ∉ t) : WriteCall convertPlain where
  errText := ascii "Success"
  module := some (ascii "daemon")
  level := 3
  fmt := some t
  args := []
  buf := Vector.replicate msgMax 0
  errText_nul := by decide
  module_nul := by
    rintro _ ⟨⟩
    decide
  prefix_short := by
    rintro _ ⟨⟩
    decide
  message_plain := by
    rintro _ ⟨⟩ u hu
    rw [vprintf_of_no_percent _ hpercent] at hu
    cases hu
    exact hplain

theorem daemonCall_writes {t : List UInt8} (hpercent : 37 ∉ t) (hplain : 10 ∉ t) (hle : t.length ≤ intMax)
    {s : Written} (hinit : s.manager.initialized = true) (hlevel : s.manager.config.minLevel ≤ 3) :
    Writes convertPlain s (daemonCall t hpercent hplain)
      ⟨s.manager.puts (line (ascii "Success") (ascii "daemon") 3 t), s.records + 1⟩ := by
  have hpass : Passes convertPlain s.manager (daemonCall t hpercent hplain) := ⟨rfl, rfl, hinit, hlevel⟩
  refine ⟨.ok, ?_, (if_pos ⟨hpass, rfl⟩).symm⟩
  exact silogPrelogWriteV_text hinit hlevel ((daemonCall t hpercent hplain).prefix_short _ rfl)
    (daemonCall t hpercent hplain).errText_nul ((daemonCall t hpercent hplain).module_nul _ rfl)
    (vprintf_of_no_percent _ hpercent []) hle _

/-- Before `SilogPrelogInit(NULL)`. -/
def fresh : SilogPrelogManager := { started with file := none, initialized := false }

/-- The same message twice. -/
theorem daemonCall_twice {t : List UInt8} (hpercent : 37 ∉ t) (hplain : 10 ∉ t) (hle : t.length ≤ intMax) :
    ∃ s', Steps (Writes convertPlain) ⟨(silogPrelogInit (fun _ => true) fresh none).2, 0⟩
        [daemonCall t hpercent hplain, daemonCall t hpercent hplain] s' ∧
      s'.records = 2 ∧
      s'.manager.file = some (line (ascii "Success") (ascii "daemon") 3 t ++
        line (ascii "Success") (ascii "daemon") 3 t) := by
  have hlevel : defaultConfig.minLevel ≤ 3 := by decide
  have hinit : (silogPrelogInit (fun _ => true) fresh none).2.initialized = true := rfl
  have hfirst := daemonCall_writes hpercent hplain hle (s := ⟨_, 0⟩) hinit hlevel
  have hsecond := daemonCall_writes hpercent hplain hle (s := ⟨_, 1⟩)
    (show ((silogPrelogInit (fun _ => true) fresh none).2.puts
      (line (ascii "Success") (ascii "daemon") 3 t)).initialized = true from rfl) hlevel
  exact ⟨_, Steps.cons _ _ hfirst (Steps.single hsecond), rfl, rfl⟩

theorem records_on_lines_iff_daemon :
    ∃ s', Steps (Ensuring (Writes convertPlain) OneLineEach)
        ⟨(silogPrelogInit (fun _ => true) fresh none).2, 0⟩
        [daemonCall (ascii "bind failed") (by decide) (by decide),
          daemonCall (ascii "bind failed") (by decide) (by decide)] s' ∧ s'.records = 2 := by
  have hpercent : 37 ∉ ascii "bind failed" := by decide
  have hplain : 10 ∉ ascii "bind failed" := by decide
  obtain ⟨s', hsteps, hrecords, _⟩ := daemonCall_twice hpercent hplain (by decide)
  refine ⟨s', (records_on_lines_iff rfl rfl _ s').mpr ?_, hrecords⟩
  apply hsteps.guarded_of_forall
  intro c hc s
  obtain rfl : c = daemonCall (ascii "bind failed") hpercent hplain := by simpa using hc
  rintro _ _ ⟨⟩ _ ⟨⟩ t htext _
  have hout : vprintf convertPlain (ascii "bind failed") [] = .text (ascii "bind failed") :=
    vprintf_of_no_percent _ hpercent []
  obtain rfl : ascii "bind failed" = t := Output.text.inj (hout.symm.trans htext)
  exact show 10 ∉ prefixText (ascii "Success") (ascii "daemon") 3 ∧
    prefixLength (ascii "Success") (ascii "daemon") 3 +
      ((ascii "bind failed").takeWhile (· ≠ 0)).length + 1 < msgMax by decide

/-- A message of 1100 bytes, twice: two records, and no newline in the file. -/
theorem long_records_run_together :
    ∃ (hpercent : 37 ∉ List.replicate 1100 (120 : UInt8)) (hplain : 10 ∉ List.replicate 1100 (120 : UInt8))
      (s' : Written) (file : List UInt8),
      Steps (Writes convertPlain) ⟨(silogPrelogInit (fun _ => true) fresh none).2, 0⟩
        [daemonCall _ hpercent hplain, daemonCall _ hpercent hplain] s' ∧
      s'.records = 2 ∧ s'.manager.file = some file ∧ file.count 10 = 0 ∧ ¬ OneLineEach s' := by
  have hpercent : 37 ∉ List.replicate 1100 (120 : UInt8) := fun h => by cases List.eq_of_mem_replicate h
  have hplain : 10 ∉ List.replicate 1100 (120 : UInt8) := fun h => by cases List.eq_of_mem_replicate h
  have hle : (List.replicate 1100 (120 : UInt8)).length ≤ intMax := by
    rw [List.length_replicate]
    decide
  obtain ⟨s', hsteps, hrecords, hfile⟩ := daemonCall_twice hpercent hplain hle
  have hnone : (line (ascii "Success") (ascii "daemon") 3 (List.replicate 1100 120)).count 10 = 0 := by
    have hnul : 0 ∉ List.replicate 1100 (120 : UInt8) := fun h => by cases List.eq_of_mem_replicate h
    have hfull : ¬ ((prefixText (ascii "Success") (ascii "daemon") 3 ++ List.replicate 1100 120).take
        (msgMax - 1)).length < msgMax - 1 := by
      rw [List.length_take, List.length_append, List.length_replicate, msgMax]
      omega
    unfold line record
    rw [takeWhile_of_notMem hnul, if_neg hfull, List.count_eq_zero]
    intro h
    rcases List.mem_append.mp (List.mem_of_mem_take h) with h | h
    · exact absurd h (by decide)
    · exact hplain h
  refine ⟨hpercent, hplain, s', _, hsteps, hrecords, hfile, ?_, ?_⟩
  · rw [List.count_append, hnone]
  · rintro ⟨file, hfile', hcount, _⟩
    obtain rfl := Option.some.inj (hfile.symm.trans hfile')
    rw [List.count_append, hnone, hrecords] at hcount
    exact absurd hcount (by decide)

end SiLog.Prelog
