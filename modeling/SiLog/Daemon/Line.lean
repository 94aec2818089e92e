import SiLog.Entry
import SiLog.Securec

/-! # The lines of the log file

    The write thread of the daemon formats every entry into a line and hands
    the line to the file manager.  The line is built in an array of 512 bytes,
    which is enough: the widest entry takes 441 bytes, so nothing is cut off,
    and the number that `snprintf_s` returns is that of the bytes written.
-/

open Printf SiLog.Securec

namespace SiLog.Daemon.Line

/-! ## Section 1: The time (`silog_time.c`) -/

/-- The fields of `struct tm` that are printed. -/
structure Tm where
  year : Int32
  mon  : Int32
  mday : Int32
  hour : Int32
  min  : Int32
  sec  : Int32

def timeFormat : List UInt8 := ascii "%04d-%02d-%02d %02d:%02d:%02d.%04u"

def timeArgs (tm : Tm) (msec : UInt32) : List Arg :=
  [.int (tm.year + 1900).toInt, .int (tm.mon + 1).toInt, .int tm.mday.toInt, .int tm.hour.toInt,
   .int tm.min.toInt, .int tm.sec.toInt, .int msec.toNat]

/-- `SilogFormatWallClockMs` with the outcomes of `localtime_r`: the buffer afterwards.  `none`
    inside is a NULL pointer, and outside undefined behaviour. -/
def silogFormatWallClockMs (localtimeR : Int64 → Option Tm) (inputMs : UInt64)
    (buffer : Option (List UInt8)) (bufferLen : UInt32) : Option (Option (List UInt8)) :=
  match buffer with
  | none => some none
  | some buffer =>
    if bufferLen = 0 then some (some buffer)
    else
      let buffer := buffer.set 0 0
      let sec64 := inputMs / 1000
      let msec := (inputMs % 1000).toUInt32
      -- `INT64_MAX`
      if 0x7FFFFFFFFFFFFFFF < sec64 then some (some buffer)
      else
        match localtimeR sec64.toInt64 with
        | none => some (some buffer)
        | some tm =>
          (snprintfS convertPlain (some buffer) bufferLen.toNat (bufferLen - 1).toNat (some timeFormat)
            (timeArgs tm msec)).map fun (n, buffer) =>
              if n < 0 then buffer.map (·.set (bufferLen - 1).toNat 0) else buffer

/-! ## Section 2: The level (`silog_utils.c`) -/

def levelNames : List (List UInt8) :=
  [ascii "DEBUG", ascii "INFO", ascii "WARN", ascii "ERROR", ascii "FATAL"]

/-- `SilogUtilsLevelToName` -/
def silogUtilsLevelToName (level : UInt32) : List UInt8 :=
  levelNames.getD level.toNat (ascii "UNKNOWN")

/-! ## Section 3: The line -/

def lineFormat : List UInt8 := ascii "[%s][%s][pid:%d tid:%d][%s][%s:%u] %s\n"

def lineArgs (time tag file msg : List UInt8) (entry : LogEntry) : List Arg :=
  [.str time, .str (silogUtilsLevelToName entry.level), .int entry.pid.toInt, .int entry.tid.toInt,
   .str tag, .str file, .int entry.line.toNat, .str msg]

/-- `TIME_BUF_SIZE` -/
def timeBufSize : UInt32 := 32

/-- `LOG_MSG_BUF_SIZE` -/
def logMsgBufSize : ℕ := 512

/-- The part of `SilogDaemonWriteThreadFunc` from an entry to the bytes for
    `SilogFileManagerWriteRaw`; `none` inside is an entry that is skipped, and outside undefined
    behaviour, such as reading past the end of an array. -/
def silogDaemonWriteThreadFormat (localtimeR : Int64 → Option Tm) (entry : LogEntry)
    (timebuf logbuf : List UInt8) : Option (Option (List UInt8)) := do
  let timebuf ← silogFormatWallClockMs localtimeR entry.ts (some timebuf) timeBufSize
  let time ← timebuf.bind cString
  let tag ← cString entry.tag.toList
  let file ← cString entry.file.toList
  let msg ← cString entry.msg.toList
  let (len, logbuf) ← snprintfS convertPlain (some logbuf) logMsgBufSize (logMsgBufSize - 1)
    (some lineFormat) (lineArgs time tag file msg entry)
  if len < 0 then return none
  else
    let len := if logMsgBufSize < len then (logMsgBufSize : ℤ) else len
    return logbuf.map (·.take len.toNat)

/-- The line of an entry. -/
def lineText (time tag file msg : List UInt8) (entry : LogEntry) : List UInt8 :=
  [ascii "[", time, ascii "][", silogUtilsLevelToName entry.level, ascii "][pid:",
   integer 0 entry.pid.toInt, ascii " tid:", integer 0 entry.tid.toInt, ascii "][", tag, ascii "][",
   file, ascii ":", integer 0 entry.line.toNat, ascii "] ", msg, ascii "\n"].flatten

theorem vprintf_line (time tag file msg : List UInt8) (entry : LogEntry) :
    vprintf convertPlain lineFormat (lineArgs time tag file msg entry) =
      .text (lineText time tag file msg entry) := rfl

/-! ## Section 4: The parts of the line -/

theorem levelToName_mem (level : UInt32) :
    silogUtilsLevelToName level ∈ ascii "UNKNOWN" :: levelNames := by
  unfold silogUtilsLevelToName
  rw [List.getD_eq_getElem?_getD]
  cases hname : levelNames[level.toNat]? with
  | none => exact List.mem_cons_self
  | some name => exact List.mem_cons_of_mem _ (List.mem_of_getElem? hname)

theorem levelToName_spec (level : UInt32) :
    (silogUtilsLevelToName level).length ≤ 7 ∧ 0 ∉ silogUtilsLevelToName level := by
  have hall : ∀ name ∈ ascii "UNKNOWN" :: levelNames, name.length ≤ 7 ∧ 0 ∉ name := by
    decide +kernel
  exact hall _ (levelToName_mem level)

theorem length_pid_le (pid : Int32) : (integer 0 pid.toInt).length ≤ 11 := by
  have hlow := pid.le_toInt
  have hhigh := pid.toInt_lt
  have hlen := length_integer_le (z := pid.toInt) (k := 10) (by decide) (by omega)
  split at hlen <;> omega

theorem length_line_le (line : UInt32) : (integer 0 line.toNat).length ≤ 10 := by
  have hlt := line.toNat_lt
  have hlen := length_integer_le (z := line.toNat) (k := 10) (by decide) (by omega)
  rw [if_neg (by omega)] at hlen
  exact hlen

def timeText (year mon mday hour min sec msec : ℤ) : List UInt8 :=
  [integer 4 year, ascii "-", integer 2 mon, ascii "-", integer 2 mday, ascii " ", integer 2 hour,
   ascii ":", integer 2 min, ascii ":", integer 2 sec, ascii ".", integer 4 msec].flatten

theorem vprintf_time (year mon mday hour min sec msec : ℤ) :
    vprintf convertPlain timeFormat
      [.int year, .int mon, .int mday, .int hour, .int min, .int sec, .int msec] =
      .text (timeText year mon mday hour min sec msec) := rfl

theorem zero_notMem_timeText (year mon mday hour min sec msec : ℤ) :
    0 ∉ timeText year mon mday hour min sec msec := by
  have hdash : 0 ∉ ascii "-" := by decide
  have hspace : 0 ∉ ascii " " := by decide
  have hcolon : 0 ∉ ascii ":" := by decide
  have hdot : 0 ∉ ascii "." := by decide
  simp [timeText, zero_notMem_integer, hdash, hspace, hcolon, hdot]

/-- The time is a string in its buffer, whatever `localtime_r` does. -/
theorem formatWallClockMs_cString (localtimeR : Int64 → Option Tm) (inputMs : UInt64)
    {timebuf : List UInt8} (hlen : timebuf.length = 32) :
    ∃ timebuf' time, silogFormatWallClockMs localtimeR inputMs (some timebuf) timeBufSize =
        some (some timebuf') ∧
      timebuf'.length = 32 ∧ cString timebuf' = some time := by
  have hset : (timebuf.set 0 0).length = 31 + 1 := by rw [List.length_set, hlen]
  -- the buffer starts with a NUL unless the time is printed
  have hempty : cString (timebuf.set 0 0) = some [] := by
    obtain ⟨b, rest, rfl⟩ := List.exists_cons_of_length_eq_add_one hlen
    exact cString_of_prefix (List.prefix_append [0] rest) List.not_mem_nil
  unfold silogFormatWallClockMs
  dsimp only
  rw [if_neg (by decide)]
  split
  · exact ⟨_, [], rfl, hset, hempty⟩
  · cases localtimeR (inputMs / 1000).toInt64 with
    | none => exact ⟨_, [], rfl, hset, hempty⟩
    | some tm =>
      obtain ⟨n, timebuf', time, heq, hlen', hpre, hle, hnul⟩ :=
        snprintfS_string (vprintf_time (tm.year + 1900).toInt (tm.mon + 1).toInt tm.mday.toInt
          tm.hour.toInt tm.min.toInt tm.sec.toInt (inputMs % 1000).toUInt32.toNat)
          (zero_notMem_timeText _ _ _ _ _ _ _) hset
      refine ⟨if n < 0 then timebuf'.set 31 0 else timebuf', time, ?_, ?_, ?_⟩
      · refine (congrArg (Option.map _) heq).trans ?_
        rw [Option.map_some]
        split <;> rfl
      · split
        · rw [List.length_set, hlen']
        · exact hlen'
      · split
        · exact cString_of_prefix (prefix_set hpre hle) hnul
        · exact cString_of_prefix hpre hnul

/-! ## Section 5: The whole line -/

section line
variable {time tag file msg : List UInt8} {e : LogEntry}

/-- The widest line: the parts at their widest and 22 bytes between them. -/
theorem length_lineText (htime : time.length ≤ 31) (htag : tag.length ≤ 31) (hfile : file.length ≤ 63)
    (hmsg : msg.length ≤ 255) : (lineText time tag file msg e).length ≤ 441 := by
  have hlevel := (levelToName_spec e.level).1
  have hpid := length_pid_le e.pid
  have htid := length_pid_le e.tid
  have hline := length_line_le e.line
  simp only [lineText, List.flatten_cons, List.flatten_nil, List.length_append, List.length_nil,
    show (ascii "[").length = 1 from rfl, show (ascii "][").length = 2 from rfl,
    show (ascii "][pid:").length = 6 from rfl, show (ascii " tid:").length = 5 from rfl,
    show (ascii ":").length = 1 from rfl, show (ascii "] ").length = 2 from rfl,
    show (ascii "\n").length = 1 from rfl, ← Nat.add_assoc]
  omega

theorem zero_notMem_lineText (htime : 0 ∉ time) (htag : 0 ∉ tag) (hfile : 0 ∉ file) (hmsg : 0 ∉ msg) :
    0 ∉ lineText time tag file msg e := by
  have hlevel := (levelToName_spec e.level).2
  have hbetween : ∀ piece ∈ [ascii "[", ascii "][", ascii "][pid:", ascii " tid:", ascii ":",
      ascii "] ", ascii "\n"], 0 ∉ piece := by
    decide
  simp only [List.mem_cons, List.not_mem_nil, or_false, forall_eq_or_imp, forall_eq] at hbetween
  obtain ⟨h₁, h₂, h₃, h₄, h₅, h₆, h₇⟩ := hbetween
  simp [lineText, htime, htag, hfile, hmsg, hlevel, zero_notMem_integer, h₁, h₂, h₃, h₄, h₅, h₆, h₇]

theorem getLast_lineText : (lineText time tag file msg e).getLast? = some 10 := by
  have hend : ascii "\n" = [10] := rfl
  simp [lineText, hend]

/-- An infix of a list of pieces. -/
theorem infix_flatten {pieces : List (List UInt8)} {piece : List UInt8} (h : piece ∈ pieces) :
    piece <:+: pieces.flatten := by
  obtain ⟨front, back, rfl⟩ := List.append_of_mem h
  exact ⟨front.flatten, back.flatten, by simp⟩

end line

/-- The arrays of the entry hold strings. -/
structure Terminated (e : LogEntry) : Prop where
  tag  : 0 ∈ e.tag.toList
  file : 0 ∈ e.file.toList
  msg  : 0 ∈ e.msg.toList

theorem cString_vector {n : ℕ} {v : Vector UInt8 (n + 1)} (h : 0 ∈ v.toList) :
    ∃ t, cString v.toList = some t ∧ t.length ≤ n ∧ 0 ∉ t := by
  have hsome : cString v.toList = some (v.toList.takeWhile (· ≠ 0)) := if_pos h
  obtain ⟨hlt, hnul⟩ := cString_eq_some hsome
  rw [Vector.length_toList] at hlt
  exact ⟨_, hsome, Nat.le_of_lt_succ hlt, hnul⟩

/-- **Lines are whole.** For every entry with terminated arrays and whatever `localtime_r` does,
    the bytes that the write thread hands to the file manager are the whole formatted text, which
    has at most 511 bytes: it contains the tag, the file and the message, ends with a newline and
    has no NUL. -/
theorem writeThread_line_whole (localtimeR : Int64 → Option Tm) {e : LogEntry} (he : Terminated e)
    (timebuf : Vector UInt8 32) (logbuf : Vector UInt8 512) :
    ∃ timebuf' time tag file msg line,
      silogFormatWallClockMs localtimeR e.ts (some timebuf.toList) timeBufSize = some (some timebuf') ∧
      cString timebuf' = some time ∧ cString e.tag.toList = some tag ∧
      cString e.file.toList = some file ∧ cString e.msg.toList = some msg ∧
      vprintf convertPlain lineFormat (lineArgs time tag file msg e) = .text line ∧
      line.length ≤ 511 ∧
      silogDaemonWriteThreadFormat localtimeR e timebuf.toList logbuf.toList = some (some line) ∧
      tag <:+: line ∧ file <:+: line ∧ msg <:+: line ∧ line.getLast? = some 10 ∧ 0 ∉ line := by
  obtain ⟨timebuf', time, hformat, htimelen, htime⟩ :=
    formatWallClockMs_cString localtimeR e.ts (timebuf.length_toList)
  obtain ⟨tag, htag, htaglen, htagnul⟩ := cString_vector he.tag
  obtain ⟨file, hfile, hfilelen, hfilenul⟩ := cString_vector he.file
  obtain ⟨msg, hmsg, hmsglen, hmsgnul⟩ := cString_vector he.msg
  obtain ⟨htimelt, htimenul⟩ := cString_eq_some htime
  have hlen : (lineText time tag file msg e).length ≤ 441 :=
    length_lineText (by omega) htaglen hfilelen hmsglen
  obtain ⟨logbuf', hsnprintf, hlen', hpre⟩ := snprintfS_text (n := 511)
    (vprintf_line time tag file msg e) (logbuf.length_toList) (hlen.trans (by decide))
  refine ⟨timebuf', time, tag, file, msg, lineText time tag file msg e, hformat, htime, htag, hfile,
    hmsg, vprintf_line time tag file msg e, hlen.trans (by decide), ?_, ?_, ?_, ?_, getLast_lineText,
    zero_notMem_lineText htimenul htagnul hfilenul hmsgnul⟩
  · -- the returned length is below the size, so the clamp does nothing
    have htake : logbuf'.take (lineText time tag file msg e).length = lineText time tag file msg e := by
      rw [List.take_of_length_le (hlen.trans (by decide))] at hpre
      obtain ⟨rest, rfl⟩ := hpre
      rw [List.append_assoc, List.take_left]
    have hsnprintf' : snprintfS convertPlain (some logbuf.toList) logMsgBufSize (logMsgBufSize - 1)
        (some lineFormat) (lineArgs time tag file msg e) =
        some (((lineText time tag file msg e).length : ℤ), some logbuf') := hsnprintf
    have hnot : ¬ ((lineText time tag file msg e).length : ℤ) < 0 := by omega
    have hclamp : ¬ (logMsgBufSize : ℤ) < (lineText time tag file msg e).length := by
      unfold logMsgBufSize
      omega
    unfold silogDaemonWriteThreadFormat
    simp only [hformat, htime, htag, hfile, hmsg, hsnprintf', Option.bind_eq_bind, Option.bind_some,
      if_neg hnot, if_neg hclamp, Int.toNat_natCast, Option.map_some, htake]
    rfl
  · exact infix_flatten (by simp)
  · exact infix_flatten (by simp)
  · exact infix_flatten (by simp)

/-- All parts are as wide as they get. -/
def widestEntry : LogEntry where
  ts := 0xFFFFFFFFFFFFFFFF
  pid := -2147483648
  tid := -2147483648
  level := 5
  tag := (Vector.replicate tagMaxLen 84).set 31 0
  file := (Vector.replicate fileMaxLen 70).set 63 0
  line := 4294967295
  msg := (Vector.replicate msgMaxLen 77).set 255 0
  msgLen := 255
  enabled := 1

theorem widestEntry_terminated : Terminated widestEntry := by
  refine ⟨?_, ?_, ?_⟩ <;> decide +kernel

theorem writeThread_line_whole_widest :
    Terminated widestEntry ∧
    ∃ line, silogDaemonWriteThreadFormat (fun _ => some ⟨-2147483648, 0, 1, 0, 0, 0⟩) widestEntry
        (Vector.replicate 32 1).toList (Vector.replicate 512 1).toList = some (some line) ∧
      line.length ≤ 511 ∧ line.getLast? = some 10 := by
  obtain ⟨_, _, _, _, _, line, _, _, _, _, _, _, hlen, hwritten, _, _, _, hlast, _⟩ :=
    writeThread_line_whole (fun _ => some ⟨-2147483648, 0, 1, 0, 0, 0⟩) widestEntry_terminated
      (Vector.replicate 32 1) (Vector.replicate 512 1)
  exact ⟨widestEntry_terminated, line, hwritten, hlen, hlast⟩

/-! ## Section 6: The line as a function of the strings -/

section strings
variable {localtimeR : Int64 → Option Tm} {e : LogEntry} {timebuf logbuf time tag file msg : List UInt8}

theorem length_lineText_of_cString (htime : cString timebuf = some time) (hlen : timebuf.length = 32)
    (htag : cString e.tag.toList = some tag) (hfile : cString e.file.toList = some file)
    (hmsg : cString e.msg.toList = some msg) : (lineText time tag file msg e).length ≤ 511 := by
  have htimelt := (cString_eq_some htime).1
  have htaglt := (cString_eq_some htag).1
  have hfilelt := (cString_eq_some hfile).1
  have hmsglt := (cString_eq_some hmsg).1
  rw [Vector.length_toList] at htaglt hfilelt hmsglt
  have hle : (lineText time tag file msg e).length ≤ 441 :=
    length_lineText (by omega) (Nat.le_of_lt_succ htaglt) (Nat.le_of_lt_succ hfilelt)
      (Nat.le_of_lt_succ hmsglt)
  omega

/-- The write thread hands over the line of the strings in its buffers. -/
theorem format_eq {timebuf' : List UInt8}
    (htime : silogFormatWallClockMs localtimeR e.ts (some timebuf) timeBufSize = some (some timebuf'))
    (htime' : cString timebuf' = some time) (htag : cString e.tag.toList = some tag)
    (hfile : cString e.file.toList = some file) (hmsg : cString e.msg.toList = some msg)
    (hlogbuf : logbuf.length = 512) (hle : (lineText time tag file msg e).length ≤ 511) :
    silogDaemonWriteThreadFormat localtimeR e timebuf logbuf =
      some (some (lineText time tag file msg e)) := by
  obtain ⟨logbuf', hsnprintf, _, rest, rfl⟩ := snprintfS_text (n := 511)
    (vprintf_line time tag file msg e) hlogbuf (hle.trans (by decide))
  rw [List.take_of_length_le hle] at hsnprintf
  have hsnprintf' : snprintfS convertPlain (some logbuf) logMsgBufSize (logMsgBufSize - 1)
      (some lineFormat) (lineArgs time tag file msg e) =
      some (((lineText time tag file msg e).length : ℤ),
        some (lineText time tag file msg e ++ [0] ++ rest)) := hsnprintf
  have hnot : ¬ ((lineText time tag file msg e).length : ℤ) < 0 := by omega
  have hclamp : ¬ (logMsgBufSize : ℤ) < (lineText time tag file msg e).length := by
    unfold logMsgBufSize
    omega
  unfold silogDaemonWriteThreadFormat
  simp only [htime, htime', htag, hfile, hmsg, hsnprintf', Option.bind_eq_bind, Option.bind_some,
    if_neg hnot, if_neg hclamp, Int.toNat_natCast, Option.map_some, List.append_assoc, List.take_left]
  rfl

end strings

end SiLog.Daemon.Line
