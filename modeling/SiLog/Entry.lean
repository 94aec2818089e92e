import Mathlib.Data.Nat.Notation

/-! # Log entries (`silog_logger.h`)

    The record that travels from the logging process to the daemon and on to
    the remote clients.  Its character arrays have a fixed size and hold a
    C string when one of their bytes is NUL.
-/

namespace SiLog

/-- `SILOG_TAG_MAX_LEN` -/
abbrev tagMaxLen : ℕ := 32

/-- `SILOG_FILE_MAX_LEN` -/
abbrev fileMaxLen : ℕ := 64

/-- `SILOG_MSG_MAX_LEN` -/
abbrev msgMaxLen : ℕ := 256

/-- `logEntry_t`.  The level is a C enumeration, so any word can be stored. -/
structure LogEntry where
  ts      : UInt64
  pid     : Int32
  tid     : Int32
  level   : UInt32
  tag     : Vector UInt8 tagMaxLen
  file    : Vector UInt8 fileMaxLen
  line    : UInt32
  msg     : Vector UInt8 msgMaxLen
  msgLen  : UInt16
  enabled : UInt8
  deriving DecidableEq

/-- `sizeof(logEntry_t)`: the fields take 379 bytes, and the size is a multiple of
    the alignment of the timestamp. -/
abbrev logEntrySize : ℕ := 384

/-- `strlen`: the number of bytes before the first NUL. -/
def strlen (s : List UInt8) : ℕ := s.findIdx (· == 0)

/-- The entries that the logger builds: terminated strings, a level that fits
    in a byte, the length of the message and the flag. -/
structure LogEntry.WellFormed (e : LogEntry) : Prop where
  tag     : e.tag[tagMaxLen - 1] = 0
  file    : e.file[fileMaxLen - 1] = 0
  msg     : e.msg[msgMaxLen - 1] = 0
  level   : e.level < 256
  msgLen  : e.msgLen.toNat = strlen e.msg.toList
  enabled : e.enabled = 1

end SiLog
