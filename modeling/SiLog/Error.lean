import Mathlib.Data.Int.Notation

/-! # Error codes (`silog_error.h`)

    Every fallible function of the C code returns one of these codes as
    an `int32_t`.
-/

namespace SiLog

/-- `ErrorCode`, in the order of the header. -/
inductive ErrorCode where
  | ok
  | unknown
  | invalidArg
  | nullPtr
  | outOfMemory
  | timeout
  | notImplemented
  | busy
  | fileOpen
  | fileRead
  | fileWrite
  | fileNotExist
  | filePermission
  | netConnect
  | netFileCreate
  | netFileOpen
  | netFileError
  | netSend
  | netRecv
  | netTimeout
  | netClosed
  | netUnreachable
  | sysCall
  | sysResource
  | threadCreate
  | threadJoin
  | mutexLock
  | strTooLong
  | strEmpty
  | strErr
  | transNotInit
  | transQueueFull
  | transQueueEmpty
  | fileManagerNotInit
  deriving DecidableEq, Repr

/-- The numbers of the header: a new range starts at each comment of it. -/
def ErrorCode.toInt : ErrorCode → ℤ
  | .ok => 0
  | .unknown => 1000
  | .invalidArg => 1001
  | .nullPtr => 1002
  | .outOfMemory => 1003
  | .timeout => 1004
  | .notImplemented => 1005
  | .busy => 1006
  | .fileOpen => 2000
  | .fileRead => 2001
  | .fileWrite => 2002
  | .fileNotExist => 2003
  | .filePermission => 2004
  | .netConnect => 3000
  | .netFileCreate => 3001
  | .netFileOpen => 3002
  | .netFileError => 3003
  | .netSend => 3004
  | .netRecv => 3005
  | .netTimeout => 3006
  | .netClosed => 3007
  | .netUnreachable => 3008
  | .sysCall => 4000
  | .sysResource => 4001
  | .threadCreate => 4002
  | .threadJoin => 4003
  | .mutexLock => 4004
  | .strTooLong => 5000
  | .strEmpty => 5001
  | .strErr => 5002
  | .transNotInit => 5003
  | .transQueueFull => 5004
  | .transQueueEmpty => 5005
  | .fileManagerNotInit => 5006

end SiLog
