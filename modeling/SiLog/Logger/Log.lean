import SiLog.Entry
import SiLog.Lib.BigEndian
import SiLog.Lib.Printf
import SiLog.Mpsc.Sequential

/-! # The logging interface (`silog_logger.c`)

    `silogLog` builds a `logEntry_t` from its arguments and pushes it into the
    queue of the process, from where a thread sends it to the daemon.

    `silogLog` and `silogBuildEntry` are both variadic, and the first one calls
    the second one with the format and without the arguments.  What
    `vsnprintf` does with the format then is defined only if the format asks
    for no argument.  The messages of the tests are of that kind; the README
    shows one with a `%d`.
-/

open Printf BigEndian

namespace SiLog.Logger

/-! ## Section 1: Entries -/

/-- The largest `int`. -/
def intMax : ℕ := 2 ^ 31 - 1

/-- A text in a zeroed array of `k` bytes, cut off so that a NUL remains. -/
def textField (k : ℕ) (t : List UInt8) : Vector UInt8 k :=
  Vector.ofFn fun i => if i + 1 < k then t.getD i 0 else 0

/-- `vsnprintf`: the number it returns and the text, of which the array gets the first
    bytes.  A text longer than `INT_MAX` is an error; `none` is undefined
    behaviour. -/
def vsnprintf (convert : Conversion → List Arg → Option (List UInt8)) (fmt : List UInt8)
    (args : List Arg) : Option (ℤ × List UInt8) :=
  match vprintf convert fmt args with
  | .undefined => none
  | .failed => some (-1, [])
  | .text t => if t.length ≤ intMax then some (t.length, t) else some (-1, [])

/-- `snprintf_s` of a string with `"%s"`; `none` stands for a negative result. -/
def snprintfString (k : ℕ) (s : List UInt8) : Option (Vector UInt8 k) :=
  if s.length ≤ intMax then some (textField k s) else none

/-- What `silogBuildEntry` asks the system for. -/
structure BuildEnv where
  now : UInt64
  pid : Int32
  tid : Int32

/-- `silogBuildEntry`; `args` are its variadic arguments.  Strings are given without
    their NUL. -/
def silogBuildEntry (convert : Conversion → List Arg → Option (List UInt8)) (env : BuildEnv)
    (level : UInt32) (tag file : List UInt8) (line : UInt32) (fmt : List UInt8)
    (args : List Arg) : Option (Except ErrorCode LogEntry) :=
  (vsnprintf convert fmt args).map fun (n, text) =>
    if n < 0 then .error .strErr
    else match snprintfString tagMaxLen tag with
      | none => .error .strErr
      | some tag =>
        match snprintfString fileMaxLen file with
        | none => .error .strErr
        | some file =>
          .ok { ts := env.now, pid := env.pid, tid := env.tid, level := level, tag := tag
                file := file, line := line, msg := textField msgMaxLen text
                -- the length of the whole text, as a 16-bit number
                msgLen := UInt16.ofNat n.toNat, enabled := 1 }

/-- The bytes of a `logEntry_t`: little-endian numbers at their offsets, and padding. -/
def entryBytes (e : LogEntry) : List UInt8 :=
  (bytes64 e.ts).reverse ++ (bytes32 e.pid.toUInt32).reverse ++ (bytes32 e.tid.toUInt32).reverse ++
  (bytes32 e.level).reverse ++ e.tag.toList ++ e.file.toList ++ (bytes32 e.line).reverse ++
  e.msg.toList ++ [e.msgLen.toUInt8, (e.msgLen >>> 8).toUInt8, e.enabled] ++ List.replicate 5 0

/-- The element that `memcpy_s` copies into the queue. -/
def entryElem (e : LogEntry) : Mpsc.Elem logEntrySize := fun i => (entryBytes e).getD i 0

/-! ## Section 2: The manager -/

/-- `logEntryManager_t`; `initOnce` tells that the initialisation has run. -/
structure LogEntryManager where
  minLevel    : UInt32
  initOnce    : Bool
  logQueue    : Mpsc.SiLogMpscQueue logEntrySize
  initSuccess : Bool

/-- `LOG_ENTRY_QUEUE_CAPACITY` -/
def logEntryQueueCapacity : UInt32 := 1024

/-- `silogEntrySendTaskInit`, with the result of `SilogIpcClientInit` and whether
    `pthread_create` succeeds. -/
def silogEntrySendTaskInit (clientInit : ErrorCode) (created : Bool) : ErrorCode :=
  if clientInit ≠ .ok then clientInit
  else if created = false then .threadCreate
  else .ok

/-- What the calls of `silogEntryMngInit` return. -/
structure MngInitEnv where
  bufferMem  : Option (UInt32 → Mpsc.Elem logEntrySize)
  seqOk      : Bool
  clientInit : ErrorCode
  created    : Bool

/-- `silogEntryMngInit` -/
def silogEntryMngInit (mgr : LogEntryManager) (env : MngInitEnv) : LogEntryManager :=
  match Mpsc.silogMpscQueueInit logEntryQueueCapacity env.bufferMem env.seqOk with
  | .error _ => mgr
  | .ok q =>
    if silogEntrySendTaskInit env.clientInit env.created ≠ .ok then { mgr with logQueue := q }
    else { mgr with logQueue := q, initSuccess := true }

/-- `pthread_once(&initOnce, silogEntryMngInit)` -/
def pthreadOnce (mgr : LogEntryManager) (env : MngInitEnv) : LogEntryManager :=
  if mgr.initOnce then mgr else { silogEntryMngInit mgr env with initOnce := true }

/-- What a call of `silogLog` comes to. -/
inductive Outcome where
  | undefined
  /-- `SilogMpscQueuePush` is still in its loop after the given turns. -/
  | looping
  | returned (mgr : LogEntryManager)

/-- A call of `silogLog`, with what it asks the system for and the turns of the
    compare-exchange loop of `SilogMpscQueuePush`. -/
structure LogCall where
  level : UInt32
  tag   : List UInt8
  file  : List UInt8
  line  : UInt32
  fmt   : List UInt8
  args  : List Arg
  init  : MngInitEnv
  env   : BuildEnv
  turns : List Bool

/-- `silogLog` -/
def silogLog (convert : Conversion → List Arg → Option (List UInt8)) (mgr : LogEntryManager)
    (c : LogCall) : Outcome :=
  let mgr := pthreadOnce mgr c.init
  if mgr.initSuccess = false then .returned mgr
  else if c.level < mgr.minLevel then .returned mgr
  else
    -- the call ends with `fmt`: the arguments are not passed on
    match silogBuildEntry convert c.env c.level c.tag c.file c.line c.fmt [] with
    | none => .undefined
    | some (.error _) => .returned mgr
    | some (.ok entry) =>
      match Mpsc.silogMpscQueuePush mgr.logQueue (entryElem entry) c.turns with
      | none => .looping
      | some (_, q) => .returned { mgr with logQueue := q }

/-! ## Section 3: The message of an element -/

/-- The bytes of the field `msg`, which starts at offset 120. -/
def elemMsg (e : Mpsc.Elem logEntrySize) : List UInt8 :=
  List.ofFn fun i : Fin msgMaxLen =>
    e ⟨120 + i, (Nat.add_lt_add_left i.isLt 120).trans (by decide)⟩

theorem elemMsg_entryElem (e : LogEntry) : elemMsg (entryElem e) = e.msg.toList := by
  apply List.ext_getElem
  · rw [elemMsg, List.length_ofFn, Vector.length_toList]
  · intro i hi hi'
    -- everything in front of the message, and behind it
    let front := (bytes64 e.ts).reverse ++ (bytes32 e.pid.toUInt32).reverse ++
      (bytes32 e.tid.toUInt32).reverse ++ (bytes32 e.level).reverse ++ e.tag.toList ++
      e.file.toList ++ (bytes32 e.line).reverse
    let back := [e.msgLen.toUInt8, (e.msgLen >>> 8).toUInt8, e.enabled] ++ List.replicate 5 0
    have hfront : front.length = 120 := by
      simp only [front, List.length_append, List.length_reverse, Vector.length_toList]
      rfl
    have hsplit : entryBytes e = front ++ (e.msg.toList ++ back) := by
      simp only [entryBytes, front, back, List.append_assoc]
    simp only [elemMsg, List.getElem_ofFn, entryElem, hsplit]
    rw [List.getD_eq_getElem?_getD, ← hfront, List.getElem?_append_right (Nat.le_add_right _ _),
      Nat.add_sub_cancel_left, List.getElem?_append_left hi', List.getElem?_eq_getElem hi',
      Option.getD_some]

/-- An array holds the first bytes of its text, and zeros. -/
theorem toList_textField {k : ℕ} (t : List UInt8) :
    (textField (k + 1) t).toList = t.take k ++ List.replicate (k + 1 - (t.take k).length) 0 := by
  have hlen : (t.take k).length ≤ k := List.length_take_le k t
  apply List.ext_getElem
  · rw [Vector.length_toList, List.length_append, List.length_replicate]
    omega
  · intro i hi hi'
    rw [Vector.length_toList] at hi
    simp only [textField, Vector.getElem_toList, Vector.getElem_ofFn, List.getElem_append]
    by_cases hlt : i < (t.take k).length
    · rw [dif_pos hlt, if_pos (by omega), List.getElem_take, List.getD_eq_getElem]
    · rw [dif_neg hlt, List.getElem_replicate]
      rw [List.length_take] at hlt
      split
      next hik => exact List.getD_eq_default _ _ (by omega)
      next => rfl

/-! ## Section 4: Rendering -/

/-- The call returns, and the entry behind those that were in the queue has the
    first 255 bytes of the text as its message. -/
def Renders (convert : Conversion → List Arg → Option (List UInt8)) (mgr : LogEntryManager)
    (c : LogCall) (r : ℕ) (es : List (Mpsc.Elem logEntrySize)) (text : List UInt8) : Prop :=
  ∃ mgr' e, silogLog convert mgr c = .returned mgr' ∧ Mpsc.Holds mgr'.logQueue r (es ++ [e]) ∧
    elemMsg e = text.take (msgMaxLen - 1) ++
      List.replicate (msgMaxLen - (text.take (msgMaxLen - 1)).length) 0

section rendering
variable {convert : Conversion → List Arg → Option (List UInt8)} {mgr : LogEntryManager}
  {c : LogCall}

/-- The text is the one that `vprintf` makes. -/
theorem vprintf_of_vsnprintf {fmt : List UInt8} {args : List Arg} {n : ℤ} {t : List UInt8}
    (h : vsnprintf convert fmt args = some (n, t)) (hn : 0 ≤ n) :
    vprintf convert fmt args = .text t ∧ t.length ≤ intMax ∧ n = t.length := by
  unfold vsnprintf at h
  split at h
  · cases h
  · cases h
    exact absurd hn (by decide)
  next u hu =>
    split at h
    next hle =>
      cases h
      exact ⟨hu, hle, rfl⟩
    next =>
      cases h
      exact absurd hn (by decide)

/-- The entry of a call whose format gives the text `t`. -/
def LogCall.entry (c : LogCall) (t : List UInt8) : LogEntry where
  ts := c.env.now
  pid := c.env.pid
  tid := c.env.tid
  level := c.level
  tag := textField tagMaxLen c.tag
  file := textField fileMaxLen c.file
  line := c.line
  msg := textField msgMaxLen t
  msgLen := UInt16.ofNat t.length
  enabled := 1

/-- What `silogBuildEntry` makes of a text. -/
theorem buildEntry_of_text {t : List UInt8} {args : List Arg} (ht : vprintf convert c.fmt args = .text t)
    (hle : t.length ≤ intMax) :
    silogBuildEntry convert c.env c.level c.tag c.file c.line c.fmt args =
      if c.tag.length ≤ intMax ∧ c.file.length ≤ intMax then some (.ok (c.entry t))
      else some (.error .strErr) := by
  have hv : vsnprintf convert c.fmt args = some ((t.length : ℤ), t) := by
    simp only [vsnprintf, ht, if_pos hle]
  have hn : ¬ (t.length : ℤ) < 0 := by omega
  simp only [silogBuildEntry, hv, Option.map_some, if_neg hn, snprintfString, Int.toNat_natCast,
    LogCall.entry]
  by_cases htag : c.tag.length ≤ intMax
  · by_cases hfile : c.file.length ≤ intMax
    · simp only [htag, hfile, and_self, if_true]
    · simp only [htag, hfile, and_false, if_true, if_false]
  · simp only [htag, false_and, if_false]

/-- Past the checks, `silogLog` does what `silogBuildEntry` and `SilogMpscQueuePush` do. -/
theorem silogLog_eq (honce : mgr.initOnce) (hsuccess : mgr.initSuccess)
    (hlevel : mgr.minLevel ≤ c.level) :
    silogLog convert mgr c =
      match silogBuildEntry convert c.env c.level c.tag c.file c.line c.fmt [] with
      | none => .undefined
      | some (.error _) => .returned mgr
      | some (.ok entry) =>
        match Mpsc.silogMpscQueuePush mgr.logQueue (entryElem entry) c.turns with
        | none => .looping
        | some (_, q) => .returned { mgr with logQueue := q } := by
  have hnot : ¬ c.level < mgr.minLevel := by
    rw [UInt32.lt_iff_toNat_lt, Nat.not_lt]
    exact UInt32.le_iff_toNat_le.mp hlevel
  simp only [silogLog, pthreadOnce, honce, if_true, hsuccess, Bool.true_eq_false, if_false,
    if_neg hnot]

/-- **Rendering.** After a successful initialisation and with room in the queue,
    `silogLog` enqueues the text of its format and its arguments if and only if
    the format takes no argument (and the tag and the file name have lengths
    that fit in an `int`). -/
theorem silogLog_renders_iff {r : ℕ} {es : List (Mpsc.Elem logEntrySize)} {t : List UInt8}
    (honce : mgr.initOnce) (hsuccess : mgr.initSuccess) (hlevel : mgr.minLevel ≤ c.level)
    (hholds : Mpsc.Holds mgr.logQueue r es) (hroom : es.length < mgr.logQueue.capacity.toNat)
    (hfair : false ∈ c.turns)
    (htext : vsnprintf convert c.fmt c.args = some ((t.length : ℤ), t)) :
    Renders convert mgr c r es t ↔
      takesNone c.fmt ∧ c.tag.length ≤ intMax ∧ c.file.length ≤ intMax := by
  obtain ⟨hargs, hle, _⟩ := vprintf_of_vsnprintf htext (by omega)
  by_cases hnone : takesNone c.fmt
  · obtain ⟨t', hargs', hnil⟩ := vprintf_of_takesNone convert hnone c.args
    rw [hargs] at hargs'
    cases hargs'
    by_cases hfit : c.tag.length ≤ intMax ∧ c.file.length ≤ intMax
    · refine iff_of_true ?_ ⟨hnone, hfit⟩
      obtain ⟨q, hpush, _, hq⟩ := hholds.push_ok hroom (entryElem (c.entry t)) hfair
      refine ⟨{ mgr with logQueue := q }, entryElem (c.entry t), ?_, hq, ?_⟩
      · rw [silogLog_eq honce hsuccess hlevel, buildEntry_of_text hnil hle, if_pos hfit]
        simp only [hpush]
      · rw [elemMsg_entryElem]
        exact toList_textField (k := 255) t
    · refine iff_of_false ?_ fun h => hfit h.2
      rintro ⟨mgr', e, hlog, hq, _⟩
      rw [silogLog_eq honce hsuccess hlevel, buildEntry_of_text hnil hle, if_neg hfit] at hlog
      cases hlog
      -- the queue still holds what it held
      have hlen : (es ++ [e]).length = es.length + 1 := by rw [List.length_append]; rfl
      exact Wrap.ofNat_ne (by omega) (by omega) (hholds.writePos.symm.trans hq.writePos)
  · -- without its arguments the format is undefined
    refine iff_of_false ?_ fun h => hnone h.1
    rintro ⟨mgr', e, hlog, _⟩
    have hundef : silogBuildEntry convert c.env c.level c.tag c.file c.line c.fmt [] = none := by
      simp only [silogBuildEntry, vsnprintf, vprintf_nil_of_not_takesNone convert hnone,
        Option.map_none]
    rw [silogLog_eq honce hsuccess hlevel, hundef] at hlog
    cases hlog

end rendering

/-- The plain `%d`. -/
def convertInt (conv : Conversion) (args : List Arg) : Option (List UInt8) :=
  match args with
  | [arg] =>
    if conv = { flags := [], width := none, precision := none, length := .none, specifier := .d } then
      let digits := (Nat.toDigits 10 arg.value.natAbs).map Char.toUInt8
      some (if arg.value < 0 then 45 :: digits else digits)
    else none
  | _ => none

/-- A queue that is allocated and a sending thread that is created. -/
def initEnv : MngInitEnv :=
  { bufferMem := some fun _ _ => 0, seqOk := true, clientInit := .ok, created := true }

/-- The initial value of `g_logEntryMgr`. -/
def LogEntryManager.initial : LogEntryManager where
  minLevel := 0
  initOnce := false
  logQueue := { buffer := fun _ _ => 0, capacity := 0, writePos := 0, readPos := 0
                seq := fun _ => 0, capacityMask := 0 }
  initSuccess := false

/-- The manager after its initialisation. -/
def readyManager : LogEntryManager := pthreadOnce .initial initEnv

/-- A call with a format and an argument list. -/
def call (fmt : List UInt8) (args : List Arg) : LogCall where
  level := 1
  tag := [84]
  file := [109, 46, 99]
  line := 7
  fmt := fmt
  args := args
  init := initEnv
  env := { now := 0, pid := 1, tid := 1 }
  turns := [false]

theorem readyManager_holds : Mpsc.Holds readyManager.logQueue 0 [] := by
  have hinit : Mpsc.silogMpscQueueInit logEntryQueueCapacity initEnv.bufferMem initEnv.seqOk =
      .ok readyManager.logQueue := rfl
  exact (Mpsc.holds_init hinit).2

/-- `100%%` -/
theorem silogLog_renders_iff_percent :
    Renders convertInt readyManager (call [49, 48, 48, 37, 37] []) 0 [] [49, 48, 48, 37] := by
  have htext : vsnprintf convertInt (call [49, 48, 48, 37, 37] []).fmt [] =
      some (4, [49, 48, 48, 37]) := by decide +kernel
  exact (silogLog_renders_iff (c := call [49, 48, 48, 37, 37] []) rfl rfl (by decide)
    readyManager_holds (by decide) List.mem_cons_self htext).mpr
    ⟨by decide +kernel, by decide, by decide⟩

/-- An `int` argument. -/
def five : Arg := { kind := .integer .none, value := 5, bytes := [] }

/-- `%d` with the argument 5 is `5`; `silogLog` does not get that far. -/
theorem silogLog_drops_argument :
    vsnprintf convertInt (call [37, 100] [five]).fmt (call [37, 100] [five]).args = some (1, [53]) ∧
    ¬ Renders convertInt readyManager (call [37, 100] [five]) 0 [] [53] := by
  have hundef : silogLog convertInt readyManager (call [37, 100] [five]) = .undefined := by
    rw [silogLog_eq rfl rfl (by decide)]
    rfl
  refine ⟨by decide +kernel, ?_⟩
  rintro ⟨mgr', e, hlog, _⟩
  rw [hundef] at hlog
  cases hlog

/-! ## Section 5: The fields of an entry -/

/-- The array holds the first `k` bytes of the text and then only zeros, of which there is
    at least one. -/
def HoldsPrefix {n : ℕ} (v : Vector UInt8 n) (k : ℕ) (t : List UInt8) : Prop :=
  v.toList = t.take k ++ List.replicate (n - (t.take k).length) 0 ∧ (t.take k).length < n

/-- What an entry built from `tag`, `file` and the text `t` should be. -/
structure Consistent (e : LogEntry) (tag file t : List UInt8) : Prop where
  tag    : HoldsPrefix e.tag 31 tag
  file   : HoldsPrefix e.file 63 file
  msg    : HoldsPrefix e.msg 255 t
  msgLen : e.msgLen.toNat = strlen e.msg.toList

theorem textField_holdsPrefix (k : ℕ) (t : List UInt8) : HoldsPrefix (textField (k + 1) t) k t :=
  ⟨toList_textField t, Nat.lt_succ_of_le (List.length_take_le k t)⟩

theorem strlen_replicate_zero {m : ℕ} (hm : 0 < m) : strlen (List.replicate m 0) = 0 := by
  obtain ⟨m, rfl⟩ := Nat.exists_eq_add_one_of_ne_zero hm.ne'
  rw [List.replicate_succ]
  rfl

theorem strlen_eq_length {t : List UInt8} (h : 0 ∉ t) : strlen t = t.length := by
  unfold strlen
  rw [List.findIdx_eq_length]
  intro b hb
  rw [beq_eq_false_iff_ne]
  rintro rfl
  exact h hb

/-- The string in an array ends where the text does or at the last byte. -/
theorem HoldsPrefix.strlen_eq {n k : ℕ} {v : Vector UInt8 n} {t : List UInt8} (h : HoldsPrefix v k t) :
    strlen v.toList = min k (strlen t) := by
  have hzero : strlen (List.replicate (n - (t.take k).length) 0) = 0 :=
    strlen_replicate_zero (Nat.sub_pos_of_lt h.2)
  have htake : strlen (t.take k) = min k (strlen t) := List.findIdx_take
  have hle : strlen (t.take k) ≤ (t.take k).length := List.findIdx_le_length
  rw [h.1, ← htake]
  unfold strlen at hzero hle ⊢
  rw [List.findIdx_append]
  split
  · rfl
  next hnot =>
    -- no NUL in the text, so the first one is behind it
    rw [hzero, Nat.zero_add]
    exact le_antisymm (not_lt.mp hnot) hle

section fields
variable {convert : Conversion → List Arg → Option (List UInt8)} {env : BuildEnv} {level : UInt32}
  {tag file : List UInt8} {line : UInt32} {fmt : List UInt8} {args : List Arg} {t : List UInt8}
  {e : LogEntry}

/-- The entry that is built for a text. -/
theorem buildEntry_ok (htext : vprintf convert fmt args = .text t)
    (hok : silogBuildEntry convert env level tag file line fmt args = some (.ok e)) :
    e.tag = textField tagMaxLen tag ∧ e.file = textField fileMaxLen file ∧
    e.msg = textField msgMaxLen t ∧ e.msgLen = UInt16.ofNat t.length := by
  by_cases hle : t.length ≤ intMax
  · have heq := buildEntry_of_text (c := ⟨level, tag, file, line, fmt, args, initEnv, env, []⟩) htext hle
    rw [hok] at heq
    split at heq
    next =>
      cases heq
      exact ⟨rfl, rfl, rfl, rfl⟩
    next => cases heq
  · -- a text that is too long is an error
    have hv : vsnprintf convert fmt args = some (-1, []) := by
      simp only [vsnprintf, htext, if_neg hle]
    unfold silogBuildEntry at hok
    rw [hv] at hok
    cases hok

/-- **Consistency.** An entry that was built has the first bytes of its texts.  Its `msgLen` is the
    length of its message exactly if the text has no NUL and at most 255 bytes, or its length
    happens to agree modulo `2 ^ 16`. -/
theorem buildEntry_consistent_iff (htext : vprintf convert fmt args = .text t)
    (hok : silogBuildEntry convert env level tag file line fmt args = some (.ok e)) :
    Consistent e tag file t ↔
      (0 ∉ t ∧ (t.length ≤ 255 ∨ t.length % 2 ^ 16 = 255)) ∨
      (0 ∈ t ∧ t.length % 2 ^ 16 = min 255 (strlen t)) := by
  obtain ⟨htag, hfile, hmsg, hlen⟩ := buildEntry_ok htext hok
  have hprefix : HoldsPrefix e.msg 255 t := by
    rw [hmsg]
    exact textField_holdsPrefix 255 t
  have hconsistent : Consistent e tag file t ↔ t.length % 2 ^ 16 = min 255 (strlen t) := by
    rw [← hprefix.strlen_eq, ← UInt16.toNat_ofNat', ← hlen]
    constructor
    · exact fun h => h.msgLen
    · intro h
      refine ⟨?_, ?_, hprefix, h⟩
      · rw [htag]
        exact textField_holdsPrefix 31 tag
      · rw [hfile]
        exact textField_holdsPrefix 63 file
  rw [hconsistent]
  by_cases hnul : 0 ∈ t
  · simp only [hnul, not_true_eq_false, false_and, true_and, false_or]
  · rw [strlen_eq_length hnul]
    simp only [hnul, not_false_eq_true, true_and, false_and, or_false]
    omega

end fields

/-- The entry that is built for the call. -/
def LogCall.build (c : LogCall) : Option (Except ErrorCode LogEntry) :=
  silogBuildEntry convertInt c.env c.level c.tag c.file c.line c.fmt []

theorem build_of_no_percent {fmt : List UInt8} (hfmt : percent ∉ fmt) (hlen : fmt.length ≤ intMax) :
    (call fmt []).build = some (.ok ((call fmt []).entry fmt)) := by
  have htext := vprintf_of_no_percent convertInt hfmt []
  have hfit : (call fmt []).tag.length ≤ intMax ∧ (call fmt []).file.length ≤ intMax :=
    ⟨show 1 ≤ intMax by decide, show 3 ≤ intMax by decide⟩
  exact (buildEntry_of_text (c := call fmt []) htext hlen).trans (if_pos hfit)

/-- `StructureTest` -/
def structureTest : List UInt8 := [83, 116, 114, 117, 99, 116, 117, 114, 101, 84, 101, 115, 116]

theorem buildEntry_consistent_iff_structureTest :
    Consistent ((call structureTest []).entry structureTest) [84] [109, 46, 99] structureTest :=
  (buildEntry_consistent_iff (vprintf_of_no_percent convertInt (by decide) [])
    (build_of_no_percent (by decide) (by decide))).mpr (Or.inl ⟨by decide, by decide⟩)

/-- 256 times `A`. -/
def tooLong : List UInt8 := List.replicate 256 65

/-- The message has 255 bytes and `msgLen` is 256. -/
theorem buildEntry_msgLen_exceeds :
    (call tooLong []).build = some (.ok ((call tooLong []).entry tooLong)) ∧
    ((call tooLong []).entry tooLong).msgLen = 256 ∧
    strlen ((call tooLong []).entry tooLong).msg.toList = 255 ∧
    ¬ Consistent ((call tooLong []).entry tooLong) [84] [109, 46, 99] tooLong := by
  have hpercent : percent ∉ tooLong := by
    intro h
    exact absurd (List.eq_of_mem_replicate h) (by decide)
  have hnul : (0 : UInt8) ∉ tooLong := by
    intro h
    exact absurd (List.eq_of_mem_replicate h) (by decide)
  have hlen : tooLong.length = 256 := List.length_replicate
  have hmsg : strlen ((call tooLong []).entry tooLong).msg.toList = 255 := by
    refine (textField_holdsPrefix 255 tooLong).strlen_eq.trans ?_
    rw [strlen_eq_length hnul, hlen]
    rfl
  have hmsgLen : ((call tooLong []).entry tooLong).msgLen = 256 := congrArg UInt16.ofNat hlen
  refine ⟨build_of_no_percent hpercent (by rw [hlen]; decide), hmsgLen, hmsg, ?_⟩
  intro h
  have hlength := h.msgLen
  rw [hmsg, hmsgLen] at hlength
  exact absurd hlength (by decide)

end SiLog.Logger
