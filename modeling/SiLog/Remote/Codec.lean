import SiLog.Entry
import SiLog.Error
import SiLog.Lib.BigEndian

/-! # The remote wire format (`silog_remote.c`)

    An entry is sent as `SILOG_REMOTE_ENTRY_SIZE` bytes: the numbers in
    big-endian order and the character arrays as they are.  The writer and the
    reader are written byte by byte, each with its own shift amounts.
-/

open BigEndian

namespace SiLog.Remote

/-! ## Section 1: Writing -/

/-- `SILOG_REMOTE_ENTRY_SIZE` -/
abbrev entrySize : ℕ := 8 + 8 + 4 + 1 + 4 + tagMaxLen + fileMaxLen + msgMaxLen

/-- The numbers of an entry, as `SilogRemoteSerializeEntry` writes them.  The
    process id is sign-extended to 64 bits. -/
def header (entry : LogEntry) : List UInt8 :=
  bytes64 entry.ts ++ bytes64 entry.pid.toInt64.toUInt64 ++ bytes32 entry.tid.toUInt32 ++
  [entry.level.toUInt8] ++ bytes32 entry.line

/-- The bytes that `SilogRemoteSerializeEntry` writes. -/
def entryBytes (entry : LogEntry) : List UInt8 :=
  header entry ++ entry.tag.toList ++ entry.file.toList ++ entry.msg.toList

/-- `SilogRemoteSerializeEntry`.  `none` is a NULL pointer; `bufSize` is the size
    of `buf`.  The copies of the arrays fit because of the first check. -/
def silogRemoteSerializeEntry (entry : LogEntry) (buf : Option (List UInt8)) (outLen : Option ℕ) :
    Option (List UInt8) × Option ℕ :=
  match buf, outLen with
  | some buf, some outLen =>
    if buf.length < entrySize then (some buf, some outLen)
    else (some (entryBytes entry ++ buf.drop entrySize), some entrySize)
  | _, _ => (buf, outLen)

/-! ## Section 2: Reading -/

/-- The timestamp as `SilogRemoteDeserializeEntry` puts it together.  The shift
    amounts of the bytes 2 to 6 are not those of the writer. -/
def decodeTs (b₀ b₁ b₂ b₃ b₄ b₅ b₆ b₇ : UInt8) : UInt64 :=
  (b₀.toUInt64 <<< 56) ||| (b₁.toUInt64 <<< 56 >>> 8) |||
  (b₂.toUInt64 <<< 48) ||| (b₃.toUInt64 <<< 48 >>> 8) |||
  (b₄.toUInt64 <<< 40) ||| (b₅.toUInt64 <<< 40 >>> 8) |||
  (b₆.toUInt64 <<< 32) ||| b₇.toUInt64

/-- The line number, put together in signed arithmetic. -/
def decodeLine (b₀ b₁ b₂ b₃ : UInt8) : Int32 :=
  (b₀.toUInt32.toInt32 <<< 24) ||| (b₁.toUInt32.toInt32 <<< 16) |||
  (b₂.toUInt32.toInt32 <<< 8) ||| b₃.toUInt32.toInt32

/-- `memcpy_s` of `n` bytes from `&buf[offset]`, and then a NUL in the last byte. -/
def decodeText (buf : List UInt8) (offset n : ℕ) : Vector UInt8 n :=
  (Vector.ofFn fun i => buf.getD (offset + i) 0).setIfInBounds (n - 1) 0

/-- The fields that `SilogRemoteDeserializeEntry` stores. -/
def decodeEntry (buf : List UInt8) : LogEntry :=
  -- the offsets are those of the writer: 0, 8, 16, 20, 21, 25, 57 and 121
  let b := fun i => buf.getD i 0
  let msg := decodeText buf 121 msgMaxLen
  { ts := decodeTs (b 0) (b 1) (b 2) (b 3) (b 4) (b 5) (b 6) (b 7)
    pid := (word64 (b 8) (b 9) (b 10) (b 11) (b 12) (b 13) (b 14) (b 15)).toUInt32.toInt32
    tid := (word32 (b 16) (b 17) (b 18) (b 19)).toInt32
    level := (b 20).toUInt32
    line := (decodeLine (b 21) (b 22) (b 23) (b 24)).toUInt32
    tag := decodeText buf 25 tagMaxLen
    file := decodeText buf 57 fileMaxLen
    msg := msg
    msgLen := UInt16.ofNat (strlen msg.toList)
    enabled := 1 }

/-- `SilogRemoteDeserializeEntry`.  `none` is a NULL pointer and `bufSize` is the
    size of `buf`. -/
def silogRemoteDeserializeEntry (buf : Option (List UInt8)) (entry : Option LogEntry) :
    ErrorCode × Option LogEntry :=
  match buf, entry with
  | some buf, some entry =>
    if buf.length < entrySize then (.invalidArg, some entry)
    else (.ok, some (decodeEntry buf))
  | _, _ => (.nullPtr, entry)

/-! ## Section 3: The fields one by one -/

@[simp] theorem length_header (e : LogEntry) : (header e).length = 25 := rfl

@[simp] theorem length_entryBytes (e : LogEntry) : (entryBytes e).length = entrySize := by
  simp only [entryBytes, List.length_append, length_header, Vector.length_toList]

/-- Shifting a byte up and back by 8. -/
theorem shiftRight_byte (b : UInt8) {k l : UInt64} {j : ℕ} (hk : k.toNat = j + 8)
    (hl : l.toNat = j) (hj : j ≤ 48) : b.toUInt64 <<< k >>> 8 = b.toUInt64 <<< l := by
  apply UInt64.toNat_inj.mp
  rw [UInt64.toNat_shiftRight, toNat_byte_shiftLeft64 b hk (by omega),
    toNat_byte_shiftLeft64 b hl (by omega), Nat.shiftLeft_add]
  exact Nat.shiftLeft_shiftRight _ 8

/-- What the reader makes of the timestamp bytes: it lays byte 2 over byte 1,
    moves the bytes 3 to 6 up, and leaves zeros behind. -/
theorem decodeTs_eq_word64 (b₀ b₁ b₂ b₃ b₄ b₅ b₆ b₇ : UInt8) :
    decodeTs b₀ b₁ b₂ b₃ b₄ b₅ b₆ b₇ =
      word64 b₀ (b₁ ||| b₂) (b₃ ||| b₄) (b₅ ||| b₆) 0 0 0 b₇ := by
  unfold decodeTs word64
  -- only the three bytes that are shifted up and back land where a shift alone would put them
  rw [shiftRight_byte b₁ (k := 56) (l := 48) (j := 48) rfl rfl (by decide),
    shiftRight_byte b₃ (k := 48) (l := 40) (j := 40) rfl rfl (by decide),
    shiftRight_byte b₅ (k := 40) (l := 32) (j := 32) rfl rfl (by decide)]
  have hzero : (0 : UInt8).toUInt64 = 0 := rfl
  simp only [UInt8.toUInt64_or, UInt64.shiftLeft_or, hzero, UInt64.zero_shiftLeft,
    UInt64.or_zero, UInt64.or_assoc]

/-- The timestamp is read back if and only if its bytes 2 to 6 are zero. -/
theorem decodeTs_eq_iff {ts : UInt64} {b₀ b₁ b₂ b₃ b₄ b₅ b₆ b₇ : UInt8}
    (hts : bytes64 ts = [b₀, b₁, b₂, b₃, b₄, b₅, b₆, b₇]) :
    decodeTs b₀ b₁ b₂ b₃ b₄ b₅ b₆ b₇ = ts ↔
      b₂ = 0 ∧ b₃ = 0 ∧ b₄ = 0 ∧ b₅ = 0 ∧ b₆ = 0 := by
  rw [decodeTs_eq_word64, eq_comm, ← bytes64_eq_iff, hts]
  simp only [List.cons.injEq, and_true, true_and]
  constructor
  · rintro ⟨_, h₂, h₃, h₄, h₅, h₆⟩
    -- the low bytes are zero; `h₃` and `h₂` then say the same of the next ones
    subst h₄ h₅ h₆
    simp only [UInt8.or_zero] at h₃
    subst h₃
    simp only [UInt8.or_zero] at h₂
    exact ⟨h₂, rfl, rfl, rfl, rfl⟩
  · rintro ⟨rfl, rfl, rfl, rfl, rfl⟩
    simp

theorem decodeLine_toUInt32 (b₀ b₁ b₂ b₃ : UInt8) :
    (decodeLine b₀ b₁ b₂ b₃).toUInt32 = word32 b₀ b₁ b₂ b₃ := rfl

/-- A process id survives the sign extension and the truncation. -/
theorem pid_truncate (pid : Int32) : pid.toInt64.toUInt64.toUInt32.toInt32 = pid := by
  apply Int32.toBitVec.inj
  -- bit by bit: the low 32 bits of the extension are the number itself
  show BitVec.setWidth 32 (BitVec.signExtend 64 pid.toBitVec) = pid.toBitVec
  ext i hi
  rw [BitVec.getElem_setWidth, BitVec.getLsbD_signExtend]
  simp [hi, show i < 64 by omega]

theorem level_truncate {level : UInt32} (h : level < 256) : level.toUInt8.toUInt32 = level := by
  apply UInt32.toNat_inj.mp
  have hlt : level.toNat < 256 := UInt32.lt_iff_toNat_lt.mp h
  rw [UInt8.toNat_toUInt32, UInt32.toNat_toUInt8, Nat.mod_eq_of_lt hlt]

/-- An array is read back with a NUL in its last byte. -/
theorem decodeText_append {n : ℕ} (v : Vector UInt8 n) (pre post : List UInt8) :
    decodeText (pre ++ v.toList ++ post) pre.length n = v.setIfInBounds (n - 1) 0 := by
  have hcopy : (Vector.ofFn fun i : Fin n => (pre ++ v.toList ++ post).getD (pre.length + i) 0) = v := by
    apply Vector.ext
    intro i hi
    simp [List.getD, List.getElem?_append]
  unfold decodeText
  rw [hcopy]

theorem setIfInBounds_last {n : ℕ} {v : Vector UInt8 n} {hn : n - 1 < n} (hnul : v[n - 1] = 0) :
    v.setIfInBounds (n - 1) 0 = v := by
  apply Vector.ext
  intro i hi
  rw [Vector.getElem_setIfInBounds]
  split
  · next heq => subst heq; exact hnul.symm
  · rfl

/-! ## Section 4: The round trip -/

/-- What the reader makes of a serialised entry, whatever it is and whatever follows it. -/
def received (e : LogEntry) (ts : UInt64) : LogEntry :=
  let msg := e.msg.setIfInBounds (msgMaxLen - 1) 0
  { e with
    ts := ts
    level := e.level.toUInt8.toUInt32
    tag := e.tag.setIfInBounds (tagMaxLen - 1) 0
    file := e.file.setIfInBounds (fileMaxLen - 1) 0
    msg := msg
    msgLen := UInt16.ofNat (strlen msg.toList)
    enabled := 1 }

theorem decodeEntry_append (e : LogEntry) (rest : List UInt8) {b₀ b₁ b₂ b₃ b₄ b₅ b₆ b₇ : UInt8}
    (hts : bytes64 e.ts = [b₀, b₁, b₂, b₃, b₄, b₅, b₆, b₇]) :
    decodeEntry (entryBytes e ++ rest) = received e (decodeTs b₀ b₁ b₂ b₃ b₄ b₅ b₆ b₇) := by
  have hbytes : entryBytes e ++ rest = [b₀, b₁, b₂, b₃, b₄, b₅, b₆, b₇] ++
      (bytes64 e.pid.toInt64.toUInt64 ++ bytes32 e.tid.toUInt32 ++ [e.level.toUInt8] ++
        bytes32 e.line ++ e.tag.toList ++ e.file.toList ++ e.msg.toList ++ rest) := by
    simp only [entryBytes, header, hts, List.append_assoc]
  -- each array is `decodeText_append` with what stands before and after it
  have htag : decodeText (entryBytes e ++ rest) 25 tagMaxLen =
      e.tag.setIfInBounds (tagMaxLen - 1) 0 := by
    have := decodeText_append e.tag (header e) (e.file.toList ++ e.msg.toList ++ rest)
    rwa [← List.append_assoc, ← List.append_assoc] at this
  have hfile : decodeText (entryBytes e ++ rest) 57 fileMaxLen =
      e.file.setIfInBounds (fileMaxLen - 1) 0 := by
    have := decodeText_append e.file (header e ++ e.tag.toList) (e.msg.toList ++ rest)
    rwa [← List.append_assoc, List.length_append, length_header, Vector.length_toList] at this
  have hmsg : decodeText (entryBytes e ++ rest) 121 msgMaxLen =
      e.msg.setIfInBounds (msgMaxLen - 1) 0 := by
    have := decodeText_append e.msg (header e ++ e.tag.toList ++ e.file.toList) rest
    rwa [List.length_append, List.length_append, length_header, Vector.length_toList,
      Vector.length_toList] at this
  have hpid : e.pid.toInt64.toUInt64 = word64 _ _ _ _ _ _ _ _ := bytes64_eq_iff.mp rfl
  have htid : e.tid.toUInt32 = word32 _ _ _ _ := bytes32_eq_iff.mp rfl
  have hline : e.line = word32 _ _ _ _ := bytes32_eq_iff.mp rfl
  unfold decodeEntry received
  simp only [htag, hfile, hmsg, decodeLine_toUInt32, LogEntry.mk.injEq, true_and, and_true]
  refine ⟨by rw [hbytes]; rfl, ?_, ?_, by rw [hbytes]; rfl, hline.symm⟩
  · exact (congrArg (fun w => w.toUInt32.toInt32) hpid.symm).trans (pid_truncate e.pid)
  · exact congrArg UInt32.toInt32 htid.symm

/-- The reader returns a well-formed entry but for its timestamp. -/
theorem decodeEntry_entryBytes {e : LogEntry} (hwf : e.WellFormed)
    {b₀ b₁ b₂ b₃ b₄ b₅ b₆ b₇ : UInt8}
    (hts : bytes64 e.ts = [b₀, b₁, b₂, b₃, b₄, b₅, b₆, b₇]) :
    decodeEntry (entryBytes e) = { e with ts := decodeTs b₀ b₁ b₂ b₃ b₄ b₅ b₆ b₇ } := by
  have happend := decodeEntry_append e [] hts
  rw [List.append_nil] at happend
  rw [happend]
  unfold received
  simp only [LogEntry.mk.injEq, true_and]
  refine ⟨level_truncate hwf.level, setIfInBounds_last hwf.tag, setIfInBounds_last hwf.file,
    setIfInBounds_last hwf.msg, ?_, hwf.enabled.symm⟩
  rw [setIfInBounds_last hwf.msg, ← hwf.msgLen, UInt16.ofNat_toNat]

/-- Whatever buffer the entry is serialised into and whatever the result is stored
    over: exactly `SILOG_REMOTE_ENTRY_SIZE` bytes are written and reading them
    returns `SILOG_OK` and the entry. -/
def RoundTrips (e : LogEntry) : Prop :=
  ∀ (buf : List UInt8) (outLen : ℕ) (old : LogEntry), entrySize ≤ buf.length →
    ∃ bytes, bytes.length = entrySize ∧
      silogRemoteSerializeEntry e (some buf) (some outLen) =
        (some (bytes ++ buf.drop entrySize), some entrySize) ∧
      silogRemoteDeserializeEntry (some bytes) (some old) = (.ok, some e)

/-- The length and the bytes are always right; what is left is the reader. -/
theorem roundTrips_iff_decodeEntry (e : LogEntry) :
    RoundTrips e ↔ decodeEntry (entryBytes e) = e := by
  have hwrite : ∀ (buf : List UInt8) outLen, entrySize ≤ buf.length →
      silogRemoteSerializeEntry e (some buf) (some outLen) =
        (some (entryBytes e ++ buf.drop entrySize), some entrySize) := fun buf outLen hlen => by
    simp only [silogRemoteSerializeEntry, if_neg (not_lt.mpr hlen)]
  have hread : ∀ old, silogRemoteDeserializeEntry (some (entryBytes e)) (some old) =
      (.ok, some (decodeEntry (entryBytes e))) := fun old => by
    simp only [silogRemoteDeserializeEntry, length_entryBytes, if_neg (lt_irrefl _)]
  constructor
  · intro h
    obtain ⟨bytes, hlen, hser, hdes⟩ :=
      h (List.replicate entrySize 0) 0 e (by rw [List.length_replicate])
    rw [hwrite _ _ (by rw [List.length_replicate])] at hser
    have hbytes : entryBytes e = bytes :=
      List.append_cancel_right (Option.some.inj (Prod.mk.inj hser).1)
    rw [← hbytes, hread] at hdes
    exact Option.some.inj (Prod.mk.inj hdes).2
  · intro h buf outLen old hlen
    exact ⟨entryBytes e, length_entryBytes e, hwrite buf outLen hlen, by rw [hread, h]⟩

/-- **Round trip.** A well-formed entry survives the wire if and only if the bytes 2
    to 6 of its timestamp (counted from the most significant one) are zero. -/
theorem roundTrips_iff (e : LogEntry) (hwf : e.WellFormed) :
    RoundTrips e ↔ e.ts.toNat / 2 ^ 8 % 2 ^ 40 = 0 := by
  have hts : bytes64 e.ts = [_, _, _, _, _, _, _, _] := rfl
  have hdigits := map_toNat_bytes64 e.ts
  rw [hts] at hdigits
  simp only [List.map_cons, List.map_nil, List.cons.injEq, and_true] at hdigits
  obtain ⟨_, _, h₂, h₃, h₄, h₅, h₆, _⟩ := hdigits
  rw [roundTrips_iff_decodeEntry, decodeEntry_entryBytes hwf hts]
  -- the other fields are equal already
  have hfield : ∀ ts, ({ e with ts := ts } : LogEntry) = e ↔ ts = e.ts := fun ts =>
    ⟨fun h => congrArg LogEntry.ts h, fun h => by rw [h]⟩
  rw [hfield, decodeTs_eq_iff hts]
  simp only [← UInt8.toNat_inj, h₂, h₃, h₄, h₅, h₆, UInt8.toNat_zero]
  -- the bytes 2 to 6 are the digits between `2 ^ 8` and `2 ^ 48`
  omega

/-- An entry with an empty message. -/
def sampleEntry (ts : UInt64) : LogEntry where
  ts := ts
  pid := 4711
  tid := -1
  level := 2
  tag := Vector.replicate tagMaxLen 0
  file := Vector.replicate fileMaxLen 0
  line := 42
  msg := Vector.replicate msgMaxLen 0
  msgLen := 0
  enabled := 1

theorem sampleEntry_wellFormed (ts : UInt64) : (sampleEntry ts).WellFormed where
  tag := Vector.getElem_replicate _
  file := Vector.getElem_replicate _
  msg := Vector.getElem_replicate _
  level := show (2 : UInt32) < 256 by decide
  msgLen := rfl
  enabled := rfl

theorem roundTrips_iff_sample : RoundTrips (sampleEntry 0x0102000000000003) :=
  (roundTrips_iff _ (sampleEntry_wellFormed _)).mpr (by decide)

/-- A millisecond clock of the year 2023 is read back wrongly. -/
theorem roundTrip_fails :
    (sampleEntry 1700000000000).WellFormed ∧ ¬ RoundTrips (sampleEntry 1700000000000) := by
  refine ⟨sampleEntry_wellFormed _, ?_⟩
  rw [roundTrips_iff_decodeEntry]
  intro h
  exact absurd (congrArg LogEntry.ts h) (by decide)

/-! ## Section 5: Bytes from an untrusted peer -/

theorem decodeText_last (buf : List UInt8) (offset : ℕ) {n : ℕ} (hn : n - 1 < n) :
    (decodeText buf offset n)[n - 1] = 0 := by
  unfold decodeText
  rw [Vector.getElem_setIfInBounds, if_pos rfl]

theorem strlen_lt {n : ℕ} {v : Vector UInt8 n} (hn : n - 1 < n) (hnul : v[n - 1] = 0) :
    strlen v.toList ≤ n - 1 := by
  unfold strlen
  by_contra hlt
  have hnot := List.not_of_lt_findIdx (not_le.mp hlt)
  simp [hnul] at hnot

/-- Whatever the bytes are, the arrays are terminated and the length is that of the message. -/
theorem decodeEntry_terminated (buf : List UInt8) :
    (decodeEntry buf).tag[tagMaxLen - 1] = 0 ∧ (decodeEntry buf).file[fileMaxLen - 1] = 0 ∧
    (decodeEntry buf).msg[msgMaxLen - 1] = 0 ∧
    (decodeEntry buf).msgLen.toNat = strlen (decodeEntry buf).msg.toList ∧
    (decodeEntry buf).msgLen.toNat ≤ 255 := by
  have hmsg := decodeText_last buf 121 (show msgMaxLen - 1 < msgMaxLen by decide)
  have hlen := strlen_lt (by decide) hmsg
  have hfits : (decodeEntry buf).msgLen.toNat = strlen (decodeEntry buf).msg.toList :=
    UInt16.toNat_ofNat_of_lt' (Nat.lt_of_le_of_lt hlen (by decide))
  exact ⟨decodeText_last buf 25 (by decide), decodeText_last buf 57 (by decide), hmsg, hfits,
    hfits.trans_le hlen⟩

/-- **Decoder.** Every buffer that is long enough is decoded to an entry with terminated arrays and
    the length of its message.  A serialised entry comes back, whatever its arrays and numbers are,
    but for its timestamp and the last byte of each array. -/
theorem deserializeEntry_faithful :
    (∀ (buf : List UInt8) (old : LogEntry), entrySize ≤ buf.length →
      ∃ d, silogRemoteDeserializeEntry (some buf) (some old) = (.ok, some d) ∧
        d.tag[tagMaxLen - 1] = 0 ∧ d.file[fileMaxLen - 1] = 0 ∧ d.msg[msgMaxLen - 1] = 0 ∧
        d.msgLen.toNat = strlen d.msg.toList ∧ d.msgLen.toNat ≤ 255) ∧
    ∀ (e : LogEntry) (buf : List UInt8) (outLen : ℕ) (old : LogEntry), e.level < 256 →
      entrySize ≤ buf.length →
      ∃ bytes d, silogRemoteSerializeEntry e (some buf) (some outLen) = (some bytes, some entrySize) ∧
        silogRemoteDeserializeEntry (some bytes) (some old) = (.ok, some d) ∧
        d.pid = e.pid ∧ d.tid = e.tid ∧ d.level = e.level ∧ d.line = e.line ∧
        d.tag.toList = e.tag.toList.set (tagMaxLen - 1) 0 ∧
        d.file.toList = e.file.toList.set (fileMaxLen - 1) 0 ∧
        d.msg.toList = e.msg.toList.set (msgMaxLen - 1) 0 := by
  constructor
  · intro buf old hlen
    refine ⟨decodeEntry buf, ?_, decodeEntry_terminated buf⟩
    simp only [silogRemoteDeserializeEntry, if_neg (not_lt.mpr hlen)]
  · intro e buf outLen old hlevel hlen
    have hread := decodeEntry_append e (buf.drop entrySize) rfl
    have hlen' : ¬ (entryBytes e ++ buf.drop entrySize).length < entrySize := by
      rw [List.length_append, length_entryBytes]
      omega
    refine ⟨entryBytes e ++ buf.drop entrySize, decodeEntry (entryBytes e ++ buf.drop entrySize), ?_, ?_, ?_⟩
    · simp only [silogRemoteSerializeEntry, if_neg (not_lt.mpr hlen)]
    · simp only [silogRemoteDeserializeEntry, if_neg hlen']
    · rw [hread]
      exact ⟨rfl, rfl, level_truncate hlevel, rfl, Vector.toList_setIfInBounds,
        Vector.toList_setIfInBounds, Vector.toList_setIfInBounds⟩

/-- An entry without a NUL in its arrays. -/
def unterminatedEntry : LogEntry where
  ts := 0
  pid := -1
  tid := -1
  level := 255
  tag := Vector.replicate tagMaxLen 65
  file := Vector.replicate fileMaxLen 65
  line := 0x80000000
  msg := Vector.replicate msgMaxLen 65
  msgLen := 0
  enabled := 0

theorem deserializeEntry_faithful_unterminated :
    ∃ bytes d, silogRemoteSerializeEntry unterminatedEntry (some (List.replicate entrySize 0)) (some 0) =
        (some bytes, some entrySize) ∧
      silogRemoteDeserializeEntry (some bytes) (some unterminatedEntry) = (.ok, some d) ∧
      d.pid = -1 ∧ d.level = 255 ∧ d.line = 0x80000000 ∧
      d.msg.toList = List.replicate 255 65 ++ [0] := by
  obtain ⟨bytes, d, hser, hdes, hpid, _, hlevel, hline, _, _, hmsg⟩ :=
    deserializeEntry_faithful.2 unterminatedEntry (List.replicate entrySize 0) 0 unterminatedEntry
      (by decide) (by rw [List.length_replicate])
  exact ⟨bytes, d, hser, hdes, hpid, hlevel, hline, hmsg.trans (by decide +kernel)⟩

end SiLog.Remote
