import SiLog.Logger.Log

/-! # Entries as elements of a queue

    The queues copy a `logEntry_t` as a block of bytes, and so does the socket
    between the processes.  What the daemon pops it reads as a `logEntry_t`
    again, with the fields at the offsets at which the logger wrote them.
-/

open BigEndian

namespace SiLog.Logger

/-! ## Section 1: Reading an element -/

/-- A little-endian 64-bit number at an offset. -/
def load64 (bs : List UInt8) (offset : ℕ) : UInt64 :=
  let b := fun i => bs.getD (offset + i) 0
  word64 (b 7) (b 6) (b 5) (b 4) (b 3) (b 2) (b 1) (b 0)

/-- A little-endian 32-bit number at an offset. -/
def load32 (bs : List UInt8) (offset : ℕ) : UInt32 :=
  let b := fun i => bs.getD (offset + i) 0
  word32 (b 3) (b 2) (b 1) (b 0)

/-- A little-endian 16-bit number at an offset. -/
def load16 (bs : List UInt8) (offset : ℕ) : UInt16 :=
  (bs.getD offset 0).toUInt16 ||| ((bs.getD (offset + 1) 0).toUInt16 <<< 8)

/-- A character array of `n` bytes at an offset. -/
def loadArray (n : ℕ) (bs : List UInt8) (offset : ℕ) : Vector UInt8 n :=
  Vector.ofFn fun i => bs.getD (offset + i) 0

/-- The `logEntry_t` in a block of bytes. -/
def entryOfBytes (bs : List UInt8) : LogEntry where
  ts := load64 bs 0
  pid := (load32 bs 8).toInt32
  tid := (load32 bs 12).toInt32
  level := load32 bs 16
  tag := loadArray tagMaxLen bs 20
  file := loadArray fileMaxLen bs 52
  line := load32 bs 116
  msg := loadArray msgMaxLen bs 120
  msgLen := load16 bs 376
  enabled := bs.getD 378 0

/-- The `logEntry_t` in an element of a queue. -/
def entryOfElem (e : Mpsc.Elem logEntrySize) : LogEntry := entryOfBytes (List.ofFn e)

/-! ## Section 2: What was written is read -/

section load
variable {front back bs : List UInt8} {j : ℕ}

/-- Behind a piece of `j` bytes the offsets are counted from its end. -/
theorem getD_skip (h : front.length = j) (i : ℕ) :
    (front ++ bs).getD (j + i) 0 = bs.getD i 0 := by
  subst h
  simp only [List.getD_eq_getElem?_getD]
  rw [List.getElem?_append_right (Nat.le_add_right _ _), Nat.add_sub_cancel_left]

theorem load32_skip (h : front.length = j) (k : ℕ) :
    load32 (front ++ bs) (j + k) = load32 bs k := by
  unfold load32
  simp only [Nat.add_assoc, getD_skip h]

theorem load16_skip (h : front.length = j) (k : ℕ) :
    load16 (front ++ bs) (j + k) = load16 bs k := by
  unfold load16
  simp only [Nat.add_assoc, getD_skip h]

theorem loadArray_skip (n : ℕ) (h : front.length = j) (k : ℕ) :
    loadArray n (front ++ bs) (j + k) = loadArray n bs k := by
  unfold loadArray
  simp only [Nat.add_assoc, getD_skip h]

theorem load64_head (w : UInt64) : load64 ((bytes64 w).reverse ++ back) 0 = w :=
  (bytes64_eq_iff.mp rfl).symm

theorem load32_head (w : UInt32) : load32 ((bytes32 w).reverse ++ back) 0 = w :=
  (bytes32_eq_iff.mp rfl).symm

theorem loadArray_head {n : ℕ} (v : Vector UInt8 n) : loadArray n (v.toList ++ back) 0 = v := by
  apply Vector.ext
  intro i hi
  have hlen : i < v.toList.length := by rw [Vector.length_toList]; exact hi
  rw [loadArray, Vector.getElem_ofFn, Nat.zero_add, List.getD_eq_getElem?_getD,
    List.getElem?_append_left hlen, List.getElem?_eq_getElem hlen, Option.getD_some,
    Vector.getElem_toList]

theorem load16_head (w : UInt16) :
    load16 (w.toUInt8 :: (w >>> 8).toUInt8 :: back) 0 = w := by
  show w.toUInt8.toUInt16 ||| ((w >>> 8).toUInt8.toUInt16 <<< 8) = w
  apply UInt16.toNat_inj.mp
  have hw := w.toNat_lt
  have hshift : (w >>> 8).toNat = w.toNat / 2 ^ 8 := by
    rw [UInt16.toNat_shiftRight, Nat.shiftRight_eq_div_pow]
    rfl
  have hhigh : ((w >>> 8).toUInt8.toUInt16 <<< 8).toNat = w.toNat / 2 ^ 8 * 2 ^ 8 := by
    rw [UInt16.toNat_shiftLeft, UInt8.toNat_toUInt16, UInt16.toNat_toUInt8, hshift,
      Nat.mod_eq_of_lt (by omega : w.toNat / 2 ^ 8 < 2 ^ 8), Nat.shiftLeft_eq]
    show w.toNat / 2 ^ 8 * 2 ^ 8 % 2 ^ 16 = _
    exact Nat.mod_eq_of_lt (by omega)
  -- the two bytes do not overlap, so their union is their sum
  have hsum := Nat.two_pow_add_eq_or_of_lt (Nat.mod_lt w.toNat (Nat.two_pow_pos 8)) (w.toNat / 2 ^ 8)
  rw [UInt16.toNat_or, hhigh, UInt8.toNat_toUInt16, UInt16.toNat_toUInt8, Nat.or_comm,
    Nat.mul_comm, ← hsum]
  exact Nat.div_add_mod w.toNat (2 ^ 8)

end load

/-- The bytes of an entry spell the entry. -/
theorem entryOfBytes_entryBytes (e : LogEntry) : entryOfBytes (entryBytes e) = e := by
  have h₈ : ∀ w, (bytes64 w).reverse.length = 8 := fun _ => rfl
  have h₄ : ∀ w, (bytes32 w).reverse.length = 4 := fun _ => rfl
  obtain ⟨ts, pid, tid, level, tag, file, line, msg, msgLen, enabled⟩ := e
  have htag : tag.toList.length = 32 := tag.length_toList
  have hfile : file.toList.length = 64 := file.length_toList
  have hmsg : msg.toList.length = 256 := msg.length_toList
  unfold entryOfBytes
  simp only [entryBytes, List.append_assoc, LogEntry.mk.injEq]
  refine ⟨load64_head _, ?_, ?_, ?_, ?_, ?_, ?_, ?_, ?_, ?_⟩
  · show (load32 _ (8 + 0)).toInt32 = pid
    rw [load32_skip (h₈ _), load32_head, Int32.toInt32_toUInt32]
  · show (load32 _ (8 + (4 + 0))).toInt32 = tid
    rw [load32_skip (h₈ _), load32_skip (h₄ _), load32_head, Int32.toInt32_toUInt32]
  · show load32 _ (8 + (4 + (4 + 0))) = level
    rw [load32_skip (h₈ _), load32_skip (h₄ _), load32_skip (h₄ _), load32_head]
  · show loadArray tagMaxLen _ (8 + (4 + (4 + (4 + 0)))) = tag
    rw [loadArray_skip _ (h₈ _), loadArray_skip _ (h₄ _), loadArray_skip _ (h₄ _),
      loadArray_skip _ (h₄ _), loadArray_head]
  · show loadArray fileMaxLen _ (8 + (4 + (4 + (4 + (32 + 0))))) = file
    rw [loadArray_skip _ (h₈ _), loadArray_skip _ (h₄ _), loadArray_skip _ (h₄ _),
      loadArray_skip _ (h₄ _), loadArray_skip _ htag, loadArray_head]
  · show load32 _ (8 + (4 + (4 + (4 + (32 + (64 + 0)))))) = line
    rw [load32_skip (h₈ _), load32_skip (h₄ _), load32_skip (h₄ _), load32_skip (h₄ _),
      load32_skip htag, load32_skip hfile, load32_head]
  · show loadArray msgMaxLen _ (8 + (4 + (4 + (4 + (32 + (64 + (4 + 0))))))) = msg
    rw [loadArray_skip _ (h₈ _), loadArray_skip _ (h₄ _), loadArray_skip _ (h₄ _),
      loadArray_skip _ (h₄ _), loadArray_skip _ htag, loadArray_skip _ hfile,
      loadArray_skip _ (h₄ _), loadArray_head]
  · show load16 _ (8 + (4 + (4 + (4 + (32 + (64 + (4 + (256 + 0)))))))) = msgLen
    rw [load16_skip (h₈ _), load16_skip (h₄ _), load16_skip (h₄ _), load16_skip (h₄ _),
      load16_skip htag, load16_skip hfile, load16_skip (h₄ _), load16_skip hmsg]
    exact load16_head msgLen
  · show List.getD _ (8 + (4 + (4 + (4 + (32 + (64 + (4 + (256 + 2)))))))) 0 = enabled
    rw [getD_skip (h₈ _), getD_skip (h₄ _), getD_skip (h₄ _), getD_skip (h₄ _),
      getD_skip htag, getD_skip hfile, getD_skip (h₄ _), getD_skip hmsg]
    rfl

theorem length_entryBytes (e : LogEntry) : (entryBytes e).length = logEntrySize := by
  simp only [entryBytes, List.length_append, List.length_reverse, Vector.length_toList]
  rfl

theorem ofFn_entryElem (e : LogEntry) : List.ofFn (entryElem e) = entryBytes e := by
  apply List.ext_getElem
  · rw [List.length_ofFn, length_entryBytes]
  · intro i _ hi
    rw [List.getElem_ofFn, entryElem, List.getD_eq_getElem _ _ hi]

/-- The element of an entry holds the entry. -/
theorem entryOfElem_entryElem (e : LogEntry) : entryOfElem (entryElem e) = e := by
  rw [entryOfElem, ofFn_entryElem, entryOfBytes_entryBytes]

end SiLog.Logger
