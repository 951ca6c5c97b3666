import Mathlib.Data.List.Basic
import Mathlib.Data.List.GetD
import Mathlib.Data.Nat.Basic
import Mathlib.Tactic.Ring

/-!
# Words and records in memory

A word of `k` bytes is the list of its bytes in the order of the host. A buffer is cut
into records of equal length, the incomplete one at its end left over.
-/

namespace Bytes

inductive ByteOrder where
  | little
  | big
deriving DecidableEq

/-- The `k` low bytes of a number, least significant first. -/
def bytes : Nat → Nat → List UInt8
  | 0, _ => []
  | k + 1, n => UInt8.ofNat n :: bytes k (n / 256)

/-- The number with these bytes, least significant first. -/
def word : List UInt8 → Nat
  | [] => 0
  | b :: bs => b.toNat + 256 * word bs

@[simp] theorem length_bytes (k n : Nat) : (bytes k n).length = k := by
  induction k generalizing n with
  | zero => rfl
  | succ k ih => rw [bytes, List.length_cons, ih]

theorem word_bytes (k n : Nat) : word (bytes k n) = n % 256 ^ k := by
  induction k generalizing n with
  | zero => simp [bytes, word, Nat.mod_one]
  | succ k ih =>
    rw [bytes, word, ih, pow_succ', Nat.mod_mul]
    simp

theorem bytes_word {k : Nat} {bs : List UInt8} (h : bs.length = k) : bytes k (word bs) = bs := by
  induction bs generalizing k with
  | nil =>
    subst h
    rfl
  | cons b bs ih =>
    have hb : b.toNat < 256 := b.toNat_lt
    have hdiv : (b.toNat + 256 * word bs) / 256 = word bs := by omega
    subst h
    rw [List.length_cons, bytes, word, hdiv, ih rfl]
    congr 1
    apply UInt8.toNat_inj.mp
    simp

/-- A word of `k` bytes as it lies in memory. -/
def store (host : ByteOrder) (k n : Nat) : List UInt8 :=
  match host with
  | .little => bytes k n
  | .big => (bytes k n).reverse

def load (host : ByteOrder) (bs : List UInt8) : Nat :=
  match host with
  | .little => word bs
  | .big => word bs.reverse

@[simp] theorem length_store (host : ByteOrder) (k n : Nat) : (store host k n).length = k := by
  cases host <;> simp [store]

theorem load_store (host : ByteOrder) (k n : Nat) : load host (store host k n) = n % 256 ^ k := by
  cases host <;> simp [store, load, word_bytes]

theorem store_load (host : ByteOrder) {k : Nat} {bs : List UInt8} (h : bs.length = k) :
    store host k (load host bs) = bs := by
  cases host with
  | little => exact bytes_word h
  | big => rw [store, load, bytes_word (by simpa using h), List.reverse_reverse]

section Fields
variable {α : Type}

/-- The bytes of a buffer from an offset on. -/
def field (buffer : List α) (offset size : Nat) : List α := (buffer.drop offset).take size

theorem length_field {buffer : List α} {offset size : Nat} (h : offset + size ≤ buffer.length) :
    (field buffer offset size).length = size := by
  rw [field, List.length_take, List.length_drop]
  omega

/-- Two fields side by side. -/
theorem field_append_field (buffer : List α) (offset m n : Nat) :
    field buffer offset m ++ field buffer (offset + m) n = field buffer offset (m + n) := by
  rw [field, field, field, List.take_add, List.drop_drop]

theorem field_all {buffer : List α} {n : Nat} (h : buffer.length = n) :
    field buffer 0 n = buffer := by
  rw [field, List.drop_zero, ← h, List.take_length]

/-- A field of a buffer that starts with it. -/
theorem field_left {size : Nat} {a b : List α} (h : a.length = size) :
    field (a ++ b) 0 size = a := by
  subst h
  rw [field, List.drop_zero, List.take_left]

theorem field_skip {offset : Nat} {a : List α} (h : a.length ≤ offset) (b : List α) (size : Nat) :
    field (a ++ b) offset size = field b (offset - a.length) size := by
  rw [field, field, List.drop_append, List.drop_eq_nil_of_le h, List.nil_append]

end Fields

section Blocks
variable {α : Type} {k : Nat}

/-- The complete records of `k` bytes at the front of a buffer. -/
def blocks (k : Nat) (buffer : List α) : List (List α) :=
  (List.range (buffer.length / k)).map fun j => field buffer (k * j) k

/-- What follows the complete records. -/
def leftover (k : Nat) (buffer : List α) : List α := buffer.drop (k * (buffer.length / k))

theorem blocks_of_lt {buffer : List α} (h : buffer.length < k) : blocks k buffer = [] := by
  rw [blocks, Nat.div_eq_of_lt h, List.range_zero, List.map_nil]

theorem leftover_of_lt {buffer : List α} (h : buffer.length < k) :
    leftover k buffer = buffer := by
  rw [leftover, Nat.div_eq_of_lt h, Nat.mul_zero, List.drop_zero]

theorem length_leftover (buffer : List α) : (leftover k buffer).length = buffer.length % k := by
  rw [leftover, List.length_drop]
  have := Nat.div_add_mod buffer.length k
  omega

theorem leftover_of_dvd {buffer : List α} (h : k ∣ buffer.length) : leftover k buffer = [] := by
  apply List.eq_nil_of_length_eq_zero
  rw [length_leftover, Nat.mod_eq_zero_of_dvd h]

theorem blocks_cons {buffer : List α} (hpos : 0 < k) (h : k ≤ buffer.length) :
    blocks k buffer = field buffer 0 k :: blocks k (buffer.drop k) := by
  have hdiv : buffer.length / k = (buffer.length - k) / k + 1 := Nat.div_eq_sub_div hpos h
  rw [blocks, blocks, hdiv, List.range_succ_eq_map, List.map_cons, List.map_map, List.length_drop]
  congr 1
  apply List.map_congr_left
  intro j _
  simp only [Function.comp_apply, field, List.drop_drop]
  rw [Nat.mul_succ, Nat.add_comm]

theorem leftover_drop {buffer : List α} (hpos : 0 < k) (h : k ≤ buffer.length) :
    leftover k (buffer.drop k) = leftover k buffer := by
  have hdiv : buffer.length / k = (buffer.length - k) / k + 1 := Nat.div_eq_sub_div hpos h
  rw [leftover, leftover, List.drop_drop, List.length_drop, hdiv]
  congr 1
  ring

theorem length_blocks (buffer : List α) : (blocks k buffer).length = buffer.length / k := by
  rw [blocks, List.length_map, List.length_range]

/-- The records of a buffer cut short. -/
theorem blocks_take {buffer : List α} {n : Nat} (h : n ≤ buffer.length) :
    blocks k (buffer.take n) = (blocks k buffer).take (n / k) := by
  have hlen : (buffer.take n).length = n := by rw [List.length_take, Nat.min_eq_left h]
  have hle : n / k ≤ buffer.length / k := Nat.div_le_div_right h
  rw [blocks, blocks, hlen, ← List.map_take, List.take_range, Nat.min_eq_left hle]
  apply List.map_congr_left
  intro j hj
  have hend : k * (j + 1) ≤ n :=
    (Nat.mul_le_mul_left k (List.mem_range.mp hj)).trans (Nat.mul_div_le n k)
  rw [Nat.mul_succ] at hend
  rw [field, field, List.drop_take, List.take_take, Nat.min_eq_left (by omega)]

/-- Records that end together with a part of the buffer are those of the part. -/
theorem blocks_append {a b : List α} (hpos : 0 < k) (ha : k ∣ a.length) :
    blocks k (a ++ b) = blocks k a ++ blocks k b := by
  obtain ⟨q, hq⟩ := ha
  induction q generalizing a with
  | zero =>
    have hnil : a = [] := List.eq_nil_of_length_eq_zero hq
    subst hnil
    have hnone : blocks k ([] : List α) = [] := blocks_of_lt hpos
    rw [hnone, List.nil_append, List.nil_append]
  | succ q ih =>
    have hle : k ≤ a.length := by
      rw [hq]
      exact Nat.le_mul_of_pos_right k q.succ_pos
    have hdrop : (a.drop k).length = k * q := by
      rw [List.length_drop, hq, Nat.mul_succ, Nat.add_sub_cancel]
    rw [blocks_cons hpos (by rw [List.length_append]; omega), blocks_cons hpos hle,
      List.drop_append_of_le_length hle, ih hdrop, List.cons_append]
    congr 1
    rw [field, field, List.drop_zero, List.drop_zero, List.take_append_of_le_length hle]

theorem leftover_append {a b : List α} (hpos : 0 < k) (ha : k ∣ a.length) :
    leftover k (a ++ b) = leftover k b := by
  obtain ⟨q, hq⟩ := ha
  have hdiv : (a ++ b).length / k = q + b.length / k := by
    rw [List.length_append, hq, Nat.mul_add_div hpos]
  rw [leftover, leftover, hdiv, Nat.mul_add, ← hq, List.drop_append,
    List.drop_eq_nil_of_le (by omega), List.nil_append]
  congr 1
  omega

end Blocks

section Memory
variable {α : Type}

/-- The `n` cells from `base` on. -/
def readCells (memory : Nat → α) (base n : Nat) : List α :=
  (List.range n).map fun k => memory (base + k)

/-- The cells from `base` on are overwritten. -/
def writeCells (memory : Nat → α) (base : Nat) (xs : List α) : Nat → α :=
  fun i => if base ≤ i then xs.getD (i - base) (memory i) else memory i

/-- `std::memmove` of `n` cells within one array. -/
def moveCells (memory : Nat → α) (target source n : Nat) : Nat → α :=
  writeCells memory target (readCells memory source n)

variable (memory : Nat → α)

@[simp] theorem length_readCells (base n : Nat) : (readCells memory base n).length = n := by
  simp [readCells]

theorem getElem_readCells (base n : Nat) {k : Nat} (h : k < (readCells memory base n).length) :
    (readCells memory base n)[k] = memory (base + k) := by
  simp [readCells]

theorem readCells_congr {memory memory' : Nat → α} {base base' n : Nat}
    (h : ∀ k < n, memory (base + k) = memory' (base' + k)) :
    readCells memory base n = readCells memory' base' n :=
  List.map_congr_left fun k hk => h k (List.mem_range.mp hk)

theorem field_readCells {base n offset size : Nat} (h : offset + size ≤ n) :
    field (readCells memory base n) offset size = readCells memory (base + offset) size := by
  apply List.ext_getElem
  · rw [length_field (by rwa [length_readCells]), length_readCells]
  · intro k _ _
    simp only [field, List.getElem_take, List.getElem_drop, getElem_readCells, Nat.add_assoc]

theorem drop_readCells (base n k : Nat) :
    (readCells memory base n).drop k = readCells memory (base + k) (n - k) := by
  apply List.ext_getElem
  · simp only [List.length_drop, length_readCells]
  · intro i _ _
    simp only [List.getElem_drop, getElem_readCells, Nat.add_assoc]

theorem readCells_append (base m n : Nat) :
    readCells memory base (m + n) =
      readCells memory base m ++ readCells memory (base + m) n := by
  rw [← List.take_append_drop m (readCells memory base (m + n)), drop_readCells,
    Nat.add_sub_cancel_left]
  congr 1
  have hfield : field (readCells memory base (m + n)) 0 m = readCells memory (base + 0) m :=
    field_readCells memory (by omega)
  rwa [field, List.drop_zero, Nat.add_zero] at hfield

theorem writeCells_at {base i : Nat} {xs : List α} (h : i < xs.length) :
    writeCells memory base xs (base + i) = xs[i] := by
  rw [writeCells, if_pos (Nat.le_add_right _ _), Nat.add_sub_cancel_left,
    List.getD_eq_getElem _ _ h]

theorem writeCells_outside {base i : Nat} {xs : List α} (h : i < base ∨ base + xs.length ≤ i) :
    writeCells memory base xs i = memory i := by
  rw [writeCells]
  split
  · exact List.getD_eq_default _ _ (by omega)
  · rfl

/-- What was written is read back. -/
theorem readCells_writeCells (base : Nat) (xs : List α) :
    readCells (writeCells memory base xs) base xs.length = xs := by
  apply List.ext_getElem
  · rw [length_readCells]
  · intro i _ hi
    rw [getElem_readCells, writeCells_at memory hi]

theorem readCells_writeCells_outside {base base' n : Nat} {xs : List α}
    (h : base' + n ≤ base ∨ base + xs.length ≤ base') :
    readCells (writeCells memory base xs) base' n = readCells memory base' n :=
  readCells_congr fun _ _ => writeCells_outside memory (by omega)

theorem readCells_moveCells (target source n : Nat) :
    readCells (moveCells memory target source n) target n = readCells memory source n := by
  have h := readCells_writeCells memory target (readCells memory source n)
  rwa [length_readCells] at h

end Memory

end Bytes
