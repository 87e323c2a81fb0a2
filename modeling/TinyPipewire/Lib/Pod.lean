import Mathlib.Data.UInt
import Mathlib.Tactic.Common

/-!
# The POD format

Nested typed values: a header with the size of the body and its type, then the body, and
padding up to eight bytes where something follows. A sequence or an object has a body of
two words and then entries, each of two words and a value. Words are little-endian.
-/

namespace Pod

abbrev Bytes := List UInt8

/-! ### Words and padding -/

def word (w : UInt32) : Bytes :=
  [.ofNat w.toNat, .ofNat (w.toNat / 256), .ofNat (w.toNat / 65536), .ofNat (w.toNat / 16777216)]

def wordAt (bs : Bytes) (i : ℕ) : UInt32 :=
  .ofNat ((bs.getD i 0).toNat + 256 * (bs.getD (i + 1) 0).toNat +
    65536 * (bs.getD (i + 2) 0).toNat + 16777216 * (bs.getD (i + 3) 0).toNat)

/-- The bytes between a size and the next multiple of eight. -/
def padding (n : ℕ) : ℕ := (8 - n % 8) % 8

def roundUp (n : ℕ) : ℕ := n + padding n

def padded (bs : Bytes) : Bytes := bs ++ List.replicate (padding bs.length) 0

section Words

variable {w : UInt32} {bs : Bytes} {i n : ℕ}

@[simp] theorem word_length : (word w).length = 4 := rfl

@[simp] theorem wordAt_word : wordAt (word w ++ bs) 0 = w := by
  have hw : w.toNat < 4294967296 := w.toNat_lt
  apply UInt32.toNat_inj.mp
  simp [wordAt, word, UInt8.toNat_ofNat', UInt32.toNat_ofNat']
  omega

@[simp] theorem wordAt_word_add : wordAt (word w ++ bs) (i + 4) = wordAt bs i := rfl

@[simp] theorem roundUp_mod : roundUp n % 8 = 0 := by
  simp only [roundUp, padding]
  omega

theorem padding_eq_zero (h : n % 8 = 0) : padding n = 0 := by
  simp only [padding]
  omega

@[simp] theorem padded_length : (padded bs).length = roundUp bs.length := by
  simp [padded, roundUp]

theorem padded_eq (h : bs.length % 8 = 0) : padded bs = bs := by
  simp [padded, padding_eq_zero h]

end Words

/-! ### Values -/

/-- A value as it is written: header and body. -/
def encode (type : UInt32) (body : Bytes) : Bytes :=
  word (.ofNat body.length) ++ word type ++ body

/-- A value as it is read: `start` is where its body stands in the block. -/
structure Value where
  type : UInt32
  start : ℕ
  body : Bytes
  deriving DecidableEq, Repr

/-- The value at `start`, if it lies inside `bs`, the bytes from there on. -/
def read (start : ℕ) (bs : Bytes) : Option Value :=
  if 8 ≤ bs.length ∧ 8 + (wordAt bs 0).toNat ≤ bs.length then
    some ⟨wordAt bs 4, start + 8, (bs.drop 8).take (wordAt bs 0).toNat⟩
  else none

section Values

variable {type : UInt32} {body bs rest : Bytes} {start : ℕ} {v : Value}

@[simp] theorem encode_length : (encode type body).length = 8 + body.length := by
  simp only [encode, List.length_append, word_length]

/-- A value whose body has a size of 32 bits is read as it was written. -/
theorem read_encode (h : body.length < 2 ^ 32) :
    read start (encode type body ++ rest) = some ⟨type, start + 8, body⟩ := by
  have hsize : (wordAt (encode type body ++ rest) 0).toNat = body.length := by
    rw [encode, List.append_assoc, List.append_assoc, wordAt_word, UInt32.toNat_ofNat']
    exact Nat.mod_eq_of_lt h
  have htype : wordAt (encode type body ++ rest) 4 = type := by
    rw [encode, List.append_assoc, List.append_assoc]
    exact wordAt_word_add.trans wordAt_word
  have hbody : (encode type body ++ rest).drop 8 = body ++ rest := by
    rw [encode, List.append_assoc]
    exact List.drop_left' rfl
  have hlen : (encode type body ++ rest).length = 8 + body.length + rest.length := by
    rw [List.length_append, encode_length]
  rw [read, if_pos (by omega), hsize, htype, hbody, List.take_left]

/-- What is read stands where it says. -/
theorem read_prefix {content : Bytes} (hb : bs <+: content.drop start)
    (hr : read start bs = some v) : v.body <+: content.drop v.start := by
  unfold read at hr
  split at hr
  · obtain rfl := Option.some.inj hr
    have hd := hb.drop 8
    rw [List.drop_drop] at hd
    exact (List.take_prefix _ _).trans hd
  · cases hr

end Values

/-! ### Entries -/

/-- One entry as it is written: the two words of a control or of a property, and its value. -/
structure Item where
  first : UInt32
  second : UInt32
  type : UInt32
  body : Bytes
  deriving DecidableEq, Repr

def Item.bytes (e : Item) : Bytes :=
  padded (word e.first ++ word e.second ++ encode e.type e.body)

/-- One entry as it is read. -/
structure Entry where
  first : UInt32
  second : UInt32
  value : Value
  deriving DecidableEq, Repr

def Entry.item (e : Entry) : Item := ⟨e.first, e.second, e.value.type, e.value.body⟩

/-- Walks the entries of the bytes from `start` on, as long as one lies inside. Each takes
sixteen bytes at least, so as many steps as there are bytes are enough. -/
def entriesFrom : ℕ → ℕ → Bytes → List Entry
  | 0, _, _ => []
  | fuel + 1, start, bs =>
    match read (start + 8) (bs.drop 8) with
    | none => []
    | some v =>
      let size := roundUp (16 + v.body.length)
      ⟨wordAt bs 0, wordAt bs 4, v⟩ :: entriesFrom fuel (start + size) (bs.drop size)

/-- The entries of a sequence or an object, past the two words its body starts with. -/
def Value.entries (v : Value) : List Entry :=
  entriesFrom v.body.length (v.start + 8) (v.body.drop 8)

/-- The body of a sequence or an object with these entries. -/
def container (first second : UInt32) (es : List Item) : Bytes :=
  word first ++ word second ++ es.flatMap Item.bytes

section Entries

variable {e : Item} {es : List Item}

@[simp] theorem Item.bytes_length : e.bytes.length = roundUp (16 + e.body.length) := by
  rw [Item.bytes, padded_length, List.length_append, List.length_append, encode_length]
  simp only [word_length]
  congr 1
  omega

/-- Only the value of an entry needs padding. -/
theorem Item.bytes_eq :
    e.bytes = (word e.first ++ word e.second) ++ padded (encode e.type e.body) := by
  have hpad : padding (word e.first ++ word e.second ++ encode e.type e.body).length =
      padding (encode e.type e.body).length := by
    simp only [List.length_append, word_length, padding]
    omega
  rw [Item.bytes, padded, hpad, padded, List.append_assoc]

theorem flatMap_bytes_mod : (es.flatMap Item.bytes).length % 8 = 0 := by
  induction es with
  | nil => rfl
  | cons e es ih =>
    have he := roundUp_mod (n := 16 + e.body.length)
    rw [List.flatMap_cons, List.length_append, Item.bytes_length]
    omega

theorem container_length {a b : UInt32} :
    (container a b es).length = 8 + (es.flatMap Item.bytes).length := by
  simp only [container, List.length_append, word_length]

end Entries

end Pod
