import Mathlib.Data.List.TakeWhile
import Mathlib.Data.UInt
import Mathlib.Tactic.Common

/-!
# C strings

A string without its terminator, one character for each byte, and what the C library reads
from it and prints to it.
-/

/-- The bytes before the terminator. -/
structure CString where
  chars : List Char
  bytes : ∀ c ∈ chars, 0 < c.toNat ∧ c.toNat < 256
  deriving DecidableEq

namespace CString

/-- The string of those of these characters that are bytes of one. -/
def ofChars (cs : List Char) : CString where
  chars := cs.filter fun c => 0 < c.toNat && c.toNat < 256
  bytes c hc := by simpa using (List.mem_filter.mp hc).2

/-- `isspace` in the C locale. -/
def isSpace (c : Char) : Bool := c == ' ' || (9 ≤ c.toNat && c.toNat ≤ 13)

/-- The sign `strtoull` takes off, if there is one. -/
def splitSign : List Char → Bool × List Char
  | '-' :: cs => (true, cs)
  | '+' :: cs => (false, cs)
  | cs => (false, cs)

/-- `strtoull` in base ten, where `unsigned long long` has 64 bits. -/
def strtoull (s : CString) : UInt64 :=
  let (negative, cs) := splitSign (s.chars.dropWhile isSpace)
  let value := Nat.ofDigitChars 10 (cs.takeWhile Char.isDigit) 0
  if 2 ^ 64 ≤ value then .ofNat (2 ^ 64 - 1)
  else if negative then 0 - .ofNat value
  else .ofNat value

/-- A string of digits, and not empty. -/
def isAllDigits (s : CString) : Bool := !s.chars.isEmpty && s.chars.all Char.isDigit

/-- What is left of a string in a buffer of `size` bytes, as `snprintf` fills it. -/
def truncate (s : CString) (size : ℕ) : CString :=
  ⟨s.chars.take (size - 1), fun c hc => s.bytes c (List.mem_of_mem_take hc)⟩

/-- The bytes in front of an index. -/
def before (s : CString) (i : ℕ) : CString :=
  ⟨s.chars.take i, fun c hc => s.bytes c (List.mem_of_mem_take hc)⟩

/-- The bytes from an index on. -/
def fromIndex (s : CString) (i : ℕ) : CString :=
  ⟨s.chars.drop i, fun c hc => s.bytes c (List.mem_of_mem_drop hc)⟩

/-- Two strings with a colon between them. -/
def joinColon (s t : CString) : CString where
  chars := s.chars ++ ':' :: t.chars
  bytes := by
    intro c hc
    rcases List.mem_append.mp hc with hc | hc
    · exact s.bytes c hc
    · rcases List.mem_cons.mp hc with rfl | hc
      · decide
      · exact t.bytes c hc

/-- Where a character stands last. -/
def lastIndex (c : Char) : List Char → Option ℕ
  | [] => none
  | d :: ds =>
    match lastIndex c ds with
    | some i => some (i + 1)
    | none => if d = c then some 0 else none

/-- `strrchr`, as an index. -/
def strrchr (s : CString) (c : Char) : Option ℕ := lastIndex c s.chars

theorem isDigit_toNat {c : Char} (h : c.isDigit = true) : 48 ≤ c.toNat ∧ c.toNat ≤ 57 := by
  simp only [Char.isDigit, Bool.and_eq_true, decide_eq_true_eq, ge_iff_le,
    UInt32.le_iff_toNat_le] at h
  exact h

/-- `%llu`. -/
def decimal (n : UInt64) : CString where
  chars := Nat.toDigits 10 n.toNat
  bytes := by
    intro c hc
    have hdigit := isDigit_toNat (Nat.isDigit_of_mem_toDigits (by decide) (by decide) hc)
    omega

/-- The empty string. -/
def empty : CString := ⟨[], by simp⟩

variable {s : CString} {n : UInt64}

@[ext] theorem ext {s t : CString} (h : s.chars = t.chars) : s = t := by
  cases s
  cases t
  simpa using h

theorem truncate_chars (s : CString) (size : ℕ) :
    (s.truncate size).chars = s.chars.take (size - 1) := rfl

theorem truncate_eq {size : ℕ} (h : s.chars.length < size) : s.truncate size = s := by
  apply ext
  rw [truncate_chars]
  exact List.take_of_length_le (by omega)

theorem lastIndex_eq_none {c : Char} {cs : List Char} : lastIndex c cs = none ↔ c ∉ cs := by
  induction cs with
  | nil => simp [lastIndex]
  | cons d ds ih =>
    rw [lastIndex]
    cases hl : lastIndex c ds with
    | some i =>
      have hmem : c ∈ ds := by
        by_contra hno
        rw [ih.mpr hno] at hl
        cases hl
      simp [hmem]
    | none =>
      have hno := ih.mp hl
      by_cases hd : d = c
      · simp [hd]
      · simp [hd, hno, Ne.symm hd]

/-- The last occurrence is the one behind which there is no other. -/
theorem lastIndex_append {c : Char} (pre : List Char) {post : List Char} (h : c ∉ post) :
    lastIndex c (pre ++ c :: post) = some pre.length := by
  induction pre with
  | nil => simp [lastIndex, lastIndex_eq_none.mpr h]
  | cons d pre ih =>
    rw [List.cons_append, lastIndex, ih]
    rfl

/-- What a character splits off is shorter the later it stands. -/
theorem lastIndex_append_of_mem {c : Char} (pre : List Char) {post : List Char} (h : c ∈ post) :
    ∃ i, lastIndex c (pre ++ c :: post) = some i ∧ pre.length < i := by
  obtain ⟨j, hj⟩ : ∃ j, lastIndex c post = some j := by
    cases hl : lastIndex c post with
    | none => exact absurd h (lastIndex_eq_none.mp hl)
    | some j => exact ⟨j, rfl⟩
  induction pre with
  | nil => exact ⟨j + 1, by simp [lastIndex, hj], by simp⟩
  | cons d pre ih =>
    obtain ⟨i, hi, hlt⟩ := ih
    exact ⟨i + 1, by simp [lastIndex, hi], by simpa using hlt⟩

theorem isDigit_not_space {c : Char} (h : c.isDigit = true) : isSpace c = false := by
  have hd := isDigit_toNat h
  have hne : c ≠ ' ' := by
    rintro rfl
    simp at h
  simp [isSpace, hne]
  omega

theorem splitSign_digit {c : Char} {cs : List Char} (h : c.isDigit = true) :
    splitSign (c :: cs) = (false, c :: cs) := by
  unfold splitSign
  split
  · rename_i heq
    obtain rfl := (List.cons.inj heq).1
    simp at h
  · rename_i heq
    obtain rfl := (List.cons.inj heq).1
    simp at h
  · rfl

/-- A string of digits is read as its number, as far as 64 bits hold it. -/
theorem strtoull_digits (h : s.isAllDigits = true) :
    s.strtoull = if 2 ^ 64 ≤ Nat.ofDigitChars 10 s.chars 0 then .ofNat (2 ^ 64 - 1)
      else .ofNat (Nat.ofDigitChars 10 s.chars 0) := by
  obtain ⟨hne, hall⟩ : s.chars ≠ [] ∧ ∀ c ∈ s.chars, c.isDigit = true := by
    simpa [isAllDigits] using h
  have htake : s.chars.takeWhile Char.isDigit = s.chars := List.takeWhile_eq_self_iff.mpr hall
  cases hs : s.chars with
  | nil => exact absurd hs hne
  | cons c cs =>
    have hc : c.isDigit = true := hall c (by simp [hs])
    have hdrop : (c :: cs).dropWhile isSpace = c :: cs := by
      simp [isDigit_not_space hc]
    rw [hs] at htake
    unfold strtoull
    rw [hs, hdrop, splitSign_digit hc]
    simp [htake]

theorem isAllDigits_decimal (n : UInt64) : (decimal n).isAllDigits = true := by
  have hall : ∀ c ∈ Nat.toDigits 10 n.toNat, c.isDigit = true :=
    fun c hc => Nat.isDigit_of_mem_toDigits (by decide) (by decide) hc
  have hne : Nat.toDigits 10 n.toNat ≠ [] := Nat.toDigits_ne_nil
  simpa [isAllDigits, decimal, hne] using hall

/-- What `%llu` prints `strtoull` reads back. -/
theorem strtoull_decimal (n : UInt64) : (decimal n).strtoull = n := by
  rw [strtoull_digits (isAllDigits_decimal n)]
  have hvalue : Nat.ofDigitChars 10 (decimal n).chars 0 = n.toNat := Nat.ofDigitChars_ten_toDigits
  have hlt := n.toNat_lt
  rw [hvalue, if_neg (by omega)]
  exact UInt64.ofNat_toNat

/-- 64 bits have at most twenty decimal digits. -/
theorem decimal_length (n : UInt64) : (decimal n).chars.length ≤ 20 := by
  have hlt := n.toNat_lt
  exact (Nat.length_toDigits_le_iff (by decide) (by decide)).mpr (by omega)

end CString
