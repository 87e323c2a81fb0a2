import Mathlib.Data.List.DropRight
import Mathlib.Data.List.Range
import Mathlib.Data.List.TakeWhile
import Mathlib.Logic.Function.Basic
import Mathlib.Tactic.Common

/-!
# Cells of an array

An array as it lies in memory: a cell for every index, of which the first few are in use. An
entry gets room among them by moving those behind it up, one at a time.
-/

universe u

namespace Cells

variable {α : Type u}

/-- The first `n` cells. -/
def first (n : ℕ) (c : ℕ → α) : List α := (List.range n).map c

/-- `for (i = last; i > pos; i--) c[i] = c[i - 1]`. -/
def shift (pos : ℕ) : ℕ → (ℕ → α) → ℕ → α
  | 0, c => c
  | i + 1, c => if pos < i + 1 then shift pos i (Function.update c (i + 1) (c i)) else c

/-- `while (at > 0 && p(c[at - 1])) { c[at] = c[at - 1]; at--; }`: where it stops, and the cells
then. -/
def shiftWhile (p : α → Bool) : ℕ → (ℕ → α) → ℕ × (ℕ → α)
  | 0, c => (0, c)
  | i + 1, c =>
    if p (c i) then shiftWhile p i (Function.update c (i + 1) (c i)) else (i + 1, c)

/-- `while (pos < n && p(c[pos])) pos++`, with as many cells left. -/
def scan (p : α → Bool) (c : ℕ → α) : ℕ → ℕ → ℕ
  | 0, pos => pos
  | left + 1, pos => if p (c pos) then scan p c left (pos + 1) else pos

variable {c : ℕ → α} {p : α → Bool} {n pos last i : ℕ} {x : α}

@[simp] theorem first_length : (first n c).length = n := by simp [first]

theorem first_succ : first (n + 1) c = first n c ++ [c n] := by simp [first, List.range_succ]

theorem first_congr {d : ℕ → α} (h : ∀ i < n, c i = d i) : first n c = first n d := by
  apply List.map_congr_left
  intro i hi
  exact h i (List.mem_range.mp hi)

theorem first_getElem? (hi : i < n) : (first n c)[i]? = some (c i) := by simp [first, hi]

theorem first_snoc : first (n + 1) (Function.update c n x) = first n c ++ [x] := by
  have hbefore : first n (Function.update c n x) = first n c :=
    first_congr fun i hi => Function.update_of_ne (Nat.ne_of_lt hi) ..
  rw [first_succ, hbefore, Function.update_self]

theorem first_set :
    (first n c).set i x = first n (if i < n then Function.update c i x else c) := by
  apply List.ext_getElem?
  intro j
  by_cases hj : j < n
  · by_cases hij : i = j
    · subst hij
      simp [first, hj]
    · by_cases hi : i < n
      · simp [first, hj, hi, hij, Function.update_of_ne (Ne.symm hij)]
      · simp [first, hj, hi, hij]
  · simp [first, hj]

/-- Only the cells behind `pos` up to `last` change, each to the one before it. -/
theorem shift_apply :
    shift pos last c i = if pos < i ∧ i ≤ last then c (i - 1) else c i := by
  induction last generalizing c with
  | zero =>
    have hi : ¬ (pos < i ∧ i ≤ 0) := by omega
    rw [shift, if_neg hi]
  | succ last ih =>
    rw [shift]
    split
    · rename_i hpos
      rw [ih]
      by_cases hlast : i = last + 1
      · subst hlast
        rw [if_neg (by omega), if_pos (by omega)]
        simp
      · by_cases hi : pos < i ∧ i ≤ last
        · rw [if_pos hi, if_pos (by omega), Function.update_of_ne (by omega)]
        · rw [if_neg hi, if_neg (by omega), Function.update_of_ne hlast]
    · rename_i hpos
      have hi : ¬ (pos < i ∧ i ≤ last + 1) := by omega
      rw [if_neg hi]

/-- An entry written to the room that was made for it. -/
theorem first_shift (h : pos ≤ last) :
    first (last + 1) (Function.update (shift pos last c) pos x) =
      (first last c).take pos ++ x :: (first last c).drop pos := by
  have htake : ((first last c).take pos).length = pos := by
    rw [List.length_take, first_length, Nat.min_eq_left h]
  apply List.ext_getElem?
  intro i
  by_cases hi : i < last + 1
  · rw [first_getElem? hi]
    rcases Nat.lt_trichotomy i pos with hlt | rfl | hgt
    · rw [List.getElem?_append_left (by omega), List.getElem?_take_of_lt hlt,
        first_getElem? (by omega), Function.update_of_ne (by omega), shift_apply,
        if_neg (by omega)]
    · rw [List.getElem?_append_right (by omega), htake, Nat.sub_self]
      simp
    · obtain ⟨k, rfl⟩ : ∃ k, i = pos + 1 + k := ⟨i - (pos + 1), by omega⟩
      have hk : pos + 1 + k - pos = k + 1 := by omega
      rw [List.getElem?_append_right (by omega), htake, hk, List.getElem?_cons_succ,
        List.getElem?_drop, first_getElem? (by omega), Function.update_of_ne (by omega),
        shift_apply, if_pos (by omega)]
      congr 2
      omega
  · rw [List.getElem?_eq_none (by rw [first_length]; omega), List.getElem?_eq_none]
    rw [List.length_append, htake, List.length_cons, List.length_drop, first_length]
    omega

theorem shift_frame (hi : last < i) : shift pos last c i = c i := by
  rw [shift_apply, if_neg (by omega)]

/-- The loop moves the entries behind the last one that does not satisfy `p`. -/
theorem shiftWhile_spec (n : ℕ) (c : ℕ → α) :
    (shiftWhile p n c).2 = shift (shiftWhile p n c).1 n c ∧ (shiftWhile p n c).1 ≤ n ∧
      (∀ i, (shiftWhile p n c).1 ≤ i → i < n → p (c i) = true) ∧
      ∀ k, (shiftWhile p n c).1 = k + 1 → p (c k) = false := by
  induction n generalizing c with
  | zero => simp [shiftWhile, shift]
  | succ n ih =>
    rw [shiftWhile]
    split
    · rename_i hp
      obtain ⟨hcells, hle, hall, hstop⟩ := ih (Function.update c (n + 1) (c n))
      refine ⟨?_, by omega, ?_, ?_⟩
      · rw [shift, if_pos (by omega)]
        exact hcells
      · intro i hi hlt
        by_cases hin : i = n
        · exact hin ▸ hp
        · have hpi := hall i hi (by omega)
          rwa [Function.update_of_ne (by omega)] at hpi
      · intro k hk
        have hpk := hstop k hk
        rwa [Function.update_of_ne (by omega)] at hpk
    · rename_i hp
      refine ⟨?_, Nat.le_refl _, by omega, ?_⟩
      · rw [shift, if_neg (by omega)]
      · intro k hk
        obtain rfl : n = k := by omega
        simpa using hp

/-- An entry written where the loop stopped. -/
theorem first_shiftWhile (n : ℕ) (c : ℕ → α) :
    first (n + 1) (Function.update (shiftWhile p n c).2 (shiftWhile p n c).1 x) =
      (first n c).rdropWhile p ++ x :: (first n c).rtakeWhile p := by
  obtain ⟨hcells, hle, -, -⟩ := shiftWhile_spec (p := p) n c
  have hsplit : (first n c).rdropWhile p = (first n c).take (shiftWhile p n c).1 ∧
      (first n c).rtakeWhile p = (first n c).drop (shiftWhile p n c).1 := by
    clear hcells hle
    induction n generalizing c with
    | zero => exact ⟨rfl, rfl⟩
    | succ n ih =>
      rw [shiftWhile, first_succ]
      split
      · rename_i hp
        have hfirst : first n (Function.update c (n + 1) (c n)) = first n c := by
          apply first_congr
          intro i hi
          exact Function.update_of_ne (by omega) ..
        have hstop := (shiftWhile_spec (p := p) n (Function.update c (n + 1) (c n))).2.1
        obtain ⟨hdrop, htake⟩ := ih (Function.update c (n + 1) (c n))
        rw [hfirst] at hdrop htake
        rw [List.rdropWhile_concat_pos _ _ _ hp, List.rtakeWhile_concat_pos _ _ _ hp,
          List.take_append_of_le_length (by rw [first_length]; exact hstop),
          List.drop_append_of_le_length (by rw [first_length]; exact hstop), hdrop, htake]
        exact ⟨rfl, rfl⟩
      · rename_i hp
        have hlen : (first n c ++ [c n]).length = n + 1 := by
          rw [List.length_append, first_length, List.length_singleton]
        rw [List.rdropWhile_concat_neg _ _ _ hp, List.rtakeWhile_concat_neg _ _ _ hp,
          List.take_of_length_le (by omega), List.drop_of_length_le (by omega)]
        exact ⟨rfl, rfl⟩
  rw [hcells, first_shift hle, hsplit.1, hsplit.2]

/-- The search stops behind the entries that satisfy `p`. -/
theorem scan_eq : scan p c n pos = pos + (((List.range' pos n).map c).takeWhile p).length := by
  induction n generalizing pos with
  | zero => simp [scan]
  | succ n ih =>
    rw [scan, List.range'_succ, List.map_cons]
    split
    · rename_i hp
      rw [ih, List.takeWhile_cons_of_pos hp, List.length_cons]
      omega
    · rename_i hp
      rw [List.takeWhile_cons_of_neg hp]
      rfl

theorem scan_first : scan p c n 0 = ((first n c).takeWhile p).length := by
  rw [scan_eq, Nat.zero_add, first, List.range_eq_range']

end Cells
