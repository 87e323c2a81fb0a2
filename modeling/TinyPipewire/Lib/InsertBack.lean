import Mathlib.Data.List.DropRight
import Mathlib.Data.List.Forall2
import Mathlib.Order.Lattice
import Mathlib.Tactic.Common

/-!
# Insertion from the back

An insertion sort over an array that shifts larger entries back one by one until the new
one fits.
-/

universe u v w

namespace InsertBack

variable {α : Type u} {β : Type v} [LinearOrder β] (key : α → β)

/-- `a` goes behind the last entry that is not larger. -/
def insert (a : α) (l : List α) : List α :=
  l.rdropWhile (fun b => decide (key a < key b)) ++
    a :: l.rtakeWhile fun b => decide (key a < key b)

/-- The entries inserted one after another. -/
def sort (l : List α) : List α := l.foldl (fun out a => insert key a out) []

variable {key} {a b : α} {l m : List α}

@[simp] theorem insert_nil : insert key a [] = [a] := rfl

theorem insert_concat : insert key a (l ++ [b]) =
    if key a < key b then insert key a l ++ [b] else l ++ [b] ++ [a] := by
  by_cases h : key a < key b
  · simp [insert, h]
  · simp [insert, h]

theorem insert_perm : (insert key a l).Perm (a :: l) := by
  induction l using List.reverseRecOn with
  | nil => exact List.Perm.refl _
  | append_singleton l b ih =>
    rw [insert_concat]
    split
    · simpa using ih.append_right [b]
    · exact List.perm_append_singleton a (l ++ [b])

theorem insert_sorted (h : l.Pairwise fun x y => key x ≤ key y) :
    (insert key a l).Pairwise fun x y => key x ≤ key y := by
  induction l using List.reverseRecOn with
  | nil => exact List.pairwise_singleton _ _
  | append_singleton l b ih =>
    obtain ⟨hl, -, hb⟩ := List.pairwise_append.mp h
    have hbl : ∀ x ∈ l, key x ≤ key b := fun x hx => hb x hx b (List.mem_singleton_self b)
    rw [insert_concat]
    split
    · rename_i hab
      refine List.pairwise_append.mpr ⟨ih hl, List.pairwise_singleton _ _, ?_⟩
      intro x hx y hy
      obtain rfl := List.mem_singleton.mp hy
      rcases List.mem_cons.mp (insert_perm.mem_iff.mp hx) with rfl | hx
      · exact hab.le
      · exact hbl x hx
    · rename_i hab
      refine List.pairwise_append.mpr ⟨h, List.pairwise_singleton _ _, ?_⟩
      intro x hx y hy
      obtain rfl := List.mem_singleton.mp hy
      have hba : key b ≤ key y := not_lt.mp hab
      rcases List.mem_append.mp hx with hx | hx
      · exact (hbl x hx).trans hba
      · obtain rfl := List.mem_singleton.mp hx
        exact hba

theorem sort_concat : sort key (l ++ [a]) = insert key a (sort key l) := by simp [sort]

theorem sort_perm : (sort key l).Perm l := by
  induction l using List.reverseRecOn with
  | nil => exact List.Perm.refl _
  | append_singleton l a ih =>
    rw [sort_concat]
    exact insert_perm.trans ((ih.cons a).trans (List.perm_append_singleton a l).symm)

theorem sort_sorted : (sort key l).Pairwise fun x y => key x ≤ key y := by
  induction l using List.reverseRecOn with
  | nil => exact List.Pairwise.nil
  | append_singleton l a ih =>
    rw [sort_concat]
    exact insert_sorted ih

/-- In order, and of the entries of `m` those with the least keys. -/
structure Lowest (key : α → β) (m l : List α) : Prop where
  sorted : l.Pairwise fun x y => key x ≤ key y
  least : ∃ rest, (l ++ rest).Perm m ∧ ∀ x ∈ l, ∀ y ∈ rest, key x ≤ key y

/-- The first entries, sorted, are the least exactly if none of the others is less. -/
theorem sort_take_lowest_iff {k : ℕ} :
    Lowest key m (sort key (m.take k)) ↔ ∀ x ∈ m.take k, ∀ y ∈ m.drop k, key x ≤ key y := by
  have hsort : (sort key (m.take k)).Perm (m.take k) := sort_perm
  constructor
  · rintro ⟨-, rest, hperm, hle⟩ x hx y hy
    have hrest : rest.Perm (m.drop k) := by
      rw [← List.perm_append_left_iff (m.take k), List.take_append_drop]
      exact (hsort.append_right rest).symm.trans hperm
    exact hle x (hsort.mem_iff.mpr hx) y (hrest.mem_iff.mpr hy)
  · intro hle
    refine ⟨sort_sorted, m.drop k, ?_, ?_⟩
    · have happend := hsort.append_right (m.drop k)
      rwa [List.take_append_drop] at happend
    · intro x hx y hy
      exact hle x (hsort.mem_iff.mp hx) y hy

/-- One entry more: it is counted if it satisfies `p`, and inserted if it is among the first
`max` that do. -/
def collect (key : α → β) (p : α → Bool) (max : ℕ) (acc : ℕ × List α) (a : α) : ℕ × List α :=
  if p a = true then
    if max < acc.1 + 1 then (acc.1 + 1, acc.2) else (acc.1 + 1, insert key a acc.2)
  else acc

theorem foldl_collect {p : α → Bool} {max : ℕ} (l : List α) :
    l.foldl (collect key p max) (0, []) =
      ((l.filter p).length, sort key ((l.filter p).take max)) := by
  induction l using List.reverseRecOn with
  | nil => simp [sort]
  | append_singleton l a ih =>
    rw [List.foldl_append, ih, List.filter_append]
    by_cases hp : p a = true
    · by_cases hmax : max < (l.filter p).length + 1
      · have hle : max - (l.filter p).length = 0 := by omega
        simp [collect, hp, hmax, List.take_append, hle]
      · have hle : (l.filter p).length < max := by omega
        have htake : (l.filter p).take max = l.filter p := List.take_of_length_le hle.le
        have hone : ([a] : List α).take (max - (l.filter p).length) = [a] :=
          List.take_of_length_le (by simp; omega)
        simp [collect, hp, hmax, List.take_append, htake, hone, sort_concat]
    · simp [collect, hp]

/-! ### Related entries -/

section Related

open List (Forall₂)

variable {α' : Type w} {R : α → α' → Prop} {key' : α' → β} {p : α → Bool} {p' : α' → Bool}
  {a' : α'} {l' : List α'}

theorem rdropWhile_related (hp : ∀ a a', R a a' → p a = p' a') (hl : Forall₂ R l l') :
    Forall₂ R (l.rdropWhile p) (l'.rdropWhile p') := by
  have hdrop : ∀ {m : List α} {m' : List α'}, Forall₂ R m m' →
      Forall₂ R (m.dropWhile p) (m'.dropWhile p') := by
    intro m m' hm
    induction hm with
    | nil => exact .nil
    | cons h hm ih =>
      rw [List.dropWhile_cons, List.dropWhile_cons, hp _ _ h]
      split
      · exact ih
      · exact .cons h hm
  exact List.forall₂_reverse_iff.mpr (hdrop (List.forall₂_reverse_iff.mpr hl))

theorem rtakeWhile_related (hp : ∀ a a', R a a' → p a = p' a') (hl : Forall₂ R l l') :
    Forall₂ R (l.rtakeWhile p) (l'.rtakeWhile p') := by
  have htake : ∀ {m : List α} {m' : List α'}, Forall₂ R m m' →
      Forall₂ R (m.takeWhile p) (m'.takeWhile p') := by
    intro m m' hm
    induction hm with
    | nil => exact .nil
    | cons h hm ih =>
      rw [List.takeWhile_cons, List.takeWhile_cons, hp _ _ h]
      split
      · exact .cons h ih
      · exact .nil
  exact List.forall₂_reverse_iff.mpr (htake (List.forall₂_reverse_iff.mpr hl))

theorem insert_related (hkey : ∀ a a', R a a' → key a = key' a') (ha : R a a')
    (hl : Forall₂ R l l') : Forall₂ R (insert key a l) (insert key' a' l') := by
  have hless : ∀ b b', R b b' → decide (key a < key b) = decide (key' a' < key' b') := by
    intro b b' hb
    rw [hkey a a' ha, hkey b b' hb]
  exact List.rel_append (rdropWhile_related hless hl) (.cons ha (rtakeWhile_related hless hl))

/-- What is collected of related entries is as many, and related. -/
theorem collect_related {max : ℕ} {x : ℕ × List α} {x' : ℕ × List α'}
    (hkey : ∀ a a', R a a' → key a = key' a') (hp : ∀ a a', R a a' → p a = p' a') (ha : R a a')
    (hx : x.1 = x'.1 ∧ Forall₂ R x.2 x'.2) :
    (collect key p max x a).1 = (collect key' p' max x' a').1 ∧
      Forall₂ R (collect key p max x a).2 (collect key' p' max x' a').2 := by
  unfold collect
  rw [hp a a' ha, hx.1]
  split_ifs
  · exact ⟨rfl, hx.2⟩
  · exact ⟨rfl, insert_related hkey ha hx.2⟩
  · exact hx

end Related

/-- With distinct keys the order the entries come in does not matter. -/
theorem sort_eq_of_perm (h : l.Perm m) (hkey : ∀ x ∈ l, ∀ y ∈ l, key x = key y → x = y) :
    sort key l = sort key m := by
  have hperm : (sort key l).Perm (sort key m) := sort_perm.trans (h.trans sort_perm.symm)
  refine hperm.eq_of_pairwise ?_ sort_sorted sort_sorted
  intro x y hx hy hxy hyx
  have hxl : x ∈ l := sort_perm.mem_iff.mp hx
  have hyl : y ∈ l := h.mem_iff.mpr (sort_perm.mem_iff.mp hy)
  exact hkey x hxl y hyl (le_antisymm hxy hyx)

end InsertBack
