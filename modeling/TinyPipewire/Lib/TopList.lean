import Mathlib.Data.Finset.Card
import Mathlib.Data.List.Induction
import Mathlib.Data.List.TakeWhile
import Mathlib.Tactic.Common

/-!
# The largest few

A list of bounded length that keeps the largest of the values put into it, largest first and
without repeats.
-/

universe u

namespace TopList

variable {α : Type u} [LinearOrder α] {cap : ℕ} {seen : Finset α} {l xs : List α} {x y z : α}

/-- Goes before the first smaller member; the last one falls off a full list. -/
def insert (cap : ℕ) (l : List α) (x : α) : List α :=
  if x ∈ l then l
  else if (l.takeWhile (x < ·)).length = cap then l
  else (l.takeWhile (x < ·) ++ x :: l.dropWhile (x < ·)).take cap

/-- `l` has the largest `cap` of `seen`. -/
structure Keeps (cap : ℕ) (seen : Finset α) (l : List α) : Prop where
  sorted : l.Pairwise (· > ·)
  length_le : l.length ≤ cap
  subset : ∀ y ∈ l, y ∈ seen
  rest : ∀ y ∈ seen, y ∉ l → l.length = cap ∧ ∀ z ∈ l, y < z

theorem keeps_nil : Keeps cap (∅ : Finset α) [] where
  sorted := List.Pairwise.nil
  length_le := Nat.zero_le cap
  subset := by simp
  rest := by simp

theorem lt_of_mem_takeWhile (hz : z ∈ l.takeWhile (x < ·)) : x < z := by
  simpa using List.mem_takeWhile_imp hz

theorem lt_of_mem_dropWhile (h : l.Pairwise (· > ·)) (hx : x ∉ l)
    (hz : z ∈ l.dropWhile (x < ·)) : z < x := by
  induction l with
  | nil => simp at hz
  | cons a l ih =>
    obtain ⟨ha, hl⟩ := List.pairwise_cons.mp h
    by_cases hxa : x < a
    · rw [List.dropWhile_cons_of_pos (by simpa using hxa)] at hz
      exact ih hl (fun hm => hx (List.mem_cons_of_mem a hm)) hz
    · rw [List.dropWhile_cons_of_neg (by simpa using hxa)] at hz
      have hax : a < x := by
        apply lt_of_le_of_ne (not_lt.mp hxa)
        rintro rfl
        exact hx List.mem_cons_self
      rcases List.mem_cons.mp hz with rfl | hz
      · exact hax
      · exact lt_trans (ha z hz) hax

theorem mem_split : y ∈ l ↔ y ∈ l.takeWhile (x < ·) ∨ y ∈ l.dropWhile (x < ·) := by
  rw [← List.mem_append, List.takeWhile_append_dropWhile]

/-- The list with one more member, before its last one is dropped. -/
theorem sorted_split (h : l.Pairwise (· > ·)) (hx : x ∉ l) :
    (l.takeWhile (x < ·) ++ x :: l.dropWhile (x < ·)).Pairwise (· > ·) := by
  refine List.pairwise_append.mpr ⟨h.sublist (List.takeWhile_sublist _), ?_, ?_⟩
  · refine List.pairwise_cons.mpr ⟨?_, h.sublist (List.dropWhile_sublist _)⟩
    intro z hz
    exact lt_of_mem_dropWhile h hx hz
  · intro a ha b hb
    have hxa := lt_of_mem_takeWhile ha
    rcases List.mem_cons.mp hb with rfl | hb
    · exact hxa
    · exact lt_trans (lt_of_mem_dropWhile h hx hb) hxa

/-- Only the last of a list one too long is dropped, and it is the smallest. -/
theorem lt_of_not_mem_take {m : List α} (h : m.Pairwise (· > ·)) (hy : y ∈ m)
    (hnot : y ∉ m.take cap) : cap < m.length ∧ ∀ z ∈ m.take cap, y < z := by
  have hdrop : y ∈ m.drop cap := by
    rw [← List.take_append_drop cap m] at hy
    exact (List.mem_append.mp hy).resolve_left hnot
  refine ⟨?_, ?_⟩
  · by_contra hle
    rw [List.drop_of_length_le (not_lt.mp hle)] at hdrop
    simp at hdrop
  · intro z hz
    rw [← List.take_append_drop cap m] at h
    exact (List.pairwise_append.mp h).2.2 z hz y hdrop

theorem keeps_insert (h : Keeps cap seen l) :
    Keeps cap (Insert.insert x seen) (insert cap l x) := by
  unfold insert
  by_cases hx : x ∈ l
  · rw [if_pos hx, Finset.insert_eq_of_mem (h.subset x hx)]
    exact h
  rw [if_neg hx]
  have hlen : (l.takeWhile (x < ·)).length + (l.dropWhile (x < ·)).length = l.length := by
    rw [← List.length_append, List.takeWhile_append_dropWhile]
  have hle := h.length_le
  by_cases hfull : (l.takeWhile (x < ·)).length = cap
  · -- every member is larger
    have hnone : l.dropWhile (x < ·) = [] := List.eq_nil_of_length_eq_zero (by omega)
    rw [if_pos hfull]
    refine ⟨h.sorted, hle, fun y hy => Finset.mem_insert_of_mem (h.subset y hy), ?_⟩
    intro y hy hyl
    rcases Finset.mem_insert.mp hy with rfl | hy
    · refine ⟨by omega, fun z hz => ?_⟩
      rcases (mem_split (x := y)).mp hz with hz | hz
      · exact lt_of_mem_takeWhile hz
      · rw [hnone] at hz
        simp at hz
    · exact h.rest y hy hyl
  · rw [if_neg hfull]
    have hsorted := sorted_split h.sorted hx
    have hmem : ∀ y, y ∈ l.takeWhile (x < ·) ++ x :: l.dropWhile (x < ·) ↔ y = x ∨ y ∈ l := by
      intro y
      have hsplit := mem_split (l := l) (x := x) (y := y)
      rw [List.mem_append, List.mem_cons]
      tauto
    have hlong : (l.takeWhile (x < ·) ++ x :: l.dropWhile (x < ·)).length = l.length + 1 := by
      rw [List.length_append, List.length_cons]
      omega
    refine ⟨hsorted.sublist (List.take_sublist _ _), ?_, ?_, ?_⟩
    · rw [List.length_take]
      omega
    · intro y hy
      rcases (hmem y).mp (List.mem_of_mem_take hy) with rfl | hy
      · exact Finset.mem_insert_self y seen
      · exact Finset.mem_insert_of_mem (h.subset y hy)
    · intro y hy hnot
      rw [List.length_take, hlong]
      by_cases hyl : y = x ∨ y ∈ l
      · obtain ⟨hcap, hlt⟩ := lt_of_not_mem_take hsorted ((hmem y).mpr hyl) hnot
        rw [hlong] at hcap
        exact ⟨by omega, hlt⟩
      · obtain ⟨hyx, hyl⟩ := not_or.mp hyl
        obtain ⟨hcap, hlt⟩ := h.rest y (Finset.mem_of_mem_insert_of_ne hy hyx) hyl
        refine ⟨by omega, ?_⟩
        intro z hz
        rcases (hmem z).mp (List.mem_of_mem_take hz) with rfl | hz
        · -- some member is smaller than the new one, and larger than what fell off
          obtain ⟨w, hw⟩ := List.exists_mem_of_length_pos
            (show 0 < (l.dropWhile (z < ·)).length by omega)
          have hwl : w ∈ l := (mem_split (x := z)).mpr (Or.inr hw)
          exact lt_trans (hlt w hwl) (lt_of_mem_dropWhile h.sorted hx hw)
        · exact hlt z hz

/-- After any number of insertions the list has the largest. -/
theorem keeps_foldl (cap : ℕ) (xs : List α) : Keeps cap xs.toFinset (xs.foldl (insert cap) []) := by
  induction xs using List.reverseRecOn with
  | nil => exact keeps_nil
  | append_singleton xs x ih =>
    rw [List.foldl_concat]
    have hseen : (xs ++ [x]).toFinset = Insert.insert x xs.toFinset := by
      ext y
      simp
    rw [hseen]
    exact keeps_insert ih

/-- As many are kept as there is room for and have been seen. -/
theorem Keeps.length_eq (h : Keeps cap seen l) : l.length = min cap seen.card := by
  have hnodup : l.Nodup := h.sorted.imp ne_of_gt
  have hle : l.toFinset.card ≤ seen.card :=
    Finset.card_le_card fun y hy => h.subset y (List.mem_toFinset.mp hy)
  rw [List.toFinset_card_of_nodup hnodup] at hle
  have hcap := h.length_le
  by_cases hfull : l.length = cap
  · omega
  · have hall : seen ⊆ l.toFinset := by
      intro y hy
      by_contra hyl
      exact hfull (h.rest y hy (fun hm => hyl (List.mem_toFinset.mpr hm))).1
    have hge := Finset.card_le_card hall
    rw [List.toFinset_card_of_nodup hnodup] at hge
    omega

/-- A value is kept exactly if fewer than `cap` of those seen are larger. -/
theorem Keeps.mem_iff (h : Keeps cap seen l) :
    y ∈ l ↔ y ∈ seen ∧ (seen.filter (y < ·)).card < cap := by
  have hnodup : l.Nodup := h.sorted.imp ne_of_gt
  constructor
  · intro hy
    refine ⟨h.subset y hy, ?_⟩
    have hsub : seen.filter (y < ·) ⊆ l.toFinset.erase y := by
      intro z hz
      obtain ⟨hzs, hyz⟩ := Finset.mem_filter.mp hz
      refine Finset.mem_erase.mpr ⟨ne_of_gt hyz, List.mem_toFinset.mpr ?_⟩
      by_contra hzl
      exact lt_asymm hyz ((h.rest z hzs hzl).2 y hy)
    have hcard := Finset.card_le_card hsub
    rw [Finset.card_erase_of_mem (List.mem_toFinset.mpr hy),
      List.toFinset_card_of_nodup hnodup] at hcard
    have hpos := List.length_pos_of_mem hy
    have hle := h.length_le
    omega
  · rintro ⟨hys, hcard⟩
    by_contra hyl
    obtain ⟨hlen, hlt⟩ := h.rest y hys hyl
    have hsub : l.toFinset ⊆ seen.filter (y < ·) := by
      intro z hz
      have hz := List.mem_toFinset.mp hz
      exact Finset.mem_filter.mpr ⟨h.subset z hz, hlt z hz⟩
    have hle := Finset.card_le_card hsub
    rw [List.toFinset_card_of_nodup hnodup] at hle
    omega

end TopList
