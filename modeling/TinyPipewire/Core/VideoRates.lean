import TinyPipewire.Core.VideoEnum
import TinyPipewire.Lib.Cells

/-!
# The rates of a video format

`pwf_video_insert_framerate` on the array of the entry: the slower rates are moved up one cell
each, and the slowest falls off a full array.
-/

namespace TinyPipewire.Core

/-- `fps` and `n_fps` of `struct pwf_video_format_info`. What lies behind the array has cells
too. -/
structure FpsArray where
  fps : ℕ → Int32
  nFps : ℕ

namespace FpsArray

variable (a : FpsArray)

/-- `fps[0..n_fps)`. -/
def rates : List Int32 := Cells.first a.nFps a.fps

/-- `pwf_video_insert_framerate`, one cell after another. -/
def insertFramerate (fps : Int32) : FpsArray :=
  if (List.range a.nFps).any (fun i => a.fps i == fps) then a
  else
    let pos := Cells.scan (fun rate => decide (fps < rate)) a.fps a.nFps 0
    -- every rate of a full list is faster
    if pos = fpsCap then a
    else
      let last := if a.nFps < fpsCap then a.nFps else fpsCap - 1
      { fps := Function.update (Cells.shift pos last a.fps) pos fps
        nFps := if a.nFps < fpsCap then a.nFps + 1 else a.nFps }

variable {a} {fps : Int32} {xs : List Int32}

theorem rates_length : a.rates.length = a.nFps := Cells.first_length

theorem any_eq_iff : (List.range a.nFps).any (fun i => a.fps i == fps) = true ↔ fps ∈ a.rates := by
  simp [rates, Cells.first]

/-- The cells of a full array after an insertion are the first of those there would be. -/
theorem first_full {c : ℕ → Int32} {cap pos : ℕ} (h : pos < cap) :
    Cells.first cap (Function.update (Cells.shift pos (cap - 1) c) pos fps) =
      ((Cells.first cap c).take pos ++ fps :: (Cells.first cap c).drop pos).take cap := by
  obtain ⟨k, rfl⟩ : ∃ k, cap = k + 1 := ⟨cap - 1, by omega⟩
  have hlen : (Cells.first k c).length = k := Cells.first_length
  rw [Nat.add_sub_cancel, Cells.first_shift (by omega), Cells.first_succ,
    List.take_append_of_le_length (i := pos) (by omega), List.drop_append_of_le_length (by omega)]
  have hassoc : (Cells.first k c).take pos ++ fps :: ((Cells.first k c).drop pos ++ [c k]) =
      ((Cells.first k c).take pos ++ fps :: (Cells.first k c).drop pos) ++ [c k] := by
    simp only [List.append_assoc, List.cons_append]
  rw [hassoc]
  refine (List.take_left' ?_).symm
  rw [List.length_append, List.length_take, List.length_cons, List.length_drop, hlen]
  omega

/-- The search splits the rates into the faster ones and the others. -/
theorem scan_splits (a : FpsArray) (fps : Int32) :
    let pos := Cells.scan (fun rate => decide (fps < rate)) a.fps a.nFps 0
    pos ≤ a.nFps ∧ pos = (a.rates.takeWhile (fps < ·)).length ∧
      a.rates.takeWhile (fps < ·) = a.rates.take pos ∧
      a.rates.dropWhile (fps < ·) = a.rates.drop pos := by
  intro pos
  have hpos : pos = (a.rates.takeWhile (fps < ·)).length := Cells.scan_first
  have htake : a.rates.takeWhile (fps < ·) = a.rates.take pos := by
    rw [hpos]
    exact List.prefix_iff_eq_take.mp (List.takeWhile_prefix _)
  refine ⟨?_, hpos, htake, ?_⟩
  · rw [hpos, ← rates_length (a := a)]
    exact (List.takeWhile_prefix _).length_le
  · have hsplit := (List.takeWhile_append_dropWhile (p := (fps < ·)) (l := a.rates)).trans
      (List.take_append_drop pos a.rates).symm
    rw [htake] at hsplit
    exact List.append_cancel_left hsplit

/-- The array holds what the list of the entry does. -/
theorem rates_insertFramerate (h : a.nFps ≤ fpsCap) :
    (a.insertFramerate fps).rates = TopList.insert fpsCap a.rates fps := by
  have hlen := rates_length (a := a)
  obtain ⟨hle, hpos, htake, hdrop⟩ := scan_splits a fps
  unfold insertFramerate TopList.insert
  by_cases hmem : fps ∈ a.rates
  · rw [if_pos (any_eq_iff.mpr hmem), if_pos hmem]
  · rw [if_neg (fun hany => hmem (any_eq_iff.mp hany)), if_neg hmem, ← hpos, htake, hdrop]
    dsimp only
    generalize Cells.scan (fun rate => decide (fps < rate)) a.fps a.nFps 0 = pos at hle
    by_cases hfull : pos = fpsCap
    · rw [if_pos hfull, if_pos hfull]
    · rw [if_neg hfull, if_neg hfull]
      by_cases hroom : a.nFps < fpsCap
      · -- the slowest gets a cell of its own
        have hfits : (a.rates.take pos ++ fps :: a.rates.drop pos).length ≤ fpsCap := by
          rw [List.length_append, List.length_take, List.length_cons, List.length_drop]
          omega
        rw [if_pos hroom, if_pos hroom, List.take_of_length_le hfits]
        exact Cells.first_shift hle
      · have hcap : a.nFps = fpsCap := by omega
        rw [if_neg hroom, if_neg hroom, rates, rates, hcap]
        exact first_full (by omega)

theorem nFps_insertFramerate (h : a.nFps ≤ fpsCap) : (a.insertFramerate fps).nFps ≤ fpsCap := by
  unfold insertFramerate
  dsimp only
  split
  · exact h
  · split
    · exact h
    · dsimp only
      split
      · omega
      · exact h

/-- No cell behind the array is written. -/
theorem insertFramerate_frame (h : a.nFps ≤ fpsCap) {i : ℕ} (hi : fpsCap ≤ i) :
    (a.insertFramerate fps).fps i = a.fps i := by
  have hpos := (scan_splits a fps).1
  unfold insertFramerate
  dsimp only
  split
  · rfl
  · split
    · rfl
    · rename_i hne
      dsimp only
      rw [Function.update_of_ne (by omega)]
      apply Cells.shift_frame
      split <;> omega

theorem foldl_insertFramerate (xs : List Int32) (h : a.nFps ≤ fpsCap) :
    (xs.foldl insertFramerate a).rates = xs.foldl (TopList.insert fpsCap) a.rates ∧
      (xs.foldl insertFramerate a).nFps ≤ fpsCap ∧
      ∀ i, fpsCap ≤ i → (xs.foldl insertFramerate a).fps i = a.fps i := by
  induction xs generalizing a with
  | nil => exact ⟨rfl, h, fun _ _ => rfl⟩
  | cons x xs ih =>
    obtain ⟨hrates, hle, hframe⟩ := ih (a := a.insertFramerate x) (nFps_insertFramerate h)
    rw [rates_insertFramerate h] at hrates
    refine ⟨hrates, hle, fun i hi => ?_⟩
    exact (hframe i hi).trans (insertFramerate_frame h hi)

end FpsArray

/-- After any insertions into an empty entry the rates are strictly descending, as many as there
is room for and different ones were inserted, and the largest of them; nothing is written
outside the array. -/
theorem framerates_largest (cells : ℕ → Int32) (xs : List Int32) :
    let a : FpsArray := xs.foldl FpsArray.insertFramerate ⟨cells, 0⟩
    a.rates.Pairwise (· > ·) ∧ a.nFps ≤ fpsCap ∧ a.nFps = min fpsCap xs.toFinset.card ∧
      (∀ x ∈ a.rates, x ∈ xs) ∧ (∀ x ∈ a.rates, ∀ y ∈ xs, y ∉ a.rates → y < x) ∧
      ∀ i, fpsCap ≤ i → a.fps i = cells i := by
  intro a
  obtain ⟨hrates, hle, hframe⟩ :=
    FpsArray.foldl_insertFramerate (a := ⟨cells, 0⟩) xs (Nat.zero_le _)
  have hkeeps : TopList.Keeps fpsCap xs.toFinset a.rates := by
    have hfold := TopList.keeps_foldl fpsCap xs
    rwa [← show a.rates = xs.foldl (TopList.insert fpsCap) [] from hrates] at hfold
  refine ⟨hkeeps.sorted, hle, ?_, ?_, ?_, hframe⟩
  · rw [← hkeeps.length_eq, FpsArray.rates_length]
  · intro x hx
    exact List.mem_toFinset.mp (hkeeps.subset x hx)
  · intro x hx y hy hyr
    exact (hkeeps.rest y (List.mem_toFinset.mpr hy) hyr).2 x hx

end TinyPipewire.Core
