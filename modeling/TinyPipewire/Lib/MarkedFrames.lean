import Mathlib.Tactic.Common

/-!
# Frames behind a marker

A sequence of frames of one size, each behind the same marker, and a reader that takes frame
after frame as long as a marker and a whole frame follow.
-/

universe u

namespace MarkedFrames

variable {β : Type u} [DecidableEq β] (marker : List β) (size : ℕ)

/-- The frame behind the next marker, and what follows it. -/
def next (bs : List β) : Option (List β × List β) :=
  if bs.take marker.length = marker ∧ marker.length + size ≤ bs.length then
    some ((bs.drop marker.length).take size, bs.drop (marker.length + size))
  else none

/-- At most so many frames, and what is left. -/
def upTo : ℕ → List β → List (List β) × List β
  | 0, bs => ([], bs)
  | k + 1, bs =>
    match next marker size bs with
    | none => ([], bs)
    | some (f, rest) => (f :: (upTo k rest).1, (upTo k rest).2)

/-- All the frames, and what is left. -/
def read (bs : List β) : List (List β) × List β := upTo marker size bs.length bs

/-- The frames as they are written. -/
def written (fs : List (List β)) : List β := fs.flatMap (marker ++ ·)

variable {marker size} {bs rest f : List β} {fs : List (List β)} {k : ℕ}

theorem next_written (hf : f.length = size) :
    next marker size (marker ++ f ++ rest) = some (f, rest) := by
  have htake : (marker ++ f ++ rest).take marker.length = marker := by simp
  have hlen : marker.length + size ≤ (marker ++ f ++ rest).length := by
    simp
    omega
  have hdrop : (marker ++ f ++ rest).drop (marker.length + size) = rest := by
    rw [← hf, ← List.length_append, List.drop_left]
  unfold next
  rw [if_pos ⟨htake, hlen⟩, hdrop]
  simp [← hf]

theorem next_sound (h : next marker size bs = some (f, rest)) :
    bs = marker ++ f ++ rest ∧ f.length = size := by
  unfold next at h
  split at h
  · rename_i hc
    obtain ⟨hmarker, hlen⟩ := hc
    obtain ⟨hf, hrest⟩ := Prod.mk.inj (Option.some.inj h)
    subst hf hrest
    have hlength : ((bs.drop marker.length).take size).length = size := by
      simp
      omega
    refine ⟨?_, hlength⟩
    have hsplit : bs = bs.take marker.length ++ bs.drop marker.length := by simp
    have hrest : bs.drop marker.length =
        (bs.drop marker.length).take size ++ bs.drop (marker.length + size) := by
      rw [← List.drop_drop, List.take_append_drop]
    rw [hmarker, hrest, ← List.append_assoc] at hsplit
    exact hsplit
  · cases h

/-- What is read is what was written, and each frame has the size. -/
theorem upTo_sound (k : ℕ) (bs : List β) :
    bs = written marker (upTo marker size k bs).1 ++ (upTo marker size k bs).2 ∧
      ∀ f ∈ (upTo marker size k bs).1, f.length = size := by
  induction k generalizing bs with
  | zero => exact ⟨rfl, by simp [upTo]⟩
  | succ k ih =>
    unfold upTo
    cases hn : next marker size bs with
    | none => exact ⟨rfl, by simp⟩
    | some p =>
      obtain ⟨f, rest⟩ := p
      obtain ⟨hbs, hf⟩ := next_sound hn
      obtain ⟨hrest, hsizes⟩ := ih rest
      dsimp only
      constructor
      · rw [written, List.flatMap_cons, List.append_assoc, ← written, ← hrest]
        exact hbs
      · intro g hg
        rcases List.mem_cons.mp hg with rfl | hg
        · exact hf
        · exact hsizes g hg

variable (marker size) in
theorem read_sound (bs : List β) :
    bs = written marker (read marker size bs).1 ++ (read marker size bs).2 ∧
      ∀ f ∈ (read marker size bs).1, f.length = size := upTo_sound bs.length bs

/-- Frames of the size are read as they were written, and the reader goes on behind them. -/
theorem upTo_written (hfs : ∀ f ∈ fs, f.length = size) (k : ℕ) (rest : List β) :
    upTo marker size (fs.length + k) (written marker fs ++ rest) =
      (fs ++ (upTo marker size k rest).1, (upTo marker size k rest).2) := by
  induction fs with
  | nil => simp [written]
  | cons f fs ih =>
    have hnext : next marker size (written marker (f :: fs) ++ rest) =
        some (f, written marker fs ++ rest) := by
      have hall : written marker (f :: fs) ++ rest =
          marker ++ f ++ (written marker fs ++ rest) := by simp [written]
      rw [hall]
      exact next_written (hfs f (by simp))
    have hrest := ih fun g hg => hfs g (List.mem_cons_of_mem f hg)
    rw [List.length_cons, Nat.add_right_comm, upTo, hnext]
    dsimp only
    rw [hrest]
    rfl

omit [DecidableEq β] in
theorem length_le_written (hm : marker ≠ []) (fs : List (List β)) :
    fs.length ≤ (written marker fs).length := by
  have hpos : 0 < marker.length := List.length_pos_iff.mpr hm
  induction fs with
  | nil => simp
  | cons f fs ih =>
    have hcons : (written marker (f :: fs)).length =
        marker.length + f.length + (written marker fs).length := by
      rw [written, List.flatMap_cons, List.length_append, List.length_append]
      rfl
    rw [List.length_cons]
    omega

/-- Frames of the size are the first that are read, whatever follows them. -/
theorem read_written (hm : marker ≠ []) (hfs : ∀ f ∈ fs, f.length = size) (rest : List β) :
    ∃ more left, read marker size (written marker fs ++ rest) = (fs ++ more, left) ∧
      (rest = [] → more = [] ∧ left = []) := by
  have hle := length_le_written hm fs
  obtain ⟨k, hk⟩ : ∃ k, (written marker fs ++ rest).length = fs.length + k := by
    refine ⟨(written marker fs ++ rest).length - fs.length, ?_⟩
    rw [List.length_append]
    omega
  refine ⟨_, _, by rw [read, hk]; exact upTo_written hfs k rest, ?_⟩
  rintro rfl
  cases k with
  | zero => exact ⟨rfl, rfl⟩
  | succ k =>
    have hnone : next marker size ([] : List β) = none := by
      have hne : ¬ ([] : List β) = marker := fun he => hm he.symm
      simp [next, hne]
    simp [upTo, hnone]

end MarkedFrames
