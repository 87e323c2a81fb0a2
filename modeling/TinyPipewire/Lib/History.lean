import Mathlib.Data.List.FinRange
import Mathlib.Data.List.Induction
import Mathlib.Tactic.Common

/-!
# Reading a history

What a list of observations, oldest first, has after the last one of some kind, and what
one member of a family contributes to it.
-/

universe u v

namespace History

variable {ω : Type u} {P : ω → Bool} {ws us vs : List ω} {v w : ω}

/-- What came after the last observation that meets `P`. -/
def since (P : ω → Bool) (ws : List ω) : List ω :=
  ws.foldl (fun acc w => if P w = true then [] else acc ++ [w]) []

@[simp] theorem since_nil : since P [] = [] := rfl

theorem since_snoc : since P (ws ++ [w]) = if P w = true then [] else since P ws ++ [w] := by
  simp [since]

/-- What does not meet `P` comes after what came since. -/
theorem since_append (h : ∀ w ∈ vs, P w = false) : since P (ws ++ vs) = since P ws ++ vs := by
  induction vs using List.reverseRecOn with
  | nil => simp
  | append_singleton vs w ih =>
    have hw : P w = false := h w (by simp)
    have hvs : ∀ w ∈ vs, P w = false := fun w hw => h w (by simp [hw])
    rw [← List.append_assoc, since_snoc, ih hvs]
    simp [hw]

/-- What came since a later observation is part of what came since an earlier one. -/
theorem since_subset {Q : ω → Bool} (hv : v ∈ since Q ws) (hP : P v = true) :
    ∀ w ∈ since P ws, w ∈ since Q ws := by
  induction ws using List.reverseRecOn with
  | nil => simp at hv
  | append_singleton ws u ih =>
    intro w hw
    rw [since_snoc] at hv hw ⊢
    by_cases hQ : Q u = true
    · simp [hQ] at hv
    · rw [if_neg hQ] at hv ⊢
      by_cases hu : P u = true
      · simp [hu] at hw
      · rw [if_neg hu] at hw
        rcases List.mem_append.mp hv with hv | hv
        · rcases List.mem_append.mp hw with hw | hw
          · exact List.mem_append_left _ (ih hv w hw)
          · exact List.mem_append_right _ hw
        · obtain rfl := List.mem_singleton.mp hv
          exact absurd hP hu

/-- What one member emits of what all of a family emit. -/
theorem filterMap_flatMap_finRange {n : ℕ} {β γ : Type v} {f : β → Option γ}
    {g : Fin n → List β} {p : Fin n} (hg : ∀ q, q ≠ p → (g q).filterMap f = []) :
    ((List.finRange n).flatMap g).filterMap f = (g p).filterMap f := by
  have hall : ∀ qs : List (Fin n), qs.Nodup →
      (qs.flatMap g).filterMap f = if p ∈ qs then (g p).filterMap f else [] := by
    intro qs hqs
    induction qs with
    | nil => rfl
    | cons q qs ih =>
      obtain ⟨hq, hqs⟩ := List.nodup_cons.mp hqs
      rw [List.flatMap_cons, List.filterMap_append, ih hqs]
      by_cases hqp : q = p
      · subst q
        simp [hq]
      · simp [hg q hqp, Ne.symm hqp]
  simpa using hall _ (List.nodup_finRange n)

end History
