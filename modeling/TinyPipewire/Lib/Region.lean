import Mathlib.Order.Interval.Set.Basic
import Mathlib.Tactic.Common

/-!
# Regions of memory

A region is a start and a size; two of size zero have the same bytes wherever they start.
-/

structure Region where
  start : ℕ
  size : ℕ
  deriving DecidableEq, Repr

namespace Region

def bytes (r : Region) : Set ℕ := Set.Ico r.start (r.start + r.size)

variable {r s : Region}

theorem mem_bytes {a : ℕ} : a ∈ r.bytes ↔ r.start ≤ a ∧ a < r.start + r.size := Iff.rfl

theorem bytes_empty (h : r.size = 0) : r.bytes = ∅ := by
  rw [bytes, h]
  exact Set.Ico_self _

theorem subset_iff :
    r.bytes ⊆ s.bytes ↔ r.size = 0 ∨ s.start ≤ r.start ∧ r.start + r.size ≤ s.start + s.size := by
  constructor
  · intro h
    by_cases hr : r.size = 0
    · exact Or.inl hr
    · have hfirst := h (mem_bytes.mpr ⟨Nat.le_refl _, by omega⟩ : r.start ∈ r.bytes)
      have hlast := h (mem_bytes.mpr ⟨by omega, by omega⟩ : r.start + r.size - 1 ∈ r.bytes)
      rw [mem_bytes] at hfirst hlast
      omega
  · rintro (hr | ⟨hstart, hstop⟩)
    · rw [bytes_empty hr]
      exact Set.empty_subset _
    · exact Set.Ico_subset_Ico hstart hstop

/-- Two regions of one size have the same bytes where they start together, or are empty. -/
theorem bytes_eq_iff (h : r.size = s.size) :
    r.bytes = s.bytes ↔ r.size = 0 ∨ r.start = s.start := by
  constructor
  · intro hb
    have hrs := subset_iff.mp hb.subset
    have hsr := subset_iff.mp hb.symm.subset
    omega
  · rintro (hr | hstart)
    · rw [bytes_empty hr, bytes_empty (h.symm.trans hr)]
    · rw [bytes, bytes, hstart, h]

end Region
