import Mathlib.Data.List.Induction
import Mathlib.Tactic.Common

/-!
# A channel, from what was seen of it

A channel delivers in the order of the sends. Its history is a list of observations of
which some are sends and some are deliveries.
-/

universe u v

namespace Channel

variable {ω : Type u} {ε : Type v} {sent got : ω → Option ε} {ws vs : List ω} {wire : List ε}
  {w : ω} {e : ε}

/-- What was sent is what was delivered, and then what is in flight. -/
def Fifo (sent got : ω → Option ε) (ws : List ω) (wire : List ε) : Prop :=
  ws.filterMap sent = ws.filterMap got ++ wire

theorem Fifo.nil : Fifo sent got [] [] := rfl

theorem Fifo.send (h : Fifo sent got ws wire) (hg : vs.filterMap got = []) :
    Fifo sent got (ws ++ vs) (wire ++ vs.filterMap sent) := by
  rw [Fifo, List.filterMap_append, List.filterMap_append, h, hg]
  simp

theorem Fifo.deliver (h : Fifo sent got ws (e :: wire)) (hs : vs.filterMap sent = [])
    (hg : vs.filterMap got = [e]) : Fifo sent got (ws ++ vs) wire := by
  rw [Fifo, List.filterMap_append, List.filterMap_append, h, hs, hg]
  simp

theorem Fifo.other (h : Fifo sent got ws wire) (hs : vs.filterMap sent = [])
    (hg : vs.filterMap got = []) : Fifo sent got (ws ++ vs) wire := by
  rw [Fifo, List.filterMap_append, List.filterMap_append, h, hs, hg]
  simp

/-- What is delivered was sent, and everything sent before it was delivered first, in order. -/
theorem Fifo.before (h : Fifo sent got ws wire) (he : e ∈ ws.filterMap got) :
    ∃ us w vs, ws = us ++ w :: vs ∧ sent w = some e ∧
      us.filterMap sent <+: ws.filterMap got := by
  obtain ⟨pre, post, hsplit⟩ := List.append_of_mem he
  rw [Fifo, hsplit, List.append_assoc, List.cons_append] at h
  obtain ⟨us, rest, rfl, hus, hrest⟩ := List.filterMap_eq_append_iff.mp h
  obtain ⟨skipped, w, vs, rfl, hskip, hw, -⟩ := List.filterMap_eq_cons_iff.mp hrest
  refine ⟨us ++ skipped, w, vs, by simp, hw, ?_⟩
  rw [List.filterMap_append, hus, List.filterMap_eq_nil_iff.mpr hskip, List.append_nil, hsplit]
  exact List.prefix_append pre _

end Channel
