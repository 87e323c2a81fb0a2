import Mathlib.Data.List.Induction
import Mathlib.Tactic.Common

/-!
# A mailbox of one place

A put replaces what the mailbox has; a take returns it and leaves the mailbox empty.
What a mailbox may do is a property of the list of its operations.
-/

universe u

namespace Mailbox

variable {α : Type u}

/-- A completed operation, with the value it put or returned. -/
inductive Op (α : Type u)
  | put (x : α)
  | take (x : α)
  deriving DecidableEq

/-- What the mailbox has after its operations, oldest first. -/
def slot (ops : List (Op α)) : Option α :=
  match ops.getLast? with
  | some (.put x) => some x
  | _ => none

def puts : List (Op α) → List α
  | [] => []
  | .put x :: ops => x :: puts ops
  | .take _ :: ops => puts ops

def takes : List (Op α) → List α
  | [] => []
  | .put _ :: ops => takes ops
  | .take x :: ops => x :: takes ops

/-- Every take returns what the mailbox had then. -/
def Lawful (ops : List (Op α)) : Prop :=
  ∀ us x vs, ops = us ++ .take x :: vs → slot us = some x

variable {ops us vs : List (Op α)} {x y : α}

@[simp] theorem slot_nil : slot ([] : List (Op α)) = none := rfl

@[simp] theorem slot_put : slot (ops ++ [.put x]) = some x := by simp [slot]

@[simp] theorem slot_take : slot (ops ++ [.take x]) = none := by simp [slot]

theorem lawful_nil : Lawful ([] : List (Op α)) := by
  intro us x vs h
  simp at h

theorem Lawful.of_append (h : Lawful (us ++ vs)) : Lawful us := by
  rintro ws x rest rfl
  exact h ws x (rest ++ vs) (by simp)

/-- A last operation is lawful where what it takes is what the mailbox has. -/
theorem Lawful.snoc {op : Op α} (h : Lawful ops)
    (hop : ∀ x, op = .take x → slot ops = some x) : Lawful (ops ++ [op]) := by
  intro us x vs he
  rcases List.eq_nil_or_concat vs with rfl | ⟨vs, last, rfl⟩
  · obtain ⟨rfl, hx⟩ := List.append_inj' he rfl
    exact hop x (by simpa using hx)
  · rw [List.concat_eq_append, ← List.cons_append, ← List.append_assoc] at he
    exact h us x vs (List.append_inj' he rfl).1

/-- After a put the mailbox is taken from, put into again, or left alone. -/
theorem Lawful.after_put (h : Lawful ops) (he : ops = us ++ .put x :: vs) :
    vs = [] ∨ (∃ rest, vs = .take x :: rest) ∨ ∃ y rest, vs = .put y :: rest := by
  cases vs with
  | nil => exact Or.inl rfl
  | cons op rest =>
    cases op with
    | put y => exact Or.inr (Or.inr ⟨y, rest, rfl⟩)
    | take y =>
      have hslot := h (us ++ [.put x]) y rest (by simpa using he)
      obtain rfl : x = y := by simpa using hslot
      exact Or.inr (Or.inl ⟨rest, rfl⟩)

theorem puts_append : puts (us ++ vs) = puts us ++ puts vs := by
  induction us with
  | nil => rfl
  | cons op us ih => cases op <;> simp [puts, ih]

theorem takes_append : takes (us ++ vs) = takes us ++ takes vs := by
  induction us with
  | nil => rfl
  | cons op us ih => cases op <;> simp [takes, ih]

/-- Each put is returned at most once, and in the order of the puts. -/
theorem Lawful.takes_sublist (h : Lawful ops) :
    (takes ops ++ (slot ops).toList).Sublist (puts ops) := by
  induction ops using List.reverseRecOn with
  | nil => exact List.Sublist.refl _
  | append_singleton ops op ih =>
    have hs := ih h.of_append
    cases op with
    | put x =>
      have ht : (takes ops).Sublist (puts ops) := (List.sublist_append_left _ _).trans hs
      simpa [puts_append, takes_append, puts, takes] using ht
    | take x =>
      have hslot : slot ops = some x := h ops x [] rfl
      simpa [puts_append, takes_append, puts, takes, hslot] using hs

end Mailbox
