import TinyPipewire.Lib.Cells
import Mathlib.Data.List.Induction

/-!
# Counting all, storing what fits

A reader goes over some items, stores the ones it accepts in the array of its caller as long as
there is room, and counts all of them, so that the caller can come again with a larger array.
-/

universe u v w

/-- The array with all that follows it, if there is one, and how much was found. -/
structure CountFill (α : Type u) where
  out : Option (ℕ → α)
  found : ℕ

namespace CountFill

open Cells (first first_snoc)

variable {α : Type u} {β : Type v} {ρ : Type w}

/-- One more is found; it is stored if there is room. -/
def put (outLen : ℕ) (f : CountFill α) (a : α) : CountFill α where
  out := f.out.map fun cells =>
    if f.found < outLen then Function.update cells f.found a else cells
  found := f.found + 1

/-- An item that may not be one to list. -/
def offer (outLen : ℕ) (f : CountFill α) : Option α → CountFill α
  | some a => f.put outLen a
  | none => f

/-- What a reader does with an array of any length, or without one, where `entries` are to be
listed: it always reports the same, and leaves all but the first cells as they are. -/
structure CountsThenFills (read : Option (ℕ → α) → ℕ → ρ × Option (ℕ → α)) (report : ρ)
    (entries : List α) : Prop where
  report : ∀ out outLen, (read out outLen).1 = report
  null : ∀ outLen, (read none outLen).2 = none
  fills : ∀ cells outLen, ∃ after, (read (some cells) outLen).2 = some after ∧
    first (min entries.length outLen) after = entries.take outLen ∧
    ∀ i, min entries.length outLen ≤ i → after i = cells i

variable {outLen n : ℕ} {f : CountFill α} {as : List α} {cells : ℕ → α} {out : Option (ℕ → α)}

/-- Items that are not to be listed make no difference. -/
theorem foldl_offer (accept : β → Option α) (bs : List β) :
    bs.foldl (fun f b => f.offer outLen (accept b)) f =
      (bs.filterMap accept).foldl (put outLen) f := by
  induction bs generalizing f with
  | nil => rfl
  | cons b bs ih =>
    have hrest := ih (f := f.offer outLen (accept b))
    cases hb : accept b with
    | none =>
      rw [List.filterMap_cons_none hb, List.foldl_cons, hrest, hb]
      rfl
    | some a =>
      rw [List.filterMap_cons_some hb, List.foldl_cons, hrest, hb]
      rfl

@[simp] theorem foldl_put_found :
    (as.foldl (put outLen) ⟨out, 0⟩).found = as.length := by
  induction as using List.reverseRecOn with
  | nil => rfl
  | append_singleton as a ih => simp [put, ih]

@[simp] theorem foldl_put_null : (as.foldl (put outLen) ⟨none, 0⟩).out = none := by
  induction as using List.reverseRecOn with
  | nil => rfl
  | append_singleton as a ih => simp [put, ih]

/-- After any number of items the first cells hold those, as far as there is room. -/
theorem foldl_put_out (as : List α) (cells : ℕ → α) :
    ∃ after, (as.foldl (put outLen) ⟨some cells, 0⟩).out = some after ∧
      first (min as.length outLen) after = as.take outLen ∧
      ∀ i, min as.length outLen ≤ i → after i = cells i := by
  induction as using List.reverseRecOn with
  | nil => exact ⟨cells, rfl, by simp [first], fun _ _ => rfl⟩
  | append_singleton as a ih =>
    obtain ⟨after, hout, hfirst, hkept⟩ := ih
    have hstep : (as.foldl (put outLen) ⟨some cells, 0⟩).put outLen a =
        ⟨some (if as.length < outLen then Function.update after as.length a else after),
          as.length + 1⟩ := by
      simp [put, hout]
    rw [List.foldl_append, List.foldl_cons, List.foldl_nil, hstep, List.length_append,
      List.length_singleton]
    refine ⟨_, rfl, ?_⟩
    by_cases hroom : as.length < outLen
    · rw [if_pos hroom, Nat.min_eq_left hroom, List.take_of_length_le (by simp; omega)]
      rw [Nat.min_eq_left (Nat.le_of_lt hroom),
        List.take_of_length_le (Nat.le_of_lt hroom)] at hfirst
      refine ⟨by rw [first_snoc, hfirst], ?_⟩
      intro i hi
      rw [Function.update_of_ne (by omega)]
      exact hkept i (by omega)
    · have hfull : min (as.length + 1) outLen = min as.length outLen := by omega
      rw [if_neg hroom, hfull, List.take_append_of_le_length (by omega)]
      exact ⟨hfirst, hkept⟩

/-- Goes over the items with an array: how many there are to list, and the array after it. -/
def scan (accept : β → Option α) (bs : List β) (out : Option (ℕ → α)) (outLen : ℕ) :
    ℕ × Option (ℕ → α) :=
  let f := bs.foldl (fun f b => offer outLen f (accept b)) ⟨out, 0⟩
  (f.found, f.out)

/-- A loop whose turns offer what they accept goes over its items so. -/
theorem scan_of_turns {accept : β → Option α} {turn : ℕ → CountFill α → β → CountFill α}
    (h : ∀ outLen f b, turn outLen f b = f.offer outLen (accept b)) (bs : List β)
    (out : Option (ℕ → α)) (outLen : ℕ) :
    ((bs.foldl (turn outLen) ⟨out, 0⟩).found, (bs.foldl (turn outLen) ⟨out, 0⟩).out) =
      scan accept bs out outLen := by
  have hturn : turn outLen = fun f b => f.offer outLen (accept b) := funext₂ (h outLen)
  rw [hturn]
  rfl

/-- Items that pass a test are listed as what is made of them. -/
theorem filterMap_passed (test : β → Prop) [DecidablePred test] (make : β → α) (bs : List β) :
    bs.filterMap (fun b => if test b then some (make b) else none) =
      (bs.filter fun b => test b).map make := by
  induction bs with
  | nil => rfl
  | cons b bs ih =>
    by_cases hb : test b
    · simp [hb, ih]
    · simp [hb, ih]

/-- It counts those it accepts, and fills the array with them. -/
theorem countsThenFills_scan (accept : β → Option α) (bs : List β) :
    CountsThenFills (scan accept bs) (bs.filterMap accept).length (bs.filterMap accept) where
  report out outLen := by
    unfold scan
    rw [foldl_offer]
    exact foldl_put_found
  null outLen := by
    unfold scan
    rw [foldl_offer]
    exact foldl_put_null
  fills cells outLen := by
    unfold scan
    rw [foldl_offer]
    exact foldl_put_out _ cells

/-- A reader may take no array for one of length 0. -/
theorem CountsThenFills.of_length {read : Option (ℕ → α) → ℕ → ρ × Option (ℕ → α)} {report : ρ}
    {entries : List α} (h : CountsThenFills read report entries) :
    CountsThenFills (fun out outLen => read out (if out.isSome then outLen else 0)) report
      entries where
  report out _ := h.report out _
  null _ := h.null _
  fills cells outLen := h.fills cells outLen

/-- A reader that does not come to its items lists none. -/
theorem countsThenFills_refused (report : ρ) :
    CountsThenFills (fun (out : Option (ℕ → α)) (_ : ℕ) => (report, out)) report [] where
  report _ _ := rfl
  null _ := rfl
  fills cells _ := ⟨cells, rfl, by simp [first], fun _ _ => rfl⟩

/-- What a reader reports may be made of its count. -/
theorem CountsThenFills.map {ρ' : Type w} {read : Option (ℕ → α) → ℕ → ρ × Option (ℕ → α)}
    {report : ρ} {entries : List α} (h : CountsThenFills read report entries) (g : ρ → ρ') :
    CountsThenFills (fun out outLen => (g (read out outLen).1, (read out outLen).2)) (g report)
      entries where
  report out outLen := congrArg g (h.report out outLen)
  null outLen := h.null outLen
  fills cells outLen := h.fills cells outLen

end CountFill
