import TinyPipewire.Lib.History
import TinyPipewire.Lib.Machine

/-!
# Reporting what repeats

A throttle reports an occurrence if it is due since the last one it reported, and counts the
others until then. When an occurrence is due is any relation that waiting does not undo.
-/

universe u v

/-- An occurrence, and the number it is reported with, if it is. -/
structure Noted (τ : Type u) (κ : Type v) where
  time : τ
  report : Option κ
  deriving DecidableEq, Repr

namespace Noted

variable {τ : Type u} {κ : Type v}

/-- It was reported. -/
def logged (w : Noted τ κ) : Bool := w.report.isSome

/-- When the last report was, of those there were. -/
def lastLogged (ws : List (Noted τ κ)) : Option τ := (ws.filter logged).getLast?.map time

theorem lastLogged_snoc {ws : List (Noted τ κ)} {w : Noted τ κ} :
    lastLogged (ws ++ [w]) = if w.logged = true then some w.time else lastLogged ws := by
  unfold lastLogged
  by_cases hw : w.logged = true
  · simp [hw]
  · simp [hw]

theorem lastLogged_mem {ws : List (Noted τ κ)} {l : τ} (h : lastLogged ws = some l) :
    ∃ w ∈ ws, w.logged = true ∧ w.time = l := by
  obtain ⟨w, hw, htime⟩ := Option.map_eq_some_iff.mp h
  obtain ⟨hmem, hlogged⟩ := List.mem_filter.mp (List.mem_of_getLast? hw)
  exact ⟨w, hmem, hlogged, htime⟩

/-- The first occurrence is reported, whatever is due is, and no two reports are closer than
that. -/
structure Paced (due : τ → τ → Prop) (ws : List (Noted τ κ)) : Prop where
  first : ∀ w, ws.head? = some w → w.logged = true
  apart : ws.Pairwise fun v w => v.logged = true → w.logged = true → due v.time w.time
  due : ∀ us w vs, ws = us ++ w :: vs → (∀ l, lastLogged us = some l → due l w.time) →
    w.logged = true

/-- What a report counts stands for the number of occurrences since the one before it. -/
def Counts (r : κ → ℕ → Prop) (ws : List (Noted τ κ)) : Prop :=
  ∀ us w vs k, ws = us ++ w :: vs → w.report = some k → r k (History.since logged us).length

/-- The count of a report seen as another. -/
def recount {κ' : Type v} (f : κ → κ') (w : Noted τ κ) : Noted τ κ' := ⟨w.time, w.report.map f⟩

variable {κ' : Type v} {f : κ → κ'}

@[simp] theorem recount_time (w : Noted τ κ) : (w.recount f).time = w.time := rfl

@[simp] theorem recount_logged (w : Noted τ κ) : (w.recount f).logged = w.logged := by
  simp [recount, logged]

variable {ws us vs : List (Noted τ κ)}

@[simp] theorem lastLogged_recount : lastLogged (ws.map (recount f)) = lastLogged ws := by
  induction ws using List.reverseRecOn with
  | nil => rfl
  | append_singleton ws w ih => simp [lastLogged_snoc, ih]

@[simp] theorem since_recount :
    History.since logged (ws.map (recount f)) = (History.since logged ws).map (recount f) := by
  induction ws using List.reverseRecOn with
  | nil => rfl
  | append_singleton ws w ih =>
    by_cases hw : w.logged = true
    · simp [History.since_snoc, hw]
    · simp [History.since_snoc, hw, ih]

/-- Where a recounted history splits, the one before it does. -/
theorem recount_split {us' vs' : List (Noted τ κ')} {w' : Noted τ κ'}
    (h : ws.map (recount f) = us' ++ w' :: vs') :
    ∃ us w vs, ws = us ++ w :: vs ∧ us' = us.map (recount f) ∧ w' = w.recount f := by
  obtain ⟨us, ws', rfl, rfl, hws'⟩ := List.map_eq_append_iff.mp h
  obtain ⟨w, vs, rfl, rfl, -⟩ := List.map_eq_cons_iff.mp hws'
  exact ⟨us, w, vs, rfl, rfl, rfl⟩

theorem Paced.recount {due : τ → τ → Prop} (h : Paced due ws) :
    Paced due (ws.map (recount f)) where
  first w hw := by
    rw [List.head?_map] at hw
    obtain ⟨v, hv, rfl⟩ := Option.map_eq_some_iff.mp hw
    simpa using h.first v hv
  apart := by
    rw [List.pairwise_map]
    simpa using h.apart
  due us' w' vs' hws hdue := by
    obtain ⟨us, w, vs, hsplit, rfl, rfl⟩ := recount_split hws
    rw [lastLogged_recount] at hdue
    rw [recount_logged]
    exact h.due us w vs hsplit hdue

theorem Counts.recount {r : κ → ℕ → Prop} {r' : κ' → ℕ → Prop} (h : Counts r ws)
    (hr : ∀ k n, r k n → r' (f k) n) : Counts r' (ws.map (recount f)) := by
  intro us' w' vs' k' hws hk'
  obtain ⟨us, w, vs, hsplit, rfl, rfl⟩ := recount_split hws
  obtain ⟨k, hk, rfl⟩ := Option.map_eq_some_iff.mp hk'
  have hcount := h us w vs k hsplit hk
  rw [since_recount, List.length_map]
  exact hr k _ hcount

end Noted

/-- When the last report was, and what occurred since. -/
structure Throttle (τ : Type u) where
  last : Option τ
  held : ℕ
  deriving DecidableEq, Repr

namespace Throttle

open Noted

variable {τ : Type u}

/-- Nothing is reported yet. -/
def cleared : Throttle τ := ⟨none, 0⟩

variable (due : τ → τ → Prop) [DecidableRel due]

/-- An occurrence now is due. -/
def Open (s : Throttle τ) (t : τ) : Prop := ∀ l ∈ s.last, due l t

instance (s : Throttle τ) (t : τ) : Decidable (s.Open due t) :=
  inferInstanceAs (Decidable (∀ l ∈ s.last, due l t))

/-- How an occurrence is noted. -/
def note (s : Throttle τ) (t : τ) : Noted τ ℕ := ⟨t, if s.Open due t then some s.held else none⟩

/-- A throttle as occurrences come. -/
def machine : Machine (Throttle τ) τ (Noted τ ℕ) where
  Enabled _ _ := True
  next s t := if s.Open due t then ⟨some t, 0⟩ else ⟨s.last, s.held + 1⟩
  out s t := [s.note due t]

/-- All that occurred, as it was noted. -/
def noted (ts : List τ) : List (Noted τ ℕ) := (machine due).outs cleared ts

variable {due} {ts : List τ} {t : τ}

theorem noted_snoc (ts : List τ) (t : τ) :
    noted due (ts ++ [t]) = noted due ts ++ [((machine due).exec cleared ts).note due t] := by
  simp [noted, machine]

@[simp] theorem noted_time : (noted due ts).map time = ts := by
  induction ts using List.reverseRecOn with
  | nil => rfl
  | append_singleton ts t ih => rw [noted_snoc, List.map_append, ih]; rfl

/-- A throttle knows when it reported last, and how much it has not. -/
theorem exec_eq : (machine due).exec cleared ts =
    ⟨lastLogged (noted due ts), (History.since logged (noted due ts)).length⟩ := by
  induction ts using List.reverseRecOn with
  | nil => rfl
  | append_singleton ts t ih =>
    rw [noted_snoc, Machine.exec_append, ih]
    by_cases ho : Open due ⟨lastLogged (noted due ts),
        (History.since logged (noted due ts)).length⟩ t
    · simp [machine, note, ho, lastLogged_snoc, History.since_snoc, logged]
    · simp [machine, note, ho, lastLogged_snoc, History.since_snoc, logged]

/-- An occurrence was noted with what had been noted before it. -/
theorem noted_split {us vs : List (Noted τ ℕ)} {w : Noted τ ℕ}
    (h : noted due ts = us ++ w :: vs) :
    (w.logged = true ↔ ∀ l, lastLogged us = some l → due l w.time) ∧
      ∀ k, w.report = some k → k = (History.since logged us).length := by
  obtain ⟨ys, t, zs, pre, post, rfl, hus, hout⟩ := Machine.outs_split h
  obtain ⟨rfl, rfl, rfl⟩ :
      pre = [] ∧ w = ((machine due).exec cleared ys).note due t ∧ post = [] := by
    cases pre with
    | nil =>
      obtain ⟨hw, hpost⟩ := List.cons.inj hout
      exact ⟨rfl, hw.symm, hpost.symm⟩
    | cons _ pre =>
      have hlen := congrArg List.length hout
      simp [machine] at hlen
  obtain rfl : us = noted due ys := by simpa [noted] using hus
  rw [exec_eq]
  by_cases ho : Open due ⟨lastLogged (noted due ys),
      (History.since logged (noted due ys)).length⟩ t
  · have hall : ∀ l, lastLogged (noted due ys) = some l → due l t := ho
    simp only [note, ho, if_true, logged, Option.isSome_some, true_iff]
    exact ⟨hall, fun k hk => (Option.some.inj hk).symm⟩
  · have hnot : ¬ ∀ l, lastLogged (noted due ys) = some l → due l t := ho
    simp [note, ho, logged, hnot]

theorem counts_noted : Counts (· = ·) (noted due ts) := by
  intro us w vs k hws hk
  exact (noted_split hws).2 k hk

variable [LE τ]

/-- What is due since the last report is due since each, if waiting longer is as good. -/
theorem due_of_lastLogged (hwait : ∀ a b c, due a b → b ≤ c → due a c)
    (h : ts.Pairwise (· ≤ ·)) {v : Noted τ ℕ} (hv : v ∈ noted due ts) (hlogged : v.logged = true)
    {c : τ} (hc : ∀ t ∈ ts, t ≤ c) (hdue : ∀ l, lastLogged (noted due ts) = some l → due l c) :
    due v.time c := by
  induction ts using List.reverseRecOn generalizing c with
  | nil => cases hv
  | append_singleton ts t ih =>
    obtain ⟨hts, -, hle⟩ := List.pairwise_append.mp h
    have hle : ∀ r ∈ ts, r ≤ t := fun r hr => hle r hr t (by simp)
    have hsnoc : noted due (ts ++ [t]) = _ := noted_snoc ts t
    obtain ⟨hopen, -⟩ := noted_split hsnoc
    rw [hsnoc] at hv hdue
    rw [lastLogged_snoc] at hdue
    by_cases hw : (((machine due).exec cleared ts).note due t).logged = true
    · have htc : due t c := hdue t (if_pos hw)
      rcases List.mem_append.mp hv with hv | hv
      · have hvt : due v.time t := ih hts hv hle (hopen.mp hw)
        exact hwait _ _ _ hvt (hc t (by simp))
      · obtain rfl := List.mem_singleton.mp hv
        exact htc
    · rcases List.mem_append.mp hv with hv | hv
      · exact ih hts hv (fun r hr => hc r (by simp [hr])) fun l hl => hdue l ((if_neg hw).trans hl)
      · obtain rfl := List.mem_singleton.mp hv
        exact absurd hlogged hw

/-- A throttle paces its reports. -/
theorem paced_noted (hwait : ∀ a b c, due a b → b ≤ c → due a c) (h : ts.Pairwise (· ≤ ·)) :
    Paced due (noted due ts) where
  first w hw := by
    cases hws : noted due ts with
    | nil => simp [hws] at hw
    | cons v vs =>
      obtain rfl : v = w := by simpa [hws] using hw
      have hsplit : noted due ts = [] ++ v :: vs := hws
      apply (noted_split hsplit).1.mpr
      intro l hl
      cases hl
  apart := by
    induction ts using List.reverseRecOn with
    | nil => exact List.Pairwise.nil
    | append_singleton ts t ih =>
      obtain ⟨hts, -, hle⟩ := List.pairwise_append.mp h
      have hsnoc : noted due (ts ++ [t]) = _ := noted_snoc ts t
      rw [hsnoc]
      refine List.pairwise_append.mpr ⟨ih hts, List.pairwise_singleton _ _, ?_⟩
      intro v hv w hw hvl hwl
      obtain rfl := List.mem_singleton.mp hw
      obtain ⟨hopen, -⟩ := noted_split hsnoc
      exact due_of_lastLogged hwait hts hv hvl (fun r hr => hle r hr t (by simp)) (hopen.mp hwl)
  due us w vs hws hdue := (noted_split hws).1.mpr hdue

end Throttle
