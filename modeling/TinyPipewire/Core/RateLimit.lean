import TinyPipewire.Lib.Throttle
import TinyPipewire.Types

/-!
# Repeated conditions are logged once per interval

`pwf_rate_limited` keeps the time of the last report, 0 being none, and counts what it holds
back; its callers log the count and clear it.
-/

namespace TinyPipewire

/-- `PWF_LOG_INTERVAL_NS`. -/
def logIntervalNs : UInt64 := 1000000000

/-- `pwf_rate_limited`: whether to report, and the two counters after it. -/
def rateLimited (lastLogNs suppressed nowNs : UInt64) : Bool × UInt64 × UInt64 :=
  if lastLogNs ≠ 0 ∧ nowNs - lastLogNs < logIntervalNs then (false, lastLogNs, suppressed + 1)
  else (true, nowNs, suppressed)

/-- The two counters of a condition. -/
structure LogLimit where
  lastLogNs : UInt64
  suppressed : UInt64
  deriving DecidableEq, Repr

namespace LogLimit

open Noted

/-- The counters of a stream that was just created. -/
def cleared : LogLimit := ⟨0, 0⟩

/-- What a caller of `pwf_rate_limited` logs: how many more were suppressed. -/
def log (l : LogLimit) (nowNs : UInt64) : Option UInt64 :=
  let (report, _, suppressed) := rateLimited l.lastLogNs l.suppressed nowNs
  if report then some suppressed else none

/-- The counters after it; a report clears the one it logs. -/
def after (l : LogLimit) (nowNs : UInt64) : LogLimit :=
  let (report, last, suppressed) := rateLimited l.lastLogNs l.suppressed nowNs
  ⟨last, if report then 0 else suppressed⟩

/-- A condition as it repeats. -/
def machine : Machine LogLimit UInt64 (Noted UInt64 UInt64) where
  Enabled _ _ := True
  next := after
  out l nowNs := [⟨nowNs, l.log nowNs⟩]

/-- What is logged of a condition that holds at these times. -/
def noted (ts : List UInt64) : List (Noted UInt64 UInt64) := machine.outs cleared ts

/-- It was a second ago, or longer. -/
def Second (l t : UInt64) : Prop := l.toNat + 10 ^ 9 ≤ t.toNat

instance : DecidableRel Second := fun l t =>
  inferInstanceAs (Decidable (l.toNat + 10 ^ 9 ≤ t.toNat))

/-- The counters of a throttle of one report a second. -/
def ofThrottle (s : Throttle UInt64) : LogLimit := ⟨s.last.getD 0, .ofNat s.held⟩

variable {ts : List UInt64} {s : Throttle UInt64} {l t : UInt64}

/-- The difference of two clock readings says whether a second passed between them. -/
theorem sub_lt_interval (h : l ≤ t) : t - l < logIntervalNs ↔ ¬ Second l t := by
  have hle := UInt64.le_iff_toNat_le.mp h
  have hone : logIntervalNs.toNat = 10 ^ 9 := rfl
  rw [UInt64.lt_iff_toNat_lt, UInt64.toNat_sub_of_le _ _ h, hone]
  unfold Second
  omega

theorem rateLimited_ofThrottle (hlast : ∀ l ∈ s.last, 0 < l ∧ l ≤ t) :
    rateLimited (ofThrottle s).lastLogNs (ofThrottle s).suppressed t =
      if s.Open Second t then (true, t, .ofNat s.held)
      else (false, s.last.getD 0, .ofNat (s.held + 1)) := by
  obtain ⟨last, held⟩ := s
  cases last with
  | none => simp [rateLimited, ofThrottle, Throttle.Open]
  | some l =>
    obtain ⟨hpos, hle⟩ := hlast l rfl
    have hne : l ≠ 0 := by
      rintro rfl
      exact absurd hpos (by decide)
    have hopen : Throttle.Open Second ⟨some l, held⟩ t ↔ Second l t := by
      simp [Throttle.Open]
    by_cases hd : Second l t
    · simp [rateLimited, ofThrottle, hne, sub_lt_interval hle, hopen, hd]
    · simp [rateLimited, ofThrottle, hne, sub_lt_interval hle, hopen, hd]

theorem log_ofThrottle (hlast : ∀ l ∈ s.last, 0 < l ∧ l ≤ t) :
    (ofThrottle s).log t = (s.note Second t).report.map .ofNat := by
  unfold log Throttle.note
  rw [rateLimited_ofThrottle hlast]
  by_cases ho : s.Open Second t
  · simp [ho]
  · simp [ho]

theorem after_ofThrottle (hlast : ∀ l ∈ s.last, 0 < l ∧ l ≤ t) :
    (ofThrottle s).after t = ofThrottle ((Throttle.machine Second).next s t) := by
  unfold after
  rw [rateLimited_ofThrottle hlast]
  unfold Throttle.machine
  by_cases ho : s.Open Second t
  · simp [ho, ofThrottle]
  · simp [ho, ofThrottle]

theorem noted_snoc :
    noted (ts ++ [t]) = noted ts ++ [⟨t, (machine.exec cleared ts).log t⟩] := by
  simp [noted, machine]

/-- At positive times that do not go back, the counters are those of a throttle, the number
held back modulo 2^64. -/
theorem noted_eq (hpos : ∀ t ∈ ts, 0 < t) (h : ts.Pairwise (· ≤ ·)) :
    noted ts = (Throttle.noted Second ts).map (recount UInt64.ofNat) ∧
      machine.exec cleared ts = ofThrottle ((Throttle.machine Second).exec .cleared ts) := by
  induction ts using List.reverseRecOn with
  | nil => exact ⟨rfl, rfl⟩
  | append_singleton ts t ih =>
    obtain ⟨hts, -, hle⟩ := List.pairwise_append.mp h
    obtain ⟨hnoted, hexec⟩ := ih (fun t ht => hpos t (by simp [ht])) hts
    have hlast : ∀ l ∈ ((Throttle.machine Second).exec .cleared ts).last, 0 < l ∧ l ≤ t := by
      intro l hl
      rw [Throttle.exec_eq] at hl
      obtain ⟨w, hw, -, rfl⟩ := lastLogged_mem hl
      have hmem : w.time ∈ ts := by
        have htimes : (Throttle.noted Second ts).map Noted.time = ts := Throttle.noted_time
        rw [← htimes]
        exact List.mem_map_of_mem hw
      exact ⟨hpos _ (by simp [hmem]), hle _ hmem t (by simp)⟩
    have hlog := log_ofThrottle hlast
    have hafter := after_ofThrottle hlast
    constructor
    · rw [noted_snoc, Throttle.noted_snoc, List.map_append, hnoted, hexec, hlog]
      rfl
    · rw [Machine.exec_append, Machine.exec_append, hexec]
      exact hafter

/-- What a report counts, and what occurred since the one before it. -/
def CountedExactly (ws : List (Noted UInt64 UInt64)) : Prop := Counts (·.toNat = ·) ws

/-- The same, as a 64-bit counter holds it. -/
def CountedModulo (ws : List (Noted UInt64 UInt64)) : Prop := Counts (·.toNat = · % 2 ^ 64) ws

@[simp] theorem noted_time : (noted ts).map Noted.time = ts := by
  induction ts using List.reverseRecOn with
  | nil => rfl
  | append_singleton ts t ih =>
    rw [noted_snoc, List.map_append, ih]
    rfl

theorem noted_laws (hpos : ∀ t ∈ ts, 0 < t) (h : ts.Pairwise (· ≤ ·)) :
    Paced Second (noted ts) ∧ CountedModulo (noted ts) := by
  have hwait : ∀ a b c : UInt64, Second a b → b ≤ c → Second a c := by
    intro a b c hab hbc
    have hbc := UInt64.le_iff_toNat_le.mp hbc
    unfold Second at hab ⊢
    omega
  obtain ⟨hnoted, -⟩ := noted_eq hpos h
  rw [hnoted]
  refine ⟨(Throttle.paced_noted hwait h).recount, Throttle.counts_noted.recount ?_⟩
  rintro k n rfl
  exact UInt64.toNat_ofNat'

/-- At positive times that do not go back, the first occurrence is reported, reports are a second
apart, an occurrence a second after the last report is reported, and what each report counts is
what occurred since the one before it, modulo 2^64. -/
theorem noted_paced (hpos : ∀ t ∈ ts, 0 < t) (h : ts.Pairwise (· ≤ ·)) :
    (noted ts).map Noted.time = ts ∧ Paced Second (noted ts) ∧ CountedModulo (noted ts) :=
  ⟨noted_time, noted_laws hpos h⟩

theorem noted_paced_three :
    Paced Second (noted [5, 6, 1000000005]) ∧ CountedModulo (noted [5, 6, 1000000005]) ∧
      (noted [5, 6, 1000000005]).map Noted.report = [some 0, none, some 1] := by
  have hpos : ∀ t ∈ ([5, 6, 1000000005] : List UInt64), 0 < t := by
    intro t ht
    obtain rfl | rfl | rfl := by simpa using ht
    all_goals decide
  obtain ⟨-, hpaced, hcount⟩ := noted_paced hpos (by decide)
  exact ⟨hpaced, hcount, by decide⟩

/-- Occurrences within the second are counted, and the counter wraps. -/
theorem outs_replicate (l k : UInt64) (hl : l ≠ 0) (n : ℕ) :
    machine.outs ⟨l, k⟩ (List.replicate n l) = List.replicate n ⟨l, none⟩ ∧
      machine.exec ⟨l, k⟩ (List.replicate n l) = ⟨l, k + .ofNat n⟩ := by
  induction n generalizing k with
  | zero => simp
  | succ n ih =>
    have hheld : rateLimited l k l = (false, l, k + 1) := by
      simp [rateLimited, hl, logIntervalNs]
    obtain ⟨houts, hexec⟩ := ih (k + 1)
    have hnext : machine.next ⟨l, k⟩ l = ⟨l, k + 1⟩ := by simp [machine, after, hheld]
    have hout : machine.out ⟨l, k⟩ l = [⟨l, none⟩] := by simp [machine, log, hheld]
    constructor
    · rw [List.replicate_succ, Machine.outs_cons, hnext, hout, houts]
      rfl
    · rw [List.replicate_succ, Machine.exec_cons, hnext, hexec]
      congr 1
      rw [UInt64.add_assoc, Nat.add_comm n 1, UInt64.ofNat_add]
      rfl

/-- What is logged of occurrences at one time, and of one a second later. -/
theorem noted_burst (n : ℕ) :
    noted (List.replicate (n + 1) 1 ++ [1000000001]) =
      (⟨1, some 0⟩ :: List.replicate n ⟨1, none⟩) ++ [⟨1000000001, some (.ofNat n)⟩] := by
  obtain ⟨houts, hexec⟩ := outs_replicate 1 0 (by decide) n
  have hout : machine.out cleared 1 = [⟨1, some 0⟩] := by decide
  have hnext : machine.next cleared 1 = ⟨1, 0⟩ := by decide
  have hlast : ∀ k, machine.out ⟨1, k⟩ 1000000001 = [⟨1000000001, some k⟩] := by
    intro k
    have hlong : ¬ (1000000001 : UInt64) - 1 < logIntervalNs := by decide
    simp only [machine, log, rateLimited, hlong, and_false, if_false, if_true]
  rw [noted, Machine.outs_append, List.replicate_succ, Machine.outs_cons, Machine.exec_cons, hnext,
    hout, houts, hexec, Machine.outs_cons, Machine.outs_nil, hlast, UInt64.zero_add]
  rfl

theorem since_burst (n : ℕ) :
    (History.since logged (⟨1, some 0⟩ :: List.replicate n ⟨1, none⟩ :
      List (Noted UInt64 UInt64))).length = n := by
  have hnone : ∀ w ∈ (List.replicate n ⟨1, none⟩ : List (Noted UInt64 UInt64)),
      w.logged = false := by
    intro w hw
    rw [List.eq_of_mem_replicate hw]
    rfl
  have hone : History.since logged [(⟨1, some 0⟩ : Noted UInt64 UInt64)] = [] := rfl
  rw [← List.singleton_append, History.since_append hnone, hone, List.nil_append,
    List.length_replicate]

/-- Of 2^64 occurrences that were held back, a report a second later counts none. -/
theorem suppressed_wraps :
    ∃ ts : List UInt64, (∀ t ∈ ts, 0 < t) ∧ ts.Pairwise (· ≤ ·) ∧
      ¬ CountedExactly (noted ts) := by
  refine ⟨List.replicate (2 ^ 64 + 1) 1 ++ [1000000001], ?_, ?_, ?_⟩
  · intro t ht
    rcases List.mem_append.mp ht with ht | ht
    · rw [List.eq_of_mem_replicate ht]
      decide
    · rw [List.mem_singleton.mp ht]
      decide
  · refine List.pairwise_append.mpr ⟨?_, List.pairwise_singleton _ _, ?_⟩
    · rw [List.pairwise_replicate]
      exact Or.inr (by decide)
    · intro a ha b hb
      rw [List.eq_of_mem_replicate ha, List.mem_singleton.mp hb]
      decide
  · intro h
    have hcount := h _ _ [] _ (noted_burst (2 ^ 64)) rfl
    rw [since_burst, UInt64.toNat_ofNat'] at hcount
    omega

end LogLimit

end TinyPipewire
