import Mathlib.Data.List.Nodup
import Mathlib.Tactic.Common

/-!
# What is taken is given back

A ledger lists what was taken and what was given back, by name and in order. Names come
back: one that was given back may be taken again. A name is settled when each time it was
taken it was given back, once, before it was taken again.
-/

universe u

namespace Ledger

variable {κ : Type u}

inductive Entry (κ : Type u)
  | took (k : κ)
  | gave (k : κ)
  deriving DecidableEq, Repr

def Entry.name : Entry κ → κ
  | .took k => k
  | .gave k => k

/-- The names that are given back, in order. -/
def given (ws : List (Entry κ)) : List κ :=
  ws.filterMap fun
    | .took _ => none
    | .gave k => some k

@[simp] theorem given_append (ws vs : List (Entry κ)) : given (ws ++ vs) = given ws ++ given vs :=
  List.filterMap_append

@[simp] theorem given_took (ks : List κ) : given (ks.map Entry.took) = [] := by
  simp [given]

@[simp] theorem given_gave (ks : List κ) : given (ks.map Entry.gave) = ks := by
  simp [given]

/-- `n` times taken and given back. -/
def rounds (k : κ) (n : ℕ) : List (Entry κ) := (List.replicate n [.took k, .gave k]).flatten

theorem rounds_succ (k : κ) (n : ℕ) : rounds k (n + 1) = rounds k n ++ [.took k, .gave k] := by
  simp [rounds, List.replicate_succ']

theorem rounds_length (k : κ) (n : ℕ) : (rounds k n).length = 2 * n := by
  simp [rounds]
  omega

variable [DecidableEq κ] {ws vs : List (Entry κ)} {out out' : κ → Prop} {k : κ} {ks : List κ}

/-- The entries of one name. -/
def about (k : κ) (ws : List (Entry κ)) : List (Entry κ) := ws.filter (·.name = k)

@[simp] theorem about_append : about k (ws ++ vs) = about k ws ++ about k vs := by
  simp [about]

/-- Entries of one kind, one for each name of a list. -/
theorem about_map_other {f : κ → Entry κ} (hf : ∀ j, (f j).name = j) (hk : k ∉ ks) :
    about k (ks.map f) = [] := by
  induction ks with
  | nil => rfl
  | cons j ks ih =>
    rw [List.mem_cons, not_or] at hk
    have hj : (f j).name ≠ k := by
      rw [hf]
      exact Ne.symm hk.1
    have hrest := ih hk.2
    simp only [about] at hrest ⊢
    simp [hj, hrest]

theorem about_map_self {f : κ → Entry κ} (hf : ∀ j, (f j).name = j) (hn : ks.Nodup)
    (hk : k ∈ ks) : about k (ks.map f) = [f k] := by
  obtain ⟨js, is, rfl⟩ := List.append_of_mem hk
  have hapart := List.nodup_middle.mp hn
  obtain ⟨hout, -⟩ := List.nodup_cons.mp hapart
  rw [List.mem_append, not_or] at hout
  have hsplit : about k ((js ++ k :: is).map f) =
      about k (js.map f) ++ (about k [f k] ++ about k (is.map f)) := by
    rw [← about_append, ← about_append]
    simp
  rw [hsplit, about_map_other hf hout.1, about_map_other hf hout.2]
  simp [about, hf]

/-- Each time the name was taken it was given back. -/
def Settled (ws : List (Entry κ)) (k : κ) : Prop := ∃ n, about k ws = rounds k n

/-- All but the last time. -/
def Owing (ws : List (Entry κ)) (k : κ) : Prop := ∃ n, about k ws = rounds k n ++ [.took k]

theorem settled_nil (k : κ) : Settled [] k := ⟨0, rfl⟩

theorem Owing.not_settled (h : Owing ws k) : ¬ Settled ws k := by
  rintro ⟨m, hm⟩
  obtain ⟨n, hn⟩ := h
  have hlen := congrArg List.length (hm.symm.trans hn)
  rw [List.length_append, rounds_length, rounds_length, List.length_singleton] at hlen
  omega

theorem Settled.took (h : Settled ws k) (hv : about k vs = [.took k]) : Owing (ws ++ vs) k := by
  obtain ⟨n, hn⟩ := h
  exact ⟨n, by rw [about_append, hn, hv]⟩

theorem Owing.gave (h : Owing ws k) (hv : about k vs = [.gave k]) : Settled (ws ++ vs) k := by
  obtain ⟨n, hn⟩ := h
  refine ⟨n + 1, ?_⟩
  rw [about_append, hn, hv, rounds_succ]
  simp

/-- The names that are owed are those of `out`. -/
structure Tracks (ws : List (Entry κ)) (out : κ → Prop) : Prop where
  owing : ∀ k, out k → Owing ws k
  settled : ∀ k, ¬ out k → Settled ws k

theorem tracks_nil (h : ∀ k, ¬ out k) : Tracks [] out where
  owing := fun k hk => absurd hk (h k)
  settled := fun k _ => settled_nil k

theorem Tracks.congr (h : Tracks ws out) (ho : ∀ k, out' k ↔ out k) : Tracks ws out' where
  owing := fun k hk => h.owing k ((ho k).mp hk)
  settled := fun k hk => h.settled k fun hout => hk ((ho k).mpr hout)

/-- Names that are not owed are taken. -/
theorem Tracks.took (h : Tracks ws out) (hn : ks.Nodup) (hks : ∀ k ∈ ks, ¬ out k) :
    Tracks (ws ++ ks.map .took) (fun j => out j ∨ j ∈ ks) := by
  constructor
  · intro j hj
    by_cases hin : j ∈ ks
    · exact (h.settled j (hks j hin)).took (about_map_self (fun _ => rfl) hn hin)
    · obtain ⟨n, howing⟩ := h.owing j (hj.resolve_right hin)
      exact ⟨n, by rw [about_append, about_map_other (fun _ => rfl) hin, howing, List.append_nil]⟩
  · intro j hj
    obtain ⟨hout, hin⟩ := not_or.mp hj
    obtain ⟨n, hsettled⟩ := h.settled j hout
    exact ⟨n, by rw [about_append, about_map_other (fun _ => rfl) hin, hsettled, List.append_nil]⟩

/-- Names that are owed are given back, each once. -/
theorem Tracks.gave (h : Tracks ws out) (hn : ks.Nodup) (hks : ∀ k ∈ ks, out k) :
    Tracks (ws ++ ks.map .gave) (fun j => out j ∧ j ∉ ks) := by
  constructor
  · rintro j ⟨hout, hin⟩
    obtain ⟨n, howing⟩ := h.owing j hout
    exact ⟨n, by rw [about_append, about_map_other (fun _ => rfl) hin, howing, List.append_nil]⟩
  · intro j hj
    by_cases hin : j ∈ ks
    · exact (h.owing j (hks j hin)).gave (about_map_self (fun _ => rfl) hn hin)
    · obtain ⟨n, hsettled⟩ := h.settled j fun hout => hj ⟨hout, hin⟩
      exact ⟨n, by rw [about_append, about_map_other (fun _ => rfl) hin, hsettled, List.append_nil]⟩

/-- Everything is settled exactly if nothing is owed. -/
theorem Tracks.settled_iff (h : Tracks ws out) : (∀ k, Settled ws k) ↔ ∀ k, ¬ out k :=
  ⟨fun hs k hk => (h.owing k hk).not_settled (hs k), fun hn k => h.settled k (hn k)⟩

end Ledger
