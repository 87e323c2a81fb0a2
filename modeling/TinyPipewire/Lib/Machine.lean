import Mathlib.Data.List.Induction
import Mathlib.Tactic.Common

/-!
# Machines with guarded actions and outputs

A machine is a total update function together with a guard and the outputs an
action emits. Every scheduling or environment choice is part of the action, so
a run is a list of actions and "every interleaving" is a quantifier over lists.
-/

universe u v w

/-- A guarded deterministic machine on states `σ`, actions `α` and outputs `ω`. -/
structure Machine (σ : Type u) (α : Type v) (ω : Type w) where
  Enabled : σ → α → Prop
  next : σ → α → σ
  out : σ → α → List ω

namespace Machine

variable {σ : Type u} {α : Type v} {ω : Type w} (M : Machine σ α ω)

/-- The state after a list of actions. -/
def exec (s : σ) (xs : List α) : σ := xs.foldl M.next s

/-- Everything a list of actions emits, oldest first. -/
def outs : σ → List α → List ω
  | _, [] => []
  | s, a :: xs => M.out s a ++ outs (M.next s a) xs

/-- Every action of the list is enabled where it is taken. -/
def Valid : σ → List α → Prop
  | _, [] => True
  | s, a :: xs => M.Enabled s a ∧ Valid (M.next s a) xs

instance decidableValid [∀ s a, Decidable (M.Enabled s a)] :
    ∀ (s : σ) (xs : List α), Decidable (M.Valid s xs)
  | _, [] => isTrue trivial
  | s, a :: xs =>
    have : Decidable (M.Valid (M.next s a) xs) := decidableValid (M.next s a) xs
    inferInstanceAs (Decidable (M.Enabled s a ∧ M.Valid (M.next s a) xs))

/-- The machine that takes only the enabled actions meeting a condition on the
state before them. Updates and outputs are those of the machine itself. -/
def restrict (C : σ → α → Prop) : Machine σ α ω :=
  { M with Enabled := fun s a => M.Enabled s a ∧ C s a }

instance {C : σ → α → Prop} [∀ s a, Decidable (M.Enabled s a)] [∀ s a, Decidable (C s a)]
    (s : σ) (a : α) : Decidable ((M.restrict C).Enabled s a) :=
  inferInstanceAs (Decidable (_ ∧ _))

variable {M} {s t : σ} {a : α} {xs ys : List α}

@[simp] theorem exec_nil : M.exec s [] = s := rfl

@[simp] theorem exec_cons : M.exec s (a :: xs) = M.exec (M.next s a) xs := rfl

@[simp] theorem exec_append : M.exec s (xs ++ ys) = M.exec (M.exec s xs) ys := by
  simp [exec]

@[simp] theorem outs_nil : M.outs s [] = [] := rfl

@[simp] theorem outs_cons :
    M.outs s (a :: xs) = M.out s a ++ M.outs (M.next s a) xs := rfl

@[simp] theorem outs_append :
    M.outs s (xs ++ ys) = M.outs s xs ++ M.outs (M.exec s xs) ys := by
  induction xs generalizing s with
  | nil => rfl
  | cons a xs ih => simp [ih]

theorem exec_concat : M.exec s (xs ++ [a]) = M.next (M.exec s xs) a := exec_append

theorem outs_concat : M.outs s (xs ++ [a]) = M.outs s xs ++ M.out (M.exec s xs) a := by
  simp

@[simp] theorem valid_nil : M.Valid s [] := trivial

@[simp] theorem valid_cons :
    M.Valid s (a :: xs) ↔ M.Enabled s a ∧ M.Valid (M.next s a) xs := Iff.rfl

@[simp] theorem valid_append :
    M.Valid s (xs ++ ys) ↔ M.Valid s xs ∧ M.Valid (M.exec s xs) ys := by
  induction xs generalizing s with
  | nil => simp
  | cons a xs ih => simp [ih, and_assoc]

theorem valid_of_restrict {C : σ → α → Prop} (h : (M.restrict C).Valid s xs) :
    M.Valid s xs := by
  induction xs generalizing s with
  | nil => trivial
  | cons a xs ih => exact ⟨h.1.1, ih h.2⟩

/-- Where every action is enabled, every list of actions is a run. -/
theorem valid_of_enabled (h : ∀ s a, M.Enabled s a) : M.Valid s xs := by
  induction xs generalizing s with
  | nil => trivial
  | cons a xs ih => exact ⟨h s a, ih⟩

/-- A restricted run is a run whose every action meets the condition. -/
theorem valid_restrict_iff {C : σ → α → Prop} :
    (M.restrict C).Valid s xs ↔ M.Valid s xs ∧
      ∀ ys a zs, xs = ys ++ a :: zs → C (M.exec s ys) a := by
  constructor
  · intro h
    refine ⟨valid_of_restrict h, ?_⟩
    rintro ys a zs rfl
    exact ((valid_append.mp h).2.1).2
  · rintro ⟨h, hC⟩
    induction xs generalizing s with
    | nil => trivial
    | cons a xs ih =>
      refine ⟨⟨h.1, hC [] a xs rfl⟩, ih h.2 ?_⟩
      rintro ys b zs rfl
      exact hC (a :: ys) b zs rfl

/-- Induction over a run, extending it at its end. -/
theorem run_induction {P : List α → Prop} (nil : P [])
    (snoc : ∀ ys a, M.Valid s ys → M.Enabled (M.exec s ys) a → P ys → P (ys ++ [a]))
    (h : M.Valid s xs) : P xs := by
  induction xs using List.reverseRecOn with
  | nil => exact nil
  | append_singleton ys a ih =>
    obtain ⟨hys, ha, -⟩ := valid_append.mp h
    exact snoc ys a hys ha (ih hys)

/-- A predicate that every enabled action preserves holds after every run. -/
theorem invariant {I : σ → Prop} (h0 : I s)
    (step : ∀ s a, M.Enabled s a → I s → I (M.next s a)) (h : M.Valid s xs) :
    I (M.exec s xs) := by
  induction xs generalizing s with
  | nil => exact h0
  | cons a xs ih => exact ih (step s a h.1 h0) h.2

/-- The invariant rule for predicates that also read everything emitted so far. -/
theorem history {P : List ω → σ → Prop} (h0 : P [] s)
    (step : ∀ ws s a, M.Enabled s a → P ws s → P (ws ++ M.out s a) (M.next s a))
    (h : M.Valid s xs) : P (M.outs s xs) (M.exec s xs) := by
  refine run_induction (P := fun ys => P (M.outs s ys) (M.exec s ys)) h0 ?_ h
  intro ys a _ ha ih
  simpa using step _ _ a ha ih

@[simp] theorem exec_restrict {C : σ → α → Prop} :
    (M.restrict C).exec s xs = M.exec s xs := rfl

@[simp] theorem outs_restrict {C : σ → α → Prop} :
    (M.restrict C).outs s xs = M.outs s xs := by
  induction xs generalizing s with
  | nil => rfl
  | cons a xs ih => exact congrArg (M.out s a ++ ·) ih

/-- The history rule for runs whose every action meets a condition. -/
theorem history_restrict {C : σ → α → Prop} {P : List ω → σ → Prop} (h0 : P [] s)
    (step : ∀ ws s a, M.Enabled s a → C s a → P ws s → P (ws ++ M.out s a) (M.next s a))
    (h : (M.restrict C).Valid s xs) : P (M.outs s xs) (M.exec s xs) := by
  have := history (M := M.restrict C) (P := P) h0
    (fun ws s a he hp => step ws s a he.1 he.2 hp) h
  rwa [outs_restrict, exec_restrict] at this

/-- Where a condition fails exactly at the actions that do wrong, as long as it held before
them, the runs that do no wrong are those that meet it. -/
theorem never_iff_restrict {C : σ → α → Prop} {W : List α → α → Prop}
    (hw : ∀ ys a, (M.restrict C).Valid s ys → M.Enabled (M.exec s ys) a →
      (W ys a ↔ ¬ C (M.exec s ys) a)) (h : M.Valid s xs) :
    (∀ ys a zs, xs = ys ++ a :: zs → ¬ W ys a) ↔ (M.restrict C).Valid s xs := by
  constructor
  · intro hnever
    refine run_induction (P := fun ys => (∃ zs, xs = ys ++ zs) → (M.restrict C).Valid s ys)
      (fun _ => trivial) ?_ h ⟨[], by simp⟩
    rintro ys a - ha ih ⟨zs, hxs⟩
    have hys := ih ⟨a :: zs, by simpa using hxs⟩
    refine valid_append.mpr ⟨hys, ⟨ha, ?_⟩, trivial⟩
    by_contra hc
    exact hnever ys a zs (by simpa using hxs) ((hw ys a hys ha).mpr hc)
  · rintro hC ys a zs rfl
    obtain ⟨hys, ⟨ha, hc⟩, -⟩ := valid_append.mp hC
    exact fun hwrong => (hw ys a hys ha).mp hwrong hc

/-- Where a condition holds exactly at the actions that lead to what is good, the runs with
only good prefixes are those that meet it. -/
theorem always_iff_restrict {C : σ → α → Prop} {G : List α → Prop} (nil : G [])
    (hg : ∀ ys a, (M.restrict C).Valid s ys → M.Enabled (M.exec s ys) a →
      (G (ys ++ [a]) ↔ C (M.exec s ys) a)) (h : M.Valid s xs) :
    (∀ ys zs, xs = ys ++ zs → G ys) ↔ (M.restrict C).Valid s xs := by
  rw [← never_iff_restrict (W := fun ys a => ¬ G (ys ++ [a]))
    (fun ys a hys ha => not_congr (hg ys a hys ha)) h]
  constructor
  · intro hgood ys a zs hxs
    exact not_not.mpr (hgood (ys ++ [a]) zs (by simpa using hxs))
  · intro hnever ys zs hxs
    induction ys using List.reverseRecOn with
    | nil => exact nil
    | append_singleton ys a => exact not_not.mp (hnever ys a zs (by simpa using hxs))

/-- Where each state short of the goal has an action that lowers a rank, some run gets there. -/
theorem reaches {I G : σ → Prop} {rank : σ → ℕ}
    (step : ∀ s, I s → ¬ G s → ∃ a, M.Enabled s a ∧ I (M.next s a) ∧ rank (M.next s a) < rank s)
    (h : I s) : ∃ xs, M.Valid s xs ∧ G (M.exec s xs) := by
  induction hr : rank s using Nat.strongRecOn generalizing s with
  | ind n ih =>
    by_cases hg : G s
    · exact ⟨[], trivial, hg⟩
    · obtain ⟨a, ha, hi, hlt⟩ := step s h hg
      obtain ⟨xs, hxs, hgoal⟩ := ih (rank (M.next s a)) (hr ▸ hlt) hi rfl
      exact ⟨a :: xs, ⟨ha, hxs⟩, hgoal⟩

/-- An output of a run was emitted by one of its actions. -/
theorem outs_split {us vs : List ω} {w : ω} (h : M.outs s xs = us ++ w :: vs) :
    ∃ ys a zs pre post, xs = ys ++ a :: zs ∧ us = M.outs s ys ++ pre ∧
      M.out (M.exec s ys) a = pre ++ w :: post := by
  induction xs generalizing s us with
  | nil => simp at h
  | cons a xs ih =>
    rw [outs_cons] at h
    rcases List.append_eq_append_iff.mp h with ⟨ts, hus, hrest⟩ | ⟨ts, hout, hrest⟩
    · obtain ⟨ys, b, zs, pre, post, rfl, rfl, hb⟩ := ih hrest
      exact ⟨a :: ys, b, zs, pre, post, rfl, by simp [hus], hb⟩
    · cases ts with
      | nil =>
        obtain ⟨ys, b, zs, pre, post, rfl, hpre, hb⟩ :=
          @ih (M.next s a) [] (by simpa using hrest.symm)
        refine ⟨a :: ys, b, zs, pre, post, rfl, ?_, hb⟩
        rw [outs_cons, List.append_assoc, ← hpre, hout, List.append_nil, List.append_nil]
      | cons b ts =>
        obtain ⟨rfl, rfl⟩ := List.cons.inj hrest
        exact ⟨[], a, xs, us, ts, rfl, rfl, hout⟩

/-! ### Following one machine with another -/

variable {τ : Type u} {β : Type v} {ψ : Type w}

/-- Seen through `f` and `π`, each enabled action of `M` is a run of `N`. -/
structure Follows (M : Machine σ α ω) (N : Machine τ β ψ) (f : σ → τ) (g : σ → α → List β)
    (π : List ω → List ψ) : Prop where
  valid : ∀ s a, M.Enabled s a → N.Valid (f s) (g s a)
  next : ∀ s a, M.Enabled s a → f (M.next s a) = N.exec (f s) (g s a)
  out : ∀ s a, M.Enabled s a → π (M.out s a) = N.outs (f s) (g s a)
  nil : π [] = []
  append : ∀ us vs, π (us ++ vs) = π us ++ π vs

/-- Seen so, each run of `M` is one of `N`, with the same state and outputs at its end. -/
theorem Follows.run {N : Machine τ β ψ} {f : σ → τ} {g : σ → α → List β}
    {π : List ω → List ψ} (hF : Follows M N f g π) (h : M.Valid s xs) :
    ∃ zs, N.Valid (f s) zs ∧ f (M.exec s xs) = N.exec (f s) zs ∧
      π (M.outs s xs) = N.outs (f s) zs := by
  induction xs generalizing s with
  | nil => exact ⟨[], trivial, rfl, hF.nil⟩
  | cons a xs ih =>
    obtain ⟨zs, hv, he, ho⟩ := ih h.2
    have hn := hF.next s a h.1
    refine ⟨g s a ++ zs, ?_, ?_, ?_⟩
    · exact valid_append.mpr ⟨hF.valid s a h.1, hn ▸ hv⟩
    · rw [exec_cons, he, hn, exec_append]
    · rw [outs_cons, hF.append, hF.out s a h.1, ho, hn, outs_append]

/-- A run of `M` seen at one of its actions, which is one action of `N`. -/
theorem Follows.run_at {N : Machine τ β ψ} {f : σ → τ} {g : σ → α → List β}
    {π : List ω → List ψ} (hF : Follows M N f g π) {b : β}
    (h : M.Valid s (xs ++ a :: ys)) (hb : g (M.exec s xs) a = [b]) :
    ∃ us vs, N.Valid (f s) (us ++ b :: vs) ∧ f (M.exec s xs) = N.exec (f s) us ∧
      π (M.outs s xs) = N.outs (f s) us ∧
      π (M.outs (M.exec s xs) (a :: ys)) = N.outs (N.exec (f s) us) (b :: vs) := by
  obtain ⟨hxs, ha, hys⟩ := valid_append.mp h
  obtain ⟨us, hus, huexec, huouts⟩ := hF.run hxs
  obtain ⟨vs, hvs, -, hvouts⟩ := hF.run hys
  have hvalid := hF.valid _ _ ha
  have hnext := hF.next _ _ ha
  have hout := hF.out _ _ ha
  rw [hb, huexec] at hvalid hnext hout
  rw [hnext] at hvs hvouts
  refine ⟨us, vs, valid_append.mpr ⟨hus, hvalid.1, hvs⟩, huexec, huouts, ?_⟩
  rw [outs_cons, hF.append, hout, hvouts]
  simp

/-- Where the actions meeting a condition are seen as actions meeting another, runs of the
first are runs of the second. -/
theorem Follows.restrict {N : Machine τ β ψ} {f : σ → τ} {g : σ → α → List β}
    {π : List ω → List ψ} (hF : Follows M N f g π) {C : σ → α → Prop} {D : τ → β → Prop}
    (h : ∀ s a, M.Enabled s a → C s a → (N.restrict D).Valid (f s) (g s a)) :
    Follows (M.restrict C) (N.restrict D) f g π where
  valid := fun s a he => h s a he.1 he.2
  next := fun s a he => hF.next s a he.1
  out := fun s a he => (hF.out s a he.1).trans outs_restrict.symm
  nil := hF.nil
  append := hF.append

end Machine
