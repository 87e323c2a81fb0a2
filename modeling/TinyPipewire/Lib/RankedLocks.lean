import Mathlib.Algebra.BigOperators.Group.Finset.Basic
import Mathlib.Data.Fintype.Basic
import Mathlib.Order.WellFounded
import TinyPipewire.Lib.Machine

/-!
# Locks in an order

Threads do their operations one by one: they take and release locks, try some, and wait on some,
which releases them and takes them again. A recursive lock can be taken again by the thread that
has it. Where each thread takes its locks in the order of a rank, none waits in a circle, and
what is begun is done in as many steps as it has.
-/

universe u v w

namespace RankedLocks

/-- `join` waits for a lock without taking it. `unlockTried` releases what `tryLock` took, if it
did. `wait` lets a lock go until the thread wakes, and `wake` takes it again. -/
inductive Op (K : Type u)
  | lock (k : K)
  | join (k : K)
  | unlock (k : K)
  | tryLock (k : K)
  | unlockTried (k : K)
  | wait (k : K)
  | wake (k : K)
  deriving DecidableEq

/-- The lock that an operation has to wait for. -/
def Op.awaits {K : Type u} : Op K → Option K
  | .lock k | .join k | .wake k => some k
  | _ => none

/-- The lock that a thread may have after an operation. -/
def Op.takes {K : Type u} : Op K → Option K
  | .lock k | .tryLock k | .wake k => some k
  | _ => none

/-- The locks held after an operation; `free` tells whether the lock was free. -/
def Op.held {K : Type u} [DecidableEq K] (free : Bool) (l : List K) : Op K → List K
  | .lock k | .wake k => k :: l
  | .unlock k | .unlockTried k | .wait k => l.erase k
  | .tryLock k => if free then k :: l else l
  | .join _ => l

/-- Which lock an operation is about. -/
def Op.key {K : Type u} : Op K → K
  | .lock k | .join k | .unlock k | .tryLock k | .unlockTried k | .wait k | .wake k => k

/-- The locks of each thread, as often as it has them, and what it has still to do. -/
structure State (T : Type u) (K : Type v) where
  held : T → List K
  todo : T → List (Op K)

inductive Action (T : Type u) (K : Type v)
  /-- A thread that is idle begins. -/
  | begin (t : T) (ops : List (Op K))
  | step (t : T)

variable {T : Type u} {K : Type v} {ρ : Type w} [DecidableEq K]

def State.idle : State T K := ⟨fun _ => [], fun _ => []⟩

section Steps

variable (recursive : K → Bool)

/-- `u` having the lock `k` keeps `t` from taking it. -/
def Excludes (t u : T) (k : K) : Prop := u = t → recursive k = false

def State.Free (s : State T K) (t : T) (k : K) : Prop :=
  ∀ u, Excludes recursive t u k → k ∉ s.held u

/-- A thread has something to do and no lock to wait for. -/
def State.CanStep (s : State T K) (t : T) : Prop :=
  ∃ op ops, s.todo t = op :: ops ∧ ∀ k ∈ op.awaits, s.Free recursive t k

/-- A thread has to wait for a lock that one has. -/
def State.WaitsFor (s : State T K) (t u : T) : Prop :=
  ∃ op ops, s.todo t = op :: ops ∧ ∃ k ∈ op.awaits, Excludes recursive t u k ∧ k ∈ s.held u

variable [Fintype T] [DecidableEq T]

instance (s : State T K) (t : T) (k : K) : Decidable (s.Free recursive t k) :=
  inferInstanceAs (Decidable (∀ u, (u = t → recursive k = false) → k ∉ s.held u))

def State.next (s : State T K) : Action T K → State T K
  | .begin t ops => { s with todo := Function.update s.todo t ops }
  | .step t =>
    match s.todo t with
    | [] => s
    | op :: ops =>
      { held := Function.update s.held t (op.held (decide (s.Free recursive t op.key)) (s.held t))
        todo := Function.update s.todo t ops }

/-- The threads and their locks, where `May` says what a thread may begin. -/
def lockMachine (May : T → List (Op K) → Prop) : Machine (State T K) (Action T K) Empty where
  Enabled s
    | .begin t ops => s.todo t = [] ∧ May t ops
    | .step t => s.CanStep recursive t
  next := State.next recursive
  out _ _ := []

end Steps

/-! ### Locks taken in order -/

section Order

variable [Preorder ρ] (recursive : K → Bool) (rank : K → ρ)

/-- Every lock in `l` comes before `k`. -/
def Below (l : List K) (k : K) : Prop := ∀ j ∈ l, rank j < rank k

/-- Operations that take locks in order, from some that are held and some that were tried to
others. A recursive lock that is held for sure may be taken again. -/
inductive Orderly : List K → List K → List (Op K) → List K → List K → Prop
  | nil {l m : List K} : Orderly l m [] l m
  | lock {l m l' m' : List K} {k : K} {ops : List (Op K)}
      (h : recursive k = true ∧ k ∈ l ∨ Below rank l k ∧ Below rank m k)
      (rest : Orderly (k :: l) m ops l' m') : Orderly l m (.lock k :: ops) l' m'
  | join {l m l' m' : List K} {k : K} {ops : List (Op K)}
      (h : Below rank l k ∧ Below rank m k) (rest : Orderly l m ops l' m') :
      Orderly l m (.join k :: ops) l' m'
  | unlock {l m l' m' : List K} {k : K} {ops : List (Op K)} (h : k ∈ l)
      (rest : Orderly (l.erase k) m ops l' m') : Orderly l m (.unlock k :: ops) l' m'
  | tryLock {l m l' m' : List K} {k : K} {ops : List (Op K)} (hl : k ∉ l) (hm : k ∉ m)
      (rest : Orderly l (k :: m) ops l' m') : Orderly l m (.tryLock k :: ops) l' m'
  | unlockTried {l m l' m' : List K} {k : K} {ops : List (Op K)} (hl : k ∉ l) (hm : k ∈ m)
      (rest : Orderly l (m.erase k) ops l' m') : Orderly l m (.unlockTried k :: ops) l' m'
  | wait {l m l' m' : List K} {k : K} {ops : List (Op K)} (h : k ∈ l)
      (rest : Orderly (l.erase k) m ops l' m') : Orderly l m (.wait k :: ops) l' m'
  | wake {l m l' m' : List K} {k : K} {ops : List (Op K)}
      (h : Below rank l k ∧ Below rank m k) (rest : Orderly (k :: l) m ops l' m') :
      Orderly l m (.wake k :: ops) l' m'

variable {recursive rank} {l m l' m' l'' m'' held : List K} {k : K} {op : Op K}
  {ops ops' : List (Op K)}

theorem Orderly.append (h : Orderly recursive rank l m ops l' m')
    (h' : Orderly recursive rank l' m' ops' l'' m'') :
    Orderly recursive rank l m (ops ++ ops') l'' m'' := by
  induction h with
  | nil => exact h'
  | lock hk _ ih => exact .lock hk (ih h')
  | join hk _ ih => exact .join hk (ih h')
  | unlock hk _ ih => exact .unlock hk (ih h')
  | tryLock hl hm _ ih => exact .tryLock hl hm (ih h')
  | unlockTried hl hm _ ih => exact .unlockTried hl hm (ih h')
  | wait hk _ ih => exact .wait hk (ih h')
  | wake hk _ ih => exact .wake hk (ih h')

/-- One after the other, each leaving the locks as they were. -/
theorem Orderly.flatMap {ι : Type*} {f : ι → List (Op K)} {is : List ι}
    (h : ∀ i ∈ is, Orderly recursive rank l m (f i) l m) :
    Orderly recursive rank l m (is.flatMap f) l m := by
  induction is with
  | nil => exact .nil
  | cons i is ih => exact (h i (by simp)).append (ih fun j hj => h j (by simp [hj]))

/-- A lock taken around what leaves the locks as they were. -/
theorem Orderly.locked (h : recursive k = true ∧ k ∈ l ∨ Below rank l k ∧ Below rank m k)
    (hops : Orderly recursive rank (k :: l) m ops (k :: l) m) :
    Orderly recursive rank l m (.lock k :: (ops ++ [.unlock k])) l m := by
  refine .lock h (hops.append (.unlock List.mem_cons_self ?_))
  rw [List.erase_cons_head]
  exact .nil

/-- What a thread has is what is held for sure, and of what was tried at most so much. -/
structure Has (l m held : List K) : Prop where
  sure : ∀ k, l.count k ≤ held.count k
  most : ∀ k, held.count k ≤ l.count k + m.count k

theorem Has.mem (h : Has l m held) (hk : k ∈ held) : k ∈ l ∨ k ∈ m := by
  have hpos := List.count_pos_iff.mpr hk
  have hmost := h.most k
  rcases Nat.eq_zero_or_pos (l.count k) with hl | hl
  · exact Or.inr (List.count_pos_iff.mp (by omega))
  · exact Or.inl (List.count_pos_iff.mp hl)

theorem Has.of_mem (h : Has l m held) (hk : k ∈ l) : k ∈ held :=
  List.count_pos_iff.mp (Nat.lt_of_lt_of_le (List.count_pos_iff.mpr hk) (h.sure k))

theorem Has.nothing (h : Has ([] : List K) [] held) : held = [] := by
  apply List.eq_nil_iff_forall_not_mem.mpr
  intro k hk
  rcases h.mem hk with hk | hk <;> simp at hk

/-- One operation: what is left to do is in order, from the locks it leaves. -/
theorem Orderly.step (free : Bool) (h : Orderly recursive rank l m (op :: ops) l' m')
    (hhas : Has l m held) :
    ∃ l₁ m₁, Orderly recursive rank l₁ m₁ ops l' m' ∧ Has l₁ m₁ (op.held free held) := by
  cases h with
  | lock _ rest | wake _ rest =>
    refine ⟨_, _, rest, fun j => ?_, fun j => ?_⟩
    · have := hhas.sure j
      simp only [Op.held, List.count_cons]
      omega
    · have := hhas.most j
      simp only [Op.held, List.count_cons]
      omega
  | join _ rest => exact ⟨_, _, rest, hhas⟩
  | @unlock _ _ _ _ k _ hk rest | @wait _ _ _ _ k _ hk rest =>
    refine ⟨_, _, rest, fun j => ?_, fun j => ?_⟩
    · have := hhas.sure j
      simp only [Op.held, List.count_erase]
      omega
    · have hmost := hhas.most j
      have hsure := hhas.sure j
      have hpos : k = j → 0 < l.count j := by
        rintro rfl
        exact List.count_pos_iff.mpr hk
      simp only [Op.held, List.count_erase]
      split
      · rename_i hj
        have := hpos (by simpa using hj)
        omega
      · omega
  | @tryLock _ _ _ _ k _ hl hm rest =>
    refine ⟨_, _, rest, fun j => ?_, fun j => ?_⟩
    · have := hhas.sure j
      cases free <;> simp [Op.held, List.count_cons] <;> omega
    · have := hhas.most j
      cases free <;> simp [Op.held, List.count_cons] <;> omega
  | @unlockTried _ _ _ _ k _ hl hm rest =>
    refine ⟨_, _, rest, fun j => ?_, fun j => ?_⟩
    · have hsure := hhas.sure j
      have hzero : k = j → l.count j = 0 := by
        rintro rfl
        exact List.count_eq_zero.mpr hl
      simp only [Op.held, List.count_erase]
      split
      · rename_i hj
        have := hzero (by simpa using hj)
        omega
      · omega
    · have hmost := hhas.most j
      have hpos : k = j → 0 < m.count j := by
        rintro rfl
        exact List.count_pos_iff.mpr hm
      simp only [Op.held, List.count_erase]
      split
      · rename_i hj
        have := hpos (by simpa using hj)
        omega
      · omega

end Order

/-! ### What holds of every state -/

section Invariant

variable [Preorder ρ] {recursive : K → Bool} {rank : K → ρ} {s : State T K} {t u : T} {j k : K}
  {op : Op K} {ops : List (Op K)}

variable (recursive rank) in
/-- No lock is held twice, and every thread takes its locks in order. -/
structure State.Inv (s : State T K) : Prop where
  once : ∀ t u k, k ∈ s.held t → k ∈ s.held u → t = u
  orderly : ∀ t, ∃ l m, Orderly recursive rank l m (s.todo t) [] [] ∧ Has l m (s.held t)

theorem inv_idle : (State.idle : State T K).Inv recursive rank := by
  refine ⟨?_, ?_⟩
  · intro t u k hk
    exact absurd hk List.not_mem_nil
  · intro t
    exact ⟨[], [], .nil, ⟨fun _ => le_rfl, fun _ => Nat.zero_le _⟩⟩

theorem State.Inv.idle_held (hi : s.Inv recursive rank) (h : s.todo t = []) : s.held t = [] := by
  obtain ⟨l, m, ho, hhas⟩ := hi.orderly t
  rw [h] at ho
  cases ho
  exact hhas.nothing

/-- A thread that has to wait for a lock has only locks that come before it. -/
theorem State.Inv.waits_below (hi : s.Inv recursive rank) (htodo : s.todo t = op :: ops)
    (hk : op.awaits = some k) (hu : Excludes recursive t u k) (hheld : k ∈ s.held u)
    (hj : j ∈ s.held t) : rank j < rank k := by
  obtain ⟨l, m, ho, hhas⟩ := hi.orderly t
  rw [htodo] at ho
  have hbelow : Below rank l k ∧ Below rank m k := by
    cases ho with
    | lock h _ =>
      obtain rfl := Option.some.inj hk
      rcases h with ⟨hagain, h⟩ | h
      · rw [hu (hi.once u t _ hheld (hhas.of_mem h))] at hagain
        cases hagain
      · exact h
    | join h _ | wake h _ =>
      obtain rfl := Option.some.inj hk
      exact h
    | unlock | tryLock | unlockTried | wait => cases hk
  rcases hhas.mem hj with hj | hj
  · exact hbelow.1 j hj
  · exact hbelow.2 j hj

/-- A thread that wakes has let its lock go, however often it had it. -/
theorem State.Inv.wake_below (hi : s.Inv recursive rank) (htodo : s.todo t = .wake k :: ops)
    (hj : j ∈ s.held t) : rank j < rank k := by
  obtain ⟨l, m, ho, hhas⟩ := hi.orderly t
  rw [htodo] at ho
  cases ho with
  | wake h _ =>
    rcases hhas.mem hj with hj | hj
    · exact h.1 j hj
    · exact h.2 j hj

omit [DecidableEq K] in
theorem canStep_or_waits (h : s.todo t = op :: ops) : s.CanStep recursive t ∨
    ∃ u k, Excludes recursive t u k ∧ op.awaits = some k ∧ k ∈ s.held u := by
  by_cases hfree : ∀ k ∈ op.awaits, s.Free recursive t k
  · exact Or.inl ⟨op, ops, h, hfree⟩
  · obtain ⟨k, hk⟩ := not_forall.mp hfree
    obtain ⟨hawaits, hnot⟩ := Classical.not_imp.mp hk
    obtain ⟨u, hu⟩ := not_forall.mp hnot
    obtain ⟨hne, hheld⟩ := Classical.not_imp.mp hu
    exact Or.inr ⟨u, k, hne, hawaits, not_not.mp hheld⟩

/-- Waiting leads to a thread that can go on: along it the locks waited for come later and
later. -/
theorem State.Inv.exists_canStep [WellFoundedGT ρ] (hi : s.Inv recursive rank) (h : s.todo t ≠ []) :
    ∃ u, Relation.ReflTransGen (s.WaitsFor recursive) t u ∧ s.CanStep recursive u := by
  have hwaits : ∀ r : ρ, ∀ t u k op ops, s.todo t = op :: ops → op.awaits = some k → rank k = r →
      Excludes recursive t u k → k ∈ s.held u →
        ∃ v, Relation.ReflTransGen (s.WaitsFor recursive) t v ∧ s.CanStep recursive v := by
    intro r
    induction r using WellFoundedGT.induction with
    | ind r ih =>
      rintro t u k op ops htodo hawaits rfl hu hheld
      have hedge : s.WaitsFor recursive t u := ⟨op, ops, htodo, k, hawaits, hu, hheld⟩
      cases hnext : s.todo u with
      | nil =>
        rw [hi.idle_held hnext] at hheld
        exact absurd hheld List.not_mem_nil
      | cons op' ops' =>
        rcases canStep_or_waits hnext with hstep | ⟨v, k', hv, hawaits', hheld'⟩
        · exact ⟨u, .single hedge, hstep⟩
        · have hlater := hi.waits_below hnext hawaits' hv hheld' hheld
          obtain ⟨w, hpath, hstep⟩ := ih _ hlater u v k' op' ops' hnext hawaits' rfl hv hheld'
          exact ⟨w, .head hedge hpath, hstep⟩
  cases htodo : s.todo t with
  | nil => exact absurd htodo h
  | cons op ops =>
    rcases canStep_or_waits htodo with hstep | ⟨u, k, hu, hawaits, hheld⟩
    · exact ⟨t, .refl, hstep⟩
    · exact hwaits _ t u k op ops htodo hawaits rfl hu hheld

end Invariant

/-! ### Runs -/

section Runs

variable [Fintype T] [DecidableEq T] [Preorder ρ] {recursive : K → Bool} {rank : K → ρ}
  {May : T → List (Op K) → Prop} {s : State T K} {t u : T} {k : K} {a : Action T K}
  {op : Op K} {ops : List (Op K)}

/-- What a thread has after an operation is what it had, or the lock that it found free. -/
theorem mem_held {free : Bool} {l : List K} (h : k ∈ op.held free l) :
    k ∈ l ∨ op.takes = some k ∧ k = op.key ∧ (op.awaits = some k ∨ free = true) := by
  cases op with
  | lock j | wake j =>
    rcases List.mem_cons.mp h with rfl | h
    · exact Or.inr ⟨rfl, rfl, Or.inl rfl⟩
    · exact Or.inl h
  | join j => exact Or.inl h
  | unlock j | unlockTried j | wait j => exact Or.inl (List.mem_of_mem_erase h)
  | tryLock j =>
    cases free with
    | false => exact Or.inl h
    | true =>
      rcases List.mem_cons.mp h with rfl | h
      · exact Or.inr ⟨rfl, rfl, Or.inr rfl⟩
      · exact Or.inl h

theorem next_step (h : s.todo t = op :: ops) : s.next recursive (.step t) =
    { held := Function.update s.held t (op.held (decide (s.Free recursive t op.key)) (s.held t))
      todo := Function.update s.todo t ops } := by
  simp only [State.next, h]

theorem todo_step (h : s.todo t = op :: ops) :
    (s.next recursive (.step t)).todo = Function.update s.todo t ops := by
  rw [next_step h]

theorem once_step (hi : s.Inv recursive rank) (h : s.CanStep recursive t)
    (hk : k ∈ (s.next recursive (.step t)).held t)
    (hu : u ≠ t) : k ∉ s.held u := by
  obtain ⟨op, ops, htodo, hfree⟩ := h
  rw [next_step htodo] at hk
  simp only [Function.update_self] at hk
  rcases mem_held hk with hheld | ⟨-, rfl, hawaits | hwas⟩
  · intro hku
    exact hu (hi.once u t k hku hheld)
  · exact hfree _ hawaits u fun heq => absurd heq hu
  · exact of_decide_eq_true hwas u fun heq => absurd heq hu

theorem inv_next (hmay : ∀ t ops, May t ops → Orderly recursive rank [] [] ops [] [])
    (he : (lockMachine recursive May).Enabled s a) (hi : s.Inv recursive rank) :
    (s.next recursive a).Inv recursive rank := by
  cases a with
  | begin t ops =>
    refine ⟨hi.once, fun u => ?_⟩
    by_cases hu : u = t
    · subst hu
      refine ⟨[], [], ?_, ?_⟩
      · simpa [State.next] using hmay u ops he.2
      · rw [show (s.next recursive (.begin u ops)).held u = [] from hi.idle_held he.1]
        exact ⟨fun _ => le_rfl, fun _ => Nat.zero_le _⟩
    · simpa [State.next, hu] using hi.orderly u
  | step t =>
    obtain ⟨op, ops, htodo, -⟩ := id he
    have hother : ∀ u, u ≠ t → (s.next recursive (.step t)).held u = s.held u ∧
        (s.next recursive (.step t)).todo u = s.todo u := by
      intro u hu
      simp [next_step htodo, hu]
    refine ⟨fun u v k hku hkv => ?_, fun u => ?_⟩
    · by_cases hu : u = t
      · by_cases hv : v = t
        · rw [hu, hv]
        · subst hu
          rw [(hother v hv).1] at hkv
          exact absurd hkv (once_step hi he hku hv)
      · rw [(hother u hu).1] at hku
        by_cases hv : v = t
        · subst hv
          exact absurd hku (once_step hi he hkv hu)
        · rw [(hother v hv).1] at hkv
          exact hi.once u v k hku hkv
    · by_cases hu : u = t
      · subst hu
        obtain ⟨l, m, ho, hhas⟩ := hi.orderly u
        rw [htodo] at ho
        obtain ⟨l₁, m₁, ho₁, hhas₁⟩ := ho.step (decide (s.Free recursive u op.key)) hhas
        exact ⟨l₁, m₁, by simpa [next_step htodo] using ho₁, by simpa [next_step htodo] using hhas₁⟩
      · rw [(hother u hu).1, (hother u hu).2]
        exact hi.orderly u

theorem inv_run (hmay : ∀ t ops, May t ops → Orderly recursive rank [] [] ops [] [])
    {xs : List (Action T K)} (h : (lockMachine recursive May).Valid .idle xs) :
    ((lockMachine recursive May).exec .idle xs).Inv recursive rank :=
  Machine.invariant inv_idle (fun _ _ he hi => inv_next hmay he hi) h

/-- What a thread has to do is the rest of something that it may begin, and what it has it took
so. -/
theorem todo_run {P : T → Op K → Prop} (hmay : ∀ t ops, May t ops → ∀ op ∈ ops, P t op)
    {xs : List (Action T K)} (h : (lockMachine recursive May).Valid .idle xs) (t : T) :
    (∀ op ∈ ((lockMachine recursive May).exec .idle xs).todo t, P t op) ∧
      ∀ k ∈ ((lockMachine recursive May).exec .idle xs).held t,
        ∃ op, P t op ∧ op.takes = some k := by
  refine Machine.invariant (I := fun s : State T K => ∀ t, (∀ op ∈ s.todo t, P t op) ∧
    ∀ k ∈ s.held t, ∃ op, P t op ∧ op.takes = some k) ?_ ?_ h t
  · exact fun _ =>
      ⟨fun _ hop => absurd hop List.not_mem_nil, fun _ hk => absurd hk List.not_mem_nil⟩
  intro s a he hall u
  cases a with
  | begin t ops =>
    refine ⟨fun op hop => ?_, (hall u).2⟩
    by_cases hu : u = t
    · subst hu
      exact hmay u ops he.2 op (by simpa [lockMachine, State.next] using hop)
    · exact (hall u).1 op (by simpa [lockMachine, State.next, hu] using hop)
  | step t =>
    obtain ⟨op', ops, htodo, -⟩ := id he
    have hnext : (lockMachine recursive May).next s (.step t) = _ := next_step htodo
    rw [hnext]
    by_cases hu : u = t
    · subst hu
      simp only [Function.update_self]
      have hops := (hall u).1
      rw [htodo] at hops
      refine ⟨fun op hop => hops op (List.mem_cons_of_mem _ hop), fun k hk => ?_⟩
      rcases mem_held hk with hk | ⟨htakes, -⟩
      · exact (hall u).2 k hk
      · exact ⟨op', hops op' List.mem_cons_self, htakes⟩
    · simp only [Function.update_of_ne hu]
      exact hall u

/-- How many steps there are to do. -/
def State.total (s : State T K) : ℕ := ∑ t, (s.todo t).length

theorem total_step (h : s.CanStep recursive t) :
    (s.next recursive (.step t)).total + 1 = s.total := by
  obtain ⟨op, ops, htodo, -⟩ := h
  rw [State.total, State.total, todo_step htodo, ← Finset.add_sum_erase _ _ (Finset.mem_univ t),
    ← Finset.add_sum_erase _ (fun u => (s.todo u).length) (Finset.mem_univ t), htodo]
  have hothers : ∑ u ∈ Finset.univ.erase t, (Function.update s.todo t ops u).length =
      ∑ u ∈ Finset.univ.erase t, (s.todo u).length :=
    Finset.sum_congr rfl fun u hu => by
      rw [Function.update_of_ne (Finset.ne_of_mem_erase hu)]
  rw [Function.update_self, hothers, List.length_cons]
  omega

/-- Where nothing is begun every step is one less to do. -/
theorem total_steps {ts : List T} (h : (lockMachine recursive May).Valid s (ts.map .step)) :
    ((lockMachine recursive May).exec s (ts.map .step)).total + ts.length = s.total := by
  induction ts generalizing s with
  | nil => rfl
  | cons t ts ih =>
    obtain ⟨he, hrest⟩ := h
    have hone : ((lockMachine recursive May).next s (.step t)).total + 1 = s.total := total_step he
    have htail := ih hrest
    rw [List.map_cons, Machine.exec_cons, List.length_cons]
    omega

end Runs

end RankedLocks
