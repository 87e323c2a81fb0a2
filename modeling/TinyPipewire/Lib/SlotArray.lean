import TinyPipewire.Lib.HeapLedger
import TinyPipewire.Lib.SwapRemove

/-!
# Growable arrays of slots that own blocks

An array in a heap block with the number of slots in use and of those there are, as a C program
keeps it, whose slots own further blocks. It shows a list of entries: new ones come behind the
last, and one that goes is overwritten with the last. A cell that was never written holds nothing.
-/

universe u v w

/-- A pointer to an array, how many slots are in use, and how many there are. -/
structure SlotArray where
  base : Option Loc
  length : ℕ
  capacity : ℕ
  deriving DecidableEq

/-- How blocks hold cells, what slots own, and what they show. -/
structure SlotKind (β : Type u) (σ : Type v) (α : Type w) where
  pack : List (Option σ) → β
  unpack : β → List (Option σ)
  unpack_pack : ∀ cs, unpack (pack cs) = cs
  refs : σ → List Loc
  Shows : Heap β → σ → α → Prop
  shows_congr : ∀ {h h' : Heap β} {s : σ} {e : α}, (∀ l ∈ refs s, h' l = h l) → Shows h s e →
    Shows h' s e

namespace SlotArray

open Ledger (Entry)
open Heap (Handover)

variable {β : Type u} {σ : Type v} {α : Type w} (K : SlotKind β σ α) (h : Heap β) (a : SlotArray)

/-- No array yet. -/
def empty : SlotArray := ⟨none, 0, 0⟩

/-- All the cells there are. -/
def cells : List (Option σ) := ((h.load a.base).map K.unpack).getD []

/-- The slots in use. -/
def slots : List σ := ((a.cells K h).take a.length).filterMap id

/-- The blocks the array owns. -/
def own : List Loc := a.base.toList ++ (a.slots K h).flatMap K.refs

/-- The contents once there are `capacity` cells; the new ones are not written. -/
def grown (capacity : ℕ) : β :=
  K.pack (a.cells K h ++ List.replicate (capacity - a.capacity) none)

/-- Room for one more slot: a full array is reallocated to twice as many cells, and the first time
to `first` of them. -/
def reserve (first : ℕ) (answer : Option Loc) : Option (Heap β × SlotArray × List (Entry Loc)) :=
  if a.length = a.capacity then
    let capacity := if a.capacity = 0 then first else a.capacity * 2
    (h.regrow a.base answer (a.grown K h capacity)).map fun (h', l) =>
      (h', { a with base := some l, capacity := capacity },
        a.base.toList.map .gave ++ [.took l])
  else some (h, a, [])

/-- The heap after one cell is written. -/
def poke (i : ℕ) (c : Option σ) : Heap β :=
  match a.base with
  | none => h
  | some l => h.store l (K.pack ((a.cells K h).set i c))

/-- The cell behind the last slot is written, and counted. -/
def push (s : σ) : Heap β × SlotArray :=
  (a.poke K h a.length (some s), { a with length := a.length + 1 })

/-- A slot is overwritten with the last, which is no longer counted. -/
def dropAt (i : ℕ) : Heap β × SlotArray :=
  (a.poke K h i ((a.cells K h).getD (a.length - 1) none), { a with length := a.length - 1 })

/-- The first slot that satisfies `p` goes, and what it owns is freed. -/
def remove (p : σ → Bool) : Heap β × SlotArray × List (Entry Loc) :=
  match (a.slots K h).findIdx? p with
  | none => (h, a, [])
  | some i =>
    let gone := ((a.slots K h)[i]?.map K.refs).getD []
    let (h', a') := a.dropAt K (h.freeAll gone) i
    (h', a', gone.map .gave)

/-- Everything is freed. -/
def clear : Heap β × SlotArray × List (Entry Loc) :=
  let gone := (a.slots K h).flatMap K.refs ++ a.base.toList
  (h.freeAll gone, empty, gone.map .gave)

/-- The first slot that satisfies a test. Reading a cell that was not written is an error, and so
may the test be. -/
def search (test : σ → Option Bool) : List (Option σ) → Option (Option σ)
  | [] => some none
  | c :: cs => c.bind fun s => (test s).bind fun found =>
    if found then some (some s) else search test cs

/-- All slots one after another; reading a cell that was not written is an error. -/
def fold {γ : Type w} (step : γ → σ → γ) (x : γ) : List (Option σ) → Option γ
  | [] => some x
  | c :: cs => c.bind fun s => fold step (step x s) cs

/-- The array holds these slots, and then cells that are not in use. -/
structure Holds (ss : List σ) (spare : List (Option σ)) : Prop where
  length : a.length = ss.length
  capacity : a.capacity = ss.length + spare.length
  block : h.load a.base = some (K.pack (ss.map some ++ spare)) ∨
    a.base = none ∧ ss = [] ∧ spare = []

/-- The array shows these entries, in order. -/
def Represents (es : List α) : Prop :=
  ∃ ss spare, a.Holds K h ss spare ∧ List.Forall₂ (K.Shows h) ss es

variable {K h a} {h' : Heap β} {ss : List σ} {spare : List (Option σ)} {es : List α} {s : σ}
  {e : α} {l : Loc} {i : ℕ} {c : Option σ}

namespace Holds

theorem cells (ha : a.Holds K h ss spare) : a.cells K h = ss.map some ++ spare := by
  unfold SlotArray.cells
  rcases ha.block with hb | ⟨hb, rfl, rfl⟩
  · simp [hb, K.unpack_pack]
  · simp [hb]

theorem slots (ha : a.Holds K h ss spare) : a.slots K h = ss := by
  have htake : (ss.map some ++ spare).take ss.length = ss.map some := by
    rw [← List.length_map (f := some), List.take_left]
  unfold SlotArray.slots
  rw [ha.cells, ha.length, htake]
  simp

theorem own (ha : a.Holds K h ss spare) : a.own K h = a.base.toList ++ ss.flatMap K.refs := by
  unfold SlotArray.own
  rw [ha.slots]

/-- Where its block is as it was, the array holds what it held. -/
theorem congr (ha : a.Holds K h ss spare) (hb : ∀ l, a.base = some l → h' l = h l) :
    a.Holds K h' ss spare := by
  refine ⟨ha.length, ha.capacity, ?_⟩
  rcases ha.block with hblock | hblock
  · cases hbase : a.base with
    | none => simp [hbase] at hblock
    | some l =>
      rw [hbase, Heap.load_some] at hblock
      rw [Heap.load_some, hb l hbase]
      exact Or.inl hblock
  · exact Or.inr hblock

/-- An array with a cell has a block. -/
theorem base (ha : a.Holds K h ss spare) (hpos : 0 < a.capacity) : ∃ l, a.base = some l := by
  rcases ha.block with hb | ⟨-, rfl, rfl⟩
  · cases hbase : a.base with
    | none => simp [hbase] at hb
    | some l => exact ⟨l, rfl⟩
  · have hcap := ha.capacity
    simp at hcap
    omega

theorem poke (ha : a.Holds K h ss spare) {ss' : List σ} {spare' : List (Option σ)}
    {n : ℕ} (hbase : a.base = some l)
    (hcells : (ss.map some ++ spare).set i c = ss'.map some ++ spare')
    (hlen : n = ss'.length) :
    ({ a with length := n } : SlotArray).Holds K (a.poke K h i c) ss' spare' := by
  constructor
  · exact hlen
  · have hsame := congrArg List.length hcells
    have hcap := ha.capacity
    simp only [List.length_set, List.length_append, List.length_map] at hsame
    dsimp only
    omega
  · left
    unfold SlotArray.poke
    simp [hbase, ha.cells, hcells]

end Holds

theorem shows_congr (hs : List.Forall₂ (K.Shows h) ss es)
    (hk : ∀ l ∈ ss.flatMap K.refs, h' l = h l) : List.Forall₂ (K.Shows h') ss es := by
  induction hs with
  | nil => exact .nil
  | cons hse hrest ih =>
    rename_i s e ss es
    rw [List.flatMap_cons] at hk
    refine .cons (K.shows_congr (fun l hl => hk l (List.mem_append_left _ hl)) hse) ?_
    exact ih fun l hl => hk l (List.mem_append_right _ hl)

/-- The blocks of another owner may change. -/
theorem Represents.congr (hr : a.Represents K h es) (hk : ∀ l ∈ a.own K h, h' l = h l) :
    a.Represents K h' es ∧ a.own K h' = a.own K h := by
  obtain ⟨ss, spare, ha, hs⟩ := hr
  rw [ha.own] at hk
  have ha' : a.Holds K h' ss spare := by
    apply ha.congr
    intro l hl
    exact hk l (by simp [hl])
  refine ⟨⟨ss, spare, ha', shows_congr hs ?_⟩, by rw [ha'.own, ha.own]⟩
  intro l hl
  exact hk l (List.mem_append_right _ hl)

theorem represents_empty (K : SlotKind β σ α) (h : Heap β) : empty.Represents K h [] :=
  ⟨[], [], ⟨rfl, rfl, Or.inr ⟨rfl, rfl, rfl⟩⟩, .nil⟩

/-- `realloc` to more cells. -/
theorem Represents.regrow (hr : a.Represents K h es) (ho : h.Owns (a.own K h))
    (hm : h.Movable a.base l) {n : ℕ} (hn : a.capacity ≤ n) :
    let h' := h.move a.base l (a.grown K h n)
    let a' : SlotArray := { a with base := some l, capacity := n }
    a'.Represents K h' es ∧
      Handover h (a.own K h) (a.base.toList.map .gave ++ [.took l]) h' (a'.own K h') := by
  intro h' a'
  obtain ⟨ss, spare, ha, hs⟩ := hr
  rw [ha.own] at ho ⊢
  have hand : Handover h (a.base.toList ++ ss.flatMap K.refs)
      (a.base.toList.map .gave ++ [.took l]) h' (l :: ss.flatMap K.refs) := .move ho hm
  have ha' : a'.Holds K h' ss (spare ++ List.replicate (n - a.capacity) none) := by
    refine ⟨ha.length, ?_, Or.inl ?_⟩
    · have hcap := ha.capacity
      simp only [List.length_append, List.length_replicate, a']
      omega
    · simp [a', h', grown, ha.cells]
  obtain ⟨-, -, hapart⟩ := List.nodup_append.mp ho.nodup
  obtain ⟨hnew, -⟩ := List.nodup_cons.mp hand.transfer.owns.nodup
  rw [ha'.own]
  refine ⟨⟨ss, _, ha', shows_congr hs ?_⟩, hand⟩
  intro k hk
  have hkl : k ≠ l := fun he => hnew (he ▸ hk)
  have hold : k ∉ a.base.toList := fun hb => hapart k hb k hk rfl
  exact (Heap.store_of_ne hkl).trans (Heap.freeAll_of_notMem hold)

/-- The allocation fails, or there is room then. -/
theorem Represents.reserve_cases (hr : a.Represents K h es) (ho : h.Owns (a.own K h)) {first : ℕ}
    (hfirst : 0 < first) (answer : Option Loc) :
    (a.length = a.capacity ∧ a.reserve K h first answer = none) ∨
      ∃ h' a' booked, a.reserve K h first answer = some (h', a', booked) ∧
        a'.Represents K h' es ∧ Handover h (a.own K h) booked h' (a'.own K h') ∧
        a'.length = a.length ∧ a'.length < a'.capacity ∧
        a'.capacity = if a.length = a.capacity then
          (if a.capacity = 0 then first else a.capacity * 2) else a.capacity := by
  unfold reserve
  by_cases hfull : a.length = a.capacity
  · simp only [if_pos hfull]
    set n := if a.capacity = 0 then first else a.capacity * 2 with hn
    have hmore : a.capacity < n := by
      rw [hn]
      split <;> omega
    rcases Heap.regrow_cases h a.base answer (a.grown K h n) with hg | ⟨l, hm, hg⟩
    · exact Or.inl ⟨hfull, by rw [hg]; rfl⟩
    · right
      obtain ⟨hr', hand⟩ := hr.regrow ho hm (Nat.le_of_lt hmore)
      refine ⟨h.move a.base l (a.grown K h n), { a with base := some l, capacity := n },
        a.base.toList.map .gave ++ [.took l], by rw [hg]; rfl, hr', hand, rfl, ?_, rfl⟩
      show a.length < n
      omega
  · right
    have hle : a.length ≤ a.capacity := by
      obtain ⟨ss, spare, ha, -⟩ := hr
      have hlen := ha.length
      have hcap := ha.capacity
      omega
    simp only [if_neg hfull]
    exact ⟨h, a, [], rfl, hr, .refl ho, rfl, by omega, rfl⟩

/-- Room behind the last slot. -/
theorem Holds.spare_cons (ha : a.Holds K h ss spare) (hroom : a.length < a.capacity) :
    ∃ c rest, spare = c :: rest ∧ ∃ l, a.base = some l := by
  have hlen := ha.length
  have hcap := ha.capacity
  cases spare with
  | nil =>
    rw [List.length_nil] at hcap
    omega
  | cons c rest => exact ⟨c, rest, rfl, ha.base (by omega)⟩

/-- What the cell behind the last slot holds does not matter. -/
theorem Represents.poke_spare (hr : a.Represents K h es) (ho : h.Owns (a.own K h))
    (hroom : a.length < a.capacity) :
    a.Represents K (a.poke K h a.length c) es ∧
      Handover h (a.own K h) [] (a.poke K h a.length c) (a.own K (a.poke K h a.length c)) := by
  obtain ⟨ss, spare, ha, hs⟩ := hr
  obtain ⟨c0, rest, rfl, l, hbase⟩ := ha.spare_cons hroom
  have ha' : a.Holds K (a.poke K h a.length c) ss (c :: rest) := by
    apply ha.poke hbase
    · rw [ha.length]
      simp
    · exact ha.length
  have hstore : a.poke K h a.length c = h.store l (K.pack ((a.cells K h).set a.length c)) := by
    simp [poke, hbase]
  rw [ha'.own]
  rw [ha.own] at ho ⊢
  have hl : l ∈ a.base.toList ++ ss.flatMap K.refs := by simp [hbase]
  refine ⟨⟨ss, _, ha', shows_congr hs ?_⟩, ?_⟩
  · obtain ⟨-, -, hapart⟩ := List.nodup_append.mp ho.nodup
    intro k hk
    rw [hstore]
    exact Heap.store_of_ne fun he => hapart l (by simp [hbase]) k hk he.symm
  · rw [hstore]
    exact .write ho hl

/-- A new slot behind the last shows a new entry behind the others. -/
theorem Represents.push (hr : a.Represents K h es) (ho : h.Owns (a.own K h ++ K.refs s))
    (hroom : a.length < a.capacity) (hse : K.Shows h s e) :
    (a.push K h s).2.Represents K (a.push K h s).1 (es ++ [e]) ∧
      Handover h (a.own K h ++ K.refs s) [] (a.push K h s).1
        ((a.push K h s).2.own K (a.push K h s).1) := by
  obtain ⟨ss, spare, ha, hs⟩ := hr
  obtain ⟨c0, rest, rfl, l, hbase⟩ := ha.spare_cons hroom
  have ha' : (a.push K h s).2.Holds K (a.push K h s).1 (ss ++ [s]) rest := by
    apply ha.poke hbase
    · rw [ha.length]
      simp
    · simp [ha.length]
  have hstore : (a.push K h s).1 =
      h.store l (K.pack ((a.cells K h).set a.length (some s))) := by
    simp [SlotArray.push, SlotArray.poke, hbase]
  have hown : a.own K h ++ K.refs s = a.base.toList ++ (ss ++ [s]).flatMap K.refs := by
    rw [ha.own]
    simp
  have hown' : (a.push K h s).2.own K (a.push K h s).1 =
      a.base.toList ++ (ss ++ [s]).flatMap K.refs := ha'.own
  rw [hown']
  rw [hown] at ho ⊢
  refine ⟨⟨_, _, ha', shows_congr (List.rel_append hs (.cons hse .nil)) ?_⟩, ?_⟩
  · obtain ⟨-, -, hapart⟩ := List.nodup_append.mp ho.nodup
    intro k hk
    rw [hstore]
    exact Heap.store_of_ne fun he => hapart l (by simp [hbase]) k hk he.symm
  · rw [hstore]
    exact .write ho (by simp [hbase])

/-- Nothing is left of it. -/
theorem represents_clear (ho : h.Owns (a.own K h)) :
    (a.clear K h).2.1.Represents K (a.clear K h).1 [] ∧
      Handover h (a.own K h) (a.clear K h).2.2 (a.clear K h).1
        ((a.clear K h).2.1.own K (a.clear K h).1) := by
  refine ⟨represents_empty K _, ?_⟩
  have hgone : (a.own K h).Perm ((a.slots K h).flatMap K.refs ++ a.base.toList) :=
    List.perm_append_comm
  have howns : h.Owns (((a.slots K h).flatMap K.refs ++ a.base.toList) ++ []) := by
    simpa using ho.perm hgone
  have hfree := Handover.free howns
  rw [List.append_nil] at hfree
  exact hfree.perm_left hgone.symm

/-- Of the slots in use every one was written: the search finds what the entries have. -/
theorem Represents.search {q : α → Bool} {test : σ → Option Bool} (hr : a.Represents K h es)
    (hq : ∀ s e, K.Shows h s e → test s = some (q e)) :
    ∃ found, search test ((a.cells K h).take a.length) = some found ∧
      Option.Rel (K.Shows h) found (es.find? q) := by
  obtain ⟨ss, spare, ha, hs⟩ := hr
  have htake : (ss.map some ++ spare).take ss.length = ss.map some := by
    rw [← List.length_map (f := some), List.take_left]
  rw [ha.cells, ha.length, htake]
  clear ha htake
  induction hs with
  | nil => exact ⟨none, rfl, .none⟩
  | cons hse hrest ih =>
    rename_i s e ss es
    have htest := hq s e hse
    rw [List.find?_cons]
    cases hqe : q e with
    | true =>
      refine ⟨some s, ?_, .some hse⟩
      simp [SlotArray.search, htest, hqe]
    | false =>
      obtain ⟨found, hfound, hrel⟩ := ih
      refine ⟨found, ?_, hrel⟩
      simpa [SlotArray.search, htest, hqe] using hfound

/-- So does a fold, to something that is to the entries as it was. -/
theorem Represents.fold {γ δ : Type w} {Rel : γ → δ → Prop} {step : γ → σ → γ} {step' : δ → α → δ}
    {x : γ} {y : δ} (hr : a.Represents K h es)
    (hstep : ∀ x y s e, Rel x y → K.Shows h s e → Rel (step x s) (step' y e)) (hxy : Rel x y) :
    ∃ z, SlotArray.fold step x ((a.cells K h).take a.length) = some z ∧
      Rel z (es.foldl step' y) := by
  obtain ⟨ss, spare, ha, hs⟩ := hr
  have htake : (ss.map some ++ spare).take ss.length = ss.map some := by
    rw [← List.length_map (f := some), List.take_left]
  rw [ha.cells, ha.length, htake]
  clear ha htake
  induction hs generalizing x y with
  | nil => exact ⟨x, rfl, hxy⟩
  | cons hse _ ih => exact ih (hstep _ _ _ _ hxy hse)

theorem Represents.length_eq (hr : a.Represents K h es) : a.length = es.length := by
  obtain ⟨ss, spare, ha, hs⟩ := hr
  rw [ha.length, hs.length_eq]

/-- A block that is taken, or not, beside the array and other blocks. -/
theorem Represents.giveSome (hr : a.Represents K h es) (ks : List Loc)
    (ho : h.Owns (a.own K h ++ ks)) (p : Option Loc) (x : Option β) :
    let d := h.giveSome p x
    a.Represents K d.1 es ∧ a.own K d.1 = a.own K h ∧
      Handover h (a.own K h ++ ks) (d.2.toList.map .took) d.1
        (a.own K d.1 ++ (ks ++ d.2.toList)) := by
  intro d
  have hkeeps : ∀ l ∈ a.own K h, d.1 l = h l := by
    intro l hl
    exact Heap.giveSome_keeps (ho.live l (List.mem_append_left ks hl))
  obtain ⟨hr', hown⟩ := hr.congr hkeeps
  refine ⟨hr', hown, ?_⟩
  rw [hown, ← List.append_assoc]
  exact Handover.giveSome ho

/-- Looking through the slots is looking through the entries. -/
theorem Represents.any {p : σ → Bool} {q : α → Bool} (hr : a.Represents K h es)
    (hpq : ∀ s e, K.Shows h s e → p s = q e) : (a.slots K h).any p = es.any q := by
  obtain ⟨ss, spare, ha, hs⟩ := hr
  rw [ha.slots]
  clear ha
  induction hs with
  | nil => rfl
  | cons hse hrest ih => rw [List.any_cons, List.any_cons, hpq _ _ hse, ih]

theorem remove_capacity (K : SlotKind β σ α) (h : Heap β) (a : SlotArray) (p : σ → Bool) :
    (a.remove K h p).2.1.capacity = a.capacity := by
  unfold SlotArray.remove
  split
  · rfl
  · rfl

/-! ### Removal -/

/-- A list without the entry looked for, or split at the first. -/
theorem first_cases (p : σ → Bool) (ss : List σ) :
    (∀ s ∈ ss, p s = false) ∨
      ∃ pre s post, ss = pre ++ s :: post ∧ p s = true ∧ ∀ b ∈ pre, p b = false := by
  cases hf : ss.find? p with
  | none => exact Or.inl (by simpa using List.find?_eq_none.mp hf)
  | some s =>
    obtain ⟨hs, pre, post, hss, hpre⟩ := List.find?_eq_some_iff_append.mp hf
    exact Or.inr ⟨pre, s, post, hss, hs, by simpa using hpre⟩

theorem forall₂_split {R : σ → α → Prop} {ss ss' : List σ} {es : List α}
    (hs : List.Forall₂ R (ss ++ ss') es) :
    ∃ ds es', es = ds ++ es' ∧ List.Forall₂ R ss ds ∧ List.Forall₂ R ss' es' := by
  induction ss generalizing es with
  | nil => exact ⟨[], es, rfl, .nil, hs⟩
  | cons s ss ih =>
    rcases hs with _ | ⟨hse, hrest⟩
    obtain ⟨ds, es', rfl, hds, hes'⟩ := ih hrest
    exact ⟨_ :: ds, es', rfl, .cons hse hds, hes'⟩

theorem forall₂_none {R : σ → α → Prop} {p : σ → Bool} {q : α → Bool} {ss : List σ} {es : List α}
    (hs : List.Forall₂ R ss es) (hpq : ∀ s e, R s e → p s = q e) (hn : ∀ s ∈ ss, p s = false) :
    ∀ e ∈ es, q e = false := by
  induction hs with
  | nil => simp
  | cons hse hrest ih =>
    intro e he
    rcases List.mem_cons.mp he with rfl | he
    · rw [← hpq _ _ hse]
      exact hn _ (by simp)
    · exact ih (fun s hin => hn s (List.mem_cons_of_mem _ hin)) e he

/-- The slots and the entries they show lose the same. -/
theorem forall₂_swapRemove {R : σ → α → Prop} {p : σ → Bool} {q : α → Bool} {ss : List σ}
    {es : List α} (hs : List.Forall₂ R ss es) (hpq : ∀ s e, R s e → p s = q e) :
    List.Forall₂ R (SwapRemove.swapRemove p ss) (SwapRemove.swapRemove q es) := by
  rcases first_cases p ss with hn | ⟨pre, s, post, rfl, hp, hpre⟩
  · rw [SwapRemove.swapRemove_of_forall_not hn,
      SwapRemove.swapRemove_of_forall_not (forall₂_none hs hpq hn)]
    exact hs
  · obtain ⟨epre, es', rfl, hepre, hrest⟩ := forall₂_split hs
    have hqpre := forall₂_none hepre hpq hpre
    rcases hrest with _ | ⟨hse, hpost⟩
    rename_i e epost
    have hq : q e = true := (hpq s e hse).symm.trans hp
    rcases List.eq_nil_or_concat post with rfl | ⟨mid, last, rfl⟩
    · cases hpost
      rw [SwapRemove.swapRemove_last hp hpre, SwapRemove.swapRemove_last hq hqpre]
      exact hepre
    · rw [List.concat_eq_append] at hpost ⊢
      obtain ⟨emid, elast, rfl, hmid, hlast⟩ := forall₂_split hpost
      rcases hlast with _ | ⟨hlast, hnil⟩
      cases hnil
      rw [SwapRemove.swapRemove_between hp hpre, SwapRemove.swapRemove_between hq hqpre]
      exact List.rel_append hepre (.cons hlast hmid)

variable {p : σ → Bool} {pre post : List σ}

/-- The cells after the first slot that satisfies `p` is overwritten with the last. -/
theorem set_last (hp : p s = true) (hpre : ∀ b ∈ pre, p b = false) (spare : List (Option σ)) :
    let ss := pre ++ s :: post
    let cs := ss.map some ++ spare
    cs.set pre.length (cs.getD (ss.length - 1) none) =
      (SwapRemove.swapRemove p ss).map some ++ (cs.getD (ss.length - 1) none :: spare) := by
  rcases List.eq_nil_or_concat post with rfl | ⟨mid, last, rfl⟩
  · intro ss cs
    have hlast : cs.getD (ss.length - 1) none = some s := by
      simp [cs, ss, List.getD_eq_getElem?_getD]
    rw [hlast, SwapRemove.swapRemove_last hp hpre]
    simp [cs, ss]
  · intro ss cs
    have hlast : cs.getD (ss.length - 1) none = some last := by
      have hlen : ss.length - 1 = (pre ++ s :: mid).length := by simp [ss]
      have hcs : cs = (pre ++ s :: mid).map some ++ some last :: spare := by simp [cs, ss]
      rw [hlen, hcs, List.getD_eq_getElem?_getD, List.getElem?_append_right (by simp)]
      simp
    rw [hlast]
    simp only [ss, cs, List.concat_eq_append]
    rw [SwapRemove.swapRemove_between hp hpre]
    simp

theorem swapRemove_split (hp : p s = true) (hpre : ∀ b ∈ pre, p b = false) :
    (pre ++ s :: post).Perm (s :: SwapRemove.swapRemove p (pre ++ s :: post)) := by
  have herase : (pre ++ s :: post).eraseP p = pre ++ post := by
    rw [List.eraseP_append_right _ (by simpa using hpre), List.eraseP_cons_of_pos hp]
  have hperm := SwapRemove.swapRemove_perm (p := p) (l := pre ++ s :: post)
  rw [herase] at hperm
  exact List.perm_middle.trans (hperm.symm.cons s)

/-- The first slot that satisfies `p` goes with what it owns, and so does the entry. -/
theorem Represents.remove {q : α → Bool} (hr : a.Represents K h es) (ho : h.Owns (a.own K h))
    (hpq : ∀ s e, K.Shows h s e → p s = q e) :
    (a.remove K h p).2.1.Represents K (a.remove K h p).1 (SwapRemove.swapRemove q es) ∧
      Handover h (a.own K h) (a.remove K h p).2.2 (a.remove K h p).1
        ((a.remove K h p).2.1.own K (a.remove K h p).1) := by
  obtain ⟨ss, spare, ha, hs⟩ := hr
  rcases first_cases p ss with hn | ⟨pre, s, post, rfl, hp, hpre⟩
  · have hnone : ss.findIdx? p = none := List.findIdx?_eq_none_iff.mpr hn
    unfold SlotArray.remove
    rw [ha.slots, hnone, SwapRemove.swapRemove_of_forall_not (forall₂_none hs hpq hn)]
    exact ⟨⟨ss, spare, ha, hs⟩, .refl ho⟩
  · set ss := pre ++ s :: post with hss
    have hpos : 0 < a.capacity := by
      have hcap := ha.capacity
      simp only [hss, List.length_append, List.length_cons] at hcap
      omega
    obtain ⟨l, hbase⟩ := ha.base hpos
    have hwhole : ss.Perm (s :: SwapRemove.swapRemove p ss) := swapRemove_split hp hpre
    set rest := SwapRemove.swapRemove p ss with hrest
    set h1 := h.freeAll (K.refs s) with hh1
    have hremove : a.remove K h p =
        ((a.dropAt K h1 pre.length).1, (a.dropAt K h1 pre.length).2, (K.refs s).map .gave) := by
      unfold SlotArray.remove
      rw [ha.slots, hss, SwapRemove.findIdx?_pre hp hpre]
      simp [hh1]
    rw [ha.own] at ho ⊢
    -- what the slot owns is apart from all the rest
    have hsplit : (a.base.toList ++ ss.flatMap K.refs).Perm
        (K.refs s ++ (a.base.toList ++ rest.flatMap K.refs)) := by
      have hperm := hwhole.flatMap_right K.refs
      rw [List.flatMap_cons] at hperm
      refine (hperm.append_left a.base.toList).trans ?_
      rw [← List.append_assoc, ← List.append_assoc]
      exact List.perm_append_comm.append_right _
    have howns := ho.perm hsplit
    obtain ⟨-, hkept, hapart⟩ := List.nodup_append.mp howns.nodup
    have hfree := Handover.free howns
    have hbase1 : ∀ k, a.base = some k → h1 k = h k := by
      intro k hk
      refine Heap.freeAll_of_notMem fun hin => hapart k hin k ?_ rfl
      simp [hk]
    have ha1 := ha.congr hbase1
    have hdrop : (a.dropAt K h1 pre.length).2.Holds K (a.dropAt K h1 pre.length).1 rest
        ((ss.map some ++ spare).getD (ss.length - 1) none :: spare) := by
      unfold SlotArray.dropAt
      apply ha1.poke hbase
      · rw [ha1.cells, ha.length]
        exact set_last hp hpre spare
      · have hlen := hwhole.length_eq
        rw [List.length_cons] at hlen
        rw [ha.length]
        omega
    have hstore : ∃ b, (a.dropAt K h1 pre.length).1 = h1.store l b := by
      simp [SlotArray.dropAt, SlotArray.poke, hbase]
    obtain ⟨b, hb⟩ := hstore
    have hown' : (a.dropAt K h1 pre.length).2.own K (a.dropAt K h1 pre.length).1 =
        a.base.toList ++ rest.flatMap K.refs := hdrop.own
    rw [hremove]
    dsimp only
    rw [hown']
    constructor
    · refine ⟨rest, _, hdrop, ?_⟩
      apply shows_congr (forall₂_swapRemove hs hpq)
      intro k hk
      obtain ⟨-, -, hbk⟩ := List.nodup_append.mp hkept
      have hkl : k ≠ l := fun he => hbk l (by simp [hbase]) k hk he.symm
      have hks : k ∉ K.refs s := fun hin =>
        hapart k hin k (List.mem_append_right _ hk) rfl
      rw [hb, Heap.store_of_ne hkl]
      exact Heap.freeAll_of_notMem hks
    · rw [hb]
      have hwrite := Handover.write (b := b) hfree.transfer.owns (l := l) (by simp [hbase])
      have hboth := (hfree.trans hwrite).perm_left hsplit.symm
      rwa [List.append_nil] at hboth

end SlotArray
