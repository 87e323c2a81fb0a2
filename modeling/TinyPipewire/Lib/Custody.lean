import Mathlib.Data.Finset.Card
import Mathlib.Logic.Function.Basic
import TinyPipewire.Lib.Ledger
import TinyPipewire.Lib.Machine

/-!
# Objects that stand on one another

A program makes objects, uses them and drops them, and rules say what must be there when it
does. The programs of several owners interleave event by event. One object of each owner is
its share in something they have in common, which comes up for the first share and goes down
after the last.
-/

universe u v w x

namespace Custody

variable {κ : Type u}

inductive Event (κ : Type u)
  | make (k : κ)
  | drop (k : κ)
  | use (k : κ)
  deriving DecidableEq, Repr

/-- The objects that are there. -/
abbrev Held (κ : Type u) := κ → Bool

/-- What an object stands on, and what else must hold when it is made and dropped. -/
structure Rules (κ : Type u) where
  needs : κ → List κ
  make : Held κ → κ → Prop
  drop : Held κ → κ → Prop

/-- An object that is not there is made on what it stands on, one that is there is used, and
one on which nothing stands is dropped. -/
def Rules.Allows (R : Rules κ) (h : Held κ) : Event κ → Prop
  | .make k => h k = false ∧ (∀ j ∈ R.needs k, h j = true) ∧ R.make h k
  | .drop k => h k = true ∧ (∀ j, k ∈ R.needs j → h j = false) ∧ R.drop h k
  | .use k => h k = true

/-- The events of a program as they count in a ledger. -/
def Event.entry : Event κ → Option (Ledger.Entry κ)
  | .make k => some (.took k)
  | .drop k => some (.gave k)
  | .use _ => none

/-- Nothing is there. -/
def none : Held κ := fun _ => false

variable {R : Rules κ} {h : Held κ} {es : List (Event κ)} {e : Event κ} {k : κ}

@[simp] theorem none_apply : (none : Held κ) k = false := rfl

@[simp] theorem allows_make : R.Allows h (.make k) ↔
    h k = false ∧ (∀ j ∈ R.needs k, h j = true) ∧ R.make h k := Iff.rfl

@[simp] theorem allows_drop : R.Allows h (.drop k) ↔
    h k = true ∧ (∀ j, k ∈ R.needs j → h j = false) ∧ R.drop h k := Iff.rfl

@[simp] theorem allows_use : R.Allows h (.use k) ↔ h k = true := Iff.rfl

variable [DecidableEq κ]

def Event.after (h : Held κ) : Event κ → Held κ
  | .make k => Function.update h k true
  | .drop k => Function.update h k false
  | .use _ => h

/-- The programs that keep to the rules. -/
def Rules.machine (R : Rules κ) : Machine (Held κ) (Event κ) (Event κ) where
  Enabled := R.Allows
  next := Event.after
  out := fun _ e => [e]

@[simp] theorem machine_enabled : R.machine.Enabled h e ↔ R.Allows h e := Iff.rfl

@[simp] theorem machine_next : R.machine.next h e = e.after h := rfl

@[simp] theorem after_make : (Event.make k).after h = Function.update h k true := rfl

@[simp] theorem after_drop : (Event.drop k).after h = Function.update h k false := rfl

@[simp] theorem after_use : (Event.use k).after h = h := rfl

/-- A program that keeps to the rules, and what is there after it. -/
def Rules.Runs (R : Rules κ) (h : Held κ) (es : List (Event κ)) (h' : Held κ) : Prop :=
  R.machine.Valid h es ∧ R.machine.exec h es = h'

variable {h' h'' : Held κ} {es' : List (Event κ)}

theorem Rules.Runs.nil : R.Runs h [] h := ⟨trivial, rfl⟩

theorem Rules.Runs.append (h1 : R.Runs h es h') (h2 : R.Runs h' es' h'') :
    R.Runs h (es ++ es') h'' := by
  obtain ⟨hv, rfl⟩ := h1
  obtain ⟨hv', rfl⟩ := h2
  exact ⟨Machine.valid_append.mpr ⟨hv, hv'⟩, Machine.exec_append⟩

theorem Rules.Runs.single (he : R.Allows h e) : R.Runs h [e] (e.after h) := ⟨⟨he, trivial⟩, rfl⟩

/-- Objects on which nothing stands are dropped one after the other. -/
theorem Rules.Runs.dropAll (ks : List κ) (hn : ks.Nodup) (hk : ∀ k ∈ ks, h k = true)
    (hleaf : ∀ k ∈ ks, ∀ j, k ∉ R.needs j)
    (hd : ∀ g : Held κ, (∀ k, k ∉ ks → g k = h k) → ∀ k ∈ ks, R.drop g k) :
    R.Runs h (ks.map .drop) (fun k => if k ∈ ks then false else h k) := by
  induction ks generalizing h with
  | nil => simpa using Runs.nil
  | cons k ks ih =>
    obtain ⟨hnot, hn⟩ := List.nodup_cons.mp hn
    have hfirst : R.Runs h [.drop k] (Function.update h k false) := by
      refine .single ⟨hk k (by simp), fun j hj => absurd hj (hleaf k (by simp) j), ?_⟩
      exact hd h (fun _ _ => rfl) k (by simp)
    have hrest := ih (h := Function.update h k false) hn ?_ (fun l hl => hleaf l (by simp [hl])) ?_
    · have hsame : (fun l => if l ∈ ks then false else Function.update h k false l) =
          fun l => if l ∈ k :: ks then false else h l := by
        funext l
        by_cases hl : l = k <;> simp [hl]
      rw [← hsame]
      exact hfirst.append hrest
    · intro l hl
      have hne : l ≠ k := fun he => hnot (he ▸ hl)
      simp [hne, hk l (by simp [hl])]
    · intro g hg l hl
      refine hd g (fun j hj => ?_) l (by simp [hl])
      rw [List.mem_cons, not_or] at hj
      rw [hg j hj.2, Function.update_of_ne hj.1]

/-! ### What is made is dropped -/

/-- What a program that keeps to the rules owes is what is there. -/
theorem tracks_run (hv : R.machine.Valid none es) :
    Ledger.Tracks (es.filterMap Event.entry) (fun k => R.machine.exec none es k = true) := by
  refine Machine.run_induction (P := fun es => Ledger.Tracks (es.filterMap Event.entry)
    (fun k => R.machine.exec none es k = true)) (Ledger.tracks_nil (by simp)) ?_ hv
  intro ys e _ he ih
  rw [List.filterMap_append]
  cases e with
  | make k =>
    have htook := ih.took (List.nodup_singleton k) (by simpa using he.1)
    refine htook.congr fun j => ?_
    by_cases hj : j = k <;> simp [hj]
  | drop k =>
    have hgave := ih.gave (List.nodup_singleton k) (by simpa using he.1)
    refine hgave.congr fun j => ?_
    by_cases hj : j = k <;> simp [hj]
  | use k => simpa only [List.filterMap_cons, List.filterMap_nil, Event.entry, List.append_nil,
      Machine.exec_append, Machine.exec_cons, Machine.exec_nil, machine_next, after_use] using ih

/-- Where nothing is there in the end, everything that was made was dropped once. -/
theorem settled_of_none (hv : R.machine.Valid none es) (hn : R.machine.exec none es = none) :
    ∀ k, Ledger.Settled (es.filterMap Event.entry) k :=
  (tracks_run hv).settled_iff.mpr fun k hk => by simp [hn] at hk

/-! ### Objects that all stand on one -/

/-- What is there has what it stands on. -/
def Grounded (R : Rules κ) (h : Held κ) : Prop :=
  ∀ k, h k = true → ∀ j ∈ R.needs k, h j = true

theorem grounded_run (hv : R.machine.Valid none es) : Grounded R (R.machine.exec none es) := by
  refine Machine.invariant (I := Grounded R) (by simp [Grounded]) ?_ hv
  intro h e he hg k hk j hj
  cases e with
  | make l =>
    by_cases hjl : j = l
    · simp [hjl]
    · rw [machine_next, after_make, Function.update_of_ne hjl]
      by_cases hkl : k = l
      · subst k
        exact he.2.1 j hj
      · rw [machine_next, after_make, Function.update_of_ne hkl] at hk
        exact hg k hk j hj
  | drop l =>
    by_cases hkl : k = l
    · simp [hkl] at hk
    · rw [machine_next, after_drop, Function.update_of_ne hkl] at hk
      have hjl : j ≠ l := by
        rintro rfl
        simp [he.2.1 k hj] at hk
      rw [machine_next, after_drop, Function.update_of_ne hjl]
      exact hg k hk j hj
  | use l => exact hg k hk j hj

omit [DecidableEq κ] in
/-- Going down what objects stand on ends at `share`. -/
def Rules.RestsOn (R : Rules κ) (share : κ) : Prop :=
  ∃ rank : κ → ℕ, ∀ k, k ≠ share → ∃ j ∈ R.needs k, rank j < rank k

variable {share : κ}

/-- Nothing is there without the share. -/
theorem rests_run (hR : R.RestsOn share) (hv : R.machine.Valid none es)
    (hk : R.machine.exec none es k = true) : R.machine.exec none es share = true := by
  obtain ⟨rank, hrank⟩ := hR
  have hground := grounded_run hv
  induction hr : rank k using Nat.strongRecOn generalizing k with
  | ind n ih =>
    by_cases hks : k = share
    · rwa [← hks]
    · obtain ⟨j, hj, hlt⟩ := hrank k hks
      exact ih (rank j) (hr ▸ hlt) (hground k hk j hj) rfl

/-- Whatever else a program does, it has its share. -/
theorem rests_at (hR : R.RestsOn share) (hv : R.machine.Valid none es)
    (he : R.Allows (R.machine.exec none es) e) (hne : e ≠ .make share) :
    R.machine.exec none es share = true := by
  cases e with
  | make k =>
    have hks : k ≠ share := fun hk => hne (hk ▸ rfl)
    obtain ⟨j, hj, -⟩ := hR.choose_spec k hks
    exact rests_run hR hv (he.2.1 j hj)
  | drop k => exact rests_run hR hv he.1
  | use k => exact rests_run hR hv he

/-! ### Several owners -/

variable {σ : Type v} {ω : Type w} {ι : Type x} {Inv : σ → Held κ → Prop}

/-- The operations of an owner: which may be called, what each leaves of its record, and the
events it comes to. -/
structure Program (κ : Type u) (σ : Type v) (ω : Type w) where
  start : σ
  May : σ → ω → Prop
  call : σ → ω → σ × List (Event κ)

/-- Each operation keeps to the rules, where the record tells what is there before and after. -/
structure Program.Obeys (P : Program κ σ ω) (R : Rules κ) (Inv : σ → Held κ → Prop) : Prop where
  start : Inv P.start none
  call : ∀ s h op, Inv s h → P.May s op →
    R.machine.Valid h (P.call s op).2 ∧ Inv (P.call s op).1 (R.machine.exec h (P.call s op).2)

/-- An owner, with what the operation it is in has still to do. -/
structure Seat (κ : Type u) (σ : Type v) where
  record : σ
  pending : List (Event κ)

/-- All owners, and how many shares are out. -/
structure Crew (ι : Type x) (κ : Type u) (σ : Type v) where
  seats : ι → Seat κ σ
  shares : ℕ

inductive Move (ι : Type x) (ω : Type w)
  /-- An owner calls an operation. -/
  | call (i : ι) (op : ω)
  /-- The next event of the operation an owner is in. -/
  | step (i : ι)
  deriving DecidableEq

inductive Seen (ι : Type x) (κ : Type u)
  | did (i : ι) (e : Event κ)
  /-- What the owners have in common comes up, and goes down. -/
  | up
  | down
  deriving DecidableEq

def Event.count (share : κ) (n : ℕ) : Event κ → ℕ
  | .make k => if k = share then n + 1 else n
  | .drop k => if k = share then n - 1 else n
  | .use _ => n

/-- The first share brings up what it is a share in, the last takes it down. -/
def Event.seen (share : κ) (n : ℕ) (i : ι) (e : Event κ) : List (Seen ι κ) :=
  (if e = .make share ∧ n = 0 then [.up] else []) ++ [.did i e] ++
    (if e = .drop share ∧ n = 1 then [.down] else [])

variable [DecidableEq ι]

def Program.crew (P : Program κ σ ω) (share : κ) :
    Machine (Crew ι κ σ) (Move ι ω) (Seen ι κ) where
  Enabled := fun s a => match a with
    | .call i op => (s.seats i).pending = [] ∧ P.May (s.seats i).record op
    | .step i => (s.seats i).pending ≠ []
  next := fun s a => match a with
    | .call i op => { s with
        seats := Function.update s.seats i
          ⟨(P.call (s.seats i).record op).1, (P.call (s.seats i).record op).2⟩ }
    | .step i => match (s.seats i).pending with
      | [] => s
      | e :: es =>
        { seats := Function.update s.seats i ⟨(s.seats i).record, es⟩
          shares := e.count share s.shares }
  out := fun s a => match a with
    | .call _ _ => []
    | .step i => match (s.seats i).pending with
      | [] => []
      | e :: _ => e.seen share s.shares i

instance {P : Program κ σ ω} {share : κ} [∀ s op, Decidable (P.May s op)] (s : Crew ι κ σ) :
    DecidablePred ((P.crew share).Enabled s)
  | .call _ _ => inferInstanceAs (Decidable (_ ∧ _))
  | .step _ => inferInstanceAs (Decidable (_ ≠ _))

def Crew.start (P : Program κ σ ω) : Crew ι κ σ := ⟨fun _ => ⟨P.start, []⟩, 0⟩

def Seen.event (i : ι) : Seen ι κ → Option (Event κ)
  | .did j e => if j = i then some e else Option.none
  | .up | .down => Option.none

/-- What one owner did. -/
def theirs (i : ι) (ws : List (Seen ι κ)) : List (Event κ) := ws.filterMap (Seen.event i)

def Seen.level (b : Bool) : Seen ι κ → Bool
  | .did _ _ => b
  | .up => true
  | .down => false

/-- What the owners have in common is up. -/
def isUp (ws : List (Seen ι κ)) : Bool := ws.foldl Seen.level false

variable {P : Program κ σ ω} {i j : ι} {s : Crew ι κ σ} {ws us vs : List (Seen ι κ)}
  {xs : List (Move ι ω)} {n : ℕ}

omit [DecidableEq κ] in
@[simp] theorem theirs_append : theirs i (us ++ vs) = theirs i us ++ theirs i vs := by
  simp [theirs]

omit [DecidableEq κ] in
@[simp] theorem theirs_up : theirs i [(.up : Seen ι κ)] = [] := rfl

omit [DecidableEq κ] in
@[simp] theorem theirs_down : theirs i [(.down : Seen ι κ)] = [] := rfl

omit [DecidableEq κ] in
@[simp] theorem theirs_did : theirs i [.did j e] = if j = i then [e] else [] := by
  by_cases hj : j = i <;> simp [theirs, Seen.event, hj]

theorem theirs_seen : theirs i (e.seen share n j) = if j = i then [e] else [] := by
  have hnil : theirs i ([] : List (Seen ι κ)) = [] := rfl
  have hup : theirs i (if e = .make share ∧ n = 0 then [(.up : Seen ι κ)] else []) = [] := by
    split_ifs <;> simp [hnil]
  have hdown : theirs i (if e = .drop share ∧ n = 1 then [(.down : Seen ι κ)] else []) = [] := by
    split_ifs <;> simp [hnil]
  rw [Event.seen, theirs_append, theirs_append, hup, hdown, theirs_did]
  simp

omit [DecidableEq κ] [DecidableEq ι] in
theorem isUp_append : isUp (us ++ vs) = vs.foldl Seen.level (isUp us) := by
  simp [isUp]

/-! ### What interleaving keeps -/

/-- What an owner did, and what it has still to do. -/
def Crew.whole (s : Crew ι κ σ) (ws : List (Seen ι κ)) (i : ι) : List (Event κ) :=
  theirs i ws ++ (s.seats i).pending

/-- What an owner has done. -/
abbrev has (i : ι) (R : Rules κ) (ws : List (Seen ι κ)) : Held κ :=
  R.machine.exec none (theirs i ws)

/-- The owners that have their share, as many as are counted. -/
def Counted (R : Rules κ) (share : κ) (ws : List (Seen ι κ)) (n : ℕ) : Prop :=
  ∃ F : Finset ι, F.card = n ∧ ∀ i, i ∈ F ↔ has i R ws share = true

structure Crew.Sound (R : Rules κ) (share : κ) (Inv : σ → Held κ → Prop) (ws : List (Seen ι κ))
    (s : Crew ι κ σ) : Prop where
  keeps : ∀ i, R.machine.Valid none (s.whole ws i)
  told : ∀ i, Inv (s.seats i).record (R.machine.exec none (s.whole ws i))
  counted : Counted R share ws s.shares
  up : isUp ws = true ↔ 0 < s.shares

theorem Crew.Sound.did (hs : s.Sound R share Inv ws) {es : List (Event κ)}
    (hp : (s.seats i).pending = e :: es) : R.Allows (has i R ws) e := by
  have hv := hs.keeps i
  rw [Crew.whole, hp, Machine.valid_append] at hv
  exact hv.2.1

/-- The share an event is about changes the count by one, and another object leaves it. -/
theorem Counted.event (hc : Counted R share ws n) (he : R.Allows (has i R ws) e)
    (hw : ∀ j, theirs j vs = if i = j then [e] else []) :
    Counted R share (ws ++ vs) (e.count share n) := by
  obtain ⟨F, rfl, hF⟩ := hc
  have hother : ∀ j, i ≠ j → has j R (ws ++ vs) = has j R ws := by
    intro j hj
    simp [has, hw, hj]
  have hself : has i R (ws ++ vs) = e.after (has i R ws) := by
    simp [has, hw]
  have hsame : (∀ h : Held κ, e.after h share = h share) → e.count share F.card = F.card →
      Counted R share (ws ++ vs) (e.count share F.card) := by
    intro hafter hcount
    rw [hcount]
    refine ⟨F, rfl, fun j => ?_⟩
    by_cases hj : i = j
    · subst j
      rw [hself, hafter]
      exact hF i
    · rw [hother j hj]
      exact hF j
  cases e with
  | make k =>
    by_cases hk : k = share
    · subst k
      have hnew : i ∉ F := by
        rw [hF]
        simp [he.1]
      refine ⟨insert i F, by simp [hnew, Event.count], fun j => ?_⟩
      by_cases hj : i = j
      · subst j
        simp [hself]
      · rw [hother j hj, ← hF]
        simp [Ne.symm hj]
    · refine hsame (fun h => ?_) (by simp [Event.count, hk])
      simp [Ne.symm hk]
  | drop k =>
    by_cases hk : k = share
    · subst k
      have hmem : i ∈ F := (hF i).mpr he.1
      refine ⟨F.erase i, by simp [hmem, Event.count], fun j => ?_⟩
      by_cases hj : i = j
      · subst j
        simp [hself]
      · rw [hother j hj, ← hF]
        simp [Ne.symm hj]
    · refine hsame (fun h => ?_) (by simp [Event.count, hk])
      simp [Ne.symm hk]
  | use k => exact hsame (fun h => rfl) rfl

/-- A share is dropped only by an owner that is counted. -/
theorem Counted.pos (hc : Counted R share ws n) (hi : has i R ws share = true) : 0 < n := by
  obtain ⟨F, rfl, hF⟩ := hc
  exact Finset.card_pos.mpr ⟨i, (hF i).mpr hi⟩

omit [DecidableEq ι] in
/-- What is up after an event is what the count says then. -/
theorem isUp_seen (hu : isUp ws = true ↔ 0 < n) (hpos : e = .drop share → 0 < n) :
    isUp (ws ++ e.seen share n i) = true ↔ 0 < e.count share n := by
  rw [isUp_append]
  cases e with
  | make k =>
    by_cases hk : k = share
    · by_cases hn : n = 0
      · simp [Event.seen, Event.count, hk, hn, Seen.level]
      · have hlevel : isUp ws = true := hu.mpr (by omega)
        simp [Event.seen, Event.count, hk, hn, Seen.level, hlevel]
    · simpa [Event.seen, Event.count, hk, Seen.level] using hu
  | drop k =>
    by_cases hk : k = share
    · have hn := hpos (by rw [hk])
      by_cases h1 : n = 1
      · simp [Event.seen, Event.count, hk, h1, Seen.level]
      · have hlevel : isUp ws = true := hu.mpr hn
        simp [Event.seen, Event.count, hk, h1, Seen.level, hlevel]
        omega
    · simpa [Event.seen, Event.count, hk, Seen.level] using hu
  | use k => simpa [Event.seen, Event.count, Seen.level] using hu

theorem crew_next_step {es : List (Event κ)} (hp : (s.seats i).pending = e :: es) :
    (P.crew share).next s (.step i) =
      ⟨Function.update s.seats i ⟨(s.seats i).record, es⟩, e.count share s.shares⟩ := by
  simp [Program.crew, hp]

theorem crew_out_step {es : List (Event κ)} (hp : (s.seats i).pending = e :: es) :
    (P.crew share).out s (.step i) = e.seen share s.shares i := by
  simp [Program.crew, hp]

theorem sound_next (hP : P.Obeys R Inv) {a : Move ι ω} (he : (P.crew share).Enabled s a)
    (hs : s.Sound R share Inv ws) :
    ((P.crew share).next s a).Sound R share Inv (ws ++ (P.crew share).out s a) := by
  cases a with
  | call i op =>
    obtain ⟨hidle, hmay⟩ := he
    have hwhole : s.whole ws i = theirs i ws := by simp [Crew.whole, hidle]
    have hv := hs.keeps i
    have hi := hs.told i
    rw [hwhole] at hv hi
    obtain ⟨hvalid, hinv⟩ := hP.call _ _ op hi hmay
    refine ⟨?_, ?_, ?_, ?_⟩
    · intro j
      by_cases hj : j = i
      · subst j
        simpa [Program.crew, Crew.whole] using ⟨hv, hvalid⟩
      · simpa [Program.crew, Crew.whole, hj] using hs.keeps j
    · intro j
      by_cases hj : j = i
      · subst j
        simpa [Program.crew, Crew.whole] using hinv
      · simpa [Program.crew, Crew.whole, hj] using hs.told j
    · simpa [Program.crew] using hs.counted
    · simpa only [Program.crew, List.append_nil] using hs.up
  | step i =>
    obtain ⟨e, es, hp⟩ : ∃ e es, (s.seats i).pending = e :: es := List.exists_cons_of_ne_nil he
    have hallows := hs.did hp
    have hnext : (P.crew share).next s (.step i) =
        ⟨Function.update s.seats i ⟨(s.seats i).record, es⟩, e.count share s.shares⟩ :=
      crew_next_step hp
    have hout : (P.crew share).out s (.step i) = e.seen share s.shares i := crew_out_step hp
    have hwhole : ∀ j, ((P.crew share).next s (.step i)).whole
        (ws ++ (P.crew share).out s (.step i)) j = s.whole ws j := by
      intro j
      rw [hnext, hout]
      by_cases hj : j = i
      · subst j
        simp [Crew.whole, theirs_seen, hp]
      · simp [Crew.whole, theirs_seen, hj, Ne.symm hj]
    have hrecord : ∀ j, (((P.crew share).next s (.step i)).seats j).record =
        (s.seats j).record := by
      intro j
      rw [hnext]
      by_cases hj : j = i
      · subst j
        simp
      · simp [hj]
    refine ⟨?_, ?_, ?_, ?_⟩
    · intro j
      rw [hwhole]
      exact hs.keeps j
    · intro j
      rw [hwhole, hrecord]
      exact hs.told j
    · rw [hnext, hout]
      exact hs.counted.event hallows fun j => theirs_seen
    · rw [hnext, hout]
      refine isUp_seen hs.up ?_
      rintro rfl
      exact hs.counted.pos hallows.1

theorem sound_run (hP : P.Obeys R Inv) (hv : (P.crew share).Valid (Crew.start P) xs) :
    ((P.crew share).exec (Crew.start P) xs).Sound R share Inv
      ((P.crew share).outs (Crew.start P) xs) := by
  refine Machine.history (P := fun ws s => Crew.Sound R share Inv ws s) ?_
    (fun ws s a he hs => sound_next hP he hs) hv
  refine ⟨fun i => ?_, fun i => ?_, ⟨∅, rfl, fun i => ?_⟩, ?_⟩
  · simp [Crew.whole, Crew.start, theirs]
  · simpa [Crew.whole, Crew.start, theirs] using hP.start
  · simp [has, theirs]
  · simp [isUp, Crew.start]

/-! ### At each thing seen -/

omit [DecidableEq ι] in
theorem seen_did {pre post : List (Seen ι κ)} {e' : Event κ}
    (h : e.seen share n i = pre ++ .did j e' :: post) :
    j = i ∧ e' = e ∧ (pre = [] ∧ ¬ (e = .make share ∧ n = 0) ∨ pre = [.up]) := by
  unfold Event.seen at h
  by_cases hup : e = .make share ∧ n = 0
  · rw [if_pos hup, if_neg (by simp [hup.1])] at h
    cases pre with
    | nil => simp at h
    | cons w pre =>
      cases pre with
      | nil =>
        obtain ⟨rfl, ⟨rfl, rfl⟩, -⟩ : Seen.up = w ∧ (i = j ∧ e = e') ∧ [] = post := by
          simpa using h
        exact ⟨rfl, rfl, Or.inr rfl⟩
      | cons w' pre => simp at h
  · rw [if_neg hup] at h
    cases pre with
    | nil =>
      obtain ⟨⟨rfl, rfl⟩, -⟩ : (i = j ∧ e = e') ∧ _ := by simpa using h
      exact ⟨rfl, rfl, Or.inl ⟨rfl, hup⟩⟩
    | cons w pre =>
      obtain ⟨-, htail⟩ : Seen.did i e = w ∧ _ := by simpa using h
      split_ifs at htail <;> simp [List.singleton_eq_append_iff] at htail

omit [DecidableEq ι] in
theorem seen_up {pre post : List (Seen ι κ)} (h : e.seen share n i = pre ++ .up :: post) :
    pre = [] ∧ n = 0 := by
  unfold Event.seen at h
  by_cases hup : e = .make share ∧ n = 0
  · rw [if_pos hup, if_neg (by simp [hup.1])] at h
    cases pre with
    | nil => exact ⟨rfl, hup.2⟩
    | cons w pre =>
      obtain ⟨-, htail⟩ : Seen.up = w ∧ _ := by simpa using h
      simp [List.singleton_eq_append_iff] at htail
  · rw [if_neg hup] at h
    cases pre with
    | nil => simp at h
    | cons w pre =>
      obtain ⟨-, htail⟩ : Seen.did i e = w ∧ _ := by simpa using h
      split_ifs at htail <;> simp [List.singleton_eq_append_iff] at htail

omit [DecidableEq ι] in
theorem seen_down {pre post : List (Seen ι κ)} (h : e.seen share n i = pre ++ .down :: post) :
    pre = [.did i e] ∧ e = .drop share ∧ n = 1 := by
  unfold Event.seen at h
  by_cases hdown : e = .drop share ∧ n = 1
  · rw [if_pos hdown, if_neg (by simp [hdown.1])] at h
    cases pre with
    | nil => simp at h
    | cons w pre =>
      obtain ⟨rfl, htail⟩ : Seen.did i e = w ∧ _ := by simpa using h
      cases pre with
      | nil => exact ⟨rfl, hdown⟩
      | cons w' pre => simp at htail
  · rw [if_neg hdown] at h
    split_ifs at h with hup
    · cases pre with
      | nil => simp at h
      | cons w pre =>
        obtain ⟨-, htail⟩ : Seen.up = w ∧ _ := by simpa using h
        simp [List.singleton_eq_append_iff] at htail
    · simp [List.singleton_eq_append_iff] at h

/-- What is seen is seen of a step, of which something may have been seen before. -/
theorem seen_at {w : Seen ι κ} (hP : P.Obeys R Inv)
    (hv : (P.crew share).Valid (Crew.start P) xs)
    (hw : (P.crew share).outs (Crew.start P) xs = us ++ w :: vs) :
    ∃ ws s i e pre post, Crew.Sound R share Inv ws s ∧ us = ws ++ pre ∧
      e.seen share s.shares i = pre ++ w :: post ∧ R.Allows (has i R ws) e := by
  obtain ⟨ys, a, zs, pre, post, rfl, rfl, hout⟩ := Machine.outs_split hw
  obtain ⟨hys, ha, -⟩ := Machine.valid_append.mp hv
  have hs := sound_run hP hys
  cases a with
  | call i op => simp [Program.crew] at hout
  | step i =>
    obtain ⟨e, es, hp⟩ := List.exists_cons_of_ne_nil (show (_ : List (Event κ)) ≠ [] from ha)
    rw [crew_out_step hp] at hout
    exact ⟨_, _, i, e, pre, post, hs, rfl, hout, hs.did hp⟩

/-- Whatever an owner does keeps to the rules, and what all have in common is up then. -/
theorem did_sound {e : Event κ} (hR : R.RestsOn share) (hP : P.Obeys R Inv)
    (hv : (P.crew share).Valid (Crew.start P) xs)
    (hw : (P.crew share).outs (Crew.start P) xs = us ++ .did i e :: vs) :
    R.Allows (has i R us) e ∧ isUp us = true := by
  obtain ⟨ws, s, j, e', pre, post, hs, rfl, hseen, hallows⟩ := seen_at hP hv hw
  obtain ⟨rfl, rfl, ⟨rfl, hnew⟩ | rfl⟩ := seen_did hseen
  · rw [List.append_nil]
    refine ⟨hallows, hs.up.mpr ?_⟩
    by_cases hmake : e = .make share
    · have hn : s.shares ≠ 0 := fun hn => hnew ⟨hmake, hn⟩
      omega
    · have hvalid := (Machine.valid_append.mp (hs.keeps i)).1
      exact hs.counted.pos (rests_at hR hvalid hallows hmake)
  · refine ⟨?_, ?_⟩
    · rwa [has, theirs_append, theirs_up, List.append_nil]
    · simp [isUp_append, Seen.level]

/-- It comes up when it is down. -/
theorem up_sound (hP : P.Obeys R Inv) (hv : (P.crew share).Valid (Crew.start P) xs)
    (hw : (P.crew share).outs (Crew.start P) xs = us ++ .up :: vs) : isUp us = false := by
  obtain ⟨ws, s, i, e, pre, post, hs, rfl, hseen, -⟩ := seen_at hP hv hw
  obtain ⟨rfl, hn⟩ := seen_up hseen
  have hdown : ¬ isUp ws = true := fun hu => by
    have hpos := hs.up.mp hu
    omega
  simpa using hdown

/-- It goes down when it is up and nobody has anything left. -/
theorem down_sound (hR : R.RestsOn share) (hP : P.Obeys R Inv)
    (hv : (P.crew share).Valid (Crew.start P) xs)
    (hw : (P.crew share).outs (Crew.start P) xs = us ++ .down :: vs) :
    isUp us = true ∧ ∀ i, has i R us = none := by
  obtain ⟨ws, s, j, e, pre, post, hs, rfl, hseen, hallows⟩ := seen_at hP hv hw
  obtain ⟨rfl, rfl, hn⟩ := seen_down hseen
  refine ⟨?_, fun i => ?_⟩
  · rw [isUp_append]
    exact hs.up.mpr (by omega)
  · have hcounted : Counted R share (ws ++ [.did j (.drop share)])
        ((Event.drop share).count share s.shares) :=
      hs.counted.event hallows fun k => theirs_did
    obtain ⟨F, hF, hmem⟩ := hcounted
    have hempty : F = ∅ := by
      rw [← Finset.card_eq_zero, hF, hn]
      simp [Event.count]
    have hvalid : R.machine.Valid none (theirs i (ws ++ [.did j (.drop share)])) := by
      have hvi := (Machine.valid_append.mp (hs.keeps i)).1
      rw [theirs_append, theirs_did]
      split_ifs with hji
      · subst i
        exact Machine.valid_append.mpr ⟨hvi, hallows, trivial⟩
      · simpa using hvi
    have hshare : ¬ has i R (ws ++ [.did j (.drop share)]) share = true := by
      rw [← hmem, hempty]
      simp
    funext k
    by_contra hk
    rw [none_apply, Bool.not_eq_false] at hk
    exact hshare (rests_run hR hvalid hk)

/-- It is up exactly while somebody has a share. -/
theorem isUp_iff (hP : P.Obeys R Inv) (hv : (P.crew share).Valid (Crew.start P) xs) :
    isUp ((P.crew share).outs (Crew.start P) xs) = true ↔
      ∃ i, has i R ((P.crew share).outs (Crew.start P) xs) share = true := by
  have hs := sound_run hP hv
  obtain ⟨F, hF, hmem⟩ := hs.counted
  rw [hs.up, ← hF, Finset.card_pos]
  constructor
  · rintro ⟨i, hi⟩
    exact ⟨i, (hmem i).mp hi⟩
  · rintro ⟨i, hi⟩
    exact ⟨i, (hmem i).mpr hi⟩

/-- An owner that is in no operation has what its record tells. -/
theorem told_idle (hP : P.Obeys R Inv) (hv : (P.crew share).Valid (Crew.start P) xs)
    (hi : (((P.crew share).exec (Crew.start P) xs).seats i).pending = []) :
    Inv (((P.crew share).exec (Crew.start P) xs).seats i).record
      (has i R ((P.crew share).outs (Crew.start P) xs)) := by
  have htold := (sound_run hP hv).told i
  rwa [Crew.whole, hi, List.append_nil] at htold

/-- Where that is nothing, all it made was dropped once. -/
theorem settled_idle (hP : P.Obeys R Inv) (hv : (P.crew share).Valid (Crew.start P) xs)
    (hn : has i R ((P.crew share).outs (Crew.start P) xs) = none) (k : κ) :
    Ledger.Settled ((theirs i ((P.crew share).outs (Crew.start P) xs)).filterMap Event.entry) k :=
  settled_of_none (Machine.valid_append.mp ((sound_run hP hv).keeps i)).1 hn k

end Custody
