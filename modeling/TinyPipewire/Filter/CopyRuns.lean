import TinyPipewire.Filter.EventCopies

/-!
# The copies of a filter's whole life

From its creation to `pwf_filter_destroy`, which frees what the ports still have. A push to an
output event port from outside the callback holds the loop lock, which the data thread never
takes: it is a step of its own that begins it and one that ends it, and while it is under way
nothing keeps the data thread off the port.
-/

namespace TinyPipewire.Filter

open Ledger Heap

variable {n : ℕ}

/-! ### The destroy -/

/-- `pwf_filter_event_free_port`, of the copies. -/
def eventFreePort (cfg : PortConfig) (h : Heap Bytes) (p : PortData) : Heap Bytes × PortData :=
  if cfg.mediaType ≠ .event then (h, p)
  else
    let r := eventClearPending h p
    eventClearDelivering r.1 r.2

/-- What `pwf_filter_destroy` frees of a port. -/
def destroyPort (cfg : PortConfig) (h : Heap Bytes) (p : PortData) : Heap Bytes :=
  (eventFreePort cfg ((h.freeAll p.pushedData.toList).freeAll p.deliveredData.toList) p).1

/-- The filter after `pwf_filter_destroy`; its ports go with it. -/
def DataState.destroyed (cfg : Fin n → PortConfig) (s : DataState n) : DataState n :=
  { s with
    heap := (List.finRange n).foldl (fun h p => destroyPort (cfg p) h (s.ports p)) s.heap
    ports := fun _ => .zeroed }

/-! ### Runs -/

structure CopyState (n : ℕ) where
  data : DataState n
  /-- The push to an output event port that holds the loop lock. -/
  outside : Option (Fin n × PushedEvent)
  destroyed : Bool
  /-- The data thread worked on its port meanwhile; what they do then is undefined. -/
  raced : Bool

def CopyState.init (n : ℕ) : CopyState n := ⟨.init n, none, false, false⟩

inductive CopyAction (n : ℕ)
  /-- Anything of the data side; a push to an output port is the callback's. -/
  | data (a : DataAction n)
  /-- A push to an output port is called outside the callback, and takes the loop lock. -/
  | outsideEnter (p : Fin n) (e : PushedEvent)
  /-- It appends and encodes, drops the lock and returns. -/
  | outsidePush (grown : Bool) (blk : Option Loc)
  | destroy

namespace CopyState

variable (cfg : Fin n → PortConfig) (codec : EventCodec) (s : CopyState n)

/-- A push to an output port is inside the callback. -/
def Inside : DataAction n → Prop
  | .pushOutput _ _ _ _ => s.data.phase = .callback
  | _ => True

instance : DecidablePred s.Inside
  | .pushOutput _ _ _ _ => inferInstanceAs (Decidable (_ = _))
  | .push _ _ | .stage _ _ | .beginCycle _ _ | .prepare _ _ _ | .enterCallback | .setSize _ _
  | .leaveCallback | .finish _ | .endCycle | .resetHold => inferInstanceAs (Decidable True)

/-- The action can be taken now. A destroy comes after the other calls, between two cycles. -/
def Enabled (a : CopyAction n) : Prop :=
  s.destroyed = false ∧
    match a with
    | .data a => s.data.Enabled cfg a ∧ s.Inside a
    | .outsideEnter p e =>
      s.outside = none ∧ pushEventAccepts (cfg p) e = true ∧ (cfg p).direction = .output
    | .outsidePush _ blk => s.outside ≠ none ∧ Answer s.data.heap.Fresh blk
    | .destroy => s.outside = none ∧ s.data.phase = .idle ∧ s.data.lock.isFree = true

/-- What the action is to the data side. -/
def dataAction : CopyAction n → Option (DataAction n)
  | .data a => some a
  | .outsidePush grown blk => s.outside.map fun r => .pushOutput r.1 r.2 grown blk
  | .outsideEnter _ _ | .destroy => none

/-- The data thread keeps off the port of the push that is under way. -/
def Apart : CopyAction n → Prop
  | .data (.prepare p _ _) | .data (.finish p) | .data (.pushOutput p _ _ _) =>
    ∀ r ∈ s.outside, r.1 ≠ p
  | _ => True

instance : DecidablePred s.Apart
  | .data (.prepare _ _ _) | .data (.finish _) | .data (.pushOutput _ _ _ _) =>
    inferInstanceAs (Decidable (∀ r ∈ s.outside, _))
  | .data (.push _ _) | .data (.stage _ _) | .data (.beginCycle _ _) | .data .enterCallback
  | .data (.setSize _ _) | .data .leaveCallback | .data .endCycle | .data .resetHold
  | .outsideEnter _ _ | .outsidePush _ _ | .destroy => inferInstanceAs (Decidable True)

def next (a : CopyAction n) : CopyState n where
  data :=
    match a, s.dataAction a with
    | .destroy, _ => s.data.destroyed cfg
    | _, some b => DataState.next cfg codec s.data b
    | _, none => s.data
  outside :=
    match a with
    | .outsideEnter p e => some (p, e)
    | .outsidePush _ _ => none
    | _ => s.outside
  destroyed :=
    match a with
    | .destroy => true
    | _ => s.destroyed
  raced := s.raced || !decide (s.Apart a)

/-- What is copied and freed of the events that were pushed. -/
def out (a : CopyAction n) : List (Entry Loc) :=
  match a, s.dataAction a with
  | .destroy, _ => s.data.destroyEntries cfg
  | _, some b => s.data.copyEntries cfg codec b
  | _, none => []

/-- No output event port has copies staged when its turn of a cycle begins. -/
def StartsEmpty : CopyAction n → Prop
  | .data a => Filter.StartsEmpty cfg s.data a
  | _ => True

/-- The action neither races nor begins a cycle on staged output. -/
def Orderly (a : CopyAction n) : Prop := s.Apart a ∧ s.StartsEmpty cfg a

instance (a : CopyAction n) : Decidable (s.StartsEmpty cfg a) :=
  match a with
  | .data _ => inferInstanceAs (Decidable (Filter.StartsEmpty _ _ _))
  | .outsideEnter _ _ | .outsidePush _ _ | .destroy => inferInstanceAs (Decidable True)

instance (a : CopyAction n) : Decidable (s.Orderly cfg a) :=
  inferInstanceAs (Decidable (_ ∧ _))

end CopyState

/-- A filter from its creation to its destroy, emitting its ledger of copies. -/
def copyMachine (cfg : Fin n → PortConfig) (codec : EventCodec) :
    Machine (CopyState n) (CopyAction n) (Entry Loc) where
  Enabled := CopyState.Enabled cfg
  next := CopyState.next cfg codec
  out := CopyState.out cfg codec

instance (cfg : Fin n → PortConfig) (codec : EventCodec) (s : CopyState n) :
    ∀ a, Decidable ((copyMachine cfg codec).Enabled s a)
  | .data a =>
    have : Decidable (s.data.Enabled cfg a) :=
      inferInstanceAs (Decidable ((dataMachine cfg codec).Enabled s.data a))
    inferInstanceAs (Decidable (_ ∧ s.data.Enabled cfg a ∧ s.Inside a))
  | .outsideEnter p e =>
    inferInstanceAs (Decidable (_ ∧ s.outside = none ∧ pushEventAccepts (cfg p) e = true ∧ _))
  | .outsidePush _ _ => inferInstanceAs (Decidable (_ ∧ s.outside ≠ none ∧ Answer _ _))
  | .destroy => inferInstanceAs (Decidable (_ ∧ s.outside = none ∧ s.data.phase = .idle ∧ _))

variable {cfg : Fin n → PortConfig} {codec : EventCodec} {s : CopyState n} {a : CopyAction n}
  {b : DataAction n} {d : DataState n} {ws : List (Entry Loc)} {lost : List Loc} {l : Loc}

/-! ### One step -/

/-- The copies an action loses hold of. -/
def CopyState.dropped (cfg : Fin n → PortConfig) (s : CopyState n) : CopyAction n → List Loc
  | .data b => s.data.dropped cfg b
  | _ => []

theorem CopyState.dropped_eq_nil_iff : s.dropped cfg a = [] ↔ s.StartsEmpty cfg a := by
  cases a with
  | data b => exact Filter.dropped_eq_nil_iff
  | _ => exact ⟨fun _ => trivial, fun _ => rfl⟩

/-- The books of a filter that is not destroyed: the ledger is of the copies the ports have and of
the lost ones, and every block is accounted for. -/
structure CopyState.Books (cfg : Fin n → PortConfig) (ws : List (Entry Loc)) (lost : List Loc)
    (s : CopyState n) : Prop where
  inv : s.data.CopyInv cfg
  pushing : ∀ r ∈ s.outside, pushEventAccepts (cfg r.1) r.2 = true ∧ (cfg r.1).direction = .output
  gone : ∀ l ∈ lost, s.data.Lost l
  tracks : Tracks ws (s.data.Out lost)
  accounted : s.data.Accounted lost

theorem books_init : (CopyState.init n).Books cfg [] [] where
  inv := copyInv_init
  pushing := by simp [CopyState.init]
  gone := by simp
  tracks := by
    refine tracks_nil ?_
    rintro l (hl | ⟨p, hl⟩)
    · simp at hl
    · exact List.not_mem_nil hl
  accounted := by
    intro l hl
    cases hl

/-- What an action is to the data side can be taken there. -/
theorem dataAction_enabled (he : s.Enabled cfg a) (h : s.Books cfg ws lost)
    (hb : s.dataAction a = some b) : (dataMachine cfg codec).Enabled s.data b := by
  cases a with
  | data c =>
    obtain rfl := Option.some.inj hb
    exact he.2.1
  | outsidePush grown blk =>
    obtain ⟨r, hr, rfl⟩ := Option.map_eq_some_iff.mp hb
    obtain ⟨hacc, hdir⟩ := h.pushing r hr
    exact ⟨hacc, hdir, he.2.2⟩
  | outsideEnter p e => cases hb
  | destroy => cases hb

variable (cfg codec) in
/-- A step that is one of the data side. -/
theorem data_next (hb : s.dataAction a = some b) :
    (s.next cfg codec a).data = DataState.next cfg codec s.data b ∧
      s.out cfg codec a = s.data.copyEntries cfg codec b ∧
      s.dropped cfg a = s.data.dropped cfg b := by
  cases a with
  | data c =>
    obtain rfl := Option.some.inj hb
    exact ⟨rfl, rfl, rfl⟩
  | outsidePush grown blk =>
    obtain ⟨r, hr, rfl⟩ := Option.map_eq_some_iff.mp hb
    simp only [CopyState.next, CopyState.out, hb]
    exact ⟨trivial, trivial, rfl⟩
  | outsideEnter p e => cases hb
  | destroy => cases hb

variable (codec) in
/-- The other steps leave the data side alone, the destroy apart. -/
theorem data_kept (he : s.Enabled cfg a) (hb : s.dataAction a = none) (ha : a ≠ .destroy) :
    (s.next cfg codec a).data = s.data ∧ s.out cfg codec a = [] ∧ s.dropped cfg a = [] := by
  cases a with
  | data c => cases hb
  | outsidePush grown blk => exact absurd (Option.map_eq_none_iff.mp hb) he.2.1
  | outsideEnter p e => exact ⟨rfl, rfl, rfl⟩
  | destroy => exact absurd rfl ha

variable (codec) in
theorem pushing_next (he : s.Enabled cfg a) (h : s.Books cfg ws lost) :
    ∀ r ∈ (s.next cfg codec a).outside,
      pushEventAccepts (cfg r.1) r.2 = true ∧ (cfg r.1).direction = .output := by
  cases a with
  | outsideEnter p e =>
    intro r hr
    obtain rfl := Option.some.inj hr
    exact he.2.2
  | outsidePush grown blk =>
    intro r hr
    cases hr
  | data c | destroy => exact h.pushing

variable (codec) in
theorem books_next (he : s.Enabled cfg a) (ha : a ≠ .destroy) (h : s.Books cfg ws lost) :
    (s.next cfg codec a).Books cfg (ws ++ s.out cfg codec a) (lost ++ s.dropped cfg a) := by
  have hpushing := pushing_next codec he h
  cases hb : s.dataAction a with
  | none =>
    obtain ⟨hdata, hout, hdropped⟩ := data_kept codec he hb ha
    rw [hout, hdropped, List.append_nil, List.append_nil]
    refine ⟨?_, hpushing, ?_, ?_, ?_⟩ <;> rw [hdata]
    · exact h.inv
    · exact h.gone
    · exact h.tracks
    · exact h.accounted
  | some b =>
    obtain ⟨hdata, hout, hdropped⟩ := data_next cfg codec hb
    have hb' : (dataMachine cfg codec).Enabled s.data b := dataAction_enabled he h hb
    rw [hout, hdropped]
    refine ⟨?_, hpushing, ?_, ?_, ?_⟩ <;> rw [hdata]
    · exact copyInv_next hb' h.inv
    · intro l hl
      rcases List.mem_append.mp hl with hl | hl
      · exact lost_next h.inv.owned hb' (h.gone l hl)
      · exact dropped_lost h.inv.owned hb' hl
    · exact tracks_next h.inv hb' h.gone h.tracks
    · exact accounted_next h.inv hb' h.accounted

/-! ### The ledger is the heap's -/

/-- A block that is allocated is one the ledger owes, or a push buffer. -/
def DataState.Booked (d : DataState n) (ws : List (Entry Loc)) : Prop :=
  ∀ l, d.heap.Live l ↔ Owing ws l ∨ ∃ p, l ∈ (d.ports p).dataBlocks

theorem booked_of_books (h : s.Books cfg ws lost) : s.data.Booked ws := by
  intro l
  constructor
  · intro hlive
    rcases h.accounted l hlive with hl | ⟨p, hp⟩
    · exact Or.inl (h.tracks.owing l (Or.inl hl))
    · rw [blocks_eq] at hp
      rcases List.mem_append.mp hp with hp | hp
      · exact Or.inr ⟨p, hp⟩
      · exact Or.inl (h.tracks.owing l (Or.inr ⟨p, hp⟩))
  · rintro (howing | ⟨p, hp⟩)
    · have hout : s.data.Out lost l := by
        by_contra hno
        exact howing.not_settled (h.tracks.settled l hno)
      rcases hout with hl | ⟨p, hp⟩
      · exact (h.gone l hl).1
      · exact (h.inv.owned.owns p).live l (copies_subset _ hp)
    · refine (h.inv.owned.owns p).live l ?_
      rw [blocks_eq]
      exact List.mem_append_left _ hp

/-- What the destroy frees of a port. -/
def destroyBlocks (cfg : PortConfig) (p : PortData) : List Loc :=
  p.dataBlocks ++ given (freePortEntries cfg p)

theorem destroyPort_eq (cfg : PortConfig) (h : Heap Bytes) (p : PortData) :
    destroyPort cfg h p = h.freeAll (destroyBlocks cfg p) := by
  unfold destroyPort eventFreePort destroyBlocks freePortEntries
  split
  · simp only [given, List.filterMap_nil, List.append_nil]
    exact freeAll_freeAll
  · simp only [given_append, given_gave, eventClearPending, eventClearDelivering, freeAll_freeAll]
    rw [PortData.dataBlocks, List.append_assoc]

theorem destroyed_heap (cfg : Fin n → PortConfig) (d : DataState n) :
    (d.destroyed cfg).heap =
      d.heap.freeAll ((List.finRange n).flatMap fun p => destroyBlocks (cfg p) (d.ports p)) := by
  have hall : ∀ (ps : List (Fin n)) (h : Heap Bytes),
      ps.foldl (fun h p => destroyPort (cfg p) h (d.ports p)) h =
        h.freeAll (ps.flatMap fun p => destroyBlocks (cfg p) (d.ports p)) := by
    intro ps
    induction ps with
    | nil =>
      intro h
      exact freeAll_nil.symm
    | cons p ps ih =>
      intro h
      rw [List.foldl_cons, ih, destroyPort_eq, freeAll_freeAll, List.flatMap_cons]
  exact hall _ _

theorem mem_destroyBlocks (hi : d.CopyInv cfg) (p : Fin n) :
    l ∈ destroyBlocks (cfg p) (d.ports p) ↔ l ∈ (d.ports p).blocks := by
  unfold destroyBlocks freePortEntries
  rw [blocks_eq]
  split
  · rename_i hm
    rw [hi.plain p hm]
    rfl
  · rw [PortData.copies, given_append, given_gave, given_gave]

/-- The destroy frees the push buffers, and then what the ledger gives. -/
theorem freesGiven_destroyed (hi : d.CopyInv cfg) :
    FreesGiven d (d.destroyEntries cfg) (d.destroyed cfg).heap := by
  refine ⟨d.heap.freeAll ((List.finRange n).flatMap fun p => (d.ports p).dataBlocks), ?_, ?_⟩
  · intro l _ hn
    refine freeAll_of_notMem fun hin => ?_
    obtain ⟨p, -, hp⟩ := List.mem_flatMap.mp hin
    exact hn p hp
  · rw [destroyed_heap, freeAll_freeAll, destroyEntries_eq hi, given_gave]
    funext l
    have hmem : (l ∈ (List.finRange n).flatMap fun p => destroyBlocks (cfg p) (d.ports p)) ↔
        l ∈ ((List.finRange n).flatMap fun p => (d.ports p).dataBlocks) ++
          (List.finRange n).flatMap fun p => (d.ports p).copies := by
      simp only [List.mem_append, List.mem_flatMap, mem_destroyBlocks hi, blocks_eq]
      constructor
      · rintro ⟨p, hp, hl | hl⟩
        · exact Or.inl ⟨p, hp, hl⟩
        · exact Or.inr ⟨p, hp, hl⟩
      · rintro (⟨p, hp, hl⟩ | ⟨p, hp, hl⟩)
        · exact ⟨p, hp, Or.inl hl⟩
        · exact ⟨p, hp, Or.inr hl⟩
    by_cases hl : l ∈ (List.finRange n).flatMap fun p => destroyBlocks (cfg p) (d.ports p)
    · rw [freeAll, if_pos hl, freeAll, if_pos (hmem.mp hl)]
    · rw [freeAll, if_neg hl, freeAll, if_neg fun hin => hl (hmem.mpr hin)]

/-- After the destroy only the lost copies are owed. -/
theorem tracks_destroyed (h : s.Books cfg ws lost) :
    Tracks (ws ++ s.data.destroyEntries cfg) (· ∈ lost) := by
  have hout : ∀ l ∈ (List.finRange n).flatMap fun p => (s.data.ports p).copies,
      s.data.Out lost l := by
    intro l hl
    obtain ⟨p, -, hp⟩ := List.mem_flatMap.mp hl
    exact Or.inr ⟨p, hp⟩
  rw [destroyEntries_eq h.inv]
  refine (h.tracks.gave (portCopies_nodup h.inv.owned) hout).congr ?_
  intro l
  constructor
  · intro hl
    refine ⟨Or.inl hl, fun hin => ?_⟩
    obtain ⟨p, -, hp⟩ := List.mem_flatMap.mp hin
    exact (h.gone l hl).2 p (copies_subset _ hp)
  · rintro ⟨hl | ⟨p, hp⟩, hn⟩
    · exact hl
    · exact absurd (List.mem_flatMap.mpr ⟨p, List.mem_finRange p, hp⟩) hn

theorem booked_destroyed (h : s.Books cfg ws lost) :
    (s.data.destroyed cfg).Booked (ws ++ s.data.destroyEntries cfg) := by
  have htracks := tracks_destroyed h
  have howing : ∀ l, Owing (ws ++ s.data.destroyEntries cfg) l ↔ l ∈ lost := by
    intro l
    constructor
    · intro ho
      by_contra hn
      exact ho.not_settled (htracks.settled l hn)
    · exact htracks.owing l
  intro l
  rw [howing, destroyed_heap, live_freeAll]
  have hnone : ¬ ∃ p, l ∈ ((s.data.destroyed cfg).ports p).dataBlocks := by
    rintro ⟨p, hp⟩
    cases hp
  constructor
  · rintro ⟨hlive, hn⟩
    rcases h.accounted l hlive with hl | ⟨p, hp⟩
    · exact Or.inl hl
    · exact absurd (List.mem_flatMap.mpr
        ⟨p, List.mem_finRange p, (mem_destroyBlocks h.inv p).mpr hp⟩) hn
  · rintro (hl | hp)
    · obtain ⟨hlive, hn⟩ := h.gone l hl
      refine ⟨hlive, fun hin => ?_⟩
      obtain ⟨p, -, hp⟩ := List.mem_flatMap.mp hin
      exact hn p ((mem_destroyBlocks h.inv p).mp hp)
    · exact absurd hp hnone

/-! ### Whole runs -/

section Runs

variable {xs : List (CopyAction n)}

/-- Through a run that is not at its destroy yet the books are kept, with nothing lost exactly if
no cycle began on staged output. -/
theorem books_run (h : (copyMachine cfg codec).Valid (.init n) xs)
    (hd : ((copyMachine cfg codec).exec (.init n) xs).destroyed = false) :
    ∃ lost, ((copyMachine cfg codec).exec (.init n) xs).Books cfg
        ((copyMachine cfg codec).outs (.init n) xs) lost ∧
      (lost = [] ↔
        ((copyMachine cfg codec).restrict (CopyState.StartsEmpty cfg)).Valid (.init n) xs) := by
  refine Machine.run_induction (M := copyMachine cfg codec) (s := .init n)
    (P := fun ys => ((copyMachine cfg codec).exec (.init n) ys).destroyed = false → ∃ lost,
      ((copyMachine cfg codec).exec (.init n) ys).Books cfg
          ((copyMachine cfg codec).outs (.init n) ys) lost ∧
        (lost = [] ↔
          ((copyMachine cfg codec).restrict (CopyState.StartsEmpty cfg)).Valid (.init n) ys))
    ?_ ?_ h hd
  · intro _
    exact ⟨[], books_init, by simp⟩
  · intro ys a hys ha ih hd
    obtain ⟨lost, hbooks, hiff⟩ := ih ha.1
    rw [Machine.exec_append] at hd
    have hne : a ≠ .destroy := by
      rintro rfl
      cases hd
    refine ⟨lost ++ ((copyMachine cfg codec).exec (.init n) ys).dropped cfg a, ?_, ?_⟩
    · have hnext := books_next codec ha hne hbooks
      rw [Machine.exec_concat, Machine.outs_concat]
      exact hnext
    · rw [List.append_eq_nil_iff, hiff, CopyState.dropped_eq_nil_iff, Machine.valid_append]
      exact and_congr_right fun _ => ⟨fun hc => ⟨⟨ha, hc⟩, trivial⟩, fun hv => hv.1.2⟩

/-- Nothing has raced exactly if the data thread kept off. -/
theorem raced_iff (h : (copyMachine cfg codec).Valid (.init n) xs) :
    ((copyMachine cfg codec).exec (.init n) xs).raced = false ↔
      ((copyMachine cfg codec).restrict CopyState.Apart).Valid (.init n) xs := by
  refine Machine.run_induction (M := copyMachine cfg codec) (s := .init n)
    (P := fun ys => ((copyMachine cfg codec).exec (.init n) ys).raced = false ↔
      ((copyMachine cfg codec).restrict CopyState.Apart).Valid (.init n) ys) ?_ ?_ h
  · exact ⟨fun _ => trivial, fun _ => rfl⟩
  · intro ys a hys ha ih
    have hraced : ((copyMachine cfg codec).exec (.init n) (ys ++ [a])).raced = false ↔
        ((copyMachine cfg codec).exec (.init n) ys).raced = false ∧
          ((copyMachine cfg codec).exec (.init n) ys).Apart a := by
      rw [Machine.exec_append]
      simp [copyMachine, CopyState.next]
    rw [hraced, ih, Machine.valid_append]
    exact and_congr_right fun _ => ⟨fun hc => ⟨⟨ha, hc⟩, trivial⟩, fun hv => hv.1.2⟩

/-- At every point of a run the ledger is the heap's. -/
theorem booked_run (h : (copyMachine cfg codec).Valid (.init n) xs) :
    ((copyMachine cfg codec).exec (.init n) xs).data.Booked
      ((copyMachine cfg codec).outs (.init n) xs) := by
  rcases List.eq_nil_or_concat xs with rfl | ⟨ys, a, rfl⟩
  · have hbooks : (CopyState.init n).Books cfg [] [] := books_init
    exact booked_of_books hbooks
  · rw [List.concat_eq_append] at h ⊢
    obtain ⟨hys, ha, -⟩ := Machine.valid_append.mp h
    obtain ⟨lost, hbooks, -⟩ := books_run hys ha.1
    have hout : (copyMachine cfg codec).outs (.init n) (ys ++ [a]) =
        (copyMachine cfg codec).outs (.init n) ys ++
          ((copyMachine cfg codec).exec (.init n) ys).out cfg codec a := Machine.outs_concat
    have hexec : (copyMachine cfg codec).exec (.init n) (ys ++ [a]) =
        ((copyMachine cfg codec).exec (.init n) ys).next cfg codec a := Machine.exec_concat
    rw [hout, hexec]
    by_cases hd : a = .destroy
    · subst hd
      exact booked_destroyed hbooks
    · exact booked_of_books (books_next codec ha hd hbooks)

/-- Each step frees on the heap what the ledger gives. -/
theorem freesGiven_run {ys zs : List (CopyAction n)} {a : CopyAction n}
    (h : (copyMachine cfg codec).Valid (.init n) (ys ++ a :: zs)) :
    FreesGiven ((copyMachine cfg codec).exec (.init n) ys).data
      (((copyMachine cfg codec).exec (.init n) ys).out cfg codec a)
      (((copyMachine cfg codec).exec (.init n) ys).next cfg codec a).data.heap := by
  obtain ⟨hys, ha, -⟩ := Machine.valid_append.mp h
  obtain ⟨lost, hbooks, -⟩ := books_run hys ha.1
  by_cases hd : a = .destroy
  · subst hd
    exact freesGiven_destroyed hbooks.inv
  · cases hb : ((copyMachine cfg codec).exec (.init n) ys).dataAction a with
    | none =>
      obtain ⟨hdata, hout, -⟩ := data_kept codec ha hb hd
      rw [hdata, hout]
      exact freesGiven_nothing rfl fun _ _ _ => rfl
    | some b =>
      obtain ⟨hdata, hout, -⟩ := data_next cfg codec hb
      rw [hdata, hout]
      exact freesGiven_next (dataAction_enabled ha hbooks hb)

/-- Every copy of a pushed event is freed exactly once, at the latest by the destroy, exactly if
no cycle begins on an output event port with copies staged and none works on a port that a push
from outside the callback is under way on. What is freed is freed on the heap, and at every point
the blocks there are those still owed; and no copy is freed that a running callback may still
read. -/
theorem event_copies_freed_once_iff
    (h : (copyMachine cfg codec).Valid (.init n) (xs ++ [.destroy])) :
    ((((copyMachine cfg codec).exec (.init n) (xs ++ [.destroy])).raced = false ∧
        ∀ l, Settled ((copyMachine cfg codec).outs (.init n) (xs ++ [.destroy])) l) ↔
      ((copyMachine cfg codec).restrict (CopyState.Orderly cfg)).Valid (.init n)
        (xs ++ [.destroy])) ∧
    (∀ ys a zs, xs ++ [.destroy] = ys ++ a :: zs →
      let s := (copyMachine cfg codec).exec (.init n) ys
      (s.next cfg codec a).raced = false →
        FreesGiven s.data (s.out cfg codec a) (s.next cfg codec a).data.heap ∧
          (s.next cfg codec a).data.Booked
            ((copyMachine cfg codec).outs (.init n) ys ++ s.out cfg codec a)) ∧
    ∀ ys a zs, xs = ys ++ a :: zs →
      let s := (copyMachine cfg codec).exec (.init n) ys
      (s.next cfg codec a).raced = false → s.data.phase = .callback →
        ∀ l, .gave l ∈ s.out cfg codec a →
          ∀ p, (cfg p).mediaType = .event → (cfg p).direction = .input →
            ∀ e ∈ (s.data.ports p).incomingEvents, e.data ≠ some (.block l) := by
  refine ⟨?_, ?_, ?_⟩
  · obtain ⟨hxs, hlast, -⟩ := Machine.valid_append.mp h
    obtain ⟨lost, hbooks, hiff⟩ := books_run hxs hlast.1
    have hout : (copyMachine cfg codec).outs (.init n) (xs ++ [.destroy]) =
        (copyMachine cfg codec).outs (.init n) xs ++
          ((copyMachine cfg codec).exec (.init n) xs).data.destroyEntries cfg :=
      Machine.outs_concat
    have hsettled : (∀ l, Settled ((copyMachine cfg codec).outs (.init n) (xs ++ [.destroy])) l) ↔
        ((copyMachine cfg codec).restrict (CopyState.StartsEmpty cfg)).Valid (.init n) xs := by
      rw [hout, (tracks_destroyed hbooks).settled_iff, ← hiff]
      exact List.eq_nil_iff_forall_not_mem.symm
    rw [raced_iff h, hsettled, Machine.valid_restrict_iff, Machine.valid_restrict_iff,
      Machine.valid_restrict_iff]
    constructor
    · rintro ⟨⟨-, hapart⟩, -, hempty⟩
      refine ⟨h, fun ys a zs hsplit => ⟨hapart ys a zs hsplit, ?_⟩⟩
      rcases List.eq_nil_or_concat zs with rfl | ⟨us, b, rfl⟩
      · obtain ⟨-, hlast⟩ := List.append_inj' hsplit rfl
        obtain rfl := (List.cons.inj hlast).1
        trivial
      · refine hempty ys a us ?_
        have hsplit' : xs ++ [.destroy] = (ys ++ a :: us) ++ [b] := by simpa using hsplit
        exact (List.append_inj' hsplit' rfl).1
    · rintro ⟨-, hboth⟩
      refine ⟨⟨h, fun ys a zs hsplit => (hboth ys a zs hsplit).1⟩, hxs, ?_⟩
      rintro ys a zs rfl
      exact (hboth ys a (zs ++ [.destroy]) (by simp)).2
  · intro ys a zs hsplit s _
    rw [hsplit] at h
    refine ⟨freesGiven_run h, ?_⟩
    have hsome : ys ++ a :: zs = (ys ++ [a]) ++ zs := by simp
    rw [hsome] at h
    have hbooked := booked_run (Machine.valid_append.mp h).1
    rw [Machine.exec_concat, Machine.outs_concat] at hbooked
    exact hbooked
  · rintro ys a zs rfl s _ hc l hl p hm hd e hmem hdata
    have hvalid := (Machine.valid_append.mp h).1
    obtain ⟨hys, ha, -⟩ := Machine.valid_append.mp hvalid
    obtain ⟨lost, hbooks, -⟩ := books_run hys ha.1
    have hne : a ≠ .destroy := by
      rintro rfl
      have hidle : s.data.phase = .idle := ha.2.2.1
      rw [hc] at hidle
      cases hidle
    cases hb : s.dataAction a with
    | none =>
      rw [(data_kept codec ha hb hne).2.1] at hl
      cases hl
    | some b =>
      rw [(data_next cfg codec hb).2.1] at hl
      have hin : s.data.phase.Within p := by
        rw [hc]
        trivial
      have hblock := (hbooks.inv.events p hm hd).aliases hin e hmem l hdata
      have hlive := (hbooks.inv.owned.owns p).live l
        (copies_subset _ (List.mem_append_right _ hblock))
      have hfresh := callback_frees (dataAction_enabled ha hbooks hb) hc hl
      simp [Heap.Live, hfresh] at hlive

end Runs

/-! ### A note pushed inside the callback, and outside it -/

/-- A cycle of an output event port with a buffer, up to its callback. -/
def outputCycle : List (CopyAction 1) :=
  [.data (.beginCycle true true),
    .data (.prepare onePort (some (graphBuffer 0 5 (some 4096))) fun _ => true),
    .data .enterCallback]

/-- The rest of it. -/
def outputCycleEnd : List (CopyAction 1) :=
  [.data .leaveCallback, .data (.finish onePort), .data .endCycle]

/-- A note pushed from the callback goes out and is freed. -/
theorem event_copies_freed_once_iff_pushed_inside :
    let M := copyMachine (fun _ : Fin 1 => eventOutput) controlCodec
    let xs := outputCycle ++ [.data (.pushOutput onePort noteOn true (some 7))] ++ outputCycleEnd
    (M.exec (.init 1) (xs ++ [.destroy])).raced = false ∧
      (∀ l, Settled (M.outs (.init 1) (xs ++ [.destroy])) l) ∧
      M.outs (.init 1) (xs ++ [.destroy]) = [.took 7, .gave 7] := by
  intro M xs
  have hvalid : M.Valid (.init 1) (xs ++ [.destroy]) := by decide
  have horderly : (M.restrict (CopyState.Orderly fun _ => eventOutput)).Valid (.init 1)
      (xs ++ [.destroy]) := by decide
  obtain ⟨hraced, hsettled⟩ := (event_copies_freed_once_iff hvalid).1.mpr horderly
  exact ⟨hraced, hsettled, by decide⟩

/-- A note pushed between two cycles. -/
def outputBetween : List (CopyAction 1) :=
  outputCycle ++ outputCycleEnd ++ [.outsideEnter onePort noteOn, .outsidePush true (some 7)] ++
    outputCycle ++ outputCycleEnd

/-- It is accepted, and the second cycle forgets it. -/
theorem output_event_copy_leaks :
    let M := copyMachine (fun _ : Fin 1 => eventOutput) controlCodec
    let xs := outputBetween ++ [.destroy]
    M.Valid (.init 1) xs ∧ (M.exec (.init 1) xs).raced = false ∧
      (pushOutputEvent controlCodec (M.exec (.init 1) (outputCycle ++ outputCycleEnd)).data.heap
        ((M.exec (.init 1) (outputCycle ++ outputCycleEnd)).data.ports onePort) noteOn true
        (some 7)).2.2 = .ok ∧
      M.outs (.init 1) xs = [.took 7] ∧ (M.exec (.init 1) xs).data.heap.Live 7 ∧
      ¬ ∀ l, Settled (M.outs (.init 1) xs) l := by
  intro M xs
  have hledger : M.outs (.init 1) xs = [.took 7] := by decide
  refine ⟨by decide, by decide, by decide, hledger, by decide, fun hs => ?_⟩
  have hsettled := hs 7
  rw [hledger] at hsettled
  exact Owing.not_settled ⟨0, by decide⟩ hsettled

end TinyPipewire.Filter
