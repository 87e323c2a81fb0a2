import TinyPipewire.Stream.Routing

/-!
# The ports a call joins

A call keeps pointers to the registry entries it listed. They say what they said as long
as the array stays where it is and nothing is written into an entry still to be read.
-/

namespace TinyPipewire.Stream

/-! ### What was listed last -/

def listing : RoutingOut → Option Listing
  | .listed l => some l
  | _ => none

def lastListing (ws : List RoutingOut) : Option Listing := (ws.filterMap listing).getLast?

variable {cfg : StreamConfig} {s : RoutingState} {a : RoutingAction} {ws vs : List RoutingOut}
  {c : Wiring} {l : Listing} {reg : Registry} {n : ℕ}

theorem lastListing_append (h : ∀ w ∈ vs, listing w = none) :
    lastListing (ws ++ vs) = lastListing ws := by
  rw [lastListing, List.filterMap_append, List.filterMap_eq_nil_iff.mpr h, List.append_nil,
    lastListing]

@[simp] theorem lastListing_listed : lastListing (ws ++ [.listed l]) = some l := by
  simp [lastListing, listing]

/-- Only the listing action lists. -/
theorem lastListing_step (ha : ∀ o t ok, a ≠ .listPorts o t ok) :
    lastListing (ws ++ (s.step cfg a).2) = lastListing ws := by
  refine lastListing_append fun w hw => ?_
  have hmay := step_emits hw
  cases w with
  | listed l =>
    cases a with
    | listPorts o t ok => exact (ha o t ok rfl).elim
    | _ => simp [RoutingAction.emits, RoutingOut.ofRelease, RoutingOut.isFault] at hmay
  | _ => rfl

/-! ### Listing -/

/-- The slots are those of the node's ports in the direction, by ordinal. -/
structure Registry.Lists (reg : Registry) (nodeId : ℕ) (dir : SpaDirection) (is : List ℕ) :
    Prop where
  all : is.Perm (reg.portsOf nodeId dir)
  ordered : is.Pairwise fun i j => (reg.slots i).ordinal ≤ (reg.slots j).ordinal

/-- A call pairs each of the stream's listed ports with one of the target's. -/
structure Wiring.Pairs (c : Wiring) (l : Listing) : Prop where
  ownNode : c.ownNode = l.ownNode
  targetNode : c.targetNode = l.targetNode
  own : c.own.length = l.own.length
  peer : c.peer.length = l.peer.length
  pairs : c.pairs = l.own.length
  fits : l.own.length ≤ l.peer.length
  index : c.i < c.pairs

/-- The pointers are into the array as it is, and from the `n`-th on the call's entries still
are the ports listed. -/
structure Wiring.Current (c : Wiring) (reg : Registry) (l : Listing) (n : ℕ) : Prop where
  own : ∀ p ∈ c.own, p.gen = reg.gen
  peer : ∀ p ∈ c.peer, p.gen = reg.gen
  ownIds : ∀ j, n ≤ j → j < c.pairs → ∀ p, c.own[j]? = some p →
    l.own[j]? = some (reg.slots p.slot).id
  peerIds : ∀ j, n ≤ j → j < c.pairs → ∀ p, c.peer[j]? = some p →
    l.peer[j]? = some (reg.slots p.slot).id

theorem pairPorts_pos {nStream nTarget : ℕ} (h : (pairPorts nStream nTarget).1 ≠ 0) :
    (pairPorts nStream nTarget).1 = nStream ∧ 0 < nStream ∧ nStream ≤ nTarget := by
  unfold pairPorts at h ⊢
  split
  · rename_i hno
    simp [hno] at h
  · exact ⟨rfl, by omega, by omega⟩

theorem listPorts_lists {nodeId max : ℕ} {dir : SpaDirection}
    (h : (reg.listPorts nodeId dir max).1 ≤ max) :
    reg.Lists nodeId dir (reg.listPorts nodeId dir max).2 ∧
      (reg.listPorts nodeId dir max).2.length = (reg.listPorts nodeId dir max).1 := by
  obtain ⟨hcount, hall⟩ := reg.listPorts_spec nodeId dir max
  obtain ⟨hperm, hsorted⟩ := hall (hcount ▸ h)
  exact ⟨⟨hperm, hsorted⟩, hperm.length_eq.trans hcount.symm⟩

/-- What a listing that is paired has, and the call it starts. -/
structure RoutingState.Starts (cfg : StreamConfig) (s : RoutingState) (l : Listing) (c : Wiring) :
    Prop where
  own : ∃ is, s.registry.Lists l.ownNode cfg.ownDirection is ∧
    l.own = is.map fun i => (s.registry.slots i).id
  peer : ∃ is, s.registry.Lists l.targetNode cfg.peerDirection is ∧
    l.peer = is.map fun i => (s.registry.slots i).id
  few : l.own.length ≤ l.peer.length ∧ l.peer.length ≤ maxChannels
  pairs : c.Pairs l
  current : c.Current s.registry l 0

theorem current_ptrs {is : List ℕ} {j : ℕ} {p : PortPtr}
    (h : (is.map fun i => (⟨reg.gen, i⟩ : PortPtr))[j]? = some p) :
    (is.map fun i => (reg.slots i).id)[j]? = some (reg.slots p.slot).id := by
  rw [List.getElem?_map] at h ⊢
  obtain ⟨i, hi, rfl⟩ := Option.map_eq_some_iff.mp h
  simp [hi]

/-- The listing action ends the call, or lists what the call then pairs. -/
theorem listed_cases (cfg : StreamConfig) (s : RoutingState) (o t : ℕ) (ok : Bool) :
    ((s.listed cfg o t ok).1.call = .idle ∧
        ∃ r, (s.listed cfg o t ok).2 = [.returned r]) ∨
      ∃ l c, l.ownNode = o ∧ l.targetNode = t ∧
        (s.listed cfg o t ok).1.call = .wiring c ∧ c.i = 0 ∧
        (s.listed cfg o t ok).1.registry = s.registry ∧
        (s.listed cfg o t ok).2 = [.listed l] ∧ s.Starts cfg l c := by
  unfold RoutingState.listed
  dsimp only
  split
  · exact Or.inl ⟨rfl, _, rfl⟩
  · rename_i hfits
    obtain ⟨hown, hpeer, hpairs⟩ : _ ∧ _ ∧ _ := by simpa only [not_or, not_lt] using hfits
    split
    · exact Or.inl ⟨rfl, _, rfl⟩
    · obtain ⟨hownList, hownLen⟩ := listPorts_lists hown
      obtain ⟨hpeerList, hpeerLen⟩ := listPorts_lists hpeer
      obtain ⟨heq, hpos, hle⟩ := pairPorts_pos hpairs
      refine Or.inr ⟨_, _, rfl, rfl, rfl, rfl, rfl, rfl, ⟨_, hownList, rfl⟩,
        ⟨_, hpeerList, rfl⟩, ?_, ?_, ?_⟩
      · simpa [hownLen, hpeerLen] using ⟨hle, hpeer⟩
      · exact ⟨rfl, rfl, by simp, by simp, by simpa [hownLen] using heq,
          by simpa [hownLen, hpeerLen] using hle, by simpa [heq] using hpos⟩
      · refine ⟨by simp, by simp, fun j _ _ p hp => current_ptrs hp,
          fun j _ _ p hp => current_ptrs hp⟩

/-! ### What a call has still to read -/

/-- The call, and the first link it has still to request; one that failed reads no more. -/
def LinkCall.reading : LinkCall → Option (Wiring × ℕ)
  | .wiring c => some (c, c.i)
  | .waiting c => some (c, c.i + 1)
  | .waited c r => if r = .ok then some (c, c.i + 1) else none
  | .idle | .lookup _ => none

/-- The entries of the links from the `n`-th on. -/
def Wiring.unread (c : Wiring) (n : ℕ) : List PortPtr :=
  c.own.drop n ++ (c.peer.take c.pairs).drop n

namespace Registry

variable (reg)

/-- The slot an event writes another entry to. -/
def written : RoutingAction → Option ℕ
  | .portAdded _ grown named =>
    if (reg.nPorts = reg.capacity ∧ grown = false) ∨ named = false then none
    else some reg.nPorts
  | .globalRemoved id => (reg.findSlot id).filter (· + 1 ≠ reg.nPorts)
  | _ => none

/-- The event moves the array. -/
def reallocates : RoutingAction → Bool
  | .portAdded _ grown _ => reg.nPorts == reg.capacity && grown
  | _ => false

/-- The registry after an action. -/
def after : RoutingAction → Registry
  | .nodeAdded id => reg.addNode id
  | .portAdded e grown named => reg.addPort e grown named
  | .globalRemoved id => reg.globalRemove id
  | _ => reg

variable {reg}

theorem grow_slots : reg.grow.slots = reg.slots := by
  unfold grow
  split <;> rfl

theorem after_gen (h : reg.reallocates a = false) : (reg.after a).gen = reg.gen := by
  cases a with
  | portAdded e grown named =>
    have hroom : ¬ (reg.nPorts = reg.capacity ∧ grown = false) → reg.nPorts ≠ reg.capacity := by
      intro hno hfull
      cases grown <;> simp_all [reallocates]
    simp only [after, addPort]
    split
    · rfl
    · rename_i hno
      split <;> simp [grow, hroom hno]
  | globalRemoved id =>
    simp only [after, globalRemove]
    split <;> rfl
  | _ => rfl

/-- Only the slot that is written changes. -/
theorem after_slots {i : ℕ} (h : i ∉ reg.written a) : (reg.after a).slots i = reg.slots i := by
  cases a with
  | portAdded e grown named =>
    simp only [after, addPort]
    split
    · rfl
    · rename_i hroom
      split
      · rw [grow_slots]
      · rename_i hnamed
        have hi : i ≠ reg.nPorts := by
          rintro rfl
          simp [written, hroom, hnamed] at h
        exact Function.update_of_ne hi ..
  | globalRemoved id =>
    simp only [after, globalRemove]
    split
    · rename_i j hj
      by_cases hi : i = j
      · subst hi
        have hlast : i + 1 = reg.nPorts := by simpa [written, hj] using h
        simp [← hlast]
      · exact Function.update_of_ne hi ..
    · rfl
  | _ => rfl

end Registry

theorem registry_step : (s.step cfg a).1.registry = s.registry.after a := by
  cases a with
  | linkEnter inCallback =>
    simp only [RoutingState.step]
    split <;> rfl
  | listPorts ownNode targetNode allocated =>
    simp only [RoutingState.step, RoutingState.listed]
    split
    · rfl
    · split <;> rfl
  | requestLink props created junk =>
    simp only [RoutingState.step]
    split
    · simp only [RoutingState.linkOne]
      split
      · rfl
      · split
        · rfl
        · split <;> rfl
    · rfl
  | resumeLink timedOut =>
    simp only [RoutingState.step]
    split
    · simp only [RoutingState.resumed]
      split <;> rfl
    · rfl
  | recordLink =>
    simp only [RoutingState.step]
    split
    · simp only [RoutingState.recorded]
      split
      · rfl
      · split
        · rfl
        · split <;> rfl
    · rfl
  | info id i =>
    simp only [RoutingState.step, RoutingState.informed]
    split
    · rfl
    · split
      · rfl
      · split <;> rfl
  | globalRemoved id => exact (globalRemoved_keeps id).2.2
  | sourceLost => exact sourceLost_keeps.2.2
  | callbackStop | stop =>
    simp only [RoutingState.step]
    split <;> rfl
  | _ => rfl

/-- While a call has ports to read, the array is not moved and no entry of a link it has still
to request is written over. -/
def RoutingState.PortsKept (s : RoutingState) (a : RoutingAction) : Prop :=
  ∀ r ∈ s.call.reading, s.registry.reallocates a = false ∧
    ∀ i ∈ s.registry.written a, ∀ p ∈ r.1.unread r.2, p.slot ≠ i

instance : DecidablePred s.PortsKept := fun _ =>
  inferInstanceAs (Decidable (∀ r ∈ s.call.reading, _ ∧ ∀ i ∈ _, ∀ p ∈ _, _))

theorem reading_published {k : LinkCall} (h : k.reading = some (c, n)) :
    k.published = some c := by
  cases k with
  | waited d r =>
    by_cases hr : r = .ok
    · simp only [LinkCall.reading, if_pos hr, Option.some.injEq, Prod.mk.injEq] at h
      simp [LinkCall.published, h.1]
    · simp [LinkCall.reading, hr] at h
  | wiring d | waiting d =>
    simp only [LinkCall.reading, Option.some.injEq, Prod.mk.injEq] at h
    simp [LinkCall.published, h.1]
  | idle | lookup k => simp [LinkCall.reading] at h

theorem moves_published {k k' : LinkCall} {c' : Wiring} (h : LinkCall.Moves a k k')
    (hc : k'.published = some c') : ∃ c, k.published = some c ∧
      (c' = c ∨ c.i + 1 < c.pairs ∧ c' = { c with i := c.i + 1 }) := by
  cases h with
  | stays => exact ⟨c', hc, Or.inl rfl⟩
  | ends _ _ hnone => simp [hnone] at hc
  | requests _ _ _ c | fails _ _ _ c _ | resumes _ c _ =>
    exact ⟨c, rfl, Or.inl (Option.some.inj hc).symm⟩
  | goesOn c hnext => exact ⟨c, rfl, Or.inr ⟨hnext, (Option.some.inj hc).symm⟩⟩

/-- A call reads on in the same arrays, and never back. -/
theorem moves_reading {k k' : LinkCall} {c' : Wiring} {n' : ℕ} (h : LinkCall.Moves a k k')
    (hc : k'.reading = some (c', n')) : ∃ c n, k.reading = some (c, n) ∧ c'.own = c.own ∧
      c'.peer = c.peer ∧ c'.pairs = c.pairs ∧ n ≤ n' := by
  cases h with
  | stays => exact ⟨c', n', hc, rfl, rfl, rfl, le_rfl⟩
  | ends _ _ hnone => simp [reading_published hc] at hnone
  | requests _ _ _ c =>
    obtain ⟨rfl, rfl⟩ := Prod.mk.inj (Option.some.inj hc)
    exact ⟨c, c.i, rfl, rfl, rfl, rfl, Nat.le_succ _⟩
  | fails _ _ _ c hr => simp [LinkCall.reading, hr] at hc
  | resumes _ c r =>
    by_cases hr : r = .ok
    · obtain ⟨rfl, rfl⟩ : c = c' ∧ c.i + 1 = n' := by simpa [LinkCall.reading, hr] using hc
      exact ⟨c, c.i + 1, rfl, rfl, rfl, rfl, le_rfl⟩
    · simp [LinkCall.reading, hr] at hc
  | goesOn c hnext =>
    obtain ⟨rfl, rfl⟩ := Prod.mk.inj (Option.some.inj hc)
    exact ⟨c, c.i + 1, rfl, rfl, rfl, rfl, le_rfl⟩

/-! ### The pointers of a call -/

/-- What a call has published pairs what was listed last. -/
def RoutingState.Paired (ws : List RoutingOut) (s : RoutingState) : Prop :=
  ∀ c, s.call.published = some c → ∃ l, lastListing ws = some l ∧ c.Pairs l

structure RoutingState.Reads (ws : List RoutingOut) (s : RoutingState) : Prop where
  paired : s.Paired ws
  current : ∀ c n l, s.call.reading = some (c, n) → lastListing ws = some l →
    c.Current s.registry l n
  unharmed : .fault .ports ∉ ws

theorem pairs_next (h : c.Pairs l) (hnext : c.i + 1 < c.pairs) :
    Wiring.Pairs { c with i := c.i + 1 } l :=
  ⟨h.ownNode, h.targetNode, h.own, h.peer, h.pairs, h.fits, hnext⟩

theorem paired_next (he : s.Enabled a) (h : s.Paired ws) :
    (s.step cfg a).1.Paired (ws ++ (s.step cfg a).2) := by
  by_cases ha : ∃ o t ok, a = .listPorts o t ok
  · obtain ⟨o, t, ok, rfl⟩ := ha
    rcases listed_cases cfg s o t ok with
      ⟨hcall, -⟩ | ⟨l, c, -, -, hcall, -, -, hout, hstarts⟩
    · intro c hc
      simp [RoutingState.step, hcall, LinkCall.published] at hc
    · intro c' hc
      obtain rfl : c = c' := by simpa [RoutingState.step, hcall, LinkCall.published] using hc
      exact ⟨l, by simp [RoutingState.step, hout], hstarts.pairs⟩
  · have ha' : ∀ o t ok, a ≠ .listPorts o t ok := fun o t ok he => ha ⟨o, t, ok, he⟩
    intro c' hc
    rw [lastListing_step ha']
    obtain ⟨c, hold, rfl | ⟨hnext, rfl⟩⟩ := moves_published (call_moves he ha') hc
    · exact h c' hold
    · obtain ⟨l, hl, hpairs⟩ := h c hold
      exact ⟨l, hl, pairs_next hpairs hnext⟩

theorem readPort_current {ports : List PortPtr} {i junk : ℕ} {p : PortPtr}
    (hp : ports[i]? = some p) (hgen : ∀ p ∈ ports, p.gen = reg.gen) :
    readPort reg ports i junk = ((reg.slots p.slot).id, []) := by
  simp [readPort, hp, hgen p (List.mem_of_getElem? hp)]

theorem exists_getElem? {α : Type} (ps : List α) {i : ℕ} (h : i < ps.length) :
    ∃ p, ps[i]? = some p :=
  ⟨ps[i], List.getElem?_eq_getElem h⟩

theorem linkOne_reads {props created : Bool} {junk : ℕ × ℕ} {o p : PortPtr}
    (ho : c.own[c.i]? = some o) (hp : c.peer[c.i]? = some p)
    (hcur : c.Current s.registry l n) {w : RoutingOut}
    (hw : w ∈ (s.linkOne cfg c props created junk).2) : w = .fault .links ∨
      w = .requested s.mem.nextProxy c.i (linkProps cfg c.ownNode c.targetNode
        (s.registry.slots o.slot).id (s.registry.slots p.slot).id) := by
  simp only [RoutingState.linkOne, readPort_current ho hcur.own, readPort_current hp hcur.peer]
    at hw
  split at hw
  · exact Or.inl (by simpa [LinkMemory.touchFreed] using hw)
  · split at hw
    · simp at hw
    · split at hw
      · simp at hw
      · exact Or.inr (by simpa using hw)

theorem recorded_reads {r : PwfError} (hpairs : c.Pairs l)
    (hcur : r = .ok → c.Current s.registry l n) : .fault .ports ∉ (s.recorded c r).2 := by
  have hread : ∀ i < c.peer.length, r = .ok →
      (readPort s.registry c.peer i 0).2 = [] := by
    intro i hi hr
    obtain ⟨p, hp⟩ := exists_getElem? c.peer hi
    rw [readPort_current hp (hcur hr).peer]
  have hindex : c.i < c.peer.length := by
    have hi := hpairs.index
    have hn := hpairs.pairs
    have hle := hpairs.fits
    have hlen := hpairs.peer
    omega
  intro hmem
  simp only [RoutingState.recorded] at hmem
  split at hmem
  · simp [RoutingState.withMemory, LinkMemory.touchFreed] at hmem
  · split at hmem
    · rcases List.mem_append.mp hmem with hmem | hmem
      · simpa [RoutingOut.ofRelease] using releaseLinks_emits hmem
      · simp at hmem
    · rename_i hr
      rw [hread c.i hindex (not_not.mp hr)] at hmem
      split at hmem
      · simp at hmem
      · split at hmem
        · rename_i hsurplus
          rw [hread c.pairs hsurplus (not_not.mp hr)] at hmem
          simp at hmem
        · simp at hmem

/-- What a call that is before link `c.i` reads. -/
theorem reads_at (h : s.Reads ws) (hc : s.call = .wiring c) : ∃ l o p,
    lastListing ws = some l ∧ c.Pairs l ∧ c.Current s.registry l c.i ∧
      c.own[c.i]? = some o ∧ c.peer[c.i]? = some p := by
  obtain ⟨l, hl, hpairs⟩ := h.paired c (by simp [hc, LinkCall.published])
  have hi := hpairs.index
  have hn := hpairs.pairs
  have hle := hpairs.fits
  have hown := hpairs.own
  have hpeer := hpairs.peer
  obtain ⟨o, ho⟩ := exists_getElem? c.own (by omega : c.i < _)
  obtain ⟨p, hp⟩ := exists_getElem? c.peer (by omega : c.i < _)
  exact ⟨l, o, p, hl, hpairs, h.current c c.i l (by simp [hc, LinkCall.reading]) hl, ho, hp⟩

theorem step_unharmed (he : s.Enabled a) (h : s.Reads ws) :
    .fault .ports ∉ (s.step cfg a).2 := by
  intro hmem
  have hmay := step_emits hmem
  cases a with
  | requestLink props created junk =>
    obtain ⟨c, hc⟩ := RoutingState.requests_call he.2
    obtain ⟨l, o, p, -, -, hcur, ho, hp⟩ := reads_at h hc
    simp only [RoutingState.step, hc] at hmem
    rcases linkOne_reads ho hp hcur hmem with hw | hw <;> simp at hw
  | recordLink =>
    obtain ⟨c, r, hc⟩ := RoutingState.records_call he.2
    obtain ⟨l, hl, hpairs⟩ := h.paired c (by simp [hc, LinkCall.published])
    simp only [RoutingState.step, hc] at hmem
    have hcur : r = .ok → c.Current s.registry l (c.i + 1) := by
      intro hr
      exact h.current c (c.i + 1) l (by simp [hc, hr, LinkCall.reading]) hl
    exact recorded_reads hpairs hcur hmem
  | _ => simp [RoutingAction.emits, RoutingOut.ofRelease] at hmay

/-- An event that keeps the entries a call has to read keeps what they say. -/
theorem current_after (hc : s.call.reading = some (c, n)) (hk : s.PortsKept a)
    (h : c.Current s.registry l n) : c.Current (s.registry.after a) l n := by
  obtain ⟨hgen, hwritten⟩ := hk (c, n) hc
  have hgen := Registry.after_gen hgen
  have hslot : ∀ p ∈ c.unread n,
      (s.registry.after a).slots p.slot = s.registry.slots p.slot :=
    fun p hp => Registry.after_slots fun hi => hwritten _ hi p hp rfl
  refine ⟨fun p hp => (h.own p hp).trans hgen.symm, fun p hp => (h.peer p hp).trans hgen.symm,
    fun j hn hj p hp => ?_, fun j hn hj p hp => ?_⟩
  · have hmem : p ∈ c.own.drop n := by
      refine List.mem_of_getElem? (i := j - n) ?_
      rw [List.getElem?_drop, Nat.add_sub_cancel' hn]
      exact hp
    rw [hslot p (List.mem_append_left _ hmem)]
    exact h.ownIds j hn hj p hp
  · have hmem : p ∈ (c.peer.take c.pairs).drop n := by
      refine List.mem_of_getElem? (i := j - n) ?_
      rw [List.getElem?_drop, Nat.add_sub_cancel' hn, List.getElem?_take_of_lt hj]
      exact hp
    rw [hslot p (List.mem_append_right _ hmem)]
    exact h.peerIds j hn hj p hp

theorem current_mono {c' : Wiring} {n' : ℕ} (hown : c'.own = c.own) (hpeer : c'.peer = c.peer)
    (hpairs : c'.pairs = c.pairs) (hn : n ≤ n') (h : c.Current reg l n) :
    c'.Current reg l n' where
  own := hown ▸ h.own
  peer := hpeer ▸ h.peer
  ownIds := fun j hj hlt p hp => h.ownIds j (hn.trans hj) (hpairs ▸ hlt) p (hown ▸ hp)
  peerIds := fun j hj hlt p hp => h.peerIds j (hn.trans hj) (hpairs ▸ hlt) p (hpeer ▸ hp)

theorem reads_next (he : s.Enabled a) (hk : s.PortsKept a) (h : s.Reads ws) :
    (s.step cfg a).1.Reads (ws ++ (s.step cfg a).2) := by
  refine ⟨paired_next he h.paired, fun c' n' l hc hl => ?_, ?_⟩
  · rw [registry_step]
    by_cases ha : ∃ o t ok, a = .listPorts o t ok
    · obtain ⟨o, t, ok, rfl⟩ := ha
      rcases listed_cases cfg s o t ok with
        ⟨hcall, -⟩ | ⟨l', c, -, -, hcall, hzero, -, hout, hstarts⟩
      · simp [RoutingState.step, hcall, LinkCall.reading] at hc
      · obtain ⟨rfl, rfl⟩ : c = c' ∧ c.i = n' := by
          simpa [RoutingState.step, hcall, LinkCall.reading] using hc
        obtain rfl : l' = l := by simpa [RoutingState.step, hout] using hl
        rw [hzero]
        exact hstarts.current
    · have ha' : ∀ o t ok, a ≠ .listPorts o t ok := fun o t ok he => ha ⟨o, t, ok, he⟩
      rw [lastListing_step ha'] at hl
      obtain ⟨c, n, hold, hown, hpeer, hpairs, hn⟩ := moves_reading (call_moves he ha') hc
      exact current_mono hown hpeer hpairs hn (current_after hold hk (h.current c n l hold hl))
  · intro hmem
    rcases List.mem_append.mp hmem with hmem | hmem
    · exact h.unharmed hmem
    · exact step_unharmed he h hmem

/-! ### Whole runs -/

theorem reads_run {xs : List RoutingAction}
    (h : ((routingMachine cfg).restrict RoutingState.PortsKept).Valid .init xs) :
    ((routingMachine cfg).exec .init xs).Reads ((routingMachine cfg).outs .init xs) := by
  refine Machine.history_restrict (P := fun ws s => s.Reads ws) ⟨?_, ?_, by simp⟩
    (fun _ _ _ he hk h => reads_next he hk h) h
  · intro c hc
    simp [RoutingState.init, LinkCall.published] at hc
  · intro c n l hc
    simp [RoutingState.init, LinkCall.reading] at hc

theorem listed_step (h : .listed l ∈ (s.step cfg a).2) : ∃ c, s.Starts cfg l c := by
  have hmay := step_emits h
  cases a with
  | listPorts o t ok =>
    rcases listed_cases cfg s o t ok with
      ⟨-, r, hout⟩ | ⟨l', c, -, -, -, -, -, hout, hstarts⟩
    · simp [RoutingState.step, hout] at h
    · obtain rfl : l = l' := by simpa [RoutingState.step, hout] using h
      exact ⟨c, hstarts⟩
  | _ => simp [RoutingAction.emits, RoutingOut.ofRelease, RoutingOut.isFault] at hmay

/-- Link `i` is requested for what was listed `i`-th on both sides. -/
theorem requested_step {id i : ℕ} {props : LinkProps} (he : s.Enabled a) (h : s.Reads ws)
    (hreq : .requested id i props ∈ (s.step cfg a).2) : ∃ l o p, lastListing ws = some l ∧
      l.own[i]? = some o ∧ l.peer[i]? = some p ∧
      props = linkProps cfg l.ownNode l.targetNode o p := by
  have hmay := step_emits hreq
  cases a with
  | requestLink made created junk =>
    obtain ⟨c, hc⟩ := RoutingState.requests_call he.2
    obtain ⟨l, o, p, hl, hpairs, hcur, ho, hp⟩ := reads_at h hc
    simp only [RoutingState.step, hc] at hreq
    rcases linkOne_reads ho hp hcur hreq with hw | hw
    · simp at hw
    · obtain ⟨-, rfl, rfl⟩ := RoutingOut.requested.inj hw
      refine ⟨l, _, _, hl, hcur.ownIds c.i le_rfl hpairs.index o ho,
        hcur.peerIds c.i le_rfl hpairs.index p hp, ?_⟩
      rw [hpairs.ownNode, hpairs.targetNode]
  | _ => simp [RoutingAction.emits, RoutingOut.ofRelease, RoutingOut.isFault] at hmay

theorem links_join_listed_ports {xs : List RoutingAction}
    (h : ((routingMachine cfg).restrict RoutingState.PortsKept).Valid .init (xs ++ [a])) :
    let M := routingMachine cfg
    let s := M.exec .init xs
    let ws := M.outs .init xs
    .fault .ports ∉ M.outs .init (xs ++ [a]) ∧
      (∀ l, .listed l ∈ M.out s a →
        (∃ is, s.registry.Lists l.ownNode cfg.ownDirection is ∧
          l.own = is.map fun i => (s.registry.slots i).id) ∧
        (∃ is, s.registry.Lists l.targetNode cfg.peerDirection is ∧
          l.peer = is.map fun i => (s.registry.slots i).id) ∧
        l.own.length ≤ l.peer.length ∧ l.peer.length ≤ maxChannels) ∧
      ∀ id i props, .requested id i props ∈ M.out s a → ∃ l o p, lastListing ws = some l ∧
        l.own[i]? = some o ∧ l.peer[i]? = some p ∧
        props = linkProps cfg l.ownNode l.targetNode o p := by
  intro M s ws
  have hs : s.Reads ws := reads_run (Machine.valid_append.mp h).1
  have he : s.Enabled a := (Machine.valid_append.mp (Machine.valid_of_restrict h)).2.1
  refine ⟨(reads_run h).unharmed, fun l hl => ?_, fun id i props hreq => ?_⟩
  · obtain ⟨c, hstarts⟩ := listed_step hl
    exact ⟨hstarts.own, hstarts.peer, hstarts.few⟩
  · exact requested_step he hs hreq

/-- A port of another client comes while the first link is waited for. -/
def portAmid : List RoutingAction :=
  captureGraph ++ requestFirst ++ [.portAdded ⟨99, 30, .output, 0⟩ true true] ++ firstUp

theorem links_join_listed_ports_port_amid :
    let M := routingMachine wiredCapture
    let a := RoutingAction.requestLink true true (0, 0)
    let s := M.exec .init portAmid
    let ws := M.outs .init portAmid
    .fault .ports ∉ M.outs .init (portAmid ++ [a]) ∧
      (∀ l, .listed l ∈ M.out s a →
        (∃ is, s.registry.Lists l.ownNode wiredCapture.ownDirection is ∧
          l.own = is.map fun i => (s.registry.slots i).id) ∧
        (∃ is, s.registry.Lists l.targetNode wiredCapture.peerDirection is ∧
          l.peer = is.map fun i => (s.registry.slots i).id) ∧
        l.own.length ≤ l.peer.length ∧ l.peer.length ≤ maxChannels) ∧
      ∀ id i props, .requested id i props ∈ M.out s a → ∃ l o p, lastListing ws = some l ∧
        l.own[i]? = some o ∧ l.peer[i]? = some p ∧
        props = linkProps wiredCapture l.ownNode l.targetNode o p :=
  links_join_listed_ports (by decide)

/-- While the first link is waited for a port of another client goes, and one comes: the last
entry, which the second link is to read, is written over, and the link joins the stranger. -/
theorem link_joins_stranger :
    let M := routingMachine wiredCapture
    let a := RoutingAction.requestLink true true (0, 0)
    let xs := [.nodeAdded 30, .portAdded ⟨31, 30, .output, 0⟩ true true] ++ captureGraph ++
      requestFirst ++ [.globalRemoved 31, .portAdded ⟨99, 30, .output, 0⟩ true true] ++ firstUp
    M.Valid .init (xs ++ [a]) ∧ lastListing (M.outs .init xs) = some ⟨10, 20, [12, 11], [21, 22]⟩ ∧
      M.out (M.exec .init xs) a = [.requested 1 1 ⟨20, 99, 10, 11⟩] := by
  decide

end TinyPipewire.Stream
