import TinyPipewire.Stream.Pairing

/-!
# Wiring by ordinal

What one `pwf_stream_link` requests and returns, in every order of its steps with the reports of
its links and with what else happens to the stream, as long as the registry stays as it is, every
link comes up and nobody else touches the links. It waits for the ports its format asks for, and
for as long as they are not all there it is not wired.
-/

namespace TinyPipewire.Stream

/-- The slots of the node's ports in the direction, the lowest ordinal first. -/
structure Registry.Ranked (reg : Registry) (nodeId : ℕ) (dir : SpaDirection) (is : List ℕ) :
    Prop where
  all : is.Perm (reg.portsOf nodeId dir)
  ordered : is.Pairwise fun i j => (reg.slots i).ordinal < (reg.slots j).ordinal

/-- The call finds these nodes, its links come up, and the registry and the links are left to
it. -/
def RoutingState.LeftAlone (ownNode targetNode : ℕ) (s : RoutingState) : RoutingAction → Prop
  | .awaitOwnPorts nodeId => nodeId = some ownNode
  | .listPorts o t allocated => o = ownNode ∧ t = targetNode ∧ allocated = true
  | .requestLink props created _ => props = true ∧ created = true
  | .resumeLink timedOut => timedOut = false
  | .info id i => i.state ≠ .error ∧ ∀ l j, s.mem.proxies id = some (l, j) → s.mem.links = some l
  | .linkEnter _ | .linkLookupFailed _ | .nodeAdded _ | .portAdded _ _ _ | .globalRemoved _
  | .callbackUnlink | .unlink => False
  | .ownPortsTimeout | .recordLink | .sourceLost | .callbackStop | .callbackStart
  | .callbackReturn | .start | .stop => True

/-- A call to link to the node passes its checks. -/
structure RoutingState.CanLink (cfg : StreamConfig) (s : RoutingState) (targetNode : ℕ) :
    Prop where
  idle : s.call = .idle
  accepted : linkRefusal cfg s false = none
  sound : s.mem.faulted = false
  target : targetNode ∈ s.registry.nodes

def RoutingOut.request : RoutingOut → Option LinkProps
  | .requested _ _ props => some props
  | _ => none

def RoutingOut.result : RoutingOut → Option PwfError
  | .returned r => some r
  | _ => none

/-- The actions of a call that starts here, and of what happens meanwhile. -/
def RoutingState.CallRun (cfg : StreamConfig) (s : RoutingState) (ownNode targetNode : ℕ)
    (xs : List RoutingAction) : Prop :=
  (routingMachine cfg).Enabled s (.linkEnter false) ∧
    ((routingMachine cfg).restrict (RoutingState.LeftAlone ownNode targetNode)).Valid
      ((routingMachine cfg).next s (.linkEnter false)) xs

/-- What is seen of it. -/
def RoutingState.callOuts (cfg : StreamConfig) (s : RoutingState) (xs : List RoutingAction) :
    List RoutingOut :=
  (routingMachine cfg).outs s (.linkEnter false :: xs)

/-- Every run of the call that has returned returned `r` once and requested just these links, in
this order, and every run can go on to where the call returns. -/
structure RoutingState.CallGives (cfg : StreamConfig) (s : RoutingState)
    (ownNode targetNode : ℕ) (r : PwfError) (links : List LinkProps) : Prop where
  only : ∀ xs, s.CallRun cfg ownNode targetNode xs →
    (s.callOuts cfg xs).filterMap RoutingOut.result ≠ [] →
      (s.callOuts cfg xs).filterMap RoutingOut.result = [r] ∧
        (s.callOuts cfg xs).filterMap RoutingOut.request = links
  returns : ∀ xs, s.CallRun cfg ownNode targetNode xs → ∃ ys,
    s.CallRun cfg ownNode targetNode (xs ++ ys) ∧
      (s.callOuts cfg (xs ++ ys)).filterMap RoutingOut.result ≠ []

/-- The `i`-th own port with the `i`-th of the target. -/
def joined (cfg : StreamConfig) (reg : Registry) (ownNode targetNode : ℕ) (own peer : List ℕ) :
    List LinkProps :=
  List.zipWith (fun i j => linkProps cfg ownNode targetNode (reg.slots i).id (reg.slots j).id)
    own peer

variable {cfg : StreamConfig} {s : RoutingState} {reg : Registry} {ownNode targetNode : ℕ}
  {own peer : List ℕ} {a : RoutingAction} {ws : List RoutingOut} {c : Wiring} {dir : SpaDirection}

/-! ### What is listed -/

theorem Registry.Ranked.listPorts (h : reg.Ranked ownNode dir own) :
    (reg.listPorts ownNode dir maxChannels).1 = own.length ∧
      (own.length ≤ maxChannels → (reg.listPorts ownNode dir maxChannels).2 = own) := by
  obtain ⟨hcount, hall⟩ := reg.listPorts_spec ownNode dir maxChannels
  have hlen := h.all.length_eq
  refine ⟨hcount.trans hlen.symm, ?_⟩
  intro hle
  obtain ⟨hperm, hsorted⟩ := hall (by omega)
  have hdiff : (own.map fun i => (reg.slots i).ordinal).Nodup :=
    List.pairwise_map.mpr (h.ordered.imp Nat.ne_of_lt)
  refine (hperm.trans h.all.symm).eq_of_pairwise ?_ hsorted (h.ordered.imp Nat.le_of_lt)
  intro i j hi hj hij hji
  have hi : i ∈ own := h.all.mem_iff.mpr (hperm.mem_iff.mp hi)
  exact List.inj_on_of_nodup_map hdiff hi hj (Nat.le_antisymm hij hji)

/-- The wait for the own ports is over when there are as many as the format asks for. -/
theorem awaitOwnPorts_ranked (hown : s.registry.Ranked ownNode cfg.ownDirection own) :
    s.awaitOwnPorts cfg (some ownNode) =
      if cfg.expectedPorts ≤ own.length then .located ownNode else .awaiting := by
  have hcount : (s.registry.listPorts ownNode cfg.ownDirection 0).1 = own.length :=
    (s.registry.listPorts_spec ownNode cfg.ownDirection 0).1.trans hown.all.length_eq.symm
  simp only [RoutingState.awaitOwnPorts, hcount]

/-- Too many ports on either side, or too few of the target, and the call is refused. -/
theorem listed_refused (hown : s.registry.Ranked ownNode cfg.ownDirection own)
    (hpeer : s.registry.Ranked targetNode cfg.peerDirection peer)
    (h : maxChannels < own.length ∨ maxChannels < peer.length ∨ peer.length < own.length)
    (allocated : Bool) :
    s.listed cfg ownNode targetNode allocated =
      ({ s with call := .idle }, [.returned .invalidArg]) := by
  unfold RoutingState.listed
  dsimp only
  rw [hown.listPorts.1, hpeer.listPorts.1]
  apply if_pos
  rcases h with h | h | h
  · exact Or.inl h
  · exact Or.inr (Or.inl h)
  · refine Or.inr (Or.inr ?_)
    rw [pairPorts, if_pos (Or.inr h)]

/-- The call as the listing starts it. -/
def firstWiring (s : RoutingState) (ownNode targetNode : ℕ) (own peer : List ℕ) : Wiring :=
  ⟨s.mem.nextSet, 0, own.length, ownNode, targetNode, own.map fun i => ⟨s.registry.gen, i⟩,
    peer.map fun i => ⟨s.registry.gen, i⟩⟩

theorem listed_starts (hown : s.registry.Ranked ownNode cfg.ownDirection own)
    (hpeer : s.registry.Ranked targetNode cfg.peerDirection peer) (hpos : own ≠ [])
    (hle : own.length ≤ peer.length) (hmax : peer.length ≤ maxChannels) :
    s.listed cfg ownNode targetNode true =
      ({ s with
          mem := s.mem.publish own.length targetNode
          call := .wiring (firstWiring s ownNode targetNode own peer) },
        [.listed ⟨ownNode, targetNode, own.map fun i => (s.registry.slots i).id,
          peer.map fun i => (s.registry.slots i).id⟩]) := by
  have hlen := List.length_pos_of_ne_nil hpos
  have hpairs : (pairPorts own.length peer.length).1 = own.length := by
    rw [pairPorts, if_neg (by omega)]
  unfold RoutingState.listed
  dsimp only
  rw [hown.listPorts.1, hpeer.listPorts.1, hown.listPorts.2 (by omega), hpeer.listPorts.2 hmax,
    hpairs, if_neg (by omega), if_neg (by simp)]
  rfl

/-! ### How far the call is -/

/-- What comes of the call: a link for each own port, a refusal, or no end of the wait for its
own ports but the last. -/
inductive Outcome (cfg : StreamConfig) (reg : Registry) (ownNode targetNode : ℕ)
    (own peer : List ℕ) : PwfError → List LinkProps → Prop
  | wired (ready : cfg.expectedPorts ≤ own.length) (le : own.length ≤ peer.length)
      (max : peer.length ≤ maxChannels) :
    Outcome cfg reg ownNode targetNode own peer .ok (joined cfg reg ownNode targetNode own peer)
  | refused (ready : cfg.expectedPorts ≤ own.length)
      (h : maxChannels < own.length ∨ maxChannels < peer.length ∨ peer.length < own.length) :
    Outcome cfg reg ownNode targetNode own peer .invalidArg []
  | unready (h : own.length < cfg.expectedPorts) :
    Outcome cfg reg ownNode targetNode own peer .timeout []

/-- How far the look-ups are of a call that comes to `r`. -/
def Lookup.Stands (ownNode : ℕ) (r : PwfError) : Lookup → Prop
  | .binding => True
  | .awaiting => r = .timeout
  | .located node => node = ownNode ∧ r ≠ .timeout

/-- The call pairs these ports. -/
structure Wiring.Joins (c : Wiring) (reg : Registry) (ownNode targetNode : ℕ)
    (own peer : List ℕ) : Prop where
  ownPtrs : c.own = own.map fun i => ⟨reg.gen, i⟩
  peerPtrs : c.peer = peer.map fun i => ⟨reg.gen, i⟩
  pairs : c.pairs = own.length
  index : c.i < own.length
  nodes : c.ownNode = ownNode ∧ c.targetNode = targetNode

/-- The set of the call is the stream's. -/
structure LinkMemory.Carries (m : LinkMemory) (c : Wiring) : Prop where
  links : m.links = some c.set
  set : ∃ set, m.sets c.set = some set ∧ set.links.length = c.pairs

/-- The link that is waited for has a proxy and did not fail. -/
def LinkMemory.Awaits (m : LinkMemory) (c : Wiring) : Prop :=
  ∃ set k id, m.sets c.set = some set ∧ set.links[c.i]? = some k ∧ k.lost = false ∧
    m.proxies id = some (c.set, c.i)

/-- The call at one of its links: this is the call's, and so many are requested. -/
structure Wiring.Amid (c : Wiring) (reg : Registry) (ownNode targetNode : ℕ) (own peer : List ℕ)
    (r : PwfError) (links : List LinkProps) (ws : List RoutingOut) (m : LinkMemory) (n : ℕ) :
    Prop where
  joins : c.Joins reg ownNode targetNode own peer
  carries : m.Carries c
  ok : r = .ok
  requests : ws.filterMap RoutingOut.request = links.take n
  results : ws.filterMap RoutingOut.result = []

/-- What a call has requested and returned where it is. -/
def LinkCall.Done (reg : Registry) (ownNode targetNode : ℕ) (own peer : List ℕ) (r : PwfError)
    (links : List LinkProps) (ws : List RoutingOut) (m : LinkMemory) : LinkCall → Prop
  | .idle => ws.filterMap RoutingOut.request = links ∧ ws.filterMap RoutingOut.result = [r]
  | .lookup k => ws.filterMap RoutingOut.request = [] ∧ ws.filterMap RoutingOut.result = [] ∧
    m.links = none ∧ k.Stands ownNode r
  | .wiring c => c.Amid reg ownNode targetNode own peer r links ws m c.i
  | .waiting c => c.Amid reg ownNode targetNode own peer r links ws m (c.i + 1) ∧ m.Awaits c
  | .waited c r' => c.Amid reg ownNode targetNode own peer r links ws m (c.i + 1) ∧ r' = .ok

/-- The state of a call that goes its way. -/
structure RoutingState.GoesOn (reg : Registry) (ownNode targetNode : ℕ) (own peer : List ℕ)
    (r : PwfError) (links : List LinkProps) (ws : List RoutingOut) (s : RoutingState) : Prop where
  registry : s.registry = reg
  sound : s.call ≠ .idle → s.mem.faulted = false
  done : s.call.Done reg ownNode targetNode own peer r links ws s.mem

variable {r : PwfError} {links : List LinkProps} {vs : List RoutingOut} {m : LinkMemory} {n : ℕ}

theorem Wiring.Amid.more (h : c.Amid reg ownNode targetNode own peer r links ws m n)
    (hreq : vs.filterMap RoutingOut.request = []) (hres : vs.filterMap RoutingOut.result = []) :
    c.Amid reg ownNode targetNode own peer r links (ws ++ vs) m n where
  joins := h.joins
  carries := h.carries
  ok := h.ok
  requests := by rw [List.filterMap_append, hreq, List.append_nil, h.requests]
  results := by rw [List.filterMap_append, hres, List.append_nil, h.results]

/-- What neither moves the call nor touches the links keeps all. -/
theorem LinkCall.Done.more {k : LinkCall}
    (h : k.Done reg ownNode targetNode own peer r links ws m)
    (hreq : vs.filterMap RoutingOut.request = []) (hres : vs.filterMap RoutingOut.result = []) :
    k.Done reg ownNode targetNode own peer r links (ws ++ vs) m := by
  cases k with
  | idle | lookup k =>
    simp only [LinkCall.Done, List.filterMap_append, hreq, hres, List.append_nil]
    exact h
  | wiring c => exact Wiring.Amid.more h hreq hres
  | waiting c => exact ⟨Wiring.Amid.more h.1 hreq hres, h.2⟩
  | waited c r' => exact ⟨Wiring.Amid.more h.1 hreq hres, h.2⟩

theorem filterMap_request_nil (h : ∀ w ∈ vs, w.request = none) :
    vs.filterMap RoutingOut.request = [] := List.filterMap_eq_nil_iff.mpr h

theorem filterMap_result_nil (h : ∀ w ∈ vs, w.result = none) :
    vs.filterMap RoutingOut.result = [] := List.filterMap_eq_nil_iff.mpr h

/-- Only these actions request or return. -/
theorem step_silent (hreq : ∀ p q j, a ≠ .requestLink p q j) (hlist : ∀ o t k, a ≠ .listPorts o t k)
    (hrec : a ≠ .recordLink) (hfail : ∀ r, a ≠ .linkLookupFailed r) (hwait : a ≠ .ownPortsTimeout) :
    (s.step cfg a).2.filterMap RoutingOut.request = [] ∧
      (s.step cfg a).2.filterMap RoutingOut.result = [] := by
  have hboth : ∀ w ∈ (s.step cfg a).2, w.request = none ∧ w.result = none := by
    intro w hw
    have hmay := step_emits hw
    cases w with
    | requested id i props =>
      cases a with
      | requestLink p q j => exact absurd rfl (hreq p q j)
      | linkLookupFailed r => exact absurd rfl (hfail r)
      | _ => simp [RoutingAction.emits, RoutingOut.ofRelease, RoutingOut.isFault] at hmay
    | returned r =>
      cases a with
      | requestLink p q j => exact absurd rfl (hreq p q j)
      | listPorts o t k => exact absurd rfl (hlist o t k)
      | recordLink => exact absurd rfl hrec
      | linkLookupFailed r => exact absurd rfl (hfail r)
      | ownPortsTimeout => exact absurd rfl hwait
      | _ => simp [RoutingAction.emits, RoutingOut.ofRelease] at hmay
    | _ => exact ⟨rfl, rfl⟩
  exact ⟨filterMap_request_nil fun w hw => (hboth w hw).1,
    filterMap_result_nil fun w hw => (hboth w hw).2⟩

theorem readPort_silent (reg : Registry) (ports : List PortPtr) (i junk : ℕ) :
    (readPort reg ports i junk).2.filterMap RoutingOut.request = [] ∧
      (readPort reg ports i junk).2.filterMap RoutingOut.result = [] := by
  have hfault : ∀ w ∈ (readPort reg ports i junk).2, w = .fault .ports := fun w => readPort_emits
  constructor
  · exact filterMap_request_nil fun w hw => by rw [hfault w hw]; rfl
  · exact filterMap_result_nil fun w hw => by rw [hfault w hw]; rfl

/-! ### The steps of the call -/

/-- The wait for the own ports ends at once, or not before its time is over. -/
theorem goesOn_await (ho : Outcome cfg reg ownNode targetNode own peer r links)
    (hown : reg.Ranked ownNode cfg.ownDirection own) (he : s.awaits = true)
    (h : s.GoesOn reg ownNode targetNode own peer r links ws) :
    (s.step cfg (.awaitOwnPorts (some ownNode))).1.GoesOn reg ownNode targetNode own peer r links
      ws := by
  obtain ⟨rfl, hsound, hdone⟩ := h
  have hbusy : s.mem.faulted = false ∧ ws.filterMap RoutingOut.request = [] ∧
      ws.filterMap RoutingOut.result = [] ∧ s.mem.links = none := by
    rcases (RoutingState.awaits_call he).1 with hc | hc
    · rw [hc] at hdone
      exact ⟨hsound (by simp [hc]), hdone.1, hdone.2.1, hdone.2.2.1⟩
    · rw [hc] at hdone
      exact ⟨hsound (by simp [hc]), hdone.1, hdone.2.1, hdone.2.2.1⟩
  obtain ⟨hfine, hreq, hres, hlinks⟩ := hbusy
  refine ⟨rfl, fun _ => hfine, ?_⟩
  have hstands : (s.awaitOwnPorts cfg (some ownNode)).Stands ownNode r := by
    rw [awaitOwnPorts_ranked hown]
    cases ho with
    | wired hready _ _ | refused hready _ =>
      rw [if_pos hready]
      exact ⟨rfl, by simp⟩
    | unready hfew =>
      rw [if_neg (by omega)]
      rfl
  exact ⟨hreq, hres, hlinks, hstands⟩

theorem goesOn_timeout (ho : Outcome cfg reg ownNode targetNode own peer r links)
    (hc : s.call = .lookup .awaiting) (h : s.GoesOn reg ownNode targetNode own peer r links ws) :
    (s.step cfg .ownPortsTimeout).1.GoesOn reg ownNode targetNode own peer r links
      (ws ++ (s.step cfg .ownPortsTimeout).2) := by
  obtain ⟨rfl, hsound, hdone⟩ := h
  rw [hc] at hdone
  obtain ⟨hreq, hres, -, hr⟩ := hdone
  obtain rfl : r = .timeout := hr
  cases ho with
  | unready hfew =>
    refine ⟨rfl, fun hne => absurd rfl hne, ?_, ?_⟩
    · rw [List.filterMap_append, hreq]
      rfl
    · rw [List.filterMap_append, hres]
      rfl

theorem goesOn_list (ho : Outcome cfg reg ownNode targetNode own peer r links)
    (hown : reg.Ranked ownNode cfg.ownDirection own)
    (hpeer : reg.Ranked targetNode cfg.peerDirection peer) {node : ℕ}
    (hc : s.call = .lookup (.located node))
    (h : s.GoesOn reg ownNode targetNode own peer r links ws) :
    (s.listed cfg ownNode targetNode true).1.GoesOn reg ownNode targetNode own peer r links
      (ws ++ (s.listed cfg ownNode targetNode true).2) := by
  obtain ⟨rfl, hsound, hdone⟩ := h
  rw [hc] at hdone
  obtain ⟨hreq, hres, -, -, hr⟩ := hdone
  cases ho with
  | unready hfew => exact absurd rfl hr
  | wired hready hle hmax =>
    have hlen : 0 < own.length := cfg.expectedPorts_pos.trans_le hready
    rw [listed_starts hown hpeer (List.ne_nil_of_length_pos hlen) hle hmax]
    refine ⟨rfl, fun _ => hsound (by simp [hc]), ?_, ?_, rfl, ?_, ?_⟩
    · exact ⟨rfl, rfl, rfl, hlen, rfl, rfl⟩
    · refine ⟨rfl, _, Function.update_self .., ?_⟩
      exact List.length_replicate
    · rw [List.filterMap_append, hreq]
      rfl
    · rw [List.filterMap_append, hres]
      rfl
  | refused hready hrefused =>
    rw [listed_refused hown hpeer hrefused]
    refine ⟨rfl, fun hne => absurd rfl hne, ?_, ?_⟩
    · rw [List.filterMap_append, hreq]
      rfl
    · rw [List.filterMap_append, hres]
      rfl

/-- The pointers of the call read the ports it pairs. -/
theorem Wiring.Joins.read (h : c.Joins reg ownNode targetNode own peer)
    (hi : c.i < own.length) (hpi : c.i < peer.length) (junk : ℕ × ℕ) :
    readPort reg c.own c.i junk.1 = ((reg.slots own[c.i]).id, []) ∧
      readPort reg c.peer c.i junk.2 = ((reg.slots peer[c.i]).id, []) := by
  constructor
  · refine readPort_current (p := ⟨reg.gen, own[c.i]⟩) ?_ ?_
    · simp [h.ownPtrs, hi]
    · intro p hp
      rw [h.ownPtrs] at hp
      obtain ⟨i, -, rfl⟩ := List.mem_map.mp hp
      rfl
  · refine readPort_current (p := ⟨reg.gen, peer[c.i]⟩) ?_ ?_
    · simp [h.peerPtrs, hpi]
    · intro p hp
      rw [h.peerPtrs] at hp
      obtain ⟨i, -, rfl⟩ := List.mem_map.mp hp
      rfl

theorem goesOn_request (ho : Outcome cfg reg ownNode targetNode own peer r links)
    (hc : s.call = .wiring c) (junk : ℕ × ℕ)
    (h : s.GoesOn reg ownNode targetNode own peer r links ws) :
    (s.linkOne cfg c true true junk).1.GoesOn reg ownNode targetNode own peer r links
      (ws ++ (s.linkOne cfg c true true junk).2) := by
  obtain ⟨rfl, hsound, hdone⟩ := h
  rw [hc] at hdone
  have hdone : c.Amid s.registry ownNode targetNode own peer r links ws s.mem c.i := hdone
  cases ho with
  | refused hready hrefused => cases hdone.ok
  | unready hfew => cases hdone.ok
  | wired hready hle hmax =>
    obtain ⟨set, hset, hlen⟩ := hdone.carries.set
    have hi := hdone.joins.index
    have hpi : c.i < peer.length := by omega
    obtain ⟨hreadOwn, hreadPeer⟩ := hdone.joins.read hi hpi junk
    have hlink : (joined cfg s.registry ownNode targetNode own peer)[c.i]? =
        some (linkProps cfg c.ownNode c.targetNode (s.registry.slots own[c.i]).id
          (s.registry.slots peer[c.i]).id) := by
      obtain ⟨hnode, htarget⟩ := hdone.joins.nodes
      rw [joined, List.getElem?_zipWith, List.getElem?_eq_getElem hi,
        List.getElem?_eq_getElem hpi, hnode, htarget]
    have hone : s.linkOne cfg c true true junk =
        ({ s with mem := s.mem.createProxy c.set c.i set, call := .waiting c },
          [.requested s.mem.nextProxy c.i (linkProps cfg c.ownNode c.targetNode
            (s.registry.slots own[c.i]).id (s.registry.slots peer[c.i]).id)]) := by
      simp only [RoutingState.linkOne, hreadOwn, hreadPeer, hset]
      rfl
    rw [hone]
    refine ⟨rfl, fun _ => hsound (by simp [hc]), ⟨hdone.joins, ?_, hdone.ok, ?_, ?_⟩, ?_⟩
    · refine ⟨hdone.carries.links, _, Function.update_self .., ?_⟩
      simpa using hlen
    · rw [List.filterMap_append, hdone.requests, List.take_add_one, hlink]
      rfl
    · rw [List.filterMap_append, hdone.results]
      rfl
    · have hik : c.i < set.links.length := by
        have hpairs := hdone.joins.pairs
        omega
      exact ⟨_, ⟨some s.mem.nextProxy, false, false⟩, s.mem.nextProxy, Function.update_self ..,
        by simp [hik], rfl, Function.update_self ..⟩

theorem goesOn_resume (hc : s.call = .waiting c)
    (h : s.GoesOn reg ownNode targetNode own peer r links ws) :
    (s.resumed c false).1.GoesOn reg ownNode targetNode own peer r links
      (ws ++ (s.resumed c false).2) := by
  obtain ⟨rfl, hsound, hdone⟩ := h
  rw [hc] at hdone
  obtain ⟨hamid, set, k, id, hset, hk, hlost, -⟩ := hdone
  have hresult : RoutingState.waitResult ((set.links[c.i]?).getD .zeroed) false = .ok := by
    simp [RoutingState.waitResult, hk, hlost]
  have hresumed : s.resumed c false = ({ s with call := .waited c .ok }, []) := by
    simp only [RoutingState.resumed, hset, hresult]
  rw [hresumed]
  exact ⟨rfl, fun _ => hsound (by simp [hc]), hamid.more rfl rfl, rfl⟩

theorem goesOn_record (ho : Outcome cfg reg ownNode targetNode own peer r links) {r' : PwfError}
    (hc : s.call = .waited c r') (h : s.GoesOn reg ownNode targetNode own peer r links ws) :
    (s.recorded c r').1.GoesOn reg ownNode targetNode own peer r links
      (ws ++ (s.recorded c r').2) := by
  obtain ⟨rfl, hsound, hdone⟩ := h
  rw [hc] at hdone
  obtain ⟨hamid, rfl⟩ := hdone
  obtain ⟨set, hset, hlen⟩ := hamid.carries.set
  have hpairs := hamid.joins.pairs
  have hi := hamid.joins.index
  have hfirst := readPort_silent s.registry c.peer c.i 0
  unfold RoutingState.recorded
  rw [hset]
  dsimp only
  rw [if_neg (by simp)]
  by_cases hnext : c.i + 1 < c.pairs
  · rw [if_pos hnext]
    refine ⟨rfl, fun _ => hsound (by simp [hc]), ?_, ?_, hamid.ok, ?_, ?_⟩
    · exact ⟨hamid.joins.ownPtrs, hamid.joins.peerPtrs, hpairs, by simpa [hpairs] using hnext,
        hamid.joins.nodes⟩
    · exact ⟨hamid.carries.links, _, Function.update_self .., hlen⟩
    · rw [List.filterMap_append, hfirst.1, List.append_nil, hamid.requests]
    · rw [List.filterMap_append, hfirst.2, List.append_nil, hamid.results]
  · rw [if_neg hnext]
    have hsurplus : (if c.pairs < c.peer.length then (readPort s.registry c.peer c.pairs 0).2
        else []).filterMap RoutingOut.request = [] ∧
        (if c.pairs < c.peer.length then (readPort s.registry c.peer c.pairs 0).2
        else []).filterMap RoutingOut.result = [] := by
      split
      · exact readPort_silent ..
      · exact ⟨rfl, rfl⟩
    have hall : links.length ≤ c.i + 1 := by
      cases ho with
      | refused _ _ | unready _ => exact Nat.zero_le _
      | wired hready hle hmax =>
        rw [joined, List.length_zipWith]
        omega
    refine ⟨rfl, fun hne => absurd rfl hne, ?_, ?_⟩
    · rw [List.filterMap_append, List.filterMap_append, List.filterMap_append, hfirst.1,
        hsurplus.1, hamid.requests, List.take_of_length_le hall]
      simp [RoutingOut.request]
    · rw [List.filterMap_append, List.filterMap_append, List.filterMap_append, hfirst.2,
        hsurplus.2, hamid.results, hamid.ok]
      rfl

theorem Wiring.Amid.carried {m' : LinkMemory}
    (h : c.Amid reg ownNode targetNode own peer r links ws m n) (hm : m'.Carries c) :
    c.Amid reg ownNode targetNode own peer r links ws m' n where
  joins := h.joins
  carries := hm
  ok := h.ok
  requests := h.requests
  results := h.results

theorem LinkMemory.Carries.known {l : ℕ} (h : m.Carries c) (hl : m.links = some l) :
    l = c.set ∧ ∃ set, m.sets l = some set := by
  obtain rfl : l = c.set := Option.some.inj (hl.symm.trans h.links)
  obtain ⟨set, hset, -⟩ := h.set
  exact ⟨rfl, set, hset⟩

/-- The set of the stream is allocated while a call goes on. -/
theorem LinkCall.Done.known {k : LinkCall} {l : ℕ}
    (h : k.Done reg ownNode targetNode own peer r links ws m) (hk : k ≠ .idle)
    (hl : m.links = some l) : ∃ set, m.sets l = some set := by
  cases k with
  | idle => exact absurd rfl hk
  | lookup k => exact absurd (h.2.2.1.symm.trans hl) (by simp)
  | wiring c => exact (Wiring.Amid.carries h).known hl |>.2
  | waiting c | waited c r' => exact (h.1.carries.known hl).2

/-- A call goes on over links that are as good. -/
theorem LinkCall.Done.kept {k : LinkCall} {m' : LinkMemory}
    (h : k.Done reg ownNode targetNode own peer r links ws m) (hl : m'.links = m.links)
    (hcarries : ∀ c, m.Carries c → m'.Carries c)
    (hawaits : ∀ c, m.Carries c → m.Awaits c → m'.Awaits c) :
    k.Done reg ownNode targetNode own peer r links ws m' := by
  cases k with
  | idle => exact h
  | lookup k => exact ⟨h.1, h.2.1, hl.trans h.2.2.1, h.2.2.2⟩
  | wiring c => exact Wiring.Amid.carried h (hcarries c (Wiring.Amid.carries h))
  | waiting c =>
    exact ⟨h.1.carried (hcarries c h.1.carries), hawaits c h.1.carries h.2⟩
  | waited c r' => exact ⟨h.1.carried (hcarries c h.1.carries), h.2⟩

/-- A report is written into the set of the stream, and into no other. -/
theorem informed_cases {id : ℕ} {i : PwLinkInfo}
    (hu : s.LeftAlone ownNode targetNode (.info id i)) :
    (s.informed id i).1 = s ∨ ∃ l, s.mem.links = some l ∧
      ((s.mem.sets l = none ∧ (s.informed id i).1 = { s with mem := s.mem.touchFreed.1 }) ∨
        ∃ set j, s.mem.sets l = some set ∧
          (s.informed id i).1 = { s with
            mem := s.mem.setSet l { set with
              links := set.links.set j
                (linkOnInfo ((set.links[j]?).getD .zeroed) i.state) } }) := by
  unfold RoutingState.informed
  split
  · exact Or.inl rfl
  · cases hproxy : s.mem.proxies id with
    | none => exact Or.inl rfl
    | some at' =>
      obtain ⟨l, j⟩ := at'
      refine Or.inr ⟨l, hu.2 l j hproxy, ?_⟩
      cases hset : s.mem.sets l with
      | none =>
        left
        simp only [hset]
        exact ⟨trivial, rfl⟩
      | some set =>
        right
        refine ⟨set, j, rfl, ?_⟩
        simp only [hset]

theorem LinkMemory.Carries.reported {set : LinkSet} {j : ℕ} {k : StreamLink} (h : m.Carries c)
    (hset : m.sets c.set = some set) :
    (m.setSet c.set { set with links := set.links.set j k }).Carries c := by
  obtain ⟨set', hset', hlen⟩ := h.set
  obtain rfl : set = set' := Option.some.inj (hset.symm.trans hset')
  exact ⟨h.links, _, Function.update_self .., by simpa using hlen⟩

theorem LinkMemory.Awaits.reported {set : LinkSet} {j : ℕ} {st : PwLinkState} (h : m.Awaits c)
    (hset : m.sets c.set = some set) (hst : st ≠ .error) :
    (m.setSet c.set { set with
      links := set.links.set j (linkOnInfo ((set.links[j]?).getD .zeroed) st) }).Awaits c := by
  obtain ⟨set', k, id, hset', hk, hlost, hid⟩ := h
  obtain rfl : set = set' := Option.some.inj (hset.symm.trans hset')
  by_cases hj : j = c.i
  · subst hj
    obtain ⟨hlt, hget⟩ := List.getElem?_eq_some_iff.mp hk
    refine ⟨_, linkOnInfo k st, id, Function.update_self .., ?_, ?_, hid⟩
    · simp [hlt, hget]
    · rw [linkOnInfo_lost hst]
      exact hlost
  · refine ⟨_, k, id, Function.update_self .., ?_, hlost, hid⟩
    rw [← hk]
    exact List.getElem?_set_ne hj

/-- A report that is no error leaves the call where it is. -/
theorem goesOn_info {id : ℕ} {i : PwLinkInfo} (hu : s.LeftAlone ownNode targetNode (.info id i))
    (h : s.GoesOn reg ownNode targetNode own peer r links ws) :
    (s.step cfg (.info id i)).1.GoesOn reg ownNode targetNode own peer r links
      (ws ++ (s.step cfg (.info id i)).2) := by
  obtain ⟨rfl, hsound, hdone⟩ := h
  have hsilent : _ ∧ (s.step cfg (.info id i)).2.filterMap RoutingOut.result = [] :=
    step_silent (by simp) (by simp) (by simp) (by simp) (by simp)
  have hmore := hdone.more hsilent.1 hsilent.2
  simp only [RoutingState.step] at hmore ⊢
  rcases informed_cases hu with hsame | ⟨l, hl, ⟨hset, hnew⟩ | ⟨set, j, hset, hnew⟩⟩
  · rw [hsame]
    exact ⟨rfl, hsound, hmore⟩
  · have hidle : s.call = .idle := by
      by_contra hk
      obtain ⟨set, hset'⟩ := hdone.known hk hl
      exact absurd (hset.symm.trans hset') (by simp)
    rw [hnew]
    rw [hidle] at hmore
    refine ⟨rfl, fun hne => absurd hidle hne, ?_⟩
    change LinkCall.Done _ _ _ _ _ _ _ _ _ s.call
    rw [hidle]
    exact hmore
  · rw [hnew]
    refine ⟨rfl, hsound, hmore.kept rfl ?_ ?_⟩
    · intro c hc
      obtain rfl := (hc.known hl).1
      exact hc.reported hset
    · intro c hc hawaits
      obtain rfl := (hc.known hl).1
      exact hawaits.reported hset hu.1

/-- What keeps the call, the links and the registry and says nothing of the call. -/
theorem goesOn_kept {t : RoutingState}
    (h : s.GoesOn reg ownNode targetNode own peer r links ws) (hcall : t.call = s.call)
    (hmem : t.mem = s.mem) (hreg : t.registry = s.registry)
    (hreq : vs.filterMap RoutingOut.request = [])
    (hres : vs.filterMap RoutingOut.result = []) :
    t.GoesOn reg ownNode targetNode own peer r links (ws ++ vs) := by
  obtain ⟨hr, hsound, hdone⟩ := h
  refine ⟨hreg.trans hr, ?_, ?_⟩
  · rw [hcall, hmem]
    exact hsound
  · rw [hcall, hmem]
    exact hdone.more hreq hres

theorem goesOn_step (ho : Outcome cfg reg ownNode targetNode own peer r links)
    (hown : reg.Ranked ownNode cfg.ownDirection own)
    (hpeer : reg.Ranked targetNode cfg.peerDirection peer) (he : s.Enabled a)
    (hu : s.LeftAlone ownNode targetNode a)
    (h : s.GoesOn reg ownNode targetNode own peer r links ws) :
    (s.step cfg a).1.GoesOn reg ownNode targetNode own peer r links (ws ++ (s.step cfg a).2) := by
  cases a with
  | awaitOwnPorts nodeId =>
    obtain rfl : nodeId = some ownNode := hu
    rw [show (s.step cfg (.awaitOwnPorts (some ownNode))).2 = [] from rfl, List.append_nil]
    exact goesOn_await ho hown he.2 h
  | ownPortsTimeout => exact goesOn_timeout ho he.2.1 h
  | listPorts o t allocated =>
    obtain ⟨rfl, rfl, rfl⟩ := hu
    exact goesOn_list ho hown hpeer he.2.1 h
  | requestLink props created junk =>
    obtain ⟨rfl, rfl⟩ := hu
    obtain ⟨c, hc⟩ := RoutingState.requests_call he.2
    simp only [RoutingState.step, hc]
    exact goesOn_request ho hc junk h
  | resumeLink timedOut =>
    obtain rfl := hu
    obtain ⟨c, hc, -⟩ := RoutingState.resumes_call he.2
    simp only [RoutingState.step, hc]
    exact goesOn_resume hc h
  | recordLink =>
    obtain ⟨c, r', hc⟩ := RoutingState.records_call he.2
    simp only [RoutingState.step, hc]
    exact goesOn_record ho hc h
  | info id i => exact goesOn_info hu h
  | sourceLost =>
    obtain ⟨hreq, hres⟩ : _ ∧ (s.step cfg .sourceLost).2.filterMap RoutingOut.result = [] :=
      step_silent (by simp) (by simp) (by simp) (by simp) (by simp)
    obtain ⟨hcall, hmem, hreg⟩ : (s.sourceLost cfg).1.call = s.call ∧ _ := sourceLost_keeps
    exact goesOn_kept h hcall hmem hreg hreq hres
  | callbackStop | stop =>
    refine goesOn_kept h ?_ ?_ ?_ rfl rfl
    all_goals
      simp only [RoutingState.step]
      split <;> rfl
  | callbackStart | callbackReturn | start => exact goesOn_kept h rfl rfl rfl rfl rfl
  | linkEnter _ | linkLookupFailed _ | nodeAdded _ | portAdded _ _ _ | globalRemoved _
  | callbackUnlink | unlink => exact hu.elim

/-- Before it lists, a call has requested and returned nothing. -/
theorem goesOn_entered (hs : s.CanLink cfg targetNode) :
    (s.step cfg (.linkEnter false)).1.GoesOn s.registry ownNode targetNode own peer r links
      (s.step cfg (.linkEnter false)).2 := by
  have hlinks : s.mem.links = none := by
    have haccepted := hs.accepted
    unfold linkRefusal at haccepted
    cases hl : s.mem.links with
    | none => rfl
    | some l => simp [hl] at haccepted
  simp only [RoutingState.step, hs.accepted]
  exact ⟨rfl, fun _ => hs.sound, rfl, rfl, hlinks, trivial⟩

theorem goesOn_run (hs : s.CanLink cfg targetNode)
    (hown : s.registry.Ranked ownNode cfg.ownDirection own)
    (hpeer : s.registry.Ranked targetNode cfg.peerDirection peer)
    (ho : Outcome cfg s.registry ownNode targetNode own peer r links) {xs : List RoutingAction}
    (hrun : s.CallRun cfg ownNode targetNode xs) :
    ((routingMachine cfg).exec s (.linkEnter false :: xs)).GoesOn s.registry ownNode targetNode
      own peer r links (s.callOuts cfg xs) := by
  have hquiet : (routingMachine cfg).out s (.linkEnter false) = [] := by
    change (s.step cfg (.linkEnter false)).2 = []
    simp only [RoutingState.step, hs.accepted]
  have hentered : RoutingState.GoesOn s.registry ownNode targetNode own peer r links
      [] ((routingMachine cfg).next s (.linkEnter false)) := by
    rw [← hquiet]
    exact goesOn_entered hs
  have hdone := Machine.history_restrict (P := RoutingState.GoesOn s.registry ownNode targetNode
    own peer r links) hentered (fun ws t a he hu ht => goesOn_step ho hown hpeer he hu ht) hrun.2
  rw [RoutingState.callOuts, Machine.outs_cons, hquiet, List.nil_append]
  exact hdone

/-! ### The call comes back -/

/-- How far the call is from its return; each link takes its request, its report, its wait and
its count. -/
def RoutingState.ahead (n : ℕ) (s : RoutingState) : ℕ :=
  match s.call with
  | .idle => 0
  | .lookup .binding => 5 * n + 2
  | .lookup _ => 5 * n + 1
  | .wiring c => 5 * (n - c.i)
  | .waiting c => if s.waitOver c then 5 * (n - c.i) - 2 else 5 * (n - c.i) - 1
  | .waited c _ => 5 * (n - c.i) - 3

/-- An error callback that runs has to return first. -/
def RoutingState.toGo (n : ℕ) (s : RoutingState) : ℕ := s.ahead n + s.inErrorCb.toNat

theorem ahead_over (hover : s.waitOver c = true) (hc : s.call = .waiting c) :
    s.ahead n = 5 * (n - c.i) - 2 := by
  simp only [RoutingState.ahead, hc, hover, if_true]

theorem ahead_waiting (hover : s.waitOver c = false) (hc : s.call = .waiting c) :
    s.ahead n = 5 * (n - c.i) - 1 := by
  simp only [RoutingState.ahead, hc, hover, Bool.false_eq_true, if_false]

/-- The call looks for its ports once; what comes next is another step. -/
theorem advance_await (hc : s.call = .lookup .binding) (nodeId : Option ℕ) :
    (s.step cfg (.awaitOwnPorts nodeId)).1.ahead n < s.ahead n ∧
      (s.step cfg (.awaitOwnPorts nodeId)).1.inErrorCb = s.inErrorCb := by
  have hbefore : s.ahead n = 5 * n + 2 := by simp only [RoutingState.ahead, hc]
  have hafter : (s.step cfg (.awaitOwnPorts nodeId)).1.ahead n = 5 * n + 1 := by
    simp only [RoutingState.step, RoutingState.awaitOwnPorts]
    split
    · split <;> rfl
    · rfl
  exact ⟨by omega, rfl⟩

theorem advance_list (ho : Outcome cfg s.registry ownNode targetNode own peer r links)
    (hown : s.registry.Ranked ownNode cfg.ownDirection own)
    (hpeer : s.registry.Ranked targetNode cfg.peerDirection peer) {node : ℕ}
    (hc : s.call = .lookup (.located node)) (hr : r ≠ .timeout) :
    (s.listed cfg ownNode targetNode true).1.ahead own.length < s.ahead own.length ∧
      (s.listed cfg ownNode targetNode true).1.inErrorCb = s.inErrorCb := by
  have hbefore : s.ahead own.length = 5 * own.length + 1 := by simp only [RoutingState.ahead, hc]
  rw [hbefore]
  cases ho with
  | unready hfew => exact absurd rfl hr
  | wired hready hle hmax =>
    have hlen : 0 < own.length := cfg.expectedPorts_pos.trans_le hready
    rw [listed_starts hown hpeer (List.ne_nil_of_length_pos hlen) hle hmax]
    refine ⟨?_, rfl⟩
    simp only [RoutingState.ahead, firstWiring]
    omega
  | refused hready hrefused =>
    rw [listed_refused hown hpeer hrefused]
    refine ⟨?_, rfl⟩
    simp only [RoutingState.ahead]
    omega

theorem advance_request (hi : c.i < own.length) (hc : s.call = .wiring c)
    (hcarries : s.mem.Carries c) :
    (s.linkOne cfg c true true (0, 0)).1.ahead own.length < s.ahead own.length ∧
      (s.linkOne cfg c true true (0, 0)).1.inErrorCb = s.inErrorCb := by
  obtain ⟨set, hset, -⟩ := hcarries.set
  have hbefore : s.ahead own.length = 5 * (own.length - c.i) := by
    simp only [RoutingState.ahead, hc]
  have hone : (s.linkOne cfg c true true (0, 0)).1 =
      { s with mem := s.mem.createProxy c.set c.i set, call := .waiting c } := by
    simp only [RoutingState.linkOne, hset]
    rfl
  rw [hone, hbefore]
  refine ⟨?_, rfl⟩
  simp only [RoutingState.ahead]
  split <;> omega

theorem advance_info {id : ℕ} (hi : c.i < own.length) (hc : s.call = .waiting c)
    (hover : s.waitOver c = false) {set : LinkSet} {k : StreamLink}
    (hset : s.mem.sets c.set = some set) (hk : set.links[c.i]? = some k)
    (hid : s.mem.proxies id = some (c.set, c.i)) :
    (s.informed id ⟨true, .active⟩).1.ahead own.length < s.ahead own.length ∧
      (s.informed id ⟨true, .active⟩).1.inErrorCb = s.inErrorCb := by
  obtain ⟨hlt, hget⟩ := List.getElem?_eq_some_iff.mp hk
  have hnew : (s.informed id ⟨true, .active⟩).1 = { s with
      mem := s.mem.setSet c.set { set with
        links := set.links.set c.i { k with seenActive := true } } } := by
    simp [RoutingState.informed, hid, hset, hk, linkOnInfo]
  have hup : RoutingState.waitOver { s with
      mem := s.mem.setSet c.set { set with
        links := set.links.set c.i { k with seenActive := true } } } c = true := by
    simp [RoutingState.waitOver, LinkMemory.setSet, hlt]
  rw [hnew, ahead_over hup hc, ahead_waiting hover hc]
  exact ⟨by omega, rfl⟩

theorem advance_resume (hi : c.i < own.length) (hc : s.call = .waiting c)
    (hcarries : s.mem.Carries c) :
    (s.resumed c false).1.ahead own.length < s.ahead own.length ∧
      (s.resumed c false).1.inErrorCb = s.inErrorCb := by
  obtain ⟨set, hset, -⟩ := hcarries.set
  simp only [RoutingState.resumed, hset]
  refine ⟨?_, trivial⟩
  simp only [RoutingState.ahead, hc]
  split <;> omega

theorem advance_record (hi : c.i < own.length) (hc : s.call = .waited c .ok)
    (hcarries : s.mem.Carries c) :
    (s.recorded c .ok).1.ahead own.length < s.ahead own.length ∧
      (s.recorded c .ok).1.inErrorCb = s.inErrorCb := by
  obtain ⟨set, hset, -⟩ := hcarries.set
  have hbefore : s.ahead own.length = 5 * (own.length - c.i) - 3 := by
    simp only [RoutingState.ahead, hc]
  unfold RoutingState.recorded
  rw [hset, hbefore]
  dsimp only
  rw [if_neg (by simp)]
  split
  · refine ⟨?_, rfl⟩
    simp only [RoutingState.ahead]
    omega
  · refine ⟨?_, rfl⟩
    simp only [RoutingState.ahead]
    omega

/-- Short of its return, something that happens brings the call closer to it. -/
theorem goesOn_advances (ho : Outcome cfg s.registry ownNode targetNode own peer r links)
    (hown : s.registry.Ranked ownNode cfg.ownDirection own)
    (hpeer : s.registry.Ranked targetNode cfg.peerDirection peer)
    (htarget : targetNode ∈ s.registry.nodes)
    (h : s.GoesOn s.registry ownNode targetNode own peer r links ws) (hgo : s.call ≠ .idle) :
    ∃ a, s.Enabled a ∧ s.LeftAlone ownNode targetNode a ∧
      (s.step cfg a).1.toGo own.length < s.toGo own.length := by
  have hsound := h.sound hgo
  have hdone := h.done
  cases hcb : s.inErrorCb with
  | true =>
    refine ⟨.callbackReturn, ⟨hsound, hcb⟩, trivial, ?_⟩
    have hsame : (s.step cfg .callbackReturn).1.ahead own.length = s.ahead own.length := rfl
    rw [RoutingState.toGo, RoutingState.toGo, hsame, hcb]
    exact Nat.lt_succ_self _
  | false =>
    have closer : ∀ {t : RoutingState}, t.ahead own.length < s.ahead own.length ∧
        t.inErrorCb = s.inErrorCb → t.toGo own.length < s.toGo own.length := by
      intro t ht
      rw [RoutingState.toGo, RoutingState.toGo, ht.2]
      exact Nat.add_lt_add_right ht.1 _
    cases hc : s.call with
    | idle => exact absurd hc hgo
    | lookup k =>
      rw [hc] at hdone
      have hstands : k.Stands ownNode r := hdone.2.2.2
      cases k with
      | binding =>
        refine ⟨.awaitOwnPorts (some ownNode), ⟨hsound, ?_⟩, rfl, closer (advance_await hc _)⟩
        simp [RoutingState.canTake, RoutingState.awaits, hc, hcb]
      | awaiting =>
        refine ⟨.ownPortsTimeout, ⟨hsound, hc, hcb⟩, trivial, closer ⟨?_, rfl⟩⟩
        have hbefore : s.ahead own.length = 5 * own.length + 1 := by
          simp only [RoutingState.ahead, hc]
        rw [hbefore]
        exact Nat.succ_pos _
      | located node =>
        obtain ⟨rfl, hr⟩ := hstands
        exact ⟨.listPorts node targetNode true, ⟨hsound, hc, htarget⟩, ⟨rfl, rfl, rfl⟩,
          closer (advance_list ho hown hpeer hc hr)⟩
    | wiring c =>
      rw [hc] at hdone
      have hamid : c.Amid s.registry ownNode targetNode own peer r links ws s.mem c.i := hdone
      refine ⟨.requestLink true true (0, 0), ⟨hsound, ?_⟩, ⟨rfl, rfl⟩, ?_⟩
      · simp [RoutingState.canTake, RoutingState.requests, hc, hcb]
      · simp only [RoutingState.step, hc]
        exact closer (advance_request hamid.joins.index hc hamid.carries)
    | waiting c =>
      rw [hc] at hdone
      obtain ⟨hamid, set, k, id, hset, hk, hlost, hid⟩ := hdone
      cases hover : s.waitOver c with
      | true =>
        refine ⟨.resumeLink false, ⟨hsound, ?_⟩, rfl, ?_⟩
        · simp [RoutingState.canTake, RoutingState.resumes, hc, hcb, hover]
        · simp only [RoutingState.step, hc]
          exact closer (advance_resume hamid.joins.index hc hamid.carries)
      | false =>
        refine ⟨.info id ⟨true, .active⟩, ⟨hsound, hcb, by simp [hid]⟩, ⟨by simp, ?_⟩, ?_⟩
        · intro l j hlj
          obtain ⟨rfl, -⟩ := Prod.mk.inj (Option.some.inj (hid.symm.trans hlj))
          exact hamid.carries.links
        · exact closer (advance_info hamid.joins.index hc hover hset hk hid)
    | waited c r' =>
      rw [hc] at hdone
      obtain ⟨hamid, rfl⟩ := hdone
      refine ⟨.recordLink, ⟨hsound, ?_⟩, trivial, ?_⟩
      · simp [RoutingState.canTake, RoutingState.records, hc]
      · simp only [RoutingState.step, hc]
        exact closer (advance_record hamid.joins.index hc hamid.carries)

theorem closer (ho : Outcome cfg reg ownNode targetNode own peer r links)
    (hown : reg.Ranked ownNode cfg.ownDirection own)
    (hpeer : reg.Ranked targetNode cfg.peerDirection peer) (htarget : targetNode ∈ reg.nodes)
    (t : RoutingState) (h : ∃ ws, t.GoesOn reg ownNode targetNode own peer r links ws)
    (hgo : t.call ≠ .idle) :
    ∃ a, (t.Enabled a ∧ t.LeftAlone ownNode targetNode a) ∧
      (∃ ws, (t.step cfg a).1.GoesOn reg ownNode targetNode own peer r links ws) ∧
      (t.step cfg a).1.toGo own.length < t.toGo own.length := by
  obtain ⟨ws, ht⟩ := h
  obtain rfl := ht.registry
  obtain ⟨a, he, hu, hlt⟩ := goesOn_advances ho hown hpeer htarget ht hgo
  exact ⟨a, ⟨he, hu⟩, ⟨_, goesOn_step ho hown hpeer he hu ht⟩, hlt⟩

/-- A call gives what comes of it, in every order of the steps, and comes back. -/
theorem call_gives (hs : s.CanLink cfg targetNode)
    (hown : s.registry.Ranked ownNode cfg.ownDirection own)
    (hpeer : s.registry.Ranked targetNode cfg.peerDirection peer)
    (ho : Outcome cfg s.registry ownNode targetNode own peer r links) :
    s.CallGives cfg ownNode targetNode r links where
  only := by
    intro xs hrun hreturned
    have hdone := (goesOn_run hs hown hpeer ho hrun).done
    cases hc : ((routingMachine cfg).exec s (.linkEnter false :: xs)).call with
    | idle =>
      rw [hc] at hdone
      exact ⟨hdone.2, hdone.1⟩
    | lookup k =>
      rw [hc] at hdone
      exact absurd hdone.2.1 hreturned
    | wiring c =>
      rw [hc] at hdone
      exact absurd (Wiring.Amid.results hdone) hreturned
    | waiting c | waited c r' =>
      rw [hc] at hdone
      exact absurd hdone.1.results hreturned
  returns := by
    intro xs hrun
    have hgoes := goesOn_run hs hown hpeer ho hrun
    obtain ⟨ys, hys, hidle⟩ := Machine.reaches
      (M := (routingMachine cfg).restrict (RoutingState.LeftAlone ownNode targetNode))
      (I := fun t => ∃ ws, t.GoesOn s.registry ownNode targetNode own peer r links ws)
      (G := fun t : RoutingState => t.call = .idle) (closer ho hown hpeer hs.target) ⟨_, hgoes⟩
    have hall : s.CallRun cfg ownNode targetNode (xs ++ ys) :=
      ⟨hrun.1, Machine.valid_append.mpr ⟨hrun.2, hys⟩⟩
    refine ⟨ys, hall, ?_⟩
    have hdone := (goesOn_run hs hown hpeer ho hall).done
    have hback : ((routingMachine cfg).exec s (.linkEnter false :: (xs ++ ys))).call = .idle := by
      rw [← List.cons_append, Machine.exec_append]
      exact hidle
    rw [hback] at hdone
    rw [hdone.2]
    exact List.cons_ne_nil _ _

/-! ### What the channels of a device come to -/

/-- A call gives one thing only. -/
theorem RoutingState.CallGives.unique {r' : PwfError} {links' : List LinkProps}
    (hs : s.CanLink cfg targetNode) (h : s.CallGives cfg ownNode targetNode r links)
    (h' : s.CallGives cfg ownNode targetNode r' links') : r = r' := by
  have hempty : s.CallRun cfg ownNode targetNode [] := ⟨⟨hs.sound, hs.idle⟩, trivial⟩
  obtain ⟨ys, hrun, hreturned⟩ := h.returns [] hempty
  have hone := (h.only _ hrun hreturned).1
  rw [(h'.only _ hrun hreturned).1] at hone
  exact (List.cons.inj hone).1.symm

/-- Of `n` ports of the stream and `m` of the target, the `i`-th are joined, when the `n` are all
its format asks for and there are no more than 64 of the target: more of them are no surplus, but
refused. -/
theorem wires_by_ordinal_iff (hs : s.CanLink cfg targetNode)
    (hown : s.registry.Ranked ownNode cfg.ownDirection own)
    (hpeer : s.registry.Ranked targetNode cfg.peerDirection peer) :
    ((own.length ≤ 64 → own.length ≤ peer.length →
        s.CallGives cfg ownNode targetNode .ok
          (joined cfg s.registry ownNode targetNode own peer)) ∧
      (peer.length < own.length → ∃ r, r ≠ .ok ∧ s.CallGives cfg ownNode targetNode r [])) ↔
      (cfg.expectedPorts ≤ own.length ∧ peer.length ≤ maxChannels) ∨
        peer.length < own.length ∨ maxChannels < own.length := by
  have hmax : maxChannels = 64 := rfl
  have unready : own.length < cfg.expectedPorts → s.CallGives cfg ownNode targetNode .timeout [] :=
    fun h => call_gives hs hown hpeer (.unready h)
  have refused : cfg.expectedPorts ≤ own.length →
      maxChannels < own.length ∨ maxChannels < peer.length ∨ peer.length < own.length →
        s.CallGives cfg ownNode targetNode .invalidArg [] :=
    fun hready h => call_gives hs hown hpeer (.refused hready h)
  constructor
  · rintro ⟨hwires, -⟩
    by_contra hno
    obtain ⟨hfits, hmany, hfew⟩ : ¬ (_ ∧ _) ∧ ¬ _ ∧ ¬ _ := by simpa only [not_or] using hno
    have hok := hwires (by omega) (by omega)
    by_cases hready : cfg.expectedPorts ≤ own.length
    · have hpeers : maxChannels < peer.length := by
        by_contra hle
        exact hfits ⟨hready, by omega⟩
      exact absurd (hok.unique hs (refused hready (Or.inr (Or.inl hpeers)))) (by decide)
    · exact absurd (hok.unique hs (unready (by omega))) (by decide)
  · intro hfits
    constructor
    · intro hown64 hle
      have hready : cfg.expectedPorts ≤ own.length ∧ peer.length ≤ maxChannels := by
        rcases hfits with h | h | h
        · exact h
        · omega
        · omega
      exact call_gives hs hown hpeer (.wired hready.1 hle hready.2)
    · intro hfew
      by_cases hready : cfg.expectedPorts ≤ own.length
      · exact ⟨.invalidArg, by decide, refused hready (Or.inr (Or.inr hfew))⟩
      · exact ⟨.timeout, by decide, unready (by omega)⟩

/-- Both channels of a source are joined to a stereo capture. -/
theorem wires_by_ordinal_stereo :
    let s := (routingMachine wiredCapture).exec .init captureGraph
    ((2 ≤ 64 → 2 ≤ 2 → s.CallGives wiredCapture 10 20 .ok [⟨20, 21, 10, 12⟩, ⟨20, 22, 10, 11⟩]) ∧
      (2 < 2 → ∃ r, r ≠ .ok ∧ s.CallGives wiredCapture 10 20 r [])) ↔
      (2 ≤ 2 ∧ 2 ≤ maxChannels) ∨ 2 < 2 ∨ maxChannels < 2 := by
  intro s
  have hown : s.registry.Ranked 10 wiredCapture.ownDirection [1, 0] := ⟨by decide, by decide⟩
  have hpeer : s.registry.Ranked 20 wiredCapture.peerDirection [2, 3] := ⟨by decide, by decide⟩
  exact wires_by_ordinal_iff ⟨rfl, by decide, rfl, by decide⟩ hown hpeer

/-- A capture stream of one channel. -/
def monoCapture : StreamConfig := { wiredCapture with channels := 1 }

/-- It runs, and there is a source of 65 channels. -/
def manyChannels : List RoutingAction :=
  [.start, .nodeAdded 10, .nodeAdded 20, .portAdded ⟨11, 10, .input, 0⟩ true true] ++
    (List.range 65).map fun i => .portAdded ⟨100 + i, 20, .output, i⟩ true true

/-- A source with more channels than the 64 there is room for is refused, surplus or not, though
the stream has its one port. -/
theorem surplus_refused :
    let s := (routingMachine monoCapture).exec .init manyChannels
    let own := [0]
    let peer := List.range' 1 65
    s.CanLink monoCapture 20 ∧ s.registry.Ranked 10 monoCapture.ownDirection own ∧
      s.registry.Ranked 20 monoCapture.peerDirection peer ∧
        monoCapture.expectedPorts = own.length ∧ own.length ≤ 64 ∧ own.length ≤ peer.length ∧
          ¬ s.CallGives monoCapture 10 20 .ok (joined monoCapture s.registry 10 20 own peer) := by
  intro s own peer
  have hs : s.CanLink monoCapture 20 :=
    ⟨by decide +kernel, by decide +kernel, by decide +kernel, by decide +kernel⟩
  have hown : s.registry.Ranked 10 monoCapture.ownDirection own :=
    ⟨by decide +kernel, by decide +kernel⟩
  have hpeer : s.registry.Ranked 20 monoCapture.peerDirection peer :=
    ⟨by decide +kernel, by decide +kernel⟩
  refine ⟨hs, hown, hpeer, by decide, by decide, by decide, ?_⟩
  intro hok
  have hrefused := call_gives hs hown hpeer (.refused (by decide) (Or.inr (Or.inl (by decide))))
  exact absurd (hok.unique hs hrefused) (by decide)

end TinyPipewire.Stream
