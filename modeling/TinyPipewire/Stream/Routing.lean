import TinyPipewire.Lib.Machine
import TinyPipewire.Stream.Registry
import TinyPipewire.Types

/-!
# Wiring a stream

`pwf_stream_link` requests one link after another and waits for each with the loop
released, over a link set it published in `stream->links` before the first. In between
the loop thread delivers reports, registry events and error callbacks. What they touch
in memory somebody freed is a fault.
-/

namespace TinyPipewire.Stream

/-- `PWF_MAX_CHANNELS`. -/
def maxChannels : ℕ := 64

/-- `pwf_stream_pair_ports`: the pairs, and the surplus. -/
def pairPorts (nStream nTarget : ℕ) : ℕ × ℕ :=
  if nStream = 0 ∨ nTarget < nStream then (0, 0) else (nStream, nTarget - nStream)

/-- `enum pwf_stream_state`. -/
inductive StreamState
  | created
  | formatSet
  | running
  | stopped
  deriving DecidableEq, Repr

/-- What is settled before a stream is linked: its data and, of audio, the channels it is set
to, who wires it, which way its data goes, and whether it has an error callback. -/
structure StreamConfig where
  type : DataType
  channels : ℤ
  autoconnect : Bool
  playback : Bool
  errorCb : Bool
  deriving DecidableEq, Repr

/-- `pwf_stream_expected_ports`. -/
def StreamConfig.expectedPorts (cfg : StreamConfig) : ℕ :=
  if cfg.type = .audio ∧ 0 < cfg.channels then cfg.channels.toNat else 1

theorem StreamConfig.expectedPorts_pos (cfg : StreamConfig) : 0 < cfg.expectedPorts := by
  unfold StreamConfig.expectedPorts
  split <;> omega

/-- `pwf_stream_own_direction`. -/
def StreamConfig.ownDirection (cfg : StreamConfig) : SpaDirection :=
  if cfg.playback then .output else .input

def StreamConfig.peerDirection (cfg : StreamConfig) : SpaDirection :=
  if cfg.playback then .input else .output

/-- `struct pwf_stream_link`. Proxies are numbered as they are made. -/
structure StreamLink where
  proxy : Option ℕ
  seenActive : Bool
  lost : Bool
  deriving DecidableEq, Repr

/-- A link as `calloc` leaves it. -/
def StreamLink.zeroed : StreamLink := ⟨none, false, false⟩

/-- `struct pwf_stream_link_set`, with its array. -/
structure LinkSet where
  links : List StreamLink
  nLinks : ℕ
  targetNodeId : ℕ
  deriving DecidableEq, Repr

/-- The nodes and ports a link is requested for. -/
structure LinkProps where
  outNode : ℕ
  outPort : ℕ
  inNode : ℕ
  inPort : ℕ
  deriving DecidableEq, Repr

/-- The nodes a call pairs, and the global ids of their ports, by ordinal. -/
structure Listing where
  ownNode : ℕ
  targetNode : ℕ
  own : List ℕ
  peer : List ℕ
  deriving DecidableEq, Repr

/-- The locals of a `pwf_stream_link` that has published its set; `own` and `peer` are its
arrays of pointers into the registry. -/
structure Wiring where
  set : ℕ
  i : ℕ
  pairs : ℕ
  ownNode : ℕ
  targetNode : ℕ
  own : List PortPtr
  peer : List PortPtr
  deriving DecidableEq, Repr

/-- How far the call is with what it looks up: the registry, its own ports, which it may have
to wait for, and the target. -/
inductive Lookup
  | binding
  | awaiting
  | located (ownNode : ℕ)
  deriving DecidableEq, Repr

/-- Where a `pwf_stream_link` call is: nowhere, past its checks and looking things up,
before link `i`, waiting for it, or back from it. -/
inductive LinkCall
  | idle
  | lookup (k : Lookup)
  | wiring (c : Wiring)
  | waiting (c : Wiring)
  | waited (c : Wiring) (r : PwfError)
  deriving DecidableEq, Repr

/-- The call that has a set published. -/
def LinkCall.published : LinkCall → Option Wiring
  | .wiring c | .waiting c | .waited c _ => some c
  | .idle | .lookup _ => none

/-- `stream->links`, and the memory and the proxies behind it. Link sets are numbered as they
are allocated; `none` was freed, or never was. A proxy that is alive has a listener, with a
link of a set as its data. -/
structure LinkMemory where
  links : Option ℕ
  sets : ℕ → Option LinkSet
  nextSet : ℕ
  proxies : ℕ → Option (ℕ × ℕ)
  nextProxy : ℕ
  /-- Some step touched a freed link set; what it does then is undefined. -/
  faulted : Bool

structure RoutingState where
  state : StreamState
  mem : LinkMemory
  registry : Registry
  call : LinkCall
  /-- The loop thread runs the error callback. -/
  inErrorCb : Bool

def RoutingState.init : RoutingState where
  state := .created
  mem := ⟨none, fun _ => none, 0, fun _ => none, 0, false⟩
  registry := .zeroed
  call := .idle
  inErrorCb := false

inductive RoutingAction
  | linkEnter (inCallback : Bool)
  /-- Binding the registry or finding the target fails. -/
  | linkLookupFailed (r : PwfError)
  /-- `pwf_stream_await_own_ports` looks for the ports, at `pw_stream_get_node_id`'s answer. -/
  | awaitOwnPorts (nodeId : Option ℕ)
  /-- The time to wait for them is over. -/
  | ownPortsTimeout
  /-- The ports are listed and paired and the set is published; `allocated` answers the
  two `calloc`s. -/
  | listPorts (ownNode targetNode : ℕ) (allocated : Bool)
  /-- `pwf_stream_link_one` up to its wait, its properties and its proxy being made or not.
  A pointer to freed memory reads as one of `junk`. -/
  | requestLink (props created : Bool) (junk : ℕ × ℕ)
  /-- It stops waiting: the link was seen up or lost, or the deadline passed. -/
  | resumeLink (timedOut : Bool)
  /-- `pwf_stream_link` counts the link in, and goes on or drops them all. -/
  | recordLink
  | info (id : ℕ) (i : PwLinkInfo)
  | nodeAdded (id : ℕ)
  | portAdded (e : PortEntry) (grown named : Bool)
  | globalRemoved (id : ℕ)
  /-- The stream itself reports that its source is gone. -/
  | sourceLost
  | callbackUnlink
  | callbackStop
  | callbackStart
  | callbackReturn
  /-- The application calls `pwf_stream_unlink` between its link calls. -/
  | unlink
  | start
  | stop
  deriving DecidableEq

/-- The memory a fault is in. -/
inductive Freed
  | links
  | ports
  deriving DecidableEq, Repr

inductive RoutingOut
  | refused (r : PwfError)
  /-- The ports of the stream and its target are listed. -/
  | listed (l : Listing)
  | requested (id i : ℕ) (props : LinkProps)
  | returned (r : PwfError)
  | reported (id : ℕ) (state : PwLinkState)
  | destroyed (id : ℕ)
  | freed (set : ℕ)
  | errorCallback
  | fault (what : Freed)
  deriving DecidableEq, Repr

/-- The checks of `pwf_stream_link`. -/
def linkRefusal (cfg : StreamConfig) (s : RoutingState) (inCallback : Bool) : Option PwfError :=
  if inCallback = true then some .inCallback
  else if cfg.autoconnect = true then some .invalidArg
  else if s.mem.links.isSome = true then some .invalidArg
  else if s.state ≠ .running then some .notConfigured
  else none

/-- `own[i]->id` or `peer[i]->id`. -/
def readPort (reg : Registry) (ports : List PortPtr) (i junk : ℕ) : ℕ × List RoutingOut :=
  match ports[i]? with
  | some p => if p.gen = reg.gen then ((reg.slots p.slot).id, []) else (junk, [.fault .ports])
  | none => (junk, [.fault .ports])

/-- The arguments of the `i`-th `pwf_stream_link_one`. -/
def linkProps (cfg : StreamConfig) (ownNode targetNode own peer : ℕ) : LinkProps :=
  if cfg.playback then ⟨ownNode, own, targetNode, peer⟩ else ⟨targetNode, peer, ownNode, own⟩

/-- `pwf_stream_link_on_info`, on a report that changes the state. -/
def linkOnInfo (k : StreamLink) (st : PwLinkState) : StreamLink :=
  match st with
  | .active | .paused => { k with seenActive := true }
  | .error => { k with lost := true }
  | _ => k

section

variable {k : StreamLink} {st : PwLinkState}

theorem linkOnInfo_proxy : (linkOnInfo k st).proxy = k.proxy := by
  cases st <;> rfl

/-- A report that is no error leaves the link as good as it was. -/
theorem linkOnInfo_lost (h : st ≠ .error) : (linkOnInfo k st).lost = k.lost := by
  cases st with
  | error => exact absurd rfl h
  | _ => rfl

/-- A link that is not lost has not failed now, and was not lost before. -/
theorem linkOnInfo_kept (h : (linkOnInfo k st).lost = false) : k.lost = false ∧ st ≠ .error := by
  cases st with
  | error => cases h
  | _ => exact ⟨h, by simp⟩

theorem linkOnInfo_seenActive (h : k.seenActive = true) : (linkOnInfo k st).seenActive = true := by
  cases st with
  | active | paused => rfl
  | _ => exact h

/-- Only a link that comes up is seen to. -/
theorem linkOnInfo_unseen (hst : st.isUp = false) (h : (linkOnInfo k st).seenActive = true) :
    k.seenActive = true := by
  cases st with
  | active | paused => cases hst
  | _ => exact h

end

/-- The proxies `pwf_stream_release_links` destroys. -/
def LinkSet.released (set : LinkSet) : List ℕ := (set.links.take set.nLinks).filterMap (·.proxy)

namespace LinkMemory

variable (m : LinkMemory)

/-- A step touches a link set that was freed. -/
def touchFreed : LinkMemory × List RoutingOut := ({ m with faulted := true }, [.fault .links])

/-- `pwf_stream_release_links`. -/
def releaseLinks : LinkMemory × List RoutingOut :=
  match m.links with
  | none => (m, [])
  | some l =>
    match m.sets l with
    | none => m.touchFreed
    | some set =>
      ({ m with
          links := none
          sets := Function.update m.sets l none
          proxies := fun id => if id ∈ set.released then none else m.proxies id },
        set.released.map .destroyed ++ [.freed l])

/-- A set of `pairs` links is allocated and published. -/
def publish (pairs targetNode : ℕ) : LinkMemory :=
  { m with
    links := some m.nextSet
    sets := Function.update m.sets m.nextSet
      (some ⟨List.replicate pairs .zeroed, 0, targetNode⟩)
    nextSet := m.nextSet + 1 }

/-- Set `l` is replaced. -/
def setSet (l : ℕ) (set : LinkSet) : LinkMemory :=
  { m with sets := Function.update m.sets l (some set) }

/-- Link `i` of set `l` gets a new proxy, with a listener. -/
def createProxy (l i : ℕ) (set : LinkSet) : LinkMemory :=
  { m.setSet l { set with links := set.links.set i ⟨some m.nextProxy, false, false⟩ } with
    proxies := Function.update m.proxies m.nextProxy (some (l, i))
    nextProxy := m.nextProxy + 1 }

end LinkMemory

namespace RoutingState

variable (cfg : StreamConfig) (s : RoutingState)

/-- Something is done to the links. -/
def withMemory (r : LinkMemory × List RoutingOut) : RoutingState × List RoutingOut :=
  ({ s with mem := r.1 }, r.2)

/-- The error callback is called, when there is one. -/
def reportError : RoutingState × List RoutingOut :=
  if cfg.errorCb = true then ({ s with inErrorCb := true }, [.errorCallback]) else (s, [])

/-- One turn of the loop of `pwf_stream_await_own_ports`. -/
def awaitOwnPorts (nodeId : Option ℕ) : Lookup :=
  match nodeId with
  | some node =>
    if cfg.expectedPorts ≤ (s.registry.listPorts node cfg.ownDirection 0).1 then .located node
    else .awaiting
  | none => .awaiting

/-- `pwf_stream_link`, from its listing of the ports to its loop. -/
def listed (ownNode targetNode : ℕ) (allocated : Bool) : RoutingState × List RoutingOut :=
  let own := s.registry.listPorts ownNode cfg.ownDirection maxChannels
  let peer := s.registry.listPorts targetNode cfg.peerDirection maxChannels
  let pairs := (pairPorts own.1 peer.1).1
  let ptrs := fun is : List ℕ => is.map fun i => (⟨s.registry.gen, i⟩ : PortPtr)
  if maxChannels < own.1 ∨ maxChannels < peer.1 ∨ pairs = 0 then
    ({ s with call := .idle }, [.returned .invalidArg])
  else if allocated = false then ({ s with call := .idle }, [.returned .noMemory])
  else
    ({ s with
        mem := s.mem.publish pairs targetNode
        call := .wiring
          ⟨s.mem.nextSet, 0, pairs, ownNode, targetNode, ptrs own.2, ptrs peer.2⟩ },
      [.listed ⟨ownNode, targetNode, own.2.map fun i => (s.registry.slots i).id,
        peer.2.map fun i => (s.registry.slots i).id⟩])

/-- `pwf_stream_link_one` on link `c.i`, up to its wait. -/
def linkOne (c : Wiring) (props created : Bool) (junk : ℕ × ℕ) :
    RoutingState × List RoutingOut :=
  let own := readPort s.registry c.own c.i junk.1
  let peer := readPort s.registry c.peer c.i junk.2
  match s.mem.sets c.set with
  | none => ({ s with mem := s.mem.touchFreed.1 }, own.2 ++ peer.2 ++ s.mem.touchFreed.2)
  | some set =>
    if props = false then
      ({ s with call := .waited c .noMemory }, own.2 ++ peer.2)
    else if created = false then
      ({ s with
          mem := s.mem.setSet c.set { set with links := set.links.set c.i .zeroed }
          call := .waited c .connectFailed },
        own.2 ++ peer.2)
    else
      ({ s with mem := s.mem.createProxy c.set c.i set, call := .waiting c },
        own.2 ++ peer.2 ++
          [.requested s.mem.nextProxy c.i
            (linkProps cfg c.ownNode c.targetNode own.1 peer.1)])

/-- The result of a wait that is over. -/
def waitResult (k : StreamLink) (timedOut : Bool) : PwfError :=
  if k.lost = true then .invalidFormat else if timedOut = true then .timeout else .ok

/-- The rest of `pwf_stream_link_one`. -/
def resumed (c : Wiring) (timedOut : Bool) : RoutingState × List RoutingOut :=
  match s.mem.sets c.set with
  | none => s.withMemory s.mem.touchFreed
  | some set =>
    ({ s with
        call := .waited c (waitResult ((set.links[c.i]?).getD .zeroed) timedOut) }, [])

/-- One turn of the loop of `pwf_stream_link` after `pwf_stream_link_one` returned; the log
reads `peer[i]->name`, and past the last link the first surplus one's. -/
def recorded (c : Wiring) (r : PwfError) : RoutingState × List RoutingOut :=
  match s.mem.sets c.set with
  | none => s.withMemory s.mem.touchFreed
  | some set =>
    let m := s.mem.setSet c.set { set with nLinks := c.i + 1 }
    if r ≠ .ok then
      ({ s with mem := m.releaseLinks.1, call := .idle }, m.releaseLinks.2 ++ [.returned r])
    else if c.i + 1 < c.pairs then
      ({ s with mem := m, call := .wiring { c with i := c.i + 1 } },
        (readPort s.registry c.peer c.i 0).2)
    else
      ({ s with mem := m, call := .idle },
        (readPort s.registry c.peer c.i 0).2 ++
          (if c.pairs < c.peer.length then (readPort s.registry c.peer c.pairs 0).2 else []) ++
            [.returned .ok])

/-- The `info` event of the proxy `id`. -/
def informed (id : ℕ) (i : PwLinkInfo) : RoutingState × List RoutingOut :=
  if i.stateChanged = false then (s, [])
  else
    match s.mem.proxies id with
    | none => (s, [])
    | some (l, j) =>
      match s.mem.sets l with
      | none => s.withMemory s.mem.touchFreed
      | some set =>
        let k := linkOnInfo ((set.links[j]?).getD .zeroed) i.state
        ({ s with mem := s.mem.setSet l { set with links := set.links.set j k } },
          [.reported id i.state])

/-- `pwf_pw_registry_on_global_remove`, and `pwf_stream_on_node_removed` when it was a node. -/
def globalRemoved (id : ℕ) : RoutingState × List RoutingOut :=
  let t := { s with registry := s.registry.globalRemove id }
  if id ∉ s.registry.nodes then (t, [])
  else
    match s.mem.links with
    | none => (t, [])
    | some l =>
      match s.mem.sets l with
      | none => t.withMemory s.mem.touchFreed
      | some set =>
        if set.targetNodeId ≠ id then (t, [])
        else
          let u := t.withMemory s.mem.releaseLinks
          ((u.1.reportError cfg).1, u.2 ++ (u.1.reportError cfg).2)

/-- `pwf_stream_on_state_changed`, when the source is lost. -/
def sourceLost : RoutingState × List RoutingOut :=
  if s.state = .running then { s with state := .stopped }.reportError cfg else (s, [])

/-- What the action does, and what is seen of it. -/
def step : RoutingAction → RoutingState × List RoutingOut
  | .linkEnter inCallback =>
    match linkRefusal cfg s inCallback with
    | some r => (s, [.refused r])
    | none => ({ s with call := .lookup .binding }, [])
  | .linkLookupFailed r => ({ s with call := .idle }, [.returned r])
  | .awaitOwnPorts nodeId => ({ s with call := .lookup (s.awaitOwnPorts cfg nodeId) }, [])
  | .ownPortsTimeout => ({ s with call := .idle }, [.returned .timeout])
  | .listPorts ownNode targetNode allocated => s.listed cfg ownNode targetNode allocated
  | .requestLink props created junk =>
    match s.call with
    | .wiring c => s.linkOne cfg c props created junk
    | _ => (s, [])
  | .resumeLink timedOut =>
    match s.call with
    | .waiting c => s.resumed c timedOut
    | _ => (s, [])
  | .recordLink =>
    match s.call with
    | .waited c r => s.recorded c r
    | _ => (s, [])
  | .info id i => s.informed id i
  | .nodeAdded id => ({ s with registry := s.registry.addNode id }, [])
  | .portAdded e grown named => ({ s with registry := s.registry.addPort e grown named }, [])
  | .globalRemoved id => s.globalRemoved cfg id
  | .sourceLost => s.sourceLost cfg
  | .callbackUnlink | .unlink => s.withMemory s.mem.releaseLinks
  | .callbackStop | .stop =>
    (if s.state = .running then { s with state := .stopped } else s, [])
  | .callbackStart | .start => ({ s with state := .running }, [])
  | .callbackReturn => ({ s with inErrorCb := false }, [])

/-- The wait of link `c.i` is over; freed memory may say anything. -/
def waitOver (c : Wiring) : Bool :=
  match s.mem.sets c.set with
  | none => true
  | some set => set.links[c.i]?.any fun k => k.seenActive || k.lost

/-- The call is before a link; it takes the loop lock. -/
def requests : Bool :=
  match s.call with
  | .wiring _ => !s.inErrorCb
  | _ => false

/-- The call waits, and need not wait longer. -/
def resumes (timedOut : Bool) : Bool :=
  match s.call with
  | .waiting c => !s.inErrorCb && (timedOut || s.waitOver c)
  | _ => false

/-- The call is back from a link; to drop the links it takes the loop lock. -/
def records : Bool :=
  match s.call with
  | .waited _ r => r == .ok || !s.inErrorCb
  | _ => false

/-- Where a look-up fails with `r`, its wait for the ports apart. -/
def lookupFails (r : PwfError) : Bool :=
  match s.call with
  | .lookup .binding => r == .timeout || r == .connectFailed
  | .lookup (.located _) => r == .notFound
  | _ => false

/-- The registry is bound and the ports are not known to be there; the call takes the loop
lock. -/
def awaits : Bool :=
  match s.call with
  | .lookup .binding | .lookup .awaiting => !s.inErrorCb
  | _ => false

/-- The action can be taken now. -/
def canTake : RoutingAction → Prop
  | .linkEnter _ => s.call = .idle
  | .linkLookupFailed r => s.lookupFails r = true
  | .awaitOwnPorts _ => s.awaits = true
  | .ownPortsTimeout => s.call = .lookup .awaiting ∧ s.inErrorCb = false
  | .listPorts ownNode targetNode _ =>
    s.call = .lookup (.located ownNode) ∧ targetNode ∈ s.registry.nodes
  | .requestLink _ _ _ => s.requests = true
  | .resumeLink timedOut => s.resumes timedOut = true
  | .recordLink => s.records = true
  | .info id _ => s.inErrorCb = false ∧ (s.mem.proxies id).isSome = true
  | .nodeAdded _ | .portAdded _ _ _ | .globalRemoved _ | .sourceLost => s.inErrorCb = false
  | .callbackUnlink | .callbackStop | .callbackStart | .callbackReturn => s.inErrorCb = true
  | .unlink => s.inErrorCb = false ∧ s.call = .idle
  | .start | .stop => s.inErrorCb = false

instance : DecidablePred s.canTake
  | .linkEnter _ => inferInstanceAs (Decidable (_ = _))
  | .linkLookupFailed _ => inferInstanceAs (Decidable (_ = _))
  | .awaitOwnPorts _ => inferInstanceAs (Decidable (_ = _))
  | .ownPortsTimeout => inferInstanceAs (Decidable (_ = _ ∧ _ = _))
  | .listPorts _ _ _ => inferInstanceAs (Decidable (_ = _ ∧ _ ∈ _))
  | .requestLink _ _ _ => inferInstanceAs (Decidable (_ = _))
  | .resumeLink _ => inferInstanceAs (Decidable (_ = _))
  | .recordLink => inferInstanceAs (Decidable (_ = _))
  | .info _ _ => inferInstanceAs (Decidable (_ = _ ∧ _ = _))
  | .nodeAdded _ => inferInstanceAs (Decidable (_ = _))
  | .portAdded _ _ _ => inferInstanceAs (Decidable (_ = _))
  | .globalRemoved _ => inferInstanceAs (Decidable (_ = _))
  | .sourceLost => inferInstanceAs (Decidable (_ = _))
  | .callbackUnlink => inferInstanceAs (Decidable (_ = _))
  | .callbackStop => inferInstanceAs (Decidable (_ = _))
  | .callbackStart => inferInstanceAs (Decidable (_ = _))
  | .callbackReturn => inferInstanceAs (Decidable (_ = _))
  | .unlink => inferInstanceAs (Decidable (_ = _ ∧ _ = _))
  | .start => inferInstanceAs (Decidable (_ = _))
  | .stop => inferInstanceAs (Decidable (_ = _))

def Enabled (a : RoutingAction) : Prop := s.mem.faulted = false ∧ s.canTake a

instance : DecidablePred s.Enabled := fun _ => inferInstanceAs (Decidable (_ ∧ _))

variable {s}

theorem lookupFails_call {r : PwfError} (h : s.lookupFails r = true) :
    ∃ k, s.call = .lookup k := by
  unfold lookupFails at h
  split at h
  · exact ⟨_, by assumption⟩
  · exact ⟨_, by assumption⟩
  · simp at h

theorem awaits_call (h : s.awaits = true) :
    (s.call = .lookup .binding ∨ s.call = .lookup .awaiting) ∧ s.inErrorCb = false := by
  unfold awaits at h
  split at h
  · exact ⟨Or.inl (by assumption), by simpa using h⟩
  · exact ⟨Or.inr (by assumption), by simpa using h⟩
  · simp at h

theorem requests_call (h : s.requests = true) : ∃ c, s.call = .wiring c := by
  unfold requests at h
  split at h
  · exact ⟨_, by assumption⟩
  · simp at h

theorem resumes_call {timedOut : Bool} (h : s.resumes timedOut = true) :
    ∃ c, s.call = .waiting c ∧ (timedOut = true ∨ s.waitOver c = true) := by
  unfold resumes at h
  split at h
  · exact ⟨_, by assumption, by simpa using (Bool.and_eq_true_iff.mp h).2⟩
  · simp at h

theorem records_call (h : s.records = true) : ∃ c r, s.call = .waited c r := by
  unfold records at h
  split at h
  · exact ⟨_, _, by assumption⟩
  · simp at h

end RoutingState

/-- A stream that is wired by the application. -/
def routingMachine (cfg : StreamConfig) : Machine RoutingState RoutingAction RoutingOut where
  Enabled := RoutingState.Enabled
  next := fun s a => (s.step cfg a).1
  out := fun s a => (s.step cfg a).2

instance (cfg : StreamConfig) (s : RoutingState) (a : RoutingAction) :
    Decidable ((routingMachine cfg).Enabled s a) :=
  inferInstanceAs (Decidable (s.Enabled a))

/-! ### What an action may emit -/

/-- A release emits these. -/
def RoutingOut.ofRelease : RoutingOut → Bool
  | .destroyed _ | .freed _ | .fault .links => true
  | _ => false

def RoutingOut.isFault : RoutingOut → Bool
  | .fault _ => true
  | _ => false

def RoutingAction.emits : RoutingAction → RoutingOut → Bool
  | .linkEnter _, .refused _ => true
  | .linkLookupFailed r, w => w == .returned r
  | .ownPortsTimeout, w => w == .returned .timeout
  | .listPorts _ _ _, .returned r => r == .invalidArg || r == .noMemory
  | .listPorts _ _ _, .listed _ => true
  | .requestLink _ _ _, .requested _ _ _ => true
  | .requestLink _ _ _, w => w.isFault
  | .resumeLink _, w => w == .fault .links
  | .recordLink, .returned _ => true
  | .recordLink, w => w.ofRelease || w.isFault
  | .info id _, .reported id' _ => id == id'
  | .info _ _, w => w == .fault .links
  | .globalRemoved _, w => w.ofRelease || w == .errorCallback
  | .sourceLost, w => w == .errorCallback
  | .callbackUnlink, w | .unlink, w => w.ofRelease
  | _, _ => false

section Emits

variable {m : LinkMemory} {cfg : StreamConfig} {s : RoutingState} {w : RoutingOut}

theorem releaseLinks_emits (h : w ∈ m.releaseLinks.2) : w.ofRelease = true := by
  unfold LinkMemory.releaseLinks at h
  split at h
  · simp at h
  · split at h
    · obtain rfl := List.mem_singleton.mp h
      rfl
    · rcases List.mem_append.mp h with h | h
      · obtain ⟨id, -, rfl⟩ := List.mem_map.mp h
        rfl
      · obtain rfl := List.mem_singleton.mp h
        rfl

theorem readPort_emits {reg : Registry} {ports : List PortPtr} {i junk : ℕ}
    (h : w ∈ (readPort reg ports i junk).2) : w = .fault .ports := by
  unfold readPort at h
  split at h
  · split at h
    · simp at h
    · simpa using h
  · simpa using h

theorem reportError_emits (h : w ∈ (s.reportError cfg).2) : w = .errorCallback := by
  unfold RoutingState.reportError at h
  split at h
  · simpa using h
  · simp at h

theorem step_emits {a : RoutingAction} (h : w ∈ (s.step cfg a).2) : a.emits w = true := by
  cases a with
  | linkEnter inCallback =>
    simp only [RoutingState.step] at h
    split at h
    · obtain rfl := List.mem_singleton.mp h
      rfl
    · simp at h
  | linkLookupFailed r =>
    obtain rfl := List.mem_singleton.mp h
    simp [RoutingAction.emits]
  | ownPortsTimeout =>
    obtain rfl := List.mem_singleton.mp h
    rfl
  | listPorts ownNode targetNode allocated =>
    simp only [RoutingState.step, RoutingState.listed] at h
    split at h
    · obtain rfl := List.mem_singleton.mp h
      rfl
    · split at h
      · obtain rfl := List.mem_singleton.mp h
        rfl
      · obtain rfl := List.mem_singleton.mp h
        rfl
  | requestLink props created junk =>
    have hread : ∀ {c : Wiring}, w ∈ (readPort s.registry c.own c.i junk.1).2 ++
        (readPort s.registry c.peer c.i junk.2).2 → w = .fault .ports := by
      intro c hw
      rcases List.mem_append.mp hw with hw | hw
      · exact readPort_emits hw
      · exact readPort_emits hw
    simp only [RoutingState.step] at h
    split at h
    · rename_i c hc
      simp only [RoutingState.linkOne] at h
      split at h
      · rcases List.mem_append.mp h with h | h
        · obtain rfl := hread h
          rfl
        · obtain rfl := List.mem_singleton.mp h
          rfl
      · split at h
        · obtain rfl := hread h
          rfl
        · split at h
          · obtain rfl := hread h
            rfl
          · rcases List.mem_append.mp h with h | h
            · obtain rfl := hread h
              rfl
            · obtain rfl := List.mem_singleton.mp h
              rfl
    · simp at h
  | resumeLink timedOut =>
    simp only [RoutingState.step] at h
    split at h
    · simp only [RoutingState.resumed] at h
      split at h
      · obtain rfl := List.mem_singleton.mp h
        rfl
      · simp at h
    · simp at h
  | recordLink =>
    simp only [RoutingState.step] at h
    split at h
    · simp only [RoutingState.recorded] at h
      split at h
      · obtain rfl := List.mem_singleton.mp h
        rfl
      · split at h
        · rcases List.mem_append.mp h with h | h
          · have hw := releaseLinks_emits h
            cases w <;> simp_all [RoutingAction.emits]
          · obtain rfl := List.mem_singleton.mp h
            rfl
        · split at h
          · obtain rfl := readPort_emits h
            rfl
          · rcases List.mem_append.mp h with h | h
            · rcases List.mem_append.mp h with h | h
              · obtain rfl := readPort_emits h
                rfl
              · split at h
                · obtain rfl := readPort_emits h
                  rfl
                · simp at h
            · obtain rfl := List.mem_singleton.mp h
              rfl
    · simp at h
  | info id i =>
    simp only [RoutingState.step, RoutingState.informed] at h
    split at h
    · simp at h
    · split at h
      · simp at h
      · split at h
        · obtain rfl := List.mem_singleton.mp h
          rfl
        · obtain rfl := List.mem_singleton.mp h
          simp [RoutingAction.emits]
  | globalRemoved id =>
    simp only [RoutingState.step, RoutingState.globalRemoved] at h
    split at h
    · simp at h
    · split at h
      · simp at h
      · split at h
        · obtain rfl := List.mem_singleton.mp h
          rfl
        · split at h
          · simp at h
          · rcases List.mem_append.mp h with h | h
            · simp [RoutingAction.emits, releaseLinks_emits h]
            · obtain rfl := reportError_emits h
              rfl
  | sourceLost =>
    simp only [RoutingState.step, RoutingState.sourceLost] at h
    split at h
    · obtain rfl := reportError_emits h
      rfl
    · simp at h
  | callbackUnlink | unlink => exact releaseLinks_emits h
  | _ => simp [RoutingState.step] at h

end Emits

/-! ### What an event keeps -/

section Events

variable {cfg : StreamConfig} {s : RoutingState}

variable (cfg s) in
theorem reportError_keeps : (s.reportError cfg).1.call = s.call ∧
    (s.reportError cfg).1.mem = s.mem ∧ (s.reportError cfg).1.registry = s.registry := by
  unfold RoutingState.reportError
  split <;> exact ⟨rfl, rfl, rfl⟩

theorem sourceLost_keeps : (s.sourceLost cfg).1.call = s.call ∧
    (s.sourceLost cfg).1.mem = s.mem ∧ (s.sourceLost cfg).1.registry = s.registry := by
  unfold RoutingState.sourceLost
  split
  · obtain ⟨hc, hm, hr⟩ := reportError_keeps cfg { s with state := .stopped }
    exact ⟨hc, hm, hr⟩
  · exact ⟨rfl, rfl, rfl⟩

/-- The removal of a global leaves the links or releases them, whatever it finds there. -/
theorem globalRemoved_keeps (id : ℕ) : (s.globalRemoved cfg id).1.call = s.call ∧
    ((s.globalRemoved cfg id).1.mem = s.mem ∨
      (s.globalRemoved cfg id).1.mem = s.mem.releaseLinks.1) ∧
    (s.globalRemoved cfg id).1.registry = s.registry.globalRemove id := by
  unfold RoutingState.globalRemoved
  split
  · exact ⟨rfl, Or.inl rfl, rfl⟩
  · cases hl : s.mem.links with
    | none => exact ⟨rfl, Or.inl rfl, rfl⟩
    | some l =>
      cases hset : s.mem.sets l with
      | none =>
        have hrelease : s.mem.releaseLinks = s.mem.touchFreed := by
          simp [LinkMemory.releaseLinks, hl, hset]
        exact ⟨by simp only [hset]; rfl, Or.inr (by simp only [hset, hrelease]; rfl),
          by simp only [hset]; rfl⟩
      | some set =>
        simp only [hset]
        split
        · exact ⟨rfl, Or.inl rfl, rfl⟩
        · obtain ⟨hc, hm, hr⟩ := reportError_keeps cfg
            (RoutingState.withMemory { s with registry := s.registry.globalRemove id }
              s.mem.releaseLinks).1
          exact ⟨hc, Or.inr hm, hr⟩

end Events

/-! ### How a call moves on -/

/-- What an action other than the listing does to a call. -/
inductive LinkCall.Moves : RoutingAction → LinkCall → LinkCall → Prop
  | stays (a : RoutingAction) (k : LinkCall) : Moves a k k
  | ends (a : RoutingAction) (k : LinkCall) {k' : LinkCall} (h : k'.published = none) :
    Moves a k k'
  | requests (props created : Bool) (junk : ℕ × ℕ) (c : Wiring) :
    Moves (.requestLink props created junk) (.wiring c) (.waiting c)
  | fails (props created : Bool) (junk : ℕ × ℕ) (c : Wiring) {r : PwfError} (h : r ≠ .ok) :
    Moves (.requestLink props created junk) (.wiring c) (.waited c r)
  | resumes (timedOut : Bool) (c : Wiring) (r : PwfError) :
    Moves (.resumeLink timedOut) (.waiting c) (.waited c r)
  | goesOn (c : Wiring) (h : c.i + 1 < c.pairs) :
    Moves .recordLink (.waited c .ok) (.wiring { c with i := c.i + 1 })

section Moves

variable {cfg : StreamConfig} {s : RoutingState} {a : RoutingAction}

theorem call_moves (he : s.Enabled a) (ha : ∀ o t ok, a ≠ .listPorts o t ok) :
    LinkCall.Moves a s.call (s.step cfg a).1.call := by
  cases a with
  | linkEnter inCallback =>
    cases hr : linkRefusal cfg s inCallback with
    | some r =>
      simp only [RoutingState.step, hr]
      exact .stays _ _
    | none =>
      simp only [RoutingState.step, hr]
      exact .ends _ _ rfl
  | linkLookupFailed _ | awaitOwnPorts _ | ownPortsTimeout => exact .ends _ _ rfl
  | listPorts ownNode targetNode allocated => exact (ha _ _ _ rfl).elim
  | requestLink props created junk =>
    obtain ⟨c, hc⟩ := RoutingState.requests_call he.2
    simp only [RoutingState.step, hc, RoutingState.linkOne]
    split
    · exact .stays _ _
    · split
      · exact .fails _ _ _ c (by simp)
      · split
        · exact .fails _ _ _ c (by simp)
        · exact .requests _ _ _ c
  | resumeLink timedOut =>
    obtain ⟨c, hc, -⟩ := RoutingState.resumes_call he.2
    simp only [RoutingState.step, hc, RoutingState.resumed]
    split
    · simp only [RoutingState.withMemory, hc]
      exact .stays _ _
    · exact .resumes _ c _
  | recordLink =>
    obtain ⟨c, r, hc⟩ := RoutingState.records_call he.2
    simp only [RoutingState.step, hc, RoutingState.recorded]
    split
    · simp only [RoutingState.withMemory, hc]
      exact .stays _ _
    · split
      · exact .ends _ _ rfl
      · rename_i hr
        obtain rfl : r = .ok := not_not.mp hr
        split
        · rename_i hnext
          exact .goesOn c hnext
        · exact .ends _ _ rfl
  | info id i =>
    simp only [RoutingState.step, RoutingState.informed]
    split
    · exact .stays _ _
    · split
      · exact .stays _ _
      · split <;> exact .stays _ _
  | globalRemoved id =>
    rw [RoutingState.step, (globalRemoved_keeps id).1]
    exact .stays _ _
  | sourceLost =>
    rw [RoutingState.step, sourceLost_keeps.1]
    exact .stays _ _
  | callbackStop | stop =>
    simp only [RoutingState.step]
    split <;> exact .stays _ _
  | _ => exact .stays _ _

end Moves

/-! ### A stream to wire -/

def wiredCapture : StreamConfig := ⟨.audio, 2, false, false, true⟩

/-- A running capture stream of two channels, and a source with two of its own. -/
def captureGraph : List RoutingAction :=
  [.start, .nodeAdded 10, .nodeAdded 20,
    .portAdded ⟨11, 10, .input, 1⟩ true true, .portAdded ⟨12, 10, .input, 0⟩ true true,
    .portAdded ⟨21, 20, .output, 0⟩ true true, .portAdded ⟨22, 20, .output, 1⟩ true true]

/-- A call up to the wait for its first link. -/
def requestFirst : List RoutingAction :=
  [.linkEnter false, .awaitOwnPorts (some 10), .listPorts 10 20 true,
    .requestLink true true (0, 0)]

/-- That link comes up, and the call goes on. -/
def firstUp : List RoutingAction := [.info 0 ⟨true, .paused⟩, .resumeLink false, .recordLink]

end TinyPipewire.Stream
