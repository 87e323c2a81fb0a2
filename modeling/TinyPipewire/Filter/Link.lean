import TinyPipewire.Lib.Machine
import TinyPipewire.Filter.Port

/-!
# A port's link

The link half of `struct pwf_filter_port`, what each callback and call does to it, and
the port as a machine of its own. What the filter's state is at each of them is an
argument.
-/

namespace TinyPipewire.Filter

/-- `enum pwf_filter_state`. -/
inductive FilterState
  | created
  | running
  | stopped
  deriving DecidableEq, Repr

/-- `struct pwf_link_wait`. -/
structure LinkWait where
  done : Bool
  result : PwfError
  deriving DecidableEq, Repr

/-- The link fields of `struct pwf_filter_port`. Proxies are numbered as they are made. -/
structure PortLink where
  linkProxy : Option ℕ
  linkStateSeenActive : Bool
  linkLost : Bool
  lossReported : Bool
  linkWait : Option LinkWait
  deriving DecidableEq, Repr

/-- The link of a port that was just added. -/
def PortLink.zeroed : PortLink := ⟨none, false, false, false, none⟩

/-- `pwf_filter_claim_source_loss`. -/
def claimSourceLoss (st : FilterState) (l : PortLink) : PortLink × Bool :=
  if st ≠ .running ∨ l.lossReported = true then (l, false)
  else ({ l with lossReported := true }, true)

/-- `pwf_filter_link_on_info`, and whether it goes on to the error callback. -/
def linkOnInfo (st : FilterState) (l : PortLink) (i : PwLinkInfo) : PortLink × Bool :=
  if i.stateChanged = false then (l, false)
  else
    match i.state with
    | .paused | .active =>
      ({ l with linkStateSeenActive := true, linkWait := l.linkWait.map fun _ => ⟨true, .ok⟩ },
        false)
    | .error | .unlinked =>
      match l.linkWait with
      | some _ => ({ l with linkWait := some ⟨true, .invalidFormat⟩ }, false)
      | none =>
        if l.linkStateSeenActive = false then (l, false)
        else claimSourceLoss st { l with linkStateSeenActive := false, linkLost := true }
    | .init | .negotiating | .allocating => (l, false)

/-- The parameter a `param_changed` event is about. -/
inductive ParamId
  | format
  | other
  deriving DecidableEq, Repr

/-- `pwf_filter_on_param_changed` on a port; `param` is whether it is non-NULL. -/
def onParamChanged (cfg : PortConfig) (st : FilterState) (l : PortLink) (id : ParamId)
    (param : Bool) : PortLink × Bool :=
  if id ≠ .format then (l, false)
  else if param = true then ({ l with lossReported := false }, false)
  else if cfg.direction ≠ .input then (l, false)
  else claimSourceLoss st l

/-- `pwf_filter_port_link_release`. -/
def portLinkRelease (l : PortLink) : PortLink :=
  { l with
    linkProxy := none
    lossReported := l.lossReported || l.linkProxy.isSome
    linkStateSeenActive := false
    linkLost := false }

section Cases

variable (cfg : PortConfig) (st : FilterState) (l : PortLink)

/-- A loss is claimed while the filter runs, by whoever comes first. -/
theorem claimSourceLoss_cases :
    ((st ≠ .running ∨ l.lossReported = true) ∧ claimSourceLoss st l = (l, false)) ∨
      (st = .running ∧ l.lossReported = false ∧
        claimSourceLoss st l = ({ l with lossReported := true }, true)) := by
  by_cases h : st ≠ .running ∨ l.lossReported = true
  · exact Or.inl ⟨h, if_pos h⟩
  · refine Or.inr ⟨?_, ?_, if_neg h⟩
    · by_contra hs
      exact h (Or.inl hs)
    · by_contra hr
      exact h (Or.inr (by simpa using hr))

/-- A report settles a waiting call, or it takes down a link that was up, or it does
nothing. -/
theorem linkOnInfo_cases (i : PwLinkInfo) :
    ((i.stateChanged = true → i.state.isUp = false ∧
        (i.state.isDown = true → l.linkWait = none ∧ l.linkStateSeenActive = false)) ∧
      linkOnInfo st l i = (l, false)) ∨
    (i.stateChanged = true ∧ i.state.isUp = true ∧ linkOnInfo st l i =
      ({ l with linkStateSeenActive := true, linkWait := l.linkWait.map fun _ => ⟨true, .ok⟩ },
        false)) ∨
    (i.stateChanged = true ∧ i.state.isDown = true ∧ l.linkWait.isSome = true ∧
      linkOnInfo st l i = ({ l with linkWait := some ⟨true, .invalidFormat⟩ }, false)) ∨
    (i.stateChanged = true ∧ i.state.isDown = true ∧ l.linkWait = none ∧
      l.linkStateSeenActive = true ∧ linkOnInfo st l i =
        claimSourceLoss st { l with linkStateSeenActive := false, linkLost := true }) := by
  obtain ⟨changed, state⟩ := i
  cases changed with
  | false => simp [linkOnInfo]
  | true =>
    cases state <;> cases hw : l.linkWait <;> cases hs : l.linkStateSeenActive <;>
      simp [linkOnInfo, PwLinkState.isUp, PwLinkState.isDown, hw, hs]

/-- A new format unmutes the port, and a cleared one is an input port's loss. -/
theorem onParamChanged_cases (id : ParamId) (param : Bool) :
    ((id = .other ∨ (param = false ∧ cfg.direction = .output)) ∧
      onParamChanged cfg st l id param = (l, false)) ∨
    (id = .format ∧ param = true ∧
      onParamChanged cfg st l id param = ({ l with lossReported := false }, false)) ∨
    (id = .format ∧ param = false ∧ cfg.direction = .input ∧
      onParamChanged cfg st l id param = claimSourceLoss st l) := by
  cases id <;> cases param <;> cases hd : cfg.direction <;> simp [onParamChanged, hd]

end Cases

/-- An input port that holds its buffers. -/
def heldInput : PortConfig := ⟨.input, .video, false, true⟩

/-! ### The port as a machine -/

/-- Where a `pwf_filter_port_link` call is: nowhere, past its checks and looking its ports
up, or waiting for the link. -/
inductive CallPhase
  | idle
  | lookup
  | waiting
  deriving DecidableEq, Repr

/-- A port's link and the call on it. `formatted` is no field of the source: it tells
whether the port got a non-NULL format since its link was last requested. -/
structure LinkPort where
  link : PortLink
  call : CallPhase
  formatted : Bool
  deriving DecidableEq, Repr

def LinkPort.zeroed : LinkPort := ⟨.zeroed, .idle, false⟩

/-- What happens to a port. -/
inductive LinkStep
  /-- `pwf_filter_port_link` is called, from inside a callback or not. -/
  | enter (st : FilterState) (inCallback : Bool)
  /-- One of its lookups fails. -/
  | lookupFailed (r : PwfError)
  /-- It creates the link, or fails to. -/
  | create (id : Option ℕ)
  /-- It stops waiting: its wait is done, or the deadline passed. -/
  | resume (timedOut : Bool)
  | info (st : FilterState) (i : PwLinkInfo)
  | param (st : FilterState) (id : ParamId) (param : Bool)
  /-- The application drops the link. -/
  | release
  deriving DecidableEq, Repr

/-- What is seen of a port from outside. -/
inductive PortOut
  | refused (r : PwfError)
  | requested (id : ℕ)
  | returned (r : PwfError)
  | reported (id : ℕ) (state : PwLinkState)
  | formatted
  | formatCleared
  | errorCallback
  | released (id : ℕ)
  deriving DecidableEq, Repr

/-- The checks of `pwf_filter_port_link` before it blocks. -/
def linkRefusal (cfg : PortConfig) (st : FilterState) (l : PortLink) (inCallback : Bool) :
    Option PwfError :=
  if cfg.direction ≠ .input then some .invalidArg
  else if inCallback = true then some .inCallback
  else if l.linkProxy.isSome = true then some .invalidArg
  else if st ≠ .running then some .notConfigured
  else none

/-- What the call returns when it stops waiting. -/
def linkResult (l : PortLink) (timedOut : Bool) : PwfError :=
  if timedOut = true then .timeout
  else
    match l.linkWait with
    | some w => w.result
    | none => .timeout

/-- The error callback, when there is one. -/
def callbackOuts (errorCb reports : Bool) : List PortOut :=
  if errorCb = true ∧ reports = true then [.errorCallback] else []

/-- The released proxy, when there was one. -/
def releaseOuts (l : PortLink) : List PortOut := l.linkProxy.toList.map .released

namespace LinkPort

variable (cfg : PortConfig) (errorCb : Bool) (q : LinkPort)

def Enabled : LinkStep → Prop
  | .enter _ _ => q.call = .idle
  | .lookupFailed r =>
    q.call = .lookup ∧ r ∈ [PwfError.timeout, .connectFailed, .notFound, .noMemory]
  | .create _ => q.call = .lookup
  | .resume timedOut =>
    q.call = .waiting ∧ (timedOut = true ∨ ∃ w, q.link.linkWait = some w ∧ w.done = true)
  | .info _ _ => q.link.linkProxy.isSome = true
  | .param _ _ _ | .release => True

instance : DecidablePred q.Enabled
  | .enter _ _ => inferInstanceAs (Decidable (_ = _))
  | .lookupFailed _ => inferInstanceAs (Decidable (_ = _ ∧ _ ∈ _))
  | .create _ => inferInstanceAs (Decidable (_ = _))
  | .resume timedOut =>
    decidable_of_iff (q.call = .waiting ∧ (timedOut = true ∨ q.link.linkWait.any (·.done) = true))
      (by simp [Enabled, Option.any_eq_true])
  | .info _ _ => inferInstanceAs (Decidable (_ = _))
  | .param _ _ _ => inferInstanceAs (Decidable True)
  | .release => inferInstanceAs (Decidable True)

def next : LinkStep → LinkPort
  | .enter st inCallback =>
    match linkRefusal cfg st q.link inCallback with
    | some _ => q
    | none => { q with call := .lookup }
  | .lookupFailed _ => { q with call := .idle }
  | .create none => { q with call := .idle }
  | .create (some id) =>
    { link := { q.link with
        linkProxy := some id
        linkStateSeenActive := false
        linkLost := false
        linkWait := some ⟨false, .connectFailed⟩ }
      call := .waiting
      formatted := false }
  | .resume timedOut =>
    let l := { q.link with linkWait := none }
    { q with
      link := if linkResult q.link timedOut = .ok then l else portLinkRelease l
      call := .idle }
  | .info st i => { q with link := (linkOnInfo st q.link i).1 }
  | .param st id param =>
    { q with
      link := (onParamChanged cfg st q.link id param).1
      formatted := q.formatted || (id == .format && param) }
  | .release => { q with link := portLinkRelease q.link }

def out : LinkStep → List PortOut
  | .enter st inCallback => (linkRefusal cfg st q.link inCallback).toList.map .refused
  | .lookupFailed r => [.returned r]
  | .create none => [.returned .connectFailed]
  | .create (some id) => [.requested id]
  | .resume timedOut =>
    (if linkResult q.link timedOut = .ok then [] else releaseOuts q.link) ++
      [.returned (linkResult q.link timedOut)]
  | .info st i =>
    (if i.stateChanged = true then q.link.linkProxy.toList.map (.reported · i.state) else []) ++
      callbackOuts errorCb (linkOnInfo st q.link i).2
  | .param st id param =>
    (if id = .format then [if param = true then .formatted else .formatCleared] else []) ++
      callbackOuts errorCb (onParamChanged cfg st q.link id param).2
  | .release => releaseOuts q.link

end LinkPort

/-- One port with everything that happens to it. -/
def portMachine (cfg : PortConfig) (errorCb : Bool) : Machine LinkPort LinkStep PortOut where
  Enabled := LinkPort.Enabled
  next := LinkPort.next cfg
  out := LinkPort.out cfg errorCb

instance (cfg : PortConfig) (errorCb : Bool) (q : LinkPort) (a : LinkStep) :
    Decidable ((portMachine cfg errorCb).Enabled q a) :=
  inferInstanceAs (Decidable (q.Enabled a))

/-! ### What a step says -/

namespace LinkPort

variable (cfg : PortConfig) (errorCb : Bool) (q : LinkPort) (a : LinkStep)

/-- The step is one that says it, of a port like this. -/
def Says : PortOut → Prop
  | .refused r => ∃ st c, a = .enter st c ∧ linkRefusal cfg st q.link c = some r
  | .requested id => a = .create (some id)
  | .returned r => a = .lookupFailed r ∨ (a = .create none ∧ r = .connectFailed) ∨
      ∃ t, a = .resume t ∧ linkResult q.link t = r
  | .reported id s => ∃ st i, a = .info st i ∧ i.stateChanged = true ∧
      q.link.linkProxy = some id ∧ s = i.state
  | .released id => q.link.linkProxy = some id ∧
      ((∃ t, a = .resume t ∧ linkResult q.link t ≠ .ok) ∨ a = .release)
  | .formatted => ∃ st, a = .param st .format true
  | .formatCleared => ∃ st, a = .param st .format false
  | .errorCallback => errorCb = true ∧
      ((∃ st i, a = .info st i ∧ (linkOnInfo st q.link i).2 = true) ∨
        ∃ st id param, a = .param st id param ∧ (onParamChanged cfg st q.link id param).2 = true)

variable {cfg errorCb q a}

theorem mem_callbackOuts {reports : Bool} {w : PortOut} :
    w ∈ callbackOuts errorCb reports ↔ w = .errorCallback ∧ errorCb = true ∧ reports = true := by
  unfold callbackOuts
  split <;> simp_all

theorem mem_releaseOuts {l : PortLink} {w : PortOut} :
    w ∈ releaseOuts l ↔ ∃ id, l.linkProxy = some id ∧ w = .released id := by
  simp [releaseOuts, eq_comm]

theorem says_of_mem {w : PortOut} (h : w ∈ out cfg errorCb q a) : q.Says cfg errorCb a w := by
  cases a with
  | enter st c =>
    obtain ⟨r, hr, rfl⟩ := List.mem_map.mp h
    exact ⟨st, c, rfl, Option.mem_toList.mp hr⟩
  | lookupFailed r =>
    obtain rfl := List.mem_singleton.mp h
    exact Or.inl rfl
  | create o =>
    cases o with
    | none =>
      obtain rfl := List.mem_singleton.mp h
      exact Or.inr (Or.inl ⟨rfl, rfl⟩)
    | some id =>
      obtain rfl := List.mem_singleton.mp h
      rfl
  | resume t =>
    rcases List.mem_append.mp h with h | h
    · split at h
      · cases h
      · rename_i hr
        obtain ⟨id, hid, rfl⟩ := mem_releaseOuts.mp h
        exact ⟨hid, Or.inl ⟨t, rfl, hr⟩⟩
    · obtain rfl := List.mem_singleton.mp h
      exact Or.inr (Or.inr ⟨t, rfl, rfl⟩)
  | info st i =>
    rcases List.mem_append.mp h with h | h
    · split at h
      · rename_i hc
        obtain ⟨id, hid, rfl⟩ := List.mem_map.mp h
        exact ⟨st, i, rfl, hc, Option.mem_toList.mp hid, rfl⟩
      · cases h
    · obtain ⟨rfl, hcb, hi⟩ := mem_callbackOuts.mp h
      exact ⟨hcb, Or.inl ⟨st, i, rfl, hi⟩⟩
  | param st id param =>
    rcases List.mem_append.mp h with h | h
    · split at h
      · rename_i hid
        obtain rfl := List.mem_singleton.mp h
        subst hid
        cases param with
        | true => exact ⟨st, rfl⟩
        | false => exact ⟨st, rfl⟩
      · cases h
    · obtain ⟨rfl, hcb, hp⟩ := mem_callbackOuts.mp h
      exact ⟨hcb, Or.inr ⟨st, id, param, rfl, hp⟩⟩
  | release =>
    obtain ⟨id, hid, rfl⟩ := mem_releaseOuts.mp h
    exact ⟨hid, Or.inr rfl⟩

end LinkPort

end TinyPipewire.Filter
