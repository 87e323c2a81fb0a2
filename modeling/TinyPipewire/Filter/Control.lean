import TinyPipewire.Filter.Link
import TinyPipewire.Lib.History
import Mathlib.Logic.Function.Basic

/-!
# The control side of a filter

Application threads that link, unlink, start, stop and destroy, against the loop thread
that delivers link reports and formats and runs the error callback. A section under the
loop lock is one action; a call that takes the lock twice, or waits with it released, is
several, and anything else may come in between.
-/

namespace TinyPipewire.Filter

variable {n : ℕ}

/-- What the loop thread is dispatching while the error callback runs for a port: the
`info` event of the port's link, or the port's format. -/
inductive Dispatch (n : ℕ)
  | info (p : Fin n)
  | param (p : Fin n)
  deriving DecidableEq, Repr

structure LinkState (n : ℕ) where
  state : FilterState
  ports : Fin n → LinkPort
  nextProxy : ℕ
  dispatch : Option (Dispatch n)
  /-- The `pwf_filter_stop` calls that have yet to pause processing. -/
  stopping : ℕ
  /-- Those that have yet to release the links. -/
  releasing : ℕ
  /-- The `pwf_filter_start` calls that have yet to set the state. -/
  starting : ℕ
  /-- The `pwf_filter_port_unlink` calls that saw a link and have yet to release it. -/
  unlinking : Fin n → ℕ
  destroying : Bool
  destroyed : Bool

def LinkState.init (n : ℕ) : LinkState n where
  state := .created
  ports := fun _ => .zeroed
  nextProxy := 0
  dispatch := none
  stopping := 0
  releasing := 0
  starting := 0
  unlinking := fun _ => 0
  destroying := false
  destroyed := false

inductive LinkAction (n : ℕ)
  | linkEnter (p : Fin n) (inCallback : Bool)
  | linkLookupFailed (p : Fin n) (r : PwfError)
  /-- `ok` is whether `pw_core_create_object` succeeds. -/
  | linkCreate (p : Fin n) (ok : Bool)
  | linkResume (p : Fin n) (timedOut : Bool)
  | info (p : Fin n) (i : PwLinkInfo)
  | paramChanged (p : Fin n) (id : ParamId) (param : Bool)
  /-- The error callback calls `pwf_filter_stop` without drain. -/
  | callbackStop
  | callbackUnlink (p : Fin n)
  | callbackStart
  | callbackReturn
  | unlinkEnter (p : Fin n)
  | unlinkRelease (p : Fin n)
  | stopEnter
  /-- A stop has drained, if it was to, and pauses processing. -/
  | stopPause
  | stopRelease
  /-- `ok` is whether `pw_filter_connect` succeeds, which the first start calls. -/
  | startEnter (ok : Bool)
  | startFinish
  | destroyEnter
  | destroyFinish
  deriving DecidableEq

namespace LinkState

variable (cfg : Fin n → PortConfig) (errorCb : Bool) (s : LinkState n)

/-- The loop lock can be taken by an application thread. -/
def unlocked : Prop := s.dispatch = none

instance : Decidable s.unlocked := inferInstanceAs (Decidable (_ = _))

/-- What an action does to port `q`. -/
def portSteps (q : Fin n) : LinkAction n → List LinkStep
  | .linkEnter p inCallback => if p = q then [.enter s.state inCallback] else []
  | .linkLookupFailed p r => if p = q then [.lookupFailed r] else []
  | .linkCreate p ok => if p = q then [.create (if ok then some s.nextProxy else none)] else []
  | .linkResume p timedOut => if p = q then [.resume timedOut] else []
  | .info p i => if p = q then [.info s.state i] else []
  | .paramChanged p id param => if p = q then [.param s.state id param] else []
  | .callbackStop => if s.state = .running then [.release] else []
  | .callbackUnlink p =>
    if p = q ∧ (cfg p).direction = .input ∧ (s.ports p).link.linkProxy.isSome = true then
      [.release] else []
  | .unlinkRelease p => if p = q then [.release] else []
  | .stopRelease => [.release]
  | _ => []

/-- No call is in progress on the filter. -/
def quiet : Prop :=
  (∀ p, (s.ports p).call = .idle) ∧ s.stopping = 0 ∧ s.releasing = 0 ∧ s.starting = 0 ∧
    ∀ p, s.unlinking p = 0

instance : Decidable s.quiet := inferInstanceAs (Decidable (_ ∧ _ ∧ _ ∧ _ ∧ _))

/-- The action can be taken now; a destroy that has begun is the last call. -/
def canTake : LinkAction n → Prop
  | .linkEnter _ _ | .unlinkEnter _ | .stopEnter => s.destroying = false
  | .startEnter _ => s.destroying = false ∧ s.unlocked
  | .linkLookupFailed _ _ | .startFinish => True
  | .linkCreate _ _ | .linkResume _ _ => s.unlocked
  | .info _ _ | .paramChanged _ _ _ => s.dispatch = none
  | .callbackStop | .callbackUnlink _ | .callbackStart | .callbackReturn =>
    s.dispatch.isSome = true
  | .unlinkRelease _ | .stopPause | .stopRelease => s.unlocked
  | .destroyEnter => s.destroying = false ∧ s.quiet
  | .destroyFinish => s.destroying = true ∧ s.quiet ∧ s.unlocked

instance : DecidablePred s.canTake
  | .linkEnter _ _ => inferInstanceAs (Decidable (_ = _))
  | .unlinkEnter _ => inferInstanceAs (Decidable (_ = _))
  | .stopEnter => inferInstanceAs (Decidable (_ = _))
  | .startEnter _ => inferInstanceAs (Decidable (_ = _ ∧ s.unlocked))
  | .linkLookupFailed _ _ => inferInstanceAs (Decidable True)
  | .startFinish => inferInstanceAs (Decidable True)
  | .linkCreate _ _ => inferInstanceAs (Decidable s.unlocked)
  | .linkResume _ _ => inferInstanceAs (Decidable s.unlocked)
  | .info _ _ => inferInstanceAs (Decidable (_ = _))
  | .paramChanged _ _ _ => inferInstanceAs (Decidable (_ = _))
  | .callbackStop => inferInstanceAs (Decidable (_ = _))
  | .callbackUnlink _ => inferInstanceAs (Decidable (_ = _))
  | .callbackStart => inferInstanceAs (Decidable (_ = _))
  | .callbackReturn => inferInstanceAs (Decidable (_ = _))
  | .unlinkRelease _ => inferInstanceAs (Decidable s.unlocked)
  | .stopPause => inferInstanceAs (Decidable s.unlocked)
  | .stopRelease => inferInstanceAs (Decidable s.unlocked)
  | .destroyEnter => inferInstanceAs (Decidable (_ = _ ∧ s.quiet))
  | .destroyFinish => inferInstanceAs (Decidable (_ = _ ∧ s.quiet ∧ s.unlocked))

/-- A call that has begun takes its next step. -/
def pending : LinkAction n → Prop
  | .unlinkRelease p => 0 < s.unlinking p
  | .stopPause => 0 < s.stopping
  | .stopRelease => 0 < s.releasing
  | .startFinish => 0 < s.starting
  | _ => True

instance : DecidablePred s.pending
  | .unlinkRelease _ => inferInstanceAs (Decidable (_ < _))
  | .stopPause => inferInstanceAs (Decidable (_ < _))
  | .stopRelease => inferInstanceAs (Decidable (_ < _))
  | .startFinish => inferInstanceAs (Decidable (_ < _))
  | .linkEnter _ _ | .unlinkEnter _ | .stopEnter | .startEnter _ | .linkLookupFailed _ _
  | .linkCreate _ _ | .linkResume _ _ | .info _ _ | .paramChanged _ _ _ | .callbackStop
  | .callbackUnlink _ | .callbackStart | .callbackReturn | .destroyEnter
  | .destroyFinish => inferInstanceAs (Decidable True)

def Enabled (a : LinkAction n) : Prop :=
  s.destroyed = false ∧ s.canTake a ∧ s.pending a ∧
    ∀ p, (portMachine (cfg p) errorCb).Valid (s.ports p) (s.portSteps cfg p a)

instance (a : LinkAction n) : Decidable (s.Enabled cfg errorCb a) :=
  inferInstanceAs (Decidable (_ ∧ _ ∧ _ ∧ _))

/-- The callback the action goes on to. -/
def callback : LinkAction n → Option (Dispatch n)
  | .info p i =>
    if errorCb = true ∧ (linkOnInfo s.state (s.ports p).link i).2 = true then some (.info p)
    else none
  | .paramChanged p id param =>
    if errorCb = true ∧
        (onParamChanged (cfg p) s.state (s.ports p).link id param).2 = true then
      some (.param p)
    else none
  | _ => none

/-- The filter's own fields after an action. -/
def control : LinkAction n → LinkState n
  | .linkCreate _ ok => { s with nextProxy := if ok then s.nextProxy + 1 else s.nextProxy }
  | .info p i => { s with dispatch := s.callback cfg errorCb (.info p i) }
  | .paramChanged p id param =>
    { s with dispatch := s.callback cfg errorCb (.paramChanged p id param) }
  | .callbackStop => if s.state = .running then { s with state := .stopped } else s
  | .callbackStart => { s with state := .running }
  | .callbackReturn => { s with dispatch := none }
  | .unlinkEnter p =>
    if (cfg p).direction = .input ∧ (s.ports p).link.linkProxy.isSome = true then
      { s with unlinking := Function.update s.unlinking p (s.unlinking p + 1) }
    else s
  | .unlinkRelease p =>
    { s with unlinking := Function.update s.unlinking p (s.unlinking p - 1) }
  | .stopEnter => if s.state = .running then { s with stopping := s.stopping + 1 } else s
  | .stopPause =>
    { s with state := .stopped, stopping := s.stopping - 1, releasing := s.releasing + 1 }
  | .stopRelease => { s with releasing := s.releasing - 1 }
  | .startEnter ok =>
    if n = 0 ∨ (s.state = .created ∧ ok = false) then s
    else { s with starting := s.starting + 1 }
  | .startFinish => { s with state := .running, starting := s.starting - 1 }
  | .destroyEnter =>
    if s.state = .running then { s with destroying := true, stopping := s.stopping + 1 }
    else { s with destroying := true, releasing := s.releasing + 1 }
  | .destroyFinish => { s with destroyed := true }
  | .linkEnter _ _ | .linkLookupFailed _ _ | .linkResume _ _ | .callbackUnlink _ => s

def next (a : LinkAction n) : LinkState n :=
  { s.control cfg errorCb a with
    ports := fun p => (portMachine (cfg p) errorCb).exec (s.ports p) (s.portSteps cfg p a) }

def out (a : LinkAction n) : List (Fin n × PortOut) :=
  (List.finRange n).flatMap fun p =>
    ((portMachine (cfg p) errorCb).outs (s.ports p) (s.portSteps cfg p a)).map (p, ·)

end LinkState

/-- The control side of a filter with the given ports, with an error callback or without. -/
def linkMachine (cfg : Fin n → PortConfig) (errorCb : Bool) :
    Machine (LinkState n) (LinkAction n) (Fin n × PortOut) where
  Enabled := LinkState.Enabled cfg errorCb
  next := LinkState.next cfg errorCb
  out := LinkState.out cfg errorCb

instance (cfg : Fin n → PortConfig) (errorCb : Bool) (s : LinkState n) (a : LinkAction n) :
    Decidable ((linkMachine cfg errorCb).Enabled s a) :=
  inferInstanceAs (Decidable (s.Enabled cfg errorCb a))

/-! ### One port of the filter -/

/-- What is seen of port `p`. -/
def portTrace (p : Fin n) (ws : List (Fin n × PortOut)) : List PortOut :=
  ws.filterMap fun w => if w.1 = p then some w.2 else none

@[simp] theorem portTrace_append {p : Fin n} {us vs : List (Fin n × PortOut)} :
    portTrace p (us ++ vs) = portTrace p us ++ portTrace p vs := by simp [portTrace]

@[simp] theorem portTrace_out (cfg : Fin n → PortConfig) (errorCb : Bool) (s : LinkState n)
    (a : LinkAction n) (p : Fin n) : portTrace p (LinkState.out cfg errorCb s a) =
      (portMachine (cfg p) errorCb).outs (s.ports p) (s.portSteps cfg p a) := by
  rw [portTrace, LinkState.out, History.filterMap_flatMap_finRange (p := p)]
  · simp [List.filterMap_map]
  · intro q hq
    simp [List.filterMap_map, hq]

/-- The filter, seen from one of its ports, is that port's machine. -/
theorem port_follows (cfg : Fin n → PortConfig) (errorCb : Bool) (p : Fin n) :
    Machine.Follows (linkMachine cfg errorCb) (portMachine (cfg p) errorCb) (·.ports p)
      (fun s a => s.portSteps cfg p a) (portTrace p) where
  valid := fun _ _ he => he.2.2.2 p
  next := fun _ _ _ => rfl
  out := fun s a _ => portTrace_out cfg errorCb s a p
  nil := rfl
  append := fun _ _ => portTrace_append

end TinyPipewire.Filter
