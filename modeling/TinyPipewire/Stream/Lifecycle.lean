import TinyPipewire.Stream.Routing

/-!
# The life of a stream

One thread configures, starts, stops and destroys a stream; the loop thread reports what
becomes of its `pw_stream` and of the device it is linked to, and runs the error callback.
A section under the loop lock is one action. What a call writes after it released the lock,
and what it tests before it takes it, are actions of their own.
-/

namespace TinyPipewire.Stream

/-- `enum pw_stream_state`. -/
inductive PwStreamState
  | error
  | unconnected
  | connecting
  | paused
  | streaming
  deriving DecidableEq, Repr

/-- `lost_source` of `pwf_stream_on_state_changed`. -/
def lostSource (old new : PwStreamState) : Bool :=
  (new == .error || new == .unconnected) && (old == .streaming || old == .paused)

/-- Where the application's call is. -/
inductive LifeCall
  | idle
  /-- A format setter, before it destroys the old `pw_stream`. -/
  | reconfiguring (dmabuf : Bool)
  /-- `pw_stream_destroy` runs, for a format setter or for `pwf_stream_destroy`. -/
  | dying (dmabuf : Option Bool)
  /-- A format setter, without a `pw_stream` and before it makes one. -/
  | reconnecting (dmabuf : Bool)
  /-- A format setter whose new `pw_stream` is connected. -/
  | reconnected
  /-- `pwf_stream_start`, past its checks. -/
  | starting
  | started
  /-- `pwf_stream_stop`, past its checks, on its own or for `pwf_stream_destroy`. -/
  | stopping (drain destroying : Bool)
  | draining
  | paused (destroying : Bool)
  /-- `pwf_stream_link`, past its checks. -/
  | linking
  | wiring
  /-- `pwf_stream_destroy`, before it releases the links. -/
  | releasing
  | tearingDown
  | gone
  deriving DecidableEq, Repr

/-- The fields of `struct pwf_stream` its calls branch on. A `pw_stream` is numbered as it
is made, and a link set is told by its target's node id. -/
structure Lifecycle where
  state : StreamState
  formatSet : Bool
  useDmabuf : Bool
  target : Option String
  autoconnect : Bool
  errorCb : Bool
  links : Option ℕ
  pwStream : Option ℕ
  nextStream : ℕ
  /-- What PipeWire last reported of the `pw_stream`. -/
  pwState : PwStreamState
  /-- No field of the source: the last report was a loss no callback was called for. -/
  lossUntold : Bool
  call : LifeCall
  /-- The error callback runs. -/
  inErrorCb : Bool
  deriving DecidableEq

/-- A stream as `pwf_stream_alloc` makes it. -/
def Lifecycle.init : Lifecycle where
  state := .created
  formatSet := false
  useDmabuf := false
  target := none
  autoconnect := true
  errorCb := false
  links := none
  pwStream := none
  nextStream := 0
  pwState := .unconnected
  lossUntold := false
  call := .idle
  inErrorCb := false

inductive LifeAction
  | setErrorCallback (given : Bool)
  | setAutoconnect (enable : Bool)
  /-- `copied` is whether `strdup` succeeds. -/
  | setTarget (target : Option String) (copied : Bool)
  /-- A format setter is called; `valid` is whether it accepts the configuration. -/
  | formatEnter (valid dmabuf : Bool)
  /-- `pw_stream_destroy` is called on the old `pw_stream`. -/
  | destroyOld
  | oldDestroyed
  /-- Whether `pw_stream_new` and `pw_stream_connect` succeed. -/
  | connect (created connected : Bool)
  | formatFinish
  | startEnter
  | activate
  | startFinish
  | stopEnter (drain : Bool)
  /-- A stop pauses the `pw_stream`, or flushes it first. -/
  | pause
  | stopFinish
  | linkEnter
  /-- `pwf_stream_link` fails before it has a link set. -/
  | linkFailed (r : PwfError)
  | linkPublish (targetNode : ℕ)
  | linkDone (r : PwfError)
  | unlink
  | destroyEnter
  | releaseAll
  | stateChanged (new : PwStreamState)
  | paramChanged (isFormat param : Bool)
  | nodeRemoved (id : ℕ)
  | callbackStop
  | callbackStart
  | callbackUnlink
  | callbackReturn
  deriving DecidableEq

/-- The event an error callback is called from. -/
inductive ErrorCause
  | stateChanged
  | formatCleared
  | deviceRemoved
  deriving DecidableEq, Repr

inductive LifeOut
  /-- A PipeWire operation on `stream->pw_stream`. -/
  | operation (stream : Option ℕ)
  /-- The state of `pw_stream` `id` changed. -/
  | changed (id : ℕ) (old new : PwStreamState)
  | errorCallback (cause : ErrorCause)
  | returned (r : PwfError)
  deriving DecidableEq, Repr

namespace Lifecycle

variable (s : Lifecycle)

/-- The error callback is called, when there is one. -/
def reportError (cause : ErrorCause) : Lifecycle × List LifeOut :=
  if s.errorCb = true then ({ s with inErrorCb := true }, [.errorCallback cause]) else (s, [])

/-- The stream stops by itself, when it runs. -/
def loseSource (cause : ErrorCause) : Lifecycle × List LifeOut :=
  if s.state = .running then { s with state := .stopped }.reportError cause else (s, [])

/-- What PipeWire last reported. -/
def noteState (new : PwStreamState) : Lifecycle :=
  { s with
    pwState := new
    lossUntold := lostSource s.pwState new && !(s.state == .running && s.errorCb) }

/-- `pwf_stream_on_state_changed`. -/
def onStateChanged (new : PwStreamState) : Lifecycle × List LifeOut :=
  match s.pwStream with
  | none => (s, [])
  | some id =>
    let r := if lostSource s.pwState new = true then (s.noteState new).loseSource .stateChanged
      else (s.noteState new, [])
    (r.1, .changed id s.pwState new :: r.2)

/-- `pwf_stream_on_param_changed`. -/
def onParamChanged (isFormat param : Bool) : Lifecycle × List LifeOut :=
  if isFormat = false ∨ s.useDmabuf = false then (s, [])
  else if param = true then (s, [.operation s.pwStream])
  else s.loseSource .formatCleared

/-- `pwf_stream_on_node_removed`. -/
def onNodeRemoved (id : ℕ) : Lifecycle × List LifeOut :=
  if s.links ≠ some id then (s, []) else { s with links := none }.reportError .deviceRemoved

/-- The second half of `pwf_stream_internal_connect`. -/
def connectNew (dmabuf created connected : Bool) : Lifecycle × List LifeOut :=
  if created = false then ({ s with pwStream := none, call := .idle }, [.returned .connectFailed])
  else if connected = false then
    ({ s with pwStream := none, nextStream := s.nextStream + 1, call := .idle },
      [.returned .connectFailed])
  else
    ({ s with
        pwStream := some s.nextStream
        nextStream := s.nextStream + 1
        pwState := .unconnected
        lossUntold := false
        useDmabuf := dmabuf
        call := .reconnected },
      [.operation (some s.nextStream)])

/-- The checks of `pwf_stream_link` that come before it blocks. -/
def linkRefused : Option PwfError :=
  if s.autoconnect = true then some .invalidArg
  else if s.links.isSome = true then some .invalidArg
  else if s.state ≠ .running ∨ s.pwStream = none then some .notConfigured
  else none

/-- What the action does, and what is seen of it. -/
def step : LifeAction → Lifecycle × List LifeOut
  | .setErrorCallback given => ({ s with errorCb := given }, [])
  | .setAutoconnect enable =>
    if s.pwStream.isSome = true ∨ (enable = false ∧ s.target.isSome = true) then
      (s, [.returned .invalidArg])
    else ({ s with autoconnect := enable }, [.returned .ok])
  | .setTarget target copied =>
    -- NULL or "" clears the target
    let value := target.filter fun t => t ≠ ""
    if value.isSome = true ∧ s.autoconnect = false then (s, [.returned .invalidArg])
    else if value.isSome = true ∧ copied = false then (s, [.returned .noMemory])
    else ({ s with target := value }, [.returned .ok])
  | .formatEnter valid dmabuf =>
    if valid = false then (s, [.returned .invalidFormat])
    else if s.pwStream.isSome = true then
      ({ s with useDmabuf := false, call := .reconfiguring dmabuf }, [])
    else ({ s with call := .reconnecting dmabuf }, [])
  | .destroyOld =>
    match s.call with
    | .reconfiguring dmabuf => ({ s with call := .dying (some dmabuf) }, [])
    | .tearingDown =>
      ({ s with call := if s.pwStream.isSome = true then .dying none else .gone }, [])
    | _ => (s, [])
  | .oldDestroyed =>
    match s.call with
    | .dying (some dmabuf) => ({ s with pwStream := none, call := .reconnecting dmabuf }, [])
    | .dying none => ({ s with pwStream := none, call := .gone }, [])
    | _ => (s, [])
  | .connect created connected =>
    match s.call with
    | .reconnecting dmabuf => s.connectNew dmabuf created connected
    | _ => (s, [])
  | .formatFinish =>
    ({ s with formatSet := true, state := .formatSet, call := .idle }, [.returned .ok])
  | .startEnter =>
    if s.formatSet = false ∨ s.pwStream = none then (s, [.returned .notConfigured])
    else ({ s with call := .starting }, [])
  | .activate => ({ s with call := .started }, [.operation s.pwStream])
  | .startFinish => ({ s with state := .running, call := .idle }, [.returned .ok])
  | .stopEnter drain =>
    if s.state ≠ .running then (s, [.returned .ok])
    else ({ s with call := .stopping drain false }, [])
  | .pause =>
    match s.call with
    | .stopping true _ => ({ s with call := .draining }, [.operation s.pwStream])
    | .stopping false destroying =>
      ({ s with call := .paused destroying }, [.operation s.pwStream])
    | .draining => ({ s with call := .paused false }, [.operation s.pwStream])
    | _ => (s, [])
  | .stopFinish =>
    match s.call with
    | .paused true => ({ s with state := .stopped, call := .releasing }, [])
    | _ => ({ s with state := .stopped, call := .idle }, [.returned .ok])
  | .linkEnter =>
    match s.linkRefused with
    | some r => (s, [.returned r])
    | none => ({ s with call := .linking }, [])
  | .linkFailed r => ({ s with call := .idle }, [.returned r])
  | .linkPublish targetNode => ({ s with links := some targetNode, call := .wiring }, [])
  | .linkDone r =>
    (if r = .ok then { s with call := .idle } else { s with links := none, call := .idle },
      [.returned r])
  | .unlink =>
    if s.links = none then (s, [.returned .notConfigured])
    else ({ s with links := none }, [.returned .ok])
  | .destroyEnter =>
    ({ s with call := if s.state = .running then .stopping false true else .releasing }, [])
  | .releaseAll => ({ s with links := none, useDmabuf := false, call := .tearingDown }, [])
  | .stateChanged new => s.onStateChanged new
  | .paramChanged isFormat param => s.onParamChanged isFormat param
  | .nodeRemoved id => s.onNodeRemoved id
  | .callbackStop =>
    if s.state ≠ .running then (s, [])
    else ({ s with state := .stopped }, [.operation s.pwStream])
  | .callbackStart =>
    if s.formatSet = false ∨ s.pwStream = none then (s, [])
    else ({ s with state := .running }, [.operation s.pwStream])
  | .callbackUnlink => ({ s with links := none }, [])
  | .callbackReturn => ({ s with inErrorCb := false }, [])

/-- The call is where the action takes it on. -/
def atCall : LifeAction → Bool
  | .formatEnter _ _ | .startEnter | .stopEnter _ | .linkEnter | .unlink | .destroyEnter =>
    s.call == .idle
  | .setErrorCallback _ | .setAutoconnect _ | .setTarget _ _ => s.call == .idle || s.inErrorCb
  | .destroyOld => match s.call with | .reconfiguring _ | .tearingDown => true | _ => false
  | .oldDestroyed => match s.call with | .dying _ => true | _ => false
  | .connect _ _ => match s.call with | .reconnecting _ => true | _ => false
  | .formatFinish => s.call == .reconnected
  | .activate => s.call == .starting
  | .startFinish => s.call == .started
  | .pause => match s.call with | .stopping _ _ | .draining => true | _ => false
  | .stopFinish => match s.call with | .paused _ => true | _ => false
  | .linkFailed r =>
    s.call == .linking &&
      [PwfError.timeout, .connectFailed, .notFound, .invalidArg, .noMemory].contains r
  | .linkPublish _ => s.call == .linking
  | .linkDone _ => s.call == .wiring
  | .releaseAll => s.call == .releasing
  | .nodeRemoved _ => match s.call with | .dying _ | .gone => false | _ => true
  | .stateChanged _ | .paramChanged _ _ => s.pwStream.isSome
  | .callbackStop | .callbackStart | .callbackUnlink | .callbackReturn => s.inErrorCb

end Lifecycle

/-- The action needs the loop lock, which the loop thread has while the callback runs. -/
def LifeAction.takesLock : LifeAction → Bool
  | .destroyOld | .oldDestroyed | .connect _ _ | .activate | .pause | .unlink | .releaseAll
  | .stateChanged _ | .paramChanged _ _ | .nodeRemoved _ => true
  | .linkDone r => r != .ok
  | _ => false

/-- A playback stream does not listen to `param_changed`. -/
def LifeAction.listened (playback : Bool) : LifeAction → Bool
  | .paramChanged _ _ => !playback
  | _ => true

/-- The action can be taken now. -/
structure Lifecycle.Enabled (playback : Bool) (s : Lifecycle) (a : LifeAction) : Prop where
  atCall : s.atCall a = true
  unlocked : a.takesLock = true → s.inErrorCb = false
  listened : a.listened playback = true

instance (playback : Bool) (s : Lifecycle) (a : LifeAction) :
    Decidable (s.Enabled playback a) :=
  decidable_of_iff
    (s.atCall a = true ∧ (a.takesLock = true → s.inErrorCb = false) ∧ a.listened playback = true)
    ⟨fun h => ⟨h.1, h.2.1, h.2.2⟩, fun h => ⟨h.atCall, h.unlocked, h.listened⟩⟩

/-- A capture or playback stream with its application and the loop thread. -/
def lifeMachine (playback : Bool) : Machine Lifecycle LifeAction LifeOut where
  Enabled := Lifecycle.Enabled playback
  next := fun s a => (s.step a).1
  out := fun s a => (s.step a).2

instance (playback : Bool) (s : Lifecycle) (a : LifeAction) :
    Decidable ((lifeMachine playback).Enabled s a) :=
  inferInstanceAs (Decidable (s.Enabled playback a))

end TinyPipewire.Stream
