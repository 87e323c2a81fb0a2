import TinyPipewire.Filter.Control
import TinyPipewire.Filter.Cycle

/-!
# The whole filter

The data side and the control side together, with the buffer pools PipeWire keeps for the
ports. A stop gives the held buffers back; a format, a cleared format and a dropped link
each end the port's pool.
-/

namespace TinyPipewire.Filter

variable {n : ℕ}

structure SystemState (n : ℕ) where
  data : DataState n
  control : LinkState n
  /-- `pw_filter_set_active`, or `pw_filter_connect`, which activates too. -/
  active : Bool
  /-- The pool each port has now, pools being numbered per port as they come. -/
  pool : Fin n → ℕ

def SystemState.init (n : ℕ) : SystemState n := ⟨.init n, .init n, false, fun _ => 0⟩

inductive SystemAction (n : ℕ)
  | data (a : DataAction n)
  | control (b : LinkAction n)

/-- The action runs the part of `pwf_filter_stop` that pauses processing. -/
def LinkState.resetsHold (s : LinkState n) : LinkAction n → Bool
  | .stopPause => true
  | .callbackStop => decide (s.state = .running)
  | _ => false

/-- The action runs the part of `pwf_filter_start` that resumes it. -/
def LinkState.activates (s : LinkState n) : LinkAction n → Bool
  | .startEnter ok => decide (n ≠ 0) && (decide (s.state ≠ .created) || ok)
  | .callbackStart => true
  | _ => false

/-- PipeWire removes the port's pool then. -/
def PortOut.endsPool : PortOut → Bool
  | .formatted | .formatCleared | .released _ => true
  | _ => false

/-- The action ends the pool of port `p`. -/
def LinkState.endsPool (cfg : Fin n → PortConfig) (errorCb : Bool) (s : LinkState n)
    (b : LinkAction n) (p : Fin n) : Bool :=
  (portTrace p (LinkState.out cfg errorCb s b)).any PortOut.endsPool

namespace SystemState

variable (cfg : Fin n → PortConfig) (codec : EventCodec) (errorCb : Bool) (s : SystemState n)

/-- Only an active filter is processed, what `pw_filter_dequeue_buffer` returns is of the
port's pool, and holds are reset only by a stop. -/
def fromGraph : DataAction n → Prop
  | .beginCycle _ _ => s.active = true
  | .prepare p dq _ => ∀ b ∈ dq, b.buffer.pool = s.pool p
  | .resetHold => False
  | _ => True

instance : DecidablePred s.fromGraph
  | .beginCycle _ _ => inferInstanceAs (Decidable (_ = _))
  | .prepare p dq _ => inferInstanceAs (Decidable (∀ b ∈ dq, b.buffer.pool = s.pool p))
  | .resetHold => inferInstanceAs (Decidable False)
  | .push _ _ | .stage _ _ | .pushOutput _ _ _ _ | .enterCallback | .setSize _ _
  | .leaveCallback | .finish _ | .endCycle => inferInstanceAs (Decidable True)

/-- What the action does on the data side. -/
def dataSteps : SystemAction n → List (DataAction n)
  | .data a => [a]
  | .control b => if s.control.resetsHold b = true then [.resetHold] else []

/-- What it does on the control side. -/
def controlSteps : SystemAction n → List (LinkAction n)
  | .data _ => []
  | .control b => [b]

def Enabled (a : SystemAction n) : Prop :=
  (dataMachine cfg codec).Valid s.data (s.dataSteps a) ∧
    (linkMachine cfg errorCb).Valid s.control (controlSteps a) ∧
    match a with
    | .data a => s.fromGraph a
    | .control _ => True

instance (a : SystemAction n) : Decidable (s.Enabled cfg codec errorCb a) :=
  match a with
  | .data _ => inferInstanceAs (Decidable (_ ∧ _ ∧ s.fromGraph _))
  | .control _ => inferInstanceAs (Decidable (_ ∧ _ ∧ True))

def next (a : SystemAction n) : SystemState n where
  data := (dataMachine cfg codec).exec s.data (s.dataSteps a)
  control := (linkMachine cfg errorCb).exec s.control (controlSteps a)
  active :=
    match a with
    | .data _ => s.active
    | .control b =>
      if s.control.resetsHold b = true then false else s.active || s.control.activates b
  pool := fun p =>
    match a with
    | .data _ => s.pool p
    | .control b =>
      if s.control.endsPool cfg errorCb b p = true then s.pool p + 1 else s.pool p

def out (a : SystemAction n) : List (DataOut n ⊕ (Fin n × PortOut)) :=
  ((dataMachine cfg codec).outs s.data (s.dataSteps a)).map .inl ++
    ((linkMachine cfg errorCb).outs s.control (controlSteps a)).map .inr

end SystemState

/-- The filter with its data thread, its loop thread and its callers. -/
def systemMachine (cfg : Fin n → PortConfig) (codec : EventCodec) (errorCb : Bool) :
    Machine (SystemState n) (SystemAction n) (DataOut n ⊕ (Fin n × PortOut)) where
  Enabled := SystemState.Enabled cfg codec errorCb
  next := SystemState.next cfg codec errorCb
  out := SystemState.out cfg codec errorCb

instance (cfg : Fin n → PortConfig) (codec : EventCodec) (errorCb : Bool) (s : SystemState n)
    (a : SystemAction n) : Decidable ((systemMachine cfg codec errorCb).Enabled s a) :=
  inferInstanceAs (Decidable (s.Enabled cfg codec errorCb a))

section Follows

variable (cfg : Fin n → PortConfig) (codec : EventCodec) (errorCb : Bool)

def dataTrace (ws : List (DataOut n ⊕ (Fin n × PortOut))) : List (DataOut n) :=
  ws.filterMap Sum.getLeft?

/-- The data side of the whole filter is the data side. -/
theorem system_follows_data :
    Machine.Follows (systemMachine cfg codec errorCb) (dataMachine cfg codec) (·.data)
      (fun s a => s.dataSteps a) dataTrace where
  valid := fun _ _ he => he.1
  next := fun _ _ _ => rfl
  out := fun s a _ => by
    simp [systemMachine, SystemState.out, dataTrace, List.filterMap_map, Function.comp_def]
  nil := rfl
  append := fun _ _ => List.filterMap_append

variable {cfg codec errorCb}

/-- So a run of the whole filter is one of the data side. -/
theorem data_run {xs : List (SystemAction n)}
    (h : (systemMachine cfg codec errorCb).Valid (.init n) xs) :
    ∃ zs, (dataMachine cfg codec).Valid (.init n) zs ∧
      ((systemMachine cfg codec errorCb).exec (.init n) xs).data =
        (dataMachine cfg codec).exec (.init n) zs ∧
      dataTrace ((systemMachine cfg codec errorCb).outs (.init n) xs) =
        (dataMachine cfg codec).outs (.init n) zs :=
  (system_follows_data cfg codec errorCb).run h

end Follows

end TinyPipewire.Filter
