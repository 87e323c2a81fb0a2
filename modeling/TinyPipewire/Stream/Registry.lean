import TinyPipewire.Lib.InsertBack
import Mathlib.Logic.Function.Basic
import Mathlib.Data.List.FinRange

/-!
# The registry of the graph

What a client knows of the nodes and ports of the graph. The ports stand in one growable
array: a new port is written behind the last, and a removal moves the last into the hole.
-/

namespace TinyPipewire.Stream

/-- `enum spa_direction`. -/
inductive SpaDirection
  | input
  | output
  deriving DecidableEq, Repr

/-- `struct pwf_pw_port_entry`, but for its name. -/
structure PortEntry where
  id : ℕ
  nodeId : ℕ
  direction : SpaDirection
  ordinal : ℕ
  deriving DecidableEq, Repr

/-- The node ids and the ports array of `struct pwf_pw_registry`. `gen` counts how often the
array was reallocated; a slot past `nPorts` keeps what was last written there. -/
structure Registry where
  nodes : List ℕ
  gen : ℕ
  slots : ℕ → PortEntry
  nPorts : ℕ
  capacity : ℕ

/-- A registry that is not bound yet. -/
def Registry.zeroed : Registry := ⟨[], 0, fun _ => ⟨0, 0, .input, 0⟩, 0, 0⟩

/-- A `const struct pwf_pw_port_entry*` into the array as it was allocated then. -/
structure PortPtr where
  gen : ℕ
  slot : ℕ
  deriving DecidableEq, Repr

namespace Registry

variable (reg : Registry)

/-- `pwf_pw_registry_add_node`, of a node with a name. -/
def addNode (id : ℕ) : Registry := { reg with nodes := reg.nodes ++ [id] }

/-- The array takes another entry as it stands, or was reallocated to. -/
def grow : Registry :=
  if reg.nPorts = reg.capacity then
    { reg with
      gen := reg.gen + 1
      capacity := if reg.capacity = 0 then 32 else reg.capacity * 2 }
  else reg

/-- `pwf_pw_registry_add_port`: `grown` answers `realloc`, which only a full array asks for,
and `named` the `strdup` of the port's name. -/
def addPort (e : PortEntry) (grown named : Bool) : Registry :=
  if reg.nPorts = reg.capacity ∧ grown = false then reg
  else if named = false then reg.grow
  else
    { reg.grow with
      slots := Function.update reg.slots reg.nPorts e
      nPorts := reg.nPorts + 1 }

/-- The slot of the port with global id `id`. -/
def findSlot (id : ℕ) : Option ℕ :=
  (List.range reg.nPorts).find? fun i => (reg.slots i).id == id

/-- `pwf_pw_registry_on_global_remove`. -/
def globalRemove (id : ℕ) : Registry :=
  let nodes := reg.nodes.erase id
  match reg.findSlot id with
  | some i =>
    { reg with
      nodes := nodes
      slots := Function.update reg.slots i (reg.slots (reg.nPorts - 1))
      nPorts := reg.nPorts - 1 }
  | none => { reg with nodes := nodes }

/-- The port in a slot is one of the node's, in the direction. -/
def matchesPort (nodeId : ℕ) (dir : SpaDirection) (i : ℕ) : Bool :=
  decide ((reg.slots i).nodeId = nodeId) && decide ((reg.slots i).direction = dir)

/-- One turn of the loop of `pwf_pw_registry_list_ports`. -/
def listPort (nodeId : ℕ) (dir : SpaDirection) (max : ℕ) (acc : ℕ × List ℕ) (i : ℕ) :
    ℕ × List ℕ :=
  if reg.matchesPort nodeId dir i = true then
    if max < acc.1 + 1 then (acc.1 + 1, acc.2)
    else (acc.1 + 1, InsertBack.insert (fun j => (reg.slots j).ordinal) i acc.2)
  else acc

/-- `pwf_pw_registry_list_ports`: how many ports there are, and the slots of at most `max` of
them by ordinal. -/
def listPorts (nodeId : ℕ) (dir : SpaDirection) (max : ℕ) : ℕ × List ℕ :=
  (List.range reg.nPorts).foldl (reg.listPort nodeId dir max) (0, [])

/-- The slots of the node's ports in the direction, as the registry has them. -/
def portsOf (nodeId : ℕ) (dir : SpaDirection) : List ℕ :=
  (List.range reg.nPorts).filter (reg.matchesPort nodeId dir)

variable {reg} {nodeId : ℕ} {dir : SpaDirection} {max : ℕ}

theorem foldl_listPort (is : List ℕ) :
    is.foldl (reg.listPort nodeId dir max) (0, []) =
      ((is.filter (reg.matchesPort nodeId dir)).length,
        InsertBack.sort (fun j => (reg.slots j).ordinal)
          ((is.filter (reg.matchesPort nodeId dir)).take max)) := by
  have hstep : reg.listPort nodeId dir max =
      InsertBack.collect (fun j => (reg.slots j).ordinal) (reg.matchesPort nodeId dir) max := rfl
  rw [hstep]
  exact InsertBack.foldl_collect is

variable (reg nodeId dir max) in
/-- The node's ports are counted, and, when they fit, listed by ordinal, each once. -/
theorem listPorts_spec :
    (reg.listPorts nodeId dir max).1 = (reg.portsOf nodeId dir).length ∧
      ((reg.portsOf nodeId dir).length ≤ max →
        (reg.listPorts nodeId dir max).2.Perm (reg.portsOf nodeId dir) ∧
          (reg.listPorts nodeId dir max).2.Pairwise fun i j =>
            (reg.slots i).ordinal ≤ (reg.slots j).ordinal) := by
  rw [listPorts, foldl_listPort]
  refine ⟨rfl, fun hle => ?_⟩
  have htake : ((List.range reg.nPorts).filter (reg.matchesPort nodeId dir)).take max =
      reg.portsOf nodeId dir := List.take_of_length_le hle
  simp only [htake]
  exact ⟨InsertBack.sort_perm, InsertBack.sort_sorted⟩

end Registry

end TinyPipewire.Stream
