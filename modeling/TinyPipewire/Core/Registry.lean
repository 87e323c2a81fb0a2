import TinyPipewire.Lib.CString
import TinyPipewire.Lib.Machine
import TinyPipewire.Lib.SwapRemove
import TinyPipewire.Stream.Registry

/-!
# The caches of the registry

What `struct pwf_pw_registry` keeps of the graph's nodes and ports, with all they were announced
with. Each cache is a growable array: a global is written behind the last entry, and a removal
moves the last entry into the hole.
-/

namespace TinyPipewire.Core

open TinyPipewire.Stream (SpaDirection)
open SwapRemove (Mirrors)

/-! ### Globals -/

/-- The `PW_KEY_` keys the registry looks up. -/
inductive PwKey
  | nodeName
  | objectSerial
  | mediaClass
  | nodeDescription
  | portName
  | nodeId
  | portDirection
  | portId
  deriving DecidableEq, Repr

/-- `struct spa_dict`, in its own order; `spa_dict_lookup` is `List.lookup`. -/
abbrev SpaDict := List (PwKey × CString)

/-- The interface of a global. -/
inductive GlobalType
  | node
  | port
  | other
  deriving DecidableEq, Repr

/-- A global as it is announced; its properties may be NULL. -/
structure Global where
  type : GlobalType
  props : Option SpaDict
  deriving DecidableEq

/-- `struct pwf_pw_node_entry`. -/
structure NodeEntry where
  id : UInt32
  name : CString
  serial : UInt64
  mediaClass : Option CString
  description : Option CString
  deriving DecidableEq

/-- `struct pwf_pw_port_entry`. -/
structure PortEntry where
  id : UInt32
  nodeId : UInt32
  name : CString
  direction : SpaDirection
  ordinal : UInt32
  deriving DecidableEq

/-- `"out"`. -/
def outDirection : CString := ⟨['o', 'u', 't'], by simp⟩

/-- What `pwf_pw_registry_add_node` fills in, of a global with a node name. -/
def nodeEntry (id : UInt32) (props : SpaDict) : Option NodeEntry :=
  (props.lookup .nodeName).map fun name => {
    id := id
    name := name
    serial := ((props.lookup .objectSerial).map CString.strtoull).getD 0
    mediaClass := props.lookup .mediaClass
    description := props.lookup .nodeDescription }

/-- What `pwf_pw_registry_add_port` fills in, of a global with a port name and a node. A port
faces the way it says itself: `"out"` can feed an input. -/
def portEntry (id : UInt32) (props : SpaDict) : Option PortEntry :=
  match props.lookup .portName, props.lookup .nodeId with
  | some name, some node =>
    some {
      id := id
      nodeId := node.strtoull.toUInt32
      name := name
      direction := if props.lookup .portDirection = some outDirection then .output else .input
      ordinal := ((props.lookup .portId).map fun o => o.strtoull.toUInt32).getD 0 }
  | _, _ => none

/-- The node a global is, if it carries what a node needs. -/
def Global.node (id : UInt32) (g : Global) : Option NodeEntry :=
  if g.type = .node then g.props.bind (nodeEntry id) else none

/-- The port a global is, if it carries what a port needs. -/
def Global.port (id : UInt32) (g : Global) : Option PortEntry :=
  if g.type = .port then g.props.bind (portEntry id) else none

/-! ### The arrays -/

/-- What `realloc` and `strdup` answer while a global is cached. -/
structure Allocs where
  grown : Bool
  name : Bool
  mediaClass : Bool
  description : Bool
  deriving DecidableEq

/-- No allocation fails. -/
def Allocs.all : Allocs := ⟨true, true, true, true⟩

/-- The caches of `struct pwf_pw_registry`. -/
structure Registry where
  nodes : List NodeEntry
  nodesCapacity : ℕ
  ports : List PortEntry
  portsCapacity : ℕ
  deriving DecidableEq

/-- A registry that was just bound. -/
def Registry.zeroed : Registry := ⟨[], 0, [], 0⟩

/-- The capacity of an array that takes one more entry. -/
def grownCapacity (length capacity first : ℕ) : ℕ :=
  if length = capacity then (if capacity = 0 then first else capacity * 2) else capacity

namespace Registry

variable (reg : Registry)

/-- `pwf_pw_registry_add_node`. -/
def addNode (id : UInt32) (props : SpaDict) (allocs : Allocs) : Registry :=
  match nodeEntry id props with
  | none => reg
  | some e =>
    if reg.nodes.length = reg.nodesCapacity ∧ allocs.grown = false then reg
    else
      let capacity := grownCapacity reg.nodes.length reg.nodesCapacity 16
      if allocs.name = false then { reg with nodesCapacity := capacity }
      else
        { reg with
          nodesCapacity := capacity
          nodes := reg.nodes ++ [{ e with
            mediaClass := if allocs.mediaClass then e.mediaClass else none
            description := if allocs.description then e.description else none }] }

/-- `pwf_pw_registry_add_port`. -/
def addPort (id : UInt32) (props : SpaDict) (allocs : Allocs) : Registry :=
  match portEntry id props with
  | none => reg
  | some e =>
    if reg.ports.length = reg.portsCapacity ∧ allocs.grown = false then reg
    else
      let capacity := grownCapacity reg.ports.length reg.portsCapacity 32
      if allocs.name = false then { reg with portsCapacity := capacity }
      else { reg with portsCapacity := capacity, ports := reg.ports ++ [e] }

/-- `pwf_pw_registry_on_global`. -/
def onGlobal (id : UInt32) (g : Global) (allocs : Allocs) : Registry :=
  match g.props with
  | none => reg
  | some props =>
    match g.type with
    | .node => reg.addNode id props allocs
    | .port => reg.addPort id props allocs
    | .other => reg

/-- `pwf_pw_registry_on_global_remove`. -/
def onGlobalRemove (id : UInt32) : Registry :=
  { reg with
    nodes := SwapRemove.swapRemove (fun e => e.id == id) reg.nodes
    ports := SwapRemove.swapRemove (fun e => e.id == id) reg.ports }

/-- `pwf_pw_registry_find_node_by_name`; 0 if there is none. -/
def findNodeByName (name : CString) : UInt32 :=
  ((reg.nodes.find? fun e => e.name == name).map (·.id)).getD 0

/-- `pwf_pw_registry_find_node_by_serial`. -/
def findNodeBySerial (serial : UInt64) : UInt32 :=
  if serial = 0 then 0
  else ((reg.nodes.find? fun e => e.serial == serial).map (·.id)).getD 0

/-- `pwf_pw_registry_list_ports`: how many ports the node has in the direction, and at most
`max` of them by ordinal. -/
def listPorts (nodeId : UInt32) (dir : SpaDirection) (max : ℕ) : ℕ × List PortEntry :=
  reg.ports.foldl (InsertBack.collect (fun e => e.ordinal.toNat)
    (fun e => decide (e.nodeId = nodeId) && decide (e.direction = dir)) max) (0, [])

end Registry

/-! ### Runs -/

/-- The events of `pw_registry_events`. -/
inductive RegistryEvent
  | global (id : UInt32) (g : Global) (allocs : Allocs)
  | globalRemove (id : UInt32)
  deriving DecidableEq

/-- The globals that were announced and not removed. -/
abbrev LiveGlobals := UInt32 → Option Global

/-- The graph behind a registry: no two live globals have one id. -/
def graphMachine : Machine LiveGlobals RegistryEvent Empty where
  Enabled live a := match a with
    | .global id _ _ => live id = none
    | .globalRemove _ => True
  next live a := match a with
    | .global id g _ => Function.update live id (some g)
    | .globalRemove id => Function.update live id none
  out _ _ := []

instance (live : LiveGlobals) : ∀ a, Decidable (graphMachine.Enabled live a)
  | .global id _ _ => inferInstanceAs (Decidable (live id = none))
  | .globalRemove _ => isTrue trivial

/-- The event comes with no failing allocation. -/
def Allocated (_ : LiveGlobals) : RegistryEvent → Prop
  | .global _ _ allocs => allocs = .all
  | .globalRemove _ => True

/-- Events with unique live ids, and no failing allocation. -/
def ProperEvents (xs : List RegistryEvent) : Prop :=
  (graphMachine.restrict Allocated).Valid (fun _ => none) xs

instance (live : LiveGlobals) : ∀ a, Decidable (Allocated live a)
  | .global _ _ allocs => inferInstanceAs (Decidable (allocs = .all))
  | .globalRemove _ => isTrue trivial

/-- The graph after the events. -/
def liveAfter (xs : List RegistryEvent) : LiveGlobals := graphMachine.exec (fun _ => none) xs

/-- The registry's listener. -/
def Registry.on (reg : Registry) : RegistryEvent → Registry
  | .global id g allocs => reg.onGlobal id g allocs
  | .globalRemove id => reg.onGlobalRemove id

/-- The registry after the events. -/
def registryAfter (xs : List RegistryEvent) : Registry := xs.foldl Registry.on .zeroed

/-! ### The caches mirror the graph -/

/-- The caches hold exactly the live nodes and ports, each once. -/
structure Caches (reg : Registry) (live : LiveGlobals) : Prop where
  nodes : Mirrors NodeEntry.id (fun id g => Global.node id g) reg.nodes live
  ports : Mirrors PortEntry.id (fun id g => Global.port id g) reg.ports live

variable {reg : Registry} {live : LiveGlobals} {a : RegistryEvent} {xs ys : List RegistryEvent}
  {id : UInt32} {g : Global}

theorem nodeEntry_id {props : SpaDict} {e : NodeEntry} (h : nodeEntry id props = some e) :
    e.id = id := by
  obtain ⟨name, -, rfl⟩ := Option.map_eq_some_iff.mp h
  rfl

theorem portEntry_id {props : SpaDict} {e : PortEntry} (h : portEntry id props = some e) :
    e.id = id := by
  unfold portEntry at h
  split at h
  · obtain rfl := Option.some.inj h
    rfl
  · cases h

theorem Global.node_id {e : NodeEntry} (h : g.node id = some e) : e.id = id := by
  unfold Global.node at h
  split at h
  · obtain ⟨props, -, he⟩ := Option.bind_eq_some_iff.mp h
    exact nodeEntry_id he
  · cases h

theorem Global.port_id {e : PortEntry} (h : g.port id = some e) : e.id = id := by
  unfold Global.port at h
  split at h
  · obtain ⟨props, -, he⟩ := Option.bind_eq_some_iff.mp h
    exact portEntry_id he
  · cases h

/-- With every allocation, a node is written behind the others if it has a name. -/
theorem addNode_entries (props : SpaDict) :
    (reg.addNode id props .all).nodes = reg.nodes ++ (nodeEntry id props).toList ∧
      (reg.addNode id props .all).ports = reg.ports := by
  unfold Registry.addNode
  cases nodeEntry id props <;> simp [Allocs.all]

theorem addPort_entries (props : SpaDict) :
    (reg.addPort id props .all).ports = reg.ports ++ (portEntry id props).toList ∧
      (reg.addPort id props .all).nodes = reg.nodes := by
  unfold Registry.addPort
  cases portEntry id props <;> simp [Allocs.all]

variable (reg id g) in
theorem onGlobal_entries :
    (reg.onGlobal id g .all).nodes = reg.nodes ++ (g.node id).toList ∧
      (reg.onGlobal id g .all).ports = reg.ports ++ (g.port id).toList := by
  unfold Registry.onGlobal Global.node Global.port
  cases hp : g.props with
  | none => simp
  | some props =>
    cases ht : g.type with
    | node => simpa using addNode_entries props
    | port => simpa [and_comm] using addPort_entries props
    | other => simp

theorem caches_next (he : (graphMachine.restrict Allocated).Enabled live a)
    (h : Caches reg live) : Caches (reg.on a) (graphMachine.next live a) := by
  cases a with
  | global id g allocs =>
    obtain ⟨hfresh, rfl⟩ : live id = none ∧ allocs = .all := he
    obtain ⟨hnodes, hports⟩ := onGlobal_entries reg id g
    constructor
    · have hadd := h.nodes.add (k := id) (g := g) (fun e => Global.node_id) hfresh
      rw [← hnodes] at hadd
      exact hadd
    · have hadd := h.ports.add (k := id) (g := g) (fun e => Global.port_id) hfresh
      rw [← hports] at hadd
      exact hadd
  | globalRemove id => exact ⟨h.nodes.remove id, h.ports.remove id⟩

theorem registryAfter_concat (xs : List RegistryEvent) (a : RegistryEvent) :
    registryAfter (xs ++ [a]) = (registryAfter xs).on a := by
  simp [registryAfter]

theorem liveAfter_concat (xs : List RegistryEvent) (a : RegistryEvent) :
    liveAfter (xs ++ [a]) = graphMachine.next (liveAfter xs) a := by
  simp [liveAfter]

/-- After every proper run the caches mirror the graph. -/
theorem caches_run (h : ProperEvents xs) : Caches (registryAfter xs) (liveAfter xs) := by
  refine Machine.run_induction (P := fun ys => Caches (registryAfter ys) (liveAfter ys)) ?_ ?_ h
  · exact ⟨SwapRemove.mirrors_nil, SwapRemove.mirrors_nil⟩
  · intro ys a _ ha ih
    rw [registryAfter_concat, liveAfter_concat]
    exact caches_next ha ih

/-! ### Ids, whatever is allocated -/

/-- The event announces no global under the id of the core. -/
def NotCore (_ : LiveGlobals) : RegistryEvent → Prop
  | .global id _ _ => id ≠ 0
  | .globalRemove _ => True

instance (live : LiveGlobals) : ∀ a, Decidable (NotCore live a)
  | .global id _ _ => inferInstanceAs (Decidable (id ≠ 0))
  | .globalRemove _ => isTrue trivial

/-- The cached nodes are live, and told apart by their ids; none has the core's. -/
structure Registry.Keyed (reg : Registry) (live : LiveGlobals) : Prop where
  nodup : (reg.nodes.map NodeEntry.id).Nodup
  live : ∀ e ∈ reg.nodes, live e.id ≠ none
  core : ∀ e ∈ reg.nodes, e.id ≠ 0

/-- A node is added under its id, or nothing is. -/
theorem addNode_cases (reg : Registry) (id : UInt32) (props : SpaDict) (allocs : Allocs) :
    (reg.addNode id props allocs).ports = reg.ports ∧
      ((reg.addNode id props allocs).nodes = reg.nodes ∨
        ∃ e : NodeEntry, e.id = id ∧ (reg.addNode id props allocs).nodes = reg.nodes ++ [e]) := by
  unfold Registry.addNode
  split
  · exact ⟨rfl, Or.inl rfl⟩
  · rename_i e he
    have hid := nodeEntry_id he
    split
    · exact ⟨rfl, Or.inl rfl⟩
    · dsimp only
      split
      · exact ⟨rfl, Or.inl rfl⟩
      · exact ⟨rfl, Or.inr ⟨_, by exact hid, rfl⟩⟩

/-- The same of a port. -/
theorem addPort_cases (reg : Registry) (id : UInt32) (props : SpaDict) (allocs : Allocs) :
    (reg.addPort id props allocs).nodes = reg.nodes ∧
      ((reg.addPort id props allocs).ports = reg.ports ∨
        ∃ e : PortEntry, e.id = id ∧ (reg.addPort id props allocs).ports = reg.ports ++ [e]) := by
  unfold Registry.addPort
  split
  · exact ⟨rfl, Or.inl rfl⟩
  · rename_i e he
    split
    · exact ⟨rfl, Or.inl rfl⟩
    · dsimp only
      split
      · exact ⟨rfl, Or.inl rfl⟩
      · exact ⟨rfl, Or.inr ⟨e, portEntry_id he, rfl⟩⟩

/-- A global adds at most one node, or at most one port, under its own id. -/
theorem onGlobal_adds (reg : Registry) (id : UInt32) (g : Global) (allocs : Allocs) :
    ((reg.onGlobal id g allocs).nodes = reg.nodes ∨
        ∃ e : NodeEntry, e.id = id ∧ (reg.onGlobal id g allocs).nodes = reg.nodes ++ [e]) ∧
      ((reg.onGlobal id g allocs).ports = reg.ports ∨
        ∃ e : PortEntry, e.id = id ∧ (reg.onGlobal id g allocs).ports = reg.ports ++ [e]) := by
  unfold Registry.onGlobal
  split
  · exact ⟨Or.inl rfl, Or.inl rfl⟩
  · split
    · obtain ⟨hports, hnodes⟩ := addNode_cases reg id _ allocs
      exact ⟨hnodes, Or.inl hports⟩
    · obtain ⟨hnodes, hports⟩ := addPort_cases reg id _ allocs
      exact ⟨Or.inl hnodes, hports⟩
    · exact ⟨Or.inl rfl, Or.inl rfl⟩

/-- The ids in use, but for the core's. -/
def LiveGlobals.InUse (live : LiveGlobals) (id : UInt32) : Prop := live id ≠ none ∧ id ≠ 0

theorem keyed_iff : reg.Keyed live ↔ SwapRemove.Keyed NodeEntry.id reg.nodes live.InUse := by
  constructor
  · intro h
    exact ⟨h.nodup, fun e he => ⟨h.live e he, h.core e he⟩⟩
  · intro h
    exact ⟨h.nodup, fun e he => (h.live e he).1, fun e he => (h.live e he).2⟩

section Entries

variable {α : Type} {key : α → UInt32} {l l' : List α}

/-- A new global adds at most one entry to a list, under its own id. -/
theorem keyed_global (he : (graphMachine.restrict NotCore).Enabled live (.global id g allocs))
    (h : SwapRemove.Keyed key l live.InUse) (hl : l' = l ∨ ∃ e, key e = id ∧ l' = l ++ [e]) :
    SwapRemove.Keyed key l'
      (LiveGlobals.InUse (graphMachine.next live (.global id g allocs))) := by
  obtain ⟨hfresh, hcore⟩ : live id = none ∧ id ≠ 0 := he
  have hstill : ∀ k, (live.InUse k ∨ k = id) →
      LiveGlobals.InUse (Function.update live id (some g)) k := by
    intro k hk
    by_cases hki : k = id
    · exact ⟨by simp [hki], hki ▸ hcore⟩
    · obtain ⟨hlive, hne⟩ := hk.resolve_right hki
      exact ⟨by rwa [Function.update_of_ne hki], hne⟩
  rcases hl with rfl | ⟨e, rfl, rfl⟩
  · exact h.mono fun k hk => hstill k (Or.inl hk)
  · exact (h.concat fun hin => hin.1 hfresh).mono hstill

theorem keyed_globalRemove (id : UInt32) (h : SwapRemove.Keyed key l live.InUse) :
    SwapRemove.Keyed key (SwapRemove.swapRemove (fun e => key e == id) l)
      (LiveGlobals.InUse (graphMachine.next live (.globalRemove id))) := by
  refine (h.remove id).mono ?_
  rintro k ⟨⟨hlive, hne⟩, hk⟩
  exact ⟨by simpa [graphMachine, hk] using hlive, hne⟩

end Entries

theorem keyed_next (he : (graphMachine.restrict NotCore).Enabled live a) (h : reg.Keyed live) :
    (reg.on a).Keyed (graphMachine.next live a) := by
  rw [keyed_iff] at h ⊢
  cases a with
  | global id g allocs => exact keyed_global he h (onGlobal_adds reg id g allocs).1
  | globalRemove id => exact keyed_globalRemove id h

theorem keyed_run (h : (graphMachine.restrict NotCore).Valid (fun _ => none) xs) :
    (registryAfter xs).Keyed (liveAfter xs) := by
  refine Machine.run_induction (P := fun ys => (registryAfter ys).Keyed (liveAfter ys)) ?_ ?_ h
  · exact ⟨List.nodup_nil, by simp [registryAfter, Registry.zeroed],
      by simp [registryAfter, Registry.zeroed]⟩
  · intro ys a _ ha ih
    rw [registryAfter_concat, liveAfter_concat]
    exact keyed_next ha ih

/-! ### Listing and picking a port -/

/-- Two live ports of one node that face the same way have different ordinals. -/
def OrdinalsUnique (live : LiveGlobals) : Prop :=
  ∀ id id' g g' e e', live id = some g → live id' = some g' → g.port id = some e →
    g'.port id' = some e' → e.nodeId = e'.nodeId → e.direction = e'.direction →
    e.ordinal = e'.ordinal → e = e'

/-- The condition on the graph is one on the cache. -/
theorem ordinalsUnique_iff (h : Caches reg live) :
    OrdinalsUnique live ↔ ∀ e ∈ reg.ports, ∀ e' ∈ reg.ports, e.nodeId = e'.nodeId →
      e.direction = e'.direction → e.ordinal = e'.ordinal → e = e' := by
  constructor
  · intro hu e he e' he'
    obtain ⟨g, hg, hge⟩ := (h.ports.mem e).mp he
    obtain ⟨g', hg', hge'⟩ := (h.ports.mem e').mp he'
    exact hu e.id e'.id g g' e e' hg hg' hge hge'
  · intro hu id id' g g' e e' hg hg' hge hge'
    have hid : e.id = id := Global.port_id hge
    have hid' : e'.id = id' := Global.port_id hge'
    subst hid hid'
    exact hu e ((h.ports.mem e).mpr ⟨g, hg, hge⟩) e' ((h.ports.mem e').mpr ⟨g', hg', hge'⟩)

/-- The listing counts the node's ports and sorts the first of them. -/
theorem listPorts_eq (reg : Registry) (nodeId : UInt32) (dir : SpaDirection) (max : ℕ) :
    let ports := reg.ports.filter fun e =>
      decide (e.nodeId = nodeId) && decide (e.direction = dir)
    reg.listPorts nodeId dir max =
      (ports.length, InsertBack.sort (fun e => e.ordinal.toNat) (ports.take max)) :=
  InsertBack.foldl_collect reg.ports

/-- Caches of one graph list the same ports, if they fit. -/
theorem listPorts_congr {reg' : Registry} (h : Caches reg live) (h' : Caches reg' live)
    (hu : OrdinalsUnique live) (nodeId : UInt32) (dir : SpaDirection) (max : ℕ) :
    (reg.listPorts nodeId dir max).1 = (reg'.listPorts nodeId dir max).1 ∧
      ((reg.listPorts nodeId dir max).1 ≤ max →
        (reg.listPorts nodeId dir max).2 = (reg'.listPorts nodeId dir max).2) := by
  have hperm := (h.ports.perm h'.ports).filter fun e =>
    decide (e.nodeId = nodeId) && decide (e.direction = dir)
  rw [listPorts_eq, listPorts_eq]
  refine ⟨hperm.length_eq, fun hle => ?_⟩
  dsimp only at hle ⊢
  rw [List.take_of_length_le hle, List.take_of_length_le (hperm.length_eq ▸ hle)]
  refine InsertBack.sort_eq_of_perm hperm ?_
  intro x hx y hy hxy
  obtain ⟨hx, hxn, hxd⟩ : x ∈ reg.ports ∧ x.nodeId = nodeId ∧ x.direction = dir := by
    simpa using hx
  obtain ⟨hy, hyn, hyd⟩ : y ∈ reg.ports ∧ y.nodeId = nodeId ∧ y.direction = dir := by
    simpa using hy
  exact (ordinalsUnique_iff h).mp hu x hx y hy (hxn.trans hyn.symm) (hxd.trans hyd.symm)
    (UInt32.toNat_inj.mp hxy)

/-- `PWF_TARGET_PORT_ATTEMPTS`. -/
def targetPortAttempts : ℕ := 10

/-- `PWF_MAX_TARGET_PORTS`. -/
def maxTargetPorts : ℕ := 64

/-- The loop of `pwf_pick_target_port`, with the attempts left and the registry as each of them
finds it: a round-trip lies between two, and the last to succeed ends the list. -/
def pickFrom (nodeId : UInt32) : ℕ → List Registry → UInt32
  | 0, _ => 0
  | _, [] => 0
  | attempts + 1, reg :: seen =>
    let (n, outs) := reg.listPorts nodeId .output maxTargetPorts
    if n > 0 then (outs.head?.map (·.id)).getD 0 else pickFrom nodeId attempts seen

/-- `pwf_pick_target_port`. -/
def pickTargetPort (nodeId : UInt32) (seen : List Registry) : UInt32 :=
  pickFrom nodeId targetPortAttempts seen

/-- Two clients see one graph, in which the node has no more outputs than are considered. -/
structure SameGraph (nodeId : UInt32) (xs ys : List RegistryEvent) : Prop where
  left : ProperEvents xs
  right : ProperEvents ys
  live : liveAfter xs = liveAfter ys
  ordinals : OrdinalsUnique (liveAfter xs)
  few : ((registryAfter xs).listPorts nodeId .output maxTargetPorts).1 ≤ maxTargetPorts

theorem SameGraph.caches {nodeId : UInt32} (h : SameGraph nodeId xs ys) :
    Caches (registryAfter xs) (liveAfter xs) ∧ Caches (registryAfter ys) (liveAfter xs) :=
  ⟨caches_run h.left, h.live ▸ caches_run h.right⟩

theorem pickFrom_congr {nodeId : UInt32} (attempts : ℕ) {seen seen' : List (List RegistryEvent)}
    (h : List.Forall₂ (SameGraph nodeId) seen seen') :
    pickFrom nodeId attempts (seen.map registryAfter) =
      pickFrom nodeId attempts (seen'.map registryAfter) := by
  induction h generalizing attempts with
  | nil => rfl
  | cons hsame hrest ih =>
    cases attempts with
    | zero => rfl
    | succ attempts =>
      obtain ⟨hxs, hys⟩ := hsame.caches
      have hlist := listPorts_congr hxs hys hsame.ordinals nodeId .output maxTargetPorts
      simp only [List.map_cons, pickFrom, hlist.1, hlist.2 hsame.few, ih attempts]

/-! ### The port picked of a node with many -/

/-- A global that goes and comes again. -/
def announcedAgain (xs : List RegistryEvent) (id : UInt32) (g : Global) : List RegistryEvent :=
  xs ++ [.globalRemove id] ++ [.global id g .all]

theorem announcedAgain_proper (h : ProperEvents xs) : ProperEvents (announcedAgain xs id g) := by
  have hremoved : ProperEvents (xs ++ [.globalRemove id]) :=
    Machine.valid_append.mpr ⟨h, ⟨trivial, trivial⟩, trivial⟩
  refine Machine.valid_append.mpr ⟨hremoved, ⟨?_, rfl⟩, trivial⟩
  rw [Machine.exec_restrict]
  change liveAfter (xs ++ [.globalRemove id]) id = none
  rw [liveAfter_concat]
  simp [graphMachine]

theorem announcedAgain_live (hg : liveAfter xs id = some g) :
    liveAfter (announcedAgain xs id g) = liveAfter xs := by
  rw [announcedAgain, liveAfter_concat, liveAfter_concat]
  funext k
  by_cases hk : k = id
  · subst hk
    simp [graphMachine, hg]
  · simp [graphMachine, hk]

/-- Its entry is the last one then. -/
theorem announcedAgain_ports : (registryAfter (announcedAgain xs id g)).ports =
    SwapRemove.swapRemove (fun e => e.id == id) (registryAfter xs).ports ++
      (g.port id).toList := by
  rw [announcedAgain, registryAfter_concat, registryAfter_concat]
  exact (onGlobal_entries _ id g).2

/-- The output ports of a node, in the order of the cache. -/
def Registry.outputs (reg : Registry) (nodeId : UInt32) : List PortEntry :=
  reg.ports.filter fun e => decide (e.nodeId = nodeId) && decide (e.direction = .output)

/-- The port picked is one of the first that are listed. -/
theorem pickTargetPort_mem {nodeId : UInt32} (h : 0 < (reg.outputs nodeId).length) :
    ∃ e ∈ (reg.outputs nodeId).take maxTargetPorts, pickTargetPort nodeId [reg] = e.id := by
  have hlist := listPorts_eq reg nodeId .output maxTargetPorts
  have hperm : (InsertBack.sort (fun e : PortEntry => e.ordinal.toNat)
      ((reg.outputs nodeId).take maxTargetPorts)).Perm
        ((reg.outputs nodeId).take maxTargetPorts) := InsertBack.sort_perm
  cases hsort : InsertBack.sort (fun e : PortEntry => e.ordinal.toNat)
      ((reg.outputs nodeId).take maxTargetPorts) with
  | nil =>
    have hlen := hperm.length_eq
    rw [hsort, List.length_take, List.length_nil, maxTargetPorts] at hlen
    omega
  | cons e es =>
    have he : e ∈ (reg.outputs nodeId).take maxTargetPorts :=
      hperm.mem_iff.mp (hsort ▸ List.mem_cons_self)
    refine ⟨e, he, ?_⟩
    have hlisted : reg.listPorts nodeId .output maxTargetPorts =
        ((reg.outputs nodeId).length, e :: es) := hlist.trans (by rw [← hsort]; rfl)
    rw [pickTargetPort, targetPortAttempts, pickFrom, hlisted]
    simp [h]

/-- Of a node with more outputs than are considered another port is picked once the one that was
picked has gone and come again. -/
theorem pick_announcedAgain {nodeId : UInt32} (h : ProperEvents xs)
    (hmany : maxTargetPorts < ((registryAfter xs).outputs nodeId).length) :
    ∃ id g, liveAfter xs id = some g ∧ pickTargetPort nodeId [registryAfter xs] = id ∧
      pickTargetPort nodeId [registryAfter (announcedAgain xs id g)] ≠ id := by
  have hcaches := caches_run h
  obtain ⟨e, hin, hpick⟩ := pickTargetPort_mem (Nat.zero_lt_of_lt hmany)
  obtain ⟨hport, hnode⟩ := List.mem_filter.mp (List.mem_of_mem_take hin)
  obtain ⟨g, hg, hge⟩ := (hcaches.ports.mem e).mp hport
  refine ⟨e.id, g, hg, hpick, ?_⟩
  -- its entry then stands behind all those that are considered
  set left := (SwapRemove.swapRemove (fun e' : PortEntry => e'.id == e.id)
    (registryAfter xs).ports).filter fun e' =>
      decide (e'.nodeId = nodeId) && decide (e'.direction = .output) with hleft
  have hagain : (registryAfter (announcedAgain xs e.id g)).outputs nodeId = left ++ [e] := by
    have hone : [e].filter (fun e' => decide (e'.nodeId = nodeId) &&
        decide (e'.direction = .output)) = [e] := List.filter_eq_self.mpr (by simpa using hnode)
    rw [Registry.outputs, announcedAgain_ports, hge, List.filter_append, ← hleft,
      Option.toList_some, hone]
  have hproper : ProperEvents (announcedAgain xs e.id g) := announcedAgain_proper h
  have hcaches' := caches_run hproper
  rw [announcedAgain_live hg] at hcaches'
  have hlen : left.length + 1 = ((registryAfter xs).outputs nodeId).length := by
    have hperm := (hcaches'.ports.perm hcaches.ports).filter fun e' : PortEntry =>
      decide (e'.nodeId = nodeId) && decide (e'.direction = .output)
    have hsame := hperm.length_eq
    change ((registryAfter (announcedAgain xs e.id g)).outputs nodeId).length = _ at hsame
    rw [hagain, List.length_append] at hsame
    exact hsame
  obtain ⟨e', hin', hpick'⟩ := @pickTargetPort_mem
    (registryAfter (announcedAgain xs e.id g)) nodeId (by rw [hagain]; simp)
  rw [hpick']
  rw [hagain, List.take_append_of_le_length (by omega)] at hin'
  have hmem := (List.mem_filter.mp (List.mem_of_mem_take hin')).1
  exact ((SwapRemove.mem_swapRemove hcaches.ports.nodup).mp hmem).2

/-- The port picked of a node does not depend on the order exactly where all its outputs are
considered. -/
theorem pick_independent_iff (h : ProperEvents xs) (hu : OrdinalsUnique (liveAfter xs))
    (nodeId : UInt32) :
    (∀ ys, ProperEvents ys → liveAfter ys = liveAfter xs →
        pickTargetPort nodeId [registryAfter ys] = pickTargetPort nodeId [registryAfter xs]) ↔
      ((registryAfter xs).listPorts nodeId .output maxTargetPorts).1 ≤ maxTargetPorts := by
  have hcount : ((registryAfter xs).listPorts nodeId .output maxTargetPorts).1 =
      ((registryAfter xs).outputs nodeId).length :=
    congrArg Prod.fst (listPorts_eq (registryAfter xs) nodeId .output maxTargetPorts)
  constructor
  · intro hall
    by_contra hmany
    rw [hcount, Nat.not_le] at hmany
    obtain ⟨id, g, hg, hpick, hother⟩ := pick_announcedAgain h hmany
    exact hother ((hall _ (announcedAgain_proper h) (announcedAgain_live hg)).trans hpick)
  · intro hfew ys hys hlive
    have hsame : SameGraph nodeId xs ys := ⟨h, hys, hlive.symm, hu, hfew⟩
    have hseen : List.Forall₂ (SameGraph nodeId) [xs] [ys] := .cons hsame .nil
    exact (pickFrom_congr targetPortAttempts hseen).symm

/-- After every sequence of registry events with unique live ids and no failing allocation the
caches hold exactly the live nodes and ports, each once, with what it was announced with. What is
listed of a node with few enough ports, and the port picked of it, are the same for any two
clients that see the same graph, whatever the order it came in; of a node with more ports than
are considered another order picks another port. -/
theorem registry_order_independent {xs : List RegistryEvent} (h : ProperEvents xs) :
    Caches (registryAfter xs) (liveAfter xs) ∧
      (∀ ys, ProperEvents ys → liveAfter xs = liveAfter ys → OrdinalsUnique (liveAfter xs) →
        ∀ nodeId dir max,
          let listed := (registryAfter xs).listPorts nodeId dir max
          let listed' := (registryAfter ys).listPorts nodeId dir max
          listed.1 = listed'.1 ∧ (listed.1 ≤ max → listed.2 = listed'.2)) ∧
      (∀ nodeId seen seen', List.Forall₂ (SameGraph nodeId) seen seen' →
        pickTargetPort nodeId (seen.map registryAfter) =
          pickTargetPort nodeId (seen'.map registryAfter)) ∧
      (OrdinalsUnique (liveAfter xs) → ∀ nodeId,
        ((∀ ys, ProperEvents ys → liveAfter ys = liveAfter xs →
            pickTargetPort nodeId [registryAfter ys] =
              pickTargetPort nodeId [registryAfter xs]) ↔
          ((registryAfter xs).listPorts nodeId .output maxTargetPorts).1 ≤ maxTargetPorts)) := by
  refine ⟨caches_run h, ?_, ?_, ?_⟩
  · intro ys hys hlive hu nodeId dir max
    exact listPorts_congr (caches_run h) (hlive ▸ caches_run hys) hu nodeId dir max
  · intro nodeId seen seen' hsame
    exact pickFrom_congr targetPortAttempts hsame
  · intro hu nodeId
    exact pick_independent_iff h hu nodeId

/-- An output port of node 5. -/
def outputPort (ordinal : Char) (h : 0 < ordinal.toNat ∧ ordinal.toNat < 256) : Global :=
  ⟨.port, some [(.portName, ⟨['c'], by simp⟩), (.nodeId, ⟨['5'], by simp⟩),
    (.portDirection, outDirection), (.portId, ⟨[ordinal], by simpa using h⟩)]⟩

/-- The second port first. -/
def firstOrder : List RegistryEvent :=
  [.global 10 (outputPort '1' (by decide)) .all, .global 11 (outputPort '0' (by decide)) .all]

/-- The first port first, and one between them that goes again. -/
def secondOrder : List RegistryEvent :=
  [.global 11 (outputPort '0' (by decide)) .all, .global 12 (outputPort '2' (by decide)) .all,
    .global 10 (outputPort '1' (by decide)) .all, .globalRemove 12]

theorem orders_live : liveAfter firstOrder = liveAfter secondOrder := by
  funext id
  by_cases h10 : id = 10
  · subst h10
    rfl
  · by_cases h11 : id = 11
    · subst h11
      rfl
    · by_cases h12 : id = 12
      · subst h12
        rfl
      · simp [liveAfter, graphMachine, Machine.exec, firstOrder, secondOrder, h10, h11, h12]

theorem registry_order_independent_two :
    (registryAfter firstOrder).ports ≠ (registryAfter secondOrder).ports ∧
      pickTargetPort 5 [registryAfter firstOrder] = 11 ∧
      pickTargetPort 5 [registryAfter firstOrder] =
        pickTargetPort 5 [registryAfter secondOrder] := by
  have hfirst : ProperEvents firstOrder := ⟨⟨rfl, rfl⟩, ⟨rfl, rfl⟩, trivial⟩
  have hsecond : ProperEvents secondOrder :=
    ⟨⟨rfl, rfl⟩, ⟨rfl, rfl⟩, ⟨rfl, rfl⟩, ⟨trivial, trivial⟩, trivial⟩
  have hu : OrdinalsUnique (liveAfter firstOrder) := by
    rw [ordinalsUnique_iff (registry_order_independent hfirst).1]
    decide
  have hsame : SameGraph 5 firstOrder secondOrder :=
    ⟨hfirst, hsecond, orders_live, hu, by decide⟩
  refine ⟨by decide, by decide, ?_⟩
  exact (registry_order_independent hfirst).2.2.1 5 [firstOrder] [secondOrder] (.cons hsame .nil)

/-- Ports of node 5 with the ordinals that are their ids. -/
def manyOutputs (ids : List UInt32) : List RegistryEvent :=
  ids.map fun id => .global id
    ⟨.port, some [(.portName, .ofChars ['c']), (.nodeId, .ofChars ['5']),
      (.portDirection, outDirection), (.portId, .decimal id.toUInt64)]⟩ .all

/-- 65 ports, the lowest announced first. -/
def lowestFirst : List RegistryEvent := manyOutputs ((List.range 65).map fun i => .ofNat (i + 1))

/-- The same, after the lowest has gone and come again. -/
def lowestAgain : List RegistryEvent :=
  lowestFirst ++ [.globalRemove 1] ++ manyOutputs [1]

/-- Two clients that see the same 65 ports pick different ones. -/
theorem pick_depends_on_order :
    ProperEvents lowestFirst ∧ ProperEvents lowestAgain ∧
      liveAfter lowestAgain = liveAfter lowestFirst ∧ OrdinalsUnique (liveAfter lowestFirst) ∧
      pickTargetPort 5 [registryAfter lowestFirst] = 1 ∧
      pickTargetPort 5 [registryAfter lowestAgain] = 2 := by
  have hproper : ProperEvents lowestFirst := by
    unfold ProperEvents
    decide +kernel
  have hlive : liveAfter lowestFirst 1 = some ⟨.port, some [(.portName, .ofChars ['c']),
      (.nodeId, .ofChars ['5']), (.portDirection, outDirection), (.portId, .decimal 1)]⟩ := by
    decide +kernel
  refine ⟨hproper, announcedAgain_proper hproper, announcedAgain_live hlive, ?_,
    by decide +kernel, by decide +kernel⟩
  rw [ordinalsUnique_iff (caches_run hproper)]
  have hids : ∀ e ∈ (registryAfter lowestFirst).ports, e.ordinal = e.id := by decide +kernel
  intro e he e' he' _ _ hordinal
  rw [hids e he, hids e' he'] at hordinal
  exact List.inj_on_of_nodup_map (caches_run hproper).ports.nodup he he' hordinal

end TinyPipewire.Core
