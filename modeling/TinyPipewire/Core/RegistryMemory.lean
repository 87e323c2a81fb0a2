import TinyPipewire.Core.Removal
import TinyPipewire.Lib.SlotArray

/-!
# The registry's memory

The caches of `struct pwf_pw_registry` as they lie in memory: two arrays that `realloc` grows, and
the strings that `strdup` copies for each entry. Any allocation may fail, and the rest of the
program uses the same heap. The arrays show what the lists of `Registry` hold.
-/

namespace TinyPipewire.Core

open TinyPipewire.Stream (SpaDirection)
open Ledger (Entry Tracks Settled)
open Heap (Handover)

/-! ### Blocks -/

/-- `struct pwf_pw_node_entry`, its strings by their addresses. -/
structure NodeSlot where
  id : UInt32
  name : Option Loc
  serial : UInt64
  mediaClass : Option Loc
  description : Option Loc
  deriving DecidableEq

/-- `struct pwf_pw_port_entry`, its string by its address. -/
structure PortSlot where
  id : UInt32
  nodeId : UInt32
  name : Option Loc
  direction : SpaDirection
  ordinal : UInt32
  deriving DecidableEq

/-- What a block holds: a string, an array of entries, or what others keep there. -/
inductive RegistryBlock
  | string (s : CString)
  | nodes (cells : List (Option NodeSlot))
  | ports (cells : List (Option PortSlot))
  | other
  deriving DecidableEq

/-- The string at an address, if there is one. -/
def stringAt (h : Heap RegistryBlock) (p : Option Loc) : Option CString :=
  match h.load p with
  | some (.string s) => some s
  | _ => none

/-- The pointer is NULL for a missing string, and else points to it. -/
def PointsTo (h : Heap RegistryBlock) (p : Option Loc) (x : Option CString) : Prop :=
  p.isSome = x.isSome ∧ stringAt h p = x

/-- A slot that holds the entry. -/
structure NodeSlot.Shows (h : Heap RegistryBlock) (s : NodeSlot) (e : NodeEntry) : Prop where
  id : s.id = e.id
  serial : s.serial = e.serial
  name : PointsTo h s.name (some e.name)
  mediaClass : PointsTo h s.mediaClass e.mediaClass
  description : PointsTo h s.description e.description

structure PortSlot.Shows (h : Heap RegistryBlock) (s : PortSlot) (e : PortEntry) : Prop where
  id : s.id = e.id
  nodeId : s.nodeId = e.nodeId
  direction : s.direction = e.direction
  ordinal : s.ordinal = e.ordinal
  name : PointsTo h s.name (some e.name)

variable {h h' : Heap RegistryBlock} {p : Option Loc} {x : Option CString}

theorem PointsTo.congr (hp : PointsTo h p x) (hk : ∀ l ∈ p.toList, h' l = h l) :
    PointsTo h' p x := by
  refine ⟨hp.1, ?_⟩
  rw [← hp.2]
  cases p with
  | none => rfl
  | some l => simp [stringAt, hk l (by simp)]

/-- How `reg->nodes` lies in memory. -/
def nodeKind : SlotKind RegistryBlock NodeSlot NodeEntry where
  pack := .nodes
  unpack
    | .nodes cells => cells
    | _ => []
  unpack_pack _ := rfl
  refs s := s.name.toList ++ s.mediaClass.toList ++ s.description.toList
  Shows := NodeSlot.Shows
  shows_congr := by
    intro h h' s e hk hs
    constructor
    · exact hs.id
    · exact hs.serial
    · exact hs.name.congr fun l hl => hk l (by simp [hl])
    · exact hs.mediaClass.congr fun l hl => hk l (by simp [hl])
    · exact hs.description.congr fun l hl => hk l (by simp [hl])

/-- How `reg->ports` lies in memory. -/
def portKind : SlotKind RegistryBlock PortSlot PortEntry where
  pack := .ports
  unpack
    | .ports cells => cells
    | _ => []
  unpack_pack _ := rfl
  refs s := s.name.toList
  Shows := PortSlot.Shows
  shows_congr := by
    intro h h' s e hk hs
    exact ⟨hs.id, hs.nodeId, hs.direction, hs.ordinal, hs.name.congr hk⟩

/-! ### The code -/

/-- The caches of `struct pwf_pw_registry` and the heap they are in; `bound` is whether
`reg->registry` is set. -/
structure RegistryMemory where
  heap : Heap RegistryBlock
  bound : Bool
  nodes : SlotArray
  ports : SlotArray

/-- The callbacks that are set. -/
structure RegistryCallbacks where
  portAdded : Bool
  nodeRemoved : Bool
  deriving DecidableEq, Repr

/-- What `realloc` and `strdup` answer while a global is cached. -/
structure AllocAnswers where
  array : Option Loc
  name : Option Loc
  mediaClass : Option Loc
  description : Option Loc
  deriving DecidableEq, Repr

inductive RegistryOut
  /-- A block was allocated or freed. -/
  | booked (e : Entry Loc)
  /-- An allocation failed. -/
  | refused
  /-- `pw_proxy_destroy`. -/
  | proxyDestroyed
  | portAdded (nodeId : UInt32)
  | nodeRemoved (id : UInt32)
  deriving DecidableEq, Repr

/-- What `strdup` leaves of a string that is asked for. -/
def duplicated (x : Option CString) (p : Option Loc) : List RegistryOut :=
  match x, p with
  | _, some l => [.booked (.took l)]
  | some _, none => [.refused]
  | none, none => []

namespace RegistryMemory

variable (m : RegistryMemory)

/-- The blocks of the registry. -/
def own : List Loc := m.nodes.own nodeKind m.heap ++ m.ports.own portKind m.heap

/-- `pwf_pw_registry_add_node`. -/
def addNode (id : UInt32) (props : SpaDict) (answers : AllocAnswers) :
    RegistryMemory × List RegistryOut :=
  match props.lookup .nodeName with
  | none => (m, [])
  | some name =>
    match m.nodes.reserve nodeKind m.heap 16 answers.array with
    | none => (m, [.refused])
    | some (h, nodes, booked) =>
      let n := h.giveSome answers.name (some (.string name))
      match n.2 with
      | none =>
        -- `e->name` is NULL, and the cell is not counted
        let cell := ((nodes.cells nodeKind n.1).getD nodes.length none).map
          fun s => { s with name := none }
        ({ m with heap := nodes.poke nodeKind n.1 nodes.length cell, nodes := nodes },
          booked.map .booked ++ [.refused])
      | some l =>
        let mediaClass := props.lookup .mediaClass
        let description := props.lookup .nodeDescription
        let c := n.1.giveSome answers.mediaClass (mediaClass.map .string)
        let d := c.1.giveSome answers.description (description.map .string)
        let r := nodes.push nodeKind d.1 {
          id := id
          name := some l
          serial := ((props.lookup .objectSerial).map CString.strtoull).getD 0
          mediaClass := c.2
          description := d.2 }
        ({ m with heap := r.1, nodes := r.2 },
          booked.map .booked ++ duplicated (some name) (some l) ++ duplicated mediaClass c.2 ++
            duplicated description d.2)

/-- `pwf_pw_registry_add_port`. -/
def addPort (cbs : RegistryCallbacks) (id : UInt32) (props : SpaDict) (answers : AllocAnswers) :
    RegistryMemory × List RegistryOut :=
  match props.lookup .portName, props.lookup .nodeId with
  | some name, some node =>
    match m.ports.reserve portKind m.heap 32 answers.array with
    | none => (m, [.refused])
    | some (h, ports, booked) =>
      let n := h.giveSome answers.name (some (.string name))
      match n.2 with
      | none =>
        let cell := ((ports.cells portKind n.1).getD ports.length none).map
          fun s => { s with name := none }
        ({ m with heap := ports.poke portKind n.1 ports.length cell, ports := ports },
          booked.map .booked ++ [.refused])
      | some l =>
        let nodeId := node.strtoull.toUInt32
        let r := ports.push portKind n.1 {
          id := id
          nodeId := nodeId
          name := some l
          direction := if props.lookup .portDirection = some outDirection then .output else .input
          ordinal := ((props.lookup .portId).map fun o => o.strtoull.toUInt32).getD 0 }
        ({ m with heap := r.1, ports := r.2 },
          booked.map .booked ++ duplicated (some name) (some l) ++
            if cbs.portAdded then [.portAdded nodeId] else [])
  | _, _ => (m, [])

/-- `pwf_pw_registry_on_global`. -/
def onGlobal (cbs : RegistryCallbacks) (id : UInt32) (g : Global) (answers : AllocAnswers) :
    RegistryMemory × List RegistryOut :=
  match g.props with
  | none => (m, [])
  | some props =>
    match g.type with
    | .node => m.addNode id props answers
    | .port => m.addPort cbs id props answers
    | .other => (m, [])

/-- `pwf_pw_registry_on_global_remove`. -/
def onGlobalRemove (cbs : RegistryCallbacks) (id : UInt32) : RegistryMemory × List RegistryOut :=
  let wasNode := (m.nodes.slots nodeKind m.heap).any fun s => s.id == id
  let n := m.nodes.remove nodeKind m.heap fun s => s.id == id
  let p := m.ports.remove portKind n.1 fun s => s.id == id
  ({ m with heap := p.1, nodes := n.2.1, ports := p.2.1 },
    (n.2.2 ++ p.2.2).map .booked ++
      if wasNode && cbs.nodeRemoved then [.nodeRemoved id] else [])

/-- `pwf_pw_registry_teardown`. -/
def teardown : RegistryMemory × List RegistryOut :=
  let n := m.nodes.clear nodeKind m.heap
  let p := m.ports.clear portKind n.1
  ({ heap := p.1, bound := false, nodes := n.2.1, ports := p.2.1 },
    (if m.bound then [.proxyDestroyed] else []) ++ (n.2.2 ++ p.2.2).map .booked)

/-- `pwf_pw_registry_find_node_by_name`; a read of no string is an error. -/
def findNodeByName (name : CString) : Option UInt32 :=
  (SlotArray.search (fun s => (stringAt m.heap s.name).map (· == name))
    ((m.nodes.cells nodeKind m.heap).take m.nodes.length)).map fun found =>
      (found.map NodeSlot.id).getD 0

/-- `pwf_pw_registry_find_node_by_serial`. -/
def findNodeBySerial (serial : UInt64) : Option UInt32 :=
  if serial = 0 then some 0
  else (SlotArray.search (fun s => some (s.serial == serial))
    ((m.nodes.cells nodeKind m.heap).take m.nodes.length)).map fun found =>
      (found.map NodeSlot.id).getD 0

/-- `pwf_pw_registry_find_port`. -/
def findPort (nodeId : UInt32) (name : CString) (dir : SpaDirection) : Option UInt32 :=
  (SlotArray.search
    (fun s =>
      if s.nodeId == nodeId && s.direction == dir then (stringAt m.heap s.name).map (· == name)
      else some false)
    ((m.ports.cells portKind m.heap).take m.ports.length)).map fun found =>
      (found.map PortSlot.id).getD 0

/-- `pwf_pw_registry_list_ports`, with the slots that the caller's array points to. -/
def listPorts (nodeId : UInt32) (dir : SpaDirection) (max : ℕ) : Option (ℕ × List PortSlot) :=
  SlotArray.fold (InsertBack.collect (fun s => s.ordinal.toNat)
    (fun s => decide (s.nodeId = nodeId) && decide (s.direction = dir)) max) (0, [])
    ((m.ports.cells portKind m.heap).take m.ports.length)

end RegistryMemory

/-! ### Runs -/

inductive MemoryAction
  /-- `pwf_pw_registry_bind`, up to its listener. -/
  | bind
  | global (id : UInt32) (g : Global) (answers : AllocAnswers)
  | globalRemove (id : UInt32)
  | teardown
  /-- The rest of the program allocates, writes or frees a block. -/
  | elsewhere (l : Loc) (b : Option RegistryBlock)
  deriving DecidableEq

/-- A registry in a heap that others use. -/
def memoryMachine (cbs : RegistryCallbacks) : Machine RegistryMemory MemoryAction RegistryOut where
  Enabled m a := match a with
    | .bind => m.bound = false
    | .global _ _ _ | .globalRemove _ => m.bound = true
    | .teardown => True
    | .elsewhere l _ => l ∉ m.own
  next m a := match a with
    | .bind => { m with bound := true }
    | .global id g answers => (m.onGlobal cbs id g answers).1
    | .globalRemove id => (m.onGlobalRemove cbs id).1
    | .teardown => m.teardown.1
    | .elsewhere l b => { m with heap := Function.update m.heap l b }
  out m a := match a with
    | .global id g answers => (m.onGlobal cbs id g answers).2
    | .globalRemove id => (m.onGlobalRemove cbs id).2
    | .teardown => m.teardown.2
    | .bind | .elsewhere _ _ => []

instance (cbs : RegistryCallbacks) (m : RegistryMemory) :
    ∀ a, Decidable ((memoryMachine cbs).Enabled m a)
  | .bind => inferInstanceAs (Decidable (m.bound = false))
  | .global _ _ _ | .globalRemove _ => inferInstanceAs (Decidable (m.bound = true))
  | .teardown => isTrue trivial
  | .elsewhere l _ => inferInstanceAs (Decidable (l ∉ m.own))

/-- A registry that was not bound, in any heap. -/
def RegistryMemory.start (h : Heap RegistryBlock) : RegistryMemory := ⟨h, false, .empty, .empty⟩

/-! ### The lists behind it -/

inductive CacheChange
  | event (e : RegistryEvent)
  | teardown
  deriving DecidableEq

inductive CacheNotice
  | portAdded (nodeId : UInt32)
  | nodeRemoved (id : UInt32)
  deriving DecidableEq, Repr

/-- The caches as lists, with the notices of a cached port and of a removed node. -/
def cacheMachine : Machine Registry CacheChange CacheNotice where
  Enabled _ _ := True
  next reg c := match c with
    | .event e => reg.on e
    | .teardown => .zeroed
  out reg c := match c with
    | .event (.global id g allocs) =>
      ((reg.onGlobal id g allocs).ports.drop reg.ports.length).map fun e => .portAdded e.nodeId
    | .event (.globalRemove id) =>
      if reg.nodes.any fun e => e.id == id then [.nodeRemoved id] else []
    | .teardown => []

/-- What is asked of the caches: a global, the removal of one, or a teardown. -/
abbrev Asked := Option (UInt32 × Option Global)

def CacheChange.asked : CacheChange → Asked
  | .event (.global id g _) => some (id, some g)
  | .event (.globalRemove id) => some (id, none)
  | .teardown => none

def MemoryAction.asked : MemoryAction → Option Asked
  | .global id g _ => some (some (id, some g))
  | .globalRemove id => some (some (id, none))
  | .teardown => some none
  | .bind | .elsewhere _ _ => none

/-- No allocation of the change fails. -/
def CacheChange.Whole : CacheChange → Prop
  | .event (.global _ _ allocs) => allocs = .all
  | _ => True

/-- Whether a callback hears of it. -/
def RegistryCallbacks.hears (cbs : RegistryCallbacks) : CacheNotice → Bool
  | .portAdded _ => cbs.portAdded
  | .nodeRemoved _ => cbs.nodeRemoved

@[simp] def RegistryOut.entry : RegistryOut → Option (Entry Loc)
  | .booked e => some e
  | _ => none

@[simp] def RegistryOut.notice : RegistryOut → Option CacheNotice
  | .portAdded nodeId => some (.portAdded nodeId)
  | .nodeRemoved id => some (.nodeRemoved id)
  | _ => none

/-- The allocations and frees among what a run emits. -/
def booksOf (ws : List RegistryOut) : List (Entry Loc) := ws.filterMap RegistryOut.entry

def noticesOf (ws : List RegistryOut) : List CacheNotice := ws.filterMap RegistryOut.notice

/-- The arrays hold the lists, and every block is the registry's alone. -/
structure RegistryMemory.Shows (m : RegistryMemory) (reg : Registry) : Prop where
  nodes : m.nodes.Represents nodeKind m.heap reg.nodes
  ports : m.ports.Represents portKind m.heap reg.ports
  nodesCapacity : m.nodes.capacity = reg.nodesCapacity
  portsCapacity : m.ports.capacity = reg.portsCapacity
  owns : m.heap.Owns m.own

section Parts

variable {m : RegistryMemory} {reg : Registry} {a : SlotArray} {booked : List (Entry Loc)}

/-- A step of the array of nodes alone. -/
theorem RegistryMemory.Shows.nodesStep (hm : m.Shows reg) {es : List NodeEntry}
    (hr : a.Represents nodeKind h' es)
    (hh : Handover m.heap (m.nodes.own nodeKind m.heap) booked h' (a.own nodeKind h')) {n : ℕ}
    (hn : a.capacity = n) :
    ({ m with heap := h', nodes := a } : RegistryMemory).Shows
        { reg with nodes := es, nodesCapacity := n } ∧
      Handover m.heap m.own booked h' ({ m with heap := h', nodes := a } : RegistryMemory).own := by
  have hframe := hh.frame hm.owns
  obtain ⟨-, -, hapart⟩ := List.nodup_append.mp hm.owns.nodup
  have hkeeps : ∀ l ∈ m.ports.own portKind m.heap, h' l = m.heap l := by
    intro l hl
    apply hh.transfer.keeps l (hm.owns.live l (List.mem_append_right _ hl))
    exact fun hin => hapart l hin l hl rfl
  obtain ⟨hports, hown⟩ := hm.ports.congr hkeeps
  have hall : ({ m with heap := h', nodes := a } : RegistryMemory).own =
      a.own nodeKind h' ++ m.ports.own portKind m.heap := by
    simp only [RegistryMemory.own, hown]
  refine ⟨⟨hr, hports, hn, hm.portsCapacity, ?_⟩, ?_⟩
  · rw [hall]
    exact hframe.transfer.owns
  · rw [hall]
    exact hframe

/-- A step of the array of ports alone. -/
theorem RegistryMemory.Shows.portsStep (hm : m.Shows reg) {es : List PortEntry}
    (hr : a.Represents portKind h' es)
    (hh : Handover m.heap (m.ports.own portKind m.heap) booked h' (a.own portKind h')) {n : ℕ}
    (hn : a.capacity = n) :
    ({ m with heap := h', ports := a } : RegistryMemory).Shows
        { reg with ports := es, portsCapacity := n } ∧
      Handover m.heap m.own booked h' ({ m with heap := h', ports := a } : RegistryMemory).own := by
  have howns := hm.owns.perm List.perm_append_comm
  have hframe := (hh.frame howns).perm_left List.perm_append_comm
  obtain ⟨-, -, hapart⟩ := List.nodup_append.mp hm.owns.nodup
  have hkeeps : ∀ l ∈ m.nodes.own nodeKind m.heap, h' l = m.heap l := by
    intro l hl
    apply hh.transfer.keeps l (hm.owns.live l (List.mem_append_left _ hl))
    exact fun hin => hapart l hl l hin rfl
  obtain ⟨hnodes, hown⟩ := hm.nodes.congr hkeeps
  have hall : (a.own portKind h' ++ m.nodes.own nodeKind m.heap).Perm
      ({ m with heap := h', ports := a } : RegistryMemory).own := by
    simp only [RegistryMemory.own, hown]
    exact List.perm_append_comm
  exact ⟨⟨hnodes, hr, hm.nodesCapacity, hn, hframe.transfer.owns.perm hall⟩, hframe.perm hall⟩

end Parts

/-! ### Strings -/

theorem given_pointsTo {l : Loc} {s : CString}
    (hl : (h.giveSome p (some (.string s))).2 = some l) :
    PointsTo (h.giveSome p (some (.string s))).1 (some l) (some s) := by
  obtain ⟨b, hb, hholds⟩ := Heap.giveSome_holds hl
  obtain rfl := Option.some.inj hb
  refine ⟨rfl, ?_⟩
  have hload : (h.giveSome p (some (.string s))).1.load (some l) = some (.string s) := hholds
  simp [stringAt, hload]

/-- What `strdup` leaves of a string that may be missing: it is there, unless the allocation
failed. -/
theorem giveSome_pointsTo (h : Heap RegistryBlock) (p : Option Loc) (x : Option CString) :
    let d := h.giveSome p (x.map .string)
    PointsTo d.1 d.2 (if d.2.isSome || x.isNone then x else none) ∧
      (.refused ∉ duplicated x d.2 → (d.2.isSome || x.isNone) = true) := by
  intro d
  cases hd : d.2 with
  | none =>
    cases x with
    | none => exact ⟨⟨rfl, rfl⟩, fun _ => rfl⟩
    | some s => exact ⟨⟨rfl, rfl⟩, by simp [duplicated]⟩
  | some l =>
    obtain ⟨b, hb, -⟩ := Heap.giveSome_holds hd
    obtain ⟨s, rfl, rfl⟩ := Option.map_eq_some_iff.mp hb
    exact ⟨given_pointsTo hd, fun _ => rfl⟩

/-- A later `strdup` leaves the strings there are. -/
theorem PointsTo.giveSome (hp : PointsTo h p x) (q : Option Loc) (b : Option RegistryBlock) :
    PointsTo (h.giveSome q b).1 p x := by
  obtain ⟨hsome, hs⟩ := hp
  refine ⟨hsome, ?_⟩
  rw [← hs]
  cases p with
  | none => rfl
  | some l =>
    have hlive : h.Live l := by
      rw [Option.isSome_some] at hsome
      obtain ⟨s, rfl⟩ := Option.isSome_iff_exists.mp hsome.symm
      by_contra hn
      have hnone : h l = none := by simpa using hn
      simp [stringAt, hnone] at hs
    simp [stringAt, Heap.giveSome_keeps hlive]

/-- The name of a new slot is duplicated, or the cell for the slot stays behind the others. -/
theorem name_cases {σ α : Type} {K : SlotKind RegistryBlock σ α} {a : SlotArray} {es : List α}
    (hr : a.Represents K h es) (ho : h.Owns (a.own K h)) (hroom : a.length < a.capacity)
    (q : Option Loc) (name : CString) :
    let n := h.giveSome q (some (.string name))
    (n.2 = none ∧ ∀ c : Option σ, a.Represents K (a.poke K n.1 a.length c) es ∧
        Handover h (a.own K h) [] (a.poke K n.1 a.length c)
          (a.own K (a.poke K n.1 a.length c))) ∨
      ∃ l, n.2 = some l ∧ a.Represents K n.1 es ∧
        Handover h (a.own K h) [.took l] n.1 (a.own K n.1 ++ [l]) ∧
        PointsTo n.1 (some l) (some name) := by
  intro n
  rw [← List.append_nil (a.own K h)] at ho
  obtain ⟨hr', -, hh⟩ := hr.giveSome [] ho q (some (.string name))
  rw [List.append_nil, List.nil_append] at hh
  change Handover h (a.own K h) (n.2.toList.map .took) n.1 (a.own K n.1 ++ n.2.toList) at hh
  cases hl : n.2 with
  | none =>
    rw [hl, Option.toList_none, List.map_nil, List.append_nil] at hh
    refine Or.inl ⟨rfl, ?_⟩
    intro c
    obtain ⟨hr2, hh2⟩ := hr'.poke_spare (c := c) hh.transfer.owns hroom
    exact ⟨hr2, hh.trans hh2⟩
  | some l =>
    rw [hl, Option.toList_some] at hh
    exact Or.inr ⟨l, rfl, hr', hh, given_pointsTo hl⟩

/-- A node whose name is there gets its other strings, as far as they can be duplicated, and its
slot. -/
theorem node_pushed {a : SlotArray} {es : List NodeEntry} {l : Loc} {name : CString}
    (hr : a.Represents nodeKind h es) (ho : h.Owns (a.own nodeKind h ++ [l]))
    (hroom : a.length < a.capacity) (hname : PointsTo h (some l) (some name)) (id : UInt32)
    (serial : UInt64) (mediaClass description : Option CString) (q q' : Option Loc) :
    let c := h.giveSome q (mediaClass.map .string)
    let d := c.1.giveSome q' (description.map .string)
    let r := a.push nodeKind d.1 ⟨id, some l, serial, c.2, d.2⟩
    ∃ class' description' : Bool,
      r.2.Represents nodeKind r.1 (es ++ [⟨id, name, serial, if class' then mediaClass else none,
        if description' then description else none⟩]) ∧
      Handover h (a.own nodeKind h ++ [l]) (c.2.toList.map .took ++ d.2.toList.map .took) r.1
        (r.2.own nodeKind r.1) ∧
      (.refused ∉ duplicated mediaClass c.2 → class' = true) ∧
      (.refused ∉ duplicated description d.2 → description' = true) := by
  intro c d r
  obtain ⟨hr2, -, hh2⟩ := hr.giveSome [l] ho q (mediaClass.map .string)
  obtain ⟨hr3, -, hh3⟩ := hr2.giveSome _ hh2.transfer.owns q' (description.map .string)
  obtain ⟨hclass, hwholeClass⟩ := giveSome_pointsTo h q mediaClass
  obtain ⟨hdescription, hwholeDescription⟩ := giveSome_pointsTo c.1 q' description
  have hname2 := (hname.giveSome q (mediaClass.map .string)).giveSome q' (description.map .string)
  have hclass2 := hclass.giveSome q' (description.map .string)
  let slot : NodeSlot := ⟨id, some l, serial, c.2, d.2⟩
  have howns : d.1.Owns (a.own nodeKind d.1 ++ nodeKind.refs slot) := hh3.transfer.owns
  have hshow : nodeKind.Shows d.1 slot ⟨id, name, serial,
      if c.2.isSome || mediaClass.isNone then mediaClass else none,
      if d.2.isSome || description.isNone then description else none⟩ :=
    ⟨rfl, rfl, hname2, hclass2, hdescription⟩
  obtain ⟨hr4, hh4⟩ := hr3.push howns hroom hshow
  have hpushed := hh3.trans hh4
  rw [List.append_nil] at hpushed
  exact ⟨_, _, hr4, hh2.trans hpushed, hwholeClass, hwholeDescription⟩

/-- A port whose name is there gets its slot. -/
theorem port_pushed {a : SlotArray} {es : List PortEntry} {l : Loc} {name : CString}
    (hr : a.Represents portKind h es) (ho : h.Owns (a.own portKind h ++ [l]))
    (hroom : a.length < a.capacity) (hname : PointsTo h (some l) (some name))
    (id nodeId : UInt32) (direction : SpaDirection) (ordinal : UInt32) :
    let r := a.push portKind h ⟨id, nodeId, some l, direction, ordinal⟩
    r.2.Represents portKind r.1 (es ++ [⟨id, nodeId, name, direction, ordinal⟩]) ∧
      Handover h (a.own portKind h ++ [l]) [] r.1 (r.2.own portKind r.1) := by
  have hshow : portKind.Shows h ⟨id, nodeId, some l, direction, ordinal⟩
      ⟨id, nodeId, name, direction, ordinal⟩ := ⟨rfl, rfl, rfl, rfl, hname⟩
  exact hr.push ho hroom hshow

section Arrays

variable {m : RegistryMemory} {reg : Registry}

@[simp] theorem booksOf_append (us vs : List RegistryOut) :
    booksOf (us ++ vs) = booksOf us ++ booksOf vs := by
  simp [booksOf]

@[simp] theorem noticesOf_append (us vs : List RegistryOut) :
    noticesOf (us ++ vs) = noticesOf us ++ noticesOf vs := by
  simp [noticesOf]

@[simp] theorem booksOf_booked (es : List (Entry Loc)) : booksOf (es.map .booked) = es := by
  induction es with
  | nil => rfl
  | cons e es ih => exact congrArg (e :: ·) ih

@[simp] theorem noticesOf_booked (es : List (Entry Loc)) : noticesOf (es.map .booked) = [] := by
  induction es with
  | nil => rfl
  | cons e es ih => exact ih

@[simp] theorem booksOf_duplicated (x : Option CString) (p : Option Loc) :
    booksOf (duplicated x p) = p.toList.map .took := by
  cases p with
  | none => cases x <;> rfl
  | some l => rfl

@[simp] theorem noticesOf_duplicated (x : Option CString) (p : Option Loc) :
    noticesOf (duplicated x p) = [] := by
  cases p with
  | none => cases x <;> rfl
  | some l => rfl

@[simp] theorem booksOf_singleton (w : RegistryOut) : booksOf [w] = w.entry.toList := by
  cases w <;> rfl

@[simp] theorem noticesOf_singleton (w : RegistryOut) : noticesOf [w] = w.notice.toList := by
  cases w <;> rfl

@[simp] theorem booksOf_nil : booksOf [] = [] := rfl

@[simp] theorem noticesOf_nil : noticesOf [] = [] := rfl

/-- How a global is cached, whatever is allocated of it. -/
structure Cached (m : RegistryMemory) (r : RegistryMemory × List RegistryOut) (reg' : Registry)
    (allocs : Allocs) : Prop where
  shows : r.1.Shows reg'
  hand : Handover m.heap m.own (booksOf r.2) r.1.heap r.1.own
  whole : .refused ∉ r.2 → allocs = .all

theorem RegistryMemory.Shows.owns_nodes (hm : m.Shows reg) :
    m.heap.Owns (m.nodes.own nodeKind m.heap) :=
  ⟨(List.nodup_append.mp hm.owns.nodup).1, fun l hl => hm.owns.live l (List.mem_append_left _ hl)⟩

theorem RegistryMemory.Shows.owns_ports (hm : m.Shows reg) :
    m.heap.Owns (m.ports.own portKind m.heap) :=
  ⟨(List.nodup_append.mp hm.owns.nodup).2.1,
    fun l hl => hm.owns.live l (List.mem_append_right _ hl)⟩

theorem addNode_cached (hm : m.Shows reg) (id : UInt32) (props : SpaDict) (answers : AllocAnswers) :
    ∃ allocs, Cached m (m.addNode id props answers) (reg.addNode id props allocs) allocs ∧
      noticesOf (m.addNode id props answers).2 = [] := by
  unfold RegistryMemory.addNode Registry.addNode nodeEntry
  cases hname : props.lookup .nodeName with
  | none => exact ⟨.all, ⟨hm, .refl hm.owns, fun _ => rfl⟩, rfl⟩
  | some name =>
    have hlen := hm.nodes.length_eq
    have hcap := hm.nodesCapacity
    rcases hm.nodes.reserve_cases hm.owns_nodes (show 0 < 16 by omega) answers.array with
      ⟨hfull, hnone⟩ | ⟨h1, nodes, booked, hsome, hr, hh, hlen1, hroom, hcap1⟩
    · -- the array is full and stays as it is
      refine ⟨⟨false, true, true, true⟩, ?_⟩
      rw [hlen, hcap] at hfull
      simp only [Option.map_some, hnone, hfull, and_self, if_true]
      exact ⟨⟨hm, .refl hm.owns, by simp⟩, rfl⟩
    · have hgrown : nodes.capacity = grownCapacity reg.nodes.length reg.nodesCapacity 16 := by
        rw [hcap1, hlen, hcap]
        rfl
      simp only [hsome, Option.map_some]
      rcases name_cases hr hh.transfer.owns hroom answers.name name with
        ⟨hl, hpoked⟩ | ⟨l, hl, hr2, hh2, hpoint⟩
      · refine ⟨⟨true, false, true, true⟩, ?_⟩
        simp only [hl]
        obtain ⟨hr3, hh3⟩ := hpoked _
        obtain ⟨hshows, hand⟩ := hm.nodesStep hr3 (hh.trans hh3) hgrown
        refine ⟨⟨?_, ?_, by simp⟩, by simp⟩
        · simpa using hshows
        · simpa using hand
      · simp only [hl]
        obtain ⟨class', description', hr3, hh3, hclass, hdescription⟩ :=
          node_pushed hr2 hh2.transfer.owns hroom hpoint id
            (((props.lookup .objectSerial).map CString.strtoull).getD 0) (props.lookup .mediaClass)
            (props.lookup .nodeDescription) answers.mediaClass answers.description
        obtain ⟨hshows, hand⟩ := hm.nodesStep hr3 ((hh.trans hh2).trans hh3) hgrown
        refine ⟨⟨true, true, class', description'⟩, ⟨?_, ?_, ?_⟩, by simp⟩
        · simpa using hshows
        · simpa using hand
        · intro hrefused
          simp only [List.mem_append, not_or] at hrefused
          rw [hclass hrefused.1.2, hdescription hrefused.2]
          rfl

theorem addPort_cached (hm : m.Shows reg) (cbs : RegistryCallbacks) (id : UInt32)
    (props : SpaDict) (answers : AllocAnswers) :
    ∃ allocs, Cached m (m.addPort cbs id props answers) (reg.addPort id props allocs) allocs ∧
      noticesOf (m.addPort cbs id props answers).2 =
        (((reg.addPort id props allocs).ports.drop reg.ports.length).map
          fun e => CacheNotice.portAdded e.nodeId).filter cbs.hears := by
  unfold RegistryMemory.addPort Registry.addPort portEntry
  cases hname : props.lookup .portName with
  | none => exact ⟨.all, ⟨hm, .refl hm.owns, fun _ => rfl⟩, by simp⟩
  | some name =>
    cases hnode : props.lookup .nodeId with
    | none => exact ⟨.all, ⟨hm, .refl hm.owns, fun _ => rfl⟩, by simp⟩
    | some node =>
      have hlen := hm.ports.length_eq
      have hcap := hm.portsCapacity
      rcases hm.ports.reserve_cases hm.owns_ports (show 0 < 32 by omega) answers.array with
        ⟨hfull, hnone⟩ | ⟨h1, ports, booked, hsome, hr, hh, hlen1, hroom, hcap1⟩
      · refine ⟨⟨false, true, true, true⟩, ?_⟩
        rw [hlen, hcap] at hfull
        simp only [hnone]
        rw [if_pos ⟨hfull, trivial⟩]
        exact ⟨⟨hm, .refl hm.owns, by simp⟩, by simp⟩
      · have hgrown : ports.capacity = grownCapacity reg.ports.length reg.portsCapacity 32 := by
          rw [hcap1, hlen, hcap]
          rfl
        simp only [hsome]
        rcases name_cases hr hh.transfer.owns hroom answers.name name with
          ⟨hl, hpoked⟩ | ⟨l, hl, hr2, hh2, hpoint⟩
        · refine ⟨⟨true, false, true, true⟩, ?_⟩
          simp only [hl]
          obtain ⟨hr3, hh3⟩ := hpoked _
          obtain ⟨hshows, hand⟩ := hm.portsStep hr3 (hh.trans hh3) hgrown
          refine ⟨⟨?_, ?_, by simp⟩, by simp⟩
          · simpa using hshows
          · simpa using hand
        · simp only [hl]
          obtain ⟨hr3, hh3⟩ := port_pushed hr2 hh2.transfer.owns hroom hpoint id
            node.strtoull.toUInt32
            (if props.lookup .portDirection = some outDirection then .output else .input)
            (((props.lookup .portId).map fun o => o.strtoull.toUInt32).getD 0)
          obtain ⟨hshows, hand⟩ := hm.portsStep hr3 ((hh.trans hh2).trans hh3) hgrown
          refine ⟨.all, ?_⟩
          refine ⟨⟨?_, ?_, fun _ => rfl⟩, ?_⟩
          · simpa [Allocs.all] using hshows
          · cases cbs.portAdded <;> simpa using hand
          · cases hc : cbs.portAdded <;> simp [Allocs.all, RegistryCallbacks.hears, hc]

theorem onGlobal_cached (hm : m.Shows reg) (cbs : RegistryCallbacks) (id : UInt32) (g : Global)
    (answers : AllocAnswers) :
    ∃ allocs, Cached m (m.onGlobal cbs id g answers) (reg.onGlobal id g allocs) allocs ∧
      noticesOf (m.onGlobal cbs id g answers).2 =
        (((reg.onGlobal id g allocs).ports.drop reg.ports.length).map
          fun e => CacheNotice.portAdded e.nodeId).filter cbs.hears := by
  unfold RegistryMemory.onGlobal Registry.onGlobal
  cases hp : g.props with
  | none => exact ⟨.all, ⟨hm, .refl hm.owns, fun _ => rfl⟩, by simp⟩
  | some props =>
    cases ht : g.type with
    | node =>
      obtain ⟨allocs, hcached, hnotices⟩ := addNode_cached hm id props answers
      refine ⟨allocs, hcached, ?_⟩
      dsimp only
      rw [hnotices, (addNode_cases reg id props allocs).1]
      simp
    | port => exact addPort_cached hm cbs id props answers
    | other => exact ⟨.all, ⟨hm, .refl hm.owns, fun _ => rfl⟩, by simp⟩

/-! ### The other steps -/

/-- What a step leaves of the memory and of the books, for a change of the lists. -/
structure Simulates (cbs : RegistryCallbacks) (m : RegistryMemory)
    (r : RegistryMemory × List RegistryOut) (reg : Registry) (c : CacheChange) : Prop where
  shows : r.1.Shows (cacheMachine.next reg c)
  hand : Handover m.heap m.own (booksOf r.2) r.1.heap r.1.own
  notices : noticesOf r.2 = (cacheMachine.out reg c).filter cbs.hears
  whole : .refused ∉ r.2 → c.Whole

theorem global_simulates (hm : m.Shows reg) (cbs : RegistryCallbacks) (id : UInt32) (g : Global)
    (answers : AllocAnswers) :
    ∃ allocs, Simulates cbs m (m.onGlobal cbs id g answers) reg (.event (.global id g allocs)) := by
  obtain ⟨allocs, hcached, hnotices⟩ := onGlobal_cached hm cbs id g answers
  exact ⟨allocs, hcached.shows, hcached.hand, hnotices, hcached.whole⟩

theorem globalRemove_simulates (hm : m.Shows reg) (cbs : RegistryCallbacks) (id : UInt32) :
    Simulates cbs m (m.onGlobalRemove cbs id) reg (.event (.globalRemove id)) := by
  have hnode : ∀ (s : NodeSlot) (e : NodeEntry), nodeKind.Shows m.heap s e →
      (s.id == id) = (e.id == id) := by
    intro s e hs
    rw [NodeSlot.Shows.id hs]
  obtain ⟨hr, hh⟩ := hm.nodes.remove hm.owns_nodes hnode
  obtain ⟨hm1, hand1⟩ :=
    hm.nodesStep hr hh ((SlotArray.remove_capacity _ _ _ _).trans hm.nodesCapacity)
  have hport : ∀ (s : PortSlot) (e : PortEntry), portKind.Shows
      (m.nodes.remove nodeKind m.heap fun s => s.id == id).1 s e → (s.id == id) = (e.id == id) := by
    intro s e hs
    rw [PortSlot.Shows.id hs]
  obtain ⟨hr2, hh2⟩ := hm1.ports.remove hm1.owns_ports hport
  obtain ⟨hm2, hand2⟩ :=
    hm1.portsStep hr2 hh2 ((SlotArray.remove_capacity _ _ _ _).trans hm1.portsCapacity)
  have hany := hm.nodes.any hnode
  refine ⟨hm2, ?_, ?_, fun _ => trivial⟩
  · have hboth := hand1.trans hand2
    unfold RegistryMemory.onGlobalRemove
    dsimp only
    rw [booksOf_append, booksOf_booked]
    have hnone : booksOf (if ((m.nodes.slots nodeKind m.heap).any fun s => s.id == id) &&
        cbs.nodeRemoved then [.nodeRemoved id] else []) = [] := by
      split <;> rfl
    rw [hnone, List.append_nil]
    exact hboth
  · unfold RegistryMemory.onGlobalRemove
    dsimp only [cacheMachine]
    rw [noticesOf_append, noticesOf_booked, List.nil_append, hany]
    cases reg.nodes.any fun e => e.id == id <;> cases hc : cbs.nodeRemoved <;>
      simp [RegistryCallbacks.hears, hc]

theorem teardown_simulates (hm : m.Shows reg) (cbs : RegistryCallbacks) :
    Simulates cbs m m.teardown reg .teardown ∧ m.teardown.1.own = [] := by
  obtain ⟨hr, hh⟩ := SlotArray.represents_clear hm.owns_nodes
  obtain ⟨hm1, hand1⟩ := hm.nodesStep hr hh rfl
  obtain ⟨hr2, hh2⟩ := SlotArray.represents_clear hm1.owns_ports
  obtain ⟨hm2, hand2⟩ := hm1.portsStep hr2 hh2 rfl
  refine ⟨⟨⟨hm2.nodes, hm2.ports, hm2.nodesCapacity, hm2.portsCapacity, hm2.owns⟩, ?_, ?_,
    fun _ => trivial⟩, rfl⟩
  · have hboth := hand1.trans hand2
    unfold RegistryMemory.teardown
    dsimp only
    have hnone : booksOf (if m.bound then [.proxyDestroyed] else []) = [] := by
      split <;> rfl
    rw [booksOf_append, booksOf_booked, hnone, List.nil_append]
    exact hboth
  · unfold RegistryMemory.teardown
    dsimp only
    rw [noticesOf_append, noticesOf_booked, List.append_nil]
    cases m.bound <;> rfl

/-- What others do to their blocks leaves the caches. -/
theorem elsewhere_shows (hm : m.Shows reg) {l : Loc} (hl : l ∉ m.own)
    (b : Option RegistryBlock) :
    ({ m with heap := Function.update m.heap l b } : RegistryMemory).Shows reg ∧
      ({ m with heap := Function.update m.heap l b } : RegistryMemory).own = m.own := by
  have hkeeps : ∀ k ∈ m.own, Function.update m.heap l b k = m.heap k := by
    intro k hk
    have hkl : k ≠ l := fun he => hl (he ▸ hk)
    exact Function.update_of_ne hkl _ _
  obtain ⟨hnodes, hown⟩ := hm.nodes.congr fun k hk => hkeeps k (List.mem_append_left _ hk)
  obtain ⟨hports, hown2⟩ := hm.ports.congr fun k hk => hkeeps k (List.mem_append_right _ hk)
  have hall : ({ m with heap := Function.update m.heap l b } : RegistryMemory).own = m.own := by
    simp only [RegistryMemory.own, hown, hown2]
  refine ⟨⟨hnodes, hports, hm.nodesCapacity, hm.portsCapacity, ?_⟩, hall⟩
  rw [hall]
  refine ⟨hm.owns.nodup, ?_⟩
  intro k hk
  show (Function.update m.heap l b k).isSome
  rw [hkeeps k hk]
  exact hm.owns.live k hk

end Arrays

/-! ### Lookups -/

section Lookups

variable {m : RegistryMemory} {reg : Registry}

theorem getD_rel {α β : Type} {R : α → β → Prop} {a : Option α} {b : Option β}
    (hr : Option.Rel R a b) {f : α → UInt32} {g : β → UInt32} (hfg : ∀ x y, R x y → f x = g y) :
    (a.map f).getD 0 = (b.map g).getD 0 := by
  cases hr with
  | none => rfl
  | some hxy => exact hfg _ _ hxy

/-- A lookup by name reads only strings that are there, and finds what the list has. -/
theorem findNodeByName_eq (hm : m.Shows reg) (name : CString) :
    m.findNodeByName name = some (reg.findNodeByName name) := by
  have htest : ∀ (s : NodeSlot) (e : NodeEntry), nodeKind.Shows m.heap s e →
      (stringAt m.heap s.name).map (· == name) = some (e.name == name) := by
    intro s e hs
    rw [(NodeSlot.Shows.name hs).2]
    rfl
  obtain ⟨found, hfound, hrel⟩ := hm.nodes.search htest
  unfold RegistryMemory.findNodeByName Registry.findNodeByName
  rw [hfound]
  exact congrArg some (getD_rel hrel fun s e hs => NodeSlot.Shows.id hs)

theorem findNodeBySerial_eq (hm : m.Shows reg) (serial : UInt64) :
    m.findNodeBySerial serial = some (reg.findNodeBySerial serial) := by
  unfold RegistryMemory.findNodeBySerial Registry.findNodeBySerial
  split
  · rfl
  · have htest : ∀ (s : NodeSlot) (e : NodeEntry), nodeKind.Shows m.heap s e →
        some (s.serial == serial) = some (e.serial == serial) := by
      intro s e hs
      rw [NodeSlot.Shows.serial hs]
    obtain ⟨found, hfound, hrel⟩ := hm.nodes.search htest
    rw [hfound]
    exact congrArg some (getD_rel hrel fun s e hs => NodeSlot.Shows.id hs)

theorem findPort_eq (hm : m.Shows reg) (nodeId : UInt32) (name : CString) (dir : SpaDirection) :
    m.findPort nodeId name dir = some (reg.findPort nodeId name dir) := by
  have htest : ∀ (s : PortSlot) (e : PortEntry), portKind.Shows m.heap s e →
      (if s.nodeId == nodeId && s.direction == dir then (stringAt m.heap s.name).map (· == name)
        else some false) =
      some (e.nodeId == nodeId && e.direction == dir && e.name == name) := by
    intro s e hs
    have hs' : PortSlot.Shows m.heap s e := hs
    rw [hs'.name.2, hs'.nodeId, hs'.direction]
    cases e.nodeId == nodeId && e.direction == dir <;> rfl
  obtain ⟨found, hfound, hrel⟩ := hm.ports.search htest
  unfold RegistryMemory.findPort Registry.findPort
  rw [hfound]
  exact congrArg some (getD_rel hrel fun s e hs => PortSlot.Shows.id hs)

/-- The listing counts what the list's does, and its slots hold the same ports in the same
order. -/
theorem listPorts_shows (hm : m.Shows reg) (nodeId : UInt32) (dir : SpaDirection) (max : ℕ) :
    ∃ ss, m.listPorts nodeId dir max = some ((reg.listPorts nodeId dir max).1, ss) ∧
      List.Forall₂ (PortSlot.Shows m.heap) ss (reg.listPorts nodeId dir max).2 := by
  have hkey : ∀ (s : PortSlot) (e : PortEntry), PortSlot.Shows m.heap s e →
      s.ordinal.toNat = e.ordinal.toNat := fun s e hs => congrArg _ hs.ordinal
  have hp : ∀ (s : PortSlot) (e : PortEntry), PortSlot.Shows m.heap s e →
      (decide (s.nodeId = nodeId) && decide (s.direction = dir)) =
        (decide (e.nodeId = nodeId) && decide (e.direction = dir)) := by
    intro s e hs
    rw [hs.nodeId, hs.direction]
  let Alike (x : ℕ × List PortSlot) (y : ℕ × List PortEntry) : Prop :=
    x.1 = y.1 ∧ List.Forall₂ (PortSlot.Shows m.heap) x.2 y.2
  have hstep : ∀ (x : ℕ × List PortSlot) (y : ℕ × List PortEntry) (s : PortSlot) (e : PortEntry),
      Alike x y → portKind.Shows m.heap s e →
      Alike (InsertBack.collect (fun s => s.ordinal.toNat)
        (fun s => decide (s.nodeId = nodeId) && decide (s.direction = dir)) max x s)
        (InsertBack.collect (fun e => e.ordinal.toNat)
          (fun e => decide (e.nodeId = nodeId) && decide (e.direction = dir)) max y e) :=
    fun x y s e hxy hs =>
      InsertBack.collect_related hkey hp (show PortSlot.Shows m.heap s e from hs) hxy
  have hstart : Alike (0, []) (0, []) := ⟨rfl, .nil⟩
  obtain ⟨⟨found, ss⟩, hfold, hcount, hss⟩ := hm.ports.fold hstep hstart
  obtain rfl : found = (reg.listPorts nodeId dir max).1 := hcount
  exact ⟨ss, hfold, hss⟩

end Lookups

/-! ### Runs of both -/

section Run

variable {cbs : RegistryCallbacks} {m : RegistryMemory} {reg : Registry} {a : MemoryAction}
  {xs : List MemoryAction}

/-- What a step does to the memory, seen as a change of the lists or none. -/
structure Follows (cbs : RegistryCallbacks) (m : RegistryMemory) (a : MemoryAction)
    (reg : Registry) (cs : List CacheChange) : Prop where
  asked : cs.map CacheChange.asked = a.asked.toList
  whole : .refused ∉ (memoryMachine cbs).out m a → ∀ c ∈ cs, c.Whole
  shows : ((memoryMachine cbs).next m a).Shows (cacheMachine.exec reg cs)
  notices : noticesOf ((memoryMachine cbs).out m a) =
    (cacheMachine.outs reg cs).filter cbs.hears
  books : ∀ ws, Tracks ws (· ∈ m.own) → Tracks (ws ++ booksOf ((memoryMachine cbs).out m a))
    (· ∈ ((memoryMachine cbs).next m a).own)
  keeps : a.asked ≠ none → m.heap.KeepsOff ((memoryMachine cbs).next m a).heap m.own

theorem Simulates.follows {c : CacheChange} (hm : m.Shows reg)
    (hs : Simulates cbs m ((memoryMachine cbs).next m a, (memoryMachine cbs).out m a) reg c)
    (ha : a.asked = some c.asked) : Follows cbs m a reg [c] := by
  constructor
  · rw [ha]
    rfl
  · intro hrefused c' hc
    rw [List.mem_singleton.mp hc]
    exact hs.whole hrefused
  · exact hs.shows
  · rw [Machine.outs_cons, Machine.outs_nil, List.append_nil]
    exact hs.notices
  · intro ws ht
    exact hs.hand.tracks hm.owns ht
  · intro _
    exact hs.hand.transfer.keeps

theorem memory_step (he : (memoryMachine cbs).Enabled m a) (hm : m.Shows reg) :
    ∃ cs, Follows cbs m a reg cs := by
  cases a with
  | bind =>
    refine ⟨[], rfl, by simp, ?_, rfl, ?_, by simp [MemoryAction.asked]⟩
    · exact ⟨hm.nodes, hm.ports, hm.nodesCapacity, hm.portsCapacity, hm.owns⟩
    · intro ws ht
      rw [show booksOf ((memoryMachine cbs).out m .bind) = [] from rfl, List.append_nil]
      exact ht
  | global id g answers =>
    obtain ⟨allocs, hs⟩ := global_simulates hm cbs id g answers
    exact ⟨_, hs.follows hm rfl⟩
  | globalRemove id => exact ⟨_, (globalRemove_simulates hm cbs id).follows hm rfl⟩
  | teardown => exact ⟨_, (teardown_simulates hm cbs).1.follows hm rfl⟩
  | elsewhere l b =>
    obtain ⟨hshows, hown⟩ := elsewhere_shows hm he b
    refine ⟨[], rfl, by simp, hshows, rfl, ?_, by simp [MemoryAction.asked]⟩
    intro ws ht
    rw [show booksOf ((memoryMachine cbs).out m (.elsewhere l b)) = [] from rfl, List.append_nil]
    apply ht.congr
    intro k
    show k ∈ ({ m with heap := Function.update m.heap l b } : RegistryMemory).own ↔ k ∈ m.own
    rw [hown]

/-- What a run leaves: the caches as lists after the same changes, and the right books. -/
structure Cachings (cbs : RegistryCallbacks) (h : Heap RegistryBlock) (xs : List MemoryAction)
    (cs : List CacheChange) : Prop where
  asked : cs.map CacheChange.asked = xs.filterMap MemoryAction.asked
  whole : .refused ∉ (memoryMachine cbs).outs (.start h) xs → ∀ c ∈ cs, c.Whole
  shows : ((memoryMachine cbs).exec (.start h) xs).Shows (cacheMachine.exec .zeroed cs)
  notices : noticesOf ((memoryMachine cbs).outs (.start h) xs) =
    (cacheMachine.outs .zeroed cs).filter cbs.hears
  books : Tracks (booksOf ((memoryMachine cbs).outs (.start h) xs))
    (· ∈ ((memoryMachine cbs).exec (.start h) xs).own)

theorem start_shows (h : Heap RegistryBlock) : (RegistryMemory.start h).Shows .zeroed where
  nodes := SlotArray.represents_empty _ _
  ports := SlotArray.represents_empty _ _
  nodesCapacity := rfl
  portsCapacity := rfl
  owns := ⟨List.nodup_nil, fun _ hl => absurd hl List.not_mem_nil⟩

theorem memory_run (h : Heap RegistryBlock) (hv : (memoryMachine cbs).Valid (.start h) xs) :
    ∃ cs, Cachings cbs h xs cs := by
  refine Machine.run_induction (P := fun ys => ∃ cs, Cachings cbs h ys cs) ?_ ?_ hv
  · refine ⟨[], rfl, by simp, start_shows h, rfl, ?_⟩
    exact Ledger.tracks_nil fun _ hl => absurd hl List.not_mem_nil
  · rintro ys a - ha ⟨cs, hcs⟩
    obtain ⟨ds, hds⟩ := memory_step ha hcs.shows
    refine ⟨cs ++ ds, ?_, ?_, ?_, ?_, ?_⟩
    · rw [List.map_append, hcs.asked, hds.asked, List.filterMap_append]
      cases a <;> rfl
    · intro hrefused c hc
      rw [Machine.outs_append, List.mem_append, not_or, Machine.outs_cons, Machine.outs_nil,
        List.append_nil] at hrefused
      rcases List.mem_append.mp hc with hc | hc
      · exact hcs.whole hrefused.1 c hc
      · exact hds.whole hrefused.2 c hc
    · rw [Machine.exec_append, Machine.exec_append]
      exact hds.shows
    · rw [Machine.outs_append, Machine.outs_append, noticesOf_append, List.filter_append,
        hcs.notices, Machine.outs_cons, Machine.outs_nil, List.append_nil, hds.notices]
    · rw [Machine.outs_append, booksOf_append, Machine.outs_cons, Machine.outs_nil,
        List.append_nil, Machine.exec_append]
      exact hds.books _ hcs.books

end Run

/-- A node whose second string is not copied, and a port; another block lies between theirs. -/
def cachedTwice : List MemoryAction :=
  [.bind,
    .global 10 ⟨.node, some [(.nodeName, microphoneLabel), (.mediaClass, outDirection)]⟩
      ⟨some 1, some 2, none, none⟩,
    .elsewhere 3 (some .other),
    .global 11 (outputPort '3' (by decide)) ⟨some 4, some 5, none, none⟩,
    .globalRemove 10, .global 12 (namedNode microphoneLabel) ⟨none, some 2, none, none⟩]

end TinyPipewire.Core
