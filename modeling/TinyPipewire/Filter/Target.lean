import TinyPipewire.Core.Removal
import TinyPipewire.Stream.TargetList

/-!
# The target of a port link

`pwf_resolve_target` tries a target as a whole, and then as a node and a port, split at its last
colon. The node's part goes through a buffer of 256 bytes.
-/

namespace TinyPipewire.Filter

open TinyPipewire.Core

/-- A string of digits is a serial, any other a name; 0 if there is no such node. -/
def lookupNode (reg : Core.Registry) (name : CString) : UInt32 :=
  if name.isAllDigits then reg.findNodeBySerial name.strtoull else reg.findNodeByName name

/-- The size of `node_part`. -/
def nodePartSize : ℕ := 256

/-- `pwf_resolve_target_node`: the node, 0 if there is none, and the port's part. -/
def resolveTargetNode (reg : Core.Registry) (target : CString) : UInt32 × Option CString :=
  if lookupNode reg target ≠ 0 then (lookupNode reg target, none)
  else
    match target.strrchr ':' with
    | none => (0, none)
    | some sep =>
      if sep = 0 ∨ target.chars.length = sep + 1 then (0, none)
      else if nodePartSize ≤ sep then (0, none)
      else
        let node := lookupNode reg (target.before sep)
        if node = 0 then (0, none) else (node, some (target.fromIndex (sep + 1)))

/-- `pwf_resolve_target`: the node, and the port to link; `later` is the registry after each
round-trip that a pick of a port waits for. -/
def resolveTarget (reg : Core.Registry) (later : List Core.Registry) (target : CString) :
    UInt32 × UInt32 :=
  let (node, portName) := resolveTargetNode reg target
  if node = 0 then (0, 0)
  else
    match portName with
    | none => (node, pickTargetPort node (reg :: later))
    | some name =>
      let port := reg.findPort node name .output
      if port = 0 then (0, 0) else (node, port)

/-- The port is the one output of the node that has its name, and the name is not empty. -/
structure NamedOutput (reg : Core.Registry) (e : NodeEntry) (d : PortEntry) : Prop where
  mem : d ∈ reg.ports
  node : d.nodeId = e.id
  output : d.direction = .output
  name : d.name ≠ .empty
  only : ∀ d' ∈ reg.ports, d'.nodeId = e.id → d'.direction = .output → d'.name = d.name → d' = d

/-- The node is the only one that has its name, which is not empty and not a number. -/
structure NamedNode (reg : Core.Registry) (e : NodeEntry) : Prop where
  mem : e ∈ reg.nodes
  name : e.name ≠ .empty
  digits : e.name.isAllDigits = false
  only : ∀ e' ∈ reg.nodes, e'.name = e.name → e' = e

variable {reg : Core.Registry} {later : List Core.Registry} {e : NodeEntry} {d : PortEntry}
  {s t : CString} {live : LiveGlobals} {xs : List RegistryEvent}

theorem joinColon_not_digits : (CString.joinColon s t).isAllDigits = false := by
  have hcolon : Char.isDigit ':' = false := by decide
  simp [CString.isAllDigits, CString.joinColon, hcolon]

theorem chars_ne_nil (h : s ≠ .empty) : 0 < s.chars.length := by
  apply List.length_pos_of_ne_nil
  intro hnil
  exact h (CString.ext hnil)

theorem findNodeByName_none (h : ∀ e ∈ reg.nodes, e.name ≠ s) : reg.findNodeByName s = 0 := by
  have hnone : reg.nodes.find? (fun e => e.name == s) = none :=
    List.find?_eq_none.mpr (by simpa using h)
  rw [Registry.findNodeByName, hnone]
  rfl

theorem NamedNode.found (h : NamedNode reg e) : reg.findNodeByName e.name = e.id := by
  cases hf : reg.nodes.find? fun e' => e'.name == e.name with
  | none =>
    have hno := List.find?_eq_none.mp hf e h.mem
    simp at hno
  | some e' =>
    have hname : e'.name = e.name := by simpa using List.find?_some hf
    obtain rfl := h.only e' (List.mem_of_find?_eq_some hf) hname
    rw [Registry.findNodeByName, hf]
    rfl

theorem NamedOutput.found (h : NamedOutput reg e d) :
    reg.findPort e.id d.name .output = d.id := by
  cases hf : reg.ports.find? fun d' =>
      d'.nodeId == e.id && d'.direction == .output && d'.name == d.name with
  | none =>
    have hno := List.find?_eq_none.mp hf d h.mem
    simp [h.node, h.output] at hno
  | some d' =>
    obtain ⟨⟨hnode, hout⟩, hname⟩ :
        (d'.nodeId = e.id ∧ d'.direction = .output) ∧ d'.name = d.name := by
      simpa using List.find?_some hf
    obtain rfl := h.only d' (List.mem_of_find?_eq_some hf) hnode hout hname
    rw [Registry.findPort, hf]
    rfl

/-- A lookup by another name gives another port. -/
theorem findPort_ne (hd : reg.Distinct) (h : NamedOutput reg e d) {node : UInt32}
    (hs : s ≠ d.name) : reg.findPort node s .output ≠ d.id := by
  unfold Registry.findPort
  cases hf : reg.ports.find? fun d' =>
      d'.nodeId == node && d'.direction == .output && d'.name == s with
  | none => exact (hd.ports.live d h.mem).symm
  | some d' =>
    intro heq
    have hname : d'.name = s := by
      have hall := List.find?_some hf
      simp only [Bool.and_eq_true, beq_iff_eq] at hall
      exact hall.2
    obtain rfl := hd.ports.eq_of_key (List.mem_of_find?_eq_some hf) h.mem heq
    exact hs hname.symm

/-- A target with a port is split at its last colon if no node is named by all of it. -/
theorem resolveTargetNode_split (hwhole : ∀ e ∈ reg.nodes, e.name ≠ CString.joinColon s t) :
    resolveTargetNode reg (CString.joinColon s t) =
      match (CString.joinColon s t).strrchr ':' with
      | none => (0, none)
      | some sep =>
        if sep = 0 ∨ (CString.joinColon s t).chars.length = sep + 1 then (0, none)
        else if nodePartSize ≤ sep then (0, none)
        else
          let node := lookupNode reg ((CString.joinColon s t).before sep)
          if node = 0 then (0, none)
          else (node, some ((CString.joinColon s t).fromIndex (sep + 1))) := by
  have hzero : lookupNode reg (CString.joinColon s t) = 0 := by
    rw [lookupNode, joinColon_not_digits]
    exact findNodeByName_none hwhole
  unfold resolveTargetNode
  rw [hzero]
  rfl

/-- The parts of a target whose port has no colon. -/
theorem resolveTargetNode_parts (hwhole : ∀ e ∈ reg.nodes, e.name ≠ CString.joinColon s t)
    (hs : s ≠ .empty) (ht : t ≠ .empty) (hcolon : ':' ∉ t.chars) :
    resolveTargetNode reg (CString.joinColon s t) =
      if s.chars.length < nodePartSize ∧ lookupNode reg s ≠ 0 then (lookupNode reg s, some t)
      else (0, none) := by
  have hsep : (CString.joinColon s t).strrchr ':' = some s.chars.length :=
    CString.lastIndex_append s.chars hcolon
  have hlen : (CString.joinColon s t).chars.length = s.chars.length + (t.chars.length + 1) := by
    simp [CString.joinColon]
  have hbefore : (CString.joinColon s t).before s.chars.length = s := by
    apply CString.ext
    exact List.take_left' rfl
  have hfrom : (CString.joinColon s t).fromIndex (s.chars.length + 1) = t := by
    apply CString.ext
    have hassoc : s.chars ++ ':' :: t.chars = (s.chars ++ [':']) ++ t.chars := by simp
    change (s.chars ++ ':' :: t.chars).drop (s.chars.length + 1) = t.chars
    rw [hassoc]
    exact List.drop_left' (by simp)
  have hspos := chars_ne_nil hs
  have htpos := chars_ne_nil ht
  rw [resolveTargetNode_split hwhole, hsep]
  dsimp only
  rw [if_neg (by omega), hbefore, hfrom]
  by_cases hfits : nodePartSize ≤ s.chars.length
  · rw [if_pos hfits, if_neg (by omega)]
  · rw [if_neg hfits]
    by_cases hnode : lookupNode reg s = 0
    · rw [if_pos hnode, if_neg (fun h => h.2 hnode)]
    · rw [if_neg hnode, if_pos ⟨by omega, hnode⟩]

/-- With a colon in its name the port looked up is another one. -/
theorem resolveTarget_colon (hd : reg.Distinct) (h : NamedOutput reg e d)
    (hwhole : ∀ e ∈ reg.nodes, e.name ≠ CString.joinColon s d.name)
    (hcolon : ':' ∈ d.name.chars) :
    resolveTarget reg later (CString.joinColon s d.name) ≠ (e.id, d.id) := by
  obtain ⟨sep, hsep, hlt⟩ := CString.lastIndex_append_of_mem s.chars hcolon
  have hsep : (CString.joinColon s d.name).strrchr ':' = some sep := hsep
  have hzero : ((0, 0) : UInt32 × UInt32) ≠ (e.id, d.id) := by
    intro heq
    exact hd.ports.live d h.mem (Prod.mk.inj heq).2.symm
  have hname : (CString.joinColon s d.name).fromIndex (sep + 1) ≠ d.name := by
    intro heq
    have hlen := congrArg (fun u : CString => u.chars.length) heq
    have hpos := chars_ne_nil h.name
    simp only [CString.fromIndex, CString.joinColon, List.length_drop, List.length_append,
      List.length_cons] at hlen
    omega
  unfold resolveTarget
  rw [resolveTargetNode_split hwhole, hsep]
  dsimp only
  split
  · exact hzero
  · split
    · exact hzero
    · by_cases hnode : lookupNode reg ((CString.joinColon s d.name).before sep) = 0
      · rw [if_pos hnode]
        exact hzero
      · rw [if_neg hnode]
        dsimp only
        rw [if_neg hnode]
        split
        · exact hzero
        · intro heq
          exact findPort_ne hd h hname (Prod.mk.inj heq).2

/-- A node and an output by name, with a colon between them, resolve to these exactly if the
port's name has no colon, the node's fits the buffer, and it is the node looked up. -/
theorem resolveTarget_join_iff (hd : reg.Distinct) (he : e ∈ reg.nodes) (h : NamedOutput reg e d)
    (hs : s ≠ .empty) (hwhole : ∀ e ∈ reg.nodes, e.name ≠ CString.joinColon s d.name) :
    resolveTarget reg later (CString.joinColon s d.name) = (e.id, d.id) ↔
      ':' ∉ d.name.chars ∧ s.chars.length < nodePartSize ∧ lookupNode reg s = e.id := by
  have hne : e.id ≠ 0 := hd.nodes.live e he
  constructor
  · intro heq
    have hcolon : ':' ∉ d.name.chars := fun hmem => resolveTarget_colon hd h hwhole hmem heq
    unfold resolveTarget at heq
    rw [resolveTargetNode_parts hwhole hs h.name hcolon] at heq
    by_cases hfound : s.chars.length < nodePartSize ∧ lookupNode reg s ≠ 0
    · rw [if_pos hfound] at heq
      dsimp only at heq
      rw [if_neg hfound.2] at heq
      split at heq
      · exact absurd (Prod.mk.inj heq).1.symm hne
      · exact ⟨hcolon, hfound.1, (Prod.mk.inj heq).1⟩
    · rw [if_neg hfound] at heq
      exact absurd (Prod.mk.inj heq).1.symm hne
  · rintro ⟨hcolon, hfits, hnode⟩
    unfold resolveTarget
    rw [resolveTargetNode_parts hwhole hs h.name hcolon, hnode, if_pos ⟨hfits, hne⟩]
    dsimp only
    rw [if_neg hne, h.found, if_neg (hd.ports.live d h.mem)]

/-- In every registry that events make: `"<node>:<port>"`, of a node with a name of its own that
is no number and an output with a name of its own, resolves to them if no node is named by all of
it, exactly if the port's name has no colon and the node's has fewer than 256 bytes; and
`"<serial>:<port>"` exactly if the port's name has no colon and no node before it has its
serial. -/
theorem named_targets_resolve_iff (h : (graphMachine.restrict NotCore).Valid (fun _ => none) xs) :
    let reg := registryAfter xs
    (∀ later e d, NamedNode reg e → NamedOutput reg e d →
        (∀ n ∈ reg.nodes, n.name ≠ CString.joinColon e.name d.name) →
        (resolveTarget reg later (CString.joinColon e.name d.name) = (e.id, d.id) ↔
          ':' ∉ d.name.chars ∧ e.name.chars.length < nodePartSize)) ∧
      ∀ later e d, e ∈ reg.nodes → e.serial ≠ 0 → NamedOutput reg e d →
        (∀ n ∈ reg.nodes, n.name ≠ CString.joinColon (CString.decimal e.serial) d.name) →
        (resolveTarget reg later (CString.joinColon (CString.decimal e.serial) d.name) =
            (e.id, d.id) ↔
          ':' ∉ d.name.chars ∧ Stream.FirstWith reg e.serial e) := by
  intro reg
  have hd : reg.Distinct := distinct_run h
  refine ⟨?_, ?_⟩
  · intro later e d he hport hwhole
    have hlookup : lookupNode reg e.name = e.id := by
      rw [lookupNode, he.digits]
      exact he.found
    rw [resolveTarget_join_iff hd he.mem hport he.name hwhole, hlookup]
    simp
  · intro later e d he hserial hport hwhole
    have hne : CString.decimal e.serial ≠ .empty := by
      intro hempty
      have hdigits := CString.isAllDigits_decimal e.serial
      rw [hempty] at hdigits
      cases hdigits
    have hlookup : lookupNode reg (CString.decimal e.serial) = reg.findNodeBySerial e.serial := by
      rw [lookupNode, CString.isAllDigits_decimal, if_pos rfl, CString.strtoull_decimal]
    have hlen := CString.decimal_length e.serial
    rw [resolveTarget_join_iff hd he hport hne hwhole, hlookup,
      Stream.findNodeBySerial_iff (keyed_run h) he]
    constructor
    · rintro ⟨hcolon, -, -, hfirst⟩
      exact ⟨hcolon, hfirst⟩
    · rintro ⟨hcolon, hfirst⟩
      exact ⟨hcolon, by unfold nodePartSize; omega, hserial, hfirst⟩

/-- A microphone with serial 7, and one output. -/
def microphone (port : CString) : List RegistryEvent :=
  [.global 5 ⟨.node, some [(.nodeName, .ofChars ['m']),
      (.objectSerial, .ofChars ['7'])]⟩ .all,
    .global 11 ⟨.port, some [(.portName, port), (.nodeId, .ofChars ['5']),
      (.portDirection, outDirection)]⟩ .all]

def microphoneNode : NodeEntry := ⟨5, .ofChars ['m'], 7, none, none⟩

def microphonePort (port : CString) : PortEntry := ⟨11, 5, port, .output, 0⟩

/-- `"l"`. -/
def leftName : CString := .ofChars ['l']

/-- `"l:r"`. -/
def stereoName : CString := .ofChars ['l', ':', 'r']

theorem microphone_valid (port : CString) :
    (graphMachine.restrict NotCore).Valid (fun _ => none) (microphone port) :=
  ⟨⟨rfl, (by decide : (5 : UInt32) ≠ 0)⟩, ⟨rfl, (by decide : (11 : UInt32) ≠ 0)⟩, trivial⟩

theorem microphone_nodes (port : CString) :
    (registryAfter (microphone port)).nodes = [microphoneNode] := rfl

theorem microphone_ports (port : CString) :
    (registryAfter (microphone port)).ports = [microphonePort port] := rfl

theorem microphone_namedNode (port : CString) :
    NamedNode (registryAfter (microphone port)) microphoneNode := by
  refine ⟨by simp [microphone_nodes], by decide, by decide, ?_⟩
  intro e' he' _
  simpa [microphone_nodes] using he'

theorem microphone_namedOutput {port : CString} (h : port ≠ .empty) :
    NamedOutput (registryAfter (microphone port)) microphoneNode (microphonePort port) := by
  refine ⟨by simp [microphone_ports], rfl, rfl, h, ?_⟩
  intro d' hd' _ _ _
  simpa [microphone_ports] using hd'

theorem named_targets_resolve_iff_left :
    let reg := registryAfter (microphone leftName)
    (resolveTarget reg [] (CString.joinColon microphoneNode.name leftName) = (5, 11) ↔
        ':' ∉ leftName.chars ∧ microphoneNode.name.chars.length < nodePartSize) ∧
      (resolveTarget reg [] (CString.joinColon (CString.decimal microphoneNode.serial) leftName) =
          (5, 11) ↔
        ':' ∉ leftName.chars ∧ Stream.FirstWith reg microphoneNode.serial microphoneNode) := by
  have hnode := microphone_namedNode leftName
  have hport : NamedOutput (registryAfter (microphone leftName)) microphoneNode
      (microphonePort leftName) := microphone_namedOutput (by decide)
  have hthm := named_targets_resolve_iff (microphone_valid leftName)
  exact ⟨hthm.1 [] microphoneNode (microphonePort leftName) hnode hport (by decide),
    hthm.2 [] microphoneNode (microphonePort leftName) hnode.mem (by decide) hport (by decide)⟩

/-- The output `"l:r"` of the node `"m"` is named by neither target: both are split in front of
`"r"`, and no node is named `"m:l"` or `"7:l"`. -/
theorem colon_in_port_unresolved :
    let reg := registryAfter (microphone stereoName)
    (graphMachine.restrict NotCore).Valid (fun _ => none) (microphone stereoName) ∧
      NamedNode reg microphoneNode ∧ NamedOutput reg microphoneNode (microphonePort stereoName) ∧
      (∀ n ∈ reg.nodes, n.name ≠ CString.joinColon microphoneNode.name stereoName) ∧
      resolveTarget reg [] (CString.joinColon microphoneNode.name stereoName) = (0, 0) ∧
      (∀ n ∈ reg.nodes, n.name ≠ CString.joinColon (CString.decimal 7) stereoName) ∧
      resolveTarget reg [] (CString.joinColon (CString.decimal 7) stereoName) = (0, 0) :=
  ⟨microphone_valid stereoName, microphone_namedNode stereoName,
    microphone_namedOutput (by decide), by decide, by decide, by decide, by decide⟩

end TinyPipewire.Filter
