import TinyPipewire.Core.RegistryIds

/-!
# Lookups after a removal

A lookup finds the first entry in the order of the cache, and a removal moves the last entry in
front of others.
-/

namespace TinyPipewire.Core

open TinyPipewire.Stream (SpaDirection)
open SwapRemove (Overtaken)

/-- `pwf_pw_registry_find_port`. -/
def Registry.findPort (reg : Registry) (nodeId : UInt32) (name : CString) (dir : SpaDirection) :
    UInt32 :=
  ((reg.ports.find? fun e => e.nodeId == nodeId && e.direction == dir && e.name == name).map
    (·.id)).getD 0

variable {xs : List RegistryEvent}

/-- A lookup in an array whose ids are distinct gives the same id after another entry's removal,
unless the last entry then is found first. -/
theorem found_after_removal_iff {α : Type} {key : α → UInt32} {l : List α} {p : α → Bool}
    {id : UInt32} (h : SwapRemove.Keyed key l (· ≠ 0)) (hne : id ≠ ((l.find? p).map key).getD 0) :
    ((((SwapRemove.swapRemove (fun e => key e == id) l).find? p).map key).getD 0 =
      ((l.find? p).map key).getD 0) ↔ ¬ Overtaken key id p l := by
  constructor
  · intro hsame ho
    obtain ⟨b, c, hb, hc, hbc⟩ := ho.find? h.nodup
    rw [hb, hc] at hsame
    exact hbc hsame.symm
  · intro ho
    rw [SwapRemove.find?_swapRemove ?_ ho]
    intro b hb heq
    rw [hb] at hne
    exact hne heq.symm

/-- In every registry that events make, the removal of a global other than the one a lookup gives
leaves what it gives exactly if the entry removed does not stand before the one found while the
last entry of the array is another one the lookup would accept. -/
theorem removal_keeps_lookups_iff (h : (graphMachine.restrict NotCore).Valid (fun _ => none) xs) :
    let reg := registryAfter xs
    (∀ name id, id ≠ reg.findNodeByName name →
        ((reg.onGlobalRemove id).findNodeByName name = reg.findNodeByName name ↔
          ¬ Overtaken NodeEntry.id id (fun e => e.name == name) reg.nodes)) ∧
      (∀ serial id, id ≠ reg.findNodeBySerial serial →
        ((reg.onGlobalRemove id).findNodeBySerial serial = reg.findNodeBySerial serial ↔
          serial = 0 ∨ ¬ Overtaken NodeEntry.id id (fun e => e.serial == serial) reg.nodes)) ∧
      ∀ nodeId name dir id, id ≠ reg.findPort nodeId name dir →
        ((reg.onGlobalRemove id).findPort nodeId name dir = reg.findPort nodeId name dir ↔
          ¬ Overtaken PortEntry.id id
            (fun e => e.nodeId == nodeId && e.direction == dir && e.name == name) reg.ports) := by
  intro reg
  have hd : reg.Distinct := distinct_run h
  refine ⟨?_, ?_, ?_⟩
  · intro name id hne
    exact found_after_removal_iff hd.nodes hne
  · intro serial id hne
    unfold Registry.findNodeBySerial at hne ⊢
    by_cases hzero : serial = 0
    · simp [hzero]
    · rw [if_neg hzero] at hne
      rw [if_neg hzero, if_neg hzero, or_iff_right hzero]
      exact found_after_removal_iff hd.nodes hne
  · intro nodeId name dir id hne
    exact found_after_removal_iff hd.ports hne

/-- A node of this name. -/
def namedNode (name : CString) : Global := ⟨.node, some [(.nodeName, name)]⟩

/-- `"m"`. -/
def microphoneLabel : CString := .ofChars ['m']

/-- A speaker, and two microphones of one name. -/
def twoMicrophones : List RegistryEvent :=
  [.global 10 (namedNode (.ofChars ['s'])) .all, .global 11 (namedNode microphoneLabel) .all,
    .global 12 (namedNode microphoneLabel) .all]

theorem twoMicrophones_valid :
    (graphMachine.restrict NotCore).Valid (fun _ => none) twoMicrophones :=
  ⟨⟨rfl, by decide⟩, ⟨rfl, by decide⟩, ⟨rfl, by decide⟩, trivial⟩

/-- Another microphone behind the one that is found goes, and nothing else changes. -/
theorem removal_keeps_lookups_iff_behind :
    (((registryAfter twoMicrophones).onGlobalRemove 12).findNodeByName microphoneLabel =
        (registryAfter twoMicrophones).findNodeByName microphoneLabel ↔
      ¬ Overtaken NodeEntry.id 12 (fun e => e.name == microphoneLabel)
        (registryAfter twoMicrophones).nodes) :=
  (removal_keeps_lookups_iff twoMicrophones_valid).1 microphoneLabel 12 (by decide)

/-- The speaker goes, and its place takes the last microphone: the name now means that one. -/
theorem removal_retargets :
    (graphMachine.restrict NotCore).Valid (fun _ => none) (twoMicrophones ++ [.globalRemove 10]) ∧
      (registryAfter twoMicrophones).findNodeByName microphoneLabel = 11 ∧
      (registryAfter (twoMicrophones ++ [.globalRemove 10])).findNodeByName microphoneLabel = 12 :=
  ⟨⟨⟨rfl, by decide⟩, ⟨rfl, by decide⟩, ⟨rfl, by decide⟩, ⟨trivial, trivial⟩, trivial⟩,
    by decide, by decide⟩

end TinyPipewire.Core
