import TinyPipewire.Core.Registry

/-!
# The ids in the caches

Whatever events a registry gets, and whatever is allocated for them, its entries are told apart
by their global ids, and none has the id of the core, which says "none" in a lookup.
-/

namespace TinyPipewire.Core

/-- The ids of the cached nodes are distinct and not 0, and so are those of the ports. -/
structure Registry.Distinct (reg : Registry) : Prop where
  nodes : SwapRemove.Keyed NodeEntry.id reg.nodes (· ≠ 0)
  ports : SwapRemove.Keyed PortEntry.id reg.ports (· ≠ 0)

variable {reg : Registry} {live : LiveGlobals} {a : RegistryEvent} {xs : List RegistryEvent}

theorem ports_keyed_next (he : (graphMachine.restrict NotCore).Enabled live a)
    (h : SwapRemove.Keyed PortEntry.id reg.ports live.InUse) :
    SwapRemove.Keyed PortEntry.id (reg.on a).ports
      (LiveGlobals.InUse (graphMachine.next live a)) := by
  cases a with
  | global id g allocs => exact keyed_global he h (onGlobal_adds reg id g allocs).2
  | globalRemove id => exact keyed_globalRemove id h

theorem ports_keyed_run (h : (graphMachine.restrict NotCore).Valid (fun _ => none) xs) :
    SwapRemove.Keyed PortEntry.id (registryAfter xs).ports (liveAfter xs).InUse := by
  refine Machine.run_induction (P := fun ys =>
    SwapRemove.Keyed PortEntry.id (registryAfter ys).ports (liveAfter ys).InUse) ?_ ?_ h
  · exact SwapRemove.keyed_nil
  · intro ys a _ ha ih
    rw [registryAfter_concat, liveAfter_concat]
    exact ports_keyed_next ha ih

/-- Every registry that events make tells its entries apart. -/
theorem distinct_run (h : (graphMachine.restrict NotCore).Valid (fun _ => none) xs) :
    (registryAfter xs).Distinct where
  nodes := ⟨(keyed_run h).nodup, (keyed_run h).core⟩
  ports := (ports_keyed_run h).mono fun _ hk => hk.2

end TinyPipewire.Core
