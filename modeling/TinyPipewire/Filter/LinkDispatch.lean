import TinyPipewire.Filter.LinkCall

/-!
# The proxy under dispatch

The error callback of a lost link runs inside the dispatch of the link proxy's own `info`
event. The calls it may make there reach `pwf_filter_port_link_release`.
-/

namespace TinyPipewire.Filter

variable {n : ℕ} {cfgs : Fin n → PortConfig} {errorCb : Bool} {s : LinkState n}
  {b : LinkAction n} {p : Fin n} {ws : List (Fin n × PortOut)}

def reportedProxy : PortOut → Option ℕ
  | .reported id _ => some id
  | _ => none

/-- The proxy whose `info` event was dispatched last. -/
def lastDispatched (ws : List PortOut) : Option ℕ := (ws.filterMap reportedProxy).getLast?

/-- The action destroys a proxy while its own `info` event is being dispatched. -/
def LinkState.DestroysDispatched (cfgs : Fin n → PortConfig) (errorCb : Bool)
    (ws : List (Fin n × PortOut)) (s : LinkState n) (b : LinkAction n) : Prop :=
  ∃ p id, s.dispatch = some (.info p) ∧ lastDispatched (portTrace p ws) = some id ∧
    (p, .released id) ∈ LinkState.out cfgs errorCb s b

/-- An error callback that is told of a lost link neither stops the running filter nor
unlinks that port. -/
def LinkState.Defers (s : LinkState n) : LinkAction n → Prop
  | .callbackStop => s.state = .running → ∀ p, s.dispatch ≠ some (.info p)
  | .callbackUnlink p => s.dispatch ≠ some (.info p)
  | _ => True

instance (s : LinkState n) : DecidablePred s.Defers
  | .callbackStop => inferInstanceAs (Decidable (_ → _))
  | .callbackUnlink _ => inferInstanceAs (Decidable (_ ≠ _))
  | .linkEnter _ _ | .linkLookupFailed _ _ | .linkCreate _ _ | .linkResume _ _ | .info _ _
  | .paramChanged _ _ _ | .callbackStart | .callbackReturn | .unlinkEnter _ | .unlinkRelease _
  | .stopEnter | .stopPause | .stopRelease | .startEnter _ | .startFinish | .destroyEnter
  | .destroyFinish => inferInstanceAs (Decidable True)

/-! ### Inside the callback -/

/-- While the callback runs a port's link is not touched, other than by the callback. -/
theorem callback_portSteps (he : s.Enabled cfgs errorCb b) (hd : s.dispatch.isSome = true)
    (p : Fin n) :
    (s.portSteps cfgs p b = [] ∨
      (∃ st c, s.portSteps cfgs p b = [.enter st c]) ∨
      ∃ r, s.portSteps cfgs p b = [.lookupFailed r]) ∨
    (s.portSteps cfgs p b = [.release] ∧
      ((b = .callbackStop ∧ s.state = .running) ∨ b = .callbackUnlink p)) := by
  have hlocked : ¬ s.unlocked := by
    intro hu
    rw [LinkState.unlocked] at hu
    simp [hu] at hd
  have hcan := he.2.1
  cases b with
  | linkEnter r c =>
    by_cases hr : r = p
    · exact Or.inl (Or.inr (Or.inl ⟨_, _, if_pos hr⟩))
    · exact Or.inl (Or.inl (if_neg hr))
  | linkLookupFailed r e =>
    by_cases hr : r = p
    · exact Or.inl (Or.inr (Or.inr ⟨_, if_pos hr⟩))
    · exact Or.inl (Or.inl (if_neg hr))
  | callbackStop =>
    by_cases hs : s.state = .running
    · exact Or.inr ⟨if_pos hs, Or.inl ⟨rfl, hs⟩⟩
    · exact Or.inl (Or.inl (if_neg hs))
  | callbackUnlink r =>
    by_cases hr : r = p ∧ (cfgs r).direction = .input ∧
        (s.ports r).link.linkProxy.isSome = true
    · exact Or.inr ⟨if_pos hr, Or.inr (by rw [hr.1])⟩
    · exact Or.inl (Or.inl (if_neg hr))
  | linkCreate | linkResume | info | paramChanged | unlinkRelease | stopRelease =>
    exact absurd hcan hlocked
  | _ => exact Or.inl (Or.inl rfl)

/-- The dispatch goes on till the callback returns, and begins with an event. -/
theorem dispatch_next
    (h : (LinkState.next cfgs errorCb s b).dispatch = some (.info p)) :
    s.dispatch = some (.info p) ∨
      ∃ i, b = .info p i ∧ (linkOnInfo s.state (s.ports p).link i).2 = true := by
  cases b with
  | info r i =>
    by_cases hcb : errorCb = true ∧ (linkOnInfo s.state (s.ports r).link i).2 = true
    · have hr : some (Dispatch.info r) = some (.info p) := by
        simpa [LinkState.next, LinkState.control, LinkState.callback, hcb] using h
      obtain rfl := Dispatch.info.inj (Option.some.inj hr)
      exact Or.inr ⟨i, rfl, hcb.2⟩
    · simp [LinkState.next, LinkState.control, LinkState.callback, hcb] at h
  | paramChanged r id param =>
    simp only [LinkState.next, LinkState.control, LinkState.callback] at h
    split at h <;> simp at h
  | callbackReturn => simp [LinkState.next, LinkState.control] at h
  | callbackStop | stopEnter | unlinkEnter _ | startEnter _ | destroyEnter =>
    simp only [LinkState.next, LinkState.control] at h
    split at h <;> exact Or.inl h
  | _ => exact Or.inl h

/-- The proxy under dispatch is its port's, and its port is an input port. -/
structure LinkState.Dispatching (cfgs : Fin n → PortConfig) (ws : List (Fin n × PortOut))
    (s : LinkState n) : Prop where
  proxy : ∀ p, s.dispatch = some (.info p) →
    ∃ id, (s.ports p).link.linkProxy = some id ∧ lastDispatched (portTrace p ws) = some id
  inputOnly : ∀ p, (s.ports p).InputOnly (cfgs p)

theorem dispatching_init : (LinkState.init n).Dispatching cfgs [] where
  proxy := by simp [LinkState.init]
  inputOnly := by simp [LinkState.init, LinkPort.InputOnly, LinkPort.zeroed, PortLink.zeroed]

/-- A loss that reaches the callback is a report of the port's proxy. -/
theorem lastDispatched_info {cfg : PortConfig} {q : LinkPort} {us : List PortOut}
    {st : FilterState} {i : PwLinkInfo} {id : ℕ} (hid : q.link.linkProxy = some id)
    (hc : i.stateChanged = true) :
    lastDispatched (us ++ LinkPort.out cfg errorCb q (.info st i)) = some id := by
  have hcb : (callbackOuts errorCb (linkOnInfo st q.link i).2).filterMap reportedProxy = [] := by
    unfold callbackOuts
    split <;> rfl
  rw [lastDispatched, LinkPort.out, List.filterMap_append, List.filterMap_append, hcb, if_pos hc,
    hid]
  simp [reportedProxy]

theorem dispatching_next (he : s.Enabled cfgs errorCb b) (hdefers : s.Defers b)
    (h : s.Dispatching cfgs ws) :
    (LinkState.next cfgs errorCb s b).Dispatching cfgs
      (ws ++ LinkState.out cfgs errorCb s b) := by
  constructor
  · intro p hd
    rw [portTrace_append, portTrace_out]
    rcases dispatch_next hd with hnow | ⟨i, rfl, hi⟩
    · obtain ⟨id, hid, hlast⟩ := h.proxy p hnow
      rcases callback_portSteps he (by simp [hnow]) p with
        (hs | ⟨st, c, hs⟩ | ⟨r, hs⟩) | ⟨hs, ⟨rfl, hrun⟩ | rfl⟩
      · rw [ports_next errorCb hs, hs]
        exact ⟨id, hid, by simpa using hlast⟩
      · have hport := ports_next errorCb hs
        rw [hport, hs]
        refine ⟨id, ?_, ?_⟩
        · cases hr : linkRefusal (cfgs p) st (s.ports p).link c <;>
            simp [portMachine, LinkPort.next, hr, hid]
        · cases hr : linkRefusal (cfgs p) st (s.ports p).link c <;>
            simpa [portMachine, LinkPort.out, hr, lastDispatched, reportedProxy] using hlast
      · rw [ports_next errorCb hs, hs]
        exact ⟨id, hid, by simpa [portMachine, LinkPort.out, lastDispatched, reportedProxy]
          using hlast⟩
      · exact absurd hnow (hdefers hrun p)
      · exact absurd hnow hdefers
    · have hs : s.portSteps cfgs p (.info p i) = [.info s.state i] := if_pos rfl
      have hsome : (s.ports p).link.linkProxy.isSome = true := port_enabled he hs
      obtain ⟨id, hid⟩ := Option.isSome_iff_exists.mp hsome
      have hc : i.stateChanged = true := by
        by_contra hc
        simp [linkOnInfo, Bool.eq_false_of_not_eq_true hc] at hi
      rw [ports_next errorCb hs, hs]
      refine ⟨id, linkOnInfo_proxy.trans hid, ?_⟩
      simpa [portMachine] using lastDispatched_info hid hc
  · intro p
    rcases portSteps_cases cfgs errorCb s b p with hs | ⟨a, hs, -⟩ | ⟨hs, -⟩
    · rw [ports_next errorCb hs]
      exact h.inputOnly p
    · rw [ports_next errorCb hs]
      exact inputOnly_next (port_enabled he hs) (h.inputOnly p)
    · rw [ports_next errorCb hs]
      exact inputOnly_next (port_enabled he hs) (h.inputOnly p)

theorem dispatching_run {xs : List (LinkAction n)}
    (h : ((linkMachine cfgs errorCb).restrict LinkState.Defers).Valid (.init n) xs) :
    ((linkMachine cfgs errorCb).exec (.init n) xs).Dispatching cfgs
      ((linkMachine cfgs errorCb).outs (.init n) xs) :=
  Machine.history_restrict (P := fun ws s => s.Dispatching cfgs ws) dispatching_init
    (fun _ _ _ he hd h => dispatching_next he hd h) h

/-! ### What the callback may call -/

/-- The proxy under dispatch is destroyed exactly by the calls that do not defer it. -/
theorem destroysDispatched_iff (he : s.Enabled cfgs errorCb b) (h : s.Dispatching cfgs ws) :
    s.DestroysDispatched cfgs errorCb ws b ↔ ¬ s.Defers b := by
  constructor
  · rintro ⟨p, id, hd, -, hmem⟩ hdefers
    obtain ⟨a, hs, ha⟩ := mem_out hmem
    rcases callback_portSteps he (by simp [hd]) p with
      (hs' | ⟨st, c, hs'⟩ | ⟨r, hs'⟩) | ⟨-, ⟨rfl, hrun⟩ | rfl⟩
    · simp [hs'] at hs
    · obtain rfl : LinkStep.enter st c = a := by simpa [hs'] using hs
      simp [LinkPort.out] at ha
    · obtain rfl : LinkStep.lookupFailed r = a := by simpa [hs'] using hs
      simp [LinkPort.out] at ha
    · exact hdefers hrun p hd
    · exact hdefers hd
  · intro hdefers
    -- the call releases the port under dispatch
    have hrelease : ∃ p, s.dispatch = some (.info p) ∧ s.portSteps cfgs p b = [.release] := by
      cases b with
      | callbackStop =>
        simp only [LinkState.Defers, not_forall, not_not] at hdefers
        obtain ⟨hrun, p, hp⟩ := hdefers
        exact ⟨p, hp, if_pos hrun⟩
      | callbackUnlink p =>
        have hp : s.dispatch = some (.info p) := not_not.mp hdefers
        obtain ⟨id, hid, -⟩ := h.proxy p hp
        have hin : (cfgs p).direction = .input := h.inputOnly p (Or.inr (by simp [hid]))
        exact ⟨p, hp, if_pos ⟨rfl, hin, by simp [hid]⟩⟩
      | _ => exact absurd trivial hdefers
    obtain ⟨p, hp, hs⟩ := hrelease
    obtain ⟨id, hid, hlast⟩ := h.proxy p hp
    refine ⟨p, id, hp, hlast, ?_⟩
    rw [← mem_portTrace, portTrace_out, hs]
    simp [portMachine, LinkPort.out, releaseOuts, hid]

/-- No proxy is destroyed during its own dispatch exactly if every error callback leaves the
lost link and the running filter alone. -/
theorem proxy_outlives_dispatch_iff {xs : List (LinkAction n)}
    (h : (linkMachine cfgs errorCb).Valid (.init n) xs) :
    (∀ ys b zs, xs = ys ++ b :: zs →
        ¬ ((linkMachine cfgs errorCb).exec (.init n) ys).DestroysDispatched cfgs errorCb
          ((linkMachine cfgs errorCb).outs (.init n) ys) b) ↔
      ((linkMachine cfgs errorCb).restrict LinkState.Defers).Valid (.init n) xs :=
  Machine.never_iff_restrict (W := fun ys b =>
    ((linkMachine cfgs errorCb).exec (.init n) ys).DestroysDispatched cfgs errorCb
      ((linkMachine cfgs errorCb).outs (.init n) ys) b)
    (fun _ _ hys ha => destroysDispatched_iff ha (dispatching_run hys)) h

/-- A link that was up is reported gone, and the callback is called. -/
def linkGone : List (LinkAction 1) :=
  [.startEnter true, .startFinish, .linkEnter onePort false, .linkCreate onePort true,
    .paramChanged onePort .format true, .info onePort ⟨true, .active⟩,
    .linkResume onePort false, .info onePort ⟨true, .unlinked⟩]

/-- The callback returns before the application stops the filter. -/
theorem proxy_outlives_dispatch_iff_returned :
    let M := linkMachine (fun _ : Fin 1 => heldInput) true
    let xs := linkGone ++ [.callbackReturn, .stopEnter, .stopPause, .stopRelease]
    (∀ ys b zs, xs = ys ++ b :: zs →
        ¬ (M.exec (.init 1) ys).DestroysDispatched (fun _ => heldInput) true
          (M.outs (.init 1) ys) b) ↔
      (M.restrict LinkState.Defers).Valid (.init 1) xs :=
  proxy_outlives_dispatch_iff (by decide)

/-- A callback that stops the filter, or unlinks the port it is called for, destroys the
proxy under dispatch. -/
theorem dispatched_proxy_destroyed :
    let M := linkMachine (fun _ : Fin 1 => heldInput) true
    let s := M.exec (.init 1) linkGone
    let ws := M.outs (.init 1) linkGone
    (M.Valid (.init 1) (linkGone ++ [.callbackStop, .callbackReturn]) ∧
      s.DestroysDispatched (fun _ => heldInput) true ws .callbackStop) ∧
    (M.Valid (.init 1) (linkGone ++ [.callbackUnlink 0, .callbackReturn]) ∧
      s.DestroysDispatched (fun _ => heldInput) true ws (.callbackUnlink 0)) := by
  refine ⟨⟨by decide, 0, 0, by decide, by decide, by decide⟩,
    ⟨by decide, 0, 0, by decide, by decide, by decide⟩⟩

end TinyPipewire.Filter
