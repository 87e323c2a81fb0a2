import TinyPipewire.Filter.Control

/-!
# Reporting a lost source

Both a port's link and its format tell that its source is gone, in either order. One
flag, `loss_reported`, decides who calls the error callback: a claim or a release sets
it, and only a new format clears it.
-/

namespace TinyPipewire.Filter

open LinkPort (says_of_mem)

variable {cfg : PortConfig} {errorCb : Bool} {q : LinkPort} {a : LinkStep}

/-! ### Claims -/

theorem claimSourceLoss_true {st : FilterState} {l : PortLink}
    (h : (claimSourceLoss st l).2 = true) :
    st = .running ∧ l.lossReported = false ∧ (claimSourceLoss st l).1.lossReported = true := by
  rcases claimSourceLoss_cases st l with ⟨-, hc⟩ | ⟨hs, hl, hc⟩
  · simp [hc] at h
  · exact ⟨hs, hl, by rw [hc]⟩

theorem linkOnInfo_true {st : FilterState} {l : PortLink} {i : PwLinkInfo}
    (h : (linkOnInfo st l i).2 = true) :
    st = .running ∧ l.lossReported = false ∧ (linkOnInfo st l i).1.lossReported = true := by
  rcases linkOnInfo_cases st l i with ⟨-, hi⟩ | ⟨-, -, hi⟩ | ⟨-, -, -, hi⟩ | ⟨-, -, -, -, hi⟩
  · simp [hi] at h
  · simp [hi] at h
  · simp [hi] at h
  · rw [hi] at h ⊢
    exact claimSourceLoss_true h

theorem onParamChanged_true {st : FilterState} {l : PortLink} {id : ParamId} {param : Bool}
    (h : (onParamChanged cfg st l id param).2 = true) :
    (st = .running ∧ l.lossReported = false ∧
      (onParamChanged cfg st l id param).1.lossReported = true) ∧ cfg.direction = .input := by
  rcases onParamChanged_cases cfg st l id param with ⟨-, hp⟩ | ⟨-, -, hp⟩ | ⟨-, -, hd, hp⟩
  · simp [hp] at h
  · simp [hp] at h
  · rw [hp] at h ⊢
    exact ⟨claimSourceLoss_true h, hd⟩

/-- Where the error callback is called from. -/
theorem errorCallback_mem (h : .errorCallback ∈ LinkPort.out cfg errorCb q a) :
    (∃ st i, a = .info st i ∧ (linkOnInfo st q.link i).2 = true) ∨
      ∃ st id param, a = .param st id param ∧
        (onParamChanged cfg st q.link id param).2 = true :=
  (says_of_mem h).2

/-- It is called for a loss nobody has reported, and mutes the port. -/
theorem errorCallback_next (h : .errorCallback ∈ LinkPort.out cfg errorCb q a) :
    q.link.lossReported = false ∧ (LinkPort.next cfg q a).link.lossReported = true := by
  rcases errorCallback_mem h with ⟨st, i, rfl, hi⟩ | ⟨st, id, param, rfl, hp⟩
  · exact (linkOnInfo_true hi).2
  · exact (onParamChanged_true hp).1.2

/-- Only a call that fails and the application drop a link. -/
theorem released_mem {id : ℕ} (h : .released id ∈ LinkPort.out cfg errorCb q a) :
    q.link.linkProxy = some id ∧
      ((∃ t, a = .resume t ∧ linkResult q.link t ≠ .ok) ∨ a = .release) :=
  says_of_mem h

/-- Dropping a link mutes the port. -/
theorem released_next {id : ℕ} (h : .released id ∈ LinkPort.out cfg errorCb q a) :
    (LinkPort.next cfg q a).link.lossReported = true := by
  obtain ⟨hid, ⟨t, rfl, hr⟩ | rfl⟩ := released_mem h
  · simp [LinkPort.next, hr, portLinkRelease, hid]
  · simp [LinkPort.next, portLinkRelease, hid]

theorem claimSourceLoss_muted {st : FilterState} {l : PortLink} (h : l.lossReported = true) :
    (claimSourceLoss st l).1.lossReported = true := by
  rcases claimSourceLoss_cases st l with ⟨-, hc⟩ | ⟨-, -, hc⟩ <;> rw [hc]
  exact h

/-- Only a new format unmutes a port. -/
theorem muted_next (h : q.link.lossReported = true)
    (hf : .formatted ∉ LinkPort.out cfg errorCb q a) :
    (LinkPort.next cfg q a).link.lossReported = true := by
  cases a with
  | enter st c => cases hr : linkRefusal cfg st q.link c <;> simp [LinkPort.next, hr, h]
  | lookupFailed r => exact h
  | create id => cases id <;> exact h
  | resume t => by_cases hr : linkResult q.link t = .ok <;>
      simp [LinkPort.next, hr, h, portLinkRelease]
  | info st i =>
    rcases linkOnInfo_cases st q.link i with
      ⟨-, hi⟩ | ⟨-, -, hi⟩ | ⟨-, -, -, hi⟩ | ⟨-, -, -, -, hi⟩ <;>
        rw [LinkPort.next, hi]
    · exact h
    · exact h
    · exact h
    · exact claimSourceLoss_muted h
  | param st id param =>
    rcases onParamChanged_cases cfg st q.link id param with
      ⟨-, hp⟩ | ⟨rfl, rfl, hp⟩ | ⟨-, -, -, hp⟩
    · rw [LinkPort.next, hp]
      exact h
    · simp [LinkPort.out] at hf
    · rw [LinkPort.next, hp]
      exact claimSourceLoss_muted h
  | release => simp [LinkPort.next, portLinkRelease, h]

/-! ### A muted port -/

variable {zs : List LinkStep} {vs rest : List PortOut}

/-- While no new format comes, a muted port stays muted. -/
theorem muted_run (h : q.link.lossReported = true)
    (hf : .formatted ∉ (portMachine cfg errorCb).outs q zs) :
    ((portMachine cfg errorCb).exec q zs).link.lossReported = true := by
  induction zs generalizing q with
  | nil => exact h
  | cons a zs ih =>
    rw [Machine.outs_cons, List.mem_append, not_or] at hf
    exact ih (muted_next h hf.1) hf.2

/-- A muted port calls the error callback only after a new format. -/
theorem muted_split (h : q.link.lossReported = true)
    (ho : (portMachine cfg errorCb).outs q zs = vs ++ .errorCallback :: rest) :
    .formatted ∈ vs := by
  obtain ⟨ys, a, ws, pre, post, rfl, rfl, ha⟩ := Machine.outs_split ho
  by_contra hn
  rw [List.mem_append, not_or] at hn
  have hmem : .errorCallback ∈ (portMachine cfg errorCb).out
      ((portMachine cfg errorCb).exec q ys) a := by
    rw [ha]
    simp
  have hfalse := (errorCallback_next hmem).1
  simp [muted_run h hn.1] at hfalse

/-- One step reports at most one loss. -/
theorem errorCallback_count (cfg : PortConfig) (errorCb : Bool) (q : LinkPort) (a : LinkStep) :
    (LinkPort.out cfg errorCb q a).count .errorCallback ≤ 1 := by
  by_cases hmem : .errorCallback ∈ LinkPort.out cfg errorCb q a
  · have hcb : ∀ reports, (callbackOuts errorCb reports).count .errorCallback ≤ 1 := by
      intro reports
      unfold callbackOuts
      split <;> simp
    rcases errorCallback_mem hmem with ⟨st, i, rfl, -⟩ | ⟨st, id, param, rfl, -⟩
    · have hpre : (if i.stateChanged = true then
          q.link.linkProxy.toList.map (PortOut.reported · i.state) else []).count
            .errorCallback = 0 := by
        rw [List.count_eq_zero]
        split <;> simp
      simpa [LinkPort.out, hpre] using hcb _
    · have hpre : (if id = .format then
          [if param = true then PortOut.formatted else .formatCleared] else []).count
            .errorCallback = 0 := by
        rw [List.count_eq_zero]
        split
        · split <;> simp
        · simp
      simpa [LinkPort.out, hpre] using hcb _
  · simp [List.count_eq_zero_of_not_mem hmem]

/-- What mutes a port in a step is the last the step says of losses. -/
theorem mutes_last {w : PortOut} {pre post : List PortOut}
    (h : LinkPort.out cfg errorCb q a = pre ++ w :: post)
    (hw : w = .errorCallback ∨ ∃ id, w = .released id) : .errorCallback ∉ post := by
  intro hpost
  rcases hw with rfl | ⟨id, rfl⟩
  · have hone : 0 < post.count .errorCallback := List.count_pos_iff.mpr hpost
    have hcount := errorCallback_count cfg errorCb q a
    rw [h] at hcount
    simp at hcount
    omega
  · have hrel : .released id ∈ LinkPort.out cfg errorCb q a := by simp [h]
    have hmem : .errorCallback ∈ LinkPort.out cfg errorCb q a := by simp [h, hpost]
    rcases (released_mem hrel).2 with ⟨t, rfl, -⟩ | rfl <;>
      rcases errorCallback_mem hmem with ⟨st, i, he, -⟩ | ⟨st, id, param, he, -⟩ <;> simp at he

/-- After the error callback, and after the link was dropped, the port is silent until a
new format comes. -/
theorem silent_until_formatted {w : PortOut} {us : List PortOut}
    (hw : w = .errorCallback ∨ ∃ id, w = .released id)
    (ho : (portMachine cfg errorCb).outs q zs = us ++ w :: (vs ++ .errorCallback :: rest)) :
    .formatted ∈ vs := by
  obtain ⟨ys, a, zs', pre, post, rfl, rfl, ha⟩ := Machine.outs_split ho
  have hlast := mutes_last ha hw
  have hmuted : ((portMachine cfg errorCb).next ((portMachine cfg errorCb).exec q ys)
      a).link.lossReported = true := by
    rcases hw with rfl | ⟨id, rfl⟩
    · have hmem : .errorCallback ∈ (portMachine cfg errorCb).out
          ((portMachine cfg errorCb).exec q ys) a := by simp [ha]
      exact (errorCallback_next hmem).2
    · have hmem : .released id ∈ (portMachine cfg errorCb).out
          ((portMachine cfg errorCb).exec q ys) a := by simp [ha]
      exact released_next hmem
  have hrest : post ++ (portMachine cfg errorCb).outs ((portMachine cfg errorCb).next
      ((portMachine cfg errorCb).exec q ys) a) zs' = vs ++ .errorCallback :: rest := by
    rw [Machine.outs_append, Machine.outs_cons, ha] at ho
    simpa using ho
  -- the second callback is past the step, as nothing after `w` in the step is one
  rcases List.append_eq_append_iff.mp hrest with ⟨ts, hvs, hts⟩ | ⟨ts, hpost, hts⟩
  · rw [hvs]
    exact List.mem_append_right _ (muted_split hmuted hts)
  · cases ts with
    | nil =>
      have hformed : .formatted ∈ ([] : List PortOut) :=
        muted_split hmuted (by simpa using hts.symm)
      simp at hformed
    | cons v ts =>
      obtain ⟨rfl, -⟩ := List.cons.inj hts
      exact absurd (by simp [hpost]) hlast

/-! ### Only input ports -/

/-- Only an input port has a link, or a call for one. -/
def LinkPort.InputOnly (cfg : PortConfig) (q : LinkPort) : Prop :=
  q.call ≠ .idle ∨ q.link.linkProxy ≠ none → cfg.direction = .input

theorem inputOnly_next (h : q.Enabled a) (hi : q.InputOnly cfg) :
    (LinkPort.next cfg q a).InputOnly cfg := by
  intro hn
  cases a with
  | enter st c =>
    by_cases hd : cfg.direction = .input
    · exact hd
    · have hr : linkRefusal cfg st q.link c = some .invalidArg := by simp [linkRefusal, hd]
      simp only [LinkPort.next, hr] at hn
      exact hi hn
  | lookupFailed r =>
    have hc : q.call = .lookup := h.1
    exact hi (Or.inl (by simp [hc]))
  | create id =>
    have hc : q.call = .lookup := h
    exact hi (Or.inl (by simp [hc]))
  | resume t =>
    have hc : q.call = .waiting := h.1
    exact hi (Or.inl (by simp [hc]))
  | info st i =>
    have hp : q.link.linkProxy.isSome = true := h
    refine hi (Or.inr ?_)
    intro hnone
    simp [hnone] at hp
  | param st id param =>
    rcases onParamChanged_cases cfg st q.link id param with
      ⟨-, hp⟩ | ⟨-, -, hp⟩ | ⟨-, -, hd, -⟩
    · simp only [LinkPort.next, hp] at hn
      exact hi hn
    · simp only [LinkPort.next, hp] at hn
      exact hi hn
    · exact hd
  | release =>
    refine hi (Or.inl ?_)
    simpa [LinkPort.next, portLinkRelease] using hn

theorem errorCallback_input (h : q.Enabled a) (hi : q.InputOnly cfg)
    (hmem : .errorCallback ∈ LinkPort.out cfg errorCb q a) : cfg.direction = .input := by
  rcases errorCallback_mem hmem with ⟨st, i, rfl, -⟩ | ⟨st, id, param, rfl, hp⟩
  · have hs : q.link.linkProxy.isSome = true := h
    refine hi (Or.inr ?_)
    intro hnone
    simp [hnone] at hs
  · exact (onParamChanged_true hp).2

theorem errorCallback_run {xs : List LinkStep}
    (h : (portMachine cfg errorCb).Valid .zeroed xs)
    (hmem : .errorCallback ∈ (portMachine cfg errorCb).outs .zeroed xs) :
    cfg.direction = .input := by
  have hrun : LinkPort.InputOnly cfg ((portMachine cfg errorCb).exec .zeroed xs) ∧
      (.errorCallback ∈ (portMachine cfg errorCb).outs .zeroed xs → cfg.direction = .input) := by
    refine Machine.history (P := fun ws q => q.InputOnly cfg ∧
      (.errorCallback ∈ ws → cfg.direction = .input)) ?_ ?_ h
    · simp [LinkPort.InputOnly, LinkPort.zeroed, PortLink.zeroed]
    · rintro ws q a he ⟨hi, hws⟩
      refine ⟨inputOnly_next he hi, fun hmem => ?_⟩
      rcases List.mem_append.mp hmem with hmem | hmem
      · exact hws hmem
      · exact errorCallback_input he hi hmem
  exact hrun.2 hmem

/-! ### The filter -/

variable {n : ℕ} {cfgs : Fin n → PortConfig}

theorem mem_portTrace {p : Fin n} {w : PortOut} {ws : List (Fin n × PortOut)} :
    w ∈ portTrace p ws ↔ (p, w) ∈ ws := by
  simp [portTrace, eq_comm]

/-- What the loop thread delivers to a port, it delivers with the filter's state. -/
theorem portSteps_state {s : LinkState n} {b : LinkAction n} {p : Fin n} {st : FilterState} :
    (∀ i, .info st i ∈ s.portSteps cfgs p b → st = s.state) ∧
      ∀ id param, .param st id param ∈ s.portSteps cfgs p b → st = s.state := by
  cases b <;> simp only [LinkState.portSteps]
  case info r i | paramChanged r id param =>
    split <;> simp +contextual
  all_goals first | (split <;> simp) | simp

/-- The error callback is called for a filter that runs. -/
theorem errorCallback_running {s : LinkState n} {b : LinkAction n} {p : Fin n}
    (h : (p, .errorCallback) ∈ LinkState.out cfgs errorCb s b) : s.state = .running := by
  rw [← mem_portTrace, portTrace_out] at h
  obtain ⟨us, vs, ho⟩ := List.append_of_mem h
  obtain ⟨ys, a, zs, pre, post, hsteps, -, ha⟩ := Machine.outs_split ho
  have hmem : .errorCallback ∈ LinkPort.out (cfgs p) errorCb
      ((portMachine (cfgs p) errorCb).exec (s.ports p) ys) a := by
    rw [show LinkPort.out (cfgs p) errorCb _ a = _ from ha]
    simp
  have hin : a ∈ s.portSteps cfgs p b := by simp [hsteps]
  rcases errorCallback_mem hmem with ⟨st, i, rfl, ht⟩ | ⟨st, id, param, rfl, ht⟩
  · rw [← portSteps_state.1 i hin]
    exact (linkOnInfo_true ht).1
  · rw [← portSteps_state.2 id param hin]
    exact (onParamChanged_true ht).1.1

theorem source_loss_reported_once {xs : List (LinkAction n)}
    (h : (linkMachine cfgs errorCb).Valid (.init n) xs) :
    let M := linkMachine cfgs errorCb
    let ws := M.outs (.init n) xs
    (∀ p us vs rest,
        portTrace p ws = us ++ .errorCallback :: (vs ++ .errorCallback :: rest) →
          .formatted ∈ vs) ∧
      (∀ p id us vs rest,
        portTrace p ws = us ++ .released id :: (vs ++ .errorCallback :: rest) →
          .formatted ∈ vs) ∧
      (∀ p ys b zs, xs = ys ++ b :: zs →
        (p, .errorCallback) ∈ M.out (M.exec (.init n) ys) b →
          (M.exec (.init n) ys).state = .running) ∧
      ∀ p, (p, .errorCallback) ∈ ws → (cfgs p).direction = .input := by
  intro M ws
  have hport : ∀ p, ∃ zs, (portMachine (cfgs p) errorCb).Valid .zeroed zs ∧
      portTrace p ws = (portMachine (cfgs p) errorCb).outs .zeroed zs := by
    intro p
    obtain ⟨zs, hv, -, ho⟩ := (port_follows cfgs errorCb p).run h
    exact ⟨zs, hv, ho⟩
  refine ⟨?_, ?_, ?_, ?_⟩
  · intro p us vs rest ho
    obtain ⟨zs, -, hz⟩ := hport p
    exact silent_until_formatted (Or.inl rfl) (hz.symm.trans ho)
  · intro p id us vs rest ho
    obtain ⟨zs, -, hz⟩ := hport p
    exact silent_until_formatted (Or.inr ⟨id, rfl⟩) (hz.symm.trans ho)
  · intro p ys b zs _ hmem
    exact errorCallback_running hmem
  · intro p hmem
    obtain ⟨zs, hv, hz⟩ := hport p
    exact errorCallback_run hv (hz ▸ mem_portTrace.mpr hmem)

/-- A port that links with a format, loses its source, and later its next format. -/
def twoLosses : List (LinkAction 1) :=
  [.startEnter true, .startFinish, .linkEnter onePort false, .linkCreate onePort true,
    .paramChanged onePort .format true, .info onePort ⟨true, .paused⟩, .linkResume onePort false,
    .info onePort ⟨true, .error⟩, .callbackReturn, .paramChanged onePort .format false,
    .paramChanged onePort .format true, .paramChanged onePort .format false]

theorem source_loss_reported_once_two :
    let M := linkMachine (fun _ : Fin 1 => heldInput) true
    let ws := M.outs (.init 1) twoLosses
    (∀ p us vs rest,
        portTrace p ws = us ++ .errorCallback :: (vs ++ .errorCallback :: rest) →
          .formatted ∈ vs) ∧
      (∀ p id us vs rest,
        portTrace p ws = us ++ .released id :: (vs ++ .errorCallback :: rest) →
          .formatted ∈ vs) ∧
      (∀ p ys b zs, twoLosses = ys ++ b :: zs →
        (p, .errorCallback) ∈ M.out (M.exec (.init 1) ys) b →
          (M.exec (.init 1) ys).state = .running) ∧
      ∀ p, (p, .errorCallback) ∈ ws → heldInput.direction = .input :=
  source_loss_reported_once (by decide)

/-- Each of the two losses is reported, the cleared format after the first is not. -/
example :
    portTrace 0 ((linkMachine (fun _ => heldInput) true).outs (.init 1) twoLosses) =
      [.requested 0, .formatted, .reported 0 .paused, .returned .ok, .reported 0 .error,
        .errorCallback, .formatCleared, .formatted, .formatCleared, .errorCallback] := by
  decide

end TinyPipewire.Filter
