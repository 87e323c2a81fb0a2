import TinyPipewire.Filter.LinkHistory
import TinyPipewire.Filter.SourceLoss

/-!
# A lost source is reported

Whatever the port went through before, once its link negotiated its loss reaches the error
callback. The flag that mutes a port was cleared by the format the link came with, so
since that format the callbacks and the flag agree.
-/

namespace TinyPipewire.Filter

open History
open LinkPort (mem_callbackOuts says_of_mem)

variable {cfg : PortConfig} {q : LinkPort} {a : LinkStep} {ws vs : List PortOut}

/-! ### Callbacks since the last format -/

/-- A port whose step says nothing of losses is muted after it if it was before. -/
theorem muted_same (hf : .formatted ∉ LinkPort.out cfg true q a)
    (hr : ∀ id, .released id ∉ LinkPort.out cfg true q a)
    (hc : .errorCallback ∉ LinkPort.out cfg true q a) :
    (LinkPort.next cfg q a).link.lossReported = q.link.lossReported := by
  have hclaim : ∀ {st : FilterState} {l : PortLink}, (claimSourceLoss st l).2 = false →
      (claimSourceLoss st l).1.lossReported = l.lossReported := by
    intro st l h
    rcases claimSourceLoss_cases st l with ⟨-, hs⟩ | ⟨-, -, hs⟩
    · rw [hs]
    · simp [hs] at h
  cases a with
  | enter st c => cases hl : linkRefusal cfg st q.link c <;> simp [LinkPort.next, hl]
  | lookupFailed r => rfl
  | create o => cases o <;> rfl
  | resume t =>
    by_cases hl : linkResult q.link t = .ok
    · simp [LinkPort.next, hl]
    · cases hp : q.link.linkProxy with
      | none => simp [LinkPort.next, hl, portLinkRelease, hp]
      | some id => exact absurd (by simp [LinkPort.out, hl, releaseOuts, hp]) (hr id)
  | info st i =>
    have hquiet : (linkOnInfo st q.link i).2 = false := by
      simpa [LinkPort.out, mem_callbackOuts] using fun h => hc (List.mem_append_right _ h)
    rcases linkOnInfo_cases st q.link i with
      ⟨-, hi⟩ | ⟨-, -, hi⟩ | ⟨-, -, -, hi⟩ | ⟨-, -, -, -, hi⟩ <;> rw [LinkPort.next, hi]
    rw [hi] at hquiet
    exact hclaim hquiet
  | param st id param =>
    have hquiet : (onParamChanged cfg st q.link id param).2 = false := by
      simpa [LinkPort.out, mem_callbackOuts] using fun h => hc (List.mem_append_right _ h)
    rcases onParamChanged_cases cfg st q.link id param with
      ⟨-, hp⟩ | ⟨rfl, rfl, hp⟩ | ⟨-, -, -, hp⟩
    · rw [LinkPort.next, hp]
    · simp [LinkPort.out] at hf
    · rw [hp] at hquiet
      rw [LinkPort.next, hp]
      exact hclaim hquiet
  | release =>
    cases hp : q.link.linkProxy with
    | none => simp [LinkPort.next, portLinkRelease, hp]
    | some id => exact absurd (by simp [LinkPort.out, releaseOuts, hp]) (hr id)

/-- A port is muted since its last format exactly if that format's loss was reported. -/
def LinkPort.Counted (ws : List PortOut) (q : LinkPort) : Prop :=
  (∀ id, .released id ∉ since isFormatted ws) →
    (since isFormatted ws).count .errorCallback = if q.link.lossReported = true then 1 else 0

/-- What a step that brings no format says comes after what came since the last one. -/
theorem since_formatted_append (h : .formatted ∉ vs) :
    since isFormatted (ws ++ vs) = since isFormatted ws ++ vs := by
  refine since_append fun w hw => ?_
  cases w with
  | formatted => exact absurd hw h
  | _ => rfl

theorem formatted_mem (h : .formatted ∈ LinkPort.out cfg true q a) :
    ∃ st, a = .param st .format true :=
  says_of_mem h

theorem out_formatted {st : FilterState} :
    LinkPort.out cfg true q (.param st .format true) = [.formatted] := rfl

theorem counted_next (cfg : PortConfig) (a : LinkStep) (h : q.Counted ws) :
    (LinkPort.next cfg q a).Counted (ws ++ LinkPort.out cfg true q a) := by
  intro hr
  by_cases hf : .formatted ∈ LinkPort.out cfg true q a
  · obtain ⟨st, rfl⟩ := formatted_mem hf
    rw [out_formatted, since_snoc]
    rfl
  · rw [since_formatted_append hf] at hr ⊢
    have hws : (since isFormatted ws).count .errorCallback =
        if q.link.lossReported = true then 1 else 0 :=
      h fun id hid => hr id (List.mem_append_left _ hid)
    rw [List.count_append, hws]
    by_cases hc : .errorCallback ∈ LinkPort.out cfg true q a
    · obtain ⟨hunmuted, hmuted⟩ := errorCallback_next hc
      have hpos := List.count_pos_iff.mpr hc
      have hone := errorCallback_count cfg true q a
      rw [hunmuted, hmuted, if_neg (by decide), if_pos rfl]
      omega
    · rw [List.count_eq_zero_of_not_mem hc,
        muted_same hf (fun id hid => hr id (List.mem_append_right _ hid)) hc]
      rfl

/-! ### A link that negotiated -/

/-- PipeWire gives a port its format before it reports the port's link up. -/
def LinkPort.FormatFirst (q : LinkPort) : LinkStep → Prop
  | .info _ i => i.stateChanged = true → i.state.isUp = true → q.formatted = true
  | _ => True

/-- A call returns `PWF_OK` only for a link of an input port that got its format. -/
structure LinkPort.Linked (cfg : PortConfig) (ws : List PortOut) (q : LinkPort) : Prop where
  told : q.Told ws
  inputOnly : q.InputOnly cfg
  formatted : q.formatted = true ↔ .formatted ∈ since isRequested ws
  up : (∃ st, lastReport ws = some st ∧ st.isUp = true) → q.formatted = true
  returned : .returned .ok ∈ since isRequested ws →
    q.call ≠ .waiting ∧ q.formatted = true ∧ cfg.direction = .input
  counted : q.Counted ws

theorem linked_zeroed : LinkPort.zeroed.Linked cfg [] where
  told := told_zeroed
  inputOnly := by simp [LinkPort.InputOnly, LinkPort.zeroed, PortLink.zeroed]
  formatted := by simp [LinkPort.zeroed]
  up := by simp [lastReport]
  returned := by simp
  counted := fun _ => rfl

theorem since_requested_append (ha : ∀ id, a ≠ .create (some id)) :
    since isRequested (ws ++ LinkPort.out cfg true q a) =
      since isRequested ws ++ LinkPort.out cfg true q a :=
  since_append fun _ hw => out_not_requested ha hw

/-- Only a call that stops waiting returns `PWF_OK`. -/
theorem returned_ok {errorCb : Bool} (he : q.Enabled a)
    (h : .returned .ok ∈ LinkPort.out cfg errorCb q a) :
    ∃ t, a = .resume t ∧ linkResult q.link t = .ok := by
  rcases says_of_mem h with rfl | ⟨-, hr⟩ | hresume
  · simp [LinkPort.Enabled] at he
  · cases hr
  · exact hresume

/-- What it found then was a report that the link is up. -/
theorem linkResult_up {t : Bool} (hw : q.call = .waiting) (ht : q.Told ws)
    (hr : linkResult q.link t = .ok) :
    q.link.linkWait = some ⟨true, .ok⟩ ∧ ∃ st, lastReport ws = some st ∧ st.isUp = true := by
  have hwait : q.link.linkWait = some (waitAfter (lastReport ws)) := by rw [ht.wait, if_pos hw]
  cases t with
  | true => simp [linkResult] at hr
  | false =>
    cases hl : lastReport ws with
    | none => simp [linkResult, hwait, hl, waitAfter] at hr
    | some st =>
      have hup : st.isUp = true := by
        by_contra hdown
        simp [linkResult, hwait, hl, waitAfter, hdown] at hr
      exact ⟨by rw [hwait, hl]; simp [waitAfter, hup], st, rfl, hup⟩

/-- Once a port has its format it keeps it till its link is requested anew. -/
theorem formatted_next (ha : ∀ id, a ≠ .create (some id)) :
    (LinkPort.next cfg q a).formatted = true ↔
      q.formatted = true ∨ .formatted ∈ LinkPort.out cfg true q a := by
  cases a with
  | param st id param => cases id <;> cases param <;>
      simp [LinkPort.next, LinkPort.out, mem_callbackOuts]
  | create o =>
    cases o with
    | none => simp [LinkPort.next, LinkPort.out]
    | some id => exact absurd rfl (ha id)
  | enter st c => cases hr : linkRefusal cfg st q.link c <;>
      simp [LinkPort.next, LinkPort.out, hr]
  | lookupFailed r => simp [LinkPort.next, LinkPort.out]
  | resume t => by_cases hl : linkResult q.link t = .ok <;>
      simp [LinkPort.next, LinkPort.out, releaseOuts, hl]
  | info st i => by_cases hc : i.stateChanged = true <;>
      simp [LinkPort.next, LinkPort.out, mem_callbackOuts, hc]
  | release => simp [LinkPort.next, LinkPort.out, releaseOuts]

/-- The link is reported up only once the port has its format. -/
theorem up_next (he : q.Enabled a) (hf : q.FormatFirst a) (h : q.Linked cfg ws)
    (hup : ∃ st, lastReport (ws ++ LinkPort.out cfg true q a) = some st ∧ st.isUp = true) :
    (LinkPort.next cfg q a).formatted = true := by
  obtain ⟨st', hst, hst'⟩ := hup
  by_cases hcr : ∃ id, a = .create (some id)
  · obtain ⟨id, rfl⟩ := hcr
    simp [LinkPort.out] at hst
  · have ha : ∀ id, a ≠ .create (some id) := fun id hid => hcr ⟨id, hid⟩
    refine (formatted_next ha).mpr (Or.inl ?_)
    by_cases hinfo : ∃ st i, a = .info st i
    · obtain ⟨st, i, rfl⟩ := hinfo
      by_cases hc : i.stateChanged = true ∧ (i.state.isUp = true ∨ i.state.isDown = true)
      · rw [lastReport_info he hc.1 hc.2] at hst
        obtain rfl := Option.some.inj hst
        exact hf hc.1 hst'
      · rw [lastReport_idle fun h => by simpa [h] using hc] at hst
        exact h.up ⟨st', hst, hst'⟩
    · rw [lastReport_other ha fun st i hi => hinfo ⟨st, i, hi⟩] at hst
      exact h.up ⟨st', hst, hst'⟩

theorem linked_next (he : q.Enabled a) (hf : q.FormatFirst a) (h : q.Linked cfg ws) :
    (LinkPort.next cfg q a).Linked cfg (ws ++ LinkPort.out cfg true q a) := by
  refine ⟨told_next he h.told, inputOnly_next he h.inputOnly, ?_, up_next he hf h, ?_,
    counted_next cfg a h.counted⟩
  · by_cases hcr : ∃ id, a = .create (some id)
    · obtain ⟨id, rfl⟩ := hcr
      simp [LinkPort.next, LinkPort.out, since_snoc, isRequested]
    · have ha : ∀ id, a ≠ .create (some id) := fun id hid => hcr ⟨id, hid⟩
      rw [formatted_next ha, since_requested_append ha, List.mem_append, h.formatted]
  · intro hret
    by_cases hcr : ∃ id, a = .create (some id)
    · obtain ⟨id, rfl⟩ := hcr
      simp [LinkPort.out, since_snoc, isRequested] at hret
    · have ha : ∀ id, a ≠ .create (some id) := fun id hid => hcr ⟨id, hid⟩
      rw [since_requested_append ha] at hret
      rcases List.mem_append.mp hret with hret | hret
      · obtain ⟨hcall, hform, hdir⟩ := h.returned hret
        refine ⟨?_, (formatted_next ha).mpr (Or.inl hform), hdir⟩
        cases a with
        | create o =>
          cases o with
          | none => simp [LinkPort.next]
          | some id => exact absurd rfl (ha id)
        | enter st c => cases hr : linkRefusal cfg st q.link c <;>
            simp [LinkPort.next, hr, hcall]
        | lookupFailed r => simp [LinkPort.next]
        | resume t => simp [LinkPort.next]
        | info st i => exact hcall
        | param st id param => exact hcall
        | release => exact hcall
      · obtain ⟨t, rfl, hok⟩ := returned_ok he hret
        have hwait : q.call = .waiting := he.1
        have hup := (linkResult_up hwait h.told hok).2
        refine ⟨by simp [LinkPort.next], ?_, h.inputOnly (Or.inl (by simp [hwait]))⟩
        exact (formatted_next ha).mpr (Or.inl (h.up hup))

theorem linked_run {xs : List LinkStep}
    (h : ((portMachine cfg true).restrict LinkPort.FormatFirst).Valid .zeroed xs) :
    ((portMachine cfg true).exec .zeroed xs).Linked cfg
      ((portMachine cfg true).outs .zeroed xs) :=
  Machine.history_restrict (P := fun ws q => q.Linked cfg ws) linked_zeroed
    (fun _ _ _ he hf h => linked_next he hf h) h

/-! ### Its loss -/

/-- While the filter runs, the link of a port goes from up to failed or gone, or the port's
format is cleared. -/
def Loses (ws : List PortOut) : LinkStep → Prop
  | .info st i => st = .running ∧ i.stateChanged = true ∧ i.state.isDown = true ∧
      ∃ st', lastReport ws = some st' ∧ st'.isUp = true
  | .param st id param => st = .running ∧ id = .format ∧ param = false
  | _ => False

theorem claimSourceLoss_running {l : PortLink} :
    (claimSourceLoss .running l).1.lossReported = true := by
  rcases claimSourceLoss_cases .running l with ⟨hst | hl, hc⟩ | ⟨-, -, hc⟩
  · exact absurd rfl hst
  · rw [hc]
    exact hl
  · rw [hc]

/-- A loss is reported, or it was before. -/
theorem loses_next (he : q.Enabled a) (h : q.Linked cfg ws)
    (hret : .returned .ok ∈ since isRequested ws) (hl : Loses ws a) :
    (LinkPort.next cfg q a).link.lossReported = true := by
  obtain ⟨hcall, -, hdir⟩ := h.returned hret
  cases a with
  | info st i =>
    obtain ⟨rfl, hc, hd, hup⟩ := hl
    have hseen := h.told.seen he hup
    have hwait : q.link.linkWait = none := by rw [h.told.wait, if_neg hcall]
    rcases linkOnInfo_cases .running q.link i with
      ⟨hq, -⟩ | ⟨-, hu, -⟩ | ⟨-, -, hw, -⟩ | ⟨-, -, -, -, hi⟩
    · simp [((hq hc).2 hd).2] at hseen
    · simp [isDown_of_isUp hu] at hd
    · simp [hwait] at hw
    · rw [LinkPort.next, hi]
      exact claimSourceLoss_running
  | param st id param =>
    obtain ⟨rfl, rfl, rfl⟩ := hl
    rcases onParamChanged_cases cfg .running q.link .format false with
      ⟨ho | ⟨-, ho⟩, -⟩ | ⟨-, hp, -⟩ | ⟨-, -, -, hp⟩
    · simp at ho
    · simp [hdir] at ho
    · simp at hp
    · rw [LinkPort.next, hp]
      exact claimSourceLoss_running
  | _ => exact hl.elim

/-- A loss drops no link. -/
theorem loses_not_released (hl : Loses ws a) (id : ℕ) :
    .released id ∉ LinkPort.out cfg true q a := by
  intro hmem
  rcases (released_mem hmem).2 with ⟨t, rfl, -⟩ | rfl <;> exact hl

/-- While no new format comes, a muted port says nothing. -/
theorem muted_silent {zs : List LinkStep} (h : q.link.lossReported = true)
    (hf : .formatted ∉ (portMachine cfg true).outs q zs) :
    .errorCallback ∉ (portMachine cfg true).outs q zs := by
  intro hmem
  obtain ⟨us, rest, ho⟩ := List.append_of_mem hmem
  exact hf (by rw [ho]; exact List.mem_append_left _ (muted_split h ho))

/-- The loss of a link that negotiated is reported once, whatever follows it. -/
theorem loses_run {xs zs : List LinkStep}
    (h : ((portMachine cfg true).restrict LinkPort.FormatFirst).Valid .zeroed (xs ++ a :: zs))
    (hret : .returned .ok ∈ since isRequested ((portMachine cfg true).outs .zeroed xs))
    (hkept : ∀ id, .released id ∉ since isRequested ((portMachine cfg true).outs .zeroed xs))
    (hl : Loses ((portMachine cfg true).outs .zeroed xs) a)
    (hf : .formatted ∉
      (portMachine cfg true).outs ((portMachine cfg true).exec .zeroed xs) (a :: zs)) :
    (since isFormatted ((portMachine cfg true).outs .zeroed (xs ++ a :: zs))).count
      .errorCallback = 1 := by
  obtain ⟨hxs, ⟨he, hff⟩, -⟩ := Machine.valid_append.mp h
  have hlinked := linked_run hxs
  have hmuted : (LinkPort.next cfg ((portMachine cfg true).exec .zeroed xs)
      a).link.lossReported = true := loses_next he hlinked hret hl
  rw [Machine.outs_cons, List.mem_append, not_or] at hf
  have hout : .formatted ∉ LinkPort.out cfg true ((portMachine cfg true).exec .zeroed xs) a :=
    hf.1
  -- the link's format is the last one, and nothing was dropped since
  have hform : .formatted ∈ since isRequested ((portMachine cfg true).outs .zeroed xs) :=
    hlinked.formatted.mp (hlinked.returned hret).2.1
  have hstep : ∀ id, .released id ∉ since isFormatted ((portMachine cfg true).outs .zeroed xs ++
      LinkPort.out cfg true ((portMachine cfg true).exec .zeroed xs) a) := by
    intro id hmem
    rw [since_formatted_append hout] at hmem
    rcases List.mem_append.mp hmem with hmem | hmem
    · exact hkept id (since_subset hform rfl _ hmem)
    · exact loses_not_released hl id hmem
  have hone := counted_next cfg a hlinked.counted hstep
  have hsilent : ((portMachine cfg true).outs ((portMachine cfg true).next
      ((portMachine cfg true).exec .zeroed xs) a) zs).count .errorCallback = 0 :=
    List.count_eq_zero_of_not_mem (muted_silent hmuted hf.2)
  rw [if_pos hmuted] at hone
  rw [Machine.outs_append, Machine.outs_cons, ← List.append_assoc,
    since_formatted_append hf.2, List.count_append,
    hsilent]
  exact hone

/-! ### The filter -/

variable {n : ℕ} {cfgs : Fin n → PortConfig}

/-- PipeWire gives a port its new format after its link is requested, and before it reports
that link up. -/
def LinkState.FormatFirst (s : LinkState n) : LinkAction n → Prop
  | .info p i => i.stateChanged = true → i.state.isUp = true → (s.ports p).formatted = true
  | _ => True

instance (s : LinkState n) : DecidablePred s.FormatFirst
  | .info _ _ => inferInstanceAs (Decidable (_ → _))
  | .linkEnter _ _ | .linkLookupFailed _ _ | .linkCreate _ _ | .linkResume _ _
  | .paramChanged _ _ _ | .callbackStop | .callbackUnlink _ | .callbackStart | .callbackReturn
  | .unlinkEnter _ | .unlinkRelease _ | .stopEnter | .stopPause | .stopRelease | .startEnter _
  | .startFinish | .destroyEnter | .destroyFinish => inferInstanceAs (Decidable True)

theorem port_follows_formatFirst (p : Fin n) :
    Machine.Follows ((linkMachine cfgs true).restrict LinkState.FormatFirst)
      ((portMachine (cfgs p) true).restrict LinkPort.FormatFirst) (·.ports p)
      (fun s b => s.portSteps cfgs p b) (portTrace p) := by
  refine (port_follows cfgs true p).restrict ?_
  intro s b he hf
  refine Machine.valid_restrict_iff.mpr ⟨he.2.2.2 p, ?_⟩
  rintro ys a zs hsteps
  cases b with
  | info r i =>
    by_cases hr : r = p
    · subst hr
      have hone : [LinkStep.info s.state i] = ys ++ a :: zs := by
        simpa [LinkState.portSteps] using hsteps
      cases ys with
      | nil =>
        obtain ⟨rfl, -⟩ := List.cons.inj hone
        exact hf
      | cons y ys => simp at hone
    · simp [LinkState.portSteps, hr] at hsteps
  | _ =>
    have hmem : a ∈ ys ++ a :: zs := by simp
    rw [← hsteps] at hmem
    cases a with
    | info st i =>
      simp only [LinkState.portSteps] at hmem
      first
        | (split at hmem <;> simp at hmem)
        | simp at hmem
    | _ => trivial

/-- The application sees the link of port `p` up, or its format, go while the filter runs. -/
def LinkState.LosesSource (s : LinkState n) (p : Fin n) (ws : List (Fin n × PortOut)) :
    LinkAction n → Prop
  | .info r i => r = p ∧ s.state = .running ∧ i.stateChanged = true ∧ i.state.isDown = true ∧
      ∃ st, lastReport (portTrace p ws) = some st ∧ st.isUp = true
  | .paramChanged r id param =>
    r = p ∧ s.state = .running ∧ id = .format ∧ param = false
  | _ => False

theorem losesSource_step (cfgs : Fin n → PortConfig) {s : LinkState n} {p : Fin n}
    {ws : List (Fin n × PortOut)}
    {b : LinkAction n} (h : s.LosesSource p ws b) :
    ∃ a, s.portSteps cfgs p b = [a] ∧ Loses (portTrace p ws) a := by
  cases b with
  | info r i =>
    obtain ⟨rfl, hs, hl⟩ := h
    exact ⟨.info s.state i, by simp [LinkState.portSteps], hs, hl⟩
  | paramChanged r id param =>
    obtain ⟨rfl, hs, hl⟩ := h
    exact ⟨.param s.state id param, by simp [LinkState.portSteps], hs, hl⟩
  | _ => exact h.elim

theorem lost_source_reported {xs zs : List (LinkAction n)} {b : LinkAction n} {p : Fin n}
    (h : ((linkMachine cfgs true).restrict LinkState.FormatFirst).Valid (.init n)
      (xs ++ b :: zs))
    (hret : .returned .ok ∈
      since isRequested (portTrace p ((linkMachine cfgs true).outs (.init n) xs)))
    (hkept : ∀ id, .released id ∉
      since isRequested (portTrace p ((linkMachine cfgs true).outs (.init n) xs)))
    (hl : ((linkMachine cfgs true).exec (.init n) xs).LosesSource p
      ((linkMachine cfgs true).outs (.init n) xs) b)
    (hf : (p, .formatted) ∉
      (linkMachine cfgs true).outs ((linkMachine cfgs true).exec (.init n) xs) (b :: zs)) :
    (since isFormatted
      (portTrace p ((linkMachine cfgs true).outs (.init n) (xs ++ b :: zs)))).count
        .errorCallback = 1 := by
  obtain ⟨a, hsteps, ha⟩ := losesSource_step cfgs hl
  obtain ⟨ys, rest, hport, -, hpast, hafter⟩ :=
    (port_follows_formatFirst p).run_at h hsteps
  simp only [Machine.outs_restrict, Machine.exec_restrict] at hpast hafter
  have hall : portTrace p ((linkMachine cfgs true).outs (.init n) (xs ++ b :: zs)) =
      (portMachine (cfgs p) true).outs .zeroed (ys ++ a :: rest) := by
    rw [Machine.outs_append, Machine.outs_append, portTrace_append, hpast, hafter]
    rfl
  rw [hpast] at hret hkept ha
  rw [hall]
  refine loses_run hport hret hkept ha ?_
  rw [← mem_portTrace, hafter] at hf
  exact hf

/-- A link that times out, a stop, a restart, and a link that negotiates. -/
def relinked : List (LinkAction 1) :=
  [.startEnter true, .startFinish, .linkEnter onePort false, .linkCreate onePort true,
    .linkResume onePort true, .stopEnter, .stopPause, .stopRelease, .startEnter true,
    .startFinish, .linkEnter onePort false, .linkCreate onePort true,
    .paramChanged onePort .format true, .info onePort ⟨true, .paused⟩,
    .linkResume onePort false]

theorem lost_source_reported_relinked :
    (since isFormatted (portTrace 0 ((linkMachine (fun _ : Fin 1 => heldInput) true).outs
      (.init 1) (relinked ++ .info 0 ⟨true, .unlinked⟩ ::
        [.callbackReturn, .paramChanged 0 .format false])))).count .errorCallback = 1 := by
  have htrace : since isRequested (portTrace 0
      ((linkMachine (fun _ : Fin 1 => heldInput) true).outs (.init 1) relinked)) =
      [.formatted, .reported 1 .paused, .returned .ok] := by decide
  refine lost_source_reported ?_ ?_ ?_ ?_ ?_
  · decide
  · simp [htrace]
  · simp [htrace]
  · exact ⟨rfl, rfl, rfl, rfl, .paused, by decide, rfl⟩
  · decide

end TinyPipewire.Filter
