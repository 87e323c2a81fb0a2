import TinyPipewire.Filter.Control

/-!
# What a port's history tells of its link

The reports since a port's link was last requested decide what a waiting call finds and
whether the link was seen up.
-/

namespace TinyPipewire.Filter

open History

def isRequested : PortOut → Bool
  | .requested _ => true
  | _ => false

def isFormatted : PortOut → Bool
  | .formatted => true
  | _ => false

/-- The state a report gives, when it tells a link that is up from one that is gone. -/
def decisive : PortOut → Option PwLinkState
  | .reported _ st => if (st.isUp || st.isDown) = true then some st else none
  | _ => none

/-- The last decisive state reported for the link that was last requested. -/
def lastReport (ws : List PortOut) : Option PwLinkState :=
  ((since isRequested ws).filterMap decisive).getLast?

/-- What a waiting call finds after that report. -/
def waitAfter : Option PwLinkState → LinkWait
  | none => ⟨false, .connectFailed⟩
  | some st => ⟨true, if st.isUp = true then .ok else .invalidFormat⟩

variable {cfg : PortConfig} {errorCb : Bool} {q : LinkPort} {a : LinkStep}
  {ws vs : List PortOut}

theorem lastReport_append (h : ∀ w ∈ vs, isRequested w = false) :
    lastReport (ws ++ vs) = (vs.filterMap decisive).getLast?.or (lastReport ws) := by
  rw [lastReport, since_append h, List.filterMap_append, List.getLast?_append, lastReport]

@[simp] theorem lastReport_requested {id : ℕ} : lastReport (ws ++ [.requested id]) = none := by
  simp [lastReport, since_snoc, isRequested]

theorem isDown_of_isUp {st : PwLinkState} (h : st.isUp = true) : st.isDown = false := by
  cases st <;> simp_all [PwLinkState.isUp, PwLinkState.isDown]

/-! ### One step's part of the history -/

/-- A link is requested by the step that creates it, and by no other. -/
theorem out_not_requested (ha : ∀ id, a ≠ .create (some id)) {w : PortOut}
    (h : w ∈ LinkPort.out cfg errorCb q a) : isRequested w = false := by
  have hsays := LinkPort.says_of_mem h
  cases w with
  | requested id => exact absurd hsays (ha id)
  | _ => rfl

theorem decisive_callbackOuts {reports : Bool} :
    (callbackOuts errorCb reports).filterMap decisive = [] := by
  unfold callbackOuts
  split <;> rfl

/-- Only a report changes what was last reported of a link. -/
theorem lastReport_other (ha : ∀ id, a ≠ .create (some id)) (hi : ∀ st i, a ≠ .info st i) :
    lastReport (ws ++ LinkPort.out cfg errorCb q a) = lastReport ws := by
  have hnone : (LinkPort.out cfg errorCb q a).filterMap decisive = [] := by
    cases a with
    | enter st c => cases hr : linkRefusal cfg st q.link c <;> simp [LinkPort.out, hr, decisive]
    | lookupFailed r => rfl
    | create o =>
      cases o with
      | none => rfl
      | some id => exact absurd rfl (ha id)
    | resume t =>
      cases hp : q.link.linkProxy <;> by_cases hr : linkResult q.link t = .ok <;>
        simp [LinkPort.out, releaseOuts, hr, hp, decisive]
    | info st i => exact absurd rfl (hi st i)
    | param st id param =>
      rw [LinkPort.out, List.filterMap_append, decisive_callbackOuts]
      cases id <;> cases param <;> rfl
    | release => cases hp : q.link.linkProxy <;> simp [LinkPort.out, releaseOuts, hp, decisive]
  rw [lastReport_append fun w hw => out_not_requested ha hw, hnone]
  rfl

/-- A report that decides nothing leaves it as it is too. -/
theorem lastReport_idle {st : FilterState} {i : PwLinkInfo}
    (h : i.stateChanged = true → i.state.isUp = false ∧ i.state.isDown = false) :
    lastReport (ws ++ LinkPort.out cfg errorCb q (.info st i)) = lastReport ws := by
  rw [lastReport_append fun w hw => out_not_requested (by simp) hw, LinkPort.out,
    List.filterMap_append, decisive_callbackOuts]
  by_cases hc : i.stateChanged = true
  · cases hp : q.link.linkProxy <;> simp [hc, h hc, decisive]
  · simp [hc]

theorem lastReport_info {st : FilterState} {i : PwLinkInfo}
    (hp : q.link.linkProxy.isSome = true) (hc : i.stateChanged = true)
    (h : i.state.isUp = true ∨ i.state.isDown = true) :
    lastReport (ws ++ LinkPort.out cfg errorCb q (.info st i)) = some i.state := by
  obtain ⟨id, hid⟩ := Option.isSome_iff_exists.mp hp
  rw [lastReport_append fun w hw => out_not_requested (by simp) hw, LinkPort.out,
    List.filterMap_append, decisive_callbackOuts]
  simp [hc, hid, decisive, h]

/-! ### The wait and the link, from the history -/

/-- A call that waits finds what the last report left it, and a link whose last report is
up was seen up. -/
structure LinkPort.Told (ws : List PortOut) (q : LinkPort) : Prop where
  wait : q.link.linkWait =
    if q.call = .waiting then some (waitAfter (lastReport ws)) else none
  seen : q.link.linkProxy.isSome = true →
    (∃ st, lastReport ws = some st ∧ st.isUp = true) → q.link.linkStateSeenActive = true

theorem told_zeroed : LinkPort.zeroed.Told [] where
  wait := rfl
  seen := by simp [LinkPort.zeroed, PortLink.zeroed]

theorem claimSourceLoss_frame {st : FilterState} {l : PortLink} :
    (claimSourceLoss st l).1.linkProxy = l.linkProxy ∧
      (claimSourceLoss st l).1.linkWait = l.linkWait ∧
      (claimSourceLoss st l).1.linkStateSeenActive = l.linkStateSeenActive := by
  rcases claimSourceLoss_cases st l with ⟨-, hc⟩ | ⟨-, -, hc⟩ <;> rw [hc] <;> simp

theorem onParamChanged_frame (cfg : PortConfig) (st : FilterState) (l : PortLink) (id : ParamId)
    (param : Bool) :
    (onParamChanged cfg st l id param).1.linkProxy = l.linkProxy ∧
      (onParamChanged cfg st l id param).1.linkWait = l.linkWait ∧
      (onParamChanged cfg st l id param).1.linkStateSeenActive = l.linkStateSeenActive := by
  rcases onParamChanged_cases cfg st l id param with ⟨-, hp⟩ | ⟨-, -, hp⟩ | ⟨-, -, -, hp⟩ <;>
    rw [hp]
  · simp
  · simp
  · exact claimSourceLoss_frame

theorem linkOnInfo_proxy {st : FilterState} {l : PortLink} {i : PwLinkInfo} :
    (linkOnInfo st l i).1.linkProxy = l.linkProxy := by
  rcases linkOnInfo_cases st l i with ⟨-, hi⟩ | ⟨-, -, hi⟩ | ⟨-, -, -, hi⟩ | ⟨-, -, -, -, hi⟩ <;>
    rw [hi]
  exact claimSourceLoss_frame.1

theorem told_info {st : FilterState} {i : PwLinkInfo} (hp : q.link.linkProxy.isSome = true)
    (h : q.Told ws) :
    (LinkPort.next cfg q (.info st i)).Told
      (ws ++ LinkPort.out cfg errorCb q (.info st i)) := by
  have hcall : (LinkPort.next cfg q (.info st i)).call = q.call := rfl
  rcases linkOnInfo_cases st q.link i with
    ⟨hq, hi⟩ | ⟨hc, hu, hi⟩ | ⟨hc, hd, hw, hi⟩ | ⟨hc, hd, hw, hs, hi⟩
  · have hlink : (LinkPort.next cfg q (.info st i)) = q := by simp [LinkPort.next, hi]
    rw [hlink]
    by_cases hdown : i.stateChanged = true ∧ i.state.isDown = true
    · -- nobody waits, and the link was not seen up
      obtain ⟨hnone, hunseen⟩ := (hq hdown.1).2 hdown.2
      have hidle : q.call ≠ .waiting := by
        intro hwait
        simp [h.wait, hwait] at hnone
      refine ⟨by simp [hnone, hidle], ?_⟩
      rintro - ⟨st', hst', hup⟩
      rw [lastReport_info hp hdown.1 (Or.inr hdown.2)] at hst'
      obtain rfl := Option.some.inj hst'
      simp [(hq hdown.1).1] at hup
    · have hsame : lastReport (ws ++ LinkPort.out cfg errorCb q (.info st i)) =
          lastReport ws := by
        refine lastReport_idle fun hc => ⟨(hq hc).1, ?_⟩
        simpa [hc] using hdown
      exact ⟨by rw [hsame]; exact h.wait, by rw [hsame]; exact h.seen⟩
  · have hlast : lastReport (ws ++ LinkPort.out cfg errorCb q (.info st i)) = some i.state :=
      lastReport_info hp hc (Or.inl hu)
    refine ⟨?_, fun _ _ => by simp [LinkPort.next, hi]⟩
    rw [hlast, hcall]
    simp only [LinkPort.next, hi, h.wait]
    split <;> simp [waitAfter, hu]
  · have hlast : lastReport (ws ++ LinkPort.out cfg errorCb q (.info st i)) = some i.state :=
      lastReport_info hp hc (Or.inr hd)
    have hup : i.state.isUp ≠ true := fun hup => by simp [isDown_of_isUp hup] at hd
    have hwait : q.call = .waiting := by
      by_contra hidle
      simp [h.wait, hidle] at hw
    refine ⟨?_, ?_⟩
    · rw [hlast, hcall]
      simp [LinkPort.next, hi, hwait, waitAfter, hup]
    · rintro - ⟨st', hst', hup'⟩
      rw [hlast] at hst'
      obtain rfl := Option.some.inj hst'
      exact absurd hup' hup
  · have hlast : lastReport (ws ++ LinkPort.out cfg errorCb q (.info st i)) = some i.state :=
      lastReport_info hp hc (Or.inr hd)
    have hidle : q.call ≠ .waiting := by
      intro hwait
      simp [h.wait, hwait] at hw
    refine ⟨?_, ?_⟩
    · rw [hcall]
      simp [LinkPort.next, hi, hidle, claimSourceLoss_frame, hw]
    · rintro - ⟨st', hst', hup'⟩
      rw [hlast] at hst'
      obtain rfl := Option.some.inj hst'
      simp [isDown_of_isUp hup'] at hd

theorem told_next (he : q.Enabled a) (h : q.Told ws) :
    (LinkPort.next cfg q a).Told (ws ++ LinkPort.out cfg errorCb q a) := by
  have hother : (∀ id, a ≠ .create (some id)) → (∀ st i, a ≠ .info st i) →
      lastReport (ws ++ LinkPort.out cfg errorCb q a) = lastReport ws := lastReport_other
  cases a with
  | info st i => exact told_info he h
  | create o =>
    cases o with
    | none =>
      have hc : q.call = .lookup := he
      have hlast := hother (by simp) (by simp)
      refine ⟨?_, fun hp => by rw [hlast]; exact h.seen hp⟩
      have hw := h.wait
      simp only [hc] at hw
      simpa [LinkPort.next] using hw
    | some id =>
      have hout : LinkPort.out cfg errorCb q (.create (some id)) = [.requested id] := rfl
      refine ⟨?_, ?_⟩
      · simp [hout, LinkPort.next, waitAfter]
      · simp [hout]
  | enter st c =>
    have hc : q.call = .idle := he
    have hlast := hother (by simp) (by simp)
    have hw := h.wait
    simp only [hc] at hw
    constructor
    · rw [hlast]
      cases hr : linkRefusal cfg st q.link c <;> simpa [LinkPort.next, hr, hc] using hw
    · rw [hlast]
      cases hr : linkRefusal cfg st q.link c <;> simpa [LinkPort.next, hr] using h.seen
  | lookupFailed r =>
    have hc : q.call = .lookup := he.1
    have hlast := hother (by simp) (by simp)
    have hw := h.wait
    simp only [hc] at hw
    exact ⟨by simpa [LinkPort.next] using hw, by rw [hlast]; exact h.seen⟩
  | resume t =>
    have hlast := hother (by simp) (by simp)
    by_cases hr : linkResult q.link t = .ok
    · exact ⟨by simp [LinkPort.next, hr],
        by rw [hlast]; simpa [LinkPort.next, hr] using h.seen⟩
    · exact ⟨by simp [LinkPort.next, hr, portLinkRelease],
        by simp [LinkPort.next, hr, portLinkRelease]⟩
  | param st id param =>
    have hlast := hother (by simp) (by simp)
    obtain ⟨hp, hw, hs⟩ := onParamChanged_frame cfg st q.link id param
    constructor
    · rw [hlast]
      exact hw.trans h.wait
    · rw [hlast]
      simpa [LinkPort.next, hp, hs] using h.seen
  | release =>
    have hlast := hother (by simp) (by simp)
    constructor
    · rw [hlast]
      exact h.wait
    · simp [LinkPort.next, portLinkRelease]

end TinyPipewire.Filter
