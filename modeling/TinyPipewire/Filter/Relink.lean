import TinyPipewire.Filter.LinkCall

/-!
# Linking a port again

`pwf_filter_port_link` refuses a port that has a link proxy. The proxy of a lost link stays
with its port till the application releases it, so what the port's history says of its link
and what the check reads part there.
-/

namespace TinyPipewire.Filter

open History
open LinkPort (mem_callbackOuts says_of_mem)

variable {cfg : PortConfig} {errorCb : Bool} {q : LinkPort} {a : LinkStep}
  {ws vs : List PortOut} {id : ℕ}

/-- A link that is requested is owned, and one that is released is not. -/
def ownership : PortOut → Option (Option ℕ)
  | .requested id => some (some id)
  | .released _ => some none
  | _ => none

/-- The link a port owns. -/
def ownedLink (ws : List PortOut) : Option ℕ := (ws.filterMap ownership).getLast?.join

/-- The link that was last requested negotiated, and was reported failed or gone since. -/
def LinkLost (ws : List PortOut) : Prop :=
  ∃ us id st vs, since isRequested ws = us ++ .reported id st :: vs ∧ st.isDown = true ∧
    .returned .ok ∈ us

theorem ownedLink_append :
    ownedLink (ws ++ vs) = ((vs.filterMap ownership).getLast?.or
      (ws.filterMap ownership).getLast?).join := by
  rw [ownedLink, List.filterMap_append, List.getLast?_append]

theorem ownedLink_same (h : vs.filterMap ownership = []) :
    ownedLink (ws ++ vs) = ownedLink ws := by
  rw [ownedLink_append, h]
  rfl

theorem ownedLink_requested (hvs : vs = [.requested id]) :
    ownedLink (ws ++ vs) = some id := by
  subst hvs
  rw [ownedLink_append]
  rfl

/-- What is released is not owned any more. -/
theorem ownedLink_released (h : ownedLink ws = q.link.linkProxy)
    (hvs : vs.filterMap ownership = (releaseOuts q.link).filterMap ownership) :
    ownedLink (ws ++ vs) = none := by
  cases hp : q.link.linkProxy with
  | none =>
    have hnil : vs.filterMap ownership = [] := by simpa [releaseOuts, hp] using hvs
    rw [ownedLink_same hnil, h, hp]
  | some id =>
    rw [ownedLink_append, hvs, releaseOuts, hp]
    rfl

theorem ownership_callbackOuts {reports : Bool} :
    (callbackOuts errorCb reports).filterMap ownership = [] := by
  unfold callbackOuts
  split <;> rfl

/-! ### What more observations say of a loss -/

/-- A loss already seen stays seen while no link is requested. -/
theorem linkLost_append (hvs : ∀ w ∈ vs, isRequested w = false) (h : LinkLost ws) :
    LinkLost (ws ++ vs) := by
  obtain ⟨us, id, st, rest, hsplit, hd, hok⟩ := h
  refine ⟨us, id, st, rest ++ vs, ?_, hd, hok⟩
  rw [since_append hvs, hsplit]
  simp

/-- The link is lost by the report that says so, once its call returned. -/
theorem linkLost_reported {st : PwLinkState} (hok : .returned .ok ∈ since isRequested ws)
    (hd : st.isDown = true) (hvs : ∀ w ∈ .reported id st :: vs, isRequested w = false) :
    LinkLost (ws ++ .reported id st :: vs) :=
  ⟨since isRequested ws, id, st, vs, since_append hvs, hd, hok⟩

/-- What reports no failed link loses none. -/
theorem linkLost_other (hvs : ∀ w ∈ vs, isRequested w = false)
    (hdown : ∀ id st, .reported id st ∈ vs → st.isDown = false) (h : LinkLost (ws ++ vs)) :
    LinkLost ws := by
  obtain ⟨us, id, st, rest, hsplit, hd, hok⟩ := h
  rw [since_append hvs] at hsplit
  rcases List.append_eq_append_iff.mp hsplit with ⟨ts, hus, hrest⟩ | ⟨ts, hws, hrest⟩
  · have hmem : .reported id st ∈ vs := by rw [hrest]; simp
    simp [hdown id st hmem] at hd
  · cases ts with
    | nil =>
      have hmem : PortOut.reported id st ∈ vs := by
        have : vs = .reported id st :: rest := by simpa using hrest.symm
        rw [this]
        simp
      simp [hdown id st hmem] at hd
    | cons t ts =>
      obtain ⟨rfl, -⟩ := List.cons.inj hrest
      exact ⟨us, id, st, ts, hws, hd, hok⟩

/-- Before the call returned the link is not lost. -/
theorem not_linkLost (h : .returned .ok ∉ since isRequested ws) : ¬ LinkLost ws := by
  rintro ⟨us, id, st, rest, hsplit, -, hok⟩
  exact h (by rw [hsplit]; exact List.mem_append_left _ hok)

/-! ### The fields, from the history -/

/-- A port has the link its history says it owns, seen up or lost once its call returned. -/
structure LinkPort.Owns (ws : List PortOut) (q : LinkPort) : Prop where
  told : q.Told ws
  free : q.call = .lookup → q.link.linkProxy = none
  owned : ownedLink ws = q.link.linkProxy
  returned : q.link.linkProxy.isSome = true →
    (.returned .ok ∈ since isRequested ws ↔ q.call ≠ .waiting)
  stands : q.link.linkProxy.isSome = true → q.call ≠ .waiting →
    q.link.linkStateSeenActive = true ∨ q.link.linkLost = true
  lost : q.link.linkProxy.isSome = true → (q.link.linkLost = true ↔ LinkLost ws)
  lostOwned : q.link.linkLost = true → q.link.linkProxy.isSome = true

theorem owns_zeroed : LinkPort.zeroed.Owns [] where
  told := told_zeroed
  free := by simp [LinkPort.zeroed]
  owned := rfl
  returned := by simp [LinkPort.zeroed, PortLink.zeroed]
  stands := by simp [LinkPort.zeroed, PortLink.zeroed]
  lost := by simp [LinkPort.zeroed, PortLink.zeroed]
  lostOwned := by simp [LinkPort.zeroed, PortLink.zeroed]

/-- A port without a link after a step owns none. -/
theorem owns_none {r : LinkPort} (htold : r.Told (ws ++ vs)) (hp : r.link.linkProxy = none)
    (hl : r.link.linkLost = false) (howned : ownedLink (ws ++ vs) = none) :
    r.Owns (ws ++ vs) where
  told := htold
  free := fun _ => hp
  owned := by rw [howned, hp]
  returned := by simp [hp]
  stands := by simp [hp]
  lost := by simp [hp]
  lostOwned := by simp [hl]

/-- A step that keeps the link, and reports no failure of it, keeps what is known of it. -/
theorem owns_kept {r : LinkPort} (h : q.Owns ws) (htold : r.Told (ws ++ vs))
    (hfree : r.call = .lookup → q.link.linkProxy = none)
    (hwait : r.call = .waiting ↔ q.call = .waiting)
    (hp : r.link.linkProxy = q.link.linkProxy) (hl : r.link.linkLost = q.link.linkLost)
    (hseen : q.link.linkStateSeenActive = true → r.link.linkStateSeenActive = true)
    (hreq : ∀ w ∈ vs, isRequested w = false) (hown : vs.filterMap ownership = [])
    (hret : .returned .ok ∉ vs) (hdown : ∀ id st, .reported id st ∈ vs → st.isDown = false) :
    r.Owns (ws ++ vs) where
  told := htold
  free := by rwa [hp]
  owned := by rw [ownedLink_same hown, h.owned, hp]
  returned := by
    rw [hp, since_append hreq, List.mem_append, ne_eq, hwait]
    intro hsome
    have hiff := h.returned hsome
    tauto
  stands := by
    rw [hp, ne_eq, hwait, hl]
    intro hsome hcall
    exact (h.stands hsome hcall).imp_left hseen
  lost := by
    rw [hp, hl]
    intro hsome
    rw [h.lost hsome]
    exact ⟨linkLost_append hreq, linkLost_other hreq hdown⟩
  lostOwned := by
    rw [hp, hl]
    exact h.lostOwned

theorem claimSourceLoss_linkLost {st : FilterState} {l : PortLink} :
    (claimSourceLoss st l).1.linkLost = l.linkLost := by
  rcases claimSourceLoss_cases st l with ⟨-, hc⟩ | ⟨-, -, hc⟩ <;> rw [hc]

theorem onParamChanged_linkLost {st : FilterState} {l : PortLink} {pid : ParamId}
    {param : Bool} : (onParamChanged cfg st l pid param).1.linkLost = l.linkLost := by
  rcases onParamChanged_cases cfg st l pid param with ⟨-, hp⟩ | ⟨-, -, hp⟩ | ⟨-, -, -, hp⟩ <;>
    rw [hp]
  exact claimSourceLoss_linkLost

variable (cfg errorCb q) in
/-- A report says what it says of the port's own link, and nothing of owning it. -/
theorem out_info (st : FilterState) (i : PwLinkInfo) :
    (LinkPort.out cfg errorCb q (.info st i)).filterMap ownership = [] ∧
      .returned .ok ∉ LinkPort.out cfg errorCb q (.info st i) ∧
      ∀ id s, .reported id s ∈ LinkPort.out cfg errorCb q (.info st i) →
        i.stateChanged = true ∧ s = i.state := by
  have hcb : (callbackOuts errorCb (linkOnInfo st q.link i).2).filterMap ownership = [] :=
    ownership_callbackOuts
  refine ⟨?_, ?_, ?_⟩
  · rw [LinkPort.out, List.filterMap_append, hcb]
    cases q.link.linkProxy <;> by_cases hc : i.stateChanged = true <;> simp [hc, ownership]
  · intro hmem
    rcases says_of_mem hmem with h | ⟨h, -⟩ | ⟨t, h, -⟩ <;> cases h
  · intro id s hmem
    obtain ⟨st', i', hi, hc, -, hs⟩ := says_of_mem hmem
    obtain ⟨rfl, rfl⟩ := LinkStep.info.inj hi
    exact ⟨hc, hs⟩

/-- A link reported failed once its call returned is lost from then on. -/
theorem linkLost_info {st : FilterState} {i : PwLinkInfo} (he : q.link.linkProxy.isSome = true)
    (hok : .returned .ok ∈ since isRequested ws) (hc : i.stateChanged = true)
    (hd : i.state.isDown = true) :
    LinkLost (ws ++ LinkPort.out cfg errorCb q (.info st i)) := by
  obtain ⟨id, hid⟩ := Option.isSome_iff_exists.mp he
  have hreq : ∀ w ∈ LinkPort.out cfg errorCb q (.info st i), isRequested w = false :=
    fun w hw => out_not_requested (by simp) hw
  have hout : LinkPort.out cfg errorCb q (.info st i) =
      .reported id i.state :: callbackOuts errorCb (linkOnInfo st q.link i).2 := by
    simp [LinkPort.out, hc, hid]
  rw [hout] at hreq ⊢
  exact linkLost_reported hok hd hreq

/-- A failure reported to a port whose call returned leaves the link lost, and one that a
call waits for leaves it to the call. -/
theorem linkLost_down {st : FilterState} {i : PwLinkInfo} (he : q.link.linkProxy.isSome = true)
    (hc : i.stateChanged = true) (hd : i.state.isDown = true) (h : q.Owns ws) :
    (linkOnInfo st q.link i).1.linkLost = true ↔ q.call ≠ .waiting := by
  have hwait := h.told.wait
  rcases linkOnInfo_cases st q.link i with
    ⟨hq, hi⟩ | ⟨-, hu, -⟩ | ⟨-, -, hw, hi⟩ | ⟨-, -, hw, -, hi⟩
  · obtain ⟨hnone, hunseen⟩ := (hq hc).2 hd
    have hcall : q.call ≠ .waiting := by
      intro hcall
      simp [hwait, hcall] at hnone
    have hlost := (h.stands he hcall).resolve_left (by simp [hunseen])
    simp [hi, hlost, hcall]
  · simp [isDown_of_isUp hu] at hd
  · have hcall : q.call = .waiting := by
      by_contra hcall
      simp [hwait, hcall] at hw
    have hret := h.returned he
    have hlost : ¬ q.link.linkLost = true := by
      rw [h.lost he]
      exact not_linkLost (by simp [hret, hcall])
    simp [hi, hcall, hlost]
  · have hcall : q.call ≠ .waiting := by
      intro hcall
      simp [hwait, hcall] at hw
    simp [hi, claimSourceLoss_linkLost, hcall]

variable (q) in
/-- Any other report leaves the link as lost as it was. -/
theorem linkLost_up (st : FilterState) {i : PwLinkInfo}
    (h : ¬ (i.stateChanged = true ∧ i.state.isDown = true)) :
    (linkOnInfo st q.link i).1.linkLost = q.link.linkLost ∧
      (q.link.linkStateSeenActive = true →
        (linkOnInfo st q.link i).1.linkStateSeenActive = true) := by
  rcases linkOnInfo_cases st q.link i with
    ⟨-, hi⟩ | ⟨-, -, hi⟩ | ⟨hc, hd, -⟩ | ⟨hc, hd, -⟩
  · simp [hi]
  · simp [hi]
  · exact absurd ⟨hc, hd⟩ h
  · exact absurd ⟨hc, hd⟩ h

theorem owns_info {st : FilterState} {i : PwLinkInfo} (he : q.link.linkProxy.isSome = true)
    (h : q.Owns ws) :
    (LinkPort.next cfg q (.info st i)).Owns
      (ws ++ LinkPort.out cfg errorCb q (.info st i)) := by
  have htold : (LinkPort.next cfg q (.info st i)).Told
      (ws ++ LinkPort.out cfg errorCb q (.info st i)) := told_info he h.told
  have hreq : ∀ w ∈ LinkPort.out cfg errorCb q (.info st i), isRequested w = false :=
    fun w hw => out_not_requested (by simp) hw
  have hproxy : (LinkPort.next cfg q (.info st i)).link.linkProxy = q.link.linkProxy :=
    linkOnInfo_proxy
  obtain ⟨hown, hret, hrep⟩ := out_info cfg errorCb q st i
  by_cases hdown : i.stateChanged = true ∧ i.state.isDown = true
  · have hlost : (LinkPort.next cfg q (.info st i)).link.linkLost = true ↔
        q.call ≠ .waiting := linkLost_down he hdown.1 hdown.2 h
    have hmem : .returned .ok ∈ since isRequested
        (ws ++ LinkPort.out cfg errorCb q (.info st i)) ↔ q.call ≠ .waiting := by
      rw [since_append hreq, List.mem_append, or_iff_left hret]
      exact h.returned he
    refine ⟨htold, ?_, ?_, fun _ => hmem, fun _ hcall => Or.inr (hlost.mpr hcall), ?_,
      fun _ => hproxy ▸ he⟩
    · rw [hproxy]
      exact h.free
    · rw [ownedLink_same hown, h.owned, hproxy]
    · intro _
      rw [hlost]
      constructor
      · intro hcall
        exact linkLost_info he ((h.returned he).mpr hcall) hdown.1 hdown.2
      · intro hlostws hcall
        exact not_linkLost (fun hok => hmem.mp hok hcall) hlostws
  · obtain ⟨hlost, hseen⟩ := linkLost_up q st hdown
    refine owns_kept h htold h.free Iff.rfl hproxy hlost hseen hreq hown hret ?_
    intro id s hmem
    obtain ⟨hc, rfl⟩ := hrep id s hmem
    simpa [hc] using hdown

/-- A call that returns `PWF_OK` leaves the link it waited for as it is. -/
theorem owns_resume_ok {t : Bool} (he : q.Enabled (.resume t))
    (hr : linkResult q.link t = .ok) (h : q.Owns ws) :
    (LinkPort.next cfg q (.resume t)).Owns
      (ws ++ LinkPort.out cfg errorCb q (.resume t)) := by
  have htold : (LinkPort.next cfg q (.resume t)).Told
      (ws ++ LinkPort.out cfg errorCb q (.resume t)) := told_next he h.told
  have hout : LinkPort.out cfg errorCb q (.resume t) = [.returned .ok] := by
    simp [LinkPort.out, hr]
  have hnext : LinkPort.next cfg q (.resume t) =
      { q with link := { q.link with linkWait := none }, call := .idle } := by
    simp [LinkPort.next, hr]
  rw [hout] at htold ⊢
  rw [hnext] at htold ⊢
  have hreq : ∀ w ∈ [PortOut.returned .ok], isRequested w = false := by simp [isRequested]
  refine ⟨htold, by simp, ?_, ?_, ?_, ?_, h.lostOwned⟩
  · rw [ownedLink_same rfl]
    exact h.owned
  · intro _
    simp [since_append hreq]
  · intro hp _
    exact Or.inl (h.told.seen hp (linkResult_up he.1 h.told hr).2)
  · intro hp
    rw [h.lost hp]
    exact ⟨linkLost_append hreq, linkLost_other hreq (by simp)⟩

theorem owns_next (he : q.Enabled a) (h : q.Owns ws) :
    (LinkPort.next cfg q a).Owns (ws ++ LinkPort.out cfg errorCb q a) := by
  have htold : (LinkPort.next cfg q a).Told (ws ++ LinkPort.out cfg errorCb q a) :=
    told_next he h.told
  cases a with
  | info st i => exact owns_info he h
  | enter st c =>
    have hcall : q.call = .idle := he
    cases hr : linkRefusal cfg st q.link c with
    | some r =>
      have hout : LinkPort.out cfg errorCb q (.enter st c) = [.refused r] := by
        simp [LinkPort.out, hr]
      have hnext : LinkPort.next cfg q (.enter st c) = q := by simp [LinkPort.next, hr]
      rw [hout, hnext] at htold ⊢
      exact owns_kept h htold h.free Iff.rfl rfl rfl id (by simp [isRequested]) rfl (by simp)
        (by simp)
    | none =>
      have hout : LinkPort.out cfg errorCb q (.enter st c) = [] := by simp [LinkPort.out, hr]
      have hnext : LinkPort.next cfg q (.enter st c) = { q with call := .lookup } := by
        simp [LinkPort.next, hr]
      rw [hout, hnext] at htold ⊢
      exact owns_kept h htold (fun _ => linkRefusal_none hr) (by simp [hcall]) rfl rfl id
        (by simp) rfl (by simp) (by simp)
  | lookupFailed r =>
    have hr : r ≠ .ok := by
      rintro rfl
      simp [LinkPort.Enabled] at he
    exact owns_kept h htold (by simp [LinkPort.next]) (by simp [LinkPort.next, he.1]) rfl rfl id
      (by simp [LinkPort.out, isRequested]) rfl (by simp [LinkPort.out, Ne.symm hr])
      (by simp [LinkPort.out])
  | create o =>
    have hcall : q.call = .lookup := he
    cases o with
    | none =>
      exact owns_kept h htold (by simp [LinkPort.next]) (by simp [LinkPort.next, hcall]) rfl rfl
        id (by simp [LinkPort.out, isRequested]) rfl (by simp [LinkPort.out])
        (by simp [LinkPort.out])
    | some id =>
      have hsince : since isRequested (ws ++ [.requested id]) = [] := by
        simp [since_snoc, isRequested]
      refine ⟨htold, by simp [LinkPort.next], ownedLink_requested rfl, ?_, ?_, ?_, ?_⟩
      · simp [LinkPort.out, LinkPort.next, hsince]
      · simp [LinkPort.next]
      · intro _
        have hno : ¬ LinkLost (ws ++ [.requested id]) := not_linkLost (by simp [hsince])
        simpa [LinkPort.out, LinkPort.next] using hno
      · simp [LinkPort.next]
  | resume t =>
    by_cases hr : linkResult q.link t = .ok
    · exact owns_resume_ok he hr h
    · refine owns_none htold (by simp [LinkPort.next, hr, portLinkRelease])
        (by simp [LinkPort.next, hr, portLinkRelease]) (ownedLink_released h.owned ?_)
      simp [LinkPort.out, hr, ownership]
  | param st pid param =>
    obtain ⟨hp, -, hs⟩ := onParamChanged_frame cfg st q.link pid param
    have hout : (LinkPort.out cfg errorCb q (.param st pid param)).filterMap ownership = [] := by
      rw [LinkPort.out, List.filterMap_append, ownership_callbackOuts]
      cases pid <;> cases param <;> rfl
    refine owns_kept h htold h.free Iff.rfl hp onParamChanged_linkLost (fun hseen => hs.trans hseen)
      (fun w hw => out_not_requested (by simp) hw) hout ?_ ?_
    · cases pid <;> cases param <;> simp [LinkPort.out, mem_callbackOuts]
    · cases pid <;> cases param <;> simp [LinkPort.out, mem_callbackOuts]
  | release => exact owns_none htold rfl rfl (ownedLink_released h.owned rfl)

/-! ### The call -/

variable {n : ℕ} {cfgs : Fin n → PortConfig}

theorem owns_run {xs : List (LinkAction n)}
    (h : (linkMachine cfgs errorCb).Valid (.init n) xs) (p : Fin n) :
    (((linkMachine cfgs errorCb).exec (.init n) xs).ports p).Owns
      (portTrace p ((linkMachine cfgs errorCb).outs (.init n) xs)) := by
  obtain ⟨ys, hv, hexec, houts⟩ := (port_follows cfgs errorCb p).run h
  rw [hexec, houts]
  exact Machine.history (P := fun ws q => q.Owns ws) owns_zeroed
    (fun _ _ _ he h => owns_next he h) hv

/-- Outside a callback a running filter refuses to link an input port that has a proxy. -/
theorem linkRefusal_running {l : PortLink} (hd : cfg.direction = .input) :
    linkRefusal cfg .running l false = some .invalidArg ↔ l.linkProxy.isSome = true := by
  cases hp : l.linkProxy <;> simp [linkRefusal, hd, hp]

/-- On a filter that runs, an input port is refused as linked exactly if it owns a link that
was not lost, as long as its link was not lost. -/
theorem refused_as_linked_iff {xs : List (LinkAction n)} {p : Fin n}
    (h : (linkMachine cfgs errorCb).Valid (.init n) xs)
    (hrun : ((linkMachine cfgs errorCb).exec (.init n) xs).state = .running)
    (hd : (cfgs p).direction = .input) :
    let s := (linkMachine cfgs errorCb).exec (.init n) xs
    let ws := portTrace p ((linkMachine cfgs errorCb).outs (.init n) xs)
    (linkRefusal (cfgs p) s.state (s.ports p).link false = some .invalidArg ↔
        (ownedLink ws).isSome = true ∧ ¬ LinkLost ws) ↔
      (s.ports p).link.linkLost = false := by
  intro s ws
  have howns : (s.ports p).Owns ws := owns_run h p
  have hs : s.state = .running := hrun
  rw [hs, linkRefusal_running hd, howns.owned]
  cases hl : (s.ports p).link.linkLost with
  | false =>
    have hkept : (s.ports p).link.linkProxy.isSome = true → ¬ LinkLost ws := by
      intro hp
      simp [← howns.lost hp, hl]
    simpa using hkept
  | true =>
    have hp := howns.lostOwned hl
    simp [hp, (howns.lost hp).mp hl]

/-- A link that is up, and the failure the application is told of. -/
def linkedThenLost : List (LinkAction 1) :=
  [.startEnter true, .startFinish, .linkEnter onePort false, .linkCreate onePort true,
    .paramChanged onePort .format true, .info onePort ⟨true, .active⟩,
    .linkResume onePort false, .info onePort ⟨true, .error⟩, .callbackReturn]

/-- After a loss the application unlinks the port, and then it can be linked again. -/
theorem refused_as_linked_iff_unlinked :
    let xs := linkedThenLost ++ [.unlinkEnter 0, .unlinkRelease 0]
    let s := (linkMachine (fun _ : Fin 1 => heldInput) true).exec (.init 1) xs
    let ws := portTrace 0 ((linkMachine (fun _ : Fin 1 => heldInput) true).outs (.init 1) xs)
    (linkRefusal heldInput s.state (s.ports 0).link false = some .invalidArg ↔
        (ownedLink ws).isSome = true ∧ ¬ LinkLost ws) ↔
      (s.ports 0).link.linkLost = false := by
  have hv : (linkMachine (fun _ : Fin 1 => heldInput) true).Valid (.init 1)
      (linkedThenLost ++ [.unlinkEnter 0, .unlinkRelease 0]) := by decide
  exact refused_as_linked_iff hv (by decide) rfl

/-- The port of a lost link is refused as linked. -/
theorem lost_link_refused :
    let M := linkMachine (fun _ : Fin 1 => heldInput) true
    let s := M.exec (.init 1) linkedThenLost
    let ws := portTrace 0 (M.outs (.init 1) linkedThenLost)
    M.Valid (.init 1) (linkedThenLost ++ [.linkEnter 0 false]) ∧ s.state = .running ∧
      LinkLost ws ∧ .errorCallback ∈ ws ∧
      M.out s (.linkEnter 0 false) = [(0, .refused .invalidArg)] ∧
      ¬ (linkRefusal heldInput s.state (s.ports 0).link false = some .invalidArg ↔
        (ownedLink ws).isSome = true ∧ ¬ LinkLost ws) := by
  intro M s ws
  have hlost : LinkLost ws :=
    ⟨[.formatted, .reported 0 .active, .returned .ok], 0, .error, [.errorCallback], by decide, rfl,
      by simp⟩
  have hrefused : linkRefusal heldInput s.state (s.ports 0).link false = some .invalidArg := by
    decide
  refine ⟨by decide, by decide, hlost, by decide, by decide, ?_⟩
  intro hiff
  exact (hiff.mp hrefused).2 hlost

end TinyPipewire.Filter
