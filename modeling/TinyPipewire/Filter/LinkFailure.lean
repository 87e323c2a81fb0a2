import TinyPipewire.Filter.Relink

/-!
# A link call that fails

A call gives up before it has a link, or it drops the link it made with the routine that
drops one for the application. What it leaves of the port is compared with what it found.
-/

namespace TinyPipewire.Filter

variable {cfg : PortConfig} {errorCb : Bool} {q : LinkPort} {a : LinkStep}

/-! ### A port without a link -/

/-- Only a link is seen active, or lost. -/
structure LinkPort.Bare (q : LinkPort) : Prop where
  seen : q.link.linkProxy = none → q.link.linkStateSeenActive = false
  lost : q.link.linkProxy = none → q.link.linkLost = false

theorem bare_zeroed : LinkPort.zeroed.Bare where
  seen := fun _ => rfl
  lost := fun _ => rfl

theorem bare_next (he : q.Enabled a) (h : q.Bare) : (LinkPort.next cfg q a).Bare := by
  have hreleased : ∀ l : PortLink, (portLinkRelease l).linkStateSeenActive = false ∧
      (portLinkRelease l).linkLost = false := fun _ => ⟨rfl, rfl⟩
  cases a with
  | enter st c =>
    simp only [LinkPort.next]
    split
    · exact h
    · exact ⟨h.seen, h.lost⟩
  | lookupFailed r => exact ⟨h.seen, h.lost⟩
  | create o =>
    cases o with
    | none => exact ⟨h.seen, h.lost⟩
    | some id => constructor <;> simp [LinkPort.next]
  | resume t =>
    simp only [LinkPort.next]
    split
    · exact ⟨h.seen, h.lost⟩
    · exact ⟨fun _ => (hreleased _).1, fun _ => (hreleased _).2⟩
  | info st i =>
    have hsome : q.link.linkProxy.isSome = true := he
    have hp : (LinkPort.next cfg q (.info st i)).link.linkProxy ≠ none := by
      simpa [LinkPort.next, linkOnInfo_proxy] using Option.isSome_iff_ne_none.mp hsome
    exact ⟨fun hnone => absurd hnone hp, fun hnone => absurd hnone hp⟩
  | param st id param =>
    obtain ⟨hp, -, hs⟩ := onParamChanged_frame cfg st q.link id param
    have hl : (onParamChanged cfg st q.link id param).1.linkLost = q.link.linkLost :=
      onParamChanged_linkLost
    constructor
    · simpa [LinkPort.next, hp, hs] using h.seen
    · simpa [LinkPort.next, hp, hl] using h.lost
  | release => exact ⟨fun _ => (hreleased _).1, fun _ => (hreleased _).2⟩

/-- A port without a link, and no call on it, has no link state. -/
theorem unlinked_state {xs : List LinkStep} (h : (portMachine cfg errorCb).Valid .zeroed xs)
    (hp : ((portMachine cfg errorCb).exec .zeroed xs).link.linkProxy = none)
    (hc : ((portMachine cfg errorCb).exec .zeroed xs).call = .idle) :
    ((portMachine cfg errorCb).exec .zeroed xs).link =
      { PortLink.zeroed with
        lossReported := ((portMachine cfg errorCb).exec .zeroed xs).link.lossReported } := by
  have hbare : ((portMachine cfg errorCb).exec .zeroed xs).Bare :=
    Machine.invariant (I := LinkPort.Bare) bare_zeroed (fun _ _ he h => bare_next he h) h
  have htold : ((portMachine cfg errorCb).exec .zeroed xs).Told
      ((portMachine cfg errorCb).outs .zeroed xs) :=
    Machine.history (P := fun ws q => q.Told ws) told_zeroed
      (fun _ _ _ he h => told_next he h) h
  have hwait := htold.wait
  rw [hc, if_neg (by simp)] at hwait
  generalize (portMachine cfg errorCb).exec .zeroed xs = q at *
  obtain ⟨⟨proxy, seen, lost, reported, wait⟩, call, formatted⟩ := q
  have hseen := hbare.seen hp
  have hlost := hbare.lost hp
  simp_all [PortLink.zeroed]

/-! ### The ways a call fails -/

/-- How a call fails: at its checks, at a lookup, without a link, or with one that reports
what it reports until the call stops waiting. -/
inductive LinkFailure
  | refused
  | lookup (r : PwfError)
  | notCreated
  | notNegotiated (id : ℕ) (reports : List (FilterState × PwLinkInfo)) (timedOut : Bool)
  deriving DecidableEq

/-- What happens to the port in the call, past its checks. -/
def LinkFailure.steps : LinkFailure → List LinkStep
  | .refused => []
  | .lookup r => [.lookupFailed r]
  | .notCreated => [.create none]
  | .notNegotiated id reports timedOut =>
    .create (some id) :: reports.map (fun i => .info i.1 i.2) ++ [.resume timedOut]

/-- The call got as far as a link. -/
def LinkFailure.installs : LinkFailure → Bool
  | .notNegotiated _ _ _ => true
  | _ => false

/-- The call happens so, with nothing else in between, and returns an error. -/
structure LinkPort.Fails (cfg : PortConfig) (errorCb : Bool) (q : LinkPort) (st : FilterState)
    (c : Bool) (f : LinkFailure) : Prop where
  valid : (portMachine cfg errorCb).Valid q (.enter st c :: f.steps)
  error : ∃ r, r ≠ .ok ∧
    (((portMachine cfg errorCb).outs q (.enter st c :: f.steps)).getLast? = some (.refused r) ∨
      ((portMachine cfg errorCb).outs q (.enter st c :: f.steps)).getLast? = some (.returned r))

/-- The checks leave the port's link as it is. -/
theorem enter_link {st : FilterState} {c : Bool} :
    (LinkPort.next cfg q (.enter st c)).link = q.link := by
  simp only [LinkPort.next]
  split <;> rfl

/-- A waiting call and its link; no report claims a loss meanwhile. -/
structure LinkPort.Awaits (id : ℕ) (reported : Bool) (q : LinkPort) : Prop where
  proxy : q.link.linkProxy = some id
  lossReported : q.link.lossReported = reported
  wait : q.link.linkWait ≠ none
  call : q.call = .waiting

theorem awaits_info (cfg : PortConfig) {id : ℕ} {reported : Bool} {st : FilterState}
    {i : PwLinkInfo} (h : q.Awaits id reported) :
    (LinkPort.next cfg q (.info st i)).Awaits id reported := by
  refine ⟨?_, ?_, ?_, h.call⟩
  · exact linkOnInfo_proxy.trans h.proxy
  · rcases linkOnInfo_cases st q.link i with
      ⟨-, hi⟩ | ⟨-, -, hi⟩ | ⟨-, -, -, hi⟩ | ⟨-, -, hw, -⟩
    · simpa [LinkPort.next, hi] using h.lossReported
    · simpa [LinkPort.next, hi] using h.lossReported
    · simpa [LinkPort.next, hi] using h.lossReported
    · exact absurd hw h.wait
  · rcases linkOnInfo_cases st q.link i with
      ⟨-, hi⟩ | ⟨-, -, hi⟩ | ⟨-, -, -, hi⟩ | ⟨-, -, hw, -⟩
    · simpa [LinkPort.next, hi] using h.wait
    · simpa [LinkPort.next, hi] using h.wait
    · simp [LinkPort.next, hi]
    · exact absurd hw h.wait

theorem awaits_infos (cfg : PortConfig) (errorCb : Bool) {id : ℕ} {reported : Bool}
    (is : List (FilterState × PwLinkInfo)) (h : q.Awaits id reported) :
    ((portMachine cfg errorCb).exec q (is.map fun i => .info i.1 i.2)).Awaits id reported := by
  induction is generalizing q with
  | nil => exact h
  | cons i is ih => exact ih (awaits_info cfg h)

/-- A call that drops its link leaves none, and a port that reports no loss. -/
theorem resume_failed (cfg : PortConfig) {id : ℕ} {reported t : Bool} (h : q.Awaits id reported)
    (hr : linkResult q.link t ≠ .ok) :
    (LinkPort.next cfg q (.resume t)).link = { PortLink.zeroed with lossReported := true } := by
  simp [LinkPort.next, hr, portLinkRelease, PortLink.zeroed, h.proxy]

/-- What a call that failed at its link leaves. -/
theorem notNegotiated_link {st : FilterState} {c t : Bool} {id : ℕ}
    {is : List (FilterState × PwLinkInfo)}
    (hf : q.Fails cfg errorCb st c (.notNegotiated id is t)) :
    ((portMachine cfg errorCb).exec q (.enter st c ::
      (LinkFailure.notNegotiated id is t).steps)).link =
        { PortLink.zeroed with lossReported := true } := by
  let made : List LinkStep := [.enter st c, .create (some id)]
  have hcreated : ((portMachine cfg errorCb).exec q made).Awaits id q.link.lossReported := by
    have hentered : (LinkPort.next cfg q (.enter st c)).link = q.link := enter_link
    refine ⟨rfl, ?_, by simp [made, portMachine, LinkPort.next], rfl⟩
    change (LinkPort.next cfg q (.enter st c)).link.lossReported = q.link.lossReported
    rw [hentered]
  have hawaits := awaits_infos cfg errorCb is hcreated
  have hsteps : LinkStep.enter st c :: (LinkFailure.notNegotiated id is t).steps =
      (made ++ is.map fun i => .info i.1 i.2) ++ [.resume t] := by
    simp [LinkFailure.steps, made]
  obtain ⟨r, hne, hlast⟩ := hf.error
  rw [hsteps, Machine.outs_append, Machine.exec_append] at hlast
  rw [hsteps, Machine.exec_append, Machine.exec_append]
  refine resume_failed cfg hawaits fun hok => hne ?_
  -- what the call returns is the last that is seen of it
  simp only [Machine.outs_cons, Machine.outs_nil, List.append_nil, portMachine, LinkPort.out,
    ← List.append_assoc, List.getLast?_concat] at hlast
  rcases hlast with hlast | hlast
  · cases hlast
  · rw [← PortOut.returned.inj (Option.some.inj hlast)]
    exact hok

/-- A call that fails before it has a link leaves the port's link alone. -/
theorem not_installed_link {st : FilterState} {c : Bool} {f : LinkFailure}
    (hi : f.installs = false) :
    ((portMachine cfg errorCb).exec q (.enter st c :: f.steps)).link = q.link := by
  cases f with
  | refused | lookup _ | notCreated => exact enter_link
  | notNegotiated _ _ _ => simp [LinkFailure.installs] at hi

/-- An input port is the only one a call links. -/
theorem enter_input {st : FilterState} {c : Bool} (hc : q.call = .idle)
    (h : (LinkPort.next cfg q (.enter st c)).call = .lookup) : cfg.direction = .input := by
  by_contra hd
  simp [LinkPort.next, linkRefusal, hd, hc] at h

/-- The loss of the port's source, told by its format, reaches the error callback. -/
def PortLink.TellsLoss (cfg : PortConfig) (l : PortLink) : Prop :=
  (onParamChanged cfg .running l .format false).2 = true

theorem tellsLoss_iff (hd : cfg.direction = .input) {l : PortLink} :
    l.TellsLoss cfg ↔ l.lossReported = false := by
  cases hr : l.lossReported <;> simp [PortLink.TellsLoss, onParamChanged, hd, claimSourceLoss, hr]

/-- A failed call leaves a port without a link as it was, and as ready to tell the loss of
another source, exactly if it failed before it had a link or the port was muted before. -/
theorem failed_link_restores_iff {xs : List LinkStep} {st : FilterState} {c : Bool}
    {f : LinkFailure} (h : (portMachine cfg errorCb).Valid .zeroed xs)
    (hp : ((portMachine cfg errorCb).exec .zeroed xs).link.linkProxy = none)
    (hf : ((portMachine cfg errorCb).exec .zeroed xs).Fails cfg errorCb st c f) :
    (((portMachine cfg errorCb).exec .zeroed (xs ++ .enter st c :: f.steps)).link =
        ((portMachine cfg errorCb).exec .zeroed xs).link ↔
      f.installs = false ∨ ((portMachine cfg errorCb).exec .zeroed xs).link.lossReported = true) ∧
    ((((portMachine cfg errorCb).exec .zeroed xs).link.TellsLoss cfg →
        ((portMachine cfg errorCb).exec .zeroed (xs ++ .enter st c :: f.steps)).link.TellsLoss
          cfg) ↔
      f.installs = false ∨
        ((portMachine cfg errorCb).exec .zeroed xs).link.lossReported = true) := by
  have hidle : ((portMachine cfg errorCb).exec .zeroed xs).call = .idle := hf.valid.1
  have hstate := unlinked_state h hp hidle
  rw [Machine.exec_append]
  generalize (portMachine cfg errorCb).exec .zeroed xs = q at *
  cases hi : f.installs with
  | false =>
    rw [not_installed_link hi]
    simp
  | true =>
    obtain ⟨id, is, t, rfl⟩ : ∃ id is t, f = .notNegotiated id is t := by
      cases f with
      | notNegotiated id is t => exact ⟨id, is, t, rfl⟩
      | _ => simp [LinkFailure.installs] at hi
    have hd : cfg.direction = .input := enter_input hidle hf.valid.2.1
    rw [notNegotiated_link hf, tellsLoss_iff hd, tellsLoss_iff hd, hstate]
    cases q.link.lossReported <;> simp [PortLink.zeroed]

/-- A port that an external source feeds. -/
def fedPort : List LinkStep := [.param .running .format true]

/-- The target of its link call is not found. -/
theorem failed_link_restores_iff_lookup :
    let q := (portMachine heldInput true).exec .zeroed fedPort
    let after := (portMachine heldInput true).exec .zeroed
      (fedPort ++ .enter .running false :: (LinkFailure.lookup .notFound).steps)
    (after.link = q.link ↔
      (LinkFailure.lookup .notFound).installs = false ∨ q.link.lossReported = true) ∧
    ((q.link.TellsLoss heldInput → after.link.TellsLoss heldInput) ↔
      (LinkFailure.lookup .notFound).installs = false ∨ q.link.lossReported = true) :=
  failed_link_restores_iff (by decide) (by decide)
    ⟨by decide, .notFound, by decide, Or.inr (by decide)⟩

/-- The call gets a link that reports an error. The port is muted, and the loss of its other
source is not told. -/
theorem failed_link_mutes_port :
    let q := (portMachine heldInput true).exec .zeroed fedPort
    let f := LinkFailure.notNegotiated 0 [(.running, ⟨true, .error⟩)] false
    let after := (portMachine heldInput true).exec q (.enter .running false :: f.steps)
    (portMachine heldInput true).Valid .zeroed (fedPort ++ .enter .running false :: f.steps) ∧
      q.link.linkProxy = none ∧ q.Fails heldInput true .running false f ∧
      after.link ≠ q.link ∧
      .errorCallback ∈ LinkPort.out heldInput true q (.param .running .format false) ∧
      .errorCallback ∉ LinkPort.out heldInput true after (.param .running .format false) := by
  refine ⟨by decide, by decide, ⟨by decide, .invalidFormat, by decide, Or.inr (by decide)⟩,
    by decide, by decide, by decide⟩

end TinyPipewire.Filter
