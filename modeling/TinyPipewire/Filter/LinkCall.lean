import TinyPipewire.Filter.LossReport

/-!
# What a link call returns

The checks of `pwf_filter_port_link` come before it blocks, and its result is decided on
the loop thread before it is read. In between the filter may stop and the link may be
dropped; a call that neither happens to returns what it says.
-/

namespace TinyPipewire.Filter

open History
open LinkPort (says_of_mem)

variable {n : ℕ} {cfgs : Fin n → PortConfig} {errorCb : Bool} {s : LinkState n}
  {b : LinkAction n} {p q : Fin n} {id : ℕ} {ws : List (Fin n × PortOut)}

/-! ### One action, seen from a port -/

/-- An action leaves a port alone, or is one step of it that leaves the filter's state as it
is, or drops its link. -/
theorem portSteps_cases (cfgs : Fin n → PortConfig) (errorCb : Bool) (s : LinkState n)
    (b : LinkAction n) (p : Fin n) :
    s.portSteps cfgs p b = [] ∨
    (∃ a, s.portSteps cfgs p b = [a] ∧ a ≠ .release ∧
      (LinkState.next cfgs errorCb s b).state = s.state ∧
      ∀ o, a = .create o → ∃ ok, b = .linkCreate p ok ∧
        o = if ok = true then some s.nextProxy else none) ∨
    (s.portSteps cfgs p b = [.release] ∧
      (b = .callbackStop ∨ b = .callbackUnlink p ∨ b = .unlinkRelease p ∨ b = .stopRelease)) := by
  cases b with
  | linkEnter r c | linkLookupFailed r c | linkResume r c | info r c =>
    by_cases hr : r = p
    · exact Or.inr (Or.inl ⟨_, if_pos hr, by simp, rfl, by simp⟩)
    · exact Or.inl (if_neg hr)
  | linkCreate r ok =>
    by_cases hr : r = p
    · subst hr
      refine Or.inr (Or.inl ⟨_, if_pos rfl, by simp, rfl, ?_⟩)
      rintro o ho
      obtain rfl := LinkStep.create.inj ho
      exact ⟨ok, rfl, rfl⟩
    · exact Or.inl (if_neg hr)
  | paramChanged r id param =>
    by_cases hr : r = p
    · exact Or.inr (Or.inl ⟨_, if_pos hr, by simp, rfl, by simp⟩)
    · exact Or.inl (if_neg hr)
  | callbackStop =>
    by_cases hs : s.state = .running
    · exact Or.inr (Or.inr ⟨if_pos hs, Or.inl rfl⟩)
    · exact Or.inl (if_neg hs)
  | callbackUnlink r =>
    by_cases hr : r = p ∧ (cfgs r).direction = .input ∧
        (s.ports r).link.linkProxy.isSome = true
    · exact Or.inr (Or.inr ⟨if_pos hr, by simp [hr.1]⟩)
    · exact Or.inl (if_neg hr)
  | unlinkRelease r =>
    by_cases hr : r = p
    · exact Or.inr (Or.inr ⟨if_pos hr, by simp [hr]⟩)
    · exact Or.inl (if_neg hr)
  | stopRelease => exact Or.inr (Or.inr ⟨rfl, by simp⟩)
  | _ => exact Or.inl rfl

theorem ports_next (errorCb : Bool) {xs : List LinkStep} (h : s.portSteps cfgs p b = xs) :
    (LinkState.next cfgs errorCb s b).ports p =
      (portMachine (cfgs p) errorCb).exec (s.ports p) xs := h ▸ rfl

theorem port_enabled {a : LinkStep} (he : s.Enabled cfgs errorCb b)
    (h : s.portSteps cfgs p b = [a]) : (s.ports p).Enabled a := by
  have hv := he.2.2.2 p
  rw [h] at hv
  exact hv.1

/-- What a port says in an action, it says in a step of it. -/
theorem mem_out {w : PortOut} (h : (p, w) ∈ LinkState.out cfgs errorCb s b) :
    ∃ a, s.portSteps cfgs p b = [a] ∧ w ∈ LinkPort.out (cfgs p) errorCb (s.ports p) a := by
  rw [← mem_portTrace, portTrace_out] at h
  rcases portSteps_cases cfgs errorCb s b p with
    hs | ⟨a, hs, -⟩ | ⟨hs, -⟩
  · simp [hs] at h
  · exact ⟨a, hs, by simpa [hs, portMachine] using h⟩
  · exact ⟨.release, hs, by simpa [hs, portMachine] using h⟩

/-! ### Proxies -/

/-- A proxy a port has after an action it had before, or the action made it. -/
theorem proxy_next
    (h : ((LinkState.next cfgs errorCb s b).ports p).link.linkProxy = some id) :
    (s.ports p).link.linkProxy = some id ∨ (b = .linkCreate p true ∧ id = s.nextProxy) := by
  rcases portSteps_cases cfgs errorCb s b p with
    hs | ⟨a, hs, -, -, hcreate⟩ | ⟨hs, -⟩
  · rw [ports_next errorCb hs] at h
    exact Or.inl h
  · rw [ports_next errorCb hs] at h
    cases a with
    | create o =>
      obtain ⟨ok, rfl, rfl⟩ := hcreate o rfl
      cases ok with
      | false => exact Or.inl h
      | true => exact Or.inr ⟨rfl, (Option.some.inj h).symm⟩
    | enter st c =>
      left
      cases hr : linkRefusal (cfgs p) st (s.ports p).link c <;>
        simpa [portMachine, LinkPort.next, hr] using h
    | lookupFailed r => exact Or.inl h
    | resume t =>
      by_cases hr : linkResult (s.ports p).link t = .ok
      · exact Or.inl (by simpa [portMachine, LinkPort.next, hr] using h)
      · simp [portMachine, LinkPort.next, hr, portLinkRelease] at h
    | info st i => exact Or.inl (linkOnInfo_proxy.symm.trans h)
    | param st id param => exact Or.inl ((onParamChanged_frame ..).1.symm.trans h)
    | release => simp [portMachine, LinkPort.next, portLinkRelease] at h
  · rw [ports_next errorCb hs] at h
    simp [portMachine, LinkPort.next, portLinkRelease] at h

/-- A destroyed proxy was the port's, and the port has none after. -/
theorem released_proxy (h : (p, .released id) ∈ LinkState.out cfgs errorCb s b) :
    (s.ports p).link.linkProxy = some id ∧
      ((LinkState.next cfgs errorCb s b).ports p).link.linkProxy = none := by
  obtain ⟨a, hs, ha⟩ := mem_out h
  rw [ports_next errorCb hs]
  obtain ⟨hid, ⟨t, rfl, hr⟩ | rfl⟩ := released_mem ha
  · exact ⟨hid, by simp [portMachine, LinkPort.next, hr, portLinkRelease]⟩
  · exact ⟨hid, rfl⟩

/-- A port's proxy is its own and was not destroyed. -/
structure LinkState.Live (ws : List (Fin n × PortOut)) (s : LinkState n) : Prop where
  gone : ∀ p id, (p, .released id) ∈ ws → id < s.nextProxy
  made : ∀ p id, (s.ports p).link.linkProxy = some id → id < s.nextProxy
  kept : ∀ p id, (s.ports p).link.linkProxy = some id → ∀ q, (q, .released id) ∉ ws
  own : ∀ p q id, (s.ports p).link.linkProxy = some id →
    (s.ports q).link.linkProxy = some id → p = q

theorem nextProxy_le : s.nextProxy ≤ (LinkState.next cfgs errorCb s b).nextProxy := by
  cases b with
  | linkCreate r ok => cases ok <;> simp [LinkState.next, LinkState.control]
  | callbackStop | stopEnter | unlinkEnter _ | startEnter _ | destroyEnter =>
    simp only [LinkState.next, LinkState.control]
    split <;> exact le_rfl
  | _ => exact le_rfl

theorem live_next (h : s.Live ws) :
    (LinkState.next cfgs errorCb s b).Live (ws ++ LinkState.out cfgs errorCb s b) := by
  have hle : s.nextProxy ≤ (LinkState.next cfgs errorCb s b).nextProxy := nextProxy_le
  have hnew : ∀ {p}, b = .linkCreate p true →
      s.nextProxy < (LinkState.next cfgs errorCb s b).nextProxy := by
    rintro p rfl
    exact Nat.lt_succ_self _
  -- a proxy destroyed by now is older than the ones to come
  have hgone : ∀ q id, (q, .released id) ∈ ws ++ LinkState.out cfgs errorCb s b →
      id < s.nextProxy := by
    intro q id hmem
    rcases List.mem_append.mp hmem with hmem | hmem
    · exact h.gone q id hmem
    · exact h.made q id (released_proxy hmem).1
  constructor
  · intro p id hmem
    exact (hgone p id hmem).trans_le hle
  · intro p id hid
    rcases proxy_next hid with hid | ⟨hb, rfl⟩
    · exact (h.made p id hid).trans_le hle
    · exact hnew hb
  · intro p id hid q hmem
    rcases proxy_next hid with hold | ⟨-, rfl⟩
    · rcases List.mem_append.mp hmem with hmem | hmem
      · exact h.kept p id hold q hmem
      · obtain ⟨hq, hnone⟩ := released_proxy hmem
        obtain rfl := h.own p q id hold hq
        simp [hid] at hnone
    · exact absurd (hgone q _ hmem) (lt_irrefl _)
  · intro p q id hp hq
    rcases proxy_next hp with hp | ⟨hbp, rfl⟩
    · rcases proxy_next hq with hq | ⟨-, rfl⟩
      · exact h.own p q id hp hq
      · exact absurd (h.made p _ hp) (lt_irrefl _)
    · rcases proxy_next hq with hq | ⟨hbq, -⟩
      · exact absurd (h.made q _ hq) (lt_irrefl _)
      · rw [hbp] at hbq
        exact (LinkAction.linkCreate.inj hbq).1

theorem live_init : (LinkState.init n).Live [] := by
  constructor <;> simp [LinkState.init, LinkPort.zeroed, PortLink.zeroed]

/-! ### A call nothing disturbs -/

/-- The port's call waits for nothing more, and will return `PWF_OK`. -/
def LinkPort.Settled (q : LinkPort) : Prop :=
  q.call = .waiting ∧ q.link.linkWait = some ⟨true, .ok⟩

/-- While `p` is being linked: its link is created on a filter that runs, nobody pauses the
filter while the call waits, and nothing drops the link between the report that settles the
call and the call resuming. -/
def LinkState.Undisturbed (p : Fin n) (s : LinkState n) : LinkAction n → Prop
  | .linkCreate r _ => r = p → s.state = .running
  | .callbackStop | .stopRelease => ¬ (s.ports p).Settled
  | .callbackUnlink r | .unlinkRelease r => r = p → ¬ (s.ports p).Settled
  | .stopPause => (s.ports p).call ≠ .waiting
  | _ => True

/-- A waiting call's link is one of a running filter, and is there once the call is settled. -/
structure LinkState.Backed (p : Fin n) (s : LinkState n) : Prop where
  free : (s.ports p).call = .lookup → (s.ports p).link.linkProxy = none
  running : (s.ports p).call = .waiting → (s.ports p).link.linkProxy ≠ none → s.state = .running
  held : (s.ports p).Settled → (s.ports p).link.linkProxy ≠ none

theorem backed_init : (LinkState.init n).Backed p := by
  constructor <;> simp [LinkState.init, LinkPort.zeroed, PortLink.zeroed, LinkPort.Settled]

/-- Only a stop takes the filter out of running. -/
theorem state_next (h : s.state = .running)
    (hn : (LinkState.next cfgs errorCb s b).state ≠ .running) :
    b = .callbackStop ∨ b = .stopPause := by
  cases b with
  | callbackStop => exact Or.inl rfl
  | stopPause => exact Or.inr rfl
  | stopEnter | unlinkEnter _ | startEnter _ | destroyEnter =>
    simp only [LinkState.next, LinkState.control] at hn
    split at hn <;> exact absurd h hn
  | callbackStart | startFinish => exact absurd rfl hn
  | _ => exact absurd h hn

/-- A call gets past its checks only on a port without a link. -/
theorem linkRefusal_none {cfg : PortConfig} {st : FilterState} {l : PortLink} {c : Bool}
    (h : linkRefusal cfg st l c = none) : l.linkProxy = none := by
  cases hp : l.linkProxy with
  | none => rfl
  | some id =>
    unfold linkRefusal at h
    split at h
    · simp at h
    · split at h
      · simp at h
      · simp [hp] at h

/-- A port's own step, other than dropping its link, keeps a call backed. -/
theorem backed_step {a : LinkStep} {s t : LinkState n} (he : (s.ports p).Enabled a)
    (hne : a ≠ .release) (hcreate : ∀ o, a = .create o → s.state = .running)
    (hport : t.ports p = LinkPort.next (cfgs p) (s.ports p) a) (hstate : t.state = s.state)
    (h : s.Backed p) : t.Backed p := by
  cases a with
  | enter st c =>
    have hc : (s.ports p).call = .idle := he
    cases hr : linkRefusal (cfgs p) st (s.ports p).link c with
    | some r =>
      have hsame : t.ports p = s.ports p := by rw [hport]; simp [LinkPort.next, hr]
      constructor <;> simp [hsame, LinkPort.Settled, hc]
    | none =>
      constructor <;>
        simp [hport, LinkPort.next, hr, LinkPort.Settled, linkRefusal_none hr]
  | lookupFailed r => constructor <;> simp [hport, LinkPort.next, LinkPort.Settled]
  | create o =>
    cases o with
    | none => constructor <;> simp [hport, LinkPort.next, LinkPort.Settled]
    | some id =>
      have hs := hcreate (some id) rfl
      constructor <;> simp [hport, LinkPort.next, LinkPort.Settled, hstate, hs]
  | resume w => constructor <;> simp [hport, LinkPort.next, LinkPort.Settled]
  | info st i =>
    have hcall : (t.ports p).call = (s.ports p).call := by rw [hport]; rfl
    have hproxy : (t.ports p).link.linkProxy = (s.ports p).link.linkProxy := by
      rw [hport]
      exact linkOnInfo_proxy
    have hsome : (s.ports p).link.linkProxy ≠ none := by
      intro hnone
      simp [LinkPort.Enabled, hnone] at he
    refine ⟨?_, ?_, ?_⟩
    · rw [hcall, hproxy]
      exact h.free
    · rw [hcall, hproxy, hstate]
      exact h.running
    · rw [hproxy]
      exact fun _ => hsome
  | param st id param =>
    have hcall : (t.ports p).call = (s.ports p).call := by rw [hport]; rfl
    have hlink : (t.ports p).link =
        (onParamChanged (cfgs p) st (s.ports p).link id param).1 := by
      rw [hport]
      rfl
    obtain ⟨hproxy, hwait, -⟩ := onParamChanged_frame (cfgs p) st (s.ports p).link id
      param
    rw [← hlink] at hproxy hwait
    refine ⟨?_, ?_, ?_⟩
    · rw [hcall, hproxy]
      exact h.free
    · rw [hcall, hproxy, hstate]
      exact h.running
    · rw [LinkPort.Settled, hcall, hwait, hproxy]
      exact h.held
  | release => exact absurd rfl hne

theorem backed_next (he : s.Enabled cfgs errorCb b) (hu : s.Undisturbed p b)
    (h : s.Backed p) : (LinkState.next cfgs errorCb s b).Backed p := by
  rcases portSteps_cases cfgs errorCb s b p with
    hs | ⟨a, hs, hne, hstate, hcreate⟩ | ⟨hs, hb⟩
  · have hport := ports_next errorCb hs
    rw [Machine.exec_nil] at hport
    refine ⟨by rw [hport]; exact h.free, ?_, by rw [hport]; exact h.held⟩
    rw [hport]
    intro hwait hproxy
    by_contra hn
    rcases state_next (h.running hwait hproxy) hn with rfl | rfl
    · simp [LinkState.portSteps, h.running hwait hproxy] at hs
    · exact hu hwait
  · have hport := ports_next errorCb hs
    refine backed_step (port_enabled he hs) hne ?_ hport hstate h
    rintro o ho
    obtain ⟨ok, rfl, -⟩ := hcreate o ho
    exact hu rfl
  · have hport := ports_next errorCb hs
    have hsettled : ¬ (s.ports p).Settled := by
      rcases hb with rfl | rfl | rfl | rfl
      · exact hu
      · exact hu rfl
      · exact hu rfl
      · exact hu
    have hcall : ((LinkState.next cfgs errorCb s b).ports p).call = (s.ports p).call := by
      rw [hport]
      rfl
    have hlink : ((LinkState.next cfgs errorCb s b).ports p).link =
        portLinkRelease (s.ports p).link := by
      rw [hport]
      rfl
    refine ⟨fun _ => by rw [hlink]; rfl, fun _ hsome => ?_, fun hset => ?_⟩
    · rw [hlink] at hsome
      exact absurd rfl hsome
    · refine absurd ?_ hsettled
      obtain ⟨hwait, hok⟩ := hset
      rw [hcall] at hwait
      rw [hlink] at hok
      exact ⟨hwait, hok⟩

/-! ### The result -/

theorem told_run {xs : List (LinkAction n)}
    (h : (linkMachine cfgs errorCb).Valid (.init n) xs) (p : Fin n) :
    (((linkMachine cfgs errorCb).exec (.init n) xs).ports p).Told
      (portTrace p ((linkMachine cfgs errorCb).outs (.init n) xs)) := by
  obtain ⟨ys, hv, hexec, houts⟩ := (port_follows cfgs errorCb p).run h
  rw [hexec, houts]
  exact Machine.history (P := fun ws q => q.Told ws) told_zeroed
    (fun _ _ _ he h => told_next he h) hv

theorem live_run {xs : List (LinkAction n)}
    (h : (linkMachine cfgs errorCb).Valid (.init n) xs) :
    ((linkMachine cfgs errorCb).exec (.init n) xs).Live
      ((linkMachine cfgs errorCb).outs (.init n) xs) :=
  Machine.history (P := fun ws s => s.Live ws) live_init (fun _ _ _ _ h => live_next h) h

/-- The step that returns an error is a failed lookup, or a call that gives up its link. -/
theorem returned_error {cfg : PortConfig} {q : LinkPort} {a : LinkStep} {r : PwfError}
    (hr : r ≠ .ok) (h : .returned r ∈ LinkPort.out cfg errorCb q a) :
    (∃ r', a = .lookupFailed r') ∨ a = .create none ∨
      ∃ t, a = .resume t ∧ linkResult q.link t ≠ .ok := by
  rcases says_of_mem h with hfailed | ⟨hnone, -⟩ | ⟨t, ht, hres⟩
  · exact Or.inl ⟨r, hfailed⟩
  · exact Or.inr (Or.inl hnone)
  · exact Or.inr (Or.inr ⟨t, ht, fun hok => hr (hres.symm.trans hok)⟩)

/-- A refused call leaves its port as it was, and was made on a port no call waits for. -/
theorem refused_step {cfg : PortConfig} {q : LinkPort} {a : LinkStep} {r : PwfError}
    (he : q.Enabled a) (h : .refused r ∈ LinkPort.out cfg errorCb q a) :
    LinkPort.next cfg q a = q ∧ q.call = .idle := by
  obtain ⟨st, c, rfl, hr⟩ := says_of_mem h
  exact ⟨by simp [LinkPort.next, hr], he⟩

theorem backed_run {xs : List (LinkAction n)}
    (h : ((linkMachine cfgs errorCb).restrict (LinkState.Undisturbed p)).Valid (.init n) xs) :
    ((linkMachine cfgs errorCb).exec (.init n) xs).Backed p :=
  Machine.invariant (M := (linkMachine cfgs errorCb).restrict (LinkState.Undisturbed p))
    (I := fun s => s.Backed p) backed_init (fun _ _ he h => backed_next he.1 he.2 h) h

theorem link_returns_what_it_says {xs : List (LinkAction n)}
    (h : ((linkMachine cfgs errorCb).restrict (LinkState.Undisturbed p)).Valid (.init n)
      (xs ++ [b])) :
    let M := linkMachine cfgs errorCb
    let s := M.exec (.init n) xs
    let t := M.next s b
    let ws := M.outs (.init n) (xs ++ [b])
    ((p, .returned .ok) ∈ M.out s b → t.state = .running ∧
        (∃ id, (t.ports p).link.linkProxy = some id ∧ ∀ q, (q, .released id) ∉ ws) ∧
        ∃ st, lastReport (portTrace p ws) = some st ∧ st.isUp = true) ∧
      (∀ r, r ≠ .ok → (p, .returned r) ∈ M.out s b →
        (t.ports p).link.linkProxy = none ∧ (t.ports p).link.linkWait = none) ∧
      ∀ r, (p, .refused r) ∈ M.out s b →
        t.ports p = s.ports p ∧ (t.ports p).link.linkWait = none := by
  intro M s t ws
  have hall := Machine.valid_of_restrict h
  obtain ⟨hpast, he, -⟩ := Machine.valid_append.mp hall
  have hbacked : s.Backed p := backed_run (Machine.valid_append.mp h).1
  have htold : (s.ports p).Told (portTrace p (M.outs (.init n) xs)) := told_run hpast p
  have hws : portTrace p ws = portTrace p (M.outs (.init n) xs) ++
      (portMachine (cfgs p) errorCb).outs (s.ports p) (s.portSteps cfgs p b) := by
    rw [← portTrace_out, ← portTrace_append]
    simp [ws, s, M, linkMachine]
  have hexec : M.exec (.init n) (xs ++ [b]) = t := Machine.exec_append
  have hlive : t.Live ws := hexec ▸ live_run hall
  refine ⟨?_, ?_, ?_⟩
  · intro hret
    obtain ⟨a, hs, ha⟩ := mem_out hret
    have hport : t.ports p = LinkPort.next (cfgs p) (s.ports p) a := ports_next errorCb hs
    obtain ⟨w, rfl, hok⟩ : ∃ w, a = .resume w ∧ linkResult (s.ports p).link w = .ok :=
      returned_ok (port_enabled he hs) ha
    have hwait : (s.ports p).call = .waiting := (port_enabled he hs).1
    obtain ⟨hsettled, hup⟩ := linkResult_up hwait htold hok
    have hproxy := hbacked.held ⟨hwait, hsettled⟩
    have hkept : (t.ports p).link.linkProxy = (s.ports p).link.linkProxy := by
      simp [hport, LinkPort.next, hok]
    obtain ⟨id, hid⟩ := Option.ne_none_iff_exists'.mp hproxy
    have hrun := hbacked.running hwait hproxy
    refine ⟨?_, ⟨id, hkept.trans hid, hlive.kept p id (hkept.trans hid)⟩, ?_⟩
    · by_contra hstopped
      rcases state_next hrun hstopped with rfl | rfl
      · simp [LinkState.portSteps, hrun] at hs
      · simp [LinkState.portSteps] at hs
    · rw [hws, hs]
      have hsame : lastReport (portTrace p (M.outs (.init n) xs) ++
          LinkPort.out (cfgs p) errorCb (s.ports p) (.resume w)) =
            lastReport (portTrace p (M.outs (.init n) xs)) :=
        lastReport_other (by simp) (by simp)
      simpa [portMachine, hsame] using hup
  · intro r hr hret
    obtain ⟨a, hs, ha⟩ := mem_out hret
    have hport : t.ports p = LinkPort.next (cfgs p) (s.ports p) a := ports_next errorCb hs
    rw [hport]
    have hlookup : (s.ports p).call = .lookup → (s.ports p).link.linkWait = none := by
      intro hc
      simp [htold.wait, hc]
    rcases returned_error hr ha with ⟨r', rfl⟩ | rfl | ⟨w, rfl, hfail⟩
    · have hc : (s.ports p).call = .lookup := (port_enabled he hs).1
      exact ⟨hbacked.free hc, hlookup hc⟩
    · have hc : (s.ports p).call = .lookup := port_enabled he hs
      exact ⟨hbacked.free hc, hlookup hc⟩
    · simp [LinkPort.next, hfail, portLinkRelease]
  · intro r href
    obtain ⟨a, hs, ha⟩ := mem_out href
    have hport : t.ports p = LinkPort.next (cfgs p) (s.ports p) a := ports_next errorCb hs
    obtain ⟨hsame, hidle⟩ : LinkPort.next (cfgs p) (s.ports p) a = s.ports p ∧
        (s.ports p).call = .idle := refused_step (port_enabled he hs) ha
    rw [hport, hsame]
    exact ⟨rfl, by simp [htold.wait, hidle]⟩

instance (p : Fin n) (s : LinkState n) : DecidablePred (s.Undisturbed p)
  | .linkCreate _ _ => inferInstanceAs (Decidable (_ → _))
  | .callbackStop => inferInstanceAs (Decidable (¬ (_ ∧ _)))
  | .stopRelease => inferInstanceAs (Decidable (¬ (_ ∧ _)))
  | .callbackUnlink _ => inferInstanceAs (Decidable (_ → ¬ (_ ∧ _)))
  | .unlinkRelease _ => inferInstanceAs (Decidable (_ → ¬ (_ ∧ _)))
  | .stopPause => inferInstanceAs (Decidable (_ ≠ _))
  | .linkEnter _ _ | .linkLookupFailed _ _ | .linkResume _ _ | .info _ _ | .paramChanged _ _ _
  | .callbackStart | .callbackReturn | .unlinkEnter _ | .stopEnter | .startEnter _
  | .startFinish | .destroyEnter | .destroyFinish => inferInstanceAs (Decidable True)

/-- Port 1 is linked, and port 0 is being looked up when port 1 loses its source. -/
def secondLinkLost : List (LinkAction 2) :=
  [.startEnter true, .startFinish, .linkEnter 1 false, .linkCreate 1 true,
    .paramChanged 1 .format true, .info 1 ⟨true, .paused⟩, .linkResume 1 false,
    .linkEnter 0 false, .info 1 ⟨true, .error⟩]

/-- The callback lets the filter run, and port 0 is linked. -/
def linkAfterLoss : List (LinkAction 2) :=
  secondLinkLost ++ [.callbackReturn, .linkCreate 0 true, .info 0 ⟨true, .paused⟩]

theorem link_returns_what_it_says_after_loss :
    let M := linkMachine (fun _ : Fin 2 => heldInput) true
    let s := M.exec (.init 2) linkAfterLoss
    let t := M.next s (.linkResume 0 false)
    let ws := M.outs (.init 2) (linkAfterLoss ++ [.linkResume 0 false])
    ((0, .returned .ok) ∈ M.out s (.linkResume 0 false) → t.state = .running ∧
        (∃ id, (t.ports 0).link.linkProxy = some id ∧ ∀ q, (q, .released id) ∉ ws) ∧
        ∃ st, lastReport (portTrace 0 ws) = some st ∧ st.isUp = true) ∧
      (∀ r, r ≠ .ok → (0, .returned r) ∈ M.out s (.linkResume 0 false) →
        (t.ports 0).link.linkProxy = none ∧ (t.ports 0).link.linkWait = none) ∧
      ∀ r, (0, .refused r) ∈ M.out s (.linkResume 0 false) →
        t.ports 0 = s.ports 0 ∧ (t.ports 0).link.linkWait = none :=
  link_returns_what_it_says (by decide)

/-- The callback stops the filter, and port 0 is linked all the same; or port 0's link
negotiates first, and the callback drops it before the call resumes. -/
theorem link_returns_ok_without_link :
    let M := linkMachine (fun _ : Fin 2 => heldInput) true
    let stopped := secondLinkLost ++
      [.callbackStop, .callbackReturn, .linkCreate 0 true, .info 0 ⟨true, .paused⟩]
    let dropped := secondLinkLost ++
      [.callbackReturn, .linkCreate 0 true, .info 0 ⟨true, .paused⟩,
        .paramChanged 1 .format true, .paramChanged 1 .format false, .callbackUnlink 0,
        .callbackReturn]
    (M.Valid (.init 2) (stopped ++ [.linkResume 0 false]) ∧
      (0, .returned .ok) ∈ M.out (M.exec (.init 2) stopped) (.linkResume 0 false) ∧
      (M.exec (.init 2) (stopped ++ [.linkResume 0 false])).state = .stopped) ∧
    (M.Valid (.init 2) (dropped ++ [.linkResume 0 false]) ∧
      (0, .returned .ok) ∈ M.out (M.exec (.init 2) dropped) (.linkResume 0 false) ∧
      ((M.exec (.init 2) (dropped ++ [.linkResume 0 false])).ports 0).link.linkProxy = none ∧
      (0, .released 1) ∈ M.outs (.init 2) dropped) := by
  decide

end TinyPipewire.Filter
