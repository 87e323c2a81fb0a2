import TinyPipewire.Stream.LinkLifetime
import TinyPipewire.Stream.Pairing

/-!
# All links or none

A call that returns leaves one link for every pair, each of them up, or no link at all.
What a link knows of itself is what its proxy reported.
-/

namespace TinyPipewire.Stream

/-- The link came up, and did not fail after that. -/
def StandsUp (ws : List RoutingOut) (id : ℕ) : Prop :=
  ∃ us vs st, ws = us ++ .reported id st :: vs ∧ st.isUp = true ∧ .reported id .error ∉ vs

/-- Link `j` has the proxy that was requested for it, and knows what that reported. -/
structure StreamLink.Told (ws : List RoutingOut) (j id : ℕ) (k : StreamLink) : Prop where
  asked : ∃ props, .requested id j props ∈ ws
  up : k.seenActive = true → ∃ st, st.isUp = true ∧ .reported id st ∈ ws
  kept : k.lost = false → .reported id .error ∉ ws

structure LinkMemory.Told (ws : List RoutingOut) (m : LinkMemory) : Prop where
  links : ∀ l set j (k : StreamLink) id, m.sets l = some set → set.links[j]? = some k →
    k.proxy = some id → k.Told ws j id
  early : ∀ id st, .reported id st ∈ ws → id < m.nextProxy

/-- The call, and how many of its links it has counted or seen up; of a failed one, none. -/
def LinkCall.standing : LinkCall → Option (Wiring × ℕ)
  | .wiring c | .waiting c => some (c, c.i)
  | .waited c r => if r = .ok then some (c, c.i + 1) else none
  | .idle | .lookup _ => none

namespace RoutingState

variable (s : RoutingState)

/-- The links the call that made set `l` has behind it are up. -/
def Standing (l : ℕ) : Prop :=
  ∀ c n set j k, s.call.standing = some (c, n) → c.set = l → s.mem.sets l = some set → j < n →
    set.links[j]? = some k → k.seenActive = true ∧ k.lost = false

/-- The call learns of it when this link fails now. -/
def seesLoss (id : ℕ) : Bool :=
  match s.call with
  | .idle | .lookup _ => true
  | .wiring _ => false
  | .waiting c => s.mem.proxies id == some (c.set, c.i)
  | .waited _ r => r != .ok

/-- While a call goes on, no link fails but the one it waits for. -/
def LossSeen : RoutingAction → Prop
  | .info id i => i.stateChanged = true → i.state = .error → s.seesLoss id = true
  | _ => True

instance : DecidablePred s.LossSeen
  | .info id _ => inferInstanceAs (Decidable (_ → _ → s.seesLoss id = true))
  | .linkEnter _ | .linkLookupFailed _ | .awaitOwnPorts _ | .ownPortsTimeout | .listPorts _ _ _
  | .requestLink _ _ _ | .resumeLink _ | .recordLink | .globalRemoved _ | .nodeAdded _
  | .portAdded _ _ _ | .sourceLost | .callbackUnlink | .callbackStop | .callbackStart
  | .callbackReturn | .unlink | .start | .stop => inferInstanceAs (Decidable True)

/-- So it is while the call that made set `l` goes on, from the publishing of the set. -/
def LossSeenIn (l : ℕ) (a : RoutingAction) : Prop :=
  s.call.published.map (·.set) = some l → s.LossSeen a

instance (l : ℕ) : DecidablePred (s.LossSeenIn l) := fun a =>
  inferInstanceAs (Decidable (_ → s.LossSeen a))

/-- How link `j` of set `l` came to be as it is after an action. -/
inductive LinkStep (cfg : StreamConfig) (s : RoutingState) (a : RoutingAction) (l j : ℕ) :
    StreamLink → Prop
  | same {set : LinkSet} {k : StreamLink} (hset : s.mem.sets l = some set)
    (hk : set.links[j]? = some k)
    (hquiet : ∀ id st, .reported id st ∈ (s.step cfg a).2 → s.mem.proxies id ≠ some (l, j)) :
    LinkStep cfg s a l j k
  | blank (hnew : ∀ c n, (s.step cfg a).1.call.standing = some (c, n) → n ≤ j) :
    LinkStep cfg s a l j .zeroed
  | made (props : LinkProps) (hreq : .requested s.mem.nextProxy j props ∈ (s.step cfg a).2)
    (hnew : ∀ c n, (s.step cfg a).1.call.standing = some (c, n) → n ≤ j) :
    LinkStep cfg s a l j ⟨some s.mem.nextProxy, false, false⟩
  | told (id : ℕ) (i : PwLinkInfo) {set : LinkSet} {k : StreamLink} (ha : a = .info id i)
    (hchanged : i.stateChanged = true) (hp : s.mem.proxies id = some (l, j))
    (hset : s.mem.sets l = some set) (hk : set.links[j]? = some k)
    (hout : (s.step cfg a).2 = [.reported id i.state]) :
    LinkStep cfg s a l j (linkOnInfo k i.state)

end RoutingState

section Step

variable {cfg : StreamConfig} {s : RoutingState} {a : RoutingAction} {ws : List RoutingOut}
  {c : Wiring} {set : LinkSet} {k : StreamLink} {l j : ℕ}

/-! ### What a step does to a link -/

theorem releaseLinks_sets {m : LinkMemory} (h : m.releaseLinks.1.sets l = some set) :
    m.sets l = some set := by
  unfold LinkMemory.releaseLinks at h
  split at h
  · exact h
  · rename_i l' hl'
    split at h
    · exact h
    · by_cases hl : l = l'
      · subst hl
        simp [Function.update_self] at h
      · simpa [hl] using h

/-- Only an `info` event makes a report. -/
theorem reported_step {id : ℕ} {st : PwLinkState} (h : .reported id st ∈ (s.step cfg a).2) :
    ∃ i, a = .info id i := by
  have hmay := step_emits h
  cases a with
  | info id' i =>
    obtain rfl : id' = id := by simpa [RoutingAction.emits] using hmay
    exact ⟨i, rfl⟩
  | _ => simp [RoutingAction.emits, RoutingOut.ofRelease, RoutingOut.isFault] at hmay

/-- What is no `info` event leaves a link of an old set as it is. -/
theorem same_step (ha : ∀ id i, a ≠ .info id i) (hset : s.mem.sets l = some set)
    (hk : set.links[j]? = some k) : s.LinkStep cfg a l j k := by
  refine .same hset hk fun id st hmem => ?_
  obtain ⟨i, rfl⟩ := reported_step hmem
  exact (ha id i rfl).elim

theorem getElem?_set_cases {ks : List StreamLink} {i : ℕ} {k' : StreamLink}
    (h : (ks.set i k')[j]? = some k) : (j = i ∧ k = k' ∧ ∃ old, ks[j]? = some old) ∨
      (j ≠ i ∧ ks[j]? = some k) := by
  by_cases hj : i = j
  · subst hj
    have hi : i < ks.length := by
      by_contra hge
      rw [List.getElem?_eq_none (by simpa using hge)] at h
      cases h
    left
    refine ⟨rfl, by simpa [hi] using h.symm, ks[i], List.getElem?_eq_getElem hi⟩
  · exact Or.inr ⟨Ne.symm hj, by simpa [hj] using h⟩

theorem update_sets_cases {sets : ℕ → Option LinkSet} {l' : ℕ} {set' : LinkSet}
    (h : Function.update sets l' (some set') l = some set) :
    (l = l' ∧ set = set') ∨ sets l = some set := by
  by_cases hl : l = l'
  · subst hl
    exact Or.inl ⟨rfl, by simpa using h.symm⟩
  · exact Or.inr (by simpa [hl] using h)

/-- A call that has read its listing has no link yet. -/
theorem standing_listed {o t n : ℕ} {ok : Bool} {c : Wiring}
    (hc : (s.step cfg (.listPorts o t ok)).1.call.standing = some (c, n)) : n = 0 := by
  rcases listed_cases cfg s o t ok with ⟨hcall, -⟩ | ⟨-, d, -, -, hcall, hd, -⟩
  · simp [RoutingState.step, hcall, LinkCall.standing] at hc
  · obtain ⟨rfl, rfl⟩ : d = c ∧ d.i = n := by
      simpa [RoutingState.step, hcall, LinkCall.standing] using hc
    exact hd

theorem linkStep_listPorts {o t : ℕ} {ok : Bool}
    (hset : (s.step cfg (.listPorts o t ok)).1.mem.sets l = some set)
    (hk : set.links[j]? = some k) : s.LinkStep cfg (.listPorts o t ok) l j k := by
  have hold : s.mem.sets l = some set → s.LinkStep cfg (.listPorts o t ok) l j k :=
    fun h => same_step (by simp) h hk
  simp only [RoutingState.step, RoutingState.listed] at hset
  split at hset
  · exact hold hset
  · split at hset
    · exact hold hset
    · rcases update_sets_cases hset with ⟨-, rfl⟩ | hset
      · obtain rfl := List.eq_of_mem_replicate (List.mem_of_getElem? hk)
        exact .blank fun c n hc => (standing_listed hc).trans_le (Nat.zero_le j)
      · exact hold hset

theorem linkStep_requestLink {props created : Bool} {junk : ℕ × ℕ} (hc : s.call = .wiring c)
    (hset : (s.step cfg (.requestLink props created junk)).1.mem.sets l = some set)
    (hk : set.links[j]? = some k) :
    s.LinkStep cfg (.requestLink props created junk) l j k := by
  have hold : ∀ {set'}, s.mem.sets l = some set' → set'.links[j]? = some k →
      s.LinkStep cfg (.requestLink props created junk) l j k :=
    fun h hk => same_step (by simp) h hk
  have hstep : s.step cfg (.requestLink props created junk) =
      s.linkOne cfg c props created junk := by
    simp [RoutingState.step, hc]
  cases hs : s.mem.sets c.set with
  | none =>
    rw [hstep] at hset
    simp only [RoutingState.linkOne, hs] at hset
    exact hold hset hk
  | some set' =>
    cases props with
    | false =>
      rw [hstep] at hset
      simp only [RoutingState.linkOne, hs, if_true] at hset
      exact hold hset hk
    | true =>
      cases created with
      | false =>
        have hset' := hset
        rw [hstep] at hset'
        simp only [RoutingState.linkOne, hs, if_true, Bool.true_eq_false, if_false] at hset'
        rcases update_sets_cases hset' with ⟨rfl, rfl⟩ | hset'
        · rcases getElem?_set_cases hk with ⟨rfl, rfl, -⟩ | ⟨-, hk⟩
          · refine .blank fun d n hd => ?_
            simp [hstep, RoutingState.linkOne, hs, LinkCall.standing] at hd
          · exact hold hs hk
        · exact hold hset' hk
      | true =>
        have hset' := hset
        rw [hstep] at hset'
        simp only [RoutingState.linkOne, hs, Bool.true_eq_false, if_false] at hset'
        rcases update_sets_cases hset' with ⟨rfl, rfl⟩ | hset'
        · rcases getElem?_set_cases hk with ⟨rfl, rfl, -⟩ | ⟨-, hk⟩
          · refine .made (linkProps cfg c.ownNode c.targetNode
              (readPort s.registry c.own c.i junk.1).1
              (readPort s.registry c.peer c.i junk.2).1) ?_ fun d n hd => ?_
            · simp [hstep, RoutingState.linkOne, hs]
            · obtain ⟨rfl, rfl⟩ : c = d ∧ c.i = n := by
                simpa [hstep, RoutingState.linkOne, hs, LinkCall.standing] using hd
              exact le_rfl
          · exact hold hs hk
        · exact hold hset' hk

theorem linkStep_recordLink {r : PwfError} (hc : s.call = .waited c r)
    (hset : (s.step cfg .recordLink).1.mem.sets l = some set) (hk : set.links[j]? = some k) :
    s.LinkStep cfg .recordLink l j k := by
  have hold : ∀ {set'}, s.mem.sets l = some set' → set'.links[j]? = some k →
      s.LinkStep cfg .recordLink l j k :=
    fun h hk => same_step (by simp) h hk
  simp only [RoutingState.step, hc, RoutingState.recorded] at hset
  split at hset
  · exact hold hset hk
  · rename_i set' hs
    have hcounted : (s.mem.setSet c.set { set' with nLinks := c.i + 1 }).sets l = some set →
        s.LinkStep cfg .recordLink l j k := by
      intro hset
      rcases update_sets_cases hset with ⟨rfl, rfl⟩ | hset
      · exact hold hs hk
      · exact hold hset hk
    split at hset
    · exact hcounted (releaseLinks_sets hset)
    · split at hset
      · exact hcounted hset
      · exact hcounted hset

theorem linkStep_info {id : ℕ} {i : PwLinkInfo}
    (hset : (s.step cfg (.info id i)).1.mem.sets l = some set) (hk : set.links[j]? = some k) :
    s.LinkStep cfg (.info id i) l j k := by
  by_cases hchanged : i.stateChanged = true
  · cases hp : s.mem.proxies id with
    | none =>
      have hstep : s.step cfg (.info id i) = (s, []) := by
        simp [RoutingState.step, RoutingState.informed, hchanged, hp]
      rw [hstep] at hset
      exact .same hset hk fun id' st hmem => by simp [hstep] at hmem
    | some lj =>
      obtain ⟨l', j'⟩ := lj
      cases hs : s.mem.sets l' with
      | none =>
        have hstep : s.step cfg (.info id i) = s.withMemory s.mem.touchFreed := by
          simp [RoutingState.step, RoutingState.informed, hchanged, hp, hs]
        rw [hstep] at hset
        refine .same hset hk fun id' st hmem => ?_
        simp [hstep, RoutingState.withMemory, LinkMemory.touchFreed] at hmem
      | some set' =>
        have hstep : s.step cfg (.info id i) = ({ s with mem := s.mem.setSet l' { set' with
            links := set'.links.set j'
              (linkOnInfo ((set'.links[j']?).getD .zeroed) i.state) } },
            [.reported id i.state]) := by
          simp [RoutingState.step, RoutingState.informed, hchanged, hp, hs]
        have hother : s.mem.proxies id ≠ some (l, j) → ∀ {set''}, s.mem.sets l = some set'' →
            set''.links[j]? = some k → s.LinkStep cfg (.info id i) l j k := by
          intro hne set'' hset hk
          refine .same hset hk fun id' st hmem => ?_
          obtain ⟨rfl, -⟩ : id' = id ∧ st = i.state := by simpa [hstep] using hmem
          exact hne
        have hset' := hset
        rw [hstep] at hset'
        rcases update_sets_cases hset' with ⟨rfl, rfl⟩ | hset'
        · rcases getElem?_set_cases hk with ⟨rfl, rfl, old, hold⟩ | ⟨hj, hk⟩
          · rw [hold]
            exact .told id i rfl hchanged hp hs hold (by rw [hstep])
          · exact hother (by simp [hp, Ne.symm hj]) hs hk
        · by_cases hlj : (l', j') = (l, j)
          · obtain ⟨rfl, rfl⟩ := Prod.mk.inj hlj
            have hsame : (s.step cfg (.info id i)).1.mem.sets l' = some { set' with
                links := set'.links.set j'
                  (linkOnInfo ((set'.links[j']?).getD .zeroed) i.state) } := by
              rw [hstep]
              exact Function.update_self ..
            obtain rfl := Option.some.inj (hsame.symm.trans hset)
            rcases getElem?_set_cases hk with ⟨-, rfl, old, hold⟩ | ⟨hj, -⟩
            · rw [hold]
              exact .told id i rfl hchanged hp hs hold (by rw [hstep])
            · exact absurd rfl hj
          · exact hother (by simpa [hp] using hlj) hset' hk
  · have hstep : s.step cfg (.info id i) = (s, []) := by
      simp [RoutingState.step, RoutingState.informed, hchanged]
    rw [hstep] at hset
    exact .same hset hk fun id' st hmem => by simp [hstep] at hmem

theorem link_step (he : s.Enabled a) (hset : (s.step cfg a).1.mem.sets l = some set)
    (hk : set.links[j]? = some k) : s.LinkStep cfg a l j k := by
  cases a with
  | listPorts o t ok => exact linkStep_listPorts hset hk
  | requestLink props created junk =>
    obtain ⟨c, hc⟩ := RoutingState.requests_call he.2
    exact linkStep_requestLink hc hset hk
  | recordLink =>
    obtain ⟨c, r, hc⟩ := RoutingState.records_call he.2
    exact linkStep_recordLink hc hset hk
  | info id i => exact linkStep_info hset hk
  | linkEnter inCallback =>
    refine same_step (by simp) ?_ hk
    simp only [RoutingState.step] at hset
    split at hset <;> exact hset
  | resumeLink timedOut =>
    refine same_step (by simp) ?_ hk
    obtain ⟨c, hc, -⟩ := RoutingState.resumes_call he.2
    simp only [RoutingState.step, hc, RoutingState.resumed] at hset
    split at hset <;> exact hset
  | globalRemoved id =>
    refine same_step (by simp) ?_ hk
    rcases (globalRemoved_keeps id).2.1 with hm | hm <;> rw [RoutingState.step, hm] at hset
    · exact hset
    · exact releaseLinks_sets hset
  | sourceLost =>
    refine same_step (by simp) ?_ hk
    rwa [RoutingState.step, sourceLost_keeps.2.1] at hset
  | callbackUnlink | unlink => exact same_step (by simp) (releaseLinks_sets hset) hk
  | callbackStop | stop =>
    refine same_step (by simp) ?_ hk
    simp only [RoutingState.step] at hset
    split at hset <;> exact hset
  | linkLookupFailed _ | awaitOwnPorts _ | ownPortsTimeout | nodeAdded _ | portAdded _ _ _
  | callbackStart | callbackReturn | start => exact same_step (by simp) hset hk

/-! ### What the links know -/

theorem nextProxy_step : s.mem.nextProxy ≤ (s.step cfg a).1.mem.nextProxy := by
  have hrel : ∀ m : LinkMemory, m.releaseLinks.1.nextProxy = m.nextProxy := by
    intro m
    unfold LinkMemory.releaseLinks
    split
    · rfl
    · split <;> rfl
  cases a with
  | linkEnter inCallback =>
    simp only [RoutingState.step]
    split <;> exact le_rfl
  | listPorts o t ok =>
    simp only [RoutingState.step, RoutingState.listed]
    split
    · exact le_rfl
    · split <;> exact le_rfl
  | requestLink props created junk =>
    simp only [RoutingState.step]
    split
    · simp only [RoutingState.linkOne]
      split
      · exact le_rfl
      · split
        · exact le_rfl
        · split
          · exact le_rfl
          · exact Nat.le_succ _
    · exact le_rfl
  | resumeLink timedOut =>
    simp only [RoutingState.step]
    split
    · simp only [RoutingState.resumed]
      split <;> exact le_rfl
    · exact le_rfl
  | recordLink =>
    simp only [RoutingState.step]
    split
    · simp only [RoutingState.recorded]
      split
      · exact le_rfl
      · split
        · simp only [hrel]
          exact le_rfl
        · split <;> exact le_rfl
    · exact le_rfl
  | info id i =>
    simp only [RoutingState.step, RoutingState.informed]
    split
    · exact le_rfl
    · split
      · exact le_rfl
      · split <;> exact le_rfl
  | globalRemoved id =>
    rcases (globalRemoved_keeps id).2.1 with hm | hm <;> rw [RoutingState.step, hm]
    exact (hrel _).ge
  | sourceLost => rw [RoutingState.step, sourceLost_keeps.2.1]
  | callbackUnlink | unlink => exact (hrel _).ge
  | callbackStop | stop =>
    simp only [RoutingState.step]
    split <;> exact le_rfl
  | linkLookupFailed _ | awaitOwnPorts _ | ownPortsTimeout | nodeAdded _ | portAdded _ _ _
  | callbackStart | callbackReturn | start => exact le_rfl

/-- What a link knows stays true while its proxy reports nothing. -/
theorem told_append {vs : List RoutingOut} {id : ℕ} (hquiet : ∀ st, .reported id st ∉ vs)
    (h : k.Told ws j id) : k.Told (ws ++ vs) j id where
  asked := by
    obtain ⟨props, hreq⟩ := h.asked
    exact ⟨props, List.mem_append_left _ hreq⟩
  up := fun hup => by
    obtain ⟨st, hst, hmem⟩ := h.up hup
    exact ⟨st, hst, List.mem_append_left _ hmem⟩
  kept := fun hlost hmem => by
    rcases List.mem_append.mp hmem with hmem | hmem
    · exact h.kept hlost hmem
    · exact hquiet _ hmem

theorem told_info {id : ℕ} {st : PwLinkState} (h : k.Told ws j id) :
    (linkOnInfo k st).Told (ws ++ [.reported id st]) j id where
  asked := by
    obtain ⟨props, hreq⟩ := h.asked
    exact ⟨props, List.mem_append_left _ hreq⟩
  up := fun hup => by
    by_cases hst : st.isUp = true
    · exact ⟨st, hst, by simp⟩
    · have hold : k.seenActive = true := linkOnInfo_unseen (by simpa using hst) hup
      obtain ⟨st', hst', hmem⟩ := h.up hold
      exact ⟨st', hst', List.mem_append_left _ hmem⟩
  kept := fun hlost hmem => by
    have hold := linkOnInfo_kept hlost
    rcases List.mem_append.mp hmem with hmem | hmem
    · exact h.kept hold.1 hmem
    · have herror : st = .error := by simpa [eq_comm] using hmem
      exact hold.2 herror

theorem told_next (he : s.Enabled a) (hs : s.mem.Sound ws) (h : s.mem.Told ws) :
    (s.step cfg a).1.mem.Told (ws ++ (s.step cfg a).2) := by
  refine ⟨fun l set j k id hset hk hid => ?_, fun id st hmem => ?_⟩
  · cases link_step he hset hk with
    | same hold hkold hquiet =>
      have hp : s.mem.proxies id = some (l, j) := by
        rw [hs.owned]
        simp [LinkMemory.proxyAt, hold, LinkSet.proxyAt, hkold, hid]
      exact told_append (fun st hmem => hquiet id st hmem hp) (h.links l _ j k id hold hkold hid)
    | blank hnew => cases hid
    | made props hreq hnew =>
      obtain rfl : s.mem.nextProxy = id := Option.some.inj hid
      refine ⟨⟨props, List.mem_append_right _ hreq⟩, by simp, fun _ hmem => ?_⟩
      rcases List.mem_append.mp hmem with hmem | hmem
      · exact lt_irrefl _ (h.early _ _ hmem)
      · obtain ⟨i, rfl⟩ := reported_step hmem
        simpa [RoutingAction.emits] using step_emits hreq
    | told id' i ha hchanged hp hold hkold hout =>
      rw [linkOnInfo_proxy] at hid
      have hp' : s.mem.proxies id = some (l, j) := by
        rw [hs.owned]
        simp [LinkMemory.proxyAt, hold, LinkSet.proxyAt, hkold, hid]
      obtain rfl : id' = id := by
        have hat := (hs.owned id' l j).mp hp
        have hat' := (hs.owned id l j).mp hp'
        exact Option.some.inj (hat.symm.trans hat')
      rw [hout]
      exact told_info (h.links l _ j _ id' hold hkold hid)
  · refine lt_of_lt_of_le ?_ nextProxy_step
    rcases List.mem_append.mp hmem with hmem | hmem
    · exact h.early id st hmem
    · obtain ⟨i, rfl⟩ := reported_step hmem
      exact hs.oldProxy id (Option.isSome_iff_ne_none.mp he.2.2)

/-! ### The links a call has behind it -/

theorem standing_published {k : LinkCall} {n : ℕ} (h : k.standing = some (c, n)) :
    k.published = some c := by
  cases k with
  | waited d r =>
    by_cases hr : r = .ok
    · simp only [LinkCall.standing, if_pos hr, Option.some.injEq, Prod.mk.injEq] at h
      simp [LinkCall.published, h.1]
    · simp [LinkCall.standing, hr] at h
  | wiring d | waiting d =>
    simp only [LinkCall.standing, Option.some.injEq, Prod.mk.injEq] at h
    simp [LinkCall.published, h.1]
  | idle | lookup k => simp [LinkCall.standing] at h

/-- But for a wait that ends, a call has no more links behind it than it had. -/
theorem moves_standing {k k' : LinkCall} {n : ℕ} (ha : ∀ t, a ≠ .resumeLink t)
    (h : LinkCall.Moves a k k') (hc : k'.standing = some (c, n)) :
    ∃ c', k.standing = some (c', n) ∧ c'.set = c.set := by
  cases h with
  | stays => exact ⟨c, hc, rfl⟩
  | ends _ _ hnone => simp [standing_published hc] at hnone
  | requests _ _ _ d =>
    obtain ⟨rfl, rfl⟩ := Prod.mk.inj (Option.some.inj hc)
    exact ⟨d, rfl, rfl⟩
  | fails _ _ _ d hr => simp [LinkCall.standing, hr] at hc
  | resumes t d r => exact (ha t rfl).elim
  | goesOn d hnext =>
    obtain ⟨rfl, rfl⟩ := Prod.mk.inj (Option.some.inj hc)
    exact ⟨d, rfl, rfl⟩

/-- A wait that ends well was for a link that is up. -/
theorem standing_resumed {timedOut : Bool} (he : s.Enabled (.resumeLink timedOut))
    (h : s.Standing l) : (s.step cfg (.resumeLink timedOut)).1.Standing l := by
  obtain ⟨d, hd, hover⟩ := RoutingState.resumes_call he.2
  intro c n set j k hc hl hset hj hk
  cases hs : s.mem.sets d.set with
  | none =>
    have hstep : (s.step cfg (.resumeLink timedOut)).1 =
        { s with mem := s.mem.touchFreed.1 } := by
      simp [RoutingState.step, hd, RoutingState.resumed, hs, RoutingState.withMemory]
    rw [hstep] at hc hset
    exact h c n set j k hc hl hset hj hk
  | some set' =>
    have hstep : (s.step cfg (.resumeLink timedOut)).1 = { s with
        call := .waited d
          (RoutingState.waitResult ((set'.links[d.i]?).getD .zeroed) timedOut) } := by
      simp [RoutingState.step, hd, RoutingState.resumed, hs]
    rw [hstep] at hc hset
    by_cases hok :
        RoutingState.waitResult ((set'.links[d.i]?).getD .zeroed) timedOut = .ok
    · obtain ⟨rfl, rfl⟩ : d = c ∧ d.i + 1 = n := by
        simpa [LinkCall.standing, hok] using hc
      subst hl
      obtain rfl : set' = set := Option.some.inj (hs.symm.trans hset)
      rcases Nat.lt_succ_iff_lt_or_eq.mp hj with hj | rfl
      · exact h d d.i set' j k (by simp [hd, LinkCall.standing]) rfl hs hj hk
      · rw [hk, Option.getD_some] at hok
        cases hlost : k.lost <;> cases timedOut <;>
          simp_all [RoutingState.waitResult, RoutingState.waitOver]
    · simp [LinkCall.standing, hok] at hc

theorem standing_next (he : s.Enabled a) (hseen : s.LossSeenIn l a) (h : s.Standing l) :
    (s.step cfg a).1.Standing l := by
  by_cases hres : ∃ t, a = .resumeLink t
  · obtain ⟨t, rfl⟩ := hres
    exact standing_resumed he h
  · intro c n set j k hc hl hset hj hk
    have hold : ∀ {set k}, s.mem.sets l = some set → set.links[j]? = some k →
        (∃ c' : Wiring, s.call.standing = some (c', n) ∧ c'.set = c.set) →
        k.seenActive = true ∧ k.lost = false := by
      rintro set k hset hk ⟨c', hc', hsame⟩
      exact h c' n set j k hc' (hsame.trans hl) hset hj hk
    have hmoves : (∀ o t ok, a ≠ .listPorts o t ok) →
        ∃ c' : Wiring, s.call.standing = some (c', n) ∧ c'.set = c.set :=
      fun ha => moves_standing (fun t hat => hres ⟨t, hat⟩) (call_moves he ha) hc
    by_cases ha : ∃ o t ok, a = .listPorts o t ok
    · obtain ⟨o, t, ok, rfl⟩ := ha
      have hzero := standing_listed hc
      omega
    · have hbefore := hmoves fun o t ok he => ha ⟨o, t, ok, he⟩
      cases link_step he hset hk with
      | same hset' hk' _ => exact hold hset' hk' hbefore
      | blank hnew => exact absurd hj (not_lt.mpr (hnew c n hc))
      | made props hreq hnew => exact absurd hj (not_lt.mpr (hnew c n hc))
      | told id i hinfo hchanged hp hset' hk' hout =>
        obtain ⟨hup, hlost⟩ := hold hset' hk' hbefore
        have herror : i.state ≠ .error := by
          intro herror
          subst hinfo
          obtain ⟨c', hc', hsame⟩ := hbefore
          have hset : s.call.published.map (·.set) = some l := by
            rw [standing_published hc', Option.map_some, hsame, hl]
          have hsees := hseen hset hchanged herror
          unfold RoutingState.seesLoss at hsees
          cases hcall : s.call with
          | idle | lookup k => simp [hcall, LinkCall.standing] at hc'
          | wiring d => simp [hcall] at hsees
          | waiting d =>
            obtain ⟨rfl, rfl⟩ : d = c' ∧ d.i = n := by
              simpa [hcall, LinkCall.standing] using hc'
            simp only [hcall, hp, beq_iff_eq, Option.some.injEq, Prod.mk.injEq] at hsees
            omega
          | waited d r =>
            have hr : r ≠ .ok := by simpa [hcall] using hsees
            simp [hcall, LinkCall.standing, hr] at hc'
        exact ⟨linkOnInfo_seenActive hup, (linkOnInfo_lost herror).trans hlost⟩

end Step

/-! ### Whole runs -/

variable {cfg : StreamConfig} {s : RoutingState} {a : RoutingAction} {ws : List RoutingOut}

structure RoutingState.Wired (ws : List RoutingOut) (s : RoutingState) : Prop where
  inv : s.Inv ws
  told : s.mem.Told ws
  paired : s.Paired ws

theorem wired_run {xs : List RoutingAction}
    (h : ((routingMachine cfg).restrict RoutingState.LinksKept).Valid .init xs) :
    ((routingMachine cfg).exec .init xs).Wired ((routingMachine cfg).outs .init xs) := by
  refine Machine.history_restrict (P := fun ws s => s.Wired ws) ?_ ?_ h
  · refine ⟨⟨sound_init, callInv_unlinked rfl rfl⟩, ⟨?_, by simp⟩, ?_⟩
    · intro l set j k id hset
      cases hset
    · intro c hc
      cases hc
  · intro ws s a he hk h
    exact ⟨inv_next he hk h.inv, told_next he h.inv.sound h.told, paired_next he h.paired⟩

/-- Where no link behind the call that made set `l` fails unseen, those links are up. -/
theorem standing_run {l : ℕ} {xs : List RoutingAction}
    (h : ((routingMachine cfg).restrict fun s => s.LossSeenIn l).Valid .init xs) :
    ((routingMachine cfg).exec .init xs).Standing l := by
  refine Machine.history_restrict (P := fun _ s => s.Standing l) ?_ ?_ h
  · intro c n set j k hc
    cases hc
  · intro ws s a he hseen h
    exact standing_next he hseen h

theorem standsUp_of_told {k : StreamLink} {j id : ℕ} (h : k.Told ws j id)
    (hup : k.seenActive = true) (hlost : k.lost = false) : StandsUp ws id := by
  obtain ⟨st, hst, hmem⟩ := h.up hup
  obtain ⟨us, vs, rfl⟩ := List.append_of_mem hmem
  exact ⟨us, vs, st, rfl, hst, fun herror => h.kept hlost (by simp [herror])⟩

/-- A call that fails leaves no links. -/
theorem failed_unlinked {r : PwfError} (he : s.Enabled a) (h : s.Inv ws) (hr : r ≠ .ok)
    (hret : .returned r ∈ (s.step cfg a).2) : (s.step cfg a).1.mem.links = none := by
  have hmay := step_emits hret
  have hlookup : ∀ k, s.call = .lookup k → s.mem.links = none := by
    intro k
    exact lookup_unlinked h.call
  cases a with
  | linkLookupFailed r' =>
    obtain ⟨k, hc⟩ := RoutingState.lookupFails_call he.2
    exact hlookup k hc
  | ownPortsTimeout => exact hlookup _ he.2.1
  | listPorts o t ok =>
    simp only [RoutingState.step, RoutingState.listed] at hret ⊢
    split
    · exact hlookup _ he.2.1
    · split
      · exact hlookup _ he.2.1
      · rename_i hok hallocated
        simp [if_neg hok, if_neg hallocated] at hret
  | recordLink =>
    obtain ⟨c, r', hc⟩ := RoutingState.records_call he.2
    obtain ⟨lo, hi, hlinks, set, hset, -⟩ := published_filling h.call
      (by simp [hc, LinkCall.published] : s.call.published = some c)
    have hrel : (s.mem.setSet c.set { set with nLinks := c.i + 1 }).releaseLinks.1.links =
        none := by
      simp [LinkMemory.releaseLinks, LinkMemory.setSet, hlinks]
    simp only [RoutingState.step, hc] at hret ⊢
    obtain ⟨rfl, -, -⟩ := recorded_returned hret
    simpa [RoutingState.recorded, hset, hr] using hrel
  | _ => simp [RoutingAction.emits, RoutingOut.ofRelease, RoutingOut.isFault] at hmay

/-- A refused call leaves everything as it is. -/
theorem refused_same {r : PwfError} (h : .refused r ∈ (s.step cfg a).2) :
    (s.step cfg a).1 = s := by
  have hmay := step_emits h
  cases a with
  | linkEnter inCallback =>
    cases hr : linkRefusal cfg s inCallback <;> simp_all [RoutingState.step]
  | _ => simp [RoutingAction.emits, RoutingOut.ofRelease, RoutingOut.isFault] at hmay

/-- Back from its last link, a call has one for every pair. -/
theorem recorded_all {c : Wiring} (h : s.Wired ws) (hc : s.call = .waited c .ok)
    (hlast : ¬ c.i + 1 < c.pairs) : ∃ p set, lastListing ws = some p ∧
      s.mem.links = some c.set ∧ s.mem.sets c.set = some set ∧ c.i + 1 = p.own.length ∧
      set.links.length = p.own.length ∧ ∀ j < p.own.length, ∃ id props,
        set.proxyAt j = some id ∧ .requested id j props ∈ ws ∧
          (s.Standing c.set → StandsUp ws id) := by
  obtain ⟨p, hp, hpairs⟩ := h.paired c (by simp [hc, LinkCall.published])
  have hcall := h.inv.call
  unfold RoutingState.CallInv at hcall
  rw [hc] at hcall
  obtain ⟨hlinks, set, hset, hfilled⟩ := hcall
  have hcount : c.i + 1 = p.own.length := by
    have hi := hfilled.index
    have hn := hpairs.pairs
    omega
  refine ⟨p, set, hp, hlinks, hset, hcount, hfilled.pairs.trans hpairs.pairs, fun j hj => ?_⟩
  have hmade : j < c.i + 1 := hcount ▸ hj
  obtain ⟨id, hid⟩ := Option.ne_none_iff_exists'.mp (hfilled.made j (by simpa using hmade))
  obtain ⟨k, hk, hproxy⟩ := Option.bind_eq_some_iff.mp hid
  have htold := h.told.links c.set set j k id hset hk hproxy
  obtain ⟨props, hreq⟩ := htold.asked
  refine ⟨id, props, hid, hreq, fun hstanding => ?_⟩
  obtain ⟨hup, hlost⟩ := hstanding c (c.i + 1) set j k (by simp [hc, LinkCall.standing]) rfl
    hset (hcount.symm ▸ hj) hk
  exact standsUp_of_told htold hup hlost

/-- A link that failed and did not come up again does not stand. -/
theorem not_standsUp (us vs : List RoutingOut) {id : ℕ}
    (h : ∀ st, .reported id st ∈ vs → st.isUp = false) :
    ¬ StandsUp (us ++ .reported id .error :: vs) id := by
  rintro ⟨us', vs', st, hsplit, hst, hkept⟩
  rcases List.append_eq_append_iff.mp hsplit with ⟨ts, -, hrest⟩ | ⟨ts, -, hrest⟩
  · cases ts with
    | nil =>
      obtain ⟨-, rfl⟩ := RoutingOut.reported.inj (List.cons.inj hrest).1
      simp [PwLinkState.isUp] at hst
    | cons t ts =>
      have hmem : .reported id st ∈ vs := by simp [(List.cons.inj hrest).2]
      simp [h st hmem] at hst
  · cases ts with
    | nil =>
      obtain ⟨-, rfl⟩ := RoutingOut.reported.inj (List.cons.inj hrest).1
      simp [PwLinkState.isUp] at hst
    | cons t ts => exact hkept (by simp [(List.cons.inj hrest).2])

/-- In every run in which nothing else releases a call's links: a call that returns `PWF_OK` leaves
one link for every pair, all of them up if none behind it failed unseen while it went on; a call
that fails leaves none. -/
theorem all_links_or_none {xs : List RoutingAction}
    (h : ((routingMachine cfg).restrict RoutingState.LinksKept).Valid .init (xs ++ [a])) :
    let M := routingMachine cfg
    let s := M.exec .init xs
    let t := M.next s a
    let ws := M.outs .init (xs ++ [a])
    (.returned .ok ∈ M.out s a → ∃ p l set, lastListing ws = some p ∧ t.mem.links = some l ∧
        t.mem.sets l = some set ∧ set.nLinks = p.own.length ∧
        set.links.length = p.own.length ∧ ∀ j < p.own.length, ∃ id props,
          set.proxyAt j = some id ∧ .requested id j props ∈ ws ∧
            ((M.restrict fun s => s.LossSeenIn l).Valid .init xs → StandsUp ws id)) ∧
      (∀ r, r ≠ .ok → .returned r ∈ M.out s a → t.mem.links = none ∧
        ∀ id i props, .requested id i props ∈ ws → ws.count (.destroyed id) = 1) ∧
      ∀ r, .refused r ∈ M.out s a → t = s := by
  intro M s t ws
  have hs : s.Wired (M.outs .init xs) := wired_run (Machine.valid_append.mp h).1
  have hexec : M.exec .init (xs ++ [a]) = t := Machine.exec_append
  have ht : t.Wired ws := hexec ▸ wired_run h
  have he : s.Enabled a := (Machine.valid_append.mp (Machine.valid_of_restrict h)).2.1
  refine ⟨fun hok => ?_, fun r hr hret => ?_, fun r href => refused_same href⟩
  · obtain ⟨rfl, c, hc, hlast⟩ := (returned_step he hok).2 rfl
    obtain ⟨p, set, hp, hlinks, hset, hcount, hlen, hall⟩ := recorded_all hs hc hlast
    have hnext : t.mem = s.mem.setSet c.set { set with nLinks := c.i + 1 } := by
      simp [t, M, routingMachine, RoutingState.step, hc, RoutingState.recorded, hset, hlast]
    have hws : ∀ w ∈ M.out s .recordLink, ∀ id st, w ≠ .reported id st := by
      rintro w hw id st rfl
      obtain ⟨i, hi⟩ := reported_step hw
      cases hi
    have houts : ws = M.outs .init xs ++ M.out s .recordLink := by simp [ws, s]
    refine ⟨p, c.set, { set with nLinks := c.i + 1 }, ?_, by rw [hnext]; exact hlinks,
      by rw [hnext]; exact Function.update_self .., hcount, hlen, fun j hj => ?_⟩
    · rw [houts]
      exact (lastListing_step (by simp)).trans hp
    · obtain ⟨id, props, hid, hreq, hstands⟩ := hall j hj
      refine ⟨id, props, hid, ?_, fun hseen => ?_⟩
      · rw [houts]
        exact List.mem_append_left _ hreq
      · obtain ⟨us, vs, st, hsplit, hst, hkept⟩ := hstands (standing_run hseen)
        refine ⟨us, vs ++ M.out s .recordLink, st, ?_, hst, ?_⟩
        · rw [houts, hsplit, List.append_assoc, List.cons_append]
        · intro hmem
          rcases List.mem_append.mp hmem with hmem | hmem
          · exact hkept hmem
          · exact hws _ hmem id .error rfl
  · have hnone : t.mem.links = none := failed_unlinked he hs.inv hr hret
    refine ⟨hnone, fun id i props hreq => ?_⟩
    rcases destroyed_or_owned ht.inv (returned_step he hret).1 hreq with hone | hown
    · exact hone
    · obtain ⟨l, set, hl, -⟩ := hown
      simp [hnone] at hl

theorem all_links_or_none_second_times_out :
    let M := routingMachine wiredCapture
    let xs := captureGraph ++ requestFirst ++ firstUp ++
      [.requestLink true true (0, 0), .resumeLink true]
    let s := M.exec .init xs
    let t := M.next s .recordLink
    let ws := M.outs .init (xs ++ [.recordLink])
    (.returned .ok ∈ M.out s .recordLink → ∃ p l set, lastListing ws = some p ∧
        t.mem.links = some l ∧ t.mem.sets l = some set ∧ set.nLinks = p.own.length ∧
        set.links.length = p.own.length ∧ ∀ j < p.own.length, ∃ id props,
          set.proxyAt j = some id ∧ .requested id j props ∈ ws ∧
            ((M.restrict fun s => s.LossSeenIn l).Valid .init xs → StandsUp ws id)) ∧
      (∀ r, r ≠ .ok → .returned r ∈ M.out s .recordLink → t.mem.links = none ∧
        ∀ id i props, .requested id i props ∈ ws → ws.count (.destroyed id) = 1) ∧
      ∀ r, .refused r ∈ M.out s .recordLink → t = s :=
  all_links_or_none (by decide)

/-- The first link fails while the second is waited for: the call returns `PWF_OK` with a
channel dead. -/
theorem linked_with_dead_channel :
    let M := routingMachine wiredCapture
    let xs := captureGraph ++ requestFirst ++ firstUp ++ [.requestLink true true (0, 0),
      .info 0 ⟨true, .error⟩, .info 1 ⟨true, .active⟩, .resumeLink false]
    M.Valid .init (xs ++ [.recordLink]) ∧
      M.out (M.exec .init xs) .recordLink = [.returned .ok] ∧
      (M.exec .init (xs ++ [.recordLink])).mem.proxyAt 0 0 = some 0 ∧
      ¬ StandsUp (M.outs .init (xs ++ [.recordLink])) 0 := by
  refine ⟨by decide, by decide, by decide, ?_⟩
  exact not_standsUp [.listed ⟨10, 20, [12, 11], [21, 22]⟩, .requested 0 0 ⟨20, 21, 10, 12⟩,
    .reported 0 .paused, .requested 1 1 ⟨20, 22, 10, 11⟩]
    [.reported 1 .active, .returned .ok] (by simp)

end TinyPipewire.Stream
