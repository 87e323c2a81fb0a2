import TinyPipewire.Stream.SourceLoss

/-!
# Who wires a stream

A stream is wired by a session manager, which may be given a target, or by the application,
with links of its own. The two exclude each other, and the links are those of the node the
stream has now.
-/

namespace TinyPipewire.Stream

variable {playback : Bool} {s : Lifecycle} {a : LifeAction} {ws : List (Option ℕ)}

/-- The `pw_stream` whose node a new link set joins. -/
def Lifecycle.joins (s : Lifecycle) : LifeAction → List (Option ℕ)
  | .linkPublish _ => [s.pwStream]
  | _ => []

/-- A stream, emitting the `pw_stream`s that are linked. -/
def wireMachine (playback : Bool) : Machine Lifecycle LifeAction (Option ℕ) where
  Enabled := Lifecycle.Enabled playback
  next := fun s a => (s.step a).1
  out := Lifecycle.joins

instance (playback : Bool) (s : Lifecycle) (a : LifeAction) :
    Decidable ((wireMachine playback).Enabled s a) :=
  inferInstanceAs (Decidable (s.Enabled playback a))

/-- The application has the wiring, and the last link set it made is that of the `pw_stream`
the stream has. -/
structure Lifecycle.Wired (s : Lifecycle) (ws : List (Option ℕ)) : Prop where
  manual : s.autoconnect = false
  pwStream : s.pwStream ≠ none
  joined : ws.getLast? = some s.pwStream

/-- The session manager's hint and the application's links are each there in their own mode
only. -/
structure Lifecycle.Routed (s : Lifecycle) (ws : List (Option ℕ)) : Prop where
  target : s.target ≠ none → s.autoconnect = true
  links : s.links ≠ none → s.Wired ws

/-- `pwf_stream_link` refuses the stream as already linked. -/
def Lifecycle.AlreadyLinked (s : Lifecycle) : Prop :=
  s.autoconnect = false ∧ s.links ≠ none

/-- A stream has no links when a format setter has destroyed its `pw_stream`. -/
def Lifecycle.Unlinked (s : Lifecycle) : LifeAction → Prop
  | .oldDestroyed => s.links = none
  | _ => True

instance (s : Lifecycle) : DecidablePred s.Unlinked
  | .oldDestroyed => inferInstanceAs (Decidable (_ = _))
  | .setErrorCallback _ | .setAutoconnect _ | .setTarget _ _ | .formatEnter _ _ | .destroyOld
  | .connect _ _ | .formatFinish | .startEnter | .activate | .startFinish | .stopEnter _
  | .pause | .stopFinish | .linkEnter | .linkFailed _ | .linkPublish _ | .linkDone _ | .unlink
  | .destroyEnter | .releaseAll | .stateChanged _ | .paramChanged _ _ | .nodeRemoved _
  | .callbackStop | .callbackStart | .callbackUnlink | .callbackReturn =>
    inferInstanceAs (Decidable True)

/-- The call has no links, and makes none. -/
def LifeCall.unwired : LifeCall → Bool
  | .reconnecting _ | .tearingDown | .dying none | .gone => true
  | _ => false

/-- What keeps a stream routed. -/
structure Lifecycle.WireInv (ws : List (Option ℕ)) (s : Lifecycle) : Prop where
  routed : s.Routed ws
  linking : s.call = .linking → s.autoconnect = false ∧ s.pwStream ≠ none
  unwired : s.call.unwired = true → s.links = none

theorem wireInv_init : Lifecycle.init.WireInv [] := by
  constructor
  · constructor <;> simp [Lifecycle.init]
  · simp [Lifecycle.init]
  · simp [Lifecycle.init]

/-- A step that leaves the mode and the `pw_stream`, makes no links, and goes on with the call
or to one that neither links nor is without links. -/
theorem Lifecycle.WireInv.keep {t : Lifecycle} (h : s.WireInv ws) (ht : t.target = s.target)
    (ha : t.autoconnect = s.autoconnect) (hp : t.pwStream = s.pwStream)
    (hl : t.links = s.links ∨ t.links = none)
    (hc : t.call = s.call ∨ (t.call ≠ .linking ∧ t.call.unwired = false)) : t.WireInv ws where
  routed := by
    refine ⟨?_, ?_⟩
    · rw [ht, ha]
      exact h.routed.target
    · intro hlinks
      obtain hl | hl := hl
      · have hw := h.routed.links (hl ▸ hlinks)
        exact ⟨ha ▸ hw.manual, hp ▸ hw.pwStream, hp ▸ hw.joined⟩
      · exact absurd hl hlinks
  linking := by
    intro hlinking
    obtain hc | ⟨hc, -⟩ := hc
    · rw [ha, hp]
      exact h.linking (hc ▸ hlinking)
    · exact absurd hlinking hc
  unwired := by
    intro hunwired
    obtain hc | ⟨-, hc⟩ := hc
    · obtain hl | hl := hl
      · rw [hl]
        exact h.unwired (hc ▸ hunwired)
      · exact hl
    · simp [hc] at hunwired

/-- A stream without links, and no link call on it. -/
theorem wireInv_unlinked {t : Lifecycle} (h : s.WireInv ws) (ht : t.target = s.target)
    (ha : t.autoconnect = s.autoconnect) (hl : t.links = none) (hc : t.call ≠ .linking) :
    t.WireInv ws where
  routed := by
    refine ⟨?_, fun hlinks => absurd hl hlinks⟩
    rw [ht, ha]
    exact h.routed.target
  linking := fun hlinking => absurd hlinking hc
  unwired := fun _ => hl

/-- What a report leaves of the mode. -/
structure Lifecycle.SameMode (s t : Lifecycle) : Prop where
  target : t.target = s.target
  autoconnect : t.autoconnect = s.autoconnect
  links : t.links = s.links ∨ t.links = none

theorem Lifecycle.Reported.sameMode {t : Lifecycle} (h : s.Reported t) : s.SameMode t := by
  have hframe := h.frame
  refine ⟨?_, ?_, h.links⟩
  · rw [hframe]
  · rw [hframe]

/-- A report about the source keeps the stream routed. -/
theorem Lifecycle.WireInv.report {t : Lifecycle} (h : s.WireInv ws) (ht : s.Reported t) :
    t.WireInv ws :=
  h.keep ht.sameMode.target ht.sameMode.autoconnect ht.keeps.pwStream ht.sameMode.links
    (Or.inl ht.keeps.call)

theorem wireInv_setAutoconnect {enable : Bool} (h : s.WireInv ws) :
    (s.step (.setAutoconnect enable)).1.WireInv ws := by
  simp only [Lifecycle.step]
  split
  · exact h
  · rename_i hfree
    obtain ⟨hp, htarget⟩ := not_or.mp hfree
    have hp : s.pwStream = none := by simpa using hp
    refine ⟨⟨?_, ?_⟩, ?_, h.unwired⟩
    · intro htargeted
      cases enable with
      | true => rfl
      | false => exact absurd ⟨rfl, Option.isSome_iff_ne_none.mpr htargeted⟩ htarget
    · exact fun hlinks => absurd hp (h.routed.links hlinks).pwStream
    · exact fun hlinking => absurd hp (h.linking hlinking).2

theorem wireInv_setTarget {target : Option String} {copied : Bool} (h : s.WireInv ws) :
    (s.step (.setTarget target copied)).1.WireInv ws := by
  simp only [Lifecycle.step]
  split
  · exact h
  · rename_i hmode
    split
    · exact h
    · refine ⟨⟨?_, ?_⟩, h.linking, h.unwired⟩
      · intro hvalue
        by_contra hauto
        exact hmode ⟨Option.isSome_iff_ne_none.mpr hvalue, by simpa using hauto⟩
      · intro hlinks
        obtain ⟨hmanual, hp, hjoined⟩ := h.routed.links hlinks
        exact ⟨hmanual, hp, hjoined⟩

theorem wireInv_connectNew {dmabuf created connected : Bool} (hl : s.links = none)
    (h : s.WireInv ws) : (s.connectNew dmabuf created connected).1.WireInv ws := by
  unfold Lifecycle.connectNew
  split
  · exact wireInv_unlinked h rfl rfl hl (by simp)
  · split <;> exact wireInv_unlinked h rfl rfl hl (by simp)

/-- A step that makes no links. -/
theorem wireInv_step (he : s.Enabled playback a) (hu : s.Unlinked a)
    (hp : ∀ id, a ≠ .linkPublish id) (h : s.WireInv ws) : (s.step a).1.WireInv ws := by
  have hat := he.atCall
  cases a with
  | stateChanged new => exact h.report reported_stateChanged
  | paramChanged isFormat param => exact h.report reported_paramChanged
  | nodeRemoved id => exact h.report reported_nodeRemoved
  | setAutoconnect enable => exact wireInv_setAutoconnect h
  | setTarget target copied => exact wireInv_setTarget h
  | linkPublish id => exact absurd rfl (hp id)
  | setErrorCallback _ | callbackReturn => exact h.keep rfl rfl rfl (Or.inl rfl) (Or.inl rfl)
  | callbackUnlink => exact h.keep rfl rfl rfl (Or.inr rfl) (Or.inl rfl)
  | unlink =>
    simp only [Lifecycle.step]
    split
    · exact h
    · exact h.keep rfl rfl rfl (Or.inr rfl) (Or.inl rfl)
  | callbackStop | callbackStart =>
    simp only [Lifecycle.step]
    split
    · exact h
    · exact h.keep rfl rfl rfl (Or.inl rfl) (Or.inl rfl)
  | formatEnter valid dmabuf =>
    simp only [Lifecycle.step]
    split
    · exact h
    · split
      · exact h.keep rfl rfl rfl (Or.inl rfl) (Or.inr ⟨by simp, rfl⟩)
      · rename_i hnone
        -- a stream without a `pw_stream` has no links
        have hl : s.links = none := by
          by_contra hl
          exact hnone (Option.isSome_iff_ne_none.mpr (h.routed.links hl).pwStream)
        exact wireInv_unlinked h rfl rfl hl (by simp)
  | destroyOld =>
    simp only [Lifecycle.step]
    split
    · exact h.keep rfl rfl rfl (Or.inl rfl) (Or.inr ⟨by simp, rfl⟩)
    · rename_i hc
      refine wireInv_unlinked h rfl rfl (h.unwired (by simp [hc, LifeCall.unwired])) ?_
      split <;> simp
    · exact h
  | oldDestroyed =>
    have hl : s.links = none := hu
    simp only [Lifecycle.step]
    split
    · exact wireInv_unlinked h rfl rfl hl (by simp)
    · exact wireInv_unlinked h rfl rfl hl (by simp)
    · exact h
  | connect created connected =>
    simp only [Lifecycle.step]
    split
    · rename_i hc
      exact wireInv_connectNew (h.unwired (by simp [hc, LifeCall.unwired])) h
    · exact h
  | startEnter | stopEnter _ =>
    simp only [Lifecycle.step]
    split
    · exact h
    · exact h.keep rfl rfl rfl (Or.inl rfl) (Or.inr ⟨by simp, rfl⟩)
  | linkEnter =>
    simp only [Lifecycle.step]
    split
    · exact h
    · rename_i hok
      have hready : s.autoconnect = false ∧ s.pwStream ≠ none := by
        unfold Lifecycle.linkRefused at hok
        split at hok
        · simp at hok
        · split at hok
          · simp at hok
          · rename_i hauto _
            split at hok
            · simp at hok
            · rename_i hrun
              exact ⟨by simpa using hauto, fun hnone => hrun (Or.inr hnone)⟩
      refine ⟨⟨h.routed.target, fun hlinks => ?_⟩, fun _ => hready, by simp [LifeCall.unwired]⟩
      obtain ⟨hmanual, hp, hjoined⟩ := h.routed.links hlinks
      exact ⟨hmanual, hp, hjoined⟩
  | linkDone r =>
    simp only [Lifecycle.step]
    split
    · exact h.keep rfl rfl rfl (Or.inl rfl) (Or.inr ⟨by simp, rfl⟩)
    · exact h.keep rfl rfl rfl (Or.inr rfl) (Or.inr ⟨by simp, rfl⟩)
  | pause =>
    simp only [Lifecycle.step]
    split
    · exact h.keep rfl rfl rfl (Or.inl rfl) (Or.inr ⟨by simp, rfl⟩)
    · exact h.keep rfl rfl rfl (Or.inl rfl) (Or.inr ⟨by simp, rfl⟩)
    · exact h.keep rfl rfl rfl (Or.inl rfl) (Or.inr ⟨by simp, rfl⟩)
    · exact h
  | stopFinish =>
    simp only [Lifecycle.step]
    split <;> exact h.keep rfl rfl rfl (Or.inl rfl) (Or.inr ⟨by simp, rfl⟩)
  | destroyEnter =>
    refine h.keep rfl rfl rfl (Or.inl rfl) (Or.inr ?_)
    by_cases hrun : s.state = .running <;> simp [Lifecycle.step, hrun, LifeCall.unwired]
  | releaseAll => exact wireInv_unlinked h rfl rfl rfl (by simp [Lifecycle.step])
  | formatFinish | activate | startFinish | linkFailed _ =>
    exact h.keep rfl rfl rfl (Or.inl rfl) (Or.inr ⟨by simp [Lifecycle.step], rfl⟩)

theorem wireInv_next (he : s.Enabled playback a) (hu : s.Unlinked a) (h : s.WireInv ws) :
    (s.step a).1.WireInv (ws ++ s.joins a) := by
  cases a with
  | linkPublish targetNode =>
    have hc : s.call = .linking := by simpa [Lifecycle.atCall] using he.atCall
    obtain ⟨hmanual, hp⟩ := h.linking hc
    refine ⟨⟨h.routed.target, fun _ => ⟨hmanual, hp, ?_⟩⟩, by simp [Lifecycle.step], ?_⟩
    · simp [Lifecycle.joins, Lifecycle.step]
    · simp [Lifecycle.step, LifeCall.unwired]
  | _ =>
    simp only [Lifecycle.joins, List.append_nil]
    exact wireInv_step he hu (by simp) h

theorem wireInv_run {xs : List LifeAction}
    (h : ((wireMachine playback).restrict Lifecycle.Unlinked).Valid .init xs) :
    ((wireMachine playback).exec .init xs).WireInv ((wireMachine playback).outs .init xs) :=
  Machine.history_restrict (P := fun ws s => s.WireInv ws) wireInv_init
    (fun _ _ _ he hu h => wireInv_next he hu h) h

/-- Links that a format setter leaves join a node that is gone. -/
theorem not_routed_of_links (he : s.Enabled playback a) (hu : ¬ s.Unlinked a)
    {vs : List (Option ℕ)} : ¬ (s.step a).1.Routed vs := by
  cases a with
  | oldDestroyed =>
    have hlinks : s.links ≠ none := hu
    have hgone : (s.step .oldDestroyed).1.pwStream = none ∧
        (s.step .oldDestroyed).1.links = s.links := by
      have hat := he.atCall
      simp only [Lifecycle.atCall] at hat
      simp only [Lifecycle.step]
      split
      · exact ⟨rfl, rfl⟩
      · exact ⟨rfl, rfl⟩
      · rename_i hno _
        split at hat
        · rename_i dmabuf hc
          cases dmabuf <;> simp_all
        · simp at hat
    intro hr
    exact (hr.links (hgone.2 ▸ hlinks)).pwStream hgone.1
  | _ => exact absurd trivial hu

/-- Through a run a target is set only with autoconnect, and links are there only without
it and on the node of the present `pw_stream`, exactly if no format setter replaces the
`pw_stream` of a linked stream. Then `pwf_stream_link` refuses as linked only a stream that
is. -/
theorem stream_routed_iff {xs : List LifeAction} (h : (wireMachine playback).Valid .init xs) :
    ((∀ ys zs, xs = ys ++ zs →
        ((wireMachine playback).exec .init ys).Routed ((wireMachine playback).outs .init ys)) ↔
      ((wireMachine playback).restrict Lifecycle.Unlinked).Valid .init xs) ∧
    (((wireMachine playback).restrict Lifecycle.Unlinked).Valid .init xs →
      ∀ ys zs, xs = ys ++ .linkEnter :: zs →
        ((wireMachine playback).exec .init ys).AlreadyLinked →
        ((wireMachine playback).exec .init ys).Wired ((wireMachine playback).outs .init ys)) := by
  constructor
  · refine Machine.always_iff_restrict (M := wireMachine playback) ?_ ?_ h
    · exact wireInv_init.routed
    · intro ys a hys ha
      have hinv := wireInv_run hys
      rw [Machine.outs_append, Machine.exec_append]
      constructor
      · intro hr
        by_contra hu
        exact not_routed_of_links ha hu hr
      · intro hu
        simpa [wireMachine] using (wireInv_next ha hu hinv).routed
  · rintro hC ys zs rfl ⟨-, hlinks⟩
    exact (wireInv_run (Machine.valid_append.mp hC).1).routed.links hlinks

/-- A stream is wired by hand, unlinked, given a new format and wired again. -/
theorem stream_routed_iff_rewired :
    let xs := linkedStream ++ [.unlink, .formatEnter true false, .destroyOld, .oldDestroyed,
      .connect true true, .formatFinish, .startEnter, .activate, .startFinish, .linkEnter,
      .linkPublish 7, .linkDone .ok, .linkEnter]
    ((∀ ys zs, xs = ys ++ zs →
        ((wireMachine false).exec .init ys).Routed ((wireMachine false).outs .init ys)) ↔
      ((wireMachine false).restrict Lifecycle.Unlinked).Valid .init xs) ∧
    (((wireMachine false).restrict Lifecycle.Unlinked).Valid .init xs →
      ∀ ys zs, xs = ys ++ .linkEnter :: zs →
        ((wireMachine false).exec .init ys).AlreadyLinked →
        ((wireMachine false).exec .init ys).Wired ((wireMachine false).outs .init ys)) :=
  stream_routed_iff (by decide)

/-- A linked stream gets a new format. Its links stay those of the first `pw_stream`, and a
link call on the second is refused. -/
theorem reconfigured_stream_keeps_links :
    let xs := linkedStream ++ [.formatEnter true false, .destroyOld, .oldDestroyed,
      .connect true true, .formatFinish, .startEnter, .activate, .startFinish]
    let s := (wireMachine false).exec .init xs
    let ws := (wireMachine false).outs .init xs
    (wireMachine false).Valid .init (xs ++ [.linkEnter]) ∧ s.links = some 7 ∧
      s.pwStream = some 1 ∧ ws = [some 0] ∧ s.AlreadyLinked ∧
      (s.step .linkEnter).2 = [.returned .invalidArg] ∧ ¬ s.Routed ws := by
  refine ⟨by decide, by decide, by decide, by decide, ⟨by decide, by decide⟩, by decide, ?_⟩
  intro hr
  have hjoined := (hr.links (by decide)).joined
  exact absurd hjoined (by decide)

end TinyPipewire.Stream
