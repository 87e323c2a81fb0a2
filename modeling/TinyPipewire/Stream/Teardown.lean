import TinyPipewire.Stream.SourceLoss

/-!
# Destroying a `pw_stream`

`pw_stream_destroy` may itself report the state and the format it takes away. Both handlers
are told by a flag that the application asked for it: the one for the format by `use_dmabuf`,
which every teardown clears first, the one for the state by `stream->state`, which a format
setter leaves as it was.
-/

namespace TinyPipewire.Stream

variable {playback : Bool} {s : Lifecycle} {a : LifeAction}

/-- `pw_stream_destroy` runs. -/
def LifeCall.dies : LifeCall → Bool
  | .dying _ => true
  | _ => false

theorem LifeCall.hasOld.tearsDown {c : LifeCall} (h : c.hasOld = true) : c.tearsDown = true := by
  cases c <;> simp_all [LifeCall.hasOld, LifeCall.tearsDown]

theorem LifeCall.dies.hasOld {c : LifeCall} (h : c.dies = true) : c.hasOld = true := by
  cases c <;> simp_all [LifeCall.dies, LifeCall.hasOld]

/-! ### The format's flag -/

/-- While a teardown is under way `use_dmabuf` is false, and what is destroyed is there. -/
structure Lifecycle.FlagCleared (s : Lifecycle) : Prop where
  flag : s.call.tearsDown = true → s.useDmabuf = false
  old : s.call.hasOld = true → s.pwStream ≠ none

/-- A step that goes on with the call, the flag and the `pw_stream`. -/
theorem Lifecycle.FlagCleared.keep {t : Lifecycle} (h : s.FlagCleared) (hc : t.call = s.call)
    (hu : t.useDmabuf = s.useDmabuf) (hp : t.pwStream = s.pwStream) : t.FlagCleared where
  flag := by
    rw [hc, hu]
    exact h.flag
  old := by
    rw [hc, hp]
    exact h.old

/-- A step to a call that tears nothing down. -/
theorem flagCleared_of_call {t : Lifecycle} (hc : t.call.tearsDown = false) : t.FlagCleared where
  flag := by simp [hc]
  old := by
    intro hold
    simp [LifeCall.hasOld.tearsDown hold] at hc

theorem flagCleared_next (he : s.Enabled playback a) (h : s.FlagCleared) :
    (s.step a).1.FlagCleared := by
  cases step_moves he with
  | stays hc hp hu => exact h.keep hc hu hp
  | settles _ ht => exact flagCleared_of_call ht
  | starts _ _ ht => exact flagCleared_of_call ht
  | tearsDown _ hflag hold =>
    constructor
    · intro _
      obtain hflag | ⟨hs, hu⟩ := hflag
      · exact hflag
      · rw [hu]
        exact h.flag hs
    · intro ht
      obtain hp | ⟨hs, hp⟩ := hold ht
      · exact hp
      · rw [hp]
        exact h.old hs

theorem flagCleared_run {xs : List LifeAction} (h : (lifeMachine playback).Valid .init xs) :
    ((lifeMachine playback).exec .init xs).FlagCleared :=
  Machine.invariant (I := Lifecycle.FlagCleared) (flagCleared_of_call rfl)
    (fun _ _ he h => flagCleared_next he h) h

/-! ### What is reported meanwhile -/

/-- A `pw_stream` that is being destroyed may report that it is unconnected, from a state
that was connected, and that its format is cleared. -/
def Lifecycle.DestroyReports (s : Lifecycle) : LifeAction → Prop
  | .stateChanged new => new = .unconnected ∧ (s.pwState = .paused ∨ s.pwState = .streaming)
  | .paramChanged isFormat param => isFormat = true ∧ param = false
  | .oldDestroyed => False
  | _ => True

instance (s : Lifecycle) : DecidablePred s.DestroyReports
  | .stateChanged _ => inferInstanceAs (Decidable (_ ∧ (_ ∨ _)))
  | .paramChanged _ _ => inferInstanceAs (Decidable (_ ∧ _))
  | .oldDestroyed => inferInstanceAs (Decidable False)
  | .setErrorCallback _ | .setAutoconnect _ | .setTarget _ _ | .formatEnter _ _ | .destroyOld
  | .connect _ _ | .formatFinish | .startEnter | .activate | .startFinish | .stopEnter _
  | .pause | .stopFinish | .linkEnter | .linkFailed _ | .linkPublish _ | .linkDone _ | .unlink
  | .destroyEnter | .releaseAll | .nodeRemoved _ | .callbackStop | .callbackStart
  | .callbackUnlink | .callbackReturn => inferInstanceAs (Decidable True)

/-- The stream runs, is connected and has an error callback. -/
structure Lifecycle.RunsConnected (s : Lifecycle) : Prop where
  state : s.state = .running
  errorCb : s.errorCb = true
  pwState : s.pwState = .paused ∨ s.pwState = .streaming

instance (s : Lifecycle) : Decidable s.RunsConnected :=
  decidable_of_iff
    (s.state = .running ∧ s.errorCb = true ∧ (s.pwState = .paused ∨ s.pwState = .streaming))
    ⟨fun h => ⟨h.1, h.2.1, h.2.2⟩, fun h => ⟨h.state, h.errorCb, h.pwState⟩⟩

/-- A `pw_stream` is being destroyed and no report of it will reach the application. -/
structure Lifecycle.DiesQuietly (s : Lifecycle) : Prop where
  dies : s.call.dies = true
  flag : s.useDmabuf = false
  unreported : s.inErrorCb = false
  quiet : ¬ s.RunsConnected

/-- While the `pw_stream` is destroyed and no callback runs, the only events are its own. -/
theorem dies_enabled (he : s.Enabled playback a) (hd : s.call.dies = true)
    (hcb : s.inErrorCb = false) (hr : s.DestroyReports a) :
    (a = .stateChanged .unconnected ∧ (s.pwState = .paused ∨ s.pwState = .streaming)) ∨
      a = .paramChanged true false := by
  obtain ⟨dmabuf, hc⟩ : ∃ dmabuf, s.call = .dying dmabuf := by
    cases hcall : s.call with
    | dying dmabuf => exact ⟨dmabuf, rfl⟩
    | _ => simp [hcall, LifeCall.dies] at hd
  have hat := he.atCall
  cases a with
  | stateChanged new =>
    obtain ⟨rfl, hpw⟩ := hr
    exact Or.inl ⟨rfl, hpw⟩
  | paramChanged isFormat param =>
    obtain ⟨rfl, rfl⟩ := hr
    exact Or.inr rfl
  | oldDestroyed => exact hr.elim
  | _ => simp [Lifecycle.atCall, hc, hcb] at hat

/-- A stream that does not run connected hears of the loss and calls nothing. -/
theorem onStateChanged_quiet (hpw : s.pwState = .paused ∨ s.pwState = .streaming)
    (hq : ¬ s.RunsConnected) :
    (s.onStateChanged .unconnected).1.inErrorCb = s.inErrorCb ∧
      ¬ (s.onStateChanged .unconnected).1.RunsConnected ∧
      ∀ c, .errorCallback c ∉ (s.onStateChanged .unconnected).2 := by
  have hlost : lostSource s.pwState .unconnected = true := by
    obtain hp | hp := hpw <;> simp [hp, lostSource]
  unfold Lifecycle.onStateChanged
  split
  · exact ⟨rfl, hq, by simp⟩
  · simp only [hlost, if_true]
    unfold Lifecycle.loseSource
    split
    · rename_i hrun
      have hcb : s.errorCb = false := by
        by_contra hcb
        exact hq ⟨hrun, by simpa using hcb, hpw⟩
      have hnone : ({ s.noteState .unconnected with state := .stopped } : Lifecycle).errorCb ≠
          true := by simp [Lifecycle.noteState, hcb]
      unfold Lifecycle.reportError
      rw [if_neg hnone]
      refine ⟨rfl, ?_, by simp⟩
      intro hconnected
      simpa using hconnected.state
    · refine ⟨rfl, ?_, by simp⟩
      intro hconnected
      simpa [Lifecycle.noteState] using hconnected.pwState

theorem diesQuietly_next (he : s.Enabled playback a) (hr : s.DestroyReports a)
    (h : s.DiesQuietly) :
    (s.step a).1.DiesQuietly ∧ ∀ c, .errorCallback c ∉ (s.step a).2 := by
  obtain ⟨rfl, hpw⟩ | rfl := dies_enabled he h.dies h.unreported hr
  · obtain ⟨hcb, hquiet, hout⟩ := onStateChanged_quiet hpw h.quiet
    have hcall : (s.onStateChanged .unconnected).1.call = s.call :=
      reported_stateChanged.keeps.call
    refine ⟨⟨?_, ?_, hcb.trans h.unreported, hquiet⟩, hout⟩
    · rw [Lifecycle.step, hcall]
      exact h.dies
    · rw [Lifecycle.step, reported_stateChanged.frame]
      exact h.flag
  · -- the format is cleared, and nobody asks
    have hstep : s.step (.paramChanged true false) = (s, []) := by
      simp [Lifecycle.step, Lifecycle.onParamChanged, h.flag]
    rw [hstep]
    exact ⟨h, by simp⟩

theorem diesQuietly_run {ys : List LifeAction}
    (h : ((lifeMachine playback).restrict Lifecycle.DestroyReports).Valid s ys)
    (hs : s.DiesQuietly) (c : ErrorCause) :
    .errorCallback c ∉ (lifeMachine playback).outs s ys := by
  induction ys generalizing s with
  | nil => simp
  | cons a ys ih =>
    obtain ⟨hnext, hout⟩ := diesQuietly_next h.1.1 h.1.2 hs
    rw [Machine.outs_cons, List.mem_append, not_or]
    exact ⟨hout c, ih h.2 hnext⟩

/-- A stream that runs connected is told that it lost its source. -/
theorem runsConnected_reported {id : ℕ} (hid : s.pwStream = some id) (h : s.RunsConnected) :
    .errorCallback .stateChanged ∈ (s.step (.stateChanged .unconnected)).2 := by
  have hlost : lostSource s.pwState .unconnected = true := by
    obtain hp | hp := h.pwState <;> simp [hp, lostSource]
  simp [Lifecycle.step, Lifecycle.onStateChanged, hid, hlost, Lifecycle.loseSource,
    Lifecycle.noteState, h.state, Lifecycle.reportError, h.errorCb]

/-- Where `pw_stream_destroy` begins, nothing it may report reaches the application exactly if
the stream does not run connected. -/
theorem teardown_unreported_iff {xs : List LifeAction}
    (h : (lifeMachine playback).Valid .init (xs ++ [.destroyOld]))
    (hd : ((lifeMachine playback).exec .init (xs ++ [.destroyOld])).call.dies = true) :
    (∀ ys, ((lifeMachine playback).restrict Lifecycle.DestroyReports).Valid
        ((lifeMachine playback).exec .init (xs ++ [.destroyOld])) ys →
      ∀ c, .errorCallback c ∉ (lifeMachine playback).outs
        ((lifeMachine playback).exec .init (xs ++ [.destroyOld])) ys) ↔
      ¬ ((lifeMachine playback).exec .init xs).RunsConnected := by
  have hcleared := flagCleared_run h
  obtain ⟨-, hdestroy, -⟩ := Machine.valid_append.mp h
  set s := (lifeMachine playback).exec .init xs with hs
  set t := (lifeMachine playback).exec .init (xs ++ [.destroyOld]) with ht
  have hstep : t = (s.step .destroyOld).1 := by
    rw [ht, Machine.exec_append]
    rfl
  have hsame : t.state = s.state ∧ t.errorCb = s.errorCb ∧ t.pwState = s.pwState ∧
      t.inErrorCb = s.inErrorCb := by
    rw [hstep]
    simp only [Lifecycle.step]
    split <;> exact ⟨rfl, rfl, rfl, rfl⟩
  obtain ⟨hstate, hcb, hpw, hin⟩ := hsame
  have hconnected : t.RunsConnected ↔ s.RunsConnected := by
    constructor
    · exact fun hr => ⟨hstate ▸ hr.state, hcb ▸ hr.errorCb, hpw ▸ hr.pwState⟩
    · exact fun hr => ⟨hstate ▸ hr.state, hcb ▸ hr.errorCb, hpw ▸ hr.pwState⟩
  rw [← hconnected]
  constructor
  · intro hnone hr
    obtain ⟨id, hid⟩ := Option.ne_none_iff_exists'.mp (hcleared.old (LifeCall.dies.hasOld hd))
    refine hnone [.stateChanged .unconnected] ?_ .stateChanged ?_
    · refine ⟨⟨⟨?_, ?_, rfl⟩, rfl, hr.pwState⟩, trivial⟩
      · simp [Lifecycle.atCall, hid]
      · intro _
        rw [hin]
        exact hdestroy.unlocked rfl
    · simpa [lifeMachine] using runsConnected_reported hid hr
  · intro hq ys hys c
    refine diesQuietly_run hys ⟨hd, ?_, ?_, hq⟩ c
    · exact hcleared.flag (LifeCall.hasOld.tearsDown (LifeCall.dies.hasOld hd))
    · rw [hin]
      exact hdestroy.unlocked rfl

/-- A stopped stream gets a new format. -/
theorem teardown_unreported_iff_stopped :
    let xs := startedStream ++ [.stopEnter false, .pause, .stopFinish, .formatEnter true false]
    (∀ ys, ((lifeMachine false).restrict Lifecycle.DestroyReports).Valid
        ((lifeMachine false).exec .init (xs ++ [.destroyOld])) ys →
      ∀ c, .errorCallback c ∉ (lifeMachine false).outs
        ((lifeMachine false).exec .init (xs ++ [.destroyOld])) ys) ↔
      ¬ ((lifeMachine false).exec .init xs).RunsConnected :=
  teardown_unreported_iff (by decide) (by decide)

/-- A running stream gets a new format and is told that its source is lost. -/
theorem reconfigured_stream_reports_loss :
    let xs := startedStream ++ [.formatEnter true false, .destroyOld]
    let s := (lifeMachine false).exec .init xs
    (lifeMachine false).Valid .init (xs ++ [.stateChanged .unconnected]) ∧
      s.call = .dying (some false) ∧ s.DestroyReports (.stateChanged .unconnected) ∧
      .errorCallback .stateChanged ∈ (s.step (.stateChanged .unconnected)).2 := by
  refine ⟨by decide, by decide, by decide, by decide⟩

end TinyPipewire.Stream
