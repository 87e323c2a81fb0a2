import TinyPipewire.Stream.RunningStream

/-!
# When a stream reports its source lost

Three events call the error callback. Two of them go by the stream's state, which a start
writes once it has released the loop lock; the third goes by the links alone.
-/

namespace TinyPipewire.Stream

variable {playback : Bool} {s : Lifecycle} {a : LifeAction} {ws vs : List LifeOut} {id : ℕ}

/-! ### While the stream runs -/

/-- The device a stream is linked to is removed only while the stream runs. -/
def Lifecycle.RemovedRunning (s : Lifecycle) : LifeAction → Prop
  | .nodeRemoved id => s.links = some id → s.errorCb = true → s.state = .running
  | _ => True

instance (s : Lifecycle) : DecidablePred s.RemovedRunning
  | .nodeRemoved _ => inferInstanceAs (Decidable (_ → _ → _))
  | .setErrorCallback _ | .setAutoconnect _ | .setTarget _ _ | .formatEnter _ _ | .destroyOld
  | .oldDestroyed | .connect _ _ | .formatFinish | .startEnter | .activate | .startFinish
  | .stopEnter _ | .pause | .stopFinish | .linkEnter | .linkFailed _ | .linkPublish _
  | .linkDone _ | .unlink | .destroyEnter | .releaseAll | .stateChanged _ | .paramChanged _ _
  | .callbackStop | .callbackStart | .callbackUnlink | .callbackReturn =>
    inferInstanceAs (Decidable True)

theorem loseSource_callback {c c' : ErrorCause} (h : .errorCallback c ∈ (s.loseSource c').2) :
    c = c' ∧ s.state = .running ∧ s.errorCb = true := by
  unfold Lifecycle.loseSource at h
  split at h
  · unfold Lifecycle.reportError at h
    split at h
    · rename_i hrun hcb
      exact ⟨by simpa using h, hrun, hcb⟩
    · simp at h
  · simp at h

/-- The three ways to the error callback. -/
theorem errorCallback_mem {c : ErrorCause} (h : .errorCallback c ∈ (s.step a).2) :
    (∃ new, a = .stateChanged new ∧ c = .stateChanged ∧ s.state = .running) ∨
      (∃ isFormat param, a = .paramChanged isFormat param ∧ c = .formatCleared ∧
        s.state = .running) ∨
      ∃ id, a = .nodeRemoved id ∧ c = .deviceRemoved ∧ s.links = some id ∧ s.errorCb = true := by
  cases a with
  | stateChanged new =>
    simp only [Lifecycle.step, Lifecycle.onStateChanged] at h
    split at h
    · simp at h
    · dsimp only at h
      rcases List.mem_cons.mp h with h | h
      · simp at h
      · split at h
        · obtain ⟨hc, hrun, -⟩ := loseSource_callback h
          exact Or.inl ⟨new, rfl, hc, hrun⟩
        · simp at h
  | paramChanged isFormat param =>
    simp only [Lifecycle.step, Lifecycle.onParamChanged] at h
    split at h
    · simp at h
    · split at h
      · simp at h
      · obtain ⟨hc, hrun, -⟩ := loseSource_callback h
        exact Or.inr (Or.inl ⟨isFormat, param, rfl, hc, hrun⟩)
  | nodeRemoved id =>
    simp only [Lifecycle.step, Lifecycle.onNodeRemoved, Lifecycle.reportError] at h
    split at h
    · simp at h
    · split at h
      · rename_i hlink hcb
        exact Or.inr (Or.inr ⟨id, rfl, by simpa using h, not_not.mp hlink, hcb⟩)
      · simp at h
  | connect created connected =>
    simp only [Lifecycle.step, Lifecycle.connectNew] at h
    split at h
    · split at h
      · simp at h
      · split at h <;> simp at h
    · simp at h
  | pause | oldDestroyed | stopFinish | callbackStop | callbackStart =>
    simp only [Lifecycle.step] at h
    split at h <;> simp at h
  | formatFinish | activate | startFinish => simp [Lifecycle.step] at h
  | _ => exact absurd h (LifeAction.plain.unseen rfl (by simp))

/-- The error callback is called for a stream that does not run. -/
def Lifecycle.ReportsStopped (s : Lifecycle) (a : LifeAction) : Prop :=
  s.state ≠ .running ∧ ∃ c, .errorCallback c ∈ (s.step a).2

theorem reportsStopped_iff : s.ReportsStopped a ↔ ¬ s.RemovedRunning a := by
  constructor
  · rintro ⟨hstopped, c, hc⟩ hremoved
    obtain ⟨new, -, -, hrun⟩ | ⟨isFormat, param, -, -, hrun⟩ | ⟨id, rfl, -, hlink, hcb⟩ :=
      errorCallback_mem hc
    · exact hstopped hrun
    · exact hstopped hrun
    · exact hstopped (hremoved hlink hcb)
  · intro hremoved
    cases a with
    | nodeRemoved id =>
      simp only [Lifecycle.RemovedRunning, Classical.not_imp] at hremoved
      obtain ⟨hlink, hcb, hstopped⟩ := hremoved
      refine ⟨hstopped, .deviceRemoved, ?_⟩
      simp [Lifecycle.step, Lifecycle.onNodeRemoved, Lifecycle.reportError, hlink, hcb]
    | _ => exact absurd trivial hremoved

/-- Through a run the error callback is called only for a running stream exactly if the
linked device is removed only while it runs. -/
theorem error_callback_running_iff {xs : List LifeAction}
    (h : (lifeMachine playback).Valid .init xs) :
    (∀ ys a zs, xs = ys ++ a :: zs → ¬ ((lifeMachine playback).exec .init ys).ReportsStopped a) ↔
      ((lifeMachine playback).restrict Lifecycle.RemovedRunning).Valid .init xs :=
  Machine.never_iff_restrict
    (W := fun ys a => ((lifeMachine playback).exec .init ys).ReportsStopped a)
    (fun _ _ _ _ => reportsStopped_iff) h

/-- A stream that is wired by hand is started and linked to node 7. -/
def linkedStream : List LifeAction :=
  [.setErrorCallback true, .setAutoconnect false, .formatEnter true false, .connect true true,
    .formatFinish, .stateChanged .paused, .startEnter, .activate, .startFinish, .linkEnter,
    .linkPublish 7, .linkDone .ok]

/-- The device of a running stream is removed. -/
theorem error_callback_running_iff_removed :
    let xs := linkedStream ++ [.nodeRemoved 7, .callbackReturn]
    (∀ ys a zs, xs = ys ++ a :: zs → ¬ ((lifeMachine false).exec .init ys).ReportsStopped a) ↔
      ((lifeMachine false).restrict Lifecycle.RemovedRunning).Valid .init xs :=
  error_callback_running_iff (by decide)

/-- A stopped stream keeps its links, and the removal of its device is reported all the
same. -/
theorem stopped_stream_reports_removal :
    let xs := linkedStream ++ [.stopEnter false, .pause, .stopFinish]
    let s := (lifeMachine false).exec .init xs
    (lifeMachine false).Valid .init (xs ++ [.nodeRemoved 7]) ∧ s.state = .stopped ∧
      s.links = some 7 ∧ (s.step (.nodeRemoved 7)).2 = [.errorCallback .deviceRemoved] ∧
      s.ReportsStopped (.nodeRemoved 7) := by
  refine ⟨by decide, by decide, by decide, by decide, by decide, .deviceRemoved, by decide⟩

/-! ### Before and during a start -/

/-- The last change of `pw_stream` `id` was a loss, and no error callback was called for it. -/
def LossUnreported (id : ℕ) (ws : List LifeOut) : Prop :=
  ∃ us old new vs, ws = us ++ .changed id old new :: vs ∧ lostSource old new = true ∧
    (∀ old new, .changed id old new ∉ vs) ∧ vs.head? ≠ some (.errorCallback .stateChanged)

/-- The stream runs, and nobody was told that its `pw_stream` lost its source. -/
def Lifecycle.RunsLost (s : Lifecycle) (ws : List LifeOut) : Prop :=
  s.state = .running ∧ ∃ id, s.pwStream = some id ∧ LossUnreported id ws

/-- No start sets the state after a loss nobody was told of. -/
def Lifecycle.StartsWhole (s : Lifecycle) : LifeAction → Prop
  | .startFinish => s.lossUntold = false
  | .callbackStart => s.formatSet = true → s.pwStream ≠ none → s.lossUntold = false
  | _ => True

instance (s : Lifecycle) : DecidablePred s.StartsWhole
  | .startFinish => inferInstanceAs (Decidable (_ = _))
  | .callbackStart => inferInstanceAs (Decidable (_ → _ ≠ _ → _))
  | .setErrorCallback _ | .setAutoconnect _ | .setTarget _ _ | .formatEnter _ _ | .destroyOld
  | .oldDestroyed | .connect _ _ | .formatFinish | .startEnter | .activate
  | .stopEnter _ | .pause | .stopFinish | .linkEnter | .linkFailed _ | .linkPublish _
  | .linkDone _ | .unlink | .destroyEnter | .releaseAll | .stateChanged _ | .paramChanged _ _
  | .nodeRemoved _ | .callbackStop | .callbackUnlink | .callbackReturn =>
    inferInstanceAs (Decidable True)

/-- Observations that are no change of a `pw_stream`, nor a callback for one. -/
def Unrelated (vs : List LifeOut) : Prop :=
  (∀ id old new, .changed id old new ∉ vs) ∧ .errorCallback .stateChanged ∉ vs

theorem lossUnreported_append (hvs : Unrelated vs) :
    LossUnreported id (ws ++ vs) ↔ LossUnreported id ws := by
  constructor
  · rintro ⟨us, old, new, rest, hsplit, hlost, hlast, hhead⟩
    rcases List.append_eq_append_iff.mp hsplit with ⟨ts, -, hrest⟩ | ⟨ts, hws, hrest⟩
    · exact absurd (by simp [hrest]) (hvs.1 id old new)
    · cases ts with
      | nil =>
        have hmem : LifeOut.changed id old new ∈ [] ++ vs := by
          rw [← hrest]
          exact List.mem_cons_self
        exact absurd hmem (hvs.1 id old new)
      | cons t ts =>
        obtain ⟨rfl, rfl⟩ := List.cons.inj hrest
        refine ⟨us, old, new, ts, hws, hlost, fun o n hmem => hlast o n (by simp [hmem]), ?_⟩
        cases ts with
        | nil => simp
        | cons t ts => simpa using hhead
  · rintro ⟨us, old, new, rest, rfl, hlost, hlast, hhead⟩
    refine ⟨us, old, new, rest ++ vs, by simp, hlost, ?_, ?_⟩
    · intro o n hmem
      rcases List.mem_append.mp hmem with hmem | hmem
      · exact hlast o n hmem
      · exact hvs.1 id o n hmem
    · cases rest with
      | nil =>
        intro hcb
        exact hvs.2 (List.mem_of_mem_head? hcb)
      | cons t ts => simpa using hhead

/-- The change that was just seen decides. -/
theorem lossUnreported_changed {old new : PwStreamState} {cb : List LifeOut}
    (hcb : ∀ old new, .changed id old new ∉ cb) :
    LossUnreported id (ws ++ .changed id old new :: cb) ↔
      lostSource old new = true ∧ cb.head? ≠ some (.errorCallback .stateChanged) := by
  constructor
  · rintro ⟨us, old', new', rest, hsplit, hlost, hlast, hhead⟩
    rcases List.append_eq_append_iff.mp hsplit with ⟨ts, hus, hrest⟩ | ⟨ts, hws, hrest⟩
    · cases ts with
      | nil =>
        obtain ⟨hw, rfl⟩ := List.cons.inj hrest
        obtain ⟨-, rfl, rfl⟩ := LifeOut.changed.inj hw
        exact ⟨hlost, hhead⟩
      | cons t ts =>
        obtain ⟨-, hcb'⟩ := List.cons.inj hrest
        exact absurd (by simp [hcb']) (hcb old' new')
    · cases ts with
      | nil =>
        obtain ⟨hw, rfl⟩ := List.cons.inj hrest
        obtain ⟨-, rfl, rfl⟩ := LifeOut.changed.inj hw
        exact ⟨hlost, hhead⟩
      | cons t ts =>
        obtain ⟨-, rfl⟩ := List.cons.inj hrest
        exact absurd (by simp) (hlast old new)
  · rintro ⟨hlost, hhead⟩
    exact ⟨ws, old, new, cb, rfl, hlost, hcb, hhead⟩

/-- What leaves the `pw_stream` and its last report alone, or takes the `pw_stream` away. -/
structure Lifecycle.SameReport (s t : Lifecycle) : Prop where
  pwStream : t.pwStream = s.pwStream ∨ t.pwStream = none
  nextStream : s.nextStream ≤ t.nextStream
  lossUntold : t.lossUntold = s.lossUntold

theorem sameReport_reportError {c : ErrorCause} : s.SameReport (s.reportError c).1 := by
  unfold Lifecycle.reportError
  split <;> exact ⟨Or.inl rfl, le_rfl, rfl⟩

theorem sameReport_loseSource {c : ErrorCause} : s.SameReport (s.loseSource c).1 := by
  unfold Lifecycle.loseSource
  split
  · obtain ⟨hp, hn, hl⟩ := sameReport_reportError (s := { s with state := .stopped }) (c := c)
    exact ⟨hp, hn, hl⟩
  · exact ⟨Or.inl rfl, le_rfl, rfl⟩

theorem unrelated_loseSource {c : ErrorCause} (hc : c ≠ .stateChanged) :
    Unrelated (s.loseSource c).2 := by
  unfold Lifecycle.loseSource Lifecycle.reportError
  split
  · split <;> simp [Unrelated, Ne.symm hc]
  · simp [Unrelated]

theorem Lifecycle.Plain.unrelated {r : Lifecycle × List LifeOut} (h : s.Plain r) :
    s.SameReport r.1 ∧ Unrelated r.2 := by
  refine ⟨⟨Or.inl h.pwStream, h.nextStream.ge, h.lossUntold⟩, ?_, ?_⟩
  · intro id old new hmem
    obtain ⟨e, he⟩ := h.outs _ hmem
    simp at he
  · intro hmem
    obtain ⟨e, he⟩ := h.outs _ hmem
    simp at he

/-- Only a report and a connect change what was last reported. -/
theorem step_unrelated (hs : ∀ new, a ≠ .stateChanged new)
    (hc : ∀ created connected, a ≠ .connect created connected) :
    s.SameReport (s.step a).1 ∧ Unrelated (s.step a).2 := by
  cases a with
  | stateChanged new => exact absurd rfl (hs new)
  | connect created connected => exact absurd rfl (hc created connected)
  | paramChanged isFormat param =>
    simp only [Lifecycle.step, Lifecycle.onParamChanged]
    split
    · exact ⟨⟨Or.inl rfl, le_rfl, rfl⟩, by simp [Unrelated]⟩
    · split
      · exact ⟨⟨Or.inl rfl, le_rfl, rfl⟩, by simp [Unrelated]⟩
      · exact ⟨sameReport_loseSource, unrelated_loseSource (by simp)⟩
  | nodeRemoved id =>
    simp only [Lifecycle.step, Lifecycle.onNodeRemoved]
    split
    · exact ⟨⟨Or.inl rfl, le_rfl, rfl⟩, by simp [Unrelated]⟩
    · obtain ⟨hp, hn, hl⟩ := sameReport_reportError (s := { s with links := none })
        (c := .deviceRemoved)
      refine ⟨⟨hp, hn, hl⟩, ?_⟩
      unfold Lifecycle.reportError
      split <;> simp [Unrelated]
  | oldDestroyed =>
    simp only [Lifecycle.step]
    split
    · exact ⟨⟨Or.inr rfl, le_rfl, rfl⟩, by simp [Unrelated]⟩
    · exact ⟨⟨Or.inr rfl, le_rfl, rfl⟩, by simp [Unrelated]⟩
    · exact ⟨⟨Or.inl rfl, le_rfl, rfl⟩, by simp [Unrelated]⟩
  | stopFinish | callbackStop | callbackStart | pause =>
    simp only [Lifecycle.step]
    split <;> exact ⟨⟨Or.inl rfl, le_rfl, rfl⟩, by simp [Unrelated]⟩
  | formatFinish | activate | startFinish =>
    exact ⟨⟨Or.inl rfl, le_rfl, rfl⟩, by simp [Lifecycle.step, Unrelated]⟩
  | _ => exact (step_plain rfl).unrelated

/-- What was last reported of the `pw_stream`, from the history; a start in progress has
one. -/
structure Lifecycle.Noted (ws : List LifeOut) (s : Lifecycle) : Prop where
  older : ∀ id old new, .changed id old new ∈ ws → id < s.nextStream
  current : ∀ id, s.pwStream = some id →
    id < s.nextStream ∧ (s.lossUntold = true ↔ LossUnreported id ws)
  starts : s.call.starts = true → s.pwStream ≠ none

theorem noted_init : Lifecycle.init.Noted [] where
  older := by simp
  current := by simp [Lifecycle.init]
  starts := by simp [Lifecycle.init, LifeCall.starts]

/-- The callback for a report: it is called for a loss, when the stream runs and has one. -/
def Lifecycle.reportOuts (s : Lifecycle) (new : PwStreamState) : List LifeOut :=
  if lostSource s.pwState new = true ∧ s.state = .running ∧ s.errorCb = true then
    [.errorCallback .stateChanged]
  else []

theorem onStateChanged_some (new : PwStreamState) (hp : s.pwStream = some id) :
    (s.onStateChanged new).2 = .changed id s.pwState new :: s.reportOuts new ∧
      (s.onStateChanged new).1.nextStream = s.nextStream ∧
      (s.onStateChanged new).1.lossUntold = (s.noteState new).lossUntold ∧
      (lostSource s.pwState new = true → (s.onStateChanged new).1.state ≠ .running) := by
  by_cases hl : lostSource s.pwState new = true <;> by_cases hr : s.state = .running <;>
    by_cases he : s.errorCb = true <;>
    simp [Lifecycle.onStateChanged, hp, Lifecycle.loseSource, Lifecycle.reportError,
      Lifecycle.noteState, Lifecycle.reportOuts, hl, hr, he]

theorem changed_reportOuts {new old' new' : PwStreamState} {id' : ℕ} :
    .changed id' old' new' ∉ s.reportOuts new := by
  unfold Lifecycle.reportOuts
  split <;> simp

theorem noted_stateChanged {new : PwStreamState} (h : s.Noted ws) :
    (s.step (.stateChanged new)).1.Noted (ws ++ (s.step (.stateChanged new)).2) := by
  simp only [Lifecycle.step]
  cases hp : s.pwStream with
  | none =>
    have hstep : s.onStateChanged new = (s, []) := by simp [Lifecycle.onStateChanged, hp]
    rw [hstep]
    simpa using h
  | some id =>
    obtain ⟨hout, hnext, huntold, -⟩ := onStateChanged_some new hp
    obtain ⟨hcall, hpw, -, -⟩ : s.Keeps (s.onStateChanged new).1 := reported_stateChanged.keeps
    have hid := (h.current id hp).1
    rw [hout]
    refine ⟨?_, ?_, ?_⟩
    · intro id' old' new' hmem
      rw [hnext]
      rcases List.mem_append.mp hmem with hmem | hmem
      · exact h.older id' old' new' hmem
      · rcases List.mem_cons.mp hmem with hmem | hmem
        · obtain ⟨rfl, -, -⟩ := LifeOut.changed.inj hmem
          exact hid
        · exact absurd hmem changed_reportOuts
    · intro id' hid'
      rw [hpw, hp] at hid'
      obtain rfl := Option.some.inj hid'
      refine ⟨by rw [hnext]; exact hid, ?_⟩
      rw [huntold, lossUnreported_changed fun _ _ => changed_reportOuts]
      by_cases hl : lostSource s.pwState new = true <;> by_cases hr : s.state = .running <;>
        by_cases he : s.errorCb = true <;>
        simp [Lifecycle.noteState, Lifecycle.reportOuts, hl, hr, he]
    · rw [hcall, hpw]
      exact h.starts

/-- A new `pw_stream` was not reported of. -/
theorem noted_connectNew {dmabuf created connected : Bool} (h : s.Noted ws) :
    (s.connectNew dmabuf created connected).1.Noted
      (ws ++ (s.connectNew dmabuf created connected).2) := by
  have hfresh : ¬ LossUnreported s.nextStream (ws ++ [.operation (some s.nextStream)]) := by
    rw [lossUnreported_append (by simp [Unrelated])]
    rintro ⟨us, old, new, rest, rfl, -⟩
    exact absurd (h.older s.nextStream old new (by simp)) (lt_irrefl _)
  unfold Lifecycle.connectNew
  split
  · exact ⟨by simpa using h.older, by simp, by simp [LifeCall.starts]⟩
  · split
    · refine ⟨fun id old new hmem => ?_, by simp, by simp [LifeCall.starts]⟩
      exact Nat.lt_succ_of_lt (h.older id old new (by simpa using hmem))
    · refine ⟨fun id old new hmem => ?_, ?_, by simp [LifeCall.starts]⟩
      · exact Nat.lt_succ_of_lt (h.older id old new (by simpa using hmem))
      · intro id hid
        obtain rfl := Option.some.inj hid
        exact ⟨Nat.lt_succ_self _, by simpa using hfresh⟩

/-- A start that is in progress began with a `pw_stream`. -/
theorem starts_next (he : s.Enabled playback a) (h : s.call.starts = true → s.pwStream ≠ none)
    (hs : (s.step a).1.call.starts = true) : (s.step a).1.pwStream ≠ none := by
  cases step_moves he with
  | stays hc hp _ =>
    rw [hp]
    exact h (hc ▸ hs)
  | settles hno _ => simp [hno] at hs
  | starts hready hp _ =>
    rw [hp]
    exact hready.elim h id
  | tearsDown hno _ _ => simp [hno] at hs

theorem noted_next (he : s.Enabled playback a) (h : s.Noted ws) :
    (s.step a).1.Noted (ws ++ (s.step a).2) := by
  by_cases hst : ∃ new, a = .stateChanged new
  · obtain ⟨new, rfl⟩ := hst
    exact noted_stateChanged h
  · by_cases hco : ∃ created connected, a = .connect created connected
    · obtain ⟨created, connected, rfl⟩ := hco
      simp only [Lifecycle.step]
      split
      · exact noted_connectNew h
      · simpa using h
    · obtain ⟨⟨hp, hn, hl⟩, hun⟩ := step_unrelated (s := s) (fun new hn => hst ⟨new, hn⟩)
        (fun created connected hc => hco ⟨created, connected, hc⟩)
      refine ⟨fun id old new hmem => ?_, fun id hid => ?_, starts_next he h.starts⟩
      · rcases List.mem_append.mp hmem with hmem | hmem
        · exact (h.older id old new hmem).trans_le hn
        · exact absurd hmem (hun.1 id old new)
      · have hid' : s.pwStream = some id := by
          rcases hp with hp | hp
          · rwa [← hp]
          · rw [hp] at hid
            simp at hid
        obtain ⟨hlt, hiff⟩ := h.current id hid'
        exact ⟨hlt.trans_le hn, by rw [hl, hiff, lossUnreported_append hun]⟩

theorem running_plain (hrun : (s.step a).1.state = .running) (ha : a.plain = true) :
    s.state = .running := by
  rw [← (step_plain ha).state]
  exact hrun

/-- A stream that runs after an action ran before it, or the action is the end of a start. -/
theorem running_next (hrun : (s.step a).1.state = .running) :
    s.state = .running ∨ a = .startFinish ∨
      (a = .callbackStart ∧ s.formatSet = true ∧ s.pwStream ≠ none) := by
  generalize ht : (s.step a).1 = t at hrun
  cases a with
  | startFinish => exact Or.inr (Or.inl rfl)
  | callbackStart =>
    simp only [Lifecycle.step] at ht
    split at ht <;> subst ht
    · exact Or.inl hrun
    · rename_i hready
      obtain ⟨hf, hp⟩ := not_or.mp hready
      exact Or.inr (Or.inr ⟨rfl, by simpa using hf, hp⟩)
  | stateChanged new =>
    subst ht
    exact Or.inl (reported_stateChanged.keeps.state hrun)
  | paramChanged isFormat param =>
    subst ht
    exact Or.inl (reported_paramChanged.keeps.state hrun)
  | nodeRemoved id =>
    subst ht
    exact Or.inl (reported_nodeRemoved.keeps.state hrun)
  | connect created connected =>
    simp only [Lifecycle.step, Lifecycle.connectNew] at ht
    split at ht
    · split at ht
      · subst ht
        exact Or.inl hrun
      · split at ht <;> subst ht <;> exact Or.inl hrun
    · subst ht
      exact Or.inl hrun
  | callbackStop =>
    simp only [Lifecycle.step] at ht
    split at ht <;> subst ht
    · exact Or.inl hrun
    · simp at hrun
  | formatFinish =>
    subst ht
    simp [Lifecycle.step] at hrun
  | stopFinish =>
    simp only [Lifecycle.step] at ht
    split at ht <;> subst ht <;> simp at hrun
  | oldDestroyed | pause =>
    simp only [Lifecycle.step] at ht
    split at ht <;> subst ht <;> exact Or.inl hrun
  | activate =>
    subst ht
    exact Or.inl hrun
  | _ =>
    subst ht
    exact Or.inl (running_plain hrun rfl)

theorem runsLost_of_untold (h : s.Noted ws) (hrun : s.state = .running) (hp : s.pwStream ≠ none)
    (hl : s.lossUntold = true) : s.RunsLost ws := by
  obtain ⟨id, hid⟩ := Option.ne_none_iff_exists'.mp hp
  exact ⟨hrun, id, hid, (h.current id hid).2.mp hl⟩

/-- An action lets a stream run lost only by ending a start. -/
theorem runsLost_next (h : s.Noted ws) (hq : ¬ s.RunsLost ws) (he : s.Enabled playback a)
    (hw : s.StartsWhole a) : ¬ (s.step a).1.RunsLost (ws ++ (s.step a).2) := by
  rintro ⟨hrun, id, hid, hlost⟩
  have hafter := (noted_next he h).current id hid
  have huntold : (s.step a).1.lossUntold = true := hafter.2.mpr hlost
  by_cases hst : ∃ new, a = .stateChanged new
  · obtain ⟨new, rfl⟩ := hst
    obtain ⟨-, hpw, -, -⟩ : s.Keeps (s.step (.stateChanged new)).1 := reported_stateChanged.keeps
    obtain ⟨-, -, hl, hstop⟩ := onStateChanged_some new (hpw.symm.trans hid)
    have hloss : lostSource s.pwState new = true := by
      have hnote := hl.symm.trans huntold
      simp only [Lifecycle.noteState, Bool.and_eq_true] at hnote
      exact hnote.1
    exact hstop hloss hrun
  · by_cases hco : ∃ created connected, a = .connect created connected
    · obtain ⟨created, connected, rfl⟩ := hco
      have hat := he.atCall
      simp only [Lifecycle.atCall] at hat
      split at hat
      · rename_i dmabuf hc
        cases created <;> cases connected <;>
          simp [Lifecycle.step, hc, Lifecycle.connectNew] at hid huntold
      · simp at hat
    · obtain ⟨⟨hp, -, hl⟩, -⟩ := step_unrelated (s := s) (fun new hn => hst ⟨new, hn⟩)
        (fun created connected hc => hco ⟨created, connected, hc⟩)
      have hpw : s.pwStream ≠ none := by
        rcases hp with hp | hp
        · simp [← hp, hid]
        · simp [hp] at hid
      rw [hl] at huntold
      rcases running_next hrun with hrun | rfl | ⟨rfl, hf, hp'⟩
      · exact hq (runsLost_of_untold h hrun hpw huntold)
      · simp [Lifecycle.StartsWhole, huntold] at hw
      · simp [hw hf hp'] at huntold

theorem quiet_run {xs : List LifeAction}
    (h : ((lifeMachine playback).restrict Lifecycle.StartsWhole).Valid .init xs) :
    ((lifeMachine playback).exec .init xs).Noted ((lifeMachine playback).outs .init xs) ∧
      ¬ ((lifeMachine playback).exec .init xs).RunsLost
        ((lifeMachine playback).outs .init xs) :=
  Machine.history_restrict (P := fun ws s => s.Noted ws ∧ ¬ s.RunsLost ws)
    ⟨noted_init, by simp [Lifecycle.RunsLost, Lifecycle.init]⟩
    (fun _ _ _ he hw h => ⟨noted_next he h.1, runsLost_next h.1 h.2 he hw⟩) h

theorem runsLost_iff (h : s.Noted ws) (hq : ¬ s.RunsLost ws) (he : s.Enabled playback a) :
    ¬ (s.step a).1.RunsLost (ws ++ (s.step a).2) ↔ s.StartsWhole a := by
  constructor
  · intro hafter
    have hnoted := noted_next he h
    cases a with
    | startFinish =>
      have hc : s.call = .started := by simpa [Lifecycle.atCall] using he.atCall
      have hp := h.starts (by simp [hc, LifeCall.starts])
      by_contra hl
      have huntold : s.lossUntold = true := by simpa [Lifecycle.StartsWhole] using hl
      exact hafter (runsLost_of_untold hnoted rfl hp huntold)
    | callbackStart =>
      intro hf hp
      have hstep : (s.step .callbackStart).1 = { s with state := .running } := by
        simp [Lifecycle.step, hf, hp]
      by_contra hl
      rw [hstep] at hafter hnoted
      exact hafter (runsLost_of_untold hnoted rfl hp (by simpa using hl))
    | _ => trivial
  · exact runsLost_next h hq he

/-- Through a run the stream never runs while its `pw_stream` has lost its source and nobody
was told, exactly if no start ends after such a loss. -/
theorem loss_reported_iff {xs : List LifeAction} (h : (lifeMachine playback).Valid .init xs) :
    (∀ ys zs, xs = ys ++ zs →
        ¬ ((lifeMachine playback).exec .init ys).RunsLost
          ((lifeMachine playback).outs .init ys)) ↔
      ((lifeMachine playback).restrict Lifecycle.StartsWhole).Valid .init xs := by
  refine Machine.always_iff_restrict (G := fun ys =>
    ¬ ((lifeMachine playback).exec .init ys).RunsLost ((lifeMachine playback).outs .init ys))
    (by simp [Lifecycle.RunsLost, Lifecycle.init]) ?_ h
  intro ys a hys ha
  obtain ⟨hnoted, hq⟩ := quiet_run hys
  have hiff := runsLost_iff hnoted hq ha
  rw [Machine.outs_append, Machine.exec_append, Machine.outs_cons, Machine.outs_nil,
    List.append_nil]
  exact hiff

/-- The source of a running stream is lost, and the stream is started again. -/
theorem loss_reported_iff_restarted :
    let xs := configuredStream ++ [.startEnter, .activate, .startFinish,
      .stateChanged .streaming, .stateChanged .error, .callbackReturn, .startEnter, .activate,
      .startFinish]
    (∀ ys zs, xs = ys ++ zs →
        ¬ ((lifeMachine false).exec .init ys).RunsLost ((lifeMachine false).outs .init ys)) ↔
      ((lifeMachine false).restrict Lifecycle.StartsWhole).Valid .init xs :=
  loss_reported_iff (by decide)

/-- The source is lost after the start released the loop lock and before it set the state,
or before the start. -/
theorem loss_swallowed_by_start :
    let during := configuredStream ++ [.startEnter, .activate, .stateChanged .streaming,
      .stateChanged .error, .startFinish]
    let before := configuredStream ++ [.stateChanged .unconnected, .startEnter, .activate,
      .startFinish]
    let M := lifeMachine false
    (M.Valid .init during ∧ (M.exec .init during).RunsLost (M.outs .init during)) ∧
      (M.Valid .init before ∧ (M.exec .init before).RunsLost (M.outs .init before)) := by
  refine ⟨⟨by decide, by decide, 0, by decide, ?_⟩, by decide, by decide, 0, by decide, ?_⟩
  · exact ⟨[.operation (some 0), .returned .ok, .changed 0 .unconnected .connecting,
      .changed 0 .connecting .paused, .operation (some 0), .changed 0 .paused .streaming],
      .streaming, .error, [.returned .ok], by decide, rfl, by simp, by simp⟩
  · exact ⟨[.operation (some 0), .returned .ok, .changed 0 .unconnected .connecting,
      .changed 0 .connecting .paused], .paused, .unconnected,
      [.operation (some 0), .returned .ok], by decide, rfl, by simp, by simp⟩

end TinyPipewire.Stream
