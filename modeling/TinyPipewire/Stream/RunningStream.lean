import TinyPipewire.Stream.Lifecycle

/-!
# A running stream has a `pw_stream`

Stop and destroy go by the stream's state alone. A format setter takes the old `pw_stream`
away before it has a new one, and leaves the state as it was if it gets none.
-/

namespace TinyPipewire.Stream

variable {playback : Bool} {s : Lifecycle} {a : LifeAction}

/-- No format setter is between its `pw_stream`s, and the stream is not destroyed. -/
def Lifecycle.Between (s : Lifecycle) : Prop :=
  (∃ dmabuf, s.call = .reconnecting dmabuf) ∨ s.call = .gone

/-- A stream that runs has a `pw_stream` and a format. -/
def Lifecycle.Backed (s : Lifecycle) : Prop :=
  s.state = .running → ¬ s.Between → s.pwStream ≠ none ∧ s.formatSet = true

/-- No reconnect fails while the stream runs, and the error callback does not stop a running
stream that a format setter took the `pw_stream` from. -/
def Lifecycle.Reconnects (s : Lifecycle) : LifeAction → Prop
  | .connect created connected => s.state = .running → created = true ∧ connected = true
  | .callbackStop => s.state = .running → s.pwStream ≠ none
  | _ => True

instance (s : Lifecycle) : DecidablePred s.Reconnects
  | .connect _ _ => inferInstanceAs (Decidable (_ → _ ∧ _))
  | .callbackStop => inferInstanceAs (Decidable (_ → _ ≠ _))
  | .setErrorCallback _ | .setAutoconnect _ | .setTarget _ _ | .formatEnter _ _ | .destroyOld
  | .oldDestroyed | .formatFinish | .startEnter | .activate | .startFinish | .stopEnter _
  | .pause | .stopFinish | .linkEnter | .linkFailed _ | .linkPublish _ | .linkDone _ | .unlink
  | .destroyEnter | .releaseAll | .stateChanged _ | .paramChanged _ _ | .nodeRemoved _
  | .callbackStart | .callbackUnlink | .callbackReturn => inferInstanceAs (Decidable True)

/-- The call starts, or stops, the `pw_stream`. -/
def LifeCall.operates : LifeCall → Bool
  | .starting | .started | .stopping _ _ | .draining | .paused _ => true
  | _ => false

def LifeCall.starts : LifeCall → Bool
  | .starting | .started => true
  | _ => false

/-- A teardown of the `pw_stream` is under way, its first flag cleared. -/
def LifeCall.tearsDown : LifeCall → Bool
  | .reconfiguring _ | .dying _ | .tearingDown => true
  | _ => false

/-- It is known that there is a `pw_stream` to destroy. -/
def LifeCall.hasOld : LifeCall → Bool
  | .reconfiguring _ | .dying _ => true
  | _ => false

/-- What backs a stream that runs or is about to. -/
structure Lifecycle.Held (s : Lifecycle) : Prop where
  backed : s.Backed
  formatted : s.state = .running → s.formatSet = true
  operated : s.call.operates = true → s.pwStream ≠ none
  starts : s.call.starts = true → s.formatSet = true

theorem held_init : Lifecycle.init.Held := by
  constructor <;> simp [Lifecycle.init, Lifecycle.Backed, LifeCall.operates, LifeCall.starts]

/-- An event that is about the stream's source keeps its call, its `pw_stream` and its
format, and starts no stream. -/
structure Lifecycle.Keeps (s t : Lifecycle) : Prop where
  call : t.call = s.call
  pwStream : t.pwStream = s.pwStream
  formatSet : t.formatSet = s.formatSet
  state : t.state = .running → s.state = .running

theorem Lifecycle.Held.keep {t : Lifecycle} (h : s.Held) (hk : s.Keeps t) : t.Held where
  backed := by
    intro hrun hbetween
    rw [hk.pwStream, hk.formatSet]
    refine h.backed (hk.state hrun) ?_
    rwa [Lifecycle.Between, ← hk.call]
  formatted := by
    intro hrun
    rw [hk.formatSet]
    exact h.formatted (hk.state hrun)
  operated := by
    rw [hk.call, hk.pwStream]
    exact h.operated
  starts := by
    rw [hk.call, hk.formatSet]
    exact h.starts

/-- What a report about the source may change: that the stream runs and has links, what was
last reported, and that the error callback is called. -/
structure Lifecycle.Reported (s t : Lifecycle) : Prop where
  frame : t = { s with
    state := t.state, pwState := t.pwState, lossUntold := t.lossUntold, links := t.links
    inErrorCb := t.inErrorCb }
  state : t.state = .running → s.state = .running
  links : t.links = s.links ∨ t.links = none

theorem Lifecycle.Reported.keeps {t : Lifecycle} (h : s.Reported t) : s.Keeps t := by
  rw [h.frame]
  exact ⟨rfl, rfl, rfl, h.state⟩

theorem reported_reportError {c : ErrorCause} : s.Reported (s.reportError c).1 := by
  unfold Lifecycle.reportError
  split <;> exact ⟨rfl, id, Or.inl rfl⟩

theorem reported_loseSource {c : ErrorCause} : s.Reported (s.loseSource c).1 := by
  unfold Lifecycle.loseSource
  split
  · obtain ⟨hf, hs, hl⟩ := reported_reportError (s := { s with state := .stopped }) (c := c)
    exact ⟨hf, fun hrun => by simpa using hs hrun, hl⟩
  · exact ⟨rfl, id, Or.inl rfl⟩

theorem reported_stateChanged {new : PwStreamState} : s.Reported (s.onStateChanged new).1 := by
  unfold Lifecycle.onStateChanged
  split
  · exact ⟨rfl, id, Or.inl rfl⟩
  · dsimp only
    split
    · obtain ⟨hf, hs, hl⟩ := reported_loseSource (s := s.noteState new) (c := .stateChanged)
      exact ⟨hf, hs, hl⟩
    · exact ⟨rfl, id, Or.inl rfl⟩

theorem reported_paramChanged {isFormat param : Bool} :
    s.Reported (s.onParamChanged isFormat param).1 := by
  unfold Lifecycle.onParamChanged
  split
  · exact ⟨rfl, id, Or.inl rfl⟩
  · split
    · exact ⟨rfl, id, Or.inl rfl⟩
    · exact reported_loseSource

theorem reported_nodeRemoved {id : ℕ} : s.Reported (s.onNodeRemoved id).1 := by
  unfold Lifecycle.onNodeRemoved
  split
  · exact ⟨rfl, fun h => h, Or.inl rfl⟩
  · obtain ⟨hf, hs, hl⟩ := reported_reportError (s := { s with links := none })
      (c := .deviceRemoved)
    exact ⟨hf, hs, Or.inr (hl.elim (fun h => h) fun h => h)⟩

/-- What a step does to the call and its `pw_stream`. -/
inductive Lifecycle.Moves (s t : Lifecycle) : Prop
  | stays (call : t.call = s.call) (pwStream : t.pwStream = s.pwStream)
      (useDmabuf : t.useDmabuf = s.useDmabuf)
  /-- The call it comes to neither starts nor tears down. -/
  | settles (starts : t.call.starts = false) (tearsDown : t.call.tearsDown = false)
  | starts (ready : s.call.starts = true ∨ s.pwStream ≠ none)
      (pwStream : t.pwStream = s.pwStream) (tearsDown : t.call.tearsDown = false)
  /-- A teardown begins, or goes on, with the flag cleared and what there is to destroy. -/
  | tearsDown (starts : t.call.starts = false)
      (flag : t.useDmabuf = false ∨ (s.call.tearsDown = true ∧ t.useDmabuf = s.useDmabuf))
      (old : t.call.hasOld = true →
        t.pwStream ≠ none ∨ (s.call.hasOld = true ∧ t.pwStream = s.pwStream))

theorem Lifecycle.Reported.moves {t : Lifecycle} (h : s.Reported t) : s.Moves t := by
  rw [h.frame]
  exact .stays rfl rfl rfl

theorem step_moves (he : s.Enabled playback a) : s.Moves (s.step a).1 := by
  have hat := he.atCall
  cases a with
  | stateChanged new => exact reported_stateChanged.moves
  | paramChanged isFormat param => exact reported_paramChanged.moves
  | nodeRemoved id => exact reported_nodeRemoved.moves
  | setErrorCallback _ | callbackUnlink | callbackReturn => exact .stays rfl rfl rfl
  | setTarget target copied =>
    simp only [Lifecycle.step]
    split
    · exact .stays rfl rfl rfl
    · split <;> exact .stays rfl rfl rfl
  | setAutoconnect _ | unlink | callbackStop | callbackStart =>
    simp only [Lifecycle.step]
    split <;> exact .stays rfl rfl rfl
  | formatEnter valid dmabuf =>
    simp only [Lifecycle.step]
    split
    · exact .stays rfl rfl rfl
    · split
      · rename_i hp
        exact .tearsDown rfl (Or.inl rfl) fun _ => Or.inl (Option.isSome_iff_ne_none.mp hp)
      · exact .settles rfl rfl
  | destroyOld =>
    simp only [Lifecycle.step]
    split
    · rename_i hc
      exact .tearsDown rfl (Or.inr ⟨by simp [hc, LifeCall.tearsDown], rfl⟩)
        fun _ => Or.inr ⟨by simp [hc, LifeCall.hasOld], rfl⟩
    · rename_i hc
      split
      · rename_i hp
        exact .tearsDown rfl (Or.inr ⟨by simp [hc, LifeCall.tearsDown], rfl⟩)
          fun _ => Or.inl (Option.isSome_iff_ne_none.mp hp)
      · exact .settles rfl rfl
    · exact .stays rfl rfl rfl
  | oldDestroyed =>
    simp only [Lifecycle.step]
    split
    · exact .settles rfl rfl
    · exact .settles rfl rfl
    · exact .stays rfl rfl rfl
  | connect created connected =>
    simp only [Lifecycle.step, Lifecycle.connectNew]
    split
    · split
      · exact .settles rfl rfl
      · split <;> exact .settles rfl rfl
    · exact .stays rfl rfl rfl
  | startEnter =>
    simp only [Lifecycle.step]
    split
    · exact .stays rfl rfl rfl
    · rename_i hready
      exact .starts (Or.inr (not_or.mp hready).2) rfl rfl
  | activate =>
    have hc : s.call = .starting := by simpa [Lifecycle.atCall] using hat
    exact .starts (Or.inl (by simp [hc, LifeCall.starts])) rfl rfl
  | stopEnter _ | linkEnter =>
    simp only [Lifecycle.step]
    split
    · exact .stays rfl rfl rfl
    · exact .settles rfl rfl
  | pause =>
    simp only [Lifecycle.step]
    split
    · exact .settles rfl rfl
    · exact .settles rfl rfl
    · exact .settles rfl rfl
    · exact .stays rfl rfl rfl
  | stopFinish | linkDone _ =>
    simp only [Lifecycle.step]
    split <;> exact .settles rfl rfl
  | destroyEnter =>
    by_cases hrun : s.state = .running
    · exact .settles (by simp [Lifecycle.step, hrun, LifeCall.starts])
        (by simp [Lifecycle.step, hrun, LifeCall.tearsDown])
    · exact .settles (by simp [Lifecycle.step, hrun, LifeCall.starts])
        (by simp [Lifecycle.step, hrun, LifeCall.tearsDown])
  | releaseAll =>
    exact .tearsDown rfl (Or.inl rfl) (by simp [Lifecycle.step, LifeCall.hasOld])
  | formatFinish | startFinish | linkFailed _ | linkPublish _ => exact .settles rfl rfl

/-- A call that goes on with the stream as it was. -/
theorem Lifecycle.Held.goOn {t : Lifecycle} (h : s.Held) (hstate : t.state = s.state)
    (hp : t.pwStream = s.pwStream) (hf : t.formatSet = s.formatSet)
    (hbetween : t.state = .running → s.Between → t.Between)
    (hop : t.call.operates = true → s.call.operates = true ∨ s.pwStream ≠ none)
    (hst : t.call.starts = true → s.call.starts = true ∨ s.formatSet = true) : t.Held where
  backed := by
    intro hrun ht
    rw [hp, hf]
    rw [hstate] at hrun
    exact h.backed hrun fun hs => ht (hbetween (hstate ▸ hrun) hs)
  formatted := by
    rw [hstate, hf]
    exact h.formatted
  operated := by
    intro hc
    rw [hp]
    exact (hop hc).elim h.operated id
  starts := by
    intro hc
    rw [hf]
    exact (hst hc).elim h.starts id

theorem LifeCall.operates_of_starts {c : LifeCall} (h : c.starts = true) : c.operates = true := by
  cases c <;> simp_all [LifeCall.operates, LifeCall.starts]

/-- The same, of a call that comes to nothing on the `pw_stream`. -/
theorem Lifecycle.Held.quiet {t : Lifecycle} (h : s.Held) (hstate : t.state = s.state)
    (hp : t.pwStream = s.pwStream) (hf : t.formatSet = s.formatSet) (hbetween : ¬ s.Between)
    (hop : t.call.operates = false) : t.Held := by
  refine h.goOn hstate hp hf (fun _ hs => absurd hs hbetween) (fun hc => ?_) (fun hc => ?_)
  · simp [hop] at hc
  · have hoperates := LifeCall.operates_of_starts hc
    simp [hop] at hoperates

/-- A stream that does not run, and no call on its `pw_stream`. -/
theorem held_stopped {t : Lifecycle} (hstate : t.state ≠ .running)
    (hop : t.call.operates = false) : t.Held where
  backed := fun hrun => absurd hrun hstate
  formatted := fun hrun => absurd hrun hstate
  operated := by simp [hop]
  starts := by
    intro hs
    have hoperates := LifeCall.operates_of_starts hs
    simp [hop] at hoperates

/-- A format setter that has no `pw_stream`, or a stream that is gone. -/
theorem held_between {t : Lifecycle} (ht : t.Between)
    (hf : t.state = .running → t.formatSet = true) : t.Held where
  backed := fun _ hn => absurd ht hn
  formatted := hf
  operated := by
    obtain ⟨dmabuf, hc⟩ | hc := ht <;> simp [hc, LifeCall.operates]
  starts := by
    obtain ⟨dmabuf, hc⟩ | hc := ht <;> simp [hc, LifeCall.starts]

/-- A stream that has both, and no call on its `pw_stream`. -/
theorem held_backed {t : Lifecycle} (hp : t.pwStream ≠ none)
    (hf : t.state = .running → t.formatSet = true)
    (hs : t.call.starts = true → t.formatSet = true) : t.Held where
  backed := fun hrun _ => ⟨hp, hf hrun⟩
  formatted := hf
  operated := fun _ => hp
  starts := hs

theorem held_connectNew {dmabuf created connected : Bool}
    (hr : s.Reconnects (.connect created connected)) (h : s.Held) :
    (s.connectNew dmabuf created connected).1.Held := by
  unfold Lifecycle.connectNew
  split
  · rename_i hcreated
    refine held_stopped (fun hrun => ?_) rfl
    simp [hcreated] at hr hrun
    simpa using hr hrun
  · split
    · rename_i hconnected
      refine held_stopped (fun hrun => ?_) rfl
      simp [hconnected] at hr hrun
      simpa using hr hrun
    · exact held_backed (by simp) h.formatted (by simp [LifeCall.starts])

theorem held_next (he : s.Enabled playback a) (hr : s.Reconnects a) (h : s.Held) :
    (s.step a).1.Held := by
  have hat := he.atCall
  cases a with
  | stateChanged new => exact h.keep reported_stateChanged.keeps
  | paramChanged isFormat param => exact h.keep reported_paramChanged.keeps
  | nodeRemoved id => exact h.keep reported_nodeRemoved.keeps
  | setErrorCallback given => exact h.keep ⟨rfl, rfl, rfl, id⟩
  | setAutoconnect enable =>
    simp only [Lifecycle.step]
    split
    · exact h
    · exact h.keep ⟨rfl, rfl, rfl, id⟩
  | setTarget target copied =>
    simp only [Lifecycle.step]
    split
    · exact h
    · split
      · exact h
      · exact h.keep ⟨rfl, rfl, rfl, id⟩
  | callbackUnlink | callbackReturn => exact h.keep ⟨rfl, rfl, rfl, id⟩
  | unlink =>
    simp only [Lifecycle.step]
    split
    · exact h
    · exact h.keep ⟨rfl, rfl, rfl, id⟩
  | formatEnter valid dmabuf =>
    have hc : s.call = .idle := by simpa [Lifecycle.atCall] using hat
    simp only [Lifecycle.step]
    split
    · exact h
    · split
      · exact h.quiet rfl rfl rfl (by simp [Lifecycle.Between, hc]) rfl
      · exact held_between (Or.inl ⟨dmabuf, rfl⟩) h.formatted
  | destroyOld =>
    simp only [Lifecycle.step]
    split
    · rename_i hc
      exact h.quiet rfl rfl rfl (by simp [Lifecycle.Between, hc]) rfl
    · rename_i hc
      split
      · exact h.quiet rfl rfl rfl (by simp [Lifecycle.Between, hc]) rfl
      · exact held_between (Or.inr rfl) h.formatted
    · exact h
  | oldDestroyed =>
    simp only [Lifecycle.step]
    split
    · exact held_between (Or.inl ⟨_, rfl⟩) h.formatted
    · exact held_between (Or.inr rfl) h.formatted
    · exact h
  | connect created connected =>
    simp only [Lifecycle.step]
    split
    · exact held_connectNew hr h
    · exact h
  | formatFinish => exact held_stopped (by simp [Lifecycle.step]) rfl
  | startEnter =>
    have hc : s.call = .idle := by simpa [Lifecycle.atCall] using hat
    simp only [Lifecycle.step]
    split
    · exact h
    · rename_i hready
      obtain ⟨hf, hp⟩ := not_or.mp hready
      exact h.goOn rfl rfl rfl (by simp [Lifecycle.Between, hc]) (fun _ => Or.inr hp)
        (fun _ => Or.inr (by simpa using hf))
  | activate =>
    have hc : s.call = .starting := by simpa [Lifecycle.atCall] using hat
    exact h.goOn rfl rfl rfl (by simp [Lifecycle.Between, hc])
      (fun _ => Or.inl (by simp [hc, LifeCall.operates]))
      (fun _ => Or.inl (by simp [hc, LifeCall.starts]))
  | startFinish =>
    have hc : s.call = .started := by simpa [Lifecycle.atCall] using hat
    exact held_backed (h.operated (by simp [hc, LifeCall.operates]))
      (fun _ => h.starts (by simp [hc, LifeCall.starts]))
      (by simp [Lifecycle.step, LifeCall.starts])
  | stopEnter drain =>
    have hc : s.call = .idle := by simpa [Lifecycle.atCall] using hat
    simp only [Lifecycle.step]
    split
    · exact h
    · rename_i hrun
      have hp := (h.backed (not_not.mp hrun) (by simp [Lifecycle.Between, hc])).1
      exact h.goOn rfl rfl rfl (by simp [Lifecycle.Between, hc]) (fun _ => Or.inr hp)
        (by simp [LifeCall.starts])
  | pause =>
    simp only [Lifecycle.step]
    split
    all_goals try rename_i hc
    · exact h.goOn rfl rfl rfl (by simp [Lifecycle.Between, hc])
        (fun _ => Or.inl (by simp [hc, LifeCall.operates])) (by simp [LifeCall.starts])
    · exact h.goOn rfl rfl rfl (by simp [Lifecycle.Between, hc])
        (fun _ => Or.inl (by simp [hc, LifeCall.operates])) (by simp [LifeCall.starts])
    · exact h.goOn rfl rfl rfl (by simp [Lifecycle.Between, hc])
        (fun _ => Or.inl (by simp [hc, LifeCall.operates])) (by simp [LifeCall.starts])
    · exact h
  | stopFinish =>
    simp only [Lifecycle.step]
    split <;> exact held_stopped (by simp) rfl
  | linkEnter =>
    have hc : s.call = .idle := by simpa [Lifecycle.atCall] using hat
    simp only [Lifecycle.step]
    split
    · exact h
    · exact h.quiet rfl rfl rfl (by simp [Lifecycle.Between, hc]) rfl
  | linkFailed r =>
    have hc : s.call = .linking := by
      simp only [Lifecycle.atCall, Bool.and_eq_true, beq_iff_eq] at hat
      exact hat.1
    exact h.quiet rfl rfl rfl (by simp [Lifecycle.Between, hc]) rfl
  | linkPublish targetNode =>
    have hc : s.call = .linking := by simpa [Lifecycle.atCall] using hat
    exact h.quiet rfl rfl rfl (by simp [Lifecycle.Between, hc]) rfl
  | linkDone r =>
    have hc : s.call = .wiring := by simpa [Lifecycle.atCall] using hat
    simp only [Lifecycle.step]
    split <;> exact h.quiet rfl rfl rfl (by simp [Lifecycle.Between, hc]) rfl
  | destroyEnter =>
    have hc : s.call = .idle := by simpa [Lifecycle.atCall] using hat
    have hp : s.state = .running → s.pwStream ≠ none := fun hrun =>
      (h.backed hrun (by simp [Lifecycle.Between, hc])).1
    refine h.goOn rfl rfl rfl (by simp [Lifecycle.Between, hc]) ?_ ?_
    · by_cases hrun : s.state = .running
      · exact fun _ => Or.inr (hp hrun)
      · simp [Lifecycle.step, hrun, LifeCall.operates]
    · by_cases hrun : s.state = .running <;> simp [Lifecycle.step, hrun, LifeCall.starts]
  | releaseAll =>
    have hc : s.call = .releasing := by simpa [Lifecycle.atCall] using hat
    exact h.quiet rfl rfl rfl (by simp [Lifecycle.Between, hc]) rfl
  | callbackStop =>
    simp only [Lifecycle.step]
    split
    · exact h
    · exact h.keep ⟨rfl, rfl, rfl, by simp⟩
  | callbackStart =>
    simp only [Lifecycle.step]
    split
    · exact h
    · rename_i hready
      obtain ⟨hf, hp⟩ := not_or.mp hready
      exact held_backed hp (fun _ => by simpa using hf) (fun _ => by simpa using hf)

/-- What changes neither the state nor the `pw_stream` and what is known of it, and is seen
only by what it returns. -/
structure Lifecycle.Plain (s : Lifecycle) (r : Lifecycle × List LifeOut) : Prop where
  state : r.1.state = s.state
  pwStream : r.1.pwStream = s.pwStream
  nextStream : r.1.nextStream = s.nextStream
  lossUntold : r.1.lossUntold = s.lossUntold
  outs : ∀ w ∈ r.2, ∃ e, w = .returned e

def LifeAction.plain : LifeAction → Bool
  | .setErrorCallback _ | .setAutoconnect _ | .setTarget _ _ | .formatEnter _ _ | .destroyOld
  | .startEnter | .stopEnter _ | .linkEnter | .linkFailed _ | .linkPublish _ | .linkDone _
  | .unlink | .destroyEnter | .releaseAll | .callbackUnlink | .callbackReturn => true
  | _ => false

theorem step_plain (ha : a.plain = true) : s.Plain (s.step a) := by
  cases a with
  | setTarget target copied =>
    simp only [Lifecycle.step]
    split
    · exact ⟨rfl, rfl, rfl, rfl, by simp⟩
    · split <;> exact ⟨rfl, rfl, rfl, rfl, by simp⟩
  | formatEnter valid dmabuf =>
    simp only [Lifecycle.step]
    split
    · exact ⟨rfl, rfl, rfl, rfl, by simp⟩
    · split <;> exact ⟨rfl, rfl, rfl, rfl, by simp⟩
  | setAutoconnect _ | startEnter | stopEnter _ | linkEnter | unlink | destroyOld =>
    simp only [Lifecycle.step]
    split <;> exact ⟨rfl, rfl, rfl, rfl, by simp⟩
  | linkDone r => by_cases hr : r = .ok <;> constructor <;> simp [Lifecycle.step, hr]
  | setErrorCallback _ | linkFailed _ | linkPublish _ | destroyEnter | releaseAll
  | callbackUnlink | callbackReturn => exact ⟨rfl, rfl, rfl, rfl, by simp [Lifecycle.step]⟩
  | _ => simp [LifeAction.plain] at ha

/-- Nothing but a return is seen of a plain step. -/
theorem LifeAction.plain.unseen {w : LifeOut} (ha : a.plain = true) (hw : ∀ e, w ≠ .returned e) :
    w ∉ (s.step a).2 := by
  intro h
  obtain ⟨e, he⟩ := (step_plain ha).outs w h
  exact hw e he

theorem loseSource_no_operation {c : ErrorCause} {o : Option ℕ} :
    .operation o ∉ (s.loseSource c).2 := by
  unfold Lifecycle.loseSource Lifecycle.reportError
  split
  · split <;> simp
  · simp

/-- An operation on no `pw_stream` is one of a start or a stop. -/
theorem operation_mem (he : s.Enabled playback a) (h : .operation none ∈ (s.step a).2) :
    s.pwStream = none ∧ (s.call.operates = true ∨ (a = .callbackStop ∧ s.state = .running)) := by
  have hat := he.atCall
  cases a with
  | activate =>
    have hc : s.call = .starting := by simpa [Lifecycle.atCall] using hat
    exact ⟨by simpa [Lifecycle.step, eq_comm] using h, Or.inl (by simp [hc, LifeCall.operates])⟩
  | pause =>
    simp only [Lifecycle.step] at h
    split at h
    all_goals try rename_i hc
    · exact ⟨by simpa [eq_comm] using h, Or.inl (by simp [hc, LifeCall.operates])⟩
    · exact ⟨by simpa [eq_comm] using h, Or.inl (by simp [hc, LifeCall.operates])⟩
    · exact ⟨by simpa [eq_comm] using h, Or.inl (by simp [hc, LifeCall.operates])⟩
    · simp at h
  | callbackStop =>
    simp only [Lifecycle.step] at h
    split at h
    · simp at h
    · rename_i hrun
      exact ⟨by simpa [eq_comm] using h, Or.inr ⟨rfl, not_not.mp hrun⟩⟩
  | callbackStart =>
    simp only [Lifecycle.step] at h
    split at h
    · simp at h
    · rename_i hready
      have hnone : s.pwStream = none := by simpa [eq_comm] using h
      exact absurd hnone (not_or.mp hready).2
  | paramChanged isFormat param =>
    have hp : s.pwStream.isSome = true := hat
    simp only [Lifecycle.step, Lifecycle.onParamChanged] at h
    split at h
    · simp at h
    · split at h
      · have hnone : s.pwStream = none := by simpa [eq_comm] using h
        simp [hnone] at hp
      · exact absurd h loseSource_no_operation
  | stateChanged new =>
    simp only [Lifecycle.step, Lifecycle.onStateChanged] at h
    split at h
    · simp at h
    · dsimp only at h
      rcases List.mem_cons.mp h with h | h
      · simp at h
      · split at h
        · exact absurd h loseSource_no_operation
        · simp at h
  | nodeRemoved id =>
    simp only [Lifecycle.step, Lifecycle.onNodeRemoved, Lifecycle.reportError] at h
    split at h
    · simp at h
    · split at h <;> simp at h
  | connect created connected =>
    simp only [Lifecycle.step, Lifecycle.connectNew] at h
    split at h
    · split at h
      · simp at h
      · split at h <;> simp at h
    · simp at h
  | oldDestroyed | stopFinish =>
    simp only [Lifecycle.step] at h
    split at h <;> simp at h
  | formatFinish | startFinish => simp [Lifecycle.step] at h
  | _ => exact absurd h (LifeAction.plain.unseen rfl (by simp))

/-- An action leaves the stream backed, and operates on the `pw_stream` it has. -/
def Lifecycle.Sound (s : Lifecycle) (a : LifeAction) : Prop :=
  (s.step a).1.Backed ∧ .operation none ∉ (s.step a).2

theorem sound_iff (he : s.Enabled playback a) (h : s.Held) : s.Sound a ↔ s.Reconnects a := by
  constructor
  · rintro ⟨hbacked, hop⟩
    cases a with
    | connect created connected =>
      have hat := he.atCall
      simp only [Lifecycle.atCall] at hat
      intro hrun
      split at hat
      · rename_i dmabuf hc
        -- a failed setter leaves no `pw_stream`
        by_contra hfail
        have hnone : (s.step (.connect created connected)).1.pwStream = none ∧
            (s.step (.connect created connected)).1.call = .idle ∧
            (s.step (.connect created connected)).1.state = s.state := by
          cases created <;> cases connected <;>
            simp_all [Lifecycle.step, Lifecycle.connectNew]
        obtain ⟨hp, hcall, hstate⟩ := hnone
        exact (hbacked (hstate.trans hrun) (by simp [Lifecycle.Between, hcall])).1 hp
      · simp at hat
    | callbackStop =>
      intro hrun hnone
      exact hop (by simp [Lifecycle.step, hrun, hnone])
    | _ => trivial
  · intro hr
    refine ⟨(held_next he hr h).backed, fun hop => ?_⟩
    obtain ⟨hnone, hcall | ⟨rfl, hrun⟩⟩ := operation_mem he hop
    · exact h.operated hcall hnone
    · exact hr hrun hnone

theorem held_run {xs : List LifeAction}
    (h : ((lifeMachine playback).restrict Lifecycle.Reconnects).Valid .init xs) :
    ((lifeMachine playback).exec .init xs).Held :=
  Machine.invariant (M := (lifeMachine playback).restrict Lifecycle.Reconnects)
    (I := Lifecycle.Held) held_init (fun _ _ he h => held_next he.1 he.2 h) h

/-- Through a run a stream that runs has a `pw_stream` and a format, and nothing is done to
a missing `pw_stream`, exactly if the reconnects of the running stream succeed. -/
theorem running_stream_backed_iff {xs : List LifeAction}
    (h : (lifeMachine playback).Valid .init xs) :
    (∀ ys a zs, xs = ys ++ a :: zs → ((lifeMachine playback).exec .init ys).Sound a) ↔
      ((lifeMachine playback).restrict Lifecycle.Reconnects).Valid .init xs := by
  rw [← Machine.never_iff_restrict
    (W := fun ys a => ¬ ((lifeMachine playback).exec .init ys).Sound a)
    (fun ys a hys ha => not_congr (sound_iff ha (held_run hys))) h]
  simp only [not_not]

/-- A stream is configured, and PipeWire has its node paused. -/
def configuredStream : List LifeAction :=
  [.setErrorCallback true, .formatEnter true false, .connect true true, .formatFinish,
    .stateChanged .connecting, .stateChanged .paused]

/-- It is started. -/
def startedStream : List LifeAction :=
  configuredStream ++ [.startEnter, .activate, .startFinish]

/-- A running stream gets a new format, and is destroyed. -/
theorem running_stream_backed_iff_reconfigured :
    let xs := startedStream ++ [.formatEnter true false, .destroyOld, .oldDestroyed,
      .connect true true, .formatFinish, .startEnter, .activate, .startFinish, .destroyEnter,
      .pause, .stopFinish, .releaseAll, .destroyOld, .oldDestroyed]
    (∀ ys a zs, xs = ys ++ a :: zs → ((lifeMachine false).exec .init ys).Sound a) ↔
      ((lifeMachine false).restrict Lifecycle.Reconnects).Valid .init xs :=
  running_stream_backed_iff (by decide)

/-- The format of a running stream is set anew and the connect fails; the stop that follows
is made on no `pw_stream`. -/
theorem running_stream_without_pw_stream :
    let xs := startedStream ++ [.formatEnter true false, .destroyOld, .oldDestroyed,
      .connect true false]
    let s := (lifeMachine false).exec .init xs
    (lifeMachine false).Valid .init (xs ++ [.stopEnter false, .pause, .stopFinish]) ∧
      s.state = .running ∧ s.call = .idle ∧ s.pwStream = none ∧ ¬ s.Backed ∧
      .operation none ∈ (lifeMachine false).outs s [.stopEnter false, .pause] := by
  refine ⟨by decide, by decide, by decide, by decide, ?_, by decide⟩
  intro hbacked
  exact (hbacked (by decide) (by simp [Lifecycle.Between]; decide)).1 (by decide)

end TinyPipewire.Stream
