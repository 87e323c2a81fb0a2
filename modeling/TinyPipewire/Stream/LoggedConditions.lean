import TinyPipewire.Stream.Capture
import TinyPipewire.Stream.Playback

/-!
# What a stream logs at most once a second

A playback callback that overran its cycle, a playback buffer with nothing to write to, and a
DMABUF frame that nobody read. Each has two counters of its own.
-/

namespace TinyPipewire.Stream

open TinyPipewire.Filter

/-- `overrun_last_log_ns` and `overrun_suppressed`. -/
def PlaybackStream.overrunLimit (s : PlaybackStream) : LogLimit :=
  ⟨s.overrunLastLogNs, s.overrunSuppressed⟩

/-- `unusable_last_log_ns` and `unusable_suppressed`. -/
def PlaybackStream.unusableLimit (s : PlaybackStream) : LogLimit :=
  ⟨s.unusableLastLogNs, s.unusableSuppressed⟩

/-- `dmabuf_unretrieved_last_log_ns` and `dmabuf_unretrieved_suppressed`. -/
def CaptureStream.unreadLimit (s : CaptureStream) : LogLimit :=
  ⟨s.dmabufUnretrievedLastLogNs, s.dmabufUnretrievedSuppressed⟩

/-! ### Playback -/

/-- What a playback cycle is made with. -/
structure PlaybackInput where
  block : SpaData
  requested : UInt64
  clock : PlaybackClock
  callback : PlaybackBuffer → PlaybackAnswer

/-- The buffer has a writable region, and there is a callback to fill it. -/
def PlaybackInput.Usable (x : PlaybackInput) (s : PlaybackStream) : Prop :=
  x.block.data.isSome ∧ x.block.chunk.isSome ∧ x.block.maxsize ≠ 0 ∧ s.hasPlaybackCb = true

instance (x : PlaybackInput) (s : PlaybackStream) : Decidable (x.Usable s) :=
  inferInstanceAs (Decidable (_ ∧ _))

/-- The callback ran past the budget of its cycle. -/
def PlaybackInput.Late (x : PlaybackInput) (s : PlaybackStream) : Prop :=
  let budget := cycleBudgetNs s (playbackAvailable s x.block.maxsize x.requested)
  budget > 0 ∧ x.clock.finished - x.clock.started > budget

instance (x : PlaybackInput) (s : PlaybackStream) : Decidable (x.Late s) :=
  inferInstanceAs (Decidable (_ ∧ _))

/-- What a playback cycle may log. -/
inductive PlaybackLog
  | overrun (w : Noted UInt64 UInt64)
  | unusable (w : Noted UInt64 UInt64)
  deriving DecidableEq, Repr

def PlaybackLog.overrun? : PlaybackLog → Option (Noted UInt64 UInt64)
  | .overrun w => some w
  | .unusable _ => none

def PlaybackLog.unusable? : PlaybackLog → Option (Noted UInt64 UInt64)
  | .overrun _ => none
  | .unusable w => some w

/-- A playback stream, cycle after cycle, and what came up for its log. -/
def playbackLogMachine : Machine PlaybackStream PlaybackInput PlaybackLog where
  Enabled _ _ := True
  next s x := (onProcessPlayback s x.block x.requested x.clock x.callback).stream
  out s x :=
    if x.Usable s then
      if x.Late s then [.overrun ⟨x.clock.finished, s.overrunLimit.log x.clock.finished⟩] else []
    else [.unusable ⟨x.clock.now, s.unusableLimit.log x.clock.now⟩]

section Playback

variable {s : PlaybackStream} {x : PlaybackInput}

theorem noteOverrun_limits (available started finished : UInt64) :
    (noteOverrun s available started finished).overrunLimit =
      (if cycleBudgetNs s available > 0 ∧ finished - started > cycleBudgetNs s available then
        s.overrunLimit.after finished else s.overrunLimit) ∧
    (noteOverrun s available started finished).unusableLimit = s.unusableLimit := by
  unfold noteOverrun
  dsimp only
  split
  · exact ⟨rfl, rfl⟩
  · exact ⟨rfl, rfl⟩

/-- A cycle touches the counters of what came up in it, and clears what it logs. -/
theorem playbackLogMachine_next :
    ((playbackLogMachine.next s x).overrunLimit =
      if x.Usable s ∧ x.Late s then s.overrunLimit.after x.clock.finished
      else s.overrunLimit) ∧
    ((playbackLogMachine.next s x).unusableLimit =
      if x.Usable s then s.unusableLimit else s.unusableLimit.after x.clock.now) := by
  by_cases hu : x.Usable s
  · obtain ⟨hdata, hchunk, hmax, hcb⟩ := id hu
    obtain ⟨data, hdata⟩ := Option.isSome_iff_exists.mp hdata
    obtain ⟨chunk, hchunk⟩ := Option.isSome_iff_exists.mp hchunk
    have hlimits := noteOverrun_limits (s := s)
      (playbackAvailable s x.block.maxsize x.requested) x.clock.started x.clock.finished
    have hnext : playbackLogMachine.next s x = noteOverrun s
        (playbackAvailable s x.block.maxsize x.requested) x.clock.started x.clock.finished := by
      simp [playbackLogMachine, onProcessPlayback, playbackFill, hdata, hchunk, hmax, hcb]
    rw [hnext, if_pos hu, hlimits.1, hlimits.2]
    refine ⟨?_, rfl⟩
    simp [hu, PlaybackInput.Late]
  · have hnext : playbackLogMachine.next s x =
        (unusableBuffer s x.block x.clock.now).stream := by
      unfold playbackLogMachine onProcessPlayback
      dsimp only
      split
      · rename_i data chunk hdata hchunk
        have hno : x.block.maxsize = 0 ∨ s.hasPlaybackCb = false := by
          by_contra hboth
          obtain ⟨hmax, hcb⟩ := not_or.mp hboth
          exact hu ⟨by simp [hdata], by simp [hchunk], hmax, by simpa using hcb⟩
        rw [if_pos hno]
      · rfl
    rw [hnext, if_neg hu, if_neg (fun h => hu h.1)]
    exact ⟨rfl, rfl⟩

/-- The times its callback overran a cycle, and what is logged of them, as a throttle has it. -/
theorem playback_follows_overrun :
    Machine.Follows playbackLogMachine LogLimit.machine PlaybackStream.overrunLimit
      (fun s x => if x.Usable s ∧ x.Late s then [x.clock.finished] else [])
      (List.filterMap PlaybackLog.overrun?) where
  valid s x _ := by split <;> simp [LogLimit.machine]
  next s x _ := by
    rw [playbackLogMachine_next.1]
    split
    · rfl
    · rfl
  out s x _ := by
    unfold playbackLogMachine
    by_cases hu : x.Usable s
    · by_cases hl : x.Late s
      · simp [hu, hl, PlaybackLog.overrun?, LogLimit.machine]
      · simp [hu, hl]
    · simp [hu, PlaybackLog.overrun?]
  nil := rfl
  append _ _ := List.filterMap_append

/-- The same of the buffers with nothing to write to. -/
theorem playback_follows_unusable :
    Machine.Follows playbackLogMachine LogLimit.machine PlaybackStream.unusableLimit
      (fun s x => if x.Usable s then [] else [x.clock.now])
      (List.filterMap PlaybackLog.unusable?) where
  valid s x _ := by split <;> simp [LogLimit.machine]
  next s x _ := by
    rw [playbackLogMachine_next.2]
    split
    · rfl
    · rfl
  out s x _ := by
    unfold playbackLogMachine
    by_cases hu : x.Usable s
    · by_cases hl : x.Late s
      · simp [hu, hl, PlaybackLog.unusable?]
      · simp [hu, hl]
    · simp [hu, PlaybackLog.unusable?, LogLimit.machine]
  nil := rfl
  append _ _ := List.filterMap_append

end Playback

/-! ### Capture -/

/-- What a capture cycle is made with; `retrieves` tells whether the callback reads a DMABUF
frame's descriptor. -/
structure CaptureInput where
  buffer : PwBuffer
  retrieves : Bool
  now : UInt64

/-- The cycle has a DMABUF frame that nobody reads. -/
def CaptureInput.Unread (x : CaptureInput) (s : CaptureStream) : Prop :=
  s.useDmabuf = true ∧ dmabufBufferPresent x.buffer.buffer = true ∧
    (s.hasDataCb && x.retrieves) = false

instance (x : CaptureInput) (s : CaptureStream) : Decidable (x.Unread s) :=
  inferInstanceAs (Decidable (_ ∧ _))

/-- A capture stream, cycle after cycle, and what came up for its log. -/
def captureLogMachine : Machine CaptureStream CaptureInput (Noted UInt64 UInt64) where
  Enabled s x := ∃ r, streamOnProcess s x.buffer x.retrieves x.now = .ok r
  next s x :=
    match streamOnProcess s x.buffer x.retrieves x.now with
    | .ok (s', _) => s'
    | .error _ => s
  out s x := if x.Unread s then [⟨x.now, s.unreadLimit.log x.now⟩] else []

/-- The times a frame was not read, and what is logged of them, as a throttle has it. -/
theorem capture_follows_unread :
    Machine.Follows captureLogMachine LogLimit.machine CaptureStream.unreadLimit
      (fun s x => if x.Unread s then [x.now] else []) id where
  valid s x _ := by split <;> simp [LogLimit.machine]
  next s x _ := by
    by_cases hu : x.Unread s
    · obtain ⟨hd, hp, hr⟩ := id hu
      simp only [captureLogMachine, streamOnProcess, hd, hp, hr, if_true, deliverDmabuf,
        CaptureStream.endDelivery, if_pos hu]
      rfl
    · have hsame : (captureLogMachine.next s x).unreadLimit = s.unreadLimit := by
        cases hd : s.useDmabuf with
        | true =>
          by_cases hp : dmabufBufferPresent x.buffer.buffer = true
          · have hr : (s.hasDataCb && x.retrieves) = true := by
              by_contra hr
              exact hu ⟨hd, hp, by simpa using hr⟩
            simp only [captureLogMachine, streamOnProcess, hd, hp, hr, if_true, deliverDmabuf,
              CaptureStream.endDelivery]
            rfl
          · simp [captureLogMachine, streamOnProcess, hd, hp]
        | false =>
          unfold captureLogMachine
          dsimp only
          split
          · rename_i s' buf hstep
            rw [streamOnProcess_mapped hd hstep]
          · rfl
      simpa [hu] using hsame
  out s x _ := by
    unfold captureLogMachine
    by_cases hu : x.Unread s
    · simp [hu, LogLimit.machine]
    · simp [hu]
  nil := rfl
  append _ _ := rfl

/-! ### Any of them -/

/-- From a stream that has logged nothing on, each condition is reported as a throttle would,
whenever its times are positive and do not go back. -/
theorem logs_paced {σ α ω : Type} {M : Machine σ α ω} {f : σ → LogLimit} {g : σ → α → List UInt64}
    {π : List ω → List (Noted UInt64 UInt64)} (hF : Machine.Follows M LogLimit.machine f g π)
    {s : σ} {xs : List α} (h : M.Valid s xs) (hs : f s = .cleared)
    (hpos : ∀ w ∈ π (M.outs s xs), 0 < w.time)
    (hmono : (π (M.outs s xs)).Pairwise fun v w => v.time ≤ w.time) :
    Noted.Paced LogLimit.Second (π (M.outs s xs)) ∧ LogLimit.CountedModulo (π (M.outs s xs)) := by
  obtain ⟨ts, -, -, houts⟩ := hF.run h
  rw [hs] at houts
  have htimes : (LogLimit.noted ts).map Noted.time = ts := LogLimit.noted_time
  have hws : π (M.outs s xs) = LogLimit.noted ts := houts
  rw [hws] at hpos hmono ⊢
  have hpos' : ∀ t ∈ ts, 0 < t := by
    intro t ht
    rw [← htimes] at ht
    obtain ⟨w, hw, rfl⟩ := List.mem_map.mp ht
    exact hpos w hw
  have hmono' : ts.Pairwise (· ≤ ·) := by
    rw [← htimes]
    exact List.pairwise_map.mpr hmono
  exact LogLimit.noted_laws hpos' hmono'

end TinyPipewire.Stream
