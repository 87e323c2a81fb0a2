import TinyPipewire.Core.RateLimit
import TinyPipewire.Filter.Port

/-!
# One cycle of a playback stream

`pwf_stream_on_process_playback` and `pwf_stream_playback_fill`. The callback answers with
what it left in the region and the size it reports; clock readings are arguments.
-/

namespace TinyPipewire.Stream

open TinyPipewire.Filter

/-- The fields of `struct pwf_stream` a playback cycle reads and writes. -/
structure PlaybackStream where
  bytesPerFrame : UInt64
  sampleRate : Int
  hasPlaybackCb : Bool
  overrunLastLogNs : UInt64
  overrunSuppressed : UInt64
  unusableLastLogNs : UInt64
  unusableSuppressed : UInt64
  deriving DecidableEq, Repr

/-- `struct pwf_stream_playback_buffer` as the callback gets it. -/
structure PlaybackBuffer where
  data : ℕ
  available : UInt64
  pts : Int
  deriving DecidableEq, Repr

/-- What the callback makes of it: the block's content after it, and the size it sets. -/
structure PlaybackAnswer where
  content : Bytes
  size : UInt64
  deriving DecidableEq, Repr

/-- `pwf_stream_cycle_budget_ns`. -/
def cycleBudgetNs (s : PlaybackStream) (available : UInt64) : UInt64 :=
  if s.bytesPerFrame = 0 ∨ s.sampleRate ≤ 0 then 0
  else available / s.bytesPerFrame * 1000000000 / .ofNat s.sampleRate.toNat

/-- The bytes of a cycle that are the callback's: whole frames, and no more than there are. -/
def playbackSize (s : PlaybackStream) (available reported : UInt64) : UInt64 :=
  let size := if reported > available then available else reported
  if s.bytesPerFrame > 0 then size - size % s.bytesPerFrame else size

/-- The `memset` of what the callback left of the cycle. -/
def silenceRest (content : Bytes) (size available : UInt64) : Bytes :=
  if size < available then
    content.take size.toNat ++ List.replicate (available - size).toNat 0 ++
      content.drop available.toNat
  else content

/-- What a callback that overran its cycle does to the rate limit of the log. -/
def noteOverrun (s : PlaybackStream) (available started finished : UInt64) : PlaybackStream :=
  let budget := cycleBudgetNs s available
  if budget > 0 ∧ finished - started > budget then
    let (report, last, suppressed) :=
      rateLimited s.overrunLastLogNs s.overrunSuppressed finished
    { s with overrunLastLogNs := last, overrunSuppressed := if report then 0 else suppressed }
  else s

/-- `pwf_stream_playback_fill`. -/
def playbackFill (s : PlaybackStream) (available : UInt64) (answer : PlaybackAnswer)
    (started finished : UInt64) : PlaybackStream × Bytes × UInt64 :=
  let size := playbackSize s available answer.size
  (noteOverrun s available started finished, silenceRest answer.content size available, size)

/-- What the device asked for, or the whole region. -/
def playbackAvailable (s : PlaybackStream) (maxsize : UInt32) (requested : UInt64) : UInt64 :=
  if requested > 0 ∧ s.bytesPerFrame > 0 ∧ requested * s.bytesPerFrame < maxsize.toUInt64 then
    requested * s.bytesPerFrame
  else maxsize.toUInt64

/-- The clock readings of a cycle, and the time it is for. -/
structure PlaybackClock where
  started : UInt64
  finished : UInt64
  now : UInt64
  pts : Int
  deriving DecidableEq, Repr

/-- A cycle: the stream and the buffer's first block after it, what the callback got, and
`b->size` where it is set. -/
structure PlaybackCycle where
  stream : PlaybackStream
  block : SpaData
  called : Option PlaybackBuffer
  size : Option UInt64

/-- A buffer with nothing to write to goes back as it came. -/
def unusableBuffer (s : PlaybackStream) (d : SpaData) (now : UInt64) : PlaybackCycle :=
  let (report, last, suppressed) := rateLimited s.unusableLastLogNs s.unusableSuppressed now
  ⟨{ s with unusableLastLogNs := last, unusableSuppressed := if report then 0 else suppressed },
    d, none, none⟩

/-- `pwf_stream_on_process_playback`, on the first block of the buffer it dequeued. -/
def onProcessPlayback (s : PlaybackStream) (d : SpaData) (requested : UInt64)
    (clock : PlaybackClock) (callback : PlaybackBuffer → PlaybackAnswer) : PlaybackCycle :=
  match d.data, d.chunk with
  | some data, some _ =>
    if d.maxsize = 0 ∨ s.hasPlaybackCb = false then unusableBuffer s d clock.now
    else
      let available := playbackAvailable s d.maxsize requested
      let buf : PlaybackBuffer := ⟨data, available, clock.pts⟩
      let (s', content, _) := playbackFill s available (callback buf) clock.started clock.finished
      -- a full cycle goes out, whatever the callback filled of it
      let chunk : SpaChunk := ⟨0, available.toUInt32, s.bytesPerFrame.toUInt32.toInt32⟩
      ⟨s', { d with content := content, chunk := some chunk }, some buf,
        some (if s.bytesPerFrame > 0 then available / s.bytesPerFrame else 0)⟩
  | _, _ => unusableBuffer s d clock.now

section Cycle

variable {s : PlaybackStream} {d : SpaData} {requested : UInt64} {clock : PlaybackClock}
  {callback : PlaybackBuffer → PlaybackAnswer}

theorem playbackAvailable_le (s : PlaybackStream) (maxsize : UInt32) (requested : UInt64) :
    (playbackAvailable s maxsize requested).toNat ≤ maxsize.toNat := by
  unfold playbackAvailable
  split
  · rename_i h
    have hlt := UInt64.lt_iff_toNat_lt.mp h.2.2
    rw [UInt32.toNat_toUInt64] at hlt
    omega
  · rw [UInt32.toNat_toUInt64]

/-- Whatever the callback reports, it is given whole frames of the cycle at most. -/
theorem playbackSize_le (s : PlaybackStream) (available reported : UInt64) :
    (playbackSize s available reported).toNat ≤ available.toNat := by
  have hclamp : (if reported > available then available else reported).toNat ≤
      available.toNat := by
    split
    · exact Nat.le_refl _
    · rename_i h
      have hle := UInt64.not_lt.mp h
      exact UInt64.le_iff_toNat_le.mp hle
  dsimp only [playbackSize]
  split
  · have hmod := Nat.mod_le (if reported > available then available else reported).toNat
      s.bytesPerFrame.toNat
    rw [UInt64.toNat_sub_of_le _ _ (by rw [UInt64.le_iff_toNat_le, UInt64.toNat_mod]; exact hmod)]
    omega
  · exact hclamp

/-- A cycle calls nothing and changes nothing of the buffer, or the callback gets the cycle
and all of it is published. -/
theorem onProcessPlayback_cases (s : PlaybackStream) (d : SpaData) (requested : UInt64)
    (clock : PlaybackClock) (callback : PlaybackBuffer → PlaybackAnswer) :
    ((onProcessPlayback s d requested clock callback).called = none ∧
        (onProcessPlayback s d requested clock callback).block = d) ∨
      ∃ data content, (onProcessPlayback s d requested clock callback).called =
          some ⟨data, playbackAvailable s d.maxsize requested, clock.pts⟩ ∧
        (onProcessPlayback s d requested clock callback).block =
          { d with
            content := content
            chunk := some ⟨0, (playbackAvailable s d.maxsize requested).toUInt32,
              s.bytesPerFrame.toUInt32.toInt32⟩ } := by
  unfold onProcessPlayback
  split
  · split
    · exact Or.inl ⟨rfl, rfl⟩
    · exact Or.inr ⟨_, _, rfl, rfl⟩
  · exact Or.inl ⟨rfl, rfl⟩

/-- A cycle that calls the callback fills the block with what comes of it, and publishes all. -/
theorem onProcessPlayback_called {buf : PlaybackBuffer}
    (h : (onProcessPlayback s d requested clock callback).called = some buf) :
    buf.available = playbackAvailable s d.maxsize requested ∧
      (onProcessPlayback s d requested clock callback).block =
        { d with
          content := (playbackFill s buf.available (callback buf) clock.started clock.finished).2.1
          chunk := some ⟨0, buf.available.toUInt32, s.bytesPerFrame.toUInt32.toInt32⟩ } ∧
      (onProcessPlayback s d requested clock callback).size =
        some (if s.bytesPerFrame > 0 then buf.available / s.bytesPerFrame else 0) := by
  unfold onProcessPlayback at h ⊢
  split at h
  · split at h
    · simp [unusableBuffer] at h
    · rename_i hready
      rw [if_neg hready]
      rw [← Option.some.inj h]
      exact ⟨rfl, rfl, rfl⟩
  · simp [unusableBuffer] at h

end Cycle

end TinyPipewire.Stream
