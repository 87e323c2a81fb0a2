import TinyPipewire.Stream.Silence

/-!
# Callbacks that run past their cycle

`pwf_stream_playback_fill` reads the clock before and after the callback, and compares what
passed with the time the cycle lasts. It only logs what it finds.
-/

namespace TinyPipewire.Stream

open TinyPipewire.Filter

/-- What `pwf_stream_on_process_playback` calls. -/
inductive PlaybackCall
  | playbackCallback (buf : PlaybackBuffer)
  | errorCallback (r : PwfError)
  | queueBuffer
  deriving DecidableEq, Repr

/-- The calls of a cycle, in order: the buffer goes back whether or not it was filled. -/
def PlaybackCycle.calls (c : PlaybackCycle) : List PlaybackCall :=
  (c.called.map .playbackCallback).toList ++ [.queueBuffer]

/-- The callback ran for longer than `frames` take at `rate` a second. -/
def Overran (frames rate : ℕ) (clock : PlaybackClock) : Prop :=
  frames * 10 ^ 9 < (clock.finished.toNat - clock.started.toNat) * rate

instance (frames rate : ℕ) (clock : PlaybackClock) : Decidable (Overran frames rate clock) :=
  inferInstanceAs (Decidable (_ < _))

/-- What should come of a cycle whose callback was given `buf` and answered. -/
structure PlaybackCycle.Emits (c : PlaybackCycle) (f : SpaAudioFormat) (bigEndian : Bool)
    (buf : PlaybackBuffer) (answer : PlaybackAnswer) (frame rate : ℕ) (clock : PlaybackClock) :
    Prop where
  late : Overran (buf.available.toNat / frame) rate clock →
    f.Silent bigEndian c.block.content 0 buf.available.toNat
  inTime : ¬ Overran (buf.available.toNat / frame) rate clock →
    c.block.content.take (reportedBytes frame buf.available.toNat answer.size.toNat) =
      answer.content.take (reportedBytes frame buf.available.toNat answer.size.toNat)
  full : ∃ chunk, c.block.chunk = some chunk ∧ chunk.offset = 0 ∧
    chunk.size.toNat = buf.available.toNat
  calls : .queueBuffer ∈ c.calls ∧ ∀ r, .errorCallback r ∉ c.calls

variable {config : AudioConfig} {f : SpaAudioFormat} {s : PlaybackStream} {d : SpaData}
  {requested : UInt64} {clock : PlaybackClock} {callback : PlaybackBuffer → PlaybackAnswer}
  {buf : PlaybackBuffer} {bigEndian : Bool}

/-! ### The budget -/

/-- The budget of a cycle is counted exactly: a region is of less than 4 GiB. -/
theorem cycleBudgetNs_toNat {available : UInt64} (hframe : 0 < s.bytesPerFrame.toNat)
    (hrate : 0 < s.sampleRate) (hmax : s.sampleRate < 2 ^ 31)
    (havail : available.toNat < 2 ^ 32) :
    (cycleBudgetNs s available).toNat =
      available.toNat / s.bytesPerFrame.toNat * 10 ^ 9 / s.sampleRate.toNat := by
  have hsome : ¬ (s.bytesPerFrame = 0 ∨ s.sampleRate ≤ 0) := by
    rintro (hzero | hneg)
    · simp [hzero] at hframe
    · omega
  have hfew : available.toNat / s.bytesPerFrame.toNat < 2 ^ 32 :=
    Nat.lt_of_le_of_lt (Nat.div_le_self ..) havail
  have hten : (1000000000 : UInt64).toNat = 10 ^ 9 := rfl
  have hrateNat : (UInt64.ofNat s.sampleRate.toNat).toNat = s.sampleRate.toNat := by
    rw [UInt64.toNat_ofNat']
    omega
  unfold cycleBudgetNs
  rw [if_neg hsome, UInt64.toNat_div, UInt64.toNat_mul, UInt64.toNat_div, hten, hrateNat]
  congr 1
  omega

/-- What passed is past the budget just where the callback overran. -/
theorem past_budget_iff {available : UInt64} (hframe : 0 < s.bytesPerFrame.toNat)
    (hrate : 0 < s.sampleRate) (hmax : s.sampleRate < 2 ^ 31)
    (havail : available.toNat < 2 ^ 32) (hclock : clock.started ≤ clock.finished) :
    clock.finished - clock.started > cycleBudgetNs s available ↔
      Overran (available.toNat / s.bytesPerFrame.toNat) s.sampleRate.toNat clock := by
  rw [gt_iff_lt, UInt64.lt_iff_toNat_lt, cycleBudgetNs_toNat hframe hrate hmax havail,
    UInt64.toNat_sub_of_le _ _ hclock, Overran]
  exact Nat.div_lt_iff_lt_mul (by omega)

/-! ### What goes out -/

/-- What a cycle that calls the callback leaves in the block. -/
theorem onProcessPlayback_content
    (h : (onProcessPlayback s d requested clock callback).called = some buf) :
    (onProcessPlayback s d requested clock callback).block.content =
      (playbackFill s buf.available (callback buf) clock.started clock.finished).2.1 := by
  obtain ⟨-, hblock, -⟩ := onProcessPlayback_called h
  rw [hblock]

/-- The emitted cycle is silence just where the callback's bytes are, and what is cleared. -/
theorem emitted_silent_iff (bigEndian : Bool) (hconfig : checkAudioConfig config = .ok f)
    (hs : s.bytesPerFrame = audioBytesPerFrame f config.channels)
    (hcall : (onProcessPlayback s d requested clock callback).called = some buf)
    (hregion : buf.available.toNat ≤ (callback buf).content.length) {n : ℕ}
    (hn : (playbackSize s buf.available (callback buf).size).toNat = n) :
    (f.Silent bigEndian (onProcessPlayback s d requested clock callback).block.content 0
        buf.available.toNat ↔
      f.Silent bigEndian (callback buf).content 0 n ∧ (f ≠ .u8 ∨ buf.available.toNat ≤ n)) ∧
      (onProcessPlayback s d requested clock callback).block.content.take n =
        (callback buf).content.take n := by
  obtain ⟨-, hf⟩ := checkAudioConfig_ok hconfig
  obtain ⟨hframe, hpos⟩ := audioBytesPerFrame_toNat hconfig
  rw [← hs] at hframe
  have hle := playbackSize_le s buf.available (callback buf).size
  obtain ⟨hkept, hzeros, -, -⟩ := silenceRest_spec hle hregion
  have hsample : f.sampleSize ∣ (playbackSize s buf.available (callback buf).size).toNat := by
    rw [playbackSize_toNat (hframe ▸ hpos), reportedBytes, hframe]
    exact Dvd.dvd.mul_left (Nat.dvd_mul_right ..) _
  rw [onProcessPlayback_content hcall]
  subst hn
  dsimp only [playbackFill]
  refine ⟨?_, hkept⟩
  rw [silent_split hsample hle, silent_zeros_iff bigEndian hf hzeros]
  refine and_congr_left' (silent_congr ?_)
  simpa using hkept

/-- The budget of a cycle is exact, and its callback's time is past it just where it overran.
A late cycle is silence and one in time is the callback's, exactly if the callback was in time,
or silent itself: what it took is never looked at for what is emitted. -/
theorem overrun_silenced_iff (hconfig : checkAudioConfig config = .ok f)
    (hs : s.bytesPerFrame = audioBytesPerFrame f config.channels)
    (hrate : s.sampleRate = config.sampleRate.toInt)
    (hcall : (onProcessPlayback s d requested clock callback).called = some buf)
    (hregion : buf.available.toNat ≤ (callback buf).content.length) :
    (clock.started ≤ clock.finished →
      (clock.finished - clock.started > cycleBudgetNs s buf.available ↔
        Overran (buf.available.toNat / s.bytesPerFrame.toNat) s.sampleRate.toNat clock)) ∧
    ((onProcessPlayback s d requested clock callback).Emits f bigEndian buf (callback buf)
        s.bytesPerFrame.toNat s.sampleRate.toNat clock ↔
      ¬ Overran (buf.available.toNat / s.bytesPerFrame.toNat) s.sampleRate.toNat clock ∨
        f.Silent bigEndian (callback buf).content 0
          (reportedBytes s.bytesPerFrame.toNat buf.available.toNat (callback buf).size.toNat) ∧
          (f ≠ .u8 ∨ buf.available.toNat ≤
            reportedBytes s.bytesPerFrame.toNat buf.available.toNat
              (callback buf).size.toNat)) := by
  obtain ⟨hframe, hpos⟩ := audioBytesPerFrame_toNat hconfig
  rw [← hs] at hframe
  rw [← hframe] at hpos
  have hrpos : 0 < s.sampleRate := by
    rw [hrate]
    exact checkAudioConfig_rate hconfig
  have hrmax : s.sampleRate < 2 ^ 31 := by
    rw [hrate]
    exact config.sampleRate.toInt_lt
  obtain ⟨hbuf, hchunk, -⟩ := onProcessPlayback_published hcall
  have hsmall : buf.available.toNat < 2 ^ 32 := by
    rw [hbuf]
    exact Nat.lt_of_le_of_lt (playbackAvailable_le ..) d.maxsize.toNat_lt
  refine ⟨past_budget_iff hpos hrpos hrmax hsmall, ?_⟩
  obtain ⟨hsilent, hkept⟩ := emitted_silent_iff bigEndian hconfig hs hcall hregion
    (playbackSize_toNat hpos ..)
  rw [← hsilent]
  constructor
  · intro h
    by_cases hover : Overran (buf.available.toNat / s.bytesPerFrame.toNat) s.sampleRate.toNat clock
    · exact Or.inr (h.late hover)
    · exact Or.inl hover
  · intro h
    refine ⟨fun hover => h.resolve_left (not_not.mpr hover), fun _ => hkept, ?_, ?_⟩
    · refine ⟨_, hchunk, rfl, ?_⟩
      rw [← hbuf, UInt64.toNat_toUInt32]
      omega
    · simp [PlaybackCycle.calls, hcall]

/-- Two frames of mono `S16`, filled in time. -/
theorem overrun_silenced_iff_inTime :
    let s : PlaybackStream := ⟨2, 48000, true, 0, 0, 0, 0⟩
    let d : SpaData := ⟨.memPtr, -1, 0, 8, some 4096, [], some ⟨0, 0, 0⟩⟩
    let clock : PlaybackClock := ⟨0, 1000, 0, -1⟩
    let answer : PlaybackAnswer := ⟨[1, 0, 2, 0, 0, 0, 0, 0], 4⟩
    (onProcessPlayback s d 2 clock fun _ => answer).Emits .s16 false ⟨4096, 4, -1⟩ answer 2 48000
      clock := by
  intro s d clock answer
  have hconfig : checkAudioConfig ⟨48000, 1, some "S16"⟩ = .ok .s16 := by decide
  exact (overrun_silenced_iff (s := s) (d := d) hconfig (by decide) (by decide) (by decide)
    (by decide)).2.mpr (Or.inl (by decide))

/-- The same two frames filled in a second: they are emitted as the callback left them, and are
no silence. -/
theorem overrun_emitted :
    let config : AudioConfig := ⟨48000, 1, some "S16"⟩
    let s : PlaybackStream := ⟨2, 48000, true, 0, 0, 0, 0⟩
    let d : SpaData := ⟨.memPtr, -1, 0, 8, some 4096, [], some ⟨0, 0, 0⟩⟩
    let clock : PlaybackClock := ⟨0, 10 ^ 9, 0, -1⟩
    let answer : PlaybackAnswer := ⟨[1, 0, 2, 0, 0, 0, 0, 0], 4⟩
    let c := onProcessPlayback s d 2 clock fun _ => answer
    checkAudioConfig config = .ok .s16 ∧ s.bytesPerFrame = audioBytesPerFrame .s16 1 ∧
      c.called = some ⟨4096, 4, -1⟩ ∧ Overran 2 48000 clock ∧
      c.block.content.take 4 = [1, 0, 2, 0] ∧
      ¬ c.Emits .s16 false ⟨4096, 4, -1⟩ answer 2 48000 clock := by
  intro config s d clock answer c
  refine ⟨by decide, by decide, by decide, by decide, by decide, ?_⟩
  intro h
  have hfirst := h.late (by decide) 0 (by decide)
  have hword : wordOf false (c.block.content.take 2) = 1 := by decide
  simp [SpaAudioFormat.sampleAt, SpaAudioFormat.sampleSize, SpaAudioFormat.amplitude,
    hword] at hfirst

end TinyPipewire.Stream
