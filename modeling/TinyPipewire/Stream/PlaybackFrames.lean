import TinyPipewire.Stream.Playback

/-!
# The frames of a playback cycle

A cycle is counted in bytes by the block and the chunk, in frames by the graph's request and
`pw_buffer.size`. The frame is that of the format `pwf_stream_set_audio_config` accepted.
-/

namespace TinyPipewire.Stream

open TinyPipewire.Filter

/-- The values of `enum spa_audio_format` the library knows. -/
inductive SpaAudioFormat
  | unknown
  | u8
  | s16
  | s24
  | s24_32
  | s32
  | f32
  deriving DecidableEq, Repr

/-- `pwf_audio_sample_formats`. -/
def audioSampleFormats : List (String × SpaAudioFormat) :=
  [("U8", .u8), ("S16", .s16), ("S24", .s24), ("S24_32", .s24_32), ("S32", .s32), ("F32", .f32)]

/-- `pwf_spa_lookup_audio_format`. -/
def lookupAudioFormat (name : String) : SpaAudioFormat :=
  ((audioSampleFormats.find? fun f => f.1 = name).map (·.2)).getD .unknown

/-- Bytes of one sample; `S24` is packed. -/
def SpaAudioFormat.sampleSize : SpaAudioFormat → ℕ
  | .u8 => 1
  | .s16 => 2
  | .s24 => 3
  | .s24_32 | .s32 | .f32 => 4
  | .unknown => 0

/-- `pwf_audio_bytes_per_frame`. -/
def audioBytesPerFrame (format : SpaAudioFormat) (channels : Int32) : UInt64 :=
  if channels ≤ 0 then 0
  else
    match format with
    | .unknown => 0
    | f => .ofNat f.sampleSize * .ofNat channels.toInt.toNat

/-- `struct pwf_audio_config`. -/
structure AudioConfig where
  sampleRate : Int32
  channels : Int32
  format : Option String
  deriving DecidableEq, Repr

/-- The checks of `pwf_stream_set_audio_config` on the configuration, and the format. -/
def checkAudioConfig (config : AudioConfig) : Except PwfError SpaAudioFormat :=
  if config.sampleRate ≤ 0 ∨ config.channels ≤ 0 then .error .invalidFormat
  else
    match lookupAudioFormat (config.format.getD "S16") with
    | .unknown => .error .invalidFormat
    | f => .ok f

variable {config : AudioConfig} {f : SpaAudioFormat} {s : PlaybackStream} {d : SpaData}
  {requested : UInt64} {clock : PlaybackClock} {callback : PlaybackBuffer → PlaybackAnswer}
  {buf : PlaybackBuffer}

theorem checkAudioConfig_ok (h : checkAudioConfig config = .ok f) :
    0 < config.channels ∧ f ≠ .unknown := by
  unfold checkAudioConfig at h
  split at h
  · cases h
  · rename_i hpos
    split at h
    · cases h
    · rename_i hknown
      have hchannels := (not_or.mp hpos).2
      refine ⟨Int32.not_le.mp hchannels, ?_⟩
      rw [← Except.ok.inj h]
      exact hknown

theorem checkAudioConfig_rate (h : checkAudioConfig config = .ok f) :
    0 < config.sampleRate.toInt := by
  unfold checkAudioConfig at h
  split at h
  · cases h
  · rename_i hpos
    have hrate := Int32.not_le.mp (not_or.mp hpos).1
    simpa using Int32.lt_iff_toInt_lt.mp hrate

/-- A frame is the samples of the channels, and a `size_t` holds it. -/
theorem audioBytesPerFrame_toNat (h : checkAudioConfig config = .ok f) :
    (audioBytesPerFrame f config.channels).toNat =
        f.sampleSize * config.channels.toInt.toNat ∧
      0 < f.sampleSize * config.channels.toInt.toNat := by
  obtain ⟨hchannels, hf⟩ := checkAudioConfig_ok h
  have hpos : 0 < config.channels.toInt := by simpa using Int32.lt_iff_toInt_lt.mp hchannels
  have hbound := config.channels.toInt_lt
  have hsample : 0 < f.sampleSize ∧ f.sampleSize ≤ 4 := by
    cases f <;> simp_all [SpaAudioFormat.sampleSize]
  have hprod : f.sampleSize * config.channels.toInt.toNat ≤ 4 * 2 ^ 31 :=
    Nat.mul_le_mul hsample.2 (by omega)
  refine ⟨?_, Nat.mul_pos hsample.1 (by omega)⟩
  have hc : ¬ config.channels ≤ 0 := Int32.not_le.mpr hchannels
  have hunfold : audioBytesPerFrame f config.channels =
      .ofNat f.sampleSize * .ofNat config.channels.toInt.toNat := by
    unfold audioBytesPerFrame
    rw [if_neg hc]
    cases f <;> simp_all
  rw [hunfold, ← UInt64.ofNat_mul, UInt64.toNat_ofNat']
  omega

/-! ### What a cycle should cover -/

/-- The bytes of a cycle: what is requested and fits the region, in whole frames. -/
def cycleBytes (frame maxsize requested : ℕ) : ℕ :=
  (if requested > 0 then min maxsize (requested * frame) else maxsize) / frame * frame

/-- The published cycle is of `n` bytes, and counted so by all who count it. -/
structure PlaybackCycle.Covers (c : PlaybackCycle) (buf : PlaybackBuffer) (frame n : ℕ) :
    Prop where
  available : buf.available.toNat = n
  chunk : ∃ chunk, c.block.chunk = some chunk ∧ chunk.size.toNat = n
  frames : ∃ k, c.size = some k ∧ k.toNat * frame = n

/-- The request is for less than the region; or the region is whole frames, and a request
past 64 bits does not come out below it; or it comes out at its whole frames. -/
def RequestFits (frame maxsize requested : ℕ) : Prop :=
  (0 < requested ∧ requested * frame < maxsize) ∨
    (frame ∣ maxsize ∧ (0 < requested → maxsize ≤ requested * frame % 2 ^ 64)) ∨
    (0 < requested ∧ 2 ^ 64 ≤ requested * frame ∧
      requested * frame % 2 ^ 64 = maxsize / frame * frame)

instance (frame maxsize requested : ℕ) : Decidable (RequestFits frame maxsize requested) :=
  inferInstanceAs (Decidable (_ ∨ (_ ∧ (_ → _)) ∨ _))

/-- What a cycle that calls the callback publishes. -/
theorem onProcessPlayback_published
    (h : (onProcessPlayback s d requested clock callback).called = some buf) :
    buf.available = playbackAvailable s d.maxsize requested ∧
      (onProcessPlayback s d requested clock callback).block.chunk =
        some ⟨0, (playbackAvailable s d.maxsize requested).toUInt32,
          s.bytesPerFrame.toUInt32.toInt32⟩ ∧
      (onProcessPlayback s d requested clock callback).size =
        some (if s.bytesPerFrame > 0 then
          playbackAvailable s d.maxsize requested / s.bytesPerFrame else 0) := by
  obtain ⟨havailable, hblock, hsize⟩ := onProcessPlayback_called h
  rw [hblock, hsize, havailable]
  exact ⟨rfl, rfl, rfl⟩

/-- The size of a cycle, counted without a bound. -/
theorem playbackAvailable_toNat (hframe : 0 < s.bytesPerFrame.toNat) (maxsize : UInt32)
    (requested : UInt64) :
    (playbackAvailable s maxsize requested).toNat =
      if 0 < requested.toNat ∧
          requested.toNat * s.bytesPerFrame.toNat % 2 ^ 64 < maxsize.toNat then
        requested.toNat * s.bytesPerFrame.toNat % 2 ^ 64
      else maxsize.toNat := by
  have hpos : (requested > 0 ∧ s.bytesPerFrame > 0 ∧
      requested * s.bytesPerFrame < maxsize.toUInt64) ↔
      0 < requested.toNat ∧
        requested.toNat * s.bytesPerFrame.toNat % 2 ^ 64 < maxsize.toNat := by
    rw [gt_iff_lt, gt_iff_lt, UInt64.lt_iff_toNat_lt, UInt64.lt_iff_toNat_lt,
      UInt64.lt_iff_toNat_lt, UInt64.toNat_mul, UInt32.toNat_toUInt64]
    simp [hframe]
  unfold playbackAvailable
  by_cases h : 0 < requested.toNat ∧
      requested.toNat * s.bytesPerFrame.toNat % 2 ^ 64 < maxsize.toNat
  · rw [if_pos h, if_pos (hpos.mpr h), UInt64.toNat_mul]
  · rw [if_neg h, if_neg (fun hc => h (hpos.mp hc)), UInt32.toNat_toUInt64]

/-- Where the cycle's size is what it should be. -/
theorem available_eq_cycleBytes_iff {frame maxsize requested : ℕ} (hframe : 0 < frame)
    (hmax : maxsize < 2 ^ 32) :
    (if 0 < requested ∧ requested * frame % 2 ^ 64 < maxsize then requested * frame % 2 ^ 64
      else maxsize) = cycleBytes frame maxsize requested ↔
      RequestFits frame maxsize requested := by
  have hfloor : maxsize / frame * frame = maxsize ↔ frame ∣ maxsize :=
    (Nat.dvd_iff_div_mul_eq maxsize frame).symm
  have hle := Nat.div_mul_le_self maxsize frame
  unfold cycleBytes RequestFits
  by_cases hreq : 0 < requested
  · simp only [hreq, true_and, if_true, true_implies]
    by_cases hsmall : requested * frame < maxsize
    · -- the request is the cycle
      have hmod : requested * frame % 2 ^ 64 = requested * frame := Nat.mod_eq_of_lt (by omega)
      rw [hmod, if_pos hsmall, Nat.min_eq_right (Nat.le_of_lt hsmall),
        Nat.mul_div_cancel _ hframe]
      simp [hsmall]
    · rw [Nat.min_eq_left (Nat.le_of_not_lt hsmall), ← hfloor]
      by_cases hwrap : requested * frame % 2 ^ 64 < maxsize
      · rw [if_pos hwrap]
        have hover : 2 ^ 64 ≤ requested * frame := by
          by_contra hno
          rw [Nat.mod_eq_of_lt (by omega)] at hwrap
          exact hsmall hwrap
        simp only [hsmall, false_or, hover, true_and]
        omega
      · rw [if_neg hwrap]
        simp only [hsmall, false_or]
        omega
  · simp only [hreq, false_and, if_false, false_or, false_implies, and_true, or_false]
    rw [← hfloor]
    exact eq_comm

/-- A cycle covers the whole frames requested, and all counts of it agree, exactly if the
request fits the region in whole frames. -/
theorem playback_cycle_covers_iff (hconfig : checkAudioConfig config = .ok f)
    (hs : s.bytesPerFrame = audioBytesPerFrame f config.channels)
    (hcall : (onProcessPlayback s d requested clock callback).called = some buf) :
    (onProcessPlayback s d requested clock callback).Covers buf
        (f.sampleSize * config.channels.toInt.toNat)
        (cycleBytes (f.sampleSize * config.channels.toInt.toNat) d.maxsize.toNat
          requested.toNat) ↔
      RequestFits (f.sampleSize * config.channels.toInt.toNat) d.maxsize.toNat
        requested.toNat := by
  obtain ⟨hframe, hpos⟩ := audioBytesPerFrame_toNat hconfig
  rw [← hs] at hframe
  rw [← hframe] at hpos ⊢
  have hmax : d.maxsize.toNat < 2 ^ 32 := d.maxsize.toNat_lt
  have havail := playbackAvailable_toNat hpos d.maxsize requested
  have hle := playbackAvailable_le s d.maxsize requested
  obtain ⟨hbuf, hchunk, hsize⟩ := onProcessPlayback_published hcall
  rw [← available_eq_cycleBytes_iff hpos hmax, ← havail]
  constructor
  · intro hc
    rw [← hbuf]
    exact hc.available
  · intro heq
    refine ⟨hbuf ▸ heq, ⟨_, hchunk, ?_⟩, ⟨_, hsize, ?_⟩⟩
    · rw [← heq, UInt64.toNat_toUInt32]
      omega
    · have hgt : s.bytesPerFrame > 0 := by simpa [UInt64.lt_iff_toNat_lt] using hpos
      rw [if_pos hgt, UInt64.toNat_div, heq]
      unfold cycleBytes
      rw [Nat.mul_div_cancel _ hpos]

/-- Packed 24-bit mono: a request of 256 frames of a region of 8192 bytes. -/
theorem playback_cycle_covers_iff_requested :
    let config : AudioConfig := ⟨48000, 1, some "S24"⟩
    let s : PlaybackStream := ⟨3, 48000, true, 0, 0, 0, 0⟩
    let d : SpaData := ⟨.memPtr, -1, 0, 8192, some 4096, [], some ⟨0, 0, 0⟩⟩
    let callback : PlaybackBuffer → PlaybackAnswer := fun _ => ⟨[], 0⟩
    (onProcessPlayback s d 256 ⟨0, 0, 0, -1⟩ callback).Covers ⟨4096, 768, -1⟩
        (SpaAudioFormat.s24.sampleSize * config.channels.toInt.toNat)
        (cycleBytes (SpaAudioFormat.s24.sampleSize * config.channels.toInt.toNat) d.maxsize.toNat
          (256 : UInt64).toNat) ↔
      RequestFits (SpaAudioFormat.s24.sampleSize * config.channels.toInt.toNat) d.maxsize.toNat
        (256 : UInt64).toNat :=
  playback_cycle_covers_iff (by decide) (by decide) (by decide)

/-- The same region without a request goes out whole, and ends inside a frame: 8192 bytes of
which `pw_buffer.size` counts 2730 frames. -/
theorem playback_cycle_splits_frame :
    let config : AudioConfig := ⟨48000, 1, some "S24"⟩
    let s : PlaybackStream := ⟨3, 48000, true, 0, 0, 0, 0⟩
    let d : SpaData := ⟨.memPtr, -1, 0, 8192, some 4096, [], some ⟨0, 0, 0⟩⟩
    let c := onProcessPlayback s d 0 ⟨0, 0, 0, -1⟩ fun _ => ⟨[], 0⟩
    checkAudioConfig config = .ok .s24 ∧
      s.bytesPerFrame = audioBytesPerFrame .s24 config.channels ∧
      c.called = some ⟨4096, 8192, -1⟩ ∧ c.block.chunk = some ⟨0, 8192, 3⟩ ∧
      c.size = some 2730 ∧ cycleBytes 3 8192 0 = 8190 ∧
      ¬ c.Covers ⟨4096, 8192, -1⟩ 3 (cycleBytes 3 8192 0) := by
  refine ⟨by decide, by decide, by decide, by decide, by decide, by decide, ?_⟩
  intro hc
  exact absurd hc.available (by decide)

end TinyPipewire.Stream
