import TinyPipewire.Stream.PlaybackFrames
import Mathlib.Algebra.Order.Ring.Rat
import Mathlib.Tactic.NormNum
import Mathlib.Tactic.Ring

/-!
# What the rest of a cycle sounds like

`pwf_stream_playback_fill` clears the bytes the callback left of its cycle. What they are
heard as is a matter of the sample format: each says which word is zero amplitude.
-/

namespace TinyPipewire.Stream

open TinyPipewire.Filter

/-! ### Samples -/

/-- The word of some bytes, the least significant first or, on another host, last. -/
def wordOf (bigEndian : Bool) (bytes : Bytes) : ℕ :=
  (if bigEndian then bytes.reverse else bytes).foldr (fun b n => b.toNat + 256 * n) 0

/-- The value of a binary32; an infinity and a NaN have none. -/
def binary32 (w : ℕ) : Option ℚ :=
  let sign : ℚ := if w / 2 ^ 31 % 2 = 0 then 1 else -1
  let exponent := w / 2 ^ 23 % 2 ^ 8
  let fraction : ℚ := (w % 2 ^ 23 : ℕ)
  if exponent = 255 then none
  else if exponent = 0 then some (sign * fraction / 2 ^ 149)
  else some (sign * (2 ^ 23 + fraction) * 2 ^ exponent / 2 ^ 150)

/-- The amplitude of a sample, in parts of full scale. -/
def SpaAudioFormat.amplitude (f : SpaAudioFormat) (w : ℕ) : Option ℚ :=
  match f with
  | .u8 => some (((w : ℚ) - 2 ^ 7) / 2 ^ 7)
  | .s16 => some ((BitVec.ofNat 16 w).toInt / 2 ^ 15)
  -- unpacked, the upper byte is padding
  | .s24 | .s24_32 => some ((BitVec.ofNat 24 w).toInt / 2 ^ 23)
  | .s32 => some ((BitVec.ofNat 32 w).toInt / 2 ^ 31)
  | .f32 => binary32 w
  | .unknown => none

/-- The sample that stands at byte `i`. -/
def SpaAudioFormat.sampleAt (f : SpaAudioFormat) (bigEndian : Bool) (content : Bytes) (i : ℕ) :
    Option ℚ :=
  f.amplitude (wordOf bigEndian ((content.drop i).take f.sampleSize))

/-- Every sample from byte `a` up to byte `b` is of zero amplitude. -/
def SpaAudioFormat.Silent (f : SpaAudioFormat) (bigEndian : Bool) (content : Bytes) (a b : ℕ) :
    Prop :=
  ∀ k, a + (k + 1) * f.sampleSize ≤ b → f.sampleAt bigEndian content (a + k * f.sampleSize) = some 0

/-- The bytes of the callback: what it reports and the cycle holds, in whole frames. -/
def reportedBytes (frame available reported : ℕ) : ℕ := min reported available / frame * frame

variable {config : AudioConfig} {f : SpaAudioFormat} {s : PlaybackStream} {bigEndian : Bool}
  {content out : Bytes} {a b n : ℕ}

theorem wordOf_zeros (n : ℕ) : wordOf bigEndian (List.replicate n 0) = 0 := by
  have hfold : (List.replicate n (0 : UInt8)).foldr (fun b n => b.toNat + 256 * n) 0 = 0 := by
    induction n with
    | zero => rfl
    | succ n ih =>
      rw [List.replicate_succ, List.foldr_cons, ih]
      rfl
  unfold wordOf
  split
  · rw [List.reverse_replicate]
    exact hfold
  · exact hfold

/-- Cleared bytes are silence in every format but `U8`, whose zero is in the middle. -/
theorem amplitude_zero_iff (hf : f ≠ .unknown) : f.amplitude 0 = some 0 ↔ f ≠ .u8 := by
  cases f with
  | unknown => exact absurd rfl hf
  | u8 =>
    simp [SpaAudioFormat.amplitude]
  | f32 => simp [SpaAudioFormat.amplitude, binary32]
  | s16 | s24 | s24_32 | s32 => simp [SpaAudioFormat.amplitude]

theorem sampleSize_pos (hf : f ≠ .unknown) : 0 < f.sampleSize := by
  cases f with
  | unknown => exact absurd rfl hf
  | _ => simp [SpaAudioFormat.sampleSize]

/-- A sample is in the bytes it is among. -/
theorem take_sample {m i size : ℕ} (h : i + size ≤ m) :
    (content.drop (a + i)).take size = (((content.drop a).take m).drop i).take size := by
  rw [← List.drop_drop, List.drop_take, List.take_take, Nat.min_eq_left (by omega)]

/-- Bytes that are the same are as silent. -/
theorem silent_congr (h : (out.drop a).take (b - a) = (content.drop a).take (b - a)) :
    f.Silent bigEndian out a b ↔ f.Silent bigEndian content a b := by
  refine forall_congr' fun k => forall_congr' fun hk => ?_
  have hin : k * f.sampleSize + f.sampleSize ≤ b - a := by
    rw [Nat.add_mul, Nat.one_mul] at hk
    omega
  rw [SpaAudioFormat.sampleAt, SpaAudioFormat.sampleAt, take_sample hin, take_sample hin, h]

/-- Cleared bytes hold no silent sample of `U8`, and no other of the rest. -/
theorem silent_zeros_iff (bigEndian : Bool) (hf : f ≠ .unknown)
    (h : (out.drop a).take (b - a) = List.replicate (b - a) 0) :
    f.Silent bigEndian out a b ↔ f ≠ .u8 ∨ b ≤ a := by
  have hsample : ∀ k, a + (k + 1) * f.sampleSize ≤ b →
      f.sampleAt bigEndian out (a + k * f.sampleSize) = f.amplitude 0 := by
    intro k hk
    have hin : k * f.sampleSize + f.sampleSize ≤ b - a := by
      rw [Nat.add_mul, Nat.one_mul] at hk
      omega
    rw [SpaAudioFormat.sampleAt, take_sample hin, h, List.drop_replicate, List.take_replicate,
      wordOf_zeros]
  constructor
  · intro hs
    by_contra hno
    obtain ⟨hu8, hlt⟩ := not_or.mp hno
    have hfirst : a + (0 + 1) * f.sampleSize ≤ b := by
      rw [not_not.mp hu8]
      simp only [SpaAudioFormat.sampleSize]
      omega
    exact hu8 ((amplitude_zero_iff hf).mp ((hsample 0 hfirst).symm.trans (hs 0 hfirst)))
  · rintro (hu8 | hle) k hk
    · rw [hsample k hk]
      exact (amplitude_zero_iff hf).mpr hu8
    · have hpos := sampleSize_pos hf
      rw [Nat.add_mul] at hk
      omega

/-- Samples that end at byte `n` are silent, and those from there on. -/
theorem silent_split (hn : f.sampleSize ∣ n) (hnb : n ≤ b) :
    f.Silent bigEndian content 0 b ↔
      f.Silent bigEndian content 0 n ∧ f.Silent bigEndian content n b := by
  obtain ⟨m, rfl⟩ := hn
  constructor
  · intro hs
    refine ⟨fun k hk => hs k (by omega), ?_⟩
    intro k hk
    have hat : 0 + (m + k) * f.sampleSize = f.sampleSize * m + k * f.sampleSize := by ring
    rw [← hat]
    refine hs (m + k) ?_
    calc 0 + (m + k + 1) * f.sampleSize
        = f.sampleSize * m + (k + 1) * f.sampleSize := by ring
      _ ≤ b := hk
  · rintro ⟨hleft, hright⟩ k hk
    by_cases hkm : k + 1 ≤ m
    · refine hleft k ?_
      calc 0 + (k + 1) * f.sampleSize
          ≤ 0 + m * f.sampleSize := by gcongr
        _ = f.sampleSize * m := by ring
    · obtain ⟨j, rfl⟩ : ∃ j, k = m + j := ⟨k - m, by omega⟩
      have hat : 0 + (m + j) * f.sampleSize = f.sampleSize * m + j * f.sampleSize := by ring
      rw [hat]
      refine hright j ?_
      calc f.sampleSize * m + (j + 1) * f.sampleSize
          = 0 + (m + j + 1) * f.sampleSize := by ring
        _ ≤ b := hk

/-! ### What a fill leaves -/

theorem playbackSize_toNat (hframe : 0 < s.bytesPerFrame.toNat) (available reported : UInt64) :
    (playbackSize s available reported).toNat =
      reportedBytes s.bytesPerFrame.toNat available.toNat reported.toNat := by
  have hclamp : (if reported > available then available else reported).toNat =
      min reported.toNat available.toNat := by
    split
    · rename_i h
      have hlt := UInt64.lt_iff_toNat_lt.mp h
      omega
    · rename_i h
      have hle := UInt64.le_iff_toNat_le.mp (UInt64.not_lt.mp h)
      omega
  have hpos : s.bytesPerFrame > 0 := by simpa [UInt64.lt_iff_toNat_lt] using hframe
  have hmod := Nat.mod_le (min reported.toNat available.toNat) s.bytesPerFrame.toNat
  have hfloor := Nat.div_add_mod' (min reported.toNat available.toNat) s.bytesPerFrame.toNat
  dsimp only [playbackSize]
  rw [if_pos hpos, UInt64.toNat_sub_of_le, UInt64.toNat_mod, hclamp, reportedBytes]
  · omega
  · rw [UInt64.le_iff_toNat_le, UInt64.toNat_mod, hclamp]
    exact hmod

theorem silenceRest_eq {size available : UInt64} (h : size.toNat ≤ available.toNat) :
    silenceRest content size available =
      content.take size.toNat ++ List.replicate (available.toNat - size.toNat) 0 ++
        content.drop available.toNat := by
  unfold silenceRest
  split
  · rw [UInt64.toNat_sub_of_le _ _ (UInt64.le_iff_toNat_le.mpr h)]
  · rename_i hno
    have hsame : available.toNat = size.toNat := by
      have hle := UInt64.le_iff_toNat_le.mp (UInt64.not_lt.mp hno)
      omega
    simp [hsame]

/-- The bytes that are kept, those that are cleared and those beyond them. -/
theorem silenceRest_spec {size available : UInt64} (hle : size.toNat ≤ available.toNat)
    (hregion : available.toNat ≤ content.length) :
    (silenceRest content size available).take size.toNat = content.take size.toNat ∧
      ((silenceRest content size available).drop size.toNat).take
          (available.toNat - size.toNat) =
        List.replicate (available.toNat - size.toNat) 0 ∧
      (silenceRest content size available).drop available.toNat =
        content.drop available.toNat ∧
      (silenceRest content size available).length = content.length := by
  have hn : (content.take size.toNat).length = size.toNat :=
    List.length_take_of_le (Nat.le_trans hle hregion)
  rw [silenceRest_eq hle]
  refine ⟨?_, ?_, ?_, ?_⟩
  · rw [List.append_assoc, List.take_left' hn]
  · rw [List.append_assoc, List.drop_left' hn, List.take_left' List.length_replicate]
  · rw [List.drop_left']
    rw [List.length_append, hn, List.length_replicate]
    omega
  · rw [List.length_append, List.length_append, hn, List.length_replicate, List.length_drop]
    omega

/-- What a fill of `available` bytes leaves of the callback's, with `n` of them reported. -/
structure Filled (f : SpaAudioFormat) (bigEndian : Bool) (content out : Bytes)
    (available n : ℕ) : Prop where
  kept : out.take n = content.take n
  silent : f.Silent bigEndian out n available
  beyond : out.drop available = content.drop available
  length : out.length = content.length

/-- The rest is cleared, whatever the format. -/
theorem filled_iff (bigEndian : Bool) {size available : UInt64} (hf : f ≠ .unknown)
    (hle : size.toNat ≤ available.toNat) (hregion : available.toNat ≤ content.length) :
    Filled f bigEndian content (silenceRest content size available) available.toNat size.toNat ↔
      f ≠ .u8 ∨ available.toNat ≤ size.toNat := by
  obtain ⟨hkept, hzeros, hbeyond, hlength⟩ := silenceRest_spec hle hregion
  rw [← silent_zeros_iff bigEndian hf hzeros]
  constructor
  · intro h
    exact h.silent
  · intro hsilent
    exact ⟨hkept, hsilent, hbeyond, hlength⟩

/-- A fill of whole frames keeps the frames reported, returns their bytes and leaves silence up
to the end, exactly if the format is not `U8` or the callback filled the cycle. -/
theorem playback_fill_silences_iff {available started finished : UInt64} {answer : PlaybackAnswer}
    (hconfig : checkAudioConfig config = .ok f)
    (hs : s.bytesPerFrame = audioBytesPerFrame f config.channels)
    (hwhole : s.bytesPerFrame.toNat ∣ available.toNat)
    (hregion : available.toNat ≤ answer.content.length) :
    (let n := reportedBytes s.bytesPerFrame.toNat available.toNat answer.size.toNat
      let fill := playbackFill s available answer started finished
      Filled f bigEndian answer.content fill.2.1 available.toNat n ∧ fill.2.2.toNat = n) ↔
      f ≠ .u8 ∨ available ≤ answer.size := by
  obtain ⟨-, hf⟩ := checkAudioConfig_ok hconfig
  obtain ⟨hframe, hpos⟩ := audioBytesPerFrame_toNat hconfig
  rw [← hs] at hframe
  have hsize := playbackSize_toNat (hframe ▸ hpos) available answer.size
  have hfull : available.toNat ≤
      reportedBytes s.bytesPerFrame.toNat available.toNat answer.size.toNat ↔
      available ≤ answer.size := by
    rw [UInt64.le_iff_toNat_le, reportedBytes]
    constructor
    · intro hle
      have hfloor := Nat.div_mul_le_self (min answer.size.toNat available.toNat)
        s.bytesPerFrame.toNat
      omega
    · intro hle
      rw [Nat.min_eq_right hle, Nat.div_mul_cancel hwhole]
  dsimp only [playbackFill]
  rw [← hfull, ← hsize, ← filled_iff bigEndian hf (playbackSize_le ..) hregion]
  exact and_iff_left rfl

/-- Stereo `S16`, of which the callback filled one frame and a half of two. -/
theorem playback_fill_silences_iff_short :
    let s : PlaybackStream := ⟨4, 48000, true, 0, 0, 0, 0⟩
    let answer : PlaybackAnswer := ⟨[1, 2, 3, 4, 5, 6, 7, 8], 6⟩
    (let n := reportedBytes (4 : UInt64).toNat (8 : UInt64).toNat (6 : UInt64).toNat
      let fill := playbackFill s 8 answer 0 0
      Filled .s16 false answer.content fill.2.1 (8 : UInt64).toNat n ∧ fill.2.2.toNat = n) ↔
      SpaAudioFormat.s16 ≠ .u8 ∨ (8 : UInt64) ≤ 6 := by
  intro s answer
  have hconfig : checkAudioConfig ⟨48000, 2, none⟩ = .ok .s16 := by decide
  exact playback_fill_silences_iff (s := s) hconfig (by decide) (by decide) (by decide)

/-- A mono `U8` callback that fills nothing of two frames: the cleared bytes are full negative
scale. -/
theorem cleared_u8_not_silent :
    let config : AudioConfig := ⟨48000, 1, some "U8"⟩
    let s : PlaybackStream := ⟨1, 48000, true, 0, 0, 0, 0⟩
    let answer : PlaybackAnswer := ⟨[128, 128], 0⟩
    checkAudioConfig config = .ok .u8 ∧ s.bytesPerFrame = audioBytesPerFrame .u8 config.channels ∧
      (playbackFill s 2 answer 0 0).2.1 = [0, 0] ∧
      ¬ Filled .u8 false answer.content (playbackFill s 2 answer 0 0).2.1 2
        (reportedBytes 1 2 0) := by
  intro config s answer
  refine ⟨by decide, by decide, by decide, ?_⟩
  intro h
  have hzeros : ((playbackFill s 2 answer 0 0).2.1.drop (reportedBytes 1 2 0)).take
      (2 - reportedBytes 1 2 0) = List.replicate (2 - reportedBytes 1 2 0) 0 := by decide
  exact absurd ((silent_zeros_iff false (by decide) hzeros).mp h.silent) (by decide)

end TinyPipewire.Stream
