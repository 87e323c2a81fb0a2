import TinyPipewire.Lib.ByteFile
import TinyPipewire.Lib.Pod
import TinyPipewire.Stream.PlaybackFrames

/-!
# A recording to a WAV file

`pwf_record` writes a header with no size, the buffers as they are captured, and at its end the
header again, over the first, with the size it counted. Each `fwrite` may be cut short, and the
`fseek` before the last header may fail.
-/

namespace TinyPipewire.Utils

open Pod (word wordAt)
open TinyPipewire.Stream (AudioConfig checkAudioConfig)

/-- `enum record_format`. -/
inductive RecordFormat
  | wav
  | pcm
  | raw
  | y4m
  deriving DecidableEq, Repr

/-- A sample format: `pwf_audio_config.format`, the width of a sample on disk, and the tag of the
`fmt` chunk. -/
structure BitDepth where
  pwfFormat : Option String
  bytesPerSample : UInt32
  wavTag : UInt16
  deriving DecidableEq, Repr

/-- `audio_bit_depths`. -/
def audioBitDepths : List (String × BitDepth) :=
  [("16", ⟨some "S16", 2, 1⟩), ("24", ⟨some "S24", 3, 1⟩), ("32", ⟨some "S32", 4, 1⟩),
    ("f32", ⟨some "F32", 4, 3⟩)]

/-- Without `--bits`. -/
def defaultBitDepth : BitDepth := ⟨none, 2, 1⟩

/-- `struct record_ctx`. -/
structure RecordCtx where
  file : ByteFile
  format : RecordFormat
  bytesWritten : UInt32
  deriving DecidableEq

/-- A buffer as it is captured, and how much gets through at most of the frame marker and of it. -/
structure CapturedBuffer where
  data : Bytes
  marker : ℕ
  written : ℕ
  deriving DecidableEq, Repr

/-- `"FRAME\n"`. -/
def frameMarker : Bytes := [70, 82, 65, 77, 69, 10]

/-- `on_data`. -/
def onData (ctx : RecordCtx) (b : CapturedBuffer) : RecordCtx :=
  let file := if ctx.format = .y4m then (ctx.file.fwrite frameMarker b.marker).1 else ctx.file
  let (file, count) := file.fwrite b.data b.written
  { ctx with
    file := file
    bytesWritten :=
      if count = b.data.length then ctx.bytesWritten + .ofNat b.data.length
      else ctx.bytesWritten }

/-- `put_le16`. -/
def putLe16 (v : UInt16) : Bytes := [.ofNat v.toNat, .ofNat (v.toNat / 256)]

/-- What `write_wav_header` writes, one piece after the other. The product in `block_align` is one
of `int`s; where it does not fit one, it is taken to wrap. -/
def wavHeader (sampleRate channels : Int32) (depth : BitDepth) (dataSize : UInt32) : List Bytes :=
  let byteRate := sampleRate.toUInt32 * channels.toUInt32 * depth.bytesPerSample
  let blockAlign := (channels.toUInt32 * depth.bytesPerSample).toUInt16
  let bitsPerSample := (depth.bytesPerSample * 8).toUInt16
  [[82, 73, 70, 70], -- "RIFF"
    word (36 + dataSize),
    [87, 65, 86, 69], -- "WAVE"
    [102, 109, 116, 32], -- "fmt "
    word 16,
    putLe16 depth.wavTag,
    putLe16 channels.toUInt32.toUInt16,
    word sampleRate.toUInt32,
    word byteRate,
    putLe16 blockAlign,
    putLe16 bitsPerSample,
    [100, 97, 116, 97], -- "data"
    word dataSize]

/-- Pieces with how much gets through of each at most. -/
def cut (pieces : List Bytes) (amounts : ℕ → ℕ) : List (Bytes × ℕ) :=
  pieces.zipIdx.map fun p => (p.1, amounts p.2)

/-- `write_wav_header`. -/
def writeWavHeader (f : ByteFile) (sampleRate channels : Int32) (depth : BitDepth)
    (dataSize : UInt32) (amounts : ℕ → ℕ) : ByteFile :=
  f.writeAll (cut (wavHeader sampleRate channels depth dataSize) amounts)

/-- A recording `pwf_record` accepts: its format, what is captured, how much gets through of each
write of the placeholder, of the buffers and of the closing header, and whether `fseek` goes back
to the start. -/
structure Recording where
  sampleRate : Int32
  channels : Int32
  depth : BitDepth
  bits : depth = defaultBitDepth ∨ ∃ arg, (arg, depth) ∈ audioBitDepths
  accepted : ∃ f, checkAudioConfig ⟨sampleRate, channels, depth.pwfFormat⟩ = .ok f
  placeholder : ℕ → ℕ
  buffers : List CapturedBuffer
  seeks : Bool
  closing : ℕ → ℕ

namespace Recording

variable (r : Recording)

/-- What `main` has when the capture ends. -/
def captured : RecordCtx :=
  let file := writeWavHeader .empty r.sampleRate r.channels r.depth 0 r.placeholder
  r.buffers.foldl onData ⟨file, .wav, 0⟩

/-- `fseek` to the start, whose result nothing looks at. -/
def sought (f : ByteFile) : ByteFile := if r.seeks then f.rewind else f

/-- The file `main` leaves. -/
def file : Bytes :=
  let ctx := r.captured
  (writeWavHeader (r.sought ctx.file) r.sampleRate r.channels r.depth ctx.bytesWritten
    r.closing).content

end Recording

/-! ### What the file should say -/

/-- The 16-bit number at a place of a file. -/
def halfAt (bs : Bytes) (i : ℕ) : UInt16 :=
  .ofNat ((bs.getD i 0).toNat + 256 * (bs.getD (i + 1) 0).toNat)

namespace Recording

variable (r : Recording)

def rate : ℕ := r.sampleRate.toInt.toNat

def channelCount : ℕ := r.channels.toInt.toNat

def width : ℕ := r.depth.bytesPerSample.toNat

/-- The sizes in the header are those of the file, and the rates are the products. -/
structure Consistent : Prop where
  header : 44 ≤ r.file.length
  dataSize : (wordAt r.file 40).toNat = r.file.length - 44
  riffSize : (wordAt r.file 4).toNat = 36 + (r.file.length - 44)
  byteRate : (wordAt r.file 28).toNat = r.rate * r.channelCount * r.width
  blockAlign : (halfAt r.file 32).toNat = r.channelCount * r.width

/-- The lengths of the pieces of a header. -/
def pieceLengths : List ℕ := [4, 4, 4, 4, 4, 2, 2, 4, 4, 2, 2, 4, 4]

/-- The bytes in the file before the header is written again. -/
def placed : ℕ :=
  (pieceLengths.zipIdx.map fun p => min (r.placeholder p.2) p.1).sum +
    (r.buffers.map fun b => min b.written b.data.length).sum

/-- The bytes of the buffers that were written whole. -/
def counted : ℕ :=
  ((r.buffers.filter fun b => b.data.length ≤ b.written).map fun b => b.data.length).sum

/-- Every write of the closing header is whole; so are those of the placeholder if it is what the
file begins with in the end. -/
structure Closed : Prop where
  closing : ∀ i n, pieceLengths[i]? = some n → n ≤ r.closing i
  placeholder : r.seeks = false → ∀ i n, pieceLengths[i]? = some n → n ≤ r.placeholder i

/-- The closing header goes over the placeholder; behind its 44 bytes are the buffers that were
written whole, and nothing else; their size and the size of the file fit 32 bits, and the products
their fields. -/
structure Fits : Prop where
  seeks : r.seeks = true
  whole : max r.placed 44 = 44 + r.counted
  size : 36 + r.counted < 2 ^ 32
  byteRate : r.rate * r.channelCount * r.width < 2 ^ 32
  blockAlign : r.channelCount * r.width < 2 ^ 16

/-! ### What is captured -/

section Capture

variable {ctx : RecordCtx} {b : CapturedBuffer}

/-- A buffer goes to the end of a WAV file, and counts if it is written whole. -/
theorem onData_wav (hf : ctx.format = .wav) (hend : ctx.file.pos = ctx.file.content.length) :
    (onData ctx b).format = .wav ∧
      (onData ctx b).file.pos = (onData ctx b).file.content.length ∧
      (onData ctx b).file.content = ctx.file.content ++ b.data.take b.written ∧
      (onData ctx b).bytesWritten =
        ctx.bytesWritten + .ofNat (if b.data.length ≤ b.written then b.data.length else 0) := by
  obtain ⟨hcontent, hpos⟩ := @ByteFile.write_at_end ctx.file (b.data.take b.written) hend
  have hfile : (onData ctx b).file = ctx.file.write (b.data.take b.written) := by
    simp [onData, hf, ByteFile.fwrite]
  rw [hfile]
  refine ⟨hf, hpos, hcontent, ?_⟩
  by_cases hwhole : b.data.length ≤ b.written
  · simp [onData, hf, ByteFile.fwrite, hwhole]
  · have hcount : ¬ (b.data.take b.written).length = b.data.length := by
      rw [List.length_take]
      omega
    simp only [onData, hf, ByteFile.fwrite, hcount, hwhole, if_false]
    simp

/-- Buffer after buffer, the file grows by what gets through, and the count by what was whole. -/
theorem foldl_onData (bs : List CapturedBuffer) (hf : ctx.format = .wav)
    (hend : ctx.file.pos = ctx.file.content.length) :
    (bs.foldl onData ctx).file.pos = (bs.foldl onData ctx).file.content.length ∧
      (bs.foldl onData ctx).file.content =
        ctx.file.content ++ bs.flatMap (fun b => b.data.take b.written) ∧
      (bs.foldl onData ctx).bytesWritten = ctx.bytesWritten +
        .ofNat ((bs.filter fun b => b.data.length ≤ b.written).map fun b => b.data.length).sum := by
  induction bs generalizing ctx with
  | nil => simp [hend]
  | cons b bs ih =>
    obtain ⟨hf', hend', hcontent, hcount⟩ := onData_wav (b := b) hf hend
    obtain ⟨hpos, hall, hwritten⟩ := ih hf' hend'
    rw [List.foldl_cons]
    refine ⟨hpos, ?_, ?_⟩
    · rw [hall, hcontent, List.flatMap_cons, List.append_assoc]
    · rw [hwritten, hcount]
      by_cases hwhole : b.data.length ≤ b.written
      · simp [hwhole, UInt32.add_assoc, UInt32.ofNat_add]
      · simp [hwhole]

end Capture

theorem cut_fst (pieces : List Bytes) (amounts : ℕ → ℕ) :
    (cut pieces amounts).map Prod.fst = pieces := by
  simp [cut, Function.comp_def]

theorem wavHeader_lengths (sampleRate channels : Int32) (depth : BitDepth) (dataSize : UInt32) :
    (wavHeader sampleRate channels depth dataSize).map List.length = pieceLengths := rfl

theorem wavHeader_length (sampleRate channels : Int32) (depth : BitDepth) (dataSize : UInt32) :
    (wavHeader sampleRate channels depth dataSize).flatten.length = 44 := rfl

/-- What gets through of a header has the lengths of what gets through of its pieces. -/
theorem cut_through_length (sampleRate channels : Int32) (depth : BitDepth) (dataSize : UInt32)
    (amounts : ℕ → ℕ) :
    (ByteFile.through (cut (wavHeader sampleRate channels depth dataSize) amounts)).length =
      (pieceLengths.zipIdx.map fun p => min (amounts p.2) p.1).sum := by
  rw [ByteFile.through_length, ← wavHeader_lengths sampleRate channels depth dataSize]
  simp only [cut, List.zipIdx_map, List.map_map]
  rfl

/-- The placeholder is all there is in the file at first. -/
theorem writeWavHeader_empty (sampleRate channels : Int32) (depth : BitDepth)
    (amounts : ℕ → ℕ) :
    (writeWavHeader .empty sampleRate channels depth 0 amounts).content =
        ByteFile.through (cut (wavHeader sampleRate channels depth 0) amounts) ∧
      (writeWavHeader .empty sampleRate channels depth 0 amounts).pos =
        (writeWavHeader .empty sampleRate channels depth 0 amounts).content.length := by
  have hend : ByteFile.empty.pos = ByteFile.empty.content.length := rfl
  have hfile : writeWavHeader .empty sampleRate channels depth 0 amounts =
      ByteFile.empty.write (ByteFile.through
        (cut (wavHeader sampleRate channels depth 0) amounts)) := ByteFile.writeAll_eq _
  rw [hfile]
  exact ⟨(ByteFile.write_at_end hend).1, (ByteFile.write_at_end hend).2⟩

/-- Before the header is written again: what got through of the placeholder and of the buffers. -/
theorem captured_content : r.captured.file.pos = r.captured.file.content.length ∧
    r.captured.file.content =
      ByteFile.through (cut (wavHeader r.sampleRate r.channels r.depth 0) r.placeholder) ++
        r.buffers.flatMap (fun b => b.data.take b.written) ∧
    r.captured.bytesWritten = .ofNat r.counted := by
  obtain ⟨hcontent, hpos⟩ := writeWavHeader_empty r.sampleRate r.channels r.depth r.placeholder
  obtain ⟨hend, hall, hwritten⟩ := @foldl_onData
    ⟨writeWavHeader .empty r.sampleRate r.channels r.depth 0 r.placeholder, .wav, 0⟩
    r.buffers rfl hpos
  refine ⟨hend, ?_, ?_⟩
  · rw [← hcontent]
    exact hall
  · rw [UInt32.zero_add] at hwritten
    exact hwritten

theorem captured_length : r.captured.file.content.length = r.placed := by
  rw [(captured_content r).2.1, List.length_append, cut_through_length, List.length_flatMap]
  simp only [List.length_take]
  rfl

/-- A header of which every write is whole. -/
theorem through_cut {amounts : ℕ → ℕ} (dataSize : UInt32)
    (h : ∀ i n, pieceLengths[i]? = some n → n ≤ amounts i) :
    ByteFile.through (cut (wavHeader r.sampleRate r.channels r.depth dataSize) amounts) =
      (wavHeader r.sampleRate r.channels r.depth dataSize).flatten := by
  have hwhole : ∀ w ∈ cut (wavHeader r.sampleRate r.channels r.depth dataSize) amounts,
      w.1.length ≤ w.2 := by
    intro w hw
    obtain ⟨⟨piece, i⟩, hp, rfl⟩ := List.mem_map.mp hw
    have hpiece := List.mem_zipIdx_iff_getElem?.mp hp
    apply h i piece.length
    rw [← wavHeader_lengths r.sampleRate r.channels r.depth dataSize, List.getElem?_map, hpiece]
    rfl
  rw [ByteFile.through_whole hwhole, cut_fst]

/-- A closing header that is written whole goes to the position `fseek` leaves. -/
theorem file_closed (h : r.Closed) : r.file = ((r.sought r.captured.file).write
    (wavHeader r.sampleRate r.channels r.depth (.ofNat r.counted)).flatten).content := by
  unfold file
  dsimp only
  rw [(captured_content r).2.2, writeWavHeader, ByteFile.writeAll_eq, through_cut r _ h.closing]

/-- Back at the start, it is what the file begins with. -/
theorem file_sought (h : r.Closed) (hs : r.seeks = true) : r.file =
    (wavHeader r.sampleRate r.channels r.depth (.ofNat r.counted)).flatten ++
      r.captured.file.content.drop 44 := by
  rw [file_closed r h, sought, if_pos hs]
  simp only [ByteFile.write, ByteFile.rewind, wavHeader_length, List.take_zero, List.nil_append,
    Nat.zero_add]

/-- Otherwise it stands behind the samples, and the file begins with the placeholder. -/
theorem file_unsought (h : r.Closed) (hs : r.seeks = false) :
    ∃ rest, r.file = (wavHeader r.sampleRate r.channels r.depth 0).flatten ++ rest ∧
      44 ≤ rest.length := by
  obtain ⟨hend, hcontent, -⟩ := captured_content r
  rw [through_cut r 0 (h.placeholder hs)] at hcontent
  have hfile := file_closed r h
  rw [sought, hs, if_neg Bool.false_ne_true, (ByteFile.write_at_end hend).1, hcontent,
    List.append_assoc] at hfile
  refine ⟨_, hfile, ?_⟩
  rw [List.length_append, wavHeader_length]
  omega

/-- It is at least as long as its header. -/
theorem file_length (h : r.Closed) (hs : r.seeks = true) : r.file.length = max r.placed 44 := by
  rw [file_sought r h hs, List.length_append, wavHeader_length, List.length_drop,
    captured_length r]
  omega

theorem toNat_toUInt32 {x : Int32} (h : 0 < x.toInt) : x.toUInt32.toNat = x.toInt.toNat := by
  have hbits : x.toUInt32.toNat = x.toBitVec.toNat := rfl
  have hint : x.toInt = x.toBitVec.toInt := rfl
  have hlt := x.toBitVec.isLt
  rw [hint, BitVec.toInt_eq_toNat_cond] at h ⊢
  rw [hbits]
  split at h
  · rw [if_pos ‹_›]
    rfl
  · omega

/-- What `pwf_record` accepts has a rate and channels. -/
theorem accepted_pos : 0 < r.sampleRate.toInt ∧ 0 < r.channels.toInt := by
  obtain ⟨f, hf⟩ := r.accepted
  have hchannels := (Stream.checkAudioConfig_ok hf).1
  exact ⟨Stream.checkAudioConfig_rate hf, by simpa using Int32.lt_iff_toInt_lt.mp hchannels⟩

@[simp] theorem halfAt_putLe16 {v : UInt16} {bs : Bytes} : halfAt (putLe16 v ++ bs) 0 = v := by
  have hv : v.toNat < 65536 := v.toNat_lt
  apply UInt16.toNat_inj.mp
  simp [halfAt, putLe16, UInt8.toNat_ofNat', UInt16.toNat_ofNat']
  omega

/-- What the fields of a header read as, before anything else. -/
theorem wavHeader_fields (sampleRate channels : Int32) (depth : BitDepth) (dataSize : UInt32)
    (rest : Bytes) :
    let bs := (wavHeader sampleRate channels depth dataSize).flatten ++ rest
    wordAt bs 40 = dataSize ∧ wordAt bs 4 = 36 + dataSize ∧
      wordAt bs 28 = sampleRate.toUInt32 * channels.toUInt32 * depth.bytesPerSample ∧
      halfAt bs 32 = (channels.toUInt32 * depth.bytesPerSample).toUInt16 := by
  let behind (k : ℕ) : Bytes :=
    ((wavHeader sampleRate channels depth dataSize).drop k).flatten ++ rest
  exact ⟨@Pod.wordAt_word dataSize (behind 13), @Pod.wordAt_word _ (behind 2),
    @Pod.wordAt_word _ (behind 9), @halfAt_putLe16 _ (behind 10)⟩

/-- What the fields of the closing header read as. -/
theorem closed_fields (h : r.Closed) (hs : r.seeks = true) :
    (wordAt r.file 40).toNat = r.counted % 2 ^ 32 ∧
      (wordAt r.file 4).toNat = (36 + r.counted) % 2 ^ 32 ∧
      (wordAt r.file 28).toNat = r.rate * r.channelCount * r.width % 2 ^ 32 ∧
      (halfAt r.file 32).toNat = r.channelCount * r.width % 2 ^ 16 := by
  obtain ⟨hrate, hchannels⟩ := r.accepted_pos
  have hrate := toNat_toUInt32 hrate
  have hchannels := toNat_toUInt32 hchannels
  obtain ⟨hdata, hriff, hbyte, hblock⟩ := wavHeader_fields r.sampleRate r.channels r.depth
    (.ofNat r.counted) (r.captured.file.content.drop 44)
  rw [file_sought r h hs, hdata, hriff, hbyte, hblock]
  unfold rate channelCount width
  refine ⟨UInt32.toNat_ofNat', ?_, ?_, ?_⟩
  · rw [UInt32.toNat_add, UInt32.toNat_ofNat']
    exact Nat.add_mod_mod _ _ _
  · rw [UInt32.toNat_mul, UInt32.toNat_mul, hrate, hchannels]
    exact Nat.mod_mul_mod _ _ _
  · rw [UInt32.toNat_toUInt16, UInt32.toNat_mul, hchannels]
    exact Nat.mod_mod_of_dvd _ (by decide)

theorem counted_le_placed : r.counted ≤ r.placed := by
  have hbuffers : ∀ bs : List CapturedBuffer,
      ((bs.filter fun b => b.data.length ≤ b.written).map fun b => b.data.length).sum ≤
        (bs.map fun b => min b.written b.data.length).sum := by
    intro bs
    induction bs with
    | nil => simp
    | cons b bs ih =>
      by_cases hwhole : b.data.length ≤ b.written
      · simp [hwhole]
        omega
      · simp [hwhole]
        omega
  have hall := hbuffers r.buffers
  unfold counted placed
  omega

end Recording

theorem stereo_accepted :
    ∃ f, checkAudioConfig ⟨48000, 2, defaultBitDepth.pwfFormat⟩ = .ok f := ⟨.s16, by decide⟩

/-- A recording at the defaults, whose headers are written whole. -/
def stereoRecording (buffers : List CapturedBuffer) (seeks : Bool) : Recording :=
  ⟨48000, 2, defaultBitDepth, Or.inl rfl, stereo_accepted, fun _ => 4, buffers, seeks, fun _ => 4⟩

theorem stereoRecording_closed (buffers : List CapturedBuffer) (seeks : Bool) :
    (stereoRecording buffers seeks).Closed := by
  have hle : ∀ k ∈ Recording.pieceLengths, k ≤ 4 := by decide
  constructor
  · intro i n hn
    exact hle n (List.mem_of_getElem? hn)
  · intro _ i n hn
    exact hle n (List.mem_of_getElem? hn)

end TinyPipewire.Utils
