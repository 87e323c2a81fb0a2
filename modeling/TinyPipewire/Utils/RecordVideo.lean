import TinyPipewire.Core.FormatBytes
import TinyPipewire.Lib.CString
import TinyPipewire.Lib.MarkedFrames
import TinyPipewire.Utils.Record

/-!
# A recording to a YUV4MPEG2 file

`pwf_record` writes a line with the size and the rate it asks for, and each captured buffer behind
a marker; it compares no buffer with the size. Each write may be cut short. What the file says is
given by a reader of the format.
-/

namespace TinyPipewire.Utils

open TinyPipewire.Core (VideoConfig VideoFormatPod SpaBuilders setVideoConfig)

/-! ### What is recorded -/

/-- The options `main` checks. -/
structure RecordOptions where
  video : Bool
  format : Option RecordFormat
  config : VideoConfig
  deriving DecidableEq, Repr

/-- The checks of `main`: the format it records in, or none if it refuses. -/
def recordFormat (o : RecordOptions) : Option RecordFormat :=
  let format := o.format.getD (if o.video then .raw else .wav)
  if o.video = false ∧ (format = .raw ∨ format = .y4m) then none
  else if o.video = true ∧ (format = .wav ∨ format = .pcm) then none
  else if format = .y4m ∧ o.config.pixelFormat ≠ some "I420" then none
  else if format = .y4m ∧ o.config.fps ≤ 0 then none
  else some format

/-- `%d`. -/
def printInt (n : Int32) : List Char :=
  if n < 0 then '-' :: Nat.toDigits 10 n.toInt.natAbs else Nat.toDigits 10 n.toInt.natAbs

/-- The words of the line `write_y4m_header` prints. -/
def y4mWords (width height fps : Int32) : List (List Char) :=
  [['Y', 'U', 'V', '4', 'M', 'P', 'E', 'G', '2'], 'W' :: printInt width, 'H' :: printInt height,
    'F' :: (printInt fps ++ [':', '1']), ['I', 'p'], ['A', '0', ':', '0'],
    ['C', '4', '2', '0', 'j', 'p', 'e', 'g']]

/-- One byte for each character. -/
def charBytes (cs : List Char) : Bytes := cs.map fun c => .ofNat c.toNat

/-- What `write_y4m_header` prints. -/
def y4mHeader (width height fps : Int32) : Bytes :=
  charBytes ([' '].intercalate (y4mWords width height fps) ++ ['\n'])

/-- A recording of video in frames: `main` accepts the options and the stream the format. How much
gets through of the header and of each buffer is part of it. -/
structure Y4mRecording where
  options : RecordOptions
  spa : SpaBuilders
  checked : recordFormat options = some .y4m
  accepted : ∃ pod, setVideoConfig spa options.config false = .ok pod
  header : ℕ
  buffers : List CapturedBuffer

namespace Y4mRecording

variable (r : Y4mRecording)

def headerLine : Bytes :=
  y4mHeader r.options.config.width r.options.config.height r.options.config.fps

/-- The file `main` leaves. -/
def file : Bytes :=
  let file := (ByteFile.empty.fwrite r.headerLine r.header).1
  (r.buffers.foldl onData ⟨file, .y4m, 0⟩).file.content

end Y4mRecording

/-! ### A reader -/

/-- What the first line of a file says. -/
structure Y4mInfo where
  width : ℕ
  height : ℕ
  rate : ℕ × ℕ
  colour : List Char
  deriving DecidableEq, Repr

/-- A frame of 4:2:0 with 8 bits: a plane of samples, and two of half the width and height. -/
def Y4mInfo.frameSize (i : Y4mInfo) : ℕ :=
  i.width * i.height + 2 * ((i.width + 1) / 2 * ((i.height + 1) / 2))

def readNat (cs : List Char) : Option ℕ :=
  if cs ≠ [] ∧ cs.all Char.isDigit = true then some (Nat.ofDigitChars 10 cs 0) else none

/-- The value of the first word with this tag. -/
def readTag (tag : Char) : List (List Char) → Option (List Char)
  | [] => none
  | [] :: ws => readTag tag ws
  | (c :: cs) :: ws => if c = tag then some cs else readTag tag ws

/-- A fraction, as `30:1`. -/
def readRate (cs : List Char) : Option (ℕ × ℕ) :=
  match cs.splitOn ':' with
  | [num, den] => (readNat num).bind fun a => (readNat den).map fun b => (a, b)
  | _ => none

def readWords : List (List Char) → Option Y4mInfo
  | magic :: ws =>
    if magic = ['Y', 'U', 'V', '4', 'M', 'P', 'E', 'G', '2'] then
      ((readTag 'W' ws).bind readNat).bind fun w =>
        ((readTag 'H' ws).bind readNat).bind fun h =>
          ((readTag 'F' ws).bind readRate).bind fun f =>
            (readTag 'C' ws).map fun c => ⟨w, h, f, c⟩
    else none
  | [] => none

/-- The line, the frames behind it, and what is left. -/
def readY4m (bs : Bytes) : Option (Y4mInfo × List Bytes × Bytes) :=
  let line := bs.takeWhile (· ≠ 10)
  if line.length < bs.length then
    (readWords ((line.map fun b => Char.ofNat b.toNat).splitOn ' ')).map fun info =>
      (info, MarkedFrames.read frameMarker info.frameSize (bs.drop (line.length + 1)))
  else none

/-! ### The line -/

variable {n : Int32} {cs : List Char} {r : Y4mRecording}

theorem printInt_of_pos (h : 0 < n) : printInt n = Nat.toDigits 10 n.toInt.toNat := by
  have hpos : 0 < n.toInt := by simpa using Int32.lt_iff_toInt_lt.mp h
  have hn : ¬ n < 0 := by
    rw [Int32.lt_iff_toInt_lt]
    simp
    omega
  have habs : n.toInt.natAbs = n.toInt.toNat := by omega
  rw [printInt, if_neg hn, habs]

theorem printInt_digits (h : 0 < n) : ∀ c ∈ printInt n, c.isDigit = true := by
  rw [printInt_of_pos h]
  intro c hc
  exact Nat.isDigit_of_mem_toDigits (by decide) (by decide) hc

/-- A positive number is read as it was printed. -/
theorem readNat_printInt (h : 0 < n) : readNat (printInt n) = some n.toInt.toNat := by
  have hne : printInt n ≠ [] := by
    rw [printInt_of_pos h]
    exact Nat.toDigits_ne_nil
  have hall : (printInt n).all Char.isDigit = true := List.all_eq_true.mpr (printInt_digits h)
  rw [readNat, if_pos ⟨hne, hall⟩, printInt_of_pos h]
  exact congrArg some Nat.ofDigitChars_ten_toDigits

theorem digit_ne {c d : Char} (hc : c.isDigit = true) (hd : d.isDigit = false) : d ≠ c := by
  rintro rfl
  rw [hc] at hd
  cases hd

theorem readRate_printInt (h : 0 < n) :
    readRate (printInt n ++ [':', '1']) = some (n.toInt.toNat, 1) := by
  have hcolon : ':' ∉ printInt n := fun hin => digit_ne (printInt_digits h _ hin) rfl rfl
  have hsplit : (printInt n ++ [':', '1']).splitOn ':' = [printInt n, ['1']] := by
    rw [List.splitOn_append_cons_self_of_not_mem hcolon]
    rfl
  unfold readRate
  rw [hsplit]
  dsimp only
  rw [readNat_printInt h]
  rfl

/-- A character that shows. -/
def IsGraph (c : Char) : Prop := 32 < c.toNat ∧ c.toNat < 127

instance (c : Char) : Decidable (IsGraph c) :=
  inferInstanceAs (Decidable (32 < c.toNat ∧ c.toNat < 127))

theorem isGraph_printInt (h : 0 < n) : ∀ c ∈ printInt n, IsGraph c := by
  intro c hc
  have hd := CString.isDigit_toNat (printInt_digits h c hc)
  exact ⟨by omega, by omega⟩

theorem isGraph_cons {c : Char} (hc : IsGraph c) (hcs : ∀ d ∈ cs, IsGraph d) :
    ∀ d ∈ c :: cs, IsGraph d := by
  intro d hd
  rcases List.mem_cons.mp hd with rfl | hd
  · exact hc
  · exact hcs d hd

theorem isGraph_of_all (h : cs.all (fun c => decide (IsGraph c)) = true) :
    ∀ c ∈ cs, IsGraph c := by
  intro c hc
  exact of_decide_eq_true (List.all_eq_true.mp h c hc)

/-- The words have no blank in them, and no end of a line. -/
theorem isGraph_word {width height fps : Int32} (hw : 0 < width) (hh : 0 < height) (hf : 0 < fps) :
    ∀ w ∈ y4mWords width height fps, ∀ c ∈ w, IsGraph c := by
  intro w hin
  simp only [y4mWords, List.mem_cons, List.not_mem_nil, or_false] at hin
  rcases hin with rfl | rfl | rfl | rfl | rfl | rfl | rfl
  · exact isGraph_of_all rfl
  · exact isGraph_cons (by decide) (isGraph_printInt hw)
  · exact isGraph_cons (by decide) (isGraph_printInt hh)
  · apply isGraph_cons (by decide)
    intro c hc
    rcases List.mem_append.mp hc with hc | hc
    · exact isGraph_printInt hf c hc
    · exact @isGraph_of_all [':', '1'] rfl c hc
  · exact isGraph_of_all rfl
  · exact isGraph_of_all rfl
  · exact isGraph_of_all rfl

/-- Between the words there are only blanks. -/
theorem mem_intercalate {ws : List (List Char)} {c : Char} (hc : c ∈ [' '].intercalate ws) :
    c = ' ' ∨ ∃ w ∈ ws, c ∈ w := by
  induction ws with
  | nil => simp at hc
  | cons w ws ih =>
    cases ws with
    | nil => exact Or.inr ⟨w, by simp, by simpa using hc⟩
    | cons v ws =>
      rw [List.intercalate_cons_cons, List.mem_append, List.mem_append] at hc
      rcases hc with (hc | hc) | hc
      · exact Or.inr ⟨w, by simp, hc⟩
      · exact Or.inl (List.mem_singleton.mp hc)
      · rcases ih hc with rfl | ⟨u, hu, hcu⟩
        · exact Or.inl rfl
        · exact Or.inr ⟨u, List.mem_cons_of_mem w hu, hcu⟩

/-- The bytes of ASCII characters are read as they were. -/
theorem chars_charBytes (h : ∀ c ∈ cs, c.toNat < 128) :
    (charBytes cs).map (fun b => Char.ofNat b.toNat) = cs := by
  induction cs with
  | nil => rfl
  | cons c cs ih =>
    have hc := h c (by simp)
    have hbyte : (UInt8.ofNat c.toNat).toNat = c.toNat := UInt8.toNat_ofNat_of_lt' (by
      show c.toNat < 256
      omega)
    have hrest := ih fun d hd => h d (List.mem_cons_of_mem c hd)
    rw [charBytes, List.map_cons, List.map_cons, ← charBytes, hrest, hbyte, Char.ofNat_toNat]

/-- The words are read as they were printed. -/
theorem readWords_y4mWords {width height fps : Int32} (hw : 0 < width) (hh : 0 < height)
    (hf : 0 < fps) :
    readWords (y4mWords width height fps) = some
      ⟨width.toInt.toNat, height.toInt.toNat, (fps.toInt.toNat, 1),
        ['4', '2', '0', 'j', 'p', 'e', 'g']⟩ := by
  have hwidth : readTag 'W' (y4mWords width height fps).tail = some (printInt width) := rfl
  have hheight : readTag 'H' (y4mWords width height fps).tail = some (printInt height) := rfl
  have hfps : readTag 'F' (y4mWords width height fps).tail =
      some (printInt fps ++ [':', '1']) := rfl
  have hcolour : readTag 'C' (y4mWords width height fps).tail =
      some ['4', '2', '0', 'j', 'p', 'e', 'g'] := rfl
  have hwords : y4mWords width height fps =
      ['Y', 'U', 'V', '4', 'M', 'P', 'E', 'G', '2'] :: (y4mWords width height fps).tail := rfl
  rw [hwords, readWords, if_pos rfl, hwidth, hheight, hfps, hcolour]
  simp only [Option.bind_some, readNat_printInt hw, readNat_printInt hh, readRate_printInt hf,
    Option.map_some]

/-- The line that was printed is the one that is read, and the frames follow it. -/
theorem readY4m_header {width height fps : Int32} (hw : 0 < width) (hh : 0 < height)
    (hf : 0 < fps) (rest : Bytes) :
    let info : Y4mInfo := ⟨width.toInt.toNat, height.toInt.toNat, (fps.toInt.toNat, 1),
      ['4', '2', '0', 'j', 'p', 'e', 'g']⟩
    readY4m (y4mHeader width height fps ++ rest) =
      some (info, MarkedFrames.read frameMarker info.frameSize rest) := by
  intro info
  set text := [' '].intercalate (y4mWords width height fps) with htext
  have hgraph := isGraph_word hw hh hf
  have hchars : ∀ c ∈ text, 32 ≤ c.toNat ∧ c.toNat < 128 := by
    intro c hc
    rcases mem_intercalate hc with rfl | ⟨w, hin, hcw⟩
    · decide
    · obtain ⟨hlo, hhi⟩ := hgraph w hin c hcw
      exact ⟨by omega, by omega⟩
  have hheader : y4mHeader width height fps ++ rest = charBytes text ++ 10 :: rest := by
    simp [y4mHeader, charBytes, ← htext]
  have hline : (charBytes text ++ 10 :: rest).takeWhile (· ≠ 10) = charBytes text := by
    rw [List.takeWhile_append_of_pos]
    · simp
    · intro b hb
      obtain ⟨c, hc, rfl⟩ := List.mem_map.mp hb
      obtain ⟨hlo, hhi⟩ := hchars c hc
      have hne : UInt8.ofNat c.toNat ≠ 10 := by
        intro he
        have hnat : (UInt8.ofNat c.toNat).toNat = c.toNat := UInt8.toNat_ofNat_of_lt' (by
          show c.toNat < 256
          omega)
        rw [he] at hnat
        have hten : (10 : UInt8).toNat = 10 := rfl
        omega
      simpa using hne
  have hsplit : ((charBytes text).map fun b => Char.ofNat b.toNat).splitOn ' ' =
      y4mWords width height fps := by
    rw [chars_charBytes fun c hc => (hchars c hc).2, htext]
    apply List.splitOn_intercalate
    · intro w hin hblank
      have hlt := (hgraph w hin ' ' hblank).1
      simp at hlt
    · simp [y4mWords]
  have hlen : (charBytes text).length < (charBytes text ++ 10 :: rest).length := by simp
  have hdrop : (charBytes text ++ 10 :: rest).drop ((charBytes text).length + 1) = rest := by
    rw [← List.drop_drop, List.drop_left]
    rfl
  unfold readY4m
  rw [hheader, hline]
  dsimp only
  rw [if_pos hlen, hsplit, readWords_y4mWords hw hh hf, hdrop]
  rfl

/-! ### What is in the file -/

/-- What of a buffer is in the file. -/
def CapturedBuffer.placed (b : CapturedBuffer) : Bytes :=
  frameMarker.take b.marker ++ b.data.take b.written

/-- A buffer of the size, of which all is written, and the marker before it. -/
def CapturedBuffer.Whole (size : ℕ) (b : CapturedBuffer) : Prop :=
  frameMarker.length ≤ b.marker ∧ b.data.length ≤ b.written ∧ b.data.length = size

section Capture

variable {ctx : RecordCtx} {b : CapturedBuffer} {bs : List CapturedBuffer} {size : ℕ}

/-- A buffer goes to the end of the file, behind its marker. -/
theorem onData_y4m (hf : ctx.format = .y4m) (hend : ctx.file.pos = ctx.file.content.length) :
    (onData ctx b).format = .y4m ∧
      (onData ctx b).file.pos = (onData ctx b).file.content.length ∧
      (onData ctx b).file.content = ctx.file.content ++ b.placed := by
  have hfile : (onData ctx b).file = ctx.file.write b.placed := by
    simp only [onData, hf, if_true, ByteFile.fwrite]
    exact ByteFile.write_write
  obtain ⟨hcontent, hpos⟩ := @ByteFile.write_at_end ctx.file b.placed hend
  rw [hfile]
  exact ⟨hf, hpos, hcontent⟩

theorem foldl_onData_y4m (bs : List CapturedBuffer) (hf : ctx.format = .y4m)
    (hend : ctx.file.pos = ctx.file.content.length) :
    (bs.foldl onData ctx).file.content = ctx.file.content ++ bs.flatMap CapturedBuffer.placed := by
  induction bs generalizing ctx with
  | nil => simp
  | cons b bs ih =>
    obtain ⟨hf', hend', hcontent⟩ := onData_y4m (b := b) hf hend
    have hrest := ih hf' hend'
    rw [List.foldl_cons, hrest, hcontent, List.flatMap_cons, List.append_assoc]

/-- Whole buffers are in the file as frames are written. -/
theorem flatMap_placed (h : ∀ b ∈ bs, b.Whole size) :
    bs.flatMap CapturedBuffer.placed =
      MarkedFrames.written frameMarker (bs.map CapturedBuffer.data) := by
  induction bs with
  | nil => rfl
  | cons b bs ih =>
    obtain ⟨hmarker, hdata, -⟩ := h b (by simp)
    have hrest := ih fun c hc => h c (List.mem_cons_of_mem b hc)
    have hplaced : b.placed = frameMarker ++ b.data := by
      rw [CapturedBuffer.placed, List.take_of_length_le hmarker, List.take_of_length_le hdata]
    rw [List.flatMap_cons, hrest, hplaced]
    rfl

theorem length_placed (b : CapturedBuffer) :
    b.placed.length = min b.marker frameMarker.length + min b.written b.data.length := by
  simp [CapturedBuffer.placed]

/-- Buffers that fill as much of the file as their frames do are whole. -/
theorem whole_of_length
    (h : (MarkedFrames.written frameMarker (bs.map CapturedBuffer.data)).length ≤
      (bs.flatMap CapturedBuffer.placed).length)
    (hsize : ∀ b ∈ bs, b.data.length = size) : ∀ b ∈ bs, b.Whole size := by
  have hsum : ∀ cs : List CapturedBuffer, (cs.flatMap CapturedBuffer.placed).length ≤
      (MarkedFrames.written frameMarker (cs.map CapturedBuffer.data)).length := by
    intro cs
    induction cs with
    | nil => simp
    | cons c cs ih =>
      have hc := length_placed c
      simp only [MarkedFrames.written, List.map_cons, List.flatMap_cons,
        List.length_append] at ih ⊢
      omega
  induction bs with
  | nil => simp
  | cons b bs ih =>
    have hb := length_placed b
    have hrest := hsum bs
    have hdata := hsize b (by simp)
    simp only [MarkedFrames.written, List.map_cons, List.flatMap_cons,
      List.length_append] at h hrest ih
    intro c hc
    rcases List.mem_cons.mp hc with rfl | hc
    · exact ⟨by omega, by omega, hdata⟩
    · exact ih (by omega) (fun d hd => hsize d (List.mem_cons_of_mem b hd)) c hc

/-- Whole buffers are the first frames that are read. -/
theorem read_placed (h : ∀ b ∈ bs, b.Whole size) (more : List CapturedBuffer) :
    ∃ frames left, MarkedFrames.read frameMarker size ((bs ++ more).flatMap CapturedBuffer.placed) =
        (bs.map CapturedBuffer.data ++ frames, left) ∧
      (more = [] → frames = [] ∧ left = []) := by
  have hm : frameMarker ≠ [] := by decide
  have hsizes : ∀ f ∈ bs.map CapturedBuffer.data, f.length = size := by
    intro f hf
    obtain ⟨b, hb, rfl⟩ := List.mem_map.mp hf
    exact (h b hb).2.2
  obtain ⟨frames, left, hread, hend⟩ :=
    MarkedFrames.read_written hm hsizes (more.flatMap CapturedBuffer.placed)
  refine ⟨frames, left, ?_, ?_⟩
  · rw [List.flatMap_append, flatMap_placed h]
    exact hread
  · rintro rfl
    exact hend rfl

/-- Only whole buffers are read as they were captured, with nothing left. -/
theorem read_placed_iff : MarkedFrames.read frameMarker size (bs.flatMap CapturedBuffer.placed) =
    (bs.map CapturedBuffer.data, []) ↔ ∀ b ∈ bs, b.Whole size := by
  constructor
  · intro h
    obtain ⟨hall, hsizes⟩ :=
      MarkedFrames.read_sound frameMarker size (bs.flatMap CapturedBuffer.placed)
    rw [h, List.append_nil] at hall
    rw [h] at hsizes
    apply whole_of_length
    · exact Nat.le_of_eq (congrArg List.length hall.symm)
    · intro b hb
      exact hsizes b.data (List.mem_map_of_mem hb)
  · intro h
    obtain ⟨frames, left, hread, hend⟩ := read_placed h []
    obtain ⟨rfl, rfl⟩ := hend rfl
    rw [List.append_nil, List.append_nil] at hread
    exact hread

end Capture

/-- Frames are recorded of I420 only, and at a rate. -/
theorem recordFormat_y4m {o : RecordOptions} (h : recordFormat o = some .y4m) :
    o.config.pixelFormat = some "I420" ∧ 0 < o.config.fps := by
  unfold recordFormat at h
  extract_lets format at h
  by_cases haudio : o.video = false ∧ (format = .raw ∨ format = .y4m)
  · rw [if_pos haudio] at h
    cases h
  rw [if_neg haudio] at h
  by_cases hvideo : o.video = true ∧ (format = .wav ∨ format = .pcm)
  · rw [if_pos hvideo] at h
    cases h
  rw [if_neg hvideo] at h
  by_cases hpixels : format = .y4m ∧ o.config.pixelFormat ≠ some "I420"
  · rw [if_pos hpixels] at h
    cases h
  rw [if_neg hpixels] at h
  by_cases hrate : format = .y4m ∧ o.config.fps ≤ 0
  · rw [if_pos hrate] at h
    cases h
  rw [if_neg hrate] at h
  have hy4m := Option.some.inj h
  constructor
  · by_contra hne
    exact hpixels ⟨hy4m, hne⟩
  · exact Int32.not_le.mp fun hle => hrate ⟨hy4m, hle⟩

namespace Y4mRecording

/-- What the line says. -/
def info (r : Y4mRecording) : Y4mInfo where
  width := r.options.config.width.toInt.toNat
  height := r.options.config.height.toInt.toNat
  rate := (r.options.config.fps.toInt.toNat, 1)
  colour := ['4', '2', '0', 'j', 'p', 'e', 'g']

/-- What is recorded has a size and a rate. -/
theorem accepted_pos (r : Y4mRecording) : 0 < r.options.config.width ∧
    0 < r.options.config.height ∧ 0 < r.options.config.fps := by
  obtain ⟨hname, hfps⟩ := recordFormat_y4m r.checked
  obtain ⟨pod, hpod⟩ := r.accepted
  obtain ⟨hw, hh, -⟩ := Core.setVideoConfig_raw hname (by decide) hpod
  exact ⟨hw, hh, hfps⟩

/-- Behind a line that is written whole is what got through of the buffers. -/
theorem file_eq (r : Y4mRecording) (h : r.headerLine.length ≤ r.header) :
    r.file = r.headerLine ++ r.buffers.flatMap CapturedBuffer.placed := by
  have hend : ByteFile.empty.pos = ByteFile.empty.content.length := rfl
  obtain ⟨hcontent, hpos⟩ :=
    @ByteFile.write_at_end .empty (r.headerLine.take r.header) hend
  have hfile : r.file = _ := @foldl_onData_y4m ⟨_, .y4m, 0⟩ r.buffers rfl hpos
  rw [hfile]
  change (ByteFile.empty.write (r.headerLine.take r.header)).content ++ _ = _
  rw [hcontent, List.take_of_length_le h]
  rfl

end Y4mRecording

/-- Where the line is written whole, a reader finds the size and the rate, then the buffers up to
one that is cut short or of another size; it finds all of them and nothing else exactly if there
is no such buffer. -/
theorem y4m_read_back (r : Y4mRecording) (h : r.headerLine.length ≤ r.header) :
    ∃ frames left, readY4m r.file = some (r.info, frames, left) ∧
      (∀ bs, bs <+: r.buffers → (∀ b ∈ bs, b.Whole r.info.frameSize) →
        bs.map CapturedBuffer.data <+: frames) ∧
      (frames = r.buffers.map CapturedBuffer.data ∧ left = [] ↔
        ∀ b ∈ r.buffers, b.Whole r.info.frameSize) := by
  obtain ⟨hw, hh, hf⟩ := r.accepted_pos
  have hread := readY4m_header hw hh hf (r.buffers.flatMap CapturedBuffer.placed)
  refine ⟨_, _, (congrArg readY4m (r.file_eq h)).trans hread, ?_, ?_⟩
  · rintro bs ⟨more, hmore⟩ hbs
    obtain ⟨frames, left, hfirst, -⟩ := read_placed hbs more
    rw [hmore] at hfirst
    exact ⟨frames, (congrArg Prod.fst hfirst).symm⟩
  · rw [← read_placed_iff, Prod.ext_iff]
    rfl

theorem tiny_accepted (spa : SpaBuilders) :
    ∃ pod, setVideoConfig spa ⟨2, 2, some "I420", 1⟩ false = .ok pod := ⟨_, rfl⟩

/-- A recording of frames of two by two, its line written whole. -/
def tinyRecording (buffers : List CapturedBuffer) : Y4mRecording where
  options := ⟨true, some .y4m, ⟨2, 2, some "I420", 1⟩⟩
  spa := ⟨Core.encodedFormat .mjpg, Core.encodedFormat .h264⟩
  checked := by decide
  accepted := tiny_accepted _
  header := 64
  buffers := buffers

/-- A frame, one of which the last byte is not written, and another frame: only the first is
read. -/
theorem y4m_read_back_short :
    ∃ frames left, readY4m (tinyRecording [⟨[1, 2, 3, 4, 5, 6], 6, 6⟩,
        ⟨[1, 2, 3, 4, 5, 6], 6, 5⟩, ⟨[7, 7, 7, 7, 7, 7], 6, 6⟩]).file =
          some (⟨2, 2, (1, 1), ['4', '2', '0', 'j', 'p', 'e', 'g']⟩, frames, left) ∧
      [[1, 2, 3, 4, 5, 6]] <+: frames ∧
      ¬ (frames = [[1, 2, 3, 4, 5, 6], [1, 2, 3, 4, 5, 6], [7, 7, 7, 7, 7, 7]] ∧ left = []) := by
  obtain ⟨frames, left, hread, hfirst, hall⟩ := y4m_read_back (tinyRecording
    [⟨[1, 2, 3, 4, 5, 6], 6, 6⟩, ⟨[1, 2, 3, 4, 5, 6], 6, 5⟩, ⟨[7, 7, 7, 7, 7, 7], 6, 6⟩])
    (by decide +kernel)
  refine ⟨frames, left, hread, hfirst [⟨[1, 2, 3, 4, 5, 6], 6, 6⟩] ⟨_, rfl⟩ ?_, ?_⟩
  · intro b hb
    rw [List.mem_singleton.mp hb]
    exact ⟨by decide, by decide, by decide⟩
  · intro hsame
    obtain ⟨-, hwritten, -⟩ := hall.mp hsame ⟨[1, 2, 3, 4, 5, 6], 6, 5⟩ (by simp [tinyRecording])
    exact absurd hwritten (by decide)

end TinyPipewire.Utils
