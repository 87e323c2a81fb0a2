import TinyPipewire.Core.FormatPods
import TinyPipewire.Core.VideoEnum

/-!
# The parameters a stream connects with

They are written into one buffer on the stack, of 1024 bytes, and each is read where it was
built. A format that is connected with is also one that an enumeration would list.
-/

namespace TinyPipewire.Core

open Pod
open TinyPipewire.Filter (spaTypeObject)

/-- `SPA_POD_BUILDER_INIT` on an array of `size` bytes, whatever is in it. -/
def stackBuilder (size : UInt32) (garbage : Bytes) : Builder :=
  .init (garbage.takeD size.toNat 0) size (by rw [List.takeD_length])

/-- What the parameter built as the `i`-th points to. -/
def paramOf (r : Builder × List UInt32) (i : ℕ) : Option Value := r.2[i]?.bind (paramAt r.1)

variable {b b' : Builder} {type id : UInt32} {items : List Item} {pre body rest : Bytes}
  {config : VideoConfig} {fmt : SpaVideoFormat} {useDmabuf : Bool} {garbage : Bytes}
  {name : String} {spa : SpaBuilders} {pod : VideoFormatPod}

/-! ### Objects one after the other -/

/-- A value is read where it was built, with what was built before and after it. -/
theorem paramAt_wrote (h : b.Wrote b' (pre ++ (encode type body ++ rest)))
    (hfit : b.offset.toNat + (pre ++ (encode type body ++ rest)).length ≤ b.size.toNat)
    (hsmall : body.length < 2 ^ 32) :
    paramAt b' (b.offset + .ofNat pre.length) =
      some ⟨type, b.offset.toNat + pre.length + 8, body⟩ := by
  have hroom := b.room
  have hlen : (pre ++ (encode type body ++ rest)).length =
      pre.length + (encode type body ++ rest).length := List.length_append
  have hoffset : (b.offset + .ofNat pre.length).toNat = b.offset.toNat + pre.length :=
    Builder.toNat_add_ofNat (k := b.size) (by omega)
  have htaken : (b.data.take b.offset.toNat).length = b.offset.toNat :=
    List.length_take_of_le (by omega)
  have hdata : b'.data = (b.data.take b.offset.toNat ++ pre) ++ (encode type body ++
      (rest ++ b.data.drop (b.offset.toNat + (pre ++ (encode type body ++ rest)).length))) := by
    rw [h.data hfit, write]
    simp only [List.append_assoc]
  have hbefore : (b.data.take b.offset.toNat ++ pre).length = b.offset.toNat + pre.length := by
    rw [List.length_append, htaken]
  have hwhole : (b.data.take b.offset.toNat ++ pre).length + (encode type body).length ≤
      b'.size.toNat := by
    rw [h.size, hbefore]
    rw [hlen, List.length_append] at hfit
    omega
  obtain ⟨k, hk⟩ := Nat.exists_eq_add_of_le hwhole
  have hcut : (b'.data.take b'.size.toNat).drop (b.offset.toNat + pre.length) =
      encode type body ++ (rest ++ b.data.drop
        (b.offset.toNat + (pre ++ (encode type body ++ rest)).length)).take k := by
    rw [hdata, hk, Nat.add_assoc, List.take_length_add_append, ← hbefore, List.drop_left,
      List.take_length_add_append]
  rw [paramAt, hoffset, hcut]
  exact read_encode hsmall

/-- An object is read where it was built in a buffer that starts empty. -/
theorem paramAt_object {size : UInt32} (pre : Bytes) {offset : UInt32}
    (h : (stackBuilder size garbage).Wrote b' (pre ++ (objectBytes type id items ++ rest)))
    (hfit : (pre ++ (objectBytes type id items ++ rest)).length ≤ size.toNat)
    (hoffset : offset = (stackBuilder size garbage).offset + .ofNat pre.length) :
    ∃ v, paramAt b' offset = some v ∧ IsObject v type id items := by
  have hzero : (stackBuilder size garbage).offset.toNat = 0 := rfl
  have hsize : (stackBuilder size garbage).size = size := rfl
  have hbound := size.toNat_lt
  have hlen := hfit
  rw [List.length_append, List.length_append, objectBytes, encode_length] at hlen
  refine ⟨⟨spaTypeObject, (stackBuilder size garbage).offset.toNat + pre.length + 8,
    container type id items⟩, ?_, rfl, rfl⟩
  rw [hoffset]
  exact paramAt_wrote h (by rw [hzero, hsize, Nat.zero_add]; exact hfit) (by omega)

/-- The last of them has nothing behind it. -/
theorem paramAt_last {size : UInt32} (pre later : Bytes) {offset : UInt32}
    (h : (stackBuilder size garbage).Wrote b' (pre ++ (later ++ objectBytes type id items)))
    (hfit : (pre ++ (later ++ objectBytes type id items)).length ≤ size.toNat)
    (hoffset : offset = (stackBuilder size garbage).offset + .ofNat (pre ++ later).length) :
    ∃ v, paramAt b' offset = some v ∧ IsObject v type id items := by
  have hshape : pre ++ (later ++ objectBytes type id items) =
      pre ++ later ++ (objectBytes type id items ++ []) := by
    rw [List.append_nil, List.append_assoc]
  rw [hshape] at h hfit
  exact paramAt_object _ h hfit hoffset

theorem objectBytes_length : (objectBytes type id items).length =
    16 + (items.flatMap Item.bytes).length := by
  rw [objectBytes, encode_length, container_length]
  omega

theorem objectBytes_mod (type id : UInt32) (items : List Item) :
    (objectBytes type id items).length % 8 = 0 := by
  have hitems : (items.flatMap Item.bytes).length % 8 = 0 := flatMap_bytes_mod
  rw [objectBytes_length]
  omega

theorem videoFormatItems_length (config : VideoConfig) (fmt : SpaVideoFormat) :
    ((videoFormatItems config fmt).flatMap Item.bytes).length ≤ 152 := by
  have hrate : (rateItem config).bytes.length ≤ 56 := by
    rw [Item.bytes_length]
    unfold rateItem
    split <;> simp [SpaFraction.body, choiceBody, roundUp, padding]
  have hfixed : ((fixedItems config fmt).flatMap Item.bytes).length = 96 := by
    simp [fixedItems, SpaRectangle.body, roundUp, padding]
  rw [videoFormatItems, List.flatMap_append, List.length_append, List.flatMap_singleton]
  omega

/-- The parameters are written one after the other from the start of the buffer. -/
theorem buildVideoParams_wrote (garbage : Bytes) (config : VideoConfig) (fmt : SpaVideoFormat)
    (useDmabuf : Bool) :
    let r := buildVideoParams (stackBuilder 1024 garbage) config fmt useDmabuf
    (stackBuilder 1024 garbage).Wrote r.1
        (objectBytes spaTypeObjectFormat spaParamEnumFormat (videoFormatItems config fmt) ++
          (objectBytes spaTypeObjectParamMeta spaParamMeta metaHeaderItems ++
            if useDmabuf then [] else
              objectBytes spaTypeObjectParamBuffers spaParamBuffers cpuBuffersItems)) := by
  have hstart : (stackBuilder 1024 garbage).offset.toNat % 8 = 0 := rfl
  have hformat := buildVideoFormatPod_wrote (b := stackBuilder 1024 garbage) config fmt hstart
  have hmiddle := hformat.aligned hstart (objectBytes_mod _ _ _)
  have hheader := buildMetaHeader_wrote hmiddle
  have hbuffers := buildCpuBuffers_wrote (hheader.aligned hmiddle (objectBytes_mod _ _ _))
  cases useDmabuf with
  | true => exact hformat.trans (hheader.trans .refl)
  | false => exact hformat.trans (hheader.trans hbuffers)

theorem buildVideoParams_offsets (b : Builder) (config : VideoConfig) (fmt : SpaVideoFormat)
    (useDmabuf : Bool) :
    (buildVideoParams b config fmt useDmabuf).2 =
      b.offset :: (buildVideoFormatPod b config fmt).offset ::
        if useDmabuf then []
        else [(buildMetaHeader (buildVideoFormatPod b config fmt)).offset] := by
  cases useDmabuf <;> rfl

theorem paramOf_cons {r : Builder × List UInt32} {i : ℕ} {offset : UInt32} {l : List UInt32}
    (h : r.2 = offset :: l) : paramOf r (i + 1) = paramOf (r.1, l) i := by
  rw [paramOf, h, List.getElem?_cons_succ]
  rfl

theorem paramOf_zero {r : Builder × List UInt32} {offset : UInt32} {l : List UInt32}
    (h : r.2 = offset :: l) : paramOf r 0 = paramAt r.1 offset := by
  rw [paramOf, h, List.getElem?_cons_zero, Option.bind_some]

/-- All of it fits, and each parameter is read as the object it was built as. -/
theorem buildVideoParams_read (config : VideoConfig) (fmt : SpaVideoFormat) (useDmabuf : Bool)
    (garbage : Bytes) :
    let r := buildVideoParams (stackBuilder 1024 garbage) config fmt useDmabuf
    r.1.offset.toNat ≤ 272 ∧
      (∃ v, paramOf r 0 = some v ∧
        IsObject v spaTypeObjectFormat spaParamEnumFormat (videoFormatItems config fmt)) ∧
      (∃ v, paramOf r 1 = some v ∧ IsObject v spaTypeObjectParamMeta spaParamMeta metaHeaderItems) ∧
      if useDmabuf then paramOf r 2 = none else
        ∃ v, paramOf r 2 = some v ∧
          IsObject v spaTypeObjectParamBuffers spaParamBuffers cpuBuffersItems := by
  have hstart : (stackBuilder 1024 garbage).offset.toNat % 8 = 0 := rfl
  have hwrote := buildVideoParams_wrote garbage config fmt useDmabuf
  have hformat := buildVideoFormatPod_wrote (b := stackBuilder 1024 garbage) config fmt hstart
  have hmiddle := hformat.aligned hstart (objectBytes_mod _ _ _)
  have hheader := buildMetaHeader_wrote hmiddle
  have hitems := videoFormatItems_length config fmt
  have hmeta : (metaHeaderItems.flatMap Item.bytes).length = 48 := by
    simp [metaHeaderItems, roundUp, padding]
  have hcpu : (cpuBuffersItems.flatMap Item.bytes).length = 24 := by
    simp [cpuBuffersItems, roundUp, padding]
  have hall : (objectBytes spaTypeObjectFormat spaParamEnumFormat (videoFormatItems config fmt) ++
      (objectBytes spaTypeObjectParamMeta spaParamMeta metaHeaderItems ++
        if useDmabuf then [] else
          objectBytes spaTypeObjectParamBuffers spaParamBuffers cpuBuffersItems)).length ≤ 272 := by
    rw [List.length_append, List.length_append, objectBytes_length, objectBytes_length]
    split
    · rw [List.length_nil]
      omega
    · rw [objectBytes_length]
      omega
  have hoffsets := buildVideoParams_offsets (stackBuilder 1024 garbage) config fmt useDmabuf
  generalize buildVideoParams (stackBuilder 1024 garbage) config fmt useDmabuf = r at *
  refine ⟨?_, ?_, ?_, ?_⟩
  · rw [hwrote.offset, Builder.toNat_add_ofNat (k := 1024)]
    · exact (Nat.zero_add _).trans_le hall
    · exact (Nat.zero_add _).trans_le (hall.trans (by decide))
  · rw [paramOf_zero hoffsets]
    exact paramAt_object [] hwrote (hall.trans (by decide)) (UInt32.add_zero _).symm
  · rw [paramOf_cons hoffsets, paramOf_zero rfl]
    exact paramAt_object _ hwrote (hall.trans (by decide)) hformat.offset
  · rw [paramOf_cons hoffsets, paramOf_cons rfl]
    cases useDmabuf with
    | true => rfl
    | false =>
      rw [if_neg Bool.false_ne_true] at hwrote hall
      rw [if_neg Bool.false_ne_true, if_neg Bool.false_ne_true, paramOf_zero rfl]
      exact paramAt_last _ _ hwrote (hall.trans (by decide)) (hformat.trans hheader).offset

/-! ### The stream's parameters -/

/-- The names stand for formats that have the name, and that SPA has a number for. -/
theorem lookupPixelFormat_named (h : lookupPixelFormat name ≠ .unknown) :
    pixelFormatNameOrNull (lookupPixelFormat name) = some name ∧
      videoFormatOf (lookupPixelFormat name).id = lookupPixelFormat name := by
  cases hfind : pixelFormats.find? fun f => f.1 = name with
  | none =>
    rw [lookupPixelFormat, hfind] at h
    exact absurd rfl h
  | some f =>
    have hname : f.1 = name := by simpa using List.find?_some hfind
    have hmem : f ∈ pixelFormats := List.mem_of_find?_eq_some hfind
    have hfmt : lookupPixelFormat name = f.2 := by rw [lookupPixelFormat, hfind]; rfl
    have hnamed : pixelFormatNameOrNull f.2 = some f.1 ∧ videoFormatOf f.2.id = f.2 := by
      simp only [pixelFormats, List.mem_cons, List.not_mem_nil, or_false] at hmem
      rcases hmem with rfl | rfl | rfl | rfl | rfl <;> decide
    rw [hfmt, ← hname]
    exact hnamed

/-- A raw format is connected with only after its checks. -/
theorem setVideoConfig_raw (hname : config.pixelFormat = some name)
    (hraw : name ≠ "MJPG" ∧ name ≠ "H264") (hok : setVideoConfig spa config useDmabuf = .ok pod) :
    0 < config.width ∧ 0 < config.height ∧ lookupPixelFormat name ≠ .unknown ∧
      pod = buildVideoFormat config (lookupPixelFormat name) := by
  simp only [setVideoConfig, hname, hraw.1, hraw.2, or_self, false_and, if_false] at hok
  split at hok
  · cases hok
  · rename_i hranges
    obtain ⟨hw, hh, -⟩ : ¬ config.width ≤ 0 ∧ ¬ config.height ≤ 0 ∧ ¬ config.fps < 0 := by
      simpa [not_or] using hranges
    split at hok
    · cases hok
    · rename_i hknown
      refine ⟨Int32.not_le.mp hw, Int32.not_le.mp hh, hknown, ?_⟩
      exact (Except.ok.inj hok).symm

theorem toUInt32_ne_zero {x : Int32} (h : 0 < x) : x.toUInt32 ≠ 0 := by
  intro hzero
  have hpos : 0 < x.toUInt32.toInt32 := h
  rw [hzero] at hpos
  exact absurd hpos (by decide)

theorem fps_whole (x : Int32) : SpaFraction.fps ⟨x.toUInt32, 1⟩ = x := by
  have hdiv : x.toUInt32 / 1 = x.toUInt32 := by
    apply UInt32.toNat_inj.mp
    rw [UInt32.toNat_div]
    exact Nat.div_one _
  rw [SpaFraction.fps, hdiv]
  rfl

/-- Any rate is a range up to the fastest, and the slowest of it is none. -/
theorem listed_built (config : VideoConfig) (fmt : SpaVideoFormat) :
    (buildVideoFormat config fmt).listed = [if config.fps > 0 then config.fps else 1000] := by
  by_cases hpos : config.fps > 0
  · have hlisted : SpaFraction.Listed ⟨config.fps.toUInt32, 1⟩ := by
      rw [listed_iff, fps_whole]
      exact ⟨show (1 : UInt32) ≠ 0 by decide, hpos⟩
    simp [VideoFormatPod.listed, buildVideoFormat, hpos, fixedRate, namedRates, hlisted, fps_whole]
  · have hslowest : ¬ SpaFraction.Listed ⟨0, 1⟩ := by decide
    have hfastest : SpaFraction.Listed ⟨1000, 1⟩ := by decide
    have hrate : SpaFraction.fps ⟨1000, 1⟩ = 1000 := by decide
    simp [VideoFormatPod.listed, buildVideoFormat, hpos, namedRates, hslowest, hfastest, hrate]

/-- Listed, a format that was asked for is of one size, and at its rate or at the fastest. -/
theorem videoEntry_built (hname : pixelFormatNameOrNull fmt = some name) (hw : 0 < config.width)
    (hh : 0 < config.height) :
    videoEntry (buildVideoFormat config fmt) =
      some ⟨name, config.width, config.height, config.width, config.height,
        [if config.fps > 0 then config.fps else 1000]⟩ := by
  have hparse : parsePixelFormat (buildVideoFormat config fmt) = some name := hname
  have hset : ¬ (config.size.width = 0 ∨ config.size.height = 0) :=
    not_or.mpr ⟨toUInt32_ne_zero hw, toUInt32_ne_zero hh⟩
  have hsize : (buildVideoFormat config fmt).SizeEnds config.size config.size := Or.inl ⟨rfl, rfl⟩
  rw [videoEntry, hparse, parseSize_eq hsize, if_neg hset]
  simp only [parseFramerates_eq, listed_built]
  rfl

/-- The parameters of a raw video stream all fit the buffer, and they are read as the format
that was asked for, the header, and memory that the CPU sees where it was not to be DMABUF.
Listed as a target's, that format is the one asked for. -/
theorem video_params_read_back (garbage : Bytes) (hname : config.pixelFormat = some name)
    (hraw : name ≠ "MJPG" ∧ name ≠ "H264") (hok : setVideoConfig spa config useDmabuf = .ok pod) :
    let r := buildVideoParams (stackBuilder 1024 garbage) config (lookupPixelFormat name) useDmabuf
    r.1.offset.toNat ≤ 1024 ∧
      (paramOf r 0).bind readVideoFormat = some pod ∧
      (paramOf r 1).bind readMeta = some ⟨some spaMetaHeader, some spaMetaHeaderSize⟩ ∧
      (paramOf r 2).bind readBuffers =
        (if useDmabuf then none else some ⟨none, some cpuDataType⟩) ∧
      videoEntry pod = some ⟨name, config.width, config.height, config.width, config.height,
        [if config.fps > 0 then config.fps else 1000]⟩ := by
  obtain ⟨hw, hh, hknown, rfl⟩ := setVideoConfig_raw hname hraw hok
  obtain ⟨hnamed, hid⟩ := lookupPixelFormat_named hknown
  obtain ⟨hfits, ⟨format, hformat, hisFormat⟩, ⟨header, hheader, hisHeader⟩, hmemory⟩ :=
    buildVideoParams_read config (lookupPixelFormat name) useDmabuf garbage
  refine ⟨hfits.trans (by omega), ?_, ?_, ?_, videoEntry_built hnamed hw hh⟩
  · rw [hformat, Option.bind_some]
    exact readVideoFormat_built hid hisFormat
  · rw [hheader, Option.bind_some]
    exact readMeta_built hisHeader
  · cases useDmabuf with
    | true =>
      rw [if_pos rfl] at hmemory
      rw [hmemory, if_pos rfl, Option.bind_none]
    | false =>
      rw [if_neg Bool.false_ne_true] at hmemory
      obtain ⟨memory, hread, hisMemory⟩ := hmemory
      rw [hread, if_neg Bool.false_ne_true, Option.bind_some]
      exact readBuffers_cpu hisMemory

/-- A webcam is asked for at 30 frames per second. -/
def webcamConfig : VideoConfig := ⟨640, 480, some "YUYV", 30⟩

theorem video_params_read_back_webcam :
    let r := buildVideoParams (stackBuilder 1024 []) webcamConfig (lookupPixelFormat "YUYV") false
    r.1.offset.toNat ≤ 1024 ∧
      (paramOf r 0).bind readVideoFormat = some (buildVideoFormat webcamConfig .yuy2) ∧
      (paramOf r 1).bind readMeta = some ⟨some spaMetaHeader, some spaMetaHeaderSize⟩ ∧
      (paramOf r 2).bind readBuffers = (if false then none else some ⟨none, some cpuDataType⟩) ∧
      videoEntry (buildVideoFormat webcamConfig .yuy2) = some ⟨"YUYV", 640, 480, 640, 480,
        [if webcamConfig.fps > 0 then webcamConfig.fps else 1000]⟩ :=
  video_params_read_back [] rfl (by decide)
    (show setVideoConfig ⟨encodedFormat .mjpg, encodedFormat .h264⟩ webcamConfig false =
      .ok (buildVideoFormat webcamConfig .yuy2) by decide)

end TinyPipewire.Core
