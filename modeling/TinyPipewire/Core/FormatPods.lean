import TinyPipewire.Core.VideoFormat
import TinyPipewire.Filter.EventCodec
import TinyPipewire.Lib.PodChoice

/-!
# Formats as bytes

`pwf_spa_format.c` writes the objects a port or a stream connects with into one buffer, one
after the other. A format read back by its properties is the one that was asked for.
-/

namespace TinyPipewire.Core

open Pod
open TinyPipewire.Filter (spaTypeObject isObjectType)

/-! ### SPA's numbers -/

def spaTypeId : UInt32 := 3

def spaTypeInt : UInt32 := 4

def spaTypeRectangle : UInt32 := 10

def spaTypeFraction : UInt32 := 11

def spaTypeObjectFormat : UInt32 := 0x40003

def spaTypeObjectParamBuffers : UInt32 := 0x40004

def spaTypeObjectParamMeta : UInt32 := 0x40005

def spaParamEnumFormat : UInt32 := 3

def spaParamBuffers : UInt32 := 5

def spaParamMeta : UInt32 := 6

def spaFormatMediaType : UInt32 := 1

def spaFormatMediaSubtype : UInt32 := 2

def spaFormatVideoFormat : UInt32 := 0x20001

def spaFormatVideoSize : UInt32 := 0x20003

def spaFormatVideoFramerate : UInt32 := 0x20004

def spaParamBuffersBuffers : UInt32 := 1

def spaParamBuffersDataType : UInt32 := 6

def spaParamMetaType : UInt32 := 1

def spaParamMetaSize : UInt32 := 2

def spaMetaHeader : UInt32 := 1

/-- `sizeof(struct spa_meta_header)`. -/
def spaMetaHeaderSize : UInt32 := 32

def spaChoiceRange : UInt32 := 1

def SpaMediaType.id : SpaMediaType → UInt32
  | .video => 2
  | .other id => id

def mediaTypeOf (id : UInt32) : SpaMediaType := if id = 2 then .video else .other id

def SpaMediaSubtype.id : SpaMediaSubtype → UInt32
  | .raw => 1
  | .h264 => 0x20001
  | .mjpg => 0x20002
  | .other id => id

def mediaSubtypeOf (id : UInt32) : SpaMediaSubtype :=
  if id = 1 then .raw else if id = 0x20001 then .h264 else if id = 0x20002 then .mjpg else .other id

def SpaVideoFormat.id : SpaVideoFormat → UInt32
  | .unknown => 0
  | .encoded => 1
  | .i420 => 2
  | .yuy2 => 4
  | .rgb => 15
  | .nv12 => 23
  | .nv21 => 24
  | .other id => id

def videoFormatOf (id : UInt32) : SpaVideoFormat :=
  if id = 0 then .unknown else if id = 1 then .encoded else if id = 2 then .i420
  else if id = 4 then .yuy2 else if id = 15 then .rgb else if id = 23 then .nv12
  else if id = 24 then .nv21 else .other id

/-- `1 << SPA_DATA_DmaBuf`. -/
def dmabufDataType : UInt32 := 8

/-- `(1 << SPA_DATA_MemPtr) | (1 << SPA_DATA_MemFd)`. -/
def cpuDataType : UInt32 := 6

/-! ### Building -/

def SpaRectangle.body (r : SpaRectangle) : Bytes := word r.width ++ word r.height

def SpaFraction.body (f : SpaFraction) : Bytes := word f.num ++ word f.denom

/-- `spa_pod_builder_push_object`. -/
def pushObject (b : Builder) (type id : UInt32) : Builder :=
  b.push spaTypeObject (word type ++ word id)

/-- A property with a plain value, as `spa_pod_builder_add` adds it. -/
def addProp (b : Builder) (key type : UInt32) (body : Bytes) : Builder :=
  (b.entry key 0).value type body

/-- The frame rate asked for, or any that the source picks. -/
def addFramerate (b : Builder) (config : VideoConfig) : Builder :=
  if config.fps > 0 then
    addProp b spaFormatVideoFramerate spaTypeFraction (SpaFraction.body ⟨config.fps.toUInt32, 1⟩)
  else
    (b.entry spaFormatVideoFramerate 0).choice spaChoiceRange spaTypeFraction
      (SpaFraction.body ⟨30, 1⟩) [SpaFraction.body ⟨0, 1⟩, SpaFraction.body ⟨1000, 1⟩]

/-- `pwf_spa_build_video_format`, as bytes. -/
def buildVideoFormatPod (b : Builder) (config : VideoConfig) (fmt : SpaVideoFormat) : Builder :=
  let b := pushObject b spaTypeObjectFormat spaParamEnumFormat
  let b := addProp b spaFormatMediaType spaTypeId (word SpaMediaType.video.id)
  let b := addProp b spaFormatMediaSubtype spaTypeId (word SpaMediaSubtype.raw.id)
  let b := addProp b spaFormatVideoFormat spaTypeId (word fmt.id)
  let b := addProp b spaFormatVideoSize spaTypeRectangle config.size.body
  (addFramerate b config).pop

/-- So many buffers at least, and 32 at most. -/
def addBufferCount (b : Builder) (minBuffers : UInt32) : Builder :=
  (b.entry spaParamBuffersBuffers 0).choice spaChoiceRange spaTypeInt (word minBuffers)
    [word minBuffers, word 32]

/-- `pwf_spa_build_dmabuf_buffers`. -/
def buildDmabufBuffers (b : Builder) (extraBuffers : UInt32) : Builder :=
  let minBuffers := 2 + extraBuffers
  let b := pushObject b spaTypeObjectParamBuffers spaParamBuffers
  let b := addBufferCount b minBuffers
  (addProp b spaParamBuffersDataType spaTypeInt (word dmabufDataType)).pop

/-- `pwf_spa_build_cpu_buffers`. -/
def buildCpuBuffers (b : Builder) : Builder :=
  let b := pushObject b spaTypeObjectParamBuffers spaParamBuffers
  (addProp b spaParamBuffersDataType spaTypeInt (word cpuDataType)).pop

/-- `pwf_spa_build_meta_header`. -/
def buildMetaHeader (b : Builder) : Builder :=
  let b := pushObject b spaTypeObjectParamMeta spaParamMeta
  let b := addProp b spaParamMetaType spaTypeId (word spaMetaHeader)
  (addProp b spaParamMetaSize spaTypeInt (word spaMetaHeaderSize)).pop

/-- The parameters of a raw video stream or port, and where each is built: the format, the
header, and what memory there may be, which a DMABUF port says later. -/
def buildVideoParams (b : Builder) (config : VideoConfig) (fmt : SpaVideoFormat)
    (useDmabuf : Bool) : Builder × List UInt32 :=
  let format := buildVideoFormatPod b config fmt
  let header := buildMetaHeader format
  if useDmabuf then (header, [b.offset, format.offset])
  else (buildCpuBuffers header, [b.offset, format.offset, header.offset])

/-! ### What is written -/

def rateItem (config : VideoConfig) : Item :=
  if config.fps > 0 then
    ⟨spaFormatVideoFramerate, 0, spaTypeFraction, SpaFraction.body ⟨config.fps.toUInt32, 1⟩⟩
  else
    ⟨spaFormatVideoFramerate, 0, typeChoice, choiceBody spaChoiceRange 0 spaTypeFraction 8
      [SpaFraction.body ⟨30, 1⟩, SpaFraction.body ⟨0, 1⟩, SpaFraction.body ⟨1000, 1⟩]⟩

/-- What is fixed of a format. -/
def fixedItems (config : VideoConfig) (fmt : SpaVideoFormat) : List Item :=
  [⟨spaFormatMediaType, 0, spaTypeId, word SpaMediaType.video.id⟩,
    ⟨spaFormatMediaSubtype, 0, spaTypeId, word SpaMediaSubtype.raw.id⟩,
    ⟨spaFormatVideoFormat, 0, spaTypeId, word fmt.id⟩,
    ⟨spaFormatVideoSize, 0, spaTypeRectangle, config.size.body⟩]

def videoFormatItems (config : VideoConfig) (fmt : SpaVideoFormat) : List Item :=
  fixedItems config fmt ++ [rateItem config]

def countItem (minBuffers : UInt32) : Item :=
  ⟨spaParamBuffersBuffers, 0, typeChoice, choiceBody spaChoiceRange 0 spaTypeInt 4
    [word minBuffers, word minBuffers, word 32]⟩

def dmabufTypeItem : Item := ⟨spaParamBuffersDataType, 0, spaTypeInt, word dmabufDataType⟩

def dmabufBuffersItems (extraBuffers : UInt32) : List Item :=
  [countItem (2 + extraBuffers), dmabufTypeItem]

def cpuBuffersItems : List Item :=
  [⟨spaParamBuffersDataType, 0, spaTypeInt, word cpuDataType⟩]

def metaHeaderItems : List Item :=
  [⟨spaParamMetaType, 0, spaTypeId, word spaMetaHeader⟩,
    ⟨spaParamMetaSize, 0, spaTypeInt, word spaMetaHeaderSize⟩]

/-- A whole object. -/
def objectBytes (type id : UInt32) (items : List Item) : Bytes :=
  encode spaTypeObject (container type id items)

section Written

variable {b b' : Builder} {config : VideoConfig} {fmt : SpaVideoFormat} {type id key : UInt32}
  {body : Bytes} {items : List Item}

theorem pushObject_aligned (ha : b.offset.toNat % 8 = 0) :
    (pushObject b type id).offset.toNat % 8 = 0 := by
  have hoffset : (pushObject b type id).offset = b.offset + 16 := rfl
  rw [hoffset, UInt32.toNat_add]
  have h16 : (16 : UInt32).toNat = 16 := rfl
  omega

/-- Plain properties, one after the other. -/
def addProps (b : Builder) (items : List Item) : Builder :=
  items.foldl (fun b e => addProp b e.first e.type e.body) b

theorem addProps_wrote (b : Builder) (h : ∀ e ∈ items, e.second = 0) :
    b.Wrote (addProps b items) (items.flatMap Item.bytes) := by
  induction items generalizing b with
  | nil => exact Builder.Wrote.refl
  | cons e items ih =>
    have he : b.Wrote (addProp b e.first e.type e.body) e.bytes := by
      have hentry : b.Wrote (addProp b e.first e.type e.body)
          (Item.bytes ⟨e.first, 0, e.type, e.body⟩) := Builder.entry_value_wrote
      rwa [← h e (by simp)] at hentry
    rw [List.flatMap_cons]
    exact he.trans (ih _ fun d hd => h d (by simp [hd]))

theorem addFramerate_wrote (config : VideoConfig) (ha : b.offset.toNat % 8 = 0) :
    b.Wrote (addFramerate b config) (rateItem config).bytes := by
  unfold addFramerate rateItem
  split
  · exact Builder.entry_value_wrote
  · exact Builder.entry_choice_wrote ha

theorem buildVideoFormatPod_wrote (config : VideoConfig) (fmt : SpaVideoFormat)
    (ha : b.offset.toNat % 8 = 0) :
    b.Wrote (buildVideoFormatPod b config fmt)
      (objectBytes spaTypeObjectFormat spaParamEnumFormat (videoFormatItems config fmt)) := by
  have hsteps : buildVideoFormatPod b config fmt = (addFramerate (addProps
      (pushObject b spaTypeObjectFormat spaParamEnumFormat) (fixedItems config fmt)) config).pop :=
    rfl
  have hfixed := addProps_wrote (pushObject b spaTypeObjectFormat spaParamEnumFormat)
    (show ∀ e ∈ fixedItems config fmt, e.second = 0 by simp [fixedItems])
  have hrate := addFramerate_wrote config
    (hfixed.aligned (pushObject_aligned ha) flatMap_bytes_mod)
  rw [hsteps]
  apply Builder.object_wrote ha
  rw [videoFormatItems, List.flatMap_append, List.flatMap_singleton]
  exact hfixed.trans hrate

theorem addBufferCount_wrote (minBuffers : UInt32) (ha : b.offset.toNat % 8 = 0) :
    b.Wrote (addBufferCount b minBuffers) (countItem minBuffers).bytes :=
  Builder.entry_choice_wrote ha

theorem buildDmabufBuffers_wrote (ha : b.offset.toNat % 8 = 0) (extraBuffers : UInt32) :
    b.Wrote (buildDmabufBuffers b extraBuffers)
      (objectBytes spaTypeObjectParamBuffers spaParamBuffers
        (dmabufBuffersItems extraBuffers)) := by
  have hsteps : buildDmabufBuffers b extraBuffers = (addProps (addBufferCount
      (pushObject b spaTypeObjectParamBuffers spaParamBuffers) (2 + extraBuffers))
      [dmabufTypeItem]).pop := rfl
  have hopen : (pushObject b spaTypeObjectParamBuffers spaParamBuffers).offset.toNat % 8 = 0 :=
    pushObject_aligned ha
  have hcount := addBufferCount_wrote (2 + extraBuffers) hopen
  have htype := addProps_wrote (addBufferCount
    (pushObject b spaTypeObjectParamBuffers spaParamBuffers) (2 + extraBuffers))
    (show ∀ e ∈ [dmabufTypeItem], e.second = 0 by simp [dmabufTypeItem])
  rw [hsteps]
  apply Builder.object_wrote ha
  rw [dmabufBuffersItems, List.flatMap_cons]
  exact hcount.trans htype

/-- An object of plain properties is written whole. -/
theorem addProps_pop_wrote (ha : b.offset.toNat % 8 = 0) (h : ∀ e ∈ items, e.second = 0)
    (hb : b' = (addProps (pushObject b type id) items).pop) :
    b.Wrote b' (objectBytes type id items) := by
  rw [hb]
  exact Builder.object_wrote ha (addProps_wrote _ h)

theorem buildCpuBuffers_wrote (ha : b.offset.toNat % 8 = 0) :
    b.Wrote (buildCpuBuffers b)
      (objectBytes spaTypeObjectParamBuffers spaParamBuffers cpuBuffersItems) := by
  apply addProps_pop_wrote ha
  · simp [cpuBuffersItems]
  · rfl

theorem buildMetaHeader_wrote (ha : b.offset.toNat % 8 = 0) :
    b.Wrote (buildMetaHeader b)
      (objectBytes spaTypeObjectParamMeta spaParamMeta metaHeaderItems) := by
  apply addProps_pop_wrote ha
  · simp [metaHeaderItems]
  · rfl

end Written

/-! ### Reading back -/

def choiceOf (kind : UInt32) : SpaChoice :=
  if kind = 0 then .none else if kind = 1 then .range else if kind = 2 then .step
  else if kind = 3 then .enum else .flags

def rectangleAt (bs : Bytes) : SpaRectangle := ⟨wordAt bs 0, wordAt bs 4⟩

def fractionAt (bs : Bytes) : SpaFraction := ⟨wordAt bs 0, wordAt bs 4⟩

/-- A property's value by the type of its values, each as long as its type. -/
def propOf (p : UInt32 × Bytes) : SpaProp :=
  let v := valuesOf p.1 p.2
  if v.type = spaTypeId then .ids ⟨choiceOf v.kind, v.vals.map fun x => videoFormatOf (wordAt x 0)⟩
  else if v.type = spaTypeRectangle then .rectangles ⟨choiceOf v.kind, v.vals.map rectangleAt⟩
  else if v.type = spaTypeFraction then .fractions ⟨choiceOf v.kind, v.vals.map fractionAt⟩
  else .other

/-- A property that is one word of a type, or a choice of none of it. -/
def wordOf (type : UInt32) (p : UInt32 × Bytes) : Option UInt32 :=
  let v := valuesOf p.1 p.2
  if v.kind = 0 ∧ v.type = type then (v.vals.head?.filter (4 ≤ ·.length)).map (wordAt · 0) else none

/-- A format read by its properties, as `spa_format_parse` and `spa_pod_find_prop` find them. -/
def readVideoFormat (v : Value) : Option VideoFormatPod :=
  if isObjectType v spaTypeObjectFormat then
    some
      { mediaType := ((v.prop spaFormatMediaType).bind (wordOf spaTypeId)).map mediaTypeOf
        mediaSubtype := ((v.prop spaFormatMediaSubtype).bind (wordOf spaTypeId)).map mediaSubtypeOf
        format := (v.prop spaFormatVideoFormat).map propOf
        size := (v.prop spaFormatVideoSize).map propOf
        framerate := (v.prop spaFormatVideoFramerate).map propOf }
  else none

/-- An object of `SPA_TYPE_OBJECT_ParamMeta`. -/
structure SpaMetaParam where
  type : Option UInt32
  size : Option UInt32
  deriving DecidableEq, Repr

def readMeta (v : Value) : Option SpaMetaParam :=
  if isObjectType v spaTypeObjectParamMeta then
    some ⟨(v.prop spaParamMetaType).bind (wordOf spaTypeId),
      (v.prop spaParamMetaSize).bind (wordOf spaTypeInt)⟩
  else none

/-- An object of `SPA_TYPE_OBJECT_ParamBuffers`: how many, and of which memory. -/
structure SpaBuffersParam where
  buffers : Option Values
  dataType : Option UInt32
  deriving DecidableEq, Repr

def readBuffers (v : Value) : Option SpaBuffersParam :=
  if isObjectType v spaTypeObjectParamBuffers then
    some ⟨(v.prop spaParamBuffersBuffers).map fun p => valuesOf p.1 p.2,
      (v.prop spaParamBuffersDataType).bind (wordOf spaTypeInt)⟩
  else none

/-- What a parameter built at an offset points to, if it was written whole. -/
def paramAt (b : Builder) (offset : UInt32) : Option Value :=
  read offset.toNat ((b.data.take b.size.toNat).drop offset.toNat)

section Read

variable {v : Value} {type id key : UInt32} {items : List Item} {w : UInt32}
  {config : VideoConfig} {fmt : SpaVideoFormat}

/-- The value of an object that was written whole. -/
structure IsObject (v : Value) (type id : UInt32) (items : List Item) : Prop where
  object : v.type = spaTypeObject
  body : v.body = container type id items

theorem IsObject.isObjectType (h : IsObject v type id items) : isObjectType v type = true := by
  have hw : wordAt v.body 0 = type := by
    rw [h.body, container, List.append_assoc]
    exact wordAt_word
  have hlen : 8 ≤ v.body.length := by
    rw [h.body, container_length]
    omega
  simp [TinyPipewire.Filter.isObjectType, h.object, hw, hlen]

/-- A property whose key no other before it has. -/
theorem IsObject.prop (h : IsObject v type id items) (hsmall : ∀ e ∈ items, e.body.length ≤ 40)
    (before : List Item) {e : Item} {after : List Item} (hitems : items = before ++ e :: after)
    (hfirst : ∀ d ∈ before, d.first ≠ e.first) : v.prop e.first = some (e.type, e.body) := by
  have hfind : items.find? (fun d => d.first = e.first) = some e := by
    rw [hitems, List.find?_append, List.find?_eq_none.mpr fun d hd => by simpa using hfirst d hd]
    simp
  rw [Value.prop_container h.body fun d hd => Nat.lt_of_le_of_lt (hsmall d hd) (by omega), hfind]
  rfl

theorem wordOf_word (h : type ≠ typeChoice) : wordOf type (type, word w) = some w := by
  simp [wordOf, valuesOf_plain h, wordAt_word_self]

theorem rectangleAt_body (r : SpaRectangle) : rectangleAt r.body = r := by
  have hheight : wordAt r.body 4 = r.height := wordAt_word_add.trans wordAt_word_self
  have hwidth : wordAt r.body 0 = r.width := wordAt_word
  rw [rectangleAt, hwidth, hheight]

theorem fractionAt_body (f : SpaFraction) : fractionAt f.body = f := by
  have hdenom : wordAt f.body 4 = f.denom := wordAt_word_add.trans wordAt_word_self
  have hnum : wordAt f.body 0 = f.num := wordAt_word
  rw [fractionAt, hnum, hdenom]

theorem propOf_rate (config : VideoConfig) (fmt : SpaVideoFormat) :
    some (propOf ((rateItem config).type, (rateItem config).body)) =
      (buildVideoFormat config fmt).framerate := by
  unfold rateItem buildVideoFormat
  by_cases hfps : config.fps > 0
  · simp only [hfps, if_true, propOf, valuesOf_plain (show spaTypeFraction ≠ typeChoice by decide)]
    simp [spaTypeId, spaTypeRectangle, spaTypeFraction, choiceOf, fractionAt_body, fixedRate]
  · have hvals : valuesOf typeChoice (choiceBody spaChoiceRange 0 spaTypeFraction 8
        [SpaFraction.body ⟨30, 1⟩, SpaFraction.body ⟨0, 1⟩, SpaFraction.body ⟨1000, 1⟩]) =
        ⟨spaChoiceRange, spaTypeFraction,
          [SpaFraction.body ⟨30, 1⟩, SpaFraction.body ⟨0, 1⟩, SpaFraction.body ⟨1000, 1⟩]⟩ :=
      valuesOf_choice (by omega) (by omega) (by simp [SpaFraction.body])
        (by simp [spaChoiceRange])
    simp only [hfps, if_false, propOf, hvals]
    simp [spaTypeId, spaTypeRectangle, spaTypeFraction, spaChoiceRange, choiceOf, fractionAt_body]

theorem videoFormatItems_small : ∀ e ∈ videoFormatItems config fmt, e.body.length ≤ 40 := by
  have hrate : (rateItem config).body.length ≤ 40 := by
    unfold rateItem
    split <;> simp [SpaFraction.body, choiceBody]
  simp [videoFormatItems, fixedItems, SpaRectangle.body, hrate]

theorem rateItem_first (config : VideoConfig) :
    (rateItem config).first = spaFormatVideoFramerate := by
  unfold rateItem
  split <;> rfl

/-- The format read back is the one built. -/
theorem readVideoFormat_built (hfmt : videoFormatOf fmt.id = fmt)
    (h : IsObject v spaTypeObjectFormat spaParamEnumFormat (videoFormatItems config fmt)) :
    readVideoFormat v = some (buildVideoFormat config fmt) := by
  have hsmall : ∀ e ∈ videoFormatItems config fmt, e.body.length ≤ 40 := videoFormatItems_small
  have hmedia : v.prop spaFormatMediaType = some (spaTypeId, word SpaMediaType.video.id) :=
    h.prop hsmall [] rfl (by simp)
  have hsubtype : v.prop spaFormatMediaSubtype = some (spaTypeId, word SpaMediaSubtype.raw.id) :=
    h.prop hsmall ((fixedItems config fmt).take 1) rfl
      (by simp [fixedItems, spaFormatMediaType, spaFormatMediaSubtype])
  have hformat : v.prop spaFormatVideoFormat = some (spaTypeId, word fmt.id) :=
    h.prop hsmall ((fixedItems config fmt).take 2) rfl
      (by simp [fixedItems, spaFormatMediaType, spaFormatMediaSubtype, spaFormatVideoFormat])
  have hsize : v.prop spaFormatVideoSize = some (spaTypeRectangle, config.size.body) :=
    h.prop hsmall ((fixedItems config fmt).take 3) rfl
      (by simp [fixedItems, spaFormatMediaType, spaFormatMediaSubtype, spaFormatVideoFormat,
        spaFormatVideoSize])
  have hrate : v.prop spaFormatVideoFramerate =
      some ((rateItem config).type, (rateItem config).body) := by
    rw [← rateItem_first config]
    exact h.prop hsmall (fixedItems config fmt) rfl
      (by simp [fixedItems, rateItem_first, spaFormatMediaType, spaFormatMediaSubtype,
        spaFormatVideoFormat, spaFormatVideoSize, spaFormatVideoFramerate])
  have hid : spaTypeId ≠ typeChoice := by decide
  have hrectangle : spaTypeRectangle ≠ typeChoice := by decide
  rw [readVideoFormat, if_pos h.isObjectType, hmedia, hsubtype, hformat, hsize, hrate,
    Option.map_some, Option.map_some, Option.map_some, propOf_rate config fmt]
  simp only [Option.bind_some, wordOf_word hid, propOf, valuesOf_plain hid,
    valuesOf_plain hrectangle]
  simp [buildVideoFormat, spaTypeId, spaTypeRectangle, choiceOf, wordAt_word_self, hfmt,
    rectangleAt_body,
    fixedSize, mediaTypeOf, SpaMediaType.id, mediaSubtypeOf, SpaMediaSubtype.id]

theorem readMeta_built (h : IsObject v spaTypeObjectParamMeta spaParamMeta metaHeaderItems) :
    readMeta v = some ⟨some spaMetaHeader, some spaMetaHeaderSize⟩ := by
  have hsmall : ∀ e ∈ metaHeaderItems, e.body.length ≤ 40 := by simp [metaHeaderItems]
  have htype : v.prop spaParamMetaType = some (spaTypeId, word spaMetaHeader) :=
    h.prop hsmall [] rfl (by simp)
  have hsize : v.prop spaParamMetaSize = some (spaTypeInt, word spaMetaHeaderSize) :=
    h.prop hsmall (metaHeaderItems.take 1) rfl
      (by simp [metaHeaderItems, spaParamMetaType, spaParamMetaSize])
  rw [readMeta, if_pos h.isObjectType, htype, hsize, Option.bind_some, Option.bind_some,
    wordOf_word (by decide), wordOf_word (by decide)]

theorem readBuffers_cpu
    (h : IsObject v spaTypeObjectParamBuffers spaParamBuffers cpuBuffersItems) :
    readBuffers v = some ⟨none, some cpuDataType⟩ := by
  have hsmall : ∀ e ∈ cpuBuffersItems, e.body.length ≤ 40 := by simp [cpuBuffersItems]
  have hcount : v.prop spaParamBuffersBuffers = none := by
    rw [Value.prop_container h.body fun e he => Nat.lt_of_le_of_lt (hsmall e he) (by omega)]
    simp [cpuBuffersItems, spaParamBuffersDataType, spaParamBuffersBuffers]
  have htype : v.prop spaParamBuffersDataType = some (spaTypeInt, word cpuDataType) :=
    h.prop hsmall [] rfl (by simp)
  rw [readBuffers, if_pos h.isObjectType, hcount, htype, Option.bind_some,
    wordOf_word (by decide)]
  rfl

/-- A DMABUF port asks for two buffers and the extra ones at least, all of them DMABUF. -/
theorem readBuffers_dmabuf {extraBuffers : UInt32}
    (h : IsObject v spaTypeObjectParamBuffers spaParamBuffers (dmabufBuffersItems extraBuffers)) :
    readBuffers v = some ⟨some ⟨spaChoiceRange, spaTypeInt,
      [word (2 + extraBuffers), word (2 + extraBuffers), word 32]⟩, some dmabufDataType⟩ := by
  have hsmall : ∀ e ∈ dmabufBuffersItems extraBuffers, e.body.length ≤ 40 := by
    simp [dmabufBuffersItems, countItem, dmabufTypeItem, choiceBody]
  have hcount : v.prop spaParamBuffersBuffers = some ((countItem (2 + extraBuffers)).type,
      (countItem (2 + extraBuffers)).body) := h.prop hsmall [] rfl (by simp)
  have htype : v.prop spaParamBuffersDataType = some (spaTypeInt, word dmabufDataType) :=
    h.prop hsmall [countItem (2 + extraBuffers)] rfl
      (by simp [countItem, dmabufTypeItem, spaParamBuffersDataType, spaParamBuffersBuffers])
  have hvals : valuesOf (countItem (2 + extraBuffers)).type (countItem (2 + extraBuffers)).body =
      ⟨spaChoiceRange, spaTypeInt, [word (2 + extraBuffers), word (2 + extraBuffers), word 32]⟩ :=
    valuesOf_choice (by omega) (by omega) (by simp) (by simp [spaChoiceRange])
  rw [readBuffers, if_pos h.isObjectType, hcount, htype, Option.bind_some, Option.map_some, hvals,
    wordOf_word (by decide)]

end Read

end TinyPipewire.Core
