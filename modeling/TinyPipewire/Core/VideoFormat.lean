import TinyPipewire.Types

/-!
# Video formats

A format is an object of properties, each a value or a choice of values. What a device offers
and what `pwf_stream_set_video_config` asks for are both such objects.
-/

universe u

namespace TinyPipewire.Core

structure SpaRectangle where
  width : UInt32
  height : UInt32
  deriving DecidableEq, Repr

structure SpaFraction where
  num : UInt32
  denom : UInt32
  deriving DecidableEq, Repr

inductive SpaMediaType
  | video
  | other (id : UInt32)
  deriving DecidableEq, Repr

inductive SpaMediaSubtype
  | raw
  | mjpg
  | h264
  | other (id : UInt32)
  deriving DecidableEq, Repr

/-- `enum spa_video_format`, as far as the library names it. -/
inductive SpaVideoFormat
  | unknown
  | encoded
  | rgb
  | yuy2
  | nv12
  | nv21
  | i420
  | other (id : UInt32)
  deriving DecidableEq, Repr

/-- `enum spa_choice_type`. -/
inductive SpaChoice
  | none
  | range
  | step
  | enum
  | flags
  deriving DecidableEq, Repr

/-- What `spa_pod_get_values` gives: a plain value is a choice of none. The default comes first,
then the ends of a range, or what an enumeration has. -/
structure SpaValues (α : Type u) where
  choice : SpaChoice
  vals : List α
  deriving DecidableEq, Repr

/-- The value of a property, by the type of its values. -/
inductive SpaProp
  | ids (v : SpaValues SpaVideoFormat)
  | rectangles (v : SpaValues SpaRectangle)
  | fractions (v : SpaValues SpaFraction)
  | other
  deriving DecidableEq, Repr

/-- An object of `SPA_TYPE_OBJECT_Format`, and its properties of a video format. -/
structure VideoFormatPod where
  mediaType : Option SpaMediaType
  mediaSubtype : Option SpaMediaSubtype
  format : Option SpaProp
  size : Option SpaProp
  framerate : Option SpaProp
  deriving DecidableEq, Repr

/-- `pwf_pixel_formats`. -/
def pixelFormats : List (String × SpaVideoFormat) :=
  [("RGB", .rgb), ("YUYV", .yuy2), ("NV12", .nv12), ("NV21", .nv21), ("I420", .i420)]

/-- `pwf_spa_lookup_pixel_format`. -/
def lookupPixelFormat (name : String) : SpaVideoFormat :=
  ((pixelFormats.find? fun f => f.1 = name).map (·.2)).getD .unknown

/-- `pwf_spa_pixel_format_name_or_null`. -/
def pixelFormatNameOrNull (format : SpaVideoFormat) : Option String :=
  if format = .encoded then some "MJPG"
  else (pixelFormats.find? fun f => f.2 = format).map (·.1)

/-- `struct pwf_video_config`. -/
structure VideoConfig where
  width : Int32
  height : Int32
  pixelFormat : Option String
  fps : Int32
  deriving DecidableEq, Repr

def VideoConfig.size (config : VideoConfig) : SpaRectangle :=
  ⟨config.width.toUInt32, config.height.toUInt32⟩

/-- A property of one value. -/
def fixedSize (size : SpaRectangle) : SpaProp := .rectangles ⟨.none, [size]⟩

def fixedRate (rate : SpaFraction) : SpaProp := .fractions ⟨.none, [rate]⟩

/-- `pwf_spa_build_video_format`. -/
def buildVideoFormat (config : VideoConfig) (fmt : SpaVideoFormat) : VideoFormatPod where
  mediaType := some .video
  mediaSubtype := some .raw
  format := some (.ids ⟨.none, [fmt]⟩)
  size := some (fixedSize config.size)
  framerate :=
    if config.fps > 0 then some (fixedRate ⟨config.fps.toUInt32, 1⟩)
    else some (.fractions ⟨.range, [⟨30, 1⟩, ⟨0, 1⟩, ⟨1000, 1⟩]⟩)

/-- `struct spa_video_info_mjpg` and `struct spa_video_info_h264`, in what is set of them. -/
structure SpaVideoInfo where
  size : SpaRectangle
  framerate : SpaFraction
  deriving DecidableEq, Repr

/-- The builders that come with SPA. -/
structure SpaBuilders where
  /-- `spa_format_video_mjpg_build`. -/
  mjpg : SpaVideoInfo → VideoFormatPod
  /-- `spa_format_video_h264_build`. -/
  h264 : SpaVideoInfo → VideoFormatPod

/-- An encoded format: a size and a rate are left out if they are not set. -/
def encodedFormat (subtype : SpaMediaSubtype) (info : SpaVideoInfo) : VideoFormatPod where
  mediaType := some .video
  mediaSubtype := some subtype
  format := none
  size :=
    if info.size.width ≠ 0 ∧ info.size.height ≠ 0 then some (fixedSize info.size) else none
  framerate := if info.framerate.denom ≠ 0 then some (fixedRate info.framerate) else none

/-- What SPA says of its builders, for a size that is set. -/
structure SpaBuilders.Documented (spa : SpaBuilders) : Prop where
  mjpg : ∀ info, info.size.width ≠ 0 → info.size.height ≠ 0 →
    spa.mjpg info = encodedFormat .mjpg info
  h264 : ∀ info, info.size.width ≠ 0 → info.size.height ≠ 0 →
    spa.h264 info = encodedFormat .h264 info

def VideoConfig.info (config : VideoConfig) : SpaVideoInfo where
  size := config.size
  framerate := if config.fps > 0 then ⟨config.fps.toUInt32, 1⟩ else ⟨0, 0⟩

/-- `pwf_spa_build_video_format_mjpg`. -/
def buildVideoFormatMjpg (spa : SpaBuilders) (config : VideoConfig) : VideoFormatPod :=
  spa.mjpg config.info

/-- `pwf_spa_build_video_format_h264`. -/
def buildVideoFormatH264 (spa : SpaBuilders) (config : VideoConfig) : VideoFormatPod :=
  spa.h264 config.info

/-- `pwf_stream_set_video_config_ex` on a video capture stream, up to connecting it: the format
it connects with, or the error of its checks. -/
def setVideoConfig (spa : SpaBuilders) (config : VideoConfig) (useDmabuf : Bool) :
    Except PwfError VideoFormatPod :=
  match config.pixelFormat with
  | none => .error .invalidArg
  | some name =>
    if config.width ≤ 0 ∨ config.height ≤ 0 ∨ config.fps < 0 then .error .invalidFormat
    else if (name = "MJPG" ∨ name = "H264") ∧ useDmabuf = true then .error .invalidArg
    else if name = "MJPG" then .ok (buildVideoFormatMjpg spa config)
    else if name = "H264" then .ok (buildVideoFormatH264 spa config)
    else
      match lookupPixelFormat name with
      | .unknown => .error .invalidFormat
      | fmt => .ok (buildVideoFormat config fmt)

/-! ### What a format allows -/

/-- A value is one of those of a property, by how it compares with each. -/
def SpaValues.Allows {α : Type u} (v : SpaValues α) (is atLeast atMost : α → Prop) : Prop :=
  match v.choice with
  | .none | .flags => ∃ a ∈ v.vals.head?, is a
  | .enum => ∃ a ∈ v.vals.tail, is a
  | .range | .step => ∃ lo ∈ v.vals[1]?, ∃ hi ∈ v.vals[2]?, atLeast lo ∧ atMost hi

namespace VideoFormatPod

variable (pod : VideoFormatPod)

/-- Formats are not ordered, so no range of them has members. -/
def AllowsFormat (fmt : SpaVideoFormat) : Prop :=
  match pod.format with
  | none => True
  | some (.ids v) => v.Allows (· = fmt) (fun _ => False) (fun _ => False)
  | some _ => False

def AllowsSize (size : SpaRectangle) : Prop :=
  match pod.size with
  | none => True
  | some (.rectangles v) =>
    v.Allows (· = size) (fun lo => lo.width ≤ size.width ∧ lo.height ≤ size.height)
      (fun hi => size.width ≤ hi.width ∧ size.height ≤ hi.height)
  | some _ => False

/-- A rate of `n / d` frames per second; a fraction of denominator zero is no rate. -/
def AllowsRate (n d : ℕ) : Prop :=
  match pod.framerate with
  | none => True
  | some (.fractions v) =>
    v.Allows (fun f => f.denom ≠ 0 ∧ f.num.toNat * d = n * f.denom.toNat)
      (fun lo => lo.num.toNat * d ≤ n * lo.denom.toNat)
      (fun hi => n * hi.denom.toNat ≤ hi.num.toNat * d)
  | some _ => False

/-- What is asked for is offered: the same kind of video, of a size offered, and at a rate
that both allow. -/
structure Offers (offered asked : VideoFormatPod) : Prop where
  mediaType : asked.mediaType = offered.mediaType
  mediaSubtype : asked.mediaSubtype = offered.mediaSubtype
  format : asked.mediaSubtype = some .raw →
    ∃ fmt, asked.format = some (.ids ⟨.none, [fmt]⟩) ∧ offered.AllowsFormat fmt
  size : ∃ size, asked.size = some (fixedSize size) ∧ offered.AllowsSize size
  rate : ∃ n d, 0 < d ∧ asked.AllowsRate n d ∧ offered.AllowsRate n d

end VideoFormatPod

variable {spa : SpaBuilders} {config : VideoConfig} {fmt : SpaVideoFormat} {name : String}
  {useDmabuf : Bool}

/-- The table's names are taken back as they were given. -/
theorem lookupPixelFormat_name (hfmt : fmt ≠ .encoded)
    (h : pixelFormatNameOrNull fmt = some name) :
    lookupPixelFormat name = fmt ∧ fmt ≠ .unknown ∧ name ≠ "MJPG" ∧ name ≠ "H264" := by
  cases fmt with
  | encoded => exact absurd rfl hfmt
  | unknown | other id => simp [pixelFormatNameOrNull, pixelFormats] at h
  | rgb | yuy2 | nv12 | nv21 | i420 =>
    simp only [pixelFormatNameOrNull, pixelFormats] at h
    obtain rfl := Option.some.inj h
    decide

end TinyPipewire.Core
