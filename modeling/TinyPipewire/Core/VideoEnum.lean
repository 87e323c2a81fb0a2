import TinyPipewire.Core.VideoFormat
import TinyPipewire.Lib.TopList

/-!
# The video formats of a target

`pwf_video_enum_on_param` makes an entry of each `EnumFormat` object it can name: the ends of
its sizes, and the fastest of its rates in whole frames per second.
-/

namespace TinyPipewire.Core

instance int32LinearOrder : LinearOrder Int32 where
  le := (· ≤ ·)
  lt := (· < ·)
  le_refl := Int32.le_refl
  le_trans := fun _ _ _ => Int32.le_trans
  le_antisymm := fun _ _ => Int32.le_antisymm
  le_total := Int32.le_total
  lt_iff_le_not_ge := fun _ _ => by
    rw [Int32.not_le]
    exact ⟨fun h => ⟨Int32.le_of_lt h, h⟩, fun h => h.2⟩
  toDecidableLE := inferInstance
  toDecidableLT := inferInstance
  toDecidableEq := inferInstance

/-- `struct pwf_video_format_info`; `fps` is the first `n_fps` of its array. -/
structure VideoFormatInfo where
  pixelFormat : String
  width : Int32
  height : Int32
  widthMax : Int32
  heightMax : Int32
  fps : List Int32
  deriving DecidableEq, Repr

/-- The entry `memset` leaves. -/
def VideoFormatInfo.cleared : VideoFormatInfo := ⟨"", 0, 0, 0, 0, []⟩

/-- The length of `pwf_video_format_info.fps`. -/
def fpsCap : ℕ := 8

/-- `pwf_video_insert_framerate`. -/
def insertFramerate (info : VideoFormatInfo) (fps : Int32) : VideoFormatInfo :=
  { info with fps := TopList.insert fpsCap info.fps fps }

/-- `pwf_video_parse_pixel_format`. -/
def parsePixelFormat (param : VideoFormatPod) : Option String :=
  match param.mediaType, param.mediaSubtype with
  | some .video, some .mjpg => some "MJPG"
  | some .video, some .h264 => some "H264"
  | some .video, some .raw =>
    match param.format with
    | some (.ids v) => v.vals.head?.bind pixelFormatNameOrNull
    | _ => none
  | _, _ => none

/-- `pwf_video_parse_size`. -/
def parseSize (param : VideoFormatPod) (info : VideoFormatInfo) : Option VideoFormatInfo :=
  match param.size with
  | some (.rectangles ⟨choice, first :: rest⟩) =>
    let ranged := (choice = .range ∨ choice = .step) ∧ 3 ≤ (first :: rest).length
    let low := if ranged then rest.getD 0 first else first
    let high := if ranged then rest.getD 1 first else first
    if low.width = 0 ∨ low.height = 0 then none
    else
      some { info with
        width := low.width.toInt32
        height := low.height.toInt32
        widthMax := high.width.toInt32
        heightMax := high.height.toInt32 }
  | _ => none

/-- The fractions `pwf_video_parse_framerates` goes over. -/
def namedRates (v : SpaValues SpaFraction) : List SpaFraction :=
  match v.choice with
  | .none => v.vals.take 1
  | .enum => v.vals.tail
  | .range | .step => if v.vals.length < 3 then [] else (v.vals.drop 1).take 2
  | .flags => []

/-- What is listed of a fraction; it is listed if it is positive. -/
def SpaFraction.fps (f : SpaFraction) : Int32 := (f.num / f.denom).toInt32

/-- `pwf_video_parse_framerates`. -/
def parseFramerates (param : VideoFormatPod) (info : VideoFormatInfo) : VideoFormatInfo :=
  match param.framerate with
  | some (.fractions v) =>
    (namedRates v).foldl (fun info f =>
      if f.denom = 0 then info
      else if f.fps > 0 then insertFramerate info f.fps
      else info) info
  | _ => info

/-- The entry of an object; the names are shorter than `pwf_video_format_info.pixel_format`. -/
def videoEntry (param : VideoFormatPod) : Option VideoFormatInfo :=
  match parsePixelFormat param with
  | none => none
  | some name =>
    match parseSize param .cleared with
    | none => none
    | some info => some { parseFramerates param info with pixelFormat := name }

/-- `struct pwf_video_enum_ctx`. -/
structure VideoEnumCtx where
  out : List VideoFormatInfo
  found : ℕ
  deriving DecidableEq, Repr

/-- `pwf_video_enum_on_param`; `enumFormat` is whether the event's id is
`SPA_PARAM_EnumFormat`. -/
def videoEnumOnParam (ctx : VideoEnumCtx) (enumFormat : Bool) (param : Option VideoFormatPod) :
    VideoEnumCtx :=
  match enumFormat, param with
  | true, some param =>
    match videoEntry param with
    | none => ctx
    | some info => ⟨ctx.out.set ctx.found info, ctx.found + 1⟩
  | _, _ => ctx

/-! ### What there is to list -/

/-- The size is a plain one, or a range of sizes, with these ends. -/
def VideoFormatPod.SizeEnds (obj : VideoFormatPod) (lo hi : SpaRectangle) : Prop :=
  (obj.size = some (fixedSize lo) ∧ hi = lo) ∨
    ∃ choice first rest, (choice = SpaChoice.range ∨ choice = .step) ∧
      obj.size = some (.rectangles ⟨choice, first :: lo :: hi :: rest⟩) ∧
      lo.width ≤ hi.width ∧ lo.height ≤ hi.height

/-- The whole frames per second of a rate. -/
def SpaFraction.whole (f : SpaFraction) : ℕ := f.num.toNat / f.denom.toNat

/-- They are a positive `int`. -/
def SpaFraction.Listed (f : SpaFraction) : Prop := 0 < f.whole ∧ f.whole < 2 ^ 31

instance (f : SpaFraction) : Decidable f.Listed := inferInstanceAs (Decidable (_ ∧ _))

namespace VideoFormatPod

variable (obj : VideoFormatPod)

/-- The rates to list, as they come. -/
def listed : List Int32 :=
  match obj.framerate with
  | some (.fractions v) => ((namedRates v).filter (·.Listed)).map (·.fps)
  | _ => []

/-- Fewer rates are faster than there is room for. -/
def Kept (fps : Int32) : Prop := (obj.listed.toFinset.filter (fps < ·)).card < fpsCap

end VideoFormatPod

variable {obj : VideoFormatPod} {info : VideoFormatInfo} {lo hi : SpaRectangle} {fps : Int32}
  {f : SpaFraction}

/-! ### Integers of the entry -/

theorem toInt_toInt32 (x : UInt32) :
    x.toInt32.toInt = if x.toNat < 2 ^ 31 then (x.toNat : ℤ) else x.toNat - 2 ^ 32 := by
  show x.toBitVec.toInt = _
  rw [BitVec.toInt_eq_toNat_cond]
  have hx : x.toBitVec.toNat = x.toNat := rfl
  rw [hx]
  split <;> split <;> omega

theorem toInt32_pos {x : UInt32} : 0 < x.toInt32 ↔ 0 < x.toNat ∧ x.toNat < 2 ^ 31 := by
  rw [Int32.lt_iff_toInt_lt, toInt_toInt32]
  have hx := x.toNat_lt
  have h0 : (0 : Int32).toInt = 0 := rfl
  rw [h0]
  split <;> omega

theorem toInt32_le {x y : UInt32} (hle : x ≤ y) (hy : y.toNat < 2 ^ 31) :
    x.toInt32 ≤ y.toInt32 := by
  have hxy : x.toNat ≤ y.toNat := hle
  rw [Int32.le_iff_toInt_le, toInt_toInt32, toInt_toInt32, if_pos hy,
    if_pos (Nat.lt_of_le_of_lt hxy hy)]
  omega

/-- The ends of a range keep their order as `int`s if the high one fits. -/
theorem toInt32_ends {x y : UInt32} (hx : x ≠ 0) (hle : x ≤ y) :
    (0 < x.toInt32 ∧ x.toInt32 ≤ y.toInt32) ↔ y.toNat < 2 ^ 31 := by
  have hxy : x.toNat ≤ y.toNat := hle
  have hpos : 0 < x.toNat := by
    rw [Nat.pos_iff_ne_zero]
    exact fun h => hx (UInt32.toNat_inj.mp h)
  constructor
  · rintro ⟨h0, h⟩
    exact (toInt32_pos.mp (Int32.lt_of_lt_of_le h0 h)).2
  · intro hy
    exact ⟨toInt32_pos.mpr ⟨hpos, by omega⟩, toInt32_le hle hy⟩

theorem fps_toUInt32 (f : SpaFraction) : f.fps.toUInt32.toNat = f.whole := by
  show (f.num / f.denom).toNat = _
  rw [UInt32.toNat_div]
  rfl

theorem listed_iff : f.Listed ↔ f.denom ≠ 0 ∧ f.fps > 0 := by
  have hdiv : (f.num / f.denom).toNat = f.whole := UInt32.toNat_div f.num f.denom
  have hpos : f.fps > 0 ↔ f.Listed := by
    unfold SpaFraction.fps SpaFraction.Listed
    rw [gt_iff_lt, toInt32_pos, hdiv]
  rw [hpos]
  constructor
  · intro h
    refine ⟨?_, h⟩
    intro hzero
    have hw := h.1
    rw [SpaFraction.whole, hzero] at hw
    simp at hw
  · exact fun h => h.2

/-- The rates are inserted as they come. -/
theorem parseFramerates_eq (obj : VideoFormatPod) (info : VideoFormatInfo) :
    parseFramerates obj info =
      { info with fps := obj.listed.foldl (TopList.insert fpsCap) info.fps } := by
  unfold parseFramerates VideoFormatPod.listed
  split
  · rename_i v hv
    generalize namedRates v = fs
    induction fs generalizing info with
    | nil => rfl
    | cons f fs ih =>
      rw [List.foldl_cons, ih]
      by_cases hf : f.Listed
      · obtain ⟨hdenom, hpos⟩ := listed_iff.mp hf
        rw [if_neg hdenom, if_pos hpos]
        simp [hf, insertFramerate]
      · have hskip : (if f.denom = 0 then info
            else if f.fps > 0 then insertFramerate info f.fps else info) = info := by
          by_cases hdenom : f.denom = 0
          · rw [if_pos hdenom]
          · rw [if_neg hdenom, if_neg (fun hpos => hf (listed_iff.mpr ⟨hdenom, hpos⟩))]
        rw [hskip]
        simp [hf]
  · rfl

/-! ### The entry of an object -/

theorem VideoFormatPod.SizeEnds.le (h : obj.SizeEnds lo hi) :
    lo.width ≤ hi.width ∧ lo.height ≤ hi.height := by
  obtain ⟨-, rfl⟩ | ⟨choice, first, rest, -, -, hle⟩ := h
  · exact ⟨UInt32.le_refl _, UInt32.le_refl _⟩
  · exact hle

theorem VideoFormatPod.SizeEnds.allows (h : obj.SizeEnds lo hi) : obj.AllowsSize lo := by
  have hle := h.le
  unfold AllowsSize SpaValues.Allows
  obtain ⟨hsize, rfl⟩ | ⟨choice, first, rest, rfl | rfl, hsize, -⟩ := h
  · rw [hsize]
    exact ⟨_, rfl, rfl⟩
  · rw [hsize]
    exact ⟨lo, rfl, hi, rfl, ⟨UInt32.le_refl _, UInt32.le_refl _⟩, hle⟩
  · rw [hsize]
    exact ⟨lo, rfl, hi, rfl, ⟨UInt32.le_refl _, UInt32.le_refl _⟩, hle⟩

theorem parseSize_eq (h : obj.SizeEnds lo hi) (info : VideoFormatInfo) :
    parseSize obj info =
      if lo.width = 0 ∨ lo.height = 0 then none
      else some { info with
        width := lo.width.toInt32, height := lo.height.toInt32
        widthMax := hi.width.toInt32, heightMax := hi.height.toInt32 } := by
  unfold parseSize
  obtain ⟨hsize, rfl⟩ | ⟨choice, first, rest, rfl | rfl, hsize, -⟩ := h
  · rw [hsize]
    simp [fixedSize]
  · rw [hsize]
    simp
  · rw [hsize]
    simp

theorem videoEntry_eq (hsize : obj.SizeEnds lo hi) (h : videoEntry obj = some info) :
    parsePixelFormat obj = some info.pixelFormat ∧ lo.width ≠ 0 ∧ lo.height ≠ 0 ∧
      info = ⟨info.pixelFormat, lo.width.toInt32, lo.height.toInt32, hi.width.toInt32,
        hi.height.toInt32, obj.listed.foldl (TopList.insert fpsCap) []⟩ := by
  unfold videoEntry at h
  rw [parseSize_eq hsize] at h
  split at h
  · cases h
  · rename_i name hname
    by_cases hzero : lo.width = 0 ∨ lo.height = 0
    · rw [if_pos hzero] at h
      cases h
    · rw [if_neg hzero] at h
      obtain ⟨hw, hh⟩ := not_or.mp hzero
      obtain rfl := Option.some.inj h
      refine ⟨hname, hw, hh, ?_⟩
      rw [parseFramerates_eq]
      rfl

/-- An entry that is recorded is that of the object. -/
theorem videoEnumOnParam_records {ctx : VideoEnumCtx}
    (hfound : (videoEnumOnParam ctx true (some obj)).found = ctx.found + 1)
    (hinfo : (videoEnumOnParam ctx true (some obj)).out[ctx.found]? = some info) :
    videoEntry obj = some info := by
  unfold videoEnumOnParam at hfound hinfo
  dsimp only at hfound hinfo
  split at hfound
  · omega
  · rename_i entry hentry
    rw [hentry] at hinfo ⊢
    dsimp only at hinfo
    rw [List.getElem?_set] at hinfo
    split at hinfo
    · split at hinfo
      · exact hinfo
      · cases hinfo
    · rename_i hne
      exact absurd rfl hne

theorem mem_listed_iff :
    fps ∈ obj.listed ↔ ∃ v, obj.framerate = some (.fractions v) ∧
      ∃ f ∈ namedRates v, f.Listed ∧ f.fps = fps := by
  unfold VideoFormatPod.listed
  split
  · rename_i v hv
    constructor
    · intro h
      obtain ⟨f, hf, rfl⟩ := List.mem_map.mp h
      obtain ⟨hmem, hlisted⟩ := List.mem_filter.mp hf
      exact ⟨v, hv, f, hmem, of_decide_eq_true hlisted, rfl⟩
    · rintro ⟨v', hv', f, hmem, hlisted, rfl⟩
      rw [hv] at hv'
      obtain rfl : v = v' := by simpa using hv'
      exact List.mem_map.mpr ⟨f, List.mem_filter.mpr ⟨hmem, decide_eq_true hlisted⟩, rfl⟩
  · rename_i hnot
    constructor
    · intro h
      simp at h
    · rintro ⟨v, hv, -⟩
      exact absurd hv (hnot v)

theorem listed_pos (h : fps ∈ obj.listed) : fps > 0 := by
  obtain ⟨v, -, f, -, hlisted, rfl⟩ := mem_listed_iff.mp h
  exact (listed_iff.mp hlisted).2

theorem mem_fps_iff :
    fps ∈ obj.listed.foldl (TopList.insert fpsCap) [] ↔ fps ∈ obj.listed ∧ obj.Kept fps := by
  rw [(TopList.keeps_foldl fpsCap obj.listed).mem_iff, List.mem_toFinset]
  rfl

theorem fps_eq_nil_iff :
    obj.listed.foldl (TopList.insert fpsCap) [] = [] ↔ obj.listed = [] := by
  have hkeeps := TopList.keeps_foldl fpsCap obj.listed
  constructor
  · intro hnil
    rw [hnil] at hkeeps
    apply List.eq_nil_iff_forall_not_mem.mpr
    intro x hx
    have := (hkeeps.rest x (List.mem_toFinset.mpr hx) List.not_mem_nil).1
    exact absurd this (by decide)
  · intro hnil
    rw [hnil]
    rfl

end TinyPipewire.Core
