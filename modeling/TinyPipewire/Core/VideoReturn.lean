import TinyPipewire.Core.VideoEnum

/-!
# Entries handed back

An entry of a target's formats is to be handed back to `pwf_stream_set_video_config` with one of
its rates, which is then a format the target offers.
-/

namespace TinyPipewire.Core

/-! ### What an entry promises -/

/-- The configuration made of an entry. -/
def VideoFormatInfo.config (info : VideoFormatInfo) (fps : Int32) : VideoConfig :=
  ⟨info.width, info.height, some info.pixelFormat, fps⟩

/-- A rate to ask for: one that is listed, or none where none is. -/
def VideoFormatInfo.Lists (info : VideoFormatInfo) (fps : Int32) : Prop :=
  fps ∈ info.fps ∨ (info.fps = [] ∧ fps = 0)

/-- An entry handed back is accepted, and asks for what the object offers. -/
structure EntryReturns (spa : SpaBuilders) (obj : VideoFormatPod) (info : VideoFormatInfo)
    (useDmabuf : Bool) : Prop where
  width : 0 < info.width ∧ info.width ≤ info.widthMax
  height : 0 < info.height ∧ info.height ≤ info.heightMax
  accepted : ∀ fps, info.Lists fps →
    ∃ pod, setVideoConfig spa (info.config fps) useDmabuf = .ok pod ∧ obj.Offers pod

namespace VideoFormatPod

variable (obj : VideoFormatPod)

/-- A single rate is whole. The whole part of a rate of an enumeration is another of its rates,
unless it is too slow to be listed. The low end of a range is whole, and the high end does not
come down past it. -/
def RatesWhole : Prop :=
  match obj.framerate with
  | some (.fractions v) =>
    match v.choice with
    | .none => ∀ f ∈ v.vals.head?, f.Listed → f.denom.toNat ∣ f.num.toNat
    | .enum => ∀ f ∈ v.vals.tail, f.Listed → obj.Kept f.fps →
        ∃ g ∈ v.vals.tail, g.denom ≠ 0 ∧ g.num.toNat = f.whole * g.denom.toNat
    | .range | .step => ∀ lo ∈ v.vals[1]?, ∀ hi ∈ v.vals[2]?,
        (lo.Listed → lo.denom.toNat ∣ lo.num.toNat ∧
          lo.whole * hi.denom.toNat ≤ hi.num.toNat) ∧
        (hi.Listed → lo.num.toNat ≤ hi.whole * lo.denom.toNat)
    | .flags => True
  | _ => True

/-- A raw format is not named as an encoded one, and is one of its own choice. -/
def FormatReturns : Prop :=
  obj.mediaSubtype = some .raw → ∀ v, obj.format = some (.ids v) →
    ∀ fmt ∈ v.vals.head?, fmt ≠ .encoded ∧ obj.AllowsFormat fmt

/-- What lets an object's entry be handed back, `hi` being its largest size. -/
structure CanReturn (hi : SpaRectangle) : Prop where
  /-- An `int` holds the size. -/
  size : hi.width.toNat < 2 ^ 31 ∧ hi.height.toNat < 2 ^ 31
  format : obj.FormatReturns
  rates : obj.RatesWhole
  /-- With no rate to list there is one to negotiate, of a raw format one up to 1000. -/
  auto : obj.listed = [] →
    ∃ n d, 0 < d ∧ (obj.mediaSubtype = some .raw → n ≤ 1000 * d) ∧ obj.AllowsRate n d

end VideoFormatPod

variable {spa : SpaBuilders} {obj : VideoFormatPod} {info : VideoFormatInfo}
  {useDmabuf : Bool} {lo hi : SpaRectangle} {fps : Int32} {f : SpaFraction} {n d k : ℕ}

theorem VideoFormatInfo.exists_lists (info : VideoFormatInfo) : ∃ fps, info.Lists fps := by
  cases hfps : info.fps with
  | nil => exact ⟨0, Or.inr ⟨hfps, rfl⟩⟩
  | cons fps rest => exact ⟨fps, Or.inl (hfps ▸ List.mem_cons_self)⟩

/-! ### Rates that come back -/

/-- A rate is the same in other terms. -/
theorem allowsRate_mul (hk : 0 < k) : obj.AllowsRate (n * k) (d * k) ↔ obj.AllowsRate n d := by
  have heq : ∀ a b : ℕ, a * (d * k) = n * k * b ↔ a * d = n * b := by
    intro a b
    rw [← Nat.mul_assoc, Nat.mul_right_comm n k b]
    exact Nat.mul_left_inj (Nat.ne_of_gt hk)
  have hle : ∀ a b : ℕ, a * (d * k) ≤ n * k * b ↔ a * d ≤ n * b := by
    intro a b
    rw [← Nat.mul_assoc, Nat.mul_right_comm n k b]
    exact Nat.mul_le_mul_right_iff hk
  have hge : ∀ a b : ℕ, n * k * b ≤ a * (d * k) ↔ n * b ≤ a * d := by
    intro a b
    rw [← Nat.mul_assoc, Nat.mul_right_comm n k b]
    exact Nat.mul_le_mul_right_iff hk
  unfold VideoFormatPod.AllowsRate
  simp only [heq, hle, hge]

theorem dvd_iff_whole (f : SpaFraction) :
    f.denom.toNat ∣ f.num.toNat ↔ f.num.toNat = f.whole * f.denom.toNat := by
  rw [Nat.dvd_iff_div_mul_eq]
  exact eq_comm

theorem whole_mul_le (f : SpaFraction) : f.whole * f.denom.toNat ≤ f.num.toNat :=
  Nat.div_mul_le_self _ _

/-- A short list is kept whole. -/
theorem kept_of_length (h : obj.listed.length < fpsCap) : obj.Kept fps :=
  calc (obj.listed.toFinset.filter (fps < ·)).card
      ≤ obj.listed.toFinset.card := Finset.card_filter_le _ _
    _ ≤ obj.listed.length := obj.listed.toFinset_card_le
    _ < fpsCap := h

section Named

variable {v : SpaValues SpaFraction}

theorem forall_listed_iff (hv : obj.framerate = some (.fractions v)) {P : Int32 → Prop} :
    (∀ fps ∈ obj.listed, P fps) ↔ ∀ f ∈ namedRates v, f.Listed → P f.fps := by
  constructor
  · intro h f hf hlisted
    exact h f.fps (mem_listed_iff.mpr ⟨v, hv, f, hf, hlisted, rfl⟩)
  · intro h fps hfps
    obtain ⟨v', hv', f, hf, hlisted, rfl⟩ := mem_listed_iff.mp hfps
    rw [hv] at hv'
    obtain rfl : v = v' := by simpa using hv'
    exact h f hf hlisted

theorem listed_length_le (hv : obj.framerate = some (.fractions v)) :
    obj.listed.length ≤ (namedRates v).length := by
  unfold VideoFormatPod.listed
  rw [hv, List.length_map]
  exact List.length_filter_le _ _

end Named

theorem namedRates_range {choice : SpaChoice} (h : choice = .range ∨ choice = .step)
    {first low high : SpaFraction} {rest : List SpaFraction} :
    namedRates ⟨choice, first :: low :: high :: rest⟩ = [low, high] := by
  have hlen : ¬ (first :: low :: high :: rest).length < 3 := by
    simp only [List.length_cons]
    omega
  unfold namedRates
  rcases h with rfl | rfl
  · rw [if_neg hlen]
    rfl
  · rw [if_neg hlen]
    rfl

/-- What is listed comes back exactly if the rates are whole. -/
theorem ratesWhole_iff :
    obj.RatesWhole ↔ ∀ fps ∈ obj.listed, obj.Kept fps → obj.AllowsRate fps.toUInt32.toNat 1 := by
  cases hv : obj.framerate with
  | none => simp [VideoFormatPod.RatesWhole, VideoFormatPod.listed, hv]
  | some prop =>
    cases prop with
    | ids _ | rectangles _ | other =>
      simp [VideoFormatPod.RatesWhole, VideoFormatPod.listed, hv]
    | fractions v =>
      rw [forall_listed_iff hv]
      simp only [fps_toUInt32]
      have hlen := listed_length_le hv
      obtain ⟨choice, vals⟩ := v
      unfold VideoFormatPod.RatesWhole VideoFormatPod.AllowsRate SpaValues.Allows
      rw [hv]
      cases choice with
      | flags => simp [namedRates]
      | enum => simp [namedRates]
      | none =>
        cases vals with
        | nil => simp [namedRates]
        | cons f rest =>
          have hkept : obj.Kept f.fps :=
            kept_of_length (Nat.lt_of_le_of_lt hlen (by simp [namedRates, fpsCap]))
          have hdenom : f.Listed → f.denom ≠ 0 := fun h => (listed_iff.mp h).1
          simp [namedRates, dvd_iff_whole, hkept]
          tauto
      | range | step =>
        match vals with
        | [] | [_] | [_, _] => simp [namedRates]
        | _ :: lo :: hi :: rest =>
          rw [namedRates_range (by simp)] at hlen ⊢
          have hkept : ∀ fps, obj.Kept fps := fun _ =>
            kept_of_length (Nat.lt_of_le_of_lt hlen (by simp [fpsCap]))
          have hlo : lo.num.toNat ≤ lo.whole * lo.denom.toNat ↔
              lo.denom.toNat ∣ lo.num.toNat := by
            rw [dvd_iff_whole]
            have := whole_mul_le lo
            omega
          have hhi := whole_mul_le hi
          simp [hkept, hlo, hhi]

/-- The rate asked for is one the object offers. -/
def VideoFormatPod.Meets (obj : VideoFormatPod) (fps : Int32) : Prop :=
  ∃ n d, 0 < d ∧ obj.AllowsRate n d ∧
    if fps > 0 then fps.toUInt32.toNat * d = n
    else obj.mediaSubtype = some .raw → n ≤ 1000 * d

theorem meets_listed_iff (h : fps > 0) :
    obj.Meets fps ↔ obj.AllowsRate fps.toUInt32.toNat 1 := by
  unfold VideoFormatPod.Meets
  simp only [h, if_true]
  constructor
  · rintro ⟨n, d, hd, hallows, rfl⟩
    have hscaled : obj.AllowsRate (fps.toUInt32.toNat * d) (1 * d) ↔
        obj.AllowsRate fps.toUInt32.toNat 1 := allowsRate_mul hd
    rw [Nat.one_mul] at hscaled
    exact hscaled.mp hallows
  · intro h
    exact ⟨_, 1, Nat.one_pos, h, Nat.mul_one _⟩

/-- Every rate of the entry is met exactly if the rates are whole, and there is one at all. -/
theorem forall_lists_iff (hinfo : info.fps = obj.listed.foldl (TopList.insert fpsCap) []) :
    (∀ fps, info.Lists fps → obj.Meets fps) ↔
      obj.RatesWhole ∧ (obj.listed = [] → ∃ n d, 0 < d ∧
        (obj.mediaSubtype = some .raw → n ≤ 1000 * d) ∧ obj.AllowsRate n d) := by
  have hauto : obj.Meets 0 ↔ ∃ n d, 0 < d ∧
      (obj.mediaSubtype = some .raw → n ≤ 1000 * d) ∧ obj.AllowsRate n d := by
    have hzero : ¬ (0 : Int32) > 0 := by decide
    unfold VideoFormatPod.Meets
    simp only [hzero, if_false]
    constructor
    · rintro ⟨n, d, hd, hallows, hle⟩
      exact ⟨n, d, hd, hle, hallows⟩
    · rintro ⟨n, d, hd, hle, hallows⟩
      exact ⟨n, d, hd, hallows, hle⟩
  rw [ratesWhole_iff, ← hauto]
  unfold VideoFormatInfo.Lists
  rw [hinfo, fps_eq_nil_iff]
  constructor
  · intro h
    refine ⟨fun fps hfps hkept => ?_, fun hnil => h 0 (Or.inr ⟨hnil, rfl⟩)⟩
    exact (meets_listed_iff (listed_pos hfps)).mp (h fps (Or.inl (mem_fps_iff.mpr ⟨hfps, hkept⟩)))
  · rintro ⟨hrates, hnone⟩ fps (hfps | ⟨hnil, rfl⟩)
    · obtain ⟨hfps, hkept⟩ := mem_fps_iff.mp hfps
      exact (meets_listed_iff (listed_pos hfps)).mpr (hrates fps hfps hkept)
    · exact hnone hnil

/-! ### Configurations that come back -/

section SetVideoConfig

variable {config : VideoConfig} {name : String}

/-- The checks of a configuration with a size and no bad rate. -/
theorem setVideoConfig_eq (hname : config.pixelFormat = some name) (hwidth : 0 < config.width)
    (hheight : 0 < config.height) (hfps : 0 ≤ config.fps)
    (hmem : useDmabuf = true → name ≠ "MJPG" ∧ name ≠ "H264") :
    setVideoConfig spa config useDmabuf =
      if name = "MJPG" then .ok (spa.mjpg config.info)
      else if name = "H264" then .ok (spa.h264 config.info)
      else if lookupPixelFormat name = .unknown then .error .invalidFormat
      else .ok (buildVideoFormat config (lookupPixelFormat name)) := by
  have hsize : ¬ (config.width ≤ 0 ∨ config.height ≤ 0 ∨ config.fps < 0) := by
    rw [not_or, not_or]
    exact ⟨Int32.not_le.mpr hwidth, Int32.not_le.mpr hheight, Int32.not_lt.mpr hfps⟩
  have hcpu : ¬ ((name = "MJPG" ∨ name = "H264") ∧ useDmabuf = true) := by
    rintro ⟨hname | hname, hdmabuf⟩
    · exact (hmem hdmabuf).1 hname
    · exact (hmem hdmabuf).2 hname
  unfold setVideoConfig
  rw [hname]
  dsimp only
  rw [if_neg hsize, if_neg hcpu]
  generalize lookupPixelFormat name = fmt
  cases fmt <;> rfl

/-- An encoded format is offered where the object is of its kind and meets the rate. -/
theorem offers_encoded_iff (subtype : SpaMediaSubtype) (hraw : subtype ≠ .raw)
    (htype : obj.mediaType = some .video) (hwidth : config.size.width ≠ 0)
    (hheight : config.size.height ≠ 0) (hsize : obj.AllowsSize config.size) :
    obj.Offers (encodedFormat subtype config.info) ↔
      obj.mediaSubtype = some subtype ∧ obj.Meets config.fps := by
  have hset : (encodedFormat subtype config.info).size = some (fixedSize config.size) :=
    if_pos ⟨hwidth, hheight⟩
  have hrate : ∀ n d, (encodedFormat subtype config.info).AllowsRate n d ↔
      (config.fps > 0 → config.fps.toUInt32.toNat * d = n) := by
    intro n d
    by_cases hpos : config.fps > 0
    · simp [encodedFormat, VideoConfig.info, VideoFormatPod.AllowsRate, SpaValues.Allows, hpos,
        fixedRate]
    · simp [encodedFormat, VideoConfig.info, VideoFormatPod.AllowsRate, hpos]
  constructor
  · intro h
    have hsub : obj.mediaSubtype = some subtype := h.mediaSubtype.symm
    obtain ⟨n, d, hd, hasked, hallows⟩ := h.rate
    refine ⟨hsub, n, d, hd, hallows, ?_⟩
    split
    · rename_i hpos
      exact (hrate n d).mp hasked hpos
    · intro hraw'
      rw [hsub] at hraw'
      exact absurd (Option.some.inj hraw') hraw
  · rintro ⟨hsub, n, d, hd, hallows, hmeet⟩
    refine ⟨htype.symm, hsub.symm, ?_, ⟨config.size, hset, hsize⟩, n, d, hd, ?_, hallows⟩
    · intro hraw'
      exact absurd (Option.some.inj hraw') hraw
    · rw [hrate]
      intro hpos
      rwa [if_pos hpos] at hmeet

/-- A raw format is offered where the object has it and meets the rate. -/
theorem offers_raw_iff (fmt : SpaVideoFormat) (htype : obj.mediaType = some .video)
    (hsub : obj.mediaSubtype = some .raw) (hsize : obj.AllowsSize config.size) :
    obj.Offers (buildVideoFormat config fmt) ↔ obj.AllowsFormat fmt ∧ obj.Meets config.fps := by
  have hrate : ∀ n d, (buildVideoFormat config fmt).AllowsRate n d ↔
      if config.fps > 0 then config.fps.toUInt32.toNat * d = n else n ≤ 1000 * d := by
    intro n d
    by_cases hpos : config.fps > 0
    · simp [buildVideoFormat, VideoFormatPod.AllowsRate, SpaValues.Allows, hpos, fixedRate]
    · simp [buildVideoFormat, VideoFormatPod.AllowsRate, SpaValues.Allows, hpos]
  constructor
  · intro h
    obtain ⟨fmt', hfmt, hallowed⟩ := h.format rfl
    obtain rfl : fmt = fmt' := by simpa [buildVideoFormat] using hfmt
    obtain ⟨n, d, hd, hasked, hallows⟩ := h.rate
    refine ⟨hallowed, n, d, hd, hallows, ?_⟩
    have hasked := (hrate n d).mp hasked
    split
    · rename_i hpos
      rwa [if_pos hpos] at hasked
    · rename_i hpos
      rw [if_neg hpos] at hasked
      exact fun _ => hasked
  · rintro ⟨hallowed, n, d, hd, hallows, hmeet⟩
    refine ⟨htype.symm, hsub.symm, fun _ => ⟨fmt, rfl, hallowed⟩, ⟨config.size, rfl, hsize⟩,
      n, d, hd, (hrate n d).mpr ?_, hallows⟩
    split
    · rename_i hpos
      rwa [if_pos hpos] at hmeet
    · rename_i hpos
      rw [if_neg hpos] at hmeet
      exact hmeet hsub

/-- What a named object is. -/
theorem parsePixelFormat_some (h : parsePixelFormat obj = some name) :
    obj.mediaType = some .video ∧
      ((obj.mediaSubtype = some .mjpg ∧ name = "MJPG") ∨
        (obj.mediaSubtype = some .h264 ∧ name = "H264") ∨
        (obj.mediaSubtype = some .raw ∧ ∃ v fmt, obj.format = some (.ids v) ∧
          v.vals.head? = some fmt ∧ pixelFormatNameOrNull fmt = some name)) := by
  unfold parsePixelFormat at h
  split at h
  · rename_i htype hsub
    exact ⟨htype, Or.inl ⟨hsub, (Option.some.inj h).symm⟩⟩
  · rename_i htype hsub
    exact ⟨htype, Or.inr (Or.inl ⟨hsub, (Option.some.inj h).symm⟩)⟩
  · rename_i htype hsub
    split at h
    · rename_i v hv
      obtain ⟨fmt, hfmt, hname⟩ := Option.bind_eq_some_iff.mp h
      exact ⟨htype, Or.inr (Or.inr ⟨hsub, v, fmt, hv, hfmt, hname⟩)⟩
    · cases h
  · cases h

/-- What a configuration of an object's pixel format and size asks for is offered exactly if
the format comes back and the rate is met. -/
theorem setVideoConfig_offers_iff (hspa : spa.Documented)
    (hname : config.pixelFormat = some name) (hobj : parsePixelFormat obj = some name)
    (hwidth : 0 < config.width) (hheight : 0 < config.height) (hfps : 0 ≤ config.fps)
    (hmem : useDmabuf = true → name ≠ "MJPG" ∧ name ≠ "H264")
    (hset : config.size.width ≠ 0 ∧ config.size.height ≠ 0)
    (hsize : obj.AllowsSize config.size) :
    (∃ pod, setVideoConfig spa config useDmabuf = .ok pod ∧ obj.Offers pod) ↔
      obj.FormatReturns ∧ obj.Meets config.fps := by
  rw [setVideoConfig_eq hname hwidth hheight hfps hmem]
  have hmjpg := hspa.mjpg config.info hset.1 hset.2
  have hh264 := hspa.h264 config.info hset.1 hset.2
  obtain ⟨htype, ⟨hsub, rfl⟩ | ⟨hsub, rfl⟩ | ⟨hsub, v, fmt, hv, hfmt, hfmtname⟩⟩ :=
    parsePixelFormat_some hobj
  · have hformat : obj.FormatReturns := fun hraw => by
      rw [hsub] at hraw
      cases hraw
    have hoffers := offers_encoded_iff .mjpg (by decide) htype hset.1 hset.2 hsize
    rw [if_pos rfl, hmjpg]
    simp [hoffers, hsub, hformat]
  · have hformat : obj.FormatReturns := fun hraw => by
      rw [hsub] at hraw
      cases hraw
    have hoffers := offers_encoded_iff .h264 (by decide) htype hset.1 hset.2 hsize
    rw [if_neg (by decide), if_pos rfl, hh264]
    simp [hoffers, hsub, hformat]
  · have hformat : obj.FormatReturns ↔ fmt ≠ .encoded ∧ obj.AllowsFormat fmt := by
      constructor
      · intro h
        exact h hsub v hv fmt hfmt
      · rintro h - v' hv' fmt' hfmt'
        rw [hv] at hv'
        obtain rfl : v = v' := by simpa using hv'
        rw [hfmt] at hfmt'
        obtain rfl := Option.some.inj hfmt'
        exact h
    by_cases henc : fmt = .encoded
    · -- a raw format of this id is named as the encoded one
      obtain rfl : "MJPG" = name := by
        rw [henc] at hfmtname
        exact Option.some.inj hfmtname
      have hoffers := offers_encoded_iff .mjpg (by decide) htype hset.1 hset.2 hsize
      rw [if_pos rfl, hmjpg]
      simp [hoffers, hsub, hformat, henc]
    · obtain ⟨hlookup, hknown, hnm, hnh⟩ := lookupPixelFormat_name henc hfmtname
      have hoffers := offers_raw_iff fmt htype hsub hsize
      rw [if_neg hnm, if_neg hnh, hlookup, if_neg hknown, hformat]
      simp [hoffers, henc]

end SetVideoConfig

theorem entryReturns_iff (hspa : spa.Documented) (hsize : obj.SizeEnds lo hi)
    (hentry : videoEntry obj = some info)
    (hmem : useDmabuf = true → info.pixelFormat ≠ "MJPG" ∧ info.pixelFormat ≠ "H264") :
    EntryReturns spa obj info useDmabuf ↔ obj.CanReturn hi := by
  obtain ⟨hname, hw0, hh0, heq⟩ := videoEntry_eq hsize hentry
  have hwidth : info.width = lo.width.toInt32 := by rw [heq]
  have hheight : info.height = lo.height.toInt32 := by rw [heq]
  have hwidthMax : info.widthMax = hi.width.toInt32 := by rw [heq]
  have hheightMax : info.heightMax = hi.height.toInt32 := by rw [heq]
  have hfps : info.fps = obj.listed.foldl (TopList.insert fpsCap) [] := by rw [heq]
  have hconfig : ∀ fps, (info.config fps).size = lo := by
    intro fps
    show (⟨info.width.toUInt32, info.height.toUInt32⟩ : SpaRectangle) = lo
    rw [hwidth, hheight]
    rfl
  have hrates := forall_lists_iff hfps
  have hnonneg : ∀ fps, info.Lists fps → 0 ≤ fps := by
    rintro fps (h | ⟨-, rfl⟩)
    · rw [hfps] at h
      exact Int32.le_of_lt (listed_pos (mem_fps_iff.mp h).1)
    · exact Int32.le_refl 0
  have hoffers : 0 < info.width → 0 < info.height → ∀ fps, info.Lists fps →
      ((∃ pod, setVideoConfig spa (info.config fps) useDmabuf = .ok pod ∧ obj.Offers pod) ↔
        obj.FormatReturns ∧ obj.Meets fps) := by
    intro hw hh fps hlists
    refine setVideoConfig_offers_iff hspa rfl hname hw hh (hnonneg fps hlists) hmem ?_ ?_
    · rw [hconfig]
      exact ⟨hw0, hh0⟩
    · rw [hconfig]
      exact hsize.allows
  have hsizes : 0 < info.width ∧ info.width ≤ info.widthMax ∧ 0 < info.height ∧
      info.height ≤ info.heightMax ↔ hi.width.toNat < 2 ^ 31 ∧ hi.height.toNat < 2 ^ 31 := by
    rw [hwidth, hheight, hwidthMax, hheightMax, ← toInt32_ends hw0 hsize.le.1,
      ← toInt32_ends hh0 hsize.le.2, and_assoc]
  constructor
  · intro h
    obtain ⟨hw, hwle⟩ := h.width
    obtain ⟨hh, hhle⟩ := h.height
    have hmeets := fun fps hlists => (hoffers hw hh fps hlists).mp (h.accepted fps hlists)
    obtain ⟨hwhole, hauto⟩ := hrates.mp fun fps hlists => (hmeets fps hlists).2
    refine ⟨hsizes.mp ⟨hw, hwle, hh, hhle⟩, ?_, hwhole, hauto⟩
    obtain ⟨fps, hlists⟩ := info.exists_lists
    exact (hmeets fps hlists).1
  · intro h
    obtain ⟨hw, hwle, hh, hhle⟩ := hsizes.mpr h.size
    refine ⟨⟨hw, hwle⟩, ⟨hh, hhle⟩, fun fps hlists => (hoffers hw hh fps hlists).mpr ?_⟩
    exact ⟨h.format, hrates.mpr ⟨h.rates, h.auto⟩ fps hlists⟩

/-- An entry is well formed and can be handed back, with each of its rates, for what the object
offers, exactly if its sizes fit an `int`, its format is named as what it is, and the whole
parts of its rates are rates of its own. -/
theorem video_entry_returns_iff (ctx : VideoEnumCtx) (hspa : spa.Documented)
    (hsize : obj.SizeEnds lo hi)
    (hfound : (videoEnumOnParam ctx true (some obj)).found = ctx.found + 1)
    (hinfo : (videoEnumOnParam ctx true (some obj)).out[ctx.found]? = some info)
    (hmem : useDmabuf = true → info.pixelFormat ≠ "MJPG" ∧ info.pixelFormat ≠ "H264") :
    EntryReturns spa obj info useDmabuf ↔ obj.CanReturn hi :=
  entryReturns_iff hspa hsize (videoEnumOnParam_records hfound hinfo) hmem

/-- Builders that do what SPA says. -/
def spaBuilders : SpaBuilders := ⟨encodedFormat .mjpg, encodedFormat .h264⟩

/-- A camera of one size, at 30 and 15 frames per second. -/
def yuyvCamera (rates : List SpaFraction) : VideoFormatPod where
  mediaType := some .video
  mediaSubtype := some .raw
  format := some (.ids ⟨.none, [.yuy2]⟩)
  size := some (fixedSize ⟨640, 480⟩)
  framerate := some (.fractions ⟨.enum, rates⟩)

theorem video_entry_returns_iff_yuyv :
    EntryReturns spaBuilders (yuyvCamera [⟨30, 1⟩, ⟨15, 1⟩, ⟨30, 1⟩])
        ⟨"YUYV", 640, 480, 640, 480, [30, 15]⟩ true ↔
      (yuyvCamera [⟨30, 1⟩, ⟨15, 1⟩, ⟨30, 1⟩]).CanReturn ⟨640, 480⟩ :=
  video_entry_returns_iff ⟨[.cleared], 0⟩ ⟨fun _ _ _ => rfl, fun _ _ _ => rfl⟩
    (Or.inl ⟨rfl, rfl⟩) (by decide) (by decide) (by decide)

/-- With 30000/1001 among its rates the camera is listed with 29, which it does not offer. -/
theorem video_entry_fractional_rate :
    videoEnumOnParam ⟨[.cleared], 0⟩ true
        (some (yuyvCamera [⟨30, 1⟩, ⟨30, 1⟩, ⟨30000, 1001⟩])) =
        ⟨[⟨"YUYV", 640, 480, 640, 480, [30, 29]⟩], 1⟩ ∧
      spaBuilders.Documented ∧
      ¬ EntryReturns spaBuilders (yuyvCamera [⟨30, 1⟩, ⟨30, 1⟩, ⟨30000, 1001⟩])
        ⟨"YUYV", 640, 480, 640, 480, [30, 29]⟩ false := by
  have hspa : spaBuilders.Documented := ⟨fun _ _ _ => rfl, fun _ _ _ => rfl⟩
  refine ⟨by decide, hspa, ?_⟩
  rw [entryReturns_iff hspa (Or.inl ⟨rfl, rfl⟩) (by decide) (by decide)]
  intro h
  obtain ⟨g, hg, -, hnum⟩ := h.rates ⟨30000, 1001⟩ (by decide) (by decide)
    (kept_of_length (by decide))
  have hnone : ∀ g ∈ [(⟨30, 1⟩ : SpaFraction), ⟨30000, 1001⟩],
      g.num.toNat ≠ SpaFraction.whole ⟨30000, 1001⟩ * g.denom.toNat := by decide
  exact hnone g hg hnum

end TinyPipewire.Core
