import AudioFS.DecoderContext

/-!
# The format a stream is resampled to

`change_target_format` maps the format of a stream to the packed format it is resampled
to. The map is idempotent, and its fixed points are the streams that need no resampler.
-/

namespace AudioFS.Decoder

variable {Layout : Type}

/-! ### Sample formats and depths -/

def outputFormat (sampleFmt targetFmt : AVSampleFormat) (targetDepth : UInt8) :
    AVSampleFormat :=
  if 0 < targetDepth then formatForDepth targetDepth targetFmt.packed sampleFmt.packed
  else if targetFmt = .none then sampleFmt.packed
  else targetFmt.packed

def outputDepth (sampleFmt targetFmt : AVSampleFormat) (depth targetDepth : UInt8) : UInt8 :=
  sampleBitsByFormat (outputFormat sampleFmt targetFmt targetDepth)
    (if 0 < targetDepth then targetDepth else depth)

theorem formatForDepth_cases (depth : UInt8) (targetFmt overrideSampleFmt : AVSampleFormat) :
    formatForDepth depth targetFmt overrideSampleFmt ∈
      [AVSampleFormat.dbl, .flt, .s32, .u8, .s16] := by
  unfold formatForDepth
  split_ifs <;> decide

theorem formatForDepth_planar (depth : UInt8) (targetFmt overrideSampleFmt : AVSampleFormat) :
    (formatForDepth depth targetFmt overrideSampleFmt).planar = false := by
  have h := formatForDepth_cases depth targetFmt overrideSampleFmt
  generalize formatForDepth depth targetFmt overrideSampleFmt = fmt at h ⊢
  cases fmt <;> first | rfl | exact absurd h (by decide)

theorem formatForDepth_ne_none (depth : UInt8) (targetFmt overrideSampleFmt : AVSampleFormat) :
    formatForDepth depth targetFmt overrideSampleFmt ≠ .none := by
  intro hnone
  have h := formatForDepth_cases depth targetFmt overrideSampleFmt
  rw [hnone] at h
  exact absurd h (by decide)

/-- Only the 32-bit case looks at the source, and it finds there what it has chosen. -/
theorem formatForDepth_stable (depth : UInt8) (targetFmt overrideSampleFmt : AVSampleFormat) :
    formatForDepth depth targetFmt (formatForDepth depth targetFmt overrideSampleFmt) =
      formatForDepth depth targetFmt overrideSampleFmt := by
  by_cases h64 : depth = 64
  · simp [formatForDepth, h64]
  by_cases h32 : depth = 32
  · subst h32
    by_cases hfloat : targetFmt = .dbl ∨ overrideSampleFmt = .dbl ∨ targetFmt = .flt ∨
        overrideSampleFmt = .flt
    · have hflt : formatForDepth 32 targetFmt overrideSampleFmt = .flt := by
        simp [formatForDepth, hfloat]
      rw [hflt]
      simp [formatForDepth]
    · have hs32 : formatForDepth 32 targetFmt overrideSampleFmt = .s32 := by
        simp [formatForDepth, hfloat]
      rw [hs32]
      push Not at hfloat
      simp [formatForDepth, hfloat.1, hfloat.2.2.1]
  · simp [formatForDepth, h64, h32]

theorem outputFormat_planar (sampleFmt targetFmt : AVSampleFormat) (targetDepth : UInt8) :
    (outputFormat sampleFmt targetFmt targetDepth).planar = false := by
  unfold outputFormat
  split_ifs
  · exact formatForDepth_planar _ _ _
  · exact AVSampleFormat.planar_packed _
  · exact AVSampleFormat.planar_packed _

theorem outputFormat_packed (sampleFmt targetFmt : AVSampleFormat) (targetDepth : UInt8) :
    (outputFormat sampleFmt targetFmt targetDepth).packed =
      outputFormat sampleFmt targetFmt targetDepth :=
  AVSampleFormat.packed_of_not_planar (outputFormat_planar _ _ _)

theorem outputFormat_stable (sampleFmt targetFmt : AVSampleFormat) (targetDepth : UInt8) :
    outputFormat (outputFormat sampleFmt targetFmt targetDepth) targetFmt targetDepth =
      outputFormat sampleFmt targetFmt targetDepth := by
  have hpacked := outputFormat_packed sampleFmt targetFmt targetDepth
  by_cases hdepth : 0 < targetDepth
  · rw [outputFormat, if_pos hdepth, hpacked, outputFormat, if_pos hdepth]
    exact formatForDepth_stable _ _ _
  · by_cases hnone : targetFmt = .none
    · rw [outputFormat, if_neg hdepth, if_pos hnone, hpacked]
    · simp [outputFormat, hdepth, hnone]

theorem sampleBitsByFormat_stable (sampleFmt : AVSampleFormat) (depth : UInt8) :
    sampleBitsByFormat sampleFmt (sampleBitsByFormat sampleFmt depth) =
      sampleBitsByFormat sampleFmt depth := by
  cases sampleFmt <;> simp only [sampleBitsByFormat] <;> split_ifs <;> simp_all

theorem outputDepth_stable (sampleFmt targetFmt : AVSampleFormat) (depth targetDepth : UInt8) :
    outputDepth (outputFormat sampleFmt targetFmt targetDepth) targetFmt
        (outputDepth sampleFmt targetFmt depth targetDepth) targetDepth =
      outputDepth sampleFmt targetFmt depth targetDepth := by
  unfold outputDepth
  rw [outputFormat_stable]
  by_cases hdepth : 0 < targetDepth
  · simp only [if_pos hdepth]
  · simp only [if_neg hdepth]
    exact sampleBitsByFormat_stable _ _

/-! ### What the function computes -/

section Overrides

variable [Setoid Layout] {lib : LibavUtil Layout} {Valid : Layout → Prop}

def withTarget (lib : LibavUtil Layout) (ctx : DecoderContext Layout)
    (targetFmt : AVSampleFormat) (targetDepth : UInt8) (targetRate : Int32)
    (forceStereo : Bool) : DecoderContext Layout :=
  let downmix := forceStereo && lib.nbChannels ctx.channelLayout != 2
  { ctx with
    overrideChannelLayout := if downmix then lib.stereoDownmix else ctx.channelLayout
    overrideChannels := if downmix then 2 else lib.nbChannels ctx.channelLayout
    overrideSampleFmt := outputFormat ctx.sampleFmt targetFmt targetDepth
    overrideDepth := outputDepth ctx.sampleFmt targetFmt ctx.depth targetDepth
    overrideSampleRate := if 0 < targetRate then targetRate else ctx.sampleRate }

theorem packed_of_documented (h : lib.Documented Valid) (fmt : AVSampleFormat) :
    (if lib.avSampleFmtIsPlanar fmt then lib.avGetAltSampleFmt fmt false else fmt) =
      fmt.packed := by
  rw [h.isPlanar, h.packedForm]
  split_ifs with hplanar
  · rfl
  · exact (AVSampleFormat.packed_of_not_planar (by simpa using hplanar)).symm

theorem target_packed_of_documented (h : lib.Documented Valid) (fmt : AVSampleFormat) :
    (if fmt ≠ .none ∧ lib.avSampleFmtIsPlanar fmt then lib.avGetAltSampleFmt fmt false
      else fmt) = fmt.packed := by
  by_cases hnone : fmt = .none
  · simp [hnone, AVSampleFormat.packed]
  · simpa [hnone] using packed_of_documented h fmt

theorem chooseOverrides_eq (h : lib.Documented Valid) (ctx : DecoderContext Layout)
    (targetFmt : AVSampleFormat) (targetDepth : UInt8) (targetRate : Int32)
    (forceStereo : Bool) :
    chooseOverrides lib ctx targetFmt targetDepth targetRate forceStereo =
      withTarget lib ctx targetFmt targetDepth targetRate forceStereo := by
  have hfmt : (chooseOverrides lib ctx targetFmt targetDepth targetRate
      forceStereo).overrideSampleFmt = outputFormat ctx.sampleFmt targetFmt targetDepth := by
    simp only [chooseOverrides, packed_of_documented h, target_packed_of_documented h]
    simp only [h.packedForm, outputFormat]
    by_cases hdepth : 0 < targetDepth
    · simp only [if_pos hdepth, if_pos (formatForDepth_ne_none _ _ _)]
      exact AVSampleFormat.packed_of_not_planar (formatForDepth_planar _ _ _)
    · simp only [if_neg hdepth, ne_eq, AVSampleFormat.packed_eq_none, ite_not,
        AVSampleFormat.packed_packed]
  have hdepth : (chooseOverrides lib ctx targetFmt targetDepth targetRate
      forceStereo).overrideDepth = outputDepth ctx.sampleFmt targetFmt ctx.depth targetDepth := by
    rw [outputDepth, ← hfmt]
    rfl
  rw [withTarget, ← hfmt, ← hdepth]
  rfl

/-! ### Idempotence -/

/-- The source fields of one context are the overrides of another. -/
structure ReadsFrom (again ctx : DecoderContext Layout) : Prop where
  layout : again.channelLayout = ctx.overrideChannelLayout
  depth : again.depth = ctx.overrideDepth
  sampleFmt : again.sampleFmt = ctx.overrideSampleFmt
  sampleRate : again.sampleRate = ctx.overrideSampleRate

structure SameOverrides (a b : DecoderContext Layout) : Prop where
  layout : a.overrideChannelLayout = b.overrideChannelLayout
  channels : a.overrideChannels = b.overrideChannels
  depth : a.overrideDepth = b.overrideDepth
  sampleFmt : a.overrideSampleFmt = b.overrideSampleFmt
  sampleRate : a.overrideSampleRate = b.overrideSampleRate

theorem changeTargetFormat_overrides (h : lib.Documented Valid) (swrAlloc : Option ℕ)
    {ctx : DecoderContext Layout} (hok : contextOk ctx = true) (targetFmt : AVSampleFormat)
    (targetDepth : UInt8) (targetRate : Int32) (forceStereo : Bool) :
    ∃ swr, (changeTargetFormat lib swrAlloc ctx targetFmt targetDepth targetRate forceStereo).2 =
      { withTarget lib ctx targetFmt targetDepth targetRate forceStereo with
        swrContext := swr } := by
  simp only [changeTargetFormat, hok, Bool.not_true, Bool.false_eq_true, if_false]
  rw [chooseOverrides_eq h]
  split_ifs
  · rw [ensureResampler_eq]
    exact ⟨_, rfl⟩
  · exact ⟨_, rfl⟩

theorem withTarget_channels (h : lib.Documented Valid) (ctx : DecoderContext Layout)
    (targetFmt : AVSampleFormat) (targetDepth : UInt8) (targetRate : Int32)
    (forceStereo : Bool) :
    let r := withTarget lib ctx targetFmt targetDepth targetRate forceStereo
    r.overrideChannels = lib.nbChannels r.overrideChannelLayout := by
  simp only [withTarget]
  split_ifs
  · exact h.downmix_channels.symm
  · rfl

theorem withTarget_stable (h : lib.Documented Valid) {ctx again : DecoderContext Layout}
    (targetFmt : AVSampleFormat) (targetDepth : UInt8) (targetRate : Int32) (forceStereo : Bool)
    (hreads : ReadsFrom again
      (withTarget lib ctx targetFmt targetDepth targetRate forceStereo)) :
    SameOverrides (withTarget lib again targetFmt targetDepth targetRate forceStereo)
      (withTarget lib ctx targetFmt targetDepth targetRate forceStereo) := by
  obtain ⟨hlayout, hdepth, hfmt, hrate⟩ := hreads
  have hdownmix : (forceStereo && lib.nbChannels again.channelLayout != 2) = false := by
    rw [hlayout]
    simp only [withTarget]
    split_ifs with hdown
    · simp [h.downmix_channels]
    · simpa using hdown
  have hchannels := withTarget_channels h ctx targetFmt targetDepth targetRate forceStereo
  constructor
  · simp only [withTarget, hdownmix, Bool.false_eq_true, if_false]
    exact hlayout
  · rw [hchannels, ← hlayout]
    simp only [withTarget, hdownmix, Bool.false_eq_true, if_false]
  · simp only [withTarget, hdepth, hfmt]
    exact outputDepth_stable _ _ _ _
  · simp only [withTarget, hfmt]
    exact outputFormat_stable _ _ _
  · simp only [withTarget, hrate]
    split_ifs <;> rfl

theorem changeTargetFormat_stable (h : lib.Documented Valid) {ctx again : DecoderContext Layout}
    (hok : contextOk ctx = true) (hagain : contextOk again = true)
    (swrAlloc swrAgain : Option ℕ) (targetFmt : AVSampleFormat) (targetDepth : UInt8)
    (targetRate : Int32) (forceStereo : Bool)
    (hreads : ReadsFrom again
      (changeTargetFormat lib swrAlloc ctx targetFmt targetDepth targetRate forceStereo).2) :
    lib.nbChannels again.channelLayout =
        (changeTargetFormat lib swrAlloc ctx targetFmt targetDepth targetRate
          forceStereo).2.overrideChannels ∧
      SameOverrides
        (changeTargetFormat lib swrAgain again targetFmt targetDepth targetRate forceStereo).2
        (changeTargetFormat lib swrAlloc ctx targetFmt targetDepth targetRate forceStereo).2 := by
  obtain ⟨swr, hfirst⟩ := changeTargetFormat_overrides h swrAlloc hok targetFmt targetDepth
    targetRate forceStereo
  obtain ⟨swr', hsecond⟩ := changeTargetFormat_overrides h swrAgain hagain targetFmt targetDepth
    targetRate forceStereo
  rw [hfirst] at hreads ⊢
  rw [hsecond]
  have hreads' : ReadsFrom again
      (withTarget lib ctx targetFmt targetDepth targetRate forceStereo) := by
    obtain ⟨hlayout, hdepth, hfmt, hrate⟩ := hreads
    exact ⟨hlayout, hdepth, hfmt, hrate⟩
  constructor
  · rw [hreads'.layout]
    exact (withTarget_channels h ctx targetFmt targetDepth targetRate forceStereo).symm
  · obtain ⟨hlayout, hchannels, hdepth, hfmt, hrate⟩ := withTarget_stable h targetFmt targetDepth
      targetRate forceStereo hreads'
    exact ⟨hlayout, hchannels, hdepth, hfmt, hrate⟩

end Overrides

def monoFloat : DecoderContext MaskLayout := sourceOf ⟨1, 4⟩ .fltp 32 44100

def stereo24 : DecoderContext MaskLayout := sourceOf ⟨2, 0x60000000⟩ .s32 24 44100

theorem stereo24_readsFrom :
    ReadsFrom stereo24 (changeTargetFormat maskLibav none monoFloat .none 24 0 true).2 :=
  ⟨by decide, by decide, by decide, by decide⟩

theorem monoFloat_target_stable :
    maskLibav.nbChannels stereo24.channelLayout =
        (changeTargetFormat maskLibav none monoFloat .none 24 0 true).2.overrideChannels ∧
      SameOverrides (changeTargetFormat maskLibav none stereo24 .none 24 0 true).2
        (changeTargetFormat maskLibav none monoFloat .none 24 0 true).2 :=
  changeTargetFormat_stable maskLibav_documented (by decide) (by decide) none none .none 24 0 true
    stereo24_readsFrom

/-! ### Streams that are left as they are -/

/-- A positive depth that selects the format and the depth the stream already has. -/
def KeepsBits (sampleFmt : AVSampleFormat) (depth : UInt8) (targetFmt : AVSampleFormat)
    (targetDepth : UInt8) : Prop :=
  match sampleFmt with
  | .dbl => targetDepth = 64
  | .flt => targetDepth = 32
  | .s32 => targetDepth = depth ∧
      (targetDepth = 24 ∨ targetDepth = 32 ∧ targetFmt.packed ≠ .flt ∧ targetFmt.packed ≠ .dbl)
  | .s16 => targetDepth ≠ 64 ∧ targetDepth ≠ 32 ∧ targetDepth ≠ 24 ∧ targetDepth ≠ 8
  | .u8 => targetDepth = 8
  | _ => False

structure KeepsFormat (sampleFmt : AVSampleFormat) (depth : UInt8) (targetFmt : AVSampleFormat)
    (targetDepth : UInt8) : Prop where
  packed : sampleFmt.planar = false
  ownDepth : sampleBitsByFormat sampleFmt depth = depth
  format : targetDepth = 0 → targetFmt = .none ∨ targetFmt.packed = sampleFmt
  bits : 0 < targetDepth → KeepsBits sampleFmt depth targetFmt targetDepth

section FormatForDepth

variable (depth : UInt8) (targetFmt overrideSampleFmt : AVSampleFormat)

theorem formatForDepth_eq_dbl :
    formatForDepth depth targetFmt overrideSampleFmt = .dbl ↔ depth = 64 := by
  unfold formatForDepth
  split_ifs <;> simp_all

theorem formatForDepth_eq_flt :
    formatForDepth depth targetFmt overrideSampleFmt = .flt ↔
      depth = 32 ∧ (targetFmt = .dbl ∨ overrideSampleFmt = .dbl ∨ targetFmt = .flt ∨
        overrideSampleFmt = .flt) := by
  unfold formatForDepth
  split_ifs <;> simp_all

theorem formatForDepth_eq_s32 :
    formatForDepth depth targetFmt overrideSampleFmt = .s32 ↔
      depth = 24 ∨ depth = 32 ∧ ¬ (targetFmt = .dbl ∨ overrideSampleFmt = .dbl ∨
        targetFmt = .flt ∨ overrideSampleFmt = .flt) := by
  unfold formatForDepth
  split_ifs <;> simp_all

theorem formatForDepth_eq_s16 :
    formatForDepth depth targetFmt overrideSampleFmt = .s16 ↔
      depth ≠ 64 ∧ depth ≠ 32 ∧ depth ≠ 24 ∧ depth ≠ 8 := by
  unfold formatForDepth
  split_ifs <;> simp_all

theorem formatForDepth_eq_u8 :
    formatForDepth depth targetFmt overrideSampleFmt = .u8 ↔ depth = 8 := by
  unfold formatForDepth
  split_ifs <;> simp_all

end FormatForDepth

theorem formatForDepth_keeps {sampleFmt : AVSampleFormat} (depth : UInt8)
    (targetFmt : AVSampleFormat) (targetDepth : UInt8) (hplanar : sampleFmt.planar = false) :
    formatForDepth targetDepth targetFmt.packed sampleFmt = sampleFmt ∧
        sampleBitsByFormat sampleFmt targetDepth = depth ↔
      sampleBitsByFormat sampleFmt depth = depth ∧
        KeepsBits sampleFmt depth targetFmt targetDepth := by
  cases sampleFmt with
  | dbl =>
    rw [formatForDepth_eq_dbl]
    exact and_comm
  | flt =>
    rw [formatForDepth_eq_flt]
    simp only [or_true, and_true]
    exact and_comm
  | s16 =>
    rw [formatForDepth_eq_s16]
    exact and_comm
  | u8 =>
    rw [formatForDepth_eq_u8]
    exact and_comm
  | s32 =>
    rw [formatForDepth_eq_s32]
    simp only [sampleBitsByFormat, KeepsBits, reduceCtorEq, false_or, or_false, not_or]
    constructor
    · rintro ⟨rfl | ⟨rfl, hdbl, hflt⟩, hdepth⟩
      · subst hdepth
        exact ⟨rfl, rfl, .inl rfl⟩
      · subst hdepth
        exact ⟨rfl, rfl, .inr ⟨rfl, hflt, hdbl⟩⟩
    · rintro ⟨-, rfl, rfl | ⟨rfl, hflt, hdbl⟩⟩
      · exact ⟨.inl rfl, rfl⟩
      · exact ⟨.inr ⟨rfl, hdbl, hflt⟩, rfl⟩
  | none =>
    refine iff_of_false (fun hout => ?_) (fun hkeeps => hkeeps.2)
    exact formatForDepth_ne_none _ _ _ hout.1
  | s64 =>
    refine iff_of_false (fun hout => ?_) (fun hkeeps => hkeeps.2)
    have hmem := formatForDepth_cases targetDepth targetFmt.packed .s64
    rw [hout.1] at hmem
    exact absurd hmem (by decide)
  | u8p | s16p | s32p | fltp | dblp | s64p => exact absurd hplanar (by decide)

theorem keepsFormat_depth_iff {sampleFmt : AVSampleFormat} (targetFmt : AVSampleFormat)
    (depth : UInt8) {targetDepth : UInt8} (hplanar : sampleFmt.planar = false)
    (hpos : 0 < targetDepth) :
    outputFormat sampleFmt targetFmt targetDepth = sampleFmt ∧
        outputDepth sampleFmt targetFmt depth targetDepth = depth ↔
      KeepsFormat sampleFmt depth targetFmt targetDepth := by
  have hpacked := AVSampleFormat.packed_of_not_planar hplanar
  have hne : targetDepth ≠ 0 := UInt8.pos_iff_ne_zero.mp hpos
  have hiff := formatForDepth_keeps depth targetFmt targetDepth hplanar
  constructor
  · rintro ⟨hfmt, hdepth⟩
    rw [outputDepth, hfmt, if_pos hpos] at hdepth
    rw [outputFormat, if_pos hpos, hpacked] at hfmt
    obtain ⟨hown, hbits⟩ := hiff.mp ⟨hfmt, hdepth⟩
    exact ⟨hplanar, hown, fun hzero => absurd hzero hne, fun _ => hbits⟩
  · rintro ⟨-, hown, -, hbits⟩
    obtain ⟨hfmt, hdepth⟩ := hiff.mpr ⟨hown, hbits hpos⟩
    have hout : outputFormat sampleFmt targetFmt targetDepth = sampleFmt := by
      rw [outputFormat, if_pos hpos, hpacked, hfmt]
    refine ⟨hout, ?_⟩
    rw [outputDepth, hout, if_pos hpos, hdepth]

theorem keepsFormat_format_iff {sampleFmt : AVSampleFormat} (targetFmt : AVSampleFormat)
    (depth : UInt8) (hplanar : sampleFmt.planar = false) :
    outputFormat sampleFmt targetFmt 0 = sampleFmt ∧
        outputDepth sampleFmt targetFmt depth 0 = depth ↔
      KeepsFormat sampleFmt depth targetFmt 0 := by
  have hpos : ¬ (0 : UInt8) < 0 := by decide
  have hout : outputFormat sampleFmt targetFmt 0 = sampleFmt ↔
      targetFmt = .none ∨ targetFmt.packed = sampleFmt := by
    rw [outputFormat, if_neg hpos, AVSampleFormat.packed_of_not_planar hplanar]
    by_cases hnone : targetFmt = .none <;> simp [hnone]
  constructor
  · rintro ⟨hfmt, hdepth⟩
    rw [outputDepth, hfmt, if_neg hpos] at hdepth
    exact ⟨hplanar, hdepth, fun _ => hout.mp hfmt, fun hlt => absurd hlt hpos⟩
  · rintro ⟨-, hown, hformat, -⟩
    have hfmt := hout.mpr (hformat rfl)
    refine ⟨hfmt, ?_⟩
    rw [outputDepth, hfmt, if_neg hpos, hown]

/-- The fixed points of the map on formats and depths. -/
theorem keepsFormat_iff (sampleFmt targetFmt : AVSampleFormat) (depth targetDepth : UInt8) :
    outputFormat sampleFmt targetFmt targetDepth = sampleFmt ∧
        outputDepth sampleFmt targetFmt depth targetDepth = depth ↔
      KeepsFormat sampleFmt depth targetFmt targetDepth := by
  cases hplanar : sampleFmt.planar with
  | true =>
    refine iff_of_false (fun hout => ?_) (fun hkeeps => ?_)
    · have hpacked := outputFormat_planar sampleFmt targetFmt targetDepth
      rw [hout.1, hplanar] at hpacked
      exact Bool.false_ne_true hpacked.symm
    · rw [hkeeps.packed] at hplanar
      exact Bool.false_ne_true hplanar
  | false =>
    by_cases hzero : targetDepth = 0
    · subst hzero
      exact keepsFormat_format_iff targetFmt depth hplanar
    · exact keepsFormat_depth_iff targetFmt depth hplanar (UInt8.pos_iff_ne_zero.mpr hzero)

/-! ### The resampler -/

section Resampler

variable [Setoid Layout] {lib : LibavUtil Layout} {Valid : Layout → Prop}

/-- The resulting format is not the one of the source. -/
def OverrideDiffers (lib : LibavUtil Layout) (ctx : DecoderContext Layout) : Prop :=
  ¬ ctx.overrideChannelLayout ≈ ctx.channelLayout ∨
    ctx.overrideChannels ≠ lib.nbChannels ctx.channelLayout ∨
    ctx.overrideDepth ≠ ctx.depth ∨
    ctx.overrideSampleFmt ≠ ctx.sampleFmt ∨
    ctx.overrideSampleRate ≠ ctx.sampleRate

def ResamplerWhenNeeded (lib : LibavUtil Layout) (r : Int32 × DecoderContext Layout) : Prop :=
  r.1 = 0 → (r.2.swrContext.isSome = true ↔ OverrideDiffers lib r.2)

structure KeepsSource (lib : LibavUtil Layout) (ctx : DecoderContext Layout)
    (targetFmt : AVSampleFormat) (targetDepth : UInt8) (targetRate : Int32)
    (forceStereo : Bool) : Prop where
  format : KeepsFormat ctx.sampleFmt ctx.depth targetFmt targetDepth
  rate : 0 < targetRate → targetRate = ctx.sampleRate
  channels : forceStereo = true → lib.nbChannels ctx.channelLayout = 2

theorem overrideDiffers_iff (lib : LibavUtil Layout) (ctx : DecoderContext Layout)
    (targetFmt : AVSampleFormat) (targetDepth : UInt8) (targetRate : Int32)
    (forceStereo : Bool) :
    OverrideDiffers lib (withTarget lib ctx targetFmt targetDepth targetRate forceStereo) ↔
      ¬ KeepsSource lib ctx targetFmt targetDepth targetRate forceStereo := by
  rw [← not_iff_not, not_not]
  simp only [OverrideDiffers, not_or, not_not, ne_eq]
  constructor
  · rintro ⟨hlayout, hchannels, hdepth, hfmt, hrate⟩
    refine ⟨(keepsFormat_iff _ _ _ _).mp ⟨hfmt, hdepth⟩, fun hpos => ?_, fun hforce => ?_⟩
    · simpa [withTarget, hpos] using hrate
    · by_contra hne
      have hdown : (forceStereo && lib.nbChannels ctx.channelLayout != 2) = true := by
        simp [hforce, hne]
      simp only [withTarget, hdown, if_true] at hchannels
      exact hne hchannels.symm
  · rintro ⟨hformat, hrate, hchannels⟩
    obtain ⟨hfmt, hdepth⟩ := (keepsFormat_iff _ _ _ _).mpr hformat
    have hdown : (forceStereo && lib.nbChannels ctx.channelLayout != 2) = false := by
      cases hforce : forceStereo with
      | false => rfl
      | true => simp [hchannels hforce]
    have hsame : (if 0 < targetRate then targetRate else ctx.sampleRate) = ctx.sampleRate := by
      split_ifs with hpos
      · exact hrate hpos
      · rfl
    simp only [withTarget, hdown, Bool.false_eq_true, if_false]
    exact ⟨Setoid.refl _, trivial, hdepth, hfmt, hsame⟩

/-- A stream that was converted needs no second resampler for the same request. -/
theorem keepsSource_of_readsFrom (h : lib.Documented Valid) {ctx again : DecoderContext Layout}
    (targetFmt : AVSampleFormat) (targetDepth : UInt8) (targetRate : Int32) (forceStereo : Bool)
    (hreads : ReadsFrom again
      (withTarget lib ctx targetFmt targetDepth targetRate forceStereo)) :
    KeepsSource lib again targetFmt targetDepth targetRate forceStereo := by
  by_contra hnot
  have hsame := withTarget_stable h targetFmt targetDepth targetRate forceStereo hreads
  have hchannels := withTarget_channels h ctx targetFmt targetDepth targetRate forceStereo
  rcases (overrideDiffers_iff lib again targetFmt targetDepth targetRate forceStereo).mpr hnot with
    hlayout | hcount | hdepth | hfmt | hrate
  · apply hlayout
    rw [hsame.layout, ← hreads.layout]
    exact Setoid.refl _
  · apply hcount
    rw [hsame.channels, hchannels, ← hreads.layout]
    rfl
  · apply hdepth
    rw [hsame.depth, ← hreads.depth]
    rfl
  · apply hfmt
    rw [hsame.sampleFmt, ← hreads.sampleFmt]
    rfl
  · apply hrate
    rw [hsame.sampleRate, ← hreads.sampleRate]
    rfl

/-- An unchanged layout compares equal, and a downmix changes the channel count. -/
theorem resamplingTest_withTarget (h : lib.Documented Valid) {ctx : DecoderContext Layout}
    (hvalid : Valid ctx.channelLayout) (targetFmt : AVSampleFormat) (targetDepth : UInt8)
    (targetRate : Int32) (forceStereo : Bool) :
    resamplingTest lib (withTarget lib ctx targetFmt targetDepth targetRate forceStereo) =
      true := by
  cases hdown : (forceStereo && lib.nbChannels ctx.channelLayout != 2) with
  | true =>
    have hne : (2 : Int32) ≠ lib.nbChannels ctx.channelLayout := by
      intro heq
      simp [← heq] at hdown
    simp [resamplingTest, withTarget, hdown, hne]
  | false =>
    have hcompare := h.compare_equal _ _ hvalid hvalid (Setoid.refl ctx.channelLayout)
    simp [resamplingTest, withTarget, hdown, hcompare]

theorem changeTargetFormat_eq (h : lib.Documented Valid) (swrAlloc : Option ℕ)
    {ctx : DecoderContext Layout} (hok : contextOk ctx = true)
    (hvalid : Valid ctx.channelLayout) (targetFmt : AVSampleFormat) (targetDepth : UInt8)
    (targetRate : Int32) (forceStereo : Bool) :
    changeTargetFormat lib swrAlloc ctx targetFmt targetDepth targetRate forceStereo =
      ensureResampler swrAlloc
        (withTarget lib ctx targetFmt targetDepth targetRate forceStereo) := by
  simp only [changeTargetFormat, hok, Bool.not_true, Bool.false_eq_true, if_false,
    chooseOverrides_eq h, resamplingTest_withTarget h hvalid, if_true]

theorem resampler_when_needed_iff (h : lib.Documented Valid) (swrAlloc : Option ℕ)
    {ctx : DecoderContext Layout} (hok : contextOk ctx = true)
    (hvalid : Valid ctx.channelLayout) (targetFmt : AVSampleFormat) (targetDepth : UInt8)
    (targetRate : Int32) (forceStereo : Bool) :
    ResamplerWhenNeeded lib
        (changeTargetFormat lib swrAlloc ctx targetFmt targetDepth targetRate forceStereo) ↔
      ¬ KeepsSource lib ctx targetFmt targetDepth targetRate forceStereo ∨
        ctx.swrContext = none ∧ swrAlloc = none := by
  have hdiffers := overrideDiffers_iff lib ctx targetFmt targetDepth targetRate forceStereo
  rw [changeTargetFormat_eq h swrAlloc hok hvalid, ensureResampler_eq]
  have hkeep : (withTarget lib ctx targetFmt targetDepth targetRate forceStereo).swrContext =
      ctx.swrContext := rfl
  rw [hkeep]
  cases hsome : ctx.swrContext.or swrAlloc with
  | none =>
    have hnone := Option.or_eq_none_iff.mp hsome
    have hfail : (-1 : Int32) ≠ 0 := by decide
    exact iff_of_true (fun hret => absurd hret hfail) (.inr hnone)
  | some swr =>
    have hnot : ¬ (ctx.swrContext = none ∧ swrAlloc = none) := by
      intro hnone
      rw [Option.or_eq_none_iff.mpr hnone] at hsome
      exact Option.some_ne_none swr hsome.symm
    simp only [hnot, or_false]
    rw [← hdiffers]
    constructor
    · intro hneeded
      exact (hneeded rfl).mp rfl
    · intro hdiff _
      exact iff_of_true rfl hdiff

end Resampler

def cdAudio : DecoderContext MaskLayout := sourceOf ⟨2, 3⟩ .s16 16 44100

theorem monoFloat_needs_resampler :
    ResamplerWhenNeeded maskLibav (changeTargetFormat maskLibav (some 1) monoFloat .none 0 0 true) :=
  (resampler_when_needed_iff maskLibav_documented (some 1) rfl trivial .none 0 0 true).mpr
    (.inl fun hkeeps => absurd (hkeeps.channels rfl) (by decide))

theorem unchanged_stream_gets_resampler :
    ¬ ∀ (ctx : DecoderContext MaskLayout) (swrAlloc : Option ℕ) (targetFmt : AVSampleFormat)
      (targetDepth : UInt8) (targetRate : Int32) (forceStereo : Bool), contextOk ctx = true →
      ResamplerWhenNeeded maskLibav
        (changeTargetFormat maskLibav swrAlloc ctx targetFmt targetDepth targetRate
          forceStereo) := by
  intro h
  have hneeded := h cdAudio (some 1) .none 0 0 false (by decide)
  have hsame : ¬ OverrideDiffers maskLibav
      (changeTargetFormat maskLibav (some 1) cdAudio .none 0 0 false).2 := by
    rintro (hlayout | hchannels | hdepth | hfmt | hrate)
    · exact hlayout rfl
    · exact hchannels rfl
    · exact absurd hdepth (by decide)
    · exact hfmt rfl
    · exact hrate rfl
  exact hsame ((hneeded (by decide)).mp (by decide))

end AudioFS.Decoder
