import AudioFS.Buffer

/-!
# The decoder context

`detect_dsd`, `fix_depth` and `change_target_format` of `libav.c` over the part of
`decoder_context` that they read and set. Sample formats and channel layouts belong to
libavutil; what it answers about them is the parameter `LibavUtil`.
-/

namespace AudioFS.Decoder
open AudioFS.CInteger
open AudioFS.Buffer (contextMagicA)

def contextMagicB : UInt32 := 0xdeadbeef

inductive AVSampleFormat
  | none | u8 | s16 | s32 | flt | dbl | u8p | s16p | s32p | fltp | dblp | s64 | s64p
  deriving DecidableEq, Repr

namespace AVSampleFormat

def planar : AVSampleFormat → Bool
  | .u8p | .s16p | .s32p | .fltp | .dblp | .s64p => true
  | _ => false

def packed : AVSampleFormat → AVSampleFormat
  | .u8p => .u8
  | .s16p => .s16
  | .s32p => .s32
  | .fltp => .flt
  | .dblp => .dbl
  | .s64p => .s64
  | fmt => fmt

/-- The form of a format with its samples interleaved or in planes. -/
def alternative (fmt : AVSampleFormat) (planar : Bool) : AVSampleFormat :=
  if !planar then fmt.packed
  else
    match fmt with
    | .u8 => .u8p
    | .s16 => .s16p
    | .s32 => .s32p
    | .flt => .fltp
    | .dbl => .dblp
    | .s64 => .s64p
    | fmt => fmt

theorem packed_of_not_planar {fmt : AVSampleFormat} (h : fmt.planar = false) :
    fmt.packed = fmt := by
  cases fmt <;> first | rfl | exact absurd h (by decide)

theorem planar_packed (fmt : AVSampleFormat) : fmt.packed.planar = false := by
  cases fmt <;> rfl

theorem packed_packed (fmt : AVSampleFormat) : fmt.packed.packed = fmt.packed :=
  packed_of_not_planar (planar_packed fmt)

theorem packed_eq_none {fmt : AVSampleFormat} : fmt.packed = .none ↔ fmt = .none := by
  cases fmt <;> decide

end AVSampleFormat

inductive AVCodecID
  | pcmS24le | pcmS24be | pcmS24lePlanar
  | dsdLsbf | dsdMsbf | dsdLsbfPlanar | dsdMsbfPlanar
  | other (id : ℕ)
  deriving DecidableEq, Repr

/-- What libavutil answers about a sample format and a channel layout. -/
structure LibavUtil (Layout : Type) where
  avSampleFmtIsPlanar : AVSampleFormat → Bool
  avGetAltSampleFmt : AVSampleFormat → Bool → AVSampleFormat
  nbChannels : Layout → Int32
  avChannelLayoutCompare : Layout → Layout → Int32
  stereoDownmix : Layout

/-- The documented answers. Two layouts are equivalent when they have the same channels in the
same places. -/
structure LibavUtil.Documented {Layout : Type} [Setoid Layout] (lib : LibavUtil Layout)
    (Valid : Layout → Prop) : Prop where
  isPlanar : ∀ fmt, lib.avSampleFmtIsPlanar fmt = fmt.planar
  packedForm : ∀ fmt, lib.avGetAltSampleFmt fmt false = fmt.packed
  compare_equal : ∀ a b, Valid a → Valid b → a ≈ b → lib.avChannelLayoutCompare a b = 0
  compare_different : ∀ a b, Valid a → Valid b → ¬ a ≈ b → lib.avChannelLayoutCompare a b = 1
  downmix_channels : lib.nbChannels lib.stereoDownmix = 2

/-- A pointer is modelled by the address it holds, and a codec by its id. -/
structure DecoderContext (Layout : Type) where
  cookieA : Int32
  avCodecContext : Option AVCodecID
  avCodec : Option AVCodecID
  swrContext : Option ℕ
  dsd : UInt16
  sampleFmt : AVSampleFormat
  sampleRate : Int32
  depth : UInt8
  channelLayout : Layout
  overrideSampleFmt : AVSampleFormat
  overrideSampleRate : Int32
  overrideDepth : UInt8
  overrideChannels : Int32
  overrideChannelLayout : Layout
  cookieB : Int32

variable {Layout : Type}

def contextOk (ctx : DecoderContext Layout) : Bool :=
  ctx.cookieA.toUInt32 == contextMagicA && ctx.cookieB.toUInt32 == contextMagicB

def sampleBitsByFormat (sampleFmt : AVSampleFormat) (depth : UInt8) : UInt8 :=
  match sampleFmt with
  | .u8 | .u8p => 8
  | .dbl | .dblp => 64
  | .flt | .fltp => 32
  | .s16 | .s16p => 16
  | .s32 | .s32p => if depth = 24 then 24 else 32
  | _ => 0

/-- Converting the rate to unsigned and the product to 32 bits are both implicit in the
source. -/
def bitratePerChannel (lib : LibavUtil Layout) (ctx : DecoderContext Layout) : UInt32 :=
  ctx.sampleRate.toUInt32 * ctx.depth.toUInt32 /
    (maxOf (lib.nbChannels ctx.channelLayout) 1).toUInt32

def dsdOfBitrate (bitratePerChannel : UInt32) : UInt16 :=
  let dsd :=
    if bitratePerChannel % 48000 = 0 then (bitratePerChannel / 48000).toUInt16
    else (bitratePerChannel / 44100).toUInt16
  if dsd % 64 ≠ 0 ∨ dsd < 64 then 0 else dsd

def detectDsd (lib : LibavUtil Layout) (ctx : DecoderContext Layout) : DecoderContext Layout :=
  if !contextOk ctx then ctx
  else
    match ctx.avCodecContext with
    | none => ctx
    | some .dsdLsbfPlanar | some .dsdMsbfPlanar =>
      { ctx with dsd := dsdOfBitrate (bitratePerChannel lib ctx / 2) }
    | some .dsdLsbf | some .dsdMsbf =>
      { ctx with dsd := dsdOfBitrate (bitratePerChannel lib ctx) }
    | some _ => { ctx with dsd := 0 }

def fixDepth (ctx : DecoderContext Layout) : DecoderContext Layout :=
  if !contextOk ctx then ctx
  else
    match ctx.avCodec with
    | none => ctx
    | some .pcmS24le | some .pcmS24be | some .pcmS24lePlanar =>
      { ctx with depth := 24, overrideSampleFmt := .s32 }
    | some _ =>
      if ctx.depth = 0 then { ctx with depth := sampleBitsByFormat ctx.sampleFmt 0 } else ctx

/-- Float is kept at 32 bits when the source or the request is a float format. -/
def formatForDepth (depth : UInt8) (targetFmt overrideSampleFmt : AVSampleFormat) :
    AVSampleFormat :=
  if depth = 64 then .dbl
  else if depth = 32 then
    if targetFmt = .dbl ∨ overrideSampleFmt = .dbl ∨ targetFmt = .flt ∨ overrideSampleFmt = .flt
    then .flt
    else .s32
  else if depth = 24 then .s32
  else if depth = 8 then .u8
  else .s16

/-- The part of `change_target_format` that computes the overrides. -/
def chooseOverrides (lib : LibavUtil Layout) (ctx : DecoderContext Layout)
    (targetFmt : AVSampleFormat) (targetDepth : UInt8) (targetRate : Int32)
    (forceStereo : Bool) : DecoderContext Layout :=
  let overrideSampleFmt :=
    if lib.avSampleFmtIsPlanar ctx.sampleFmt then lib.avGetAltSampleFmt ctx.sampleFmt false
    else ctx.sampleFmt
  let targetFmt :=
    if targetFmt ≠ .none ∧ lib.avSampleFmtIsPlanar targetFmt then
      lib.avGetAltSampleFmt targetFmt false
    else targetFmt
  let overrideDepth := if 0 < targetDepth then targetDepth else ctx.depth
  let targetFmt :=
    if 0 < targetDepth then formatForDepth overrideDepth targetFmt overrideSampleFmt
    else targetFmt
  let downmix := forceStereo && lib.nbChannels ctx.channelLayout != 2
  let overrideSampleFmt :=
    if targetFmt ≠ .none then lib.avGetAltSampleFmt targetFmt false else overrideSampleFmt
  { ctx with
    overrideChannelLayout := if downmix then lib.stereoDownmix else ctx.channelLayout
    overrideChannels := if downmix then 2 else lib.nbChannels ctx.channelLayout
    overrideSampleFmt := overrideSampleFmt
    overrideDepth := sampleBitsByFormat overrideSampleFmt overrideDepth
    overrideSampleRate := if 0 < targetRate then targetRate else ctx.sampleRate }

/-- The test that decides on a resampler. Its first comparison asks for equal layouts. -/
def resamplingTest (lib : LibavUtil Layout) (ctx : DecoderContext Layout) : Bool :=
  0 == lib.avChannelLayoutCompare ctx.overrideChannelLayout ctx.channelLayout ||
    ctx.overrideChannels != lib.nbChannels ctx.channelLayout ||
    ctx.overrideDepth != ctx.depth ||
    ctx.overrideSampleFmt != ctx.sampleFmt ||
    ctx.overrideSampleRate != ctx.sampleRate

/-- `swrAlloc` is what `swr_alloc` answers if it is called. -/
def ensureResampler (swrAlloc : Option ℕ) (ctx : DecoderContext Layout) :
    Int32 × DecoderContext Layout :=
  match ctx.swrContext with
  | some _ => (0, ctx)
  | none =>
    match swrAlloc with
    | some swr => (0, { ctx with swrContext := some swr })
    | none => (-1, { ctx with swrContext := none })

def changeTargetFormat (lib : LibavUtil Layout) (swrAlloc : Option ℕ)
    (ctx : DecoderContext Layout) (targetFmt : AVSampleFormat) (targetDepth : UInt8)
    (targetRate : Int32) (forceStereo : Bool) : Int32 × DecoderContext Layout :=
  if !contextOk ctx then (-1, ctx)
  else
    let ctx := chooseOverrides lib ctx targetFmt targetDepth targetRate forceStereo
    if resamplingTest lib ctx then ensureResampler swrAlloc ctx
    else (0, { ctx with swrContext := none })

theorem ensureResampler_eq (swrAlloc : Option ℕ) (ctx : DecoderContext Layout) :
    ensureResampler swrAlloc ctx =
      (if (ctx.swrContext.or swrAlloc).isSome then 0 else -1,
        { ctx with swrContext := ctx.swrContext.or swrAlloc }) := by
  obtain ⟨_, _, _, swrContext, _, _, _, _, _, _, _, _, _, _, _⟩ := ctx
  cases swrContext with
  | some swr => rfl
  | none => cases swrAlloc <;> rfl

/-! ### Layouts given by a mask -/

/-- A layout in native order: its channel count and its channel mask. -/
structure MaskLayout where
  nbChannels : Int32
  mask : UInt64
  deriving DecidableEq, Repr

instance : Setoid MaskLayout := ⟨Eq, Eq.refl, Eq.symm, Eq.trans⟩

def maskLibav : LibavUtil MaskLayout where
  avSampleFmtIsPlanar := AVSampleFormat.planar
  avGetAltSampleFmt := AVSampleFormat.alternative
  nbChannels := MaskLayout.nbChannels
  avChannelLayoutCompare a b := if a = b then 0 else 1
  stereoDownmix := ⟨2, 0x60000000⟩

theorem maskLibav_documented : maskLibav.Documented (fun _ => True) where
  isPlanar _ := rfl
  packedForm _ := rfl
  compare_equal _ _ _ _ heq := if_pos heq
  compare_different _ _ _ _ hne := if_neg hne
  downmix_channels := rfl

def sourceOf (layout : MaskLayout) (sampleFmt : AVSampleFormat) (depth : UInt8)
    (sampleRate : Int32) : DecoderContext MaskLayout :=
  { cookieA := contextMagicA.toInt32, avCodecContext := none, avCodec := none,
    swrContext := none, dsd := 0, sampleFmt := sampleFmt, sampleRate := sampleRate,
    depth := depth, channelLayout := layout, overrideSampleFmt := .none,
    overrideSampleRate := 0, overrideDepth := 0, overrideChannels := 0,
    overrideChannelLayout := ⟨0, 0⟩, cookieB := contextMagicB.toInt32 }

end AudioFS.Decoder
