import AudioFS.DecoderContext
import AudioFS.StepMachine
import Mathlib.Logic.Function.Basic

/-!
# Setting up the resampler

`resampler.c` over a decoder context and the resampler contexts of libswresample
that are alive. A resampler takes options at any time and converts with those it
had when it was last initialised. What libswresample answers is the parameter
`Swresample`, by the number of calls to this interface made before.
-/

namespace AudioFS.Decoder
open StepMachine

variable {Layout : Type}

/-- `enum SwrEngine`; the function that looks one up also answers `-1`. -/
inductive SwrEngine
  | swr | soxr | other (value : Int32)
  deriving DecidableEq, Repr

inductive SwrOption (Layout : Type)
  | resampler (engine : SwrEngine)
  | ditherMethod (dither : Int32)
  | outputSampleBits (depth : UInt8)
  | precision (bits : ℕ)
  | inChannelLayout (layout : Layout)
  | outChannelLayout (layout : Layout)
  | inSampleRate (rate : Int32)
  | outSampleRate (rate : Int32)
  | inSampleFmt (fmt : AVSampleFormat)
  | outSampleFmt (fmt : AVSampleFormat)

/-- The options that were set; the others have the defaults of libswresample. -/
structure SwrOptions (Layout : Type) where
  resampler : Option SwrEngine
  ditherMethod : Option Int32
  outputSampleBits : Option UInt8
  precision : Option ℕ
  inChannelLayout : Option Layout
  outChannelLayout : Option Layout
  inSampleRate : Option Int32
  outSampleRate : Option Int32
  inSampleFmt : Option AVSampleFormat
  outSampleFmt : Option AVSampleFormat

def SwrOptions.defaults : SwrOptions Layout :=
  ⟨none, none, none, none, none, none, none, none, none, none⟩

def SwrOptions.set (o : SwrOptions Layout) : SwrOption Layout → SwrOptions Layout
  | .resampler engine => { o with resampler := some engine }
  | .ditherMethod dither => { o with ditherMethod := some dither }
  | .outputSampleBits depth => { o with outputSampleBits := some depth }
  | .precision bits => { o with precision := some bits }
  | .inChannelLayout layout => { o with inChannelLayout := some layout }
  | .outChannelLayout layout => { o with outChannelLayout := some layout }
  | .inSampleRate rate => { o with inSampleRate := some rate }
  | .outSampleRate rate => { o with outSampleRate := some rate }
  | .inSampleFmt fmt => { o with inSampleFmt := some fmt }
  | .outSampleFmt fmt => { o with outSampleFmt := some fmt }

/-- A resampler, and the options it was last initialised with. -/
structure SwrContext (Layout : Type) where
  options : SwrOptions Layout
  running : Option (SwrOptions Layout)

def SwrContext.fresh : SwrContext Layout := ⟨SwrOptions.defaults, none⟩

structure Swresample (Layout : Type) where
  swrAlloc : ℕ → Bool
  swrAllocSetOpts2 : ℕ → Int32
  avOptSet : ℕ → SwrOption Layout → Int32
  avOptSetResampler : ℕ → List UInt8 → Int32
  swrInit : ℕ → Int32

/-- A decoder context among the resamplers that are alive; their addresses are the numbers of
the calls that allocated them. A use of one that is not alive is counted as stray. -/
structure Resampling (Layout : Type) where
  ctx : DecoderContext Layout
  calls : ℕ
  live : List ℕ
  contexts : ℕ → SwrContext Layout
  stray : ℕ

def Resampling.start (ctx : DecoderContext Layout) : Resampling Layout :=
  ⟨ctx, 0, [], fun _ => .fresh, 0⟩

namespace Resampling

def alloc (s : Resampling Layout) : Resampling Layout :=
  { s with
    live := s.calls :: s.live
    contexts := Function.update s.contexts s.calls .fresh }

def swrFree (s : Resampling Layout) (addr : ℕ) : Resampling Layout :=
  if addr ∈ s.live then { s with live := s.live.erase addr } else { s with stray := s.stray + 1 }

def store (s : Resampling Layout) (addr : ℕ) (swr : SwrContext Layout) : Resampling Layout :=
  if addr ∈ s.live then { s with contexts := Function.update s.contexts addr swr }
  else { s with stray := s.stray + 1 }

end Resampling

/-- Options are set in order up to the first whose answer makes the caller stop. -/
def setOptions (answer : SwrOption Layout → Int32) (stops : Int32 → Bool) :
    List (SwrOption Layout) → SwrOptions Layout → Option Int32 × SwrOptions Layout
  | [], o => (none, o)
  | option :: rest, o =>
    let o := if answer option < 0 then o else o.set option
    if stops (answer option) then (some (answer option), o) else setOptions answer stops rest o

def ditherSettings (ctx : DecoderContext Layout) (dither : Int32) (engine : SwrEngine) :
    List (SwrOption Layout) :=
  [.resampler engine, .ditherMethod dither] ++
    (if engine = .swr then [.outputSampleBits ctx.overrideDepth] else []) ++
    if engine = .soxr then [.precision 28] else []

def conversion (ctx : DecoderContext Layout) : List (SwrOption Layout) :=
  [.inChannelLayout ctx.channelLayout, .outChannelLayout ctx.overrideChannelLayout,
    .inSampleRate ctx.sampleRate, .outSampleRate ctx.overrideSampleRate,
    .inSampleFmt ctx.sampleFmt, .outSampleFmt ctx.overrideSampleFmt]

section
variable (lib : LibavUtil Layout) (swr : Swresample Layout)

/-- Nothing is returned where the assertion fails. -/
def setDitherSettings (s : Resampling Layout) (dither : Int32) (engine : SwrEngine) :
    Option Int32 × Resampling Layout :=
  if !contextOk s.ctx then (none, s)
  else
    match s.ctx.swrContext with
    | none => (some (-1), s)
    | some addr =>
      let r := setOptions (swr.avOptSet s.calls) (· < 0) (ditherSettings s.ctx dither engine)
        (s.contexts addr).options
      (some (r.1.getD 0), s.store addr { s.contexts addr with options := r.2 })

/-- Here an option whose answer is positive is also taken for refused. -/
def setupSwr (s : Resampling Layout) : Option Int32 × Resampling Layout :=
  if !contextOk s.ctx then (none, s)
  else
    match s.ctx.swrContext with
    | none => (some (-1), s)
    | some addr =>
      let r := setOptions (swr.avOptSet s.calls) (· != 0) (conversion s.ctx)
        (s.contexts addr).options
      if r.1.isSome then (some (-1), s.store addr { s.contexts addr with options := r.2 })
      else if swr.swrInit s.calls < 0 then (some (-1), s.store addr ⟨r.2, none⟩)
      else (some 0, s.store addr ⟨r.2, some r.2⟩)

/-- `"soxr"`. -/
def soxrName : List UInt8 := [115, 111, 120, 114]

/-- The name is tried on a resampler of its own. -/
def getSupportedResampler (s : Resampling Layout) (name : Option (List UInt8)) :
    Int32 × Resampling Layout :=
  match name with
  | none => (0, s)
  | some name =>
    if !swr.swrAlloc s.calls then (-1, s)
    else
      let tried := s.alloc
      -- a failing `swr_alloc_set_opts2` frees the context itself
      if swr.swrAllocSetOpts2 s.calls ≠ 0 then (-1, tried.swrFree s.calls)
      else if swr.avOptSetResampler s.calls name ≠ 0 then (-1, tried.swrFree s.calls)
      else if swr.swrInit s.calls ≠ 0 then (-1, tried.swrFree s.calls)
      else (if name = soxrName then 1 else 0, tried.swrFree s.calls)

/-- `change_target_format` with the allocation and the release it makes. -/
def retarget (s : Resampling Layout) (targetFmt : AVSampleFormat) (targetDepth : UInt8)
    (targetRate : Int32) (forceStereo : Bool) : Int32 × Resampling Layout :=
  let r := changeTargetFormat lib (if swr.swrAlloc s.calls then some s.calls else none) s.ctx
    targetFmt targetDepth targetRate forceStereo
  let s' :=
    match s.ctx.swrContext, r.2.swrContext with
    | none, some _ => s.alloc
    | some addr, none => s.swrFree addr
    | _, _ => s
  (r.1, { s' with ctx := r.2 })

end

inductive Request
  | detectDsd
  | fixDepth
  | changeTargetFormat (targetFmt : AVSampleFormat) (targetDepth : UInt8) (targetRate : Int32)
      (forceStereo : Bool)
  | setDitherSettings (dither : Int32) (engine : SwrEngine)
  | setupSwr
  | getSupportedResampler (name : Option (List UInt8))

def serve (lib : LibavUtil Layout) (swr : Swresample Layout) (s : Resampling Layout) :
    Request → Option Int32 × Resampling Layout
  | .detectDsd => (some 0, { s with ctx := detectDsd lib s.ctx })
  | .fixDepth => (some 0, { s with ctx := fixDepth s.ctx })
  | .changeTargetFormat targetFmt targetDepth targetRate forceStereo =>
    let r := retarget lib swr s targetFmt targetDepth targetRate forceStereo
    (some r.1, r.2)
  | .setDitherSettings dither engine => setDitherSettings swr s dither engine
  | .setupSwr => setupSwr swr s
  | .getSupportedResampler name =>
    let r := getSupportedResampler swr s name
    (some r.1, r.2)

def step (lib : LibavUtil Layout) (swr : Swresample Layout) (s : Resampling Layout)
    (request : Request) : Option Int32 × Resampling Layout :=
  let r := serve lib swr s request
  (r.1, { r.2 with calls := r.2.calls + 1 })

/-! ### Who owns a resampler -/

theorem alloc_swrFree (s : Resampling Layout) :
    s.alloc.swrFree s.calls = { s with contexts := s.alloc.contexts } := by
  simp [Resampling.alloc, Resampling.swrFree]

/-- The decoder context owns the one resampler that is alive, if any. -/
structure Owned (s : Resampling Layout) : Prop where
  live : s.live = s.ctx.swrContext.toList
  older : ∀ addr ∈ s.live, addr < s.calls
  stray : s.stray = 0

theorem Owned.mem {s : Resampling Layout} (h : Owned s) {addr : ℕ}
    (hswr : s.ctx.swrContext = some addr) : addr ∈ s.live := by
  simp [h.live, hswr]

theorem changeTargetFormat_ctx (lib : LibavUtil Layout) (swrAlloc : Option ℕ)
    {ctx : DecoderContext Layout} (hok : contextOk ctx = true) (targetFmt : AVSampleFormat)
    (targetDepth : UInt8) (targetRate : Int32) (forceStereo : Bool) :
    ∃ swr, (swr = none ∨ swr = ctx.swrContext.or swrAlloc) ∧
      (changeTargetFormat lib swrAlloc ctx targetFmt targetDepth targetRate forceStereo).2 =
        { chooseOverrides lib ctx targetFmt targetDepth targetRate forceStereo with
          swrContext := swr } := by
  simp only [changeTargetFormat, hok, Bool.not_true, Bool.false_eq_true, if_false]
  split_ifs
  · rw [ensureResampler_eq]
    exact ⟨_, .inr rfl, rfl⟩
  · exact ⟨none, .inl rfl, rfl⟩

section
variable (lib : LibavUtil Layout) (swr : Swresample Layout) {s : Resampling Layout}

theorem changeTargetFormat_swrContext (swrAlloc : Option ℕ) (ctx : DecoderContext Layout)
    (targetFmt : AVSampleFormat) (targetDepth : UInt8) (targetRate : Int32) (forceStereo : Bool) :
    let after := (changeTargetFormat lib swrAlloc ctx targetFmt targetDepth targetRate
      forceStereo).2.swrContext
    after = none ∨ after = ctx.swrContext.or swrAlloc := by
  cases hok : contextOk ctx with
  | false =>
    simp only [changeTargetFormat, hok, Bool.not_false, if_true]
    cases ctx.swrContext with
    | none => exact .inl rfl
    | some addr => exact .inr rfl
  | true =>
    obtain ⟨after, hafter, hctx⟩ := changeTargetFormat_ctx lib swrAlloc hok targetFmt targetDepth
      targetRate forceStereo
    rw [hctx]
    exact hafter

theorem retarget_owned (h : Owned s) (targetFmt : AVSampleFormat) (targetDepth : UInt8)
    (targetRate : Int32) (forceStereo : Bool) :
    let s' := (retarget lib swr s targetFmt targetDepth targetRate forceStereo).2
    s'.live = s'.ctx.swrContext.toList ∧ (∀ addr ∈ s'.live, addr < s'.calls + 1) ∧
      s'.stray = 0 := by
  have hafter := changeTargetFormat_swrContext lib (if swr.swrAlloc s.calls then some s.calls
    else none) s.ctx targetFmt targetDepth targetRate forceStereo
  obtain ⟨hlive, holder, hstray⟩ := h
  simp only [retarget]
  generalize changeTargetFormat lib _ s.ctx _ _ _ _ = r at hafter ⊢
  obtain ⟨ret, ctx⟩ := r
  dsimp only at hafter ⊢
  cases hbefore : s.ctx.swrContext with
  | none =>
    rw [hbefore, Option.none_or] at hafter
    rw [hbefore, Option.toList_none] at hlive
    cases hctx : ctx.swrContext with
    | none => simp [hlive, hstray]
    | some addr =>
      have haddr : addr = s.calls := by
        rw [hctx] at hafter
        simp only [reduceCtorEq, false_or] at hafter
        split_ifs at hafter
        exact Option.some.inj hafter
      simp [Resampling.alloc, hlive, hstray, haddr]
  | some old =>
    have hold : old < s.calls := holder old (by simp [hlive, hbefore])
    rw [hbefore, Option.some_or] at hafter
    rw [hbefore, Option.toList_some] at hlive
    cases hctx : ctx.swrContext with
    | none => simp [Resampling.swrFree, hlive, hstray]
    | some addr =>
      have haddr : addr = old := by simpa [hctx] using hafter
      simp [hlive, hstray, haddr]
      omega

theorem store_of_mem {addr : ℕ} (h : addr ∈ s.live) (context : SwrContext Layout) :
    s.store addr context = { s with contexts := Function.update s.contexts addr context } :=
  if_pos h

/-- What a call writes, it writes to the resampler of the decoder context. -/
def Touches (s s' : Resampling Layout) : Prop :=
  s' = s ∨ ∃ addr context, s.ctx.swrContext = some addr ∧ s' = s.store addr context

theorem setDitherSettings_touches (s : Resampling Layout) (dither : Int32) (engine : SwrEngine) :
    Touches s (setDitherSettings swr s dither engine).2 := by
  simp only [setDitherSettings]
  split_ifs
  · exact .inl rfl
  · cases hswr : s.ctx.swrContext with
    | none => exact .inl rfl
    | some addr => exact .inr ⟨addr, _, hswr, rfl⟩

theorem setupSwr_touches (s : Resampling Layout) : Touches s (setupSwr swr s).2 := by
  cases hok : contextOk s.ctx with
  | false => exact .inl (by simp [setupSwr, hok])
  | true =>
    cases hswr : s.ctx.swrContext with
    | none => exact .inl (by simp [setupSwr, hok, hswr])
    | some addr =>
      simp only [setupSwr, hok, hswr, Bool.not_true, Bool.false_eq_true, if_false]
      split_ifs <;> exact .inr ⟨addr, _, hswr, rfl⟩

theorem step_owned (h : Owned s) (request : Request) : Owned (step lib swr s request).2 := by
  have hlater : ∀ addr ∈ s.live, addr < s.calls + 1 := fun addr haddr =>
    Nat.lt_succ_of_lt (h.older addr haddr)
  have hkept : Owned { s with calls := s.calls + 1 } := ⟨h.live, hlater, h.stray⟩
  have hstored {addr : ℕ} (hswr : s.ctx.swrContext = some addr) (context : SwrContext Layout) :
      Owned { s.store addr context with calls := (s.store addr context).calls + 1 } := by
    rw [store_of_mem (h.mem hswr)]
    exact ⟨h.live, hlater, h.stray⟩
  cases request with
  | detectDsd =>
    have hsame : (detectDsd lib s.ctx).swrContext = s.ctx.swrContext := by
      unfold detectDsd
      split_ifs
      · rfl
      · split <;> rfl
    exact ⟨by simpa [step, serve, hsame] using h.live, hlater, h.stray⟩
  | fixDepth =>
    have hsame : (fixDepth s.ctx).swrContext = s.ctx.swrContext := by
      unfold fixDepth
      split_ifs
      · rfl
      · split <;> rfl
      · split <;> rfl
    exact ⟨by simpa [step, serve, hsame] using h.live, hlater, h.stray⟩
  | changeTargetFormat targetFmt targetDepth targetRate forceStereo =>
    obtain ⟨hlive, holder, hstray⟩ :=
      retarget_owned lib swr h targetFmt targetDepth targetRate forceStereo
    exact ⟨hlive, holder, hstray⟩
  | setDitherSettings dither engine =>
    have htouched := setDitherSettings_touches swr s dither engine
    simp only [step, serve]
    generalize setDitherSettings swr s dither engine = r at htouched ⊢
    rcases htouched with hsame | ⟨addr, context, hswr, hstore⟩
    · rw [hsame]
      exact hkept
    · rw [hstore]
      exact hstored hswr context
  | setupSwr =>
    have htouched := setupSwr_touches swr s
    simp only [step, serve]
    generalize setupSwr swr s = r at htouched ⊢
    rcases htouched with hsame | ⟨addr, context, hswr, hstore⟩
    · rw [hsame]
      exact hkept
    · rw [hstore]
      exact hstored hswr context
  | getSupportedResampler name =>
    have htried : Owned { s.alloc.swrFree s.calls with
        calls := (s.alloc.swrFree s.calls).calls + 1 } := by
      rw [alloc_swrFree]
      exact ⟨h.live, hlater, h.stray⟩
    cases name with
    | none => exact hkept
    | some name =>
      simp only [step, serve, getSupportedResampler]
      split_ifs
      · exact hkept
      all_goals exact htried

end

end AudioFS.Decoder
