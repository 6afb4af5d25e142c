import AudioFS.Resampler

/-!
# What a resampler is initialised with

A decoder context is configured by choosing a target format, setting the dither
and initialising the resampler. The resampler of an earlier configuration is used
again, and options that a later one does not set stay as they are.
-/

namespace AudioFS.Decoder
open StepMachine

variable {Layout : Type}

structure Configuration where
  targetFmt : AVSampleFormat
  targetDepth : UInt8
  targetRate : Int32
  forceStereo : Bool
  dither : Int32
  engine : SwrEngine

namespace Configuration

def requests (k : Configuration) : List Request :=
  [.changeTargetFormat k.targetFmt k.targetDepth k.targetRate k.forceStereo,
    .setDitherSettings k.dither k.engine, .setupSwr]

def target (lib : LibavUtil Layout) (ctx : DecoderContext Layout) (k : Configuration) :
    DecoderContext Layout :=
  chooseOverrides lib ctx k.targetFmt k.targetDepth k.targetRate k.forceStereo

/-- The options after a configuration in which everything succeeds. -/
def options (lib : LibavUtil Layout) (ctx : DecoderContext Layout) (o : SwrOptions Layout)
    (k : Configuration) : SwrOptions Layout :=
  (ditherSettings (k.target lib ctx) k.dither k.engine ++ conversion (k.target lib ctx)).foldl
    SwrOptions.set o

end Configuration

theorem setOptions_of_none {answer : SwrOption Layout → Int32} {stops : Int32 → Bool}
    (hstops : ∀ code : Int32, code < 0 → stops code = true) {options : List (SwrOption Layout)}
    {o : SwrOptions Layout} (h : (setOptions answer stops options o).1 = none) :
    (setOptions answer stops options o).2 = options.foldl SwrOptions.set o := by
  induction options generalizing o with
  | nil => rfl
  | cons option rest ih =>
    simp only [setOptions] at h ⊢
    cases hstop : stops (answer option) with
    | true => simp [hstop] at h
    | false =>
      have hset : ¬ answer option < 0 := fun hneg => by simp [hstops _ hneg] at hstop
      simp only [hstop, hset, if_false, Bool.false_eq_true] at h ⊢
      exact ih h

theorem setOptions_stops {answer : SwrOption Layout → Int32} {stops : Int32 → Bool}
    {options : List (SwrOption Layout)} {o : SwrOptions Layout} {code : Int32}
    (h : (setOptions answer stops options o).1 = some code) : stops code = true := by
  induction options generalizing o with
  | nil => simp [setOptions] at h
  | cons option rest ih =>
    simp only [setOptions] at h
    cases hstop : stops (answer option) with
    | true =>
      simp only [hstop, if_true, Option.some.injEq] at h
      rwa [← h]
    | false =>
      simp only [hstop, Bool.false_eq_true, if_false] at h
      exact ih h

section
variable {lib : LibavUtil Layout} {swr : Swresample Layout} {s : Resampling Layout}

theorem setDitherSettings_ok {dither : Int32} {engine : SwrEngine}
    (h : (setDitherSettings swr s dither engine).1 = some 0) :
    ∃ addr, s.ctx.swrContext = some addr ∧ (setDitherSettings swr s dither engine).2 =
      s.store addr { s.contexts addr with
        options := (ditherSettings s.ctx dither engine).foldl SwrOptions.set
          (s.contexts addr).options } := by
  cases hok : contextOk s.ctx with
  | false => simp [setDitherSettings, hok] at h
  | true =>
    cases hswr : s.ctx.swrContext with
    | none => simp [setDitherSettings, hok, hswr] at h
    | some addr =>
      simp only [setDitherSettings, hok, hswr, Bool.not_true, Bool.false_eq_true, if_false,
        Option.some.injEq] at h ⊢
      refine ⟨addr, rfl, ?_⟩
      cases hcode : (setOptions (swr.avOptSet s.calls) (· < 0) (ditherSettings s.ctx dither engine)
          (s.contexts addr).options).1 with
      | none => rw [setOptions_of_none (by simp) hcode]
      | some code =>
        rw [hcode, Option.getD_some] at h
        have hneg := setOptions_stops hcode
        rw [h] at hneg
        exact absurd hneg (by decide)

theorem setupSwr_ok (h : (setupSwr swr s).1 = some 0) :
    ∃ addr, s.ctx.swrContext = some addr ∧
      let o := (conversion s.ctx).foldl SwrOptions.set (s.contexts addr).options
      (setupSwr swr s).2 = s.store addr ⟨o, some o⟩ := by
  cases hok : contextOk s.ctx with
  | false => simp [setupSwr, hok] at h
  | true =>
    cases hswr : s.ctx.swrContext with
    | none => simp [setupSwr, hok, hswr] at h
    | some addr =>
      simp only [setupSwr, hok, hswr, Bool.not_true, Bool.false_eq_true, if_false] at h ⊢
      refine ⟨addr, rfl, ?_⟩
      have hstops (code : Int32) (hneg : code < 0) : (code != 0) = true := by
        have hne : code ≠ 0 := by
          rintro rfl
          exact absurd hneg (by decide)
        simpa using hne
      cases hcode : (setOptions (swr.avOptSet s.calls) (· != 0) (conversion s.ctx)
          (s.contexts addr).options).1 with
      | none =>
        simp only [hcode, Option.isSome_none, Bool.false_eq_true, if_false] at h ⊢
        rw [setOptions_of_none hstops hcode]
        split_ifs at h ⊢
        · simp at h
        · rfl
      | some code =>
        simp [hcode] at h

/-! ### Every run -/

/-- The options name the conversion from the source of a context to its target. -/
structure Converts (ctx : DecoderContext Layout) (o : SwrOptions Layout) : Prop where
  inChannelLayout : o.inChannelLayout = some ctx.channelLayout
  outChannelLayout : o.outChannelLayout = some ctx.overrideChannelLayout
  inSampleRate : o.inSampleRate = some ctx.sampleRate
  outSampleRate : o.outSampleRate = some ctx.overrideSampleRate
  inSampleFmt : o.inSampleFmt = some ctx.sampleFmt
  outSampleFmt : o.outSampleFmt = some ctx.overrideSampleFmt

theorem converts_conversion (ctx : DecoderContext Layout) (o : SwrOptions Layout) :
    Converts ctx ((conversion ctx).foldl SwrOptions.set o) := ⟨rfl, rfl, rfl, rfl, rfl, rfl⟩

theorem start_owned {src : DecoderContext Layout} (hnone : src.swrContext = none) :
    Owned (Resampling.start src) :=
  ⟨by simp [Resampling.start, hnone], by simp [Resampling.start], rfl⟩

/-- A call of `setup_swr` that succeeds leaves a resampler that runs the conversion. -/
def Runs (t : Transition (Resampling Layout) Request (Option Int32)) : Prop :=
  t.input = .setupSwr → t.output = some 0 →
    ∃ addr o, t.after.ctx.swrContext = some addr ∧ (t.after.contexts addr).running = some o ∧
      Converts t.after.ctx o

theorem setupSwr_runs (howned : Owned s) (request : Request) :
    Runs (transition (step lib swr) s request) := by
  rintro rfl hzero
  obtain ⟨addr, hswr, hset⟩ := setupSwr_ok hzero
  dsimp only at hset
  rw [store_of_mem (howned.mem hswr)] at hset
  refine ⟨addr, (conversion s.ctx).foldl SwrOptions.set (s.contexts addr).options, ?_, ?_, ?_⟩
  · simp only [transition, step, serve, hset, hswr]
  · simp only [transition, step, serve, hset, Function.update_self]
  · simp only [transition, step, serve, hset]
    exact converts_conversion s.ctx _

/-- Whatever the calls and the answers of libswresample, a decoder context that began without a
resampler owns the only one alive at every point, no call uses one that is not alive, and each
successful `setup_swr` leaves it running from the source to the target of the context. -/
theorem resampler_runs (lib : LibavUtil Layout) (swr : Swresample Layout)
    {src : DecoderContext Layout} (hnone : src.swrContext = none) (requests : List Request) :
    ∀ t ∈ trace (step lib swr) (Resampling.start src) requests, Owned t.after ∧ Runs t :=
  trace_forall (A := fun _ => True) (P := Owned) (fun _ request _ h => step_owned lib swr h request)
    (fun _ request _ h => ⟨step_owned lib swr h request, setupSwr_runs h request⟩)
    (start_owned hnone) requests (fun _ _ => trivial)

def Swresample.willing : Swresample Layout :=
  ⟨fun _ => true, fun _ => 0, fun _ _ => 0, fun _ _ => 0, fun _ => 0⟩

def stereo16 : DecoderContext MaskLayout := sourceOf ⟨2, 3⟩ .s16p 16 44100

def stereo16Requests : List Request :=
  [.changeTargetFormat .none 24 0 false, .setupSwr, .getSupportedResampler (some soxrName)]

theorem stereo16_resampler_runs :
    let run := trace (step maskLibav Swresample.willing) (Resampling.start stereo16)
      stereo16Requests
    run.map Transition.output = [some 0, some 0, some 1] ∧ ∀ t ∈ run, Owned t.after ∧ Runs t :=
  ⟨by decide +kernel, resampler_runs maskLibav Swresample.willing rfl stereo16Requests⟩

/-! ### Configurations -/

/-- A resampling whose decoder context differs from the source by a target and a resampler. -/
structure Follows (lib : LibavUtil Layout) (src : DecoderContext Layout)
    (s : Resampling Layout) : Prop where
  ok : contextOk s.ctx = true
  target : ∀ k : Configuration,
    k.target lib s.ctx = { k.target lib src with swrContext := s.ctx.swrContext }

/-- The options of the resampler of the decoder context. -/
def Resampling.current (s : Resampling Layout) : SwrOptions Layout :=
  match s.ctx.swrContext with
  | none => .defaults
  | some addr => (s.contexts addr).options

structure Configured (lib : LibavUtil Layout) (src : DecoderContext Layout) (k : Configuration)
    (o : SwrOptions Layout) (s : Resampling Layout) : Prop where
  ctx : ∃ addr, s.ctx = { k.target lib src with swrContext := some addr } ∧
    s.contexts addr = ⟨o, some o⟩
  owned : Owned s

variable (swr) in
theorem retarget_ok {src : DecoderContext Layout} (hfollows : Follows lib src s)
    (k : Configuration) :
    let s' := (step lib swr s (.changeTargetFormat k.targetFmt k.targetDepth k.targetRate
      k.forceStereo)).2
    s'.ctx.swrContext = none ∨
      (∃ addr, s'.ctx = { k.target lib src with swrContext := some addr }) ∧
        s'.current = s.current := by
  obtain ⟨after, hafter, hctx⟩ := changeTargetFormat_ctx lib (if swr.swrAlloc s.calls then
    some s.calls else none) hfollows.ok k.targetFmt k.targetDepth k.targetRate k.forceStereo
  have htarget := hfollows.target k
  rw [Configuration.target] at htarget
  rw [htarget] at hctx
  simp only [step, serve, retarget, hctx]
  cases hswr : s.ctx.swrContext with
  | none =>
    rw [hswr, Option.none_or] at hafter
    cases after with
    | none => exact .inl rfl
    | some addr =>
      have haddr : addr = s.calls := by
        simp only [reduceCtorEq, false_or] at hafter
        split_ifs at hafter
        exact Option.some.inj hafter
      refine .inr ⟨⟨addr, rfl⟩, ?_⟩
      simp [Resampling.current, Resampling.alloc, hswr, haddr, SwrContext.fresh]
  | some old =>
    rw [hswr, Option.some_or] at hafter
    cases after with
    | none => exact .inl rfl
    | some addr =>
      have haddr : addr = old := by simpa using hafter
      refine .inr ⟨⟨addr, rfl⟩, ?_⟩
      simp [Resampling.current, hswr, haddr]

theorem configuration_run {src : DecoderContext Layout} (hfollows : Follows lib src s)
    (howned : Owned s) (k : Configuration)
    (hall : ∀ t ∈ trace (step lib swr) s k.requests, t.output = some 0) :
    Configured lib src k (k.options lib src s.current)
      (final (step lib swr) s k.requests) := by
  simp only [Configuration.requests, trace_cons, trace_nil, List.forall_mem_cons] at hall
  obtain ⟨-, hdither, hsetup, -⟩ := hall
  have howned₁ := step_owned lib swr howned (.changeTargetFormat k.targetFmt k.targetDepth
    k.targetRate k.forceStereo)
  have howned₂ := step_owned lib swr howned₁ (.setDitherSettings k.dither k.engine)
  have howned₃ := step_owned lib swr howned₂ .setupSwr
  have hretarget := retarget_ok swr hfollows k
  simp only [Configuration.requests, final_cons, final_nil]
  generalize (step lib swr s (.changeTargetFormat k.targetFmt k.targetDepth k.targetRate
    k.forceStereo)).2 = s₁ at *
  obtain ⟨addr, hswr₁, hset₁⟩ := setDitherSettings_ok hdither
  rw [store_of_mem (howned₁.mem hswr₁)] at hset₁
  obtain ⟨⟨addr', hctx₁⟩, hcurrent⟩ : (∃ addr, s₁.ctx =
      { k.target lib src with swrContext := some addr }) ∧ s₁.current = s.current := by
    simpa [hswr₁] using hretarget
  obtain rfl : addr' = addr := by simpa [hctx₁] using hswr₁
  have hs₂ : (step lib swr s₁ (.setDitherSettings k.dither k.engine)).2.ctx = s₁.ctx ∧
      (step lib swr s₁ (.setDitherSettings k.dither k.engine)).2.contexts addr' =
        { s₁.contexts addr' with
          options := (ditherSettings s₁.ctx k.dither k.engine).foldl SwrOptions.set
            (s₁.contexts addr').options } := by
    simp only [step, serve, hset₁, Function.update_self, and_self]
  generalize (step lib swr s₁ (.setDitherSettings k.dither k.engine)).2 = s₂ at *
  obtain ⟨hctx₂, hcontext₂⟩ := hs₂
  obtain ⟨addr, hswr₂, hset₂⟩ := setupSwr_ok hsetup
  obtain rfl : addr' = addr := by simpa [hctx₂, hswr₁] using hswr₂
  dsimp only at hset₂
  rw [store_of_mem (howned₂.mem hswr₂)] at hset₂
  refine ⟨⟨addr', ?_, ?_⟩, howned₃⟩
  · simp only [step, serve, hset₂]
    rw [hctx₂, hctx₁]
  · simp only [step, serve, hset₂, Function.update_self, hcontext₂, hctx₂]
    rw [Configuration.options, List.foldl_append, ← hcurrent, Resampling.current, hswr₁, hctx₁]
    rfl

theorem Configured.follows {src : DecoderContext Layout} {k : Configuration}
    {o : SwrOptions Layout} (h : Configured lib src k o s) (hok : contextOk src = true) :
    Follows lib src s ∧ s.current = o := by
  obtain ⟨addr, hctx, hcontext⟩ := h.ctx
  refine ⟨⟨?_, fun k' => ?_⟩, ?_⟩
  · rw [hctx]
    exact hok
  · rw [hctx]
    rfl
  · simp only [Resampling.current, hctx, hcontext]

/-- After a number of configurations in which everything succeeds, and one more. -/
theorem configurations_run {src : DecoderContext Layout} (hok : contextOk src = true)
    (ks : List Configuration) (k : Configuration) (hfollows : Follows lib src s)
    (howned : Owned s)
    (hall : ∀ t ∈ trace (step lib swr) s ((ks ++ [k]).flatMap Configuration.requests),
      t.output = some 0) :
    Configured lib src k ((ks ++ [k]).foldl (Configuration.options lib src) s.current)
      (final (step lib swr) s ((ks ++ [k]).flatMap Configuration.requests)) := by
  induction ks generalizing s with
  | nil =>
    simp only [List.nil_append, List.flatMap_cons, List.flatMap_nil, List.append_nil] at hall ⊢
    exact configuration_run hfollows howned k hall
  | cons first ks ih =>
    simp only [List.cons_append, List.flatMap_cons, trace_append, final_append,
      List.forall_mem_append] at hall ⊢
    have hfirst := configuration_run hfollows howned first hall.1
    obtain ⟨hnext, hcurrent⟩ := hfirst.follows hok
    have hrest := ih hnext hfirst.owned hall.2
    rw [hcurrent] at hrest
    exact hrest

end

/-! ### Options that are set by some configurations only -/

section
variable (lib : LibavUtil Layout) (src : DecoderContext Layout) (o : SwrOptions Layout)

/-- A configuration sets all options but two, which depend on the engine. -/
theorem options_eq (k : Configuration) :
    k.options lib src o =
      { resampler := some k.engine
        ditherMethod := some k.dither
        outputSampleBits :=
          if k.engine = .swr then some (k.target lib src).overrideDepth else o.outputSampleBits
        precision := if k.engine = .soxr then some 28 else o.precision
        inChannelLayout := some src.channelLayout
        outChannelLayout := some (k.target lib src).overrideChannelLayout
        inSampleRate := some src.sampleRate
        outSampleRate := some (k.target lib src).overrideSampleRate
        inSampleFmt := some src.sampleFmt
        outSampleFmt := some (k.target lib src).overrideSampleFmt } := by
  cases hengine : k.engine with
  | swr | soxr | other value =>
    simp only [Configuration.options, ditherSettings, conversion, hengine, reduceCtorEq, if_true,
      if_false, List.cons_append, List.nil_append, List.foldl_cons, List.foldl_nil,
      SwrOptions.set]
    rfl

theorem foldl_outputSampleBits (ks : List Configuration) :
    (ks.foldl (Configuration.options lib src) o).outputSampleBits =
      (((ks.filter (·.engine = .swr)).getLast?).map
        fun k => (k.target lib src).overrideDepth).or o.outputSampleBits := by
  induction ks using List.reverseRecOn with
  | nil => rfl
  | append_singleton ks k ih =>
    rw [List.foldl_append, List.foldl_cons, List.foldl_nil, options_eq, List.filter_append]
    by_cases hengine : k.engine = .swr
    · simp [hengine]
    · simp [hengine, ih]

theorem foldl_precision (ks : List Configuration) :
    (ks.foldl (Configuration.options lib src) o).precision =
      if ks.any (·.engine = .soxr) then some 28 else o.precision := by
  induction ks using List.reverseRecOn with
  | nil => rfl
  | append_singleton ks k ih =>
    rw [List.foldl_append, List.foldl_cons, List.foldl_nil, options_eq, List.any_append]
    by_cases hengine : k.engine = .soxr
    · simp [hengine]
    · simp [hengine, ih]

end

/-- A decoder context that was configured any number of times without a failure has the one
resampler that is alive. It was initialised for the last target, with the last dither and engine;
its sample bits are those of the last configuration for the engine of libswresample, and it has
the precision of SoX if any configuration was for SoX. -/
theorem configured_options {lib : LibavUtil Layout} {swr : Swresample Layout}
    {src : DecoderContext Layout} (hok : contextOk src = true) (hnone : src.swrContext = none)
    (ks : List Configuration) (k : Configuration)
    (hall : ∀ t ∈ trace (step lib swr) (Resampling.start src)
      ((ks ++ [k]).flatMap Configuration.requests), t.output = some 0) :
    let s := final (step lib swr) (Resampling.start src)
      ((ks ++ [k]).flatMap Configuration.requests)
    ∃ addr, s.live = [addr] ∧ s.ctx = { k.target lib src with swrContext := some addr } ∧
      (s.contexts addr).running = some
        { resampler := some k.engine
          ditherMethod := some k.dither
          outputSampleBits := ((ks ++ [k]).filter (·.engine = .swr)).getLast?.map
            fun k => (k.target lib src).overrideDepth
          precision := if (ks ++ [k]).any (·.engine = .soxr) then some 28 else none
          inChannelLayout := some src.channelLayout
          outChannelLayout := some (k.target lib src).overrideChannelLayout
          inSampleRate := some src.sampleRate
          outSampleRate := some (k.target lib src).overrideSampleRate
          inSampleFmt := some src.sampleFmt
          outSampleFmt := some (k.target lib src).overrideSampleFmt } := by
  have hfollows : Follows lib src (Resampling.start src) := ⟨hok, fun k => by
    obtain ⟨_, _, _, swrContext, _, _, _, _, _, _, _, _, _, _, _⟩ := src
    obtain rfl : swrContext = none := hnone
    rfl⟩
  have howned := start_owned hnone
  obtain ⟨⟨addr, hctx, hcontext⟩, hfinal⟩ := configurations_run hok ks k hfollows howned hall
  have hcurrent : (Resampling.start src).current = .defaults := by
    simp [Resampling.current, Resampling.start, hnone]
  have hbits := foldl_outputSampleBits lib src .defaults (ks ++ [k])
  have hprecision := foldl_precision lib src .defaults (ks ++ [k])
  refine ⟨addr, ?_, hctx, ?_⟩
  · rw [hfinal.live, hctx]
    rfl
  · rw [List.foldl_append, List.foldl_cons, List.foldl_nil, options_eq] at hbits hprecision
    dsimp only at hbits hprecision
    rw [hcontext, hcurrent, List.foldl_append, List.foldl_cons, List.foldl_nil, options_eq, hbits,
      hprecision]
    simp only [SwrOptions.defaults, Option.or_none]

def deepFirst : Configuration := ⟨.none, 24, 0, false, 3, .swr⟩

def thenSox : Configuration := ⟨.none, 16, 48000, false, 3, .soxr⟩

/-- The resampler of libswresample was given 24 bits, and SoX is left with them. -/
theorem deepFirst_thenSox_options :
    let s := final (step maskLibav Swresample.willing) (Resampling.start stereo16)
      ([deepFirst, thenSox].flatMap Configuration.requests)
    ∃ addr, s.live = [addr] ∧
      s.ctx = { thenSox.target maskLibav stereo16 with swrContext := some addr } ∧
      (s.contexts addr).running = some
        { resampler := some .soxr
          ditherMethod := some 3
          outputSampleBits := some 24
          precision := some 28
          inChannelLayout := some ⟨2, 3⟩
          outChannelLayout := some ⟨2, 3⟩
          inSampleRate := some 44100
          outSampleRate := some 48000
          inSampleFmt := some .s16p
          outSampleFmt := some .s16 } :=
  configured_options rfl rfl [deepFirst] thenSox (by decide +kernel)

end AudioFS.Decoder
