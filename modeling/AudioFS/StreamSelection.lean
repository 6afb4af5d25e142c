import AudioFS.Transcode
import AudioFS.TranscodeLog

/-!
# Which stream the pipeline is made for

Three loops over the input streams choose on their own: the decoder is the last
audio stream's, the encoder and the filter graph are configured from it, every
audio stream gets an output stream, and the packets are those of the first audio
stream. What a call has at hand when it enters the packet loop is derived from
one specification of each loop.
-/

namespace AudioFS.Transcode
open AudioFS.CustomAvio

def audioStreams : ℕ → List AVStream → List (ℕ × AVStream)
  | _, [] => []
  | i, stream :: streams =>
    if stream.isAudio then (i, stream) :: audioStreams (i + 1) streams
    else audioStreams (i + 1) streams

theorem audioStreams_of_audio {stream : AVStream} (h : stream.isAudio = true) (i : ℕ)
    (streams : List AVStream) :
    audioStreams i (stream :: streams) = (i, stream) :: audioStreams (i + 1) streams := by
  simp [audioStreams, h]

theorem audioStreams_of_other {stream : AVStream} (h : stream.isAudio = false) (i : ℕ)
    (streams : List AVStream) :
    audioStreams i (stream :: streams) = audioStreams (i + 1) streams := by
  simp [audioStreams, h]

theorem length_audioStreams (i : ℕ) (streams : List AVStream) :
    (audioStreams i streams).length = streams.countP AVStream.isAudio := by
  induction streams generalizing i with
  | nil => rfl
  | cons stream streams ih =>
    cases h : stream.isAudio with
    | true => rw [audioStreams_of_audio h, List.length_cons, ih, List.countP_cons_of_pos h]
    | false => rw [audioStreams_of_other h, ih, List.countP_cons_of_neg (by simp [h])]

theorem audioStreams_ge {i : ℕ} {streams : List AVStream} :
    ∀ s ∈ audioStreams i streams, i ≤ s.1 ∧ s.2.isAudio = true := by
  induction streams generalizing i with
  | nil => simp [audioStreams]
  | cons stream streams ih =>
    intro s hs
    cases h : stream.isAudio with
    | true =>
      rw [audioStreams_of_audio h, List.mem_cons] at hs
      rcases hs with rfl | hs
      · exact ⟨Nat.le_refl i, h⟩
      · obtain ⟨hle, haudio⟩ := ih s hs
        exact ⟨by omega, haudio⟩
    | false =>
      rw [audioStreams_of_other h] at hs
      obtain ⟨hle, haudio⟩ := ih s hs
      exact ⟨by omega, haudio⟩

theorem audioStreams_sorted (i : ℕ) (streams : List AVStream) :
    (audioStreams i streams).Pairwise fun a b => a.1 < b.1 := by
  induction streams generalizing i with
  | nil => exact .nil
  | cons stream streams ih =>
    cases h : stream.isAudio with
    | true =>
      rw [audioStreams_of_audio h]
      exact .cons (fun s hs => (audioStreams_ge s hs).1) (ih (i + 1))
    | false =>
      rw [audioStreams_of_other h]
      exact ih (i + 1)

section
variable {β : Type*} {test : Prop} [Decidable test] {x code : ℤ} {rest : ℤ ⊕ β}

/-- One test of a setup function, with the code it fails with. -/
theorem neg_of_guard (hx : test → x < 0) (hrest : rest = .inl code → code < 0) :
    (if test then .inl x else rest) = .inl code → code < 0 := by
  split_ifs with htest
  · intro h
    rw [← Sum.inl.inj h]
    exact hx htest
  · exact hrest

theorem inr_of_guard {b : β} (h : (if test then .inl x else rest) = .inr b) : rest = .inr b := by
  split_ifs at h
  exact h

end

theorem openDecoder_inl {lib : Libav} {i : ℕ} {stream : AVStream} {code : ℤ} :
    openDecoder lib i stream = .inl code → code < 0 := by
  apply neg_of_guard (fun _ => by decide)
  apply neg_of_guard (fun _ => by decide)
  apply neg_of_guard id
  apply neg_of_guard id
  simp

theorem openDecoder_inr {lib : Libav} {i : ℕ} {stream : AVStream} {d : AVCodecContext}
    (h : openDecoder lib i stream = .inr d) : d = decoderContext lib i stream := by
  have hopened := inr_of_guard (inr_of_guard (inr_of_guard (inr_of_guard h)))
  exact (Sum.inr.inj hopened).symm

theorem openEncoder_inl {lib : Libav} {i : ℕ} {d : AVCodecContext} {code : ℤ} :
    openEncoder lib i d = .inl code → code < 0 := by
  apply neg_of_guard (fun _ => by decide)
  apply neg_of_guard (fun _ => by decide)
  apply neg_of_guard id
  apply neg_of_guard id
  apply neg_of_guard id
  simp

theorem openEncoder_inr {lib : Libav} {i : ℕ} {d e : AVCodecContext}
    (h : openEncoder lib i d = .inr e) : e = encoderContext lib d := by
  have hopened := inr_of_guard (inr_of_guard (inr_of_guard (inr_of_guard (inr_of_guard h))))
  exact (Sum.inr.inj hopened).symm

theorem initFilter_inl {lib : Libav} {d e : AVCodecContext} {code : ℤ} :
    initFilter lib d e = .inl code → code < 0 := by
  apply neg_of_guard (fun _ => by decide)
  apply neg_of_guard (fun _ => by decide)
  apply neg_of_guard (fun _ => by decide)
  apply neg_of_guard id
  apply neg_of_guard id
  apply neg_of_guard id
  apply neg_of_guard id
  apply neg_of_guard id
  apply neg_of_guard (fun _ => by decide)
  apply neg_of_guard id
  cases lib.configGraph with
  | none => simp
  | some error =>
    intro h
    rw [← Sum.inl.inj h]
    exact error.negative

theorem initFilter_inr {lib : Libav} {d e : AVCodecContext} {graph : AVFilterGraph}
    (h : initFilter lib d e = .inr graph) : graph = filterGraphOf d e := by
  have hallocated := inr_of_guard (inr_of_guard (inr_of_guard h))
  have hbuffers := inr_of_guard (inr_of_guard hallocated)
  have hformats := inr_of_guard (inr_of_guard (inr_of_guard hbuffers))
  have hparsed := inr_of_guard (inr_of_guard hformats)
  cases hconfig : lib.configGraph with
  | none =>
    simp only [hconfig] at hparsed
    exact (Sum.inr.inj hparsed).symm
  | some error => simp [hconfig] at hparsed

/-- After the decoder loop went through: nothing happened without an audio stream, and else the
last one's decoder is in place. -/
theorem openDecoders_ok {lib : Libav} {call i : ℕ} {streams : List AVStream} {sc : StreamContext}
    (h : 0 ≤ (openDecoders lib call i streams sc).1) :
    (openDecoders lib call i streams sc).2 =
      match (audioStreams i streams).getLast? with
      | none => sc
      | some (j, stream) => ⟨.live call (decoderContext lib j stream), sc.encCtx, .live call ()⟩ := by
  induction streams generalizing i sc with
  | nil => rfl
  | cons stream streams ih =>
    cases haudio : stream.isAudio with
    | false =>
      simp only [openDecoders, haudio, Bool.not_false, if_true, audioStreams_of_other haudio] at h ⊢
      exact ih h
    | true =>
      simp only [openDecoders, haudio, Bool.not_true, Bool.false_eq_true, if_false,
        audioStreams_of_audio haudio] at h ⊢
      cases hopen : openDecoder lib i stream with
      | inl code =>
        simp only [hopen] at h
        exact absurd h (by have := openDecoder_inl hopen; omega)
      | inr d =>
        simp only [hopen] at h ⊢
        cases hframe : lib.allocDecFrame i with
        | false =>
          simp only [hframe, Bool.false_eq_true, if_false] at h
          exact absurd h (by decide)
        | true =>
          simp only [hframe, if_true] at h ⊢
          rw [ih h, List.getLast?_cons]
          cases hlast : (audioStreams (i + 1) streams).getLast? with
          | none => simp [Ptr.ofAlloc, openDecoder_inr hopen]
          | some last => simp

/-- Everything the encoder loop asks for stream `i`. -/
def Libav.opensEncoder (lib : Libav) (i : ℕ) : Bool :=
  lib.newStream i && lib.findEncoder i && lib.allocEncoder i && 0 ≤ lib.copyChannelLayout i &&
    0 ≤ lib.openEncoder i && 0 ≤ lib.parametersFromContext i

theorem openEncoder_isRight (lib : Libav) (i : ℕ) (d : AVCodecContext) :
    (lib.newStream i && (openEncoder lib i d).isRight) = lib.opensEncoder i := by
  simp only [openEncoder, Libav.opensEncoder]
  grind

/-- What the encoder loop leaves behind over streams with an audio decoder in place. The encoder is
there once the first one opened, and a loop that went through made one output stream for each
audio stream, in order. -/
theorem addStreams_spec (lib : Libav) (call i : ℕ) (streams : List AVStream) (out : OutputContext)
    {n : ℕ} {sc : StreamContext} {d : AVCodecContext} (hdec : sc.decCtx = .live n d)
    (haudio : d.codecType = .audio) :
    let r := addStreams lib call i streams out sc
    (0 ≤ r.1 ↔ ∀ s ∈ audioStreams i streams, lib.opensEncoder s.1 = true) ∧
      (0 ≤ r.1 → r.2.1.streams.map OutputStream.source =
        out.streams.map OutputStream.source ++ (audioStreams i streams).map Prod.fst) ∧
      r.2.1.noFile = out.noFile ∧ r.2.1.pb = out.pb ∧
      r.2.2 = if ((audioStreams i streams).head?).any fun s => lib.opensEncoder s.1 then
        { sc with encCtx := .live call (encoderContext lib d) } else sc := by
  induction streams generalizing i out sc with
  | nil => simp [addStreams, audioStreams]
  | cons stream streams ih =>
    cases hstream : stream.isAudio with
    | false =>
      simp only [addStreams, hstream, Bool.not_false, if_true, audioStreams_of_other hstream]
      exact ih _ _ hdec
    | true =>
      have hright := openEncoder_isRight lib i d
      simp only [addStreams, hstream, Bool.not_true, Bool.false_eq_true, if_false, hdec, haudio,
        if_true, audioStreams_of_audio hstream, List.forall_mem_cons, List.head?_cons,
        Option.any_some, ← hright]
      cases hnew : lib.newStream i with
      | false => simp [AVERROR_UNKNOWN]
      | true =>
        cases hopen : openEncoder lib i d with
        | inl code =>
          have hneg := openEncoder_inl hopen
          simp [hneg]
        | inr e =>
          obtain ⟨hret, hsources, hfile, hpb, hsc⟩ := @ih (i + 1)
            { out with streams := out.streams ++ [encodedStream i e] }
            { sc with decCtx := .live n d, encCtx := .live call e } rfl
          simp only [Bool.not_true, Bool.false_eq_true, if_false, Sum.isRight_inr, Bool.and_self,
            true_and, if_true]
          refine ⟨hret, ?_, hfile, hpb, ?_⟩
          · intro h
            rw [hsources h]
            simp [encodedStream]
          · rw [hsc, openEncoder_inr hopen, ← hdec]
            simp

theorem any_head?_of_forall {α : Type*} {l : List α} {f : α → Bool} (hne : l ≠ [])
    (h : ∀ x ∈ l, f x = true) : l.head?.any f = true := by
  cases l with
  | nil => exact absurd rfl hne
  | cons x xs => exact h x (by simp)

/-- After `init_filters` chose a stream: it is the first audio stream, and the graph is
configured from the two contexts. -/
theorem selectStream_ok {lib : Libav} {call i : ℕ} {streams : List AVStream} {sc : StreamContext}
    {fc : FilteringContext} (h : 0 ≤ (selectStream lib call i streams sc fc).1) :
    ∃ n d m e selected, sc.decCtx = .live n d ∧ sc.encCtx = .live m e ∧
      ((audioStreams i streams).map Prod.fst).head? = some selected ∧
      selectStream lib call i streams sc fc =
        ((selected : ℤ), ⟨.live call (filterGraphOf d e), .live call (), .live call ()⟩) := by
  induction streams generalizing i fc with
  | nil => exact absurd h (by simp [selectStream])
  | cons stream streams ih =>
    cases hstream : stream.isAudio with
    | false =>
      simp only [selectStream, hstream, Bool.not_false, if_true, audioStreams_of_other hstream] at h ⊢
      exact ih h
    | true =>
      simp only [selectStream, hstream, Bool.not_true, Bool.false_eq_true, if_false,
        audioStreams_of_audio hstream] at h ⊢
      cases hdec : sc.decCtx with
      | live n d =>
        cases henc : sc.encCtx with
        | live m e =>
          simp only [hdec, henc] at h ⊢
          cases hinit : initFilter lib d e with
          | inl code =>
            simp only [hinit] at h
            exact absurd h (by have := initFilter_inl hinit; omega)
          | inr graph =>
            simp only [hinit] at h ⊢
            cases hpkt : lib.allocEncPacket with
            | false =>
              simp only [hpkt, Bool.not_false, if_true] at h
              exact absurd h (by decide)
            | true =>
              cases hframe : lib.allocFilteredFrame with
              | false =>
                simp only [hpkt, hframe, Bool.not_true, Bool.false_eq_true, if_false] at h
                exact absurd h (by decide)
              | true =>
                refine ⟨n, d, m, e, i, rfl, rfl, rfl, ?_⟩
                simp [Ptr.ofAlloc, initFilter_inr hinit]
        | unset => exact absurd h (by simp [hdec, henc, AVERROR_UNKNOWN])
        | null => exact absurd h (by simp [hdec, henc, AVERROR_UNKNOWN])
        | released => exact absurd h (by simp [hdec, henc, AVERROR_UNKNOWN])
      | unset => exact absurd h (by simp [hdec, AVERROR_UNKNOWN])
      | null => exact absurd h (by simp [hdec, AVERROR_UNKNOWN])
      | released => exact absurd h (by simp [hdec, AVERROR_UNKNOWN])

theorem openRequested_ok {lib : Libav} {w : World} {request : Request}
    (h : 0 ≤ (openRequested lib w request).1) :
    0 ≤ (openDecoders lib w.calls 0 (request.input lib).streams StreamContext.fresh).1 ∧
      (openRequested lib w request).2.streamCtx = .live w.calls
        (openDecoders lib w.calls 0 (request.input lib).streams StreamContext.fresh).2 := by
  have hctx (ctx : InputContext) (s : Statics)
      (h : 0 ≤ (openInputFileWithFormatContext lib w.calls (some ctx) s).1) :
      0 ≤ (openDecoders lib w.calls 0 ctx.streams StreamContext.fresh).1 ∧
        (openInputFileWithFormatContext lib w.calls (some ctx) s).2.streamCtx = .live w.calls
          (openDecoders lib w.calls 0 ctx.streams StreamContext.fresh).2 := by
    simp only [openInputFileWithFormatContext] at h ⊢
    split_ifs at h ⊢ with hmalloc
    · exact ⟨h, rfl⟩
    · exact absurd h (show ¬ 0 ≤ AVERROR_ENOMEM by decide)
  cases hpath : request.fromPath with
  | true =>
    simp only [openRequested, Request.input, hpath, if_true, openInputFile] at h ⊢
    split_ifs at h ⊢
    · omega
    · omega
    · exact hctx _ _ h
  | false =>
    simp only [openRequested, Request.input, hpath, Bool.false_eq_true, if_false] at h ⊢
    cases hfrom : request.fromContext with
    | none =>
      rw [hfrom] at h
      exact absurd h (by simp [openInputFileWithFormatContext])
    | some ctx =>
      rw [hfrom] at h
      exact hctx ctx _ h

theorem openOutput_ok {c : Platform} {lib : Libav} {call : ℕ} {filename : List UInt8}
    {out : OutputContext} {process : Process}
    (h : 0 ≤ (openOutput c lib call filename out process).1) :
    let r := openOutput c lib call filename out process
    r.2.1.streams.map OutputStream.source = out.streams.map OutputStream.source ∧
      r.2.1.noFile = out.noFile ∧
      (out.noFile = false → r.2.1.pb = .ofAlloc lib.allocAvioContext call ()) ∧
      r.2.2.handle.isSome = (!out.noFile && lib.allocAvioContext) := by
  have hsource (streams : List OutputStream) :
      (streams.map fun s => { s with timeBase := lib.headerTimeBase s }).map
        OutputStream.source = streams.map OutputStream.source := by
    simp [List.map_map, Function.comp_def]
  cases hfile : out.noFile with
  | true => simp [openOutput, writeHeader, hfile, hsource, Io.run]
  | false =>
    cases hopen : audiofsAvioOpen c process filename with
    | mk handle process' =>
      cases handle with
      | none => exact absurd h (by simp [openOutput, hfile, hopen])
      | some handle =>
        have hheader : openOutput c lib call filename out process =
            writeHeader c lib { out with pb := .ofAlloc lib.allocAvioContext call () }
              ⟨process', if lib.allocAvioContext then some handle else none⟩ := by
          simp [openOutput, hfile, hopen]
        rw [hheader]
        refine ⟨hsource _, hfile, fun _ => rfl, ?_⟩
        cases halloc : lib.allocAvioContext <;> simp [writeHeader, Io.run_isSome]

structure Prepared (lib : Libav) (call : ℕ) (streams : List AVStream) (r : ℤ × Statics × Io)
    (selected : ℕ) (d : AVCodecContext) (out : OutputContext) : Prop where
  first : ((audioStreams 0 streams).map Prod.fst).head? = some selected
  last : ∃ j stream, (audioStreams 0 streams).getLast? = some (j, stream) ∧
    d = decoderContext lib j stream
  ret : r.1 = selected
  streamCtx : r.2.1.streamCtx =
    .live call ⟨.live call d, .live call (encoderContext lib d), .live call ()⟩
  filterCtx : r.2.1.filterCtx =
    .live call ⟨.live call (filterGraphOf d (encoderContext lib d)), .live call (), .live call ()⟩
  ofmtCtx : r.2.1.ofmtCtx = .live call out
  sources : out.streams.map OutputStream.source = (audioStreams 0 streams).map Prod.fst
  noFile : out.noFile = lib.noFile
  pb : lib.noFile = false → out.pb = .ofAlloc lib.allocAvioContext call ()
  handle : r.2.2.handle.isSome = (!lib.noFile && lib.allocAvioContext)

theorem openOutputFile_ok {c : Platform} {lib : Libav} {call : ℕ} {filename : List UInt8}
    {streams : List AVStream} {sc : StreamContext} {s : Statics} {process : Process}
    (h : 0 ≤ (openOutputFile c lib call filename streams sc s process).1) :
    let a := addStreams lib call 0 streams ⟨[], lib.noFile, .null⟩ sc
    let o := openOutput c lib call filename a.2.1 process
    0 ≤ a.1 ∧ 0 ≤ o.1 ∧ openOutputFile c lib call filename streams sc s process =
      (0, { s with streamCtx := .live call a.2.2, ofmtCtx := .live call o.2.1 }, o.2.2) := by
  simp only [openOutputFile] at h ⊢
  split_ifs at h ⊢ with halloc hadd hopen
  · exact absurd h (show ¬ 0 ≤ AVERROR_UNKNOWN by decide)
  · omega
  · omega
  · exact ⟨by omega, by omega, rfl⟩

theorem initFilters_ok {lib : Libav} {call : ℕ} {streams : List AVStream} {sc : StreamContext}
    {s : Statics} (h : 0 ≤ (initFilters lib call streams sc s).1) :
    let f := selectStream lib call 0 streams sc FilteringContext.fresh
    0 ≤ f.1 ∧ initFilters lib call streams sc s = (f.1, { s with filterCtx := .live call f.2 }) := by
  simp only [initFilters] at h ⊢
  split_ifs at h ⊢ with hmalloc
  · exact ⟨h, rfl⟩
  · exact absurd h (show ¬ 0 ≤ AVERROR_ENOMEM by decide)

theorem prepare_ok {c : Platform} {lib : Libav} {w : World} {request : Request}
    (h : 0 ≤ (prepare c lib w request).1) :
    ∃ selected d out, Prepared lib w.calls (request.input lib).streams
      (prepare c lib w request) selected d out := by
  simp only [prepare] at h ⊢
  split_ifs at h ⊢ with hinput houtput
  · omega
  · omega
  · obtain ⟨hdecoders, hstream⟩ := openRequested_ok (not_lt.mp hinput)
    have hsc := openDecoders_ok hdecoders
    obtain ⟨hadd, hopen, hofile⟩ := openOutputFile_ok (not_lt.mp houtput)
    obtain ⟨hselect, hfilters⟩ := initFilters_ok h
    obtain ⟨n, d, m, e, selected, hd, he, hfirst, hchosen⟩ := selectStream_ok hselect
    rw [hfilters, hchosen]
    rw [hofile] at hd he ⊢
    simp only [Statics.streamContext, hstream] at hd he hadd hopen ⊢
    have hne : audioStreams 0 (request.input lib).streams ≠ [] := by
      intro hnil
      simp [hnil] at hfirst
    obtain ⟨⟨j, stream⟩, hlast⟩ := Option.isSome_iff_exists.mp
      (List.getLast?_isSome.mpr hne)
    have haudio : stream.codecpar.codecType = .audio := by
      have hmem := (audioStreams_ge _ (List.mem_of_getLast? hlast)).2
      simpa [AVStream.isAudio] using hmem
    simp only [hlast] at hsc
    rw [hsc] at hd he hadd hopen ⊢
    have hdec : (⟨.live w.calls (decoderContext lib j stream), StreamContext.fresh.encCtx,
        .live w.calls ()⟩ : StreamContext).decCtx = .live w.calls (decoderContext lib j stream) :=
      rfl
    obtain ⟨hall, hsources, hfile, -, hcontexts⟩ := addStreams_spec lib w.calls 0
      (request.input lib).streams ⟨[], lib.noFile, .null⟩ hdec haudio
    rw [if_pos (any_head?_of_forall hne (hall.mp hadd))] at hcontexts
    generalize addStreams lib w.calls 0 (request.input lib).streams _ _ = a at *
    obtain ⟨hosources, hofile, hpb, hhandle⟩ := openOutput_ok hopen
    rw [hcontexts] at hd he ⊢
    simp only [Ptr.live.injEq] at hd he
    obtain ⟨-, rfl⟩ := hd
    obtain ⟨-, rfl⟩ := he
    refine ⟨selected, _, _, hfirst, ⟨j, stream, hlast, rfl⟩, rfl, rfl, rfl, rfl, ?_, ?_, ?_, ?_⟩
    · rw [hosources, hsources hadd, List.map_nil, List.nil_append]
    · rw [hofile, hfile]
    · rw [hfile] at hpb
      exact hpb
    · rw [hhandle, hfile]

def pipelineOf (lib : Libav) (streams : List AVStream) (selected : ℕ) (d : AVCodecContext)
    (out : OutputContext) : Pipeline :=
  ⟨streams, out.streams, d, encoderContext lib d, some (filterGraphOf d (encoderContext lib d)),
    selected⟩

/-- Either the setup fails and the call leaves at once, or it runs the packet loop. -/
theorem doTranscode_cases (c : Platform) (lib : Libav) (w : World) (request : Request) :
    ((prepare c lib w request).1 < 0 ∧ doTranscode c lib w request =
      leave c lib w request (prepare c lib w request).1 (prepare c lib w request).2.1 none
        (request.input lib).packets (Progress.start (prepare c lib w request).2.2)) ∨
    ∃ selected d out, Prepared lib w.calls (request.input lib).streams
        (prepare c lib w request) selected d out ∧
      let p := pipelineOf lib (request.input lib).streams selected d out
      let t := transcodePackets c lib p (request.input lib).packets (prepare c lib w request).2.2
      doTranscode c lib w request =
        leave c lib w request t.1 (prepare c lib w request).2.1 (some p) t.2.1 t.2.2 := by
  by_cases hneg : (prepare c lib w request).1 < 0
  · left
    exact ⟨hneg, by simp only [doTranscode, if_pos hneg]⟩
  · right
    obtain ⟨selected, d, out, hprep⟩ := prepare_ok (not_lt.mp hneg)
    refine ⟨selected, d, out, hprep, ?_⟩
    have hpipeline : (prepare c lib w request).2.1.pipeline (request.input lib).streams
        (prepare c lib w request).1.toNat =
        some (pipelineOf lib (request.input lib).streams selected d out) := by
      simp only [Statics.pipeline, hprep.streamCtx, hprep.filterCtx, hprep.ofmtCtx, hprep.ret]
      rfl
    simp only [doTranscode, if_neg hneg, hpipeline]

theorem doTranscode_entered {c : Platform} {lib : Libav} {w : World} {request : Request}
    {p : Pipeline} (h : (doTranscode c lib w request).1.entered = some p) :
    ∃ selected d out, Prepared lib w.calls (request.input lib).streams
        (prepare c lib w request) selected d out ∧
      p = pipelineOf lib (request.input lib).streams selected d out ∧
      let t := transcodePackets c lib p (request.input lib).packets (prepare c lib w request).2.2
      doTranscode c lib w request =
        leave c lib w request t.1 (prepare c lib w request).2.1 (some p) t.2.1 t.2.2 := by
  rcases doTranscode_cases c lib w request with ⟨-, hleave⟩ | ⟨selected, d, out, hprep, hrun⟩
  · rw [hleave] at h
    exact absurd h (by simp [leave])
  · have hp : pipelineOf lib (request.input lib).streams selected d out = p := by
      rw [hrun] at h
      exact Option.some.inj h
    subst hp
    exact ⟨selected, d, out, hprep, rfl, hrun⟩

/-- The log of a call that entered the packet loop is one segment about the selected stream,
whose packets were all fed to the decoder or left unread. -/
theorem entered_segment {c : Platform} {lib : Libav} {w : World} {request : Request}
    {p : Pipeline} (h : (doTranscode c lib w request).1.entered = some p) :
    let r := (doTranscode c lib w request).1
    Segment p.selected (fed r.log) r.ret r.log ∧
      fed r.log ++ ofStream p.selected r.rest = ofStream p.selected (request.input lib).packets := by
  obtain ⟨selected, d, out, -, hp, hrun⟩ := doTranscode_entered h
  have hgraph : p.filterGraph = some (filterGraphOf d (encoderContext lib d)) := by
    rw [hp]
    rfl
  obtain ⟨feeds, ⟨⟨new, hlog, -, hseg⟩, -, -⟩, hcons⟩ := transcodePackets_run c lib p hgraph
    (request.input lib).packets (prepare c lib w request).2.2
  rw [hrun]
  intro r
  have hnew : r.log = new := hlog
  rw [hnew, hseg.feeds]
  exact ⟨hseg, hcons⟩

/-- A muxed packet has an index below the number of output streams, and the stream there was
created for the selected input stream. -/
structure Addressed (p : Pipeline) (packet : AVPacket) : Prop where
  inRange : packet.streamIndex < p.outStreams.length
  ofSelected : (p.outStreams[packet.streamIndex]?).map OutputStream.source = some p.selected

theorem mem_muxed {log : List Event} {packet : AVPacket} :
    packet ∈ muxed log ↔ ∃ code, Event.writeFrame packet code ∈ log := by
  simp only [muxed, List.mem_filterMap]
  constructor
  · intro hex
    obtain ⟨e, he, hpacket⟩ := hex
    cases e with
    | writeFrame other code =>
      obtain rfl : other = packet := Option.some.inj hpacket
      exact ⟨code, he⟩
    | _ => simp [Event.muxedPacket] at hpacket
  · intro hex
    obtain ⟨code, he⟩ := hex
    exact ⟨_, he, rfl⟩

theorem first_eq_zero_iff {streams : List AVStream} {selected : ℕ}
    (h : ((audioStreams 0 streams).map Prod.fst).head? = some selected) :
    selected = 0 ↔ streams.head?.any AVStream.isAudio = true := by
  cases streams with
  | nil => simp [audioStreams] at h
  | cons stream streams =>
    cases haudio : stream.isAudio with
    | true =>
      rw [audioStreams_of_audio haudio] at h
      obtain rfl : 0 = selected := by simpa using h
      simp [haudio]
    | false =>
      rw [audioStreams_of_other haudio, List.head?_map, Option.map_eq_some_iff] at h
      obtain ⟨s, hs, rfl⟩ := h
      have hge := (audioStreams_ge s (List.mem_of_mem_head? hs)).1
      simp only [List.head?_cons, Option.any_some, haudio, Bool.false_eq_true, iff_false]
      omega

theorem getElem?_head_eq_iff {l : List ℕ} (hsorted : l.Pairwise (· < ·)) {n : ℕ}
    (h : l.head? = some n) : l[n]? = some n ↔ n = 0 := by
  constructor
  · intro hn
    obtain ⟨hlt, hval⟩ := List.getElem?_eq_some_iff.mp hn
    rw [List.head?_eq_getElem?] at h
    obtain ⟨hlt₀, hval₀⟩ := List.getElem?_eq_some_iff.mp h
    by_contra hne
    have hless := List.pairwise_iff_getElem.mp hsorted 0 n hlt₀ hlt (by omega)
    omega
  · rintro rfl
    rwa [List.head?_eq_getElem?] at h

/-- A muxed packet goes to the output stream made for the selected input stream exactly when
the very first stream of the input is an audio stream. -/
theorem muxed_addressed_iff (c : Platform) (lib : Libav) (w : World) (request : Request)
    {p : Pipeline} (h : (doTranscode c lib w request).1.entered = some p) {packet : AVPacket}
    (hmux : packet ∈ muxed (doTranscode c lib w request).1.log) :
    Addressed p packet ↔ (request.input lib).streams.head?.any AVStream.isAudio = true := by
  obtain ⟨selected, d, out, hprep, hp, -⟩ := doTranscode_entered h
  obtain ⟨code, he⟩ := mem_muxed.mp hmux
  have hindex : packet.streamIndex = selected := by
    have hon := (entered_segment h).1.onStream _ he
    rwa [hp] at hon
  have hsorted : ((audioStreams 0 (request.input lib).streams).map Prod.fst).Pairwise (· < ·) :=
    List.pairwise_map.mpr (audioStreams_sorted 0 _)
  have hsource : (out.streams[selected]?).map OutputStream.source =
      ((audioStreams 0 (request.input lib).streams).map Prod.fst)[selected]? := by
    rw [← hprep.sources, List.getElem?_map]
  rw [← first_eq_zero_iff hprep.first, ← getElem?_head_eq_iff hsorted hprep.first, ← hsource]
  subst hp
  constructor
  · intro haddr
    rw [← hindex]
    exact haddr.ofSelected.trans (by rw [hindex]; rfl)
  · intro hsel
    have hlt : selected < out.streams.length := by
      by_contra hge
      rw [List.getElem?_eq_none (by omega)] at hsel
      exact absurd hsel (by simp)
    refine ⟨by rw [hindex]; exact hlt, ?_⟩
    rw [hindex]
    exact hsel

def audioFirst : Request := .of [.plain .audio, .plain .video] [.plain 1 7, .plain 0 8]

def videoFirst : Request := .of [.plain .video, .plain .audio] [.plain 0 7, .plain 1 8]

def twoAudio : Request := .of [.plain .audio, .plain .audio] [.plain 0 7, .plain 1 8]

theorem audio_first_addressed :
    ∃ p, (doTranscode Platform.generous Libav.smooth World.start audioFirst).1.entered = some p ∧
      Addressed p (.plain 0 8) :=
  ⟨_, rfl, (muxed_addressed_iff Platform.generous Libav.smooth World.start audioFirst rfl
    (by decide +kernel)).mpr (by decide)⟩

/-- Behind a video stream the only audio stream's packets are muxed past the output streams. -/
theorem video_first_misaddressed :
    ¬ ∀ (c : Platform) (lib : Libav) (w : World) (request : Request) (p : Pipeline),
      0 < (request.input lib).streams.countP AVStream.isAudio →
      (doTranscode c lib w request).1.entered = some p →
      ∀ packet ∈ muxed (doTranscode c lib w request).1.log, Addressed p packet := by
  intro h
  have haddr := h Platform.generous Libav.smooth World.start videoFirst _ (by decide) rfl
    (.plain 1 8) (by decide +kernel)
  exact absurd haddr.inRange (by decide +kernel)

/-- The decoder, the encoder and both ends of the filter graph belong to the selected stream,
and so does every packet given to the decoder. -/
structure DecoderAgrees (p : Pipeline) (log : List Event) : Prop where
  decoder : p.decCtx.source = p.selected
  encoder : p.encCtx.source = p.selected
  filter : p.filterGraph.map AVFilterGraph.source = some p.selected
  filterSink : p.filterGraph.map AVFilterGraph.sinkSource = some p.selected
  packets : ∀ packet ∈ fed log, packet.streamIndex = p.decCtx.source

theorem mem_fed {log : List Event} {packet : AVPacket} :
    packet ∈ fed log ↔ ∃ sent code, Event.sendPacket packet sent code ∈ log := by
  simp only [fed, List.mem_filterMap]
  constructor
  · intro hex
    obtain ⟨e, he, hpacket⟩ := hex
    cases e with
    | sendPacket demuxed sent code =>
      obtain rfl : demuxed = packet := Option.some.inj hpacket
      exact ⟨sent, code, he⟩
    | _ => simp [Event.fed] at hpacket
  · intro hex
    obtain ⟨sent, code, he⟩ := hex
    exact ⟨_, he, rfl⟩

theorem head_eq_getLast_iff {l : List ℕ} (hsorted : l.Pairwise (· < ·)) {a b : ℕ}
    (hhead : l.head? = some a) (hlast : l.getLast? = some b) : b = a ↔ l.length = 1 := by
  cases l with
  | nil => simp at hhead
  | cons x xs =>
    obtain rfl : x = a := by simpa using hhead
    cases xs with
    | nil => simpa using hlast.symm
    | cons y ys =>
      have hmem : b ∈ y :: ys := by
        rw [List.getLast?_cons_cons] at hlast
        exact List.mem_of_getLast? hlast
      have hless := (List.pairwise_cons.mp hsorted).1 b hmem
      simp only [List.length_cons]
      omega

/-- The pipeline is made for the selected stream throughout exactly when the input has a single
audio stream. -/
theorem decoder_agrees_iff (c : Platform) (lib : Libav) (w : World) (request : Request)
    {p : Pipeline} (h : (doTranscode c lib w request).1.entered = some p) :
    DecoderAgrees p (doTranscode c lib w request).1.log ↔
      (request.input lib).streams.countP AVStream.isAudio = 1 := by
  have hon := (entered_segment h).1.onStream
  obtain ⟨selected, d, out, hprep, hp, -⟩ := doTranscode_entered h
  obtain ⟨j, stream, hlast, hd⟩ := hprep.last
  have hsorted : ((audioStreams 0 (request.input lib).streams).map Prod.fst).Pairwise (· < ·) :=
    List.pairwise_map.mpr (audioStreams_sorted 0 _)
  have hlast' : ((audioStreams 0 (request.input lib).streams).map Prod.fst).getLast? = some j := by
    rw [List.getLast?_map, hlast]
    rfl
  have hdec : d.source = j := by
    rw [hd]
    rfl
  rw [← length_audioStreams 0, ← List.length_map (f := Prod.fst),
    ← head_eq_getLast_iff hsorted hprep.first hlast', ← hdec]
  subst hp
  constructor
  · intro hagree
    exact hagree.decoder
  · intro hsource
    refine ⟨hsource, hsource, congrArg some hsource, congrArg some hsource, ?_⟩
    intro packet hpacket
    obtain ⟨sent, code, he⟩ := mem_fed.mp hpacket
    exact (hon _ he).trans hsource.symm

theorem single_audio_agrees :
    ∃ p, (doTranscode Platform.generous Libav.smooth World.start videoFirst).1.entered = some p ∧
      DecoderAgrees p
        (doTranscode Platform.generous Libav.smooth World.start videoFirst).1.log :=
  ⟨_, rfl, (decoder_agrees_iff Platform.generous Libav.smooth World.start videoFirst rfl).mpr
    (by decide)⟩

/-- Of two audio streams the first is selected and the second one's decoder is used. -/
theorem second_decoder_for_first_stream :
    ¬ ∀ (c : Platform) (lib : Libav) (w : World) (request : Request) (p : Pipeline),
      (doTranscode c lib w request).1.entered = some p →
      DecoderAgrees p (doTranscode c lib w request).1.log := by
  intro h
  have hagree := h Platform.generous Libav.smooth World.start twoAudio _ rfl
  exact absurd hagree.decoder (by decide)

end AudioFS.Transcode
