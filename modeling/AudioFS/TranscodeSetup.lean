import AudioFS.PacketLoop

/-!
# Setting up `do_transcode`

The file-static pointers of `transcode.c` and the functions that fill them before
packets are read. A pointer is unset while the memory it lies in was never
written, and released once its object was freed without it being reset; a live
one knows the call of `do_transcode` that created its object. The statics
survive the calls, so each function takes and returns all of them.
-/

namespace AudioFS.Transcode
open AudioFS.CustomAvio

inductive Ptr (α : Type*)
  | unset
  | null
  | live (call : ℕ) (object : α)
  | released

def Ptr.ofAlloc {α : Type*} (granted : Bool) (call : ℕ) (object : α) : Ptr α :=
  if granted then .live call object else .null

structure StreamContext where
  decCtx : Ptr AVCodecContext
  encCtx : Ptr AVCodecContext
  decFrame : Ptr Unit

/-- Fresh from `av_malloc`. -/
def StreamContext.fresh : StreamContext := ⟨.unset, .unset, .unset⟩

/-- `filterGraph` stands for the graph and for the two filter contexts inside it. -/
structure FilteringContext where
  filterGraph : Ptr AVFilterGraph
  encPkt : Ptr Unit
  filteredFrame : Ptr Unit

def FilteringContext.fresh : FilteringContext := ⟨.unset, .unset, .unset⟩

structure OutputContext where
  streams : List OutputStream
  noFile : Bool
  pb : Ptr Unit

structure Statics where
  ifmtCtx : Ptr Unit
  ofmtCtx : Ptr OutputContext
  filterCtx : Ptr FilteringContext
  streamCtx : Ptr StreamContext

/-- All pointers are null when the program starts. -/
def Statics.start : Statics := ⟨.null, .null, .null, .null⟩

section
variable (c : Platform) (lib : Libav) (call : ℕ)

def decoderContext (i : ℕ) (stream : AVStream) : AVCodecContext where
  source := i
  codecType := stream.codecpar.codecType
  sampleRate := stream.codecpar.sampleRate
  sampleFmt := stream.codecpar.format
  chLayout := stream.codecpar.chLayout
  timeBase := lib.decoderTimeBase i
  globalHeader := false

/-- The part of the loop that opens the decoder of stream `i`. The context gets the stream's
media type with its parameters, so the decoder of an audio stream is always opened. -/
def openDecoder (i : ℕ) (stream : AVStream) : ℤ ⊕ AVCodecContext :=
  if !lib.findDecoder i then .inl AVERROR_DECODER_NOT_FOUND
  else if !lib.allocDecoder i then .inl AVERROR_ENOMEM
  else if lib.parametersToContext i < 0 then .inl (lib.parametersToContext i)
  else if lib.openDecoder i < 0 then .inl (lib.openDecoder i)
  else .inr (decoderContext lib i stream)

/-- The loop over the input streams, from index `i` on. -/
def openDecoders : ℕ → List AVStream → StreamContext → ℤ × StreamContext
  | _, [], sc => (0, sc)
  | i, stream :: streams, sc =>
    if !stream.isAudio then openDecoders (i + 1) streams sc
    else
      match openDecoder lib i stream with
      | .inl code => (code, sc)
      | .inr codecCtx =>
        let sc := { sc with
          decCtx := .live call codecCtx
          decFrame := .ofAlloc (lib.allocDecFrame i) call () }
        if lib.allocDecFrame i then openDecoders (i + 1) streams sc else (AVERROR_ENOMEM, sc)

def openInputFileWithFormatContext (ctx : Option InputContext) (s : Statics) : ℤ × Statics :=
  match ctx with
  | none => (-1, s)
  | some ctx =>
    let s := { s with ifmtCtx := .live call () }
    if lib.mallocStreamContext then
      let r := openDecoders lib call 0 ctx.streams StreamContext.fresh
      (r.1, { s with streamCtx := .live call r.2 })
    else (AVERROR_ENOMEM, { s with streamCtx := .null })

/-- `open_input_file`; a failed `avformat_open_input` resets the pointer. -/
def openInputFile (s : Statics) : ℤ × Statics :=
  if lib.openInput.1 < 0 then (lib.openInput.1, { s with ifmtCtx := .null })
  else if lib.findStreamInfo < 0 then (lib.findStreamInfo, { s with ifmtCtx := .live call () })
  else openInputFileWithFormatContext lib call (some lib.openInput.2) s

def encoderContext (decCtx : AVCodecContext) : AVCodecContext where
  source := decCtx.source
  codecType := .audio
  sampleRate := 44100
  sampleFmt := lib.encoderSampleFmt
  chLayout := decCtx.chLayout
  timeBase := ⟨1, 44100⟩
  globalHeader := lib.globalHeader

def openEncoder (i : ℕ) (decCtx : AVCodecContext) : ℤ ⊕ AVCodecContext :=
  if !lib.findEncoder i then .inl AVERROR_INVALIDDATA
  else if !lib.allocEncoder i then .inl AVERROR_ENOMEM
  else if lib.copyChannelLayout i < 0 then .inl (lib.copyChannelLayout i)
  else if lib.openEncoder i < 0 then .inl (lib.openEncoder i)
  else if lib.parametersFromContext i < 0 then .inl (lib.parametersFromContext i)
  else .inr (encoderContext lib decCtx)

def newStream (i : ℕ) : OutputStream := ⟨i, ⟨0, 1⟩, none⟩

def encodedStream (i : ℕ) (encCtx : AVCodecContext) : OutputStream :=
  ⟨i, encCtx.timeBase, some encCtx⟩

def addStreams : ℕ → List AVStream → OutputContext → StreamContext →
    ℤ × OutputContext × StreamContext
  | _, [], out, sc => (0, out, sc)
  | i, stream :: streams, out, sc =>
    if !stream.isAudio then addStreams (i + 1) streams out sc
    else if !lib.newStream i then (AVERROR_UNKNOWN, out, sc)
    else
      match sc.decCtx with
      | .live _ decCtx =>
        if decCtx.codecType = .audio then
          match openEncoder lib i decCtx with
          | .inl code => (code, { out with streams := out.streams ++ [newStream i] }, sc)
          | .inr encCtx =>
            addStreams (i + 1) streams
              { out with streams := out.streams ++ [encodedStream i encCtx] }
              { sc with encCtx := .live call encCtx }
        else if decCtx.codecType = .unknown then
          (AVERROR_INVALIDDATA, { out with streams := out.streams ++ [newStream i] }, sc)
        else addStreams (i + 1) streams { out with streams := out.streams ++ [newStream i] } sc
      -- every audio stream left a decoder, so the dereference finds one
      | _ => (AVERROR_UNKNOWN, { out with streams := out.streams ++ [newStream i] }, sc)

def writeHeader (out : OutputContext) (io : Io) : ℤ × OutputContext × Io :=
  (lib.writeHeader.code,
    { out with streams := out.streams.map fun s => { s with timeBase := lib.headerTimeBase s } },
    io.run c lib.writeHeader.ops)

def openOutput (filename : List UInt8) (out : OutputContext) (process : Process) :
    ℤ × OutputContext × Io :=
  if out.noFile then writeHeader c lib out ⟨process, none⟩
  else
    match audiofsAvioOpen c process filename with
    | (none, process) => (-1, out, ⟨process, none⟩)
    | (some handle, process) =>
      -- neither the buffer nor the AVIO context is checked
      let out := { out with pb := .ofAlloc lib.allocAvioContext call () }
      writeHeader c lib out ⟨process, if lib.allocAvioContext then some handle else none⟩

def openOutputFile (filename : List UInt8) (streams : List AVStream) (sc : StreamContext)
    (s : Statics) (process : Process) : ℤ × Statics × Io :=
  if !lib.allocOutputContext then (AVERROR_UNKNOWN, { s with ofmtCtx := .null }, ⟨process, none⟩)
  else
    let r := addStreams lib call 0 streams ⟨[], lib.noFile, .null⟩ sc
    let s := { s with streamCtx := .live call r.2.2 }
    if r.1 < 0 then (r.1, { s with ofmtCtx := .live call r.2.1 }, ⟨process, none⟩)
    else
      let o := openOutput c lib call filename r.2.1 process
      (if o.1 < 0 then o.1 else 0, { s with ofmtCtx := .live call o.2.1 }, o.2.2)

def filterGraphOf (decCtx encCtx : AVCodecContext) : AVFilterGraph where
  source := decCtx.source
  timeBase := decCtx.timeBase
  sampleRate := decCtx.sampleRate
  sampleFmt := decCtx.sampleFmt
  chLayout := encCtx.chLayout
  sinkSource := encCtx.source
  sinkSampleFmt := encCtx.sampleFmt
  sinkSampleRate := encCtx.sampleRate

def initFilter (decCtx encCtx : AVCodecContext) : ℤ ⊕ AVFilterGraph :=
  if !lib.allocInOutAndGraph then .inl AVERROR_ENOMEM
  else if decCtx.codecType ≠ .audio then .inl AVERROR_UNKNOWN
  else if !lib.findBufferFilters then .inl AVERROR_UNKNOWN
  else if lib.createBufferSource < 0 then .inl lib.createBufferSource
  else if lib.createBufferSink < 0 then .inl lib.createBufferSink
  else if lib.setSampleFmts < 0 then .inl lib.setSampleFmts
  else if lib.setChannelLayouts < 0 then .inl lib.setChannelLayouts
  else if lib.setSampleRates < 0 then .inl lib.setSampleRates
  else if !lib.strdupNames then .inl AVERROR_ENOMEM
  else if lib.parseGraph < 0 then .inl lib.parseGraph
  else
    match lib.configGraph with
    | some error => .inl error.code
    | none => .inr (filterGraphOf decCtx encCtx)

/-- The loop of `init_filters`: the first audio stream from index `i` on decides. -/
def selectStream : ℕ → List AVStream → StreamContext → FilteringContext → ℤ × FilteringContext
  | _, [], _, fc => (-1, fc)
  | i, stream :: streams, sc, fc =>
    if !stream.isAudio then selectStream (i + 1) streams sc fc
    else
      let fc := { fc with filterGraph := .null }
      match sc.decCtx, sc.encCtx with
      | .live _ decCtx, .live _ encCtx =>
        match initFilter lib decCtx encCtx with
        | .inl code => (code, fc)
        | .inr graph =>
          let fc := { fc with
            filterGraph := .live call graph
            encPkt := .ofAlloc lib.allocEncPacket call () }
          if !lib.allocEncPacket then (AVERROR_ENOMEM, fc)
          else
            let fc := { fc with filteredFrame := .ofAlloc lib.allocFilteredFrame call () }
            if lib.allocFilteredFrame then (i, fc) else (AVERROR_ENOMEM, fc)
      -- an audio stream left both contexts, so the dereferences find them
      | _, _ => (AVERROR_UNKNOWN, fc)

def initFilters (streams : List AVStream) (sc : StreamContext) (s : Statics) : ℤ × Statics :=
  if lib.mallocFilteringContext then
    let r := selectStream lib call 0 streams sc FilteringContext.fresh
    (r.1, { s with filterCtx := .live call r.2 })
  else (AVERROR_ENOMEM, { s with filterCtx := .null })

end

end AudioFS.Transcode
