import AudioFS.CustomAvio
import AudioFS.Transducer

/-!
# libav as `transcode.c` sees it

The records the program reads and fills, and one fixed behaviour of the library
during a call of `do_transcode`. A decoder, a filter graph or an encoder answers
each thing it is sent with a code and with the results of the receive calls up
to the next send, as a function of everything it was sent before; after the last
of these results it asks for more input. Two of them obey the send/receive
contract with the same transducer exactly when a caller cannot tell them apart.
-/

namespace AudioFS.Transcode

structure AVError where
  code : ℤ
  negative : code < 0
  deriving DecidableEq

def AVERROR_EOF : AVError := ⟨-541478725, by decide⟩
def AVERROR_EAGAIN : AVError := ⟨-11, by decide⟩
def AVERROR_ENOMEM : ℤ := -12
def AVERROR_DECODER_NOT_FOUND : ℤ := -1128613112
def AVERROR_UNKNOWN : ℤ := -1313558101
def AVERROR_INVALIDDATA : ℤ := -1094995529

inductive AVMediaType
  | unknown
  | video
  | audio
  | data
  | subtitle
  | attachment
  deriving DecidableEq

structure AVRational where
  num : ℤ
  den : ℤ
  deriving DecidableEq

/-- The fields `av_packet_rescale_ts` converts; no value stands for `AV_NOPTS_VALUE`. -/
structure Timing where
  pts : Option ℤ
  dts : Option ℤ
  duration : ℤ
  deriving DecidableEq

structure AVPacket where
  streamIndex : ℕ
  timing : Timing
  data : List UInt8
  deriving DecidableEq

/-- A packet after `av_packet_unref`. -/
def AVPacket.blank : AVPacket := ⟨0, ⟨none, none, 0⟩, []⟩

def AVPacket.plain (streamIndex : ℕ) (byte : UInt8) : AVPacket :=
  ⟨streamIndex, ⟨some 0, some 0, 0⟩, [byte]⟩

structure AVFrame where
  pts : Option ℤ
  bestEffortTimestamp : Option ℤ
  pictType : ℕ
  samples : List UInt8
  deriving DecidableEq

structure AVCodecParameters where
  codecType : AVMediaType
  codecId : ℕ
  sampleRate : ℤ
  format : ℤ
  chLayout : ℕ
  deriving DecidableEq

structure AVStream where
  codecpar : AVCodecParameters
  timeBase : AVRational
  deriving DecidableEq

def AVStream.plain (codecType : AVMediaType) : AVStream := ⟨⟨codecType, 0, 44100, 1, 3⟩, ⟨1, 44100⟩⟩

def AVStream.isAudio (s : AVStream) : Bool := s.codecpar.codecType == .audio

/-- A decoder or encoder context. `source` is the index of the input stream whose codec
parameters it was filled from. -/
structure AVCodecContext where
  source : ℕ
  codecType : AVMediaType
  sampleRate : ℤ
  sampleFmt : ℤ
  chLayout : ℕ
  timeBase : AVRational
  globalHeader : Bool
  deriving DecidableEq

/-- A configured graph: the arguments of its source and the options of its sink. -/
structure AVFilterGraph where
  source : ℕ
  timeBase : AVRational
  sampleRate : ℤ
  sampleFmt : ℤ
  chLayout : ℕ
  sinkSource : ℕ
  sinkSampleFmt : ℤ
  sinkSampleRate : ℤ
  deriving DecidableEq

/-- An output stream, with the input stream it was created for. -/
structure OutputStream where
  source : ℕ
  timeBase : AVRational
  codecpar : Option AVCodecContext
  deriving DecidableEq

inductive Received (α : Type*)
  | got (value : α)
  | failed (error : AVError)
  deriving DecidableEq

def Received.code {α : Type*} : Received α → ℤ
  | .got _ => 0
  | .failed error => error.code

def Received.value? {α : Type*} : Received α → Option α
  | .got value => some value
  | .failed _ => none

/-- The answer to one send: its code, and the receive calls until the next send. -/
structure Reply (α : Type*) where
  code : ℤ
  received : List (Received α)

/-- A component of the pipeline, by everything it was sent, the last thing included; nothing is
sent to end its input. -/
abbrev Component (α β : Type*) := List (Option α) → Reply β

/-- The send/receive contract: no call fails, and the transducer's output comes out, what it
holds back only once the input has ended. -/
structure Component.Obeys {α β : Type*} (C : Component α β) (T : Transducer α β) : Prop where
  taken : ∀ before x, 0 ≤ (C (before.map some ++ [some x])).code ∧
    (C (before.map some ++ [some x])).received = (T.emit before x).map .got
  ended : ∀ xs, 0 ≤ (C (xs.map some ++ [none])).code ∧
    (C (xs.map some ++ [none])).received = (T.drain xs).map .got ++ [.failed AVERROR_EOF]

def Component.of {α β : Type*} (T : Transducer α β) : Component α β := fun history =>
  match history.getLast? with
  | some (some x) => ⟨0, (T.emit (history.dropLast.filterMap id) x).map .got⟩
  | _ => ⟨0, (T.drain (history.filterMap id)).map .got ++ [.failed AVERROR_EOF]⟩

theorem Component.of_obeys {α β : Type*} (T : Transducer α β) : (Component.of T).Obeys T where
  taken before x := by simp [Component.of]
  ended xs := by simp [Component.of, List.filterMap_append]

structure MuxReply where
  code : ℤ
  ops : List CustomAvio.Op

structure InputContext where
  streams : List AVStream
  packets : List (Received AVPacket)

/-- The library during one call. Where a call is made once for each stream, its outcome is a
function of the stream's index. -/
structure Libav where
  openInput : ℤ × InputContext
  findStreamInfo : ℤ
  mallocStreamContext : Bool
  findDecoder : ℕ → Bool
  allocDecoder : ℕ → Bool
  parametersToContext : ℕ → ℤ
  decoderTimeBase : ℕ → AVRational
  openDecoder : ℕ → ℤ
  allocDecFrame : ℕ → Bool
  allocOutputContext : Bool
  noFile : Bool
  globalHeader : Bool
  newStream : ℕ → Bool
  findEncoder : ℕ → Bool
  allocEncoder : ℕ → Bool
  copyChannelLayout : ℕ → ℤ
  encoderSampleFmt : ℤ
  openEncoder : ℕ → ℤ
  parametersFromContext : ℕ → ℤ
  /-- `avio_alloc_context` on the buffer that `av_malloc` returned just before. -/
  allocAvioContext : Bool
  writeHeader : MuxReply
  /-- The time base the muxer gives an output stream when it writes the header. -/
  headerTimeBase : OutputStream → AVRational
  mallocFilteringContext : Bool
  allocInOutAndGraph : Bool
  findBufferFilters : Bool
  createBufferSource : ℤ
  createBufferSink : ℤ
  setSampleFmts : ℤ
  setChannelLayouts : ℤ
  setSampleRates : ℤ
  strdupNames : Bool
  parseGraph : ℤ
  /-- The library returns zero for a graph it could configure. -/
  configGraph : Option AVError
  allocEncPacket : Bool
  allocFilteredFrame : Bool
  allocPacket : Bool
  rescaleTs : Timing → AVRational → AVRational → Timing
  decoder : AVCodecContext → Component AVPacket AVFrame
  filter : AVFilterGraph → Component AVFrame AVFrame
  encoder : AVCodecContext → Component AVFrame AVPacket
  encoderDelay : Bool
  /-- `av_interleaved_write_frame`, by all packets given to it so far. -/
  writeFrame : List AVPacket → MuxReply
  writeTrailer : List AVPacket → MuxReply
  flush : List AVPacket → List CustomAvio.Op

def eager {α β : Type*} (f : α → β) : Component α β := fun history =>
  match history.getLast? with
  | some (some x) => ⟨0, [.got (f x)]⟩
  | _ => ⟨0, [.failed AVERROR_EOF]⟩

theorem eager_obeys {α β : Type*} (f : α → β) : (eager f).Obeys (.each f) where
  taken before x := by simp [eager, Transducer.each]
  ended xs := by simp [eager, Transducer.each]

/-- A library in which every call succeeds, for a format written to a file: one frame for each
packet, one packet for each frame, and one byte of output. -/
def Libav.smooth : Libav where
  openInput := (0, ⟨[], []⟩)
  findStreamInfo := 0
  mallocStreamContext := true
  findDecoder := fun _ => true
  allocDecoder := fun _ => true
  parametersToContext := fun _ => 0
  decoderTimeBase := fun _ => ⟨0, 1⟩
  openDecoder := fun _ => 0
  allocDecFrame := fun _ => true
  allocOutputContext := true
  noFile := false
  globalHeader := false
  newStream := fun _ => true
  findEncoder := fun _ => true
  allocEncoder := fun _ => true
  copyChannelLayout := fun _ => 0
  encoderSampleFmt := 1
  openEncoder := fun _ => 0
  parametersFromContext := fun _ => 0
  allocAvioContext := true
  writeHeader := ⟨0, []⟩
  headerTimeBase := OutputStream.timeBase
  mallocFilteringContext := true
  allocInOutAndGraph := true
  findBufferFilters := true
  createBufferSource := 0
  createBufferSink := 0
  setSampleFmts := 0
  setChannelLayouts := 0
  setSampleRates := 0
  strdupNames := true
  parseGraph := 0
  configGraph := none
  allocEncPacket := true
  allocFilteredFrame := true
  allocPacket := true
  rescaleTs := fun timing _ _ => timing
  decoder := fun _ => eager fun packet => ⟨packet.timing.pts, packet.timing.pts, 0, packet.data⟩
  filter := fun _ => eager id
  encoder := fun _ => eager fun frame => ⟨0, ⟨frame.pts, frame.pts, 0⟩, frame.samples⟩
  encoderDelay := false
  writeFrame := fun _ => ⟨0, []⟩
  writeTrailer := fun _ => ⟨0, [.write (.one 65)]⟩
  flush := fun _ => []

def Libav.rescale (lib : Libav) (packet : AVPacket) (src dst : AVRational) : AVPacket :=
  { packet with timing := lib.rescaleTs packet.timing src dst }

end AudioFS.Transcode
