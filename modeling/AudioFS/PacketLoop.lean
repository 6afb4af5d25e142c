import AudioFS.Libav
import AudioFS.StepMachine

/-!
# The packet loop of `do_transcode`

From the first `av_read_frame` to `av_write_trailer`: three nested drain loops
over the decoder, the filter graph and the encoder, and the two flush phases
after them. The calls an `Event` stands for are recorded in a log with what they
returned: the reader, the decoder, the filter graph, the encoder, the muxer, the
trailer, and the packet's allocation and release. `av_frame_unref` and the unref of
`enc_pkt`, which return nothing, are not, nor is what the code at `end` calls. The
codes the functions return are those of the source's `ret`.
-/

namespace AudioFS.Transcode
open AudioFS.CustomAvio StepMachine

structure Pipeline where
  streams : List AVStream
  outStreams : List OutputStream
  decCtx : AVCodecContext
  encCtx : AVCodecContext
  filterGraph : Option AVFilterGraph
  selected : ℕ

inductive Event
  | packetAlloc (granted : Bool)
  | readFrame (code : ℤ)
  /-- A packet as it was read, and as it was given to the decoder. -/
  | sendPacket (demuxed sent : AVPacket) (code : ℤ)
  | receiveFrame (code : ℤ)
  | addFrame (code : ℤ)
  | getFrame (code : ℤ)
  | sendFrame (code : ℤ)
  | receivePacket (received : Received AVPacket)
  | writeFrame (packet : AVPacket) (code : ℤ)
  | writeTrailer (code : ℤ)
  | packetUnref

/-- The AVIO side: the process and the handle behind `ofmt_ctx->pb`. -/
structure Io where
  process : Process
  handle : Option AudiofsAvioHandle

def Io.run (c : Platform) (io : Io) (ops : List Op) : Io :=
  match io.handle with
  | none => io
  | some handle =>
    let s := final (step c) ⟨io.process, handle⟩ ops
    ⟨s.process, some s.handle⟩

/-- What was sent to each component so far, what was muxed, and the log. -/
structure Progress where
  sent : List (Option AVPacket)
  pushed : List (Option AVFrame)
  encoded : List (Option AVFrame)
  muxed : List AVPacket
  io : Io
  log : List Event

def Progress.start (io : Io) : Progress := ⟨[], [], [], [], io, []⟩

def Progress.note (st : Progress) (e : Event) : Progress := { st with log := st.log ++ [e] }

/-- How a pass of the packet loop ends: with the next pass, at a `break`, or at a `goto end`. -/
inductive Flow
  | next
  | leave
  | stop (code : ℤ)

section
variable (c : Platform) (lib : Libav) (p : Pipeline)

/-- `ofmt_ctx->streams[index]->time_base`; nothing is known about it past the last stream. -/
def Pipeline.outTimeBase (p : Pipeline) (index : ℕ) : AVRational :=
  match p.outStreams[index]? with
  | some stream => stream.timeBase
  | none => ⟨0, 0⟩

def Pipeline.inTimeBase (p : Pipeline) (index : ℕ) : AVRational :=
  match p.streams[index]? with
  | some stream => stream.timeBase
  | none => ⟨0, 0⟩

def stamp (streamIndex : ℕ) (packet : AVPacket) : AVPacket :=
  lib.rescale { packet with streamIndex := streamIndex } p.encCtx.timeBase
    (p.outTimeBase streamIndex)

def avInterleavedWriteFrame (packet : AVPacket) (st : Progress) : ℤ × Progress :=
  let muxed := st.muxed ++ [packet]
  let reply := lib.writeFrame muxed
  (reply.code,
    { st with
      muxed := muxed
      io := st.io.run c reply.ops
      log := st.log ++ [.writeFrame packet reply.code] })

/-- The loop of `encode_write_frame` over the results of `avcodec_receive_packet`. -/
def writePackets (streamIndex : ℕ) : List (Received AVPacket) → Progress → ℤ × Progress
  | [], st => (0, st.note (.receivePacket (.failed AVERROR_EAGAIN)))
  | .failed error :: rest, st =>
    let st := st.note (.receivePacket (.failed error))
    if error = AVERROR_EAGAIN ∨ error = AVERROR_EOF then (0, st)
    else
      -- any other error is not looked at: the blank packet goes to the muxer
      let r := avInterleavedWriteFrame c lib (stamp lib p streamIndex .blank) st
      if r.1 < 0 then r else writePackets streamIndex rest r.2
  | .got packet :: rest, st =>
    let st := st.note (.receivePacket (.got packet))
    let r := avInterleavedWriteFrame c lib (stamp lib p streamIndex packet) st
    if r.1 < 0 then r else writePackets streamIndex rest r.2

def avcodecSendFrame (frame : Option AVFrame) (st : Progress) : Reply AVPacket × Progress :=
  let encoded := st.encoded ++ [frame]
  let reply := lib.encoder p.encCtx encoded
  (reply, { st.note (.sendFrame reply.code) with encoded := encoded })

def encodeWriteFrame (streamIndex : ℕ) (frame : Option AVFrame) (st : Progress) :
    ℤ × Progress :=
  let r := avcodecSendFrame lib p frame st
  if r.1.code < 0 then (r.1.code, r.2)
  else writePackets c lib p streamIndex r.1.received r.2

/-- The loop of `filter_encode_write_frame` over the results of `av_buffersink_get_frame`. -/
def pullFrames (streamIndex : ℕ) : List (Received AVFrame) → Progress → ℤ × Progress
  | [], st => (0, st.note (.getFrame AVERROR_EAGAIN.code))
  | .failed error :: _, st =>
    (if error = AVERROR_EAGAIN ∨ error = AVERROR_EOF then 0 else error.code,
      st.note (.getFrame error.code))
  | .got frame :: rest, st =>
    let r := encodeWriteFrame c lib p streamIndex (some { frame with pictType := 0 })
      (st.note (.getFrame 0))
    if r.1 < 0 then r else pullFrames streamIndex rest r.2

def avBuffersrcAddFrame (graph : AVFilterGraph) (frame : Option AVFrame) (st : Progress) :
    Reply AVFrame × Progress :=
  let pushed := st.pushed ++ [frame]
  let reply := lib.filter graph pushed
  (reply, { st.note (.addFrame reply.code) with pushed := pushed })

def filterEncodeWriteFrame (graph : AVFilterGraph) (frame : Option AVFrame) (streamIndex : ℕ)
    (st : Progress) : ℤ × Progress :=
  let r := avBuffersrcAddFrame lib graph frame st
  if r.1.code < 0 then (r.1.code, r.2)
  else pullFrames c lib p streamIndex r.1.received r.2

def flushEncoder (streamIndex : ℕ) (st : Progress) : ℤ × Progress :=
  if lib.encoderDelay then encodeWriteFrame c lib p streamIndex none st else (0, st)

/-- The loop over the results of `avcodec_receive_frame`. -/
def receiveFrames (graph : AVFilterGraph) (streamIndex : ℕ) :
    List (Received AVFrame) → Progress → Flow × Progress
  | [], st => (.next, st.note (.receiveFrame AVERROR_EAGAIN.code))
  | .failed error :: _, st =>
    (if error = AVERROR_EOF ∨ error = AVERROR_EAGAIN then .next else .stop error.code,
      st.note (.receiveFrame error.code))
  | .got frame :: rest, st =>
    let r := filterEncodeWriteFrame c lib p graph
      (some { frame with pts := frame.bestEffortTimestamp }) streamIndex
      (st.note (.receiveFrame 0))
    if r.1 < 0 then (.stop r.1, r.2) else receiveFrames graph streamIndex rest r.2

def Pipeline.toDecoder (p : Pipeline) (packet : AVPacket) : AVPacket :=
  lib.rescale packet (p.inTimeBase packet.streamIndex) p.decCtx.timeBase

def avcodecSendPacket (packet : AVPacket) (st : Progress) : Reply AVFrame × Progress :=
  let packet' := p.toDecoder lib packet
  let sent := st.sent ++ [some packet']
  let reply := lib.decoder p.decCtx sent
  (reply, { st.note (.sendPacket packet packet' reply.code) with sent := sent })

def transcodePacket (graph : AVFilterGraph) (packet : AVPacket) (st : Progress) :
    Flow × Progress :=
  let r := avcodecSendPacket lib p packet st
  if r.1.code < 0 then (.leave, r.2)
  else receiveFrames c lib p graph packet.streamIndex r.1.received r.2

def remuxPacket (packet : AVPacket) (st : Progress) : Flow × Progress :=
  let packet := lib.rescale packet (p.inTimeBase packet.streamIndex)
    (p.outTimeBase packet.streamIndex)
  let r := avInterleavedWriteFrame c lib packet st
  if r.1 < 0 then (.stop r.1, r.2) else (.next, r.2)

/-- The loop over the results of `av_read_frame`; what it leaves unread is returned. -/
def packetLoop : List (Received AVPacket) → Progress →
    Flow × List (Received AVPacket) × Progress
  | [], st => (.leave, [], st.note (.readFrame AVERROR_EOF.code))
  | .failed error :: rest, st => (.leave, rest, st.note (.readFrame error.code))
  | .got packet :: rest, st =>
    let st := st.note (.readFrame 0)
    if packet.streamIndex ≠ p.selected then packetLoop rest st
    else
      let r := match p.filterGraph with
        | some graph => transcodePacket c lib p graph packet st
        | none => remuxPacket c lib p packet st
      match r.1 with
      | .next => packetLoop rest (r.2.note .packetUnref)
      | flow => (flow, rest, r.2)

def avWriteTrailer (st : Progress) : Progress :=
  let reply := lib.writeTrailer st.muxed
  { st with io := st.io.run c reply.ops, log := st.log ++ [.writeTrailer reply.code] }

def finish (st : Progress) : ℤ × Progress :=
  let r := flushEncoder c lib p p.selected st
  if r.1 < 0 then r else (r.1, avWriteTrailer c lib r.2)

/-- Both flush phases and the trailer. The loop's last code is gone after them. -/
def flushAll (st : Progress) : ℤ × Progress :=
  match p.filterGraph with
  | some graph =>
    let r := filterEncodeWriteFrame c lib p graph none p.selected st
    if r.1 < 0 then r else finish c lib p r.2
  | none => finish c lib p st

/-- From `av_packet_alloc` on; `ret` still holds the selected index when that fails. -/
def transcodePackets (packets : List (Received AVPacket)) (io : Io) :
    ℤ × List (Received AVPacket) × Progress :=
  let st := (Progress.start io).note (.packetAlloc lib.allocPacket)
  if lib.allocPacket then
    match packetLoop c lib p packets st with
    | (.stop code, rest, st) => (code, rest, st)
    | (_, rest, st) =>
      let r := flushAll c lib p st
      (r.1, rest, r.2)
  else (p.selected, packets, st)

end

end AudioFS.Transcode
