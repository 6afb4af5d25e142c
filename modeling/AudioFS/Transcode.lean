import AudioFS.TranscodeSetup

/-!
# `do_transcode`

Setup, packet loop and the code at label `end`, which every exit reaches. The
clean-up is recorded as the list of its accesses to objects behind the static
pointers, in order, each with whether its pointer was live and of this call.
-/

namespace AudioFS.Transcode
open AudioFS.CustomAvio

inductive Object
  | streamCtx
  | decCtx
  | encCtx
  | decFrame
  | filterCtx
  | filterGraph
  | encPkt
  | filteredFrame
  | ifmtCtx
  | ofmtCtx
  | pb
  deriving DecidableEq

/-- One access of the code at `end`: a read or a free, through a pointer that is live and whose
object this call created, or through another one. -/
structure Access where
  object : Object
  frees : Bool
  current : Bool
  deriving DecidableEq

def Ptr.current {α : Type*} (call : ℕ) : Ptr α → Bool
  | .live n _ => n == call
  | _ => false

/-- The pointer after its object was freed and it was not reset. -/
def Ptr.freed {α : Type*} : Ptr α → Ptr α
  | .null => .null
  | _ => .released

def readOf {α : Type*} (call : ℕ) (object : Object) (p : Ptr α) : Access :=
  ⟨object, false, p.current call⟩

/-- The libav free functions and `av_free` do nothing for a null pointer. -/
def freeOf {α : Type*} (call : ℕ) (object : Object) : Ptr α → List Access
  | .null => []
  | p => [⟨object, true, p.current call⟩]

def freeStreamField {α : Type*} (call : ℕ) (s : Statics) (object : Object)
    (field : StreamContext → Ptr α) : List Access :=
  readOf call .streamCtx s.streamCtx ::
    match s.streamCtx with
    | .live _ sc => freeOf call object (field sc)
    | _ => []

/-- `if (filter_ctx && filter_ctx->filter_graph)` and its body. -/
def freeFilter (call : ℕ) (s : Statics) : List Access :=
  match s.filterCtx with
  | .null => []
  | .live _ fc =>
    readOf call .filterCtx s.filterCtx ::
      match fc.filterGraph with
      | .null => []
      | graph =>
        freeOf call .filterGraph graph ++ freeOf call .encPkt fc.encPkt ++
          freeOf call .filteredFrame fc.filteredFrame
  | p => [readOf call .filterCtx p]

/-- `if (ofmt_ctx && !(ofmt_ctx->oformat->flags & AVFMT_NOFILE))` and its body. -/
def extractHandle (call : ℕ) (s : Statics) : List Access :=
  match s.ofmtCtx with
  | .null => []
  | .live _ out =>
    readOf call .ofmtCtx s.ofmtCtx ::
      if out.noFile then [] else [readOf call .pb out.pb, readOf call .pb out.pb]
  | p => [readOf call .ofmtCtx p]

def cleanup (call : ℕ) (fromPath : Bool) (s : Statics) : List Access :=
  freeStreamField call s .decCtx StreamContext.decCtx ++
    freeStreamField call s .encCtx StreamContext.encCtx ++
    freeFilter call s ++
    freeStreamField call s .decFrame StreamContext.decFrame ++
    freeOf call .streamCtx s.streamCtx ++
    freeOf call .filterCtx s.filterCtx ++
    (if fromPath then freeOf call .ifmtCtx s.ifmtCtx else []) ++
    extractHandle call s ++
    freeOf call .ofmtCtx s.ofmtCtx

/-- The static pointers after the code at `end`: only `avformat_close_input` resets one. -/
def Statics.settled (fromPath : Bool) (s : Statics) : Statics where
  ifmtCtx := if fromPath then .null else s.ifmtCtx
  ofmtCtx := s.ofmtCtx.freed
  filterCtx := s.filterCtx.freed
  streamCtx := s.streamCtx.freed

structure World where
  statics : Statics
  process : Process
  calls : ℕ

def World.start : World := ⟨Statics.start, Process.start, 0⟩

/-- The arguments of a call; a path takes precedence over a context. -/
structure Request where
  fromPath : Bool
  fromContext : Option InputContext
  toPath : List UInt8

def Request.of (streams : List AVStream) (packets : List AVPacket) : Request :=
  ⟨false, some ⟨streams, packets.map .got⟩, memoryName⟩

/-- What a call returns and what it did: the pipeline it entered the packet loop with, the log
of that loop, the statics at `end`, and the packets its input context has left. -/
structure Outcome where
  ret : ℤ
  handle : Option AudiofsAvioHandle
  entered : Option Pipeline
  log : List Event
  atEnd : Statics
  accesses : List Access
  rest : List (Received AVPacket)

section
variable (c : Platform) (lib : Libav)

def Request.input (request : Request) : InputContext :=
  if request.fromPath then lib.openInput.2 else request.fromContext.getD ⟨[], []⟩

def Statics.streamContext (s : Statics) : StreamContext :=
  match s.streamCtx with
  | .live _ sc => sc
  | _ => StreamContext.fresh

def openRequested (w : World) (request : Request) : ℤ × Statics :=
  if request.fromPath then openInputFile lib w.calls w.statics
  else openInputFileWithFormatContext lib w.calls request.fromContext w.statics

def prepare (w : World) (request : Request) : ℤ × Statics × Io :=
  let streams := (request.input lib).streams
  let r := openRequested lib w request
  if r.1 < 0 then (r.1, r.2, ⟨w.process, none⟩)
  else
    let o := openOutputFile c lib w.calls request.toPath streams r.2.streamContext r.2 w.process
    if o.1 < 0 then o
    else
      let f := initFilters lib w.calls streams o.2.1.streamContext o.2.1
      (f.1, f.2, o.2.2)

def Statics.pipeline (s : Statics) (streams : List AVStream) (selected : ℕ) : Option Pipeline :=
  match s.streamCtx, s.filterCtx, s.ofmtCtx with
  | .live _ sc, .live _ fc, .live _ out =>
    match sc.decCtx, sc.encCtx, fc.filterGraph with
    | .live _ decCtx, .live _ encCtx, .live _ graph =>
      some ⟨streams, out.streams, decCtx, encCtx, some graph, selected⟩
    | .live _ decCtx, .live _ encCtx, .null =>
      some ⟨streams, out.streams, decCtx, encCtx, none, selected⟩
    | _, _, _ => none
  | _, _, _ => none

/-- `ofmt_ctx->pb->opaque` after `avio_flush`, for a format with a file. Without an AVIO context
both go through a null `pb` and the call does not return; the value is a filler then. -/
def extractedHandle (s : Statics) (muxed : List AVPacket) (io : Io) : Io :=
  match s.ofmtCtx with
  | .live _ out => if out.noFile then ⟨io.process, none⟩ else io.run c (lib.flush muxed)
  | _ => ⟨io.process, none⟩

def leave (w : World) (request : Request) (ret : ℤ) (s : Statics) (entered : Option Pipeline)
    (rest : List (Received AVPacket)) (st : Progress) : Outcome × World :=
  let io := extractedHandle c lib s st.muxed st.io
  ({ ret := ret
     handle := if ret < 0 then none else io.handle
     entered := entered
     log := st.log
     atEnd := s
     accesses := cleanup w.calls request.fromPath s
     rest := rest },
    { statics := s.settled request.fromPath, process := io.process, calls := w.calls + 1 })

def doTranscode (w : World) (request : Request) : Outcome × World :=
  let input := request.input lib
  let r := prepare c lib w request
  match (if r.1 < 0 then none else r.2.1.pipeline input.streams r.1.toNat) with
  | none => leave c lib w request r.1 r.2.1 none input.packets (Progress.start r.2.2)
  | some p =>
    let t := transcodePackets c lib p input.packets r.2.2
    leave c lib w request t.1 r.2.1 (some p) t.2.1 t.2.2

end

end AudioFS.Transcode
