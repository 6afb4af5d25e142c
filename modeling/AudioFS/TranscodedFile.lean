import AudioFS.MemoryImage
import AudioFS.StreamFingerprints
import Mathlib.Logic.Relation

/-!
# The file a call of `do_transcode` writes

The muxer is the only one to use the AVIO handle. Each function of the packet
loop is a sequence of steps that leave the muxer alone or give it one packet, so
the handle a call returns has seen the operations for the header, for each muxed
packet, for the trailer and for the last flush, and nothing else.
-/

namespace AudioFS.Transcode
open AudioFS.CustomAvio StepMachine Overlay
open Relation (ReflTransGen)

/-- The muxer between header and trailer, by the operations it makes. -/
def muxer (lib : Libav) : Transducer AVPacket Op where
  emit before packet := (lib.writeFrame (before ++ [packet])).ops
  drain packets := (lib.writeTrailer packets).ops

theorem Io.run_nil (c : Platform) (io : Io) : io.run c [] = io := by
  obtain ⟨process, handle⟩ := io
  cases handle <;> rfl

theorem Io.run_append (c : Platform) (io : Io) (ops ops' : List Op) :
    (io.run c ops).run c ops' = io.run c (ops ++ ops') := by
  obtain ⟨process, handle⟩ := io
  cases handle with
  | none => rfl
  | some handle => simp only [Io.run, final_append]

section
variable (c : Platform) (lib : Libav) (p : Pipeline)

/-- What the loops are made of, as far as the muxer is concerned. -/
inductive MuxStep : Progress → Progress → Prop
  | aside {st st' : Progress} (hmuxed : st'.muxed = st.muxed) (hio : st'.io = st.io) :
    MuxStep st st'
  | mux (packet : AVPacket) (st : Progress) :
    MuxStep st (avInterleavedWriteFrame c lib packet st).2

abbrev MuxRun : Progress → Progress → Prop := ReflTransGen (MuxStep c lib)

variable {c lib}

theorem muxRun_aside {st st' : Progress} (hmuxed : st'.muxed = st.muxed) (hio : st'.io = st.io) :
    MuxRun c lib st st' := .single (.aside hmuxed hio)

variable (c lib) in
theorem muxRun_note (e : Event) (st : Progress) : MuxRun c lib st (st.note e) :=
  muxRun_aside rfl rfl

/-- The file after a run, by the packets that were muxed in it. -/
theorem MuxRun.io {st st' : Progress} (h : MuxRun c lib st st') :
    ∃ new, st'.muxed = st.muxed ++ new ∧
      st'.io = st.io.run c ((muxer lib).outFrom st.muxed new) := by
  induction h with
  | refl => exact ⟨[], (List.append_nil _).symm, (Io.run_nil c st.io).symm⟩
  | tail _ hstep ih =>
    obtain ⟨new, hmuxed, hio⟩ := ih
    cases hstep with
    | aside hsame hsame' => exact ⟨new, hsame.trans hmuxed, hsame'.trans hio⟩
    | mux packet st₁ =>
      refine ⟨new ++ [packet], ?_, ?_⟩
      · rw [← List.append_assoc, ← hmuxed]
        rfl
      · rw [Transducer.outFrom_append, ← Io.run_append, ← hio, ← hmuxed, Transducer.outFrom_cons,
          Transducer.outFrom_nil, List.append_nil]
        rfl

variable (c lib)

theorem writePackets_muxRun (k : ℕ) (answers : List (Received AVPacket)) (st : Progress) :
    MuxRun c lib st (writePackets c lib p k answers st).2 := by
  induction answers generalizing st with
  | nil => exact muxRun_note c lib _ st
  | cons answer rest ih =>
    have hmux (packet : AVPacket) : MuxRun c lib st
        (let w := avInterleavedWriteFrame c lib packet (st.note (.receivePacket answer))
          if w.1 < 0 then w else writePackets c lib p k rest w.2).2 := by
      have hfirst := (muxRun_note c lib (.receivePacket answer) st).tail (.mux packet _)
      dsimp only
      split_ifs
      · exact hfirst
      · exact hfirst.trans (ih _)
    cases answer with
    | got packet => exact hmux _
    | failed error =>
      by_cases hend : error = AVERROR_EAGAIN ∨ error = AVERROR_EOF
      · simp only [writePackets, if_pos hend]
        exact muxRun_note c lib _ st
      · simp only [writePackets, if_neg hend]
        exact hmux _

theorem encodeWriteFrame_muxRun (k : ℕ) (frame : Option AVFrame) (st : Progress) :
    MuxRun c lib st (encodeWriteFrame c lib p k frame st).2 := by
  have hsend : MuxRun c lib st (avcodecSendFrame lib p frame st).2 := muxRun_aside rfl rfl
  simp only [encodeWriteFrame]
  split_ifs
  · exact hsend
  · exact hsend.trans (writePackets_muxRun c lib p k _ _)

theorem pullFrames_muxRun (k : ℕ) (answers : List (Received AVFrame)) (st : Progress) :
    MuxRun c lib st (pullFrames c lib p k answers st).2 := by
  induction answers generalizing st with
  | nil => exact muxRun_note c lib _ st
  | cons answer rest ih =>
    cases answer with
    | failed error => exact muxRun_note c lib _ st
    | got frame =>
      have hencode := (muxRun_note c lib (.getFrame 0) st).trans
        (encodeWriteFrame_muxRun c lib p k (some { frame with pictType := 0 }) _)
      simp only [pullFrames]
      split_ifs
      · exact hencode
      · exact hencode.trans (ih _)

theorem filterEncodeWriteFrame_muxRun (k : ℕ) (graph : AVFilterGraph) (frame : Option AVFrame)
    (st : Progress) : MuxRun c lib st (filterEncodeWriteFrame c lib p graph frame k st).2 := by
  have hadd : MuxRun c lib st (avBuffersrcAddFrame lib graph frame st).2 := muxRun_aside rfl rfl
  simp only [filterEncodeWriteFrame]
  split_ifs
  · exact hadd
  · exact hadd.trans (pullFrames_muxRun c lib p k _ _)

theorem receiveFrames_muxRun (graph : AVFilterGraph) (k : ℕ) (answers : List (Received AVFrame))
    (st : Progress) : MuxRun c lib st (receiveFrames c lib p graph k answers st).2 := by
  induction answers generalizing st with
  | nil => exact muxRun_note c lib _ st
  | cons answer rest ih =>
    cases answer with
    | failed error => exact muxRun_note c lib _ st
    | got frame =>
      have hfilter := (muxRun_note c lib (.receiveFrame 0) st).trans
        (filterEncodeWriteFrame_muxRun c lib p k graph
          (some { frame with pts := frame.bestEffortTimestamp }) _)
      simp only [receiveFrames]
      split_ifs
      · exact hfilter
      · exact hfilter.trans (ih _)

theorem transcodePacket_muxRun (graph : AVFilterGraph) (packet : AVPacket) (st : Progress) :
    MuxRun c lib st (transcodePacket c lib p graph packet st).2 := by
  have hsend : MuxRun c lib st (avcodecSendPacket lib p packet st).2 := muxRun_aside rfl rfl
  simp only [transcodePacket]
  split_ifs
  · exact hsend
  · exact hsend.trans (receiveFrames_muxRun c lib p graph _ _ _)

theorem remuxPacket_muxRun (packet : AVPacket) (st : Progress) :
    MuxRun c lib st (remuxPacket c lib p packet st).2 := by
  simp only [remuxPacket]
  split_ifs <;> exact .single (.mux _ st)

theorem packetLoop_muxRun (packets : List (Received AVPacket)) (st : Progress) :
    MuxRun c lib st (packetLoop c lib p packets st).2.2 := by
  induction packets generalizing st with
  | nil => exact muxRun_note c lib _ st
  | cons answer rest ih =>
    cases answer with
    | failed error => exact muxRun_note c lib _ st
    | got packet =>
      have hread : MuxRun c lib st (st.note (.readFrame 0)) := muxRun_note c lib _ st
      by_cases hother : packet.streamIndex ≠ p.selected
      · simp only [packetLoop, if_pos hother]
        exact hread.trans (ih _)
      · have hnext (st' : Progress) (h : MuxRun c lib (st.note (.readFrame 0)) st') :
            MuxRun c lib st (packetLoop c lib p rest (st'.note .packetUnref)).2.2 :=
          ((hread.trans h).trans (muxRun_note c lib _ _)).trans (ih _)
        cases hgraph : p.filterGraph with
        | some graph =>
          have hpass := transcodePacket_muxRun c lib p graph packet (st.note (.readFrame 0))
          simp only [packetLoop, if_neg hother, hgraph]
          generalize transcodePacket c lib p graph packet _ = r at hpass ⊢
          obtain ⟨flow, st'⟩ := r
          cases flow with
          | next => exact hnext st' hpass
          | leave => exact hread.trans hpass
          | stop code => exact hread.trans hpass
        | none =>
          have hpass := remuxPacket_muxRun c lib p packet (st.note (.readFrame 0))
          simp only [packetLoop, if_neg hother, hgraph]
          generalize remuxPacket c lib p packet _ = r at hpass ⊢
          obtain ⟨flow, st'⟩ := r
          cases flow with
          | next => exact hnext st' hpass
          | leave => exact hread.trans hpass
          | stop code => exact hread.trans hpass

/-- A function that writes the trailer as its last step exactly when it does not fail. -/
def EndsFile (st : Progress) (r : ℤ × Progress) : Prop :=
  ∃ st', MuxRun c lib st st' ∧ r.2 = if r.1 < 0 then st' else avWriteTrailer c lib st'

theorem finish_endsFile (st : Progress) : EndsFile c lib st (finish c lib p st) := by
  have hflush : MuxRun c lib st (flushEncoder c lib p p.selected st).2 := by
    simp only [flushEncoder]
    split_ifs
    · exact encodeWriteFrame_muxRun c lib p _ none st
    · exact .refl
  refine ⟨_, hflush, ?_⟩
  simp only [finish]
  split_ifs <;> rfl

theorem flushAll_endsFile (st : Progress) : EndsFile c lib st (flushAll c lib p st) := by
  simp only [flushAll]
  cases p.filterGraph with
  | none => exact finish_endsFile c lib p st
  | some graph =>
    have hfilter := filterEncodeWriteFrame_muxRun c lib p p.selected graph none st
    by_cases hneg : (filterEncodeWriteFrame c lib p graph none p.selected st).1 < 0
    · simp only [if_pos hneg]
      exact ⟨_, hfilter, (if_pos hneg).symm⟩
    · simp only [if_neg hneg]
      obtain ⟨st', hrun, hend⟩ := finish_endsFile c lib p
        (filterEncodeWriteFrame c lib p graph none p.selected st).2
      exact ⟨st', hfilter.trans hrun, hend⟩

theorem transcodePackets_endsFile {graph : AVFilterGraph} (hgraph : p.filterGraph = some graph)
    (halloc : lib.allocPacket = true) (packets : List (Received AVPacket)) (io : Io) :
    let t := transcodePackets c lib p packets io
    EndsFile c lib (Progress.start io) (t.1, t.2.2) := by
  have hstart := muxRun_note c lib (.packetAlloc lib.allocPacket) (Progress.start io)
  have hloop := hstart.trans (packetLoop_muxRun c lib p packets _)
  obtain ⟨_, hrun⟩ := packetLoop_run c lib p hgraph packets
    ((Progress.start io).note (.packetAlloc lib.allocPacket))
  have hstop := hrun.stop
  simp only [transcodePackets, if_pos halloc]
  generalize packetLoop c lib p packets _ = r at hloop hstop ⊢
  obtain ⟨flow, rest, st⟩ := r
  have hflush : EndsFile c lib (Progress.start io) (flushAll c lib p st) := by
    obtain ⟨st', hst', hend⟩ := flushAll_endsFile c lib p st
    exact ⟨st', hloop.trans hst', hend⟩
  cases flow with
  | next => exact hflush
  | leave => exact hflush
  | stop code => exact ⟨st, hloop, (if_pos (hstop code rfl)).symm⟩

end

/-- The AVIO side after a set-up that opened a file: the header is written. -/
theorem prepare_io {c : Platform} {lib : Libav} {w : World} {request : Request}
    (h : 0 ≤ (prepare c lib w request).1)
    (hhandle : (prepare c lib w request).2.2.handle.isSome = true) :
    ∃ s : Session, audiofsAvioOpen c w.process request.toPath = (some s.handle, s.process) ∧
      (prepare c lib w request).2.2 =
        (⟨s.process, some s.handle⟩ : Io).run c lib.writeHeader.ops := by
  simp only [prepare] at h hhandle ⊢
  split_ifs at h hhandle ⊢ with hinput houtput
  · omega
  · omega
  · obtain ⟨hadd, hopen, hofile⟩ := openOutputFile_ok (not_lt.mp houtput)
    rw [hofile] at hhandle ⊢
    simp only at hhandle ⊢
    generalize (addStreams lib w.calls 0 _ ⟨[], lib.noFile, .null⟩ _).2.1 = out at hopen hhandle ⊢
    obtain ⟨-, -, -, hsome⟩ := openOutput_ok hopen
    have hfile : out.noFile = false := by
      by_contra hno
      simp [hsome, hno] at hhandle
    have halloc : lib.allocAvioContext = true := by
      by_contra hno
      simp [hsome, hno] at hhandle
    cases hcase : audiofsAvioOpen c w.process request.toPath with
    | mk handle process =>
      cases handle with
      | none => exact absurd hopen (by simp [openOutput, hfile, hcase])
      | some handle =>
        refine ⟨⟨process, handle⟩, rfl, ?_⟩
        simp [openOutput, hfile, hcase, writeHeader, halloc]

/-- The operations behind a handle that a call returns. -/
def fileOps (lib : Libav) (packets : List AVPacket) : List Op :=
  lib.writeHeader.ops ++ ((if lib.allocPacket then (muxer lib).complete packets else []) ++
    lib.flush packets)

theorem transcodePackets_io (c : Platform) (lib : Libav) (p : Pipeline) {graph : AVFilterGraph}
    (hgraph : p.filterGraph = some graph) (packets : List (Received AVPacket)) (io : Io)
    (h : 0 ≤ (transcodePackets c lib p packets io).1) :
    let t := transcodePackets c lib p packets io
    t.2.2.muxed = muxed t.2.2.log ∧
      t.2.2.io = io.run c (if lib.allocPacket then (muxer lib).complete t.2.2.muxed else []) := by
  obtain ⟨_, ⟨⟨new, hlog, hmuxed, -⟩, -, -⟩, -⟩ := transcodePackets_run c lib p hgraph packets io
  refine ⟨hmuxed.trans (congrArg muxed hlog).symm, ?_⟩
  by_cases halloc : lib.allocPacket = true
  · obtain ⟨st', hrun, hend⟩ := transcodePackets_endsFile c lib p hgraph halloc packets io
    obtain ⟨out, hout, hio⟩ := hrun.io
    rw [if_neg (not_lt.mpr h)] at hend
    have hout' : st'.muxed = out := hout
    rw [if_pos halloc]
    change (transcodePackets c lib p packets io).2.2 = _ at hend
    rw [hend]
    change st'.io.run c (lib.writeTrailer st'.muxed).ops = io.run c ((muxer lib).complete st'.muxed)
    rw [hio, Io.run_append, hout']
    rfl
  · simp only [transcodePackets, if_neg halloc, Io.run_nil]
    rfl

/-- The handle a call returns is the one it opened, after the operations of `fileOps`. -/
theorem handle_session {c : Platform} {lib : Libav} {w : World} {request : Request}
    {handle : AudiofsAvioHandle} (h : (doTranscode c lib w request).1.handle = some handle) :
    ∃ s : Session, audiofsAvioOpen c w.process request.toPath = (some s.handle, s.process) ∧
      let r := doTranscode c lib w request
      (⟨r.2.process, handle⟩ : Session) = final (step c) s (fileOps lib (muxed r.1.log)) := by
  have hsome : (doTranscode c lib w request).1.handle.isSome = true := by simp [h]
  obtain ⟨hret, p, hentered⟩ := entered_of_handle hsome
  obtain ⟨selected, d, out, hprep, hp, hrun⟩ := doTranscode_entered hentered
  have hgraph : p.filterGraph = some (filterGraphOf d (encoderContext lib d)) := by
    rw [hp]
    rfl
  have hset : 0 ≤ (prepare c lib w request).1 := by
    rw [hprep.ret]
    exact Int.natCast_nonneg selected
  rw [hrun] at h hret ⊢
  have hio := transcodePackets_io c lib p hgraph (request.input lib).packets
    (prepare c lib w request).2.2 hret
  generalize transcodePackets c lib p (request.input lib).packets _ = t at h hret hio ⊢
  obtain ⟨hmuxed, hio⟩ := hio
  have hret' : ¬ t.1 < 0 := not_lt.mpr hret
  simp only [leave, if_neg hret', extractedHandle, hprep.ofmtCtx] at h ⊢
  by_cases hfile : out.noFile = true
  · simp [hfile] at h
  simp only [if_neg hfile, hio] at h ⊢
  rw [Io.run_append] at h ⊢
  have hopened : (prepare c lib w request).2.2.handle.isSome = true := by
    rw [← Io.run_isSome c, h]
    rfl
  obtain ⟨s, hopen, hheader⟩ := prepare_io hset hopened
  rw [hheader, Io.run_append, hmuxed] at h ⊢
  refine ⟨s, hopen, ?_⟩
  have hhandle := Option.some.inj h
  rw [← hhandle]
  rfl

/-- The handle a call returns is the one it opened, after the operations for the header, for each
muxed packet, for the trailer and the flush, in this order and no others; what its buffer holds
is the image of the chunks stored by them. -/
theorem transcoded_file {c : Platform} {lib : Libav} {w : World} {request : Request}
    {handle : AudiofsAvioHandle} (h : (doTranscode c lib w request).1.handle = some handle) :
    ∃ s : Session, audiofsAvioOpen c w.process request.toPath = (some s.handle, s.process) ∧
      let r := doTranscode c lib w request
      let ops := fileOps lib (muxed r.1.log)
      (⟨r.2.process, handle⟩ : Session) = final (step c) s ops ∧
        (OpenedGranted c s → Shows c ⟨r.2.process, handle⟩ (image (trace (step c) s ops))) := by
  obtain ⟨s, hopen, hsession⟩ := handle_session h
  refine ⟨s, hopen, hsession, fun hgranted => ?_⟩
  rw [hsession]
  exact run_shows (opened_shows hgranted) _

theorem smooth_transcoded_file :
    ∃ handle, (doTranscode Platform.generous Libav.smooth World.start audioFirst).1.handle =
        some handle ∧
      ∃ s : Session, audiofsAvioOpen Platform.generous Process.start audioFirst.toPath =
          (some s.handle, s.process) ∧
        let r := doTranscode Platform.generous Libav.smooth World.start audioFirst
        let ops := fileOps Libav.smooth (muxed r.1.log)
        (⟨r.2.process, handle⟩ : Session) = final (step Platform.generous) s ops ∧
          (OpenedGranted Platform.generous s → Shows Platform.generous ⟨r.2.process, handle⟩
            (image (trace (step Platform.generous) s ops))) := by
  have hsome : (doTranscode Platform.generous Libav.smooth World.start
      audioFirst).1.handle.isSome = true := by decide +kernel
  obtain ⟨handle, hhandle⟩ := Option.isSome_iff_exists.mp hsome
  exact ⟨handle, hhandle, transcoded_file hhandle⟩

/-! ### The fingerprints -/

/-- The muxer's operations for these packets are writes of these chunks, fewer than `2 ^ 63` bytes
in all, behind whose image no text is counted. -/
structure WritesChunks (c : Platform) (lib : Libav) (packets : List AVPacket)
    (chunks : List Chunk) : Prop where
  ops : fileOps lib packets = chunks.map .write
  ends : EndsImage c chunks
  total : (concatenation chunks).length < 2 ^ 63

section
variable {c : Platform} (hc : c.Generous)
include hc

theorem generous_opened {p : Process} {s : Session}
    (h : audiofsAvioOpen c p memoryName = (some s.handle, s.process)) : OpenedGranted c s := by
  refine ⟨p, h, ?_⟩
  have hname : namesMemory memoryName = true := by decide
  have hprocess := congrArg Prod.snd h
  simp only [audiofsAvioOpen, Process.calloc, hc _ _, if_true, hname,
    Buffer.audiofsBufferAlloc_fresh] at hprocess
  rw [← hprocess]
  rfl

theorem generous_write_granted {s : Session} {bytes : List UInt8} (h : Shows c s bytes)
    (chunk : Chunk) : Granted (transition (step c) s (.write chunk)) := by
  obtain ⟨b, old, m, -, -⟩ := h
  have hspec := avioWrite_spec c m chunk
  simp only [Granted, transition, step]
  generalize audiofsAvioWrite c s chunk = r at hspec
  cases hspec with
  | negative _ => rfl
  | failed _ hres _ _ => exact hres.granted hc
  | stored _ _ _ _ _ _ _ _ hrefused => exact hrefused

theorem generous_writes_granted {s : Session} {bytes : List UInt8} (h : Shows c s bytes)
    (chunks : List Chunk) : ∀ t ∈ trace (step c) s (chunks.map .write), Granted t := by
  induction chunks generalizing s bytes with
  | nil => simp
  | cons chunk chunks ih =>
    rw [List.map_cons, trace_cons, List.forall_mem_cons]
    exact ⟨generous_write_granted hc h chunk, ih (step_shows h (.write chunk))⟩

theorem generous_extraction {s : Session} (h : OpenedGranted c s) (chunks : List Chunk) :
    ExtractionGranted c s chunks := by
  refine ⟨generous_writes_granted hc (opened_shows h) chunks, ?_⟩
  obtain ⟨b, bytes, m, -, -⟩ := run_shows (opened_shows h) (chunks.map .write)
  rcases extract_spec c m with ⟨-, -, hrefused⟩ | ⟨-, hcase⟩
  · exact hrefused
  · rw [if_pos (hc _ _)] at hcase
    exact hcase.2

/-- What a call's handle yields: the string at the start of the image of what its muxer wrote. -/
theorem transcoded_text {lib : Libav} {w : World} {request : Request}
    (hpath : request.toPath = memoryName) {handle : AudiofsAvioHandle}
    (h : (doTranscode c lib w request).1.handle = some handle) {chunks : List Chunk}
    (hwrites : WritesChunks c lib (muxed (doTranscode c lib w request).1.log) chunks) :
    (extractChromaprint c ⟨(doTranscode c lib w request).2.process, handle⟩).1.getD [] =
      Process.cString (overlays [] (chunks.map Chunk.bytes)) := by
  obtain ⟨s, hopen, hsession⟩ := handle_session h
  rw [hpath] at hopen
  have hgranted := generous_opened hc hopen
  rw [hsession, hwrites.ops]
  exact extracted_text c hgranted hwrites.ends hwrites.total
    (generous_extraction hc hgranted chunks)

end

theorem smooth_writes (c : Platform) (packets : List AVPacket) :
    WritesChunks c Libav.smooth packets [.one 65] := by
  have hsilent (before : List AVPacket) : (muxer Libav.smooth).outFrom before packets = [] := by
    induction packets generalizing before with
    | nil => rfl
    | cons packet packets ih => exact ih _
  refine ⟨?_, .inl (by decide), by decide⟩
  change [] ++ (((muxer Libav.smooth).outFrom [] packets ++ [.write (.one 65)]) ++ []) = _
  rw [hsilent]
  rfl

end AudioFS.Transcode
