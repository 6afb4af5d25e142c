import AudioFS.StreamSelection

/-!
# What the pipeline puts out

With a decoder, a filter graph and an encoder that obey the send/receive contract
the drain loops compute a cascade of transducers. At the end of the input the
filter graph and the encoder are ended one after the other. The decoder is not, so
the frames it still holds back never reach them.
-/

namespace AudioFS.Transcode
open AudioFS.CustomAvio

structure Histories where
  sent : List (Option AVPacket)
  pushed : List (Option AVFrame)
  encoded : List (Option AVFrame)
  muxed : List AVPacket

def Progress.histories (st : Progress) : Histories := ⟨st.sent, st.pushed, st.encoded, st.muxed⟩

@[simp] theorem histories_note (st : Progress) (e : Event) : (st.note e).histories = st.histories :=
  rfl

/-- The frame as the source passes it to the filter graph, and a filtered one as it passes it to
the encoder. -/
def setPts (frame : AVFrame) : AVFrame := { frame with pts := frame.bestEffortTimestamp }

def setPictType (frame : AVFrame) : AVFrame := { frame with pictType := 0 }

section
variable (c : Platform) (lib : Libav) (p : Pipeline)

theorem writePackets_histories (k : ℕ) (packets : List AVPacket)
    {ending : List (Received AVPacket)} (hending : ending = [] ∨ ending = [.failed AVERROR_EOF])
    (st : Progress) :
    let r := writePackets c lib p k (packets.map .got ++ ending) st
    0 ≤ r.1 → r.2.histories =
      { st.histories with muxed := st.histories.muxed ++ packets.map (stamp lib p k) } := by
  induction packets generalizing st with
  | nil =>
    rcases hending with rfl | rfl <;> simp [writePackets]
  | cons packet packets ih =>
    simp only [List.map_cons, List.cons_append, writePackets]
    split_ifs with hneg
    · intro h
      exact absurd h (not_le.mpr hneg)
    · intro h
      rw [ih _ h]
      simp [avInterleavedWriteFrame, Progress.histories, Progress.note]

variable {E : Transducer AVFrame AVPacket} (hE : (lib.encoder p.encCtx).Obeys E)
include hE

theorem encodeWriteFrame_histories (k : ℕ) (frame : AVFrame) (st : Progress)
    {frames : List AVFrame} (hst : st.histories.encoded = frames.map some) :
    let r := encodeWriteFrame c lib p k (some frame) st
    0 ≤ r.1 → r.2.histories = { st.histories with
      encoded := (frames ++ [frame]).map some
      muxed := st.histories.muxed ++ (E.emit frames frame).map (stamp lib p k) } := by
  obtain ⟨hcode, hreceived⟩ := hE.taken frames frame
  have hst' : st.encoded = frames.map some := hst
  have hwrite := writePackets_histories c lib p k (E.emit frames frame) (.inl rfl)
    (avcodecSendFrame lib p (some frame) st).2
  simp only [encodeWriteFrame, avcodecSendFrame, hst', hreceived, not_lt.mpr hcode, if_false]
  simpa [avcodecSendFrame, Progress.histories, Progress.note, hst'] using hwrite

theorem encodeWriteFrame_none (k : ℕ) {st : Progress} {frames : List AVFrame}
    (hst : st.histories.encoded = frames.map some) :
    let r := encodeWriteFrame c lib p k none st
    0 ≤ r.1 → r.2.histories.muxed =
      st.histories.muxed ++ (E.drain frames).map (stamp lib p k) := by
  obtain ⟨hcode, hreceived⟩ := hE.ended frames
  have hst' : st.encoded = frames.map some := hst
  have hwrite := writePackets_histories c lib p k (E.drain frames) (.inr rfl)
    (avcodecSendFrame lib p none st).2
  simp only [encodeWriteFrame, avcodecSendFrame, hst', hreceived, not_lt.mpr hcode, if_false]
  intro h
  simp only [avcodecSendFrame, hst'] at hwrite
  rw [hwrite h]
  rfl

theorem pullFrames_histories (k : ℕ) (filtered : List AVFrame)
    {ending : List (Received AVFrame)} (hending : ending = [] ∨ ending = [.failed AVERROR_EOF])
    (st : Progress) {frames : List AVFrame} (hst : st.histories.encoded = frames.map some) :
    let r := pullFrames c lib p k (filtered.map .got ++ ending) st
    0 ≤ r.1 → r.2.histories = { st.histories with
      encoded := (frames ++ filtered.map setPictType).map some
      muxed := st.histories.muxed ++
        (E.outFrom frames (filtered.map setPictType)).map (stamp lib p k) } := by
  induction filtered generalizing st frames with
  | nil =>
    rcases hending with rfl | rfl <;> simp [pullFrames, ← hst]
  | cons frame filtered ih =>
    have hencode := encodeWriteFrame_histories c lib p hE k (setPictType frame)
      (st.note (.getFrame 0)) hst
    simp only [List.map_cons, List.cons_append, pullFrames]
    split_ifs with hneg
    · intro h
      exact absurd h (not_le.mpr hneg)
    · intro h
      have hone := hencode (not_lt.mp hneg)
      have hrest := ih _ (congrArg Histories.encoded hone) h
      rw [hone] at hrest
      refine hrest.trans ?_
      simp [List.append_assoc]

variable {F : Transducer AVFrame AVFrame} {graph : AVFilterGraph}
  (hF : (lib.filter graph).Obeys F)
include hF

theorem filterEncodeWriteFrame_histories (k : ℕ) (frame : AVFrame) {st : Progress}
    {pushed frames : List AVFrame} (hpushed : st.histories.pushed = pushed.map some)
    (hst : st.histories.encoded = frames.map some) :
    let r := filterEncodeWriteFrame c lib p graph (some frame) k st
    let filtered := (F.emit pushed frame).map setPictType
    0 ≤ r.1 → r.2.histories =
      { sent := st.histories.sent
        pushed := (pushed ++ [frame]).map some
        encoded := (frames ++ filtered).map some
        muxed := st.histories.muxed ++ (E.outFrom frames filtered).map (stamp lib p k) } := by
  obtain ⟨hcode, hreceived⟩ := hF.taken pushed frame
  have hpushed' : st.pushed = pushed.map some := hpushed
  have hpull := pullFrames_histories c lib p hE k (F.emit pushed frame) (.inl rfl)
    (avBuffersrcAddFrame lib graph (some frame) st).2 hst
  simp only [filterEncodeWriteFrame, avBuffersrcAddFrame, hpushed', hreceived,
    not_lt.mpr hcode, if_false]
  simp only [avBuffersrcAddFrame, hpushed', List.append_nil] at hpull
  intro h
  rw [hpull h]
  simp [Progress.histories, Progress.note]

theorem filterEncodeWriteFrame_none (k : ℕ) {st : Progress} {pushed frames : List AVFrame}
    (hpushed : st.histories.pushed = pushed.map some)
    (hst : st.histories.encoded = frames.map some) :
    let r := filterEncodeWriteFrame c lib p graph none k st
    let filtered := (F.drain pushed).map setPictType
    0 ≤ r.1 → r.2.histories.encoded = (frames ++ filtered).map some ∧
      r.2.histories.muxed =
        st.histories.muxed ++ (E.outFrom frames filtered).map (stamp lib p k) := by
  obtain ⟨hcode, hreceived⟩ := hF.ended pushed
  have hpushed' : st.pushed = pushed.map some := hpushed
  have hpull := pullFrames_histories c lib p hE k (F.drain pushed) (.inr rfl)
    (avBuffersrcAddFrame lib graph none st).2 hst
  simp only [filterEncodeWriteFrame, avBuffersrcAddFrame, hpushed', hreceived,
    not_lt.mpr hcode, if_false]
  simp only [avBuffersrcAddFrame, hpushed'] at hpull
  intro h
  rw [hpull h]
  exact ⟨rfl, rfl⟩

end

section
variable (c : Platform) (lib : Libav) (p : Pipeline) (D : Transducer AVPacket AVFrame)
  (F : Transducer AVFrame AVFrame) (E : Transducer AVFrame AVPacket)

def filterStage : Transducer AVFrame AVFrame := F.adapt setPts setPictType

/-- The filter graph and the encoder, from the decoder's frames to the packets for the muxer. -/
def backend : Transducer AVFrame AVPacket :=
  (filterStage F).comp (E.adapt id (stamp lib p p.selected))

/-- The encoder's complete output for the filter graph's for the decoder's on the packets `xs`,
with the rewriting the source does between them. -/
def completeOutput (xs : List AVPacket) : List AVPacket :=
  (E.complete ((F.complete ((D.complete xs).map setPts)).map setPictType)).map
    (stamp lib p p.selected)

theorem completeOutput_eq (xs : List AVPacket) :
    completeOutput lib p D F E xs = (backend lib p F E).complete (D.complete xs) := by
  rw [backend, Transducer.complete_comp, filterStage, Transducer.complete_adapt,
    Transducer.complete_adapt, List.map_id]
  rfl

/-- The decoder took the packets `xs`, and the rest of the pipeline its frames `ys`. -/
structure Synced (xs : List AVPacket) (ys : List AVFrame) (st : Progress) : Prop where
  sent : st.histories.sent = xs.map some
  pushed : st.histories.pushed = (ys.map setPts).map some
  encoded : st.histories.encoded = ((filterStage F).out ys).map some
  muxed : st.histories.muxed = (backend lib p F E).out ys

variable {lib p F E} in
theorem Synced.note {xs : List AVPacket} {ys : List AVFrame} {st : Progress}
    (hst : Synced lib p F E xs ys st) (e : Event) : Synced lib p F E xs ys (st.note e) :=
  ⟨hst.sent, hst.pushed, hst.encoded, hst.muxed⟩

theorem backend_outFrom (ys : List AVFrame) (zs : List AVFrame) :
    (E.outFrom ys zs).map (stamp lib p p.selected) =
      (E.adapt id (stamp lib p p.selected)).outFrom ys zs := by
  rw [Transducer.outFrom_adapt, List.map_id, List.map_id]

theorem synced_start (io : Io) : Synced lib p F E [] [] (Progress.start io) := ⟨rfl, rfl, rfl, rfl⟩

variable {D F E} {graph : AVFilterGraph} (hE : (lib.encoder p.encCtx).Obeys E)
  (hF : (lib.filter graph).Obeys F)
include hE hF

theorem filterEncodeWriteFrame_synced (frame : AVFrame) {xs : List AVPacket} {ys : List AVFrame}
    {st : Progress} (hst : Synced lib p F E xs ys st) :
    let r := filterEncodeWriteFrame c lib p graph (some (setPts frame)) p.selected st
    0 ≤ r.1 → Synced lib p F E xs (ys ++ [frame]) r.2 := by
  intro r h
  have hr : r.2.histories = _ := filterEncodeWriteFrame_histories c lib p hE hF p.selected
    (setPts frame) hst.pushed hst.encoded h
  refine ⟨?_, ?_, ?_, ?_⟩
  · rw [hr]
    exact hst.sent
  · simp [hr]
  · rw [hr, Transducer.out_concat]
    rfl
  · rw [hr, hst.muxed, Transducer.out_concat, backend_outFrom]
    rfl

theorem receiveFrames_synced (frames : List AVFrame) {xs : List AVPacket} {ys : List AVFrame}
    {st : Progress} (hst : Synced lib p F E xs ys st) :
    let r := receiveFrames c lib p graph p.selected (frames.map .got) st
    0 ≤ r.1.code → r.1 = .next ∧ Synced lib p F E xs (ys ++ frames) r.2 := by
  induction frames generalizing ys st with
  | nil =>
    intro r h
    refine ⟨rfl, ?_⟩
    rw [List.append_nil]
    exact hst.note _
  | cons frame frames ih =>
    have hfilter := filterEncodeWriteFrame_synced c lib p hE hF frame (hst.note (.receiveFrame 0))
    simp only [List.map_cons, receiveFrames]
    split_ifs with hneg
    · intro h
      exact absurd h (not_le.mpr hneg)
    · intro h
      rw [← List.singleton_append, ← List.append_assoc]
      exact ih (hfilter (not_lt.mp hneg)) h

variable (hD : (lib.decoder p.decCtx).Obeys D)
include hD

theorem transcodePacket_synced {packet : AVPacket} (hsel : packet.streamIndex = p.selected)
    {xs : List AVPacket} {st : Progress} (hst : Synced lib p F E xs (D.out xs) st) :
    let r := transcodePacket c lib p graph packet st
    let xs' := xs ++ [p.toDecoder lib packet]
    0 ≤ r.1.code → r.1 = .next ∧ Synced lib p F E xs' (D.out xs') r.2 := by
  obtain ⟨hcode, hreceived⟩ := hD.taken xs (p.toDecoder lib packet)
  have hsent : st.sent = xs.map some := hst.sent
  have hsend : Synced lib p F E (xs ++ [p.toDecoder lib packet]) (D.out xs)
      (avcodecSendPacket lib p packet st).2 :=
    ⟨by simp [avcodecSendPacket, Progress.histories, hsent], hst.pushed, hst.encoded, hst.muxed⟩
  have hreceive := receiveFrames_synced c lib p hE hF (D.emit xs (p.toDecoder lib packet)) hsend
  simp only [transcodePacket, avcodecSendPacket, hsent, hreceived, not_lt.mpr hcode, if_false,
    hsel] at hreceive ⊢
  rw [Transducer.out_concat]
  exact hreceive

theorem packetLoop_synced (hgraph : p.filterGraph = some graph) (packets : List AVPacket)
    {xs : List AVPacket} {st : Progress} (hst : Synced lib p F E xs (D.out xs) st) :
    let r := packetLoop c lib p (packets.map .got) st
    let xs' := xs ++ p.decoderInput lib packets
    0 ≤ r.1.code → r.1 = .leave ∧ Synced lib p F E xs' (D.out xs') r.2.2 := by
  induction packets generalizing xs st with
  | nil =>
    intro r xs' h
    refine ⟨rfl, ?_⟩
    rw [show xs' = xs from List.append_nil xs]
    exact hst.note _
  | cons packet packets ih =>
    by_cases hsel : packet.streamIndex = p.selected
    · have hpacket := transcodePacket_synced c lib p hE hF hD hsel (hst.note (.readFrame 0))
      simp only [List.map_cons, packetLoop, hsel, ne_eq, not_true_eq_false, if_false, hgraph,
        decoderInput_of_selected hsel]
      rw [List.append_cons]
      generalize transcodePacket c lib p graph packet (st.note (.readFrame 0)) = r at hpacket ⊢
      obtain ⟨flow, st'⟩ := r
      cases flow with
      | next =>
        intro h
        exact ih ((hpacket le_rfl).2.note _) h
      | leave => exact fun _ => absurd (hpacket le_rfl).1 (by simp)
      | stop code => exact fun h => absurd (hpacket h).1 (by simp)
    · simp only [List.map_cons, packetLoop, hsel, ne_eq, not_false_eq_true, if_true,
        decoderInput_of_other hsel]
      exact ih (hst.note _)

omit hD hF in
theorem finish_muxed (hdelay : lib.encoderDelay = false → ∀ frames, E.drain frames = [])
    {frames : List AVFrame} {st : Progress} (hst : st.histories.encoded = frames.map some)
    (h : 0 ≤ (finish c lib p st).1) :
    ∃ st', (finish c lib p st).2 = avWriteTrailer c lib st' ∧
      st'.histories.muxed =
        st.histories.muxed ++ (E.drain frames).map (stamp lib p p.selected) := by
  have hencode := encodeWriteFrame_none c lib p hE p.selected hst
  cases hcap : lib.encoderDelay with
  | true =>
    simp only [finish, flushEncoder, hcap, if_true] at h ⊢
    split_ifs at h ⊢ with hneg
    · exact absurd h (not_le.mpr hneg)
    · exact ⟨_, rfl, hencode (not_lt.mp hneg)⟩
  | false =>
    refine ⟨st, ?_, ?_⟩
    · simp [finish, flushEncoder, hcap]
    · rw [hdelay hcap, List.map_nil, List.append_nil]

omit hD in
theorem flushAll_muxed (hgraph : p.filterGraph = some graph)
    (hdelay : lib.encoderDelay = false → ∀ frames, E.drain frames = [])
    {xs : List AVPacket} {ys : List AVFrame} {st : Progress} (hst : Synced lib p F E xs ys st)
    (h : 0 ≤ (flushAll c lib p st).1) :
    ∃ st', (flushAll c lib p st).2 = avWriteTrailer c lib st' ∧
      st'.histories.muxed = (backend lib p F E).complete ys := by
  have hfilter := filterEncodeWriteFrame_none c lib p hE hF p.selected hst.pushed hst.encoded
  simp only [flushAll, hgraph] at h ⊢
  generalize filterEncodeWriteFrame c lib p graph none p.selected st = r at hfilter h ⊢
  split_ifs at h ⊢ with hneg
  · exact absurd h (not_le.mpr hneg)
  · obtain ⟨hencoded, hmuxed⟩ := hfilter (not_lt.mp hneg)
    obtain ⟨st', hst', hdrained⟩ := finish_muxed c lib p hE hdelay hencoded h
    refine ⟨st', hst', ?_⟩
    rw [hdrained, hmuxed, hst.muxed, backend_outFrom, Transducer.complete, List.append_assoc]
    congr 2
    simp [filterStage, Transducer.adapt, Transducer.complete]

theorem transcodePackets_muxed (hgraph : p.filterGraph = some graph)
    (hdelay : lib.encoderDelay = false → ∀ frames, E.drain frames = [])
    (halloc : lib.allocPacket = true) (packets : List AVPacket) (io : Io)
    (h : 0 ≤ (transcodePackets c lib p (packets.map .got) io).1) :
    ∃ st', (transcodePackets c lib p (packets.map .got) io).2.2 = avWriteTrailer c lib st' ∧
      st'.histories.muxed =
        (backend lib p F E).complete (D.out (p.decoderInput lib packets)) := by
  have hloop := packetLoop_synced c lib p hE hF hD hgraph packets
    ((synced_start lib p F E io).note (.packetAlloc lib.allocPacket))
  simp only [transcodePackets, halloc, if_true] at h hloop ⊢
  generalize packetLoop c lib p (packets.map .got) _ = r at hloop h ⊢
  obtain ⟨flow, rest, st⟩ := r
  cases flow with
  | next => exact absurd (hloop le_rfl).1 (by simp)
  | leave => exact flushAll_muxed c lib p hE hF hgraph hdelay (hloop le_rfl).2 h
  | stop code => exact absurd (hloop h).1 (by simp)

end

/-- The trailer is written last, and what was muxed is what the whole cascade puts out. -/
structure AudioComplete (log : List Event) (output : List AVPacket) : Prop where
  trailer : ∃ code, log.getLast? = some (.writeTrailer code)
  muxed : muxed log = output

/-- In a run without a failing call, what is muxed is the complete output of filter graph and
encoder on what the decoder puts out before the end of its input. -/
theorem entered_muxed (c : Platform) (lib : Libav) (w : World) (request : Request)
    {p : Pipeline} (h : (doTranscode c lib w request).1.entered = some p)
    {packets : List AVPacket} (hpackets : (request.input lib).packets = packets.map .got)
    {graph : AVFilterGraph} (hgraph : p.filterGraph = some graph)
    {D : Transducer AVPacket AVFrame} (hD : (lib.decoder p.decCtx).Obeys D)
    {F : Transducer AVFrame AVFrame} (hF : (lib.filter graph).Obeys F)
    {E : Transducer AVFrame AVPacket} (hE : (lib.encoder p.encCtx).Obeys E)
    (hdelay : lib.encoderDelay = false → ∀ frames, E.drain frames = [])
    (hok : ∀ e ∈ (doTranscode c lib w request).1.log, ¬ e.Failed) :
    AudioComplete (doTranscode c lib w request).1.log
      ((backend lib p F E).complete (D.out (p.decoderInput lib packets))) := by
  have hret : 0 ≤ (doTranscode c lib w request).1.ret := by
    by_contra hneg
    obtain ⟨e, he, hfail⟩ := (entered_segment h).1.failing.mp (not_le.mp hneg)
    exact hok e he (.inl hfail)
  obtain ⟨selected, d, out, -, -, hrun⟩ := doTranscode_entered h
  rw [hrun] at hok hret ⊢
  simp only [leave, hpackets] at hok hret ⊢
  have halloc : lib.allocPacket = true := by
    cases hgranted : lib.allocPacket with
    | true => rfl
    | false =>
      refine absurd (.inr rfl) (hok (.packetAlloc false) ?_)
      simp [transcodePackets, hgranted, Progress.start, Progress.note]
  obtain ⟨feeds, ⟨⟨new, hlog, hmux, -⟩, -, -⟩, -⟩ := transcodePackets_run c lib p hgraph
    (packets.map .got) (prepare c lib w request).2.2
  obtain ⟨st', hst', hmuxed⟩ := transcodePackets_muxed c lib p hE hF hD hgraph hdelay halloc
    packets (prepare c lib w request).2.2 hret
  generalize transcodePackets c lib p (packets.map .got) (prepare c lib w request).2.2 = t at *
  refine ⟨⟨(lib.writeTrailer st'.muxed).code, ?_⟩, ?_⟩
  · rw [hst']
    exact List.getLast?_concat
  · calc muxed t.2.2.log = muxed new := congrArg muxed hlog
      _ = t.2.2.muxed := hmux.symm
      _ = (avWriteTrailer c lib st').muxed := congrArg Progress.muxed hst'
      _ = _ := hmuxed

/-- In a run without a failing call, of components that obey the contract, no audio is lost or
duplicated exactly when the frames that the decoder releases at the end of its input change
nothing in what the filter graph and the encoder put out. -/
theorem audio_complete_iff (c : Platform) (lib : Libav) (w : World) (request : Request)
    {p : Pipeline} (h : (doTranscode c lib w request).1.entered = some p)
    {packets : List AVPacket} (hpackets : (request.input lib).packets = packets.map .got)
    {graph : AVFilterGraph} (hgraph : p.filterGraph = some graph)
    {D : Transducer AVPacket AVFrame} (hD : (lib.decoder p.decCtx).Obeys D)
    {F : Transducer AVFrame AVFrame} (hF : (lib.filter graph).Obeys F)
    {E : Transducer AVFrame AVPacket} (hE : (lib.encoder p.encCtx).Obeys E)
    (hdelay : lib.encoderDelay = false → ∀ frames, E.drain frames = [])
    (hok : ∀ e ∈ (doTranscode c lib w request).1.log, ¬ e.Failed) :
    AudioComplete (doTranscode c lib w request).1.log
        (completeOutput lib p D F E (p.decoderInput lib packets)) ↔
      (backend lib p F E).Inert (D.out (p.decoderInput lib packets))
        (D.drain (p.decoderInput lib packets)) := by
  obtain ⟨htrailer, hmuxed⟩ := entered_muxed c lib w request h hpackets hgraph hD hF hE hdelay hok
  rw [← Transducer.complete_append_eq_iff, completeOutput_eq, ← hmuxed]
  constructor
  · intro hcomplete
    exact hcomplete.muxed.symm
  · intro heq
    exact ⟨htrailer, heq.symm⟩

def lateDecoder : Transducer AVPacket AVFrame :=
  .delay fun packet => ⟨packet.timing.pts, packet.timing.pts, 0, packet.data⟩

/-- A filter graph and an encoder that hold their last frame back until they are ended. -/
def Libav.late : Libav :=
  { Libav.smooth with
    filter := fun _ => .of (.delay id)
    encoder := fun _ => .of (.delay fun frame => ⟨0, ⟨frame.pts, frame.pts, 0⟩, frame.samples⟩)
    encoderDelay := true }

theorem smooth_audio_complete :
    (∃ output : List AVPacket, output.map AVPacket.data = [[8]] ∧
      AudioComplete (doTranscode Platform.generous Libav.smooth World.start audioFirst).1.log
        output) ∧
    ∃ output : List AVPacket, output.map AVPacket.data = [[8]] ∧
      AudioComplete (doTranscode Platform.generous Libav.late World.start audioFirst).1.log
        output :=
  ⟨⟨_, by decide +kernel,
    (audio_complete_iff Platform.generous Libav.smooth World.start audioFirst rfl rfl
      rfl (eager_obeys _) (eager_obeys _) (eager_obeys _) (fun _ _ => rfl)
      (by decide +kernel)).mpr (Transducer.inert_nil _ _)⟩,
    _, by decide +kernel,
    (audio_complete_iff Platform.generous Libav.late World.start audioFirst rfl rfl
      rfl (eager_obeys _) (Component.of_obeys _) (Component.of_obeys _) (fun hdelay => by
        exact absurd hdelay (by decide)) (by decide +kernel)).mpr (Transducer.inert_nil _ _)⟩

/-- The frame that a decoder holds back never reaches the muxer. -/
theorem held_back_frame_is_lost :
    ¬ ∀ (c : Platform) (lib : Libav) (w : World) (request : Request) (p : Pipeline)
      (packets : List AVPacket) (graph : AVFilterGraph) (D : Transducer AVPacket AVFrame)
      (F : Transducer AVFrame AVFrame) (E : Transducer AVFrame AVPacket),
      (doTranscode c lib w request).1.entered = some p →
      (request.input lib).packets = packets.map .got →
      p.filterGraph = some graph →
      (lib.decoder p.decCtx).Obeys D → (lib.filter graph).Obeys F →
      (lib.encoder p.encCtx).Obeys E →
      (lib.encoderDelay = false → ∀ frames, E.drain frames = []) →
      (∀ e ∈ (doTranscode c lib w request).1.log, ¬ e.Failed) →
      AudioComplete (doTranscode c lib w request).1.log
        (completeOutput lib p D F E (p.decoderInput lib packets)) := by
  intro h
  have hcomplete := h Platform.generous
    { Libav.smooth with decoder := fun _ => .of lateDecoder } World.start audioFirst _
    [.plain 1 7, .plain 0 8] _ lateDecoder _ _ rfl rfl rfl (Component.of_obeys _) (eager_obeys _)
    (eager_obeys _) (fun _ _ => rfl) (by decide +kernel)
  exact absurd hcomplete.muxed (by decide +kernel)

end AudioFS.Transcode
