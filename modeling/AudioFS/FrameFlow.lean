import AudioFS.TranscodeOutput

/-!
# What is handed on between the parts

Whatever the library answers, its parts are transducers of what they are sent,
the end of their input included. The loops pass on what comes out of one part to
the next one, in order, nothing twice and nothing left out, as far as the run
gets: everything when it returns without a failure.
-/

namespace AudioFS.Transcode
open AudioFS.CustomAvio Transducer

/-- The results of receive calls up to the first that fails. -/
def gotten {α : Type*} : List (Received α) → List α
  | .got value :: rest => value :: gotten rest
  | _ => []

def Reply.values {α : Type*} (reply : Reply α) : List α :=
  if reply.code < 0 then [] else gotten reply.received

/-- What `encode_write_frame` takes for packets: only the two errors it knows end them, after
another one it muxes the packet as `av_packet_unref` left it. -/
def packetsOf : List (Received AVPacket) → List AVPacket
  | [] => []
  | .got packet :: rest => packet :: packetsOf rest
  | .failed error :: rest =>
    if error = AVERROR_EAGAIN ∨ error = AVERROR_EOF then [] else .blank :: packetsOf rest

def Reply.packets (reply : Reply AVPacket) : List AVPacket :=
  if reply.code < 0 then [] else packetsOf reply.received

/-- A part of the pipeline by what a caller takes from its replies. -/
def Component.taken {α β γ : Type*} (C : Component α β) (take : Reply β → List γ) :
    Transducer (Option α) γ where
  emit before x := take (C (before ++ [x]))
  drain _ := []

section
variable (lib : Libav) (p : Pipeline) (graph : AVFilterGraph)

/-- The frames for the filter graph, for the encoder and the packets for the muxer, by what the
part before them was sent. -/
def toFilter (sent : List (Option AVPacket)) : List (Option AVFrame) :=
  (((lib.decoder p.decCtx).taken Reply.values).out sent).map fun frame => some (setPts frame)

def toEncoder (pushed : List (Option AVFrame)) : List (Option AVFrame) :=
  (((lib.filter graph).taken Reply.values).out pushed).map fun frame => some (setPictType frame)

def toMuxer (encoded : List (Option AVFrame)) : List AVPacket :=
  (((lib.encoder p.encCtx).taken Reply.packets).out encoded).map (stamp lib p p.selected)

theorem toFilter_concat (sent : List (Option AVPacket)) (x : Option AVPacket) :
    toFilter lib p (sent ++ [x]) = toFilter lib p sent ++
      (lib.decoder p.decCtx (sent ++ [x])).values.map fun frame => some (setPts frame) := by
  rw [toFilter, Transducer.out_concat, List.map_append]
  rfl

theorem toEncoder_concat (pushed : List (Option AVFrame)) (x : Option AVFrame) :
    toEncoder lib graph (pushed ++ [x]) = toEncoder lib graph pushed ++
      (lib.filter graph (pushed ++ [x])).values.map fun frame => some (setPictType frame) := by
  rw [toEncoder, Transducer.out_concat, List.map_append]
  rfl

theorem toMuxer_concat (encoded : List (Option AVFrame)) (x : Option AVFrame) :
    toMuxer lib p (encoded ++ [x]) = toMuxer lib p encoded ++
      (lib.encoder p.encCtx (encoded ++ [x])).packets.map (stamp lib p p.selected) := by
  rw [toMuxer, Transducer.out_concat, List.map_append]
  rfl

/-- Where the loops of the drained parts stand between two inputs of the filter graph. -/
structure Balanced (ok : Prop) (st : Progress) : Prop where
  encoded : UpTo ok st.encoded (toEncoder lib graph st.pushed)
  muxed : UpTo ok st.muxed (toMuxer lib p st.encoded)

variable {lib p graph} in
theorem Balanced.note {ok : Prop} {st : Progress} (h : Balanced lib p graph ok st) (e : Event) :
    Balanced lib p graph ok (st.note e) := ⟨h.encoded, h.muxed⟩

variable {lib p graph} in
theorem Balanced.mono {ok ok' : Prop} {st : Progress} (h : Balanced lib p graph ok st)
    (hok : ok' → ok) : Balanced lib p graph ok' st := ⟨h.encoded.mono hok, h.muxed.mono hok⟩

variable (c : Platform)

theorem writePackets_flow (answers : List (Received AVPacket)) (st : Progress) :
    let r := writePackets c lib p p.selected answers st
    ∃ out, r.2.histories = { st.histories with muxed := st.muxed ++ out } ∧
      UpTo (0 ≤ r.1) out ((packetsOf answers).map (stamp lib p p.selected)) := by
  -- one packet for the muxer, and the loop goes on unless the muxer fails
  have hmux (packet : AVPacket) (rest : List (Received AVPacket)) (st st' : Progress)
      (hst : st'.histories = st.histories)
      (ih : ∀ st, ∃ out, (writePackets c lib p p.selected rest st).2.histories =
          { st.histories with muxed := st.muxed ++ out } ∧
        UpTo (0 ≤ (writePackets c lib p p.selected rest st).1) out
          ((packetsOf rest).map (stamp lib p p.selected))) :
      let w := avInterleavedWriteFrame c lib (stamp lib p p.selected packet) st'
      let r := if w.1 < 0 then w else writePackets c lib p p.selected rest w.2
      ∃ out, r.2.histories = { st.histories with muxed := st.muxed ++ out } ∧
        UpTo (0 ≤ r.1) out ((packet :: packetsOf rest).map (stamp lib p p.selected)) := by
    have hw : (avInterleavedWriteFrame c lib (stamp lib p p.selected packet) st').2.histories =
        { st.histories with muxed := st.muxed ++ [stamp lib p p.selected packet] } := by
      rw [← hst]
      have hmuxed : st'.muxed = st.muxed := congrArg Histories.muxed hst
      rw [← hmuxed]
      rfl
    intro w r
    by_cases hneg : w.1 < 0
    · have hr : r = w := if_pos hneg
      rw [hr]
      exact ⟨_, hw, UpTo.stopped (not_le.mpr hneg) (by simp)⟩
    · have hr : r = writePackets c lib p p.selected rest w.2 := if_neg hneg
      obtain ⟨out, hout, hupto⟩ := ih w.2
      have hmuxed : w.2.muxed = st.muxed ++ [stamp lib p p.selected packet] :=
        congrArg Histories.muxed hw
      rw [hr]
      refine ⟨stamp lib p p.selected packet :: out, ?_, hupto.append [_]⟩
      rw [hout, hmuxed, hw, List.append_assoc]
      rfl
  induction answers generalizing st with
  | nil => exact ⟨[], by simp [writePackets, Progress.histories, Progress.note], .of_eq rfl⟩
  | cons answer rest ih =>
    cases answer with
    | got packet =>
      simp only [writePackets, packetsOf]
      exact hmux packet rest st (st.note (.receivePacket (.got packet))) rfl ih
    | failed error =>
      simp only [writePackets, packetsOf]
      by_cases hend : error = AVERROR_EAGAIN ∨ error = AVERROR_EOF
      · simp only [if_pos hend]
        exact ⟨[], by simp [Progress.histories, Progress.note], .of_eq rfl⟩
      · simp only [if_neg hend]
        exact hmux .blank rest st (st.note (.receivePacket (.failed error))) rfl ih

theorem encodeWriteFrame_flow (frame : Option AVFrame) (st : Progress)
    (hst : st.muxed = toMuxer lib p st.encoded) :
    let r := encodeWriteFrame c lib p p.selected frame st
    r.2.sent = st.sent ∧ r.2.pushed = st.pushed ∧ r.2.encoded = st.encoded ++ [frame] ∧
      UpTo (0 ≤ r.1) r.2.muxed (toMuxer lib p r.2.encoded) := by
  have hpackets := toMuxer_concat lib p st.encoded frame
  have hsent : (avcodecSendFrame lib p frame st).2.histories =
      { st.histories with encoded := st.encoded ++ [frame] } := rfl
  by_cases hneg : (lib.encoder p.encCtx (st.encoded ++ [frame])).code < 0
  · have hr : encodeWriteFrame c lib p p.selected frame st =
        ((avcodecSendFrame lib p frame st).1.code, (avcodecSendFrame lib p frame st).2) :=
      if_pos hneg
    rw [hr]
    refine ⟨rfl, rfl, rfl, UpTo.of_eq ?_⟩
    change st.muxed = toMuxer lib p (st.encoded ++ [frame])
    rw [hpackets, Reply.packets, if_pos hneg, List.map_nil, List.append_nil]
    exact hst
  · have hr : encodeWriteFrame c lib p p.selected frame st = writePackets c lib p p.selected
        (avcodecSendFrame lib p frame st).1.received (avcodecSendFrame lib p frame st).2 :=
      if_neg hneg
    obtain ⟨out, hout, hupto⟩ := writePackets_flow lib p c
      (avcodecSendFrame lib p frame st).1.received (avcodecSendFrame lib p frame st).2
    rw [hr]
    generalize writePackets c lib p p.selected _ _ = w at hout hupto ⊢
    have hencoded : w.2.encoded = st.encoded ++ [frame] := congrArg Histories.encoded hout
    have hmuxed : w.2.muxed = st.muxed ++ out := congrArg Histories.muxed hout
    refine ⟨congrArg Histories.sent hout, congrArg Histories.pushed hout, hencoded, ?_⟩
    rw [hmuxed, hencoded, hpackets, Reply.packets, if_neg hneg, hst]
    exact hupto.append _

theorem pullFrames_flow (answers : List (Received AVFrame)) (st : Progress)
    (hst : st.muxed = toMuxer lib p st.encoded) :
    let r := pullFrames c lib p p.selected answers st
    r.2.sent = st.sent ∧ r.2.pushed = st.pushed ∧
      UpTo (0 ≤ r.1) r.2.encoded
        (st.encoded ++ (gotten answers).map fun frame => some (setPictType frame)) ∧
      UpTo (0 ≤ r.1) r.2.muxed (toMuxer lib p r.2.encoded) := by
  induction answers generalizing st with
  | nil => exact ⟨rfl, rfl, .of_eq (List.append_nil _).symm, .of_eq hst⟩
  | cons answer rest ih =>
    cases answer with
    | failed error => exact ⟨rfl, rfl, .of_eq (List.append_nil _).symm, .of_eq hst⟩
    | got frame =>
      obtain ⟨hsent, hpushed, hencoded, hmuxed⟩ :=
        encodeWriteFrame_flow lib p c (some (setPictType frame)) (st.note (.getFrame 0)) hst
      simp only [pullFrames, gotten, List.map_cons]
      rw [List.append_cons]
      split_ifs with hneg
      · refine ⟨hsent, hpushed, UpTo.stopped (not_le.mpr hneg) ?_, hmuxed⟩
        exact ⟨_, congrArg (· ++ _) hencoded⟩
      · obtain ⟨hsent', hpushed', hencoded', hmuxed'⟩ := ih _ (hmuxed.whole (not_lt.mp hneg))
        refine ⟨hsent'.trans hsent, hpushed'.trans hpushed, ?_, hmuxed'⟩
        exact hencoded ▸ hencoded'

theorem filterEncodeWriteFrame_flow (frame : Option AVFrame) {st : Progress}
    (hst : Balanced lib p graph True st) :
    let r := filterEncodeWriteFrame c lib p graph frame p.selected st
    r.2.sent = st.sent ∧ r.2.pushed = st.pushed ++ [frame] ∧
      Balanced lib p graph (0 ≤ r.1) r.2 := by
  have hencoded := hst.encoded.whole trivial
  have hmuxed := hst.muxed.whole trivial
  have hframes := toEncoder_concat lib graph st.pushed frame
  by_cases hneg : (lib.filter graph (st.pushed ++ [frame])).code < 0
  · have hr : filterEncodeWriteFrame c lib p graph frame p.selected st =
        ((avBuffersrcAddFrame lib graph frame st).1.code,
          (avBuffersrcAddFrame lib graph frame st).2) := if_pos hneg
    rw [hr]
    refine ⟨rfl, rfl, .of_eq ?_, .of_eq hmuxed⟩
    change st.encoded = toEncoder lib graph (st.pushed ++ [frame])
    rw [hframes, Reply.values, if_pos hneg, List.map_nil, List.append_nil]
    exact hencoded
  · have hr : filterEncodeWriteFrame c lib p graph frame p.selected st =
        pullFrames c lib p p.selected (avBuffersrcAddFrame lib graph frame st).1.received
          (avBuffersrcAddFrame lib graph frame st).2 := if_neg hneg
    obtain ⟨hsent, hpushed, hencoded', hmuxed'⟩ := pullFrames_flow lib p c
      (avBuffersrcAddFrame lib graph frame st).1.received
      (avBuffersrcAddFrame lib graph frame st).2 hmuxed
    rw [hr]
    refine ⟨hsent, hpushed, ?_, hmuxed'⟩
    rw [hpushed]
    change UpTo _ _ (toEncoder lib graph (st.pushed ++ [frame]))
    rw [hframes, Reply.values, if_neg hneg, ← hencoded]
    exact hencoded'

theorem receiveFrames_flow (answers : List (Received AVFrame)) {st : Progress}
    (hst : Balanced lib p graph True st) :
    let r := receiveFrames c lib p graph p.selected answers st
    r.2.sent = st.sent ∧
      UpTo (0 ≤ r.1.code) r.2.pushed
        (st.pushed ++ (gotten answers).map fun frame => some (setPts frame)) ∧
      Balanced lib p graph (0 ≤ r.1.code) r.2 := by
  induction answers generalizing st with
  | nil => exact ⟨rfl, .of_eq (List.append_nil _).symm, (hst.note _).mono fun _ => trivial⟩
  | cons answer rest ih =>
    cases answer with
    | failed error =>
      exact ⟨rfl, .of_eq (List.append_nil _).symm, (hst.note _).mono fun _ => trivial⟩
    | got frame =>
      obtain ⟨hsent, hpushed, hst'⟩ := filterEncodeWriteFrame_flow lib p graph c
        (some (setPts frame)) (hst.note (.receiveFrame 0))
      have hr : receiveFrames c lib p graph p.selected (.got frame :: rest) st =
          let f := filterEncodeWriteFrame c lib p graph (some (setPts frame)) p.selected
            (st.note (.receiveFrame 0))
          if f.1 < 0 then (.stop f.1, f.2)
          else receiveFrames c lib p graph p.selected rest f.2 := rfl
      rw [hr]
      generalize filterEncodeWriteFrame c lib p graph _ p.selected _ = f at hsent hpushed hst' ⊢
      have hpushed' : f.2.pushed = st.pushed ++ [some (setPts frame)] := hpushed
      rw [gotten, List.map_cons, List.append_cons, ← hpushed']
      by_cases hneg : f.1 < 0
      · simp only [if_pos hneg]
        exact ⟨hsent, .stopped (not_le.mpr hneg) (List.prefix_append _ _), hst'⟩
      · obtain ⟨hsent', hrest⟩ := ih (hst'.mono fun _ => not_lt.mp hneg)
        simp only [if_neg hneg]
        exact ⟨hsent'.trans hsent, hrest⟩

/-- The same for the decoder's frames, between two packets. -/
structure UpToDate (ok : Prop) (st : Progress) : Prop extends Balanced lib p graph ok st where
  pushed : UpTo ok st.pushed (toFilter lib p st.sent)

variable {lib p graph} in
theorem UpToDate.mono {ok ok' : Prop} {st : Progress} (h : UpToDate lib p graph ok st)
    (hok : ok' → ok) : UpToDate lib p graph ok' st := ⟨h.toBalanced.mono hok, h.pushed.mono hok⟩

variable {lib p graph} in
theorem UpToDate.note {ok : Prop} {st : Progress} (h : UpToDate lib p graph ok st) (e : Event) :
    UpToDate lib p graph ok (st.note e) := ⟨h.toBalanced.note e, h.pushed⟩

theorem transcodePacket_flow {packet : AVPacket} (hsel : packet.streamIndex = p.selected)
    {st : Progress} (hst : UpToDate lib p graph True st) :
    let r := transcodePacket c lib p graph packet st
    r.2.sent = st.sent ++ [some (p.toDecoder lib packet)] ∧
      UpToDate lib p graph (0 ≤ r.1.code) r.2 := by
  have hpushed := hst.pushed.whole trivial
  have hframes := toFilter_concat lib p st.sent (some (p.toDecoder lib packet))
  by_cases hneg : (lib.decoder p.decCtx (st.sent ++ [some (p.toDecoder lib packet)])).code < 0
  · have hr : transcodePacket c lib p graph packet st =
        (.leave, (avcodecSendPacket lib p packet st).2) := if_pos hneg
    rw [hr]
    refine ⟨rfl, ⟨hst.encoded.mono fun _ => trivial, hst.muxed.mono fun _ => trivial⟩, .of_eq ?_⟩
    change st.pushed = toFilter lib p (st.sent ++ [some (p.toDecoder lib packet)])
    rw [hframes, Reply.values, if_pos hneg, List.map_nil, List.append_nil]
    exact hpushed
  · have hr : transcodePacket c lib p graph packet st =
        receiveFrames c lib p graph p.selected (avcodecSendPacket lib p packet st).1.received
          (avcodecSendPacket lib p packet st).2 := (if_neg hneg).trans (by rw [hsel])
    have hsend : Balanced lib p graph True (avcodecSendPacket lib p packet st).2 :=
      ⟨hst.encoded, hst.muxed⟩
    obtain ⟨hsent, hpushed', hst'⟩ := receiveFrames_flow lib p graph c
      (avcodecSendPacket lib p packet st).1.received hsend
    rw [hr]
    refine ⟨hsent, hst', ?_⟩
    rw [hsent]
    change UpTo _ _ (toFilter lib p (st.sent ++ [some (p.toDecoder lib packet)]))
    rw [hframes, Reply.values, if_neg hneg, ← hpushed]
    exact hpushed'

/-- The decoder was sent the packets `fed`, in order, and the rest of the stream is unread. -/
def Fed (packets : List (Received AVPacket)) (before : List (Option AVPacket))
    (rest : List (Received AVPacket)) (st : Progress) : Prop :=
  ∃ fed, st.sent = before ++ fed.map (fun packet => some (p.toDecoder lib packet)) ∧
    fed ++ ofStream p.selected rest = ofStream p.selected packets

theorem packetLoop_flow (hgraph : p.filterGraph = some graph) (packets : List (Received AVPacket))
    {st : Progress} (hst : UpToDate lib p graph True st) :
    let r := packetLoop c lib p packets st
    Fed lib p packets st.sent r.2.1 r.2.2 ∧ UpToDate lib p graph (0 ≤ r.1.code) r.2.2 := by
  induction packets generalizing st with
  | nil => exact ⟨⟨[], (List.append_nil _).symm, rfl⟩, (hst.note _).mono fun _ => trivial⟩
  | cons answer rest ih =>
    cases answer with
    | failed error =>
      exact ⟨⟨[], (List.append_nil _).symm, rfl⟩, (hst.note _).mono fun _ => trivial⟩
    | got packet =>
      by_cases hsel : packet.streamIndex = p.selected
      · obtain ⟨hsent, hst'⟩ := transcodePacket_flow lib p graph c hsel (hst.note (.readFrame 0))
        simp only [packetLoop, hsel, ne_eq, not_true_eq_false, if_false, hgraph]
        generalize transcodePacket c lib p graph packet (st.note (.readFrame 0)) = r at hsent hst' ⊢
        obtain ⟨flow, st'⟩ := r
        have hone : Fed lib p (.got packet :: rest) st.sent rest st' :=
          ⟨[packet], hsent, by rw [ofStream_got_eq hsel]; rfl⟩
        cases flow with
        | next =>
          obtain ⟨⟨fed, hfed, hrest⟩, hloop⟩ :=
            ih ((hst'.note .packetUnref).mono fun _ => le_rfl)
          refine ⟨⟨packet :: fed, ?_, ?_⟩, hloop⟩
          · rw [hfed]
            change st'.sent ++ _ = _
            rw [hsent]
            change (st.sent ++ _) ++ _ = _
            rw [List.append_assoc]
            rfl
          · rw [ofStream_got_eq hsel, ← hrest]
            rfl
        | leave => exact ⟨hone, hst'⟩
        | stop code => exact ⟨hone, hst'⟩
      · obtain ⟨⟨fed, hfed, hrest⟩, hloop⟩ := ih (hst.note (.readFrame 0))
        simp only [packetLoop, hsel, ne_eq, not_false_eq_true, if_true]
        exact ⟨⟨fed, hfed, by rw [ofStream_got_ne hsel, hrest]⟩, hloop⟩

/-- At the end of a call: what one part put out is what the next one was sent, in order, up to
where the call failed. The filter graph is told the end of its input once, and the encoder if it
has a delay; neither is sent anything after that. -/
structure Conserved (ok : Prop) (st : Progress) : Prop where
  pushed : UpTo ok st.pushed (toFilter lib p st.sent ++ [none])
  encoded : UpTo ok st.encoded
    (toEncoder lib graph st.pushed ++ if lib.encoderDelay then [none] else [])
  muxed : UpTo ok st.muxed (toMuxer lib p st.encoded)

variable {lib p graph} in
theorem Conserved.mono {ok ok' : Prop} {st : Progress} (h : Conserved lib p graph ok st)
    (hok : ok' → ok) : Conserved lib p graph ok' st :=
  ⟨h.pushed.mono hok, h.encoded.mono hok, h.muxed.mono hok⟩

variable {lib p graph} in
theorem UpToDate.stopped {ok ok' : Prop} {st : Progress} (h : UpToDate lib p graph ok st)
    (hok : ¬ ok') : Conserved lib p graph ok' st where
  pushed := .extend h.pushed.inOrder fun h => absurd h hok
  encoded := .extend h.encoded.inOrder fun h => absurd h hok
  muxed := .stopped hok h.muxed.inOrder

theorem finish_flow {st : Progress} (hst : Balanced lib p graph True st) :
    let r := finish c lib p st
    r.2.sent = st.sent ∧ r.2.pushed = st.pushed ∧
      UpTo (0 ≤ r.1) r.2.encoded
        (toEncoder lib graph st.pushed ++ if lib.encoderDelay then [none] else []) ∧
      UpTo (0 ≤ r.1) r.2.muxed (toMuxer lib p r.2.encoded) := by
  have hencoded := hst.encoded.whole trivial
  have hmuxed := hst.muxed.whole trivial
  cases hdelay : lib.encoderDelay with
  | false =>
    have hr : finish c lib p st = (0, avWriteTrailer c lib st) := by
      simp [finish, flushEncoder, hdelay]
    rw [hr]
    exact ⟨rfl, rfl, .of_eq (hencoded.trans (List.append_nil _).symm), .of_eq hmuxed⟩
  | true =>
    have hflush : flushEncoder c lib p p.selected st =
        encodeWriteFrame c lib p p.selected none st := if_pos hdelay
    obtain ⟨hsent, hpushed, hend, hout⟩ := encodeWriteFrame_flow lib p c none st hmuxed
    simp only [finish, hflush]
    generalize encodeWriteFrame c lib p p.selected none st = e at hsent hpushed hend hout ⊢
    rw [hencoded] at hend
    by_cases hneg : e.1 < 0
    · simp only [if_pos hneg]
      exact ⟨hsent, hpushed, .of_eq hend, hout⟩
    · simp only [if_neg hneg]
      exact ⟨hsent, hpushed, .of_eq hend, hout⟩

theorem flushAll_flow (hgraph : p.filterGraph = some graph) {st : Progress}
    (hst : UpToDate lib p graph True st) :
    let r := flushAll c lib p st
    r.2.sent = st.sent ∧ Conserved lib p graph (0 ≤ r.1) r.2 := by
  have hpushed := hst.pushed.whole trivial
  obtain ⟨hsent, hpushed', hst'⟩ := filterEncodeWriteFrame_flow lib p graph c none hst.toBalanced
  simp only [flushAll, hgraph]
  generalize filterEncodeWriteFrame c lib p graph none p.selected st = f at hsent hpushed' hst' ⊢
  have hended : f.2.pushed = toFilter lib p f.2.sent ++ [none] := by
    rw [hpushed', hsent, hpushed]
  by_cases hneg : f.1 < 0
  · simp only [if_pos hneg]
    exact ⟨hsent, .of_eq hended, .extend hst'.encoded.inOrder fun h => absurd h (not_le.mpr hneg),
      hst'.muxed⟩
  · obtain ⟨hsent', hsame, hencoded, hmuxed⟩ :=
      finish_flow lib p graph c (hst'.mono fun _ => not_lt.mp hneg)
    simp only [if_neg hneg]
    refine ⟨hsent'.trans hsent, .of_eq ?_, ?_, hmuxed⟩
    · rw [hsame, hsent', hended]
    · rw [hsame]
      exact hencoded

end

/-- Whatever the library answers: every packet of the selected stream is sent to the decoder once
and in order, or left unread; every frame and packet that comes out of a part goes into the next
one, once and in order, and all of them unless the call fails. -/
theorem frames_conserved (c : Platform) (lib : Libav) (p : Pipeline) {graph : AVFilterGraph}
    (hgraph : p.filterGraph = some graph) (packets : List (Received AVPacket)) (io : Io) :
    let t := transcodePackets c lib p packets io
    Fed lib p packets [] t.2.1 t.2.2 ∧
      Conserved lib p graph (lib.allocPacket = true ∧ 0 ≤ t.1) t.2.2 := by
  have hstart : UpToDate lib p graph True
      ((Progress.start io).note (.packetAlloc lib.allocPacket)) := ⟨⟨.of_eq rfl, .of_eq rfl⟩, .of_eq rfl⟩
  simp only [transcodePackets]
  by_cases halloc : lib.allocPacket = true
  · obtain ⟨hfed, hst⟩ := packetLoop_flow lib p graph c hgraph packets hstart
    obtain ⟨_, hrun⟩ := packetLoop_run c lib p hgraph packets
      ((Progress.start io).note (.packetAlloc lib.allocPacket))
    have hstop := hrun.stop
    simp only [if_pos halloc]
    generalize packetLoop c lib p packets _ = r at hfed hst hstop ⊢
    obtain ⟨flow, rest, st⟩ := r
    have hflush (hok : 0 ≤ flow.code) : Fed lib p packets [] rest (flushAll c lib p st).2 ∧
        Conserved lib p graph (lib.allocPacket = true ∧ 0 ≤ (flushAll c lib p st).1)
          (flushAll c lib p st).2 := by
      obtain ⟨hsent, hend⟩ := flushAll_flow lib p graph c hgraph (hst.mono fun _ => hok)
      obtain ⟨fed, hfed, hrest⟩ := hfed
      exact ⟨⟨fed, hsent.trans hfed, hrest⟩, hend.mono And.right⟩
    cases flow with
    | next => exact hflush le_rfl
    | leave => exact hflush le_rfl
    | stop code =>
      have hneg : code < 0 := hstop code rfl
      exact ⟨hfed, hst.stopped fun h => absurd h.2 (not_le.mpr hneg)⟩
  · simp only [if_neg halloc]
    exact ⟨⟨[], rfl, rfl⟩, hstart.stopped fun h => halloc h.1⟩

def threePackets : List (Received AVPacket) :=
  [.got (.plain 0 3), .got (.plain 1 4), .got (.plain 0 5)]

theorem smooth_frames_conserved :
    ∃ p graph, (doTranscode Platform.generous Libav.smooth World.start audioFirst).1.entered =
        some p ∧
      let t := transcodePackets Platform.generous Libav.smooth p threePackets ⟨Process.start, none⟩
      t.2.2.muxed.map AVPacket.data = [[3], [5]] ∧
        Fed Libav.smooth p threePackets [] t.2.1 t.2.2 ∧
        Conserved Libav.smooth p graph (Libav.smooth.allocPacket = true ∧ 0 ≤ t.1) t.2.2 :=
  ⟨_, _, rfl, by decide +kernel,
    frames_conserved Platform.generous Libav.smooth _ rfl threePackets _⟩

end AudioFS.Transcode
