import AudioFS.PacketLoop

/-!
# The log of a packet loop

One description covers every function between `av_packet_alloc` and the return of
the packet loop: it appends events about one stream, its return code is negative
exactly when it appended a failure that the source acts upon, and the muxer got a
packet for each result of the encoder, whether or not it produced one.
-/

namespace AudioFS.Transcode
open AudioFS.CustomAvio

def Expected (code : ℤ) : Prop := code = AVERROR_EAGAIN.code ∨ code = AVERROR_EOF.code

/-- A failure whose code reaches the final test of `ret`. -/
def Event.Handled : Event → Prop
  | .receiveFrame code => code < 0 ∧ ¬ Expected code
  | .addFrame code => code < 0
  | .getFrame code => code < 0 ∧ ¬ Expected code
  | .sendFrame code => code < 0
  | .writeFrame _ code => code < 0
  | _ => False

/-- A failure after which `ret` is overwritten or was never set. -/
def Event.Swallowed : Event → Prop
  | .packetAlloc granted => granted = false
  | .readFrame code => code < 0 ∧ code ≠ AVERROR_EOF.code
  | .sendPacket _ _ code => code < 0
  | .receivePacket received => received.code < 0 ∧ ¬ Expected received.code
  | .writeTrailer code => code < 0
  | _ => False

theorem expected_iff (error : AVError) :
    (error = AVERROR_EAGAIN ∨ error = AVERROR_EOF) ↔ Expected error.code := by
  obtain ⟨code, hneg⟩ := error
  simp [Expected, AVERROR_EAGAIN, AVERROR_EOF]

def Event.Failed (e : Event) : Prop := e.Handled ∨ e.Swallowed

instance : DecidablePred Expected := fun _ => inferInstanceAs (Decidable (_ ∨ _))

instance : DecidablePred Event.Handled := fun e =>
  match e with
  | .receiveFrame _ | .getFrame _ => inferInstanceAs (Decidable (_ ∧ _))
  | .addFrame code | .sendFrame code | .writeFrame _ code => Int.decLt code 0
  | .packetAlloc _ | .readFrame _ | .sendPacket _ _ _ | .receivePacket _ | .writeTrailer _
  | .packetUnref => .isFalse id

instance : DecidablePred Event.Swallowed := fun e =>
  match e with
  | .packetAlloc granted => inferInstanceAs (Decidable (granted = false))
  | .readFrame _ | .receivePacket _ => inferInstanceAs (Decidable (_ ∧ _))
  | .sendPacket _ _ code | .writeTrailer code => Int.decLt code 0
  | .receiveFrame _ | .getFrame _ | .addFrame _ | .sendFrame _ | .writeFrame _ _
  | .packetUnref => .isFalse id

instance : DecidablePred Event.Failed := fun _ => inferInstanceAs (Decidable (_ ∨ _))

def Event.OnStream (k : ℕ) : Event → Prop
  | .sendPacket demuxed _ _ => demuxed.streamIndex = k
  | .writeFrame packet _ => packet.streamIndex = k
  | _ => True

def Event.fed : Event → Option AVPacket
  | .sendPacket demuxed _ _ => some demuxed
  | _ => none

def Event.muxedPacket : Event → Option AVPacket
  | .writeFrame packet _ => some packet
  | _ => none

/-- The data of what the encoder's answer leaves in the packet, nothing where the loop ends. -/
def Event.leftData : Event → Option (List UInt8)
  | .receivePacket (.got packet) => some packet.data
  | .receivePacket (.failed error) =>
    if error = AVERROR_EAGAIN ∨ error = AVERROR_EOF then none else some []
  | _ => none

def fed (log : List Event) : List AVPacket := log.filterMap Event.fed

def muxed (log : List Event) : List AVPacket := log.filterMap Event.muxedPacket

def leftData (log : List Event) : List (List UInt8) := log.filterMap Event.leftData

structure Segment (k : ℕ) (feeds : List AVPacket) (ret : ℤ) (new : List Event) : Prop where
  onStream : ∀ e ∈ new, e.OnStream k
  feeds : fed new = feeds
  failing : ret < 0 ↔ ∃ e ∈ new, e.Handled
  muxes : (muxed new).map AVPacket.data = leftData new

theorem Segment.append {k : ℕ} {f g : List AVPacket} {r r' : ℤ} {new new' : List Event}
    (h : Segment k f r new) (hr : 0 ≤ r) (h' : Segment k g r' new') :
    Segment k (f ++ g) r' (new ++ new') := by
  refine ⟨?_, ?_, ?_, ?_⟩
  · intro e he
    rcases List.mem_append.mp he with he | he
    · exact h.onStream e he
    · exact h'.onStream e he
  · rw [fed, List.filterMap_append, ← h.feeds, ← h'.feeds]
    rfl
  · have hnone : ¬ ∃ e ∈ new, e.Handled := fun hex => absurd (h.failing.mpr hex) (by omega)
    rw [h'.failing]
    constructor
    · intro hex
      obtain ⟨e, he, hfail⟩ := hex
      exact ⟨e, List.mem_append_right _ he, hfail⟩
    · intro hex
      obtain ⟨e, he, hfail⟩ := hex
      rcases List.mem_append.mp he with he | he
      · exact absurd ⟨e, he, hfail⟩ hnone
      · exact ⟨e, he, hfail⟩
  · have hm := h.muxes
    have hm' := h'.muxes
    simp only [muxed, leftData, List.filterMap_append, List.map_append] at hm hm' ⊢
    rw [hm, hm']

/-- What a function does to the progress: a segment is appended, a handle stays a handle, and the
decoder is sent nothing without it being logged. -/
structure Run (k : ℕ) (feeds : List AVPacket) (st : Progress) (ret : ℤ) (st' : Progress) :
    Prop where
  log : ∃ new, st'.log = st.log ++ new ∧ st'.muxed = st.muxed ++ muxed new ∧
    Segment k feeds ret new
  handle : st'.io.handle.isSome = st.io.handle.isSome
  sent : feeds = [] → st'.sent = st.sent

theorem Run.trans {k : ℕ} {f g : List AVPacket} {st st₁ st₂ : Progress} {r r' : ℤ}
    (h : Run k f st r st₁) (hr : 0 ≤ r) (h' : Run k g st₁ r' st₂) :
    Run k (f ++ g) st r' st₂ := by
  obtain ⟨new, hlog, hmux, hseg⟩ := h.log
  obtain ⟨new', hlog', hmux', hseg'⟩ := h'.log
  refine ⟨⟨new ++ new', ?_, ?_, hseg.append hr hseg'⟩, h'.handle.trans h.handle, ?_⟩
  · rw [hlog', hlog, List.append_assoc]
  · rw [hmux', hmux, List.append_assoc, muxed, muxed, muxed, List.filterMap_append]
  · intro hnil
    obtain ⟨hf, hg⟩ := List.append_eq_nil_iff.mp hnil
    exact (h'.sent hg).trans (h.sent hf)

theorem Io.run_isSome (c : Platform) (io : Io) (ops : List Op) :
    (io.run c ops).handle.isSome = io.handle.isSome := by
  cases h : io.handle <;> simp [Io.run, h]

theorem run_note {k : ℕ} {st : Progress} {ret : ℤ} (e : Event) (hon : e.OnStream k)
    (hret : ret < 0 ↔ e.Handled) (hmux : e.muxedPacket = none) (hleft : e.leftData = none) :
    Run k e.fed.toList st ret (st.note e) := by
  have hnone : muxed [e] = [] := by simp [muxed, hmux]
  refine ⟨⟨[e], rfl, ?_, ?_, ?_, ?_, ?_⟩, rfl, fun _ => rfl⟩
  · rw [hnone, List.append_nil]
    rfl
  · simpa using hon
  · cases h : e.fed <;> simp [fed, h]
  · simpa using hret
  · simp [hnone, leftData, hleft]

theorem Run.congr {k : ℕ} {f : List AVPacket} {st st₁ st₂ : Progress} {r : ℤ}
    (h : Run k f st r st₁) (hlog : st₂.log = st₁.log) (hmux : st₂.muxed = st₁.muxed)
    (hio : st₂.io = st₁.io) (hsent : f = [] → st₂.sent = st₁.sent) : Run k f st r st₂ := by
  obtain ⟨new, hnew, hmuxed, hseg⟩ := h.log
  refine ⟨⟨new, hlog.trans hnew, hmux.trans hmuxed, hseg⟩, ?_, ?_⟩
  · rw [hio]
    exact h.handle
  · intro hnil
    exact (hsent hnil).trans (h.sent hnil)

def Flow.code : Flow → ℤ
  | .stop code => code
  | _ => 0

section
variable (c : Platform) (lib : Libav) (p : Pipeline)

theorem run_mux (k : ℕ) (st : Progress) {received : Received AVPacket} {packet : AVPacket}
    (hleft : (Event.receivePacket received).leftData = some packet.data) :
    let r := avInterleavedWriteFrame c lib (stamp lib p k packet)
      (st.note (.receivePacket received))
    Run k [] st r.1 r.2 := by
  intro r
  have hlog : r.2.log =
      st.log ++ [.receivePacket received, .writeFrame (stamp lib p k packet) r.1] := by
    simp [r, avInterleavedWriteFrame, Progress.note]
  refine ⟨⟨_, hlog, rfl, ?_, rfl, ?_, ?_⟩, Io.run_isSome _ _ _, fun _ => rfl⟩
  · intro e he
    simp only [List.mem_cons, List.not_mem_nil, or_false] at he
    rcases he with rfl | rfl
    · trivial
    · rfl
  · simp [Event.Handled]
  · simp only [muxed, leftData, List.filterMap_cons, hleft]
    rfl

theorem writePackets_run (k : ℕ) (received : List (Received AVPacket)) (st : Progress) :
    Run k [] st (writePackets c lib p k received st).1 (writePackets c lib p k received st).2 := by
  induction received generalizing st with
  | nil =>
    exact run_note (.receivePacket (.failed AVERROR_EAGAIN)) trivial
      (iff_of_false (lt_irrefl 0) id) rfl rfl
  | cons received rest ih =>
    cases received with
    | got packet =>
      have hleft : (Event.receivePacket (.got packet)).leftData = some packet.data := rfl
      have hmux := run_mux c lib p k st hleft
      simp only [writePackets]
      split_ifs with hneg
      · exact hmux
      · exact hmux.trans (by omega) (ih _)
    | failed error =>
      simp only [writePackets]
      by_cases hend : error = AVERROR_EAGAIN ∨ error = AVERROR_EOF
      · rw [if_pos hend]
        exact run_note (.receivePacket (.failed error)) trivial (iff_of_false (lt_irrefl 0) id) rfl
          (if_pos hend)
      · have hleft : (Event.receivePacket (.failed error)).leftData = some AVPacket.blank.data :=
          if_neg hend
        have hmux := run_mux c lib p k st hleft
        rw [if_neg hend]
        split_ifs with hneg
        · exact hmux
        · exact hmux.trans (by omega) (ih _)

theorem encodeWriteFrame_run (k : ℕ) (frame : Option AVFrame) (st : Progress) :
    Run k [] st (encodeWriteFrame c lib p k frame st).1
      (encodeWriteFrame c lib p k frame st).2 := by
  have hsend (ret : ℤ) (h : ret < 0 ↔ (avcodecSendFrame lib p frame st).1.code < 0) :
      Run k [] st ret (avcodecSendFrame lib p frame st).2 :=
    (run_note (.sendFrame _) trivial h rfl rfl).congr rfl rfl rfl fun _ => rfl
  simp only [encodeWriteFrame]
  split_ifs with hneg
  · exact hsend _ Iff.rfl
  · exact (hsend 0 (by omega)).trans le_rfl (writePackets_run c lib p k _ _)

theorem pullFrames_run (k : ℕ) (received : List (Received AVFrame)) (st : Progress) :
    Run k [] st (pullFrames c lib p k received st).1 (pullFrames c lib p k received st).2 := by
  induction received generalizing st with
  | nil =>
    exact run_note (.getFrame AVERROR_EAGAIN.code) trivial
      (iff_of_false (lt_irrefl 0) fun h => h.2 (.inl rfl)) rfl rfl
  | cons received rest ih =>
    cases received with
    | got frame =>
      have hget : Run k [] st 0 (st.note (.getFrame 0)) :=
        run_note (.getFrame 0) trivial (iff_of_false (lt_irrefl 0) (fun h => lt_irrefl 0 h.1)) rfl rfl
      have hencode := hget.trans le_rfl
        (encodeWriteFrame_run c lib p k (some { frame with pictType := 0 }) _)
      simp only [pullFrames]
      split_ifs with hneg
      · exact hencode
      · exact hencode.trans (by omega) (ih _)
    | failed error =>
      have hneg := error.negative
      refine run_note (.getFrame error.code) trivial ?_ rfl rfl
      simp only [Event.Handled, ← expected_iff, pullFrames]
      split_ifs with hend <;> simp [hend, hneg]

theorem filterEncodeWriteFrame_run (k : ℕ) (graph : AVFilterGraph) (frame : Option AVFrame)
    (st : Progress) :
    Run k [] st (filterEncodeWriteFrame c lib p graph frame k st).1
      (filterEncodeWriteFrame c lib p graph frame k st).2 := by
  have hpush (ret : ℤ) (h : ret < 0 ↔ (avBuffersrcAddFrame lib graph frame st).1.code < 0) :
      Run k [] st ret (avBuffersrcAddFrame lib graph frame st).2 :=
    (run_note (.addFrame _) trivial h rfl rfl).congr rfl rfl rfl fun _ => rfl
  simp only [filterEncodeWriteFrame]
  split_ifs with hneg
  · exact hpush _ Iff.rfl
  · exact (hpush 0 (by omega)).trans le_rfl (pullFrames_run c lib p k _ _)

theorem receiveFrames_run (k : ℕ) (graph : AVFilterGraph) (received : List (Received AVFrame))
    (st : Progress) :
    Run k [] st (receiveFrames c lib p graph k received st).1.code
        (receiveFrames c lib p graph k received st).2 ∧
      ∀ code, (receiveFrames c lib p graph k received st).1 = .stop code → code < 0 := by
  induction received generalizing st with
  | nil =>
    exact ⟨run_note (.receiveFrame AVERROR_EAGAIN.code) trivial
      (iff_of_false (lt_irrefl 0) fun h => h.2 (.inl rfl)) rfl rfl, by simp [receiveFrames]⟩
  | cons received rest ih =>
    cases received with
    | got frame =>
      have hget : Run k [] st 0 (st.note (.receiveFrame 0)) :=
        run_note (.receiveFrame 0) trivial (iff_of_false (lt_irrefl 0) (fun h => lt_irrefl 0 h.1))
          rfl rfl
      have hfilter := hget.trans le_rfl
        (filterEncodeWriteFrame_run c lib p k graph
          (some { frame with pts := frame.bestEffortTimestamp }) _)
      simp only [receiveFrames]
      split_ifs with hneg
      · exact ⟨hfilter, fun code h => Flow.stop.inj h ▸ hneg⟩
      · exact ⟨hfilter.trans (by omega) (ih _).1, (ih _).2⟩
    | failed error =>
      have hneg := error.negative
      have hend : (error = AVERROR_EOF ∨ error = AVERROR_EAGAIN) ↔ Expected error.code := by
        rw [or_comm, expected_iff]
      simp only [receiveFrames]
      split_ifs with hexp
      · exact ⟨run_note (.receiveFrame error.code) trivial
          (iff_of_false (lt_irrefl 0) fun h => h.2 (hend.mp hexp)) rfl rfl, by simp⟩
      · exact ⟨run_note (.receiveFrame error.code) trivial
          (iff_of_true hneg ⟨hneg, fun h => hexp (hend.mpr h)⟩) rfl rfl,
          fun code h => Flow.stop.inj h ▸ hneg⟩

theorem transcodePacket_run (graph : AVFilterGraph) (packet : AVPacket) (st : Progress) :
    Run packet.streamIndex [packet] st (transcodePacket c lib p graph packet st).1.code
        (transcodePacket c lib p graph packet st).2 ∧
      ∀ code, (transcodePacket c lib p graph packet st).1 = .stop code → code < 0 := by
  have hsend : Run packet.streamIndex [packet] st 0 (avcodecSendPacket lib p packet st).2 :=
    (run_note (.sendPacket packet _ _) rfl (iff_of_false (lt_irrefl 0) id) rfl rfl).congr rfl rfl rfl
      (by simp [Event.fed])
  obtain ⟨hrun, hstop⟩ := receiveFrames_run c lib p packet.streamIndex graph
    (avcodecSendPacket lib p packet st).1.received (avcodecSendPacket lib p packet st).2
  simp only [transcodePacket]
  split_ifs with hneg
  · exact ⟨hsend, by simp⟩
  · exact ⟨hsend.trans le_rfl hrun, hstop⟩

/-- The packets of stream `k` among what a demuxer has yet to deliver. -/
def ofStream (k : ℕ) (packets : List (Received AVPacket)) : List AVPacket :=
  (packets.filterMap Received.value?).filter fun packet => packet.streamIndex = k

theorem ofStream_got_eq {k : ℕ} {packet : AVPacket} (h : packet.streamIndex = k)
    (rest : List (Received AVPacket)) :
    ofStream k (.got packet :: rest) = packet :: ofStream k rest := by
  simp [ofStream, Received.value?, h]

theorem ofStream_got_ne {k : ℕ} {packet : AVPacket} (h : packet.streamIndex ≠ k)
    (rest : List (Received AVPacket)) :
    ofStream k (.got packet :: rest) = ofStream k rest := by
  simp [ofStream, Received.value?, h]

theorem ofStream_map_got (k : ℕ) (packets : List AVPacket) :
    ofStream k (packets.map .got) = packets.filter fun packet => packet.streamIndex = k := by
  simp [ofStream, Received.value?, List.filterMap_map, Function.comp_def]

def Pipeline.decoderInput (packets : List AVPacket) : List AVPacket :=
  (packets.filter fun packet => packet.streamIndex = p.selected).map (p.toDecoder lib)

variable {lib p} in
theorem decoderInput_of_selected {packet : AVPacket} (h : packet.streamIndex = p.selected)
    (packets : List AVPacket) :
    p.decoderInput lib (packet :: packets) =
      p.toDecoder lib packet :: p.decoderInput lib packets := by
  simp [Pipeline.decoderInput, h]

variable {lib p} in
theorem decoderInput_of_other {packet : AVPacket} (h : packet.streamIndex ≠ p.selected)
    (packets : List AVPacket) :
    p.decoderInput lib (packet :: packets) = p.decoderInput lib packets := by
  simp [Pipeline.decoderInput, h]

/-- What the loop does to a pipeline with a filter graph: every packet of the selected stream is
either fed to the decoder or left unread. -/
structure LoopRun (p : Pipeline) (packets : List (Received AVPacket)) (st : Progress)
    (r : Flow × List (Received AVPacket) × Progress) (feeds : List AVPacket) : Prop where
  run : Run p.selected feeds st r.1.code r.2.2
  stop : ∀ code, r.1 = .stop code → code < 0
  conserved : feeds ++ ofStream p.selected r.2.1 = ofStream p.selected packets

theorem packetLoop_run {graph : AVFilterGraph} (hgraph : p.filterGraph = some graph)
    (packets : List (Received AVPacket)) (st : Progress) :
    ∃ feeds, LoopRun p packets st (packetLoop c lib p packets st) feeds := by
  induction packets generalizing st with
  | nil =>
    have hread : Run p.selected [] st 0 (st.note (.readFrame AVERROR_EOF.code)) :=
      run_note (.readFrame _) trivial (iff_of_false (lt_irrefl 0) id) rfl rfl
    exact ⟨[], hread, by simp [packetLoop], rfl⟩
  | cons received rest ih =>
    cases received with
    | failed error =>
      have hread : Run p.selected [] st 0 (st.note (.readFrame error.code)) :=
        run_note (.readFrame _) trivial (iff_of_false (lt_irrefl 0) id) rfl rfl
      exact ⟨[], hread, by simp [packetLoop], rfl⟩
    | got packet =>
      have hread : Run p.selected [] st 0 (st.note (.readFrame 0)) :=
        run_note (.readFrame 0) trivial (iff_of_false (lt_irrefl 0) id) rfl rfl
      by_cases hsel : packet.streamIndex = p.selected
      · obtain ⟨hpacket, hstop⟩ := transcodePacket_run c lib p graph packet (st.note (.readFrame 0))
        rw [hsel] at hpacket
        have hsent := hread.trans le_rfl hpacket
        simp only [packetLoop, hsel, ne_eq, not_true_eq_false, if_false, hgraph]
        generalize transcodePacket c lib p graph packet (st.note (.readFrame 0)) = r at *
        obtain ⟨flow, st'⟩ := r
        cases flow with
        | next =>
          have hunref : Run p.selected [] st' 0 (st'.note .packetUnref) :=
            run_note .packetUnref trivial (iff_of_false (lt_irrefl 0) id) rfl rfl
          obtain ⟨feeds, hrun, hstop', hcons⟩ := ih (st'.note .packetUnref)
          refine ⟨packet :: feeds, ?_, hstop', ?_⟩
          · exact (hsent.trans le_rfl hunref).trans le_rfl hrun
          · rw [ofStream_got_eq hsel, ← hcons]
            rfl
        | leave => exact ⟨[packet], hsent, by simp, (ofStream_got_eq hsel rest).symm⟩
        | stop code => exact ⟨[packet], hsent, hstop, (ofStream_got_eq hsel rest).symm⟩
      · obtain ⟨feeds, hrun, hstop, hcons⟩ := ih (st.note (.readFrame 0))
        simp only [packetLoop, ne_eq, hsel, not_false_eq_true, if_true]
        exact ⟨feeds, hread.trans le_rfl hrun, hstop, by rw [ofStream_got_ne hsel, hcons]⟩

theorem flushEncoder_run (k : ℕ) (st : Progress) :
    Run k [] st (flushEncoder c lib p k st).1 (flushEncoder c lib p k st).2 := by
  unfold flushEncoder
  split_ifs
  · exact encodeWriteFrame_run c lib p k none st
  · exact ⟨⟨[], by simp, by simp [muxed], by simp, rfl, by simp, rfl⟩, rfl, fun _ => rfl⟩

theorem avWriteTrailer_run (k : ℕ) {ret : ℤ} (hret : 0 ≤ ret) (st : Progress) :
    Run k [] st ret (avWriteTrailer c lib st) :=
  ⟨⟨[.writeTrailer _], rfl, (List.append_nil _).symm, by simp [Event.OnStream], rfl,
      by simpa [Event.Handled] using hret, rfl⟩,
    Io.run_isSome _ _ _, fun _ => rfl⟩

theorem finish_run (st : Progress) :
    Run p.selected [] st (finish c lib p st).1 (finish c lib p st).2 := by
  have hflush := flushEncoder_run c lib p p.selected st
  simp only [finish]
  split_ifs with hneg
  · exact hflush
  · have hret := not_lt.mp hneg
    exact hflush.trans hret (avWriteTrailer_run c lib p.selected hret _)

theorem flushAll_run {graph : AVFilterGraph} (hgraph : p.filterGraph = some graph)
    (st : Progress) :
    Run p.selected [] st (flushAll c lib p st).1 (flushAll c lib p st).2 := by
  have hfilter := filterEncodeWriteFrame_run c lib p p.selected graph none st
  simp only [flushAll, hgraph]
  split_ifs with hneg
  · exact hfilter
  · exact hfilter.trans (not_lt.mp hneg) (finish_run c lib p _)

theorem transcodePackets_run {graph : AVFilterGraph} (hgraph : p.filterGraph = some graph)
    (packets : List (Received AVPacket)) (io : Io) :
    let r := transcodePackets c lib p packets io
    ∃ feeds, Run p.selected feeds (Progress.start io) r.1 r.2.2 ∧
      feeds ++ ofStream p.selected r.2.1 = ofStream p.selected packets := by
  have halloc (ret : ℤ) (hret : 0 ≤ ret) : Run p.selected [] (Progress.start io) ret
      ((Progress.start io).note (.packetAlloc lib.allocPacket)) :=
    run_note (.packetAlloc _) trivial (iff_of_false (by omega) id) rfl rfl
  simp only [transcodePackets]
  split_ifs
  · obtain ⟨feeds, hloop⟩ := packetLoop_run c lib p hgraph packets
      ((Progress.start io).note (.packetAlloc lib.allocPacket))
    have hrun := (halloc 0 le_rfl).trans le_rfl hloop.run
    have hcons := hloop.conserved
    generalize packetLoop c lib p packets _ = r at *
    obtain ⟨flow, rest, st⟩ := r
    cases flow with
    | stop code => exact ⟨feeds, hrun, hcons⟩
    | next =>
      refine ⟨feeds, ?_, hcons⟩
      simpa using hrun.trans le_rfl (flushAll_run c lib p hgraph st)
    | leave =>
      refine ⟨feeds, ?_, hcons⟩
      simpa using hrun.trans le_rfl (flushAll_run c lib p hgraph st)
  · exact ⟨[], halloc _ (Int.natCast_nonneg _), rfl⟩

end

end AudioFS.Transcode
