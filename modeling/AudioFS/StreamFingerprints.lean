import AudioFS.Fingerprint
import AudioFS.StreamSelection

/-!
# The fingerprints of a container's streams

`get_metadate_from_file` calls `do_transcode` once for each audio stream, on one
demuxer whose read position persists. The first call reads it to its end and
feeds the first audio stream; nothing is left for the calls after it.
-/

namespace AudioFS.Transcode
open AudioFS.CustomAvio

/-- `streams[i].chromaprint`, with the call it was extracted from. -/
structure Fingerprint where
  stream : ℕ
  chromaprint : List UInt8
  made : Outcome

def callOn (all : List AVStream) (packets : List (Received AVPacket)) : Request :=
  ⟨false, some ⟨all, packets⟩, memoryName⟩

/-- The stream loop of `get_metadate_from_file`, from stream `i` on. The library may behave
differently in each call. -/
def getMetadateStreams (c : Platform) (libs : ℕ → Libav) (all : List AVStream) :
    ℕ → List AVStream → List (Received AVPacket) → World → List Fingerprint
  | _, [], _, _ => []
  | i, stream :: streams, packets, w =>
    if !stream.isAudio then getMetadateStreams c libs all (i + 1) streams packets w
    else
      let r := doTranscode c (libs i) w (callOn all packets)
      match r.1.handle with
      -- `audiofs_avio_get_size` reads through the null pointer
      | none => []
      | some handle =>
        match extractChromaprint c ⟨r.2.process, handle⟩ with
        | (none, _) => []
        | (some chromaprint, process) =>
          ⟨i, chromaprint, r.1⟩ ::
            getMetadateStreams c libs all (i + 1) streams r.1.rest { r.2 with process := process }

theorem getMetadateStreams_of_other {stream : AVStream} (h : stream.isAudio = false)
    (c : Platform) (libs : ℕ → Libav) (all : List AVStream) (i : ℕ) (streams : List AVStream)
    (packets : List (Received AVPacket)) (w : World) :
    getMetadateStreams c libs all i (stream :: streams) packets w =
      getMetadateStreams c libs all (i + 1) streams packets w := by
  simp [getMetadateStreams, h]

theorem getMetadateStreams_of_audio {stream : AVStream} (h : stream.isAudio = true)
    (c : Platform) (libs : ℕ → Libav) (all : List AVStream) (i : ℕ) (streams : List AVStream)
    (packets : List (Received AVPacket)) (w : World) :
    let r := doTranscode c (libs i) w (callOn all packets)
    getMetadateStreams c libs all i (stream :: streams) packets w = [] ∨
      r.1.handle.isSome = true ∧ ∃ chromaprint w',
        getMetadateStreams c libs all i (stream :: streams) packets w =
          ⟨i, chromaprint, r.1⟩ :: getMetadateStreams c libs all (i + 1) streams r.1.rest w' := by
  intro r
  simp only [getMetadateStreams, h, Bool.not_true, Bool.false_eq_true, if_false]
  cases hhandle : r.1.handle with
  | none => exact .inl rfl
  | some handle =>
    cases hextract : extractChromaprint c ⟨r.2.process, handle⟩ with
    | mk chromaprint process =>
      simp only [r] at hextract
      simp only [hextract]
      cases chromaprint with
      | none => exact .inl rfl
      | some chromaprint => exact .inr ⟨rfl, chromaprint, _, rfl⟩

theorem ret_of_handle {c : Platform} {lib : Libav} {w : World} {request : Request} {ret : ℤ}
    {s : Statics} {entered : Option Pipeline} {rest : List (Received AVPacket)} {st : Progress}
    (h : (leave c lib w request ret s entered rest st).1.handle.isSome = true) : 0 ≤ ret := by
  by_contra hneg
  simp [leave, not_le.mp hneg] at h

theorem entered_of_handle {c : Platform} {lib : Libav} {w : World} {request : Request}
    (h : (doTranscode c lib w request).1.handle.isSome = true) :
    0 ≤ (doTranscode c lib w request).1.ret ∧
      ∃ p, (doTranscode c lib w request).1.entered = some p := by
  rcases doTranscode_cases c lib w request with ⟨hneg, hleave⟩ | ⟨selected, d, out, -, hrun⟩
  · rw [hleave] at h
    exact absurd (ret_of_handle h) (not_le.mpr hneg)
  · rw [hrun] at h ⊢
    exact ⟨ret_of_handle h, _, rfl⟩

/-- Every chunk of `xs` but possibly the last one, after those sent before, is taken. -/
def TakesAll {α : Type*} (answer : List α → ℤ) (before xs : List α) : Prop :=
  ∀ n, 0 < n → n < xs.length → 0 ≤ answer (before ++ xs.take n)

theorem takesAll_nil {α : Type*} (answer : List α → ℤ) (before : List α) :
    TakesAll answer before [] := by
  intro n hpos hlt
  simp at hlt

theorem takesAll_cons_iff {α : Type*} (answer : List α → ℤ) (before : List α) (x : α)
    (xs : List α) :
    TakesAll answer before (x :: xs) ↔
      xs = [] ∨ 0 ≤ answer (before ++ [x]) ∧ TakesAll answer (before ++ [x]) xs := by
  constructor
  · intro h
    rcases List.eq_nil_or_concat xs with rfl | hne
    · exact .inl rfl
    · right
      have hlen : 0 < xs.length := by
        obtain ⟨ys, y, rfl⟩ := hne
        simp
      refine ⟨by simpa using h 1 Nat.one_pos (by simpa using hlen), fun n hpos hlt => ?_⟩
      simpa [List.append_assoc] using h (n + 1) n.succ_pos (by simpa using hlt)
  · rintro (rfl | ⟨hfirst, hrest⟩) n hpos hlt
    · simp at hlt
      omega
    · obtain ⟨m, rfl⟩ := Nat.exists_eq_succ_of_ne_zero hpos.ne'
      cases m with
      | zero => simpa using hfirst
      | succ m =>
        have hm := hrest (m + 1) m.succ_pos (by simpa using hlt)
        simpa [List.append_assoc] using hm

section
variable (c : Platform) (lib : Libav) (p : Pipeline)

theorem receiveFrames_ne_leave (k : ℕ) (graph : AVFilterGraph) (received : List (Received AVFrame))
    (st : Progress) : (receiveFrames c lib p graph k received st).1 ≠ .leave := by
  induction received generalizing st with
  | nil => simp [receiveFrames]
  | cons received rest ih =>
    cases received with
    | got frame =>
      simp only [receiveFrames]
      split_ifs
      · simp
      · exact ih _
    | failed error =>
      simp only [receiveFrames]
      split_ifs <;> simp

def decoderCode (history : List AVPacket) : ℤ := (lib.decoder p.decCtx (history.map some)).code

theorem transcodePacket_next (graph : AVFilterGraph) (packet : AVPacket) {before : List AVPacket}
    (st : Progress) (hst : st.sent = before.map some) :
    let r := transcodePacket c lib p graph packet st
    let history := before ++ [p.toDecoder lib packet]
    0 ≤ r.1.code → (decoderCode lib p history < 0 ∧ r.1 = .leave) ∨
      (0 ≤ decoderCode lib p history ∧ r.1 = .next ∧ r.2.sent = history.map some) := by
  have hreply : (avcodecSendPacket lib p packet st).1.code =
      decoderCode lib p (before ++ [p.toDecoder lib packet]) := by
    simp [avcodecSendPacket, decoderCode, hst]
  have hsent : (avcodecSendPacket lib p packet st).2.sent =
      (before ++ [p.toDecoder lib packet]).map some := by
    simp [avcodecSendPacket, hst]
  simp only [transcodePacket, hreply]
  split_ifs with hneg
  · exact fun _ => .inl ⟨hneg, rfl⟩
  · intro h
    have hleave := receiveFrames_ne_leave c lib p packet.streamIndex graph
      (avcodecSendPacket lib p packet st).1.received (avcodecSendPacket lib p packet st).2
    obtain ⟨hrun, hstop⟩ := receiveFrames_run c lib p packet.streamIndex graph
      (avcodecSendPacket lib p packet st).1.received (avcodecSendPacket lib p packet st).2
    generalize receiveFrames c lib p graph packet.streamIndex _ _ = r at *
    obtain ⟨flow, st'⟩ := r
    cases flow with
    | next => exact .inr ⟨not_lt.mp hneg, rfl, (hrun.sent rfl).trans hsent⟩
    | leave => exact absurd rfl hleave
    | stop code => exact absurd (hstop code rfl) (not_lt.mpr h)

variable {p} in
theorem ofStream_eq_nil_iff (packets : List AVPacket) :
    ofStream p.selected (packets.map .got) = [] ↔ p.decoderInput lib packets = [] := by
  simp [ofStream_map_got, Pipeline.decoderInput]

/-- A loop that does not fail reads its stream to the end exactly when the decoder takes all of it
but possibly the last packet. -/
theorem packetLoop_rest {graph : AVFilterGraph} (hgraph : p.filterGraph = some graph)
    (packets before : List AVPacket) (st : Progress) (hst : st.sent = before.map some) :
    let r := packetLoop c lib p (packets.map .got) st
    0 ≤ r.1.code → (ofStream p.selected r.2.1 = [] ↔
      TakesAll (decoderCode lib p) before (p.decoderInput lib packets)) := by
  induction packets generalizing before st with
  | nil =>
    intro r h
    exact iff_of_true rfl (takesAll_nil _ _)
  | cons packet packets ih =>
    by_cases hsel : packet.streamIndex = p.selected
    · have hpacket := transcodePacket_next c lib p graph packet (st.note (.readFrame 0)) hst
      simp only [List.map_cons, packetLoop, hsel, ne_eq, not_true_eq_false, if_false, hgraph,
        decoderInput_of_selected hsel, takesAll_cons_iff]
      generalize transcodePacket c lib p graph packet (st.note (.readFrame 0)) = r at hpacket ⊢
      obtain ⟨flow, st'⟩ := r
      cases flow with
      | next =>
        intro h
        rcases hpacket le_rfl with ⟨-, hleave⟩ | ⟨hcode, -, hsent⟩
        · simp at hleave
        · rw [ih _ (st'.note .packetUnref) hsent h]
          constructor
          · intro htakes
            exact .inr ⟨hcode, htakes⟩
          · intro hcase
            rcases hcase with hnil | ⟨-, htakes⟩
            · rw [hnil]
              exact takesAll_nil _ _
            · exact htakes
      | leave =>
        intro h
        rcases hpacket le_rfl with ⟨hcode, -⟩ | ⟨-, hnext, -⟩
        · simp [ofStream_eq_nil_iff lib, not_le.mpr hcode]
        · simp at hnext
      | stop code =>
        intro h
        rcases hpacket h with ⟨-, hleave⟩ | ⟨-, hnext, -⟩
        · simp at hleave
        · simp at hnext
    · simp only [List.map_cons, packetLoop, hsel, ne_eq, not_false_eq_true, if_true,
        decoderInput_of_other hsel]
      exact ih _ _ hst

theorem transcodePackets_rest {graph : AVFilterGraph} (hgraph : p.filterGraph = some graph)
    (packets : List AVPacket) (io : Io) :
    let r := transcodePackets c lib p (packets.map .got) io
    0 ≤ r.1 → (ofStream p.selected r.2.1 = [] ↔ p.decoderInput lib packets = [] ∨
      lib.allocPacket = true ∧ TakesAll (decoderCode lib p) [] (p.decoderInput lib packets)) := by
  cases halloc : lib.allocPacket with
  | false => simp [transcodePackets, halloc, ofStream_eq_nil_iff lib]
  | true =>
    have hloop := packetLoop_rest c lib p hgraph packets []
      ((Progress.start io).note (.packetAlloc true)) rfl
    have hnil : p.decoderInput lib packets = [] →
        TakesAll (decoderCode lib p) [] (p.decoderInput lib packets) := by
      intro hnil
      rw [hnil]
      exact takesAll_nil _ _
    simp only [transcodePackets, halloc, if_true, true_and, or_iff_right_of_imp hnil]
    generalize packetLoop c lib p (packets.map .got) _ = r at hloop ⊢
    obtain ⟨flow, rest, st⟩ := r
    cases flow with
    | next => exact fun _ => hloop le_rfl
    | leave => exact fun _ => hloop le_rfl
    | stop code => exact fun h => hloop h

end

theorem getElem?_of_mem_audioStreams {i : ℕ} {streams : List AVStream} {s : ℕ × AVStream}
    (h : s ∈ audioStreams i streams) : streams[s.1 - i]? = some s.2 := by
  induction streams generalizing i with
  | nil => simp [audioStreams] at h
  | cons stream streams ih =>
    cases haudio : stream.isAudio with
    | true =>
      rw [audioStreams_of_audio haudio, List.mem_cons] at h
      rcases h with rfl | h
      · simp
      · have hge := (audioStreams_ge s h).1
        rw [show s.1 - i = s.1 - (i + 1) + 1 by omega]
        simpa using ih h
    | false =>
      rw [audioStreams_of_other haudio] at h
      have hge := (audioStreams_ge s h).1
      rw [show s.1 - i = s.1 - (i + 1) + 1 by omega]
      simpa using ih h

def givenPackets (lib : Libav) (first : ℕ × AVStream) (d : AVCodecContext)
    (packets : List AVPacket) : List AVPacket :=
  (packets.filter fun packet => packet.streamIndex = first.1).map fun packet =>
    lib.rescale packet first.2.timeBase d.timeBase

/-- The call for the first audio stream can feed all its packets: there are none, or the packet is
allocated and the decoder, the last audio stream's, takes each but possibly the last. -/
def FeedsAll (lib : Libav) (streams : List AVStream) (packets : List AVPacket) : Prop :=
  ∀ first last, (audioStreams 0 streams).head? = some first →
    (audioStreams 0 streams).getLast? = some last →
    let d := decoderContext lib last.1 last.2
    givenPackets lib first d packets = [] ∨ lib.allocPacket = true ∧
      TakesAll (fun history => (lib.decoder d (history.map some)).code) []
        (givenPackets lib first d packets)

theorem decoderInput_eq {lib : Libav} {streams : List AVStream} {first : ℕ × AVStream}
    (hfirst : first ∈ audioStreams 0 streams) (d : AVCodecContext) (out : OutputContext)
    (packets : List AVPacket) :
    (pipelineOf lib streams first.1 d out).decoderInput lib packets =
      givenPackets lib first d packets := by
  have hstream : streams[first.1]? = some first.2 := by
    simpa using getElem?_of_mem_audioStreams hfirst
  refine List.map_congr_left fun packet hpacket => ?_
  have hindex : packet.streamIndex = first.1 := of_decide_eq_true (List.mem_filter.mp hpacket).2
  simp [Pipeline.toDecoder, Pipeline.inTimeBase, pipelineOf, hindex, hstream]

/-- A call that returned a handle fed packets of the first audio stream and left the others of it;
it left none exactly when it could feed them all. -/
theorem handle_fed {c : Platform} {lib : Libav} {w : World} {all : List AVStream}
    {packets : List (Received AVPacket)}
    (h : (doTranscode c lib w (callOn all packets)).1.handle.isSome = true) :
    let r := (doTranscode c lib w (callOn all packets)).1
    ∃ first, (audioStreams 0 all).head? = some first ∧
      fed r.log ++ ofStream first.1 r.rest = ofStream first.1 packets ∧
      ∀ ps : List AVPacket, packets = ps.map .got →
        (ofStream first.1 r.rest = [] ↔ FeedsAll lib all ps) := by
  obtain ⟨hret, p, hp⟩ := entered_of_handle h
  have hfed := (entered_segment hp).2
  obtain ⟨selected, d, out, hprep, rfl, hrun⟩ := doTranscode_entered hp
  have hinput : (callOn all packets).input lib = ⟨all, packets⟩ := rfl
  simp only [hinput] at hfed hprep hrun
  have hfirst := hprep.first
  rw [List.head?_map, Option.map_eq_some_iff] at hfirst
  obtain ⟨first, hfirst, rfl⟩ := hfirst
  refine ⟨first, hfirst, hfed, ?_⟩
  rintro ps rfl
  rw [hrun] at hret ⊢
  have hrest := transcodePackets_rest c lib (pipelineOf lib all first.1 d out) rfl ps
    (prepare c lib w (callOn all (ps.map .got))).2.2 hret
  rw [decoderInput_eq (List.mem_of_mem_head? hfirst)] at hrest
  refine hrest.trans ?_
  obtain ⟨j, stream, hlast, hd⟩ := hprep.last
  subst hd
  constructor
  · intro hfeeds first' last' hfirst' hlast'
    obtain rfl : first = first' := Option.some.inj (hfirst.symm.trans hfirst')
    obtain rfl : (j, stream) = last' := Option.some.inj (hlast.symm.trans hlast')
    exact hfeeds
  · intro hfeeds
    exact hfeeds first (j, stream) hfirst hlast

section
variable (c : Platform) (libs : ℕ → Libav) {all : List AVStream}

theorem fingerprints_stream_ge (i : ℕ) (streams : List AVStream)
    (packets : List (Received AVPacket)) (w : World) :
    ∀ r ∈ getMetadateStreams c libs all i streams packets w, i ≤ r.stream := by
  induction streams generalizing i packets w with
  | nil => simp [getMetadateStreams]
  | cons stream streams ih =>
    intro r hr
    cases haudio : stream.isAudio with
    | false =>
      rw [getMetadateStreams_of_other haudio] at hr
      exact Nat.le_of_succ_le (ih _ _ _ r hr)
    | true =>
      rcases getMetadateStreams_of_audio haudio c libs all i streams packets w with
        hnil | ⟨-, chromaprint, w', hcons⟩
      · rw [hnil] at hr
        exact (List.not_mem_nil hr).elim
      · rw [hcons] at hr
        rcases List.mem_cons.mp hr with rfl | hr
        · exact Nat.le_refl i
        · exact Nat.le_of_succ_le (ih _ _ _ r hr)

theorem fingerprints_exhausted {first : ℕ × AVStream}
    (hfirst : (audioStreams 0 all).head? = some first) (i : ℕ) (streams : List AVStream)
    {packets : List (Received AVPacket)} (hempty : ofStream first.1 packets = []) (w : World) :
    ∀ r ∈ getMetadateStreams c libs all i streams packets w, fed r.made.log = [] := by
  induction streams generalizing i packets w with
  | nil => simp [getMetadateStreams]
  | cons stream streams ih =>
    intro r hr
    cases haudio : stream.isAudio with
    | false =>
      rw [getMetadateStreams_of_other haudio] at hr
      exact ih _ hempty _ r hr
    | true =>
      rcases getMetadateStreams_of_audio haudio c libs all i streams packets w with
        hnil | ⟨hhandle, chromaprint, w', hcons⟩
      · rw [hnil] at hr
        exact (List.not_mem_nil hr).elim
      · obtain ⟨first', hfirst', hfed, -⟩ := handle_fed hhandle
        obtain rfl : first = first' := Option.some.inj (hfirst.symm.trans hfirst')
        rw [hempty, List.append_eq_nil_iff] at hfed
        rw [hcons] at hr
        rcases List.mem_cons.mp hr with rfl | hr
        · exact hfed.1
        · exact ih _ hfed.2 _ r hr

def OwnPackets (packets : List AVPacket) (r : Fingerprint) : Prop :=
  fed r.made.log = packets.filter fun packet => packet.streamIndex = r.stream

instance (packets : List AVPacket) (r : Fingerprint) : Decidable (OwnPackets packets r) :=
  inferInstanceAs (Decidable (_ = _))

/-- The first audio stream's call can feed it whole; any other stream has no packets at all. -/
def Feedable (streams : List AVStream) (packets : List AVPacket) (stream : ℕ) : Prop :=
  if (audioStreams 0 streams).head?.map Prod.fst = some stream then
    FeedsAll (libs stream) streams packets
  else packets.filter (fun packet => packet.streamIndex = stream) = []

theorem ownPackets_from (i : ℕ) (streams : List AVStream)
    (hsame : audioStreams i streams = audioStreams 0 all) (packets : List AVPacket) (w : World) :
    (∀ r ∈ getMetadateStreams c libs all i streams (packets.map .got) w, OwnPackets packets r) ↔
      ∀ r ∈ getMetadateStreams c libs all i streams (packets.map .got) w,
        Feedable libs all packets r.stream := by
  induction streams generalizing i w with
  | nil => simp [getMetadateStreams]
  | cons stream streams ih =>
    cases haudio : stream.isAudio with
    | false =>
      rw [getMetadateStreams_of_other haudio]
      rw [audioStreams_of_other haudio] at hsame
      exact ih _ hsame _
    | true =>
      rw [audioStreams_of_audio haudio] at hsame
      have hhead : (audioStreams 0 all).head? = some (i, stream) := by
        rw [← hsame]
        rfl
      rcases getMetadateStreams_of_audio haudio c libs all i streams (packets.map .got) w with
        hnil | ⟨hhandle, chromaprint, w', hcons⟩
      · rw [hnil]
        simp
      · obtain ⟨first, hfirst, hfed, hrest⟩ := handle_fed hhandle
        obtain rfl : (i, stream) = first := Option.some.inj (hhead.symm.trans hfirst)
        have hrest := hrest packets rfl
        rw [ofStream_map_got] at hfed
        have hown : OwnPackets packets
            ⟨i, chromaprint, (doTranscode c (libs i) w (callOn all (packets.map .got))).1⟩ ↔
            FeedsAll (libs i) all packets := by
          rw [← hrest, OwnPackets, ← hfed]
          exact List.self_eq_append_right
        have hfeedable : Feedable libs all packets i ↔ FeedsAll (libs i) all packets := by
          simp [Feedable, hhead]
        rw [hcons, List.forall_mem_cons, List.forall_mem_cons, hown, hfeedable]
        refine and_congr_right fun hfeeds => forall₂_congr fun r hr => ?_
        -- the later calls find nothing of the first audio stream
        have hfed' := fingerprints_exhausted c libs hhead _ _ (hrest.mpr hfeeds) _ r hr
        have hge := fingerprints_stream_ge c libs _ _ _ _ r hr
        have hother : ¬ (audioStreams 0 all).head?.map Prod.fst = some r.stream := by
          rw [hhead]
          simp only [Option.map_some, Option.some.injEq]
          omega
        rw [OwnPackets, hfed', Feedable, if_neg hother]
        exact eq_comm

end

/-- Each chromaprint is made from its own stream exactly when the first audio stream is fed whole
and no other stream that gets a chromaprint has a packet. -/
theorem fingerprints_own_iff (c : Platform) (libs : ℕ → Libav) (w : World)
    (streams : List AVStream) (packets : List AVPacket) :
    (∀ r ∈ getMetadateStreams c libs streams 0 streams (packets.map .got) w,
        OwnPackets packets r) ↔
      ∀ r ∈ getMetadateStreams c libs streams 0 streams (packets.map .got) w,
        Feedable libs streams packets r.stream :=
  ownPackets_from c libs 0 streams rfl packets w

/-- The second of two audio streams is fingerprinted from nothing. -/
theorem second_fingerprint_of_nothing :
    ¬ ∀ (c : Platform) (libs : ℕ → Libav) (w : World) (streams : List AVStream)
      (packets : List AVPacket),
      ∀ r ∈ getMetadateStreams c libs streams 0 streams (packets.map .got) w,
        OwnPackets packets r := by
  intro h
  exact absurd (h Platform.generous (fun _ => Libav.smooth) World.start
    [.plain .audio, .plain .audio] [.plain 0 7, .plain 1 8]) (by decide +kernel)

end AudioFS.Transcode
