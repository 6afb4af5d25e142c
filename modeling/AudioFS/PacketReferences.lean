import AudioFS.StreamSelection

/-!
# References held by the packet of the loop

`av_read_frame` leaves a reference in the packet, and `av_packet_unref`, the
muxer (for a packet that is remuxed) or `av_packet_free` takes it out again. The
ledger is read off the log of the loop. No reference gets lost but where a packet
is read over one that still holds its own: after each packet of another stream.
-/

namespace AudioFS.Transcode
open AudioFS.CustomAvio

/-- The references taken so far, those given back, whether the packet holds one, and how often
`av_read_frame` was called while it did. -/
structure References where
  acquired : ℕ
  released : ℕ
  held : Bool
  readWhileHeld : ℕ

namespace References

def start : References := ⟨0, 0, false, 0⟩

/-- `av_packet_unref` and `av_packet_free`, which do nothing for a blank packet. -/
def release (g : References) : References :=
  if g.held then { g with released := g.released + 1, held := false } else g

/-- A failed read leaves a blank packet. -/
def readFrame (g : References) (code : ℤ) : References where
  acquired := if 0 ≤ code then g.acquired + 1 else g.acquired
  released := g.released
  held := decide (0 ≤ code)
  readWhileHeld := if g.held then g.readWhileHeld + 1 else g.readWhileHeld

/-- A remuxed packet is handed over to the muxer, also when the write fails. -/
def note (remuxes : Bool) (g : References) : Event → References
  | .readFrame code => g.readFrame code
  | .packetUnref => g.release
  | .writeFrame _ _ => if remuxes then g.release else g
  | _ => g

def heldCount (g : References) : ℕ := if g.held then 1 else 0

theorem held_release (g : References) : g.release.held = false := by
  cases hheld : g.held <;> simp [release, hheld]

theorem heldCount_release (g : References) : g.release.heldCount = 0 := by
  rw [heldCount, held_release]
  rfl

theorem readWhileHeld_release (g : References) : g.release.readWhileHeld = g.readWhileHeld := by
  cases hheld : g.held <;> simp [release, hheld]

theorem readWhileHeld_readFrame (g : References) (code : ℤ) :
    (g.readFrame code).readWhileHeld = g.readWhileHeld + g.heldCount := by
  cases hheld : g.held <;> simp [readFrame, heldCount, hheld]

/-- Every reference is released, held, or was overwritten. -/
def Conserved (g : References) : Prop := g.acquired = g.released + g.readWhileHeld + g.heldCount

theorem release_conserved {g : References} (h : g.Conserved) : g.release.Conserved := by
  cases hheld : g.held with
  | true =>
    simp only [Conserved, heldCount, release, hheld, if_true, Bool.false_eq_true, if_false] at h ⊢
    omega
  | false =>
    rwa [release, hheld, if_neg (by decide)]

theorem readFrame_conserved {g : References} (h : g.Conserved) (code : ℤ) :
    (g.readFrame code).Conserved := by
  simp only [Conserved, heldCount, readFrame, decide_eq_true_eq] at h ⊢
  split_ifs at h ⊢ <;> omega

theorem note_conserved (remuxes : Bool) {g : References} (h : g.Conserved) (e : Event) :
    (g.note remuxes e).Conserved := by
  cases e with
  | readFrame code => exact readFrame_conserved h code
  | packetUnref => exact release_conserved h
  | writeFrame packet code =>
    simp only [note]
    split_ifs
    · exact release_conserved h
    · exact h
  | _ => exact h

end References

def references (remuxes : Bool) (log : List Event) : References :=
  log.foldl (References.note remuxes) References.start

theorem references_concat (remuxes : Bool) (log : List Event) (e : Event) :
    references remuxes (log ++ [e]) = (references remuxes log).note remuxes e := by
  simp [references]

theorem references_conserved (remuxes : Bool) (log : List Event) :
    (references remuxes log).Conserved := by
  induction log using List.reverseRecOn with
  | nil => rfl
  | append_singleton log e ih =>
    rw [references_concat]
    exact References.note_conserved remuxes ih e

def Progress.references (remuxes : Bool) (st : Progress) : References :=
  Transcode.references remuxes st.log

variable (remuxes : Bool)

@[simp] theorem references_note (st : Progress) (e : Event) :
    (st.note e).references remuxes = (st.references remuxes).note remuxes e :=
  references_concat remuxes st.log e

/-- A write of the encoder's packet does not touch the loop's packet. A ledger that counts writes
as handovers does not notice either, as long as there is nothing to hand over. -/
def Untouched (remuxes : Bool) (st st' : Progress) : Prop :=
  (remuxes = true → (st.references remuxes).held = false) →
    st'.references remuxes = st.references remuxes

variable {remuxes} in
theorem Untouched.refl (st : Progress) : Untouched remuxes st st := fun _ => rfl

variable {remuxes} in
theorem Untouched.trans {st st₁ st₂ : Progress} (h : Untouched remuxes st st₁)
    (h' : Untouched remuxes st₁ st₂) : Untouched remuxes st st₂ := by
  intro hheld
  have hfirst := h hheld
  exact (h' (by rwa [hfirst])).trans hfirst

variable {remuxes} in
theorem Untouched.of_log {st st₁ st₂ : Progress} (h : Untouched remuxes st st₁)
    (hlog : st₂.log = st₁.log) : Untouched remuxes st st₂ := by
  intro hheld
  have hsame : st₂.references remuxes = st₁.references remuxes :=
    congrArg (references remuxes) hlog
  exact hsame.trans (h hheld)

def Event.Aside : Event → Prop
  | .readFrame _ => False
  | .packetUnref => False
  | _ => True

theorem untouched_note (st : Progress) {e : Event} (h : e.Aside) :
    Untouched remuxes st (st.note e) := by
  intro hheld
  rw [references_note]
  cases e with
  | readFrame _ => exact h.elim
  | packetUnref => exact h.elim
  | writeFrame _ _ =>
    simp only [References.note, References.release]
    split_ifs with hremuxes hrefs
    · exact absurd hrefs (by rw [hheld hremuxes]; decide)
    · rfl
    · rfl
  | _ => rfl

section
variable (c : Platform) (lib : Libav) (p : Pipeline)

theorem avInterleavedWriteFrame_untouched (packet : AVPacket) (st : Progress) :
    Untouched remuxes st (avInterleavedWriteFrame c lib packet st).2 :=
  (untouched_note remuxes st (e := .writeFrame packet (avInterleavedWriteFrame c lib packet st).1)
    trivial).of_log rfl

theorem writePackets_untouched (k : ℕ) (received : List (Received AVPacket)) (st : Progress) :
    Untouched remuxes st (writePackets c lib p k received st).2 := by
  induction received generalizing st with
  | nil => exact untouched_note remuxes st trivial
  | cons received rest ih =>
    have hreceive := untouched_note remuxes st (e := .receivePacket received) trivial
    cases received with
    | got packet =>
      have hwrite := hreceive.trans
        (avInterleavedWriteFrame_untouched remuxes c lib (stamp lib p k packet) _)
      simp only [writePackets]
      split_ifs
      · exact hwrite
      · exact hwrite.trans (ih _)
    | failed error =>
      have hwrite := hreceive.trans
        (avInterleavedWriteFrame_untouched remuxes c lib (stamp lib p k .blank) _)
      simp only [writePackets]
      split_ifs
      · exact hreceive
      · exact hwrite
      · exact hwrite.trans (ih _)

theorem encodeWriteFrame_untouched (k : ℕ) (frame : Option AVFrame) (st : Progress) :
    Untouched remuxes st (encodeWriteFrame c lib p k frame st).2 := by
  have hsend : Untouched remuxes st (avcodecSendFrame lib p frame st).2 :=
    (untouched_note remuxes st (e := .sendFrame (avcodecSendFrame lib p frame st).1.code) trivial).of_log
      rfl
  simp only [encodeWriteFrame]
  split_ifs
  · exact hsend
  · exact hsend.trans (writePackets_untouched remuxes c lib p k _ _)

theorem pullFrames_untouched (k : ℕ) (received : List (Received AVFrame)) (st : Progress) :
    Untouched remuxes st (pullFrames c lib p k received st).2 := by
  induction received generalizing st with
  | nil => exact untouched_note remuxes st trivial
  | cons received rest ih =>
    cases received with
    | got frame =>
      have hencode := (untouched_note remuxes st (e := .getFrame 0) trivial).trans
        (encodeWriteFrame_untouched remuxes c lib p k (some { frame with pictType := 0 }) _)
      simp only [pullFrames]
      split_ifs
      · exact hencode
      · exact hencode.trans (ih _)
    | failed error => exact untouched_note remuxes st trivial

theorem filterEncodeWriteFrame_untouched (k : ℕ) (graph : AVFilterGraph) (frame : Option AVFrame)
    (st : Progress) :
    Untouched remuxes st (filterEncodeWriteFrame c lib p graph frame k st).2 := by
  have hpush : Untouched remuxes st (avBuffersrcAddFrame lib graph frame st).2 :=
    (untouched_note remuxes st (e := .addFrame (avBuffersrcAddFrame lib graph frame st).1.code)
      trivial).of_log rfl
  simp only [filterEncodeWriteFrame]
  split_ifs
  · exact hpush
  · exact hpush.trans (pullFrames_untouched remuxes c lib p k _ _)

theorem receiveFrames_untouched (graph : AVFilterGraph) (k : ℕ)
    (received : List (Received AVFrame)) (st : Progress) :
    Untouched remuxes st (receiveFrames c lib p graph k received st).2 := by
  induction received generalizing st with
  | nil => exact untouched_note remuxes st trivial
  | cons received rest ih =>
    cases received with
    | got frame =>
      have hfilter := (untouched_note remuxes st (e := .receiveFrame 0) trivial).trans
        (filterEncodeWriteFrame_untouched remuxes c lib p k graph
          (some { frame with pts := frame.bestEffortTimestamp }) _)
      simp only [receiveFrames]
      split_ifs
      · exact hfilter
      · exact hfilter.trans (ih _)
    | failed error => exact untouched_note remuxes st trivial

theorem transcodePacket_untouched (graph : AVFilterGraph) (packet : AVPacket) (st : Progress) :
    Untouched remuxes st (transcodePacket c lib p graph packet st).2 := by
  have hsend : Untouched remuxes st (avcodecSendPacket lib p packet st).2 :=
    (untouched_note remuxes st (e := .sendPacket packet (p.toDecoder lib packet)
      (avcodecSendPacket lib p packet st).1.code) trivial).of_log rfl
  simp only [transcodePacket]
  split_ifs
  · exact hsend
  · exact hsend.trans (receiveFrames_untouched remuxes c lib p graph _ _ _)

theorem finish_untouched (st : Progress) :
    Untouched remuxes st (finish c lib p st).2 := by
  have hflush : Untouched remuxes st (flushEncoder c lib p p.selected st).2 := by
    unfold flushEncoder
    split_ifs
    · exact encodeWriteFrame_untouched remuxes c lib p p.selected none st
    · exact .refl st
  simp only [finish]
  split_ifs
  · exact hflush
  · exact hflush.trans ((untouched_note remuxes _ (e := .writeTrailer _) trivial).of_log rfl)

theorem flushAll_untouched (st : Progress) :
    Untouched remuxes st (flushAll c lib p st).2 := by
  cases hgraph : p.filterGraph with
  | none =>
    simp only [flushAll, hgraph]
    exact finish_untouched remuxes c lib p st
  | some graph =>
    have hfilter := filterEncodeWriteFrame_untouched remuxes c lib p p.selected graph
      none st
    simp only [flushAll, hgraph]
    split_ifs
    · exact hfilter
    · exact hfilter.trans (finish_untouched remuxes c lib p _)

def strays (k : ℕ) (packets : List (Received AVPacket)) : List AVPacket :=
  (packets.filterMap Received.value?).filter fun packet => packet.streamIndex ≠ k

theorem strays_got_eq {k : ℕ} {packet : AVPacket} (h : packet.streamIndex = k)
    (rest : List (Received AVPacket)) : strays k (.got packet :: rest) = strays k rest := by
  simp [strays, Received.value?, h]

theorem strays_got_ne {k : ℕ} {packet : AVPacket} (h : packet.streamIndex ≠ k)
    (rest : List (Received AVPacket)) :
    strays k (.got packet :: rest) = packet :: strays k rest := by
  simp [strays, Received.value?, h]

theorem strays_eq_nil_iff {k : ℕ} {packets : List (Received AVPacket)} :
    strays k packets = [] ↔ ∀ packet, .got packet ∈ packets → packet.streamIndex = k := by
  rw [strays, List.filter_eq_nil_iff]
  constructor
  · intro h packet hmem
    have hread : packet ∈ packets.filterMap Received.value? :=
      List.mem_filterMap.mpr ⟨_, hmem, rfl⟩
    simpa using h packet hread
  · intro h packet hread
    obtain ⟨received, hmem, hvalue⟩ := List.mem_filterMap.mp hread
    cases received with
    | failed error => simp [Received.value?] at hvalue
    | got packet' =>
      have hsame : packet' = packet := Option.some.inj hvalue
      rw [← hsame]
      simpa using h packet' hmem

/-- What one pass of the loop does with a packet of the selected stream. -/
def passPacket (packet : AVPacket) (st : Progress) : Flow × Progress :=
  match p.filterGraph with
  | some graph => transcodePacket c lib p graph packet st
  | none => remuxPacket c lib p packet st

variable {c lib p} in
theorem packetLoop_next {packet : AVPacket} (hsel : packet.streamIndex = p.selected)
    {st st' : Progress} (h : passPacket c lib p packet (st.note (.readFrame 0)) = (.next, st'))
    (rest : List (Received AVPacket)) :
    packetLoop c lib p (.got packet :: rest) st =
      packetLoop c lib p rest (st'.note .packetUnref) := by
  unfold passPacket at h
  cases hgraph : p.filterGraph <;>
    simp only [hgraph] at h <;>
    simp only [packetLoop, hsel, ne_eq, not_true_eq_false, if_false, hgraph, h]

variable {c lib p} in
theorem packetLoop_left {packet : AVPacket} (hsel : packet.streamIndex = p.selected)
    {st st' : Progress} {flow : Flow} (hflow : flow ≠ .next)
    (h : passPacket c lib p packet (st.note (.readFrame 0)) = (flow, st'))
    (rest : List (Received AVPacket)) :
    packetLoop c lib p (.got packet :: rest) st = (flow, rest, st') := by
  unfold passPacket at h
  cases flow with
  | next => exact absurd rfl hflow
  | leave =>
    cases hgraph : p.filterGraph <;>
      simp only [hgraph] at h <;>
      simp only [packetLoop, hsel, ne_eq, not_true_eq_false, if_false, hgraph, h]
  | stop code =>
    cases hgraph : p.filterGraph <;>
      simp only [hgraph] at h <;>
      simp only [packetLoop, hsel, ne_eq, not_true_eq_false, if_false, hgraph, h]

theorem pass_references (packet : AVPacket) (st : Progress) :
    ((passPacket c lib p packet st).2.references p.filterGraph.isNone).readWhileHeld =
        (st.references p.filterGraph.isNone).readWhileHeld ∧
      (p.filterGraph.isNone = true → (passPacket c lib p packet st).1 ≠ .leave) := by
  unfold passPacket
  cases hgraph : p.filterGraph with
  | some graph =>
    have huntouched := transcodePacket_untouched false c lib p graph packet st
    exact ⟨congrArg References.readWhileHeld (huntouched (fun h => absurd h (by decide))),
      by simp⟩
  | none =>
    have hmuxed (packet : AVPacket) :
        ((avInterleavedWriteFrame c lib packet st).2.references true).readWhileHeld =
          (st.references true).readWhileHeld := by
      have hnote : (avInterleavedWriteFrame c lib packet st).2.references true =
          (st.references true).release :=
        references_concat true st.log (.writeFrame packet _)
      rw [hnote, References.readWhileHeld_release]
    simp only [remuxPacket, Option.isNone_none]
    split_ifs
    · exact ⟨hmuxed _, by simp⟩
    · exact ⟨hmuxed _, by simp⟩

/-- What the loop leaves: it read over a reference once for every packet of another stream that
it was given, and without a filter graph only a `goto end` leaves a reference behind. -/
structure Drained (p : Pipeline) (packets : List (Received AVPacket)) (st : Progress)
    (r : Flow × List (Received AVPacket) × Progress) (taken : List (Received AVPacket)) : Prop where
  delivered : packets = taken ++ r.2.1
  readWhileHeld : (r.2.2.references p.filterGraph.isNone).readWhileHeld =
    (st.references p.filterGraph.isNone).readWhileHeld +
      (st.references p.filterGraph.isNone).heldCount + (strays p.selected taken).length
  blank : p.filterGraph.isNone = true → (∀ code, r.1 ≠ .stop code) →
    (r.2.2.references p.filterGraph.isNone).held = false

theorem read_references (code : ℤ) (st : Progress) :
    ((st.note (.readFrame code)).references remuxes).readWhileHeld =
        (st.references remuxes).readWhileHeld + (st.references remuxes).heldCount := by
  rw [references_note]
  exact References.readWhileHeld_readFrame _ code

theorem drained_failed (error : AVError) (st : Progress) (taken rest : List (Received AVPacket))
    (hstrays : strays p.selected taken = []) :
    Drained p (taken ++ rest) st (.leave, rest, st.note (.readFrame error.code)) taken := by
  refine ⟨rfl, ?_, fun _ _ => ?_⟩
  · rw [read_references, hstrays]
    rfl
  · rw [references_note]
    exact decide_eq_false (not_le.mpr error.negative)

theorem packetLoop_drained (packets : List (Received AVPacket)) (st : Progress) :
    ∃ taken, Drained p packets st (packetLoop c lib p packets st) taken := by
  induction packets generalizing st with
  | nil => exact ⟨[], drained_failed p AVERROR_EOF st [] [] rfl⟩
  | cons received rest ih =>
    cases received with
    | failed error => exact ⟨[.failed error], drained_failed p error st [.failed error] rest rfl⟩
    | got packet =>
      have hread := read_references p.filterGraph.isNone 0 st
      have hheld : ((st.note (.readFrame 0)).references p.filterGraph.isNone).heldCount = 1 := by
        rw [references_note]
        rfl
      by_cases hsel : packet.streamIndex = p.selected
      · have hstrays := strays_got_eq hsel
        obtain ⟨hcount, hleave⟩ := pass_references c lib p packet (st.note (.readFrame 0))
        generalize hpass : passPacket c lib p packet (st.note (.readFrame 0)) = r at hcount hleave
        obtain ⟨flow, st'⟩ := r
        cases flow with
        | next =>
          obtain ⟨taken, htaken, hloop, hblank⟩ := ih (st'.note .packetUnref)
          rw [packetLoop_next hsel hpass]
          refine ⟨.got packet :: taken, congrArg (.got packet :: ·) htaken, ?_, hblank⟩
          have hunref : (st'.note .packetUnref).references p.filterGraph.isNone =
              (st'.references p.filterGraph.isNone).release := references_note _ _ _
          rw [hloop, hstrays, hunref, References.readWhileHeld_release,
            References.heldCount_release, hcount, hread, Nat.add_zero]
        | leave =>
          rw [packetLoop_left hsel (by simp) hpass]
          refine ⟨[.got packet], rfl, ?_, fun hnone _ => absurd rfl (hleave hnone)⟩
          rw [hstrays]
          exact hcount.trans hread
        | stop code =>
          rw [packetLoop_left hsel (by simp) hpass]
          refine ⟨[.got packet], rfl, ?_, fun _ hstop => absurd rfl (hstop code)⟩
          rw [hstrays]
          exact hcount.trans hread
      · obtain ⟨taken, htaken, hloop, hblank⟩ := ih (st.note (.readFrame 0))
        simp only [packetLoop, ne_eq, hsel, not_false_eq_true, if_true]
        refine ⟨.got packet :: taken, congrArg (.got packet :: ·) htaken, ?_, hblank⟩
        rw [hloop, hread, hheld, strays_got_ne hsel, List.length_cons]
        omega

theorem transcodePackets_references (packets : List (Received AVPacket)) (io : Io) :
    let t := transcodePackets c lib p packets io
    ∃ taken, packets = taken ++ t.2.1 ∧
      (t.2.2.references p.filterGraph.isNone).readWhileHeld = (strays p.selected taken).length := by
  have hstart : ((Progress.start io).note (.packetAlloc lib.allocPacket)).references
      p.filterGraph.isNone = References.start := references_note _ _ _
  simp only [transcodePackets]
  split_ifs
  · obtain ⟨taken, htaken, hcount, hblank⟩ := packetLoop_drained c lib p packets
      ((Progress.start io).note (.packetAlloc lib.allocPacket))
    rw [hstart] at hcount
    generalize packetLoop c lib p packets _ = r at htaken hcount hblank ⊢
    obtain ⟨flow, rest, st⟩ := r
    have hflush (hflow : ∀ code, flow ≠ .stop code) :
        ((flushAll c lib p st).2.references p.filterGraph.isNone).readWhileHeld =
          (strays p.selected taken).length := by
      rw [flushAll_untouched _ c lib p st (fun hnone => hblank hnone hflow), hcount]
      simp [References.start, References.heldCount]
    cases flow with
    | stop code => exact ⟨taken, htaken, by simpa [References.start, References.heldCount] using hcount⟩
    | next => exact ⟨taken, htaken, hflush (by simp)⟩
    | leave => exact ⟨taken, htaken, hflush (by simp)⟩
  · exact ⟨[], rfl, by rw [hstart]; rfl⟩

end

/-- Whenever `av_read_frame` is called the packet holds nothing, and `av_packet_free` at the end
gives back the last reference that is still out. -/
structure References.Balanced (g : References) : Prop where
  blankWhenRead : g.readWhileHeld = 0
  allReleased : g.release.released = g.release.acquired

theorem References.all_returned_iff {g : References} (h : g.Conserved) :
    g.Balanced ↔ g.readWhileHeld = 0 := by
  refine ⟨fun hb => hb.blankWhenRead, fun hzero => ⟨hzero, ?_⟩⟩
  have hend := release_conserved h
  rw [Conserved, readWhileHeld_release, heldCount_release, hzero] at hend
  omega

def Outcome.references (o : Outcome) : References :=
  Transcode.references (o.entered.any fun p => p.filterGraph.isNone) o.log

def Outcome.delivered (o : Outcome) (packets : List (Received AVPacket)) :
    List (Received AVPacket) :=
  packets.take (packets.length - o.rest.length)

theorem take_of_eq_append {α : Type*} {l taken rest : List α} (h : l = taken ++ rest) :
    l.take (l.length - rest.length) = taken := by
  subst h
  simp

/-- The references of a transcoding are balanced exactly when every packet it read belongs to the
selected stream. -/
theorem packet_references_balanced_iff (c : Platform) (lib : Libav) (w : World)
    (request : Request) :
    let o := (doTranscode c lib w request).1
    o.references.Balanced ↔ ∀ p, o.entered = some p →
      ∀ packet, .got packet ∈ o.delivered (request.input lib).packets →
        packet.streamIndex = p.selected := by
  intro o
  have hbalanced : o.references.Balanced ↔ o.references.readWhileHeld = 0 :=
    References.all_returned_iff (references_conserved _ _)
  rw [hbalanced]
  rcases doTranscode_cases c lib w request with ⟨-, hleave⟩ | ⟨selected, d, out, -, hrun⟩
  · have hnone : o.entered = none := by
      simp only [o, hleave]
      rfl
    have hlog : o.log = [] := by
      simp only [o, hleave]
      rfl
    refine iff_of_true ?_ (by simp [hnone])
    rw [Outcome.references, hlog]
    rfl
  · let p := pipelineOf lib (request.input lib).streams selected d out
    have hp : o.entered = some p := by
      simp only [o, hrun]
      rfl
    obtain ⟨taken, htaken, hcount⟩ := transcodePackets_references c lib p
      (request.input lib).packets (prepare c lib w request).2.2
    have hdelivered : o.delivered (request.input lib).packets = taken := by
      apply take_of_eq_append
      simp only [o, hrun]
      exact htaken
    have hrefs : o.references.readWhileHeld = (strays p.selected taken).length := by
      rw [← hcount]
      simp only [o, hrun]
      rfl
    rw [hrefs, hdelivered, List.length_eq_zero_iff, strays_eq_nil_iff, hp]
    constructor
    · intro h p' hp'
      rw [← Option.some.inj hp']
      exact h
    · intro h
      exact h p rfl

theorem video_packet_leaks :
    ¬ ∀ (c : Platform) (lib : Libav) (w : World) (request : Request),
      (doTranscode c lib w request).1.references.Balanced := by
  intro h
  have hblank := (h Platform.generous Libav.smooth World.start audioFirst).blankWhenRead
  exact absurd hblank (by decide +kernel)

end AudioFS.Transcode
