import AudioFS.CallAutomaton
import AudioFS.StreamSelection

/-!
# The order of library calls

libav expects its callers to keep an order: what a decoder, a filter graph or an
encoder was sent is received until it asks for more, a packet goes to the muxer
once it was received, and the trailer ends the file. The phases of the packet
loop are the states of an automaton over its log, and every log is a walk of it.
-/

namespace AudioFS.Transcode
open AudioFS.CustomAvio CallAutomaton

/-- What the encoder works on: frames of the filter graph, in the loop or when it is flushed, or
the end of its own input. -/
inductive Stage
  | frames (flush : Bool)
  | encoderFlush
  deriving DecidableEq

inductive Phase
  | opened
  | reading
  | demuxed
  | decoding
  | decoded
  | unref
  | pulling (flush : Bool)
  | pulled (flush : Bool)
  | encoding (s : Stage)
  | packed (s : Stage)
  | flushing
  | finishing
  | trailer
  | done
  | failed
  | refused
  deriving DecidableEq

def afterFilter (flush : Bool) : Phase := if flush then .finishing else .decoding

def Stage.afterEncoder : Stage → Phase
  | .frames flush => .pulling flush
  | .encoderFlush => .trailer

def checked (code : ℤ) (q : Phase) : Phase := if code < 0 then .failed else q

/-- What a receive call leads to: the error that asks for more input, a result, or a failure. -/
def received (code : ℤ) (drained got : Phase) : Phase :=
  if Expected code then drained else checked code got

def leaveLoop (filtered : Bool) : Phase := if filtered then .flushing else .finishing

/-- The call that may come next, with a filter graph or without, and for an encoder with or
without a delay. -/
def next (filtered delay : Bool) : Phase → Event → Option Phase
  | .opened, .packetAlloc granted => some (if granted then .reading else .refused)
  | .reading, .readFrame code => some (if code < 0 then leaveLoop filtered else .demuxed)
  -- a packet of another stream is passed over
  | .demuxed, .readFrame code => some (if code < 0 then leaveLoop filtered else .demuxed)
  | .demuxed, .sendPacket _ _ code =>
    if filtered then some (if code < 0 then .flushing else .decoding) else none
  | .demuxed, .writeFrame _ code => if filtered then none else some (checked code .unref)
  | .decoding, .receiveFrame code => some (received code .unref .decoded)
  | .unref, .packetUnref => some .reading
  | .decoded, .addFrame code => some (checked code (.pulling false))
  | .pulling flush, .getFrame code => some (received code (afterFilter flush) (.pulled flush))
  | .pulled flush, .sendFrame code => some (checked code (.encoding (.frames flush)))
  | .encoding s, .receivePacket answer =>
    some (if Expected answer.code then s.afterEncoder else .packed s)
  | .packed s, .writeFrame _ code => some (checked code (.encoding s))
  | .flushing, .addFrame code => some (checked code (.pulling true))
  | .finishing, .sendFrame code =>
    if delay then some (checked code (.encoding .encoderFlush)) else none
  | .finishing, .writeTrailer _ => if delay then none else some .done
  | .trailer, .writeTrailer _ => some .done
  | _, _ => none

/-- A function appended to the log a walk from one phase to another. -/
def Calls (filtered delay : Bool) (q : Phase) (st : Progress) (q' : Phase) (st' : Progress) :
    Prop :=
  ∃ new, st'.log = st.log ++ new ∧ Walk (next filtered delay) q new q'

section
variable {filtered delay : Bool}

theorem Calls.trans {q q₁ q₂ : Phase} {st st₁ st₂ : Progress}
    (h : Calls filtered delay q st q₁ st₁) (h' : Calls filtered delay q₁ st₁ q₂ st₂) :
    Calls filtered delay q st q₂ st₂ := by
  obtain ⟨new, hlog, hwalk⟩ := h
  obtain ⟨new', hlog', hwalk'⟩ := h'
  exact ⟨new ++ new', by rw [hlog', hlog, List.append_assoc], hwalk.append hwalk'⟩

theorem Calls.one {q q' : Phase} {st st' : Progress} (e : Event)
    (hlog : st'.log = st.log ++ [e]) (h : next filtered delay q e = some q') :
    Calls filtered delay q st q' st' := ⟨[e], hlog, Walk.single h⟩

theorem Calls.stay (q : Phase) (st : Progress) : Calls filtered delay q st q st :=
  ⟨[], (List.append_nil _).symm, .nil q⟩

variable (c : Platform) (lib : Libav) (p : Pipeline)

theorem writePackets_calls (s : Stage) (k : ℕ) (answers : List (Received AVPacket))
    (st : Progress) :
    let r := writePackets c lib p k answers st
    Calls filtered delay (.encoding s) st (checked r.1 s.afterEncoder) r.2 := by
  -- one packet, or the blank one, to the muxer: the loop goes on unless that fails
  have hmux (answer : Received AVPacket) (packet : AVPacket) (st : Progress)
      (hgot : ¬ Expected answer.code) :
      let r := avInterleavedWriteFrame c lib packet (st.note (.receivePacket answer))
      Calls filtered delay (.encoding s) st (checked r.1 (.encoding s)) r.2 := by
    have hanswer : Calls filtered delay (.encoding s) st (.packed s)
        (st.note (.receivePacket answer)) :=
      .one (.receivePacket answer) rfl (congrArg some (if_neg hgot))
    exact hanswer.trans (.one (.writeFrame packet _) rfl rfl)
  induction answers generalizing st with
  | nil =>
    exact .one (.receivePacket (.failed AVERROR_EAGAIN)) rfl (congrArg some (if_pos (.inl rfl)))
  | cons answer rest ih =>
    have hstep (packet : AVPacket) (hgot : ¬ Expected answer.code) :
        let w := avInterleavedWriteFrame c lib packet (st.note (.receivePacket answer))
        let r := if w.1 < 0 then w else writePackets c lib p k rest w.2
        Calls filtered delay (.encoding s) st (checked r.1 s.afterEncoder) r.2 := by
      have hfirst := hmux answer packet st hgot
      dsimp only at hfirst ⊢
      split_ifs with hneg
      · simpa [checked, hneg] using hfirst
      · rw [checked, if_neg hneg] at hfirst
        exact hfirst.trans (ih _)
    cases answer with
    | got packet =>
      apply hstep
      simp [Received.code, Expected, AVERROR_EAGAIN, AVERROR_EOF]
    | failed error =>
      simp only [writePackets]
      by_cases hend : error = AVERROR_EAGAIN ∨ error = AVERROR_EOF
      · rw [if_pos hend]
        exact .one (.receivePacket (.failed error)) rfl
          (congrArg some (if_pos ((expected_iff error).mp hend)))
      · rw [if_neg hend]
        exact hstep _ fun hexp => hend ((expected_iff error).mpr hexp)

/-- From a phase in which the encoder may be sent a frame. -/
theorem encodeWriteFrame_calls (s : Stage) (k : ℕ) (frame : Option AVFrame) (st : Progress)
    {q : Phase}
    (hq : ∀ code, next filtered delay q (.sendFrame code) = some (checked code (.encoding s))) :
    let r := encodeWriteFrame c lib p k frame st
    Calls filtered delay q st (checked r.1 s.afterEncoder) r.2 := by
  have hsend : Calls filtered delay q st
      (checked (avcodecSendFrame lib p frame st).1.code (.encoding s))
      (avcodecSendFrame lib p frame st).2 := .one (.sendFrame _) rfl (hq _)
  simp only [encodeWriteFrame]
  split_ifs with hneg
  · simpa [checked, hneg] using hsend
  · rw [checked, if_neg hneg] at hsend
    exact hsend.trans (writePackets_calls c lib p s k _ _)

theorem pullFrames_calls (flush : Bool) (k : ℕ) (answers : List (Received AVFrame))
    (st : Progress) :
    let r := pullFrames c lib p k answers st
    Calls filtered delay (.pulling flush) st (checked r.1 (afterFilter flush)) r.2 := by
  induction answers generalizing st with
  | nil =>
    exact .one (.getFrame AVERROR_EAGAIN.code) rfl (congrArg some (if_pos (.inl rfl)))
  | cons answer rest ih =>
    cases answer with
    | failed error =>
      have hneg := error.negative
      refine .one (.getFrame error.code) rfl (congrArg some ?_)
      simp only [received, pullFrames, ← expected_iff]
      split_ifs with hend
      · rfl
      · simp [checked, hneg]
    | got frame =>
      have hget : Calls filtered delay (.pulling flush) st (.pulled flush)
          (st.note (.getFrame 0)) :=
        .one (.getFrame 0) rfl (congrArg some (by simp [received, checked, Expected, AVERROR_EAGAIN,
          AVERROR_EOF]))
      have hencode := hget.trans (encodeWriteFrame_calls c lib p (.frames flush) k
        (some { frame with pictType := 0 }) (st.note (.getFrame 0)) fun _ => rfl)
      simp only [pullFrames]
      split_ifs with hneg
      · simpa [checked, hneg] using hencode
      · rw [checked, if_neg hneg] at hencode
        exact hencode.trans (ih _)

theorem filterEncodeWriteFrame_calls (flush : Bool) (k : ℕ) (graph : AVFilterGraph)
    (frame : Option AVFrame) (st : Progress) {q : Phase}
    (hq : ∀ code, next filtered delay q (.addFrame code) = some (checked code (.pulling flush))) :
    let r := filterEncodeWriteFrame c lib p graph frame k st
    Calls filtered delay q st (checked r.1 (afterFilter flush)) r.2 := by
  have hadd : Calls filtered delay q st
      (checked (avBuffersrcAddFrame lib graph frame st).1.code (.pulling flush))
      (avBuffersrcAddFrame lib graph frame st).2 := .one (.addFrame _) rfl (hq _)
  simp only [filterEncodeWriteFrame]
  split_ifs with hneg
  · simpa [checked, hneg] using hadd
  · rw [checked, if_neg hneg] at hadd
    exact hadd.trans (pullFrames_calls c lib p flush k _ _)

/-- The phase a pass of the packet loop ends in. -/
def Flow.phase (filtered : Bool) : Flow → Phase
  | .next => .unref
  | .leave => leaveLoop filtered
  | .stop _ => .failed

theorem receiveFrames_calls (k : ℕ) (graph : AVFilterGraph) (answers : List (Received AVFrame))
    (st : Progress) :
    let r := receiveFrames c lib p graph k answers st
    Calls filtered delay .decoding st (r.1.phase filtered) r.2 := by
  induction answers generalizing st with
  | nil =>
    exact .one (.receiveFrame AVERROR_EAGAIN.code) rfl (congrArg some (if_pos (.inl rfl)))
  | cons answer rest ih =>
    cases answer with
    | failed error =>
      have hneg := error.negative
      refine .one (.receiveFrame error.code) rfl (congrArg some ?_)
      simp only [received, receiveFrames, ← expected_iff, or_comm (a := error = AVERROR_EOF)]
      split_ifs with hend
      · rfl
      · simp [checked, hneg, Flow.phase]
    | got frame =>
      have hget : Calls filtered delay .decoding st .decoded (st.note (.receiveFrame 0)) :=
        .one (.receiveFrame 0) rfl (congrArg some (by simp [received, checked, Expected,
          AVERROR_EAGAIN, AVERROR_EOF]))
      have hfilter := hget.trans (filterEncodeWriteFrame_calls c lib p false k
        graph (some { frame with pts := frame.bestEffortTimestamp }) (st.note (.receiveFrame 0))
        fun _ => rfl)
      simp only [receiveFrames]
      split_ifs with hneg
      · simpa [checked, hneg, Flow.phase] using hfilter
      · rw [checked, if_neg hneg] at hfilter
        exact hfilter.trans (ih _)

theorem transcodePacket_calls (graph : AVFilterGraph) (packet : AVPacket) (st : Progress) :
    let r := transcodePacket c lib p graph packet st
    Calls true delay .demuxed st (r.1.phase true) r.2 := by
  have hsend : Calls true delay .demuxed st
      (if (avcodecSendPacket lib p packet st).1.code < 0 then .flushing else .decoding)
      (avcodecSendPacket lib p packet st).2 := .one (.sendPacket packet _ _) rfl rfl
  simp only [transcodePacket]
  split_ifs with hneg
  · simpa [hneg, Flow.phase, leaveLoop] using hsend
  · rw [if_neg hneg] at hsend
    exact hsend.trans (receiveFrames_calls c lib p packet.streamIndex graph _ _)

theorem remuxPacket_calls (packet : AVPacket) (st : Progress) :
    let r := remuxPacket c lib p packet st
    Calls false delay .demuxed st (r.1.phase false) r.2 := by
  simp only [remuxPacket]
  split_ifs with hneg
  · exact .one (.writeFrame _ _) rfl (congrArg some (if_pos hneg))
  · exact .one (.writeFrame _ _) rfl (congrArg some (if_neg hneg))

theorem remuxPacket_negative (packet : AVPacket) (st : Progress) (code : ℤ)
    (h : (remuxPacket c lib p packet st).1 = .stop code) : code < 0 := by
  simp only [remuxPacket] at h
  split_ifs at h with hneg
  exact Flow.stop.inj h ▸ hneg

/-- How the packet loop itself ends. -/
def Flow.Ends : Flow → Prop
  | .next => False
  | .leave => True
  | .stop code => code < 0

theorem Flow.ends_of {flow : Flow} (hnext : flow ≠ .next)
    (hstop : ∀ code, flow = .stop code → code < 0) : flow.Ends := by
  cases flow with
  | next => exact hnext rfl
  | leave => trivial
  | stop code => exact hstop code rfl

/-- A packet was read, of the selected stream or of another one; the loop is where it may read the
next one or ends. -/
theorem packetLoop_calls (delay : Bool) (packets : List (Received AVPacket)) (st : Progress)
    {q : Phase}
    (hq : ∀ code, next p.filterGraph.isSome delay q (.readFrame code) =
      some (if code < 0 then leaveLoop p.filterGraph.isSome else .demuxed)) :
    let r := packetLoop c lib p packets st
    Calls p.filterGraph.isSome delay q st (r.1.phase p.filterGraph.isSome) r.2.2 ∧ r.1.Ends := by
  induction packets generalizing st q with
  | nil =>
    exact ⟨.one (.readFrame AVERROR_EOF.code) rfl
      ((hq _).trans (congrArg some (if_pos (by decide)))), trivial⟩
  | cons answer rest ih =>
    cases answer with
    | failed error =>
      exact ⟨.one (.readFrame error.code) rfl
        ((hq _).trans (congrArg some (if_pos error.negative))), trivial⟩
    | got packet =>
      have hread : Calls p.filterGraph.isSome delay q st .demuxed (st.note (.readFrame 0)) :=
        .one (.readFrame 0) rfl ((hq 0).trans (congrArg some (if_neg (lt_irrefl 0))))
      by_cases hother : packet.streamIndex ≠ p.selected
      · obtain ⟨hrest, hflow⟩ := ih (st.note (.readFrame 0)) (q := .demuxed) fun _ => rfl
        simp only [packetLoop, if_pos hother]
        exact ⟨hread.trans hrest, hflow⟩
      · -- the packet is decoded or copied, and the loop goes on after it was unreferenced
        have hgo (r : Flow × Progress) (hr : Calls p.filterGraph.isSome delay .demuxed
            (st.note (.readFrame 0)) (r.1.phase p.filterGraph.isSome) r.2)
            (hcode : ∀ code, r.1 = .stop code → code < 0)
            (hnext : r.1 = .next → packetLoop c lib p (.got packet :: rest) st =
              packetLoop c lib p rest (r.2.note .packetUnref))
            (hend : r.1 ≠ .next → packetLoop c lib p (.got packet :: rest) st = (r.1, rest, r.2)) :
            let r := packetLoop c lib p (.got packet :: rest) st
            Calls p.filterGraph.isSome delay q st (r.1.phase p.filterGraph.isSome) r.2.2 ∧
              r.1.Ends := by
          have hsofar := hread.trans hr
          by_cases hflow : r.1 = .next
          · have hunref : Calls p.filterGraph.isSome delay .unref r.2 .reading
                (r.2.note .packetUnref) := .one .packetUnref rfl rfl
            obtain ⟨hrest, hleft⟩ := ih (r.2.note .packetUnref) (q := .reading) fun _ => rfl
            rw [hflow] at hsofar
            simp only [hnext hflow]
            exact ⟨(hsofar.trans hunref).trans hrest, hleft⟩
          · simp only [hend hflow]
            exact ⟨hsofar, Flow.ends_of hflow hcode⟩
        cases hgraph : p.filterGraph with
        | some graph =>
          rw [hgraph] at hgo
          refine hgo _ (transcodePacket_calls c lib p graph packet (st.note (.readFrame 0)))
            (transcodePacket_run c lib p graph packet _).2 (fun hnext => ?_) (fun hend => ?_)
          · simp only [packetLoop, if_neg hother, hgraph, hnext]
          · simp only [packetLoop, if_neg hother, hgraph]
        | none =>
          rw [hgraph] at hgo
          refine hgo _ (remuxPacket_calls c lib p packet (st.note (.readFrame 0)))
            (remuxPacket_negative c lib p packet _) (fun hnext => ?_) (fun hend => ?_)
          · simp only [packetLoop, if_neg hother, hgraph, hnext]
          · simp only [packetLoop, if_neg hother, hgraph]

theorem finish_calls (st : Progress) :
    let r := finish c lib p st
    Calls filtered lib.encoderDelay .finishing st (checked r.1 .done) r.2 := by
  cases hdelay : lib.encoderDelay with
  | false =>
    have hret : finish c lib p st = (0, avWriteTrailer c lib st) := by
      simp [finish, flushEncoder, hdelay]
    rw [hret]
    exact .one (.writeTrailer _) rfl rfl
  | true =>
    have hflush : Calls filtered true .finishing st
        (checked (encodeWriteFrame c lib p p.selected none st).1 .trailer)
        (encodeWriteFrame c lib p p.selected none st).2 :=
      encodeWriteFrame_calls c lib p .encoderFlush p.selected none st fun _ => rfl
    have hsame : flushEncoder c lib p p.selected st = encodeWriteFrame c lib p p.selected none st :=
      if_pos hdelay
    simp only [finish, hsame]
    split_ifs with hneg
    · simpa [checked, hneg] using hflush
    · simp only [checked, if_neg hneg] at hflush ⊢
      exact hflush.trans (.one (.writeTrailer _) rfl rfl)

theorem flushAll_calls (st : Progress) :
    let r := flushAll c lib p st
    Calls p.filterGraph.isSome lib.encoderDelay (leaveLoop p.filterGraph.isSome) st
      (checked r.1 .done) r.2 := by
  cases hgraph : p.filterGraph with
  | none =>
    simp only [flushAll, hgraph]
    exact finish_calls c lib p st
  | some graph =>
    have hfilter : Calls true lib.encoderDelay .flushing st
        (checked (filterEncodeWriteFrame c lib p graph none p.selected st).1 .finishing)
        (filterEncodeWriteFrame c lib p graph none p.selected st).2 :=
      filterEncodeWriteFrame_calls c lib p true p.selected graph none st fun _ => rfl
    simp only [flushAll, hgraph]
    split_ifs with hneg
    · simp only [checked, if_pos hneg] at hfilter ⊢
      exact hfilter
    · simp only [checked, if_neg hneg] at hfilter
      exact hfilter.trans (finish_calls c lib p _)

theorem transcodePackets_calls (packets : List (Received AVPacket)) (io : Io) :
    let r := transcodePackets c lib p packets io
    Calls p.filterGraph.isSome lib.encoderDelay .opened (Progress.start io)
      (if lib.allocPacket then checked r.1 .done else .refused) r.2.2 := by
  have halloc : Calls p.filterGraph.isSome lib.encoderDelay .opened (Progress.start io)
      (if lib.allocPacket then .reading else .refused)
      ((Progress.start io).note (.packetAlloc lib.allocPacket)) :=
    .one (.packetAlloc lib.allocPacket) rfl rfl
  simp only [transcodePackets]
  split_ifs with hgranted
  · rw [if_pos hgranted] at halloc
    obtain ⟨hloop, hflow⟩ := packetLoop_calls c lib p lib.encoderDelay packets
      ((Progress.start io).note (.packetAlloc lib.allocPacket)) (q := .reading) fun _ => rfl
    generalize packetLoop c lib p packets _ = r at *
    obtain ⟨flow, rest, st⟩ := r
    have hsofar := halloc.trans hloop
    cases flow with
    | next => exact hflow.elim
    | leave => exact hsofar.trans (flushAll_calls c lib p st)
    | stop code =>
      have hneg : code < 0 := hflow
      simpa [checked, hneg, Flow.phase] using hsofar
  · rw [if_neg hgranted] at halloc
    exact halloc

end

/-- The log of every call that gets as far as the packet loop is a walk of the automaton. -/
theorem log_walk {c : Platform} {lib : Libav} {w : World} {request : Request} {p : Pipeline}
    (h : (doTranscode c lib w request).1.entered = some p) :
    let r := (doTranscode c lib w request).1
    Walk (next true lib.encoderDelay) .opened r.log
      (if lib.allocPacket then checked r.ret .done else .refused) := by
  obtain ⟨selected, d, out, -, hp, hrun⟩ := doTranscode_entered h
  obtain ⟨new, hlog, hwalk⟩ := transcodePackets_calls c lib p (request.input lib).packets
    (prepare c lib w request).2.2
  have hgraph : p.filterGraph.isSome = true := by
    rw [hp]
    rfl
  rw [hrun]
  rw [hgraph] at hwalk
  intro r
  have hnew : r.log = new := hlog
  rw [hnew]
  exact hwalk

/-- The parts of the pipeline that are sent input and asked for output. -/
inductive Part
  | decoder
  | filter
  | encoder

def Event.sendCode : Part → Event → Option ℤ
  | .decoder, .sendPacket _ _ code => some code
  | .filter, .addFrame code => some code
  | .encoder, .sendFrame code => some code
  | _, _ => none

def Event.receiveCode : Part → Event → Option ℤ
  | .decoder, .receiveFrame code => some code
  | .filter, .getFrame code => some code
  | .encoder, .receivePacket answer => some answer.code
  | _, _ => none

def Event.Sends (k : Part) (e : Event) : Prop := (e.sendCode k).isSome

/-- The part took the input. -/
def Event.Accepted (k : Part) (e : Event) : Prop := ∃ code ∈ e.sendCode k, 0 ≤ code

def Event.Receives (k : Part) (e : Event) : Prop := (e.receiveCode k).isSome

/-- The part asked for more input, or reported the end of its output. -/
def Event.Drains (k : Part) (e : Event) : Prop := ∃ code ∈ e.receiveCode k, Expected code

/-- The phases in which a part may have output for the input it took. -/
def Phase.busy : Part → Phase → Bool
  | .decoder, .decoding | .decoder, .decoded => true
  | .decoder, .pulling flush | .decoder, .pulled flush => !flush
  | .decoder, .encoding s | .decoder, .packed s => s == .frames false
  | .filter, .pulling _ | .filter, .pulled _ => true
  | .filter, .encoding s | .filter, .packed s => s != .encoderFlush
  | .encoder, .encoding _ | .encoder, .packed _ => true
  | _, _ => false

/-- What a call of the automaton means for one part of the pipeline. -/
structure Turn (k : Part) (q : Phase) (e : Event) (q' : Phase) : Prop where
  sends : e.Sends k → q.busy k = false ∧ (q'.busy k = true ↔ e.Accepted k)
  receives : e.Receives k → q.busy k = true ∧ (e.Drains k → q'.busy k = false) ∧
    (¬ e.Drains k → q'.busy k = true ∨ q' = .failed)
  others : ¬ e.Sends k → ¬ e.Receives k → q'.busy k = q.busy k ∨ q' = .failed

section
variable {filtered delay : Bool} {q q' : Phase} {e : Event}

variable {k : Part} {code : ℤ} {drained got : Phase}

theorem checked_eq (code : ℤ) (q : Phase) : checked code q = q ∨ checked code q = .failed := by
  unfold checked
  split_ifs
  · exact .inr rfl
  · exact .inl rfl

theorem busy_failed (k : Part) : Phase.failed.busy k = false := by
  cases k <;> rfl

theorem busy_checked (hq : q.busy k = true) : (checked code q).busy k = true ↔ 0 ≤ code := by
  unfold checked
  split_ifs with hneg
  · simp [busy_failed, hneg]
  · simp [hq, not_lt.mp hneg]

theorem Turn.plain (hs : e.sendCode k = none) (hr : e.receiveCode k = none)
    (hbusy : q'.busy k = q.busy k ∨ q' = .failed) : Turn k q e q' where
  sends h := by simp [Event.Sends, hs] at h
  receives h := by simp [Event.Receives, hr] at h
  others _ _ := hbusy

theorem Turn.pass (hs : e.sendCode k = none) (hr : e.receiveCode k = none)
    (hbusy : got.busy k = q.busy k) : Turn k q e (checked code got) := by
  apply Turn.plain hs hr
  rcases checked_eq code got with heq | hfailed
  · rw [heq]
    exact .inl hbusy
  · exact .inr hfailed

/-- Another part is asked for output. -/
theorem Turn.passReceived (hs : e.sendCode k = none) (hr : e.receiveCode k = none)
    (hdrained : drained.busy k = q.busy k) (hgot : got.busy k = q.busy k) :
    Turn k q e (received code drained got) := by
  unfold received
  split_ifs
  · exact Turn.plain hs hr (.inl hdrained)
  · exact Turn.pass hs hr hgot

theorem Turn.send (hs : e.sendCode k = some code) (hr : e.receiveCode k = none)
    (hidle : q.busy k = false) (hbusy : q'.busy k = true ↔ 0 ≤ code) : Turn k q e q' where
  sends _ := ⟨hidle, by simp [hbusy, Event.Accepted, hs]⟩
  receives h := by simp [Event.Receives, hr] at h
  others h := absurd (by simp [Event.Sends, hs]) h

theorem Turn.receive (hs : e.sendCode k = none) (hr : e.receiveCode k = some code)
    (hbusy : q.busy k = true) (hdrained : Expected code → q'.busy k = false)
    (hgot : ¬ Expected code → q'.busy k = true ∨ q' = .failed) : Turn k q e q' where
  sends h := by simp [Event.Sends, hs] at h
  receives _ := by
    have hdrains : e.Drains k ↔ Expected code := by simp [Event.Drains, hr]
    exact ⟨hbusy, fun hd => hdrained (hdrains.mp hd), fun hd => hgot fun he => hd (hdrains.mpr he)⟩
  others _ h := absurd (by simp [Event.Receives, hr]) h

theorem Turn.received (hs : e.sendCode k = none) (hr : e.receiveCode k = some code)
    (hbusy : q.busy k = true) (hdrained : drained.busy k = false) (hgot : got.busy k = true) :
    Turn k q e (received code drained got) := by
  apply Turn.receive hs hr hbusy
  · intro hexp
    rw [Transcode.received, if_pos hexp]
    exact hdrained
  · intro hexp
    rw [Transcode.received, if_neg hexp]
    rcases checked_eq code got with heq | hfailed
    · rw [heq]
      exact .inl hgot
    · exact .inr hfailed

/-- The calls that belong to no part leave every part as it is. -/
theorem next_turn (k : Part) (h : next filtered delay q e = some q') : Turn k q e q' := by
  cases q with
  | opened =>
    cases e with
    | packetAlloc granted =>
      cases h
      cases granted <;> cases k <;> exact Turn.plain rfl rfl (.inl rfl)
    | _ => cases h
  | reading =>
    cases e with
    | readFrame code =>
      cases h
      apply Turn.plain (by cases k <;> rfl) (by cases k <;> rfl)
      cases k <;> cases filtered <;> split_ifs <;> exact .inl rfl
    | _ => cases h
  | demuxed =>
    cases e with
    | readFrame code =>
      cases h
      apply Turn.plain (by cases k <;> rfl) (by cases k <;> rfl)
      cases k <;> cases filtered <;> split_ifs <;> exact .inl rfl
    | sendPacket demuxed sent code =>
      cases filtered with
      | false => cases h
      | true =>
        cases h
        cases k with
        | decoder =>
          apply Turn.send rfl rfl rfl
          split_ifs with hneg
          · exact iff_of_false (by decide) (not_le.mpr hneg)
          · exact iff_of_true rfl (not_lt.mp hneg)
        | filter | encoder =>
          apply Turn.plain rfl rfl
          split_ifs <;> exact .inl rfl
    | writeFrame packet code =>
      cases filtered with
      | false =>
        cases h
        cases k <;> exact Turn.pass rfl rfl rfl
      | true => cases h
    | _ => cases h
  | decoding =>
    cases e with
    | receiveFrame code =>
      cases h
      cases k with
      | decoder => exact Turn.received rfl rfl rfl rfl rfl
      | filter | encoder => exact Turn.passReceived rfl rfl rfl rfl
    | _ => cases h
  | decoded =>
    cases e with
    | addFrame code =>
      cases h
      cases k with
      | decoder | encoder => exact Turn.pass rfl rfl rfl
      | filter => exact Turn.send rfl rfl rfl (busy_checked rfl)
    | _ => cases h
  | unref =>
    cases e with
    | packetUnref =>
      cases h
      cases k <;> exact Turn.plain rfl rfl (.inl rfl)
    | _ => cases h
  | pulling flush =>
    cases e with
    | getFrame code =>
      cases h
      cases k with
      | decoder => cases flush <;> exact Turn.passReceived rfl rfl rfl rfl
      | filter => cases flush <;> exact Turn.received rfl rfl rfl rfl rfl
      | encoder => cases flush <;> exact Turn.passReceived rfl rfl rfl rfl
    | _ => cases h
  | pulled flush =>
    cases e with
    | sendFrame code =>
      cases h
      cases k with
      | decoder => cases flush <;> exact Turn.pass rfl rfl rfl
      | filter => exact Turn.pass rfl rfl rfl
      | encoder => exact Turn.send rfl rfl rfl (busy_checked rfl)
    | _ => cases h
  | encoding s =>
    cases e with
    | receivePacket answer =>
      cases h
      cases k with
      | decoder | filter =>
        apply Turn.plain rfl rfl
        cases s with
        | frames flush => cases flush <;> split_ifs <;> exact .inl rfl
        | encoderFlush => split_ifs <;> exact .inl rfl
      | encoder =>
        apply Turn.receive rfl rfl rfl
        · intro hexp
          rw [if_pos hexp]
          cases s <;> rfl
        · intro hexp
          rw [if_neg hexp]
          exact .inl rfl
    | _ => cases h
  | packed s =>
    cases e with
    | writeFrame packet code =>
      cases h
      cases k <;> exact Turn.pass rfl rfl rfl
    | _ => cases h
  | flushing =>
    cases e with
    | addFrame code =>
      cases h
      cases k with
      | decoder | encoder => exact Turn.pass rfl rfl rfl
      | filter => exact Turn.send rfl rfl rfl (busy_checked rfl)
    | _ => cases h
  | finishing =>
    cases e with
    | sendFrame code =>
      cases delay with
      | false => cases h
      | true =>
        cases h
        cases k with
        | decoder | filter => exact Turn.pass rfl rfl rfl
        | encoder => exact Turn.send rfl rfl rfl (busy_checked rfl)
    | writeTrailer code =>
      cases delay with
      | false =>
        cases h
        cases k <;> exact Turn.plain rfl rfl (.inl rfl)
      | true => cases h
    | _ => cases h
  | trailer =>
    cases e with
    | writeTrailer code =>
      cases h
      cases k <;> exact Turn.plain rfl rfl (.inl rfl)
    | _ => cases h
  | done | failed | refused => cases e <;> cases h

def Event.IsTrailer : Event → Prop
  | .writeTrailer _ => True
  | _ => False

/-- The two phases a loop ends in. -/
def Phase.Stop (q : Phase) : Prop := q = .failed ∨ q = .done

/-- Which calls lead to which of them. -/
structure Leads (e : Event) (q' : Phase) : Prop where
  handled : e.Handled ↔ q' = .failed
  trailer : e.IsTrailer ↔ q' = .done

theorem Leads.on (hhandled : ¬ e.Handled) (htrailer : ¬ e.IsTrailer) (hq : ¬ q'.Stop) :
    Leads e q' :=
  ⟨iff_of_false hhandled fun h => hq (.inl h), iff_of_false htrailer fun h => hq (.inr h)⟩

theorem Leads.checked (hhandled : e.Handled ↔ code < 0) (htrailer : ¬ e.IsTrailer)
    (hgot : ¬ got.Stop) : Leads e (checked code got) := by
  unfold Transcode.checked
  split_ifs with hneg
  · exact ⟨iff_of_true (hhandled.mpr hneg) rfl, iff_of_false htrailer (by simp)⟩
  · exact Leads.on (fun h => hneg (hhandled.mp h)) htrailer hgot

theorem Leads.received (hhandled : e.Handled ↔ code < 0 ∧ ¬ Expected code)
    (htrailer : ¬ e.IsTrailer) (hdrained : ¬ drained.Stop) (hgot : ¬ got.Stop) :
    Leads e (received code drained got) := by
  unfold Transcode.received
  split_ifs with hexp
  · exact Leads.on (fun h => (hhandled.mp h).2 hexp) htrailer hdrained
  · exact Leads.checked (hhandled.trans (and_iff_left hexp)) htrailer hgot

theorem Phase.dead (h : q.Stop) : next filtered delay q e ≠ some q' := by
  rcases h with rfl | rfl <;> cases e <;> simp [next]

end

section
variable (c : Platform) (lib : Libav) (w : World) (request : Request)

/-- A call whose setup fails logs nothing. -/
theorem log_cases :
    (doTranscode c lib w request).1.log = [] ∨
      Walk (next true lib.encoderDelay) .opened (doTranscode c lib w request).1.log
        (if lib.allocPacket then checked (doTranscode c lib w request).1.ret .done
          else .refused) := by
  cases hentered : (doTranscode c lib w request).1.entered with
  | some p => exact .inr (log_walk hentered)
  | none =>
    rcases doTranscode_cases c lib w request with ⟨-, hleave⟩ | ⟨selected, d, out, -, hrun⟩
    · rw [hleave]
      exact .inl rfl
    · rw [hrun] at hentered
      exact absurd hentered (by simp [leave])

/-- In every call, each part of the pipeline is used the way libav asks for: between an input it
took and the next attempt to send it one there is a receive call that reported it drained, and
every receive call follows an input the part took, with no such report in between. -/
theorem send_receive_order (k : Part) :
    let log := (doTranscode c lib w request).1.log
    (∀ before e between e' after, log = before ++ e :: between ++ e' :: after →
      e.Accepted k → e'.Sends k → ∃ d ∈ between, d.Drains k) ∧
    (∀ before e after, log = before ++ e :: after → e.Receives k →
      ∃ before' s since, before = before' ++ s :: since ∧ s.Accepted k ∧
        ∀ d ∈ since, ¬ d.Drains k) := by
  intro log
  rcases log_cases c lib w request with hnil | hwalk
  · constructor
    · intro before e between e' after hlog
      simp [log, hnil] at hlog
    · intro before e after hlog
      simp [log, hnil] at hlog
  · constructor
    · intro before e between e' after hlog hacc hsend
      change Walk _ _ log _ at hwalk
      rw [hlog] at hwalk
      refine hwalk.between (fun q => q.busy k = true ∨ q = .failed)
        (Event.Accepted k) (Event.Sends k) ?_ ?_ ?_ hacc hsend
      · intro q e q' ha hnext
        have hsends : e.Sends k := by
          obtain ⟨code, hcode, -⟩ := ha
          exact Option.isSome_of_mem hcode
        exact .inl (((next_turn k hnext).sends hsends).2.mpr ha)
      · intro q e q' hbusy hdrain hnext
        have hturn := next_turn k hnext
        rcases hbusy with hbusy | rfl
        · by_cases hs : e.Sends k
          · simp [(hturn.sends hs).1] at hbusy
          · by_cases hr : e.Receives k
            · exact (hturn.receives hr).2.2 hdrain
            · exact (hturn.others hs hr).imp (fun heq => heq.trans hbusy) id
        · exact absurd hnext (Phase.dead (.inl rfl))
      · intro q e q' hbusy hs hnext
        rcases hbusy with hbusy | rfl
        · simp [((next_turn k hnext).sends hs).1] at hbusy
        · exact absurd hnext (Phase.dead (.inl rfl))
    · intro before e after hlog hreceives
      change Walk _ _ log _ at hwalk
      rw [hlog] at hwalk
      obtain ⟨q, hbefore, hrest⟩ := hwalk.split
      obtain ⟨q', hnext, -⟩ := hrest.uncons
      have hbusy : q.busy k = true := ((next_turn k hnext).receives hreceives).1
      refine hbefore.since (fun q => q.busy k = true) ?_ (by cases k <;> simp [Phase.busy])
        hbusy
      intro q e q' hnext hbusy
      have hturn := next_turn k hnext
      by_cases hs : e.Sends k
      · exact .inl ((hturn.sends hs).2.mp hbusy)
      · right
        by_cases hr : e.Receives k
        · refine ⟨(hturn.receives hr).1, fun hd => ?_⟩
          simp [(hturn.receives hr).2.1 hd] at hbusy
        · have hdrain : ¬ e.Drains k := by
            rintro ⟨code, hcode, -⟩
            exact hr (Option.isSome_of_mem hcode)
          rcases hturn.others hs hr with heq | hfailed
          · exact ⟨heq.symm.trans hbusy, hdrain⟩
          · rw [hfailed, busy_failed] at hbusy
            exact absurd hbusy Bool.false_ne_true

end

end AudioFS.Transcode
