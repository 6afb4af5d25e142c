import AudioFS.FileBackend
import AudioFS.TranscodedFile

/-!
# A transcoding to memory and to a file

Nothing in the packet loop looks at the file that is written. Two calls that
differ only in where they write take the same steps, and their muxers make the
same operations.
-/

namespace AudioFS.Transcode
open AudioFS.CustomAvio StepMachine Overlay

/-- Two points of two calls that differ at most in the file. -/
structure SameSteps (st st' : Progress) : Prop where
  sent : st.sent = st'.sent
  pushed : st.pushed = st'.pushed
  encoded : st.encoded = st'.encoded
  muxed : st.muxed = st'.muxed
  log : st.log = st'.log
  handle : st.io.handle.isSome = st'.io.handle.isSome

theorem SameSteps.note {st st' : Progress} (h : SameSteps st st') (e : Event) :
    SameSteps (st.note e) (st'.note e) :=
  ⟨h.sent, h.pushed, h.encoded, h.muxed, congrArg (· ++ [e]) h.log, h.handle⟩

structure Alike {α : Type} (r r' : α × Progress) : Prop where
  answer : r.1 = r'.1
  steps : SameSteps r.2 r'.2

/-- A function leaves with an answer, or goes on. -/
theorem Alike.ite {α β : Type} {r r' : α × Progress} (h : Alike r r') (stop : α → Prop)
    [DecidablePred stop] (leave : α → β) {k k' : α → Progress → β × Progress}
    (hk : ∀ a st st', SameSteps st st' → Alike (k a st) (k' a st')) :
    Alike (if stop r.1 then (leave r.1, r.2) else k r.1 r.2)
      (if stop r'.1 then (leave r'.1, r'.2) else k' r'.1 r'.2) := by
  obtain ⟨a, st⟩ := r
  obtain ⟨a', st'⟩ := r'
  obtain rfl : a = a' := h.answer
  dsimp only
  split_ifs
  · exact ⟨rfl, h.steps⟩
  · exact hk a st st' h.steps

section
variable (c c' : Platform) (lib : Libav) (p : Pipeline)

theorem avInterleavedWriteFrame_alike (packet : AVPacket) {st st' : Progress}
    (h : SameSteps st st') :
    Alike (avInterleavedWriteFrame c lib packet st)
      (avInterleavedWriteFrame c' lib packet st') := by
  simp only [avInterleavedWriteFrame, ← h.muxed]
  refine ⟨rfl, h.sent, h.pushed, h.encoded, rfl, congrArg (· ++ _) h.log, ?_⟩
  dsimp only
  rw [Io.run_isSome, Io.run_isSome, h.handle]

theorem writePackets_alike (k : ℕ) (answers : List (Received AVPacket)) {st st' : Progress}
    (h : SameSteps st st') :
    Alike (writePackets c lib p k answers st) (writePackets c' lib p k answers st') := by
  induction answers generalizing st st' with
  | nil => exact ⟨rfl, h.note _⟩
  | cons answer rest ih =>
    have hmux (packet : AVPacket) :=
      (avInterleavedWriteFrame_alike c c' lib (stamp lib p k packet)
        (h.note (.receivePacket answer))).ite (· < 0) id fun _ _ _ h => ih h
    cases answer with
    | got packet => exact hmux packet
    | failed error =>
      by_cases hend : error = AVERROR_EAGAIN ∨ error = AVERROR_EOF
      · simp only [writePackets, if_pos hend]
        exact ⟨rfl, h.note _⟩
      · simp only [writePackets, if_neg hend]
        exact hmux .blank

theorem encodeWriteFrame_alike (k : ℕ) (frame : Option AVFrame) {st st' : Progress}
    (h : SameSteps st st') :
    Alike (encodeWriteFrame c lib p k frame st) (encodeWriteFrame c' lib p k frame st') := by
  have hsend : Alike (avcodecSendFrame lib p frame st) (avcodecSendFrame lib p frame st') := by
    simp only [avcodecSendFrame, ← h.encoded]
    exact ⟨rfl, h.sent, h.pushed, rfl, h.muxed, congrArg (· ++ _) h.log, h.handle⟩
  exact hsend.ite (·.code < 0) (·.code) fun r _ _ h => writePackets_alike c c' lib p k r.received h

theorem pullFrames_alike (k : ℕ) (answers : List (Received AVFrame)) {st st' : Progress}
    (h : SameSteps st st') :
    Alike (pullFrames c lib p k answers st) (pullFrames c' lib p k answers st') := by
  induction answers generalizing st st' with
  | nil => exact ⟨rfl, h.note _⟩
  | cons answer rest ih =>
    cases answer with
    | failed error => exact ⟨rfl, h.note _⟩
    | got frame =>
      exact (encodeWriteFrame_alike c c' lib p k _ (h.note (.getFrame 0))).ite (· < 0) id
        fun _ _ _ h => ih h

theorem filterEncodeWriteFrame_alike (k : ℕ) (graph : AVFilterGraph) (frame : Option AVFrame)
    {st st' : Progress} (h : SameSteps st st') :
    Alike (filterEncodeWriteFrame c lib p graph frame k st)
      (filterEncodeWriteFrame c' lib p graph frame k st') := by
  have hadd : Alike (avBuffersrcAddFrame lib graph frame st)
      (avBuffersrcAddFrame lib graph frame st') := by
    simp only [avBuffersrcAddFrame, ← h.pushed]
    exact ⟨rfl, h.sent, rfl, h.encoded, h.muxed, congrArg (· ++ _) h.log, h.handle⟩
  exact hadd.ite (·.code < 0) (·.code) fun r _ _ h => pullFrames_alike c c' lib p k r.received h

theorem receiveFrames_alike (graph : AVFilterGraph) (k : ℕ) (answers : List (Received AVFrame))
    {st st' : Progress} (h : SameSteps st st') :
    Alike (receiveFrames c lib p graph k answers st)
      (receiveFrames c' lib p graph k answers st') := by
  induction answers generalizing st st' with
  | nil => exact ⟨rfl, h.note _⟩
  | cons answer rest ih =>
    cases answer with
    | failed error => exact ⟨rfl, h.note _⟩
    | got frame =>
      exact (filterEncodeWriteFrame_alike c c' lib p k graph _ (h.note (.receiveFrame 0))).ite
        (· < 0) Flow.stop fun _ _ _ h => ih h

theorem transcodePacket_alike (graph : AVFilterGraph) (packet : AVPacket) {st st' : Progress}
    (h : SameSteps st st') :
    Alike (transcodePacket c lib p graph packet st)
      (transcodePacket c' lib p graph packet st') := by
  have hsend : Alike (avcodecSendPacket lib p packet st) (avcodecSendPacket lib p packet st') := by
    simp only [avcodecSendPacket, ← h.sent]
    exact ⟨rfl, rfl, h.pushed, h.encoded, h.muxed, congrArg (· ++ _) h.log, h.handle⟩
  exact hsend.ite (·.code < 0) (fun _ => Flow.leave) fun r _ _ h =>
    receiveFrames_alike c c' lib p graph packet.streamIndex r.received h

theorem remuxPacket_alike (packet : AVPacket) {st st' : Progress} (h : SameSteps st st') :
    Alike (remuxPacket c lib p packet st) (remuxPacket c' lib p packet st') := by
  have hnext (_ : ℤ) (st st' : Progress) (h : SameSteps st st') :
      Alike (Flow.next, st) (Flow.next, st') := ⟨rfl, h⟩
  exact (avInterleavedWriteFrame_alike c c' lib _ h).ite (· < 0) Flow.stop hnext

theorem packetLoop_alike (packets : List (Received AVPacket)) {st st' : Progress}
    (h : SameSteps st st') :
    let r := packetLoop c lib p packets st
    let r' := packetLoop c' lib p packets st'
    r.1 = r'.1 ∧ r.2.1 = r'.2.1 ∧ SameSteps r.2.2 r'.2.2 := by
  induction packets generalizing st st' with
  | nil => exact ⟨rfl, rfl, h.note _⟩
  | cons answer rest ih =>
    cases answer with
    | failed error => exact ⟨rfl, rfl, h.note _⟩
    | got packet =>
      by_cases hother : packet.streamIndex ≠ p.selected
      · simp only [packetLoop, if_pos hother]
        exact ih (h.note _)
      · cases hgraph : p.filterGraph with
        | some graph =>
          have hpass := transcodePacket_alike c c' lib p graph packet (h.note (.readFrame 0))
          simp only [packetLoop, if_neg hother, hgraph]
          generalize transcodePacket c lib p graph packet _ = r at hpass ⊢
          generalize transcodePacket c' lib p graph packet _ = r' at hpass ⊢
          obtain ⟨flow, st₁⟩ := r
          obtain ⟨flow', st₁'⟩ := r'
          obtain rfl : flow = flow' := hpass.answer
          cases flow with
          | next => exact ih (hpass.steps.note _)
          | leave => exact ⟨rfl, rfl, hpass.steps⟩
          | stop code => exact ⟨rfl, rfl, hpass.steps⟩
        | none =>
          have hpass := remuxPacket_alike c c' lib p packet (h.note (.readFrame 0))
          simp only [packetLoop, if_neg hother, hgraph]
          generalize remuxPacket c lib p packet _ = r at hpass ⊢
          generalize remuxPacket c' lib p packet _ = r' at hpass ⊢
          obtain ⟨flow, st₁⟩ := r
          obtain ⟨flow', st₁'⟩ := r'
          obtain rfl : flow = flow' := hpass.answer
          cases flow with
          | next => exact ih (hpass.steps.note _)
          | leave => exact ⟨rfl, rfl, hpass.steps⟩
          | stop code => exact ⟨rfl, rfl, hpass.steps⟩

theorem finish_alike {st st' : Progress} (h : SameSteps st st') :
    Alike (finish c lib p st) (finish c' lib p st') := by
  have hflush : Alike (flushEncoder c lib p p.selected st)
      (flushEncoder c' lib p p.selected st') := by
    simp only [flushEncoder]
    split_ifs
    · exact encodeWriteFrame_alike c c' lib p _ none h
    · exact ⟨rfl, h⟩
  have htrailer (a : ℤ) (st st' : Progress) (h : SameSteps st st') :
      Alike (a, avWriteTrailer c lib st) (a, avWriteTrailer c' lib st') := by
    simp only [avWriteTrailer, ← h.muxed]
    refine ⟨rfl, h.sent, h.pushed, h.encoded, rfl, congrArg (· ++ _) h.log, ?_⟩
    dsimp only
    rw [Io.run_isSome, Io.run_isSome, h.handle]
  exact hflush.ite (· < 0) id htrailer

theorem flushAll_alike {st st' : Progress} (h : SameSteps st st') :
    Alike (flushAll c lib p st) (flushAll c' lib p st') := by
  simp only [flushAll]
  cases p.filterGraph with
  | none => exact finish_alike c c' lib p h
  | some graph =>
    exact (filterEncodeWriteFrame_alike c c' lib p p.selected graph none h).ite (· < 0) id
      fun _ _ _ h => finish_alike c c' lib p h

theorem transcodePackets_alike (packets : List (Received AVPacket)) {io io' : Io}
    (h : io.handle.isSome = io'.handle.isSome) :
    let r := transcodePackets c lib p packets io
    let r' := transcodePackets c' lib p packets io'
    r.1 = r'.1 ∧ r.2.1 = r'.2.1 ∧ SameSteps r.2.2 r'.2.2 := by
  have hstart : SameSteps ((Progress.start io).note (.packetAlloc lib.allocPacket))
      ((Progress.start io').note (.packetAlloc lib.allocPacket)) := ⟨rfl, rfl, rfl, rfl, rfl, h⟩
  have hloop := packetLoop_alike c c' lib p packets hstart
  simp only [transcodePackets]
  split_ifs
  · generalize packetLoop c lib p packets _ = r at hloop ⊢
    generalize packetLoop c' lib p packets _ = r' at hloop ⊢
    obtain ⟨flow, rest, st⟩ := r
    obtain ⟨flow', rest', st'⟩ := r'
    obtain ⟨hflow, hrest, hsteps⟩ := hloop
    dsimp only at hflow hrest hsteps
    subst hflow hrest
    have hflush := flushAll_alike c c' lib p hsteps
    cases flow with
    | next => exact ⟨hflush.answer, rfl, hflush.steps⟩
    | leave => exact ⟨hflush.answer, rfl, hflush.steps⟩
    | stop code => exact ⟨rfl, rfl, hsteps⟩
  · exact ⟨rfl, rfl, hstart⟩

/-! ### The whole call -/

theorem openOutput_alike (call : ℕ) (out : OutputContext) {name name' : List UInt8}
    {process process' : Process} (h : (audiofsAvioOpen c process name).1.isSome = true)
    (h' : (audiofsAvioOpen c' process' name').1.isSome = true) :
    let o := openOutput c lib call name out process
    let o' := openOutput c' lib call name' out process'
    o.1 = o'.1 ∧ o.2.1 = o'.2.1 ∧ o.2.2.handle.isSome = o'.2.2.handle.isSome := by
  by_cases hfile : out.noFile = true
  · simp only [openOutput, if_pos hfile]
    exact ⟨rfl, rfl, by simp only [writeHeader, Io.run_isSome]⟩
  · obtain ⟨handle, hhandle⟩ := Option.isSome_iff_exists.mp h
    obtain ⟨handle', hhandle'⟩ := Option.isSome_iff_exists.mp h'
    have hcase : audiofsAvioOpen c process name =
        (some handle, (audiofsAvioOpen c process name).2) := Prod.ext hhandle rfl
    have hcase' : audiofsAvioOpen c' process' name' =
        (some handle', (audiofsAvioOpen c' process' name').2) := Prod.ext hhandle' rfl
    simp only [openOutput, if_neg hfile]
    rw [hcase, hcase']
    refine ⟨rfl, rfl, ?_⟩
    simp only [writeHeader, Io.run_isSome]
    cases lib.allocAvioContext <;> rfl

theorem leave_alike (w : World) (request request' : Request) (ret : ℤ) (s : Statics)
    (entered : Option Pipeline) (rest : List (Received AVPacket)) {st st' : Progress}
    (h : SameSteps st st') :
    let r := (leave c lib w request ret s entered rest st).1
    let r' := (leave c' lib w request' ret s entered rest st').1
    r.ret = r'.ret ∧ r.log = r'.log ∧ r.rest = r'.rest ∧ r.handle.isSome = r'.handle.isSome := by
  refine ⟨rfl, h.log, rfl, ?_⟩
  have hextract : (extractedHandle c lib s st.muxed st.io).handle.isSome =
      (extractedHandle c' lib s st'.muxed st'.io).handle.isSome := by
    simp only [extractedHandle]
    cases s.ofmtCtx with
    | live _ out =>
      dsimp only
      split_ifs
      · rfl
      · rw [Io.run_isSome, Io.run_isSome, h.handle]
    | unset | null | released => rfl
  simp only [leave]
  split_ifs
  · rfl
  · exact hextract

variable {w : World} {request : Request} {path : List UInt8}
  (h : (audiofsAvioOpen c w.process request.toPath).1.isSome = true)
  (h' : (audiofsAvioOpen c' w.process path).1.isSome = true)
include h h'

theorem prepare_alike :
    let r := prepare c lib w request
    let r' := prepare c' lib w { request with toPath := path }
    r.1 = r'.1 ∧ r.2.1 = r'.2.1 ∧ r.2.2.handle.isSome = r'.2.2.handle.isSome := by
  have hinput : Request.input lib { request with toPath := path } = request.input lib := rfl
  have hopened : openRequested lib w { request with toPath := path } =
      openRequested lib w request := rfl
  simp only [prepare, hinput, hopened]
  by_cases hneg : (openRequested lib w request).1 < 0
  · simp only [if_pos hneg]
    exact ⟨trivial, trivial, trivial⟩
  generalize (openRequested lib w request).2 = statics
  simp only [if_neg hneg, openOutputFile]
  by_cases halloc : lib.allocOutputContext = true
  · simp only [halloc, Bool.not_true, Bool.false_eq_true, if_false]
    generalize addStreams lib w.calls 0 _ _ _ = added
    by_cases hadded : added.1 < 0
    · simp only [if_pos hadded]
      exact ⟨trivial, trivial, trivial⟩
    · simp only [if_neg hadded]
      obtain ⟨hret, hout, hhandle⟩ := openOutput_alike c c' lib w.calls added.2.1 h h'
      simp only [hret, hout]
      split_ifs <;> exact ⟨rfl, rfl, hhandle⟩
  · simp [halloc, AVERROR_UNKNOWN]

theorem doTranscode_alike :
    let r := (doTranscode c lib w request).1
    let r' := (doTranscode c' lib w { request with toPath := path }).1
    r.ret = r'.ret ∧ r.log = r'.log ∧ r.rest = r'.rest ∧ r.handle.isSome = r'.handle.isSome := by
  have hinput : Request.input lib { request with toPath := path } = request.input lib := rfl
  obtain ⟨hret, hstatics, hhandle⟩ := prepare_alike c c' lib h h'
  simp only [doTranscode, hinput]
  generalize prepare c lib w request = r at hret hstatics hhandle ⊢
  generalize prepare c' lib w { request with toPath := path } = r' at hret hstatics hhandle ⊢
  obtain ⟨ret, statics, io⟩ := r
  obtain ⟨ret', statics', io'⟩ := r'
  dsimp only at hret hstatics hhandle
  subst hret hstatics
  dsimp only
  generalize (if ret < 0 then none else statics.pipeline (request.input lib).streams ret.toNat) = p
  cases p with
  | none =>
    have hstart : SameSteps (Progress.start io) (Progress.start io') :=
      ⟨rfl, rfl, rfl, rfl, rfl, hhandle⟩
    exact leave_alike c c' lib w _ _ _ _ _ _ hstart
  | some p =>
    obtain ⟨hret, hrest, hsteps⟩ :=
      transcodePackets_alike c c' lib p (request.input lib).packets hhandle
    dsimp only at hret hrest ⊢
    rw [hret, hrest]
    exact leave_alike c c' lib w _ _ _ _ _ _ hsteps

end

/-! ### Writing chunks -/

section
variable {c : Platform} {s : Session} {f : ByteFile.File UInt8}

theorem file_write (hfile : s.handle.inMemory = false) (hend : f.position = f.contents.length)
    (chunk : Chunk) (hserves : Serves c f (transition (step c) s (.write chunk))) :
    (step c s (.write chunk)).1 = told chunk ∧
      kernelFile f (transition (step c) s (.write chunk)) =
        ⟨f.contents ++ chunk.bytes, f.position + chunk.bytes.length⟩ := by
  by_cases hn : 0 ≤ chunk.bufSize.toInt
  · have hpassed : (Op.write chunk).passed = true := decide_eq_true hn
    have hop : (Op.write chunk).Supported := hn
    have hanswer := (file_answer hfile hop hserves).trans (if_pos hpassed)
    refine ⟨?_, ?_⟩
    · rw [hanswer, told, if_pos hn]
      rfl
    · exact (if_pos hpassed).trans (ByteFile.write_at_end 0 hend chunk.bytes)
  · have hneg : chunk.bufSize.toInt < 0 := not_le.mp hn
    have hpassed : ¬ (Op.write chunk).passed = true := by simpa [Op.passed] using hn
    have hempty := Chunk.bytes_eq_nil hneg
    refine ⟨?_, ?_⟩
    · simp only [step, audiofsAvioWrite, rejects_iff, hneg, if_true, told, if_neg hn]
      rfl
    · rw [hempty, List.append_nil]
      exact if_neg hpassed

theorem file_writes (hfile : s.handle.inMemory = false) (hend : f.position = f.contents.length)
    (chunks : List Chunk)
    (hserves : Along kernelFile (Serves c) f (trace (step c) s (chunks.map .write))) :
    let calls := trace (step c) s (chunks.map .write)
    calls.map Transition.output = chunks.map told ∧
      (calls.foldl kernelFile f).contents = f.contents ++ concatenation chunks := by
  induction chunks generalizing s f with
  | nil => simp [concatenation]
  | cons chunk chunks ih =>
    obtain ⟨hfirst, hlater⟩ := hserves
    obtain ⟨hanswer, hmoved⟩ := file_write hfile hend chunk hfirst
    rw [hmoved] at hlater
    obtain ⟨hanswers, hcontents⟩ := ih (file_kept hfile _) (by simp [hend]) hlater
    simp only [List.map_cons, trace_cons, List.foldl_cons, hmoved]
    refine ⟨by rw [hanswers]; exact congrArg (· :: _) hanswer, ?_⟩
    rw [hcontents, List.append_assoc]
    rfl

end

theorem cString_eq_concatenation_iff (chunks : List Chunk) :
    Process.cString (overlays [] (chunks.map Chunk.bytes)) = concatenation chunks ↔
      (chunks.filter fun chunk => !chunk.bytes.isEmpty).length ≤ 1 ∧ 0 ∉ concatenation chunks := by
  have hfits : (overlays [] (chunks.map Chunk.bytes)).length ≤ (concatenation chunks).length := by
    have hle := length_overlays_le_add [] (chunks.map Chunk.bytes)
    rwa [List.length_nil, Nat.zero_add] at hle
  have hprefix : Process.cString (overlays [] (chunks.map Chunk.bytes)) <+:
      overlays [] (chunks.map Chunk.bytes) := List.takeWhile_prefix _
  rw [← overlays_eq_concatenation_iff]
  constructor
  · intro htext
    have hwhole : Process.cString (overlays [] (chunks.map Chunk.bytes)) =
        overlays [] (chunks.map Chunk.bytes) :=
      hprefix.eq_of_length_le (by rw [htext]; exact hfits)
    refine ⟨hwhole.symm.trans htext, ?_⟩
    rw [← htext]
    exact zero_not_mem_cString _
  · rintro ⟨himage, hzero⟩
    rw [himage]
    simpa using cString_append_zeros hzero 0

/-- A muxer gets the same answers whether the call writes to memory or to a file that the kernel
serves. The file then holds all that was written, and what is extracted from memory is the same
exactly when at most one of the chunks is not empty and none has a zero byte. -/
theorem same_text_iff {c : Platform} (hc : c.Generous) {lib : Libav} {w : World}
    {request : Request} (hmemory : request.toPath = memoryName) {path : List UInt8}
    {s s' : Session} (hs : audiofsAvioOpen c w.process memoryName = (some s.handle, s.process))
    (hs' : audiofsAvioOpen c w.process path = (some s'.handle, s'.process))
    (hfile : s'.handle.inMemory = false) {handle : AudiofsAvioHandle}
    (h : (doTranscode c lib w request).1.handle = some handle) {chunks : List Chunk}
    (hwrites : WritesChunks c lib (muxed (doTranscode c lib w request).1.log) chunks)
    (hserved : ServedRun c s' (chunks.map .write)) :
    let toMemory := doTranscode c lib w request
    let toFile := doTranscode c lib w { request with toPath := path }
    let writes := chunks.map Op.write
    (∃ handle', toFile.1.handle = some handle' ∧
      (⟨toFile.2.process, handle'⟩ : Session) = final (step c) s' writes) ∧
    (trace (step c) s writes).map Transition.output =
      (trace (step c) s' writes).map Transition.output ∧
    (fileAfter c s' writes).contents = concatenation chunks ∧
    ((extractChromaprint c ⟨toMemory.2.process, handle⟩).1.getD [] =
        (fileAfter c s' writes).contents ↔
      (chunks.filter fun chunk => !chunk.bytes.isEmpty).length ≤ 1 ∧
        0 ∉ concatenation chunks) := by
  have hopen : (audiofsAvioOpen c w.process request.toPath).1.isSome = true := by
    rw [hmemory, hs]
    rfl
  have hopen' : (audiofsAvioOpen c w.process path).1.isSome = true := by
    rw [hs']
    rfl
  obtain ⟨-, hlog, -, hhandle⟩ := doTranscode_alike c c lib hopen hopen'
  rw [h] at hhandle
  obtain ⟨handle', hhandle'⟩ := Option.isSome_iff_exists.mp hhandle.symm
  obtain ⟨s₁, hs₁, hsession⟩ := handle_session hhandle'
  obtain ⟨hanswers, hcontents⟩ := file_writes hfile rfl chunks hserved
  have hgranted := generous_opened hc hs
  have htotal := hwrites.total
  obtain ⟨-, hmemoryAnswers, -⟩ := writes_count chunks (opened_shows hgranted)
    (opened_counts hgranted) (by omega) (generous_writes_granted hc (opened_shows hgranted) chunks)
  have htext := transcoded_text hc hmemory h hwrites
  refine ⟨⟨handle', hhandle', ?_⟩, hmemoryAnswers.trans hanswers.symm, hcontents, ?_⟩
  · have hsame := hs₁.symm.trans hs'
    simp only [Prod.mk.injEq, Option.some.injEq] at hsame
    obtain ⟨process₁, handle₁⟩ := s₁
    obtain ⟨rfl, rfl⟩ : handle₁ = s'.handle ∧ process₁ = s'.process := hsame
    rw [hsession, ← hlog, hwrites.ops]
  · rw [htext, fileAfter, hcontents]
    exact cString_eq_concatenation_iff chunks

theorem smooth_same_text :
    (∃ handle', (doTranscode Platform.disk Libav.smooth World.start
        { audioFirst with toPath := [102] }).1.handle = some handle' ∧
      (⟨(doTranscode Platform.disk Libav.smooth World.start
        { audioFirst with toPath := [102] }).2.process, handle'⟩ : Session) =
          final (step Platform.disk) Session.onDisk ([Chunk.one 65].map Op.write)) ∧
    (trace (step Platform.disk) Session.first ([Chunk.one 65].map Op.write)).map
        Transition.output =
      (trace (step Platform.disk) Session.onDisk ([Chunk.one 65].map Op.write)).map
        Transition.output ∧
    (fileAfter Platform.disk Session.onDisk ([Chunk.one 65].map Op.write)).contents =
      concatenation [.one 65] ∧
    ∃ handle, (doTranscode Platform.disk Libav.smooth World.start audioFirst).1.handle =
        some handle ∧
      ((extractChromaprint Platform.disk ⟨(doTranscode Platform.disk Libav.smooth World.start
          audioFirst).2.process, handle⟩).1.getD [] =
        (fileAfter Platform.disk Session.onDisk ([Chunk.one 65].map Op.write)).contents ↔
      ([Chunk.one 65].filter fun chunk => !chunk.bytes.isEmpty).length ≤ 1 ∧
        0 ∉ concatenation [.one 65]) := by
  have hgenerous : Platform.disk.Generous := fun _ _ => rfl
  have hsome : (doTranscode Platform.disk Libav.smooth World.start
      audioFirst).1.handle.isSome = true := by decide +kernel
  obtain ⟨handle, hhandle⟩ := Option.isSome_iff_exists.mp hsome
  have hmemory : audiofsAvioOpen Platform.disk World.start.process memoryName =
      (some Session.first.handle, Session.first.process) := rfl
  have hdisk : audiofsAvioOpen Platform.disk World.start.process [102] =
      (some Session.onDisk.handle, Session.onDisk.process) := rfl
  obtain ⟨hfile, hanswers, hcontents, htext⟩ := same_text_iff hgenerous rfl hmemory hdisk rfl
    hhandle (smooth_writes _ _) (by decide +kernel)
  exact ⟨hfile, hanswers, hcontents, handle, hhandle, htext⟩

end AudioFS.Transcode
