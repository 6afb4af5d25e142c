import AudioFS.StreamSelection

/-!
# The code at label `end`

Every exit of `do_transcode` reaches the same clean-up with a different subset of
the static pointers set. What the clean-up needs is a property of these pointers
alone; which calls reach it that way is read off the setup functions, one exit
after the other.
-/

namespace AudioFS.Transcode
open AudioFS.CustomAvio StepMachine

def frees (o : Object) (accesses : List Access) : ℕ :=
  accesses.countP fun a => a.frees && a.object == o

def Ptr.currentField {α β : Type*} (call : ℕ) (p : Ptr α) (field : α → Ptr β) : Bool :=
  match p with
  | .live n object => n == call && (field object).current call
  | _ => false

/-- The object is live behind its static pointer, and this call created it. -/
def Statics.holds (call : ℕ) (fromPath : Bool) (s : Statics) : Object → Bool
  | .streamCtx => s.streamCtx.current call
  | .decCtx => s.streamCtx.currentField call StreamContext.decCtx
  | .encCtx => s.streamCtx.currentField call StreamContext.encCtx
  | .decFrame => s.streamCtx.currentField call StreamContext.decFrame
  | .filterCtx => s.filterCtx.current call
  | .filterGraph => s.filterCtx.currentField call FilteringContext.filterGraph
  | .encPkt => s.filterCtx.currentField call FilteringContext.encPkt
  | .filteredFrame => s.filterCtx.currentField call FilteringContext.filteredFrame
  | .ifmtCtx => fromPath && s.ifmtCtx.current call
  | .ofmtCtx => s.ofmtCtx.current call
  | .pb => s.ofmtCtx.currentField call OutputContext.pb

def Ptr.Freeable {α : Type*} (call : ℕ) (p : Ptr α) : Prop := p = .null ∨ p.current call = true

def StreamTidy (call : ℕ) : Ptr StreamContext → Prop
  | .live n sc =>
    n = call ∧ sc.decCtx.Freeable call ∧ sc.encCtx.Freeable call ∧ sc.decFrame.Freeable call
  | _ => False

def FilterTidy (call : ℕ) : Ptr FilteringContext → Prop
  | .null => True
  | .live n fc => n = call ∧
    (fc.filterGraph = .null ∨ fc.filterGraph.current call = true ∧ fc.encPkt.Freeable call ∧
      fc.filteredFrame.Freeable call)
  | _ => False

def OutputTidy (call : ℕ) : Ptr OutputContext → Prop
  | .null => True
  | .live n out => n = call ∧ (out.noFile = true ∨ out.pb.current call = true)
  | _ => False

/-- What the pointers must be like when the code at `end` is reached. -/
structure Tidy (call : ℕ) (fromPath : Bool) (s : Statics) : Prop where
  stream : StreamTidy call s.streamCtx
  filter : FilterTidy call s.filterCtx
  input : fromPath = true → s.ifmtCtx.Freeable call
  output : OutputTidy call s.ofmtCtx

section
variable {α : Type*} (call : ℕ)

@[simp] theorem current_unset : (Ptr.unset : Ptr α).current call = false := rfl

@[simp] theorem current_null : (Ptr.null : Ptr α).current call = false := rfl

@[simp] theorem current_live (n : ℕ) (x : α) : (Ptr.live n x).current call = (n == call) := rfl

@[simp] theorem current_released : (Ptr.released : Ptr α).current call = false := rfl

@[simp] theorem not_freeable_unset : ¬ (Ptr.unset : Ptr α).Freeable call := by simp [Ptr.Freeable]

@[simp] theorem freeable_null : (Ptr.null : Ptr α).Freeable call := .inl rfl

@[simp] theorem freeable_live (n : ℕ) (x : α) : (Ptr.live n x).Freeable call ↔ n = call := by
  simp [Ptr.Freeable]

@[simp] theorem not_freeable_released : ¬ (Ptr.released : Ptr α).Freeable call := by
  simp [Ptr.Freeable]

theorem readOf_current (o : Object) (p : Ptr α) : (readOf call o p).current = p.current call := rfl

theorem freeOf_current (o : Object) (p : Ptr α) :
    (∀ a ∈ freeOf call o p, a.current = true) ↔ p.Freeable call := by
  cases p <;> simp [freeOf]

theorem freeStreamField_current (s : Statics) (o : Object) (field : StreamContext → Ptr α) :
    (∀ a ∈ freeStreamField call s o field, a.current = true) ↔
      ∃ sc, s.streamCtx = .live call sc ∧ (field sc).Freeable call := by
  cases h : s.streamCtx with
  | live n sc =>
    simp only [freeStreamField, h, List.forall_mem_cons, freeOf_current, readOf_current,
      current_live, beq_iff_eq, Ptr.live.injEq]
    constructor
    · intro hboth
      obtain ⟨rfl, hfield⟩ := hboth
      exact ⟨sc, ⟨rfl, rfl⟩, hfield⟩
    · intro hfound
      obtain ⟨sc', ⟨rfl, rfl⟩, hfield⟩ := hfound
      exact ⟨rfl, hfield⟩
  | _ => simp [freeStreamField, h, readOf_current]

end

theorem freeFilter_current (call : ℕ) (s : Statics) :
    ((∀ a ∈ freeFilter call s, a.current = true) ∧ s.filterCtx.Freeable call) ↔
      FilterTidy call s.filterCtx := by
  cases h : s.filterCtx with
  | live n fc =>
    simp only [freeFilter, h, List.forall_mem_cons, readOf_current, current_live, beq_iff_eq,
      freeable_live, FilterTidy]
    cases hgraph : fc.filterGraph with
    | live m graph =>
      simp only [List.forall_mem_append, freeOf_current]
      simp
      tauto
    | _ => simp only [List.forall_mem_append, freeOf_current]; simp
  | _ => simp [freeFilter, h, FilterTidy, readOf_current]

theorem extractHandle_current (call : ℕ) (s : Statics) :
    ((∀ a ∈ extractHandle call s, a.current = true) ∧ s.ofmtCtx.Freeable call) ↔
      OutputTidy call s.ofmtCtx := by
  cases h : s.ofmtCtx with
  | live n out =>
    cases hfile : out.noFile with
    | true => simp [extractHandle, h, hfile, OutputTidy, readOf_current]
    | false =>
      simp only [extractHandle, h, hfile, OutputTidy, List.forall_mem_cons, readOf_current]
      simp
      tauto
  | _ => simp [extractHandle, h, OutputTidy, readOf_current]

/-- Every access of the clean-up is to a live object of this call exactly when the pointers are
tidy. -/
theorem cleanup_current_iff (call : ℕ) (fromPath : Bool) (s : Statics) :
    (∀ a ∈ cleanup call fromPath s, a.current = true) ↔ Tidy call fromPath s := by
  have hinput : (∀ a ∈ (if fromPath then freeOf call .ifmtCtx s.ifmtCtx else []),
      a.current = true) ↔ (fromPath = true → s.ifmtCtx.Freeable call) := by
    cases fromPath <;> simp [freeOf_current]
  simp only [cleanup, List.forall_mem_append, freeStreamField_current, freeOf_current, hinput]
  constructor
  · intro hall
    obtain ⟨⟨⟨⟨⟨⟨⟨⟨⟨sc, hsc, hdec⟩, hencCtx⟩, hfilter⟩, hframe⟩, -⟩, hfc⟩, hifmt⟩, hextract⟩, hout⟩ := hall
    refine ⟨?_, (freeFilter_current call s).mp ⟨hfilter, hfc⟩, hifmt,
      (extractHandle_current call s).mp ⟨hextract, hout⟩⟩
    rw [hsc] at hencCtx hframe ⊢
    obtain ⟨_, henc, henc'⟩ := hencCtx
    obtain ⟨_, hframe, hframe'⟩ := hframe
    obtain ⟨-, rfl⟩ := Ptr.live.inj henc
    obtain ⟨-, rfl⟩ := Ptr.live.inj hframe
    exact ⟨rfl, hdec, henc', hframe'⟩
  · intro htidy
    obtain ⟨hstream, hfilter, hifmt, houtput⟩ := htidy
    obtain ⟨hfilter, hfc⟩ := (freeFilter_current call s).mpr hfilter
    obtain ⟨hextract, hout⟩ := (extractHandle_current call s).mpr houtput
    cases h : s.streamCtx with
    | live n sc =>
      rw [h] at hstream
      obtain ⟨rfl, hdec, henc, hframe⟩ := hstream
      exact ⟨⟨⟨⟨⟨⟨⟨⟨⟨sc, rfl, hdec⟩, sc, rfl, henc⟩, hfilter⟩, sc, rfl, hframe⟩, by simp⟩, hfc⟩,
        hifmt⟩, hextract⟩, hout⟩
    | _ =>
      rw [h] at hstream
      exact hstream.elim

/-- A filter context without a graph has neither a packet nor a frame yet. -/
def FilterShape (call : ℕ) : Ptr FilteringContext → Prop
  | .live _ fc => fc.filterGraph = .null →
    fc.encPkt.current call = false ∧ fc.filteredFrame.current call = false
  | _ => True

structure EndShape (call : ℕ) (noFile : Bool) (s : Statics) : Prop where
  filter : FilterShape call s.filterCtx
  pb : s.ofmtCtx.currentField call OutputContext.pb = true ↔ noFile = false

section
variable {α : Type*} (call : ℕ) (o : Object)

@[simp] theorem frees_nil : frees o [] = 0 := rfl

@[simp] theorem frees_append (l l' : List Access) : frees o (l ++ l') = frees o l + frees o l' :=
  List.countP_append

@[simp] theorem frees_readOf (o' : Object) (p : Ptr α) (l : List Access) :
    frees o (readOf call o' p :: l) = frees o l := by
  simp [frees, readOf]

theorem frees_freeOf_same {p : Ptr α} (h : p.current call = true) :
    frees o (freeOf call o p) = 1 := by
  cases p <;> simp_all [freeOf, frees]

@[simp] theorem frees_freeOf_other {o' : Object} (h : o' ≠ o) (p : Ptr α) :
    frees o (freeOf call o' p) = 0 := by
  cases p <;> simp [freeOf, frees, h]

@[simp] theorem frees_freeStreamField_other {o' : Object} (h : o' ≠ o) (s : Statics)
    (field : StreamContext → Ptr α) : frees o (freeStreamField call s o' field) = 0 := by
  cases hs : s.streamCtx <;> simp [freeStreamField, hs, h]

theorem frees_freeStreamField_same {s : Statics} {field : StreamContext → Ptr α}
    (h : s.streamCtx.currentField call field = true) :
    frees o (freeStreamField call s o field) = 1 := by
  cases hs : s.streamCtx with
  | live n sc =>
    simp only [hs, Ptr.currentField, Bool.and_eq_true] at h
    simp [freeStreamField, hs, frees_freeOf_same call o h.2]
  | _ => simp [hs, Ptr.currentField] at h

@[simp] theorem frees_extractHandle (s : Statics) : frees o (extractHandle call s) = 0 := by
  cases hs : s.ofmtCtx with
  | live n out => cases hfile : out.noFile <;> simp [extractHandle, hs, hfile]
  | _ => simp [extractHandle, hs]

theorem frees_freeFilter_other {s : Statics} (hgraph : .filterGraph ≠ o) (hpkt : .encPkt ≠ o)
    (hframe : .filteredFrame ≠ o) : frees o (freeFilter call s) = 0 := by
  cases hs : s.filterCtx with
  | live n fc => cases hg : fc.filterGraph <;> simp [freeFilter, hs, hg, hgraph, hpkt, hframe]
  | _ => simp [freeFilter, hs]

theorem frees_freeFilter {s : Statics} {n : ℕ} {fc : FilteringContext}
    (hs : s.filterCtx = .live n fc) (hgraph : fc.filterGraph ≠ .null) :
    frees o (freeFilter call s) =
      frees o (freeOf call .filterGraph fc.filterGraph) + frees o (freeOf call .encPkt fc.encPkt) +
        frees o (freeOf call .filteredFrame fc.filteredFrame) := by
  cases hg : fc.filterGraph <;> simp_all [freeFilter, Nat.add_assoc]

theorem held_filter {s : Statics} {field : FilteringContext → Ptr α}
    (h : s.filterCtx.currentField call field = true) :
    ∃ fc, s.filterCtx = .live call fc ∧ (field fc).current call = true := by
  cases hs : s.filterCtx with
  | live n fc =>
    simp only [hs, Ptr.currentField, Bool.and_eq_true, beq_iff_eq] at h
    obtain ⟨rfl, hfield⟩ := h
    exact ⟨fc, rfl, hfield⟩
  | _ => simp [hs, Ptr.currentField] at h

end

/-- Everything this call created is freed exactly once, the AVIO context apart, which is never
freed. -/
theorem frees_cleanup {call : ℕ} {fromPath : Bool} {s : Statics}
    (hshape : FilterShape call s.filterCtx) {o : Object} (h : s.holds call fromPath o = true) :
    frees o (cleanup call fromPath s) = if o = .pb then 0 else 1 := by
  have hinput {o : Object} (ho : .ifmtCtx ≠ o) :
      frees o (if fromPath then freeOf call .ifmtCtx s.ifmtCtx else []) = 0 := by
    cases fromPath <;> simp [ho]
  cases o with
  | streamCtx =>
    simp [cleanup, frees_freeFilter_other, hinput, frees_freeOf_same call _ h]
  | decCtx =>
    simp [cleanup, frees_freeFilter_other, hinput, frees_freeStreamField_same call _ h]
  | encCtx =>
    simp [cleanup, frees_freeFilter_other, hinput, frees_freeStreamField_same call _ h]
  | decFrame =>
    simp [cleanup, frees_freeFilter_other, hinput, frees_freeStreamField_same call _ h]
  | filterCtx =>
    simp [cleanup, frees_freeFilter_other, hinput, frees_freeOf_same call _ h]
  | filterGraph =>
    obtain ⟨fc, hs, hgraph⟩ := held_filter call h
    have hne : fc.filterGraph ≠ .null := by
      intro hnull
      simp [hnull] at hgraph
    simp [cleanup, hinput, frees_freeFilter call _ hs hne, frees_freeOf_same call _ hgraph]
  | encPkt =>
    obtain ⟨fc, hs, hpkt⟩ := held_filter call h
    rw [hs] at hshape
    have hne : fc.filterGraph ≠ .null := by
      intro hnull
      simp [(hshape hnull).1] at hpkt
    simp [cleanup, hinput, frees_freeFilter call _ hs hne, frees_freeOf_same call _ hpkt]
  | filteredFrame =>
    obtain ⟨fc, hs, hframe⟩ := held_filter call h
    rw [hs] at hshape
    have hne : fc.filterGraph ≠ .null := by
      intro hnull
      simp [(hshape hnull).2] at hframe
    simp [cleanup, hinput, frees_freeFilter call _ hs hne, frees_freeOf_same call _ hframe]
  | ifmtCtx =>
    simp only [Statics.holds, Bool.and_eq_true] at h
    simp [cleanup, frees_freeFilter_other, h.1, frees_freeOf_same call _ h.2]
  | ofmtCtx =>
    simp [cleanup, frees_freeFilter_other, hinput, frees_freeOf_same call _ h]
  | pb => simp [cleanup, frees_freeFilter_other, hinput]

section
variable (lib : Libav)

/-- Everything the decoder loop asks for stream `i`. -/
def Libav.opensDecoder (i : ℕ) : Bool :=
  lib.findDecoder i && lib.allocDecoder i && 0 ≤ lib.parametersToContext i &&
    0 ≤ lib.openDecoder i && lib.allocDecFrame i

def Libav.configuresFilter : Bool :=
  lib.allocInOutAndGraph && lib.findBufferFilters && 0 ≤ lib.createBufferSource &&
    0 ≤ lib.createBufferSink && 0 ≤ lib.setSampleFmts && 0 ≤ lib.setChannelLayouts &&
    0 ≤ lib.setSampleRates && lib.strdupNames && 0 ≤ lib.parseGraph && lib.configGraph.isNone

def Request.opens (request : Request) : Bool :=
  if request.fromPath then 0 ≤ lib.openInput.1 && 0 ≤ lib.findStreamInfo
  else request.fromContext.isSome

theorem openDecoder_isRight (i : ℕ) (stream : AVStream) :
    ((openDecoder lib i stream).isRight && lib.allocDecFrame i) = lib.opensDecoder i := by
  simp only [openDecoder, Libav.opensDecoder]
  grind

theorem initFilter_isRight {d : AVCodecContext} (h : d.codecType = .audio) (e : AVCodecContext) :
    (initFilter lib d e).isRight = lib.configuresFilter := by
  simp only [initFilter, Libav.configuresFilter, h]
  cases lib.configGraph <;> grind

theorem openDecoders_nonneg_iff (call i : ℕ) (streams : List AVStream) (sc : StreamContext) :
    0 ≤ (openDecoders lib call i streams sc).1 ↔
      ∀ s ∈ audioStreams i streams, lib.opensDecoder s.1 = true := by
  induction streams generalizing i sc with
  | nil => simp [openDecoders, audioStreams]
  | cons stream streams ih =>
    cases haudio : stream.isAudio with
    | false =>
      rw [audioStreams_of_other haudio, ← ih (i + 1) sc]
      simp [openDecoders, haudio]
    | true =>
      have hright := openDecoder_isRight lib i stream
      rw [audioStreams_of_audio haudio, List.forall_mem_cons, ← hright]
      cases hopen : openDecoder lib i stream with
      | inl code =>
        have hneg := openDecoder_inl hopen
        simp [openDecoders, haudio, hopen, hneg]
      | inr d =>
        cases hframe : lib.allocDecFrame i with
        | false =>
          simp only [openDecoders, haudio, hopen, hframe]
          simp [AVERROR_ENOMEM]
        | true =>
          simp only [openDecoders, haudio, hopen, hframe]
          simp [ih]

theorem openDecoders_encCtx (call i : ℕ) (streams : List AVStream) (sc : StreamContext) :
    (openDecoders lib call i streams sc).2.encCtx = sc.encCtx := by
  induction streams generalizing i sc with
  | nil => rfl
  | cons stream streams ih =>
    cases haudio : stream.isAudio with
    | false => simp [openDecoders, haudio, ih]
    | true =>
      cases hopen : openDecoder lib i stream with
      | inl code => simp [openDecoders, haudio, hopen]
      | inr d => cases hframe : lib.allocDecFrame i <;> simp [openDecoders, haudio, hopen, hframe, ih]

theorem openOutput_statics (c : Platform) (call : ℕ) (filename : List UInt8) {out : OutputContext}
    (process : Process) (hpb : out.pb = .null) :
    let r := openOutput c lib call filename out process
    let opened := (audiofsAvioOpen c process filename).1.isSome
    (0 ≤ r.1 ↔ (out.noFile = true ∨ opened = true) ∧ 0 ≤ lib.writeHeader.code) ∧
      (OutputTidy call (.live call r.2.1) ↔
        out.noFile = true ∨ opened = true ∧ lib.allocAvioContext = true) ∧
      (r.2.1.pb.current call = true ↔
        out.noFile = false ∧ opened = true ∧ lib.allocAvioContext = true) := by
  cases hfile : out.noFile with
  | true => simp [openOutput, writeHeader, hfile, OutputTidy, hpb]
  | false =>
    cases hopen : audiofsAvioOpen c process filename with
    | mk handle process' =>
      cases handle with
      | none => simp [openOutput, hfile, hopen, OutputTidy, hpb]
      | some handle =>
        cases halloc : lib.allocAvioContext <;>
          simp [openOutput, writeHeader, hfile, hopen, halloc, OutputTidy, Ptr.ofAlloc]

/-- The filter context is left half filled only when the packet of a configured graph could not be
allocated. -/
theorem selectStream_statics {call n m i : ℕ} {streams : List AVStream} {sc : StreamContext}
    {d e : AVCodecContext} (hdec : sc.decCtx = .live n d) (haudio : d.codecType = .audio)
    (henc : sc.encCtx = .live m e) (hne : audioStreams i streams ≠ []) :
    let fc := (selectStream lib call i streams sc FilteringContext.fresh).2
    (FilterTidy call (.live call fc) ↔ (lib.configuresFilter = true → lib.allocEncPacket = true)) ∧
      FilterShape call (.live call fc) := by
  induction streams generalizing i with
  | nil => simp [audioStreams] at hne
  | cons stream streams ih =>
    cases hstream : stream.isAudio with
    | false =>
      rw [audioStreams_of_other hstream] at hne
      simp only [selectStream, hstream, Bool.not_false, if_true]
      exact ih hne
    | true =>
      have hright := initFilter_isRight lib haudio e
      simp only [selectStream, hstream, Bool.not_true, Bool.false_eq_true, if_false, hdec, henc]
      rw [← hright]
      cases hinit : initFilter lib d e with
      | inl code => simp [FilterTidy, FilterShape, FilteringContext.fresh]
      | inr graph =>
        cases hpkt : lib.allocEncPacket with
        | false => simp [FilterTidy, FilterShape, FilteringContext.fresh, Ptr.ofAlloc]
        | true =>
          cases hframe : lib.allocFilteredFrame <;>
            simp [FilterTidy, FilterShape, Ptr.ofAlloc]

end

def Ptr.Dead {α : Type*} (p : Ptr α) : Prop := p = .null ∨ p = .released

/-- The static pointers between two calls; only `ifmt_ctx` may still be live. -/
structure Settled (s : Statics) : Prop where
  streamCtx : s.streamCtx.Dead
  filterCtx : s.filterCtx.Dead
  ofmtCtx : s.ofmtCtx.Dead

theorem freed_dead {α : Type*} (p : Ptr α) : p.freed.Dead := by
  cases p <;> simp [Ptr.freed, Ptr.Dead]

theorem settled_settled (fromPath : Bool) (s : Statics) : Settled (s.settled fromPath) :=
  ⟨freed_dead _, freed_dead _, freed_dead _⟩

theorem filterTidy_of_dead (call : ℕ) {p : Ptr FilteringContext} (h : p.Dead) :
    FilterTidy call p ↔ p = .null := by
  rcases h with rfl | rfl <;> simp [FilterTidy]

section
variable (c : Platform) (lib : Libav) (w : World) (request : Request)

def OutputOpens : Prop :=
  (∀ s ∈ audioStreams 0 (request.input lib).streams, lib.opensEncoder s.1 = true) ∧
    (lib.noFile = true ∨ (audiofsAvioOpen c w.process request.toPath).1.isSome = true) ∧
    0 ≤ lib.writeHeader.code

/-- What a call must find for its clean-up to be sound. -/
structure Cleanable : Prop where
  input : request.opens lib = true
  streamContext : lib.mallocStreamContext = true
  decoders : ∀ s ∈ audioStreams 0 (request.input lib).streams, lib.opensDecoder s.1 = true
  outputContext : lib.allocOutputContext = true
  encoder : ((audioStreams 0 (request.input lib).streams).head?).any
    (fun s => lib.opensEncoder s.1) = true
  file : lib.noFile = true ∨
    (∀ s ∈ audioStreams 0 (request.input lib).streams, lib.opensEncoder s.1 = true) ∧
      (audiofsAvioOpen c w.process request.toPath).1.isSome = true ∧ lib.allocAvioContext = true
  stale : w.statics.filterCtx = .null ∨ OutputOpens c lib w request
  filterPacket : OutputOpens c lib w request → lib.mallocFilteringContext = true →
    lib.configuresFilter = true → lib.allocEncPacket = true

/-- What `open_output_file` leaves of a call whose decoders are open. -/
structure OutputLeft (d : AVCodecContext) (code : ℤ) (s : Statics) : Prop where
  code : 0 ≤ code ↔ lib.allocOutputContext = true ∧ OutputOpens c lib w request
  filterCtx : s.filterCtx = w.statics.filterCtx
  ifmtCtx : s.ifmtCtx = .live w.calls ()
  streamCtx : s.streamCtx = .live w.calls (
    if (lib.allocOutputContext && ((audioStreams 0 (request.input lib).streams).head?).any
      fun s => lib.opensEncoder s.1) = true then
        ⟨.live w.calls d, .live w.calls (encoderContext lib d), .live w.calls ()⟩
    else ⟨.live w.calls d, .unset, .live w.calls ()⟩)
  output : lib.allocOutputContext = true →
    (OutputTidy w.calls s.ofmtCtx ↔ lib.noFile = true ∨
      (∀ s ∈ audioStreams 0 (request.input lib).streams, lib.opensEncoder s.1 = true) ∧
        (audiofsAvioOpen c w.process request.toPath).1.isSome = true ∧
          lib.allocAvioContext = true) ∧
    (s.ofmtCtx.currentField w.calls OutputContext.pb = true ↔ lib.noFile = false ∧
      (∀ s ∈ audioStreams 0 (request.input lib).streams, lib.opensEncoder s.1 = true) ∧
        (audiofsAvioOpen c w.process request.toPath).1.isSome = true ∧
          lib.allocAvioContext = true)

variable {w request}

theorem openRequested_opens (hopens : request.opens lib = true)
    (hmalloc : lib.mallocStreamContext = true) :
    let r := openDecoders lib w.calls 0 (request.input lib).streams StreamContext.fresh
    openRequested lib w request =
      (r.1, { w.statics with ifmtCtx := .live w.calls (), streamCtx := .live w.calls r.2 }) := by
  cases hpath : request.fromPath with
  | true =>
    simp only [Request.opens, hpath, if_true, Bool.and_eq_true, decide_eq_true_eq] at hopens
    simp [openRequested, openInputFile, openInputFileWithFormatContext, Request.input, hpath,
      hmalloc, not_lt.mpr hopens.1, not_lt.mpr hopens.2]
  | false =>
    simp only [Request.opens, hpath, Bool.false_eq_true, if_false] at hopens
    obtain ⟨ctx, hctx⟩ := Option.isSome_iff_exists.mp hopens
    simp [openRequested, openInputFileWithFormatContext, Request.input, hpath, hmalloc, hctx]

theorem openRequested_fails (hw : Settled w.statics)
    (h : ¬ (request.opens lib = true ∧ lib.mallocStreamContext = true)) :
    (openRequested lib w request).1 < 0 ∧
      ¬ StreamTidy w.calls (openRequested lib w request).2.streamCtx := by
  have hstale : ¬ StreamTidy w.calls w.statics.streamCtx := by
    rcases hw.streamCtx with hnull | hreleased
    · simp [hnull, StreamTidy]
    · simp [hreleased, StreamTidy]
  cases hpath : request.fromPath with
  | true =>
    simp only [openRequested, hpath, if_true, openInputFile]
    split_ifs with hopen hinfo
    · exact ⟨hopen, hstale⟩
    · exact ⟨hinfo, hstale⟩
    · have hmalloc : lib.mallocStreamContext = false := by
        simpa [Request.opens, hpath, not_lt.mp hopen, not_lt.mp hinfo] using h
      simp [openInputFileWithFormatContext, hmalloc, StreamTidy, AVERROR_ENOMEM]
  | false =>
    cases hctx : request.fromContext with
    | none => simpa [openRequested, hpath, hctx, openInputFileWithFormatContext] using hstale
    | some ctx =>
      have hmalloc : lib.mallocStreamContext = false := by
        simpa [Request.opens, hpath, hctx] using h
      simp [openRequested, hpath, hctx, openInputFileWithFormatContext, hmalloc, StreamTidy,
        AVERROR_ENOMEM]

theorem openOutputFile_statics {call n : ℕ} (filename : List UInt8) (streams : List AVStream)
    {sc : StreamContext} (s : Statics) (process : Process) (hs : s.streamCtx = .live call sc)
    {d : AVCodecContext} (hdec : sc.decCtx = .live n d) (haudio : d.codecType = .audio) :
    let o := openOutputFile c lib call filename streams sc s process
    let all := ∀ s ∈ audioStreams 0 streams, lib.opensEncoder s.1 = true
    let opened := (audiofsAvioOpen c process filename).1.isSome = true
    let first := ((audioStreams 0 streams).head?).any fun s => lib.opensEncoder s.1
    (0 ≤ o.1 ↔ lib.allocOutputContext = true ∧ all ∧ (lib.noFile = true ∨ opened) ∧
        0 ≤ lib.writeHeader.code) ∧
      o.2.1.filterCtx = s.filterCtx ∧ o.2.1.ifmtCtx = s.ifmtCtx ∧
      o.2.1.streamCtx = .live call (if lib.allocOutputContext && first then
        { sc with encCtx := .live call (encoderContext lib d) } else sc) ∧
      (lib.allocOutputContext = true →
        (OutputTidy call o.2.1.ofmtCtx ↔
          lib.noFile = true ∨ all ∧ opened ∧ lib.allocAvioContext = true) ∧
        (o.2.1.ofmtCtx.currentField call OutputContext.pb = true ↔
          lib.noFile = false ∧ all ∧ opened ∧ lib.allocAvioContext = true)) := by
  cases halloc : lib.allocOutputContext with
  | false => simp [openOutputFile, halloc, AVERROR_UNKNOWN, hs]
  | true =>
    obtain ⟨hret, -, hfile, hpb, hsc⟩ :=
      addStreams_spec lib call 0 streams ⟨[], lib.noFile, .null⟩ hdec haudio
    simp only [openOutputFile, halloc, Bool.not_true, Bool.false_eq_true, if_false, Bool.true_and,
      true_and, ← hsc, ← hret]
    generalize addStreams lib call 0 streams ⟨[], lib.noFile, .null⟩ sc = a at hfile hpb ⊢
    obtain ⟨hoput, htidy, hheld⟩ := openOutput_statics lib c call filename process hpb
    rw [hfile] at hoput htidy hheld
    split_ifs with hadd hopen
    · -- the output has no AVIO context yet
      have hnot : ¬ 0 ≤ a.1 := not_le.mpr hadd
      simp [hnot, OutputTidy, Ptr.currentField, hfile, hpb]
    · have hall : 0 ≤ a.1 := not_lt.mp hadd
      refine ⟨?_, rfl, rfl, rfl, fun _ => ⟨?_, ?_⟩⟩
      · simpa [hall] using hoput
      · simpa [hall] using htidy
      · simpa [hall, Ptr.currentField] using hheld
    · have hall : 0 ≤ a.1 := not_lt.mp hadd
      refine ⟨?_, rfl, rfl, rfl, fun _ => ⟨?_, ?_⟩⟩
      · simpa [hall, not_lt.mp hopen] using hoput
      · simpa [hall] using htidy
      · simpa [hall, Ptr.currentField] using hheld

omit c in
theorem initFilters_frame (call : ℕ) (streams : List AVStream) (sc : StreamContext)
    (s : Statics) :
    ∃ fc, (initFilters lib call streams sc s).2 = { s with filterCtx := fc } := by
  simp only [initFilters]
  split_ifs <;> exact ⟨_, rfl⟩

omit c in
theorem initFilters_statics (call : ℕ) (streams : List AVStream) (sc : StreamContext)
    (s : Statics) {n m : ℕ} {d e : AVCodecContext} (hdec : sc.decCtx = .live n d)
    (haudio : d.codecType = .audio) (henc : sc.encCtx = .live m e)
    (hne : audioStreams 0 streams ≠ []) :
    let fc := (initFilters lib call streams sc s).2.filterCtx
    (FilterTidy call fc ↔ (lib.mallocFilteringContext = true → lib.configuresFilter = true →
      lib.allocEncPacket = true)) ∧ FilterShape call fc := by
  simp only [initFilters]
  split_ifs with hmalloc
  · simpa [hmalloc] using selectStream_statics lib hdec haudio henc hne
  · simp [hmalloc, FilterTidy, FilterShape]

omit c in
theorem not_streamTidy {call : ℕ} {p : Ptr StreamContext} {sc : StreamContext}
    (hp : p = .live call sc) (hunset : sc.decCtx = .unset ∨ sc.encCtx = .unset) :
    ¬ StreamTidy call p := by
  subst hp
  intro htidy
  obtain ⟨-, hdec, henc, -⟩ := htidy
  rcases hunset with hunset | hunset
  · rw [hunset] at hdec
    exact not_freeable_unset call hdec
  · rw [hunset] at henc
    exact not_freeable_unset call henc

theorem prepare_statics (hopens : request.opens lib = true)
    (hmalloc : lib.mallocStreamContext = true) {sc : StreamContext}
    (hdecoders :
      0 ≤ (openDecoders lib w.calls 0 (request.input lib).streams StreamContext.fresh).1)
    (hsc : (openDecoders lib w.calls 0 (request.input lib).streams StreamContext.fresh).2 = sc) :
    let streams := (request.input lib).streams
    let s : Statics :=
      { w.statics with ifmtCtx := .live w.calls (), streamCtx := .live w.calls sc }
    let o := openOutputFile c lib w.calls request.toPath streams sc s w.process
    (prepare c lib w request).2.1 = if o.1 < 0 then o.2.1
      else (initFilters lib w.calls streams o.2.1.streamContext o.2.1).2 := by
  have hopen := openRequested_opens lib (w := w) hopens hmalloc
  subst hsc
  simp only [prepare, hopen, not_lt.mpr hdecoders, if_false, Statics.streamContext]
  split_ifs <;> rfl

omit c in
theorem addStreams_silent {i : ℕ} {streams : List AVStream} (h : audioStreams i streams = [])
    (call : ℕ) (out : OutputContext) (sc : StreamContext) :
    addStreams lib call i streams out sc = (0, out, sc) := by
  induction streams generalizing i with
  | nil => rfl
  | cons stream streams ih =>
    cases haudio : stream.isAudio with
    | true => simp [audioStreams_of_audio haudio] at h
    | false =>
      rw [audioStreams_of_other haudio] at h
      simpa [addStreams, haudio] using ih h

theorem prepare_silent (hopens : request.opens lib = true)
    (hmalloc : lib.mallocStreamContext = true)
    (hsilent : audioStreams 0 (request.input lib).streams = []) :
    (prepare c lib w request).2.1.streamCtx = .live w.calls StreamContext.fresh := by
  have hdecoders :
      0 ≤ (openDecoders lib w.calls 0 (request.input lib).streams StreamContext.fresh).1 := by
    simp [openDecoders_nonneg_iff, hsilent]
  have hsc := openDecoders_ok hdecoders
  simp only [hsilent, List.getLast?_nil] at hsc
  rw [prepare_statics c lib hopens hmalloc hdecoders hsc]
  have hstream (s : Statics) (hs : s.streamCtx = .live w.calls StreamContext.fresh) :
      (openOutputFile c lib w.calls request.toPath (request.input lib).streams
        StreamContext.fresh s w.process).2.1.streamCtx = .live w.calls StreamContext.fresh := by
    simp only [openOutputFile, addStreams_silent lib hsilent]
    split_ifs <;> first | exact hs | rfl
  split_ifs
  · exact hstream _ rfl
  · obtain ⟨fc, hfc⟩ := initFilters_frame lib w.calls (request.input lib).streams _ _
    rw [hfc]
    exact hstream _ rfl

section
variable {c lib}
variable {d : AVCodecContext} {code : ℤ} {s : Statics} (h : OutputLeft c lib w request d code s)
include h

theorem OutputLeft.pb_iff (halloc : lib.allocOutputContext = true)
    (hclean : Cleanable c lib w request) :
    s.ofmtCtx.currentField w.calls OutputContext.pb = true ↔ lib.noFile = false := by
  rw [(h.output halloc).2]
  refine ⟨fun hheld => hheld.1, fun hfile => ⟨hfile, ?_⟩⟩
  exact hclean.file.resolve_left (by simp [hfile])

theorem OutputLeft.encoder_stream (halloc : lib.allocOutputContext = true)
    (hfirst : ((audioStreams 0 (request.input lib).streams).head?).any
      (fun s => lib.opensEncoder s.1) = true) :
    s.streamCtx = .live w.calls
      ⟨.live w.calls d, .live w.calls (encoderContext lib d), .live w.calls ()⟩ := by
  rw [h.streamCtx, if_pos (by rw [halloc, hfirst]; rfl)]

/-- The output failed to open, and `filter_ctx` is still what the previous call left. -/
theorem OutputLeft.failed_tidy_iff (hw : Settled w.statics) (hopens : request.opens lib = true)
    (hmalloc : lib.mallocStreamContext = true)
    (hall : ∀ s ∈ audioStreams 0 (request.input lib).streams, lib.opensDecoder s.1 = true)
    (halloc : lib.allocOutputContext = true)
    (hfirst : ((audioStreams 0 (request.input lib).streams).head?).any
      (fun s => lib.opensEncoder s.1) = true) (hneg : code < 0) :
    (Tidy w.calls request.fromPath s ↔ Cleanable c lib w request) ∧
      (Cleanable c lib w request → EndShape w.calls lib.noFile s) := by
  have hnot : ¬ OutputOpens c lib w request := fun hopen =>
    absurd (h.code.mpr ⟨halloc, hopen⟩) (not_le.mpr hneg)
  have hstale := filterTidy_of_dead w.calls hw.filterCtx
  rw [← h.filterCtx] at hstale
  refine ⟨⟨fun ht => ?_, fun hc => ?_⟩, fun hc => ⟨?_, h.pb_iff halloc hc⟩⟩
  · exact ⟨hopens, hmalloc, hall, halloc, hfirst, (h.output halloc).1.mp ht.output,
      .inl (h.filterCtx ▸ hstale.mp ht.filter), fun hopen => absurd hopen hnot⟩
  · have hnull : s.filterCtx = .null := h.filterCtx.trans (hc.stale.resolve_right hnot)
    refine ⟨?_, hstale.mpr hnull, fun _ => ?_, (h.output halloc).1.mpr hc.file⟩
    · rw [h.encoder_stream halloc hfirst]
      simp [StreamTidy]
    · rw [h.ifmtCtx]
      simp
  · rw [h.filterCtx, hc.stale.resolve_right hnot]
    trivial

theorem OutputLeft.opened_tidy_iff (hopens : request.opens lib = true)
    (hmalloc : lib.mallocStreamContext = true)
    (hall : ∀ s ∈ audioStreams 0 (request.input lib).streams, lib.opensDecoder s.1 = true)
    (halloc : lib.allocOutputContext = true)
    (hfirst : ((audioStreams 0 (request.input lib).streams).head?).any
      (fun s => lib.opensEncoder s.1) = true)
    (haudio : d.codecType = .audio) (hne : audioStreams 0 (request.input lib).streams ≠ [])
    (hcode : 0 ≤ code) :
    let s' := (initFilters lib w.calls (request.input lib).streams s.streamContext s).2
    (Tidy w.calls request.fromPath s' ↔ Cleanable c lib w request) ∧
      (Cleanable c lib w request → EndShape w.calls lib.noFile s') := by
  have hopen : OutputOpens c lib w request := (h.code.mp hcode).2
  have hstream := h.encoder_stream halloc hfirst
  obtain ⟨fc, hframe⟩ := initFilters_frame lib w.calls (request.input lib).streams
    s.streamContext s
  have hcontext : s.streamContext =
      ⟨.live w.calls d, .live w.calls (encoderContext lib d), .live w.calls ()⟩ := by
    rw [Statics.streamContext, hstream]
  obtain ⟨hfilter, hshape⟩ := initFilters_statics lib w.calls (request.input lib).streams
    s.streamContext s (by rw [hcontext]) haudio (by rw [hcontext]) hne
  rw [hframe] at hfilter hshape ⊢
  refine ⟨⟨fun ht => ?_, fun hc => ?_⟩, fun hc => ⟨hshape, h.pb_iff halloc hc⟩⟩
  · exact ⟨hopens, hmalloc, hall, halloc, hfirst, (h.output halloc).1.mp ht.output, .inr hopen,
      fun _ => hfilter.mp ht.filter⟩
  · refine ⟨?_, hfilter.mpr (hc.filterPacket hopen), fun _ => ?_, (h.output halloc).1.mpr hc.file⟩
    · rw [hstream]
      simp [StreamTidy]
    · rw [h.ifmtCtx]
      simp

end

theorem prepare_tidy_of_decoders (hw : Settled w.statics) (hopens : request.opens lib = true)
    (hmalloc : lib.mallocStreamContext = true)
    (hdecoders :
      0 ≤ (openDecoders lib w.calls 0 (request.input lib).streams StreamContext.fresh).1)
    {d : AVCodecContext} (haudio : d.codecType = .audio)
    (hsc : (openDecoders lib w.calls 0 (request.input lib).streams StreamContext.fresh).2 =
      ⟨.live w.calls d, .unset, .live w.calls ()⟩)
    (hne : audioStreams 0 (request.input lib).streams ≠ []) :
    (Tidy w.calls request.fromPath (prepare c lib w request).2.1 ↔ Cleanable c lib w request) ∧
      (Cleanable c lib w request → EndShape w.calls lib.noFile (prepare c lib w request).2.1) := by
  have hall := (openDecoders_nonneg_iff lib w.calls 0 _ _).mp hdecoders
  rw [prepare_statics c lib hopens hmalloc hdecoders hsc]
  obtain ⟨hret, hfc, hifmt, hstream, hout⟩ := openOutputFile_statics c lib request.toPath
    (request.input lib).streams
    { w.statics with
      ifmtCtx := .live w.calls ()
      streamCtx := .live w.calls ⟨.live w.calls d, .unset, .live w.calls ()⟩ } w.process rfl rfl
    haudio
  generalize openOutputFile c lib w.calls request.toPath (request.input lib).streams _ _ _ = o
    at hret hfc hifmt hstream hout ⊢
  have hleft : OutputLeft c lib w request d o.1 o.2.1 := ⟨hret, hfc, hifmt, hstream, hout⟩
  by_cases hencoder : (lib.allocOutputContext && ((audioStreams 0
      (request.input lib).streams).head?).any fun s => lib.opensEncoder s.1) = true
  · obtain ⟨halloc, hfirst⟩ := Bool.and_eq_true_iff.mp hencoder
    split_ifs with hneg
    · exact hleft.failed_tidy_iff hw hopens hmalloc hall halloc hfirst hneg
    · exact hleft.opened_tidy_iff hopens hmalloc hall halloc hfirst haudio hne (not_lt.mp hneg)
  · -- there is no encoder, and its field was never written
    rw [if_neg hencoder] at hstream
    have hnot : ¬ Cleanable c lib w request := by
      intro h
      simp [h.outputContext, h.encoder] at hencoder
    have hstream' : (if o.1 < 0 then o.2.1
        else (initFilters lib w.calls (request.input lib).streams o.2.1.streamContext
          o.2.1).2).streamCtx = .live w.calls ⟨.live w.calls d, .unset, .live w.calls ()⟩ := by
      obtain ⟨fc, hframe⟩ := initFilters_frame lib w.calls (request.input lib).streams
        o.2.1.streamContext o.2.1
      rw [hframe]
      split_ifs <;> exact hstream
    exact ⟨iff_of_false (fun h => not_streamTidy hstream' (.inr rfl) h.stream) hnot,
      fun h => absurd h hnot⟩

/-- The clean-up finds tidy pointers exactly when the call found what it needs. -/
theorem prepare_tidy_iff (hw : Settled w.statics) :
    (Tidy w.calls request.fromPath (prepare c lib w request).2.1 ↔ Cleanable c lib w request) ∧
      (Cleanable c lib w request → EndShape w.calls lib.noFile (prepare c lib w request).2.1) := by
  by_cases hin : request.opens lib = true ∧ lib.mallocStreamContext = true
  swap
  · obtain ⟨hneg, hstream⟩ := openRequested_fails lib hw hin
    have hprepare : (prepare c lib w request).2.1 = (openRequested lib w request).2 := by
      simp only [prepare, if_pos hneg]
    have hnot : ¬ Cleanable c lib w request := fun h => hin ⟨h.input, h.streamContext⟩
    rw [hprepare]
    exact ⟨iff_of_false (fun h => hstream h.stream) hnot, fun h => absurd h hnot⟩
  obtain ⟨hopens, hmalloc⟩ := hin
  have hnonneg := openDecoders_nonneg_iff lib w.calls 0 (request.input lib).streams
    StreamContext.fresh
  by_cases hdecoders :
    0 ≤ (openDecoders lib w.calls 0 (request.input lib).streams StreamContext.fresh).1
  swap
  · -- a decoder failed, and the encoder's field was never written
    have hnot : ¬ Cleanable c lib w request := fun h => hdecoders (hnonneg.mpr h.decoders)
    have hopen := openRequested_opens lib (w := w) hopens hmalloc
    have hprepare : (prepare c lib w request).2.1 = (openRequested lib w request).2 := by
      simp only [prepare, hopen, if_pos (not_le.mp hdecoders)]
    rw [hprepare, hopen]
    have hunset := openDecoders_encCtx lib w.calls 0 (request.input lib).streams
      StreamContext.fresh
    exact ⟨iff_of_false (fun h => not_streamTidy rfl (.inr hunset) h.stream) hnot,
      fun h => absurd h hnot⟩
  have hsc := openDecoders_ok hdecoders
  cases hlast : (audioStreams 0 (request.input lib).streams).getLast? with
  | none =>
    have hsilent := List.getLast?_eq_none_iff.mp hlast
    have hstream := prepare_silent c lib (w := w) hopens hmalloc hsilent
    have hnot : ¬ Cleanable c lib w request := fun h => by simpa [hsilent] using h.encoder
    exact ⟨iff_of_false (fun h => not_streamTidy hstream (.inl rfl) h.stream) hnot,
      fun h => absurd h hnot⟩
  | some last =>
    have haudio : last.2.codecpar.codecType = .audio := by
      simpa [AVStream.isAudio] using (audioStreams_ge _ (List.mem_of_getLast? hlast)).2
    have hne : audioStreams 0 (request.input lib).streams ≠ [] := by
      intro hnil
      simp [hnil] at hlast
    rw [hlast] at hsc
    exact prepare_tidy_of_decoders c lib hw hopens hmalloc hdecoders haudio hsc hne

end

abbrev Transcoding := Transition World (Libav × Request) Outcome

def transcodeStep (c : Platform) (w : World) (i : Libav × Request) : Outcome × World :=
  doTranscode c i.1 w i.2

/-- The code at `end` only uses live objects that this call created, and frees each of those it
finds, the exempt ones apart, exactly once. -/
structure CleanupSound (exempt : List Object) (t : Transcoding) : Prop where
  current : ∀ a ∈ t.output.accesses, a.current = true
  once : ∀ o ∉ exempt, t.output.atEnd.holds t.before.calls t.input.2.fromPath o = true →
    frees o t.output.accesses = 1

def TranscodingCleanable (c : Platform) (t : Transcoding) : Prop :=
  Cleanable c t.input.1 t.before t.input.2

theorem doTranscode_end (c : Platform) (lib : Libav) (w : World) (request : Request) :
    let s := (prepare c lib w request).2.1
    let r := doTranscode c lib w request
    r.1.atEnd = s ∧ r.1.accesses = cleanup w.calls request.fromPath s ∧
      r.2.statics = s.settled request.fromPath := by
  rcases doTranscode_cases c lib w request with ⟨-, hleave⟩ | ⟨selected, d, out, -, hrun⟩
  · rw [hleave]
    exact ⟨rfl, rfl, rfl⟩
  · rw [hrun]
    exact ⟨rfl, rfl, rfl⟩

theorem transcodeStep_settled (c : Platform) (w : World) (i : Libav × Request) :
    Settled (transcodeStep c w i).2.statics := by
  rw [transcodeStep, (doTranscode_end c i.1 w i.2).2.2]
  exact settled_settled _ _

section
variable (c : Platform) {w : World} (hw : Settled w.statics) (i : Libav × Request)
include hw

theorem step_sound_iff :
    CleanupSound [.pb] (transition (transcodeStep c) w i) ↔
      TranscodingCleanable c (transition (transcodeStep c) w i) := by
  obtain ⟨hend, haccesses, -⟩ := doTranscode_end c i.1 w i.2
  obtain ⟨htidy, hshape⟩ := @prepare_tidy_iff c i.1 w i.2 hw
  have hcurrent := cleanup_current_iff w.calls i.2.fromPath (prepare c i.1 w i.2).2.1
  constructor
  · intro hsafe
    obtain ⟨h, -⟩ := hsafe
    exact htidy.mp (hcurrent.mp (by rwa [← haccesses]))
  · intro h
    refine ⟨?_, fun o ho hheld => ?_⟩
    · have hall := hcurrent.mpr (htidy.mpr h)
      rwa [← haccesses] at hall
    · have hheld' : (prepare c i.1 w i.2).2.1.holds w.calls i.2.fromPath o = true := hend ▸ hheld
      have hone := frees_cleanup (hshape h).filter hheld'
      rw [← haccesses, if_neg (by simpa using ho)] at hone
      exact hone

/-- The AVIO context of a format with a file is created and never freed. -/
theorem step_sound_strict_iff :
    CleanupSound [] (transition (transcodeStep c) w i) ↔
      TranscodingCleanable c (transition (transcodeStep c) w i) ∧ i.1.noFile = true := by
  obtain ⟨hend, haccesses, -⟩ := doTranscode_end c i.1 w i.2
  have hsound := step_sound_iff c hw i
  obtain ⟨-, hshape⟩ := @prepare_tidy_iff c i.1 w i.2 hw
  constructor
  · intro hstrict
    obtain ⟨h, honce⟩ := hstrict
    have hclean := hsound.mp ⟨h, fun o _ hheld => honce o (by simp) hheld⟩
    refine ⟨hclean, ?_⟩
    by_contra hfile
    have hpb := (hshape hclean).pb.mpr (by simpa using hfile)
    have hheld : (prepare c i.1 w i.2).2.1.holds w.calls i.2.fromPath .pb = true := hpb
    have hzero := frees_cleanup (hshape hclean).filter hheld
    rw [← haccesses] at hzero
    have hone := honce .pb (by simp) (hend ▸ hheld)
    simp [transition, transcodeStep, hzero] at hone
  · intro hboth
    obtain ⟨hclean, hfile⟩ := hboth
    obtain ⟨h, honce⟩ := hsound.mpr hclean
    refine ⟨h, fun o _ hheld => honce o ?_ hheld⟩
    intro ho
    obtain rfl : o = .pb := by simpa using ho
    have hpb := (hshape hclean).pb.mp (hend ▸ hheld)
    simp [hfile] at hpb

end

/-- Over every history of calls the clean-up is sound exactly when every call finds what it needs:
for the objects with their AVIO context, where its format has no file in addition, and for those
without it. -/
theorem cleanup_sound_iff (c : Platform) (process : Process) (calls : List (Libav × Request)) :
    let history := trace (transcodeStep c) ⟨Statics.start, process, 0⟩ calls
    ((∀ t ∈ history, CleanupSound [] t) ↔
      ∀ t ∈ history, TranscodingCleanable c t ∧ t.input.1.noFile = true) ∧
    ((∀ t ∈ history, CleanupSound [.pb] t) ↔ ∀ t ∈ history, TranscodingCleanable c t) := by
  have hstart : Settled Statics.start := ⟨.inl rfl, .inl rfl, .inl rfl⟩
  constructor
  · exact trace_forall_congr (A := fun _ => True) (P := fun w => Settled w.statics)
      (fun w i _ _ => transcodeStep_settled c w i) (fun w i _ hw => step_sound_strict_iff c hw i)
      hstart calls (fun _ _ => trivial)
  · exact trace_forall_congr (A := fun _ => True) (P := fun w => Settled w.statics)
      (fun w i _ _ => transcodeStep_settled c w i) (fun w i _ hw => step_sound_iff c hw i)
      hstart calls (fun _ _ => trivial)

/-- A first call without an input reads through a null `stream_ctx`. -/
theorem cleanup_unsound_without_input :
    ¬ ∀ (c : Platform) (process : Process) (calls : List (Libav × Request)),
      ∀ t ∈ trace (transcodeStep c) ⟨Statics.start, process, 0⟩ calls, CleanupSound [] t := by
  intro h
  have hsound := h Platform.generous Process.start [(Libav.smooth, ⟨false, none, memoryName⟩)] _
    (List.mem_singleton.mpr rfl)
  exact absurd hsound.current (by decide)

end AudioFS.Transcode
