import AudioFS.Metadata

/-!
# The document that is dumped

What each node holds when the stream loop is through: every statement changes the
body of one node, so each part of the document is followed by itself. A call that
gets that far returns the document, with one entry for each stream.
-/

namespace AudioFS.Metadata
open Json Jansson

abbrev Members := SortedMap String (Item Name)

def rootMembers : Members :=
  (SortedMap.empty.insert "file" (.node .jsonFile)).insert "streams" (.node .jsonStreamsArray)

def fileMembers : Members :=
  (SortedMap.empty.insert "metadata" (.node .jsonFileMetadata)).insert "format"
    (.node .jsonFileFormat)

def streamMembers (i : ℕ) : Members :=
  (SortedMap.empty.insert "metadata" (.node (.jsonStreamsMetadata i))).insert "codec"
    (.node (.jsonStreamsCodec i))

/-- The nodes of stream `i` before anything is known about it. -/
structure Ready (h : Heap Name) (i : ℕ) : Prop where
  stream : h.body? (.jsonStreams i) = some (.object (streamMembers i))
  metadata : h.body? (.jsonStreamsMetadata i) = some (.object SortedMap.empty)
  codec : h.body? (.jsonStreamsCodec i) = some (.object SortedMap.empty)

structure SetUp (nbStreams : ℕ) (h : Heap Name) : Prop where
  root : h.body? .json = some (.object rootMembers)
  file : h.body? .jsonFile = some (.object fileMembers)
  format : h.body? .jsonFileFormat = some (.object SortedMap.empty)
  metadata : h.body? .jsonFileMetadata = some (.object SortedMap.empty)
  streams : h.body? .jsonStreamsArray =
    some (.array ((List.range nbStreams).map .jsonStreams))
  ready : ∀ i < nbStreams, Ready h i

theorem setupRoot_setUp : SetUp 0 (setupRoot allocated).heap where
  root := rfl
  file := rfl
  format := rfl
  metadata := rfl
  streams := rfl
  ready _ hi := absurd hi (Nat.not_lt_zero _)

theorem body?_setupStream {w : Work} {elements : List Name} (i : ℕ)
    (harray : w.heap.body? .jsonStreamsArray = some (.array elements)) (n : Name) :
    (setupStream w i).heap.body? n =
      if n = .jsonStreamsArray then some (.array (elements ++ [.jsonStreams i]))
      else if n = .jsonStreams i then some (.object (streamMembers i))
      else if n = .jsonStreamsMetadata i ∨ n = .jsonStreamsCodec i then
        some (.object SortedMap.empty)
      else w.heap.body? n := by
  let created := ((w.heap.jsonObject (.jsonStreams i)).jsonObject
    (.jsonStreamsMetadata i)).jsonObject (.jsonStreamsCodec i)
  let linked := created.jsonObjectSet (.jsonStreams i) "metadata" (.jsonStreamsMetadata i)
  let filled := linked.jsonObjectSet (.jsonStreams i) "codec" (.jsonStreamsCodec i)
  have hcreated : created.body? (.jsonStreams i) = some (.object SortedMap.empty) := by
    simp [created, Heap.body?_jsonObject]
  have hlinked : linked.body? = _ :=
    Heap.body?_jsonObjectSet hcreated "metadata" (fun _ => nofun) (.jsonStreamsMetadata i)
  have hmetadata : linked.body? (.jsonStreams i) = some (.object
      (SortedMap.empty.insert "metadata" (.node (.jsonStreamsMetadata i)))) := by
    simp [hlinked]
  have hfilled : filled.body? = _ :=
    Heap.body?_jsonObjectSet hmetadata "codec" (fun _ => nofun) (.jsonStreamsCodec i)
  have harray' : filled.body? .jsonStreamsArray = some (.array elements) := by
    simp [hfilled, hlinked, created, Heap.body?_jsonObject, harray]
  have hheap : (setupStream w i).heap = filled.jsonArrayAppend .jsonStreamsArray (.jsonStreams i) :=
    rfl
  rw [hheap, Heap.body?_jsonArrayAppend harray', hfilled, hlinked]
  simp only [created, Heap.body?_jsonObject, Function.update_apply, streamMembers]
  split_ifs <;> simp_all

theorem SetUp.setupStream {nbStreams : ℕ} {w : Work} (h : SetUp nbStreams w.heap) :
    SetUp (nbStreams + 1) (setupStream w nbStreams).heap := by
  have hbody := body?_setupStream nbStreams h.streams
  exact
    { root := by simpa [hbody] using h.root
      file := by simpa [hbody] using h.file
      format := by simpa [hbody] using h.format
      metadata := by simpa [hbody] using h.metadata
      streams := by simp [hbody, List.range_succ]
      ready := fun i hi => by
        rcases Nat.lt_succ_iff_lt_or_eq.mp hi with hlt | rfl
        · have hready := h.ready i hlt
          exact ⟨by simpa [hbody, hlt.ne] using hready.stream,
            by simpa [hbody, hlt.ne] using hready.metadata,
            by simpa [hbody, hlt.ne] using hready.codec⟩
        · exact ⟨by simp [hbody], by simp [hbody], by simp [hbody]⟩ }

theorem setup_setUp (nbStreams : ℕ) : SetUp nbStreams (setup allocated nbStreams).heap := by
  induction nbStreams with
  | zero => exact setupRoot_setUp
  | succ n ih =>
    have hstep := ih.setupStream
    rw [setup] at hstep ⊢
    rwa [List.range_succ, List.foldl_append, List.foldl_cons, List.foldl_nil]

/-! ## What is set on the nodes -/

theorem heap_setLeaves (n : Name) (fields : List (String × Option Value)) (w : Work) :
    (w.setLeaves n fields).heap = w.heap.setLeaves n fields := by
  induction fields generalizing w with
  | nil => rfl
  | cons field fields ih => exact ih (w.setLeaf n field)

def tagFields (tags : AVDictionary) : List (String × Option Value) := tags.filterMap tagField

theorem heap_setTags (n : Name) (tags : AVDictionary) (w : Work) :
    (w.setTags n tags).heap = w.heap.setLeaves n (tagFields tags) := by
  induction tags generalizing w with
  | nil => rfl
  | cons tag tags ih =>
    cases htag : tagField tag with
    | none => simpa [Work.setTags, tagFields, htag, Work.on] using ih (w.on [n] id)
    | some field =>
      simpa [Work.setTags, tagFields, htag, Work.on, Work.setLeaf, Heap.setLeaves] using
        ih (w.setLeaf n field)

def chromaprintFields (made : Transcoded) : List (String × Option Value) :=
  match made with
  | .null => []
  | .handle text => [("chromaprint", jsonString (some (Process.cString text)))]

/-- What stream `i` has set on its three nodes. -/
def streamLeaves (doTranscode : ℕ → Transcoded) (i : ℕ) (s : AVStream) :
    List (String × Option Value) :=
  match s.codecpar with
  | none => []
  | some _ => (if s.isAudio then chromaprintFields (doTranscode i) else []) ++ streamFields s

def codecLeaves (names : LibavNames) (s : AVStream) : List (String × Option Value) :=
  match s.codecpar with
  | none => []
  | some par => codecFields names par

def tagLeaves (s : AVStream) : List (String × Option Value) :=
  match s.codecpar with
  | none => []
  | some _ => tagFields s.metadata

theorem heap_describeOne (names : LibavNames) (doTranscode : ℕ → Transcoded) (i : ℕ)
    (s : AVStream) (w : Work) :
    (describeOne names doTranscode i s w).heap =
      ((w.heap.setLeaves (.jsonStreams i) (streamLeaves doTranscode i s)).setLeaves
        (.jsonStreamsCodec i) (codecLeaves names s)).setLeaves (.jsonStreamsMetadata i)
          (tagLeaves s) := by
  cases hpar : s.codecpar with
  | none => simp [describeOne, streamLeaves, codecLeaves, tagLeaves, hpar, Heap.setLeaves]
  | some par =>
    by_cases haudio : par.codecType = .audio
    · have hstream : s.isAudio = true := by simp [AVStream.isAudio, hpar, haudio]
      cases hmade : doTranscode i with
      | null =>
        simp [describeOne, describeStream, streamLeaves, codecLeaves, tagLeaves, hpar, haudio,
          hstream, hmade, heap_setTags, heap_setLeaves, chromaprintFields]
      | handle text =>
        simp [describeOne, describeStream, streamLeaves, codecLeaves, tagLeaves, hpar, haudio,
          hstream, hmade, heap_setTags, heap_setLeaves, chromaprintFields, setChromaprint,
          Heap.setLeaves, Work.setLeaf, Work.on]
    · have hstream : s.isAudio = false := by simp [AVStream.isAudio, hpar, haudio]
      simp [describeOne, describeStream, streamLeaves, codecLeaves, tagLeaves, hpar, haudio,
        hstream, heap_setTags, heap_setLeaves]

/-- What the three nodes of stream `i` hold in the end. -/
structure Described (names : LibavNames) (doTranscode : ℕ → Transcoded) (h : Heap Name) (i : ℕ)
    (s : AVStream) : Prop where
  stream : h.body? (.jsonStreams i) =
    some (.object ((streamMembers i).insertAll (Heap.leaves (streamLeaves doTranscode i s))))
  metadata : h.body? (.jsonStreamsMetadata i) =
    some (.object (SortedMap.empty.insertAll (Heap.leaves (tagLeaves s))))
  codec : h.body? (.jsonStreamsCodec i) =
    some (.object (SortedMap.empty.insertAll (Heap.leaves (codecLeaves names s))))

theorem streamLeaves_keys {doTranscode : ℕ → Transcoded} {i : ℕ} {s : AVStream}
    {f : String × Option Value} (hf : f ∈ streamLeaves doTranscode i s) :
    f.1 ≠ "metadata" ∧ f.1 ≠ "codec" := by
  unfold streamLeaves at hf
  cases hpar : s.codecpar with
  | none => simp [hpar] at hf
  | some par =>
    simp only [hpar, List.mem_append] at hf
    rcases hf with hf | hf
    · split_ifs at hf
      · cases hmade : doTranscode i with
        | null => simp [hmade, chromaprintFields] at hf
        | handle text =>
          simp only [hmade, chromaprintFields, List.mem_singleton] at hf
          simp [hf]
      · simp at hf
    · simp only [streamFields, List.mem_cons, List.not_mem_nil, or_false] at hf
      rcases hf with rfl | rfl | rfl | rfl | rfl <;> simp

theorem streamMembers_get? (i : ℕ) {key : String} (h : key ≠ "metadata" ∧ key ≠ "codec") :
    (streamMembers i).get? key = none := by
  rw [streamMembers, SortedMap.get?_insert, if_neg h.2, SortedMap.get?_insert, if_neg h.1]
  rfl

theorem empty_get? (key : String) (c : Name) :
    (SortedMap.empty : Members).get? key ≠ some (.node c) := nofun

theorem describeOne_described (names : LibavNames) (doTranscode : ℕ → Transcoded) {i : ℕ}
    {w : Work} (hready : Ready w.heap i) (s : AVStream) :
    Described names doTranscode (describeOne names doTranscode i s w).heap i s ∧
      ∀ n, n.index ≠ some i →
        (describeOne names doTranscode i s w).heap.body? n = w.heap.body? n := by
  have hstream := Heap.body?_setLeaves hready.stream
    (fun f (hf : f ∈ streamLeaves doTranscode i s) c => by
      rw [streamMembers_get? i (streamLeaves_keys hf)]
      simp)
  have hcodec' : (w.heap.setLeaves (.jsonStreams i) (streamLeaves doTranscode i s)).body?
      (.jsonStreamsCodec i) = some (.object SortedMap.empty) := by
    simp [hstream, hready.codec]
  have hcodec := Heap.body?_setLeaves hcodec'
    (fun f (_ : f ∈ codecLeaves names s) c => empty_get? f.1 c)
  have htags' : ((w.heap.setLeaves (.jsonStreams i) (streamLeaves doTranscode i s)).setLeaves
      (.jsonStreamsCodec i) (codecLeaves names s)).body? (.jsonStreamsMetadata i) =
        some (.object SortedMap.empty) := by
    simp [hcodec, hstream, hready.metadata]
  have htags := Heap.body?_setLeaves htags'
    (fun f (_ : f ∈ tagLeaves s) c => empty_get? f.1 c)
  rw [heap_describeOne]
  refine ⟨⟨?_, ?_, ?_⟩, fun n hn => ?_⟩
  · simp [htags, hcodec, hstream]
  · simp [htags]
  · simp [htags, hcodec]
  · have hs : n ≠ .jsonStreams i := fun h => hn (h ▸ rfl)
    have hc : n ≠ .jsonStreamsCodec i := fun h => hn (h ▸ rfl)
    have hm : n ≠ .jsonStreamsMetadata i := fun h => hn (h ▸ rfl)
    simp [htags, hcodec, hstream, hs, hc, hm]

theorem Ready.congr {h h' : Heap Name} {i : ℕ} (hready : Ready h i)
    (hsame : ∀ n, n.index = some i → h'.body? n = h.body? n) : Ready h' i where
  stream := (hsame _ rfl).trans hready.stream
  metadata := (hsame _ rfl).trans hready.metadata
  codec := (hsame _ rfl).trans hready.codec

theorem Described.congr {names : LibavNames} {doTranscode : ℕ → Transcoded} {h h' : Heap Name}
    {i : ℕ} {s : AVStream} (hdescribed : Described names doTranscode h i s)
    (hsame : ∀ n, n.index = some i → h'.body? n = h.body? n) :
    Described names doTranscode h' i s where
  stream := (hsame _ rfl).trans hdescribed.stream
  metadata := (hsame _ rfl).trans hdescribed.metadata
  codec := (hsame _ rfl).trans hdescribed.codec

theorem describeAll_described (names : LibavNames) (doTranscode : ℕ → Transcoded) {i : ℕ}
    {streams : List AVStream} {w : Work}
    (hready : ∀ k < streams.length, Ready w.heap (i + k)) :
    (∀ (k : ℕ) (hk : k < streams.length), Described names doTranscode
      (describeAll names doTranscode i streams w).heap (i + k) streams[k]) ∧
      ∀ n, (∀ k < streams.length, n.index ≠ some (i + k)) →
        (describeAll names doTranscode i streams w).heap.body? n = w.heap.body? n := by
  induction streams generalizing i w with
  | nil => exact ⟨fun k hk => absurd hk (Nat.not_lt_zero k), fun n _ => rfl⟩
  | cons s streams ih =>
    have hfirst : Ready w.heap i := hready 0 (by simp)
    obtain ⟨hdescribed, hsame⟩ := describeOne_described names doTranscode hfirst s
    have hnext : ∀ k < streams.length,
        Ready (describeOne names doTranscode i s w).heap (i + 1 + k) := fun k hk => by
      have hbefore := hready (k + 1) (by simpa using hk)
      rw [← Nat.add_assoc, Nat.add_right_comm] at hbefore
      exact hbefore.congr fun n hn => hsame n (by simp only [hn, ne_eq, Option.some.injEq]; omega)
    obtain ⟨hrest, hframe⟩ := ih hnext
    refine ⟨fun k hk => ?_, fun n hn => ?_⟩
    · cases k with
      | zero =>
        refine hdescribed.congr fun n hn => hframe n fun k _ => ?_
        simp only [hn, ne_eq, Option.some.injEq]
        omega
      | succ k =>
        have hlater := hrest k (by simpa using hk)
        rwa [Nat.add_right_comm] at hlater
    · have hlater : ∀ k < streams.length, n.index ≠ some (i + 1 + k) := fun k hk => by
        have hne := hn (k + 1) (by simpa using hk)
        rwa [← Nat.add_assoc, Nat.add_right_comm] at hne
      exact (hframe n hlater).trans (hsame n (hn 0 (by simp)))

/-! ## The file -/

/-- What the three nodes of the file hold in the end. -/
structure FileDescribed (h : Heap Name) (ctx : AVFormatContext) : Prop where
  file : h.body? .jsonFile =
    some (.object (fileMembers.insertAll (Heap.leaves (fileFields ctx))))
  format : h.body? .jsonFileFormat =
    some (.object (SortedMap.empty.insertAll (Heap.leaves (formatFields ctx.iformat))))
  metadata : h.body? .jsonFileMetadata =
    some (.object (SortedMap.empty.insertAll (Heap.leaves (tagFields ctx.metadata))))

theorem fileMembers_get? {ctx : AVFormatContext} {f : String × Option Value}
    (hf : f ∈ fileFields ctx) (c : Name) : fileMembers.get? f.1 ≠ some (.node c) := by
  have hkey : f.1 ≠ "metadata" ∧ f.1 ≠ "format" := by
    simp only [fileFields, List.mem_cons, List.not_mem_nil, or_false] at hf
    rcases hf with rfl | rfl | rfl <;> simp
  rw [fileMembers, SortedMap.get?_insert, if_neg hkey.2, SortedMap.get?_insert, if_neg hkey.1]
  nofun

theorem describeFile_described {nbStreams : ℕ} {w : Work} (h : SetUp nbStreams w.heap)
    (ctx : AVFormatContext) :
    FileDescribed (describeFile ctx w).heap ctx ∧
      ∀ n, n ≠ .jsonFile → n ≠ .jsonFileFormat → n ≠ .jsonFileMetadata →
        (describeFile ctx w).heap.body? n = w.heap.body? n := by
  have hformat := Heap.body?_setLeaves h.format
    (fun f (_ : f ∈ formatFields ctx.iformat) c => empty_get? f.1 c)
  have hfile' : (w.heap.setLeaves .jsonFileFormat (formatFields ctx.iformat)).body? .jsonFile =
      some (.object fileMembers) := by
    simp [hformat, h.file]
  have hfile := Heap.body?_setLeaves hfile'
    (fun f (hf : f ∈ fileFields ctx) c => fileMembers_get? hf c)
  have htags' : ((w.heap.setLeaves .jsonFileFormat (formatFields ctx.iformat)).setLeaves .jsonFile
      (fileFields ctx)).body? .jsonFileMetadata = some (.object SortedMap.empty) := by
    simp [hfile, hformat, h.metadata]
  have htags := Heap.body?_setLeaves htags'
    (fun f (_ : f ∈ tagFields ctx.metadata) c => empty_get? f.1 c)
  rw [describeFile, heap_setTags, heap_setLeaves, heap_setLeaves]
  refine ⟨⟨?_, ?_, ?_⟩, fun n hf hm ht => ?_⟩
  · simp [htags, hfile]
  · simp [htags, hfile, hformat]
  · simp [htags]
  · simp [htags, hfile, hformat, hf, hm, ht]

/-! ## The value of the document -/

def streamEntry (names : LibavNames) (doTranscode : ℕ → Transcoded) (i : ℕ) (s : AVStream) :
    List (String × Value) :=
  (((SortedMap.empty.insert "metadata" (leavesValue (tagLeaves s))).insert "codec"
    (leavesValue (codecLeaves names s))).insertAll (present (streamLeaves doTranscode i s))).entries

def fileEntry (ctx : AVFormatContext) : List (String × Value) :=
  (((SortedMap.empty.insert "metadata" (leavesValue (tagFields ctx.metadata))).insert "format"
    (leavesValue (formatFields ctx.iformat))).insertAll (present (fileFields ctx))).entries

def document (names : LibavNames) (doTranscode : ℕ → Transcoded) (ctx : AVFormatContext) :
    List (String × Value) :=
  ((SortedMap.empty.insert "file" (.object (fileEntry ctx))).insert "streams"
    (.array (ctx.streams.mapIdx fun i s => .object (streamEntry names doTranscode i s)))).entries

theorem Described.value {names : LibavNames} {doTranscode : ℕ → Transcoded} {h : Heap Name}
    {i : ℕ} {s : AVStream} (hdescribed : Described names doTranscode h i s) (fuel : ℕ) :
    h.valueWith (fuel + 2) (.jsonStreams i) = some (.object (streamEntry names doTranscode i s)) :=
  Heap.valueWith_parts (by simp) hdescribed.stream
    (Heap.valueWith_leaves hdescribed.metadata fuel) (Heap.valueWith_leaves hdescribed.codec fuel)

theorem FileDescribed.value {h : Heap Name} {ctx : AVFormatContext}
    (hdescribed : FileDescribed h ctx) (fuel : ℕ) :
    h.valueWith (fuel + 2) .jsonFile = some (.object (fileEntry ctx)) :=
  Heap.valueWith_parts (by simp) hdescribed.file
    (Heap.valueWith_leaves hdescribed.metadata fuel) (Heap.valueWith_leaves hdescribed.format fuel)

theorem mapM_range_eq_mapIdx {α β : Type} {f : ℕ → Option β} {g : ℕ → α → β} {as : List α}
    (h : ∀ (i : ℕ) (hi : i < as.length), f i = some (g i as[i])) :
    (List.range as.length).mapM f = some (as.mapIdx g) := by
  induction as using List.reverseRecOn with
  | nil => rfl
  | append_singleton as a ih =>
    have hbefore := ih fun i hi => by
      have hf := h i (by simp; omega)
      rwa [List.getElem_append_left hi] at hf
    have hlast : f as.length = some (g as.length a) := by
      simpa using h as.length (by simp)
    rw [List.length_append, List.length_singleton, List.range_succ, List.mapM_append, hbefore,
      List.mapM_cons, hlast, List.mapIdx_concat]
    rfl

/-- The nodes as they are when the stream loop is through. -/
structure Complete (names : LibavNames) (doTranscode : ℕ → Transcoded) (ctx : AVFormatContext)
    (h : Heap Name) : Prop where
  root : h.body? .json = some (.object rootMembers)
  file : FileDescribed h ctx
  streams : h.body? .jsonStreamsArray =
    some (.array ((List.range ctx.streams.length).map .jsonStreams))
  stream : ∀ (i : ℕ) (hi : i < ctx.streams.length), Described names doTranscode h i ctx.streams[i]

theorem described_complete (names : LibavNames) (doTranscode : ℕ → Transcoded)
    (ctx : AVFormatContext) :
    Complete names doTranscode ctx (describeAll names doTranscode 0 ctx.streams
      (describeFile ctx (setup allocated ctx.streams.length))).heap := by
  have hsetup := setup_setUp ctx.streams.length
  obtain ⟨hfile, hother⟩ := describeFile_described hsetup ctx
  have hready : ∀ k < ctx.streams.length,
      Ready (describeFile ctx (setup allocated ctx.streams.length)).heap (0 + k) := fun k hk => by
    rw [Nat.zero_add]
    refine (hsetup.ready k hk).congr fun n hn => hother n ?_ ?_ ?_ <;>
    · rintro rfl
      simp [Name.index] at hn
  obtain ⟨hstreams, hsame⟩ := describeAll_described names doTranscode hready
  have hfixed {n : Name} (hn : n.index = none) := hsame n fun k _ => by simp [hn]
  exact
    { root := by rw [hfixed rfl, hother _ (by simp) (by simp) (by simp), hsetup.root]
      file := ⟨by rw [hfixed rfl, hfile.file], by rw [hfixed rfl, hfile.format],
        by rw [hfixed rfl, hfile.metadata]⟩
      streams := by rw [hfixed rfl, hother _ (by simp) (by simp) (by simp), hsetup.streams]
      stream := fun i hi => by simpa using hstreams i hi }

theorem Complete.three_le_card {names : LibavNames} {doTranscode : ℕ → Transcoded}
    {ctx : AVFormatContext} {h : Heap Name} (hc : Complete names doTranscode ctx h) :
    3 ≤ h.created.card := by
  have hcreated {n : Name} {b : Body Name} (hn : h.body? n = some b) : n ∈ h.created :=
    h.known n fun hnone => by simp [Heap.body?, hnone] at hn
  have hsubset : ({.json, .jsonFile, .jsonStreamsArray} : Finset Name) ⊆ h.created := by
    intro n hn
    simp only [Finset.mem_insert, Finset.mem_singleton] at hn
    rcases hn with rfl | rfl | rfl
    · exact hcreated hc.root
    · exact hcreated hc.file.file
    · exact hcreated hc.streams
  exact Finset.card_le_card hsubset

theorem Complete.value {names : LibavNames} {doTranscode : ℕ → Transcoded}
    {ctx : AVFormatContext} {h : Heap Name} (hc : Complete names doTranscode ctx h) :
    h.value .json = some (.object (document names doTranscode ctx)) := by
  obtain ⟨fuel, hfuel⟩ := Nat.exists_eq_add_of_le' hc.three_le_card
  have hstreams : ((List.range ctx.streams.length).map Name.jsonStreams).mapM
      (h.valueWith (fuel + 2)) =
        some (ctx.streams.mapIdx fun i s => .object (streamEntry names doTranscode i s)) := by
    rw [List.mapM_map]
    exact mapM_range_eq_mapIdx fun i hi => (hc.stream i hi).value fuel
  rw [Heap.value, hfuel]
  have hroot : h.body? .json = some (.object (rootMembers.insertAll (Heap.leaves []))) := hc.root
  exact Heap.valueWith_parts (by simp) hroot (hc.file.value (fuel + 1))
    (Heap.valueWith_array hc.streams hstreams)

def returnedText (names : LibavNames) (doTranscode : ℕ → Transcoded) (ctx : AVFormatContext) :
    List UInt8 :=
  Utf8.encode (print janssonEscape (.object (document names doTranscode ctx)))

/-- What a call returns is decided by the first audio stream without a fingerprint. -/
theorem returned_eq (names : LibavNames) (doTranscode : ℕ → Transcoded) (ctx : AVFormatContext) :
    (getMetadateFromFile names (.opened ctx) doTranscode).returned =
      match firstFailure doTranscode 0 ctx.streams with
      | none => some (.heap (returnedText names doTranscode ctx))
      | some .null => none
      | some (.handle _) => some .emptyLiteral := by
  rw [returned_of_opened, jsonDumps, (described_complete names doTranscode ctx).value]
  rfl

end AudioFS.Metadata
