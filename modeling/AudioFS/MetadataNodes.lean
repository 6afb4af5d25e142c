import AudioFS.Metadata

/-!
# The nodes of the metadata document

The tables of nodes are allocated before the file is opened, when there are no
streams yet, and the array of streams keeps the reference it was created with.
Both follow from what each statement does, along one walk through the function.
-/

namespace AudioFS.Metadata
open Json Jansson

/-- The name is no element of a table, or one of the first `nbStreams`. -/
def Name.Below (nbStreams : ℕ) (n : Name) : Prop := ∀ i, n.index = some i → i < nbStreams

theorem Name.Below.of_none {nbStreams : ℕ} {n : Name} (h : n.index = none) : n.Below nbStreams := by
  intro i hi
  rw [h] at hi
  cases hi

theorem Name.Below.of_some {nbStreams i : ℕ} {n : Name} (h : n.index = some i)
    (hi : i < nbStreams) : n.Below nbStreams := by
  intro j hj
  rw [h, Option.some.injEq] at hj
  rwa [← hj]

/-- What a property of the work so far has to survive to hold to the end of a call on a file with
`nbStreams` streams. The array of streams is neither given away nor dropped by any statement. -/
structure Closed (nbStreams : ℕ) (P : Work → Prop) : Prop where
  create : ∀ w n, n.Below nbStreams → n ≠ .jsonStreamsArray → P w → P (w.jsonObject n)
  give : ∀ w n key c, n.Below nbStreams → c.Below nbStreams → c ≠ .jsonStreamsArray → P w →
    P (w.jsonObjectSetNew n key c)
  share : ∀ w n key c, n.Below nbStreams → c.Below nbStreams → P w → P (w.jsonObjectSet n key c)
  append : ∀ w n c, n.Below nbStreams → c.Below nbStreams → P w → P (w.jsonArrayAppend n c)
  leaf : ∀ w n field, n.Below nbStreams → P w → P (w.setLeaf n field)
  refuse : ∀ w n, n.Below nbStreams → P w → P (w.on [n] id)
  decref : ∀ w n, n.Below nbStreams → n ≠ .jsonStreamsArray → P w → P (w.jsonDecref n)

namespace Closed
variable {nbStreams : ℕ} {P : Work → Prop}

theorem setLeaves (h : Closed nbStreams P) {w : Work} (hw : P w) {n : Name}
    (hn : n.Below nbStreams) (fields : List (String × Option Value)) : P (w.setLeaves n fields) :=
  List.foldlRecOn fields _ hw fun w hw field _ => h.leaf w n field hn hw

theorem setTags (h : Closed nbStreams P) {w : Work} (hw : P w) {n : Name} (hn : n.Below nbStreams)
    (tags : AVDictionary) : P (w.setTags n tags) := by
  refine List.foldlRecOn tags _ hw fun w hw tag _ => ?_
  cases tagField tag with
  | none => exact h.refuse w n hn hw
  | some field => exact h.leaf w n field hn hw

theorem setupStream (h : Closed nbStreams P) {w : Work} (hw : P w) {i : ℕ} (hi : i < nbStreams) :
    P (setupStream w i) := by
  have hstream : (Name.jsonStreams i).Below nbStreams := .of_some rfl hi
  have hmetadata : (Name.jsonStreamsMetadata i).Below nbStreams := .of_some rfl hi
  have hcodec : (Name.jsonStreamsCodec i).Below nbStreams := .of_some rfl hi
  have hcreated : P (w.jsonObject (.jsonStreams i) |>.jsonObject (.jsonStreamsMetadata i)
      |>.jsonObject (.jsonStreamsCodec i)) :=
    h.create _ _ hcodec (by simp)
      (h.create _ _ hmetadata (by simp) (h.create _ _ hstream (by simp) hw))
  have hshared := h.share _ (.jsonStreams i) "codec" (.jsonStreamsCodec i) hstream hcodec
    (h.share _ (.jsonStreams i) "metadata" (.jsonStreamsMetadata i) hstream hmetadata hcreated)
  exact h.append _ _ _ (.of_none rfl) hstream hshared

theorem setupRoot (h : Closed nbStreams P) {w : Work} (hw : P w) : P (setupRoot w) := by
  have hfile : P (w.jsonObjectSetNew .json "file" .jsonFile) :=
    h.give _ _ _ _ (.of_none rfl) (.of_none rfl) (by simp) hw
  have hmetadata := h.give _ .jsonFile "metadata" .jsonFileMetadata (.of_none rfl)
    (.of_none rfl) (by simp) hfile
  have hparts := h.give _ .jsonFile "format" .jsonFileFormat (.of_none rfl)
    (.of_none rfl) (by simp) hmetadata
  exact h.share _ _ _ _ (.of_none rfl) (.of_none rfl) hparts

theorem setup (h : Closed nbStreams P) {w : Work} (hw : P w) : P (setup w nbStreams) :=
  List.foldlRecOn (List.range nbStreams) _ (h.setupRoot hw)
    fun _ hw _ hi => h.setupStream hw (List.mem_range.mp hi)

theorem describeFile (h : Closed nbStreams P) {w : Work} (hw : P w) (ctx : AVFormatContext) :
    P (describeFile ctx w) :=
  h.setTags (h.setLeaves (h.setLeaves hw (.of_none rfl) _) (.of_none rfl) _)
    (.of_none rfl) _

theorem describeStream (h : Closed nbStreams P) {w : Work} (hw : P w) (names : LibavNames) {i : ℕ}
    (hi : i < nbStreams) (stream : AVStream) (par : AVCodecParameters) :
    P (describeStream names i stream par w) :=
  h.setTags (h.setLeaves (h.setLeaves hw (.of_some rfl hi) _) (.of_some rfl hi) _)
    (.of_some rfl hi) _

theorem walkStreams (h : Closed nbStreams P) (names : LibavNames) (doTranscode : ℕ → Transcoded)
    (i : ℕ) (streams : List AVStream) (hi : i + streams.length ≤ nbStreams) {w : Work}
    (hw : P w) : P (walkStreams names doTranscode i streams w).work := by
  induction streams generalizing i w with
  | nil => exact hw
  | cons stream streams ih =>
    rw [List.length_cons] at hi
    have hlt : i < nbStreams := by omega
    have hnext : i + 1 + streams.length ≤ nbStreams := by omega
    rw [Metadata.walkStreams]
    cases stream.codecpar with
    | none => exact ih (i + 1) hnext hw
    | some par =>
      simp only
      split_ifs
      · cases doTranscode i with
        | null => exact hw
        | handle text =>
          cases text with
          | nil => exact hw
          | cons b text =>
            exact ih (i + 1) hnext
              (h.describeStream (h.leaf _ _ _ (.of_some rfl hlt) hw) names hlt stream par)
      · exact ih (i + 1) hnext (h.describeStream hw names hlt stream par)

theorem release (h : Closed nbStreams P) {w : Work} (hw : P w) : P (release nbStreams w) := by
  have hstreams : P ((List.range nbStreams).foldl releaseStream w) := by
    refine List.foldlRecOn _ _ hw fun w hw i hi => ?_
    have hlt := List.mem_range.mp hi
    have hstream := h.decref w (.jsonStreams i) (.of_some rfl hlt) (by simp) hw
    have hmetadata := h.decref _ (.jsonStreamsMetadata i) (.of_some rfl hlt) (by simp) hstream
    exact h.decref _ _ (.of_some rfl hlt) (by simp) hmetadata
  have hmetadata := h.decref _ .jsonFileMetadata (.of_none rfl) (by simp) hstreams
  have hformat := h.decref _ .jsonFileFormat (.of_none rfl) (by simp) hmetadata
  have hfile := h.decref _ .jsonFile (.of_none rfl) (by simp) hformat
  exact h.decref _ .json (.of_none rfl) (by simp) hfile

/-- From the end of the setup loop to the end of the call. -/
theorem afterSetup {names : LibavNames} {doTranscode : ℕ → Transcoded} {ctx : AVFormatContext}
    (h : Closed ctx.streams.length P) (hw : P (Metadata.setup allocated ctx.streams.length)) :
    P (getMetadateFromFile names (.opened ctx) doTranscode).work := by
  have hwalk := h.walkStreams names doTranscode 0 ctx.streams (by omega) (h.describeFile hw ctx)
  cases hend : Metadata.walkStreams names doTranscode 0 ctx.streams
      (Metadata.describeFile ctx (Metadata.setup allocated ctx.streams.length)) with
  | crashed w =>
    rw [hend] at hwalk
    simpa only [getMetadateFromFile, hend, Walk.work] using hwalk
  | abandoned w =>
    rw [hend] at hwalk
    simpa only [getMetadateFromFile, hend, Walk.work] using hwalk
  | done w =>
    rw [hend] at hwalk
    simpa only [getMetadateFromFile, hend, Walk.work] using h.release hwalk

theorem call (hw : P allocated) (names : LibavNames) (opening : Opening)
    (h : Closed opening.streams.length P) (doTranscode : ℕ → Transcoded) :
    P (getMetadateFromFile names opening doTranscode).work := by
  cases opening with
  | openFailed => exact hw
  | noStreamInfo => exact hw
  | opened ctx => exact h.afterSetup (h.setup hw)

end Closed

/-! ## The tables -/

/-- Every index used on a table of nodes is below the number of its elements. -/
def TablesBigEnough (c : Call) : Prop := ∀ i ∈ c.work.indices, i < c.tableSize

theorem tableSize_eq (names : LibavNames) (opening : Opening) (doTranscode : ℕ → Transcoded) :
    (getMetadateFromFile names opening doTranscode).tableSize = 0 := by
  cases opening with
  | openFailed => rfl
  | noStreamInfo => rfl
  | opened ctx =>
    simp only [getMetadateFromFile]
    cases walkStreams names doTranscode 0 ctx.streams
      (describeFile ctx (setup allocated ctx.streams.length)) <;> rfl

theorem closed_uses (nbStreams i : ℕ) : Closed nbStreams fun w => i ∈ w.indices where
  create _ _ _ _ hw := List.mem_append_left _ hw
  give _ _ _ _ _ _ _ hw := List.mem_append_left _ hw
  share _ _ _ _ _ _ hw := List.mem_append_left _ hw
  append _ _ _ _ _ hw := List.mem_append_left _ hw
  leaf _ _ _ _ hw := List.mem_append_left _ hw
  refuse _ _ _ hw := List.mem_append_left _ hw
  decref _ _ _ _ hw := List.mem_append_left _ hw

theorem setup_uses {nbStreams i : ℕ} (h : i < nbStreams) (w : Work) :
    i ∈ (setup w nbStreams).indices := by
  have hfold (is : List ℕ) (his : i ∈ is) (w : Work) : i ∈ (is.foldl setupStream w).indices := by
    induction is generalizing w with
    | nil => exact absurd his List.not_mem_nil
    | cons j is ih =>
      by_cases hmem : i ∈ is
      · exact ih hmem _
      · -- the entry is the one of this round, and no later statement takes it back
        obtain rfl : i = j := (List.mem_cons.mp his).resolve_right hmem
        have hfirst : i ∈ (setupStream w i).indices := by
          simp [setupStream, Work.jsonObject, Work.jsonObjectSet, Work.jsonArrayAppend, Work.on,
            Name.index]
        refine List.foldlRecOn (motive := fun w : Work => i ∈ w.indices) is _ hfirst
          fun w hw k _ => ?_
        exact (closed_uses (k + 1) i).setupStream hw (Nat.lt_succ_self k)
  exact hfold _ (List.mem_range.mpr h) _

theorem on_below {nbStreams : ℕ} {w : Work} {names : List Name} (f : Heap Name → Heap Name)
    (hn : ∀ n ∈ names, n.Below nbStreams) (hw : ∀ i ∈ w.indices, i < nbStreams) :
    ∀ i ∈ (w.on names f).indices, i < nbStreams := by
  intro i hi
  rcases List.mem_append.mp hi with hi | hi
  · exact hw i hi
  · obtain ⟨n, hmem, hindex⟩ := List.mem_filterMap.mp hi
    exact hn n hmem i hindex

theorem closed_below (nbStreams : ℕ) :
    Closed nbStreams fun w => ∀ i ∈ w.indices, i < nbStreams where
  create _ _ hn _ hw := on_below _ (by simpa using hn) hw
  give _ _ _ _ hn hc _ hw := on_below _ (by simpa using ⟨hn, hc⟩) hw
  share _ _ _ _ hn hc hw := on_below _ (by simpa using ⟨hn, hc⟩) hw
  append _ _ _ hn hc hw := on_below _ (by simpa using ⟨hn, hc⟩) hw
  leaf _ _ _ hn hw := on_below _ (by simpa using hn) hw
  refuse _ _ hn hw := on_below _ (by simpa using hn) hw
  decref _ _ hn _ hw := on_below _ (by simpa using hn) hw

/-- A call uses the entries of its streams and no others. -/
theorem mem_indices_iff (names : LibavNames) (opening : Opening) (doTranscode : ℕ → Transcoded)
    (i : ℕ) :
    i ∈ (getMetadateFromFile names opening doTranscode).work.indices ↔
      i < opening.streams.length := by
  have hnone : allocated.indices = [] := rfl
  constructor
  · have hbelow := (closed_below opening.streams.length).call (by simp [hnone]) names opening
      doTranscode
    exact hbelow i
  · intro hi
    cases opening with
    | openFailed => exact absurd hi (Nat.not_lt_zero i)
    | noStreamInfo => exact absurd hi (Nat.not_lt_zero i)
    | opened ctx => exact (closed_uses ctx.streams.length i).afterSetup (setup_uses hi allocated)

/-- The caller is given what the call returns as long as the heap tolerates its streams. -/
theorem outcome_eq (names : LibavNames) (opening : Opening) (doTranscode : ℕ → Transcoded)
    (room : ℕ) :
    (getMetadateFromFile names opening doTranscode).outcome room =
      if opening.streams.length ≤ room then
        (getMetadateFromFile names opening doTranscode).returned
      else none := by
  have hfits : (∀ i ∈ (getMetadateFromFile names opening doTranscode).work.indices,
      i < (getMetadateFromFile names opening doTranscode).tableSize + room) ↔
      opening.streams.length ≤ room := by
    simp only [mem_indices_iff, tableSize_eq, Nat.zero_add]
    constructor
    · intro h
      by_contra hlong
      exact lt_irrefl room (h room (not_le.mp hlong))
    · intro h i hi
      omega
  rw [Call.outcome]
  exact if_congr hfits rfl rfl

/-- The tables are big enough exactly for files that cannot be read and for files without
streams. -/
theorem tablesBigEnough_iff (names : LibavNames) (opening : Opening)
    (doTranscode : ℕ → Transcoded) :
    TablesBigEnough (getMetadateFromFile names opening doTranscode) ↔ opening.streams = [] := by
  simp only [TablesBigEnough, tableSize_eq, mem_indices_iff]
  rw [← List.length_eq_zero_iff]
  constructor
  · intro h
    by_contra hne
    exact absurd (h 0 (Nat.pos_of_ne_zero hne)) (Nat.lt_irrefl 0)
  · intro h i hi
    omega

def silent : AVFormatContext where
  iformat := ⟨none, none, none, 0⟩
  startTime := 0
  duration := 0
  bitRate := 0
  metadata := []
  streams := [⟨0, 0, 0, ⟨1, 25⟩, [],
    some ⟨.video, 0, 0, 0, 0, 0, 0, 0, 0, 0, 0, 0, 0, ⟨0, 0, 0⟩⟩⟩]

/-- The node of the only stream is kept behind a table without elements. -/
theorem first_stream_past_the_table :
    ¬ TablesBigEnough (getMetadateFromFile namelessLibav (.opened silent) fun _ => .null) := by
  intro h
  have huses := (mem_indices_iff namelessLibav (.opened silent) (fun _ => .null) 0).mpr (by decide)
  exact absurd (h 0 huses) (Nat.lt_irrefl 0)

/-! ## The references -/

/-- At every exit no node was used after it was destroyed, and all nodes are destroyed. -/
def Balanced (c : Call) : Prop :=
  c.returned ≠ none →
    c.work.heap.misuses = 0 ∧ ∀ n ∈ c.work.heap.created, c.work.heap.node n = none

theorem closed_retained (nbStreams : ℕ) :
    Closed nbStreams fun w => w.heap.Retained .jsonStreamsArray 0 where
  create _ _ _ hn hw := hw.jsonObject hn
  give _ _ _ _ _ _ hc hw := Heap.Retained.jsonObjectSetNew (by simpa [Item.nodes, hc] using hw)
  share _ n key c _ _ hw := hw.jsonObjectSet n key c
  append _ n c _ _ hw := hw.jsonArrayAppend n c
  leaf _ n field _ hw := hw.setLeaf n field
  refuse _ _ _ hw := hw
  decref _ _ _ hn hw := Heap.Retained.jsonDecref (by simpa [hn] using hw)

theorem allocated_retained : allocated.heap.Retained .jsonStreamsArray 0 := by
  refine Heap.retained_jsonArray (Nat.le_zero.mp ?_)
  calc
    _ ≤ (((Heap.empty.jsonObject Name.json).jsonObject .jsonFile).jsonObject .jsonFileFormat).held
        .jsonStreamsArray := Heap.held_jsonObject_le _ _ _
    _ ≤ ((Heap.empty.jsonObject Name.json).jsonObject .jsonFile).held .jsonStreamsArray :=
      Heap.held_jsonObject_le _ _ _
    _ ≤ (Heap.empty.jsonObject Name.json).held .jsonStreamsArray := Heap.held_jsonObject_le _ _ _
    _ ≤ Heap.empty.held .jsonStreamsArray := Heap.held_jsonObject_le _ _ _
    _ = 0 := by simp [Heap.held, Heap.empty]

/-- The array of streams keeps the reference it was created with at every exit, so the nodes are
balanced only where there is no exit: `do_transcode` fails and its null pointer is read through. -/
theorem balanced_iff (names : LibavNames) (opening : Opening) (doTranscode : ℕ → Transcoded) :
    Balanced (getMetadateFromFile names opening doTranscode) ↔
      firstFailure doTranscode 0 opening.streams = some .null := by
  have hretained := (closed_retained opening.streams.length).call allocated_retained names opening
    doTranscode
  have hcreated := (getMetadateFromFile names opening doTranscode).work.heap.known
    .jsonStreamsArray hretained.alive
  rw [← returned_eq_none_iff names opening doTranscode]
  constructor
  · intro h
    by_contra hexit
    exact hretained.alive ((h hexit).2 _ hcreated)
  · exact fun hnone hexit => absurd hnone hexit

theorem empty_file_unbalanced :
    ¬ Balanced (getMetadateFromFile namelessLibav .openFailed fun _ => .null) := by
  intro h
  exact allocated_retained.alive ((h (by decide)).2 .jsonStreamsArray
    (allocated.heap.known _ allocated_retained.alive))

/-- On the normal exit three nodes are released once more after they were destroyed. -/
example : (getMetadateFromFile namelessLibav (.opened silent) fun _ => .null).work.heap.misuses
    = 3 := by
  decide +kernel

end AudioFS.Metadata
