import AudioFS.BigRat
import AudioFS.FileMetadata
import AudioFS.MetadataResult

/-!
# From the C document to the Go value

What `json.Unmarshal` makes of the document, field by field. All numbers arrive,
and so do the texts that are valid UTF-8; the others are left out of the document
without an error.
-/

namespace AudioFS.Metadata
open Json Jansson GoJson
open AudioFS.FileMetadata (Format File Codec Stream formatInto fileInto codecInto streamInto
  metadataInto unmarshalPlain unmarshalJSON)

/-! ## Decoding the members -/

/-- A text as Go reads it, or the zero value where it was left out. -/
def textOf (bytes : Option CString) : String := (bytes.bind utf8?).getD ""

@[simp] theorem memberInto_jsonString (bytes : Option CString) :
    memberInto stringInto "" (jsonString bytes) = some (textOf bytes) := by
  rw [jsonString, textOf]
  cases bytes.bind utf8? <;> rfl

theorem memberInto_jsonInteger {i : ℤ} (h : Int64.minValue.toInt ≤ i ∧ i ≤ Int64.maxValue.toInt)
    (old : Int64) : memberInto int64Into old (jsonInteger i) = some (Int64.ofInt i) := by
  simp only [memberInto, jsonInteger, int64Into, Value.int, Numeral.toInt?_ofInt,
    Option.bind_some, int64?, if_pos h]

@[simp] theorem memberInto_int64 (x old : Int64) :
    memberInto int64Into old (jsonInteger x.toInt) = some x := by
  rw [memberInto_jsonInteger ⟨Int64.le_toInt x, Int64.toInt_le x⟩, Int64.ofInt_toInt]

@[simp] theorem memberInto_int32 (x : Int32) (old : Int64) :
    memberInto int64Into old (jsonInteger x.toInt) = some x.toInt64 := by
  have hwide := memberInto_int64 x.toInt64 old
  rwa [Int32.toInt_toInt64] at hwide

@[simp] theorem memberInto_uint32 (x : UInt32) (old : Int64) :
    memberInto int64Into old (jsonInteger x.toNat) = some (Int64.ofNat x.toNat) := by
  have hlt : x.toNat < 2 ^ 32 := x.toNat_lt
  have hwide := memberInto_int64 (Int64.ofNat x.toNat) old
  rwa [Int64.toInt_ofNat_of_lt (by omega)] at hwide

/-- No key of the object is changed by folding. -/
def Folded (m : SortedMap String Value) : Prop := ∀ e ∈ m.entries, foldName e.1 = e.1

theorem folded_empty : Folded SortedMap.empty := nofun

theorem Folded.insert {m : SortedMap String Value} (hm : Folded m) {key : String} (v : Value)
    (hkey : foldName key = key) : Folded (m.insert key v) := by
  intro e he
  rcases SortedMap.mem_insertEntry he with rfl | he
  · exact hkey
  · exact hm e he

theorem folded_parts {key : String} (tags part : Value) (hkey : foldName key = key) :
    Folded ((SortedMap.empty.insert "metadata" tags).insert key part) :=
  (folded_empty.insert tags (show foldName "metadata" = "metadata" by decide)).insert part hkey

theorem Folded.insertAll {m : SortedMap String Value} (hm : Folded m)
    {fields : List (String × Option Value)}
    (hfields : ∀ key ∈ fields.map Prod.fst, foldName key = key) :
    Folded (m.insertAll (present fields)) := by
  intro e he
  rcases SortedMap.mem_insertAll he with he | he
  · exact hm e he
  · obtain ⟨f, hf, hfe⟩ := List.mem_filterMap.mp he
    obtain ⟨v, -, rfl⟩ := Option.map_eq_some_iff.mp hfe
    exact hfields f.1 (List.mem_map_of_mem hf)

theorem Folded.decodeField {m : SortedMap String Value} (hm : Folded m) {α : Type} (name : String)
    (field : Decoder α) (old : α) :
    decodeField name field m.entries old = memberInto field old (m.entries.lookup name) :=
  decodeField_eq_lookup (distinct_entries hm) name field old

/-! ## The codec -/

def codecOf (names : LibavNames) (par : AVCodecParameters) : Codec where
  chLayout := textOf (some ((names.channelLayoutDescribe par.chLayout).take 254))
  type := textOf (names.mediaTypeString par.codecType)
  name := textOf (some (names.codecName par.codecId))
  codecTag := Int64.ofNat par.codecTag.toNat
  bitRate := par.bitRate
  bitsPerCodedSample := par.bitsPerCodedSample.toInt64
  bitsPerRawSample := par.bitsPerRawSample.toInt64
  profile := par.profile.toInt64
  level := par.level.toInt64
  width := par.width.toInt64
  height := par.height.toInt64
  bitsPerSample := (names.exactBitsPerSample par.codecId).toInt64
  sampleRate := par.sampleRate.toInt64
  frameSize := par.frameSize.toInt64
  blockAlign := par.blockAlign.toInt64
  nbChannels := par.chLayout.nbChannels.toInt64
  profileName := textOf (names.profileName par.codecId par.profile)

theorem codecInto_codecFields (names : LibavNames) (par : AVCodecParameters) :
    codecInto (leavesValue (codecFields names par)) {} = some (codecOf names par) := by
  have hkeys : ∀ key ∈ (codecFields names par).map Prod.fst, foldName key = key := by
    simp only [codecFields, List.map_cons, List.map_nil]
    decide
  have hfolded := folded_empty.insertAll hkeys
  simp only [codecInto, structInto, leavesValue, hfolded.decodeField, lookup_insertAll_present]
  simp [codecFields, SortedMap.empty, codecOf]

theorem codecInto_leaves_nil : codecInto (leavesValue []) {} = some {} := rfl

/-! ## The tags -/

def tagTexts (tags : AVDictionary) : List (String × String) :=
  tags.filterMap fun tag => (utf8? tag.1).bind fun key => (utf8? tag.2).map fun v => (key, v)

def tagMap (tags : AVDictionary) : StringMap := SortedMap.empty.insertAll (tagTexts tags)

theorem present_tagFields (tags : AVDictionary) :
    present (tagFields tags) = (tagTexts tags).map fun e => (e.1, .string e.2) := by
  induction tags with
  | nil => rfl
  | cons tag tags ih =>
    cases hkey : utf8? tag.1 with
    | none => simpa [tagFields, tagTexts, tagField, hkey] using ih
    | some key =>
      cases hvalue : utf8? tag.2 with
      | none => simpa [tagFields, tagTexts, tagField, hkey, hvalue, jsonString, present] using ih
      | some v => simpa [tagFields, tagTexts, tagField, hkey, hvalue, jsonString, present] using ih

theorem mapInto_tagFields (tags : AVDictionary) :
    mapInto (leavesValue (tagFields tags)) none = some (some (tagMap tags)) := by
  have hentries := SortedMap.mapValues_insertAll Value.string SortedMap.empty (tagTexts tags)
  rw [SortedMap.mapValues_empty, ← present_tagFields] at hentries
  rw [leavesValue, ← hentries]
  exact mapInto_encode (some (tagMap tags))

/-! ## The file -/

def fileOf (ctx : AVFormatContext) : File where
  metadata := some (tagMap ctx.metadata)
  format :=
    { name := textOf ctx.iformat.name
      longName := textOf ctx.iformat.longName
      mimeType := textOf ctx.iformat.mimeType
      flags := ctx.iformat.flags.toInt64 }
  startTime := ctx.startTime
  duration := ctx.duration
  bitRate := ctx.bitRate

theorem formatInto_formatFields (f : AVInputFormat) :
    formatInto (leavesValue (formatFields f)) {} = some
      { name := textOf f.name, longName := textOf f.longName, mimeType := textOf f.mimeType,
        flags := f.flags.toInt64 } := by
  have hkeys : ∀ key ∈ (formatFields f).map Prod.fst, foldName key = key := by
    simp only [formatFields, List.map_cons, List.map_nil]
    decide
  have hfolded := folded_empty.insertAll hkeys
  simp only [formatInto, structInto, leavesValue, hfolded.decodeField, lookup_insertAll_present]
  simp [formatFields, SortedMap.empty]

theorem fileInto_fileEntry (ctx : AVFormatContext) :
    fileInto (.object (fileEntry ctx)) {} = some (fileOf ctx) := by
  have hkeys : ∀ key ∈ (fileFields ctx).map Prod.fst, foldName key = key := by
    simp only [fileFields, List.map_cons, List.map_nil]
    decide
  have hfolded := (folded_parts (leavesValue (tagFields ctx.metadata))
    (leavesValue (formatFields ctx.iformat))
    (show foldName "format" = "format" by decide)).insertAll hkeys
  simp only [fileInto, structInto, fileEntry, hfolded.decodeField, lookup_parts]
  simp [fileFields, mapInto_tagFields, formatInto_formatFields, fileOf]

/-! ## The streams -/

def chromaprintOf (doTranscode : ℕ → Transcoded) (i : ℕ) (s : AVStream) : String :=
  if s.isAudio then
    match doTranscode i with
    | .null => ""
    | .handle text => textOf (some (Process.cString text))
  else ""

def streamOf (names : LibavNames) (doTranscode : ℕ → Transcoded) (i : ℕ) (s : AVStream) :
    Stream :=
  match s.codecpar with
  | none => { metadata := some SortedMap.empty }
  | some par =>
    { metadata := some (tagMap s.metadata)
      codec := codecOf names par
      index := s.index.toInt64
      nbFrames := s.nbFrames
      duration := s.duration
      timeBaseNum := s.timeBase.num.toInt64
      timeBaseDen := s.timeBase.den.toInt64
      chromaprint := chromaprintOf doTranscode i s }

theorem streamLeaves_folded (doTranscode : ℕ → Transcoded) (i : ℕ) (s : AVStream) :
    ∀ key ∈ (streamLeaves doTranscode i s).map Prod.fst, foldName key = key := by
  have hall : ∀ key ∈ ["chromaprint", "index", "nb_frames", "duration", "time_base_num",
      "time_base_den"], foldName key = key := by decide
  intro key hkey
  refine hall key ?_
  unfold streamLeaves at hkey
  cases hpar : s.codecpar with
  | none => simp [hpar] at hkey
  | some par =>
    simp only [hpar, List.map_append, List.mem_append] at hkey
    rcases hkey with hkey | hkey
    · split_ifs at hkey
      · cases hmade : doTranscode i with
        | null => simp [hmade, chromaprintFields] at hkey
        | handle text =>
          simp only [hmade, chromaprintFields, List.map_cons, List.map_nil,
            List.mem_singleton] at hkey
          exact hkey ▸ List.mem_cons_self
      · simp at hkey
    · exact List.mem_cons_of_mem _ hkey

theorem streamEntry_folded (names : LibavNames) (doTranscode : ℕ → Transcoded) (i : ℕ)
    (s : AVStream) {α : Type} (name : String) (field : Decoder α) (old : α) :
    decodeField name field (streamEntry names doTranscode i s) old =
      memberInto field old ((streamEntry names doTranscode i s).lookup name) := by
  have hfolded := (folded_parts (leavesValue (tagLeaves s)) (leavesValue (codecLeaves names s))
    (show foldName "codec" = "codec" by decide)).insertAll (streamLeaves_folded doTranscode i s)
  exact hfolded.decodeField name field old

theorem memberInto_chromaprint (names : LibavNames) (doTranscode : ℕ → Transcoded) (i : ℕ)
    {s : AVStream} {par : AVCodecParameters} (hpar : s.codecpar = some par) :
    memberInto stringInto "" ((streamEntry names doTranscode i s).lookup "chromaprint") =
      some (chromaprintOf doTranscode i s) := by
  simp only [streamEntry, lookup_parts, streamLeaves, hpar, chromaprintOf]
  by_cases haudio : s.isAudio = true
  · cases doTranscode i with
    | null => simp [haudio, chromaprintFields, streamFields]
    | handle text => simp [haudio, chromaprintFields, streamFields]
  · simp [haudio, streamFields]

theorem streamInto_streamEntry (setString : String → Option ℚ) (names : LibavNames)
    (doTranscode : ℕ → Transcoded) (i : ℕ) (s : AVStream) :
    streamInto setString (.object (streamEntry names doTranscode i s)) {} =
      some (streamOf names doTranscode i s) := by
  simp only [streamInto, structInto, streamEntry_folded]
  cases hpar : s.codecpar with
  | none =>
    have hlookup := streamEntry_lookup_none names doTranscode i hpar
    have htags : mapInto (leavesValue []) none = some (some SortedMap.empty) := rfl
    simp [hlookup, htags, codecInto_leaves_nil, streamOf, hpar]
  | some par =>
    have hlookup {key : String} (hkey : key ≠ "chromaprint") :=
      streamEntry_lookup names doTranscode i hpar hkey
    have hchromaprint := memberInto_chromaprint names doTranscode i hpar
    simp [hlookup, streamFields, mapInto_tagFields, codecInto_codecFields, hchromaprint, streamOf,
      hpar]

/-! ## The whole document -/

def metadataOf (names : LibavNames) (doTranscode : ℕ → Transcoded) (ctx : AVFormatContext) :
    FileMetadata.Metadata where
  file := fileOf ctx
  streams := some (ctx.streams.mapIdx (streamOf names doTranscode))

theorem metadataInto_document (setString : String → Option ℚ) (names : LibavNames)
    (doTranscode : ℕ → Transcoded) (ctx : AVFormatContext) :
    metadataInto setString (.object (document names doTranscode ctx)) {} =
      some (metadataOf names doTranscode ctx) := by
  have hfolded : Folded ((SortedMap.empty.insert "file" (.object (fileEntry ctx))).insert "streams"
      (.array (ctx.streams.mapIdx fun i s => .object (streamEntry names doTranscode i s)))) :=
    (folded_empty.insert _ (by decide)).insert _ (by decide)
  have hdecode {α : Type} (name : String) (field : Decoder α) (old : α) :
      decodeField name field (document names doTranscode ctx) old =
        memberInto field old ((document names doTranscode ctx).lookup name) :=
    hfolded.decodeField name field old
  have hstreams : (ctx.streams.mapIdx fun i s =>
      Value.object (streamEntry names doTranscode i s)).mapM (fun v => streamInto setString v {}) =
        some (ctx.streams.mapIdx (streamOf names doTranscode)) := by
    simp only [List.mapIdx_eq_zipIdx_map, List.mapM_map, Function.comp_def,
      streamInto_streamEntry]
    exact List.mapM_pure
  simp [metadataInto, structInto, hdecode, document_file, document_streams, fileInto_fileEntry,
    sliceInto, hstreams, metadataOf]

/-- Filling in a time base leaves everything else as it was read. -/
theorem fillTimeBase_of_none {s : Stream} (h : s.timeBase = none) :
    s.fillTimeBase = { s with timeBase := s.fillTimeBase.timeBase } := by
  by_cases hden : s.timeBaseDen = 0
  · have hskip : s.fillTimeBase = s := by simp [Stream.fillTimeBase, h, hden]
    rw [hskip]
  · have hnum : FileMetadata.filledPart s.timeBaseNum
        (FileMetadata.newRat s.timeBaseNum s.timeBaseDen).num = s.timeBaseNum := by
      rw [FileMetadata.filledPart]
      split_ifs with hzero
      · simp [FileMetadata.newRat, hzero]
      · rfl
    have hkept : FileMetadata.filledPart s.timeBaseDen
        (FileMetadata.newRat s.timeBaseNum s.timeBaseDen).den = s.timeBaseDen := if_neg hden
    simp only [Stream.fillTimeBase, h, hden, ↓reduceIte, Stream.fillParts, hnum, hkept]

/-! ## What survives -/

def tagBytes (e : String × String) : CString × CString :=
  (Utf8.encode e.1.toList, Utf8.encode e.2.toList)

/-- The entries of a map are the tags of a dictionary. -/
def TagsSurvive (tags : AVDictionary) (m : Option StringMap) : Prop :=
  ∃ texts, m = some texts ∧ (texts.entries.map tagBytes).Perm tags

structure CodecSurvives (names : LibavNames) (par : AVCodecParameters) (c : Codec) : Prop where
  codecTag : c.codecTag.toInt = par.codecTag.toNat
  bitRate : c.bitRate = par.bitRate
  bitsPerCodedSample : c.bitsPerCodedSample.toInt = par.bitsPerCodedSample.toInt
  bitsPerRawSample : c.bitsPerRawSample.toInt = par.bitsPerRawSample.toInt
  profile : c.profile.toInt = par.profile.toInt
  level : c.level.toInt = par.level.toInt
  width : c.width.toInt = par.width.toInt
  height : c.height.toInt = par.height.toInt
  bitsPerSample : c.bitsPerSample.toInt = (names.exactBitsPerSample par.codecId).toInt
  sampleRate : c.sampleRate.toInt = par.sampleRate.toInt
  frameSize : c.frameSize.toInt = par.frameSize.toInt
  blockAlign : c.blockAlign.toInt = par.blockAlign.toInt
  nbChannels : c.nbChannels.toInt = par.chLayout.nbChannels.toInt

structure StreamSurvives (names : LibavNames) (s : AVStream) (t : Stream) : Prop where
  metadata : TagsSurvive s.metadata t.metadata
  index : t.index.toInt = s.index.toInt
  nbFrames : t.nbFrames = s.nbFrames
  duration : t.duration = s.duration
  timeBaseNum : t.timeBaseNum.toInt = s.timeBase.num.toInt
  timeBaseDen : t.timeBaseDen.toInt = s.timeBase.den.toInt
  codec : ∀ par, s.codecpar = some par → CodecSurvives names par t.codec

structure Survives (names : LibavNames) (ctx : AVFormatContext) (f : FileMetadata.Metadata) :
    Prop where
  metadata : TagsSurvive ctx.metadata f.file.metadata
  flags : f.file.format.flags.toInt = ctx.iformat.flags.toInt
  startTime : f.file.startTime = ctx.startTime
  duration : f.file.duration = ctx.duration
  bitRate : f.file.bitRate = ctx.bitRate
  streams : ∃ streams, f.streams = some streams ∧
    List.Forall₂ (StreamSurvives names) ctx.streams streams

/-- All tags can be stored in the document. -/
def Textual (tags : AVDictionary) : Prop := ∀ t ∈ tags, Utf8.Valid t.1 ∧ Utf8.Valid t.2

/-- A stream without anything to say about it. -/
structure Blank (s : AVStream) : Prop where
  metadata : s.metadata = []
  index : s.index = 0
  nbFrames : s.nbFrames = 0
  duration : s.duration = 0
  timeBaseNum : s.timeBase.num = 0
  timeBaseDen : s.timeBase.den = 0

/-- Streams without codec parameters are skipped. -/
def Archivable (s : AVStream) : Prop :=
  match s.codecpar with
  | none => Blank s
  | some _ => Textual s.metadata

def KeysDistinct (tags : AVDictionary) : Prop := (tags.map Prod.fst).Nodup

theorem encode_utf8? {bytes : List UInt8} (h : Utf8.Valid bytes) :
    ∃ text, utf8? bytes = some text ∧ Utf8.encode text.toList = bytes :=
  ⟨String.ofList (Utf8.runes bytes), by rw [utf8?, if_pos h], by rw [String.toList_ofList, h]⟩

theorem tagTexts_of_textual {tags : AVDictionary} (h : Textual tags) :
    (tagTexts tags).map tagBytes = tags := by
  induction tags with
  | nil => rfl
  | cons t tags ih =>
    obtain ⟨hkey, hvalue⟩ := h t (by simp)
    obtain ⟨key, hk, hkb⟩ := encode_utf8? hkey
    obtain ⟨v, hv, hvb⟩ := encode_utf8? hvalue
    have hrest := ih fun t ht => h t (by simp [ht])
    have hcons : tagTexts (t :: tags) = (key, v) :: tagTexts tags := by simp [tagTexts, hk, hv]
    rw [hcons, List.map_cons, hrest, tagBytes, hkb, hvb]

theorem tagsSurvive_iff {tags : AVDictionary} (hkeys : KeysDistinct tags) :
    TagsSurvive tags (some (tagMap tags)) ↔ Textual tags := by
  constructor
  · rintro ⟨texts, -, hperm⟩ t ht
    obtain ⟨e, -, rfl⟩ := List.mem_map.mp (hperm.mem_iff.mpr ht)
    exact ⟨Utf8.valid_encode _, Utf8.valid_encode _⟩
  · intro h
    have htexts := tagTexts_of_textual h
    have hnodup : ((tagTexts tags).map Prod.fst).Nodup := by
      refine List.Nodup.of_map (fun key => Utf8.encode key.toList) ?_
      have hfirst : ((tagTexts tags).map Prod.fst).map (fun key => Utf8.encode key.toList) =
          tags.map Prod.fst := by
        rw [← congrArg (List.map Prod.fst) htexts, List.map_map, List.map_map]
        rfl
      rw [hfirst]
      exact hkeys
    have hperm : (tagMap tags).entries.Perm (tagTexts tags) :=
      SortedMap.insertAll_perm SortedMap.empty hnodup
    have hbytes := hperm.map tagBytes
    rw [htexts] at hbytes
    exact ⟨tagMap tags, rfl, hbytes⟩

theorem codecOf_survives (names : LibavNames) (par : AVCodecParameters) :
    CodecSurvives names par (codecOf names par) := by
  have htag : par.codecTag.toNat < 2 ^ 32 := par.codecTag.toNat_lt
  constructor <;> simp only [codecOf, Int32.toInt_toInt64]
  exact Int64.toInt_ofNat_of_lt (by omega)

theorem streamOf_survives_iff (names : LibavNames) (doTranscode : ℕ → Transcoded) (i : ℕ)
    {s : AVStream} (hkeys : KeysDistinct s.metadata) :
    StreamSurvives names s (streamOf names doTranscode i s).fillTimeBase ↔ Archivable s := by
  unfold Archivable
  cases hpar : s.codecpar with
  | none =>
    have hskipped : (streamOf names doTranscode i s).fillTimeBase =
        { metadata := some SortedMap.empty } := by
      simp [streamOf, hpar, Stream.fillTimeBase]
    rw [hskipped]
    constructor
    · intro h
      obtain ⟨texts, htexts, hperm⟩ := h.metadata
      obtain rfl : SortedMap.empty = texts := by simpa using htexts
      exact ⟨hperm.nil_eq.symm, Int32.toInt_inj.mp h.index.symm, h.nbFrames.symm, h.duration.symm,
        Int32.toInt_inj.mp h.timeBaseNum.symm, Int32.toInt_inj.mp h.timeBaseDen.symm⟩
    · intro h
      exact ⟨⟨SortedMap.empty, rfl, by rw [h.metadata]; exact .nil⟩, by rw [h.index]; rfl,
        h.nbFrames.symm, h.duration.symm, by rw [h.timeBaseNum]; rfl, by rw [h.timeBaseDen]; rfl,
        fun par hsome => by simp [hpar] at hsome⟩
  | some par =>
    have hread : (streamOf names doTranscode i s).timeBase = none := by simp [streamOf, hpar]
    rw [fillTimeBase_of_none hread]
    simp only [streamOf, hpar]
    rw [← tagsSurvive_iff hkeys]
    constructor
    · exact fun h => h.metadata
    · intro h
      exact ⟨h, Int32.toInt_toInt64 _, rfl, rfl, Int32.toInt_toInt64 _, Int32.toInt_toInt64 _,
        fun par' hpar' => by
          obtain rfl : par = par' := by simpa [hpar] using hpar'
          exact codecOf_survives names par⟩

theorem unmarshalJSON_returnedText (setString : String → Option ℚ) (names : LibavNames)
    (doTranscode : ℕ → Transcoded) (ctx : AVFormatContext) {white : List Char}
    (hwhite : ∀ c ∈ white, isWhite c = true) :
    unmarshalJSON setString (returnedText names doTranscode ctx ++ Utf8.encode white) =
      some (metadataOf names doTranscode ctx).fillTimeBase := by
  rw [unmarshalJSON, unmarshalPlain, unmarshal_returnedText names doTranscode ctx hwhite,
    Option.bind_some, metadataInto_document, Option.map_some]

theorem unmarshalJSON_bareText (setString : String → Option ℚ) (names : LibavNames)
    (doTranscode : ℕ → Transcoded) (ctx : AVFormatContext) :
    unmarshalJSON setString (returnedText names doTranscode ctx) =
      some (metadataOf names doTranscode ctx).fillTimeBase := by
  have hread := unmarshalJSON_returnedText setString names doTranscode ctx (List.forall_mem_nil _)
  rwa [Utf8.encode_nil, List.append_nil] at hread

theorem forall₂_mapIdx_iff {α β : Type} {r : α → β → Prop} {p : α → Prop} {f : ℕ → α → β}
    {as : List α} (h : ∀ i, ∀ a ∈ as, r a (f i a) ↔ p a) :
    List.Forall₂ r as (as.mapIdx f) ↔ ∀ a ∈ as, p a := by
  induction as generalizing f with
  | nil => simp
  | cons a as ih =>
    rw [List.mapIdx_cons, List.forall₂_cons, List.forall_mem_cons, h 0 a (by simp),
      ih fun i b hb => h (i + 1) b (by simp [hb])]

theorem metadataOf_survives_iff (names : LibavNames) (doTranscode : ℕ → Transcoded)
    {ctx : AVFormatContext} (hkeys : KeysDistinct ctx.metadata)
    (hstreams : ∀ s ∈ ctx.streams, KeysDistinct s.metadata) :
    Survives names ctx (metadataOf names doTranscode ctx).fillTimeBase ↔
      Textual ctx.metadata ∧ ∀ s ∈ ctx.streams, Archivable s := by
  have hall : List.Forall₂ (StreamSurvives names) ctx.streams
      (ctx.streams.mapIdx fun i s => (streamOf names doTranscode i s).fillTimeBase) ↔
        ∀ s ∈ ctx.streams, Archivable s :=
    forall₂_mapIdx_iff fun i s hs => streamOf_survives_iff names doTranscode i (hstreams s hs)
  have hread : ((metadataOf names doTranscode ctx).fillTimeBase).streams =
      some (ctx.streams.mapIdx fun i s => (streamOf names doTranscode i s).fillTimeBase) := by
    simp [metadataOf, FileMetadata.Metadata.fillTimeBase, List.mapIdx_eq_zipIdx_map]
  rw [← tagsSurvive_iff hkeys, ← hall]
  constructor
  · intro h
    obtain ⟨streams, hsome, hforall⟩ := h.streams
    obtain rfl := Option.some.inj (hread.symm.trans hsome)
    exact ⟨h.metadata, hforall⟩
  · rintro ⟨htags, hforall⟩
    exact ⟨htags, Int32.toInt_toInt64 _, rfl, rfl, rfl, _, hread, hforall⟩

/-- What `main` prints for the Go side to read. -/
def printed (json : List UInt8) : List UInt8 := json ++ Utf8.encode ['\n']

/-- Both callers read the same, and it has everything in it. -/
def ReadBack (setString : String → Option ℚ) (names : LibavNames) (ctx : AVFormatContext)
    (json : List UInt8) : Prop :=
  ∃ f, unmarshalJSON setString json = some f ∧ unmarshalJSON setString (printed json) = some f ∧
    Survives names ctx f

theorem returnedText_readBack_iff (setString : String → Option ℚ) (names : LibavNames)
    (doTranscode : ℕ → Transcoded) {ctx : AVFormatContext} (hkeys : KeysDistinct ctx.metadata)
    (hstreams : ∀ s ∈ ctx.streams, KeysDistinct s.metadata) :
    ReadBack setString names ctx (returnedText names doTranscode ctx) ↔
      Textual ctx.metadata ∧ ∀ s ∈ ctx.streams, Archivable s := by
  have hplain := unmarshalJSON_returnedText setString names doTranscode ctx (List.forall_mem_nil _)
  have hprinted := unmarshalJSON_returnedText setString names doTranscode ctx
    (List.forall_mem_singleton.mpr (show isWhite '\n' = true from rfl))
  rw [Utf8.encode_nil, List.append_nil] at hplain
  rw [← metadataOf_survives_iff names doTranscode hkeys hstreams]
  constructor
  · rintro ⟨f, hf, -, hsurvives⟩
    rwa [Option.some.inj (hplain.symm.trans hf)]
  · exact fun hsurvives => ⟨_, hplain, hprinted, hsurvives⟩

/-- A call that completes keeps everything exactly when all tags are valid UTF-8, and the streams
without codec parameters have nothing to keep. -/
theorem metadata_readBack_iff (setString : String → Option ℚ) (names : LibavNames)
    {ctx : AVFormatContext} {doTranscode : ℕ → Transcoded} {json : List UInt8}
    (hreturned : (getMetadateFromFile names (.opened ctx) doTranscode).returned =
      some (.heap json)) (hkeys : KeysDistinct ctx.metadata)
    (hstreams : ∀ s ∈ ctx.streams, KeysDistinct s.metadata) :
    ReadBack setString names ctx json ↔
      Textual ctx.metadata ∧ ∀ s ∈ ctx.streams, Archivable s := by
  rw [returned_eq] at hreturned
  cases hfail : firstFailure doTranscode 0 ctx.streams with
  | none =>
    simp only [hfail, Option.some.injEq, Returned.heap.injEq] at hreturned
    rw [← hreturned]
    exact returnedText_readBack_iff setString names doTranscode hkeys hstreams
  | some made => cases made <;> simp [hfail] at hreturned

def tagged (value : CString) : AVFormatContext where
  iformat := ⟨some [109, 112, 51], none, none, 0⟩
  startTime := 0
  duration := 2000000
  bitRate := 320000
  metadata := [([116, 105, 116, 108, 101], value)]
  streams := [⟨0, 0, 28224000, ⟨1, 14112000⟩, [],
    some ⟨.audio, 86017, 0, 320000, 0, 0, -99, -99, 0, 0, 44100, 1152, 0, ⟨1, 2, 3⟩⟩⟩]

theorem tagged_returned (value : CString) :
    (getMetadateFromFile namelessLibav (.opened (tagged value)) fun _ => .handle [65]).returned =
      some (.heap (returnedText namelessLibav (fun _ => .handle [65]) (tagged value))) :=
  returned_eq _ _ _

theorem tagged_keys (value : CString) : KeysDistinct (tagged value).metadata :=
  List.nodup_singleton _

theorem tagged_stream_keys (value : CString) :
    ∀ s ∈ (tagged value).streams, KeysDistinct s.metadata :=
  List.forall_mem_singleton.mpr List.nodup_nil

theorem utf8_tag_readBack :
    ReadBack BigRat.decimalSetString namelessLibav (tagged [195, 164])
      (returnedText namelessLibav (fun _ => .handle [65]) (tagged [195, 164])) :=
  (metadata_readBack_iff _ _ (tagged_returned _) (tagged_keys _) (tagged_stream_keys _)).mpr
    ⟨List.forall_mem_singleton.mpr (by decide +kernel),
      List.forall_mem_singleton.mpr (List.forall_mem_nil _)⟩

/-- The title of a file that was tagged in Latin-1 is lost without an error. -/
theorem latin1_tag_lost :
    (getMetadateFromFile namelessLibav (.opened (tagged [228])) fun _ => .handle [65]).returned =
        some (.heap (returnedText namelessLibav (fun _ => .handle [65]) (tagged [228]))) ∧
      KeysDistinct (tagged [228]).metadata ∧
      (∀ s ∈ (tagged [228]).streams, KeysDistinct s.metadata) ∧
      ¬ ReadBack BigRat.decimalSetString namelessLibav (tagged [228])
        (returnedText namelessLibav (fun _ => .handle [65]) (tagged [228])) := by
  refine ⟨tagged_returned _, tagged_keys _, tagged_stream_keys _, fun h => ?_⟩
  have htextual := ((returnedText_readBack_iff _ _ _ (tagged_keys _)
    (tagged_stream_keys _)).mp h).1
  exact absurd (htextual _ (List.mem_singleton.mpr rfl)).2 (by decide +kernel)

end AudioFS.Metadata
