import AudioFS.Fingerprint
import AudioFS.Jansson
import AudioFS.Libav

/-!
# `get_metadate_from_file`

The JSON document about one file, built in a tree of Jansson nodes: what libav
reports of the container and of each stream, and the fingerprints `do_transcode`
makes of the audio streams. Each C variable that holds a node is the name of that
node. Every index used on the three tables of nodes is recorded. The call is
followed as if the tables were long enough, and what the caller is given is read off
it only where the heap tolerates the entries that are not there.
-/

namespace AudioFS.Metadata
open Json Jansson
open AudioFS.Transcode (AVMediaType)

/-- The bytes of a C string, without the one that ends it. -/
abbrev CString := List UInt8

structure AVRational where
  num : Int32
  den : Int32
  deriving DecidableEq

structure AVInputFormat where
  name : Option CString
  longName : Option CString
  mimeType : Option CString
  flags : Int32
  deriving DecidableEq

structure AVChannelLayout where
  order : Int32
  nbChannels : Int32
  mask : UInt64
  deriving DecidableEq

structure AVCodecParameters where
  codecType : AVMediaType
  codecId : Int32
  codecTag : UInt32
  bitRate : Int64
  bitsPerCodedSample : Int32
  bitsPerRawSample : Int32
  profile : Int32
  level : Int32
  width : Int32
  height : Int32
  sampleRate : Int32
  frameSize : Int32
  blockAlign : Int32
  chLayout : AVChannelLayout
  deriving DecidableEq

/-- `av_dict_get` with an empty key and `AV_DICT_IGNORE_SUFFIX` walks through all entries. -/
abbrev AVDictionary := List (CString × CString)

structure AVStream where
  index : Int32
  nbFrames : Int64
  duration : Int64
  timeBase : AVRational
  metadata : AVDictionary
  codecpar : Option AVCodecParameters
  deriving DecidableEq

def AVStream.isAudio (s : AVStream) : Bool :=
  match s.codecpar with
  | none => false
  | some par => par.codecType == .audio

structure AVFormatContext where
  iformat : AVInputFormat
  startTime : Int64
  duration : Int64
  bitRate : Int64
  metadata : AVDictionary
  streams : List AVStream
  deriving DecidableEq

/-- What libav has to say about the codes and layouts it reports. -/
structure LibavNames where
  channelLayoutDescribe : AVChannelLayout → CString
  mediaTypeString : AVMediaType → Option CString
  codecName : Int32 → CString
  exactBitsPerSample : Int32 → Int32
  profileName : Int32 → Int32 → Option CString

def namelessLibav : LibavNames :=
  ⟨fun _ => [], fun _ => none, fun _ => [], fun _ => 0, fun _ _ => none⟩

/-- `avformat_open_input` and `avformat_find_stream_info`. -/
inductive Opening
  | openFailed
  | noStreamInfo
  | opened (ctx : AVFormatContext)

/-- What `do_transcode` returns: a null pointer, or a handle with the bytes counted in it. -/
inductive Transcoded
  | null
  | handle (text : List UInt8)
  deriving DecidableEq

inductive Name
  | json
  | jsonFile
  | jsonFileFormat
  | jsonFileMetadata
  | jsonStreamsArray
  | jsonStreams (i : ℕ)
  | jsonStreamsMetadata (i : ℕ)
  | jsonStreamsCodec (i : ℕ)
  deriving DecidableEq

/-- The index a name uses on one of the three tables. -/
def Name.index : Name → Option ℕ
  | .jsonStreams i | .jsonStreamsMetadata i | .jsonStreamsCodec i => some i
  | _ => none

structure Work where
  heap : Heap Name
  indices : List ℕ

namespace Work

/-- One statement on the nodes of `names`. -/
def on (w : Work) (names : List Name) (f : Heap Name → Heap Name) : Work :=
  ⟨f w.heap, w.indices ++ names.filterMap Name.index⟩

def jsonObject (n : Name) (w : Work) : Work := w.on [n] fun h => h.jsonObject n

def jsonArray (n : Name) (w : Work) : Work := w.on [n] fun h => h.jsonArray n

def jsonObjectSetNew (n : Name) (key : String) (c : Name) (w : Work) : Work :=
  w.on [n, c] fun h => h.jsonObjectSetNew n key (.node c)

def jsonObjectSet (n : Name) (key : String) (c : Name) (w : Work) : Work :=
  w.on [n, c] fun h => h.jsonObjectSet n key c

def jsonArrayAppend (n c : Name) (w : Work) : Work := w.on [n, c] fun h => h.jsonArrayAppend n c

def setLeaf (n : Name) (w : Work) (field : String × Option Value) : Work :=
  w.on [n] fun h => h.setLeaf n field

def setLeaves (n : Name) (fields : List (String × Option Value)) (w : Work) : Work :=
  fields.foldl (setLeaf n) w

/-- A tag with a key that is not valid UTF-8 is refused, and its value dropped. -/
def setTags (n : Name) (tags : AVDictionary) (w : Work) : Work :=
  tags.foldl (fun w tag => w.on [n] fun h =>
    match tagField tag with
    | none => h
    | some field => h.setLeaf n field) w

def jsonDecref (n : Name) (w : Work) : Work := w.on [n] fun h => h.jsonDecref n

end Work

/-! ## The parts of the document -/

def formatFields (f : AVInputFormat) : List (String × Option Value) :=
  [("name", jsonString f.name), ("long_name", jsonString f.longName),
    ("mime_type", jsonString f.mimeType), ("flags", jsonInteger f.flags.toInt)]

def fileFields (ctx : AVFormatContext) : List (String × Option Value) :=
  [("start_time", jsonInteger ctx.startTime.toInt), ("duration", jsonInteger ctx.duration.toInt),
    ("bit_rate", jsonInteger ctx.bitRate.toInt)]

def streamFields (s : AVStream) : List (String × Option Value) :=
  [("index", jsonInteger s.index.toInt), ("nb_frames", jsonInteger s.nbFrames.toInt),
    ("duration", jsonInteger s.duration.toInt),
    ("time_base_num", jsonInteger s.timeBase.num.toInt),
    ("time_base_den", jsonInteger s.timeBase.den.toInt)]

/-- The layout is described in 255 bytes, and `profile` is set twice. -/
def codecFields (names : LibavNames) (par : AVCodecParameters) : List (String × Option Value) :=
  [("ch_layout", jsonString (some ((names.channelLayoutDescribe par.chLayout).take 254))),
    ("type", jsonString (names.mediaTypeString par.codecType)),
    ("name", jsonString (some (names.codecName par.codecId))),
    ("codec_tag", jsonInteger par.codecTag.toNat), ("bit_rate", jsonInteger par.bitRate.toInt),
    ("bits_per_coded_sample", jsonInteger par.bitsPerCodedSample.toInt),
    ("bits_per_raw_sample", jsonInteger par.bitsPerRawSample.toInt),
    ("profile", jsonInteger par.profile.toInt), ("level", jsonInteger par.level.toInt),
    ("width", jsonInteger par.width.toInt), ("height", jsonInteger par.height.toInt),
    ("profile", jsonInteger par.profile.toInt),
    ("bits_per_sample", jsonInteger (names.exactBitsPerSample par.codecId).toInt),
    ("profile_name", jsonString (names.profileName par.codecId par.profile)),
    ("sample_rate", jsonInteger par.sampleRate.toInt),
    ("frame_size", jsonInteger par.frameSize.toInt),
    ("block_align", jsonInteger par.blockAlign.toInt),
    ("nb_channels", jsonInteger par.chLayout.nbChannels.toInt)]

/-! ## The function -/

/-- The nodes that are created before the file is opened. -/
def allocated : Work :=
  (⟨.empty, []⟩ : Work) |>.jsonObject .json |>.jsonObject .jsonFile |>.jsonObject .jsonFileFormat
    |>.jsonObject .jsonFileMetadata |>.jsonArray .jsonStreamsArray

def setupStream (w : Work) (i : ℕ) : Work :=
  w.jsonObject (.jsonStreams i) |>.jsonObject (.jsonStreamsMetadata i)
    |>.jsonObject (.jsonStreamsCodec i)
    |>.jsonObjectSet (.jsonStreams i) "metadata" (.jsonStreamsMetadata i)
    |>.jsonObjectSet (.jsonStreams i) "codec" (.jsonStreamsCodec i)
    |>.jsonArrayAppend .jsonStreamsArray (.jsonStreams i)

def setupRoot (w : Work) : Work :=
  w.jsonObjectSetNew .json "file" .jsonFile
    |>.jsonObjectSetNew .jsonFile "metadata" .jsonFileMetadata
    |>.jsonObjectSetNew .jsonFile "format" .jsonFileFormat
    |>.jsonObjectSet .json "streams" .jsonStreamsArray

def setup (w : Work) (nbStreams : ℕ) : Work :=
  (List.range nbStreams).foldl setupStream (setupRoot w)

def describeFile (ctx : AVFormatContext) (w : Work) : Work :=
  w.setLeaves .jsonFileFormat (formatFields ctx.iformat) |>.setLeaves .jsonFile (fileFields ctx)
    |>.setTags .jsonFileMetadata ctx.metadata

def describeStream (names : LibavNames) (i : ℕ) (stream : AVStream) (par : AVCodecParameters)
    (w : Work) : Work :=
  w.setLeaves (.jsonStreams i) (streamFields stream)
    |>.setLeaves (.jsonStreamsCodec i) (codecFields names par)
    |>.setTags (.jsonStreamsMetadata i) stream.metadata

inductive Walk
  | done (w : Work)
  /-- `goto end`. -/
  | abandoned (w : Work)
  /-- `audiofs_avio_get_size` reads through a null pointer. -/
  | crashed (w : Work)

def Walk.work : Walk → Work
  | .done w | .abandoned w | .crashed w => w

/-- The copy of the fingerprint is one zero byte longer than the handle. -/
def setChromaprint (i : ℕ) (text : List UInt8) (w : Work) : Work :=
  w.setLeaf (.jsonStreams i) ("chromaprint", jsonString (some (Process.cString text)))

def walkStreams (names : LibavNames) (doTranscode : ℕ → Transcoded) :
    ℕ → List AVStream → Work → Walk
  | _, [], w => .done w
  | i, stream :: streams, w =>
    match stream.codecpar with
    | none => walkStreams names doTranscode (i + 1) streams w
    | some par =>
      if par.codecType = .audio then
        match doTranscode i with
        | .null => .crashed w
        | .handle [] => .abandoned w
        | .handle (b :: text) =>
          walkStreams names doTranscode (i + 1) streams
            (describeStream names i stream par (setChromaprint i (b :: text) w))
      else walkStreams names doTranscode (i + 1) streams (describeStream names i stream par w)

def releaseStream (w : Work) (i : ℕ) : Work :=
  w.jsonDecref (.jsonStreams i) |>.jsonDecref (.jsonStreamsMetadata i)
    |>.jsonDecref (.jsonStreamsCodec i)

def release (nbStreams : ℕ) (w : Work) : Work :=
  (List.range nbStreams).foldl releaseStream w |>.jsonDecref .jsonFileMetadata
    |>.jsonDecref .jsonFileFormat |>.jsonDecref .jsonFile |>.jsonDecref .json

inductive Returned
  | null
  /-- The string literal `json_str` is initialised with. -/
  | emptyLiteral
  | heap (json : List UInt8)
  deriving DecidableEq

structure Call where
  /-- Nothing when the process dies in the call. -/
  returned : Option Returned
  work : Work
  /-- The number of elements of each of the three tables. -/
  tableSize : ℕ

/-- What the caller is given when the allocator leaves `room` entries behind each table: a store
past these ruins the heap, and the process dies of it before the call returns. Behind a table
without elements glibc leaves three. -/
def Call.outcome (room : ℕ) (c : Call) : Option Returned :=
  if ∀ i ∈ c.work.indices, i < c.tableSize + room then c.returned else none

/-- `nb_streams` of what `avformat_alloc_context` returns. -/
def freshNbStreams : ℕ := 0

/-- The call on a heap that tolerates every store past the tables; `Call.outcome` cuts it. -/
def getMetadateFromFile (names : LibavNames) (opening : Opening)
    (doTranscode : ℕ → Transcoded) : Call :=
  match opening with
  | .openFailed | .noStreamInfo => ⟨some .null, allocated, freshNbStreams⟩
  | .opened ctx =>
    match walkStreams names doTranscode 0 ctx.streams
        (describeFile ctx (setup allocated ctx.streams.length)) with
    | .crashed w => ⟨none, w, freshNbStreams⟩
    | .abandoned w => ⟨some .emptyLiteral, w, freshNbStreams⟩
    | .done w =>
      let returned := match jsonDumps w.heap .json with
        | none => Returned.null
        | some json => .heap json
      ⟨some returned, release ctx.streams.length w, freshNbStreams⟩

def Opening.streams : Opening → List AVStream
  | .opened ctx => ctx.streams
  | _ => []

/-- The outcome of the first audio stream that has no fingerprint, if there is one. -/
def firstFailure (doTranscode : ℕ → Transcoded) : ℕ → List AVStream → Option Transcoded
  | _, [] => none
  | i, stream :: streams =>
    if stream.isAudio then
      match doTranscode i with
      | .null => some .null
      | .handle [] => some (.handle [])
      | .handle (_ :: _) => firstFailure doTranscode (i + 1) streams
    else firstFailure doTranscode (i + 1) streams

def describeOne (names : LibavNames) (doTranscode : ℕ → Transcoded) (i : ℕ) (stream : AVStream)
    (w : Work) : Work :=
  match stream.codecpar with
  | none => w
  | some par =>
    if par.codecType = .audio then
      describeStream names i stream par (match doTranscode i with
        | .null => w
        | .handle text => setChromaprint i text w)
    else describeStream names i stream par w

def describeAll (names : LibavNames) (doTranscode : ℕ → Transcoded) :
    ℕ → List AVStream → Work → Work
  | _, [], w => w
  | i, stream :: streams, w =>
    describeAll names doTranscode (i + 1) streams (describeOne names doTranscode i stream w)

/-- How the stream loop ends is decided by the first stream without a fingerprint. -/
theorem walkStreams_spec (names : LibavNames) (doTranscode : ℕ → Transcoded) (i : ℕ)
    (streams : List AVStream) (w : Work) :
    match firstFailure doTranscode i streams with
    | none => walkStreams names doTranscode i streams w =
        .done (describeAll names doTranscode i streams w)
    | some .null => ∃ w', walkStreams names doTranscode i streams w = .crashed w'
    | some (.handle _) => ∃ w', walkStreams names doTranscode i streams w = .abandoned w' := by
  induction streams generalizing i w with
  | nil => rfl
  | cons stream streams ih =>
    cases hpar : stream.codecpar with
    | none => simpa [firstFailure, walkStreams, describeAll, describeOne, AVStream.isAudio, hpar]
        using ih (i + 1) w
    | some par =>
      by_cases haudio : par.codecType = .audio
      · have hstream : stream.isAudio = true := by simp [AVStream.isAudio, hpar, haudio]
        cases hmade : doTranscode i with
        | null => simp [firstFailure, walkStreams, hstream, hpar, haudio, hmade]
        | handle text =>
          cases text with
          | nil => simp [firstFailure, walkStreams, hstream, hpar, haudio, hmade]
          | cons b text =>
            simpa [firstFailure, walkStreams, describeAll, describeOne, hstream, hpar, haudio,
              hmade] using
              ih (i + 1) (describeStream names i stream par (setChromaprint i (b :: text) w))
      · have hstream : stream.isAudio = false := by simp [AVStream.isAudio, hpar, haudio]
        simpa [firstFailure, walkStreams, describeAll, describeOne, hstream, hpar, haudio] using
          ih (i + 1) (describeStream names i stream par w)

theorem returned_of_opened (names : LibavNames) (ctx : AVFormatContext)
    (doTranscode : ℕ → Transcoded) :
    (getMetadateFromFile names (.opened ctx) doTranscode).returned =
      match firstFailure doTranscode 0 ctx.streams with
      | none => match jsonDumps (describeAll names doTranscode 0 ctx.streams
          (describeFile ctx (setup allocated ctx.streams.length))).heap .json with
        | none => some .null
        | some json => some (.heap json)
      | some .null => none
      | some (.handle _) => some .emptyLiteral := by
  have hspec := walkStreams_spec names doTranscode 0 ctx.streams
    (describeFile ctx (setup allocated ctx.streams.length))
  cases hfail : firstFailure doTranscode 0 ctx.streams with
  | none =>
    simp only [hfail] at hspec
    simp only [getMetadateFromFile, hspec]
    cases jsonDumps (describeAll names doTranscode 0 ctx.streams
      (describeFile ctx (setup allocated ctx.streams.length))).heap .json <;> rfl
  | some made =>
    cases made with
    | null =>
      simp only [hfail] at hspec
      obtain ⟨w, hw⟩ := hspec
      simp [getMetadateFromFile, hw]
    | handle text =>
      simp only [hfail] at hspec
      obtain ⟨w, hw⟩ := hspec
      simp [getMetadateFromFile, hw]

/-- The process dies where the first missing fingerprint is a null pointer. -/
theorem returned_eq_none_iff (names : LibavNames) (opening : Opening)
    (doTranscode : ℕ → Transcoded) :
    (getMetadateFromFile names opening doTranscode).returned = none ↔
      firstFailure doTranscode 0 opening.streams = some .null := by
  cases opening with
  | openFailed => simp [getMetadateFromFile, Opening.streams, firstFailure]
  | noStreamInfo => simp [getMetadateFromFile, Opening.streams, firstFailure]
  | opened ctx =>
    rw [returned_of_opened, Opening.streams]
    cases firstFailure doTranscode 0 ctx.streams with
    | none => cases jsonDumps (describeAll names doTranscode 0 ctx.streams
        (describeFile ctx (setup allocated ctx.streams.length))).heap .json <;> simp
    | some made => cases made <;> simp

theorem firstFailure_eq_none_iff (doTranscode : ℕ → Transcoded) (i : ℕ)
    (streams : List AVStream) :
    firstFailure doTranscode i streams = none ↔
      ∀ (k : ℕ) (s : AVStream), streams[k]? = some s → s.isAudio = true →
        ∃ b text, doTranscode (i + k) = .handle (b :: text) := by
  induction streams generalizing i with
  | nil => simp [firstFailure]
  | cons s streams ih =>
    have hcons : (∀ (k : ℕ) (t : AVStream), (s :: streams)[k]? = some t → t.isAudio = true →
        ∃ b text, doTranscode (i + k) = .handle (b :: text)) ↔
        (s.isAudio = true → ∃ b text, doTranscode i = .handle (b :: text)) ∧
          firstFailure doTranscode (i + 1) streams = none := by
      rw [ih]
      constructor
      · intro h
        refine ⟨h 0 s rfl, fun k t ht haudio => ?_⟩
        have hlater := h (k + 1) t (by simpa using ht) haudio
        rwa [← Nat.add_assoc, Nat.add_right_comm] at hlater
      · rintro ⟨hfirst, hrest⟩ k t ht haudio
        cases k with
        | zero =>
          obtain rfl : s = t := by simpa using ht
          exact hfirst haudio
        | succ k =>
          have hlater := hrest k t (by simpa using ht) haudio
          rwa [Nat.add_right_comm] at hlater
    rw [hcons, firstFailure]
    split_ifs with haudio
    · cases doTranscode i with
      | null => simp [haudio]
      | handle text => cases text <;> simp [haudio]
    · simp [haudio]

end AudioFS.Metadata
