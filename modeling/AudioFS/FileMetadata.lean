import AudioFS.GoJson
import Mathlib.Data.Rat.Defs

/-!
# `types.FileMetadata`

The metadata of one file as the Go side keeps it, its JSON form, and
`UnmarshalJSON`, which fills in the parts of a stream's time base that the
document left out. `SetString` of `big.Rat` is a parameter.
-/

namespace AudioFS.FileMetadata
open Json GoJson

structure Format where
  name : String := ""
  longName : String := ""
  mimeType : String := ""
  flags : Int64 := 0
  deriving DecidableEq

structure File where
  metadata : Option StringMap := none
  format : Format := {}
  startTime : Int64 := 0
  duration : Int64 := 0
  bitRate : Int64 := 0
  deriving DecidableEq

structure Codec where
  chLayout : String := ""
  type : String := ""
  name : String := ""
  codecTag : Int64 := 0
  bitRate : Int64 := 0
  bitsPerCodedSample : Int64 := 0
  bitsPerRawSample : Int64 := 0
  profile : Int64 := 0
  level : Int64 := 0
  width : Int64 := 0
  height : Int64 := 0
  bitsPerSample : Int64 := 0
  sampleRate : Int64 := 0
  frameSize : Int64 := 0
  blockAlign : Int64 := 0
  nbChannels : Int64 := 0
  profileName : String := ""
  deriving DecidableEq

structure Stream where
  metadata : Option StringMap := none
  codec : Codec := {}
  index : Int64 := 0
  nbFrames : Int64 := 0
  duration : Int64 := 0
  timeBaseNum : Int64 := 0
  timeBaseDen : Int64 := 0
  timeBase : Option ℚ := none
  chromaprint : String := ""
  deriving DecidableEq

structure Metadata where
  file : File := {}
  streams : Option (List Stream) := none
  deriving DecidableEq

/-! ## Decoding -/

def formatInto : Decoder Format := structInto fun members old => do
  return { name := ← decodeField "name" stringInto members old.name
           longName := ← decodeField "long_name" stringInto members old.longName
           mimeType := ← decodeField "mime_type" stringInto members old.mimeType
           flags := ← decodeField "flags" int64Into members old.flags }

def fileInto : Decoder File := structInto fun members old => do
  return { metadata := ← decodeField "metadata" mapInto members old.metadata
           format := ← decodeField "format" formatInto members old.format
           startTime := ← decodeField "start_time" int64Into members old.startTime
           duration := ← decodeField "duration" int64Into members old.duration
           bitRate := ← decodeField "bit_rate" int64Into members old.bitRate }

def codecInto : Decoder Codec := structInto fun members old => do
  return { chLayout := ← decodeField "ch_layout" stringInto members old.chLayout
           type := ← decodeField "type" stringInto members old.type
           name := ← decodeField "name" stringInto members old.name
           codecTag := ← decodeField "codec_tag" int64Into members old.codecTag
           bitRate := ← decodeField "bit_rate" int64Into members old.bitRate
           bitsPerCodedSample :=
            ← decodeField "bits_per_coded_sample" int64Into members old.bitsPerCodedSample
           bitsPerRawSample :=
            ← decodeField "bits_per_raw_sample" int64Into members old.bitsPerRawSample
           profile := ← decodeField "profile" int64Into members old.profile
           level := ← decodeField "level" int64Into members old.level
           width := ← decodeField "width" int64Into members old.width
           height := ← decodeField "height" int64Into members old.height
           bitsPerSample := ← decodeField "bits_per_sample" int64Into members old.bitsPerSample
           sampleRate := ← decodeField "sample_rate" int64Into members old.sampleRate
           frameSize := ← decodeField "frame_size" int64Into members old.frameSize
           blockAlign := ← decodeField "block_align" int64Into members old.blockAlign
           nbChannels := ← decodeField "nb_channels" int64Into members old.nbChannels
           profileName := ← decodeField "profile_name" stringInto members old.profileName }

def streamInto (setString : String → Option ℚ) : Decoder Stream :=
  structInto fun members old => do
    return { metadata := ← decodeField "metadata" mapInto members old.metadata
             codec := ← decodeField "codec" codecInto members old.codec
             index := ← decodeField "index" int64Into members old.index
             nbFrames := ← decodeField "nb_frames" int64Into members old.nbFrames
             duration := ← decodeField "duration" int64Into members old.duration
             timeBaseNum := ← decodeField "time_base_num" int64Into members old.timeBaseNum
             timeBaseDen := ← decodeField "time_base_den" int64Into members old.timeBaseDen
             timeBase := ← decodeField "time_base" (textInto setString) members old.timeBase
             chromaprint := ← decodeField "chromaprint" stringInto members old.chromaprint }

def metadataInto (setString : String → Option ℚ) : Decoder Metadata :=
  structInto fun members old => do
    return { file := ← decodeField "file" fileInto members old.file
             streams :=
              ← decodeField "streams" (sliceInto {} (streamInto setString)) members old.streams }

/-! ## Encoding -/

def Format.fields (f : Format) : List (String × Option Value) :=
  [("name", some (.string f.name)), ("long_name", some (.string f.longName)),
    ("mime_type", omitEmpty f.mimeType), ("flags", omitZero f.flags)]

def File.fields (f : File) : List (String × Option Value) :=
  [("metadata", some (encodeMap f.metadata)), ("format", some (encodeStruct f.format.fields)),
    ("start_time", omitZero f.startTime), ("duration", some (encodeInt64 f.duration)),
    ("bit_rate", omitZero f.bitRate)]

def Codec.fields (c : Codec) : List (String × Option Value) :=
  [("ch_layout", some (.string c.chLayout)), ("type", some (.string c.type)),
    ("name", some (.string c.name)), ("codec_tag", omitZero c.codecTag),
    ("bit_rate", omitZero c.bitRate), ("bits_per_coded_sample", omitZero c.bitsPerCodedSample),
    ("bits_per_raw_sample", omitZero c.bitsPerRawSample), ("profile", omitZero c.profile),
    ("level", omitZero c.level), ("width", omitZero c.width), ("height", omitZero c.height),
    ("bits_per_sample", omitZero c.bitsPerSample), ("sample_rate", omitZero c.sampleRate),
    ("frame_size", omitZero c.frameSize), ("block_align", omitZero c.blockAlign),
    ("nb_channels", some (encodeInt64 c.nbChannels)), ("profile_name", omitEmpty c.profileName)]

def Stream.fields (marshalText : ℚ → String) (s : Stream) : List (String × Option Value) :=
  [("metadata", some (encodeMap s.metadata)), ("codec", some (encodeStruct s.codec.fields)),
    ("index", some (encodeInt64 s.index)), ("nb_frames", some (encodeInt64 s.nbFrames)),
    ("duration", some (encodeInt64 s.duration)),
    ("time_base_num", some (encodeInt64 s.timeBaseNum)),
    ("time_base_den", some (encodeInt64 s.timeBaseDen)),
    ("time_base", some (encodeText marshalText s.timeBase)),
    ("chromaprint", omitEmpty s.chromaprint)]

def Metadata.fields (marshalText : ℚ → String) (f : Metadata) : List (String × Option Value) :=
  [("file", some (encodeStruct f.file.fields)),
    ("streams", some (encodeSlice (fun s => encodeStruct (s.fields marshalText)) f.streams))]

/-! ## What is encoded decodes to itself -/

theorem formatInto_encode (f : Format) : formatInto (encodeStruct f.fields) {} = some f := by
  have hd : Distinct (f.fields.map Prod.fst) := by
    simp only [Format.fields, List.map_cons, List.map_nil]
    decide
  simp only [formatInto, structInto, encodeStruct, decodeField_present hd]
  simp [Format.fields, List.lookup_cons, memberInto_omitZero, memberInto_omitEmpty, stringInto]

theorem fileInto_encode (f : File) : fileInto (encodeStruct f.fields) {} = some f := by
  have hd : Distinct (f.fields.map Prod.fst) := by
    simp only [File.fields, List.map_cons, List.map_nil]
    decide
  simp only [fileInto, structInto, encodeStruct, decodeField_present hd]
  simp [File.fields, List.lookup_cons, memberInto_omitZero, mapInto_encode, formatInto_encode,
    int64Into_encode]

theorem codecInto_encode (c : Codec) : codecInto (encodeStruct c.fields) {} = some c := by
  have hd : Distinct (c.fields.map Prod.fst) := by
    simp only [Codec.fields, List.map_cons, List.map_nil]
    decide
  simp only [codecInto, structInto, encodeStruct, decodeField_present hd]
  simp [Codec.fields, List.lookup_cons, memberInto_omitZero, memberInto_omitEmpty, stringInto,
    int64Into_encode]

section
variable {setString : String → Option ℚ} {marshalText : ℚ → String}

theorem streamInto_encode (h : ∀ q, setString (marshalText q) = some q) (s : Stream) :
    streamInto setString (encodeStruct (s.fields marshalText)) {} = some s := by
  have hd : Distinct ((s.fields marshalText).map Prod.fst) := by
    simp only [Stream.fields, List.map_cons, List.map_nil]
    decide
  simp only [streamInto, structInto, encodeStruct, decodeField_present hd]
  simp [Stream.fields, List.lookup_cons, memberInto_omitEmpty, mapInto_encode, codecInto_encode,
    int64Into_encode, textInto_encode h]

theorem metadataInto_encode (h : ∀ q, setString (marshalText q) = some q) (f : Metadata) :
    metadataInto setString (encodeStruct (f.fields marshalText)) {} = some f := by
  have hd : Distinct ((f.fields marshalText).map Prod.fst) := by
    simp only [Metadata.fields, List.map_cons, List.map_nil]
    decide
  simp only [metadataInto, structInto, encodeStruct, decodeField_present hd]
  simp [Metadata.fields, List.lookup_cons, fileInto_encode,
    sliceInto_encode (streamInto_encode h)]

end

/-! ## `UnmarshalJSON` -/

/-- `big.NewRat`. -/
def newRat (num den : Int64) : ℚ := (num.toInt : ℚ) / (den.toInt : ℚ)

/-- A part that is not there is taken from the time base; `Int64` of a `big.Int` keeps the low
64 bits. -/
def filledPart (part : Int64) (own : ℤ) : Int64 := if part = 0 then Int64.ofInt own else part

def Stream.fillParts (s : Stream) (q : ℚ) : Stream :=
  { s with timeBaseNum := filledPart s.timeBaseNum q.num
           timeBaseDen := filledPart s.timeBaseDen q.den }

def Stream.fillTimeBase (s : Stream) : Stream :=
  match s.timeBase with
  | some q => s.fillParts q
  | none =>
    if s.timeBaseDen = 0 then s
    else
      let q := newRat s.timeBaseNum s.timeBaseDen
      { s with timeBase := some q }.fillParts q

def Metadata.fillTimeBase (f : Metadata) : Metadata :=
  { f with streams := f.streams.map fun streams => streams.map Stream.fillTimeBase }

/-- `json.Unmarshal` into the type without the method. -/
def unmarshalPlain (setString : String → Option ℚ) (data : List UInt8) : Option Metadata :=
  (unmarshal data).bind fun v => metadataInto setString v {}

def unmarshalJSON (setString : String → Option ℚ) (data : List UInt8) : Option Metadata :=
  (unmarshalPlain setString data).map Metadata.fillTimeBase

/-- `json.Marshal`; the type has no `MarshalJSON`. -/
def marshalJSON (marshalText : ℚ → String) (f : Metadata) : List UInt8 :=
  marshal (encodeStruct (f.fields marshalText))

theorem unmarshalPlain_marshalJSON {setString : String → Option ℚ} {marshalText : ℚ → String}
    (h : ∀ q, setString (marshalText q) = some q) (f : Metadata) :
    unmarshalPlain setString (marshalJSON marshalText f) = some f := by
  rw [unmarshalPlain, marshalJSON, unmarshal_marshal, Option.bind_some, metadataInto_encode h]

theorem filledPart_idem (part : Int64) (own : ℤ) :
    filledPart (filledPart part own) own = filledPart part own := by
  unfold filledPart
  split_ifs <;> rfl

theorem fillParts_idem (s : Stream) (q : ℚ) : (s.fillParts q).fillParts q = s.fillParts q := by
  simp only [Stream.fillParts, filledPart_idem]

theorem fillTimeBase_idem (s : Stream) : s.fillTimeBase.fillTimeBase = s.fillTimeBase := by
  have hfilled (s : Stream) (q : ℚ) (h : s.timeBase = some q) :
      s.fillTimeBase = s.fillParts q := by
    simp [Stream.fillTimeBase, h]
  cases htb : s.timeBase with
  | some q =>
    rw [hfilled s q htb, hfilled (s.fillParts q) q htb, fillParts_idem]
  | none =>
    by_cases hd : s.timeBaseDen = 0
    · have hskip : s.fillTimeBase = s := by simp [Stream.fillTimeBase, htb, hd]
      rw [hskip, hskip]
    · have hset : s.fillTimeBase = { s with timeBase := some (newRat s.timeBaseNum s.timeBaseDen)
          }.fillParts (newRat s.timeBaseNum s.timeBaseDen) := by
        simp [Stream.fillTimeBase, htb, hd]
      rw [hset, hfilled _ _ rfl, fillParts_idem]

theorem Metadata.fillTimeBase_idem (f : Metadata) : f.fillTimeBase.fillTimeBase = f.fillTimeBase := by
  simp [Metadata.fillTimeBase, Function.comp_def, FileMetadata.fillTimeBase_idem]

end AudioFS.FileMetadata
