import AudioFS.BigRat
import AudioFS.FileMetadata

/-!
# `CompressedJSON.go`

The exported metadata: JSON, compressed by the configured algorithm. The zstd
codec is a parameter; a document that was read can be written and read again.
-/

namespace AudioFS.CompressedJson
open Json GoJson BigRat AudioFS.FileMetadata

structure Zstd where
  encodeAll : ℤ → List UInt8 → List UInt8
  decodeAll : List UInt8 → Option (List UInt8)

def Zstd.Lossless (z : Zstd) : Prop := ∀ level input, z.decodeAll (z.encodeAll level input) = some input

/-- The algorithms of the `switch` statements, and those that leave the JSON as it is. -/
def supported : List String := ["zstd", "none", ""]

section
variable {α : Type}

/-- `json` is how `json.Unmarshal` reads the type that is passed in. -/
def unmarshallCompressedWithAlgo (z : Zstd) (json : List UInt8 → Option α) (algo : String)
    (input : List UInt8) : Option α :=
  if algo = "zstd" then (z.decodeAll input).bind json
  else if algo = "none" ∨ algo = "" then json input
  else none

def marshallCompressedWithAlgo (z : Zstd) (json : α → List UInt8) (algo : String) (level : ℤ)
    (v : α) : Option (List UInt8) :=
  let buf := json v
  if algo = "zstd" then some (z.encodeAll level buf)
  else if algo = "none" ∨ algo = "" then some buf
  else none

/-- What the JSON forms keep, every algorithm keeps. -/
theorem unmarshall_marshall {z : Zstd} (hz : z.Lossless) {read : List UInt8 → Option α}
    {write : α → List UInt8} {v : α} (hjson : read (write v) = some v) {algo : String}
    (halgo : algo ∈ supported) (level : ℤ) :
    ∃ bytes, marshallCompressedWithAlgo z write algo level v = some bytes ∧
      unmarshallCompressedWithAlgo z read algo bytes = some v := by
  by_cases hzstd : algo = "zstd"
  · refine ⟨z.encodeAll level (write v), by simp [marshallCompressedWithAlgo, hzstd], ?_⟩
    rw [unmarshallCompressedWithAlgo, if_pos hzstd, hz, Option.bind_some, hjson]
  · have hplain : algo = "none" ∨ algo = "" := by simpa [supported, hzstd] using halgo
    refine ⟨write v, ?_, ?_⟩
    · rw [marshallCompressedWithAlgo, if_neg hzstd, if_pos hplain]
    · rw [unmarshallCompressedWithAlgo, if_neg hzstd, if_pos hplain, hjson]

theorem unsupported_refused (z : Zstd) (read : List UInt8 → Option α) (write : α → List UInt8)
    {algo : String} (halgo : algo ∉ supported) (level : ℤ) (v : α) (input : List UInt8) :
    marshallCompressedWithAlgo z write algo level v = none ∧
      unmarshallCompressedWithAlgo z read algo input = none := by
  have hzstd : algo ≠ "zstd" := fun h => halgo (by simp [supported, h])
  have hplain : ¬ (algo = "none" ∨ algo = "") := by
    rintro (rfl | rfl) <;> exact halgo (by decide)
  exact ⟨by rw [marshallCompressedWithAlgo, if_neg hzstd, if_neg hplain],
    by rw [unmarshallCompressedWithAlgo, if_neg hzstd, if_neg hplain]⟩

end

/-- Metadata that was read from a document has nothing left to fill in. -/
theorem unmarshalJSON_marshalJSON {setString : String → Option ℚ} (hs : ReadsBack setString)
    {data : List UInt8} {f : Metadata} (hread : unmarshalJSON setString data = some f) :
    unmarshalJSON setString (marshalJSON marshalText f) = some f := by
  obtain ⟨plain, -, rfl⟩ := Option.map_eq_some_iff.mp hread
  rw [unmarshalJSON, unmarshalPlain_marshalJSON hs, Option.map_some, Metadata.fillTimeBase_idem]

/-- Metadata that was read from a document survives being written and read again under every
supported algorithm and level; every other algorithm is an error both ways. -/
theorem metadata_round_trip {z : Zstd} (hz : z.Lossless) {setString : String → Option ℚ}
    (hs : ReadsBack setString) {data : List UInt8} {f : Metadata}
    (hread : unmarshalJSON setString data = some f) (algo : String) (level : ℤ) :
    (algo ∈ supported → ∃ bytes,
      marshallCompressedWithAlgo z (marshalJSON marshalText) algo level f = some bytes ∧
      unmarshallCompressedWithAlgo z (unmarshalJSON setString) algo bytes = some f) ∧
    (algo ∉ supported → ∀ input,
      marshallCompressedWithAlgo z (marshalJSON marshalText) algo level f = none ∧
      unmarshallCompressedWithAlgo z (unmarshalJSON setString) algo input = none) :=
  ⟨fun halgo => unmarshall_marshall hz (unmarshalJSON_marshalJSON hs hread) halgo level,
    fun halgo input => unsupported_refused z (unmarshalJSON setString) (marshalJSON marshalText)
      halgo level f input⟩

def stored : Zstd := ⟨fun _ input => input, some⟩

/-- A stream as an MP3 decoder reports it: the time base is not reduced. -/
def unreduced : Metadata :=
  { file := { format := { name := "mp3", longName := "MP2/3 (MPEG audio layer 2/3)" },
              duration := 2000000 },
    streams := some [{ index := 0, timeBaseNum := 2, timeBaseDen := 96000,
                       timeBase := some (1 / 48000) }] }

theorem unreduced_round_trip :
    ∃ bytes, marshallCompressedWithAlgo stored (marshalJSON marshalText) "none" 3 unreduced
        = some bytes ∧
      unmarshallCompressedWithAlgo stored (unmarshalJSON decimalSetString) "none" bytes
        = some unreduced := by
  have hread : unmarshalJSON decimalSetString (marshalJSON marshalText unreduced)
      = some unreduced := by
    rw [unmarshalJSON, unmarshalPlain_marshalJSON decimalSetString_readsBack]
    decide +kernel
  exact (metadata_round_trip (fun _ _ => rfl) decimalSetString_readsBack hread "none" 3).1
    (by decide)

/-! ## Under another algorithm -/

/-- The framing of the format: frames start with a magic number, and a decoder refuses data that
starts neither with the first byte of a frame nor with that of a skippable one. -/
structure Zstd.Framed (z : Zstd) : Prop where
  starts : ∀ level input, input ≠ [] → ∃ rest, z.encodeAll level input = 40 :: rest
  refuses : ∀ b rest, b ≠ 40 → ¬ (80 ≤ b ∧ b ≤ 95) → z.decodeAll (b :: rest) = none

/-- No JSON value starts like a frame. -/
theorem unmarshal_frame (rest : List UInt8) : unmarshal (40 :: rest) = none := by
  have hrunes : Utf8.runes (40 :: rest) = '(' :: Utf8.runes rest := Utf8.runes_encodeChar '(' rest
  have hnumeral : parseNumeral ('(' :: Utf8.runes rest) = none := by
    have hwhole : (parseSign ('(' :: Utf8.runes rest)).2.takeWhile Char.isDigit = [] := rfl
    simp only [parseNumeral, hwhole, true_or, if_true]
  have hwhite : skipWhite ('(' :: Utf8.runes rest) = '(' :: Utf8.runes rest := rfl
  rw [unmarshal, hrunes, parse, List.length_cons, parseValue, hwhite]
  simp [hnumeral]

theorem marshalJSON_cons (marshalText : ℚ → String) (f : Metadata) :
    ∃ rest, marshalJSON marshalText f = 123 :: rest := by
  rw [marshalJSON, marshal, encodeStruct, Json.print, Utf8.encode_cons]
  exact ⟨_, rfl⟩

/-- What one supported algorithm wrote, another one reads as the same metadata when both compress
or neither does, and as an error otherwise. -/
theorem read_under_other {z : Zstd} (hz : z.Lossless) (hframes : z.Framed)
    {setString : String → Option ℚ} (hs : ReadsBack setString) {data : List UInt8} {f : Metadata}
    (hread : unmarshalJSON setString data = some f) {algo algo' : String}
    (halgo : algo ∈ supported) (halgo' : algo' ∈ supported) (level : ℤ) :
    ∃ bytes, marshallCompressedWithAlgo z (marshalJSON marshalText) algo level f = some bytes ∧
      unmarshallCompressedWithAlgo z (unmarshalJSON setString) algo' bytes =
        if algo = "zstd" ↔ algo' = "zstd" then some f else none := by
  have hsame := unmarshalJSON_marshalJSON hs hread
  obtain ⟨rest, hjson⟩ := marshalJSON_cons marshalText f
  have hplain {algo : String} (h : algo ∈ supported) (hzstd : algo ≠ "zstd") :
      algo = "none" ∨ algo = "" := by
    simpa [supported, hzstd] using h
  by_cases hzstd : algo = "zstd"
  · refine ⟨z.encodeAll level (marshalJSON marshalText f), by
      rw [marshallCompressedWithAlgo, if_pos hzstd], ?_⟩
    by_cases hzstd' : algo' = "zstd"
    · rw [unmarshallCompressedWithAlgo, if_pos hzstd', hz, Option.bind_some, hsame,
        if_pos (iff_of_true hzstd hzstd')]
    · obtain ⟨frame, hframe⟩ := hframes.starts level (marshalJSON marshalText f) (by simp [hjson])
      rw [unmarshallCompressedWithAlgo, if_neg hzstd', if_pos (hplain halgo' hzstd'), hframe,
        if_neg fun h => hzstd' (h.mp hzstd), unmarshalJSON, unmarshalPlain, unmarshal_frame]
      rfl
  · refine ⟨marshalJSON marshalText f, by
      rw [marshallCompressedWithAlgo, if_neg hzstd, if_pos (hplain halgo hzstd)], ?_⟩
    by_cases hzstd' : algo' = "zstd"
    · rw [unmarshallCompressedWithAlgo, if_pos hzstd', if_neg fun h => hzstd (h.mpr hzstd'), hjson,
        hframes.refuses 123 rest (by decide) (by decide)]
      rfl
    · rw [unmarshallCompressedWithAlgo, if_neg hzstd', if_pos (hplain halgo' hzstd'), hsame,
        if_pos (iff_of_false hzstd hzstd')]

/-- Stored frames. -/
def framed : Zstd where
  encodeAll _ input := 40 :: input
  decodeAll
    | 40 :: input => some input
    | _ => none

theorem framed_framed : framed.Framed where
  starts _ input _ := ⟨input, rfl⟩
  refuses b rest hb _ := by
    simp only [framed]
    split
    · rename_i input heq
      exact absurd (List.cons.inj heq).1 hb
    · rfl

/-- An export from before compression was switched on is not read any more. -/
theorem unreduced_read_as_zstd :
    ∃ bytes, marshallCompressedWithAlgo framed (marshalJSON marshalText) "none" 3 unreduced
        = some bytes ∧
      unmarshallCompressedWithAlgo framed (unmarshalJSON decimalSetString) "zstd" bytes = none := by
  have hread : unmarshalJSON decimalSetString (marshalJSON marshalText unreduced)
      = some unreduced := by
    rw [unmarshalJSON, unmarshalPlain_marshalJSON decimalSetString_readsBack]
    decide +kernel
  obtain ⟨bytes, hwrite, hother⟩ := read_under_other (fun _ _ => rfl) framed_framed
    decimalSetString_readsBack hread (show "none" ∈ supported by decide)
    (show "zstd" ∈ supported by decide) 3
  exact ⟨bytes, hwrite, hother.trans (if_neg (by decide))⟩

end AudioFS.CompressedJson
