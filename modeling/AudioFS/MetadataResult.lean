import AudioFS.GoJson
import AudioFS.MetadataDocument
import AudioFS.MetadataNodes

/-!
# What the callers are given

The callers take the result for a null pointer or for a document they can parse
and free. That holds as long as every audio stream got a fingerprint and the heap
tolerates the streams behind the empty tables.
-/

namespace AudioFS.Metadata
open Json Jansson

/-- The document as the callers parse it, with what they print behind it. -/
theorem unmarshal_returnedText (names : LibavNames) (doTranscode : ℕ → Transcoded)
    (ctx : AVFormatContext) {white : List Char} (hwhite : ∀ c ∈ white, isWhite c = true) :
    GoJson.unmarshal (returnedText names doTranscode ctx ++ Utf8.encode white) =
      some (.object (document names doTranscode ctx)) := by
  rw [GoJson.unmarshal, returnedText, Utf8.runes_encode_append, Utf8.runes_encode,
    parse_print lawful_janssonEscape _ hwhite]

/-! ## The parts of the document by name -/

theorem lookup_parts {k₁ k₂ : String} {v₁ v₂ : Value} (fields : List (String × Option Value))
    (key : String) :
    (((SortedMap.empty.insert k₁ v₁).insert k₂ v₂).insertAll (present fields)).entries.lookup key =
      fields.foldl (fun found f => if key = f.1 then f.2.or found else found)
        (if key = k₂ then some v₂ else if key = k₁ then some v₁ else none) := by
  have hfirst := SortedMap.get?_insert SortedMap.empty k₁ v₁ key
  have hsecond := SortedMap.get?_insert (SortedMap.empty.insert k₁ v₁) k₂ v₂ key
  rw [hfirst] at hsecond
  have hparts : ((SortedMap.empty.insert k₁ v₁).insert k₂ v₂).entries.lookup key =
    if key = k₂ then some v₂ else if key = k₁ then some v₁ else none := hsecond
  rw [lookup_insertAll_present, hparts]

section
variable (names : LibavNames) (doTranscode : ℕ → Transcoded)

theorem document_file (ctx : AVFormatContext) :
    (document names doTranscode ctx).lookup "file" = some (.object (fileEntry ctx)) :=
  lookup_parts [] "file"

theorem document_streams (ctx : AVFormatContext) :
    (document names doTranscode ctx).lookup "streams" = some (.array
      (ctx.streams.mapIdx fun i s => .object (streamEntry names doTranscode i s))) :=
  lookup_parts [] "streams"

theorem streamEntry_lookup (i : ℕ) {s : AVStream} {par : AVCodecParameters}
    (hpar : s.codecpar = some par) {key : String} (hkey : key ≠ "chromaprint") :
    (streamEntry names doTranscode i s).lookup key =
      (streamFields s).foldl (fun found f => if key = f.1 then f.2.or found else found)
        (if key = "codec" then some (leavesValue (codecFields names par))
          else if key = "metadata" then some (leavesValue (tagFields s.metadata)) else none) := by
  have hchromaprint : ∀ found : Option Value,
      (if s.isAudio then chromaprintFields (doTranscode i) else []).foldl
        (fun found f => if key = f.1 then f.2.or found else found) found = found := by
    intro found
    split_ifs
    · cases doTranscode i with
      | null => rfl
      | handle text => simp [chromaprintFields, hkey]
    · rfl
  simp only [streamEntry, lookup_parts, streamLeaves, codecLeaves, tagLeaves, hpar,
    List.foldl_append, hchromaprint]

theorem streamEntry_lookup_none (i : ℕ) {s : AVStream} (hpar : s.codecpar = none)
    (key : String) :
    (streamEntry names doTranscode i s).lookup key =
      if key = "codec" then some (leavesValue [])
      else if key = "metadata" then some (leavesValue []) else none := by
  simp only [streamEntry, lookup_parts, streamLeaves, codecLeaves, tagLeaves, hpar,
    List.foldl_nil]

end

/-! ## All or nothing -/

/-- An entry of the document about the stream `s`. -/
structure IsEntry (s : AVStream) (members : List (String × Value)) : Prop where
  metadata : ∃ tags, members.lookup "metadata" = some (.object tags)
  codec : ∃ codec, members.lookup "codec" = some (.object codec)
  index : s.codecpar ≠ none → members.lookup "index" = some (.int s.index.toInt)

/-- A JSON document about the file, with one entry for each stream. -/
def IsDocument (streams : List AVStream) (text : List UInt8) : Prop :=
  ∃ doc file entries, GoJson.unmarshal text = some (.object doc) ∧
    doc.lookup "file" = some (.object file) ∧
    doc.lookup "streams" = some (.array (entries.map .object)) ∧
    List.Forall₂ IsEntry streams entries

/-- The process lives through the call, and what it returns can be told apart by a null check,
parsed and freed. -/
def AllOrNothing (streams : List AVStream) (returned : Option Returned) : Prop :=
  returned = some .null ∨ ∃ text, returned = some (.heap text) ∧ IsDocument streams text

theorem streamEntry_isEntry (names : LibavNames) (doTranscode : ℕ → Transcoded) (i : ℕ)
    (s : AVStream) : IsEntry s (streamEntry names doTranscode i s) := by
  cases hpar : s.codecpar with
  | none =>
    have hlookup := streamEntry_lookup_none names doTranscode i hpar
    exact ⟨⟨_, hlookup "metadata"⟩, ⟨_, hlookup "codec"⟩, fun h => absurd hpar h⟩
  | some par =>
    have hlookup (key : String) (hkey : key ≠ "chromaprint") :=
      streamEntry_lookup names doTranscode i hpar hkey
    refine ⟨⟨(SortedMap.empty.insertAll (present (tagFields s.metadata))).entries, ?_⟩,
      ⟨(SortedMap.empty.insertAll (present (codecFields names par))).entries, ?_⟩, fun _ => ?_⟩
    · rw [hlookup "metadata" (by simp)]
      rfl
    · rw [hlookup "codec" (by simp)]
      rfl
    · rw [hlookup "index" (by simp)]
      rfl

theorem forall₂_mapIdx {α β : Type} {r : α → β → Prop} {f : ℕ → α → β}
    (h : ∀ i a, r a (f i a)) (as : List α) : List.Forall₂ r as (as.mapIdx f) := by
  induction as generalizing f with
  | nil => exact .nil
  | cons a as ih =>
    rw [List.mapIdx_cons]
    exact .cons (h 0 a) (ih fun i => h (i + 1))

theorem returnedText_isDocument (names : LibavNames) (doTranscode : ℕ → Transcoded)
    (ctx : AVFormatContext) : IsDocument ctx.streams (returnedText names doTranscode ctx) := by
  have hparsed := unmarshal_returnedText names doTranscode ctx (List.forall_mem_nil _)
  rw [Utf8.encode_nil, List.append_nil] at hparsed
  refine ⟨_, _, ctx.streams.mapIdx (streamEntry names doTranscode), hparsed,
    document_file names doTranscode ctx, ?_,
    forall₂_mapIdx (streamEntry_isEntry names doTranscode) ctx.streams⟩
  rw [document_streams]
  simp [List.mapIdx_eq_zipIdx_map]

/-- The result is all or nothing exactly for files that cannot be read, and for files whose audio
streams all get a fingerprint and whose streams all find room behind the tables. -/
theorem allOrNothing_iff (names : LibavNames) (opening : Opening) (doTranscode : ℕ → Transcoded)
    (room : ℕ) :
    AllOrNothing opening.streams ((getMetadateFromFile names opening doTranscode).outcome room) ↔
      opening.streams.length ≤ room ∧
        ∀ (i : ℕ) (s : AVStream), opening.streams[i]? = some s → s.isAudio = true →
          ∃ b text, doTranscode i = .handle (b :: text) := by
  have hfailure := firstFailure_eq_none_iff doTranscode 0 opening.streams
  simp only [Nat.zero_add] at hfailure
  rw [← hfailure, outcome_eq]
  by_cases hroom : opening.streams.length ≤ room
  · rw [if_pos hroom, and_iff_right hroom]
    cases opening with
    | openFailed => simp [AllOrNothing, getMetadateFromFile, Opening.streams, firstFailure]
    | noStreamInfo => simp [AllOrNothing, getMetadateFromFile, Opening.streams, firstFailure]
    | opened ctx =>
      have hdocument := returnedText_isDocument names doTranscode ctx
      rw [returned_eq, Opening.streams]
      cases firstFailure doTranscode 0 ctx.streams with
      | none => simpa [AllOrNothing] using hdocument
      | some made => cases made <;> simp [AllOrNothing]
  · simp [AllOrNothing, hroom]

def unheard : AVFormatContext where
  iformat := ⟨none, none, none, 0⟩
  startTime := 0
  duration := 0
  bitRate := 0
  metadata := []
  streams := [⟨0, 0, 0, ⟨1, 48000⟩, [],
    some ⟨.audio, 0, 0, 0, 0, 0, 0, 0, 0, 0, 48000, 0, 0, ⟨0, 2, 3⟩⟩⟩]

/-- The process dies without a handle, and the callers get a string literal for an empty one. -/
theorem unheard_not_all_or_nothing :
    ¬ AllOrNothing unheard.streams
        ((getMetadateFromFile namelessLibav (.opened unheard) fun _ => .null).outcome 3) ∧
      ¬ AllOrNothing unheard.streams
        ((getMetadateFromFile namelessLibav (.opened unheard) fun _ => .handle []).outcome 3) := by
  have hdies : (getMetadateFromFile namelessLibav (.opened unheard) fun _ => .null).outcome 3 =
      none := (outcome_eq _ _ _ _).trans (returned_eq _ _ _)
  have hliteral : (getMetadateFromFile namelessLibav (.opened unheard)
      fun _ => .handle []).outcome 3 = some .emptyLiteral :=
    (outcome_eq _ _ _ _).trans (returned_eq _ _ _)
  rw [hdies, hliteral]
  exact ⟨by simp [AllOrNothing], by simp [AllOrNothing]⟩

end AudioFS.Metadata
