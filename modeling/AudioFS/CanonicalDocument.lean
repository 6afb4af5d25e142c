import AudioFS.MetadataHop
import AudioFS.MetadataNodes

/-!
# The document as a canonical form

Objects are dumped with their keys sorted, so the order in which libav lists the
tags does not show. Of containers that differ in nothing but their tags, two get
the same text exactly when each dictionary of the one is a rearrangement of the
other's.
-/

namespace AudioFS.Metadata
open Json Jansson FileMetadata

def AVStream.untagged (s : AVStream) : AVStream := { s with metadata := [] }

/-- Everything but the tags. -/
def AVFormatContext.untagged (ctx : AVFormatContext) : AVFormatContext :=
  { ctx with metadata := [], streams := ctx.streams.map AVStream.untagged }

theorem codecpar_of_untagged {s s' : AVStream} (h : s.untagged = s'.untagged) :
    s.codecpar = s'.codecpar :=
  show s.untagged.codecpar = s'.untagged.codecpar by rw [h]

theorem streams_of_untagged {ctx ctx' : AVFormatContext} (h : ctx.untagged = ctx'.untagged) :
    List.Forall₂ (fun s s' => s.untagged = s'.untagged) ctx.streams ctx'.streams := by
  have hmap : ctx.streams.map AVStream.untagged = ctx'.streams.map AVStream.untagged :=
    congrArg AVFormatContext.streams h
  rwa [← List.forall₂_eq_eq_eq, List.forall₂_map_left_iff, List.forall₂_map_right_iff] at hmap

/-- The tags of a stream without codec parameters are not read. -/
def SameTagMap (s s' : AVStream) : Prop :=
  s.codecpar = none ∨ tagMap s.metadata = tagMap s'.metadata

theorem leavesValue_tagFields (tags : AVDictionary) :
    leavesValue (tagFields tags) = .object ((tagMap tags).mapValues .string).entries := by
  rw [leavesValue, present_tagFields, tagMap, SortedMap.mapValues_insertAll,
    SortedMap.mapValues_empty]

section
variable (names : LibavNames) (doTranscode : ℕ → Transcoded)

theorem streamEntry_congr (i : ℕ) {s s' : AVStream} (h : s.untagged = s'.untagged)
    (htags : SameTagMap s s') :
    streamEntry names doTranscode i s = streamEntry names doTranscode i s' := by
  obtain ⟨index, nbFrames, duration, timeBase, tags, codecpar⟩ := s
  obtain ⟨index', nbFrames', duration', timeBase', tags', codecpar'⟩ := s'
  simp only [AVStream.untagged, AVStream.mk.injEq, true_and] at h
  obtain ⟨rfl, rfl, rfl, rfl, rfl⟩ := h
  cases codecpar with
  | none => rfl
  | some par =>
    have hmap : tagMap tags = tagMap tags' := htags.resolve_left (by simp)
    have hleaves : leavesValue (tagFields tags) = leavesValue (tagFields tags') := by
      rw [leavesValue_tagFields, leavesValue_tagFields, hmap]
    simp only [streamEntry, tagLeaves, hleaves]
    rfl

theorem mapIdx_congr_forall₂ {α β : Type} {R : α → α → Prop} {f : ℕ → α → β}
    (hf : ∀ i a a', R a a' → f i a = f i a') {as as' : List α} (h : List.Forall₂ R as as') :
    as.mapIdx f = as'.mapIdx f := by
  induction h generalizing f with
  | nil => rfl
  | cons hhead _ ih =>
    rw [List.mapIdx_cons, List.mapIdx_cons, hf 0 _ _ hhead, ih fun i a a' => hf (i + 1) a a']

theorem forall₂_of_mapIdx_eq {α β γ : Type} {f : ℕ → α → β} {g : β → γ} {as as' : List α}
    (h : (as.mapIdx f).map g = (as'.mapIdx f).map g) :
    List.Forall₂ (fun a a' => ∃ i, g (f i a) = g (f i a')) as as' := by
  induction as generalizing as' f with
  | nil =>
    obtain rfl : as' = [] := by simpa using h.symm
    exact .nil
  | cons a as ih =>
    cases as' with
    | nil => simp at h
    | cons a' as' =>
      rw [List.mapIdx_cons, List.mapIdx_cons, List.map_cons, List.map_cons, List.cons.injEq] at h
      exact .cons ⟨0, h.1⟩ ((ih h.2).imp fun _ _ ⟨i, hi⟩ => ⟨i + 1, hi⟩)

theorem fillTimeBase_metadata (s : Stream) : s.fillTimeBase.metadata = s.metadata := by
  unfold Stream.fillTimeBase
  split
  · rfl
  · split_ifs <;> rfl

theorem streamOf_metadata (i : ℕ) {s : AVStream} (h : s.codecpar ≠ none) :
    (streamOf names doTranscode i s).fillTimeBase.metadata = some (tagMap s.metadata) := by
  rw [fillTimeBase_metadata, streamOf]
  cases hpar : s.codecpar with
  | none => exact absurd hpar h
  | some par => rfl

/-- Of containers that differ in their tags only, the texts are the same exactly when the maps of
their tags are. -/
theorem returnedText_eq_iff_tagMap {ctx ctx' : AVFormatContext} (h : ctx.untagged = ctx'.untagged) :
    returnedText names doTranscode ctx = returnedText names doTranscode ctx' ↔
      tagMap ctx.metadata = tagMap ctx'.metadata ∧
        List.Forall₂ SameTagMap ctx.streams ctx'.streams := by
  have hstreams := streams_of_untagged h
  constructor
  · intro htext
    have hread := congrArg (unmarshalJSON fun _ => none) htext
    rw [unmarshalJSON_bareText, unmarshalJSON_bareText, Option.some.injEq] at hread
    refine ⟨Option.some.inj (congrArg (fun f => f.file.metadata) hread), ?_⟩
    have hlists := Option.some.inj (congrArg FileMetadata.Metadata.streams hread)
    refine hstreams.mp (fun s s' hs ⟨i, hi⟩ => ?_) (forall₂_of_mapIdx_eq hlists)
    by_cases hpar : s.codecpar = none
    · exact .inl hpar
    · have hpar' : s'.codecpar ≠ none := codecpar_of_untagged hs ▸ hpar
      have hmetadata := congrArg Stream.metadata hi
      rw [streamOf_metadata names doTranscode i hpar, streamOf_metadata names doTranscode i hpar',
        Option.some.injEq] at hmetadata
      exact .inr hmetadata
  · rintro ⟨hfile, htags⟩
    have hentries :
        (ctx.streams.mapIdx fun i s => Value.object (streamEntry names doTranscode i s)) =
          ctx'.streams.mapIdx fun i s => Value.object (streamEntry names doTranscode i s) :=
      mapIdx_congr_forall₂ (R := fun s s' => s.untagged = s'.untagged ∧ SameTagMap s s')
        (fun i s s' hs => by rw [streamEntry_congr names doTranscode i hs.1 hs.2])
        (hstreams.mp (fun _ _ hs htags => ⟨hs, htags⟩) htags)
    have hleaves :
        leavesValue (tagFields ctx.metadata) = leavesValue (tagFields ctx'.metadata) := by
      rw [leavesValue_tagFields, leavesValue_tagFields, hfile]
    have hdocument : document names doTranscode ctx = document names doTranscode ctx' := by
      have hfields : fileFields ctx = fileFields ctx' :=
        show fileFields ctx.untagged = fileFields ctx'.untagged by rw [h]
      have hformat : formatFields ctx.iformat = formatFields ctx'.iformat :=
        show formatFields ctx.untagged.iformat = formatFields ctx'.untagged.iformat by rw [h]
      rw [document, document, hentries, fileEntry, fileEntry, hleaves, hfields, hformat]
    rw [returnedText, returnedText, hdocument]

end

/-- A dictionary as libav fills it from a file whose tags are text. -/
structure WellTagged (tags : AVDictionary) : Prop where
  distinct : KeysDistinct tags
  textual : Textual tags

theorem WellTagged.nodup {tags : AVDictionary} (h : WellTagged tags) :
    ((tagTexts tags).map Prod.fst).Nodup := by
  refine List.Nodup.of_map (fun key => Utf8.encode key.toList) ?_
  have hfirst : ((tagTexts tags).map Prod.fst).map (fun key => Utf8.encode key.toList) =
      tags.map Prod.fst := by
    rw [← congrArg (List.map Prod.fst) (tagTexts_of_textual h.textual), List.map_map, List.map_map]
    rfl
  rw [hfirst]
  exact h.distinct

theorem tagMap_eq_iff_perm {tags tags' : AVDictionary} (h : WellTagged tags)
    (h' : WellTagged tags') : tagMap tags = tagMap tags' ↔ tags.Perm tags' := by
  rw [tagMap, tagMap, SortedMap.insertAll_eq_iff_perm h.nodup h'.nodup]
  constructor
  · intro hperm
    have hbytes := hperm.map tagBytes
    rwa [tagTexts_of_textual h.textual, tagTexts_of_textual h'.textual] at hbytes
  · intro hperm
    exact hperm.filterMap _

theorem firstFailure_untagged (doTranscode : ℕ → Transcoded) (i : ℕ) (streams : List AVStream) :
    firstFailure doTranscode i (streams.map AVStream.untagged) =
      firstFailure doTranscode i streams := by
  induction streams generalizing i with
  | nil => rfl
  | cons s streams ih =>
    have haudio : s.untagged.isAudio = s.isAudio := rfl
    simp only [List.map_cons, firstFailure, haudio, ih]

/-- The same dictionary, in any order; that of a stream without codec parameters is not read. -/
def SameTags (s s' : AVStream) : Prop := s.codecpar = none ∨ s.metadata.Perm s'.metadata

theorem sameTagMap_iff {streams streams' : List AVStream}
    (h : List.Forall₂ (fun s s' => s.untagged = s'.untagged) streams streams')
    (htags : ∀ s ∈ streams, s.codecpar ≠ none → WellTagged s.metadata)
    (htags' : ∀ s ∈ streams', s.codecpar ≠ none → WellTagged s.metadata) :
    List.Forall₂ (fun s s' => SameTagMap s s' ↔ SameTags s s') streams streams' := by
  induction h with
  | nil => exact .nil
  | @cons s s' _ _ hs _ ih =>
    rw [List.forall_mem_cons] at htags htags'
    refine .cons ?_ (ih htags.2 htags'.2)
    by_cases hpar : s.codecpar = none
    · exact iff_of_true (.inl hpar) (.inl hpar)
    · have hpar' : s'.codecpar ≠ none := codecpar_of_untagged hs ▸ hpar
      rw [SameTagMap, SameTags, tagMap_eq_iff_perm (htags.1 hpar) (htags'.1 hpar')]

/-- Two containers that differ in their tags only, all text under distinct keys, are given the
same result exactly when there is no document for them, because a fingerprint is missing or the
heap does not tolerate their streams, or each dictionary of the one is a rearrangement of the
other's. -/
theorem same_result_iff (names : LibavNames) (doTranscode : ℕ → Transcoded) (room : ℕ)
    {ctx ctx' : AVFormatContext} (h : ctx.untagged = ctx'.untagged)
    (htags : WellTagged ctx.metadata) (htags' : WellTagged ctx'.metadata)
    (hstreams : ∀ s ∈ ctx.streams, s.codecpar ≠ none → WellTagged s.metadata)
    (hstreams' : ∀ s ∈ ctx'.streams, s.codecpar ≠ none → WellTagged s.metadata) :
    (getMetadateFromFile names (.opened ctx) doTranscode).outcome room =
        (getMetadateFromFile names (.opened ctx') doTranscode).outcome room ↔
      room < ctx.streams.length ∨ firstFailure doTranscode 0 ctx.streams ≠ none ∨
        ctx.metadata.Perm ctx'.metadata ∧ List.Forall₂ SameTags ctx.streams ctx'.streams := by
  have huntagged := streams_of_untagged h
  have hlength : ctx'.streams.length = ctx.streams.length := huntagged.length_eq.symm
  have hfailure :
      firstFailure doTranscode 0 ctx.streams = firstFailure doTranscode 0 ctx'.streams := by
    rw [← firstFailure_untagged, ← firstFailure_untagged doTranscode 0 ctx'.streams]
    exact congrArg (fun ctx => firstFailure doTranscode 0 ctx.streams) h
  rw [outcome_eq, outcome_eq, Opening.streams, Opening.streams, hlength]
  by_cases hroom : ctx.streams.length ≤ room
  · have hfits : ¬ room < ctx.streams.length := not_lt.mpr hroom
    rw [if_pos hroom, if_pos hroom, or_iff_right hfits, returned_eq, returned_eq, ← hfailure]
    cases hcase : firstFailure doTranscode 0 ctx.streams with
    | some made => cases made <;> simp
    | none =>
      have htext := returnedText_eq_iff_tagMap names doTranscode h
      simp only [Option.some.injEq, Returned.heap.injEq, ne_eq, not_true_eq_false, false_or, htext,
        tagMap_eq_iff_perm htags htags']
      have hsame := sameTagMap_iff huntagged hstreams hstreams'
      refine and_congr_right fun _ => ⟨fun hmaps => ?_, fun hperms => ?_⟩
      · exact hsame.mp (fun _ _ hiff hmap => hiff.mp hmap) hmaps
      · exact hsame.mp (fun _ _ hiff hperm => hiff.mpr hperm) hperms
  · simp [hroom, not_le.mp hroom]

def twoTags (tags : AVDictionary) : AVFormatContext := { tagged [] with metadata := tags }

theorem swapped_tags_same_result :
    (getMetadateFromFile namelessLibav (.opened (twoTags [([97], [65]), ([98], [66])]))
        fun _ => .handle [65]).outcome 3 =
      (getMetadateFromFile namelessLibav (.opened (twoTags [([98], [66]), ([97], [65])]))
        fun _ => .handle [65]).outcome 3 := by
  have htags : WellTagged [([97], [65]), ([98], [66])] :=
    ⟨show List.Nodup _ by decide, show ∀ t ∈ _, _ by decide +kernel⟩
  have hswapped : WellTagged [([98], [66]), ([97], [65])] :=
    ⟨show List.Nodup _ by decide, show ∀ t ∈ _, _ by decide +kernel⟩
  have hstreams : ∀ s ∈ (tagged []).streams, s.codecpar ≠ none → WellTagged s.metadata :=
    List.forall_mem_singleton.mpr fun _ => ⟨List.nodup_nil, nofun⟩
  have huntagged : (twoTags [([97], [65]), ([98], [66])]).untagged =
      (twoTags [([98], [66]), ([97], [65])]).untagged := rfl
  have hiff := same_result_iff namelessLibav (fun _ => .handle [65]) 3 huntagged htags hswapped
    hstreams hstreams
  exact hiff.mpr (.inr (.inr ⟨.swap _ _ _, .cons (.inr (.refl _)) .nil⟩))

end AudioFS.Metadata
