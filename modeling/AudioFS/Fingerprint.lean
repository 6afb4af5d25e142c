import Mathlib.Data.List.TakeWhile
import AudioFS.MemoryRefinement

/-!
# Extraction of a fingerprint

What `get_metadate_from_file` stores as a stream's chromaprint once `do_transcode`
has returned a memory handle: the counted bytes from the start of the buffer,
cut at the first zero. The muxer hands its output to the write callback in
chunks, and every one of them lands at the start of the buffer.
-/

namespace AudioFS.CustomAvio
open AudioFS.CInteger AudioFS.Buffer AudioFS.Process StepMachine

/-- The stored string, or nothing when the handle is empty or no memory is left for a copy. -/
def extractChromaprint (c : Platform) (s : Session) : Option (List UInt8) × Process :=
  let r := audiofsAvioGetSize c s
  let s := { s with process := r.2 }
  if r.1 ≤ 0 then (none, audiofsAvioClose s)
  else
    match s.process.calloc c (r.1 + 1).toUInt64 with
    -- the copy goes to a null pointer
    | (none, p) => (none, p.fault)
    | (some chromaprint, p) =>
      let s := { s with process := p }
      let copy := s.deref.strncpy chromaprint.bytes s.handle.data r.1.toInt.toNat
      (some (cString copy.1), audiofsAvioClose { s with process := copy.2 })

def writeAll (c : Platform) (s : Session) (chunks : List Chunk) : Session :=
  final (step c) s (chunks.map .write)

def ExtractionGranted (c : Platform) (s : Session) (chunks : List Chunk) : Prop :=
  (∀ t ∈ trace (step c) s (chunks.map .write), Granted t) ∧
    (extractChromaprint c (writeAll c s chunks)).2.refused = (writeAll c s chunks).process.refused

def concatenation (chunks : List Chunk) : List UInt8 := (chunks.map Chunk.bytes).flatten

theorem cString_append_zeros {bytes : List UInt8} (h : 0 ∉ bytes) (count : ℕ) :
    cString (bytes ++ List.replicate count 0) = bytes := by
  induction bytes with
  | nil => cases count <;> simp [cString, List.replicate_succ]
  | cons b bytes ih =>
    have hb : b ≠ 0 := fun hb => h (by simp [hb])
    have hrest := ih (fun hmem => h (List.mem_cons_of_mem _ hmem))
    simp only [cString] at hrest
    simp [cString, hb, hrest]

theorem zero_not_mem_cString (bytes : List UInt8) : 0 ∉ cString bytes := by
  intro h
  simpa using List.mem_takeWhile_imp h

theorem cString_strncpy (p : Process) (src : List UInt8) (count size : ℕ) :
    cString (p.strncpy (List.replicate size 0) src count).1 = cString (src.take count) := by
  simp only [strncpy, List.drop_replicate, List.append_assoc, List.replicate_append_replicate]
  exact cString_append_zeros (zero_not_mem_cString _) _

@[simp] theorem strncpy_refused (p : Process) (dst src : List UInt8) (count : ℕ) :
    (p.strncpy dst src count).2.refused = p.refused := by
  unfold strncpy
  split_ifs <;> rfl

theorem close_refused (s : Session) : (audiofsAvioClose s).refused = s.process.refused := by
  unfold audiofsAvioClose
  cases s.handle.inMemory with
  | true => cases s.handle.buffer <;> simp
  | false => exact release_refused _ _

/-- Extraction from a memory handle: nothing for a count that is not positive as a signed
number, a failed copy when no memory is left, and else the string at the buffer's start. -/
theorem extract_spec (c : Platform) {s : Session} {b : AudiofsBuffer} {bytes : List UInt8}
    (m : Memory s b bytes) :
    (s.handle.apparentSize.toInt64.toInt ≤ 0 ∧ (extractChromaprint c s).1 = none ∧
        (extractChromaprint c s).2.refused = s.process.refused) ∨
      (0 < s.handle.apparentSize.toInt64.toInt ∧
        if c.grants s.process.calls (s.handle.apparentSize.toInt64 + 1).toUInt64 then
          (extractChromaprint c s).1 = some (cString (bytes.take s.handle.apparentSize.toNat)) ∧
            (extractChromaprint c s).2.refused = s.process.refused
        else (extractChromaprint c s).1 = none ∧
          s.process.refused < (extractChromaprint c s).2.refused) := by
  have hsize : audiofsAvioGetSize c s = (s.handle.apparentSize.toInt64, s.process) := by
    simp [audiofsAvioGetSize, m.inMemory]
  have hzero : (0 : Int64).toInt = 0 := rfl
  by_cases hpos : 0 < s.handle.apparentSize.toInt64.toInt
  · right
    refine ⟨hpos, ?_⟩
    have hnot : ¬ s.handle.apparentSize.toInt64 ≤ 0 := by
      rw [Int64.le_iff_toInt_le, hzero]
      omega
    have hcount : s.handle.apparentSize.toInt64.toInt.toNat = s.handle.apparentSize.toNat := by
      have hval := toInt_toInt64 s.handle.apparentSize
      have hlt := s.handle.apparentSize.toNat_lt
      split_ifs at hval <;> omega
    simp only [extractChromaprint, hsize, if_neg hnot, calloc]
    split_ifs with hg
    · simp only [m.data_eq, hcount, cString_strncpy, close_refused, strncpy_refused]
      refine ⟨trivial, ?_⟩
      simp [Session.deref, m.buffer]
    · exact ⟨rfl, by simp⟩
  · left
    have hle : s.handle.apparentSize.toInt64.toInt ≤ 0 := by omega
    have hle' : s.handle.apparentSize.toInt64 ≤ 0 := by rwa [Int64.le_iff_toInt_le]
    simp only [extractChromaprint, hsize, if_pos hle']
    exact ⟨hle, trivial, close_refused s⟩

theorem write_first_chunk {c : Platform} {s : Session} (h : OpenedGranted c s) (chunk : Chunk)
    (hne : chunk.bytes ≠ []) (hgrant : Granted (transition (step c) s (.write chunk))) :
    ∃ b rest, Memory (step c s (.write chunk)).2 b (chunk.bytes ++ rest) ∧
      (step c s (.write chunk)).2.handle.apparentSize.toNat = chunk.bytes.length := by
  obtain ⟨⟨b, m⟩, hposition, hsize⟩ := openedGranted_memory h
  have hlt := chunk.length_lt
  have hspec := avioWrite_spec c m chunk
  simp only [Granted, transition, step] at hgrant ⊢
  generalize audiofsAvioWrite c s chunk = r at hspec hgrant
  cases hspec with
  | negative hneg => exact absurd (Chunk.bytes_eq_nil hneg) hne
  | failed hpos _ _ hwhy =>
    rcases hwhy with hbig | hrefused
    · rw [UInt64.lt_iff_toNat_lt, INT64_MAX_toNat, hposition, UInt64.zero_add,
        Chunk.length_toInt hpos] at hbig
      omega
    · exact absurd hgrant hrefused.ne'
  | @stored p s' b' new hpos _ _ _ hlen m' _ happarent _ =>
    rw [hposition, UInt64.zero_add, Chunk.length_toInt hpos] at hlen
    rw [copyIn_of_le p hlen] at m'
    refine ⟨b', _, m', ?_⟩
    rw [happarent, hsize, UInt64.zero_add, Chunk.length_toInt hpos]

def ZeroBeyond (k : ℕ) (bytes : List UInt8) : Prop := ∀ i b, k ≤ i → bytes[i]? = some b → b = 0

theorem ZeroBeyond.grown {k : ℕ} {bytes new : List UInt8} (h : ZeroBeyond k bytes)
    (hkept : bytes <+: new) (hfresh : FreshBeyond Platform.generous bytes new) :
    ZeroBeyond k new := by
  intro i b hi hb
  rcases Nat.lt_or_ge i bytes.length with hlt | hge
  · obtain ⟨rest, rfl⟩ := hkept
    rw [List.getElem?_append_left hlt] at hb
    exact h i b hi hb
  · obtain ⟨_, _, hzero⟩ := hfresh i b hge hb
    exact hzero

theorem ZeroBeyond.copyIn {k : ℕ} {dst src : List UInt8} (h : ZeroBeyond k dst)
    (hsrc : src.length ≤ k) (p : Process) : ZeroBeyond k (p.copyIn dst src).1 := by
  intro i b hi hb
  rcases Nat.lt_or_ge dst.length src.length with hlt | hge
  · rw [Process.copyIn, if_neg (by omega), List.getElem?_take, List.getElem?_eq_none (by omega)] at hb
    simp at hb
  · rw [copyIn_of_le p hge, List.getElem?_append_right (by omega), List.getElem?_drop] at hb
    exact h _ b (by omega) hb

theorem ZeroBeyond.length_cString {k : ℕ} {bytes : List UInt8} (h : ZeroBeyond k bytes) (n : ℕ) :
    (cString (bytes.take n)).length ≤ k := by
  by_contra hlt
  have hk : k < (cString (bytes.take n)).length := by omega
  have hprefix : cString (bytes.take n) <+: bytes :=
    (List.takeWhile_prefix _).trans (List.take_prefix n bytes)
  have hget : bytes[k]? = some (cString (bytes.take n))[k] := by
    rw [← List.getElem?_eq_getElem hk]
    obtain ⟨rest, hrest⟩ := hprefix
    have hleft : (cString (bytes.take n) ++ rest)[k]? = (cString (bytes.take n))[k]? :=
      List.getElem?_append_left hk
    rwa [hrest] at hleft
  have hzero := h k _ le_rfl hget
  exact zero_not_mem_cString (bytes.take n) (by rw [← hzero]; exact List.getElem_mem hk)

def ShortText (k : ℕ) (s : Session) : Prop := ∃ b bytes, Memory s b bytes ∧ ZeroBeyond k bytes

theorem write_shortText {k : ℕ} {s : Session} (h : ShortText k s) {chunk : Chunk}
    (hchunk : chunk.bytes.length ≤ k) :
    ShortText k (step Platform.generous s (.write chunk)).2 := by
  obtain ⟨b, bytes, m, hzero⟩ := h
  have hspec := avioWrite_spec Platform.generous m chunk
  simp only [step]
  generalize audiofsAvioWrite Platform.generous s chunk = r at hspec
  cases hspec with
  | negative _ => exact ⟨b, bytes, m, hzero⟩
  | failed _ hres _ _ =>
    obtain ⟨b', m'⟩ := hres.memory
    exact ⟨b', _, m', hzero.grown hres.kept hres.fresh⟩
  | stored _ hkept hfresh _ _ m' _ _ _ =>
    exact ⟨_, _, m', (hzero.grown hkept hfresh).copyIn hchunk _⟩

theorem writeAll_shortText {k : ℕ} {chunks : List Chunk}
    (hchunks : ∀ chunk ∈ chunks, chunk.bytes.length ≤ k) :
    ShortText k (writeAll Platform.generous Session.first chunks) := by
  obtain ⟨⟨b, m⟩, -, -⟩ := openedGranted_memory first_opened
  have hfirst : ShortText k Session.first := by
    refine ⟨b, _, m, fun i b _ hb => ?_⟩
    exact List.eq_of_mem_replicate (List.mem_of_getElem? hb)
  refine final_invariant (A := fun op => ∃ chunk ∈ chunks, op = .write chunk) ?_ hfirst _ ?_
  · rintro s op ⟨chunk, hmem, rfl⟩ hs
    exact write_shortText hs (hchunks chunk hmem)
  · intro op hop
    obtain ⟨chunk, hmem, rfl⟩ := List.mem_map.mp hop
    exact ⟨chunk, hmem, rfl⟩

theorem writes_granted (chunks : List Chunk) :
    ∀ t ∈ trace (step Platform.generous) Session.first (chunks.map .write), Granted t := by
  refine trace_forall (P := WellFormed) (A := fun op => ∃ chunk, op = .write chunk)
    (fun s op _ hs => step_wellFormed Platform.generous hs op) ?_ ?_ _ (by simp)
  · rintro s op ⟨chunk, rfl⟩ ⟨b, bytes, m⟩
    have hspec := avioWrite_spec Platform.generous m chunk
    simp only [Granted, transition, step]
    generalize audiofsAvioWrite Platform.generous s chunk = r at hspec
    cases hspec with
    | negative _ => rfl
    | failed _ hres _ _ => exact hres.granted (fun _ _ => rfl)
    | stored _ _ _ _ _ _ _ _ hrefused => exact hrefused
  · obtain ⟨⟨b, m⟩, -, -⟩ := openedGranted_memory first_opened
    exact ⟨b, _, m⟩

theorem extract_shortText {k : ℕ} {s : Session} (h : ShortText k s) :
    ((extractChromaprint Platform.generous s).1.getD []).length ≤ k ∧
      (extractChromaprint Platform.generous s).2.refused = s.process.refused := by
  obtain ⟨b, bytes, m, hzero⟩ := h
  rcases extract_spec Platform.generous m with ⟨-, hnone, hrefused⟩ | ⟨-, hsome, hrefused⟩
  · rw [hnone]
    exact ⟨Nat.zero_le k, hrefused⟩
  · rw [hsome]
    exact ⟨hzero.length_cString _, hrefused⟩

theorem length_le_concatenation {chunks : List Chunk}
    (hne : ∀ chunk ∈ chunks, chunk.bytes ≠ []) :
    chunks.length ≤ (concatenation chunks).length := by
  induction chunks with
  | nil => exact Nat.le_refl _
  | cons chunk chunks ih =>
    have hhead := List.length_pos_iff.mpr (hne chunk (by simp))
    have htail := ih (fun other hmem => hne other (by simp [hmem]))
    simp only [concatenation, List.map_cons, List.flatten_cons, List.length_append,
      List.length_cons] at htail ⊢
    omega

theorem length_lt_concatenation {chunks : List Chunk}
    (hne : ∀ chunk ∈ chunks, chunk.bytes ≠ []) (htwo : 2 ≤ chunks.length) {chunk : Chunk}
    (hmem : chunk ∈ chunks) : chunk.bytes.length < (concatenation chunks).length := by
  obtain ⟨before, after, rfl⟩ := List.append_of_mem hmem
  have hbefore : before.length ≤ (concatenation before).length :=
    length_le_concatenation (fun other h => hne other (by simp [h]))
  have hafter : after.length ≤ (concatenation after).length :=
    length_le_concatenation (fun other h => hne other (by simp [h]))
  simp only [concatenation, List.map_append, List.map_cons, List.flatten_append,
    List.flatten_cons, List.length_append, List.length_cons] at *
  omega

/-- The stored text is the muxer's whole output, on every platform that grants every
allocation. Nothing stored counts as no text. -/
def ExtractsAll (chunks : List Chunk) : Prop :=
  ∀ (c : Platform) (s : Session), OpenedGranted c s → ExtractionGranted c s chunks →
    (extractChromaprint c (writeAll c s chunks)).1.getD [] = concatenation chunks

theorem extractsAll_nil : ExtractsAll [] := by
  intro c s hopen _
  obtain ⟨⟨b, m⟩, -, hsize⟩ := openedGranted_memory hopen
  have hzero : s.handle.apparentSize.toInt64.toInt = 0 := by
    rw [hsize]
    rfl
  rcases extract_spec c m with ⟨-, hnone, -⟩ | ⟨hpos, -⟩
  · simp [writeAll, hnone, concatenation]
  · omega

theorem extractsAll_single {chunk : Chunk} (hne : chunk.bytes ≠ []) (hzero : 0 ∉ chunk.bytes) :
    ExtractsAll [chunk] := by
  intro c s hopen hgrant
  obtain ⟨hwrites, hextract⟩ := hgrant
  obtain ⟨b, rest, m, hsize⟩ := write_first_chunk hopen chunk hne (hwrites _ (by simp))
  simp only [writeAll, List.map_cons, List.map_nil, final_cons, final_nil] at hextract ⊢
  have hlt := chunk.length_lt
  have hlen := List.length_pos_iff.mpr hne
  have hval := toInt_toInt64 (step c s (.write chunk)).2.handle.apparentSize
  rw [hsize, if_pos (by omega)] at hval
  rcases extract_spec c m with ⟨hle, -, -⟩ | ⟨-, hcase⟩
  · omega
  · split_ifs at hcase with hg
    · have hstring : cString chunk.bytes = chunk.bytes := by
        simpa using cString_append_zeros hzero 0
      rw [hcase.1, hsize, List.take_left, hstring]
      simp [concatenation]
    · exact absurd hextract hcase.2.ne'

/-- Chunked output of text is extracted whole exactly when it came in at most one chunk. -/
theorem extraction_exact_iff {chunks : List Chunk}
    (hchunks : ∀ chunk ∈ chunks, chunk.bytes ≠ [] ∧ 0 ∉ chunk.bytes) :
    ExtractsAll chunks ↔ chunks.length ≤ 1 := by
  constructor
  · intro hall
    by_contra htwo
    have hshorter (chunk : Chunk) (hmem : chunk ∈ chunks) :
        chunk.bytes.length ≤ (concatenation chunks).length - 1 := by
      have hlt := length_lt_concatenation (fun c hc => (hchunks c hc).1) (by omega) hmem
      omega
    obtain ⟨hlen, hrefused⟩ := extract_shortText (writeAll_shortText hshorter)
    have hstored := hall Platform.generous Session.first first_opened
      ⟨writes_granted chunks, hrefused⟩
    have hpos := length_le_concatenation (fun c hc => (hchunks c hc).1)
    rw [hstored] at hlen
    omega
  · intro hle
    rcases chunks with _ | ⟨chunk, _ | ⟨other, chunks⟩⟩
    · exact extractsAll_nil
    · obtain ⟨hne, hzero⟩ := hchunks chunk (by simp)
      exact extractsAll_single hne hzero
    · simp at hle

theorem extraction_of_one_chunk : ExtractsAll [Chunk.one 65] :=
  (extraction_exact_iff (by decide)).mpr (by decide)

/-- Of two chunks the extraction returns the second alone. -/
theorem extraction_loses_first_chunk :
    ¬ ∀ chunks : List Chunk, (∀ chunk ∈ chunks, chunk.bytes ≠ [] ∧ 0 ∉ chunk.bytes) →
      ExtractsAll chunks := by
  intro h
  have hstored := h [Chunk.one 65, Chunk.one 66] (by decide) Platform.generous Session.first
    first_opened ⟨writes_granted _, by decide +kernel⟩
  exact absurd hstored (by decide +kernel)

end AudioFS.CustomAvio
