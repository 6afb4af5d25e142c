import AudioFS.MemorySecrecy
import AudioFS.Fingerprint
import AudioFS.Overlay

/-!
# What a memory handle holds

The position is kept but not used: every write lands at the start of the buffer
and every read comes from there. So after any sequence of calls the buffer
starts with the stored chunks laid over one another, on top of the zeros it was
opened with, and all that follows was left there by the allocator. A read reports
what is counted behind the position and delivers as much from the start. What it
copies may leave the buffer: the count wraps when the position is beyond the counted
size, and the counted size may exceed the buffer.
-/

namespace AudioFS.CustomAvio
open AudioFS.CInteger AudioFS.Buffer AudioFS.Process StepMachine Overlay

def storedChunk (buf : Chunk) (ret : ℤ) (len : UInt64) : List (List UInt8) :=
  if 0 ≤ ret then [buf.bytes.take len.toNat] else []

/-- What a call puts into the buffer: of a chunk that was taken, as much as the buffer holds. -/
def stored (t : Call) : List (List UInt8) :=
  match t.input with
  | .write buf => storedChunk buf t.output.ret t.after.handle.len
  | _ => []

/-- The start of the buffer after these calls. -/
def image (calls : List Call) : List UInt8 :=
  overlays (List.replicate 1024 0) (calls.flatMap stored)

/-- The buffer starts with these bytes, and what follows them is the allocator's. -/
def Shows (c : Platform) (s : Session) (bytes : List UInt8) : Prop :=
  ∃ b new, Memory s b new ∧ bytes <+: new ∧ FreshBeyond c bytes new

theorem copyIn_eq_overlay (p : Process) (dst src : List UInt8) :
    (p.copyIn dst src).1 = overlay dst (src.take dst.length) := by
  unfold copyIn
  split_ifs with h
  · rw [List.take_of_length_le h]
    rfl
  · have hlen : (src.take dst.length).length = dst.length := by
      rw [List.length_take]
      omega
    rw [overlay, hlen, List.drop_length, List.append_nil]

theorem freshBeyond_overlay {c : Platform} {old new : List UInt8} (h : FreshBeyond c old new)
    (layer : List UInt8) : FreshBeyond c (overlay old layer) (overlay new layer) := by
  intro i b hi hb
  rw [length_overlay] at hi
  rw [getElem?_overlay, if_neg (by omega)] at hb
  exact h i b (by omega) hb

variable {c : Platform} {s : Session} {b : AudiofsBuffer} {bytes old : List UInt8}

theorem moved_shows (hkeep : bytes <+: old) (hfresh : FreshBeyond c bytes old)
    {target : Int64} {r : Int64 × Session} (h : Moved c s old target r) : Shows c r.2 bytes := by
  cases h with
  | failed hres _ _ =>
    obtain ⟨b', m'⟩ := hres.memory
    exact ⟨b', _, m', hkeep.trans hres.kept, hfresh.trans hres.kept hres.fresh⟩
  | moved m' hkept hnew _ _ _ _ =>
    exact ⟨_, _, m', hkeep.trans hkept, hfresh.trans hkept hnew⟩

theorem sought_shows (m : Memory s b old) (hkeep : bytes <+: old)
    (hfresh : FreshBeyond c bytes old) {offset : Int64} {whence : Int32} {r : Int64 × Session}
    (h : Sought c s old offset whence r) : Shows c r.2 bytes := by
  cases h with
  | negative _ => exact ⟨b, old, m, hkeep, hfresh⟩
  | unsupported _ _ _ _ => exact ⟨b, old, m, hkeep, hfresh⟩
  | beyond _ _ _ => exact ⟨b, old, m, hkeep, hfresh⟩
  | set _ _ hmoved => exact moved_shows hkeep hfresh hmoved
  | cur _ _ hmoved => exact moved_shows hkeep hfresh hmoved
  | fin _ _ _ hmoved => exact moved_shows hkeep hfresh hmoved

theorem write_shows (m : Memory s b old) (hkeep : bytes <+: old)
    (hfresh : FreshBeyond c bytes old) (buf : Chunk) :
    Shows c (step c s (.write buf)).2
      (overlays bytes (stored (transition (step c) s (.write buf)))) := by
  have hspec := avioWrite_spec c m buf
  simp only [stored, transition, step]
  generalize audiofsAvioWrite c s buf = r at hspec
  cases hspec with
  | negative _ => exact ⟨b, old, m, hkeep, hfresh⟩
  | failed _ hres _ _ =>
    obtain ⟨b', m'⟩ := hres.memory
    exact ⟨b', _, m', hkeep.trans hres.kept, hfresh.trans hres.kept hres.fresh⟩
  | @stored p s' b' new hpos hkept hnew _ _ m' _ _ _ =>
    have hret : 0 ≤ (int32 (toU64 buf.bufSize)).toInt := by
      rw [toInt_int32_toU64 hpos]
      exact hpos
    rw [storedChunk, if_pos hret, m'.len_copyIn]
    rw [copyIn_eq_overlay] at m'
    exact ⟨b', _, m', overlay_prefix (hkeep.trans hkept) _,
      freshBeyond_overlay (hfresh.trans hkept hnew) _⟩

theorem read_shows (m : Memory s b old) (hkeep : bytes <+: old)
    (hfresh : FreshBeyond c bytes old) (n : Int32) :
    Shows c (step c s (.read n)).2 bytes ∧
      (step c s (.read n)).1.bytes.take bytes.length =
        bytes.take (step c s (.read n)).1.bytes.length := by
  by_cases hn : 0 ≤ n.toInt
  · simp only [step, avioRead_spec c m hn]
    refine ⟨⟨b, old, m.update _ _ _, hkeep, hfresh⟩, ?_⟩
    obtain ⟨rest, rfl⟩ := hkeep
    generalize (s.handle.readCount (toU64 n)).toNat = count
    rw [List.take_take, List.length_take, List.length_append]
    rcases Nat.le_total count bytes.length with hle | hge
    · rw [Nat.min_eq_right hle, List.take_append_of_le_length hle,
        Nat.min_eq_left (by omega)]
    · rw [Nat.min_eq_left hge, List.take_append_of_le_length le_rfl,
        List.take_of_length_le le_rfl, List.take_of_length_le (by omega)]
  · have hneg : n.toInt < 0 := by omega
    simp only [step, audiofsAvioRead, rejects_iff, hneg, if_true]
    exact ⟨⟨b, old, m, hkeep, hfresh⟩, by simp⟩

theorem step_shows (h : Shows c s bytes) (op : Op) :
    Shows c (step c s op).2 (overlays bytes (stored (transition (step c) s op))) := by
  obtain ⟨b, old, m, hkeep, hfresh⟩ := h
  cases op with
  | read n => exact (read_shows m hkeep hfresh n).1
  | write buf => exact write_shows m hkeep hfresh buf
  | seek offset whence => exact sought_shows m hkeep hfresh (avioSeek_spec c m offset whence)

theorem run_shows (h : Shows c s bytes) (ops : List Op) :
    Shows c (final (step c) s ops) (overlays bytes ((trace (step c) s ops).flatMap stored)) := by
  induction ops generalizing s bytes with
  | nil => exact h
  | cons op ops ih =>
    rw [trace_cons, List.flatMap_cons, overlays_append]
    exact ih (step_shows h op)

theorem opened_shows (h : OpenedGranted c s) : Shows c s (List.replicate 1024 0) := by
  obtain ⟨⟨b, m⟩, -, -⟩ := openedGranted_memory h
  exact ⟨b, _, m, List.prefix_refl _, freshBeyond_refl c _⟩

/-- A read that stays inside the buffer reports what is counted behind the position, up to what
was asked for, and delivers that many bytes. -/
theorem read_reports (m : Memory s b old) {n : Int32} (hn : 0 ≤ n.toInt)
    (hinside : InBounds (transition (step c) s (.read n))) :
    (step c s (.read n)).1.ret =
        min n.toInt (s.handle.apparentSize.toNat - s.handle.position.toNat) ∧
      ((step c s (.read n)).1.bytes.length : ℤ) = (step c s (.read n)).1.ret := by
  have hbounds := hinside hn
  have hlen := hbounds.2.2
  simp only [transition] at hbounds hlen
  obtain ⟨hfits, hle, -⟩ := (read_inBounds_iff s.handle hn).mp hbounds
  have hend := endPosition_toNat s.handle hn
  have hcount := readCount_wrapped s.handle n
  have hlt := n.toInt_lt
  have hp := s.handle.position.toNat_lt
  rw [UInt64.le_iff_toNat_le] at hle hlen
  rw [m.len_eq, ← m.length] at hlen
  simp only [step, avioRead_spec c m hn, toInt_int32, List.length_take, Nat.min_eq_left hlen]
  omega

/-- After any calls on a handle whose buffer was granted, none of which copies past the buffer, the
buffer is the image of the stored chunks, and beyond it what the allocator left. Each of the reads
reports what is counted behind the position and delivers that many bytes, which are the image from
its start as far as it goes. -/
theorem memory_image (c : Platform) {s : Session} (h : OpenedGranted c s) {ops : List Op}
    (hinside : ∀ t ∈ trace (step c) s ops, InBounds t) :
    Shows c (final (step c) s ops) (image (trace (step c) s ops)) ∧
    ∀ js n, js ++ [.read n] <+: ops → 0 ≤ n.toInt →
      let s' := final (step c) s js
      let shown := image (trace (step c) s js)
      let answer := (step c s' (.read n)).1
      answer.ret = min n.toInt (s'.handle.apparentSize.toNat - s'.handle.position.toNat) ∧
        (answer.bytes.length : ℤ) = answer.ret ∧
        answer.bytes.take shown.length = shown.take answer.bytes.length := by
  refine ⟨run_shows (opened_shows h) ops, fun js n hrun hn => ?_⟩
  obtain ⟨b, old, m, hkeep, hfresh⟩ : Shows c (final (step c) s js)
      (image (trace (step c) s js)) := run_shows (opened_shows h) js
  have hmade : transition (step c) (final (step c) s js) (.read n) ∈ trace (step c) s ops := by
    obtain ⟨later, rfl⟩ := hrun
    rw [trace_append, trace_append]
    simp
  obtain ⟨hret, hlength⟩ := read_reports m hn (hinside _ hmade)
  exact ⟨hret, hlength, (read_shows m hkeep hfresh n).2⟩

def overwriteRun : List Op :=
  [.write (Chunk.one 65), .seek 0 SEEK_SET, .write (Chunk.one 66), .read 1]

theorem image_after_overwrite :
    Shows Platform.generous (final (step Platform.generous) Session.first overwriteRun)
        (image (trace (step Platform.generous) Session.first overwriteRun)) ∧
    ∀ js n, js ++ [.read n] <+: overwriteRun → 0 ≤ n.toInt →
      let s' := final (step Platform.generous) Session.first js
      let shown := image (trace (step Platform.generous) Session.first js)
      let answer := (step Platform.generous s' (.read n)).1
      answer.ret = min n.toInt (s'.handle.apparentSize.toNat - s'.handle.position.toNat) ∧
        (answer.bytes.length : ℤ) = answer.ret ∧
        answer.bytes.take shown.length = shown.take answer.bytes.length :=
  memory_image Platform.generous first_opened (by decide)

/-! ### The extracted text -/

structure CountsTo (s : Session) (total : ℕ) : Prop where
  position : s.handle.position.toNat = total
  apparentSize : s.handle.apparentSize.toNat = total
  backed : total ≤ s.handle.data.length

theorem opened_counts (h : OpenedGranted c s) : CountsTo s 0 := by
  obtain ⟨-, hposition, hsize⟩ := openedGranted_memory h
  exact ⟨by rw [hposition]; rfl, by rw [hsize]; rfl, Nat.zero_le _⟩

theorem toNat_add_length {x : UInt64} {total : ℕ} (hx : x.toNat = total) {buf : Chunk}
    (hpos : 0 ≤ buf.bufSize.toInt) (hlt : total + buf.bytes.length < 2 ^ 63) :
    (x + toU64 buf.bufSize).toNat = total + buf.bytes.length := by
  have hlen := Chunk.length_toInt hpos
  rw [toNat_add_of_lt (by omega), hx, hlen]

/-- What the writer of a chunk is told when nothing fails. -/
def told (chunk : Chunk) : Answer :=
  ⟨if 0 ≤ chunk.bufSize.toInt then chunk.bytes.length else -1, []⟩

/-- A granted write takes the whole chunk as long as the size is a signed number. -/
theorem write_counts (m : Memory s b old) {total : ℕ} (hs : CountsTo s total) (chunk : Chunk)
    (hlt : total + chunk.bytes.length < 2 ^ 63)
    (hgrant : Granted (transition (step c) s (.write chunk))) :
    CountsTo (step c s (.write chunk)).2 (total + chunk.bytes.length) ∧
      (step c s (.write chunk)).1 = told chunk ∧
      ∀ base, overlays base (stored (transition (step c) s (.write chunk))) =
        overlay base chunk.bytes := by
  have hspec := avioWrite_spec c m chunk
  simp only [Granted, stored, transition, step, told] at hgrant ⊢
  generalize audiofsAvioWrite c s chunk = r at hspec hgrant
  cases hspec with
  | negative hneg =>
    have hempty := Chunk.bytes_eq_nil hneg
    refine ⟨by simpa [hempty] using hs, by rw [if_neg (not_le.mpr hneg)]; rfl, fun base => ?_⟩
    have hret : ¬ 0 ≤ (-1 : Int32).toInt := by decide
    rw [storedChunk, if_neg hret, hempty, overlay_nil, overlays_nil]
  | failed hpos _ _ hwhy =>
    have hsum := toNat_add_length hs.position hpos hlt
    rcases hwhy with hbig | hrefused
    · rw [UInt64.lt_iff_toNat_lt, INT64_MAX_toNat, hsum] at hbig
      omega
    · exact absurd hgrant hrefused.ne'
  | @stored p s' b' new hpos _ _ _ hlen m' hposition happarent _ =>
    have hsum := toNat_add_length hs.position hpos hlt
    have hret : 0 ≤ (int32 (toU64 chunk.bufSize)).toInt := by
      rw [toInt_int32_toU64 hpos]
      exact hpos
    refine ⟨⟨?_, ?_, ?_⟩, ?_, fun base => ?_⟩
    · rw [hposition, hsum]
    · rw [happarent, toNat_add_length hs.apparentSize hpos hlt]
    · rw [m'.data_eq, length_copyIn, ← hsum]
      exact hlen
    · rw [if_pos hpos, toInt_int32_toU64 hpos, chunk.length_eq, Int.toNat_of_nonneg hpos]
    · rw [storedChunk, if_pos hret, m'.len_copyIn, List.take_of_length_le (by omega),
        overlays_cons, overlays_nil]

theorem writes_count (chunks : List Chunk) (h : Shows c s bytes) {total : ℕ}
    (hs : CountsTo s total) (hlt : total + (concatenation chunks).length < 2 ^ 63)
    (hgrant : ∀ t ∈ trace (step c) s (chunks.map .write), Granted t) :
    CountsTo (writeAll c s chunks) (total + (concatenation chunks).length) ∧
      (trace (step c) s (chunks.map .write)).map Transition.output = chunks.map told ∧
      ∀ base, overlays base ((trace (step c) s (chunks.map .write)).flatMap stored) =
        overlays base (chunks.map Chunk.bytes) := by
  induction chunks generalizing s bytes total with
  | nil => exact ⟨by simpa [writeAll, concatenation] using hs, rfl, fun _ => rfl⟩
  | cons chunk chunks ih =>
    have hlen : (concatenation (chunk :: chunks)).length =
        chunk.bytes.length + (concatenation chunks).length := by
      simp [concatenation]
    obtain ⟨b, old, m, -, -⟩ := id h
    have hgranted : Granted (transition (step c) s (.write chunk)) := hgrant _ (by simp)
    obtain ⟨hfirst, hanswer, hlayer⟩ := write_counts m hs chunk (by omega) hgranted
    obtain ⟨hrest, hanswers, hlayers⟩ := ih (step_shows h (.write chunk)) hfirst (by omega)
      (fun t ht => hgrant t (by simp [ht]))
    refine ⟨?_, ?_, fun base => ?_⟩
    · rw [hlen, ← Nat.add_assoc]
      exact hrest
    · rw [List.map_cons, trace_cons, List.map_cons, hanswers, List.map_cons]
      exact congrArg (· :: _) hanswer
    · rw [List.map_cons, trace_cons, List.flatMap_cons, overlays_append, hlayer, hlayers]
      rfl

theorem cString_append_zero (text rest : List UInt8) :
    cString (text ++ 0 :: rest) = cString text := by
  induction text with
  | nil => simp [cString]
  | cons b text ih =>
    simp only [cString] at ih
    simp only [cString, List.cons_append, List.takeWhile_cons, ih]

/-- A string at the start of a longer array ends where it does alone, when the array goes on with
a terminator or is not looked at any further. -/
theorem cString_take_of_prefix {text bytes : List UInt8} (h : text <+: bytes) {count : ℕ}
    (hcount : text.length ≤ count)
    (hend : count = text.length ∨ ∀ b, bytes[text.length]? = some b → b = 0) :
    cString (bytes.take count) = cString text := by
  obtain ⟨rest, rfl⟩ := h
  rw [List.take_append, List.take_of_length_le hcount]
  cases hk : count - text.length with
  | zero => rw [List.take_zero, List.append_nil]
  | succ k =>
    cases rest with
    | nil => rw [List.take_nil, List.append_nil]
    | cons b rest =>
      have hzero : b = 0 := by
        rcases hend with hall | hnext
        · omega
        · exact hnext b (by simp)
      rw [List.take_succ_cons, hzero, cString_append_zero]

theorem length_le_of_mem {chunks : List Chunk} {chunk : Chunk} (h : chunk ∈ chunks) :
    chunk.bytes.length ≤ (concatenation chunks).length := by
  obtain ⟨before, after, rfl⟩ := List.append_of_mem h
  simp only [concatenation, List.map_append, List.map_cons, List.flatten_append,
    List.flatten_cons, List.length_append]
  omega

/-- No text is counted behind the image: nothing is when at most one chunk has bytes, the zeros the
buffer was opened with follow when all chunks are shorter than it was, and else what `realloc`
left there has to be zero. -/
def EndsImage (c : Platform) (chunks : List Chunk) : Prop :=
  (chunks.filter fun chunk => !chunk.bytes.isEmpty).length ≤ 1 ∨
    (∀ chunk ∈ chunks, chunk.bytes.length < 1024) ∨ ∀ call i, c.fresh call i = 0

theorem overlays_eq_concatenation_iff (chunks : List Chunk) :
    overlays [] (chunks.map Chunk.bytes) = concatenation chunks ↔
      (chunks.filter fun chunk => !chunk.bytes.isEmpty).length ≤ 1 := by
  have hlayers := overlays_eq_append_iff [] (chunks.map Chunk.bytes)
  rwa [List.filter_cons_of_neg (by simp), List.filter_map, List.length_map] at hlayers

theorem forall_bytes_iff {chunks : List Chunk} {P : List UInt8 → Prop} :
    (∀ layer ∈ chunks.map Chunk.bytes, P layer) ↔ ∀ chunk ∈ chunks, P chunk.bytes :=
  List.forall_mem_map

/-- What follows the image in a buffer that shows it. -/
theorem EndsImage.next {chunks : List Chunk} (h : EndsImage c chunks)
    (hkeep : overlay (List.replicate 1024 0) (overlays [] (chunks.map Chunk.bytes)) <+: bytes)
    (hfresh : FreshBeyond c
      (overlay (List.replicate 1024 0) (overlays [] (chunks.map Chunk.bytes))) bytes) :
    (concatenation chunks).length = (overlays [] (chunks.map Chunk.bytes)).length ∨
      ∀ b, bytes[(overlays [] (chunks.map Chunk.bytes)).length]? = some b → b = 0 := by
  have hlength : (overlays [] (chunks.map Chunk.bytes)).length < 1024 ∨
      ¬ (overlays [] (chunks.map Chunk.bytes)).length < 1024 := em _
  have hshort : (overlays [] (chunks.map Chunk.bytes)).length < 1024 → ∀ b,
      bytes[(overlays [] (chunks.map Chunk.bytes)).length]? = some b → b = 0 := by
    intro hlt b hb
    obtain ⟨rest, rfl⟩ := hkeep
    rw [List.getElem?_append_left (by rw [length_overlay, List.length_replicate]; omega),
      getElem?_overlay, if_neg (lt_irrefl _), List.getElem?_replicate, if_pos hlt] at hb
    exact (Option.some.inj hb).symm
  rcases h with hone | hchunks | hzero
  · exact .inl (congrArg List.length ((overlays_eq_concatenation_iff chunks).mpr hone)).symm
  · refine .inr (hshort ?_)
    have hle : (overlays [] (chunks.map Chunk.bytes)).length ≤ 1023 :=
      length_overlays_le (by simp) (forall_bytes_iff.mpr fun chunk hmem => by
        have hlt := hchunks chunk hmem
        omega)
    omega
  · right
    rcases hlength with hlt | hge
    · exact hshort hlt
    · intro b hb
      obtain ⟨call, i, rfl⟩ := hfresh _ b
        (by rw [length_overlay, List.length_replicate]; omega) hb
      exact hzero call i

/-- Whatever chunks the muxer wrote, the stored fingerprint is the string at the start of their
image, on every platform that grants the allocations. -/
theorem extracted_text (c : Platform) {s : Session} (h : OpenedGranted c s) {chunks : List Chunk}
    (hend : EndsImage c chunks) (htotal : (concatenation chunks).length < 2 ^ 63)
    (hgrant : ExtractionGranted c s chunks) :
    (extractChromaprint c (writeAll c s chunks)).1.getD [] =
      cString (overlays [] (chunks.map Chunk.bytes)) := by
  obtain ⟨hwrites, hextract⟩ := hgrant
  obtain ⟨hcount, -, hlayers⟩ :=
    writes_count chunks (opened_shows h) (opened_counts h) (by omega) hwrites
  obtain ⟨b, bytes, m, hkeep, hfresh⟩ := run_shows (opened_shows h) (chunks.map .write)
  rw [hlayers, overlays_eq] at hkeep hfresh
  change Memory (writeAll c s chunks) b bytes at m
  have hfits : (overlays [] (chunks.map Chunk.bytes)).length ≤ (concatenation chunks).length :=
    length_overlays_le (by simp) (forall_bytes_iff.mpr fun chunk hmem => length_le_of_mem hmem)
  have hnext := hend.next hkeep hfresh
  have hstart : overlays [] (chunks.map Chunk.bytes) <+: bytes :=
    (List.prefix_append _ _).trans hkeep
  generalize overlays [] (chunks.map Chunk.bytes) = text at hfits hnext hstart ⊢
  have hvalue := toInt_toInt64 (writeAll c s chunks).handle.apparentSize
  have hcounted := hcount.apparentSize
  rw [hcounted, if_pos (by omega)] at hvalue
  rcases extract_spec c m with ⟨hle, hnone, -⟩ | ⟨-, hcase⟩
  · have hempty : text = [] := List.length_eq_zero_iff.mp (by omega)
    rw [hnone, hempty]
    rfl
  · split_ifs at hcase with hg
    · rw [hcase.1, hcounted, Nat.zero_add, Option.getD_some]
      exact cString_take_of_prefix hstart hfits hnext
    · exact absurd hextract hcase.2.ne'

end AudioFS.CustomAvio
