import AudioFS.Analyze

/-!
# The two readers of the metadata

`GetMetadataFromFile` of the `native` package calls into C; the function of that
name in `util` has the `native` program do the same and reads what it prints. The
document has no control characters, so the C string that holds it ends where the
document does, and what is printed is one line.
-/

namespace AudioFS.Metadata
open Json Jansson

theorem upperHexDigit_plain : ∀ d < 16, 32 ≤ (upperHexDigit d).toNat := by decide

theorem shortEscape_plain {c e : Char} (h : shortEscape c = some e) : 32 ≤ e.toNat := by
  unfold shortEscape at h
  split at h <;> cases h <;> decide

theorem janssonEscape_plain (c : Char) : ∀ d ∈ janssonEscape c, 32 ≤ d.toNat := by
  have hback : 32 ≤ '\\'.toNat := by decide
  unfold janssonEscape escapeBy
  cases hshort : shortEscape c with
  | some e => simpa using shortEscape_plain hshort
  | none =>
    by_cases hcoded : controlCoded c = true
    · have hlt : c.toNat < 32 := by simpa [controlCoded] using hcoded
      have hu : 32 ≤ 'u'.toNat := by decide
      have hhex (d : ℕ) (hd : d < 16) := upperHexDigit_plain d hd
      simp only [if_pos hcoded, List.forall_mem_cons]
      exact ⟨hback, hu, hhex _ (by omega), hhex _ (by omega), hhex _ (by omega),
        hhex _ (by omega), by simp⟩
    · simpa [hcoded] using show 32 ≤ c.toNat by simpa [controlCoded] using hcoded

theorem covers_plain : Covers janssonEscape fun c => 32 ≤ c.toNat where
  mark := by simp [marks]
  digit c hc := by
    have hrange := Char.isDigit_iff_toNat.mp hc
    have hzero : '0'.toNat = 48 := rfl
    omega
  escaped := janssonEscape_plain

/-- The document is written without a control character. -/
theorem returnedText_plain (names : LibavNames) (doTranscode : ℕ → Transcoded)
    (ctx : AVFormatContext) : ∀ b ∈ returnedText names doTranscode ctx, 32 ≤ b.toNat := by
  intro b hb
  obtain ⟨c, hc, hbyte⟩ := List.mem_flatMap.mp hb
  have hplain := covers_plain.print _ c hc
  by_cases hascii : b.toNat < 128
  · rw [Utf8.eq_of_mem_encodeChar hbyte hascii] at hplain
    exact hplain
  · omega

theorem cString_returnedText (names : LibavNames) (doTranscode : ℕ → Transcoded)
    (ctx : AVFormatContext) :
    Process.cString (returnedText names doTranscode ctx) = returnedText names doTranscode ctx := by
  rw [Process.cString, List.takeWhile_eq_self_iff]
  intro b hb
  have hplain := returnedText_plain names doTranscode ctx b hb
  have hne : b ≠ 0 := by
    rintro rfl
    exact absurd hplain (by decide)
  simpa using hne

end AudioFS.Metadata

namespace AudioFS.Analyze
open AudioFS.Metadata
open AudioFS.FileMetadata (unmarshalJSON)

section
variable (host : Host) (setString : String → Option ℚ)

/-- `native.GetMetadataFromFile`, where nothing inside stands for an error. The process does not
live on when C reads through a null pointer or ruins the heap, nor when `C.free` gets what no
allocation returned. -/
def cgoGetMetadataFromFile (file : Path) : Option (Option FileMetadata.Metadata) :=
  match host.metadate file with
  | none => none
  | some .null => some none
  | some .emptyLiteral => none
  | some (.heap metadata) => some (unmarshalJSON setString (Process.cString metadata))

variable {host setString}

theorem cgo_of_opened {file : Path} {ctx : AVFormatContext} (h : host.opening file = .opened ctx) :
    cgoGetMetadataFromFile host setString file =
      if ctx.streams.length ≤ host.tableRoom ∧
          firstFailure (host.doTranscode file) 0 ctx.streams = none then
        some (some (metadataOf host.names (host.doTranscode file) ctx).fillTimeBase)
      else none := by
  rw [cgoGetMetadataFromFile, metadate_of_opened h]
  by_cases hroom : ctx.streams.length ≤ host.tableRoom
  · rw [if_pos hroom]
    cases hfail : firstFailure (host.doTranscode file) 0 ctx.streams with
    | some made => cases made <;> simp
    | none => simp [hroom, cString_returnedText, unmarshalJSON_bareText]
  · simp [hroom]

theorem cgo_of_unopened {file : Path} (h : ∀ ctx, host.opening file ≠ .opened ctx) :
    cgoGetMetadataFromFile host setString file = some none := by
  rw [cgoGetMetadataFromFile, metadate_of_unopened h]

/-- What `native` prints on success: the document, or nothing, on a line. -/
theorem output_line {file : Path} {stdout : List UInt8}
    (h : host.output native file = some stdout) :
    ∃ text, stdout = printed text ∧ ∀ b ∈ text, 32 ≤ b.toNat := by
  have hstarts : host.starts file = true := by
    by_contra hno
    simp [Host.output, hno] at h
  rw [output_of_started hstarts, nativeMain] at h
  by_cases hopened : ∃ ctx, host.opening file = .opened ctx
  · obtain ⟨ctx, hopen⟩ := hopened
    rw [metadate_of_opened hopen] at h
    by_cases hroom : ctx.streams.length ≤ host.tableRoom
    · rw [if_pos hroom] at h
      cases hfail : firstFailure (host.doTranscode file) 0 ctx.streams with
      | none =>
        rw [hfail] at h
        obtain rfl : _ = stdout := by simpa using h
        exact ⟨_, rfl, returnedText_plain _ _ _⟩
      | some made =>
        rw [hfail] at h
        cases made with
        | null => simp at h
        | handle text =>
          obtain rfl : _ = stdout := by simpa using h
          exact ⟨[], rfl, List.forall_mem_nil _⟩
    · simp [hroom] at h
  · rw [metadate_of_unopened fun ctx hopen => hopened ⟨ctx, hopen⟩] at h
    simp at h

variable (host setString) in
/-- Where `native` can be started, it reads what the caller in Go is given when that lives, and is
an error where the call into C takes its process down. That happens to exactly the files with an
audio stream that got no fingerprint or with more streams than the heap tolerates; for a file that
cannot be opened both give an error. All that is ever printed is one line. -/
theorem readers_agree (file : Path) :
    (getMetadataFromFile host setString file =
      if host.starts file then (cgoGetMetadataFromFile host setString file).join else none) ∧
    (cgoGetMetadataFromFile host setString file = none ↔
      ∃ ctx, host.opening file = .opened ctx ∧
        (host.tableRoom < ctx.streams.length ∨
          firstFailure (host.doTranscode file) 0 ctx.streams ≠ none)) ∧
    (cgoGetMetadataFromFile host setString file = some none ↔
      ∀ ctx, host.opening file ≠ .opened ctx) ∧
    ∀ stdout, host.output native file = some stdout →
      ∃ text, stdout = text ++ [10] ∧ ∀ b ∈ text, 32 ≤ b.toNat := by
  have hprinted : ∀ stdout, host.output native file = some stdout →
      ∃ text, stdout = text ++ [10] ∧ ∀ b ∈ text, 32 ≤ b.toNat := by
    intro stdout h
    obtain ⟨text, rfl, hplain⟩ := output_line h
    exact ⟨text, rfl, hplain⟩
  rw [getMetadataFromFile_eq, Host.described]
  by_cases hopened : ∃ ctx, host.opening file = .opened ctx
  · obtain ⟨ctx, hopen⟩ := hopened
    have hdies : ¬ (ctx.streams.length ≤ host.tableRoom ∧
        firstFailure (host.doTranscode file) 0 ctx.streams = none) ↔
        host.tableRoom < ctx.streams.length ∨
          firstFailure (host.doTranscode file) 0 ctx.streams ≠ none := by
      rw [not_and_or, not_le]
    simp only [cgo_of_opened hopen, hopen, Opening.opened.injEq, exists_eq_left', ← hdies]
    refine ⟨?_, ?_, ?_, hprinted⟩
    · by_cases hfits : ctx.streams.length ≤ host.tableRoom ∧
          firstFailure (host.doTranscode file) 0 ctx.streams = none <;>
        by_cases hstarts : host.starts file = true <;> simp [hfits, hstarts]
    · split_ifs with hfits <;> simp [hfits]
    · split_ifs <;> simp
  · have hunopened : ∀ ctx, host.opening file ≠ .opened ctx := fun ctx hopen =>
      hopened ⟨ctx, hopen⟩
    rw [cgo_of_unopened hunopened]
    refine ⟨?_, by simp [hunopened], by simp [hunopened], hprinted⟩
    cases hopen : host.opening file with
    | openFailed => simp
    | noStreamInfo => simp
    | opened ctx => exact absurd hopen (hunopened ctx)

end

theorem oneSong_readers_agree :
    (getMetadataFromFile oneSong BigRat.decimalSetString [109] =
      if oneSong.starts [109] then
        (cgoGetMetadataFromFile oneSong BigRat.decimalSetString [109]).join else none) ∧
    (cgoGetMetadataFromFile oneSong BigRat.decimalSetString [109] = none ↔
      ∃ ctx, oneSong.opening [109] = .opened ctx ∧
        (oneSong.tableRoom < ctx.streams.length ∨
          firstFailure (oneSong.doTranscode [109]) 0 ctx.streams ≠ none)) ∧
    (cgoGetMetadataFromFile oneSong BigRat.decimalSetString [109] = some none ↔
      ∀ ctx, oneSong.opening [109] ≠ .opened ctx) ∧
    ∀ stdout, oneSong.output native [109] = some stdout →
      ∃ text, stdout = text ++ [10] ∧ ∀ b ∈ text, 32 ≤ b.toNat :=
  readers_agree oneSong BigRat.decimalSetString [109]

end AudioFS.Analyze
