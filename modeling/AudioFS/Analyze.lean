import AudioFS.CompressedJson
import AudioFS.FileTree
import AudioFS.MetadataHop
import AudioFS.MetadataNodes

/-!
# `audiofs-cli analyze`

The command walks a file tree. For every `.flac` path it has the `native` program
print the metadata, reads them, writes them under the configured algorithm, reads
them again and prints the first stream's fingerprint. A failed step leaves a nil
pointer or a zero value for the next one.
-/

namespace AudioFS.Analyze
open AudioFS.Metadata AudioFS.CompressedJson FileTree
open AudioFS.FileMetadata (unmarshalJSON marshalJSON)

abbrev Path := List UInt8

/-- The machine the command runs on: whether `native` can be started for a file, what libav makes
of the file, and how many entries its heap tolerates behind each table of nodes. -/
structure Host where
  names : LibavNames
  tableRoom : ℕ
  starts : Path → Bool
  opening : Path → Opening
  doTranscode : Path → ℕ → Transcoded

structure Config where
  algo : String
  level : ℤ

def Host.metadate (host : Host) (file : Path) : Option Returned :=
  (getMetadateFromFile host.names (host.opening file) (host.doTranscode file)).outcome
    host.tableRoom

/-- The exit code of `native` and what it wrote; nothing when it dies of a signal. The first
argument is its own name. -/
def nativeMain (host : Host) : List Path → Option (ℤ × List UInt8)
  | _ :: file :: _ =>
    match host.metadate file with
    | none => none
    | some .null => some (1, [])
    | some .emptyLiteral => some (0, printed [])
    | some (.heap json) => some (0, printed json)
  | _ => some (1, [])

/-- `exec.Command(…).Output()`: an error for a program that did not start or did not exit with
zero. -/
def Host.output (host : Host) (program file : Path) : Option (List UInt8) :=
  if host.starts file then
    match nativeMain host [program, file] with
    | some (code, stdout) => if code = 0 then some stdout else none
    | none => none
  else none

def native : Path := [110, 97, 116, 105, 118, 101]

section
variable (host : Host) (z : Zstd) (setString : String → Option ℚ) (config : Config)

/-- Nothing stands for the nil pointer that comes with an error. -/
def getMetadataFromFile (file : Path) : Option FileMetadata.Metadata :=
  (host.output native file).bind (unmarshalJSON setString)

def marshalPointer : Option FileMetadata.Metadata → List UInt8
  | none => GoJson.marshal .null
  | some f => marshalJSON BigRat.marshalText f

def marshallCompressed (val : Option FileMetadata.Metadata) : Option (List UInt8) :=
  marshallCompressedWithAlgo z marshalPointer config.algo config.level val

def unmarshallCompressed (data : List UInt8) : Option FileMetadata.Metadata :=
  unmarshallCompressedWithAlgo z (unmarshalJSON setString) config.algo data

def flacSuffix : Path := [46, 102, 108, 97, 99]

def line (chromaprint : String) (file : Path) : List UInt8 :=
  Utf8.encode chromaprint.toList ++ 9 :: file ++ [10]

/-- The callback for a path without an error, with what was printed so far. -/
def analyzeFile (file : Path) (stdout : List UInt8) : List UInt8 :=
  if flacSuffix <:+ file then
    let val := getMetadataFromFile host setString file
    let d := (marshallCompressed z config val).getD []
    let a := (unmarshallCompressed z setString config d).getD {}
    match a.streams.getD [] with
    | [] => stdout
    | s :: _ => stdout ++ line s.chromaprint file
  else stdout

def analyzeCallback {ε : Type} : Visit Path ε → List UInt8 → Option ε × List UInt8
  | (_, some error), stdout => (some error, stdout)
  | (file, none), stdout => (none, analyzeFile host z setString config file stdout)

def cmdAnalyze {ν ε : Type} (join : Path → ν → Path) (root : Path) (tree : Tree ν ε) :
    Option ε × List UInt8 :=
  walk join (analyzeCallback host z setString config) root tree []

/-! ## What is printed -/

/-- A file of which `native` returns metadata. -/
def Host.described (file : Path) : Option AVFormatContext :=
  match host.opening file with
  | .opened ctx =>
    if host.starts file ∧ ctx.streams.length ≤ host.tableRoom ∧
        firstFailure (host.doTranscode file) 0 ctx.streams = none then some ctx
    else none
  | _ => none

/-- The line for a file: its path and the fingerprint of its first stream. -/
def Host.lineOf (file : Path) : List UInt8 :=
  match (host.described file).bind fun ctx => ctx.streams.head? with
  | some s =>
    if flacSuffix <:+ file then line (chromaprintOf (host.doTranscode file) 0 s) file else []
  | none => []

end

section
variable {host : Host} {z : Zstd} {setString : String → Option ℚ} {config : Config}

theorem unmarshalJSON_newline : unmarshalJSON setString (printed []) = none := by
  have hparse : GoJson.unmarshal (printed []) = none := by decide +kernel
  rw [unmarshalJSON, FileMetadata.unmarshalPlain, hparse]
  rfl

theorem unmarshalJSON_null : unmarshalJSON setString (GoJson.marshal .null) = some {} := by
  rw [unmarshalJSON, FileMetadata.unmarshalPlain, GoJson.unmarshal_marshal]
  rfl

theorem output_of_started {file : Path} (h : host.starts file = true) :
    host.output native file = (nativeMain host [native, file]).bind fun r =>
      if r.1 = 0 then some r.2 else none := by
  rw [Host.output, if_pos h]
  cases nativeMain host [native, file] <;> rfl

/-- What the two readers are given of a file that was opened. -/
theorem metadate_of_opened {file : Path} {ctx : AVFormatContext}
    (h : host.opening file = .opened ctx) :
    host.metadate file =
      if ctx.streams.length ≤ host.tableRoom then
        match firstFailure (host.doTranscode file) 0 ctx.streams with
        | none => some (.heap (returnedText host.names (host.doTranscode file) ctx))
        | some .null => none
        | some (.handle _) => some .emptyLiteral
      else none := by
  rw [Host.metadate, outcome_eq, h, returned_eq]
  rfl

theorem metadate_of_unopened {file : Path} (h : ∀ ctx, host.opening file ≠ .opened ctx) :
    host.metadate file = some .null := by
  rw [Host.metadate, outcome_eq]
  cases hopen : host.opening file with
  | openFailed => rfl
  | noStreamInfo => rfl
  | opened ctx => exact absurd hopen (h ctx)

theorem getMetadataFromFile_eq (file : Path) :
    getMetadataFromFile host setString file = (host.described file).map fun ctx =>
      (metadataOf host.names (host.doTranscode file) ctx).fillTimeBase := by
  rw [getMetadataFromFile, Host.described]
  cases hstarts : host.starts file with
  | false =>
    rw [Host.output, hstarts]
    cases host.opening file <;> simp
  | true =>
    rw [output_of_started hstarts, nativeMain]
    cases hopen : host.opening file with
    | openFailed =>
      rw [metadate_of_unopened (by simp [hopen])]
      rfl
    | noStreamInfo =>
      rw [metadate_of_unopened (by simp [hopen])]
      rfl
    | opened ctx =>
      rw [metadate_of_opened hopen]
      dsimp only
      by_cases hroom : ctx.streams.length ≤ host.tableRoom
      · rw [if_pos hroom]
        cases hfail : firstFailure (host.doTranscode file) 0 ctx.streams with
        | some made => cases made <;> simp [unmarshalJSON_newline]
        | none =>
          have hwhite : Json.isWhite '\n' = true := rfl
          have hread := unmarshalJSON_returnedText setString host.names (host.doTranscode file) ctx
            (List.forall_mem_singleton.mpr hwhite)
          simpa [printed, hroom] using hread
      · simp [hroom]

theorem unmarshall_of_supported (hz : z.Lossless) (halgo : config.algo ∈ supported)
    (val : Option FileMetadata.Metadata) :
    unmarshallCompressed z setString config ((marshallCompressed z config val).getD []) =
      unmarshalJSON setString (marshalPointer val) := by
  by_cases hzstd : config.algo = "zstd"
  · simp [unmarshallCompressed, marshallCompressed, unmarshallCompressedWithAlgo,
      marshallCompressedWithAlgo, hzstd, hz _ _]
  · have hplain : config.algo = "none" ∨ config.algo = "" := by
      simpa [supported, hzstd] using halgo
    simp [unmarshallCompressed, marshallCompressed, unmarshallCompressedWithAlgo,
      marshallCompressedWithAlgo, hzstd, hplain]

theorem unmarshalJSON_marshalPointer (hs : BigRat.ReadsBack setString) (file : Path) :
    (unmarshalJSON setString (marshalPointer (getMetadataFromFile host setString file))).getD {} =
      (getMetadataFromFile host setString file).getD {} := by
  cases hval : getMetadataFromFile host setString file with
  | none => rw [marshalPointer, unmarshalJSON_null]; rfl
  | some f =>
    obtain ⟨stdout, -, hread⟩ := Option.bind_eq_some_iff.mp hval
    rw [marshalPointer, unmarshalJSON_marshalJSON hs hread]

theorem fillTimeBase_chromaprint (s : FileMetadata.Stream) :
    s.fillTimeBase.chromaprint = s.chromaprint := by
  rw [FileMetadata.Stream.fillTimeBase]
  cases s.timeBase with
  | some q => rfl
  | none =>
    by_cases hden : s.timeBaseDen = 0
    · rw [if_pos hden]
    · rw [if_neg hden]
      rfl

theorem streamOf_chromaprint (names : LibavNames) (doTranscode : ℕ → Transcoded) (i : ℕ)
    (s : AVStream) :
    (streamOf names doTranscode i s).fillTimeBase.chromaprint = chromaprintOf doTranscode i s := by
  rw [fillTimeBase_chromaprint, streamOf, chromaprintOf, AVStream.isAudio]
  cases s.codecpar <;> rfl

theorem analyzeFile_eq (hz : z.Lossless) (hs : BigRat.ReadsBack setString) (file : Path)
    (stdout : List UInt8) :
    analyzeFile host z setString config file stdout =
      stdout ++ if config.algo ∈ supported then host.lineOf file else [] := by
  have hread : ((unmarshallCompressed z setString config ((marshallCompressed z config
      (getMetadataFromFile host setString file)).getD [])).getD {}) =
      if config.algo ∈ supported then (getMetadataFromFile host setString file).getD {}
      else {} := by
    by_cases halgo : config.algo ∈ supported
    · rw [if_pos halgo, unmarshall_of_supported hz halgo, unmarshalJSON_marshalPointer hs]
    · have hrefused := unsupported_refused z (unmarshalJSON setString)
        (marshalJSON BigRat.marshalText) halgo config.level {}
      rw [if_neg halgo, unmarshallCompressed, (hrefused _).2]
      rfl
  simp only [analyzeFile, hread]
  simp only [getMetadataFromFile_eq, Host.lineOf]
  by_cases hflac : flacSuffix <:+ file
  · by_cases halgo : config.algo ∈ supported
    · simp only [if_pos hflac, if_pos halgo]
      cases host.described file with
      | none => exact (List.append_nil _).symm
      | some ctx =>
        cases hstreams : ctx.streams with
        | nil => simp [metadataOf, FileMetadata.Metadata.fillTimeBase, hstreams]
        | cons s streams =>
          simp [metadataOf, FileMetadata.Metadata.fillTimeBase, hstreams, streamOf_chromaprint]
    · simp only [if_pos hflac, if_neg halgo]
      exact (List.append_nil _).symm
  · simp only [if_neg hflac]
    cases (host.described file).bind fun ctx => ctx.streams.head? <;> simp

variable (host config) in
/-- The walk ends with the first error there is in the tree. Up to there, under every supported
algorithm and level, a line is printed for each `.flac` path of which `native` returned metadata
with a stream, in the order of the walk: the fingerprint C took of the first stream. Under any
other algorithm nothing is printed. -/
theorem analyze_prints (hz : z.Lossless) (hs : BigRat.ReadsBack setString) {ν ε : Type}
    (join : Path → ν → Path) (root : Path) (tree : Tree ν ε) :
    cmdAnalyze host z setString config join root tree =
      (firstError (visits join root tree),
        if config.algo ∈ supported then (accepted (visits join root tree)).flatMap host.lineOf
        else []) := by
  have hcallback : analyzeCallback (ε := ε) host z setString config =
      failFast (analyzeFile host z setString config) := by
    funext v stdout
    obtain ⟨file, error⟩ := v
    cases error <;> rfl
  have hfold (files : List Path) (stdout : List UInt8) :
      files.foldl (fun s path => analyzeFile host z setString config path s) stdout =
        stdout ++ if config.algo ∈ supported then files.flatMap host.lineOf else [] := by
    induction files generalizing stdout with
    | nil => simp
    | cons file files ih =>
      rw [List.foldl_cons, ih, analyzeFile_eq hz hs, List.append_assoc]
      split_ifs <;> rfl
  rw [cmdAnalyze, walk_eq, hcallback, runVisits_failFast, hfold]
  rfl

end

def oneSong : Host where
  names := namelessLibav
  tableRoom := 3
  starts _ := true
  opening _ := .opened (tagged [])
  doTranscode _ _ := .handle [65, 81]

/-- A song, a text, an entry that is gone by the time it is looked at, and another song. -/
def songs : Tree (List UInt8) ℕ :=
  .directory (.cons ([97] ++ flacSuffix) .file (.cons [98] .file
    (.cons [99] (.missing 2) (.cons ([100] ++ flacSuffix) .file .nil))))

theorem analyze_prints_songs :
    cmdAnalyze oneSong stored BigRat.decimalSetString ⟨"none", 3⟩
        (fun path name => path ++ 47 :: name) [109] songs =
      (some 2, [65, 81, 9, 109, 47, 97, 46, 102, 108, 97, 99, 10]) :=
  (analyze_prints oneSong ⟨"none", 3⟩ (fun _ _ => rfl) BigRat.decimalSetString_readsBack
    (fun path name => path ++ 47 :: name) [109] songs).trans (by decide +kernel)

end AudioFS.Analyze
