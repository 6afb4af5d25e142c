import AudioFS.Cleanup
import AudioFS.ResourceLedger
import AudioFS.TranscodedFile
import AudioFS.TranscodeErrors

/-!
# What fingerprints leave behind

For each fingerprint a handle is opened, written to, copied from and closed. The
copy is not freed, nor is the data block of the handle's buffer, so the blocks of
the program's own allocator grow by two for each audio stream of a process that
reads one container after the other. Two more come from libav: the AVIO context of
the call and the buffer inside it. What libav keeps in its other contexts is not
counted.
-/

namespace AudioFS.CustomAvio
open AudioFS.Buffer StepMachine

variable {q p : Process} {blocks : List ℕ} {fds : List Int32}

end AudioFS.CustomAvio

namespace AudioFS.Transcode
open AudioFS.CustomAvio StepMachine

/-- Of the AVIO context of a call and the buffer it was allocated around, the blocks that are live
after the call. -/
def Outcome.avioLeft (call : ℕ) (r : Outcome) : ℕ :=
  if r.atEnd.holds call false .pb then 2 - frees .pb r.accesses else 0

/-- The world, and how many blocks libav holds behind the AVIO contexts of earlier calls. -/
structure Footprint where
  world : World
  avio : ℕ

/-- What the stream loop leaves behind, when it gets through all streams. -/
def streamsWorld (c : Platform) (libs : ℕ → Libav) (all : List AVStream) :
    ℕ → List AVStream → List (Received AVPacket) → Footprint → Option Footprint
  | _, [], _, f => some f
  | i, stream :: streams, packets, f =>
    if !stream.isAudio then streamsWorld c libs all (i + 1) streams packets f
    else
      let r := doTranscode c (libs i) f.world (callOn all packets)
      match r.1.handle with
      | none => none
      | some handle =>
        match extractChromaprint c ⟨r.2.process, handle⟩ with
        | (none, _) => none
        | (some _, process) =>
          streamsWorld c libs all (i + 1) streams r.1.rest
            ⟨{ r.2 with process := process }, f.avio + r.1.avioLeft f.world.calls⟩

/-- The loop gets through all streams when each audio stream gets its fingerprint. -/
theorem streamsWorld_isSome_iff (c : Platform) (libs : ℕ → Libav) (all : List AVStream) (i : ℕ)
    (streams : List AVStream) (packets : List (Received AVPacket)) (f : Footprint) :
    (streamsWorld c libs all i streams packets f).isSome ↔
      (getMetadateStreams c libs all i streams packets f.world).map Fingerprint.stream =
        (audioStreams i streams).map Prod.fst := by
  induction streams generalizing i packets f with
  | nil => simp [streamsWorld, getMetadateStreams, audioStreams]
  | cons stream streams ih =>
    cases haudio : stream.isAudio with
    | false =>
      rw [getMetadateStreams_of_other haudio, audioStreams_of_other haudio, ← ih]
      simp [streamsWorld, haudio]
    | true =>
      rw [audioStreams_of_audio haudio, List.map_cons]
      simp only [streamsWorld, getMetadateStreams, haudio, Bool.not_true, Bool.false_eq_true,
        if_false]
      cases hhandle : (doTranscode c (libs i) f.world (callOn all packets)).1.handle with
      | none => simp
      | some handle =>
        dsimp only
        generalize extractChromaprint c
          ⟨(doTranscode c (libs i) f.world (callOn all packets)).2.process, handle⟩ = e
        obtain ⟨chromaprint, process⟩ := e
        cases chromaprint with
        | none => simp
        | some text =>
          simp only [List.map_cons, List.cons.injEq, true_and]
          exact ih _ _ _

variable {c : Platform}

end AudioFS.Transcode
