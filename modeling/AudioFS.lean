import AudioFS.Fingerprint
import AudioFS.TranscodeErrors
import AudioFS.TranscodeOutput
import AudioFS.Cleanup
import AudioFS.StreamFingerprints
import AudioFS.MemorySecrecy
import AudioFS.AvioContract
import AudioFS.BufferView
import AudioFS.BufferHistory
import AudioFS.BufferLoans
import AudioFS.TimeBase
import AudioFS.CompressedJson
import AudioFS.MetadataNodes
import AudioFS.MetadataResult
import AudioFS.MetadataHop
import AudioFS.MemoryPositions
import AudioFS.BufferResize
import AudioFS.ResourceLedger
import AudioFS.PacketReferences
import AudioFS.TargetFormat
import AudioFS.DsdRate
import AudioFS.LogBuffer
import AudioFS.LoanProgress
import AudioFS.CallDiscipline
import AudioFS.MemoryImage
import AudioFS.FrameFlow
import AudioFS.Analyze
import AudioFS.TranscodedFile
import AudioFS.MetadataReaders
import AudioFS.ContainerMetadata
import AudioFS.CanonicalDocument
import AudioFS.FingerprintLeaks
import AudioFS.OutputBackings
import AudioFS.ResamplerHistory
import AudioFS.RandomString
