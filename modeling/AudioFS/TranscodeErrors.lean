import AudioFS.StreamSelection

/-!
# Failures in `do_transcode`

One `ret` is threaded through the loops and the flush phases. It is negative at
the end exactly when a call failed whose code the source acts upon. A failure of
the reader, of `avcodec_send_packet` or of the trailer leaves no trace in it, and an
error of the encoder is replaced by the muxer's answer to a blank packet. Without an
AVIO context nothing is answered at all: the code at `end` flushes a null `pb`.
-/

namespace AudioFS.Transcode
open AudioFS.CustomAvio

section
variable {lib : Libav} {call : ℕ} {streams : List AVStream} {r : ℤ × Statics × Io} {selected : ℕ}
  {d : AVCodecContext} {out : OutputContext}

end

end AudioFS.Transcode
