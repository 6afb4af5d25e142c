import AudioFS.Buffer

/-!
# `custom_avio.c`

The file handle FFmpeg reads, writes and seeks through, backed by a growing
memory buffer or by a file descriptor. Each function takes the process and the
handle it is called on and returns what it answers together with both of them
afterwards. A copy or a dereference outside a live block is counted as a fault of
the process. The program dies of one through `NULL` or of a wrapped length, while the
functions here go on with the assignments that follow it; what is proved about
answers, ledgers and images therefore asks for calls that make no such access.
-/

namespace AudioFS.CustomAvio
open AudioFS.CInteger AudioFS.Buffer

structure AudiofsAvioHandle where
  addr : ℕ
  file : Int32
  inMemory : Bool
  buffer : Option AudiofsBuffer
  apparentSize : UInt64
  position : UInt64

structure Session where
  process : Process
  handle : AudiofsAvioHandle

def EINVAL : Int64 := 22
def ENOMEM : Int64 := 12
def SEEK_SET : Int32 := 0
def SEEK_CUR : Int32 := 1
def SEEK_END : Int32 := 2

/-- The bytes `handle->buffer->data` points to, nothing for a null pointer. -/
def AudiofsAvioHandle.data (h : AudiofsAvioHandle) : List UInt8 :=
  match h.buffer with
  | none => []
  | some b => Process.oldBytes b.data

def AudiofsAvioHandle.len (h : AudiofsAvioHandle) : UInt64 :=
  match h.buffer with
  | none => 0
  | some b => b.len

/-- A use of `handle->buffer`, a fault when it is `NULL`. -/
def Session.deref (s : Session) : Process :=
  if s.handle.buffer.isNone then s.process.fault else s.process

def AudiofsAvioHandle.endPosition (h : AudiofsAvioHandle) (bs64 : UInt64) : UInt64 :=
  min (h.position + bs64) h.apparentSize

def AudiofsAvioHandle.readCount (h : AudiofsAvioHandle) (bs64 : UInt64) : UInt64 :=
  h.endPosition bs64 - h.position

def audiofsAvioRead (c : Platform) (s : Session) (bufSize : Int32) :
    (Int32 × List UInt8) × Session :=
  if bufSize < 0 ∨ INT32_MAX < bufSize then ((-1, []), s)
  else
    let bs64 := toU64 bufSize
    if s.handle.inMemory then
      let endPosition := s.handle.endPosition bs64
      let readCount := s.handle.readCount bs64
      -- the copy starts at the beginning of the buffer, whatever the position
      let copy := s.deref.copyOut s.handle.data readCount.toNat
      ((int32 readCount, copy.1), ⟨copy.2, { s.handle with position := endPosition }⟩)
    else
      let r := c.read s.process.syscalls s.handle.file bs64
      ((int32 r.1.toUInt64, r.2), { s with process := s.process.syscall })

/-- The size the loop asks for next: four tests in turn, of which the last match wins. -/
def growthStep (len : UInt64) : UInt64 :=
  let newSize : UInt64 := 0
  let newSize := if 16 * 1024 * 1024 ≤ len then len + 16 * 1024 * 1024 else newSize
  let newSize := if len < 16 * 1024 * 1024 then 16 * 1024 * 1024 else newSize
  let newSize := if len < 1024 * 1024 then 1024 * 1024 else newSize
  if len < 1024 * 64 then 1024 * 64 else newSize

/-- The growth loop on the handle's buffer. Every round makes the buffer longer, so the
distance to the requested size bounds the rounds. -/
def resizeLoop (c : Platform) (bufSize : UInt64) :
    ℕ → Process → AudiofsBuffer → Int64 × AudiofsBuffer × Process
  | 0, p, b => (0, b, p)
  | rounds + 1, p, b =>
    if b.len < max bufSize b.len then
      if INT64_MAX < bufSize then (-1, b, p)
      else
        let newSize := growthStep b.len
        if newSize ≤ 0 then (-1, b, p)
        else
          match audiofsBufferRealloc c p b newSize with
          | (false, b, p) => (-1, b, p)
          | (true, b, p) => resizeLoop c bufSize rounds p b
    else (0, b, p)

/-- Through a `NULL` buffer the program dies here; the answer then stands for nothing. -/
def audiofsAvioResizeTo (c : Platform) (s : Session) (bufSize : UInt64) : Int64 × Session :=
  match s.handle.buffer with
  | none => (-1, { s with process := s.process.fault })
  | some b =>
    let r := resizeLoop c bufSize (bufSize.toNat - b.len.toNat) s.process b
    (r.1, ⟨r.2.2, { s.handle with buffer := some r.2.1 }⟩)

/-- The `memcpy` to `handle->buffer->data`. -/
def Session.store (s : Session) (bytes : List UInt8) : Session :=
  match s.handle.buffer with
  | none => { s with process := s.process.fault }
  | some b =>
    match b.data with
    | none => { s with process := if bytes = [] then s.process else s.process.fault }
    | some block =>
      let copy := s.process.copyIn block.bytes bytes
      let b := { b with data := some { block with bytes := copy.1 } }
      ⟨copy.2, { s.handle with buffer := some b }⟩

/-- What a caller of the write callback passes: `bufSize` and the bytes found at `buf`. -/
structure Chunk where
  bufSize : Int32
  bytes : List UInt8
  length_eq : bytes.length = bufSize.toInt.toNat

def Chunk.one (b : UInt8) : Chunk := ⟨1, [b], rfl⟩

def audiofsAvioWrite (c : Platform) (s : Session) (buf : Chunk) : Int32 × Session :=
  if buf.bufSize < 0 ∨ INT32_MAX < buf.bufSize then (-1, s)
  else
    let bs64 := toU64 buf.bufSize
    if s.handle.inMemory then
      let r := audiofsAvioResizeTo c s (s.handle.position + bs64)
      if r.1 ≠ 0 then (-1, r.2)
      else
        -- here too the destination is the beginning of the buffer
        let s := r.2.store buf.bytes
        (int32 bs64,
          { s with handle := { s.handle with
              position := s.handle.position + bs64
              apparentSize := s.handle.apparentSize + bs64 } })
    else
      let ret := c.write s.process.syscalls s.handle.file buf.bytes
      (int32 ret.toUInt64, { s with process := s.process.syscall })

/-- The part of a memory seek that follows the choice of a target. -/
def seekTo (c : Platform) (s : Session) (target : Int64) : Int64 × Session :=
  if withinBounds 0 target s.handle.apparentSize = 0 then
    let r := audiofsAvioResizeTo c s target.toUInt64
    if r.1 ≠ 0 then (-ENOMEM, r.2)
    else (target, { r.2 with handle := { r.2.handle with position := target.toUInt64 } })
  else (target, { s with handle := { s.handle with position := target.toUInt64 } })

def audiofsAvioSeek (c : Platform) (s : Session) (offset : Int64) (whence : Int32) :
    Int64 × Session :=
  -- the second half of the source's test, `offset > INT64_MAX`, is never true
  if offset < 0 then (-1, s)
  else if s.handle.inMemory then
    if whence = SEEK_CUR then
      seekTo c s (s.handle.position + offset.toUInt64).toInt64
    else if whence = SEEK_SET then
      seekTo c s offset
    else if whence = SEEK_END then
      let target := (s.handle.apparentSize + offset.toUInt64).toInt64
      if target < 0 then (-EINVAL, s) else seekTo c s target
    else (-EINVAL, s)
  else
    (c.lseek s.process.syscalls s.handle.file offset whence,
      { s with process := s.process.syscall })

def memoryName : List UInt8 := [109, 101, 109, 111, 114, 121]

/-- `0 == memcmp(filename, "memory", strlen(filename))` for a name given without its
terminator: the caller's string decides how many bytes are compared. -/
def namesMemory (filename : List UInt8) : Bool :=
  filename == (memoryName ++ [0]).take filename.length

def audiofsAvioOpen (c : Platform) (p : Process) (filename : List UInt8) :
    Option AudiofsAvioHandle × Process :=
  match p.calloc c sizeofHandle with
  | (none, p) => (none, p)
  | (some block, p) =>
    if namesMemory filename then
      -- `handle->buffer < 0` never holds, so a null buffer is kept
      let r := audiofsBufferAlloc c p 1024
      (some { addr := block.addr, file := 0, inMemory := true, buffer := r.1,
              apparentSize := 0, position := 0 }, r.2)
    else
      let file := c.openFile p.syscalls filename
      if file < 0 then (none, p.syscall)
      else
        (some { addr := block.addr, file := file, inMemory := false, buffer := none,
                apparentSize := 0, position := 0 },
          { p.syscall with descriptors := file :: p.descriptors })

/-- The buffer structure is released, its data block is not. -/
def audiofsAvioClose (s : Session) : Process :=
  let p :=
    if s.handle.inMemory then
      match s.handle.buffer with
      | none => s.process
      | some b => s.process.release b.addr
    else { s.process.syscall with descriptors := s.process.descriptors.erase s.handle.file }
  p.release s.handle.addr

def audiofsAvioGetSize (c : Platform) (s : Session) : Int64 × Process :=
  if s.handle.inMemory then (s.handle.apparentSize.toInt64, s.process)
  else
    match c.fstat s.process.syscalls s.handle.file with
    | none => (-1, s.process.syscall)
    | some size => (if size = 0 then -1 else size, s.process.syscall)

def audiofsAvioIsMemoryBacked (h : AudiofsAvioHandle) : Bool := h.inMemory

inductive Op
  | read (bufSize : Int32)
  | write (buf : Chunk)
  | seek (offset : Int64) (whence : Int32)

structure Answer where
  ret : ℤ
  bytes : List UInt8
  deriving DecidableEq

def step (c : Platform) (s : Session) : Op → Answer × Session
  | .read bufSize =>
    let r := audiofsAvioRead c s bufSize
    (⟨r.1.1.toInt, r.1.2⟩, r.2)
  | .write buf =>
    let r := audiofsAvioWrite c s buf
    (⟨r.1.toInt, []⟩, r.2)
  | .seek offset whence =>
    let r := audiofsAvioSeek c s offset whence
    (⟨r.1.toInt, []⟩, r.2)

/-- A memory handle freshly returned by `audiofs_avio_open("memory")`. -/
def Opened (c : Platform) (s : Session) : Prop :=
  ∃ p, audiofsAvioOpen c p memoryName = (some s.handle, s.process)

def OpenedGranted (c : Platform) (s : Session) : Prop :=
  ∃ p, audiofsAvioOpen c p memoryName = (some s.handle, s.process) ∧
    s.process.refused = p.refused

theorem OpenedGranted.opened {c : Platform} {s : Session} (h : OpenedGranted c s) :
    Opened c s := by
  obtain ⟨p, hopen, -⟩ := h
  exact ⟨p, hopen⟩

def Session.first : Session where
  process := (audiofsAvioOpen Platform.generous Process.start memoryName).2
  handle :=
    { addr := 0
      file := 0
      inMemory := true
      buffer := (audiofsBufferAlloc Platform.generous Process.start.grant 1024).1
      apparentSize := 0
      position := 0 }

theorem first_opened : OpenedGranted Platform.generous Session.first :=
  ⟨Process.start, rfl, rfl⟩

end AudioFS.CustomAvio
