import AudioFS.Platform

/-!
# `audiofs_buffer`

The heap buffer of `util.h`: allocation, the validity test, and the resize that
every growth of a memory file goes through. A mutex is modelled by whether it is
held; a resize is described from the moment its caller got `lock`.
-/

namespace AudioFS.Buffer
open AudioFS.CInteger

def contextMagicA : UInt32 := 0xd0d0cafe

/-- `sizeof(audiofs_buffer)` and `sizeof(audiofs_avio_handle)` on a 64-bit target. -/
def sizeofBuffer : UInt64 := 112
def sizeofHandle : UInt64 := 32

structure AudiofsBuffer where
  addr : ℕ
  cookie : UInt32
  data : Option Block
  len : UInt64
  lock : Bool
  self : ℕ
  usedOutsideAudiofs : Bool

def audiofsBufferAlloc (c : Platform) (p : Process) (size : UInt64) :
    Option AudiofsBuffer × Process :=
  match p.calloc c sizeofBuffer with
  | (none, p) => (none, p)
  | (some header, p) =>
    let buffer : AudiofsBuffer :=
      { addr := header.addr, cookie := contextMagicA, data := none, len := size,
        lock := false, self := header.addr, usedOutsideAudiofs := false }
    if size = 0 then (some buffer, p)
    else
      match p.calloc c size with
      | (none, p) => (none, p.free (some header))
      | (some data, p) =>
        (some { buffer with data := some data, usedOutsideAudiofs := false, lock := false }, p)

def audiofsBufferOk (b : AudiofsBuffer) : Bool :=
  b.cookie == contextMagicA && b.self == b.addr

/-- The bytes of a freshly resized block after the clean-up of new regions. The guard compares
the old length with the new one the wrong way round: growing clears nothing, and shrinking
clears a range that starts past the end of the new block. What lies there is no part of this
model; `BufferStructure` has it. -/
def blankNewRegions (p : Process) (oldLen size : UInt64) (bytes : List UInt8) :
    List UInt8 × Process :=
  if size < oldLen then p.zeroRange bytes oldLen.toNat (oldLen - size).toNat
  else (bytes, p)

def emergencyAlloc (c : Platform) (p : Process) (b : AudiofsBuffer) : AudiofsBuffer × Process :=
  if b.len ≠ 0 ∧ b.data.isNone then
    let r := p.calloc c b.len
    ({ b with data := r.1 }, r.2)
  else (b, p)

def audiofsBufferRealloc (c : Platform) (p : Process) (b : AudiofsBuffer) (size : UInt64) :
    Bool × AudiofsBuffer × Process :=
  if !audiofsBufferOk b then (false, b, p)
  else
    let b := { b with lock := true, usedOutsideAudiofs := false }
    if size = 0 then
      (true, { b with data := none, len := 0, lock := false }, p.free b.data)
    else if size ≠ b.len then
      match p.realloc c b.data size with
      | (none, p) => (false, { b with lock := false }, p)
      | (some block, p) =>
        let r := blankNewRegions p b.len size block.bytes
        let b := { b with len := size, data := some { block with bytes := r.1 } }
        let e := emergencyAlloc c r.2 b
        (true, { e.1 with lock := false }, e.2)
    else
      let e := emergencyAlloc c p b
      (true, { e.1 with lock := false }, e.2)

structure AudiofsBuffer.Holds (b : AudiofsBuffer) (bytes : List UInt8) : Prop where
  ok : audiofsBufferOk b = true
  data : ∃ addr, b.data = some ⟨addr, bytes⟩
  length : bytes.length = b.len.toNat

/-- The buffer an allocation whose first call is the next one of `p` fills in. -/
def AudiofsBuffer.fresh (p : Process) (size : UInt64) (data : Option Block) : AudiofsBuffer :=
  { addr := p.calls, cookie := contextMagicA, data := data, len := size, lock := false,
    self := p.calls, usedOutsideAudiofs := false }

theorem audiofsBufferAlloc_fresh (c : Platform) (p : Process) (size : UInt64) :
    audiofsBufferAlloc c p size =
      if c.grants p.calls sizeofBuffer = true then
        if size = 0 then (some (.fresh p 0 none), p.grant)
        else if c.grants (p.calls + 1) size = true then
          (some (.fresh p size (some ⟨p.calls + 1, List.replicate size.toNat 0⟩)), p.grant.grant)
        else (none, p.grant.refuse.release p.calls)
      else (none, p.refuse) := by
  have hcalls : p.grant.calls = p.calls + 1 := rfl
  cases hg₁ : c.grants p.calls sizeofBuffer with
  | false => simp [audiofsBufferAlloc, Process.calloc, hg₁]
  | true =>
    by_cases hsize : size = 0
    · simp [audiofsBufferAlloc, Process.calloc, hg₁, hsize, AudiofsBuffer.fresh]
    cases hg₂ : c.grants (p.calls + 1) size with
    | false => simp [audiofsBufferAlloc, Process.calloc, hg₁, hcalls, hg₂, hsize, Process.free]
    | true =>
      simp [audiofsBufferAlloc, Process.calloc, hg₁, hcalls, hg₂, hsize, AudiofsBuffer.fresh]

theorem audiofsBufferAlloc_some {c : Platform} {p p' : Process} {size : UInt64}
    {b : AudiofsBuffer} (hsize : size ≠ 0) (h : audiofsBufferAlloc c p size = (some b, p')) :
    b.Holds (List.replicate size.toNat 0) ∧ b.len = size := by
  rw [audiofsBufferAlloc_fresh, if_neg hsize] at h
  split_ifs at h
  · simp only [Prod.mk.injEq, Option.some.injEq] at h
    obtain ⟨rfl, -⟩ := h
    exact ⟨⟨by simp [audiofsBufferOk, AudiofsBuffer.fresh], ⟨_, rfl⟩, List.length_replicate⟩, rfl⟩
  · simp at h
  · simp at h

theorem ne_of_growing {oldLen size : UInt64} (h : oldLen < size) : size ≠ 0 ∧ size ≠ oldLen := by
  have h' := UInt64.lt_iff_toNat_lt.mp h
  constructor
  · rintro rfl
    simp at h'
  · rintro rfl
    exact lt_irrefl _ h'

theorem blankNewRegions_grow (p : Process) {oldLen size : UInt64} (h : oldLen < size)
    (bytes : List UInt8) : blankNewRegions p oldLen size bytes = (bytes, p) := by
  unfold blankNewRegions
  rw [if_neg]
  rw [UInt64.lt_iff_toNat_lt] at h ⊢
  omega

/-- The buffer a call leaves when the allocator refused, and when it granted a new block. -/
def AudiofsBuffer.unchanged (b : AudiofsBuffer) : AudiofsBuffer :=
  { b with lock := false, usedOutsideAudiofs := false }

def AudiofsBuffer.resized (b : AudiofsBuffer) (size : UInt64) (block : Block) : AudiofsBuffer :=
  { b with data := some block, len := size, lock := false, usedOutsideAudiofs := false }

theorem AudiofsBuffer.Holds.unchanged {b : AudiofsBuffer} {bytes : List UInt8}
    (h : b.Holds bytes) : b.unchanged.Holds bytes :=
  ⟨h.ok, h.data, h.length⟩

theorem AudiofsBuffer.Holds.resized {b : AudiofsBuffer} {bytes : List UInt8} (h : b.Holds bytes)
    (c : Platform) (call : ℕ) (size : UInt64) :
    (b.resized size ⟨call, Process.reallocated c call bytes size.toNat⟩).Holds
      (Process.reallocated c call bytes size.toNat) :=
  ⟨h.ok, ⟨call, rfl⟩, Process.length_reallocated c call bytes size.toNat⟩

/-- The exits of a resize in the order the program tries them. A block it just got makes the
emergency allocation superfluous, so only a resize to the length the buffer has can get there. -/
theorem audiofsBufferRealloc_exits (c : Platform) (p : Process) (b : AudiofsBuffer)
    (size : UInt64) :
    audiofsBufferRealloc c p b size =
      let blanked := blankNewRegions (p.free b.data).grant b.len size
        (Process.reallocated c p.calls (Process.oldBytes b.data) size.toNat)
      if audiofsBufferOk b = false then (false, b, p)
      else if size = 0 then (true, { b.unchanged with data := none, len := 0 }, p.free b.data)
      else if size = b.len then (true, emergencyAlloc c p b.unchanged)
      else if c.grants p.calls size = false then (false, b.unchanged, p.refuse)
      else (true, b.resized size ⟨p.calls, blanked.1⟩, blanked.2) := by
  cases hok : audiofsBufferOk b with
  | false => simp [audiofsBufferRealloc, hok]
  | true =>
    by_cases hzero : size = 0
    · simp [audiofsBufferRealloc, hok, hzero, AudiofsBuffer.unchanged]
    by_cases hsame : size = b.len
    · have hlen : b.len ≠ 0 := hsame ▸ hzero
      cases hdata : b.data <;>
        simp [audiofsBufferRealloc, hok, hsame, hlen, hdata, emergencyAlloc,
          AudiofsBuffer.unchanged]
    cases hg : c.grants p.calls size with
    | false =>
      simp [audiofsBufferRealloc, hok, hzero, hsame, Process.realloc, hg, AudiofsBuffer.unchanged]
    | true =>
      simp [audiofsBufferRealloc, hok, hzero, hsame, Process.realloc, hg, emergencyAlloc,
        AudiofsBuffer.resized]

/-- Growing a held buffer: the allocator refuses and the contents stay, or the buffer holds
the old contents followed by whatever the new memory contained. -/
theorem audiofsBufferRealloc_grow (c : Platform) (p : Process) {b : AudiofsBuffer}
    {bytes : List UInt8} {size : UInt64} (hb : b.Holds bytes) (hlt : b.len < size) :
    audiofsBufferRealloc c p b size =
      if c.grants p.calls size then
        (true, b.resized size ⟨p.calls, Process.reallocated c p.calls bytes size.toNat⟩,
          (p.free b.data).grant)
      else (false, b.unchanged, p.refuse) := by
  obtain ⟨hok, ⟨addr, hdata⟩, -⟩ := hb
  obtain ⟨hzero, hne⟩ := ne_of_growing hlt
  rw [audiofsBufferRealloc_exits]
  cases c.grants p.calls size with
  | false => simp [hok, hzero, hne]
  | true => simp [hok, hzero, hne, hdata, blankNewRegions_grow _ hlt, Process.oldBytes]

end AudioFS.Buffer
