import AudioFS.Buffer
import AudioFS.ByteHeap

/-!
# `audiofs_buffer` in memory

The structure of `types.h` byte by byte, and the functions of `util.h` on it as loads
and stores. What a resize blanks may lie outside of its own block, so here a write goes
wherever its address says, into other buffers too.
-/

namespace AudioFS.BufferStructure
open ByteMemory ByteHeap AudioFS.Buffer

structure Field where
  offset : ℕ
  width : ℕ

def cookie : Field := ⟨0, 4⟩
def data : Field := ⟨8, 8⟩
def len : Field := ⟨16, 8⟩
/-- The word of the 40 bytes of a `pthread_mutex_t` that tells whether it is held. -/
def lock : Field := ⟨24, 4⟩
def self : Field := ⟨64, 8⟩
def usedOutsideAudiofs : Field := ⟨72, 4⟩

def get (h : Heap) (b : ℕ) (f : Field) : ℕ := load h.memory (b + f.offset) f.width

def set (h : Heap) (b : ℕ) (f : Field) (v : ℕ) : Heap := h.store (b + f.offset) f.width v

def pthreadMutexLock (h : Heap) (b : ℕ) (mutex : Field) : Heap := set h b mutex 1

def pthreadMutexUnlock (h : Heap) (b : ℕ) (mutex : Field) : Heap := set h b mutex 0

/-- `AUDIOFS_FREE_NO_TRACE(buffer->data)`. -/
def freeData (c : Allocator) (h : Heap) (b : ℕ) : Heap :=
  if get h b data ≠ 0 then set (h.free c (get h b data)) b data 0 else h

/-- The fields that are set before the data are allocated. -/
def initialise (h : Heap) (b : ℕ) (size : UInt64) : Heap :=
  let h := set h b cookie contextMagicA.toNat
  let h := set h b self b
  set h b len size.toNat

def audiofsBufferAlloc (c : Allocator) (h : Heap) (size : UInt64) : Option ℕ × Heap :=
  match h.calloc c sizeofBuffer.toNat with
  | (none, h) => (none, h)
  | (some buffer, h) =>
    let h := initialise h buffer size
    if size = 0 then (some buffer, h)
    else
      match h.calloc c size.toNat with
      | (none, h) => (none, (set h buffer data 0).free c buffer)
      | (some block, h) =>
        let h := set h buffer data block
        let h := pthreadMutexUnlock h buffer usedOutsideAudiofs
        (some buffer, pthreadMutexUnlock h buffer lock)

def audiofsBufferOk (h : Heap) (b : ℕ) : Bool :=
  b != 0 && get h b cookie == contextMagicA.toNat && get h b self == b

/-- What `audiofs_buffer_realloc` returned, and whether it got into the branch that allocates
for a buffer which has a length but no data. -/
structure Answer where
  resized : Bool
  emergency : Bool
  deriving DecidableEq

def enter (h : Heap) (b : ℕ) : Heap :=
  pthreadMutexUnlock (pthreadMutexLock h b lock) b usedOutsideAudiofs

/-- The last part of a resize: the emergency allocation, and the return. -/
def leave (c : Allocator) (h : Heap) (b : ℕ) : Answer × Heap :=
  if get h b len ≠ 0 ∧ get h b data = 0 then
    let r := h.calloc c (get h b len)
    (⟨true, true⟩, pthreadMutexUnlock (set r.2 b data (r.1.getD 0)) b lock)
  else (⟨true, false⟩, pthreadMutexUnlock h b lock)

/-- The range that `memset(new_ptr + buffer->len, 0, buffer->len - size)` clears. -/
def blanked (new oldLen size : ℕ) : Region := ⟨new + oldLen, oldLen - size⟩

def audiofsBufferRealloc (c : Allocator) (h : Heap) (b : ℕ) (size : UInt64) : Answer × Heap :=
  if !audiofsBufferOk h b then (⟨false, false⟩, h)
  else
    let h := enter h b
    if size = 0 then
      let h := set (freeData c h b) b len 0
      (⟨true, false⟩, pthreadMutexUnlock h b lock)
    else if size.toNat ≠ get h b len then
      match h.realloc c (get h b data) size.toNat with
      | (none, h) => (⟨false, false⟩, pthreadMutexUnlock h b lock)
      | (some new, h) =>
        let h :=
          if size.toNat < get h b len then h.clear c (blanked new (get h b len) size.toNat) else h
        let h := set h b len size.toNat
        let h := set h b data new
        leave c h b
    else leave c h b

/-! ### Fields -/

def Field.Apart (f g : Field) : Prop :=
  f.offset + f.width ≤ g.offset ∨ g.offset + g.width ≤ f.offset

instance (f g : Field) : Decidable (f.Apart g) := inferInstanceAs (Decidable (_ ∨ _))

/-- The block the structure at `b` lies in. -/
def header (b : ℕ) : Region := ⟨b, sizeofBuffer.toNat⟩

def Field.Inside (f : Field) : Prop := f.offset + f.width ≤ sizeofBuffer.toNat

instance (f : Field) : Decidable f.Inside := inferInstanceAs (Decidable (_ ≤ _))

section Fields

variable {h h' : Heap} {b v : ℕ} {f g : Field}

@[simp] theorem set_live (h : Heap) (b : ℕ) (f : Field) (v : ℕ) : (set h b f v).live = h.live := rfl

theorem set_sound (hs : Sound h) (b : ℕ) (f : Field) (v : ℕ) : Sound (set h b f v) :=
  store_sound hs _ _ _

theorem get_set (h : Heap) (b : ℕ) (hv : v < 256 ^ f.width) : get (set h b f v) b f = v :=
  load_store h.memory (b + f.offset) hv

theorem get_set_apart (h : Heap) (b v : ℕ) (hfg : f.Apart g) :
    get (set h b f v) b g = get h b g := by
  apply load_store_outside
  unfold Field.Apart at hfg
  omega

/-- A store into one structure leaves the other blocks alone. -/
theorem set_keeps (h : Heap) {kept : List Region} (hkept : ∀ r ∈ kept, (header b).Apart r)
    (v : ℕ) (hf : f.Inside) : Keeps kept h (set h b f v) := by
  apply store_keeps
  intro r hr
  obtain ⟨-, hrange⟩ := hkept r hr
  unfold Field.Inside at hf
  simp only [header, Region.stop] at hrange ⊢
  omega

theorem header_holds (b : ℕ) (hf : f.Inside) {i : ℕ} (hi : i < f.width) :
    (header b).Holds (b + f.offset + i) := by
  unfold Field.Inside at hf
  simp only [header, Region.Holds, Region.stop]
  omega

theorem get_keeps {kept : List Region} (hk : Keeps kept h h') (hb : header b ∈ kept)
    (hf : f.Inside) : get h' b f = get h b f :=
  load_congr fun _ hi => hk.memory _ ⟨header b, hb, header_holds b hf hi⟩

end Fields

end AudioFS.BufferStructure
