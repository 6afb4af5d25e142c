import AudioFS.MemoryBounds

/-!
# What a call does to the sizes

The length of the buffer and the size counter after a call, computed from the
state before it and the answers of the allocator alone. None of it depends on a
byte in memory, so two runs that differ in their bytes only keep equal sizes.
-/

namespace AudioFS.CustomAvio
open AudioFS.CInteger AudioFS.Buffer StepMachine

/-- The length the growth loop stops at, whether it reached `size` or gave up. -/
def settledLen (c : Platform) (size : UInt64) : ℕ → ℕ → UInt64 → UInt64
  | 0, _, len => len
  | rounds + 1, calls, len =>
    if len < size ∧ ¬ INT64_MAX < size ∧ c.grants calls (growthStep len) = true then
      settledLen c size rounds (calls + 1) (growthStep len)
    else len

def Session.settled (c : Platform) (s : Session) (size : UInt64) : UInt64 :=
  match s.handle.buffer with
  | none => 0
  | some b => settledLen c size (size.toNat - b.len.toNat) s.process.calls b.len

def AudiofsAvioHandle.seekTarget (h : AudiofsAvioHandle) (offset : Int64) (whence : Int32) :
    Option Int64 :=
  if whence = SEEK_CUR then some (h.position + offset.toUInt64).toInt64
  else if whence = SEEK_SET then some offset
  else if whence = SEEK_END then
    if (h.apparentSize + offset.toUInt64).toInt64 < 0 then none
    else some (h.apparentSize + offset.toUInt64).toInt64
  else none

/-- The size a call asks the growth loop for, if it calls it at all. -/
def AudiofsAvioHandle.asks (h : AudiofsAvioHandle) : Op → Option UInt64
  | .read _ => none
  | .write buf => if buf.bufSize < 0 then none else some (h.position + toU64 buf.bufSize)
  | .seek offset whence =>
    if offset < 0 then none
    else
      match h.seekTarget offset whence with
      | none => none
      | some target => if withinBounds 0 target h.apparentSize = 0 then some target.toUInt64 else none

def Session.lenAfter (c : Platform) (s : Session) (op : Op) : UInt64 :=
  match s.handle.asks op with
  | none => s.handle.len
  | some size => s.settled c size

def Session.sizeAfter (c : Platform) (s : Session) : Op → UInt64
  | .write buf =>
    if 0 ≤ buf.bufSize ∧ (s.grown c (s.handle.position + toU64 buf.bufSize)).isSome = true then
      s.handle.apparentSize + toU64 buf.bufSize
    else s.handle.apparentSize
  | _ => s.handle.apparentSize

theorem resizeLoop_settledLen (c : Platform) (size : UInt64) (rounds : ℕ) {p : Process}
    {b : AudiofsBuffer} {bytes : List UInt8} (hb : b.Holds bytes) :
    (resizeLoop c size rounds p b).2.1.len = settledLen c size rounds p.calls b.len := by
  induction rounds generalizing p b bytes with
  | zero => rfl
  | succ rounds ih =>
    rw [resizeLoop_succ c size rounds p hb, settledLen]
    by_cases hlt : b.len < size
    · by_cases hbig : INT64_MAX < size
      · simp [hlt, hbig]
      · simp only [if_pos hlt, if_neg hbig]
        cases hg : c.grants p.calls (growthStep b.len) with
        | false =>
          rw [if_neg (by simp)]
          simp [AudiofsBuffer.unchanged]
        | true =>
          simp only [if_true, hlt, hbig, not_false_eq_true, and_self,
            ← p.free_grant_calls b.data]
          exact ih (hb.resized c p.calls (growthStep b.len))
    · simp [hlt]

theorem resizeTo_settled (c : Platform) {s : Session} {b : AudiofsBuffer} {bytes : List UInt8}
    (m : Memory s b bytes) (size : UInt64) :
    (audiofsAvioResizeTo c s size).2.handle.len = s.settled c size := by
  have hloop := resizeLoop_settledLen c size (size.toNat - b.len.toNat) (p := s.process) m.holds
  simpa only [audiofsAvioResizeTo, Session.settled, AudiofsAvioHandle.len, m.buffer] using hloop

theorem seekTo_len (c : Platform) {s : Session} {b : AudiofsBuffer} {bytes : List UInt8}
    (m : Memory s b bytes) (target : Int64) :
    (seekTo c s target).2.handle.len =
      if withinBounds 0 target s.handle.apparentSize = 0 then s.settled c target.toUInt64
      else s.handle.len := by
  by_cases hin : withinBounds 0 target s.handle.apparentSize = 0
  · simp only [seekTo, if_pos hin, ← resizeTo_settled c m]
    split_ifs <;> rfl
  · rw [seekTo, if_neg hin, if_neg hin]
    rfl

theorem avioSeek_eq (c : Platform) {s : Session} (h : s.handle.inMemory = true) (offset : Int64)
    (whence : Int32) :
    (∃ error, audiofsAvioSeek c s offset whence = (error, s) ∧
        (offset < 0 ∨ s.handle.seekTarget offset whence = none)) ∨
      ¬ offset < 0 ∧ ∃ target, s.handle.seekTarget offset whence = some target ∧
        audiofsAvioSeek c s offset whence = seekTo c s target := by
  by_cases hneg : offset < 0
  · exact .inl ⟨-1, by rw [audiofsAvioSeek, if_pos hneg], .inl hneg⟩
  rw [audiofsAvioSeek, if_neg hneg, if_pos h, AudiofsAvioHandle.seekTarget]
  simp only [hneg, false_or, not_false_eq_true, true_and]
  split_ifs with hcur hset hend hover
  · exact .inr ⟨_, rfl, rfl⟩
  · exact .inr ⟨_, rfl, rfl⟩
  · exact .inl ⟨_, rfl, rfl⟩
  · exact .inr ⟨_, rfl, rfl⟩
  · exact .inl ⟨_, rfl, rfl⟩

theorem step_len (c : Platform) {s : Session} {b : AudiofsBuffer} {bytes : List UInt8}
    (m : Memory s b bytes) (op : Op) : (step c s op).2.handle.len = s.lenAfter c op := by
  cases op with
  | read n =>
    simp only [step, Session.lenAfter, AudiofsAvioHandle.asks, audiofsAvioRead, m.inMemory]
    split_ifs <;> rfl
  | write buf =>
    simp only [step, Session.lenAfter, AudiofsAvioHandle.asks, audiofsAvioWrite,
      or_iff_left (not_INT32_MAX_lt _), m.inMemory, if_true]
    by_cases hneg : buf.bufSize < 0
    · simp only [if_pos hneg]
    · simp only [if_neg hneg, ← resizeTo_settled c m]
      split_ifs with hret
      · rfl
      · obtain ⟨new, hres, -⟩ := resizeTo_spec c m (s.handle.position + toU64 buf.bufSize)
        obtain ⟨b', m'⟩ := hres.memory
        obtain ⟨-, -, hlen, -⟩ := store_spec m' buf.bytes
        exact hlen
  | seek offset whence =>
    simp only [step, Session.lenAfter, AudiofsAvioHandle.asks]
    rcases avioSeek_eq c m.inMemory offset whence with
      ⟨error, heq, hneg | hnone⟩ | ⟨hneg, target, hsome, heq⟩
    · rw [heq, if_pos hneg]
    · rw [heq, hnone]
      split_ifs <;> rfl
    · simp only [heq, if_neg hneg, hsome, seekTo_len c m]
      split_ifs <;> rfl

theorem step_apparentSize (c : Platform) {s : Session} {b : AudiofsBuffer} {bytes : List UInt8}
    (m : Memory s b bytes) (op : Op) :
    (step c s op).2.handle.apparentSize = s.sizeAfter c op := by
  cases op with
  | read n => exact (read_keeps c ⟨b, bytes, m⟩ n).1
  | seek offset whence => exact (seek_keeps c ⟨b, bytes, m⟩ offset whence).1
  | write buf =>
    have hspec := avioWrite_spec c m buf
    have hle : 0 ≤ buf.bufSize ↔ 0 ≤ buf.bufSize.toInt := Int32.le_iff_toInt_le
    simp only [step, Session.sizeAfter, hle]
    generalize audiofsAvioWrite c s buf = r at hspec
    cases hspec with
    | negative hneg => rw [if_neg (fun h => absurd h.1 (not_le.mpr hneg))]
    | failed _ hres hgrown _ => simp [hgrown, hres.apparentSize]
    | stored hpos _ _ hgrown _ _ _ hsize _ => simp [hgrown, hpos, hsize]

theorem unbacked_sizes (c : Platform) {s : Session} (h : Unbacked s) (op : Op) :
    s.lenAfter c op = 0 ∧ s.sizeAfter c op = 0 := by
  have hlen : s.handle.len = 0 := by simp [AudiofsAvioHandle.len, h.buffer]
  have hgrown (size : UInt64) : s.grown c size = none := by simp [Session.grown, h.buffer]
  have hsettled (size : UInt64) : s.settled c size = 0 := by simp [Session.settled, h.buffer]
  constructor
  · simp only [Session.lenAfter, hsettled, hlen]
    split <;> rfl
  · cases op <;> simp [Session.sizeAfter, hgrown, h.apparentSize]

end AudioFS.CustomAvio
