import AudioFS.MemoryGrowth
import AudioFS.MemoryRefinement

/-!
# Positions of a memory file

Signed and unsigned 64-bit values meet in the seek: only `SEEK_END` tests for a
target that wrapped, the other cases leave it to the bounds macro. The position
a seek reports is nevertheless exact. Whether the buffer reaches as far as the
new position is another matter: a file that is not empty is never grown.
-/

namespace AudioFS.CustomAvio
open AudioFS.CInteger AudioFS.Buffer StepMachine

/-- The buffer lengths from which the growth loop computes a `new_size`, round by round. -/
def resizeLens (c : Platform) (bufSize : UInt64) : ℕ → Process → AudiofsBuffer → List UInt64
  | 0, _, _ => []
  | rounds + 1, p, b =>
    if b.len < max bufSize b.len ∧ ¬ INT64_MAX < bufSize then
      b.len ::
        if growthStep b.len ≤ 0 then []
        else
          match audiofsBufferRealloc c p b (growthStep b.len) with
          | (false, _, _) => []
          | (true, b, p) => resizeLens c bufSize rounds p b
    else []

def Session.resizeLens (c : Platform) (s : Session) (bufSize : UInt64) : List UInt64 :=
  match s.handle.buffer with
  | none => []
  | some b => CustomAvio.resizeLens c bufSize (bufSize.toNat - b.len.toNat) s.process b

theorem resizeLens_asked (c : Platform) (size : UInt64) (rounds : ℕ) (p : Process)
    (b : AudiofsBuffer) :
    ∀ len ∈ resizeLens c size rounds p b, len < size ∧ ¬ INT64_MAX < size := by
  induction rounds generalizing p b with
  | zero =>
    intro len hlen
    simp [resizeLens] at hlen
  | succ rounds ih =>
    intro len hlen
    rw [resizeLens] at hlen
    split_ifs at hlen with hgrow hzero
    · rw [len_lt_max_iff] at hgrow
      rcases List.mem_cons.mp hlen with rfl | hlen
      · exact hgrow
      · simp at hlen
    · rw [len_lt_max_iff] at hgrow
      rcases List.mem_cons.mp hlen with rfl | hlen
      · exact hgrow
      · generalize audiofsBufferRealloc c p b (growthStep b.len) = r at hlen
        obtain ⟨done, b', p'⟩ := r
        cases done with
        | false => simp at hlen
        | true => exact ih p' b' len hlen
    · simp at hlen

theorem resizeLoop_len (c : Platform) (size : UInt64) (rounds : ℕ) (p : Process)
    {b : AudiofsBuffer} (h : (resizeLoop c size rounds p b).1 = 0) :
    (resizeLoop c size rounds p b).2.1.len =
      ((resizeLens c size rounds p b).map growthStep).getLastD b.len := by
  induction rounds generalizing p b with
  | zero => rfl
  | succ rounds ih =>
    rcases resizeLoop_zero_cases c size rounds h with
      ⟨hdone, heq⟩ | ⟨hlt, hbig, b', p', hrealloc, hlen, heq⟩
    · rw [heq, resizeLens, if_neg (fun hgrow => hdone (len_lt_max_iff.mp hgrow.1))]
      rfl
    · rw [heq] at h ⊢
      rw [resizeLens, if_pos ⟨len_lt_max_iff.mpr hlt, hbig⟩, if_neg (growthStep_pos hlt hbig),
        hrealloc, ih p' h, List.map_cons, List.getLastD_cons, hlen]

theorem resizeTo_counters (c : Platform) (s : Session) (size : UInt64) :
    (audiofsAvioResizeTo c s size).2.handle.position = s.handle.position ∧
      (audiofsAvioResizeTo c s size).2.handle.apparentSize = s.handle.apparentSize := by
  cases hb : s.handle.buffer <;> simp [audiofsAvioResizeTo, hb]

theorem store_counters (s : Session) (bytes : List UInt8) :
    (s.store bytes).handle.len = s.handle.len ∧
      (s.store bytes).handle.position = s.handle.position ∧
      (s.store bytes).handle.apparentSize = s.handle.apparentSize := by
  cases hb : s.handle.buffer with
  | none => simp [Session.store, hb]
  | some b => cases hd : b.data <;> simp [Session.store, AudiofsAvioHandle.len, hb, hd]

theorem seekTo_ret (c : Platform) (s : Session) (target : Int64) :
    (seekTo c s target).1 = -ENOMEM ∨
      (seekTo c s target).1 = target ∧
        (seekTo c s target).2.handle.position = target.toUInt64 := by
  simp only [seekTo]
  split_ifs
  · exact .inl rfl
  · exact .inr ⟨rfl, rfl⟩
  · exact .inr ⟨rfl, rfl⟩

/-- A non-negative answer of a seek is the exact offset asked for and the new position, and an
offset above `INT64_MAX` gets a negative answer. -/
def SeekExact (c : Platform) (s : Session) (offset : Int64) (whence : Int32) : Prop :=
  (0 ≤ (audiofsAvioSeek c s offset whence).1.toInt →
    (audiofsAvioSeek c s offset whence).1.toInt = s.handle.target offset whence ∧
      s.handle.target offset whence ≤ maxOffset ∧
      ((audiofsAvioSeek c s offset whence).2.handle.position.toNat : ℤ) =
        s.handle.target offset whence) ∧
    ((maxOffset : ℤ) < s.handle.target offset whence →
      (audiofsAvioSeek c s offset whence).1.toInt < 0)

/-- The sums a write computes are exact, and a write that succeeds leaves them in the counters. -/
structure WriteExact (c : Platform) (s : Session) (buf : Chunk) : Prop where
  endPosition : (s.handle.position + toU64 buf.bufSize).toNat =
    s.handle.position.toNat + buf.bytes.length
  endSize : (s.handle.apparentSize + toU64 buf.bufSize).toNat =
    s.handle.apparentSize.toNat + buf.bytes.length
  newSize : ∀ len ∈ s.resizeLens c (s.handle.position + toU64 buf.bufSize),
    (growthStep len).toNat = nextCapacity len.toNat
  position : 0 ≤ (audiofsAvioWrite c s buf).1.toInt →
    (audiofsAvioWrite c s buf).2.handle.position.toNat =
      s.handle.position.toNat + buf.bytes.length
  apparentSize : 0 ≤ (audiofsAvioWrite c s buf).1.toInt →
    (audiofsAvioWrite c s buf).2.handle.apparentSize.toNat =
      s.handle.apparentSize.toNat + buf.bytes.length
  within : 0 ≤ (audiofsAvioWrite c s buf).1.toInt →
    (audiofsAvioWrite c s buf).2.handle.position ≤ (audiofsAvioWrite c s buf).2.handle.len

/-- A target computed modulo `2 ^ 64` from a base in range: it is the exact sum or negative. -/
theorem seekTo_exact (c : Platform) (s : Session) {target : Int64} {v : ℤ}
    (hval : (target.toUInt64.toNat : ℤ) = v) (hneg : target.toInt < 0 ↔ (maxOffset : ℤ) < v)
    (hexact : v ≤ maxOffset → target.toInt = v) :
    (0 ≤ (seekTo c s target).1.toInt →
      (seekTo c s target).1.toInt = v ∧ v ≤ maxOffset ∧
        ((seekTo c s target).2.handle.position.toNat : ℤ) = v) ∧
      ((maxOffset : ℤ) < v → (seekTo c s target).1.toInt < 0) := by
  rcases seekTo_ret c s target with hret | ⟨hret, hposition⟩
  · rw [hret]
    exact ⟨fun h => absurd h (not_le.mpr ENOMEM_neg), fun _ => ENOMEM_neg⟩
  · rw [hret, hposition]
    refine ⟨fun h => ?_, hneg.mpr⟩
    have hle : v ≤ maxOffset := not_lt.mp fun hlt => absurd (hneg.mpr hlt) (not_lt.mpr h)
    exact ⟨hexact hle, hle, hval⟩

theorem seek_exact (c : Platform) {s : Session} (hmem : s.handle.inMemory = true)
    (hpos : s.handle.position ≤ INT64_MAX) (hsize : s.handle.apparentSize ≤ INT64_MAX)
    {offset : Int64} (hoff : 0 ≤ offset.toInt) {whence : Int32}
    (hw : whence = SEEK_SET ∨ whence = SEEK_CUR ∨ whence = SEEK_END) :
    SeekExact c s offset whence := by
  have hnot : ¬ offset < 0 := by
    rw [Int64.lt_iff_toInt_lt]
    exact not_lt.mpr hoff
  rw [UInt64.le_iff_toNat_le, INT64_MAX_toNat] at hpos hsize
  simp only [SeekExact, audiofsAvioSeek, if_neg hnot, hmem, if_true]
  rcases hw with rfl | rfl | rfl
  · -- the offset itself, which cannot wrap
    have hval := toNat_toUInt64 offset
    have hlt := offset.toInt_lt
    rw [if_neg (by decide), if_pos rfl, target_set]
    apply seekTo_exact c s
    · omega
    · simp only [maxOffset]
      omega
    · exact fun _ => rfl
  · have hpos' : s.handle.position.toNat ≤ maxOffset := hpos
    obtain ⟨hval, hneg, hexact⟩ := wrapped_target hpos' hoff
    rw [if_pos rfl]
    exact seekTo_exact c s hval hneg hexact
  · have hsize' : s.handle.apparentSize.toNat ≤ maxOffset := hsize
    obtain ⟨hval, hneg, hexact⟩ := wrapped_target hsize' hoff
    rw [if_neg (by decide), if_neg (by decide), if_pos rfl]
    by_cases hover : (s.handle.apparentSize + offset.toUInt64).toInt64 < 0
    · rw [if_pos hover]
      exact ⟨fun h => absurd h (not_le.mpr EINVAL_neg), fun _ => EINVAL_neg⟩
    · rw [if_neg hover]
      exact seekTo_exact c s hval hneg hexact

/-- A write that succeeds adds the number of bytes to both counters, as the code does it. -/
theorem write_counters (c : Platform) {s : Session} (hmem : s.handle.inMemory = true)
    {buf : Chunk} (hn : 0 ≤ buf.bufSize.toInt) (hret : 0 ≤ (audiofsAvioWrite c s buf).1.toInt) :
    (audiofsAvioWrite c s buf).2.handle.position = s.handle.position + toU64 buf.bufSize ∧
      (audiofsAvioWrite c s buf).2.handle.apparentSize =
        s.handle.apparentSize + toU64 buf.bufSize ∧
      (audiofsAvioWrite c s buf).2.handle.position ≤
        (audiofsAvioWrite c s buf).2.handle.len := by
  simp only [audiofsAvioWrite, rejects_iff, if_neg (not_lt.mpr hn), hmem, if_true] at hret ⊢
  split_ifs at hret ⊢ with hfail
  · change 0 ≤ (-1 : Int32).toInt at hret
    exact absurd hret (by decide)
  · have hreach := resizeTo_reaches c (not_not.mp hfail)
    obtain ⟨hposition, happarent⟩ :=
      resizeTo_counters c s (s.handle.position + toU64 buf.bufSize)
    generalize (audiofsAvioResizeTo c s (s.handle.position + toU64 buf.bufSize)).2 = s' at *
    obtain ⟨hlen, hposition', happarent'⟩ := store_counters s' buf.bytes
    rw [hposition] at hposition'
    rw [happarent] at happarent'
    change (s'.store buf.bytes).handle.position + toU64 buf.bufSize = _ ∧
      (s'.store buf.bytes).handle.apparentSize + toU64 buf.bufSize = _ ∧
      (s'.store buf.bytes).handle.position + toU64 buf.bufSize ≤ (s'.store buf.bytes).handle.len
    rw [hposition', happarent', hlen]
    exact ⟨rfl, rfl, hreach⟩

theorem write_exact (c : Platform) {s : Session} (hmem : s.handle.inMemory = true)
    (hpos : s.handle.position ≤ INT64_MAX) (hsize : s.handle.apparentSize ≤ INT64_MAX)
    {buf : Chunk} (hn : 0 ≤ buf.bufSize.toInt) : WriteExact c s buf := by
  have hlt := buf.length_lt
  rw [UInt64.le_iff_toNat_le, INT64_MAX_toNat] at hpos hsize
  have hposition : (s.handle.position + toU64 buf.bufSize).toNat =
      s.handle.position.toNat + buf.bytes.length := by
    rw [toNat_add_of_lt, Chunk.length_toInt hn]
    rw [Chunk.length_toInt hn]
    omega
  have happarent : (s.handle.apparentSize + toU64 buf.bufSize).toNat =
      s.handle.apparentSize.toNat + buf.bytes.length := by
    rw [toNat_add_of_lt, Chunk.length_toInt hn]
    rw [Chunk.length_toInt hn]
    omega
  refine ⟨hposition, happarent, ?_, fun hret => ?_, fun hret => ?_, fun hret => ?_⟩
  · intro len hlen
    cases hb : s.handle.buffer with
    | none => simp [Session.resizeLens, hb] at hlen
    | some b =>
      simp only [Session.resizeLens, hb] at hlen
      obtain ⟨hasked, hbig⟩ := resizeLens_asked c _ _ _ _ len hlen
      exact growthStep_nextCapacity (asked_lt hasked hbig)
  · rw [(write_counters c hmem hn hret).1, hposition]
  · rw [(write_counters c hmem hn hret).2.1, happarent]
  · exact (write_counters c hmem hn hret).2.2

/-- In every memory handle state with counters in the signed range, for every outcome of the
allocator, the sums a seek and a write compute are exact. -/
theorem position_arithmetic_exact (c : Platform) {s : Session} (hmem : s.handle.inMemory = true)
    (hpos : s.handle.position ≤ INT64_MAX) (hsize : s.handle.apparentSize ≤ INT64_MAX) :
    (∀ (offset : Int64) (whence : Int32), 0 ≤ offset.toInt →
      (whence = SEEK_SET ∨ whence = SEEK_CUR ∨ whence = SEEK_END) → SeekExact c s offset whence) ∧
      ∀ buf : Chunk, 0 ≤ buf.bufSize.toInt → WriteExact c s buf :=
  ⟨fun _ _ hoff hw => seek_exact c hmem hpos hsize hoff hw,
    fun _ hn => write_exact c hmem hpos hsize hn⟩

def Session.atEnd : Session :=
  { Session.first with handle := { Session.first.handle with position := INT64_MAX } }

theorem atEnd_arithmetic_exact :
    (SeekExact Platform.generous Session.atEnd 1 SEEK_CUR ∧
      WriteExact Platform.generous Session.atEnd (.one 65)) ∧
      (audiofsAvioWrite Platform.generous Session.first (.one 65)).1 = 1 ∧
      WriteExact Platform.generous Session.first (.one 65) :=
  have hend := position_arithmetic_exact Platform.generous (s := Session.atEnd) rfl (by decide)
    (by decide)
  have hfirst := position_arithmetic_exact Platform.generous (s := Session.first) rfl (by decide)
    (by decide)
  ⟨⟨hend.1 1 SEEK_CUR (by decide) (.inr (.inl rfl)), hend.2 (.one 65) (by decide)⟩,
    by decide, hfirst.2 (.one 65) (by decide)⟩

def ReservesTarget (t : Call) : Prop :=
  match t.input with
  | .seek _ _ => 0 ≤ t.output.ret → t.after.handle.position ≤ t.after.handle.len
  | _ => True

/-- The target of a seek, where there is one, is inside the buffer already, or the file is empty,
and so grown to any target. -/
def SeeksInside (t : Call) : Prop :=
  match t.input with
  | .seek offset whence => 0 ≤ offset.toInt → t.before.handle.apparentSize ≠ 0 →
    ∀ target ∈ t.before.handle.seekTarget offset whence,
      0 < target.toInt → target.toUInt64 ≤ t.before.handle.len
  | _ => True

theorem seekTo_reserves_iff (c : Platform) (s : Session) (target : Int64) :
    (0 ≤ (seekTo c s target).1.toInt →
        (seekTo c s target).2.handle.position ≤ (seekTo c s target).2.handle.len) ↔
      (s.handle.apparentSize ≠ 0 → 0 < target.toInt → target.toUInt64 ≤ s.handle.len) := by
  have hbounds := withinBounds_eq_zero_iff target s.handle.apparentSize
  by_cases hin : withinBounds 0 target s.handle.apparentSize = 0
  · refine iff_of_true ?_ ?_
    · simp only [seekTo, if_pos hin]
      split_ifs with hfail
      · intro h
        exact absurd h (not_le.mpr ENOMEM_neg)
      · intro _
        exact resizeTo_reaches c (not_not.mp hfail)
    · intro hsize hpos
      rcases hbounds.mp hin with hle | hempty
      · exact absurd hpos (not_lt.mpr hle)
      · exact absurd hempty hsize
  · have hinside : 0 < target.toInt ∧ s.handle.apparentSize ≠ 0 := by
      rw [hbounds, not_or] at hin
      exact ⟨not_le.mp hin.1, hin.2⟩
    rw [seekTo, if_neg hin]
    constructor
    · intro h _ _
      exact h hinside.1.le
    · intro h _
      exact h hinside.2 hinside.1

theorem step_reserves_iff (c : Platform) {s : Session} (hmem : s.handle.inMemory = true) (op : Op) :
    ReservesTarget (transition (step c) s op) ↔ SeeksInside (transition (step c) s op) := by
  cases op with
  | read n => exact Iff.rfl
  | write buf => exact Iff.rfl
  | seek offset whence =>
    have hrefuses (error : Int64) (herror : error.toInt < 0) :
        0 ≤ error.toInt → s.handle.position ≤ s.handle.len :=
      fun h => absurd h (not_le.mpr herror)
    simp only [ReservesTarget, SeeksInside, transition, step, audiofsAvioSeek,
      AudiofsAvioHandle.seekTarget, hmem, if_true]
    by_cases hneg : offset < 0
    · rw [if_pos hneg]
      rw [Int64.lt_iff_toInt_lt] at hneg
      exact iff_of_true (hrefuses (-1) (by decide)) (fun h => absurd h (not_le.mpr hneg))
    · have hoff : 0 ≤ offset.toInt := not_lt.mp (by rwa [Int64.lt_iff_toInt_lt] at hneg)
      simp only [if_neg hneg, hoff, true_imp_iff]
      split_ifs <;> simp only [Option.mem_some_iff, forall_eq']
      · exact seekTo_reserves_iff c s _
      · exact seekTo_reserves_iff c s _
      · exact iff_of_true (hrefuses (-EINVAL) EINVAL_neg) (by simp)
      · exact seekTo_reserves_iff c s _
      · exact iff_of_true (hrefuses (-EINVAL) EINVAL_neg) (by simp)

theorem Reached.inMemory {s : Session} (h : Reached s) : s.handle.inMemory = true := by
  rcases h with ⟨b, bytes, m⟩ | hun
  · exact m.inMemory
  · exact hun.inMemory

/-- Along a run from a fresh handle every successful seek leaves a buffer that reaches to the new
position exactly when no seek leads past the buffer of a file that is not empty. -/
theorem seeks_reserve_iff (c : Platform) {s : Session} (h : Opened c s) (ops : List Op) :
    (∀ t ∈ trace (step c) s ops, ReservesTarget t) ↔ ∀ t ∈ trace (step c) s ops, SeeksInside t :=
  trace_forall_congr (A := fun _ => True) (P := Reached)
    (fun s op _ hs => step_reached c s op hs)
    (fun _ op _ hs => step_reserves_iff c hs.inMemory op)
    (opened_reached h) ops (fun _ _ => trivial)

instance (t : Call) : Decidable (SeeksInside t) :=
  match t with
  | ⟨_, .read _, _, _⟩ => isTrue trivial
  | ⟨_, .write _, _, _⟩ => isTrue trivial
  | ⟨before, .seek offset whence, _, _⟩ =>
    haveI : Decidable (∀ target ∈ before.handle.seekTarget offset whence,
        0 < target.toInt → target.toUInt64 ≤ before.handle.len) :=
      Option.decidableForallMem _
    inferInstanceAs (Decidable (0 ≤ offset.toInt → before.handle.apparentSize ≠ 0 →
      ∀ target ∈ before.handle.seekTarget offset whence,
        0 < target.toInt → target.toUInt64 ≤ before.handle.len))

theorem appendingRun_reserves :
    Opened Platform.generous Session.first ∧
      ∀ t ∈ trace (step Platform.generous) Session.first (.seek 100000 SEEK_SET :: appendingRun),
        ReservesTarget t :=
  ⟨first_opened.opened,
    (seeks_reserve_iff Platform.generous first_opened.opened _).mpr (by decide +kernel)⟩

/-- After one byte is written the position can be moved past the 1024 bytes of the buffer. -/
theorem seek_past_buffer_succeeds :
    ¬ ∀ (c : Platform) (s : Session), Opened c s → ∀ ops : List Op,
      ∀ t ∈ trace (step c) s ops, ReservesTarget t := by
  intro h
  have hseek := h Platform.generous Session.first first_opened.opened
    [.write (.one 65), .seek 100000 SEEK_SET] _ (List.mem_cons_of_mem _ (List.mem_singleton_self _))
  exact absurd (hseek (by decide)) (by decide)

end AudioFS.CustomAvio
