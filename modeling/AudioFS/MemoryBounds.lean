import AudioFS.MemoryFile
import AudioFS.StepMachine

/-!
# Size and bounds of a memory file

The size counter equals the largest end offset written so far exactly on the
runs that write only at the end of the file, and the copies stay inside the
buffer exactly on the runs whose reads start inside the counted size. Both are
decided step by step along arbitrary runs of the three callbacks.
-/

namespace AudioFS.CustomAvio
open AudioFS.CInteger AudioFS.Buffer StepMachine

abbrev Call := Transition Session Op Answer

/-- The call goes through the null buffer of its handle, which is where the process dies. -/
def NullAccess (t : Call) : Prop :=
  t.before.handle.buffer = none ∧ t.after.process.faults ≠ t.before.process.faults

instance (t : Call) : Decidable (NullAccess t) :=
  if hnone : t.before.handle.buffer.isNone then
    decidable_of_iff (t.after.process.faults ≠ t.before.process.faults)
      (by simp [NullAccess, Option.isNone_iff_eq_none.mp hnone])
  else isFalse fun h => hnone (by simp [h.1])

theorem unbacked_nullAccess_iff (c : Platform) {s : Session} (h : Unbacked s) (op : Op) :
    NullAccess (transition (step c) s op) ↔ op.Accepted := by
  simp only [NullAccess, transition, h.buffer, true_and, h.faults_step]
  split_ifs with haccepted
  · simpa using haccepted
  · simpa using haccepted

theorem not_nullAccess_of_file (c : Platform) {s : Session} (h : s.handle.inMemory = false)
    (op : Op) : ¬ NullAccess (transition (step c) s op) := by
  rintro ⟨-, hfaults⟩
  apply hfaults
  cases op <;>
    simp only [transition, step, audiofsAvioRead, audiofsAvioWrite, audiofsAvioSeek, h,
      Bool.false_eq_true, if_false] <;>
    split_ifs <;> rfl

def noteEnd (largest : ℕ) (t : Call) : ℕ :=
  match t.input with
  | .write buf =>
    if buf.bytes ≠ [] ∧ 0 ≤ t.output.ret then
      max largest (t.before.handle.position.toNat + buf.bytes.length)
    else largest
  | _ => largest

def largestEnd (calls : List Call) : ℕ := calls.foldl noteEnd 0

structure SizeExact (s : Session) (largest : ℕ) : Prop where
  apparentSize : s.handle.apparentSize.toNat = largest
  within : s.handle.apparentSize ≤ s.handle.len

/-- A write of at least one byte that the buffer can be grown for starts at the end of the
file. -/
def AppendsAtEnd (c : Platform) (t : Call) : Prop :=
  match t.input with
  | .write buf =>
    buf.bytes ≠ [] →
      (t.before.grown c (t.before.handle.position + toU64 buf.bufSize)).isSome = true →
      t.before.handle.position = t.before.handle.apparentSize
  | _ => True

instance (c : Platform) (t : Call) : Decidable (AppendsAtEnd c t) :=
  match t with
  | ⟨before, .write buf, _, _⟩ =>
    inferInstanceAs (Decidable (buf.bytes ≠ [] →
      (before.grown c (before.handle.position + toU64 buf.bufSize)).isSome = true →
        before.handle.position = before.handle.apparentSize))
  | ⟨_, .read _, _, _⟩ => isTrue trivial
  | ⟨_, .seek _ _, _, _⟩ => isTrue trivial

theorem Memory.len_mono {s s' : Session} {b b' : AudiofsBuffer} {bytes new : List UInt8}
    (m : Memory s b bytes) (m' : Memory s' b' new) (h : bytes <+: new) :
    s.handle.len ≤ s'.handle.len := by
  rw [m.len_eq, m'.len_eq, UInt64.le_iff_toNat_le, ← m.length, ← m'.length]
  exact h.length_le

theorem SizeExact.keep {s s' : Session} {g : ℕ} (h : SizeExact s g)
    (hsize : s'.handle.apparentSize = s.handle.apparentSize)
    (hlen : s.handle.len ≤ s'.handle.len) : SizeExact s' g := by
  refine ⟨by rw [hsize]; exact h.apparentSize, ?_⟩
  have hwithin := h.within
  rw [UInt64.le_iff_toNat_le] at *
  rw [hsize]
  exact hwithin.trans hlen

theorem read_keeps (c : Platform) {s : Session} (h : WellFormed s) (n : Int32) :
    (step c s (.read n)).2.handle.apparentSize = s.handle.apparentSize ∧
      s.handle.len ≤ (step c s (.read n)).2.handle.len := by
  obtain ⟨b, bytes, m⟩ := h
  change (audiofsAvioRead c s n).2.handle.apparentSize = _ ∧
    _ ≤ (audiofsAvioRead c s n).2.handle.len
  by_cases hn : 0 ≤ n.toInt
  · rw [avioRead_spec c m hn]
    exact ⟨rfl, m.len_mono (m.update _ _ _) (List.prefix_refl _)⟩
  · rw [audiofsAvioRead, if_pos ((rejects_iff n).mpr (by omega))]
    exact ⟨rfl, UInt64.le_refl _⟩

theorem seek_keeps (c : Platform) {s : Session} (h : WellFormed s) (offset : Int64)
    (whence : Int32) :
    (step c s (.seek offset whence)).2.handle.apparentSize = s.handle.apparentSize ∧
      s.handle.len ≤ (step c s (.seek offset whence)).2.handle.len := by
  obtain ⟨b, bytes, m⟩ := h
  obtain ⟨b', new, m', hkept, hsize⟩ := (avioSeek_spec c m offset whence).memory m
  exact ⟨hsize, m.len_mono m' hkept⟩

theorem Chunk.bytes_eq_nil {buf : Chunk} (h : buf.bufSize.toInt < 0) : buf.bytes = [] := by
  apply List.length_eq_zero_iff.mp
  rw [buf.length_eq]
  omega

theorem Chunk.length_toInt {buf : Chunk} (h : 0 ≤ buf.bufSize.toInt) :
    (toU64 buf.bufSize).toNat = buf.bytes.length := by
  rw [toNat_toU64 h, buf.length_eq]

theorem Chunk.length_lt (buf : Chunk) : buf.bytes.length < 2 ^ 31 := by
  rw [buf.length_eq]
  have h := buf.bufSize.toInt_lt
  omega

theorem written_sizeExact_iff {c : Platform} {s : Session} {b : AudiofsBuffer}
    {bytes : List UInt8} {g : ℕ} (m : Memory s b bytes) (hr : SizeExact s g) {buf : Chunk}
    {r : Int32 × Session} (h : Written c s bytes buf r) :
    SizeExact r.2
        (if buf.bytes ≠ [] ∧ 0 ≤ r.1.toInt then max g (s.handle.position.toNat + buf.bytes.length)
          else g) ↔
      (buf.bytes ≠ [] → (s.grown c (s.handle.position + toU64 buf.bufSize)).isSome = true →
        s.handle.position = s.handle.apparentSize) := by
  cases h with
  | negative hneg => simp [Chunk.bytes_eq_nil hneg, hr]
  | @failed s' new hpos hres hgrown _ =>
    obtain ⟨b', m'⟩ := hres.memory
    have hret : ¬ (0 : ℤ) ≤ (-1 : Int32).toInt := by decide
    simp only [hret, hgrown, and_false, if_false, Option.isSome_none, Bool.false_eq_true,
      false_imp_iff, imp_true_iff, iff_true]
    exact hr.keep hres.apparentSize (m.len_mono m' hres.kept)
  | @stored p s' b' new hpos hkept _ hgrown hlen m' hposition hsize _ =>
    have hret : 0 ≤ (int32 (toU64 buf.bufSize)).toInt := by rwa [toInt_int32_toU64 hpos]
    have hlt := buf.length_lt
    have hlen' := m'.len_copyIn
    have hgrow : bytes.length ≤ new.length := hkept.length_le
    have hwithin := UInt64.le_iff_toNat_le.mp hr.within
    have hreach := m.len_lt
    have hreach' := m'.len_lt
    rw [m.len_eq, ← m.length] at hwithin
    rw [← m.length] at hreach
    rw [← m'.length, length_copyIn] at hreach'
    rw [UInt64.toNat_add, Chunk.length_toInt hpos] at hlen
    have hsize' : s'.handle.apparentSize.toNat =
        (s.handle.apparentSize.toNat + buf.bytes.length) % 2 ^ 64 := by
      rw [hsize, UInt64.toNat_add, Chunk.length_toInt hpos]
    have happ := hr.apparentSize
    simp only [reach] at hreach hreach'
    by_cases hnil : buf.bytes = []
    · simp only [hnil, ne_eq, not_true_eq_false, false_and, if_false, false_imp_iff, iff_true]
      refine ⟨?_, ?_⟩
      · rw [hsize', hnil, List.length_nil]
        omega
      · rw [UInt64.le_iff_toNat_le, hsize', hlen', hnil, List.length_nil]
        omega
    · have hpos' : 0 < buf.bytes.length := List.length_pos_iff.mpr hnil
      simp only [hnil, hret, hgrown, Option.isSome_some, ne_eq, not_false_eq_true, and_self,
        if_true, true_imp_iff]
      rw [← UInt64.toNat_inj]
      constructor
      · intro hexact
        have hsum := hexact.apparentSize
        rw [hsize'] at hsum
        omega
      · intro heq
        refine ⟨?_, ?_⟩
        · rw [hsize']
          omega
        · rw [UInt64.le_iff_toNat_le, hsize', hlen']
          omega

theorem step_sizeExact_iff (c : Platform) (s : Session) (g : ℕ) (op : Op) (h : Reached s)
    (hr : SizeExact s g) :
    SizeExact (step c s op).2 (noteEnd g (transition (step c) s op)) ↔
      AppendsAtEnd c (transition (step c) s op) := by
  rcases h with hw | hu
  · cases op with
    | read n =>
      obtain ⟨hsize, hlen⟩ := read_keeps c hw n
      exact iff_of_true (hr.keep hsize hlen) trivial
    | write buf =>
      obtain ⟨b, bytes, m⟩ := hw
      exact written_sizeExact_iff m hr (avioWrite_spec c m buf)
    | seek offset whence =>
      obtain ⟨hsize, hlen⟩ := seek_keeps c hw offset whence
      exact iff_of_true (hr.keep hsize hlen) trivial
  · obtain ⟨hu', hwrite⟩ := step_unbacked c hu op
    have hg : g = 0 := by rw [← hr.apparentSize, hu.apparentSize, UInt64.toNat_zero]
    have hkeep : SizeExact (step c s op).2 g := by
      refine ⟨by rw [hu'.apparentSize, hg, UInt64.toNat_zero], ?_⟩
      rw [hu'.apparentSize, UInt64.le_iff_toNat_le, UInt64.toNat_zero]
      exact Nat.zero_le _
    cases op with
    | read n => exact iff_of_true hkeep trivial
    | write buf =>
      have hret : ¬ (0 : ℤ) ≤ (step c s (.write buf)).1.ret := by
        rw [hwrite buf rfl]
        decide
      simp only [noteEnd, AppendsAtEnd, transition, Session.grown, hu.buffer, hret, and_false,
        if_false, Option.isSome_none, Bool.false_eq_true, false_imp_iff, imp_true_iff, iff_true]
      exact hkeep
    | seek offset whence => exact iff_of_true hkeep trivial

theorem opened_sizeExact {c : Platform} {s : Session} (h : Opened c s) : SizeExact s 0 := by
  obtain ⟨p, hopen⟩ := h
  obtain ⟨-, hsize, -⟩ := opened_cases hopen
  refine ⟨by rw [hsize, UInt64.toNat_zero], ?_⟩
  rw [hsize, UInt64.le_iff_toNat_le, UInt64.toNat_zero]
  exact Nat.zero_le _

/-- On every run from a fresh handle, `audiofs_avio_get_size` reports the largest end offset
written so far in every state exactly when every storing write appends. -/
theorem size_exact_iff_appends (c : Platform) {s : Session} (h : Opened c s) (ops : List Op) :
    (∀ js, js <+: ops →
      SizeExact (final (step c) s js) (largestEnd (trace (step c) s js))) ↔
      ∀ t ∈ trace (step c) s ops, AppendsAtEnd c t :=
  always_iff_forall_step (A := fun _ => True) (P := Reached)
    (fun s op _ hs => step_reached c s op hs)
    (fun s g op _ hs hr => step_sizeExact_iff c s g op hs hr)
    (opened_reached h) (opened_sizeExact h) ops (fun _ _ => trivial)

def appendingRun : List Op :=
  [.write (.one 65), .seek 0 SEEK_SET, .read 1, .seek 0 SEEK_END, .write (.one 66)]

theorem size_exact_along_appendingRun :
    Opened Platform.generous Session.first ∧ ∀ js, js <+: appendingRun →
      SizeExact (final (step Platform.generous) Session.first js)
        (largestEnd (trace (step Platform.generous) Session.first js)) :=
  ⟨first_opened.opened,
    (size_exact_iff_appends Platform.generous first_opened.opened appendingRun).mpr (by decide)⟩

/-- Overwriting the first byte of a one-byte file counts two bytes. -/
theorem size_not_exact_after_overwrite :
    ¬ ∀ (c : Platform) (s : Session), Opened c s → ∀ ops : List Op,
      SizeExact (final (step c) s ops) (largestEnd (trace (step c) s ops)) := by
  intro h
  have hsize := (h Platform.generous Session.first first_opened.opened
    [.write (.one 65), .seek 0 SEEK_SET, .write (.one 66)]).apparentSize
  exact absurd hsize (by decide)

/-- The memory accesses of one call: a read takes an unwrapped number of bytes, no more than
asked for and all of them below the buffer's length, and a successful write stays below it. -/
def InBounds (t : Call) : Prop :=
  match t.input with
  | .read n => 0 ≤ n.toInt →
    t.before.handle.position ≤ t.before.handle.endPosition (toU64 n) ∧
      (t.before.handle.readCount (toU64 n)).toNat ≤ n.toInt.toNat ∧
      t.before.handle.readCount (toU64 n) ≤ t.before.handle.len
  | .write buf => 0 ≤ t.output.ret → buf.bytes.length ≤ t.after.handle.len.toNat
  | .seek _ _ => True

/-- A read starts inside the counted size, and what it may take from there fits the buffer. -/
def ReadFits (t : Call) : Prop :=
  match t.input with
  | .read n => 0 ≤ n.toInt →
    t.before.handle.position.toNat + n.toInt.toNat < 2 ^ 64 ∧
      t.before.handle.position ≤ t.before.handle.apparentSize ∧
      min n.toInt.toNat (t.before.handle.apparentSize.toNat - t.before.handle.position.toNat) ≤
        t.before.handle.len.toNat
  | _ => True

/-- A write whose end offset wraps around is refused by the growth loop, or leaves a buffer
that is long enough all the same. -/
def WriteFits (c : Platform) (t : Call) : Prop :=
  match t.input with
  | .write buf => 2 ^ 64 ≤ t.before.handle.position.toNat + buf.bytes.length →
    ∀ len ∈ t.before.grown c (t.before.handle.position + toU64 buf.bufSize),
      buf.bytes.length ≤ len.toNat
  | _ => True

instance (t : Call) : Decidable (InBounds t) :=
  match t with
  | ⟨before, .read n, _, _⟩ =>
    inferInstanceAs (Decidable (0 ≤ n.toInt →
      before.handle.position ≤ before.handle.endPosition (toU64 n) ∧
        (before.handle.readCount (toU64 n)).toNat ≤ n.toInt.toNat ∧
        before.handle.readCount (toU64 n) ≤ before.handle.len))
  | ⟨_, .write buf, output, after⟩ =>
    inferInstanceAs (Decidable (0 ≤ output.ret → buf.bytes.length ≤ after.handle.len.toNat))
  | ⟨_, .seek _ _, _, _⟩ => isTrue trivial

instance (t : Call) : Decidable (ReadFits t) :=
  match t with
  | ⟨before, .read n, _, _⟩ =>
    inferInstanceAs (Decidable (0 ≤ n.toInt →
      before.handle.position.toNat + n.toInt.toNat < 2 ^ 64 ∧
        before.handle.position ≤ before.handle.apparentSize ∧
        min n.toInt.toNat (before.handle.apparentSize.toNat - before.handle.position.toNat) ≤
          before.handle.len.toNat))
  | ⟨_, .write _, _, _⟩ => isTrue trivial
  | ⟨_, .seek _ _, _, _⟩ => isTrue trivial

instance (c : Platform) (t : Call) : Decidable (WriteFits c t) :=
  match t with
  | ⟨before, .write buf, _, _⟩ =>
    inferInstanceAs (Decidable (2 ^ 64 ≤ before.handle.position.toNat + buf.bytes.length →
      ∀ len ∈ before.grown c (before.handle.position + toU64 buf.bufSize),
        buf.bytes.length ≤ len.toNat))
  | ⟨_, .read _, _, _⟩ => isTrue trivial
  | ⟨_, .seek _ _, _, _⟩ => isTrue trivial

theorem endPosition_toNat (h : AudiofsAvioHandle) {n : Int32} (hn : 0 ≤ n.toInt) :
    (h.endPosition (toU64 n)).toNat =
      min ((h.position.toNat + n.toInt.toNat) % 2 ^ 64) h.apparentSize.toNat := by
  rw [AudiofsAvioHandle.endPosition, UInt64.toNat_min, UInt64.toNat_add, toNat_toU64 hn]

theorem readCount_wrapped (h : AudiofsAvioHandle) (n : Int32) :
    (h.readCount (toU64 n)).toNat =
      (2 ^ 64 - h.position.toNat + (h.endPosition (toU64 n)).toNat) % 2 ^ 64 := by
  rw [AudiofsAvioHandle.readCount, UInt64.toNat_sub]

theorem read_inBounds_iff (h : AudiofsAvioHandle) {n : Int32} (hn : 0 ≤ n.toInt) :
    (h.position ≤ h.endPosition (toU64 n) ∧ (h.readCount (toU64 n)).toNat ≤ n.toInt.toNat ∧
        h.readCount (toU64 n) ≤ h.len) ↔
      (h.position.toNat + n.toInt.toNat < 2 ^ 64 ∧ h.position ≤ h.apparentSize ∧
        min n.toInt.toNat (h.apparentSize.toNat - h.position.toNat) ≤ h.len.toNat) := by
  have hend := endPosition_toNat h hn
  have hcount := readCount_wrapped h n
  have hlt := n.toInt_lt
  have hp := h.position.toNat_lt
  have ha := h.apparentSize.toNat_lt
  simp only [UInt64.le_iff_toNat_le, hcount, hend]
  constructor
  · intro hbounds
    obtain ⟨hle, -, hlen⟩ := hbounds
    refine ⟨?_, ?_, ?_⟩ <;> omega
  · intro hfits
    obtain ⟨hwrap, hle, hlen⟩ := hfits
    refine ⟨?_, ?_, ?_⟩ <;> omega

theorem written_inBounds_iff {c : Platform} {s : Session} {bytes : List UInt8} {buf : Chunk}
    {r : Int32 × Session} (h : Written c s bytes buf r) :
    (0 ≤ r.1.toInt → buf.bytes.length ≤ r.2.handle.len.toNat) ↔
      (2 ^ 64 ≤ s.handle.position.toNat + buf.bytes.length →
        ∀ len ∈ s.grown c (s.handle.position + toU64 buf.bufSize),
          buf.bytes.length ≤ len.toNat) := by
  cases h with
  | negative hneg => simp [Chunk.bytes_eq_nil hneg]
  | failed _ _ hgrown _ => simp [hgrown]
  | @stored _ s' _ new hpos _ _ hgrown hlen m' _ _ _ =>
    have hret' : 0 ≤ (int32 (toU64 buf.bufSize)).toInt := by rwa [toInt_int32_toU64 hpos]
    have hlen' := m'.len_copyIn
    simp only [hret', hgrown, true_imp_iff, Option.mem_some_iff, forall_eq']
    constructor
    · exact fun hfit _ => hfit
    · intro hwrap
      rcases Nat.lt_or_ge (s.handle.position.toNat + buf.bytes.length) (2 ^ 64) with hlt | hge
      · rw [UInt64.toNat_add, Chunk.length_toInt hpos, Nat.mod_eq_of_lt hlt] at hlen
        omega
      · exact hwrap hge

theorem step_inBounds_iff (c : Platform) (s : Session) (op : Op) (h : Reached s) :
    InBounds (transition (step c) s op) ↔
      ReadFits (transition (step c) s op) ∧ WriteFits c (transition (step c) s op) := by
  cases op with
  | read n =>
    refine Iff.trans ?_ (and_iff_left trivial).symm
    exact forall_congr' fun hn => read_inBounds_iff s.handle hn
  | write buf =>
    refine Iff.trans ?_ (and_iff_right trivial).symm
    rcases h with ⟨b, bytes, m⟩ | hu
    · exact written_inBounds_iff (avioWrite_spec c m buf)
    · refine iff_of_true ?_ ?_
      · intro hret
        rw [transition, (step_unbacked c hu (.write buf)).2 buf rfl] at hret
        exact absurd hret (by decide)
      · intro _ len hlen
        simp [transition, Session.grown, hu.buffer] at hlen
  | seek offset whence => exact (and_self_iff).symm

/-- Every copy of a run from a fresh handle stays in bounds exactly when every read of the run
starts inside the counted size and fits the buffer, and no wrapped write outgrows it. -/
theorem copies_inBounds_iff (c : Platform) {s : Session} (h : Opened c s) (ops : List Op) :
    (∀ t ∈ trace (step c) s ops, InBounds t) ↔
      ∀ t ∈ trace (step c) s ops, ReadFits t ∧ WriteFits c t :=
  trace_forall_congr (A := fun _ => True) (P := Reached)
    (fun s op _ hs => step_reached c s op hs)
    (fun s op _ hs => step_inBounds_iff c s op hs)
    (opened_reached h) ops (fun _ _ => trivial)

theorem appendingRun_inBounds :
    Opened Platform.generous Session.first ∧
      ∀ t ∈ trace (step Platform.generous) Session.first appendingRun, InBounds t :=
  ⟨first_opened.opened,
    (copies_inBounds_iff Platform.generous first_opened.opened appendingRun).mpr (by decide)⟩

/-- A seek moves past the counted size of zero, and the next read wraps around. -/
theorem read_out_of_bounds_after_seek :
    ¬ ∀ (c : Platform) (s : Session), Opened c s → ∀ ops : List Op,
      ∀ t ∈ trace (step c) s ops, InBounds t := by
  intro h
  have hbounds := h Platform.generous Session.first first_opened.opened
    [.seek 10 SEEK_SET, .read 4]
  exact absurd hbounds (by decide)

end AudioFS.CustomAvio
