import AudioFS.MemorySizes

/-!
# What the callbacks promise their caller

The return value of a read or write tells failure from success and how much was
transferred, and a call on a memory file that fails leaves the file as it was.
The first is decided call by call for handles of either backing; on a memory handle
that was returned without a buffer no accepted call is back to report. The second
holds of every memory handle whose block is as long as it says, also where the
growth loop gave up halfway.
-/

namespace AudioFS

/-- The transfers of the kernel: `-1`, or a count of at most the bytes asked for. -/
structure Platform.Posix (c : Platform) : Prop where
  read : ∀ call file size,
    (c.read call file size).1 = -1 ∨
      0 ≤ (c.read call file size).1.toInt ∧
        (c.read call file size).1.toInt ≤ size.toNat
  write : ∀ call file bytes,
    c.write call file bytes = -1 ∨
      0 ≤ (c.write call file bytes).toInt ∧ (c.write call file bytes).toInt ≤ bytes.length

namespace CustomAvio
open AudioFS.CInteger AudioFS.Buffer StepMachine

def OpenedAs (c : Platform) (filename : List UInt8) (s : Session) : Prop :=
  ∃ p, audiofsAvioOpen c p filename = (some s.handle, s.process)

def countOf (ret : Int64) : Option ℕ := if ret.toInt < 0 then none else some ret.toInt.toNat

/-- How many bytes a read or write transfers, or nothing when the transfer fails: what the
kernel reports, the bytes `memcpy` is told to take, or the bytes a grown buffer stores. -/
def transferred (c : Platform) (s : Session) : Op → Option ℕ
  | .read n =>
    if s.handle.inMemory then some (s.handle.readCount (toU64 n)).toNat
    else countOf (c.read s.process.syscalls s.handle.file (toU64 n)).1
  | .write buf =>
    if s.handle.inMemory then
      (s.grown c (s.handle.position + toU64 buf.bufSize)).map fun _ => buf.bytes.length
    else countOf (c.write s.process.syscalls s.handle.file buf.bytes)
  | .seek _ _ => none

def bufSizeOf : Op → Option Int32
  | .read n => some n
  | .write buf => some buf.bufSize
  | .seek _ _ => none

/-- The answer is negative exactly for a failed transfer, and else the number of bytes
transferred, which is at most what was asked for. -/
def Reports (ret n : ℤ) : Option ℕ → Prop
  | none => ret < 0
  | some k => ret = k ∧ (k : ℤ) ≤ n

instance (ret n : ℤ) (count : Option ℕ) : Decidable (Reports ret n count) :=
  match count with
  | none => inferInstanceAs (Decidable (ret < 0))
  | some k => inferInstanceAs (Decidable (ret = k ∧ (k : ℤ) ≤ n))

/-- The call is back at all, and reports what it transferred. -/
def Contract (c : Platform) (t : Call) : Prop :=
  ∀ n ∈ bufSizeOf t.input, 0 ≤ n.toInt →
    ¬ NullAccess t ∧ Reports t.output.ret n.toInt (transferred c t.before t.input)

/-- The calls that keep it: the kernel does not fail, a memory handle has a buffer, and a read of
it does not start beyond the counted size, unless its end offset wraps around. -/
def KeepsContract (c : Platform) (t : Call) : Prop :=
  match t.input with
  | .read n => 0 ≤ n.toInt →
    if t.before.handle.inMemory then
      t.before.handle.buffer.isSome = true ∧
        (t.before.handle.position ≤ t.before.handle.apparentSize ∨
          2 ^ 64 ≤ t.before.handle.position.toNat + n.toInt.toNat)
    else (c.read t.before.process.syscalls t.before.handle.file (toU64 n)).1 ≠ -1
  | .write buf => 0 ≤ buf.bufSize.toInt →
    if t.before.handle.inMemory then t.before.handle.buffer.isSome = true
    else c.write t.before.process.syscalls t.before.handle.file buf.bytes ≠ -1
  | .seek _ _ => True

instance (c : Platform) (t : Call) : Decidable (KeepsContract c t) :=
  match t with
  | ⟨before, .read n, _, _⟩ =>
    inferInstanceAs (Decidable (0 ≤ n.toInt →
      if before.handle.inMemory = true then
        before.handle.buffer.isSome = true ∧
          (before.handle.position ≤ before.handle.apparentSize ∨
            2 ^ 64 ≤ before.handle.position.toNat + n.toInt.toNat)
      else (c.read before.process.syscalls before.handle.file (toU64 n)).1 ≠ -1))
  | ⟨before, .write buf, _, _⟩ =>
    inferInstanceAs (Decidable (0 ≤ buf.bufSize.toInt →
      if before.handle.inMemory = true then before.handle.buffer.isSome = true
      else c.write before.process.syscalls before.handle.file buf.bytes ≠ -1))
  | ⟨_, .seek _ _, _, _⟩ => isTrue trivial

/-- The calls of a run that the process lives to make: none after one that goes through a null
buffer. -/
def callsMade : List Call → List Call
  | [] => []
  | t :: ts => if NullAccess t then [t] else t :: callsMade ts

theorem mem_of_mem_callsMade {t : Call} {ts : List Call} (h : t ∈ callsMade ts) : t ∈ ts := by
  induction ts with
  | nil => exact h
  | cons first ts ih =>
    rw [callsMade] at h
    split_ifs at h with hnull
    · exact List.mem_cons.mpr (.inl (List.mem_singleton.mp h))
    · exact List.mem_cons.mpr ((List.mem_cons.mp h).imp_right ih)

/-- The masking cast keeps a count and turns the kernel's `-1` into `INT32_MAX`. -/
theorem int32_of_syscall {ret : Int64} {n : ℕ} (hn : n < 2 ^ 31)
    (h : ret = -1 ∨ 0 ≤ ret.toInt ∧ ret.toInt ≤ n) :
    Reports (int32 ret.toUInt64).toInt n (countOf ret) ↔ ret ≠ -1 := by
  have hval := toNat_toUInt64 ret
  rcases h with rfl | ⟨hpos, hle⟩
  · have hmasked : ¬ (int32 (-1 : Int64).toUInt64).toInt < 0 := by decide
    exact iff_of_false hmasked (fun h => h rfl)
  · have hne : ret ≠ -1 := by
      rintro rfl
      exact absurd hpos (by decide)
    refine iff_of_true ?_ hne
    rw [countOf, if_neg (by omega), Reports, toInt_int32]
    omega

theorem read_contract_iff (h : AudiofsAvioHandle) {n : Int32} (hn : 0 ≤ n.toInt) :
    ((int32 (h.readCount (toU64 n))).toInt = (h.readCount (toU64 n)).toNat ∧
        ((h.readCount (toU64 n)).toNat : ℤ) ≤ n.toInt) ↔
      (h.position ≤ h.apparentSize ∨ 2 ^ 64 ≤ h.position.toNat + n.toInt.toNat) := by
  have hend := endPosition_toNat h hn
  have hcount := readCount_wrapped h n
  have hlt := n.toInt_lt
  have hp := h.position.toNat_lt
  have ha := h.apparentSize.toNat_lt
  rw [toInt_int32, UInt64.le_iff_toNat_le, hcount, hend]
  constructor
  · intro hcontract
    obtain ⟨-, hle⟩ := hcontract
    omega
  · intro hfits
    constructor <;> omega

theorem write_contract {c : Platform} {s : Session} (h : WellFormed s) {buf : Chunk}
    (hn : 0 ≤ buf.bufSize.toInt) :
    Reports (audiofsAvioWrite c s buf).1.toInt buf.bufSize.toInt
      ((s.grown c (s.handle.position + toU64 buf.bufSize)).map fun _ => buf.bytes.length) := by
  obtain ⟨b, bytes, m⟩ := h
  have hspec := avioWrite_spec c m buf
  generalize audiofsAvioWrite c s buf = r at hspec
  cases hspec with
  | negative hneg => exact absurd hn (not_le.mpr hneg)
  | failed _ _ hgrown _ =>
    have hret : (-1 : Int32).toInt < 0 := by decide
    rwa [hgrown]
  | stored hpos _ _ hgrown _ _ _ _ _ =>
    rw [hgrown, Option.map_some, Reports, toInt_int32_toU64 hpos, buf.length_eq]
    omega

theorem contract_of_bufSize (c : Platform) (s : Session) {op : Op} {n : Int32}
    (h : bufSizeOf op = some n) :
    Contract c (transition (step c) s op) ↔
      (0 ≤ n.toInt → ¬ NullAccess (transition (step c) s op) ∧
        Reports (step c s op).1.ret n.toInt (transferred c s op)) := by
  simp only [Contract, transition, h, Option.mem_some_iff, forall_eq']

theorem memory_read_contract (c : Platform) {s : Session} (hmem : s.handle.inMemory = true)
    {n : Int32} (hn : 0 ≤ n.toInt) :
    Reports (step c s (.read n)).1.ret n.toInt (transferred c s (.read n)) ↔
      s.handle.position ≤ s.handle.apparentSize ∨
        2 ^ 64 ≤ s.handle.position.toNat + n.toInt.toNat := by
  have hpos : ¬ n.toInt < 0 := not_lt.mpr hn
  simp only [step, audiofsAvioRead, rejects_iff, transferred, hpos, hmem, if_true, if_false,
    Reports]
  exact read_contract_iff s.handle hn

theorem file_read_contract {c : Platform} (hc : c.Posix) {s : Session}
    (hfile : s.handle.inMemory = false) {n : Int32} (hn : 0 ≤ n.toInt) :
    Reports (step c s (.read n)).1.ret n.toInt (transferred c s (.read n)) ↔
      (c.read s.process.syscalls s.handle.file (toU64 n)).1 ≠ -1 := by
  have hpos : ¬ n.toInt < 0 := not_lt.mpr hn
  simp only [step, audiofsAvioRead, rejects_iff, transferred, hpos, hfile, Bool.false_eq_true,
    if_false]
  have hlt := n.toInt_lt
  have hread := hc.read s.process.syscalls s.handle.file (toU64 n)
  rw [toNat_toU64 hn] at hread
  have hiff := int32_of_syscall (by omega) hread
  rwa [Int.toNat_of_nonneg hn] at hiff

theorem file_write_contract {c : Platform} (hc : c.Posix) {s : Session}
    (hfile : s.handle.inMemory = false) {buf : Chunk} (hn : 0 ≤ buf.bufSize.toInt) :
    Reports (step c s (.write buf)).1.ret buf.bufSize.toInt (transferred c s (.write buf)) ↔
      c.write s.process.syscalls s.handle.file buf.bytes ≠ -1 := by
  have hpos : ¬ buf.bufSize.toInt < 0 := not_lt.mpr hn
  simp only [step, audiofsAvioWrite, rejects_iff, transferred, hpos, hfile, Bool.false_eq_true,
    if_false]
  have hwrite := hc.write s.process.syscalls s.handle.file buf.bytes
  have hiff := int32_of_syscall buf.length_lt hwrite
  rwa [buf.length_eq, Int.toNat_of_nonneg hn] at hiff

theorem wellFormed_backed {s : Session} (h : WellFormed s) :
    s.handle.inMemory = true ∧ s.handle.buffer.isSome = true := by
  obtain ⟨b, bytes, m⟩ := h
  exact ⟨m.inMemory, by simp [m.buffer]⟩

theorem not_nullAccess_of_buffer {t : Call} (h : t.before.handle.buffer.isSome = true) :
    ¬ NullAccess t := fun hnull => by simp [hnull.1] at h

theorem step_contract_iff {c : Platform} (hc : c.Posix) (s : Session) (op : Op)
    (h : Reached s ∨ s.handle.inMemory = false) :
    Contract c (transition (step c) s op) ↔ KeepsContract c (transition (step c) s op) := by
  cases op with
  | seek offset whence =>
    exact iff_of_true (fun n hn => by simp [transition, bufSizeOf] at hn) trivial
  | read n =>
    rw [contract_of_bufSize c s rfl]
    refine forall_congr' fun hn => ?_
    rcases h with (hw | hun) | hfile
    · obtain ⟨hmem, hsome⟩ := wellFormed_backed hw
      have hback : ¬ NullAccess (transition (step c) s (.read n)) := not_nullAccess_of_buffer hsome
      simp only [transition, hmem, hsome, if_true, true_and]
      exact (and_iff_right hback).trans (memory_read_contract c hmem hn)
    · have hdies := (unbacked_nullAccess_iff c hun (.read n)).mpr hn
      exact iff_of_false (fun hk => hk.1 hdies) (by simp [transition, hun.inMemory, hun.buffer])
    · have hback := not_nullAccess_of_file c hfile (.read n)
      simp only [transition, hfile, Bool.false_eq_true, if_false]
      exact (and_iff_right hback).trans (file_read_contract hc hfile hn)
  | write buf =>
    rw [contract_of_bufSize c s rfl]
    refine forall_congr' fun hn => ?_
    rcases h with (hw | hun) | hfile
    · obtain ⟨hmem, hsome⟩ := wellFormed_backed hw
      have hback : ¬ NullAccess (transition (step c) s (.write buf)) :=
        not_nullAccess_of_buffer hsome
      refine iff_of_true ⟨hback, ?_⟩ (by simp [transition, hmem, hsome])
      simp only [transferred, hmem, if_true]
      exact write_contract hw hn
    · have hdies := (unbacked_nullAccess_iff c hun (.write buf)).mpr hn
      exact iff_of_false (fun hk => hk.1 hdies) (by simp [transition, hun.inMemory, hun.buffer])
    · have hback := not_nullAccess_of_file c hfile (.write buf)
      simp only [transition, hfile, Bool.false_eq_true, if_false]
      exact (and_iff_right hback).trans (file_write_contract hc hfile hn)

theorem step_file {c : Platform} {s : Session} (h : s.handle.inMemory = false) (op : Op) :
    (step c s op).2.handle.inMemory = false := by
  cases op <;>
    simp only [step, audiofsAvioRead, audiofsAvioWrite, audiofsAvioSeek, h] <;>
    split_ifs <;> simp_all

theorem openedAs_cases {c : Platform} {filename : List UInt8} {s : Session}
    (h : OpenedAs c filename s) : Reached s ∨ s.handle.inMemory = false := by
  obtain ⟨p, hopen⟩ := h
  cases hname : namesMemory filename with
  | true =>
    refine .inl (opened_reached (c := c) ⟨p, ?_⟩)
    have hmemory : namesMemory memoryName = true := by decide
    simp only [audiofsAvioOpen, hname, hmemory, if_true] at hopen ⊢
    exact hopen
  | false =>
    right
    cases hg : c.grants p.calls sizeofHandle with
    | false => simp [audiofsAvioOpen, Process.calloc, hg] at hopen
    | true =>
      simp only [audiofsAvioOpen, Process.calloc, hg, if_true, hname, Bool.false_eq_true,
        if_false] at hopen
      split_ifs at hopen
      · simp at hopen
      · simp only [Prod.mk.injEq, Option.some.injEq] at hopen
        rw [← hopen.1]

/-- Along every run on a handle of either backing, the calls that are made keep the contract
exactly when each of them is one that keeps it. -/
theorem contract_iff {c : Platform} (hc : c.Posix) {filename : List UInt8} {s : Session}
    (h : OpenedAs c filename s) (ops : List Op) :
    (∀ t ∈ callsMade (trace (step c) s ops), Contract c t) ↔
      ∀ t ∈ callsMade (trace (step c) s ops), KeepsContract c t := by
  have hagree : ∀ t ∈ trace (step c) s ops, Contract c t ↔ KeepsContract c t :=
    trace_forall (A := fun _ => True)
      (P := fun s => Reached s ∨ s.handle.inMemory = false)
      (fun s op _ hs => hs.imp (step_reached c s op) (fun hfile => step_file hfile op))
      (fun s op _ hs => step_contract_iff hc s op hs)
      (openedAs_cases h) ops (fun _ _ => trivial)
  exact forall₂_congr fun t ht => hagree t (mem_of_mem_callsMade ht)

theorem generous_posix : Platform.generous.Posix where
  read _ _ _ := .inl rfl
  write _ _ _ := .inl rfl

theorem appendingRun_contract :
    OpenedAs Platform.generous memoryName Session.first ∧
      ∀ t ∈ callsMade (trace (step Platform.generous) Session.first appendingRun),
        Contract Platform.generous t := by
  have hopened : OpenedAs Platform.generous memoryName Session.first := first_opened.opened
  exact ⟨hopened, (contract_iff generous_posix hopened appendingRun).mpr (by decide)⟩

def Platform.failing : Platform := { Platform.generous with openFile := fun _ _ => 3 }

/-- A failed `read` of the kernel is reported as 2147483647 bytes. -/
theorem failed_read_reported_as_bytes :
    ¬ ∀ (c : Platform), c.Posix → ∀ (filename : List UInt8) (s : Session),
      OpenedAs c filename s → ∀ ops : List Op, ∀ t ∈ callsMade (trace (step c) s ops),
        Contract c t := by
  intro h
  have hcontract := h Platform.failing ⟨fun _ _ _ => .inl rfl, fun _ _ _ => .inl rfl⟩ [97]
    ⟨(audiofsAvioOpen Platform.failing Process.start [97]).2, ⟨0, 3, false, none, 0, 0⟩⟩
    ⟨Process.start, rfl⟩ [.read 4] _ (List.mem_singleton_self _) 4 rfl (by decide)
  exact absurd hcontract.2 (by decide)

/-- A buffer whose block is as long as it says, whatever else holds of it. -/
def Sized (b : AudiofsBuffer) : Prop :=
  (Process.oldBytes b.data).length = b.len.toNat

/-- What a resize does to a buffer that only grows. -/
structure Extends (b b' : AudiofsBuffer) : Prop where
  sized : Sized b'
  kept : Process.oldBytes b.data <+: Process.oldBytes b'.data
  len_le : b.len ≤ b'.len

theorem Extends.refl {b : AudiofsBuffer} (h : Sized b) : Extends b b :=
  ⟨h, List.prefix_refl _, UInt64.le_refl _⟩

theorem Extends.trans {b b' b'' : AudiofsBuffer} (h : Extends b b') (h' : Extends b' b'') :
    Extends b b'' :=
  ⟨h'.sized, h.kept.trans h'.kept, UInt64.le_trans h.len_le h'.len_le⟩

theorem audiofsBufferRealloc_extends (c : Platform) (p : Process) {b : AudiofsBuffer}
    {size : UInt64} (h : Sized b) (hlt : b.len < size) :
    Extends b (audiofsBufferRealloc c p b size).2.1 := by
  obtain ⟨hzero, hne⟩ := ne_of_growing hlt
  rw [audiofsBufferRealloc_exits]
  dsimp only
  rw [if_neg hzero, if_neg hne, blankNewRegions_grow _ hlt]
  split_ifs
  · exact Extends.refl h
  · exact ⟨h, List.prefix_refl _, UInt64.le_refl _⟩
  · refine ⟨Process.length_reallocated _ _ _ _, Process.reallocated_prefix _ _ ?_, ?_⟩
    · rw [h]
      exact (UInt64.lt_iff_toNat_lt.mp hlt).le
    · exact UInt64.le_of_lt hlt

theorem resizeLoop_extends (c : Platform) (size : UInt64) (rounds : ℕ) {p : Process}
    {b : AudiofsBuffer} (h : Sized b) :
    Extends b (resizeLoop c size rounds p b).2.1 := by
  induction rounds generalizing p b with
  | zero => exact Extends.refl h
  | succ rounds ih =>
    rw [resizeLoop]
    split_ifs with hlt hbig
    · exact Extends.refl h
    · have hsize : b.len.toNat < 2 ^ 63 - 1 := by
        rw [UInt64.lt_iff_toNat_lt, UInt64.toNat_max] at hlt
        rw [UInt64.lt_iff_toNat_lt, INT64_MAX_toNat] at hbig
        omega
      obtain ⟨hstep, -⟩ := growthStep_bounds hsize
      have hgrow := audiofsBufferRealloc_extends c p h hstep
      dsimp only
      split_ifs
      · exact Extends.refl h
      · generalize audiofsBufferRealloc c p b (growthStep b.len) = r at hgrow
        obtain ⟨done, b', p'⟩ := r
        cases done with
        | false => exact hgrow
        | true => exact hgrow.trans (ih hgrow.sized)
    · exact Extends.refl h

/-- The file as a caller finds it again after a failed call. -/
structure LeftAsItWas (s s' : Session) : Prop where
  position : s'.handle.position = s.handle.position
  apparentSize : s'.handle.apparentSize = s.handle.apparentSize
  data : s.handle.data <+: s'.handle.data
  len : s.handle.len ≤ s'.handle.len

theorem LeftAsItWas.refl (s : Session) : LeftAsItWas s s :=
  ⟨rfl, rfl, List.prefix_refl _, UInt64.le_refl _⟩

theorem resizeTo_leaves (c : Platform) {s : Session} {b : AudiofsBuffer}
    (hb : s.handle.buffer = some b) (h : Sized b) (size : UInt64) :
    LeftAsItWas s (audiofsAvioResizeTo c s size).2 := by
  have hext := resizeLoop_extends c size (size.toNat - b.len.toNat) (p := s.process) h
  simp only [audiofsAvioResizeTo, hb]
  refine ⟨rfl, rfl, ?_, ?_⟩
  · simpa only [AudiofsAvioHandle.data, hb] using hext.kept
  · simpa only [AudiofsAvioHandle.len, hb] using hext.len_le

/-- No size beyond `INT64_MAX` is reached from a buffer that is not as long already. -/
theorem resizeTo_refuses (c : Platform) {s : Session} {b : AudiofsBuffer}
    (hb : s.handle.buffer = some b) {size : UInt64} (hbig : INT64_MAX < size)
    (hlt : b.len < size) : (audiofsAvioResizeTo c s size).1 = -1 := by
  have hlt' := UInt64.lt_iff_toNat_lt.mp hlt
  have hmax : b.len < max size b.len := by
    rw [UInt64.lt_iff_toNat_lt, UInt64.toNat_max]
    omega
  obtain ⟨rounds, hrounds⟩ : ∃ rounds, size.toNat - b.len.toNat = rounds + 1 :=
    ⟨size.toNat - b.len.toNat - 1, by omega⟩
  simp only [audiofsAvioResizeTo, hb, hrounds, resizeLoop, if_pos hmax, if_pos hbig]

theorem seekTo_leaves (c : Platform) {s : Session} {b : AudiofsBuffer}
    (hb : s.handle.buffer = some b) (h : Sized b) (hlen : b.len ≤ INT64_MAX) {target : Int64}
    (hneg : (seekTo c s target).1.toInt < 0) : LeftAsItWas s (seekTo c s target).2 := by
  by_cases hin : withinBounds 0 target s.handle.apparentSize = 0
  · simp only [seekTo, if_pos hin] at hneg ⊢
    split_ifs at hneg ⊢ with hfail
    · exact resizeTo_leaves c hb h _
    · -- a negative target asks for more than any buffer holds
      exfalso
      have htarget : target.toInt < 0 := hneg
      have hval := toNat_toUInt64 target
      have hge := target.le_toInt
      rw [UInt64.le_iff_toNat_le, INT64_MAX_toNat] at hlen
      have hret : (audiofsAvioResizeTo c s target.toUInt64).1 = -1 := by
        apply resizeTo_refuses c hb
        · rw [UInt64.lt_iff_toNat_lt, INT64_MAX_toNat]
          omega
        · rw [UInt64.lt_iff_toNat_lt]
          omega
      exact hfail (by rw [hret]; decide)
  · simp only [seekTo, if_neg hin] at hneg
    exact absurd ((withinBounds_eq_zero_iff _ _).mpr (.inl hneg.le)) hin

theorem read_not_negative (c : Platform) {s : Session} (hmem : s.handle.inMemory = true)
    {n : Int32} (hn : ¬ (n < 0 ∨ INT32_MAX < n)) : 0 ≤ (audiofsAvioRead c s n).1.1.toInt := by
  simp only [audiofsAvioRead, if_neg hn, hmem, if_true, toInt_int32]
  omega

/-- A call on a memory file that answers with a negative value leaves position, counted size and
contents as they were, behind which the buffer may have grown. -/
theorem failed_call_leaves_file (c : Platform) {s : Session} {b : AudiofsBuffer}
    (hmem : s.handle.inMemory = true) (hb : s.handle.buffer = some b) (h : Sized b)
    (hlen : b.len ≤ INT64_MAX) (op : Op) (hneg : (step c s op).1.ret < 0) :
    LeftAsItWas s (step c s op).2 := by
  cases op with
  | read n =>
    simp only [step] at hneg ⊢
    by_cases hn : n < 0 ∨ INT32_MAX < n
    · rw [audiofsAvioRead, if_pos hn]
      exact LeftAsItWas.refl s
    · exact absurd (read_not_negative c hmem hn) (not_le.mpr hneg)
  | write buf =>
    simp only [step, audiofsAvioWrite, hmem, if_true] at hneg ⊢
    split_ifs at hneg ⊢ with hrejected hfail
    · exact LeftAsItWas.refl s
    · exact resizeTo_leaves c hb h _
    · simp only [toInt_int32] at hneg
      omega
  | seek offset whence =>
    simp only [step, audiofsAvioSeek, hmem, if_true] at hneg ⊢
    split_ifs at hneg ⊢
    · exact LeftAsItWas.refl s
    · exact seekTo_leaves c hb h hlen hneg
    · exact seekTo_leaves c hb h hlen hneg
    · exact LeftAsItWas.refl s
    · exact seekTo_leaves c hb h hlen hneg
    · exact LeftAsItWas.refl s

def Platform.halfway : Platform :=
  { Platform.generous with grants := fun _ size => size ≤ 65536 }

theorem halfway_growth_leaves_file :
    LeftAsItWas Session.first (step Platform.halfway Session.first (.seek 100000 SEEK_SET)).2 := by
  obtain ⟨⟨b, m⟩, -, -⟩ := openedGranted_memory first_opened
  have hlen : b.len = 1024 := m.len_eq.symm
  refine failed_call_leaves_file Platform.halfway m.inMemory m.buffer ?_ (by rw [hlen]; decide) _
    (by decide +kernel)
  obtain ⟨addr, hdata⟩ := m.holds.data
  rw [Sized, ← m.length, hdata, Process.oldBytes]

end CustomAvio
end AudioFS
