import AudioFS.MemoryBounds
import AudioFS.ByteFile

/-!
# The memory handle as a byte file

The reference is a POSIX byte file behind the same three calls. The simulation
relation ties the buffer, the size counter and the position to its contents and
offset. It survives every seek the reference accepts, but reads only match from
the start or the end of the file, and writes only into an empty file: both
copies use the start of the buffer whatever the position is.
-/

namespace AudioFS.CustomAvio
open AudioFS.CInteger AudioFS.Buffer StepMachine

def maxOffset : ℕ := 2 ^ 63 - 1

def origin (whence : Int32) : Option ByteFile.Origin :=
  if whence = SEEK_SET then some .start
  else if whence = SEEK_CUR then some .current
  else if whence = SEEK_END then some .finish
  else none

def posixStep (f : ByteFile.File UInt8) : Op → Answer × ByteFile.File UInt8
  | .read n =>
    let r := f.read n.toInt.toNat
    (⟨r.1.length, r.1⟩, r.2)
  | .write buf => (⟨buf.bytes.length, []⟩, f.write 0 buf.bytes)
  | .seek offset whence =>
    match origin whence with
    | none => (⟨-1, []⟩, f)
    | some o =>
      match f.seek maxOffset offset.toInt o with
      | (none, f) => (⟨-1, []⟩, f)
      | (some position, f) => (⟨position, []⟩, f)

def Op.Supported : Op → Prop
  | .read n => 0 ≤ n.toInt
  | .write buf => 0 ≤ buf.bufSize.toInt
  | .seek _ whence => whence = SEEK_SET ∨ whence = SEEK_CUR ∨ whence = SEEK_END

def Granted (t : Call) : Prop := t.after.process.refused = t.before.process.refused

def AudiofsAvioHandle.target (h : AudiofsAvioHandle) (offset : Int64) (whence : Int32) : ℤ :=
  (if whence = SEEK_CUR then h.position.toNat
    else if whence = SEEK_END then h.apparentSize.toNat else 0 : ℕ) + offset.toInt

theorem target_set (h : AudiofsAvioHandle) (offset : Int64) :
    h.target offset SEEK_SET = offset.toInt := Int.zero_add _

theorem target_cur (h : AudiofsAvioHandle) (offset : Int64) :
    h.target offset SEEK_CUR = h.position.toNat + offset.toInt := rfl

theorem target_end (h : AudiofsAvioHandle) (offset : Int64) :
    h.target offset SEEK_END = h.apparentSize.toNat + offset.toInt := rfl

def Overflows (t : Call) : Prop :=
  match t.input with
  | .seek offset whence => (maxOffset : ℤ) < t.before.handle.target offset whence
  | _ => False

/-- The calls that do not run into the missing position: a read of nothing, from the start or
from the end of the file, a write of nothing or into an empty file, a seek backwards only to a
negative target, and forwards to an offset or to one the buffer does not reach either. -/
def Faithful (t : Call) : Prop :=
  match t.input with
  | .read n => t.before.handle.position ≤ t.before.handle.apparentSize ∧
    (n.toInt = 0 ∨ t.before.handle.position = 0 ∨
      t.before.handle.position = t.before.handle.apparentSize)
  | .write buf => buf.bytes = [] ∨
    (t.before.handle.position = 0 ∧ t.before.handle.apparentSize = 0)
  | .seek offset whence =>
    if offset.toInt < 0 then t.before.handle.target offset whence < 0
    else t.before.handle.target offset whence ≤ maxOffset ∨
      (t.before.handle.len.toNat : ℤ) < t.before.handle.target offset whence

instance (op : Op) : Decidable op.Supported :=
  match op with
  | .read n => inferInstanceAs (Decidable (0 ≤ n.toInt))
  | .write buf => inferInstanceAs (Decidable (0 ≤ buf.bufSize.toInt))
  | .seek _ whence =>
    inferInstanceAs (Decidable (whence = SEEK_SET ∨ whence = SEEK_CUR ∨ whence = SEEK_END))

instance (t : Call) : Decidable (Granted t) :=
  inferInstanceAs (Decidable (t.after.process.refused = t.before.process.refused))

instance (t : Call) : Decidable (Faithful t) :=
  match t with
  | ⟨before, .read n, _, _⟩ =>
    inferInstanceAs (Decidable (before.handle.position ≤ before.handle.apparentSize ∧
      (n.toInt = 0 ∨ before.handle.position = 0 ∨
        before.handle.position = before.handle.apparentSize)))
  | ⟨before, .write buf, _, _⟩ =>
    inferInstanceAs (Decidable (buf.bytes = [] ∨
      (before.handle.position = 0 ∧ before.handle.apparentSize = 0)))
  | ⟨before, .seek offset whence, _, _⟩ =>
    inferInstanceAs (Decidable (if offset.toInt < 0 then before.handle.target offset whence < 0
      else before.handle.target offset whence ≤ maxOffset ∨
        (before.handle.len.toNat : ℤ) < before.handle.target offset whence))

/-- The answers agree: the same bytes and the same return value, where a seek beyond the
largest offset fails on both sides, with an error code of its own. -/
def Agree (t : Call) (u : Transition (ByteFile.File UInt8) Op Answer) : Prop :=
  t.output.bytes = u.output.bytes ∧
    (t.output.ret = u.output.ret ∨ (Overflows t ∧ t.output.ret < 0 ∧ u.output.ret < 0))

structure Represents (s : Session) (f : ByteFile.File UInt8) : Prop where
  memory : ∃ b bytes, Memory s b bytes ∧ f.contents <+: bytes
  apparentSize : s.handle.apparentSize.toNat = f.contents.length
  position : s.handle.position.toNat = f.position
  size_le : f.contents.length ≤ maxOffset
  position_le : f.position ≤ maxOffset

theorem Represents.resized {c : Platform} {s s' : Session} {f : ByteFile.File UInt8}
    {bytes new : List UInt8} (hr : Represents s f) (hpre : f.contents <+: bytes)
    (h : Resized c s s' bytes new) :
    Represents s' f := by
  obtain ⟨b', m'⟩ := h.memory
  exact ⟨⟨b', new, m', hpre.trans h.kept⟩, by rw [h.apparentSize]; exact hr.apparentSize,
    by rw [h.position]; exact hr.position, hr.size_le, hr.position_le⟩

theorem take_prefix_eq {xs ys : List UInt8} (h : xs <+: ys) {k : ℕ} (hk : k ≤ xs.length) :
    ys.take k = xs.take k := by
  obtain ⟨zs, rfl⟩ := h
  rw [List.take_append_of_le_length hk]

theorem readCount_toNat (h : AudiofsAvioHandle) {n : Int32} (hn : 0 ≤ n.toInt)
    (hle : h.position ≤ h.apparentSize) (hpos : h.position.toNat < 2 ^ 63) :
    (h.readCount (toU64 n)).toNat =
        min n.toInt.toNat (h.apparentSize.toNat - h.position.toNat) ∧
      (h.endPosition (toU64 n)).toNat = h.position.toNat + (h.readCount (toU64 n)).toNat := by
  have hlt := n.toInt_lt
  have ha := h.apparentSize.toNat_lt
  rw [UInt64.le_iff_toNat_le] at hle
  have hend := endPosition_toNat h hn
  have hcount := readCount_wrapped h n
  omega

theorem read_represents (c : Platform) {s : Session} {f : ByteFile.File UInt8}
    (hr : Represents s f) {n : Int32} (hn : 0 ≤ n.toInt)
    (hle : s.handle.position ≤ s.handle.apparentSize)
    (hwhere : n.toInt = 0 ∨ s.handle.position = 0 ∨ s.handle.position = s.handle.apparentSize) :
    (step c s (.read n)).1 = (posixStep f (.read n)).1 ∧
      Represents (step c s (.read n)).2 (posixStep f (.read n)).2 := by
  obtain ⟨b, bytes, m, hpre⟩ := hr.memory
  have hpos := hr.position
  have hsize := hr.apparentSize
  have hple := hr.position_le
  have hsle := hr.size_le
  have hlt := n.toInt_lt
  simp only [maxOffset] at hple hsle
  obtain ⟨hcount, hend⟩ := readCount_toNat s.handle hn hle (by omega)
  set k := (s.handle.readCount (toU64 n)).toNat with hk
  have hgot : (f.contents.drop f.position).take n.toInt.toNat = bytes.take k := by
    rcases Nat.eq_zero_or_pos k with hzero | hkpos
    · -- nothing is left: either no byte was asked for or the position is the end
      rw [hzero, List.take_zero, List.take_eq_nil_iff, List.drop_eq_nil_iff]
      omega
    · have hstart : f.position = 0 := by
        rcases hwhere with h | h | h
        · omega
        · rw [← hpos, h, UInt64.toNat_zero]
        · rw [← UInt64.toNat_inj] at h
          omega
      rw [hstart, List.drop_zero, take_prefix_eq hpre (by omega), List.take_eq_take_iff]
      omega
  have hlen : (bytes.take k).length = k := by
    rw [List.length_take]
    have hpl := hpre.length_le
    omega
  have hret : (int32 (s.handle.readCount (toU64 n))).toInt = k := by
    rw [toInt_int32, ← hk]
    omega
  simp only [step, posixStep, avioRead_spec c m hn, ByteFile.File.read, hgot]
  rw [← hk, hlen, hret]
  refine ⟨rfl, ⟨b, bytes, m.update _ _ _, hpre⟩, hsize, ?_, hsle, ?_⟩
  · exact hend.trans (by rw [hpos])
  · simp only [maxOffset]
    omega

theorem Represents.eq_empty {s : Session} {f : ByteFile.File UInt8} (hr : Represents s f)
    (hpos : s.handle.position = 0) (hsize : s.handle.apparentSize = 0) :
    f = ByteFile.File.empty := by
  have h₁ := hr.position
  have h₂ := hr.apparentSize
  rw [hpos, UInt64.toNat_zero] at h₁
  rw [hsize, UInt64.toNat_zero] at h₂
  obtain ⟨contents, position⟩ := f
  simp only [ByteFile.File.empty, ByteFile.File.mk.injEq]
  exact ⟨List.length_eq_zero_iff.mp h₂.symm, h₁.symm⟩

theorem posix_write_eq {s : Session} {f : ByteFile.File UInt8} (hr : Represents s f)
    (data : List UInt8)
    (hwhere : data = [] ∨ (s.handle.position = 0 ∧ s.handle.apparentSize = 0)) :
    ∃ contents, f.write 0 data = ⟨contents, f.position + data.length⟩ ∧
      contents.length = f.contents.length + data.length ∧
      f.position + data.length ≤ max maxOffset data.length ∧
      (data = [] ∧ contents = f.contents ∨ contents = data) := by
  rcases hwhere with rfl | ⟨hpos, hsize⟩
  · refine ⟨f.contents, by rw [ByteFile.write_nil]; rfl, rfl, ?_, .inl ⟨rfl, rfl⟩⟩
    have h := hr.position_le
    simp only [List.length_nil]
    omega
  · rw [hr.eq_empty hpos hsize, ByteFile.write_empty_file]
    exact ⟨data, by simp [ByteFile.File.empty], by simp [ByteFile.File.empty],
      by simp [ByteFile.File.empty], .inr rfl⟩

theorem write_represents (c : Platform) {s : Session} {f : ByteFile.File UInt8}
    (hr : Represents s f) {buf : Chunk} (hn : 0 ≤ buf.bufSize.toInt)
    (hgrant : Granted (transition (step c) s (.write buf)))
    (hwhere : buf.bytes = [] ∨ (s.handle.position = 0 ∧ s.handle.apparentSize = 0)) :
    (step c s (.write buf)).1 = (posixStep f (.write buf)).1 ∧
      Represents (step c s (.write buf)).2 (posixStep f (.write buf)).2 := by
  obtain ⟨b, bytes, m, hpre⟩ := hr.memory
  obtain ⟨contents, hfile, hclen, hple, hcontents⟩ := posix_write_eq hr buf.bytes hwhere
  have hpos := hr.position
  have hsize := hr.apparentSize
  have hle := hr.position_le
  have hsle := hr.size_le
  have hlt := buf.length_lt
  have hlength := Chunk.length_toInt hn
  simp only [maxOffset] at hle hsle hple
  have hsum : (s.handle.position + toU64 buf.bufSize).toNat = f.position + buf.bytes.length := by
    rw [toNat_add_of_lt (by omega), hlength, hpos]
  have happ : (s.handle.apparentSize + toU64 buf.bufSize).toNat = contents.length := by
    rw [toNat_add_of_lt (by omega), hlength, hsize, hclen]
  have hspec := avioWrite_spec c m buf
  simp only [Granted, transition, step] at hgrant
  simp only [step, posixStep, hfile]
  generalize audiofsAvioWrite c s buf = r at hspec hgrant
  cases hspec with
  | negative h => omega
  | failed _ _ _ hwhy =>
    rcases hwhy with h | h
    · rw [UInt64.lt_iff_toNat_lt, INT64_MAX_toNat, hsum] at h
      omega
    · exact absurd hgrant h.ne'
  | @stored p s' b' new _ hkept _ _ hlen m' hposition happarent _ =>
    have hfit : buf.bytes.length ≤ new.length := by omega
    rw [copyIn_of_le p hfit] at m'
    have hprefix : contents <+: buf.bytes ++ new.drop buf.bytes.length := by
      rcases hcontents with ⟨hnil, rfl⟩ | rfl
      · simpa [hnil] using hpre.trans hkept
      · exact List.prefix_append _ _
    have hcle : contents.length ≤ 2 ^ 63 - 1 := by
      rcases hcontents with ⟨-, rfl⟩ | rfl <;> omega
    refine ⟨?_, ⟨b', _, m', hprefix⟩, by rw [happarent, happ], by rw [hposition, hsum], hcle, ?_⟩
    · rw [toInt_int32_toU64 hn, buf.length_eq, Int.toNat_of_nonneg hn]
    · simp only [maxOffset]
      omega

theorem wrapped_target {base : UInt64} {offset : Int64} (hb : base.toNat ≤ maxOffset)
    (hoff : 0 ≤ offset.toInt) :
    ((base + offset.toUInt64).toInt64.toUInt64.toNat : ℤ) = base.toNat + offset.toInt ∧
      ((base + offset.toUInt64).toInt64.toInt < 0 ↔ (maxOffset : ℤ) < base.toNat + offset.toInt) ∧
      (base.toNat + offset.toInt ≤ maxOffset →
        (base + offset.toUInt64).toInt64.toInt = base.toNat + offset.toInt) := by
  have hval := toNat_toUInt64 offset
  have hlt := offset.toInt_lt
  simp only [maxOffset] at *
  have hsum : ((base + offset.toUInt64).toNat : ℤ) = base.toNat + offset.toInt := by
    rw [toNat_add_of_lt (by omega)]
    push_cast
    omega
  have hsigned := toInt_toInt64 (base + offset.toUInt64)
  have hback := toNat_toUInt64 (base + offset.toUInt64).toInt64
  refine ⟨?_, ?_, ?_⟩
  · split_ifs at hsigned <;> omega
  · split_ifs at hsigned <;> omega
  · intro h
    split_ifs at hsigned <;> omega

theorem posix_seek_eq {s : Session} {f : ByteFile.File UInt8} (hr : Represents s f)
    (offset : Int64) {whence : Int32}
    (hw : whence = SEEK_SET ∨ whence = SEEK_CUR ∨ whence = SEEK_END) :
    posixStep f (.seek offset whence) =
      if s.handle.target offset whence < 0 ∨ (maxOffset : ℤ) < s.handle.target offset whence then
        (⟨-1, []⟩, f)
      else (⟨(s.handle.target offset whence).toNat, []⟩,
        { f with position := (s.handle.target offset whence).toNat }) := by
  have hbase : ∃ o, origin whence = some o ∧
      ((f.base o : ℤ) + offset.toInt = s.handle.target offset whence) := by
    rcases hw with rfl | rfl | rfl
    · exact ⟨.start, by decide, rfl⟩
    · exact ⟨.current, by decide,
        congrArg (fun n : ℕ => (n : ℤ) + offset.toInt) hr.position.symm⟩
    · exact ⟨.finish, by decide,
        congrArg (fun n : ℕ => (n : ℤ) + offset.toInt) hr.apparentSize.symm⟩
  obtain ⟨o, horigin, htarget⟩ := hbase
  simp only [posixStep, horigin, ByteFile.File.seek, htarget]
  split_ifs <;> rfl

theorem moved_represents {c : Platform} {s : Session} {f : ByteFile.File UInt8}
    (hr : Represents s f) {b : AudiofsBuffer} {bytes : List UInt8} (m : Memory s b bytes)
    (hpre : f.contents <+: bytes) {target : Int64} {v : ℤ} (hv : 0 ≤ v)
    (hval : (target.toUInt64.toNat : ℤ) = v)
    (hexact : v ≤ maxOffset → target.toInt = v)
    (hreach : v ≤ maxOffset ∨ (s.handle.len.toNat : ℤ) < v)
    {r : Int64 × Session} (h : Moved c s bytes target r)
    (hgrant : r.2.process.refused = s.process.refused) :
    if (maxOffset : ℤ) < v then r.1.toInt < 0 ∧ Represents r.2 f
    else r.1.toInt = v ∧ Represents r.2 { f with position := v.toNat } := by
  have hbig : INT64_MAX < target.toUInt64 ↔ (maxOffset : ℤ) < v := by
    rw [UInt64.lt_iff_toNat_lt, INT64_MAX_toNat, ← hval, maxOffset, Int.ofNat_lt]
  cases h with
  | failed hres hlen hwhy =>
    rcases hwhy with h | h
    · rw [if_pos (hbig.mp h)]
      exact ⟨ENOMEM_neg, hr.resized hpre hres⟩
    · exact absurd hgrant h.ne'
  | moved m' hkept _ hposition hsize _ hin =>
    have hfits : ¬ (maxOffset : ℤ) < v := by
      intro h
      have hle := hin (hbig.mpr h)
      rw [m.length, ← m.len_eq] at hle
      omega
    rw [if_neg hfits]
    refine ⟨hexact (by omega), ⟨_, _, m', hpre.trans hkept⟩, by rw [hsize]; exact hr.apparentSize,
      ?_, hr.size_le, ?_⟩
    · rw [hposition]
      change target.toUInt64.toNat = v.toNat
      omega
    · change v.toNat ≤ maxOffset
      omega

/-- One argument serves the three whence values: a move to a target with the exact value agrees
with the seek of the reference file. -/
theorem moved_agrees {c : Platform} {s : Session} {f : ByteFile.File UInt8}
    (hr : Represents s f) {b : AudiofsBuffer} {bytes : List UInt8} (m : Memory s b bytes)
    (hpre : f.contents <+: bytes) {offset : Int64} {whence : Int32}
    (hw : whence = SEEK_SET ∨ whence = SEEK_CUR ∨ whence = SEEK_END) {target : Int64}
    (hval : (target.toUInt64.toNat : ℤ) = s.handle.target offset whence)
    (hexact : s.handle.target offset whence ≤ maxOffset →
      target.toInt = s.handle.target offset whence)
    (hreach : s.handle.target offset whence ≤ maxOffset ∨
      (s.handle.len.toNat : ℤ) < s.handle.target offset whence)
    {r : Int64 × Session} (h : Moved c s bytes target r)
    (hgrant : r.2.process.refused = s.process.refused) :
    (([] : List UInt8) = (posixStep f (.seek offset whence)).1.bytes ∧
        (r.1.toInt = (posixStep f (.seek offset whence)).1.ret ∨
          ((maxOffset : ℤ) < s.handle.target offset whence ∧ r.1.toInt < 0 ∧
            (posixStep f (.seek offset whence)).1.ret < 0))) ∧
      Represents r.2 (posixStep f (.seek offset whence)).2 := by
  have hrep := moved_represents hr m hpre (by omega) hval hexact hreach h hgrant
  rw [posix_seek_eq hr offset hw]
  by_cases hover : (maxOffset : ℤ) < s.handle.target offset whence
  · rw [if_pos hover] at hrep
    rw [if_pos (.inr hover)]
    exact ⟨⟨rfl, .inr ⟨hover, hrep.1, neg_one_lt_zero⟩⟩, hrep.2⟩
  · rw [if_neg hover] at hrep
    rw [if_neg (by omega)]
    refine ⟨⟨rfl, .inl ?_⟩, hrep.2⟩
    rw [hrep.1]
    exact (Int.toNat_of_nonneg (by omega)).symm

theorem seek_represents (c : Platform) {s : Session} {f : ByteFile.File UInt8}
    (hr : Represents s f) {offset : Int64} {whence : Int32}
    (hw : whence = SEEK_SET ∨ whence = SEEK_CUR ∨ whence = SEEK_END)
    (hgrant : Granted (transition (step c) s (.seek offset whence)))
    (hc : Faithful (transition (step c) s (.seek offset whence))) :
    Agree (transition (step c) s (.seek offset whence))
        (transition posixStep f (.seek offset whence)) ∧
      Represents (step c s (.seek offset whence)).2 (posixStep f (.seek offset whence)).2 := by
  obtain ⟨b, bytes, m, hpre⟩ := hr.memory
  have hple := hr.position_le
  have hsle := hr.size_le
  have hposition : s.handle.position.toNat ≤ maxOffset := hr.position.trans_le hple
  have hsize : s.handle.apparentSize.toNat ≤ maxOffset := hr.apparentSize.trans_le hsle
  have hlt := offset.toInt_lt
  have hspec := avioSeek_spec c m offset whence
  have hposix := posix_seek_eq hr offset hw
  simp only [Agree, Overflows, Faithful, Granted, transition, step] at hgrant hc ⊢
  generalize audiofsAvioSeek c s offset whence = r at hspec hgrant
  cases hspec with
  | negative hneg =>
    rw [if_pos hneg] at hc
    rw [hposix, if_pos (.inl hc)]
    exact ⟨⟨rfl, .inl rfl⟩, hr⟩
  | unsupported _ h₁ h₂ h₃ => rcases hw with h | h | h <;> contradiction
  | beyond hoff hend hover =>
    have hbig := (wrapped_target hsize hoff).2.1.mp hover
    rw [← target_end s.handle, ← hend] at hbig
    rw [hposix, if_pos (.inr hbig)]
    exact ⟨⟨rfl, .inr ⟨hbig, EINVAL_neg, neg_one_lt_zero⟩⟩, hr⟩
  | set hoff hset hmoved =>
    have htarget : s.handle.target offset whence = offset.toInt := by
      rw [hset]
      exact target_set s.handle offset
    have hval := toNat_toUInt64 offset
    rw [if_neg (not_lt.mpr hoff)] at hc
    refine moved_agrees hr m hpre hw ?_ (fun _ => htarget.symm) hc hmoved hgrant
    rw [htarget]
    omega
  | cur hoff hcur hmoved =>
    obtain ⟨hval, -, hexact⟩ := wrapped_target hposition hoff
    rw [← target_cur s.handle, ← hcur] at hval hexact
    rw [if_neg (not_lt.mpr hoff)] at hc
    exact moved_agrees hr m hpre hw hval hexact hc hmoved hgrant
  | fin hoff hend _ hmoved =>
    obtain ⟨hval, -, hexact⟩ := wrapped_target hsize hoff
    rw [← target_end s.handle, ← hend] at hval hexact
    rw [if_neg (not_lt.mpr hoff)] at hc
    exact moved_agrees hr m hpre hw hval hexact hc hmoved hgrant

theorem step_represents (c : Platform) (s : Session) (f : ByteFile.File UInt8) (op : Op)
    (hr : Represents s f) (hop : op.Supported) (hgrant : Granted (transition (step c) s op))
    (hc : Faithful (transition (step c) s op)) :
    Agree (transition (step c) s op) (transition posixStep f op) ∧
      Represents (step c s op).2 (posixStep f op).2 := by
  cases op with
  | read n =>
    obtain ⟨hanswer, hrep⟩ := read_represents c hr hop hc.1 hc.2
    exact ⟨⟨congrArg Answer.bytes hanswer, .inl (congrArg Answer.ret hanswer)⟩, hrep⟩
  | write buf =>
    obtain ⟨hanswer, hrep⟩ := write_represents c hr hop hgrant hc
    exact ⟨⟨congrArg Answer.bytes hanswer, .inl (congrArg Answer.ret hanswer)⟩, hrep⟩
  | seek offset whence => exact seek_represents c hr hop hgrant hc

theorem opened_represents {c : Platform} {s : Session} (h : OpenedGranted c s) :
    Represents s ByteFile.File.empty := by
  obtain ⟨⟨b, m⟩, hpos, hsize⟩ := openedGranted_memory h
  exact ⟨⟨b, _, m, List.nil_prefix⟩, by rw [hsize]; rfl, by rw [hpos]; rfl, Nat.zero_le _,
    Nat.zero_le _⟩

/-- A faithful call that, if it seeks, does not ask for more than the largest offset: both sides
refuse that, with different codes. -/
def Exact (t : Call) : Prop := Faithful t ∧ ¬ Overflows t

instance (t : Call) : Decidable (Overflows t) :=
  match t with
  | ⟨before, .seek offset whence, _, _⟩ =>
    inferInstanceAs (Decidable ((maxOffset : ℤ) < before.handle.target offset whence))
  | ⟨_, .read _, _, _⟩ => isFalse id
  | ⟨_, .write _, _, _⟩ => isFalse id

instance (t : Call) : Decidable (Exact t) := inferInstanceAs (Decidable (_ ∧ _))

theorem Agree.output_eq {t : Call} {u : Transition (ByteFile.File UInt8) Op Answer}
    (h : Agree t u) (hover : ¬ Overflows t) : t.output = u.output := by
  obtain ⟨hbytes, hret⟩ := h
  have hsame : t.output.ret = u.output.ret := hret.resolve_right fun h => hover h.1
  calc
    t.output = ⟨t.output.ret, t.output.bytes⟩ := rfl
    _ = ⟨u.output.ret, u.output.bytes⟩ := by rw [hsame, hbytes]
    _ = u.output := rfl

/-- A fresh memory handle is a byte file along every run of granted, supported calls that never
needs the position of a transfer: the same return values and the same bytes. -/
theorem memory_refines_posix (c : Platform) {s : Session} (h : OpenedGranted c s) (ops : List Op)
    (hops : ∀ op ∈ ops, op.Supported) (hgrant : ∀ t ∈ trace (step c) s ops, Granted t)
    (hc : ∀ t ∈ trace (step c) s ops, Exact t) :
    (trace (step c) s ops).map Transition.output =
      (trace posixStep ByteFile.File.empty ops).map Transition.output := by
  have hinput : ∀ t ∈ trace (step c) s ops, t.input.Supported :=
    trace_forall_input (step c) s ops hops
  have hsame : List.Forall₂ (fun t u => t.output = u.output) (trace (step c) s ops)
      (trace posixStep ByteFile.File.empty ops) := by
    refine simulation (R := Represents) (C := fun t => t.input.Supported ∧ Granted t ∧ Exact t)
      (fun s f op hr hs => ?_) (opened_represents h) ops
      (fun t ht => ⟨hinput t ht, hgrant t ht, hc t ht⟩)
    obtain ⟨hop, hgrant, hfaithful, hover⟩ := hs
    obtain ⟨hagree, hnext⟩ := step_represents c s f op hr hop hgrant hfaithful
    exact ⟨hagree.output_eq hover, hnext⟩
  rw [← List.forall₂_eq_eq_eq, List.forall₂_map_left_iff, List.forall₂_map_right_iff]
  exact hsame

def writeOnceRun : List Op :=
  [.write (.one 65), .seek (-5) SEEK_CUR, .seek 0 SEEK_SET, .read 4, .read 4]

theorem writeOnceRun_refines :
    (trace (step Platform.generous) Session.first writeOnceRun).map Transition.output =
      (trace posixStep ByteFile.File.empty writeOnceRun).map Transition.output :=
  memory_refines_posix Platform.generous first_opened writeOnceRun (by decide)
    (by decide +kernel) (by decide +kernel)

/-- The second of two writes lands on the first, so reading both back gives other bytes. -/
theorem second_write_is_misplaced :
    ¬ ∀ (c : Platform) (s : Session), OpenedGranted c s → ∀ ops : List Op,
      (∀ op ∈ ops, op.Supported) → (∀ t ∈ trace (step c) s ops, Granted t) →
      (trace (step c) s ops).map Transition.output =
        (trace posixStep ByteFile.File.empty ops).map Transition.output := by
  intro h
  have hsame := h Platform.generous Session.first first_opened
    [.write (.one 65), .write (.one 66), .seek 0 SEEK_SET, .read 2] (by decide)
    (by decide +kernel)
  exact absurd hsame (by decide +kernel)

end AudioFS.CustomAvio
