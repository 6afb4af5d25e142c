import AudioFS.MemorySizes

/-!
# Stale memory

What a caller can see of a memory file, run twice on platforms that differ only
in what newly added memory contains. `known` counts the leading bytes that no
longer depend on it: the zeroed first block, and whatever a write has put over
the start of the buffer since. The growth path leaves everything beyond as the
allocator had it, and a run shows some of it exactly when a read or the size
counter reaches past the known bytes.
-/

namespace AudioFS

def Platform.withFresh (c : Platform) (fresh : ℕ → ℕ → UInt8) : Platform :=
  { c with fresh := fresh }

namespace CustomAvio
open AudioFS.CInteger AudioFS.Buffer StepMachine

/-- `buffer->data[0 .. audiofs_avio_get_size)`, as far as it lies inside the buffer. -/
def Session.counted (s : Session) : List UInt8 :=
  s.handle.data.take s.handle.apparentSize.toInt64.toInt.toNat

structure View where
  ret : ℤ
  shown : Option (List UInt8)
  counted : List UInt8
  deriving DecidableEq

/-- The bytes of a read that stays inside the buffer. -/
def shown (t : Call) : Option (List UInt8) :=
  match t.input with
  | .read n =>
    if 0 ≤ n.toInt ∧ t.before.handle.readCount (toU64 n) ≤ t.before.handle.len then
      some t.output.bytes
    else none
  | _ => none

def view (t : Call) : View := ⟨t.output.ret, shown t, t.after.counted⟩

/-- No choice of the allocator's bytes is visible in the run. -/
def ShowsNoStale (c : Platform) (s : Session) (ops : List Op) : Prop :=
  ∀ fresh fresh' : ℕ → ℕ → UInt8,
    (trace (step (c.withFresh fresh)) s ops).map view =
      (trace (step (c.withFresh fresh')) s ops).map view

/-- A write that the buffer could be grown for overwrites the start of the buffer. -/
def noteKnown (c : Platform) (known : ℕ) (t : Call) : ℕ :=
  match t.input with
  | .write buf =>
    match t.before.grown c (t.before.handle.position + toU64 buf.bufSize) with
    | some len => max known (min buf.bytes.length len.toNat)
    | none => known
  | _ => known

def ReadKnown (known : ℕ) (t : Call) : Prop :=
  match t.input with
  | .read n => 0 ≤ n.toInt → t.before.handle.readCount (toU64 n) ≤ t.before.handle.len →
    (t.before.handle.readCount (toU64 n)).toNat ≤ known
  | _ => True

/-- An in-bounds read takes known bytes only, and the size counter covers known bytes only of
the buffer the call leaves. -/
def Covered (c : Platform) (known : ℕ) (t : Call) : Prop :=
  ReadKnown known t ∧
    min (t.before.sizeAfter c t.input).toInt64.toInt.toNat
      (t.before.lenAfter c t.input).toNat ≤ noteKnown c known t

instance (known : ℕ) (t : Call) : Decidable (ReadKnown known t) :=
  match t with
  | ⟨before, .read n, _, _⟩ =>
    inferInstanceAs (Decidable (0 ≤ n.toInt →
      before.handle.readCount (toU64 n) ≤ before.handle.len →
        (before.handle.readCount (toU64 n)).toNat ≤ known))
  | ⟨_, .write _, _, _⟩ => isTrue trivial
  | ⟨_, .seek _ _, _, _⟩ => isTrue trivial

instance (c : Platform) (known : ℕ) (t : Call) : Decidable (Covered c known t) :=
  inferInstanceAs (Decidable (_ ∧ _))

/-- The same block in two runs: equal up to `known`, and beyond it what either allocator left at
that index. -/
structure Shadow (c : Platform) (fresh : ℕ → ℕ → UInt8) (known : ℕ) (xs ys : List UInt8) :
    Prop where
  length : xs.length = ys.length
  known_le : known ≤ xs.length
  below : ∀ i, i < known → xs[i]? = ys[i]?
  beyond : ∀ i, known ≤ i → i < xs.length →
    ∃ n, xs[i]? = some (c.fresh n i) ∧ ys[i]? = some (fresh n i)

variable {c : Platform} {fresh : ℕ → ℕ → UInt8} {known : ℕ} {xs ys : List UInt8}

theorem Shadow.take_eq (h : Shadow c fresh known xs ys) {m : ℕ} (hm : min m xs.length ≤ known) :
    xs.take m = ys.take m := by
  apply List.ext_getElem?
  intro i
  rw [List.getElem?_take, List.getElem?_take]
  split_ifs with hi
  · rcases Nat.lt_or_ge i known with hlt | hge
    · exact h.below i hlt
    · have hlen := h.length
      rw [List.getElem?_eq_none (by omega), List.getElem?_eq_none (by omega)]
  · rfl

theorem Shadow.le_known (h : Shadow c fresh known xs ys) (hne : ∀ n i, fresh n i ≠ c.fresh n i)
    {m : ℕ} (heq : xs.take m = ys.take m) : min m xs.length ≤ known := by
  by_contra hlt
  obtain ⟨n, hx, hy⟩ := h.beyond known le_rfl (by omega)
  have hget : (xs.take m)[known]? = (ys.take m)[known]? := by rw [heq]
  rw [List.getElem?_take_of_lt (by omega), List.getElem?_take_of_lt (by omega), hx, hy,
    Option.some.injEq] at hget
  exact hne n known hget.symm

theorem Shadow.reallocated (h : Shadow c fresh known xs ys) (call : ℕ) {size : ℕ}
    (hsize : xs.length ≤ size) :
    Shadow c fresh known (Process.reallocated c call xs size)
      (Process.reallocated (c.withFresh fresh) call ys size) := by
  have hlen := h.length
  have hknown := h.known_le
  have hx := Process.reallocated_getElem? c call hsize
  have hy := Process.reallocated_getElem? (c.withFresh fresh) call (hlen ▸ hsize)
  refine ⟨?_, ?_, fun i hi => ?_, fun i hi hlt => ?_⟩
  · rw [Process.length_reallocated, Process.length_reallocated]
  · rw [Process.length_reallocated]
    omega
  · rw [hx, hy, if_pos (by omega), if_pos (by omega), h.below i hi]
  · rw [Process.length_reallocated] at hlt
    rw [hx, hy]
    by_cases hold : i < xs.length
    · rw [if_pos hold, if_pos (by omega)]
      exact h.beyond i hi hold
    · rw [if_neg hold, if_pos hlt, if_neg (by omega), if_pos hlt]
      exact ⟨call, rfl, rfl⟩

theorem copyIn_getElem? (p : Process) (dst src : List UInt8) (i : ℕ) :
    (p.copyIn dst src).1[i]? = if i < min src.length dst.length then src[i]? else dst[i]? := by
  unfold Process.copyIn
  split_ifs with hle hi hi
  · exact List.getElem?_append_left (by omega)
  · rw [List.getElem?_append_right (by omega), List.getElem?_drop]
    congr 1
    omega
  · exact List.getElem?_take_of_lt (by omega)
  · rw [List.getElem?_take, if_neg (by omega), List.getElem?_eq_none (by omega)]

theorem Shadow.copyIn (h : Shadow c fresh known xs ys) (p q : Process) (src : List UInt8) :
    Shadow c fresh (max known (min src.length xs.length)) (p.copyIn xs src).1
      (q.copyIn ys src).1 := by
  have hlen := h.length
  have hknown := h.known_le
  refine ⟨?_, ?_, fun i hi => ?_, fun i hi hlt => ?_⟩
  · rw [length_copyIn, length_copyIn, hlen]
  · rw [length_copyIn]
    omega
  · rw [copyIn_getElem?, copyIn_getElem?, ← hlen]
    split_ifs with hsrc
    · rfl
    · exact h.below i (by omega)
  · rw [length_copyIn] at hlt
    rw [copyIn_getElem?, copyIn_getElem?, ← hlen, if_neg (by omega), if_neg (by omega)]
    exact h.beyond i (by omega) hlt

structure SameSizes (s u : Session) : Prop where
  calls : s.process.calls = u.process.calls
  position : s.handle.position = u.handle.position
  apparentSize : s.handle.apparentSize = u.handle.apparentSize

/-- The two runs' states: the same but for the bytes beyond `known`. -/
inductive Twins (c : Platform) (fresh : ℕ → ℕ → UInt8) (known : ℕ) (s u : Session) : Prop
  | backed {b b' : AudiofsBuffer} {xs ys : List UInt8} : Memory s b xs → Memory u b' ys →
      Shadow c fresh known xs ys → SameSizes s u → Twins c fresh known s u
  | unbacked : Unbacked s → u = s → Twins c fresh known s u

theorem Shadow.len_eq {b b' : AudiofsBuffer} (h : Shadow c fresh known xs ys) (hb : b.Holds xs)
    (hb' : b'.Holds ys) : b'.len = b.len := by
  rw [← UInt64.toNat_inj, ← hb.length, ← hb'.length, h.length]

theorem resizeLoop_twins (size : UInt64) (rounds : ℕ) {p q : Process} {b b' : AudiofsBuffer}
    (hb : b.Holds xs) (hb' : b'.Holds ys) (hreach : b.len.toNat < reach)
    (hcalls : p.calls = q.calls) (h : Shadow c fresh known xs ys) :
    ∃ xs' ys', (resizeLoop c size rounds p b).2.1.Holds xs' ∧
      (resizeLoop (c.withFresh fresh) size rounds q b').2.1.Holds ys' ∧
      Shadow c fresh known xs' ys' ∧ (resizeLoop c size rounds p b).2.1.len.toNat < reach ∧
      (resizeLoop (c.withFresh fresh) size rounds q b').1 = (resizeLoop c size rounds p b).1 ∧
      (resizeLoop c size rounds p b).2.2.calls =
        (resizeLoop (c.withFresh fresh) size rounds q b').2.2.calls := by
  induction rounds generalizing p q b b' xs ys with
  | zero => exact ⟨xs, ys, hb, hb', h, hreach, rfl, hcalls⟩
  | succ rounds ih =>
    have hlen := h.len_eq hb hb'
    have hgrants : (c.withFresh fresh).grants = c.grants := rfl
    rw [resizeLoop_succ c size rounds p hb, resizeLoop_succ _ size rounds q hb', hlen, hgrants,
      ← hcalls]
    by_cases hlt : b.len < size
    · by_cases hbig : INT64_MAX < size
      · simp only [if_pos hlt, if_pos hbig]
        exact ⟨xs, ys, hb, hb', h, hreach, trivial, hcalls⟩
      · obtain ⟨hstep, hstep_reach⟩ := growthStep_of_asked hlt hbig
        have hle : xs.length ≤ (growthStep b.len).toNat := by
          rw [hb.length]
          exact (UInt64.lt_iff_toNat_lt.mp hstep).le
        simp only [if_pos hlt, if_neg hbig]
        cases hg : c.grants p.calls (growthStep b.len) with
        | false =>
          refine ⟨xs, ys, hb.unchanged, hb'.unchanged, h, hreach, rfl, ?_⟩
          simp [Process.refuse, hcalls]
        | true =>
          refine ih (hb.resized c p.calls (growthStep b.len))
            (hb'.resized (c.withFresh fresh) p.calls (growthStep b.len)) hstep_reach ?_
            (h.reallocated p.calls hle)
          simp [Process.grant, hcalls]
    · simp only [if_neg hlt]
      exact ⟨xs, ys, hb, hb', h, hreach, trivial, hcalls⟩

theorem resizeTo_twins {s u : Session} {b b' : AudiofsBuffer} (m : Memory s b xs)
    (m' : Memory u b' ys) (h : Shadow c fresh known xs ys) (hs : SameSizes s u) (size : UInt64) :
    ∃ a a' xs' ys', Memory (audiofsAvioResizeTo c s size).2 a xs' ∧
      Memory (audiofsAvioResizeTo (c.withFresh fresh) u size).2 a' ys' ∧
      Shadow c fresh known xs' ys' ∧
      SameSizes (audiofsAvioResizeTo c s size).2 (audiofsAvioResizeTo (c.withFresh fresh) u size).2 ∧
      (audiofsAvioResizeTo (c.withFresh fresh) u size).1 = (audiofsAvioResizeTo c s size).1 := by
  have hlen := h.len_eq m.holds m'.holds
  obtain ⟨xs', ys', hx, hy, hshadow, hreach, hret, hcalls⟩ :=
    resizeLoop_twins size (size.toNat - b.len.toNat) m.holds m'.holds m.len_lt hs.calls h
  simp only [audiofsAvioResizeTo, m.buffer, m'.buffer, hlen]
  refine ⟨_, _, xs', ys', ⟨m.inMemory, rfl, hx, hreach⟩, ⟨m'.inMemory, rfl, hy, ?_⟩, hshadow,
    ⟨hcalls, hs.position, hs.apparentSize⟩, hret⟩
  rw [hshadow.len_eq hx hy]
  exact hreach

theorem copyOut_calls (p : Process) (src : List UInt8) (count : ℕ) :
    (p.copyOut src count).2.calls = p.calls := by
  unfold Process.copyOut
  split_ifs <;> rfl

theorem copyIn_calls (p : Process) (dst src : List UInt8) :
    (p.copyIn dst src).2.calls = p.calls := by
  unfold Process.copyIn
  split_ifs <;> rfl

theorem store_calls {s : Session} {b : AudiofsBuffer} (m : Memory s b xs) (bytes : List UInt8) :
    (s.store bytes).process.calls = s.process.calls := by
  obtain ⟨addr, hdata⟩ := m.holds.data
  simp only [Session.store, m.buffer, hdata]
  exact copyIn_calls _ _ _

theorem SameSizes.readCount {s u : Session} (h : SameSizes s u) (n : UInt64) :
    u.handle.readCount n = s.handle.readCount n ∧ u.handle.endPosition n = s.handle.endPosition n := by
  simp [AudiofsAvioHandle.readCount, AudiofsAvioHandle.endPosition, h.position, h.apparentSize]

theorem seekTo_twins {s u : Session} {b b' : AudiofsBuffer} (m : Memory s b xs)
    (m' : Memory u b' ys) (h : Shadow c fresh known xs ys) (hs : SameSizes s u) (target : Int64) :
    Twins c fresh known (seekTo c s target).2 (seekTo (c.withFresh fresh) u target).2 ∧
      (seekTo (c.withFresh fresh) u target).1 = (seekTo c s target).1 := by
  obtain ⟨a, a', xs', ys', ma, ma', hshadow, hsizes, hret⟩ :=
    resizeTo_twins m m' h hs target.toUInt64
  simp only [seekTo, ← hs.apparentSize, hret]
  split_ifs with hin hfail
  · exact ⟨.backed ma ma' hshadow hsizes, rfl⟩
  · exact ⟨.backed (ma.update _ _ _) (ma'.update _ _ _) hshadow
      ⟨hsizes.calls, rfl, hsizes.apparentSize⟩, rfl⟩
  · exact ⟨.backed (m.update _ _ _) (m'.update _ _ _) h ⟨hs.calls, rfl, rfl⟩, rfl⟩

theorem seek_twins {s u : Session} {b b' : AudiofsBuffer} (m : Memory s b xs)
    (m' : Memory u b' ys) (h : Shadow c fresh known xs ys) (hs : SameSizes s u) (offset : Int64)
    (whence : Int32) :
    Twins c fresh known (audiofsAvioSeek c s offset whence).2
        (audiofsAvioSeek (c.withFresh fresh) u offset whence).2 ∧
      (audiofsAvioSeek (c.withFresh fresh) u offset whence).1 =
        (audiofsAvioSeek c s offset whence).1 := by
  have hstay : Twins c fresh known s u := .backed m m' h hs
  simp only [audiofsAvioSeek, m.inMemory, m'.inMemory, if_true, ← hs.position, ← hs.apparentSize]
  split_ifs
  · exact ⟨hstay, rfl⟩
  · exact seekTo_twins m m' h hs _
  · exact seekTo_twins m m' h hs _
  · exact ⟨hstay, rfl⟩
  · exact seekTo_twins m m' h hs _
  · exact ⟨hstay, rfl⟩

theorem grown_of_negative {s : Session} {buf : Chunk} (h : buf.bufSize < 0) :
    noteKnown c known (transition (step c) s (.write buf)) = known := by
  have hnil : buf.bytes = [] := by
    apply Chunk.bytes_eq_nil
    rwa [Int32.lt_iff_toInt_lt] at h
  simp only [noteKnown, transition, hnil, List.length_nil, Nat.zero_min, Nat.max_zero]
  split <;> rfl

theorem write_twins {s u : Session} {b b' : AudiofsBuffer} (m : Memory s b xs)
    (m' : Memory u b' ys) (h : Shadow c fresh known xs ys) (hs : SameSizes s u) (buf : Chunk) :
    Twins c fresh (noteKnown c known (transition (step c) s (.write buf)))
        (audiofsAvioWrite c s buf).2 (audiofsAvioWrite (c.withFresh fresh) u buf).2 ∧
      (audiofsAvioWrite (c.withFresh fresh) u buf).1 = (audiofsAvioWrite c s buf).1 := by
  simp only [audiofsAvioWrite, or_iff_left (not_INT32_MAX_lt _), m.inMemory, m'.inMemory, if_true,
    ← hs.position]
  by_cases hneg : buf.bufSize < 0
  · rw [if_pos hneg, if_pos hneg, grown_of_negative hneg]
    exact ⟨.backed m m' h hs, rfl⟩
  · simp only [if_neg hneg]
    obtain ⟨a, a', xs', ys', ma, ma', hshadow, hsizes, hret⟩ :=
      resizeTo_twins m m' h hs (s.handle.position + toU64 buf.bufSize)
    have hgrown := resizeTo_grown c m (s.handle.position + toU64 buf.bufSize)
    simp only [hret, noteKnown, transition, ← hgrown]
    by_cases hfail : (audiofsAvioResizeTo c s (s.handle.position + toU64 buf.bufSize)).1 = 0
    · obtain ⟨⟨d, hd⟩, -, -, hposition, hsize⟩ := store_spec ma buf.bytes
      obtain ⟨⟨d', hd'⟩, -, -, hposition', hsize'⟩ := store_spec ma' buf.bytes
      simp only [hfail, ne_eq, not_true_eq_false, if_false, if_true]
      rw [ma.len_eq, ← ma.length]
      refine ⟨.backed (hd.update _ _ _) (hd'.update _ _ _) (hshadow.copyIn _ _ _) ⟨?_, ?_, ?_⟩,
        trivial⟩
      · rw [store_calls ma, store_calls ma', hsizes.calls]
      · simp only [hposition, hposition', hsizes.position]
      · simp only [hsize, hsize', hsizes.apparentSize]
    · simp only [hfail, ne_eq, not_false_eq_true, if_true, if_false]
      exact ⟨.backed ma ma' hshadow hsizes, trivial⟩

theorem unbacked_step_congr {s : Session} (h : Unbacked s) (op : Op) :
    step (c.withFresh fresh) s op = step c s op := by
  cases op <;>
    simp [step, audiofsAvioRead, audiofsAvioWrite, audiofsAvioSeek, seekTo, audiofsAvioResizeTo,
      h.inMemory, h.buffer]

theorem step_twins {s u : Session} (h : Twins c fresh known s u) (op : Op) :
    Twins c fresh (noteKnown c known (transition (step c) s op)) (step c s op).2
        (step (c.withFresh fresh) u op).2 ∧
      (step (c.withFresh fresh) u op).1.ret = (step c s op).1.ret := by
  cases h with
  | unbacked hun heq =>
    rw [heq, unbacked_step_congr hun]
    exact ⟨.unbacked (step_unbacked c hun op).1 rfl, rfl⟩
  | backed m m' h hs =>
    cases op with
    | read n =>
      simp only [step]
      by_cases hn : 0 ≤ n.toInt
      · obtain ⟨hcount, hend⟩ := hs.readCount (toU64 n)
        rw [avioRead_spec c m hn, avioRead_spec (c.withFresh fresh) m' hn, hcount, hend]
        refine ⟨.backed (m.update _ _ _) (m'.update _ _ _) h ⟨?_, rfl, hs.apparentSize⟩, rfl⟩
        rw [copyOut_calls, copyOut_calls, hs.calls]
      · simp only [audiofsAvioRead, rejects_iff, not_le.mp hn, if_true]
        exact ⟨.backed m m' h hs, trivial⟩
    | write buf =>
      obtain ⟨htwins, hret⟩ := write_twins m m' h hs buf
      exact ⟨htwins, congrArg Int32.toInt hret⟩
    | seek offset whence =>
      obtain ⟨htwins, hret⟩ := seek_twins m m' h hs offset whence
      exact ⟨htwins, congrArg Int64.toInt hret⟩

theorem Twins.counted_eq {s u : Session} (h : Twins c fresh known s u)
    (hle : min s.handle.apparentSize.toInt64.toInt.toNat s.handle.len.toNat ≤ known) :
    s.counted = u.counted := by
  cases h with
  | unbacked _ heq => rw [heq]
  | backed m m' h hs =>
    rw [m.len_eq, ← m.length] at hle
    rw [Session.counted, Session.counted, m.data_eq, m'.data_eq, ← hs.apparentSize]
    exact h.take_eq hle

theorem Twins.counted_le {s u : Session} (h : Twins c fresh known s u)
    (hne : ∀ n i, fresh n i ≠ c.fresh n i) (heq : s.counted = u.counted) :
    min s.handle.apparentSize.toInt64.toInt.toNat s.handle.len.toNat ≤ known := by
  cases h with
  | unbacked hun _ => simp [AudiofsAvioHandle.len, hun.buffer]
  | backed m m' h hs =>
    rw [Session.counted, Session.counted, m.data_eq, m'.data_eq, ← hs.apparentSize] at heq
    rw [m.len_eq, ← m.length]
    exact h.le_known hne heq

theorem Twins.sizes {s u : Session} (h : Twins c fresh known s u) (op : Op) :
    (step c s op).2.handle.len = s.lenAfter c op ∧
      (step c s op).2.handle.apparentSize = s.sizeAfter c op := by
  cases h with
  | unbacked hun _ =>
    obtain ⟨hlen, hsize⟩ := unbacked_sizes c hun op
    have hun' := (step_unbacked c hun op).1
    rw [hlen, hsize]
    exact ⟨by simp [AudiofsAvioHandle.len, hun'.buffer], hun'.apparentSize⟩
  | backed m m' h hs => exact ⟨step_len c m op, step_apparentSize c m op⟩

theorem shown_read {s : Session} {b : AudiofsBuffer} (m : Memory s b xs) (n : Int32) :
    shown (transition (step c) s (.read n)) =
      if 0 ≤ n.toInt ∧ s.handle.readCount (toU64 n) ≤ s.handle.len then
        some (xs.take (s.handle.readCount (toU64 n)).toNat)
      else none := by
  change (if 0 ≤ n.toInt ∧ s.handle.readCount (toU64 n) ≤ s.handle.len then
    some (step c s (.read n)).1.bytes else none) = _
  split_ifs with hin
  · simp only [step, avioRead_spec c m hin.1]
  · rfl

theorem shown_twins {s u : Session} {b b' : AudiofsBuffer} (m : Memory s b xs)
    (m' : Memory u b' ys) (h : Shadow c fresh known xs ys) (hs : SameSizes s u) (n : Int32) :
    shown (transition (step (c.withFresh fresh)) u (.read n)) =
      if 0 ≤ n.toInt ∧ s.handle.readCount (toU64 n) ≤ s.handle.len then
        some (ys.take (s.handle.readCount (toU64 n)).toNat)
      else none := by
  obtain ⟨hcount, -⟩ := hs.readCount (toU64 n)
  rw [shown_read m', hcount, m'.len_eq, m.len_eq, h.len_eq m.holds m'.holds]

theorem shown_eq_of_known {s u : Session} (h : Twins c fresh known s u) (op : Op)
    (hread : ReadKnown known (transition (step c) s op)) :
    shown (transition (step c) s op) = shown (transition (step (c.withFresh fresh)) u op) := by
  cases op with
  | write buf => rfl
  | seek offset whence => rfl
  | read n =>
    cases h with
    | unbacked hun heq => rw [heq, transition, transition, unbacked_step_congr hun]
    | backed m m' h hs =>
      rw [shown_read m, shown_twins m m' h hs]
      split_ifs with hin
      · exact congrArg some (h.take_eq ((min_le_left _ _).trans (hread hin.1 hin.2)))
      · rfl

theorem known_of_shown_eq {s u : Session} (hne : ∀ n i, fresh n i ≠ c.fresh n i)
    (h : Twins c fresh known s u) (op : Op)
    (hshown : shown (transition (step c) s op) =
      shown (transition (step (c.withFresh fresh)) u op)) :
    ReadKnown known (transition (step c) s op) := by
  cases op with
  | write buf => trivial
  | seek offset whence => trivial
  | read n =>
    intro hn hfits
    simp only [transition] at hfits ⊢
    cases h with
    | unbacked hun _ =>
      have hzero : s.handle.len = 0 := by simp [AudiofsAvioHandle.len, hun.buffer]
      rw [hzero, UInt64.le_iff_toNat_le, UInt64.toNat_zero] at hfits
      omega
    | backed m m' h hs =>
      rw [shown_read m, shown_twins m m' h hs, if_pos ⟨hn, hfits⟩, if_pos ⟨hn, hfits⟩] at hshown
      have hknown := h.le_known hne (Option.some.inj hshown)
      rw [UInt64.le_iff_toNat_le, m.len_eq, ← m.length] at hfits
      omega

theorem view_eq_of_covered {s u : Session} (h : Twins c fresh known s u) (op : Op)
    (hc : Covered c known (transition (step c) s op)) :
    view (transition (step c) s op) = view (transition (step (c.withFresh fresh)) u op) := by
  obtain ⟨hread, hsizes⟩ := hc
  obtain ⟨htwins, hret⟩ := step_twins h op
  obtain ⟨hlen, hsize⟩ := h.sizes op
  have hcounted : (step c s op).2.counted = (step (c.withFresh fresh) u op).2.counted := by
    apply htwins.counted_eq
    rw [hlen, hsize]
    exact hsizes
  rw [view, view, shown_eq_of_known h op hread]
  simp only [transition, hret, hcounted]

/-- Where the allocator's bytes differ at every index, only covered calls show the same. -/
theorem covered_of_view_eq {s u : Session} (hne : ∀ n i, fresh n i ≠ c.fresh n i)
    (h : Twins c fresh known s u) (op : Op)
    (hv : view (transition (step c) s op) = view (transition (step (c.withFresh fresh)) u op)) :
    Covered c known (transition (step c) s op) := by
  obtain ⟨htwins, -⟩ := step_twins h op
  obtain ⟨hlen, hsize⟩ := h.sizes op
  simp only [view, View.mk.injEq] at hv
  obtain ⟨-, hshown, hcounted⟩ := hv
  have hle := htwins.counted_le hne hcounted
  rw [hlen, hsize] at hle
  exact ⟨known_of_shown_eq hne h op hshown, hle⟩

theorem opened_twins {s : Session} (h : Opened c s) (fresh : ℕ → ℕ → UInt8) :
    Twins c fresh 1024 s s := by
  obtain ⟨p, hopen⟩ := h
  obtain ⟨-, -, ⟨b, m⟩ | ⟨hun, -⟩⟩ := opened_cases hopen
  · refine .backed m m ⟨rfl, ?_, fun _ _ => rfl, fun i hi hlt => ?_⟩ ⟨rfl, rfl, rfl⟩
    · rw [List.length_replicate]
    · rw [List.length_replicate] at hlt
      omega
  · exact .unbacked hun rfl

theorem twins_preserved (g : ℕ) (s u : Session) (op : Op) (h : Twins c fresh g s u) :
    Twins c fresh (noteKnown c g (transition (step c) s op)) (step c s op).2
      (step (c.withFresh fresh) u op).2 :=
  (step_twins h op).1

theorem covered_of_shows_no_stale {s : Session} (h : Opened c s) {ops : List Op}
    (hshow : ShowsNoStale c s ops) :
    Along (noteKnown c) (Covered c) 1024 (trace (step c) s ops) := by
  have hne (n i : ℕ) : c.fresh n i + 1 ≠ c.fresh n i := by simp
  exact along_of_views_eq twins_preserved (fun g s u op hr hv => covered_of_view_eq hne hr op hv)
    (opened_twins h _) ops (hshow c.fresh fun n i => c.fresh n i + 1)

/-- The allocator's bytes stay invisible in a run from a fresh handle exactly when every
in-bounds read takes known bytes only and the size counter never covers others: the leading
1024 bytes, or as many as the longest write that was stored since. -/
theorem shows_no_stale_iff (c : Platform) {s : Session} (h : Opened c s) (ops : List Op) :
    ShowsNoStale c s ops ↔ Along (noteKnown c) (Covered c) 1024 (trace (step c) s ops) := by
  refine ⟨covered_of_shows_no_stale h, fun hcovered fresh fresh' => ?_⟩
  have hview (fresh : ℕ → ℕ → UInt8) : (trace (step c) s ops).map view =
      (trace (step (c.withFresh fresh)) s ops).map view :=
    views_eq_of_along twins_preserved (fun g s u op hr hc => view_eq_of_covered hr op hc)
      (opened_twins h fresh) ops hcovered
  rw [← hview fresh, ← hview fresh']

theorem appendingRun_shows_no_stale :
    Opened Platform.generous Session.first ∧
      ShowsNoStale Platform.generous Session.first appendingRun :=
  ⟨first_opened.opened,
    (shows_no_stale_iff Platform.generous first_opened.opened appendingRun).mpr (by decide)⟩

def Chunk.thousand : Chunk := ⟨1000, List.replicate 1000 65, List.length_replicate⟩

/-- Two writes of 1000 bytes grow the buffer past its first 1024 bytes, and the second one is
counted behind them but stored in front of them. -/
theorem second_write_shows_stale :
    ¬ ∀ (c : Platform) (s : Session), Opened c s → ∀ ops : List Op, ShowsNoStale c s ops := by
  intro h
  have hcovered := covered_of_shows_no_stale first_opened.opened
    (h _ _ first_opened.opened [.write .thousand, .write .thousand])
  exact absurd hcovered (by decide +kernel)

end CustomAvio
end AudioFS
