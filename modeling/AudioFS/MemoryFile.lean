import AudioFS.CustomAvio

/-!
# Memory-backed handles

The representation invariant of a memory handle, and one specification for each
callback saying everything the call can do to such a handle. The invariant puts
no bound on the position or the size counter: neither is kept below the buffer's
length by the code.
-/

namespace AudioFS.CustomAvio
open AudioFS.CInteger AudioFS.Buffer

/-- No growth step starts at or above `INT64_MAX`, so no buffer gets longer than this. -/
def reach : ℕ := 2 ^ 63 + 2 ^ 24

theorem EINVAL_neg : (-EINVAL).toInt < 0 := by decide

theorem ENOMEM_neg : (-ENOMEM).toInt < 0 := by decide

structure Memory (s : Session) (b : AudiofsBuffer) (bytes : List UInt8) : Prop where
  inMemory : s.handle.inMemory = true
  buffer : s.handle.buffer = some b
  holds : b.Holds bytes
  len_lt : b.len.toNat < reach

def WellFormed (s : Session) : Prop := ∃ b bytes, Memory s b bytes

theorem Memory.length {s : Session} {b : AudiofsBuffer} {bytes : List UInt8}
    (m : Memory s b bytes) : bytes.length = b.len.toNat := m.holds.length

theorem Memory.data_eq {s : Session} {b : AudiofsBuffer} {bytes : List UInt8}
    (m : Memory s b bytes) : s.handle.data = bytes := by
  obtain ⟨addr, hdata⟩ := m.holds.data
  simp [AudiofsAvioHandle.data, m.buffer, hdata, Process.oldBytes]

theorem Memory.len_eq {s : Session} {b : AudiofsBuffer} {bytes : List UInt8}
    (m : Memory s b bytes) : s.handle.len = b.len := by
  simp [AudiofsAvioHandle.len, m.buffer]

theorem Memory.deref_eq {s : Session} {b : AudiofsBuffer} {bytes : List UInt8}
    (m : Memory s b bytes) : s.deref = s.process := by
  simp [Session.deref, m.buffer]

theorem Memory.update {s : Session} {b : AudiofsBuffer} {bytes : List UInt8}
    (m : Memory s b bytes) (p : Process) (position apparentSize : UInt64) :
    Memory ⟨p, { s.handle with position := position, apparentSize := apparentSize }⟩ b bytes :=
  ⟨m.inMemory, m.buffer, m.holds, m.len_lt⟩

/-- The handle left by an open whose buffer allocation failed unnoticed. -/
structure Unbacked (s : Session) : Prop where
  inMemory : s.handle.inMemory = true
  buffer : s.handle.buffer = none
  position : s.handle.position = 0
  apparentSize : s.handle.apparentSize = 0

theorem audiofsBufferAlloc_none {c : Platform} {p : Process} {size : UInt64}
    (h : (audiofsBufferAlloc c p size).1 = none) :
    p.refused < (audiofsBufferAlloc c p size).2.refused := by
  cases hg₁ : c.grants p.calls sizeofBuffer with
  | false => simp [audiofsBufferAlloc, Process.calloc, hg₁]
  | true =>
    by_cases hsize : size = 0
    · simp [audiofsBufferAlloc, Process.calloc, hg₁, hsize] at h
    · cases hg₂ : c.grants p.grant.calls size with
      | false => simp [audiofsBufferAlloc, Process.calloc, hg₁, hg₂, hsize]
      | true => simp [audiofsBufferAlloc, Process.calloc, hg₁, hg₂, hsize] at h

theorem opened_cases {c : Platform} {s : Session} {p : Process}
    (h : audiofsAvioOpen c p memoryName = (some s.handle, s.process)) :
    s.handle.position = 0 ∧ s.handle.apparentSize = 0 ∧
      ((∃ b, Memory s b (List.replicate 1024 0)) ∨
        (Unbacked s ∧ p.refused < s.process.refused)) := by
  cases hg : c.grants p.calls sizeofHandle with
  | false => simp [audiofsAvioOpen, Process.calloc, hg] at h
  | true =>
    have hname : namesMemory memoryName = true := by decide
    simp only [audiofsAvioOpen, Process.calloc, hg, ↓reduceIte, hname, Prod.mk.injEq,
      Option.some.injEq] at h
    obtain ⟨hhandle, hprocess⟩ := h
    have hmem : s.handle.inMemory = true := by rw [← hhandle]
    have hbuffer : s.handle.buffer = (audiofsBufferAlloc c p.grant 1024).1 := by rw [← hhandle]
    have hposition : s.handle.position = 0 := by rw [← hhandle]
    have hsize : s.handle.apparentSize = 0 := by rw [← hhandle]
    refine ⟨hposition, hsize, ?_⟩
    cases hb : (audiofsBufferAlloc c p.grant 1024).1 with
    | none =>
      right
      refine ⟨⟨hmem, by rw [hbuffer, hb], hposition, hsize⟩, ?_⟩
      rw [← hprocess]
      exact audiofsBufferAlloc_none (p := p.grant) hb
    | some b =>
      left
      obtain ⟨hholds, hlen⟩ := audiofsBufferAlloc_some (by decide) (Prod.ext hb rfl)
      refine ⟨b, hmem, by rw [hbuffer, hb], hholds, ?_⟩
      rw [hlen]
      decide

theorem openedGranted_memory {c : Platform} {s : Session} (h : OpenedGranted c s) :
    (∃ b, Memory s b (List.replicate 1024 0)) ∧ s.handle.position = 0 ∧
      s.handle.apparentSize = 0 := by
  obtain ⟨p, hopen, hgranted⟩ := h
  obtain ⟨hposition, hsize, hcase⟩ := opened_cases hopen
  rcases hcase with hmem | ⟨-, hrefused⟩
  · exact ⟨hmem, hposition, hsize⟩
  · omega

theorem growthStep_toNat {len : UInt64} (h : len.toNat < 2 ^ 63) :
    (growthStep len).toNat =
      if len.toNat < 2 ^ 16 then 2 ^ 16
      else if len.toNat < 2 ^ 20 then 2 ^ 20
      else if len.toNat < 2 ^ 24 then 2 ^ 24
      else len.toNat + 2 ^ 24 := by
  have h64 : (1024 * 64 : UInt64).toNat = 2 ^ 16 := rfl
  have h1 : (1024 * 1024 : UInt64).toNat = 2 ^ 20 := rfl
  have h16 : (16 * 1024 * 1024 : UInt64).toNat = 2 ^ 24 := rfl
  have hadd : (len + 16 * 1024 * 1024).toNat = len.toNat + 2 ^ 24 := by
    rw [toNat_add_of_lt (by rw [h16]; omega), h16]
  simp only [growthStep, UInt64.lt_iff_toNat_lt, UInt64.le_iff_toNat_le, h64, h1, h16]
  split_ifs <;> omega

theorem growthStep_bounds {len : UInt64} (h : len.toNat < 2 ^ 63 - 1) :
    len < growthStep len ∧ (growthStep len).toNat < reach := by
  rw [UInt64.lt_iff_toNat_lt, growthStep_toNat (by omega), reach]
  split_ifs <;> omega

theorem growthStep_of_asked {size len : UInt64} (hlt : len < size) (hbig : ¬ INT64_MAX < size) :
    len < growthStep len ∧ (growthStep len).toNat < reach := by
  rw [UInt64.lt_iff_toNat_lt] at hlt hbig
  rw [INT64_MAX_toNat] at hbig
  exact growthStep_bounds (by omega)

/-- One round of the growth loop. -/
theorem resizeLoop_succ (c : Platform) (size : UInt64) (rounds : ℕ) (p : Process)
    {b : AudiofsBuffer} {bytes : List UInt8} (hb : b.Holds bytes) :
    resizeLoop c size (rounds + 1) p b =
      if b.len < size then
        if INT64_MAX < size then (-1, b, p)
        else if c.grants p.calls (growthStep b.len) = true then
          resizeLoop c size rounds (p.free b.data).grant (b.resized (growthStep b.len)
            ⟨p.calls, Process.reallocated c p.calls bytes (growthStep b.len).toNat⟩)
        else (-1, b.unchanged, p.refuse)
      else (0, b, p) := by
  have hmax : b.len < max size b.len ↔ b.len < size := by
    rw [UInt64.lt_iff_toNat_lt, UInt64.lt_iff_toNat_lt, UInt64.toNat_max]
    omega
  by_cases hlt : b.len < size
  · by_cases hbig : INT64_MAX < size
    · simp [resizeLoop, hmax, hlt, hbig]
    · have hstep := (growthStep_of_asked hlt hbig).1
      have hpos : ¬ growthStep b.len ≤ 0 := by
        rw [UInt64.lt_iff_toNat_lt] at hstep
        rw [UInt64.le_iff_toNat_le, UInt64.toNat_zero]
        omega
      simp only [resizeLoop, hmax, if_pos hlt, if_neg hbig, if_neg hpos,
        audiofsBufferRealloc_grow c p hb hstep]
      cases c.grants p.calls (growthStep b.len) <;> rfl
  · simp [resizeLoop, hmax, hlt]

/-- What a run of the growth loop leaves: a buffer that keeps the old contents as a prefix, and
either the requested length or a reason for giving up. -/
structure Growth (c : Platform) (size : UInt64) (p : Process) (bytes : List UInt8)
    (r : Int64 × AudiofsBuffer × Process) (new : List UInt8) : Prop where
  holds : r.2.1.Holds new
  kept : bytes <+: new
  fresh : Process.FreshBeyond c bytes new
  len_lt : r.2.1.len.toNat < reach
  granted : c.Generous → r.2.2.refused = p.refused
  outcome : (r.1 = 0 ∧ size.toNat ≤ new.length ∧ r.2.2.refused = p.refused ∧
      (INT64_MAX < size → size.toNat ≤ bytes.length)) ∨
    (r.1 = -1 ∧ new.length < size.toNat ∧ (INT64_MAX < size ∨ p.refused < r.2.2.refused))

theorem growth_done (c : Platform) {size : UInt64} (p : Process) {b : AudiofsBuffer}
    {bytes : List UInt8} (hb : b.Holds bytes) (hlen : b.len.toNat < reach)
    (hle : size.toNat ≤ b.len.toNat) : Growth c size p bytes (0, b, p) bytes := by
  rw [← hb.length] at hle
  exact ⟨hb, List.prefix_refl _, Process.freshBeyond_refl c _, hlen, fun _ => rfl,
    .inl ⟨rfl, hle, rfl, fun _ => hle⟩⟩

theorem growth_tooLarge (c : Platform) {size : UInt64} (p : Process) {b : AudiofsBuffer}
    {bytes : List UInt8} (hb : b.Holds bytes) (hlen : b.len.toNat < reach)
    (hlt : b.len.toNat < size.toNat) (hbig : INT64_MAX < size) :
    Growth c size p bytes (-1, b, p) bytes := by
  rw [← hb.length] at hlt
  exact ⟨hb, List.prefix_refl _, Process.freshBeyond_refl c _, hlen, fun _ => rfl,
    .inr ⟨rfl, hlt, .inl hbig⟩⟩

/-- A round whose `realloc` is refused gives up with the old contents in place. -/
theorem growth_refused {c : Platform} {size n : UInt64} {p : Process} {b : AudiofsBuffer}
    {bytes : List UInt8} (hb : b.Holds bytes) (hlen : b.len.toNat < reach)
    (hlt : b.len.toNat < size.toNat) (hg : c.grants p.calls n = false) :
    Growth c size p bytes (-1, b.unchanged, p.refuse) bytes := by
  refine ⟨hb.unchanged, List.prefix_refl _, Process.freshBeyond_refl c _, hlen,
    fun hall => ?_, .inr ⟨rfl, ?_, .inr ?_⟩⟩
  · rw [hall] at hg
    exact absurd hg (by decide)
  · rw [hb.length]
    exact hlt
  · simp

/-- A granted round prolongs the contents, and the later rounds prolong them further. -/
theorem Growth.after_grow {c : Platform} {size n : UInt64} {p : Process} {b : AudiofsBuffer}
    {bytes new : List UInt8} {r : Int64 × AudiofsBuffer × Process} (hb : b.Holds bytes)
    (hstep : b.len < n) (hbig : ¬ INT64_MAX < size)
    (h : Growth c size (p.free b.data).grant (Process.reallocated c p.calls bytes n.toNat) r new) :
    Growth c size p bytes r new := by
  have hle : bytes.length ≤ n.toNat := by
    rw [hb.length]
    exact (UInt64.lt_iff_toNat_lt.mp hstep).le
  have hkept := Process.reallocated_prefix c p.calls hle
  have hfresh := Process.reallocated_fresh c p.calls hle
  refine ⟨h.holds, hkept.trans h.kept, hfresh.trans h.kept h.fresh, h.len_lt,
    fun hall => by simpa using h.granted hall, ?_⟩
  rcases h.outcome with ⟨hret, hle, href, -⟩ | hfail
  · exact .inl ⟨hret, hle, by simpa using href, fun h => absurd h hbig⟩
  · exact .inr (by simpa using hfail)

theorem resizeLoop_growth (c : Platform) (size : UInt64) (rounds : ℕ) {p : Process}
    {b : AudiofsBuffer} {bytes : List UInt8} (hb : b.Holds bytes) (hlen : b.len.toNat < reach)
    (hrounds : size.toNat - b.len.toNat ≤ rounds) :
    ∃ new, Growth c size p bytes (resizeLoop c size rounds p b) new := by
  induction rounds generalizing p b bytes with
  | zero => exact ⟨bytes, growth_done c p hb hlen (by omega)⟩
  | succ rounds ih =>
    rw [resizeLoop_succ c size rounds p hb]
    split_ifs with hlt hbig hgrants
    · exact ⟨bytes, growth_tooLarge c p hb hlen (UInt64.lt_iff_toNat_lt.mp hlt) hbig⟩
    · obtain ⟨hstep, hreach⟩ := growthStep_of_asked hlt hbig
      have hstep' := UInt64.lt_iff_toNat_lt.mp hstep
      have hresized := hb.resized c p.calls (growthStep b.len)
      have hrest : size.toNat - (growthStep b.len).toNat ≤ rounds := by omega
      obtain ⟨new, hgrow⟩ := ih (p := (p.free b.data).grant) hresized hreach hrest
      exact ⟨new, hgrow.after_grow hb hstep hbig⟩
    · exact ⟨bytes, growth_refused hb hlen (UInt64.lt_iff_toNat_lt.mp hlt) (by simpa using hgrants)⟩
    · exact ⟨bytes, growth_done c p hb hlen (not_lt.mp fun h => hlt (UInt64.lt_iff_toNat_lt.mpr h))⟩

structure Resized (c : Platform) (s s' : Session) (bytes new : List UInt8) : Prop where
  memory : ∃ b, Memory s' b new
  kept : bytes <+: new
  fresh : Process.FreshBeyond c bytes new
  position : s'.handle.position = s.handle.position
  apparentSize : s'.handle.apparentSize = s.handle.apparentSize
  granted : c.Generous → s'.process.refused = s.process.refused

theorem resizeTo_spec (c : Platform) {s : Session} {b : AudiofsBuffer} {bytes : List UInt8}
    (m : Memory s b bytes) (size : UInt64) :
    ∃ new, Resized c s (audiofsAvioResizeTo c s size).2 bytes new ∧
      (((audiofsAvioResizeTo c s size).1 = 0 ∧ size.toNat ≤ new.length ∧
          (audiofsAvioResizeTo c s size).2.process.refused = s.process.refused ∧
          (INT64_MAX < size → size.toNat ≤ bytes.length)) ∨
        ((audiofsAvioResizeTo c s size).1 = -1 ∧ new.length < size.toNat ∧
          (INT64_MAX < size ∨
            s.process.refused < (audiofsAvioResizeTo c s size).2.process.refused))) := by
  obtain ⟨new, hgrow⟩ := resizeLoop_growth c size (size.toNat - b.len.toNat) (p := s.process)
    m.holds m.len_lt le_rfl
  simp only [audiofsAvioResizeTo, m.buffer]
  exact ⟨new, ⟨⟨_, m.inMemory, rfl, hgrow.holds, hgrow.len_lt⟩, hgrow.kept, hgrow.fresh,
    rfl, rfl, hgrow.granted⟩, hgrow.outcome⟩

/-- The length growing a buffer of `len` bytes to `size` ends with, or nothing when it stops
early; allocator calls are numbered from `calls` on. -/
def grownLen (c : Platform) (size : UInt64) : ℕ → ℕ → UInt64 → Option UInt64
  | 0, _, len => some len
  | rounds + 1, calls, len =>
    if len < size then
      if INT64_MAX < size then none
      else if c.grants calls (growthStep len) then
        grownLen c size rounds (calls + 1) (growthStep len)
      else none
    else some len

def Session.grown (c : Platform) (s : Session) (size : UInt64) : Option UInt64 :=
  match s.handle.buffer with
  | none => none
  | some b => grownLen c size (size.toNat - b.len.toNat) s.process.calls b.len

theorem resizeLoop_grownLen (c : Platform) (size : UInt64) (rounds : ℕ) {p : Process}
    {b : AudiofsBuffer} {bytes : List UInt8} (hb : b.Holds bytes) :
    (if (resizeLoop c size rounds p b).1 = 0 then some (resizeLoop c size rounds p b).2.1.len
      else none) = grownLen c size rounds p.calls b.len := by
  induction rounds generalizing p b bytes with
  | zero => rfl
  | succ rounds ih =>
    rw [resizeLoop_succ c size rounds p hb, grownLen]
    by_cases hlt : b.len < size
    · by_cases hbig : INT64_MAX < size
      · simp [hlt, hbig]
      · simp only [if_pos hlt, if_neg hbig]
        cases hg : c.grants p.calls (growthStep b.len) with
        | false => simp
        | true =>
          simp only [if_true, ← p.free_grant_calls b.data]
          exact ih (hb.resized c p.calls (growthStep b.len))
    · simp [hlt]

theorem resizeTo_grown (c : Platform) {s : Session} {b : AudiofsBuffer} {bytes : List UInt8}
    (m : Memory s b bytes) (size : UInt64) :
    (if (audiofsAvioResizeTo c s size).1 = 0 then
      some (audiofsAvioResizeTo c s size).2.handle.len else none) = s.grown c size := by
  have hloop := resizeLoop_grownLen c size (size.toNat - b.len.toNat) (p := s.process) m.holds
  simpa only [audiofsAvioResizeTo, Session.grown, AudiofsAvioHandle.len, m.buffer] using hloop

theorem length_copyIn (p : Process) (dst src : List UInt8) :
    (p.copyIn dst src).1.length = dst.length := by
  unfold Process.copyIn
  split_ifs with h
  · simp only [List.length_append, List.length_drop]
    omega
  · simp only [List.length_take]
    omega

theorem Memory.len_copyIn {s : Session} {b : AudiofsBuffer} {p : Process} {dst src : List UInt8}
    (m : Memory s b (p.copyIn dst src).1) : s.handle.len.toNat = dst.length := by
  rw [m.len_eq, ← m.length, length_copyIn]

theorem copyIn_of_le (p : Process) {dst src : List UInt8} (h : src.length ≤ dst.length) :
    p.copyIn dst src = (src ++ dst.drop src.length, p) := by
  rw [Process.copyIn, if_pos h]

theorem copyIn_refused (p : Process) (dst src : List UInt8) :
    (p.copyIn dst src).2.refused = p.refused := by
  unfold Process.copyIn
  split_ifs <;> rfl

theorem store_spec {s : Session} {b : AudiofsBuffer} {new : List UInt8} (m : Memory s b new)
    (bytes : List UInt8) :
    (∃ b', Memory (s.store bytes) b' (s.process.copyIn new bytes).1) ∧
      (s.store bytes).process.refused = s.process.refused ∧
      (s.store bytes).handle.len = s.handle.len ∧
      (s.store bytes).handle.position = s.handle.position ∧
      (s.store bytes).handle.apparentSize = s.handle.apparentSize := by
  obtain ⟨addr, hdata⟩ := m.holds.data
  have hstore : s.store bytes = ⟨(s.process.copyIn new bytes).2, { s.handle with
      buffer := some { b with data := some ⟨addr, (s.process.copyIn new bytes).1⟩ } }⟩ := by
    simp only [Session.store, m.buffer, hdata]
  rw [hstore]
  refine ⟨⟨_, m.inMemory, rfl, ⟨m.holds.ok, ⟨addr, rfl⟩, ?_⟩, m.len_lt⟩,
    copyIn_refused _ _ _, m.len_eq.symm, rfl, rfl⟩
  rw [length_copyIn]
  exact m.length

/-- Everything `audiofs_avio_write` can do to a memory handle. -/
inductive Written (c : Platform) (s : Session) (bytes : List UInt8) (buf : Chunk) :
    Int32 × Session → Prop
  | negative : buf.bufSize.toInt < 0 → Written c s bytes buf (-1, s)
  | failed {s' : Session} {new : List UInt8} : 0 ≤ buf.bufSize.toInt → Resized c s s' bytes new →
      s.grown c (s.handle.position + toU64 buf.bufSize) = none →
      (INT64_MAX < s.handle.position + toU64 buf.bufSize ∨
        s.process.refused < s'.process.refused) →
      Written c s bytes buf (-1, s')
  | stored {p : Process} {s' : Session} {b : AudiofsBuffer} {new : List UInt8} :
      0 ≤ buf.bufSize.toInt → bytes <+: new → Process.FreshBeyond c bytes new →
      s.grown c (s.handle.position + toU64 buf.bufSize) = some s'.handle.len →
      (s.handle.position + toU64 buf.bufSize).toNat ≤ new.length →
      Memory s' b (p.copyIn new buf.bytes).1 →
      s'.handle.position = s.handle.position + toU64 buf.bufSize →
      s'.handle.apparentSize = s.handle.apparentSize + toU64 buf.bufSize →
      s'.process.refused = s.process.refused →
      Written c s bytes buf (int32 (toU64 buf.bufSize), s')

theorem not_INT32_MAX_lt (n : Int32) : ¬ INT32_MAX < n := by
  rw [Int32.lt_iff_toInt_lt]
  have h : INT32_MAX.toInt = 2 ^ 31 - 1 := rfl
  have hn := n.toInt_lt
  omega

theorem rejects_iff (n : Int32) : (n < 0 ∨ INT32_MAX < n) ↔ n.toInt < 0 := by
  rw [or_iff_left (not_INT32_MAX_lt n), Int32.lt_iff_toInt_lt]
  rfl

theorem avioWrite_spec (c : Platform) {s : Session} {b : AudiofsBuffer} {bytes : List UInt8}
    (m : Memory s b bytes) (buf : Chunk) : Written c s bytes buf (audiofsAvioWrite c s buf) := by
  by_cases hneg : buf.bufSize.toInt < 0
  · rw [audiofsAvioWrite, if_pos ((rejects_iff _).mpr hneg)]
    exact .negative hneg
  · obtain ⟨new, hres, hout⟩ := resizeTo_spec c m (s.handle.position + toU64 buf.bufSize)
    have hgrown := resizeTo_grown c m (s.handle.position + toU64 buf.bufSize)
    simp only [audiofsAvioWrite, rejects_iff, if_neg hneg, m.inMemory, if_true]
    rcases hout with ⟨hret, hlen, href, -⟩ | ⟨hret, -, hwhy⟩
    · rw [hret, if_pos rfl] at hgrown
      rw [hret, if_neg (by decide)]
      obtain ⟨b', hb'⟩ := hres.memory
      obtain ⟨⟨b'', hstore⟩, hrefused, hslen, hposition, hsize⟩ := store_spec hb' buf.bytes
      refine .stored (by omega) hres.kept hres.fresh ?_ hlen (hstore.update _ _ _) ?_ ?_ ?_
      · rw [← hgrown, ← hslen]
        rfl
      · simp only [hposition, hres.position]
      · simp only [hsize, hres.apparentSize]
      · exact hrefused.trans href
    · rw [hret, if_neg (by decide)] at hgrown
      rw [hret, if_pos (by decide)]
      exact .failed (by omega) hres hgrown.symm hwhy

theorem avioRead_spec (c : Platform) {s : Session} {b : AudiofsBuffer} {bytes : List UInt8}
    (m : Memory s b bytes) {n : Int32} (hn : 0 ≤ n.toInt) :
    audiofsAvioRead c s n =
      ((int32 (s.handle.readCount (toU64 n)),
          bytes.take (s.handle.readCount (toU64 n)).toNat),
        ⟨(s.process.copyOut bytes (s.handle.readCount (toU64 n)).toNat).2,
          { s.handle with position := s.handle.endPosition (toU64 n) }⟩) := by
  have hneg : ¬ n.toInt < 0 := by omega
  simp [audiofsAvioRead, rejects_iff, hneg, m.inMemory, m.deref_eq, m.data_eq, Process.copyOut]

/-- Everything the second half of a memory seek can do. -/
inductive Moved (c : Platform) (s : Session) (bytes : List UInt8) (target : Int64) :
    Int64 × Session → Prop
  | failed {s' : Session} {new : List UInt8} : Resized c s s' bytes new →
      new.length < target.toUInt64.toNat →
      (INT64_MAX < target.toUInt64 ∨ s.process.refused < s'.process.refused) →
      Moved c s bytes target (-ENOMEM, s')
  | moved {s' : Session} {b : AudiofsBuffer} {new : List UInt8} : Memory s' b new →
      bytes <+: new → Process.FreshBeyond c bytes new → s'.handle.position = target.toUInt64 →
      s'.handle.apparentSize = s.handle.apparentSize →
      s'.process.refused = s.process.refused →
      (INT64_MAX < target.toUInt64 → target.toUInt64.toNat ≤ bytes.length) →
      Moved c s bytes target (target, s')

theorem seekTo_spec (c : Platform) {s : Session} {b : AudiofsBuffer} {bytes : List UInt8}
    (m : Memory s b bytes) (target : Int64) : Moved c s bytes target (seekTo c s target) := by
  by_cases hin : withinBounds 0 target s.handle.apparentSize = 0
  · obtain ⟨new, hres, hout⟩ := resizeTo_spec c m target.toUInt64
    rw [seekTo, if_pos hin]
    rcases hout with ⟨hret, -, href, hlen⟩ | ⟨hret, hlen, hwhy⟩
    · simp only [hret, ne_eq, not_true_eq_false, if_false]
      obtain ⟨b', hb'⟩ := hres.memory
      exact .moved (hb'.update _ _ _) hres.kept hres.fresh rfl hres.apparentSize href hlen
    · simp only [hret]
      exact .failed hres hlen hwhy
  · rw [seekTo, if_neg hin]
    have hpos : 0 < target.toInt := by
      by_contra h
      exact hin ((withinBounds_eq_zero_iff _ _).mpr (.inl (by omega)))
    refine .moved (m.update _ _ _) (List.prefix_refl _) (Process.freshBeyond_refl c _) rfl rfl rfl
      (fun h => ?_)
    have hval := toNat_toUInt64 target
    have hlt := target.toInt_lt
    rw [UInt64.lt_iff_toNat_lt, INT64_MAX_toNat] at h
    omega

/-- Everything `audiofs_avio_seek` can do to a memory handle: an early rejection, or a move to
the target the whence selects, computed modulo `2 ^ 64`. -/
inductive Sought (c : Platform) (s : Session) (bytes : List UInt8) (offset : Int64)
    (whence : Int32) : Int64 × Session → Prop
  | negative : offset.toInt < 0 → Sought c s bytes offset whence (-1, s)
  | unsupported : 0 ≤ offset.toInt → whence ≠ SEEK_SET → whence ≠ SEEK_CUR → whence ≠ SEEK_END →
      Sought c s bytes offset whence (-EINVAL, s)
  | beyond : 0 ≤ offset.toInt → whence = SEEK_END →
      (s.handle.apparentSize + offset.toUInt64).toInt64.toInt < 0 →
      Sought c s bytes offset whence (-EINVAL, s)
  | set {r : Int64 × Session} : 0 ≤ offset.toInt → whence = SEEK_SET →
      Moved c s bytes offset r → Sought c s bytes offset whence r
  | cur {r : Int64 × Session} : 0 ≤ offset.toInt → whence = SEEK_CUR →
      Moved c s bytes (s.handle.position + offset.toUInt64).toInt64 r →
      Sought c s bytes offset whence r
  | fin {r : Int64 × Session} : 0 ≤ offset.toInt → whence = SEEK_END →
      0 ≤ (s.handle.apparentSize + offset.toUInt64).toInt64.toInt →
      Moved c s bytes (s.handle.apparentSize + offset.toUInt64).toInt64 r →
      Sought c s bytes offset whence r

theorem avioSeek_spec (c : Platform) {s : Session} {b : AudiofsBuffer} {bytes : List UInt8}
    (m : Memory s b bytes) (offset : Int64) (whence : Int32) :
    Sought c s bytes offset whence (audiofsAvioSeek c s offset whence) := by
  have hzero : (0 : Int64).toInt = 0 := rfl
  by_cases hneg : offset.toInt < 0
  · rw [audiofsAvioSeek, if_pos (by rwa [Int64.lt_iff_toInt_lt])]
    exact .negative hneg
  · have hoff : 0 ≤ offset.toInt := by omega
    rw [audiofsAvioSeek, if_neg (by rwa [Int64.lt_iff_toInt_lt]), if_pos m.inMemory]
    by_cases hcur : whence = SEEK_CUR
    · rw [if_pos hcur]
      exact .cur hoff hcur (seekTo_spec c m _)
    by_cases hset : whence = SEEK_SET
    · rw [if_neg hcur, if_pos hset]
      exact .set hoff hset (seekTo_spec c m _)
    by_cases hend : whence = SEEK_END
    · simp only [if_neg hcur, if_neg hset, if_pos hend, Int64.lt_iff_toInt_lt, hzero]
      split_ifs with hover
      · exact .beyond hoff hend hover
      · exact .fin hoff hend (by omega) (seekTo_spec c m _)
    · rw [if_neg hcur, if_neg hset, if_neg hend]
      exact .unsupported hoff hset hcur hend

theorem Moved.memory {c : Platform} {s : Session} {bytes : List UInt8} {target : Int64}
    {r : Int64 × Session} (h : Moved c s bytes target r) :
    ∃ b' new, Memory r.2 b' new ∧ bytes <+: new ∧
      r.2.handle.apparentSize = s.handle.apparentSize := by
  cases h with
  | failed hres _ _ =>
    obtain ⟨b', hb'⟩ := hres.memory
    exact ⟨b', _, hb', hres.kept, hres.apparentSize⟩
  | moved hmem hkept _ _ hsize _ _ => exact ⟨_, _, hmem, hkept, hsize⟩

theorem Sought.memory {c : Platform} {s : Session} {b : AudiofsBuffer} {bytes : List UInt8}
    {offset : Int64} {whence : Int32} {r : Int64 × Session} (m : Memory s b bytes)
    (h : Sought c s bytes offset whence r) :
    ∃ b' new, Memory r.2 b' new ∧ bytes <+: new ∧
      r.2.handle.apparentSize = s.handle.apparentSize := by
  cases h with
  | negative _ => exact ⟨b, bytes, m, List.prefix_refl _, rfl⟩
  | unsupported _ _ _ _ => exact ⟨b, bytes, m, List.prefix_refl _, rfl⟩
  | beyond _ _ _ => exact ⟨b, bytes, m, List.prefix_refl _, rfl⟩
  | set _ _ hmoved => exact hmoved.memory
  | cur _ _ hmoved => exact hmoved.memory
  | fin _ _ _ hmoved => exact hmoved.memory

theorem step_wellFormed (c : Platform) {s : Session} (h : WellFormed s) (op : Op) :
    WellFormed (step c s op).2 := by
  obtain ⟨b, bytes, m⟩ := h
  cases op with
  | read n =>
    by_cases hn : 0 ≤ n.toInt
    · simp only [step, avioRead_spec c m hn]
      exact ⟨b, bytes, m.update _ _ _⟩
    · have hneg : n.toInt < 0 := by omega
      simp only [step, audiofsAvioRead, rejects_iff, hneg, if_true]
      exact ⟨b, bytes, m⟩
  | write buf =>
    have hspec := avioWrite_spec c m buf
    simp only [step]
    generalize audiofsAvioWrite c s buf = r at hspec
    cases hspec with
    | negative _ => exact ⟨b, bytes, m⟩
    | failed _ hres _ _ => exact ⟨_, _, hres.memory.choose_spec⟩
    | stored _ _ _ _ _ hmem _ _ _ => exact ⟨_, _, hmem⟩
  | seek offset whence =>
    obtain ⟨b', new, hmem, -, -⟩ := (avioSeek_spec c m offset whence).memory m
    exact ⟨b', new, hmem⟩

theorem Unbacked.resizeTo (c : Platform) {s : Session} (h : Unbacked s) (size : UInt64) :
    audiofsAvioResizeTo c s size = (-1, { s with process := s.process.fault }) := by
  simp [audiofsAvioResizeTo, h.buffer]

theorem Unbacked.seekTo (c : Platform) {s : Session} (h : Unbacked s) (target : Int64) :
    seekTo c s target = (-ENOMEM, { s with process := s.process.fault }) := by
  have hzero := (withinBounds_eq_zero_iff target s.handle.apparentSize).mpr (.inr h.apparentSize)
  simp [CustomAvio.seekTo, hzero, h.resizeTo]

theorem Unbacked.endPosition {s : Session} (h : Unbacked s) (bs64 : UInt64) :
    s.handle.endPosition bs64 = 0 := by
  rw [AudiofsAvioHandle.endPosition, h.apparentSize, ← UInt64.toNat_inj, UInt64.toNat_min]
  exact Nat.min_zero _

theorem step_unbacked (c : Platform) {s : Session} (h : Unbacked s) (op : Op) :
    Unbacked (step c s op).2 ∧ ∀ buf, op = .write buf → (step c s op).1.ret = -1 := by
  cases op with
  | read n =>
    refine ⟨?_, by simp⟩
    by_cases hneg : n.toInt < 0
    · simpa [step, audiofsAvioRead, rejects_iff, hneg] using h
    · simp only [step, audiofsAvioRead, rejects_iff, hneg, if_false, h.inMemory, if_true,
        h.endPosition]
      exact ⟨rfl, h.buffer, rfl, h.apparentSize⟩
  | write buf =>
    by_cases hneg : buf.bufSize.toInt < 0
    · simp only [step, audiofsAvioWrite, rejects_iff, hneg, if_true]
      exact ⟨h, fun _ _ => by decide⟩
    · have hwrite : audiofsAvioWrite c s buf = (-1, { s with process := s.process.fault }) := by
        simp [audiofsAvioWrite, rejects_iff, hneg, h.inMemory, h.resizeTo]
      simp only [step, hwrite]
      exact ⟨⟨h.inMemory, h.buffer, h.position, h.apparentSize⟩, fun _ _ => by decide⟩
  | seek offset whence =>
    refine ⟨?_, by simp⟩
    have hfault : Unbacked { s with process := s.process.fault } :=
      ⟨h.inMemory, h.buffer, h.position, h.apparentSize⟩
    simp only [step, audiofsAvioSeek, h.inMemory, if_true, h.seekTo]
    split_ifs <;> first | exact h | exact hfault

/-- The arguments pass the tests a callback makes before it looks at the buffer. -/
def Op.Accepted : Op → Prop
  | .read bufSize => 0 ≤ bufSize.toInt
  | .write buf => 0 ≤ buf.bufSize.toInt
  | .seek offset whence =>
    0 ≤ offset.toInt ∧ (whence = SEEK_CUR ∨ whence = SEEK_SET ∨ whence = SEEK_END)

instance (op : Op) : Decidable op.Accepted :=
  match op with
  | .read bufSize => inferInstanceAs (Decidable (0 ≤ bufSize.toInt))
  | .write buf => inferInstanceAs (Decidable (0 ≤ buf.bufSize.toInt))
  | .seek offset whence =>
    inferInstanceAs (Decidable (0 ≤ offset.toInt ∧
      (whence = SEEK_CUR ∨ whence = SEEK_SET ∨ whence = SEEK_END)))

/-- Without a buffer every accepted call dereferences the null pointer, and no other does. -/
theorem Unbacked.faults_step (c : Platform) {s : Session} (h : Unbacked s) (op : Op) :
    (step c s op).2.process.faults =
      if op.Accepted then s.process.faults + 1 else s.process.faults := by
  have hfault : s.process.fault.faults = s.process.faults + 1 := rfl
  cases op with
  | read n =>
    by_cases hneg : n.toInt < 0
    · have hrejected : ¬ 0 ≤ n.toInt := not_le.mpr hneg
      simp [step, audiofsAvioRead, rejects_iff, hneg, Op.Accepted, hrejected]
    · have hcount : s.handle.readCount (toU64 n) = 0 := by
        rw [AudiofsAvioHandle.readCount, h.endPosition, h.position]
        rfl
      simp [step, audiofsAvioRead, rejects_iff, hneg, h.inMemory, hcount, Op.Accepted,
        not_lt.mp hneg, Session.deref, h.buffer, Process.copyOut, hfault]
  | write buf =>
    by_cases hneg : buf.bufSize.toInt < 0
    · have hrejected : ¬ 0 ≤ buf.bufSize.toInt := not_le.mpr hneg
      simp [step, audiofsAvioWrite, rejects_iff, hneg, Op.Accepted, hrejected]
    · simp [step, audiofsAvioWrite, rejects_iff, hneg, h.inMemory, h.resizeTo, Op.Accepted,
        not_lt.mp hneg, hfault]
  | seek offset whence =>
    have hneg : offset < 0 ↔ ¬ 0 ≤ offset.toInt := by
      rw [Int64.lt_iff_toInt_lt, not_le]
      rfl
    have htarget : s.handle.apparentSize + offset.toUInt64 = offset.toUInt64 := by
      rw [h.apparentSize, UInt64.zero_add]
    simp only [step, audiofsAvioSeek, h.inMemory, if_true, h.seekTo, Op.Accepted, htarget,
      Int64.toInt64_toUInt64, hneg]
    by_cases hpos : 0 ≤ offset.toInt
    · simp only [hpos, not_true_eq_false, if_false, true_and]
      by_cases hcur : whence = SEEK_CUR
      · simp [hcur, hfault]
      by_cases hset : whence = SEEK_SET
      · simp [hset, hfault]
      by_cases hend : whence = SEEK_END
      · simp [hend, hfault]
      · simp [hcur, hset, hend]
    · simp [hpos]

def Reached (s : Session) : Prop := WellFormed s ∨ Unbacked s

theorem opened_reached {c : Platform} {s : Session} (h : Opened c s) : Reached s := by
  obtain ⟨p, hopen⟩ := h
  obtain ⟨-, -, ⟨b, hmem⟩ | ⟨hun, -⟩⟩ := opened_cases hopen
  · exact .inl ⟨b, _, hmem⟩
  · exact .inr hun

theorem step_reached (c : Platform) (s : Session) (op : Op) (h : Reached s) :
    Reached (step c s op).2 :=
  h.elim (fun hw => .inl (step_wellFormed c hw op)) (fun hu => .inr (step_unbacked c hu op).1)

end AudioFS.CustomAvio
