import AudioFS.Buffer

/-!
# What a resize leaves in a buffer

A resize that succeeds sets the length and keeps the common prefix. The range it
blanks is guarded by the old length being the larger one, so the memory a growing
buffer gains stays as the allocator returned it, and a shrinking one is blanked
behind its end.
-/

namespace AudioFS.Buffer
open AudioFS.CInteger

/-- The buffers the functions of `util.h` build: the data block is live and as long as the
buffer says, and missing exactly when that is nothing. -/
structure AudiofsBuffer.Invariant (b : AudiofsBuffer) (p : Process) : Prop where
  ok : audiofsBufferOk b = true
  length : (Process.oldBytes b.data).length = b.len.toNat
  null_iff : b.data.isNone = true ↔ b.len = 0
  live : ∀ block, b.data = some block → block.addr ∈ p.live

/-- A write outside a live block is counted in `faults`. -/
structure ResizesExactly (p : Process) (b : AudiofsBuffer) (size : UInt64)
    (r : Bool × AudiofsBuffer × Process) : Prop where
  len : r.2.1.len = size
  kept : ∀ i < min b.len.toNat size.toNat,
    (Process.oldBytes r.2.1.data)[i]? = (Process.oldBytes b.data)[i]?
  zeroed : ∀ i, b.len.toNat ≤ i → i < size.toNat → (Process.oldBytes r.2.1.data)[i]? = some 0
  inside : r.2.2.faults = p.faults

theorem free_faults {b : AudiofsBuffer} {p : Process} (h : b.Invariant p) :
    (p.free b.data).faults = p.faults := by
  cases hd : b.data with
  | none => rfl
  | some block => simp [Process.free, Process.release, h.live block hd]

theorem realloc_emptied (c : Platform) {p : Process} {b : AudiofsBuffer} (h : b.Invariant p) :
    audiofsBufferRealloc c p b 0 =
      (true, { b.unchanged with data := none, len := 0 }, p.free b.data) := by
  rw [audiofsBufferRealloc_exits]
  simp [h.ok]

theorem realloc_same (c : Platform) {p : Process} {b : AudiofsBuffer} (h : b.Invariant p)
    (hsize : b.len ≠ 0) :
    audiofsBufferRealloc c p b b.len = (true, b.unchanged, p) := by
  have hdata : ¬ b.data.isNone = true := by
    rw [h.null_iff]
    exact hsize
  rw [audiofsBufferRealloc_exits]
  simp [h.ok, hsize, emergencyAlloc, hdata, AudiofsBuffer.unchanged]

theorem realloc_refused (c : Platform) {p : Process} {b : AudiofsBuffer} (h : b.Invariant p)
    {size : UInt64} (hsize : size ≠ 0) (hne : size ≠ b.len)
    (hg : c.grants p.calls size = false) :
    audiofsBufferRealloc c p b size = (false, b.unchanged, p.refuse) := by
  rw [audiofsBufferRealloc_exits]
  simp [h.ok, hsize, hne, hg]

theorem realloc_granted (c : Platform) {p : Process} {b : AudiofsBuffer} (h : b.Invariant p)
    {size : UInt64} (hsize : size ≠ 0) (hne : size ≠ b.len)
    (hg : c.grants p.calls size = true) :
    audiofsBufferRealloc c p b size =
      let blanked := blankNewRegions (p.free b.data).grant b.len size
        (Process.reallocated c p.calls (Process.oldBytes b.data) size.toNat)
      (true, b.resized size ⟨p.calls, blanked.1⟩, blanked.2) := by
  rw [audiofsBufferRealloc_exits]
  simp [h.ok, hsize, hne, hg]

theorem grown_exact_iff (c : Platform) {p : Process} {b : AudiofsBuffer} (h : b.Invariant p)
    {size : UInt64} (hlt : b.len < size) :
    ResizesExactly p b size (true, b.resized size ⟨p.calls, Process.reallocated c p.calls
        (Process.oldBytes b.data) size.toNat⟩, (p.free b.data).grant) ↔
      ∀ i, b.len.toNat ≤ i → i < size.toNat → c.fresh p.calls i = 0 := by
  have hlt' := UInt64.lt_iff_toNat_lt.mp hlt
  have hold : (Process.oldBytes b.data).length ≤ size.toNat := by
    rw [h.length]
    exact hlt'.le
  have hlen := h.length
  have hget := Process.reallocated_getElem? c p.calls hold
  constructor
  · intro hexact i hi hsize
    have hzero := hexact.zeroed i hi hsize
    change (Process.reallocated c p.calls (Process.oldBytes b.data) size.toNat)[i]? = _ at hzero
    rw [hget, if_neg (by omega), if_pos hsize] at hzero
    exact Option.some.inj hzero
  · intro hfresh
    refine ⟨rfl, ?_, ?_, free_faults h⟩
    · intro i hi
      change (Process.reallocated c p.calls (Process.oldBytes b.data) size.toNat)[i]? = _
      rw [hget, if_pos (by omega)]
    · intro i hi hsize
      change (Process.reallocated c p.calls (Process.oldBytes b.data) size.toNat)[i]? = _
      rw [hget, if_neg (by omega), if_pos hsize, hfresh i hi hsize]

theorem shrunk_faults {p : Process} {oldLen size : UInt64} (hlt : size < oldLen)
    {bytes : List UInt8} (hbytes : bytes.length = size.toNat) :
    (blankNewRegions p oldLen size bytes).2.faults = p.faults + 1 := by
  have hlt' := UInt64.lt_iff_toNat_lt.mp hlt
  rw [blankNewRegions, if_pos hlt]
  simp only [Process.zeroRange, hbytes, toNat_sub_of_ge hlt'.le]
  rw [if_neg (by omega)]
  rfl

/-- A resize does what it should exactly when it changes nothing, fails, or grows into memory
that happens to be zero. -/
theorem realloc_exact_iff (c : Platform) {p : Process} {b : AudiofsBuffer} (h : b.Invariant p)
    {size : UInt64} (hsize : size ≠ 0) :
    ((audiofsBufferRealloc c p b size).1 = true →
        ResizesExactly p b size (audiofsBufferRealloc c p b size)) ↔
      size = b.len ∨ c.grants p.calls size = false ∨
        b.len < size ∧ ∀ i, b.len.toNat ≤ i → i < size.toNat → c.fresh p.calls i = 0 := by
  by_cases hne : size = b.len
  · subst hne
    rw [realloc_same c h hsize]
    refine iff_of_true (fun _ => ⟨rfl, fun _ _ => rfl, ?_, rfl⟩) (.inl rfl)
    intro i hi hlt
    exact absurd hlt (not_lt.mpr hi)
  cases hg : c.grants p.calls size with
  | false =>
    rw [realloc_refused c h hsize hne hg]
    exact iff_of_true (fun hfalse => absurd hfalse Bool.false_ne_true) (.inr (.inl rfl))
  | true =>
    rw [realloc_granted c h hsize hne hg]
    rcases UInt64.lt_or_lt_of_ne (Ne.symm hne) with hlt | hgt
    · rw [blankNewRegions_grow _ hlt]
      simp only [hne, hlt, Bool.true_eq_false, false_or, true_and, true_imp_iff]
      exact grown_exact_iff c h hlt
    · have hnot : ¬ b.len < size := UInt64.not_lt.mpr (UInt64.le_of_lt hgt)
      simp only [hne, hnot, Bool.true_eq_false, false_or, false_and, iff_false, true_imp_iff]
      intro hexact
      have hfaults := hexact.inside
      rw [shrunk_faults hgt (Process.length_reallocated _ _ _ _)] at hfaults
      have hfree : (p.free b.data).grant.faults = p.faults := free_faults h
      omega

def oneByte : AudiofsBuffer := ⟨0, contextMagicA, some ⟨1, [65]⟩, 1, false, 0, false⟩

def oneByteOwner : Process := { Process.start with calls := 2, live := [1, 0] }

theorem oneByte_invariant : oneByte.Invariant oneByteOwner where
  ok := by decide
  length := rfl
  null_iff := by decide
  live := by
    intro block hblock
    rw [← Option.some.inj hblock]
    decide

theorem oneByte_grows_exactly :
    ResizesExactly oneByteOwner oneByte 3
      (audiofsBufferRealloc Platform.generous oneByteOwner oneByte 3) :=
  (realloc_exact_iff Platform.generous oneByte_invariant (by decide)).mpr
    (.inr (.inr ⟨by decide, fun _ _ _ => rfl⟩)) rfl

def Platform.dirty : Platform := { Platform.generous with fresh := fun _ _ => 165 }

theorem grown_buffer_keeps_old_memory :
    ¬ ∀ (c : Platform) (p : Process) (b : AudiofsBuffer) (size : UInt64), b.Invariant p →
      size ≠ 0 → (audiofsBufferRealloc c p b size).1 = true →
      ResizesExactly p b size (audiofsBufferRealloc c p b size) := by
  intro h
  have hzeroed := (h Platform.dirty oneByteOwner oneByte 2 oneByte_invariant (by decide)
    rfl).zeroed 1 (by decide) (by decide)
  exact absurd hzeroed (by decide)

end AudioFS.Buffer
