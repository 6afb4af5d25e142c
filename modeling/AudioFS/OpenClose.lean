import AudioFS.MemoryBounds

/-!
# Opening a handle

`audiofs_avio_open` chooses the backing by comparing as many bytes as the
caller's name has. The two outcomes of the comparison, the allocations and
`open` give five ways out, of which three hand out a handle.
-/

namespace AudioFS.CustomAvio
open AudioFS.CInteger AudioFS.Buffer

/-- The array behind the literal the name is compared with, its terminator included. -/
def memoryLiteral : List UInt8 := memoryName ++ [0]

/-- How many bytes of both operands a call `memcmp(a, b, n)` looks at: at most `n`, and fewer
only where it met a difference. The C library promises no more than that. -/
structure MemcmpReads (reads : List UInt8 → List UInt8 → ℕ → ℕ) : Prop where
  le : ∀ a b n, reads a b n ≤ n
  stops : ∀ a b n, reads a b n < n → ∃ i < reads a b n, a[i]? ≠ b[i]?

theorem memcmpReads_all : MemcmpReads (fun _ _ n => n) :=
  ⟨fun _ _ _ => le_rfl, fun _ _ n h => absurd h (lt_irrefl n)⟩

theorem namesMemory_iff {filename : List UInt8} (h : 0 ∉ filename) :
    namesMemory filename = true ↔ filename <+: memoryName := by
  rw [namesMemory, beq_iff_eq]
  constructor
  · intro hname
    have hlen : filename.length ≤ memoryName.length := by
      by_contra hlong
      apply h
      rw [hname, List.take_of_length_le]
      · simp
      · rw [List.length_append, List.length_singleton]
        omega
    rw [List.take_append_of_le_length hlen] at hname
    rw [hname]
    exact List.take_prefix _ _
  · intro hhead
    rw [List.take_append_of_le_length hhead.length_le]
    exact List.prefix_iff_eq_take.mp hhead

def openedBuffer (p : Process) (size : UInt64) : AudiofsBuffer :=
  { addr := p.calls, cookie := contextMagicA,
    data := some ⟨p.calls + 1, List.replicate size.toNat 0⟩, len := size, lock := false,
    self := p.calls, usedOutsideAudiofs := false }

theorem audiofsBufferAlloc_eq (c : Platform) (p : Process) {size : UInt64} (hsize : size ≠ 0) :
    audiofsBufferAlloc c p size =
      if c.grants p.calls sizeofBuffer = true then
        if c.grants (p.calls + 1) size = true then (some (openedBuffer p size), p.grant.grant)
        else (none, p.grant.refuse.release p.calls)
      else (none, p.refuse) := by
  rw [audiofsBufferAlloc_fresh, if_neg hsize]
  rfl

/-- Both blocks of a buffer of 1024 bytes are granted, from allocator call `call` on. -/
def GrantsBuffer (c : Platform) (call : ℕ) : Prop :=
  c.grants call sizeofBuffer = true ∧ c.grants (call + 1) 1024 = true

theorem openedBuffer_holds (p : Process) (size : UInt64) :
    (openedBuffer p size).Holds (List.replicate size.toNat 0) :=
  ⟨by simp [audiofsBufferOk, openedBuffer], ⟨p.calls + 1, rfl⟩, List.length_replicate⟩

inductive OpenOutcome (c : Platform) (p : Process) (filename : List UInt8) :
    Option AudiofsAvioHandle × Process → Prop
  | noHandle : c.grants p.calls sizeofHandle = false → OpenOutcome c p filename (none, p.refuse)
  | memory : c.grants p.calls sizeofHandle = true → namesMemory filename = true →
      GrantsBuffer c (p.calls + 1) →
      OpenOutcome c p filename
        (some ⟨p.calls, 0, true, some (openedBuffer p.grant 1024), 0, 0⟩, p.grant.grant.grant)
  | noBuffer {p' : Process} : c.grants p.calls sizeofHandle = true →
      namesMemory filename = true → ¬ GrantsBuffer c (p.calls + 1) →
      p' = p.grant.refuse ∨ p' = p.grant.grant.refuse.release (p.calls + 1) →
      OpenOutcome c p filename (some ⟨p.calls, 0, true, none, 0, 0⟩, p')
  | noFile : c.grants p.calls sizeofHandle = true → namesMemory filename = false →
      c.openFile p.syscalls filename < 0 → OpenOutcome c p filename (none, p.grant.syscall)
  | file : c.grants p.calls sizeofHandle = true → namesMemory filename = false →
      ¬ c.openFile p.syscalls filename < 0 →
      OpenOutcome c p filename
        (some ⟨p.calls, c.openFile p.syscalls filename, false, none, 0, 0⟩,
          { p.grant.syscall with descriptors := c.openFile p.syscalls filename :: p.descriptors })

theorem avioOpen_outcome (c : Platform) (p : Process) (filename : List UInt8) :
    OpenOutcome c p filename (audiofsAvioOpen c p filename) := by
  have hcalls : p.grant.calls = p.calls + 1 := rfl
  have hsyscalls : p.grant.syscalls = p.syscalls := rfl
  have hsize : (1024 : UInt64) ≠ 0 := by decide
  cases hg : c.grants p.calls sizeofHandle with
  | false =>
    simp only [audiofsAvioOpen, Process.calloc, hg, Bool.false_eq_true, if_false]
    exact .noHandle hg
  | true =>
    cases hname : namesMemory filename with
    | true =>
      simp only [audiofsAvioOpen, Process.calloc, hg, hname, if_true,
        audiofsBufferAlloc_eq c p.grant hsize, hcalls]
      split_ifs with hg₁ hg₂
      · exact .memory hg hname ⟨hg₁, hg₂⟩
      · exact .noBuffer hg hname (fun h => hg₂ h.2) (.inr rfl)
      · exact .noBuffer hg hname (fun h => hg₁ h.1) (.inl rfl)
    | false =>
      simp only [audiofsAvioOpen, Process.calloc, hg, hname, if_true, Bool.false_eq_true, if_false,
        hsyscalls]
      split_ifs with hfile
      · exact .noFile hg hname hfile
      · exact .file hg hname hfile

/-- Null, or a handle that is backed by memory exactly for the name "memory" and then has a
buffer of 1024 zero bytes; and no `memcmp` the C library may use leaves the literal. -/
structure SelectsBackend (c : Platform) (p : Process) (filename : List UInt8)
    (opened : Option AudiofsAvioHandle) : Prop where
  backing : ∀ h, opened = some h → (h.inMemory = true ↔ filename = memoryName)
  backed : ∀ h, opened = some h → h.inMemory = true →
    (∃ b, h.buffer = some b ∧ b.Holds (List.replicate 1024 0)) ∧
      h.position = 0 ∧ h.apparentSize = 0
  inside : c.grants p.calls sizeofHandle = true → ∀ reads, MemcmpReads reads →
    reads filename memoryLiteral filename.length ≤ memoryLiteral.length

theorem inside_iff (filename : List UInt8) :
    (∀ reads, MemcmpReads reads →
      reads filename memoryLiteral filename.length ≤ memoryLiteral.length) ↔
      filename.length ≤ memoryLiteral.length := by
  constructor
  · intro h
    exact h _ memcmpReads_all
  · intro hlen reads hreads
    exact (hreads.le _ _ _).trans hlen

theorem selects_none_iff (c : Platform) (p : Process) (filename : List UInt8) :
    SelectsBackend c p filename none ↔
      (c.grants p.calls sizeofHandle = true → filename.length ≤ memoryLiteral.length) := by
  constructor
  · intro h hg
    exact (inside_iff filename).mp (h.inside hg)
  · intro h
    refine ⟨?_, ?_, fun hg => (inside_iff filename).mpr (h hg)⟩
    · intro h hnone
      exact absurd hnone (by simp)
    · intro h hnone
      exact absurd hnone (by simp)

theorem selects_some_iff {c : Platform} {p : Process} (hg : c.grants p.calls sizeofHandle = true)
    (filename : List UInt8) (h : AudiofsAvioHandle) :
    SelectsBackend c p filename (some h) ↔
      (h.inMemory = true ↔ filename = memoryName) ∧
        (h.inMemory = true → (∃ b, h.buffer = some b ∧ b.Holds (List.replicate 1024 0)) ∧
          h.position = 0 ∧ h.apparentSize = 0) ∧
        filename.length ≤ memoryLiteral.length := by
  constructor
  · intro hs
    exact ⟨hs.backing h rfl, hs.backed h rfl, (inside_iff filename).mp (hs.inside hg)⟩
  · rintro ⟨hbacking, hbacked, hinside⟩
    refine ⟨?_, ?_, fun _ => (inside_iff filename).mpr hinside⟩
    · intro h' heq
      rwa [← Option.some.inj heq]
    · intro h' heq
      rwa [← Option.some.inj heq]

/-- Opening selects the right backing exactly when the handle cannot be allocated, the name is
"memory" and the buffer can be allocated, or the name is no prefix of "memory" and no longer than
the literal. -/
theorem selects_backend_iff (c : Platform) (p : Process) {filename : List UInt8}
    (h : 0 ∉ filename) :
    SelectsBackend c p filename (audiofsAvioOpen c p filename).1 ↔
      c.grants p.calls sizeofHandle = false ∨
        (filename = memoryName ∧ GrantsBuffer c (p.calls + 1)) ∨
        (¬ filename <+: memoryName ∧ filename.length ≤ memoryLiteral.length) := by
  have hname := namesMemory_iff h
  have hself : filename = memoryName → filename <+: memoryName := by
    rintro rfl
    exact List.prefix_refl _
  have hout := avioOpen_outcome c p filename
  generalize audiofsAvioOpen c p filename = r at hout
  cases hout with
  | noHandle hg => simp [selects_none_iff, hg]
  | memory hg hmemory hbuffer =>
    have hhead := hname.mp hmemory
    have hlen : filename.length ≤ memoryLiteral.length :=
      hhead.length_le.trans (by decide)
    rw [selects_some_iff hg]
    simp only [hg, hbuffer, hhead, hlen, Bool.true_eq_false, false_or, true_iff, and_true,
      not_true_eq_false, or_false, true_imp_iff]
    exact ⟨fun hs => hs.1, fun hs => ⟨hs, ⟨_, rfl, openedBuffer_holds _ _⟩⟩⟩
  | noBuffer hg hmemory hnot _ =>
    rw [selects_some_iff hg]
    refine iff_of_false ?_ ?_
    · rintro ⟨-, hbacked, -⟩
      obtain ⟨⟨b, hb, -⟩, -⟩ := hbacked rfl
      exact absurd hb (by simp)
    · rintro (hg' | ⟨-, hbuffer⟩ | ⟨hhead, -⟩)
      · rw [hg] at hg'
        exact absurd hg' (by decide)
      · exact hnot hbuffer
      · exact hhead (hname.mp hmemory)
  | noFile hg hother _ =>
    have hhead : ¬ filename <+: memoryName := by
      rw [← hname, hother]
      decide
    simp [selects_none_iff, hg, hhead, mt hself hhead]
  | file hg hother _ =>
    have hhead : ¬ filename <+: memoryName := by
      rw [← hname, hother]
      decide
    rw [selects_some_iff hg]
    simp only [hg, hhead, mt hself hhead, Bool.true_eq_false, Bool.false_eq_true, false_and,
      false_or, not_false_eq_true, true_and, false_imp_iff]

theorem memoryName_selects :
    SelectsBackend Platform.generous Process.start memoryName
      (audiofsAvioOpen Platform.generous Process.start memoryName).1 :=
  (selects_backend_iff Platform.generous Process.start (by decide)).mpr
    (.inr (.inl ⟨rfl, rfl, rfl⟩))

theorem proper_prefix_opens_memory :
    ¬ ∀ (c : Platform) (p : Process) (filename : List UInt8), 0 ∉ filename →
      SelectsBackend c p filename (audiofsAvioOpen c p filename).1 := by
  intro h
  have hbacking := (h Platform.generous Process.start [109, 101, 109] (by decide)).backing _ rfl
  exact absurd (hbacking.mp rfl) (by decide)

end AudioFS.CustomAvio
