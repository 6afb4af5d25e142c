import AudioFS.Buffer
import AudioFS.StepMachine

/-!
# Buffers lent to Go

Any number of threads call `COnwedByteSliceFromAudioFSBuffer` and
`audiofs_buffer_realloc` on one buffer, while the Go side gives slices back by
unlocking the marker. A step is one mutex operation, one resize of the locked
buffer, or the hand-over of a slice; a thread that is scheduled before a mutex
it cannot get stays where it is. A buffer counts as lent from the moment a call
has taken the marker.
-/

namespace AudioFS.BufferLoans
open AudioFS.Buffer StepMachine

/-- What `unsafe.Slice` is built from: the address of the data and its length. -/
structure Slice where
  data : Option ℕ
  len : UInt64
  deriving DecidableEq

def sliceOf (b : AudiofsBuffer) : Slice := ⟨b.data.map Block.addr, b.len⟩

/-- The next statement of a thread. -/
inductive Pc
  | idle
  | lendLock
  | lendMark
  | lendUnlock
  | lendSlice
  | reallocCheck (size : UInt64)
  | reallocLock (size : UInt64)
  | reallocUnmark (size : UInt64)
  | reallocResize (size : UInt64)
  | reallocReturn (resized : Bool)
  deriving DecidableEq

def Pc.holdsLock : Pc → Bool
  | .lendMark | .lendUnlock | .reallocUnmark _ | .reallocResize _ | .reallocReturn _ => true
  | _ => false

/-- The thread took the marker for a slice it has not handed out yet. -/
def Pc.lending : Pc → Bool
  | .lendUnlock | .lendSlice => true
  | _ => false

def Pc.reallocating : Pc → Bool
  | .reallocCheck _ | .reallocLock _ | .reallocUnmark _ | .reallocResize _ | .reallocReturn _ => true
  | _ => false

/-- The next statement of the thread unlocks the marker for a resize. -/
def Pc.unmarking : Pc → Bool
  | .reallocUnmark _ => true
  | _ => false

/-- The thread is in `audiofs_buffer_realloc` and has unlocked the marker. -/
def Pc.resizing : Pc → Bool
  | .reallocResize _ | .reallocReturn _ => true
  | _ => false

structure State (n : ℕ) where
  buffer : AudiofsBuffer
  process : Process
  pc : Fin n → Pc
  lent : List Slice

inductive Act (n : ℕ)
  | lend (i : Fin n)
  | realloc (i : Fin n) (size : UInt64)
  | run (i : Fin n)
  | release (k : ℕ)
  deriving DecidableEq

variable {n : ℕ}

def State.goto (s : State n) (i : Fin n) (pc : Pc) : State n :=
  { s with pc := Function.update s.pc i pc }

def State.setLock (s : State n) (held : Bool) : State n :=
  { s with buffer := { s.buffer with lock := held } }

def State.setMarker (s : State n) (held : Bool) : State n :=
  { s with buffer := { s.buffer with usedOutsideAudiofs := held } }

/-- What `audiofs_buffer_realloc` does between its mutex operations. -/
def resizeLocked (c : Platform) (p : Process) (b : AudiofsBuffer) (size : UInt64) :
    Bool × AudiofsBuffer × Process :=
  let r := audiofsBufferRealloc c p b size
  (r.1, { r.2.1 with lock := b.lock, usedOutsideAudiofs := b.usedOutsideAudiofs }, r.2.2)

/-- One statement of thread `i`, with the value a finished resize returns. -/
def runThread (c : Platform) (s : State n) (i : Fin n) : Option Bool × State n :=
  match s.pc i with
  | .idle => (none, s)
  | .lendLock => if s.buffer.lock then (none, s) else (none, (s.setLock true).goto i .lendMark)
  | .lendMark =>
    if s.buffer.usedOutsideAudiofs then (none, s)
    else (none, (s.setMarker true).goto i .lendUnlock)
  | .lendUnlock => (none, (s.setLock false).goto i .lendSlice)
  | .lendSlice => (none, { s with lent := sliceOf s.buffer :: s.lent }.goto i .idle)
  | .reallocCheck size =>
    if !audiofsBufferOk s.buffer then (some false, s.goto i .idle)
    else (none, s.goto i (.reallocLock size))
  | .reallocLock size =>
    if s.buffer.lock then (none, s) else (none, (s.setLock true).goto i (.reallocUnmark size))
  -- the test of the marker that stood here is commented out
  | .reallocUnmark size => (none, (s.setMarker false).goto i (.reallocResize size))
  | .reallocResize size =>
    let r := resizeLocked c s.process s.buffer size
    (none, { s with buffer := r.2.1, process := r.2.2 }.goto i (.reallocReturn r.1))
  | .reallocReturn resized => (some resized, (s.setLock false).goto i .idle)

def step (c : Platform) (s : State n) : Act n → Option Bool × State n
  | .lend i => (none, if s.pc i = .idle then s.goto i .lendLock else s)
  | .realloc i size => (none, if s.pc i = .idle then s.goto i (.reallocCheck size) else s)
  | .run i => runThread c s i
  | .release k =>
    (none, if k < s.lent.length then { s.setMarker false with lent := s.lent.eraseIdx k } else s)

structure Fresh (s : State n) : Prop where
  idle : ∀ i, s.pc i = .idle
  lent : s.lent = []
  lock : s.buffer.lock = false
  marker : s.buffer.usedOutsideAudiofs = false

def Lent (s : State n) : Prop := s.lent ≠ [] ∨ ∃ i, (s.pc i).lending = true

instance (s : State n) : Decidable (Lent s) := inferInstanceAs (Decidable (_ ∨ _))

abbrev LoanStep (n : ℕ) := Transition (State n) (Act n) (Option Bool)

/-- A step of a resize on a lent buffer: it does not change what was lent, nor the marker, and
does not return true. -/
structure Refused (t : LoanStep n) : Prop where
  data : t.after.buffer.data = t.before.buffer.data
  len : t.after.buffer.len = t.before.buffer.len
  marker : t.after.buffer.usedOutsideAudiofs = t.before.buffer.usedOutsideAudiofs
  ret : t.output ≠ some true

/-- The resizes of a lent buffer are refused, and every slice that is out is the live buffer's. -/
structure Pinned (t : LoanStep n) : Prop where
  refused : Lent t.before → ∀ i, t.input = .run i → (t.before.pc i).reallocating = true → Refused t
  live : ∀ slice ∈ t.after.lent, slice = sliceOf t.after.buffer

/-- A resize gets past the lock and unlocks the marker of a buffer that is lent. -/
def UnmarksLent (t : LoanStep n) : Prop :=
  Lent t.before ∧ ∃ i, t.input = .run i ∧ (t.before.pc i).unmarking = true

instance (t : LoanStep n) : Decidable (UnmarksLent t) := inferInstanceAs (Decidable (_ ∧ _))

/-- What holds as long as no resize unlocks the marker of a lent buffer. -/
structure Sound (s : State n) : Prop where
  lock : ∀ i, (s.pc i).holdsLock = true → s.buffer.lock = true
  lock_one : ∀ i j, (s.pc i).holdsLock = true → (s.pc j).holdsLock = true → i = j
  marker : Lent s → s.buffer.usedOutsideAudiofs = true
  lending : ∀ i, (s.pc i).lending = true → s.lent = []
  lending_one : ∀ i j, (s.pc i).lending = true → (s.pc j).lending = true → i = j
  lent_le : s.lent.length ≤ 1
  resizing : ∀ i, (s.pc i).resizing = true → ¬ Lent s
  live : ∀ slice ∈ s.lent, slice = sliceOf s.buffer

@[simp] theorem goto_buffer (s : State n) (i : Fin n) (pc : Pc) :
    (s.goto i pc).buffer = s.buffer := rfl

@[simp] theorem goto_lent (s : State n) (i : Fin n) (pc : Pc) : (s.goto i pc).lent = s.lent := rfl

@[simp] theorem goto_pc (s : State n) (i : Fin n) (pc : Pc) (j : Fin n) :
    (s.goto i pc).pc j = if j = i then pc else s.pc j := Function.update_apply _ _ _ _

theorem of_goto (f : Pc → Bool) {s : State n} {i : Fin n} {pc : Pc}
    (hf : f pc = true → f (s.pc i) = true) {j : Fin n} (hj : f ((s.goto i pc).pc j) = true) :
    f (s.pc j) = true := by
  rw [goto_pc] at hj
  split_ifs at hj with hji
  · exact hji ▸ hf hj
  · exact hj

theorem eq_of_goto (f : Pc → Bool) {s : State n} {i : Fin n} {pc : Pc}
    (hnone : ∀ j, f (s.pc j) = false) {j : Fin n} (hj : f ((s.goto i pc).pc j) = true) : j = i := by
  rw [goto_pc] at hj
  split_ifs at hj with hji
  · exact hji
  · simp [hnone j] at hj

theorem goto_eq_false (f : Pc → Bool) {s : State n} {i : Fin n} {pc : Pc} (hpc : f pc = false)
    (hone : ∀ j, f (s.pc j) = true → j = i) (j : Fin n) : f ((s.goto i pc).pc j) = false := by
  rw [goto_pc]
  split_ifs with hji
  · exact hpc
  · by_contra hj
    exact hji (hone j (by simpa using hj))

theorem Pc.holdsLock_of_resizing {pc : Pc} (h : pc.resizing = true) : pc.holdsLock = true := by
  cases pc with
  | reallocResize | reallocReturn => rfl
  | _ => simp [Pc.resizing] at h

theorem Pc.eq_of_unmarking {pc : Pc} (h : pc.unmarking = true) :
    ∃ size, pc = .reallocUnmark size := by
  cases pc with
  | reallocUnmark size => exact ⟨size, rfl⟩
  | _ => simp [Pc.unmarking] at h

theorem not_lent_iff (s : State n) :
    ¬ Lent s ↔ s.lent = [] ∧ ∀ i, (s.pc i).lending = false := by
  simp [Lent]

theorem Fresh.sound {s : State n} (h : Fresh s) : Sound s where
  lock i hi := by simp [h.idle i, Pc.holdsLock] at hi
  lock_one i _ hi := by simp [h.idle i, Pc.holdsLock] at hi
  marker hl := by
    rcases hl with hne | ⟨i, hi⟩
    · exact absurd h.lent hne
    · simp [h.idle i, Pc.lending] at hi
  lending i hi := by simp [h.idle i, Pc.lending] at hi
  lending_one i _ hi := by simp [h.idle i, Pc.lending] at hi
  lent_le := by simp [h.lent]
  resizing i hi := by simp [h.idle i, Pc.resizing] at hi
  live slice hs := by simp [h.lent] at hs

theorem Sound.advance {s : State n} (h : Sound s) {i : Fin n} {pc : Pc}
    (hlock : pc.holdsLock = true → (s.pc i).holdsLock = true)
    (hlending : pc.lending = true → (s.pc i).lending = true)
    (hresizing : pc.resizing = true → (s.pc i).resizing = true) : Sound (s.goto i pc) := by
  have hl {j : Fin n} := of_goto (j := j) Pc.holdsLock hlock
  have hm {j : Fin n} := of_goto (j := j) Pc.lending hlending
  have hr {j : Fin n} := of_goto (j := j) Pc.resizing hresizing
  have hlent : Lent (s.goto i pc) → Lent s := fun hl => hl.imp id fun ⟨j, hj⟩ => ⟨j, hm hj⟩
  exact
    { lock := fun j hj => h.lock j (hl hj)
      lock_one := fun j k hj hk => h.lock_one j k (hl hj) (hl hk)
      marker := fun hs => h.marker (hlent hs)
      lending := fun j hj => h.lending j (hm hj)
      lending_one := fun j k hj hk => h.lending_one j k (hm hj) (hm hk)
      lent_le := h.lent_le
      resizing := fun j hj hs => h.resizing j (hr hj) (hlent hs)
      live := h.live }

theorem Sound.acquire {s : State n} (h : Sound s) (hfree : s.buffer.lock = false) {i : Fin n}
    {pc : Pc} (hlending : pc.lending = false) (hresizing : pc.resizing = false) :
    Sound ((s.setLock true).goto i pc) := by
  have hnone (j : Fin n) : (s.pc j).holdsLock = false := by
    by_contra hj
    simp [h.lock j (by simpa using hj)] at hfree
  have hholder (j : Fin n) (hj : (((s.setLock true).goto i pc).pc j).holdsLock = true) :
      j = i := eq_of_goto Pc.holdsLock hnone hj
  have hm (j : Fin n) (hj : (((s.setLock true).goto i pc).pc j).lending = true) :
      (s.pc j).lending = true := of_goto Pc.lending (by simp [hlending]) hj
  have hr (j : Fin n) (hj : (((s.setLock true).goto i pc).pc j).resizing = true) :
      (s.pc j).resizing = true := of_goto Pc.resizing (by simp [hresizing]) hj
  have hlent : Lent ((s.setLock true).goto i pc) → Lent s :=
    fun hl => hl.imp id fun ⟨j, hj⟩ => ⟨j, hm j hj⟩
  exact
    { lock := fun _ _ => rfl
      lock_one := fun j k hj hk => (hholder j hj).trans (hholder k hk).symm
      marker := fun hs => h.marker (hlent hs)
      lending := fun j hj => h.lending j (hm j hj)
      lending_one := fun j k hj hk => h.lending_one j k (hm j hj) (hm k hk)
      lent_le := h.lent_le
      resizing := fun j hj hs => h.resizing j (hr j hj) (hlent hs)
      live := h.live }

theorem Sound.unlock {s : State n} (h : Sound s) {i : Fin n} {pc : Pc}
    (hholds : (s.pc i).holdsLock = true) (hpc : pc.holdsLock = false)
    (hlending : pc.lending = true → (s.pc i).lending = true) (hresizing : pc.resizing = false) :
    Sound ((s.setLock false).goto i pc) := by
  have hnone (j : Fin n) : (((s.setLock false).goto i pc).pc j).holdsLock = false :=
    goto_eq_false Pc.holdsLock hpc (fun j hj => h.lock_one j i hj hholds) j
  have hadvance : Sound (s.goto i pc) :=
    h.advance (fun hp => by simp [hpc] at hp) hlending (fun hp => by simp [hresizing] at hp)
  exact
    { lock := fun j hj => absurd ((hnone j).symm.trans hj) Bool.false_ne_true
      lock_one := fun j _ hj => absurd ((hnone j).symm.trans hj) Bool.false_ne_true
      marker := hadvance.marker
      lending := hadvance.lending
      lending_one := hadvance.lending_one
      lent_le := hadvance.lent_le
      resizing := hadvance.resizing
      live := hadvance.live }

/-- Nothing is lent while the marker is free, so the thread that takes it is the only lender. -/
theorem Sound.mark {s : State n} (h : Sound s) {i : Fin n} (hpc : s.pc i = .lendMark)
    (hfree : s.buffer.usedOutsideAudiofs = false) :
    Sound ((s.setMarker true).goto i .lendUnlock) := by
  have hlent : ¬ Lent s := fun hl => by simp [h.marker hl] at hfree
  obtain ⟨hnil, hnone⟩ := (not_lent_iff s).mp hlent
  have hholds : (s.pc i).holdsLock = true := by rw [hpc]; rfl
  have hh (j : Fin n) (hj : (((s.setMarker true).goto i .lendUnlock).pc j).holdsLock = true) :
      (s.pc j).holdsLock = true := of_goto Pc.holdsLock (fun _ => hholds) hj
  have hm (j : Fin n) (hj : (((s.setMarker true).goto i .lendUnlock).pc j).lending = true) :
      j = i := eq_of_goto Pc.lending hnone hj
  exact
    { lock := fun j hj => h.lock j (hh j hj)
      lock_one := fun j k hj hk => h.lock_one j k (hh j hj) (hh k hk)
      marker := fun _ => rfl
      lending := fun _ _ => hnil
      lending_one := fun j k hj hk => (hm j hj).trans (hm k hk).symm
      lent_le := h.lent_le
      -- a resize past its unlock holds `buffer->lock`, which this thread holds
      resizing := fun j hj => by
        rw [goto_pc] at hj
        split_ifs at hj with hji
        · simp [Pc.resizing] at hj
        · exact absurd (h.lock_one j i (Pc.holdsLock_of_resizing hj) hholds) hji
      live := h.live }

/-- The lender hands the slice out: it was the only one under way, and no slice was out. -/
theorem Sound.handOut {s : State n} (h : Sound s) {i : Fin n} (hpc : s.pc i = .lendSlice) :
    Sound ({ s with lent := sliceOf s.buffer :: s.lent }.goto i .idle) := by
  have hlending : (s.pc i).lending = true := by rw [hpc]; rfl
  have hnil : s.lent = [] := h.lending i hlending
  have hlent : Lent s := .inr ⟨i, hlending⟩
  have hadvance : Sound (s.goto i .idle) :=
    h.advance (fun hp => by simp [Pc.holdsLock] at hp) (fun hp => by simp [Pc.lending] at hp)
      (fun hp => by simp [Pc.resizing] at hp)
  have hnone (j : Fin n) : ((s.goto i .idle).pc j).lending = false :=
    goto_eq_false Pc.lending rfl (fun j hj => h.lending_one j i hj hlending) j
  have hresizing (j : Fin n) : ((s.goto i .idle).pc j).resizing = false :=
    goto_eq_false Pc.resizing rfl (fun j hj => absurd hlent (h.resizing j hj)) j
  exact
    { lock := hadvance.lock
      lock_one := hadvance.lock_one
      marker := fun _ => h.marker hlent
      lending := fun j hj => absurd ((hnone j).symm.trans hj) Bool.false_ne_true
      lending_one := hadvance.lending_one
      lent_le := by simp [hnil]
      resizing := fun j hj => absurd ((hresizing j).symm.trans hj) Bool.false_ne_true
      live := fun slice hs => by simpa [hnil] using hs }

theorem Sound.unmark {s : State n} (h : Sound s) (hfree : ¬ Lent s) {i : Fin n} {size : UInt64}
    (hpc : s.pc i = .reallocUnmark size) :
    Sound ((s.setMarker false).goto i (.reallocResize size)) := by
  have hholds : (s.pc i).holdsLock = true := by rw [hpc]; rfl
  have hh (j : Fin n) (hj : (((s.setMarker false).goto i (.reallocResize size)).pc j).holdsLock
      = true) : (s.pc j).holdsLock = true := of_goto Pc.holdsLock (fun _ => hholds) hj
  have hm (j : Fin n) (hj : (((s.setMarker false).goto i (.reallocResize size)).pc j).lending
      = true) : (s.pc j).lending = true := of_goto Pc.lending (by simp [Pc.lending]) hj
  have hfree' : ¬ Lent ((s.setMarker false).goto i (.reallocResize size)) :=
    fun hl => hfree (hl.imp id fun ⟨j, hj⟩ => ⟨j, hm j hj⟩)
  exact
    { lock := fun j hj => h.lock j (hh j hj)
      lock_one := fun j k hj hk => h.lock_one j k (hh j hj) (hh k hk)
      marker := fun hl => absurd hl hfree'
      lending := fun j hj => h.lending j (hm j hj)
      lending_one := fun j k hj hk => h.lending_one j k (hm j hj) (hm k hk)
      lent_le := h.lent_le
      resizing := fun _ _ => hfree'
      live := h.live }

/-- Past the unlock of the marker nothing is lent, so the new block invalidates no slice. -/
theorem Sound.resize {s : State n} (h : Sound s) {i : Fin n} {size : UInt64} {pc : Pc}
    (hpc : s.pc i = .reallocResize size) (hlock : pc.lending = false) (b : AudiofsBuffer)
    (p : Process) (hb : b.lock = s.buffer.lock) :
    Sound ({ s with buffer := b, process := p }.goto i pc) := by
  have hresizing : (s.pc i).resizing = true := by rw [hpc]; rfl
  have hfree : ¬ Lent s := h.resizing i hresizing
  have hadvance : Sound (s.goto i pc) :=
    h.advance (fun _ => Pc.holdsLock_of_resizing hresizing) (fun hp => by simp [hlock] at hp)
      (fun _ => hresizing)
  have hfree' : ¬ Lent (s.goto i pc) := by
    obtain ⟨hnil, hnone⟩ := (not_lent_iff s).mp hfree
    exact (not_lent_iff _).mpr ⟨hnil, goto_eq_false Pc.lending hlock
      fun j hj => absurd hj (by simp [hnone j])⟩
  exact
    { lock := fun j hj => hb.trans (hadvance.lock j hj)
      lock_one := hadvance.lock_one
      marker := fun hl => absurd hl hfree'
      lending := hadvance.lending
      lending_one := hadvance.lending_one
      lent_le := hadvance.lent_le
      resizing := hadvance.resizing
      live := fun slice hs => by simp [((not_lent_iff s).mp hfree).1, State.goto] at hs }

/-- The only slice that is out comes back, and with it the marker. -/
theorem Sound.release {s : State n} (h : Sound s) {k : ℕ} (hk : k < s.lent.length) :
    Sound { s.setMarker false with lent := s.lent.eraseIdx k } := by
  have hnil : s.lent.eraseIdx k = [] := by
    have hle := h.lent_le
    rw [← List.length_eq_zero_iff, List.length_eraseIdx_of_lt hk]
    omega
  have hnone (j : Fin n) : (s.pc j).lending = false := by
    by_contra hj
    have hempty := h.lending j (by simpa using hj)
    simp [hempty] at hk
  have hlent : Lent s := .inl (List.ne_nil_of_length_pos (Nat.zero_lt_of_lt hk))
  have hfree : ¬ Lent { s.setMarker false with lent := s.lent.eraseIdx k } :=
    (not_lent_iff _).mpr ⟨hnil, hnone⟩
  exact
    { lock := h.lock
      lock_one := h.lock_one
      marker := fun hl => absurd hl hfree
      lending := fun _ _ => hnil
      lending_one := h.lending_one
      lent_le := by simp [hnil]
      resizing := fun j hj => absurd hlent (h.resizing j hj)
      live := fun slice hs => by simp [hnil] at hs }

theorem resizeLocked_lock (c : Platform) (p : Process) (b : AudiofsBuffer) (size : UInt64) :
    (resizeLocked c p b size).2.1.lock = b.lock := rfl

theorem runThread_sound (c : Platform) {s : State n} (h : Sound s) {i : Fin n}
    (hkept : Lent s → (s.pc i).unmarking ≠ true) : Sound (runThread c s i).2 := by
  unfold runThread
  cases hpc : s.pc i with
  | idle => exact h
  | lendLock =>
    simp only
    split_ifs with hlock
    · exact h
    · exact h.acquire (by simpa using hlock) rfl rfl
  | lendMark =>
    simp only
    split_ifs with hmarker
    · exact h
    · exact h.mark hpc (by simpa using hmarker)
  | lendUnlock => exact h.unlock (by rw [hpc]; rfl) rfl (fun _ => by rw [hpc]; rfl) rfl
  | lendSlice => exact h.handOut hpc
  | reallocCheck size =>
    simp only
    split_ifs
    · exact h.advance (by simp [Pc.holdsLock]) (by simp [Pc.lending]) (by simp [Pc.resizing])
    · exact h.advance (by simp [Pc.holdsLock]) (by simp [Pc.lending]) (by simp [Pc.resizing])
  | reallocLock size =>
    simp only
    split_ifs with hlock
    · exact h
    · exact h.acquire (by simpa using hlock) rfl rfl
  | reallocUnmark size => exact h.unmark (fun hl => hkept hl (by rw [hpc]; rfl)) hpc
  | reallocResize size => exact h.resize hpc rfl _ _ (resizeLocked_lock c s.process s.buffer size)
  | reallocReturn resized => exact h.unlock (by rw [hpc]; rfl) rfl (by simp [Pc.lending]) rfl

theorem step_sound (c : Platform) {s : State n} (h : Sound s) (a : Act n)
    (hkept : ¬ UnmarksLent (transition (step c) s a)) : Sound (step c s a).2 := by
  cases a with
  | lend i =>
    simp only [step]
    split_ifs
    · exact h.advance (by simp [Pc.holdsLock]) (by simp [Pc.lending]) (by simp [Pc.resizing])
    · exact h
  | realloc i size =>
    simp only [step]
    split_ifs
    · exact h.advance (by simp [Pc.holdsLock]) (by simp [Pc.lending]) (by simp [Pc.resizing])
    · exact h
  | run i => exact runThread_sound c h fun hl hpc => hkept ⟨hl, i, rfl, hpc⟩
  | release k =>
    simp only [step]
    split_ifs with hk
    · exact h.release hk
    · exact h

theorem run_refused (c : Platform) {s : State n} (h : Sound s) (hl : Lent s) {i : Fin n}
    (hpc : (s.pc i).reallocating = true)
    (hkept : ¬ UnmarksLent (transition (step c) s (.run i))) :
    Refused (transition (step c) s (.run i)) := by
  cases hi : s.pc i with
  | reallocCheck size =>
    have hstep : step c s (.run i) = runThread c s i := rfl
    unfold transition
    rw [hstep]
    simp only [runThread, hi]
    split_ifs <;> exact ⟨rfl, rfl, rfl, by simp⟩
  | reallocLock size =>
    have hstep : step c s (.run i) = runThread c s i := rfl
    unfold transition
    rw [hstep]
    simp only [runThread, hi]
    split_ifs <;> exact ⟨rfl, rfl, rfl, by simp⟩
  | reallocUnmark size => exact absurd ⟨hl, i, rfl, congrArg Pc.unmarking hi⟩ hkept
  | reallocResize size => exact absurd hl (h.resizing i (by rw [hi]; rfl))
  | reallocReturn resized => exact absurd hl (h.resizing i (by rw [hi]; rfl))
  | idle | lendLock | lendMark | lendUnlock | lendSlice => simp [hi, Pc.reallocating] at hpc

theorem pinned_iff_of_sound (c : Platform) {s : State n} (h : Sound s) (a : Act n) :
    Pinned (transition (step c) s a) ↔ ¬ UnmarksLent (transition (step c) s a) := by
  constructor
  · intro hp hunmarks
    obtain ⟨hl, i, hrun, hpc⟩ := hunmarks
    obtain ⟨size, hpc'⟩ : ∃ size, s.pc i = .reallocUnmark size := Pc.eq_of_unmarking hpc
    have hkept : (transition (step c) s a).after.buffer.usedOutsideAudiofs
        = (transition (step c) s a).before.buffer.usedOutsideAudiofs :=
      (hp.refused hl i hrun (by change (s.pc i).reallocating = true; rw [hpc']; rfl)).marker
    obtain rfl : a = .run i := hrun
    have hafter : (step c s (.run i)).2.buffer.usedOutsideAudiofs = false := by
      simp [step, runThread, hpc', State.setMarker]
    have hbefore : s.buffer.usedOutsideAudiofs = true := h.marker hl
    exact absurd (hafter.symm.trans (hkept.trans hbefore)) Bool.false_ne_true
  · intro hkept
    refine ⟨fun hl i hrun hpc => ?_, (step_sound c h a hkept).live⟩
    obtain rfl : a = .run i := hrun
    exact run_refused c h hl hpc hkept

theorem audiofsBufferRealloc_unlocked (c : Platform) (p : Process) {b : AudiofsBuffer}
    (hok : audiofsBufferOk b = true) (size : UInt64) :
    (audiofsBufferRealloc c p b size).2.1.lock = false ∧
      (audiofsBufferRealloc c p b size).2.1.usedOutsideAudiofs = false := by
  have hemergency : (emergencyAlloc c p b.unchanged).1.lock = false ∧
      (emergencyAlloc c p b.unchanged).1.usedOutsideAudiofs = false := by
    unfold emergencyAlloc
    split_ifs <;> exact ⟨rfl, rfl⟩
  rw [audiofsBufferRealloc_exits]
  dsimp only
  rw [if_neg (ne_false_of_eq_true hok)]
  split_ifs
  · exact ⟨rfl, rfl⟩
  · exact hemergency
  · exact ⟨rfl, rfl⟩
  · exact ⟨rfl, rfl⟩

theorem eq_of_unlocked {b : AudiofsBuffer} (hlock : b.lock = false)
    (hmarker : b.usedOutsideAudiofs = false) :
    { b with lock := false, usedOutsideAudiofs := false } = b := by
  cases b
  simp_all

theorem audiofsBufferRealloc_locked (c : Platform) (p : Process) {b : AudiofsBuffer}
    (hok : audiofsBufferOk b = true) (size : UInt64) (lock marker : Bool) :
    audiofsBufferRealloc c p { b with lock := lock, usedOutsideAudiofs := marker } size =
      audiofsBufferRealloc c p b size := by
  have hok' : audiofsBufferOk { b with lock := lock, usedOutsideAudiofs := marker } = true := hok
  simp only [audiofsBufferRealloc, hok, hok', Bool.not_true, Bool.false_eq_true, ↓reduceIte]

/-- A resize that nobody interrupts is `audiofs_buffer_realloc`. -/
theorem uninterrupted_realloc (c : Platform) {s : State n} {i : Fin n} (hidle : s.pc i = .idle)
    (hlock : s.buffer.lock = false) (hok : audiofsBufferOk s.buffer = true) (size : UInt64) :
    let r := audiofsBufferRealloc c s.process s.buffer size
    (trace (step c) s (.realloc i size :: List.replicate 5 (.run i))).map Transition.output =
        [none, none, none, none, none, some r.1] ∧
      final (step c) s (.realloc i size :: List.replicate 5 (.run i)) =
        { s with buffer := r.2.1, process := r.2.2 } := by
  intro r
  have hunlocked := audiofsBufferRealloc_unlocked c s.process hok size
  have hlocked := audiofsBufferRealloc_locked c s.process hok size true false
  have heq : { r.2.1 with lock := false, usedOutsideAudiofs := false } = r.2.1 :=
    eq_of_unlocked hunlocked.1 hunlocked.2
  constructor
  · simp [step, hidle, runThread, hlock, hok, State.setLock, State.setMarker, State.goto,
      transition, resizeLocked, List.replicate, hlocked, r]
  · simpa [step, hidle, runThread, hlock, hok, State.setLock, State.setMarker, State.goto,
      resizeLocked, List.replicate, hlocked, r] using heq

/-- The two calls keep a lent buffer pinned in exactly the interleavings in which no resize gets
as far as unlocking the marker while the buffer is lent. -/
theorem pinned_iff (c : Platform) {s : State n} (h : Fresh s) (acts : List (Act n)) :
    (∀ t ∈ trace (step c) s acts, Pinned t) ↔ ∀ t ∈ trace (step c) s acts, ¬ UnmarksLent t :=
  trace_forall_congr_while (C := fun t => ¬ UnmarksLent t) (fun _ a hs => step_sound c hs a)
    (fun _ a hs => pinned_iff_of_sound c hs a) h.sound acts

def fourBytes : State 2 where
  buffer := { addr := 0, cookie := contextMagicA, data := some ⟨1, [1, 2, 3, 4]⟩, len := 4,
              lock := false, self := 0, usedOutsideAudiofs := false }
  process := { Process.start with calls := 2, live := [1, 0] }
  pc := fun _ => .idle
  lent := []

theorem fourBytes_fresh : Fresh fourBytes := ⟨fun _ => rfl, rfl, rfl, rfl⟩

/-- One thread lends the buffer and Go gives it back before the other resizes it. -/
def releasedFirst : List (Act 2) :=
  .lend 0 :: List.replicate 4 (.run 0) ++
    .release 0 :: .realloc 1 8 :: List.replicate 5 (.run 1)

theorem releasedFirst_pinned :
    Fresh fourBytes ∧ ∀ t ∈ trace (step Platform.generous) fourBytes releasedFirst, Pinned t :=
  ⟨fourBytes_fresh,
    (pinned_iff Platform.generous fourBytes_fresh releasedFirst).mpr (by decide +kernel)⟩

/-- The slice is still out while the other thread resizes the buffer, successfully. -/
def neverReleased : List (Act 2) :=
  .lend 0 :: List.replicate 4 (.run 0) ++ .realloc 1 8 :: List.replicate 5 (.run 1)

theorem resize_of_lent_buffer_succeeds :
    ¬ ∀ t ∈ trace (step Platform.generous) fourBytes neverReleased, Pinned t := by
  intro h
  have hrefused : ∀ t ∈ trace (step Platform.generous) fourBytes neverReleased, Lent t.before →
      ∀ i, t.input = .run i → (t.before.pc i).reallocating = true → t.output ≠ some true :=
    fun t ht hl i hi hp => ((h t ht).refused hl i hi hp).ret
  exact absurd hrefused (by decide +kernel)

end AudioFS.BufferLoans
