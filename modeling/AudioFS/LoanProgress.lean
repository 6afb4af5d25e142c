import AudioFS.BufferLoans
import AudioFS.Mutex

/-!
# When a lent buffer locks its callers out

`COnwedByteSliceFromAudioFSBuffer` waits for the marker while it holds
`buffer->lock`. Every other wait of the two calls is for that lock, so a thread
inside it gets out by itself unless it waits for the marker of a buffer that is
lent already; then nothing but Go giving the slice back lets anyone on.
-/

namespace AudioFS.BufferLoans
open AudioFS.Buffer StepMachine Mutex

variable {n : ℕ}

def Stuck (s : State n) (i : Fin n) : Prop :=
  s.pc i = .lendMark ∧ s.buffer.usedOutsideAudiofs = true

instance (s : State n) (i : Fin n) : Decidable (Stuck s i) := inferInstanceAs (Decidable (_ ∧ _))

/-- The statements a thread inside the lock still executes before it gives it back. -/
def Pc.left : Pc → ℕ
  | .reallocUnmark _ => 3
  | .lendMark | .reallocResize _ => 2
  | .lendUnlock | .reallocReturn _ => 1
  | .idle | .lendLock | .lendSlice | .reallocCheck _ | .reallocLock _ => 0

abbrev Locked (s : State n) : Prop := Guarded Pc.holdsLock s.pc s.buffer.lock

theorem Fresh.locked {s : State n} (h : Fresh s) : Locked s := by
  unfold Locked
  rw [h.lock]
  exact Guarded.idle fun i => by rw [h.idle i]; rfl

theorem runThread_locked (c : Platform) {s : State n} (h : Locked s) (i : Fin n) :
    Locked (runThread c s i).2 := by
  have hfree (hlock : ¬ s.buffer.lock = true) : Guarded Pc.holdsLock s.pc false := by
    rw [← Bool.eq_false_of_not_eq_true hlock]
    exact h
  unfold runThread
  cases hpc : s.pc i with
  | idle => exact h
  | lendLock =>
    simp only
    split_ifs with hlock
    · exact h
    · exact (hfree hlock).acquire rfl
  | lendMark =>
    simp only
    split_ifs
    · exact h
    · exact h.advance (by rw [hpc]; rfl)
  | lendUnlock => exact h.release (by rw [hpc]; rfl) rfl
  | lendSlice => exact h.advance (by rw [hpc]; rfl)
  | reallocCheck size =>
    simp only
    split_ifs
    · exact h.advance (by rw [hpc]; rfl)
    · exact h.advance (by rw [hpc]; rfl)
  | reallocLock size =>
    simp only
    split_ifs with hlock
    · exact h
    · exact (hfree hlock).acquire rfl
  | reallocUnmark size => exact h.advance (by rw [hpc]; rfl)
  | reallocResize size => exact h.advance (by rw [hpc]; rfl)
  | reallocReturn resized => exact h.release (by rw [hpc]; rfl) rfl

theorem step_locked (c : Platform) {s : State n} (h : Locked s) (a : Act n) :
    Locked (step c s a).2 := by
  cases a with
  | lend i =>
    simp only [step]
    split_ifs with hidle
    · exact h.advance (by rw [hidle]; rfl)
    · exact h
  | realloc i size =>
    simp only [step]
    split_ifs with hidle
    · exact h.advance (by rw [hidle]; rfl)
    · exact h
  | run i => exact runThread_locked c h i
  | release k =>
    simp only [step]
    split_ifs
    · exact h
    · exact h

/-- What a step of the others may do while a thread is inside the lock. -/
structure Bystander (s s' : State n) (i : Fin n) (released : Prop) : Prop where
  pc : s'.pc i = s.pc i
  process : s'.process = s.process
  buffer : s'.buffer = s.buffer ∨
    released ∧ s'.buffer = { s.buffer with usedOutsideAudiofs := false }

theorem Bystander.goto {s : State n} {i j : Fin n} (hij : i ≠ j) (q : Pc) (released : Prop) :
    Bystander s (s.goto j q) i released := ⟨by simp [hij], rfl, .inl rfl⟩

theorem Bystander.refl (s : State n) (i : Fin n) (released : Prop) :
    Bystander s s i released := ⟨rfl, rfl, .inl rfl⟩

theorem runThread_bystander (c : Platform) {s : State n} {i j : Fin n} (hij : i ≠ j)
    (hlock : s.buffer.lock = true) (hj : (s.pc j).holdsLock = false) :
    Bystander s (runThread c s j).2 i False ∧ (runThread c s j).1 ≠ some true := by
  unfold runThread
  cases hpc : s.pc j with
  | idle => exact ⟨.refl s i False, by simp⟩
  | lendLock =>
    simp only [hlock, if_true]
    exact ⟨.refl s i False, by simp⟩
  | lendSlice => exact ⟨⟨by simp [hij], rfl, .inl rfl⟩, by simp⟩
  | reallocCheck size =>
    simp only
    split_ifs
    · exact ⟨.goto hij _ False, by simp⟩
    · exact ⟨.goto hij _ False, by simp⟩
  | reallocLock size =>
    simp only [hlock, if_true]
    exact ⟨.refl s i False, by simp⟩
  | lendMark | lendUnlock | reallocUnmark | reallocResize | reallocReturn =>
    simp [hpc, Pc.holdsLock] at hj

theorem step_bystander (c : Platform) {s : State n} (h : Locked s) {i : Fin n}
    (hi : (s.pc i).holdsLock = true) {a : Act n} (ha : a ≠ .run i) :
    Bystander s (step c s a).2 i (∃ k, a = .release k) ∧ (step c s a).1 ≠ some true := by
  have hbusy : ∀ j, s.pc j = .idle → i ≠ j := by
    rintro j hj rfl
    simp [hj, Pc.holdsLock] at hi
  cases a with
  | lend j =>
    simp only [step]
    split_ifs with hidle
    · exact ⟨.goto (hbusy j hidle) _ _, by simp⟩
    · exact ⟨.refl s i _, by simp⟩
  | realloc j size =>
    simp only [step]
    split_ifs with hidle
    · exact ⟨.goto (hbusy j hidle) _ _, by simp⟩
    · exact ⟨.refl s i _, by simp⟩
  | run j =>
    have hij : i ≠ j := fun heq => ha (congrArg Act.run heq.symm)
    have hj : (s.pc j).holdsLock = false := by
      by_contra hj
      exact hij (h.one i j hi (by simpa using hj))
    have hrun := runThread_bystander c hij (h.taken_of_holds hi) hj
    exact ⟨⟨hrun.1.pc, hrun.1.process, .inl (hrun.1.buffer.resolve_right (fun hf => hf.1))⟩, hrun.2⟩
  | release k =>
    simp only [step]
    split_ifs
    · exact ⟨⟨rfl, rfl, .inr ⟨⟨k, rfl⟩, rfl⟩⟩, by simp⟩
    · exact ⟨.refl s i _, by simp⟩

/-- The thread inside the lock, unless it is stuck, gives it back or gets one statement closer. -/
theorem runThread_left (c : Platform) {s : State n} {i : Fin n} (hi : (s.pc i).holdsLock = true)
    (hfree : ¬ Stuck s i) :
    (runThread c s i).2.buffer.lock = false ∨
      (((runThread c s i).2.pc i).holdsLock = true ∧ ¬ Stuck (runThread c s i).2 i ∧
        ((runThread c s i).2.pc i).left < (s.pc i).left) := by
  unfold runThread
  cases hpc : s.pc i with
  | lendMark =>
    have hmarker : s.buffer.usedOutsideAudiofs = false := by
      by_contra hm
      exact hfree ⟨hpc, by simpa using hm⟩
    right
    simp [hmarker, Pc.holdsLock, Stuck, Pc.left]
  | lendUnlock => exact .inl rfl
  | reallocUnmark size => right; simp [Pc.holdsLock, Stuck, Pc.left]
  | reallocResize size => right; simp [Pc.holdsLock, Stuck, Pc.left]
  | reallocReturn resized => exact .inl rfl
  | idle | lendLock | lendSlice | reallocCheck | reallocLock => simp [hpc, Pc.holdsLock] at hi

theorem Bystander.not_stuck {s s' : State n} {i : Fin n} {released : Prop}
    (h : Bystander s s' i released) (hfree : ¬ Stuck s i) : ¬ Stuck s' i := by
  rintro ⟨hpc, hmarker⟩
  rcases h.buffer with hb | ⟨-, hb⟩
  · exact hfree ⟨h.pc ▸ hpc, hb ▸ hmarker⟩
  · simp [hb] at hmarker

theorem lock_freed (c : Platform) (i : Fin n) (acts : List (Act n)) {s : State n} (h : Locked s)
    (hi : (s.pc i).holdsLock = true) (hfree : ¬ Stuck s i)
    (hcount : (s.pc i).left ≤ acts.count (.run i)) :
    ∃ js, js <+: acts ∧ (final (step c) s js).buffer.lock = false := by
  induction acts generalizing s with
  | nil =>
    have hleft : 0 < (s.pc i).left := by
      cases hpc : s.pc i with
      | lendMark | lendUnlock | reallocUnmark | reallocResize | reallocReturn => simp [Pc.left]
      | idle | lendLock | lendSlice | reallocCheck | reallocLock => simp [hpc, Pc.holdsLock] at hi
    rw [List.count_nil] at hcount
    omega
  | cons a acts ih =>
    by_cases ha : a = .run i
    · subst ha
      rcases runThread_left c hi hfree with hunlocked | ⟨hi', hfree', hless⟩
      · exact ⟨[.run i], ⟨acts, rfl⟩, hunlocked⟩
      · rw [List.count_cons_self] at hcount
        obtain ⟨js, hjs, hlock⟩ := ih (step_locked c h (.run i)) hi' hfree' (by
          change ((runThread c s i).2.pc i).left ≤ _
          omega)
        exact ⟨.run i :: js, List.cons_prefix_cons.mpr ⟨rfl, hjs⟩, hlock⟩
    · have hby := (step_bystander c h hi ha).1
      rw [List.count_cons_of_ne ha] at hcount
      obtain ⟨js, hjs, hlock⟩ := ih (step_locked c h a) (by rw [hby.pc]; exact hi)
        (hby.not_stuck hfree) (by rw [hby.pc]; exact hcount)
      exact ⟨a :: js, List.cons_prefix_cons.mpr ⟨rfl, hjs⟩, hlock⟩

/-- What a step with a thread stuck inside the lock leaves as it was. -/
structure LockedOut (b : AudiofsBuffer) (p : Process) (i : Fin n) (t : LoanStep n) : Prop where
  buffer : t.after.buffer = b
  process : t.after.process = p
  waiting : t.after.pc i = .lendMark
  ret : t.output ≠ some true

theorem step_lockedOut (c : Platform) {s : State n} (h : Locked s) {i : Fin n} (hstuck : Stuck s i)
    {a : Act n} (ha : ∀ k, a ≠ .release k) :
    LockedOut s.buffer s.process i (transition (step c) s a) := by
  have hi : (s.pc i).holdsLock = true := by rw [hstuck.1]; rfl
  by_cases hrun : a = .run i
  · have hsame : runThread c s i = (none, s) := by
      simp only [runThread, hstuck.1, hstuck.2, if_true]
    have hstep : step c s a = (none, s) := by rw [hrun]; exact hsame
    have htransition : transition (step c) s a = ⟨s, a, none, s⟩ := by
      rw [transition, hstep]
    rw [htransition]
    exact ⟨rfl, rfl, hstuck.1, by simp⟩
  · obtain ⟨hby, hret⟩ := step_bystander c h hi hrun
    refine ⟨hby.buffer.resolve_right ?_, hby.process, hby.pc.trans hstuck.1, hret⟩
    rintro ⟨⟨k, hk⟩, -⟩
    exact ha k hk

theorem run_lockedOut (c : Platform) {i : Fin n} (acts : List (Act n)) {s : State n}
    (h : Locked s) (hstuck : Stuck s i) (ha : ∀ k, .release k ∉ acts) :
    ∀ t ∈ trace (step c) s acts, LockedOut s.buffer s.process i t := by
  induction acts generalizing s with
  | nil => simp
  | cons a acts ih =>
    have hfirst := step_lockedOut c h hstuck (a := a) fun k hk => ha k (by simp [hk])
    have hbuffer : (step c s a).2.buffer = s.buffer := hfirst.buffer
    have hprocess : (step c s a).2.process = s.process := hfirst.process
    have hrest := ih (step_locked c h a) ⟨hfirst.waiting, by rw [hbuffer]; exact hstuck.2⟩
      (fun k hk => ha k (by simp [hk]))
    rw [hbuffer, hprocess] at hrest
    intro t ht
    rcases List.mem_cons.mp ht with rfl | ht
    · exact hfirst
    · exact hrest t ht

/-- In every state the two calls reach with the lock taken, exactly one thread is inside it. If it
does not wait for the marker of a lent buffer, the lock is free again by the time that thread was
scheduled three times, whatever the others do. If it does, then until Go gives the slice back
nobody gets in or out: the buffer and the heap stay as they are and no resize succeeds. -/
theorem lock_progress (c : Platform) {s₀ : State n} (h : Fresh s₀) (before : List (Act n))
    (hlock : (final (step c) s₀ before).buffer.lock = true) :
    let s := final (step c) s₀ before
    ∃ i, (∀ j, (s.pc j).holdsLock = true ↔ j = i) ∧
      (¬ Stuck s i → ∀ acts : List (Act n), 3 ≤ acts.count (.run i) →
        ∃ js, js <+: acts ∧ (final (step c) s js).buffer.lock = false) ∧
      (Stuck s i → ∀ acts : List (Act n), (∀ k, .release k ∉ acts) →
        ∀ t ∈ trace (step c) s acts, LockedOut s.buffer s.process i t) := by
  intro s
  have hlocked : Locked s := final_invariant (P := Locked) (A := fun _ => True)
    (fun _ a _ hs => step_locked c hs a) h.locked before (fun _ _ => trivial)
  obtain ⟨i, hi⟩ := hlocked.taken_iff.mp hlock
  refine ⟨i, fun j => ⟨fun hj => hlocked.one j i hj hi, fun hj => hj ▸ hi⟩, ?_, ?_⟩
  · intro hfree acts hcount
    have hleft : (s.pc i).left ≤ 3 := by
      cases s.pc i <;> simp [Pc.left]
    exact lock_freed c i acts hlocked hi hfree (hleft.trans hcount)
  · intro hstuck acts ha
    exact run_lockedOut c acts hlocked hstuck ha

def lender : Fin 2 := ⟨0, Nat.two_pos⟩

def latecomer : Fin 2 := ⟨1, Nat.one_lt_two⟩

/-- The buffer is lent and lent again before it came back. -/
def lentTwice : List (Act 2) :=
  .lend lender :: List.replicate 4 (.run lender) ++ [.lend latecomer, .run latecomer]

theorem lentTwice_locked_out :
    ∃ i, (∀ j, (((final (step Platform.generous) fourBytes lentTwice).pc j).holdsLock = true ↔
        j = i)) ∧
      (¬ Stuck (final (step Platform.generous) fourBytes lentTwice) i →
        ∀ acts : List (Act 2), 3 ≤ acts.count (.run i) → ∃ js, js <+: acts ∧
          (final (step Platform.generous) (final (step Platform.generous) fourBytes lentTwice)
            js).buffer.lock = false) ∧
      (Stuck (final (step Platform.generous) fourBytes lentTwice) i →
        ∀ acts : List (Act 2), (∀ k, .release k ∉ acts) →
          ∀ t ∈ trace (step Platform.generous)
              (final (step Platform.generous) fourBytes lentTwice) acts,
            LockedOut (final (step Platform.generous) fourBytes lentTwice).buffer
              (final (step Platform.generous) fourBytes lentTwice).process i t) :=
  lock_progress Platform.generous fourBytes_fresh lentTwice (by decide +kernel)

example : Stuck (final (step Platform.generous) fourBytes lentTwice) 1 := by decide +kernel

end AudioFS.BufferLoans
