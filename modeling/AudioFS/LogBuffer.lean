import AudioFS.Ledger
import AudioFS.Mutex
import AudioFS.StepMachine
import Mathlib.Algebra.BigOperators.Fin

/-!
# The log buffer

The C code has one buffer for the text of every message it hands to Go, guarded
by `go_log_mutex`. Any number of threads expand `audiofs_log` at once. A step is
one statement of a thread: the test of the level, which takes no mutex, an
operation on the mutex, or one use of the buffer inside it.
-/

namespace AudioFS.LogBuffer
open StepMachine Mutex

/-- The arguments of `audiofs_log` after formatting. A text whose length does not fit an `int` is
refused by `snprintf` itself. -/
structure Message where
  level : Int32
  function : List UInt8
  file : List UInt8
  line : Int32
  text : List UInt8
  fits : text.length + 1 < 2 ^ 31
  deriving DecidableEq

def Message.size (m : Message) : UInt64 := UInt64.ofNat (m.text.length + 1)

inductive LogrusLevel
  | error
  | warn
  | info
  | debug
  | trace
  deriving DecidableEq

structure Entry where
  level : LogrusLevel
  function : List UInt8
  file : List UInt8
  line : Int32
  text : List UInt8
  deriving DecidableEq

/-- The `switch` of `go_print`; a level it has no case for is not printed. -/
def logrusLevel (level : Int32) : Option LogrusLevel :=
  -- don't respect panic and fatal levels
  if level = 0 ∨ level = 1 ∨ level = 2 then some .error
  else if level = 3 then some .warn
  else if level = 4 then some .info
  else if level = 5 then some .debug
  else if level = 6 then some .trace
  else none

def goPrint (level : Int32) (function file : List UInt8) (line : Int32) (cstr : List UInt8) :
    Option Entry := (logrusLevel level).map fun l => ⟨l, function, file, line, cstr⟩

/-- At the formatting a thread has made a call on the allocator, known by its number. -/
inductive Pc
  | idle
  | testLevel (m : Message)
  | lock (m : Message)
  | allocate (m : Message)
  | format (m : Message) (call : ℕ)
  | print (m : Message)
  | unlock
  deriving DecidableEq

def Pc.holdsMutex : Pc → Bool
  | .allocate _ | .format _ _ | .print _ | .unlock => true
  | _ => false

/-- The message a thread has not answered for yet. -/
def Pc.message : Pc → List Message
  | .testLevel m | .lock m | .allocate m | .format m _ | .print m => [m]
  | .idle | .unlock => []

/-- What became of a message: it was above the level that was read, there was no memory for it, or
it was handed to `go_print`. A dropped one names the call on the allocator made for it. -/
inductive Report
  | filtered (level : Int32)
  | dropped (call : ℕ)
  | printed (entry : Option Entry)
  deriving DecidableEq

structure State (n : ℕ) where
  goLogLevel : Int32
  goLogMutex : Bool
  goLogBuffer : Option Block
  goLogBufferLen : Int32
  process : Process
  pc : Fin n → Pc

inductive Act (n : ℕ)
  | log (i : Fin n) (m : Message)
  | levelSet (level : Int32)
  | run (i : Fin n)
  deriving DecidableEq

variable {n : ℕ}

def State.goto (s : State n) (i : Fin n) (pc : Pc) : State n :=
  { s with pc := Function.update s.pc i pc }

/-- `malloc` for the first message; after that `realloc`, when the recorded length is too small.
Nothing ever assigns that length. -/
def allocateBuffer (c : Platform) (s : State n) (m : Message) : Option Block × Process :=
  match s.goLogBuffer with
  | none => s.process.realloc c none m.size
  | some b =>
    if s.goLogBufferLen.toInt < m.text.length + 1 then s.process.realloc c (some b) m.size
    else (some b, s.process)

def runThread (c : Platform) (s : State n) (i : Fin n) : Option Report × State n :=
  match s.pc i with
  | .idle => (none, s)
  | .testLevel m =>
    if m.level ≤ s.goLogLevel then (none, s.goto i (.lock m))
    else (some (.filtered s.goLogLevel), s.goto i .idle)
  | .lock m =>
    if s.goLogMutex then (none, s) else (none, { s with goLogMutex := true }.goto i (.allocate m))
  | .allocate m =>
    let r := allocateBuffer c s m
    (none, { s with goLogBuffer := r.1, process := r.2 }.goto i (.format m s.process.calls))
  | .format m call =>
    match s.goLogBuffer with
    | none => (some (.dropped call), s.goto i .unlock)
    | some b =>
      let r := s.process.copyIn b.bytes (m.text ++ [0])
      (none, { s with goLogBuffer := some { b with bytes := r.1 }, process := r.2 }.goto i
        (.print m))
  | .print m =>
    let r := s.process.copyOut (Process.oldBytes s.goLogBuffer) m.text.length
    (some (.printed (goPrint m.level m.function m.file m.line r.1)),
      { s with process := r.2 }.goto i .unlock)
  | .unlock => (none, { s with goLogMutex := false }.goto i .idle)

def step (c : Platform) (s : State n) : Act n → Option Report × State n
  | .log i m => (none, if s.pc i = .idle then s.goto i (.testLevel m) else s)
  | .levelSet level => (none, { s with goLogLevel := level })
  | .run i => runThread c s i

abbrev LogStep (n : ℕ) := Transition (State n) (Act n) (Option Report)

/-- The message thread `i` starts to log with this step. -/
def called (i : Fin n) (t : LogStep n) : List Message :=
  match t.input with
  | .log j m => if j = i ∧ t.before.pc j = .idle then [m] else []
  | _ => []

def reported (i : Fin n) (t : LogStep n) : List Report :=
  match t.input with
  | .run j => if j = i then t.output.toList else []
  | _ => []

/-- What may become of a message: only a level below its own filters it, only a refusal of the
allocation made for it drops it, and what is printed is its own text. -/
def Answers (c : Platform) (m : Message) : Report → Prop
  | .filtered level => level < m.level
  | .dropped call => c.grants call m.size = false
  | .printed entry => entry = goPrint m.level m.function m.file m.line m.text

structure Fresh (s : State n) : Prop where
  idle : ∀ i, s.pc i = .idle
  mutex : s.goLogMutex = false
  buffer : s.goLogBuffer = none
  len : s.goLogBufferLen = 0

/-- What a thread relies on at the statement it is about to execute. -/
def Ready (c : Platform) (buffer : Option Block) : Pc → Prop
  | .format m call => (buffer = none ∧ c.grants call m.size = false) ∨
      ∃ b, buffer = some b ∧ b.bytes.length = m.text.length + 1
  | .print m => ∃ b, buffer = some b ∧ b.bytes = m.text ++ [0]
  | _ => True

structure Sound (c : Platform) (s : State n) : Prop where
  guarded : Guarded Pc.holdsMutex s.pc s.goLogMutex
  len : s.goLogBufferLen = 0
  ready : ∀ i, Ready c s.goLogBuffer (s.pc i)

@[simp] theorem goto_pc (s : State n) (i : Fin n) (pc : Pc) (j : Fin n) :
    (s.goto i pc).pc j = if j = i then pc else s.pc j := Function.update_apply _ _ _ _

theorem Message.toNat_size (m : Message) : m.size.toNat = m.text.length + 1 := by
  have h := m.fits
  rw [Message.size, UInt64.toNat_ofNat']
  omega

theorem ready_of_outside {c : Platform} {pc : Pc} (h : pc.holdsMutex = false)
    (buffer : Option Block) : Ready c buffer pc := by
  cases pc with
  | format | print => simp [Pc.holdsMutex] at h
  | _ => trivial

theorem Fresh.sound (c : Platform) {s : State n} (h : Fresh s) : Sound c s where
  guarded := by
    rw [h.mutex]
    exact Guarded.idle fun i => by rw [h.idle i]; rfl
  len := h.len
  ready i := by rw [h.idle i]; trivial

/-- The buffer may change under a thread that holds the mutex: no other thread relies on it. -/
theorem Sound.inside {c : Platform} {s : State n} (h : Sound c s) {i : Fin n} {q : Pc}
    (hi : (s.pc i).holdsMutex = true) (hq : q.holdsMutex = true) (buffer : Option Block)
    (p : Process) (hready : Ready c buffer q) :
    Sound c ({ s with goLogBuffer := buffer, process := p }.goto i q) where
  guarded := h.guarded.advance (hq.trans hi.symm)
  len := h.len
  ready j := by
    rw [goto_pc]
    split_ifs with hji
    · exact hready
    · apply ready_of_outside
      by_contra hj
      exact hji (h.guarded.one j i (by simpa using hj) hi)

theorem Sound.outside {c : Platform} {s : State n} (h : Sound c s) {i : Fin n} {q : Pc}
    (hi : (s.pc i).holdsMutex = false) (hq : q.holdsMutex = false) : Sound c (s.goto i q) where
  guarded := h.guarded.advance (hq.trans hi.symm)
  len := h.len
  ready j := by
    rw [goto_pc]
    split_ifs
    · exact ready_of_outside hq _
    · exact h.ready j

theorem Sound.cross {c : Platform} {s : State n} (h : Sound c s) {i : Fin n} {q : Pc} {held : Bool}
    (hguarded : Guarded Pc.holdsMutex (Function.update s.pc i q) held)
    (hready : Ready c s.goLogBuffer q) : Sound c ({ s with goLogMutex := held }.goto i q) where
  guarded := hguarded
  len := h.len
  ready j := by
    rw [goto_pc]
    split_ifs
    · exact hready
    · exact h.ready j

/-- The recorded length stays zero, so no message ever reuses the buffer of the one before. -/
theorem allocateBuffer_eq (c : Platform) {s : State n} (hlen : s.goLogBufferLen = 0)
    (m : Message) : allocateBuffer c s m = s.process.realloc c s.goLogBuffer m.size := by
  unfold allocateBuffer
  cases hb : s.goLogBuffer with
  | none => rfl
  | some b =>
    have hgrow : s.goLogBufferLen.toInt < m.text.length + 1 := by
      rw [hlen, Int32.toInt_zero]
      omega
    simp only [hgrow, if_true]

/-- What an allocation leaves to the formatting: a block of the right size, or none and a reason. -/
theorem allocateBuffer_ready (c : Platform) {s : State n} (hlen : s.goLogBufferLen = 0)
    (m : Message) : Ready c (allocateBuffer c s m).1 (.format m s.process.calls) := by
  rw [allocateBuffer_eq c hlen]
  unfold Process.realloc
  split_ifs with hg
  · exact Or.inr ⟨_, rfl, by rw [Process.length_reallocated, m.toNat_size]⟩
  · exact Or.inl ⟨rfl, by simpa using hg⟩

theorem copyIn_exact (p : Process) {bytes text : List UInt8}
    (h : bytes.length = text.length + 1) :
    p.copyIn bytes (text ++ [0]) = (text ++ [0], p) := by
  have hlen : (text ++ [0]).length = bytes.length := by simp [h]
  rw [Process.copyIn, if_pos (le_of_eq hlen), hlen, List.drop_length, List.append_nil]

theorem copyOut_text (p : Process) (text : List UInt8) :
    p.copyOut (text ++ [0]) text.length = (text, p) := by
  rw [Process.copyOut, List.take_left, if_pos (by simp)]

theorem runThread_sound (c : Platform) {s : State n} (h : Sound c s) (i : Fin n) :
    Sound c (runThread c s i).2 := by
  unfold runThread
  cases hpc : s.pc i with
  | idle => exact h
  | testLevel m =>
    simp only
    split_ifs
    · exact h.outside (by rw [hpc]; rfl) rfl
    · exact h.outside (by rw [hpc]; rfl) rfl
  | lock m =>
    simp only
    split_ifs with hmutex
    · exact h
    · have hfree : Guarded Pc.holdsMutex s.pc false := by
        rw [← Bool.eq_false_of_not_eq_true hmutex]
        exact h.guarded
      exact h.cross (hfree.acquire rfl) trivial
  | allocate m => exact h.inside (by rw [hpc]; rfl) rfl _ _ (allocateBuffer_ready c h.len m)
  | format m call =>
    have hready := h.ready i
    rw [hpc] at hready
    rcases hready with ⟨hnone, -⟩ | ⟨b, hsome, hlength⟩
    · simp only [hnone]
      exact h.inside (by rw [hpc]; rfl) rfl _ s.process trivial
    · simp only [hsome]
      exact h.inside (by rw [hpc]; rfl) rfl _ _ ⟨_, rfl, by rw [copyIn_exact _ hlength]⟩
  | print m => exact h.inside (by rw [hpc]; rfl) rfl s.goLogBuffer _ trivial
  | unlock =>
    exact h.cross (h.guarded.release (by rw [hpc]; rfl) rfl) trivial

theorem step_sound (c : Platform) {s : State n} (h : Sound c s) (a : Act n) :
    Sound c (step c s a).2 := by
  cases a with
  | log i m =>
    simp only [step]
    split_ifs with hidle
    · exact h.outside (by rw [hidle]; rfl) rfl
    · exact h
  | levelSet level => exact ⟨h.guarded, h.len, h.ready⟩
  | run i => exact runThread_sound c h i

theorem runThread_pc_of_ne (c : Platform) (s : State n) {i j : Fin n} (hij : i ≠ j) :
    (runThread c s j).2.pc i = s.pc i := by
  unfold runThread
  cases s.pc j with
  | idle => rfl
  | testLevel m =>
    simp only
    split_ifs <;> simp [hij]
  | lock m =>
    simp only
    split_ifs <;> simp [hij]
  | format m call =>
    cases hb : s.goLogBuffer with
    | none => simp [hij]
    | some b => simp [hij]
  | allocate m => simp [hij]
  | print m => simp [hij]
  | unlock => simp [hij]

/-- A statement of a thread keeps the message it is answering for, or answers for it. -/
theorem runThread_answers (c : Platform) {s : State n} (h : Sound c s) (i : Fin n) :
    ∃ done, (s.pc i).message = done ++ ((runThread c s i).2.pc i).message ∧
      List.Forall₂ (Answers c) done (runThread c s i).1.toList := by
  unfold runThread
  cases hpc : s.pc i with
  | idle => exact ⟨[], by simp [hpc, Pc.message], .nil⟩
  | testLevel m =>
    simp only
    split_ifs with hlevel
    · exact ⟨[], by simp [Pc.message], .nil⟩
    · refine ⟨[m], by simp [Pc.message], .cons ?_ .nil⟩
      exact Int32.not_le.mp hlevel
  | lock m =>
    simp only
    split_ifs
    · exact ⟨[], by simp [hpc], .nil⟩
    · exact ⟨[], by simp [Pc.message], .nil⟩
  | allocate m => exact ⟨[], by simp [Pc.message], .nil⟩
  | format m call =>
    have hready := h.ready i
    rw [hpc] at hready
    rcases hready with ⟨hnone, hrefused⟩ | ⟨b, hsome, -⟩
    · simp only [hnone]
      exact ⟨[m], by simp [Pc.message], .cons hrefused .nil⟩
    · simp only [hsome]
      exact ⟨[], by simp [Pc.message], .nil⟩
  | print m =>
    have hready := h.ready i
    rw [hpc] at hready
    obtain ⟨b, hsome, hbytes⟩ := hready
    refine ⟨[m], by simp [Pc.message], .cons ?_ .nil⟩
    -- nothing came between the formatting and this read, so the buffer holds this message
    simp only [hsome, Process.oldBytes, hbytes, copyOut_text]
    rfl
  | unlock => exact ⟨[], by simp [Pc.message], .nil⟩

theorem step_answers (c : Platform) (i : Fin n) {s : State n} (h : Sound c s) (a : Act n) :
    ∃ done, (s.pc i).message ++ called i (transition (step c) s a) =
        done ++ ((step c s a).2.pc i).message ∧
      List.Forall₂ (Answers c) done (reported i (transition (step c) s a)) := by
  cases a with
  | log j m =>
    refine ⟨[], ?_, .nil⟩
    by_cases hidle : s.pc j = .idle
    · by_cases hji : j = i
      · subst hji
        simp [called, transition, step, hidle, Pc.message]
      · simp [called, transition, step, hidle, hji, Ne.symm hji]
    · simp [called, transition, step, hidle]
  | levelSet level => exact ⟨[], by simp [called, transition, step], .nil⟩
  | run j =>
    by_cases hji : j = i
    · subst hji
      simpa [called, reported, transition, step] using runThread_answers c h j
    · refine ⟨[], ?_, ?_⟩
      · simp [called, transition, step, runThread_pc_of_ne c s (Ne.symm hji)]
      · simp [reported, transition, hji]

/-- Whatever the threads do to one another, each gets an answer for each of its messages, in the
order in which it logged them, and the text that is printed for it is its own. -/
theorem reports_answer_calls (c : Platform) {s : State n} (h : Fresh s) (acts : List (Act n))
    (i : Fin n) :
    ∃ answered, (trace (step c) s acts).flatMap (called i) =
        answered ++ ((final (step c) s acts).pc i).message ∧
      List.Forall₂ (Answers c) answered ((trace (step c) s acts).flatMap (reported i)) := by
  have hrun := trace_conserve (A := fun _ => True) (fun s : State n => (s.pc i).message)
    (fun _ a _ hs => step_sound c hs a) (fun _ a _ hs => step_answers c i hs a) (h.sound c) acts
    (fun _ _ => trivial)
  simpa [h.idle i, Pc.message] using hrun

/-! ### The heap of the log -/

def bufferBlocks (buffer : Option Block) : List ℕ := (buffer.map Block.addr).toList

/-- The block a step forgets without releasing it: the buffer is gone and nothing took its place. -/
def lostBlocks (t : LogStep n) : List ℕ :=
  if t.after.goLogBuffer.isNone then bufferBlocks t.before.goLogBuffer else []

/-- The thread has made its call on the allocator and has not reported yet. -/
def Pc.allocated : Pc → ℕ
  | .format _ _ | .print _ => 1
  | _ => 0

def Report.passed : Report → ℕ
  | .filtered _ => 0
  | .dropped _ | .printed _ => 1

def passed (t : LogStep n) : ℕ := (t.output.map Report.passed).getD 0

def State.allocated (s : State n) : ℕ := ∑ i, (s.pc i).allocated

structure Kept (q : Process) (lost : List ℕ) (s : State n) : Prop where
  accounts : Accounts q s.process (bufferBlocks s.goLogBuffer ++ lost) []
  faults : s.process.faults = q.faults

theorem release_faults {p : Process} {addr : ℕ} (h : addr ∈ p.live) :
    (p.release addr).faults = p.faults := by
  rw [Process.release, if_pos h]

/-- The old block is released and its successor recorded, or the old one is left behind. -/
theorem realloc_kept (c : Platform) {q p : Process} {lost : List ℕ} (old : Option Block)
    (size : UInt64) (h : Accounts q p (bufferBlocks old ++ lost) [])
    (hfaults : p.faults = q.faults) :
    let r := p.realloc c old size
    Accounts q r.2 (bufferBlocks r.1 ++ (if r.1.isNone then bufferBlocks old else []) ++ lost) [] ∧
      r.2.faults = q.faults ∧ r.2.calls = p.calls + 1 := by
  unfold Process.realloc
  split_ifs with hg
  · have hfree : Accounts q (p.free old) lost [] ∧ (p.free old).faults = q.faults := by
      cases old with
      | none => exact ⟨h, hfaults⟩
      | some b =>
        have hlive : b.addr ∈ p.live := h.live.mem_iff.mpr (by simp [bufferBlocks])
        exact ⟨Accounts.release h, (release_faults hlive).trans hfaults⟩
    have hgrant := hfree.1.grant
    rw [Process.free_calls] at hgrant
    refine ⟨?_, hfree.2, Process.free_grant_calls p old⟩
    simpa [bufferBlocks] using hgrant
  · refine ⟨?_, hfaults, rfl⟩
    simpa [bufferBlocks] using h.refuse

theorem State.goto_allocated (s : State n) (i : Fin n) (q : Pc) :
    (s.goto i q).allocated + (s.pc i).allocated = s.allocated + q.allocated := by
  have hpc : (fun j => ((s.goto i q).pc j).allocated) =
      Function.update (fun j => (s.pc j).allocated) i q.allocated := by
    funext j
    rw [goto_pc, Function.update_apply]
    split_ifs <;> rfl
  have hsum := Finset.add_sum_erase Finset.univ (fun j => (s.pc j).allocated) (Finset.mem_univ i)
  have hupdate := Finset.sum_update_of_mem (Finset.mem_univ i)
    (fun j => (s.pc j).allocated) q.allocated
  simp only [State.allocated, hpc, hupdate, ← Finset.erase_eq]
  omega

theorem lostBlocks_of_isSome {t : LogStep n}
    (h : t.before.goLogBuffer.isSome → t.after.goLogBuffer.isSome) : lostBlocks t = [] := by
  unfold lostBlocks
  split_ifs with hnone
  · cases hb : t.before.goLogBuffer with
    | none => rfl
    | some b => simp [hb, Option.isNone_iff_eq_none.mp hnone] at h
  · rfl

theorem Kept.same {q : Process} {lost : List ℕ} {t : LogStep n} (h : Kept q lost t.before)
    (hbuffer : bufferBlocks t.after.goLogBuffer = bufferBlocks t.before.goLogBuffer)
    (hsome : t.before.goLogBuffer.isSome → t.after.goLogBuffer.isSome)
    (hprocess : t.after.process = t.before.process) : Kept q (lostBlocks t ++ lost) t.after := by
  rw [lostBlocks_of_isSome hsome, List.nil_append]
  refine ⟨?_, ?_⟩
  · rw [hbuffer, hprocess]
    exact h.accounts
  · rw [hprocess]
    exact h.faults

theorem runThread_kept (c : Platform) {q : Process} {lost : List ℕ} {s : State n}
    (h : Sound c s) (hk : Kept q lost s) (i : Fin n) :
    Kept q (lostBlocks (transition (step c) s (.run i)) ++ lost) (runThread c s i).2 := by
  have hsame (r : Option Report × State n) (hr : runThread c s i = r)
      (hbuffer : bufferBlocks r.2.goLogBuffer = bufferBlocks s.goLogBuffer)
      (hsome : s.goLogBuffer.isSome → r.2.goLogBuffer.isSome) (hp : r.2.process = s.process) :
      Kept q (lostBlocks (transition (step c) s (.run i)) ++ lost) (runThread c s i).2 := by
    subst hr
    exact Kept.same (t := transition (step c) s (.run i)) hk hbuffer hsome hp
  cases hpc : s.pc i with
  | idle => exact hsame _ (by rw [runThread, hpc]) rfl id rfl
  | testLevel m =>
    by_cases hlevel : m.level ≤ s.goLogLevel
    · exact hsame _ (by simp only [runThread, hpc, if_pos hlevel]; rfl) rfl id rfl
    · exact hsame _ (by simp only [runThread, hpc, if_neg hlevel]; rfl) rfl id rfl
  | lock m =>
    by_cases hmutex : s.goLogMutex = true
    · exact hsame _ (by simp only [runThread, hpc, if_pos hmutex]; rfl) rfl id rfl
    · exact hsame _ (by simp only [runThread, hpc, if_neg hmutex]; rfl) rfl id rfl
  | allocate m =>
    have hrealloc := realloc_kept c s.goLogBuffer m.size hk.accounts hk.faults
    have hrun : runThread c s i = (none, { s with
        goLogBuffer := (s.process.realloc c s.goLogBuffer m.size).1,
        process := (s.process.realloc c s.goLogBuffer m.size).2 }.goto i
          (.format m s.process.calls)) := by
      simp only [runThread, hpc, allocateBuffer_eq c h.len]
    have hlost : lostBlocks (transition (step c) s (.run i)) =
        if (s.process.realloc c s.goLogBuffer m.size).1.isNone then bufferBlocks s.goLogBuffer
        else [] := by
      simp only [lostBlocks, transition, step, hrun]
      rfl
    rw [hlost, hrun]
    refine ⟨?_, hrealloc.2.1⟩
    rw [← List.append_assoc]
    exact hrealloc.1
  | format m call =>
    have hready := h.ready i
    rw [hpc] at hready
    rcases hready with ⟨hnone, -⟩ | ⟨b, hsome, hlength⟩
    · exact hsame _ (by simp only [runThread, hpc, hnone]; rfl) rfl id rfl
    · have hcopy := copyIn_exact s.process hlength
      exact hsame _ (by simp only [runThread, hpc, hsome, hcopy]; rfl) (by simp [hsome, State.goto,
        bufferBlocks]) (fun _ => rfl) rfl
  | print m =>
    have hready := h.ready i
    rw [hpc] at hready
    obtain ⟨b, hsome, hbytes⟩ := hready
    have hcopy : s.process.copyOut (Process.oldBytes s.goLogBuffer) m.text.length =
        (m.text, s.process) := by
      rw [hsome, Process.oldBytes, hbytes, copyOut_text]
    exact hsame _ (by simp only [runThread, hpc, hcopy]; rfl) rfl id rfl
  | unlock => exact hsame _ (by simp only [runThread, hpc]; rfl) rfl id rfl

theorem step_kept (c : Platform) {q : Process} {lost : List ℕ} {s : State n} (h : Sound c s)
    (hk : Kept q lost s) (a : Act n) :
    Kept q (lostBlocks (transition (step c) s a) ++ lost) (step c s a).2 := by
  cases a with
  | log i m =>
    have hafter : (step c s (.log i m)).2.goLogBuffer = s.goLogBuffer ∧
        (step c s (.log i m)).2.process = s.process := by
      simp only [step]
      split_ifs <;> exact ⟨rfl, rfl⟩
    exact Kept.same (t := transition (step c) s (.log i m)) hk (congrArg bufferBlocks hafter.1)
      (fun hs => (congrArg Option.isSome hafter.1).trans hs) hafter.2
  | levelSet level =>
    exact Kept.same (t := transition (step c) s (.levelSet level)) hk rfl id rfl
  | run i => exact runThread_kept c h hk i

theorem run_kept (c : Platform) {q : Process} {lost : List ℕ} {s : State n} (h : Sound c s)
    (hk : Kept q lost s) (acts : List (Act n)) :
    Kept q ((trace (step c) s acts).reverse.flatMap lostBlocks ++ lost)
      (final (step c) s acts) := by
  induction acts generalizing s lost with
  | nil => simpa using hk
  | cons a acts ih =>
    have hrest := ih (step_sound c h a) (step_kept c h hk a)
    simpa [List.flatMap_append] using hrest

/-- A statement that moves a thread on from `pc` to `q`, with what it is charged. -/
theorem cost_of_goto {s s' : State n} {i : Fin n} {pc q : Pc} {charge : ℕ} (hpc : s.pc i = pc)
    (hs' : s'.pc = s.pc)
    (hcalls : s'.process.calls + pc.allocated = s.process.calls + charge + q.allocated) :
    (s'.goto i q).process.calls + s.allocated =
      s.process.calls + charge + (s'.goto i q).allocated := by
  have hgoto := s.goto_allocated i q
  have hsame : (s'.goto i q).allocated = (s.goto i q).allocated := by
    simp only [State.allocated, goto_pc, hs']
  have hprocess : (s'.goto i q).process = s'.process := rfl
  rw [hpc] at hgoto
  rw [hsame, hprocess]
  omega

theorem runThread_cost (c : Platform) {s : State n} (h : Sound c s) (i : Fin n) :
    (runThread c s i).2.process.calls + s.allocated = s.process.calls +
      ((runThread c s i).1.map Report.passed).getD 0 + (runThread c s i).2.allocated := by
  unfold runThread
  cases hpc : s.pc i with
  | idle => rfl
  | testLevel m =>
    simp only
    split_ifs
    · exact cost_of_goto hpc rfl rfl
    · exact cost_of_goto hpc rfl rfl
  | lock m =>
    simp only
    split_ifs
    · rfl
    · exact cost_of_goto hpc rfl rfl
  | allocate m =>
    have hcalls : (allocateBuffer c s m).2.calls = s.process.calls + 1 := by
      rw [allocateBuffer_eq c h.len]
      unfold Process.realloc
      split_ifs
      · exact Process.free_grant_calls s.process s.goLogBuffer
      · rfl
    exact cost_of_goto hpc rfl hcalls
  | format m call =>
    have hready := h.ready i
    rw [hpc] at hready
    rcases hready with ⟨hnone, -⟩ | ⟨b, hsome, hlength⟩
    · simp only [hnone]
      exact cost_of_goto hpc rfl rfl
    · simp only [hsome, copyIn_exact s.process hlength]
      exact cost_of_goto hpc rfl rfl
  | print m =>
    have hready := h.ready i
    rw [hpc] at hready
    obtain ⟨b, hsome, hbytes⟩ := hready
    simp only [hsome, Process.oldBytes, hbytes, copyOut_text]
    exact cost_of_goto hpc rfl rfl
  | unlock => exact cost_of_goto hpc rfl rfl

theorem step_cost (c : Platform) {s : State n} (h : Sound c s) (a : Act n) :
    (step c s a).2.process.calls + s.allocated =
      s.process.calls + passed (transition (step c) s a) + (step c s a).2.allocated := by
  cases a with
  | log i m =>
    simp only [step, passed, transition]
    split_ifs with hidle
    · exact cost_of_goto hidle rfl rfl
    · rfl
  | levelSet level => rfl
  | run i => exact runThread_cost c h i

/-- In every run of the logging threads no block is accessed outside its bounds or released twice;
the only blocks lost are the buffers whose `realloc` was refused; and since the recorded length
is never assigned, each message that passes the level test costs one call on the allocator. -/
theorem log_heap (c : Platform) {s : State n} (h : Fresh s) (acts : List (Act n)) :
    let t := trace (step c) s acts
    let f := final (step c) s acts
    Accounts s.process f.process (bufferBlocks f.goLogBuffer ++ t.flatMap lostBlocks) [] ∧
      f.process.faults = s.process.faults ∧
      f.process.calls = s.process.calls + (t.map passed).sum + f.allocated := by
  have hstart : Kept s.process [] s := by
    refine ⟨⟨?_, List.Perm.refl _⟩, rfl⟩
    simp [bufferBlocks, h.buffer]
  have hkept := run_kept c (h.sound c) hstart acts
  have hcost := final_account (A := fun _ => True) (fun s : State n => s.process.calls)
    State.allocated (fun _ a _ hs => step_sound c hs a) (fun _ a _ hs => step_cost c hs a)
    (h.sound c) acts (fun _ _ => trivial)
  have hnone : s.allocated = 0 := by simp [State.allocated, h.idle, Pc.allocated]
  intro t f
  refine ⟨hkept.accounts.of_perm ?_, hkept.faults, ?_⟩
  · rw [List.append_nil]
    exact ((List.reverse_perm t).flatMap_right lostBlocks).append_left _
  · simpa [hnone] using hcost

/-- Two threads log at once, the second above the level; the first is overtaken by a change of the
level between its test and its turn. -/
def twoLoggers : State 2 where
  goLogLevel := 3
  goLogMutex := false
  goLogBuffer := none
  goLogBufferLen := 0
  process := Process.start
  pc := fun _ => .idle

theorem twoLoggers_fresh : Fresh twoLoggers := ⟨fun _ => rfl, rfl, rfl, rfl⟩

def warned : Message := ⟨3, [109], [102], 7, [104, 105], by decide⟩

def traced : Message := ⟨6, [109], [102], 8, [110, 111], by decide⟩

def warner : Fin 2 := ⟨0, Nat.two_pos⟩

def tracer : Fin 2 := ⟨1, Nat.one_lt_two⟩

def overtaken : List (Act 2) :=
  [.log warner warned, .run warner, .levelSet 2, .log tracer traced, .run warner, .run tracer,
    .run warner, .run warner, .run warner]

theorem overtaken_reports :
    (trace (step Platform.generous) twoLoggers overtaken).flatMap (reported warner) =
        [.printed (some ⟨.warn, [109], [102], 7, [104, 105]⟩)] ∧
      ∃ answered, (trace (step Platform.generous) twoLoggers overtaken).flatMap (called warner) =
          answered ++ ((final (step Platform.generous) twoLoggers overtaken).pc warner).message ∧
        List.Forall₂ (Answers Platform.generous) answered
          ((trace (step Platform.generous) twoLoggers overtaken).flatMap (reported warner)) :=
  ⟨by decide +kernel, reports_answer_calls Platform.generous twoLoggers_fresh overtaken warner⟩

theorem overtaken_heap :
    let t := trace (step Platform.generous) twoLoggers overtaken
    let f := final (step Platform.generous) twoLoggers overtaken
    Accounts twoLoggers.process f.process (bufferBlocks f.goLogBuffer ++ t.flatMap lostBlocks) [] ∧
      f.process.faults = twoLoggers.process.faults ∧
      f.process.calls = twoLoggers.process.calls + (t.map passed).sum + f.allocated :=
  log_heap Platform.generous twoLoggers_fresh overtaken

end AudioFS.LogBuffer
