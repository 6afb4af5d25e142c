import AudioFS.MemoryRefinement
import AudioFS.ResourceLedger

/-!
# The file handle as a byte file

A handle on a file passes its calls on to the kernel and masks what comes back.
Where the kernel serves a byte file, the handle answers as that file does, with
one exception: it refuses negative offsets itself, and the file would follow a
seek backwards as long as the target is not negative.
-/

namespace AudioFS.CustomAvio
open AudioFS.CInteger StepMachine

/-- Whether a call gets as far as the kernel. -/
def Op.passed : Op → Bool
  | .read n => decide (0 ≤ n.toInt)
  | .write buf => decide (0 ≤ buf.bufSize.toInt)
  | .seek offset _ => decide (0 ≤ offset.toInt)

def kernelAnswer (c : Platform) (t : Call) : Answer :=
  match t.input with
  | .read n =>
    let r := c.read t.before.process.syscalls t.before.handle.file (toU64 n)
    ⟨r.1.toInt, r.2⟩
  | .write buf => ⟨(c.write t.before.process.syscalls t.before.handle.file buf.bytes).toInt, []⟩
  | .seek offset whence =>
    ⟨(c.lseek t.before.process.syscalls t.before.handle.file offset whence).toInt, []⟩

def kernelFile (f : ByteFile.File UInt8) (t : Call) : ByteFile.File UInt8 :=
  if t.input.passed then (posixStep f t.input).2 else f

/-- The kernel does with a call that reaches it what it would do with this file. -/
def Serves (c : Platform) (f : ByteFile.File UInt8) (t : Call) : Prop :=
  t.input.passed = true → kernelAnswer c t = (posixStep f t.input).1

instance (c : Platform) (f : ByteFile.File UInt8) (t : Call) : Decidable (Serves c f t) :=
  inferInstanceAs (Decidable (_ → _))

def ServedRun (c : Platform) (s : Session) (ops : List Op) : Prop :=
  Along kernelFile (Serves c) ByteFile.File.empty (trace (step c) s ops)

instance (c : Platform) (s : Session) (ops : List Op) : Decidable (ServedRun c s ops) :=
  inferInstanceAs (Decidable (Along _ _ _ _))

def fileAfter (c : Platform) (s : Session) (ops : List Op) : ByteFile.File UInt8 :=
  (trace (step c) s ops).foldl kernelFile ByteFile.File.empty

theorem toInt_int32_count {x : Int64} {n : ℕ} (hn : n < 2 ^ 31) (hx : x.toInt = n) :
    (int32 x.toUInt64).toInt = n := by
  have hval := toNat_toUInt64 x
  rw [toInt_int32]
  omega

section
variable {c : Platform} {s : Session} {f : ByteFile.File UInt8}

theorem file_kept (hfile : s.handle.inMemory = false) (op : Op) :
    (step c s op).2.handle.inMemory = false := by
  rw [step_file_handle c hfile op, hfile]

/-- A call on a file: the file's answer when the kernel was asked, and `-1` when it was not. -/
theorem file_answer (hfile : s.handle.inMemory = false) {op : Op} (hop : op.Supported)
    (hserves : Serves c f (transition (step c) s op)) :
    (step c s op).1 = if op.passed then (posixStep f op).1 else ⟨-1, []⟩ := by
  cases op with
  | read n =>
    have hn : 0 ≤ n.toInt := hop
    have hneg : ¬ n.toInt < 0 := by omega
    have hpassed : (Op.read n).passed = true := decide_eq_true hn
    have hkernel := hserves hpassed
    simp only [kernelAnswer, transition, posixStep, Answer.mk.injEq] at hkernel
    obtain ⟨hret, hbytes⟩ := hkernel
    have hlt := n.toInt_lt
    have hcount : (f.read n.toInt.toNat).1.length < 2 ^ 31 := by
      simp only [ByteFile.File.read, List.length_take]
      omega
    rw [if_pos hpassed]
    simp only [step, audiofsAvioRead, rejects_iff, hneg, if_false, hfile, Bool.false_eq_true,
      posixStep, hbytes, toInt_int32_count hcount hret]
  | write buf =>
    have hn : 0 ≤ buf.bufSize.toInt := hop
    have hneg : ¬ buf.bufSize.toInt < 0 := by omega
    have hpassed : (Op.write buf).passed = true := decide_eq_true hn
    have hkernel := hserves hpassed
    simp only [kernelAnswer, transition, posixStep, Answer.mk.injEq, and_true] at hkernel
    have hlt := buf.bufSize.toInt_lt
    have hlength := buf.length_eq
    rw [if_pos hpassed]
    simp only [step, audiofsAvioWrite, rejects_iff, hneg, if_false, hfile, Bool.false_eq_true,
      posixStep, toInt_int32_count (by omega) hkernel]
  | seek offset whence =>
    by_cases hoff : 0 ≤ offset.toInt
    · have hneg : ¬ offset < 0 := by
        rw [Int64.lt_iff_toInt_lt]
        exact not_lt.mpr hoff
      have hpassed : (Op.seek offset whence).passed = true := decide_eq_true hoff
      have hkernel := hserves hpassed
      rw [if_pos hpassed]
      refine Eq.trans ?_ hkernel
      simp only [step, audiofsAvioSeek, if_neg hneg, hfile, Bool.false_eq_true, if_false,
        kernelAnswer, transition]
    · have hneg : offset < 0 := by
        rw [Int64.lt_iff_toInt_lt]
        exact not_le.mp hoff
      have hpassed : ¬ (Op.seek offset whence).passed = true := by simpa [Op.passed] using hoff
      rw [if_neg hpassed]
      simp only [step, audiofsAvioSeek, if_pos hneg]
      rfl

end

/-- The file refuses the seeks backwards, as the handle does. -/
def RefusesBackward (u : Transition (ByteFile.File UInt8) Op Answer) : Prop :=
  u.input.passed = false → u.output.ret = -1

/-- A supported call that does not reach the kernel is a seek; the file keeps its position when it
refuses it. -/
theorem posix_refused {f : ByteFile.File UInt8} {op : Op} (hop : op.Supported)
    (hpassed : op.passed = false) (hret : (posixStep f op).1.ret = -1) :
    posixStep f op = (⟨-1, []⟩, f) := by
  cases op with
  | read n =>
    have hn : 0 ≤ n.toInt := hop
    simp [Op.passed, hn] at hpassed
  | write buf =>
    have hn : 0 ≤ buf.bufSize.toInt := hop
    simp [Op.passed, hn] at hpassed
  | seek offset whence =>
    simp only [posixStep] at hret ⊢
    cases horigin : origin whence with
    | none => rfl
    | some o =>
      simp only [horigin, ByteFile.File.seek] at hret ⊢
      by_cases hout : (f.base o : ℤ) + offset.toInt < 0 ∨
          (maxOffset : ℤ) < (f.base o : ℤ) + offset.toInt
      · rw [if_pos hout]
      · rw [if_neg hout] at hret
        simp only at hret
        omega

/-- Along a run that the kernel serves, a handle on a file answers as the byte file does exactly
when the file refuses every seek backwards. -/
theorem file_answers_iff (c : Platform) {s : Session} (hfile : s.handle.inMemory = false)
    (f : ByteFile.File UInt8) (ops : List Op) (hops : ∀ op ∈ ops, op.Supported)
    (hserves : Along kernelFile (Serves c) f (trace (step c) s ops)) :
    (trace (step c) s ops).map Transition.output = (trace posixStep f ops).map Transition.output ↔
      ∀ u ∈ trace posixStep f ops, RefusesBackward u := by
  induction ops generalizing s f with
  | nil => simp
  | cons op ops ih =>
    obtain ⟨hop, hrest⟩ := List.forall_mem_cons.mp hops
    obtain ⟨hfirst, hlater⟩ := hserves
    have hanswer := file_answer hfile hop hfirst
    have hnext := ih (file_kept hfile op) _ hrest hlater
    have hhead : (step c s op).1 = (posixStep f op).1 ↔
        RefusesBackward (transition posixStep f op) := by
      rw [hanswer]
      cases hpassed : op.passed with
      | true => simp [RefusesBackward, transition, hpassed]
      | false =>
        refine ⟨fun heq _ => ?_, fun hkeep => ?_⟩
        · exact (congrArg Answer.ret heq).symm
        · rw [posix_refused hop hpassed (hkeep hpassed)]
          simp
    have hmoved (hkeep : RefusesBackward (transition posixStep f op)) :
        kernelFile f (transition (step c) s op) = (posixStep f op).2 := by
      cases hpassed : op.passed with
      | true => exact if_pos hpassed
      | false =>
        rw [posix_refused hop hpassed (hkeep hpassed)]
        exact if_neg (by simp [transition, hpassed])
    simp only [trace_cons, List.map_cons, List.cons.injEq, List.forall_mem_cons]
    refine (and_congr_left' hhead).trans (and_congr_right fun hkeep => ?_)
    rw [← hmoved hkeep]
    exact hnext

/-! ### Both backings -/

/-- Two runs answer alike: the same bytes, and the same value unless both calls fail. -/
def SameAnswer (t u : Call) : Prop :=
  t.output.bytes = u.output.bytes ∧
    (t.output.ret = u.output.ret ∨ t.output.ret < 0 ∧ u.output.ret < 0)

theorem step_refuses (c : Platform) {s : Session} {f : ByteFile.File UInt8}
    (hr : Represents s f) {op : Op} (hop : op.Supported)
    (hc : Faithful (transition (step c) s op)) : RefusesBackward (transition posixStep f op) := by
  intro hpassed
  simp only [transition] at hpassed
  cases op with
  | read n =>
    have hn : 0 ≤ n.toInt := hop
    simp [Op.passed, hn] at hpassed
  | write buf =>
    have hn : 0 ≤ buf.bufSize.toInt := hop
    simp [Op.passed, hn] at hpassed
  | seek offset whence =>
    have hneg : offset.toInt < 0 := by simpa [Op.passed] using hpassed
    simp only [Faithful, transition, if_pos hneg] at hc
    simp only [transition, posix_seek_eq hr offset hop, if_pos (Or.inl hc)]

/-- A run that keeps a memory handle a byte file is answered alike by a handle on a file that was
empty when it was opened. -/
theorem backings_agree {c c' : Platform} {s u : Session} (hs : OpenedGranted c s)
    (hu : u.handle.inMemory = false) (ops : List Op) (hops : ∀ op ∈ ops, op.Supported)
    (hgrant : ∀ t ∈ trace (step c) s ops, Granted t)
    (hc : ∀ t ∈ trace (step c) s ops, Faithful t)
    (hserved : ServedRun c' u ops) :
    List.Forall₂ SameAnswer (trace (step c) s ops) (trace (step c') u ops) := by
  have hinput : ∀ t ∈ trace (step c) s ops, t.input.Supported :=
    trace_forall_input (step c) s ops hops
  have hsim : List.Forall₂ (fun t v => RefusesBackward v ∧ Agree t v) (trace (step c) s ops)
      (trace posixStep ByteFile.File.empty ops) :=
    simulation (R := Represents) (C := fun t => t.input.Supported ∧ Granted t ∧ Faithful t)
      (fun s f op hr hs => by
        obtain ⟨hagree, hnext⟩ := step_represents c s f op hr hs.1 hs.2.1 hs.2.2
        exact ⟨⟨step_refuses c hr hs.1 hs.2.2, hagree⟩, hnext⟩)
      (opened_represents hs) ops (fun t ht => ⟨hinput t ht, hgrant t ht, hc t ht⟩)
  have hflip : List.Forall₂ (fun v t => RefusesBackward v ∧ Agree t v)
      (trace posixStep ByteFile.File.empty ops) (trace (step c) s ops) := hsim.flip
  obtain ⟨hrefuses, -⟩ := (List.forall₂_and_left _ _).mp hflip
  -- both runs are compared with the answers of the byte file
  have hanswers := (file_answers_iff c' hu _ ops hops hserved).mpr hrefuses
  have hmemory : List.Forall₂ (fun t (a : Answer) => t.output.bytes = a.bytes ∧
      (t.output.ret = a.ret ∨ t.output.ret < 0 ∧ a.ret < 0)) (trace (step c) s ops)
      ((trace posixStep ByteFile.File.empty ops).map Transition.output) :=
    List.forall₂_map_right_iff.mpr (hsim.imp fun t v h => ⟨h.2.1, h.2.2.imp_right And.right⟩)
  rw [← hanswers] at hmemory
  exact (List.forall₂_map_right_iff (f := Transition.output)).mp hmemory

/-- A kernel that gives out descriptor 3 for a file and then serves `writeOnceRun`. -/
def Platform.disk : Platform :=
  { Platform.generous with
    openFile := fun _ _ => 3
    write := fun _ _ bytes => Int64.ofNat bytes.length
    lseek := fun _ _ offset _ => offset
    read := fun call _ _ => if call = 3 then (1, [65]) else (0, []) }

def Session.onDisk : Session where
  process := (audiofsAvioOpen Platform.disk Process.start [102]).2
  handle := ⟨0, 3, false, none, 0, 0⟩

theorem writeOnceRun_backings :
    List.Forall₂ SameAnswer (trace (step Platform.generous) Session.first writeOnceRun)
      (trace (step Platform.disk) Session.onDisk writeOnceRun) :=
  backings_agree first_opened rfl writeOnceRun (by decide) (by decide +kernel) (by decide +kernel)
    (by decide +kernel)

end AudioFS.CustomAvio
