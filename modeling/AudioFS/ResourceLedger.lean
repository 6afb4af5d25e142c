import AudioFS.Ledger
import AudioFS.OpenClose

/-!
# What a handle owns

The blocks and descriptors that are live because of a handle: the handle itself,
the buffer structure, the data block and the file. Every call passes them on,
also when a growth replaces the data block. Closing releases all of them but the
data block.
-/

namespace AudioFS.CustomAvio
open AudioFS.CInteger AudioFS.Buffer StepMachine

variable {q p : Process} {rest : List ℕ} {fds : List Int32}

theorem resizeLoop_accounts (c : Platform) (size : UInt64) (rounds : ℕ) {b : AudiofsBuffer}
    (h : Accounts q p (b.blocks rest) fds) :
    Accounts q (resizeLoop c size rounds p b).2.2 ((resizeLoop c size rounds p b).2.1.blocks rest)
      fds := by
  induction rounds generalizing p b with
  | zero => exact h
  | succ rounds ih =>
    have hstep := realloc_accounts c (growthStep b.len) h
    simp only [resizeLoop]
    split_ifs
    · exact h
    · exact h
    · generalize audiofsBufferRealloc c p b (growthStep b.len) = r at hstep ⊢
      obtain ⟨done, b', p'⟩ := r
      cases done with
      | false => exact hstep
      | true => exact ih hstep
    · exact h

def AudiofsAvioHandle.blocks (h : AudiofsAvioHandle) : List ℕ :=
  match h.buffer with
  | none => [h.addr]
  | some b => b.blocks [h.addr]

def AudiofsAvioHandle.openFiles (h : AudiofsAvioHandle) : List Int32 :=
  if h.inMemory then [] else [h.file]

/-- Since the process `q` the session has come to own what its handle refers to, and nothing
else. -/
def Session.OwnsSince (s : Session) (q : Process) : Prop :=
  Accounts q s.process s.handle.blocks s.handle.openFiles

theorem resizeTo_owns (c : Platform) {s : Session} (h : s.OwnsSince q) (size : UInt64) :
    (audiofsAvioResizeTo c s size).2.OwnsSince q := by
  unfold Session.OwnsSince at h ⊢
  cases hb : s.handle.buffer with
  | none =>
    simp only [audiofsAvioResizeTo, hb]
    exact h.fault
  | some b =>
    simp only [AudiofsAvioHandle.blocks, hb] at h
    simp only [audiofsAvioResizeTo, hb]
    exact resizeLoop_accounts c size _ h

theorem copyIn_accounts {blocks : List ℕ} (h : Accounts q p blocks fds)
    (dst src : List UInt8) : Accounts q (p.copyIn dst src).2 blocks fds := by
  unfold Process.copyIn
  split_ifs
  · exact h
  · exact h.fault

theorem store_owns {s : Session} (h : s.OwnsSince q) (bytes : List UInt8) :
    (s.store bytes).OwnsSince q := by
  unfold Session.OwnsSince at h ⊢
  cases hb : s.handle.buffer with
  | none =>
    simp only [Session.store, hb]
    exact h.fault
  | some b =>
    simp only [AudiofsAvioHandle.blocks, AudiofsBuffer.blocks, hb] at h
    cases hd : b.data with
    | none =>
      simp only [hd] at h
      simp only [Session.store, hb, hd]
      split_ifs
      · simpa only [AudiofsAvioHandle.blocks, AudiofsBuffer.blocks, hb, hd] using h
      · simpa only [AudiofsAvioHandle.blocks, AudiofsBuffer.blocks, hb, hd] using h.fault
    | some block =>
      simp only [Session.store, hb, hd] at h ⊢
      exact copyIn_accounts h _ _

theorem seekTo_owns (c : Platform) {s : Session} (h : s.OwnsSince q) (target : Int64) :
    (seekTo c s target).2.OwnsSince q := by
  simp only [seekTo]
  split_ifs
  · exact resizeTo_owns c h _
  · exact resizeTo_owns c h _
  · exact h

theorem step_owns (c : Platform) (s : Session) (op : Op) (h : s.OwnsSince q) :
    (step c s op).2.OwnsSince q := by
  cases op with
  | read n =>
    simp only [step, audiofsAvioRead, Process.copyOut, Session.deref]
    split_ifs
    · exact h
    · exact h.fault
    · exact h
    · exact h.fault.fault
    · exact h.fault
    · exact h.syscall
  | write buf =>
    simp only [step, audiofsAvioWrite]
    split_ifs
    · exact h
    · exact resizeTo_owns c h _
    · exact store_owns (resizeTo_owns c h _) buf.bytes
    · exact h.syscall
  | seek offset whence =>
    simp only [step, audiofsAvioSeek]
    split_ifs
    · exact h
    · exact seekTo_owns c h _
    · exact seekTo_owns c h _
    · exact h
    · exact seekTo_owns c h _
    · exact h
    · exact h.syscall

theorem final_owns (c : Platform) {s : Session} (h : s.OwnsSince q) (ops : List Op) :
    (final (step c) s ops).OwnsSince q :=
  final_invariant (A := fun _ => True) (P := fun s => s.OwnsSince q)
    (fun s op _ hs => step_owns c s op hs) h ops (fun _ _ => trivial)

theorem close_memory {s : Session} {b : AudiofsBuffer} {block : Block} (h : s.OwnsSince q)
    (hmem : s.handle.inMemory = true) (hb : s.handle.buffer = some b)
    (hd : b.data = some block) : Accounts q (audiofsAvioClose s) [block.addr] [] := by
  simp only [Session.OwnsSince, AudiofsAvioHandle.blocks, AudiofsAvioHandle.openFiles,
    AudiofsBuffer.blocks, hmem, hb, hd, if_true] at h
  simp only [audiofsAvioClose, hmem, hb, if_true]
  exact (h.swap.release).swap.release

theorem close_unbacked {s : Session} (h : s.OwnsSince q) (hmem : s.handle.inMemory = true)
    (hb : s.handle.buffer = none) : Accounts q (audiofsAvioClose s) [] [] := by
  simp only [Session.OwnsSince, AudiofsAvioHandle.blocks, AudiofsAvioHandle.openFiles, hmem, hb,
    if_true] at h
  simp only [audiofsAvioClose, hmem, hb, if_true]
  exact h.release

theorem close_file {s : Session} (h : s.OwnsSince q) (hfile : s.handle.inMemory = false)
    (hb : s.handle.buffer = none) : Accounts q (audiofsAvioClose s) [] [] := by
  simp only [Session.OwnsSince, AudiofsAvioHandle.blocks, AudiofsAvioHandle.openFiles, hfile, hb,
    Bool.false_eq_true, if_false] at h
  have hclosed := h.descriptors.erase s.handle.file
  rw [List.cons_append, List.erase_cons_head] at hclosed
  have hrest : Accounts q { s.process.syscall with
      descriptors := s.process.descriptors.erase s.handle.file } [s.handle.addr] [] :=
    ⟨h.live, hclosed⟩
  simp only [audiofsAvioClose, hfile, Bool.false_eq_true, if_false]
  exact hrest.release

structure SameLedger (q p : Process) : Prop where
  live : p.live.Perm q.live
  descriptors : p.descriptors.Perm q.descriptors

theorem sameLedger_of_accounts (h : Accounts q p [] []) : SameLedger q p :=
  ⟨h.live, h.descriptors⟩

theorem not_sameLedger {addr : ℕ} {fds : List Int32} (h : Accounts q p [addr] fds) :
    ¬ SameLedger q p := by
  intro hsame
  have hlen := (hsame.live.symm.trans h.live).length_eq
  simp at hlen

/-- An open that fails changes nothing; one that succeeds is undone by the close after any calls
in between, which the process lives through. -/
def Balanced (c : Platform) (p : Process) (filename : List UInt8) (ops : List Op) : Prop :=
  match audiofsAvioOpen c p filename with
  | (none, p') => SameLedger p p'
  | (some h, p') =>
    (∀ t ∈ trace (step c) ⟨p', h⟩ ops, ¬ NullAccess t) ∧
      SameLedger p (audiofsAvioClose (final (step c) ⟨p', h⟩ ops))

theorem step_file_handle (c : Platform) {s : Session} (h : s.handle.inMemory = false) (op : Op) :
    (step c s op).2.handle = s.handle := by
  cases op <;>
    simp only [step, audiofsAvioRead, audiofsAvioWrite, audiofsAvioSeek, h, Bool.false_eq_true,
      if_false] <;>
    split_ifs <;> rfl

theorem final_file_handle (c : Platform) {s : Session} (h : s.handle.inMemory = false)
    (ops : List Op) : (final (step c) s ops).handle = s.handle :=
  final_invariant (A := fun _ => True) (P := fun s' : Session => s'.handle = s.handle)
    (fun s' op _ hs => (step_file_handle c (by rw [hs]; exact h) op).trans hs) rfl ops
    (fun _ _ => trivial)

theorem final_wellFormed (c : Platform) {s : Session} (h : WellFormed s) (ops : List Op) :
    WellFormed (final (step c) s ops) :=
  final_invariant (A := fun _ => True) (P := WellFormed)
    (fun _ op _ hs => step_wellFormed c hs op) h ops
    (fun _ _ => trivial)

theorem final_unbacked (c : Platform) {s : Session} (h : Unbacked s) (ops : List Op) :
    Unbacked (final (step c) s ops) :=
  final_invariant (A := fun _ => True) (P := Unbacked)
    (fun _ op _ hs => (step_unbacked c hs op).1) h ops
    (fun _ _ => trivial)

/-- Without a buffer a run reaches the close exactly when no call of it is accepted. -/
theorem unbacked_lives_iff (c : Platform) {s : Session} (h : Unbacked s) (ops : List Op) :
    (∀ t ∈ trace (step c) s ops, ¬ NullAccess t) ↔ ∀ op ∈ ops, ¬ op.Accepted := by
  induction ops generalizing s with
  | nil => simp
  | cons op ops ih =>
    rw [trace_cons, List.forall_mem_cons, List.forall_mem_cons, ih (step_unbacked c h op).1,
      unbacked_nullAccess_iff c h op]

theorem file_lives (c : Platform) {s : Session} (h : s.handle.inMemory = false) (ops : List Op) :
    ∀ t ∈ trace (step c) s ops, ¬ NullAccess t :=
  trace_forall (A := fun _ => True) (P := fun s : Session => s.handle.inMemory = false)
    (fun s op _ hs => by rw [step_file_handle c hs op]; exact hs)
    (fun s op _ hs => not_nullAccess_of_file c hs op) h ops (fun _ _ => trivial)

theorem handle_accounts (p : Process) : Accounts p p.grant [p.calls] [] :=
  ⟨List.Perm.refl _, List.Perm.refl _⟩

/-- Opening and closing balances exactly when no handle can be allocated, a memory handle gets no
buffer and no call on it is accepted, or a file is opened: the data block of every other memory
handle and the handle of a file that cannot be opened stay live. -/
theorem ledger_balanced_iff (c : Platform) (p : Process) (filename : List UInt8) (ops : List Op) :
    Balanced c p filename ops ↔
      c.grants p.calls sizeofHandle = false ∨
        (namesMemory filename = true ∧ ¬ GrantsBuffer c (p.calls + 1) ∧
          ∀ op ∈ ops, ¬ op.Accepted) ∨
        (namesMemory filename = false ∧ ¬ c.openFile p.syscalls filename < 0) := by
  have hout := avioOpen_outcome c p filename
  have hhandle := handle_accounts p
  unfold Balanced
  generalize audiofsAvioOpen c p filename = r at hout ⊢
  cases hout with
  | noHandle hg => exact iff_of_true ⟨List.Perm.refl _, List.Perm.refl _⟩ (.inl hg)
  | memory hg hname hbuffer =>
    refine iff_of_false ?_ (by simp [hg, hname, hbuffer])
    let h : AudiofsAvioHandle := ⟨p.calls, 0, true, some (openedBuffer p.grant 1024), 0, 0⟩
    have howns : Session.OwnsSince ⟨p.grant.grant.grant, h⟩ p := hhandle.grant.grant
    have hlen : (1024 : UInt64).toNat < reach := by decide
    have hwf : WellFormed ⟨p.grant.grant.grant, h⟩ :=
      ⟨_, _, rfl, rfl, openedBuffer_holds p.grant 1024, hlen⟩
    obtain ⟨b, bytes, m⟩ := final_wellFormed c hwf ops
    obtain ⟨addr, hdata⟩ := m.holds.data
    intro hbalanced
    have hclose := close_memory (final_owns c howns ops) m.inMemory m.buffer hdata
    exact absurd hbalanced.2 (not_sameLedger hclose)
  | @noBuffer p' hg hname hnot hp' =>
    have howns : Session.OwnsSince ⟨p', ⟨p.calls, 0, true, none, 0, 0⟩⟩ p := by
      rcases hp' with rfl | rfl
      · exact hhandle.refuse
      · exact hhandle.grant.refuse.release
    have hun : Unbacked ⟨p', ⟨p.calls, 0, true, none, 0, 0⟩⟩ := ⟨rfl, rfl, rfl, rfl⟩
    have hfinal := final_unbacked c hun ops
    have hsame := sameLedger_of_accounts
      (close_unbacked (final_owns c howns ops) hfinal.inMemory hfinal.buffer)
    simp only [hg, hname, hnot, Bool.true_eq_false, false_or, false_and, or_false, true_and,
      not_false_eq_true]
    exact (and_iff_left hsame).trans (unbacked_lives_iff c hun ops)
  | noFile hg hname hopen =>
    refine iff_of_false ?_ (by simp [hg, hname, hopen])
    exact not_sameLedger hhandle.syscall
  | file hg hname hopen =>
    refine iff_of_true ?_ (.inr (.inr ⟨hname, hopen⟩))
    let h : AudiofsAvioHandle := ⟨p.calls, c.openFile p.syscalls filename, false, none, 0, 0⟩
    let s : Session := ⟨{ p.grant.syscall with
      descriptors := c.openFile p.syscalls filename :: p.descriptors }, h⟩
    have howns : s.OwnsSince p := ⟨hhandle.live, List.Perm.refl _⟩
    have hfinal : (final (step c) s ops).handle = h := final_file_handle c rfl ops
    refine ⟨file_lives c rfl ops, ?_⟩
    exact sameLedger_of_accounts
      (close_file (final_owns c howns ops) (by rw [hfinal]) (by rw [hfinal]))

theorem closed_memory_leaks :
    ¬ ∀ (c : Platform) (p : Process) (filename : List UInt8) (ops : List Op),
      Balanced c p filename ops := by
  intro h
  have hlive := (h Platform.generous Process.start memoryName []).2.live
  exact absurd hlive.length_eq (by decide)

end AudioFS.CustomAvio
