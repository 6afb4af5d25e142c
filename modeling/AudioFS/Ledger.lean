import AudioFS.Buffer

/-!
# The ledger of live blocks

Which blocks are live and which files are open at a process, compared with an
earlier one: the same ones, with some on top. Every call on a buffer passes the
blocks of the buffer on, and everything below them.
-/

namespace AudioFS
open AudioFS.Buffer

/-- What is live and open at `p` is what was so at `q`, with these blocks and files on top. -/
structure Accounts (q p : Process) (blocks : List ℕ) (fds : List Int32) : Prop where
  live : p.live.Perm (blocks ++ q.live)
  descriptors : p.descriptors.Perm (fds ++ q.descriptors)

namespace Accounts

variable {q p : Process} {blocks rest : List ℕ} {fds : List Int32} {addr : ℕ}

theorem grant (h : Accounts q p blocks fds) : Accounts q p.grant (p.calls :: blocks) fds :=
  ⟨h.live.cons p.calls, h.descriptors⟩

theorem refuse (h : Accounts q p blocks fds) : Accounts q p.refuse blocks fds :=
  ⟨h.live, h.descriptors⟩

theorem fault (h : Accounts q p blocks fds) : Accounts q p.fault blocks fds :=
  ⟨h.live, h.descriptors⟩

theorem syscall (h : Accounts q p blocks fds) : Accounts q p.syscall blocks fds :=
  ⟨h.live, h.descriptors⟩

theorem release (h : Accounts q p (addr :: blocks) fds) :
    Accounts q (p.release addr) blocks fds := by
  have hmem : addr ∈ p.live := h.live.mem_iff.mpr (by simp)
  refine ⟨?_, ?_⟩
  · rw [Process.release, if_pos hmem]
    have herase := h.live.erase addr
    rwa [List.cons_append, List.erase_cons_head] at herase
  · rw [Process.release, if_pos hmem]
    exact h.descriptors

theorem of_perm (h : Accounts q p blocks fds) (hperm : blocks.Perm rest) :
    Accounts q p rest fds :=
  ⟨h.live.trans (hperm.append_right q.live), h.descriptors⟩

theorem swap {a b : ℕ} (h : Accounts q p (a :: b :: rest) fds) :
    Accounts q p (b :: a :: rest) fds :=
  h.of_perm (List.Perm.swap b a rest)

theorem refl (p : Process) : Accounts p p [] [] := ⟨.refl _, .refl _⟩

theorem trans {r : Process} {blocks' : List ℕ} {fds' : List Int32} (h : Accounts q p blocks fds)
    (h' : Accounts p r blocks' fds') : Accounts q r (blocks' ++ blocks) (fds' ++ fds) where
  live := by
    rw [List.append_assoc]
    exact h'.live.trans (h.live.append_left blocks')
  descriptors := by
    rw [List.append_assoc]
    exact h'.descriptors.trans (h.descriptors.append_left fds')

end Accounts

namespace Buffer

def AudiofsBuffer.blocks (b : AudiofsBuffer) (rest : List ℕ) : List ℕ :=
  match b.data with
  | none => b.addr :: rest
  | some block => block.addr :: b.addr :: rest

variable {q p : Process} {rest : List ℕ} {fds : List Int32}

theorem free_accounts {b : AudiofsBuffer} (h : Accounts q p (b.blocks rest) fds) :
    Accounts q (p.free b.data) (b.addr :: rest) fds := by
  cases hd : b.data with
  | none =>
    simp only [AudiofsBuffer.blocks, hd] at h
    exact h
  | some block =>
    simp only [AudiofsBuffer.blocks, hd] at h
    exact h.release

theorem blankNewRegions_accounts {blocks : List ℕ} (h : Accounts q p blocks fds)
    (oldLen size : UInt64) (bytes : List UInt8) :
    Accounts q (blankNewRegions p oldLen size bytes).2 blocks fds := by
  unfold blankNewRegions Process.zeroRange
  split_ifs
  · exact h
  · exact h.fault
  · exact h

theorem emergencyAlloc_accounts (c : Platform) {b : AudiofsBuffer}
    (h : Accounts q p (b.blocks rest) fds) :
    Accounts q (emergencyAlloc c p b).2 ((emergencyAlloc c p b).1.blocks rest) fds := by
  unfold emergencyAlloc
  split_ifs with hneeded
  · have hnone := Option.isNone_iff_eq_none.mp hneeded.2
    simp only [AudiofsBuffer.blocks, hnone] at h
    cases hg : c.grants p.calls b.len with
    | false =>
      simp only [Process.calloc, hg, Bool.false_eq_true, if_false, AudiofsBuffer.blocks]
      exact h.refuse
    | true =>
      simp only [Process.calloc, hg, if_true, AudiofsBuffer.blocks]
      exact h.grant
  · exact h

/-- A resize of any buffer to any size passes its blocks on: the old data block is released and
its successor recorded, or nothing changes. -/
theorem realloc_accounts (c : Platform) (size : UInt64) {b : AudiofsBuffer}
    (h : Accounts q p (b.blocks rest) fds) :
    Accounts q (audiofsBufferRealloc c p b size).2.2
      ((audiofsBufferRealloc c p b size).2.1.blocks rest) fds := by
  rw [audiofsBufferRealloc_exits]
  dsimp only
  split_ifs
  · exact h
  · exact free_accounts h
  · exact emergencyAlloc_accounts c (b := b.unchanged) h
  · exact h.refuse
  · have hgranted := (free_accounts h).grant
    rw [Process.free_calls] at hgranted
    exact blankNewRegions_accounts hgranted _ _ _

end Buffer

end AudioFS
