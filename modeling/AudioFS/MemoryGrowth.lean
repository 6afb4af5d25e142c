import AudioFS.Ladder
import AudioFS.MemorySizes

/-!
# The growth policy of a memory file

The buffer lengths form a ladder: three small rungs, then every multiple of
16 MiB. The growth loop climbs it one rung a round, so a run of the loop that is
not stopped ends at the least rung that covers the request, and one that is
stopped ends at a rung below it.
-/

namespace AudioFS.CustomAvio
open AudioFS.CInteger AudioFS.Buffer StepMachine

def capacities : Set ℕ :=
  {n | n = 1024 ∨ n = 2 ^ 16 ∨ n = 2 ^ 20 ∨ ∃ k, 1 ≤ k ∧ n = 2 ^ 24 * k}

def nextCapacity (n : ℕ) : ℕ :=
  if n < 2 ^ 16 then 2 ^ 16
  else if n < 2 ^ 20 then 2 ^ 20
  else if n < 2 ^ 24 then 2 ^ 24
  else n + 2 ^ 24

theorem nextCapacity_climbs : Ladder.Climbs capacities nextCapacity where
  mem := by
    rintro a (rfl | rfl | rfl | ⟨k, hk, rfl⟩)
    · exact .inr (.inl rfl)
    · exact .inr (.inr (.inl rfl))
    · exact .inr (.inr (.inr ⟨1, le_rfl, rfl⟩))
    · refine .inr (.inr (.inr ⟨k + 1, Nat.le_add_left 1 k, ?_⟩))
      unfold nextCapacity
      split_ifs <;> omega
  lt := by
    intro a _
    unfold nextCapacity
    split_ifs <;> omega
  next_le := by
    rintro a (rfl | rfl | rfl | ⟨k, hk, rfl⟩) b (rfl | rfl | rfl | ⟨j, hj, rfl⟩) hab <;>
      unfold nextCapacity <;> split_ifs <;> omega

/-- Above any size there is a rung less than 16 MiB away. -/
theorem exists_capacity {n : ℕ} (hn : 0 < n) : ∃ m ∈ capacities, n ≤ m ∧ m < n + 2 ^ 24 := by
  refine ⟨2 ^ 24 * ((n + 2 ^ 24 - 1) / 2 ^ 24), .inr (.inr (.inr ⟨_, ?_, rfl⟩)), ?_, ?_⟩ <;> omega

theorem covering_lt {start target m : ℕ} (hs : 0 < start)
    (h : IsLeast (Ladder.covering capacities start target) m) : m < max start target + 2 ^ 24 := by
  obtain ⟨k, hk, hle, hlt⟩ := exists_capacity (hs.trans_le (le_max_left start target))
  exact (h.2 ⟨hk, hle⟩).trans_lt hlt

theorem capacity_pos {n : ℕ} (h : n ∈ capacities) : 0 < n := by
  rcases h with rfl | rfl | rfl | ⟨k, hk, rfl⟩ <;> omega

theorem growthStep_nextCapacity {len : UInt64} (h : len.toNat < 2 ^ 63) :
    (growthStep len).toNat = nextCapacity len.toNat := growthStep_toNat h

theorem asked_lt {size len : UInt64} (hlt : len < size) (hbig : ¬ INT64_MAX < size) :
    len.toNat < 2 ^ 63 := by
  rw [UInt64.lt_iff_toNat_lt] at hlt hbig
  rw [INT64_MAX_toNat] at hbig
  omega

theorem settledLen_mem (c : Platform) (size : UInt64) (rounds calls : ℕ) {len : UInt64}
    (h : len.toNat ∈ capacities) : (settledLen c size rounds calls len).toNat ∈ capacities := by
  induction rounds generalizing calls len with
  | zero => exact h
  | succ rounds ih =>
    rw [settledLen]
    split_ifs with hgrow
    · apply ih
      rw [growthStep_nextCapacity (asked_lt hgrow.1 hgrow.2.1)]
      exact nextCapacity_climbs.mem _ h
    · exact h

theorem settledLen_isLeast (c : Platform) {size : UInt64} (rounds calls : ℕ) {len : UInt64}
    (h : len.toNat ∈ capacities)
    (hsize : size.toNat ≤ (settledLen c size rounds calls len).toNat) :
    IsLeast (Ladder.covering capacities len.toNat size.toNat)
      (settledLen c size rounds calls len).toNat := by
  induction rounds generalizing calls len with
  | zero => exact Ladder.isLeast_self h hsize
  | succ rounds ih =>
    rw [settledLen] at hsize ⊢
    split_ifs at hsize ⊢ with hgrow
    · have hstep := growthStep_nextCapacity (asked_lt hgrow.1 hgrow.2.1)
      have hmem : (growthStep len).toNat ∈ capacities := by
        rw [hstep]
        exact nextCapacity_climbs.mem _ h
      have hleast := ih (calls + 1) hmem hsize
      rwa [hstep, Ladder.covering_next nextCapacity_climbs h
        (UInt64.lt_iff_toNat_lt.mp hgrow.1)] at hleast
    · exact Ladder.isLeast_self h hsize

/-- Once the rounds cover the distance to the requested size, more of them change nothing: the
loop ends by itself. -/
theorem resizeLoop_rounds (c : Platform) (size : UInt64) {rounds rounds' : ℕ} {p : Process}
    {b : AudiofsBuffer} {bytes : List UInt8} (hb : b.Holds bytes)
    (h : size.toNat - b.len.toNat ≤ rounds) (h' : size.toNat - b.len.toNat ≤ rounds') :
    resizeLoop c size rounds p b = resizeLoop c size rounds' p b := by
  have hdone (n : ℕ) {p : Process} {b : AudiofsBuffer} {bytes : List UInt8} (hb : b.Holds bytes)
      (hle : size.toNat ≤ b.len.toNat) : resizeLoop c size n p b = (0, b, p) := by
    cases n with
    | zero => rfl
    | succ n =>
      rw [resizeLoop_succ c size n p hb, if_neg]
      rw [UInt64.lt_iff_toNat_lt]
      omega
  induction rounds generalizing rounds' p b bytes with
  | zero => rw [hdone 0 hb (by omega), hdone rounds' hb (by omega)]
  | succ rounds ih =>
    cases rounds' with
    | zero => rw [hdone 0 hb (by omega), hdone (rounds + 1) hb (by omega)]
    | succ rounds' =>
      rw [resizeLoop_succ c size rounds p hb, resizeLoop_succ c size rounds' p hb]
      split_ifs with hlt hbig hg
      · rfl
      · have hstep := UInt64.lt_iff_toNat_lt.mp (growthStep_of_asked hlt hbig).1
        apply ih (hb.resized c p.calls (growthStep b.len))
        · change size.toNat - (growthStep b.len).toNat ≤ rounds
          omega
        · change size.toNat - (growthStep b.len).toNat ≤ rounds'
          omega
      · rfl
      · rfl

theorem audiofsBufferRealloc_len (c : Platform) (p : Process) {b : AudiofsBuffer} {size : UInt64}
    (hsize : size ≠ 0) (h : (audiofsBufferRealloc c p b size).1 = true) :
    (audiofsBufferRealloc c p b size).2.1.len = size := by
  have hemergency (p : Process) (b : AudiofsBuffer) : (emergencyAlloc c p b).1.len = b.len := by
    unfold emergencyAlloc
    split_ifs <;> rfl
  rw [audiofsBufferRealloc_exits] at h ⊢
  dsimp only at h ⊢
  split_ifs at h ⊢ with hok hsame hg
  · rw [hemergency]
    exact hsame.symm
  · rfl

theorem len_lt_max_iff {len size : UInt64} : len < max size len ↔ len < size := by
  rw [UInt64.lt_iff_toNat_lt, UInt64.lt_iff_toNat_lt, UInt64.toNat_max]
  omega

theorem growthStep_pos {size len : UInt64} (hlt : len < size) (hbig : ¬ INT64_MAX < size) :
    ¬ growthStep len ≤ 0 := by
  have hstep := (growthStep_of_asked hlt hbig).1
  rw [UInt64.lt_iff_toNat_lt] at hstep
  rw [UInt64.le_iff_toNat_le, UInt64.toNat_zero]
  omega

theorem growthStep_ne_zero {size len : UInt64} (hlt : len < size) (hbig : ¬ INT64_MAX < size) :
    growthStep len ≠ 0 := by
  intro heq
  have hzero := growthStep_pos hlt hbig
  rw [heq] at hzero
  exact hzero (UInt64.le_refl 0)

/-- A round of a loop that answers zero, whatever the buffer holds: nothing is left to do, or the
buffer was grown and the loop goes on. -/
theorem resizeLoop_zero_cases (c : Platform) (size : UInt64) (rounds : ℕ) {p : Process}
    {b : AudiofsBuffer} (h : (resizeLoop c size (rounds + 1) p b).1 = 0) :
    (¬ b.len < size ∧ resizeLoop c size (rounds + 1) p b = (0, b, p)) ∨
      (b.len < size ∧ ¬ INT64_MAX < size ∧ ∃ b' p',
        audiofsBufferRealloc c p b (growthStep b.len) = (true, b', p') ∧
          b'.len = growthStep b.len ∧
          resizeLoop c size (rounds + 1) p b = resizeLoop c size rounds p' b') := by
  rw [resizeLoop] at h ⊢
  by_cases hlt : b.len < size
  · by_cases hbig : INT64_MAX < size
    · simp [len_lt_max_iff, hlt, hbig] at h
    · have hzero := growthStep_pos hlt hbig
      have hlen := audiofsBufferRealloc_len c p (b := b) (growthStep_ne_zero hlt hbig)
      simp only [len_lt_max_iff, if_pos hlt, if_neg hbig, if_neg hzero] at h ⊢
      generalize audiofsBufferRealloc c p b (growthStep b.len) = r at h hlen ⊢
      obtain ⟨done, b', p'⟩ := r
      cases done with
      | false =>
        change (-1 : Int64) = 0 at h
        exact absurd h (by decide)
      | true => exact .inr ⟨hlt, hbig, b', p', rfl, hlen rfl, rfl⟩
  · rw [if_neg (fun hgrow => hlt (len_lt_max_iff.mp hgrow))]
    exact .inl ⟨hlt, rfl⟩

theorem resizeLoop_reaches (c : Platform) (size : UInt64) (rounds : ℕ) {p : Process}
    {b : AudiofsBuffer} (hrounds : size.toNat - b.len.toNat ≤ rounds)
    (h : (resizeLoop c size rounds p b).1 = 0) : size ≤ (resizeLoop c size rounds p b).2.1.len := by
  induction rounds generalizing p b with
  | zero =>
    rw [UInt64.le_iff_toNat_le]
    change size.toNat ≤ b.len.toNat
    omega
  | succ rounds ih =>
    rcases resizeLoop_zero_cases c size rounds h with
      ⟨hdone, heq⟩ | ⟨hlt, hbig, b', p', -, hlen, heq⟩
    · rw [heq]
      exact UInt64.not_lt.mp hdone
    · have hstep := UInt64.lt_iff_toNat_lt.mp (growthStep_of_asked hlt hbig).1
      rw [heq] at h ⊢
      apply ih _ h
      rw [hlen]
      omega

theorem resizeTo_reaches (c : Platform) {s : Session} {size : UInt64}
    (h : (audiofsAvioResizeTo c s size).1 = 0) :
    size ≤ (audiofsAvioResizeTo c s size).2.handle.len := by
  cases hb : s.handle.buffer with
  | none =>
    simp only [audiofsAvioResizeTo, hb] at h
    exact absurd h (by decide)
  | some b =>
    simp only [audiofsAvioResizeTo, hb] at h ⊢
    exact resizeLoop_reaches c size _ le_rfl h

/-- What `audiofs_avio_resize_to` promises for a target. A `realloc` that fails is counted in
`refused`. -/
structure GrowthPolicy (c : Platform) (s : Session) (target : UInt64) : Prop where
  terminates : ∀ b, s.handle.buffer = some b → ∀ rounds, target.toNat - b.len.toNat ≤ rounds →
    resizeLoop c target rounds s.process b =
      resizeLoop c target (target.toNat - b.len.toNat) s.process b
  succeeds_iff : (audiofsAvioResizeTo c s target).1 = 0 ↔ target ≤ s.handle.len ∨
    target ≤ INT64_MAX ∧ (audiofsAvioResizeTo c s target).2.process.refused = s.process.refused
  least : (audiofsAvioResizeTo c s target).1 = 0 →
    IsLeast (Ladder.covering capacities s.handle.len.toNat target.toNat)
      (audiofsAvioResizeTo c s target).2.handle.len.toNat
  near : (audiofsAvioResizeTo c s target).1 = 0 →
    (audiofsAvioResizeTo c s target).2.handle.len.toNat <
      max s.handle.len.toNat target.toNat + 2 ^ 24
  stopped : (audiofsAvioResizeTo c s target).1 ≠ 0 →
    (audiofsAvioResizeTo c s target).1 = -1 ∧
      (audiofsAvioResizeTo c s target).2.handle.len.toNat ∈ capacities ∧
      s.handle.len ≤ (audiofsAvioResizeTo c s target).2.handle.len ∧
      (audiofsAvioResizeTo c s target).2.handle.len < target
  kept : s.handle.data <+: (audiofsAvioResizeTo c s target).2.handle.data
  position : (audiofsAvioResizeTo c s target).2.handle.position = s.handle.position
  apparentSize : (audiofsAvioResizeTo c s target).2.handle.apparentSize = s.handle.apparentSize

section Backed

variable (c : Platform) {s : Session} {b : AudiofsBuffer} {bytes : List UInt8}
  (m : Memory s b bytes) (target : UInt64)

include m

theorem resizeTo_len_settled : (audiofsAvioResizeTo c s target).2.handle.len =
    settledLen c target (target.toNat - b.len.toNat) s.process.calls b.len := by
  rw [resizeTo_settled c m, Session.settled, m.buffer]

theorem resizeTo_succeeds_iff : (audiofsAvioResizeTo c s target).1 = 0 ↔ target ≤ s.handle.len ∨
    target ≤ INT64_MAX ∧
      (audiofsAvioResizeTo c s target).2.process.refused = s.process.refused := by
  obtain ⟨new, hres, hout⟩ := resizeTo_spec c m target
  rw [UInt64.le_iff_toNat_le, UInt64.le_iff_toNat_le, INT64_MAX_toNat, m.len_eq, ← m.length]
  rcases hout with ⟨hret, -, href, hbig⟩ | ⟨hret, hlt, hwhy⟩
  · rw [UInt64.lt_iff_toNat_lt, INT64_MAX_toNat] at hbig
    simp only [hret, href, and_true, true_iff]
    omega
  · have hkept := hres.kept.length_le
    rw [UInt64.lt_iff_toNat_lt, INT64_MAX_toNat] at hwhy
    refine iff_of_false (by rw [hret]; decide) ?_
    omega

theorem resizeTo_least (hcap : b.len.toNat ∈ capacities)
    (h : (audiofsAvioResizeTo c s target).1 = 0) :
    IsLeast (Ladder.covering capacities s.handle.len.toNat target.toNat)
      (audiofsAvioResizeTo c s target).2.handle.len.toNat := by
  have hsize := UInt64.le_iff_toNat_le.mp (resizeTo_reaches c h)
  rw [resizeTo_len_settled c m] at hsize ⊢
  rw [m.len_eq]
  exact settledLen_isLeast c _ _ hcap hsize

end Backed

theorem resizeTo_policy (c : Platform) {s : Session} {b : AudiofsBuffer} {bytes : List UInt8}
    (m : Memory s b bytes) (hcap : s.handle.len.toNat ∈ capacities) (target : UInt64) :
    GrowthPolicy c s target := by
  obtain ⟨new, hres, hout⟩ := resizeTo_spec c m target
  obtain ⟨b', m'⟩ := hres.memory
  have hmono := m.len_mono m' hres.kept
  have hcap' : b.len.toNat ∈ capacities := by
    rwa [m.len_eq] at hcap
  have hleast := resizeTo_least c m target hcap'
  refine ⟨?_, resizeTo_succeeds_iff c m target, hleast,
    fun h => covering_lt (capacity_pos hcap) (hleast h), ?_, ?_, hres.position, hres.apparentSize⟩
  · intro b₁ hb₁ rounds hrounds
    have hsame : b = b₁ := Option.some.inj (m.buffer.symm.trans hb₁)
    subst hsame
    exact resizeLoop_rounds c target m.holds hrounds le_rfl
  · intro hfail
    rcases hout with ⟨hret, -, -, -⟩ | ⟨hret, hlt, -⟩
    · exact absurd hret hfail
    · refine ⟨hret, ?_, hmono, ?_⟩
      · rw [resizeTo_len_settled c m]
        exact settledLen_mem c target _ _ hcap'
      · rw [UInt64.lt_iff_toNat_lt, m'.len_eq, ← m'.length]
        exact hlt
  · rw [m.data_eq, m'.data_eq]
    exact hres.kept

theorem unbacked_no_policy (c : Platform) {s : Session} (h : Unbacked s) (target : UInt64) :
    ¬ GrowthPolicy c s target := by
  intro hp
  have hret : (audiofsAvioResizeTo c s target).1 = -1 := by
    simp only [audiofsAvioResizeTo, h.buffer]
  obtain ⟨-, hmem, -, -⟩ := hp.stopped (by rw [hret]; decide)
  have hlen : (audiofsAvioResizeTo c s target).2.handle.len = 0 := by
    simp only [audiofsAvioResizeTo, AudiofsAvioHandle.len, h.buffer]
  rw [hlen] at hmem
  exact absurd (capacity_pos hmem) (lt_irrefl 0)

def OnLadder (s : Session) : Prop :=
  (WellFormed s ∧ s.handle.len.toNat ∈ capacities) ∨ Unbacked s

theorem opened_onLadder {c : Platform} {s : Session} (h : Opened c s) : OnLadder s := by
  obtain ⟨p, hopen⟩ := h
  obtain ⟨-, -, ⟨b, m⟩ | ⟨hun, -⟩⟩ := opened_cases hopen
  · refine .inl ⟨⟨b, _, m⟩, .inl ?_⟩
    rw [m.len_eq, ← m.length, List.length_replicate]
  · exact .inr hun

theorem step_onLadder (c : Platform) (s : Session) (op : Op) (h : OnLadder s) :
    OnLadder (step c s op).2 := by
  rcases h with ⟨⟨b, bytes, m⟩, hcap⟩ | hun
  · refine .inl ⟨step_wellFormed c ⟨b, bytes, m⟩ op, ?_⟩
    rw [step_len c m op, Session.lenAfter]
    cases s.handle.asks op with
    | none => exact hcap
    | some size =>
      rw [m.len_eq] at hcap
      simp only [Session.settled, m.buffer]
      exact settledLen_mem c size _ _ hcap
  · exact .inr (step_unbacked c hun op).1

theorem reached_onLadder {c : Platform} {s : Session} (h : Opened c s) (ops : List Op) :
    OnLadder (final (step c) s ops) :=
  final_invariant (A := fun _ => True) (fun s op _ hs => step_onLadder c s op hs)
    (opened_onLadder h) ops (fun _ _ => trivial)

/-- A reached memory handle keeps the growth policy for every target exactly when it has a buffer:
an open whose buffer allocation failed hands out a handle without one. -/
theorem growth_policy_iff (c : Platform) {s : Session} (h : Opened c s) (ops : List Op)
    (target : UInt64) :
    GrowthPolicy c (final (step c) s ops) target ↔
      (final (step c) s ops).handle.buffer.isSome = true := by
  rcases reached_onLadder h ops with ⟨⟨b, bytes, m⟩, hcap⟩ | hun
  · exact iff_of_true (resizeTo_policy c m hcap target) (by rw [m.buffer]; rfl)
  · refine iff_of_false (unbacked_no_policy c hun target) ?_
    rw [hun.buffer]
    decide

theorem first_growth_policy :
    Opened Platform.generous Session.first ∧
      GrowthPolicy Platform.generous (final (step Platform.generous) Session.first appendingRun)
        100000 :=
  ⟨first_opened.opened,
    (growth_policy_iff Platform.generous first_opened.opened appendingRun 100000).mpr
      (by decide +kernel)⟩

def Platform.handleOnly : Platform :=
  { Platform.generous with grants := fun call _ => call == 0 }

def Session.withoutBuffer : Session :=
  ⟨(audiofsAvioOpen Platform.handleOnly Process.start memoryName).2, ⟨0, 0, true, none, 0, 0⟩⟩

theorem withoutBuffer_opened : Opened Platform.handleOnly Session.withoutBuffer :=
  ⟨Process.start, rfl⟩

theorem handle_without_buffer_does_not_grow :
    ¬ ∀ (c : Platform) (s : Session), Opened c s → ∀ (ops : List Op) (target : UInt64),
      GrowthPolicy c (final (step c) s ops) target := by
  intro h
  have hunbacked : Unbacked Session.withoutBuffer := ⟨rfl, rfl, rfl, rfl⟩
  exact unbacked_no_policy Platform.handleOnly hunbacked 1
    (h Platform.handleOnly Session.withoutBuffer withoutBuffer_opened [] 1)

end AudioFS.CustomAvio
