import AudioFS.BufferRepresentation
import AudioFS.StepMachine

/-!
# Histories of buffers

Any number of buffers, allocated and resized in any order under any allocator, in one
memory. What a buffer says of its data stays true of all of them as long as no resize
changes a byte of another structure or of the allocator's records or writes where
nothing is writable. A resize to a smaller size can: it clears a range that begins behind
the block it was given.
-/

namespace AudioFS.BufferHistory
open ByteMemory ByteHeap StepMachine AudioFS.BufferStructure

/-- The structures allocated so far; a buffer is known by its place among them. -/
structure State where
  heap : Heap
  buffers : List ℕ

inductive Op
  | alloc (size : UInt64)
  | realloc (k : ℕ) (size : UInt64)

/-- A place that has no structure stands for `NULL`. -/
def State.pointer (s : State) (k : ℕ) : ℕ := s.buffers[k]?.getD 0

/-- The output is what `audiofs_buffer_realloc` answered. -/
def step (c : Allocator) (s : State) : Op → Option Answer × State
  | .alloc size =>
    match audiofsBufferAlloc c s.heap size with
    | (none, h) => (none, ⟨h, s.buffers⟩)
    | (some b, h) => (none, ⟨h, s.buffers ++ [b]⟩)
  | .realloc k size =>
    let r := audiofsBufferRealloc c s.heap (s.pointer k) size
    (some r.1, ⟨r.2, s.buffers⟩)

/-- The step clears writable memory only, and nothing that is not zero in a field of a structure
which is read later or in the allocator's records. -/
def SparesStructures (c : Allocator) (t : Transition State Op (Option Answer)) : Prop :=
  match t.input with
  | .alloc _ => True
  | .realloc k size => Spares c t.before.buffers t.before.heap (t.before.pointer k) size

instance (c : Allocator) (t : Transition State Op (Option Answer)) :
    Decidable (SparesStructures c t) :=
  match t with
  | ⟨_, .alloc _, _, _⟩ => isTrue trivial
  | ⟨s, .realloc k size, _, _⟩ =>
    inferInstanceAs (Decidable (Spares c s.buffers s.heap (s.pointer k) size))

/-! ### What is claimed of the buffers -/

structure Represents (h : Heap) (b : ℕ) : Prop where
  ok : audiofsBufferOk h b = true
  null_iff : get h b data = 0 ↔ get h b len = 0
  live : get h b len ≠ 0 → ⟨get h b data, get h b len⟩ ∈ h.live
  unlocked : get h b lock = 0

/-- What a resize of `b` to `size` bytes answers and leaves alone. -/
structure SoundResize (h h' : Heap) (b : ℕ) (size : UInt64) (a : Answer) : Prop where
  true_iff : a.resized = true ↔ get h' b len = size.toNat
  refused : a.resized = false → get h' b data = get h b data ∧ get h' b len = get h b len
  unlocked : get h' b lock = 0
  noEmergency : a.emergency = false

/-- Every resize is sound, and one of `NULL` fails and changes nothing. -/
def ResizesSoundly (t : Transition State Op (Option Answer)) : Prop :=
  ∀ k size, t.input = .realloc k size →
    (∀ b, t.before.buffers[k]? = some b → ∃ a, t.output = some a ∧
      SoundResize t.before.heap t.after.heap b size a) ∧
    (t.before.buffers[k]? = none → t.output = some ⟨false, false⟩ ∧ t.after = t.before)

/-- After the run every buffer is what it says it is, and every resize in it was sound. -/
def RepresentedThroughout (c : Allocator) (h : Heap) (ops : List Op) : Prop :=
  (∀ b ∈ (final (step c) ⟨h, []⟩ ops).buffers,
    Represents (final (step c) ⟨h, []⟩ ops).heap b) ∧
  ∀ t ∈ trace (step c) ⟨h, []⟩ ops, ResizesSoundly t

/-! ### One resize -/

section OneResize

variable {c : Allocator} {rest : List Region} {h : Heap} {b d n : ℕ} {size : UInt64}
  {r : Answer × Heap}

theorem exit_sound (hx : Exit c rest h b d n size r) (hb : Describes h b d n) :
    SoundResize h r.2 b size r.1 := by
  cases hx with
  | emptied hzero hs hk =>
    refine ⟨iff_of_true rfl ?_, fun hfalse => absurd hfalse (by simp), hs.unlocked, rfl⟩
    rw [hs.describes.lenIs, hzero]
    rfl
  | same hzero hsame hs hk =>
    refine ⟨iff_of_true rfl ?_, fun hfalse => absurd hfalse (by simp), hs.unlocked, rfl⟩
    rw [hs.describes.lenIs, hsame]
  | refused hzero hne hnone hs hk =>
    refine ⟨iff_of_false Bool.false_ne_true ?_, fun _ => ⟨?_, ?_⟩, hs.unlocked, rfl⟩
    · rw [hs.describes.lenIs]
      exact Ne.symm hne
    · rw [hs.describes.dataIs, hb.dataIs]
    · rw [hs.describes.lenIs, hb.lenIs]
  | resized hzero hne ha hs hmoved hmisuses hframe =>
    exact ⟨iff_of_true rfl hs.describes.lenIs, fun hfalse => absurd hfalse (by simp), hs.unlocked,
      rfl⟩

theorem exit_settled (hx : Exit c rest h b d n size r) (hnull : d = 0 ↔ n = 0) :
    ∃ d' n', Settled rest b d' n' r.2 ∧ (d' = 0 ↔ n' = 0) := by
  cases hx with
  | emptied hzero hs hk => exact ⟨0, 0, hs, Iff.rfl⟩
  | same hzero hsame hs hk => exact ⟨d, n, hs, hnull⟩
  | refused hzero hne hnone hs hk => exact ⟨d, n, hs, hnull⟩
  | @resized a h' hzero hne ha hs hmoved hmisuses hframe =>
    refine ⟨a, size.toNat, hs, iff_of_false ha fun hsize => hzero ?_⟩
    exact UInt64.toNat_inj.mp hsize

theorem exit_frame (hx : Exit c rest h b d n size r) :
    r.2.misuses = h.misuses ∧ ∀ x, Covers rest x →
      r.2.memory x = h.memory x ∨ Clears c h b size x ∧ r.2.memory x = 0 := by
  cases hx with
  | emptied hzero hs hk => exact ⟨hk.misuses, fun x hx => .inl (hk.memory x hx)⟩
  | same hzero hsame hs hk => exact ⟨hk.misuses, fun x hx => .inl (hk.of_append.memory x hx)⟩
  | refused hzero hne hnone hs hk =>
    exact ⟨hk.misuses, fun x hx => .inl (hk.of_append.memory x hx)⟩
  | resized hzero hne ha hs hmoved hmisuses hframe => exact ⟨hmisuses, hframe⟩

theorem fields_inside : ∀ f ∈ [cookie, data, len, self], f.Inside := by decide

/-- A structure that a resize of another one spares reads as before. -/
theorem get_spared {buffers : List ℕ} (hspares : Spares c buffers h b size) {h' : Heap}
    {b' : ℕ} (hmem : b' ∈ buffers) (hne : b' ≠ b) (hrest : header b' ∈ rest)
    (hframe : ∀ x, Covers rest x →
      h'.memory x = h.memory x ∨ Clears c h b size x ∧ h'.memory x = 0)
    {f : Field} (hf : f ∈ [cookie, data, len, self]) : get h' b' f = get h b' f := by
  have hinside := fields_inside f hf
  apply load_congr
  intro i hi
  rcases hframe _ ⟨header b', hrest, header_holds b' hinside hi⟩ with hsame | ⟨⟨e, he, hold⟩, hzero⟩
  · exact hsame
  · have hspared := (hspares e he).2 b' hmem
    rw [fieldsRead, if_neg hne] at hspared
    rw [hzero, hspared f hf i hi hold]

theorem lock_eq_zero {h' : Heap} {b' : ℕ} (hrest : header b' ∈ rest)
    (hframe : ∀ x, Covers rest x →
      h'.memory x = h.memory x ∨ Clears c h b size x ∧ h'.memory x = 0)
    (hlock : get h b' lock = 0) : get h' b' lock = 0 := by
  apply load_eq_zero_iff.mpr
  intro i hi
  rcases hframe _ ⟨header b', hrest, header_holds b' (by decide) hi⟩ with hsame | ⟨-, hzero⟩
  · rw [hsame]
    exact load_eq_zero_iff.mp hlock i hi
  · exact hzero

end OneResize

/-! ### All buffers of a history -/

def blocks (h : Heap) (b : ℕ) : List Region := header b :: blockAt (get h b data) (get h b len)

def blocksOf (h : Heap) (buffers : List ℕ) : List Region := buffers.flatMap (blocks h)

/-- The part of a buffer's representation that its own structure tells. -/
structure Shaped (h : Heap) (b : ℕ) : Prop where
  cookie : get h b cookie = AudioFS.Buffer.contextMagicA.toNat
  self : get h b self = b
  null_iff : get h b data = 0 ↔ get h b len = 0
  unlocked : get h b lock = 0

theorem Shaped.describes {h : Heap} {b : ℕ} (hb : Shaped h b) :
    Describes h b (get h b data) (get h b len) :=
  ⟨hb.cookie, hb.self, rfl, rfl⟩

/-- Since the heap `q` the buffers have come to be, and what is live is their blocks and what
was live before. -/
structure Kept (q : Heap) (s : State) : Prop where
  sound : Sound s.heap
  shaped : ∀ b ∈ s.buffers, Shaped s.heap b
  live : s.heap.live.Perm (blocksOf s.heap s.buffers ++ q.live)
  misuses : s.heap.misuses = q.misuses

theorem settled_shaped {rest : List Region} {h : Heap} {b d n : ℕ} (hs : Settled rest b d n h)
    (hnull : d = 0 ↔ n = 0) :
    Shaped h b ∧ h.live.Perm (blocks h b ++ rest) := by
  obtain ⟨hcookie, hself, hdata, hlen⟩ := hs.describes
  refine ⟨⟨hcookie, hself, ?_, hs.unlocked⟩, ?_⟩
  · rwa [hdata, hlen]
  · rw [blocks, hdata, hlen]
    exact hs.live

theorem blocks_congr {h h' : Heap} {b : ℕ} (hdata : get h' b data = get h b data)
    (hlen : get h' b len = get h b len) : blocks h' b = blocks h b := by
  rw [blocks, blocks, hdata, hlen]

/-- A structure whose fields read as before is what it was. -/
theorem shaped_congr {h h' : Heap} {b : ℕ} (hb : Shaped h b)
    (hget : ∀ f ∈ [cookie, data, len, self], get h' b f = get h b f)
    (hlock : get h' b lock = 0) : Shaped h' b ∧ blocks h' b = blocks h b := by
  have hdata := hget data (by simp)
  have hlen := hget len (by simp)
  refine ⟨⟨?_, ?_, ?_, hlock⟩, blocks_congr hdata hlen⟩
  · rw [hget cookie (by simp), hb.cookie]
  · rw [hget self (by simp), hb.self]
  · rw [hdata, hlen, hb.null_iff]

theorem blocksOf_congr {h h' : Heap} {buffers : List ℕ}
    (hall : ∀ b ∈ buffers, blocks h' b = blocks h b) : blocksOf h' buffers = blocksOf h buffers :=
  List.flatMap_congr hall

section Invariant

variable {c : Allocator} {q : Heap} {s : State}

theorem Kept.settled (hk : Kept q s) {b : ℕ} {others : List ℕ}
    (hperm : s.buffers.Perm (b :: others)) :
    Settled (blocksOf s.heap others ++ q.live) b (get s.heap b data) (get s.heap b len) s.heap := by
  have hshaped := hk.shaped b (hperm.mem_iff.mpr List.mem_cons_self)
  refine ⟨⟨hk.sound, hshaped.describes, ?_⟩, hshaped.unlocked⟩
  have hblocks : (blocksOf s.heap s.buffers).Perm (blocks s.heap b ++ blocksOf s.heap others) :=
    hperm.flatMap_right _
  refine (hk.live.trans (hblocks.append_right q.live)).trans ?_
  rw [blocks, List.cons_append, List.cons_append, List.append_assoc]

theorem Kept.represents (hk : Kept q s) {b : ℕ} (hb : b ∈ s.buffers) : Represents s.heap b := by
  have hshaped := hk.shaped b hb
  have hsettled := hk.settled (List.perm_cons_erase hb)
  refine ⟨hsettled.ok, hshaped.null_iff, fun hlen => ?_, hshaped.unlocked⟩
  apply hsettled.live.mem_iff.mpr
  rw [blockAt_of_ne (mt hshaped.null_iff.mp hlen)]
  simp

theorem alloc_kept (hc : Documented c) (hk : Kept q s) (size : UInt64) :
    Kept q (step c s (.alloc size)).2 := by
  have hout := alloc_outcome hc hk.sound size
  simp only [step]
  generalize audiofsBufferAlloc c s.heap size = r at hout
  -- what is there already is live, and the call keeps what is live
  have hold : ∀ h', Keeps s.heap.live s.heap h' → (∀ b ∈ s.buffers, Shaped h' b) ∧
      blocksOf h' s.buffers = blocksOf s.heap s.buffers := by
    intro h' hkeeps
    have hcongr : ∀ b ∈ s.buffers, Shaped h' b ∧ blocks h' b = blocks s.heap b := by
      intro b hb
      have hlive : header b ∈ s.heap.live := hk.live.mem_iff.mpr
        (List.mem_append_left _ (List.mem_flatMap.mpr ⟨b, hb, List.mem_cons_self⟩))
      have hshaped := hk.shaped b hb
      refine shaped_congr hshaped (fun f hf => get_keeps hkeeps hlive (fields_inside f hf)) ?_
      rw [get_keeps hkeeps hlive (by decide), hshaped.unlocked]
    exact ⟨fun b hb => (hcongr b hb).1, blocksOf_congr fun b hb => (hcongr b hb).2⟩
  cases hout with
  | @failed h' hsound hlive hkeeps =>
    obtain ⟨hshaped, hblocks⟩ := hold h' hkeeps
    refine ⟨hsound, hshaped, ?_, hkeeps.misuses.trans hk.misuses⟩
    rw [hblocks]
    exact hlive.trans hk.live
  | @made b d h' hsettled hnull hkeeps =>
    obtain ⟨hshaped, hblocks⟩ := hold h' hkeeps
    have hnull' : d = 0 ↔ size.toNat = 0 := by
      rw [hnull, ← UInt64.toNat_inj]
      rfl
    obtain ⟨hnew, hlive⟩ := settled_shaped hsettled hnull'
    refine ⟨hsettled.sound, ?_, ?_, hkeeps.misuses.trans hk.misuses⟩
    · intro b' hb'
      rcases List.mem_append.mp hb' with hthere | hadded
      · exact hshaped b' hthere
      · rw [List.mem_singleton.mp hadded]
        exact hnew
    · rw [blocksOf, List.flatMap_append, List.flatMap_singleton]
      change h'.live.Perm (blocksOf h' s.buffers ++ blocks h' b ++ q.live)
      rw [hblocks]
      refine hlive.trans ((hk.live.append_left _).trans ?_)
      rw [← List.append_assoc]
      exact List.perm_append_comm.append_right q.live

theorem pointer_null {k : ℕ} (hk : s.buffers[k]? = none) : s.pointer k = 0 := by
  rw [State.pointer, hk]
  rfl

theorem pointer_eq {k b : ℕ} (hk : s.buffers[k]? = some b) : s.pointer k = b := by
  rw [State.pointer, hk]
  rfl

theorem realloc_null (c : Allocator) (h : Heap) (size : UInt64) :
    audiofsBufferRealloc c h 0 size = (⟨false, false⟩, h) := rfl

theorem realloc_kept (hc : Documented c) (hk : Kept q s) {k b : ℕ} {size : UInt64}
    (hb : s.buffers[k]? = some b) (hspares : Spares c s.buffers s.heap b size) :
    Kept q (step c s (.realloc k size)).2 ∧
      SoundResize s.heap (step c s (.realloc k size)).2.heap b size
        (audiofsBufferRealloc c s.heap b size).1 := by
  have hmem : b ∈ s.buffers := List.mem_of_getElem? hb
  have hperm := List.perm_cons_erase hmem
  have hsettled := hk.settled hperm
  have hexit := realloc_exit hc hsettled (hk.shaped b hmem).null_iff hmem hspares
  simp only [step, pointer_eq hb]
  refine ⟨?_, exit_sound hexit hsettled.describes⟩
  generalize audiofsBufferRealloc c s.heap b size = r at hexit
  obtain ⟨d', n', hdone, hnull⟩ := exit_settled hexit (hk.shaped b hmem).null_iff
  obtain ⟨hmisuses, hframe⟩ := exit_frame hexit
  obtain ⟨hown, hlive⟩ := settled_shaped hdone hnull
  have hother : ∀ b' ∈ s.buffers.erase b, b' ≠ b ∧
      header b' ∈ blocksOf s.heap (s.buffers.erase b) ++ q.live := by
    intro b' hb'
    have hthere : header b' ∈ blocksOf s.heap (s.buffers.erase b) :=
      List.mem_flatMap.mpr ⟨b', hb', List.mem_cons_self⟩
    refine ⟨?_, List.mem_append_left _ hthere⟩
    rintro rfl
    exact (hsettled.header_apart_rest _ (List.mem_append_left _ hthere)).1 rfl
  have hcongr : ∀ b' ∈ s.buffers.erase b,
      Shaped r.2 b' ∧ blocks r.2 b' = blocks s.heap b' := by
    intro b' hb'
    obtain ⟨hne, hrest⟩ := hother b' hb'
    have hshaped := hk.shaped b' (List.mem_of_mem_erase hb')
    refine shaped_congr hshaped (fun f hf => ?_) (lock_eq_zero hrest hframe hshaped.unlocked)
    exact get_spared hspares (List.mem_of_mem_erase hb') hne hrest hframe hf
  refine ⟨hdone.sound, ?_, ?_, hmisuses.trans hk.misuses⟩
  · intro b' hb'
    rcases List.mem_cons.mp (hperm.mem_iff.mp hb') with rfl | herase
    · exact hown
    · exact (hcongr b' herase).1
  · have hsplit : (blocksOf r.2 s.buffers).Perm
        (blocks r.2 b ++ blocksOf s.heap (s.buffers.erase b)) := by
      rw [← blocksOf_congr fun b' hb' => (hcongr b' hb').2]
      exact hperm.flatMap_right _
    refine hlive.trans (List.Perm.trans ?_ (hsplit.symm.append_right q.live))
    rw [List.append_assoc]

theorem step_kept (hc : Documented c) (s : State) (op : Op) (hk : Kept q s)
    (hspares : SparesStructures c (transition (step c) s op)) :
    Kept q (step c s op).2 ∧ ResizesSoundly (transition (step c) s op) := by
  cases op with
  | alloc size =>
    exact ⟨alloc_kept hc hk size, fun k size hinput => Op.noConfusion hinput⟩
  | realloc k size =>
    change Spares c s.buffers s.heap (s.pointer k) size at hspares
    cases hb : s.buffers[k]? with
    | none =>
      have hstep : step c s (.realloc k size) = (some ⟨false, false⟩, s) := by
        simp only [step, pointer_null hb, realloc_null]
      rw [hstep]
      refine ⟨hk, fun k' size' hinput => ?_⟩
      obtain ⟨rfl, rfl⟩ := Op.realloc.inj hinput
      refine ⟨fun b hsome => ?_, fun _ => ⟨congrArg Prod.fst hstep, congrArg Prod.snd hstep⟩⟩
      rw [transition, hb] at hsome
      exact absurd hsome (by simp)
    | some b =>
      rw [pointer_eq hb] at hspares
      obtain ⟨hkept, hsound⟩ := realloc_kept hc hk hb hspares
      refine ⟨hkept, fun k' size' hinput => ?_⟩
      obtain ⟨rfl, rfl⟩ := Op.realloc.inj hinput
      refine ⟨fun b' hb' => ?_, fun hnone => ?_⟩
      · obtain rfl : b = b' := Option.some.inj (hb.symm.trans hb')
        refine ⟨_, ?_, hsound⟩
        simp only [transition, step, pointer_eq hb]
      · exact absurd (hb.symm.trans hnone) (by simp)

end Invariant

theorem start_kept {q : Heap} (hs : Sound q) : Kept q ⟨q, []⟩ :=
  ⟨hs, by simp, .refl _, rfl⟩

theorem final_kept {c : Allocator} (hc : Documented c) {h : Heap} (hs : Sound h) (ops : List Op)
    (hspares : ∀ t ∈ trace (step c) ⟨h, []⟩ ops, SparesStructures c t) :
    Kept h (final (step c) ⟨h, []⟩ ops) :=
  final_while (fun s op hk hop => (step_kept hc s op hk hop).1) (start_kept hs) ops hspares

/-- No block belongs to two buffers or to something older than them: freeing or replacing the
data of one leaves the others theirs. -/
theorem buffers_separate {c : Allocator} (hc : Documented c) {h : Heap} (hs : Sound h)
    (ops : List Op) (hspares : ∀ t ∈ trace (step c) ⟨h, []⟩ ops, SparesStructures c t) :
    (blocksOf (final (step c) ⟨h, []⟩ ops).heap (final (step c) ⟨h, []⟩ ops).buffers ++
      h.live).Pairwise Region.Apart := by
  have hkept := final_kept hc hs ops hspares
  exact (hkept.sound.of_perm hkept.live).1

/-! ### An allocator with chunks -/

/-- The bytes a block takes up with the allocator's word in front of it. -/
def chunkSize (n : ℕ) : ℕ := max 32 ((n + 23) / 16 * 16)

def chunkEnd (r : Region) : ℕ := r.start + chunkSize r.size

/-- Where the block of the next new chunk starts. -/
def top (h : Heap) : ℕ := h.live.foldr (fun r t => max t (chunkEnd r)) 16

def arenaSize : ℕ := 2 ^ 20

def offer (live : List Region) (a n : ℕ) : Option ℕ :=
  if Fits live ⟨a, n⟩ ∧ a + n ≤ arenaSize then some a else none

/-- One arena is writable. Chunks follow one another in it, each with a word for its size in front
of its block, and so does the unused rest. A block that still fits stays where it is. What nobody
was given is not zero. -/
def chunked : Allocator where
  calloc h n := offer h.live (top h) n
  realloc h p n :=
    offer (h.others p) (if p ≠ 0 ∧ chunkSize n ≤ chunkSize (h.sizeAt p) then p else top h) n
  leaves _ _ := 165
  keeps h x := decide (∃ a ∈ top h :: h.live.map Region.start, a ≤ x + 8 ∧ x < a)
  writable _ x := decide (x < arenaSize)

theorem chunked_documented : Documented chunked where
  calloc h n a _ hanswer := by
    simp only [chunked, offer, Option.ite_none_right_eq_some, Option.some.injEq] at hanswer
    obtain ⟨⟨hfits, -⟩, rfl⟩ := hanswer
    exact hfits
  realloc h p n a _ _ hanswer := by
    simp only [chunked, offer, Option.ite_none_right_eq_some, Option.some.injEq] at hanswer
    obtain ⟨⟨hfits, -⟩, rfl⟩ := hanswer
    exact hfits

def unused : Heap := ⟨fun _ => 165, [], 0, true, 0⟩

theorem unused_sound : Sound unused := ⟨rfl, .nil, by simp [unused]⟩

/-! ### Every run -/

theorem buffers_represented {c : Allocator} (hc : Documented c) {h : Heap} (hs : Sound h)
    (ops : List Op) (hspares : ∀ t ∈ trace (step c) ⟨h, []⟩ ops, SparesStructures c t) :
    RepresentedThroughout c h ops := by
  refine ⟨fun b hb => (final_kept hc hs ops hspares).represents hb, ?_⟩
  exact trace_while (fun s op hk hop => (step_kept hc s op hk hop).1)
    (fun s op hk hop => (step_kept hc s op hk hop).2) (start_kept hs) ops hspares

theorem shrunk_within_chunk :
    RepresentedThroughout chunked unused
      [.alloc 20, .alloc 0, .realloc 0 18, .realloc 1 5, .realloc 0 40, .realloc 1 0,
        .realloc 7 1] :=
  buffers_represented chunked_documented unused_sound _ (by decide +kernel)

/-- Two buffers of 1032 and 8 bytes; the first is resized to 1008 bytes. -/
theorem shrinking_clears_next_buffer :
    ¬ ∀ c, Documented c → ∀ h, Sound h → ∀ ops, RepresentedThroughout c h ops := by
  intro hall
  have hnext := (hall chunked chunked_documented unused unused_sound
    [.alloc 1032, .alloc 8, .realloc 0 1008]).1 1184 (by decide +kernel)
  have hlen := hnext.null_iff.mp (by decide +kernel)
  exact absurd hlen (by decide +kernel)

end AudioFS.BufferHistory
