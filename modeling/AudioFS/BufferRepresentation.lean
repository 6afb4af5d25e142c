import AudioFS.BufferStructure

/-!
# What the functions of `util.h` leave in a structure

The exits of an allocation and of a resize, each with the structure it leaves, the
blocks that are live after it and what it did to the rest of memory. Only one of them
reaches beyond its own blocks: the resize to a smaller size, which clears a range behind
the block it was given.
-/

namespace AudioFS.BufferStructure
open ByteMemory ByteHeap AudioFS.Buffer

/-- The structure at `b` is valid and describes its data as `n` bytes at `d`. -/
structure Describes (h : Heap) (b d n : ℕ) : Prop where
  cookieIs : get h b cookie = contextMagicA.toNat
  selfIs : get h b self = b
  dataIs : get h b data = d
  lenIs : get h b len = n

section Describes

variable {h h' : Heap} {b d n v : ℕ}

theorem Describes.keeps (hb : Describes h b d n) {kept : List Region} (hk : Keeps kept h h')
    (hmem : header b ∈ kept) : Describes h' b d n :=
  ⟨(get_keeps hk hmem (by decide)).trans hb.cookieIs,
    (get_keeps hk hmem (by decide)).trans hb.selfIs,
    (get_keeps hk hmem (by decide)).trans hb.dataIs,
    (get_keeps hk hmem (by decide)).trans hb.lenIs⟩

theorem Describes.set_apart (hb : Describes h b d n) {f : Field} (hcookie : f.Apart cookie)
    (hself : f.Apart self) (hdata : f.Apart data) (hlen : f.Apart len) (v : ℕ) :
    Describes (set h b f v) b d n :=
  ⟨(get_set_apart h b v hcookie).trans hb.cookieIs, (get_set_apart h b v hself).trans hb.selfIs,
    (get_set_apart h b v hdata).trans hb.dataIs, (get_set_apart h b v hlen).trans hb.lenIs⟩

theorem Describes.set_lock (hb : Describes h b d n) (v : ℕ) : Describes (set h b lock v) b d n :=
  hb.set_apart (by decide) (by decide) (by decide) (by decide) v

theorem Describes.set_usedOutside (hb : Describes h b d n) (v : ℕ) :
    Describes (set h b usedOutsideAudiofs v) b d n :=
  hb.set_apart (by decide) (by decide) (by decide) (by decide) v

theorem Describes.set_data (hb : Describes h b d n) (hv : v < 256 ^ data.width) :
    Describes (set h b data v) b v n :=
  ⟨(get_set_apart h b v (by decide)).trans hb.cookieIs,
    (get_set_apart h b v (by decide)).trans hb.selfIs, get_set h b hv,
    (get_set_apart h b v (by decide)).trans hb.lenIs⟩

theorem Describes.set_len (hb : Describes h b d n) (hv : v < 256 ^ len.width) :
    Describes (set h b len v) b d v :=
  ⟨(get_set_apart h b v (by decide)).trans hb.cookieIs,
    (get_set_apart h b v (by decide)).trans hb.selfIs,
    (get_set_apart h b v (by decide)).trans hb.dataIs, get_set h b hv⟩

theorem Describes.ok (hb : Describes h b d n) (hne : b ≠ 0) : audiofsBufferOk h b = true := by
  simp [audiofsBufferOk, hne, hb.cookieIs, hb.selfIs]

theorem Describes.enter (hb : Describes h b d n) : Describes (enter h b) b d n :=
  (hb.set_lock 1).set_usedOutside 0

end Describes

theorem size_lt_word (size : UInt64) : size.toNat < 256 ^ len.width := size.toNat_lt

theorem placed_lt_word {a n : ℕ} (ha : Placed ⟨a, n⟩) : a < 256 ^ data.width := by
  have hstop := ha.2
  simp only [Region.stop, addressLimit] at hstop
  simp only [data]
  omega

/-- The structure at `b` is live, its data are `n` bytes at `d`, and besides these blocks
`rest` is live. -/
structure Held (rest : List Region) (b d n : ℕ) (h : Heap) : Prop where
  sound : Sound h
  describes : Describes h b d n
  live : h.live.Perm (header b :: (blockAt d n ++ rest))

structure Settled (rest : List Region) (b d n : ℕ) (h : Heap) : Prop extends
    Held rest b d n h where
  unlocked : get h b lock = 0

section Held

variable {h h' : Heap} {rest kept : List Region} {b d n : ℕ}

theorem Held.header_apart (hb : Held rest b d n h) :
    ∀ r ∈ blockAt d n ++ rest, (header b).Apart r :=
  (List.pairwise_cons.mp (hb.sound.of_perm hb.live).1).1

theorem Held.placed (hb : Held rest b d n h) : Placed (header b) :=
  hb.sound.placed _ (hb.live.mem_iff.mpr List.mem_cons_self)

theorem Held.header_apart_rest (hb : Held rest b d n h) : ∀ r ∈ rest, (header b).Apart r :=
  fun r hr => hb.header_apart r (List.mem_append_right _ hr)

theorem Held.ok (hb : Held rest b d n h) : audiofsBufferOk h b = true :=
  hb.describes.ok hb.placed.1

theorem Held.enter (hb : Held rest b d n h) :
    Held rest b d n (enter h b) ∧ Keeps (blockAt d n ++ rest) h (enter h b) := by
  refine ⟨⟨set_sound (set_sound hb.sound _ _ _) _ _ _, hb.describes.enter, hb.live⟩, ?_⟩
  have hlock := set_keeps h hb.header_apart (f := lock) 1 (by decide)
  exact hlock.trans (set_keeps _ hb.header_apart 0 (by decide))

theorem Held.unlock (hb : Held rest b d n h) :
    Settled rest b d n (pthreadMutexUnlock h b lock) ∧
      Keeps (blockAt d n ++ rest) h (pthreadMutexUnlock h b lock) :=
  ⟨⟨⟨set_sound hb.sound _ _ _, hb.describes.set_lock 0, hb.live⟩, get_set h b (by decide)⟩,
    set_keeps h hb.header_apart 0 (by decide)⟩

end Held

/-! ### Allocation -/

inductive Alloc (h : Heap) (size : UInt64) : Option ℕ × Heap → Prop
  | failed {h' : Heap} : Sound h' → h'.live.Perm h.live → Keeps h.live h h' →
      Alloc h size (none, h')
  | made {b d : ℕ} {h' : Heap} : Settled h.live b d size.toNat h' → (d = 0 ↔ size = 0) →
      Keeps h.live h h' → Alloc h size (some b, h')

section Allocation

variable {h h' : Heap} {b : ℕ}

theorem initialise_settled (hg : Granted h.live h h' (header b))
    (hzero : ∀ i < sizeofBuffer.toNat, h'.memory (b + i) = 0) (size : UInt64) :
    Settled h.live b 0 size.toNat (initialise h' b size) ∧
      Keeps h.live h (initialise h' b size) := by
  have hword : b < 256 ^ self.width := placed_lt_word hg.fits.1
  have hblank : ∀ f : Field, f.Inside → get h' b f = 0 := by
    intro f hf
    apply load_eq_zero_iff.mpr
    intro i hi
    unfold Field.Inside at hf
    rw [Nat.add_assoc]
    exact hzero _ (by omega)
  have hdescribes : Describes (initialise h' b size) b 0 size.toNat := by
    refine Describes.set_len (n := 0) ⟨?_, ?_, ?_, ?_⟩ (size_lt_word size)
    · rw [get_set_apart _ _ _ (by decide)]
      exact get_set h' b (by decide)
    · exact get_set _ b hword
    · rw [get_set_apart _ _ _ (by decide), get_set_apart _ _ _ (by decide)]
      exact hblank data (by decide)
    · rw [get_set_apart _ _ _ (by decide), get_set_apart _ _ _ (by decide)]
      exact hblank len (by decide)
  have hsound : Sound (initialise h' b size) :=
    set_sound (set_sound (set_sound hg.sound _ _ _) _ _ _) _ _ _
  refine ⟨⟨⟨hsound, hdescribes, hg.live⟩, ?_⟩, ?_⟩
  · unfold initialise
    rw [get_set_apart _ _ _ (by decide), get_set_apart _ _ _ (by decide),
      get_set_apart _ _ _ (by decide)]
    exact hblank lock (by decide)
  · have hset := fun (h : Heap) (f : Field) (v : ℕ) => set_keeps h hg.fits.2 (f := f) v
    exact ((hg.keeps.trans (hset _ cookie _ (by decide))).trans (hset _ self _ (by decide))).trans
      (hset _ len _ (by decide))

theorem alloc_outcome {c : Allocator} (hc : Documented c) (hs : Sound h) (size : UInt64) :
    Alloc h size (audiofsBufferAlloc c h size) := by
  unfold audiofsBufferAlloc
  have hheader := calloc_outcome hc hs sizeofBuffer.toNat
  generalize h.calloc c sizeofBuffer.toNat = r at hheader
  cases hheader with
  | refused => exact .failed (refuse_sound hs c) (.refl _) (refuse_keeps h c)
  | @granted b h₁ hg hzero =>
    obtain ⟨hsettled, hkeeps⟩ := initialise_settled hg hzero size
    dsimp only
    by_cases hsize : size = 0
    · rw [if_pos hsize]
      exact .made hsettled (iff_of_true rfl hsize) hkeeps
    rw [if_neg hsize]
    generalize initialise h₁ b size = h₂ at hsettled hkeeps
    have hdata := calloc_outcome hc hsettled.sound size.toNat
    have hapart := hsettled.header_apart_rest
    have hrest : ∀ r ∈ h.live, r ∈ h₂.live := fun r hr =>
      hsettled.live.mem_iff.mpr (List.mem_cons_of_mem _ hr)
    generalize h₂.calloc c size.toNat = r at hdata
    cases hdata with
    | refused =>
      have hperm : (set (h₂.refuse c) b data 0).live.Perm
          (blockAt b sizeofBuffer.toNat ++ h.live) := by
        rw [blockAt_of_ne hg.fits.1.1]
        exact hsettled.live
      obtain ⟨hlive, hsound, hfree⟩ :=
        free_block (c := c) (set_sound (refuse_sound hsettled.sound c) _ _ _) hperm
      refine .failed hsound hlive (hkeeps.trans (Keeps.trans ?_ hfree))
      exact ((refuse_keeps h₂ c).subset hrest).trans (set_keeps _ hapart 0 (by decide))
    | @granted d h₃ hd hzero' =>
      have hdescribes := (hsettled.describes.keeps hd.keeps
        (hsettled.live.mem_iff.mpr List.mem_cons_self)).set_data (placed_lt_word hd.fits.1)
      have hheld : Held h.live b d size.toNat
          (pthreadMutexUnlock (set h₃ b data d) b usedOutsideAudiofs) := by
        refine ⟨set_sound (set_sound hd.sound _ _ _) _ _ _, hdescribes.set_usedOutside 0, ?_⟩
        rw [blockAt_of_ne hd.fits.1.1]
        exact (hd.live.trans (hsettled.live.cons _)).trans (.swap _ _ _)
      obtain ⟨hdone, hunlock⟩ := hheld.unlock
      refine .made hdone (iff_of_false hd.fits.1.1 hsize) ?_
      refine (hkeeps.trans (hd.keeps.subset hrest)).trans (Keeps.trans ?_ hunlock.of_append)
      exact (set_keeps h₃ hapart d (by decide)).trans (set_keeps _ hapart 0 (by decide))

end Allocation

/-! ### Resizing -/

/-- The answer of the allocator when the structure at `b` asks for `size` bytes, and the heap it
leaves. -/
def reallocated (c : Allocator) (h : Heap) (b : ℕ) (size : UInt64) : Option ℕ × Heap :=
  (enter h b).realloc c (get h b data) size.toNat

/-- The range a resize is going to clear, and the heap it clears it in. -/
def blanking (c : Allocator) (h : Heap) (b : ℕ) (size : UInt64) : Option (Heap × Region) :=
  if audiofsBufferOk h b = true ∧ size ≠ 0 ∧ size.toNat < get h b len then
    (reallocated c h b size).1.map fun new =>
      ((reallocated c h b size).2, blanked new (get h b len) size.toNat)
  else none

def Clears (c : Allocator) (h : Heap) (b : ℕ) (size : UInt64) (x : ℕ) : Prop :=
  ∃ e ∈ blanking c h b size, e.2.Holds x

/-- What a resize of the structure at `b` still reads of the structure at `b'`: it writes the
data and the length of its own itself. -/
def fieldsRead (b b' : ℕ) : List Field :=
  if b' = b then [cookie, self] else [cookie, data, len, self]

/-- A resize clears no byte of what it or a later call reads: all it clears there is zero. Nor
does it harm the allocator. -/
def Spares (c : Allocator) (buffers : List ℕ) (h : Heap) (b : ℕ) (size : UInt64) : Prop :=
  ∀ e ∈ blanking c h b size, ¬ e.1.Harms c e.2 ∧
    ∀ b' ∈ buffers, ∀ f ∈ fieldsRead b b', ∀ i < f.width,
      e.2.Holds (b' + f.offset + i) → h.memory (b' + f.offset + i) = 0

instance (c : Allocator) (buffers : List ℕ) (h : Heap) (b : ℕ) (size : UInt64) :
    Decidable (Spares c buffers h b size) :=
  inferInstanceAs (Decidable (∀ e ∈ blanking c h b size, _))

/-- The resize ends with the block `a`, which holds what the allocator left in it: the old
contents as far as they fit, and then whatever was there. -/
structure Moved (c : Allocator) (h : Heap) (b d n : ℕ) (size : UInt64) (a : ℕ) (h' : Heap) :
    Prop where
  answer : (reallocated c h b size).1 = some a
  contents : ∀ i < size.toNat, h'.memory (a + i) = (reallocated c h b size).2.memory (a + i)
  kept : ∀ i < min n size.toNat, h'.memory (a + i) = h.memory (d + i)

/-- The exits of a resize of a structure that describes its data as `n` bytes at `d`. -/
inductive Exit (c : Allocator) (rest : List Region) (h : Heap) (b d n : ℕ) (size : UInt64) :
    Answer × Heap → Prop
  | emptied {h' : Heap} : size = 0 → Settled rest b 0 0 h' → Keeps rest h h' →
      Exit c rest h b d n size (⟨true, false⟩, h')
  | same {h' : Heap} : size ≠ 0 → size.toNat = n → Settled rest b d n h' →
      Keeps (blockAt d n ++ rest) h h' → Exit c rest h b d n size (⟨true, false⟩, h')
  | refused {h' : Heap} : size ≠ 0 → size.toNat ≠ n → (reallocated c h b size).1 = none →
      Settled rest b d n h' → Keeps (blockAt d n ++ rest) h h' →
      Exit c rest h b d n size (⟨false, false⟩, h')
  | resized {a : ℕ} {h' : Heap} : size ≠ 0 → size.toNat ≠ n → a ≠ 0 →
      Settled rest b a size.toNat h' → Moved c h b d n size a h' → h'.misuses = h.misuses →
      (∀ x, Covers rest x → h'.memory x = h.memory x ∨ Clears c h b size x ∧ h'.memory x = 0) →
      Exit c rest h b d n size (⟨true, false⟩, h')

section Resizing

variable {c : Allocator} {h : Heap} {rest : List Region} {b d n : ℕ}

theorem freeData_held (hb : Held rest b d n h) :
    Held rest b 0 n (freeData c h b) ∧ Keeps rest h (freeData c h b) := by
  unfold freeData
  rw [hb.describes.dataIs]
  by_cases hd : d = 0
  · subst hd
    rw [if_neg (by simp)]
    exact ⟨hb, .refl rest h⟩
  rw [if_pos hd]
  have hperm : h.live.Perm (blockAt d n ++ header b :: rest) :=
    hb.live.trans List.perm_middle.symm
  obtain ⟨hlive, hsound, hfree⟩ := free_block (c := c) hb.sound hperm
  have hdescribes := hb.describes.keeps hfree List.mem_cons_self
  refine ⟨⟨set_sound hsound _ _ _, hdescribes.set_data (by decide), hlive⟩, ?_⟩
  refine (hfree.subset fun _ hr => List.mem_cons_of_mem _ hr).trans ?_
  exact set_keeps _ hb.header_apart_rest 0 (by decide)

theorem leave_settled (hb : Held rest b d n h) (hnull : d = 0 → n = 0) :
    ∃ h', leave c h b = (⟨true, false⟩, h') ∧ Settled rest b d n h' ∧
      Keeps (blockAt d n ++ rest) h h' := by
  refine ⟨pthreadMutexUnlock h b lock, ?_, hb.unlock⟩
  rw [leave, hb.describes.lenIs, hb.describes.dataIs, if_neg]
  rintro ⟨hlen, hdata⟩
  exact hlen (hnull hdata)

theorem Describes.of_sets {a v : ℕ} (hcookie : get h b cookie = contextMagicA.toNat)
    (hself : get h b self = b) (hv : v < 256 ^ len.width) (ha : a < 256 ^ data.width) :
    Describes (set (set h b len v) b data a) b a v := by
  have hlen : Describes (set h b len v) b (get h b data) v := by
    refine ⟨?_, ?_, ?_, get_set h b hv⟩
    · rwa [get_set_apart _ _ _ (by decide)]
    · rwa [get_set_apart _ _ _ (by decide)]
    · exact get_set_apart _ _ _ (by decide)
  exact hlen.set_data ha

/-- The end of a resize that got the block `a`, from the heap in which nothing is left to do
but to note it down. -/
theorem noted_settled {h₃ : Heap} {a size : ℕ} (hsound : Sound h₃)
    (hlive : h₃.live.Perm (⟨a, size⟩ :: header b :: rest)) (ha : Placed ⟨a, size⟩)
    (hcookie : get h₃ b cookie = contextMagicA.toNat) (hself : get h₃ b self = b)
    (hsize : size < 256 ^ len.width) :
    ∃ h', leave c (set (set h₃ b len size) b data a) b = (⟨true, false⟩, h') ∧
      Settled rest b a size h' ∧ Keeps (⟨a, size⟩ :: rest) h₃ h' := by
  have hheld : Held rest b a size (set (set h₃ b len size) b data a) := by
    refine ⟨set_sound (set_sound hsound _ _ _) _ _ _,
      .of_sets hcookie hself hsize (placed_lt_word ha), ?_⟩
    rw [blockAt_of_ne ha.1]
    exact hlive.trans (.swap _ _ _)
  have hapart := hheld.header_apart
  obtain ⟨h', hleave, hsettled, hkeeps⟩ :=
    leave_settled (c := c) hheld fun hzero => absurd hzero ha.1
  rw [blockAt_of_ne ha.1] at hapart hkeeps
  refine ⟨h', hleave, hsettled, Keeps.trans ?_ hkeeps⟩
  exact (set_keeps h₃ hapart size (by decide)).trans (set_keeps _ hapart a (by decide))

theorem enter_memory {f : Field} (hlock : lock.Apart f) (hused : usedOutsideAudiofs.Apart f)
    {i : ℕ} (hi : i < f.width) :
    (enter h b).memory (b + f.offset + i) = h.memory (b + f.offset + i) := by
  unfold Field.Apart at hlock hused
  have hfirst := store_outside h.memory (a := b + lock.offset) (n := lock.width) (v := 1)
    (x := b + f.offset + i) (by omega)
  rw [← hfirst]
  exact store_outside _ (by omega)

theorem blanking_shrink (hb : Held rest b d n h) {size : UInt64} (hzero : size ≠ 0)
    (hlt : size.toNat < n) {a : ℕ} (hgot : (reallocated c h b size).1 = some a) :
    blanking c h b size = some ((reallocated c h b size).2, blanked a n size.toNat) := by
  rw [blanking, hb.describes.lenIs, if_pos ⟨hb.ok, hzero, hlt⟩, hgot]
  rfl

/-- A field that the clearing spares reads as before. -/
theorem get_cleared {h₂ : Heap} {kept : List Region} (hk : Keeps kept (enter h b) h₂)
    (hmem : header b ∈ kept) {r : Region} {f : Field} (hf : f.Inside) (hlock : lock.Apart f)
    (hused : usedOutsideAudiofs.Apart f)
    (hspared : ∀ i < f.width, r.Holds (b + f.offset + i) → h.memory (b + f.offset + i) = 0) :
    get (h₂.clear c r) b f = get h b f := by
  apply load_congr
  intro i hi
  by_cases hr : r.Holds (b + f.offset + i)
  · rw [hspared i hi hr]
    exact if_pos hr
  · have hkept := hk.memory _ ⟨header b, hmem, header_holds b hf hi⟩
    rw [← enter_memory (h := h) (b := b) hlock hused hi, ← hkept]
    exact if_neg hr

/-- What the resize has of its blocks once the allocator granted one. -/
structure Regained (rest : List Region) (h : Heap) (b d n a size : ℕ) (h₂ : Heap) : Prop where
  granted : Granted (header b :: rest) (enter h b) h₂ ⟨a, size⟩
  kept : ∀ i < min n size, h₂.memory (a + i) = h.memory (d + i)
  describes : Describes h₂ b d n
  rest : Keeps rest h h₂

theorem reallocated_outcome (hc : Documented c) (hb : Held rest b d n h)
    (hnull : d = 0 → n = 0) (size : UInt64) :
    reallocated c h b size = (none, (enter h b).refuse c) ∨
      ∃ a h₂, reallocated c h b size = (some a, h₂) ∧
        Regained rest h b d n a size.toNat h₂ := by
  obtain ⟨hheld, henter⟩ := hb.enter
  have hperm : (enter h b).live.Perm (blockAt d n ++ header b :: rest) :=
    hheld.live.trans List.perm_middle.symm
  have houtcome := realloc_outcome hc hheld.sound hperm hnull size.toNat
  rw [reallocated, hb.describes.dataIs]
  generalize (enter h b).realloc c d size.toNat = r at houtcome
  cases houtcome with
  | refused => exact .inl rfl
  | @granted a h₂ hg hcopied =>
    refine .inr ⟨a, h₂, rfl, hg, fun i hi => ?_, hheld.describes.keeps hg.keeps List.mem_cons_self,
      henter.of_append.trans (hg.keeps.subset fun _ hr => List.mem_cons_of_mem _ hr)⟩
    rw [hcopied i hi]
    have hd : d ≠ 0 := fun hzero => by
      rw [hnull hzero, Nat.zero_min] at hi
      exact absurd hi (Nat.not_lt_zero i)
    apply henter.memory
    rw [blockAt_of_ne hd]
    exact ⟨⟨d, n⟩, by simp, Region.holds_offset d (lt_of_lt_of_le hi (min_le_left _ _))⟩

/-- The range a resize clears begins behind the block it got. -/
theorem blanked_not_holds {a n size i : ℕ} (hlt : size < n) (hi : i < size) :
    ¬ (blanked a n size).Holds (a + i) := by
  rintro ⟨hlow, -⟩
  simp only [blanked] at hlow
  omega

/-- What the blanking, where there is any, makes of the heap the allocator left. -/
structure Blanking (c : Allocator) (h : Heap) (b : ℕ) (size : UInt64) (a : ℕ) (h₂ h₃ : Heap) :
    Prop where
  sound : Sound h₃
  live : h₃.live = h₂.live
  misuses : h₃.misuses = h₂.misuses
  cookie : get h₃ b cookie = contextMagicA.toNat
  self : get h₃ b self = b
  own : ∀ i < size.toNat, h₃.memory (a + i) = h₂.memory (a + i)
  others : ∀ x, h₃.memory x = h₂.memory x ∨ Clears c h b size x ∧ h₃.memory x = 0

theorem blanking_done {buffers : List ℕ} (hb : Settled rest b d n h) (hmem : b ∈ buffers)
    {size : UInt64} (hspares : Spares c buffers h b size) (hzero : size ≠ 0) {a : ℕ} {h₂ : Heap}
    (hgot : reallocated c h b size = (some a, h₂)) (hg : Regained rest h b d n a size.toNat h₂) :
    Blanking c h b size a h₂
      (if size.toNat < n then h₂.clear c (blanked a n size.toNat) else h₂) := by
  split_ifs with hlt
  · have hblank := blanking_shrink hb.toHeld hzero hlt (congrArg Prod.fst hgot)
    rw [congrArg Prod.snd hgot] at hblank
    obtain ⟨hharms, hspared⟩ := hspares _ hblank
    have hread := hspared b hmem
    rw [fieldsRead, if_pos rfl] at hread
    have hcookie := get_cleared (c := c) hg.granted.keeps List.mem_cons_self (by decide)
      (by decide) (by decide) (hread cookie (by simp))
    have hself := get_cleared (c := c) hg.granted.keeps List.mem_cons_self (by decide) (by decide)
      (by decide) (hread self (by simp))
    refine ⟨clear_sound hg.granted.sound hharms, rfl, rfl, hcookie.trans hb.describes.cookieIs,
      hself.trans hb.describes.selfIs, fun i hi => if_neg (blanked_not_holds hlt hi), fun x => ?_⟩
    by_cases hr : (blanked a n size.toNat).Holds x
    · exact .inr ⟨⟨_, hblank, hr⟩, if_pos hr⟩
    · exact .inl (if_neg hr)
  · exact ⟨hg.granted.sound, rfl, rfl, hg.describes.cookieIs, hg.describes.selfIs,
      fun _ _ => rfl, fun _ => .inl rfl⟩

theorem granted_exit {size : UInt64} (hzero : size ≠ 0) (hne : size.toNat ≠ n) {a : ℕ}
    {h₂ h₃ : Heap} (hgot : reallocated c h b size = (some a, h₂))
    (hg : Regained rest h b d n a size.toNat h₂) (hblank : Blanking c h b size a h₂ h₃) :
    Exit c rest h b d n size (leave c (set (set h₃ b len size.toNat) b data a) b) := by
  have hplaced := hg.granted.fits.1
  have hlive : h₃.live.Perm (⟨a, size.toNat⟩ :: header b :: rest) := by
    rw [hblank.live]
    exact hg.granted.live
  obtain ⟨h', hleave, hsettled, hkeeps⟩ := noted_settled (c := c) hblank.sound hlive hplaced
    hblank.cookie hblank.self (size_lt_word size)
  rw [hleave]
  have hcontents : ∀ i < size.toNat, h'.memory (a + i) = h₂.memory (a + i) := fun i hi =>
    (hkeeps.memory _ ⟨_, List.mem_cons_self, Region.holds_offset a hi⟩).trans (hblank.own i hi)
  have hmoved : Moved c h b d n size a h' := by
    refine ⟨congrArg Prod.fst hgot, fun i hi => ?_, fun i hi => ?_⟩
    · rw [congrArg Prod.snd hgot, hcontents i hi]
    · rw [hcontents i (lt_of_lt_of_le hi (min_le_right _ _)), hg.kept i hi]
  refine .resized hzero hne hplaced.1 hsettled hmoved ?_ fun x hx => ?_
  · exact hkeeps.misuses.trans (hblank.misuses.trans hg.rest.misuses)
  · obtain ⟨r, hr, hold⟩ := hx
    rw [hkeeps.memory x ⟨r, List.mem_cons_of_mem _ hr, hold⟩, ← hg.rest.memory x ⟨r, hr, hold⟩]
    exact hblank.others x

theorem realloc_exit (hc : Documented c) (hb : Settled rest b d n h) (hnull : d = 0 ↔ n = 0)
    {buffers : List ℕ} (hmem : b ∈ buffers) {size : UInt64}
    (hspares : Spares c buffers h b size) :
    Exit c rest h b d n size (audiofsBufferRealloc c h b size) := by
  obtain ⟨hheld, henter⟩ := hb.enter
  have hok : ¬ (!audiofsBufferOk h b) = true := by simp [hb.ok]
  rw [audiofsBufferRealloc, if_neg hok]
  dsimp only
  by_cases hzero : size = 0
  · rw [if_pos hzero]
    obtain ⟨hfreed, hkeeps⟩ := freeData_held (c := c) hheld
    generalize freeData c (enter h b) b = h₂ at hfreed hkeeps
    have hempty : Held rest b 0 0 (set h₂ b len 0) :=
      ⟨set_sound hfreed.sound _ _ _, hfreed.describes.set_len (by decide), hfreed.live⟩
    obtain ⟨hdone, hunlock⟩ := hempty.unlock
    refine .emptied hzero hdone ((henter.of_append.trans hkeeps).trans (Keeps.trans ?_ hunlock))
    exact set_keeps _ hfreed.header_apart_rest 0 (by decide)
  rw [if_neg hzero, hheld.describes.lenIs, hheld.describes.dataIs]
  by_cases hne : size.toNat = n
  · rw [if_neg (not_not.mpr hne)]
    obtain ⟨h', hleave, hsettled, hkeeps⟩ := leave_settled (c := c) hheld hnull.mp
    rw [hleave]
    exact .same hzero hne hsettled (henter.trans hkeeps)
  have hanswer : (enter h b).realloc c d size.toNat = reallocated c h b size := by
    rw [reallocated, hb.describes.dataIs]
  rw [if_pos hne, hanswer]
  rcases reallocated_outcome hc hb.toHeld hnull.mp size with hrefused | ⟨a, h₂, hgot, hg⟩
  · have hnone : (reallocated c h b size).1 = none := by rw [hrefused]
    rw [hrefused]
    have hkeeps := refuse_keeps (enter h b) c
    have hsame : Held rest b d n ((enter h b).refuse c) :=
      ⟨refuse_sound hheld.sound c, hheld.describes.keeps hkeeps
        (hheld.live.mem_iff.mpr List.mem_cons_self), hheld.live⟩
    obtain ⟨hdone, hunlock⟩ := hsame.unlock
    refine .refused hzero hne hnone hdone (henter.trans (Keeps.trans ?_ hunlock))
    exact hkeeps.subset fun r hr => hheld.live.mem_iff.mpr (List.mem_cons_of_mem _ hr)
  · have hblank := blanking_done hb hmem hspares hzero hgot hg
    rw [hgot]
    dsimp only
    rw [hg.describes.lenIs]
    exact granted_exit hzero hne hgot hg hblank

end Resizing

end AudioFS.BufferStructure
