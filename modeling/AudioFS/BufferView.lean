import AudioFS.BufferRepresentation

/-!
# A buffer seen from its own blocks

Everything a resize does to the structure and the data of the buffer it is called on is
what the model without addresses says. What that model cannot show is the rest of
memory, which only the clearing behind a shrunken block reaches.
-/

namespace AudioFS.BufferStructure
open ByteMemory ByteHeap AudioFS.Buffer

def bytesAt (h : Heap) (d n : ℕ) : List UInt8 := (List.range n).map fun i => h.memory (d + i)

/-- The buffer that the structure at `b` stands for. -/
def view (h : Heap) (b : ℕ) : AudiofsBuffer where
  addr := b
  cookie := UInt32.ofNat (get h b cookie)
  data :=
    if get h b data = 0 then none
    else some ⟨get h b data, bytesAt h (get h b data) (get h b len)⟩
  len := UInt64.ofNat (get h b len)
  lock := get h b lock != 0
  self := get h b self
  usedOutsideAudiofs := get h b usedOutsideAudiofs != 0

/-- The platform that answers the way the allocator is about to answer the resize. -/
def platformOf (c : Allocator) (h : Heap) (b : ℕ) (size : UInt64) : Platform :=
  { Platform.generous with
    grants := fun _ _ => (reallocated c h b size).1.isSome
    fresh := fun _ i =>
      (reallocated c h b size).2.memory ((reallocated c h b size).1.getD 0 + i) }

/-- Two buffers agree but for the address of their data. -/
structure LooksLike (t t' : AudiofsBuffer) : Prop where
  addr : t.addr = t'.addr
  ok : Buffer.audiofsBufferOk t = Buffer.audiofsBufferOk t'
  len : t.len = t'.len
  null : t.data.isNone = t'.data.isNone
  bytes : Process.oldBytes t.data = Process.oldBytes t'.data
  lock : t.lock = t'.lock

@[simp] theorem length_bytesAt (h : Heap) (d n : ℕ) : (bytesAt h d n).length = n := by
  simp [bytesAt]

theorem bytesAt_getElem? (h : Heap) (d n i : ℕ) :
    (bytesAt h d n)[i]? = if i < n then some (h.memory (d + i)) else none := by
  unfold bytesAt
  split_ifs with hi
  · simp [List.getElem?_range hi]
  · simp [not_lt.mp hi]

theorem bytesAt_congr {h h' : Heap} {d d' n : ℕ}
    (hall : ∀ i < n, h'.memory (d' + i) = h.memory (d + i)) : bytesAt h' d' n = bytesAt h d n := by
  apply List.map_congr_left
  intro i hi
  exact hall i (List.mem_range.mp hi)

section View

variable {c : Allocator} {rest : List Region} {h h' : Heap} {b d n : ℕ} {size : UInt64}

theorem view_ok (hb : Settled rest b d n h) : Buffer.audiofsBufferOk (view h b) = true := by
  have hcookie : UInt32.ofNat contextMagicA.toNat = contextMagicA := by decide
  simp [Buffer.audiofsBufferOk, view, hb.describes.cookieIs, hb.describes.selfIs, hcookie]

theorem view_data (hb : Settled rest b d n h) :
    (view h b).data = if d = 0 then none else some ⟨d, bytesAt h d n⟩ := by
  simp only [view, hb.describes.dataIs, hb.describes.lenIs]

theorem view_len (hb : Settled rest b d n h) : (view h b).len = UInt64.ofNat n := by
  simp only [view, hb.describes.lenIs]

theorem view_lock (hb : Settled rest b d n h) : (view h b).lock = false := by
  simp [view, hb.unlocked]

theorem oldBytes_view (hb : Settled rest b d n h) (hnull : d = 0 → n = 0) :
    Process.oldBytes (view h b).data = bytesAt h d n := by
  rw [view_data hb]
  split_ifs with hd
  · rw [hnull hd]
    rfl
  · rfl

/-- A block behind whose end the blanking starts keeps its bytes. -/
theorem blankNewRegions_bytes (p : Process) {oldLen size : UInt64} {bytes : List UInt8}
    (hbytes : bytes.length = size.toNat) :
    (Buffer.blankNewRegions p oldLen size bytes).1 = bytes := by
  unfold Buffer.blankNewRegions
  split_ifs with hlt
  · have hlt' := UInt64.lt_iff_toNat_lt.mp hlt
    apply List.ext_getElem (by simp [Process.zeroRange])
    intro i hi hi'
    simp only [Process.zeroRange, List.getElem_mapIdx]
    rw [if_neg (by omega)]
  · rfl

/-- The block that the model without addresses puts together is the one the allocator left. -/
theorem reallocated_bytes {a : ℕ} (hm : Moved c h b d n size a h') (call : ℕ) :
    Process.reallocated (platformOf c h b size) call (bytesAt h d n) size.toNat =
      bytesAt h' a size.toNat := by
  have hfresh : ∀ i, (platformOf c h b size).fresh call i =
      (reallocated c h b size).2.memory (a + i) := by
    intro i
    simp only [platformOf, hm.answer, Option.getD_some]
  apply List.ext_getElem? fun i => ?_
  rw [bytesAt_getElem?]
  rcases Nat.lt_or_ge i (min n size.toNat) with hlow | hhigh
  · rw [Process.reallocated, List.getElem?_append_left (by simpa using by omega),
      List.getElem?_take_of_lt (by omega), bytesAt_getElem?, if_pos (by omega), if_pos (by omega),
      hm.kept i hlow]
  · rcases Nat.lt_or_ge size.toNat n with hlt | hge
    · rw [if_neg (by omega)]
      apply List.getElem?_eq_none
      rw [Process.length_reallocated]
      omega
    · rw [Process.reallocated_getElem? _ _ (by simpa using hge), length_bytesAt, if_neg (by omega)]
      split_ifs with hi
      · rw [hfresh, hm.contents i hi]
      · rfl

theorem looksLike_view (hs : Settled rest b d n h) (hnull : d = 0 → n = 0) {t : AudiofsBuffer}
    (haddr : t.addr = b) (hok : Buffer.audiofsBufferOk t = true) (hlen : t.len = UInt64.ofNat n)
    (hdata : t.data.isNone = decide (d = 0)) (hbytes : Process.oldBytes t.data = bytesAt h d n)
    (hlock : t.lock = false) : LooksLike t (view h b) where
  addr := haddr
  ok := hok.trans (view_ok hs).symm
  len := hlen.trans (view_len hs).symm
  null := by
    rw [hdata, view_data hs]
    split_ifs with hd <;> simp [hd]
  bytes := hbytes.trans (oldBytes_view hs hnull).symm
  lock := hlock.trans (view_lock hs).symm

theorem view_isNone (hb : Settled rest b d n h) : (view h b).data.isNone = decide (d = 0) := by
  rw [view_data hb]
  split_ifs with hd <;> simp [hd]

theorem size_eq_view_len (hb : Settled rest b d n h) (hnull : d = 0 → n = 0) (size : UInt64) :
    size = (view h b).len ↔ size.toNat = n := by
  have hn : n < UInt64.size := by
    by_cases hd : d = 0
    · rw [hnull hd]
      decide
    have hmem : (⟨d, n⟩ : Region) ∈ h.live := by
      apply hb.live.mem_iff.mpr
      simp [blockAt_of_ne hd]
    have hplaced := (hb.sound.placed _ hmem).2
    simp only [Region.stop, addressLimit] at hplaced
    simp only [UInt64.size]
    omega
  rw [view_len hb, ← UInt64.toNat_inj, UInt64.toNat_ofNat_of_lt' hn]

/-- Seen from the buffer it is called on, a resize is the one without addresses on a platform
that answers the same. -/
theorem realloc_view (hc : Documented c) (hb : Settled rest b d n h) (hnull : d = 0 ↔ n = 0)
    {buffers : List ℕ} (hmem : b ∈ buffers) (hspares : Spares c buffers h b size) (p : Process) :
    (Buffer.audiofsBufferRealloc (platformOf c h b size) p (view h b) size).1 =
        (audiofsBufferRealloc c h b size).1.resized ∧
      LooksLike (Buffer.audiofsBufferRealloc (platformOf c h b size) p (view h b) size).2.1
        (view (audiofsBufferRealloc c h b size).2 b) := by
  have hexit := realloc_exit hc hb hnull hmem hspares
  have haddr : (view h b).addr = b := rfl
  have hok := view_ok hb
  have hlen := view_len hb
  have hsame := size_eq_view_len hb hnull.mp size
  have hnone := view_isNone hb
  have hbytes := oldBytes_view hb hnull.mp
  generalize view h b = t at haddr hok hlen hsame hnone hbytes
  generalize audiofsBufferRealloc c h b size = r at hexit
  have hunchanged : ∀ h', Settled rest b d n h' → Keeps (blockAt d n ++ rest) h h' →
      LooksLike t.unchanged (view h' b) := by
    intro h' hs hk
    refine looksLike_view hs hnull.mp haddr hok hlen hnone (hbytes.trans ?_) rfl
    refine (bytesAt_congr fun i hi => hk.memory _ ?_).symm
    have hd : d ≠ 0 := fun hzero => Nat.not_lt_zero i (hnull.mp hzero ▸ hi)
    exact ⟨⟨d, n⟩, by simp [blockAt_of_ne hd], Region.holds_offset d hi⟩
  rw [audiofsBufferRealloc_exits]
  dsimp only
  rw [if_neg (by simp [hok])]
  cases hexit with
  | emptied hzero hs hk =>
    rw [if_pos hzero]
    exact ⟨rfl, looksLike_view hs (fun _ => rfl) haddr hok rfl rfl rfl rfl⟩
  | same hzero hn hs hk =>
    have hdata : ¬ d = 0 := fun hd => hzero (UInt64.toNat_inj.mp (hn.trans (hnull.mp hd)))
    have hemergency : emergencyAlloc (platformOf c h b size) p t.unchanged = (t.unchanged, p) := by
      rw [emergencyAlloc, if_neg]
      rintro ⟨-, hmissing⟩
      exact hdata (of_decide_eq_true (hnone.symm.trans hmissing))
    rw [if_neg hzero, if_pos (hsame.mpr hn), hemergency]
    exact ⟨rfl, hunchanged _ hs hk⟩
  | refused hzero hne hanswer hs hk =>
    have hgrants : (platformOf c h b size).grants p.calls size = false := by
      simp [platformOf, hanswer]
    rw [if_neg hzero, if_neg (mt hsame.mp hne), if_pos hgrants]
    exact ⟨rfl, hunchanged _ hs hk⟩
  | @resized a h' hzero hne ha hs hm hmisuses hframe =>
    have hgrants : (platformOf c h b size).grants p.calls size = true := by
      simp [platformOf, hm.answer]
    rw [if_neg hzero, if_neg (mt hsame.mp hne), if_neg (by simp [hgrants]), hbytes,
      reallocated_bytes hm, blankNewRegions_bytes _ (length_bytesAt h' a size.toNat)]
    refine ⟨rfl, looksLike_view hs (fun hzero => absurd hzero ha) haddr hok ?_ ?_ rfl rfl⟩
    · exact (UInt64.ofNat_toNat).symm
    · exact (decide_eq_false ha).symm

end View

end AudioFS.BufferStructure
