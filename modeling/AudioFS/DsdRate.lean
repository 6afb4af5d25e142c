import AudioFS.DecoderContext

/-!
# DSD rates

A DSD stream is named by its bit rate per channel as a multiple of 44100 or 48000. The
bit rate is first cut to 32 bits, then divided, and the multiple is cut to 16 bits.
-/

namespace AudioFS.Decoder
open AudioFS.CInteger

/-- `n` is the rate of a DSD stream with this bit rate per channel. -/
structure DsdRate (bitrate n : ℕ) : Prop where
  least : 64 ≤ n
  multiple : 64 ∣ n
  fits : n < 65536
  exact : bitrate = n * 44100 ∨ bitrate = n * 48000

/-- The rate is found when there is one, and zero stands for none. -/
structure DsdExact (bitrate dsd : ℕ) : Prop where
  found : (∃ n, DsdRate bitrate n) → DsdRate bitrate dsd
  absent : (¬ ∃ n, DsdRate bitrate n) → dsd = 0

/-! ### Reading a bit rate -/

def readMultiple (bitrate : ℕ) : ℕ :=
  if 48000 ∣ bitrate then bitrate / 48000 else bitrate / 44100

def ReadsAsDsd (bitrate : ℕ) : Prop := 64 ∣ readMultiple bitrate ∧ ¬ 65536 ∣ readMultiple bitrate

instance : DecidablePred ReadsAsDsd := fun _ => inferInstanceAs (Decidable (_ ∧ _))

def readDsd (bitrate : ℕ) : ℕ := if ReadsAsDsd bitrate then readMultiple bitrate % 65536 else 0

theorem toNat_cleared {dsd : UInt16} {multiple : ℕ} (h : dsd.toNat = multiple % 65536) :
    (if dsd % 64 ≠ 0 ∨ dsd < 64 then 0 else dsd).toNat =
      if 64 ∣ multiple ∧ ¬ 65536 ∣ multiple then multiple % 65536 else 0 := by
  have hmod : dsd % 64 = 0 ↔ 64 ∣ multiple := by
    rw [← UInt16.toNat_inj, UInt16.toNat_mod, h]
    change multiple % 65536 % 64 = 0 ↔ _
    omega
  have hlt : dsd < 64 ↔ multiple % 65536 < 64 := by
    rw [UInt16.lt_iff_toNat_lt, h]
    rfl
  simp only [ne_eq, hmod, hlt]
  by_cases hmultiple : 64 ∣ multiple
  · by_cases hlow : 65536 ∣ multiple
    · rw [if_pos (by omega), if_neg (by omega)]
      rfl
    · rw [if_neg (by omega), if_pos (by omega), h]
  · rw [if_pos (by omega), if_neg (by omega)]
    rfl

theorem toNat_dsdOfBitrate (bitrate : UInt32) :
    (dsdOfBitrate bitrate).toNat = readDsd bitrate.toNat := by
  have hmod : bitrate % 48000 = 0 ↔ 48000 ∣ bitrate.toNat := by
    rw [← UInt32.toNat_inj, UInt32.toNat_mod]
    change bitrate.toNat % 48000 = 0 ↔ _
    omega
  apply toNat_cleared
  unfold readMultiple
  simp only [hmod]
  split_ifs
  · rw [UInt32.toNat_toUInt16, UInt32.toNat_div]
    rfl
  · rw [UInt32.toNat_toUInt16, UInt32.toNat_div]
    rfl

/-- The bit rates below the wrap that are read wrongly: those that are an even multiple of both
bases, those whose multiple does not fit, and those that are not exact. -/
def Misread (bitrate : ℕ) : Prop :=
  14112000 ∣ bitrate ∧ ¬ 32 ∣ bitrate / 14112000 ∧ bitrate / 14112000 ≤ 204 ∨
    48000 ∣ bitrate ∧ 64 ∣ bitrate / 48000 ∧ 65536 < bitrate / 48000 ∨
    ¬ 48000 ∣ bitrate ∧ 64 ∣ bitrate / 44100 ∧ ¬ 65536 ∣ bitrate / 44100 ∧
      (¬ 44100 ∣ bitrate ∨ 65536 < bitrate / 44100)

theorem dsdExact_zero_iff (bitrate : ℕ) :
    DsdExact bitrate 0 ↔ ¬ ∃ n, DsdRate bitrate n := by
  constructor
  · rintro ⟨hfound, -⟩ hex
    have hleast := (hfound hex).least
    omega
  · intro hnone
    exact ⟨fun hex => absurd hex hnone, fun _ => rfl⟩

theorem dsdExact_pos_iff {bitrate dsd : ℕ} (hpos : 0 < dsd) :
    DsdExact bitrate dsd ↔ DsdRate bitrate dsd := by
  constructor
  · rintro ⟨hfound, habsent⟩
    by_cases hex : ∃ n, DsdRate bitrate n
    · exact hfound hex
    · have hzero := habsent hex
      omega
  · intro hrate
    exact ⟨fun _ => hrate, fun hnone => absurd ⟨dsd, hrate⟩ hnone⟩

theorem readDsd_of_reads {bitrate : ℕ} (hreads : ReadsAsDsd bitrate) :
    readDsd bitrate = readMultiple bitrate % 65536 ∧ 0 < readDsd bitrate := by
  have hread : readDsd bitrate = readMultiple bitrate % 65536 := if_pos hreads
  obtain ⟨-, hlow⟩ := hreads
  refine ⟨hread, ?_⟩
  rw [hread]
  omega

/-- Where nothing is read, only the other base can have been missed. -/
theorem exists_dsdRate_iff {bitrate : ℕ} (hreads : ¬ ReadsAsDsd bitrate) :
    (∃ n, DsdRate bitrate n) ↔
      14112000 ∣ bitrate ∧ ¬ 32 ∣ bitrate / 14112000 ∧ bitrate / 14112000 ≤ 204 := by
  unfold ReadsAsDsd readMultiple at hreads
  constructor
  · rintro ⟨n, hleast, hmultiple, hfits, hexact⟩
    split_ifs at hreads with hbase
    · omega
    · omega
  · rintro ⟨hdvd, hodd, hfits⟩
    refine ⟨bitrate / 14112000 * 320, ?_, ?_, ?_, ?_⟩
    · omega
    · omega
    · omega
    · left
      omega

theorem dsdRate_iff_of_dvd {bitrate : ℕ} (hlt : bitrate < 2 ^ 32) (hbase : 48000 ∣ bitrate)
    (hmultiple : 64 ∣ bitrate / 48000) (hlow : ¬ 65536 ∣ bitrate / 48000) :
    DsdRate bitrate (bitrate / 48000 % 65536) ↔ ¬ Misread bitrate := by
  unfold Misread
  constructor
  · rintro ⟨hleast, hdvd, hfits, hexact⟩
    omega
  · intro hright
    refine ⟨?_, ?_, ?_, ?_⟩
    · omega
    · omega
    · omega
    · right
      omega

theorem dsdRate_iff_of_not_dvd {bitrate : ℕ} (hlt : bitrate < 2 ^ 32) (hbase : ¬ 48000 ∣ bitrate)
    (hmultiple : 64 ∣ bitrate / 44100) (hlow : ¬ 65536 ∣ bitrate / 44100) :
    DsdRate bitrate (bitrate / 44100 % 65536) ↔ ¬ Misread bitrate := by
  unfold Misread
  constructor
  · rintro ⟨hleast, hdvd, hfits, hexact⟩
    omega
  · intro hright
    refine ⟨?_, ?_, ?_, ?_⟩
    · omega
    · omega
    · omega
    · left
      omega

theorem readDsd_exact_iff {bitrate : ℕ} (hlt : bitrate < 2 ^ 32) :
    DsdExact bitrate (readDsd bitrate) ↔ ¬ Misread bitrate := by
  by_cases hreads : ReadsAsDsd bitrate
  · obtain ⟨hread, hpos⟩ := readDsd_of_reads hreads
    rw [dsdExact_pos_iff hpos, hread]
    obtain ⟨hmultiple, hlow⟩ := hreads
    unfold readMultiple at hmultiple hlow ⊢
    split_ifs at hmultiple hlow ⊢ with hbase
    · exact dsdRate_iff_of_dvd hlt hbase hmultiple hlow
    · exact dsdRate_iff_of_not_dvd hlt hbase hmultiple hlow
  · have hread : readDsd bitrate = 0 := if_neg hreads
    rw [hread, dsdExact_zero_iff, exists_dsdRate_iff hreads]
    unfold ReadsAsDsd readMultiple at hreads
    unfold Misread
    split_ifs at hreads with hbase
    · omega
    · omega

/-- What a wrapped bit rate must read as. -/
def Recovered (bitrate wrapped : ℕ) : Prop :=
  (¬ ∃ n, DsdRate bitrate n) ∧ ¬ ReadsAsDsd wrapped ∨
    ¬ 48000 ∣ wrapped ∧ DsdRate bitrate (wrapped / 44100) ∧ bitrate = wrapped / 44100 * 48000

theorem readDsd_wrapped_iff {bitrate wrapped : ℕ} (hwrap : wrapped < bitrate)
    (hlt : wrapped < 2 ^ 32) :
    DsdExact bitrate (readDsd wrapped) ↔ Recovered bitrate wrapped := by
  by_cases hreads : ReadsAsDsd wrapped
  · obtain ⟨hread, hpos⟩ := readDsd_of_reads hreads
    rw [dsdExact_pos_iff hpos, hread]
    have hnot : ¬ ((¬ ∃ n, DsdRate bitrate n) ∧ ¬ ReadsAsDsd wrapped) := fun h => h.2 hreads
    simp only [Recovered, hnot, false_or]
    obtain ⟨hmultiple, hlow⟩ := hreads
    unfold readMultiple at hmultiple hlow ⊢
    split_ifs at hmultiple hlow ⊢ with hbase
    · refine iff_of_false ?_ (fun h => h.1 hbase)
      rintro ⟨hleast, hdvd, hfits, hexact⟩
      omega
    · constructor
      · intro hrate
        have hexact := hrate.exact
        have hsmall : wrapped / 44100 % 65536 = wrapped / 44100 := by omega
        rw [hsmall] at hrate hexact
        exact ⟨hbase, hrate, by omega⟩
      · rintro ⟨-, hrate, -⟩
        rw [Nat.mod_eq_of_lt hrate.fits]
        exact hrate
  · have hread : readDsd wrapped = 0 := if_neg hreads
    rw [hread, dsdExact_zero_iff]
    refine ⟨fun hnone => .inl ⟨hnone, hreads⟩, ?_⟩
    rintro (⟨hnone, -⟩ | ⟨hbase, hrate, -⟩)
    · exact hnone
    · refine absurd ⟨?_, ?_⟩ hreads
      · rw [readMultiple, if_neg hbase]
        exact hrate.multiple
      · obtain ⟨hleast, -, hfits, -⟩ := hrate
        rw [readMultiple, if_neg hbase]
        omega

/-! ### The context -/

section Context

variable {Layout : Type}

def AVCodecID.isDsd : AVCodecID → Bool
  | .dsdLsbf | .dsdMsbf | .dsdLsbfPlanar | .dsdMsbfPlanar => true
  | _ => false

def AVCodecID.isPlanarDsd : AVCodecID → Bool
  | .dsdLsbfPlanar | .dsdMsbfPlanar => true
  | _ => false

def totalBitrate (ctx : DecoderContext Layout) : ℕ := ctx.sampleRate.toInt.toNat * ctx.depth.toNat

def channelShare (lib : LibavUtil Layout) (ctx : DecoderContext Layout) (codec : AVCodecID)
    (bitrate : ℕ) : ℕ :=
  let share := bitrate / (max (lib.nbChannels ctx.channelLayout).toInt 1).toNat
  if codec.isPlanarDsd then share / 2 else share

theorem toNat_of_nonneg {n : Int32} (h : 0 ≤ n.toInt) : n.toUInt32.toNat = n.toInt.toNat := by
  change n.toBitVec.toNat = n.toBitVec.toInt.toNat
  change 0 ≤ n.toBitVec.toInt at h
  have hlt := n.toBitVec.isLt
  rw [BitVec.toInt_eq_toNat_cond] at h ⊢
  split_ifs at h ⊢
  · rfl
  · omega

theorem toInt_maxOf (n : Int32) : (maxOf n 1).toInt = max n.toInt 1 := by
  have hone : (1 : Int32).toInt = 1 := rfl
  have hlt : (1 : Int32) < n ↔ 1 < n.toInt := by
    rw [Int32.lt_iff_toInt_lt, hone]
  unfold maxOf
  simp only [hlt]
  split_ifs with hbig
  · exact (max_eq_left hbig.le).symm
  · rw [hone, max_eq_right (by omega)]

theorem toNat_bitratePerChannel (lib : LibavUtil Layout) {ctx : DecoderContext Layout}
    (hrate : 0 ≤ ctx.sampleRate.toInt) :
    (bitratePerChannel lib ctx).toNat = totalBitrate ctx % 2 ^ 32 /
      (max (lib.nbChannels ctx.channelLayout).toInt 1).toNat := by
  have hchannels := toInt_maxOf (lib.nbChannels ctx.channelLayout)
  have hpos : 0 ≤ (maxOf (lib.nbChannels ctx.channelLayout) 1).toInt := by
    rw [hchannels]
    omega
  rw [bitratePerChannel, UInt32.toNat_div, UInt32.toNat_mul, toNat_of_nonneg hrate,
    toNat_of_nonneg hpos, hchannels, UInt8.toNat_toUInt32, totalBitrate]

theorem detectDsd_dsd (lib : LibavUtil Layout) {ctx : DecoderContext Layout}
    (hok : contextOk ctx = true) {codec : AVCodecID} (hcodec : ctx.avCodecContext = some codec)
    (hdsd : codec.isDsd = true) (hrate : 0 ≤ ctx.sampleRate.toInt) :
    (detectDsd lib ctx).dsd.toNat =
      readDsd (channelShare lib ctx codec (totalBitrate ctx % 2 ^ 32)) := by
  have hshare := toNat_bitratePerChannel lib hrate
  have hhalf : (bitratePerChannel lib ctx / 2).toNat = totalBitrate ctx % 2 ^ 32 /
      (max (lib.nbChannels ctx.channelLayout).toInt 1).toNat / 2 := by
    rw [UInt32.toNat_div, hshare]
    rfl
  simp only [detectDsd, hok, Bool.not_true, Bool.false_eq_true, if_false, hcodec]
  cases codec with
  | dsdLsbf | dsdMsbf =>
    rw [channelShare, ← hshare]
    exact toNat_dsdOfBitrate _
  | dsdLsbfPlanar | dsdMsbfPlanar =>
    rw [channelShare, ← hhalf]
    exact toNat_dsdOfBitrate _
  | pcmS24le | pcmS24be | pcmS24lePlanar | other id => exact absurd hdsd (by simp [AVCodecID.isDsd])

theorem channelShare_lt (lib : LibavUtil Layout) (ctx : DecoderContext Layout)
    (codec : AVCodecID) {bitrate : ℕ} (hlt : bitrate < 2 ^ 32) :
    channelShare lib ctx codec bitrate < 2 ^ 32 := by
  have hdiv := Nat.div_le_self bitrate (max (lib.nbChannels ctx.channelLayout).toInt 1).toNat
  simp only [channelShare]
  split_ifs <;> omega

/-- A wrapped product is short by at least one for every channel. -/
theorem channelShare_wrapped (lib : LibavUtil Layout) (ctx : DecoderContext Layout)
    (codec : AVCodecID) {bitrate : ℕ} (hwrap : 2 ^ 32 ≤ bitrate) :
    channelShare lib ctx codec (bitrate % 2 ^ 32) < channelShare lib ctx codec bitrate := by
  have hupper := Int32.toInt_lt (lib.nbChannels ctx.channelLayout)
  simp only [channelShare]
  generalize (lib.nbChannels ctx.channelLayout).toInt = channels at hupper ⊢
  have hcount : 0 < (max channels 1).toNat ∧ (max channels 1).toNat < 2 ^ 31 := by omega
  generalize (max channels 1).toNat = count at hcount ⊢
  have hshort : bitrate % 2 ^ 32 + count * 2 ≤ bitrate := by omega
  have htwo : bitrate % 2 ^ 32 / count + 2 ≤ bitrate / count := by
    calc bitrate % 2 ^ 32 / count + 2 = (bitrate % 2 ^ 32 + count * 2) / count :=
          (Nat.add_mul_div_left _ _ hcount.1).symm
      _ ≤ bitrate / count := Nat.div_le_div_right hshort
  split_ifs <;> omega

/-- The sample rates, depths and channel counts whose DSD rate is detected. -/
def Detectable (lib : LibavUtil Layout) (ctx : DecoderContext Layout) (codec : AVCodecID) : Prop :=
  if totalBitrate ctx < 2 ^ 32 then ¬ Misread (channelShare lib ctx codec (totalBitrate ctx))
  else Recovered (channelShare lib ctx codec (totalBitrate ctx))
    (channelShare lib ctx codec (totalBitrate ctx % 2 ^ 32))

theorem detectDsd_exact_iff (lib : LibavUtil Layout) {ctx : DecoderContext Layout}
    (hok : contextOk ctx = true) {codec : AVCodecID} (hcodec : ctx.avCodecContext = some codec)
    (hdsd : codec.isDsd = true) (hrate : 0 ≤ ctx.sampleRate.toInt) :
    DsdExact (channelShare lib ctx codec (totalBitrate ctx)) (detectDsd lib ctx).dsd.toNat ↔
      Detectable lib ctx codec := by
  rw [detectDsd_dsd lib hok hcodec hdsd hrate, Detectable]
  split_ifs with hlt
  · rw [Nat.mod_eq_of_lt hlt]
    exact readDsd_exact_iff (channelShare_lt lib ctx codec hlt)
  · exact readDsd_wrapped_iff (channelShare_wrapped lib ctx codec (not_lt.mp hlt))
      (channelShare_lt lib ctx codec (Nat.mod_lt _ (by decide)))

end Context

def dsdMono (sampleRate : Int32) : DecoderContext MaskLayout :=
  { sourceOf ⟨1, 4⟩ .fltp 8 sampleRate with avCodecContext := some .dsdLsbf }

theorem dsd64_detectable : Detectable maskLibav (dsdMono 352800) .dsdLsbf := by
  have hshare : channelShare maskLibav (dsdMono 352800) .dsdLsbf
      (totalBitrate (dsdMono 352800)) = 2822400 := by decide
  rw [Detectable, if_pos (by decide), hshare]
  unfold Misread
  omega

theorem dsd64_exact :
    DsdExact (channelShare maskLibav (dsdMono 352800) .dsdLsbf (totalBitrate (dsdMono 352800)))
      (detectDsd maskLibav (dsdMono 352800)).dsd.toNat :=
  (detectDsd_exact_iff maskLibav (by decide) rfl rfl (by decide)).mpr dsd64_detectable

/-- 320 times 44100 is also 294 times 48000, and 294 is no DSD rate. -/
theorem dsd320_not_found :
    ¬ ∀ (ctx : DecoderContext MaskLayout) (codec : AVCodecID), contextOk ctx = true →
      ctx.avCodecContext = some codec → codec.isDsd = true → 0 ≤ ctx.sampleRate.toInt →
      DsdExact (channelShare maskLibav ctx codec (totalBitrate ctx))
        (detectDsd maskLibav ctx).dsd.toNat := by
  intro h
  have hexact := h (dsdMono 1764000) .dsdLsbf (by decide) rfl rfl (by decide)
  have hshare : channelShare maskLibav (dsdMono 1764000) .dsdLsbf
      (totalBitrate (dsdMono 1764000)) = 320 * 44100 := by decide
  have hzero : (detectDsd maskLibav (dsdMono 1764000)).dsd.toNat = 0 := by decide
  rw [hshare, hzero] at hexact
  have hrate : DsdRate (320 * 44100) 320 :=
    ⟨by decide, by decide, by decide, .inl rfl⟩
  exact absurd (hexact.found ⟨320, hrate⟩).least (by decide)

end AudioFS.Decoder
