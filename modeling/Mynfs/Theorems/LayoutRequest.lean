import Mynfs.Layout.Request

/-! The rule of the hints, and the range of a LAYOUTGET, which covers the I/O unless widening wraps around. -/

namespace Mynfs
open BitVec (le_def setWidth toNat_add toNat_inj)
open Nat (mod_eq_of_lt mod_le mod_lt two_pow_pos)

section
variable (t : Option Nfs4Threshold) (io : IoSizes) (iomode : U32)

/-- Every limit that the server sent for the iomode has been reached or exceeded. -/
def HintsReached : Prop :=
  ∀ t' ∈ t,
    (iomode = Iomode.read → t'.bm &&& thresholdRd ≠ 0 → t'.rdSz ≤ io.fsize) ∧
    (iomode = Iomode.read → t'.bm &&& thresholdRdIo ≠ 0 → t'.rdIoSz ≤ io.readIo) ∧
    (iomode = Iomode.rw → t'.bm &&& thresholdWr ≠ 0 → t'.wrSz ≤ io.fsize) ∧
    (iomode = Iomode.rw → t'.bm &&& thresholdWrIo ≠ 0 → t'.wrIoSz ≤ io.writeIo)

def FewerHints (t₀ t : Option Nfs4Threshold) : Prop :=
  ∀ a ∈ t₀, ∃ b ∈ t, b = { a with bm := b.bm } ∧ a.bm &&& b.bm = a.bm

def HalfReached : Prop :=
  ∃ t' ∈ t, (t'.hints io iomode).1.set ∧ (t'.hints io iomode).2.set ∧
    (t'.hints io iomode).1.unmet ≠ (t'.hints io iomode).2.unmet

end

namespace Nfs4Threshold
variable {t t₀ : Nfs4Threshold} {bit iomode : U32} {limit value value' : U64} {io io' : IoSizes}

theorem set_of_unmet (h : (t.hint bit limit value).unmet) : (t.hint bit limit value).set := by
  simp only [hint] at h ⊢
  split <;> simp_all

theorem hint_unmet_iff : (t.hint bit limit value).unmet = false ↔ (t.bm &&& bit ≠ 0 → limit ≤ value) := by
  simp only [hint]
  split <;> simp_all

theorem hint_mono (h : value ≤ value') : (t.hint bit limit value').set = (t.hint bit limit value).set ∧
    ((t.hint bit limit value').unmet → (t.hint bit limit value).unmet) := by
  simp only [hint]
  split
  · refine ⟨rfl, fun hu => ?_⟩
    simp only [decide_eq_true_eq] at hu ⊢
    exact lt_of_le_of_lt (le_def.mp h) (BitVec.lt_def.mp hu)
  · exact ⟨rfl, id⟩

theorem hint_of_fewer (hbm : t₀.bm &&& t.bm = t₀.bm) (h : (t₀.hint bit limit value).set) :
    t.hint bit limit value = t₀.hint bit limit value := by
  have h₀ : t₀.bm &&& bit ≠ 0 := by
    intro h₀
    simp [hint, h₀] at h
  have h₁ : t.bm &&& bit ≠ 0 := by
    intro h₁
    apply h₀
    rw [← hbm, BitVec.and_assoc, h₁]
    exact BitVec.and_zero
  simp only [hint, if_pos h₀, if_pos h₁]

theorem hints_set_of_unmet : ((t.hints io iomode).1.unmet → (t.hints io iomode).1.set) ∧
    ((t.hints io iomode).2.unmet → (t.hints io iomode).2.set) := by
  simp only [hints]
  split
  · exact ⟨set_of_unmet, set_of_unmet⟩
  · split
    · exact ⟨set_of_unmet, set_of_unmet⟩
    · exact ⟨nofun, nofun⟩

theorem hints_mono (hf : io.fsize ≤ io'.fsize) (hr : io.readIo ≤ io'.readIo) (hw : io.writeIo ≤ io'.writeIo) :
    ((t.hints io' iomode).1.set = (t.hints io iomode).1.set ∧
      ((t.hints io' iomode).1.unmet → (t.hints io iomode).1.unmet)) ∧
    ((t.hints io' iomode).2.set = (t.hints io iomode).2.set ∧
      ((t.hints io' iomode).2.unmet → (t.hints io iomode).2.unmet)) := by
  simp only [hints]
  split
  · exact ⟨hint_mono hf, hint_mono hr⟩
  · split
    · exact ⟨hint_mono hf, hint_mono hw⟩
    · exact ⟨⟨rfl, id⟩, rfl, id⟩

theorem hints_of_fewer (ht : t = { t₀ with bm := t.bm }) (hbm : t₀.bm &&& t.bm = t₀.bm) :
    ((t₀.hints io iomode).1.set → (t.hints io iomode).1 = (t₀.hints io iomode).1) ∧
    ((t₀.hints io iomode).2.set → (t.hints io iomode).2 = (t₀.hints io iomode).2) := by
  have hrd : t.rdSz = t₀.rdSz ∧ t.rdIoSz = t₀.rdIoSz := by rw [ht]; exact ⟨rfl, rfl⟩
  have hwr : t.wrSz = t₀.wrSz ∧ t.wrIoSz = t₀.wrIoSz := by rw [ht]; exact ⟨rfl, rfl⟩
  simp only [hints]
  split
  · rw [hrd.1, hrd.2]
    exact ⟨hint_of_fewer hbm, hint_of_fewer hbm⟩
  · split
    · rw [hwr.1, hwr.2]
      exact ⟨hint_of_fewer hbm, hint_of_fewer hbm⟩
    · exact ⟨fun _ => rfl, fun _ => rfl⟩

end Nfs4Threshold

theorem hintsReached_iff {t : Nfs4Threshold} {io : IoSizes} {iomode : U32} :
    HintsReached (some t) io iomode ↔ (t.hints io iomode).1.unmet = false ∧ (t.hints io iomode).2.unmet = false := by
  simp only [HintsReached, Option.mem_def, Option.some.injEq, forall_eq']
  by_cases hread : iomode = Iomode.read
  · simp [Nfs4Threshold.hints, hread, Nfs4Threshold.hint_unmet_iff]
  · by_cases hrw : iomode = Iomode.rw
    · simp [Nfs4Threshold.hints, hrw, Nfs4Threshold.hint_unmet_iff]
    · simp only [Nfs4Threshold.hints, hread, hrw, if_false, false_implies, and_self]

/-- The decision follows the rule and is monotone, unless both hints were sent and just one is reached. -/
theorem pnfsWithinMdsthreshold_rule_iff (t : Option Nfs4Threshold) (io : IoSizes) (iomode : U32) :
    ((pnfsWithinMdsthreshold t io iomode = false ↔ HintsReached t io iomode) ∧
      (∀ io', io.fsize ≤ io'.fsize → io.readIo ≤ io'.readIo → io.writeIo ≤ io'.writeIo →
        pnfsWithinMdsthreshold t io' iomode → pnfsWithinMdsthreshold t io iomode) ∧
      (∀ t₀, FewerHints t₀ t → pnfsWithinMdsthreshold t₀ io iomode → pnfsWithinMdsthreshold t io iomode)) ↔
    ¬HalfReached t io iomode := by
  cases t with
  | none =>
    have hfewer : ∀ t₀, FewerHints t₀ none → pnfsWithinMdsthreshold t₀ io iomode → False := by
      intro t₀ hfewer h
      cases t₀ with
      | none => cases h
      | some a =>
        obtain ⟨b, hb, -⟩ := hfewer a rfl
        cases hb
    constructor
    · rintro - ⟨_, h, -⟩
      cases h
    · intro _
      refine ⟨⟨fun _ a h => ?_, fun _ => rfl⟩, fun _ _ _ _ h => h, fun t₀ h₀ h => (hfewer t₀ h₀ h).elim⟩
      cases h
  | some t =>
    rw [hintsReached_iff]
    constructor
    · rintro ⟨hrule, -, -⟩ ⟨_, h, h₁, h₂, hne⟩
      simp only [pnfsWithinMdsthreshold] at hrule
      cases hu₁ : (t.hints io iomode).1.unmet <;> cases hu₂ : (t.hints io iomode).2.unmet <;> simp_all
    · intro hhalf
      have hhalf' : (t.hints io iomode).1.set → (t.hints io iomode).2.set →
          (t.hints io iomode).1.unmet = (t.hints io iomode).2.unmet := by
        intro h₁ h₂
        by_contra hne
        exact hhalf ⟨t, rfl, h₁, h₂, hne⟩
      refine ⟨?_, fun io' hf hr hw h => ?_, fun t₀ hfewer h => ?_⟩
      · simp only [pnfsWithinMdsthreshold]
        split <;> grind
      · obtain ⟨⟨hs₁, hu₁⟩, hs₂, hu₂⟩ := @Nfs4Threshold.hints_mono t iomode io io' hf hr hw
        simp only [pnfsWithinMdsthreshold, hs₁, hs₂] at h ⊢
        split at h <;> grind
      · cases t₀ with
        | none => cases h
        | some a =>
          obtain ⟨b, hb, ht, hbm⟩ := hfewer a rfl
          cases hb
          obtain ⟨h₁, h₂⟩ := @Nfs4Threshold.hints_of_fewer t a iomode io ht hbm
          have hseta := @Nfs4Threshold.hints_set_of_unmet a iomode io
          simp only [pnfsWithinMdsthreshold] at h ⊢
          grind

/-- Hints of 4096 bytes for the file and for reads: a short file goes to the data servers once enough was read. -/
theorem pnfsWithinMdsthreshold_half_reached :
    pnfsWithinMdsthreshold (some { bm := 5, rdSz := 4096, rdIoSz := 4096 }) ⟨100, 4096, 0⟩ Iomode.read = false ∧
    pnfsWithinMdsthreshold (some { bm := 1, rdSz := 4096, rdIoSz := 4096 }) ⟨100, 4096, 0⟩ Iomode.read ∧
    ¬HintsReached (some { bm := 5, rdSz := 4096, rdIoSz := 4096 }) ⟨100, 4096, 0⟩ Iomode.read := by
  refine ⟨by decide, by decide, fun h => ?_⟩
  exact absurd ((h _ rfl).1 rfl (by decide)) (by decide)

variable {size len : Nat}

theorem roundUp_cases (hsize : 0 < size) (hlen : len < 2 ^ 64) (hle : size ≤ 2 ^ 32) :
    (len + size ≤ 2 ^ 64 ∧ len ≤ (len + (size - 1)) % 2 ^ 64 - (len + (size - 1)) % 2 ^ 64 % size) ∨
    (2 ^ 64 < len + size ∧ (len + (size - 1)) % 2 ^ 64 - (len + (size - 1)) % 2 ^ 64 % size = 0) := by
  by_cases h : len + size ≤ 2 ^ 64
  · rw [mod_eq_of_lt (by omega : len + (size - 1) < 2 ^ 64)]
    have := mod_lt (len + (size - 1)) hsize
    omega
  · refine Or.inr ⟨by omega, ?_⟩
    have hwrap : (len + (size - 1)) % 2 ^ 64 = len + (size - 1) - 2 ^ 64 := by
      rw [Nat.mod_eq_sub_mod (by omega), mod_eq_of_lt (by omega)]
    rw [hwrap, mod_eq_of_lt (by omega), Nat.sub_self]

theorem roundUp_of_lt (hlen : 0 < len) (hlt : len < size) (hle : size ≤ 2 ^ 32) :
    (len + (size - 1)) % 2 ^ 64 - (len + (size - 1)) % 2 ^ 64 % size = size := by
  rw [mod_eq_of_lt (by omega : len + (size - 1) < 2 ^ 64), Nat.mod_eq_sub_mod (by omega), mod_eq_of_lt (by omega)]
  omega

theorem last_page_iff {pos : Nat} (hsize : 0 < size) (hdvd : size ∣ 2 ^ 64) :
    2 ^ 64 ≤ pos - pos % size + size ↔ 2 ^ 64 - size ≤ pos := by
  obtain ⟨m, hm⟩ := hdvd
  have hdiv := Nat.div_add_mod pos size
  have hmod := mod_lt pos hsize
  have hstart : pos - pos % size + size = size * (pos / size + 1) := by rw [Nat.mul_add]; omega
  have hlast : 2 ^ 64 - size = size * (m - 1) := by rw [Nat.mul_sub, hm]; omega
  constructor
  · omega
  · intro h
    rw [hstart, hm]
    apply Nat.mul_le_mul_left
    have : size * (m - 1) < size * (pos / size + 1) := by rw [← hlast, ← hstart]; omega
    have := Nat.lt_of_mul_lt_mul_left this
    omega
section
variable {shift : Nat} {iomode : U32} {pos count x : U64}

section
variable (h : shift ≤ 32)
include h

theorem toNat_pageOffsetMask : (pageOffsetMask shift).toNat = 2 ^ shift - 1 := by
  have hlt : 2 ^ shift ≤ 2 ^ 32 := Nat.pow_le_pow_right (by decide) h
  have hpos : 0 < 2 ^ shift := two_pow_pos shift
  have hone : ((1 : U64) <<< shift).toNat = 2 ^ shift := by
    rw [BitVec.toNat_shiftLeft, Nat.shiftLeft_eq, show (1 : U64).toNat = 1 from rfl]
    omega
  rw [pageOffsetMask, BitVec.toNat_sub, hone, show (1 : U64).toNat = 1 from rfl]
  omega

theorem toNat_and_pageOffsetMask : (x &&& pageOffsetMask shift).toNat = x.toNat % 2 ^ shift := by
  rw [BitVec.toNat_and, toNat_pageOffsetMask h, Nat.and_two_pow_sub_one_eq_mod]

theorem toNat_and_pageMask : (x &&& ~~~(pageOffsetMask shift)).toNat = x.toNat - x.toNat % 2 ^ shift := by
  have hdisj : (x &&& ~~~(pageOffsetMask shift)) &&& (x &&& pageOffsetMask shift) = 0#64 := by
    ext i hi
    grind
  have hsplit : (x &&& ~~~(pageOffsetMask shift)) + (x &&& pageOffsetMask shift) = x := by
    rw [BitVec.add_eq_or_of_and_eq_zero _ _ hdisj]
    ext i hi
    simp
    grind
  have hadd := BitVec.toNat_add_of_and_eq_zero hdisj
  rw [hsplit, toNat_and_pageOffsetMask h] at hadd
  omega

theorem toNat_pageAlign : (pageAlign shift x).toNat =
      (x.toNat + (2 ^ shift - 1)) % 2 ^ 64 - (x.toNat + (2 ^ shift - 1)) % 2 ^ 64 % 2 ^ shift := by
  rw [pageAlign, toNat_and_pageMask h, toNat_add, toNat_pageOffsetMask h]

theorem toNat_pgOffset :
    (((pos &&& pageOffsetMask shift).setWidth 32).setWidth 64 : U64).toNat = pos.toNat % 2 ^ shift := by
  have hlt : pos.toNat % 2 ^ shift < 2 ^ 32 :=
    lt_of_lt_of_le (mod_lt _ (two_pow_pos _)) (Nat.pow_le_pow_right (by decide) h)
  rw [BitVec.toNat_setWidth, BitVec.toNat_setWidth, toNat_and_pageOffsetMask h]
  omega

theorem toNat_layoutgetRange_offset :
    (layoutgetRange shift iomode pos count).offset.toNat = pos.toNat - pos.toNat % 2 ^ shift := by
  have hp : (setWidth 64 (setWidth 32 (pos &&& pageOffsetMask shift))).toNat = _ := toNat_pgOffset h
  have hle : pos.toNat % 2 ^ shift ≤ pos.toNat := mod_le _ _
  simp only [layoutgetRange]
  generalize (pos &&& pageOffsetMask shift).setWidth 32 = pgOffset at hp ⊢
  by_cases hzero : pgOffset = 0
  · subst hzero
    have hmod : pos.toNat % 2 ^ shift = 0 := hp.symm
    simp only [ne_eq, not_true_eq_false, if_false, hmod, Nat.sub_zero]
    split <;> rfl
  · simp only [ne_eq, hzero, not_false_eq_true, if_true]
    split <;> (rw [BitVec.toNat_sub_of_le (by rw [le_def, hp]; exact hle), hp])

theorem toNat_layoutgetRange_length : (layoutgetRange shift iomode pos count).length.toNat =
      let len := (count.toNat + pos.toNat % 2 ^ shift) % 2 ^ 64
      if len = 2 ^ 64 - 1 then len
      else (len + (2 ^ shift - 1)) % 2 ^ 64 - (len + (2 ^ shift - 1)) % 2 ^ 64 % 2 ^ shift := by
  have hp : (setWidth 64 (setWidth 32 (pos &&& pageOffsetMask shift))).toNat = _ := toNat_pgOffset h
  have hmax : ∀ len : U64, len = nfs4MaxUint64 ↔ len.toNat = 2 ^ 64 - 1 := fun len => toNat_inj.symm
  simp only [layoutgetRange]
  generalize (pos &&& pageOffsetMask shift).setWidth 32 = pgOffset at hp ⊢
  have hlen : (if pgOffset ≠ 0 then (⟨iomode, pos - pgOffset.setWidth 64, count + pgOffset.setWidth 64⟩ : LayoutRange)
      else ⟨iomode, pos, count⟩).length.toNat = (count.toNat + pos.toNat % 2 ^ shift) % 2 ^ 64 := by
    by_cases hzero : pgOffset = 0
    · subst hzero
      have hmod : pos.toNat % 2 ^ shift = 0 := hp.symm
      simp only [ne_eq, not_true_eq_false, if_false, hmod, Nat.add_zero]
      exact (mod_eq_of_lt count.isLt).symm
    · simp only [ne_eq, hzero, not_false_eq_true, if_true, toNat_add, hp]
  generalize (if pgOffset ≠ 0 then (⟨iomode, pos - pgOffset.setWidth 64, count + pgOffset.setWidth 64⟩ : LayoutRange)
    else ⟨iomode, pos, count⟩) = arg at hlen ⊢
  rw [← hlen]
  by_cases harg : arg.length = nfs4MaxUint64
  · simp only [ne_eq, harg, not_true_eq_false, if_false]
    rw [if_pos ((hmax _).mp rfl)]
  · simp only [ne_eq, harg, not_false_eq_true, if_true]
    rw [if_neg fun hlast => harg ((hmax _).mpr hlast), toNat_pageAlign h]

end

theorem layoutgetRange_length_cases (iomode : U32) (pos count : U64) (h : shift ≤ 32) :
    let n := count.toNat + pos.toNat % 2 ^ shift
    let len := (layoutgetRange shift iomode pos count).length.toNat
    (n = 2 ^ 64 - 1 ∧ len = 2 ^ 64 - 1) ∨ (n ≤ 2 ^ 64 - 2 ^ shift ∧ n ≤ len) ∨
    (2 ^ 64 - 2 ^ shift < n ∧ n ≠ 2 ^ 64 - 1 ∧ n ≤ 2 ^ 64 ∧ len = 0) ∨ (2 ^ 64 < n ∧ len = 2 ^ shift) := by
  have hsize : 0 < 2 ^ shift := two_pow_pos shift
  have hle : 2 ^ shift ≤ 2 ^ 32 := Nat.pow_le_pow_right (by decide) h
  intro n len
  have hlen : len = _ := toNat_layoutgetRange_length h
  rw [hlen]
  by_cases hwrap : n < 2 ^ 64
  · rw [show (count.toNat + pos.toNat % 2 ^ shift) % 2 ^ 64 = n from mod_eq_of_lt hwrap]
    by_cases hlast : n = 2 ^ 64 - 1
    · refine Or.inl ⟨hlast, ?_⟩
      simp only [if_pos hlast]
      exact hlast
    · simp only [if_neg hlast]
      rcases roundUp_cases hsize hwrap hle with ⟨hfit, hup⟩ | ⟨hover, hup⟩
      · exact .inr (.inl ⟨by omega, hup⟩)
      · exact .inr (.inr (.inl ⟨by omega, hlast, by omega, hup⟩))
  · have hn : (count.toNat + pos.toNat % 2 ^ shift) % 2 ^ 64 = n - 2 ^ 64 := by
      rw [Nat.mod_eq_sub_mod (by omega), mod_eq_of_lt (by omega)]
    rw [hn]
    have hnot : n - 2 ^ 64 ≠ 2 ^ 64 - 1 := by omega
    simp only [if_neg hnot]
    by_cases hexact : n = 2 ^ 64
    · refine Or.inr (.inr (.inl ⟨by omega, by omega, by omega, ?_⟩))
      rw [hexact, Nat.sub_self, Nat.zero_add, mod_eq_of_lt (by omega : 2 ^ shift - 1 < 2 ^ 64),
        mod_eq_of_lt (by omega), Nat.sub_self]
    · exact .inr (.inr (.inr ⟨by omega, roundUp_of_lt (by omega) (by omega) hle⟩))

/-- The LAYOUTGET asks for every byte, unless its length wraps around, which is harmless in the last page. -/
theorem layoutgetRange_covers_iff (iomode : U32) (pos count : U64) (h : shift ≤ 32) :
    (∀ b : U64, pos ≤ b → b.toNat < pos.toNat + count.toNat → (layoutgetRange shift iomode pos count).Covers b) ↔
    count = 0 ∨ count.toNat + pos.toNat % 2 ^ shift = 2 ^ 64 - 1 ∨
      count.toNat + pos.toNat % 2 ^ shift ≤ 2 ^ 64 - 2 ^ shift ∨
      (2 ^ 64 < count.toNat + pos.toNat % 2 ^ shift ∧ 2 ^ 64 - 2 ^ shift ≤ pos.toNat) := by
  have hsize : 0 < 2 ^ shift := two_pow_pos shift
  have hlast : 2 ^ 64 ≤ pos.toNat - pos.toNat % 2 ^ shift + 2 ^ shift ↔ 2 ^ 64 - 2 ^ shift ≤ pos.toNat :=
    last_page_iff hsize (Nat.pow_dvd_pow 2 (by omega))
  have hmodle := mod_le pos.toNat (2 ^ shift)
  have hmax : ∀ len : U64, len = nfs4MaxUint64 ↔ len.toNat = 2 ^ 64 - 1 := fun len => toNat_inj.symm
  have hzero : count = 0 ↔ count.toNat = 0 := toNat_inj.symm
  have hoff : (layoutgetRange shift iomode pos count).offset.toNat = _ := toNat_layoutgetRange_offset h
  simp only [LayoutRange.Covers, le_def, hoff, hmax, hzero]
  constructor
  · intro hcover
    by_contra hbad
    -- the first byte of the I/O is missing, or the last one that there can be
    have hfirst := hcover pos le_rfl (by omega)
    rcases layoutgetRange_length_cases iomode pos count h with ⟨hn, hlen⟩ | ⟨hn, hlen⟩ | ⟨hn, -, -, hlen⟩ | ⟨hn, hlen⟩
    · omega
    · omega
    · omega
    · have hend := hcover (BitVec.allOnes 64) (by simp; omega) (by simp; omega)
      simp only [BitVec.toNat_allOnes] at hend
      omega
  · intro hok b hb hlt
    refine ⟨by omega, ?_⟩
    rcases layoutgetRange_length_cases iomode pos count h with ⟨hn, hlen⟩ | ⟨hn, hlen⟩ | ⟨hn, hne, hle', hlen⟩ | ⟨hn, hlen⟩
    · exact .inl hlen
    · exact .inr (by omega)
    · omega
    · exact .inr (by omega)

theorem layoutgetRange_covers_second_page :
    (12 : Nat) ≤ 32 ∧ ∀ b : U64, 4097 ≤ b → b.toNat < 4097 + 10 → (layoutgetRange 12 Iomode.read 4097 10).Covers b :=
  ⟨by decide, (layoutgetRange_covers_iff Iomode.read 4097 10 (by decide)).mpr (.inr (.inr (.inl (by decide))))⟩

/-- A read of a page behind the end of the file, and a range up to the end of the file from within a page. -/
theorem layoutgetRange_wraps : (let count := genericPgInitReadSize 8000 none 8192
     0 < count ∧ ¬(layoutgetRange 12 Iomode.read 8192 count).Covers 8192) ∧
    ¬(layoutgetRange 12 Iomode.rw 1 nfs4MaxUint64).Covers 1 := by decide

end

end Mynfs
