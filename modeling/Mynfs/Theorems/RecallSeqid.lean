import Mynfs.Layout.Return

/-! `pnfs_check_callback_stateid` compares plain numbers, the rest of the client orders them serially and skips 0. -/

namespace Mynfs
open BitVec (lt_def toNat_add toNat_inj)
open Nfs4err (delay ok oldStateid)

theorem pnfsSeqidIsNewer_iff {a b : U32} :
    pnfsSeqidIsNewer a b ↔ 0 < (2 ^ 32 - b.toNat + a.toNat) % 2 ^ 32 ∧ (2 ^ 32 - b.toNat + a.toNat) % 2 ^ 32 < 2 ^ 31 := by
  unfold pnfsSeqidIsNewer
  rw [Serial.newer_iff, Serial.diff, BitVec.toInt_eq_toNat_cond, BitVec.toNat_sub]
  split <;> omega

theorem toNat_seqidInc (s : Stateid) : s.nfs4StateidSeqidInc.seqid.toNat =
    if s.seqid.toNat = 2 ^ 32 - 1 then 1 else s.seqid.toNat + 1 := by
  have hlast : s.seqid = -1 ↔ s.seqid.toNat = 2 ^ 32 - 1 := toNat_inj.symm
  unfold Stateid.nfs4StateidSeqidInc
  dsimp only
  by_cases h : s.seqid = -1
  · rw [if_pos h, if_pos (hlast.mp h)]
    rfl
  · rw [if_neg h, if_neg (mt hlast.mpr h)]
    have hne := mt hlast.mpr h
    exact BitVec.toNat_add_of_lt (by simp; omega)

namespace LayoutHdr
variable (lo : LayoutHdr)

section
variable (new : Stateid) (referringCalls : Bool)

/-- What serial order asks of the answer to a recall. -/
structure ChecksSerially : Prop where
  next : new.seqid = lo.stateid.nfs4StateidSeqidInc.seqid → lo.pnfsCheckCallbackStateid new referringCalls = Nfs4err.ok
  old : lo.pnfsCheckCallbackStateid new referringCalls = Nfs4err.oldStateid ↔
    pnfsSeqidIsNewer new.seqid lo.stateid.seqid = false
  delay : lo.pnfsCheckCallbackStateid new referringCalls = Nfs4err.delay ↔
    pnfsSeqidIsNewer new.seqid lo.stateid.nfs4StateidSeqidInc.seqid ∧ referringCalls = false

/-- Where plain comparison gives the answer of serial order. Behind the last sequence id these are coincidences. -/
def PlainOrderFits : Prop :=
  if lo.stateid.seqid = -1 then
    if referringCalls then pnfsSeqidIsNewer new.seqid lo.stateid.seqid = false
    else pnfsSeqidIsNewer new.seqid lo.stateid.seqid ∧ pnfsSeqidIsNewer new.seqid 1
  else (lo.stateid.seqid < new.seqid ↔ pnfsSeqidIsNewer new.seqid lo.stateid.seqid) ∧
    (referringCalls ∨ new.seqid ≠ lo.stateid.seqid + 0x80000000)

end

instance (new : Stateid) (referringCalls : Bool) : Decidable (lo.PlainOrderFits new referringCalls) := by
  unfold PlainOrderFits
  infer_instance

section
variable {lo : LayoutHdr} {new : Stateid} (hvalid : lo.pnfsLayoutIsValid)
  (hother : lo.stateid.nfs4StateidMatchOther new) (hreturn : lo.layoutReturn = false)
include hvalid hother hreturn

variable (referringCalls : Bool)

theorem checkCallbackStateid_eq : lo.pnfsCheckCallbackStateid new referringCalls =
    if (lo.stateid.seqid.toNat + 1) % 2 ^ 32 < new.seqid.toNat ∧ referringCalls = false then delay
    else if new.seqid.toNat ≤ lo.stateid.seqid.toNat then oldStateid else ok := by
  simp only [pnfsCheckCallbackStateid, hvalid, hother, hreturn, lt_def, BitVec.le_def, toNat_add]
  rfl

theorem pnfsCheckCallbackStateid_eq_delay_iff : lo.pnfsCheckCallbackStateid new referringCalls = delay ↔
      (lo.stateid.seqid.toNat + 1) % 2 ^ 32 < new.seqid.toNat ∧ referringCalls = false := by
  rw [checkCallbackStateid_eq hvalid hother hreturn]
  split_ifs with hearly hold
  · exact ⟨fun _ => hearly, fun _ => rfl⟩
  · exact ⟨nofun, fun h => absurd h hearly⟩
  · exact ⟨nofun, fun h => absurd h hearly⟩

theorem pnfsCheckCallbackStateid_eq_oldStateid_iff : lo.pnfsCheckCallbackStateid new referringCalls = oldStateid ↔
      ¬((lo.stateid.seqid.toNat + 1) % 2 ^ 32 < new.seqid.toNat ∧ referringCalls = false) ∧
        new.seqid.toNat ≤ lo.stateid.seqid.toNat := by
  rw [checkCallbackStateid_eq hvalid hother hreturn]
  split_ifs with hearly hold
  · exact ⟨nofun, fun h => absurd hearly h.1⟩
  · exact ⟨fun _ => ⟨hearly, hold⟩, fun _ => rfl⟩
  · exact ⟨nofun, fun h => absurd h.2 hold⟩

theorem pnfsCheckCallbackStateid_eq_ok_iff : lo.pnfsCheckCallbackStateid new referringCalls = ok ↔
      ¬((lo.stateid.seqid.toNat + 1) % 2 ^ 32 < new.seqid.toNat ∧ referringCalls = false) ∧
        lo.stateid.seqid.toNat < new.seqid.toNat := by
  rw [checkCallbackStateid_eq hvalid hother hreturn]
  split_ifs with hearly hold
  · exact ⟨nofun, fun h => absurd hearly h.1⟩
  · exact ⟨nofun, fun h => absurd hold (not_le.mpr h.2)⟩
  · exact ⟨fun _ => ⟨hearly, not_le.mp hold⟩, fun _ => rfl⟩

/-- The answers follow serial order exactly where the plain order fits it. -/
theorem checksSerially_iff (referringCalls : Bool) :
    lo.ChecksSerially new referringCalls ↔ lo.PlainOrderFits new referringCalls := by
  have hnext := toNat_seqidInc lo.stateid
  have hcur := lo.stateid.seqid.isLt
  have hnew := new.seqid.isLt
  have hlast : lo.stateid.seqid = -1 ↔ lo.stateid.seqid.toNat = 2 ^ 32 - 1 := toNat_inj.symm
  have hfar : new.seqid = lo.stateid.seqid + 0x80000000 ↔
      new.seqid.toNat = (lo.stateid.seqid.toNat + 2 ^ 31) % 2 ^ 32 := by
    rw [← toNat_inj, toNat_add]
    rfl
  have hserial : lo.ChecksSerially new referringCalls ↔
      (new.seqid.toNat = lo.stateid.nfs4StateidSeqidInc.seqid.toNat →
        lo.pnfsCheckCallbackStateid new referringCalls = ok) ∧
      (lo.pnfsCheckCallbackStateid new referringCalls = oldStateid ↔
        pnfsSeqidIsNewer new.seqid lo.stateid.seqid = false) ∧
      (lo.pnfsCheckCallbackStateid new referringCalls = delay ↔
        pnfsSeqidIsNewer new.seqid lo.stateid.nfs4StateidSeqidInc.seqid ∧ referringCalls = false) := by
    rw [toNat_inj]
    exact ⟨fun h => ⟨h.next, h.old, h.delay⟩, fun h => ⟨h.1, h.2.1, h.2.2⟩⟩
  rw [hserial, pnfsCheckCallbackStateid_eq_delay_iff hvalid hother hreturn,
    pnfsCheckCallbackStateid_eq_oldStateid_iff hvalid hother hreturn,
    pnfsCheckCallbackStateid_eq_ok_iff hvalid hother hreturn, PlainOrderFits]
  simp only [← Bool.not_eq_true, pnfsSeqidIsNewer_iff, hnext, ne_eq, hfar, lt_def, hlast,
    show (1 : U32).toNat = 1 from rfl]
  -- what is left is about the two numbers
  generalize lo.stateid.seqid.toNat = cur at hcur ⊢
  by_cases hlast : cur = 2 ^ 32 - 1
  · rw [if_pos hlast, if_pos hlast, hlast]
    cases referringCalls
    · simp only [Bool.false_eq_true, if_false, not_false_eq_true, and_true]
      omega
    · simp only [if_true, not_true_eq_false, and_false, not_false_eq_true, true_and, iff_self, and_true]
      omega
  · rw [if_neg hlast, if_neg hlast]
    cases referringCalls
    · simp only [Bool.false_eq_true, not_false_eq_true, and_true, false_or]
      omega
    · simp only [not_true_eq_false, and_false, not_false_eq_true, true_and, iff_self, true_or, and_true]
      omega

end

/-- The recall that follows the current sequence id 6. -/
theorem checksSerially_iff_next : ({ invalidStid := false, stateid := { seqid := 6 } } : LayoutHdr).ChecksSerially
    { seqid := 7 } false :=
  (checksSerially_iff rfl (by decide) rfl false).mpr (by decide)

/-- Behind the last sequence id comes 1, but the server is told to wait, or that its stateid is old. -/
theorem pnfsCheckCallbackStateid_last :
    let lo : LayoutHdr := { invalidStid := false, stateid := { seqid := 0xFFFFFFFF } }
    lo.stateid.nfs4StateidSeqidInc.seqid = 1 ∧ lo.pnfsCheckCallbackStateid { seqid := 1 } false = delay ∧
      lo.pnfsCheckCallbackStateid { seqid := 1 } true = oldStateid := by
  decide

end LayoutHdr

end Mynfs
