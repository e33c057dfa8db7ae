import Mathlib.Tactic.Common
import Mynfs.Client.Sizes

/-! The sizes of a mount keep the limits that leave them at least the smallest I/O size. -/

namespace Mynfs

theorem two_pow_nrbits_le {bsize : Nat} (h : 0 < bsize) : ∀ n, 2 ^ nrbits bsize n ≤ bsize
  | 0 => h
  | n + 1 => by
    unfold nrbits
    split
    next hbit => exact Nat.ge_two_pow_of_testBit hbit
    · exact two_pow_nrbits_le h n

theorem le_nrbits {bsize m : Nat} (h : 2 ^ m ≤ bsize) : ∀ {n}, bsize < 2 ^ (n + 1) → m ≤ nrbits bsize n
  | 0, hlt => by
    have := (Nat.pow_lt_pow_iff_right (by decide)).mp (lt_of_le_of_lt h hlt)
    omega
  | n + 1, hlt => by
    unfold nrbits
    split
    · have := (Nat.pow_lt_pow_iff_right (by decide)).mp (lt_of_le_of_lt h hlt)
      omega
    next hbit =>
      -- without its highest bit the number is smaller
      refine le_nrbits h (Nat.lt_pow_two_of_testBit _ fun i hi => ?_)
      rcases hi.eq_or_lt with rfl | hi
      · exact Bool.eq_false_iff.mpr hbit
      · exact Nat.testBit_lt_two_pow (lt_of_lt_of_le hlt (Nat.pow_le_pow_right (by decide) hi))

/-- What the I/O sizes are made of: not below the smallest, and not above what they were unless that is too small. -/
def IoSize (given size : Nat) : Prop := 1024 ≤ size ∧ size ≤ 2 ^ 20 ∧ (1024 ≤ given → size ≤ given)

theorem ioSize_clampIoSize (size : Nat) : IoSize size (clampIoSize size) := by
  unfold IoSize clampIoSize nfsMinFileIoSize nfsDefFileIoSize nfsMaxFileIoSize
  split_ifs <;> omega

theorem IoSize.nfsBlockBits {given size : Nat} (h : IoSize given size) : IoSize given (nfsBlockBits size) := by
  obtain ⟨hge, hle, hgiven⟩ := h
  unfold Mynfs.nfsBlockBits
  split
  · have hlow := le_nrbits (m := 10) hge (n := 31) (by omega)
    have hhigh : 2 ^ nrbits size 31 ≤ size := two_pow_nrbits_le (by omega) 31
    have := Nat.pow_le_pow_right (n := 2) (by decide) hlow
    exact ⟨by omega, by omega, fun h => hhigh.trans (hgiven h)⟩
  · exact ⟨hge, hle, hgiven⟩

theorem ioSize_nfsBlockSize (bsize : Nat) : IoSize bsize (nfsBlockSize bsize) := (ioSize_clampIoSize bsize).nfsBlockBits

namespace KernelConfig

theorem ioSize_nfsIoSize (k : KernelConfig) (size : Nat) (proto : MountTransport) : IoSize size (k.nfsIoSize size proto) := by
  have h := ioSize_clampIoSize size
  unfold nfsIoSize
  dsimp only
  split
  · exact h.nfsBlockBits
  next hpage =>
    obtain ⟨hge, hle, hgiven⟩ := h
    have hpage : 2 ^ k.pageShift ≤ clampIoSize size := not_lt.mp fun hlt => hpage (.inr hlt)
    have hround := Nat.div_mul_le_self (clampIoSize size) (2 ^ k.pageShift)
    have hone := Nat.mul_le_mul_right (2 ^ k.pageShift) (Nat.div_pos hpage (Nat.two_pow_pos _))
    have hmin := Nat.pow_le_pow_right (n := 2) (by decide) k.pageShift_ge
    exact ⟨by omega, by omega, fun h => hround.trans (hgiven h)⟩

/-- The options, FSINFO and the transport together never get below the smallest I/O size. -/
theorem fsinfoSize_spec (k : KernelConfig) {payload : Nat} (hpay : 1024 ≤ payload) (option pref max : U32) (proto : MountTransport) :
    let size := k.fsinfoSize (k.mountSize option proto) pref max payload proto
    1024 ≤ size ∧ size ≤ payload ∧ size ≤ 2 ^ 20 ∧ (1024 ≤ max.toNat → size ≤ max.toNat) := by
  have hoption := k.ioSize_nfsIoSize option.toNat proto
  have hpref := k.ioSize_nfsIoSize pref.toNat proto
  have hmax := k.ioSize_nfsIoSize max.toNat proto
  unfold IoSize at hoption hpref hmax
  unfold fsinfoSize mountSize nfsMaxFileIoSize
  dsimp only
  split_ifs <;> omega

end KernelConfig

theorem sessionLimit_le (max overhead : U32) (size : Nat) : sessionLimit max overhead size ≤ size := by
  unfold sessionLimit
  split <;> omega

theorem sessionLimit_le_iff {max overhead : U32} (h : overhead ≤ max) {size limit : Nat} :
    sessionLimit max overhead size ≤ limit ↔ size ≤ limit ∨ max.toNat ≤ limit + overhead.toNat := by
  have hsub := BitVec.toNat_sub_of_le h
  have hle := BitVec.le_def.mp h
  unfold sessionLimit
  split <;> omega

theorem sessionLimit_add_le_iff {max overhead : U32} {size : Nat} :
    sessionLimit max overhead size + overhead.toNat ≤ max.toNat ↔ overhead ≤ max := by
  refine ⟨fun h => BitVec.le_def.mpr (by omega), fun h => ?_⟩
  have hsub := BitVec.toNat_sub_of_le h
  have hle := BitVec.le_def.mp h
  unfold sessionLimit
  split <;> omega

section
variable (o : Overheads) (fcAttrs : ChannelAttrs) (fsinfo : NfsFsinfo) (payload : Nat)

/-- The limits that the sizes of a mount are to keep. -/
structure WithinLimits (s : ServerSizes) : Prop where
  rtmax : 512 ≤ fsinfo.rtmax.toNat → s.rsize ≤ fsinfo.rtmax.toNat
  wtmax : 512 ≤ fsinfo.wtmax.toNat → s.wsize ≤ fsinfo.wtmax.toNat
  payload : s.rsize ≤ payload ∧ s.wsize ≤ payload
  ioSize : s.rsize ≤ nfsMaxFileIoSize ∧ s.wsize ≤ nfsMaxFileIoSize
  resp : s.rsize + o.maxread.toNat ≤ fcAttrs.maxRespSz.toNat ∧ s.dtsize + o.maxread.toNat ≤ fcAttrs.maxRespSz.toNat
  rqst : s.wsize + o.maxwrite.toNat ≤ fcAttrs.maxRqstSz.toNat
  xattr : s.gxasize + o.maxgetxattr.toNat ≤ fcAttrs.maxRespSz.toNat ∧ s.sxasize + o.maxsetxattr.toNat ≤ fcAttrs.maxRqstSz.toNat ∧
    s.lxasize + o.maxlistxattrs.toNat ≤ fcAttrs.maxRespSz.toNat

/-- The session has room for overheads, and no limit but its own is below the smallest I/O size. -/
structure LeavesRoom : Prop where
  overhead : o.maxread ≤ fcAttrs.maxRespSz ∧ o.maxwrite ≤ fcAttrs.maxRqstSz
  xattr : o.maxgetxattr ≤ fcAttrs.maxRespSz ∧ o.maxsetxattr ≤ fcAttrs.maxRqstSz ∧ o.maxlistxattrs ≤ fcAttrs.maxRespSz
  rtmax : 512 ≤ fsinfo.rtmax.toNat →
    1024 ≤ fsinfo.rtmax.toNat ∨ fcAttrs.maxRespSz.toNat ≤ fsinfo.rtmax.toNat + o.maxread.toNat
  wtmax : 512 ≤ fsinfo.wtmax.toNat →
    1024 ≤ fsinfo.wtmax.toNat ∨ fcAttrs.maxRqstSz.toNat ≤ fsinfo.wtmax.toNat + o.maxwrite.toNat
  payload : 1024 ≤ payload ∨
    fcAttrs.maxRespSz.toNat ≤ payload + o.maxread.toNat ∧ fcAttrs.maxRqstSz.toNat ≤ payload + o.maxwrite.toNat

end

/-- The sizes of a mount with a session, from the options to the negotiated limits. -/
def KernelConfig.mountSizes (k : KernelConfig) (o : Overheads) (fcAttrs : ChannelAttrs) (rsize wsize : U32) (proto : MountTransport)
    (fsinfo : NfsFsinfo) (payload : Nat) : ServerSizes :=
  ((k.nfsServerSetFsinfo (k.mountSize rsize proto) (k.mountSize wsize proto) proto fsinfo payload).nfs4SessionLimitRwsize o
    fcAttrs).nfs4SessionLimitXasize o fcAttrs

/-- For all that a session can have negotiated, whether or not the client checks it. -/
theorem sizes_within_limits_iff (k : KernelConfig) (o : Overheads) (fcAttrs : ChannelAttrs) (rsize wsize : U32)
    (proto : MountTransport) (fsinfo : NfsFsinfo) (payload : Nat) :
    WithinLimits o fcAttrs fsinfo payload (k.mountSizes o fcAttrs rsize wsize proto fsinfo payload) ↔
      LeavesRoom o fcAttrs fsinfo payload := by
  obtain ⟨hpayMin, -, hpay⟩ := ioSize_nfsBlockSize payload
  obtain ⟨hrmin, hrpay, hrio, hrtmax⟩ := k.fsinfoSize_spec hpayMin rsize fsinfo.rtpref fsinfo.rtmax proto
  obtain ⟨hwmin, hwpay, hwio, hwtmax⟩ := k.fsinfoSize_spec hpayMin wsize fsinfo.wtpref fsinfo.wtmax proto
  constructor
  · intro h
    obtain ⟨hrt, hwt, ⟨hrp, hwp⟩, -, ⟨hr, -⟩, hw, hg, hs, hl⟩ := h
    have hread := sessionLimit_add_le_iff.mp hr
    have hwrite := sessionLimit_add_le_iff.mp hw
    refine ⟨⟨hread, hwrite⟩,
      ⟨sessionLimit_add_le_iff.mp hg, sessionLimit_add_le_iff.mp hs, sessionLimit_add_le_iff.mp hl⟩, fun hmax => ?_, fun hmax => ?_, ?_⟩
    · exact ((sessionLimit_le_iff hread).mp (hrt hmax)).imp_left hrmin.trans
    · exact ((sessionLimit_le_iff hwrite).mp (hwt hmax)).imp_left hwmin.trans
    · rw [or_and_left]
      exact ⟨((sessionLimit_le_iff hread).mp hrp).imp_left hrmin.trans, ((sessionLimit_le_iff hwrite).mp hwp).imp_left hwmin.trans⟩
  · rintro ⟨⟨hread, hwrite⟩, ⟨hg, hs, hl⟩, hrt, hwt, hp⟩
    refine ⟨fun hmax => (sessionLimit_le_iff hread).mpr ?_, fun hmax => (sessionLimit_le_iff hwrite).mpr ?_,
      ⟨(sessionLimit_le_iff hread).mpr ?_, (sessionLimit_le_iff hwrite).mpr ?_⟩,
      ⟨(sessionLimit_le _ _ _).trans hrio, (sessionLimit_le _ _ _).trans hwio⟩,
      ⟨sessionLimit_add_le_iff.mpr hread, sessionLimit_add_le_iff.mpr hread⟩, sessionLimit_add_le_iff.mpr hwrite,
      sessionLimit_add_le_iff.mpr hg, sessionLimit_add_le_iff.mpr hs, sessionLimit_add_le_iff.mpr hl⟩
    · exact (hrt hmax).imp_left hrtmax
    · exact (hwt hmax).imp_left hwtmax
    · exact hp.imp (fun hp => hrpay.trans (hpay hp)) And.left
    · exact hp.imp (fun hp => hwpay.trans (hpay hp)) And.right

/-- A server that takes 512 bytes per READ gets calls for 4096. -/
theorem sizes_exceed_rtmax : ∃ (k : KernelConfig) (o : Overheads) (args : CreateSession) (fsinfo : NfsFsinfo),
    nfs4VerifyChannelAttrs args args = some args ∧ (k.mountSizes o args.fcAttrs 0 0 .tcp fsinfo (2 ^ 20)).rsize = 4096 ∧
      ¬WithinLimits o args.fcAttrs fsinfo (2 ^ 20) (k.mountSizes o args.fcAttrs 0 0 .tcp fsinfo (2 ^ 20)) := by
  refine ⟨⟨250, 12, by decide, by decide⟩, ⟨904, 1044, 1200, 1200, 1200⟩,
    ⟨false, { maxRqstSz := 1049620, maxRespSz := 1049480, maxOps := 8, maxReqs := 64 }, {}⟩, ⟨512, 65536, 65536, 65536, 4096⟩,
    by decide +kernel, by decide +kernel, fun h => ?_⟩
  exact absurd (h.rtmax (by decide)) (by decide +kernel)

end Mynfs
