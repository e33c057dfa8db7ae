import Mathlib.Tactic.Common
import Mynfs.Client.Timeouts

/-! Timeouts follow the mount options unless `timeo * HZ` wraps. -/

namespace Mynfs

namespace KernelConfig
variable {k : KernelConfig} {proto : MountTransport} {timeo retrans : U32}

/-- The product wraps, and not to a number that is cut to the maximum. -/
def Wraps (k : KernelConfig) (proto : MountTransport) (timeo : U32) : Prop :=
  2 ^ 31 ≤ timeo.toNat * k.hz ∧ -10 < k.ticks timeo ∧ k.ticks timeo < 10 * k.nfsMaxTimeout proto

theorem maxTimeout_eq (k : KernelConfig) (proto : MountTransport) :
    k.nfsMaxTimeout proto = 600 * k.hz ∨ k.nfsMaxTimeout proto = 60 * k.hz := by
  cases proto <;> simp [nfsMaxTimeout]

theorem ticks_of_lt (h : timeo.toNat * k.hz < 2 ^ 31) : k.ticks timeo = timeo.toNat * k.hz := by
  have hhz := k.hz_range
  have hmul : (timeo * BitVec.ofNat 32 k.hz).toNat = timeo.toNat * k.hz := by
    rw [BitVec.toNat_mul, BitVec.toNat_ofNat, Nat.mod_eq_of_lt (a := k.hz) (by omega), Nat.mod_eq_of_lt (by omega)]
  rw [ticks, BitVec.toInt_eq_toNat_of_lt (by omega), hmul]
  push_cast
  rfl

theorem jiffies_of_nonneg (h : 0 ≤ k.ticks timeo) : (k.jiffies timeo : Int) = k.ticks timeo / 10 := by
  have hlt : k.ticks timeo < 2 ^ 31 := BitVec.toInt_lt
  unfold jiffies
  rw [Int.tdiv_eq_ediv_of_nonneg h]
  omega

theorem jiffies_of_neg (h : k.ticks timeo < 0) :
    if k.ticks timeo ≤ -10 then 2 ^ 63 ≤ k.jiffies timeo else k.jiffies timeo = 0 := by
  have hle : -2 ^ 31 ≤ k.ticks timeo := BitVec.le_toInt _
  unfold jiffies
  obtain ⟨n, hn⟩ : ∃ n, k.ticks timeo = -n := ⟨-k.ticks timeo, by omega⟩
  rw [hn, Int.neg_tdiv, Int.tdiv_eq_ediv_of_nonneg (by omega)]
  split <;> omega

theorem jiffies_of_lt (h : timeo.toNat * k.hz < 2 ^ 31) : k.jiffies timeo = timeo.toNat * k.hz / 10 := by
  have hticks := ticks_of_lt h
  have hpos : 0 ≤ k.ticks timeo := by
    rw [hticks]
    exact Int.natCast_nonneg (timeo.toNat * k.hz)
  have hj := jiffies_of_nonneg hpos
  omega

/-- The default is shorter than the maximum. -/
theorem initval_of_zero (h : k.jiffies timeo = 0) : k.initval proto timeo < k.nfsMaxTimeout proto := by
  have hhz := k.hz_range
  have hdef : k.jiffies proto.nfsDefTimeo < k.nfsMaxTimeout proto := by
    cases proto <;> rw [jiffies_of_lt] <;> simp [MountTransport.nfsDefTimeo, nfsMaxTimeout] <;> omega
  unfold initval
  simp only [h, or_true, if_true]
  rwa [if_neg (by omega)]

theorem initval_of_ne_zero (htimeo : timeo ≠ nfsUnspec) (h : k.jiffies timeo ≠ 0) :
    k.initval proto timeo = min (k.jiffies timeo) (k.nfsMaxTimeout proto) := by
  unfold initval
  simp only [htimeo, h, or_self, if_false]
  split <;> omega

theorem initval_eq_iff (htimeo : timeo ≠ nfsUnspec) (hpos : 1 ≤ timeo.toNat) :
    k.initval proto timeo = min (timeo.toNat * k.hz / 10) (k.nfsMaxTimeout proto) ↔ ¬k.Wraps proto timeo := by
  have hhz := k.hz_range
  have hmax := k.maxTimeout_eq proto
  unfold Wraps
  by_cases hlt : timeo.toNat * k.hz < 2 ^ 31
  · have hle := Nat.mul_le_mul hpos hhz.1
    have hj := jiffies_of_lt hlt
    rw [initval_of_ne_zero htimeo (by omega), hj]
    exact iff_of_true rfl fun hwraps => absurd hlt (not_lt.mpr hwraps.1)
  · rw [min_eq_right (by omega)]
    have hzero : k.jiffies timeo = 0 → k.initval proto timeo < k.nfsMaxTimeout proto := initval_of_zero
    have hcut : k.jiffies timeo ≠ 0 → k.initval proto timeo = min _ (k.nfsMaxTimeout proto) := initval_of_ne_zero htimeo
    by_cases hneg : k.ticks timeo < 0
    · have hj := jiffies_of_neg hneg
      split at hj <;> omega
    · have hj := jiffies_of_nonneg (not_lt.mp hneg)
      omega

theorem initval_le (k : KernelConfig) (proto : MountTransport) (timeo : U32) : k.initval proto timeo ≤ k.nfsMaxTimeout proto := by
  unfold initval
  dsimp only
  split_ifs <;> omega

theorem ne_nfsUnspec (h : timeo.toNat < 2 ^ 31) : timeo ≠ nfsUnspec := by
  rintro rfl
  exact absurd h (by decide)

end KernelConfig

section
variable {k : KernelConfig} {proto : MountTransport} {timeo timeo' retrans retrans' : U32} {res res' : RpcTimeout}

/-- What `timeo` and `retrans` ask for. -/
structure FollowsOptions (k : KernelConfig) (proto : MountTransport) (timeo retrans : U32) (res : RpcTimeout) : Prop where
  initval : res.toInitval = min (timeo.toNat * k.hz / 10) (k.nfsMaxTimeout proto)
  le : res.toInitval ≤ res.toMaxval
  maxval_le : res.toMaxval ≤ k.nfsMaxTimeout proto
  maxval : proto ≠ .udp → res.toMaxval = min (res.toInitval * (1 + retrans.toNat)) (k.nfsMaxTimeout proto)

theorem FollowsOptions.mono (h : FollowsOptions k proto timeo retrans res) (h' : FollowsOptions k proto timeo' retrans' res')
    (hle : timeo ≤ timeo') : res.toInitval ≤ res'.toInitval := by
  rw [h.initval, h'.initval]
  exact min_le_min_right _ (Nat.div_le_div_right (Nat.mul_le_mul_right _ (BitVec.le_def.mp hle)))

theorem initTimeoutValues_spec (k : KernelConfig) (timeo : U32) (hproto : proto ≠ .other) (hretrans : retrans ≠ nfsUnspec) (parms : RpcTimeout) :
    ∃ res, k.mynfsInitTimeoutValues parms proto timeo retrans = some res ∧ (FollowsOptions k proto timeo retrans res ↔
        k.initval proto timeo = min (timeo.toNat * k.hz / 10) (k.nfsMaxTimeout proto)) := by
  have hle := k.initval_le proto timeo
  have hhz := k.hz_range
  have hmax := k.maxTimeout_eq proto
  -- the product cannot leave an `unsigned long`
  have hprod : k.initval proto timeo + k.initval proto timeo * retrans.toNat < 2 ^ 64 := by
    have := Nat.mul_le_mul (show k.initval proto timeo ≤ 2 ^ 20 by omega) retrans.isLt.le
    omega
  unfold KernelConfig.mynfsInitTimeoutValues
  rw [if_neg hretrans]
  cases proto with
  | tcp | tcpTls | rdma =>
    refine ⟨_, rfl, FollowsOptions.initval, fun h => ⟨h, ?_, ?_, fun _ => ?_⟩⟩
    all_goals
      simp only [Nat.mod_eq_of_lt hprod, Nat.mul_add, Nat.mul_one]
      generalize k.initval _ timeo * retrans.toNat = extra
      split_ifs <;> omega
  | udp => exact ⟨_, rfl, FollowsOptions.initval, fun h => ⟨h, hle, le_rfl, fun h => absurd rfl h⟩⟩
  | other => exact absurd rfl hproto

/-- For every transport that a mount can have; a longer `timeo` then also has no shorter timeout. -/
theorem timeouts_follow_options_iff (k : KernelConfig) (parms : RpcTimeout) (proto : MountTransport) (hproto : proto ≠ .other)
    {value value' timeo retrans : U32} (htimeo : parseTimeo value = some timeo) (hretrans : parseRetrans value' = some retrans) :
    ∃ res, k.mynfsInitTimeoutValues parms proto timeo retrans = some res ∧
      (FollowsOptions k proto timeo retrans res ↔ ¬k.Wraps proto timeo) ∧
      ∀ timeo' retrans' res', FollowsOptions k proto timeo' retrans' res' → FollowsOptions k proto timeo retrans res →
        timeo ≤ timeo' → res.toInitval ≤ res'.toInitval := by
  obtain ⟨hrange, rfl⟩ := (Machine.of_unless htimeo).imp_right Option.some.inj
  obtain ⟨hle, rfl⟩ := (Machine.of_unless hretrans).imp_right Option.some.inj
  obtain ⟨res, hres, hiff⟩ := initTimeoutValues_spec k value hproto (KernelConfig.ne_nfsUnspec (not_le.mp hle)) parms
  refine ⟨res, hres, hiff.trans (KernelConfig.initval_eq_iff (KernelConfig.ne_nfsUnspec (by omega)) (by omega)), ?_⟩
  exact fun _ _ _ h' h => h.mono h'

end

theorem timeouts_follow_options_default : ∃ res,
    (⟨250, 12, by decide, by decide⟩ : KernelConfig).mynfsInitTimeoutValues ⟨0, 0, 0, 0, false⟩ .tcp 600 2 = some res ∧
      res.toInitval = 15000 := by
  obtain ⟨res, hres, hiff, -⟩ := timeouts_follow_options_iff ⟨250, 12, by decide, by decide⟩ ⟨0, 0, 0, 0, false⟩ .tcp (by decide)
    (by decide : parseTimeo 600 = some 600) (by decide : parseRetrans 2 = some 2)
  exact ⟨res, hres, (hiff.mpr fun h => absurd h.1 (by decide)).initval.trans (by decide)⟩

/-- With 1000 ticks a second, `timeo=4294968` gives 70 ticks. -/
theorem timeouts_wrap : ∃ (k : KernelConfig) (parms : RpcTimeout) (timeo : U32), parseTimeo timeo = some timeo ∧
    ∃ res, k.mynfsInitTimeoutValues parms .tcp timeo 2 = some res ∧ res.toInitval = 70 ∧
      ¬FollowsOptions k .tcp timeo 2 res := by
  refine ⟨⟨1000, 12, by decide, by decide⟩, ⟨0, 0, 0, 0, false⟩, 4294968, by decide, _, rfl, by decide, fun h => ?_⟩
  exact absurd h.initval (by decide)

end Mynfs
