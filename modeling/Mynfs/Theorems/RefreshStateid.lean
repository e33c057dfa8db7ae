import Mynfs.Open.Refresh

/-! When a refresh of an old open stateid ends. `status` is not set back before a wait. -/

namespace Mynfs
open Loop

namespace RefreshRound
variable (dst : Stateid) (round : RefreshRound) {status : Nfs4State.WaitStatus}

/-- The state has failed, is another one or was bumped, or a signal is pending. -/
def Leaves : Prop :=
  round.state.recoveryFailed ∨ round.state.nfs4StateMatchOpenStateidOther dst = false ∨
    Serial.newer round.seqidOpen dst.seqid ∨ round.wait = .fatalSignal

instance : Decidable (round.Leaves dst) := inferInstanceAs (Decidable (_ ∨ _))

variable {dst round}

theorem refreshRound_of_leaves (h : round.Leaves dst) : ∃ r, refreshRound dst status round = .done r ∧ r.slept = false := by
  unfold refreshRound
  split
  · exact ⟨_, rfl, rfl⟩
  split
  · exact ⟨_, rfl, rfl⟩
  split
  · exact ⟨_, rfl, rfl⟩
  · rename_i hfailed hmatch hnewer
    have hsignal : round.wait = .fatalSignal := by
      rcases h with h | h | h | h
      · exact absurd h hfailed
      · simp [h] at hmatch
      · exact absurd h hnewer
      · exact h
    rw [hsignal]
    exact ⟨_, rfl, rfl⟩

variable (h : ¬ round.Leaves dst)
include h

theorem refreshRound_of_stays : refreshRound dst status round =
      match round.wait.status status with
      | .ok => .again .ok
      | .eintr => .done { ret := false, dst := dst }
      | .eagain => .done { ret := true, dst := { dst with seqid := dst.seqid + 1 }, slept := true } := by
  simp only [Leaves, not_or, Bool.not_eq_true, Bool.not_eq_false] at h
  obtain ⟨hfailed, hmatch, hnewer, -⟩ := h
  refine (if_neg ?_).trans ((if_neg ?_).trans (if_neg ?_))
  · simp [hfailed]
  · simp [hmatch]
  · simp [hnewer]

theorem refreshRound_ok_of_stays : refreshRound dst .ok round = .again .ok := by
  rw [refreshRound_of_stays h]
  cases hwait : round.wait with
  | fatalSignal => exact absurd (.inr (.inr (.inr hwait))) h
  | wokenUp => rfl
  | wholeTime => rfl

theorem refreshRound_of_wokenUp (hwait : round.wait ≠ .wholeTime) : refreshRound dst status round = .again .ok := by
  rw [refreshRound_of_stays h]
  cases hw : round.wait with
  | fatalSignal => exact absurd (.inr (.inr (.inr hw))) h
  | wokenUp => rfl
  | wholeTime => exact absurd hw hwait

end RefreshRound

theorem newer_seqid_add_one (seqid : U32) : Serial.newer (seqid + 1) seqid := by
  simp [Serial.newer, Serial.diff]

section
variable {dst : Stateid} {rounds : Nat → RefreshRound}

theorem refresh_of_leaves {k : Nat} (hleaves : (rounds k).Leaves dst)
    (hfirst : (rounds 0).Leaves dst ∨ (rounds 0).wait ≠ .wholeTime) :
    ∃ fuel r, nfs4RefreshOpenOldStateid fuel dst rounds = some r ∧ r.slept = false := by
  -- after the first wait the status is 0, and the distance to the iteration that leaves is the measure
  have hrest : ∀ s : Nat × Nfs4State.WaitStatus, s.2 = .ok ∧ s.1 ≤ k →
      (∃ r, refreshBody dst rounds s = .done r ∧ r.slept = false) ∨
        ∃ s', refreshBody dst rounds s = .again s' ∧ (s'.2 = .ok ∧ s'.1 ≤ k) ∧ k - s'.1 < k - s.1 := by
    rintro ⟨j, status⟩ ⟨hstat, hj⟩
    obtain rfl : status = .ok := hstat
    by_cases h : (rounds j).Leaves dst
    · obtain ⟨r, hr, hslept⟩ := RefreshRound.refreshRound_of_leaves h
      exact .inl ⟨r, by rw [refreshBody, hr], hslept⟩
    · have hlt : j < k := lt_of_le_of_ne hj fun hjk => h (hjk ▸ hleaves)
      refine .inr ⟨(j + 1, .ok), by rw [refreshBody, RefreshRound.refreshRound_ok_of_stays h], ⟨rfl, hlt⟩, ?_⟩
      omega
  by_cases h : (rounds 0).Leaves dst
  · obtain ⟨r, hr, hslept⟩ := RefreshRound.refreshRound_of_leaves h
    exact ⟨1, r, run_of_done (by rw [refreshBody, hr]), hslept⟩
  · have hwait := hfirst.resolve_left h
    have hfirst' : refreshBody dst rounds (0, .eagain) = .again (1, .ok) := by
      rw [refreshBody, RefreshRound.refreshRound_of_wokenUp h hwait]
    have hk : 0 < k := Nat.pos_of_ne_zero fun hk => h (hk ▸ hleaves)
    have hstart : ((1, .ok) : Nat × Nfs4State.WaitStatus).2 = .ok ∧ 1 ≤ k := ⟨rfl, hk⟩
    obtain ⟨r, hrun, hslept⟩ := run_of_measure hrest hstart (Nat.lt_succ_self (k - 1))
    exact ⟨k - 1 + 1 + 1, r, (run_of_again hfirst').trans hrun, hslept⟩

theorem refresh_none (hstays : ∀ k, ¬ (rounds k).Leaves dst) (hwait : (rounds 0).wait ≠ .wholeTime) (fuel : Nat) :
    nfs4RefreshOpenOldStateid fuel dst rounds = none := by
  refine run_none (I := fun s => s = (0, .eagain) ∨ s.2 = .ok) ?_ (.inl rfl)
  rintro ⟨j, status⟩ (hstart | hok)
  · cases hstart
    exact ⟨(1, .ok), by rw [refreshBody, RefreshRound.refreshRound_of_wokenUp (hstays 0) hwait], .inr rfl⟩
  · obtain rfl : status = .ok := hok
    exact ⟨(j + 1, .ok), by rw [refreshBody, RefreshRound.refreshRound_ok_of_stays (hstays j)], .inr rfl⟩

theorem refresh_of_wholeTime (hstays : ¬ (rounds 0).Leaves dst) (hwait : (rounds 0).wait = .wholeTime) (fuel : Nat) :
    nfs4RefreshOpenOldStateid (fuel + 1) dst rounds =
      some { ret := true, dst := { dst with seqid := dst.seqid + 1 }, slept := true } := by
  refine run_of_done ?_
  rw [refreshBody, RefreshRound.refreshRound_of_stays hstays, hwait]
  rfl

end

/-- The first wait takes the whole time, and the sequence id is not the last one; or some iteration leaves the loop. -/
def Refreshes (dst : Stateid) (rounds : Nat → RefreshRound) : Prop :=
  if (rounds 0).wait = .wholeTime ∧ ¬ (rounds 0).Leaves dst then dst.seqid ≠ -1 else ∃ k, (rounds k).Leaves dst

/-- The refresh ends, with a newer sequence id other than 0 if it has slept the whole time, exactly under that
    condition. -/
theorem nfs4RefreshOpenOldStateid_iff (dst : Stateid) (rounds : Nat → RefreshRound) :
    (∃ fuel r, nfs4RefreshOpenOldStateid fuel dst rounds = some r ∧
      (r.slept → r.ret ∧ Serial.newer r.dst.seqid dst.seqid ∧ r.dst.seqid ≠ 0)) ↔ Refreshes dst rounds := by
  unfold Refreshes
  by_cases hfirst : (rounds 0).wait = .wholeTime ∧ ¬ (rounds 0).Leaves dst
  · rw [if_pos hfirst]
    obtain ⟨hwait, hstays⟩ := hfirst
    constructor
    · rintro ⟨_ | fuel, r, hrun, hr⟩
      · cases hrun
      · rw [refresh_of_wholeTime hstays hwait] at hrun
        cases hrun
        intro hlast
        exact (hr rfl).2.2 (by rw [hlast, neg_add_cancel])
    · intro hlast
      refine ⟨1, _, refresh_of_wholeTime hstays hwait 0, fun _ => ⟨rfl, newer_seqid_add_one dst.seqid, fun hzero => hlast ?_⟩⟩
      exact eq_neg_of_add_eq_zero_left hzero
  · rw [if_neg hfirst]
    constructor
    · rintro ⟨fuel, r, hrun, -⟩
      by_contra hnone
      push Not at hnone
      rw [refresh_none hnone (fun hwait => hfirst ⟨hwait, hnone 0⟩)] at hrun
      cases hrun
    · rintro ⟨k, hleaves⟩
      have hfirst' : (rounds 0).Leaves dst ∨ (rounds 0).wait ≠ .wholeTime := by
        by_cases hwait : (rounds 0).wait = .wholeTime
        · exact .inl (not_not.mp fun h => hfirst ⟨hwait, h⟩)
        · exact .inr hwait
      obtain ⟨fuel, r, hrun, hslept⟩ := refresh_of_leaves hleaves hfirst'
      exact ⟨fuel, r, hrun, fun h => by rw [hslept] at h; cases h⟩

def waitingRounds (seqid : U32) (wait : Nat → RefreshWait) (k : Nat) : RefreshRound where
  state := { openState := true, openStateid := ⟨.open_, seqid, 7⟩ }
  seqidOpen := seqid
  wait := wait k

/-- After one wake-up the client waits for ever; and behind the last sequence id there is 0. -/
theorem nfs4RefreshOpenOldStateid_waits_forever : (∀ fuel, nfs4RefreshOpenOldStateid fuel ⟨.open_, 1, 7⟩
      (waitingRounds 1 fun k => if k = 0 then .wokenUp else .wholeTime) = none) ∧
    nfs4RefreshOpenOldStateid 1 ⟨.open_, -1, 7⟩ (waitingRounds (-1) fun _ => .wholeTime) =
      some { ret := true, dst := ⟨.open_, 0, 7⟩, slept := true } := by
  refine ⟨refresh_none (fun k => ?_) (by decide), rfl⟩
  rintro (h | h | h | h)
  · cases h
  · cases h
  · change Serial.newer (1 : U32) 1 = true at h
    exact absurd h (by decide)
  · change (if k = 0 then RefreshWait.wokenUp else .wholeTime) = .fatalSignal at h
    split at h <;> cases h

end Mynfs
