import Mynfs.Open.Reclaim
import Mathlib.Algebra.BigOperators.Group.List.Basic
import Mathlib.Data.Set.Card

/-! The reclaim of open states returns: after a reboot always, without a grace period if each fails finitely often. -/

namespace Mynfs
open Loop List

def Recovery.outcome (r : Recovery) (flctx : Option FileLockContext) : Int :=
  if r.status < 0 then r.status else (nfs4ReclaimLocks r.recoverLock flctx r.lockStates).1

/-- The scan starts again after the error, and the state may be marked again. -/
def Retryable (status : Int) : Prop := reclaimCase status = .tryAgain ∨ reclaimCase status = .nograce

def ReclaimState.SameFile (st st' : ReclaimState) : Prop := st'.id = st.id ∧ st'.flctx = st.flctx

namespace ReclaimState
variable {st : ReclaimState} {bit : ReclaimBit} {value : Bool}

@[simp] theorem putFlag_flag : (st.putFlag value bit).flag bit = value := by cases bit <;> rfl

@[simp] theorem putFlag_id : (st.putFlag value bit).id = st.id := by cases bit <;> rfl

@[simp] theorem putFlag_flctx : (st.putFlag value bit).flctx = st.flctx := by cases bit <;> rfl

@[simp] theorem putFlag_attempts : (st.putFlag value bit).attempts = st.attempts := by cases bit <;> rfl

@[simp] theorem putFlag_recoveryFailed : (st.putFlag value bit).recoveryFailed = st.recoveryFailed := by cases bit <;> rfl

@[simp] theorem markNograce_id : st.nfs4StateMarkReclaimNograce.2.id = st.id := by
  unfold nfs4StateMarkReclaimNograce
  split <;> rfl

@[simp] theorem markNograce_flctx : st.nfs4StateMarkReclaimNograce.2.flctx = st.flctx := by
  unfold nfs4StateMarkReclaimNograce
  split <;> rfl

@[simp] theorem markNograce_attempts : st.nfs4StateMarkReclaimNograce.2.attempts = st.attempts := by
  unfold nfs4StateMarkReclaimNograce
  split <;> rfl

theorem markNograce_reboot (h : st.flag .reboot = false) : st.nfs4StateMarkReclaimNograce.2.flag .reboot = false := by
  unfold nfs4StateMarkReclaimNograce
  split
  · exact h
  · rfl

end ReclaimState

/-- What an attempt leaves. -/
structure Attempted (bit : ReclaimBit) (st : ReclaimState) (status : Int) (st' : ReclaimState) : Prop where
  sameFile : st.SameFile st'
  attempts : st'.attempts = st.attempts + 1
  reboot : st.flag .reboot = false → st'.flag .reboot = false
  recovered : 0 ≤ status → st.flag bit = false → st'.flag bit = false

theorem reclaimOneOpenState_status (r : Recovery) (st : ReclaimState) (lostLocks : Nat) :
    (nfs4ReclaimOneOpenState r st lostLocks).1 = r.outcome st.flctx := by
  have hflctx : (st.recoverOpen r).flctx = st.flctx := by
    unfold ReclaimState.recoverOpen
    split <;> simp
  have hlocks : (st.recoverOpen r).lockStates = r.lockStates := rfl
  unfold nfs4ReclaimOneOpenState Recovery.outcome
  simp only [hflctx, hlocks]
  split
  · rfl
  · split <;> rfl

theorem reclaimOneOpenState_attempted (bit : ReclaimBit) (r : Recovery) (st : ReclaimState) (lostLocks : Nat) :
    Attempted bit st (nfs4ReclaimOneOpenState r st lostLocks).1 (nfs4ReclaimOneOpenState r st lostLocks).2.1 := by
  have hopen : st.SameFile (st.recoverOpen r) ∧ (st.recoverOpen r).attempts = st.attempts + 1 ∧
      (st.flag .reboot = false → (st.recoverOpen r).flag .reboot = false) := by
    unfold ReclaimState.recoverOpen
    split
    · exact ⟨⟨by simp, by simp⟩, by simp, st.markNograce_reboot⟩
    · exact ⟨⟨rfl, rfl⟩, rfl, id⟩
  obtain ⟨hsame, hatts, hreboot⟩ := hopen
  unfold nfs4ReclaimOneOpenState
  dsimp only
  split
  · rename_i hneg
    exact ⟨hsame, hatts, hreboot, fun h => absurd h (not_le.mpr hneg)⟩
  split
  · rename_i hneg
    exact ⟨hsame, hatts, hreboot, fun h => absurd h (not_le.mpr hneg)⟩
  · refine ⟨hsame, hatts, hreboot, fun _ hflag => ?_⟩
    cases bit with
    | reboot => exact hreboot hflag
    | nograce => rfl

section
variable {bit : ReclaimBit} {st st' : ReclaimState} {states pre post : List ReclaimState} {ssc : Bool}

theorem visit_recover (h : st.visit bit = (.recover, st')) :
    st.flag bit ∧ st.recoveryFailed = false ∧ st' = st.putFlag false bit := by
  unfold ReclaimState.visit at h
  split at h
  · cases h
  rename_i hflag
  dsimp only at h
  split at h
  · cases h
  rename_i hfailed
  split at h
  · cases h
  split at h
  · cases h
  · cases h
    simp only [Bool.not_eq_eq_eq_not, Bool.not_true, Bool.not_eq_false] at hflag
    simp only [ReclaimState.putFlag_recoveryFailed, Bool.not_eq_true] at hfailed
    exact ⟨hflag, hfailed, rfl⟩

theorem visit_state (bit : ReclaimBit) (st : ReclaimState) :
    (st.visit bit).2 = st ∨ (st.visit bit).2 = st.putFlag false bit ∨
      (st.visit bit).2 = (st.putFlag false bit).nfs4StateMarkRecoveryFailed := by
  unfold ReclaimState.visit
  dsimp only
  split
  · exact .inl rfl
  split
  · exact .inr (.inl rfl)
  split
  · exact .inr (.inl rfl)
  split
  · exact .inr (.inr rfl)
  · exact .inr (.inl rfl)

theorem reclaimScan_atState (h : reclaimScan bit states = .atState pre st post ssc) :
    ∃ passed found, states = passed ++ found :: post ∧ pre = passed.map (fun st => (st.visit bit).2) ∧
      found.visit bit = (.recover, st) := by
  induction states generalizing pre ssc with
  | nil => cases h
  | cons head rest ih =>
    unfold reclaimScan at h
    split at h
    · rename_i hvisit
      cases h
      exact ⟨[], head, rfl, rfl, hvisit⟩
    · rename_i visit passed hne hvisit
      split at h
      · cases h
      · rename_i hrest
        cases h
        obtain ⟨before, found, rfl, rfl, hfound⟩ := ih hrest
        exact ⟨head :: before, found, rfl, by rw [map_cons, hvisit], hfound⟩

theorem reclaimScan_sum (weight : ReclaimState → Nat)
    (hvisit : ∀ st, weight (st.visit bit).2 ≤ weight st) (h : reclaimScan bit states = .atState pre st post ssc) :
    ∃ found ∈ states, found.visit bit = (.recover, st) ∧
      ∀ x, ((pre ++ x :: post).map weight).sum + weight found ≤ (states.map weight).sum + weight x := by
  obtain ⟨passed, found, rfl, rfl, hfound⟩ := reclaimScan_atState h
  refine ⟨found, by simp, hfound, fun x => ?_⟩
  have hpassed : ((passed.map fun st => (st.visit bit).2).map weight).sum ≤ (passed.map weight).sum := by
    rw [map_map]
    exact sum_le_sum fun st _ => hvisit st
  simp only [map_append, map_cons, sum_append, sum_cons]
  omega

end

/-- How the loop starts again. -/
inductive Restarted (bit : ReclaimBit) (status : Int) (loop : U32) (st : ReclaimState) : ReclaimState → U32 → Prop
  | recovered (h : 0 ≤ status) : Restarted bit status loop st st 0
  | failed : Restarted bit status loop st st.nfs4StateMarkRecoveryFailed loop
  | tryAgain (h : Retryable status) (hloop : loop < 10) : Restarted bit status loop st (st.putFlag true bit) (loop + 1)
  | nograce (h : Retryable status) (loop' : U32) (hloop : loop' = loop ∨ 10 ≤ loop) :
      Restarted bit status loop st st.nfs4StateMarkReclaimNograce.2 loop'

namespace Reclaim
variable {s s' : Reclaim} {ops : RecoveryOps}

theorem handle_again {bit : ReclaimBit} {status : Int} {pre post : List ReclaimState} {st : ReclaimState}
    (h : s.handle bit status pre st post = .again s') :
    ∃ x, s'.soStates = pre ++ x :: post ∧ Restarted bit status s.loop st x s'.loop := by
  unfold handle at h
  split at h
  · rename_i hcase
    cases h
    have hpos : 0 ≤ status := by
      by_contra hneg
      simp only [reclaimCase, if_neg hneg] at hcase
      split_ifs at hcase
    exact ⟨st, rfl, .recovered hpos⟩
  · cases h
    exact ⟨_, rfl, .failed⟩
  · rename_i hcase
    split at h
    · rename_i hloop
      cases h
      exact ⟨_, rfl, .tryAgain (.inl hcase) hloop⟩
    · rename_i hloop
      cases h
      exact ⟨_, rfl, .nograce (.inl hcase) _ (.inr (BitVec.not_lt.mp hloop))⟩
  · rename_i hcase
    cases h
    exact ⟨_, rfl, .nograce (.inr hcase) _ (.inl rfl)⟩
  · cases h
  · cases h

theorem scanOnce_again (h : s.scanOnce ops = .again s') :
    ∃ pre st post ssc x st', reclaimScan ops.stateFlagBit s.soStates = .atState pre st post ssc ∧
      s'.soStates = pre ++ x :: post ∧ Attempted ops.stateFlagBit st ((ops.recover st.id st.attempts).outcome st.flctx) st' ∧
      Restarted ops.stateFlagBit ((ops.recover st.id st.attempts).outcome st.flctx) s.loop st' x s'.loop := by
  unfold scanOnce at h
  split at h
  · cases h
  · rename_i pre st post ssc hscan
    dsimp only at h
    have hattempt := reclaimOneOpenState_attempted ops.stateFlagBit (ops.recover st.id st.attempts) st s.lostLocks
    obtain ⟨x, hstates, hrst⟩ := handle_again h
    rw [reclaimOneOpenState_status] at hattempt hrst
    exact ⟨pre, st, post, ssc, x, _, hscan, hstates, hattempt, hrst⟩

end Reclaim

namespace ReclaimState

/-- The attempts after which the scan starts again with an error that may mark the state again. -/
def retries (ops : RecoveryOps) (st : ReclaimState) : Set Nat := {n | Retryable ((ops.recover st.id n).outcome st.flctx)}

noncomputable def failuresLeft (ops : RecoveryOps) (st : ReclaimState) : Nat := (st.retries ops ∩ Set.Ici st.attempts).ncard

def pending (bit : ReclaimBit) (st : ReclaimState) : Nat := if st.flag bit = true ∧ st.recoveryFailed = false then 1 else 0

noncomputable def weight (ops : RecoveryOps) (st : ReclaimState) : Nat := st.pending ops.stateFlagBit + st.failuresLeft ops

variable {ops : RecoveryOps} {bit : ReclaimBit} {st st' : ReclaimState}

theorem retries_of_sameFile (h : st.SameFile st') : st'.retries ops = st.retries ops := by
  unfold retries
  rw [h.1, h.2]

theorem failuresLeft_le (hfin : (st.retries ops).Finite) (hsame : st.SameFile st') (hle : st.attempts ≤ st'.attempts) :
    st'.failuresLeft ops ≤ st.failuresLeft ops := by
  unfold failuresLeft
  rw [retries_of_sameFile hsame]
  exact Set.ncard_le_ncard (Set.inter_subset_inter_right _ (Set.Ici_subset_Ici.mpr hle)) (hfin.inter_of_left _)

theorem failuresLeft_lt (hfin : (st.retries ops).Finite) (hsame : st.SameFile st') (hatts : st'.attempts = st.attempts + 1)
    (hretry : st.attempts ∈ st.retries ops) : st'.failuresLeft ops < st.failuresLeft ops := by
  unfold failuresLeft
  rw [retries_of_sameFile hsame, hatts]
  refine Set.ncard_lt_ncard ⟨?_, fun hsub => ?_⟩ (hfin.inter_of_left _)
  · exact Set.inter_subset_inter_right _ (Set.Ici_subset_Ici.mpr (Nat.le_succ _))
  · exact absurd (hsub ⟨hretry, le_refl st.attempts⟩).2 (Nat.not_succ_le_self _)

theorem pending_le_one : st.pending bit ≤ 1 := by
  unfold pending
  split <;> decide

theorem pending_of_flag (h : st.flag bit = false) : st.pending bit = 0 := if_neg fun hp => by simp [h] at hp

theorem pending_of_failed (h : st.recoveryFailed) : st.pending bit = 0 := if_neg fun hp => by simp [h] at hp

theorem visit_sameFile : st.SameFile (st.visit bit).2 := by
  rcases visit_state bit st with h | h | h <;> rw [h]
  · exact ⟨rfl, rfl⟩
  · exact ⟨putFlag_id, putFlag_flctx⟩
  · exact ⟨putFlag_id, putFlag_flctx⟩

theorem weight_visit_le : ((st.visit ops.stateFlagBit).2).weight ops ≤ st.weight ops := by
  unfold weight failuresLeft
  rw [retries_of_sameFile visit_sameFile]
  rcases visit_state ops.stateFlagBit st with h | h | h <;> rw [h]
  · rw [pending_of_flag putFlag_flag, putFlag_attempts]
    exact Nat.add_le_add_right (Nat.zero_le _) _
  · rw [pending_of_failed (rfl : (st.putFlag false ops.stateFlagBit).nfs4StateMarkRecoveryFailed.recoveryFailed)]
    refine Nat.add_le_add (Nat.zero_le _) (le_of_eq ?_)
    exact congrArg (fun n => (st.retries ops ∩ Set.Ici n).ncard) putFlag_attempts

theorem weight_restarted_lt {found x : ReclaimState} {loop loop' : U32} (hfin : (found.retries ops).Finite)
    (hvisit : found.visit ops.stateFlagBit = (.recover, st))
    (hattempt : Attempted ops.stateFlagBit st ((ops.recover st.id st.attempts).outcome st.flctx) st')
    (hrst : Restarted ops.stateFlagBit ((ops.recover st.id st.attempts).outcome st.flctx) loop st' x loop') :
    found.SameFile x ∧ x.weight ops < found.weight ops := by
  obtain ⟨hflag, hfailed, rfl⟩ := visit_recover hvisit
  obtain ⟨hsame, hatts, -, hrecovered⟩ := hattempt
  have hpending : found.pending ops.stateFlagBit = 1 := if_pos ⟨hflag, hfailed⟩
  simp only [putFlag_id, putFlag_attempts, putFlag_flctx] at hatts hrst hrecovered
  have hsame : found.SameFile st' := ⟨hsame.1.trans putFlag_id, hsame.2.trans putFlag_flctx⟩
  -- the new state has the file of the old one and one attempt more; either it is not pending, or the failure is used up
  suffices h : found.SameFile x ∧ x.attempts = found.attempts + 1 ∧
      (x.pending ops.stateFlagBit = 0 ∨ found.attempts ∈ found.retries ops) by
    obtain ⟨hx, hxattempts, hzero | hretry⟩ := h
    · have hle := failuresLeft_le hfin hx (by omega)
      exact ⟨hx, by unfold weight; omega⟩
    · have hlt := failuresLeft_lt hfin hx hxattempts hretry
      have hone : x.pending ops.stateFlagBit ≤ 1 := pending_le_one
      exact ⟨hx, by unfold weight; omega⟩
  cases hrst with
  | recovered hpos => exact ⟨hsame, hatts, .inl (pending_of_flag (hrecovered hpos putFlag_flag))⟩
  | failed => exact ⟨hsame, hatts, .inl (pending_of_failed rfl)⟩
  | tryAgain hretry =>
    exact ⟨⟨putFlag_id.trans hsame.1, putFlag_flctx.trans hsame.2⟩, putFlag_attempts.trans hatts, .inr hretry⟩
  | nograce hretry =>
    exact ⟨⟨markNograce_id.trans hsame.1, markNograce_flctx.trans hsame.2⟩, markNograce_attempts.trans hatts, .inr hretry⟩

end ReclaimState

namespace Reclaim
variable {s s' : Reclaim} {ops : RecoveryOps}

/-- Each state fails only finitely often with an error after which it may be tried again. -/
def FailsFinitely (ops : RecoveryOps) (s : Reclaim) : Prop := ∀ st ∈ s.soStates, (st.retries ops).Finite

theorem scanOnce_weight_lt (hfin : s.FailsFinitely ops) (h : s.scanOnce ops = .again s') :
    s'.FailsFinitely ops ∧ (s'.soStates.map (·.weight ops)).sum < (s.soStates.map (·.weight ops)).sum := by
  obtain ⟨pre, st, post, ssc, x, st', hscan, hstates, hattempt, hrst⟩ := scanOnce_again h
  obtain ⟨found, hmem, hvisit, hsum⟩ := reclaimScan_sum (·.weight ops) (fun _ => ReclaimState.weight_visit_le) hscan
  obtain ⟨hx, hlt⟩ := ReclaimState.weight_restarted_lt (hfin found hmem) hvisit hattempt hrst
  constructor
  · obtain ⟨passed, found', hsplit, rfl, -⟩ := reclaimScan_atState hscan
    intro y hy
    rw [hstates, mem_append, mem_cons, mem_map] at hy
    rcases hy with ⟨y, hy, rfl⟩ | rfl | hy
    · rw [ReclaimState.retries_of_sameFile ReclaimState.visit_sameFile]
      exact hfin y (by rw [hsplit]; exact mem_append_left _ hy)
    · rw [ReclaimState.retries_of_sameFile hx]
      exact hfin found hmem
    · exact hfin y (by rw [hsplit]; exact mem_append_right _ (mem_cons_of_mem _ hy))
  · have hsum := hsum x
    rw [hstates]
    omega

end Reclaim

/-- The reclaim of an owner's open states returns after finitely many scans, with both tables of operations. -/
theorem nfs4ReclaimOpenState_returns (ops : RecoveryOps) (s : Reclaim) (hfin : s.FailsFinitely ops) :
    ∃ fuel r, nfs4ReclaimOpenState fuel ops s = some r := by
  have hstep : ∀ s : Reclaim, s.FailsFinitely ops → (∃ r, s.scanOnce ops = .done r ∧ True) ∨
      ∃ s', s.scanOnce ops = .again s' ∧ s'.FailsFinitely ops ∧
        (s'.soStates.map (·.weight ops)).sum < (s.soStates.map (·.weight ops)).sum := by
    intro s hs
    cases h : s.scanOnce ops with
    | done r => exact .inl ⟨r, rfl, trivial⟩
    | again s' => exact .inr ⟨s', rfl, Reclaim.scanOnce_weight_lt hs h⟩
  obtain ⟨r, hrun, -⟩ := run_of_measure hstep (s := { s with loop := 0, foundSscCopyState := false }) hfin (Nat.lt_succ_self _)
  exact ⟨_, r, hrun⟩

/-- Two states, of which the first is marked again by three failures. -/
theorem nfs4ReclaimOpenState_returns_two : ∃ fuel r, nfs4ReclaimOpenState fuel
      ⟨.nograce, fun id n => if id = 0 ∧ n < 3 then { status := negErr Nfs4err.badStateid } else { status := 0 }⟩
      { soStates := [{ id := 0, reclaimNograce := true }, { id := 1, reclaimNograce := true }] } = some r := by
  refine nfs4ReclaimOpenState_returns _ _ fun st hst => (Set.finite_lt_nat 3).subset fun n hn => ?_
  have hflctx : st.flctx = none := by
    simp only [mem_cons, not_mem_nil, or_false] at hst
    rcases hst with rfl | rfl <;> rfl
  by_contra hge
  have hlast : ¬ (st.id = 0 ∧ n < 3) := fun h => hge h.2
  simp only [ReclaimState.retries, Set.mem_ofPred_eq, if_neg hlast, hflctx] at hn
  rcases hn with hn | hn <;> exact absurd hn (by decide)

namespace Reclaim
variable {s s' : Reclaim} {ops : RecoveryOps}

def rebootMarks (s : Reclaim) : Nat := (s.soStates.map fun st => (st.flag .reboot).toNat).sum

theorem scanOnce_rebootMarks (hbit : ops.stateFlagBit = .reboot) (h : s.scanOnce ops = .again s') :
    s'.rebootMarks < s.rebootMarks ∨ s'.rebootMarks ≤ s.rebootMarks ∧ s.loop < 10 ∧ s'.loop = s.loop + 1 := by
  obtain ⟨pre, st, post, ssc, x, st', hscan, hstates, hattempt, hrst⟩ := scanOnce_again h
  rw [hbit] at hscan hattempt hrst
  have hvisit : ∀ st : ReclaimState, ((st.visit .reboot).2.flag .reboot).toNat ≤ (st.flag .reboot).toNat := by
    intro st
    rcases visit_state .reboot st with h | h | h <;> rw [h]
    · exact Nat.zero_le _
    · exact Nat.zero_le _
  obtain ⟨found, -, hfound, hsum⟩ := reclaimScan_sum (fun st => (st.flag .reboot).toNat) hvisit hscan
  obtain ⟨hflag, -, rfl⟩ := visit_recover hfound
  have hsum := hsum x
  have hst' : st'.flag .reboot = false := hattempt.reboot ReclaimState.putFlag_flag
  -- unless the state is tried again, it has lost its mark
  have hlost : x.flag .reboot = false → s'.rebootMarks < s.rebootMarks := by
    intro hx
    rw [hx, hflag] at hsum
    unfold rebootMarks
    rw [hstates]
    exact hsum
  generalize hnext : s'.loop = loop' at hrst
  cases hrst with
  | recovered => exact .inl (hlost hst')
  | failed => exact .inl (hlost hst')
  | tryAgain _ hloop =>
    rw [ReclaimState.putFlag_flag, hflag] at hsum
    refine .inr ⟨?_, hloop, rfl⟩
    unfold rebootMarks
    rw [hstates]
    exact Nat.le_of_add_le_add_right hsum
  | nograce => exact .inl (hlost (ReclaimState.markNograce_reboot hst'))

end Reclaim

/-- After a reboot eleven scans for each marked state and eleven more are enough, whatever the server answers. -/
theorem nfs4ReclaimOpenState_reboot (ops : RecoveryOps) (hbit : ops.stateFlagBit = .reboot) (s : Reclaim) :
    ∃ r, nfs4ReclaimOpenState (11 * s.rebootMarks + 11) ops s = some r := by
  have hstep : ∀ s : Reclaim, True → (∃ r, s.scanOnce ops = .done r ∧ True) ∨
      ∃ s', s.scanOnce ops = .again s' ∧ True ∧
        11 * s'.rebootMarks + (10 - s'.loop.toNat) < 11 * s.rebootMarks + (10 - s.loop.toNat) := by
    intro s _
    cases h : s.scanOnce ops with
    | done r => exact .inl ⟨r, rfl, trivial⟩
    | again s' =>
      refine .inr ⟨s', rfl, trivial, ?_⟩
      rcases Reclaim.scanOnce_rebootMarks hbit h with hlt | ⟨hle, hloop, hnext⟩
      · omega
      · have hloop' : s'.loop.toNat = s.loop.toNat + 1 := by
          bv_omega
        have hten : s.loop.toNat < 10 := hloop
        omega
  obtain ⟨r, hrun, -⟩ := run_of_measure hstep (s := { s with loop := 0, foundSscCopyState := false }) trivial (Nat.lt_succ_self _)
  exact ⟨r, hrun⟩

theorem nfs4ReclaimOpenState_reboot_eagain :
    ∃ r, nfs4ReclaimOpenState 22 ⟨.reboot, fun _ _ => { status := negErrno .eagain }⟩
      { soStates := [{ id := 0, reclaimReboot := true }] } = some r :=
  nfs4ReclaimOpenState_reboot ⟨.reboot, fun _ _ => { status := negErrno .eagain }⟩ rfl
    { soStates := [{ id := 0, reclaimReboot := true }] }

/-- A server that never accepts the stateid keeps the loop going, so that the failures have to be finite in number. -/
theorem nfs4ReclaimOpenState_nograce_none (fuel : Nat) :
    nfs4ReclaimOpenState fuel ⟨.nograce, fun _ _ => { status := negErr Nfs4err.badStateid }⟩
      { soStates := [{ id := 0, reclaimNograce := true }] } = none := by
  refine run_none (I := fun s => ∃ n, s.soStates = [{ id := 0, reclaimNograce := true, attempts := n }]) ?_ ⟨0, rfl⟩
  rintro ⟨states, owner, clnt, lost, loop, found⟩ ⟨n, rfl⟩
  exact ⟨_, rfl, n + 1, rfl⟩

end Mynfs
