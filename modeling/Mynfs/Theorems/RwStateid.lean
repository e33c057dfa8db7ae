import Mynfs.Open.Select

/-! Which stateid goes with a READ or WRITE. A lock state is chosen before its flags matter. -/

namespace Mynfs

theorem findLockState_eq (flOwner flOwner2 : Nat) : ∀ (lockStates : List LockState) (ret : Option LockState),
    findLockState flOwner flOwner2 lockStates ret = ((lockStates.find? fun pos => pos.lsOwner = flOwner).or
      (lockStates.reverse.find? fun pos => pos.lsOwner = flOwner2)).or ret
  | [], ret => rfl
  | pos :: rest, ret => by
    unfold findLockState
    rw [findLockState_eq flOwner flOwner2 rest, List.reverse_cons, List.find?_append]
    by_cases howner : pos.lsOwner = flOwner
    · simp [howner]
    · by_cases howner2 : pos.lsOwner = flOwner2
      · subst howner2
        simp [howner]
      · simp [howner, howner2]

namespace RwState
variable (s : RwState) {fmode : Fmode} {lCtx : Option LockContext}

def callerLock (lCtx : Option LockContext) : Option LockState :=
  lCtx.bind fun lCtx => (s.lockStates.find? fun pos => pos.lsOwner = lCtx.lockowner).or
    (s.lockStates.reverse.find? fun pos => pos.lsOwner = lCtx.flockOwner)

def LockLost (lCtx : Option LockContext) : Prop := ∃ lsp, s.callerLock lCtx = some lsp ∧ lsp.lost

/-- The stateids in the order in which they are preferred: of the delegation, of the lock, and of the open. -/
def preferred (fmode : Fmode) (lCtx : Option LockContext) : Option Stateid :=
  ((s.delegation.filter fun d => d.isValid fmode).map (·.stateid)).or <|
    (((s.callerLock lCtx).filter (·.initialized)).map (·.lsStateid)).or <|
      if s.state.openState then some s.state.openStateid else none

theorem copyLockStateid_eq (dst : Stateid) (lCtx : Option LockContext) : s.nfs4CopyLockStateid dst lCtx =
      match s.callerLock lCtx with
      | none => (negErrno .enoent, dst)
      | some lsp =>
        if lsp.lost then (negErrno .eio, dst) else if lsp.initialized then (0, lsp.lsStateid) else (negErrno .enoent, dst) := by
  rcases lCtx with _ | lCtx
  · rfl
  dsimp only [nfs4CopyLockStateid, callerLock, Option.bind_some]
  cases huse : s.lkStateInUse with
  | false =>
    have hempty : s.lockStates = [] := by
      by_contra hne
      cases huse.symm.trans (s.in_use hne)
    simp [hempty]
  | true =>
    rw [nfs4FindLockState, findLockState_eq, Option.or_none]
    rfl

theorem copyDelegationStateid_eq (flags : Fmode) :
    s.nfs4CopyDelegationStateid flags = (s.delegation.filter fun d => d.isValid flags).map fun d => (d.stateid, d.cred) := by
  unfold nfs4CopyDelegationStateid
  rcases s.delegation with _ | d
  · rfl
  · cases hvalid : d.isValid flags <;> simp [Option.filter, hvalid]

variable {s} (dst : Stateid)

theorem selectStateid_of_lost (h : s.LockLost lCtx) : (s.selectStateid fmode lCtx dst).ret = negErrno .eio := by
  obtain ⟨lsp, hlock, hlost⟩ := h
  simp [selectStateid, copyLockStateid_eq, hlock, hlost]

theorem selectStateid_of_not_lost (h : ¬ s.LockLost lCtx) :
    match s.preferred fmode lCtx with
    | some stateid => (s.selectStateid fmode lCtx dst).ret = 0 ∧ (s.selectStateid fmode lCtx dst).dst = stateid
    | none => (s.selectStateid fmode lCtx dst).ret = negErrno .eagain := by
  have hlost : ∀ lsp, s.callerLock lCtx = some lsp → lsp.lost = false := fun lsp hlock =>
    Bool.eq_false_iff.mpr fun hlost => h ⟨lsp, hlock, hlost⟩
  unfold selectStateid preferred
  rw [copyLockStateid_eq, copyDelegationStateid_eq]
  have hnoent : negErrno .enoent ≠ negErrno .eio := by decide
  have hok : (0 : Int) ≠ negErrno .eio ∧ (0 : Int) ≠ negErrno .enoent := by decide
  generalize s.delegation.filter (fun d => d.isValid fmode) = deleg
  rcases deleg with _ | d
  · rcases hlock : s.callerLock lCtx with _ | lsp
    · cases hopen : s.state.openState <;> simp [nfs4CopyOpenStateid, hopen, hnoent]
    · cases hinit : lsp.initialized
      · cases hopen : s.state.openState <;> simp [hlost lsp hlock, hinit, Option.filter, nfs4CopyOpenStateid, hopen, hnoent]
      · simp [hlost lsp hlock, hinit, Option.filter, hok]
  · rcases hlock : s.callerLock lCtx with _ | lsp
    · simp [hnoent]
    · cases hinit : lsp.initialized <;> simp [hlost lsp hlock, hinit, hnoent, hok]

/-- An error if the state's recovery failed, the caller's lock was lost, or there is no stateid; else the stateid of a
    delegation that allows the access, of the caller's lock, or of the open, with sequence id 0 in NFSv4.1. -/
theorem nfs4SelectRwStateid_spec (s : RwState) (fmode : Fmode) (lCtx : Option LockContext) (dst : Stateid) (cred : Option Nat) :
    let r := s.nfs4SelectRwStateid fmode lCtx dst cred
    (s.state.recoveryFailed ∨ s.LockLost lCtx → r.ret = negErrno .eio) ∧
      (s.state.recoveryFailed = false → ¬ s.LockLost lCtx →
        match s.preferred fmode lCtx with
        | some stateid =>
          r.ret = 0 ∧ r.dst = { stateid with seqid := if s.capStateidNfsv41 then 0 else stateid.seqid }
        | none => r.ret = negErrno .eagain) ∧
      (s.state.recoveryFailed = false → s.capStateidNfsv41 → r.dst.seqid = 0) := by
  intro r
  have hr : s.state.recoveryFailed = false → r.ret = (s.selectStateid fmode lCtx dst).ret ∧
      r.dst = { (s.selectStateid fmode lCtx dst).dst with
                seqid := if s.capStateidNfsv41 then 0 else (s.selectStateid fmode lCtx dst).dst.seqid } := by
    intro hvalid
    simp only [r, nfs4SelectRwStateid, hvalid, Bool.false_eq_true, if_false]
    cases s.capStateidNfsv41 <;> exact ⟨rfl, rfl⟩
  refine ⟨?_, ?_, ?_⟩
  · rintro (hfailed | hlost)
    · simp [r, nfs4SelectRwStateid, hfailed]
    · cases hfailed : s.state.recoveryFailed with
      | true => simp [r, nfs4SelectRwStateid, hfailed]
      | false => rw [(hr hfailed).1, selectStateid_of_lost dst hlost]
  · intro hvalid hlost
    obtain ⟨hret, hdst⟩ := hr hvalid
    have hselect := @selectStateid_of_not_lost s fmode lCtx dst hlost
    rw [hret, hdst]
    split at hselect
    · rw [hselect.1, hselect.2]
      exact ⟨rfl, rfl⟩
    · exact hselect
  · intro hvalid hcap
    rw [(hr hvalid).2, hcap]
    rfl

end RwState

def twoOwners : Option LockContext := some ⟨1, 2⟩

def twoLocks (posix flock : LockState) : RwState where
  state := { openState := true, openStateid := ⟨.open_, 7, 1⟩ }
  lockStates := [posix, flock]
  lkStateInUse := true
  delegation := none
  capStateidNfsv41 := true
  in_use _ := rfl

theorem nfs4SelectRwStateid_spec_posix :
    let s := twoLocks ⟨1, ⟨.lock, 5, 2⟩, true, false⟩ ⟨2, ⟨.lock, 6, 3⟩, true, false⟩
    (s.nfs4SelectRwStateid ⟨true, false⟩ twoOwners {} none).ret = 0 ∧
      (s.nfs4SelectRwStateid ⟨true, false⟩ twoOwners {} none).dst = ⟨.lock, 0, 2⟩ := by
  intro s
  refine (RwState.nfs4SelectRwStateid_spec s ⟨true, false⟩ twoOwners {} none).2.1 rfl ?_
  rintro ⟨lsp, hlock, hlost⟩
  obtain rfl : ⟨1, ⟨.lock, 5, 2⟩, true, false⟩ = lsp := Option.some.inj hlock
  cases hlost

/-- A lost flock is not noticed, and an initialised one is not used. -/
theorem nfs4SelectRwStateid_hides_flock :
    let lostFlock := twoLocks ⟨1, ⟨.lock, 5, 2⟩, true, false⟩ ⟨2, ⟨.lock, 6, 3⟩, true, true⟩
    let newPosix := twoLocks ⟨1, {}, false, false⟩ ⟨2, ⟨.lock, 6, 3⟩, true, false⟩
    lostFlock.nfs4SelectRwStateid ⟨true, false⟩ twoOwners {} none = ⟨0, ⟨.lock, 0, 2⟩, none⟩ ∧
      newPosix.nfs4SelectRwStateid ⟨true, false⟩ twoOwners {} none = ⟨0, ⟨.open_, 0, 1⟩, none⟩ := by
  decide

end Mynfs
