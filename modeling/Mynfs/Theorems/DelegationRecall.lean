import Mynfs.Theorems.DelegationMoves

/-! An accepted recall of a delegation is remembered. -/

namespace Mynfs
namespace DelegSystem
open Delegations
variable {s t : DelegSystem} {dels : Delegations} {matchStateid : Stateid → Stateid → Bool} {e : DelegEvent}

/-- If the step aborts the return, then with EAGAIN, or another flag is set, or the delegation is detached. -/
def Rearms (d : Nat) (s : DelegSystem) (e : DelegEvent) : Prop :=
  ∀ p ∈ s.aborts e, p.1 = d → p.2 = negErrno .eagain ∨ s.dels.inode d = none ∨
    ({ s.dels.flags d with returning := false }).held

instance (d : Nat) (s : DelegSystem) (e : DelegEvent) : Decidable (Rearms d s e) :=
  inferInstanceAs (Decidable (∀ p ∈ s.aborts e, _))

theorem remembered_abort_iff (dels : Delegations) (d : Nat) (err : Int) :
    (dels.nfsAbortDelegationReturn d err).Remembered d ↔ err = negErrno .eagain ∨ dels.inode d = none ∨
      ({ dels.flags d with returning := false }).held := by
  unfold nfsAbortDelegationReturn
  split
  next h =>
    have hflags := flags_setFlags_self dels d ({ · with returning := false, returnDelayed := true })
    refine ⟨fun _ => .inl h, fun _ => .inr ((congrArg DelegFlags.held hflags).trans ?_)⟩
    simp [DelegFlags.held]
  next h =>
    have hflags := flags_setFlags_self dels d ({ · with returning := false })
    rw [or_iff_right h, Remembered, hflags]
    rfl

theorem step_remembered_iff {d : Nat} (h : s.Fits) (hd : s.dels.Remembered d) (ht : step matchStateid s e = some t) :
    t.dels.Remembered d ↔ Rearms d s e := by
  have hview := step_view h ht
  by_cases hab : ∃ err, s.aborts e = some (d, err)
  · obtain ⟨err, herr⟩ := hab
    rw [hview.abort d err herr, remembered_abort_iff]
    constructor
    · rintro hcond p hp -
      cases herr.symm.trans hp
      exact hcond
    · intro hcond
      exact hcond (d, err) herr rfl
  · refine iff_of_true (hview.moves.remembered d hab hd) ?_
    rintro ⟨d', err⟩ hp rfl
    exact absurd ⟨err, hp⟩ hab

/-- Nothing is under way. -/
structure Quiet (s : DelegSystem) : Prop where
  pass : s.pass = .idle
  returns : s.returns = []
  sent : s.sent = []

theorem Quiet.fits (h : s.Quiet) : s.Fits where
  pass r holder hr := by
    rw [h.pass] at hr
    cases hr
  returns r hr := by
    rw [h.returns] at hr
    cases hr
  sent p hp := by
    rw [h.sent] at hp
    cases hp

theorem remembered_of_accepted {inode d : Nat} {stateid : Option Stateid} (hd : dels.delegation inode = some d)
    (h : (dels.nfsAsyncInodeReturnDelegation matchStateid inode stateid).1 = 0) :
    (dels.nfsAsyncInodeReturnDelegation matchStateid inode stateid).2.Remembered d := by
  have hmark : (dels.nfsMarkReturnDelegation d).Remembered d :=
    .inr (congrArg DelegFlags.held (flags_setFlags_self dels d ({ · with ret := true })))
  unfold nfsAsyncInodeReturnDelegation at h ⊢
  split at h
  · cases h
  next d' hd' =>
    cases hd.symm.trans (delegation_of_getValid hd')
    cases stateid with
    | none => exact hmark
    | some stateid =>
      dsimp only at h ⊢
      split at h
      next hmatch =>
        rw [if_pos hmatch]
        exact hmark
      · cases h

/-- A recalled delegation stays remembered exactly if every aborted return of it ended with EAGAIN or leaves a mark. -/
theorem recall_remembered_iff {s₀ u : DelegSystem} {before as : List DelegEvent} {inode d : Nat} {stateid : Option Stateid}
    (hquiet : s₀.Quiet) (hbefore : Machine.exec (step matchStateid) s₀ before = some s)
    (hd : s.dels.delegation inode = some d)
    (haccept : (s.dels.nfsAsyncInodeReturnDelegation matchStateid inode stateid).1 = 0)
    (ht : step matchStateid s (.recallDelegation inode stateid) = some t)
    (hrun : Machine.exec (step matchStateid) t as = some u) :
    Machine.Always (step matchStateid) (fun v => v.dels.Remembered d) t as ↔ Machine.Along (step matchStateid) (Rearms d) t as := by
  have hfits := Machine.exec_invariant (fun s a t h hs => (step_view h hs).fits h) hquiet.fits hbefore
  have hfits' := (step_view hfits ht).fits hfits
  cases ht
  exact Machine.always_iff_along (fun s a t h hp hs => ⟨(step_view h hs).fits h, step_remembered_iff h hp hs⟩) hfits'
    (remembered_of_accepted hd haccept) hrun

def single : DelegSystem where
  dels :=
    { inode := fun d => if d = 0 then some 0 else none
      stateid := fun _ => ⟨.delegation, 1, 7⟩
      flags := fun _ => {}
      delegation := fun i => if i = 0 then some 0 else none
      freeing := fun _ => false
      opened := fun _ => false
      superList := [0]
      linked := fun d i h => by
        split at h
        next hd =>
          cases h
          rw [if_pos rfl, hd]
        · cases h }

def delayedRun : List DelegEvent :=
  [.passBegin, .passNext, .passNext, .passResult (negErrno .eagain) 0,
   .passBegin, .passNext, .passNext, .passNext, .passNext, .passNext, .passNext,
   .passBegin, .passNext, .passNext, .passResult 0 0, .passResult 0 0, .done 0]

theorem recall_remembered_delayed : ∃ t u,
    Machine.exec (step Stateid.nfs4StateidMatch) single [.recallDelegation 0 none] = some t ∧
    Machine.exec (step Stateid.nfs4StateidMatch) t delayedRun = some u ∧ u.dels.delegation 0 = none ∧
    Machine.Always (step Stateid.nfs4StateidMatch) (fun v => v.dels.Remembered 0) t delayedRun := by
  have hrun : (Machine.exec (step Stateid.nfs4StateidMatch)
      { single with dels := (single.dels.nfsAsyncInodeReturnDelegation Stateid.nfs4StateidMatch 0 none).2 }
      delayedRun).map (fun u => u.dels.delegation 0) = some none := by decide
  obtain ⟨u, hu, hgone⟩ := Option.map_eq_some_iff.mp hrun
  refine ⟨_, u, rfl, hu, hgone, (recall_remembered_iff ⟨rfl, rfl, rfl⟩ (Machine.exec_nil (s := single)) rfl (by decide) rfl hu).mpr ?_⟩
  decide

/-- Breaking the leases fails for want of memory, and no flag is left. -/
theorem recall_forgotten : (single.dels.nfsAsyncInodeReturnDelegation Stateid.nfs4StateidMatch 0 none).1 = 0 ∧
    (Machine.exec (step Stateid.nfs4StateidMatch) single
      [.recallDelegation 0 none, .passBegin, .passNext, .passNext, .passResult (negErrno .enomem) 0]).map
        (fun t => (t.dels.delegation 0, t.dels.inode 0, t.dels.flags 0)) = some (some 0, some 0, {}) := by
  decide

end DelegSystem

end Mynfs
