import Mynfs.Delegation.System

/-! What operations on the table and the threads that return delegations leave alone. -/

namespace Mynfs

open List Option Function

/-- A flag says that the delegation is to be returned, or that this is not possible any more. -/
def DelegFlags.held (f : DelegFlags) : Bool :=
  f.ret || f.returning || f.returnDelayed || f.revoked || f.inodeFreeing

namespace Delegations
variable {s t u : Delegations} {L : Nat → Prop} {d i : Nat}

/-- The delegation is detached, revoked or on a freeing inode, or marked as to be returned or being returned. -/
def Remembered (s : Delegations) (d : Nat) : Prop := s.inode d = none ∨ (s.flags d).held

/-- Delegations are only detached, stateids change only with a revocation, and those outside of `L` stay remembered. -/
structure Moves (L : Nat → Prop) (s t : Delegations) : Prop where
  delegation : ∀ i d, t.delegation i = some d → s.delegation i = some d
  revoked : ∀ d, (s.flags d).revoked → (t.flags d).revoked
  stateid : ∀ d, t.stateid d = s.stateid d ∨ (t.flags d).revoked
  remembered : ∀ d, ¬L d → s.Remembered d → t.Remembered d

namespace Moves

theorem of_frame (L : Nat → Prop) (hdeleg : t.delegation = s.delegation) (hinode : t.inode = s.inode)
    (hflags : t.flags = s.flags) (hsid : t.stateid = s.stateid) : Moves L s t where
  delegation _ _ h := hdeleg ▸ h
  revoked _ h := hflags ▸ h
  stateid d := .inl (congrFun hsid d)
  remembered d _ h := by rwa [Remembered, hinode, hflags]

theorem refl (L : Nat → Prop) (s : Delegations) : Moves L s s := of_frame L rfl rfl rfl rfl

theorem trans (h : Moves L s t) (h' : Moves L t u) : Moves L s u where
  delegation i d hd := h.delegation i d (h'.delegation i d hd)
  revoked d hd := h'.revoked d (h.revoked d hd)
  stateid d := (h'.stateid d).elim (fun heq => (h.stateid d).imp heq.trans (h'.revoked d)) .inr
  remembered d hd hs := h'.remembered d hd (h.remembered d hd hs)

theorem weaken {L' : Nat → Prop} (h : Moves L s t) (hL : ∀ d, L d → L' d) : Moves L' s t :=
  { h with remembered := fun d hd => h.remembered d fun hl => hd (hL d hl) }

theorem of_remembered (h : Moves (· = d) s t) (hd : s.Remembered d → t.Remembered d) (L : Nat → Prop) : Moves L s t :=
  { h with
    remembered := fun d' _ hs => by
      by_cases heq : d' = d
      · exact heq ▸ hd (heq ▸ hs)
      · exact h.remembered d' heq hs }

variable {f : DelegFlags → DelegFlags}

variable (s d)

theorem setFlags_except (hrevoked : (s.flags d).revoked → (f (s.flags d)).revoked) :
    Moves (· = d) s (s.setFlags d f) where
  delegation _ _ h := h
  revoked d' h := by
    by_cases heq : d' = d
    · rw [heq, flags_setFlags_self]
      exact hrevoked (heq ▸ h)
    · rwa [flags_setFlags_of_ne s heq]
  stateid _ := .inl rfl
  remembered d' hd' h := h.imp id fun h => by rwa [flags_setFlags_of_ne s hd']

theorem setFlags (L : Nat → Prop) (hrevoked : (s.flags d).revoked → (f (s.flags d)).revoked)
    (hheld : (s.flags d).held → (f (s.flags d)).held) : Moves L s (s.setFlags d f) := by
  refine (setFlags_except s d hrevoked).of_remembered (fun h => h.imp id fun h => ?_) L
  rw [flags_setFlags_self]
  exact hheld h

end Moves

variable (s d)

theorem moves_markReturnDelegation (L : Nat → Prop) : Moves L s (s.nfsMarkReturnDelegation d) :=
  (Moves.of_frame (s := s) (t := { s with servDelegreturn := true, clntDelegreturn := true }) L rfl rfl rfl rfl).trans
    (.setFlags _ d (f := ({ · with ret := true })) L id fun _ => rfl)

theorem revoked_markDelegationRevoked : ((s.nfsMarkDelegationRevoked d).flags d).revoked := by
  unfold nfsMarkDelegationRevoked
  split
  next h => exact h
  · rw [flags_setStateid, flags_setFlags_self]

theorem moves_revoked_setStateid (stateid : Stateid) (L : Nat → Prop) :
    Moves L s ((s.setStateid d stateid).nfsMarkDelegationRevoked d) := by
  have hrevoked := revoked_markDelegationRevoked (s.setStateid d stateid) d
  unfold nfsMarkDelegationRevoked at hrevoked ⊢
  split
  next h =>
    refine { Moves.refl L s with stateid := fun d' => ?_ }
    by_cases heq : d' = d
    · exact .inr (heq ▸ h)
    · exact .inl (update_of_ne heq ..)
  next h =>
    rw [if_neg h] at hrevoked
    have hflags : Moves L s (s.setFlags d ({ · with revoked := true })) :=
      .setFlags s d L (fun _ => rfl) fun _ => by simp [DelegFlags.held]
    refine { hflags with stateid := fun d' => ?_ }
    by_cases heq : d' = d
    · exact .inr (heq ▸ hrevoked)
    · exact .inl ((update_of_ne heq ..).trans (update_of_ne heq ..))

/-- Revoking a delegation forgets none. -/
theorem moves_markDelegationRevoked (L : Nat → Prop) : Moves L s (s.nfsMarkDelegationRevoked d) := by
  have h := moves_revoked_setStateid s d (s.stateid d) L
  rwa [setStateid, update_eq_self] at h

theorem moves_delegationGrabInode (L : Nat → Prop) : Moves L s (s.nfsDelegationGrabInode d).2 := by
  have h : Moves L s (s.setFlags d ({ · with inodeFreeing := true })) :=
    .setFlags s d L id fun _ => by simp [DelegFlags.held]
  unfold nfsDelegationGrabInode
  split
  · split
    · exact h
    · exact .refl L s
  · exact h

theorem delegation_grab : (s.nfsDelegationGrabInode d).2.delegation = s.delegation := by
  unfold nfsDelegationGrabInode
  split
  · split <;> rfl
  · rfl

variable {s d}

theorem remembered_of_grab_none (h : (s.nfsDelegationGrabInode d).1 = none) :
    (s.nfsDelegationGrabInode d).2.Remembered d := by
  have hheld : (s.setFlags d ({ · with inodeFreeing := true })).Remembered d := .inr (by simp [DelegFlags.held])
  unfold nfsDelegationGrabInode at h ⊢
  split at h
  · split at h
    next hfree =>
      rw [if_pos hfree]
      exact hheld
    · cases h
  · exact hheld

theorem inode_of_grab_some (h : (s.nfsDelegationGrabInode d).1 = some i) : s.inode d = some i := by
  unfold nfsDelegationGrabInode at h
  split at h
  next j hj =>
    split at h
    · cases h
    · rw [hj, some.inj h]
  · cases h

theorem moves_need_except (s : Delegations) (d : Nat) : Moves (· = d) s (s.nfsDelegationNeedReturn d).2 :=
  Moves.setFlags_except s d (f := ({ · with ret := false })) id

theorem remembered_of_need_false (h : (s.nfsDelegationNeedReturn d).1 = false) (hd : s.Remembered d) :
    (s.nfsDelegationNeedReturn d).2.Remembered d := by
  refine hd.imp id fun hheld => ?_
  unfold nfsDelegationNeedReturn at h ⊢
  rw [flags_setFlags_self]
  revert h hheld
  generalize s.flags d = f
  obtain ⟨ret, _, returning, revoked, freeing, delayed⟩ := f
  cases ret
  · simp [DelegFlags.held]
  · cases returning <;> cases delayed <;> cases revoked <;> simp [DelegFlags.held]

theorem moves_startDelegationReturnLocked (s : Delegations) (i : Nat) (L : Nat → Prop) :
    Moves L s (s.nfsStartDelegationReturnLocked i).2 := by
  unfold nfsStartDelegationReturnLocked
  split
  · exact .refl L s
  split
  · dsimp only
    exact .setFlags s _ L id fun _ => by simp [DelegFlags.held]
  · exact .refl L s

theorem remembered_of_start (h : s.delegation i = some d) : (s.nfsStartDelegationReturnLocked i).2.Remembered d := by
  unfold nfsStartDelegationReturnLocked
  rw [h]
  dsimp only
  split
  · exact .inr (by simp [DelegFlags.held])
  next hnot =>
    rcases not_and_or.mp hnot with hnone | hret
    · exact .inl (by simpa using hnone)
    · exact .inr (by simp [DelegFlags.held, Bool.eq_true_of_not_eq_false hret])

theorem delegation_of_start (h : (s.nfsStartDelegationReturnLocked i).1 = some d) : s.delegation i = some d := by
  unfold nfsStartDelegationReturnLocked at h
  split at h
  · cases h
  next d' hd' =>
    split at h
    · rw [hd', some.inj h]
    · cases h

variable (s)

theorem moves_detachDelegation (i d : Nat) (L : Nat → Prop) : Moves L s (s.nfsDetachDelegation i d) := by
  unfold nfsDetachDelegation
  split
  · refine ⟨fun i' d' h => ?_, fun _ => id, fun _ => .inl rfl, fun d' _ h => h.imp (fun h => ?_) id⟩
    · by_cases heq : i' = i
      · subst heq
        cases (update_self i' none s.delegation).symm.trans h
      · exact (update_of_ne heq none s.delegation).symm.trans h
    · by_cases heq : d' = d
      · subst heq
        exact update_self d' none s.inode
      · exact (update_of_ne heq none s.inode).trans h
  · exact .refl L s

theorem moves_revokeDelegation (i : Nat) (stateid : Option Stateid) (L : Nat → Prop) :
    Moves L s (s.nfsRevokeDelegation i stateid) := by
  unfold nfsRevokeDelegation
  split
  · exact .refl L s
  · exact moves_markDelegationRevoked s _ L
  split
  · exact .refl L s
  split
  · exact moves_markDelegationRevoked s _ L
  split
  · exact .refl L s
  · exact moves_revoked_setStateid s _ _ L

theorem moves_inodeEvictDelegation (i : Nat) (L : Nat → Prop) : Moves L s (s.nfsInodeEvictDelegation i) := by
  unfold nfsInodeEvictDelegation
  split
  · exact .refl L s
  split
  · exact .refl L s
  · exact (moves_detachDelegation s i _ L).trans (.setFlags _ _ L id fun _ => by simp [DelegFlags.held])

theorem moves_clearDelayed (d : Nat) (L : Nat → Prop) : Moves L s (s.clearDelayed d) := by
  unfold clearDelayed
  split
  · -- the mark that was just set is left
    have hret : ((s.nfsMarkReturnDelegation d).flags d).ret :=
      congrArg DelegFlags.ret (flags_setFlags_self s d ({ · with ret := true }))
    exact (moves_markReturnDelegation s d L).trans (.setFlags _ d L id fun _ => by simp [DelegFlags.held, hret])
  · exact .refl L s

variable {s}

theorem delegation_of_getValid (h : s.nfs4GetValidDelegation i = some d) : s.delegation i = some d := by
  unfold nfs4GetValidDelegation at h
  split at h
  · cases h
  next d' hd' =>
    obtain ⟨-, h⟩ := Machine.of_guard h
    rw [hd', h]

variable (s)

theorem moves_inodeSetReturnDelegationOnClose (i : Nat) : (∀ L, Moves L s (s.nfs4InodeSetReturnDelegationOnClose i).2) ∧
      ∀ d, (s.nfs4InodeSetReturnDelegationOnClose i).1 = some d → s.delegation i = some d := by
  unfold nfs4InodeSetReturnDelegationOnClose
  split
  · exact ⟨fun L => .refl L s, nofun⟩
  next d hd =>
    split
    · exact ⟨fun L => .refl L s, nofun⟩
    split
    · dsimp only
      refine ⟨fun L => .setFlags s d L id fun _ => by simp [DelegFlags.held], ?_⟩
      rintro _ ⟨⟩
      exact delegation_of_getValid hd
    · dsimp only
      exact ⟨fun L => .setFlags s d L id id, nofun⟩

theorem moves_inodeReturnDelegationOnClose (i : Nat) (watermark : Bool) :
    (∀ L, Moves L s (s.nfs4InodeReturnDelegationOnClose i watermark).2) ∧
      ∀ d, (s.nfs4InodeReturnDelegationOnClose i watermark).1 = some d → s.delegation i = some d := by
  unfold nfs4InodeReturnDelegationOnClose
  split
  · exact ⟨fun L => .refl L s, nofun⟩
  next d hd =>
    split
    · dsimp only
      refine ⟨fun L => .setFlags s d L id fun _ => by simp [DelegFlags.held], ?_⟩
      rintro _ ⟨⟩
      exact delegation_of_getValid hd
    · exact ⟨fun L => .refl L s, nofun⟩

theorem moves_asyncInodeReturnDelegation (matchStateid : Stateid → Stateid → Bool) (i : Nat)
    (stateid : Option Stateid) (L : Nat → Prop) : Moves L s (s.nfsAsyncInodeReturnDelegation matchStateid i stateid).2 := by
  unfold nfsAsyncInodeReturnDelegation
  split
  · exact .refl L s
  split
  · split
    · exact moves_markReturnDelegation s _ L
    · exact .refl L s
  · exact moves_markReturnDelegation s _ L

theorem moves_delegationMarkReturned (i : Nat) (stateid : Stateid)
    (h : ∀ d, s.delegation i = some d → stateid = s.stateid d ∨ (s.flags d).revoked) (L : Nat → Prop) :
    Moves L s (s.nfsDelegationMarkReturned i stateid) := by
  unfold nfsDelegationMarkReturned
  split
  · exact .refl L s
  next d hd =>
    split
    · exact .refl L s
    split
    next hnewer =>
      -- the stateid of the delegation has changed, so it was revoked
      have hrev : (s.flags d).revoked := by
        refine (h d hd).resolve_left fun heq => ?_
        rw [heq] at hnewer
        simpa [Stateid.nfs4StateidIsNewer] using hnewer.2
      exact .setFlags s d L id fun _ => by simp [DelegFlags.held, hrev]
    · generalize hs' : (if stateid.seqid ≠ 0 then s.setStateid d { s.stateid d with seqid := stateid.seqid } else s) = s'
      have hmoves : Moves L s (s'.nfsMarkDelegationRevoked d) := by
        rw [← hs']
        split
        · exact moves_revoked_setStateid s d _ L
        · exact moves_markDelegationRevoked s d L
      have hrev := revoked_markDelegationRevoked s' d
      exact (hmoves.trans (.setFlags _ d L id fun _ => by simp [DelegFlags.held, hrev])).trans (moves_detachDelegation _ i d L)

theorem moves_abort (d : Nat) (err : Int) : Moves (· = d) s (s.nfsAbortDelegationReturn d err) := by
  unfold nfsAbortDelegationReturn
  split
  · exact (Moves.setFlags_except s d (f := ({ · with returning := false, returnDelayed := true }))
      id).trans (.of_frame _ rfl rfl rfl rfl)
  · exact .setFlags_except s d id

end Delegations

namespace DelegSystem
open Delegations
variable {s t : DelegSystem} {dels dels' : Delegations} {r : Return} {L : Nat → Prop} {e : DelegEvent}
  {matchStateid : Stateid → Stateid → Bool} {err sendErr : Int} {o : Return ⊕ Int}

/-! ### The returns and calls that are under way -/

def FitsReturn (dels : Delegations) (r : Return) : Prop := ∀ d, dels.delegation r.inode = some d → d = r.deleg

def FitsSent (dels : Delegations) (p : Nat × Stateid) : Prop :=
  ∀ d, dels.delegation p.1 = some d → p.2 = dels.stateid d ∨ (dels.flags d).revoked

/-- What threads hold is in the table. -/
structure Fits (s : DelegSystem) : Prop where
  pass : ∀ r holder, s.pass = .returning r holder → FitsReturn s.dels r
  returns : ∀ r ∈ s.returns, FitsReturn s.dels r
  sent : ∀ p ∈ s.sent, FitsSent s.dels p

theorem FitsReturn.moves (h : FitsReturn dels r)
    (hm : Moves L dels dels') : FitsReturn dels' r := fun d hd => h d (hm.delegation r.inode d hd)

theorem FitsSent.moves {p : Nat × Stateid} (h : FitsSent dels p) (hm : Moves L dels dels') : FitsSent dels' p := by
  intro d hd
  rcases hm.stateid d with heq | hrev
  · rw [heq]
    exact (h d (hm.delegation p.1 d hd)).imp id (hm.revoked d)
  · exact .inr hrev

/-! ### Visiting a delegation -/

theorem nextHolder_view (dels : Delegations) (prev : Option Nat) (holder : Option (Nat × Nat)) :
    (∀ L, Moves L dels (nextHolder dels prev holder).2) ∧ (nextHolder dels prev holder).2.delegation = dels.delegation := by
  unfold nextHolder
  split
  · exact ⟨fun L => .refl L dels, rfl⟩
  next p =>
    have hm := moves_delegationGrabInode dels p
    have hd := delegation_grab dels p
    split
    next heq =>
      rw [heq] at hm hd
      exact ⟨hm, hd⟩
    next heq =>
      rw [heq] at hm hd
      exact ⟨hm, hd⟩

/-- What the visit of a delegation comes to: the walk goes on, or a return is begun for it. -/
structure Visit (s t : DelegSystem) : Prop where
  frame : t.returns = s.returns ∧ t.sent = s.sent
  moves : ∀ L, Moves L s.dels t.dels
  pass : ∀ r holder, t.pass = .returning r holder → FitsReturn s.dels r

theorem passVisit_view (s : DelegSystem) (d : Nat) (todo : List Nat) (prev : Option Nat) (holder : Option (Nat × Nat)) :
    Visit s (s.passVisit d todo prev holder) := by
  have hneed := moves_need_except s.dels d
  unfold passVisit
  split
  · exact ⟨⟨rfl, rfl⟩, fun L => .refl L s.dels, nofun⟩
  split
  next dels heq =>
    have hkeep := remembered_of_need_false (congrArg Prod.fst heq)
    rw [heq] at hneed hkeep
    exact ⟨⟨rfl, rfl⟩, hneed.of_remembered hkeep, nofun⟩
  next dels heq =>
    rw [heq] at hneed
    have hgrab := moves_delegationGrabInode dels d (· = d)
    have hlinks := delegation_grab dels d
    split
    next dels' heq' =>
      have hmark := remembered_of_grab_none (congrArg Prod.fst heq')
      rw [heq'] at hgrab hmark
      exact ⟨⟨rfl, rfl⟩, (hneed.trans hgrab).of_remembered fun _ => hmark, nofun⟩
    next inode dels' heq' =>
      have hlink := dels.linked d inode (inode_of_grab_some (congrArg Prod.fst heq'))
      rw [heq'] at hgrab hlinks
      obtain ⟨hholder, hsame⟩ := nextHolder_view dels' prev holder
      generalize nextHolder dels' prev holder = next at hholder hsame ⊢
      have hstill : next.2.delegation inode = some d := by rw [hsame, hlinks, hlink]
      have hfound := (hneed.trans hgrab).trans (hholder _)
      have hstart := hfound.trans (moves_startDelegationReturnLocked next.2 inode (· = d))
      have hmark := remembered_of_start hstill
      dsimp only
      split
      next d' dels'' heq'' =>
        have hd' := hfound.delegation inode d' (delegation_of_start (congrArg Prod.fst heq''))
        rw [heq''] at hstart hmark
        refine ⟨⟨rfl, rfl⟩, hstart.of_remembered fun _ => hmark, ?_⟩
        rintro r holder' ⟨⟩ d'' hd''
        exact some.inj (hd''.symm.trans hd')
      next heq'' =>
        rw [heq''] at hstart hmark
        exact ⟨⟨rfl, rfl⟩, hstart.of_remembered fun _ => hmark, nofun⟩

/-! ### Steps -/

def abortOf (s : DelegSystem) (r : Return) (err : Int) : Option (Nat × Int) :=
  match s.outcome r err with
  | .abort err => some (r.deleg, err)
  | _ => none

def aborts (s : DelegSystem) : DelegEvent → Option (Nat × Int)
  | .passResult err _ =>
    match s.pass with
    | .returning r _ => s.abortOf r err
    | _ => none
  | .result k err _ =>
    match s.returns[k]? with
    | some r => s.abortOf r err
    | none => none
  | _ => none

/-- What a step does to the table and to the threads. -/
structure StepView (e : DelegEvent) (s t : DelegSystem) : Prop where
  moves : Moves (fun d => ∃ err, s.aborts e = some (d, err)) s.dels t.dels
  pass : ∀ r holder, t.pass = .returning r holder → s.pass = .returning r holder ∨ FitsReturn s.dels r
  returns : ∀ r ∈ t.returns, r ∈ s.returns ∨ FitsReturn s.dels r
  sent : ∀ p ∈ t.sent, p ∈ s.sent ∨ FitsSent s.dels p
  abort : ∀ d err, s.aborts e = some (d, err) →
    (t.dels.Remembered d ↔ (s.dels.nfsAbortDelegationReturn d err).Remembered d)

theorem StepView.fits (hv : StepView e s t) (h : s.Fits) : t.Fits where
  pass r holder hr := ((hv.pass r holder hr).elim (h.pass r holder) id).moves hv.moves
  returns r hr := ((hv.returns r hr).elim (h.returns r) id).moves hv.moves
  sent p hp := ((hv.sent p hp).elim (h.sent p) id).moves hv.moves

/-- A step that aborts no return. -/
theorem StepView.plain (he : s.aborts e = none) (hm : ∀ L, Moves L s.dels t.dels)
    (hpass : ∀ r holder, t.pass = .returning r holder → s.pass = .returning r holder ∨ FitsReturn s.dels r)
    (hrets : ∀ r ∈ t.returns, r ∈ s.returns ∨ FitsReturn s.dels r) (hsent : ∀ p ∈ t.sent, p ∈ s.sent) : StepView e s t :=
  ⟨hm _, hpass, hrets, fun p hp => .inl (hsent p hp), fun _ _ h => absurd (he.symm.trans h) nofun⟩

theorem StepView.table (he : s.aborts e = none) (hm : ∀ L, Moves L s.dels dels) : StepView e s { s with dels } :=
  .plain he hm (fun _ _ => .inl) (fun _ hr => .inl hr) fun _ hp => hp

/-- The state manager goes on, but does not return a delegation. -/
theorem StepView.walk {pass : Pass} (he : s.aborts e = none) (hm : ∀ L, Moves L s.dels dels)
    (hpass : ∀ r holder, pass ≠ .returning r holder) : StepView e s { s with dels, pass } :=
  .plain he hm (fun r holder h => absurd h (hpass r holder)) (fun _ hr => .inl hr) fun _ hp => hp

/-- A return stays with the delegation it was started for. -/
theorem advance_view (hr : FitsReturn s.dels r) (ht : s.advance r err sendErr = (o, t)) :
    t.pass = s.pass ∧ t.returns = s.returns ∧ (∀ r', o = .inl r' → FitsReturn s.dels r') ∧
      (∀ p ∈ t.sent, p ∈ s.sent ∨ FitsSent s.dels p) ∧
      Moves (fun d => ∃ err', s.abortOf r err = some (d, err')) s.dels t.dels ∧
      ∀ d err', s.abortOf r err = some (d, err') → t.dels = s.dels.nfsAbortDelegationReturn d err' := by
  unfold advance at ht
  unfold abortOf
  split at ht
  next phase heq =>
    cases ht
    rw [heq]
    refine ⟨rfl, rfl, fun r' hr' => ?_, fun _ hp => .inl hp, .refl _ _, nofun⟩
    cases hr'
    exact hr
  next err' heq =>
    cases ht
    rw [heq]
    refine ⟨rfl, rfl, nofun, fun _ hp => .inl hp, (moves_abort s.dels r.deleg err').weaken fun d hd => ?_, ?_⟩
    · exact ⟨err', by rw [hd]⟩
    · rintro d err'' ⟨⟩
      rfl
  next heq =>
    rw [heq]
    unfold doReturn at ht
    split at ht
    · cases ht
      exact ⟨rfl, rfl, nofun, fun _ hp => .inl hp, .refl _ _, nofun⟩
    split at ht
    · cases ht
      refine ⟨rfl, rfl, nofun, fun p hp => (mem_append.mp hp).imp id fun hnew => ?_, .refl _ _, nofun⟩
      -- the call has the stateid of the delegation
      obtain rfl := mem_singleton.mp hnew
      intro d hd
      rw [hr d hd]
      exact .inl rfl
    · cases ht
      exact ⟨rfl, rfl, nofun, fun _ hp => .inl hp, .refl _ _, nofun⟩

theorem StepView.of_advance {u : DelegSystem} (hr : FitsReturn s.dels r)
    (he : s.aborts e = s.abortOf r err) (hadv : s.advance r err sendErr = (o, u))
    (hm : ∀ L, Moves L u.dels t.dels) (hsame : ∀ d, t.dels.Remembered d ↔ u.dels.Remembered d) (hsent : t.sent = u.sent)
    (hpass : ∀ r holder, t.pass = .returning r holder → s.pass = .returning r holder ∨ FitsReturn s.dels r)
    (hrets : ∀ r' ∈ t.returns, r' ∈ s.returns ∨ o = .inl r') : StepView e s t := by
  obtain ⟨-, -, hfits, hsent', hmoves, habort⟩ := advance_view hr hadv
  refine ⟨?_, hpass, fun r' hr' => (hrets r' hr').imp id (hfits r'), hsent ▸ hsent', fun d err' hab => ?_⟩
  · rw [he]
    exact hmoves.trans (hm _)
  · rw [hsame, habort d err' (he.symm.trans hab)]

theorem passResult_view (h : s.Fits) (ht : s.passResult err sendErr = some t) : StepView (.passResult err sendErr) s t := by
  unfold passResult at ht
  split at ht
  next r holder hpass =>
    have hr := h.pass r holder hpass
    have he : s.aborts (.passResult err sendErr) = s.abortOf r err := by simp only [aborts, hpass]
    split at ht
    next r' u hadv =>
      cases ht
      obtain ⟨-, hrets, hfits, -⟩ := advance_view hr hadv
      refine .of_advance hr he hadv (fun L => .refl L _) (fun _ => .rfl) rfl ?_ fun _ h => .inl (hrets ▸ h)
      rintro _ _ ⟨⟩
      exact .inr (hfits r' rfl)
    next u hadv =>
      cases ht
      obtain ⟨-, hrets, -⟩ := advance_view hr hadv
      exact .of_advance hr he hadv (fun L => .refl L _) (fun _ => .rfl) rfl nofun fun _ h => .inl (hrets ▸ h)
    next u _ hadv =>
      cases ht
      obtain ⟨-, hrets, -⟩ := advance_view hr hadv
      exact .of_advance hr he hadv (fun L => .of_frame L rfl rfl rfl rfl) (fun _ => .rfl) rfl nofun fun _ h => .inl (hrets ▸ h)
  · cases ht

theorem result_view {k : Nat} (h : s.Fits) (ht : s.result k err sendErr = some t) : StepView (.result k err sendErr) s t := by
  unfold result at ht
  split at ht
  · cases ht
  next r hr =>
    have hfits := h.returns r (mem_of_getElem? hr)
    have he : s.aborts (.result k err sendErr) = s.abortOf r err := by simp only [aborts, hr]
    split at ht
    next r' u hadv =>
      cases ht
      obtain ⟨hpass, hrets, -⟩ := advance_view hfits hadv
      refine .of_advance hfits he hadv (fun L => .refl L _) (fun _ => .rfl) rfl (fun _ _ h => .inl (hpass ▸ h)) fun r'' hr'' => ?_
      exact (mem_or_eq_of_mem_set hr'').imp (hrets ▸ ·) fun heq => congrArg Sum.inl heq.symm
    next _ u hadv =>
      cases ht
      obtain ⟨hpass, hrets, -⟩ := advance_view hfits hadv
      exact .of_advance hfits he hadv (fun L => .refl L _) (fun _ => .rfl) rfl (fun _ _ h => .inl (hpass ▸ h))
        fun _ h => .inl (hrets ▸ mem_of_mem_eraseIdx h)

theorem start_view {inode : Nat} {issync : Bool} {started : Option Nat × Delegations} (he : s.aborts e = none)
    (hm : ∀ L, Moves L s.dels started.2)
    (hd : ∀ d, started.1 = some d → s.dels.delegation inode = some d) : StepView e s (s.start inode issync started) := by
  unfold start
  split
  next d dels =>
    refine .plain he hm (fun _ _ => .inl) (fun r hr => (mem_append.mp hr).imp id fun hnew d' hd' => ?_) fun _ hp => hp
    obtain rfl := mem_singleton.mp hnew
    exact some.inj (hd'.symm.trans (hd d rfl))
  next dels => exact .table he hm

theorem passNext_view (ht : s.passNext = some t) : StepView .passNext s t := by
  unfold passNext at ht
  split at ht
  · cases ht
  next hpass =>
    cases ht
    exact .walk rfl (fun L => .refl L s.dels) nofun
  next hpass =>
    cases ht
    exact .walk rfl (fun L => .refl L s.dels) nofun
  next d todo prev holder hpass =>
    cases ht
    have hv := passVisit_view s d todo prev holder
    exact .plain rfl hv.moves (fun r holder h => .inr (hv.pass r holder h)) (fun _ hr => .inl (hv.frame.1 ▸ hr)) fun _ hp =>
      hv.frame.2 ▸ hp
  · cases ht
  next hpass =>
    split at ht
    · split at ht
      · cases ht
        exact .walk rfl (fun L => .of_frame L rfl rfl rfl rfl) nofun
      · cases ht
        exact .walk rfl (fun L => .of_frame L rfl rfl rfl rfl) nofun
    · cases ht
      exact .walk rfl (fun L => .refl L s.dels) nofun
  next hpass =>
    cases ht
    exact .walk rfl (fun L => .refl L s.dels) nofun
  next d todo hpass =>
    cases ht
    exact .walk rfl (moves_clearDelayed s.dels d) nofun

/-- What any step does to the delegations and the returns. -/
theorem step_view (h : s.Fits) (ht : step matchStateid s e = some t) : StepView e s t := by
  cases e with
  | recallDelegation inode stateid =>
    cases ht
    exact .table rfl fun L => moves_asyncInodeReturnDelegation s.dels matchStateid inode stateid L
  | passBegin =>
    simp only [step, passBegin] at ht
    split at ht
    · split at ht
      · cases ht
        exact .walk rfl (fun L => .of_frame L rfl rfl rfl rfl) nofun
      · cases ht
        exact .walk rfl (fun L => .refl L s.dels) nofun
    · cases ht
  | passNext => exact passNext_view ht
  | passResult err sendErr => exact passResult_view h ht
  | returnDelegation inode =>
    cases ht
    exact start_view rfl (fun L => moves_startDelegationReturnLocked s.dels inode L) fun d => delegation_of_start
  | setReturnOnClose inode =>
    cases ht
    obtain ⟨hm, hd⟩ := moves_inodeSetReturnDelegationOnClose s.dels inode
    exact start_view rfl hm hd
  | returnOnClose inode watermark =>
    cases ht
    obtain ⟨hm, hd⟩ := moves_inodeReturnDelegationOnClose s.dels inode watermark
    exact start_view rfl hm hd
  | result k err sendErr => exact result_view h ht
  | done k =>
    simp only [step] at ht
    split at ht
    next inode stateid hk =>
      cases ht
      have hsent := h.sent _ (mem_of_getElem? hk)
      exact .plain rfl (fun L => moves_delegationMarkReturned s.dels inode stateid hsent L) (fun _ _ => .inl) (fun _ hr => .inl hr) fun _ hp => mem_of_mem_eraseIdx hp
    · cases ht
  | markReturn d =>
    obtain ⟨-, rfl⟩ := Machine.of_guard_some ht
    exact .table rfl fun L => moves_markReturnDelegation s.dels d L
  | revoke inode stateid =>
    cases ht
    exact .table rfl fun L => moves_revokeDelegation s.dels inode stateid L
  | evict inode =>
    cases ht
    exact .table rfl fun L => moves_inodeEvictDelegation s.dels inode L
  | freeing inode =>
    cases ht
    exact .table rfl fun L => .of_frame L rfl rfl rfl rfl
  | setOpened inode opened =>
    cases ht
    exact .table rfl fun L => .of_frame L rfl rfl rfl rfl

end DelegSystem
end Mynfs
