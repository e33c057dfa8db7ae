import Mynfs.Open.Replies

/-! The open stateid of one open state. `Assigned` lists what a step can do to it. -/

namespace Mynfs

open List Option
open Nfs4State
open Serial (diff newer rank)
open Machine (exec)

namespace Stateid

variable {s₁ s₂ : Stateid}

theorem newer_of_isNext (h : s₁.nfs4StateidIsNext s₂) : s₂.nfs4StateidIsNewer s₁ := by
  rcases of_decide_eq_true h with h | ⟨h₂, h₁⟩
  · simp [nfs4StateidIsNewer, newer, diff, h]
  · simp [nfs4StateidIsNewer, newer, diff, h₁, h₂]

theorem matchOther_iff : s₁.nfs4StateidMatchOther s₂ = true ↔ s₁.other = s₂.other := by
  simp [nfs4StateidMatchOther]

end Stateid

/-- One `other`, and sequence ids in one window. Failed calls carry none, and CLOSE replies are not looked at. -/
def Carried (other : BitVec 96) (base : U32) (stateid : Stateid) : Prop :=
  stateid.other = other ∧ Serial.InWindow base stateid.seqid

def OpenEvent.Carries (other : BitVec 96) (base : U32) : OpenEvent → Prop
  | .openReply stateid _ => Carried other base stateid
  | .closeReply _ fmode (some reply) => fmode = ⟨false, false⟩ ∨ Carried other base reply
  | _ => True

def OpenEvent.gaveUp : OpenEvent → Bool
  | .wake _ status => decide (status ≠ .ok)
  | _ => false

def OpenEvent.isOpen : OpenEvent → Bool
  | .openReply .. | .wake .. => true
  | _ => false

/-- What a step does to the open stateid. -/
inductive Assigned (other : BitVec 96) (s : Nfs4State) (e : OpenEvent) (t : Nfs4State) : Prop
  | kept (h : t.openStateid = s.openStateid)
  | closed (arg reply : Stateid) (he : e = .closeReply arg ⟨false, false⟩ (some reply))
      (h : t.openStateid = invalidStateid) (hopen : t.openState = false)
  /-- By a newer one of the same lineage, for an OPEN that did not give up waiting by the direct successor. -/
  | advanced (hopen : s.openState) (hfrom : s.openStateid.other = other) (hto : t.openStateid.other = other)
      (h : t.openStateid.nfs4StateidIsNewer s.openStateid)
      (hnext : e.isOpen → e.gaveUp = false → s.openStateid.nfs4StateidIsNext t.openStateid)
  | first (he : e.isOpen) (hclosed : s.openState = false) (hto : t.openStateid.other = other)
      (h : t.openStateid.seqid = 1 ∨ e.gaveUp)

/-- All stateids are of one open. -/
structure OpenSys.Genuine (other : BitVec 96) (base : U32) (s : OpenSys) : Prop where
  current : s.st.openState → s.st.openStateid.other = other
  window : s.st.openStateid.other = other → Serial.InWindow base s.st.openStateid.seqid
  waiting : ∀ w ∈ s.waiting, Carried other base w.1

namespace Nfs4State
variable (st : Nfs4State)

@[simp] theorem openStateid_setOpenMode (fmode : Fmode) : (st.setOpenMode fmode).openStateid = st.openStateid := by
  unfold setOpenMode
  split <;> rfl

@[simp] theorem openState_setOpenMode (fmode : Fmode) : (st.setOpenMode fmode).openState := rfl

@[simp] theorem openStateid_setOpenStateidLocked (stateid : Stateid) :
    (st.nfsSetOpenStateidLocked stateid).openStateid = stateid := rfl

theorem openStateid_updateOpenStateflags (fmode : Fmode) :
    (st.updateOpenStateflags fmode).openStateid = st.openStateid ∧ (st.updateOpenStateflags fmode).openState = st.openState := by
  unfold updateOpenStateflags
  split <;> exact ⟨rfl, rfl⟩

theorem openStateid_updateOpenStateidFinish (deleg : Option OpenDelegation) (hasOpen : Bool)
    (delegation : Option Stateid) (fmode : Fmode) :
    (st.updateOpenStateidFinish deleg hasOpen delegation fmode).2.openStateid = st.openStateid ∧
    (st.updateOpenStateidFinish deleg hasOpen delegation fmode).2.openState = st.openState := by
  have hcount : ∀ st' : Nfs4State, st'.openStateid = st.openStateid → st'.openState = st.openState →
      (st'.updateOpenStateflags fmode).openStateid = st.openStateid ∧
      (st'.updateOpenStateflags fmode).openState = st.openState := fun st' h₁ h₂ => by
    obtain ⟨h₃, h₄⟩ := openStateid_updateOpenStateflags st' fmode
    exact ⟨h₃.trans h₁, h₄.trans h₂⟩
  unfold updateOpenStateidFinish
  repeat' split
  all_goals first
    | exact ⟨rfl, rfl⟩
    | exact hcount _ rfl rfl

theorem openStateid_nfs4Close (fmode : Fmode) : (st.nfs4Close fmode).2.openStateid = st.openStateid ∧
    (st.nfs4Close fmode).2.openState = st.openState := by
  unfold nfs4Close closeCount
  dsimp only
  repeat' split
  all_goals exact ⟨rfl, rfl⟩

theorem openStateid_clearOpenMode (fmode : Fmode) : (st.clearOpenMode fmode).openStateid = st.openStateid := by
  unfold clearOpenMode
  split <;> rfl

theorem openState_clearOpenMode_none : (st.clearOpenMode ⟨false, false⟩).openState = false := rfl

theorem openStateid_resync : st.nfsResyncOpenStateidLocked.openStateid = st.openStateid := by
  unfold nfsResyncOpenStateidLocked
  split <;> rfl

theorem clearOpenStateidLocked_cases (stateid : Stateid) (fmode : Fmode) :
    (st.nfsClearOpenStateidLocked (some stateid) fmode).openStateid = st.openStateid ∧
      stateid.other = st.openStateid.other ∨ (st.nfsClearOpenStateidLocked (some stateid) fmode).openStateid = stateid ∧
      (st.nfsClearOpenStateidLocked (some stateid) fmode).openState = (st.clearOpenMode fmode).openState ∧
      (stateid.other = st.openStateid.other → stateid.nfs4StateidIsNewer st.openStateid) := by
  unfold nfsClearOpenStateidLocked
  dsimp only
  rw [openStateid_clearOpenMode]
  split
  next h =>
    left
    simp only [Bool.and_eq_true, Stateid.matchOther_iff] at h
    exact ⟨(openStateid_resync _).trans (openStateid_clearOpenMode _ _), h.1⟩
  next h =>
    right
    refine ⟨rfl, ?_, fun hother => ?_⟩
    · split <;> rfl
    · simp only [Bool.and_eq_true, Stateid.matchOther_iff, hother, true_and, Bool.not_eq_true', Bool.not_eq_false] at h
      exact h

end Nfs4State

section
variable {other : BitVec 96} {base : U32} {s t : OpenSys} {stateid : Stateid} {fmode : Fmode} {status : WaitStatus}
  {e : OpenEvent}

theorem assigned_setRound (hcur : s.st.openState → s.st.openStateid.other = other) (hother : stateid.other = other)
    (hopen : e.isOpen) (hstat : e.gaveUp = decide (status ≠ .ok)) :
    Assigned other s.st e (s.setRound stateid fmode status).st := by
  have hupdate : ∀ st : Nfs4State, (st.nfsStateSetOpenStateid .update stateid fmode).openStateid = stateid :=
    fun st => by simp [nfsStateSetOpenStateid]
  have hmatch : s.st.openState → stateid.nfs4StateidMatchOther s.st.openStateid := fun ho =>
    Stateid.matchOther_iff.mpr (hother.trans (hcur ho).symm)
  unfold OpenSys.setRound setOpenStateidTest
  by_cases hseq : s.st.nfsStateidIsSequential stateid
  · rw [if_pos hseq]
    unfold nfsStateidIsSequential at hseq
    cases ho : s.st.openState with
    | true =>
      rw [ho, hmatch ho, Bool.and_self, if_pos rfl] at hseq
      refine .advanced ho (hcur ho) ?_ ?_ fun _ _ => ?_
      · rw [hupdate, hother]
      · rw [hupdate]
        exact Stateid.newer_of_isNext hseq
      · rw [hupdate]
        exact hseq
    | false =>
      rw [ho, Bool.false_and, if_neg Bool.false_ne_true] at hseq
      refine .first hopen ho ?_ (.inl ?_)
      · rw [hupdate, hother]
      · rw [hupdate]
        exact of_decide_eq_true hseq
  · rw [if_neg hseq]
    by_cases hst : status = .ok
    · rw [if_neg (not_not.mpr hst)]
      exact .kept rfl
    · rw [if_pos hst]
      have hgave : e.gaveUp := by rw [hstat, decide_eq_true hst]
      by_cases hold : (stateid.nfs4StateidMatchOther s.st.openStateid && !stateid.nfs4StateidIsNewer s.st.openStateid)
      · rw [if_pos hold]
        exact .kept (by simp [nfsStateSetOpenStateid])
      · rw [if_neg hold]
        cases ho : s.st.openState with
        | true =>
          rw [hmatch ho, Bool.true_and, Bool.not_eq_true', Bool.not_eq_false] at hold
          refine .advanced ho (hcur ho) ?_ ?_ fun _ h => ?_
          · rw [hupdate, hother]
          · rw [hupdate]
            exact hold
          · rw [hgave] at h
            cases h
        | false =>
          refine .first hopen ho ?_ (.inr hgave)
          rw [hupdate, hother]

theorem assigned_step (hs : s.Genuine other base)
    (he : e.Carries other base) (h : s.step e = some t) : Assigned other s.st e t.st := by
  have hcur := hs.current
  cases e with
  | openReply stateid fmode =>
    cases h
    exact assigned_setRound hcur he.1 rfl rfl
  | wake i status =>
    obtain ⟨⟨stateid, fmode⟩, hi, rfl⟩ := map_eq_some_iff.mp h
    exact assigned_setRound (s := { s with waiting := s.waiting.eraseIdx i }) hcur (hs.waiting _ (mem_of_getElem? hi)).1 rfl rfl
  | finishOpen deleg hasOpen delegation fmode =>
    cases h
    exact .kept (openStateid_updateOpenStateidFinish ..).1
  | close fmode =>
    cases h
    exact .kept (openStateid_nfs4Close ..).1
  | closeReply arg fmode reply =>
    cases h
    dsimp only [nfsClearOpenStateid]
    split
    next hmatch =>
      have ho : s.st.openState := (Bool.and_eq_true_iff.mp hmatch).1
      cases reply with
      | none => exact .kept (openStateid_clearOpenMode ..)
      | some reply =>
        rcases clearOpenStateidLocked_cases s.st (closeResStateid fmode reply) fmode with ⟨hkept, -⟩ | ⟨hset, hopen, hnewer⟩
        · exact .kept hkept
        · by_cases hclose : fmode = ⟨false, false⟩
          · subst hclose
            exact .closed arg reply rfl hset (hopen.trans (openState_clearOpenMode_none _))
          · -- an OPEN_DOWNGRADE
            have hres : closeResStateid fmode reply = reply := if_neg hclose
            have hreply : reply.other = other := (he.resolve_left hclose).1
            rw [hres] at hset hnewer
            refine .advanced ho (hcur ho) ?_ ?_ fun h => by cases h
            · simpa only [map_some, hres, hset] using hreply
            · simpa only [map_some, hres, hset] using hnewer (hreply.trans (hcur ho).symm)
    · exact .kept rfl

theorem genuine_fresh (hne : other ≠ 0) : OpenSys.Genuine other base {} := by
  refine ⟨fun h => ?_, fun h => absurd h.symm hne, fun w hw => ?_⟩
  · cases h
  · cases hw

theorem OpenSys.Genuine.setRound (hs : s.Genuine other base) (hc : Carried other base stateid) :
    (s.setRound stateid fmode status).Genuine other base := by
  unfold OpenSys.setRound
  cases htest : s.st.setOpenStateidTest true stateid status with
  | wait =>
    refine ⟨hs.current, hs.window, fun w hw => ?_⟩
    rcases mem_append.mp hw with hw | hw
    · exact hs.waiting w hw
    · rw [mem_singleton.mp hw]
      exact hc
  | update => exact ⟨fun _ => by simpa [nfsStateSetOpenStateid] using hc.1,
      fun _ => by simpa [nfsStateSetOpenStateid] using hc.2, hs.waiting⟩
  | skip =>
    -- a reply is skipped only for a stateid of the same lineage
    have hmatch : s.st.openStateid.other = other := by
      unfold setOpenStateidTest at htest
      split at htest
      · cases htest
      · split at htest
        · split at htest
          next hold => exact (Stateid.matchOther_iff.mp (Bool.and_eq_true_iff.mp hold).1).symm.trans hc.1
          · cases htest
        · split at htest <;> cases htest
    exact ⟨fun _ => by simpa [nfsStateSetOpenStateid] using hmatch,
      fun _ => by simpa [nfsStateSetOpenStateid] using hs.window hmatch, hs.waiting⟩

theorem OpenSys.Genuine.step (hne : other ≠ 0) (hs : s.Genuine other base)
    (he : e.Carries other base) (h : s.step e = some t) : t.Genuine other base := by
  have hsame : ∀ st : Nfs4State, st.openStateid = s.st.openStateid → (st.openState → s.st.openState) →
      OpenSys.Genuine other base { s with st := st } := fun st h₁ h₂ =>
    ⟨fun ho => h₁ ▸ hs.current (h₂ ho), fun ho => h₁ ▸ hs.window (h₁ ▸ ho), hs.waiting⟩
  cases e with
  | openReply stateid fmode =>
    cases h
    exact hs.setRound he
  | wake i status =>
    obtain ⟨⟨stateid, fmode⟩, hi, rfl⟩ := map_eq_some_iff.mp h
    have hs' : OpenSys.Genuine other base { s with waiting := s.waiting.eraseIdx i } :=
      ⟨hs.current, hs.window, fun w hw => hs.waiting w (mem_of_mem_eraseIdx hw)⟩
    exact hs'.setRound (hs.waiting _ (mem_of_getElem? hi))
  | finishOpen deleg hasOpen delegation fmode =>
    cases h
    obtain ⟨h₁, h₂⟩ := openStateid_updateOpenStateidFinish s.st deleg hasOpen delegation fmode
    exact hsame _ h₁ fun ho => h₂ ▸ ho
  | close fmode =>
    cases h
    obtain ⟨h₁, h₂⟩ := openStateid_nfs4Close s.st fmode
    exact hsame _ h₁ fun ho => h₂ ▸ ho
  | closeReply arg fmode reply =>
    cases h
    dsimp only [nfsClearOpenStateid]
    split
    next hmatch =>
      have ho : s.st.openState := (Bool.and_eq_true_iff.mp hmatch).1
      cases reply with
      | none => exact hsame _ (openStateid_clearOpenMode ..) fun _ => ho
      | some reply =>
        rcases clearOpenStateidLocked_cases s.st (closeResStateid fmode reply) fmode with ⟨hkept, -⟩ | ⟨hset, hopen, -⟩
        · exact hsame _ hkept fun _ => ho
        · by_cases hclose : fmode = ⟨false, false⟩
          · subst hclose
            have hinv : (s.st.nfsClearOpenStateidLocked (some invalidStateid) ⟨false, false⟩).openStateid =
              invalidStateid := hset
            refine ⟨fun hopen' => ?_, fun hother => ?_, hs.waiting⟩
            · have hfalse := hopen.trans (openState_clearOpenMode_none _)
              exact absurd (hopen'.symm.trans hfalse) (by decide)
            · exact absurd (hother.symm.trans (congrArg Stateid.other hinv)) hne
          · have hcarried := he.resolve_left hclose
            have hres : closeResStateid fmode reply = reply := if_neg hclose
            rw [hres] at hset
            refine ⟨fun _ => ?_, fun _ => ?_, hs.waiting⟩
            · simpa only [map_some, hres, hset] using hcarried.1
            · simpa only [map_some, hres, hset] using hcarried.2
    · exact hs

theorem genuine_exec (hne : other ≠ 0) {evs : List OpenEvent} (hs : s.Genuine other base)
    (hevs : ∀ e ∈ evs, e.Carries other base) (h : exec OpenSys.step s evs = some t) : t.Genuine other base :=
  Machine.exec_invariant_labels (fun _ _ _ he hs h => hs.step hne he h) hevs hs h

theorem rank_le_of_open (hne : other ≠ 0) : ∀ {evs : List OpenEvent} {s t : OpenSys}, s.Genuine other base →
    (∀ e ∈ evs, e.Carries other base) → exec OpenSys.step s evs = some t →
    Machine.Always OpenSys.step (fun u => u.st.openState) s evs →
    s.st.openStateid = t.st.openStateid ∨ rank base s.st.openStateid.seqid < rank base t.st.openStateid.seqid
  | [], s, t, _, _, h, _ => by
    cases h
    exact .inl rfl
  | e :: evs, s, t, hs, hevs, h, hopen => by
    obtain ⟨u, hu, hrest⟩ := Machine.exec_cons_iff.mp h
    have hcarries := hevs e mem_cons_self
    have hgu := hs.step hne hcarries hu
    have ih := rank_le_of_open hne hgu (fun e he => hevs e (mem_cons_of_mem _ he)) hrest (hopen.tail hu)
    have hstep : s.st.openStateid = u.st.openStateid ∨
        rank base s.st.openStateid.seqid < rank base u.st.openStateid.seqid := by
      cases assigned_step hs hcarries hu with
      | kept h => exact .inl h.symm
      | closed _ _ _ _ hclosed => exact absurd ((hopen.tail hu).head.symm.trans hclosed) (by decide)
      | advanced _ hfrom hto hnewer _ =>
        exact .inr ((Serial.newer_iff_rank (by decide) (hgu.window hto) (hs.window hfrom)).mp hnewer)
      | first _ hclosed _ _ => exact absurd (hopen.head.symm.trans hclosed) (by decide)
    rcases hstep with hstep | hstep <;> rcases ih with ih | ih
    · exact .inl (hstep.trans ih)
    · exact .inr (hstep ▸ ih)
    · exact .inr (ih ▸ hstep)
    · exact .inr (hstep.trans ih)

end

/-- If OPEN and OPEN_DOWNGRADE replies carry one `other` and sequence ids of one window, a step keeps the open stateid,
    advances it while the state is open (an OPEN that did not give up waiting by one), sets it with the first OPEN after
    the state was closed, or is a CLOSE that invalidates it. While the state stays open it does not get older. -/
theorem openStateid_forward (other : BitVec 96) (base : U32) (hne : other ≠ 0) (evs : List OpenEvent) (s : OpenSys)
    (hevs : ∀ e ∈ evs, e.Carries other base) (hrun : Machine.exec OpenSys.step {} evs = some s) :
    (∀ e t, e.Carries other base → s.step e = some t → Assigned other s.st e t.st) ∧
    ∀ evs' t, (∀ e ∈ evs', e.Carries other base) → Machine.exec OpenSys.step s evs' = some t →
      Machine.Always OpenSys.step (fun u => u.st.openState) s evs' →
      t.st.openStateid = s.st.openStateid ∨ t.st.openStateid.nfs4StateidIsNewer s.st.openStateid := by
  have hs : s.Genuine other base := genuine_exec hne (genuine_fresh hne) hevs hrun
  refine ⟨fun e t he ht => assigned_step hs he ht, fun evs' t hevs' ht hopen => ?_⟩
  rcases rank_le_of_open hne hs hevs' ht hopen with h | h
  · exact .inl h.symm
  · have hgt := genuine_exec hne hs hevs' ht
    have hopen_t : t.st.openState := hopen evs' t (prefix_refl _) ht
    have hw := hgt.window (hgt.current hopen_t)
    exact .inr ((Serial.newer_iff_rank (by decide) hw (hs.window (hs.current hopen.head))).mpr h)

/-- The reply to a third OPEN overtakes that to the second and waits for it. -/
theorem openStateid_forward_overtaken :
    let sid := fun seqid : U32 => (⟨.open_, seqid, 7⟩ : Stateid)
    let s : OpenSys := { st := { openStateid := sid 1, stateid := sid 1, openState := true, rdonlyState := true } }
    let t : OpenSys := { st := { openStateid := sid 3, stateid := sid 3, openState := true, rdonlyState := true } }
    exec OpenSys.step s [.openReply (sid 3) ⟨true, false⟩, .openReply (sid 2) ⟨true, false⟩, .wake 0 .ok] =
      some t ∧ t.st.openStateid.nfs4StateidIsNewer s.st.openStateid := by
  intro sid s t
  have hrun : exec OpenSys.step s
      [.openReply (sid 3) ⟨true, false⟩, .openReply (sid 2) ⟨true, false⟩, .wake 0 .ok] = some t := by decide
  have h := (openStateid_forward 7 1 (by decide) [.openReply (sid 1) ⟨true, false⟩] s
    (by simp [OpenEvent.Carries, Carried, sid, Serial.InWindow, rank]) (by decide)).2 _ t
    (by simp [OpenEvent.Carries, Carried, sid, Serial.InWindow, rank]) hrun (by decide)
  exact ⟨hrun, h.resolve_left (by decide)⟩

/-- A CLOSE invalidates the open stateid, and after it a late OPEN reply installs an older one than before. -/
theorem openStateid_backward :
    let sid := fun seqid : U32 => (⟨.open_, seqid, 7⟩ : Stateid)
    let seqids := fun evs => (exec OpenSys.step {} evs).map fun s => s.st.openStateid.seqid
    let opened := [OpenEvent.openReply (sid 2) ⟨true, false⟩, .wake 0 .eagain]
    let closed := opened ++ [.closeReply (sid 2) ⟨false, false⟩ (some (sid 3))]
    let reopened := closed ++ [.openReply (sid 1) ⟨true, false⟩]
    seqids opened = some 2 ∧ seqids closed = some 0xffffffff ∧ seqids reopened = some 1 ∧
    newer (0xffffffff : U32) 2 = false ∧ newer (1 : U32) 2 = false := by
  decide

end Mynfs
