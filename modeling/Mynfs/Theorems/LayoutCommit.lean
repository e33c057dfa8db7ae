import Mynfs.Layout.Commit
import Mynfs.Theorems.LayoutMarks

/-! A LAYOUTCOMMIT that is not sent: after an early exit all is as before, later only the flag of the inode is put back. -/

namespace Mynfs

namespace CommitInode
variable {st : CommitInode} {env : LayoutcommitEnv}

/-- The inode and the offset are as before, and so are the flags and the reference counts of the segments. -/
structure Unchanged (st st' : CommitInode) : Prop where
  inoLayoutcommit : st'.lo.inoLayoutcommit = st.lo.inoLayoutcommit
  lwb : st'.lwb = st.lwb
  segs : st'.lo.segs.map (fun l => (l.id, l.layoutcommit, l.refcount)) =
    st.lo.segs.map (fun l => (l.id, l.layoutcommit, l.refcount))

/-- The call gets as far as to take over the flagged segments. -/
def TakesOver (st : CommitInode) (env : LayoutcommitEnv) : Prop :=
  st.lo.inoLayoutcommit ∧ (st.committing → env.sync ∧ env.wait = 0) ∧ env.canAlloc

def PrepareFails (env : LayoutcommitEnv) : Prop := env.prepareLayoutcommit.getD 0 ≠ 0

def StartFails (env : LayoutcommitEnv) : Prop := env.sync = false ∧ env.igrab = false ∨ env.runTask ≠ 0

theorem layoutcommitInode_of_not_takesOver (h : ¬st.TakesOver env) : let r := st.mypnfsLayoutcommitInode env
    r.1.lo = st.lo ∧ r.1.lwb = st.lwb ∧ r.2.sent = none := by
  unfold mypnfsLayoutcommitInode
  split
  · exact ⟨rfl, rfl, rfl⟩
  split
  · exact ⟨rfl, rfl, rfl⟩
  split
  · exact ⟨rfl, rfl, rfl⟩
  next hbusy hwait =>
    unfold layoutcommitLocked
    split
    · exact ⟨rfl, rfl, rfl⟩
    next halloc =>
      split
      · exact ⟨rfl, rfl, rfl⟩
      next hino =>
        refine absurd ⟨by simpa using hino, fun hc => ?_, by simpa using halloc⟩ h
        exact ⟨by simpa [hc] using hbusy, by simpa [hc] using hwait⟩

theorem unchanged_of_not_takesOver (h : ¬st.TakesOver env) : Unchanged st (st.mypnfsLayoutcommitInode env).1 := by
  obtain ⟨hlo, hlwb, -⟩ := layoutcommitInode_of_not_takesOver h
  exact ⟨by rw [hlo], hlwb, by rw [hlo]⟩

def takenOver (st : CommitInode) : List Nat × LayoutHdr := { st.lo with inoLayoutcommit := false }.pnfsListWriteLseg

theorem layoutcommitInode_of_takesOver (h : st.TakesOver env) : st.mypnfsLayoutcommitInode env =
      { st with lo := st.takenOver.2, committing := true }.layoutcommitTaken env st.takenOver.1 := by
  obtain ⟨hino, hlock, halloc⟩ := h
  have hlocked : st.mypnfsLayoutcommitInode env = { st with committing := true }.layoutcommitLocked env := by
    unfold mypnfsLayoutcommitInode
    cases hc : st.committing with
    | false => simp [hino]
    | true => simp [hlock hc]
  rw [hlocked, layoutcommitLocked, if_neg (by simp [halloc]), if_neg (by simp [hino])]
  rfl

theorem mypnfsLayoutcommitInode_of_prepareFails (h : st.TakesOver env) (hfails : PrepareFails env) :
    let r := st.mypnfsLayoutcommitInode env
    r.2 = ⟨env.prepareLayoutcommit.getD 0, none⟩ ∧ r.1.lo = { st.takenOver.2 with inoLayoutcommit := true } ∧
    r.1.lwb = st.lwb := by
  have hfails' : env.prepareLayoutcommit.getD 0 ≠ 0 := hfails
  simp only [layoutcommitInode_of_takesOver h, layoutcommitTaken, if_pos hfails']
  exact ⟨trivial, rfl, by simp [pnfsClearLayoutcommitting]⟩

theorem inoLayoutcommit_putLseg (lo : LayoutHdr) (id : Nat) :
    (lo.mypnfsPutLseg id).inoLayoutcommit = lo.inoLayoutcommit := by
  have hput : ∀ before lseg after, (lo.putLseg before lseg after).inoLayoutcommit = lo.inoLayoutcommit := by
    intro before lseg after
    simp only [LayoutHdr.putLseg, LayoutHdr.pnfsLsegDecAndRemoveZero]
    by_cases hlast : lseg.refcount - 1 = 0
    · obtain ⟨_, _, -, heq⟩ := lo.layoutRemoveLseg_eq { lseg with refcount := lseg.refcount - 1 } (before ++ after)
      have hremove := congrArg LayoutHdr.inoLayoutcommit heq
      simp only [if_pos hlast]
      split
      · obtain ⟨_, _, _, _, hinfo⟩ := LayoutHdr.infoOnly_setPlhReturnInfo
          (lo.pnfsLayoutRemoveLseg { lseg with refcount := lseg.refcount - 1 } (before ++ after)) lseg.range.iomode 0
        simp only [hinfo]
        exact hremove
      · exact hremove
    · simp only [if_neg hlast]
  unfold LayoutHdr.mypnfsPutLseg
  split
  · split
    · exact hput ..
    · rfl
  · rfl

theorem inoLayoutcommit_layoutcommitRelease (st : CommitInode) (data : LayoutcommitData) :
    (st.nfs4LayoutcommitRelease data).lo.inoLayoutcommit = st.lo.inoLayoutcommit := by
  obtain ⟨lo, lwb, committing⟩ := st
  simp only [nfs4LayoutcommitRelease, pnfsClearLayoutcommitting]
  generalize data.lsegs = ids
  induction ids generalizing lo with
  | nil => rfl
  | cons id ids ih => exact (ih _).trans (inoLayoutcommit_putLseg lo id)

theorem mypnfsLayoutcommitInode_of_startFails (h : st.TakesOver env) (hprep : ¬PrepareFails env) (hfails : StartFails env) :
    let r := st.mypnfsLayoutcommitInode env
    r.2.status ≠ 0 ∧ r.2.sent = none ∧ r.1.lo.inoLayoutcommit = false := by
  have hprep' : ¬env.prepareLayoutcommit.getD 0 ≠ 0 := hprep
  simp only [layoutcommitInode_of_takesOver h, layoutcommitTaken, if_neg hprep', nfs4ProcLayoutcommit]
  split
  · exact ⟨by simp [Errno.code], rfl, (inoLayoutcommit_layoutcommitRelease ..).trans rfl⟩
  next hgrab =>
    have hrun : env.runTask ≠ 0 := hfails.resolve_left fun ⟨hs, hg⟩ => hgrab (by simp [hs, hg])
    rw [if_pos hrun]
    exact ⟨hrun, rfl, (inoLayoutcommit_layoutcommitRelease ..).trans rfl⟩

theorem mypnfsLayoutcommitInode_of_starts (h : st.TakesOver env) (hprep : ¬PrepareFails env)
    (hstarts : ¬StartFails env) : (st.mypnfsLayoutcommitInode env).2.status = 0 := by
  have hprep' : ¬env.prepareLayoutcommit.getD 0 ≠ 0 := hprep
  simp only [layoutcommitInode_of_takesOver h, layoutcommitTaken, if_neg hprep', nfs4ProcLayoutcommit]
  rw [if_neg fun hs => hstarts (.inl (by simpa using hs)), if_neg fun hrun => hstarts (.inr hrun)]

theorem map_taken_iff (segs : List Lseg) :
    (segs.map fun l => { l with layoutcommit := l.layoutcommit && decide (l.range.iomode ≠ Iomode.rw) }).map
        (fun l => (l.id, l.layoutcommit, l.refcount)) = segs.map (fun l => (l.id, l.layoutcommit, l.refcount)) ↔
    ∀ l ∈ segs, l.range.iomode = Iomode.rw → l.layoutcommit = false := by
  induction segs with
  | nil => simp
  | cons l segs ih =>
    simp only [List.map_cons, List.cons.injEq, ih, List.forall_mem_cons]
    cases l.layoutcommit with
    | false => simp
    | true => by_cases hrw : l.range.iomode = Iomode.rw <;> simp_all

/-- A call that fails without sending has changed nothing, unless it took over segments, which it loses. -/
theorem layoutcommit_failed_unchanged_iff (st : CommitInode) (env : LayoutcommitEnv) :
    ((st.mypnfsLayoutcommitInode env).2.status ≠ 0 → (st.mypnfsLayoutcommitInode env).2.sent = none →
      Unchanged st (st.mypnfsLayoutcommitInode env).1) ↔ (st.TakesOver env →
      (PrepareFails env → ∀ l ∈ st.lo.segs, l.range.iomode = Iomode.rw → l.layoutcommit = false) ∧
      (¬PrepareFails env → ¬StartFails env)) := by
  by_cases htakes : st.TakesOver env
  · simp only [htakes, true_implies]
    by_cases hprep : PrepareFails env
    · obtain ⟨hr, hlo, hlwb⟩ := mypnfsLayoutcommitInode_of_prepareFails htakes hprep
      have hsame : Unchanged st (st.mypnfsLayoutcommitInode env).1 ↔
          ∀ l ∈ st.lo.segs, l.range.iomode = Iomode.rw → l.layoutcommit = false := by
        rw [← map_taken_iff]
        refine ⟨fun h => ?_, fun h => ⟨?_, hlwb, ?_⟩⟩
        · have hsegs := h.segs
          rwa [hlo] at hsegs
        · rw [hlo]
          exact htakes.1.symm
        · rw [hlo]
          exact h
      rw [hsame, hr]
      simp only [hprep, not_true_eq_false, false_implies, and_true, true_implies]
      exact ⟨fun hall => hall hprep, fun hall _ => hall⟩
    · simp only [hprep, false_implies, true_and, not_false_eq_true, true_implies]
      by_cases hstart : StartFails env
      · obtain ⟨hstat, hsent, hino⟩ := mypnfsLayoutcommitInode_of_startFails htakes hprep hstart
        refine iff_of_false (fun h => ?_) fun h => h hstart
        have hsame := (h hstat hsent).inoLayoutcommit
        rw [hino, htakes.1] at hsame
        cases hsame
      · exact iff_of_true (fun h => absurd (mypnfsLayoutcommitInode_of_starts htakes hprep hstart) h) hstart
  · exact iff_of_true (fun _ _ => unchanged_of_not_takesOver htakes) fun h => absurd h htakes

/-- One write through a data server, and a driver that cannot prepare: the flag is gone, its reference nobody's. -/
theorem layoutcommit_prepare_failed :
    let st : CommitInode := { lo := { invalidStid := false, segs := [{ range := { iomode := Iomode.rw }, seq := 1 }] } }
    let st := st.mypnfsSetLayoutcommit 0 4096
    let r := st.mypnfsLayoutcommitInode { prepareLayoutcommit := some (negErrno .enomem) }
    r.2 = ⟨negErrno .enomem, none⟩ ∧ st.lo.segs.map (fun l => (l.layoutcommit, l.refcount)) = [(true, 2)] ∧
    r.1.lo.segs.map (fun l => (l.layoutcommit, l.refcount)) = [(false, 2)] := by
  decide

end CommitInode

end Mynfs
