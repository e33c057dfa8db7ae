import Mynfs.Copy.Proc

/-! Copied data that is reported is stable, unless the count of the COMMIT was cut to 32 bits. -/

namespace Mynfs

open Option

theorem mapErrors_neg {err : Int} (h : err < 0) : nfs4MapErrors err < 0 := by
  unfold nfs4MapErrors
  split_ifs
  · exact h
  all_goals decide

theorem statusOf_nonpos (status : Option Failure) : statusOf status ≤ 0 := by
  cases status with
  | none => exact le_rfl
  | some e => exact le_of_lt e.2

def HandledAs (result : ExceptionFlags × Int) : Prop :=
  result.1.delay ∨ result.1.recovering ∨ result.1.retry ∨ result.2 < 0

variable {errorcode status : Int} {tries : List CommitTry}

theorem doHandleException_neg (env : ExceptionEnv) (h : errorcode < 0) : HandledAs (nfs4DoHandleException env errorcode) := by
  have hfailed : HandledAs ({}, nfs4MapErrors errorcode) := .inr (.inr (.inr (mapErrors_neg h)))
  have hrecover : HandledAs ({ recovering := true }, 0) := .inr (.inl rfl)
  have hagain : HandledAs ({ retry := true }, nfs4MapErrors errorcode) := .inr (.inr (.inl rfl))
  have hscheduled : ∀ e : Failure, HandledAs ({}, nfs4MapErrors e.1) := fun e => .inr (.inr (.inr (mapErrors_neg e.2)))
  refine iteInduction (fun hzero => absurd hzero (ne_of_lt h)) fun _ => ?_
  refine iteInduction (fun _ => hfailed) fun _ => ?_
  refine iteInduction (fun _ => hrecover) fun _ => ?_
  refine iteInduction (fun _ => ?_) fun _ => ?_
  · refine iteInduction (fun _ => hrecover) fun _ => ?_
    refine iteInduction (fun _ => hagain) fun _ => ?_
    refine iteInduction (fun _ => hfailed) fun _ => ?_
    split
    · exact hscheduled _
    · exact hrecover
  refine iteInduction (fun _ => hrecover) fun _ => ?_
  refine iteInduction (fun _ => ?_) fun _ => ?_
  · split
    · exact hscheduled _
    · exact hrecover
  refine iteInduction (fun _ => .inr (.inr (.inr (mapErrors_neg (show negErrno .ebusy < 0 by decide))))) fun _ => ?_
  refine iteInduction (fun _ => .inl rfl) fun _ => ?_
  refine iteInduction (fun _ => hagain) fun _ => ?_
  exact iteInduction (fun _ => hagain) fun _ => hfailed

theorem handleException_neg (env : ExceptionEnv) (h : errorcode < 0) :
    (nfs4HandleException env errorcode).1 ∨ (nfs4HandleException env errorcode).2 < 0 := by
  have hdo := doHandleException_neg env h
  have hout : ∀ (retry : Bool) (status : Option Failure), (retry || status.isNone) ∨ statusOf status < 0 := by
    intro retry status
    cases status with
    | none => exact .inl (Bool.or_true retry)
    | some e => exact .inr e.2
  unfold nfs4HandleException
  dsimp only at hdo ⊢
  split_ifs with hdelay hrecovering hprivileged hmig
  · split
    next e _ => exact .inr e.2
    · exact hout _ _
  · exact .inr (show (-35 : Int) < 0 by decide)
  · exact .inr (show negErrno .eio < 0 by decide)
  · exact hout _ _
  · rcases hdo with hdo | hdo | hdo | hdo
    · exact absurd hdo hdelay
    · exact absurd hdo hrecovering
    · exact .inl hdo
    · exact .inr hdo

theorem procCommit_spec {verf verf' : U64} {answered : Bool}
    (h : nfs4ProcCommit verf tries = some (status, verf', answered)) : status ≤ 0 ∧ (status = 0 → answered) := by
  induction tries generalizing verf with
  | nil => cases h
  | cons try_ tries ih =>
    unfold nfs4ProcCommit at h
    dsimp only at h
    split at h
    · exact ih h
    next hretry =>
      obtain ⟨rfl, hrest⟩ := Prod.mk.inj (some.inj h)
      cases hrest
      cases hcall : try_.call with
      | none => exact ⟨le_of_eq rfl, fun _ => rfl⟩
      | some e =>
        rw [hcall] at hretry
        have hneg := (handleException_neg try_.exception (show statusOf (some e) < 0 from e.2)).resolve_left hretry
        exact ⟨le_of_lt hneg, fun hzero => absurd hzero (ne_of_lt hneg)⟩

theorem processCopyCommit_spec {canAlloc : Bool} {posDst : U64} {res : CopyRes}
    {commit : Option Commit} (h : processCopyCommit canAlloc posDst res tries = some (status, commit)) :
    status ≤ 0 ∧ (status = 0 → commit = some ⟨posDst, res.count.setWidth 32, res.verifier.verifier⟩) := by
  unfold processCopyCommit at h
  split at h
  · cases some.inj h
    exact ⟨by decide, fun hzero => absurd hzero (by decide)⟩
  · obtain ⟨⟨st, verf, answered⟩, hcommit, heq⟩ := map_eq_some_iff.mp h
    obtain ⟨hle, hans⟩ := procCommit_spec hcommit
    dsimp only at heq
    split at heq
    next hne =>
      cases heq
      exact ⟨hle, fun hzero => absurd hzero hne⟩
    next hzero =>
      obtain ⟨hst, hcommit⟩ := Prod.mk.inj heq
      rw [hans (not_not.mp hzero), if_pos rfl] at hcommit
      split at hst
      · exact ⟨hst ▸ by decide, fun hzero => absurd (hst.trans hzero) (by decide)⟩
      next hsame => exact ⟨le_of_eq hst.symm, fun _ => by rw [← hcommit, not_not.mp hsame]⟩

/-- The COMMIT is for the whole of `[pos, pos + n)`; the count 0 means to the end of the file. -/
def Commit.Covers (commit : Commit) (pos : U64) (n : Nat) : Prop :=
  commit.offset.toNat ≤ pos.toNat ∧ (commit.count = 0 ∨ pos.toNat + n ≤ commit.offset.toNat + commit.count.toNat)

/-- What is reported is stable: the server said so, or has answered a COMMIT for it. -/
def CopyOutcome.Stable (o : CopyOutcome) (posDst : U64) : Prop :=
  o.vars.res.verifier.committed = nfsFileSync ∨
    ∃ commit, o.commit = some commit ∧ commit.verifier = o.vars.res.verifier.verifier ∧ commit.Covers posDst o.status.toNat

/-- What the server says about the copy, in the reply to COPY or with CB_OFFLOAD. -/
def CopyAttempt.told (a : CopyAttempt) : CopyState :=
  match a.res.synchronous, a.async with
  | false, .finished copy => copy
  | _, _ => { count := a.res.count, verf := a.res.verifier }

namespace CopyCall
variable {c : CopyCall} {a : CopyAttempt} {v : CopyLoop} {o : CopyOutcome}

/-- The count that a COMMIT has on the wire: the one asked for if it is in the compound, else the one copied. -/
def wireCount (c : CopyCall) (sync : Bool) (a : CopyAttempt) : U32 :=
  (if sync && a.res.synchronous then c.count else a.told.count).setWidth 32

/-- The count of the COMMIT is large enough in spite of its 32 bits, where a COMMIT is needed and one is sent. -/
def CountFits (c : CopyCall) (sync : Bool) (a : CopyAttempt) : Prop :=
  a.told.verf.committed = nfsFileSync ∨
    a.told.error = 0 ∧ (c.wireCount sync a = 0 ∨ a.told.count.toNat ≤ (c.wireCount sync a).toNat)

/-- What an attempt made of the server's words. -/
structure Reports (c : CopyCall) (sync : Bool) (a : CopyAttempt) (o : CopyOutcome) : Prop where
  verf : o.vars.res.verifier = a.told.verf
  failed : a.told.error ≠ 0 → o.commit = none
  copied : a.told.error = 0 → o.status = a.told.count.toInt ∧
    (a.told.verf.committed = nfsFileSync ∨ o.commit = some ⟨c.posDst, c.wireCount sync a, a.told.verf.verifier⟩)

theorem commitCopy_spec (h : c.commitCopy a v = some o) (hpos : 0 < o.status) (htold : a.told.error = 0)
    (hcount : v.res.count = a.told.count) (hverf : v.res.verifier = a.told.verf) (hres : v.res.synchronous = a.res.synchronous)
    (hsame : v.sync → v.res.synchronous → v.res.verifier.verifier = v.res.commitVerf) : c.Reports v.sync a o := by
  unfold commitCopy at h
  split at h
  next hown =>
    obtain ⟨⟨status, commit⟩, hcommit, rfl⟩ := map_eq_some_iff.mp h
    obtain ⟨hle, hzero⟩ := processCopyCommit_spec hcommit
    dsimp only at hpos
    split at hpos
    · omega
    next hstat =>
      have hwire : c.wireCount v.sync a = v.res.count.setWidth 32 := by
        unfold wireCount
        rw [← hres, if_neg (by cases hs : v.sync <;> cases hr : v.res.synchronous <;> simp_all), hcount]
      refine ⟨hverf, fun hne => absurd htold hne, fun _ => ⟨(if_neg hstat).trans (congrArg BitVec.toInt hcount), .inr ?_⟩⟩
      rw [hzero (not_not.mp hstat), hwire, hverf]
  next hown =>
    cases h
    refine ⟨hverf, fun hne => absurd htold hne, fun _ => ⟨congrArg BitVec.toInt hcount, ?_⟩⟩
    by_cases hboth : (v.sync && v.res.synchronous)
    · obtain ⟨hsync, hsynchronous⟩ := (Bool.and_eq_true _ _).mp hboth
      refine .inr ?_
      unfold wireCount
      rw [← hres, if_pos hboth, if_pos hboth, ← hverf, hsame hsync hsynchronous]
    · refine .inl (by_contra fun hlevel => hown ⟨?_, hverf ▸ hlevel⟩)
      cases hs : v.sync <;> cases hr : v.res.synchronous <;> simp_all

theorem prepare_neg {sync : Bool} {status : Int} (h : c.prepare a sync = some status) : status < 0 := by
  unfold prepare at h
  split_ifs at h
  on_goal 5 =>
    cases h
    decide
  all_goals obtain ⟨e, -, rfl⟩ := map_eq_some_iff.mp h
  · split
    · decide
    · exact e.2
  · exact e.2
  · split
    · decide
    · exact e.2
  · exact e.2

/-- Only a CB_OFFLOAD makes `handle_async_copy` return something that is not negative. -/
theorem finished_of_nonneg {r : AsyncCopyResult} (h : 0 ≤ (a.async.result r).status) : ∃ copy, a.async = .finished copy := by
  cases hend : a.async with
  | noMemory =>
    rw [hend] at h
    exact absurd h (show ¬0 ≤ negErrno .enomem by decide)
  | interrupted =>
    rw [hend] at h
    exact absurd h (show ¬0 ≤ negErrno .erestartsys by decide)
  | restarted =>
    rw [hend] at h
    exact absurd h (show ¬0 ≤ negErrno .eagain by decide)
  | finished copy => exact ⟨copy, rfl⟩

theorem proc_spec (h : c.proc a v = some o) (hpos : 0 < o.status) : c.Reports v.sync a o := by
  unfold proc at h
  split at h
  next status hprep =>
    cases h
    exact absurd (prepare_neg hprep) (not_lt.mpr (le_of_lt hpos))
  · dsimp only at h
    split at h
    · cases h
      exact absurd (statusOf_nonpos a.call) (not_le.mpr hpos)
    · split at h
      · cases h
        exact absurd hpos (show ¬ 0 < negErrno .eagain by decide)
      next hverf =>
        split at h
        next hasync =>
          rw [Bool.not_eq_true'] at hasync
          split at h
          · -- an error of CB_OFFLOAD that is positive as an `int`
            cases h
            obtain ⟨copy, hcopy⟩ := finished_of_nonneg (le_of_lt hpos)
            have htold : a.told = copy := by simp [CopyAttempt.told, hasync, hcopy]
            refine ⟨?_, fun _ => rfl, fun hzero => absurd hpos ?_⟩
            · rw [htold, hcopy]
              rfl
            · rw [htold] at hzero
              simp [hcopy, AsyncEnd.result, copyOut, hzero]
          next hstat =>
            rw [not_not] at hstat
            obtain ⟨copy, hcopy⟩ := finished_of_nonneg (le_of_eq hstat.symm)
            have htold : a.told = copy := by simp [CopyAttempt.told, hasync, hcopy]
            have hzero : copy.error = 0 := by
              rw [hcopy] at hstat
              exact neg_eq_zero.mp (BitVec.eq_of_toInt_eq hstat)
            have hno : ¬a.res.synchronous := Bool.eq_false_iff.mp hasync
            have hreports := commitCopy_spec h hpos (htold ▸ hzero) (by rw [htold, hcopy]; rfl) (by rw [htold, hcopy]; rfl) rfl
              fun _ hsync => absurd hsync hno
            exact hreports
        next hsync =>
          have htold : a.told = { count := a.res.count, verf := a.res.verifier } := by
            rw [CopyAttempt.told, show a.res.synchronous = true by simpa using hsync]
          have hreports := commitCopy_spec h hpos (by rw [htold]) (by rw [htold]) (by rw [htold]) rfl
            fun hs _ => by_contra fun hne => hverf ⟨hs, hne⟩
          exact hreports

theorem Reports.stable_iff {sync : Bool} (h : c.Reports sync a o) (hpos : 0 < o.status) :
    o.Stable c.posDst ↔ c.CountFits sync a := by
  unfold CopyOutcome.Stable
  rw [h.verf]
  refine or_congr_right' fun hlevel => ?_
  by_cases herror : a.told.error = 0
  · obtain ⟨hstat, hdone⟩ := h.copied herror
    have hcommit := hdone.resolve_left hlevel
    have hcount : o.status = a.told.count.toNat := by
      rw [hstat, BitVec.toInt_eq_toNat_cond] at hpos ⊢
      split at hpos <;> omega
    constructor
    · rintro ⟨commit, hget, -, hle, hcovers⟩
      cases hcommit.symm.trans hget
      refine ⟨herror, hcovers.imp id fun hcovers => ?_⟩
      dsimp only at hcovers
      omega
    · rintro ⟨-, hfits⟩
      refine ⟨_, hcommit, rfl, le_rfl, hfits.imp id fun hle => ?_⟩
      dsimp only
      omega
  · refine iff_of_false ?_ fun hfits => herror hfits.1
    rintro ⟨commit, hget, -⟩
    rw [h.failed herror] at hget
    cases hget

/-- The loop gets to the attempt `a` with `args.sync` as `sync` and ends with its outcome. -/
def EndsWith (c : CopyCall) (v : CopyLoop) (attempts : List CopyAttempt) (o : CopyOutcome) (sync : Bool) (a : CopyAttempt) : Prop :=
  ∃ before after v', attempts = before ++ a :: after ∧ v'.sync = sync ∧ c.proc a v' = some o ∧
    c.nfs42ProcCopy v attempts = c.nfs42ProcCopy v' (a :: after)

theorem exists_endsWith {attempts : List CopyAttempt} (h : c.nfs42ProcCopy v attempts = some o) (hpos : 0 < o.status) :
    ∃ sync a, c.EndsWith v attempts o sync a := by
  induction attempts generalizing v with
  | nil => cases h
  | cons a attempts ih =>
    have hrest : ∀ v', c.nfs42ProcCopy v (a :: attempts) = c.nfs42ProcCopy v' attempts →
        ∃ sync a', c.EndsWith v (a :: attempts) o sync a' := by
      intro v' heq
      obtain ⟨sync, a', before, after, v'', rfl, hsync, hproc, hsame⟩ := ih (heq.symm.trans h)
      exact ⟨sync, a', a :: before, after, v'', rfl, hsync, hproc, heq.trans hsame⟩
    have hunsupported : ¬ 0 < negEopnotsupp := by decide
    have hhandled : ∀ (env : ExceptionEnv) (status : Int), ¬ 0 ≤ status → (nfs4HandleException env status).1 = false →
        (nfs4HandleException env status).2 < 0 := fun env status hneg hretry =>
      (handleException_neg env (not_le.mp hneg)).resolve_left (by rw [hretry]; nofun)
    have hstep := h
    unfold nfs42ProcCopy at hstep
    split at hstep
    · cases hstep
    next o' hproc =>
      dsimp only at hstep
      split_ifs at hstep with hok hsame heagain hrestart hnoReqs hother hretry hzero
      · cases hstep
        exact ⟨v.sync, a, [], attempts, v, rfl, rfl, hproc, rfl⟩
      · cases hstep
        exact absurd hpos hunsupported
      · exact hrest _ (h.trans hstep.symm)
      · cases hstep
        exact absurd (le_of_lt hpos) hok
      · exact hrest _ (h.trans hstep.symm)
      · cases hstep
        exact absurd hpos hunsupported
      · exact hrest _ (h.trans hstep.symm)
      · have hneg := hhandled a.dstException o'.status hok (Bool.or_eq_false_iff.mp (Bool.eq_false_iff.mpr hretry)).2
        exact absurd hzero (ne_of_lt hneg)
      · cases hstep
        have hneg := hhandled a.dstException o'.status hok (Bool.or_eq_false_iff.mp (Bool.eq_false_iff.mpr hretry)).2
        exact absurd hneg (not_lt.mpr (le_of_lt hpos))

/-- What is reported is stable exactly if the count of the COMMIT, if one is needed, covers what the last attempt
    copied. -/
theorem copy_stable_iff (c : CopyCall) (v : CopyLoop) (attempts : List CopyAttempt) (o : CopyOutcome)
    (hrun : c.nfs42ProcCopy v attempts = some o) (hpos : 0 < o.status) : (∃ sync a, c.EndsWith v attempts o sync a) ∧
    ∀ sync a, c.EndsWith v attempts o sync a → (o.Stable c.posDst ↔ c.CountFits sync a) := by
  refine ⟨exists_endsWith hrun hpos, ?_⟩
  rintro sync a ⟨_, _, v', -, rfl, hproc, -⟩
  exact (proc_spec hproc hpos).stable_iff hpos

instance (o : CopyOutcome) (posDst : U64) : Decidable (o.Stable posDst) :=
  have : ∀ commit : Commit, Decidable (commit.Covers posDst o.status.toNat) := fun _ => inferInstanceAs (Decidable (_ ∧ _))
  inferInstanceAs (Decidable (_ ∨ ∃ commit ∈ o.commit, _ ∧ _))

def ofCount (count : U64) : CopyCall := { posDst := 0, count }

def answeredSync (count : U64) : CopyAttempt where
  res := { count, verifier := { verifier := 7 }, synchronous := true, commitVerf := 7 }

def answeredAsync (copy : CopyState) : CopyAttempt where
  async := .finished copy
  commits := [{ verifier := 7 }]

theorem copy_stable_iff_megabyte :
    ∃ o, (ofCount (2 ^ 20)).nfs42ProcCopy ⟨true, {}, false⟩ [answeredSync (2 ^ 20)] = some o ∧ o.status = 2 ^ 20 ∧ o.Stable 0 :=
  ⟨_, rfl, by decide +kernel,
    ((copy_stable_iff (ofCount (2 ^ 20)) ⟨true, {}, false⟩ [answeredSync (2 ^ 20)] _ rfl (by decide +kernel)).2 true _
      ⟨[], [], _, rfl, rfl, rfl, rfl⟩).mpr (.inr (by decide +kernel))⟩

/-- 2^32 + 4096 bytes are reported after a COMMIT for 4096, and an error 2^32 - 1 in a CB_OFFLOAD counts as one byte. -/
theorem copy_unstable :
    (∃ o, (ofCount (2 ^ 32 + 4096)).nfs42ProcCopy ⟨true, {}, false⟩ [answeredSync (2 ^ 32 + 4096)] = some o ∧
      o.status = 2 ^ 32 + 4096 ∧ o.commit = some ⟨0, 4096, 7⟩ ∧ ¬ o.Stable 0) ∧
    (∃ o, (ofCount (2 ^ 33)).nfs42ProcCopy ⟨false, {}, false⟩
        [answeredAsync { count := 2 ^ 32 + 4096, verf := { verifier := 7 } }] = some o ∧
      o.status = 2 ^ 32 + 4096 ∧ o.commit = some ⟨0, 4096, 7⟩ ∧ ¬ o.Stable 0) ∧
    ∃ o, (ofCount (2 ^ 33)).nfs42ProcCopy ⟨false, {}, false⟩ [answeredAsync { error := 2 ^ 32 - 1 }] = some o ∧
      o.status = 1 ∧ o.commit = none ∧ ¬ o.Stable 0 := by
  refine ⟨⟨_, rfl, ?_⟩, ⟨_, rfl, ?_⟩, ⟨_, rfl, ?_⟩⟩ <;> decide +kernel

end CopyCall

end Mynfs
