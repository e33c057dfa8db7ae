import Mynfs.Open.Expired

/-! `stateid` is the delegation's while there is one, and else the open stateid, if a recovery really recovers. -/

namespace Mynfs

open Machine
open Nfs4State

def Nfs4State.opens (st : Nfs4State) : Fmode × Nat × Nat × Nat := (st.state, st.nRdonly, st.nWronly, st.nRdwr)

def Nfs4State.Counted (st : Nfs4State) : Prop := st.state = ⟨false, false⟩ → st.opens = (⟨false, false⟩, 0, 0, 0)

/-- Stateids change only together, and no delegation comes. -/
structure Assigns (st st' : Nfs4State) : Prop where
  opens : st'.opens = st.opens
  delegated : st'.delegatedState → st.delegatedState ∧ st'.stateid = st.stateid
  stateids : st'.delegatedState = false → st'.stateid = st'.openStateid ∨
    st.delegatedState = false ∧ st'.stateid = st.stateid ∧ st'.openStateid = st.openStateid

section
variable {st st' : Nfs4State}

theorem Assigns.frame (hopens : st'.opens = st.opens) (hdeleg : st'.delegatedState = st.delegatedState)
    (hsid : st'.stateid = st.stateid) (hopen : st'.openStateid = st.openStateid) : Assigns st st' :=
  ⟨hopens, fun h => ⟨hdeleg ▸ h, hsid⟩, fun h => .inr ⟨hdeleg ▸ h, hsid, hopen⟩⟩

theorem Assigns.trans {st'' : Nfs4State} (h₁ : Assigns st st') (h₂ : Assigns st' st'') : Assigns st st'' where
  opens := h₂.opens.trans h₁.opens
  delegated h := by
    obtain ⟨h', heq⟩ := h₂.delegated h
    exact ⟨(h₁.delegated h').1, heq.trans (h₁.delegated h').2⟩
  stateids h := by
    rcases h₂.stateids h with heq | ⟨h', heq, heq'⟩
    · exact .inl heq
    · rw [heq, heq']
      exact h₁.stateids h'

variable (st)

theorem assigns_copy (stateid : Stateid) :
    Assigns st { (if !st.delegatedState then { st with stateid := stateid } else st) with openStateid := stateid } ∧
      (st.delegatedState = false → (if !st.delegatedState then { st with stateid := stateid } else st).stateid = stateid) := by
  split
  · rename_i hd
    have hplain : st.delegatedState ≠ true := by simpa using hd
    exact ⟨⟨rfl, fun h => absurd h hplain, fun _ => .inl rfl⟩, fun _ => rfl⟩
  · rename_i hd
    have hdeleg : st.delegatedState ≠ false := by simpa using hd
    exact ⟨⟨rfl, fun h => ⟨h, rfl⟩, fun h => absurd h hdeleg⟩, fun h => absurd h hdeleg⟩

theorem assigns_clearDelegation : Assigns st st.nfsStateClearDelegation := ⟨rfl, nofun, fun _ => .inl rfl⟩

theorem assigns_checkDelegation (delegation : Option InodeDelegation) (testExpired : Bool) (testStateid : Int) :
    Assigns st (st.nfs41CheckDelegationStateid delegation testExpired testStateid).2 := by
  unfold nfs41CheckDelegationStateid
  split
  · exact assigns_clearDelegation st
  split
  · exact .frame rfl rfl rfl rfl
  · dsimp only
    split
    · exact assigns_clearDelegation st
    · exact .frame rfl rfl rfl rfl

theorem assigns_open40Expired (hasDelegation : Bool) : Assigns st (st.nfs40OpenExpired hasDelegation) := by
  have hflags : ∀ st : Nfs4State, Assigns st st.nfsStateClearOpenStateFlags := fun st => .frame rfl rfl rfl rfl
  unfold nfs40OpenExpired
  split
  · exact (assigns_clearDelegation st).trans (hflags _)
  · exact hflags st

theorem assigns_recoverEnd : Assigns st st.nfs4OpenRecoverEnd ∧
    (st.nfs4OpenRecoverEnd.delegatedState = false → st.nfs4OpenRecoverEnd.stateid = st.nfs4OpenRecoverEnd.openStateid) := by
  unfold nfs4OpenRecoverEnd
  split
  · have hplain : st.delegatedState ≠ true := by simp_all
    exact ⟨⟨rfl, fun h => absurd h hplain, fun _ => .inl rfl⟩, fun _ => rfl⟩
  · rename_i hsame
    refine ⟨.frame rfl rfl rfl rfl, fun hd => ?_⟩
    have hmatch : st.stateid.nfs4StateidMatch st.openStateid := by simpa [hd] using hsame
    obtain ⟨htype, hseqid, hother⟩ : st.stateid.type = st.openStateid.type ∧ st.stateid.seqid = st.openStateid.seqid ∧
        st.stateid.other = st.openStateid.other := by simpa [Stateid.nfs4StateidMatch] using hmatch
    change Stateid.mk st.stateid.type st.stateid.seqid st.stateid.other = st.openStateid
    rw [htype, hseqid, hother]

theorem assigns_clearOpenStateid (argStateid : Stateid) (stateid : Option Stateid) (fmode : Fmode) :
    Assigns st (st.nfsClearOpenStateid argStateid stateid fmode) := by
  have hmode : Assigns st (st.clearOpenMode fmode) := by
    unfold clearOpenMode
    split <;> exact .frame rfl rfl rfl rfl
  unfold nfsClearOpenStateid nfsClearOpenStateidLocked
  split
  · refine hmode.trans ?_
    generalize st.clearOpenMode fmode = st'
    cases stateid with
    | none => exact .frame rfl rfl rfl rfl
    | some sid =>
      dsimp only
      split
      · unfold nfsResyncOpenStateidLocked
        split <;> exact .frame rfl rfl rfl rfl
      · exact (assigns_copy st' sid).1
  · exact .frame rfl rfl rfl rfl

theorem assigns_setOpenStateid (test : SetTest) (stateid : Stateid) (fmode : Fmode) :
    Assigns st (st.nfsStateSetOpenStateid test stateid fmode) ∧ (test = .update → st.delegatedState = false →
      (st.nfsStateSetOpenStateid test stateid fmode).stateid = (st.nfsStateSetOpenStateid test stateid fmode).openStateid) := by
  have hmode : ∀ st : Nfs4State, Assigns st (st.setOpenMode fmode) ∧ (st.setOpenMode fmode).stateid = st.stateid ∧
      (st.setOpenMode fmode).openStateid = st.openStateid := by
    intro st
    unfold setOpenMode
    split <;> exact ⟨.frame rfl rfl rfl rfl, rfl, rfl⟩
  obtain ⟨hasg, hsid, hopen⟩ := hmode (if test = .update then st.nfsSetOpenStateidLocked stateid else st)
  unfold nfsStateSetOpenStateid
  rw [hsid, hopen]
  split at hasg
  · rename_i htest
    rw [if_pos htest]
    have hrecover : Assigns st (if st.openState && !stateid.nfs4StateidMatchOther st.openStateid then
        st.nfsTestAndClearAllOpenStateid else st) := by
      split <;> exact .frame rfl rfl rfl rfl
    obtain ⟨hcopy, hplain⟩ := assigns_copy (if st.openState && !stateid.nfs4StateidMatchOther st.openStateid then
        st.nfsTestAndClearAllOpenStateid else st) stateid
    refine ⟨(hrecover.trans hcopy).trans hasg, fun _ hd => hplain ?_⟩
    split
    · exact hd
    · exact hd
  · rename_i htest
    rw [if_neg htest]
    exact ⟨hasg, fun h => absurd h htest⟩

variable {st}

theorem updateOpenStateflags_spec (h : st.Counted) (fmode : Fmode) :
    (st.updateOpenStateflags fmode).Counted ∧ (st.updateOpenStateflags fmode).delegatedState = st.delegatedState ∧
      (st.updateOpenStateflags fmode).stateid = st.stateid ∧
      (st.updateOpenStateflags fmode).openStateid = st.openStateid := by
  rcases fmode with ⟨_ | _, _ | _⟩
  · have hstate : st.state.or ⟨false, false⟩ = st.state := by simp [Fmode.or]
    refine ⟨fun hzero => ?_, rfl, rfl, rfl⟩
    have hopens := h (hstate ▸ hzero)
    exact (congrArg (fun m => (m, st.nRdonly, st.nWronly, st.nRdwr)) hstate).trans hopens
  all_goals exact ⟨fun hzero => by simp [updateOpenStateflags, nfs4StateSetModeLocked, Fmode.or] at hzero, rfl, rfl, rfl⟩

theorem state_ne_of_cached (h : st.Counted) {fmode : Fmode} {truncates : Bool} {claim : OpenClaim}
    (hcached : st.canOpenCached fmode truncates claim) : st.state ≠ ⟨false, false⟩ := by
  intro hzero
  have hopens := h hzero
  simp only [opens, Prod.mk.injEq] at hopens
  obtain ⟨-, hrdonly, hwronly, hrdwr⟩ := hopens
  unfold canOpenCached at hcached
  split at hcached
  · cases hcached
  split at hcached
  · cases hcached
  · cases hcached
  · split at hcached <;> simp [hrdonly, hwronly, hrdwr] at hcached

theorem nfs4Close_spec (h : st.Counted) (fmode : Fmode) :
    (st.nfs4Close fmode).2.Counted ∧ (st.nfs4Close fmode).2.stateid = st.stateid ∧
      (st.nfs4Close fmode).2.openStateid = st.openStateid ∧
      ((st.nfs4Close fmode).2.delegatedState → st.delegatedState) ∧ ((st.nfs4Close fmode).2.state ≠ ⟨false, false⟩ →
        (st.nfs4Close fmode).2.delegatedState = st.delegatedState ∧ st.state ≠ ⟨false, false⟩) := by
  have hcount : (st.closeCount fmode).delegatedState = st.delegatedState ∧ (st.closeCount fmode).stateid = st.stateid ∧
      (st.closeCount fmode).openStateid = st.openStateid ∧ (st.closeCount fmode).nRdonly ≤ st.nRdonly ∧
      (st.closeCount fmode).nWronly ≤ st.nWronly ∧ (st.closeCount fmode).nRdwr ≤ st.nRdwr := by
    unfold closeCount
    split <;> simp
  obtain ⟨hdeleg, hsid, hopenStateid, hrdonly, hwronly, hrdwr⟩ := hcount
  -- a file without modes has nothing to close
  have hopen : ∀ {n m k : Nat}, n ≤ st.nRdonly → m ≤ st.nWronly → k ≤ st.nRdwr → ¬ (n = 0 ∧ m = 0 ∧ k = 0) →
      st.state ≠ ⟨false, false⟩ := by
    intro n m k hn hm hk hne hzero
    have hopens := h hzero
    simp only [opens, Prod.mk.injEq] at hopens
    omega
  unfold nfs4Close
  dsimp only
  split
  · rename_i hnone
    split
    · rename_i hzero
      simp only [Fmode.mk.injEq, decide_eq_false_iff_not, not_not] at hzero
      refine ⟨fun _ => ?_, hsid, hopenStateid, nofun, fun hne => absurd ?_ hne⟩
      · simp [opens, nfs4StateSetModeLocked, hzero, hnone]
      · simp [nfs4StateSetModeLocked, hzero]
    · rename_i hmode
      refine ⟨fun hzero => absurd hzero hmode, hsid, hopenStateid, fun hd => hdeleg ▸ hd, fun _ =>
        ⟨hdeleg, hopen hrdonly hwronly hrdwr fun hzero => hmode ?_⟩⟩
      simp [hzero.1, hzero.2.1]
  · rename_i hrw
    exact ⟨nofun, hsid, hopenStateid, fun hd => hdeleg ▸ hd, fun _ =>
      ⟨hdeleg, hopen hrdonly hwronly hrdwr fun hzero => hrw hzero.2.2⟩⟩

end

namespace StateidSys
variable {s t : StateidSys}

/-- An open without delegation has both stateids alike, unless a recovery is due. -/
structure Tracking (s : StateidSys) : Prop where
  installed : s.st.delegatedState → s.installed = some s.st.stateid
  counted : s.st.Counted
  tracks : s.st.delegatedState = false → s.st.state ≠ ⟨false, false⟩ ∨ s.opener ≠ none →
    s.st.stateid = s.st.openStateid ∨ s.st.openStateid.type = .invalid ∧ s.unrecovered

/-- No open of a closed file is counted on a skipped OPEN reply, and no recovery that was given up is reported as done. -/
def Harmless (s : StateidSys) : StateidEvent → Prop
  | .wake i status => ∀ r ∈ s.waiting[i]?, s.st.setOpenStateidTest s.hasSession r.1 status = .skip →
      s.st.state ≠ ⟨false, false⟩ ∨ s.st.stateid = s.st.openStateid
  | .openExpired err _ env => err = negErr Nfs4err.grace ∨ err = negErr Nfs4err.delay →
      (env.shouldRetrans = none ∧ env.delay = none) ∨ s.st.openStateid.type ≠ .invalid
  | _ => True

variable (h : s.Tracking)
include h

theorem Tracking.assign {st : Nfs4State} (ha : Assigns s.st st) : Tracking { s with st := st } where
  installed hd := by
    obtain ⟨hd', heq⟩ := ha.delegated hd
    rw [h.installed hd', heq]
  counted hzero := by
    have hstate : st.state = s.st.state := congrArg Prod.fst ha.opens
    rw [ha.opens]
    exact h.counted (hstate ▸ hzero)
  tracks hd hopen := by
    have hstate : st.state = s.st.state := congrArg Prod.fst ha.opens
    rcases ha.stateids hd with heq | ⟨hd', heq, heq'⟩
    · exact .inl heq
    · have htracks := h.tracks hd' (hstate ▸ hopen)
      rwa [← heq, ← heq'] at htracks

theorem Tracking.setRound {stateid : Stateid} {fmode : Fmode} {status : WaitStatus}
    (hskip : s.st.setOpenStateidTest s.hasSession stateid status = .skip →
      s.st.state ≠ ⟨false, false⟩ ∨ s.st.stateid = s.st.openStateid) : (s.setRound stateid fmode status).Tracking := by
  unfold StateidSys.setRound
  generalize s.st.setOpenStateidTest s.hasSession stateid status = test at hskip
  obtain ⟨hasg, hupdate⟩ := assigns_setOpenStateid s.st test stateid fmode
  obtain ⟨hinst, hcnt, -⟩ := h.assign hasg
  cases test with
  | wait => exact ⟨h.installed, h.counted, h.tracks⟩
  | update =>
    refine ⟨hinst, hcnt, fun hd _ => .inl ?_⟩
    rcases hasg.stateids hd with heq | ⟨hd', -⟩
    · exact heq
    · exact hupdate rfl hd'
  | skip =>
    refine ⟨hinst, hcnt, fun hd _ => ?_⟩
    rcases hasg.stateids hd with heq | ⟨hd', heq, heq'⟩
    · exact .inl heq
    · rw [heq, heq']
      rcases hskip rfl with hopen | heq
      · exact h.tracks hd' (.inl hopen)
      · exact .inl heq

theorem Tracking.finishOpen {deleg : Option OpenDelegation} {hasOpen : Bool} {delegation : Option Stateid}
    {fmode : Fmode} (hopen : hasOpen → s.opener ≠ none) :
    Tracking { s.finishOpen deleg hasOpen delegation fmode with opener := none } := by
  have hplain : Tracking { s with st := if hasOpen then s.st.updateOpenStateflags fmode else s.st, opener := none } := by
    obtain ⟨hcnt, hd, hsid, hopenStateid⟩ := updateOpenStateflags_spec h.counted fmode
    cases hasOpen with
    | false => exact ⟨h.installed, h.counted, fun hd hstate => h.tracks hd (.inl (hstate.resolve_right (· rfl)))⟩
    | true =>
      refine ⟨fun h' => ?_, hcnt, fun h' _ => ?_⟩
      · exact (h.installed (hd ▸ h')).trans (congrArg some hsid.symm)
      · have htracks := h.tracks (hd ▸ h') (.inr (hopen rfl))
        rwa [← hsid, ← hopenStateid] at htracks
  unfold StateidSys.finishOpen updateOpenStateidFinish
  cases deleg with
  | none => exact hplain
  | some d =>
    dsimp only
    split
    · have hcnt : (s.st.nfsStateSetDelegation d.stateid).Counted := h.counted
      obtain ⟨hcnt, hd, hsid, -⟩ := updateOpenStateflags_spec hcnt fmode
      exact ⟨fun _ => congrArg some hsid.symm, hcnt, fun h' => by rw [hd] at h'; cases h'⟩
    · exact hplain

theorem Tracking.checkOpen (expiredLocks testStateid : Int) : (s.checkOpen expiredLocks testStateid).Tracking := by
  have hdue : Tracking { s with phase := .opening, unrecovered := true } :=
    ⟨h.installed, h.counted, fun hd hopen => (h.tracks hd hopen).imp_right fun hinv => ⟨hinv.1, rfl⟩⟩
  unfold StateidSys.checkOpen
  split
  · exact ⟨h.installed, h.counted, h.tracks⟩
  unfold nfs41CheckOpenStateid
  dsimp only
  split
  · exact hdue
  split
  · rename_i hexpired
    have hne : nfs41TestAndFreeExpiredStateid s.st.openStateid testStateid ≠ 0 := by
      rcases hexpired with hexpired | hexpired <;> rw [hexpired] <;> decide
    rw [if_neg hne]
    exact ⟨h.installed, h.counted, fun _ _ => .inr ⟨rfl, rfl⟩⟩
  split
  · exact hdue
  · rename_i hvalid _
    refine ⟨h.installed, h.counted, fun hd hopen => .inl ((h.tracks hd hopen).resolve_right fun hinv => hvalid ?_)⟩
    exact .inr (by rw [nfs41TestAndFreeExpiredStateid, hinv.1])

omit h

theorem handleException_retry {env : ExceptionEnv} {err : Int}
    (herr : err = negErr Nfs4err.grace ∨ err = negErr Nfs4err.delay) (henv : env.shouldRetrans = none ∧ env.delay = none) :
    (nfs4HandleException env err).1 := by
  have hdelay : (nfs4DoHandleException env err).1.delay := by
    rcases herr with rfl | rfl <;> rfl
  simp [nfs4HandleException, hdelay, henv.1, henv.2]

theorem Tracking.openExpired (h : s.Tracking) {err : Int} {atomicOpenV1 : Bool} {env : ExceptionEnv}
    (hharmless : s.Harmless (.openExpired err atomicOpenV1 env)) : (s.openExpired err atomicOpenV1 env).Tracking := by
  unfold StateidSys.openExpired nfs4DoOpenExpired
  by_cases hzero : err = 0
  · subst hzero
    obtain ⟨hasg, hend⟩ := assigns_recoverEnd s.st
    obtain ⟨hinst, hcnt, -⟩ := h.assign hasg
    exact ⟨hinst, hcnt, fun hd _ => .inl (hend hd)⟩
  split_ifs with hcap herr hretry
  · exact h
  · exact h
  · -- the recovery was given up: the open stateid is a valid one nevertheless
    rcases hharmless herr with henv | hvalid
    · exact absurd (handleException_retry herr henv) hretry
    · refine ⟨h.installed, h.counted, fun hd hopen => .inl ((h.tracks hd hopen).resolve_right fun hinv => ?_)⟩
      exact hvalid hinv.1
  · refine ⟨h.installed, h.counted, fun hd hopen => (h.tracks hd hopen).imp_right fun hinv => ⟨hinv.1, ?_⟩⟩
    simp [hinv.2, hzero]

/-- Harmless events keep the active stateid that of the delegation or of the open. -/
theorem Tracking.step (h : s.Tracking) {e : StateidEvent} (hharmless : s.Harmless e) (ht : s.step e = some t) : t.Tracking := by
  cases e with
  | openReply stateid fmode =>
    obtain ⟨hopener, rfl⟩ := of_guard_some ht
    refine h.setRound fun hskip => ?_
    -- nothing is skipped before a wait
    unfold setOpenStateidTest at hskip
    split_ifs at hskip with _ hstat
    exact absurd rfl hstat
  | wake i status =>
    obtain ⟨hopener, ht⟩ := of_guard ht
    obtain ⟨r, hr, rfl⟩ := Option.map_eq_some_iff.mp ht
    have h' : Tracking { s with waiting := s.waiting.eraseIdx i } := ⟨h.installed, h.counted, h.tracks⟩
    exact h'.setRound (hharmless r hr)
  | finishOpen deleg =>
    obtain ⟨fmode, hopener, rfl⟩ := Option.map_eq_some_iff.mp ht
    exact h.finishOpen fun _ => by rw [hopener]; nofun
  | delegatedOpen deleg delegation fmode =>
    obtain ⟨hopener, rfl⟩ := of_guard_some ht
    obtain ⟨hinst, hcnt, htracks⟩ := @Tracking.finishOpen s h deleg false delegation fmode nofun
    exact ⟨hinst, hcnt, fun hd hopen => htracks hd (.inl (hopen.resolve_right (· hopener)))⟩
  | cachedOpen fmode truncates claim =>
    obtain ⟨⟨hopener, hcached⟩, rfl⟩ := of_guard_some ht
    obtain ⟨hcnt, hd, hsid, hopenStateid⟩ := updateOpenStateflags_spec h.counted fmode
    refine ⟨fun h' => (h.installed (hd ▸ h')).trans (congrArg some hsid.symm), hcnt, fun h' _ => ?_⟩
    have htracks := h.tracks (hd ▸ h') (.inl (state_ne_of_cached h.counted hcached))
    rwa [← hsid, ← hopenStateid] at htracks
  | close fmode =>
    obtain ⟨⟨hopener, -⟩, rfl⟩ := of_guard_some ht
    obtain ⟨hcnt, hsid, hopenStateid, hdeleg, hstate⟩ := nfs4Close_spec h.counted fmode
    refine ⟨fun hd => (h.installed (hdeleg hd)).trans (congrArg some hsid.symm), hcnt, fun hd hopen => ?_⟩
    obtain ⟨hd', hopen'⟩ := hstate (hopen.resolve_right (· hopener))
    have htracks := h.tracks (hd' ▸ hd) (.inl hopen')
    rwa [← hsid, ← hopenStateid] at htracks
  | closeReply argStateid stateid fmode =>
    cases ht
    exact h.assign (assigns_clearOpenStateid s.st argStateid stateid fmode)
  | recalled =>
    cases ht
    exact h.assign (assigns_clearDelegation s.st)
  | checkDelegation delegation testExpired testStateid =>
    obtain ⟨-, rfl⟩ := of_guard_some ht
    obtain ⟨hinst, hcnt, htracks⟩ := h.assign (assigns_checkDelegation s.st delegation testExpired testStateid)
    exact ⟨hinst, hcnt, htracks⟩
  | recoverDelegation delegation =>
    obtain ⟨-, rfl⟩ := of_guard_some ht
    unfold nfs41DelegationRecoverStateid
    cases s.st.recoverableDelegation delegation with
    | some tmp => exact ⟨fun _ => rfl, h.counted, nofun⟩
    | none =>
      obtain ⟨hinst, hcnt, htracks⟩ := h.assign (assigns_clearDelegation s.st)
      exact ⟨hinst, hcnt, htracks⟩
  | checkOpen expiredLocks testStateid =>
    obtain ⟨-, rfl⟩ := of_guard_some ht
    exact h.checkOpen expiredLocks testStateid
  | open40Expired hasDelegation =>
    obtain ⟨-, rfl⟩ := of_guard_some ht
    obtain ⟨hinst, hcnt, htracks⟩ := h.assign (assigns_open40Expired s.st hasDelegation)
    exact ⟨hinst, hcnt, fun hd hopen => (htracks hd hopen).imp_right fun hinv => ⟨hinv.1, rfl⟩⟩
  | openExpired err atomicOpenV1 env =>
    obtain ⟨-, rfl⟩ := of_guard_some ht
    exact h.openExpired hharmless

/-- After harmless steps, no recovery being due, the active stateid is the open stateid, or that of the delegation. -/
theorem active_stateid_tracks (hasSession : Bool) (events : List StateidEvent)
    (hharmless : Along step Harmless { hasSession } events) (s : StateidSys)
    (hrun : exec step { hasSession } events = some s) (hrecovered : s.unrecovered = false) :
    (s.st.delegatedState = false → s.st.state ≠ ⟨false, false⟩ → s.st.stateid = s.st.openStateid) ∧
      (s.st.delegatedState → s.installed = some s.st.stateid) := by
  have hinit : Tracking { hasSession } := ⟨nofun, fun _ => rfl, fun _ _ => .inl rfl⟩
  have htracking : s.Tracking := exec_invariant_along (fun _ _ _ hq hi => hi.step hq) hharmless hinit hrun
  refine ⟨fun hd hopen => (htracking.tracks hd (.inl hopen)).resolve_right fun hinv => ?_, htracking.installed⟩
  exact absurd (hrecovered.symm.trans hinv.2) (by decide)

def lateReply : List StateidEvent :=
  let deleg : OpenDelegation := ⟨⟨.delegation, 1, 9⟩, ⟨true, false⟩, false⟩
  [.openReply ⟨.open_, 1, 7⟩ ⟨true, false⟩, .finishOpen (some deleg), .openReply ⟨.open_, 3, 7⟩ ⟨false, true⟩,
    .wake 0 .eagain, .finishOpen (some deleg), .openReply ⟨.open_, 2, 7⟩ ⟨false, true⟩, .close ⟨false, true⟩,
    .close ⟨true, false⟩]

def expiredOpen (env : ExceptionEnv) : List StateidEvent :=
  [.openReply ⟨.open_, 1, 7⟩ ⟨true, false⟩, .finishOpen none, .checkDelegation none false 0, .recoverDelegation none,
    .checkOpen 0 (negErr Nfs4err.expired), .openExpired (negErr Nfs4err.delay) false env]

def recoveredOpen : List StateidEvent :=
  expiredOpen {} ++
    [.openReply ⟨.open_, 1, 8⟩ ⟨true, false⟩, .finishOpen none, .close ⟨true, false⟩, .openExpired 0 false {}]

theorem active_stateid_tracks_recovered :
    ∃ s, exec step { hasSession := true } recoveredOpen = some s ∧ s.st.openStateid = ⟨.open_, 1, 8⟩ ∧
      (s.st.delegatedState = false → s.st.state ≠ ⟨false, false⟩ → s.st.stateid = s.st.openStateid) := by
  have halong : Along step Harmless { hasSession := true } recoveredOpen := by
    simp [Along, Harmless, recoveredOpen, expiredOpen]
  exact ⟨_, rfl, rfl, (active_stateid_tracks true recoveredOpen halong _ rfl rfl).1⟩

/-- The late reply is skipped after the delegation is forgotten; and a recovery that is given up is reported as done. -/
theorem active_stateid_differs :
    (∃ s, exec step { hasSession := true } (lateReply ++ [.wake 0 .eagain, .finishOpen none]) = some s ∧
      s.unrecovered = false ∧ s.st.delegatedState = false ∧ s.st.state = ⟨false, true⟩ ∧
      s.st.stateid = ⟨.delegation, 1, 9⟩ ∧ s.st.openStateid = ⟨.open_, 3, 7⟩) ∧
    ∃ s, exec step { hasSession := true } (expiredOpen { delay := some ⟨negErrno .eintr, by decide⟩ }) = some s ∧
      s.unrecovered = false ∧ s.phase = .idle ∧ s.st.delegatedState = false ∧ s.st.state = ⟨true, false⟩ ∧
      s.st.stateid = ⟨.open_, 1, 7⟩ ∧ s.st.openStateid = ⟨.invalid, 1, 7⟩ :=
  ⟨⟨_, rfl, rfl, rfl, rfl, rfl, rfl⟩, _, rfl, rfl, rfl, rfl, rfl, rfl, rfl⟩

end StateidSys

end Mynfs
