import Mynfs.Copy.Offload
import Mathlib.Data.List.Basic

/-! A CB_OFFLOAD and its COPY reply, in either order. The orders compare different parts of the stateid. -/

namespace Mynfs

open List Option Function

def resumeCopy (c : AsyncCopy) (r : AsyncCopyResult) (clp : CopyClient) : CopyProgress → Option (AsyncCopyResult × CopyClient)
  | .returned res => some (res, clp)
  | .waiting copy => handleAsyncCopyWoken false c r copy clp

section
variable (args : CbOffloadArgs) (c : AsyncCopy) (r : AsyncCopyResult) (clp : CopyClient)

/-- How `handle_async_copy` ends, if it does, after the callback. Allocations succeed here and below. -/
def callbackFirst : Option (AsyncCopyResult × CopyClient) :=
  let (progress, clp) := handleAsyncCopy true c r (nfs4CallbackOffload true args clp).2
  resumeCopy c r clp progress

def replyFirst : Option (AsyncCopyResult × CopyClient) :=
  let (progress, clp) := handleAsyncCopy true c r clp
  resumeCopy c r (nfs4CallbackOffload true args clp).2 progress

end

/-- `handle_async_copy` returns `res`, no record of the callback is left behind, and no other one is taken. -/
def Consumed (clp : CopyClient) (res : AsyncCopyResult) (o : Option (AsyncCopyResult × CopyClient)) : Prop :=
  ∃ clp', o = some (res, clp') ∧ clp'.pendingCbStateids = clp.pendingCbStateids

section
variable {clp clp' : CopyClient} {args : CbOffloadArgs} {c : AsyncCopy} {r res : AsyncCopyResult} {other : BitVec 96}
  {id copy : CopyId}

theorem findCopy_eq_none : findCopy clp other = none ↔
    ∀ sv ∈ clp.clSuperblocks, ∀ id ∈ (clp.server sv).ssCopies, other ≠ (clp.copy id).stateid.other := by
  simp only [findCopy, find?_eq_none, mem_flatMap, decide_eq_true_eq]
  exact ⟨fun h sv hsv id hid => h id ⟨sv, hsv, hid⟩, fun h id ⟨sv, hsv, hid⟩ => h sv hsv id hid⟩

theorem findCopy_eq_some (h : findCopy clp other = some id) :
    (∃ sv ∈ clp.clSuperblocks, id ∈ (clp.server sv).ssCopies) ∧ other = (clp.copy id).stateid.other := by
  have hother := find?_some h
  exact ⟨mem_flatMap.mp (mem_of_find?_eq_some h), of_decide_eq_true hother⟩

def cbRecord (args : CbOffloadArgs) : CopyState := nfs4CopyCbArgs args { stateid := args.coaStateid }

theorem cbRecord_stateid : (cbRecord args).stateid = args.coaStateid := by
  unfold cbRecord nfs4CopyCbArgs
  split <;> rfl

theorem find_pending_update (p : CopyState → Bool) (cp : CopyState) :
    clp.pendingCbStateids.find? (fun id => p (update clp.copy clp.next cp id)) =
      clp.pendingCbStateids.find? fun id => p (clp.copy id) := by
  have hold : ∀ id ∈ clp.pendingCbStateids, update clp.copy clp.next cp id = clp.copy id := fun id hid =>
    update_of_ne (clp.pending_lt id hid).ne _ _
  exact find?_congr fun id hid => by rw [hold id hid]

theorem callbackOffload_found (h : findCopy clp args.coaStateid.other = some id) :
    (nfs4CallbackOffload true args clp).2 =
      clp.kzalloc.modify id fun tmpCopy => { nfs4CopyCbArgs args tmpCopy with completed := true } := by
  simp only [nfs4CallbackOffload, h, if_true]

theorem callbackOffload_missing (h : findCopy clp args.coaStateid.other = none) :
    (nfs4CallbackOffload true args clp).2.pendingCbStateids = clp.pendingCbStateids ++ [clp.next] ∧
    (nfs4CallbackOffload true args clp).2.copy = update clp.copy clp.next (cbRecord args) := by
  simp [nfs4CallbackOffload, h, CopyClient.addPending, CopyClient.modify, CopyClient.kzalloc, cbRecord]

theorem pending_kzalloc_delPending (id : CopyId) :
    (clp.kzalloc.delPending id).pendingCbStateids = clp.pendingCbStateids.erase id := rfl

theorem erase_ne_of_mem {l : List CopyId} (h : id ∈ l) : l.erase id ≠ l := fun he => by
  have hlen := length_erase_of_mem h
  have hpos := length_pos_of_mem h
  rw [he] at hlen
  omega

theorem handleAsyncCopy_found
    (h : (clp.pendingCbStateids.find? fun id => sameStateid c.stateid (clp.copy id).stateid) = some id) :
    handleAsyncCopy true c r clp = (.returned (copyOut r (clp.copy id)), clp.kzalloc.delPending id) := by
  simp only [handleAsyncCopy, h, if_true]

/-- The copy is put on the lists that a CB_OFFLOAD looks at. -/
structure Waits (clp : CopyClient) (c : AsyncCopy) (clp' : CopyClient) : Prop where
  pending : clp'.pendingCbStateids = clp.pendingCbStateids
  superblocks : clp'.clSuperblocks = clp.clSuperblocks
  next : clp'.next = clp.next + 1
  copy : clp'.copy = Function.update clp.copy clp.next { stateid := c.stateid }
  ssCopies : ∀ sv, (clp'.server sv).ssCopies =
    if sv = c.dstServer then (clp.server sv).ssCopies ++ [clp.next] else (clp.server sv).ssCopies

theorem handleAsyncCopy_missing (h : (clp.pendingCbStateids.find? fun id => sameStateid c.stateid (clp.copy id).stateid) = none) :
    ∃ clp', handleAsyncCopy true c r clp = (.waiting clp.next, clp') ∧ Waits clp c clp' := by
  simp only [handleAsyncCopy, h, if_true]
  refine ⟨_, rfl, ?_⟩
  by_cases hsrc : c.dstServer = c.srcServer
  · simp only [hsrc, ne_eq, not_true_eq_false, if_false]
    refine ⟨rfl, rfl, rfl, by simp [CopyClient.addCopy, CopyClient.modify, CopyClient.kzalloc], fun sv => ?_⟩
    by_cases hsv : sv = c.srcServer <;>
      simp [CopyClient.addCopy, CopyClient.modify, CopyClient.kzalloc, hsv, hsrc]
  · simp only [hsrc, ne_eq, not_false_eq_true, if_true]
    refine ⟨rfl, rfl, rfl, by simp [CopyClient.modifySrcCopies, CopyClient.addCopy, CopyClient.modify, CopyClient.kzalloc],
      fun sv => ?_⟩
    by_cases hdst : sv = c.dstServer <;> by_cases hsv : sv = c.srcServer <;>
      simp_all [CopyClient.modifySrcCopies, CopyClient.addCopy, CopyClient.modify, CopyClient.kzalloc, update_apply]

theorem resumeCopy_waiting (h : (clp.copy copy).completed = false) : resumeCopy c r clp (.waiting copy) = none := by
  simp [resumeCopy, handleAsyncCopyWoken, h]

theorem callbackFirst_eq : callbackFirst args c r clp =
    let clp' := (nfs4CallbackOffload true args clp).2
    (clp'.pendingCbStateids.find? fun id => sameStateid c.stateid (clp'.copy id).stateid).map fun id =>
      (copyOut r (clp'.copy id), clp'.kzalloc.delPending id) := by
  unfold callbackFirst
  dsimp only
  generalize (nfs4CallbackOffload true args clp).2 = clp'
  cases hp : clp'.pendingCbStateids.find? fun id => sameStateid c.stateid (clp'.copy id).stateid with
  | some id =>
    rw [handleAsyncCopy_found hp]
    rfl
  | none =>
    obtain ⟨clp'', heq, hw⟩ := handleAsyncCopy_missing (c := c) (r := r) hp
    rw [heq]
    exact resumeCopy_waiting (by rw [hw.copy, update_self])

/-- The record must be found under the whole stateid, in front of others, and no copy takes the callback instead. -/
theorem callbackFirst_consumed_iff : Consumed clp res (callbackFirst args c r clp) ↔
    findCopy clp args.coaStateid.other = none ∧
    (∀ id ∈ clp.pendingCbStateids, sameStateid c.stateid (clp.copy id).stateid = false) ∧
    sameStateid c.stateid args.coaStateid ∧ res = copyOut r (cbRecord args) := by
  rw [callbackFirst_eq]
  cases hf : findCopy clp args.coaStateid.other with
  | some id =>
    -- the callback completes another copy, so that the reply can only take the record of another callback
    rw [callbackOffload_found hf]
    refine ⟨?_, fun h => by simp at h⟩
    rintro ⟨clp', heq, hpend⟩
    obtain ⟨p, hp, hout⟩ := map_eq_some_iff.mp heq
    obtain rfl := (Prod.mk.inj hout).2
    exact absurd hpend (erase_ne_of_mem (mem_of_find?_eq_some hp))
  | none =>
    obtain ⟨hpend, hcopy⟩ := callbackOffload_missing hf
    have hnew : clp.next ∉ clp.pendingCbStateids := fun h => absurd (clp.pending_lt _ h) (lt_irrefl _)
    dsimp only
    rw [hpend, hcopy, find?_append, find_pending_update fun cp => sameStateid c.stateid cp.stateid]
    cases hp : clp.pendingCbStateids.find? fun id => sameStateid c.stateid (clp.copy id).stateid with
    | some p =>
      -- an older record for this stateid is taken, and the one of the callback stays behind
      have hmem := mem_of_find?_eq_some hp
      have hsame := find?_some hp
      constructor
      · rintro ⟨clp', heq, hpend'⟩
        obtain rfl := (Prod.mk.inj (some.inj heq)).2
        rw [pending_kzalloc_delPending, hpend, erase_append_left _ hmem] at hpend'
        exact absurd (hpend' ▸ mem_append_right _ (mem_singleton.mpr rfl)) hnew
      · rintro ⟨-, hnone, -⟩
        rw [hnone p hmem] at hsame
        cases hsame
    | none =>
      have hnone : ∀ id ∈ clp.pendingCbStateids, sameStateid c.stateid (clp.copy id).stateid = false := fun id hid =>
        Bool.eq_false_iff.mpr (find?_eq_none.mp hp id hid)
      rw [find?_singleton, update_self, cbRecord_stateid]
      cases hsame : sameStateid c.stateid args.coaStateid with
      | true =>
        simp only [if_true, or_some, getD_none, map_some, update_self]
        constructor
        · rintro ⟨clp', heq, -⟩
          exact ⟨trivial, hnone, trivial, (Prod.mk.inj (some.inj heq)).1.symm⟩
        · rintro ⟨-, -, -, rfl⟩
          refine ⟨_, rfl, ?_⟩
          rw [pending_kzalloc_delPending, hpend, erase_append_right _ hnew, erase_cons_head, append_nil]
      | false =>
        refine ⟨fun ⟨clp', heq, _⟩ => ?_, fun h => by simp at h⟩
        simp at heq

theorem Waits.findCopy_listed (hw : Waits clp c clp') (hnone : findCopy clp c.stateid.other = none)
    (hdst : c.dstServer ∈ clp.clSuperblocks) : findCopy clp' c.stateid.other = some clp.next := by
  cases hf : findCopy clp' c.stateid.other with
  | none =>
    have hmem : clp.next ∈ (clp'.server c.dstServer).ssCopies := by simp [hw.ssCopies]
    refine absurd ?_ (findCopy_eq_none.mp hf c.dstServer (hw.superblocks ▸ hdst) clp.next hmem)
    rw [hw.copy, update_self]
  | some id =>
    obtain ⟨⟨sv, hsv, hid⟩, hother⟩ := findCopy_eq_some hf
    by_cases hnew : id = clp.next
    · rw [hnew]
    · -- a copy that was there before does not match
      have hold : id ∈ (clp.server sv).ssCopies := by
        rw [hw.ssCopies] at hid
        split at hid
        · rcases mem_append.mp hid with hid | hid
          · exact hid
          · exact absurd (mem_singleton.mp hid) hnew
        · exact hid
      rw [hw.copy, update_of_ne hnew] at hother
      exact absurd hother (findCopy_eq_none.mp hnone sv (hw.superblocks ▸ hsv) id hold)

theorem Waits.findCopy_unlisted (hw : Waits clp c clp') (hnone : findCopy clp c.stateid.other = none)
    (hdst : c.dstServer ∉ clp.clSuperblocks) : findCopy clp' c.stateid.other = none := by
  refine findCopy_eq_none.mpr fun sv hsv id hid => ?_
  rw [hw.superblocks] at hsv
  have hne : sv ≠ c.dstServer := fun h => hdst (h ▸ hsv)
  rw [hw.ssCopies, if_neg hne] at hid
  rw [hw.copy, update_of_ne (clp.copies_lt sv id hid).ne]
  exact findCopy_eq_none.mp hnone sv hsv id hid

theorem copyOut_copyCbArgs (s : Stateid) :
    copyOut r { nfs4CopyCbArgs args { stateid := s } with completed := true } = copyOut r (cbRecord args) := by
  unfold cbRecord nfs4CopyCbArgs
  split <;> rfl

theorem unlinkCopy_same (copy : CopyId) : (unlinkCopy c copy clp).copy = clp.copy ∧
    (unlinkCopy c copy clp).pendingCbStateids = clp.pendingCbStateids := by
  unfold unlinkCopy
  split <;> exact ⟨rfl, rfl⟩

theorem copyCbArgs_same (cp : CopyState) : (nfs4CopyCbArgs args cp).error = args.error ∧
    (nfs4CopyCbArgs args cp).flags = cp.flags := by
  unfold nfs4CopyCbArgs
  split <;> exact ⟨rfl, rfl⟩

theorem resumeCopy_completed {s : Stateid} (h : clp.copy copy = { nfs4CopyCbArgs args { stateid := s } with completed := true }) :
    ∃ clp' cancel, resumeCopy c r clp (.waiting copy) = some
      (if args.error = BitVec.ofNat 32 Nfs4err.partnerNoAuth then
        { r with status := negErrno .eagain, restart := true, offloadCancel := cancel }
      else copyOut r (cbRecord args), clp') ∧ clp'.pendingCbStateids = clp.pendingCbStateids := by
  obtain ⟨hcopy, hpend⟩ : (unlinkCopy c copy clp).copy = clp.copy ∧
      (unlinkCopy c copy clp).pendingCbStateids = clp.pendingCbStateids := unlinkCopy_same copy
  refine ⟨unlinkCopy c copy clp,
    if c.sameServer then [(clp.copy copy).stateid] else [(clp.copy copy).stateid, c.srcStateid], ?_, hpend⟩
  have hdone : (clp.copy copy).completed := by rw [h]
  have herror : (clp.copy copy).error = args.error := by rw [h, ← (copyCbArgs_same { stateid := s }).1]
  have hflags : (clp.copy copy).flags = false := by
    rw [h]
    exact (copyCbArgs_same { stateid := s }).2
  have hout : copyOut r (clp.copy copy) = copyOut r (cbRecord args) := by rw [h, copyOut_copyCbArgs]
  simp only [resumeCopy, handleAsyncCopyWoken, hdone, hcopy, hflags, herror, hout, Bool.false_or, if_true,
    Bool.false_eq_true, if_false, decide_eq_true_eq]
  split <;> rfl

/-- The callback finds its copy by `other` alone; on NFS4ERR_PARTNER_NO_AUTH the copy is then restarted. -/
theorem replyFirst_consumed_iff (hf : findCopy clp args.coaStateid.other = none)
    (hp : ∀ id ∈ clp.pendingCbStateids, sameStateid c.stateid (clp.copy id).stateid = false)
    (hsame : sameStateid c.stateid args.coaStateid) :
    Consumed clp (copyOut r (cbRecord args)) (replyFirst args c r clp) ↔
      c.dstServer ∈ clp.clSuperblocks ∧ args.error ≠ BitVec.ofNat 32 Nfs4err.partnerNoAuth := by
  have hother : args.coaStateid.other = c.stateid.other := (of_decide_eq_true hsame).2.symm
  obtain ⟨clp₁, heq, hw⟩ := handleAsyncCopy_missing (r := r) (find?_eq_none.mpr fun id hid => Bool.eq_false_iff.mp (hp id hid))
  unfold replyFirst
  rw [heq]
  dsimp only
  rw [hother] at hf
  by_cases hdst : c.dstServer ∈ clp.clSuperblocks
  · have hfound : findCopy clp₁ args.coaStateid.other = some clp.next := hother ▸ hw.findCopy_listed hf hdst
    have hne : clp.next ≠ clp₁.next := by rw [hw.next]; exact (Nat.lt_succ_self _).ne
    rw [callbackOffload_found hfound]
    set clp₂ := clp₁.kzalloc.modify clp.next fun tmpCopy => { nfs4CopyCbArgs args tmpCopy with completed := true }
    have hcopy : clp₂.copy clp.next = { nfs4CopyCbArgs args { stateid := c.stateid } with completed := true } := by
      simp only [clp₂, CopyClient.modify, CopyClient.kzalloc, update_self, update_of_ne hne, hw.copy]
    obtain ⟨clp', cancel, hres, hpend⟩ := resumeCopy_completed (c := c) (r := r) hcopy
    have hpend' : clp'.pendingCbStateids = clp.pendingCbStateids := hpend.trans hw.pending
    rw [hres]
    split
    next herr =>
      refine ⟨fun ⟨_, h, _⟩ => ?_, fun h => absurd herr h.2⟩
      have hstat : negErrno .eagain = (-(cbRecord args).error).toInt :=
        congrArg AsyncCopyResult.status (Prod.mk.inj (some.inj h)).1
      have hrecord : (cbRecord args).error = args.error := (copyCbArgs_same _).1
      rw [hrecord, herr] at hstat
      exact absurd hstat (by decide)
    next herr => exact ⟨fun _ => ⟨hdst, herr⟩, fun _ => ⟨clp', rfl, hpend'⟩⟩
  · have hmiss : findCopy clp₁ args.coaStateid.other = none := hother ▸ hw.findCopy_unlisted hf hdst
    obtain ⟨hpend, hcopy⟩ := callbackOffload_missing hmiss
    have hne : clp.next ≠ clp₁.next := by rw [hw.next]; exact (Nat.lt_succ_self _).ne
    have hwait : resumeCopy c r (nfs4CallbackOffload true args clp₁).2 (.waiting clp.next) = none :=
      resumeCopy_waiting (by rw [hcopy, update_of_ne hne, hw.copy, update_self])
    rw [hwait]
    refine ⟨fun ⟨_, h, _⟩ => by simp at h, fun h => absurd h.1 hdst⟩

end

/-- The order of callback and COPY reply makes no difference, and the record is consumed, exactly if the callback names
    the whole stateid, its error is not NFS4ERR_PARTNER_NO_AUTH, and no pending record or other copy could be mistaken
    for them. -/
theorem copy_order_independent (args : CbOffloadArgs) (c : AsyncCopy) (r : AsyncCopyResult) (clp : CopyClient) :
    (∃ res, Consumed clp res (callbackFirst args c r clp) ∧ Consumed clp res (replyFirst args c r clp)) ↔
      sameStateid c.stateid args.coaStateid ∧ args.error ≠ BitVec.ofNat 32 Nfs4err.partnerNoAuth ∧
      (∀ id ∈ clp.pendingCbStateids, sameStateid c.stateid (clp.copy id).stateid = false) ∧
      (∀ sv ∈ clp.clSuperblocks, ∀ id ∈ (clp.server sv).ssCopies, args.coaStateid.other ≠ (clp.copy id).stateid.other) ∧
      c.dstServer ∈ clp.clSuperblocks := by
  constructor
  · rintro ⟨res, hcb, hreply⟩
    obtain ⟨hf, hp, hsame, rfl⟩ := callbackFirst_consumed_iff.mp hcb
    obtain ⟨hdst, herr⟩ := (replyFirst_consumed_iff hf hp hsame).mp hreply
    exact ⟨hsame, herr, hp, findCopy_eq_none.mp hf, hdst⟩
  · rintro ⟨hsame, herr, hp, hss, hdst⟩
    have hf := findCopy_eq_none.mpr hss
    exact ⟨_, callbackFirst_consumed_iff.mpr ⟨hf, hp, hsame, rfl⟩,
      (replyFirst_consumed_iff hf hp hsame).mpr ⟨hdst, herr⟩⟩

def idleCopyClient : CopyClient where
  copy _ := {}
  next := 0
  server _ := {}
  clSuperblocks := [0]
  pendingCbStateids := []
  copies_lt := by simp
  pending_lt := by simp

def localCopy (stateid : Stateid) : AsyncCopy := ⟨stateid, 0, 0, {}, true⟩

/-- Another sequence id is missed if the callback comes first; NFS4ERR_PARTNER_NO_AUTH restarts only if it comes second. -/
theorem copy_order_matters :
    let r : AsyncCopyResult := { status := 0, restart := false, count := 0, verf := {} }
    let status := fun o : Option (AsyncCopyResult × CopyClient) => o.map fun p => (p.1.status, p.1.restart)
    let c := localCopy { seqid := 1, other := 7 }
    let bumped : CbOffloadArgs := ⟨{ seqid := 2, other := 7 }, 0, 4096, {}⟩
    let noAuth : CbOffloadArgs := ⟨{ seqid := 1, other := 7 }, 10089, 0, {}⟩
    status (callbackFirst bumped c r idleCopyClient) = none ∧
    status (replyFirst bumped c r idleCopyClient) = some (0, false) ∧
    status (callbackFirst noAuth c r idleCopyClient) = some (-10089, false) ∧
    status (replyFirst noAuth c r idleCopyClient) = some (-11, true) := by
  decide

end Mynfs
