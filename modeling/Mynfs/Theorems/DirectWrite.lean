import Mynfs.Lib.Backing
import Mynfs.Theorems.DirectCount
import Mynfs.Theorems.PageioCalls

/-! The byte count of a direct write: every byte below `max_count` that was scheduled is stable or still worked on
    (`Ledger`), as long as no request goes to `error_cleanup` that a later reply could jump over. -/

namespace Mynfs

open List Machine
open Option (isNone_iff_eq_none map_eq_some_iff)
open Set (union_assoc union_empty)

section
variable {shift : Nat} {stable stable' : Nat → Prop} {hdr : PgioHeader shift}

/-! ### What the functions of direct.c change -/

namespace DirectReq
variable (dreq : DirectReq shift) {status : Int}

theorem truncateRequest_eq (req : NfsPage shift) : dreq.truncateRequest req =
    { dreq with maxCount := min dreq.maxCount (req.reqOffset - dreq.ioStart)
                count := min dreq.count (req.reqOffset - dreq.ioStart) } := by
  unfold truncateRequest
  dsimp only
  split
  next hmax =>
    split
    next hcount => rw [min_eq_right hmax.le, min_eq_right hcount.le]
    next hcount => rw [min_eq_right hmax.le, min_eq_left (not_lt.mp hcount)]
  next hmax =>
    split
    next hcount => rw [min_eq_left (not_lt.mp hmax), min_eq_right hcount.le]
    next hcount => rw [min_eq_left (not_lt.mp hmax), min_eq_left (not_lt.mp hcount)]

/-- Giving up requests cuts both counts at the first of them. -/
theorem truncateRequests_eq : ∀ (reqs : List (NfsPage shift)) (dreq : DirectReq shift),
    ∃ n, dreq.truncateRequests reqs = { dreq with maxCount := min dreq.maxCount n, count := min dreq.count n } ∧
      ∀ req ∈ reqs, n ≤ req.reqOffset - dreq.ioStart
  | [], dreq => ⟨max dreq.maxCount dreq.count, by simp [truncateRequests], by simp⟩
  | req :: reqs, dreq => by
    obtain ⟨n, heq, hn⟩ := truncateRequests_eq reqs (dreq.truncateRequest req)
    have hcons : dreq.truncateRequests (req :: reqs) = (dreq.truncateRequest req).truncateRequests reqs := rfl
    rw [truncateRequest_eq] at heq hn hcons
    refine ⟨min (req.reqOffset - dreq.ioStart) n, ?_, ?_⟩
    · rw [hcons, heq, min_assoc, min_assoc]
    · intro other hother
      rcases mem_cons.mp hother with rfl | hother
      · exact min_le_left _ _
      · exact (min_le_right _ _).trans (hn other hother)

theorem countBytes_of_ok (h : hdr.iohdrError = false) : dreq.countBytes hdr =
    { dreq with count := max dreq.count (min dreq.maxCount (hdr.ioStart + hdr.goodBytes - dreq.ioStart)) } :=
  dreq.countIo_of_ok (by simp [h])

theorem countBytes_of_error (h : hdr.iohdrError) (hle : dreq.count ≤ dreq.maxCount) : dreq.countBytes hdr =
      { dreq with maxCount := min dreq.maxCount (hdr.ioStart + hdr.goodBytes - dreq.ioStart)
                  count := min dreq.maxCount (hdr.ioStart + hdr.goodBytes - dreq.ioStart)
                  error := if dreq.error = 0 then hdr.error else dreq.error } := by
  rw [countBytes, dreq.countIo_of_truncated (by simp [h]) hle]
  simp only [h, true_and]

theorem writeCompletion_of_redo (h : hdr.iohdrRedo) : dreq.writeCompletion hdr = dreq := by
  simp [writeCompletion, h]

theorem writeCompletion_of_released (hredo : hdr.iohdrRedo = false)
    (h : hdr.iohdrError ∨ hdr.iohdrUnstableWrites = false) : dreq.writeCompletion hdr = dreq.countBytes hdr := by
  have hcond : (hdr.iohdrUnstableWrites && !hdr.iohdrError) = false := by
    rcases h with h | h <;> simp [h]
  simp [writeCompletion, hredo, hcond]

/-- An unstable reply puts the requests on the commit list, and takes no reschedule back. -/
theorem writeCompletion_of_unstable (hredo : hdr.iohdrRedo = false)
    (herror : hdr.iohdrError = false) (hunst : hdr.iohdrUnstableWrites) (hflags : dreq.flags ≠ .done) :
    (∃ flags, flags ≠ .done ∧ (dreq.flags = .reschedWrites → flags = .reschedWrites) ∧ dreq.writeCompletion hdr =
      { dreq.countBytes hdr with
        flags := flags
        commitList := dreq.commitList ++ hdr.pages.map fun req => { req with wbVerf := hdr.verf.verifier } }) ∨
    dreq.flags = .reschedWrites ∧ dreq.writeCompletion hdr =
      { dreq.countBytes hdr with commitList := dreq.commitList ++ hdr.pages } := by
  have hcount := dreq.countBytes_of_ok herror
  simp only [writeCompletion, hredo, hunst, herror, hcount, Bool.false_eq_true, if_false, Bool.not_false, Bool.and_self, if_true]
  cases hf : dreq.flags with
  | zero =>
    simp [markRequests_eq]
  | doCommit =>
    left
    refine ⟨.doCommit, by simp, by simp, ?_⟩
    simp [markRequests_eq]
  | reschedWrites =>
    simp [markRequests_eq]
  | done => exact absurd hf hflags

theorem writeCompletion_frame (hdr : PgioHeader shift) (hflags : dreq.flags ≠ .done) :
    (dreq.writeCompletion hdr).ioCount = dreq.ioCount ∧ (dreq.writeCompletion hdr).rpcsOut = dreq.rpcsOut ∧
    (dreq.writeCompletion hdr).flags ≠ .done := by
  obtain ⟨-, hio, hrpcs, hsame, -⟩ := dreq.countIo_frame _
  cases hredo : hdr.iohdrRedo with
  | true =>
    rw [dreq.writeCompletion_of_redo hredo]
    exact ⟨rfl, rfl, hflags⟩
  | false =>
    by_cases hreleased : hdr.iohdrError ∨ hdr.iohdrUnstableWrites = false
    · rw [dreq.writeCompletion_of_released hredo hreleased]
      exact ⟨hio, hrpcs, hsame ▸ hflags⟩
    · obtain ⟨herror, hunst⟩ := not_or.mp hreleased
      rcases dreq.writeCompletion_of_unstable hredo (by simpa using herror) (by simpa using hunst) hflags with
        ⟨flags, hne, -, heq⟩ | ⟨-, heq⟩
      · rw [heq]
        exact ⟨hio, hrpcs, hne⟩
      · rw [heq]
        exact ⟨hio, hrpcs, hsame ▸ hflags⟩

/-- The requests of a COMMIT whose verifier is not that of the reply. -/
def unconfirmed (verf : WriteVerf) (pages : List (NfsPage shift)) : List (NfsPage shift) :=
  (pages.filter fun req => !nfsWriteMatchVerf verf req).map fun req => { req with wbNio := 0 }

theorem foldl_commitRequest_of_error (h : status < 0) (verf : WriteVerf) :
    ∀ (pages : List (NfsPage shift)) (dreq : DirectReq shift),
      pages.foldl (fun dreq => dreq.commitRequest status verf) dreq = dreq.truncateRequests pages
  | [], _ => rfl
  | req :: pages, dreq => by
    have hone : dreq.commitRequest status verf req = dreq.truncateRequest req := by simp [commitRequest, h]
    rw [foldl_cons, hone, foldl_commitRequest_of_error h verf pages]
    rfl

/-- A COMMIT that went well puts back what it did not confirm. -/
theorem foldl_commitRequest_of_ok (h : ¬status < 0) (verf : WriteVerf) :
    ∀ (pages : List (NfsPage shift)) (dreq : DirectReq shift),
      ∃ flags, (dreq.flags = .reschedWrites → flags = .reschedWrites) ∧
        pages.foldl (fun dreq => dreq.commitRequest status verf) dreq =
          { dreq with flags := flags, commitList := dreq.commitList ++ unconfirmed verf pages }
  | [], dreq => ⟨dreq.flags, id, by simp [unconfirmed]⟩
  | req :: pages, dreq => by
    obtain ⟨flags, hflags, heq⟩ := foldl_commitRequest_of_ok h verf pages (dreq.commitRequest status verf req)
    rw [foldl_cons, heq]
    by_cases hmatch : nfsWriteMatchVerf verf req
    · have hone : dreq.commitRequest status verf req = dreq := by simp [commitRequest, h, hmatch]
      rw [hone] at hflags ⊢
      exact ⟨flags, hflags, by simp [unconfirmed, hmatch]⟩
    · have hone : dreq.commitRequest status verf req =
          { dreq with flags := if dreq.flags = .zero then .reschedWrites else dreq.flags
                      commitList := dreq.commitList ++ [{ req with wbNio := 0 }] } := by
        simp only [commitRequest, h, hmatch, if_false, Bool.not_false, if_true, markRequestCommit]
        split <;> rfl
      rw [hone] at hflags ⊢
      refine ⟨flags, fun hresched => hflags ?_, by simp [unconfirmed, hmatch]⟩
      simp [hresched]

theorem commitComplete_frame (status : Int) (verf : WriteVerf) (pages : List (NfsPage shift)) :
    (dreq.commitComplete status verf pages).ioCount = dreq.ioCount ∧
    (dreq.commitComplete status verf pages).rpcsOut = dreq.rpcsOut := by
  unfold commitComplete
  split
  next hstat =>
    rw [foldl_commitRequest_of_error hstat]
    obtain ⟨n, heq, -⟩ := truncateRequests_eq pages { dreq with error := status, flags := .done }
    rw [heq]
    exact ⟨rfl, rfl⟩
  · by_cases herror : dreq.error < 0
    · rw [foldl_commitRequest_of_error herror]
      obtain ⟨n, heq, -⟩ := truncateRequests_eq pages dreq
      rw [heq]
      exact ⟨rfl, rfl⟩
    · obtain ⟨flags, -, heq⟩ := foldl_commitRequest_of_ok herror verf pages dreq
      rw [heq]
      exact ⟨rfl, rfl⟩

end DirectReq

/-! ### Who is at work -/

/-- The reference that the scheduling thread has on the request. -/
def Phase.refs : Phase shift → Nat
  | .idle => 0
  | .schedule _ | .reschedule _ _ | .gaveUp => 1

def Phase.running : Phase shift → Bool
  | .idle | .gaveUp => false
  | .schedule _ | .reschedule _ _ => true

namespace DirectSys
variable {s t : DirectSys shift}

theorem acknowledge_frame (s : DirectSys shift) (offset count : Nat) (verf : WriteVerf) :
    (s.acknowledge offset count verf).dreq = s.dreq ∧ (s.acknowledge offset count verf).hdrs = s.hdrs := by
  unfold acknowledge
  split <;> exact ⟨rfl, rfl⟩

/-- A step of the scheduling thread. -/
structure ThreadStep (s t : DirectSys shift) : Prop where
  eq : t = { s with dreq := t.dreq, phase := t.phase, desc := t.desc, call := t.call }
  running : s.phase.running
  running' : t.phase.running
  refs : t.dreq.ioCount = s.dreq.ioCount ∧ t.dreq.rpcsOut = s.dreq.rpcsOut
  flags : s.dreq.flags ≠ .done → t.dreq.flags ≠ .done

namespace ThreadStep

theorem of_getPages {result : Except Err (Nat × Nat × List Page)} (hs : s.step (.getPages result) = some t) : ThreadStep s t := by
  simp only [DirectSys.step] at hs
  split at hs
  next loc hphase hcall =>
    have hrun : s.phase.running := by rw [hphase]; rfl
    obtain ⟨-, hs⟩ := of_guard hs
    cases result with
    | error e =>
      cases hs
      exact ⟨rfl, hrun, rfl, ⟨rfl, rfl⟩, id⟩
    | ok r =>
      obtain ⟨-, rfl⟩ := of_guard_some hs
      exact ⟨rfl, hrun, rfl, ⟨rfl, rfl⟩, id⟩
  · cases hs

theorem of_nextPage {error : Option Err} (hs : s.step (.nextPage error) = some t) : ThreadStep s t := by
  simp only [DirectSys.step] at hs
  split at hs
  next loc hphase hcall =>
    have hrun : s.phase.running := by rw [hphase]; rfl
    split at hs
    next page pagevec hpages =>
      obtain ⟨-, hs⟩ := of_guard hs
      cases error with
      | some e =>
        cases hs
        exact ⟨rfl, hrun, rfl, ⟨rfl, rfl⟩, id⟩
      | none =>
        simp only [DirectSys.nextPage] at hs
        split_ifs at hs
        all_goals
          cases hs
          exact ⟨rfl, hrun, rfl, ⟨rfl, rfl⟩, id⟩
    · cases hs
  · cases hs

theorem of_resend (hs : s.step .resend = some t) : ThreadStep s t := by
  simp only [DirectSys.step] at hs
  split at hs
  next req reqs hphase hcall =>
    cases hs
    exact ⟨rfl, by rw [hphase]; rfl, rfl, ⟨rfl, rfl⟩, id⟩
  · cases hs

theorem of_addFailed (hs : s.step .addFailed = some t) : ThreadStep s t := by
  simp only [DirectSys.step, DirectSys.addFailed] at hs
  split at hs
  · split at hs
    next loc hphase =>
      have hrun : s.phase.running := by rw [hphase]; rfl
      split_ifs at hs
      all_goals
        cases hs
        exact ⟨rfl, hrun, rfl, ⟨rfl, rfl⟩, by simp [DirectReq.markRequestCommit]⟩
    next reqs _ hphase =>
      have hrun : s.phase.running := by rw [hphase]; rfl
      split_ifs at hs
      all_goals
        cases hs
        exact ⟨rfl, hrun, rfl, ⟨rfl, rfl⟩, by simp⟩
    · cases hs
    · cases hs
  · cases hs

theorem of_pageioComplete (hs : s.step .pageioComplete = some t) : ThreadStep s t := by
  simp only [DirectSys.step, DirectSys.pageioComplete] at hs
  obtain ⟨-, hs⟩ := of_guard hs
  split at hs
  next loc hphase =>
    have hrun : s.phase.running := by rw [hphase]; rfl
    obtain ⟨-, rfl⟩ := of_guard_some hs
    exact ⟨rfl, hrun, hrun, ⟨rfl, rfl⟩, id⟩
  next reqs stopped hphase =>
    have hrun : s.phase.running := by rw [hphase]; rfl
    obtain ⟨-, rfl⟩ := of_guard_some hs
    exact ⟨rfl, hrun, hrun, ⟨rfl, rfl⟩, id⟩
  · cases hs
  · cases hs

end ThreadStep

/-- Writes, commits and the work item take turns, and nothing happens after completion. -/
structure Modes (s : DirectSys shift) : Prop where
  ioCount : s.dreq.ioCount = s.hdrs.length + s.phase.refs
  rpcsOut : s.dreq.rpcsOut = s.commits.length
  writing : s.dreq.ioCount ≠ 0 → s.commits = [] ∧ s.work = false ∧ s.completed = false ∧ s.dreq.flags ≠ .done
  committing : s.commits ≠ [] → s.work = false ∧ s.completed = false
  complete : s.completed → s.work = false ∧ s.dreq.commitList = []
  call_eq : s.phase.running = false → s.call = none

/-- What `Modes` says while a write is going on. -/
abbrev Writing (s : DirectSys shift) : Prop :=
  s.commits = [] ∧ s.work = false ∧ s.completed = false ∧ s.dreq.flags ≠ .done

namespace Modes

theorem init (ioStart len : Nat) (wsize : U32) (maxretrans : Nat) :
    Modes (DirectSys.init ioStart len wsize maxretrans : DirectSys shift) :=
  ⟨rfl, rfl, fun _ => ⟨rfl, rfl, rfl, nofun⟩, nofun, nofun, nofun⟩

theorem of_writing (hw : s.Writing) (hio : s.dreq.ioCount = s.hdrs.length + s.phase.refs) (hrpcs : s.dreq.rpcsOut = 0)
    (hcall : s.phase.running = false → s.call = none) : Modes s :=
  ⟨hio, by rw [hrpcs, hw.1]; rfl, fun _ => hw, fun h => absurd hw.1 h, fun h => by simp [hw.2.2.1] at h, hcall⟩

theorem putDreq (hw : s.Writing) (hio : s.dreq.ioCount = s.hdrs.length + s.phase.refs + 1)
    (hrpcs : s.dreq.rpcsOut = 0) (hcall : s.phase.running = false → s.call = none) : Modes s.putDreq := by
  obtain ⟨hcom, hwork, hcmp, hflags⟩ := hw
  have hio' : s.dreq.ioCount - 1 = s.hdrs.length + s.phase.refs := by omega
  refine ⟨hio', by simp only [DirectSys.putDreq, hrpcs, hcom, length_nil], fun hne => ?_,
    fun h => absurd hcom h, fun h => ?_, hcall⟩
  · refine ⟨hcom, ?_, hcmp, hflags⟩
    simp only [DirectSys.putDreq, hwork, Bool.false_or, decide_eq_false_iff_not]
    exact hne
  · exact absurd (hcmp.symm.trans h) (by simp)

theorem commitEnd (hwork : s.work = false) (hcmp : s.completed = false) (hio : s.dreq.ioCount = 0)
    (hhdrs : s.hdrs = []) (hphase : s.phase = .idle) (hcall : s.call = none)
    (hrpcs : s.dreq.rpcsOut = s.commits.length + 1) : Modes s.commitEnd := by
  refine ⟨?_, ?_, fun h => absurd hio h, fun hne => ⟨?_, hcmp⟩, fun h => ?_, fun _ => hcall⟩
  · simp only [DirectSys.commitEnd, hio, hhdrs, hphase, Phase.refs, length_nil]
  · simp only [DirectSys.commitEnd, hrpcs, Nat.add_sub_cancel]
  · have hpos : s.commits.length ≠ 0 := fun h => hne (length_eq_zero_iff.mp h)
    simp only [DirectSys.commitEnd, hwork, Bool.false_or, decide_eq_false_iff_not, hrpcs, Nat.add_sub_cancel]
    exact hpos
  · exact absurd (hcmp.symm.trans h) (by simp)

theorem idle (h : Modes s) (hio : s.dreq.ioCount = 0) : s.hdrs = [] ∧ s.phase = .idle ∧ s.call = none := by
  have hsum := h.ioCount
  have hrefs : s.phase.refs = 0 := by omega
  have hphase : s.phase = .idle := by
    cases hp : s.phase with
    | idle => rfl
    | schedule loc => simp [hp, Phase.refs] at hrefs
    | reschedule reqs stopped => simp [hp, Phase.refs] at hrefs
    | gaveUp => simp [hp, Phase.refs] at hrefs
  exact ⟨length_eq_zero_iff.mp (by omega), hphase, h.call_eq (by rw [hphase]; rfl)⟩

theorem refs_of_running {phase : Phase shift} (h : phase.running) : phase.refs = 1 := by
  cases phase with
  | idle => cases h
  | gaveUp => cases h
  | schedule loc => rfl
  | reschedule reqs stopped => rfl

theorem of_running (h : Modes s) (hrun : s.phase.running) :
    s.dreq.ioCount = s.hdrs.length + 1 ∧ s.dreq.rpcsOut = 0 ∧ s.Writing := by
  have hio : s.dreq.ioCount = s.hdrs.length + 1 := by rw [h.ioCount, refs_of_running hrun]
  have hw := h.writing (by omega)
  exact ⟨hio, by rw [h.rpcsOut, hw.1]; rfl, hw⟩

/-- The scheduling thread keeps the modes. -/
theorem thread (h : Modes s) (hs : ThreadStep s t) : Modes t := by
  obtain ⟨hio, hrpcs, hcom, hwork, hcmp, hflags⟩ := h.of_running hs.running
  rw [hs.eq]
  refine .of_writing ⟨hcom, hwork, hcmp, hs.flags hflags⟩ ?_ (hs.refs.2.trans hrpcs) fun hidle => ?_
  · simp only [refs_of_running hs.running']
    exact hs.refs.1.trans hio
  · exact absurd (hs.running'.symm.trans hidle) nofun

theorem finish (hrun : s.phase.running) (hio : s.dreq.ioCount = s.hdrs.length + 1) (hrpcs : s.dreq.rpcsOut = 0)
    (hw : s.Writing) (hcall : s.call = none) : Modes s.finish := by
  unfold DirectSys.finish
  split
  next loc hphase =>
    split
    · exact .of_writing hw hio hrpcs fun _ => hcall
    · exact .putDreq hw hio hrpcs fun _ => hcall
  next reqs stopped hphase =>
    split
    · rw [DirectReq.markRequests_eq]
      exact .putDreq hw hio hrpcs fun _ => hcall
    · obtain ⟨n, heq, -⟩ := DirectReq.truncateRequests_eq reqs s.dreq
      rw [heq]
      exact .putDreq hw hio hrpcs fun _ => hcall
  next hphase => simp [hphase, Phase.running] at hrun
  next hphase => simp [hphase, Phase.running] at hrun

variable {i : Nat}

section
variable (h : Modes s) {data : CommitData shift}
include h

theorem writing_of_hdr (hget : s.hdrs[i]? = some hdr) : s.dreq.flags ≠ .done := by
  have hi := lt_of_getElem? hget
  have hsum := h.ioCount
  exact (h.writing (by omega)).2.2.2

theorem idle_of_commit (hget : s.commits[i]? = some data) :
    s.hdrs = [] ∧ s.phase = .idle ∧ s.call = none ∧ s.dreq.ioCount = 0 ∧ s.work = false ∧ s.completed = false := by
  have hi := lt_of_getElem? hget
  have hne : s.commits ≠ [] := ne_nil_of_length_pos (Nat.zero_lt_of_lt hi)
  have hio : s.dreq.ioCount = 0 := by
    by_contra hio
    exact hne (h.writing hio).1
  obtain ⟨hhdrs, hphase, hcall⟩ := h.idle hio
  exact ⟨hhdrs, hphase, hcall, hio, h.committing hne⟩

theorem ioCount_of_work (hwork : s.work) : s.dreq.ioCount = 0 := by
  by_contra hio
  simp [(h.writing hio).2.1] at hwork

theorem idle_of_work (hwork : s.work) : s.phase = .idle ∧ s.call = none :=
  (h.idle (h.ioCount_of_work hwork)).2

theorem release (hget : s.hdrs[i]? = some hdr)
    {dreq : DirectReq shift} (hio : dreq.ioCount = s.dreq.ioCount) (hrpcs : dreq.rpcsOut = s.dreq.rpcsOut)
    (hflags : dreq.flags ≠ .done) (hdr' : PgioHeader shift) : Modes (DirectSys.release { s with dreq } i hdr') := by
  have hi := lt_of_getElem? hget
  have hsum := h.ioCount
  obtain ⟨hcom, hwork, hcmp, -⟩ := h.writing (by omega)
  obtain ⟨hio', hrpcs', hflags'⟩ := dreq.writeCompletion_frame hdr' hflags
  refine .putDreq ⟨hcom, hwork, hcmp, hflags'⟩ ?_ ?_ h.call_eq
  · simp only [hio', hio, hsum, length_eraseIdx_of_lt hi]
    omega
  · have hzero := h.rpcsOut
    rw [hcom] at hzero
    exact hrpcs'.trans (hrpcs.trans hzero)

theorem acknowledge (offset count : Nat) (verf : WriteVerf) : Modes (s.acknowledge offset count verf) := by
  unfold DirectSys.acknowledge
  split <;> exact { h with }

theorem pageio (hrun : s.phase.running) (call : Call shift) (r : CallStep shift) : Modes (s.pageio call r) := by
  obtain ⟨hio, hrpcs, hw⟩ := h.of_running hrun
  have hio' : s.dreq.ioCount + r.hdr.toList.length = (s.hdrs ++ r.hdr.toList).length + 1 := by
    rw [hio, length_append]
    omega
  unfold DirectSys.pageio
  split
  next hend =>
    obtain ⟨-, hnone⟩ := Bool.and_eq_true_iff.mp hend
    exact .finish hrun hio' hrpcs hw (isNone_iff_eq_none.mp hnone)
  · refine .of_writing hw ?_ hrpcs fun hidle => ?_
    · simp only [refs_of_running hrun]
      exact hio'
    · simp [hrun] at hidle

theorem commitReply (hget : s.commits[i]? = some data) (reply : CommitReply) : Modes (s.commitReply i data reply) := by
  have hi := lt_of_getElem? hget
  obtain ⟨hhdrs, hphase, hcall, hio, hwork, hcmp⟩ := h.idle_of_commit hget
  have hrpcs : s.dreq.rpcsOut = (s.commits.eraseIdx i).length + 1 := by
    rw [h.rpcsOut, length_eraseIdx_of_lt hi]
    omega
  cases reply with
  | error status =>
    obtain ⟨hio', hrpcs'⟩ := s.dreq.commitComplete_frame status {} data.pages
    exact .commitEnd hwork hcmp (hio'.trans hio) hhdrs hphase hcall (hrpcs'.trans hrpcs)
  | committed verf =>
    obtain ⟨hio', hrpcs'⟩ := s.dreq.commitComplete_frame 0 verf data.pages
    unfold DirectSys.commitReply DirectSys.acknowledgeCommit
    dsimp only
    split
    · exact .commitEnd hwork hcmp (hio'.trans hio) hhdrs hphase hcall (hrpcs'.trans hrpcs)
    · exact .commitEnd hwork hcmp (hio'.trans hio) hhdrs hphase hcall (hrpcs'.trans hrpcs)

theorem scheduleWork (hwork : s.work) (maxretrans : Nat) (nomem : Bool) :
    Modes (s.writeScheduleWork maxretrans nomem) := by
  have hio := h.ioCount_of_work hwork
  have hcom : s.commits = [] := by
    by_contra hne
    simp [(h.committing hne).1] at hwork
  have hcmp : s.completed = false := by
    by_contra hne
    simp [(h.complete (by simpa using hne)).1] at hwork
  obtain ⟨hhdrs, hphase, hcall⟩ := h.idle hio
  have hrpcs : s.dreq.rpcsOut = 0 := by rw [h.rpcsOut, hcom]; rfl
  unfold DirectSys.writeScheduleWork
  split
  · unfold DirectSys.commitSchedule
    dsimp only
    split_ifs
    all_goals exact .commitEnd rfl hcmp hio hhdrs hphase hcall (by simp [hrpcs, hcom])
  · exact .of_writing ⟨hcom, rfl, hcmp, nofun⟩ (by simp [DirectSys.writeReschedule, hio, hhdrs, Phase.refs]) hrpcs fun _ => hcall
  all_goals
    obtain ⟨n, heq, -⟩ := DirectReq.truncateRequests_eq s.dreq.commitList
      { s.dreq with flags := .zero, commitList := [] }
    refine ⟨?_, ?_, fun hne => absurd ?_ hne, fun hne => absurd hcom hne, fun _ => ⟨rfl, ?_⟩, fun _ => hcall⟩
    all_goals simp only [DirectSys.writeClearReqs, heq]
    · exact h.ioCount
    · exact h.rpcsOut
    · exact hio

theorem step {e : DirectEvent} (hs : s.step e = some t) : Modes t := by
  cases e with
  | getPages result => exact h.thread (.of_getPages hs)
  | nextPage error => exact h.thread (.of_nextPage hs)
  | resend => exact h.thread (.of_resend hs)
  | pageio answers =>
    simp only [DirectSys.step] at hs
    split at hs
    next call hcall =>
      have hrun : s.phase.running := by
        by_contra hidle
        simp [h.call_eq (by simpa using hidle)] at hcall
      obtain ⟨r, -, rfl⟩ := map_eq_some_iff.mp hs
      exact h.pageio hrun call r
    · cases hs
  | addFailed => exact h.thread (.of_addFailed hs)
  | pageioComplete => exact h.thread (.of_pageioComplete hs)
  | writeReply i reply =>
    obtain ⟨hdr, hget, rfl⟩ := map_eq_some_iff.mp hs
    cases reply with
    | error status => exact h.release hget rfl rfl (h.writing_of_hdr hget) _
    | written count verf =>
      have h' := h.acknowledge hdr.argsOffset (min count hdr.argsCount) verf
      obtain ⟨hdreq, hhdrs⟩ := s.acknowledge_frame hdr.argsOffset (min count hdr.argsCount) verf
      unfold DirectSys.writeReply
      dsimp only
      split
      · refine { h' with ioCount := ?_ }
        rw [length_set]
        exact h'.ioCount
      · refine h'.release (hhdrs ▸ hget) rfl rfl ?_ _
        rw [hdreq]
        exact h.writing_of_hdr hget
  | rescheduleIo i =>
    obtain ⟨hdr, hget, rfl⟩ := map_eq_some_iff.mp hs
    simp only [DirectSys.rescheduleIo, DirectReq.writeRescheduleIo, DirectReq.markRequests_eq]
    refine h.release hget ?_ ?_ ?_ _
    · split <;> rfl
    · split <;> rfl
    · split
      · nofun
      · exact h.writing_of_hdr hget
  | commitReply i reply =>
    obtain ⟨data, hget, rfl⟩ := map_eq_some_iff.mp hs
    exact h.commitReply hget reply
  | scheduleWork maxretrans nomem =>
    obtain ⟨hwork, rfl⟩ := of_guard_some hs
    exact h.scheduleWork hwork maxretrans nomem

end

end Modes

end DirectSys

/-! ### What the counts rest on -/

/-- Every byte of the request is stable or was written with the verifier that the request has. -/
def Acked (stable : Nat → Prop) (unstable : List Unstable) (req : NfsPage shift) : Prop :=
  ∀ b, req.Has b → stable b ∨ ∃ u ∈ unstable, u.verf = req.wbVerf ∧ u.offset ≤ b ∧ b < u.offset + u.count

theorem Acked.mono {unstable unstable' : List Unstable} {req : NfsPage shift}
    (h : Acked stable unstable req) (hs : ∀ b, stable b → stable' b) (hu : unstable ⊆ unstable') :
    Acked stable' unstable' req := by
  intro b hb
  rcases h b hb with hb' | ⟨u, hmem, hu'⟩
  · exact .inl (hs b hb')
  · exact .inr ⟨u, hu hmem, hu'⟩

/-- A WRITE under way; what is behind it is stable. -/
structure PgioHeader.InFlight (stable : Nat → Prop) (hdr : PgioHeader shift) : Prop where
  tiles : Tiles hdr.ioStart hdr.pages (hdr.ioStart + hdr.goodBytes)
  offset_le : hdr.ioStart ≤ hdr.argsOffset
  end_eq : hdr.argsOffset + hdr.argsCount = hdr.ioStart + hdr.goodBytes
  count_pos : 0 < hdr.argsCount
  error_eq : hdr.iohdrError = false
  redo_eq : hdr.iohdrRedo = false
  stable : ∀ b, hdr.ioStart ≤ b → b < hdr.argsOffset → stable b

theorem PgioHeader.InFlight.mono (h : hdr.InFlight stable) (hs : ∀ b, stable b → stable' b) : hdr.InFlight stable' :=
  { h with stable := fun b hlo hhi => hs b (h.stable b hlo hhi) }

theorem PgioHeader.Fresh.inFlight (h : hdr.Fresh) (stable : Nat → Prop) : hdr.InFlight stable := by
  have hpos : 0 < hdr.goodBytes := by
    obtain ⟨first, rest, hpages⟩ := exists_cons_of_ne_nil h.nonempty
    have ht := h.tiles
    rw [hpages] at ht
    have hle := (Tiles.cons_iff.mp ht).2.le
    have := first.bytes_pos
    omega
  refine ⟨h.tiles, h.offset_eq.ge, by rw [h.offset_eq, h.count_eq], by rw [h.count_eq]; exact hpos, h.flags.1,
    h.flags.2.1, fun b hlo hhi => ?_⟩
  rw [h.offset_eq] at hhi
  omega

section
variable (desc : PgioDescriptor shift) (call : Option (Call shift))

/-- In `nfs_direct_write_schedule_iovec` all below `top` was sent or deferred, and the mirror has what follows. -/
structure Front (flags : OdirectFlags)
    (loc : ScheduleIovec) (top : Nat) : Prop where
  tiles : (∀ req, call ≠ some (.failed req)) →
    ∃ e, Tiles top (desc.mirror.pgList ++ heldBy call) e ∧ (0 ≤ loc.result → e = loc.pos)
  failed : ∀ req, call = some (.failed req) → desc.mirror.pgList = [] ∧
    (¬(desc.pgError < 0 ∧ desc.pgError ≠ negErrno .eagain) → Tiles top [req] loc.pos)
  adding : ∀ c, call = some c → c.completing = false → 0 ≤ loc.result
  defer : loc.defer → desc.mirror.pgList ++ heldBy call = [] ∧ flags = .reschedWrites

/-- The counterpart of `Front` in a reschedule. -/
structure Rear (error : Int) (flags : OdirectFlags)
    (reqs : List (NfsPage shift)) (stopped : Bool) : Prop where
  last : ∀ c, call = some c → c.completing → stopped ∨ reqs = []
  failed : ∀ req, call = some (.failed req) → desc.mirror.pgList = [] ∧ desc.pgError < 0
  stopped : stopped → desc.mirror.pgList ++ heldBy call = [] ∧
    (desc.pgError = negErrno .eagain → error < 0 ∨ flags = .reschedWrites)

end

namespace DirectSys
variable {s t : DirectSys shift} {top : Nat} {req other : NfsPage shift}

/-- The requests of `nfs_direct_write_reschedule`; those of the first scheduling lie behind everything that was sent. -/
def queue (s : DirectSys shift) : List (NfsPage shift) :=
  match s.phase with
  | .reschedule reqs _ => reqs ++ (s.desc.mirror.pgList ++ heldBy s.call)
  | .idle | .schedule _ | .gaveUp => []

/-- The requests that are worked on. -/
def live (s : DirectSys shift) : List (NfsPage shift) :=
  s.hdrs.flatMap (·.pages) ++ (s.commits.flatMap (·.pages) ++ (s.dreq.commitList ++ s.queue))

theorem spans_live (s : DirectSys shift) : spans s.live = spans (s.hdrs.flatMap (·.pages)) ∪
    (spans (s.commits.flatMap (·.pages)) ∪ (spans s.dreq.commitList ∪ spans s.queue)) := by
  simp only [live, spans_append]

def Thread (s : DirectSys shift) (top : Nat) : Prop :=
  match s.phase with
  | .schedule loc => Front s.desc s.call s.dreq.flags loc top
  | .reschedule reqs stopped => Rear s.desc s.call s.dreq.error s.dreq.flags reqs stopped
  | .idle | .gaveUp => True

theorem thread_idle (hphase : s.phase = .idle) : s.Thread top := by
  unfold Thread
  rw [hphase]
  trivial

/-- Below `max_count`, every byte up to `top` is stable or worked on. A COMMIT has the verifier of its WRITEs. -/
structure Ledger (len : Nat) (s : DirectSys shift) (top : Nat) : Prop where
  backed : Backed s.dreq.ioStart s.dreq.count s.dreq.maxCount top { b | s.Stable b } (spans s.live)
  limit : s.dreq.maxCount ≤ len
  mirrors : Mirrors s.desc
  inFlight : ∀ hdr ∈ s.hdrs, hdr.InFlight s.Stable
  acked : s.dreq.error < 0 ∨ s.dreq.flags = .reschedWrites ∨ ∀ req ∈ s.dreq.commitList, Acked s.Stable s.unstable req
  covered : ∀ data ∈ s.commits, data.covers ⊆ s.unstable ∧
    (s.dreq.error < 0 ∨ ∀ req ∈ data.pages, Acked s.Stable data.covers req)
  error_le : s.dreq.error ≤ 0
  thread : s.Thread top

namespace Ledger
variable {len i count b : Nat} {dreq : DirectReq shift} {old new : List (NfsPage shift)} {data : CommitData shift}
  {verf : WriteVerf} {error : Int}

theorem init (ioStart len : Nat) (wsize : U32) (maxretrans : Nat) :
    Ledger len (DirectSys.init ioStart len wsize maxretrans : DirectSys shift) ioStart := by
  refine ⟨⟨Nat.zero_le _, le_rfl, ?_, fun b hlo _ hhi => ?_⟩, le_rfl, .of_nil rfl, nofun, .inr (.inr nofun), nofun, le_rfl,
    fun _ => ⟨ioStart, rfl, fun _ => rfl⟩, nofun, nofun, nofun⟩
  · intro b hb
    simp [DirectSys.init, live, queue] at hb
  · exact absurd hhi (not_lt.mpr hlo)

section
variable (h : Ledger len s top)
include h

theorem front {loc : ScheduleIovec} (hphase : s.phase = .schedule loc) : Front s.desc s.call s.dreq.flags loc top := by
  have hthread := h.thread
  rwa [Thread, hphase] at hthread

theorem rear {reqs : List (NfsPage shift)} {stopped : Bool}
    (hphase : s.phase = .reschedule reqs stopped) : Rear s.desc s.call s.dreq.error s.dreq.flags reqs stopped := by
  have hthread := h.thread
  rwa [Thread, hphase] at hthread

theorem putDreq : Ledger len s.putDreq top := { h with }

theorem commitEnd : Ledger len s.commitEnd top := { h with }

/-- The server only ever acknowledges more. -/
theorem mono {stable : List (Nat × Nat)} {unstable : List Unstable}
    (hs : s.stable ⊆ stable) (hu : s.unstable ⊆ unstable) : Ledger len { s with stable, unstable } top := by
  have hstable : ∀ b, s.Stable b → ({ s with stable, unstable } : DirectSys shift).Stable b := by
    rintro b ⟨r, hr, hb⟩
    exact ⟨r, hs hr, hb⟩
  refine ⟨h.backed.settle hstable, h.limit, h.mirrors, fun hdr hmem => (h.inFlight hdr hmem).mono hstable, ?_, ?_, h.error_le,
    h.thread⟩
  · exact h.acked.imp_right (Or.imp_right fun hacked req hmem => (hacked req hmem).mono hstable hu)
  · intro data hmem
    obtain ⟨hcovers, hacked⟩ := h.covered data hmem
    refine ⟨fun u hmem => hu (hcovers hmem), hacked.imp_right fun hacked req hreq => ?_⟩
    exact (hacked req hreq).mono hstable fun _ hmem => hmem

theorem acknowledge (offset count : Nat) (verf : WriteVerf) : Ledger len (s.acknowledge offset count verf) top := by
  unfold DirectSys.acknowledge
  split
  · exact h.mono (subset_append_left _ _) fun _ hmem => hmem
  · exact h.mono (fun _ hmem => hmem) (subset_append_left _ _)

end

/-! Replies -/

/-- A reply takes the requests `old` from its header or commit, and the requests `new` go to the commit list. -/
structure Retires (s : DirectSys shift) (dreq : DirectReq shift) (top : Nat) (old new : List (NfsPage shift)) :
    Prop where
  start : dreq.ioStart = s.dreq.ioStart
  limit : dreq.maxCount ≤ s.dreq.maxCount
  count : dreq.count ≤ dreq.maxCount
  top : s.dreq.ioStart + dreq.count ≤ top
  list : dreq.commitList = s.dreq.commitList ++ new
  sub : spans new ⊆ spans old
  kept : ∀ b ∈ spans old, s.dreq.ioStart ≤ b → b < s.dreq.ioStart + dreq.maxCount → s.Stable b ∨ b ∈ spans new
  acked : dreq.error < 0 ∨ dreq.flags = .reschedWrites ∨ ∀ req ∈ dreq.commitList, Acked s.Stable s.unstable req
  error : s.dreq.error < 0 → dreq.error < 0
  error_le : dreq.error ≤ 0
  flags : s.phase.running → s.dreq.flags = .reschedWrites → dreq.flags = .reschedWrites

/-- What a reply must do for the ledger to hold after it. -/
theorem retired (h : Ledger len s top) (hr : Retires s dreq top old new) {hdrs : List (PgioHeader shift)}
    {commits : List (CommitData shift)} (hhdrs : hdrs ⊆ s.hdrs) (hcom : commits ⊆ s.commits)
    (hspans : spans (s.hdrs.flatMap (·.pages)) ∪ spans (s.commits.flatMap (·.pages)) =
      spans old ∪ (spans (hdrs.flatMap (·.pages)) ∪ spans (commits.flatMap (·.pages)))) :
    Ledger len { s with dreq, hdrs, commits } top := by
  have hbacked := h.backed
  rw [spans_live, ← union_assoc, hspans, union_assoc] at hbacked
  refine ⟨?_, hr.limit.trans h.limit, h.mirrors, fun hdr hmem => h.inFlight hdr (hhdrs hmem), hr.acked, fun data hmem => ?_,
    hr.error_le, ?_⟩
  · have hlive : spans ({ s with dreq, hdrs, commits } : DirectSys shift).live = spans new ∪
        (spans (hdrs.flatMap (·.pages)) ∪ spans (commits.flatMap (·.pages)) ∪ (spans s.dreq.commitList ∪ spans s.queue)) := by
      rw [spans_live]
      simp only [hr.list, spans_append]
      ac_rfl
    rw [hlive, hr.start]
    exact hbacked.exchange hr.limit hr.count hr.top hr.sub hr.kept
  · exact (h.covered data (hcom hmem)).imp_right (Or.imp_left hr.error)
  · have hthread := h.thread
    have hflags := hr.flags
    unfold Thread at hthread ⊢
    cases hphase : s.phase with
    | schedule loc =>
      rw [hphase] at hthread hflags
      exact { hthread with defer := fun hd => ⟨(hthread.defer hd).1, hflags rfl (hthread.defer hd).2⟩ }
    | reschedule reqs stopped =>
      rw [hphase] at hthread hflags
      refine { hthread with stopped := fun hst => ⟨(hthread.stopped hst).1, fun hagain => ?_⟩ }
      exact ((hthread.stopped hst).2 hagain).imp hr.error (hflags rfl)
    | idle => trivial
    | gaveUp => trivial

theorem spans_flatMap_eraseIdx {α : Type} {l : List α} {a : α} (hget : l[i]? = some a) (f : α → List (NfsPage shift)) :
    spans (l.flatMap f) = spans (f a) ∪ spans ((l.eraseIdx i).flatMap f) := by
  obtain ⟨hi, rfl⟩ := List.getElem?_eq_some_iff.mp hget
  conv_lhs => rw [← take_append_drop i l, drop_eq_getElem_cons hi]
  rw [eraseIdx_eq_take_drop_succ]
  simp only [flatMap_append, flatMap_cons, spans_append]
  exact Set.union_left_comm _ _ _

theorem removed (h : Ledger len s top) (hget : s.hdrs[i]? = some hdr) (hr : Retires s dreq top hdr.pages new) :
    Ledger len { s with dreq, hdrs := s.hdrs.eraseIdx i } top := by
  refine h.retired hr eraseIdx_subset (.refl _) ?_
  rw [spans_flatMap_eraseIdx hget, union_assoc]

theorem answered (h : Ledger len s top) (hget : s.commits[i]? = some data) (hr : Retires s dreq top data.pages new) :
    Ledger len { s with dreq, commits := s.commits.eraseIdx i } top := by
  refine h.retired hr (.refl _) eraseIdx_subset ?_
  rw [spans_flatMap_eraseIdx hget, Set.union_left_comm]

/-! Replies to WRITE -/

/-- A header as it is completed. -/
structure Final (s : DirectSys shift) (hdr hdr' : PgioHeader shift) : Prop where
  pages_eq : hdr'.pages = hdr.pages
  start_eq : hdr'.ioStart = hdr.ioStart
  redo_eq : hdr'.iohdrRedo = false
  outcome :
    (hdr'.iohdrError ∧ hdr'.error < 0 ∧ hdr'.ioStart + hdr'.goodBytes = hdr.argsOffset) ∨
    (hdr'.iohdrError = false ∧ hdr'.goodBytes = hdr.goodBytes ∧ hdr'.iohdrUnstableWrites = false ∧
      ∀ b ∈ spans hdr.pages, s.Stable b) ∨
    (hdr'.iohdrError = false ∧ hdr'.goodBytes = hdr.goodBytes ∧ hdr'.iohdrUnstableWrites ∧
      ∀ req ∈ hdr.pages, Acked s.Stable s.unstable { req with wbVerf := hdr'.verf.verifier })

theorem spans_map_verf (verf : U64) (reqs : List (NfsPage shift)) :
    spans (reqs.map fun req => { req with wbVerf := verf }) = spans reqs := by
  ext b
  simp only [mem_spans, mem_map, exists_exists_and_eq_and]
  rfl

variable {hdr' : PgioHeader shift}

/-- A completed header: its bytes are stable, or listed, or cut off by the error. -/
theorem release (h : Ledger len s top) (hdone : s.dreq.flags ≠ .done)
    (hget : s.hdrs[i]? = some hdr) (hfinal : Final s hdr hdr') : Ledger len (s.release i hdr') top := by
  have hin := h.inFlight hdr (mem_of_getElem? hget)
  have hle := h.backed.count_le
  have hctop := h.backed.count_top
  have hpos := hin.count_pos
  have heq := hin.end_eq
  have hoff := hin.offset_le
  have hmem := hin.tiles.mem_spans_iff
  have hend : hdr.ioStart + hdr.goodBytes ≤ top := by
    have hlast : hdr.ioStart + hdr.goodBytes - 1 ∈ spans s.live := by
      rw [spans_live, spans_flatMap_eraseIdx hget]
      exact .inl (.inl ((hmem _).mpr ⟨by omega, by omega⟩))
    have := h.backed.pending_lt _ hlast
    omega
  refine Ledger.putDreq ?_
  rcases hfinal.outcome with ⟨herror, hneg, hgood⟩ | ⟨herror, hgood, hstable, hall⟩ | ⟨herror, hgood, hunst, hall⟩
  · have hcut := s.dreq.countBytes_of_error herror hle
    rw [s.dreq.writeCompletion_of_released hfinal.redo_eq (.inl herror), hcut]
    have herror' : (if s.dreq.error = 0 then hdr'.error else s.dreq.error) < 0 := by
      have := h.error_le
      split <;> omega
    refine h.removed hget ⟨rfl, min_le_left _ _, le_rfl, ?_, (append_nil _).symm, by simp, fun b hb hlo hhi => ?_,
      .inl herror', fun _ => herror', herror'.le, fun _ => id⟩
    · dsimp only
      omega
    · dsimp only at hhi
      exact .inl (hin.stable b ((hmem b).mp hb).1 (by omega))
  · rw [s.dreq.writeCompletion_of_released hfinal.redo_eq (.inr hstable), s.dreq.countBytes_of_ok herror]
    refine h.removed hget ⟨rfl, le_rfl, ?_, ?_, (append_nil _).symm, by simp, fun b hb _ _ => .inl (hall b hb),
      h.acked, id, h.error_le, fun _ => id⟩
    · dsimp only
      omega
    · rw [hgood, hfinal.start_eq]
      dsimp only
      omega
  · have hok := s.dreq.countBytes_of_ok herror
    rw [hgood, hfinal.start_eq] at hok
    rcases s.dreq.writeCompletion_of_unstable hfinal.redo_eq herror hunst hdone with
      ⟨flags, -, hflags, hcompl⟩ | ⟨hflags, hcompl⟩
    · rw [hcompl, hok, hfinal.pages_eq]
      refine h.removed hget ⟨rfl, le_rfl, ?_, ?_, rfl, (spans_map_verf _ _).le, fun b hb _ _ => .inr ?_, ?_, id, h.error_le,
        fun _ => hflags⟩
      · dsimp only
        omega
      · dsimp only
        omega
      · rwa [spans_map_verf]
      · refine h.acked.imp_right (Or.imp hflags fun hold req hreq => ?_)
        rcases mem_append.mp hreq with hreq | hreq
        · exact hold req hreq
        · obtain ⟨orig, horig, rfl⟩ := mem_map.mp hreq
          exact hall orig horig
    · rw [hcompl, hok, hfinal.pages_eq]
      refine h.removed hget ⟨rfl, le_rfl, ?_, ?_, rfl, le_rfl, fun b hb _ _ => .inr hb, .inr (.inl hflags), id, h.error_le,
        fun _ => id⟩
      · dsimp only
        omega
      · dsimp only
        omega

theorem final_setPgioError (hin : hdr.InFlight s.Stable) {unstableWrites : Bool} (hneg : error < 0) :
    Final s hdr (PgioHeader.setPgioError { hdr with verf := verf, iohdrUnstableWrites := unstableWrites } error
      hdr.argsOffset) := by
  have hlt : hdr.argsOffset - hdr.ioStart < hdr.goodBytes := by
    have := hin.end_eq
    have := hin.count_pos
    have := hin.offset_le
    omega
  simp only [PgioHeader.setPgioError, hlt, if_true, hin.error_eq, Bool.false_eq_true, if_false]
  refine ⟨rfl, rfl, hin.redo_eq, .inl ⟨rfl, hneg, ?_⟩⟩
  dsimp only
  have := hin.offset_le
  omega

theorem stable_acknowledge {offset : Nat} (hverf : verf.committed ≠ nfsUnstable)
    (hlo : offset ≤ b) (hhi : b < offset + count) : (s.acknowledge offset count verf).Stable b := by
  rw [DirectSys.acknowledge, if_pos hverf]
  exact ⟨(offset, count), mem_append_right _ mem_cons_self, hlo, hhi⟩

theorem final_written (hin : hdr.InFlight (s.acknowledge hdr.argsOffset (min count hdr.argsCount) verf).Stable)
    (hfull : ¬count < hdr.argsCount) :
    Final (s.acknowledge hdr.argsOffset (min count hdr.argsCount) verf) hdr (hdr.writebackDone verf) := by
  rw [min_eq_right (not_lt.mp hfull)] at hin ⊢
  have hmem := hin.tiles.mem_spans_iff
  have hrest : ∀ b ∈ spans hdr.pages, (s.acknowledge hdr.argsOffset hdr.argsCount verf).Stable b ∨
      hdr.argsOffset ≤ b ∧ b < hdr.argsOffset + hdr.argsCount := by
    intro b hb
    obtain ⟨hlo, hhi⟩ := (hmem b).mp hb
    by_cases hb' : b < hdr.argsOffset
    · exact .inl (hin.stable b hlo hb')
    · have := hin.end_eq
      exact .inr ⟨not_lt.mp hb', by omega⟩
  refine ⟨rfl, rfl, hin.redo_eq, ?_⟩
  right
  by_cases hverf : verf.committed = nfsUnstable
  · right
    refine ⟨hin.error_eq, rfl, by simp [PgioHeader.writebackDone, hverf], fun req hreq b hb => ?_⟩
    refine (hrest b ⟨req, hreq, hb⟩).imp_right fun hb' => ?_
    rw [DirectSys.acknowledge, if_neg (not_not.mpr hverf)]
    exact ⟨⟨hdr.argsOffset, hdr.argsCount, verf.verifier⟩, mem_append_right _ mem_cons_self, rfl, hb'⟩
  · have hall : ∀ b ∈ spans hdr.pages, (s.acknowledge hdr.argsOffset hdr.argsCount verf).Stable b := by
      intro b hb
      rcases hrest b hb with hb' | ⟨hlo, hhi⟩
      · exact hb'
      · exact stable_acknowledge hverf hlo hhi
    cases hold : hdr.iohdrUnstableWrites with
    | false =>
      left
      refine ⟨hin.error_eq, rfl, ?_, hall⟩
      simp only [PgioHeader.writebackDone, hold, Bool.false_or, decide_eq_false_iff_not]
      exact hverf
    | true =>
      right
      exact ⟨hin.error_eq, rfl, by simp [PgioHeader.writebackDone, hold], fun req hreq b hb => .inl (hall b ⟨req, hreq, hb⟩)⟩

theorem restart (h : Ledger len s top) (hget : s.hdrs[i]? = some hdr)
    (hpages : hdr'.pages = hdr.pages) (hin : hdr'.InFlight s.Stable) : Ledger len { s with hdrs := s.hdrs.set i hdr' } top := by
  have hset : (s.hdrs.set i hdr')[i]? = some hdr' := getElem?_set_self (lt_of_getElem? hget)
  have hlive : spans ({ s with hdrs := s.hdrs.set i hdr' } : DirectSys shift).live = spans s.live := by
    rw [spans_live, spans_live, spans_flatMap_eraseIdx hget, spans_flatMap_eraseIdx hset, eraseIdx_set_eq, hpages]
    rfl
  refine { h with backed := hlive ▸ h.backed, inFlight := fun other hmem => ?_ }
  rcases mem_or_eq_of_mem_set hmem with hmem | rfl
  · exact h.inFlight other hmem
  · exact hin

/-- A reply to a WRITE restarts the header behind what it made stable, or completes it. -/
theorem writebackResult_spec (hin : hdr.InFlight (s.acknowledge hdr.argsOffset (min count hdr.argsCount) verf).Stable) :
    let r := (hdr.writebackDone verf).writebackResult count
    (r.2 ∧ r.1.pages = hdr.pages ∧
      r.1.InFlight (s.acknowledge hdr.argsOffset (min count hdr.argsCount) verf).Stable) ∨
    r.2 = false ∧ Final (s.acknowledge hdr.argsOffset (min count hdr.argsCount) verf) hdr r.1 := by
  intro r
  by_cases hfull : count < hdr.argsCount
  · by_cases hzero : count = 0
    · have hr : r = ((hdr.writebackDone verf).setPgioError (negErrno .eio) hdr.argsOffset, false) :=
        (if_pos hfull).trans (if_pos hzero)
      rw [hr]
      exact .inr ⟨rfl, final_setPgioError hin (by decide)⟩
    · by_cases hverf : verf.committed = nfsUnstable
      · have hr : r = (hdr.writebackDone verf, true) :=
          (if_pos hfull).trans ((if_neg hzero).trans (if_neg (not_not.mpr hverf)))
        rw [hr]
        exact .inl ⟨rfl, rfl, hin.tiles, hin.offset_le, hin.end_eq, hin.count_pos, hin.error_eq, hin.redo_eq, hin.stable⟩
      · have hr : r = ({ hdr.writebackDone verf with argsOffset := hdr.argsOffset + count
                                                     argsCount := hdr.argsCount - count }, true) :=
          (if_pos hfull).trans ((if_neg hzero).trans (if_pos hverf))
        rw [hr]
        have heq := hin.end_eq
        refine Or.inl ⟨rfl, rfl, hin.tiles, hin.offset_le.trans (Nat.le_add_right _ _), ?_, Nat.sub_pos_of_lt hfull,
          hin.error_eq, hin.redo_eq, fun b hlo hhi => ?_⟩
        · simp only [PgioHeader.writebackDone]
          omega
        · simp only [PgioHeader.writebackDone] at hlo hhi
          by_cases hb : b < hdr.argsOffset
          · exact hin.stable b hlo hb
          · refine stable_acknowledge hverf (not_lt.mp hb) ?_
            omega
  · have hr : r = (hdr.writebackDone verf, false) := if_neg hfull
    rw [hr]
    exact .inr ⟨rfl, final_written hin hfull⟩

theorem writeReply (h : Ledger len s top) (hdone : s.dreq.flags ≠ .done)
    (hget : s.hdrs[i]? = some hdr) (reply : WriteReply) : Ledger len (s.writeReply i hdr reply) top := by
  cases reply with
  | error status =>
    exact h.release hdone hget (final_setPgioError (h.inFlight hdr (mem_of_getElem? hget)) status.property)
  | written count verf =>
    have h' := h.acknowledge hdr.argsOffset (min count hdr.argsCount) verf
    obtain ⟨hdreq, hhdrs⟩ := s.acknowledge_frame hdr.argsOffset (min count hdr.argsCount) verf
    have hget' : (s.acknowledge hdr.argsOffset (min count hdr.argsCount) verf).hdrs[i]? = some hdr := hhdrs ▸ hget
    have hspec := writebackResult_spec (h'.inFlight hdr (mem_of_getElem? hget'))
    simp only [DirectSys.writeReply]
    rcases hspec with ⟨hrst, hpages, hin⟩ | ⟨hrst, hfinal⟩
    · rw [if_pos hrst]
      exact h'.restart hget' hpages hin
    · rw [if_neg (by simp [hrst])]
      exact h'.release (hdreq ▸ hdone) hget' hfinal

theorem rescheduleIo (h : Ledger len s top) (hget : s.hdrs[i]? = some hdr) : Ledger len (s.rescheduleIo i hdr) top := by
  refine Ledger.putDreq ?_
  simp only [DirectReq.markRequests_eq]
  have hle := h.error_le
  have hflags : ∀ flags, s.dreq.error < 0 ∨ flags = .reschedWrites →
      (s.dreq.flags = .reschedWrites → flags = .reschedWrites) → Ledger len { s with
        dreq := { s.dreq with flags, commitList := s.dreq.commitList ++ hdr.pages }, hdrs := s.hdrs.eraseIdx i } top :=
    fun flags hacked hflags => h.removed hget ⟨rfl, le_rfl, h.backed.count_le, h.backed.count_top, rfl, le_rfl,
      fun b hb _ _ => .inr hb, hacked.imp_right .inl, id, h.error_le, fun _ => hflags⟩
  split
  · exact hflags .reschedWrites (.inr rfl) fun _ => rfl
  next herror => exact hflags s.dreq.flags (.inl (by omega)) id

/-! Replies to COMMIT -/

theorem beyond_of_truncated {n start : Nat} {reqs : List (NfsPage shift)} (hn : ∀ req ∈ reqs, n ≤ req.reqOffset - start)
    (hb : b ∈ spans reqs) (hlo : start ≤ b) : start + n ≤ b := by
  obtain ⟨req, hreq, hb⟩ := hb
  have hle := hn req hreq
  have := hb.1
  omega

theorem truncated (h : Ledger len s top) (hphase : s.phase = .idle) (hget : s.commits[i]? = some data)
    {flags : OdirectFlags} (hneg : error < 0) :
    Ledger len { s with dreq := { s.dreq with error, flags }.truncateRequests data.pages
                        commits := s.commits.eraseIdx i } top := by
  obtain ⟨n, heq, hn⟩ := DirectReq.truncateRequests_eq data.pages { s.dreq with error, flags }
  have htop := h.backed.count_top
  rw [heq]
  refine h.answered hget ⟨rfl, min_le_left _ _, min_le_min_right n h.backed.count_le, ?_, (append_nil _).symm, by simp,
    fun b hb hlo hhi => ?_, .inl hneg, fun _ => hneg, hneg.le, hphase ▸ nofun⟩
  · dsimp only
    omega
  · have := beyond_of_truncated hn hb hlo
    dsimp only at this hhi
    omega

/-- A COMMIT confirms what was written with its verifier and puts the rest back. -/
theorem commitReply (h : Ledger len s top) (hphase : s.phase = .idle) (hget : s.commits[i]? = some data)
    (reply : CommitReply) : Ledger len (s.commitReply i data reply) top := by
  cases reply with
  | error status =>
    refine Ledger.commitEnd ?_
    rw [DirectReq.commitComplete, if_pos status.property, DirectReq.foldl_commitRequest_of_error status.property]
    exact h.truncated hphase hget status.property
  | committed verf =>
    have h' : Ledger len (s.acknowledgeCommit data.covers verf) top := by
      unfold DirectSys.acknowledgeCommit
      split
      · exact h.mono (subset_append_left _ _) fun _ hmem => hmem
      · exact h
    have hframe : (s.acknowledgeCommit data.covers verf).commits = s.commits ∧
        (s.acknowledgeCommit data.covers verf).phase = s.phase := by
      unfold DirectSys.acknowledgeCommit
      split <;> exact ⟨rfl, rfl⟩
    have hconfirmed : ∀ u ∈ data.covers, nfsUnstable < verf.committed → u.verf = verf.verifier → ∀ b, u.offset ≤ b →
        b < u.offset + u.count → (s.acknowledgeCommit data.covers verf).Stable b := by
      intro u hu hcommitted hverf b hlo hhi
      rw [DirectSys.acknowledgeCommit, if_pos hcommitted]
      refine ⟨(u.offset, u.count), mem_append_right _ (mem_map.mpr ⟨u, ?_, rfl⟩), hlo, hhi⟩
      exact mem_filter.mpr ⟨hu, by simpa using hverf⟩
    simp only [DirectSys.commitReply]
    generalize s.acknowledgeCommit data.covers verf = s' at h' hframe hconfirmed
    rw [← hframe.1] at hget
    have hph := hframe.2.trans hphase
    refine Ledger.commitEnd ?_
    rw [DirectReq.commitComplete, if_neg (by decide)]
    by_cases herror : s'.dreq.error < 0
    · rw [DirectReq.foldl_commitRequest_of_error herror]
      exact h'.truncated hph hget herror
    · obtain ⟨flags, hflags, heq⟩ := DirectReq.foldl_commitRequest_of_ok herror verf data.pages s'.dreq
      rw [heq]
      obtain ⟨hcovers, hacked⟩ := h'.covered data (mem_of_getElem? hget)
      replace hacked := hacked.resolve_left herror
      refine h'.answered hget ⟨rfl, le_rfl, h'.backed.count_le, h'.backed.count_top, rfl, fun b hb => ?_, fun b hb _ _ => ?_, ?_,
        id, h'.error_le, fun _ => hflags⟩
      · obtain ⟨req, hreq, hb⟩ := hb
        obtain ⟨orig, horig, rfl⟩ := mem_map.mp hreq
        exact ⟨orig, (mem_filter.mp horig).1, hb⟩
      · obtain ⟨req, hreq, hb⟩ := hb
        by_cases hmatch : nfsWriteMatchVerf verf req
        · -- the verifier was that of the write, so the reply confirms the byte
          obtain ⟨hcommitted, hverf⟩ := Bool.and_eq_true_iff.mp hmatch
          rcases hacked req hreq b hb with hb' | ⟨u, hu, huverf, hlo, hhi⟩
          · exact .inl hb'
          · exact .inl (hconfirmed u hu (of_decide_eq_true hcommitted) (huverf.trans (of_decide_eq_true hverf)) b hlo hhi)
        · exact .inr ⟨_, mem_map.mpr ⟨req, mem_filter.mpr ⟨hreq, by simpa using hmatch⟩, rfl⟩, hb⟩
      · refine h'.acked.imp_right (Or.imp hflags fun hold req hreq => ?_)
        rcases mem_append.mp hreq with hreq | hreq
        · exact hold req hreq
        · obtain ⟨orig, horig, rfl⟩ := mem_map.mp hreq
          exact (hacked orig (mem_filter.mp horig).1).mono (fun _ hb => hb) hcovers

end Ledger

/-! ### Page groups are joined -/

theorem has_joinPageGroup (hsame : req.sameGroup other) {b : Nat} (hb : req.Has b) : other.joinPageGroup.Has b := by
  obtain ⟨hindex, hhead⟩ := of_decide_eq_true hsame
  have hbase := req.base_le
  have hend := req.end_le
  have hoffset := req.offset_eq
  simp only [NfsPage.Has, NfsPage.reqOffset, NfsPage.joinPageGroup, ← hindex, ← hhead] at hb ⊢
  omega

theorem reqOffset_joinPageGroup_le (req : NfsPage shift) : req.joinPageGroup.reqOffset ≤ req.reqOffset := by
  have hbase := req.base_le
  have hoffset := req.offset_eq
  simp only [NfsPage.reqOffset, NfsPage.joinPageGroup]
  omega

theorem sameGroup_trans {third : NfsPage shift} (h : req.sameGroup other)
    (h' : other.sameGroup third) : req.sameGroup third := by
  obtain ⟨hindex, hhead⟩ := of_decide_eq_true h
  obtain ⟨hindex', hhead'⟩ := of_decide_eq_true h'
  exact decide_eq_true ⟨hindex.trans hindex', hhead.trans hhead'⟩

theorem sameGroup_refl (req : NfsPage shift) : req.sameGroup req := decide_eq_true ⟨rfl, rfl⟩

theorem mem_directJoinGroup : ∀ {reqs joined : List (NfsPage shift)} {g : NfsPage shift},
    g ∈ directJoinGroup joined reqs → ∃ req ∈ reqs, g = req.joinPageGroup
  | [], _, _, h => by cases h
  | req :: reqs, joined, g, h => by
    simp only [directJoinGroup] at h
    split at h
    · obtain ⟨other, hmem, heq⟩ := mem_directJoinGroup h
      exact ⟨other, mem_cons_of_mem _ hmem, heq⟩
    · split at h
      · rcases mem_cons.mp h with rfl | h
        · exact ⟨req, mem_cons_self, rfl⟩
        · obtain ⟨other, hmem, heq⟩ := mem_directJoinGroup h
          exact ⟨other, mem_cons_of_mem _ hmem, heq⟩
      · obtain ⟨other, hmem, heq⟩ := mem_directJoinGroup h
        exact ⟨other, mem_cons_of_mem _ hmem, heq⟩

/-- No request is lost as groups are joined. -/
theorem directJoinGroup_covers : ∀ (reqs joined : List (NfsPage shift)), ∀ req ∈ reqs,
    joined.any req.sameGroup ∨ ∃ other, req.sameGroup other ∧ other.joinPageGroup ∈ directJoinGroup joined reqs
  | [], _, _, h => by cases h
  | first :: reqs, joined, req, h => by
    simp only [directJoinGroup]
    split
    next hjoined =>
      rcases mem_cons.mp h with rfl | h
      · exact .inl hjoined
      · exact directJoinGroup_covers reqs joined req h
    next hjoined =>
      split
      · rcases mem_cons.mp h with rfl | h
        · exact .inr ⟨req, sameGroup_refl req, mem_cons_self⟩
        · rcases directJoinGroup_covers reqs (first :: joined) req h with hany | ⟨other, hsame, hmem⟩
          · rcases Bool.or_eq_true_iff.mp (any_cons ▸ hany) with hfirst | hany
            · exact .inr ⟨first, hfirst, mem_cons_self⟩
            · exact .inl hany
          · exact .inr ⟨other, hsame, mem_cons_of_mem _ hmem⟩
      next hlater =>
        rcases mem_cons.mp h with rfl | h
        · -- the head of the group is on the list and takes this request with it
          have hlater : reqs.any (fun other => other.isHead && req.sameGroup other) := by
            by_contra hnone
            exact hlater (Bool.or_eq_true_iff.mpr (.inr (by simpa using hnone)))
          obtain ⟨head, hmem, hhead⟩ := any_eq_true.mp hlater
          have hsame := (Bool.and_eq_true_iff.mp hhead).2
          rcases directJoinGroup_covers reqs joined head hmem with hany | ⟨other, hsame', hmem'⟩
          · obtain ⟨other, hother, hsame'⟩ := any_eq_true.mp hany
            exact .inl (any_eq_true.mpr ⟨other, hother, sameGroup_trans hsame hsame'⟩)
          · exact .inr ⟨other, sameGroup_trans hsame hsame', hmem'⟩
        · exact directJoinGroup_covers reqs joined req h

theorem spans_subset_directJoinGroup (reqs : List (NfsPage shift)) : spans reqs ⊆ spans (directJoinGroup [] reqs) := by
  rintro b ⟨req, hreq, hb⟩
  rcases directJoinGroup_covers reqs [] req hreq with hany | ⟨other, hsame, hmem⟩
  · simp at hany
  · exact ⟨other.joinPageGroup, hmem, has_joinPageGroup hsame hb⟩

/-- Requests that start below `top` reach some `top'` without a gap. -/
theorem exists_top {top : Nat} : ∀ {reqs : List (NfsPage shift)}, (∀ req ∈ reqs, req.reqOffset ≤ top) →
    ∃ top', top ≤ top' ∧ (∀ b ∈ spans reqs, b < top') ∧ ∀ b, top ≤ b → b < top' → b ∈ spans reqs
  | [], _ => ⟨top, le_rfl, by simp, fun b hlo hhi => absurd hhi (not_lt.mpr hlo)⟩
  | req :: reqs, h => by
    obtain ⟨top', hle, hlt, hall⟩ := exists_top fun other hmem => h other (mem_cons_of_mem req hmem)
    have hstart := h req mem_cons_self
    refine ⟨max top' (req.reqOffset + req.wbBytes), hle.trans (le_max_left _ _), fun b hb => ?_, fun b hlo hhi => ?_⟩
    · rw [spans_cons] at hb
      rcases hb with hb | hb
      · exact lt_max_of_lt_right hb.2
      · exact lt_max_of_lt_left (hlt b hb)
    · rw [spans_cons]
      by_cases hb : b < top'
      · exact .inr (hall b hlo hb)
      · refine Or.inl ⟨hstart.trans hlo, ?_⟩
        omega

namespace Ledger

/-! The work item -/

abbrev started (s : DirectSys shift) : DirectSys shift :=
  { s with dreq := { s.dreq with flags := .zero }, work := false }

variable {len : Nat} {reqs : List (NfsPage shift)} {loc : ScheduleIovec}

theorem commitSchedule (h : Ledger len s top) (hphase : s.phase = .idle)
    (hacked : s.dreq.error < 0 ∨ ∀ req ∈ s.dreq.commitList, Acked s.Stable s.unstable req) (nomem : Bool) :
    Ledger len (s.commitSchedule nomem) top := by
  unfold DirectSys.commitSchedule
  split
  · exact { h with thread := thread_idle hphase }
  · split
    · exact { h with acked := hacked.imp_right Or.inr, thread := thread_idle hphase }
    · have hlive : spans ({ s with
          dreq := { s.dreq with commitList := [], rpcsOut := s.dreq.rpcsOut + 2 }
          commits := s.commits ++ [⟨s.dreq.commitList, s.unstable⟩] } : DirectSys shift).live = spans s.live := by
        rw [spans_live, spans_live]
        simp only [flatMap_append, flatMap_singleton, spans_append, spans_nil, Set.empty_union, union_assoc]
        rfl
      refine Ledger.commitEnd ⟨hlive ▸ h.backed, h.limit, h.mirrors, h.inFlight, .inr (.inr nofun), fun data hmem => ?_,
        h.error_le, thread_idle hphase⟩
      rcases mem_append.mp hmem with hmem | hmem
      · exact h.covered data hmem
      · obtain rfl := mem_singleton.mp hmem
        exact ⟨fun _ hu => hu, hacked⟩

/-- Joined groups may reach further up, never leaving a gap. -/
theorem writeReschedule (h : Ledger len s top) (hphase : s.phase = .idle) (hcall : s.call = none)
    (maxretrans : Nat) : ∃ top', Ledger len ((started s).writeReschedule maxretrans) top' := by
  have hbacked := h.backed
  rw [spans_live, queue, hphase, spans_nil, union_empty, ← union_assoc] at hbacked
  have hbelow : ∀ g ∈ directJoinGroup [] s.dreq.commitList, g.reqOffset ≤ top := by
    intro g hg
    obtain ⟨req, hreq, rfl⟩ := mem_directJoinGroup hg
    have hfirst := hbacked.pending_lt _ (.inr ⟨req, hreq, le_rfl, Nat.lt_add_of_pos_right req.bytes_pos⟩)
    exact (reqOffset_joinPageGroup_le req).trans hfirst.le
  obtain ⟨top', hle, hlt, hall⟩ := exists_top hbelow
  have hlive : spans ((started s).writeReschedule maxretrans).live = spans (s.hdrs.flatMap (·.pages)) ∪
      spans (s.commits.flatMap (·.pages)) ∪ spans (directJoinGroup [] s.dreq.commitList) := by
    rw [spans_live, union_assoc]
    simp [DirectSys.writeReschedule, queue, heldBy, hcall]
  have hnone : ((started s).writeReschedule maxretrans).call = none := hcall
  refine ⟨top', ?_, h.limit, .of_nil rfl, h.inFlight, .inr (.inr fun _ h => absurd h not_mem_nil), h.covered,
    h.error_le, by simp [hnone], by simp [hnone], by simp⟩
  rw [hlive]
  refine hbacked.extend hle (Set.union_subset_union_right _ (spans_subset_directJoinGroup _)) (fun b hb => ?_)
    fun b hlo hhi => .inr (hall b hlo hhi)
  rcases hb with hb | hb
  · exact lt_of_lt_of_le (hbacked.pending_lt b (.inl hb)) hle
  · exact hlt b hb

/-- Requests that are given up cut the range off before them. -/
theorem backed_truncated {start count limit n : Nat} {settled rest : Set Nat}
    (h : Backed start count limit top settled (spans reqs ∪ rest)) (hn : ∀ req ∈ reqs, n ≤ req.reqOffset - start) :
    Backed start (min count n) (min limit n) top settled rest := by
  have htop := h.count_top
  have hcut : Backed start (min count n) (min limit n) top settled (∅ ∪ rest) := by
    refine h.exchange (min_le_left _ _) (min_le_min_right n h.count_le) (by omega) (Set.empty_subset _) fun b hb hlo hhi => ?_
    have := beyond_of_truncated hn hb hlo
    omega
  rwa [Set.empty_union] at hcut

theorem writeClearReqs (h : Ledger len s top) (hphase : s.phase = .idle) : Ledger len (started s).writeClearReqs top := by
  obtain ⟨n, heq, hn⟩ := DirectReq.truncateRequests_eq s.dreq.commitList { s.dreq with flags := .zero, commitList := [] }
  have hbacked := h.backed
  rw [spans_live, Set.union_left_comm (spans (s.commits.flatMap _)), Set.union_left_comm] at hbacked
  unfold DirectSys.writeClearReqs
  rw [heq]
  refine ⟨?_, (min_le_left _ _).trans h.limit, h.mirrors, h.inFlight, .inr (.inr nofun), h.covered, h.error_le,
    thread_idle hphase⟩
  rw [spans_live, spans_nil, Set.empty_union]
  exact backed_truncated hbacked hn

theorem scheduleWork (h : Ledger len s top) (hphase : s.phase = .idle) (hcall : s.call = none)
    (maxretrans : Nat) (nomem : Bool) : ∃ top', Ledger len (s.writeScheduleWork maxretrans nomem) top' := by
  unfold DirectSys.writeScheduleWork
  split
  next hflags =>
    have hacked : s.dreq.error < 0 ∨ ∀ req ∈ s.dreq.commitList, Acked s.Stable s.unstable req := by
      refine h.acked.imp_right fun hacked => hacked.resolve_left ?_
      rw [hflags]
      nofun
    have hstart : Ledger len (started s) top := { h with acked := hacked.imp_right Or.inr, thread := thread_idle hphase }
    exact ⟨top, hstart.commitSchedule hphase hacked nomem⟩
  · exact h.writeReschedule hphase hcall maxretrans
  · exact ⟨top, h.writeClearReqs hphase⟩
  · exact ⟨top, h.writeClearReqs hphase⟩

/-! The scheduling thread -/

theorem scheduling (h : Ledger len s top) {loc' : ScheduleIovec} (hphase : s.phase = .schedule loc)
    {call : Option (Call shift)} (hfront : Front s.desc call s.dreq.flags loc' top) :
    Ledger len { s with phase := .schedule loc', call } top := by
  have hlive : ({ s with phase := .schedule loc', call } : DirectSys shift).live = s.live := by
    simp [live, queue, hphase]
  exact { h with backed := hlive ▸ h.backed, thread := hfront }

theorem spans_eq_of_tiles {a e : Nat} (h : Tiles a reqs e) : spans reqs = { b | a ≤ b ∧ b < e } :=
  Set.ext h.mem_spans_iff

section
variable (h : Ledger len s top)
include h

/-- A request that is put off is the next in the range. -/
theorem deferred {loc' : ScheduleIovec} (hphase : s.phase = .schedule loc)
    {dreq : DirectReq shift} {desc : PgioDescriptor shift}
    {call : Option (Call shift)} (hreq : Tiles top [req] loc'.pos) (hnil : desc.mirror.pgList = []) (hcall : call = none)
    (hdreq : dreq = { s.dreq with flags := .reschedWrites, commitList := s.dreq.commitList ++ [req] }) :
    Ledger len { s with phase := .schedule loc', call, desc, dreq } loc'.pos := by
  subst hcall hdreq
  have hbacked := h.backed.grow hreq.le
  rw [← spans_eq_of_tiles hreq, spans_live, queue, hphase] at hbacked
  refine ⟨?_, h.limit, .of_nil hnil, h.inFlight, .inr (.inl rfl), h.covered, h.error_le, fun _ => ⟨_, ?_, fun _ => rfl⟩, nofun, nofun,
    fun _ => ⟨?_, rfl⟩⟩
  · simp only [spans_nil, union_empty, union_assoc] at hbacked
    simp only [spans_live, queue, spans_append, spans_nil, union_empty]
    exact hbacked
  · simp [hnil, heldBy]
  · simp [hnil, heldBy]

theorem getPages (hphase : s.phase = .schedule loc) (hcall : s.call = none) (hresult : 0 ≤ loc.result)
    {result : Except Err (Nat × Nat × List Page)} (hs : s.getPages loc result = some t) : Ledger len t top := by
  obtain ⟨htiles, -, -, hdefer⟩ := h.front hphase
  obtain ⟨e, htiles, he⟩ := htiles (by simp [hcall])
  cases result with
  | error error =>
    cases hs
    refine h.scheduling hphase ?_
    rw [hcall] at htiles hdefer ⊢
    exact ⟨fun _ => ⟨e, htiles, fun hle => absurd hle (not_le.mpr error.property)⟩, nofun, nofun, hdefer⟩
  | ok r =>
    obtain ⟨-, rfl⟩ := of_guard_some hs
    refine h.scheduling hphase ?_
    rw [hcall] at htiles hdefer ⊢
    exact ⟨fun _ => ⟨e, htiles, fun _ => he hresult⟩, nofun, nofun, hdefer⟩

theorem nextPage (hphase : s.phase = .schedule loc) (hcall : s.call = none) (hresult : 0 ≤ loc.result)
    {page : Page} {pagevec : List Page} {error : Option Err} (hs : s.nextPage loc page pagevec error = some t) :
    ∃ top', Ledger len t top' := by
  obtain ⟨htiles, -, -, hdefer⟩ := h.front hphase
  obtain ⟨e, htiles, he⟩ := htiles (by simp [hcall])
  obtain rfl := he hresult
  rw [hcall] at htiles hdefer
  have hstop : ∀ error : Int, error < 0 → Ledger len { s with phase := .schedule { loc with result := error } } top := by
    intro error herror
    refine h.scheduling hphase ?_
    rw [hcall]
    exact ⟨fun _ => ⟨_, htiles, fun hle => absurd hle (not_le.mpr herror)⟩, nofun, nofun, hdefer⟩
  cases error with
  | some error =>
    cases hs
    exact ⟨top, hstop error error.property⟩
  | none =>
    simp only [DirectSys.nextPage] at hs
    split at hs
    next herror =>
      cases hs
      exact ⟨top, hstop _ herror⟩
    · split at hs
      next hbytes =>
        have hpos : 0 < min loc.bytes (2 ^ shift - loc.pgbase) := lt_min hbytes.1 (Nat.sub_pos_of_lt hbytes.2)
        have hfits : loc.pgbase + min loc.bytes (2 ^ shift - loc.pgbase) ≤ WbMem.maxLength shift (.page page) := by
          simp only [WbMem.maxLength]
          omega
        have hoffset : (NfsPage.create (.page page) loc.pgbase (loc.pos / 2 ^ shift) (loc.pos % 2 ^ shift)
            (min loc.bytes (2 ^ shift - loc.pgbase)) s.dreq.ctx s.dreq.lockowner hpos hfits).reqOffset = loc.pos := by
          exact Nat.div_add_mod' _ _
        split at hs
        next hd =>
          obtain ⟨hnil, hflags⟩ := hdefer hd
          obtain ⟨hnil, -⟩ := append_eq_nil_iff.mp hnil
          rw [hnil] at htiles
          obtain rfl : top = loc.pos := htiles
          cases hs
          refine ⟨_, h.deferred hphase ⟨hoffset, rfl⟩ hnil hcall ?_⟩
          rw [← hflags]
          rfl
        next hd =>
          cases hs
          refine ⟨top, h.scheduling hphase ⟨fun _ => ⟨_, ?_, fun _ => rfl⟩, nofun, fun _ _ _ => hresult, fun hd' => ?_⟩⟩
          · refine Tiles.append_iff.mpr ⟨loc.pos, ?_, hoffset, rfl⟩
            simpa [heldBy] using htiles
          · exact absurd hd' hd
      · cases hs

theorem addFailed (hcall : s.call = some (.failed req)) (hs : s.addFailed req = some t) : ∃ top', Ledger len t top' := by
  unfold DirectSys.addFailed at hs
  split at hs
  next loc hphase =>
    obtain ⟨-, hfailed, -, hdefer⟩ := h.front hphase
    obtain ⟨hnil, hsoft⟩ := hfailed req hcall
    have hnodefer : loc.defer = false := by
      by_contra hd
      have := (hdefer (by simpa using hd)).1
      simp [hcall, heldBy, Call.held] at this
    split at hs
    next hhard =>
      cases hs
      refine ⟨top, h.scheduling hphase ⟨fun _ => ⟨top, ?_, fun hle => absurd hle (not_le.mpr hhard.1)⟩, by simp, by simp, ?_⟩⟩
      · simp [hnil, heldBy]
      · simp [hnodefer]
    next hhard =>
      cases hs
      exact ⟨_, h.deferred hphase (hsoft hhard) hnil rfl rfl⟩
  next reqs stopped hphase =>
    obtain ⟨-, hfailed, -⟩ := h.rear hphase
    obtain ⟨hnil, hneg⟩ := hfailed req hcall
    have hbacked := h.backed
    rw [spans_live, queue, hphase, hcall, hnil, nil_append, spans_append, Set.union_comm (spans reqs), ← spans_append] at hbacked
    -- the request goes back to the list
    have hback : ∀ {error : Int} {flags : OdirectFlags} {desc : PgioDescriptor shift}, desc.mirror.pgList = [] → error ≤ 0 →
        (s.dreq.error < 0 → error < 0) → error < 0 ∨ flags = .reschedWrites → Ledger len { s with
          phase := .reschedule (req :: reqs) true, call := none, desc, dreq := { s.dreq with error, flags } } top := by
      intro error flags desc hnil hle herror hcase
      refine ⟨?_, h.limit, .of_nil hnil, h.inFlight, hcase.imp_right .inl, fun data hmem => ?_, hle, by simp, by simp,
        fun _ => ⟨by simp [hnil, heldBy], fun _ => hcase⟩⟩
      · simp only [spans_live, queue, heldBy, hnil, append_nil]
        exact hbacked
      · exact (h.covered data hmem).imp_right (Or.imp_left herror)
    dsimp only at hs
    split at hs
    next herror =>
      cases hs
      exact ⟨top, hback hnil h.error_le id (.inl herror)⟩
    · split at hs
      next hhard =>
        cases hs
        have herror : (if s.desc.pgError = 0 then negErrno .eio else s.desc.pgError) < 0 := by
          rw [if_neg hneg.ne]
          exact hneg
        exact ⟨top, hback hnil herror.le (fun _ => herror) (.inl herror)⟩
      · cases hs
        exact ⟨top, hback hnil h.error_le id (.inr rfl)⟩
  · cases hs
  · cases hs

theorem pageioComplete (hcall : s.call = none) (hs : s.pageioComplete = some t) : Ledger len t top := by
  unfold DirectSys.pageioComplete at hs
  split at hs
  next loc hphase =>
    obtain ⟨-, rfl⟩ := of_guard_some hs
    obtain ⟨htiles, -, -, hdefer⟩ := h.front hphase
    obtain ⟨e, htiles, he⟩ := htiles (by simp [hcall])
    rw [hcall] at htiles hdefer
    have hcomplete : Front s.desc (some .complete) s.dreq.flags loc top := by
      refine ⟨fun _ => ⟨e, htiles, he⟩, by simp, fun c hc hne => ?_, hdefer⟩
      cases hc
      cases hne
    simpa only [hphase] using h.scheduling hphase hcomplete
  next reqs stopped hphase =>
    obtain ⟨hlast, rfl⟩ := of_guard_some hs
    obtain ⟨-, -, hstopped⟩ := h.rear hphase
    have hlive : ({ s with call := some .complete } : DirectSys shift).live = s.live := by
      simp [live, queue, hphase, hcall, heldBy, Call.held]
    refine { h with backed := hlive ▸ h.backed, thread := ?_ }
    rw [hcall] at hstopped
    rw [hphase]
    exact ⟨fun _ _ _ => hlast, by simp, hstopped⟩
  · cases hs
  · cases hs

theorem resend {reqs : List (NfsPage shift)} (hphase : s.phase = .reschedule (req :: reqs) false) (hcall : s.call = none) :
    Ledger len { s with phase := .reschedule reqs false
                        call := some (.add ⟨{ req with wbNio := req.wbNio + 1 }, none⟩) } top := by
  have hsame : spans [({ req with wbNio := req.wbNio + 1 } : NfsPage shift)] = spans [req] := by
    simp only [spans_cons, spans_nil]
    rfl
  have hlive : spans ({ s with
      phase := .reschedule reqs false
      call := some (.add ⟨{ req with wbNio := req.wbNio + 1 }, none⟩) } : DirectSys shift).live = spans s.live := by
    rw [spans_live, spans_live]
    simp only [queue, hphase, hcall, heldBy, Call.held, append_nil, ← singleton_append (l := reqs), spans_append, hsame]
    ac_rfl
  refine ⟨hlive ▸ h.backed, h.limit, h.mirrors, h.inFlight, h.acked, h.covered, h.error_le, fun c hc hcomp => ?_, by simp, by simp⟩
  cases hc
  cases hcomp

end

/-! Calls into pagelist.c -/

abbrev called (s : DirectSys shift) (r : CallStep shift) : DirectSys shift :=
  { s with
    dreq := { s.dreq with ioCount := s.dreq.ioCount + r.hdr.toList.length }
    desc := r.desc, call := r.next, hdrs := s.hdrs ++ r.hdr.toList }

theorem spans_sent (hdrs : List (PgioHeader shift)) (hdr : Option (PgioHeader shift)) :
    spans ((hdrs ++ hdr.toList).flatMap (·.pages)) = spans (hdrs.flatMap (·.pages)) ∪ spans (sentPages hdr) := by
  cases hdr with
  | none => simp [sentPages]
  | some hdr => simp only [Option.toList_some, flatMap_append, flatMap_singleton, spans_append, sentPages]

theorem inFlight_sent (h : Ledger len s top) {new : Option (PgioHeader shift)} (hfresh : ∀ hdr ∈ new, hdr.Fresh) :
    ∀ hdr ∈ s.hdrs ++ new.toList, hdr.InFlight s.Stable := by
  intro hdr hhdr
  rcases mem_append.mp hhdr with hhdr | hhdr
  · exact h.inFlight hdr hhdr
  · exact (hfresh hdr (Option.mem_toList.mp hhdr)).inFlight _

theorem sent {m : Nat} (h : Ledger len s top) (hphase : s.phase = .schedule loc)
    {r : CallStep shift} {phase : Phase shift} (htiles : Tiles top (sentPages r.hdr) m) (hm : Mirrors r.desc)
    (hfresh : ∀ hdr ∈ r.hdr, hdr.Fresh) (hqueue : ({ called s r with phase } : DirectSys shift).queue = [])
    (hthread : ({ called s r with phase } : DirectSys shift).Thread m) : Ledger len { called s r with phase } m := by
  have hbacked := h.backed.grow htiles.le
  rw [← spans_eq_of_tiles htiles, spans_live, queue, hphase] at hbacked
  refine ⟨?_, h.limit, hm, h.inFlight_sent hfresh, h.acked, h.covered, h.error_le, hthread⟩
  rw [spans_live, hqueue, spans_sent, Set.union_right_comm]
  exact hbacked

theorem resplit_nil {l : List (NfsPage shift)} (h : Resplit [] l) : l = [] := by
  generalize hnil : ([] : List (NfsPage shift)) = l' at h
  cases h with
  | refl => rfl
  | split p q req size => simp at hnil

end Ledger

/-- No request goes to `error_cleanup`, or only those of the first scheduling, with nothing sent behind them. -/
def dropsNone (s : DirectSys shift) : DirectEvent → Bool
  | .pageio answers =>
    match s.call with
    | some call =>
      match call.step answers s.desc, s.phase with
      | some r, .schedule _ => r.cleanup.isEmpty || call.completing || decide (r.desc.pgError ≠ negErrno .eagain)
      | some r, _ => r.cleanup.isEmpty
      | none, _ => true
    | none => true
  | _ => true

namespace Ledger

variable {len : Nat} {call : Call shift} {ans : AddAnswers} {r : CallStep shift} {reqs : List (NfsPage shift)}
  {stopped : Bool}

/-- In the first scheduling what was sent follows what was sent before. -/
theorem pageio_schedule (h : Ledger len s top) {loc : ScheduleIovec} (hphase : s.phase = .schedule loc)
    (hcall : s.call = some call) (hs : call.step ans s.desc = some r)
    (hdrop : r.cleanup = [] ∨ call.completing ∨ r.desc.pgError ≠ negErrno .eagain) :
    ∃ top', Ledger len (s.pageio call r) top' := by
  have hspec := Call.step_spec h.mirrors hs
  obtain ⟨htiles, -, hadding, hdefer⟩ := h.front hphase
  have hrunning : ∀ req, s.call ≠ some (.failed req) := by
    rintro req heq
    cases hcall.symm.trans heq
    cases hs
  obtain ⟨e, htiles, he⟩ := htiles hrunning
  rw [hcall] at htiles hdefer
  have hresult : ∀ c, r.next = some c → c.completing = false → 0 ≤ loc.result := fun c hc hne =>
    hadding call hcall ((hspec.completing_eq c hc).symm.trans hne)
  have hafter := hspec.resplit.tiles htiles
  rw [append_assoc, append_assoc] at hafter
  obtain ⟨m, hsent, hrest⟩ := Tiles.append_iff.mp hafter
  have hfront : (call.completing → r.next ≠ none) → Front r.desc r.next s.dreq.flags loc m := by
    intro hgoing
    have hempty : loc.defer → r.cleanup = [] ∧ r.desc.mirror.pgList ++ heldBy r.next = [] := by
      intro hd
      have hsplit := hspec.resplit
      rw [show s.desc.mirror.pgList ++ call.held = [] from (hdefer hd).1] at hsplit
      have hnil := resplit_nil hsplit
      rw [append_assoc, append_assoc] at hnil
      exact append_eq_nil_iff.mp (append_eq_nil_iff.mp hnil).2
    refine ⟨fun hne => ?_, fun req hreq => ?_, hresult, fun hd => ⟨(hempty hd).2, (hdefer hd).2⟩⟩
    · have hclean : r.cleanup = [] := by
        by_contra hclean
        rcases (hspec.cleaned hclean).2 with ⟨hcomp, hnone⟩ | ⟨req, hreq⟩
        · exact hgoing hcomp hnone
        · exact hne req hreq
      rw [hclean] at hrest
      exact ⟨e, hrest, he⟩
    · obtain ⟨hnil, hneg⟩ := hspec.failed req hreq
      refine ⟨hnil, fun hsoft => ?_⟩
      have hcomp : call.completing = false := (hspec.completing_eq _ hreq).symm
      have hclean : r.cleanup = [] := by
        rcases hdrop with hclean | hcomp' | hhard
        · exact hclean
        · rw [hcomp] at hcomp'
          cases hcomp'
        · exact absurd ⟨hneg, hhard⟩ hsoft
      rw [hclean, hnil, hreq] at hrest
      rw [← he (hresult _ hreq rfl)]
      exact hrest
  unfold DirectSys.pageio
  split
  next hend =>
    unfold DirectSys.finish
    simp only [hphase]
    split
    · exact ⟨m, h.sent hphase hsent hspec.mirrors hspec.fresh rfl trivial⟩
    · refine ⟨m, Ledger.putDreq ?_⟩
      exact h.sent hphase hsent hspec.mirrors hspec.fresh rfl trivial
  next hend =>
    refine ⟨m, ?_⟩
    have hgoing : call.completing → r.next ≠ none := fun hcomp hnone => hend (by simp [hcomp, hnone])
    have hsame : Ledger len { called s r with phase := .schedule loc } m :=
      h.sent hphase hsent hspec.mirrors hspec.fresh rfl (hfront hgoing)
    rw [← hphase] at hsame
    exact hsame

theorem finish_reschedule (h : Ledger len s top) (hphase : s.phase = .reschedule reqs stopped)
    (hcall : s.call = none) (hnil : s.desc.mirror.pgList = []) (hlast : stopped ∨ reqs = []) :
    Ledger len s.finish top := by
  have hbacked := h.backed
  simp only [spans_live, queue, hphase, hcall, hnil, heldBy, append_nil] at hbacked
  unfold DirectSys.finish
  simp only [hphase]
  refine Ledger.putDreq ?_
  split
  next hagain =>
    rw [DirectReq.markRequests_eq]
    refine ⟨?_, h.limit, h.mirrors, h.inFlight, ?_, h.covered, h.error_le, trivial⟩
    · simp only [spans_live, queue, spans_append, spans_nil, union_empty]
      exact hbacked
    · rcases hlast with hst | rfl
      · exact (((h.rear hphase).stopped hst).2 hagain).imp_right Or.inl
      · rw [append_nil]
        exact h.acked
  · obtain ⟨n, heq, hn⟩ := DirectReq.truncateRequests_eq reqs s.dreq
    rw [heq]
    refine ⟨?_, (min_le_left _ _).trans h.limit, h.mirrors, h.inFlight, h.acked, h.covered, h.error_le, trivial⟩
    rw [← union_assoc, ← union_assoc, Set.union_comm] at hbacked
    simp only [spans_live, queue, spans_nil, union_empty, ← union_assoc]
    exact backed_truncated hbacked hn

/-- A reschedule keeps its requests, split or not. -/
theorem pageio_reschedule (h : Ledger len s top) (hphase : s.phase = .reschedule reqs stopped)
    (hcall : s.call = some call) (hs : call.step ans s.desc = some r) (hdrop : r.cleanup = []) :
    Ledger len (s.pageio call r) top := by
  have hspec := Call.step_spec h.mirrors hs
  obtain ⟨hlast, -, hstopped⟩ := h.rear hphase
  rw [hcall] at hstopped
  have hspans := hspec.resplit.spans_eq
  rw [hdrop, append_nil] at hspans
  simp only [spans_append] at hspans
  have hlive : spans (called s r).live = spans s.live := by
    rw [spans_live, spans_live, spans_sent]
    simp only [queue, hphase, hcall, spans_append]
    rw [show heldBy (some call) = call.held from rfl, ← hspans]
    ac_rfl
  have hledger : Ledger len (called s r) top := by
    refine { h with backed := hlive ▸ h.backed, mirrors := hspec.mirrors, inFlight := h.inFlight_sent hspec.fresh, thread := ?_ }
    unfold Thread
    rw [hphase]
    refine ⟨fun c hc hcomp => hlast call hcall ((hspec.completing_eq c hc).symm.trans hcomp), hspec.failed, fun hst => ?_⟩
    obtain ⟨hempty, hsoft⟩ := hstopped hst
    have hnil := hspec.resplit
    rw [show s.desc.mirror.pgList ++ call.held = [] from hempty] at hnil
    replace hnil := resplit_nil hnil
    rw [append_assoc] at hnil
    refine ⟨(append_eq_nil_iff.mp hnil).2, ?_⟩
    -- nothing was queued, so the call can only be that of `nfs_pageio_complete`
    obtain ⟨hlist, hheld⟩ := append_eq_nil_iff.mp hempty
    cases call with
    | complete =>
      rw [Call.step_complete_nil hlist hs]
      exact hsoft
    | add loop => cases hheld
    | recoalesce loop rest outer => cases hheld
    | failed req => cases hheld
  unfold DirectSys.pageio
  split
  next hend =>
    obtain ⟨hcomp, hnone⟩ := Bool.and_eq_true_iff.mp hend
    exact hledger.finish_reschedule hphase (isNone_iff_eq_none.mp hnone)
      (hspec.finished hcomp (isNone_iff_eq_none.mp hnone)) (hlast call hcall hcomp)
  · exact hledger

/-- Every event that drops nothing keeps the ledger. -/
theorem step (h : Ledger len s top) (hmodes : Modes s) {e : DirectEvent} (hdrop : s.dropsNone e)
    (hs : s.step e = some t) : ∃ top', Ledger len t top' := by
  cases e with
  | getPages result =>
    simp only [DirectSys.step] at hs
    split at hs
    next loc hphase hcall =>
      obtain ⟨hguard, hs⟩ := of_guard hs
      exact ⟨top, h.getPages hphase hcall hguard.1 hs⟩
    · cases hs
  | nextPage error =>
    simp only [DirectSys.step] at hs
    split at hs
    next loc hphase hcall =>
      split at hs
      · obtain ⟨hresult, hs⟩ := of_guard hs
        exact h.nextPage hphase hcall hresult hs
      · cases hs
    · cases hs
  | resend =>
    simp only [DirectSys.step] at hs
    split at hs
    next req reqs hphase hcall =>
      cases hs
      exact ⟨top, h.resend hphase hcall⟩
    · cases hs
  | pageio answers =>
    simp only [DirectSys.step] at hs
    split at hs
    next call hcall =>
      obtain ⟨r, hr, rfl⟩ := map_eq_some_iff.mp hs
      simp only [dropsNone, hcall, hr] at hdrop
      cases hphase : s.phase with
      | schedule loc =>
        refine h.pageio_schedule hphase hcall hr ?_
        simpa [hphase, or_assoc] using hdrop
      | reschedule reqs stopped =>
        refine ⟨top, h.pageio_reschedule hphase hcall hr ?_⟩
        simpa [hphase] using hdrop
      | idle =>
        rw [hmodes.call_eq (by rw [hphase]; rfl)] at hcall
        cases hcall
      | gaveUp =>
        rw [hmodes.call_eq (by rw [hphase]; rfl)] at hcall
        cases hcall
    · cases hs
  | addFailed =>
    simp only [DirectSys.step] at hs
    split at hs
    next req hcall => exact h.addFailed hcall hs
    · cases hs
  | pageioComplete =>
    obtain ⟨hcall, hs⟩ := of_guard hs
    exact ⟨top, h.pageioComplete (isNone_iff_eq_none.mp hcall) hs⟩
  | writeReply i reply =>
    obtain ⟨hdr, hget, rfl⟩ := map_eq_some_iff.mp hs
    exact ⟨top, h.writeReply (hmodes.writing_of_hdr hget) hget reply⟩
  | rescheduleIo i =>
    obtain ⟨hdr, hget, rfl⟩ := map_eq_some_iff.mp hs
    exact ⟨top, h.rescheduleIo hget⟩
  | commitReply i reply =>
    obtain ⟨data, hget, rfl⟩ := map_eq_some_iff.mp hs
    exact ⟨top, h.commitReply (hmodes.idle_of_commit hget).2.1 hget reply⟩
  | scheduleWork maxretrans nomem =>
    obtain ⟨hwork, rfl⟩ := of_guard_some hs
    obtain ⟨hphase, hcall⟩ := hmodes.idle_of_work hwork
    exact h.scheduleWork hphase hcall maxretrans nomem

end Ledger

/-! ### The count of a completed write -/

/-- On completion nothing is left to do. -/
theorem Modes.of_completed (h : Modes s) (hdone : s.completed) :
    s.commits = [] ∧ s.hdrs = [] ∧ s.phase = .idle ∧ s.call = none := by
  have hio : s.dreq.ioCount = 0 := by
    by_contra hio
    simp [(h.writing hio).2.2.1] at hdone
  have hcom : s.commits = [] := by
    by_contra hcom
    simp [(h.committing hcom).2] at hdone
  exact ⟨hcom, h.idle hio⟩

theorem Modes.live_eq_nil (h : Modes s) (hdone : s.completed) : s.live = [] := by
  obtain ⟨hcom, hhdrs, hphase, -⟩ := h.of_completed hdone
  simp [live, queue, hhdrs, hphase, hcom, (h.complete hdone).2]

theorem le_stablePrefixLen {n len : Nat} (hn : n ≤ len) (h : ∀ k, k < n → s.Stable (s.dreq.ioStart + k)) :
    n ≤ s.stablePrefixLen len := by
  have hsplit : range len = range n ++ (range (len - n)).map (n + ·) := by
    rw [← range_add, Nat.add_sub_cancel' hn]
  have hall : ∀ k ∈ range n, decide (s.Stable (s.dreq.ioStart + k)) := fun k hk =>
    decide_eq_true (h k (mem_range.mp hk))
  rw [stablePrefixLen, hsplit, takeWhile_append_of_pos hall, length_append, length_range]
  exact Nat.le_add_right _ _

/-- If no request is dropped that a later reply could jump over, a completed direct write counts only stable bytes. -/
theorem count_le_stablePrefixLen (ioStart len : Nat) (wsize : U32) (maxretrans : Nat) (evs : List DirectEvent)
    (s : DirectSys shift) (hrun : exec step (DirectSys.init ioStart len wsize maxretrans) evs = some s)
    (hkept : Along step (fun s e => s.dropsNone e)
      (DirectSys.init ioStart len wsize maxretrans : DirectSys shift) evs)
    (hdone : s.completed) : s.dreq.count ≤ s.stablePrefixLen len := by
  have hstep : ∀ (s : DirectSys shift) e t, s.dropsNone e →
      (Modes s ∧ ∃ top, Ledger len s top) → s.step e = some t → Modes t ∧ ∃ top, Ledger len t top := by
    rintro s e t hkept ⟨hmodes, top, hledger⟩ hs
    exact ⟨hmodes.step hs, hledger.step hmodes hkept hs⟩
  obtain ⟨hmodes, top, hledger⟩ := exec_invariant_along hstep hkept ⟨Modes.init .., ioStart, Ledger.init ..⟩ hrun
  refine le_stablePrefixLen (hledger.backed.count_le.trans hledger.limit) fun k hk => ?_
  have hidle : spans s.live = ∅ := by
    rw [hmodes.live_eq_nil hdone]
    exact spans_nil
  exact hledger.backed.settled_of_idle hidle (Nat.le_add_right _ _) (Nat.add_lt_add_left hk _)

def recommittedRun : List DirectEvent :=
  let add : DirectEvent := .pageio { env := { pgTest := 8 } }
  [.getPages (.ok (8, 0, [100, 200])), .nextPage none, add, .nextPage none, add, .pageioComplete, add,
    .writeReply 0 (.written 8 ⟨7, 0⟩), .scheduleWork 0 false, .commitReply 0 (.committed ⟨9, 2⟩), .scheduleWork 0 false,
    .resend, add, .resend, add, .pageioComplete, add,
    .writeReply 0 (.written 8 ⟨9, 0⟩), .scheduleWork 0 false, .commitReply 0 (.committed ⟨9, 2⟩), .scheduleWork 0 false]

theorem count_le_stablePrefixLen_recommitted :
    ∃ s : DirectSys 2, exec step (DirectSys.init 0 8 8 0) recommittedRun = some s ∧ s.completed ∧
      s.dreq.count = 8 ∧ s.dreq.count ≤ s.stablePrefixLen 8 := by
  refine exists_exec (P := fun s => s.completed ∧ s.dreq.count = 8) (by decide) fun s hrun h => ?_
  exact ⟨h.1, h.2, count_le_stablePrefixLen 0 8 8 0 recommittedRun s hrun (by decide) h.1⟩

/-- The second `nfs_pageio_complete` finds no memory: two requests go to `error_cleanup`, and stay counted. -/
def droppedRun : List DirectEvent :=
  let add : DirectEvent := .pageio { env := { pgTest := 8 } }
  let enomem : DirectEvent := .pageio { env := { pgTest := 8 }, doio := .failed ⟨-12, by decide⟩ }
  [.getPages (.ok (8, 0, [100, 200])), .nextPage none, add, .nextPage none, add, .pageioComplete, add,
    .writeReply 0 (.written 8 ⟨7, 0⟩), .scheduleWork 0 false, .commitReply 0 (.committed ⟨9, 2⟩), .scheduleWork 0 false,
    .resend, add, .resend, add, .pageioComplete, enomem, .scheduleWork 0 false]

theorem stablePrefixLen_lt_count_of_dropped : (exec step (DirectSys.init 0 8 8 0 : DirectSys 2) droppedRun).map
      (fun s => (s.completed, s.dreq.count, s.stablePrefixLen 8)) = some (true, 8, 0) := by
  decide

/-- The counters are exact, and completion comes last: nothing is outstanding, scheduled or listed, no step is enabled. -/
theorem nothing_after_completion (ioStart len : Nat) (wsize : U32) (maxretrans : Nat) (evs : List DirectEvent)
    (s : DirectSys shift) (hrun : exec step (DirectSys.init ioStart len wsize maxretrans) evs = some s) :
    s.dreq.ioCount = s.hdrs.length + s.phase.refs ∧ s.dreq.rpcsOut = s.commits.length ∧
    (s.completed → s.hdrs = [] ∧ s.commits = [] ∧ s.dreq.commitList = [] ∧ ∀ e, s.step e = none) := by
  have h : Modes s := exec_invariant (fun _ _ _ hi hs => hi.step hs) (Modes.init ..) hrun
  refine ⟨h.ioCount, h.rpcsOut, fun hdone => ?_⟩
  obtain ⟨hwork, hlist⟩ := h.complete hdone
  obtain ⟨hcom, hhdrs, hphase, hcall⟩ := h.of_completed hdone
  refine ⟨hhdrs, hcom, hlist, fun e => ?_⟩
  cases e <;> simp [step, pageioComplete, hphase, hcall, hhdrs, hcom, hwork]

theorem nothing_after_completion_recommitted : ∃ s : DirectSys 2,
    exec step (DirectSys.init 0 8 8 0) recommittedRun = some s ∧ s.completed ∧ ∀ e, s.step e = none := by
  refine exists_exec (P := fun s => s.completed) (by decide) fun s hrun hdone => ?_
  exact ⟨hdone, ((nothing_after_completion 0 8 8 0 recommittedRun s hrun).2.2 hdone).2.2.2⟩

end DirectSys

end

end Mynfs
