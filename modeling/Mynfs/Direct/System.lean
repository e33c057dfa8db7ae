import Mynfs.Direct.Request

/-! One direct write up to its completion, cut where replies can arrive; `stable` and `unstable` are the acknowledged
    bytes. Data servers' commit lists, further mirrors and I/O without RPCs are left out. -/

namespace Mynfs

/-- `left` is what `iov_iter_count` gives; the others belong to the pages of the current round of the outer loop. -/
structure ScheduleIovec where
  pos : Nat
  left : Nat
  bytes : Nat := 0
  pgbase : Nat := 0
  pagevec : List Page := []
  requestedBytes : Nat := 0
  result : Int := 0
  defer : Bool := false

section
variable {shift : Nat}

/-- What the scheduling thread does. `reqs` is the rest of the local list, and after `stopped` the loop has ended. -/
inductive Phase (shift : Nat)
  | idle
  | schedule (loc : ScheduleIovec)
  | reschedule (reqs : List (NfsPage shift)) (stopped : Bool)
  /-- No byte was started, so the system call has returned an error. -/
  | gaveUp

/-- Bytes acknowledged as unstable. -/
structure Unstable where
  offset : Nat
  count : Nat
  verf : U64

/-- `struct nfs_commit_data`; `covers` is what was acknowledged when the COMMIT was sent. -/
structure CommitData (shift : Nat) where
  pages : List (NfsPage shift)
  covers : List Unstable

/-- A direct write with all its calls. -/
structure DirectSys (shift : Nat) where
  dreq : DirectReq shift
  phase : Phase shift
  /-- The descriptor on the stack of the scheduling thread, and its call into pagelist.c. -/
  desc : PgioDescriptor shift
  call : Option (Call shift) := none
  hdrs : List (PgioHeader shift) := []
  commits : List (CommitData shift) := []
  work : Bool := false
  completed : Bool := false
  stable : List (Nat × Nat) := []
  unstable : List Unstable := []

/-- The result of a WRITE. -/
inductive WriteReply
  | error (status : Err)
  | written (count : Nat) (verf : WriteVerf)

/-- The result of a COMMIT. -/
inductive CommitReply
  | error (status : Err)
  | committed (verf : WriteVerf)

/-- Steps of the scheduling thread, and replies. -/
inductive DirectEvent
  /-- `iov_iter_get_pages_alloc2`: an error, or a number of bytes that start at `pgbase` of the first page. -/
  | getPages (result : Except Err (Nat × Nat × List Page))
  /-- One round of the inner loop of `nfs_direct_write_schedule_iovec`; `error` is of the new request. -/
  | nextPage (error : Option Err)
  | resend
  | pageio (answers : AddAnswers)
  /-- What the scheduling thread does when `nfs_pageio_add_request` has failed. -/
  | addFailed
  | pageioComplete
  | writeReply (i : Nat) (reply : WriteReply)
  | rescheduleIo (i : Nat)
  | commitReply (i : Nat) (reply : CommitReply)
  /-- `maxretrans` is what a driver sets in the descriptor; `nomem` is a failure of `nfs_commitdata_alloc`. -/
  | scheduleWork (maxretrans : Nat) (nomem : Bool)

def DirectSys.init (ioStart len : Nat) (wsize : U32) (maxretrans : Nat) : DirectSys shift where
  dreq := { ioStart := ioStart, maxCount := len, ioCount := 1 }
  phase := .schedule { pos := ioStart, left := len }
  desc := { mirror := { pgBsize := wsize }, pgMaxretrans := maxretrans }

namespace DirectSys
variable (s : DirectSys shift)

/-- The byte at an offset of the file was acknowledged as stable. -/
def Stable (b : Nat) : Prop := ∃ r ∈ s.stable, r.1 ≤ b ∧ b < r.1 + r.2

instance (b : Nat) : Decidable (s.Stable b) := inferInstanceAs (Decidable (∃ r ∈ s.stable, r.1 ≤ b ∧ b < r.1 + r.2))

/-- The length of the stable part at the start of a range of the given length. -/
def stablePrefixLen (len : Nat) : Nat := ((List.range len).takeWhile fun k => decide (s.Stable (s.dreq.ioStart + k))).length

def acknowledge (offset count : Nat) (verf : WriteVerf) : DirectSys shift :=
  if verf.committed ≠ nfsUnstable then { s with stable := s.stable ++ [(offset, count)] }
  else { s with unstable := s.unstable ++ [⟨offset, count, verf.verifier⟩] }

/-- A COMMIT reply acknowledges what was written before with the same verifier. -/
def acknowledgeCommit (covers : List Unstable) (verf : WriteVerf) : DirectSys shift :=
  if nfsUnstable < verf.committed then
    { s with stable := s.stable ++ (covers.filter (·.verf = verf.verifier)).map fun u => (u.offset, u.count) }
  else s

def putDreq : DirectSys shift :=
  let ioCount := s.dreq.ioCount - 1
  { s with dreq := { s.dreq with ioCount := ioCount }, work := s.work || decide (ioCount = 0) }

def commitEnd : DirectSys shift :=
  let rpcsOut := s.dreq.rpcsOut - 1
  { s with dreq := { s.dreq with rpcsOut := rpcsOut }, work := s.work || decide (rpcsOut = 0) }

section
variable (i : Nat) (hdr : PgioHeader shift)

def release : DirectSys shift :=
  { s with dreq := s.dreq.writeCompletion hdr, hdrs := s.hdrs.eraseIdx i }.putDreq

def writeReply : WriteReply → DirectSys shift
  | .error status => s.release i (hdr.setPgioError status hdr.argsOffset)
  | .written count verf =>
    let s := s.acknowledge hdr.argsOffset (min count hdr.argsCount) verf
    let (hdr, restart) := (hdr.writebackDone verf).writebackResult count
    if restart then { s with hdrs := s.hdrs.set i hdr } else s.release i hdr

def rescheduleIo : DirectSys shift :=
  let (dreq, hdr) := s.dreq.writeRescheduleIo hdr
  { s with dreq }.release i hdr

end

def commitReply (i : Nat) (data : CommitData shift) : CommitReply → DirectSys shift
  | .error status =>
    { s with dreq := s.dreq.commitComplete status {} data.pages, commits := s.commits.eraseIdx i }.commitEnd
  | .committed verf =>
    let s := s.acknowledgeCommit data.covers verf
    { s with dreq := s.dreq.commitComplete 0 verf data.pages, commits := s.commits.eraseIdx i }.commitEnd

/-- Every group with a request on the list becomes one request, in the place of its head or of its first request there. -/
def directJoinGroup (joined : List (NfsPage shift)) : List (NfsPage shift) → List (NfsPage shift)
  | [] => []
  | req :: reqs =>
    if joined.any req.sameGroup then directJoinGroup joined reqs
    else if req.isHead || !reqs.any (fun other => other.isHead && req.sameGroup other) then
      req.joinPageGroup :: directJoinGroup (req :: joined) reqs
    else directJoinGroup joined reqs

def writeReschedule (maxretrans : Nat) : DirectSys shift :=
  { s with
    dreq := { s.dreq with commitList := [], ioCount := s.dreq.ioCount + 1 }
    phase := .reschedule (directJoinGroup [] s.dreq.commitList) false
    desc := { mirror := { pgBsize := s.desc.mirror.pgBsize }, pgMaxretrans := maxretrans } }

/-- With `nfs_commit_begin` and, if a COMMIT is sent, that of `mynfs_init_commit`. -/
def commitSchedule (nomem : Bool) : DirectSys shift :=
  if s.dreq.commitList.isEmpty then { s with dreq := { s.dreq with rpcsOut := s.dreq.rpcsOut + 1 } }.commitEnd
  else if nomem then
    let flags := if s.dreq.flags = .zero then .reschedWrites else s.dreq.flags
    { s with dreq := { s.dreq with flags := flags, rpcsOut := s.dreq.rpcsOut + 1 } }.commitEnd
  else
    let data : CommitData shift := ⟨s.dreq.commitList, s.unstable⟩
    { s with
      dreq := { s.dreq with commitList := [], rpcsOut := s.dreq.rpcsOut + 2 }
      commits := s.commits ++ [data] }.commitEnd

def writeClearReqs : DirectSys shift :=
  { s with dreq := { s.dreq with commitList := [] }.truncateRequests s.dreq.commitList, completed := true }

def writeScheduleWork (maxretrans : Nat) (nomem : Bool) : DirectSys shift :=
  let t := { s with dreq := { s.dreq with flags := .zero }, work := false }
  match s.dreq.flags with
  | .doCommit => t.commitSchedule nomem
  | .reschedWrites => t.writeReschedule maxretrans
  | .zero | .done => t.writeClearReqs

def getPages (loc : ScheduleIovec) : Except Err (Nat × Nat × List Page) → Option (DirectSys shift)
  | .error e => some { s with phase := .schedule { loc with result := e } }
  | .ok (bytes, pgbase, pagevec) =>
    if 0 < bytes ∧ bytes ≤ loc.left ∧ pgbase < 2 ^ shift ∧
        pagevec.length = (bytes + pgbase + 2 ^ shift - 1) / 2 ^ shift then
      some { s with phase := .schedule { loc with left := loc.left - bytes, bytes, pgbase, pagevec, result := bytes } }
    else none

/-- The request for the next page is created and, unless requests are deferred, added. -/
def nextPage (loc : ScheduleIovec) (page : Page) (pagevec : List Page) : Option Err → Option (DirectSys shift)
  | some e => some { s with phase := .schedule { loc with result := e } }
  | none =>
    if s.desc.pgError < 0 then some { s with phase := .schedule { loc with result := s.desc.pgError } }
    else if h : 0 < loc.bytes ∧ loc.pgbase < 2 ^ shift then
      let reqLen := min loc.bytes (2 ^ shift - loc.pgbase)
      let req : NfsPage shift := .create (.page page) loc.pgbase (loc.pos / 2 ^ shift) (loc.pos % 2 ^ shift)
        reqLen s.dreq.ctx s.dreq.lockowner (lt_min h.1 (Nat.sub_pos_of_lt h.2))
        (by have := min_le_right loc.bytes (2 ^ shift - loc.pgbase); simp only [WbMem.maxLength]; omega)
      let loc := { loc with pgbase := 0, bytes := loc.bytes - reqLen, pagevec,
                            requestedBytes := loc.requestedBytes + reqLen, pos := loc.pos + reqLen }
      if loc.defer then some { s with phase := .schedule loc, dreq := s.dreq.markRequestCommit req }
      else some { s with phase := .schedule loc, call := some (.add ⟨req, none⟩) }
    else none

def addFailed (req : NfsPage shift) : Option (DirectSys shift) :=
  match s.phase with
  | .schedule loc =>
    -- exit on hard errors, otherwise defer the remaining requests
    if s.desc.pgError < 0 ∧ s.desc.pgError ≠ negErrno .eagain then
      some { s with phase := .schedule { loc with result := s.desc.pgError }, call := none }
    else
      some { s with
        phase := .schedule { loc with defer := true }
        call := none
        dreq := { s.dreq with flags := .reschedWrites }.markRequestCommit req
        desc := { s.desc with pgError := 0 } }
  | .reschedule reqs _ =>
    let s : DirectSys shift := { s with phase := .reschedule (req :: reqs) true, call := none }
    if s.dreq.error < 0 then some { s with desc := { s.desc with pgError := s.dreq.error } }
    else if s.desc.pgError ≠ negErrno .eagain then
      let error : Int := if s.desc.pgError = 0 then negErrno .eio else s.desc.pgError
      some { s with dreq := { s.dreq with flags := .zero, error }, desc := { s.desc with pgError := error } }
    else some { s with dreq := { s.dreq with flags := .reschedWrites } }
  | .idle | .gaveUp => none

def finish : DirectSys shift :=
  match s.phase with
  | .schedule loc => if loc.requestedBytes = 0 then { s with phase := .gaveUp } else { s with phase := .idle }.putDreq
  | .reschedule reqs _ =>
    let dreq := if s.desc.pgError = negErrno .eagain then s.dreq.markRequests reqs else s.dreq.truncateRequests reqs
    { s with dreq, phase := .idle }.putDreq
  | .idle | .gaveUp => s

/-- The effects of an iteration of the current call. Sending takes a reference (`nfs_direct_pgio_init`). -/
def pageio (call : Call shift) (r : CallStep shift) : DirectSys shift :=
  let dreq := s.dreq.writeSyncPgioError r.cleanup
  let s := { s with
    dreq := { dreq with ioCount := dreq.ioCount + r.hdr.toList.length }
    desc := r.desc, call := r.next, hdrs := s.hdrs ++ r.hdr.toList }
  if call.completing && r.next.isNone then s.finish else s

def pageioComplete : Option (DirectSys shift) :=
  match s.phase with
  | .schedule loc =>
    if loc.result < 0 ∨ loc.left = 0 ∧ loc.pagevec = [] then some { s with call := some .complete } else none
  | .reschedule reqs stopped => if stopped ∨ reqs = [] then some { s with call := some .complete } else none
  | .idle | .gaveUp => none

def step : DirectEvent → Option (DirectSys shift)
  | .getPages result =>
    match s.phase, s.call with
    | .schedule loc, none => if 0 ≤ loc.result ∧ loc.pagevec = [] ∧ 0 < loc.left then s.getPages loc result else none
    | _, _ => none
  | .nextPage error =>
    match s.phase, s.call with
    | .schedule loc, none =>
      match loc.pagevec with
      | page :: pagevec => if 0 ≤ loc.result then s.nextPage loc page pagevec error else none
      | [] => none
    | _, _ => none
  | .resend =>
    match s.phase, s.call with
    | .reschedule (req :: reqs) false, none =>
      some { s with phase := .reschedule reqs false, call := some (.add ⟨{ req with wbNio := req.wbNio + 1 }, none⟩) }
    | _, _ => none
  | .pageio answers =>
    match s.call with
    | some call => (call.step answers s.desc).map (s.pageio call)
    | none => none
  | .addFailed =>
    match s.call with
    | some (.failed req) => s.addFailed req
    | _ => none
  | .pageioComplete => if s.call.isNone then s.pageioComplete else none
  | .writeReply i reply => s.hdrs[i]?.map fun hdr => s.writeReply i hdr reply
  | .rescheduleIo i => s.hdrs[i]?.map fun hdr => s.rescheduleIo i hdr
  | .commitReply i reply => s.commits[i]?.map fun data => s.commitReply i data reply
  | .scheduleWork maxretrans nomem => if s.work then some (s.writeScheduleWork maxretrans nomem) else none

end DirectSys

end

end Mynfs
