import Mynfs.Write.Completion
import Mynfs.Theorems.PageioCalls

/-! A buffered write is dropped without a COMMIT if the last reply's level allows it, also for the bytes of short replies. -/

namespace Mynfs

open List Machine

/-! ### Commit levels -/

def StableLevel (lseg : Option DsWrite) (committed : U32) : Prop :=
  committed = nfsFileSync ∨ committed = nfsDataSync ∧ lseg.isSome

instance (lseg : Option DsWrite) (committed : U32) : Decidable (StableLevel lseg committed) :=
  inferInstanceAs (Decidable (_ ∨ _))

variable {lseg : Option DsWrite}

theorem writeNeedCommit_eq_false_iff {verf : WriteVerf} :
    nfsWriteNeedCommit verf lseg = false ↔ StableLevel lseg verf.committed := by
  unfold nfsWriteNeedCommit StableLevel
  split <;> rename_i hdata
  · rw [hdata, Option.isNone_eq_false_iff]
    simp [nfsDataSync, nfsFileSync]
  · simp [hdata]

theorem not_stableLevel_unstable : ¬ StableLevel lseg nfsUnstable := by
  simp [StableLevel, nfsUnstable, nfsFileSync, nfsDataSync]

/-! ### The bytes of short replies -/

/-- The short replies that the client goes on behind, if it has `left` bytes to write from `pos` on. -/
def shortAcks : Nat → Nat → List WritebackEvent → List AckRange
  | _, _, [] => []
  | pos, left, .reply (.written count verf) :: events =>
    if count < left ∧ verf.committed ≠ nfsUnstable then
      ⟨pos, count, verf.committed⟩ :: shortAcks (pos + count) (left - count) events
    else shortAcks pos left events
  | pos, left, _ :: events => shortAcks pos left events

def ackedBytes (acks : List AckRange) : Nat := (acks.map (·.count)).sum

section
variable {pos left b : Nat} {ack ack' : AckRange} {events : List WritebackEvent}

theorem shortAcks_range : ∀ {events : List WritebackEvent} {pos left : Nat}, ack ∈ shortAcks pos left events →
    pos ≤ ack.offset ∧ ack.offset + ack.count ≤ pos + ackedBytes (shortAcks pos left events) := by
  intro events pos left hmem
  fun_induction shortAcks pos left events with
  | case1 => simp at hmem
  | case2 pos left count verf events hshort ih =>
    rcases mem_cons.mp hmem with rfl | htail
    · simp [ackedBytes]
    · have := ih htail
      simp only [ackedBytes, map_cons, sum_cons] at this ⊢
      omega
  | case3 pos left count verf events hshort ih => exact ih hmem
  | case4 pos left event events hne ih => exact ih hmem

theorem shortAcks_cons (pos left : Nat) (event : WritebackEvent) (events : List WritebackEvent) :
    shortAcks pos left (event :: events) = shortAcks pos left [event] ++
      shortAcks (pos + ackedBytes (shortAcks pos left [event])) (left - ackedBytes (shortAcks pos left [event])) events := by
  rcases event with (_ | ⟨status, verf⟩ | ⟨count, verf⟩) | error
  · rfl
  · rfl
  · by_cases hshort : count < left ∧ verf.committed ≠ nfsUnstable
    · simp only [shortAcks, if_pos hshort, ackedBytes, map_cons, sum_cons, map_nil, sum_nil, Nat.add_zero, singleton_append]
    · simp only [shortAcks, if_neg hshort, ackedBytes, map_nil, sum_nil, Nat.add_zero, Nat.sub_zero, nil_append]
  · rfl

@[simp] theorem ackedBytes_append (acks acks' : List AckRange) :
    ackedBytes (acks ++ acks') = ackedBytes acks + ackedBytes acks' := by
  simp [ackedBytes]

theorem exists_shortAck (hpos : pos ≤ b) (hend : b < pos + ackedBytes (shortAcks pos left events)) :
    ∃ ack ∈ shortAcks pos left events, ack.Has b := by
  fun_induction shortAcks pos left events with
  | case1 => simp [ackedBytes] at hend; omega
  | case2 pos left count verf events hshort ih =>
    by_cases hb : b < pos + count
    · exact ⟨_, mem_cons_self, hpos, hb⟩
    · simp only [ackedBytes, map_cons, sum_cons] at hend ih
      obtain ⟨ack, hmem, hhas⟩ := ih (by omega) (by omega)
      exact ⟨ack, mem_cons_of_mem _ hmem, hhas⟩
  | case3 pos left count verf events hshort ih => exact ih hpos hend
  | case4 pos left event events hne ih => exact ih hpos hend

theorem shortAcks_unique (hmem : ack ∈ shortAcks pos left events) (hmem' : ack' ∈ shortAcks pos left events)
    (hb : ack.Has b) (hb' : ack'.Has b) : ack = ack' := by
  fun_induction shortAcks pos left events with
  | case1 => simp at hmem
  | case2 pos left count verf events hshort ih =>
    rcases mem_cons.mp hmem with rfl | htail <;> rcases mem_cons.mp hmem' with rfl | htail'
    · rfl
    · have := (shortAcks_range htail').1
      simp only [AckRange.Has] at hb hb'
      omega
    · have := (shortAcks_range htail).1
      simp only [AckRange.Has] at hb hb'
      omega
    · exact ih htail htail'
  | case3 pos left count verf events hshort ih => exact ih hmem hmem'
  | case4 pos left event events hne ih => exact ih hmem hmem'

end

/-! ### The last reply -/

namespace WritebackEvent

def level : WritebackEvent → U32
  | .reply (.written _ verf) => verf.committed
  | .reply (.error _ (some verf)) => verf.committed
  | _ => nfsUnstable

def Completes (left : Nat) : WritebackEvent → Prop
  | .reply (.written count _) => left ≤ count
  | _ => False

end WritebackEvent

section
variable {shift start e : Nat} {u t s : Writeback shift} {event : WritebackEvent} {events : List WritebackEvent}

theorem WriteHeader.writebackResult_cases (hdr : WriteHeader shift) (count : Nat) :
    hdr.argsCount ≤ count ∧ hdr.nfsWritebackResult count = (hdr, false) ∨
    count = 0 ∧ 0 < hdr.argsCount ∧ hdr.nfsWritebackResult count =
      ({ hdr with toPgioHeader := hdr.setPgioError (negErrno .eio) hdr.argsOffset }, false) ∨
    (0 < count ∧ count < hdr.argsCount) ∧
      (hdr.tkOps = false ∧ hdr.nfsWritebackResult count = ({ hdr with pnfsError := negErrno .eagain }, false) ∨
        hdr.tkOps ∧ hdr.verf.committed ≠ nfsUnstable ∧ hdr.nfsWritebackResult count =
          ({ hdr with argsOffset := hdr.argsOffset + count, argsCount := hdr.argsCount - count,
                      verf := { hdr.verf with committed := 0 } }, true) ∨
        hdr.tkOps ∧ hdr.verf.committed = nfsUnstable ∧ hdr.nfsWritebackResult count =
          ({ hdr with argsStable := nfsFileSync, verf := { hdr.verf with committed := 0 } }, true)) := by
  unfold nfsWritebackResult
  by_cases hcount : count < hdr.argsCount
  · rw [if_pos hcount]
    by_cases hzero : count = 0
    · exact .inr (.inl ⟨hzero, by omega, if_pos hzero⟩)
    · rw [if_neg hzero]
      refine .inr (.inr ⟨⟨by omega, hcount⟩, ?_⟩)
      cases hops : hdr.tkOps with
      | false => exact .inl ⟨rfl, rfl⟩
      | true =>
        by_cases hlevel : hdr.verf.committed = nfsUnstable
        · exact .inr (.inr ⟨rfl, hlevel, by rw [if_neg (not_not.mpr hlevel)]; rfl⟩)
        · exact .inr (.inl ⟨rfl, hlevel, by rw [if_pos hlevel]; rfl⟩)
  · exact .inl ⟨not_lt.mp hcount, if_neg hcount⟩

namespace WriteHeader
variable {hdr hdr' : WriteHeader shift} {total : Nat}

/-- A WRITE that goes on. -/
structure InFlight (start total : Nat) (hdr : WriteHeader shift) : Prop where
  ioStart : hdr.ioStart = start
  good : hdr.goodBytes = total
  start_le : start ≤ hdr.argsOffset
  offset : hdr.argsOffset + hdr.argsCount = start + total
  pos : 0 < hdr.argsCount
  error : hdr.iohdrError = false
  redo : hdr.iohdrRedo = false
  pnfsError : hdr.pnfsError = 0
  level : hdr.verf.committed = nfsUnstable

/-- What replies leave alone. -/
structure Same (hdr hdr' : WriteHeader shift) : Prop where
  pages : hdr'.pages = hdr.pages
  lseg : hdr'.lseg = hdr.lseg
  tkOps : hdr'.tkOps = hdr.tkOps

/-- After a short reply. -/
structure Restarted (hdr : WriteHeader shift) (reply : WritebackReply) (hdr' : WriteHeader shift) : Prop where
  same : Same hdr hdr'
  advance : hdr'.argsOffset = hdr.argsOffset + ackedBytes (shortAcks hdr.argsOffset hdr.argsCount [.reply reply])
  incomplete : ¬ (WritebackEvent.reply reply).Completes hdr.argsCount
  level : hdr.tkOps = false → (WritebackEvent.reply reply).level = nfsUnstable

/-- The call has ended. If it was not complete, the bytes behind the short replies are in error. -/
structure Ended (start : Nat) (hdr : WriteHeader shift) (event : WritebackEvent) (hdr' : WriteHeader shift) : Prop where
  same : Same hdr hdr'
  resent : hdr.tkOps → hdr'.pnfsError = 0
  redo : hdr'.pnfsError = 0 → hdr'.iohdrRedo = false
  level : hdr'.pnfsError = 0 → hdr'.verf.committed = event.level
  good : hdr'.pnfsError = 0 → StableLevel hdr.lseg event.level →
    event.Completes hdr.argsCount ∧ hdr'.iohdrError = false ∨
      ¬ event.Completes hdr.argsCount ∧ hdr'.iohdrError ∧ start + hdr'.goodBytes = hdr.argsOffset

namespace InFlight

section
variable (h : InFlight start total hdr)
include h

theorem setPgioError {p : PgioHeader shift} (hstart : p.ioStart = hdr.ioStart)
    (hgood : p.goodBytes = hdr.goodBytes) (error : Int) : p.setPgioError error hdr.argsOffset =
      { p with goodBytes := hdr.argsOffset - start, iohdrError := true, error := if p.iohdrError then p.error else error } := by
  have hlt : hdr.argsOffset - start < p.goodBytes := by
    have := h.offset
    have := h.pos
    have := h.start_le
    rw [hgood, h.good]
    omega
  simp [PgioHeader.setPgioError, hstart, h.ioStart, hlt]

theorem failed (event : WritebackEvent) (p : PgioHeader shift)
    (hstart : p.ioStart = hdr.ioStart) (hgood : p.goodBytes = hdr.goodBytes) (hpages : p.pages = hdr.pages)
    (hredo : p.iohdrRedo = hdr.iohdrRedo)
    (hlevel : p.verf.committed = event.level) (hinc : ¬ event.Completes hdr.argsCount) (error : Int) :
    Ended start hdr event { hdr with toPgioHeader := p.setPgioError error hdr.argsOffset } := by
  rw [h.setPgioError hstart hgood]
  refine ⟨⟨hpages, rfl, rfl⟩, fun _ => h.pnfsError, fun _ => hredo.trans h.redo, fun _ => hlevel, fun _ _ => .inr ⟨hinc, rfl, ?_⟩⟩
  exact Nat.add_sub_of_le h.start_le

theorem written (count : Nat) (verf : WriteVerf) :
    ∃ hdr' restarted, hdr.nfsPgioResult (.written count verf) = (hdr', restarted) ∧
      (restarted ∧ InFlight start total hdr' ∧ Restarted hdr (.written count verf) hdr' ∨
        restarted = false ∧ Ended start hdr (.reply (.written count verf)) hdr') := by
  obtain ⟨hle, hres⟩ | ⟨rfl, hpos, hres⟩ | ⟨⟨hpos, hlt⟩, ⟨hops, hres⟩ | ⟨hops, hlevel, hres⟩ | ⟨hops, hlevel, hres⟩⟩ :=
    (hdr.nfsWritebackDone verf).writebackResult_cases count
  · refine ⟨_, _, hres, .inr ⟨rfl, ⟨rfl, rfl, rfl⟩, fun _ => h.pnfsError, fun _ => h.redo, fun _ => rfl, ?_⟩⟩
    exact fun _ _ => .inl ⟨hle, h.error⟩
  · have hinc : ¬ (WritebackEvent.reply (.written 0 verf)).Completes hdr.argsCount := not_le.mpr hpos
    exact ⟨_, _, hres, .inr ⟨rfl, h.failed _ (hdr.toPgioHeader.writebackDone verf) rfl rfl rfl rfl rfl hinc _⟩⟩
  · have hne : negErrno .eagain ≠ 0 := by decide
    refine ⟨_, _, hres, .inr ⟨rfl, ⟨rfl, rfl, rfl⟩, fun h' => ?_, fun h' => (hne h').elim, fun h' => (hne h').elim,
      fun h' => (hne h').elim⟩⟩
    exact absurd (hops.symm.trans h') (by decide)
  · have hstart := h.start_le
    have hoffset := h.offset
    refine ⟨_, _, hres, .inl ⟨rfl, ⟨h.ioStart, h.good, ?_, ?_, ?_, h.error, h.redo, h.pnfsError, rfl⟩, ⟨rfl, rfl, rfl⟩, ?_,
      not_le.mpr hlt, ?_⟩⟩
    · exact Nat.le_add_right_of_le hstart
    · change hdr.argsOffset + count + (hdr.argsCount - count) = start + total
      change count < hdr.argsCount at hlt
      omega
    · exact Nat.sub_pos_of_lt hlt
    · rw [shortAcks, if_pos ⟨hlt, hlevel⟩]
      rfl
    · exact fun h' => absurd (hops.symm.trans h') (by decide)
  · refine ⟨_, _, hres, .inl ⟨rfl, ⟨h.ioStart, h.good, h.start_le, h.offset, h.pos, h.error, h.redo, h.pnfsError, rfl⟩,
      ⟨rfl, rfl, rfl⟩, ?_, not_le.mpr hlt, fun _ => hlevel⟩⟩
    rw [shortAcks, if_neg fun hshort => hshort.2 hlevel]
    rfl

theorem nfsPgioResult (reply : WritebackReply) : ∃ hdr' restarted, hdr.nfsPgioResult reply = (hdr', restarted) ∧
      (restarted ∧ InFlight start total hdr' ∧ Restarted hdr reply hdr' ∨
        restarted = false ∧ Ended start hdr (.reply reply) hdr') := by
  cases reply with
  | retry => exact ⟨_, _, rfl, .inl ⟨rfl, h, ⟨rfl, rfl, rfl⟩, rfl, fun hc => hc, fun _ => rfl⟩⟩
  | error status verf =>
    have hlevel : (verf.getD hdr.verf).committed = (WritebackEvent.reply (.error status verf)).level := by
      cases verf with
      | none => exact h.level
      | some verf => rfl
    exact ⟨_, _, rfl, .inr ⟨rfl, h.failed (.reply (.error status verf)) { hdr.toPgioHeader with verf := verf.getD hdr.verf }
      rfl rfl rfl rfl hlevel (fun hc => hc) _⟩⟩
  | written count verf => exact h.written count verf

end

end InFlight

end WriteHeader

namespace Writeback
variable {total : Nat}

/-- Some reply acknowledged the byte with a commit level that needs no COMMIT. -/
def Stable (s : Writeback shift) (b : Nat) : Prop := ∃ ack ∈ s.acks, StableLevel s.hdr.lseg ack.committed ∧ ack.Has b

/-- An event after which the call goes on. -/
structure Continues (start total : Nat) (s : Writeback shift) (event : WritebackEvent) (t : Writeback shift) : Prop where
  done : t.done = false
  inFlight : t.hdr.InFlight start total
  same : s.hdr.Same t.hdr
  acks : t.acks = s.acks ++ s.acked event
  advance : t.hdr.argsOffset = s.hdr.argsOffset + ackedBytes (shortAcks s.hdr.argsOffset s.hdr.argsCount [event])
  incomplete : ¬ event.Completes s.hdr.argsCount

/-- An event that ends the call. -/
structure Finished (start : Nat) (s : Writeback shift) (event : WritebackEvent) (t : Writeback shift) : Prop where
  done : t.done
  same : s.hdr.Same t.hdr
  acks : t.acks = s.acks ++ s.acked event
  redo : t.hdr.iohdrRedo → s.hdr.tkOps = false
  level : t.hdr.iohdrRedo = false → t.hdr.verf.committed = event.level
  good : t.hdr.iohdrRedo = false → StableLevel s.hdr.lseg event.level →
    event.Completes s.hdr.argsCount ∧ t.hdr.iohdrError = false ∨
      ¬ event.Completes s.hdr.argsCount ∧ t.hdr.iohdrError ∧ start + t.hdr.goodBytes = s.hdr.argsOffset

/-- A reply continues the write behind the bytes it acknowledged, or ends it. -/
theorem step_inFlight (h : s.hdr.InFlight start total) (hs : s.step event = some t) :
    Continues start total s event t ∨ Finished start s event t := by
  unfold step at hs
  split at hs
  · cases hs
  cases hops : s.hdr.tkOps with
  | true =>
    cases event with
    | pnfsError error => simp [hops] at hs
    | reply reply =>
      obtain ⟨hdr', restarted, hres, ⟨rfl, hin, hrestarted⟩ | ⟨rfl, hended⟩⟩ := h.nfsPgioResult reply
      · simp only [hops, if_true, hres] at hs
        cases hs
        exact .inl ⟨rfl, hin, hrestarted.same, rfl, hrestarted.advance, hrestarted.incomplete⟩
      · simp only [hops, if_true, hres] at hs
        cases hs
        have hpnfs := hended.resent hops
        exact .inr ⟨rfl, hended.same, rfl, fun hredo => absurd ((hended.redo hpnfs).symm.trans hredo) (by decide),
          fun _ => hended.level hpnfs, fun _ => hended.good hpnfs⟩
  | false =>
    simp only [hops, Bool.false_eq_true, if_false, Option.some.injEq] at hs
    subst hs
    right
    cases event with
    | pnfsError error =>
      have hne : error.1 ≠ 0 := error.2.ne
      have hdone : s.hdr.mypnfsLdWriteDone (.pnfsError error) =
          { s.hdr with pnfsError := error.1, iohdrRedo := true } := if_pos hne
      rw [hdone]
      exact ⟨rfl, ⟨rfl, rfl, rfl⟩, rfl, fun _ => hops, nofun, nofun⟩
    | reply reply =>
      obtain ⟨hdr', restarted, hres, hcase⟩ := h.nfsPgioResult reply
      have hdone : s.hdr.mypnfsLdWriteDone (.reply reply) =
          if hdr'.pnfsError ≠ 0 then { hdr' with iohdrRedo := true } else hdr' := by
        simp only [WriteHeader.mypnfsLdWriteDone, hres]
      rw [hdone]
      rcases hcase with ⟨-, hin, hrestarted⟩ | ⟨-, hended⟩
      · rw [if_neg (not_not.mpr hin.pnfsError)]
        have hlevel := hrestarted.level hops
        refine ⟨rfl, hrestarted.same, rfl, fun _ => hops, fun _ => hin.level.trans hlevel.symm, fun _ hstable => ?_⟩
        rw [hlevel] at hstable
        exact (not_stableLevel_unstable hstable).elim
      · by_cases hpnfs : hdr'.pnfsError = 0
        · rw [if_neg (not_not.mpr hpnfs)]
          exact ⟨rfl, hended.same, rfl, fun _ => hops, fun _ => hended.level hpnfs, fun _ => hended.good hpnfs⟩
        · rw [if_pos hpnfs]
          exact ⟨rfl, ⟨hended.same.pages, hended.same.lseg, hended.same.tkOps⟩, rfl, fun _ => hops, nofun, nofun⟩

/-! ### Runs -/

theorem mem_acked_iff {lseg : Option DsWrite} {ack : AckRange} (hstable : StableLevel lseg ack.committed)
    (hinc : ¬ event.Completes s.hdr.argsCount) :
    ack ∈ s.acked event ↔ ack ∈ shortAcks s.hdr.argsOffset s.hdr.argsCount [event] := by
  rcases event with (_ | ⟨status, verf⟩ | ⟨count, verf⟩) | error
  · rfl
  · rfl
  · by_cases hlevel : verf.committed = nfsUnstable
    · rw [shortAcks, if_neg fun hshort => hshort.2 hlevel]
      simp only [acked, mem_singleton, shortAcks, not_mem_nil, iff_false]
      rintro rfl
      exact not_stableLevel_unstable (hlevel ▸ hstable)
    · rw [shortAcks, if_pos ⟨not_le.mp hinc, hlevel⟩]
      rfl
  · rfl

theorem exec_done {events : List WritebackEvent} (hdone : s.done) (hs : exec step s events = some t) : t = s := by
  cases events with
  | nil => exact (Option.some.inj hs).symm
  | cons event events =>
    obtain ⟨u, hu, -⟩ := exec_cons_iff.mp hs
    simp [step, hdone] at hu

/-- Before the last reply, all were short acknowledgements. -/
theorem exec_inFlight : ∀ {events : List WritebackEvent} {s t : Writeback shift}, s.hdr.InFlight start total →
    exec step s events = some t → t.done = false → t.hdr.InFlight start total ∧ s.hdr.Same t.hdr ∧
      t.hdr.argsOffset = s.hdr.argsOffset + ackedBytes (shortAcks s.hdr.argsOffset s.hdr.argsCount events) ∧
      ∀ ack, StableLevel s.hdr.lseg ack.committed →
        (ack ∈ t.acks ↔ ack ∈ s.acks ∨ ack ∈ shortAcks s.hdr.argsOffset s.hdr.argsCount events)
  | [], s, t, h, hs, _ => by
    cases hs
    exact ⟨h, ⟨rfl, rfl, rfl⟩, rfl, fun ack _ => by simp [shortAcks]⟩
  | event :: events, s, t, h, hs, hdone => by
    obtain ⟨u, hu, ht⟩ := exec_cons_iff.mp hs
    rcases step_inFlight h hu with hcont | hfin
    · obtain ⟨hin, hsame, hoffset, hacks⟩ := exec_inFlight hcont.inFlight ht hdone
      have hleft : u.hdr.argsCount = s.hdr.argsCount - ackedBytes (shortAcks s.hdr.argsOffset s.hdr.argsCount [event]) := by
        have := h.offset
        have := hcont.inFlight.offset
        have := hcont.advance
        omega
      rw [hcont.advance, hleft] at hoffset hacks
      refine ⟨hin, ⟨hsame.pages.trans hcont.same.pages, hsame.lseg.trans hcont.same.lseg, hsame.tkOps.trans hcont.same.tkOps⟩,
        ?_, fun ack hstable => ?_⟩
      · rw [hoffset, shortAcks_cons _ _ event events, ackedBytes_append, Nat.add_assoc]
      · rw [hacks ack (hcont.same.lseg.symm ▸ hstable), hcont.acks, mem_append, mem_acked_iff hstable hcont.incomplete,
          shortAcks_cons _ _ event events, mem_append, or_assoc]
    · rw [exec_done hfin.done ht, hfin.done] at hdone
      cases hdone

end Writeback

/-! ### The completion -/

theorem WriteHeader.mem_completePages_removed (hdr : WriteHeader shift) {req : NfsPage shift} :
    ∀ {reqs : List (NfsPage shift)} {bytes : Nat}, Tiles (start + bytes) reqs e →
      ((req, .removed) ∈ hdr.completePages bytes reqs ↔ req ∈ reqs ∧ StableLevel hdr.lseg hdr.verf.committed ∧
        (hdr.iohdrError → req.reqOffset + req.wbBytes ≤ start + hdr.goodBytes))
  | [], _, _ => by simp [completePages]
  | req' :: reqs, bytes, h => by
    obtain ⟨hoff, hrest⟩ := Tiles.cons_iff.mp h
    rw [Nat.add_assoc] at hrest
    have hhead : (req, Completed.removed) =
        (if hdr.iohdrError && decide (hdr.goodBytes < bytes + req'.wbBytes) then (req', .failed hdr.error)
          else if nfsWriteNeedCommit hdr.verf hdr.lseg then
            ({ req' with wbNio := 0, wbVerf := hdr.verf.verifier }, .commit (nfsMarkRequestCommit hdr.lseg))
          else (req', .removed)) ↔
        req = req' ∧ StableLevel hdr.lseg hdr.verf.committed ∧
          (hdr.iohdrError → req.reqOffset + req.wbBytes ≤ start + hdr.goodBytes) := by
      rw [← writeNeedCommit_eq_false_iff]
      split
      · rename_i herror
        simp only [Bool.and_eq_true, decide_eq_true_eq] at herror
        simp only [Prod.mk.injEq, reduceCtorEq, and_false, false_iff]
        rintro ⟨rfl, -, hgood⟩
        have := hgood herror.1
        omega
      · rename_i herror
        split <;> rename_i hneed
        · simp [hneed]
        · simp only [Bool.and_eq_true, decide_eq_true_eq, not_and, not_lt] at herror
          simp only [Prod.mk.injEq, and_true, Bool.not_eq_true] at hneed ⊢
          refine ⟨?_, And.left⟩
          rintro rfl
          refine ⟨rfl, hneed, fun h' => ?_⟩
          have := herror h'
          omega
    rw [completePages, mem_cons, mem_cons, mem_completePages_removed hdr hrest, hhead]
    exact (or_and_right).symm

theorem Writeback.Finished.mem_removed_iff
    (h : Finished start u event t) (hredo : t.hdr.iohdrRedo = false) (htiles : Tiles start u.hdr.pages e)
    (req : NfsPage shift) :
    (req, .removed) ∈ t.hdr.nfsWriteCompletion ↔ req ∈ u.hdr.pages ∧ StableLevel u.hdr.lseg event.level ∧
      (event.Completes u.hdr.argsCount ∨ req.reqOffset + req.wbBytes ≤ u.hdr.argsOffset) := by
  have htiles' : Tiles (start + 0) u.hdr.pages e := htiles
  rw [WriteHeader.nfsWriteCompletion, hredo, if_neg (by decide), h.same.pages, t.hdr.mem_completePages_removed htiles',
    h.same.lseg, h.level hredo]
  refine and_congr_right fun hreq => and_congr_right fun hstable => ?_
  rcases h.good hredo hstable with ⟨hcmp, herror⟩ | ⟨hincomplete, herror, hgood⟩
  · simp [hcmp, herror]
  · simp [hincomplete, herror, hgood]

theorem Writeback.exists_acked_of_completes {b : Nat}
    (h : event.Completes u.hdr.argsCount) (hle : u.hdr.argsOffset ≤ b) (hlt : b < u.hdr.argsOffset + u.hdr.argsCount) :
    ∃ ack ∈ u.acked event, ack.committed = event.level ∧ ack.Has b := by
  rcases event with (_ | ⟨status, verf⟩ | ⟨count, verf⟩) | error
  · cases h
  · cases h
  · have hcount : u.hdr.argsCount ≤ count := h
    exact ⟨_, mem_singleton_self _, rfl, hle, Nat.lt_of_lt_of_le hlt (Nat.add_le_add_left hcount _)⟩
  · cases h

theorem Writeback.offset_of_mem_acked {ack : AckRange} (h : ack ∈ u.acked event) : ack.offset = u.hdr.argsOffset := by
  unfold acked at h
  split at h
  · rw [mem_singleton.mp h]
  · cases h

theorem Writeback.eq_nil_of_tkOps (hops : s.hdr.tkOps = false)
    (hrun : exec step s events = some t) (hdone : t.done = false) : events = [] := by
  cases events with
  | nil => rfl
  | cons event events =>
    obtain ⟨u, hu, ht⟩ := exec_cons_iff.mp hrun
    have hu' : u.done := by
      obtain ⟨-, hu⟩ := of_unless hu
      simp only [hops, Bool.false_eq_true, if_false, Option.some.injEq] at hu
      rw [← hu]
    rw [exec_done hu' ht, hu'] at hdone
    cases hdone

theorem Writeback.exists_last {total : Nat}
    (h : s.hdr.InFlight start total) (hs : s.done = false) (hrun : exec step s events = some t) (hdone : t.done) :
    ∃ pre last u, events = pre ++ [last] ∧ exec step s pre = some u ∧ u.done = false ∧ Finished start u last t ∧
      (t.hdr.iohdrRedo → pre = []) := by
  obtain rfl | ⟨pre, last, rfl⟩ := eq_nil_or_concat' events
  · cases hrun
    cases hs.symm.trans hdone
  obtain ⟨u, hpre, hlast⟩ := exec_concat_iff.mp hrun
  have hu : u.done = false := by
    cases hu : u.done with
    | false => rfl
    | true => simp [step, hu] at hlast
  obtain ⟨hin, hsame, -⟩ := exec_inFlight h hpre hu
  rcases step_inFlight hin hlast with hcont | hfin
  · cases hdone.symm.trans hcont.done
  · exact ⟨pre, last, u, rfl, hpre, hu, hfin, fun hredo => eq_nil_of_tkOps (hsame.tkOps.symm.trans (hfin.redo hredo)) hpre hu⟩

theorem Mirrors.inFlight {desc : PgioDescriptor shift} {first : NfsPage shift} {rest : List (NfsPage shift)}
    (h : Mirrors desc) (hlist : desc.mirror.pgList = first :: rest) (lseg : Option DsWrite) (tkOps : Bool) (stable : U32) :
    (Writeback.init desc.mirror first lseg tkOps stable).hdr.InFlight first.reqOffset (totalBytes (first :: rest)) := by
  have hcount : desc.mirror.pgCount = totalBytes (first :: rest) := hlist ▸ (h.first first rest hlist).2
  refine ⟨rfl, hcount, le_rfl, congrArg (first.reqOffset + ·) hcount, ?_, rfl, rfl, rfl, rfl⟩
  have hpos : 0 < totalBytes (first :: rest) := Nat.lt_of_lt_of_le first.bytes_pos (by simp [totalBytes])
  exact hpos.trans_eq hcount.symm

/-- No byte of a request that the last reply lets the client drop was left to a short reply whose level needs a COMMIT:
    all requests of a complete write, and those before an error. -/
def NoLevelLost (lseg : Option DsWrite) (start : Nat) (reqs : List (NfsPage shift)) (events : List WritebackEvent) : Prop :=
  ∀ pre last, events = pre ++ [last] → StableLevel lseg last.level →
    ∀ ack ∈ shortAcks start (totalBytes reqs) pre, ∀ req ∈ reqs, (∃ b, ack.Has b ∧ req.Has b) →
      let acked := ackedBytes (shortAcks start (totalBytes reqs) pre)
      last.Completes (totalBytes reqs - acked) ∨ req.reqOffset + req.wbBytes ≤ start + acked →
        StableLevel lseg ack.committed

/-- A request is removed without COMMIT only if all its bytes were acknowledged so, exactly if replies lose no level. -/
theorem nfsWriteCompletion_stable_iff (desc₀ desc : PgioDescriptor shift) (adds : List (AddEnv × NfsPage shift))
    (first : NfsPage shift) (rest : List (NfsPage shift)) (hempty : desc₀.mirror.pgList = [])
    (hadds : exec addStep desc₀ adds = some desc) (hreqs : adds.map (·.2) = first :: rest)
    (lseg : Option DsWrite) (tkOps : Bool) (stable : U32) (events : List WritebackEvent) (t : Writeback shift)
    (hrun : exec Writeback.step (.init desc.mirror first lseg tkOps stable) events = some t) (hdone : t.done) :
    (∀ req, (req, .removed) ∈ t.hdr.nfsWriteCompletion → ∀ b, req.Has b → t.Stable b) ↔
      NoLevelLost lseg first.reqOffset (first :: rest) events := by
  have hlist : desc.mirror.pgList = first :: rest := by rw [pgList_of_adds hadds, hempty, hreqs, nil_append]
  have hmirror : Mirrors desc := exec_invariant (fun _ _ _ h hs => h.addStep hs) (Mirrors.of_nil hempty) hadds
  have hinit := hmirror.inFlight hlist lseg tkOps stable
  have hcount : desc.mirror.pgCount = totalBytes (first :: rest) := hlist ▸ (hmirror.first first rest hlist).2
  have hcontiguous : Contiguous (first :: rest) := hlist ▸ hmirror.contiguous
  obtain ⟨pre, last, u, rfl, hpre, hu, hfin, hresent⟩ := Writeback.exists_last hinit rfl hrun hdone
  obtain ⟨hin, hsame, hoffset, hacks⟩ := Writeback.exec_inFlight hinit hpre hu
  have hpages : u.hdr.pages = first :: rest := hsame.pages.trans hlist
  have hlseg : u.hdr.lseg = lseg := hsame.lseg
  change _ = first.reqOffset + ackedBytes (shortAcks first.reqOffset desc.mirror.pgCount pre) at hoffset
  change ∀ ack, _ → (_ ↔ ack ∈ [] ∨ ack ∈ shortAcks first.reqOffset desc.mirror.pgCount pre) at hacks
  rw [hcount] at hoffset hacks
  have hleft : u.hdr.argsCount = totalBytes (first :: rest) -
      ackedBytes (shortAcks first.reqOffset (totalBytes (first :: rest)) pre) := by
    have := hin.offset
    omega
  have hremoved := fun hredo => hfin.mem_removed_iff hredo (hpages ▸ hcontiguous.tiles)
  rw [hpages, hlseg, hoffset, hleft] at hremoved
  have hstable : ∀ b, t.Stable b ↔
      ∃ ack, (ack ∈ shortAcks first.reqOffset (totalBytes (first :: rest)) pre ∨ ack ∈ u.acked last) ∧
        StableLevel lseg ack.committed ∧ ack.Has b := by
    intro b
    simp only [Writeback.Stable, hfin.acks, hfin.same.lseg, hlseg, mem_append]
    refine exists_congr fun ack => ⟨?_, ?_⟩ <;> rintro ⟨hmem, hlevel, hhas⟩
    · exact ⟨hmem.imp_left fun hmem => by simpa using (hacks ack hlevel).mp hmem, hlevel, hhas⟩
    · exact ⟨hmem.imp_left fun hmem => (hacks ack hlevel).mpr (.inr hmem), hlevel, hhas⟩
  constructor
  · intro hall pre' last' heq hlevel ack hack req hreq hmeet acked hcond
    obtain ⟨b, hb, hreqb⟩ := hmeet
    obtain ⟨rfl, rfl⟩ : pre = pre' ∧ last = last' := by simpa using append_inj' heq rfl
    have hredo : t.hdr.iohdrRedo = false := by
      cases hredo : t.hdr.iohdrRedo with
      | false => rfl
      | true => simp [hresent hredo, shortAcks] at hack
    have hmem := (hremoved hredo req).mpr ⟨hreq, hlevel, hcond⟩
    obtain ⟨ack', hack' | hack', hstable', hb'⟩ := (hstable b).mp (hall req hmem b hreqb)
    · rw [shortAcks_unique hack hack' hb hb']
      exact hstable'
    · -- the last reply is for the bytes behind the short ones
      have := Writeback.offset_of_mem_acked hack'
      have := (shortAcks_range hack).2
      simp only [AckRange.Has] at hb hb'
      omega
  · intro hlost req hmem b hb
    have hredo : t.hdr.iohdrRedo = false := by
      cases hredo : t.hdr.iohdrRedo with
      | false => rfl
      | true => simp [WriteHeader.nfsWriteCompletion, hredo] at hmem
    obtain ⟨hreq, hlevel, hcond⟩ := (hremoved hredo req).mp hmem
    have hspan := (hcontiguous.tiles.mem_spans_iff b).mp ⟨req, hreq, hb⟩
    rw [hstable]
    by_cases hb' : b < u.hdr.argsOffset
    · obtain ⟨ack, hack, hhas⟩ := exists_shortAck hspan.1 (hoffset ▸ hb')
      exact ⟨ack, .inl hack, hlost pre last rfl hlevel ack hack req hreq ⟨b, hhas, hb⟩ hcond, hhas⟩
    · have hcmp : last.Completes u.hdr.argsCount := by
        rw [hleft]
        refine hcond.resolve_right fun hend => hb' ?_
        rw [hoffset]
        exact lt_of_lt_of_le hb.2 hend
      obtain ⟨ack, hack, hcommitted, hhas⟩ :=
        Writeback.exists_acked_of_completes hcmp (not_lt.mp hb') (hin.offset.symm ▸ hspan.2)
      exact ⟨ack, .inr hack, hcommitted ▸ hlevel, hhas⟩

end

def tenByteRequest : NfsPage 12 := .create (.page 0) 0 0 0 10 0 0 (by decide) (by decide)

def tenByteMirror : PgioDescriptor 12 := ⟨{ pgList := [tenByteRequest], pgBase := 0, pgCount := 10, pgBsize := 16 }, 0, 0⟩

def tenByteWrite : Writeback 12 := .init tenByteMirror.mirror tenByteRequest none true nfsUnstable

def twoReplies (level : U32) : List WritebackEvent :=
  [.reply (.written 4 { committed := level }), .reply (.written 6 { committed := nfsFileSync })]

theorem nfsWriteCompletion_stable_fileSync : ∃ t, exec Writeback.step tenByteWrite (twoReplies nfsFileSync) = some t ∧
    t.hdr.nfsWriteCompletion = [(tenByteRequest, .removed)] ∧
    ∀ req, (req, .removed) ∈ t.hdr.nfsWriteCompletion → ∀ b, req.Has b → t.Stable b := by
  refine ⟨_, rfl, rfl, ?_⟩
  refine (nfsWriteCompletion_stable_iff ⟨{ pgBsize := 16 }, 0, 0⟩ tenByteMirror [({ pgTest := 16 }, tenByteRequest)]
    tenByteRequest [] rfl rfl rfl none true nfsUnstable (twoReplies nfsFileSync) _ rfl rfl).mpr ?_
  intro pre last heq _ ack hack _ _ _ _ _
  have hsplit : (twoReplies nfsFileSync).take 1 ++ (twoReplies nfsFileSync).drop 1 = pre ++ [last] := heq
  obtain ⟨rfl, -⟩ := append_inj' hsplit rfl
  obtain rfl : ack = ⟨0, 4, nfsFileSync⟩ := mem_singleton.mp hack
  exact .inl rfl

/-- The first four bytes were acknowledged with `NFS_DATA_SYNC` only, and there is no layout segment. -/
theorem nfsWriteCompletion_levelLost : ∃ t, exec Writeback.step tenByteWrite (twoReplies nfsDataSync) = some t ∧
    t.done ∧ t.hdr.nfsWriteCompletion = [(tenByteRequest, .removed)] ∧ tenByteRequest.Has 0 ∧ ¬ t.Stable 0 := by
  refine ⟨_, rfl, rfl, rfl, ⟨by decide, by decide⟩, ?_⟩
  rintro ⟨ack, hack, hlevel, hhas⟩
  have hacks : ack ∈ [⟨0, 4, nfsDataSync⟩, ⟨4, 6, nfsFileSync⟩] := hack
  rcases mem_cons.mp hacks with rfl | hsecond
  · exact absurd hlevel (by decide)
  · obtain rfl := mem_singleton.mp hsecond
    exact absurd hhas (by decide)

end Mynfs
