import Mynfs.Session.Sequence

/-! The sequence numbers of a slot without wraparound; the slot has them modulo `2 ^ 32`. -/

namespace Mynfs

/-- The next, the last acknowledged and the highest number sent. -/
structure Counters where
  next : Int
  acked : Int
  sent : Int
  /-- The number was used up; the next release moves on to the following one. -/
  used : Bool

/-- What a SEQUENCE result says of the number. -/
inductive Verdict
  | acknowledged
  | unanswered
  | acknowledgedRetry
  | misordered
  | unchanged
  | rejected

def verdict (status : Int) : Verdict :=
  if status = 0 then .acknowledged
  else if status = 1 then .unanswered
  else if status = negErr Nfs4err.delay then .unchanged
  else if status = negErr Nfs4err.retryUncachedRep ∨ status = negErr Nfs4err.seqFalseRetry then .acknowledgedRetry
  else if status = negErr Nfs4err.badslot then .unchanged
  else if status = negErr Nfs4err.seqMisordered then .misordered
  else if status = negErr Nfs4err.badsession ∨ status = negErr Nfs4err.deadsession ∨
      status = negErr Nfs4err.connNotBoundToSession then .unchanged
  else .rejected

namespace Counters

def start : Counters := ⟨1, 0, 1, false⟩

variable {c : Counters}

section
variable (c)

/-- How far the furthest number is ahead of the last acknowledged one. -/
def lead : Int := max c.next c.sent - c.acked

def record : Counters := { c with sent := max c.sent c.next }

def reply : Verdict → Counters
  | .acknowledged => { c.record with acked := c.next, used := true }
  | .unanswered => { c.record with used := true }
  | .acknowledgedRetry => { c.record with acked := c.next, next := c.next + 1 }
  -- step back towards the last acknowledged number, or retry from the highest one sent
  | .misordered => { c.record with next := if 1 < c.next - c.acked then c.next - 1 else c.record.sent }
  | .unchanged => c
  | .rejected => { c with used := true }

def release : Counters := { c with next := if c.used then c.next + 1 else c.next, used := false }

@[simp] theorem record_next : c.record.next = c.next := rfl
@[simp] theorem record_acked : c.record.acked = c.acked := rfl
@[simp] theorem record_used : c.record.used = c.used := rfl
@[simp] theorem record_sent : c.record.sent = max c.sent c.next := rfl

theorem lead_record : c.record.lead = c.lead := by
  simp only [lead, record]
  omega

end

theorem release_of_not_used (h : c.used = false) : c.release = c := by
  cases c
  simp_all [release]

/-- The order of the counters: an unused number is past the acknowledged one, and so is all that was
    sent. -/
structure Ordered (c : Counters) : Prop where
  acked_le : c.acked ≤ c.next
  acked_lt : c.used = false → c.acked < c.next
  acked_le_sent : c.acked ≤ c.sent

theorem ordered_start : start.Ordered := ⟨by decide, fun _ => by decide, by decide⟩

variable (h : c.Ordered)
include h

theorem ordered_record : c.record.Ordered :=
  ⟨h.acked_le, h.acked_lt, h.acked_le_sent.trans (le_max_left _ _)⟩

/-- A verdict keeps the counters in order. -/
theorem ordered_reply (hu : c.used = false) (v : Verdict) : (c.reply v).Ordered := by
  have hlt := h.acked_lt hu
  have hs := h.acked_le_sent
  cases v with
  | acknowledged => exact ⟨le_refl _, by simp [reply], le_max_right _ _⟩
  | unanswered => exact ⟨hlt.le, by simp [reply], by simp only [reply, record]; omega⟩
  | acknowledgedRetry =>
    refine ⟨?_, fun _ => ?_, le_max_right _ _⟩ <;> simp only [reply, record] <;> omega
  | misordered =>
    have hnext : c.acked < (c.reply .misordered).next := by
      simp only [reply, record]
      split <;> omega
    exact ⟨hnext.le, fun _ => hnext, by simp only [reply, record]; omega⟩
  | unchanged => exact h
  | rejected => exact ⟨hlt.le, by simp [reply], hs⟩

theorem ordered_release : c.release.Ordered := by
  have hlt : c.acked < c.release.next := by
    cases hu : c.used with
    | false => simpa [release, hu] using h.acked_lt hu
    | true =>
      have := h.acked_le
      simp only [release, hu, if_true]
      omega
  exact ⟨hlt.le, fun _ => hlt, h.acked_le_sent⟩

theorem acked_le_reply (v : Verdict) : c.acked ≤ (c.reply v).acked := by
  have := h.acked_le
  cases v <;> simp [reply, record, this]

end Counters

/-- The slot holds the counters modulo `2 ^ 32`. -/
structure Slot.Holds (slot : Slot) (c : Counters) : Prop where
  seqNr : slot.seqNr = BitVec.ofInt 32 c.next
  lastAcked : slot.seqNrLastAcked = BitVec.ofInt 32 c.acked
  highestSent : slot.seqNrHighestSent = BitVec.ofInt 32 c.sent
  seqDone : slot.seqDone = c.used

namespace Slot.Holds

variable {slot : Slot} {c : Counters}

section
variable (h : slot.Holds c)
include h

variable (ho : c.Ordered) (hw : c.lead < 2 ^ 31)
include ho hw

theorem newer_highestSent : Serial.newer slot.seqNr slot.seqNrHighestSent = decide (c.sent < c.next) := by
  have h1 := ho.acked_le
  have h2 := ho.acked_le_sent
  simp only [Counters.lead] at hw
  rw [h.seqNr, h.highestSent]
  exact Serial.newer_ofInt (by decide) (by omega) (by omega)

theorem diff_lastAcked : Serial.diff slot.seqNr slot.seqNrLastAcked = c.next - c.acked := by
  have h1 := ho.acked_le
  simp only [Counters.lead] at hw
  rw [h.seqNr, h.lastAcked]
  exact Serial.diff_ofInt (by decide) (by omega) (by omega)

theorem diff_highestSent : Serial.diff slot.seqNrHighestSent slot.seqNrLastAcked = c.sent - c.acked := by
  have h1 := ho.acked_le_sent
  simp only [Counters.lead] at hw
  rw [h.highestSent, h.lastAcked]
  exact Serial.diff_ofInt (by decide) (by omega) (by omega)

theorem record : (nfs4SlotSequenceRecordSent slot slot.seqNr).Holds c.record := by
  have hn := h.newer_highestSent ho hw
  by_cases hlt : c.sent < c.next
  · rw [nfs4SlotSequenceRecordSent, hn, decide_eq_true hlt, if_pos rfl]
    exact ⟨h.seqNr, h.lastAcked, by simp [max_eq_right hlt.le, h.seqNr], h.seqDone⟩
  · rw [nfs4SlotSequenceRecordSent, hn, decide_eq_false hlt, if_neg (by decide)]
    exact ⟨h.seqNr, h.lastAcked, by simp [max_eq_left (not_lt.mp hlt), h.highestSent], h.seqDone⟩

omit ho hw

theorem release (assign : Option Nat) : (nfs41ReleaseSlot assign slot).1.Holds c.release := by
  have hnr : (if slot.seqDone then slot.seqNr + 1 else slot.seqNr) = BitVec.ofInt 32 c.release.next := by
    rw [h.seqDone, h.seqNr, Counters.release]
    cases c.used <;> simp [BitVec.ofInt_add]
  cases assign <;> exact ⟨hnr, h.lastAcked, h.highestSent, rfl⟩

theorem release_unused (hu : c.used = false) (assign : Option Nat) : (nfs41ReleaseSlot assign slot).1.Holds c := by
  have := h.release assign
  rwa [Counters.release_of_not_used hu] at this

/-- An acknowledgement moves all counters to the number in use. -/
theorem acked (ho : c.Ordered) (hw : c.lead < 2 ^ 31) :
    (nfs4SlotSequenceAcked slot slot.seqNr).Holds { c.record with acked := c.next } :=
  have hrec := h.record ho hw
  ⟨hrec.seqNr, h.seqNr, hrec.highestSent, hrec.seqDone⟩

theorem setSeqDone : ({ slot with seqDone := true } : Slot).Holds { c with used := true } :=
  ⟨h.seqNr, h.lastAcked, h.highestSent, rfl⟩

theorem setSeqNr {nr : U32} {n : Int} (hn : nr = BitVec.ofInt 32 n) :
    ({ slot with seqNr := nr } : Slot).Holds { c with next := n } :=
  ⟨hn, h.lastAcked, h.highestSent, h.seqDone⟩

end

end Slot.Holds

/-- The slot left by `o` holds `c`, and a used-up number is left only with a task whose call is over. -/
structure SequenceOutcome.Sound (o : SequenceOutcome) (c : Counters) : Prop where
  holds : o.slot.Holds c
  used : c.used → o.phase = .done

namespace Sequence

variable {slot : Slot} {c : Counters} {task : RpcTask} {env : SequenceEnv}

section
variable (h : slot.Holds c)
include h

theorem sound_out (effects : List SequenceEffect) : (out task slot effects).Sound c :=
  ⟨h, fun _ => rfl⟩

variable (hu : c.used = false)
include hu

theorem sound_outRetry : (outRetry task slot).Sound c := by
  unfold outRetry
  split
  · exact ⟨h, fun hc => absurd hc (by simp [hu])⟩
  · exact sound_out h []

theorem sound_retryNowait : (retryNowait env task slot).Sound c := by
  unfold retryNowait
  split
  · exact ⟨h.release_unused hu env.assign, fun hc => absurd hc (by simp [hu])⟩
  · exact sound_out h []

theorem sound_sessionRecover (status : Int) : (sessionRecover env task status slot).Sound c :=
  ⟨h.release_unused hu env.assign, fun hc => absurd hc (by simp [hu])⟩

theorem sound_probeAndRetry : (probeAndRetry env task slot).Sound c := by
  have hattached : ({ slot with privileged := true } : Slot).Holds c := ⟨h.seqNr, h.lastAcked, h.highestSent, h.seqDone⟩
  have hprobe : (nfs4ProbeSequence env slot).1.Holds c := by
    unfold nfs4ProbeSequence
    split
    · exact h.release_unused hu env.assign
    · exact hattached.release_unused hu env.assign
    · exact hattached
  refine ⟨?_, fun hc => absurd hc (by simp [hu])⟩
  cases hr : task.canRestart with
  | true => simpa [probeAndRetry, hr] using hprobe
  | false => simpa [probeAndRetry, hr] using hprobe

omit hu

/-- Processing the reply to a transmitted call acts on the numbers as its verdict says. -/
theorem sound_process (ho : c.Ordered) (hw : c.lead < 2 ^ 31) (hu : c.used = false)
    (hsent : task.wasSent) (res : SequenceRes) :
    (nfs41SequenceProcess env task res slot).Sound (c.reply (verdict (status task res))) := by
  have hrec := h.record ho hw
  have hdone : ¬(task.wasSent = false ∨ slot.seqDone) := by simp [hsent, h.seqDone, hu]
  rw [nfs41SequenceProcess, if_neg hdone]
  generalize status task res = st
  by_cases h0 : st = 0
  · simp only [verdict, if_pos h0]
    exact sound_out (h.acked ho hw).setSeqDone _
  by_cases h1 : st = 1
  · simp only [verdict, if_neg h0, if_pos h1]
    exact sound_out hrec.setSeqDone _
  by_cases hdelay : st = negErr Nfs4err.delay
  · simp only [verdict, if_neg h0, if_neg h1, if_pos hdelay]
    exact sound_outRetry h hu
  by_cases hreplay : st = negErr Nfs4err.retryUncachedRep ∨ st = negErr Nfs4err.seqFalseRetry
  · simp only [verdict, if_neg h0, if_neg h1, if_neg hdelay, if_pos hreplay]
    refine sound_retryNowait ((h.acked ho hw).setSeqNr ?_) hu
    rw [BitVec.ofInt_add, (h.acked ho hw).seqNr]
    rfl
  by_cases hbad : st = negErr Nfs4err.badslot
  · simp only [verdict, if_neg h0, if_neg h1, if_neg hdelay, if_neg hreplay, if_pos hbad]
    split
    · exact sound_sessionRecover h hu _
    · exact sound_retryNowait h hu
  by_cases hmis : st = negErr Nfs4err.seqMisordered
  · simp only [verdict, if_neg h0, if_neg h1, if_neg hdelay, if_neg hreplay, if_neg hbad, if_pos hmis, Counters.reply]
    have hdiff := hrec.diff_lastAcked (Counters.ordered_record ho) (by rwa [Counters.lead_record])
    rw [hdiff, Counters.record_next, Counters.record_acked]
    by_cases hgap : 1 < c.next - c.acked
    · have hpred : (nfs4SlotSequenceRecordSent slot slot.seqNr).seqNr - 1 = BitVec.ofInt 32 (c.next - 1) := by
        rw [hrec.seqNr, ← Serial.ofInt_sub]
        rfl
      have hback := hrec.setSeqNr hpred
      rw [if_pos hgap, if_pos hgap]
      split
      · exact sound_probeAndRetry hback hu
      · exact sound_retryNowait hback hu
    · rw [if_neg hgap, if_neg hgap]
      exact sound_outRetry (hrec.setSeqNr hrec.highestSent) hu
  by_cases hlost : st = negErr Nfs4err.badsession ∨ st = negErr Nfs4err.deadsession ∨
      st = negErr Nfs4err.connNotBoundToSession
  · simp only [verdict, if_neg h0, if_neg h1, if_neg hdelay, if_neg hreplay, if_neg hbad, if_neg hmis, if_pos hlost]
    exact sound_sessionRecover h hu _
  · simp only [verdict, if_neg h0, if_neg h1, if_neg hdelay, if_neg hreplay, if_neg hbad, if_neg hmis, if_neg hlost]
    exact sound_out h.setSeqDone _

end

end Sequence

end Mynfs
