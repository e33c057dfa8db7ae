import Mynfs.Session.Counters

/-! Exactly-once semantics of a fore-channel slot, by its unbounded counters modulo `2 ^ 32`. -/

namespace Mynfs

open List
namespace SlotState
open Machine

section
variable {s t : SlotState}

theorem step_acquire {privileged : Bool} {generation : Nat} (h : s.step (.acquire privileged generation) = some t) :
    s.phase = .free ∧ t = ⟨{ s.slot with privileged := privileged, generation := generation }, .held false⟩ := by
  simp only [step] at h
  split at h <;> simp_all

theorem step_transmit (h : s.step .transmit = some t) : (∃ sent, s.phase = .held sent) ∧ t = ⟨s.slot, .held true⟩ := by
  simp only [step] at h
  split at h <;> simp_all

theorem step_process {env : SequenceEnv} {tkStatus : Int} {rpcProc : RpcProc} {canRestart : Bool}
    {res : SequenceRes} (h : s.step (.process env tkStatus rpcProc canRestart res) = some t) :
    ∃ sent, s.phase = .held sent ∧
      t.slot = (nfs41SequenceProcess env ⟨sent, tkStatus, rpcProc, canRestart⟩ res s.slot).slot ∧
      t.phase = (nfs41SequenceProcess env ⟨sent, tkStatus, rpcProc, canRestart⟩ res s.slot).phase := by
  simp only [step] at h
  split at h
  next sent hp =>
    cases h
    exact ⟨sent, hp, rfl, rfl⟩
  · cases h

theorem step_release {assign : Option Nat} (h : s.step (.release assign) = some t) :
    t.slot = (nfs41ReleaseSlot assign s.slot).1 ∧ (t.phase = .held false ∨ t.phase = .free) := by
  simp only [step] at h
  split at h
  · cases h
    exact ⟨rfl, ite_eq_or_eq _ _ _⟩
  · cases h

end

/-- What an event does to the counters; of the slot only the phase is looked at. -/
def track (s : SlotState) (e : SlotEvent) (c : Counters) : Counters :=
  match e with
  | .process _ tkStatus rpcProc canRestart res =>
    if s.phase = .held true then c.reply (verdict (Sequence.status ⟨true, tkStatus, rpcProc, canRestart⟩ res)) else c
  | .release _ => c.release
  | _ => c

def trackedStep (x : SlotState × Counters) (e : SlotEvent) : Option (SlotState × Counters) :=
  (x.1.step e).map fun t => (t, track x.1 e x.2)

variable {x y : SlotState × Counters} {e : SlotEvent} {es : List SlotEvent} {s t : SlotState} {c : Counters} {env : SequenceEnv}
  {task : RpcTask} {slot : Slot}

theorem of_trackedStep (h : trackedStep x e = some y) : x.1.step e = some y.1 ∧ y.2 = track x.1 e x.2 := by
  obtain ⟨u, hu, rfl⟩ := Option.map_eq_some_iff.mp h
  exact ⟨hu, rfl⟩

theorem exec_of_tracked (h : exec trackedStep x es = some y) : exec step x.1 es = some y.1 := by
  have hsim : ∀ (u : SlotState × Counters) (s : SlotState) (e : SlotEvent) (v : SlotState × Counters), True → u.1 = s →
      trackedStep u e = some v → ∃ t, step s e = some t ∧ v.1 = t := by
    rintro u s e v - rfl hv
    exact ⟨v.1, (of_trackedStep hv).1, rfl⟩
  obtain ⟨t, ht, rfl⟩ := exec_simulation_of hsim (always_true _ _) rfl h
  exact ht

/-- The slot follows its counters. -/
structure Tracks (s : SlotState) (c : Counters) : Prop where
  holds : s.slot.Holds c
  ordered : c.Ordered
  used : c.used → s.phase = .done

theorem Tracks.unused (h : Tracks s c) (hp : s.phase ≠ .done) : c.used = false := by
  cases hu : c.used with
  | false => rfl
  | true => exact absurd (h.used hu) hp

theorem tracks_create (slotid : U32) : Tracks (create slotid) .start :=
  ⟨⟨rfl, rfl, rfl, rfl⟩, Counters.ordered_start, fun h => by cases h⟩

/-- No number is `2 ^ 31` or more ahead of the last acknowledged one. -/
def InWindow (x : SlotState × Counters) : Prop := x.2.lead < 2 ^ 31

theorem process_unsent {res : SequenceRes}
    (h : task.wasSent = false) : nfs41SequenceProcess env task res slot = Sequence.out task slot [] := by
  rw [nfs41SequenceProcess, if_pos (.inl h)]

/-- The counters follow the slot as long as they stay in the window. -/
theorem tracks_step (hw : c.lead < 2 ^ 31) (h : Tracks s c) (hs : s.step e = some t) : Tracks t (track s e c) := by
  cases e with
  | acquire privileged generation =>
    obtain ⟨hp, rfl⟩ := step_acquire hs
    have hu := h.unused (by simp [hp])
    exact ⟨⟨h.holds.seqNr, h.holds.lastAcked, h.holds.highestSent, h.holds.seqDone⟩, h.ordered,
      fun hc => absurd hc (by simp [track, hu])⟩
  | transmit =>
    obtain ⟨⟨sent, hp⟩, rfl⟩ := step_transmit hs
    have hu := h.unused (by simp [hp])
    exact ⟨h.holds, h.ordered, fun hc => absurd hc (by simp [track, hu])⟩
  | process env tkStatus rpcProc canRestart res =>
    obtain ⟨sent, hp, hslot, hphase⟩ := step_process hs
    have hu := h.unused (by simp [hp])
    cases sent with
    | false =>
      have hc : track s (.process env tkStatus rpcProc canRestart res) c = c := by simp [track, hp]
      exact ⟨by rw [hslot, hc]; exact h.holds, by rw [hc]; exact h.ordered, fun _ => hphase⟩
    | true =>
      have hc : track s (.process env tkStatus rpcProc canRestart res) c =
          c.reply (verdict (Sequence.status ⟨true, tkStatus, rpcProc, canRestart⟩ res)) := by simp [track, hp]
      have hsound : (nfs41SequenceProcess env ⟨true, tkStatus, rpcProc, canRestart⟩ res s.slot).Sound
          (c.reply (verdict (Sequence.status ⟨true, tkStatus, rpcProc, canRestart⟩ res))) :=
        Sequence.sound_process h.holds h.ordered hw hu rfl res
      refine ⟨?_, ?_, fun hd => ?_⟩
      · rw [hslot, hc]
        exact hsound.holds
      · rw [hc]
        exact Counters.ordered_reply h.ordered hu _
      · rw [hc] at hd
        exact hphase.trans (hsound.used hd)
  | release assign =>
    obtain ⟨hslot, -⟩ := step_release hs
    exact ⟨by rw [hslot]; exact h.holds.release assign, Counters.ordered_release h.ordered, fun hd => by cases hd⟩

theorem tracks_trackedStep (x : SlotState × Counters) (e : SlotEvent) (y : SlotState × Counters) (hw : InWindow x)
    (h : Tracks x.1 x.2) (hs : trackedStep x e = some y) : Tracks y.1 y.2 := by
  obtain ⟨hstep, hc⟩ := of_trackedStep hs
  rw [hc]
  exact tracks_step hw h hstep

theorem tracks_exec {slotid : U32} (hw : Always trackedStep InWindow (create slotid, .start) es)
    (h : exec trackedStep (create slotid, .start) es = some x) : Tracks x.1 x.2 :=
  exec_invariant_of (I := fun x => Tracks x.1 x.2) tracks_trackedStep hw (tracks_create slotid) h

theorem acked_le_track (h : x.2.Ordered) (e : SlotEvent) : x.2.acked ≤ (track x.1 e x.2).acked := by
  cases e with
  | process env tkStatus rpcProc canRestart res =>
    simp only [track]
    split
    · exact Counters.acked_le_reply h _
    · exact le_refl _
  | _ => exact le_refl _

theorem acked_le_exec (h : Tracks x.1 x.2)
    (hw : Always trackedStep InWindow x es) (hr : exec trackedStep x es = some y) : x.2.acked ≤ y.2.acked := by
  have hstep : ∀ u e v, InWindow u → (Tracks u.1 u.2 ∧ x.2.acked ≤ u.2.acked) → trackedStep u e = some v →
      Tracks v.1 v.2 ∧ x.2.acked ≤ v.2.acked := by
    rintro u e v hu ⟨ht, hle⟩ hv
    refine ⟨tracks_trackedStep u e v hu ht hv, hle.trans ?_⟩
    rw [(of_trackedStep hv).2]
    exact acked_le_track ht.ordered e
  exact (exec_invariant_of hstep hw ⟨h, le_refl _⟩ hr).2

/-- The status acknowledges the number that was sent: the server has executed it, or says it has. -/
def Acknowledges : SlotEvent → Prop
  | .process _ tkStatus rpcProc canRestart res =>
    Sequence.status ⟨true, tkStatus, rpcProc, canRestart⟩ res = 0 ∨
    Sequence.status ⟨true, tkStatus, rpcProc, canRestart⟩ res = negErr Nfs4err.retryUncachedRep ∨
    Sequence.status ⟨true, tkStatus, rpcProc, canRestart⟩ res = negErr Nfs4err.seqFalseRetry
  | _ => False

/-- The last number sent was acknowledged. -/
structure AfterAck (s : SlotState) : Prop where
  seqNr : s.slot.seqNr = s.slot.seqNrLastAcked + if s.slot.seqDone then 0 else 1
  unsent : s.phase ≠ .held true

theorem release_seqNr (assign : Option Nat) (slot : Slot) :
    (nfs41ReleaseSlot assign slot).1.seqNr = (if slot.seqDone then slot.seqNr + 1 else slot.seqNr) ∧
    (nfs41ReleaseSlot assign slot).1.seqNrLastAcked = slot.seqNrLastAcked ∧ (nfs41ReleaseSlot assign slot).1.seqDone = false := by
  cases assign <;> exact ⟨rfl, rfl, rfl⟩

theorem afterAck_retryNowait (hd : slot.seqDone = false) (hnr : slot.seqNr = slot.seqNrLastAcked + 1) :
    AfterAck ⟨(Sequence.retryNowait env task slot).slot, (Sequence.retryNowait env task slot).phase⟩ := by
  obtain ⟨h1, h2, h3⟩ := release_seqNr env.assign slot
  unfold Sequence.retryNowait
  split
  · refine ⟨?_, ?_⟩
    · simp [h1, h2, h3, hd, hnr]
    · cases env.assign <;> simp [nfs41ReleaseSlot, SequenceOutcome.phase]
  · exact ⟨by simp [Sequence.out, hd, hnr], by simp [Sequence.out, SequenceOutcome.phase]⟩

theorem acked_seqNr (slot : Slot) : (nfs4SlotSequenceAcked slot slot.seqNr).seqNr = slot.seqNr ∧
    (nfs4SlotSequenceAcked slot slot.seqNr).seqNrLastAcked = slot.seqNr ∧
    (nfs4SlotSequenceAcked slot slot.seqNr).seqDone = slot.seqDone := by
  unfold nfs4SlotSequenceAcked nfs4SlotSequenceRecordSent
  split <;> exact ⟨rfl, rfl, rfl⟩

theorem afterAck_acknowledged (hp : s.phase = .held true)
    (hd : s.slot.seqDone = false) (ha : Acknowledges e) (hs : s.step e = some t) : AfterAck t := by
  cases e with
  | process env tkStatus rpcProc canRestart res =>
    obtain ⟨sent, hp', hslot, hphase⟩ := step_process hs
    obtain rfl : sent := by simpa [hp] using hp'.symm
    obtain ⟨h1, h2, h3⟩ := acked_seqNr s.slot
    obtain ⟨slot, phase⟩ := t
    subst hslot hphase
    rw [nfs41SequenceProcess, if_neg (by simp [hd])]
    rcases ha with h0 | hreplay
    · rw [if_pos h0]
      exact ⟨by simp [Sequence.out, h1, h2], by simp [Sequence.out, SequenceOutcome.phase]⟩
    · have h0 : ∀ {st : Int}, (st = negErr Nfs4err.retryUncachedRep ∨ st = negErr Nfs4err.seqFalseRetry) →
          ¬st = 0 ∧ ¬st = 1 ∧ ¬st = negErr Nfs4err.delay := by
        rintro st (rfl | rfl) <;> decide
      obtain ⟨n0, n1, n2⟩ := h0 hreplay
      rw [if_neg n0, if_neg n1, if_neg n2, if_pos hreplay]
      exact afterAck_retryNowait (h3.trans hd) (by simp [h1, h2])
  | _ => exact ha.elim

/-- Until a transmission the next number stays that after the acknowledged one. -/
theorem afterAck_step (he : e ≠ .transmit) (h : AfterAck s) (hs : s.step e = some t) : AfterAck t := by
  cases e with
  | acquire privileged generation =>
    obtain ⟨-, rfl⟩ := step_acquire hs
    exact ⟨h.seqNr, by simp⟩
  | transmit => exact absurd rfl he
  | process env tkStatus rpcProc canRestart res =>
    obtain ⟨sent, hp, hslot, hphase⟩ := step_process hs
    have hsent : sent = false := by
      cases sent with
      | false => rfl
      | true => exact absurd hp h.unsent
    rw [process_unsent hsent] at hslot hphase
    exact ⟨by rw [hslot]; exact h.seqNr, by rw [hphase]; simp [Sequence.out, SequenceOutcome.phase]⟩
  | release assign =>
    obtain ⟨hslot, hphase⟩ := step_release hs
    obtain ⟨h1, h2, h3⟩ := release_seqNr assign s.slot
    refine ⟨?_, by rcases hphase with hp | hp <;> simp [hp]⟩
    rw [hslot, h1, h2, h3, h.seqNr]
    cases s.slot.seqDone <;> simp

theorem afterAck_exec (hes : .transmit ∉ es) (h : AfterAck s) (hr : exec step s es = some t) : AfterAck t :=
  exec_invariant_labels (L := fun e : SlotEvent => e ≠ .transmit) (fun _ _ _ he hi hs => afterAck_step he hi hs)
    (fun _ he hc => hes (hc ▸ he)) h hr

/-- While all numbers are less than `2 ^ 31` ahead of the last acknowledged one: a transmitted number is ahead of all
    acknowledged before, without wraparound; the highest sent is not behind; the first after an acknowledged call is its
    successor. -/
theorem transmitted_exactly_once (slotid : U32) (es : List SlotEvent) (s : SlotState) (c : Counters)
    (hw : Always trackedStep InWindow (create slotid, .start) es)
    (hr : exec trackedStep (create slotid, .start) es = some (s, c)) : (∀ t, s.step .transmit = some t →
      1 ≤ Serial.diff s.slot.seqNr s.slot.seqNrLastAcked ∧ s.slot.seqNr = BitVec.ofInt 32 c.next ∧
      ∀ pre x, pre <+: es → exec trackedStep (create slotid, .start) pre = some x →
        x.1.slot.seqNrLastAcked = BitVec.ofInt 32 x.2.acked ∧ x.2.acked < c.next) ∧
    0 ≤ Serial.diff s.slot.seqNrHighestSent s.slot.seqNrLastAcked ∧
    (∀ pre e post x, es = pre ++ e :: post → exec trackedStep (create slotid, .start) pre = some x →
      x.1.phase = .held true → Acknowledges e → .transmit ∉ post →
      ∀ t, s.step .transmit = some t → s.slot.seqNr = s.slot.seqNrLastAcked + 1) := by
  have htracks : Tracks s c := tracks_exec hw hr
  have hlead : c.lead < 2 ^ 31 := hw es (s, c) (prefix_refl es) hr
  have hunused : ∀ {t}, s.step .transmit = some t → c.used = false := fun ht => by
    obtain ⟨⟨sent, hp⟩, -⟩ := step_transmit ht
    exact htracks.unused (by simp [hp])
  refine ⟨fun t ht => ?_, ?_, fun pre e post x hes hx hp ha hpost t ht => ?_⟩
  · have hlt := htracks.ordered.acked_lt (hunused ht)
    refine ⟨?_, htracks.holds.seqNr, fun pre x hpre hx => ?_⟩
    · rw [htracks.holds.diff_lastAcked htracks.ordered hlead]
      omega
    · obtain ⟨post, rfl⟩ := hpre
      obtain ⟨y, hy, hpost⟩ := exec_append_iff.mp hr
      obtain rfl := Option.some.inj (hy.symm.trans hx)
      have hx' : Tracks y.1 y.2 := tracks_exec (hw.prefix_of (prefix_append pre post)) hx
      have hw' : Always trackedStep InWindow y post := fun qs u hq hu =>
        hw (pre ++ qs) u ((prefix_append_right_inj pre).mpr hq) (exec_append_iff.mpr ⟨y, hx, hu⟩)
      exact ⟨hx'.holds.lastAcked, (acked_le_exec hx' hw' hpost).trans_lt hlt⟩
  · rw [htracks.holds.diff_highestSent htracks.ordered hlead]
    have := htracks.ordered.acked_le_sent
    omega
  · subst hes
    obtain ⟨y, hy, hrest⟩ := exec_append_iff.mp hr
    obtain rfl := Option.some.inj (hy.symm.trans hx)
    obtain ⟨z, hz, hpostrun⟩ := exec_cons_iff.mp hrest
    have hy' : Tracks y.1 y.2 := tracks_exec (hw.prefix_of (prefix_append pre _)) hx
    have hd : y.1.slot.seqDone = false := hy'.holds.seqDone.trans (hy'.unused (by simp [hp]))
    have hack : AfterAck z.1 := afterAck_acknowledged hp hd ha (of_trackedStep hz).1
    have hafter : AfterAck s := afterAck_exec hpost hack (exec_of_tracked hpostrun)
    have hdone : s.slot.seqDone = false := htracks.holds.seqDone.trans (hunused ht)
    simpa [hdone] using hafter.seqNr

def ackedCall : List SlotEvent :=
  [.acquire false 0, .transmit, .process ⟨0, .started, none⟩ 0 .other true ⟨0, 0, 0, 0, 0⟩, .release none,
    .acquire false 0]

theorem transmitted_exactly_once_ackedCall :
    ∃ x, exec trackedStep (create 0, .start) ackedCall = some x ∧ (x.1.step .transmit).isSome ∧
      x.1.slot.seqNr = x.1.slot.seqNrLastAcked + 1 := by
  have hw : Always trackedStep InWindow (create 0, .start) ackedCall := by unfold InWindow; decide
  refine ⟨_, rfl, rfl, ?_⟩
  exact (transmitted_exactly_once 0 ackedCall _ _ hw rfl).2.2 [.acquire false 0, .transmit] _ _ _ rfl rfl rfl
    (.inl rfl) (by decide) _ rfl

def rejectedCall : List SlotEvent :=
  [.acquire false 0, .transmit,
    .process ⟨0, .started, none⟩ 0 .other true ⟨negErr Nfs4err.serverfault, 0, 0, 0, 0⟩, .release none]

def afterRejected (n : Nat) : SlotState :=
  ⟨⟨0, 0, BitVec.ofNat 32 (n + 1), 0, 1, false, false⟩, .free⟩

theorem exec_rejectedCall (n : Nat) : exec step (afterRejected n) rejectedCall = some (afterRejected (n + 1)) := by
  have hadd : BitVec.ofNat 32 (n + 1 + 1) = BitVec.ofNat 32 (n + 1) + 1#32 := BitVec.ofNat_add _ _
  rw [afterRejected, afterRejected, hadd]
  rfl

theorem exec_rejectedCalls (n : Nat) :
    ∀ m, exec step (afterRejected m) (replicate n rejectedCall).flatten = some (afterRejected (m + n)) := by
  induction n with
  | zero => exact fun m => rfl
  | succ n ih =>
    intro m
    rw [replicate_succ, flatten_cons, exec_append_iff]
    exact ⟨_, exec_rejectedCall m, by rw [ih, Nat.add_right_comm, Nat.add_assoc]⟩

theorem not_acknowledges_rejectedCall : ∀ e ∈ rejectedCall, ¬Acknowledges e := by
  intro e he
  simp only [rejectedCall, mem_cons, not_mem_nil, or_false] at he
  rcases he with rfl | rfl | rfl | rfl
  · exact id
  · exact id
  · simp only [Acknowledges, Sequence.status]
    decide
  · exact id

theorem exists_rejected_run (n : Nat) :
    ∃ es s, exec step (create 0) es = some s ∧ es.countP (· matches .release _) = n ∧
      (∀ e ∈ es, ¬Acknowledges e) ∧ (s.step .transmit).isSome ∧
      s.slot.seqNr = BitVec.ofNat 32 (n + 1) ∧ s.slot.seqNrLastAcked = 0 := by
  refine ⟨(replicate n rejectedCall).flatten ++ [.acquire false 0], _,
    exec_concat_iff.mpr ⟨_, exec_rejectedCalls n 0, rfl⟩, ?_, ?_, rfl, by simp [afterRejected], rfl⟩
  · rw [countP_append, countP_flatten, map_replicate, sum_replicate]
    exact Nat.mul_one n
  · intro e he
    simp only [mem_append, mem_flatten, mem_replicate, mem_singleton] at he
    rcases he with ⟨l, ⟨-, rfl⟩, he⟩ | rfl
    · exact not_acknowledges_rejectedCall e he
    · exact id

/-- After `2 ^ 31 - 1` calls that the server rejects, the next number is no longer ahead of the last acknowledged one. -/
theorem rejected_calls_wrap : ∃ es s, exec step (create 0) es = some s ∧ es.countP (· matches .release _) < 2 ^ 31 ∧
      (∀ e ∈ es, ¬Acknowledges e) ∧ (s.step .transmit).isSome ∧ Serial.diff s.slot.seqNr s.slot.seqNrLastAcked < 1 := by
  obtain ⟨es, s, hr, hcount, hack, hen, hnr, hla⟩ := exists_rejected_run (2 ^ 31 - 1)
  refine ⟨es, s, hr, by omega, hack, hen, ?_⟩
  rw [hnr, hla]
  decide

end SlotState
end Mynfs
