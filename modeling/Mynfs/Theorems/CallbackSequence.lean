import Mynfs.Callback.Sequence

/-! The sequence numbers of the back channel. A slot that does not exist yet counts as 0, so creating it changes nothing. -/

namespace Mynfs

open List
open Nfs4err (ok retryUncachedRep)
namespace SlotTable

/-- The sequence number of a slot id; a slot of the back channel is created with number 0. -/
def seqOf (tbl : SlotTable) (slotid : U32) : U32 :=
  match tbl.slots.find? (fun slot => slot.slotNr == slotid) with
  | some slot => slot.seqNr
  | none => 0

/-- The slot that a lookup finds. -/
structure FoundAt (tbl : SlotTable) (slotid : U32) (i : Nat) (slot : Slot) : Prop where
  get : tbl.slots[i]? = some slot
  slotNr : slot.slotNr = slotid
  first : ∀ j < i, ∀ s, tbl.slots[j]? = some s → s.slotNr ≠ slotid

variable {slotid : U32} {i : Nat} {slot : Slot} {tbl : SlotTable} {f : Slot → Slot}

theorem find?_of_first {slots : List Slot} (hget : slots[i]? = some slot)
    (hnr : slot.slotNr = slotid) (hfirst : ∀ j < i, ∀ s, slots[j]? = some s → s.slotNr ≠ slotid) :
    slots.find? (fun s => s.slotNr == slotid) = some slot := by
  induction slots generalizing i with
  | nil => simp at hget
  | cons s slots ih =>
    cases i with
    | zero =>
      obtain rfl : s = slot := by simpa using hget
      simp [hnr]
    | succ i =>
      have hs : s.slotNr ≠ slotid := hfirst 0 (Nat.succ_pos i) s (by simp)
      rw [find?_cons_of_neg (by simpa using hs)]
      exact ih (by simpa using hget) fun j hj t ht => hfirst (j + 1) (Nat.succ_lt_succ hj) t (by simpa using ht)

theorem seqOf_of_foundAt (h : tbl.FoundAt slotid i slot) : tbl.seqOf slotid = slot.seqNr := by
  rw [seqOf, find?_of_first h.get h.slotNr h.first]

theorem find?_modify (hf : ∀ s, (f s).slotNr = s.slotNr) (slotid : U32) :
    ∀ (slots : List Slot) (i : Nat), (slots.modify i f).find? (fun s => s.slotNr == slotid) =
      (slots.find? fun s => s.slotNr == slotid) ∨ ∃ slot, slots[i]? = some slot ∧ slot.slotNr = slotid ∧
        (slots.modify i f).find? (fun s => s.slotNr == slotid) = some (f slot) ∧
        slots.find? (fun s => s.slotNr == slotid) = some slot := by
  intro slots
  induction slots with
  | nil => exact fun i => .inl (by simp)
  | cons s slots ih =>
    intro i
    by_cases hs : s.slotNr = slotid
    · cases i with
      | zero => exact .inr ⟨s, rfl, hs, by simp [hf, hs], by simp [hs]⟩
      | succ i => exact .inl (by simp [hs])
    · cases i with
      | zero => exact .inl (by simp [hf, hs])
      | succ i =>
        rcases ih i with h | ⟨slot, hget, hnr, hmod, hfind⟩
        · exact .inl (by simpa [hs] using h)
        · exact .inr ⟨slot, by simpa using hget, hnr, by simpa [hs] using hmod, by simpa [hs] using hfind⟩

theorem seqOf_modifySlot_same (hnr : ∀ s, (f s).slotNr = s.slotNr) (hseq : ∀ s, (f s).seqNr = s.seqNr) (i : Nat) (slotid : U32) :
    (tbl.modifySlot i f).seqOf slotid = tbl.seqOf slotid := by
  unfold seqOf modifySlot
  rcases find?_modify hnr slotid tbl.slots i with h | ⟨slot, -, -, hmod, hfind⟩
  · rw [h]
  · rw [hmod, hfind]
    exact hseq slot

theorem FoundAt.modifySlot (h : tbl.FoundAt slotid i slot)
    (hnr : ∀ s, (f s).slotNr = s.slotNr) : (tbl.modifySlot i f).FoundAt slotid i (f slot) := by
  refine ⟨by simp [SlotTable.modifySlot, h.get], (hnr slot).trans h.slotNr, fun j hj s hs => ?_⟩
  have hne : i ≠ j := by omega
  exact h.first j hj s (by simpa [SlotTable.modifySlot, getElem?_modify, hne] using hs)

theorem seqOf_setSeqNr (h : tbl.FoundAt slotid i slot) (seqNr other : U32) :
    (tbl.modifySlot i fun s => { s with seqNr := seqNr }).seqOf other =
      if other = slotid then seqNr else tbl.seqOf other := by
  by_cases ho : other = slotid
  · subst ho
    rw [if_pos rfl, seqOf_of_foundAt (h.modifySlot (f := fun s => { s with seqNr := seqNr }) fun _ => rfl)]
  · rw [if_neg ho]
    unfold seqOf SlotTable.modifySlot
    rcases find?_modify (f := fun s => { s with seqNr := seqNr }) (fun _ => rfl) other tbl.slots i with
      hsame | ⟨s, hget, hnr, -⟩
    · rw [hsame]
    · obtain rfl : s = slot := Option.some.inj (hget.symm.trans h.get)
      exact absurd (hnr.symm.trans h.slotNr) ho

theorem seqOf_append {nr : U32} :
    ({ tbl with slots := tbl.slots ++ [nfs4NewSlot nr 0], maxSlots := tbl.maxSlots + 1 } : SlotTable).seqOf slotid =
      tbl.seqOf slotid := by
  unfold seqOf
  rw [find?_append]
  cases h : tbl.slots.find? (fun slot => slot.slotNr == slotid) with
  | some slot => rfl
  | none =>
    by_cases hn : nr = slotid <;> simp [nfs4NewSlot, hn]

theorem seqOf_appendSlots (slotid other : U32) :
    ∀ (mem : Nat) (tbl : SlotTable), (appendSlots slotid 0 mem tbl).1.seqOf other = tbl.seqOf other
  | 0, tbl => rfl
  | mem + 1, tbl => by
    rw [appendSlots]
    split
    · exact seqOf_append
    · rw [seqOf_appendSlots slotid other mem]
      exact seqOf_append

theorem seqOf_lookupSlot (mem : Nat) (tbl : SlotTable) (slotid other : U32) :
    (tbl.nfs4LookupSlot mem slotid).1.seqOf other = tbl.seqOf other := by
  unfold nfs4LookupSlot nfs4FindOrCreateSlot
  split
  · split
    · rfl
    · exact seqOf_appendSlots slotid other mem tbl
  · rfl

theorem appendSlots_foundAt (slotid : U32) : ∀ (mem : Nat) (tbl : SlotTable) (i : Nat),
    (∀ s ∈ tbl.slots, s.slotNr ≠ slotid) → (appendSlots slotid 0 mem tbl).2 = .ok i →
      ∃ slot, (appendSlots slotid 0 mem tbl).1.FoundAt slotid i slot
  | 0, tbl, i, _, h => by cases h
  | mem + 1, tbl, i, hnone, h => by
    rw [appendSlots] at h ⊢
    split at h
    next heq =>
      obtain rfl : tbl.slots.length = i := Except.ok.inj h
      rw [if_pos heq]
      refine ⟨nfs4NewSlot tbl.maxSlots 0, by simp, heq, fun j hj s hs => ?_⟩
      rw [getElem?_append_left hj] at hs
      exact hnone s (mem_of_getElem? hs)
    next hne =>
      rw [if_neg hne]
      refine appendSlots_foundAt slotid mem _ i (fun s hs => ?_) h
      rcases mem_append.mp hs with hs | hs
      · exact hnone s hs
      · obtain rfl := mem_singleton.mp hs
        exact hne

theorem lookupSlot_foundAt {mem : Nat} (h : (tbl.nfs4LookupSlot mem slotid).2 = .ok i) :
    ∃ slot, (tbl.nfs4LookupSlot mem slotid).1.FoundAt slotid i slot := by
  unfold nfs4LookupSlot nfs4FindOrCreateSlot at h ⊢
  split at h
  next hle =>
    rw [if_pos hle]
    split at h
    next j hj =>
      obtain rfl : j = i := Except.ok.inj h
      obtain ⟨hlt, hnr, hfirst⟩ := findIdx?_eq_some_iff_getElem.mp hj
      refine ⟨tbl.slots[j], by simp, by simpa using hnr, fun m hm s hs => ?_⟩
      obtain ⟨hm', rfl⟩ := List.getElem?_eq_some_iff.mp hs
      simpa using hfirst m hm
    next hj =>
      refine appendSlots_foundAt slotid mem tbl i (fun s hs => ?_) h
      simpa using findIdx?_eq_none_iff.mp hj s hs
  · cases h

theorem seqOf_lockSlot (tbl : SlotTable) (i : Nat) (slotid other : U32) :
    (tbl.nfs4LockSlot i slotid).seqOf other = tbl.seqOf other :=
  seqOf_modifySlot_same (f := fun s => { s with generation := tbl.generation }) (fun _ => rfl) (fun _ => rfl) i other

theorem FoundAt.nfs4LockSlot (h : tbl.FoundAt slotid i slot) : ∃ slot', (tbl.nfs4LockSlot i slotid).FoundAt slotid i slot' := by
  have h' := h.modifySlot (f := fun s => { s with generation := tbl.generation }) fun _ => rfl
  exact ⟨_, h'.get, h'.slotNr, h'.first⟩

end SlotTable

/-- An error leaves the numbers of the back channel alone, success sets the slot to the successor of its number. -/
structure CbLocked.Numbered (args : CbSequenceArgs) (before : SlotTable) (l : CbLocked) : Prop where
  error : l.status ≠ 0 → ∀ slotid, l.session.bcSlotTable.seqOf slotid = before.seqOf slotid
  replay : l.status = Nfs4err.retryUncachedRep → args.csaSequenceid = before.seqOf args.csaSlotid
  ok : l.status = 0 → args.csaSequenceid = before.seqOf args.csaSlotid + 1 ∧
    ∀ slotid, l.session.bcSlotTable.seqOf slotid =
      if slotid = args.csaSlotid then args.csaSequenceid else before.seqOf slotid

variable {session : Session} {clients : List NfsClient} {k : Nat} {clp : NfsClient}

theorem numbered_error {args : CbSequenceArgs} {before : SlotTable} {status : Nat}
    {res : CbSequenceRes} {cps : CbProcessState} (h0 : status ≠ 0) (hr : status ≠ retryUncachedRep)
    (h : ∀ slotid, session.bcSlotTable.seqOf slotid = before.seqOf slotid) :
    (⟨session, status, res, cps⟩ : CbLocked).Numbered args before :=
  ⟨fun _ => h, fun hs => absurd hs hr, fun hs => absurd hs h0⟩

/-- The next number, a replay, or an error. -/
theorem validateSeqid_cases (tbl : SlotTable) (slot : Slot) (args : CbSequenceArgs) :
    (validateSeqid tbl slot args = 0 ∧ args.csaSequenceid = slot.seqNr + 1) ∨
    (validateSeqid tbl slot args = retryUncachedRep ∧ args.csaSequenceid = slot.seqNr) ∨
    (validateSeqid tbl slot args ≠ 0 ∧ validateSeqid tbl slot args ≠ retryUncachedRep) := by
  unfold validateSeqid
  split
  · exact .inr (.inr (by decide))
  split
  next heq =>
    split
    · exact .inr (.inr (by decide))
    split
    · exact .inr (.inl ⟨rfl, heq⟩)
    · exact .inr (.inr (by decide))
  split
  · exact .inr (.inr (by decide))
  next hne => exact .inl ⟨rfl, not_not.mp hne⟩

section
variable {env : CbSequenceEnv} {args : CbSequenceArgs} {res : CbSequenceRes} {cps : CbProcessState} {i : Nat} {slot : Slot}
  {before : SlotTable}

theorem numbered_cbSequenceReferring (hf : session.bcSlotTable.FoundAt args.csaSlotid i slot)
    (hkeep : ∀ slotid, session.bcSlotTable.seqOf slotid = before.seqOf slotid)
    (hnext : args.csaSequenceid = before.seqOf args.csaSlotid + 1) :
    (cbSequenceReferring env args session res cps i).Numbered args before := by
  unfold cbSequenceReferring
  split
  · exact numbered_error (by decide) (by decide) hkeep
  dsimp only
  split
  · exact numbered_error (by decide) (by decide) hkeep
  · refine ⟨fun h => absurd rfl h, fun h => absurd (show (0 : Nat) = retryUncachedRep from h) (by decide),
      fun _ => ⟨hnext, fun slotid => ?_⟩⟩
    rw [SlotTable.seqOf_setSeqNr hf, hkeep]

theorem numbered_cbSequenceSlot (hf : session.bcSlotTable.FoundAt args.csaSlotid i slot)
    (hkeep : ∀ slotid, session.bcSlotTable.seqOf slotid = before.seqOf slotid) :
    (cbSequenceSlot env args session res cps i slot).Numbered args before := by
  have hseq : slot.seqNr = before.seqOf args.csaSlotid := by rw [← hkeep, SlotTable.seqOf_of_foundAt hf]
  unfold cbSequenceSlot
  rcases validateSeqid_cases session.bcSlotTable slot args with ⟨hv, hnext⟩ | ⟨hv, heq⟩ | ⟨h0, hr⟩
  · rw [if_neg (not_not.mpr hv), SlotTable.nfs4TryToLockSlot, hf.slotNr]
    by_cases hlocked : session.bcSlotTable.nfs4TestLockedSlot args.csaSlotid
    · rw [if_pos hlocked]
      exact numbered_error (by decide) (by decide) hkeep
    · obtain ⟨slot', hf'⟩ := hf.nfs4LockSlot
      rw [if_neg hlocked]
      refine numbered_cbSequenceReferring hf' (fun slotid => ?_) (by rw [hnext, hseq])
      rw [SlotTable.seqOf_lockSlot, hkeep]
  · rw [if_pos (by rw [hv]; decide), hv]
    exact ⟨fun _ => hkeep, fun _ => heq.trans hseq, fun h => absurd (show retryUncachedRep = 0 from h) (by decide)⟩
  · rw [if_pos h0]
    exact numbered_error h0 hr hkeep

/-- The number of a slot advances by one if the sequence is accepted. -/
theorem numbered_cbSequenceLocked (sessionReset : Bool) :
    (cbSequenceLocked env args sessionReset session res cps).Numbered args session.bcSlotTable := by
  have hkeep := SlotTable.seqOf_lookupSlot env.mem session.bcSlotTable args.csaSlotid
  unfold cbSequenceLocked
  split
  · cases sessionReset
    · exact numbered_error (by decide) (by decide) fun _ => rfl
    · exact numbered_error (by decide) (by decide) fun _ => rfl
  · rcases hl : session.bcSlotTable.nfs4LookupSlot env.mem args.csaSlotid with ⟨tbl, _ | i⟩
    · rw [hl] at hkeep
      exact numbered_error (by decide) (by decide) hkeep
    · obtain ⟨slot, hf⟩ := SlotTable.lookupSlot_foundAt (congrArg Prod.snd hl)
      rw [hl] at hkeep hf
      dsimp only
      rw [hf.get]
      exact numbered_cbSequenceSlot hf hkeep

theorem drcStatus_cbSequenceReferring : (cbSequenceReferring env args session res cps i).cps.drcStatus = cps.drcStatus := by
  unfold cbSequenceReferring
  split
  · rfl
  dsimp only
  split <;> rfl

theorem drcStatus_cbSequenceLocked (sessionReset : Bool) :
    (cbSequenceLocked env args sessionReset session res cps).cps.drcStatus = cps.drcStatus := by
  unfold cbSequenceLocked
  split
  · rfl
  split
  · rfl
  split
  · rfl
  unfold cbSequenceSlot
  dsimp only
  split
  · rfl
  split
  · rfl
  · exact drcStatus_cbSequenceReferring

end

def bcSeqOf (clients : List NfsClient) (k : Nat) (slotid : U32) : Option U32 :=
  (clients[k]?.bind NfsClient.session).map fun session => session.bcSlotTable.seqOf slotid

theorem findClientSessionid_some {addr : SockAddr} {sid : SessionId} {minorversion : U32}
    (h : nfs4FindClientSessionid clients addr sid minorversion = some (k, clp, session)) :
    clients[k]? = some clp ∧ clp.session = some session := by
  obtain ⟨⟨clp', k'⟩, hmem, hx⟩ := exists_of_findSome?_eq_some h
  cases hm : nfs4CbMatchClient addr clp' minorversion with
  | false => simp [hm] at hx
  | true =>
    cases hs : clp'.session with
    | none => simp [hm, hs] at hx
    | some session' =>
      simp only [hm, hs, Option.ite_none_right_eq_some, Option.some.injEq, Prod.mk.injEq] at hx
      obtain ⟨-, rfl, rfl, rfl⟩ := hx
      exact ⟨mem_zipIdx_iff_getElem?.mp hmem, hs⟩

theorem nfs4CallbackSequence_cases (env : CbSequenceEnv) (clients : List NfsClient) (args : CbSequenceArgs)
    (res : CbSequenceRes) (cps : CbProcessState) : (∃ clp, nfs4CallbackSequence env clients args res cps =
      cbSequenceOut clients Nfs4err.badsession res { cps with clp := clp }) ∨
    ∃ k clp session res', clients[k]? = some clp ∧ clp.session = some session ∧
      nfs4CallbackSequence env clients args res cps =
        cbSequenceOut
          (clients.set k { clp with
            session := some (cbSequenceLocked env args clp.sessionReset session res' cps).session })
          (cbSequenceLocked env args clp.sessionReset session res' cps).status
          (cbSequenceLocked env args clp.sessionReset session res' cps).res
          { (cbSequenceLocked env args clp.sessionReset session res' cps).cps with clp := some k } := by
  cases hfind : nfs4FindClientSessionid clients args.csaAddr args.csaSessionid cps.minorversion with
  | none => exact .inl ⟨none, by simp only [nfs4CallbackSequence, hfind]⟩
  | some x =>
    obtain ⟨k, clp, session⟩ := x
    obtain ⟨hk, hsess⟩ := findClientSessionid_some hfind
    by_cases hback : session.backChan = false
    · exact .inl ⟨some k, by simp only [nfs4CallbackSequence, hfind, if_pos hback]⟩
    · exact .inr ⟨k, clp, session, _, hk, hsess, by
        simp only [nfs4CallbackSequence, hfind, if_neg hback]; rfl⟩

theorem bcSeqOf_set (hk : clients[k]? = some clp) (session : Session) (j : Nat) (slotid : U32) :
    bcSeqOf (clients.set k { clp with session := some session }) j slotid =
      if j = k then some (session.bcSlotTable.seqOf slotid) else bcSeqOf clients j slotid := by
  obtain ⟨hlt, -⟩ := List.getElem?_eq_some_iff.mp hk
  by_cases hj : j = k
  · subst hj
    simp [bcSeqOf, hlt]
  · simp [bcSeqOf, hj, getElem?_set_ne (Ne.symm hj)]

/-- A CB_SEQUENCE that fails changes no sequence number. With NFS4_OK it carried the successor, now the slot's number,
    or was a replay without a cached answer: then the number stays and the next operation fails. -/
theorem cbSequence_numbers (env : CbSequenceEnv) (clients : List NfsClient) (args : CbSequenceArgs)
    (res : CbSequenceRes) (cps : CbProcessState) :
    let o := nfs4CallbackSequence env clients args res cps
    (o.status ≠ ok → ∀ k slotid, bcSeqOf o.clients k slotid = bcSeqOf clients k slotid) ∧
    (o.status = ok → ∃ k seqNr, o.cps.clp = some k ∧ bcSeqOf clients k args.csaSlotid = some seqNr ∧
      ((args.csaSequenceid = seqNr + 1 ∧ bcSeqOf o.clients k args.csaSlotid = some args.csaSequenceid ∧
          o.cps.drcStatus = cps.drcStatus) ∨
        (args.csaSequenceid = seqNr ∧ (∀ k' slotid, bcSeqOf o.clients k' slotid = bcSeqOf clients k' slotid) ∧
          o.cps.drcStatus = retryUncachedRep))) := by
  intro o
  rcases nfs4CallbackSequence_cases env clients args res cps with ⟨clp, ho⟩ | ⟨k, clp, session, res', hk, hsess, ho⟩
  · -- without a session there is no number to change
    rw [show o = _ from ho]
    exact ⟨fun _ k slotid => rfl, fun h => absurd h (by simp [cbSequenceOut])⟩
  · rw [show o = _ from ho]
    generalize hl : cbSequenceLocked env args clp.sessionReset session res' cps = l
    have hnum : l.Numbered args session.bcSlotTable := hl ▸ numbered_cbSequenceLocked clp.sessionReset
    have hdrc : l.cps.drcStatus = cps.drcStatus := hl ▸ drcStatus_cbSequenceLocked clp.sessionReset
    have hbefore : ∀ slotid, bcSeqOf clients k slotid = some (session.bcSlotTable.seqOf slotid) := fun slotid => by
      simp [bcSeqOf, hk, hsess]
    have hkeep : l.status ≠ 0 → ∀ k' slotid,
        bcSeqOf (clients.set k { clp with session := some l.session }) k' slotid = bcSeqOf clients k' slotid := by
      intro h0 k' slotid
      rw [bcSeqOf_set hk]
      split
      next heq => rw [heq, hbefore, hnum.error h0]
      · rfl
    rw [cbSequenceOut]
    by_cases hreplay : l.status = retryUncachedRep
    · have h0 : l.status ≠ 0 := by rw [hreplay]; decide
      rw [if_pos hreplay]
      exact ⟨fun h => absurd rfl h, fun _ => ⟨k, _, rfl, hbefore _, .inr ⟨hnum.replay hreplay, hkeep h0, hreplay⟩⟩⟩
    · rw [if_neg hreplay]
      refine ⟨hkeep, fun h0 => ?_⟩
      obtain ⟨hnext, hset⟩ := hnum.ok h0
      refine ⟨k, _, rfl, hbefore _, .inl ⟨hnext, ?_, hdrc⟩⟩
      rw [bcSeqOf_set hk, if_pos rfl, hset, if_pos rfl]

def oneSlotClient : NfsClient where
  consState := .ready
  version := 4
  minorversion := 1
  addr := ⟨1, 0⟩
  session := some {
    sessId := 1
    backChan := true
    fcSlotTable := { slots := [nfs4NewSlot 0 7], usedSlots := insert 0 ∅, maxSlots := 1, highestUsedSlotid := 0 }
    bcSlotTable := { slots := [nfs4NewSlot 0 5], maxSlots := 1 } }
  sessionReset := false

def oneSlotArgs (sequenceid refSequenceid : U32) : CbSequenceArgs :=
  ⟨⟨1, 0⟩, 1, sequenceid, 0, 0, 0, [⟨1, [⟨refSequenceid, 0⟩]⟩]⟩

def quietEnv : CbSequenceEnv := ⟨0, fun _ => ⟨0, []⟩⟩

/-- NFS4_OK also answers a replay, and a referring call still in use when its wait is over. -/
theorem cbSequence_ok_on_replay_and_on_timeout :
    ((nfs4CallbackSequence quietEnv [oneSlotClient] (oneSlotArgs 5 0) {} { minorversion := 1 }).status = ok ∧
      bcSeqOf [oneSlotClient] 0 0 = some 5) ∧
    ((∀ session, oneSlotClient.session = some session →
        (nfs4SlotWaitOnSeqid 0 7 0 session.fcSlotTable []).2 = -etimedout) ∧
      (nfs4CallbackSequence quietEnv [oneSlotClient] (oneSlotArgs 6 7) {} { minorversion := 1 }).status = ok) := by
  refine ⟨⟨by decide, by decide⟩, fun session h => ?_, by decide⟩
  cases h
  decide

end Mynfs
