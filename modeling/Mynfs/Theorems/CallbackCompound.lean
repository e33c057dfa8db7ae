import Mynfs.Callback.Compound
import Mynfs.Theorems.CallbackSequence

/-! In minor versions 1 and 2 operations run only behind CB_SEQUENCE, which locks a slot (`Held`) that every path unlocks. -/

namespace Mynfs
open Xdr List Option

/-! ### Lock bits of the back channels -/

section
variable (clients : List NfsClient)

/-- The locked slots of the back channel of the client at position `k`. -/
def bcUsed (k : Nat) : Finset Nat :=
  match clients[k]?.bind NfsClient.session with
  | some session => session.bcSlotTable.usedSlots
  | none => ∅

def bcSlotAt (k i : Nat) : Option Slot :=
  (clients[k]?.bind NfsClient.session).bind fun session => session.bcSlotTable.slots[i]?

def SlotLocked (cps : CbProcessState) : Prop :=
  ∃ k i slot, cps.clp = some k ∧ cps.slot = some i ∧ bcSlotAt clients k i = some slot ∧
    slot.slotNr.toNat ∈ bcUsed clients k

end

def Held (clients₀ clients : List NfsClient) (cps : CbProcessState) : Prop :=
  (cps.slot = none ∧ ∀ k, bcUsed clients k = bcUsed clients₀ k) ∨
  ∃ k i slot, cps.clp = some k ∧ cps.slot = some i ∧ bcSlotAt clients k i = some slot ∧
    slot.slotNr.toNat ∉ bcUsed clients₀ k ∧
    ∀ k', bcUsed clients k' = if k' = k then insert slot.slotNr.toNat (bcUsed clients₀ k) else bcUsed clients₀ k'

variable {clients : List NfsClient} {k nop status i : Nat} {clp : NfsClient} {opNr v : U32} {op : CbOp} {slot : Slot}

theorem bcUsed_of_get {session : Session} (hk : clients[k]? = some clp) (hs : clp.session = some session) :
    bcUsed clients k = session.bcSlotTable.usedSlots := by
  simp [bcUsed, hk, hs]

theorem bcUsed_set (hk : clients[k]? = some clp) (session : Session) (j : Nat) :
    bcUsed (clients.set k { clp with session := some session }) j =
      if j = k then session.bcSlotTable.usedSlots else bcUsed clients j := by
  obtain ⟨hlt, -⟩ := List.getElem?_eq_some_iff.mp hk
  by_cases hj : j = k
  · subst hj
    simp [bcUsed, hlt]
  · simp [bcUsed, hj, getElem?_set_ne (Ne.symm hj)]

theorem bcSlotAt_set (hk : clients[k]? = some clp) (session : Session) (i : Nat) :
    bcSlotAt (clients.set k { clp with session := some session }) k i = session.bcSlotTable.slots[i]? := by
  obtain ⟨hlt, -⟩ := List.getElem?_eq_some_iff.mp hk
  simp [bcSlotAt, hlt]

/-! ### CB_SEQUENCE locks the slot it names -/

theorem usedSlots_appendSlots (slotid seqInit : U32) :
    ∀ (mem : Nat) (tbl : SlotTable), (SlotTable.appendSlots slotid seqInit mem tbl).1.usedSlots = tbl.usedSlots
  | 0, tbl => rfl
  | mem + 1, tbl => by
    rw [SlotTable.appendSlots]
    split
    · rfl
    · exact usedSlots_appendSlots slotid seqInit mem _

theorem usedSlots_lookupSlot (mem : Nat) (tbl : SlotTable) (slotid : U32) :
    (tbl.nfs4LookupSlot mem slotid).1.usedSlots = tbl.usedSlots := by
  unfold SlotTable.nfs4LookupSlot SlotTable.nfs4FindOrCreateSlot
  split
  · split
    · rfl
    · exact usedSlots_appendSlots slotid 0 mem tbl
  · rfl

def CbLocked.Took (used : Finset Nat) (cps : CbProcessState) (l : CbLocked) : Prop :=
  (l.status ≠ 0 ∧ l.cps = cps ∧ l.session.bcSlotTable.usedSlots = used) ∨
  ∃ i slot, l.status ≠ Nfs4err.retryUncachedRep ∧ l.cps.slot = some i ∧ l.cps.minorversion = cps.minorversion ∧
    l.session.bcSlotTable.slots[i]? = some slot ∧ slot.slotNr.toNat ∉ used ∧
    l.session.bcSlotTable.usedSlots = insert slot.slotNr.toNat used

section
variable {env : CbSequenceEnv} {args : CbSequenceArgs} {session : Session} {res : CbSequenceRes} {cps cps₀ : CbProcessState}
  {used : Finset Nat}

theorem took_cbSequenceReferring (hcps : cps.slot = some i) (hv : cps.minorversion = cps₀.minorversion)
    (hslot : session.bcSlotTable.slots[i]? = some slot) (hfree : slot.slotNr.toNat ∉ used)
    (hused : session.bcSlotTable.usedSlots = insert slot.slotNr.toNat used) :
    (cbSequenceReferring env args session res cps i).Took used cps₀ := by
  unfold cbSequenceReferring
  split
  · exact .inr ⟨i, slot, by simp, hcps, hv, hslot, hfree, hused⟩
  dsimp only
  split
  · exact .inr ⟨i, slot, by simp, hcps, hv, hslot, hfree, hused⟩
  · exact .inr ⟨i, { slot with seqNr := args.csaSequenceid }, by simp, hcps, hv,
      by simp [SlotTable.modifySlot, hslot], hfree, hused⟩

theorem took_cbSequenceSlot (hslot : session.bcSlotTable.slots[i]? = some slot) :
    (cbSequenceSlot env args session res cps i slot).Took session.bcSlotTable.usedSlots cps := by
  unfold cbSequenceSlot
  by_cases hv : validateSeqid session.bcSlotTable slot args ≠ 0
  · rw [if_pos hv]
    exact .inl ⟨hv, rfl, rfl⟩
  · rw [if_neg hv, SlotTable.nfs4TryToLockSlot]
    by_cases hlocked : session.bcSlotTable.nfs4TestLockedSlot slot.slotNr
    · rw [if_pos hlocked]
      exact .inl ⟨by simp, rfl, rfl⟩
    · rw [if_neg hlocked]
      have hfree : slot.slotNr.toNat ∉ session.bcSlotTable.usedSlots := by
        simpa [SlotTable.nfs4TestLockedSlot] using hlocked
      have hslot' : (session.bcSlotTable.nfs4LockSlot i slot.slotNr).slots[i]? =
          some { slot with generation := session.bcSlotTable.generation } := by
        simp [SlotTable.nfs4LockSlot, SlotTable.modifySlot, hslot]
      exact took_cbSequenceReferring rfl rfl hslot' hfree rfl

theorem took_cbSequenceLocked (sessionReset : Bool) :
    (cbSequenceLocked env args sessionReset session res cps).Took session.bcSlotTable.usedSlots cps := by
  have hkeep := usedSlots_lookupSlot env.mem session.bcSlotTable args.csaSlotid
  unfold cbSequenceLocked
  split
  · exact .inl ⟨by cases sessionReset <;> simp, rfl, rfl⟩
  · rcases hl : session.bcSlotTable.nfs4LookupSlot env.mem args.csaSlotid with ⟨tbl, _ | i⟩
    · rw [hl] at hkeep
      exact .inl ⟨by simp, rfl, hkeep⟩
    · rw [hl] at hkeep
      dsimp only
      cases hslot : tbl.slots[i]? with
      | none => exact .inl ⟨by simp, rfl, hkeep⟩
      | some slot =>
        rw [← hkeep]
        exact took_cbSequenceSlot hslot

end

/-- CB_SEQUENCE leaves one slot locked, or none. -/
theorem cbSequence_held (env : CbSequenceEnv) (clients : List NfsClient) (args : CbSequenceArgs)
    (res : CbSequenceRes) {cps : CbProcessState} (hslot : cps.slot = none) :
    let o := nfs4CallbackSequence env clients args res cps
    Held clients o.clients o.cps ∧ o.cps.minorversion = cps.minorversion ∧
    (o.status = 0 → o.cps.drcStatus = 0 → SlotLocked o.clients o.cps) := by
  intro o
  rcases nfs4CallbackSequence_cases env clients args res cps with ⟨clp, ho⟩ | ⟨k, clp, session, res', hk, hsess, ho⟩
  · rw [show o = _ from ho]
    exact ⟨.inl ⟨hslot, fun _ => rfl⟩, rfl, fun h => absurd h (by simp [cbSequenceOut])⟩
  · rw [show o = _ from ho]
    generalize hl : cbSequenceLocked env args clp.sessionReset session res' cps = l
    have htook : l.Took session.bcSlotTable.usedSlots cps := hl ▸ took_cbSequenceLocked clp.sessionReset
    have hused := bcUsed_of_get hk hsess
    rw [cbSequenceOut]
    rcases htook with ⟨h0, hcps, hsame⟩ | ⟨i, slot, hr, hi, hv, hslot', hfree, hins⟩
    · have hheld : ∀ k', bcUsed (clients.set k { clp with session := some l.session }) k' = bcUsed clients k' := by
        intro k'
        rw [bcUsed_set hk]
        split
        next heq => rw [heq, hused, hsame]
        · rfl
      by_cases hreplay : l.status = Nfs4err.retryUncachedRep
      · rw [if_pos hreplay, hcps]
        exact ⟨.inl ⟨hslot, hheld⟩, rfl, fun _ hdrc => absurd (hreplay.symm.trans hdrc) (by decide)⟩
      · rw [if_neg hreplay, hcps]
        exact ⟨.inl ⟨hslot, hheld⟩, rfl, fun h => absurd h h0⟩
    · rw [if_neg hr]
      have hat := (bcSlotAt_set hk l.session i).trans hslot'
      refine ⟨.inr ⟨k, i, slot, rfl, hi, hat, ?_, fun k' => ?_⟩, hv, fun _ _ => ⟨k, i, slot, rfl, hi, hat, ?_⟩⟩
      · rwa [hused]
      · rw [bcUsed_set hk, hins, hused]
      · rw [bcUsed_set hk, if_pos rfl, hins]
        exact Finset.mem_insert_self _ _

/-! ### Which operations get through -/

theorem nfs41Op_sequence (h : nfs41Op opNr = .ok op) : op = .sequence ↔ opNr = 11 := by
  have heq : opNr = 11 ↔ opNr.toNat = 11 := ⟨fun he => by rw [he]; rfl, fun he => BitVec.eq_of_toNat_eq he⟩
  rw [heq]
  unfold nfs41Op at h
  split at h <;> cases h <;> simp [*]

theorem preprocessNfs41Op_error (h : preprocessNfs41Op nop opNr = .error status) : status ≠ 0 ∧ status < nfs4errResourceHdr := by
  unfold preprocessNfs41Op at h
  split at h
  · cases h
    decide
  split at h
  · cases h
    decide
  · unfold nfs41Op at h
    split at h <;> cases h <;> decide

theorem preprocessNfs41Op_ok (h : preprocessNfs41Op nop opNr = .ok op) : op = .sequence ↔ nop = 0 := by
  unfold preprocessNfs41Op at h
  split at h
  · cases h
  next hpos =>
    split at h
    · cases h
    next hnot =>
      rw [nfs41Op_sequence h]
      exact ⟨fun he => not_not.mp fun hn => hpos ⟨he, hn⟩, fun h0 => not_not.mp fun hn => hnot ⟨hn, h0⟩⟩

theorem preprocessOp_error (h : preprocessOp v nop opNr = .error status) : status ≠ 0 ∧ status < nfs4errResourceHdr := by
  unfold preprocessOp at h
  split at h
  · unfold preprocessNfs4Op at h
    split at h <;> cases h
    decide
  · exact preprocessNfs41Op_error h
  · unfold preprocessNfs42Op at h
    split at h
    · cases h
    next err herr =>
      have hne := preprocessNfs41Op_error herr
      split at h
      · cases h
        exact hne
      split at h
      · cases h
      · cases h
        decide
  · cases h
    decide

theorem preprocessOp_ok (hv : v = 1 ∨ v = 2) (h : preprocessOp v nop opNr = .ok op) : op = .sequence ↔ nop = 0 := by
  rcases hv with rfl | rfl
  · exact preprocessNfs41Op_ok h
  · change preprocessNfs42Op nop opNr = .ok op at h
    unfold preprocessNfs42Op at h
    split at h
    next op' hop =>
      cases h
      exact preprocessNfs41Op_ok hop
    next err herr =>
      split at h
      · cases h
      next hill =>
        split at h
        next h15 =>
          cases h
          -- CB_OFFLOAD as operation 0 is refused for its position, not as illegal
          have h0 : nop ≠ 0 := by
            rintro rfl
            subst h15
            have : Nfs4err.opNotInSession = err := Except.error.inj herr
            exact hill (by rw [← this]; decide)
          simp [h0]
        · cases h

/-! ### The loop over the operations -/

namespace CbState

variable {ω : Type} (env : CbEnv ω) {clients₀ : List NfsClient} {st : CbState ω}

section
variable (clients₀ : List NfsClient) (st : CbState ω)

/-- No handler has run. -/
structure Fresh : Prop where
  calls : st.calls = []
  clients : st.clients = clients₀
  slot : st.cps.slot = none

/-- CB_SEQUENCE ran at most once and locked the slot; the other handlers ran behind it. -/
structure Gated : Prop where
  held : Held clients₀ st.clients st.cps
  once : st.calls.countP (fun c => decide (c.op = .sequence)) ≤ 1
  after : ∀ c ∈ st.calls, c.op = .sequence → c.cpsAfter = st.cps
  behind : ∀ c ∈ st.calls, ∀ op, c.op = .body op →
    (∃ f ∈ st.calls, f.nop = 0 ∧ f.op = .sequence ∧ f.status = Nfs4err.ok ∧ f.cpsAfter = c.cps) ∧
    SlotLocked c.clients c.cps

end

/-- CB_SEQUENCE has run, and the slot is locked. -/
structure Opened (st : CbState ω) : Prop where
  sequence : ∃ f ∈ st.calls, f.nop = 0 ∧ f.op = .sequence ∧ f.status = Nfs4err.ok
  locked : st.cps.drcStatus = 0 → SlotLocked st.clients st.cps

theorem Fresh.gated (h : Fresh clients₀ st) : Gated clients₀ st :=
  ⟨.inl ⟨h.slot, fun k => by rw [h.clients]⟩, by simp [h.calls], by simp [h.calls], by simp [h.calls]⟩

theorem Gated.setStreams (h : Gated clients₀ st) (input : List Byte) (out : Out) :
    Gated clients₀ { st with input := input, out := out } := ⟨h.held, h.once, h.after, h.behind⟩

theorem Opened.setStreams (h : Opened st) (input : List Byte) (out : Out) :
    Opened { st with input := input, out := out } := ⟨h.sequence, h.locked⟩

theorem encodeHdr_out (opNr : U32) (st : CbState ω) (status : Nat) (res : CbRes) :
    ∃ out, (encodeHdr opNr st status res).1 = { st with out := out } := by
  unfold encodeHdr
  dsimp only
  split
  · exact ⟨_, rfl⟩
  split
  · exact ⟨_, rfl⟩
  · exact ⟨_, rfl⟩

theorem encodeHdr_ok {opNr : U32} {st : CbState ω} {status : Nat} {res : CbRes}
    (h : (encodeHdr opNr st status res).2 = 0) : status = 0 := by
  unfold encodeHdr at h
  dsimp only at h
  split at h
  next hne => exact absurd h hne
  · split at h
    next h0 => exact h0
    · exact h

theorem decodeCbSequenceArgs_fails {P : Nat → Prop} (hres : P Nfs4err.resource) (denv : DecodeEnv) :
    FailsWith P (decodeCbSequenceArgs denv) := by
  have hsid : FailsWith P decodeSessionid := (failsWith_inlineDecode hres).bind fun _ => .pure _
  have hrc : FailsWith P (decodeRcList denv) := by
    refine hsid.bind fun sid => (failsWith_inlineDecode hres).bind fun p => ?_
    dsimp only
    split
    · exact .pure _
    · exact (failsWith_require hres).bind fun _ => (failsWith_inlineDecode hres).bind fun _ =>
        (failsWith_require hres).bind fun _ => .pure _
  exact hsid.bind fun _ => (failsWith_inlineDecode hres).bind fun _ =>
    (failsWith_require hres).bind fun _ => (failsWith_decodeMany hrc _).bind fun _ => .pure _

theorem runSequence_gated (hf : Fresh clients₀ st) : let r := runSequence env 0 st
    Gated clients₀ r.1 ∧ r.1.cps.minorversion = st.cps.minorversion ∧ (r.2.1 = 0 → Opened r.1) := by
  intro r
  cases hd : decodeCbSequenceArgs env.decode st.input with
  | error err =>
    have hr : r = (st, err, .none) := by simp only [r, runSequence, hd]
    rw [hr]
    exact ⟨hf.gated, rfl, fun h => absurd h (decodeCbSequenceArgs_fails (P := (· ≠ 0)) (by decide) env.decode st.input err hd)⟩
  | ok x =>
    obtain ⟨args, input⟩ := x
    obtain ⟨hheld, hv, hlock⟩ := cbSequence_held env.sequence st.clients args {} hf.slot
    generalize ho : nfs4CallbackSequence env.sequence st.clients args {} st.cps = o at hheld hv hlock
    have hr : r = ({ st with
        input := input, clients := o.clients, cps := o.cps
        calls := st.calls ++ [⟨0, .sequence, st.clients, st.cps, o.status, o.cps⟩] }, o.status, .sequence o.res) := by
      simp only [r, runSequence, hd, ho]
    rw [hr]
    refine ⟨⟨?_, ?_, ?_, ?_⟩, hv, fun h0 => ⟨?_, hlock h0⟩⟩
    · rw [← hf.clients]
      exact hheld
    · simp [hf.calls]
    · simp [hf.calls]
    · simp [hf.calls]
    · exact ⟨⟨0, .sequence, st.clients, st.cps, o.status, o.cps⟩, by simp, rfl, rfl, h0⟩

theorem runBody_gated (hg : Gated clients₀ st) (ho : Opened st) (hdrc : st.cps.drcStatus = 0) (op : CbBodyOp) :
    let r := runBody env nop op st
    Gated clients₀ r.1 ∧ r.1.cps.minorversion = st.cps.minorversion ∧ Opened r.1 := by
  intro r
  cases hd : decodeArgs env.decode op st.input with
  | error err =>
    have hr : r = (st, err, .none) := by simp only [r, runBody, hd]
    rw [hr]
    exact ⟨hg, rfl, ho⟩
  | ok x =>
    obtain ⟨args, input⟩ := x
    rcases hb : env.body args st.cps st.rest with ⟨rest, status, res⟩
    have hr : r.1 = { st with
        input := input, rest := rest
        calls := st.calls ++ [⟨nop, .body op, st.clients, st.cps, status, st.cps⟩] } := by
      simp only [r, runBody, hd, hb]
    rw [hr]
    obtain ⟨f, hf, hnop, hop, hst⟩ := ho.sequence
    refine ⟨⟨hg.held, ?_, fun c hc hseq => ?_, fun c hc op' hop' => ?_⟩, rfl, ⟨⟨f, ?_, hnop, hop, hst⟩, ho.locked⟩⟩
    · simpa using hg.once
    · rcases mem_append.mp hc with hc | hc
      · exact hg.after c hc hseq
      · obtain rfl := mem_singleton.mp hc
        cases hseq
    · rcases mem_append.mp hc with hc | hc
      · obtain ⟨⟨f', hf', hprops⟩, hlock⟩ := hg.behind c hc op' hop'
        exact ⟨⟨f', mem_append_left _ hf', hprops⟩, hlock⟩
      · obtain rfl := mem_singleton.mp hc
        exact ⟨⟨f, mem_append_left _ hf, hnop, hop, hst, hg.after f hf hop⟩, ho.locked hdrc⟩
    · exact mem_append_left _ hf

theorem runOp_gated {op : CbOp} (hop : op = .sequence ↔ nop = 0) (h0 : nop = 0 → Fresh clients₀ st)
    (hn : nop ≠ 0 → Gated clients₀ st ∧ Opened st) (hdrc : st.cps.drcStatus = 0) : let r := runOp env nop op st
    Gated clients₀ r.1 ∧ r.1.cps.minorversion = st.cps.minorversion ∧ (r.2.1 = 0 → Opened r.1) := by
  intro r
  have hgated : Gated clients₀ st := by
    by_cases hz : nop = 0
    · exact (h0 hz).gated
    · exact (hn hz).1
  by_cases hroom : 0 < st.out.room ∧ st.out.room < env.pageSize
  · cases op with
    | sequence =>
      have hz : nop = 0 := hop.mp rfl
      have hr : r = runSequence env 0 st := by simp only [r, runOp, if_pos hroom, hz]
      rw [hr]
      exact runSequence_gated env (h0 hz)
    | body op =>
      have hz : nop ≠ 0 := fun hz => by cases hop.mpr hz
      have hr : r = runBody env nop op st := by simp only [r, runOp, if_pos hroom]
      rw [hr]
      obtain ⟨hg, hv, ho⟩ := runBody_gated env (hn hz).1 (hn hz).2 hdrc op
      exact ⟨hg, hv, fun _ => ho⟩
  · have hr : r = (st, Nfs4err.resource, .none) := by simp only [r, runOp, if_neg hroom]
    rw [hr]
    exact ⟨hgated, rfl, fun h => absurd h (by simp)⟩

theorem processOp_gated (hv : st.cps.minorversion = 1 ∨ st.cps.minorversion = 2)
    (h0 : nop = 0 → Fresh clients₀ st ∧ st.cps.drcStatus = 0) (hn : nop ≠ 0 → Gated clients₀ st ∧ Opened st) :
    let r := processOp env nop st
    Gated clients₀ r.1 ∧ r.1.cps.minorversion = st.cps.minorversion ∧ (r.2 = 0 → Opened r.1) := by
  intro r
  have hgated : Gated clients₀ st := by
    by_cases hz : nop = 0
    · exact (h0 hz).1.gated
    · exact (hn hz).1
  cases hhdr : decodeOpHdr st.input with
  | error err =>
    have hfails : FailsWith (· ≠ 0) decodeOpHdr :=
      (failsWith_inlineDecode (by decide)).bind fun _ => .pure _
    have hr : r = (st, err) := by simp only [r, processOp, hhdr]
    rw [hr]
    exact ⟨hgated, rfl, fun h => absurd h (hfails st.input err hhdr)⟩
  | ok x =>
    obtain ⟨opNr, input⟩ := x
    have hskip : ∀ (opNr : U32) (status : Nat), status ≠ 0 →
        Gated clients₀ (encodeHdr opNr { st with input := input } status .none).1 ∧
        (encodeHdr opNr { st with input := input } status .none).1.cps.minorversion = st.cps.minorversion ∧
        ((encodeHdr opNr { st with input := input } status .none).2 = 0 →
          Opened (encodeHdr opNr { st with input := input } status .none).1) := by
      intro opNr status hne
      obtain ⟨out, hout⟩ := encodeHdr_out opNr { st with input := input } status .none
      rw [hout]
      exact ⟨hgated.setStreams input out, rfl, fun h => absurd (encodeHdr_ok h) hne⟩
    cases hpre : preprocessOp st.cps.minorversion nop opNr with
    | error err =>
      have hr : r = encodeHdr (if err = Nfs4err.opIllegal then 10044 else opNr) { st with input := input } err .none := by
        simp only [r, processOp, hhdr, hpre]
      rw [hr]
      exact hskip _ err (preprocessOp_error hpre).1
    | ok op =>
      by_cases hdrc : st.cps.drcStatus ≠ 0
      · have hr : r = encodeHdr opNr { st with input := input } st.cps.drcStatus .none := by
          simp only [r, processOp, hhdr, hpre, if_pos hdrc]
        rw [hr]
        exact hskip opNr _ hdrc
      · have hr : r = encodeHdr opNr (runOp env nop op { st with input := input }).1
            (runOp env nop op { st with input := input }).2.1 (runOp env nop op { st with input := input }).2.2 := by
          simp only [r, processOp, hhdr, hpre, if_neg hdrc]
        have hfresh : nop = 0 → Fresh clients₀ { st with input := input } := fun hz =>
          ⟨(h0 hz).1.calls, (h0 hz).1.clients, (h0 hz).1.slot⟩
        have hopened : nop ≠ 0 → Gated clients₀ { st with input := input } ∧ Opened { st with input := input } := fun hz =>
          ⟨(hn hz).1.setStreams input st.out, (hn hz).2.setStreams input st.out⟩
        obtain ⟨hg, hv', ho⟩ := runOp_gated env (preprocessOp_ok hv hpre) hfresh hopened (not_not.mp hdrc)
        obtain ⟨out, hout⟩ := encodeHdr_out opNr (runOp env nop op { st with input := input }).1
          (runOp env nop op { st with input := input }).2.1 (runOp env nop op { st with input := input }).2.2
        rw [hr, hout]
        refine ⟨hg.setStreams _ out, hv', fun h => (ho ?_).setStreams _ out⟩
        exact encodeHdr_ok h

/-- Nothing runs in a compound before a good CB_SEQUENCE. -/
theorem processOps_gated : ∀ (n nop : Nat) (st : CbState ω), (st.cps.minorversion = 1 ∨ st.cps.minorversion = 2) →
    (nop = 0 → Fresh clients₀ st ∧ st.cps.drcStatus = 0) → (nop ≠ 0 → Gated clients₀ st ∧ Opened st) →
    Gated clients₀ (processOps env n nop st).1
  | 0, nop, st, _, h0, hn => by
    by_cases hz : nop = 0
    · exact (h0 hz).1.gated
    · exact (hn hz).1
  | n + 1, nop, st, hv, h0, hn => by
    obtain ⟨hg, hv', ho⟩ := processOp_gated env hv h0 hn
    rw [processOps]
    dsimp only
    split
    next hok =>
      exact processOps_gated n (nop + 1) _ (by rwa [hv']) (fun hz => absurd hz (Nat.succ_ne_zero nop)) fun _ => ⟨hg, ho hok⟩
    · exact hg

end CbState

/-! ### Freeing the slot -/

theorem bcUsed_callbackFreeSlot (h : bcSlotAt clients k i = some slot) (k' : Nat) :
    bcUsed (nfs4CallbackFreeSlot clients k i) k' =
      if k' = k then (bcUsed clients k).erase slot.slotNr.toNat else bcUsed clients k' := by
  obtain ⟨session, hsess, hslot⟩ := bind_eq_some_iff.mp h
  obtain ⟨clp, hclp, hclps⟩ := bind_eq_some_iff.mp hsess
  by_cases hk : k' = k
  · subst hk
    simp [bcUsed, nfs4CallbackFreeSlot, hclp, hclps, hslot, (SlotTable.freeSlot_rest ..).1]
  · rw [if_neg hk]
    simp [bcUsed, nfs4CallbackFreeSlot, Ne.symm hk]

theorem bcSlotAt_callbackFreeSlot
    (h : bcSlotAt clients k i = some slot) : bcSlotAt (nfs4CallbackFreeSlot clients k i) k i = some slot := by
  obtain ⟨session, hsess, hslot⟩ := bind_eq_some_iff.mp h
  obtain ⟨clp, hclp, hclps⟩ := bind_eq_some_iff.mp hsess
  simp [bcSlotAt, nfs4CallbackFreeSlot, hclp, hclps, hslot, (SlotTable.freeSlot_rest ..).2.1]

/-- The slot that was taken is given back. -/
theorem nfs4CbFreeSlot_restores {ω : Type} {clients₀ : List NfsClient} {st : CbState ω} (h : Held clients₀ st.clients st.cps) :
    (∀ k, bcUsed (nfs4CbFreeSlot st).clients k = bcUsed clients₀ k) ∧ (nfs4CbFreeSlot st).calls = st.calls ∧
    ∀ k i, st.cps.clp = some k → st.cps.slot = some i → ∃ slot, bcSlotAt (nfs4CbFreeSlot st).clients k i = some slot ∧
        slot.slotNr.toNat ∉ bcUsed (nfs4CbFreeSlot st).clients k := by
  rcases h with ⟨hnone, hsame⟩ | ⟨k, i, slot, hk, hi, hat, hfree, hused⟩
  · have hst : nfs4CbFreeSlot st = st := by simp [nfs4CbFreeSlot, hnone]
    rw [hst]
    exact ⟨hsame, rfl, fun k i _ hi => by simp [hnone] at hi⟩
  · have hst : nfs4CbFreeSlot st =
        { st with clients := nfs4CallbackFreeSlot st.clients k i, cps := { st.cps with slot := none } } := by
      simp only [nfs4CbFreeSlot, hi, hk]
    have hrestored : ∀ k', bcUsed (nfs4CallbackFreeSlot st.clients k i) k' = bcUsed clients₀ k' := by
      intro k'
      rw [bcUsed_callbackFreeSlot hat]
      by_cases hk' : k' = k
      · rw [if_pos hk', hused, if_pos rfl, Finset.erase_insert hfree, hk']
      · rw [if_neg hk', hused, if_neg hk']
    rw [hst]
    refine ⟨hrestored, rfl, fun k' i' hk' hi' => ?_⟩
    obtain rfl : k = k' := some.inj (hk.symm.trans hk')
    obtain rfl : i = i' := some.inj (hi.symm.trans hi')
    exact ⟨slot, bcSlotAt_callbackFreeSlot hat, by rw [hrestored]; exact hfree⟩

/-! ### The compound -/

/-- In minor versions 1 and 2 a handler other than CB_SEQUENCE's runs only behind an operation 0 that was a successful
    CB_SEQUENCE and left a client and a locked slot. CB_SEQUENCE's runs once at most, and at the end every lock bit is
    as it was. -/
theorem cbCompound_gated {ω : Type} (env : CbEnv ω) (input tail : List Byte) (out : Out) (clients : List NfsClient)
    (rest : ω) (hdr : CbCompoundHdrArg) (status : Nat) (hdec : decodeCompoundHdrArg input = .ok ((hdr, status), tail))
    (hv : hdr.minorversion = 1 ∨ hdr.minorversion = 2) :
    let st := (nfs4CallbackCompound env input out clients rest).1
    (∀ c ∈ st.calls, ∀ op, c.op = .body op →
      (∃ f ∈ st.calls, f.nop = 0 ∧ f.op = .sequence ∧ f.status = Nfs4err.ok ∧ f.cpsAfter = c.cps) ∧
      SlotLocked c.clients c.cps) ∧
    st.calls.countP (fun c => decide (c.op = .sequence)) ≤ 1 ∧
    (∀ c ∈ st.calls, c.op = .sequence → ∀ k i, c.cpsAfter.clp = some k → c.cpsAfter.slot = some i →
      ∃ slot, bcSlotAt st.clients k i = some slot ∧ slot.slotNr.toNat ∉ bcUsed st.clients k) ∧
    ∀ k, bcUsed st.clients k = bcUsed clients k := by
  intro st
  have hclient : compoundClient env hdr = some none := by
    rcases hv with h | h <;> simp [compoundClient, h]
  rcases henc : encodeCompoundHdrRes hdr.tag out with ⟨out', err⟩
  by_cases herr : err ≠ 0
  · -- nothing ran
    have hst : st = ⟨tail, out', clients, rest, { minorversion := hdr.minorversion }, []⟩ := by
      simp only [st, nfs4CallbackCompound, hdec, hclient, henc, if_pos herr]
    rw [hst]
    exact ⟨by simp, by simp, by simp, fun _ => rfl⟩
  · obtain ⟨s, hs, hgated⟩ : ∃ s : CbState ω, st = nfs4CbFreeSlot s ∧ CbState.Gated clients s := by
      have hfresh : CbState.Fresh clients
          (⟨tail, out', clients, rest, { minorversion := hdr.minorversion }, []⟩ : CbState ω) := ⟨rfl, rfl, rfl⟩
      by_cases hstat : status = 0
      · exact ⟨_, by simp only [st, nfs4CallbackCompound, hdec, hclient, henc, if_neg herr, if_pos hstat],
          CbState.processOps_gated env hdr.nops.toNat 0 _ hv (fun _ => ⟨hfresh, rfl⟩) fun h => absurd rfl h⟩
      · exact ⟨_, by simp only [st, nfs4CallbackCompound, hdec, hclient, henc, if_neg herr, if_neg hstat], hfresh.gated⟩
    obtain ⟨hrestored, hcalls, hslot⟩ := nfs4CbFreeSlot_restores hgated.held
    rw [hs, hcalls]
    refine ⟨hgated.behind, hgated.once, fun c hc hop k i hk hi => ?_, hrestored⟩
    rw [hgated.after c hc hop] at hk hi
    exact hslot k i hk hi

def beBytes (ws : List U32) : List Byte :=
  ws.flatMap fun (w : U32) => [(w >>> 24).setWidth 8, (w >>> 16).setWidth 8, (w >>> 8).setWidth 8, w.setWidth 8]

def recallSlotCompound : List Byte :=
  beBytes [0, 1, 0, 2, 11, 0, 0, 0, 1, 6, 0, 0, 0, 0, 10, 5]

def recallSlotEnv : CbEnv Unit where
  decode := ⟨fun _ => true, {}, {}, ⟨1, 0⟩, 64⟩
  sequence := quietEnv
  body := fun _ _ _ => ((), 0, {})
  pageSize := 4096
  identClient := fun _ => none
  gssOk := fun _ => false

theorem cbCompound_gated_recallSlot :
    let st := (nfs4CallbackCompound recallSlotEnv recallSlotCompound ⟨[], 100⟩ [oneSlotClient] ()).1
    st.calls.map CbCall.op = [.sequence, .body .recallSlot] ∧
    (∀ c ∈ st.calls, ∀ op, c.op = .body op → SlotLocked c.clients c.cps) ∧
    ∀ k, bcUsed st.clients k = bcUsed [oneSlotClient] k := by
  have h := cbCompound_gated recallSlotEnv recallSlotCompound (recallSlotCompound.drop 16) ⟨[], 100⟩ [oneSlotClient] ()
    ⟨[], 1, 0, 2⟩ 0 rfl (.inl rfl)
  exact ⟨by decide, fun c hc op hop => (h.1 c hc op hop).2, h.2.2.2⟩

end Mynfs
