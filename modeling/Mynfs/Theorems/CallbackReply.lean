import Mynfs.Theorems.CallbackCompound

/-! What the header of a CB_COMPOUND reply says of its body. -/

namespace Mynfs
open Xdr List
open Nfs4err (badslot badxdr delay minorVersMismatch ok resource)
open BitVec (ofNat)

/-- A result in the body. -/
structure OpResult where
  op : U32
  status : U32
  payload : List U32
deriving DecidableEq

def OpResult.words (r : OpResult) : List U32 := r.op :: r.status :: r.payload

def opResult (before after : Out) : Option OpResult :=
  match after.words.drop before.words.length with
  | op :: status :: payload => some ⟨op, status, payload⟩
  | _ => none

namespace CbState
variable {ω : Type} (env : CbEnv ω) {out out' : Out} {r : Out × Nat} {f : Out → Out × Nat} {res : CbRes} {nop : Nat}
  {st : CbState ω}

def opResults : Nat → Nat → CbState ω → List OpResult
  | 0, _, _ => []
  | n + 1, nop, st =>
    let r := processOp env nop st
    (opResult st.out r.1.out).toList ++ if r.2 = 0 then opResults n (nop + 1) r.1 else []

def EachOp (P : Nat → CbState ω → Prop) : Nat → Nat → CbState ω → Prop
  | 0, _, _ => True
  | n + 1, nop, st => P nop st ∧ ((processOp env nop st).2 = 0 → EachOp P n (nop + 1) (processOp env nop st).1)

instance decidableEachOp (P : Nat → CbState ω → Prop) [∀ nop st, Decidable (P nop st)] :
    ∀ n nop st, Decidable (EachOp env P n nop st)
  | 0, _, _ => isTrue trivial
  | n + 1, nop, st =>
    have := decidableEachOp P n (nop + 1) (processOp env nop st).1
    inferInstanceAs (Decidable (_ ∧ (_ → _)))

/-- What `process_op` has when it comes to `encode_hdr`. -/
def opOutcome (nop : Nat) (st : CbState ω) : Option (U32 × CbState ω × Nat × CbRes) :=
  match decodeOpHdr st.input with
  | .error _ => none
  | .ok (opNr, input) =>
    let st := { st with input := input }
    match preprocessOp st.cps.minorversion nop opNr with
    | .error status => some (if status = Nfs4err.opIllegal then 10044 else opNr, st, status, .none)
    | .ok op =>
      if st.cps.drcStatus ≠ 0 then some (opNr, st, st.cps.drcStatus, .none)
      else some (opNr, runOp env nop op st)

/-- The header of the operation can be read, and there is room for that of its result. -/
def HeaderFits (_nop : Nat) (st : CbState ω) : Prop := 4 ≤ st.input.length ∧ 2 ≤ st.out.room

instance (nop : Nat) (st : CbState ω) : Decidable (HeaderFits nop st) := inferInstanceAs (Decidable (_ ∧ _))

/-- If the result of the operation is encoded behind its header, there is room for it. -/
def encoderFits (nop : Nat) (st : CbState ω) : Bool :=
  match opOutcome env nop st with
  | some (opNr, st, 0, res) =>
    let r := encodeOpHdr opNr 0 st.out
    r.2 ≠ 0 || (encodeRes res r.1).2 = 0
  | _ => true

variable {env}

theorem processOp_eq (nop : Nat) (st : CbState ω) : processOp env nop st =
      match opOutcome env nop st with
      | none => (st, nfs4errResourceHdr)
      | some (opNr, st, status, res) => encodeHdr opNr st status res := by
  unfold processOp opOutcome
  cases hd : decodeOpHdr st.input with
  | error err =>
    unfold decodeOpHdr at hd
    rw [inlineDecode_bind] at hd
    split at hd
    · cases hd
    · cases hd
      rfl
  | ok r =>
    dsimp only
    cases preprocessOp st.cps.minorversion nop r.1 with
    | error status => rfl
    | ok op =>
      dsimp only
      split <;> rfl

/-! ### What is written -/

def Extends (out out' : Out) : Prop := ∃ ws, out'.words = out.words ++ ws

theorem Extends.refl (out : Out) : Extends out out := ⟨[], by simp⟩

theorem Extends.trans {a b c : Out} (hab : Extends a b) (hbc : Extends b c) : Extends a c := by
  obtain ⟨ws, hws⟩ := hab
  obtain ⟨ws', hws'⟩ := hbc
  exact ⟨ws ++ ws', by rw [hws', hws, append_assoc]⟩

theorem encodeWords_cases (ws : List U32) (err : Nat) (out : Out) :
    (ws.length ≤ out.room ∧ encodeWords ws err out = (⟨out.words ++ ws, out.room - ws.length⟩, 0)) ∨
    (out.room < ws.length ∧ encodeWords ws err out = (out, err)) := by
  unfold encodeWords Out.put
  by_cases hroom : ws.length ≤ out.room
  · exact .inl ⟨hroom, by rw [if_pos hroom]⟩
  · exact .inr ⟨by omega, by rw [if_neg hroom]⟩

/-- An encoder only adds words, or fails with NFS4ERR_RESOURCE. -/
structure Encodes (out : Out) (r : Out × Nat) : Prop where
  added : Extends out r.1
  status : r.2 = 0 ∨ r.2 = Nfs4err.resource

theorem encodes_encodeWords (ws : List U32) (out : Out) : Encodes out (encodeWords ws resource out) := by
  rcases encodeWords_cases ws resource out with ⟨-, h⟩ | ⟨-, h⟩
  · rw [h]
    exact ⟨⟨ws, rfl⟩, .inl rfl⟩
  · rw [h]
    exact ⟨.refl out, .inr rfl⟩

theorem Encodes.andThen (h : Encodes out r) (hf : ∀ out', Encodes out' (f out')) : Encodes out (Mynfs.andThen r f) := by
  unfold Mynfs.andThen
  split
  · exact ⟨h.added.trans (hf r.1).added, (hf r.1).status⟩
  · exact h

theorem encodes_encodeAttrHyper (word bit : U32) (x : U64) (out : Out) : Encodes out (encodeAttrHyper word bit x out) := by
  unfold encodeAttrHyper
  split
  · exact ⟨.refl out, .inl rfl⟩
  · exact encodes_encodeWords _ out

theorem encodes_encodeAttrTime (word bit : U32) (time : Timespec) (out : Out) :
    Encodes out (encodeAttrTime word bit time out) := by
  unfold encodeAttrTime
  split
  · exact ⟨.refl out, .inl rfl⟩
  · exact encodes_encodeWords _ out

theorem Extends.set (h : Extends out out') {i : Nat} (hi : out.words.length ≤ i) (w : U32) :
    Extends out { out' with words := out'.words.set i w } := by
  obtain ⟨ws, hws⟩ := h
  exact ⟨ws.set (i - out.words.length) w, by rw [hws, set_append_right _ _ hi]⟩

theorem andThen_of_ne (h : r.2 ≠ 0) : Mynfs.andThen r f = r := if_neg h

/-- If a word goes out behind others, it is not in front of them. -/
theorem length_le_andThen_word (ws : List U32) (out : Out) {r : Out × Nat}
    (hr : r = Mynfs.andThen (encodeWords ws resource out) (encodeWords [0] resource)) (hzero : r.2 = 0) :
    out.words.length ≤ r.1.words.length - 1 := by
  subst hr
  rcases encodeWords_cases ws resource out with ⟨-, h⟩ | ⟨-, h⟩
  · rw [h] at hzero ⊢
    rcases encodeWords_cases [0] resource ⟨out.words ++ ws, out.room - ws.length⟩ with ⟨-, h'⟩ | ⟨-, h'⟩
    · show out.words.length ≤ (encodeWords [0] resource ⟨out.words ++ ws, _⟩).1.words.length - 1
      rw [h']
      simp
    · have hfail : (encodeWords [0] resource ⟨out.words ++ ws, _⟩).2 = 0 := hzero
      rw [h'] at hfail
      cases hfail
  · rw [h] at hzero
    cases hzero

theorem encodes_encodeGetattrRes {res : CbGetattrRes} (hres : res.status = 0) (out : Out) :
    Encodes out (encodeGetattrRes res out) := by
  unfold encodeGetattrRes
  rw [if_neg (not_not.mpr hres)]
  dsimp only
  have hfront := (encodes_encodeWords [3, res.bitmap.word0, res.bitmap.word1, res.bitmap.word2] out).andThen fun _ =>
    encodes_encodeWords [0] _
  -- the length word is the last of the front, if that was written at all
  have hstart := length_le_andThen_word [3, res.bitmap.word0, res.bitmap.word1, res.bitmap.word2] out rfl
  generalize Mynfs.andThen (encodeWords _ resource out) (encodeWords [0] resource) = front at hfront hstart ⊢
  by_cases hzero : front.2 = 0
  · have hattrs := hfront.andThen (encodes_encodeAttrHyper res.bitmap.word0 (1 <<< 3) res.changeAttr)
      |>.andThen (encodes_encodeAttrHyper res.bitmap.word0 (1 <<< 4) res.size)
      |>.andThen (encodes_encodeAttrTime res.bitmap.word1 (1 <<< 15) res.atime)
      |>.andThen (encodes_encodeAttrTime res.bitmap.word1 (1 <<< 20) res.ctime)
      |>.andThen (encodes_encodeAttrTime res.bitmap.word1 (1 <<< 21) res.mtime)
      |>.andThen (encodes_encodeAttrTime res.bitmap.word2 (1 <<< 20) res.atime)
    generalize Mynfs.andThen _ (encodeAttrTime res.bitmap.word2 (1 <<< 20) res.atime) = attrs at hattrs ⊢
    unfold Mynfs.andThen
    split
    · have hlast := encodes_encodeAttrTime res.bitmap.word2 (1 <<< 21) res.mtime attrs.1
      exact ⟨(hattrs.added.trans hlast.added).set (hstart hzero) _, hlast.status⟩
    · exact hattrs
  · simp only [andThen_of_ne hzero]
    exact hfront

theorem encodes_encodeCbSequenceRes {res : CbSequenceRes} (hres : res.csrStatus = 0) (out : Out) :
    Encodes out (encodeCbSequenceRes res out) := by
  unfold encodeCbSequenceRes
  rw [if_neg (not_not.mpr hres)]
  exact (encodes_encodeWords _ out).andThen fun _ => encodes_encodeWords _ _

/-! ### What is reported -/

def Reported (status : Nat) : Prop := status < nfs4errResourceHdr

instance (status : Nat) : Decidable (Reported status) := inferInstanceAs (Decidable (_ < _))

theorem reported_validateSeqid (tbl : SlotTable) (slot : Slot) (args : CbSequenceArgs) :
    Reported (validateSeqid tbl slot args) := by
  unfold validateSeqid
  split_ifs <;> decide

section
variable (senv : CbSequenceEnv) (args : CbSequenceArgs) (session : Session) (res : CbSequenceRes) (cps : CbProcessState)

theorem reported_cbSequenceReferring (i : Nat) : Reported (cbSequenceReferring senv args session res cps i).status ∧
    (cbSequenceReferring senv args session res cps i).res = res := by
  unfold cbSequenceReferring
  split
  · exact ⟨(by decide : Reported Nfs4err.repTooBigToCache), rfl⟩
  dsimp only
  split
  · exact ⟨(by decide : Reported delay), rfl⟩
  · exact ⟨(by decide : Reported ok), rfl⟩

theorem reported_cbSequenceLocked (sessionReset : Bool) :
    Reported (cbSequenceLocked senv args sessionReset session res cps).status ∧
    (cbSequenceLocked senv args sessionReset session res cps).res.csrStatus = res.csrStatus := by
  unfold cbSequenceLocked
  split
  · cases sessionReset
    · exact ⟨(by decide : Reported delay), rfl⟩
    · exact ⟨(by decide : Reported Nfs4err.badsession), rfl⟩
  split
  · exact ⟨(by decide : Reported badslot), rfl⟩
  split
  · exact ⟨(by decide : Reported badslot), rfl⟩
  unfold cbSequenceSlot
  dsimp only
  split
  · exact ⟨reported_validateSeqid _ _ _, rfl⟩
  split
  · exact ⟨(by decide : Reported delay), rfl⟩
  · obtain ⟨hstat, hres⟩ := reported_cbSequenceReferring senv args _ _ _ _
    exact ⟨hstat, by rw [hres]⟩

end

theorem reported_callbackSequence (senv : CbSequenceEnv) (clients : List NfsClient) (args : CbSequenceArgs)
    {cps : CbProcessState} (hdrc : Reported cps.drcStatus) : let o := nfs4CallbackSequence senv clients args {} cps
    Reported o.status ∧ Reported o.cps.drcStatus ∧ o.res.csrStatus = o.status := by
  intro o
  have hout : ∀ (clients : List NfsClient) (status : Nat) (res : CbSequenceRes) (cps : CbProcessState),
      Reported status → Reported cps.drcStatus → res.csrStatus = 0 →
      let o := cbSequenceOut clients status res cps
      Reported o.status ∧ Reported o.cps.drcStatus ∧ o.res.csrStatus = o.status := by
    intro clients status res cps hstat hdrc hres
    unfold cbSequenceOut
    split
    · exact ⟨(by decide : Reported ok), hstat, hres⟩
    · exact ⟨hstat, hdrc, rfl⟩
  unfold o nfs4CallbackSequence
  cases nfs4FindClientSessionid clients args.csaAddr args.csaSessionid cps.minorversion with
  | none => exact hout _ _ _ _ (by decide) hdrc rfl
  | some x =>
    obtain ⟨k, clp, session⟩ := x
    dsimp only
    split
    · exact hout _ _ _ _ (by decide) hdrc rfl
    · obtain ⟨hstat, hres⟩ := reported_cbSequenceLocked senv args session
        { csrSessionid := args.csaSessionid, csrSequenceid := args.csaSequenceid, csrSlotid := args.csaSlotid } cps
        clp.sessionReset
      refine hout _ _ _ _ hstat ?_ hres
      rw [show _ = cps.drcStatus from drcStatus_cbSequenceLocked clp.sessionReset]
      exact hdrc

theorem reported_decodeArgs (denv : DecodeEnv) (op : CbBodyOp) : FailsWith Reported (decodeArgs denv op) := by
  have hres : ∀ {n}, FailsWith Reported (inlineDecode n resource) := failsWith_inlineDecode (by decide)
  have hxdr : ∀ {n}, FailsWith Reported (inlineDecode n badxdr) := failsWith_inlineDecode (by decide)
  have hfh : FailsWith Reported decodeFh :=
    hres.bind fun _ => (failsWith_require (by decide)).bind fun _ =>
      hres.bind fun _ => .pure _
  have hbitmap : ∀ bitmap, FailsWith Reported (decodeBitmap bitmap) := fun _ =>
    hres.bind fun _ => hres.bind fun _ =>
      .pure _
  have hsid : ∀ type, FailsWith Reported (decodeStateid type) := fun _ =>
    hres.bind fun _ => .pure _
  match op with
  | .getattr => exact hfh.bind fun _ => (hbitmap _).bind fun _ => .pure _
  | .recall =>
    exact (hsid _).bind fun _ => hres.bind fun _ =>
      hfh.bind fun _ => .pure _
  | .layoutrecall =>
    refine hxdr.bind fun p => ?_
    dsimp only
    split
    · exact hfh.bind fun _ => hxdr.bind fun _ =>
        (hsid _).bind fun _ => .pure _
    split
    · exact hxdr.bind fun _ => .pure _
    · exact (failsWith_require (by decide)).bind fun _ => .pure _
  | .notifyDeviceid =>
    refine hxdr.bind fun p => ?_
    dsimp only
    split
    · exact .pure _
    refine (failsWith_require (by decide)).bind fun _ => (failsWith_decodeMany ?_ _).bind fun _ =>
      .pure _
    refine hxdr.bind fun p => (failsWith_require (by decide)).bind fun _ =>
      (failsWith_require (by decide)).bind fun _ => (failsWith_require (by decide)).bind fun _ => ?_
    dsimp only
    split
    · exact hxdr.bind fun _ => .pure _
    · exact .pure _
  | .recallAny =>
    exact hxdr.bind fun _ => (hbitmap _).bind fun _ => .pure _
  | .recallSlot => exact hxdr.bind fun _ => .pure _
  | .notifyLock =>
    refine hfh.bind fun _ => hxdr.bind fun p => ?_
    refine hxdr.bind fun p => ?_
    split <;> exact .pure _
  | .offload =>
    refine hfh.bind fun _ => (hsid _).bind fun _ =>
      hres.bind fun p => ?_
    dsimp only
    split
    · exact hres.bind fun _ => hres.bind fun _ =>
        hres.bind fun _ => .pure _
    · exact hres.bind fun _ => .pure _

def HandlersReport (env : CbEnv ω) : Prop := ∀ args cps rest, Reported (env.body args cps rest).2.1

def resStatus : CbRes → Nat
  | .none => 0
  | .getattr res => res.status
  | .sequence res => res.csrStatus

theorem encodes_encodeRes (hres : resStatus res = 0) (out : Out) : Encodes out (encodeRes res out) := by
  cases res with
  | none => exact ⟨.refl out, .inl rfl⟩
  | getattr res => exact encodes_encodeGetattrRes hres out
  | sequence res => exact encodes_encodeCbSequenceRes hres out

/-- What a handler leaves. -/
structure Handled (st : CbState ω) (r : CbState ω × Nat × CbRes) : Prop where
  out : r.1.out = st.out
  reported : Reported r.2.1
  drc : Reported r.1.cps.drcStatus
  res : r.2.1 = 0 → resStatus r.2.2 = 0

theorem handled_runOp (hbody : HandlersReport env) (nop : Nat) (st : CbState ω) (hdrc : Reported st.cps.drcStatus)
    (op : CbOp) : Handled st (runOp env nop op st) := by
  unfold runOp
  split
  · cases op with
    | sequence =>
      show Handled st (runSequence env nop st)
      unfold runSequence
      split
      · rename_i status hd
        exact ⟨rfl, decodeCbSequenceArgs_fails (P := Reported) (by decide) _ _ _ hd, hdrc, fun _ => rfl⟩
      · rename_i args input hd
        obtain ⟨hstat, hdrc', hres⟩ := reported_callbackSequence env.sequence st.clients args hdrc
        exact ⟨rfl, hstat, hdrc', fun h0 => hres.trans h0⟩
    | body op =>
      show Handled st (runBody env nop op st)
      unfold runBody
      split
      · rename_i status hd
        exact ⟨rfl, reported_decodeArgs _ _ _ _ hd, hdrc, fun _ => rfl⟩
      · refine ⟨rfl, hbody _ _ _, hdrc, fun h0 => ?_⟩
        dsimp only
        split
        · exact h0
        · rfl
  · exact ⟨rfl, (by decide : Reported resource), hdrc, fun _ => rfl⟩

theorem opOutcome_eq_none : opOutcome env nop st = none ↔ st.input.length < 4 := by
  unfold opOutcome decodeOpHdr
  rw [inlineDecode_bind]
  by_cases hlen : padded 4 ≤ st.input.length
  · rw [if_pos hlen]
    have hlen' : ¬st.input.length < 4 := fun h => absurd hlen (by unfold padded; omega)
    refine ⟨fun h => ?_, fun h => absurd h hlen'⟩
    dsimp only [pure, StateT.pure, Except.pure] at h
    split at h
    · cases h
    · split at h <;> cases h
  · rw [if_neg hlen]
    exact ⟨fun _ => by unfold padded at hlen; omega, fun _ => rfl⟩

theorem handled_opOutcome (hbody : HandlersReport env) (hdrc : Reported st.cps.drcStatus)
    {r : CbState ω × Nat × CbRes} (h : opOutcome env nop st = some (opNr, r)) : Handled st r := by
  unfold opOutcome at h
  split at h
  · cases h
  dsimp only at h
  split at h
  · rename_i status hpre
    cases h
    exact ⟨rfl, (preprocessOp_error hpre).2, hdrc, fun _ => rfl⟩
  split at h
  · cases h
    exact ⟨rfl, hdrc, hdrc, fun _ => rfl⟩
  · rename_i input _ _ op _ _
    cases h
    have hrun := handled_runOp hbody nop { st with input := input } hdrc op
    exact ⟨hrun.out, hrun.reported, hrun.drc, hrun.res⟩

/-- A header that fits is written; the status returned is the one in it unless the encoder behind it failed. -/
theorem encodeHdr_spec (opNr : U32) (hroom : 2 ≤ st.out.room) (hstat : Reported status) (hres : status = 0 → resStatus res = 0) :
    let r := encodeHdr opNr st status res
    (∃ payload, r.1.out.words = st.out.words ++ (⟨opNr, ofNat 32 status, payload⟩ : OpResult).words) ∧
    Reported r.2 ∧ (r.2 = 0 → status = 0) ∧
    (r.2 = status ∨ (status = 0 ∧ (encodeRes res (encodeOpHdr opNr 0 st.out).1).2 ≠ 0)) := by
  intro r
  have hhdr : encodeOpHdr opNr status st.out = (⟨st.out.words ++ [opNr, ofNat 32 status], st.out.room - 2⟩, 0) := by
    rcases encodeWords_cases [opNr, ofNat 32 status] nfs4errResourceHdr st.out with ⟨-, h⟩ | ⟨h, -⟩
    · exact h
    · exact absurd hroom (by simpa using h)
  by_cases hzero : status = 0
  · have hr : r = ({ st with out := (encodeRes res (encodeOpHdr opNr status st.out).1).1 },
        (encodeRes res (encodeOpHdr opNr status st.out).1).2) := by
      show encodeHdr opNr st status res = _
      unfold encodeHdr
      rw [hhdr]
      simp [hzero]
    have henc := encodes_encodeRes (hres hzero) (encodeOpHdr opNr status st.out).1
    rw [hr]
    refine ⟨?_, ?_, fun _ => hzero, ?_⟩
    · obtain ⟨payload, hpay⟩ := henc.added
      refine ⟨payload, hpay.trans ?_⟩
      rw [hhdr]
      simp [OpResult.words]
    · rcases henc.status with h | h
      · rw [h]; decide
      · rw [h]; decide
    · by_cases hfail : (encodeRes res (encodeOpHdr opNr status st.out).1).2 = 0
      · exact .inl (hfail.trans hzero.symm)
      · exact .inr ⟨hzero, by rwa [hzero] at hfail⟩
  · have hr : r = ({ st with out := (encodeOpHdr opNr status st.out).1 }, status) := by
      show encodeHdr opNr st status res = _
      unfold encodeHdr
      rw [hhdr]
      simp [hzero]
    rw [hr]
    exact ⟨⟨[], by rw [hhdr]; rfl⟩, hstat, fun h => h, .inl rfl⟩

/-- Nothing is written if a header does not fit; otherwise one result, whose status is returned unless its encoder
    failed. -/
theorem processOp_spec (nop : Nat) (hbody : HandlersReport env) (hdrc : Reported st.cps.drcStatus) : let r := processOp env nop st
    Reported r.1.cps.drcStatus ∧
    ((¬HeaderFits nop st ∧ r.2 = nfs4errResourceHdr ∧ r.1.out = st.out) ∨
     (HeaderFits nop st ∧ Reported r.2 ∧ ∃ x : OpResult, r.1.out.words = st.out.words ++ x.words ∧
      (r.2 = 0 → x.status = 0) ∧ (encoderFits env nop st → x.status = ofNat 32 r.2))) := by
  intro r
  have hr : r = _ := processOp_eq nop st
  cases ho : opOutcome env nop st with
  | none =>
    rw [ho] at hr
    rw [hr]
    have hlen := opOutcome_eq_none.mp ho
    exact ⟨hdrc, .inl ⟨fun h => absurd h.1 (by omega), rfl, rfl⟩⟩
  | some o =>
    obtain ⟨opNr, st', status, res⟩ := o
    rw [ho] at hr
    dsimp only at hr
    obtain ⟨hout, hstat, hdrc', hres⟩ := handled_opOutcome hbody hdrc ho
    have hlen : 4 ≤ st.input.length := by
      by_contra h
      rw [opOutcome_eq_none.mpr (by omega)] at ho
      cases ho
    obtain ⟨out', hout'⟩ := encodeHdr_out opNr st' status res
    refine ⟨by rw [hr, hout']; exact hdrc', ?_⟩
    by_cases hroom : 2 ≤ st.out.room
    · obtain ⟨⟨payload, hwords⟩, hrep, hok, hret⟩ := encodeHdr_spec opNr (by rwa [hout]) hstat hres
      rw [← hr] at hwords hrep hok hret
      refine .inr ⟨⟨hlen, hroom⟩, hrep, _, by rw [← hout]; exact hwords, fun h0 => ?_, fun hfit => ?_⟩
      · rw [hok h0]
        rfl
      · rcases hret with h | ⟨hzero, hfail⟩
        · rw [h]
        · -- the encoder ran behind a header that fitted, so it did not fail
          subst hzero
          have hhdr : (encodeOpHdr opNr 0 st'.out).2 = 0 := by
            rcases encodeWords_cases [opNr, ofNat 32 0] nfs4errResourceHdr st'.out with ⟨-, h⟩ | ⟨h, -⟩
            · exact congrArg Prod.snd h
            · rw [hout] at h
              exact absurd hroom (by simpa using h)
          unfold encoderFits at hfit
          rw [ho] at hfit
          simp [hhdr, hfail] at hfit
    · have hfull : encodeHdr opNr st' status res = (st', nfs4errResourceHdr) := by
        rcases encodeWords_cases [opNr, ofNat 32 status] nfs4errResourceHdr st'.out with ⟨h, -⟩ | ⟨-, h⟩
        · rw [hout] at h
          exact absurd (by simpa using h) hroom
        · unfold encodeHdr
          rw [show encodeOpHdr opNr status st'.out = _ from h]
          simp [nfs4errResourceHdr]
      rw [hr, hfull]
      exact .inl ⟨fun h => hroom h.2, rfl, hout⟩

theorem opResult_eq_none (h : out' = out) : opResult out out' = none := by
  unfold opResult
  rw [h, drop_length]

theorem opResult_eq_some {x : OpResult} (h : out'.words = out.words ++ x.words) : opResult out out' = some x := by
  unfold opResult
  rw [h, drop_left]
  rfl

theorem processOps_succ (n nop : Nat) (st : CbState ω) :
    processOps env (n + 1) nop st = if (processOp env nop st).2 = 0 then processOps env n (nop + 1) (processOp env nop st).1
      else ((processOp env nop st).1, (processOp env nop st).2, nop + 1) := rfl

/-- All results but the last are successes: one for each operation, or up to the one whose header does not fit. -/
structure Written (n nop : Nat) (st : CbState ω) (results : List OpResult) (r : CbState ω × Nat × Nat) : Prop where
  words : r.1.out.words = st.out.words ++ results.flatMap OpResult.words
  earlier : ∀ x ∈ results.dropLast, x.status = 0
  fits : EachOp env HeaderFits n nop st → Reported r.2.1 ∧ r.2.2 = nop + results.length ∧ (results = [] → r.2.1 = 0)
  last : EachOp env HeaderFits n nop st → EachOp env (fun nop st => encoderFits env nop st) n nop st →
    ∀ x ∈ results.getLast?, x.status = BitVec.ofNat 32 r.2.1
  full : ¬EachOp env HeaderFits n nop st → r.2.1 = nfs4errResourceHdr ∧ r.2.2 = nop + results.length + 1 ∧
    ∀ x ∈ results, x.status = 0

theorem written_processOps (hbody : HandlersReport env) : ∀ (n nop : Nat) (st : CbState ω), Reported st.cps.drcStatus →
    @Written ω env n nop st (opResults env n nop st) (processOps env n nop st)
  | 0, nop, st, _ =>
    ⟨by simp [opResults, processOps], by simp [opResults], fun _ => ⟨(by decide : Reported 0), rfl, fun _ => rfl⟩,
      by simp [opResults], fun h => absurd trivial h⟩
  | n + 1, nop, st, hdrc => by
    obtain ⟨hdrc', ⟨hhdr, hret, hout⟩ | ⟨hhdr, hrep, x, hwords, hok, hfit⟩⟩ := processOp_spec nop hbody hdrc
    · -- the header does not fit: nothing is written, and the loop ends
      have hne : (processOp env nop st).2 ≠ 0 := by rw [hret]; decide
      have hresults : opResults env (n + 1) nop st = [] := by
        rw [opResults, if_neg hne, opResult_eq_none hout]
        rfl
      have hloop : processOps env (n + 1) nop st = ((processOp env nop st).1, nfs4errResourceHdr, nop + 1) := by
        rw [processOps_succ, if_neg hne, hret]
      rw [hresults, hloop]
      exact ⟨by simp [hout], by simp, fun h => absurd h.1 hhdr, fun h => absurd h.1 hhdr, fun _ => ⟨rfl, rfl, by simp⟩⟩
    · by_cases hzero : (processOp env nop st).2 = 0
      · have ih := written_processOps hbody n (nop + 1) (processOp env nop st).1 hdrc'
        have hresults : opResults env (n + 1) nop st = x :: opResults env n (nop + 1) (processOp env nop st).1 := by
          rw [opResults, if_pos hzero, opResult_eq_some hwords]
          rfl
        have hloop : processOps env (n + 1) nop st = processOps env n (nop + 1) (processOp env nop st).1 := by
          rw [processOps_succ, if_pos hzero]
        rw [hresults, hloop]
        generalize opResults env n (nop + 1) (processOp env nop st).1 = results at ih
        refine ⟨?_, ?_, fun h => ?_, fun h he => ?_, fun h => ?_⟩
        · rw [ih.words, hwords, flatMap_cons, append_assoc]
        · intro y hy
          cases results with
          | nil => simp at hy
          | cons z results =>
            rcases mem_cons.mp hy with rfl | hy
            · exact hok hzero
            · exact ih.earlier y hy
        · obtain ⟨hr, hcount, -⟩ := ih.fits (h.2 hzero)
          exact ⟨hr, by rw [hcount, length_cons]; omega, fun h => absurd h (by simp)⟩
        · cases results with
          | nil =>
            intro y hy
            obtain rfl : x = y := by simpa using hy
            rw [hok hzero, (ih.fits (h.2 hzero)).2.2 rfl]
            rfl
          | cons z results => exact ih.last (h.2 hzero) (he.2 hzero)
        · obtain ⟨hr, hcount, hall⟩ := ih.full fun h' => h ⟨hhdr, fun _ => h'⟩
          refine ⟨hr, by rw [hcount, length_cons]; omega, fun y hy => ?_⟩
          rcases mem_cons.mp hy with rfl | hy
          · exact hok hzero
          · exact hall y hy
      · -- the operation failed with its result written
        have hresults : opResults env (n + 1) nop st = [x] := by
          rw [opResults, if_neg hzero, opResult_eq_some hwords]
          rfl
        have hloop : processOps env (n + 1) nop st = ((processOp env nop st).1, (processOp env nop st).2, nop + 1) := by
          rw [processOps_succ, if_neg hzero]
        rw [hresults, hloop]
        refine ⟨by simp [hwords], by simp, fun _ => ⟨hrep, rfl, by simp⟩, fun _ he => ?_, fun h => ?_⟩
        · intro y hy
          obtain rfl : x = y := by simpa using hy
          exact hfit he.1
        · exact absurd ⟨hhdr, fun h0 => absurd h0 hzero⟩ h

/-! ### The reply -/

section
variable (env : CbEnv ω) (input : List Byte) (out : Out) (clients : List NfsClient) (rest : ω)

/-- What the loop of `nfs4_callback_compound` starts with: a status, the number of operations, and the state. -/
def compoundStart : Option (Nat × Nat × CbState ω) :=
  match decodeCompoundHdrArg input with
  | .error _ => none
  | .ok ((hdr, status), input) =>
    match compoundClient env hdr with
    | none => none
    | some clp =>
      let (out, err) := encodeCompoundHdrRes hdr.tag out
      if err ≠ 0 then none
      else some (status, if status = 0 then hdr.nops.toNat else 0,
        ⟨input, out, clients, rest, { clp := clp, minorversion := hdr.minorversion }, []⟩)

def compoundResults : List OpResult :=
  match compoundStart env input out clients rest with
  | none => []
  | some (_, n, st) => opResults env n 0 st

end

def EachOpOf (env : CbEnv ω) (P : Nat → CbState ω → Prop) (input : List Byte) (out : Out) (clients : List NfsClient)
    (rest : ω) : Prop :=
  ∀ s ∈ compoundStart env input out clients rest, EachOp env P s.2.1 0 s.2.2

theorem nfs4CallbackCompound_success {input : List Byte} {clients : List NfsClient} {rest : ω} {st : CbState ω} {nops : Nat}
    (h : nfs4CallbackCompound env input out clients rest = (st, .success status nops)) :
    ∃ status₀ n st₀, compoundStart env input out clients rest = some (status₀, n, st₀) ∧ st₀.cps.drcStatus = 0 ∧
      (status₀ = 0 ∨ (status₀ = minorVersMismatch ∧ n = 0)) ∧ st.out = (processOps env n 0 st₀).1.out ∧ (status, nops) =
        if status₀ ≠ 0 then (status₀, 0)
        else if (processOps env n 0 st₀).2.1 = nfs4errResourceHdr then
          (resource, (processOps env n 0 st₀).2.2 - 1)
        else (processOps env n 0 st₀).2 := by
  have hfree : ∀ st : CbState ω, (nfs4CbFreeSlot st).out = st.out := by
    intro st
    unfold nfs4CbFreeSlot
    split <;> rfl
  unfold nfs4CallbackCompound at h
  unfold compoundStart
  cases hd : decodeCompoundHdrArg input with
  | error err =>
    rw [hd] at h
    cases h
  | ok r =>
    obtain ⟨⟨hdr, status₀⟩, input'⟩ := r
    have hstat₀ : status₀ = 0 ∨ status₀ = minorVersMismatch := by
      obtain ⟨p, _, -, hd⟩ := bind_eq_ok hd
      obtain ⟨_, _, -, hd⟩ := bind_eq_ok hd
      obtain ⟨_, _, -, hd⟩ := bind_eq_ok hd
      obtain ⟨_, _, -, hd⟩ := bind_eq_ok hd
      dsimp only at hd
      split at hd
      · cases hd
        exact .inl rfl
      · cases hd
        exact .inr rfl
    rw [hd] at h
    dsimp only at h ⊢
    cases hclp : compoundClient env hdr with
    | none =>
      rw [hclp] at h
      cases h
    | some clp =>
      rw [hclp] at h
      dsimp only at h ⊢
      by_cases herr : (encodeCompoundHdrRes hdr.tag out).2 ≠ 0
      · rw [if_pos herr] at h
        cases h
      · rw [if_neg herr] at h ⊢
        refine ⟨_, _, _, rfl, rfl, ?_, ?_⟩
        · rcases hstat₀ with h0 | hne
          · exact .inl h0
          · exact .inr ⟨hne, if_neg (by rw [hne]; decide)⟩
        · rcases hstat₀ with h0 | hne
          · rw [if_pos h0] at h ⊢
            rw [if_neg (not_not.mpr h0)]
            generalize processOps env hdr.nops.toNat 0 _ = r at h ⊢
            by_cases hhdr : r.2.1 = nfs4errResourceHdr
            · cases h
              exact ⟨hfree _, rfl⟩
            · cases h
              exact ⟨hfree _, rfl⟩
          · have hne' : status₀ ≠ 0 := by rw [hne]; decide
            rw [if_neg hne'] at h ⊢
            rw [if_pos hne']
            have hint : status₀ ≠ nfs4errResourceHdr := by rw [hne]; decide
            simp only [if_neg hint] at h
            cases h
            exact ⟨hfree _, rfl⟩

end CbState

open CbState

/-- The count in a reply is the number of results, and all but the last are successes. If every header fits, the status
    is that of the last result (unless its encoder failed) or of the header; otherwise it is NFS4ERR_RESOURCE, after
    successes. -/
theorem cbCompound_reply_consistent {ω : Type} (env : CbEnv ω) (input : List Byte) (out : Out) (clients : List NfsClient)
    (rest : ω) {st : CbState ω} {status nops : Nat} (hbody : HandlersReport env)
    (hreply : nfs4CallbackCompound env input out clients rest = (st, .success status nops)) :
    let results := compoundResults env input out clients rest
    (∃ start ∈ compoundStart env input out clients rest,
      st.out.words = start.2.2.out.words ++ results.flatMap OpResult.words) ∧
    nops = results.length ∧ (∀ x ∈ results.dropLast, x.status = 0) ∧
    (EachOpOf env HeaderFits input out clients rest →
      (results = [] → status = ok ∨ status = minorVersMismatch) ∧
      (EachOpOf env (fun nop st => encoderFits env nop st) input out clients rest →
        ∀ x ∈ results.getLast?, x.status = ofNat 32 status)) ∧
    (¬EachOpOf env HeaderFits input out clients rest → status = resource ∧ ∀ x ∈ results, x.status = 0) := by
  intro results
  obtain ⟨status₀, n, st₀, hstart, hdrc, hstat₀, hout, hhdr⟩ := nfs4CallbackCompound_success hreply
  have hresults : results = opResults env n 0 st₀ := by
    show compoundResults env input out clients rest = _
    unfold compoundResults
    rw [hstart]
  have heach : ∀ P, EachOpOf env P input out clients rest ↔ EachOp env P n 0 st₀ := by
    unfold EachOpOf
    rw [hstart]
    simp
  have hw := written_processOps hbody n 0 st₀ (by rw [hdrc]; decide)
  rw [← hresults] at hw
  simp only [heach]
  refine ⟨⟨_, hstart, by rw [hout]; exact hw.words⟩, ?_⟩
  rcases hstat₀ with rfl | ⟨rfl, rfl⟩
  · by_cases hfits : EachOp env HeaderFits n 0 st₀
    · obtain ⟨hrep, hcount, hnil⟩ := hw.fits hfits
      rw [if_neg (ne_of_lt hrep)] at hhdr
      obtain ⟨rfl, rfl⟩ := Prod.mk.inj hhdr
      exact ⟨hcount.trans (Nat.zero_add _), hw.earlier, fun _ => ⟨fun h => .inl (hnil h), hw.last hfits⟩,
        fun h => absurd hfits h⟩
    · obtain ⟨hret, hcount, hall⟩ := hw.full hfits
      rw [if_pos hret] at hhdr
      cases hhdr
      exact ⟨by omega, hw.earlier, fun h => absurd h hfits, fun _ => ⟨rfl, hall⟩⟩
  · -- a compound of an unknown minor version is answered without a look at its operations
    have hempty : results = [] := hresults
    cases hhdr
    rw [hempty]
    exact ⟨rfl, by simp, fun _ => ⟨fun _ => .inr rfl, by simp⟩, fun h => absurd trivial h⟩

theorem cbCompound_reply_consistent_recallSlot :
    let results := compoundResults recallSlotEnv recallSlotCompound ⟨[], 100⟩ [oneSlotClient] ()
    (nfs4CallbackCompound recallSlotEnv recallSlotCompound ⟨[], 100⟩ [oneSlotClient] ()).2 = .success 0 2 ∧
    results.length = 2 ∧ ∀ x ∈ results.dropLast, x.status = 0 := by
  have hreply : (nfs4CallbackCompound recallSlotEnv recallSlotCompound ⟨[], 100⟩ [oneSlotClient] ()).2 = .success 0 2 := by
    decide +kernel
  obtain ⟨-, hcount, hok, -⟩ := cbCompound_reply_consistent recallSlotEnv recallSlotCompound ⟨[], 100⟩ [oneSlotClient] ()
    (fun _ _ _ => (by decide : Reported 0)) (Prod.ext rfl hreply)
  exact ⟨hreply, hcount.symm, hok⟩

def getattrCompound (nops : U32) : List Byte := beBytes [0, 0, 0, nops, 3, 0, 0]

def getattrEnv : CbEnv Unit := { recallSlotEnv with identClient := fun _ => some 0, gssOk := fun _ => true }

/-- The status is not that of the last result if a header is missing, and if the result encoder runs out of room. -/
theorem cbCompound_reply_differs :
    ((nfs4CallbackCompound getattrEnv (getattrCompound 2) ⟨[], 100⟩ [oneSlotClient] ()).2 =
        .success Nfs4err.resource 1 ∧
      compoundResults getattrEnv (getattrCompound 2) ⟨[], 100⟩ [oneSlotClient] () = [⟨3, 0, [3, 0, 0, 0, 0]⟩]) ∧
    (nfs4CallbackCompound getattrEnv (getattrCompound 1) ⟨[], 9⟩ [oneSlotClient] ()).2 = .success Nfs4err.resource 1 ∧
      compoundResults getattrEnv (getattrCompound 1) ⟨[], 9⟩ [oneSlotClient] () = [⟨3, 0, [3, 0, 0, 0]⟩] := by
  decide +kernel

end Mynfs
