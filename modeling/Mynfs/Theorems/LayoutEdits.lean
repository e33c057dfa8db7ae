import Mathlib.Logic.Relation
import Mynfs.Layout.Drain
import Mynfs.Theorems.LayoutMarks

/-! What functions do to a layout header, as elementary edits. What these keep, the functions keep. -/

namespace Mynfs

open List Option Machine

namespace LayoutHdr

/-- The sequence ids in a header are among the given ones. -/
structure Fits (ok : U32 → Prop) (lo : LayoutHdr) : Prop where
  stateid : ok lo.stateid.seqid
  barrier : ok lo.barrier
  returnSeq : lo.returnSeq = 0 ∨ ok lo.returnSeq

def Sound (ok : U32 → Prop) (lo : LayoutHdr) : Prop := lo.invalidStid = false → lo.Fits ok

theorem sound_true (lo : LayoutHdr) : lo.Sound fun _ => True := fun _ => ⟨trivial, trivial, .inr trivial⟩

/-- Fields that are not about segments, with the given sequence ids while the stateid is valid; flags of a segment
    without a reference; or one with a reference, which is put. `loose` allows for references of callers, `inv` for an
    invalid stateid other than with the last segment. -/
inductive Edit (ok : U32 → Prop) (loose inv : Prop) : LayoutHdr → LayoutHdr → Prop
  | fields {lo : LayoutHdr} {bulkRecall layoutReturn returnLock returnRequested inoLayoutcommit : Bool} {returnIomode : U32}
    {returnSegs : List Lseg} {blockLgets : Nat} : Edit ok loose inv lo
      { lo with
        bulkRecall, layoutReturn, returnLock, returnRequested, inoLayoutcommit, returnIomode, returnSegs, blockLgets }
  | drain {lo : LayoutHdr} : Edit ok loose inv lo { lo with drain := true }
  | invalidate {lo : LayoutHdr} (hinv : inv) : Edit ok loose inv lo { lo with invalidStid := true }
  | stateid {lo : LayoutHdr} {stateid : Stateid} (hsid : ok stateid.seqid) : Edit ok loose inv lo { lo with stateid }
  | barrier {lo : LayoutHdr} {seq : U32} (hseq : lo.invalidStid = false → ok seq) : Edit ok loose inv lo (lo.pnfsBarrierUpdate seq)
  | returnSeq {lo : LayoutHdr} {returnSeq : U32} (hseq : lo.invalidStid = false → returnSeq = 0 ∨ ok returnSeq) :
    Edit ok loose inv lo { lo with returnSeq }
  | forget {lo : LayoutHdr} (hinv : lo.invalidStid) : Edit ok loose inv lo { lo with barrier := 0 }
  | anew {lo : LayoutHdr} {stateid : Stateid} (hsid : ok stateid.seqid) (hinv : lo.invalidStid) :
    Edit ok loose inv lo
      { lo with stateid, barrier := stateid.seqid, returnSeq := 0, invalidStid := false, fresh := lo.fresh + 1 }
  | flags {lo : LayoutHdr} {before after : List Lseg} {lseg : Lseg} {roc layoutreturn : Bool}
    (hsegs : lo.segs = before ++ lseg :: after) :
    Edit ok loose inv lo { lo with segs := before ++ { lseg with roc, layoutreturn } :: after }
  | put {lo : LayoutHdr} {before after : List Lseg} {lseg : Lseg} {valid layoutcommit roc layoutreturn : Bool}
    (hsegs : lo.segs = before ++ lseg :: after) (hvalid : valid → lseg.valid)
    (hflag : loose ∨ valid.toNat + layoutcommit.toNat + 1 = lseg.valid.toNat + lseg.layoutcommit.toNat) :
    Edit ok loose inv lo (lo.pnfsLsegDecAndRemoveZero before { lseg with valid, layoutcommit, roc, layoutreturn } after).2
  | refs {lo : LayoutHdr} {segs : List Lseg} (hloose : loose)
    (hsegs : ∀ l ∈ segs, ∃ l₀ ∈ lo.segs, l₀.valid = l.valid ∧ l₀.range = l.range ∧ l₀.seq = l.seq) :
    Edit ok loose inv lo { lo with segs }

variable {ok : U32 → Prop} {loose inv : Prop} {lo lo' lo'' : LayoutHdr} {before after : List Lseg} {lseg : Lseg} {seq : U32}

theorem lsegDecAndRemoveZero_eq (lo : LayoutHdr) (before : List Lseg) (lseg : Lseg) (after : List Lseg) :
    ∃ segs unlinked refcount invalidStid bulkRecall, (lo.invalidStid = true → invalidStid = true) ∧
      segs = before ++ (lo.pnfsLsegDecAndRemoveZero before lseg after).1.toList ++ after ∧
      (∀ l ∈ (lo.pnfsLsegDecAndRemoveZero before lseg after).1.toList,
        l.valid = lseg.valid ∧ l.range = lseg.range ∧ l.seq = lseg.seq) ∧
      (lo.pnfsLsegDecAndRemoveZero before lseg after).2 =
        { lo with segs, unlinked, refcount, invalidStid, bulkRecall } := by
  unfold pnfsLsegDecAndRemoveZero
  dsimp only
  split
  · obtain ⟨_, _, hinv, heq⟩ := layoutRemoveLseg_eq lo { lseg with refcount := lseg.refcount - 1 } (before ++ after)
    exact ⟨_, _, _, _, _, hinv, by simp [Place.toList], nofun, heq⟩
  · refine ⟨_, _, _, _, _, id, by simp [Place.toList], fun l hl => ?_, rfl⟩
    obtain rfl := mem_singleton.mp hl
    exact ⟨rfl, rfl, rfl⟩

theorem barrier_barrierUpdate (lo : LayoutHdr) (seq : U32) :
    ∃ barrier, (barrier = lo.barrier ∨ barrier = seq) ∧ lo.pnfsBarrierUpdate seq = { lo with barrier } := by
  unfold pnfsBarrierUpdate
  split
  · exact ⟨seq, .inr rfl, rfl⟩
  · exact ⟨lo.barrier, .inl rfl, rfl⟩

/-- An edit brings in no sequence id but one that may be. -/
theorem Edit.sound (h : Edit ok loose inv lo lo') (hs : lo.Sound ok) : lo'.Sound ok := by
  cases h with
  | fields => exact fun hv => ⟨(hs hv).stateid, (hs hv).barrier, (hs hv).returnSeq⟩
  | drain => exact fun hv => ⟨(hs hv).stateid, (hs hv).barrier, (hs hv).returnSeq⟩
  | invalidate _ => exact nofun
  | stateid hsid => exact fun hv => ⟨hsid, (hs hv).barrier, (hs hv).returnSeq⟩
  | @barrier seq hseq =>
    obtain ⟨barrier, hbar, heq⟩ := barrier_barrierUpdate lo seq
    rw [heq]
    refine fun hv => ⟨(hs hv).stateid, ?_, (hs hv).returnSeq⟩
    rcases hbar with rfl | rfl
    · exact (hs hv).barrier
    · exact hseq hv
  | returnSeq hseq => exact fun hv => ⟨(hs hv).stateid, (hs hv).barrier, hseq hv⟩
  | forget hinv => exact fun hv => absurd (hinv.symm.trans hv) Bool.true_eq_false.mp
  | anew hsid _ => exact fun _ => ⟨hsid, hsid, .inl rfl⟩
  | flags => exact fun hv => ⟨(hs hv).stateid, (hs hv).barrier, (hs hv).returnSeq⟩
  | refs => exact fun hv => ⟨(hs hv).stateid, (hs hv).barrier, (hs hv).returnSeq⟩
  | @put before after lseg valid layoutcommit roc layoutreturn _ _ _ =>
    obtain ⟨_, _, _, _, _, hinv, -, -, heq⟩ :=
      lsegDecAndRemoveZero_eq lo before { lseg with valid, layoutcommit, roc, layoutreturn } after
    rw [heq]
    intro hv
    have hfits := hs (Bool.eq_false_iff.mpr fun hi => by rw [hinv hi] at hv; cases hv)
    exact ⟨hfits.stateid, hfits.barrier, hfits.returnSeq⟩

/-- A sequence of edits, up to a header that is sound. -/
structure Edits (ok : U32 → Prop) (loose inv : Prop) (lo lo' : LayoutHdr) : Prop where
  steps : Relation.ReflTransGen (Edit ok loose inv) lo lo'
  sound : lo'.Sound ok

namespace Edits

theorem start (hs : lo.Sound ok) : Edits ok loose inv lo lo := ⟨.refl, hs⟩

variable (h : Edits ok loose inv lo lo')
include h

theorem tail (he : Edit ok loose inv lo' lo'') : Edits ok loose inv lo lo'' :=
  ⟨h.steps.tail he, he.sound h.sound⟩

theorem barrierUpdate (hseq : lo'.invalidStid = false → ok seq) :
    Edits ok loose inv lo (lo'.pnfsBarrierUpdate seq) := h.tail (.barrier hseq)

theorem setPlhReturnInfo (iomode : U32) (hseq : lo'.invalidStid = false → seq = 0 ∨ ok seq) :
    Edits ok loose inv lo (lo'.pnfsSetPlhReturnInfo iomode seq) := by
  have hok : lo'.invalidStid = false → ok (if seq = 0 then lo'.stateid.seqid else seq) := by
    intro hv
    split
    · exact (h.sound hv).stateid
    next hne => exact (hseq hv).resolve_left hne
  unfold pnfsSetPlhReturnInfo
  generalize (if seq = 0 then lo'.stateid.seqid else seq) = q at hok ⊢
  have hreturn : Edits ok loose inv lo
      { lo' with returnSeq := if lo'.returnSeq = 0 ∨ pnfsSeqidIsNewer q lo'.returnSeq then q else lo'.returnSeq } := by
    refine h.tail (.returnSeq fun hv => ?_)
    split
    · exact .inr (hok hv)
    · exact (h.sound hv).returnSeq
  exact barrierUpdate (hreturn.tail .fields) hok

omit h

theorem foldl_returnInfo (ls : List Lseg) (h : Edits ok loose inv lo lo') :
    Edits ok loose inv lo (ls.foldl (fun lo lseg => lo.pnfsSetPlhReturnInfo lseg.range.iomode 0) lo') := by
  induction ls generalizing lo' with
  | nil => exact h
  | cons l ls ih => exact ih (h.setPlhReturnInfo _ fun _ => .inl rfl)

include h

theorem clearLayoutreturnInfo : Edits ok loose inv lo lo'.pnfsClearLayoutreturnInfo :=
  ((h.tail (.returnSeq fun _ => .inl rfl)).tail .fields).foldl_returnInfo _

theorem freeReturnedLsegs (range : LayoutRange) (seq : U32) :
    Edits ok loose inv lo (lo'.pnfsFreeReturnedLsegs range seq) := h.tail .fields

theorem clearLayoutreturnWaitbit : Edits ok loose inv lo lo'.pnfsClearLayoutreturnWaitbit :=
  h.tail .fields

end Edits

/-! ### One segment -/

/-- What a function leaves of the segment between `before` and `after`, by edits of the header. -/
def Edited (ok : U32 → Prop) (loose inv : Prop) (lo : LayoutHdr) (before after : List Lseg) (r : Place × LayoutHdr) : Prop :=
  r.2.segs = before ++ r.1.toList ++ after ∧ Edits ok loose inv lo r.2

namespace Edits

section
variable (h : Edits ok loose inv lo lo') {roc layoutreturn : Bool}
include h

theorem kept (hsegs : lo'.segs = before ++ lseg :: after) :
    Edited ok loose inv lo before after (.kept lseg, lo') := ⟨by simp [hsegs, Place.toList], h⟩

theorem put {l : Lseg} {valid layoutcommit : Bool}
    (hsegs : lo'.segs = before ++ l :: after) (hvalid : valid = true → l.valid = true)
    (hflag : loose ∨ valid.toNat + layoutcommit.toNat + 1 = l.valid.toNat + l.layoutcommit.toNat) :
    Edited ok loose inv lo before after
      (lo'.pnfsLsegDecAndRemoveZero before { l with valid, layoutcommit, roc, layoutreturn } after) := by
  refine ⟨?_, h.tail (.put hsegs hvalid hflag)⟩
  obtain ⟨_, _, _, _, _, -, hsegs', -, heq⟩ :=
    lsegDecAndRemoveZero_eq lo' before { l with valid, layoutcommit, roc, layoutreturn } after
  rw [heq]
  exact hsegs'

variable (hsegs : lo'.segs = before ++ lseg :: after)
include hsegs

theorem clearCommit (hc : lseg.layoutcommit) :
    Edited ok loose inv lo before after (lo'.pnfsLsegDecAndRemoveZero before { lseg with layoutcommit := false } after) :=
  h.put hsegs id (.inr (by rw [hc]; rfl))

theorem markLsegInvalid : Edited ok loose inv lo before after (lo'.markLsegInvalid before { lseg with roc, layoutreturn } after) := by
  unfold LayoutHdr.markLsegInvalid
  split
  next hv =>
    refine h.put (l := lseg) hsegs nofun (.inr ?_)
    rw [show lseg.valid = true from hv, Bool.toNat_false, Bool.toNat_true]
    dsimp only
    omega
  · exact (h.tail (.flags hsegs)).kept rfl

theorem clearLsegState : Edited ok loose inv lo before after (lo'.pnfsClearLsegState before lseg after) := by
  have hmark : Edited ok loose inv lo before after
      (lo'.markLsegInvalid before { lseg with roc := false, layoutreturn := false } after) := h.markLsegInvalid hsegs
  unfold pnfsClearLsegState
  generalize lo'.markLsegInvalid before { lseg with roc := false, layoutreturn := false } after = m at hmark ⊢
  obtain ⟨place, lo₁⟩ := m
  cases place with
  | removed l => exact hmark
  | kept l =>
    have hsegs₁ : lo₁.segs = before ++ l :: after := by simpa [Place.toList] using hmark.1
    dsimp only
    split
    next hc => exact hmark.2.clearCommit hsegs₁ hc
    · exact hmark

end

theorem putLseg (h : Edits ok True inv lo lo') (hsegs : lo'.segs = before ++ lseg :: after) :
    Edits ok True inv lo (lo'.putLseg before lseg after) := by
  have hput : Edited ok True inv lo before after (lo'.pnfsLsegDecAndRemoveZero before lseg after) :=
    h.put (l := lseg) hsegs id (.inl trivial)
  unfold LayoutHdr.putLseg
  generalize lo'.pnfsLsegDecAndRemoveZero before lseg after = m at hput ⊢
  obtain ⟨_ | l, lo₁⟩ := m
  · exact hput.2
  · dsimp only
    split
    · exact (hput.2.setPlhReturnInfo l.range.iomode fun _ => .inl rfl).tail .fields
    · exact hput.2

/-! ### Loops over the segments -/

/-- A loop over the segments is a sequence of edits if its body is one. -/
theorem forEachLseg {α : Type} {body : α → LayoutHdr → List Lseg → Lseg → List Lseg → α × Place × LayoutHdr}
    (hbody : ∀ a lo' before lseg after, lo'.segs = before ++ lseg :: after → Edits ok loose inv lo lo' →
      Edited ok loose inv lo before after (body a lo' before lseg after).2)
    (todo : List Lseg) (a : α) (lo' : LayoutHdr) (before : List Lseg) (hsegs : lo'.segs = before ++ todo)
    (h : Edits ok loose inv lo lo') : Edits ok loose inv lo (LayoutHdr.forEachLseg body a lo' before todo).2 := by
  induction todo generalizing a lo' before with
  | nil => exact h
  | cons lseg after ih =>
    obtain ⟨hsegs', h'⟩ := hbody a lo' before lseg after hsegs h
    exact ih _ _ _ hsegs' h'

section
variable (h : Edits ok loose inv lo lo')
include h

theorem markMatchingLsegsInvalid (range : Option LayoutRange) (seq : U32) :
    Edits ok loose inv lo (lo'.pnfsMarkMatchingLsegsInvalid range seq).2 := by
  refine forEachLseg (fun n lo' before lseg after hsegs h => ?_) _ _ _ [] rfl h
  have hmark : Edited ok loose inv lo before after (lo'.markLsegInvalid before lseg after) := h.markLsegInvalid hsegs
  unfold markInvalidBody
  split
  · generalize lo'.markLsegInvalid before lseg after = m at hmark ⊢
    obtain ⟨place, lo₁⟩ := m
    cases place <;> exact hmark
  · exact h.kept hsegs

theorem markMatchingLsegsReturn (toReturn : Bool) (range : LayoutRange) (hseq : lo'.invalidStid = false → seq = 0 ∨ ok seq) :
    Edits ok loose inv lo (lo'.pnfsMarkMatchingLsegsReturn toReturn range seq).2 := by
  have hloop : Edits ok loose inv lo
      (LayoutHdr.forEachLseg (markReturnBody range seq) { toReturn := toReturn || lo'.returnRequested } lo' [] lo'.segs).2 := by
    refine forEachLseg (fun a lo' before lseg after hsegs h => ?_) _ _ _ [] rfl h
    have hmark : Edited ok loose inv lo before after (lo'.markLsegInvalid before lseg after) := h.markLsegInvalid hsegs
    unfold markReturnBody
    split
    · generalize lo'.markLsegInvalid before lseg after = m at hmark ⊢
      obtain ⟨place, lo₁⟩ := m
      obtain ⟨hsegs₁, h₁⟩ := hmark
      cases place with
      | removed l =>
        dsimp only
        split
        · exact ⟨hsegs₁, h₁.tail .fields⟩
        · exact ⟨hsegs₁, h₁⟩
      | kept l =>
        have hsegs₁' : lo₁.segs = before ++ l :: after := by simpa [Place.toList] using hsegs₁
        exact (h₁.tail (.flags hsegs₁')).kept rfl
    · exact h.kept hsegs
  obtain ⟨-, -, hinv, -⟩ := @forEachLseg_markReturnBody range seq lo'.segs
    { toReturn := toReturn || lo'.returnRequested } lo' [] rfl
  unfold pnfsMarkMatchingLsegsReturn
  generalize LayoutHdr.forEachLseg (markReturnBody range seq) { toReturn := toReturn || lo'.returnRequested } lo' [] lo'.segs = m
    at hloop hinv ⊢
  have hinfo : Edits ok loose inv lo (m.2.pnfsSetPlhReturnInfo range.iomode seq) :=
    hloop.setPlhReturnInfo _ fun hv => hseq (Bool.eq_false_iff.mpr fun hi => by rw [hinv hi] at hv; cases hv)
  dsimp only
  split
  · exact hinfo
  split
  · exact hinfo
  · exact hloop

theorem markLayoutStateidInvalid (hinv : lo'.invalidStid = false → inv) :
    Edits ok loose inv lo lo'.pnfsMarkLayoutStateidInvalid.2 := by
  unfold pnfsMarkLayoutStateidInvalid
  split
  · exact h
  next hvalid =>
  have hinvalidate := hinv (Bool.eq_false_iff.mpr hvalid)
  dsimp only
  have hloop : Edits ok loose inv lo
      (LayoutHdr.forEachLseg (fun a lo before lseg after => (a, lo.pnfsClearLsegState before lseg after)) ()
        { lo' with invalidStid := true, inoLayoutcommit := false } [] lo'.segs).2 :=
    forEachLseg (fun _ _ _ _ _ hsegs h => h.clearLsegState hsegs) _ _ _ [] rfl ((h.tail (.invalidate hinvalidate)).tail .fields)
  have hdrain := (hloop.clearLayoutreturnInfo.freeReturnedLsegs { iomode := Iomode.any } 0).tail .drain
  split
  · exact hdrain.clearLayoutreturnWaitbit
  · exact hdrain

theorem roc (skipRead : Bool) : Edits ok loose inv lo (lo'.pnfsRoc skipRead) := by
  refine forEachLseg (fun _ lo' before lseg after hsegs h => ?_) _ _ _ [] rfl h
  have hmark : Edited ok loose inv lo before after
      (lo'.markLsegInvalid before { lseg with roc := false, layoutreturn := true } after) := h.markLsegInvalid hsegs
  unfold rocBody
  split
  · exact h.kept hsegs
  · generalize lo'.markLsegInvalid before { lseg with roc := false, layoutreturn := true } after = m at hmark ⊢
    obtain ⟨place, lo₁⟩ := m
    cases place with
    | kept l => exact hmark
    | removed l =>
      obtain ⟨_, _, _, _, heq⟩ := infoOnly_setPlhReturnInfo { lo₁ with returnSegs := l :: lo₁.returnSegs } l.range.iomode 0
      have hcached : Edits ok loose inv lo { lo₁ with returnSegs := l :: lo₁.returnSegs } := hmark.2.tail .fields
      refine ⟨?_, hcached.setPlhReturnInfo _ fun _ => .inl rfl⟩
      dsimp only
      rw [heq]
      exact hmark.1

theorem clearLayoutcommit : Edits ok loose inv lo lo'.pnfsClearLayoutcommit := by
  unfold pnfsClearLayoutcommit
  split
  · refine forEachLseg (fun _ lo' before lseg after hsegs h => ?_) _ _ _ [] rfl (h.tail .fields)
    split
    next hc => exact h.clearCommit hsegs hc
    · exact h.kept hsegs
  · exact h

end

/-! ### Stateids -/

theorem clearLayoutreturnInfo_anew (lo : LayoutHdr) (n : Nat) :
    { lo.pnfsClearLayoutreturnInfo with invalidStid := false, fresh := n } =
      { lo with invalidStid := false, fresh := n }.pnfsClearLayoutreturnInfo := by
  refine (foldl_hom (fun lo : LayoutHdr => { lo with invalidStid := false, fresh := n }) fun lo l => ?_).symm
  simp only [pnfsSetPlhReturnInfo, pnfsBarrierUpdate, eq_self, if_true]
  split <;> rfl

theorem setLayoutStateid (h : Edits ok loose inv lo lo') {new : Stateid} (hnew : ok new.seqid) (updateBarrier : Bool) :
    Edits ok loose inv lo (lo'.pnfsSetLayoutStateid new updateBarrier) := by
  unfold pnfsSetLayoutStateid
  split
  next hinv =>
    have hinv' : lo'.invalidStid := by simpa [pnfsLayoutIsValid] using hinv
    have hanew : Edits ok loose inv lo
        { lo' with stateid := new, barrier := new.seqid, returnSeq := 0, invalidStid := false, fresh := lo'.fresh + 1 } :=
      h.tail (.anew hnew hinv')
    rw [clearLayoutreturnInfo_anew]
    exact foldl_returnInfo _ (hanew.tail .fields)
  have hsid : Edits ok loose inv lo (if pnfsSeqidIsNewer new.seqid lo'.stateid.seqid then { lo' with stateid := new } else lo') := by
    split
    · exact h.tail (.stateid hnew)
    · exact h
  dsimp only
  generalize (if pnfsSeqidIsNewer new.seqid lo'.stateid.seqid then { lo' with stateid := new } else lo') = lo₁ at hsid ⊢
  split
  · exact hsid.barrierUpdate fun _ => hnew
  split
  · exact hsid.barrierUpdate fun hv => (hsid.sound hv).stateid
  · exact hsid

theorem fileDraining (h : Edits ok loose inv lo lo') {args : CbLayoutrecallargs} (hargs : ok args.stateid.seqid) :
    Edits ok loose inv lo (lo'.initiateFileDraining args).2 := by
  unfold initiateFileDraining
  dsimp only
  split
  · exact h
  split
  · exact h
  have hmark : Edits ok loose inv lo ((lo'.pnfsSetLayoutStateid args.stateid true).pnfsMarkMatchingLsegsReturn false args.range
      args.stateid.seqid).2 := (h.setLayoutStateid hargs true).markMatchingLsegsReturn _ _ fun _ => .inr hargs
  split
  · exact hmark
  · exact hmark.tail .drain

/-! ### LAYOUTRETURN -/

section
variable (h : Edits ok loose inv lo lo')
include h

theorem prepareLayoutreturn {stateid : Stateid} {iomode : U32}
    (hprep : lo'.pnfsPrepareLayoutreturn = some (stateid, iomode, lo'')) : Edits ok loose inv lo lo'' := by
  obtain ⟨-, hprep⟩ := of_unless hprep
  obtain ⟨-, hprep⟩ := of_unless hprep
  dsimp only at hprep
  have hlock : Edits ok loose inv lo { lo' with returnLock := true, layoutReturn := true } := h.tail .fields
  split at hprep
  · obtain ⟨-, -, rfl⟩ := hprep
    refine hlock.clearLayoutreturnInfo.barrierUpdate fun hv => ?_
    obtain ⟨_, _, _, _, heq⟩ := infoOnly_clearLayoutreturnInfo { lo' with returnLock := true, layoutReturn := true }
    rw [heq] at hv
    split
    next hne => exact (h.sound hv).returnSeq.resolve_left hne
    · exact (h.sound hv).stateid
  · obtain ⟨-, -, rfl⟩ := hprep
    exact hlock.barrierUpdate fun hv => (h.sound hv).stateid

theorem layoutNeedReturn : Edits ok loose inv lo lo'.pnfsLayoutNeedReturn.2 := by
  unfold pnfsLayoutNeedReturn
  split
  · exact h
  · exact h.markMatchingLsegsReturn _ _ fun hv => (h.sound hv).returnSeq

theorem layoutreturnRetryLater {args : LayoutreturnArgs} (hargs : ok args.stateid.seqid) :
    Edits ok loose inv lo (lo'.pnfsLayoutreturnRetryLater args) := by
  refine clearLayoutreturnWaitbit ?_
  split
  · exact h.setPlhReturnInfo _ fun _ => .inr hargs
  · exact h

theorem layoutreturnFreeLsegs (args : LayoutreturnArgs) {stateid : Option Stateid}
    (hsid : ∀ sid ∈ stateid, ok sid.seqid)
    (hinv : lo'.stateid.nfs4StateidMatchOther args.stateid → stateid = none → lo'.invalidStid = false → inv) :
    Edits ok loose inv lo (lo'.pnfsLayoutreturnFreeLsegs args stateid) := by
  refine clearLayoutreturnWaitbit ?_
  split
  · exact h
  next hmatch =>
  cases stateid with
  | none => exact h.markLayoutStateidInvalid (hinv (by simpa using hmatch) rfl)
  | some sid =>
    dsimp only
    split
    · have hfree := (h.markMatchingLsegsInvalid (some args.range) args.stateid.seqid).freeReturnedLsegs args.range
        args.stateid.seqid
      exact (hfree.setLayoutStateid (hsid sid rfl) true).foldl_returnInfo _
    next hinvalid => exact h.markLayoutStateidInvalid fun hvalid => absurd hvalid (by simpa [pnfsLayoutIsValid] using hinvalid)

theorem layoutRefreshOldStateid (args : LayoutreturnArgs) : Edits ok loose inv lo (lo'.nfs4LayoutRefreshOldStateid args).2 := by
  unfold nfs4LayoutRefreshOldStateid
  split
  · split
    · exact h
    dsimp only
    split <;> exact h.markMatchingLsegsReturn _ _ fun _ => .inl rfl
  · exact h

end

end Edits

/-! ### LAYOUTGET replies -/

/-- The segment is inserted after some edits, as it is or merged with others. -/
theorem edits_genericLayoutInsertLseg {P : Lseg → Prop} (ld : LayoutDriver)
    (hmerge : ∀ lseg old merged, P lseg → ld.doMerge lseg old = some merged → P merged) (todo : List Lseg) (lseg : Lseg)
    (lo' : LayoutHdr) (before : List Lseg) (h : Edits ok loose inv lo lo') (hsegs : lo'.segs = before ++ todo) (hlseg : P lseg) :
    ∃ lo₁ before₁ after₁ l, Edits ok loose inv lo lo₁ ∧ lo₁.segs = before₁ ++ after₁ ∧ P l ∧
      lo'.genericLayoutInsertLseg ld lseg before todo =
        { lo₁ with segs := before₁ ++ l :: after₁, refcount := lo₁.refcount + 1 } := by
  induction todo generalizing lseg lo' before with
  | nil => exact ⟨lo', before, [], lseg, h, hsegs, hlseg, rfl⟩
  | cons lp after ih =>
    have hpass : lo'.segs = (before ++ [lp]) ++ after := by rw [hsegs, append_assoc, singleton_append]
    unfold genericLayoutInsertLseg
    split
    · exact ih lseg lo' _ h hpass hlseg
    split
    next merged hmerged =>
      obtain ⟨hsegs₁, h₁⟩ : Edited ok loose inv lo before after (lo'.markLsegInvalid before lp after) := h.markLsegInvalid hsegs
      exact ih merged _ _ h₁ hsegs₁ (hmerge _ _ _ hlseg hmerged)
    · split
      · exact ih lseg lo' _ h hpass hlseg
      · exact ⟨lo', before, lp :: after, lseg, h, hsegs, hlseg, rfl⟩

theorem layoutProcess_cases (ld : LayoutDriver) (res : LayoutgetRes) (id : Nat) (hs : lo.Sound ok) :
    let r := lo.pnfsLayoutProcess ld res id
    r.1 ≠ 0 ∧ Edits ok loose inv lo r.2 ∨
    (lo.drain → lo.firstLayoutget) ∧ (lo.invalidStid = false → lo.pnfsLayoutStateidBlocked res.stateid = false) ∧
      ∃ updateBarrier, r = (0, lo.installLseg ld res updateBarrier id) := by
  have h : Edits ok loose inv lo lo := .start hs
  have hinval : negErrno .einval ≠ 0 := by decide
  have hagain : negErrno .eagain ≠ 0 := by decide
  intro r
  have hr : r = lo.pnfsLayoutProcess ld res id := rfl
  unfold pnfsLayoutProcess at hr
  split at hr
  · rw [hr]
    exact .inl ⟨hinval, h⟩
  split at hr
  · rw [hr]
    exact .inl ⟨hagain, h⟩
  split at hr
  · rw [hr]
    exact .inl ⟨hagain, h⟩
  next hdrain =>
    have hdrain' : lo.drain → lo.firstLayoutget := by simpa using hdrain
    split at hr
    · split at hr
      · rw [hr]
        refine .inl ⟨hagain, ?_⟩
        split
        next hinv => exact h.tail (.forget (by simpa [pnfsLayoutIsValid] using hinv))
        · exact h
      next hblocked => exact .inr ⟨hdrain', fun _ => Bool.eq_false_iff.mpr hblocked, _, hr⟩
    split at hr
    · rw [hr]
      exact .inl ⟨hagain, h.markMatchingLsegsReturn _ _ fun _ => .inl rfl⟩
    next hinv =>
      refine .inr ⟨hdrain', fun hv => ?_, _, hr⟩
      simp [pnfsLayoutIsValid, hv] at hinv

end LayoutHdr

/-! ### Steps -/

/-- The sequence ids that the server sends. -/
def LayoutEvent.Seqids (ok : U32 → Prop) : LayoutEvent → Prop
  | .layoutgetReply _ res => ok res.stateid.seqid
  | .layoutrecall args => ok args.stateid.seqid
  | .layoutreturnDone _ stateid => ∀ sid ∈ stateid, ok sid.seqid
  | _ => True

def LayoutEvent.IsLayoutget : LayoutEvent → Prop
  | .updateLayout | .beginFirst _ | .grabEmptyLayout | .layoutgetReply _ _ | .layoutgetEnd _ | .clearFirstLayoutget _ => True
  | _ => False

namespace LayoutSys
open LayoutHdr
variable {ok : U32 → Prop} {inv : Prop} {ld : LayoutDriver} {s t : LayoutSys} {e : LayoutEvent} {lo : LayoutHdr}

theorem edits_sendIf (p : Prop) [Decidable p] (iomode : Option U32) (h : Edits ok True inv s.lo lo) :
    (if p then s.sendLayoutreturn lo iomode else { s with lo := lo }).gets = s.gets ∧
    Edits ok True inv s.lo (if p then s.sendLayoutreturn lo iomode else { s with lo := lo }).lo := by
  split
  · unfold sendLayoutreturn
    split
    next hprep => exact ⟨rfl, h.prepareLayoutreturn hprep⟩
    · exact ⟨rfl, h⟩
  · exact ⟨rfl, h⟩

theorem edits_withLseg {i : Nat} {f : List Lseg → Lseg → List Lseg → LayoutHdr} (h : s.withLseg i f = some t)
    (hf : ∀ before lseg after, s.lo.segs = before ++ lseg :: after → Edits ok True inv s.lo (f before lseg after)) :
    t.gets = s.gets ∧ Edits ok True inv s.lo t.lo := by
  obtain ⟨lseg, hi, rfl⟩ := map_eq_some_iff.mp h
  obtain ⟨hlt, rfl⟩ := List.getElem?_eq_some_iff.mp hi
  refine ⟨rfl, hf _ _ _ ?_⟩
  rw [getElem_cons_drop, take_append_drop]

theorem refs_of_like {before after : List Lseg} {lseg l : Lseg} (hsegs : lo.segs = before ++ lseg :: after)
    (hvalid : lseg.valid = l.valid) (hrange : lseg.range = l.range) (hseq : lseg.seq = l.seq) :
    ∀ l' ∈ before ++ l :: after, ∃ l₀ ∈ lo.segs, l₀.valid = l'.valid ∧ l₀.range = l'.range ∧ l₀.seq = l'.seq := by
  intro l' hl'
  rw [hsegs]
  rcases mem_append.mp hl' with hl' | hl'
  · exact ⟨l', mem_append_left _ hl', rfl, rfl, rfl⟩
  · rcases mem_cons.mp hl' with rfl | hl'
    · exact ⟨lseg, mem_append_right _ mem_cons_self, hvalid, hrange, hseq⟩
    · exact ⟨l', mem_append_right _ (mem_cons_of_mem _ hl'), rfl, rfl, rfl⟩

/-- All steps but those of a LAYOUTGET are edits, and only draining makes the stateid invalid before the last segment. -/
theorem edits_step (hs : s.lo.Sound ok) (he : e.Seqids ok) (hrets : ∀ r ∈ s.returns, ok r.stateid.seqid)
    (hother : ¬e.IsLayoutget) (hinv : s.drains e → inv) (h : s.step ld e = some t) :
    t.gets = s.gets ∧ Edits ok True inv s.lo t.lo := by
  have hstart : Edits ok True inv s.lo s.lo := .start hs
  have hmark : ∀ range : LayoutRange,
      Edits ok True inv s.lo ((s.lo.pnfsSetPlhReturnInfo range.iomode 0).pnfsMarkMatchingLsegsReturn true range 0).2 := fun range =>
    (hstart.setPlhReturnInfo _ fun _ => .inl rfl).markMatchingLsegsReturn _ _ fun _ => .inl rfl
  cases e with
  | updateLayout | beginFirst | grabEmptyLayout | layoutgetReply | layoutgetEnd | clearFirstLayoutget =>
    exact absurd trivial hother
  | markLayoutStateidInvalid =>
    cases h
    exact ⟨rfl, hstart.markLayoutStateidInvalid fun hvalid => hinv (by simp [drains, hvalid])⟩
  | getLseg i =>
    simp only [step] at h
    exact edits_withLseg h fun before lseg after hsegs => hstart.tail (.refs trivial (refs_of_like hsegs rfl rfl rfl))
  | putLseg i => exact edits_withLseg h fun before lseg after hsegs => hstart.putLseg hsegs
  | setLayoutcommit i =>
    simp only [step] at h
    refine edits_withLseg h fun before lseg after hsegs => ?_
    split
    · exact hstart.tail .fields
    · have hrefs : Edits ok True inv s.lo
          { s.lo with segs := before ++ { lseg with layoutcommit := true, refcount := lseg.refcount + 1 } :: after } :=
        hstart.tail (.refs trivial (refs_of_like hsegs rfl rfl rfl))
      exact hrefs.tail .fields
  | listWriteLseg =>
    obtain ⟨-, rfl⟩ := of_guard_some h
    have hrefs : Edits ok True inv s.lo
        { s.lo with
          segs := s.lo.segs.map fun lseg =>
            { lseg with layoutcommit := lseg.layoutcommit && decide (lseg.range.iomode ≠ Iomode.rw) } } := by
      refine hstart.tail (.refs trivial fun l hl => ?_)
      obtain ⟨l₀, hl₀, rfl⟩ := mem_map.mp hl
      exact ⟨l₀, hl₀, rfl, rfl, rfl⟩
    exact ⟨rfl, hrefs.tail .fields⟩
  | blockLgets =>
    cases h
    exact ⟨rfl, hstart.tail .fields⟩
  | unblockLgets =>
    cases h
    exact ⟨rfl, hstart.tail .fields⟩
  | bulkRecall =>
    cases h
    exact ⟨rfl, (hstart.markLayoutStateidInvalid fun hvalid => hinv (by simp [drains, hvalid])).tail .fields⟩
  | layoutrecall args =>
    cases h
    exact ⟨rfl, hstart.fileDraining he⟩
  | beforePutLayoutHdr =>
    cases h
    exact edits_sendIf _ none hstart.layoutNeedReturn
  | returnLayout requested =>
    cases h
    have hflag : Edits ok True inv s.lo { s.lo with returnRequested := s.lo.returnRequested || requested } := hstart.tail .fields
    exact edits_sendIf _ _ (hflag.clearLayoutcommit.markMatchingLsegsReturn false _ fun _ => .inl rfl)
  | markLayoutForReturn range =>
    obtain ⟨-, rfl⟩ := of_unless_some h
    exact edits_sendIf _ none (hmark range)
  | ioSetFailed iomode =>
    cases h
    exact ⟨rfl, hstart.markMatchingLsegsReturn _ _ fun _ => .inl rfl⟩
  | returnUnused range =>
    obtain ⟨-, rfl⟩ := of_unless_some h
    exact edits_sendIf _ none (hmark range)
  | roc skipRead =>
    obtain ⟨-, rfl⟩ := of_unless_some h
    exact edits_sendIf _ none (hstart.roc skipRead)
  | layoutreturnOldStateid i =>
    obtain ⟨args, -, h⟩ := bind_eq_some_iff.mp h
    have hrefresh := hstart.layoutRefreshOldStateid args
    split at h
    all_goals
      next heq =>
        cases h
        rw [heq] at hrefresh
        exact ⟨rfl, hrefresh⟩
  | layoutreturnDone i stateid =>
    obtain ⟨args, hi, rfl⟩ := map_eq_some_iff.mp h
    refine ⟨rfl, hstart.layoutreturnFreeLsegs args he fun hmatch hnone hvalid => hinv ?_⟩
    simp [drains, hi, hmatch, hnone, hvalid]
  | layoutreturnRetryLater i =>
    obtain ⟨args, hi, rfl⟩ := map_eq_some_iff.mp h
    exact ⟨rfl, hstart.layoutreturnRetryLater (hrets args (mem_of_getElem? hi))⟩
  | layoutreturnUnsent i =>
    obtain ⟨args, -, rfl⟩ := map_eq_some_iff.mp h
    exact ⟨rfl, hstart.clearLayoutreturnWaitbit⟩

end LayoutSys

end Mynfs
