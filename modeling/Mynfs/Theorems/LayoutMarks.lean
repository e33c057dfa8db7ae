import Mathlib.Tactic
import Mynfs.Layout.Return

/-! What `pnfs_mark_matching_lsegs_return` does to the list, and what its result says. -/

namespace Mynfs

open List

/-- The references that I/O holds on a segment: neither the list nor a pending LAYOUTCOMMIT. -/
def Lseg.inFlight (l : Lseg) : Nat := l.refcount - l.valid.toNat - l.layoutcommit.toNat

def Lseg.invalidated (l : Lseg) : List Lseg :=
  if l.valid = true ∧ l.refcount ≤ 1 then [] else [{ l with valid := false, refcount := l.refcount - l.valid.toNat }]

def Lseg.markedForReturn (returnRange : LayoutRange) (seq : U32) (l : Lseg) : List Lseg :=
  if l.pnfsMatchLsegRecall (some returnRange) seq = true then l.invalidated.map fun l => { l with layoutreturn := true }
  else [l]

namespace Lseg
variable {l l' : Lseg} {returnRange : LayoutRange} {seq : U32}

theorem pnfsMatchLsegRecall_iff : l.pnfsMatchLsegRecall (some returnRange) seq ↔
    (seq = 0 ∨ pnfsSeqidIsNewer l.seq seq = false) ∧ l.range.pnfsShouldFreeRange returnRange := by
  unfold pnfsMatchLsegRecall
  split
  next h =>
    refine iff_of_false Bool.false_ne_true ?_
    rintro ⟨hseq | hnewer, -⟩
    · exact h.1 hseq
    · rw [h.2] at hnewer
      cases hnewer
  next h =>
    refine ⟨fun hfree => ⟨?_, hfree⟩, fun hfree => hfree.2⟩
    by_cases hseq : seq = 0
    · exact .inl hseq
    · exact .inr (Bool.eq_false_iff.mpr fun hn => h ⟨hseq, hn⟩)

theorem of_mem_markedForReturn (h : l' ∈ l.markedForReturn returnRange seq) :
    l'.range = l.range ∧ l'.seq = l.seq ∧ l'.inFlight = l.inFlight ∧ (l.pnfsMatchLsegRecall (some returnRange) seq →
      l'.valid = false ∧ l'.layoutreturn ∧ (0 < l.refcount → 0 < l'.refcount)) ∧
    (l.pnfsMatchLsegRecall (some returnRange) seq = false → l' = l) := by
  unfold markedForReturn at h
  split at h
  next hmatch =>
    obtain ⟨l₁, hl₁, rfl⟩ := mem_map.mp h
    unfold invalidated at hl₁
    split at hl₁
    · cases hl₁
    next hstay =>
      obtain rfl := mem_singleton.mp hl₁
      refine ⟨rfl, rfl, ?_, fun _ => ⟨rfl, rfl, fun hpos => ?_⟩, fun hno => ?_⟩
      · simp only [inFlight, Bool.toNat_false, Nat.sub_zero]
      · cases hv : l.valid with
        | false => simpa using hpos
        | true =>
          have : ¬l.refcount ≤ 1 := fun hle => hstay ⟨hv, hle⟩
          simp only [Bool.toNat_true]
          omega
      · rw [hmatch] at hno
        cases hno
  next hmatch =>
    obtain rfl := mem_singleton.mp h
    exact ⟨rfl, rfl, rfl, fun hyes => absurd hyes hmatch, fun _ => rfl⟩

theorem inFlight_of_markedForReturn_nil (h : l.markedForReturn returnRange seq = []) : l.inFlight = 0 := by
  unfold markedForReturn invalidated at h
  split at h
  · split at h
    next hlast =>
      simp only [inFlight, hlast.1, Bool.toNat_true]
      omega
    · simp at h
  · simp at h

end Lseg

namespace LayoutHdr
variable {lo : LayoutHdr} {before after : List Lseg} {lseg : Lseg} {returnRange : LayoutRange} {seq : U32}

def InfoOnly (lo lo' : LayoutHdr) : Prop :=
  ∃ barrier returnSeq returnIomode returnRequested, lo' = { lo with barrier, returnSeq, returnIomode, returnRequested }

theorem InfoOnly.refl (lo : LayoutHdr) : InfoOnly lo lo := ⟨_, _, _, _, rfl⟩

theorem InfoOnly.trans {lo' lo'' : LayoutHdr} (h₁ : InfoOnly lo lo') (h₂ : InfoOnly lo' lo'') : InfoOnly lo lo'' := by
  obtain ⟨_, _, _, _, rfl⟩ := h₁
  obtain ⟨_, _, _, _, rfl⟩ := h₂
  exact ⟨_, _, _, _, rfl⟩

theorem infoOnly_barrierUpdate (lo : LayoutHdr) (seq : U32) : InfoOnly lo (lo.pnfsBarrierUpdate seq) := by
  unfold pnfsBarrierUpdate
  split
  · exact ⟨_, _, _, _, rfl⟩
  · exact InfoOnly.refl lo

theorem infoOnly_setPlhReturnInfo (lo : LayoutHdr) (iomode seq : U32) : InfoOnly lo (lo.pnfsSetPlhReturnInfo iomode seq) :=
  InfoOnly.trans ⟨_, _, _, _, rfl⟩ (infoOnly_barrierUpdate _ _)

theorem infoOnly_foldl_returnInfo (ls : List Lseg) (lo : LayoutHdr) :
    InfoOnly lo (ls.foldl (fun lo lseg => lo.pnfsSetPlhReturnInfo lseg.range.iomode 0) lo) := by
  induction ls generalizing lo with
  | nil => exact InfoOnly.refl lo
  | cons l ls ih => exact (infoOnly_setPlhReturnInfo lo _ _).trans (ih _)

variable (lo)

theorem infoOnly_clearLayoutreturnInfo : InfoOnly lo lo.pnfsClearLayoutreturnInfo :=
  InfoOnly.trans ⟨_, _, _, _, rfl⟩ (infoOnly_foldl_returnInfo _ _)

theorem layoutRemoveLseg_eq (lseg : Lseg) (segs : List Lseg) :
    ∃ invalidStid bulkRecall, (lo.invalidStid = true → invalidStid = true) ∧ lo.pnfsLayoutRemoveLseg lseg segs =
      { lo with segs, unlinked := lseg.id :: lo.unlinked, refcount := lo.refcount - 1, invalidStid, bulkRecall } := by
  unfold pnfsLayoutRemoveLseg
  dsimp only
  split
  · exact ⟨_, _, id, rfl⟩
  · split
    · exact ⟨_, _, fun h => by rw [h, Bool.true_or], rfl⟩
    · exact ⟨_, _, id, rfl⟩

theorem markLsegInvalid_spec (before : List Lseg) (lseg : Lseg) (after : List Lseg) :
    (lo.markLsegInvalid before lseg after).1.toList = lseg.invalidated ∧
    (lo.markLsegInvalid before lseg after).2.segs = before ++ lseg.invalidated ++ after ∧
    (lo.markLsegInvalid before lseg after).2.returnSegs = lo.returnSegs ∧
    (lo.invalidStid = true → (lo.markLsegInvalid before lseg after).2.invalidStid = true) ∧
    ∀ l, (lo.markLsegInvalid before lseg after).1 = .removed l → l.valid = false := by
  simp only [markLsegInvalid, pnfsLsegDecAndRemoveZero, Lseg.invalidated]
  by_cases hv : lseg.valid = true
  · by_cases hr : lseg.refcount ≤ 1
    · have hz : lseg.refcount - 1 = 0 := by omega
      simp only [hv, hr, hz, if_true, and_self]
      obtain ⟨_, _, hinv, heq⟩ :=
        layoutRemoveLseg_eq lo { lseg with valid := false, refcount := 0 } (before ++ after)
      rw [heq]
      refine ⟨rfl, by simp, rfl, hinv, fun l hl => ?_⟩
      cases hl
      rfl
    · have hz : lseg.refcount - 1 ≠ 0 := by omega
      simp [hv, hr, hz, Place.toList]
  · have hf : lseg.valid = false := Bool.eq_false_iff.mpr hv
    have hsame : lseg = { lseg with valid := false } := by rw [← hf]
    simp [hf, Place.toList, ← hsame]

variable {lo}

theorem markReturnBody_lists (a : Marked) (h : lo.segs = before ++ lseg :: after) :
    let r := markReturnBody returnRange seq a lo before lseg after
    r.2.1.toList = lseg.markedForReturn returnRange seq ∧
    r.2.2.segs = before ++ lseg.markedForReturn returnRange seq ++ after ∧
    (∀ l ∈ r.2.2.returnSegs, l ∈ lo.returnSegs ∨ l.valid = false) ∧
    (lo.invalidStid → r.2.2.invalidStid) ∧
    (r.1.remaining ≠ 0 ↔ a.remaining ≠ 0 ∨
      (lseg.pnfsMatchLsegRecall (some returnRange) seq ∧ lseg.markedForReturn returnRange seq ≠ [])) := by
  intro r
  obtain ⟨hlist, hsegs, hreturn, hinv, hremoved⟩ := markLsegInvalid_spec lo before lseg after
  by_cases hmatch : lseg.pnfsMatchLsegRecall (some returnRange) seq
  · simp only [Lseg.markedForReturn, if_pos hmatch, r, markReturnBody]
    generalize lo.markLsegInvalid before lseg after = m at hlist hsegs hreturn hinv hremoved
    obtain ⟨place, lo₁⟩ := m
    cases place with
    | removed l =>
      have hnil : lseg.invalidated = [] := hlist.symm
      have hl : l.valid = false := hremoved l rfl
      simp only [hnil] at hsegs ⊢
      split
      · refine ⟨rfl, hsegs, fun l' hl' => ?_, hinv, by simp⟩
        rcases mem_cons.mp hl' with rfl | hl'
        · exact .inr hl
        · exact .inl (hreturn ▸ hl')
      · exact ⟨rfl, hsegs, fun l' hl' => .inl (hreturn ▸ hl'), hinv, by simp⟩
    | kept l =>
      have hone : lseg.invalidated = [l] := hlist.symm
      simp only [hone]
      exact ⟨rfl, by simp, fun l' hl' => .inl (hreturn ▸ hl'), hinv, by simp [hmatch]⟩
  · simp only [Lseg.markedForReturn, if_neg hmatch, r, markReturnBody]
    exact ⟨rfl, by simp [h], fun l hl => .inl hl, id, by simp [hmatch]⟩

theorem forEachLseg_cons {α : Type} (body : α → LayoutHdr → List Lseg → Lseg → List Lseg → α × Place × LayoutHdr) (a : α) :
    forEachLseg body a lo before (lseg :: after) =
      forEachLseg body (body a lo before lseg after).1 (body a lo before lseg after).2.2
        (before ++ (body a lo before lseg after).2.1.toList) after :=
  rfl

theorem forEachLseg_markReturnBody (todo : List Lseg) (a : Marked) (lo : LayoutHdr) (before : List Lseg)
    (h : lo.segs = before ++ todo) : let r := forEachLseg (markReturnBody returnRange seq) a lo before todo
    r.2.segs = before ++ todo.flatMap (Lseg.markedForReturn returnRange seq) ∧
    (∀ l ∈ r.2.returnSegs, l ∈ lo.returnSegs ∨ l.valid = false) ∧
    (lo.invalidStid → r.2.invalidStid) ∧
    (r.1.remaining ≠ 0 ↔ a.remaining ≠ 0 ∨ ∃ l ∈ todo,
      l.pnfsMatchLsegRecall (some returnRange) seq ∧ l.markedForReturn returnRange seq ≠ []) := by
  induction todo generalizing a lo before with
  | nil => exact ⟨by simpa [forEachLseg] using h, fun l hl => .inl hl, id, by simp [forEachLseg]⟩
  | cons lseg after ih =>
    obtain ⟨hlist, hsegs, hreturn, hinv, hremaining⟩ := @markReturnBody_lists lo before after lseg returnRange seq a h
    rw [forEachLseg_cons]
    generalize markReturnBody returnRange seq a lo before lseg after = m at hlist hsegs hreturn hinv hremaining ⊢
    intro r
    obtain ⟨hsegs', hreturn', hinv', hremaining'⟩ := ih m.1 m.2.2 (before ++ m.2.1.toList) (by rw [hsegs, hlist])
    refine ⟨?_, fun l hl => ?_, fun h => hinv' (hinv h), ?_⟩
    · rw [show r.2.segs = _ from hsegs', hlist, flatMap_cons, append_assoc]
    · rcases hreturn' l hl with hl | hl
      · exact hreturn l hl
      · exact .inr hl
    · rw [hremaining', hremaining, or_assoc]
      simp only [mem_cons, exists_eq_or_imp]

theorem pnfsMarkMatchingLsegsReturn_spec (lo : LayoutHdr) (toReturn : Bool) (returnRange : LayoutRange) (seq : U32) :
    let r := lo.pnfsMarkMatchingLsegsReturn toReturn returnRange seq
    let busy := ∃ l ∈ lo.segs, l.pnfsMatchLsegRecall (some returnRange) seq ∧ l.markedForReturn returnRange seq ≠ []
    r.2.segs = lo.segs.flatMap (Lseg.markedForReturn returnRange seq) ∧
    (∀ l ∈ r.2.returnSegs, l ∈ lo.returnSegs ∨ l.valid = false) ∧
    (busy ∧ r.1 = negErrno .ebusy ∨ ¬busy ∧ r.2.returnSegs ≠ [] ∧ r.1 = 0 ∨
      ¬busy ∧ r.2.returnSegs = [] ∧ r.1 = negErrno .enoent) := by
  obtain ⟨hsegs, hreturn, -, hremaining⟩ := @forEachLseg_markReturnBody returnRange seq lo.segs
    { toReturn := toReturn || lo.returnRequested } lo [] rfl
  unfold pnfsMarkMatchingLsegsReturn
  generalize forEachLseg (markReturnBody returnRange seq) { toReturn := toReturn || lo.returnRequested } lo [] lo.segs = m
    at hsegs hreturn hremaining ⊢
  intro r busy
  have hbusy : m.1.remaining ≠ 0 ↔ busy := by rw [hremaining]; simp [busy]
  have hinfo : (m.2.pnfsSetPlhReturnInfo returnRange.iomode seq).segs = m.2.segs ∧
      (m.2.pnfsSetPlhReturnInfo returnRange.iomode seq).returnSegs = m.2.returnSegs := by
    obtain ⟨_, _, _, _, hinfo⟩ := infoOnly_setPlhReturnInfo m.2 returnRange.iomode seq
    rw [hinfo]
    exact ⟨rfl, rfl⟩
  by_cases hzero : m.1.remaining = 0
  · have hnot : ¬busy := fun hb => hbusy.mpr hb hzero
    by_cases hempty : m.2.returnSegs = []
    · have hr : r = (negErrno .enoent, m.2) := by simp [r, hzero, hempty]
      rw [hr]
      exact ⟨hsegs, hreturn, .inr (.inr ⟨hnot, hempty, rfl⟩)⟩
    · have hr : r = (0, m.2.pnfsSetPlhReturnInfo returnRange.iomode seq) := by simp [r, hzero, hempty]
      rw [hr]
      exact ⟨hinfo.1.trans hsegs, fun l hl => hreturn l (hinfo.2 ▸ hl), .inr (.inl ⟨hnot, hinfo.2 ▸ hempty, rfl⟩)⟩
  · have hr : r = (negErrno .ebusy, m.2.pnfsSetPlhReturnInfo returnRange.iomode seq) := by simp [r, hzero]
    rw [hr]
    exact ⟨hinfo.1.trans hsegs, fun l hl => hreturn l (hinfo.2 ▸ hl), .inl ⟨hbusy.mp hzero, rfl⟩⟩

/-- No matching segment is valid, and the result tells whether one is in use; if not, whether any is to be returned. -/
theorem pnfsMarkMatchingLsegsReturn_post (lo : LayoutHdr) (toReturn : Bool) (returnRange : LayoutRange) (seq : U32)
    (hpos : ∀ l ∈ lo.segs, 0 < l.refcount) :
    let r := lo.pnfsMarkMatchingLsegsReturn toReturn returnRange seq
    let busy := ∃ l ∈ r.2.segs, (seq = 0 ∨ pnfsSeqidIsNewer l.seq seq = false) ∧
      l.range.pnfsShouldFreeRange returnRange ∧ 0 < l.refcount
    (∀ l ∈ r.2.segs, seq = 0 ∨ pnfsSeqidIsNewer l.seq seq = false →
      l.range.pnfsShouldFreeRange returnRange → l.valid = false) ∧
    (∀ l ∈ r.2.returnSegs, l ∈ lo.returnSegs ∨ l.valid = false) ∧
    (r.1 = negErrno .ebusy ↔ busy) ∧ (r.1 = 0 ↔ ¬busy ∧ r.2.returnSegs ≠ []) ∧
    (r.1 = negErrno .enoent ↔ ¬busy ∧ r.2.returnSegs = []) := by
  intro r busy
  obtain ⟨hsegs, hreturn, hresult⟩ := lo.pnfsMarkMatchingLsegsReturn_spec toReturn returnRange seq
  have hmem : ∀ l, l ∈ r.2.segs ↔ ∃ l₀ ∈ lo.segs, l ∈ l₀.markedForReturn returnRange seq := fun l => by
    rw [show r.2.segs = _ from hsegs, mem_flatMap]
  have hbusy : (∃ l ∈ lo.segs, l.pnfsMatchLsegRecall (some returnRange) seq ∧
      l.markedForReturn returnRange seq ≠ []) ↔ busy := by
    constructor
    · rintro ⟨l₀, hl₀, hmatch, hne⟩
      obtain ⟨l, hl⟩ := exists_mem_of_ne_nil _ hne
      obtain ⟨hrange, hseq, -, hmarked, -⟩ := Lseg.of_mem_markedForReturn hl
      obtain ⟨hnewer, hfree⟩ := Lseg.pnfsMatchLsegRecall_iff.mp hmatch
      exact ⟨l, (hmem l).mpr ⟨l₀, hl₀, hl⟩, hseq ▸ hnewer, hrange ▸ hfree, (hmarked hmatch).2.2 (hpos l₀ hl₀)⟩
    · rintro ⟨l, hl, hnewer, hfree, -⟩
      obtain ⟨l₀, hl₀, hl⟩ := (hmem l).mp hl
      obtain ⟨hrange, hseq, -⟩ := Lseg.of_mem_markedForReturn hl
      exact ⟨l₀, hl₀, Lseg.pnfsMatchLsegRecall_iff.mpr ⟨hseq ▸ hnewer, hrange ▸ hfree⟩, ne_nil_of_mem hl⟩
  rw [hbusy] at hresult
  refine ⟨fun l hl hnewer hfree => ?_, hreturn, ?_⟩
  · obtain ⟨l₀, hl₀, hl⟩ := (hmem l).mp hl
    obtain ⟨hrange, hseq, -, hmarked, -⟩ := Lseg.of_mem_markedForReturn hl
    exact (hmarked (Lseg.pnfsMatchLsegRecall_iff.mpr ⟨hseq ▸ hnewer, hrange ▸ hfree⟩)).1
  · have hne₁ : negErrno .ebusy ≠ 0 := by decide
    have hne₂ : negErrno .enoent ≠ 0 := by decide
    have hne₃ : negErrno .ebusy ≠ negErrno .enoent := by decide
    rcases hresult with ⟨hb, hr⟩ | ⟨hb, hq, hr⟩ | ⟨hb, hq, hr⟩
    · rw [show r.1 = _ from hr]
      exact ⟨by simp [hb], by simp [hb, hne₁], by simp [hb, hne₃]⟩
    · rw [show r.1 = _ from hr]
      exact ⟨by simp [hb, hne₁.symm], by simp only [true_iff]; exact ⟨hb, hq⟩, iff_of_false hne₂.symm fun h => hq h.2⟩
    · rw [show r.1 = _ from hr]
      exact ⟨by simp [hb, hne₃.symm], iff_of_false hne₂ fun h => h.2 hq, by simp only [true_iff]; exact ⟨hb, hq⟩⟩

/-- A segment in use and one that is not: the first is waited for. -/
theorem pnfsMarkMatchingLsegsReturn_post_in_use :
    let lo : LayoutHdr :=
      { segs := [{ range := { iomode := Iomode.rw }, seq := 1, refcount := 2 }, { range := { iomode := Iomode.read }, seq := 1 }] }
    let r := lo.pnfsMarkMatchingLsegsReturn false { iomode := Iomode.any } 0
    (∀ l ∈ lo.segs, 0 < l.refcount) ∧ r.1 = negErrno .ebusy ∧ ∀ l ∈ r.2.segs, l.valid = false := by
  intro lo r
  have hpos : ∀ l ∈ lo.segs, 0 < l.refcount := by decide
  obtain ⟨hvalid, -, hbusy, -⟩ := pnfsMarkMatchingLsegsReturn_post lo false { iomode := Iomode.any } 0 hpos
  exact ⟨hpos, hbusy.mpr (by decide), fun l hl => hvalid l hl (.inl rfl) (by revert l; decide)⟩

/-- A segment for writing is queued for return when those for reading are to be returned, of which there is none. -/
theorem pnfsMarkMatchingLsegsReturn_other_queued :
    let lo : LayoutHdr := { returnSegs := [{ range := { iomode := Iomode.rw }, seq := 1, refcount := 0, valid := false }] }
    let r := lo.pnfsMarkMatchingLsegsReturn false { iomode := Iomode.read } 0
    r.1 = 0 ∧ r.2.segs = [] ∧ ∀ l ∈ r.2.returnSegs, l.range.pnfsShouldFreeRange { iomode := Iomode.read } = false := by
  decide

/-- `pnfs_layout_need_return` lets a requested LAYOUTRETURN be sent, so nothing to return is in use only if nothing was. -/
theorem pnfsLayoutNeedReturn_waits_iff (lo : LayoutHdr) :
    let pending : LayoutRange := { iomode := lo.returnIomode }
    (lo.pnfsLayoutNeedReturn.1 → ∀ l ∈ lo.pnfsLayoutNeedReturn.2.segs,
      l.range.pnfsShouldFreeRange pending → l.layoutreturn → l.inFlight = 0) ↔
    (lo.returnRequested → ∀ l ∈ lo.segs, l.range.pnfsShouldFreeRange pending →
      l.pnfsMatchLsegRecall (some pending) lo.returnSeq ∨ l.layoutreturn → l.inFlight = 0) := by
  intro pending
  by_cases hreq : lo.returnRequested
  · obtain ⟨hsegs, -, hresult⟩ := lo.pnfsMarkMatchingLsegsReturn_spec true pending lo.returnSeq
    have hneed : lo.pnfsLayoutNeedReturn = (true, (lo.pnfsMarkMatchingLsegsReturn true pending lo.returnSeq).2) := by
      have hsign : (lo.pnfsMarkMatchingLsegsReturn true pending lo.returnSeq).1 ≠ (Errno.ebusy.code : Int) := by
        rcases hresult with ⟨-, hr⟩ | ⟨-, -, hr⟩ | ⟨-, -, hr⟩ <;> rw [hr] <;> decide
      simp only [pnfsLayoutNeedReturn, hreq, Bool.not_true, Bool.false_eq_true, if_false]
      exact Prod.ext (decide_eq_true hsign) rfl
    simp only [hneed, hsegs, hreq, true_implies, mem_flatMap]
    constructor
    · intro hwait l hl hfree hmark
      by_cases hnil : l.markedForReturn pending lo.returnSeq = []
      · exact Lseg.inFlight_of_markedForReturn_nil hnil
      · obtain ⟨l', hl'⟩ := exists_mem_of_ne_nil _ hnil
        obtain ⟨hrange, -, hflight, hyes, hno⟩ := Lseg.of_mem_markedForReturn hl'
        have hreturn : l'.layoutreturn := by
          cases hmatch : l.pnfsMatchLsegRecall (some pending) lo.returnSeq with
          | true => exact (hyes hmatch).2.1
          | false =>
            rw [hno hmatch]
            exact hmark.resolve_left (by simp [hmatch])
        rw [← hflight]
        exact hwait l' ⟨l, hl, hl'⟩ (hrange ▸ hfree) hreturn
    · rintro hidle l' ⟨l, hl, hl'⟩ hfree hreturn
      obtain ⟨hrange, -, hflight, -, hno⟩ := Lseg.of_mem_markedForReturn hl'
      rw [hflight]
      refine hidle l hl (hrange ▸ hfree) ?_
      cases hmatch : l.pnfsMatchLsegRecall (some pending) lo.returnSeq with
      | true => exact .inl rfl
      | false => exact .inr (hno hmatch ▸ hreturn)
  · have hneed : lo.pnfsLayoutNeedReturn = (false, lo) := by simp [pnfsLayoutNeedReturn, hreq]
    rw [hneed]
    exact iff_of_true nofun fun h => absurd h hreq

/-- The return of the whole file is requested while two users have the segment: it may be sent. -/
theorem pnfsLayoutNeedReturn_in_use :
    let lo : LayoutHdr :=
      { returnRequested := true, returnIomode := Iomode.any, invalidStid := false
        segs := [{ range := { iomode := Iomode.rw }, seq := 1, refcount := 3 }] }
    lo.pnfsLayoutNeedReturn.1 ∧
    lo.pnfsLayoutNeedReturn.2.segs.map (fun l => (l.range.pnfsShouldFreeRange { iomode := Iomode.any }, l.layoutreturn,
      l.inFlight)) = [(true, true, 2)] := by
  decide

end LayoutHdr

end Mynfs
