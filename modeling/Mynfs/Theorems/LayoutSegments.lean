import Mynfs.Layout.Lookup
import Mynfs.Lib.Run
import Mynfs.Theorems.LayoutMarks

/-! The order of the segments, and lookups. `pnfs_lseg_range_cmp` takes unsigned differences as signed. -/

namespace Mynfs

open List
open BitVec (eq_of_toNat_eq le_def lt_def toNat_sub)

namespace LayoutRange
variable {l₁ l₂ l₃ : LayoutRange}

/-- The order that is wanted: by offset, long before short, read/write before read. -/
def Precedes (l₁ l₂ : LayoutRange) : Prop :=
  l₁.offset < l₂.offset ∨
    (l₁.offset = l₂.offset ∧ (l₂.length < l₁.length ∨ (l₁.length = l₂.length ∧ (l₁.iomode = Iomode.read → l₂.iomode = Iomode.read))))

theorem Precedes.trans (h₁ : l₁.Precedes l₂) (h₂ : l₂.Precedes l₃) : l₁.Precedes l₃ := by
  rcases h₁ with hlt₁ | ⟨heq₁, hrest₁⟩ <;> rcases h₂ with hlt₂ | ⟨heq₂, hrest₂⟩
  · exact .inl (BitVec.lt_trans hlt₁ hlt₂)
  · exact .inl (heq₂ ▸ hlt₁)
  · exact .inl (heq₁ ▸ hlt₂)
  · refine .inr ⟨heq₁.trans heq₂, ?_⟩
    rcases hrest₁ with hlen₁ | ⟨hlen₁, hmode₁⟩ <;> rcases hrest₂ with hlen₂ | ⟨hlen₂, hmode₂⟩
    · exact .inl (BitVec.lt_trans hlen₂ hlen₁)
    · exact .inl (hlen₂ ▸ hlen₁)
    · exact .inl (hlen₁ ▸ hlen₂)
    · exact .inr ⟨hlen₁.trans hlen₂, fun hread => hmode₂ (hmode₁ hread)⟩

/-- The difference of two unsigned numbers fits into a signed one. -/
def Near (a b : U64) : Prop := -2 ^ 63 ≤ (a.toNat : Int) - b.toNat ∧ (a.toNat : Int) - b.toNat < 2 ^ 63

theorem Near.toInt_sub {a b : U64} (h : Near a b) : (a - b).toInt = (a.toNat : Int) - b.toNat := by
  obtain ⟨hlow, hhigh⟩ := h
  rw [BitVec.toInt_eq_toNat_cond, toNat_sub]
  split <;> omega

/-- The ranges are compared without an overflow. -/
def Comparable (l₁ l₂ : LayoutRange) : Prop :=
  Near l₁.offset l₂.offset ∧ (l₁.offset = l₂.offset → Near l₂.length l₁.length)

theorem isAfter_iff (h : Comparable l₁ l₂) : l₁.pnfsLsegRangeIsAfter l₂ ↔ ¬ l₁.Precedes l₂ := by
  obtain ⟨hoffset, hlength⟩ := h
  unfold pnfsLsegRangeIsAfter pnfsLsegRangeCmp Precedes
  rw [decide_eq_true_iff, hoffset.toInt_sub, lt_def]
  by_cases heq : l₁.offset = l₂.offset
  · have hnear := hlength heq
    rw [if_neg (by rw [heq]; omega), hnear.toInt_sub, lt_def]
    by_cases hlen : l₁.length = l₂.length
    · split_ifs <;> simp_all
    · have hne : l₁.length.toNat ≠ l₂.length.toNat := fun h => hlen (eq_of_toNat_eq h)
      simp only [heq, hlen, true_and, false_and, or_false]
      omega
  · have hne : l₁.offset.toNat ≠ l₂.offset.toNat := fun h => heq (eq_of_toNat_eq h)
    simp only [heq, false_and, or_false]
    omega

theorem Precedes.of_not (h : ¬ l₁.Precedes l₂) : l₂.Precedes l₁ := by
  unfold Precedes at h ⊢
  rw [lt_def, lt_def] at h ⊢
  by_cases heq : l₁.offset = l₂.offset
  · by_cases hlen : l₁.length = l₂.length
    · simp_all
    · have hne : l₁.length.toNat ≠ l₂.length.toNat := fun h => hlen (eq_of_toNat_eq h)
      refine .inr ⟨heq.symm, .inl ?_⟩
      simp only [heq, hlen, true_and, false_and, or_false] at h
      omega
  · have hne : l₁.offset.toNat ≠ l₂.offset.toNat := fun h => heq (eq_of_toNat_eq h)
    exact .inl (by omega)

end LayoutRange

def Sorted (segs : List Lseg) : Prop := (segs.map (·.range)).Pairwise LayoutRange.Precedes

namespace LayoutHdr
variable {lo lo' : LayoutHdr} {range : LayoutRange} {stateid : Stateid} {lseg : Lseg} {before after : List Lseg} {e : LsegEvent}

def validSegs (lo : LayoutHdr) : List Lseg := lo.segs.filter (·.valid)

theorem insertLseg_spec (lseg : Lseg) (lo : LayoutHdr) (before todo : List Lseg) :
    ∃ passed rest, todo = passed ++ rest ∧
      (lo.genericLayoutInsertLseg {} lseg before todo).segs = before ++ passed ++ lseg :: rest ∧
      (∀ lp ∈ passed, lp.valid → lseg.range.pnfsLsegRangeIsAfter lp.range) ∧
      ∀ lp ∈ rest.head?, lp.valid ∧ lseg.range.pnfsLsegRangeIsAfter lp.range = false := by
  induction todo generalizing before with
  | nil => exact ⟨[], [], rfl, by rw [append_nil]; rfl, nofun, nofun⟩
  | cons lp todo ih =>
    obtain ⟨passed, rest, htodo, hsegs, hpassed, hrest⟩ := ih (before ++ [lp])
    have hpass : (before ++ [lp]) ++ passed ++ lseg :: rest = before ++ (lp :: passed) ++ lseg :: rest := by
      rw [append_assoc before, singleton_append]
    unfold genericLayoutInsertLseg
    split
    next hinv =>
      refine ⟨lp :: passed, rest, congrArg _ htodo, hsegs.trans hpass, fun l hl hvalid => ?_, hrest⟩
      rcases mem_cons.mp hl with rfl | hl
      · rw [hvalid] at hinv
        cases hinv
      · exact hpassed l hl hvalid
    next hvalid =>
      dsimp only
      split
      next hafter =>
        refine ⟨lp :: passed, rest, congrArg _ htodo, hsegs.trans hpass, fun l hl hv => ?_, hrest⟩
        rcases mem_cons.mp hl with rfl | hl
        · exact hafter
        · exact hpassed l hl hv
      next hafter =>
        refine ⟨[], lp :: todo, rfl, by rw [append_nil], nofun, fun l hl => ?_⟩
        cases hl
        exact ⟨by simpa using hvalid, by simpa using hafter⟩

theorem sorted_insert {passed rest : List Lseg} (h : Sorted (passed ++ rest))
    (hpassed : ∀ lp ∈ passed, lp.range.Precedes lseg.range) (hrest : ∀ lp ∈ rest, lseg.range.Precedes lp.range) :
    Sorted (passed ++ lseg :: rest) := by
  unfold Sorted at h ⊢
  rw [map_append, pairwise_append] at h
  obtain ⟨hp, hr, hpr⟩ := h
  rw [map_append, map_cons, pairwise_append, pairwise_cons]
  refine ⟨hp, ⟨fun r hr => ?_, hr⟩, fun p hp r hr => ?_⟩
  · obtain ⟨lp, hlp, rfl⟩ := mem_map.mp hr
    exact hrest lp hlp
  · rcases mem_cons.mp hr with rfl | hr
    · obtain ⟨lp, hlp, rfl⟩ := mem_map.mp hp
      exact hpassed lp hlp
    · exact hpr p hp r hr

/-- The comparisons of an insertion do not overflow. -/
def ComparesExactly (lo : LayoutHdr) : LsegEvent → Prop
  | .insertLseg range _ => ∀ lp ∈ lo.segs, lp.valid → range.Comparable lp.range
  | _ => True

theorem sorted_insertLseg (h : Sorted lo.validSegs) (hexact : lo.ComparesExactly (.insertLseg range stateid)) :
    Sorted (lo.genericLayoutInsertLseg {} (pnfsInitLseg range stateid) [] lo.segs).validSegs := by
  obtain ⟨passed, rest, htodo, hsegs, hpassed, hrest⟩ := insertLseg_spec (pnfsInitLseg range stateid) lo [] lo.segs
  unfold validSegs at h ⊢
  rw [hsegs, nil_append, filter_append, filter_cons_of_pos rfl]
  rw [htodo, filter_append] at h
  have hbelow : ∀ lp ∈ rest.head?, range.Precedes lp.range := by
    intro lp hlp
    obtain ⟨hvalid, hafter⟩ := hrest lp hlp
    have hmem : lp ∈ lo.segs := htodo ▸ mem_append_right _ (mem_of_mem_head? hlp)
    by_contra hnot
    rw [show (pnfsInitLseg range stateid).range = range from rfl, (LayoutRange.isAfter_iff (hexact lp hmem hvalid)).mpr hnot] at hafter
    cases hafter
  refine sorted_insert h (fun lp hlp => ?_) fun lp hlp => ?_
  · obtain ⟨hlp, hvalid⟩ := mem_filter.mp hlp
    have hmem : lp ∈ lo.segs := htodo ▸ mem_append_left _ hlp
    exact .of_not ((LayoutRange.isAfter_iff (hexact lp hmem hvalid)).mp (hpassed lp hlp hvalid))
  · -- the first of the rest is valid, and the others follow it
    cases rest with
    | nil => cases hlp
    | cons first rest =>
      have hfirst := hrest first rfl
      rw [filter_cons_of_pos hfirst.1] at hlp h
      rcases mem_cons.mp hlp with rfl | hlp
      · exact hbelow lp rfl
      · have htail := (pairwise_append.mp (by rw [Sorted, map_append] at h; exact h)).2.1
        rw [map_cons, pairwise_cons] at htail
        exact (hbelow first rfl).trans (htail.1 _ (mem_map_of_mem hlp))

/-- A segment keeps its place and range, or leaves the list. None becomes valid. -/
def Leaves (lo lo' : LayoutHdr) : Prop :=
  ∃ before lseg after, lo.segs = before ++ lseg :: after ∧
    (lo'.segs = before ++ after ∨
      ∃ lseg', lo'.segs = before ++ lseg' :: after ∧ lseg'.range = lseg.range ∧ (lseg'.valid → lseg.valid))

theorem Leaves.sorted (h : Leaves lo lo') (hs : Sorted lo.segs) : Sorted lo'.segs := by
  obtain ⟨before, lseg, after, hsegs, hout | ⟨lseg', hkept, hrange, -⟩⟩ := h
  · refine hs.sublist ?_
    rw [hsegs, hout]
    exact (List.Sublist.append_left (sublist_cons_self _ _) _).map _
  · unfold Sorted at hs ⊢
    rw [hsegs] at hs
    rw [hkept]
    simpa only [map_append, map_cons, hrange] using hs

theorem Leaves.sorted_validSegs (h : Leaves lo lo') (hs : Sorted lo.validSegs) : Sorted lo'.validSegs := by
  obtain ⟨before, lseg, after, hsegs, hleft⟩ := h
  refine hs.sublist ?_
  unfold validSegs
  rcases hleft with hout | ⟨lseg', hkept, hrange, hvalid⟩
  · rw [hsegs, hout]
    exact ((List.Sublist.append_left (sublist_cons_self _ _) _).filter _).map _
  · rw [hsegs, hkept, filter_append, filter_append, map_append, map_append]
    refine List.Sublist.append_left ?_ _
    by_cases hv' : lseg'.valid
    · rw [filter_cons_of_pos hv', filter_cons_of_pos (hvalid hv'), map_cons, map_cons, hrange]
    · rw [filter_cons_of_neg hv']
      exact ((sublist_cons_self _ _).filter _).map _

theorem leaves_lsegDecAndRemoveZero {lseg₀ : Lseg} (h : lo.segs = before ++ lseg₀ :: after) (hrange : lseg.range = lseg₀.range)
    (hvalid : lseg.valid → lseg₀.valid) : Leaves lo (lo.pnfsLsegDecAndRemoveZero before lseg after).2 := by
  refine ⟨before, lseg₀, after, h, ?_⟩
  unfold pnfsLsegDecAndRemoveZero
  dsimp only
  split
  · obtain ⟨_, _, -, heq⟩ := lo.layoutRemoveLseg_eq { lseg with refcount := lseg.refcount - 1 } (before ++ after)
    exact .inl (congrArg LayoutHdr.segs heq)
  · exact .inr ⟨_, rfl, hrange, hvalid⟩

theorem leaves_markLsegInvalid (h : lo.segs = before ++ lseg :: after) : Leaves lo (lo.markLsegInvalid before lseg after).2 := by
  unfold markLsegInvalid
  split
  · exact leaves_lsegDecAndRemoveZero h rfl nofun
  · exact ⟨before, lseg, after, h, .inr ⟨lseg, rfl, rfl, id⟩⟩

theorem leaves_putLseg (h : lo.segs = before ++ lseg :: after) : Leaves lo (lo.putLseg before lseg after) := by
  have hdec : Leaves lo (lo.pnfsLsegDecAndRemoveZero before lseg after).2 := leaves_lsegDecAndRemoveZero h rfl id
  unfold putLseg
  generalize lo.pnfsLsegDecAndRemoveZero before lseg after = result at hdec
  obtain ⟨_ | lseg', lo'⟩ := result
  · exact hdec
  · dsimp only
    split
    · obtain ⟨before', lseg₀, after', hsegs, hleft⟩ := hdec
      obtain ⟨_, _, _, _, hinfo⟩ := infoOnly_setPlhReturnInfo lo' lseg'.range.iomode 0
      exact ⟨before', lseg₀, after', hsegs, by rw [hinfo]; exact hleft⟩
    · exact hdec

theorem segs_of_onLseg {i : Nat} {f : List Lseg → Lseg → List Lseg → LayoutHdr} (h : lo.onLseg i f = some lo') :
    ∃ before lseg after, lo.segs = before ++ lseg :: after ∧ lo' = f before lseg after := by
  obtain ⟨lseg, hget, rfl⟩ := Option.map_eq_some_iff.mp h
  refine ⟨_, lseg, _, ?_, rfl⟩
  obtain ⟨hlt, rfl⟩ := List.getElem?_eq_some_iff.mp hget
  rw [← drop_eq_getElem_cons hlt, take_append_drop]

theorem lsegStep_cases (hs : lo.lsegStep e = some lo') : (∃ range stateid, e = .insertLseg range stateid ∧
      lo' = lo.genericLayoutInsertLseg {} (pnfsInitLseg range stateid) [] lo.segs) ∨ Leaves lo lo' := by
  cases e with
  | insertLseg range stateid => exact .inl ⟨range, stateid, rfl, (Option.some.inj hs).symm⟩
  | getLseg i =>
    obtain ⟨before, lseg, after, hsegs, rfl⟩ := segs_of_onLseg hs
    exact .inr ⟨before, lseg, after, hsegs, .inr ⟨_, rfl, rfl, id⟩⟩
  | putLseg i =>
    obtain ⟨before, lseg, after, hsegs, rfl⟩ := segs_of_onLseg hs
    exact .inr (leaves_putLseg hsegs)
  | markLsegInvalid i =>
    simp only [lsegStep] at hs
    obtain ⟨before, lseg, after, hsegs, rfl⟩ := segs_of_onLseg hs
    exact .inr (leaves_markLsegInvalid hsegs)

/-- No segment that was invalidated is still in the list when another one is inserted. -/
def InsertsAmongValid (lo : LayoutHdr) : LsegEvent → Prop
  | .insertLseg _ _ => ∀ lp ∈ lo.segs, lp.valid
  | _ => True

theorem sorted_validSegs_step (hexact : lo.ComparesExactly e) (h : Sorted lo.validSegs)
    (hs : lo.lsegStep e = some lo') : Sorted lo'.validSegs := by
  rcases lsegStep_cases hs with ⟨range, stateid, rfl, rfl⟩ | hleaves
  · exact sorted_insertLseg h hexact
  · exact hleaves.sorted_validSegs h

theorem sorted_step (hexact : lo.ComparesExactly e) (hvalid : lo.InsertsAmongValid e) (h : Sorted lo.segs)
    (hs : lo.lsegStep e = some lo') : Sorted lo'.segs := by
  rcases lsegStep_cases hs with ⟨range, stateid, rfl, rfl⟩ | hleaves
  · have hall : lo.validSegs = lo.segs := filter_eq_self.mpr hvalid
    have hsorted := sorted_insertLseg (hall.symm ▸ h) hexact
    unfold validSegs at hsorted
    rwa [filter_eq_self.mpr fun lp hlp => ?_] at hsorted
    obtain ⟨passed, rest, htodo, hsegs, -⟩ := insertLseg_spec (pnfsInitLseg range stateid) lo [] lo.segs
    rw [hsegs, nil_append, mem_append, mem_cons] at hlp
    rcases hlp with hlp | rfl | hlp
    · exact hvalid lp (htodo ▸ mem_append_left _ hlp)
    · rfl
    · exact hvalid lp (htodo ▸ mem_append_right _ hlp)
  · exact hleaves.sorted h

/-- If no comparison overflows, lookups see sorted segments; the whole list is, if inserted among valid ones only. -/
theorem sorted_of_run (lo : LayoutHdr) (hempty : lo.segs = []) (events : List LsegEvent)
    (hexact : Machine.Along lsegStep ComparesExactly lo events) (lo' : LayoutHdr)
    (hrun : Machine.exec lsegStep lo events = some lo') :
    Sorted lo'.validSegs ∧ (Machine.Along lsegStep InsertsAmongValid lo events → Sorted lo'.segs) := by
  refine ⟨?_, fun hvalid => ?_⟩
  · refine Machine.exec_invariant_along (fun _ _ _ he hi hs => sorted_validSegs_step he hi hs) hexact ?_ hrun
    unfold validSegs
    rw [hempty]
    exact List.Pairwise.nil
  · refine Machine.exec_invariant_along (fun _ _ _ he hi hs => sorted_step he.1 he.2 hi hs) (hexact.and hvalid) ?_ hrun
    rw [hempty]
    exact List.Pairwise.nil

instance (l₁ l₂ : LayoutRange) : Decidable (l₁.Precedes l₂) := inferInstanceAs (Decidable (_ ∨ _))

instance (segs : List Lseg) : Decidable (Sorted segs) := inferInstanceAs (Decidable (List.Pairwise _ _))

instance (a b : U64) : Decidable (LayoutRange.Near a b) := inferInstanceAs (Decidable (_ ∧ _))

instance (l₁ l₂ : LayoutRange) : Decidable (l₁.Comparable l₂) := inferInstanceAs (Decidable (_ ∧ _))

instance (lo : LayoutHdr) : ∀ e, Decidable (lo.ComparesExactly e)
  | .insertLseg range _ => inferInstanceAs (Decidable (∀ lp ∈ lo.segs, lp.valid → range.Comparable lp.range))
  | .getLseg _ | .putLseg _ | .markLsegInvalid _ => inferInstanceAs (Decidable True)

def recallInUse : List LsegEvent :=
  [.insertLseg { iomode := Iomode.read } {}, .insertLseg { iomode := Iomode.rw, offset := 4096 } {},
    .insertLseg { iomode := Iomode.rw } {}, .getLseg 2, .markLsegInvalid 2,
    .insertLseg { iomode := Iomode.rw, offset := 8192, length := 2 ^ 63 } {}, .putLseg 2]

theorem sorted_of_run_recallInUse : ∃ lo, Machine.exec lsegStep {} recallInUse = some lo ∧ lo.segs.length = 3 ∧
    Sorted lo.validSegs ∧ (Machine.Along lsegStep InsertsAmongValid {} recallInUse → Sorted lo.segs) := by
  refine Machine.exists_exec (P := fun lo => lo.segs.length = 3) (by decide) fun lo hrun hlength => ?_
  exact ⟨hlength, sorted_of_run {} rfl recallInUse (by decide) lo hrun⟩

/-- A segment of the whole file goes behind a short one at its offset, and one in the upper half before offset 0. -/
theorem not_sorted_after_insert :
    (∃ lo, Machine.exec lsegStep {} [.insertLseg { iomode := Iomode.rw, length := 4096 } {}, .insertLseg { iomode := Iomode.rw } {}] =
      some lo ∧ lo.segs.map (·.range) = [{ iomode := Iomode.rw, length := 4096 }, { iomode := Iomode.rw }] ∧ ¬ Sorted lo.segs) ∧
    ∃ lo, Machine.exec lsegStep {} [.insertLseg { iomode := Iomode.rw } {}, .insertLseg { iomode := Iomode.rw, offset := 2 ^ 63 } {}] =
      some lo ∧ lo.segs.map (·.range) = [{ iomode := Iomode.rw, offset := 2 ^ 63 }, { iomode := Iomode.rw }] ∧ ¬ Sorted lo.segs := by
  refine ⟨⟨_, rfl, ?_⟩, ⟨_, rfl, ?_⟩⟩ <;> decide +kernel

end LayoutHdr

namespace LayoutRange
variable {lsRange range : LayoutRange} {strictIomode : Bool}

/-- The range has the byte `n`; the length `NFS4_MAX_UINT64` is up to the end of the file. -/
def HasByte (l : LayoutRange) (n : Nat) : Prop :=
  l.offset.toNat ≤ n ∧ (l.length = nfs4MaxUint64 ∨ n < l.offset.toNat + l.length.toNat)

/-- The iomode matching rules. -/
def ServesIomode (lsRange range : LayoutRange) (strictIomode : Bool) : Prop :=
  range.iomode = Iomode.any ∨ (range.iomode = Iomode.rw ∧ lsRange.iomode = Iomode.rw) ∨
    (range.iomode = Iomode.read ∧ (lsRange.iomode = Iomode.read ∨ (lsRange.iomode = Iomode.rw ∧ strictIomode = false)))

theorem toNat_endOffset (start len : U64) : (pnfsEndOffset start len).toNat = min (2 ^ 64 - 1) (start.toNat + len.toNat) := by
  have hmax : nfs4MaxUint64.toNat = 2 ^ 64 - 1 := rfl
  unfold pnfsEndOffset
  split
  next h =>
    rw [le_def, toNat_sub, hmax] at h
    omega
  next h =>
    rw [le_def, toNat_sub, hmax] at h
    rw [BitVec.toNat_add]
    omega

theorem contained_first_iff (hoffset : range.offset ≠ nfs4MaxUint64) :
    lsRange.pnfsLsegRangeContained { range with length := 1 } ↔ lsRange.HasByte range.offset.toNat := by
  have hmax : nfs4MaxUint64.toNat = 2 ^ 64 - 1 := rfl
  have hlast : range.offset.toNat ≠ 2 ^ 64 - 1 := fun h => hoffset (eq_of_toNat_eq (h.trans hmax.symm))
  have hone : (1 : U64).toNat = 1 := rfl
  have hinf : lsRange.length = nfs4MaxUint64 ↔ lsRange.length.toNat = 2 ^ 64 - 1 :=
    ⟨fun h => h ▸ hmax, fun h => eq_of_toNat_eq (h.trans hmax.symm)⟩
  unfold pnfsLsegRangeContained HasByte
  dsimp only
  rw [Bool.and_eq_true, decide_eq_true_iff, decide_eq_true_iff, le_def, le_def, toNat_endOffset, toNat_endOffset, hone, hinf]
  omega

theorem intersecting_of_hasByte (hlength : range.length ≠ 0) (h : lsRange.HasByte range.offset.toNat) :
    lsRange.pnfsLsegRangeIntersecting range := by
  have hmax : nfs4MaxUint64.toNat = 2 ^ 64 - 1 := rfl
  have hpos : range.length.toNat ≠ 0 := fun h => hlength (eq_of_toNat_eq h)
  have hend : ∀ x : U64, x = nfs4MaxUint64 ↔ x.toNat = 2 ^ 64 - 1 := fun x =>
    ⟨fun h => h ▸ hmax, fun h => eq_of_toNat_eq (h.trans hmax.symm)⟩
  obtain ⟨hle, hlt⟩ := h
  unfold pnfsLsegRangeIntersecting pnfsIsRangeIntersecting
  rw [Bool.and_eq_true, decide_eq_true_iff, decide_eq_true_iff, lt_def, lt_def, hend, hend, toNat_endOffset, toNat_endOffset]
  rw [hend] at hlt
  omega

theorem pnfsLsegRangeMatch_iff (hls : lsRange.iomode = Iomode.read ∨ lsRange.iomode = Iomode.rw)
    (hmode : range.iomode = Iomode.read ∨ range.iomode = Iomode.rw ∨ (range.iomode = Iomode.any ∧ strictIomode = false))
    (hlength : range.length ≠ 0) (hoffset : range.offset ≠ nfs4MaxUint64) :
    lsRange.pnfsLsegRangeMatch range strictIomode ↔
      lsRange.HasByte range.offset.toNat ∧ lsRange.ServesIomode range strictIomode := by
  have hserves : lsRange.ServesIomode range strictIomode ↔
      ¬ (range.iomode = Iomode.rw ∧ lsRange.iomode ≠ Iomode.rw) ∧ ¬ (range.iomode ≠ lsRange.iomode ∧ strictIomode) := by
    unfold ServesIomode
    rcases hls with hls | hls <;> rcases hmode with hmode | hmode | ⟨hmode, rfl⟩ <;> rw [hls, hmode] <;> simp
  rw [hserves, ← contained_first_iff hoffset]
  unfold pnfsLsegRangeMatch
  split
  next hno =>
    refine iff_of_false nofun fun ⟨hcontained, hrw, hstrict⟩ => ?_
    rcases hno with hno | hno | hno
    · exact hrw hno
    · exact hstrict hno
    · rw [intersecting_of_hasByte hlength ((contained_first_iff hoffset).mp hcontained)] at hno
      cases hno
  next hyes =>
    rw [not_or, not_or] at hyes
    exact ⟨fun h => ⟨h, hyes.1, hyes.2.1⟩, fun h => h.1⟩

end LayoutRange

def Lseg.Usable (lseg : Lseg) (range : LayoutRange) (strictIomode : Bool) : Prop :=
  lseg.valid ∧ lseg.range.HasByte range.offset.toNat ∧ lseg.range.ServesIomode range strictIomode

namespace LayoutHdr

/-- The lookup gives a segment that can be used, and none only if there is none. -/
theorem pnfsFindLseg_exact (lo : LayoutHdr) (hsegs : ∀ lseg ∈ lo.segs, lseg.range.iomode = Iomode.read ∨ lseg.range.iomode = Iomode.rw)
    (range : LayoutRange) (strictIomode : Bool)
    (hmode : range.iomode = Iomode.read ∨ range.iomode = Iomode.rw ∨ (range.iomode = Iomode.any ∧ strictIomode = false))
    (hlength : range.length ≠ 0) (hoffset : range.offset ≠ nfs4MaxUint64) :
    (∀ i, (lo.pnfsFindLseg range strictIomode).1 = some i → ∃ lseg, lo.segs[i]? = some lseg ∧ lseg.Usable range strictIomode) ∧
    ((lo.pnfsFindLseg range strictIomode).1 = none ↔ ∀ lseg ∈ lo.segs, ¬ lseg.Usable range strictIomode) := by
  have husable : ∀ lseg ∈ lo.segs, (lseg.valid && lseg.range.pnfsLsegRangeMatch range strictIomode) ↔
      lseg.Usable range strictIomode := by
    intro lseg hlseg
    rw [Bool.and_eq_true, LayoutRange.pnfsLsegRangeMatch_iff (hsegs lseg hlseg) hmode hlength hoffset]
    rfl
  unfold pnfsFindLseg
  generalize hfind : lo.segs.findIdx? (fun lseg => lseg.valid && lseg.range.pnfsLsegRangeMatch range strictIomode) = found
  cases found with
  | some i =>
    obtain ⟨hlt, hmatch, -⟩ := findIdx?_eq_some_iff_getElem.mp hfind
    have hgood := (husable _ (getElem_mem hlt)).mp hmatch
    refine ⟨fun j hj => ?_, iff_of_false nofun fun hnone => hnone _ (getElem_mem hlt) hgood⟩
    cases hj
    exact ⟨_, getElem?_eq_getElem hlt, hgood⟩
  | none =>
    refine ⟨nofun, iff_of_true rfl fun lseg hlseg hgood => ?_⟩
    have hno := findIdx?_eq_none_iff.mp hfind lseg hlseg
    rw [(husable lseg hlseg).mpr hgood] at hno
    cases hno

def withWriteSegs (ranges : List (U64 × U64)) : LayoutHdr :=
  { segs := ranges.map fun (offset, length) => { range := { iomode := Iomode.rw, offset, length }, seq := 1 } }

theorem pnfsFindLseg_exact_read :
    ((withWriteSegs [(0, 4096), (4096, nfs4MaxUint64)]).pnfsFindLseg { iomode := Iomode.read, offset := 5000, length := 9 } false).1 = some 1 ∧
    ∃ lseg, (withWriteSegs [(0, 4096), (4096, nfs4MaxUint64)]).segs[1]? = some lseg ∧
      lseg.Usable { iomode := Iomode.read, offset := 5000, length := 9 } false :=
  ⟨by decide, (pnfsFindLseg_exact (withWriteSegs [(0, 4096), (4096, nfs4MaxUint64)]) (by decide)
    { iomode := Iomode.read, offset := 5000, length := 9 } false (by decide) (by decide) (by decide)).1 1 (by decide)⟩

instance (l : LayoutRange) (n : Nat) : Decidable (l.HasByte n) := inferInstanceAs (Decidable (_ ∧ _))

instance (lsRange range : LayoutRange) (strictIomode : Bool) : Decidable (lsRange.ServesIomode range strictIomode) :=
  inferInstanceAs (Decidable (_ ∨ _))

instance (lseg : Lseg) (range : LayoutRange) (strictIomode : Bool) : Decidable (lseg.Usable range strictIomode) :=
  inferInstanceAs (Decidable (_ ∧ _))

/-- Byte 2^64 - 1 is found in a segment that ends before it; an empty request and a strict lookup for any iomode are
    not. -/
theorem pnfsFindLseg_inexact :
    (((withWriteSegs [(1, 2 ^ 64 - 2)]).pnfsFindLseg { iomode := Iomode.rw, offset := 2 ^ 64 - 1, length := 1 } false).1 = some 0 ∧
      ∀ lseg ∈ (withWriteSegs [(1, 2 ^ 64 - 2)]).segs, ¬ lseg.Usable { iomode := Iomode.rw, offset := 2 ^ 64 - 1, length := 1 } false) ∧
    (((withWriteSegs [(4096, 4096)]).pnfsFindLseg { iomode := Iomode.rw, offset := 4096, length := 0 } false).1 = none ∧
      ∃ lseg ∈ (withWriteSegs [(4096, 4096)]).segs, lseg.Usable { iomode := Iomode.rw, offset := 4096, length := 0 } false) ∧
    ((withWriteSegs [(0, 4096)]).pnfsFindLseg { iomode := Iomode.any, offset := 0, length := 4096 } true).1 = none ∧
      ∃ lseg ∈ (withWriteSegs [(0, 4096)]).segs, lseg.Usable { iomode := Iomode.any, offset := 0, length := 4096 } true := by
  refine ⟨?_, ?_, ?_⟩ <;> decide +kernel

end LayoutHdr

end Mynfs
