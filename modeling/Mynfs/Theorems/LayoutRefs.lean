import Mynfs.Layout.Refs
import Mynfs.Theorems.LayoutCommit
import Mynfs.Theorems.LayoutEdits

/-! Reference counts of a layout header and its segments. A segment counts being valid, a LAYOUTCOMMIT and its callers. -/

namespace Mynfs

open List Option Machine
open Bool (eq_false_iff toNat_false toNat_true)

namespace LayoutHdr
variable {callers callers' : List Nat} {hdr next : Nat} {lo lo' : LayoutHdr} {before after : List Lseg} {lseg l₀ l₁ : Lseg}
  {ok : U32 → Prop}

/-- With the callers' references and `hdr` others to the header. Each of `next` segments is linked, or was unlinked,
    once. -/
structure Counted (callers : List Nat) (hdr next : Nat) (lo : LayoutHdr) : Prop where
  count : ∀ l ∈ lo.segs, l.refcount = l.valid.toNat + l.layoutcommit.toNat + callers.count l.id
  pos : ∀ l ∈ lo.segs, 0 < l.refcount
  once : (lo.unlinked ++ lo.segs.map (·.id)).Perm (range next)
  header : lo.refcount = lo.segs.length + hdr
  linked : ∀ i ∈ callers, i ∈ lo.segs.map (·.id)

namespace Counted

section
variable (h : Counted callers hdr next lo)
include h

theorem same (hsegs : lo'.segs = lo.segs) (hunlinked : lo'.unlinked = lo.unlinked)
    (href : lo'.refcount = lo.refcount) : Counted callers hdr next lo' where
  count := by rw [hsegs]; exact h.count
  pos := by rw [hsegs]; exact h.pos
  once := by rw [hsegs, hunlinked]; exact h.once
  header := by rw [hsegs, href]; exact h.header
  linked := by rw [hsegs]; exact h.linked

theorem infoOnly (hinfo : InfoOnly lo lo') : Counted callers hdr next lo' := by
  obtain ⟨_, _, _, _, rfl⟩ := hinfo
  exact h.same rfl rfl rfl

theorem nodup : (lo.segs.map (·.id)).Nodup :=
  (nodup_append.mp (h.once.nodup_iff.mpr nodup_range)).2.1

theorem id_ne (hsegs : lo.segs = before ++ l₀ :: after) {l : Lseg} (hl : l ∈ before ++ after) : l.id ≠ l₀.id := by
  have hnodup := h.nodup
  rw [hsegs, map_append, map_cons, nodup_middle, ← map_append] at hnodup
  intro heq
  exact (nodup_cons.mp hnodup).1 (heq ▸ mem_map_of_mem hl)

theorem lt_next {i : Nat} (hi : i ∈ lo.segs.map (·.id)) : i < next :=
  mem_range.mp (h.once.mem_iff.mp (mem_append_right _ hi))

end

theorem mem_callers {id : Nat} (hothers : ∀ i, i ≠ id → callers'.count i = callers.count i) {i : Nat}
    (hi : i ∈ callers') (hne : i ≠ id) : i ∈ callers := by
  rw [← count_pos_iff, ← hothers i hne]
  exact count_pos_iff.mpr hi

theorem set (h : Counted callers hdr next lo) (l₁ : Lseg) (hsegs : lo.segs = before ++ l₀ :: after)
    (hsegs' : lo'.segs = before ++ l₁ :: after) (hid : l₁.id = l₀.id) (hpos : 0 < l₁.refcount)
    (hcount : l₁.refcount = l₁.valid.toNat + l₁.layoutcommit.toNat + callers'.count l₁.id)
    (hothers : ∀ i, i ≠ l₁.id → callers'.count i = callers.count i) (hunlinked : lo'.unlinked = lo.unlinked)
    (href : lo'.refcount = lo.refcount) : Counted callers' hdr next lo' := by
  have hmem : ∀ l ∈ lo'.segs, l = l₁ ∨ (l ∈ lo.segs ∧ l.id ≠ l₁.id) := by
    intro l hl
    rw [hsegs'] at hl
    rcases mem_append.mp hl with hl | hl
    · exact .inr ⟨hsegs ▸ mem_append_left _ hl, hid ▸ h.id_ne hsegs (mem_append_left _ hl)⟩
    · rcases mem_cons.mp hl with rfl | hl
      · exact .inl rfl
      · exact .inr ⟨hsegs ▸ mem_append_right _ (mem_cons_of_mem _ hl), hid ▸ h.id_ne hsegs (mem_append_right _ hl)⟩
  have hids : lo'.segs.map (·.id) = lo.segs.map (·.id) := by simp [hsegs, hsegs', hid]
  refine ⟨fun l hl => ?_, fun l hl => ?_, ?_, ?_, fun i hi => ?_⟩
  · rcases hmem l hl with rfl | ⟨hl, hne⟩
    · exact hcount
    · rw [hothers _ hne]
      exact h.count l hl
  · rcases hmem l hl with rfl | ⟨hl, -⟩
    · exact hpos
    · exact h.pos l hl
  · rw [hids, hunlinked]
    exact h.once
  · have hlen := h.header
    rw [hsegs] at hlen
    rw [hsegs', href, hlen]
    simp
  · rw [hids]
    by_cases hne : i = l₁.id
    · rw [hne, hid, hsegs]
      simp
    · exact h.linked i (mem_callers hothers hi hne)

theorem remove (h : Counted callers hdr next lo) (hsegs : lo.segs = before ++ l₀ :: after)
    (hsegs' : lo'.segs = before ++ after) (hcallers : callers'.count l₀.id = 0)
    (hothers : ∀ i, i ≠ l₀.id → callers'.count i = callers.count i)
    (hunlinked : lo'.unlinked = l₀.id :: lo.unlinked) (href : lo'.refcount = lo.refcount - 1) :
    Counted callers' hdr next lo' := by
  have hmem : ∀ l ∈ lo'.segs, l ∈ lo.segs ∧ l.id ≠ l₀.id := by
    intro l hl
    rw [hsegs'] at hl
    refine ⟨?_, h.id_ne hsegs hl⟩
    rw [hsegs]
    rcases mem_append.mp hl with hl | hl
    · exact mem_append_left _ hl
    · exact mem_append_right _ (mem_cons_of_mem _ hl)
  refine ⟨fun l hl => ?_, fun l hl => h.pos l (hmem l hl).1, ?_, ?_, fun i hi => ?_⟩
  · rw [hothers _ (hmem l hl).2]
    exact h.count l (hmem l hl).1
  · refine List.Perm.trans ?_ h.once
    rw [hsegs, hsegs', hunlinked, map_append, map_append, map_cons, cons_append, ← append_assoc, ← append_assoc]
    exact perm_middle.symm
  · have hlen := h.header
    rw [hsegs] at hlen
    rw [hsegs', href, hlen]
    simp
    omega
  · have hne : i ≠ l₀.id := by
      rintro rfl
      exact absurd (count_pos_iff.mpr hi) (by omega)
    have hlinked := h.linked i (mem_callers hothers hi hne)
    rw [hsegs, map_append, map_cons, mem_append, mem_cons] at hlinked
    rw [hsegs', map_append, mem_append]
    rcases hlinked with hi | hi | hi
    · exact .inl hi
    · exact absurd hi hne
    · exact .inr hi

end Counted

/-! ### One segment -/

def KeepsCount (callers : List Nat) (hdr next : Nat) (before after : List Lseg) (r : Place × LayoutHdr) : Prop :=
  r.2.segs = before ++ r.1.toList ++ after ∧ Counted callers hdr next r.2

theorem keepsCount_lsegDecAndRemoveZero (lseg : Lseg) (h : Counted callers hdr next lo) (hsegs : lo.segs = before ++ l₀ :: after)
    (hid : lseg.id = l₀.id) (hcount : lseg.refcount = lseg.valid.toNat + lseg.layoutcommit.toNat + callers'.count lseg.id + 1)
    (hothers : ∀ i, i ≠ lseg.id → callers'.count i = callers.count i) :
    KeepsCount callers' hdr next before after (lo.pnfsLsegDecAndRemoveZero before lseg after) := by
  unfold pnfsLsegDecAndRemoveZero
  dsimp only
  split
  next hlast =>
    obtain ⟨_, _, -, heq⟩ := layoutRemoveLseg_eq lo { lseg with refcount := lseg.refcount - 1 } (before ++ after)
    rw [heq]
    refine ⟨by simp [Place.toList], h.remove hsegs rfl ?_ ?_ (congrArg (· :: _) hid) rfl⟩
    · rw [← hid]
      omega
    · rwa [← hid]
  next hmore =>
    refine ⟨by simp [Place.toList], h.set { lseg with refcount := lseg.refcount - 1 } hsegs rfl hid ?_ ?_ hothers
      rfl rfl⟩
    · exact Nat.pos_of_ne_zero hmore
    · show lseg.refcount - 1 = lseg.valid.toNat + lseg.layoutcommit.toNat + callers'.count lseg.id
      omega

theorem Counted.edit (h : Counted callers hdr next lo) (he : Edit ok False True lo lo') : Counted callers hdr next lo' := by
  cases he with
  | @barrier seq _ =>
    obtain ⟨_, -, heq⟩ := barrier_barrierUpdate lo seq
    rw [heq]
    exact h.same rfl rfl rfl
  | @flags before after lseg _ _ hsegs =>
    have hmem : lseg ∈ lo.segs := by simp [hsegs]
    exact h.set _ hsegs rfl rfl (h.pos lseg hmem) (h.count lseg hmem) (fun _ _ => rfl) rfl rfl
  | @put before after lseg valid layoutcommit roc layoutreturn hsegs _ hflag =>
    have hcount := h.count lseg (by simp [hsegs])
    have hflag := hflag.resolve_left id
    refine (keepsCount_lsegDecAndRemoveZero { lseg with valid, layoutcommit, roc, layoutreturn } h hsegs rfl ?_ fun _ _ => rfl).2
    dsimp only
    omega
  | refs hloose => exact hloose.elim
  | _ => exact h.same rfl rfl rfl

/-- Edits keep the references counted. -/
theorem Counted.edits (h : Counted callers hdr next lo) (he : Edits ok False True lo lo') : Counted callers hdr next lo' := by
  obtain ⟨hsteps, -⟩ := he
  induction hsteps with
  | refl => exact h
  | tail _ hedit ih => exact ih.edit hedit

theorem edits_start (lo : LayoutHdr) : Edits (fun _ => True) False True lo lo := .start (sound_true lo)

/-! ### References of callers -/

/-- A put gives back the reference of its caller. -/
theorem counted_putLseg (h : Counted (lseg.id :: callers) hdr next lo) (hsegs : lo.segs = before ++ lseg :: after) :
    Counted callers hdr next (lo.putLseg before lseg after) := by
  have hcount := h.count lseg (by simp [hsegs])
  rw [count_cons_self] at hcount
  have hdec : KeepsCount callers hdr next before after (lo.pnfsLsegDecAndRemoveZero before lseg after) :=
    keepsCount_lsegDecAndRemoveZero lseg h hsegs rfl (by omega) fun i hi => (count_cons_of_ne (Ne.symm hi)).symm
  unfold putLseg
  generalize lo.pnfsLsegDecAndRemoveZero before lseg after = m at hdec ⊢
  obtain ⟨place, lo₁⟩ := m
  obtain ⟨-, h₁⟩ := hdec
  cases place with
  | kept l => exact h₁
  | removed l =>
    dsimp only
    split
    · exact (h₁.infoOnly (infoOnly_setPlhReturnInfo lo₁ l.range.iomode 0)).same rfl rfl rfl
    · exact h₁

theorem counted_mypnfsPutLseg {id : Nat} (h : Counted (id :: callers) hdr next lo) :
    Counted callers hdr next (lo.mypnfsPutLseg id) := by
  obtain ⟨l, hl, hid⟩ := mem_map.mp (h.linked id mem_cons_self)
  unfold mypnfsPutLseg
  cases hfind : lo.segs.findIdx? fun lseg => lseg.id = id with
  | none =>
    have hnone := findIdx?_eq_none_iff.mp hfind l hl
    simp [hid] at hnone
  | some i =>
    obtain ⟨hi, hsame, -⟩ := findIdx?_eq_some_iff_getElem.mp hfind
    dsimp only
    rw [getElem?_eq_getElem hi]
    refine counted_putLseg ?_ (by rw [← drop_eq_getElem_cons hi, take_append_drop])
    rwa [of_decide_eq_true hsame]

theorem counted_foldl_putLseg (ids : List Nat) (lo : LayoutHdr) (h : Counted (ids ++ callers) hdr next lo) :
    Counted callers hdr next (ids.foldl (fun lo id => lo.mypnfsPutLseg id) lo) := by
  induction ids generalizing lo with
  | nil => exact h
  | cons id ids ih => exact ih _ (counted_mypnfsPutLseg h)

variable (h : Counted callers hdr next lo)
include h

theorem Counted.perm (hperm : callers.Perm callers') : Counted callers' hdr next lo :=
  ⟨fun l hl => by rw [← hperm.count_eq]; exact h.count l hl, h.pos, h.once, h.header,
    fun i hi => h.linked i (hperm.mem_iff.mpr hi)⟩

theorem counted_getLseg (hsegs : lo.segs = before ++ lseg :: after) :
    Counted (lseg.id :: callers) hdr next (lo.pnfsGetLseg before lseg after) := by
  refine h.set { lseg with refcount := lseg.refcount + 1 } hsegs rfl rfl (Nat.succ_pos _) ?_
    (fun i hi => count_cons_of_ne (Ne.symm hi)) rfl rfl
  show lseg.refcount + 1 = lseg.valid.toNat + lseg.layoutcommit.toNat + (lseg.id :: callers).count lseg.id
  rw [count_cons_self, h.count lseg (by simp [hsegs])]
  omega

theorem Counted.insert (hsegs : lo.segs = before ++ after) (hid : lseg.id = next)
    (hcount : lseg.refcount = lseg.valid.toNat + lseg.layoutcommit.toNat + 1) : Counted (next :: callers) hdr (next + 1)
      { lo with segs := before ++ lseg :: after, refcount := lo.refcount + 1 } := by
  have hfresh : callers.count next = 0 := by
    refine count_eq_zero.mpr fun hmem => ?_
    exact absurd (h.lt_next (h.linked next hmem)) (Nat.lt_irrefl _)
  have hmem : ∀ l ∈ before ++ lseg :: after, l = lseg ∨ (l ∈ lo.segs ∧ l.id ≠ next) := by
    intro l hl
    rw [perm_middle.mem_iff, mem_cons, ← hsegs] at hl
    rcases hl with rfl | hl
    · exact .inl rfl
    · exact .inr ⟨hl, (h.lt_next (mem_map_of_mem hl)).ne⟩
  refine ⟨fun l hl => ?_, fun l hl => ?_, ?_, ?_, fun i hi => ?_⟩
  · rcases hmem l hl with rfl | ⟨hl, hne⟩
    · rw [hid, count_cons_self, hfresh]
      exact hcount
    · rw [count_cons_of_ne (Ne.symm hne)]
      exact h.count l hl
  · rcases hmem l hl with rfl | ⟨hl, -⟩
    · omega
    · exact h.pos l hl
  · have hperm : (lo.unlinked ++ (before ++ lseg :: after).map (·.id)).Perm (next :: (lo.unlinked ++ lo.segs.map (·.id))) := by
      rw [hsegs, map_append, map_cons, map_append, hid, ← append_assoc, ← append_assoc]
      exact perm_middle
    refine hperm.trans ((h.once.cons next).trans ?_)
    rw [range_succ]
    exact (perm_append_singleton next _).symm
  · have hlen := h.header
    rw [hsegs] at hlen
    simp only [length_append, length_cons] at hlen ⊢
    omega
  · rcases mem_cons.mp hi with rfl | hi
    · simp [hid]
    · have hlinked := h.linked i hi
      rw [hsegs] at hlinked
      simp only [map_append, map_cons, mem_append, mem_cons] at hlinked ⊢
      tauto

omit h

/-- A new segment comes with its references. -/
theorem counted_layoutProcess (ld : RefDriver) (h : Counted callers hdr next lo) (res : LayoutgetRes) :
    let r := lo.pnfsLayoutProcess ld.toLayoutDriver res next
    (r.1 = 0 → Counted (next :: callers) hdr (next + 1) r.2) ∧ (r.1 ≠ 0 → Counted callers hdr next r.2) := by
  intro r
  rcases @layoutProcess_cases _ False True lo ld.toLayoutDriver res next (sound_true lo) with
    ⟨hne, hedits⟩ | ⟨-, -, updateBarrier, hr⟩
  · exact ⟨fun h0 => absurd h0 hne, fun _ => h.edits hedits⟩
  rw [show r = _ from hr]
  refine ⟨fun _ => ?_, fun hne => absurd rfl hne⟩
  have hset : Edits _ False True lo (lo.pnfsSetLayoutStateid res.stateid updateBarrier) :=
    (edits_start lo).setLayoutStateid trivial updateBarrier
  obtain ⟨lo₁, _, _, l, hedits, hsegs, ⟨hid, hcount⟩, heq⟩ := edits_genericLayoutInsertLseg
    (P := fun l => l.id = next ∧ l.refcount = l.valid.toNat + l.layoutcommit.toNat + 1) ld.toLayoutDriver
    (fun l old merged hl hmerge => by
      obtain ⟨hid, href, hvalid, hcommit⟩ := ld.merge_refs _ _ _ hmerge
      rw [hid, href, hvalid, hcommit]
      exact hl) _
    { pnfsInitLseg res.range res.stateid next with refcount := 2, roc := res.returnOnClose } _ [] hset rfl ⟨rfl, rfl⟩
  have hinstall : lo.installLseg ld.toLayoutDriver res updateBarrier next = _ := heq
  rw [hinstall]
  exact (h.edits hedits).insert hsegs hid hcount

/-! ### LAYOUTCOMMIT -/

theorem count_map_filter {α β : Type} [DecidableEq β] {f : α → β} {p : α → Bool} {x : α} :
    ∀ {xs : List α}, (xs.map f).Nodup → x ∈ xs → ((xs.filter p).map f).count (f x) = (p x).toNat
  | [], _, hx => absurd hx not_mem_nil
  | y :: ys, hnodup, hx => by
    rw [map_cons, nodup_cons] at hnodup
    have hsub : ∀ {z}, z ∈ (ys.filter p).map f → z ∈ ys.map f := fun hz => (filter_sublist.map f).subset hz
    rcases mem_cons.mp hx with rfl | hx
    · have hzero : ((ys.filter p).map f).count (f x) = 0 := count_eq_zero.mpr fun h => hnodup.1 (hsub h)
      cases hp : p x <;> simp [hp, hzero]
    · have hne : f y ≠ f x := fun heq => hnodup.1 (heq ▸ mem_map_of_mem hx)
      rw [← count_map_filter hnodup.2 hx]
      cases hp : p y <;> simp [hp, hne]

theorem counted_listWriteLseg (h : Counted callers hdr next lo) :
    Counted (lo.pnfsListWriteLseg.1 ++ callers) hdr next lo.pnfsListWriteLseg.2 := by
  have hids : lo.pnfsListWriteLseg.2.segs.map (·.id) = lo.segs.map (·.id) := by simp [pnfsListWriteLseg]
  refine ⟨fun l hl => ?_, fun l hl => ?_, by rw [hids]; exact h.once, ?_, fun i hi => ?_⟩
  · obtain ⟨l₀, hl₀, rfl⟩ := mem_map.mp hl
    have htaken : lo.pnfsListWriteLseg.1.count l₀.id = (writesBack l₀).toNat := by
      unfold pnfsListWriteLseg
      rw [count_reverse]
      exact count_map_filter h.nodup hl₀
    rw [count_append, htaken]
    have hcount := h.count l₀ hl₀
    unfold writesBack
    cases hc : l₀.layoutcommit with
    | false => simpa [hc] using hcount
    | true =>
      simp only [hc, toNat_true] at hcount
      by_cases hrw : l₀.range.iomode = Iomode.rw
      · simp only [hrw, decide_true, Bool.and_true, ne_eq, not_true_eq_false, decide_false, Bool.and_false,
          toNat_false, toNat_true]
        omega
      · simp only [hrw, decide_false, Bool.false_and, ne_eq, not_false_eq_true, decide_true, Bool.and_self,
          toNat_false, toNat_true]
        omega
  · obtain ⟨l₀, hl₀, rfl⟩ := mem_map.mp hl
    exact h.pos l₀ hl₀
  · have hlen := h.header
    simpa [pnfsListWriteLseg] using hlen
  · rw [hids]
    rcases mem_append.mp hi with hi | hi
    · exact (filter_sublist.map _).subset (mem_reverse.mp hi)
    · exact h.linked i hi

theorem writesBack_iff {l : Lseg} : writesBack l = true ↔ l.range.iomode = Iomode.rw ∧ l.layoutcommit = true := by
  unfold writesBack
  simp

end LayoutHdr

namespace CommitInode
open LayoutHdr
variable {st : CommitInode} {env : LayoutcommitEnv} {callers : List Nat} {hdr next : Nat}

theorem counted_layoutcommitRelease {data : LayoutcommitData} (h : Counted (data.lsegs ++ callers) hdr next st.lo) :
    Counted callers hdr next (st.nfs4LayoutcommitRelease data).lo := counted_foldl_putLseg data.lsegs st.lo h

section
variable (h : Counted callers hdr next st.lo)
include h

theorem counted_layoutcommitInode
    (hputs : st.TakesOver env → PrepareFails env → ∀ l ∈ st.lo.segs, l.range.iomode = Iomode.rw → l.layoutcommit = false) :
    let r := st.mypnfsLayoutcommitInode env
    Counted ((r.2.sent.toList.flatMap (·.lsegs)) ++ callers) hdr next r.1.lo := by
  intro r
  by_cases htakes : st.TakesOver env
  · have hino : Counted callers hdr next { st.lo with inoLayoutcommit := false } := h.same rfl rfl rfl
    have htaken : Counted (st.takenOver.1 ++ callers) hdr next st.takenOver.2 := counted_listWriteLseg hino
    by_cases hprep : PrepareFails env
    · obtain ⟨hr, hlo, -⟩ := mypnfsLayoutcommitInode_of_prepareFails htakes hprep
      have hempty : st.takenOver.1 = [] := by
        have hnone : st.lo.segs.filter writesBack = [] := by
          rw [filter_eq_nil_iff]
          intro l hl hw
          obtain ⟨hrw, hc⟩ := writesBack_iff.mp hw
          rw [hputs htakes hprep l hl hrw] at hc
          cases hc
        show ((st.lo.segs.filter writesBack).map _).reverse = []
        rw [hnone]
        rfl
      rw [hempty] at htaken
      rw [show r.2 = _ from hr, show r.1.lo = _ from hlo]
      exact htaken.same rfl rfl rfl
    · have hprep' : ¬env.prepareLayoutcommit.getD 0 ≠ 0 := hprep
      have hr : r = _ := layoutcommitInode_of_takesOver htakes
      simp only [layoutcommitTaken, if_neg hprep', nfs4ProcLayoutcommit] at hr
      split at hr
      · rw [hr]
        exact counted_layoutcommitRelease htaken
      split at hr
      · rw [hr]
        exact counted_layoutcommitRelease htaken
      · rw [hr]
        simpa using htaken
  · obtain ⟨hlo, -, hsent⟩ := layoutcommitInode_of_not_takesOver htakes
    rw [show r.1.lo = _ from hlo, show r.2.sent = _ from hsent]
    exact h

theorem not_counted_of_prepareFails (htakes : st.TakesOver env)
    (hprep : PrepareFails env) {l : Lseg} (hl : l ∈ st.lo.segs) (hrw : l.range.iomode = Iomode.rw)
    (hcommit : l.layoutcommit) : let lo := (st.mypnfsLayoutcommitInode env).1.lo
    (∃ l' ∈ lo.segs, l'.refcount ≠ l'.valid.toNat + l'.layoutcommit.toNat + callers.count l'.id) ∧
    lo.segs.map (·.id) = st.lo.segs.map (·.id) := by
  obtain ⟨-, hlo, -⟩ := mypnfsLayoutcommitInode_of_prepareFails htakes hprep
  rw [hlo]
  refine ⟨⟨_, mem_map_of_mem hl, ?_⟩, by simp [takenOver, pnfsListWriteLseg]⟩
  have hcount := h.count l hl
  simp only [hrw, hcommit, toNat_true, ne_eq, not_true_eq_false, decide_false, Bool.and_false, toNat_false] at hcount ⊢
  omega

theorem counted_setLayoutcommit (i : Nat) (endPos : Int) :
    Counted callers hdr next (st.mypnfsSetLayoutcommit i endPos).lo := by
  unfold mypnfsSetLayoutcommit
  dsimp only
  by_cases hi : i < st.lo.segs.length
  · have hsegs : st.lo.segs = st.lo.segs.take i ++ st.lo.segs[i] :: st.lo.segs.drop (i + 1) := by
      rw [← drop_eq_getElem_cons hi, take_append_drop]
    have hmem : st.lo.segs[i] ∈ st.lo.segs := getElem_mem hi
    rw [modify_eq_take_cons_drop hi]
    split
    next hflag => exact h.set _ hsegs rfl rfl (h.pos _ hmem) (h.count _ hmem) (fun _ _ => rfl) rfl rfl
    next hflag =>
      refine h.set _ hsegs rfl rfl (Nat.succ_pos _) ?_ (fun _ _ => rfl) rfl rfl
      have hcount := h.count _ hmem
      rw [eq_false_iff.mpr hflag] at hcount
      simp only [toNat_true, toNat_false] at hcount ⊢
      omega
  · rw [modify_eq_self (by omega)]
    exact h.same rfl rfl rfl

end

end CommitInode

/-! ### Runs -/

namespace LayoutRefs
open LayoutHdr CommitInode
variable {ld : RefDriver} {s t : LayoutRefs} {e : RefEvent}

def hdrRefs (s : LayoutRefs) : Nat := s.roFailed.toNat + s.rwFailed.toNat + s.hdrHeld

/-- Every segment that was ever inserted is linked, with a reference, or was unlinked, and that once. -/
structure Accounted (s : LayoutRefs) : Prop where
  count : ∀ l ∈ s.lo.segs, l.refcount = l.valid.toNat + l.layoutcommit.toNat + s.callers.count l.id
  pos : ∀ l ∈ s.lo.segs, 0 < l.refcount
  once : (s.lo.unlinked ++ s.lo.segs.map (·.id)).Perm (range s.next)
  header : s.lo.refcount = s.lo.segs.length + s.roFailed.toNat + s.rwFailed.toNat + s.hdrHeld

def Linked (s : LayoutRefs) : Prop := ∀ i ∈ s.callers, i ∈ s.lo.segs.map (·.id)

theorem counted_iff : Counted s.callers s.hdrRefs s.next s.lo ↔ s.Accounted ∧ s.Linked := by
  constructor
  · intro h
    exact ⟨⟨h.count, h.pos, h.once, by rw [h.header, hdrRefs]; omega⟩, h.linked⟩
  · rintro ⟨h, hlinked⟩
    exact ⟨h.count, h.pos, h.once, by rw [h.header, hdrRefs]; omega, hlinked⟩

/-- The step is not a LAYOUTCOMMIT that fails to be prepared with flagged segments taken over. -/
def Puts (s : LayoutRefs) : RefEvent → Prop
  | .layoutcommit env => s.inode.TakesOver env → PrepareFails env →
    ∀ l ∈ s.lo.segs, l.range.iomode = Iomode.rw → l.layoutcommit = false
  | _ => True

theorem Counted.hdr {callers : List Nat} {hdr hdr' next refcount : Nat} {lo : LayoutHdr}
    (h : Counted callers hdr next lo) (href : refcount + hdr = lo.refcount + hdr') :
    Counted callers hdr' next { lo with refcount } :=
  ⟨h.count, h.pos, h.once, by have := h.header; show refcount = lo.segs.length + hdr'; omega, h.linked⟩

section
variable (h : Counted s.callers s.hdrRefs s.next s.lo)
include h

theorem counted_layoutSetFailBit (iomode : U32) : let t := s.pnfsLayoutSetFailBit iomode
    Counted t.callers t.hdrRefs t.next t.lo := by
  unfold pnfsLayoutSetFailBit
  split
  all_goals
    split
    · exact h
    next hbit =>
      refine Counted.hdr h ?_
      simp [hdrRefs, withLo, eq_false_iff.mpr hbit]
      omega

theorem counted_layoutClearFailBit (iomode : U32) : let t := s.pnfsLayoutClearFailBit iomode
    Counted t.callers t.hdrRefs t.next t.lo := by
  have hheader := h.header
  unfold pnfsLayoutClearFailBit
  split
  all_goals
    split
    next hbit =>
      refine Counted.hdr h ?_
      simp only [hdrRefs, withLo, hbit, toNat_true, toNat_false] at hheader ⊢
      omega
    · exact h

theorem counted_get {lseg : Lseg} {i : Nat} (hget : s.lo.segs[i]? = some lseg) :
    Counted (lseg.id :: s.callers) s.hdrRefs s.next (s.lo.pnfsGetLseg (s.lo.segs.take i) lseg (s.lo.segs.drop (i + 1))) := by
  obtain ⟨hi, rfl⟩ := List.getElem?_eq_some_iff.mp hget
  exact counted_getLseg h (by rw [← drop_eq_getElem_cons hi, take_append_drop])

end

theorem counted_apply (hputs : s.Puts e) (h : Counted s.callers s.hdrRefs s.next s.lo) (hs : s.apply ld e = some t) :
    Counted t.callers t.hdrRefs t.next t.lo := by
  cases e with
  | layoutProcess res =>
    obtain ⟨hok, hfail⟩ := counted_layoutProcess ld h res
    simp only [apply, Option.some.injEq] at hs
    subst hs
    split
    next h0 => exact hok h0
    next hne => exact hfail hne
  | findLseg range strictIomode =>
    simp only [apply, pnfsFindLseg] at hs
    split at hs
    next i lo hfind =>
      obtain ⟨lseg, hget, rfl⟩ := map_eq_some_iff.mp hs
      have hgot := counted_get h hget
      split at hfind
      next j hj =>
        obtain ⟨hi, hlo⟩ := Prod.mk.inj hfind
        obtain rfl := some.inj hi
        have hon : s.lo.onLseg j s.lo.pnfsGetLseg = some _ := congrArg (Option.map _) hget
        rw [hon, getD_some] at hlo
        rw [← hlo]
        exact hgot
      · cases hfind
    · exact some.inj hs ▸ h
  | getLseg i =>
    obtain ⟨lseg, hget, rfl⟩ := map_eq_some_iff.mp hs
    exact counted_get h hget
  | putLseg id =>
    simp only [apply] at hs
    obtain ⟨hheld, rfl⟩ := of_guard_some hs
    refine counted_mypnfsPutLseg (h.perm ?_)
    exact (perm_cons_erase hheld).append_right _
  | setLayoutcommit i endPos => exact some.inj hs ▸ counted_setLayoutcommit h i endPos
  | clearLayoutcommit => exact some.inj hs ▸ h.edits (edits_start _).clearLayoutcommit
  | layoutcommit env =>
    obtain ⟨-, rfl⟩ := of_unless_some hs
    refine (counted_layoutcommitInode h hputs).perm ?_
    show (_ ++ (s.held ++ s.commits.flatMap _)).Perm (s.held ++ (s.commits ++ _).flatMap _)
    rw [flatMap_append, ← append_assoc s.held]
    exact perm_append_comm
  | layoutcommitRelease k =>
    obtain ⟨data, hget, rfl⟩ := map_eq_some_iff.mp hs
    refine counted_layoutcommitRelease (h.perm ?_)
    obtain ⟨hk, rfl⟩ := List.getElem?_eq_some_iff.mp hget
    have hperm := ((getElem_cons_eraseIdx_perm hk).flatMap_right (·.lsegs)).symm
    refine (hperm.append_left s.held).trans ?_
    exact perm_append_comm_assoc _ _ _
  | markMatchingLsegsInvalid range seq => exact some.inj hs ▸ h.edits ((edits_start _).markMatchingLsegsInvalid range seq)
  | markMatchingLsegsReturn toReturn range seq =>
    exact some.inj hs ▸ h.edits ((edits_start _).markMatchingLsegsReturn toReturn range fun _ => .inr trivial)
  | markLayoutStateidInvalid => exact some.inj hs ▸ h.edits ((edits_start _).markLayoutStateidInvalid fun _ => trivial)
  | layoutrecall args => exact some.inj hs ▸ h.edits ((edits_start _).fileDraining trivial)
  | layoutreturnFreeLsegs args stateid =>
    exact some.inj hs ▸ h.edits ((edits_start _).layoutreturnFreeLsegs args (fun _ _ => trivial) fun _ _ _ => trivial)
  | roc skipRead => exact some.inj hs ▸ h.edits ((edits_start _).roc skipRead)
  | getLayoutHdr =>
    cases hs
    refine Counted.hdr h ?_
    simp only [hdrRefs, withLo]
    omega
  | putLayoutHdr =>
    obtain ⟨hne, rfl⟩ := of_unless_some hs
    refine Counted.hdr h ?_
    have hheader := h.header
    simp only [hdrRefs, withLo] at hheader ⊢
    omega
  | layoutSetFailBit iomode => exact some.inj hs ▸ counted_layoutSetFailBit h iomode
  | layoutClearFailBit iomode => exact some.inj hs ▸ counted_layoutClearFailBit h iomode
  | layoutIoSetFailed iomode =>
    cases hs
    exact (counted_layoutSetFailBit h iomode).edits ((edits_start _).markMatchingLsegsReturn _ _ fun _ => .inl rfl)

theorem accounted_step (hlinked : s.Linked) (h : s.Accounted) (hs : step ld s e = some t) :
    t.Linked ∧ (t.Accounted ↔ s.Puts e) := by
  have hcnt : Counted s.callers s.hdrRefs s.next s.lo := counted_iff.mpr ⟨h, hlinked⟩
  unfold step at hs
  split at hs
  · cases hs
  by_cases hputs : s.Puts e
  · obtain ⟨h', hlinked'⟩ := counted_iff.mp (counted_apply hputs hcnt hs)
    exact ⟨hlinked', iff_of_true h' hputs⟩
  · cases e with
    | layoutcommit env =>
      simp only [Puts, not_forall, Bool.not_eq_false] at hputs
      obtain ⟨htakes, hprep, l, hl, hrw, hcommit⟩ := hputs
      obtain ⟨⟨l', hl', hne⟩, hids⟩ := not_counted_of_prepareFails hcnt htakes hprep hl hrw hcommit
      obtain ⟨hsent, -⟩ := mypnfsLayoutcommitInode_of_prepareFails htakes hprep
      simp only [apply] at hs
      obtain ⟨-, rfl⟩ := of_unless_some hs
      have hcallers : s.commits ++ (s.inode.mypnfsLayoutcommitInode env).2.sent.toList = s.commits := by
        rw [hsent]
        exact append_nil _
      refine ⟨?_, iff_of_false (fun h' => ?_) fun h' => ?_⟩
      · intro i hi
        simp only [callers, hcallers] at hi
        show i ∈ (s.inode.mypnfsLayoutcommitInode env).1.lo.segs.map (·.id)
        rw [hids]
        exact hlinked i hi
      · have hcount := h'.count l' hl'
        simp only [callers, hcallers] at hcount
        exact hne hcount
      · rw [h' htakes hprep l hl hrw] at hcommit
        cases hcommit
    | _ => exact absurd trivial hputs

/-- Every reference is accounted for all along just if no LAYOUTCOMMIT of flagged segments fails to be prepared. -/
theorem accounted_iff (ld : RefDriver) (events : List RefEvent) (s : LayoutRefs)
    (hrun : exec (step ld) {} events = some s) :
    Always (step ld) Accounted {} events ↔ Along (step ld) Puts {} events := by
  refine always_iff_along (I := Linked) (fun s e t hlinked h hs => accounted_step hlinked h hs) ?_ ?_ hrun
  · intro i hi
    cases hi
  · exact ⟨by simp [lo], by simp [lo], by simp [lo], rfl⟩

instance (s : LayoutRefs) (e : RefEvent) : Decidable (s.Puts e) :=
  match e with
  | .layoutcommit env =>
    have : Decidable (s.inode.TakesOver env) := inferInstanceAs (Decidable (_ ∧ (_ → _ ∧ _) ∧ _))
    have : Decidable (PrepareFails env) := inferInstanceAs (Decidable (_ ≠ _))
    inferInstanceAs (Decidable (_ → _ → _))
  | .layoutProcess _ | .findLseg _ _ | .getLseg _ | .putLseg _ | .setLayoutcommit _ _ | .clearLayoutcommit
  | .layoutcommitRelease _ | .markMatchingLsegsInvalid _ _ | .markMatchingLsegsReturn _ _ _ | .markLayoutStateidInvalid
  | .layoutrecall _ | .layoutreturnFreeLsegs _ _ | .roc _ | .getLayoutHdr | .putLayoutHdr | .layoutSetFailBit _
  | .layoutClearFailBit _ | .layoutIoSetFailed _ => isTrue trivial

def writeThrough : List RefEvent :=
  [.layoutProcess ⟨{ iomode := Iomode.rw }, ⟨.layout, 1, 5⟩, false⟩, .setLayoutcommit 0 4096]

def commitAndRecall : List RefEvent :=
  writeThrough ++ [.layoutcommit {}, .layoutcommitRelease 0, .putLseg 0, .markMatchingLsegsInvalid none 0]

theorem accounted_iff_commitAndRecall :
    ∃ s, exec (step {}) {} commitAndRecall = some s ∧ s.lo.unlinked = [0] ∧ s.Accounted := by
  refine exists_exec (P := fun s => s.lo.unlinked = [0]) (by decide +kernel) fun s hrun heq => ?_
  have halong : Along (step {}) Puts {} commitAndRecall := by decide +kernel
  exact ⟨heq, (accounted_iff {} commitAndRecall s hrun).mpr halong commitAndRecall s prefix_rfl hrun⟩

/-- The driver cannot prepare the LAYOUTCOMMIT: the segment has three references, two of them accounted for. -/
theorem accounted_not_after_prepare_fails : ∃ s, exec (step {}) {}
        (writeThrough ++ [.layoutcommit { prepareLayoutcommit := some (negErrno .enomem) }]) = some s ∧
      s.lo.segs.map (fun l => (l.refcount, l.valid, l.layoutcommit)) = [(3, true, false)] ∧ s.callers = [0] ∧
      ¬s.Accounted := by
  refine exists_exec (P := fun s => s.lo.segs.map (fun l => (l.refcount, l.valid, l.layoutcommit)) = [(3, true, false)] ∧
    s.callers = [0] ∧ ¬∀ l ∈ s.lo.segs, l.refcount = l.valid.toNat + l.layoutcommit.toNat + s.callers.count l.id)
    (by decide +kernel) fun s _ h => ?_
  exact ⟨h.1, h.2.1, fun hacc => h.2.2 hacc.count⟩

end LayoutRefs

end Mynfs
