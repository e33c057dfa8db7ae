import Mynfs.Theorems.LayoutEdits

/-! Steps invent no valid segment but with given sequence ids, and the barrier moves forward (`Steady`). -/

namespace Mynfs

open List Option Machine
open Serial (newer not_newer_iff_rank rank)

/-- A sequence id as the server uses them: not 0, and within half the range from `base` on. -/
def SeqidIn (base seqid : U32) : Prop := seqid ≠ 0 ∧ Serial.InWindow base seqid

instance (base seqid : U32) : Decidable (SeqidIn base seqid) := inferInstanceAs (Decidable (_ ∧ _))

namespace LayoutHdr

def Covers (lo : LayoutHdr) (l : Lseg) : Prop :=
  l.valid → ∃ l₀ ∈ lo.segs, l₀.valid ∧ l₀.range = l.range ∧ l₀.seq = l.seq

/-- No valid segment is invented. -/
structure Steady (base : U32) (new : U32 → Prop) (lo lo' : LayoutHdr) : Prop where
  fresh : lo.fresh ≤ lo'.fresh
  segs : lo'.fresh = lo.fresh → ∀ l ∈ lo'.segs, lo.Covers l ∨ new l.seq
  valid : lo'.fresh = lo.fresh → lo'.invalidStid = false → lo.invalidStid = false
  rank : lo'.fresh = lo.fresh → lo'.invalidStid = false → Serial.rank base lo.barrier ≤ Serial.rank base lo'.barrier

variable {base : U32} {new : U32 → Prop} {loose inv : Prop} {lo lo' lo'' : LayoutHdr} {before after : List Lseg} {lseg : Lseg}

theorem covers_of_mem {l : Lseg} (h : l ∈ lo.segs) : lo.Covers l := fun hv => ⟨l, h, hv, rfl, rfl⟩

theorem covers_of_like {ls : List Lseg} (hsegs : lo.segs = before ++ lseg :: after)
    (hls : ∀ l ∈ ls, (l.valid → lseg.valid) ∧ l.range = lseg.range ∧ l.seq = lseg.seq) :
    ∀ l ∈ before ++ ls ++ after, lo.Covers l := by
  intro l hl
  rw [append_assoc, mem_append, mem_append] at hl
  rcases hl with hl | hl | hl
  · exact covers_of_mem (hsegs ▸ mem_append_left _ hl)
  · obtain ⟨hvalid, hrange, hseq⟩ := hls l hl
    exact fun hv => ⟨lseg, hsegs ▸ mem_append_right _ mem_cons_self, hvalid hv, hrange.symm, hseq.symm⟩
  · exact covers_of_mem (hsegs ▸ mem_append_right _ (mem_cons_of_mem _ hl))

theorem Steady.trans (h₁ : Steady base new lo lo') (h₂ : Steady base new lo' lo'') : Steady base new lo lo'' := by
  have hfresh : lo''.fresh = lo.fresh → lo''.fresh = lo'.fresh ∧ lo'.fresh = lo.fresh := fun h =>
    have := h₁.fresh
    have := h₂.fresh
    by omega
  refine ⟨h₁.fresh.trans h₂.fresh, fun hf l hl => ?_, fun hf hv => ?_, fun hf hv => ?_⟩
  · obtain ⟨hf₂, hf₁⟩ := hfresh hf
    rcases h₂.segs hf₂ l hl with hc | hn
    · by_cases hv : l.valid
      · obtain ⟨l₁, hl₁, hv₁, hrange, hseq⟩ := hc hv
        rcases h₁.segs hf₁ l₁ hl₁ with hc₁ | hn₁
        · obtain ⟨l₀, hl₀, hv₀, hrange₀, hseq₀⟩ := hc₁ hv₁
          exact .inl fun _ => ⟨l₀, hl₀, hv₀, hrange₀.trans hrange, hseq₀.trans hseq⟩
        · exact .inr (hseq ▸ hn₁)
      · exact .inl fun hv' => absurd hv' hv
    · exact .inr hn
  · exact h₁.valid (hfresh hf).2 (h₂.valid (hfresh hf).1 hv)
  · exact (h₁.rank (hfresh hf).2 (h₂.valid (hfresh hf).1 hv)).trans (h₂.rank (hfresh hf).1 hv)

theorem steady_of_same (hsegs : ∀ l ∈ lo'.segs, lo.Covers l ∨ new l.seq) (hfresh : lo'.fresh = lo.fresh)
    (hvalid : lo'.invalidStid = false → lo.invalidStid = false) (hbar : lo'.barrier = lo.barrier) : Steady base new lo lo' :=
  ⟨hfresh.ge, fun _ => hsegs, fun _ => hvalid, fun _ _ => hbar ▸ le_rfl⟩

theorem steady_of_fields (hsegs : lo'.segs = lo.segs) (hfresh : lo'.fresh = lo.fresh)
    (hvalid : lo'.invalidStid = false → lo.invalidStid = false) (hbar : lo'.barrier = lo.barrier) : Steady base new lo lo' :=
  steady_of_same (fun _ hl => .inl (covers_of_mem (hsegs ▸ hl))) hfresh hvalid hbar

theorem steady_of_fresh (h : lo.fresh < lo'.fresh) : Steady base new lo lo' :=
  ⟨h.le, fun hf => absurd hf h.ne', fun hf => absurd hf h.ne', fun hf => absurd hf h.ne'⟩

theorem rank_barrierUpdate {seq : U32} (hb : SeqidIn base lo.barrier) (hs : SeqidIn base seq) :
    rank base lo.barrier ≤ rank base (lo.pnfsBarrierUpdate seq).barrier ∧
    rank base seq ≤ rank base (lo.pnfsBarrierUpdate seq).barrier := by
  unfold pnfsBarrierUpdate
  split
  next hnew =>
    have hnewer : newer seq lo.barrier := (Bool.or_eq_true_iff.mp hnew).resolve_right (by simpa using hb.1)
    exact ⟨((Serial.newer_iff_rank (by decide) hs.2 hb.2).mp hnewer).le, le_rfl⟩
  next hnew =>
    have hold : newer seq lo.barrier = false := by
      rw [Bool.or_eq_true_iff, not_or] at hnew
      exact Bool.eq_false_iff.mpr hnew.1
    exact ⟨le_rfl, (not_newer_iff_rank (by decide) hs.2 hb.2).mp hold⟩

theorem Edit.steady (h : Edit (SeqidIn base) loose inv lo lo') (hs : lo.Sound (SeqidIn base)) : Steady base new lo lo' := by
  cases h with
  | fields | drain | stateid | returnSeq => exact steady_of_fields rfl rfl id rfl
  | invalidate => exact steady_of_fields rfl rfl nofun rfl
  | @barrier seq hseq =>
    obtain ⟨barrier, -, heq⟩ := barrier_barrierUpdate lo seq
    refine ⟨by rw [heq], fun _ l hl => .inl (covers_of_mem ?_), fun _ hv => ?_, fun _ hv => ?_⟩
    · rwa [heq] at hl
    · rwa [heq] at hv
    · have hv' : lo.invalidStid = false := by rwa [heq] at hv
      exact (rank_barrierUpdate (hs hv').barrier (hseq hv')).1
  | forget hbad =>
    exact ⟨le_rfl, fun _ l hl => .inl (covers_of_mem hl), fun _ => id, fun _ hv => absurd (hbad.symm.trans hv) (by decide)⟩
  | anew => exact steady_of_fresh (Nat.lt_succ_self _)
  | flags hsegs =>
    refine steady_of_same (fun l hl => .inl (covers_of_like hsegs ?_ l (append_cons .. ▸ hl))) rfl id rfl
    intro l hl
    obtain rfl := mem_singleton.mp hl
    exact ⟨id, rfl, rfl⟩
  | @put before after lseg valid layoutcommit roc layoutreturn hsegs hvalid _ =>
    obtain ⟨segs, _, _, _, _, hbad, hsegs', hlike, heq⟩ :=
      lsegDecAndRemoveZero_eq lo before { lseg with valid, layoutcommit, roc, layoutreturn } after
    rw [heq]
    refine steady_of_same (fun l hl => .inl (covers_of_like hsegs (fun l hl => ?_) l (hsegs' ▸ hl))) rfl (fun hv => ?_) rfl
    · obtain ⟨hv, hrange, hseq⟩ := hlike l hl
      exact ⟨fun h => hvalid (hv.symm.trans h), hrange, hseq⟩
    · exact Bool.eq_false_iff.mpr fun hi => by rw [hbad hi] at hv; cases hv
  | refs _ hsegs =>
    refine steady_of_same (fun l hl => .inl fun hv => ?_) rfl id rfl
    obtain ⟨l₀, hl₀, hvalid, hrange, hseq⟩ := hsegs l hl
    exact ⟨l₀, hl₀, hvalid.trans hv, hrange, hseq⟩

theorem Edits.steady (h : Edits (SeqidIn base) loose inv lo lo') (hs : lo.Sound (SeqidIn base)) : Steady base new lo lo' := by
  obtain ⟨hsteps, -⟩ := h
  suffices lo'.Sound (SeqidIn base) ∧ Steady base new lo lo' from this.2
  induction hsteps with
  | refl => exact ⟨hs, steady_of_fields rfl rfl id rfl⟩
  | tail _ hedit ih => exact ⟨hedit.sound ih.1, ih.2.trans (hedit.steady ih.1)⟩

/-! ### LAYOUTGET replies -/

/-- A LAYOUTGET reply with the sequence id `q` is not blocked. -/
def Brings (lo : LayoutHdr) (e : LayoutEvent) (q : U32) : Prop :=
  ∃ i res, e = .layoutgetReply i res ∧ q = res.stateid.seqid ∧ lo.invalidStid = false ∧
    lo.pnfsLayoutStateidBlocked res.stateid = false

theorem fresh_setLayoutStateid (hbad : lo.invalidStid) (stateid : Stateid) (updateBarrier : Bool) :
    (lo.pnfsSetLayoutStateid stateid updateBarrier).fresh = lo.fresh + 1 := by
  unfold pnfsSetLayoutStateid
  rw [if_pos (by simp [pnfsLayoutIsValid, hbad])]

theorem steady_layoutProcess (ld : LayoutDriver) (i : Nat) {res : LayoutgetRes} (hs : lo.Sound (SeqidIn base))
    (hres : SeqidIn base res.stateid.seqid) : (lo.pnfsLayoutProcess ld res).2.Sound (SeqidIn base) ∧
    Steady base (lo.Brings (.layoutgetReply i res)) lo (lo.pnfsLayoutProcess ld res).2 := by
  rcases @layoutProcess_cases _ True True lo ld res 0 hs with ⟨-, hedits⟩ | ⟨-, hblocked, updateBarrier, hr⟩
  · exact ⟨hedits.sound, hedits.steady hs⟩
  rw [hr]
  have hset : Edits (SeqidIn base) True True lo (lo.pnfsSetLayoutStateid res.stateid updateBarrier) :=
    (Edits.start hs).setLayoutStateid hres updateBarrier
  obtain ⟨lo₁, before, after, l, hedits, hsegs, hseq, heq⟩ := edits_genericLayoutInsertLseg (P := fun l => l.seq = res.stateid.seqid)
    ld (fun _ _ _ hl hmerge => (ld.merge_seq _ _ _ hmerge).trans hl) _
    { pnfsInitLseg res.range res.stateid with refcount := 2, roc := res.returnOnClose } _ []
    (.start hset.sound : Edits (SeqidIn base) True True _ _) rfl rfl
  have hinstall : lo.installLseg ld res updateBarrier =
      { lo₁ with segs := before ++ l :: after, refcount := lo₁.refcount + 1 } := heq
  rw [hinstall]
  refine ⟨fun hv => ⟨(hedits.sound hv).stateid, (hedits.sound hv).barrier, (hedits.sound hv).returnSeq⟩, ?_⟩
  cases hbad : lo.invalidStid with
  | true =>
    have hle := (hedits.steady hset.sound : Steady base (fun _ => False) _ _).fresh
    rw [fresh_setLayoutStateid hbad] at hle
    exact steady_of_fresh hle
  | false =>
    refine ((hset.steady hs).trans (hedits.steady hset.sound)).trans (steady_of_same (fun l' hl' => ?_) rfl id rfl)
    rcases mem_append.mp hl' with hl' | hl'
    · exact .inl (covers_of_mem (hsegs ▸ mem_append_left _ hl'))
    · rcases mem_cons.mp hl' with rfl | hl'
      · exact .inr ⟨i, res, rfl, hseq, hbad, hblocked hbad⟩
      · exact .inl (covers_of_mem (hsegs ▸ mem_append_right _ hl'))

end LayoutHdr

/-! ### Steps -/

def LayoutEvent.SeqidsIn (base : U32) : LayoutEvent → Prop
  | .layoutgetReply _ res => SeqidIn base res.stateid.seqid
  | .layoutrecall args => SeqidIn base args.stateid.seqid
  | .layoutreturnDone _ stateid => ∀ sid ∈ stateid, SeqidIn base sid.seqid
  | _ => True

instance (base : U32) : DecidablePred (LayoutEvent.SeqidsIn base) := fun e => by
  cases e <;> unfold LayoutEvent.SeqidsIn <;> infer_instance

namespace LayoutSys
open LayoutHdr

def ReturnsIn (base : U32) (s : LayoutSys) : Prop := ∀ r ∈ s.returns, SeqidIn base r.stateid.seqid

instance (base : U32) : DecidablePred (ReturnsIn base) := fun s => inferInstanceAs (Decidable (∀ r ∈ s.returns, _))

variable {base : U32} {ld : LayoutDriver} {s t : LayoutSys} {e : LayoutEvent} {lo lo' : LayoutHdr} {new : U32 → Prop}
  {args : CbLayoutrecallargs} {q : Prop} {stateid : Stateid}

theorem steady_calls {outstanding : Nat} {firstLayoutget drain : Bool} (hs : lo.Sound (SeqidIn base)) :
    Sound (SeqidIn base) { lo with outstanding, firstLayoutget, drain } ∧
    Steady base new lo { lo with outstanding, firstLayoutget, drain } :=
  ⟨fun hv => ⟨(hs hv).stateid, (hs hv).barrier, (hs hv).returnSeq⟩, steady_of_fields rfl rfl id rfl⟩

theorem steady_step (hs : s.lo.Sound (SeqidIn base)) (he : e.SeqidsIn base) (hreturns : s.ReturnsIn base)
    (h : s.step ld e = some t) : t.lo.Sound (SeqidIn base) ∧ Steady base (s.lo.Brings e) s.lo t.lo := by
  by_cases hget : e.IsLayoutget
  · cases e with
    | updateLayout =>
      obtain ⟨-, h⟩ := of_unless h
      split at h
      · obtain ⟨-, h⟩ := of_unless h
        cases h
        exact steady_calls hs
      · obtain ⟨-, h⟩ := of_unless h
        cases h
        exact steady_calls hs
    | beginFirst i =>
      obtain ⟨call, -, h⟩ := bind_eq_some_iff.mp h
      obtain ⟨-, rfl⟩ := of_unless_some h
      exact steady_calls hs
    | grabEmptyLayout =>
      obtain ⟨-, rfl⟩ := of_unless_some h
      exact steady_calls hs
    | layoutgetReply i res =>
      obtain ⟨call, -, -, rfl⟩ := of_bind_guard h
      exact steady_layoutProcess ld i hs he
    | layoutgetEnd i =>
      obtain ⟨call, -, -, rfl⟩ := of_bind_guard h
      exact steady_calls hs
    | clearFirstLayoutget i =>
      obtain ⟨call, -, -, rfl⟩ := of_bind_guard h
      exact steady_calls hs
    | _ => exact absurd hget id
  · have hseqids : e.Seqids (SeqidIn base) := by cases e <;> exact he
    obtain ⟨-, hedits⟩ := edits_step hs hseqids hreturns hget (fun _ => trivial) h
    exact ⟨hedits.sound, hedits.steady hs⟩

theorem sound_exec {evs : List LayoutEvent} (hevs : ∀ e ∈ evs, e.SeqidsIn base)
    (hreturns : Always (step ld) (ReturnsIn base) {} evs) (h : exec (step ld) {} evs = some s) :
    s.lo.Sound (SeqidIn base) :=
  exec_invariant_where (I := fun s => s.lo.Sound (SeqidIn base))
    (fun _ _ _ hr he hi hstep => (steady_step hi he hr hstep).1) hreturns hevs nofun h

/-! ### From a recall on -/

/-- What holds after a recall was accepted, where `q` tells that a LAYOUTGET reply had the stateid of the recall. -/
structure Fenced (base : U32) (args : CbLayoutrecallargs) (q : Prop) (lo : LayoutHdr) : Prop where
  barrier : lo.invalidStid = false → Serial.rank base args.stateid.seqid ≤ Serial.rank base lo.barrier
  segs : ∀ l ∈ lo.segs, l.valid → l.range.pnfsShouldFreeRange args.range →
    pnfsSeqidIsNewer l.seq args.stateid.seqid = false → l.seq = args.stateid.seqid ∧ q

theorem Fenced.steady (h : Fenced base args q lo) (hfresh : lo'.fresh = lo.fresh) (hsteady : Steady base new lo lo')
    (hnew : ∀ x, new x → pnfsSeqidIsNewer x args.stateid.seqid = false → x = args.stateid.seqid ∧ q) :
    Fenced base args q lo' := by
  refine ⟨fun hv => (h.barrier (hsteady.valid hfresh hv)).trans (hsteady.rank hfresh hv), fun l hl hv hrange hseq => ?_⟩
  rcases hsteady.segs hfresh l hl with hc | hn
  · obtain ⟨l₀, hl₀, hv₀, hrange₀, hseq₀⟩ := hc hv
    rw [← hseq₀] at hseq ⊢
    exact h.segs l₀ hl₀ hv₀ (hrange₀ ▸ hrange) hseq
  · exact hnew _ hn hseq

theorem Fenced.eq_of_not_blocked (h : Fenced base args q lo) (hs : lo.Sound (SeqidIn base))
    (hargs : SeqidIn base args.stateid.seqid) (hsid : SeqidIn base stateid.seqid)
    (hvalid : lo.invalidStid = false) (hblocked : lo.pnfsLayoutStateidBlocked stateid = false)
    (hnewer : pnfsSeqidIsNewer stateid.seqid args.stateid.seqid = false) : stateid.seqid = args.stateid.seqid := by
  have hbar := (hs hvalid).barrier
  have hb : newer lo.barrier stateid.seqid = false := by
    rw [pnfsLayoutStateidBlocked, decide_eq_true hbar.1, Bool.true_and] at hblocked
    exact hblocked
  have h₁ := (not_newer_iff_rank (by decide) hbar.2 hsid.2).mp hb
  have h₂ := (not_newer_iff_rank (by decide) hsid.2 hargs.2).mp hnewer
  exact Serial.rank_inj (le_antisymm h₂ ((h.barrier hvalid).trans h₁))

theorem accepts_valid (h : lo.accepts args) : lo.invalidStid = false := by
  have hcheck := of_decide_eq_true (Bool.and_eq_true_iff.mp h).1
  unfold pnfsCheckCallbackStateid at hcheck
  split at hcheck
  · cases hcheck
  next hvalid => simpa [pnfsLayoutIsValid] using hvalid

theorem rank_setLayoutStateid (hs : lo.Sound (SeqidIn base)) (hvalid : lo.invalidStid = false)
    (hsid : SeqidIn base stateid.seqid) : rank base stateid.seqid ≤ rank base (lo.pnfsSetLayoutStateid stateid true).barrier := by
  unfold pnfsSetLayoutStateid
  rw [if_neg (by simp [pnfsLayoutIsValid, hvalid])]
  refine (rank_barrierUpdate ?_ hsid).2
  split <;> exact (hs hvalid).barrier

theorem fenced_layoutrecall (hacc : lo.accepts args) (hargs : SeqidIn base args.stateid.seqid)
    (hs : lo.Sound (SeqidIn base)) (hfresh : (lo.initiateFileDraining args).2.fresh = lo.fresh) :
    Fenced base args q (lo.initiateFileDraining args).2 := by
  obtain ⟨hcheck, hbulk⟩ := Bool.and_eq_true_iff.mp hacc
  unfold initiateFileDraining at hfresh ⊢
  dsimp only at hfresh ⊢
  rw [if_neg (not_not.mpr (of_decide_eq_true hcheck)), if_neg (by simpa using hbulk)] at hfresh ⊢
  have hset : Edits (SeqidIn base) True True lo (lo.pnfsSetLayoutStateid args.stateid true) := (Edits.start hs).setLayoutStateid hargs true
  have hle := (hset.steady hs : Steady base (fun _ => False) _ _).fresh
  have hrank := rank_setLayoutStateid hs (accepts_valid hacc) hargs
  generalize lo.pnfsSetLayoutStateid args.stateid true = lo₁ at hset hle hrank hfresh ⊢
  have hmark : Steady base (fun _ => False) lo₁ (lo₁.pnfsMarkMatchingLsegsReturn false args.range args.stateid.seqid).2 :=
    ((.start hset.sound : Edits (SeqidIn base) True True _ _).markMatchingLsegsReturn _ _ fun _ => .inr hargs).steady hset.sound
  obtain ⟨hsegs, -⟩ := lo₁.pnfsMarkMatchingLsegsReturn_spec false args.range args.stateid.seqid
  generalize lo₁.pnfsMarkMatchingLsegsReturn false args.range args.stateid.seqid = r at hmark hsegs hfresh ⊢
  have hfresh' : r.2.fresh = lo₁.fresh := by
    have := hmark.fresh
    split at hfresh <;> dsimp only at hfresh <;> omega
  have hfenced : Fenced base args q r.2 := by
    refine ⟨fun hv => hrank.trans (hmark.rank hfresh' hv), fun l hl hv hrange hseq => ?_⟩
    rw [hsegs] at hl
    obtain ⟨l₀, -, hl⟩ := mem_flatMap.mp hl
    obtain ⟨hrange₀, hseq₀, -, hmatch, -⟩ := Lseg.of_mem_markedForReturn hl
    obtain ⟨hbad, -⟩ := hmatch (Lseg.pnfsMatchLsegRecall_iff.mpr ⟨.inr (hseq₀ ▸ hseq), hrange₀ ▸ hrange⟩)
    rw [hbad] at hv
    cases hv
  split
  · exact hfenced
  · exact ⟨hfenced.barrier, hfenced.segs⟩

/-- From a recall until a new stateid, its segments are valid only if they came with its stateid, in a later reply. -/
theorem recalled_segments_stay_invalid (ld : LayoutDriver) (base : U32) (pre post : List LayoutEvent)
    (args : CbLayoutrecallargs) (s₀ s : LayoutSys) (hpre : exec (step ld) {} pre = some s₀)
    (hacc : s₀.lo.accepts args) (hpost : exec (step ld) s₀ (.layoutrecall args :: post) = some s)
    (hevs : ∀ e ∈ pre ++ .layoutrecall args :: post, e.SeqidsIn base)
    (hreturns : Always (step ld) (ReturnsIn base) {} (pre ++ .layoutrecall args :: post))
    (hfresh : s.lo.fresh = s₀.lo.fresh) : ∀ l ∈ s.lo.segs, l.valid → l.range.pnfsShouldFreeRange args.range →
      pnfsSeqidIsNewer l.seq args.stateid.seqid = false → l.seq = args.stateid.seqid ∧
        ∃ i res, LayoutEvent.layoutgetReply i res ∈ post ∧ res.stateid.seqid = args.stateid.seqid := by
  obtain ⟨s₁, hrecall, hrun⟩ := exec_cons_iff.mp hpost
  have hargs : SeqidIn base args.stateid.seqid := hevs (.layoutrecall args) (mem_append_right _ mem_cons_self)
  have hs : s₀.lo.Sound (SeqidIn base) :=
    sound_exec (fun e he => hevs e (mem_append_left _ he)) (hreturns.prefix_of (prefix_append ..)) hpre
  have hlabels : ∀ e ∈ post, e.SeqidsIn base ∧ e ∈ post := fun e he =>
    ⟨hevs e (mem_append_right _ (mem_cons_of_mem _ he)), he⟩
  -- the count of stateids set anew never comes back to what it was at the recall
  have hinv : s.lo.Sound (SeqidIn base) ∧ s₀.lo.fresh ≤ s.lo.fresh ∧ (s.lo.fresh = s₀.lo.fresh → Fenced base args (∃ i res,
      LayoutEvent.layoutgetReply i res ∈ post ∧ res.stateid.seqid = args.stateid.seqid) s.lo) := by
    refine exec_invariant_where (I := fun s => s.lo.Sound (SeqidIn base) ∧ s₀.lo.fresh ≤ s.lo.fresh ∧
      (s.lo.fresh = s₀.lo.fresh → Fenced base args (∃ i res,
        LayoutEvent.layoutgetReply i res ∈ post ∧ res.stateid.seqid = args.stateid.seqid) s.lo))
      (fun u e t hr he hi hstep => ?_) ((hreturns.after hpre).tail hrecall) hlabels ?_ hrun
    · obtain ⟨hsound, hle, hfenced⟩ := hi
      obtain ⟨hsound', hsteady⟩ := steady_step hsound he.1 hr hstep
      have hle' := hsteady.fresh
      refine ⟨hsound', hle.trans hle', fun hf => ?_⟩
      have hold := hfenced (by omega)
      refine hold.steady (by omega) hsteady ?_
      rintro x ⟨i, res, rfl, rfl, hv, hb⟩ hnewer
      have heq := hold.eq_of_not_blocked hsound hargs he.1 hv hb hnewer
      exact ⟨heq, i, res, he.2, heq⟩
    · obtain ⟨hsound', hsteady⟩ := steady_step (e := .layoutrecall args) hs hargs (hreturns.after hpre).head hrecall
      cases hrecall
      exact ⟨hsound', hsteady.fresh, fun hf => fenced_layoutrecall hacc hargs hs hf⟩
  exact (hinv.2.2 hfresh).segs

/-- Two LAYOUTGETs are under way when the only segment is recalled: the older reply is dropped, the newer is not. -/
theorem recalled_segments_stay_invalid_two_gets :
    let range : LayoutRange := { iomode := Iomode.rw }
    let reply := fun i seqid => LayoutEvent.layoutgetReply i { range, stateid := ⟨.layout, seqid, 7⟩ }
    let pre := [.updateLayout, .beginFirst 0, reply 0 1, .layoutgetEnd 0, .clearFirstLayoutget 0, .updateLayout,
      .updateLayout]
    let args : CbLayoutrecallargs := { stateid := ⟨.layout, 2, 7⟩, range := { iomode := Iomode.any } }
    let s : LayoutSys :=
      { lo :=
          { refcount := 3, invalidStid := false, returnRequested := true, stateid := ⟨.layout, 3, 7⟩, barrier := 2
            returnSeq := 2, returnIomode := Iomode.any, outstanding := 2, fresh := 1
            segs := [{ range, seq := 1, valid := false, layoutreturn := true }, { range, seq := 3, refcount := 2 }] }
        gets := [⟨false, true, true⟩, ⟨false, true, true⟩] }
    exec (step {}) {} (pre ++ [.layoutrecall args, reply 0 1, reply 1 3]) = some s ∧
    ∀ l ∈ s.lo.segs, l.valid → l.range.pnfsShouldFreeRange args.range →
      pnfsSeqidIsNewer l.seq args.stateid.seqid = false → l.seq = args.stateid.seqid ∧
        ∃ i res, LayoutEvent.layoutgetReply i res ∈ [reply 0 1, reply 1 3] ∧ res.stateid.seqid = args.stateid.seqid := by
  intro range reply pre args s
  have hpre : exec (step {}) {} pre = some
      { lo :=
          { refcount := 2, invalidStid := false, stateid := ⟨.layout, 1, 7⟩, barrier := 1, outstanding := 2, fresh := 1
            segs := [{ range, seq := 1, refcount := 2 }] }
        gets := [⟨false, true, false⟩, ⟨false, true, false⟩] } := by decide
  exact ⟨by decide, recalled_segments_stay_invalid {} 1 pre [reply 0 1, reply 1 3] args _ s hpre (by decide) (by decide)
    (by decide) (by decide) rfl⟩

/-- A recalled segment becomes valid again: with the recall's own stateid; with an older one, after the stateid was
    given up and a stale reply has cleared the barrier; and after a LAYOUTRETURN reply with sequence id 0 has cleared
    it. -/
theorem recalled_segments_come_back :
    let reply := fun i seqid => LayoutEvent.layoutgetReply i
      { range := { iomode := Iomode.rw }, stateid := ⟨.layout, seqid, 7⟩ }
    let layoutrecall := fun seqid => LayoutEvent.layoutrecall
      { stateid := ⟨.layout, seqid, 7⟩, range := { iomode := Iomode.any } }
    let first := fun seqid =>
      [.updateLayout, .beginFirst 0, reply 0 seqid, .layoutgetEnd 0, .clearFirstLayoutget 0, .updateLayout]
    let valid := fun evs => (exec (step {}) {} evs).map fun s =>
      ((s.lo.segs.filter (·.valid)).map (·.seq), s.lo.stateid.other)
    valid (first 1 ++ [layoutrecall 2, reply 0 2]) = some ([2], 7) ∧
    valid (first 1 ++ [.updateLayout, layoutrecall 2, .markLayoutStateidInvalid, .grabEmptyLayout, reply 0 1, reply 1 1]) =
      some ([1], 7) ∧
    valid (first 0xfffffffe ++ [layoutrecall 0xffffffff, .putLseg 0, .beforePutLayoutHdr,
      .layoutreturnDone 0 (some ⟨.layout, 0, 7⟩), reply 0 0xfffffffe]) = some ([0xfffffffe], 7) := by
  decide

end LayoutSys

end Mynfs
