import Mynfs.Layout.Pageio

/-! I/O under a layout segment stays below its end, and behind its start if the first request of every list does. -/

namespace Mynfs

open List
open BitVec (le_def ofNat toNat_ofNat)

section
variable {shift : Nat} {req prev : NfsPage shift} {range : LayoutRange}

theorem endOffset_toNat_le (start len : U64) : (pnfsEndOffset start len).toNat ≤ start.toNat + len.toNat := by
  have hmax : nfs4MaxUint64.toNat = 2 ^ 64 - 1 := by decide
  have hle : start ≤ nfs4MaxUint64 := le_def.mpr (by omega)
  unfold pnfsEndOffset
  split
  next hover =>
    rw [le_def, BitVec.toNat_sub_of_le hle] at hover
    omega
  next hfits =>
    exact Nat.mod_le _ _

theorem toNat_reqStart_add {n : Nat} (h : req.reqStart.toNat + n < 2 ^ 64) :
    (ofNat 64 (req.reqOffset + n)).toNat = req.reqStart.toNat + n := by
  have hstart : req.reqStart.toNat = req.reqOffset % 2 ^ 64 := toNat_ofNat _ _
  rw [toNat_ofNat]
  omega

/-- A request inside a range. -/
structure Within (range : LayoutRange) (req : NfsPage shift) : Prop where
  start_le : range.offset ≤ req.reqStart
  end_le : req.reqStart.toNat + req.wbBytes ≤ (pnfsEndOffset range.offset range.length).toNat

theorem Within.covers (h : Within range req) {k : Nat} (hk : k < req.wbBytes) : range.Covers (ofNat 64 (req.reqOffset + k)) := by
  have hend := h.end_le
  have hlast := endOffset_toNat_le range.offset range.length
  have hstart := le_def.mp h.start_le
  have hoff : (ofNat 64 (req.reqOffset + k)).toNat = req.reqStart.toNat + k := toNat_reqStart_add (by omega)
  refine ⟨le_def.mpr ?_, .inr ?_⟩
  · omega
  · omega

theorem Within.start_of_contiguous (h : Within range prev) (hnext : req.reqOffset = prev.reqOffset + prev.wbBytes) :
    range.offset ≤ req.reqStart := by
  have hend := h.end_le
  have hstart := le_def.mp h.start_le
  have hoff : req.reqStart.toNat = prev.reqStart.toNat + prev.wbBytes := by
    rw [NfsPage.reqStart, hnext]
    exact toNat_reqStart_add (by omega)
  rw [le_def, hoff]
  omega

theorem doAddRequestTo_added (env : AddEnv) (desc : PgioDescriptor shift) (prev : Option (NfsPage shift))
    (req : NfsPage shift) : (doAddRequestTo env desc prev req).2.mirror.pgList = desc.mirror.pgList ∨
      (doAddRequestTo env desc prev req).2.mirror.pgList = desc.mirror.pgList ++ [req] ∧ req.wbBytes ≤ env.pgTest ∧
        ∀ last, prev = some last → req.reqOffset = last.reqOffset + last.wbBytes := by
  have hpos := req.bytes_pos
  unfold doAddRequestTo
  split
  · exact .inl rfl
  · dsimp only
    split
    · exact .inl rfl
    next hsize =>
      refine Or.inr ⟨rfl, ?_⟩
      rw [not_lt] at hsize
      cases prev with
      | none => exact ⟨hsize, nofun⟩
      | some last =>
        simp only [nfsCoalesceSize] at hsize
        split at hsize
        · omega
        · split at hsize
          · omega
          · split at hsize
            · omega
            next hnext =>
              refine ⟨hsize, fun other hother => ?_⟩
              cases hother
              by_contra hne
              simp [nfsPageIsContiguous, hne] at hnext

theorem pageioDoAddRequest_added (env : AddEnv) (desc : PgioDescriptor shift) (req : NfsPage shift) :
    (nfsPageioDoAddRequest env desc req).2.mirror.pgList = desc.mirror.pgList ∨
      (nfsPageioDoAddRequest env desc req).2.mirror.pgList = desc.mirror.pgList ++ [req] ∧ req.wbBytes ≤ env.pgTest ∧
        ∀ prev, desc.mirror.pgList.getLast? = some prev → req.reqOffset = prev.reqOffset + prev.wbBytes := by
  unfold nfsPageioDoAddRequest
  cases hlast : desc.mirror.pgList.getLast? with
  | some prev =>
    rcases doAddRequestTo_added env desc (some prev) req with h | ⟨h, htest, hnext⟩
    · exact .inl h
    · refine Or.inr ⟨h, htest, fun other hother => ?_⟩
      cases hother
      exact hnext prev rfl
  | none =>
    dsimp only
    generalize hinit : (if env.initError < 0 then { desc with pgError := env.initError } else desc) = d
    have hlist : d.mirror.pgList = desc.mirror.pgList := by
      rw [← hinit]
      split <;> rfl
    split
    · exact .inl hlist
    · rcases doAddRequestTo_added env { d with mirror := { d.mirror with
        pgBase := req.wbPgbase, pgCount := 0, pgRecoalesce := false } } none req with h | ⟨h, htest, -⟩
      · exact .inl (h.trans hlist)
      · exact .inr ⟨h.trans (congrArg (· ++ [req]) hlist), htest, nofun⟩

theorem end_le_of_pgTest {mirror : PgioMirror shift} {lseg : Lseg}
    (h : req.wbBytes ≤ mypnfsGenericPgTest mirror (some lseg) req) :
    req.reqStart.toNat + req.wbBytes ≤ (pnfsEndOffset lseg.range.offset lseg.range.length).toNat := by
  have hpos := req.bytes_pos
  simp only [mypnfsGenericPgTest] at h
  split at h
  · omega
  · split at h
    · omega
    next hlt =>
      rw [BitVec.not_le, BitVec.lt_def] at hlt
      have hleft := BitVec.toNat_sub_of_le (le_def.mpr hlt.le)
      split at h
      next hless =>
        omega
      next hmore =>
        omega

namespace PnfsDescriptor
variable {s t : PnfsDescriptor shift}

/-- Those of the list in the attached segment, those that were sent in the one they were sent under. -/
structure Confined (s : PnfsDescriptor shift) : Prop where
  list : ∀ lseg, s.pgLseg = some lseg → ∀ req ∈ s.desc.mirror.pgList, Within lseg.range req
  sent : ∀ io ∈ s.sent, ∀ req ∈ io.2, Within io.1 req

/-- A first request does not start before the segment that it finds or keeps. -/
def startsInside (s : PnfsDescriptor shift) : PnfsEvent shift → Bool
  | .addRequest env req =>
    !s.desc.mirror.pgList.isEmpty || (s.pgInit env req).1.pgLseg.all fun lseg => decide (lseg.range.offset ≤ req.reqStart)
  | _ => true

theorem pgInit_frame (s : PnfsDescriptor shift) (env : PnfsAddEnv) (req : NfsPage shift) :
    (s.pgInit env req).1.desc = s.desc ∧ (s.pgInit env req).1.sent = s.sent := by
  unfold pgInit
  split
  · exact ⟨rfl, rfl⟩
  · split
    · exact ⟨rfl, rfl⟩
    · split <;> exact ⟨rfl, rfl⟩

namespace Confined

theorem of_nil (hlist : s.desc.mirror.pgList = []) (hsent : ∀ io ∈ s.sent, ∀ req ∈ io.2, Within io.1 req) : Confined s := by
  refine ⟨fun lseg _ req hreq => ?_, hsent⟩
  rw [hlist] at hreq
  cases hreq

theorem addRequest_first (h : Confined s) (hnil : s.desc.mirror.pgList = []) (env : PnfsAddEnv) (req : NfsPage shift)
    (hstart : ∀ lseg, (s.pgInit env req).1.pgLseg = some lseg → lseg.range.offset ≤ req.reqStart) :
    Confined (s.doAddRequest env req) := by
  obtain ⟨hdesc, hsent⟩ := s.pgInit_frame env req
  unfold doAddRequest
  simp only [hnil, isEmpty_nil, if_true]
  generalize s.pgInit env req = init at hstart hdesc hsent ⊢
  obtain ⟨d, initError⟩ := init
  rcases pageioDoAddRequest_added _ d.desc req with hlist | ⟨hlist, htest, -⟩
  · exact of_nil (by rw [hlist, hdesc, hnil]) (hsent ▸ h.sent)
  · refine ⟨fun lseg hlseg other hother => ?_, hsent ▸ h.sent⟩
    rw [hlist, hdesc, hnil] at hother
    obtain rfl := mem_singleton.mp hother
    rw [show d.pgLseg = some lseg from hlseg] at htest
    exact ⟨hstart lseg hlseg, end_le_of_pgTest htest⟩

theorem addRequest_next (h : Confined s) (hne : s.desc.mirror.pgList ≠ []) (env : PnfsAddEnv) (req : NfsPage shift) :
    Confined (s.doAddRequest env req) := by
  unfold doAddRequest
  simp only [isEmpty_eq_false_iff.mpr hne, Bool.false_eq_true, if_false]
  rcases pageioDoAddRequest_added _ s.desc req with hlist | ⟨hlist, htest, hnext⟩
  · refine ⟨fun lseg hlseg other hother => ?_, h.sent⟩
    rw [hlist] at hother
    exact h.list lseg hlseg other hother
  · refine ⟨fun lseg hlseg other hother => ?_, h.sent⟩
    rw [hlist] at hother
    rcases mem_append.mp hother with hother | hother
    · exact h.list lseg hlseg other hother
    · obtain rfl := mem_singleton.mp hother
      rw [show s.pgLseg = some lseg from hlseg] at htest
      have hlast := getLast?_eq_some_getLast hne
      have hprev := h.list lseg hlseg _ (getLast_mem hne)
      exact ⟨hprev.start_of_contiguous (hnext _ hlast), end_le_of_pgTest htest⟩

theorem step (h : Confined s) {e : PnfsEvent shift} (hstart : s.startsInside e) (hs : s.step e = some t) :
    Confined t := by
  cases e with
  | addRequest env req =>
    cases hs
    by_cases hnil : s.desc.mirror.pgList = []
    · refine h.addRequest_first hnil env req fun lseg hlseg => ?_
      simpa [startsInside, hnil, hlseg] using hstart
    · exact h.addRequest_next hnil env req
  | doio =>
    cases hs
    refine of_nil rfl fun io hio req hreq => ?_
    rcases mem_append.mp hio with hio | hio
    · exact h.sent io hio req hreq
    · obtain ⟨lseg, hlseg, rfl⟩ := mem_map.mp hio
      exact h.list lseg (Option.mem_toList.mp hlseg) req hreq
  | recoalesce =>
    cases hs
    exact of_nil rfl h.sent
  | throughMds =>
    cases hs
    exact of_nil rfl h.sent
  | invalidate =>
    cases hs
    refine ⟨fun lseg hlseg req hreq => ?_, h.sent⟩
    obtain ⟨old, hold, rfl⟩ := Option.map_eq_some_iff.mp hlseg
    exact h.list old hold req hreq
  | cleanup =>
    simp only [PnfsDescriptor.step] at hs
    obtain ⟨hnil, rfl⟩ := Machine.of_guard_some hs
    exact of_nil hnil h.sent

end Confined

/-- If no list starts before its segment, every byte coalesced or sent under a segment belongs to its range. -/
theorem covers_of_startsInside (pgBsize : U32) (lseg : Option Lseg) (evs : List (PnfsEvent shift))
    (s : PnfsDescriptor shift)
    (hrun : Machine.exec PnfsDescriptor.step { desc := { mirror := { pgBsize } }, pgLseg := lseg } evs = some s)
    (hstart : Machine.Along PnfsDescriptor.step (fun s e => s.startsInside e)
      ({ desc := { mirror := { pgBsize } }, pgLseg := lseg } : PnfsDescriptor shift) evs) :
    (∀ lseg, s.pgLseg = some lseg → ∀ req ∈ s.desc.mirror.pgList, ∀ k < req.wbBytes,
      lseg.range.Covers (ofNat 64 (req.reqOffset + k))) ∧
    ∀ io ∈ s.sent, ∀ req ∈ io.2, ∀ k < req.wbBytes, io.1.Covers (ofNat 64 (req.reqOffset + k)) := by
  obtain ⟨hlist, hsent⟩ := Machine.exec_invariant_along (fun s e t hstart (h : Confined s) hs => h.step hstart hs) hstart
    (Confined.of_nil rfl nofun) hrun
  exact ⟨fun lseg hlseg req hreq k hk => (hlist lseg hlseg req hreq).covers hk,
    fun io hio req hreq k hk => (hsent io hio req hreq).covers hk⟩

def wholePage (index : Nat) : NfsPage 12 := .create (.page index) 0 index 0 4096 0 0 (by decide) le_rfl

def halfwaySegment : Lseg := { range := { iomode := Iomode.rw, offset := 6144 }, seq := 1 }

/-- Pages 2 and 3 are written under the segment. -/
theorem covers_of_startsInside_pages : ∃ s : PnfsDescriptor 12,
    Machine.exec PnfsDescriptor.step { desc := { mirror := { pgBsize := 65536 } }, pgLseg := some halfwaySegment }
      [.addRequest {} (wholePage 2), .addRequest {} (wholePage 3), .doio] = some s ∧
    s.sent = [(halfwaySegment.range, [wholePage 2, wholePage 3])] ∧
    ∀ io ∈ s.sent, ∀ req ∈ io.2, ∀ k < req.wbBytes, io.1.Covers (ofNat 64 (req.reqOffset + k)) := by
  refine Machine.exists_exec (P := fun s => s.sent = [(halfwaySegment.range, [wholePage 2, wholePage 3])]) (by decide)
    fun s hrun hsent => ?_
  exact ⟨hsent, (covers_of_startsInside 65536 (some halfwaySegment) _ s hrun (by decide)).2⟩

/-- Then page 1 is written: the segment intersects it, so it is kept, and the whole page is sent under it. -/
theorem not_covers_of_kept : (Machine.exec PnfsDescriptor.step
      ({ desc := { mirror := { pgBsize := 65536 } }, pgLseg := some halfwaySegment } : PnfsDescriptor 12)
      [.addRequest {} (wholePage 2), .doio, .addRequest {} (wholePage 1), .doio]).map PnfsDescriptor.sent =
      some [(halfwaySegment.range, [wholePage 2]), (halfwaySegment.range, [wholePage 1])] ∧
    ¬halfwaySegment.range.Covers (ofNat 64 ((wholePage 1).reqOffset + 0)) := by
  decide

end PnfsDescriptor

end

end Mynfs
