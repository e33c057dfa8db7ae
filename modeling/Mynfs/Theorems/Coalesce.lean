import Mynfs.Lib.Run
import Mynfs.Pageio.Coalesce
import Mathlib.Data.List.Range
import Mathlib.Algebra.Order.Group.Nat
import Mathlib.Tactic.Linarith

/-! The RPC built from coalesced requests. `Ready` says how its page vector stands before a request. -/

namespace Mynfs

open List

section
variable {shift pos : Nat} {req prev : NfsPage shift} {i : PageIter req} {v : PageVec}
  {desc desc' : PgioDescriptor shift} {env : AddEnv}

/-! ### The pages of one request -/

theorem PageIter.pages_of_eq (h : i.count = req.wbBytes) : i.pages = [] := by
  have hget : i.get = none := by simp [PageIter.get, h]
  rw [PageIter.pages]
  split
  · rfl
  next heq => rw [hget] at heq; cases heq

theorem PageIter.pages_of_ne (h : i.count ≠ req.wbBytes) : i.pages = req.toPage (i.count + req.wbPgbase) ::
      (i.advance (2 ^ shift - (i.count + req.wbPgbase) % 2 ^ shift)).pages := by
  have hget : i.get = some (req.toPage (i.count + req.wbPgbase),
      i.advance (2 ^ shift - (i.count + req.wbPgbase) % 2 ^ shift)) := by simp [PageIter.get, h]
  rw [PageIter.pages]
  split
  next heq => rw [hget] at heq; cases heq
  next heq =>
    rw [hget] at heq
    cases heq
    rfl

/-- The iterator goes through the pages of the request in order. -/
theorem PageIter.pages_eq (i : PageIter req) (h : i.count < req.wbBytes) :
    i.pages = (range' ((i.count + req.wbPgbase) / 2 ^ shift)
      ((req.pgend - 1) / 2 ^ shift - (i.count + req.wbPgbase) / 2 ^ shift + 1)).map (req.wbMem.wbPage + ·) := by
  have hps : 0 < 2 ^ shift := Nat.two_pow_pos _
  set base := i.count + req.wbPgbase with hbase
  have hlt : base < req.pgend := by unfold NfsPage.pgend; omega
  have hdiv := Nat.div_add_mod base (2 ^ shift)
  have hnext : base + (2 ^ shift - base % 2 ^ shift) = 2 ^ shift * (base / 2 ^ shift + 1) := by
    rw [Nat.mul_add, Nat.mul_one]
    omega
  rw [PageIter.pages_of_ne h.ne, ← hbase, req.toPage_eq hlt]
  set j := i.advance (2 ^ shift - base % 2 ^ shift) with hj
  have hcount : j.count = min (i.count + (2 ^ shift - base % 2 ^ shift)) req.wbBytes := rfl
  by_cases hend : j.count < req.wbBytes
  · have hjbase : j.count + req.wbPgbase = 2 ^ shift * (base / 2 ^ shift + 1) := by omega
    have hjdiv : (j.count + req.wbPgbase) / 2 ^ shift = base / 2 ^ shift + 1 := by
      rw [hjbase, Nat.mul_div_cancel_left _ hps]
    have hlast : base / 2 ^ shift + 1 ≤ (req.pgend - 1) / 2 ^ shift := by
      rw [← hjdiv]
      exact Nat.div_le_div_right (by unfold NfsPage.pgend; omega)
    have hdec : req.wbBytes - j.count < req.wbBytes - i.count := by omega
    have ih := PageIter.pages_eq j hend
    rw [hjdiv] at ih
    have hlen : (req.pgend - 1) / 2 ^ shift - base / 2 ^ shift =
        (req.pgend - 1) / 2 ^ shift - (base / 2 ^ shift + 1) + 1 := by omega
    rw [ih, hlen]
    rfl
  · have hstop : j.count = req.wbBytes := le_antisymm j.le (not_lt.mp hend)
    have hlast : (req.pgend - 1) / 2 ^ shift = base / 2 ^ shift := by
      refine Nat.div_eq_of_lt_le ?_ ?_
      · rw [Nat.mul_comm]
        omega
      · rw [Nat.mul_comm, ← hnext]
        unfold NfsPage.pgend
        omega
    rw [PageIter.pages_of_eq hstop, hlast]
    simp
termination_by req.wbBytes - i.count
decreasing_by exact hdec

theorem pages_init : (PageIter.init : PageIter req).pages = (range' (req.wbPgbase / 2 ^ shift)
      ((req.pgend - 1) / 2 ^ shift - req.wbPgbase / 2 ^ shift + 1)).map (req.wbMem.wbPage + ·) := by
  have h := PageIter.pages_eq (PageIter.init : PageIter req) req.bytes_pos
  simpa [PageIter.init] using h

/-! ### Storing pages -/

theorem foldlM_storePage (pagecount : Nat) (head : Page) : ∀ (n a : Nat) (v : PageVec),
    v.lastPage ≠ some (head + a) → v.pageused + (n + 1) ≤ pagecount →
    ((range' a (n + 1)).map (head + ·)).foldlM (storePage pagecount) v =
      .ok ⟨v.pages ++ (range' a (n + 1)).map (head + ·), some (head + (a + n)), v.pageused + (n + 1)⟩
  | 0, a, v, hlast, hroom => by
    have hstep : storePage pagecount v (head + a) = .ok ⟨v.pages ++ [head + a], some (head + a), v.pageused + 1⟩ := by
      rw [storePage, if_pos hlast, if_neg (by omega)]
    simp [hstep]
  | n + 1, a, v, hlast, hroom => by
    have hstep : storePage pagecount v (head + a) = .ok ⟨v.pages ++ [head + a], some (head + a), v.pageused + 1⟩ := by
      rw [storePage, if_pos hlast, if_neg (by omega)]
    have ih := foldlM_storePage pagecount head n (a + 1) ⟨v.pages ++ [head + a], some (head + a), v.pageused + 1⟩
      (by simp) (by simp only; omega)
    rw [range'_succ, map_cons, foldlM_cons, hstep]
    have hidx : a + 1 + n = a + (n + 1) := by omega
    have hused : v.pageused + 1 + (n + 1) = v.pageused + (n + 1 + 1) := by omega
    refine Eq.trans ih ?_
    simp only [hidx, hused, append_assoc, singleton_append]

theorem foldlM_storePage_again (pagecount : Nat) (head : Page) (n a : Nat) (v : PageVec)
    (hlast : v.lastPage = some (head + a)) (hroom : v.pageused + n ≤ pagecount) :
    ((range' a (n + 1)).map (head + ·)).foldlM (storePage pagecount) v =
      .ok ⟨v.pages ++ (range' (a + 1) n).map (head + ·), some (head + (a + n)), v.pageused + n⟩ := by
  have hstep : storePage pagecount v (head + a) = .ok v := by
    rw [storePage, if_neg (not_not.mpr hlast)]
  rw [range'_succ, map_cons, foldlM_cons, hstep]
  cases n with
  | zero => simp [← hlast]
  | succ n =>
    have hne : v.lastPage ≠ some (head + (a + 1)) := by simp [hlast]
    have hidx : a + 1 + n = a + (n + 1) := by omega
    refine (foldlM_storePage pagecount head n (a + 1) v hne hroom).trans ?_
    rw [hidx]

/-! ### Laying out one request -/

def NfsPage.firstPage (req : NfsPage shift) : Page := req.wbMem.wbPage + req.wbPgbase / 2 ^ shift

def NfsPage.lastPage (req : NfsPage shift) : Page := req.wbMem.wbPage + (req.pgend - 1) / 2 ^ shift

section
variable (v : PageVec) (pos : Nat) (req : NfsPage shift)

/-- The page of position `pos` is to be stored next, or it is the page that was stored last. -/
structure Ready : Prop where
  used : v.pageused = v.pages.length
  aligned : pos % 2 ^ shift = req.wbPgbase % 2 ^ shift
  next : ∃ before : List Page, before.length = pos / 2 ^ shift ∧
    (v.pages = before ∧ v.lastPage ≠ some req.firstPage ∨
      v.pages = before ++ [req.firstPage] ∧ v.lastPage = some req.firstPage)

/-- Pages up to `pos` are stored. -/
structure Stored : Prop where
  used : v.pageused = v.pages.length
  pos_pos : 0 < pos
  aligned : pos % 2 ^ shift = req.pgend % 2 ^ shift
  last : ∃ before : List Page, before.length = (pos - 1) / 2 ^ shift ∧ v.pages = before ++ [req.lastPage] ∧
    v.lastPage = some req.lastPage

end

theorem Ready.div_add (h : Ready v pos req) (k : Nat) :
    (pos + k) / 2 ^ shift = pos / 2 ^ shift + ((req.wbPgbase + k) / 2 ^ shift - req.wbPgbase / 2 ^ shift) ∧
    (pos + k) % 2 ^ shift = (req.wbPgbase + k) % 2 ^ shift := by
  have hps : 0 < 2 ^ shift := Nat.two_pow_pos _
  have hsplit : ∀ x, (x + k) / 2 ^ shift = x / 2 ^ shift + (x % 2 ^ shift + k) / 2 ^ shift := by
    intro x
    conv_lhs => rw [← Nat.div_add_mod x (2 ^ shift), Nat.add_assoc, Nat.mul_add_div hps]
  refine ⟨?_, ?_⟩
  · rw [hsplit pos, hsplit req.wbPgbase, h.aligned, Nat.add_sub_cancel_left]
  · rw [Nat.add_mod, h.aligned, ← Nat.add_mod]

/-- Storing a request puts its pages behind those of the request before. -/
theorem Ready.foldlM_pages {pagecount : Nat} (h : Ready v pos req)
    (hroom : (pos + req.wbBytes - 1) / 2 ^ shift + 1 ≤ pagecount) :
    ∃ v', (PageIter.init : PageIter req).pages.foldlM (storePage pagecount) v = .ok v' ∧
      Stored v' (pos + req.wbBytes) req ∧ v.pages <+: v'.pages ∧
      ∀ k < req.wbBytes, v'.pages[(pos + k) / 2 ^ shift]? = some (req.wbMem.wbPage + (req.wbPgbase + k) / 2 ^ shift) := by
  have hpos := req.bytes_pos
  have hmono : ∀ k, req.wbPgbase / 2 ^ shift ≤ (req.wbPgbase + k) / 2 ^ shift := fun k =>
    Nat.div_le_div_right (Nat.le_add_right _ _)
  have hend : req.pgend - 1 = req.wbPgbase + (req.wbBytes - 1) := by unfold NfsPage.pgend; omega
  obtain ⟨n, hn⟩ := Nat.exists_eq_add_of_le (hmono (req.wbBytes - 1))
  have hlast : (pos + req.wbBytes - 1) / 2 ^ shift = pos / 2 ^ shift + n := by
    rw [Nat.add_sub_assoc hpos, (h.div_add _).1, hn, Nat.add_sub_cancel_left]
  obtain ⟨before, hlen, hnext⟩ := h.next
  set all := (range' (req.wbPgbase / 2 ^ shift) (n + 1)).map (req.wbMem.wbPage + ·) with hall
  have hcons : all = req.firstPage :: (range' (req.wbPgbase / 2 ^ shift + 1) n).map (req.wbMem.wbPage + ·) := rfl
  have hpages : (PageIter.init : PageIter req).pages = all := by
    rw [pages_init, hend, hn, Nat.add_sub_cancel_left]
  have hlastPage : req.lastPage = req.wbMem.wbPage + (req.wbPgbase / 2 ^ shift + n) := by
    rw [NfsPage.lastPage, hend, hn]
  -- the pages end up the same whether or not the first one was there already
  have hstore : all.foldlM (storePage pagecount) v = .ok ⟨before ++ all, some req.lastPage, before.length + (n + 1)⟩ ∧
      v.pages <+: before ++ all := by
    have hused := h.used
    rcases hnext with ⟨hv, hfresh⟩ | ⟨hv, hagain⟩
    · rw [hlastPage, hall, foldlM_storePage _ _ _ _ _ hfresh (by rw [hused, hv]; omega), hused, hv]
      exact ⟨rfl, prefix_append _ _⟩
    · have hlen' : v.pages.length = before.length + 1 := by rw [hv, length_append, length_singleton]
      have hsum : before.length + 1 + n = before.length + (n + 1) := by omega
      refine ⟨?_, ⟨(range' (req.wbPgbase / 2 ^ shift + 1) n).map (req.wbMem.wbPage + ·), ?_⟩⟩
      · rw [hlastPage, hall, foldlM_storePage_again _ _ _ _ _ hagain (by rw [hused, hlen']; omega), hused, hlen', hv, hsum,
          ← hall, hcons, append_assoc, singleton_append]
      · rw [hv, hcons, append_assoc, singleton_append]
  obtain ⟨hstore, hsub⟩ := hstore
  refine ⟨⟨before ++ all, some req.lastPage, before.length + (n + 1)⟩, by rw [hpages, hstore], ⟨?_, by omega, ?_, ?_⟩, hsub, ?_⟩
  · simp [hall]
  · rw [(h.div_add req.wbBytes).2]
    rfl
  · refine ⟨before ++ (range' (req.wbPgbase / 2 ^ shift) n).map (req.wbMem.wbPage + ·), ?_, ?_, rfl⟩
    · rw [hlast]
      simp [hlen]
    · rw [hlastPage, hall, range'_concat]
      simp
  · intro k hk
    have hle : (req.wbPgbase + k) / 2 ^ shift ≤ req.wbPgbase / 2 ^ shift + n := by
      rw [← hn]
      exact Nat.div_le_div_right (by omega)
    have hge := hmono k
    rw [(h.div_add k).1, getElem?_append_right (by omega), hlen, Nat.add_sub_cancel_left, hall, getElem?_map,
      getElem?_range' (by omega)]
    simp only [Option.map_some, Nat.one_mul]
    rw [Nat.add_sub_cancel' hge]

/-! ### From one request to the next -/

/-- Contiguous requests meet at a page boundary or inside a page. -/
theorem pageIsContiguous_cases (h : nfsPageIsContiguous prev req) :
    req.reqOffset = prev.reqOffset + prev.wbBytes ∧ (req.wbPgbase = 0 ∧ prev.pgend % 2 ^ shift = 0 ∨
      req.wbPgbase ≠ 0 ∧ req.wbPgbase = prev.pgend ∧ req.wbMem.wbPage = prev.wbMem.wbPage) := by
  unfold nfsPageIsContiguous at h
  dsimp only at h
  split at h
  · cases h
  next hoff =>
    refine ⟨not_not.mp hoff, ?_⟩
    split at h
    next hzero =>
      left
      refine ⟨hzero, ?_⟩
      have hend : prev.pgend = prev.wbMem.maxLength shift := of_decide_eq_true h
      rw [hend]
      unfold WbMem.maxLength
      split
      · exact Nat.mod_self _
      · exact Nat.mul_mod_left _ _
    next hzero =>
      right
      split at h
      next hend =>
        refine ⟨hzero, hend, ?_⟩
        cases hr : req.wbMem <;> cases hp : prev.wbMem <;> simp_all [NfsPage.toFolio, WbMem.wbPage]
      · cases h

theorem sub_one_div {n : Nat} (hpos : 0 < pos) : pos / n = (pos - 1) / n + if pos % n = 0 then 1 else 0 := by
  obtain ⟨p, rfl⟩ : ∃ p, pos = p + 1 := ⟨pos - 1, by omega⟩
  simp only [Nat.succ_div, Nat.dvd_iff_mod_eq_zero, Nat.add_sub_cancel]

theorem Stored.ready (h : Stored v pos prev) (hc : nfsPageIsContiguous prev req) :
    Ready (if req.wbPgbase = 0 then { v with lastPage := none } else v) pos req := by
  obtain ⟨-, hcases⟩ := pageIsContiguous_cases hc
  obtain ⟨before, hlen, hpages, hlast⟩ := h.last
  have hdiv := sub_one_div (n := 2 ^ shift) h.pos_pos
  have hused := h.used
  rcases hcases with ⟨hzero, hend⟩ | ⟨hzero, hend, hmem⟩
  · -- the forgotten last page is not the one at `pos`
    have hmod : pos % 2 ^ shift = 0 := h.aligned.trans hend
    rw [if_pos hzero]
    refine ⟨hused, by rw [hmod, hzero, Nat.zero_mod], v.pages, ?_, .inl ⟨rfl, by simp⟩⟩
    rw [hdiv, if_pos hmod, hpages, length_append, hlen, length_singleton]
  · rw [if_neg hzero]
    have hfirst : req.firstPage = prev.wbMem.wbPage + prev.pgend / 2 ^ shift := by
      rw [NfsPage.firstPage, hmem, hend]
    have hdiv' := sub_one_div (n := 2 ^ shift) (show 0 < prev.pgend from hend ▸ Nat.pos_of_ne_zero hzero)
    have halign : pos % 2 ^ shift = req.wbPgbase % 2 ^ shift := hend ▸ h.aligned
    by_cases hmod : pos % 2 ^ shift = 0
    · -- the other request ended with a page of the folio, so the next page differs from it
      rw [if_pos hmod] at hdiv
      rw [if_pos (h.aligned ▸ hmod)] at hdiv'
      refine ⟨hused, halign, v.pages, ?_, .inl ⟨rfl, ?_⟩⟩
      · rw [hdiv, hpages, length_append, hlen, length_singleton]
      · rw [hlast, hfirst, hdiv', NfsPage.lastPage]
        simp
    · rw [if_neg hmod] at hdiv
      rw [if_neg (h.aligned ▸ hmod)] at hdiv'
      have hsame : req.firstPage = prev.lastPage := by rw [hfirst, hdiv', NfsPage.lastPage, Nat.add_zero]
      refine ⟨hused, halign, before, ?_, .inr ⟨?_, ?_⟩⟩
      · rw [hdiv, hlen, Nat.add_zero]
      · rw [hsame, hpages]
      · rw [hsame, hlast]

theorem ready_first : Ready (if req.wbPgbase = 0 then { ({} : PageVec) with lastPage := none } else {})
    (req.wbPgbase % 2 ^ shift) req := by
  have hps : 0 < 2 ^ shift := Nat.two_pow_pos _
  have hempty : (if req.wbPgbase = 0 then { ({} : PageVec) with lastPage := none } else {}) = ({} : PageVec) := by simp
  rw [hempty]
  refine ⟨rfl, Nat.mod_mod _ _, [], ?_, .inl ⟨rfl, by simp⟩⟩
  rw [Nat.div_eq_of_lt (Nat.mod_lt _ hps), length_nil]

/-! ### All requests -/

def Contiguous (reqs : List (NfsPage shift)) : Prop :=
  reqs.IsChain fun prev req => nfsPageIsContiguous prev req

def totalBytes (reqs : List (NfsPage shift)) : Nat := (reqs.map (·.wbBytes)).sum

def fileByte : List (NfsPage shift) → Nat → Option (Page × Nat)
  | [], _ => none
  | req :: reqs, o =>
    if req.reqOffset ≤ o ∧ o < req.reqOffset + req.wbBytes then some (req.byteAt (o - req.reqOffset))
    else fileByte reqs o

theorem Ready.vecByte_eq {v' : PageVec} {k : Nat} {pages : List Page} (h : Ready v pos req)
    (hsub : v'.pages <+: pages) (hk : k < req.wbBytes)
    (hat : v'.pages[(pos + k) / 2 ^ shift]? = some (req.wbMem.wbPage + (req.wbPgbase + k) / 2 ^ shift)) :
    vecByte shift pages (pos + k) = some (req.byteAt k) := by
  obtain ⟨rest, rfl⟩ := hsub
  obtain ⟨hlt, -⟩ := List.getElem?_eq_some_iff.mp hat
  have hbase : req.wbPgbase + k < req.pgend := by unfold NfsPage.pgend; omega
  rw [vecByte, getElem?_append_left hlt, hat, (h.div_add k).2, Option.map_some, NfsPage.byteAt, req.toPage_eq hbase]

/-- The page vector of contiguous requests, byte by byte. -/
theorem storeRequests_layout (pagecount : Nat) (reqs : List (NfsPage shift)) :
    ∀ (req : NfsPage shift) (v : PageVec) (pos : Nat),
      Ready (if req.wbPgbase = 0 then { v with lastPage := none } else v) pos req → Contiguous (req :: reqs) →
      (pos + totalBytes (req :: reqs) - 1) / 2 ^ shift + 1 ≤ pagecount →
      ∃ v', storeRequests pagecount v (req :: reqs) = .ok v' ∧ v.pages <+: v'.pages ∧ v'.pageused = v'.pages.length ∧
        v'.pages.length = (pos + totalBytes (req :: reqs) - 1) / 2 ^ shift + 1 ∧
        ∀ i < totalBytes (req :: reqs), ∃ b, vecByte shift v'.pages (pos + i) = some b ∧
          fileByte (req :: reqs) (req.reqOffset + i) = some b := by
  induction reqs with
  | nil =>
    intro req v pos hready _ hroom
    have htotal : totalBytes [req] = req.wbBytes := by simp [totalBytes]
    rw [htotal] at hroom ⊢
    obtain ⟨v', hstore, hstored, hsub, hat⟩ := hready.foldlM_pages hroom
    have hsub' : v.pages <+: v'.pages := by
      split at hsub <;> exact hsub
    obtain ⟨before, hlen, hpages, -⟩ := hstored.last
    refine ⟨v', by simpa [storeRequests, storeRequest] using hstore, hsub', hstored.used, ?_, fun i hi => ?_⟩
    · rw [hpages, length_append, hlen, length_singleton]
    · refine ⟨req.byteAt i, hready.vecByte_eq (prefix_refl _) hi (hat i hi), ?_⟩
      rw [fileByte, if_pos ⟨Nat.le_add_right _ _, Nat.add_lt_add_left hi _⟩, Nat.add_sub_cancel_left]
  | cons req' reqs ih =>
    intro req v pos hready hc hroom
    have htotal : totalBytes (req :: req' :: reqs) = req.wbBytes + totalBytes (req' :: reqs) := by simp [totalBytes]
    rw [htotal, ← Nat.add_assoc] at hroom
    rw [htotal]
    obtain ⟨hcont, hrest⟩ := isChain_cons_cons.mp hc
    obtain ⟨v₁, hstore, hstored, hsub, hat⟩ := hready.foldlM_pages
      (le_trans (Nat.succ_le_succ (Nat.div_le_div_right (by omega))) hroom)
    obtain ⟨v', hstore', hsub', hused, hlen, hbytes⟩ := ih req' v₁ (pos + req.wbBytes) (hstored.ready hcont) hrest hroom
    have hsub₀ : v.pages <+: v₁.pages := by
      split at hsub <;> exact hsub
    refine ⟨v', ?_, hsub₀.trans hsub', hused, by rw [hlen, Nat.add_assoc], fun i hi => ?_⟩
    · have hone : storeRequest pagecount v req = .ok v₁ := hstore
      rw [storeRequests, foldlM_cons, hone]
      exact hstore'
    · by_cases hfirst : i < req.wbBytes
      · refine ⟨req.byteAt i, hready.vecByte_eq hsub' hfirst (hat i hfirst), ?_⟩
        rw [fileByte, if_pos ⟨Nat.le_add_right _ _, Nat.add_lt_add_left hfirst _⟩, Nat.add_sub_cancel_left]
      · obtain ⟨b, hvec, hfile⟩ := hbytes (i - req.wbBytes) (by omega)
        have hoff := (pageIsContiguous_cases hcont).1
        have hpos' : pos + req.wbBytes + (i - req.wbBytes) = pos + i := by omega
        have hoff' : req'.reqOffset + (i - req.wbBytes) = req.reqOffset + i := by omega
        refine ⟨b, hpos' ▸ hvec, ?_⟩
        rw [fileByte, if_neg (by omega), ← hoff']
        exact hfile

/-! ### What the mirror accepts -/

/-- The fields of the mirror match its list. -/
structure Mirrors (desc : PgioDescriptor shift) : Prop where
  contiguous : Contiguous desc.mirror.pgList
  first : ∀ first rest, desc.mirror.pgList = first :: rest →
    desc.mirror.pgBase = first.wbPgbase ∧ desc.mirror.pgCount = totalBytes desc.mirror.pgList

theorem doAddRequestTo_accepts {prev : Option (NfsPage shift)} (h : doAddRequestTo env desc prev req = (req.wbBytes, desc')) :
    desc'.mirror.pgList = desc.mirror.pgList ++ [req] ∧ desc'.mirror.pgBase = desc.mirror.pgBase ∧
    desc'.mirror.pgCount = desc.mirror.pgCount + req.wbBytes ∧ ∀ p, prev = some p → nfsPageIsContiguous p req := by
  have hpos := req.bytes_pos
  unfold doAddRequestTo at h
  split at h
  · exact absurd (Prod.mk.inj h).1 hpos.ne
  · dsimp only at h
    split at h
    next hlt => exact absurd (Prod.mk.inj h).1 hlt.ne
    next hge =>
      cases h
      refine ⟨rfl, rfl, rfl, ?_⟩
      rintro p rfl
      by_contra hnot
      have hrefused : nfsCoalesceSize env (some p) req = 0 := by
        simp only [nfsCoalesceSize, Bool.eq_false_iff.mpr hnot, Bool.not_false, if_true, ite_self]
      exact hge (hrefused ▸ hpos)

theorem addStep_inv (h : addStep desc (env, req) = some desc') : desc'.mirror.pgList = desc.mirror.pgList ++ [req] ∧
    ((∃ prev, desc.mirror.pgList.getLast? = some prev ∧ nfsPageIsContiguous prev req ∧
        desc'.mirror.pgBase = desc.mirror.pgBase ∧ desc'.mirror.pgCount = desc.mirror.pgCount + req.wbBytes) ∨
      desc.mirror.pgList = [] ∧ desc'.mirror.pgBase = req.wbPgbase ∧ desc'.mirror.pgCount = req.wbBytes) := by
  have hadd : nfsPageioDoAddRequest env desc req = (req.wbBytes, desc') := by
    unfold addStep at h
    dsimp only at h
    obtain ⟨hsize, h⟩ := Machine.of_guard h
    rw [← Option.some.inj h, ← hsize]
  unfold nfsPageioDoAddRequest at hadd
  cases hlast : desc.mirror.pgList.getLast? with
  | some prev =>
    rw [hlast] at hadd
    obtain ⟨hlist, hbase, hcount, hcont⟩ := doAddRequestTo_accepts hadd
    exact ⟨hlist, .inl ⟨prev, rfl, hcont prev rfl, hbase, hcount⟩⟩
  | none =>
    have hnil := getLast?_eq_none_iff.mp hlast
    rw [hlast] at hadd
    dsimp only at hadd
    generalize hinit : (if env.initError < 0 then { desc with pgError := env.initError } else desc) = d at hadd
    have hmirror : d.mirror = desc.mirror := by
      rw [← hinit]
      split <;> rfl
    split at hadd
    · exact absurd (Prod.mk.inj hadd).1 req.bytes_pos.ne
    · obtain ⟨hlist, hbase, hcount, -⟩ := doAddRequestTo_accepts hadd
      rw [hmirror] at hlist
      exact ⟨hlist, .inr ⟨hnil, hbase, by simpa using hcount⟩⟩

theorem Mirrors.addStep {add : AddEnv × NfsPage shift} (h : Mirrors desc)
    (hs : addStep desc add = some desc') : Mirrors desc' := by
  obtain ⟨hlist, ⟨prev, hlast, hcont, hbase, hcount⟩ | ⟨hnil, hbase, hcount⟩⟩ := addStep_inv hs
  · refine ⟨?_, fun first rest hfirst => ?_⟩
    · rw [hlist]
      refine isChain_append.mpr ⟨h.contiguous, isChain_singleton _, fun x hx y hy => ?_⟩
      rw [hlast] at hx
      cases hx
      obtain rfl : add.2 = y := by simpa using hy
      exact hcont
    · cases hl : desc.mirror.pgList with
      | nil => simp [hl] at hlast
      | cons first' rest' =>
        rw [hlist, hl] at hfirst
        obtain ⟨hb, hc⟩ := h.first first' rest' hl
        cases hfirst
        refine ⟨hbase.trans hb, ?_⟩
        rw [hcount, hc, hlist]
        simp [totalBytes]
  · rw [hnil] at hlist
    refine ⟨?_, fun first rest hfirst => ?_⟩
    · rw [hlist]
      exact isChain_singleton _
    · rw [hlist] at hfirst
      cases hfirst
      refine ⟨hbase, ?_⟩
      rw [hcount, hlist]
      simp [totalBytes]

theorem pgList_of_adds : ∀ {adds : List (AddEnv × NfsPage shift)} {desc desc' : PgioDescriptor shift},
    Machine.exec Mynfs.addStep desc adds = some desc' → desc'.mirror.pgList = desc.mirror.pgList ++ adds.map (·.2)
  | [], desc, desc', h => by
    cases h
    simp
  | add :: adds, desc, desc', h => by
    obtain ⟨desc₁, hs, hrest⟩ := Machine.exec_cons_iff.mp h
    rw [pgList_of_adds hrest, (addStep_inv hs).1]
    simp

/-! ### The RPC -/

theorem pageArrayLen_eq {base len : Nat} (hbase : base < 2 ^ shift) (hlen : 0 < len) (hmax : len < 2 ^ 32) :
    nfsPageArrayLen shift base len = (base + len - 1) / 2 ^ shift + 1 := by
  have hps : 0 < 2 ^ shift := Nat.two_pow_pos _
  have hsum : len + base + 2 ^ shift - 1 = base + len - 1 + 2 ^ shift := by omega
  have hlt : (base + len - 1) / 2 ^ shift < len := by
    have hmul : len - 1 ≤ 2 ^ shift * (len - 1) := Nat.le_mul_of_pos_left _ hps
    have hsucc : 2 ^ shift * len = 2 ^ shift * (len - 1) + 2 ^ shift := by
      rw [← Nat.mul_succ, Nat.succ_eq_add_one, Nat.sub_add_cancel hlen]
    refine Nat.div_lt_of_lt_mul ?_
    omega
  rw [nfsPageArrayLen, hsum, Nat.add_div_right _ hps, Nat.mod_eq_of_lt (by omega)]

theorem Mirrors.mynfsGenericPgio (hmirror : Mirrors desc) {first : NfsPage shift}
    {rest : List (NfsPage shift)} (hlist : desc.mirror.pgList = first :: rest) (hmax : totalBytes (first :: rest) < 2 ^ 32)
    (canAlloc : Nat → Bool) : let count := totalBytes (first :: rest)
    let pgbase := first.wbPgbase % 2 ^ shift
    let pagecount := nfsPageArrayLen shift pgbase count
    ∃ pages, Mynfs.mynfsGenericPgio canAlloc desc.mirror first =
        (if canAlloc pagecount then .ok ⟨first.reqOffset, pgbase, BitVec.ofNat 32 count, pages⟩ else .error .enomem) ∧
      pages.length = pagecount ∧
      ∀ i < count, ∃ b, vecByte shift pages (pgbase + i) = some b ∧
        fileByte (first :: rest) (first.reqOffset + i) = some b := by
  intro count pgbase pagecount
  obtain ⟨hbase, hcount⟩ := hmirror.first first rest hlist
  have hcontiguous := hmirror.contiguous
  rw [hlist] at hcount hcontiguous
  have hpos : 0 < count := by
    have := first.bytes_pos
    simp only [count, totalBytes, map_cons, sum_cons]
    omega
  have hlen : pagecount = (pgbase + count - 1) / 2 ^ shift + 1 :=
    pageArrayLen_eq (Nat.mod_lt _ (Nat.two_pow_pos _)) hpos hmax
  obtain ⟨v, hstore, -, hused, hpages, hbytes⟩ :=
    storeRequests_layout pagecount rest first {} pgbase ready_first hcontiguous hlen.ge
  refine ⟨v.pages, ?_, hpages.trans hlen.symm, hbytes⟩
  unfold Mynfs.mynfsGenericPgio
  rw [hbase, hcount, hlist]
  change (if canAlloc pagecount then _ else _) = _
  split
  · rw [hstore]
    exact if_neg (not_not.mpr (hused.trans (hpages.trans hlen.symm)))
  · rfl

theorem Mirrors.of_nil (hempty : desc.mirror.pgList = []) : Mirrors desc :=
  ⟨by rw [hempty]; exact isChain_nil, fun _ _ h => by simp [hempty] at h⟩

/-- Requests accepted by an empty mirror up to its largest I/O make one RPC, from the offset of the first and with the
    sum of the lengths. Only the page vector's allocation can fail; each position has the byte of its file offset. -/
theorem coalesced_bytes (canAlloc : Nat → Bool) (desc₀ desc : PgioDescriptor shift)
    (adds : List (AddEnv × NfsPage shift)) (first : NfsPage shift) (rest : List (NfsPage shift))
    (hempty : desc₀.mirror.pgList = []) (hadds : Machine.exec addStep desc₀ adds = some desc)
    (hreqs : adds.map (·.2) = first :: rest) (hsize : totalBytes (first :: rest) ≤ desc₀.mirror.pgBsize.toNat) :
    let count := totalBytes (first :: rest)
    let pgbase := first.wbPgbase % 2 ^ shift
    let pagecount := nfsPageArrayLen shift pgbase count
    ∃ pages, mynfsGenericPgio canAlloc desc.mirror first =
        (if canAlloc pagecount then .ok ⟨first.reqOffset, pgbase, BitVec.ofNat 32 count, pages⟩ else .error .enomem) ∧
      (BitVec.ofNat 32 count).toNat = count ∧ pages.length = pagecount ∧
      ∀ i < count, ∃ b, vecByte shift pages (pgbase + i) = some b ∧
        fileByte (first :: rest) (first.reqOffset + i) = some b := by
  intro count pgbase pagecount
  have hlist : desc.mirror.pgList = first :: rest := by rw [pgList_of_adds hadds, hempty, hreqs, nil_append]
  have hmirror : Mirrors desc := Machine.exec_invariant (fun _ _ _ h hs => h.addStep hs) (Mirrors.of_nil hempty) hadds
  have hmax : count < 2 ^ 32 := lt_of_le_of_lt hsize desc₀.mirror.pgBsize.isLt
  obtain ⟨pages, hpgio, hlen, hbytes⟩ := hmirror.mynfsGenericPgio hlist hmax canAlloc
  exact ⟨pages, hpgio, by rw [BitVec.toNat_ofNat, Nat.mod_eq_of_lt hmax], hlen, hbytes⟩

end

def splitRequests : List (NfsPage 2) :=
  [.create (.folio ⟨8, 3⟩) 5 0 5 2 0 0 (by decide) (by decide), .create (.folio ⟨8, 3⟩) 7 0 7 5 0 0 (by decide) (by decide),
    .create (.page 3) 0 3 0 2 0 0 (by decide) (by decide)]

theorem coalesced_bytes_split : ∃ pages : List Page, pages.length = 3 ∧
    ∀ i < 9, ∃ b, vecByte 2 pages (1 + i) = some b ∧ fileByte splitRequests (5 + i) = some b := by
  obtain ⟨pages, -, -, hlen, hbytes⟩ := coalesced_bytes (fun _ => true) ⟨{ pgBsize := 16 }, 0, 0⟩
    ⟨{ pgList := splitRequests, pgBase := 5, pgCount := 9, pgBsize := 16 }, 0, 0⟩
    (splitRequests.map fun req => ({ pgTest := 16 }, req)) _ _ rfl rfl rfl (by decide)
  exact ⟨pages, hlen, hbytes⟩

end Mynfs
