import Mynfs.Theorems.PageioCalls
import Mynfs.Theorems.ReadAnswers

/-! Buffered reads show the bytes of replies, or zeros from the reported end of the file on. The invariant is how
    requests share a folio (`Groups`), its flags (`Marks`), its memory (`Contents`), and the headers (`Calls`). -/

namespace Mynfs

open Scatter List Option Machine

namespace ReadSystem
variable {shift n id h j m alignedLen : Nat} {c : PageCache shift n} {s t u : ReadSystem shift n} {f g : Fin n}
  {ids : List Nat} {q : ReqPlace} {r : ReadReq shift n} {e : Int} {req : NfsPage shift} {hdr : ReadHeader}
  {bytes : Nat → UInt8} {rep : ReadReply} {adds : List (AddEnv × Nat)} {tkOps : Bool} {b : PgBit} {v : FolioState → FolioState}

/-! ### Views of a state -/

section
variable (s : ReadSystem shift n)

section
variable (id : Nat)

def core : Option (NfsPage shift × Fin n) :=
  (s.reqs[id]?).map fun r => (r.req, r.folio)

def place : Option ReqPlace := (s.reqs[id]?).map (·.place)

def group (f : Fin n) : List Nat := (s.folios f).group

def byte (c : PageCache shift n) (s : ReadSystem shift n) (f : Fin n) (j : Nat) : UInt8 := s.mem (c.addr f j)

def Holds (f : Fin n) (j : Nat) : Prop :=
  ∃ req, s.core id = some (req, f) ∧ req.wbPgbase ≤ j ∧ j < req.pgend

def reqsOf (ids : List Nat) : List (NfsPage shift) :=
  ids.filterMap fun id => (s.core id).map Prod.fst

def Done : Prop := ∃ h, s.place id = some (.completed h 0)

def Outstanding : Prop := s.place id = some .listed ∨ ∃ h, s.place id = some (.header h)

end

end

theorem Holds.congr (hcore : t.core id = s.core id) : t.Holds id f j ↔ s.Holds id f j := by
  unfold Holds
  rw [hcore]

theorem Outstanding.not_completed (ho : s.Outstanding id) : s.place id ≠ some (.completed h e) := by
  intro hp
  rcases ho with ho | ⟨_, ho⟩ <;> cases ho.symm.trans hp

theorem Outstanding.not_cleaned (ho : s.Outstanding id) : s.place id ≠ some (.cleaned e) := by
  intro hp
  rcases ho with ho | ⟨_, ho⟩ <;> cases ho.symm.trans hp

theorem reqsOf_congr (hcore : ∀ id ∈ ids, t.core id = s.core id) : t.reqsOf ids = s.reqsOf ids :=
  filterMap_congr fun id hid => by rw [hcore id hid]

theorem reqsOf_cons (hcore : s.core id = some (req, f)) : s.reqsOf (id :: ids) = req :: s.reqsOf ids := by
  rw [reqsOf, filterMap_cons, hcore]
  rfl

theorem core_congr (hget : t.reqs[id]? = s.reqs[id]?) : t.core id = s.core id := congrArg (Option.map _) hget

theorem place_congr (hget : t.reqs[id]? = s.reqs[id]?) : t.place id = s.place id := congrArg (Option.map _) hget

theorem testBit_eq (s : ReadSystem shift n) (bit : PgBit) (id : Nat) :
    s.testBit bit id = ((s.reqs[id]?).map (·.testBit bit)).getD false := by
  unfold testBit
  cases s.reqs[id]? <;> rfl

theorem testBit_congr {bit : PgBit} (hget : t.reqs[id]? = s.reqs[id]?) : t.testBit bit id = s.testBit bit id := by
  rw [testBit_eq, hget, testBit_eq]

theorem core_of_get (hr : s.reqs[id]? = some r) : s.core id = some (r.req, r.folio) := congrArg (Option.map _) hr

theorem place_of_get (hr : s.reqs[id]? = some r) : s.place id = some r.place := congrArg (Option.map _) hr

theorem lt_of_place (hplace : s.place id = some q) : id < s.reqs.length := by
  obtain ⟨r, hr, -⟩ := map_eq_some_iff.mp hplace
  exact lt_of_getElem? hr

theorem lt_of_core {p : NfsPage shift × Fin n} (hcore : s.core id = some p) : id < s.reqs.length := by
  obtain ⟨r, hr, -⟩ := map_eq_some_iff.mp hcore
  exact lt_of_getElem? hr

section
variable {p : Nat → Bool} {u : ReadReq shift n → ReadReq shift n}

theorem getElem?_updateReqs : (s.updateReqs p u).reqs[id]? = (s.reqs[id]?).map fun r => if p id then u r else r :=
  getElem?_mapIdx

theorem getElem?_updateReqs_of_not (hp : p id = false) : (s.updateReqs p u).reqs[id]? = s.reqs[id]? := by
  rw [getElem?_updateReqs]
  simp [hp]

theorem map_updateReqs {α : Type*} {φ : ReadReq shift n → α} (hu : ∀ r, φ (u r) = φ r) (id : Nat) :
    ((s.updateReqs p u).reqs[id]?).map φ = (s.reqs[id]?).map φ := by
  rw [getElem?_updateReqs, Option.map_map]
  refine map_congr fun r _ => ?_
  split
  · exact hu r
  · rfl

theorem testBit_updateReqs {bit : PgBit} (hu : ∀ r, (u r).testBit bit = r.testBit bit) :
    (s.updateReqs p u).testBit bit = s.testBit bit := by
  funext id
  rw [testBit_eq, map_updateReqs hu, testBit_eq]

theorem core_setPlace (ids : List Nat) (q : ReqPlace) : (s.setPlace ids q).core = s.core :=
  funext (map_updateReqs fun _ => rfl)

theorem place_setPlace_of_mem (q : ReqPlace) (hid : id ∈ ids) {q' : ReqPlace} (hq : s.place id = some q') :
    (s.setPlace ids q).place id = some q := by
  obtain ⟨r, hr, -⟩ := map_eq_some_iff.mp hq
  unfold place setPlace
  rw [getElem?_updateReqs, hr]
  simp [hid]

theorem place_setPlace_of_notMem (q : ReqPlace) (hid : id ∉ ids) : (s.setPlace ids q).place id = s.place id :=
  place_congr (getElem?_updateReqs_of_not (decide_eq_false hid))

theorem testBit_setPlace (ids : List Nat) (q : ReqPlace) : (s.setPlace ids q).testBit = s.testBit := by
  funext bit
  exact testBit_updateReqs fun _ => by cases bit <;> rfl

theorem folios_updateFolio_self : (s.updateFolio f v).folios f = v (s.folios f) := if_pos rfl

theorem header_cases {h' : Nat} {hdr' : ReadHeader} (hh : t.headers = s.headers.set h hdr) (hget : t.headers[h']? = some hdr') :
    h' = h ∧ hdr' = hdr ∨ h' ≠ h ∧ s.headers[h']? = some hdr' := by
  rw [hh, getElem?_set] at hget
  split at hget
  next heq =>
    obtain ⟨-, hget⟩ := of_guard hget
    exact .inl ⟨heq.symm, (some.inj hget).symm⟩
  next hne => exact .inr ⟨Ne.symm hne, hget⟩

end

/-! ### The invariant -/

/-- A request for a part of the folio `f`. -/
structure OnFolio (c : PageCache shift n) (req : NfsPage shift) (f : Fin n) : Prop where
  mem : req.wbMem = .folio (c.folio f)
  index : req.wbIndex = c.index f
  offset : req.wbOffset = req.wbPgbase

namespace OnFolio
variable {k : Nat} (ho : OnFolio c req f)
include ho

theorem byteAt : req.byteAt k = c.addr f (req.wbPgbase + k) := by
  unfold NfsPage.byteAt NfsPage.toPage
  rw [ho.mem]
  rfl

theorem reqOffset : req.reqOffset + k = c.offset f (req.wbPgbase + k) := by
  unfold NfsPage.reqOffset PageCache.offset
  rw [ho.index, ho.offset, Nat.add_assoc]

theorem pgend_le : req.pgend ≤ c.size f := by
  have hfits := req.fits
  rw [ho.mem] at hfits
  exact hfits

end OnFolio

/-- The requests of a folio's group share what was requested of it. -/
structure Shares (s : ReadSystem shift n) (f : Fin n) : Prop where
  member : ∀ id ∈ s.group f, ∃ req, s.core id = some (req, f)
  disjoint : ∀ j, ∀ id ∈ s.group f, ∀ id' ∈ s.group f, s.Holds id f j → s.Holds id' f j → id = id'
  within : ∀ j, ∀ id ∈ s.group f, s.Holds id f j → j < (s.folios f).requested
  cover : ∀ j, j < (s.folios f).requested → ∃ id ∈ s.group f, s.Holds id f j

section
variable (c : PageCache shift n) (s : ReadSystem shift n)

/-- How requests share the folios. -/
structure Groups : Prop where
  onFolio : ∀ id req f, s.core id = some (req, f) → OnFolio c req f
  live : ∀ id req f, s.core id = some (req, f) → s.Outstanding id → id ∈ s.group f
  shares : ∀ f, s.Shares f

/-- What the flags of a folio say of its requests. -/
structure Marks (s : ReadSystem shift n) (f : Fin n) : Prop where
  uptodate : (s.folios f).uptodate → ∀ id ∈ s.group f, s.Done id
  bit_iff : (s.folios f).uptodate = false → ∀ id ∈ s.group f, s.testBit .uptodate id ↔ s.Done id
  undone : (s.folios f).uptodate = false → s.group f ≠ [] → ∃ id ∈ s.group f, ¬s.Done id
  bit_unlock : (s.folios f).locked → ∀ id ∈ s.group f, s.testBit .unlockpage id → ¬s.Outstanding id
  unlocked : (s.folios f).locked = false → ∀ id ∈ s.group f, ¬s.Outstanding id

/-- Failed requests have left their error. -/
structure Errors (s : ReadSystem shift n) : Prop where
  completed : ∀ id h e, s.place id = some (.completed h e) → e ≠ 0 →
    e < 0 ∧ ∃ req f, s.core id = some (req, f) ∧ (req.openctx, e) ∈ s.openctxErrors
  cleaned : ∀ id e, s.place id = some (.cleaned e) → e < 0

/-- Zeros behind what was requested, and what the server sent where a request is done. -/
structure Contents (f : Fin n) : Prop where
  tail : (s.folios f).uptodate ∨ s.group f ≠ [] → ∀ j, (s.folios f).requested ≤ j → j < c.size f →
    (s.folios f).length ≤ j ∧ s.byte c f j = 0
  done : ∀ id ∈ s.group f, ∀ h, s.place id = some (.completed h 0) →
    ∃ hdr, s.headers[h]? = some hdr ∧ ∀ j, s.Holds id f j → hdr.Sent (c.offset f j) (s.byte c f j)

/-- The call has not ended: the bytes before its offset are there, and its page vector has the memory of the others. -/
structure Awaits (hdr : ReadHeader) : Prop where
  asks : hdr.Asks
  tiles : Tiles hdr.ioStart (s.reqsOf hdr.pages) (hdr.ioStart + hdr.goodBytes)
  read : ∀ id ∈ hdr.pages, ∀ f j, s.Holds id f j → c.offset f j < hdr.args.offset →
    hdr.Delivered (c.offset f j) (s.byte c f j)
  vec : ∀ id ∈ hdr.pages, ∀ f j, s.Holds id f j → hdr.args.offset ≤ c.offset f j →
    c.offset f j < hdr.args.offset + hdr.args.count.toNat ∧
      vecByte shift hdr.args.pages (hdr.args.pgbase + (c.offset f j - hdr.args.offset)) = some (c.addr f j)
  held : ∀ i < hdr.args.count.toNat, ∃ id ∈ hdr.pages, ∃ f j, s.Holds id f j ∧ c.offset f j = hdr.args.offset + i

/-- A header in completion: the good bytes of the requests that are left are there. -/
structure Settles (hdr : ReadHeader) (bytes : Nat) : Prop where
  ended : ∃ total, hdr.Ended total ∧ Tiles (hdr.ioStart + bytes) (s.reqsOf hdr.pages) (hdr.ioStart + total)
  read : ∀ id ∈ hdr.pages, ∀ f j, s.Holds id f j → c.offset f j < hdr.ioStart + hdr.goodBytes →
    hdr.Delivered (c.offset f j) (s.byte c f j)

/-- Where a header is, and its requests. -/
structure Calls (h : Nat) (hdr : ReadHeader) : Prop where
  placed : ∀ id ∈ hdr.pages, s.place id = some (.header h)
  nodup : hdr.pages.Nodup
  running : hdr.phase = .running → s.Awaits c hdr
  completing : ∀ bytes, hdr.phase = .completing bytes → hdr.pnfsError = 0 → s.Settles c hdr bytes

/-- The invariant. -/
structure Inv : Prop where
  groups : s.Groups c
  marks : ∀ f, s.Marks f
  errors : s.Errors
  contents : ∀ f, s.Contents c f
  calls : ∀ h hdr, s.headers[h]? = some hdr → s.Calls c h hdr

end

/-! ### Parts of the invariant that a step does not touch -/

theorem Shares.keep (hs : s.Shares f) (hgroup : t.group f = s.group f)
    (hreq : (t.folios f).requested = (s.folios f).requested) (hcore : ∀ id ∈ s.group f, t.core id = s.core id) : t.Shares f := by
  have hholds : ∀ j, ∀ id ∈ s.group f, t.Holds id f j ↔ s.Holds id f j := fun j id hid => Holds.congr (hcore id hid)
  refine ⟨?_, fun j => ?_, fun j => ?_, fun j => ?_⟩ <;> rw [hgroup]
  · intro id hid
    rw [hcore id hid]
    exact hs.member id hid
  · intro id hid id' hid' hj hj'
    exact hs.disjoint j id hid id' hid' ((hholds j id hid).mp hj) ((hholds j id' hid').mp hj')
  · intro id hid hj
    exact hreq ▸ hs.within j id hid ((hholds j id hid).mp hj)
  · intro hj
    obtain ⟨id, hid, hheld⟩ := hs.cover j (hreq ▸ hj)
    exact ⟨id, hid, (hholds j id hid).mpr hheld⟩

theorem Marks.keep (hm : s.Marks f) (hfolio : t.folios f = s.folios f)
    (hdone : ∀ id ∈ s.group f, t.Done id ↔ s.Done id) (hout : ∀ id ∈ s.group f, t.Outstanding id → s.Outstanding id)
    (hbit : ∀ id ∈ s.group f, ∀ bit, t.testBit bit id = s.testBit bit id) : t.Marks f := by
  have hgroup : t.group f = s.group f := congrArg FolioState.group hfolio
  refine ⟨?_, ?_, ?_, ?_, ?_⟩ <;> rw [hfolio, hgroup]
  · exact fun hu id hid => (hdone id hid).mpr (hm.uptodate hu id hid)
  · intro hu id hid
    rw [hbit id hid, hm.bit_iff hu id hid, hdone id hid]
  · intro hu hne
    obtain ⟨id, hid, hnot⟩ := hm.undone hu hne
    exact ⟨id, hid, fun hd => hnot ((hdone id hid).mp hd)⟩
  · intro hl id hid hb ho
    exact hm.bit_unlock hl id hid (hbit id hid _ ▸ hb) (hout id hid ho)
  · exact fun hl id hid ho => hm.unlocked hl id hid (hout id hid ho)

theorem Awaits.keep (ha : s.Awaits c hdr) (hcore : ∀ id ∈ hdr.pages, t.core id = s.core id)
    (hbyte : ∀ id ∈ hdr.pages, ∀ f j, s.Holds id f j → t.byte c f j = s.byte c f j) : t.Awaits c hdr := by
  have hholds : ∀ id ∈ hdr.pages, ∀ f j, t.Holds id f j → s.Holds id f j := fun id hid f j => (Holds.congr (hcore id hid)).mp
  refine ⟨ha.asks, reqsOf_congr hcore ▸ ha.tiles, ?_, ?_, ?_⟩
  · intro id hid f j hj hlt
    have hj' := hholds id hid f j hj
    rw [hbyte id hid f j hj']
    exact ha.read id hid f j hj' hlt
  · exact fun id hid f j hj => ha.vec id hid f j (hholds id hid f j hj)
  · intro i hi
    obtain ⟨id, hid, f, j, hj, hoff⟩ := ha.held i hi
    exact ⟨id, hid, f, j, (Holds.congr (hcore id hid)).mpr hj, hoff⟩

theorem Settles.keep {bytes : Nat} (hs : s.Settles c hdr bytes) (hcore : ∀ id ∈ hdr.pages, t.core id = s.core id)
    (hbyte : ∀ id ∈ hdr.pages, ∀ f j, s.Holds id f j → t.byte c f j = s.byte c f j) : t.Settles c hdr bytes := by
  refine ⟨reqsOf_congr hcore ▸ hs.ended, ?_⟩
  intro id hid f j hj hlt
  have hj' := (Holds.congr (hcore id hid)).mp hj
  rw [hbyte id hid f j hj']
  exact hs.read id hid f j hj' hlt

theorem Calls.keep (hc : s.Calls c h hdr) (hcore : ∀ id ∈ hdr.pages, t.core id = s.core id)
    (hplace : ∀ id ∈ hdr.pages, t.place id = s.place id)
    (hbyte : ∀ id ∈ hdr.pages, ∀ f j, s.Holds id f j → t.byte c f j = s.byte c f j) : t.Calls c h hdr where
  placed id hid := (hplace id hid).trans (hc.placed id hid)
  nodup := hc.nodup
  running hrun := (hc.running hrun).keep hcore hbyte
  completing bytes hphase hok := (hc.completing bytes hphase hok).keep hcore hbyte

def Extends (s t : ReadSystem shift n) : Prop :=
  ∀ (h : Nat) (hdr : ReadHeader), s.headers[h]? = some hdr → ∃ hdr', t.headers[h]? = some hdr' ∧ hdr.answers ⊆ hdr'.answers

theorem extends_of_eq (hh : t.headers = s.headers) : Extends s t := fun _ hdr hget =>
  ⟨hdr, hh ▸ hget, .refl _⟩

variable {hdr' : ReadHeader}

theorem extends_updateHeader (hget : s.headers[h]? = some hdr) (hsub : hdr.answers ⊆ hdr'.answers)
    (hh : t.headers = s.headers.set h hdr') : Extends s t := by
  intro h₁ hdr₁ hget₁
  rw [hh]
  by_cases hne : h₁ = h
  · subst hne
    cases hget.symm.trans hget₁
    exact ⟨hdr', getElem?_set_self (lt_of_getElem? hget), hsub⟩
  · exact ⟨hdr₁, by rw [getElem?_set_ne (Ne.symm hne)]; exact hget₁, .refl _⟩

theorem Groups.lt_size (hg : s.Groups c) (hj : s.Holds id f j) : j < c.size f := by
  obtain ⟨req, hcore, -, hlt⟩ := hj
  exact lt_of_lt_of_le hlt (hg.onFolio id req f hcore).pgend_le

/-- Only the memory of requests that are not done may change. -/
theorem Contents.keep (hc : s.Contents c f) (hg : s.Groups c) (hgroup : t.group f = s.group f)
    (hrequested : (t.folios f).requested = (s.folios f).requested) (hlength : (t.folios f).length = (s.folios f).length)
    (hup : (t.folios f).uptodate → (s.folios f).uptodate ∨ s.group f ≠ [])
    (hcore : ∀ id ∈ s.group f, t.core id = s.core id)
    (hplace : ∀ id ∈ s.group f, ∀ h, t.place id = some (.completed h 0) → s.place id = some (.completed h 0) ∨
      ∃ hdr, t.headers[h]? = some hdr ∧ ∀ j, s.Holds id f j → hdr.Sent (c.offset f j) (t.byte c f j))
    (hhdrs : Extends s t) (hbyte : ∀ j < c.size f, t.byte c f j = s.byte c f j ∨
      ∃ id ∈ s.group f, s.Holds id f j ∧ ¬s.Done id) : t.Contents c f := by
  refine ⟨fun hread j hle hlt => ?_, fun id hid h hp => ?_⟩
  · rw [hrequested] at hle
    have hsame : t.byte c f j = s.byte c f j := by
      rcases hbyte j hlt with hsame | ⟨id, hid, hj, -⟩
      · exact hsame
      · exact absurd ((hg.shares f).within j id hid hj) (not_lt.mpr hle)
    rw [hlength, hsame]
    refine hc.tail ?_ j hle hlt
    rcases hread with hu | hne
    · exact hup hu
    · exact .inr (hgroup ▸ hne)
  · rw [hgroup] at hid
    have hholds : ∀ j, t.Holds id f j → s.Holds id f j := fun j => (Holds.congr (hcore id hid)).mp
    rcases hplace id hid h hp with hp' | ⟨hdr, hget, hsent⟩
    · obtain ⟨hdr, hget, hsent⟩ := hc.done id hid h hp'
      obtain ⟨hdr', hget', hsub⟩ := hhdrs h hdr hget
      refine ⟨hdr', hget', fun j hj => ?_⟩
      rcases hbyte j (hg.lt_size (hholds j hj)) with hsame | ⟨id', hid', hj', hnot⟩
      · rw [hsame]
        exact (hsent j (hholds j hj)).mono hsub
      · obtain rfl := (hg.shares f).disjoint j id hid id' hid' (hholds j hj) hj'
        exact absurd ⟨h, hp'⟩ hnot
    · exact ⟨hdr, hget, fun j hj => hsent j (hholds j hj)⟩

/-- What a read has made of a folio, its flags apart. -/
def shape (s : ReadSystem shift n) (f : Fin n) : Nat × Nat × List Nat :=
  ((s.folios f).length, (s.folios f).requested, s.group f)

/-- The requests and the groups stay as they are: a request may leave its list, with data or with an error. -/
structure Steady (c : PageCache shift n) (s t : ReadSystem shift n) : Prop where
  core : t.core = s.core
  shape : ∀ f, t.shape f = s.shape f
  uptodate : ∀ f, (t.folios f).uptodate → (s.folios f).uptodate ∨ s.group f ≠ []
  outstanding : ∀ id, t.Outstanding id → s.Outstanding id
  completed : ∀ id h e, t.place id = some (.completed h e) → s.place id = some (.completed h e) ∨
    (e ≠ 0 → e < 0 ∧ ∃ req f, s.core id = some (req, f) ∧ (req.openctx, e) ∈ t.openctxErrors) ∧
      (e = 0 → ∃ hdr, t.headers[h]? = some hdr ∧ ∀ f j, s.Holds id f j → hdr.Sent (c.offset f j) (t.byte c f j))
  cleaned : ∀ id e, t.place id = some (.cleaned e) → s.place id = some (.cleaned e) ∨ e < 0
  openctxErrors : s.openctxErrors ⊆ t.openctxErrors
  headers : Extends s t
  byte : ∀ f, ∀ j < c.size f, t.byte c f j = s.byte c f j ∨ ∃ id ∈ s.group f, s.Holds id f j ∧ ¬s.Done id

/-- Such a step keeps the invariant if it keeps the flags and the headers in order. -/
theorem Steady.inv (hs : Steady c s t) (hi : s.Inv c) (hmarks : ∀ f, t.Marks f)
    (hcalls : ∀ h hdr, t.headers[h]? = some hdr → t.Calls c h hdr) : t.Inv c := by
  have hgroup : ∀ f, t.group f = s.group f := fun f => congrArg (·.2.2) (hs.shape f)
  have hrequested : ∀ f, (t.folios f).requested = (s.folios f).requested := fun f => congrArg (·.2.1) (hs.shape f)
  have hcore : ∀ id, t.core id = s.core id := congrFun hs.core
  refine ⟨⟨?_, fun id req f hid ho => ?_, fun f => ?_⟩, hmarks, ⟨fun id h e hp hne => ?_, fun id e hp => ?_⟩, fun f => ?_, hcalls⟩
  · rw [hs.core]
    exact hi.groups.onFolio
  · rw [hgroup]
    exact hi.groups.live id req f (hcore id ▸ hid) (hs.outstanding id ho)
  · exact (hi.groups.shares f).keep (hgroup f) (hrequested f) fun id _ => hcore id
  · rw [hcore]
    rcases hs.completed id h e hp with hp | ⟨herr, -⟩
    · obtain ⟨hneg, req, f, hid, hmem⟩ := hi.errors.completed id h e hp hne
      exact ⟨hneg, req, f, hid, hs.openctxErrors hmem⟩
    · exact herr hne
  · exact (hs.cleaned id e hp).elim (hi.errors.cleaned id e) fun hneg => hneg
  · refine (hi.contents f).keep hi.groups (hgroup f) (hrequested f) (congrArg (·.1) (hs.shape f)) (hs.uptodate f)
      (fun id _ => hcore id) (fun id _ h hp => (hs.completed id h 0 hp).imp_right fun hnew => ?_) hs.headers (hs.byte f)
    obtain ⟨hdr, hget, hsent⟩ := hnew.2 rfl
    exact ⟨hdr, hget, hsent f⟩

/-- A step that only moves requests between the lists. -/
structure Relists (s t : ReadSystem shift n) : Prop where
  core : t.core = s.core
  folios : t.folios = s.folios
  testBit : t.testBit = s.testBit
  openctxErrors : t.openctxErrors = s.openctxErrors
  place : ∀ id, t.place id = s.place id ∨ s.Outstanding id ∧ t.Outstanding id

theorem Relists.inv (hr : Relists s t) (hi : s.Inv c) (hhdrs : Extends s t)
    (hbyte : ∀ f, ∀ j < c.size f, t.byte c f j = s.byte c f j ∨ ∃ id ∈ s.group f, s.Holds id f j ∧ ¬s.Done id)
    (hcalls : ∀ h hdr, t.headers[h]? = some hdr → t.Calls c h hdr) : t.Inv c := by
  have hout : ∀ id, t.Outstanding id → s.Outstanding id := by
    intro id ho
    rcases hr.place id with hp | ⟨ho', -⟩
    · unfold Outstanding at ho
      rwa [hp] at ho
    · exact ho'
  have hdone : ∀ id, t.Done id ↔ s.Done id := by
    intro id
    rcases hr.place id with hp | ⟨ho, ho'⟩
    · unfold Done
      rw [hp]
    · exact iff_of_false (fun ⟨_, hp⟩ => ho'.not_completed hp) fun ⟨_, hp⟩ => ho.not_completed hp
  refine Steady.inv ⟨hr.core, fun f => ?_, fun f hu => ?_, hout, fun id h e hp => ?_, fun id e hp => ?_,
    hr.openctxErrors ▸ .refl _, hhdrs, hbyte⟩ hi (fun f => ?_) hcalls
  · unfold shape group
    rw [hr.folios]
  · exact .inl (hr.folios ▸ hu)
  · rcases hr.place id with heq | ⟨-, ho⟩
    · exact .inl (heq ▸ hp)
    · exact absurd hp ho.not_completed
  · rcases hr.place id with heq | ⟨-, ho⟩
    · exact .inl (heq ▸ hp)
    · exact absurd hp ho.not_cleaned
  · exact (hi.marks f).keep (congrFun hr.folios f) (fun id _ => hdone id) (fun id _ => hout id) fun _ _ _ => by rw [hr.testBit]

theorem relists_setPlace (hids : ∀ id ∈ ids, s.Outstanding id) (hq : q = .listed ∨ ∃ h, q = .header h)
    (hreqs : t.reqs = (s.setPlace ids q).reqs) (hfolios : t.folios = s.folios) (herr : t.openctxErrors = s.openctxErrors) :
    Relists s t ∧ (∀ id ∈ ids, t.place id = some q) ∧ ∀ id ∉ ids, t.place id = s.place id := by
  have hget : ∀ id : Nat, t.reqs[id]? = (s.setPlace ids q).reqs[id]? := fun id => by rw [hreqs]
  have hmem : ∀ id ∈ ids, t.place id = some q := by
    intro id hid
    rw [place_congr (hget id)]
    rcases hids id hid with ho | ⟨_, ho⟩
    · exact place_setPlace_of_mem q hid ho
    · exact place_setPlace_of_mem q hid ho
  have hother : ∀ id ∉ ids, t.place id = s.place id := fun id hid =>
    (place_congr (hget id)).trans (place_setPlace_of_notMem q hid)
  refine ⟨⟨?_, hfolios, ?_, herr, fun id => ?_⟩, hmem, hother⟩
  · exact (funext fun id => core_congr (hget id)).trans (core_setPlace ids q)
  · exact (funext fun bit => funext fun id => testBit_congr (hget id)).trans (testBit_setPlace ids q)
  · by_cases hid : id ∈ ids
    · refine .inr ⟨hids id hid, ?_⟩
      rcases hq with rfl | ⟨h, rfl⟩
      · exact .inl (hmem id hid)
      · exact .inr ⟨h, hmem id hid⟩
    · exact .inl (hother id hid)

/-! ### Steps on one header -/

theorem Calls.mem_group (hc : s.Calls c h hdr) (hg : s.Groups c) (hid : id ∈ hdr.pages)
    (hj : s.Holds id f j) : id ∈ s.group f := by
  obtain ⟨req, hcore, -⟩ := hj
  exact hg.live id req f hcore (.inr ⟨h, hc.placed id hid⟩)

theorem Calls.not_done (hc : s.Calls c h hdr) (hid : id ∈ hdr.pages) : ¬s.Done id := by
  rintro ⟨h', hp⟩
  cases (hc.placed id hid).symm.trans hp

theorem Calls.eq_of_mem {h' : Nat} (hc : s.Calls c h hdr) (hc' : s.Calls c h' hdr') (hid : id ∈ hdr.pages)
    (hid' : id ∈ hdr'.pages) : h = h' :=
  ReqPlace.header.inj (some.inj ((hc.placed id hid).symm.trans (hc'.placed id hid')))

/-- A step on a header touches the requests on its list and their memory. -/
theorem Relists.inv_header (hr : Relists s t) (hi : s.Inv c) (hget : s.headers[h]? = some hdr)
    (hhdrs : t.headers = s.headers.set h hdr') (hsub : hdr.answers ⊆ hdr'.answers)
    (hplace : ∀ id ∉ hdr.pages, t.place id = s.place id)
    (hbyte : ∀ f, ∀ j < c.size f, t.byte c f j = s.byte c f j ∨ ∃ id ∈ hdr.pages, s.Holds id f j)
    (hcalls : t.Calls c h hdr') : t.Inv c := by
  have hc := hi.calls h hdr hget
  refine hr.inv hi (extends_updateHeader hget hsub hhdrs) (fun f j hj => ?_) fun h₁ hdr₁ hget₁ => ?_
  · refine (hbyte f j hj).imp_right fun ⟨id, hid, hheld⟩ => ?_
    exact ⟨id, hc.mem_group hi.groups hid hheld, hheld, hc.not_done hid⟩
  · rcases header_cases hhdrs hget₁ with ⟨rfl, rfl⟩ | ⟨hne, hget₁⟩
    · exact hcalls
    · have hc₁ := hi.calls h₁ hdr₁ hget₁
      refine hc₁.keep (fun id _ => congrFun hr.core id)
        (fun id hid => hplace id fun hid' => hne (hc₁.eq_of_mem hc hid hid')) fun id hid f j hj => ?_
      rcases hbyte f j (hi.groups.lt_size hj) with hsame | ⟨id', hid', hj'⟩
      · exact hsame
      · obtain rfl := (hi.groups.shares f).disjoint j id (hc₁.mem_group hi.groups hid hj) id'
          (hc.mem_group hi.groups hid' hj') hj hj'
        exact absurd (hc₁.eq_of_mem hc hid hid') hne

/-! ### Replies -/

section
variable {mem : Page × Nat → UInt8} {vals : Nat → UInt8} (ha : s.Awaits c hdr) (hg : s.Groups c)
include ha hg

/-- A position of the page vector is that of one request of the call. -/
theorem Awaits.position (hlt : j < c.size f) {i : Nat} (hi : i < hdr.args.count.toNat)
    (hvec : vecByte shift hdr.args.pages (hdr.args.pgbase + i) = some (c.addr f j)) :
    ∃ id ∈ hdr.pages, s.Holds id f j ∧ c.offset f j = hdr.args.offset + i := by
  obtain ⟨id, hid, f', j', hj', hoff⟩ := ha.held i hi
  obtain ⟨-, hvec'⟩ := ha.vec id hid f' j' hj' (by omega)
  rw [hoff, Nat.add_sub_cancel_left, hvec] at hvec'
  obtain ⟨rfl, rfl⟩ := PageCache.addr_inj hlt (hg.lt_size hj') (some.inj hvec')
  exact ⟨id, hid, hj', hoff⟩

theorem Awaits.scatter_held (hid : id ∈ hdr.pages) (hj : s.Holds id f j) (hle : hdr.args.offset ≤ c.offset f j) :
    scatter (fun i => vecByte shift hdr.args.pages (hdr.args.pgbase + i)) vals mem hdr.args.count.toNat (c.addr f j) =
      vals (c.offset f j - hdr.args.offset) := by
  obtain ⟨hlt, hvec⟩ := ha.vec id hid f j hj hle
  refine scatter_of_unique (by omega) hvec fun i hi hi' => ?_
  obtain ⟨_, _, _, hoff⟩ := ha.position hg (hg.lt_size hj) hi hi'
  omega

theorem Awaits.scatter_other (hlt : j < c.size f) (hnot : ∀ id ∈ hdr.pages, s.Holds id f j → c.offset f j < hdr.args.offset) :
    scatter (fun i => vecByte shift hdr.args.pages (hdr.args.pgbase + i)) vals mem hdr.args.count.toNat (c.addr f j) =
      mem (c.addr f j) := by
  refine scatter_of_forall_ne fun i hi hi' => ?_
  obtain ⟨id, hid, hj, hoff⟩ := ha.position hg hlt hi hi'
  have := hnot id hid hj
  omega

end

theorem Awaits.settles (ha : s.Awaits c hdr) (hb : hdr.Brings bytes m hdr') (hcore : t.core = s.core)
    (hread : ∀ id ∈ hdr.pages, ∀ f j, s.Holds id f j → c.offset f j < hdr.args.offset + m →
      hdr'.Delivered (c.offset f j) (t.byte c f j))
    (hended : hdr'.Ended hdr.goodBytes) (hgood : hdr'.ioStart + hdr'.goodBytes = hdr.args.offset + m) : t.Settles c hdr' 0 := by
  refine ⟨⟨hdr.goodBytes, hended, ?_⟩, ?_⟩
  · rw [hb.pages, hb.ioStart, reqsOf_congr fun id _ => congrFun hcore id]
    exact ha.tiles
  · rw [hb.pages, hgood]
    exact fun id hid f j hj hlt => hread id hid f j ((Holds.congr (congrFun hcore id)).mp hj) hlt

theorem Awaits.awaits (ha : s.Awaits c hdr) (hb : hdr.Brings bytes m hdr') (hcore : t.core = s.core)
    (hread : ∀ id ∈ hdr.pages, ∀ f j, s.Holds id f j → c.offset f j < hdr.args.offset + m →
      hdr'.Delivered (c.offset f j) (t.byte c f j))
    (hasks : hdr'.Asks) (hgood : hdr'.goodBytes = hdr.goodBytes) (hpages : hdr'.args.pages = hdr.args.pages)
    (hoffset : hdr'.args.offset = hdr.args.offset + m) (hpgbase : hdr'.args.pgbase = hdr.args.pgbase + m) : t.Awaits c hdr' := by
  have hholds : ∀ id f j, t.Holds id f j ↔ s.Holds id f j := fun id f j => Holds.congr (congrFun hcore id)
  have hstop : hdr'.args.offset + hdr'.args.count.toNat = hdr.args.offset + hdr.args.count.toNat := by
    rw [hasks.stop, ha.asks.stop, hb.ioStart, hgood]
  refine ⟨hasks, ?_, ?_, ?_, ?_⟩
  · rw [hb.pages, hb.ioStart, hgood, reqsOf_congr fun id _ => congrFun hcore id]
    exact ha.tiles
  · rw [hb.pages, hoffset]
    exact fun id hid f j hj hlt => hread id hid f j ((hholds _ _ _).mp hj) hlt
  · rw [hb.pages, hpages, hpgbase]
    intro id hid f j hj hle
    obtain ⟨hlt, hvec⟩ := ha.vec id hid f j ((hholds _ _ _).mp hj) (by omega)
    refine ⟨hstop.symm ▸ hlt, ?_⟩
    rw [← hvec]
    congr 1
    omega
  · rw [hb.pages]
    intro i hi
    obtain ⟨id, hid, f, j, hj, hoff⟩ := ha.held (m + i) (by omega)
    exact ⟨id, hid, f, j, (hholds _ _ _).mpr hj, by omega⟩

/-- A reply brings the header to the next call or to its completion. -/
theorem Awaits.calls_reply (ha : s.Awaits c hdr) (hg : s.Groups c)
    (hc : s.Calls c h hdr) (hb : hdr.Brings rep.bytes m hdr') (hcore : t.core = s.core) (hplace : t.place = s.place)
    (hmem : t.mem = scatter (fun i => vecByte shift hdr.args.pages (hdr.args.pgbase + i)) rep.bytes s.mem
      hdr.args.count.toNat) : t.Calls c h hdr' := by
  have hread : ∀ id ∈ hdr.pages, ∀ f j, s.Holds id f j → c.offset f j < hdr.args.offset + m →
      hdr'.Delivered (c.offset f j) (t.byte c f j) := by
    intro id hid f j hj hlt
    unfold byte
    rw [hmem]
    by_cases hle : hdr.args.offset ≤ c.offset f j
    · rw [ha.scatter_held hg hid hj hle]
      have hd := hb.delivered (c.offset f j - hdr.args.offset) (by omega)
      rwa [Nat.add_sub_cancel' hle] at hd
    · rw [ha.scatter_other hg (hg.lt_size hj) fun _ _ _ => Nat.lt_of_not_le hle]
      exact (ha.read id hid f j hj (Nat.lt_of_not_le hle)).mono hb.answers
  refine ⟨?_, hb.pages ▸ hc.nodup, fun hrun => ?_, fun bytes hphase hok => ?_⟩
  · rw [hb.pages, hplace]
    exact hc.placed
  · rcases hb.next with ⟨-, hasks, hgood, hpages, hoffset, hpgbase⟩ | ⟨hphase, -⟩
    · exact ha.awaits hb hcore hread hasks hgood hpages hoffset hpgbase
    · cases hphase.symm.trans hrun
  · rcases hb.next with ⟨hrun, -⟩ | ⟨hphase', hbad | ⟨hended, hgood⟩⟩
    · cases hrun.symm.trans hphase
    · exact absurd hok hbad
    · cases hphase'.symm.trans hphase
      exact ha.settles hb hcore hread hended hgood

theorem Inv.reply (hi : s.Inv c) (ht : s.reply h rep = some t) : t.Inv c := by
  unfold ReadSystem.reply at ht
  split at ht
  next hdr hget =>
    obtain ⟨hrun, ht⟩ := of_guard ht
    have hc := hi.calls h hdr hget
    have ha := hc.running hrun
    obtain ⟨m, hb⟩ := ha.asks.nfsPgioResult hrun rep
    cases ht
    refine Relists.inv_header (s := s) ⟨rfl, rfl, rfl, rfl, fun _ => .inl rfl⟩ hi hget rfl hb.answers (fun _ _ => rfl)
      (fun f j hj => ?_) (ha.calls_reply hi.groups hc hb rfl rfl rfl)
    by_cases hheld : ∃ id ∈ hdr.pages, s.Holds id f j
    · exact .inr hheld
    · exact .inl (ha.scatter_other hi.groups hj fun id hid hj' => absurd ⟨id, hid, hj'⟩ hheld)
  · cases ht

theorem Inv.resend (hi : s.Inv c) (ht : s.resend h = some t) : t.Inv c := by
  unfold ReadSystem.resend at ht
  split at ht
  next hdr hget =>
    have hout : ∀ id ∈ hdr.pages, s.Outstanding id := fun id hid => .inr ⟨h, (hi.calls h hdr hget).placed id hid⟩
    have hcases : some ((s.setPlace hdr.pages .listed).updateHeader h
        { hdr with iohdrRedo := true, pages := [], phase := .released }) = some t := by
      split at ht
      · exact ht
      · exact ht
      · cases ht
    cases hcases
    obtain ⟨hr, -, hother⟩ := relists_setPlace hout (.inl rfl) rfl rfl rfl
      (t := (s.setPlace hdr.pages .listed).updateHeader h { hdr with iohdrRedo := true, pages := [], phase := .released })
    refine hr.inv_header hi hget rfl ?_ hother (fun _ _ _ => .inl rfl) ⟨nofun, nodup_nil, nofun, nofun⟩
    exact List.Subset.refl hdr.answers
  · cases ht

/-! ### Sending -/

theorem bounds_of_tiles {e : Nat} : ∀ {reqs : List (NfsPage shift)} {a : Nat}, Tiles a reqs e →
    req ∈ reqs → a ≤ req.reqOffset ∧ req.reqOffset + req.wbBytes ≤ e
  | req' :: reqs, a, ht, hmem => by
    obtain ⟨hoff, hrest⟩ := ht
    rcases mem_cons.mp hmem with rfl | hmem
    · exact ⟨hoff.ge, hoff ▸ hrest.le⟩
    · obtain ⟨hle, hend⟩ := bounds_of_tiles hrest hmem
      exact ⟨(Nat.le_add_right _ _).trans hle, hend⟩

theorem fileByte_of_tiles {e k : Nat} (hk : k < req.wbBytes) :
    ∀ {reqs : List (NfsPage shift)} {a : Nat}, Tiles a reqs e → req ∈ reqs →
      fileByte reqs (req.reqOffset + k) = some (req.byteAt k)
  | req' :: reqs, a, ht, hmem => by
    obtain ⟨hoff, hrest⟩ := ht
    rw [fileByte]
    rcases mem_cons.mp hmem with rfl | hmem
    · rw [if_pos ⟨Nat.le_add_right _ _, Nat.add_lt_add_left hk _⟩, Nat.add_sub_cancel_left]
    · have hle := (bounds_of_tiles hrest hmem).1
      rw [if_neg (by omega)]
      exact fileByte_of_tiles hk hrest hmem

theorem fileByte_cases {o : Nat} {b : Page × Nat} : ∀ {reqs : List (NfsPage shift)}, fileByte reqs o = some b →
    ∃ req ∈ reqs, ∃ k < req.wbBytes, o = req.reqOffset + k
  | req :: reqs, hb => by
    rw [fileByte] at hb
    split at hb
    next hin => exact ⟨req, mem_cons_self, o - req.reqOffset, by omega, by omega⟩
    · obtain ⟨req', hmem, hk⟩ := fileByte_cases hb
      exact ⟨req', mem_cons_of_mem _ hmem, hk⟩

theorem mem_reqsOf : req ∈ s.reqsOf ids ↔ ∃ id ∈ ids, ∃ f, s.core id = some (req, f) := by
  simp only [reqsOf, mem_filterMap, map_eq_some_iff, Prod.exists]
  constructor
  · rintro ⟨id, hid, req', f, hcore, rfl⟩
    exact ⟨id, hid, f, hcore⟩
  · rintro ⟨id, hid, f, hcore⟩
    exact ⟨id, hid, req, f, hcore, rfl⟩

theorem listed_of_eq (hl : s.listed? id = some req) : s.place id = some .listed ∧ ∃ f, s.core id = some (req, f) := by
  unfold listed? at hl
  split at hl
  next r hr =>
    obtain ⟨hp, rfl⟩ := of_guard_some hl
    unfold place core
    rw [hr]
    exact ⟨congrArg some hp, r.folio, rfl⟩
  · cases hl

theorem adds_listed : ∀ {adds : List (AddEnv × Nat)} {reqs : List (AddEnv × NfsPage shift)},
    (adds.mapM fun (env, id) => (s.listed? id).map (env, ·)) = some reqs →
    s.reqsOf (adds.map (·.2)) = reqs.map (·.2) ∧ ∀ id ∈ adds.map (·.2), s.place id = some .listed
  | [], reqs, hm => by
    cases hm
    exact ⟨rfl, nofun⟩
  | (env, id) :: adds, reqs, hm => by
    rw [mapM_cons] at hm
    obtain ⟨r, hr, hm⟩ := bind_eq_some_iff.mp hm
    obtain ⟨rs, hrs, hm⟩ := bind_eq_some_iff.mp hm
    obtain ⟨req, hreq, rfl⟩ := map_eq_some_iff.mp hr
    cases hm
    obtain ⟨hplace, f, hcore⟩ := listed_of_eq hreq
    obtain ⟨hreqs, hall⟩ := adds_listed hrs
    refine ⟨?_, ?_⟩
    · rw [map_cons, reqsOf_cons hcore, hreqs]
      rfl
    · exact forall_mem_cons.mpr ⟨hplace, hall⟩

/-- A header that was just sent: its vector is the memory of its requests, in order. -/
theorem Groups.awaits (hg : s.Groups c) {first : NfsPage shift} {rest : List (NfsPage shift)}
    (hreqs : s.reqsOf ids = first :: rest) (hmax : totalBytes (first :: rest) < 2 ^ 32)
    (htiles : Tiles first.reqOffset (first :: rest) (first.reqOffset + totalBytes (first :: rest)))
    {pages : List Page} {pgbase : Nat}
    (hbytes : ∀ i < totalBytes (first :: rest), ∃ b, vecByte shift pages (pgbase + i) = some b ∧
      fileByte (first :: rest) (first.reqOffset + i) = some b) (tkOps : Bool) :
    s.Awaits c { ioStart := first.reqOffset, goodBytes := totalBytes (first :: rest), pages := ids
                 args := ⟨first.reqOffset, pgbase, BitVec.ofNat 32 (totalBytes (first :: rest)), pages⟩, tkOps } := by
  have hcount : (BitVec.ofNat 32 (totalBytes (first :: rest))).toNat = totalBytes (first :: rest) := by
    rw [BitVec.toNat_ofNat, Nat.mod_eq_of_lt hmax]
  have hpos : 0 < totalBytes (first :: rest) := by
    have := first.bytes_pos
    simp only [totalBytes, map_cons, sum_cons]
    omega
  -- a byte of one of the requests is in the range of the call, and the vector has its memory
  have hrange : ∀ id ∈ ids, ∀ f j, s.Holds id f j → first.reqOffset ≤ c.offset f j ∧
      c.offset f j < first.reqOffset + totalBytes (first :: rest) ∧
      fileByte (first :: rest) (c.offset f j) = some (c.addr f j) := by
    rintro id hid f j ⟨req, hcore, hle, hlt⟩
    have hmem : req ∈ first :: rest := hreqs ▸ mem_reqsOf.mpr ⟨id, hid, f, hcore⟩
    have ho := hg.onFolio id req f hcore
    obtain ⟨hstart, hend⟩ := bounds_of_tiles htiles hmem
    have hk : j - req.wbPgbase < req.wbBytes := by unfold NfsPage.pgend at hlt; omega
    have hoff : req.reqOffset + (j - req.wbPgbase) = c.offset f j := by rw [ho.reqOffset, Nat.add_sub_cancel' hle]
    have hbyte := fileByte_of_tiles hk htiles hmem
    rw [hoff, ho.byteAt, Nat.add_sub_cancel' hle] at hbyte
    exact ⟨by omega, by omega, hbyte⟩
  refine ⟨⟨le_rfl, ?_, ?_, hmax, rfl, rfl⟩, ?_, ?_, ?_, ?_⟩
  · rw [hcount]
  · rw [hcount]
    exact hpos
  · exact hreqs.symm ▸ htiles
  · exact fun id hid f j hj hlt => absurd (hrange id hid f j hj).1 (not_le.mpr hlt)
  · intro id hid f j hj _
    obtain ⟨hle, hlt, hfile⟩ := hrange id hid f j hj
    refine ⟨by rw [hcount]; exact hlt, ?_⟩
    obtain ⟨b, hvec, hb⟩ := hbytes (c.offset f j - first.reqOffset) (by omega)
    rw [Nat.add_sub_cancel' hle, hfile] at hb
    exact hvec.trans hb.symm
  · intro i hi
    rw [hcount] at hi
    obtain ⟨b, -, hb⟩ := hbytes i hi
    obtain ⟨req, hmem, k, hk, hoff⟩ := fileByte_cases hb
    obtain ⟨id, hid, f, hcore⟩ := mem_reqsOf.mp (hreqs ▸ hmem)
    refine ⟨id, hid, f, req.wbPgbase + k, ⟨req, hcore, Nat.le_add_right _ _, Nat.add_lt_add_left hk _⟩, ?_⟩
    rw [← (hg.onFolio id req f hcore).reqOffset]
    exact hoff.symm

theorem send_cases (hg : s.Groups c) (ht : s.send c adds tkOps = some t) : let ids := adds.map (·.2)
    (∀ id ∈ ids, s.place id = some .listed) ∧ ids.Nodup ∧ ∃ hdr : ReadHeader, hdr.pages = ids ∧ hdr.phase = .running ∧
      s.Awaits c hdr ∧ t = { s.setPlace ids (.header s.headers.length) with headers := s.headers ++ [hdr] } := by
  intro ids
  unfold ReadSystem.send at ht
  simp only [bind_eq_bind, bind_eq_some_iff] at ht
  obtain ⟨reqs, hreqs, desc, hdesc, ht⟩ := ht
  obtain ⟨hof, hlisted⟩ := adds_listed hreqs
  have hlist : desc.mirror.pgList = s.reqsOf ids := (pgList_of_adds hdesc).trans hof.symm
  have hmirror : Mirrors desc := exec_invariant (fun _ _ _ h hs => h.addStep hs) (Mirrors.of_nil rfl) hdesc
  split at ht
  · cases ht
  next first rest hfirst =>
    obtain ⟨-, hcount⟩ := hmirror.first first rest hfirst
    rw [hfirst] at hcount
    obtain ⟨hok, ht⟩ := of_guard ht
    obtain ⟨hnodup, hle⟩ := hok
    have hmax : totalBytes (first :: rest) < 2 ^ 32 := by have := c.rsize.isLt; omega
    obtain ⟨pages, hpgio, -, hbytes⟩ := hmirror.mynfsGenericPgio hfirst hmax fun _ => true
    have hcont := hmirror.contiguous
    rw [hfirst] at hcont
    split at ht
    next args hargs =>
      cases hpgio.symm.trans hargs
      refine ⟨hlisted, hnodup, _, rfl, rfl, ?_, (some.inj ht).symm⟩
      rw [hcount]
      exact hg.awaits (hlist.symm.trans hfirst) hmax hcont.tiles hbytes tkOps
    · cases ht

theorem Inv.send (hi : s.Inv c) (ht : s.send c adds tkOps = some t) : t.Inv c := by
  obtain ⟨hlisted, hnodup, hdr, hpages, hrun, ha, rfl⟩ := send_cases hi.groups ht
  obtain ⟨hr, hmem, hother⟩ := relists_setPlace (fun id hid => .inl (hlisted id hid)) (.inr ⟨s.headers.length, rfl⟩) rfl rfl rfl
    (t := { s.setPlace (adds.map (·.2)) (.header s.headers.length) with headers := s.headers ++ [hdr] })
  refine hr.inv hi (fun h hdr' hget => ⟨hdr', ?_, .refl _⟩) (fun _ _ _ => .inl rfl) fun h hdr' hget => ?_
  · exact (getElem?_append_left (lt_of_getElem? hget)).trans hget
  · by_cases hlt : h < s.headers.length
    · rw [getElem?_append_left hlt] at hget
      have hc := hi.calls h hdr' hget
      refine hc.keep (fun id _ => congrFun hr.core id) (fun id hid => hother id fun hid' => ?_) fun _ _ _ _ _ => rfl
      cases (hc.placed id hid).symm.trans (hlisted id hid')
    · -- the new header
      obtain ⟨rfl, rfl⟩ : hdr' = hdr ∧ h = s.headers.length := by
        rw [getElem?_append_right (not_lt.mp hlt), getElem?_singleton] at hget
        split at hget
        · exact ⟨(some.inj hget).symm, by omega⟩
        · cases hget
      refine ⟨hpages ▸ hmem, hpages ▸ hnodup, fun _ => ?_, fun bytes hb => by cases hrun.symm.trans hb⟩
      exact ha.keep (fun id _ => congrFun hr.core id) fun _ _ _ _ _ => rfl

/-! ### Releasing a request -/

theorem Marks.not_uptodate (hm : s.Marks f) (hid : id ∈ s.group f) (hd : ¬s.Done id) : (s.folios f).uptodate = false :=
  Bool.eq_false_iff.mpr fun hu => hd (hm.uptodate hu id hid)

theorem Marks.locked (hm : s.Marks f) (hid : id ∈ s.group f) (ho : s.Outstanding id) : (s.folios f).locked :=
  Bool.eq_true_of_not_eq_false fun hl => hm.unlocked hl id hid ho

/-- What changes a flag of the folio `f` and bits of its group only. -/
structure Flags (s t : ReadSystem shift n) (f : Fin n) : Prop where
  core : t.core = s.core
  place : t.place = s.place
  folio_other : ∀ g, g ≠ f → t.folios g = s.folios g
  shape : t.shape f = s.shape f
  bit_other : ∀ other, other ∉ s.group f → ∀ bit, t.testBit bit other = s.testBit bit other

/-- All others of the group have the bit and a flag of the folio becomes `val`, or only `id` gets the bit. -/
def Synced (s t : ReadSystem shift n) (bit : PgBit) (id : Nat) (f : Fin n) (flag : FolioState → Bool) (val : Bool) : Prop :=
  flag (t.folios f) = val ∧ (∀ other ∈ s.group f, other ≠ id → s.testBit bit other) ∨
    flag (t.folios f) = flag (s.folios f) ∧ t.testBit bit id ∧
      (∀ other, other ≠ id → t.testBit bit other = s.testBit bit other) ∧
      ∃ other ∈ s.group f, other ≠ id ∧ s.testBit bit other = false

/-- What a synchronisation on a bit leaves alone, and what it says of the group. -/
theorem synced (hid : id ∈ s.group f) (hr : s.reqs[id]? = some r) (hv : ∀ x, (v x).length = x.length ∧
      (v x).requested = x.requested ∧ (v x).group = x.group) (ht : t = match s.nfsPageGroupSyncOnBit b id f with
      | (true, s) => s.updateFolio f v
      | (false, s) => s) : (Flags s t f ∧ t.headers = s.headers ∧ t.mem = s.mem ∧ t.openctxErrors = s.openctxErrors) ∧
    (∀ bit', bit' ≠ b → t.testBit bit' = s.testBit bit') ∧
    (∀ flag : FolioState → Bool, (∀ x, flag (v x) = flag x) → flag (t.folios f) = flag (s.folios f)) ∧
    ∀ flag val, (∀ x, flag (v x) = val) → Synced s t b id f flag val := by
  have hbit : ∀ p val bit', bit' ≠ b → (s.updateReqs p fun r => r.setBit val b).testBit bit' = s.testBit bit' := by
    intro p val bit' hne
    refine testBit_updateReqs fun r => ?_
    cases b <;> cases bit' <;> first | exact absurd rfl hne | rfl
  have hnot : ∀ {p : Nat → Bool} {other : Nat} (val : Bool) (bit' : PgBit), p other = false →
      (s.updateReqs p fun r => r.setBit val b).testBit bit' other = s.testBit bit' other := fun val bit' hp =>
    testBit_congr (getElem?_updateReqs_of_not hp)
  have hcore : ∀ p val, (s.updateReqs p fun r => r.setBit val b).core = s.core := fun p val =>
    funext (map_updateReqs fun _ => by cases b <;> rfl)
  have hplace : ∀ p val, (s.updateReqs p fun r => r.setBit val b).place = s.place := fun p val =>
    funext (map_updateReqs fun _ => by cases b <;> rfl)
  unfold nfsPageGroupSyncOnBit at ht
  dsimp only at ht
  split at ht
  next heq =>
    split at heq
    next hall =>
      cases heq
      have hself : t.folios f = v (s.folios f) := by rw [ht]; exact if_pos rfl
      refine ⟨⟨⟨ht ▸ hcore _ _, ht ▸ hplace _ _, fun g hne => ?_, ?_, fun other hother bit' => ?_⟩, ?_, ?_, ?_⟩, ht ▸ hbit _ _,
        fun flag hflag => by rw [hself, hflag], fun flag val hflag => .inl ⟨by rw [hself, hflag], fun other hother hne => ?_⟩⟩
      · rw [ht]
        exact if_neg hne
      · unfold shape group
        rw [hself, (hv _).1, (hv _).2.1, (hv _).2.2]
      · rw [ht]
        exact hnot _ _ (decide_eq_false hother)
      iterate 3 rw [ht]; rfl
      · simpa [hne] using all_eq_true.mp hall other hother
    · cases heq
  next heq =>
    split at heq
    · cases heq
    next hmissing =>
      cases heq
      subst ht
      refine ⟨⟨⟨hcore _ _, hplace _ _, fun _ _ => rfl, rfl, fun other hother bit' => ?_⟩, rfl, rfl, rfl⟩, hbit _ _,
        fun _ _ => rfl, fun flag val _ => .inr ⟨rfl, ?_, fun other hne => hnot _ _ (decide_eq_false hne), ?_⟩⟩
      · exact hnot _ _ (decide_eq_false fun heq => hother (heq ▸ hid))
      · rw [testBit_eq, getElem?_updateReqs, hr]
        cases b <;> simp [ReadReq.setBit, ReadReq.testBit]
      · simpa [group, List.all_eq_true, not_or] using hmissing

/-- A request of `f` leaves its list with the place `q`. One that is done takes part in the synchronisation on
    `PG_UPTODATE`. -/
structure Releases (s t : ReadSystem shift n) (f : Fin n) (id : Nat) (q : ReqPlace) : Prop where
  core : t.core = s.core
  place_self : t.place id = some q
  place_other : ∀ other, other ≠ id → t.place other = s.place other
  folio_other : ∀ g, g ≠ f → t.folios g = s.folios g
  shape : t.shape f = s.shape f
  bit_other : ∀ other, other ∉ s.group f → ∀ bit, t.testBit bit other = s.testBit bit other
  released : q ≠ .listed ∧ ∀ h, q ≠ .header h
  unlock : Synced s t .unlockpage id f (·.locked) false
  mark : (∃ h, q = .completed h 0) ∧ Synced s t .uptodate id f (·.uptodate) true ∨
    (¬∃ h, q = .completed h 0) ∧ (t.folios f).uptodate = (s.folios f).uptodate ∧ t.testBit .uptodate = s.testBit .uptodate

namespace Releases

section
variable (hr : Releases s t f id q) {other : Nat}
include hr

theorem not_outstanding : ¬t.Outstanding id := by
  rintro (hp | ⟨h, hp⟩)
  · exact hr.released.1 (some.inj (hr.place_self.symm.trans hp))
  · exact hr.released.2 h (some.inj (hr.place_self.symm.trans hp))

theorem outstanding_of (ho : t.Outstanding other) : s.Outstanding other := by
  have hne : other ≠ id := fun heq => hr.not_outstanding (heq ▸ ho)
  unfold Outstanding at ho
  rwa [hr.place_other other hne] at ho

theorem done_other (hne : other ≠ id) : t.Done other ↔ s.Done other := by
  unfold Done
  rw [hr.place_other other hne]

theorem done_self : t.Done id ↔ ∃ h, q = .completed h 0 := by
  unfold Done
  rw [hr.place_self]
  simp only [Option.some.injEq]

theorem marks_other (hg : s.Groups c) (hm : s.Marks g) (hid : id ∈ s.group f) (hne : g ≠ f) : t.Marks g := by
  have hother : ∀ other ∈ s.group g, other ∉ s.group f := by
    intro other hother hother'
    obtain ⟨req, hcore⟩ := (hg.shares g).member other hother
    obtain ⟨req', hcore'⟩ := (hg.shares f).member other hother'
    exact hne (Prod.mk.inj (some.inj (hcore.symm.trans hcore'))).2
  have hself : ∀ other ∈ s.group g, other ≠ id := fun other ho heq => hother other ho (heq ▸ hid)
  exact hm.keep (hr.folio_other g hne) (fun other ho => hr.done_other (hself other ho)) (fun other _ => hr.outstanding_of)
    fun other ho => hr.bit_other other (hother other ho)

/-- The last request of a group to finish marks and unlocks the folio. -/
theorem marks_self (hm : s.Marks f) (hid : id ∈ s.group f) (ho : s.Outstanding id) : t.Marks f := by
  have hnd : ¬s.Done id := fun ⟨_, hp⟩ => ho.not_completed hp
  have hup := hm.not_uptodate hid hnd
  have hbit := hm.bit_iff hup
  have hlocked := hm.locked hid ho
  have hgroup : t.group f = s.group f := congrArg (·.2.2) hr.shape
  -- the lock
  have hlock : ∀ other ∈ s.group f, (t.folios f).locked = false ∨ t.testBit .unlockpage other → ¬t.Outstanding other := by
    intro other hother hl hto
    have hne : other ≠ id := fun heq => hr.not_outstanding (heq ▸ hto)
    refine hm.bit_unlock hlocked other hother ?_ (hr.outstanding_of hto)
    rcases hr.unlock with ⟨-, hall⟩ | ⟨hsame, -, hothers, -⟩
    · exact hall other hother hne
    · rcases hl with hl | hl
      · cases (hsame.trans hlocked).symm.trans hl
      · exact hothers other hne ▸ hl
  have hbits : (t.folios f).locked → ∀ other ∈ t.group f, t.testBit .unlockpage other → ¬t.Outstanding other :=
    fun _ other hother hb => hlock other (hgroup ▸ hother) (.inr hb)
  have hfree : (t.folios f).locked = false → ∀ other ∈ t.group f, ¬t.Outstanding other := fun hl other hother =>
    hlock other (hgroup ▸ hother) (.inl hl)
  rcases hr.mark with ⟨hdone, ⟨huptodate, hall⟩ | ⟨hsame, hself, hothers, hmissing⟩⟩ | ⟨hnot, hsame, hsync⟩
  · -- the last request of the group
    refine ⟨fun _ => ?_, fun hf => ?_, fun hf => ?_, hbits, hfree⟩
    · rw [hgroup]
      intro other hother
      rcases eq_or_ne other id with rfl | hne
      · exact hr.done_self.mpr hdone
      · exact (hr.done_other hne).mpr ((hbit other hother).mp (hall other hother hne))
    · cases huptodate.symm.trans hf
    · cases huptodate.symm.trans hf
  · refine ⟨fun ht => ?_, fun _ => ?_, fun _ _ => ?_, hbits, hfree⟩
    · cases (hsame.trans hup).symm.trans ht
    · rw [hgroup]
      intro other hother
      rcases eq_or_ne other id with rfl | hne
      · exact iff_of_true hself (hr.done_self.mpr hdone)
      · rw [hothers other hne, hbit other hother, hr.done_other hne]
    · obtain ⟨other, hother, hne, hfalse⟩ := hmissing
      refine ⟨other, hgroup ▸ hother, fun hd => ?_⟩
      cases ((hbit other hother).mpr ((hr.done_other hne).mp hd)).symm.trans hfalse
  · refine ⟨fun ht => ?_, fun _ => ?_, fun _ _ => ⟨id, hgroup ▸ hid, hr.done_self.not.mpr hnot⟩, hbits, hfree⟩
    · cases (hsame.trans hup).symm.trans ht
    · rw [hgroup]
      intro other hother
      rw [hsync, hbit other hother]
      rcases eq_or_ne other id with rfl | hne
      · exact iff_of_false hnd (hr.done_self.not.mpr hnot)
      · exact (hr.done_other hne).symm

theorem inv (hi : s.Inv c) (hid : id ∈ s.group f) (ho : s.Outstanding id)
    (hmem : t.mem = s.mem) (hhdrs : Extends s t) (hsub : s.openctxErrors ⊆ t.openctxErrors)
    (hcompl : ∀ h e, q = .completed h e → e ≠ 0 → e < 0 ∧ ∃ req f, s.core id = some (req, f) ∧ (req.openctx, e) ∈ t.openctxErrors)
    (hcleaned : ∀ e, q = .cleaned e → e < 0) (hsent : ∀ h, q = .completed h 0 →
      ∃ hdr, t.headers[h]? = some hdr ∧ ∀ f j, s.Holds id f j → hdr.Sent (c.offset f j) (s.byte c f j))
    (hcalls : ∀ h hdr, t.headers[h]? = some hdr → t.Calls c h hdr) : t.Inv c := by
  have hbyte : ∀ g j, t.byte c g j = s.byte c g j := fun g j => congrFun hmem _
  have hfolio : ∀ g, t.shape g = s.shape g ∧ ((t.folios g).uptodate → (s.folios g).uptodate ∨ s.group g ≠ []) := by
    intro g
    by_cases hg : g = f
    · subst hg
      exact ⟨hr.shape, fun _ => .inr (ne_nil_of_mem hid)⟩
    · unfold ReadSystem.shape group
      rw [hr.folio_other g hg]
      exact ⟨rfl, .inl⟩
  have hplace : ∀ {other q'}, t.place other = some q' → s.place other = some q' ∨ other = id ∧ q = q' := by
    intro other q' hp
    rcases eq_or_ne other id with rfl | hne
    · exact .inr ⟨rfl, some.inj (hr.place_self.symm.trans hp)⟩
    · exact .inl (hr.place_other other hne ▸ hp)
  refine Steady.inv ⟨hr.core, fun g => (hfolio g).1, fun g => (hfolio g).2, fun _ => hr.outstanding_of, fun other h e hp => ?_,
    fun other e hp => ?_, hsub, hhdrs, fun g j _ => .inl (hbyte g j)⟩ hi (fun g => ?_) hcalls
  · refine (hplace hp).imp_right ?_
    rintro ⟨rfl, rfl⟩
    refine ⟨hcompl h e rfl, ?_⟩
    rintro rfl
    obtain ⟨hdr, hget, hsent⟩ := hsent h rfl
    exact ⟨hdr, hget, fun g j hj => hbyte g j ▸ hsent g j hj⟩
  · exact (hplace hp).imp_right fun hq => hcleaned e hq.2
  · by_cases hne : g = f
    · subst hne
      exact hr.marks_self (hi.marks g) hid ho
    · exact hr.marks_other hi.groups (hi.marks g) hid hne

theorem calls {hdr : ReadHeader} (hc : s.Calls c h hdr) (hmem : t.mem = s.mem) (hnot : id ∉ hdr.pages) : t.Calls c h hdr :=
  hc.keep (fun other _ => congrFun hr.core other) (fun other ho => hr.place_other other fun heq => hnot (heq ▸ ho))
    fun _ _ _ _ _ => congrFun hmem _

end

end Releases

/-- `nfs_readpage_release`, with the bit of the request set before or not. -/
theorem releases (hid : id ∈ s.group f) (hr : s.reqs[id]? = some r) (hf : Flags s u f)
    (hlock : (u.folios f).locked = (s.folios f).locked) (hbit : u.testBit .unlockpage = s.testBit .unlockpage)
    (hq : q ≠ .listed ∧ ∀ h, q ≠ .header h) (hmark : (∃ h, q = .completed h 0) ∧ Synced s u .uptodate id f (·.uptodate) true ∨
      (¬∃ h, q = .completed h 0) ∧ (u.folios f).uptodate = (s.folios f).uptodate ∧ u.testBit .uptodate = s.testBit .uptodate)
    (error : Int) (ht : t = (u.setPlace [id] q).nfsReadpageRelease id f error) :
    Releases s t f id q ∧ t.headers = u.headers ∧ t.mem = u.mem ∧ t.openctxErrors = u.openctxErrors := by
  -- the folio may get its error, and the request its place
  let w : ReadSystem shift n := (u.setPlace [id] q).updateFolio f fun folio =>
    { folio with error := folio.error || (nfsErrorIsFatalOnServer error && decide (error ≠ negErrno .etimedout)) }
  have hw : w.folios f = { u.folios f with error := (w.folios f).error } := by
    rw [folios_updateFolio_self]
    rfl
  have hgroup : w.group f = s.group f := by
    unfold group
    rw [hw]
    exact congrArg (·.2.2) hf.shape
  have hwbit : w.testBit = u.testBit := testBit_setPlace [id] q
  have hwcore : w.core = s.core := (core_setPlace [id] q).trans hf.core
  have hplaced : u.place id = some r.place := hf.place ▸ place_of_get hr
  obtain ⟨r', hr', -⟩ := map_eq_some_iff.mp (place_setPlace_of_mem q (mem_singleton_self id) hplaced)
  obtain ⟨⟨hft, hhdrs, hmem, herr⟩, hother, hflag, hsync⟩ := synced (s := w) (b := .unlockpage)
    (v := fun folio => { folio with locked := false }) (hgroup.symm ▸ hid) hr' (fun _ => ⟨rfl, rfl, rfl⟩) ht
  have hup : (t.folios f).uptodate = (u.folios f).uptodate := (hflag (·.uptodate) fun _ => rfl).trans (by rw [hw])
  have hupbit : t.testBit .uptodate = u.testBit .uptodate := (hother .uptodate nofun).trans (by rw [hwbit])
  have hunlock := hsync (·.locked) false fun _ => rfl
  refine ⟨⟨hft.core.trans hwcore, ?_, fun other hne => ?_, fun g hne => ?_, hft.shape.trans ?_, fun other ho bit => ?_, hq, ?_, ?_⟩,
    hhdrs, hmem, herr⟩
  · rw [hft.place]
    exact place_setPlace_of_mem q (mem_singleton_self id) hplaced
  · rw [hft.place, ← hf.place]
    exact place_setPlace_of_notMem q fun hmem => hne (mem_singleton.mp hmem)
  · rw [hft.folio_other g hne, ← hf.folio_other g hne]
    exact if_neg hne
  · rw [← hf.shape]
    unfold shape group
    rw [hw]
  · rw [hft.bit_other other (hgroup.symm ▸ ho), hwbit, hf.bit_other other ho]
  · have hwlock : (w.folios f).locked = (s.folios f).locked := by rw [← hlock, hw]
    unfold Synced at hunlock ⊢
    dsimp only at hunlock ⊢
    rwa [hwlock, hgroup, hwbit, hbit] at hunlock
  · unfold Synced at hmark ⊢
    dsimp only at hmark ⊢
    rwa [hup, hupbit]

theorem Inv.nfsAsyncReadError {error : Err} (hi : s.Inv c) (ht : s.nfsAsyncReadError id error = some t) : t.Inv c := by
  unfold ReadSystem.nfsAsyncReadError at ht
  split at ht
  next r hget =>
    obtain ⟨hlisted, ht⟩ := of_guard_some ht
    have hplace : s.place id = some .listed := hlisted ▸ place_of_get hget
    have hid := hi.groups.live id r.req r.folio (core_of_get hget) (.inl hplace)
    obtain ⟨hr, hhdrs, hmem, herr⟩ := releases (u := s) (q := .cleaned error) hid hget
      ⟨rfl, rfl, fun _ _ => rfl, rfl, fun _ _ _ => rfl⟩ rfl rfl ⟨nofun, nofun⟩ (.inr ⟨nofun, rfl, rfl⟩) error ht.symm
    refine hr.inv hi hid (.inl hplace) hmem (extends_of_eq hhdrs) (herr ▸ .refl _) nofun ?_ nofun ?_
    · rintro e heq
      cases heq
      exact error.property
    · intro h hdr hget'
      rw [hhdrs] at hget'
      have hc := hi.calls h hdr hget'
      refine hr.calls hc hmem fun hmem' => ?_
      cases hplace.symm.trans (hc.placed id hmem')
  · cases ht

/-! ### Completion -/

section
variable {bytes : Nat}

theorem zeroBadBytes_eq (c : PageCache shift n) (s : ReadSystem shift n) (hdr : ReadHeader) (bytes : Nat)
    (r : ReadReq shift n) : ∃ m, s.zeroBadBytes c hdr bytes r = { s with mem := m } := by
  unfold zeroBadBytes
  split
  · split
    · exact ⟨_, rfl⟩
    · split
      · exact ⟨_, rfl⟩
      · exact ⟨s.mem, rfl⟩
  · exact ⟨s.mem, rfl⟩

theorem zeroBadBytes_byte (heof : hdr.iohdrEof) (hoff : r.req.reqOffset = hdr.ioStart + bytes)
    (hon : OnFolio c r.req r.folio) (hj : j < c.size g) : (s.zeroBadBytes c hdr bytes r).byte c g j =
      if g = r.folio ∧ (r.req.wbPgbase ≤ j ∧ j < r.req.pgend) ∧ hdr.ioStart + hdr.goodBytes ≤ c.offset g j then 0
      else s.byte c g j := by
  have hend := hon.pgend_le
  have hpos : ∀ j, r.req.wbPgbase ≤ j → c.offset r.folio j = hdr.ioStart + bytes + (j - r.req.wbPgbase) := by
    intro j hle
    rw [← hoff, hon.reqOffset, Nat.add_sub_cancel' hle]
  unfold NfsPage.pgend at hend ⊢
  unfold zeroBadBytes byte
  rw [if_pos heof]
  split
  · dsimp only
    rw [PageCache.folioZeroSegment_addr hend hj]
    refine if_congr ⟨fun ⟨hg, hle, hlt⟩ => ⟨hg, ⟨hle, hlt⟩, ?_⟩, fun ⟨hg, hin, _⟩ => ⟨hg, hin⟩⟩ rfl rfl
    rw [hg, hpos j hle]
    omega
  · split
    · dsimp only
      rw [PageCache.folioZeroSegment_addr hend hj]
      refine if_congr ⟨fun ⟨hg, hle, hlt⟩ => ⟨hg, ⟨by omega, hlt⟩, ?_⟩, fun ⟨hg, ⟨hle, hlt⟩, hgood⟩ => ⟨hg, ?_, hlt⟩⟩ rfl rfl
      · rw [hg, hpos j (by omega)]
        omega
      · rw [hg, hpos j hle] at hgood
        omega
    · rw [if_neg]
      rintro ⟨hg, ⟨hle, hlt⟩, hgood⟩
      rw [hg, hpos j hle] at hgood
      omega

theorem zeroBadBytes_of_not (heof : hdr.iohdrEof = false) : s.zeroBadBytes c hdr bytes r = s := by
  unfold zeroBadBytes
  rw [heof]
  rfl

end

section
variable {bytes : Nat} {rest : List Nat}

theorem Settles.head (hs : s.Settles c hdr bytes) (hpages : hdr.pages = id :: rest) (hr : s.reqs[id]? = some r) :
    r.req.reqOffset = hdr.ioStart + bytes ∧ ∃ total, hdr.Ended total ∧ bytes + r.req.wbBytes ≤ total ∧
      Tiles (hdr.ioStart + (bytes + r.req.wbBytes)) (s.reqsOf rest) (hdr.ioStart + total) := by
  obtain ⟨total, hended, htiles⟩ := hs.ended
  rw [hpages, reqsOf_cons (core_of_get hr)] at htiles
  obtain ⟨hoff, hrest⟩ := htiles
  rw [Nat.add_assoc] at hrest
  have hle := hrest.le
  exact ⟨hoff, total, hended, by omega, hrest⟩

theorem Releases.calls_next {q : ReqPlace} (hr : Releases s t f id q) (hc : s.Calls c h hdr) (hmem : t.mem = s.mem)
    (hpages : hdr.pages = id :: rest) (hphase : hdr.phase = .completing bytes) (hok : hdr.pnfsError = 0)
    (hget : s.reqs[id]? = some r) {hdr' : ReadHeader}
    (hhdr : hdr' = { hdr with pages := rest, phase := .completing (bytes + r.req.wbBytes) }) : t.Calls c h hdr' := by
  subst hhdr
  have hs := hc.completing bytes hphase hok
  obtain ⟨-, total, hended, -, htiles⟩ := hs.head hpages hget
  have hnodup := hc.nodup
  rw [hpages] at hnodup
  obtain ⟨hnot, hnodup⟩ := nodup_cons.mp hnodup
  have hrest : ∀ other ∈ rest, other ∈ hdr.pages := fun other ho => hpages ▸ mem_cons_of_mem id ho
  refine ⟨fun other ho => ?_, hnodup, nofun, fun bytes' hb _ => ?_⟩
  · rw [hr.place_other other fun heq => hnot (heq ▸ ho)]
    exact hc.placed other (hrest other ho)
  · cases hb
    refine ⟨⟨total, ⟨hended.eof, hended.error, hended.full⟩, ?_⟩, fun other ho g j hj hlt => ?_⟩
    · exact reqsOf_congr (fun other _ => congrFun hr.core other) ▸ htiles
    · unfold byte
      rw [hmem]
      exact hs.read other (hrest other ho) g j ((Holds.congr (congrFun hr.core other)).mp hj) hlt

/-- A request in the good bytes, or zeroed behind them, shows what was sent. -/
theorem Settles.sent (hs : s.Settles c hdr bytes) (hg : s.Groups c) (hpages : hdr.pages = id :: rest)
    (hr : s.reqs[id]? = some r) (hgood : hdr.iohdrError = false ∨ bytes + r.req.wbBytes ≤ hdr.goodBytes)
    (hj : s.Holds id f j) : hdr.Sent (c.offset f j) ((s.zeroBadBytes c hdr bytes r).byte c f j) := by
  obtain ⟨hoff, total, hended, hle, -⟩ := hs.head hpages hr
  have hlt := hg.lt_size hj
  have hread := hs.read id (hpages ▸ mem_cons_self) f j hj
  obtain ⟨req, hcore, hj₁, hj₂⟩ := hj
  cases some.inj ((core_of_get hr).symm.trans hcore)
  have hon := hg.onFolio id _ _ hcore
  have hpos : c.offset r.folio j = hdr.ioStart + bytes + (j - r.req.wbPgbase) := by
    rw [← hoff, hon.reqOffset, Nat.add_sub_cancel' hj₁]
  have hin : j - r.req.wbPgbase < r.req.wbBytes := by unfold NfsPage.pgend at hj₂; omega
  by_cases heof : hdr.iohdrEof
  · rw [zeroBadBytes_byte heof hoff hon hlt]
    split
    next hzero => exact .inr ⟨hended.eof heof _ hzero.2.2, rfl⟩
    next hnz =>
      refine .inl (hread (Nat.lt_of_not_le fun hge => hnz ⟨rfl, ⟨hj₁, hj₂⟩, hge⟩))
  · rw [zeroBadBytes_of_not (Bool.eq_false_iff.mpr heof)]
    refine .inl (hread ?_)
    rcases hgood with hnoerr | hgood
    · have hfull := hended.full (Bool.eq_false_iff.mpr heof) hnoerr
      omega
    · omega

theorem Releases.inv_completed {e : Int} (hr : Releases s t r.folio id (.completed h e)) (hi : s.Inv c)
    (hget : s.headers[h]? = some hdr) (hphase : hdr.phase = .completing bytes) (hok : hdr.pnfsError = 0)
    (hpages : hdr.pages = id :: rest) (hreq : s.reqs[id]? = some r) (hmem : t.mem = s.mem)
    (hhdrs : t.headers = s.headers.set h { hdr with pages := rest, phase := .completing (bytes + r.req.wbBytes) })
    (hsub : s.openctxErrors ⊆ t.openctxErrors) (herr : e ≠ 0 → e < 0 ∧ (r.req.openctx, e) ∈ t.openctxErrors)
    (hsent : e = 0 → ∀ f j, s.Holds id f j → hdr.Sent (c.offset f j) (s.byte c f j)) : t.Inv c := by
  have hc := hi.calls h hdr hget
  have hout : s.Outstanding id := .inr ⟨h, hc.placed id (hpages ▸ mem_cons_self)⟩
  have hid := hi.groups.live id _ _ (core_of_get hreq) hout
  refine hr.inv hi hid hout hmem (extends_updateHeader hget ?_ hhdrs) hsub ?_ nofun ?_ ?_
  · exact List.Subset.refl hdr.answers
  · intro h' e' heq hne
    cases heq
    obtain ⟨hlt, hmem⟩ := herr hne
    exact ⟨hlt, r.req, r.folio, core_of_get hreq, hmem⟩
  · intro h' heq
    cases heq
    refine ⟨{ hdr with pages := rest, phase := .completing (bytes + r.req.wbBytes) }, ?_, hsent rfl⟩
    rw [hhdrs, getElem?_set_self (lt_of_getElem? hget)]
  · intro h' hdr' hget'
    rcases header_cases hhdrs hget' with ⟨rfl, rfl⟩ | ⟨hne, hget'⟩
    · exact hr.calls_next hc hmem hpages hphase hok hreq rfl
    · have hc' := hi.calls h' hdr' hget'
      exact hr.calls hc' hmem fun hid' => hne (hc'.eq_of_mem hc hid' (hpages ▸ mem_cons_self))

/-- The zeros lie behind the good bytes of the header. -/
theorem Inv.zeroBadBytes (hi : s.Inv c) (hget : s.headers[h]? = some hdr) (hphase : hdr.phase = .completing bytes)
    (hok : hdr.pnfsError = 0) (hpages : hdr.pages = id :: rest) (hr : s.reqs[id]? = some r) :
    (s.zeroBadBytes c hdr bytes r).Inv c := by
  have hc := hi.calls h hdr hget
  have hs := hc.completing bytes hphase hok
  by_cases heof : hdr.iohdrEof
  · obtain ⟨m, hzero⟩ := zeroBadBytes_eq c s hdr bytes r
    have hbyte : ∀ g, ∀ j < c.size g, (s.zeroBadBytes c hdr bytes r).byte c g j = s.byte c g j ∨
        s.Holds id g j ∧ hdr.ioStart + hdr.goodBytes ≤ c.offset g j := by
      intro g j hj
      rw [zeroBadBytes_byte heof (hs.head hpages hr).1 (hi.groups.onFolio id _ _ (core_of_get hr)) hj]
      split
      next hin =>
        obtain ⟨rfl, hin, hge⟩ := hin
        exact .inr ⟨⟨r.req, core_of_get hr, hin⟩, hge⟩
      · exact .inl rfl
    have hset : s.headers = s.headers.set h hdr := by
      obtain ⟨hlt, hget⟩ := List.getElem?_eq_some_iff.mp hget
      rw [← hget, set_getElem_self]
    rw [hzero] at hbyte ⊢
    refine Relists.inv_header (s := s) ⟨rfl, rfl, rfl, rfl, fun _ => .inl rfl⟩ hi hget hset (.refl _) (fun _ _ => rfl)
      (fun g j hj => (hbyte g j hj).imp_right fun hheld => ⟨id, hpages ▸ mem_cons_self, hheld.1⟩)
      ⟨hc.placed, hc.nodup, fun hrun => ?_, fun bytes' hb hok' => ?_⟩
    · cases hphase.symm.trans hrun
    · have hs' := hc.completing bytes' hb hok'
      refine ⟨hs'.ended, fun other hmem g j hj hlt => ?_⟩
      rw [(hbyte g j (hi.groups.lt_size hj)).resolve_right fun hin => absurd hlt (not_lt.mpr hin.2)]
      exact hs'.read other hmem g j hj hlt
  · rw [zeroBadBytes_of_not (Bool.eq_false_iff.mpr heof)]
    exact hi

theorem Inv.completeRequest (hi : s.Inv c) (hget : s.headers[h]? = some hdr) (hphase : hdr.phase = .completing bytes)
    (hok : hdr.pnfsError = 0) (hpages : hdr.pages = id :: rest) (hr : s.reqs[id]? = some r) :
    (s.completeRequest c h hdr bytes id r rest).Inv c := by
  have hs := (hi.calls h hdr hget).completing bytes hphase hok
  obtain ⟨-, total, hended, -, -⟩ := hs.head hpages hr
  obtain ⟨m, hzero⟩ := zeroBadBytes_eq c s hdr bytes r
  -- first the zeros
  have hi₀ := hi.zeroBadBytes hget hphase hok hpages hr
  have hsent : hdr.iohdrError = false ∨ bytes + r.req.wbBytes ≤ hdr.goodBytes → ∀ f j, s.Holds id f j →
      hdr.Sent (c.offset f j) ((s.zeroBadBytes c hdr bytes r).byte c f j) :=
    fun hgood f j hj => hs.sent hi.groups hpages hr hgood hj
  unfold ReadSystem.completeRequest
  rw [hzero] at hi₀ hsent ⊢
  have hid := hi.groups.live id _ _ (core_of_get hr) (.inr ⟨h, (hi.calls h hdr hget).placed id (hpages ▸ mem_cons_self)⟩)
  generalize hs₀ : ({ s with mem := m } : ReadSystem shift n) = s₀ at hi₀ hsent ⊢
  have hr₀ : s₀.reqs[id]? = some r := by rw [← hs₀]; exact hr
  have hget₀ : s₀.headers[h]? = some hdr := by rw [← hs₀]; exact hget
  have hid₀ : id ∈ s₀.group r.folio := by rw [← hs₀]; exact hid
  have hholds : ∀ f j, s₀.Holds id f j → s.Holds id f j := fun f j hj => by rw [← hs₀] at hj; exact hj
  -- a request with its data
  have hdone : hdr.iohdrError = false ∨ bytes + r.req.wbBytes ≤ hdr.goodBytes →
      ((((s₀.nfsPageGroupSetUptodate id r.folio).updateHeader h
        { hdr with pages := rest, phase := .completing (bytes + r.req.wbBytes) }).setPlace [id] (.completed h 0)).nfsReadpageRelease
          id r.folio 0).Inv c := by
    intro hgood
    obtain ⟨⟨hf, hhdrs₁, hmem₁, herr₁⟩, hbit, hflag, hsync⟩ := synced (t := s₀.nfsPageGroupSetUptodate id r.folio)
      (b := .uptodate) (v := fun folio => { folio with uptodate := true }) hid₀ hr₀ (fun _ => ⟨rfl, rfl, rfl⟩) rfl
    obtain ⟨hrel, hhdrs, hmem', herr⟩ := releases hid₀ hr₀ (q := .completed h 0)
      (u := (s₀.nfsPageGroupSetUptodate id r.folio).updateHeader h
        { hdr with pages := rest, phase := .completing (bytes + r.req.wbBytes) })
      ⟨hf.core, hf.place, hf.folio_other, hf.shape, hf.bit_other⟩ (hflag (·.locked) fun _ => rfl) (hbit _ nofun) ⟨nofun, nofun⟩
      (.inl ⟨⟨h, rfl⟩, hsync (·.uptodate) true fun _ => rfl⟩) 0 rfl
    refine hrel.inv_completed hi₀ hget₀ hphase hok hpages hr₀ (hmem'.trans hmem₁) (hhdrs.trans ?_) ?_ nofun
      fun _ f j hj => hsent hgood f j (hholds f j hj)
    · unfold updateHeader
      rw [hhdrs₁]
    · rw [herr]
      exact herr₁ ▸ .refl _
  dsimp only
  split
  next herror =>
    split
    next hgood => exact hdone (.inr hgood)
    next hbad =>
      have hlt := hended.error herror
      have hnot : ¬∃ h', ReqPlace.completed h hdr.error = .completed h' 0 := by
        rintro ⟨h', heq⟩
        exact hlt.ne (ReqPlace.completed.inj heq).2
      obtain ⟨hrel, hhdrs, hmem', herr⟩ := releases hid₀ hr₀ (q := .completed h hdr.error)
        (u := { s₀ with openctxErrors := (r.req.openctx, hdr.error) :: s₀.openctxErrors }.updateHeader h
          { hdr with pages := rest, phase := .completing (bytes + r.req.wbBytes) })
        ⟨rfl, rfl, fun _ _ => rfl, rfl, fun _ _ _ => rfl⟩ rfl rfl ⟨nofun, nofun⟩ (.inr ⟨hnot, rfl, rfl⟩) hdr.error rfl
      refine hrel.inv_completed hi₀ hget₀ hphase hok hpages hr₀ hmem' hhdrs ?_ (fun _ => ⟨hlt, ?_⟩) fun heq => absurd heq hlt.ne
      · exact herr ▸ subset_cons_self _ _
      · exact herr ▸ mem_cons_self
  next hnoerr => exact hdone (.inl (Bool.eq_false_iff.mpr hnoerr))

theorem Inv.nfsReadCompletion (hi : s.Inv c) (ht : s.nfsReadCompletion c h = some t) : t.Inv c := by
  unfold ReadSystem.nfsReadCompletion at ht
  split at ht
  next hdr hget =>
    split at ht
    next bytes hphase =>
      obtain ⟨hok, ht⟩ := of_unless ht
      split at ht
      next hpages =>
        cases ht
        refine Relists.inv_header (s := s) ⟨rfl, rfl, rfl, rfl, fun _ => .inl rfl⟩ hi hget rfl ?_ (fun _ _ => rfl)
          (fun _ _ _ => .inl rfl) ⟨hpages ▸ nofun, hpages ▸ nodup_nil, nofun, nofun⟩
        exact List.Subset.refl hdr.answers
      next id rest hpages =>
        obtain ⟨r, hr, rfl⟩ := map_eq_some_iff.mp ht
        exact hi.completeRequest hget hphase (not_not.mp hok) hpages hr
    · cases ht
  · cases ht

end

/-! ### New requests -/

section
variable {x : ReadReq shift n} (ht : t.reqs = s.reqs ++ [x])
include ht

theorem getElem?_append (hid : id < s.reqs.length) : t.reqs[id]? = s.reqs[id]? := by rw [ht, getElem?_append_left hid]

theorem getElem?_append_self : t.reqs[s.reqs.length]? = some x := by
  rw [ht, getElem?_append_right le_rfl]
  simp

theorem le_of_place (hplace : t.place id = some q) : id ≤ s.reqs.length := by
  have hlt := lt_of_place hplace
  rw [ht, length_append, length_singleton] at hlt
  omega

end

/-- Only the folio `f` changes: requests are added or cut, and its memory changes only if nobody has locked it. -/
structure Grows (c : PageCache shift n) (s t : ReadSystem shift n) (f : Fin n) : Prop where
  core : ∀ id < s.reqs.length, t.core id = s.core id ∨ s.place id = some .listed ∧ (∃ req, s.core id = some (req, f)) ∧
    ∃ req, t.core id = some (req, f) ∧ OnFolio c req f
  place : ∀ id < s.reqs.length, t.place id = s.place id
  testBit : ∀ id < s.reqs.length, ∀ bit, t.testBit bit id = s.testBit bit id
  added : ∀ id q, s.reqs.length ≤ id → t.place id = some q →
    q = .listed ∧ ∃ req, t.core id = some (req, f) ∧ OnFolio c req f ∧ id ∈ t.group f
  kept : ∀ id ∈ s.group f, s.Outstanding id → id ∈ t.group f
  headers : t.headers = s.headers
  openctxErrors : t.openctxErrors = s.openctxErrors
  folio_other : ∀ g, g ≠ f → t.folios g = s.folios g
  byte : ∀ g j, j < c.size g → t.byte c g j = s.byte c g j ∨ g = f ∧ (s.folios f).locked = false

namespace Grows

section
variable (hg : Grows c s t f)
include hg

theorem core_of_notListed (hlt : id < s.reqs.length) (hp : s.place id ≠ some .listed) :
    t.core id = s.core id := (hg.core id hlt).resolve_right fun hcut => hp hcut.1

theorem place_new (hp : t.place id = some q) (hq : q ≠ .listed) : id < s.reqs.length ∧ s.place id = some q := by
  by_cases hlt : id < s.reqs.length
  · exact ⟨hlt, hg.place id hlt ▸ hp⟩
  · exact absurd (hg.added id q (not_lt.mp hlt) hp).1 hq

theorem group_other (hne : g ≠ f) : t.group g = s.group g :=
  congrArg FolioState.group (hg.folio_other g hne)

theorem mem_other (hi : s.Inv c) (hne : g ≠ f) (hid : id ∈ s.group g) : id < s.reqs.length ∧ t.core id = s.core id := by
  obtain ⟨req, hcore⟩ := (hi.groups.shares g).member id hid
  refine ⟨lt_of_core hcore, (hg.core id (lt_of_core hcore)).resolve_right fun ⟨_, ⟨req', hcut⟩, _⟩ => hne ?_⟩
  exact (Prod.mk.inj (some.inj (hcore.symm.trans hcut))).2

theorem groups (hi : s.Inv c) (hshares : t.Shares f) : t.Groups c := by
  have hnew : ∀ {id p}, s.reqs.length ≤ id → t.core id = some p → OnFolio c p.1 p.2 ∧ id ∈ t.group p.2 := by
    intro id p hge hcore
    obtain ⟨r, hr, -⟩ := map_eq_some_iff.mp hcore
    obtain ⟨-, req, hcore', hon, hmem⟩ := hg.added id _ hge (place_of_get hr)
    cases some.inj (hcore.symm.trans hcore')
    exact ⟨hon, hmem⟩
  refine ⟨fun id req g hcore => ?_, fun id req g hcore ho => ?_, fun g => ?_⟩
  · by_cases hlt : id < s.reqs.length
    · rcases hg.core id hlt with hsame | ⟨-, -, req', hcut, hon⟩
      · exact hi.groups.onFolio id req g (hsame ▸ hcore)
      · cases some.inj (hcore.symm.trans hcut)
        exact hon
    · exact (hnew (not_lt.mp hlt) hcore).1
  · by_cases hlt : id < s.reqs.length
    · unfold Outstanding at ho
      rw [hg.place id hlt] at ho
      obtain ⟨req', hcore'⟩ : ∃ req', s.core id = some (req', g) := by
        rcases hg.core id hlt with hsame | ⟨-, hold, req', hcut, -⟩
        · exact ⟨req, hsame ▸ hcore⟩
        · cases some.inj (hcore.symm.trans hcut)
          exact hold
      have hmem := hi.groups.live id req' g hcore' ho
      by_cases hne : g = f
      · exact hne ▸ hg.kept id (hne ▸ hmem) ho
      · exact (hg.group_other hne).symm ▸ hmem
    · exact (hnew (not_lt.mp hlt) hcore).2
  · by_cases hne : g = f
    · exact hne ▸ hshares
    · exact (hi.groups.shares g).keep (hg.group_other hne) (by rw [hg.folio_other g hne]) fun id hid => (hg.mem_other hi hne hid).2

theorem inv (hi : s.Inv c) (hshares : t.Shares f) (hmarks : t.Marks f) (hcontents : t.Contents c f) : t.Inv c := by
  refine ⟨hg.groups hi hshares, fun g => ?_, ⟨fun id h e hp hne => ?_, fun id e hp => ?_⟩, fun g => ?_, fun h hdr hget => ?_⟩
  · by_cases hne : g = f
    · exact hne ▸ hmarks
    have hplace : ∀ id ∈ s.group g, t.place id = s.place id := fun id hid => hg.place id (hg.mem_other hi hne hid).1
    refine (hi.marks g).keep (hg.folio_other g hne) (fun id hid => ?_) (fun id hid => ?_)
      fun id hid => hg.testBit id (hg.mem_other hi hne hid).1
    · unfold Done
      rw [hplace id hid]
    · unfold Outstanding
      rw [hplace id hid]
      exact fun ho => ho
  · obtain ⟨hlt, hp'⟩ := hg.place_new hp nofun
    rw [hg.core_of_notListed hlt (hp' ▸ nofun), hg.openctxErrors]
    exact hi.errors.completed id h e hp' hne
  · exact hi.errors.cleaned id e (hg.place_new hp nofun).2
  · by_cases hne : g = f
    · exact hne ▸ hcontents
    have hfolio := hg.folio_other g hne
    exact (hi.contents g).keep hi.groups (hg.group_other hne) (by rw [hfolio]) (by rw [hfolio]) (fun hu => .inl (hfolio ▸ hu))
      (fun id hid => (hg.mem_other hi hne hid).2) (fun id _ h hp => .inl (hg.place_new hp nofun).2) (extends_of_eq hg.headers)
      fun j hj => .inl ((hg.byte g j hj).resolve_right fun heq => hne heq.1)
  · rw [hg.headers] at hget
    have hc := hi.calls h hdr hget
    have hlt : ∀ id ∈ hdr.pages, id < s.reqs.length := fun id hid => lt_of_place (hc.placed id hid)
    refine hc.keep (fun id hid => hg.core_of_notListed (hlt id hid) ?_) (fun id hid => hg.place id (hlt id hid)) fun id hid g j hj => ?_
    · rw [hc.placed id hid]
      nofun
    -- the folio of a request on a header is locked
    · refine (hg.byte g j (hi.groups.lt_size hj)).resolve_right fun ⟨heq, hfree⟩ => ?_
      subst heq
      exact (hi.marks g).unlocked hfree id (hc.mem_group hi.groups hid hj) (.inr ⟨h, hc.placed id hid⟩)

end

end Grows

theorem Inv.nfsReturnEmptyFolio (hi : s.Inv c) (hunl : (s.folios f).locked = false) : (s.nfsReturnEmptyFolio c f).Inv c := by
  have hfolio : (s.nfsReturnEmptyFolio c f).folios f =
      { s.folios f with uptodate := true, length := 0, requested := 0, group := [] } := if_pos rfl
  have hgroup : (s.nfsReturnEmptyFolio c f).group f = [] := by unfold group; rw [hfolio]
  have hbyte : ∀ g j, j < c.size g → (s.nfsReturnEmptyFolio c f).byte c g j = if g = f then 0 else s.byte c g j := by
    intro g j hj
    refine (PageCache.folioZeroSegment_addr le_rfl hj).trans (if_congr ⟨And.left, fun hg => ⟨hg, Nat.zero_le j, ?_⟩⟩ rfl rfl)
    exact hg ▸ hj
  have hg : Grows c s (s.nfsReturnEmptyFolio c f) f := by
    refine ⟨fun _ _ => .inl rfl, fun _ _ => rfl, fun _ _ _ => rfl, fun id q hge hp => ?_, fun id hid ho => ?_, rfl, rfl,
      fun g hne => if_neg hne, fun g j hj => ?_⟩
    · exact absurd (lt_of_place (s := s) hp) (not_lt.mpr hge)
    · exact absurd ho ((hi.marks f).unlocked hunl id hid)
    · by_cases hne : g = f
      · exact .inr ⟨hne, hunl⟩
      · exact .inl ((hbyte g j hj).trans (if_neg hne))
  refine hg.inv hi ⟨?_, ?_, ?_, ?_⟩ ⟨?_, ?_, ?_, ?_, ?_⟩ ⟨fun _ j _ hj => ?_, ?_⟩
  case refine_4 =>
    rw [hfolio]
    nofun
  case refine_7 => exact fun _ hne => absurd hgroup hne
  case refine_10 =>
    rw [hfolio, hbyte f j hj, if_pos rfl]
    exact ⟨Nat.zero_le j, rfl⟩
  all_goals
    rw [hgroup]
    nofun

theorem onFolio_create {openctx lockowner : Nat} (hpos : 0 < alignedLen)
    (hfits : 0 + alignedLen ≤ (WbMem.folio (c.folio f)).maxLength shift) :
    OnFolio c (NfsPage.create (.folio (c.folio f)) 0 (c.index f) 0 alignedLen openctx lockowner hpos hfits) f := ⟨rfl, rfl, rfl⟩

/-- A new request for a folio that nobody has locked. -/
theorem Inv.addRequest {len : Nat} (hi : s.Inv c) (hunl : (s.folios f).locked = false)
    (hup : (s.folios f).uptodate = false) (hlen : len ≤ alignedLen) (hon : OnFolio c req f) (hbase : req.wbPgbase = 0)
    (hend : req.pgend = alignedLen) (hreqs : t.reqs = s.reqs ++ [{ req, folio := f }])
    (hfolio : t.folios f = { s.folios f with locked := true, length := len, requested := alignedLen, group := [s.reqs.length] })
    (hother : ∀ g, g ≠ f → t.folios g = s.folios g) (hhdrs : t.headers = s.headers)
    (herr : t.openctxErrors = s.openctxErrors) (hmem : t.mem = c.folioZeroSegment f len (c.size f) s.mem) : t.Inv c := by
  have hgroup : t.group f = [s.reqs.length] := by unfold group; rw [hfolio]
  have hcore : t.core s.reqs.length = some (req, f) := core_of_get (getElem?_append_self hreqs)
  have hplace : t.place s.reqs.length = some .listed := place_of_get (getElem?_append_self hreqs)
  have hnd : ¬t.Done s.reqs.length := fun ⟨_, hp⟩ => by cases hplace.symm.trans hp
  have hbit : ∀ bit, t.testBit bit s.reqs.length = false := fun bit => by
    rw [testBit_eq, getElem?_append_self hreqs]
    cases bit <;> rfl
  have hholds : ∀ j, t.Holds s.reqs.length f j ↔ j < alignedLen := by
    refine fun j => ⟨fun ⟨req', hcore', _, hlt⟩ => ?_, fun hlt => ⟨req, hcore, hbase ▸ Nat.zero_le j, hend ▸ hlt⟩⟩
    cases some.inj (hcore.symm.trans hcore')
    exact hend ▸ hlt
  have hbyte : ∀ g j, j < c.size g → t.byte c g j = if g = f ∧ len ≤ j then 0 else s.byte c g j := by
    intro g j hj
    unfold byte
    rw [hmem, PageCache.folioZeroSegment_addr le_rfl hj]
    refine if_congr ⟨fun hin => ⟨hin.1, hin.2.1⟩, fun hin => ⟨hin.1, hin.2, hin.1 ▸ hj⟩⟩ rfl rfl
  have hg : Grows c s t f := by
    refine ⟨fun id hid => .inl (core_congr (getElem?_append hreqs hid)), fun id hid => place_congr (getElem?_append hreqs hid),
      fun id hid bit => testBit_congr (getElem?_append hreqs hid), fun id q hge hp => ?_, fun id hid ho => ?_, hhdrs, herr,
      hother, fun g j hj => ?_⟩
    · obtain rfl := (le_of_place hreqs hp).antisymm hge
      exact ⟨(some.inj (hplace.symm.trans hp)).symm, req, hcore, hon, hgroup ▸ mem_singleton_self _⟩
    · exact absurd ho ((hi.marks f).unlocked hunl id hid)
    · by_cases hne : g = f
      · exact .inr ⟨hne, hunl⟩
      · exact .inl ((hbyte g j hj).trans (if_neg fun hin => hne hin.1))
  refine hg.inv hi ?_ ?_ ⟨fun _ j hle hj => ?_, fun id hid h hp => ?_⟩
  · refine ⟨?_, ?_, ?_, ?_⟩ <;> rw [hgroup]
    · intro id hid
      exact ⟨req, mem_singleton.mp hid ▸ hcore⟩
    · intro j id hid id' hid' _ _
      rw [mem_singleton.mp hid, mem_singleton.mp hid']
    · rw [hfolio]
      intro j id hid hj
      exact (hholds j).mp (mem_singleton.mp hid ▸ hj)
    · rw [hfolio]
      exact fun j hj => ⟨s.reqs.length, mem_singleton_self _, (hholds j).mpr hj⟩
  · refine ⟨?_, ?_, ?_, ?_, ?_⟩ <;> rw [hfolio, hgroup]
    · exact fun hu => by cases hup.symm.trans hu
    · intro _ id hid
      rw [mem_singleton.mp hid, hbit]
      exact iff_of_false Bool.false_ne_true hnd
    · exact fun _ _ => ⟨s.reqs.length, mem_singleton_self _, hnd⟩
    · intro _ id hid hb
      rw [mem_singleton.mp hid, hbit] at hb
      cases hb
    · exact fun hl => by cases hl
  · rw [hfolio] at hle ⊢
    have hle' : len ≤ j := hlen.trans hle
    rw [hbyte f j hj, if_pos ⟨rfl, hle'⟩]
    exact ⟨hle', rfl⟩
  · rw [hgroup] at hid
    exact absurd ⟨h, mem_singleton.mp hid ▸ hp⟩ hnd

theorem Inv.nfsReadAddFolio {a : AddFolio n} (hi : s.Inv c) (ht : s.nfsReadAddFolio c a = some t) : t.Inv c := by
  unfold ReadSystem.nfsReadAddFolio at ht
  dsimp only at ht
  obtain ⟨hfree, ht⟩ := of_unless ht
  rw [Bool.or_eq_true, not_or, Bool.not_eq_true, Bool.not_eq_true] at hfree
  split at ht
  next hzero =>
    cases ht
    exact hi.nfsReturnEmptyFolio hfree.1
  next hlen =>
    split at ht
    next hfits =>
      cases ht
      refine hi.addRequest hfree.1 hfree.2 (PageCache.le_alignedLen PageCache.folioLength_le)
        (onFolio_create hfits.1 hfits.2) rfl (Nat.zero_add _) rfl (if_pos rfl) (fun g hne => if_neg hne) rfl rfl rfl
    · cases ht

/-! ### Splitting a request -/

/-- A request on a list is cut in two. -/
structure Splits (s t : ReadSystem shift n) (id : Nat) (r : ReadReq shift n) (size : r.req.SubSize) : Prop where
  get : s.reqs[id]? = some r
  listed : r.place = .listed
  core_other : ∀ other, other < s.reqs.length → other ≠ id → t.core other = s.core other
  core_self : t.core id = some (r.req.advance size, r.folio)
  new : t.reqs[s.reqs.length]? = some { req := r.req.createSubreq size, folio := r.folio }
  length : t.reqs.length = s.reqs.length + 1
  place_old : ∀ other, other < s.reqs.length → t.place other = s.place other
  bit_old : ∀ other, other < s.reqs.length → ∀ bit, t.testBit bit other = s.testBit bit other
  folio_other : ∀ g, g ≠ r.folio → t.folios g = s.folios g
  folio_self : t.folios r.folio = { s.folios r.folio with group := s.group r.folio ++ [s.reqs.length] }
  headers : t.headers = s.headers
  mem : t.mem = s.mem
  openctxErrors : t.openctxErrors = s.openctxErrors

theorem splits_of_createSubreq {size : Nat} (ht : s.nfsCreateSubreq id size = some t) : ∃ r size', Splits s t id r size' := by
  unfold nfsCreateSubreq at ht
  split at ht
  next r hget =>
    obtain ⟨hlisted, ht⟩ := of_guard ht
    split at ht
    next hsize =>
      have hlt : id < s.reqs.length := lt_of_getElem? hget
      -- the state in which the request is shortened
      generalize hs₁ : s.updateReqs (fun other => decide (other = id)) (fun r' => { r' with req := r.req.advance ⟨size, hsize⟩ }) = s₁
        at ht
      have hlen : s₁.reqs.length = s.reqs.length := by rw [← hs₁]; exact length_mapIdx
      have ht' := some.inj ht
      have hreqs : t.reqs = s₁.reqs ++ [{ req := r.req.createSubreq ⟨size, hsize⟩, folio := r.folio }] := by rw [← ht']; rfl
      have hold : ∀ other < s.reqs.length, t.reqs[other]? = s₁.reqs[other]? := fun other ho =>
        getElem?_append hreqs (hlen.symm ▸ ho)
      refine ⟨r, ⟨size, hsize⟩, hget, hlisted, fun other ho hne => ?_, ?_, hlen ▸ getElem?_append_self hreqs, ?_,
        fun other ho => (place_congr (hold other ho)).trans ?_, fun other ho bit => (testBit_congr (hold other ho)).trans ?_,
        fun g hne => ?_, ?_, ?_, ?_, ?_⟩
      · rw [core_congr (hold other ho), ← hs₁]
        exact core_congr (getElem?_updateReqs_of_not (decide_eq_false hne))
      · rw [core_congr (hold id hlt), ← hs₁]
        unfold core
        rw [getElem?_updateReqs, hget]
        simp
      · rw [hreqs, length_append, hlen, length_singleton]
      · rw [← hs₁]
        refine map_updateReqs ?_ other
        exact fun _ => rfl
      · rw [← hs₁, testBit_updateReqs fun _ => by cases bit <;> rfl]
      · rw [← ht', ← hs₁]
        exact if_neg hne
      · rw [← ht', ← hlen, ← hs₁]
        exact if_pos rfl
      iterate 3 rw [← ht', ← hs₁]; rfl
    · cases ht
  · cases ht

namespace Splits
variable {size : r.req.SubSize} {x y : Nat}

section
variable (hs : Splits s t id r size)
include hs

theorem core_new : t.core s.reqs.length = some (r.req.createSubreq size, r.folio) :=
  core_of_get hs.new

theorem place_new : t.place s.reqs.length = some .listed := place_of_get hs.new

theorem holds_old : s.Holds id g j ↔ r.folio = g ∧ r.req.wbPgbase ≤ j ∧ j < r.req.wbPgbase + r.req.wbBytes := by
  refine ⟨fun ⟨req, hcore, hj⟩ => ?_, fun ⟨hg, hj⟩ => ⟨r.req, hg ▸ core_of_get hs.get, hj⟩⟩
  cases some.inj ((core_of_get hs.get).symm.trans hcore)
  exact ⟨rfl, hj⟩

theorem holds_self : t.Holds id g j ↔ r.folio = g ∧ r.req.wbPgbase + size.val ≤ j ∧ j < r.req.wbPgbase + r.req.wbBytes := by
  have hend : (r.req.advance size).pgend = r.req.wbPgbase + r.req.wbBytes := by
    show r.req.wbPgbase + size.val + (r.req.wbBytes - size.val) = _
    omega
  refine ⟨fun ⟨req, hcore, hle, hlt⟩ => ?_, fun ⟨hg, hle, hlt⟩ => ⟨_, hg ▸ hs.core_self, hle, hend.symm ▸ hlt⟩⟩
  cases some.inj (hs.core_self.symm.trans hcore)
  exact ⟨rfl, hle, hend ▸ hlt⟩

theorem holds_new : t.Holds s.reqs.length g j ↔ r.folio = g ∧ r.req.wbPgbase ≤ j ∧ j < r.req.wbPgbase + size.val := by
  refine ⟨fun ⟨req, hcore, hj⟩ => ?_, fun ⟨hg, hj⟩ => ⟨_, hg ▸ hs.core_new, hj⟩⟩
  cases some.inj (hs.core_new.symm.trans hcore)
  exact ⟨rfl, hj⟩

theorem group_self : t.group r.folio = s.group r.folio ++ [s.reqs.length] := by
  unfold group
  rw [hs.folio_self]
  rfl

theorem mem_group (hx : x ∈ t.group r.folio) : x = s.reqs.length ∨ x ∈ s.group r.folio := by
  rw [hs.group_self] at hx
  exact (mem_append.mp hx).symm.imp_left mem_singleton.mp

theorem new_mem : s.reqs.length ∈ t.group r.folio :=
  hs.group_self ▸ mem_append_right _ (mem_singleton_self _)

theorem group_sub (hx : x ∈ s.group r.folio) : x ∈ t.group r.folio :=
  hs.group_self ▸ mem_append_left _ hx

theorem place_self : s.place id = some .listed := hs.listed ▸ place_of_get hs.get

theorem mem_old (hg : s.Groups c) : id ∈ s.group r.folio :=
  hg.live id _ _ (core_of_get hs.get) (.inl hs.place_self)

/-- What a request has after the cut, it or the one that was cut had before. -/
theorem origin (hg : s.Groups c) (hx : x ∈ t.group r.folio) (hj : t.Holds x r.folio j) :
    ∃ y ∈ s.group r.folio, s.Holds y r.folio j ∧ (x = s.reqs.length ∧ y = id ∨ x = y) := by
  rcases hs.mem_group hx with rfl | hx
  · obtain ⟨-, hle, hlt⟩ := hs.holds_new.mp hj
    exact ⟨id, hs.mem_old hg, hs.holds_old.mpr ⟨rfl, hle, by omega⟩, .inl ⟨rfl, rfl⟩⟩
  · refine ⟨x, hx, ?_, .inr rfl⟩
    by_cases hne : x = id
    · subst hne
      obtain ⟨-, hle, hlt⟩ := hs.holds_self.mp hj
      exact hs.holds_old.mpr ⟨rfl, by omega, hlt⟩
    · obtain ⟨req, hcore⟩ := (hg.shares r.folio).member x hx
      exact (Holds.congr (hs.core_other x (lt_of_core hcore) hne)).mp hj

theorem shares (hg : s.Groups c) : t.Shares r.folio := by
  have hrequested : (t.folios r.folio).requested = (s.folios r.folio).requested := by rw [hs.folio_self]
  -- the two parts of the old request do not overlap
  have hparts : ∀ {j}, t.Holds s.reqs.length r.folio j → t.Holds id r.folio j → False := by
    intro j hnew hself
    have h₁ := (hs.holds_new.mp hnew).2.2
    have h₂ := (hs.holds_self.mp hself).2.1
    omega
  refine ⟨fun x hx => ?_, fun j x hx y hy hj hj' => ?_, fun j x hx hj => ?_, fun j hj => ?_⟩
  · rcases hs.mem_group hx with rfl | hx
    · exact ⟨_, hs.core_new⟩
    · by_cases hne : x = id
      · exact ⟨_, hne ▸ hs.core_self⟩
      · obtain ⟨req, hcore⟩ := (hg.shares r.folio).member x hx
        exact ⟨req, (hs.core_other x (lt_of_core hcore) hne).trans hcore⟩
  · obtain ⟨x', hx', hheld, hx⟩ := hs.origin hg hx hj
    obtain ⟨y', hy', hheld', hy⟩ := hs.origin hg hy hj'
    obtain rfl := (hg.shares r.folio).disjoint j x' hx' y' hy' hheld hheld'
    rcases hx with ⟨rfl, rfl⟩ | rfl <;> rcases hy with ⟨rfl, hid⟩ | rfl
    · rfl
    · exact (hparts hj hj').elim
    · exact (hparts hj' (hid ▸ hj)).elim
    · rfl
  · obtain ⟨y, hy, hheld, -⟩ := hs.origin hg hx hj
    exact hrequested ▸ (hg.shares r.folio).within j y hy hheld
  · obtain ⟨x, hx, hheld⟩ := (hg.shares r.folio).cover j (hrequested ▸ hj)
    by_cases hne : x = id
    · subst hne
      obtain ⟨-, hle, hlt⟩ := hs.holds_old.mp hheld
      by_cases hcut : j < r.req.wbPgbase + size.val
      · exact ⟨s.reqs.length, hs.new_mem, hs.holds_new.mpr ⟨rfl, hle, hcut⟩⟩
      · exact ⟨x, hs.group_sub hx, hs.holds_self.mpr ⟨rfl, not_lt.mp hcut, hlt⟩⟩
    · obtain ⟨req, hcore⟩ := (hg.shares r.folio).member x hx
      exact ⟨x, hs.group_sub hx, (Holds.congr (hs.core_other x (lt_of_core hcore) hne)).mpr hheld⟩

theorem marks (hi : s.Inv c) : t.Marks r.folio := by
  have hmember : ∀ x ∈ s.group r.folio, x < s.reqs.length := fun x hx => by
    obtain ⟨req, hcore⟩ := (hi.groups.shares r.folio).member x hx
    exact lt_of_core hcore
  have hdone : ∀ x ∈ s.group r.folio, t.Done x ↔ s.Done x := fun x hx => by
    unfold Done
    rw [hs.place_old x (hmember x hx)]
  -- the folio waits for the old request, so it is locked and not up to date
  have hold := hs.mem_old hi.groups
  have hnot : ¬s.Done id := fun ⟨h, hp⟩ => by cases hs.place_self.symm.trans hp
  have hm := hi.marks r.folio
  have hup := hm.not_uptodate hold hnot
  have hlocked := hm.locked hold (.inl hs.place_self)
  have hbit : ∀ bit, t.testBit bit s.reqs.length = false := fun bit => by
    rw [testBit_eq, hs.new]
    cases bit <;> rfl
  refine ⟨fun hu => ?_, fun _ x hx => ?_, fun _ _ => ⟨id, hs.group_sub hold, fun hd => hnot ((hdone id hold).mp hd)⟩,
    fun _ x hx hb => ?_, fun hl => ?_⟩
  · rw [hs.folio_self] at hu
    cases hup.symm.trans hu
  · rcases hs.mem_group hx with rfl | hx
    · rw [hbit]
      exact iff_of_false nofun fun ⟨h, hp⟩ => by cases hs.place_new.symm.trans hp
    · rw [hs.bit_old x (hmember x hx), hm.bit_iff hup x hx, hdone x hx]
  · rcases hs.mem_group hx with rfl | hx
    · rw [hbit] at hb
      cases hb
    · rw [hs.bit_old x (hmember x hx)] at hb
      unfold Outstanding
      rw [hs.place_old x (hmember x hx)]
      exact hm.bit_unlock hlocked x hx hb
  · rw [hs.folio_self] at hl
    cases hlocked.symm.trans hl

theorem contents (hi : s.Inv c) : t.Contents c r.folio := by
  have hbyte : ∀ j, t.byte c r.folio j = s.byte c r.folio j := fun j => congrFun hs.mem _
  refine ⟨fun _ j hle hlt => ?_, fun x hx h hp => ?_⟩
  · rw [hs.folio_self] at hle ⊢
    rw [hbyte]
    exact (hi.contents r.folio).tail (.inr (ne_nil_of_mem (hs.mem_old hi.groups))) j hle hlt
  · rcases hs.mem_group hx with rfl | hx
    · cases hs.place_new.symm.trans hp
    · obtain ⟨req, hcore⟩ := (hi.groups.shares r.folio).member x hx
      have hlt := lt_of_core hcore
      rw [hs.place_old x hlt] at hp
      have hne : x ≠ id := fun heq => by cases hs.place_self.symm.trans (heq ▸ hp)
      obtain ⟨hdr, hget, hsent⟩ := (hi.contents r.folio).done x hx h hp
      refine ⟨hdr, hs.headers ▸ hget, fun j hj => ?_⟩
      rw [hbyte]
      exact hsent j ((Holds.congr (hs.core_other x hlt hne)).mp hj)

theorem inv (hi : s.Inv c) : t.Inv c := by
  have hon := hi.groups.onFolio id _ _ (core_of_get hs.get)
  refine Grows.inv ⟨fun x hlt => ?_, hs.place_old, hs.bit_old, fun x q hge hp => ?_, fun x hx _ => hs.group_sub hx, hs.headers,
    hs.openctxErrors, hs.folio_other, fun _ _ _ => .inl (congrFun hs.mem _)⟩ hi (hs.shares hi.groups) (hs.marks hi) (hs.contents hi)
  · by_cases hne : x = id
    · subst hne
      exact .inr ⟨hs.place_self, ⟨_, core_of_get hs.get⟩, _, hs.core_self, hon.mem, hon.index, congrArg (· + size.val) hon.offset⟩
    · exact .inl (hs.core_other x hlt hne)
  · have hlt := lt_of_place hp
    rw [hs.length] at hlt
    obtain rfl : x = s.reqs.length := by omega
    exact ⟨some.inj (hp.symm.trans hs.place_new), _, hs.core_new, ⟨hon.mem, hon.index, hon.offset⟩, hs.new_mem⟩

end

end Splits

/-! ### Runs -/

theorem inv_init (mem : Page × Nat → UInt8) : Inv c ({ mem } : ReadSystem shift n) where
  groups := by
    refine ⟨fun id req f h => ?_, fun id req f h => ?_, fun f => ⟨fun id h => ?_, fun j id h => ?_, fun j id h => ?_, fun j h => ?_⟩⟩
    case refine_6 => exact absurd h (Nat.not_lt_zero j)
    all_goals cases h
  marks f := by
    refine ⟨fun h => ?_, fun _ id h => ?_, fun _ h => (h rfl).elim, fun h => ?_, fun _ id h => ?_⟩ <;> cases h
  errors := by refine ⟨fun id h e hp => ?_, fun id e hp => ?_⟩ <;> cases hp
  contents f := by
    refine ⟨fun h => ?_, fun id h => ?_⟩
    · rcases h with h | h
      · cases h
      · exact (h rfl).elim
    · cases h
  calls h hdr hget := by cases hget

theorem Inv.step {e : ReadEvent n} (hi : s.Inv c) (ht : s.step c e = some t) : t.Inv c := by
  cases e with
  | addFolio a => exact hi.nfsReadAddFolio ht
  | createSubreq id size =>
    obtain ⟨r, size', hs⟩ := splits_of_createSubreq ht
    exact hs.inv hi
  | send adds tkOps => exact hi.send ht
  | reply h rep => exact hi.reply ht
  | complete h => exact hi.nfsReadCompletion ht
  | error id error => exact hi.nfsAsyncReadError ht
  | resend h => exact hi.resend ht

/-- The invariant of every run. -/
theorem inv_of_exec {mem : Page × Nat → UInt8} {events : List (ReadEvent n)}
    (hrun : exec (step c) { mem } events = some s) : s.Inv c :=
  exec_invariant (fun _ _ _ hi ht => hi.step ht) (inv_init mem) hrun

/-- A byte of an up-to-date folio came in a reply to a completed header, or lies behind the size that the client knew. -/
theorem Inv.uptodate_byte (hi : s.Inv c) (hup : (s.folios f).uptodate) (hj : j < c.size f) :
    (∃ id ∈ s.group f, ∃ h hdr, s.Holds id f j ∧ s.place id = some (.completed h 0) ∧ s.headers[h]? = some hdr ∧
      hdr.Sent (c.offset f j) (s.byte c f j)) ∨
    (s.folios f).requested ≤ j ∧ (s.folios f).length ≤ j ∧ s.byte c f j = 0 := by
  rcases Nat.lt_or_ge j (s.folios f).requested with hlt | hge
  · obtain ⟨id, hid, hholds⟩ := (hi.groups.shares f).cover j hlt
    obtain ⟨h, hplace⟩ := (hi.marks f).uptodate hup id hid
    obtain ⟨hdr, hget, hsent⟩ := (hi.contents f).done id hid h hplace
    exact .inl ⟨id, hid, h, hdr, hholds, hplace, hget, hsent j hholds⟩
  · exact .inr ⟨hge, (hi.contents f).tail (.inl hup) j hge hj⟩

/-- A folio that was read in vain has a request with an error. -/
theorem Inv.failed_request (hi : s.Inv c) (hup : (s.folios f).uptodate = false) (hlocked : (s.folios f).locked = false)
    (hgroup : s.group f ≠ []) : ∃ id ∈ s.group f, ∃ e < 0, s.place id = some (.cleaned e) ∨
      ∃ h req, s.place id = some (.completed h e) ∧ s.core id = some (req, f) ∧ (req.openctx, e) ∈ s.openctxErrors := by
  obtain ⟨id, hid, hnot⟩ := (hi.marks f).undone hup hgroup
  have hout := (hi.marks f).unlocked hlocked id hid
  obtain ⟨req, hcore⟩ := (hi.groups.shares f).member id hid
  obtain ⟨r, hr⟩ : ∃ r, s.reqs[id]? = some r := ⟨_, getElem?_eq_getElem (lt_of_core hcore)⟩
  have hplace := place_of_get hr
  refine ⟨id, hid, ?_⟩
  cases hcase : r.place with
  | listed => exact (hout (.inl (hcase ▸ hplace))).elim
  | header h => exact (hout (.inr ⟨h, hcase ▸ hplace⟩)).elim
  | completed h e =>
    rw [hcase] at hplace
    have he : e ≠ 0 := fun he => hnot ⟨h, he ▸ hplace⟩
    obtain ⟨hneg, req', f', hcore', hmem⟩ := hi.errors.completed id h e hplace he
    cases some.inj (hcore.symm.trans hcore')
    exact ⟨e, hneg, .inr ⟨h, req, hplace, hcore, hmem⟩⟩
  | cleaned e =>
    rw [hcase] at hplace
    exact ⟨e, hi.errors.cleaned id e hplace, .inl hplace⟩

/-- An up-to-date folio shows what the server sent for its offsets, zeros from the end of the file that it reported, and
    zeros behind the end that the client knew. One that was read and is neither up to date nor locked has a failed
    request. -/
theorem uptodate_shows_sent (c : PageCache shift n) (mem : Page × Nat → UInt8) (events : List (ReadEvent n))
    (s : ReadSystem shift n) (hrun : exec (step c) { mem } events = some s) (f : Fin n) :
    ((s.folios f).uptodate → ∀ j < c.size f,
      (∃ id ∈ s.group f, ∃ h hdr, s.Holds id f j ∧ s.place id = some (.completed h 0) ∧ s.headers[h]? = some hdr ∧
        hdr.Sent (c.offset f j) (s.byte c f j)) ∨
      (s.folios f).requested ≤ j ∧ (s.folios f).length ≤ j ∧ s.byte c f j = 0) ∧
    ((s.folios f).uptodate = false → (s.folios f).locked = false → s.group f ≠ [] →
      ∃ id ∈ s.group f, ∃ e < 0, s.place id = some (.cleaned e) ∨
        ∃ h req, s.place id = some (.completed h e) ∧ s.core id = some (req, f) ∧ (req.openctx, e) ∈ s.openctxErrors) := by
  have hi : s.Inv c := inv_of_exec hrun
  exact ⟨fun hup j hj => hi.uptodate_byte hup hj, hi.failed_request⟩

def onePage : PageCache 12 1 where
  head _ := 0
  order _ := 0
  slot _ := 0
  rsize := 1024
  apart f g hne := (hne (Subsingleton.elim f g)).elim
  size_le _ := by decide
  rsize_pos := by decide
  rsize_le := by decide

/-- A file of 3000 bytes is read in three calls, the second of which is answered in two parts. -/
def threeCalls : List (ReadEvent 1) :=
  [.addFolio ⟨0, 3000, 0, 0⟩, .createSubreq 0 1024, .createSubreq 0 1024, .send [(⟨0, false, false, 1024⟩, 1)] true,
    .send [(⟨0, false, false, 1024⟩, 2)] true, .send [(⟨0, false, false, 1024⟩, 0)] true,
    .reply 2 ⟨fun _ => 3, .result true 952 952⟩, .complete 2, .reply 1 ⟨fun _ => 2, .result false 500 500⟩,
    .reply 1 ⟨fun _ => 2, .result false 524 524⟩, .complete 1, .reply 0 ⟨fun _ => 1, .result false 1024 1024⟩, .complete 0]

theorem uptodate_shows_sent_threeCalls : ∃ s, exec (step onePage) { mem := fun _ => 0xff } threeCalls = some s ∧
    (s.folios 0).uptodate ∧ ∀ j < 4096,
      (∃ id ∈ s.group 0, ∃ h hdr, s.Holds id 0 j ∧ s.place id = some (.completed h 0) ∧ s.headers[h]? = some hdr ∧
        hdr.Sent (onePage.offset 0 j) (s.byte onePage 0 j)) ∨
      (s.folios 0).requested ≤ j ∧ (s.folios 0).length ≤ j ∧ s.byte onePage 0 j = 0 := by
  refine exists_exec (P := fun s => (s.folios 0).uptodate) (by decide +kernel) fun s hrun hup => ?_
  exact ⟨hup, (uptodate_shows_sent onePage _ threeCalls s hrun 0).1 hup⟩

/-- A file has grown beyond what the client knows: 1024 bytes come, and the page is up to date with zeros never sent. -/
theorem uptodate_with_zeros_not_sent : ∃ events s, exec (step onePage) { mem := fun _ => 0xff } events = some s ∧
    (s.folios 0).uptodate ∧
    ∃ j < onePage.size 0, s.byte onePage 0 j = 0 ∧ ∀ hdr ∈ s.headers, ¬hdr.Sent (onePage.offset 0 j) (s.byte onePage 0 j) := by
  let events : List (ReadEvent 1) := [.addFolio ⟨0, 1, 0, 0⟩, .send [(⟨0, false, false, 1024⟩, 0)] true,
    .reply 0 ⟨fun _ => 7, .result false 1024 1024⟩, .complete 0]
  refine ⟨events, exists_exec (P := fun s => (s.folios 0).uptodate ∧ s.byte onePage 0 3000 = 0 ∧
    ∀ hdr ∈ s.headers, ∀ a ∈ hdr.answers, a.offset + a.count ≤ onePage.offset 0 3000 ∧ a.eof = false) (by decide +kernel) ?_⟩
  rintro s - ⟨hup, hzero, hall⟩
  refine ⟨hup, 3000, by decide, hzero, fun hdr hhdr hsent => ?_⟩
  rcases hsent with ⟨a, ha, -, hlt, -⟩ | ⟨⟨a, ha, heof, -⟩, -⟩
  · exact absurd hlt (not_lt.mpr (hall hdr hhdr a ha).1)
  · exact Bool.noConfusion ((hall hdr hhdr a ha).2.symm.trans heof)

/-- Each byte asked for has one request, an unlocked folio has none outstanding, and no request waits in two calls. -/
theorem folio_requests_exact (c : PageCache shift n) (mem : Page × Nat → UInt8) (events : List (ReadEvent n))
    (s : ReadSystem shift n) (hrun : exec (step c) { mem } events = some s) (f : Fin n) :
    (∀ j < (s.folios f).requested, ∃! id, id ∈ s.group f ∧ s.Holds id f j) ∧
    ((s.folios f).locked = false → ∀ id ∈ s.group f, ¬s.Outstanding id) ∧
    ∀ (h h' : Nat) (hdr hdr' : ReadHeader) id, s.headers[h]? = some hdr → s.headers[h']? = some hdr' →
      id ∈ hdr.pages → id ∈ hdr'.pages → h = h' := by
  have hi : s.Inv c := inv_of_exec hrun
  refine ⟨fun j hj => ?_, (hi.marks f).unlocked, fun h h' hdr hdr' id hget hget' hid hid' => ?_⟩
  · obtain ⟨id, hid, hholds⟩ := (hi.groups.shares f).cover j hj
    exact ⟨id, ⟨hid, hholds⟩, fun id' hid' => (hi.groups.shares f).disjoint j id' hid'.1 id hid hid'.2 hholds⟩
  · have hplace := ((hi.calls h hdr hget).placed id hid).symm.trans ((hi.calls h' hdr' hget').placed id hid')
    cases hplace
    rfl

theorem folio_requests_exact_threeCalls : ∃ s, exec (step onePage) { mem := fun _ => 0xff } threeCalls = some s ∧
    ∀ id ∈ s.group 0, ¬s.Outstanding id := by
  refine exists_exec (P := fun s => (s.folios 0).locked = false) (by decide +kernel) fun s hrun hlocked => ?_
  exact (folio_requests_exact onePage _ threeCalls s hrun 0).2.1 hlocked

end ReadSystem

end Mynfs
