import Mynfs.Nfs4

/-! Requests of the page I/O layer (pagelist.c): a range of a file, with a page or a part of a folio that holds it. -/

namespace Mynfs

/-- By address: pages that are neighbours in memory have neighbouring addresses. -/
abbrev Page := Nat

/-- A folio by its first page. -/
structure Folio where
  head : Page
  nrPages : Nat
deriving DecidableEq

/-- The union of `wb_page` and `wb_folio`, tagged by `PG_FOLIO`. -/
inductive WbMem
  | page (p : Page)
  | folio (f : Folio)
deriving DecidableEq

/-- The address in the union, which the code also reads through `wb_page`. -/
def WbMem.wbPage : WbMem → Page
  | .page p => p
  | .folio f => f.head

def WbMem.maxLength (shift : Nat) : WbMem → Nat
  | .page _ => 2 ^ shift
  | .folio f => f.nrPages * 2 ^ shift

/-- A page group by the range it covers: its start in its page or folio and, relative to `wb_index`, in the file. -/
structure PageGroup where
  wbOffset : Nat
  wbPgbase : Nat
  wbBytes : Nat
deriving DecidableEq

/-- A request is not empty and lies inside of its page group, which lies inside of one page or folio. -/
structure NfsPage (shift : Nat) where
  wbMem : WbMem
  wbIndex : Nat
  wbOffset : Nat
  wbPgbase : Nat
  wbBytes : Nat
  /-- `nfs_req_openctx`, with equal numbers for contexts that `nfs_match_open_context` accepts. -/
  openctx : Nat
  lockowner : Nat
  wbNio : Nat
  /-- The verifier of the last unstable write of the request. -/
  wbVerf : U64
  wbHead : PageGroup
  bytes_pos : 0 < wbBytes
  base_le : wbHead.wbPgbase ≤ wbPgbase
  end_le : wbPgbase + wbBytes ≤ wbHead.wbPgbase + wbHead.wbBytes
  offset_eq : wbOffset + wbHead.wbPgbase = wbHead.wbOffset + wbPgbase
  group_fits : wbHead.wbPgbase + wbHead.wbBytes ≤ wbMem.maxLength shift
deriving DecidableEq

namespace NfsPage
variable {shift : Nat} (req : NfsPage shift)

theorem fits : req.wbPgbase + req.wbBytes ≤ req.wbMem.maxLength shift := req.end_le.trans req.group_fits

def reqOffset : Nat := req.wbIndex * 2 ^ shift + req.wbOffset

def create (wbMem : WbMem) (pgbase index offset count openctx lockowner : Nat) (hpos : 0 < count)
    (hfits : pgbase + count ≤ wbMem.maxLength shift) : NfsPage shift where
  wbMem := wbMem
  wbIndex := index
  wbOffset := offset
  wbPgbase := pgbase
  wbBytes := count
  openctx := openctx
  lockowner := lockowner
  wbNio := 0
  wbVerf := 0
  wbHead := ⟨offset, pgbase, count⟩
  bytes_pos := hpos
  base_le := le_rfl
  end_le := le_rfl
  offset_eq := rfl
  group_fits := hfits

def toFolio : Option Folio :=
  match req.wbMem with
  | .page _ => none
  | .folio f => some f

def toPage (base : Nat) : Page :=
  match req.wbMem with
  | .page p => p
  | .folio f => f.head + base / 2 ^ shift

/-- Where in the request's page or folio it ends. -/
def pgend : Nat := req.wbPgbase + req.wbBytes

theorem toPage_eq {base : Nat} (h : base < req.pgend) : req.toPage base = req.wbMem.wbPage + base / 2 ^ shift := by
  have hlt := lt_of_lt_of_le h req.fits
  unfold toPage
  cases hmem : req.wbMem with
  | folio f => rfl
  | page p =>
    rw [hmem] at hlt
    have hzero : base / 2 ^ shift = 0 := Nat.div_eq_of_lt hlt
    simp [hzero, WbMem.wbPage]

/-- The memory byte that a request has for its `k`th byte: a page and an offset in it. -/
def byteAt (k : Nat) : Page × Nat := (req.toPage (req.wbPgbase + k), (req.wbPgbase + k) % 2 ^ shift)

end NfsPage

namespace NfsPage
variable {shift : Nat} (req : NfsPage shift)

/-- The sizes of the sub-requests that can be split off a request. -/
abbrev SubSize := { size : Nat // 0 < size ∧ size < req.wbBytes }

def createSubreq (size : req.SubSize) : NfsPage shift :=
  { req with
    wbBytes := size.val
    wbVerf := 0
    bytes_pos := size.property.1
    end_le := le_trans (Nat.add_le_add_left size.property.2.le _) req.end_le }

def advance (size : req.SubSize) : NfsPage shift :=
  { req with
    wbOffset := req.wbOffset + size.val
    wbPgbase := req.wbPgbase + size.val
    wbBytes := req.wbBytes - size.val
    bytes_pos := Nat.sub_pos_of_lt size.property.2
    base_le := le_trans req.base_le (Nat.le_add_right _ _)
    end_le := by have := req.end_le; have := size.property; omega
    offset_eq := by have := req.offset_eq; omega }

/-- Sub-requests are taken off the front, so the head of a group is what ends where the group ends. -/
def isHead : Bool := decide (req.wbPgbase + req.wbBytes = req.wbHead.wbPgbase + req.wbHead.wbBytes)

/-- The same `wb_head`; the groups of an I/O lie apart in the file. -/
def sameGroup (other : NfsPage shift) : Bool := decide (req.wbIndex = other.wbIndex ∧ req.wbHead = other.wbHead)

/-- `nfs_join_page_group`: the head gets the range that the group covers. -/
def joinPageGroup : NfsPage shift :=
  { req with
    wbOffset := req.wbHead.wbOffset
    wbPgbase := req.wbHead.wbPgbase
    wbBytes := req.wbHead.wbBytes
    bytes_pos := by have := req.bytes_pos; have := req.base_le; have := req.end_le; omega
    base_le := le_rfl
    end_le := le_rfl
    offset_eq := rfl }

end NfsPage

/-- How far a request was taken off. -/
structure PageIter {shift : Nat} (req : NfsPage shift) where
  count : Nat
  le : count ≤ req.wbBytes

namespace PageIter
variable {shift : Nat} {req : NfsPage shift}

def init : PageIter req := ⟨0, Nat.zero_le _⟩

def advance (i : PageIter req) (sz : Nat) : PageIter req := ⟨min (i.count + sz) req.wbBytes, min_le_right _ _⟩

def get (i : PageIter req) : Option (Page × PageIter req) :=
  if i.count ≠ req.wbBytes then
    let base := i.count + req.wbPgbase
    let len := 2 ^ shift - base % 2 ^ shift
    some (req.toPage base, i.advance len)
  else none

theorem get_lt {i j : PageIter req} {page : Page} (h : i.get = some (page, j)) :
    req.wbBytes - j.count < req.wbBytes - i.count := by
  have hmod : (i.count + req.wbPgbase) % 2 ^ shift < 2 ^ shift := Nat.mod_lt _ (Nat.two_pow_pos _)
  have hle := i.le
  unfold get at h
  split at h
  · cases Option.some.inj h
    simp only [advance]
    omega
  · cases h

def pages (i : PageIter req) : List Page :=
  match _h : i.get with
  | none => []
  | some (page, j) => page :: j.pages
termination_by req.wbBytes - i.count
decreasing_by exact get_lt _h

end PageIter

end Mynfs
