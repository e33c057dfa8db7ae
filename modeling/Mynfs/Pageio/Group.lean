import Mynfs.Lib.Ring
import Mynfs.Nfs4

/-! Page groups (pagelist.c, write.c): the requests of one page or folio in a ring of `wb_this_page` pointers. -/

namespace Mynfs

/-- `struct nfs_page`, as a member of a group. -/
structure GroupPage where
  wbThisPage : Nat
  wbHead : Nat
  wbOffset : U32
  wbPgbase : U32
  wbBytes : U32

namespace GroupPage
variable (req : GroupPage)

/-- The bytes of its page or folio that a request has. -/
def Covers (x : Nat) : Prop := req.wbPgbase.toNat ≤ x ∧ x < req.wbPgbase.toNat + req.wbBytes.toNat

instance (x : Nat) : Decidable (req.Covers x) := inferInstanceAs (Decidable (_ ∧ _))

end GroupPage

/-- The memory of the requests. -/
structure GroupMem where
  req : Nat → GroupPage
  fresh : Nat

namespace GroupMem
variable (mem : GroupMem)

def next (p : Nat) : Nat := (mem.req p).wbThisPage

def set (p : Nat) (req : GroupPage) : GroupMem := { mem with req := fun q => if q = p then req else mem.req q }

def nfsPageCreate (pgbase offset count : U32) : Nat × GroupMem :=
  (mem.fresh, { mem.set mem.fresh ⟨0, 0, offset, pgbase, count⟩ with fresh := mem.fresh + 1 })

def nfsPageGroupInit (p : Nat) : Option Nat → GroupMem
  | none => mem.set p { mem.req p with wbHead := p, wbThisPage := p }
  | some prev =>
    let mem := mem.set p { mem.req p with wbHead := (mem.req prev).wbHead, wbThisPage := (mem.req prev).wbThisPage }
    mem.set prev { mem.req prev with wbThisPage := p }

def nfsCreateSubreq (fuel : Nat) (p : Nat) (pgbase offset count : U32) : Option (Nat × GroupMem) :=
  let (ret, mem) := mem.nfsPageCreate pgbase offset count
  (Linked.last mem.next (mem.req p).wbHead fuel (mem.req p).wbHead).map fun last => (ret, mem.nfsPageGroupInit ret (some last))

def nfsPageGroupSearchLocked (fuel : Nat) (head : Nat) (pageOffset : U32) : Option (Option Nat) :=
  Linked.search mem.next head
    (fun p => decide ((mem.req p).wbPgbase ≤ pageOffset ∧ pageOffset < (mem.req p).wbPgbase + (mem.req p).wbBytes)) fuel head

def coversLoop (search : U32 → Option (Option Nat)) : Nat → U32 → Option U32
  | 0, _ => none
  | fuel + 1, pos =>
    (search pos).bind fun
      | none => some pos
      | some tmp => coversLoop search fuel ((mem.req tmp).wbPgbase + (mem.req tmp).wbBytes)

/-- With `nfs_folio_length` of the folio. -/
def nfsPageGroupCoversPage (fuel : Nat) (p : Nat) (len : U32) : Option Bool :=
  (mem.coversLoop (mem.nfsPageGroupSearchLocked fuel (mem.req p).wbHead) fuel 0).map fun pos => decide (len ≤ pos)

def maxU32 (x y : U32) : U32 := if y < x then x else y

/-- What `nfs_join_page_group` does with the range of the head at one subrequest. -/
def joinSubreq (head : GroupPage) (p : Nat) : GroupPage :=
  let subreq := mem.req p
  let head :=
    if subreq.wbPgbase < head.wbPgbase then
      { head with
        wbOffset := head.wbOffset - (head.wbPgbase - subreq.wbPgbase)
        wbBytes := head.wbBytes + (head.wbPgbase - subreq.wbPgbase)
        wbPgbase := subreq.wbPgbase }
    else head
  { head with wbBytes := maxU32 (subreq.wbPgbase + subreq.wbBytes - head.wbPgbase) head.wbBytes }

/-- Every subrequest becomes a group of its own. -/
def nfsDestroyUnlinkedSubrequests (oldHead : Nat) : Nat → Option Nat → GroupMem → Option GroupMem
  | _, none, mem => some mem
  | 0, some _, _ => none
  | fuel + 1, some subreq, mem =>
    let destroyList := if mem.next subreq = oldHead then none else some (mem.next subreq)
    nfsDestroyUnlinkedSubrequests oldHead fuel destroyList
      (mem.set subreq { mem.req subreq with wbThisPage := subreq, wbHead := subreq })

def nfsJoinPageGroup (fuel : Nat) (head : Nat) : Option GroupMem :=
  (Linked.forEach mem.next head mem.joinSubreq fuel (mem.next head) (mem.req head)).bind fun req =>
    if req.wbThisPage ≠ head then
      nfsDestroyUnlinkedSubrequests head fuel (some req.wbThisPage) (mem.set head { req with wbThisPage := head })
    else nfsDestroyUnlinkedSubrequests head fuel none (mem.set head req)

end GroupMem

/-- The loop of `__nfs_pageio_add_request`. -/
structure SplitLoop where
  req : Nat
  subreq : Nat
  subreqSize : U32

/-- What `pg_test` allows, or zero; whether to go on after `nfs_pageio_doio`; and whether `nfs_page_create` succeeds. -/
structure SplitAnswers where
  size : U32
  goOn : Bool := true
  alloc : Bool := true

/-- A page group with the call of `__nfs_pageio_add_request` that works on it, if there is one. -/
structure SplitGroup where
  mem : GroupMem
  head : Nat
  loop : Option SplitLoop := none

/-- What splits a request. -/
inductive SplitEvent
  | mirror (req : Nat)
  /-- For a new request or for one that is coalesced again. -/
  | begin (req : Nat)
  | iterate (answers : SplitAnswers)

namespace SplitGroup
variable (s : SplitGroup)

def fuel : Nat := s.mem.fresh + 1

def members : Option (List Nat) :=
  Linked.forEach s.mem.next s.head (fun ps p => ps ++ [p]) s.fuel (s.mem.next s.head) [s.head]

def createSubreq (req : Nat) (size : U32) : Option SplitGroup :=
  (s.mem.nfsCreateSubreq s.fuel req (s.mem.req req).wbPgbase (s.mem.req req).wbOffset size).map fun (subreq, mem) =>
    { s with mem := mem, loop := some ⟨req, subreq, size⟩ }

def iterate (loop : SplitLoop) (answers : SplitAnswers) : Option SplitGroup :=
  let req := s.mem.req loop.req
  -- `nfs_pageio_do_add_request`
  let bytes := (s.mem.req loop.subreq).wbBytes
  let size := if answers.size < bytes then answers.size else bytes
  if size = loop.subreqSize then
    if loop.subreq = loop.req then some { s with loop := none }
    else
      let req := { req with wbPgbase := req.wbPgbase + size, wbBytes := req.wbBytes - size, wbOffset := req.wbOffset + size }
      some { s with mem := s.mem.set loop.req req, loop := some ⟨loop.req, loop.req, req.wbBytes⟩ }
  else
  -- a sub-request that was not taken is given up
  let loop := if loop.subreq ≠ loop.req then ⟨loop.req, loop.req, req.wbBytes⟩ else loop
  if size = 0 then some { s with loop := if answers.goOn then some loop else none }
  else if answers.alloc then s.createSubreq loop.req size
  else some { s with loop := none }

def step : SplitEvent → Option SplitGroup
  | .mirror req =>
    if s.loop.isNone && s.members.any (req ∈ ·) then
      (s.createSubreq req (s.mem.req req).wbBytes).map fun t => { t with loop := none }
    else none
  | .begin req =>
    if s.loop.isNone && s.members.any (req ∈ ·) then some { s with loop := some ⟨req, req, (s.mem.req req).wbBytes⟩ } else none
  | .iterate answers => s.loop.bind fun loop => s.iterate loop answers

end SplitGroup

end Mynfs
