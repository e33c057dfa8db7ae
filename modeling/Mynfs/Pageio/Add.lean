import Mynfs.Pageio.Coalesce

/-! Adding requests to a descriptor with one mirror (pagelist.c). `Call` is the place in the loops, `Call.step` one
    iteration. Giving up on a data server looks like the plain `pg_doio`. -/

namespace Mynfs

section
variable {shift : Nat}

/-- With the offset and the length of its RPC's arguments and the `NFS_IOHDR_...` bits of a write. -/
structure PgioHeader (shift : Nat) where
  ioStart : Nat
  goodBytes : Nat
  pages : List (NfsPage shift)
  argsOffset : Nat
  argsCount : Nat
  error : Int := 0
  verf : WriteVerf := {}
  iohdrError : Bool := false
  iohdrRedo : Bool := false
  iohdrUnstableWrites : Bool := false

def mynfsPgheaderInit (mirror : PgioMirror shift) (first : NfsPage shift) : PgioHeader shift where
  ioStart := first.reqOffset
  goodBytes := mirror.pgCount
  pages := mirror.pgList
  argsOffset := first.reqOffset
  argsCount := mirror.pgCount

/-- `pg_doio` sends the list in one RPC, leaves it for recoalescing (`PNFS_TRY_AGAIN`), or fails, and the list stays.
    `mynfs_generic_pgio` has no `-EINVAL` for coalesced requests. -/
inductive Doio
  | sent
  | tryAgain
  | failed (error : Err)

def nfsPageioDoio (doio : Doio) (desc : PgioDescriptor shift) : PgioDescriptor shift × Option (PgioHeader shift) :=
  match desc.mirror.pgList with
  | [] => (desc, none)
  | first :: _ =>
    match doio with
    | .sent => ({ desc with mirror := { desc.mirror with pgList := [] } }, some (mynfsPgheaderInit desc.mirror first))
    | .tryAgain => ({ desc with mirror := { desc.mirror with pgRecoalesce := true } }, none)
    | .failed error => ({ desc with pgError := error }, none)

/-- The loop of `__nfs_pageio_add_request`. -/
structure AddLoop (shift : Nat) where
  req : NfsPage shift
  subreq : Option req.SubSize := none

/-- What one iteration asks others. -/
structure AddAnswers where
  env : AddEnv
  doio : Doio := .sent
  createSubreq : Option Err := none

/-- How an iteration ends. -/
inductive AddNext (shift : Nat)
  | again (loop : AddLoop shift)
  | returned1
  | returned0 (req : NfsPage shift)

/-- The request was not taken: do the I/O of what the mirror has, or split the request. -/
def addRefused (ans : AddAnswers) (size : Nat) (desc : PgioDescriptor shift) (req : NfsPage shift) :
    PgioDescriptor shift × Option (PgioHeader shift) × AddNext shift :=
  if h : 0 < size ∧ size < req.wbBytes then
    match ans.createSubreq with
    | some error => ({ desc with pgError := error }, none, .returned0 req)
    | none => (desc, none, .again ⟨req, some ⟨size, h⟩⟩)
  else
    let (desc, hdr) := nfsPageioDoio ans.doio desc
    if desc.pgError < 0 ∨ desc.mirror.pgRecoalesce then (desc, hdr, .returned0 req)
    else (desc, hdr, .again ⟨req, none⟩)

/-- One iteration. A sub-request that is not taken is given up, and the request as a whole goes on. -/
def AddLoop.step (ans : AddAnswers) (desc : PgioDescriptor shift) (loop : AddLoop shift) :
    PgioDescriptor shift × Option (PgioHeader shift) × AddNext shift :=
  match loop.subreq with
  | none =>
    let (size, desc) := nfsPageioDoAddRequest ans.env desc loop.req
    if size = loop.req.wbBytes then (desc, none, .returned1) else addRefused ans size desc loop.req
  | some sub =>
    let (size, desc) := nfsPageioDoAddRequest ans.env desc (loop.req.createSubreq sub)
    if size = sub.val then (desc, none, .again ⟨loop.req.advance sub, none⟩) else addRefused ans size desc loop.req

/-- In `nfs_do_recoalesce`, `rest` follows the request of the loop, and `outer` is that of a caller that recoalesces. -/
inductive Call (shift : Nat)
  | add (loop : AddLoop shift)
  | recoalesce (loop : AddLoop shift) (rest : List (NfsPage shift)) (outer : Option (NfsPage shift))
  | complete
  | failed (req : NfsPage shift)

/-- The requests that a call holds outside of the mirror, in the order of their addition. -/
def Call.held : Call shift → List (NfsPage shift)
  | .add loop => [loop.req]
  | .recoalesce loop rest outer => loop.req :: rest ++ outer.toList
  | .complete => []
  | .failed req => [req]

def Call.completing : Call shift → Bool
  | .complete | .recoalesce _ _ none => true
  | .add _ | .recoalesce _ _ (some _) | .failed _ => false

/-- What an iteration leaves. -/
structure CallStep (shift : Nat) where
  desc : PgioDescriptor shift
  hdr : Option (PgioHeader shift) := none
  cleanup : List (NfsPage shift) := []
  next : Option (Call shift) := none

def recoalesced : Option (NfsPage shift) → Call shift
  | some req => .add ⟨req, none⟩
  | none => .complete

section
variable (desc : PgioDescriptor shift) (hdr : Option (PgioHeader shift))

/-- An iteration of the outer loop of `nfs_do_recoalesce`, with `rest` what is left on the local list. -/
def startRecoalesce (rest : List (NfsPage shift)) (outer : Option (NfsPage shift)) : CallStep shift :=
  let head := desc.mirror.pgList ++ rest
  let desc := { desc with mirror := { desc.mirror with pgList := [], pgRecoalesce := false } }
  match head with
  | [] => { desc, hdr, next := some (recoalesced outer) }
  | req :: rest => { desc, hdr, next := some (.recoalesce ⟨req, none⟩ rest outer) }

def failCall (outer : Option (NfsPage shift)) : CallStep shift :=
  { desc := { desc with mirror := { desc.mirror with pgList := [] } }
    hdr
    cleanup := desc.mirror.pgList
    next := outer.map .failed }

end

def Call.step (ans : AddAnswers) (desc : PgioDescriptor shift) : Call shift → Option (CallStep shift)
  | .add loop =>
    let (desc, hdr, next) := loop.step ans desc
    match next with
    | .again loop => some { desc, hdr, next := some (.add loop) }
    | .returned1 => some { desc, hdr }
    | .returned0 req =>
      if desc.pgError < 0 then some (failCall desc hdr (some req)) else some (startRecoalesce desc hdr [] (some req))
  | .recoalesce loop rest outer =>
    let (desc, hdr, next) := loop.step ans desc
    match next with
    | .again loop => some { desc, hdr, next := some (.recoalesce loop rest outer) }
    | .returned1 =>
      match rest with
      | [] =>
        if desc.mirror.pgRecoalesce then some (startRecoalesce desc hdr [] outer)
        else some { desc, hdr, next := some (recoalesced outer) }
      | req :: rest => some { desc, hdr, next := some (.recoalesce ⟨req, none⟩ rest outer) }
    | .returned0 req =>
      if desc.pgError < 0 then
        let mirror := { desc.mirror with pgList := desc.mirror.pgList ++ req :: rest, pgRecoalesce := true }
        some (failCall { desc with mirror } hdr outer)
      else some (startRecoalesce desc hdr (req :: rest) outer)
  | .complete =>
    let (desc, hdr) := nfsPageioDoio ans.doio desc
    if desc.pgError < 0 then some (failCall desc hdr none)
    else if desc.mirror.pgRecoalesce then some (startRecoalesce desc hdr [] none)
    else some { desc, hdr }
  | .failed _ => none

end

end Mynfs
