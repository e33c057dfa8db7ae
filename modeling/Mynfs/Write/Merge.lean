import Mynfs.Pageio.Group

/-! A new write to a folio that has a request already (write.c). -/

namespace Mynfs

/-- The request returned, and the one that was marked dirty, released and flushed instead. -/
structure UpdateResult where
  ret : Except Err (Option GroupPage)
  flushed : Option GroupPage := none

/-- `found` is what `nfs_lock_and_join_requests` returns, and `wbFolio` what `nfs_wb_folio` does. -/
def nfsTryToUpdateRequest (found : Except Err (Option GroupPage)) (offset bytes : U32) (wbFolio : Except Err Unit) : UpdateResult :=
  match found with
  | .error e => { ret := .error e }
  | .ok none => { ret := .ok none }
  | .ok (some req) =>
    let stop := offset + bytes
    let rqend := req.wbOffset + req.wbBytes
    if rqend < offset ∨ stop < req.wbOffset then { ret := wbFolio.map fun _ => none, flushed := some req }
    else
      let req := if offset < req.wbOffset then { req with wbOffset := offset, wbPgbase := offset } else req
      { ret := .ok (some { req with wbBytes := if rqend < stop then stop - req.wbOffset else rqend - req.wbOffset }) }

end Mynfs
