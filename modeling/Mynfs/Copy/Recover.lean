import Mynfs.Copy.Offload

/-! Copies whose files are recovered (nfs4state.c): the waiting tasks are woken and told to start again. -/

namespace Mynfs

/-- The open state whose copies are completed. -/
structure CopyParent where
  stateid : Stateid
  clntDst : Bool
  clntSrc : Bool

/-- `copy->parent_dst_state->stateid` and `copy->parent_src_state->stateid`. -/
structure ParentStateids where
  dst : CopyId → Stateid
  src : CopyId → Stateid

section
variable (parent : ParentStateids)

def completeDstCopy : CopyClient × CopyParent → CopyId → CopyClient × CopyParent
  | (clp, state), id =>
    if state.clntDst && !state.stateid.nfs4StateidMatchOther (parent.dst id) then (clp, state)
    else
      let clp := clp.modify id fun copy => { copy with flags := true }
      if state.clntDst then
        (clp.modify id fun copy => { copy with completed := true }, { state with clntDst := false, clntSrc := false })
      else (clp, state)

/-- What the second loop does with a copy. It looks at the flag for destinations, too, before it completes the copy. -/
def completeSrcCopy : CopyClient × CopyParent → CopyId → CopyClient × CopyParent
  | (clp, state), id =>
    if state.clntSrc && !state.stateid.nfs4StateidMatchOther (parent.src id) then (clp, state)
    else
      let clp := clp.modify id fun copy => { copy with flags := true }
      if state.clntDst then (clp.modify id fun copy => { copy with completed := true }, { state with clntDst := false })
      else (clp, state)

def nfs42CompleteCopies (soServer : ServerId) (clp : CopyClient) (state : CopyParent) : CopyClient × CopyParent :=
  if !state.clntDst && !state.clntSrc then (clp, state)
  else
    let server := clp.server soServer
    server.ssSrcCopies.foldl (completeSrcCopy parent) (server.ssCopies.foldl (completeDstCopy parent) (clp, state))

end

end Mynfs
