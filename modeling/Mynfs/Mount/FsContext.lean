import Mathlib.Data.List.Basic

/-! Mount parameters after `fs_parse` (fs_context.c): the flags that several write, and the protocol version. -/

namespace Mynfs

/-- The flags `NFS_MOUNT_*`. -/
inductive MountFlag
  | soft
  | softerr
  | softreval
  | nonlm
  | localFlock
  | localFcntl
  | lookupCacheNoneg
  | lookupCacheNone
  | writeEager
  | writeWait
  | nordirplus
  | forceRdirplus
  | ver3
deriving DecidableEq

/-- The members of `struct nfs_fs_context` that these parameters write; a fresh context is zeroed. -/
structure NfsFsContext where
  flags : MountFlag → Bool := fun _ => false
  version : Nat := 0
  minorversion : Nat := 0
  migration : Bool := false
  sloppy : Bool := false

/-- The values of `local_lock`. -/
inductive LocalLock
  | all
  | flock
  | posix
  | none

/-- The values of `lookupcache`. -/
inductive LookupCache
  | all
  | positive
  | none

/-- The values of `write`. -/
inductive WriteMode
  | lazy
  | eager
  | wait

/-- After `fs_parse`; `other` writes other members only, if its value is valid, and `noparam` is not known. -/
inductive FsParam
  | soft
  | softerr
  | hard
  | softreval
  | lock (negated : Bool)
  | nordirplus
  | rdirplus (string : Option String)
  | migration (negated : Bool)
  | minorversion (n : Nat)
  | vers (string : String)
  | lookupcache (value : LookupCache)
  | localLock (value : LocalLock)
  | write (value : WriteMode)
  | sloppy
  | other (ok : Bool)
  | noparam

namespace NfsFsContext
variable (ctx : NfsFsContext)

/-- `ctx->flags |= on` with `ctx->flags &= ~off` -/
def setFlags (on off : List MountFlag) : NfsFsContext :=
  { ctx with flags := fun f => (ctx.flags f || on.contains f) && !off.contains f }

def nfsParseVersionString (string : String) : Option NfsFsContext :=
  let ctx := ctx.setFlags [] [.ver3]
  if string = "2" then some { ctx with version := 2 }
  else if string = "3" then some { ctx.setFlags [.ver3] [] with version := 3 }
  -- The minor version is left as it is for compatibility.
  else if string = "4" then some { ctx with version := 4 }
  else if string = "4.0" then some { ctx with version := 4, minorversion := 0 }
  else if string = "4.1" then some { ctx with version := 4, minorversion := 1 }
  else if string = "4.2" then some { ctx with version := 4, minorversion := 2 }
  else none

/-- `none` is an error; Opt_v and Opt_vers give their text to the same function. -/
def nfsFsContextParseParam : FsParam → Option NfsFsContext
  | .soft => some (ctx.setFlags [.soft] [.softerr])
  | .softerr => some (ctx.setFlags [.softerr, .softreval] [.soft])
  | .hard => some (ctx.setFlags [] [.soft, .softerr, .softreval])
  | .softreval => some (ctx.setFlags [.softreval] [])
  | .lock true => some (ctx.setFlags [.nonlm, .localFlock, .localFcntl] [])
  | .lock false => some (ctx.setFlags [] [.nonlm, .localFlock, .localFcntl])
  | .nordirplus => some (ctx.setFlags [.nordirplus] [.forceRdirplus])
  | .rdirplus none => some (ctx.setFlags [] [.nordirplus, .forceRdirplus])
  | .rdirplus (some string) =>
    if string = "none" then some (ctx.setFlags [.nordirplus] [.forceRdirplus])
    else if string = "force" then some (ctx.setFlags [.forceRdirplus] [.nordirplus])
    else none
  | .migration negated => some { ctx with migration := !negated }
  -- NFS4_MAX_MINOR_VERSION
  | .minorversion n => if 2 < n then none else some { ctx with minorversion := n }
  | .vers string => ctx.nfsParseVersionString string
  | .lookupcache .all => some (ctx.setFlags [] [.lookupCacheNoneg, .lookupCacheNone])
  | .lookupcache .positive => some (ctx.setFlags [.lookupCacheNoneg] [.lookupCacheNone])
  | .lookupcache .none => some (ctx.setFlags [.lookupCacheNoneg, .lookupCacheNone] [])
  | .localLock .all => some (ctx.setFlags [.localFlock, .localFcntl] [])
  | .localLock .flock => some (ctx.setFlags [.localFlock] [])
  | .localLock .posix => some (ctx.setFlags [.localFcntl] [])
  | .localLock .none => some (ctx.setFlags [] [.localFlock, .localFcntl])
  | .write .lazy => some (ctx.setFlags [] [.writeEager, .writeWait])
  | .write .eager => some (ctx.setFlags [.writeEager] [.writeWait])
  | .write .wait => some (ctx.setFlags [.writeEager, .writeWait] [])
  | .sloppy => some { ctx with sloppy := true }
  | .other ok => if ok then some ctx else none
  | .noparam => if ctx.sloppy then some ctx else none

def parseParams (params : List FsParam) : Option NfsFsContext := params.foldlM nfsFsContextParseParam ctx

/-- The first checks of `nfs_fs_context_validate`. -/
def versionsAgree : Bool :=
  !(ctx.minorversion != 0 && ctx.version != 4) && !(ctx.migration && (ctx.version != 4 || ctx.minorversion != 0))

end NfsFsContext
end Mynfs
