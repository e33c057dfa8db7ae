import Mynfs.Inode.Ooo

/-! `nfs_update_inode` (inode.c) and `cache_validity`. Timeouts and generation counters are left out. -/

namespace Mynfs

/-- The bits `NFS_ATTR_FATTR_*`. -/
inductive FattrBit
  | type
  | mode
  | nlink
  | owner
  | group
  | size
  | spaceUsed
  | blocksUsed
  | atime
  | mtime
  | ctime
  | btime
  | change
  | presize
  | premtime
  | prectime
  | prechange
  | fileid
  | mountedOnFileid
deriving DecidableEq

/-- The flags `NFS_INO_INVALID_*`. -/
inductive InvalidFlag
  | data
  | atime
  | access
  | acl
  | revalForced
  | change
  | ctime
  | mtime
  | size
  | other
  | dataInvalDefer
  | blocks
  | xattr
  | nlink
  | mode
  | btime
deriving DecidableEq

def invalidAttr : List InvalidFlag := [.change, .ctime, .mtime, .size, .nlink, .mode, .other, .btime]

/-- The file type, as far as it matters. -/
inductive FileKind
  | reg
  | dir
  | lnk
  | other
deriving DecidableEq

/-- `struct nfs_fattr`. -/
structure Fattr where
  valid : FattrBit → Bool
  value : FattrBit → U64 := fun _ => 0
  /-- The file type in `mode`. -/
  kind : FileKind := .reg

/-- The attributes of an inode and their validity. -/
structure AttrInode where
  validity : InvalidFlag → Bool
  /-- The cached attributes; `spaceUsed` is `i_blocks`, and `mode` is without the type. -/
  value : FattrBit → U64 := fun _ => 0
  kind : FileKind := .reg
  ooo : Option (List Gap) := none
  stale : Bool := false

/-- What `nfs_update_inode` asks others. -/
structure UpdateEnv where
  supported : FattrBit → Bool
  haveDelegation : Bool := false
  delegatedMtime : Bool := false
  delegatedAtime : Bool := false
  haveWriters : Bool := false
  haveWritebacks : Bool := false
  layoutcommitOutstanding : Bool := false
  hasPages : Bool := false
  hasXattrCache : Bool := false
  capXattr : Bool := false
  gapMax : Nat := 16
  canAlloc : Bool := true

namespace AttrInode
variable (env : UpdateEnv) (i : AttrInode) (f : Fattr)

def set (bit : FattrBit) (v : U64) : AttrInode := { i with value := fun b => if b = bit then v else i.value b }

def restore (saved : InvalidFlag → Bool) (flags : List InvalidFlag) : AttrInode :=
  { i with validity := fun g => i.validity g || saved g && g ∈ flags }

def mynfsSetCacheInvalid (flags : List InvalidFlag) : AttrInode :=
  let delegated := env.haveDelegation
  let dropped := fun g =>
    delegated && .revalForced ∉ flags && g ∈ [.mode, .other, .btime, .xattr] || delegated && g ∈ [.change, .size] ||
      !env.hasXattrCache && g = .xattr || g = .revalForced
  let validity := fun g => (g ∈ flags && !dropped g || i.validity g) && !(g = .data && !env.hasPages)
  if !env.hasPages || validity .data then
    { i with validity := fun g => validity g && g ≠ .dataInvalDefer, ooo := none }
  else { i with validity := validity }

def fixupDelegated : Fattr :=
  let keep := fun flag => i.validity flag
  let drop := fun b =>
    env.delegatedMtime && (!keep .ctime && b ∈ [.prectime, .ctime] || !keep .mtime && b ∈ [.premtime, .mtime]) ||
      (env.delegatedMtime || env.delegatedAtime) && !keep .atime && b = .atime
  { f with valid := fun b => f.valid b && !drop b }

def loff (size : U64) : U64 := if size.toNat < 2 ^ 63 then size else BitVec.ofNat 64 (2 ^ 63 - 1)

/-- An attribute follows the reply if it still has the value from before the call. -/
def wcc (pre post : FattrBit) (guard : Bool) : AttrInode :=
  if f.valid pre && f.valid post && i.value post = f.value pre && guard then i.set post (f.value post) else i

def nfsWccUpdateInode : AttrInode :=
  let matched := f.valid .prechange && f.valid .change && i.value .change = f.value .prechange
  let i := if matched then
      let i := i.set .change (f.value .change)
      if i.kind = .dir then i.mynfsSetCacheInvalid env [.data]
      else if env.capXattr then i.mynfsSetCacheInvalid env [.xattr] else i
    else i
  (((i.wcc f .prectime .ctime true).wcc f .premtime .mtime true).wcc
    { f with value := fun b => if b = .size ∨ b = .presize then loff (f.value b) else f.value b } .presize .size !env.haveWritebacks)

def oooInode : OooInode := ⟨i.ooo, i.validity .dataInvalDefer⟩

def setOoo (o : OooInode) : AttrInode :=
  { i with ooo := o.ooo, validity := fun g => if g = .dataInvalDefer then o.dataInvalDefer else i.validity g }

/-- A single remaining gap that ends at the cached change attribute is merged into it. -/
def mergeGap : AttrInode :=
  match i.ooo with
  | some [(start, stop)] =>
    if !env.haveWriters && stop = i.value .change then { i.set .change start with ooo := none } else i
  | _ => i

/-- What is forced to be revalidated when the change attribute has changed. -/
def forced : List InvalidFlag := [.ctime, .mtime, .size, .blocks, .nlink, .mode, .other, .btime]

/-- With the saved flags and those to be set at the end. -/
def updateChange (saved : InvalidFlag → Bool) : AttrInode × (InvalidFlag → Bool) × List InvalidFlag :=
  if f.valid .change then
    let i := i.mergeGap env
    if i.value .change ≠ f.value .change then
      if !(env.haveWriters || env.haveDelegation) then
        (i.set .change (f.value .change), fun g => saved g || g ∈ forced, [.data, .access, .acl, .xattr])
      else if !env.haveDelegation then
        let o := nfsOooRecord env.gapMax env.canAlloc i.oooInode
          ⟨f.value .change, f.value .prechange, f.valid .change, f.valid .prechange⟩
        ((i.setOoo (nfsOooMerge env.gapMax env.canAlloc o (i.value .change) (f.value .change))).set .change (f.value .change),
          saved, [])
      else (i.set .change (f.value .change), saved, [])
    else (i, saved, [])
  else (i.restore saved [.change], saved, [])

/-- The attributes that are asked for again if they are missing, with their flags. -/
def missing : List (FattrBit × InvalidFlag) :=
  [(.mtime, .mtime), (.ctime, .ctime), (.btime, .btime), (.size, .size), (.atime, .atime), (.mode, .mode), (.owner, .other),
    (.group, .other), (.nlink, .nlink), (.spaceUsed, .blocks), (.blocksUsed, .blocks)]

/-- A file without data uses no space. -/
def sizeZero : Fattr :=
  if f.valid .size && loff (f.value .size) = 0 && !(f.valid .spaceUsed || f.valid .blocksUsed) then
    { f with
      valid := fun b => b = .spaceUsed || f.valid b
      value := fun b => if b = .spaceUsed then 0 else f.value b }
  else f

/-- The size is taken over unless there are writes that the server has not seen. -/
def takesSize : Bool :=
  f.valid .size && loff (f.value .size) ≠ i.value .size && !env.haveDelegation &&
    (!env.haveWritebacks || i.value .size < loff (f.value .size))

def taken (b : FattrBit) : U64 :=
  match b with
  | .size => if i.takesSize env f then loff (f.value .size) else i.value .size
  | .spaceUsed =>
    if f.valid .blocksUsed then f.value .blocksUsed
    else if f.valid .spaceUsed then (f.value .spaceUsed + 511) >>> 9 else i.value .spaceUsed
  | .mtime | .ctime | .btime | .atime | .mode | .owner | .group | .nlink => if f.valid b then f.value b else i.value b
  | _ => i.value b

/-- The flags for the access and ACL caches and for the data that the attributes ask for. -/
def taintedBy : List InvalidFlag :=
  (if i.takesSize env f && !env.haveWriters then [.data] else []) ++
    if [FattrBit.mode, .owner, .group].any fun b => f.valid b && i.value b ≠ f.value b then [.access, .acl] else []

def update : AttrInode :=
  let f := i.fixupDelegated env f
  let cleared : AttrInode := { i with validity := fun g => i.validity g && g ∉ invalidAttr && g ∉ [.atime, .revalForced, .blocks] }
  let j := cleared.nfsWccUpdateInode env f
  let j := if env.layoutcommitOutstanding then j.restore i.validity [.change, .ctime, .mtime, .size, .blocks] else j
  let r := j.updateChange env f i.validity
  let invalid := r.2.2 ++ r.1.taintedBy env f
  let f := sizeZero f
  let again := (missing.filter fun m => !f.valid m.1 && (m.1 = .size || env.supported m.1)).map (·.2)
  let j := { r.1.restore r.2.1 again with value := r.1.taken env f }
  j.mynfsSetCacheInvalid env (invalid.filter fun g => g ≠ .data || i.kind ≠ .other)

def setInodeStale : AttrInode :=
  mynfsSetCacheInvalid env { i with stale := true }
    (.access :: .acl :: .xattr :: (if i.kind = .other then invalidAttr else .data :: invalidAttr))

def nfsUpdateInode : AttrInode × Int :=
  if !f.valid .fileid && f.valid .mountedOnFileid then (i, 0)
  else if f.valid .fileid && i.value .fileid ≠ f.value .fileid then
    if f.valid .mountedOnFileid && i.value .fileid = f.value .mountedOnFileid then (i, 0)
    else (i.setInodeStale env, negErrno .estale)
  else if f.valid .type && i.kind ≠ f.kind then (i.setInodeStale env, negErrno .estale)
  else (i.update env f, 0)

end AttrInode
end Mynfs
