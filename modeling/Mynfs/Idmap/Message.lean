import Mynfs.Idmap

/-! The message of a legacy id-map upcall (nfs4idmap.c), made from the description of a key. -/

namespace Mynfs

open Kstrtox

/-- `im_type`. -/
inductive IdmapType
  | user
  | group

/-- `im_conv`. -/
inductive IdmapConv
  | nameToId
  | idToName

/-- `struct idmap_msg`. -/
structure IdmapMsg where
  imType : IdmapType
  imConv : IdmapConv
  imName : List UInt8 := []
  imId : U32 := 0

def idmapNamesz : Nat := 128

/-- A lookup: of the name of an id, or of the id of a name. -/
inductive IdmapQuery
  | lookupName (type : IdmapType) (id : U32)
  | lookupId (type : IdmapType) (name : List UInt8)

def nfsIdmapGetDesc (name type : List UInt8) : List UInt8 := type ++ 58 :: name

/-- The description that `nfs_idmap_lookup_name` and `nfs_idmap_lookup_id` ask for. -/
def IdmapQuery.description : IdmapQuery → List UInt8
  | .lookupName .user id => cString (nfsIdmapGetDesc (nfsMapNumericToString id nfsUintMaxlen) [117, 115, 101, 114])
  | .lookupName .group id => cString (nfsIdmapGetDesc (nfsMapNumericToString id nfsUintMaxlen) [103, 114, 111, 117, 112])
  | .lookupId .user name => cString (nfsIdmapGetDesc name [117, 105, 100])
  | .lookupId .group name => cString (nfsIdmapGetDesc name [103, 105, 100])

def nfsIdmapTokens : List (List UInt8 × IdmapType × IdmapConv) :=
  [([117, 105, 100, 58], .user, .nameToId), ([103, 105, 100, 58], .group, .nameToId),
    ([117, 115, 101, 114, 58], .user, .idToName), ([103, 114, 111, 117, 112, 58], .group, .idToName)]

/-- The token that matches, with what its `%s` stands for, which is not empty. -/
def matchToken (desc : List UInt8) : Option (IdmapType × IdmapConv × List UInt8) :=
  nfsIdmapTokens.findSome? fun tok =>
    if tok.1 <+: desc ∧ tok.1 ≠ desc then some (tok.2.1, tok.2.2, desc.drop tok.1.length) else none

def matchStrlcpy (s : List UInt8) (size : Nat) : List UInt8 := if size ≤ s.length then s.take (size - 1) else s

/-- `simple_strtol` with base 0 reads the number. -/
def matchInt (s : List UInt8) : Except Errno Int :=
  let digits := if s.head? = some 45 then s.tail else s
  let r := fixupRadix 0 digits
  let p := parseInteger r.1 0 r.2
  let val := (BitVec.ofInt 64 (if s.head? = some 45 then -p.1 else p.1)).toInt
  if 24 ≤ s.length then .error .erange
  else if p.2 = s then .error .einval
  else if val < -2 ^ 31 ∨ 2 ^ 31 ≤ val then .error .erange
  else .ok val

def nfsIdmapPrepareMessage (desc : List UInt8) : Except Errno IdmapMsg :=
  match matchToken desc with
  | some (type, .nameToId, s) => .ok { imType := type, imConv := .nameToId, imName := matchStrlcpy s idmapNamesz }
  | some (type, .idToName, s) =>
    match matchInt s with
    | .ok val => .ok { imType := type, imConv := .idToName, imId := BitVec.ofInt 32 val }
    | .error e => .error e
  | none => .error .einval

end Mynfs
