import Mynfs.Lib.Kstrtox
import Mynfs.Nfs4

/-! Owner and group strings (nfs4idmap.c): a number is the id itself, other strings are mapped in user space. -/

namespace Mynfs

open Kstrtox

def nfsUintMaxlen : Nat := 11

/-- The id, if the name is taken as a number. -/
def mynfsMapStringToNumeric (name : List UInt8) : Option U32 :=
  if 64 ∈ name ∨ 16 ≤ name.length then none
  else
    match kstrtoull 0 (cString name) with
    | .ok val => some (BitVec.ofNat 32 val)
    | .error _ => none

def nfsMapNumericToString (id : U32) (buflen : Nat) : List UInt8 := (decimal id.toNat).take (buflen - 1)

/-- The key's payload, what the stack holds behind its copy, and the ids that are valid in the user namespace. -/
structure Idmap where
  requestKey : List UInt8 → Except Errno (List UInt8)
  stack : List UInt8 := []
  makeKuid : U32 → Option Nat

namespace Idmap
variable (idmap : Idmap)

def nfsIdmapGetKey (name : List UInt8) (dataSize : Nat) : Except Errno (List UInt8) :=
  match idmap.requestKey name with
  | .error e => .error e
  | .ok payload => if 0 < payload.length ∧ payload.length ≤ dataSize then .ok payload else .error .einval

def nfsIdmapLookupId (name : List UInt8) : Except Errno U32 :=
  match idmap.nfsIdmapGetKey name nfsUintMaxlen with
  | .error _ => .error .einval
  | .ok payload =>
    match kstrtoll 10 (cString (payload ++ idmap.stack)) with
    | .ok idLong => .ok (BitVec.ofInt 32 idLong)
    | .error .inval => .error .einval
    | .error .range => .error .erange

def nfsMapNameToUid (name : List UInt8) : Except Errno Nat :=
  let id : Except Errno U32 :=
    match mynfsMapStringToNumeric name with
    | some id => .ok id
    | none => idmap.nfsIdmapLookupId name
  match id with
  | .error e => .error e
  | .ok id =>
    match idmap.makeKuid id with
    | some uid => .ok uid
    | none => .error .erange

end Idmap

end Mynfs
