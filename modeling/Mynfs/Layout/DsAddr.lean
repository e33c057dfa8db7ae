import Mynfs.Lib.Kstrtox
import Mynfs.Nfs4

/-! The universal address of a data server (pnfs_nfs.c): an address and two octets of a port, separated by dots. -/

namespace Mynfs

open Kstrtox

def strrchr (c : UInt8) : List UInt8 → Option (List UInt8 × List UInt8)
  | [] => none
  | a :: s =>
    match strrchr c s with
    | some (before, after) => some (a :: before, after)
    | none => if a = c then some ([], s) else none

def isSpace (c : UInt8) : Bool := decide (9 ≤ c.toNat ∧ c.toNat ≤ 13 ∨ c.toNat = 32 ∨ c.toNat = 160)

/-- A `%d` of the kernel's `sscanf`: the `int` that is stored, and what follows it. -/
def scanInt (s : List UInt8) : Option (U32 × List UInt8) :=
  let s := s.dropWhile isSpace
  let digits := if s.head? = some 45 then s.tail else s
  if digits.head?.any isDigit then
    let p := parseInteger 10 0 digits
    some (BitVec.ofInt 32 (if s.head? = some 45 then -p.1 else p.1), p.2)
  else none

/-- `sscanf(portstr, "%d-%d", &tmp[0], &tmp[1])`: what is not scanned keeps what the stack held. -/
def scanPort (portstr : List UInt8) (tmp : U32 × U32) : U32 × U32 :=
  match scanInt portstr with
  | none => tmp
  | some (a, rest) =>
    match rest with
    | 45 :: rest =>
      match scanInt rest with
      | some (b, _) => (a, b)
      | none => (a, tmp.2)
    | _ => (a, tmp.2)

/-- `struct sockaddr_storage`. -/
structure Sockaddr where
  ssFamily : Nat
  addr : List UInt8

/-- `struct nfs4_pnfs_ds_addr`, with the port that its `da_addr` holds. -/
structure PnfsDsAddr where
  daAddr : Sockaddr
  port : BitVec 16
  daAddrlen : Nat
  daTransport : Int
  daNetid : List UInt8
  daRemotestr : Option (List UInt8)

/-- The allocations that succeed, the address parser and the table of transports. -/
structure DsAddrEnv where
  dupNetid : Bool := true
  dupAddr : Bool := true
  allocAddr : Bool := true
  allocStr : Bool := true
  rpcPton : List UInt8 → Option Sockaddr
  xprtFindTransportIdent : List UInt8 → Int

def xdrMaxNetobj : Nat := 1024

/-- `INET6_ADDRSTRLEN + IPV6_SCOPE_ID_LEN + 8`. -/
def uaddrMaxlen : Nat := 48 + 12 + 8

/-- The address and the port string, in which a dash now stands for the dot. -/
def splitUaddr (buf : List UInt8) : Option (List UInt8 × List UInt8) :=
  (strrchr 46 buf).bind fun p => strrchr 46 (p.1 ++ 45 :: p.2)

/-- The size of an address of a family that is supported, and what is printed around it. -/
def familySep (ssFamily : Nat) : Option (Nat × List UInt8 × List UInt8) :=
  if ssFamily = 2 then some (16, [], []) else if ssFamily = 10 then some (28, [91], [93]) else none

def DsAddrEnv.dsAddr (env : DsAddrEnv) (netid buf : List UInt8) (sa : Sockaddr) (sep : Nat × List UInt8 × List UInt8)
    (port : BitVec 16) : PnfsDsAddr where
  daAddr := sa
  port := port
  daAddrlen := sep.1
  daTransport := env.xprtFindTransportIdent netid
  daNetid := netid
  daRemotestr := if env.allocStr then some (sep.2.1 ++ buf ++ sep.2.2 ++ 58 :: decimal port.toNat) else none

def portOf (tmp : U32 × U32) : BitVec 16 := ((tmp.1 <<< 8) ||| tmp.2).setWidth 16

/-- `tmp` is what the stack holds. -/
def mynfs4DecodeMpDsAddr (env : DsAddrEnv) (tmp : U32 × U32) (netid raddr : List UInt8) : Option PnfsDsAddr := do
  guard (netid.length ≤ xdrMaxNetobj ∧ env.dupNetid)
  guard (raddr.length ≤ uaddrMaxlen ∧ env.dupAddr)
  let p ← splitUaddr (cString raddr)
  guard (env.allocAddr)
  let sa ← env.rpcPton p.1
  let sep ← familySep sa.ssFamily
  guard (0 ≤ env.xprtFindTransportIdent (cString netid))
  return env.dsAddr (cString netid) p.1 sa sep (portOf (scanPort p.2 tmp))

end Mynfs
