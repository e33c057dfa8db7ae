import Mynfs.Nfs4

/-! `_nfs4_pnfs_v4_ds_connect` (pnfs_nfs.c). Clients have the minor version asked for; those with sessions can trunk. -/

namespace Mynfs

/-- A transport, by what tells it apart. -/
inductive XprtTransport
  | tcp
  | tcpTls
  | other (ident : Nat)
deriving DecidableEq

/-- `sa_family`. -/
inductive SaFamily
  | inet
  | inet6
  | other (family : Nat)
deriving DecidableEq

/-- `struct nfs_client`. -/
structure DsClient where
  id : Nat
  clProto : XprtTransport
  clFamily : SaFamily
  /-- `EXCHGID4_FLAG_USE_PNFS_DS` of `cl_exchange_flags`. -/
  isDsClient : Bool

/-- What `mynfs4_set_ds_client` and `nfs41_check_session_ready` return if they are called for the address. -/
structure DsAddr where
  daTransport : XprtTransport
  family : SaFamily
  setDsClient : XprtTransport → Except Err DsClient
  checkSessionReady : Int

/-- The value of `clp` before the first address, and after an address without a session. -/
def DsClient.eio : Except Err DsClient := .error ⟨negErrno .eio, by decide⟩

/-- `mynfs4_init_ds_session`, unless it dereferences a null pointer: only `nfs41_init_client` sets `cl_session`. -/
def mynfs4InitDsSession (minorVersion : Nat) (da : DsAddr) (clp : DsClient) : Option Int :=
  if minorVersion = 0 then none
  else if da.checkSessionReady ≠ 0 then some da.checkSessionReady
  -- ENODEV
  else if !clp.isDsClient then some (-19)
  else some 0

/-- The variables of the call, and `ds_clp`. -/
structure DsConnect where
  clp : Except Err DsClient := DsClient.eio
  status : Int := 0
  /-- The client references that were taken and not put. -/
  kept : List Nat := []
  /-- The addresses tested for session trunking. -/
  tested : List (XprtTransport × SaFamily) := []
  dsClp : Option Nat := none

namespace DsConnect

/-- The transport with which an address is tested for trunking with a client, if it is. -/
def trunkIdent (clp : DsClient) (da : DsAddr) : Option XprtTransport :=
  let tls := da.daTransport = .tcp ∧ clp.clProto = .tcpTls
  let ident := if tls then .tcpTls else da.daTransport
  if tls ∧ da.family ≠ .inet ∧ da.family ≠ .inet6 then none
  else if ident ≠ clp.clProto ∨ da.family ≠ clp.clFamily then none
  else some ident

/-- `ds_proto`; `xprtsec` says that the policy of the metadata server's client is not `RPC_XPRTSEC_NONE`. -/
def dsProto (xprtsec : Bool) (da : DsAddr) : XprtTransport :=
  if da.daTransport = .tcp ∧ xprtsec then .tcpTls else da.daTransport

/-- A client for the address, if it gets a session. -/
def connect (xprtsec : Bool) (minorVersion : Nat) (s : DsConnect) (da : DsAddr) : Option DsConnect :=
  match da.setDsClient (dsProto xprtsec da) with
  | .error e => some { s with clp := .error e }
  | .ok clp =>
    (mynfs4InitDsSession minorVersion da clp).map fun status =>
      if status = 0 then { s with clp := .ok clp, status, kept := clp.id :: s.kept }
      else { s with clp := DsClient.eio, status }

/-- The loop body. The minor version 0 has no `session_trunk`. -/
def body (xprtsec : Bool) (minorVersion : Nat) (s : DsConnect) (da : DsAddr) : Option DsConnect :=
  match s.clp with
  | .ok clp =>
    if minorVersion ≠ 0 then some { s with tested := s.tested ++ ((trunkIdent clp da).map (·, da.family)).toList }
    else s.connect xprtsec minorVersion da
  | .error _ => s.connect xprtsec minorVersion da

/-- What follows the loop. -/
def finish (s : DsConnect) : DsConnect :=
  match s.clp with
  | .error e => { s with status := e.val }
  | .ok clp => { s with dsClp := some clp.id }

end DsConnect

/-- The call, unless it dereferences a null pointer. -/
def nfs4PnfsV4DsConnect (xprtsec : Bool) (minorVersion : Nat) (dsAddrs : List DsAddr) : Option DsConnect :=
  (dsAddrs.foldlM (DsConnect.body xprtsec minorVersion) {}).map DsConnect.finish

end Mynfs
