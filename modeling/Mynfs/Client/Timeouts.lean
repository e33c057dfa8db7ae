import Mynfs.Lib.Run
import Mynfs.Nfs4

/-! The timeouts of a mount's RPC calls (client.c), from `timeo` and `retrans`. -/

namespace Mynfs

/-- `HZ` and `PAGE_SHIFT` of the kernel. -/
structure KernelConfig where
  hz : Nat
  pageShift : Nat
  hz_range : 24 ≤ hz ∧ hz ≤ 1200
  pageShift_ge : 12 ≤ pageShift

/-- The transport protocol of a mount. -/
inductive MountTransport
  | tcp
  | tcpTls
  | rdma
  | udp
  | other
deriving DecidableEq

/-- `Opt_timeo` and `Opt_retrans` of `nfs_fs_context_parse_param`, up to `INT_MAX`. -/
def parseTimeo (value : U32) : Option U32 := if value.toNat < 1 ∨ value.toNat ≥ 2 ^ 31 then none else some value

def parseRetrans (value : U32) : Option U32 := if value.toNat ≥ 2 ^ 31 then none else some value

/-- `NFS_UNSPEC_TIMEO` and `NFS_UNSPEC_RETRANS`. -/
def nfsUnspec : U32 := BitVec.allOnes 32

/-- `struct rpc_timeout`. -/
structure RpcTimeout where
  toInitval : Nat
  toMaxval : Nat
  toIncrement : Nat
  toRetries : U32
  toExponential : Bool

namespace MountTransport

def nfsDefTimeo : MountTransport → U32
  | .udp => 11
  | _ => 600

def nfsDefRetrans : MountTransport → U32
  | .udp => 3
  | _ => 2

end MountTransport

namespace KernelConfig
variable (k : KernelConfig)

/-- `timeo * HZ` as an `int`, which wraps. -/
def ticks (timeo : U32) : Int := (timeo * BitVec.ofNat 32 k.hz).toInt

/-- A tenth of it becomes an `unsigned long`. -/
def jiffies (timeo : U32) : Nat := ((k.ticks timeo).tdiv 10 % 2 ^ 64).toNat

def nfsMaxTimeout : MountTransport → Nat
  | .udp => 60 * k.hz
  | _ => 600 * k.hz

def initval (proto : MountTransport) (timeo : U32) : Nat :=
  let initval := k.jiffies timeo
  let initval := if timeo = nfsUnspec ∨ initval = 0 then k.jiffies proto.nfsDefTimeo else initval
  if initval > k.nfsMaxTimeout proto then k.nfsMaxTimeout proto else initval

/-- `none` is a `BUG`. -/
def mynfsInitTimeoutValues (parms : RpcTimeout) (proto : MountTransport) (timeo retrans : U32) : Option RpcTimeout :=
  let toInitval := k.initval proto timeo
  let toRetries := if retrans = nfsUnspec then proto.nfsDefRetrans else retrans
  match proto with
  | .tcp | .tcpTls | .rdma =>
    let toMaxval := (toInitval + toInitval * toRetries.toNat) % 2 ^ 64
    let toMaxval := if toMaxval > k.nfsMaxTimeout proto then k.nfsMaxTimeout proto else toMaxval
    let toMaxval := if toMaxval < toInitval then toInitval else toMaxval
    some { toInitval, toMaxval, toIncrement := toInitval, toRetries, toExponential := false }
  | .udp => some { parms with toInitval, toMaxval := k.nfsMaxTimeout proto, toRetries, toExponential := true }
  | .other => none

end KernelConfig

end Mynfs
