import Mathlib.Data.List.Infix
import Mathlib.Data.Nat.Bitwise

/-! The option lists of the mount helpers (mount.mynfs.c), with what they say about settings that are on or off. -/

namespace Mynfs

/-- The variables of `nfsmount` and `nfs4mount` that end up in the flags of the mount, and `bg`. -/
structure MountOpts where
  bg : Bool := false
  soft : Bool := false
  intr : Bool := true
  nocto : Bool := false
  noac : Bool := false
  unshared : Bool := false
  nonlm : Bool := false
  useTcp : Bool := true

/-- The words that the helpers compare with. -/
inductive MountWord
  | bg
  | fg
  | soft
  | hard
  | intr
  | cto
  | ac
  | sharecache
  | nolock
  | lock
  | tcp
  | udp
deriving DecidableEq

def MountWord.text : MountWord → List Char
  | .bg => ['b', 'g']
  | .fg => ['f', 'g']
  | .soft => ['s', 'o', 'f', 't']
  | .hard => ['h', 'a', 'r', 'd']
  | .intr => ['i', 'n', 't', 'r']
  | .cto => ['c', 't', 'o']
  | .ac => ['a', 'c']
  | .sharecache => ['s', 'h', 'a', 'r', 'e', 'c', 'a', 'c', 'h', 'e']
  | .nolock => ['n', 'o', 'l', 'o', 'c', 'k']
  | .lock => ['l', 'o', 'c', 'k']
  | .tcp => ['t', 'c', 'p']
  | .udp => ['u', 'd', 'p']

def mountWord (opt : List Char) : Option MountWord :=
  [.bg, .fg, .soft, .hard, .intr, .cto, .ac, .sharecache, .nolock, .lock, .tcp, .udp].find? (·.text = opt)

def strtok (opts : List Char) : List (List Char) := (opts.splitOn ',').filter (· ≠ [])

/-- The option without a leading `no`, and whether it is asked for. -/
def stripNo : List Char → List Char × Bool
  | 'n' :: 'o' :: opt => (opt, false)
  | opt => (opt, true)

/-- The value of an option that is given as `name=value`. -/
def optionValue (name opt : List Char) : Option (List Char) :=
  if '=' ∈ opt ∧ opt.takeWhile (· ≠ '=') = name then some (opt.dropWhile (· ≠ '=')).tail else none

/-- The transport that a value begins with, `true` for TCP. -/
def protoOf (value : List Char) : Option Bool :=
  if "tcp".toList <+: value then some true else if "udp".toList <+: value then some false else none

namespace MountOpts

section
variable (o : MountOpts)

def setCommon (val : Bool) : MountWord → MountOpts
  | .bg => { o with bg := val }
  | .fg => { o with bg := !val }
  | .soft => { o with soft := val }
  | .hard => { o with soft := !val }
  | .intr => { o with intr := val }
  | .cto => { o with nocto := !val }
  | .ac => { o with noac := !val }
  | .sharecache | .nolock | .lock | .tcp | .udp => o

def nfs4mountWord (val : Bool) : MountWord → MountOpts
  | .sharecache => { o with unshared := !val }
  | w => o.setCommon val w

def nfsmountWord (val : Bool) : MountWord → MountOpts
  | .nolock => { o with nonlm := true }
  | .lock => { o with nonlm := false }
  | .tcp => { o with useTcp := true }
  | .udp => { o with useTcp := false }
  | w => o.setCommon val w

/-- A round of the loop in `nfs4mount`; options with a value do not concern these variables. -/
def nfs4mountOpt (opt : List Char) : MountOpts :=
  if '=' ∈ opt then o
  else
    match mountWord (stripNo opt).1 with
    | some w => o.nfs4mountWord (stripNo opt).2 w
    | none => o

def nfsmountOpt (opt : List Char) : MountOpts :=
  if '=' ∈ opt then
    match optionValue "proto".toList opt <|> optionValue "mountproto".toList opt with
    | some value => { o with useTcp := (protoOf value).getD o.useTcp }
    | none => o
  else
    match mountWord (stripNo opt).1 with
    | some w => o.nfsmountWord (stripNo opt).2 w
    | none => o

def nfs4mountFlags : Nat :=
  (if o.soft then 0x0001 else 0) ||| (if o.intr then 0x0002 else 0) ||| (if o.nocto then 0x0010 else 0) |||
    (if o.noac then 0x0020 else 0) ||| (if o.unshared then 0x8000 else 0)

def nfsmountFlags : Nat :=
  (if o.soft then 0x0001 else 0) ||| (if o.intr then 0x0002 else 0) ||| (if o.nocto then 0x0010 else 0) |||
    (if o.noac then 0x0020 else 0) ||| (if o.nonlm then 0x0200 else 0) ||| (if o.useTcp then 0x0040 else 0) ||| 0x0080 ||| 0x0400

end

end MountOpts

/-- The two mount helpers. -/
inductive MountHelper
  | nfsmount
  | nfs4mount
deriving DecidableEq

def MountHelper.parse (h : MountHelper) (opts : List Char) : Bool × Nat :=
  match h with
  | .nfsmount => let o := (strtok opts).foldl MountOpts.nfsmountOpt {}; (o.bg, o.nfsmountFlags)
  | .nfs4mount => let o := (strtok opts).foldl MountOpts.nfs4mountOpt {}; (o.bg, o.nfs4mountFlags)

/-- The settings that are on or off. -/
inductive MountSetting
  | bg
  | soft
  | intr
  | cto
  | ac
  | sharecache
  | lock
  | tcp
deriving DecidableEq

namespace MountSetting

def known : MountHelper → MountSetting → Bool
  | .nfsmount, k => k ≠ .sharecache
  | .nfs4mount, k => k ≠ .lock ∧ k ≠ .tcp

def state (r : Bool × Nat) : MountSetting → Bool
  | .bg => r.1
  | .soft => r.2.testBit 0
  | .intr => r.2.testBit 1
  | .cto => !r.2.testBit 4
  | .ac => !r.2.testBit 5
  | .sharecache => !r.2.testBit 15
  | .lock => !r.2.testBit 9
  | .tcp => r.2.testBit 6

def default : MountSetting → Bool
  | .bg | .soft => false
  | .intr | .cto | .ac | .sharecache | .lock | .tcp => true

/-- The state that a word demands of a setting, if it names it. -/
def asks : MountSetting → MountWord → Option Bool
  | .bg, .bg | .soft, .soft | .intr, .intr | .cto, .cto | .ac, .ac | .sharecache, .sharecache | .lock, .lock | .tcp, .tcp => some true
  | .bg, .fg | .soft, .hard | .lock, .nolock | .tcp, .udp => some false
  | _, _ => none

/-- What a token demands of a setting: `noX` the opposite of `X`, and `proto=` a transport. -/
def demand (k : MountSetting) (opt : List Char) : Option Bool :=
  if '=' ∈ opt then if k = .tcp then (optionValue "proto".toList opt).bind protoOf else none
  else
    match mountWord opt with
    | some w => k.asks w
    | none => if (stripNo opt).2 then none else ((mountWord (stripNo opt).1).bind k.asks).map (!·)

/-- The state left by the last token that says something of the setting. -/
def last (k : MountSetting) (demand : List Char → Option Bool) (opts : List Char) : Bool :=
  ((strtok opts).filterMap demand).getLast?.getD k.default

end MountSetting
end Mynfs
