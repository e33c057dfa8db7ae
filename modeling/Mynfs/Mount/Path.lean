import Mathlib.Data.List.DropRight
import Mathlib.Logic.Function.Basic

/-! The path of a dentry, with the device of the mount in front (namespace.c). -/

namespace Mynfs

/-- The buffer of `mynfs_path`; `mem` has the bytes around it too, and its first byte is at 0. -/
structure PathBuf where
  mem : Int → UInt8
  endp : Int
  buflen : Int

namespace PathBuf

def use (s : PathBuf) (namelen : Nat) : PathBuf := { s with buflen := s.buflen - namelen }

/-- `*--end = c`. -/
def poke (c : UInt8) (s : PathBuf) : PathBuf := { s with mem := Function.update s.mem (s.endp - 1) c, endp := s.endp - 1 }

/-- `end -= len` and `memcpy`. -/
def put (s : PathBuf) (bytes : List UInt8) : PathBuf := bytes.foldr poke s

def start (mem : Int → UInt8) (buflenIn : Int) : PathBuf := (poke 0 ⟨mem, buflenIn, buflenIn⟩).use 1

/-- The names from a dentry up to the root; `false` if they do not fit. -/
def walk : List (List UInt8) → PathBuf → PathBuf × Bool
  | [], s => (s, true)
  | name :: dentries, s =>
    if (s.use (name.length + 1)).buflen < 0 then (s, false)
    else walk dentries (((s.use (name.length + 1)).put name).poke 47)

end PathBuf

/-- `path` is `none` for `-ENAMETOOLONG`. -/
structure PathResult where
  mem : Int → UInt8
  p : Option Int := none
  path : Option Int := none

/-- The end of `mynfs_path`, with `*p = end`. -/
def pathBase (base : Option (List UInt8)) (s : PathBuf) : PathResult :=
  match base with
  | none => { mem := s.mem, p := some s.endp, path := some s.endp }
  | some base =>
    let base := if s.mem s.endp = 47 then base.rdropWhile (· = 47) else base
    if (s.use base.length).buflen < 0 then { mem := s.mem, p := some s.endp }
    else
      let t := (s.use base.length).put base
      { mem := t.mem, p := some s.endp, path := some t.endp }

/-- `renamed` has the dentries seen by the attempts that were made void by a rename. -/
def mynfsPath (renamed : List (List (List UInt8))) (dentries : List (List UInt8)) (base : Option (List UInt8))
    (buffer : Int → UInt8) (buflenIn : Int) (canonical : Bool) : PathResult :=
  let buffer := renamed.foldl (fun mem dentries => (PathBuf.walk dentries (.start mem buflenIn)).1.mem) buffer
  match PathBuf.walk dentries (.start buffer buflenIn) with
  | (s, false) => { mem := s.mem }
  | (s, true) =>
    if canonical ∧ s.mem s.endp ≠ 47 then
      if (s.use 1).buflen < 0 then { mem := s.mem } else pathBase base ((s.use 1).poke 47)
    else pathBase base s

end Mynfs
