import Mynfs.Nfs4

/-! Cached pages of a directory (dir.c, `struct nfs_cache_array`). An entry has the cookie of the entry before it. -/

namespace Mynfs

/-- What is emitted for an entry. -/
structure Dirent where
  name : List UInt8
  ino : U64
  dType : UInt8
deriving DecidableEq

/-- `struct nfs_entry`. -/
structure NfsEntry where
  cookie : U64
  dirent : Dirent

/-- A directory that stays as it is, on a server that gives every entry a cookie of its own. -/
structure Directory where
  entries : List NfsEntry
  cookies_nodup : (entries.map (·.cookie)).Nodup
  cookies_nonzero : ∀ e ∈ entries, e.cookie ≠ 0
  changeAttr : U64
  verf : U64
  /-- `hash_64(cookie, 18)`. -/
  hash64 : U64 → Nat
  /-- `nfs_readdir_array_maxentries`: 127 for pages of 4096 bytes on 64-bit machines. -/
  maxentries : Nat
  maxentries_pos : 0 < maxentries

/-- A reply has one entry more than `count`, if there are as many, and may say that the last of all is among them. -/
structure Cut where
  count : Nat
  eof : Bool

namespace Directory
variable (dir : Directory)

/-- The entries that follow a cookie; `none` if the server does not know it. -/
def after (cookie : U64) : Option (List NfsEntry) :=
  if cookie = 0 then some dir.entries
  else (dir.entries.findIdx? (·.cookie = cookie)).map fun i => dir.entries.drop (i + 1)

def pageCookieHash (cookie : U64) : Nat := if cookie = 0 then 0 else dir.hash64 cookie

end Directory

def Cut.reply (cut : Cut) (entries : List NfsEntry) : List NfsEntry × Bool :=
  (entries.take (cut.count + 1), decide (entries.length ≤ cut.count + 1) && (cut.eof || entries.isEmpty))

/-- `struct nfs_cache_array_entry`. -/
structure CacheArrayEntry where
  cookie : U64
  dirent : Dirent

/-- `struct nfs_cache_array`, as `nfs_readdir_page_init_array` makes it. -/
structure CacheArray where
  changeAttr : U64
  lastCookie : U64
  array : List CacheArrayEntry := []
  pageFull : Bool := false
  pageIsEof : Bool := false
  cookiesAreOrdered : Bool := true

namespace CacheArray
variable (a : CacheArray)

def indexCookie : U64 :=
  match a.array with
  | [] => a.lastCookie
  | e :: _ => e.cookie

def setEof : CacheArray := { a with pageIsEof := true, pageFull := true }

def setFull : CacheArray := { a with pageFull := true }

/-- `nfs_readdir_page_array_append`; `none` stands for `-ENOSPC`. -/
def append (maxentries : Nat) (entry : NfsEntry) : Option CacheArray :=
  if a.pageFull || a.array.length == maxentries then none
  else
    some { a with
      array := a.array ++ [⟨a.lastCookie, entry.dirent⟩]
      lastCookie := entry.cookie
      cookiesAreOrdered := if entry.cookie ≤ a.lastCookie then false else a.cookiesAreOrdered }

def validate (lastCookie changeAttr : U64) : Bool := a.changeAttr = changeAttr && a.indexCookie = lastCookie

def cookieInRange (cookie : U64) : Bool :=
  if !a.cookiesAreOrdered then true
  else if a.lastCookie ≤ cookie then false
  else if !a.array.isEmpty && cookie < a.indexCookie then false
  else true

end CacheArray

abbrev DirCache := Nat → Option CacheArray

namespace Directory
variable (dir : Directory) (cache : DirCache)

def pageInitAndValidate (cookie : U64) : CacheArray :=
  match cache (dir.pageCookieHash cookie) with
  | some a => if a.validate cookie dir.changeAttr then a else ⟨dir.changeAttr, cookie, [], false, false, true⟩
  | none => ⟨dir.changeAttr, cookie, [], false, false, true⟩

def pageGetNext (cookie : U64) : CacheArray :=
  let a := dir.pageInitAndValidate cache cookie
  if a.lastCookie ≠ cookie then ⟨dir.changeAttr, cookie, [], false, false, true⟩ else a

/-- The entries go to the page `cur` with the array `a`, and on to further pages that can be had (`grabs`). `head` is
    locked. -/
def folioFiller (head : Nat) (eof : Bool) (cache : DirCache) (cur : Nat) (a : CacheArray) (grabs : List Bool) :
    List NfsEntry → DirCache × Nat
  | [] => (Function.update cache cur (some (if eof then a.setEof else a)), 0)
  | entry :: entries =>
    match a.append dir.maxentries entry with
    | some a => folioFiller head eof cache cur a grabs entries
    | none =>
      let cache := Function.update cache cur (some a.setFull)
      let cookie := a.lastCookie
      let next := dir.pageCookieHash cookie
      if next = head ∨ next = cur ∨ grabs.headD true = false then (cache, 0)
      else
        let new := dir.pageGetNext cache cookie
        match new.append dir.maxentries entry with
        | some new =>
          let (cache, n) := folioFiller head eof cache next new grabs.tail entries
          (cache, n + 1)
        | none => (Function.update cache next (some new.setFull), 1)

def folioFillerUncached (eof : Bool) (narrays : Nat) (a : CacheArray) : List NfsEntry → List CacheArray
  | [] => [if eof then a.setEof else a]
  | entry :: entries =>
    match a.append dir.maxentries entry with
    | some a => folioFillerUncached eof narrays a entries
    | none =>
      if narrays ≤ 1 then [a.setFull]
      else
        let new : CacheArray := ⟨0, a.lastCookie, [], false, false, true⟩
        match new.append dir.maxentries entry with
        | some new => a.setFull :: folioFillerUncached eof (narrays - 1) new entries
        | none => [a.setFull, new.setFull]

end Directory

end Mynfs
