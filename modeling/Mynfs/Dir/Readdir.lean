import Mynfs.Lib.Run
import Mynfs.Dir.Array

/-! `nfs_readdir` and `nfs_llseek_dir` (dir.c). A step is one page of the search, and what is emitted if it ends there. -/

namespace Mynfs

/-- `struct nfs_readdir_descriptor`. -/
structure ReaddirDescriptor where
  dirCookie : U64
  lastCookie : U64
  currentIndex : Int := 0
  folioIndex : Nat
  folioIndexMax : Int := -1
  cacheEntryIndex : Nat := 0
  clearCache : Bool := false
  eob : Bool := false
  eof : Bool := false
deriving DecidableEq

/-- A call of `nfs_readdir`, with the number of entries that its buffer still takes, and whether it reads pages anew. -/
structure ReaddirCall where
  desc : ReaddirDescriptor
  room : Nat
  forceClear : Bool
deriving DecidableEq

/-- An open directory: its page cache, `struct nfs_open_dir_context`, and the position. -/
structure OpenDir where
  cache : DirCache := fun _ => none
  cookieverf : U64 := 0
  dirCookie : U64 := 0
  lastCookie : U64 := 0
  pageIndex : Nat := 0
  eof : Bool := false
  pos : Int := 0
  call : Option ReaddirCall := none
  /-- The entries that were emitted, each with the position that it left. -/
  emitted : List (Dirent × Int) := []

/-- What a READDIR reply holds, and which further pages it can be put into. -/
structure FillEnv where
  cut : Cut
  grabs : List Bool := []

/-- What the search in one page says. -/
inductive SearchResult
  | found
  | again
  | badCookie

/-- System calls, steps of `nfs_readdir`, and reclaimed pages. -/
inductive DirEvent
  | readdir (room : Nat) (forceClear : Bool)
  | iterate (env : FillEnv)
  | evict (index : Nat)
  | llseek (offset : Int) (cur : Bool)

namespace ReaddirDescriptor
variable (desc : ReaddirDescriptor)

def seekNextArray (a : CacheArray) : ReaddirDescriptor :=
  if a.pageFull then
    { desc with lastCookie := a.lastCookie, currentIndex := desc.currentIndex + a.array.length, cacheEntryIndex := 0,
                folioIndex := desc.folioIndex + 1 }
  else { desc with lastCookie := a.indexCookie }

def rewindSearch : ReaddirDescriptor := { desc with currentIndex := 0, lastCookie := 0, folioIndex := 0 }

def searchForPos (a : CacheArray) (pos : Int) : ReaddirDescriptor × SearchResult :=
  let diff := pos - desc.currentIndex
  if diff < 0 then ({ desc with eof := true }, .badCookie)
  else
    match a.array[diff.toNat]? with
    | some entry => ({ desc with dirCookie := entry.cookie, cacheEntryIndex := diff.toNat }, .found)
    | none => if a.pageIsEof then ({ desc with eof := true }, .badCookie) else (desc.seekNextArray a, .again)

section
variable (useCookie : Bool) (a : CacheArray) (pos : Int)

/-- `nfs_readdir_search_for_cookie`; the position is only changed if the cookie is found. -/
def searchForCookie : ReaddirDescriptor × Int × SearchResult :=
  match if a.cookieInRange desc.dirCookie then a.array.findIdx? (·.cookie = desc.dirCookie) else none with
  | some i =>
    ({ desc with cacheEntryIndex := i }, if useCookie then desc.dirCookie.toInt else desc.currentIndex + i, .found)
  | none =>
    if a.pageIsEof then ({ desc with eof := if desc.dirCookie = a.lastCookie then true else desc.eof }, pos, .badCookie)
    else (desc.seekNextArray a, pos, .again)

def searchArray : ReaddirDescriptor × Int × SearchResult :=
  if desc.dirCookie = 0 then
    let (desc, res) := desc.searchForPos a pos
    (desc, pos, res)
  else desc.searchForCookie useCookie a pos

end

end ReaddirDescriptor

def nfsReaddirCacheMissThreshold : Nat := 16

/-- The loop of `nfs_do_filldir`. -/
structure Filldir where
  desc : ReaddirDescriptor
  pos : Int
  room : Nat
  emitted : List (Dirent × Int)

def filldirLoop (useCookie : Bool) (a : CacheArray) (firstEmit : Bool) (st : Filldir) (i : Nat) : List CacheArrayEntry → Filldir
  | [] => st
  | entry :: rest =>
    if firstEmit && decide (nfsReaddirCacheMissThreshold + 2 < i) then { st with desc := { st.desc with eob := true } }
    else if st.room = 0 then { st with desc := { st.desc with eob := true } }
    else
      let desc :=
        match rest with
        | [] => { st.desc with dirCookie := a.lastCookie }.seekNextArray a
        | next :: _ => { st.desc with dirCookie := next.cookie, lastCookie := a.indexCookie }
      let pos := if useCookie then desc.dirCookie.toInt else st.pos + 1
      filldirLoop useCookie a firstEmit ⟨desc, pos, st.room - 1, st.emitted ++ [(entry.dirent, pos)]⟩ (i + 1) rest

def nfsDoFilldir (useCookie : Bool) (a : CacheArray) (st : Filldir) : Filldir :=
  let i := st.desc.cacheEntryIndex
  let st := filldirLoop useCookie a (st.desc.dirCookie = 0) st i (a.array.drop i)
  if a.pageIsEof then { st with desc := { st.desc with eof := !st.desc.eob } } else st

namespace OpenDir
variable (dir : Directory) (useCookie : Bool) (s : OpenDir)

section
variable (desc : ReaddirDescriptor)

def folioGetCached : CacheArray :=
  let a := dir.pageInitAndValidate s.cache desc.lastCookie
  if desc.clearCache && a.pageFull then ⟨dir.changeAttr, desc.lastCookie, [], false, false, true⟩ else a

def invalidateFrom (index : Nat) : OpenDir := { s with cache := fun i => if index ≤ i then none else s.cache i }

/-- Fills a page; `none` if the server does not know the cookie. -/
def fillPage (a : CacheArray) (env : FillEnv) : Option (OpenDir × ReaddirDescriptor) :=
  let index := dir.pageCookieHash desc.lastCookie
  (dir.after a.lastCookie).map fun entries =>
    let (entries, eof) := env.cut.reply entries
    let (cache, n) := dir.folioFiller index eof s.cache index a env.grabs entries
    let s := { s with cache := cache }
    let s := if desc.lastCookie = 0 ∧ s.cookieverf ≠ dir.verf then { s with cookieverf := dir.verf }.invalidateFrom 1 else s
    (s, { desc with folioIndexMax := desc.folioIndex + n, clearCache := false })

/-- The page if the search ends there, and what has become of the rest. -/
def findAndLockCachePage (env : FillEnv) : OpenDir × ReaddirDescriptor × CacheArray × SearchResult :=
  let a := s.folioGetCached dir desc
  let index := dir.pageCookieHash desc.lastCookie
  let search := fun (s : OpenDir) (desc : ReaddirDescriptor) (a : CacheArray) =>
    let (desc, pos, res) := desc.searchArray useCookie a s.pos
    ({ s with pos := pos }, desc, a, res)
  let s := { s with cache := Function.update s.cache index (some a) }
  if !a.pageFull then
    match s.fillPage dir desc a env with
    | none => (s.invalidateFrom 0, { desc.rewindSearch with folioIndexMax := desc.folioIndex }, a, .again)
    | some (s, desc) => search s desc ((s.cache index).getD a)
  else search s desc a

def uncachedLoop (st : Filldir) : List CacheArray → Filldir
  | [] => st
  | a :: arrays => if st.desc.eob then st else uncachedLoop (nfsDoFilldir useCookie a st) arrays

def uncachedReaddir (room : Nat) (env : FillEnv) : Filldir × Bool :=
  let desc := { desc with folioIndex := 0, cacheEntryIndex := 0, lastCookie := desc.dirCookie, folioIndexMax := 0 }
  let st : Filldir := ⟨desc, s.pos, room, s.emitted⟩
  let (st, ok) :=
    match dir.after desc.dirCookie with
    | none => (st, false)
    | some entries =>
      let (entries, eof) := env.cut.reply entries
      (uncachedLoop useCookie st (dir.folioFillerUncached eof 512 ⟨0, desc.dirCookie, [], false, false, true⟩ entries), true)
  let desc := if useCookie then st.desc else st.desc.rewindSearch
  ({ st with desc := { desc with folioIndexMax := -1 } }, ok)

def readdirReturn : OpenDir :=
  { s with dirCookie := desc.dirCookie, lastCookie := desc.lastCookie, pageIndex := desc.folioIndex, eof := desc.eof, call := none }

end

def readdirLoop (call : ReaddirCall) (st : Filldir) : OpenDir :=
  let s := { s with pos := st.pos, emitted := st.emitted }
  if !st.desc.eob && !st.desc.eof then { s with call := some { call with desc := st.desc, room := st.room } }
  else s.readdirReturn st.desc

def iterate (call : ReaddirCall) (env : FillEnv) : OpenDir :=
  match s.findAndLockCachePage dir useCookie call.desc env with
  | (s, desc, _, .again) => { s with call := some { call with desc := desc } }
  | (s, desc, a, .found) =>
    let st := nfsDoFilldir useCookie a ⟨desc, s.pos, call.room, s.emitted⟩
    let desc := if st.desc.folioIndex = st.desc.folioIndexMax then { st.desc with clearCache := call.forceClear } else st.desc
    s.readdirLoop call { st with desc := desc }
  | (s, desc, _, .badCookie) =>
    if desc.dirCookie ≠ 0 ∧ desc.eof = false then
      let (st, ok) := s.uncachedReaddir dir useCookie desc call.room env
      if ok then s.readdirLoop call st else { s with pos := st.pos, emitted := st.emitted }.readdirReturn st.desc
    else s.readdirReturn desc

def seekTo (offset : Int) : OpenDir :=
  if offset = s.pos then s
  else
    let cookie := if useCookie then BitVec.ofInt 64 offset else 0
    { s with pos := offset, pageIndex := 0, dirCookie := cookie, lastCookie := cookie, eof := false }

def step : DirEvent → Option OpenDir
  | .readdir room forceClear =>
    if s.call.isSome then none
    else if s.eof then some s
    else
      -- `nfs_readdir_handle_cache_misses`
      let forceClear := forceClear && decide (s.pos ≠ 0)
      let desc := { dirCookie := s.dirCookie, lastCookie := s.lastCookie, folioIndex := s.pageIndex, clearCache := forceClear }
      some { s with call := some ⟨desc, room, forceClear⟩ }
  | .iterate env => s.call.map fun call => s.iterate dir useCookie call env
  | .evict index => if s.call.isSome then none else some { s with cache := Function.update s.cache index none }
  | .llseek offset cur =>
    if s.call.isSome then none
    else if cur && offset = 0 then some s
    else
      let offset := if cur then offset + s.pos else offset
      if offset < 0 then some s else some (s.seekTo useCookie offset)

end OpenDir

end Mynfs
