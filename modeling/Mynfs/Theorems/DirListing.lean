import Mathlib.Data.Prod.Lex
import Mynfs.Theorems.DirPages

/-! Listing a directory. A call is on its way to the entry at index `k`, and at the page that begins at `q ≤ k`. -/

namespace Mynfs

open List Option Machine

def Directory.posAt (dir : Directory) (useCookie : Bool) (k : Nat) : Int := if useCookie then (dir.cookieAt k).toInt else k

section
variable (dir : Directory) (useCookie : Bool) (tell : Prop)

/-- With `tell`, the position is that of the entry, too. -/
structure Cursor (desc : ReaddirDescriptor) (pos : Int) (k q : Nat) : Prop where
  le : q ≤ k
  inside : k ≤ dir.entries.length
  last : desc.lastCookie = dir.cookieAt q
  target : (0 < k ∧ desc.dirCookie = dir.cookieAt k) ∨
    (desc.dirCookie = 0 ∧ pos = k ∧ desc.currentIndex = q ∧ (useCookie → k = 0))
  told : tell → pos = dir.posAt useCookie k ∧ (useCookie = false → desc.currentIndex = q)

/-- The entries from index `k` up to `k'` are emitted, and with `tell`, each leaves the position of the next one. -/
structure Emits (k k' : Nat) (l l' : List (Dirent × Int)) : Prop where
  le : k ≤ k'
  items : ∃ new, l' = l ++ new ∧ new.map (·.1) = ((dir.entries.drop k).take (k' - k)).map (·.dirent) ∧
    (tell → new.map (·.2) = (range' (k + 1) (k' - k)).map (dir.posAt useCookie))

end

variable {dir : Directory} {useCookie : Bool} {tell : Prop} {desc : ReaddirDescriptor} {pos : Int} {k k' q i : Nat} {a : CacheArray}
  {l l' l'' : List (Dirent × Int)}

/-! ### What is emitted -/

theorem Emits.refl (k : Nat) (l : List (Dirent × Int)) : Emits dir useCookie tell k k l l :=
  ⟨le_rfl, [], by simp⟩

theorem Emits.one {entry : NfsEntry} (hentry : dir.entries[k]? = some entry) (hpos : tell → pos = dir.posAt useCookie (k + 1)) :
    Emits dir useCookie tell k (k + 1) l (l ++ [(entry.dirent, pos)]) := by
  refine ⟨Nat.le_succ k, [(entry.dirent, pos)], rfl, ?_, fun ht => by simp [hpos ht]⟩
  rw [Nat.add_sub_cancel_left, take_one, head?_drop, hentry]
  rfl

theorem Emits.trans {k'' : Nat} (h : Emits dir useCookie tell k k' l l') (h' : Emits dir useCookie tell k' k'' l' l'') :
    Emits dir useCookie tell k k'' l l'' := by
  obtain ⟨hle, new, rfl, hdirents, hpos⟩ := h
  obtain ⟨hle', new', rfl, hdirents', hpos'⟩ := h'
  have hsplit : k'' - k = (k' - k) + (k'' - k') := by omega
  have hback : k + (k' - k) = k' := by omega
  refine ⟨hle.trans hle', new ++ new', append_assoc .., ?_, fun ht => ?_⟩
  · rw [map_append, hdirents, hdirents', ← map_append, hsplit, take_add, drop_drop, hback]
  · have hback' : k + 1 + 1 * (k' - k) = k' + 1 := by omega
    rw [map_append, hpos ht, hpos' ht, ← map_append, hsplit, ← range'_append, hback']

/-! ### The search -/

theorem Cursor.seekNextArray (h : Cursor dir useCookie tell desc pos k q) (ha : dir.Page q a) (hk : q + a.array.length ≤ k) :
    ∃ q', Cursor dir useCookie tell (desc.seekNextArray a) pos k q' ∧
      (a.pageFull ∧ q' = q + a.array.length ∨ a.pageFull = false ∧ q' = q) := by
  unfold ReaddirDescriptor.seekNextArray
  split
  next hfull =>
    refine ⟨q + a.array.length, ⟨hk, h.inside, ha.last, ?_, fun ht => ⟨(h.told ht).1, fun hm => ?_⟩⟩, .inl ⟨hfull, rfl⟩⟩
    · exact h.target.imp_right fun ⟨hzero, hpos, hindex, hmode⟩ => ⟨hzero, hpos, by simp [hindex], hmode⟩
    · simp [(h.told ht).2 hm]
  next hfull =>
    exact ⟨q, ⟨h.le, h.inside, ha.indexCookie, h.target, h.told⟩, .inr ⟨Bool.eq_false_iff.mpr hfull, rfl⟩⟩

/-- It finds the entry on the page that has it, goes on from a page before it, and is at the end otherwise. -/
def Searched (dir : Directory) (useCookie : Bool) (tell : Prop) (desc : ReaddirDescriptor) (pos : Int) (k q : Nat) (a : CacheArray)
    (res : ReaddirDescriptor × Int × SearchResult) : Prop :=
  (k < q + a.array.length ∧ ∃ pos', res = ({ desc with dirCookie := dir.cookieAt k, cacheEntryIndex := k - q }, pos', .found) ∧
      Cursor dir useCookie tell { desc with dirCookie := dir.cookieAt k, cacheEntryIndex := k - q } pos' k q) ∨
  (q + a.array.length ≤ k ∧ a.pageIsEof = false ∧ res = (desc.seekNextArray a, pos, .again)) ∨
  (k = dir.entries.length ∧ res = ({ desc with eof := true }, pos, .badCookie))

section
variable (h : Cursor dir useCookie tell desc pos k q)
include h

theorem Cursor.searchForCookie (ha : dir.Page q a) (hk : 0 < k) (htarget : desc.dirCookie = dir.cookieAt k) :
    Searched dir useCookie tell desc pos k q a (desc.searchForCookie useCookie a pos) := by
  have hinside := h.inside
  unfold ReaddirDescriptor.searchForCookie
  rcases lt_or_ge k (q + a.array.length) with hlt | hge
  · rw [htarget, ha.cookieInRange h.le hlt, if_pos rfl, ha.findIdx? h.le hlt]
    refine .inl ⟨hlt, _, by rw [← htarget], ⟨h.le, h.inside, h.last, .inl ⟨hk, rfl⟩, fun ht => ⟨?_, (h.told ht).2⟩⟩⟩
    unfold Directory.posAt
    cases useCookie with
    | true => rw [if_pos rfl, if_pos rfl, htarget]
    | false =>
      have hle := h.le
      simp only [Bool.false_eq_true, if_false, (h.told ht).2 rfl]
      omega
  · rw [htarget, ha.findIdx?_eq_none hge h.inside, ite_self]
    cases heof : a.pageIsEof with
    | false => exact .inr (.inl ⟨hge, heof, rfl⟩)
    | true =>
      have hend := (ha.eof heof).2
      obtain rfl : k = q + a.array.length := by omega
      refine .inr (.inr ⟨hend, ?_⟩)
      rw [if_pos rfl, if_pos ha.last.symm, htarget]

theorem Cursor.searchForPos (ha : dir.Page q a) (hpos : pos = k)
    (hindex : desc.currentIndex = q) (hmode : useCookie → k = 0) :
    Searched dir useCookie tell desc pos k q a ((desc.searchForPos a pos).1, pos, (desc.searchForPos a pos).2) := by
  have hinside := h.inside
  have hle := h.le
  have hdiff : pos - desc.currentIndex = ((k - q : Nat) : Int) := by omega
  unfold ReaddirDescriptor.searchForPos
  rw [hdiff, if_neg (by omega), Int.toNat_natCast]
  rcases lt_or_ge k (q + a.array.length) with hlt | hge
  · obtain ⟨entry, -, hget⟩ := ha.getElem? (i := k - q) (by omega)
    rw [Nat.add_sub_cancel' hle] at hget
    rw [hget]
    refine .inl ⟨hlt, pos, rfl, ⟨h.le, h.inside, h.last, ?_, h.told⟩⟩
    rcases Nat.eq_zero_or_pos k with rfl | hk
    · exact .inr ⟨rfl, hpos, hindex, hmode⟩
    · exact .inl ⟨hk, rfl⟩
  · rw [getElem?_eq_none (by omega)]
    cases heof : a.pageIsEof with
    | false => exact .inr (.inl ⟨hge, heof, rfl⟩)
    | true =>
      have hend := (ha.eof heof).2
      exact .inr (.inr ⟨by omega, rfl⟩)

theorem Cursor.searchArray (ha : dir.Page q a) :
    Searched dir useCookie tell desc pos k q a (desc.searchArray useCookie a pos) := by
  unfold ReaddirDescriptor.searchArray
  rcases h.target with ⟨hk, htarget⟩ | ⟨hzero, hpos, hindex, hmode⟩
  · rw [if_neg (htarget ▸ (Directory.cookieAt_eq_zero_iff h.inside).not.mpr hk.ne')]
    exact h.searchForCookie ha hk htarget
  · rw [if_pos hzero]
    exact h.searchForPos ha hpos hindex hmode

end

/-! ### The caller's buffer -/

/-- What `nfs_do_filldir` comes to on a page that begins at index `q`, from the entry at index `k` on. -/
structure Filled (dir : Directory) (useCookie : Bool) (tell : Prop) (q : Nat) (a : CacheArray) (st : Filldir) (k : Nat) (r : Filldir)
    (k' : Nat) : Prop where
  emits : Emits dir useCookie tell k k' st.emitted r.emitted
  cursor : ∃ q', Cursor dir useCookie tell r.desc r.pos k' q'
  target : r.desc.dirCookie = dir.cookieAt k'
  eof : r.desc.eof = st.desc.eof
  all : r.desc.eob = false → k' = q + a.array.length

theorem Cursor.next (h : Cursor dir useCookie tell desc pos k q) (hk : k < dir.entries.length) (desc' : ReaddirDescriptor)
    (htarget : desc'.dirCookie = dir.cookieAt (k + 1)) (hlast : desc'.lastCookie = dir.cookieAt q)
    (hindex : desc'.currentIndex = desc.currentIndex) :
    Cursor dir useCookie tell desc' (if useCookie then desc'.dirCookie.toInt else pos + 1) (k + 1) q := by
  refine ⟨Nat.le_succ_of_le h.le, hk, hlast, .inl ⟨Nat.succ_pos k, htarget⟩, fun ht => ?_⟩
  obtain ⟨hpos, hmode⟩ := h.told ht
  refine ⟨?_, fun hm => hindex.trans (hmode hm)⟩
  unfold Directory.posAt at hpos ⊢
  cases useCookie with
  | true => rw [if_pos rfl, if_pos rfl, htarget]
  | false =>
    simp only [Bool.false_eq_true, if_false] at hpos ⊢
    omega

section
variable (desc : ReaddirDescriptor) (a : CacheArray)

@[simp] theorem dirCookie_seekNextArray : (desc.seekNextArray a).dirCookie = desc.dirCookie := by
  unfold ReaddirDescriptor.seekNextArray
  split <;> rfl

@[simp] theorem eof_seekNextArray : (desc.seekNextArray a).eof = desc.eof := by
  unfold ReaddirDescriptor.seekNextArray
  split <;> rfl

@[simp] theorem eob_seekNextArray : (desc.seekNextArray a).eob = desc.eob := by
  unfold ReaddirDescriptor.seekNextArray
  split <;> rfl

@[simp] theorem clearCache_seekNextArray : (desc.seekNextArray a).clearCache = desc.clearCache := by
  unfold ReaddirDescriptor.seekNextArray
  split <;> rfl

end

theorem filldirLoop_filled (ha : dir.Page q a) (firstEmit : Bool) (st : Filldir) {rest : List CacheArrayEntry}
    (hdrop : a.array.drop i = rest) (hi : i ≤ a.array.length) (hcur : Cursor dir useCookie tell st.desc st.pos (q + i) q)
    (htarget : st.desc.dirCookie = dir.cookieAt (q + i)) (heob : st.desc.eob = false) :
    ∃ k', Filled dir useCookie tell q a st (q + i) (filldirLoop useCookie a firstEmit st i rest) k' ∧
      (0 < st.room → (firstEmit → i ≤ nfsReaddirCacheMissThreshold + 2) → rest ≠ [] → q + i < k') := by
  induction rest generalizing st i with
  | nil =>
    have hlen := drop_eq_nil_iff.mp hdrop
    exact ⟨q + i, ⟨.refl _ _, ⟨q, hcur⟩, htarget, rfl, fun _ => by omega⟩, fun _ _ h => absurd rfl h⟩
  | cons entry rest ih =>
    have hget : a.array[i]? = some entry := by rw [← head?_drop, hdrop]; rfl
    have hrest : a.array.drop (i + 1) = rest := by rw [← tail_drop, hdrop]; rfl
    have hlt := lt_of_getElem? hget
    obtain ⟨e, hentry, hlink⟩ := ha.getElem? hlt
    obtain rfl : _ = entry := some.inj (hlink.symm.trans hget)
    unfold filldirLoop
    split
    next hfirst =>
      simp only [Bool.and_eq_true, decide_eq_true_eq] at hfirst
      refine ⟨q + i, ⟨.refl _ _, ⟨q, ⟨hcur.le, hcur.inside, hcur.last, hcur.target, hcur.told⟩⟩, htarget, rfl, fun h => ?_⟩,
        fun _ h => absurd (h hfirst.1) (by omega)⟩
      cases h
    · split
      next hroom =>
        refine ⟨q + i, ⟨.refl _ _, ⟨q, ⟨hcur.le, hcur.inside, hcur.last, hcur.target, hcur.told⟩⟩, htarget, rfl, fun h => ?_⟩,
          fun h => absurd hroom h.ne'⟩
        cases h
      · have hfits := ha.fits
        cases rest with
        | nil =>
          -- the last entry of the page
          have hend : i + 1 = a.array.length := by
            have := drop_eq_nil_iff.mp hrest
            omega
          have hlast : a.lastCookie = dir.cookieAt (q + i + 1) := by rw [ha.last, ← hend, Nat.add_assoc]
          have hnext := hcur.next (by omega) { st.desc with dirCookie := a.lastCookie } hlast hcur.last rfl
          obtain ⟨q', hcur', -⟩ := hnext.seekNextArray ha (by omega)
          rw [← dirCookie_seekNextArray _ a] at hcur'
          exact ⟨q + i + 1, ⟨.one hentry fun ht => (hcur'.told ht).1, ⟨q', hcur'⟩, by simp [filldirLoop, hlast],
            by simp [filldirLoop], fun _ => by omega⟩, fun _ _ _ => Nat.lt_succ_self _⟩
        | cons next rest =>
          have hget' : a.array[i + 1]? = some next := by rw [← head?_drop, hrest]; rfl
          have hlt' := lt_of_getElem? hget'
          obtain ⟨e', -, hlink'⟩ := ha.getElem? hlt'
          obtain rfl : _ = next := some.inj (hlink'.symm.trans hget')
          have hnext := hcur.next (by omega)
            { st.desc with dirCookie := dir.cookieAt (q + (i + 1)), lastCookie := a.indexCookie } rfl ha.indexCookie rfl
          obtain ⟨k', hfilled, -⟩ := ih ⟨_, _, st.room - 1, st.emitted ++ [(e.dirent, _)]⟩ hrest hlt'.le hnext rfl heob
          exact ⟨k', ⟨(Emits.one hentry fun ht => (hnext.told ht).1).trans hfilled.emits, hfilled.cursor, hfilled.target,
            hfilled.eof, hfilled.all⟩, fun _ _ _ => hfilled.emits.le⟩

/-- Entries are emitted in order from the cursor on, once each. -/
theorem doFilldir_spec (ha : dir.Page q a) (hk : k < q + a.array.length) (st : Filldir)
    (hcur : Cursor dir useCookie tell st.desc st.pos k q) (htarget : st.desc.dirCookie = dir.cookieAt k)
    (hindex : st.desc.cacheEntryIndex = k - q) (heob : st.desc.eob = false) (heof : st.desc.eof = false) :
    ∃ k' q', Emits dir useCookie tell k k' st.emitted (nfsDoFilldir useCookie a st).emitted ∧
      Cursor dir useCookie tell (nfsDoFilldir useCookie a st).desc (nfsDoFilldir useCookie a st).pos k' q' ∧
      (nfsDoFilldir useCookie a st).desc.dirCookie = dir.cookieAt k' ∧
      ((nfsDoFilldir useCookie a st).desc.eob = false ∨ 0 < st.room → k < k') ∧
      ((nfsDoFilldir useCookie a st).desc.eof → k' = dir.entries.length) := by
  obtain ⟨i, rfl⟩ := Nat.exists_eq_add_of_le hcur.le
  rw [Nat.add_sub_cancel_left] at hindex
  obtain ⟨k', hfilled, hemits⟩ := filldirLoop_filled ha (decide (st.desc.dirCookie = 0)) st rfl (by omega) hcur htarget heob
  obtain ⟨q', hcur'⟩ := hfilled.cursor
  have hrest : a.array.drop i ≠ [] := by
    rw [ne_eq, drop_eq_nil_iff]
    omega
  -- the first call has nothing before the first entry
  have hfirst : decide (st.desc.dirCookie = 0) → i ≤ nfsReaddirCacheMissThreshold + 2 := by
    rw [decide_eq_true_eq, htarget, Directory.cookieAt_eq_zero_iff hcur.inside]
    omega
  unfold nfsDoFilldir
  rw [hindex]
  refine ⟨k', q', ?_⟩
  have hgo : (filldirLoop useCookie a (decide (st.desc.dirCookie = 0)) st i (a.array.drop i)).desc.eob = false ∨ 0 < st.room →
      q + i < k' := by
    rintro (hall | hroom)
    · rw [hfilled.all hall]
      omega
    · exact hemits hroom hfirst hrest
  cases hend : a.pageIsEof with
  | false => exact ⟨hfilled.emits, hcur', hfilled.target, hgo, fun h => Bool.noConfusion (h.symm.trans (hfilled.eof.trans heof))⟩
  | true =>
    refine ⟨hfilled.emits, ⟨hcur'.le, hcur'.inside, hcur'.last, hcur'.target, hcur'.told⟩, hfilled.target, hgo, fun h => ?_⟩
    rw [hfilled.all (by simpa using h), (ha.eof hend).2]

/-! ### A step of `nfs_readdir` -/

namespace OpenDir
variable {s t t' : OpenDir} {call : ReaddirCall} {q' k₀ m m' : Nat} {pre : List (Dirent × Int)} {e : DirEvent} {g : Getdents}
  {gs : List Getdents}

theorem paged_invalidateFrom (h : dir.Paged s.cache) (index : Nat) : dir.Paged (s.invalidateFrom index).cache := by
  intro i a hi
  obtain ⟨-, hi⟩ := of_unless hi
  exact h i a hi

theorem fillPage_spec (hpaged : dir.Paged s.cache) (ha : dir.Page q a) (hlast : desc.lastCookie = dir.cookieAt q) (env : FillEnv) :
    ∃ cache verf fmax a', s.fillPage dir desc a env =
        some ({ s with cache := cache, cookieverf := verf }, { desc with folioIndexMax := fmax, clearCache := false }) ∧
      cache (dir.pageCookieHash (dir.cookieAt q)) = some a' ∧ dir.Page q a' ∧ dir.Paged cache ∧ a.array.length < a'.progress := by
  have hfollows := dir.follows_reply env.cut (q + a.array.length)
  obtain ⟨a', hget, ha', -, hmore⟩ := Directory.folioFiller_head (dir.pageCookieHash (dir.cookieAt q)) s.cache env.grabs ha hfollows
  have hprogress := hmore (Directory.reply_ne_nil_or_eof env.cut _)
  have hpaged' := Directory.paged_folioFiller (dir.pageCookieHash (dir.cookieAt q)) (dir.pageCookieHash (dir.cookieAt q)) env.grabs
    hpaged ha hfollows
  unfold fillPage
  rw [ha.last, Directory.after_cookieAt ha.fits, hlast]
  simp only [map_some]
  by_cases hverf : dir.cookieAt q = 0 ∧ s.cookieverf ≠ dir.verf
  · -- the page of the caller is the first one, which stays
    rw [if_pos hverf]
    refine ⟨_, _, _, a', rfl, ?_, ha', paged_invalidateFrom (s := { s with cache := _ }) hpaged' 1, hprogress⟩
    rw [hverf.1] at hget ⊢
    exact hget
  · rw [if_neg hverf]
    exact ⟨_, _, _, a', rfl, hget, ha', hpaged', hprogress⟩

theorem folioGetCached_eq (hlast : desc.lastCookie = dir.cookieAt q) (hclear : desc.clearCache = false) :
    s.folioGetCached dir desc = dir.pageInitAndValidate s.cache (dir.cookieAt q) := by
  simp [folioGetCached, hlast, hclear]

theorem findAndLockCachePage_spec (useCookie : Bool) (hpaged : dir.Paged s.cache) (hq : q ≤ dir.entries.length)
    (hlast : desc.lastCookie = dir.cookieAt q) (env : FillEnv) :
    ∃ cache verf fmax a, dir.Page q a ∧ dir.Paged cache ∧ cache (dir.pageCookieHash (dir.cookieAt q)) = some a ∧
      (a.pageFull = false → desc.clearCache = false → (dir.pageInitAndValidate s.cache (dir.cookieAt q)).progress < a.progress) ∧
      s.findAndLockCachePage dir useCookie desc env =
        let r := { desc with folioIndexMax := fmax, clearCache := false }.searchArray useCookie a s.pos
        ({ s with cache := cache, cookieverf := verf, pos := r.2.1 }, r.1, a, r.2.2) := by
  have hfirst := Directory.page_pageInitAndValidate hpaged hq
  have hpage : dir.Page q (s.folioGetCached dir desc) := by
    unfold folioGetCached
    rw [hlast]
    dsimp only
    split
    · exact .init hq
    · exact hfirst
  have hcache := hpaged.update hpage (dir.pageCookieHash (dir.cookieAt q))
  unfold findAndLockCachePage
  rw [congrArg dir.pageCookieHash hlast]
  dsimp only
  cases hfull : (s.folioGetCached dir desc).pageFull with
  | true =>
    -- a full page stays as it is, which means that it is not to be cleared
    have hkeep : desc.clearCache = false := by
      cases hclear : desc.clearCache with
      | false => rfl
      | true =>
        unfold folioGetCached at hfull
        simp only [hclear, Bool.true_and] at hfull
        split at hfull
        · cases hfull
        next hnot => exact absurd hfull hnot
    refine ⟨_, s.cookieverf, desc.folioIndexMax, _, hpage, hcache, Function.update_self _ _ _, ?_, ?_⟩
    · intro h
      rw [hfull] at h
      cases h
    · rw [if_neg (by decide), ← hkeep]
  | false =>
    obtain ⟨cache, verf, fmax, a, hfill, hget, ha, hpaged', hprogress⟩ :=
      fillPage_spec (s := { s with cache := Function.update s.cache (dir.pageCookieHash (dir.cookieAt q)) (some _) }) hcache hpage hlast env
    refine ⟨cache, verf, fmax, a, ha, hpaged', hget, fun _ hclear => ?_, ?_⟩
    · rw [folioGetCached_eq hlast hclear] at hfull hprogress
      simpa [CacheArray.progress, hfull] using hprogress
    · rw [hfill, Bool.not_false, if_pos rfl]
      dsimp only
      rw [hget]
      rfl

def start (s : OpenDir) (clearCache : Bool) : ReaddirDescriptor :=
  { dirCookie := s.dirCookie, lastCookie := s.lastCookie, folioIndex := s.pageIndex, clearCache := clearCache }

section
variable (dir : Directory) (useCookie : Bool) (tell : Prop) (s : OpenDir)

/-- Between calls, with the entry `k` next. -/
structure Rests (k : Nat) : Prop where
  inside : k ≤ dir.entries.length
  told : tell → s.pos = dir.posAt useCookie k
  eof : s.eof → k = dir.entries.length
  cursor : s.eof = false → ∃ q, Cursor dir useCookie False (s.start false) s.pos k q

/-- Within a call. -/
structure Reads (call : ReaddirCall) (k q : Nat) : Prop where
  under : s.call = some call
  cursor : Cursor dir useCookie tell call.desc s.pos k q
  eob : call.desc.eob = false
  eof : call.desc.eof = false

/-- What gets smaller: the entries to come, those the search may pass, and whether a page is cleared and filled. -/
def weight (dir : Directory) (s : OpenDir) (call : ReaddirCall) (k q : Nat) : Nat ×ₗ Nat ×ₗ Nat ×ₗ Nat :=
  toLex (dir.entries.length - k, toLex (dir.entries.length - q, toLex (call.desc.clearCache.toNat,
    dir.maxentries + 1 - (dir.pageInitAndValidate s.cache (dir.cookieAt q)).progress)))

/-- The call goes on with a smaller weight, or returns, and then something was emitted unless at the end or full. -/
def GoesOn (call : ReaddirCall) (k q : Nat) (t : OpenDir) (k' : Nat) : Prop :=
  (∃ call' q', t.Reads dir useCookie tell call' k' q' ∧ (k < k' ∨ call'.room = call.room) ∧
    t.weight dir call' k' q' < s.weight dir call k q) ∨
  (t.call = none ∧ t.Rests dir useCookie tell k' ∧ (0 < call.room → k < k' ∨ t.eof))

end

theorem weight_lt_of_again {t : OpenDir} {call' : ReaddirCall} (ha : dir.Page q a) (heof : a.pageIsEof = false)
    (hq : a.pageFull ∧ q' = q + a.array.length ∨ a.pageFull = false ∧ q' = q) (hinside : q' ≤ dir.entries.length)
    (hget : t.cache (dir.pageCookieHash (dir.cookieAt q)) = some a) (hclear : call'.desc.clearCache = false)
    (hgrown : a.pageFull = false → call.desc.clearCache = false →
      (dir.pageInitAndValidate s.cache (dir.cookieAt q)).progress < a.progress) :
    t.weight dir call' k q' < s.weight dir call k q := by
  simp only [weight, Prod.Lex.toLex_lt_toLex, hclear, lt_irrefl, false_or, true_and]
  rcases hq with ⟨hfull, rfl⟩ | ⟨hfull, rfl⟩
  · have hpos := (ha.full hfull).resolve_left (by simp [heof])
    exact .inl (by omega)
  · refine .inr ⟨rfl, ?_⟩
    cases hold : call.desc.clearCache with
    | true => exact .inl (by decide)
    | false =>
      refine .inr ⟨rfl, ?_⟩
      have hmore := hgrown hfull hold
      have hsize := ha.size
      rw [Directory.pageInitAndValidate_of_page ha hget]
      simp only [CacheArray.progress, hfull, Bool.toNat_false] at hmore ⊢
      omega

@[simp] theorem emitted_readdirLoop (call : ReaddirCall) (st : Filldir) : (s.readdirLoop call st).emitted = st.emitted := by
  unfold readdirLoop
  split <;> rfl

@[simp] theorem cache_readdirLoop (call : ReaddirCall) (st : Filldir) : (s.readdirLoop call st).cache = s.cache := by
  unfold readdirLoop
  split <;> rfl

theorem readdirLoop_goesOn {s₀ : OpenDir} {st : Filldir}
    (hcur : Cursor dir useCookie tell st.desc st.pos k' q') (htarget : st.desc.dirCookie = dir.cookieAt k')
    (hgo : st.desc.eob = false ∨ 0 < call.room → k < k') (heof : st.desc.eof → k' = dir.entries.length) :
    GoesOn dir useCookie tell s₀ call k q (s.readdirLoop call st) k' := by
  have hinside := hcur.inside
  unfold readdirLoop
  split
  next hmore =>
    simp only [Bool.and_eq_true, Bool.not_eq_true'] at hmore
    have hlt := hgo (.inl hmore.1)
    refine .inl ⟨_, q', ⟨rfl, hcur, hmore.1, hmore.2⟩, .inl hlt, ?_⟩
    simp only [weight, Prod.Lex.toLex_lt_toLex]
    exact .inl (by omega)
  · refine .inr ⟨rfl, ⟨hinside, fun ht => (hcur.told ht).1, heof, fun _ => ⟨q', hcur.le, hinside, hcur.last, ?_, False.elim⟩⟩,
      fun hroom => .inl (hgo (.inr hroom))⟩
    rcases Nat.eq_zero_or_pos k' with rfl | hpos
    · obtain ⟨hzero, hpos, -, hmode⟩ := hcur.target.resolve_left (fun h => absurd h.1 (lt_irrefl 0))
      have hle := hcur.le
      exact .inr ⟨hzero, hpos, by simp only [start]; omega, hmode⟩
    · exact .inl ⟨hpos, htarget⟩

/-- One round of the loop of `nfs_readdir`. -/
theorem iterate_spec (hpaged : dir.Paged s.cache) (h : s.Reads dir useCookie tell call k q) (env : FillEnv) :
    ∃ k', Emits dir useCookie tell k k' s.emitted (s.iterate dir useCookie call env).emitted ∧
      dir.Paged (s.iterate dir useCookie call env).cache ∧
      GoesOn dir useCookie tell s call k q (s.iterate dir useCookie call env) k' := by
  have hcur := h.cursor
  obtain ⟨cache, verf, fmax, a, ha, hpaged', hget, hgrown, hfind⟩ :=
    findAndLockCachePage_spec useCookie hpaged (hcur.le.trans hcur.inside) hcur.last env
  have hcur₁ : Cursor dir useCookie tell { call.desc with folioIndexMax := fmax, clearCache := false } s.pos k q :=
    ⟨hcur.le, hcur.inside, hcur.last, hcur.target, hcur.told⟩
  unfold iterate
  rw [hfind]
  rcases hcur₁.searchArray ha with ⟨hlt, pos, hres, hcur₂⟩ | ⟨hge, heof, hres⟩ | ⟨hend, hres⟩
  · rw [hres]
    dsimp only
    obtain ⟨k', q', hemits, hcur', htarget, hgo, heof⟩ := doFilldir_spec ha hlt
      ⟨{ call.desc with dirCookie := dir.cookieAt k, folioIndexMax := fmax, cacheEntryIndex := k - q, clearCache := false },
        pos, call.room, s.emitted⟩ hcur₂ rfl rfl h.eob h.eof
    have hclear : ∀ (p : Prop) [Decidable p] (d : ReaddirDescriptor),
        (if p then { d with clearCache := call.forceClear } else d) =
          { d with clearCache := if p then call.forceClear else d.clearCache } := by
      intro p _ d
      split <;> rfl
    rw [hclear]
    refine ⟨k', by rwa [emitted_readdirLoop], by rwa [cache_readdirLoop], ?_⟩
    exact readdirLoop_goesOn ⟨hcur'.le, hcur'.inside, hcur'.last, hcur'.target, hcur'.told⟩ htarget hgo heof
  · rw [hres]
    obtain ⟨q', hcur₂, hq'⟩ := hcur₁.seekNextArray ha hge
    exact ⟨k, .refl _ _, hpaged', .inl ⟨_, q', ⟨rfl, hcur₂, by simp [h.eob], by simp [h.eof]⟩, .inr rfl,
      weight_lt_of_again ha heof hq' (hcur₂.le.trans hcur.inside) hget (by simp) hgrown⟩⟩
  · rw [hres]
    dsimp only
    rw [if_neg (by simp)]
    exact ⟨k, .refl _ _, hpaged', .inr ⟨rfl, ⟨hcur.inside, fun ht => (hcur.told ht).1, fun _ => hend, fun h => by cases h⟩,
      fun _ => .inr rfl⟩⟩

/-! ### Runs -/

/-- What was emitted since the call was at `k₀`, with `pre` emitted then, is the listing from there to index `k`. -/
structure Lists (dir : Directory) (useCookie : Bool) (tell : Prop) (k₀ : Nat) (pre : List (Dirent × Int)) (s : OpenDir) (k : Nat) :
    Prop where
  paged : dir.Paged s.cache
  emits : Emits dir useCookie tell k₀ k pre s.emitted
  rests : s.call = none → s.Rests dir useCookie tell k
  reads : ∀ call, s.call = some call → ∃ q, s.Reads dir useCookie tell call k q

def IsSeek : DirEvent → Prop
  | .llseek _ _ => True
  | _ => False

/-- A call that goes by the index of an entry begins at the first page. -/
def FromFirstPage (useCookie : Bool) (s : OpenDir) : DirEvent → Prop
  | .readdir _ _ => useCookie ∨ s.eof ∨ s.lastCookie = 0
  | _ => True

instance (useCookie : Bool) (s : OpenDir) (e : DirEvent) : Decidable (s.FromFirstPage useCookie e) :=
  match e with
  | .readdir _ _ => inferInstanceAs (Decidable (_ ∨ _ ∨ _))
  | .iterate _ | .evict _ | .llseek _ _ => isTrue trivial

theorem Rests.start (h : s.Rests dir useCookie tell k) (heof : s.eof = false)
    (hguard : tell → useCookie ∨ s.lastCookie = 0) (clearCache : Bool) :
    ∃ q, Cursor dir useCookie tell (s.start clearCache) s.pos k q := by
  obtain ⟨q, hcur⟩ := h.cursor heof
  refine ⟨q, hcur.le, hcur.inside, hcur.last, hcur.target, fun ht => ⟨h.told ht, fun hm => ?_⟩⟩
  -- the first page begins at index 0
  have hzero := (hguard ht).resolve_left (by simp [hm])
  have hq := (Directory.cookieAt_eq_zero_iff (hcur.le.trans hcur.inside)).mp (hcur.last.symm.trans hzero)
  simp [OpenDir.start, hq]

section
variable (h : s.Lists dir useCookie tell k₀ pre k)
include h

theorem Lists.readdir (hcall : s.call = none) (heof : s.eof = false)
    (hguard : tell → useCookie ∨ s.lastCookie = 0) (room : Nat) (forceClear : Bool) :
    ∃ call : ReaddirCall, step dir useCookie s (.readdir room forceClear) = some { s with call := some call } ∧ call.room = room ∧
      Lists dir useCookie tell k₀ pre { s with call := some call } k := by
  obtain ⟨q, hcur⟩ := (h.rests hcall).start heof hguard (forceClear && decide (s.pos ≠ 0))
  refine ⟨⟨s.start (forceClear && decide (s.pos ≠ 0)), room, forceClear && decide (s.pos ≠ 0)⟩,
    by simp [step, hcall, heof, OpenDir.start], rfl, h.paged, h.emits, nofun, fun call hsome => ⟨q, ?_⟩⟩
  cases hsome
  exact ⟨rfl, hcur, rfl, rfl⟩

theorem Lists.iterate {call : ReaddirCall} (hreads : s.Reads dir useCookie tell call k q) (env : FillEnv) :
    ∃ k', k ≤ k' ∧ (s.iterate dir useCookie call env).Lists dir useCookie tell k₀ pre k' ∧
      GoesOn dir useCookie tell s call k q (s.iterate dir useCookie call env) k' := by
  obtain ⟨k', hemits, hpaged, hgoes⟩ := iterate_spec h.paged hreads env
  refine ⟨k', hemits.le, ⟨hpaged, h.emits.trans hemits, fun hnone => ?_, fun call' hsome => ?_⟩, hgoes⟩
  · rcases hgoes with ⟨call', q', hreads', -⟩ | ⟨-, hrests, -⟩
    · rw [hreads'.under] at hnone
      cases hnone
    · exact hrests
  · rcases hgoes with ⟨call'', q', hreads', -⟩ | ⟨hnone, -⟩
    · cases hreads'.under.symm.trans hsome
      exact ⟨q', hreads'⟩
    · rw [hnone] at hsome
      cases hsome

theorem Lists.evict (hcall : s.call = none) (index : Nat) :
    Lists dir useCookie tell k₀ pre { s with cache := Function.update s.cache index none } k := by
  have hrests := h.rests hcall
  refine ⟨h.paged.evict index, h.emits, fun _ => ⟨hrests.inside, hrests.told, hrests.eof, hrests.cursor⟩, fun call hsome => ?_⟩
  cases hcall.symm.trans hsome

end

/-- Any step but a seek keeps the listing in order. -/
theorem lists_step (he : ¬IsSeek e) (hguard : tell → s.FromFirstPage useCookie e) (h : s.Lists dir useCookie tell k₀ pre k)
    (hs : s.step dir useCookie e = some t) : ∃ k', k ≤ k' ∧ t.Lists dir useCookie tell k₀ pre k' := by
  cases e with
  | readdir room forceClear =>
    cases hcall : s.call with
    | some call => simp [step, hcall] at hs
    | none =>
      cases heof : s.eof with
      | true =>
        simp only [step, hcall, heof, isSome_none, Bool.false_eq_true, if_false, if_true] at hs
        cases hs
        exact ⟨k, le_rfl, h⟩
      | false =>
        obtain ⟨call, hbegin, -, hlists⟩ := h.readdir hcall heof
          (fun ht => (hguard ht).imp_right (·.resolve_left (by simp [heof]))) room forceClear
        cases hbegin.symm.trans hs
        exact ⟨k, le_rfl, hlists⟩
  | iterate env =>
    obtain ⟨call, hcall, rfl⟩ := map_eq_some_iff.mp hs
    obtain ⟨q, hreads⟩ := h.reads call hcall
    obtain ⟨k', hle, hlists, -⟩ := h.iterate hreads env
    exact ⟨k', hle, hlists⟩
  | evict index =>
    obtain ⟨hcall, rfl⟩ := of_unless_some hs
    exact ⟨k, le_rfl, h.evict (by simpa using hcall) index⟩
  | llseek offset cur => exact absurd trivial he

theorem lists_exec {events : List DirEvent} (hseek : ∀ e ∈ events, ¬IsSeek e)
    (hguard : tell → Along (step dir useCookie) (FromFirstPage useCookie) s events)
    (h : s.Lists dir useCookie tell k₀ pre k) (hrun : exec (step dir useCookie) s events = some t) :
    ∃ k', k ≤ k' ∧ t.Lists dir useCookie tell k₀ pre k' := by
  induction events generalizing s k with
  | nil =>
    cases hrun
    exact ⟨k, le_rfl, h⟩
  | cons e events ih =>
    obtain ⟨s₁, hs, hrun⟩ := exec_cons_iff.mp hrun
    obtain ⟨k₁, hle, h₁⟩ := lists_step (hseek e mem_cons_self) (fun ht => (hguard ht).1) h hs
    obtain ⟨k', hle', h'⟩ := ih (fun e he => hseek e (mem_cons_of_mem _ he)) (fun ht => (hguard ht).2 s₁ hs) h₁ hrun
    exact ⟨k', hle.trans hle', h'⟩

section
variable (dir : Directory) (useCookie : Bool) (tell : Prop) (k₀ : Nat) (pre : List (Dirent × Int)) (k room : Nat) (s : OpenDir)

/-- A call that began at index `k` with a buffer for `room` entries is not done, and has the weight `w`. -/
def Underway (w : Nat ×ₗ Nat ×ₗ Nat ×ₗ Nat) : Prop :=
  ∃ call k' q, s.Reads dir useCookie tell call k' q ∧ s.Lists dir useCookie tell k₀ pre k' ∧ k ≤ k' ∧
    (k < k' ∨ call.room = room) ∧ w = s.weight dir call k' q

def Returned : Prop :=
  ∃ k', s.call = none ∧ s.Lists dir useCookie tell k₀ pre k' ∧ k ≤ k' ∧ (0 < room → k < k' ∨ s.eof)

end

theorem Underway.iterate {room : Nat} {w : Nat ×ₗ Nat ×ₗ Nat ×ₗ Nat} (h : s.Underway dir useCookie tell k₀ pre k room w)
    (env : FillEnv) : ∃ t, step dir useCookie s (.iterate env) = some t ∧
      (t.Returned dir useCookie tell k₀ pre k room ∨ ∃ w', w' < w ∧ t.Underway dir useCookie tell k₀ pre k room w') := by
  obtain ⟨call, k', q, hreads, hlists, hle, hroom, rfl⟩ := h
  obtain ⟨k'', hle', hlists', hgoes⟩ := hlists.iterate hreads env
  refine ⟨_, by rw [step, hreads.under]; rfl, ?_⟩
  rcases hgoes with ⟨call', q', hreads', hroom', hlt⟩ | ⟨hnone, -, hmore⟩
  · refine .inr ⟨_, hlt, call', k'', q', hreads', hlists', hle.trans hle', ?_, rfl⟩
    rcases hroom with hless | heq
    · exact .inl (by omega)
    · exact hroom'.imp (by omega) (·.trans heq)
  · refine .inl ⟨k'', hnone, hlists', hle.trans hle', fun hpos => ?_⟩
    rcases hroom with hless | heq
    · exact .inl (by omega)
    · exact (hmore (by omega)).imp_left (by omega)

/-- Every call to `nfs_readdir` returns. -/
theorem Lists.returns (h : s.Lists dir useCookie tell k₀ pre k) (hcall : s.call = some call) (envs : Nat → FillEnv) :
    ∃ m t, exec (step dir useCookie) s ((range m).map fun i => .iterate (envs i)) = some t ∧
      t.Returned dir useCookie tell k₀ pre k call.room := by
  obtain ⟨q, hreads⟩ := h.reads call hcall
  refine exec_until (L := fun e => ∃ env, e = DirEvent.iterate env)
    (M := Underway dir useCookie tell k₀ pre k call.room) ?_ ⟨call, k, q, hreads, h, le_rfl, .inr rfl, rfl⟩ _ fun i => ⟨_, rfl⟩
  rintro s w _ ⟨env, rfl⟩ hunder
  exact hunder.iterate env

/-! ### Calls -/

/-- A call of `nfs_readdir` with its answers. -/
structure Getdents where
  evicted : List Nat := []
  room : Nat
  forceClear : Bool := false
  envs : Nat → FillEnv

def Getdents.events (g : Getdents) (m : Nat) : List DirEvent :=
  g.evicted.map .evict ++ .readdir g.room g.forceClear :: (range m).map fun i => .iterate (g.envs i)

/-- From `s` on, the calls return one after the other, and leave `u`. -/
def Calls (dir : Directory) (useCookie : Bool) : OpenDir → List Getdents → OpenDir → Prop
  | s, [], u => u = s
  | s, g :: gs, u => ∃ m t, exec (step dir useCookie) s (g.events m) = some t ∧ t.call = none ∧ Calls dir useCookie t gs u

theorem Lists.evicts (h : s.Lists dir useCookie tell k₀ pre k) (hcall : s.call = none) (evicted : List Nat) :
    ∃ t, exec (step dir useCookie) s (evicted.map .evict) = some t ∧ t.call = none ∧ t.eof = s.eof ∧
      t.lastCookie = s.lastCookie ∧ t.Lists dir useCookie tell k₀ pre k := by
  induction evicted generalizing s with
  | nil => exact ⟨s, rfl, hcall, rfl, rfl, h⟩
  | cons index evicted ih =>
    have hs : step dir useCookie s (.evict index) = some { s with cache := Function.update s.cache index none } := by
      simp [step, hcall]
    obtain ⟨t, hrun, ht⟩ := ih (h.evict hcall index) hcall
    exact ⟨t, exec_cons_iff.mpr ⟨_, hs, hrun⟩, ht⟩

theorem Lists.getdents (h : s.Lists dir useCookie tell k₀ pre k) (hcall : s.call = none)
    (hguard : tell → useCookie ∨ s.lastCookie = 0) (g : Getdents) :
    ∃ m t, exec (step dir useCookie) s (g.events m) = some t ∧ t.Returned dir useCookie tell k₀ pre k g.room := by
  obtain ⟨s₁, hevict, hcall₁, heof₁, hlast₁, h₁⟩ := h.evicts hcall g.evicted
  cases heof : s₁.eof with
  | true =>
    have hs : step dir useCookie s₁ (.readdir g.room g.forceClear) = some s₁ := by simp [step, hcall₁, heof]
    refine ⟨0, s₁, exec_append_iff.mpr ⟨s₁, hevict, by simpa using hs⟩, k, hcall₁, h₁, le_rfl, fun _ => .inr heof⟩
  | false =>
    obtain ⟨call, hbegin, hroom, hlists⟩ := h₁.readdir hcall₁ heof (hlast₁ ▸ hguard) g.room g.forceClear
    obtain ⟨m, t, hrun, hreturned⟩ := hlists.returns rfl g.envs
    rw [hroom] at hreturned
    exact ⟨m, t, exec_append_iff.mpr ⟨s₁, hevict, exec_cons_iff.mpr ⟨_, hbegin, hrun⟩⟩, hreturned⟩

theorem not_isSeek_of_mem_events (he : e ∈ g.events m) : ¬IsSeek e := by
  simp only [Getdents.events, mem_append, mem_cons, List.mem_map] at he
  rcases he with ⟨index, -, rfl⟩ | rfl | ⟨i, -, rfl⟩ <;> exact id

theorem Calls.lists (hcalls : Calls dir useCookie s gs t) (h : s.Lists dir useCookie False k₀ pre k)
    (hcall : s.call = none) : t.call = none ∧ ∃ k', k ≤ k' ∧ t.Lists dir useCookie False k₀ pre k' := by
  induction gs generalizing s k with
  | nil =>
    obtain rfl := hcalls
    exact ⟨hcall, k, le_rfl, h⟩
  | cons g gs ih =>
    obtain ⟨m, s₁, hrun, hcall₁, hcalls⟩ := hcalls
    obtain ⟨k₁, hle, h₁⟩ := lists_exec (fun e he => not_isSeek_of_mem_events he) False.elim h hrun
    obtain ⟨hnone, k', hle', h'⟩ := ih hcalls h₁ hcall₁
    exact ⟨hnone, k', hle.trans hle', h'⟩

theorem exec_iterates_unique {f : Nat → FillEnv} {t : OpenDir}
    (h : exec (step dir useCookie) s ((range m).map fun i => .iterate (f i)) = some t) (hcall : t.call = none)
    (h' : exec (step dir useCookie) s ((range m').map fun i => .iterate (f i)) = some t') (hcall' : t'.call = none) :
    t = t' := by
  -- there is no step after the call has returned
  have hstop : ∀ {m m' : Nat} {t t' : OpenDir}, m ≤ m' →
      exec (step dir useCookie) s ((range m).map fun i => .iterate (f i)) = some t → t.call = none →
      exec (step dir useCookie) s ((range m').map fun i => .iterate (f i)) = some t' → t = t' := by
    intro m m' t t' hle h hcall h'
    obtain ⟨d, rfl⟩ := Nat.exists_eq_add_of_le hle
    rw [range_add, map_append] at h'
    obtain ⟨s₁, hs₁, hrest⟩ := exec_append_iff.mp h'
    cases h.symm.trans hs₁
    cases d with
    | zero => exact some.inj hrest
    | succ d =>
      rw [range_succ_eq_map, map_cons, map_cons] at hrest
      obtain ⟨s₂, hs₂, -⟩ := exec_cons_iff.mp hrest
      simp [step, hcall] at hs₂
  rcases le_total m m' with hle | hle
  · exact hstop hle h hcall h'
  · exact (hstop hle h' hcall' h).symm

theorem exec_events_unique {t : OpenDir} (h : exec (step dir useCookie) s (g.events m) = some t) (hcall : t.call = none)
    (h' : exec (step dir useCookie) s (g.events m') = some t') (hcall' : t'.call = none) : t = t' := by
  obtain ⟨s₁, hs₁, h⟩ := exec_append_iff.mp h
  obtain ⟨s₁', hs₁', h'⟩ := exec_append_iff.mp h'
  cases hs₁.symm.trans hs₁'
  obtain ⟨s₂, hs₂, h⟩ := exec_cons_iff.mp h
  obtain ⟨s₂', hs₂', h'⟩ := exec_cons_iff.mp h'
  cases hs₂.symm.trans hs₂'
  exact exec_iterates_unique h hcall h' hcall'

theorem Calls.unique {u : OpenDir} (h : Calls dir useCookie s gs t) (h' : Calls dir useCookie s gs u) : t = u := by
  induction gs generalizing s with
  | nil => exact h.trans h'.symm
  | cons g gs ih =>
    obtain ⟨m, s₁, hrun, hcall, h⟩ := h
    obtain ⟨m', s₁', hrun', hcall', h'⟩ := h'
    obtain rfl := exec_events_unique hrun hcall hrun' hcall'
    exact ih h h'

theorem Lists.calls (h : s.Lists dir useCookie False k₀ pre k) (hcall : s.call = none) (gs : List Getdents) :
    ∃ t, Calls dir useCookie s gs t ∧
      ((∀ g ∈ gs, 0 < g.room) → dir.entries.length < k + gs.length ∨ s.eof → t.eof) := by
  induction gs generalizing s k with
  | nil =>
    refine ⟨s, rfl, fun _ hend => hend.resolve_left ?_⟩
    have := (h.rests hcall).inside
    rw [length_nil]
    omega
  | cons g gs ih =>
    obtain ⟨m, s₁, hrun, k₁, hcall₁, h₁, hle, hmore⟩ := h.getdents hcall False.elim g
    obtain ⟨t, hcalls, hend⟩ := ih h₁ hcall₁
    refine ⟨t, ⟨m, s₁, hrun, hcall₁, hcalls⟩, fun hroom hfew => hend (fun g hg => hroom g (mem_cons_of_mem _ hg)) ?_⟩
    rcases hmore (hroom g mem_cons_self) with hlt | heof
    · rcases hfew with hfew | heof
      · rw [length_cons] at hfew
        exact .inl (by omega)
      · have := (h.rests hcall).eof heof
        omega
    · exact .inr heof

theorem lists_open {cache : DirCache} (verf : U64) (hpaged : dir.Paged cache) :
    Lists dir useCookie tell 0 [] { cache := cache, cookieverf := verf } 0 := by
  refine ⟨hpaged, .refl 0 [], fun _ => ⟨Nat.zero_le _, fun _ => ?_, nofun, fun _ => ⟨0, le_rfl, Nat.zero_le _, rfl, ?_, False.elim⟩⟩, nofun⟩
  · cases useCookie <;> rfl
  · exact .inr ⟨rfl, rfl, rfl, fun _ => rfl⟩

theorem Lists.dirents {k : Nat} (h : s.Lists dir useCookie tell 0 [] k) :
    s.emitted.map (·.1) = (dir.entries.take k).map (·.dirent) := by
  obtain ⟨-, new, hnew, hdirents, -⟩ := h.emits
  rw [hnew, nil_append, hdirents, drop_zero, Nat.sub_zero]

/-- Every sequence of calls returns and emits the entries in order from the first on, whatever was cached. With more
    calls than entries, each with room for one, the end is reached; such a call emits nothing only if all were emitted. -/
theorem nfsReaddir_lists_directory (dir : Directory) (useCookie : Bool) (cache : DirCache) (verf : U64) (hpaged : dir.Paged cache)
    (gs : List Getdents) : (∃! u, Calls dir useCookie { cache := cache, cookieverf := verf } gs u) ∧
    ∀ u, Calls dir useCookie { cache := cache, cookieverf := verf } gs u →
      u.emitted.map (·.1) <+: dir.entries.map (·.dirent) ∧
      (u.eof → u.emitted.map (·.1) = dir.entries.map (·.dirent)) ∧
      ((∀ g ∈ gs, 0 < g.room) → dir.entries.length < gs.length → u.eof) ∧
      (∀ g v, 0 < g.room → Calls dir useCookie u [g] v → v.emitted = u.emitted → u.emitted.map (·.1) = dir.entries.map (·.dirent)) := by
  have hopen : Lists dir useCookie False 0 [] { cache := cache, cookieverf := verf } 0 := lists_open verf hpaged
  have hall : ∀ {u : OpenDir} {k : Nat}, u.Lists dir useCookie False 0 [] k → k = dir.entries.length →
      u.emitted.map (·.1) = dir.entries.map (·.dirent) := by
    rintro u k h rfl
    rw [h.dirents, take_length]
  obtain ⟨t, hcalls, hend⟩ := hopen.calls rfl gs
  refine ⟨⟨t, hcalls, fun u hu => hu.unique hcalls⟩, fun u hu => ?_⟩
  obtain rfl := hcalls.unique hu
  obtain ⟨hnone, k, -, hlists⟩ := hcalls.lists hopen rfl
  have hrests := hlists.rests hnone
  refine ⟨?_, fun heof => hall hlists (hrests.eof heof), fun hroom hlen => hend hroom (.inl (by omega)), fun g v hroom hv hsame => ?_⟩
  · have htake := take_prefix k dir.entries
    rw [hlists.dirents]
    exact htake.map _
  · obtain ⟨m, v', hrun, k', hnone', hlists', hle, hmore⟩ := hlists.getdents hnone False.elim g
    obtain ⟨m', w, hrun', hnone'', rfl⟩ := hv
    obtain rfl := exec_events_unique hrun hnone' hrun' hnone''
    rcases hmore hroom with hlt | heof
    · -- the call came further, so it emitted something
      have hlen := congrArg length (hlists.dirents)
      have hlen' := congrArg length (hlists'.dirents)
      have hinside := (hlists'.rests hnone').inside
      simp only [length_map, length_take, hsame] at hlen hlen'
      omega
    · rw [← hsame]
      exact hall hlists' ((hlists'.rests hnone').eof heof)

def twoEntries : Directory where
  entries := [⟨9, ⟨[97], 1, 8⟩⟩, ⟨4, ⟨[98], 2, 8⟩⟩]
  cookies_nodup := by decide
  cookies_nonzero := by decide
  changeAttr := 7
  verf := 1
  hash64 := fun _ => 5
  maxentries := 127
  maxentries_pos := by decide

/-- Three calls with room for one entry, on replies of one entry. -/
theorem nfsReaddir_lists_directory_twoEntries :
    ∃ u, Calls twoEntries false {} (replicate 3 { room := 1, envs := fun _ => ⟨⟨0, false⟩, []⟩ }) u ∧
      u.emitted.map (·.1) = [⟨[97], 1, 8⟩, ⟨[98], 2, 8⟩] := by
  obtain ⟨⟨u, hu, -⟩, hall⟩ := nfsReaddir_lists_directory twoEntries false (fun _ => none) 0 Directory.paged_empty
    (replicate 3 { room := 1, envs := fun _ => ⟨⟨0, false⟩, []⟩ })
  obtain ⟨-, hdone, heof, -⟩ := hall u hu
  exact ⟨u, hu, hdone (heof (fun g hg => by rw [eq_of_mem_replicate hg]; exact Nat.one_pos) (by decide))⟩

end OpenDir

end Mynfs
