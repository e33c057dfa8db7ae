import Mathlib.Data.List.GetD
import Mathlib.Data.List.Nodup
import Mynfs.Dir.Readdir

/-! Cached pages hold a part of the listing of the server, which filling a page makes longer. -/

namespace Mynfs

open List Function

def CacheArray.progress (a : CacheArray) : Nat := a.array.length + a.pageFull.toNat

namespace Directory
variable {dir : Directory} {i j k q : Nat}

/-- The cookie of the `k`-th entry, and 0 for the beginning. READDIR takes it to the entries from index `k` on. -/
def cookieAt (dir : Directory) (k : Nat) : U64 := (0 :: dir.entries.map (·.cookie)).getD k 0

@[simp] theorem cookieAt_zero : dir.cookieAt 0 = 0 := rfl

theorem cookieAt_succ {entry : NfsEntry} (h : dir.entries[k]? = some entry) : dir.cookieAt (k + 1) = entry.cookie := by
  simp [cookieAt, h]

theorem cookies_distinct (dir : Directory) : (0 :: dir.entries.map (·.cookie)).Nodup := by
  refine nodup_cons.mpr ⟨fun h => ?_, dir.cookies_nodup⟩
  obtain ⟨entry, hmem, hzero⟩ := mem_map.mp h
  exact dir.cookies_nonzero entry hmem hzero

/-- A cookie has one place in the directory. -/
theorem cookieAt_inj (hi : i ≤ dir.entries.length) (hj : j ≤ dir.entries.length) (h : dir.cookieAt i = dir.cookieAt j) :
    i = j := by
  have hlen : (0 :: dir.entries.map (·.cookie)).length = dir.entries.length + 1 := by simp
  unfold cookieAt at h
  rw [getD_eq_getElem _ _ (by omega), getD_eq_getElem _ _ (by omega)] at h
  exact (dir.cookies_distinct.getElem_inj_iff).mp h

theorem cookieAt_ne (dir : Directory) (hi : i ≤ dir.entries.length) (hj : j ≤ dir.entries.length) (h : i ≠ j) :
    dir.cookieAt i ≠ dir.cookieAt j := mt (cookieAt_inj hi hj) h

theorem cookieAt_eq_zero_iff (hk : k ≤ dir.entries.length) : dir.cookieAt k = 0 ↔ k = 0 :=
  ⟨fun h => cookieAt_inj hk (Nat.zero_le _) h, fun h => h ▸ rfl⟩

/-- The server goes on behind the cookie it is asked with. -/
theorem after_cookieAt (hk : k ≤ dir.entries.length) : dir.after (dir.cookieAt k) = some (dir.entries.drop k) := by
  unfold after
  cases k with
  | zero => simp
  | succ k =>
    rw [if_neg ((cookieAt_eq_zero_iff hk).not.mpr (Nat.succ_ne_zero k)), Option.map_eq_some_iff]
    have hget : dir.entries[k]? = some dir.entries[k] := getElem?_eq_getElem hk
    refine ⟨k, ?_, rfl⟩
    rw [findIdx?_eq_some_iff_getElem]
    refine ⟨hk, by simp [cookieAt_succ hget], fun j hj => ?_⟩
    -- an earlier entry has another cookie
    have hj' : dir.entries[j]? = some dir.entries[j] := getElem?_eq_getElem (by omega)
    have hne := cookieAt_ne dir (by omega) hk (by omega : j + 1 ≠ k + 1)
    rw [cookieAt_succ hj'] at hne
    simpa using hne

def link (dir : Directory) (i : Nat) : Option CacheArrayEntry := (dir.entries[i]?).map fun e => ⟨dir.cookieAt i, e.dirent⟩

/-- The array holds the entries from index `q` on. -/
structure Page (dir : Directory) (q : Nat) (a : CacheArray) : Prop where
  changeAttr : a.changeAttr = dir.changeAttr
  fits : q + a.array.length ≤ dir.entries.length
  size : a.array.length ≤ dir.maxentries
  array : ∀ i, i < a.array.length → a.array[i]? = dir.link (q + i)
  last : a.lastCookie = dir.cookieAt (q + a.array.length)
  eof : a.pageIsEof → a.pageFull ∧ q + a.array.length = dir.entries.length
  full : a.pageFull → a.pageIsEof ∨ 0 < a.array.length
  ordered : a.cookiesAreOrdered → ∀ i j, q ≤ i → i < j → j ≤ q + a.array.length → dir.cookieAt i < dir.cookieAt j

section
variable {a a' : CacheArray} {entry : NfsEntry} {cache : DirCache} {eof : Bool} {entries : List NfsEntry}

theorem Page.init (hq : q ≤ dir.entries.length) : dir.Page q ⟨dir.changeAttr, dir.cookieAt q, [], false, false, true⟩ where
  changeAttr := rfl
  fits := hq
  size := Nat.zero_le _
  array i hi := absurd hi (Nat.not_lt_zero i)
  last := rfl
  eof h := by cases h
  full h := by cases h
  ordered _ i j hi hij hj := absurd (hi.trans_lt hij) (Nat.not_lt.mpr hj)

section
variable (h : dir.Page q a)
include h

theorem Page.indexCookie : a.indexCookie = dir.cookieAt q := by
  unfold CacheArray.indexCookie
  split
  next hnil => simpa [hnil] using h.last
  next e rest hcons =>
    have hhead := h.array 0 (by simp [hcons])
    simp only [hcons, getElem?_cons_zero, Nat.add_zero, link] at hhead
    obtain ⟨entry, -, rfl⟩ := Option.map_eq_some_iff.mp hhead.symm
    rfl

theorem Page.getElem? (hi : i < a.array.length) :
    ∃ entry, dir.entries[q + i]? = some entry ∧ a.array[i]? = some ⟨dir.cookieAt (q + i), entry.dirent⟩ := by
  have hlt : q + i < dir.entries.length := by have := h.fits; omega
  exact ⟨dir.entries[q + i], getElem?_eq_getElem hlt, by rw [h.array i hi, link, getElem?_eq_getElem hlt]; rfl⟩

theorem Page.cookieInRange (hq : q ≤ k) (hk : k < q + a.array.length) : a.cookieInRange (dir.cookieAt k) := by
  unfold CacheArray.cookieInRange
  cases hord : a.cookiesAreOrdered with
  | false => rfl
  | true =>
    have hlast : ¬a.lastCookie ≤ dir.cookieAt k := by
      rw [h.last, BitVec.not_le]
      exact h.ordered hord k _ hq hk le_rfl
    have hfirst : ¬dir.cookieAt k < a.indexCookie := by
      rw [h.indexCookie, BitVec.not_lt]
      rcases hq.lt_or_eq with hlt | rfl
      · exact BitVec.le_of_lt (h.ordered hord q k le_rfl hlt hk.le)
      · exact BitVec.le_refl _
    simp [hlast, hfirst]

/-- A search by cookie finds the entry at its index. -/
theorem Page.findIdx? (hq : q ≤ k) (hk : k < q + a.array.length) :
    a.array.findIdx? (·.cookie = dir.cookieAt k) = some (k - q) := by
  have hfits := h.fits
  rw [findIdx?_eq_some_iff_getElem]
  have hcookie : ∀ (i : Nat) (hi : i < a.array.length), a.array[i].cookie = dir.cookieAt (q + i) := by
    intro i hi
    obtain ⟨entry, -, hget⟩ := h.getElem? hi
    rw [(List.getElem?_eq_some_iff.mp hget).2]
  refine ⟨by omega, ?_, fun j hj => ?_⟩
  · rw [hcookie]
    simp [Nat.add_sub_cancel' hq]
  · rw [hcookie]
    have hne := cookieAt_ne dir (by omega) (by omega) (by omega : q + j ≠ k)
    simpa using hne

theorem Page.findIdx?_eq_none (hq : q + a.array.length ≤ k) (hk : k ≤ dir.entries.length) :
    a.array.findIdx? (·.cookie = dir.cookieAt k) = none := by
  rw [findIdx?_eq_none_iff]
  intro e he
  obtain ⟨i, hi, rfl⟩ := getElem_of_mem he
  obtain ⟨entry, -, hget⟩ := h.getElem? hi
  rw [(List.getElem?_eq_some_iff.mp hget).2]
  have hne := cookieAt_ne dir (by omega) hk (by omega : q + i ≠ k)
  simpa using hne

theorem Page.append (hentry : dir.entries[q + a.array.length]? = some entry)
    (ha : a.append dir.maxentries entry = some a') : dir.Page q a' ∧ a'.array.length = a.array.length + 1 := by
  unfold CacheArray.append at ha
  split at ha
  · cases ha
  next hroom =>
    cases ha
    simp only [Bool.or_eq_true, beq_iff_eq, not_or, Bool.not_eq_true] at hroom
    obtain ⟨hfull, hlen⟩ := hroom
    have hfits := (List.getElem?_eq_some_iff.mp hentry).1
    have hnext : entry.cookie = dir.cookieAt (q + a.array.length + 1) := (cookieAt_succ hentry).symm
    have hsize := h.size
    refine ⟨⟨h.changeAttr, ?_, ?_, fun i hi => ?_, ?_, fun heof => ?_, fun _ => .inr (by simp), ?_⟩, ?_⟩
    · simp only [length_append, length_singleton]
      omega
    · simp only [length_append, length_singleton]
      omega
    · simp only [length_append, length_singleton] at hi
      by_cases hold : i < a.array.length
      · rw [getElem?_append_left hold, h.array i hold]
      · obtain rfl : i = a.array.length := by omega
        simp [link, hentry, h.last]
    · simpa [Nat.add_assoc] using hnext
    · rw [(h.eof heof).1] at hfull
      cases hfull
    · intro hord i j hi hij hj
      simp only [length_append, length_singleton, ← Nat.add_assoc] at hj
      split at hord
      · cases hord
      next hlt =>
        rw [h.last, hnext, BitVec.not_le] at hlt
        rcases hj.lt_or_eq with hj | rfl
        · exact h.ordered hord i j hi hij (by omega)
        · -- the new cookie is above the last one, which is above the rest
          rcases (Nat.lt_succ_iff.mp hij).lt_or_eq with hlast | rfl
          · exact BitVec.lt_trans (h.ordered hord i _ hi hlast le_rfl) hlt
          · exact hlt
    · simp

theorem Page.setFull (ha : a.append dir.maxentries entry = none) : dir.Page q a.setFull := by
  refine ⟨h.changeAttr, h.fits, h.size, h.array, h.last, fun heof => ⟨rfl, (h.eof heof).2⟩, fun _ => ?_, h.ordered⟩
  unfold CacheArray.append at ha
  split at ha
  next hroom =>
    rcases Bool.or_eq_true _ _ ▸ hroom with hfull | hlen
    · exact h.full hfull
    · refine .inr ?_
      show 0 < a.array.length
      rw [beq_iff_eq.mp hlen]
      exact dir.maxentries_pos
  · cases ha

theorem Page.setEof (hend : q + a.array.length = dir.entries.length) : dir.Page q a.setEof :=
  ⟨h.changeAttr, h.fits, h.size, h.array, h.last, fun _ => ⟨rfl, hend⟩, fun _ => .inl rfl, h.ordered⟩

theorem Page.append_isSome (hempty : a.array = []) (hq : q < dir.entries.length) (entry : NfsEntry) :
    (a.append dir.maxentries entry).isSome := by
  have hfull : a.pageFull = false := by
    cases hf : a.pageFull with
    | false => rfl
    | true =>
      rcases h.full hf with heof | hpos
      · have := (h.eof heof).2
        rw [hempty, length_nil] at this
        omega
      · rw [hempty] at hpos
        cases hpos
  have hmax := dir.maxentries_pos
  unfold CacheArray.append
  rw [if_neg (by simp [hfull, hempty]; omega)]
  rfl

end

/-- Every cached page is a part of the listing. -/
def Paged (dir : Directory) (cache : DirCache) : Prop := ∀ i a, cache i = some a → ∃ q, dir.Page q a

theorem paged_empty : dir.Paged fun _ => none := fun _ _ h => by cases h

theorem Paged.update (h : dir.Paged cache) (ha : dir.Page q a) (index : Nat) : dir.Paged (update cache index (some a)) := by
  intro i b hb
  by_cases hi : i = index
  · subst hi
    rw [update_self] at hb
    cases hb
    exact ⟨q, ha⟩
  · rw [update_of_ne hi] at hb
    exact h i b hb

theorem Paged.evict (h : dir.Paged cache) (index : Nat) : dir.Paged (Function.update cache index none) := by
  intro i b hb
  by_cases hi : i = index
  · subst hi
    rw [update_self] at hb
    cases hb
  · rw [update_of_ne hi] at hb
    exact h i b hb

/-- A page from the cache fits its cookie, or is initialised to. -/
theorem page_pageInitAndValidate (h : dir.Paged cache) (hq : q ≤ dir.entries.length) :
    dir.Page q (dir.pageInitAndValidate cache (dir.cookieAt q)) := by
  unfold pageInitAndValidate
  split
  next a ha =>
    split
    next hvalid =>
      obtain ⟨p, hp⟩ := h _ a ha
      simp only [CacheArray.validate, Bool.and_eq_true, decide_eq_true_eq] at hvalid
      rw [hp.indexCookie] at hvalid
      obtain rfl := cookieAt_inj (Nat.le_of_add_right_le hp.fits) hq hvalid.2
      exact hp
    · exact .init hq
  · exact .init hq

theorem pageInitAndValidate_of_page (ha : dir.Page q a) (hcache : cache (dir.pageCookieHash (dir.cookieAt q)) = some a) :
    dir.pageInitAndValidate cache (dir.cookieAt q) = a := by
  unfold pageInitAndValidate
  rw [hcache]
  simp [CacheArray.validate, ha.changeAttr, ha.indexCookie]

theorem page_pageGetNext (h : dir.Paged cache) (hq : q ≤ dir.entries.length) :
    dir.Page q (dir.pageGetNext cache (dir.cookieAt q)) ∧ (dir.pageGetNext cache (dir.cookieAt q)).array = [] := by
  have hpage := page_pageInitAndValidate h hq
  unfold pageGetNext
  dsimp only
  split
  · exact ⟨.init hq, rfl⟩
  next hlast =>
    refine ⟨hpage, length_eq_zero_iff.mp ?_⟩
    rw [not_not, hpage.last] at hlast
    have := cookieAt_inj hpage.fits hq hlast
    omega

def Follows (dir : Directory) (eof : Bool) (k : Nat) (entries : List NfsEntry) : Prop :=
  ∃ rest, dir.entries.drop k = entries ++ rest ∧ (eof → rest = [])

theorem follows_reply (dir : Directory) (cut : Cut) (k : Nat) :
    dir.Follows (cut.reply (dir.entries.drop k)).2 k (cut.reply (dir.entries.drop k)).1 := by
  refine ⟨(dir.entries.drop k).drop (cut.count + 1), (take_append_drop _ _).symm, fun heof => ?_⟩
  simp only [Cut.reply, Bool.and_eq_true, decide_eq_true_eq] at heof
  exact drop_eq_nil_of_le heof.1

theorem reply_ne_nil_or_eof (cut : Cut) (entries : List NfsEntry) : (cut.reply entries).1 ≠ [] ∨ (cut.reply entries).2 := by
  cases entries with
  | nil => exact .inr (by simp [Cut.reply])
  | cons entry entries => exact .inl (by simp [Cut.reply])

theorem Follows.head (h : dir.Follows eof k (entry :: entries)) : dir.entries[k]? = some entry := by
  obtain ⟨rest, hdrop, -⟩ := h
  rw [← head?_drop, hdrop]
  rfl

theorem Follows.tail (h : dir.Follows eof k (entry :: entries)) : dir.Follows eof (k + 1) entries := by
  obtain ⟨rest, hdrop, heof⟩ := h
  refine ⟨rest, ?_, heof⟩
  rw [← tail_drop, hdrop]
  rfl

theorem Follows.end (h : dir.Follows true k []) (hk : k ≤ dir.entries.length) : k = dir.entries.length := by
  obtain ⟨rest, hdrop, heof⟩ := h
  rw [heof rfl, append_nil, drop_eq_nil_iff] at hdrop
  omega

theorem Page.filled (h : dir.Page q a) (hf : dir.Follows eof (q + a.array.length) []) :
    dir.Page q (if eof then a.setEof else a) := by
  cases eof with
  | false => exact h
  | true => exact h.setEof (hf.end h.fits)

theorem Page.append_follows (h : dir.Page q a) (hf : dir.Follows eof (q + a.array.length) (entry :: entries))
    (ha : a.append dir.maxentries entry = some a') :
    dir.Page q a' ∧ a'.array.length = a.array.length + 1 ∧ dir.Follows eof (q + a'.array.length) entries := by
  obtain ⟨h', hlength⟩ := h.append hf.head ha
  exact ⟨h', hlength, hlength ▸ hf.tail⟩

/-- Filling folios from a reply keeps all pages in step with the directory. -/
theorem paged_folioFiller (head : Nat) : ∀ {entries : List NfsEntry} {cache : DirCache} {q : Nat} {a : CacheArray}
    (cur : Nat) (grabs : List Bool), dir.Paged cache → dir.Page q a → dir.Follows eof (q + a.array.length) entries →
    dir.Paged (dir.folioFiller head eof cache cur a grabs entries).1
  | [], cache, q, a, cur, grabs, h, ha, hf => h.update (ha.filled hf) cur
  | entry :: entries, cache, q, a, cur, grabs, h, ha, hf => by
    unfold folioFiller
    split
    next a' happend =>
      obtain ⟨ha', -, hf'⟩ := ha.append_follows hf happend
      exact paged_folioFiller head cur grabs h ha' hf'
    next hfull =>
      have hcache := h.update (ha.setFull hfull) cur
      dsimp only
      split
      · exact hcache
      · -- the next page is empty, so it takes the entry
        rw [ha.last]
        obtain ⟨hnew, hempty⟩ := page_pageGetNext hcache ha.fits
        have hstart := congrArg (q + a.array.length + ·) (congrArg length hempty)
        split
        next new happend =>
          obtain ⟨hnew', -, hf'⟩ := hnew.append_follows (hstart ▸ hf) happend
          exact paged_folioFiller head _ grabs.tail hcache hnew' hf'
        next hnone =>
          have hsome := hnew.append_isSome hempty (List.getElem?_eq_some_iff.mp hf.head).1 entry
          rw [hnone] at hsome
          cases hsome

theorem folioFiller_of_ne {head : Nat} : ∀ {entries : List NfsEntry} {cache : DirCache} {cur : Nat} {a : CacheArray}
    {grabs : List Bool}, head ≠ cur → (dir.folioFiller head eof cache cur a grabs entries).1 head = cache head
  | [], cache, cur, a, grabs, hne => update_of_ne hne _ _
  | entry :: entries, cache, cur, a, grabs, hne => by
    unfold folioFiller
    split
    · exact folioFiller_of_ne hne
    · dsimp only
      split
      · exact update_of_ne hne _ _
      next hnext =>
        have hne' : head ≠ dir.pageCookieHash a.lastCookie := fun h => hnext (.inl h.symm)
        split
        · exact (folioFiller_of_ne hne').trans (update_of_ne hne _ _)
        · exact (update_of_ne hne' _ _).trans (update_of_ne hne _ _)

theorem folioFiller_head (head : Nat) : ∀ {entries : List NfsEntry} (cache : DirCache) {a : CacheArray} (grabs : List Bool),
    dir.Page q a → dir.Follows eof (q + a.array.length) entries →
    ∃ a', (dir.folioFiller head eof cache head a grabs entries).1 head = some a' ∧ dir.Page q a' ∧
      a.array.length ≤ a'.array.length ∧ (entries ≠ [] ∨ eof → a.array.length < a'.progress)
  | [], cache, a, grabs, ha, hf => by
    refine ⟨_, update_self _ _ _, ha.filled hf, by cases eof <;> exact le_rfl, fun h => ?_⟩
    obtain rfl := h.resolve_left (fun h => h rfl)
    exact Nat.lt_succ_self _
  | entry :: entries, cache, a, grabs, ha, hf => by
    unfold folioFiller
    split
    next a₁ happend =>
      obtain ⟨ha₁, hlength, hf₁⟩ := ha.append_follows hf happend
      obtain ⟨a', hget, ha', hle, -⟩ := folioFiller_head head cache grabs ha₁ hf₁
      refine ⟨a', hget, ha', by omega, fun _ => ?_⟩
      unfold CacheArray.progress
      omega
    next hfull =>
      refine ⟨a.setFull, ?_, ha.setFull hfull, le_rfl, fun _ => Nat.lt_succ_self _⟩
      dsimp only
      split
      · exact update_self _ _ _
      next hnext =>
        have hne : head ≠ dir.pageCookieHash a.lastCookie := fun h => hnext (.inl h.symm)
        split
        · exact (folioFiller_of_ne hne).trans (update_self _ _ _)
        · exact (update_of_ne hne _ _).trans (update_self _ _ _)

end

end Directory

end Mynfs
