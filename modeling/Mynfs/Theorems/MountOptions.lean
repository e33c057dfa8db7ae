import Mathlib.Tactic.Common
import Mynfs.Lib.LastWrite
import Mynfs.Mount.Options

/-! `nfs4mount` lets the last token for a setting decide; `nfsmount` ignores some `no`s and takes `mountproto` for
    `proto`. -/

namespace Mynfs
namespace MountSetting
variable {h : MountHelper} {k : MountSetting} {o : MountOpts} {opt : List Char} {val : Bool} {w : MountWord}

/-- What a word without its `no` tells a helper about a setting; `val` says that there was none. -/
def reads : MountHelper → MountSetting → Bool → MountWord → Option Bool
  | .nfsmount, .lock, _, w => lock.asks w
  | .nfsmount, .tcp, _, w => tcp.asks w
  | _, k, val, w => (k.asks w).map (· == val)

/-- What a token makes of a setting, as the round of the loop goes. -/
def reaction (k : MountSetting) (h : MountHelper) (opt : List Char) : Option Bool :=
  if '=' ∈ opt then
    if h = .nfsmount ∧ k = .tcp then
      (optionValue "proto".toList opt <|> optionValue "mountproto".toList opt).bind protoOf
    else none
  else (mountWord (stripNo opt).1).bind (k.reads h (stripNo opt).2)

def get (o : MountOpts) : MountSetting → Bool
  | .bg => o.bg
  | .soft => o.soft
  | .intr => o.intr
  | .cto => !o.nocto
  | .ac => !o.noac
  | .sharecache => !o.unshared
  | .lock => !o.nonlm
  | .tcp => o.useTcp

/-- A round of the loop of a helper. -/
def round : MountHelper → MountOpts → List Char → MountOpts
  | .nfsmount => MountOpts.nfsmountOpt
  | .nfs4mount => MountOpts.nfs4mountOpt

theorem get_nfsmountWord (hk : known .nfsmount k) :
    get (o.nfsmountWord val w) k = (reads .nfsmount k val w).getD (get o k) := by
  cases w <;> cases val <;> cases k <;> first | rfl | cases hk

theorem get_nfs4mountWord (hk : known .nfs4mount k) :
    get (o.nfs4mountWord val w) k = (reads .nfs4mount k val w).getD (get o k) := by
  cases w <;> cases val <;> cases k <;> first | rfl | cases hk

theorem get_round (hk : known h k) : get (round h o opt) k = (k.reaction h opt).getD (get o k) := by
  cases h with
  | nfsmount =>
    simp only [round, MountOpts.nfsmountOpt, reaction]
    split
    · cases optionValue "proto".toList opt <|> optionValue "mountproto".toList opt <;> cases k <;> rfl
    · cases mountWord (stripNo opt).1 with
      | none => rfl
      | some w => exact get_nfsmountWord hk
  | nfs4mount =>
    simp only [round, MountOpts.nfs4mountOpt, reaction]
    split
    · rfl
    · cases mountWord (stripNo opt).1 with
      | none => rfl
      | some w => exact get_nfs4mountWord hk

theorem get_foldl (hk : known h k) (toks : List (List Char)) (o : MountOpts) :
    get (toks.foldl (round h) o) k = ((toks.filterMap (k.reaction h)).getLast?).getD (get o k) :=
  @LastWrite.get_foldl _ _ _ (round h) (get · k) (k.reaction h) (fun _ _ => get_round hk) toks o

theorem text_of_mountWord (hw : mountWord opt = some w) : w.text = opt := by
  simpa using List.find?_some hw

theorem stripNo_of_mountWord (hw : mountWord opt = some w) (hne : w ≠ .nolock) : stripNo opt = (opt, true) := by
  rw [← text_of_mountWord hw]
  cases w <;> first | rfl | exact absurd rfl hne

theorem stripNo_of_true (hv : (stripNo opt).2) : (stripNo opt).1 = opt := by
  unfold stripNo at hv ⊢
  split at hv
  · cases hv
  · rfl

theorem reaction_eq_demand (hk : known h k) (hnot : h = .nfsmount → k ≠ .lock ∧ k ≠ .tcp) : k.reaction h = k.demand := by
  funext opt
  have hreads (val : Bool) (w : MountWord) : k.reads h val w = (k.asks w).map (· == val) := by
    cases h <;> cases k <;> first | rfl | exact absurd rfl (hnot rfl).1 | exact absurd rfl (hnot rfl).2
  have hk' : k ≠ .lock ∧ k ≠ .tcp := by
    cases h
    · exact hnot rfl
    · simpa [known] using hk
  simp only [reaction, demand, hk'.2, and_false, if_false]
  split
  · rfl
  cases hw : mountWord opt with
  | some w =>
    by_cases hl : w = .nolock
    · obtain rfl : opt = _ := (text_of_mountWord hw).symm
      subst hl
      cases h <;> cases k <;> first | rfl | exact absurd rfl hk'.1
    · rw [stripNo_of_mountWord hw hl]
      simp [hw, hreads]
  | none =>
    cases hv : (stripNo opt).2
    · simp [hreads, Option.map_bind]
    · simp [stripNo_of_true hv, hw]

/-- What `nfsmount` takes for a setting: it ignores the `no` of `lock`, `tcp` and `udp`, and `mountproto` is a `proto`. -/
def takes : MountSetting → List Char → Option Bool
  | .lock, opt =>
    if opt = MountWord.lock.text ∨ opt = MountWord.nolock.text then some true
    else if opt = 'n' :: 'o' :: MountWord.nolock.text then some false
    else none
  | .tcp, opt =>
    if opt = MountWord.tcp.text ∨ opt = 'n' :: 'o' :: MountWord.tcp.text then some true
    else if opt = MountWord.udp.text ∨ opt = 'n' :: 'o' :: MountWord.udp.text then some false
    else (optionValue "proto".toList opt <|> optionValue "mountproto".toList opt).bind protoOf
  | k, opt => k.demand opt

/-- A word that asks for a setting is one of two. -/
theorem bind_asks (hk : k = lock ∨ k = tcp) (opt : List Char) : (mountWord opt).bind k.asks =
    if opt = (if k = lock then MountWord.lock else .tcp).text then some true
    else if opt = (if k = lock then MountWord.nolock else .udp).text then some false
    else none := by
  have hnone (w : MountWord) : mountWord w.text ≠ none := by cases w <;> decide
  cases hw : mountWord opt with
  | none =>
    rw [if_neg (fun heq => hnone _ (heq ▸ hw)), if_neg (fun heq => hnone _ (heq ▸ hw))]
    rfl
  | some w =>
    obtain rfl := text_of_mountWord hw
    rcases hk with rfl | rfl <;> cases w <;> rfl

theorem reaction_eq_takes (hk : k = lock ∨ k = tcp) : k.reaction .nfsmount = k.takes := by
  funext opt
  have hword (w : MountWord) (heq : '=' ∈ opt) : opt ≠ w.text ∧ opt ≠ 'n' :: 'o' :: w.text := by
    constructor <;> rintro rfl <;> revert heq <;> cases w <;> decide
  have hreads : k.reads .nfsmount (stripNo opt).2 = k.asks := by rcases hk with rfl | rfl <;> rfl
  have hstrip : (∃ rest, opt = 'n' :: 'o' :: rest ∧ (stripNo opt).1 = rest) ∨
      (stripNo opt).1 = opt ∧ ∀ rest, opt ≠ 'n' :: 'o' :: rest := by
    unfold stripNo
    split
    next rest => exact .inl ⟨rest, rfl, rfl⟩
    next hno => exact .inr ⟨rfl, fun rest h => hno rest h⟩
  have hvalue (heq : '=' ∉ opt) :
      (optionValue "proto".toList opt <|> optionValue "mountproto".toList opt).bind protoOf = none := by
    rw [optionValue, if_neg fun h => heq h.1, optionValue, if_neg fun h => heq h.1]
    rfl
  simp only [reaction, hreads, bind_asks hk]
  rcases hk with rfl | rfl <;> simp only [takes]
  · split
    next heq =>
      rw [if_neg fun h => absurd h.2 (by decide), if_neg (not_or.mpr ⟨(hword .lock heq).1, (hword .nolock heq).1⟩),
        if_neg (hword .nolock heq).2]
    · rcases hstrip with ⟨rest, rfl, hrest⟩ | ⟨hsame, hno⟩
      · simp [hrest, MountWord.text]
      · simp [hsame, hno, MountWord.text]
  · generalize (optionValue "proto".toList opt <|> optionValue "mountproto".toList opt).bind protoOf = value at hvalue ⊢
    split
    next heq => rw [if_pos ⟨trivial, trivial⟩, if_neg (not_or.mpr (hword .tcp heq)), if_neg (not_or.mpr (hword .udp heq))]
    next heq =>
      rw [hvalue heq]
      rcases hstrip with ⟨rest, rfl, hrest⟩ | ⟨hsame, hno⟩
      · simp [hrest, MountWord.text]
      · simp [hsame, hno, MountWord.text]

theorem state_parse (hk : known h k) (opts : List Char) :
    k.state (h.parse opts) = get ((strtok opts).foldl (round h) {}) k := by
  cases h <;> simp only [MountHelper.parse, round] <;> generalize (strtok opts).foldl _ _ = o <;>
    obtain ⟨bg, soft, intr, nocto, noac, unshared, nonlm, useTcp⟩ := o <;> cases k <;>
      first | exact absurd hk (by decide) | (revert bg soft intr nocto noac unshared nonlm useTcp; decide +kernel)

theorem state_parse_iff (hk : known h k) (opts : List Char) :
    k.state (h.parse opts) = k.last k.demand opts ↔ k.last (k.reaction h) opts = k.last k.demand opts := by
  have hdefault : get {} k = k.default := by cases k <;> rfl
  rw [state_parse hk, get_foldl hk, hdefault]
  rfl

/-- Settings end as the last token naming them demands, with `nfsmount` exactly if those it takes for `lock` and `tcp`
    do. -/
theorem mount_option_polarity (h : MountHelper) (opts : List Char) :
    (∀ k, known h k → k.state (h.parse opts) = k.last k.demand opts) ↔
      (h = .nfsmount → ∀ k, k = lock ∨ k = tcp → k.last k.takes opts = k.last k.demand opts) := by
  constructor
  · rintro hall rfl k hk
    have hknown : known .nfsmount k := by rcases hk with rfl | rfl <;> rfl
    rw [← reaction_eq_takes hk]
    exact (state_parse_iff hknown opts).mp (hall k hknown)
  · intro hlast k hk
    rw [state_parse_iff hk]
    by_cases hl : h = .nfsmount ∧ (k = lock ∨ k = tcp)
    · obtain ⟨rfl, hl⟩ := hl
      rw [reaction_eq_takes hl]
      exact hlast rfl k hl
    · rw [reaction_eq_demand hk fun hn => not_or.mp fun hc => hl ⟨hn, hc⟩]

/-- `nolock` leaves remote locking on. -/
theorem mount_nolock_locks : lock.state (MountHelper.nfsmount.parse "nolock".toList) ∧
    lock.last lock.demand "nolock".toList = false :=
  ⟨rfl, rfl⟩

end MountSetting
end Mynfs
