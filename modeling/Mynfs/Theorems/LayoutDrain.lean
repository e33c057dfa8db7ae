import Mynfs.Layout.Drain
import Mynfs.Theorems.LayoutEdits

/-! A reply is dropped while the header drains, except if the first LAYOUTGET for a new stateid is under way. -/

namespace Mynfs

open List Option Machine

namespace LayoutHdr
variable {inv : Prop} {lo lo' lo'' : LayoutHdr}

/-- The LAYOUTGETs stay, but the header may drain. Unless `inv`, the stateid becomes invalid only while none is
    outstanding. -/
structure CallsKept (inv : Prop) (lo lo' : LayoutHdr) : Prop where
  outstanding : lo'.outstanding = lo.outstanding
  firstLayoutget : lo'.firstLayoutget = lo.firstLayoutget
  drain : lo.drain → lo'.drain
  invalidStid : lo'.invalidStid → lo.invalidStid ∨ lo.outstanding = 0 ∨ inv

theorem CallsKept.trans (h₁ : CallsKept inv lo lo') (h₂ : CallsKept inv lo' lo'') : CallsKept inv lo lo'' := by
  refine ⟨h₂.outstanding.trans h₁.outstanding, h₂.firstLayoutget.trans h₁.firstLayoutget, fun h => h₂.drain (h₁.drain h),
    fun h => ?_⟩
  rcases h₂.invalidStid h with h | h | h
  · exact h₁.invalidStid h
  · exact .inr (.inl (h₁.outstanding.symm.trans h))
  · exact .inr (.inr h)

end LayoutHdr

namespace LayoutSys
open LayoutHdr
variable {ld : LayoutDriver} {s t : LayoutSys} {e : LayoutEvent}

/-! ### The list of calls -/

section
variable {i : Nat} {call : LayoutgetCall}

theorem countP_putGet (call' : LayoutgetCall) (hget : s.gets[i]? = some call) :
    (s.putGet i call').countP (·.begun) + call.begun.toNat = s.gets.countP (·.begun) + call'.begun.toNat := by
  obtain ⟨hi, rfl⟩ := List.getElem?_eq_some_iff.mp hget
  have herase := (getElem_cons_eraseIdx_perm hi).countP_eq (·.begun)
  rw [countP_cons] at herase
  unfold putGet
  split
  · have hset := ((set_perm_cons_eraseIdx hi call').countP_eq (·.begun))
    rw [countP_cons] at hset
    rw [hset, ← herase]
    cases call'.begun <;> cases s.gets[i].begun <;> simp
  next hgone =>
    rw [← herase]
    cases hb : call'.begun with
    | true => simp [hb] at hgone
    | false => cases s.gets[i].begun <;> simp

def putMark (s : LayoutSys) (gets : List LayoutgetCall) (i : Nat) (stale : List Bool) : List Bool :=
  if gets.length < s.gets.length then stale.eraseIdx i else stale

theorem putMark_putGet {stale : List Bool} (call' : LayoutgetCall) (hlen : stale.length = s.gets.length) (hget : s.gets[i]? = some call) :
    (s.putMark (s.putGet i call') i stale).length = (s.putGet i call').length ∧
    ∀ (j : Nat) c b, (s.putGet i call')[j]? = some c → (s.putMark (s.putGet i call') i stale)[j]? = some b →
      (c = call' ∧ stale[i]? = some b) ∨ ∃ k, k ≠ i ∧ s.gets[k]? = some c ∧ stale[k]? = some b := by
  have hi := lt_of_getElem? hget
  unfold putMark putGet
  by_cases hkeep : (call'.first || call'.begun)
  · simp only [if_pos hkeep, length_set, lt_irrefl, if_false]
    refine ⟨hlen, fun j c b hc hb => ?_⟩
    by_cases hj : i = j
    · subst hj
      rw [getElem?_set_self hi] at hc
      exact .inl ⟨(some.inj hc).symm, hb⟩
    · rw [getElem?_set_ne hj] at hc
      exact .inr ⟨j, Ne.symm hj, hc, hb⟩
  · have hlt : (s.gets.eraseIdx i).length < s.gets.length := by
      rw [length_eraseIdx_of_lt hi]
      omega
    simp only [if_neg hkeep, if_pos hlt]
    refine ⟨?_, fun j c b hc hb => .inr ?_⟩
    · rw [length_eraseIdx_of_lt hi, length_eraseIdx_of_lt (by omega), hlen]
    · rw [getElem?_eraseIdx] at hc hb
      by_cases hj : j < i
      · rw [if_pos hj] at hc hb
        exact ⟨j, by omega, hc, hb⟩
      · rw [if_neg hj] at hc hb
        exact ⟨j + 1, by omega, hc, hb⟩

end

end LayoutSys

namespace LayoutDrain
open LayoutHdr LayoutSys
variable {ld : LayoutDriver} {s : LayoutDrain} {t : LayoutSys} {e : LayoutEvent}

/-- Nobody becomes the first LAYOUTGET while the header drains with calls outstanding, nothing outdates the stateid
    while a LAYOUTGET floats, and no drain begins while there is a first one with calls unanswered. -/
def Guarded (ld : LayoutDriver) (s : LayoutDrain) : LayoutDrainEvent → Prop
  | .layout e =>
    (e = .grabEmptyLayout → ¬(s.sys.lo.drain ∧ s.sys.lo.outstanding ≠ 0)) ∧
    (s.sys.outdates ld e → s.floating = []) ∧
    (s.sys.drains e → s.sys.lo.firstLayoutget →
      ∀ call ∈ s.sys.gets, call.begun → call.replied)
  | .floatingGrab _ => ¬(s.sys.lo.drain ∧ s.sys.lo.outstanding ≠ 0)
  | _ => True

instance (ld : LayoutDriver) (s : LayoutDrain) (e : LayoutDrainEvent) : Decidable (Guarded ld s e) :=
  match e with
  | .layout _ => inferInstanceAs (Decidable ((_ → _) ∧ (_ → _) ∧ (_ → _ → _)))
  | .floatingGrab _ => inferInstanceAs (Decidable (¬_))
  | .sendFloating => isTrue trivial
  | .floatingFails _ => isTrue trivial

/-- As long as a call with a mark is unanswered, the header drains and has no first LAYOUTGET. -/
structure Fenced (lo : LayoutHdr) (gets : List LayoutgetCall) (stale : List Bool) : Prop where
  length : stale.length = gets.length
  outstanding : lo.outstanding = gets.countP (·.begun)
  sent : ∀ (i : Nat) call, gets[i]? = some call → stale[i]? = some true → call.begun ∨ call.replied
  fenced : ∀ (i : Nat) call, gets[i]? = some call → stale[i]? = some true → call.begun → call.replied = false →
    lo.drain ∧ lo.firstLayoutget = false

section
variable {inv : Prop} {lo lo' : LayoutHdr} {gets : List LayoutgetCall} {stale : List Bool} {call : LayoutgetCall}

theorem Fenced.outstanding_ne_zero (h : Fenced lo gets stale) (hcall : call ∈ gets) (hbegun : call.begun) :
    lo.outstanding ≠ 0 := by
  rw [h.outstanding]
  exact (countP_pos_iff.mpr ⟨call, hcall, hbegun⟩).ne'

theorem Fenced.answered (h : Fenced lo gets stale) (hfree : ¬(lo.drain ∧ lo.outstanding ≠ 0)) {i : Nat}
    (hget : gets[i]? = some call) (hstale : stale[i]? = some true) (hbegun : call.begun) : call.replied := by
  cases hrep : call.replied with
  | true => rfl
  | false =>
    have hdrain := (h.fenced i call hget hstale hbegun hrep).1
    exact absurd ⟨hdrain, h.outstanding_ne_zero (mem_of_getElem? hget) hbegun⟩ hfree

theorem Fenced.append (h : Fenced lo gets stale) (hfree : ¬(lo.drain ∧ lo.outstanding ≠ 0))
    (hout : lo'.outstanding = lo.outstanding + call.begun.toNat) : Fenced lo' (gets ++ [call]) (stale ++ [false]) := by
  have hold : ∀ (i : Nat) c, (gets ++ [call])[i]? = some c → (stale ++ [false])[i]? = some true →
      gets[i]? = some c ∧ stale[i]? = some true := by
    intro i c hc hb
    by_cases hi : i < stale.length
    · rw [getElem?_append_left hi] at hb
      rw [getElem?_append_left (h.length ▸ hi)] at hc
      exact ⟨hc, hb⟩
    · rw [getElem?_append_right (by omega)] at hb
      cases hk : i - stale.length with
      | zero => simp [hk] at hb
      | succ k => simp [hk] at hb
  refine ⟨by simp [h.length], ?_, fun i c hc hb => ?_, fun i c hc hb hbegun hrep => ?_⟩
  · rw [hout, h.outstanding, countP_append]
    cases hb : call.begun <;> simp [hb]
  · exact h.sent i c (hold i c hc hb).1 (hold i c hc hb).2
  · obtain ⟨hget, hstale⟩ := hold i c hc hb
    rw [h.answered hfree hget hstale hbegun] at hrep
    cases hrep

theorem Fenced.put {s : LayoutSys} {call' : LayoutgetCall} {i : Nat} (h : Fenced s.lo s.gets stale)
    (hget : s.gets[i]? = some call) (hout : lo'.outstanding + call.begun.toNat = s.lo.outstanding + call'.begun.toNat)
    (hsent : call.begun ∨ call.replied → call'.begun ∨ call'.replied)
    (hself : stale[i]? = some true → call'.begun → call'.replied = false → lo'.drain ∧ lo'.firstLayoutget = false)
    (hothers : ∀ (k : Nat) c, k ≠ i → s.gets[k]? = some c → c.begun →
      s.lo.drain ∧ s.lo.firstLayoutget = false → lo'.drain ∧ lo'.firstLayoutget = false) :
    Fenced lo' (s.putGet i call') (s.putMark (s.putGet i call') i stale) := by
  obtain ⟨hlen, hmarks⟩ := putMark_putGet call' h.length hget
  refine ⟨hlen, ?_, fun j c hc hb => ?_, fun j c hc hb hbegun hrep => ?_⟩
  · have hcount := countP_putGet call' hget
    have hbefore := h.outstanding
    omega
  · rcases hmarks j c true hc hb with ⟨rfl, hstale⟩ | ⟨k, -, hk, hstale⟩
    · exact hsent (h.sent i call hget hstale)
    · exact h.sent k c hk hstale
  · rcases hmarks j c true hc hb with ⟨rfl, hstale⟩ | ⟨k, hne, hk, hstale⟩
    · exact hself hstale hbegun hrep
    · exact hothers k c hne hk hbegun (h.fenced k c hk hstale hbegun hrep)

variable (h : Fenced lo gets stale)
include h

theorem Fenced.drain (hkept : CallsKept inv lo lo') (hdrain : lo'.drain)
    (hguard : lo.firstLayoutget → ∀ call ∈ gets, call.begun → call.replied) :
    Fenced lo' gets (zipWith (fun b call => b || call.begun) stale gets) := by
  have hmark : ∀ (i : Nat) call, gets[i]? = some call →
      (zipWith (fun b (call : LayoutgetCall) => b || call.begun) stale gets)[i]? = some true →
      stale[i]? = some true ∨ call.begun := by
    intro i call hget hb
    rw [getElem?_zipWith, hget] at hb
    cases hs : stale[i]? with
    | none => simp [hs] at hb
    | some b =>
      simp only [hs, Option.some.injEq, Bool.or_eq_true] at hb
      exact hb.imp_left (congrArg some)
  refine ⟨by simp [h.length], hkept.outstanding.trans h.outstanding, fun i call hget hb => ?_,
    fun i call hget hb hbegun hrep => ⟨hdrain, ?_⟩⟩
  · rcases hmark i call hget hb with hstale | hbegun
    · exact h.sent i call hget hstale
    · exact .inl hbegun
  · rw [hkept.firstLayoutget]
    refine Bool.eq_false_iff.mpr fun hfirst => ?_
    rw [hguard hfirst call (mem_of_getElem? hget) hbegun] at hrep
    cases hrep

end

/-- No stale LAYOUTGET can be inserted. -/
structure Kept (s : LayoutDrain) : Prop where
  fenced : Fenced s.sys.lo s.sys.gets s.stale
  floating : ∀ b ∈ s.floating, b = false
  installed : s.installed = false

end LayoutDrain

end Mynfs
