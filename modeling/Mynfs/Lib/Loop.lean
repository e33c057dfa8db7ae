import Mathlib.Order.Basic

/-! Loops without a bound: a measure bounds the iterations (`run_of_measure`), an invariant excludes a bound (`run_none`). -/

namespace Loop
variable {σ ρ : Type}

/-- What an iteration ends with. -/
inductive Next (σ ρ : Type)
  | again (s : σ)
  | done (r : ρ)
deriving DecidableEq

/-- The result of the loop if it ends within `fuel` iterations. -/
def run (body : σ → Next σ ρ) : Nat → σ → Option ρ
  | 0, _ => none
  | fuel + 1, s =>
    match body s with
    | .again s' => run body fuel s'
    | .done r => some r

variable {body : σ → Next σ ρ} {fuel : Nat} {s s' : σ} {r : ρ}

theorem run_of_done (h : body s = .done r) : run body (fuel + 1) s = some r := by
  rw [run, h]

theorem run_of_again (h : body s = .again s') : run body (fuel + 1) s = run body fuel s' := by
  rw [run, h]

variable {I : σ → Prop}

/-- A loop ends if every iteration ends it or lowers the measure. -/
theorem run_of_measure {Q : ρ → Prop} {μ : σ → Nat}
    (h : ∀ s, I s → (∃ r, body s = .done r ∧ Q r) ∨ ∃ s', body s = .again s' ∧ I s' ∧ μ s' < μ s) :
    ∀ {n : Nat} {s : σ}, I s → μ s < n → ∃ r, run body n s = some r ∧ Q r
  | 0, s, _, hlt => absurd hlt (Nat.not_lt_zero _)
  | n + 1, s, hs, hlt => by
    rcases h s hs with ⟨r, hbody, hr⟩ | ⟨s', hbody, hs', hless⟩
    · exact ⟨r, run_of_done hbody, hr⟩
    · rw [run_of_again hbody]
      exact run_of_measure h hs' (Nat.lt_of_lt_of_le hless (Nat.le_of_lt_succ hlt))

/-- A loop does not end if no iteration ends it. -/
theorem run_none (h : ∀ s, I s → ∃ s', body s = .again s' ∧ I s') : ∀ {n : Nat} {s : σ}, I s → run body n s = none
  | 0, _, _ => rfl
  | n + 1, s, hs => by
    obtain ⟨s', hbody, hs'⟩ := h s hs
    rw [run_of_again hbody]
    exact run_none h hs'

end Loop
