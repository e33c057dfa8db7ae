import Mathlib.Data.List.Count
import Mathlib.Tactic

/-! Directed edges. The balance of a vertex is its out-degree minus its in-degree; joining edges that meet keeps it. -/

namespace Edges

variable {V : Type} {es fs : List (V × V)}

/-- No edge ends where an edge starts. -/
def Unchained (es : List (V × V)) : Prop := ∀ e ∈ es, ∀ f ∈ es, e.2 ≠ f.1

theorem Unchained.mono (h : Unchained fs) (hsub : es ⊆ fs) : Unchained es :=
  fun e he f hf => h e (hsub he) f (hsub hf)

theorem unchained_nil : Unchained ([] : List (V × V)) := fun _ h => by simp at h

theorem unchained_concat {a b : V} (h : Unchained es) (hab : a ≠ b)
    (hb : ∀ e ∈ es, b ≠ e.1) (ha : ∀ e ∈ es, a ≠ e.2) : Unchained (es ++ [(a, b)]) := by
  intro e he f hf
  rcases List.mem_append.mp he with he | he
  · rcases List.mem_append.mp hf with hf | hf
    · exact h e he f hf
    · obtain rfl := List.mem_singleton.mp hf
      exact fun heq => ha e he heq.symm
  · obtain rfl := List.mem_singleton.mp he
    rcases List.mem_append.mp hf with hf | hf
    · exact hb f hf
    · obtain rfl := List.mem_singleton.mp hf
      exact hab.symm

variable [DecidableEq V]

def edgeBalance (e : V × V) (v : V) : Int := (if e.1 = v then 1 else 0) - if e.2 = v then 1 else 0

def balance (es : List (V × V)) (v : V) : Int := (es.map fun e => edgeBalance e v).sum

@[simp] theorem balance_nil (v : V) : balance [] v = 0 := rfl

@[simp] theorem balance_cons (e : V × V) (es : List (V × V)) (v : V) : balance (e :: es) v = edgeBalance e v + balance es v := by
  simp [balance]

@[simp] theorem balance_append (es fs : List (V × V)) (v : V) : balance (es ++ fs) v = balance es v + balance fs v := by
  simp [balance]

theorem balance_perm (h : es.Perm fs) (v : V) : balance es v = balance fs v :=
  (h.map fun e => edgeBalance e v).sum_eq

theorem edgeBalance_join (a b c v : V) : edgeBalance (a, b) v + edgeBalance (b, c) v = edgeBalance (a, c) v := by
  simp only [edgeBalance]
  omega

theorem edgeBalance_self (a v : V) : edgeBalance (a, a) v = 0 := by simp [edgeBalance]

/-- Sources have a surplus if no edge ends where another starts. -/
theorem balance_pos (h : Unchained es) {e : V × V} (he : e ∈ es) : 0 < balance es e.1 := by
  have hterm : ∀ f ∈ es, 0 ≤ edgeBalance f e.1 := fun f hf => by
    have hne : f.2 ≠ e.1 := h f hf e he
    simp only [edgeBalance, hne]
    split <;> simp
  have hself : edgeBalance e e.1 = 1 := by simp [edgeBalance, h e he e he]
  obtain ⟨l, r, rfl⟩ := List.append_of_mem he
  have hl : 0 ≤ balance l e.1 := List.sum_nonneg fun x hx => by
    obtain ⟨f, hf, rfl⟩ := List.mem_map.mp hx
    exact hterm f (by simp [hf])
  have hr : 0 ≤ balance r e.1 := List.sum_nonneg fun x hx => by
    obtain ⟨f, hf, rfl⟩ := List.mem_map.mp hx
    exact hterm f (by simp [hf])
  rw [balance_append, balance_cons, hself]
  omega

/-- An unchained list with balance zero everywhere is empty. -/
theorem eq_nil_of_balance (h : Unchained es) (hb : ∀ v, balance es v = 0) : es = [] := by
  cases es with
  | nil => rfl
  | cons e es =>
    have hpos := balance_pos h List.mem_cons_self
    rw [hb] at hpos
    exact absurd hpos (lt_irrefl 0)

end Edges
