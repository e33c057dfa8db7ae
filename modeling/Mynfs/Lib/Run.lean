import Mathlib.Data.List.Basic
import Mathlib.Data.List.Infix
import Mathlib.Order.WellFounded

/-! Runs of a machine given by a partial step function on labels. All rests on `exec_invariant_where` and
    `exec_simulation_of`. -/

namespace Machine

variable {σ τ α : Type} {step : σ → α → Option σ} {Q Q' : σ → α → Prop} {I : σ → Prop} {s : σ}

/-- Run the labels in order; `none` as soon as one is not enabled. -/
def exec (step : σ → α → Option σ) : σ → List α → Option σ
  | s, [] => some s
  | s, a :: as => (step s a).bind fun t => exec step t as

/-- `P` holds in every state that a run of `as` from `s` passes, both ends included. -/
def Always (step : σ → α → Option σ) (P : σ → Prop) (s : σ) (as : List α) : Prop :=
  ∀ pre t, pre <+: as → exec step s pre = some t → P t

section
variable {t u : σ} {a : α} {as bs : List α} {p : Prop} {x : Option σ} {P C : σ → Prop} {L : α → Prop}

/-! How a step is taken apart that is enabled under a condition. -/

theorem of_guard [Decidable p] (h : (if p then x else none) = some t) : p ∧ x = some t :=
  Option.ite_none_right_eq_some.mp h

theorem of_guard_some [Decidable p] (h : (if p then some s else none) = some t) : p ∧ s = t :=
  (of_guard h).imp_right Option.some.inj

theorem of_unless [Decidable p] (h : (if p then none else x) = some t) : ¬ p ∧ x = some t :=
  Option.ite_none_left_eq_some.mp h

theorem of_unless_some [Decidable p] (h : (if p then none else some s) = some t) : ¬ p ∧ s = t :=
  (of_unless h).imp_right Option.some.inj

theorem of_bind_guard {o : Option α} {p : α → Prop} [DecidablePred p] {f : α → σ}
    (h : (o.bind fun a => if p a then some (f a) else none) = some t) : ∃ a, o = some a ∧ p a ∧ f a = t := by
  obtain ⟨a, ha, h⟩ := Option.bind_eq_some_iff.mp h
  exact ⟨a, ha, of_guard_some h⟩

theorem lt_of_getElem? {i : Nat} {l : List σ} (h : l[i]? = some s) : i < l.length := (List.getElem?_eq_some_iff.mp h).1

/-- A closed run is executed up to a state with a decidable property. -/
theorem exists_exec [DecidablePred P] (h : (exec step s as).any fun t => P t) (hend : ∀ t, exec step s as = some t → P t → C t) :
    ∃ t, exec step s as = some t ∧ C t := by
  obtain ⟨t, ht, hp⟩ := Option.any_eq_true _ _ |>.mp h
  exact ⟨t, ht, hend t ht (of_decide_eq_true hp)⟩

@[simp] theorem exec_nil : exec step s [] = some s := rfl

theorem exec_cons_iff : exec step s (a :: as) = some u ↔ ∃ t, step s a = some t ∧ exec step t as = some u := by
  simp only [exec, Option.bind_eq_some_iff]

theorem exec_append_iff : ∀ {as : List α} {s : σ}, exec step s (as ++ bs) = some u ↔
    ∃ t, exec step s as = some t ∧ exec step t bs = some u
  | [], s => by simp
  | a :: as, s => by
    simp only [List.cons_append, exec_cons_iff, exec_append_iff]
    constructor
    · rintro ⟨t, ht, v, hv, hu⟩
      exact ⟨v, ⟨t, ht, hv⟩, hu⟩
    · rintro ⟨v, ⟨t, ht, hv⟩, hu⟩
      exact ⟨t, ht, v, hv, hu⟩

@[simp] theorem exec_singleton : exec step s [a] = step s a := by
  cases h : step s a <;> simp [exec, h]

theorem exec_concat_iff : exec step s (as ++ [a]) = some u ↔ ∃ t, exec step s as = some t ∧ step t a = some u := by
  simp only [exec_append_iff, exec_singleton]

theorem Always.head (h : Always step P s as) : P s :=
  h [] s List.nil_prefix rfl

theorem Always.tail (h : Always step P s (a :: as)) (hs : step s a = some t) : Always step P t as := fun pre u hpre hu =>
  h (a :: pre) u (List.cons_prefix_cons.mpr ⟨rfl, hpre⟩) (exec_cons_iff.mpr ⟨t, hs, hu⟩)

theorem Always.after (h : Always step P s (as ++ bs)) (ht : exec step s as = some t) : Always step P t bs := fun pre u hpre hu =>
  h (as ++ pre) u ((List.prefix_append_right_inj as).mpr hpre) (exec_append_iff.mpr ⟨t, ht, hu⟩)

theorem Always.prefix_of (h : Always step P s as) (hpre : bs <+: as) : Always step P s bs :=
  fun pre t hp ht => h pre t (hp.trans hpre) ht

theorem always_nil_iff : Always step P s [] ↔ P s := by
  refine ⟨Always.head, fun hp pre t hpre ht => ?_⟩
  obtain rfl := List.prefix_nil.mp hpre
  cases ht
  exact hp

theorem always_cons_iff : Always step P s (a :: as) ↔ P s ∧ ∀ t, step s a = some t → Always step P t as := by
  refine ⟨fun h => ⟨h.head, fun t => h.tail⟩, fun ⟨hp, h⟩ pre u hpre hu => ?_⟩
  rcases List.prefix_cons_iff.mp hpre with rfl | ⟨bs, rfl, hbs⟩
  · cases hu
    exact hp
  · obtain ⟨t, hs, ht⟩ := exec_cons_iff.mp hu
    exact h t hs bs u hbs ht

/-- A run on given labels can be checked by running it. -/
instance decidableAlways {P : σ → Prop} [DecidablePred P] : ∀ (s : σ) (as : List α), Decidable (Always step P s as)
  | s, [] => decidable_of_iff (P s) always_nil_iff.symm
  | s, a :: as =>
    match h : step s a with
    | none => decidable_of_iff (P s) (by simp [always_cons_iff, h])
    | some t =>
      have : Decidable (Always step P t as) := decidableAlways t as
      decidable_of_iff (P s ∧ Always step P t as) (by simp [always_cons_iff, h])

theorem always_true (s : σ) (as : List α) : Always step (fun _ => True) s as := fun _ _ _ _ => trivial

/-- An invariant of the steps taken under `C`, with labels in `L`, holds at the end of a run that stays in them. -/
theorem exec_invariant_where (hstep : ∀ s a t, C s → L a → I s → step s a = some t → I t) :
    ∀ {as : List α} {s u : σ}, Always step C s as → (∀ a ∈ as, L a) → I s → exec step s as = some u → I u
  | [], s, u, _, _, hi, hu => by
    obtain rfl : s = u := Option.some.inj hu
    exact hi
  | a :: as, s, u, hc, hl, hi, hu => by
    obtain ⟨t, hs, ht⟩ := exec_cons_iff.mp hu
    exact exec_invariant_where hstep (hc.tail hs) (fun b hb => hl b (List.mem_cons_of_mem a hb))
      (hstep s a t hc.head (hl a List.mem_cons_self) hi hs) ht

theorem exec_invariant_of (hstep : ∀ s a t, C s → I s → step s a = some t → I t)
    (hc : Always step C s as) (hi : I s) (hu : exec step s as = some u) : I u :=
  exec_invariant_where (L := fun _ => True) (fun s a t hc _ => hstep s a t hc) hc (fun _ _ => trivial) hi hu

theorem exec_invariant (hstep : ∀ s a t, I s → step s a = some t → I t) (hi : I s) (hu : exec step s as = some u) : I u :=
  exec_invariant_of (fun s a t _ => hstep s a t) (always_true s as) hi hu

theorem exec_invariant_labels (hstep : ∀ s a t, L a → I s → step s a = some t → I t) (hl : ∀ a ∈ as, L a) (hi : I s)
    (hu : exec step s as = some u) : I u :=
  exec_invariant_where (fun s a t _ => hstep s a t) (always_true s as) hl hi hu

end

/-- `Q` holds of every state that a run passes together with the label taken there. -/
def Along (step : σ → α → Option σ) (Q : σ → α → Prop) : σ → List α → Prop
  | _, [] => True
  | s, a :: as => Q s a ∧ ∀ t, step s a = some t → Along step Q t as

instance decidableAlong {step : σ → α → Option σ} {Q : σ → α → Prop} [∀ s a, Decidable (Q s a)] :
    ∀ (s : σ) (as : List α), Decidable (Along step Q s as)
  | _, [] => .isTrue trivial
  | s, a :: as =>
    match h : step s a with
    | none => decidable_of_iff (Q s a) (by simp [Along, h])
    | some t =>
      have : Decidable (Along step Q t as) := decidableAlong t as
      decidable_of_iff (Q s a ∧ Along step Q t as) (by simp [Along, h])

theorem Along.and : ∀ {as : List α} {s : σ}, Along step Q s as → Along step Q' s as → Along step (fun s a => Q s a ∧ Q' s a) s as
  | [], _, _, _ => trivial
  | _ :: _, _, h, h' => ⟨⟨h.1, h'.1⟩, fun t ht => (h.2 t ht).and (h'.2 t ht)⟩

/-- If `Q` says exactly whether `P` survives a step, then `P` holds all along a run exactly if every step meets `Q`. -/
theorem always_iff_along {P : σ → Prop} (hstep : ∀ s a t, I s → P s → step s a = some t → I t ∧ (P t ↔ Q s a)) :
    ∀ {as : List α} {s u : σ}, I s → P s → exec step s as = some u → (Always step P s as ↔ Along step Q s as)
  | [], s, u, _, hp, _ => iff_of_true (always_nil_iff.mpr hp) trivial
  | a :: as, s, u, hi, hp, hu => by
    obtain ⟨t, hs, ht⟩ := exec_cons_iff.mp hu
    obtain ⟨hi', hiff⟩ := hstep s a t hi hp hs
    rw [always_cons_iff]
    constructor
    · rintro ⟨-, h⟩
      have htail := h t hs
      refine ⟨hiff.mp htail.head, fun t' ht' => ?_⟩
      cases hs.symm.trans ht'
      exact (always_iff_along hstep hi' htail.head ht).mp htail
    · rintro ⟨hq, h⟩
      refine ⟨hp, fun t' ht' => ?_⟩
      cases hs.symm.trans ht'
      exact (always_iff_along hstep hi' (hiff.mpr hq) ht).mpr (h t hs)

/-- An invariant of the steps that meet `Q` holds at the end of a run that meets `Q` all along. -/
theorem exec_invariant_along (hstep : ∀ s a t, Q s a → I s → step s a = some t → I t) :
    ∀ {as : List α} {s u : σ}, Along step Q s as → I s → exec step s as = some u → I u
  | [], s, u, _, hi, hu => by
    obtain rfl : s = u := Option.some.inj hu
    exact hi
  | a :: as, s, u, hq, hi, hu => by
    obtain ⟨t, hs, ht⟩ := exec_cons_iff.mp hu
    exact exec_invariant_along hstep (hq.2 t hs) (hstep s a t hq.1 hi hs) ht

/-- If steps with labels in `L` are enabled and lead to `D` or to a smaller measure, a run with such labels gets to `D`. -/
theorem exec_until {μ : Type} [LT μ] [WellFoundedLT μ] {L : α → Prop} {M : σ → μ → Prop} {D : σ → Prop}
    (hstep : ∀ s w a, L a → M s w → ∃ t, step s a = some t ∧ (D t ∨ ∃ w', w' < w ∧ M t w')) {w : μ} (h : M s w)
    (f : Nat → α) (hf : ∀ i, L (f i)) : ∃ n t, exec step s ((List.range n).map f) = some t ∧ D t := by
  induction w using WellFoundedLT.induction generalizing s f with
  | ind w ih =>
    obtain ⟨t, ht, hd | ⟨w', hlt, hw'⟩⟩ := hstep s w (f 0) (hf 0) h
    · exact ⟨1, t, by simpa using ht, hd⟩
    · obtain ⟨n, u, hu, hd⟩ := ih w' hlt hw' (fun i => f (i + 1)) fun i => hf (i + 1)
      refine ⟨n + 1, u, ?_, hd⟩
      rw [List.range_succ_eq_map, List.map_cons, List.map_map]
      exact exec_cons_iff.mpr ⟨t, ht, hu⟩

section
variable {step' : τ → α → Option τ}

/-- A simulation kept by the steps under `C` (a condition on the simulating state) carries a run over. -/
theorem exec_simulation_of {C : τ → Prop} {R : σ → τ → Prop}
    (hstep : ∀ s c a t, C c → R s c → step s a = some t → ∃ d, step' c a = some d ∧ R t d) :
    ∀ {as : List α} {s u : σ} {c : τ}, Always step' C c as → R s c → exec step s as = some u →
      ∃ d, exec step' c as = some d ∧ R u d
  | [], s, u, c, _, hr, hu => by
    obtain rfl : s = u := Option.some.inj hu
    exact ⟨c, rfl, hr⟩
  | a :: as, s, u, c, hc, hr, hu => by
    obtain ⟨t, hs, ht⟩ := exec_cons_iff.mp hu
    obtain ⟨d, hd, hrd⟩ := hstep s c a t hc.head hr hs
    obtain ⟨e, he, hre⟩ := exec_simulation_of hstep (hc.tail hd) hrd ht
    exact ⟨e, exec_cons_iff.mpr ⟨d, hd, he⟩, hre⟩

end

end Machine
