import Mathlib.Data.List.Nodup

/-! Nodes linked by a successor. Loops over a ring run until they see its head again, as long as they have fuel. -/

namespace Linked

variable {α σ : Type} {next next' : α → α} {p q : α} {xs ys : List α}

/-- The nodes from `p` on are `xs`, and then comes `q`. -/
def Seg (next : α → α) : α → List α → α → Prop
  | p, [], q => p = q
  | p, x :: xs, q => p = x ∧ Seg next (next x) xs q

theorem seg_append : ∀ {xs : List α} {p : α}, Seg next p (xs ++ ys) q ↔ ∃ r, Seg next p xs r ∧ Seg next r ys q
  | [], p => by simp [Seg]
  | x :: xs, p => by
    simp only [List.cons_append, Seg, seg_append]
    constructor
    · rintro ⟨rfl, r, hxs, hys⟩
      exact ⟨r, ⟨rfl, hxs⟩, hys⟩
    · rintro ⟨r, ⟨rfl, hxs⟩, hys⟩
      exact ⟨rfl, r, hxs, hys⟩

/-- Only the successors of the nodes themselves matter. -/
theorem Seg.congr : ∀ {xs : List α} {p : α}, Seg next p xs q → (∀ x ∈ xs, next' x = next x) → Seg next' p xs q
  | [], _, h, _ => h
  | x :: xs, _, ⟨hp, hxs⟩, hnext => by
    refine ⟨hp, ?_⟩
    rw [hnext x List.mem_cons_self]
    exact hxs.congr fun y hy => hnext y (List.mem_cons_of_mem x hy)

/-- The nodes `head :: tail` are linked one to the next, and the last one to the first. -/
structure Ring (next : α → α) (head : α) (tail : List α) : Prop where
  seg : Seg next (next head) tail head
  nodup : (head :: tail).Nodup

namespace Ring
variable {head new : α} {tail : List α}

theorem single (h : next head = head) : Ring next head [] := ⟨h, List.nodup_singleton head⟩

section
variable (h : Ring next head tail)
include h

theorem tail_ne : ∀ x ∈ tail, x ≠ head := fun _ hx heq =>
  (List.nodup_cons.mp h.nodup).1 (heq ▸ hx)

theorem congr (hnext : ∀ x ∈ head :: tail, next' x = next x) : Ring next' head tail := by
  refine ⟨?_, h.nodup⟩
  rw [hnext head List.mem_cons_self]
  exact h.seg.congr fun x hx => hnext x (List.mem_cons_of_mem head hx)

theorem next_getLast : next ((head :: tail).getLast (List.cons_ne_nil _ _)) = head := by
  have hseg : Seg next head (head :: tail) head := ⟨rfl, h.seg⟩
  rw [← List.dropLast_append_getLast (List.cons_ne_nil head tail), seg_append] at hseg
  obtain ⟨r, -, hr, hlast⟩ := hseg
  exact hlast

theorem insert [DecidableEq α] (hnew : new ∉ head :: tail)
    (hlast : next' ((head :: tail).getLast (List.cons_ne_nil _ _)) = new) (hhead : next' new = head)
    (hothers : ∀ x ∈ (head :: tail).dropLast, next' x = next x) : Ring next' head (tail ++ [new]) := by
  have hseg : Seg next head (head :: tail) head := ⟨rfl, h.seg⟩
  rw [← List.dropLast_append_getLast (List.cons_ne_nil head tail), seg_append] at hseg
  obtain ⟨r, hinit, hr, -⟩ := hseg
  have hall : Seg next' head ((head :: tail) ++ [new]) head := by
    rw [← List.dropLast_append_getLast (List.cons_ne_nil head tail), List.append_assoc, seg_append]
    exact ⟨r, hinit.congr hothers, hr, hlast, hhead⟩
  refine ⟨hall.2, ?_⟩
  rw [← List.cons_append, List.nodup_append]
  refine ⟨h.nodup, List.nodup_singleton new, fun x hx y hy => ?_⟩
  rw [List.mem_singleton.mp hy]
  rintro rfl
  exact hnew hx

end

end Ring

section
variable [DecidableEq α] {stop : α} {fuel : Nat}

/-- `for (; p != stop; p = next(p)) s = body(s, p);` -/
def forEach (next : α → α) (stop : α) (body : σ → α → σ) : Nat → α → σ → Option σ
  | 0, _, _ => none
  | fuel + 1, p, s => if p = stop then some s else forEach next stop body fuel (next p) (body s p)

theorem forEach_eq {body : σ → α → σ} {s : σ} (h : Seg next p xs stop) (hne : ∀ x ∈ xs, x ≠ stop)
    (hfuel : xs.length < fuel) : forEach next stop body fuel p s = some (xs.foldl body s) := by
  induction fuel generalizing p s xs with
  | zero => exact absurd hfuel (Nat.not_lt_zero _)
  | succ fuel ih =>
    cases xs with
    | nil => simp [forEach, show p = stop from h]
    | cons x xs =>
      obtain ⟨rfl, hxs⟩ := h
      rw [forEach, if_neg (hne p List.mem_cons_self), List.foldl_cons]
      exact ih hxs (fun y hy => hne y (List.mem_cons_of_mem p hy)) (Nat.lt_of_succ_lt_succ hfuel)

/-- `do { if (test(p)) return p; p = next(p); } while (p != stop);` -/
def search (next : α → α) (stop : α) (test : α → Bool) : Nat → α → Option (Option α)
  | 0, _ => none
  | fuel + 1, p =>
    if test p then some (some p)
    else if next p = stop then some none
    else search next stop test fuel (next p)

theorem search_eq {test : α → Bool} (h : Seg next (next p) xs stop) (hne : ∀ x ∈ xs, x ≠ stop)
    (hfuel : xs.length < fuel) : search next stop test fuel p = some ((p :: xs).find? test) := by
  induction fuel generalizing p xs with
  | zero => exact absurd hfuel (Nat.not_lt_zero _)
  | succ fuel ih =>
    rw [search, List.find?_cons]
    cases htest : test p with
    | true => rfl
    | false =>
      cases xs with
      | nil => simp [show next p = stop from h]
      | cons x xs =>
        obtain ⟨hx, hxs⟩ := h
        have hnext : next p ≠ stop := hx ▸ hne x List.mem_cons_self
        simp only [Bool.false_eq_true, if_false, if_neg hnext]
        rw [hx]
        exact ih hxs (fun y hy => hne y (List.mem_cons_of_mem x hy)) (Nat.lt_of_succ_lt_succ hfuel)

/-- `for (; next(p) != stop; p = next(p));` -/
def last (next : α → α) (stop : α) : Nat → α → Option α
  | 0, _ => none
  | fuel + 1, p => if next p = stop then some p else last next stop fuel (next p)

theorem last_eq (h : Seg next (next p) xs stop) (hne : ∀ x ∈ xs, x ≠ stop) (hfuel : xs.length < fuel) :
    last next stop fuel p = some ((p :: xs).getLast (List.cons_ne_nil _ _)) := by
  induction fuel generalizing p xs with
  | zero => exact absurd hfuel (Nat.not_lt_zero _)
  | succ fuel ih =>
    cases xs with
    | nil => simp [last, show next p = stop from h]
    | cons x xs =>
      obtain ⟨hx, hxs⟩ := h
      have hnext : next p ≠ stop := hx ▸ hne x List.mem_cons_self
      rw [last, if_neg hnext, hx, List.getLast_cons (List.cons_ne_nil x xs)]
      exact ih hxs (fun y hy => hne y (List.mem_cons_of_mem x hy)) (Nat.lt_of_succ_lt_succ hfuel)

end

end Linked
