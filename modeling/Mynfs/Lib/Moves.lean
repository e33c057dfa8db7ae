import Mathlib.Data.List.Basic
import Mathlib.Tactic

/-! Placing pieces of a memory in place, the last one first. If none lands on a source still needed, all arrive
    (`placeAll_at`). -/

namespace Moves

section
variable {β : Type}

def fill (blank : β) (pos len : Nat) (mem : Nat → β) : Nat → β :=
  fun x => if pos ≤ x ∧ x < pos + len then blank else mem x

def move (src pos len : Nat) (mem : Nat → β) : Nat → β :=
  fun x => if pos ≤ x ∧ x < pos + len then mem (src + (x - pos)) else mem x

/-- A region to be placed: moved from `src`, or filled. -/
structure Piece where
  src : Option Nat
  pos : Nat
  len : Nat
deriving DecidableEq

namespace Piece
variable (p : Piece)

def At (x : Nat) : Prop := p.pos ≤ x ∧ x < p.pos + p.len

def From (x : Nat) : Prop := ∃ src, p.src = some src ∧ src ≤ x ∧ x < src + p.len

def place (blank : β) (mem : Nat → β) : Nat → β :=
  match p.src with
  | some src => move src p.pos p.len mem
  | none => fill blank p.pos p.len mem

/-- What the piece brings to a position. -/
def value (blank : β) (mem : Nat → β) (x : Nat) : β :=
  match p.src with
  | some src => mem (src + (x - p.pos))
  | none => blank

theorem place_of_not_at {p : Piece} (blank : β) (mem : Nat → β) {x : Nat} (h : ¬p.At x) : p.place blank mem x = mem x := by
  obtain ⟨src | src, pos, len⟩ := p
  · exact if_neg h
  · exact if_neg h

theorem place_of_at {p : Piece} (blank : β) (mem : Nat → β) {x : Nat} (h : p.At x) :
    p.place blank mem x = p.value blank mem x := by
  obtain ⟨src | src, pos, len⟩ := p
  · exact if_pos h
  · exact if_pos h

theorem value_congr {p : Piece} (blank : β) {mem mem' : Nat → β} {x : Nat} (hx : p.At x)
    (h : ∀ y, p.From y → mem' y = mem y) : p.value blank mem' x = p.value blank mem x := by
  unfold value
  cases hsrc : p.src with
  | none => rfl
  | some src =>
    obtain ⟨hlo, hhi⟩ := hx
    exact h _ ⟨src, hsrc, Nat.le_add_right _ _, by omega⟩

end Piece

def placeAll (blank : β) (ps : List Piece) (mem : Nat → β) : Nat → β := ps.foldr (fun p => p.place blank) mem

theorem placeAll_of_not_at (blank : β) {x : Nat} (mem : Nat → β) :
    ∀ {ps : List Piece}, (∀ p ∈ ps, ¬p.At x) → placeAll blank ps mem x = mem x
  | [], _ => rfl
  | p :: ps, h => by
    have hrest := placeAll_of_not_at blank mem fun q hq => h q (List.mem_cons_of_mem p hq)
    exact (Piece.place_of_not_at blank _ (h p List.mem_cons_self)).trans hrest

/-- The second piece lands neither on the first one nor on what the first one is moved from. -/
def Clear (p q : Piece) : Prop := ∀ x, q.At x → ¬p.At x ∧ ¬p.From x

theorem placeAll_at (blank : β) (mem : Nat → β) {x : Nat} :
    ∀ {ps : List Piece}, ps.Pairwise Clear → ∀ p ∈ ps, p.At x → placeAll blank ps mem x = p.value blank mem x
  | q :: ps, h, p, hp, hx => by
    obtain ⟨hclear, hrest⟩ := List.pairwise_cons.mp h
    rcases List.mem_cons.mp hp with rfl | hp
    · -- the source of the piece is still what it was
      refine (Piece.place_of_at blank _ hx).trans (Piece.value_congr blank hx fun y hy => ?_)
      exact placeAll_of_not_at blank mem fun q hq hat => (hclear q hq y hat).2 hy
    · have hnot := (hclear p hp x hx).1
      exact (Piece.place_of_not_at blank _ hnot).trans (placeAll_at blank mem hrest p hp hx)

/-- If all that is moved is blank, then blanks are placed. -/
theorem placeAll_of_blank {blank : β} {mem : Nat → β} {x : Nat} :
    ∀ {ps : List Piece}, (∀ p ∈ ps, ∀ y, p.From y → mem y = blank) → (∃ p ∈ ps, p.At x) → placeAll blank ps mem x = blank
  | q :: ps, h, hx => by
    have hps : ∀ p ∈ ps, ∀ y, p.From y → mem y = blank := fun p hp => h p (List.mem_cons_of_mem q hp)
    by_cases hq : q.At x
    · refine (Piece.place_of_at blank _ hq).trans ?_
      unfold Piece.value
      cases hsrc : q.src with
      | none => rfl
      | some src =>
        obtain ⟨hlo, hhi⟩ := hq
        have hfrom : q.From (src + (x - q.pos)) := ⟨src, hsrc, Nat.le_add_right _ _, by omega⟩
        by_cases hat : ∃ p ∈ ps, p.At (src + (x - q.pos))
        · exact placeAll_of_blank hps hat
        · have hsame := placeAll_of_not_at blank mem fun p hp hp' => hat ⟨p, hp, hp'⟩
          exact hsame.trans (h q List.mem_cons_self _ hfrom)
    · obtain ⟨p, hp, hat⟩ := hx
      have hmem := (List.mem_cons.mp hp).resolve_left fun heq => hq (heq ▸ hat)
      exact (Piece.place_of_not_at blank _ hq).trans (placeAll_of_blank hps ⟨p, hmem, hat⟩)

theorem placeAll_append (blank : β) (ps qs : List Piece) (mem : Nat → β) :
    placeAll blank (ps ++ qs) mem = placeAll blank ps (placeAll blank qs mem) := List.foldr_append

/-- What the first pieces would move is lost if the other ones land on all of it that is not blank. -/
theorem placeAll_lost {blank : β} {mem : Nat → β} {x : Nat} {ps qs : List Piece} (hqs : ∀ q ∈ qs, ∀ y, q.From y → mem y = blank)
    (hps : ∀ p ∈ ps, ∀ y, p.From y → mem y = blank ∨ ∃ q ∈ qs, q.At y) (hx : ∃ p ∈ ps, p.At x) :
    placeAll blank (ps ++ qs) mem x = blank := by
  rw [placeAll_append]
  refine placeAll_of_blank (fun p hp y hy => ?_) hx
  by_cases hat : ∃ q ∈ qs, q.At y
  · exact placeAll_of_blank hqs hat
  · rw [placeAll_of_not_at blank mem fun q hq hq' => hat ⟨q, hq, hq'⟩]
    exact (hps p hp y hy).resolve_right hat

end

end Moves
