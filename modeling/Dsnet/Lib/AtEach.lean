import Mathlib.Tactic.Common

/-! What holds at each place of a list, of the element there and of those before it. -/

namespace Dsnet

variable {α : Type} {P Q : List α → α → Prop}

/-- `P` holds of each element, given what stands before it. -/
def AtEach (P : List α → α → Prop) (l : List α) : Prop :=
  ∀ before x rest, l = before ++ x :: rest → P before x

theorem atEach_nil : AtEach P [] := fun _ _ _ h => by simp at h

/-- What holds at each place of a list holds up to an element. -/
theorem AtEach.upTo {l before rest : List α} {x : α} (h : AtEach P l) (hl : l = before ++ x :: rest) :
    AtEach P (before ++ [x]) := by
  intro before' y rest' heq
  refine h before' y (rest' ++ rest) ?_
  rw [hl, ← List.singleton_append, ← List.append_assoc, heq, List.append_assoc, List.cons_append]

/-- An element is added at the end. -/
@[simp] theorem atEach_concat {l : List α} {x : α} : AtEach P (l ++ [x]) ↔ AtEach P l ∧ P l x := by
  constructor
  · intro h
    refine ⟨fun before y rest hl => h before y (rest ++ [x]) ?_, h l x [] rfl⟩
    rw [hl, List.append_assoc, List.cons_append]
  · rintro ⟨hl, hx⟩ before y rest heq
    rcases List.eq_nil_or_concat rest with rfl | ⟨rest, z, rfl⟩
    · obtain ⟨rfl, hy⟩ := List.append_inj' heq rfl
      obtain rfl : x = y := List.singleton_inj.mp hy
      exact hx
    · rw [List.concat_eq_append, ← List.cons_append, ← List.append_assoc] at heq
      obtain ⟨rfl, _⟩ := List.append_inj' heq rfl
      exact hl before y rest rfl

end Dsnet
