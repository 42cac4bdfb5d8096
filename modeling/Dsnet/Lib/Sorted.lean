import Mathlib.Order.Lattice
import Mathlib.Data.List.Nodup
import Mathlib.Data.List.TakeWhile

/-! Lists in increasing order of a key: what is up to a bound comes first, and the last of that is the
    greatest. -/

namespace Dsnet

variable {α κ : Type} [LinearOrder κ] {f : α → κ} {l : List α}

/-- The list is in order of the keys `f`. -/
def InKeyOrder (f : α → κ) (l : List α) : Prop := l.Pairwise fun x y => f x < f y

namespace InKeyOrder

/-- What is in front of the first key above the bound. -/
theorem mem_takeWhile (hl : InKeyOrder f l) {b : κ} {x : α} :
    x ∈ l.takeWhile (f · ≤ b) ↔ x ∈ l ∧ f x ≤ b := by
  induction l with
  | nil => simp
  | cons y ys ih =>
    obtain ⟨hy, hys⟩ := List.pairwise_cons.mp hl
    by_cases hb : f y ≤ b
    · rw [List.takeWhile_cons_of_pos (by simpa using hb), List.mem_cons, List.mem_cons, ih hys]
      constructor
      · rintro (rfl | h)
        · exact ⟨Or.inl rfl, hb⟩
        · exact ⟨Or.inr h.1, h.2⟩
      · rintro ⟨rfl | h, hx⟩
        · exact Or.inl rfl
        · exact Or.inr ⟨h, hx⟩
    · rw [List.takeWhile_cons_of_neg (by simpa using hb)]
      simp only [List.not_mem_nil, List.mem_cons, false_iff, not_and, not_le]
      rintro (rfl | h)
      · exact not_le.mp hb
      · exact lt_trans (not_le.mp hb) (hy x h)

/-- What comes from there on. -/
theorem mem_dropWhile (hl : InKeyOrder f l) {b : κ} {x : α} :
    x ∈ l.dropWhile (f · ≤ b) ↔ x ∈ l ∧ b < f x := by
  induction l with
  | nil => simp
  | cons y ys ih =>
    obtain ⟨hy, hys⟩ := List.pairwise_cons.mp hl
    by_cases hb : f y ≤ b
    · rw [List.dropWhile_cons_of_pos (by simpa using hb), ih hys, List.mem_cons]
      constructor
      · exact fun h => ⟨Or.inr h.1, h.2⟩
      · rintro ⟨rfl | h, hx⟩
        · exact absurd hb (not_le.mpr hx)
        · exact ⟨h, hx⟩
    · rw [List.dropWhile_cons_of_neg (by simpa using hb)]
      refine ⟨fun h => ⟨h, ?_⟩, And.left⟩
      rcases List.mem_cons.mp h with rfl | h
      · exact not_le.mp hb
      · exact lt_trans (not_le.mp hb) (hy x h)

/-- Each key occurs once. -/
theorem eq_of_key (hl : InKeyOrder f l) {x y : α} (hx : x ∈ l) (hy : y ∈ l) (h : f x = f y) : x = y := by
  have hnodup : (l.map f).Nodup := List.pairwise_map.mpr (hl.imp fun hlt => hlt.ne)
  exact List.inj_on_of_nodup_map hnodup hx hy h

/-- The last has the greatest key. -/
theorem le_of_getLast? (hl : InKeyOrder f l) {x y : α} (hx : l.getLast? = some x) (hy : y ∈ l) :
    f y ≤ f x := by
  obtain ⟨before, rfl⟩ := List.getLast?_eq_some_iff.mp hx
  rcases List.mem_append.mp hy with hy | hy
  · exact ((List.pairwise_append.mp hl).2.2 y hy x (List.mem_singleton_self x)).le
  · rw [List.mem_singleton.mp hy]

/-- And is the only one that has it. -/
theorem getLast?_eq_some_iff (hl : InKeyOrder f l) {x : α} :
    l.getLast? = some x ↔ x ∈ l ∧ ∀ y ∈ l, f y ≤ f x := by
  refine ⟨fun hx => ⟨List.mem_of_getLast? hx, fun y => hl.le_of_getLast? hx⟩, ?_⟩
  rintro ⟨hx, hle⟩
  obtain ⟨z, hz⟩ := Option.ne_none_iff_exists'.mp fun hnone : l.getLast? = none =>
    List.ne_nil_of_mem hx (List.getLast?_eq_none_iff.mp hnone)
  have hmem := List.mem_of_getLast? hz
  rw [hz, hl.eq_of_key hmem hx (le_antisymm (hle z hmem) (hl.le_of_getLast? hz hx))]

/-- The first has the least. -/
theorem le_of_head? (hl : InKeyOrder f l) {x y : α} (hx : l.head? = some x) (hy : y ∈ l) : f x ≤ f y := by
  obtain ⟨rest, rfl⟩ := List.head?_eq_some_iff.mp hx
  rcases List.mem_cons.mp hy with rfl | hy
  · exact le_rfl
  · exact ((List.pairwise_cons.mp hl).1 y hy).le

theorem takeWhile (hl : InKeyOrder f l) (p : α → Bool) : InKeyOrder f (l.takeWhile p) :=
  hl.sublist (List.takeWhile_sublist p)

theorem dropWhile (hl : InKeyOrder f l) (p : α → Bool) : InKeyOrder f (l.dropWhile p) :=
  hl.sublist (List.dropWhile_sublist p)

end InKeyOrder
end Dsnet
