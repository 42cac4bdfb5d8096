import Mathlib.Algebra.Order.Group.Nat
import Mathlib.Data.Fintype.Card

/-! Quorums of the replicas `0, …, n - 1`. The counting argument behind all of them: two sets of
    replicas with more than `n` members between them share one. -/

namespace Dsnet

/-- Two sets of replicas with more than `n` members together meet. -/
theorem quorums_meet {n : Nat} {Q Q' : Finset Nat} (hQ : ∀ i ∈ Q, i < n) (hQ' : ∀ i ∈ Q', i < n)
    (h : n < Q.card + Q'.card) : ∃ i, i ∈ Q ∧ i ∈ Q' := by
  by_contra hno
  have hdisj : Disjoint Q Q' := by
    rw [Finset.disjoint_left]
    exact fun i hi hi' => hno ⟨i, hi, hi'⟩
  have hsub : Q ∪ Q' ⊆ Finset.range n := by
    intro i hi
    rcases Finset.mem_union.mp hi with hi | hi
    · exact Finset.mem_range.mpr (hQ i hi)
    · exact Finset.mem_range.mpr (hQ' i hi)
  have hcard := Finset.card_le_card hsub
  rw [Finset.card_union_of_disjoint hdisj, Finset.card_range] at hcard
  omega

/-- At least `q` of the replicas. -/
structure IsQuorum (n q : Nat) (Q : Finset Nat) : Prop where
  card : q ≤ Q.card
  lt : ∀ r ∈ Q, r < n

/-- Two quorums share a replica that is not one of `f` faulty ones. -/
theorem IsQuorum.meet_correct {n q f : Nat} {Q Q' faulty : Finset Nat} (h : IsQuorum n q Q)
    (h' : IsQuorum n q Q') (hf : faulty.card ≤ f) (hn : n + f < 2 * q) :
    ∃ r, r ∈ Q ∧ r ∈ Q' ∧ r ∉ faulty := by
  have h₁ := h.card
  have h₂ := h'.card
  have hrest := Finset.le_card_sdiff faulty Q
  obtain ⟨r, hr, hr'⟩ := quorums_meet (fun i hi => h.lt i (Finset.mem_sdiff.mp hi).1) h'.lt
    (Q := Q \ faulty) (by omega)
  exact ⟨r, (Finset.mem_sdiff.mp hr).1, hr', (Finset.mem_sdiff.mp hr).2⟩

end Dsnet
