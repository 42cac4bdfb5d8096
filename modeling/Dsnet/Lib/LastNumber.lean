import Mathlib.Data.List.Nodup

/-! Numbers that increase, and a table that keeps the last one in a field of `w` values: a number is accepted when
    it is greater than the kept one. As long as the accepted numbers fit the field, none is accepted again; the
    first that does not fit is (`Last.atMostOnce_iff`). -/

namespace Dsnet
namespace LastNumber

/-- A number is accepted when there is none yet or when it is greater than the kept one. -/
def Accepts (kept : Option Nat) (n : Nat) : Prop := ∀ k ∈ kept, k < n

instance (kept : Option Nat) (n : Nat) : Decidable (Accepts kept n) := inferInstanceAs (Decidable (∀ k ∈ kept, k < n))

/-- What is kept when these numbers have been accepted, oldest first. -/
inductive Last (w : Nat) : List Nat → Option Nat → Prop
  | nil : Last w [] none
  | accept {ns : List Nat} {kept : Option Nat} {n : Nat} :
      Last w ns kept → Accepts kept n → Last w (ns ++ [n]) (some (n % w))

/-- No number has been accepted twice, those that have been are not accepted again, and a number greater than all
    of them is. -/
structure AtMostOnce (ns : List Nat) (accepts : Nat → Prop) : Prop where
  once : ns.Nodup
  old : ∀ n ∈ ns, ¬ accepts n
  new : ∀ n, (∀ m ∈ ns, m < n) → accepts n

variable {w : Nat} {ns : List Nat} {kept : Option Nat}

/-- What is kept is one of the numbers, cut to the field. -/
theorem Last.mem (h : Last w ns kept) : ∀ k ∈ kept, ∃ n ∈ ns, k = n % w := by
  cases h with
  | nil => exact fun k hk => by cases hk
  | accept _ _ =>
    rintro k hk
    cases hk
    exact ⟨_, by simp, rfl⟩

/-- A number greater than all is always accepted. -/
theorem Last.new (h : Last w ns kept) {n : Nat} (hn : ∀ m ∈ ns, m < n) : Accepts kept n := by
  intro k hk
  obtain ⟨m, hm, rfl⟩ := h.mem k hk
  exact Nat.lt_of_le_of_lt (Nat.mod_le m w) (hn m hm)

/-- Numbers that fit increase, and none is greater than the kept one. -/
theorem Last.increasing (h : Last w ns kept) (hfit : ∀ n ∈ ns, n < w) :
    ns.Pairwise (· < ·) ∧ ∀ n ∈ ns, ¬ Accepts kept n := by
  induction h with
  | nil => exact ⟨List.Pairwise.nil, fun n hn => by cases hn⟩
  | @accept ns kept n h ha ih =>
    obtain ⟨hinc, hold⟩ := ih fun m hm => hfit m (List.mem_append_left _ hm)
    have hlt : ∀ m ∈ ns, m < n := by
      intro m hm
      -- Otherwise `m` would have been accepted again.
      by_contra hle
      exact hold m hm fun k hk => Nat.lt_of_lt_of_le (ha k hk) (Nat.not_lt.mp hle)
    have hmod : n % w = n := Nat.mod_eq_of_lt (hfit n (by simp))
    refine ⟨List.pairwise_append.mpr ⟨hinc, List.pairwise_singleton .., fun m hm y hy => ?_⟩, fun m hm ha' => ?_⟩
    · rw [List.mem_singleton.mp hy]
      exact hlt m hm
    · have hgt : n < m := hmod ▸ ha' (n % w) rfl
      rcases List.mem_append.mp hm with hm | hm
      · exact absurd (hlt m hm) (Nat.lt_asymm hgt)
      · rw [List.mem_singleton.mp hm] at hgt
        exact Nat.lt_irrefl n hgt

/-- The table tells old numbers from new ones exactly when all that have been accepted fit its field. -/
theorem Last.atMostOnce_iff (h : Last w ns kept) (hw : 0 < w) :
    AtMostOnce ns (Accepts kept) ↔ ∀ n ∈ ns, n < w := by
  constructor
  · intro honce n hn
    by_contra hge
    refine honce.old n hn fun k hk => ?_
    obtain ⟨m, -, rfl⟩ := h.mem k hk
    exact Nat.lt_of_lt_of_le (Nat.mod_lt m hw) (Nat.not_lt.mp hge)
  · intro hfit
    obtain ⟨hinc, hold⟩ := h.increasing hfit
    exact ⟨hinc.imp Nat.ne_of_lt, hold, fun n hn => h.new hn⟩

/-- The same, when one more number comes that may not fit. -/
theorem Last.next_iff (h : Last w ns kept) (hw : 0 < w) (hfit : ∀ n ∈ ns, n < w) {n : Nat} (ha : Accepts kept n) :
    AtMostOnce (ns ++ [n]) (Accepts (some (n % w))) ↔ n < w := by
  refine ((Last.accept h ha).atMostOnce_iff hw).trans ⟨fun hall => hall n (by simp), fun hn m hm => ?_⟩
  rcases List.mem_append.mp hm with hm | hm
  · exact hfit m hm
  · rwa [List.mem_singleton.mp hm]

end LastNumber
end Dsnet
