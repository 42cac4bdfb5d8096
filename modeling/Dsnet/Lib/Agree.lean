import Dsnet.Lib.StdMap

/-! Maps that agree: they bind the same keys, to equal values, except that for some keys (`loose`) related
    values are enough.

    It is what remains of the equality of two maps while the bindings of those keys are on their way to be
    erased: `Agree.erase` ends it, and `Agree.eq` is what it is without such keys. -/

namespace Dsnet
variable {κ β : Type} [LinearOrder κ]

/-- `m'` binds what `m` does, to the same or, for the keys `loose`, to what `R` relates to it. -/
structure Agree (R : β → β → Prop) (loose : List κ) (m m' : StdMap κ β) : Prop where
  strict : ∀ k, k ∉ loose → m'.find? k = m.find? k
  related : ∀ k, k ∈ loose → Option.Rel R (m.find? k) (m'.find? k)

namespace Agree
variable {R : β → β → Prop} {loose : List κ} {m m' m₁ m₁' : StdMap κ β} {k : κ} {b b' : β}

theorem rel_refl (hR : ∀ b, R b b) (o : Option β) : Option.Rel R o o := by
  cases o with
  | none => exact .none
  | some b => exact .some (hR b)

theorem refl (hR : ∀ b, R b b) (loose : List κ) (m : StdMap κ β) : Agree R loose m m :=
  ⟨fun _ _ => rfl, fun _ _ => rel_refl hR _⟩

/-- Without loose keys the maps are equal. -/
theorem eq (h : Agree R ([] : List κ) m m') : m' = m :=
  StdMap.ext_find? fun k => h.strict k List.not_mem_nil

theorem rel (hR : ∀ b, R b b) (h : Agree R loose m m') (k : κ) : Option.Rel R (m.find? k) (m'.find? k) := by
  by_cases hk : k ∈ loose
  · exact h.related k hk
  · rw [h.strict k hk]
    exact rel_refl hR _

/-- What is bound in the one is bound in the other. -/
theorem find? (hR : ∀ b, R b b) (h : Agree R loose m m') (hk : m.find? k = some b) :
    ∃ b', m'.find? k = some b' ∧ R b b' ∧ (k ∉ loose → b' = b) := by
  have hr := h.rel hR k
  rw [hk] at hr
  cases hk' : m'.find? k with
  | none => rw [hk'] at hr; cases hr
  | some b' =>
    rw [hk'] at hr
    cases hr with
    | some hb => exact ⟨b', rfl, hb, fun hn => Option.some.inj (hk'.symm.trans ((h.strict k hn).trans hk))⟩

theorem find?_eq_none (hR : ∀ b, R b b) (h : Agree R loose m m') (hk : m.find? k = none) :
    m'.find? k = none := by
  have hr := h.rel hR k
  rw [hk] at hr
  cases hk' : m'.find? k with
  | none => rfl
  | some b' => rw [hk'] at hr; cases hr

/-- Maps that differ from ones that agree in one key. -/
theorem of_binding (h : Agree R loose m₁ m₁') (hm : ∀ i, i ≠ k → m₁.find? i = m.find? i)
    (hm' : ∀ i, i ≠ k → m'.find? i = m₁'.find? i) (hk : m.find? k = some b) (hk' : m'.find? k = some b')
    (hb : R b b') (ho : k ∉ loose → b' = b) : Agree R loose m m' := by
  refine ⟨fun i hi => ?_, fun i hi => ?_⟩
  · by_cases hik : i = k
    · rw [hik] at hi ⊢
      rw [hk, hk', ho hi]
    · rw [hm' i hik, h.strict i hi, hm i hik]
  · by_cases hik : i = k
    · rw [hik, hk, hk']
      exact .some hb
    · rw [hm' i hik, ← hm i hik]
      exact h.related i hi

/-- A key that has been erased is bound again. -/
theorem insert (hR : ∀ b, R b b) (h : Agree R loose (m.erase k) m₁') (hk : m.find? k = some b) :
    Agree R loose m (m₁'.insert k b) :=
  h.of_binding (fun i hi => by rw [StdMap.find?_erase, if_neg hi])
    (fun _ hi => StdMap.find?_insert_of_ne _ _ hi) hk (StdMap.find?_insert_self ..) (hR b) fun _ => rfl

/-- A loose key that has been bound is erased. -/
theorem erase (h : Agree R (k :: loose) (m.insert k b) m₁') (hk : m.find? k = none) :
    Agree R loose m (m₁'.erase k) := by
  have hne : ∀ i, i ≠ k → (m.insert k b).find? i = m.find? i := fun i hi =>
    StdMap.find?_insert_of_ne _ _ hi
  refine ⟨fun i hi => ?_, fun i hi => ?_⟩
  · rw [StdMap.find?_erase]
    split_ifs with hik
    · rw [hik, hk]
    · rw [← hne i hik]
      exact h.strict i fun hm => (List.mem_cons.mp hm).elim hik hi
  · rw [StdMap.find?_erase]
    split_ifs with hik
    · rw [hik, hk]
      exact .none
    · rw [← hne i hik]
      exact h.related i (List.mem_cons_of_mem _ hi)

end Agree
end Dsnet
