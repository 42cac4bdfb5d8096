import Dsnet.Lib.Handler

/-! Handlers against a ghost: a value beside the state that records what others may rely on, such as what
    a process has promised. A handler moves the ghost on as it goes (`advances`), and what it sends must
    be good by the ghost it leaves (`sent`), also when it is stopped (`halted`).

    `Spec` is the triple of such a handler, and the `spec_*` lemmas are its rules. -/

namespace Dsnet
open Handler

/-- What a process does to a ghost `γ`, with states `σ` and outputs `μ`. -/
structure Ghost (γ σ μ : Type) where
  advances : γ → γ → Prop
  halted : γ → σ → Prop
  sent : γ → μ → Prop
  refl : ∀ g, advances g g
  trans : ∀ {g g' g''}, advances g g' → advances g' g'' → advances g g''
  sent_mono : ∀ {g g' m}, advances g g' → sent g m → sent g' m

namespace Ghost
variable {γ σ μ α β : Type} (R : Ghost γ σ μ)

/-- A run that moves the ghost on from `g`, sends what is good, and ends with `J` of ghost and state. -/
def Ends (g : γ) (J : γ → σ → Prop) (s : σ) (o : List μ) : Prop :=
  ∃ g', R.advances g g' ∧ J g' s ∧ ∀ m ∈ o, R.sent g' m

/-- From ghost `g` and state `s`, the handler returns with `J`, or is stopped. -/
def Spec (g : γ) (m : Handler σ μ α) (s : σ) (J : α → γ → σ → Prop) : Prop :=
  Sat m s (fun a t o => R.Ends g (J a) t o) (fun t o => R.Ends g R.halted t o)

variable {R} {g g' : γ} {s : σ} {J : α → γ → σ → Prop} {K : γ → σ → Prop}

/-- Nothing is sent. -/
theorem Ends.quiet (hg : R.advances g g') (h : K g' s) : R.Ends g K s [] := ⟨g', hg, h, by simp⟩

/-- Nothing is sent, and the ghost stays. -/
theorem Ends.same (h : K g s) : R.Ends g K s [] := .quiet (R.refl g) h

/-- One output, and the ghost stays. -/
theorem Ends.sends {m : μ} (h : K g s) (hm : R.sent g m) : R.Ends g K s [m] :=
  ⟨g, R.refl g, h, by simpa using hm⟩

theorem Ends.mono {K' : γ → σ → Prop} {o : List μ} (h : R.Ends g K s o)
    (hK : ∀ g', R.advances g g' → K g' s → K' g' s) : R.Ends g K' s o := by
  obtain ⟨g', hg, hs, ho⟩ := h
  exact ⟨g', hg, hK g' hg hs, ho⟩

/-- What comes after good outputs. -/
theorem Ends.after {o o' : List μ} (hg : R.advances g g') (ho : ∀ m ∈ o, R.sent g' m)
    (h : R.Ends g' K s o') : R.Ends g K s (o ++ o') := by
  obtain ⟨g'', hg', hs, ho'⟩ := h
  refine ⟨g'', R.trans hg hg', hs, fun m hm => ?_⟩
  rcases List.mem_append.mp hm with hm | hm
  · exact R.sent_mono hg' (ho m hm)
  · exact ho' m hm

/-- Consequence. -/
theorem Spec.mono {m : Handler σ μ α} {J' : α → γ → σ → Prop} (h : R.Spec g m s J)
    (hJ : ∀ a g' t, R.advances g g' → J a g' t → J' a g' t) : R.Spec g m s J' :=
  Sat.mono h (fun a t _ ht => ht.mono fun g' hg => hJ a g' t hg) fun _ _ ht => ht

/-- The ghost has moved on before. -/
theorem Spec.advance {m : Handler σ μ α} (hg : R.advances g g') (h : R.Spec g' m s J) :
    R.Spec g m s J := by
  refine Sat.mono h (fun a t o ht => ?_) (fun t o ht => ?_)
  · simpa using Ends.after (o := []) hg (by simp) ht
  · simpa using Ends.after (o := []) hg (by simp) ht

/-- The same ghost, of a handler that must not be stopped. -/
def returning (R : Ghost γ σ μ) : Ghost γ σ μ := { R with halted := fun _ _ => False }

theorem Spec.of_returning {m : Handler σ μ α} (h : R.returning.Spec g m s J) : R.Spec g m s J :=
  Sat.mono h (fun _ _ _ ht => ht) fun _ _ ⟨_, _, hf, _⟩ => hf.elim

/-- It is not stopped. -/
theorem Spec.returns {m : Handler σ μ α} (h : R.returning.Spec g m s J) : (m s).1 ≠ none := by
  rcases Sat.cases h with ⟨a, t, o, hm, _⟩ | ⟨t, o, _, _, _, hf, _⟩
  · simp [hm]
  · exact hf.elim

/-- Sequencing. -/
theorem Spec.bind {m : Handler σ μ α} {f : α → Handler σ μ β} {L : β → γ → σ → Prop}
    (h : R.Spec g m s J) (hf : ∀ a g' t, R.advances g g' → J a g' t → R.Spec g' (f a) t L) :
    R.Spec g (m >>= f) s L := by
  refine sat_bind.mpr (Sat.mono h ?_ (fun _ _ ht => ht))
  rintro a t o ⟨g', hg, ht, ho⟩
  refine Sat.mono (hf a g' t hg ht) (fun b t' o' ht' => ?_) (fun t' o' ht' => ?_)
  · exact Ends.after hg ho ht'
  · exact Ends.after hg ho ht'

@[simp] theorem spec_pure {a : α} : R.Spec g (pure a) s J ↔ R.Ends g (J a) s [] := Iff.rfl

@[simp] theorem spec_modify {f : σ → σ} {L : Unit → γ → σ → Prop} :
    R.Spec g (modify f) s L ↔ R.Ends g (L ()) (f s) [] := Iff.rfl

@[simp] theorem spec_emit {m : μ} {L : Unit → γ → σ → Prop} :
    R.Spec g (emit m) s L ↔ R.Ends g (L ()) s [m] := Iff.rfl

@[simp] theorem spec_abort :
    R.Spec g (abort : Handler σ μ α) s J ↔ R.Ends g R.halted s [] := Iff.rfl

@[simp] theorem spec_ite {p : Prop} [Decidable p] {m m' : Handler σ μ α} :
    R.Spec g (if p then m else m') s J ↔ (p → R.Spec g m s J) ∧ (¬ p → R.Spec g m' s J) := sat_ite

@[simp] theorem spec_pure_bind {a : β} {f : β → Handler σ μ α} :
    R.Spec g (pure a >>= f) s J ↔ R.Spec g (f a) s J := by
  simp only [Spec, sat_bind, sat_pure, List.nil_append]

@[simp] theorem spec_get_bind {f : σ → Handler σ μ α} :
    R.Spec g (get >>= f) s J ↔ R.Spec g (f s) s J := by
  simp only [Spec, sat_bind, sat_get, List.nil_append]

@[simp] theorem spec_modify_bind {f : σ → σ} {k : Unit → Handler σ μ α} :
    R.Spec g (modify f >>= k) s J ↔ R.Spec g (k ()) (f s) J := by
  simp only [Spec, sat_bind, sat_modify, List.nil_append]

@[simp] theorem spec_assert_bind {p : Prop} [Decidable p] {k : Unit → Handler σ μ α} :
    R.Spec g (assert p >>= k) s J ↔
      (p → R.Spec g (k ()) s J) ∧ (¬ p → R.Ends g R.halted s []) := by
  simp only [Spec, sat_bind, sat_assert, List.nil_append]

@[simp] theorem spec_assert {p : Prop} [Decidable p] {L : Unit → γ → σ → Prop} :
    R.Spec g (assert p) s L ↔ (p → R.Ends g (L ()) s []) ∧ (¬ p → R.Ends g R.halted s []) := sat_assert

@[simp] theorem spec_ofOption_bind {o : Option β} {k : β → Handler σ μ α} :
    R.Spec g (ofOption o >>= k) s J ↔
      (∀ b, o = some b → R.Spec g (k b) s J) ∧ (o = none → R.Ends g R.halted s []) := by
  simp only [Spec, sat_bind, sat_ofOption, List.nil_append]

/-- What is there is found. -/
theorem spec_ofOption_some {o : Option β} {b : β} (h : o = some b) {k : β → Handler σ μ α} :
    R.Spec g (ofOption o >>= k) s J ↔ R.Spec g (k b) s J := by
  simp [h]

/-- What holds can be asserted. -/
theorem spec_assert_of {p : Prop} [Decidable p] (h : p) {k : Unit → Handler σ μ α} :
    R.Spec g (assert p >>= k) s J ↔ R.Spec g (k ()) s J := by
  simp [h]

@[simp] theorem spec_when {p : Prop} [Decidable p] {m : Handler σ μ Unit} {L : Unit → γ → σ → Prop} :
    R.Spec g (when p m) s L ↔ (p → R.Spec g m s L) ∧ (¬ p → R.Ends g (L ()) s []) := sat_when

@[simp] theorem spec_whenSome {o : Option α} {f : α → Handler σ μ Unit} {L : Unit → γ → σ → Prop} :
    R.Spec g (whenSome o f) s L ↔
      (∀ a, o = some a → R.Spec g (f a) s L) ∧ (o = none → R.Ends g (L ()) s []) := sat_whenSome

/-- A good message is sent first. -/
theorem Spec.emit_bind {m : μ} {k : Unit → Handler σ μ α} (hm : R.sent g m)
    (h : R.Spec g (k ()) s J) : R.Spec g (emit m >>= k) s J := by
  refine Spec.bind (J := fun _ g' t => g' = g ∧ t = s) (spec_emit.mpr (Ends.sends ⟨rfl, rfl⟩ hm)) ?_
  rintro _ _ _ _ ⟨rfl, rfl⟩
  exact h

/-- Loop rule: `L rest` is kept by an iteration, where `rest` is what is left to do. -/
theorem Spec.forEach {f : α → Handler σ μ Unit} (L : List α → γ → σ → Prop)
    (hstep : ∀ a rest g s, L (a :: rest) g s → R.Spec g (f a) s fun _ => L rest) :
    ∀ {l : List α} {g : γ} {s : σ}, L l g s → R.Spec g (forEach l f) s fun _ => L []
  | [], _, _, h => Ends.same h
  | a :: as, _, _, h => Spec.bind (hstep a as _ _ h) fun _ _ _ _ h' => Spec.forEach L hstep h'

/-- Loop rule for a counted loop, with the number of rounds that are left. -/
theorem Spec.iterate {body : Handler σ μ Unit} (L : Nat → γ → σ → Prop)
    (hstep : ∀ k g s, L (k + 1) g s → R.Spec g body s fun _ => L k) :
    ∀ {k : Nat} {g : γ} {s : σ}, L k g s → R.Spec g (iterate k body) s fun _ => L 0
  | 0, _, _, h => Ends.same h
  | k + 1, _, _, h => Spec.bind (hstep k _ _ h) fun _ _ _ _ h' => Spec.iterate L hstep h'

end Ghost
end Dsnet
