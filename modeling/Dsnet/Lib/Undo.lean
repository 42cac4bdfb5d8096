import Mathlib.Tactic.Common

/-! Steps that are taken back in the reverse order. Of the steps a value `γ` is kept that the state need
    not tell (what the steps so far have made, say), and the state that the undoing has reached may
    differ from the one the steps had passed there (`A`).

    `foldlM_undo` makes of a simulation of one step, in a state that meets `C`, one of a list of steps. -/

namespace Dsnet.Undo
variable {σ α γ : Type} (step : σ → α → Option σ) (next : γ → σ → α → γ) (C : γ → σ → α → Prop)

/-- The steps of the list meet `C`, each in the state before it. -/
def Meets : γ → σ → List α → Prop
  | _, _, [] => True
  | g, s, a :: as => C g s a ∧ ∀ t, step s a = some t → Meets (next g s a) t as

/-- What is kept after the list. -/
def kept : γ → σ → List α → γ
  | g, _, [] => g
  | g, s, a :: as =>
    match step s a with
    | some t => kept (next g s a) t as
    | none => g

variable {step next C}

theorem Meets.cons {g : γ} {s t : σ} {a : α} {as : List α} (hc : C g s a) (hs : step s a = some t)
    (h : Meets step next C (next g s a) t as) : Meets step next C g s (a :: as) :=
  ⟨hc, fun t' ht' => by rwa [← Option.some.inj (hs.symm.trans ht')]⟩

/-- What steps that meet `C` keep is so after the list. -/
theorem kept_invariant {I : γ → σ → Prop}
    (hI : ∀ g s a s', I g s → C g s a → step s a = some s' → I (next g s a) s') :
    ∀ {as : List α} {g : γ} {s s' : σ}, I g s → Meets step next C g s as → as.foldlM step s = some s' →
      I (kept step next g s as) s'
  | [], g, s, s', h, _, hs => by
      obtain rfl : s = s' := by simpa using hs
      exact h
  | a :: as, g, s, s', h, hm, hs => by
      rw [List.foldlM_cons] at hs
      obtain ⟨s₁, h₁, hs⟩ := Option.bind_eq_some_iff.mp hs
      rw [kept, h₁]
      exact kept_invariant hI (hI g s a s₁ h hm.1 h₁) (hm.2 s₁ h₁) hs

variable {undo : σ → α → Option σ} {A : γ → σ → σ → Prop}

/-- If each step can be taken back from a state that agrees with the one it led to, so can the list. -/
theorem foldlM_undo
    (h1 : ∀ g s a s' t', C g s a → step s a = some s' → A (next g s a) s' t' →
      ∃ t, undo t' a = some t ∧ A g s t) :
    ∀ {as : List α} {g : γ} {s s' t' : σ}, Meets step next C g s as → as.foldlM step s = some s' →
      A (kept step next g s as) s' t' → ∃ t, as.reverse.foldlM undo t' = some t ∧ A g s t
  | [], g, s, s', t', _, h, ha => by
      obtain rfl : s = s' := by simpa using h
      exact ⟨t', rfl, ha⟩
  | a :: as, g, s, s', t', hm, h, ha => by
      rw [List.foldlM_cons] at h
      obtain ⟨s₁, hs, h⟩ := Option.bind_eq_some_iff.mp h
      rw [kept, hs] at ha
      obtain ⟨t₁, ht₁, ha₁⟩ := foldlM_undo h1 (hm.2 s₁ hs) h ha
      obtain ⟨t, ht, ha⟩ := h1 g s a s₁ t₁ hm.1 hs ha₁
      refine ⟨t, ?_, ha⟩
      rw [List.reverse_cons, List.foldlM_append, ht₁]
      simpa using ht

end Dsnet.Undo
