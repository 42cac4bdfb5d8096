import Dsnet.Lib.Handler

/-! A ghost value that is carried beside the state of a handler, such as a count of the calls it has made.
    `beside` runs a handler and leaves the ghost alone, `ghost` changes only the ghost, and a handler that
    is built from the two in the place of another one does what that one does (`Erases`). -/

namespace Dsnet.Handler
variable {σ μ κ α β : Type}

/-- Run `m`, and leave what is beside the state alone. -/
def beside (m : Handler σ μ α) : Handler (σ × κ) μ α := fun s => ((m s.1).1, ((m s.1).2.1, s.2), (m s.1).2.2)

/-- Change what is beside the state. -/
def ghost (f : σ → κ → κ) : Handler (σ × κ) μ Unit := modify fun s => (s.1, f s.1 s.2)

@[simp] theorem sat_beside {m : Handler σ μ α} {s : σ × κ} {Q : α → σ × κ → List μ → Prop}
    {A : σ × κ → List μ → Prop} :
    Sat (beside m) s Q A ↔ Sat m s.1 (fun a s' o => Q a (s', s.2) o) fun s' o => A (s', s.2) o := by
  simp only [Sat, beside]
  rcases m s.1 with ⟨_ | a, s', o⟩ <;> rfl

@[simp] theorem sat_ghost {f : σ → κ → κ} {s : σ × κ} {Q : Unit → σ × κ → List μ → Prop}
    {A : σ × κ → List μ → Prop} : Sat (ghost f) s Q A ↔ Q () (s.1, f s.1 s.2) [] := Iff.rfl

/-- Apart from what is beside the state, `mc` does what `m` does. -/
def Erases (mc : Handler (σ × κ) μ α) (m : Handler σ μ α) : Prop :=
  ∀ s k, ∃ k', mc (s, k) = ((m s).1, ((m s).2.1, k'), (m s).2.2)

/-- What is shown of the handler with the ghost holds of the one without. -/
theorem Erases.sat {mc : Handler (σ × κ) μ α} {m : Handler σ μ α} (h : Erases mc m) {s : σ} {k : κ}
    {Q : α → σ → List μ → Prop} {A : σ → List μ → Prop}
    (hm : Sat mc (s, k) (fun a t o => Q a t.1 o) fun t o => A t.1 o) : Sat m s Q A := by
  obtain ⟨k', heq⟩ := h s k
  simp only [Sat, heq] at hm ⊢
  rcases hx : m s with ⟨_ | a, s', o⟩ <;> rw [hx] at hm <;> exact hm

theorem erases_beside (m : Handler σ μ α) : Erases (κ := κ) (beside m) m := fun _ k => ⟨k, rfl⟩

theorem erases_pure (a : α) : Erases (κ := κ) (pure a : Handler (σ × κ) μ α) (pure a) := fun _ k => ⟨k, rfl⟩

theorem Erases.bind {mc : Handler (σ × κ) μ α} {m : Handler σ μ α} {fc : α → Handler (σ × κ) μ β}
    {f : α → Handler σ μ β} (h : Erases mc m) (hf : ∀ a, Erases (fc a) (f a)) : Erases (mc >>= fc) (m >>= f) := by
  intro s k
  obtain ⟨k', heq⟩ := h s k
  simp only [Bind.bind, heq]
  rcases hx : m s with ⟨_ | a, s', o⟩
  · exact ⟨k', rfl⟩
  · obtain ⟨k'', heq'⟩ := hf a s' k'
    exact ⟨k'', by simp only [heq']⟩

/-- A change of the ghost comes first. -/
theorem Erases.ghost_bind {f : σ → κ → κ} {mc : Unit → Handler (σ × κ) μ α} {m : Handler σ μ α}
    (h : Erases (mc ()) m) : Erases (ghost f >>= mc) m := by
  intro s k
  obtain ⟨k', heq⟩ := h s (f s k)
  refine ⟨k', ?_⟩
  have hmc : (ghost f >>= mc) (s, k) = mc () (s, f s k) := by
    simp only [Bind.bind, ghost, modify, List.nil_append]
  rw [hmc, heq]

theorem Erases.ite {p : Prop} [Decidable p] {mc mc' : Handler (σ × κ) μ α} {m m' : Handler σ μ α}
    (h : Erases mc m) (h' : Erases mc' m') : Erases (if p then mc else mc') (if p then m else m') := by
  split
  · exact h
  · exact h'

theorem Erases.when {p : Prop} [Decidable p] {mc : Handler (σ × κ) μ Unit} {m : Handler σ μ Unit}
    (h : Erases mc m) : Erases (when p mc) (when p m) := h.ite (erases_pure ())

end Dsnet.Handler
