import Dsnet.Lib.Handler

/-! What a handler does however it ends, returned or stopped half-way, as a relation between the states before
    and after it and what it has sent: one rule for each way to build a handler, for any relation that can be
    put together from one part of a handler to the next. -/

namespace Dsnet.Handler
variable {σ μ α β : Type} {R R' : σ → σ → List μ → Prop}

/-- However `m` ends, `R` relates the states before and after it and its outputs. -/
def Always (R : σ → σ → List μ → Prop) (m : Handler σ μ α) : Prop :=
  ∀ s, Sat m s (fun _ s' o => R s s' o) fun s' o => R s s' o

/-- The relation holds of doing nothing, and of one thing after another. -/
class Composes (R : σ → σ → List μ → Prop) : Prop where
  refl : ∀ s, R s s []
  trans : ∀ {s s' s'' o o'}, R s s' o → R s' s'' o' → R s s'' (o ++ o')

theorem Always.mono {m : Handler σ μ α} (hm : Always R m) (h : ∀ s s' o, R s s' o → R' s s' o) : Always R' m :=
  fun s => (hm s).mono (fun _ s' o => h s s' o) fun s' o => h s s' o

/-- In terms of the run of the handler. -/
theorem Always.outcome {m : Handler σ μ α} (hm : Always R m) (s : σ) : R s (m s).2.1 (m s).2.2 := by
  rcases (hm s).cases with ⟨_, _, _, hrun, h⟩ | ⟨_, _, hrun, h⟩ <;> rwa [hrun]

theorem always_modify {g : σ → σ} (h : ∀ s, R s (g s) []) : Always R (modify g : Handler σ μ Unit) := h

theorem always_emit {x : μ} (h : ∀ s, R s s [x]) : Always R (emit x : Handler σ μ Unit) := h

theorem Always.ite {p : Prop} [Decidable p] {m m' : Handler σ μ α} (hm : Always R m) (hm' : Always R m') :
    Always R (if p then m else m') := fun s => sat_ite.mpr ⟨fun _ => hm s, fun _ => hm' s⟩

section
variable [Composes R]

theorem always_pure {a : α} : Always R (pure a : Handler σ μ α) := fun s => Composes.refl s

theorem always_get : Always R (get : Handler σ μ σ) := fun s => Composes.refl s

theorem always_abort : Always R (abort : Handler σ μ α) := fun s => Composes.refl s

theorem always_assert {p : Prop} [Decidable p] : Always R (assert p : Handler σ μ Unit) := fun s =>
  sat_assert.mpr ⟨fun _ => Composes.refl s, fun _ => Composes.refl s⟩

theorem always_ofOption {o : Option α} : Always R (ofOption o : Handler σ μ α) := fun s =>
  sat_ofOption.mpr ⟨fun _ _ => Composes.refl s, fun _ => Composes.refl s⟩

/-- A handler that goes on from where another has got. -/
theorem Always.after {m : Handler σ μ α} (hm : Always R m) {s s' : σ} {o : List μ} (h : R s s' o) :
    Sat m s' (fun _ s'' o' => R s s'' (o ++ o')) fun s'' o' => R s s'' (o ++ o') :=
  (hm s').mono (fun _ _ _ h' => Composes.trans h h') fun _ _ h' => Composes.trans h h'

/-- One that has sent nothing before. -/
theorem Always.after_nil {m : Handler σ μ α} (hm : Always R m) {s s' : σ} (h : R s s' []) :
    Sat m s' (fun _ s'' o => R s s'' o) fun s'' o => R s s'' o := hm.after h

theorem Always.bind {m : Handler σ μ α} {f : α → Handler σ μ β} (hm : Always R m) (hf : ∀ a, Always R (f a)) :
    Always R (m >>= f) := fun s =>
  sat_bind.mpr ((hm s).mono (fun a _ _ h => (hf a).after h) fun _ _ h => h)

theorem Always.when {p : Prop} [Decidable p] {m : Handler σ μ Unit} (hm : Always R m) : Always R (when p m) :=
  hm.ite always_pure

theorem Always.whenSome {o : Option α} {f : α → Handler σ μ Unit} (hf : ∀ a, Always R (f a)) :
    Always R (whenSome o f) := by
  cases o with
  | none => exact always_pure
  | some a => exact hf a

theorem Always.forEach {f : α → Handler σ μ Unit} (hf : ∀ a, Always R (f a)) : ∀ l : List α, Always R (forEach l f)
  | [] => always_pure
  | a :: as => (hf a).bind fun _ => Always.forEach hf as

theorem Always.iterate {m : Handler σ μ Unit} (hm : Always R m) : ∀ n : Nat, Always R (iterate n m)
  | 0 => always_pure
  | n + 1 => hm.bind fun _ => Always.iterate hm n

end

/-- A handler that begins by reading the state. -/
theorem always_get_bind {f : σ → Handler σ μ β}
    (hf : ∀ s, Sat (f s) s (fun _ s' o => R s s' o) fun s' o => R s s' o) : Always R (get >>= f) := fun s =>
  sat_bind.mpr ((hf s).mono (fun _ _ _ h => h) fun _ _ h => h)

end Dsnet.Handler
