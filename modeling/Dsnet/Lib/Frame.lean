import Dsnet.Lib.Handler

/-! What a handler that returns may have done to the state, as a relation between the states before and after
    it: one rule for each way to build a handler, for any relation that is reflexive and transitive. Two such
    relations are that a part of the state is as before, and that an invariant is kept. -/

namespace Dsnet.Handler
variable {σ μ α β γ : Type} {R : σ → σ → Prop}

/-- If `m` returns, `R` relates the states before and after it. -/
def Relates (R : σ → σ → Prop) (m : Handler σ μ α) : Prop :=
  ∀ s, Sat m s (fun _ s' _ => R s s') fun _ _ => True

/-- This part of the state is as before. -/
def Same (f : σ → γ) (s s' : σ) : Prop := f s' = f s

instance (f : σ → γ) : Std.Refl (Same f) := ⟨fun _ => rfl⟩

instance (f : σ → γ) : IsTrans σ (Same f) := ⟨fun _ _ _ h h' => h'.trans h⟩

/-- An invariant that held before holds. -/
def Kept (I : σ → Prop) (s s' : σ) : Prop := I s → I s'

instance (I : σ → Prop) : Std.Refl (Kept I) := ⟨fun _ h => h⟩

instance (I : σ → Prop) : IsTrans σ (Kept I) := ⟨fun _ _ _ h h' hs => h' (h hs)⟩

theorem Relates.mono {R' : σ → σ → Prop} {m : Handler σ μ α} (hm : Relates R m)
    (h : ∀ s s', R s s' → R' s s') : Relates R' m := fun s =>
  (hm s).mono (fun _ s' _ => h s s') fun _ _ _ => trivial

/-- What is kept when nothing changes that it depends on. -/
theorem Relates.kept {f : σ → γ} {I : σ → Prop} {m : Handler σ μ α} (hm : Relates (Same f) m)
    (h : ∀ s s', f s' = f s → I s → I s') : Relates (Kept I) m := hm.mono h

/-- An invariant is kept when it is from the states it holds of. -/
theorem relates_kept {I : σ → Prop} {m : Handler σ μ α}
    (h : ∀ s, I s → Sat m s (fun _ s' _ => I s') fun _ _ => True) : Relates (Kept I) m := by
  intro s
  by_cases hs : I s
  · exact (h s hs).mono (fun _ _ _ ht _ => ht) fun _ _ _ => trivial
  · exact (sat_state m s).mono (fun _ _ _ _ h => absurd h hs) fun _ _ _ => trivial

/-- A handler in the middle of another one. -/
theorem Relates.sat {m : Handler σ μ α} {s : σ} {Q : α → σ → List μ → Prop} {A : σ → List μ → Prop}
    (hm : Relates R m) (hQ : ∀ a s' o, R s s' → Q a s' o) (hA : ∀ s' o, A s' o) : Sat m s Q A :=
  (hm s).mono (fun a s' o h => hQ a s' o h) fun s' o _ => hA s' o

theorem relates_modify {g : σ → σ} (h : ∀ s, R s (g s)) :
    Relates R (modify g : Handler σ μ Unit) := fun s => h s

/-- An update of other parts of the state. -/
theorem same_modify {f : σ → γ} {g : σ → σ} (h : ∀ s, f (g s) = f s) :
    Relates (Same f) (modify g : Handler σ μ Unit) := fun s => h s

theorem relates_abort : Relates R (abort : Handler σ μ α) := fun _ => trivial

section
variable [Std.Refl R]

theorem relates_pure {a : α} : Relates R (pure a : Handler σ μ α) := fun s => Std.Refl.refl (r := R) s

theorem relates_get : Relates R (get : Handler σ μ σ) := fun s => Std.Refl.refl (r := R) s

theorem relates_emit {m : μ} : Relates R (emit m : Handler σ μ Unit) := fun s => Std.Refl.refl (r := R) s

theorem relates_assert {p : Prop} [Decidable p] : Relates R (assert p : Handler σ μ Unit) := fun s =>
  sat_assert.mpr ⟨fun _ => Std.Refl.refl (r := R) s, fun _ => trivial⟩

theorem relates_ofOption {o : Option α} : Relates R (ofOption o : Handler σ μ α) := fun s =>
  sat_ofOption.mpr ⟨fun _ _ => Std.Refl.refl (r := R) s, fun _ => trivial⟩

end

theorem Relates.ite {p : Prop} [Decidable p] {m m' : Handler σ μ α} (hm : Relates R m)
    (hm' : Relates R m') : Relates R (if p then m else m') := fun s =>
  sat_ite.mpr ⟨fun _ => hm s, fun _ => hm' s⟩

theorem Relates.when [Std.Refl R] {p : Prop} [Decidable p] {m : Handler σ μ Unit} (hm : Relates R m) :
    Relates R (when p m) := hm.ite relates_pure

theorem Relates.whenSome [Std.Refl R] {o : Option α} {f : α → Handler σ μ Unit}
    (hf : ∀ a, Relates R (f a)) : Relates R (whenSome o f) := by
  cases o with
  | none => exact relates_pure
  | some a => exact hf a

theorem Relates.bind [IsTrans σ R] {m : Handler σ μ α} {f : α → Handler σ μ β} (hm : Relates R m)
    (hf : ∀ a, Relates R (f a)) : Relates R (m >>= f) := fun s =>
  sat_bind.mpr ((hm s).mono (fun a s' _ h => (hf a s').mono
    (fun _ s'' _ h' => IsTrans.trans (r := R) s s' s'' h h') fun _ _ h => h) fun _ _ h => h)

/-- A handler that begins by reading the state. -/
theorem relates_get_bind {f : σ → Handler σ μ β}
    (hf : ∀ s, Sat (f s) s (fun _ s' _ => R s s') fun _ _ => True) : Relates R (get >>= f) := fun s =>
  sat_bind.mpr ((hf s).mono (fun _ _ _ h => h) fun _ _ h => h)

theorem Relates.forEach [Std.Refl R] [IsTrans σ R] {f : α → Handler σ μ Unit}
    (hf : ∀ a, Relates R (f a)) : ∀ l : List α, Relates R (forEach l f)
  | [] => relates_pure
  | a :: as => (hf a).bind fun _ => Relates.forEach hf as

theorem Relates.forEach_mem [Std.Refl R] [IsTrans σ R] {f : α → Handler σ μ Unit} :
    ∀ {l : List α}, (∀ a ∈ l, Relates R (f a)) → Relates R (Handler.forEach l f)
  | [], _ => relates_pure
  | _ :: _, hf => (hf _ List.mem_cons_self).bind fun _ =>
      Relates.forEach_mem fun a ha => hf a (List.mem_cons_of_mem _ ha)

theorem Relates.iterate [Std.Refl R] [IsTrans σ R] {m : Handler σ μ Unit} (hm : Relates R m) :
    ∀ n : Nat, Relates R (iterate n m)
  | 0 => relates_pure
  | n + 1 => hm.bind fun _ => Relates.iterate hm n

end Dsnet.Handler
