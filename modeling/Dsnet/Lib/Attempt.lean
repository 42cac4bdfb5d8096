import Mathlib.Tactic.Common

/-! Computations that may throw. A run changes the state and then returns, throws, or is stopped by a
    failed assertion; what it had changed before it threw stays changed, and it is for the one who
    catches to take it back.

    `Sat` is the pair of postconditions of a run (returned / thrown), nothing being asked of a run that
    is stopped. `Keeps I` is an invariant kept on both ways out, with one rule for each way to build a
    computation. -/

namespace Dsnet

/-- How a run ends. -/
inductive Ending (α : Type) where
  | returned (a : α)
  | thrown
  | stopped

/-- A computation on states `σ` that may throw. -/
def Attempt (σ α : Type) : Type := σ → Ending α × σ

namespace Attempt
variable {σ α β : Type}

instance : Monad (Attempt σ) where
  pure a := fun s => (.returned a, s)
  bind m f := fun s =>
    match m s with
    | (.returned a, s') => f a s'
    | (.thrown, s') => (.thrown, s')
    | (.stopped, s') => (.stopped, s')

/-- Read the state. -/
def get : Attempt σ σ := fun s => (.returned s, s)

/-- Change the state. -/
def modify (f : σ → σ) : Attempt σ Unit := fun s => (.returned (), f s)

/-- `throw`. -/
def throw : Attempt σ α := fun s => (.thrown, s)

/-- The process ends here. -/
def stop : Attempt σ α := fun s => (.stopped, s)

/-- `assert(p)`. -/
def assert (p : Prop) [Decidable p] : Attempt σ Unit := if p then pure () else stop

/-- The value, or the end of the process when there is none. -/
def ofOption : Option α → Attempt σ α
  | some a => pure a
  | none => stop

/-- `if (p) m` with nothing else to do. -/
def when (p : Prop) [Decidable p] (m : Attempt σ Unit) : Attempt σ Unit := if p then m else pure ()

/-- `for (a : as) b = f(b, a)`. -/
def fold (f : β → α → Attempt σ β) : β → List α → Attempt σ β
  | b, [] => pure b
  | b, a :: as => do fold f (← f b a) as

/-- `for (a : as) f(a)`. -/
def forEach (f : α → Attempt σ Unit) (l : List α) : Attempt σ Unit := fold (fun _ a => f a) () l

/-- The results of `f` on the elements of a list, in order. -/
def mapEach (f : α → Attempt σ β) : List α → Attempt σ (List β)
  | [] => pure []
  | a :: as => do
    let b ← f a
    let bs ← mapEach f as
    pure (b :: bs)

/-- `try { m } catch { h }`. -/
def tryCatch (m h : Attempt σ α) : Attempt σ α := fun s =>
  match m s with
  | (.thrown, s') => h s'
  | r => r

/-! ### Postconditions -/

/-- From `s`, `m` returns with `Q`, throws with `B`, or is stopped. -/
def Sat (m : Attempt σ α) (s : σ) (Q : α → σ → Prop) (B : σ → Prop) : Prop :=
  match m s with
  | (.returned a, s') => Q a s'
  | (.thrown, s') => B s'
  | (.stopped, _) => True

variable {m : Attempt σ α} {s : σ} {Q : α → σ → Prop} {B : σ → Prop}

@[simp] theorem sat_pure {a : α} : Sat (pure a) s Q B ↔ Q a s := Iff.rfl

@[simp] theorem sat_get {Q : σ → σ → Prop} : Sat get s Q B ↔ Q s s := Iff.rfl

@[simp] theorem sat_modify {f : σ → σ} {Q : Unit → σ → Prop} : Sat (modify f) s Q B ↔ Q () (f s) := Iff.rfl

@[simp] theorem sat_throw : Sat (throw : Attempt σ α) s Q B ↔ B s := Iff.rfl

@[simp] theorem sat_stop : Sat (stop : Attempt σ α) s Q B := trivial

@[simp] theorem sat_assert {p : Prop} [Decidable p] {Q : Unit → σ → Prop} :
    Sat (assert p) s Q B ↔ (p → Q () s) := by
  unfold assert
  split <;> simp [*]

@[simp] theorem sat_ofOption {o : Option α} : Sat (ofOption o) s Q B ↔ ∀ a, o = some a → Q a s := by
  cases o <;> simp [ofOption]

@[simp] theorem sat_bind {f : α → Attempt σ β} {Q : β → σ → Prop} :
    Sat (m >>= f) s Q B ↔ Sat m s (fun a s' => Sat (f a) s' Q B) B := by
  simp only [Sat, bind]
  rcases m s with ⟨_ | _ | _, s'⟩ <;> rfl

@[simp] theorem sat_ite {p : Prop} [Decidable p] {m' : Attempt σ α} :
    Sat (if p then m else m') s Q B ↔ (p → Sat m s Q B) ∧ (¬ p → Sat m' s Q B) := by
  split <;> simp [*]

@[simp] theorem sat_when {p : Prop} [Decidable p] {m : Attempt σ Unit} {Q : Unit → σ → Prop} :
    Sat (when p m) s Q B ↔ (p → Sat m s Q B) ∧ (¬ p → Q () s) := by
  simp [when]

theorem sat_tryCatch {h : Attempt σ α} :
    Sat (tryCatch m h) s Q B ↔ Sat m s Q (fun s' => Sat h s' Q B) := by
  simp only [Sat, tryCatch]
  rcases m s with ⟨_ | _ | _, s'⟩ <;> rfl

/-- Consequence. -/
theorem Sat.mono {Q' : α → σ → Prop} {B' : σ → Prop} (h : Sat m s Q B) (hQ : ∀ a s', Q a s' → Q' a s')
    (hB : ∀ s', B s' → B' s') : Sat m s Q' B' := by
  revert h
  simp only [Sat]
  rcases m s with ⟨_ | _ | _, s'⟩
  · exact hQ _ s'
  · exact hB s'
  · exact id

/-- Two postconditions of one run hold together. -/
theorem Sat.and {Q' : α → σ → Prop} {B' : σ → Prop} (h : Sat m s Q B) (h' : Sat m s Q' B') :
    Sat m s (fun a s' => Q a s' ∧ Q' a s') (fun s' => B s' ∧ B' s') := by
  revert h h'
  simp only [Sat]
  rcases m s with ⟨_ | _ | _, s'⟩
  · exact fun h h' => ⟨h, h'⟩
  · exact fun h h' => ⟨h, h'⟩
  · exact fun _ _ => trivial

/-- What holds anyway. -/
theorem sat_of_forall (hQ : ∀ a s', Q a s') (hB : ∀ s', B s') : Sat m s Q B := by
  simp only [Sat]
  rcases m s with ⟨_ | _ | _, s'⟩
  · exact hQ _ s'
  · exact hB s'
  · trivial

/-- What comes first does not matter. -/
theorem sat_bind_of_forall {f : α → Attempt σ β} {Q : β → σ → Prop} (hf : ∀ a s', Sat (f a) s' Q B)
    (hB : ∀ s', B s') : Sat (m >>= f) s Q B :=
  sat_bind.mpr (sat_of_forall hf hB)

/-- What is known of a run that returned. -/
theorem Sat.returned {a : α} {s' : σ} (h : Sat m s Q B) (hm : m s = (.returned a, s')) : Q a s' := by
  rwa [Sat, hm] at h

/-- What is known of a run that threw. -/
theorem Sat.thrown {s' : σ} (h : Sat m s Q B) (hm : m s = (.thrown, s')) : B s' := by
  rwa [Sat, hm] at h

/-- What can be seen of a run that returns. -/
theorem exists_returned (m : Attempt σ α) (s : σ) (p : α → σ → Bool)
    (h : (match m s with | (.returned a, s') => p a s' | _ => false) = true) :
    ∃ a s', m s = (.returned a, s') ∧ p a s' = true := by
  rcases hm : m s with ⟨a | _ | _, s'⟩
  · rw [hm] at h
    exact ⟨a, s', rfl, h⟩
  · rw [hm] at h
    cases h
  · rw [hm] at h
    cases h

/-- Loop rule: `I b rest s` is kept by an iteration, where `rest` is what is left to do. -/
theorem sat_fold {f : β → α → Attempt σ β} (I : β → List α → σ → Prop)
    (hstep : ∀ b a rest s, I b (a :: rest) s → Sat (f b a) s (fun b' s' => I b' rest s') B) :
    ∀ {l : List α} {b : β} {s : σ}, I b l s → Sat (fold f b l) s (fun b' s' => I b' [] s') B
  | [], _, _, h => h
  | a :: as, b, s, h => by
      rw [fold, sat_bind]
      exact (hstep b a as s h).mono (fun _ _ h' => sat_fold I hstep h') (fun _ h' => h')

/-- And for a loop that collects results. -/
theorem sat_mapEach {f : α → Attempt σ β} (I : List α → σ → Prop)
    (hstep : ∀ a rest s, I (a :: rest) s → Sat (f a) s (fun _ s' => I rest s') B) :
    ∀ {l : List α} {s : σ}, I l s → Sat (mapEach f l) s (fun bs s' => bs.length = l.length ∧ I [] s') B
  | [], _, h => ⟨rfl, h⟩
  | a :: as, s, h => by
      rw [mapEach, sat_bind]
      refine (hstep a as s h).mono (fun b s' h' => ?_) (fun _ h' => h')
      rw [sat_bind]
      refine (sat_mapEach I hstep h').mono (fun bs s'' h'' => ?_) (fun _ h' => h')
      exact ⟨congrArg (· + 1) h''.1, h''.2⟩

/-! ### Invariants -/

/-- `m` keeps `I`, whether it returns or throws. -/
def Keeps (I : σ → Prop) (m : Attempt σ α) : Prop := ∀ s, I s → Sat m s (fun _ s' => I s') I

namespace Keeps
variable {I : σ → Prop}

theorem pure (a : α) : Keeps I (Pure.pure a) := fun _ h => h

theorem get : Keeps I Attempt.get := fun _ h => h

theorem assert (p : Prop) [Decidable p] : Keeps I (Attempt.assert p) := fun _ h => sat_assert.mpr fun _ => h

theorem ofOption (o : Option α) : Keeps I (Attempt.ofOption o) := fun _ h => sat_ofOption.mpr fun _ _ => h

theorem bind {f : α → Attempt σ β} (h : Keeps I m) (hf : ∀ a, Keeps I (f a)) : Keeps I (m >>= f) :=
  fun s hs => sat_bind.mpr ((h s hs).mono (fun a s' hs' => hf a s' hs') (fun _ h => h))

/-- What follows is run from a state in which the invariant holds. -/
theorem next {f : α → Attempt σ β} {Q : β → σ → Prop} (h : Keeps I m) (hs : I s)
    (hf : ∀ a s', I s' → Sat (f a) s' Q B) (hB : ∀ s', I s' → B s') : Sat (m >>= f) s Q B :=
  sat_bind.mpr ((h s hs).mono hf hB)

theorem ite {p : Prop} [Decidable p] {m' : Attempt σ α} (h : Keeps I m) (h' : Keeps I m') :
    Keeps I (if p then m else m') := by
  split
  · exact h
  · exact h'

theorem when {p : Prop} [Decidable p] {m : Attempt σ Unit} (h : Keeps I m) : Keeps I (Attempt.when p m) :=
  ite h (pure ())

theorem fold {f : β → α → Attempt σ β} (hf : ∀ b a, Keeps I (f b a)) (l : List α) (b : β) :
    Keeps I (Attempt.fold f b l) :=
  fun _ hs => sat_fold (fun _ _ s => I s) (fun b a _ s h => hf b a s h) hs

theorem mapEach {f : α → Attempt σ β} (hf : ∀ a, Keeps I (f a)) (l : List α) :
    Keeps I (Attempt.mapEach f l) :=
  fun _ hs => (sat_mapEach (fun _ s => I s) (fun a _ s h => hf a s h) hs).mono
    (fun _ _ h => h.2) (fun _ h => h)

end Keeps

end Attempt
end Dsnet
