import Mathlib.Tactic.Common

/-! Message handlers of a replica process, as functions of the process's state. A handler run
    changes the state, sends outputs, and either returns or is stopped half-way by a failed
    assertion; a stopped run keeps what it had changed and sent before.

    `Sat` is the handler's pair of postconditions (returned / stopped) and the `sat_*` lemmas are
    its rules: one for each way to build a handler, and consequence. -/

namespace Dsnet

/-- A handler on states `σ` with outputs `μ`: `none` is a run that an assertion stopped. -/
def Handler (σ μ α : Type) : Type := σ → Option α × σ × List μ

namespace Handler
variable {σ μ α β : Type}

instance : Monad (Handler σ μ) where
  pure a := fun s => (some a, s, [])
  bind m f := fun s =>
    match m s with
    | (none, s', o) => (none, s', o)
    | (some a, s', o) =>
      match f a s' with
      | (b, s'', o') => (b, s'', o ++ o')

/-- Read the state. -/
def get : Handler σ μ σ := fun s => (some s, s, [])

/-- Change the state. -/
def modify (f : σ → σ) : Handler σ μ Unit := fun s => (some (), f s, [])

/-- Send one output. -/
def emit (m : μ) : Handler σ μ Unit := fun s => (some (), s, [m])

/-- End the process here. -/
def abort : Handler σ μ α := fun s => (none, s, [])

/-- `ASSERT(p)`. -/
def assert (p : Prop) [Decidable p] : Handler σ μ Unit := if p then pure () else abort

/-- The value, or the end of the process when there is none. -/
def ofOption : Option α → Handler σ μ α
  | some a => pure a
  | none => abort

/-- `if (p) m` with nothing else to do. -/
def when (p : Prop) [Decidable p] (m : Handler σ μ Unit) : Handler σ μ Unit :=
  if p then m else pure ()

/-- Run `f` on the value, if there is one. -/
def whenSome (o : Option α) (f : α → Handler σ μ Unit) : Handler σ μ Unit :=
  match o with
  | some a => f a
  | none => pure ()

/-- `for (a : as) f(a)`. -/
def forEach : List α → (α → Handler σ μ Unit) → Handler σ μ Unit
  | [], _ => pure ()
  | a :: as, f => do
    f a
    forEach as f

/-- The body of a loop that is known to run `n` times. -/
def iterate : Nat → Handler σ μ Unit → Handler σ μ Unit
  | 0, _ => pure ()
  | n + 1, body => do
    body
    iterate n body

/-! ### Postconditions -/

/-- From `s`, `m` returns with `Q` or is stopped with `A`. -/
def Sat (m : Handler σ μ α) (s : σ) (Q : α → σ → List μ → Prop) (A : σ → List μ → Prop) : Prop :=
  match m s with
  | (some a, s', o) => Q a s' o
  | (none, s', o) => A s' o

variable {s : σ} {Q : α → σ → List μ → Prop} {A : σ → List μ → Prop}

@[simp] theorem sat_pure {a : α} : Sat (pure a) s Q A ↔ Q a s [] := Iff.rfl

@[simp] theorem sat_get {Q : σ → σ → List μ → Prop} : Sat get s Q A ↔ Q s s [] := Iff.rfl

@[simp] theorem sat_modify {f : σ → σ} {Q : Unit → σ → List μ → Prop} :
    Sat (modify f) s Q A ↔ Q () (f s) [] := Iff.rfl

@[simp] theorem sat_emit {m : μ} {Q : Unit → σ → List μ → Prop} :
    Sat (emit m) s Q A ↔ Q () s [m] := Iff.rfl

@[simp] theorem sat_abort : Sat (abort : Handler σ μ α) s Q A ↔ A s [] := Iff.rfl

@[simp] theorem sat_assert {p : Prop} [Decidable p] {Q : Unit → σ → List μ → Prop} :
    Sat (assert p) s Q A ↔ (p → Q () s []) ∧ (¬ p → A s []) := by
  unfold assert
  split <;> simp [*]

@[simp] theorem sat_ofOption {o : Option α} :
    Sat (ofOption o) s Q A ↔ (∀ a, o = some a → Q a s []) ∧ (o = none → A s []) := by
  cases o <;> simp [ofOption]

/-- Sequencing: the outputs of both parts, in order. -/
@[simp] theorem sat_bind {m : Handler σ μ α} {f : α → Handler σ μ β}
    {Q : β → σ → List μ → Prop} :
    Sat (m >>= f) s Q A ↔
      Sat m s (fun a s' o => Sat (f a) s' (fun b s'' o' => Q b s'' (o ++ o'))
        (fun s'' o' => A s'' (o ++ o'))) A := by
  simp only [Sat, bind]
  rcases m s with ⟨_ | a, s', o⟩
  · rfl
  · simp only
    rcases f a s' with ⟨_ | b, s'', o'⟩ <;> rfl

@[simp] theorem sat_ite {p : Prop} [Decidable p] {m m' : Handler σ μ α} :
    Sat (if p then m else m') s Q A ↔ (p → Sat m s Q A) ∧ (¬ p → Sat m' s Q A) := by
  split <;> simp [*]

/-- How a run that satisfies a postcondition ends. -/
theorem Sat.cases {m : Handler σ μ α} (h : Sat m s Q A) :
    (∃ a s' o, m s = (some a, s', o) ∧ Q a s' o) ∨ ∃ s' o, m s = (none, s', o) ∧ A s' o := by
  unfold Sat at h
  rcases hm : m s with ⟨_ | a, s', o⟩ <;> rw [hm] at h
  · exact Or.inr ⟨s', o, rfl, h⟩
  · exact Or.inl ⟨a, s', o, rfl, h⟩

/-- Consequence. -/
theorem Sat.mono {m : Handler σ μ α} {Q' : α → σ → List μ → Prop} {A' : σ → List μ → Prop}
    (h : Sat m s Q A) (hQ : ∀ a s' o, Q a s' o → Q' a s' o) (hA : ∀ s' o, A s' o → A' s' o) :
    Sat m s Q' A' := by
  revert h
  simp only [Sat]
  rcases m s with ⟨_ | a, s', o⟩
  · exact hA s' o
  · exact hQ a s' o

/-- Two postconditions of one run hold together. -/
theorem Sat.and {m : Handler σ μ α} {Q' : α → σ → List μ → Prop} {A' : σ → List μ → Prop}
    (h : Sat m s Q A) (h' : Sat m s Q' A') :
    Sat m s (fun a s' o => Q a s' o ∧ Q' a s' o) (fun s' o => A s' o ∧ A' s' o) := by
  revert h h'
  simp only [Sat]
  rcases m s with ⟨_ | a, s', o⟩ <;> exact fun h h' => ⟨h, h'⟩

/-- A run ends in its own final state. -/
theorem sat_state (m : Handler σ μ α) (s : σ) :
    Sat m s (fun _ s' _ => s' = (m s).2.1) (fun s' _ => s' = (m s).2.1) := by
  simp only [Sat]
  rcases m s with ⟨_ | a, s', o⟩ <;> rfl

/-- What holds however a run ends holds of its final state. -/
theorem state_of_sat {m : Handler σ μ α} {I : σ → Prop}
    (h : Sat m s (fun _ s' _ => I s') (fun s' _ => I s')) : I (m s).2.1 := by
  rcases h.cases with ⟨_, _, _, hm, h⟩ | ⟨_, _, hm, h⟩ <;> rwa [hm]

@[simp] theorem sat_when {p : Prop} [Decidable p] {m : Handler σ μ Unit}
    {Q : Unit → σ → List μ → Prop} :
    Sat (when p m) s Q A ↔ (p → Sat m s Q A) ∧ (¬ p → Q () s []) := by
  simp [when]

@[simp] theorem sat_whenSome {o : Option α} {f : α → Handler σ μ Unit}
    {Q : Unit → σ → List μ → Prop} :
    Sat (whenSome o f) s Q A ↔ (∀ a, o = some a → Sat (f a) s Q A) ∧ (o = none → Q () s []) := by
  cases o <;> simp [whenSome]

/-- A loop over two lists is the one after the other. -/
theorem sat_forEach_append {f : α → Handler σ μ Unit} :
    ∀ {l l' : List α} {s : σ} {Q : Unit → σ → List μ → Prop} {A : σ → List μ → Prop},
      Sat (forEach (l ++ l') f) s Q A ↔
        Sat (forEach l f) s (fun _ s' o => Sat (forEach l' f) s'
          (fun b s'' o' => Q b s'' (o ++ o')) (fun s'' o' => A s'' (o ++ o'))) A
  | [], l', s, Q, A => by simp [forEach]
  | a :: as, l', s, Q, A => by
      simp only [List.cons_append, forEach, sat_bind, sat_forEach_append, List.append_assoc]

theorem sat_forEach_from {f : α → Handler σ μ Unit} (I : List α → σ → List μ → Prop)
    (hstep : ∀ a rest s o, I (a :: rest) s o →
      Sat (f a) s (fun _ s' o' => I rest s' (o ++ o')) (fun s' o' => A s' (o ++ o'))) :
    ∀ {l : List α} {s : σ} {o : List μ}, I l s o →
      Sat (forEach l f) s (fun _ s' o' => I [] s' (o ++ o')) (fun s' o' => A s' (o ++ o'))
  | [], s, o, h => by simpa [forEach] using h
  | a :: as, s, o, h => by
      rw [forEach, sat_bind]
      refine (hstep a as s o h).mono ?_ (fun _ _ h => h)
      intro _ s' o' h'
      simpa only [List.append_assoc] using sat_forEach_from I hstep h'

/-- Loop rule: `I rest s o` is kept by an iteration, where `rest` is what is left to do and `o`
    what the loop has sent. -/
theorem sat_forEach {f : α → Handler σ μ Unit} (I : List α → σ → List μ → Prop) {l : List α}
    (h0 : I l s [])
    (hstep : ∀ a rest s o, I (a :: rest) s o →
      Sat (f a) s (fun _ s' o' => I rest s' (o ++ o')) (fun s' o' => A s' (o ++ o'))) :
    Sat (forEach l f) s (fun _ s' o => I [] s' o) A := by
  simpa only [List.nil_append] using sat_forEach_from I hstep h0

theorem sat_iterate_from {body : Handler σ μ Unit} (I : Nat → σ → List μ → Prop)
    (hstep : ∀ n s o, I (n + 1) s o →
      Sat body s (fun _ s' o' => I n s' (o ++ o')) (fun s' o' => A s' (o ++ o'))) :
    ∀ {n : Nat} {s : σ} {o : List μ}, I n s o →
      Sat (iterate n body) s (fun _ s' o' => I 0 s' (o ++ o')) (fun s' o' => A s' (o ++ o'))
  | 0, s, o, h => by simpa [iterate] using h
  | n + 1, s, o, h => by
      rw [iterate, sat_bind]
      refine (hstep n s o h).mono ?_ (fun _ _ h => h)
      intro _ s' o' h'
      simpa only [List.append_assoc] using sat_iterate_from I hstep h'

/-- Loop rule for a counted loop, with the number of rounds that are left. -/
theorem sat_iterate {body : Handler σ μ Unit} (I : Nat → σ → List μ → Prop) {n : Nat}
    (h0 : I n s [])
    (hstep : ∀ n s o, I (n + 1) s o →
      Sat body s (fun _ s' o' => I n s' (o ++ o')) (fun s' o' => A s' (o ++ o'))) :
    Sat (iterate n body) s (fun _ s' o => I 0 s' o) A := by
  simpa only [List.nil_append] using sat_iterate_from I hstep h0

/-- A handler that has been put together goes on as its last part does. -/
theorem bind_bind {γ : Type} (m : Handler σ μ α) (f : α → Handler σ μ β) (g : β → Handler σ μ γ) :
    m >>= f >>= g = m >>= fun a => f a >>= g := by
  funext s
  simp only [bind]
  rcases m s with ⟨_ | a, s', o⟩
  · rfl
  · simp only
    rcases f a s' with ⟨_ | b, s'', o'⟩
    · rfl
    · simp only [List.append_assoc]

theorem get_bind (f : σ → Handler σ μ β) (s : σ) : (get >>= f) s = f s s := rfl

/-- What comes after a handler that has returned and sent nothing. -/
theorem bind_of_eq {m : Handler σ μ α} {f : α → Handler σ μ β} {a : α} {s s' : σ}
    (h : m s = (some a, s', [])) : (m >>= f) s = f a s' := by
  simp only [bind, h]
  rfl

/-! ### Invariants -/

/-- From a state in `I`, `m` returns in `I` or is stopped in `J`, and what it sends is in `O`. -/
def Keeps (I J : σ → Prop) (O : List μ → Prop) (m : Handler σ μ α) : Prop :=
  ∀ s, I s → Sat m s (fun _ s' o => I s' ∧ O o) (fun s' o => J s' ∧ O o)

variable {I J : σ → Prop} {O : List μ → Prop}

/-- Use an invariant in the middle of a proof about a larger handler. -/
theorem Keeps.sat {m : Handler σ μ α} (hm : Keeps I J O m) (hs : I s)
    (hQ : ∀ a s' o, I s' → O o → Q a s' o) (hA : ∀ s' o, J s' → O o → A s' o) : Sat m s Q A :=
  (hm s hs).mono (fun a s' o h => hQ a s' o h.1 h.2) (fun s' o h => hA s' o h.1 h.2)

theorem Keeps.forEach {f : α → Handler σ μ Unit} (hf : ∀ a, Keeps I J O (f a)) (hnil : O [])
    (happ : ∀ o o', O o → O o' → O (o ++ o')) (l : List α) : Keeps I J O (forEach l f) := by
  intro s hs
  refine sat_forEach (fun _ s o => I s ∧ O o) ⟨hs, hnil⟩ ?_
  rintro a _ t o ⟨ht, ho⟩
  exact (hf a).sat ht (fun _ _ o' h ho' => ⟨h, happ o o' ho ho'⟩)
    (fun _ o' h ho' => ⟨h, happ o o' ho ho'⟩)

/-! ### What a handler sends -/

/-- However `m` runs, all it sends is in `P`. -/
def Emits (P : μ → Prop) (m : Handler σ μ α) : Prop :=
  ∀ s, Sat m s (fun _ _ o => ∀ x ∈ o, P x) fun _ o => ∀ x ∈ o, P x

section Emits
variable {P : μ → Prop}

theorem emits_pure {a : α} : Emits P (pure a : Handler σ μ α) := fun _ => by simp

theorem emits_get : Emits P (get : Handler σ μ σ) := fun _ => by simp

theorem emits_modify {f : σ → σ} : Emits P (modify f) := fun _ => by simp

theorem emits_abort : Emits P (abort : Handler σ μ α) := fun _ => by simp

theorem emits_emit {m : μ} (hm : P m) : Emits P (emit m : Handler σ μ Unit) := fun _ => by simpa using hm

theorem emits_assert {p : Prop} [Decidable p] : Emits P (assert p : Handler σ μ Unit) := fun _ => by simp

theorem emits_ofOption {o : Option α} : Emits P (ofOption o : Handler σ μ α) := fun _ => by simp

theorem Emits.bind {m : Handler σ μ α} {f : α → Handler σ μ β} (hm : Emits P m)
    (hf : ∀ a, Emits P (f a)) : Emits P (m >>= f) := by
  intro s
  refine sat_bind.mpr ((hm s).mono (fun a s' o ho => ?_) fun _ _ h => h)
  exact (hf a s').mono (fun _ _ o' ho' x hx => (List.mem_append.mp hx).elim (ho x) (ho' x))
    fun _ o' ho' x hx => (List.mem_append.mp hx).elim (ho x) (ho' x)

theorem Emits.ite {p : Prop} [Decidable p] {m m' : Handler σ μ α} (hm : Emits P m) (hm' : Emits P m') :
    Emits P (if p then m else m') := fun s => sat_ite.mpr ⟨fun _ => hm s, fun _ => hm' s⟩

theorem Emits.when {p : Prop} [Decidable p] {m : Handler σ μ Unit} (hm : Emits P m) :
    Emits P (when p m) := hm.ite emits_pure

theorem Emits.whenSome {o : Option α} {f : α → Handler σ μ Unit} (hf : ∀ a, Emits P (f a)) :
    Emits P (whenSome o f) := by
  cases o with
  | none => exact emits_pure
  | some a => exact hf a

theorem Emits.forEach {f : α → Handler σ μ Unit} (hf : ∀ a, Emits P (f a)) :
    ∀ l : List α, Emits P (forEach l f)
  | [] => emits_pure
  | a :: as => (hf a).bind fun _ => Emits.forEach hf as

theorem Emits.iterate {m : Handler σ μ Unit} (hm : Emits P m) : ∀ n : Nat, Emits P (iterate n m)
  | 0 => emits_pure
  | n + 1 => hm.bind fun _ => Emits.iterate hm n

end Emits

/-! ### Histories -/

/-- The history `f` of the state records what `g` takes from the outputs. -/
def Records {β : Type} (f : σ → List β) (g : μ → List β) (m : Handler σ μ α) : Prop :=
  ∀ s, Sat m s (fun _ s' o => f s' = f s ++ o.flatMap g) fun s' o => f s' = f s ++ o.flatMap g

section Records
variable {η : Type} {f : σ → List η} {g : μ → List η}

theorem records_pure {a : α} : Records f g (pure a : Handler σ μ α) := fun _ => by simp

theorem records_get : Records f g (get : Handler σ μ σ) := fun _ => by simp

theorem records_modify {h : σ → σ} (hf : ∀ s, f (h s) = f s) : Records f g (modify h) := fun s => by
  simp [hf s]

theorem records_abort : Records f g (abort : Handler σ μ α) := fun _ => by simp

theorem records_ofOption {o : Option α} : Records f g (ofOption o : Handler σ μ α) := fun _ => by simp

theorem records_emit {m : μ} (hm : g m = []) : Records f g (emit m : Handler σ μ Unit) := fun _ => by simp [hm]

theorem Records.bind {m : Handler σ μ α} {k : α → Handler σ μ β} (hm : Records f g m)
    (hk : ∀ a, Records f g (k a)) : Records f g (m >>= k) := by
  intro s
  refine sat_bind.mpr ((hm s).mono (fun a s' o ho => ?_) fun _ _ h => h)
  have happend {s'' : σ} {o' : List μ} (ho' : f s'' = f s' ++ o'.flatMap g) :
      f s'' = f s ++ (o ++ o').flatMap g := by
    rw [ho', ho, List.flatMap_append, List.append_assoc]
  exact (hk a s').mono (fun _ _ _ => happend) fun _ _ => happend

theorem Records.ite {p : Prop} [Decidable p] {m m' : Handler σ μ α} (hm : Records f g m)
    (hm' : Records f g m') : Records f g (if p then m else m') :=
  fun s => sat_ite.mpr ⟨fun _ => hm s, fun _ => hm' s⟩

theorem Records.when {p : Prop} [Decidable p] {m : Handler σ μ Unit} (hm : Records f g m) :
    Records f g (when p m) := hm.ite records_pure

theorem Records.whenSome {o : Option α} {k : α → Handler σ μ Unit} (hk : ∀ a, Records f g (k a)) :
    Records f g (whenSome o k) := by
  cases o with
  | none => exact records_pure
  | some a => exact hk a

theorem Records.forEach {k : α → Handler σ μ Unit} (hk : ∀ a, Records f g (k a)) :
    ∀ l : List α, Records f g (forEach l k)
  | [] => records_pure
  | a :: as => (hk a).bind fun _ => Records.forEach hk as

end Records

end Handler
end Dsnet
