import Mathlib.Data.List.Forall2
import Dsnet.Lib.Attempt

/-! Two computations on different states, of which the second follows the first: whenever the first returns, the second
    returns something that corresponds, and leaves a state that does. It may also be allowed not to return. -/

namespace Dsnet.Attempt
variable {σ σ' α β γ δ : Type} {total : Prop} {R : σ → σ' → Prop} {V : α → β → Prop} {W : γ → δ → Prop}

/-- From the states `s` and `s'`: when `m` returns, what `m'` returns and leaves corresponds, and if it is `total` then
    it returns. -/
def FollowsAt (total : Prop) (R : σ → σ' → Prop) (V : α → β → Prop) (m : Attempt σ α) (m' : Attempt σ' β) (s : σ)
    (s' : σ') : Prop :=
  ∀ a t, m s = (.returned a, t) →
    (∀ b t', m' s' = (.returned b, t') → V a b ∧ R t t') ∧ (total → ∃ b t', m' s' = (.returned b, t'))

/-- And from all states that correspond. -/
def Follows (total : Prop) (R : σ → σ' → Prop) (V : α → β → Prop) (m : Attempt σ α) (m' : Attempt σ' β) : Prop :=
  ∀ s s', R s s' → FollowsAt total R V m m' s s'

variable {m : Attempt σ α} {m' : Attempt σ' β}

theorem Follows.pure {a : α} {b : β} (h : V a b) : Follows total R V (Pure.pure a) (Pure.pure b) := by
  intro s s' hs a' t ht
  cases ht
  refine ⟨fun b' t' ht' => ?_, fun _ => ⟨b, s', rfl⟩⟩
  cases ht'
  exact ⟨h, hs⟩

/-- A run of `m >>= k` that returns is one of `m` and then one of `k`. -/
theorem bind_eq_returned {k : α → Attempt σ γ} {s t : σ} {c : γ} :
    (m >>= k) s = (.returned c, t) ↔ ∃ a u, m s = (.returned a, u) ∧ k a u = (.returned c, t) := by
  simp only [bind]
  rcases hm : m s with ⟨a | _ | _, u⟩
  · constructor
    · exact fun h => ⟨a, u, rfl, h⟩
    · rintro ⟨a', u', h, hk⟩
      cases h
      exact hk
  · exact ⟨fun h => (by cases h), fun ⟨_, _, h, _⟩ => (by cases h)⟩
  · exact ⟨fun h => (by cases h), fun ⟨_, _, h, _⟩ => (by cases h)⟩

theorem Follows.bind {k : α → Attempt σ γ} {k' : β → Attempt σ' δ} (h : Follows total R V m m')
    (hk : ∀ a b, V a b → Follows total R W (k a) (k' b)) : Follows total R W (m >>= k) (m' >>= k') := by
  intro s s' hs c t ht
  obtain ⟨a, u, hm, hk₁⟩ := bind_eq_returned.mp ht
  obtain ⟨hret, htotal⟩ := h s s' hs a u hm
  refine ⟨fun d t' ht' => ?_, fun hfree => ?_⟩
  · obtain ⟨b, u', hm', hk'⟩ := bind_eq_returned.mp ht'
    obtain ⟨hV, hu⟩ := hret b u' hm'
    exact (hk a b hV u u' hu c t hk₁).1 d t' hk'
  · obtain ⟨b, u', hm'⟩ := htotal hfree
    obtain ⟨hV, hu⟩ := hret b u' hm'
    obtain ⟨d, t', hk'⟩ := (hk a b hV u u' hu c t hk₁).2 hfree
    exact ⟨d, t', bind_eq_returned.mpr ⟨b, u', hm', hk'⟩⟩

/-- The second makes something of its result. -/
theorem Follows.mapRight {W : α → δ → Prop} {g : β → δ} (h : Follows total R V m m') (hg : ∀ a b, V a b → W a (g b)) :
    Follows total R W m (m' >>= fun b => Pure.pure (g b)) := by
  intro s s' hs a t ht
  obtain ⟨hret, htotal⟩ := h s s' hs a t ht
  refine ⟨fun d t' ht' => ?_, fun hfree => ?_⟩
  · obtain ⟨b, u', hm', hk'⟩ := bind_eq_returned.mp ht'
    cases hk'
    exact ⟨hg a b (hret b t' hm').1, (hret b t' hm').2⟩
  · obtain ⟨b, t', hm'⟩ := htotal hfree
    exact ⟨g b, t', bind_eq_returned.mpr ⟨b, t', hm', rfl⟩⟩

/-- What follows `get` may depend on the states. -/
theorem Follows.get {k : σ → Attempt σ γ} {k' : σ' → Attempt σ' δ}
    (hk : ∀ s s', R s s' → FollowsAt total R W (k s) (k' s') s s') :
    Follows total R W (Attempt.get >>= k) (Attempt.get >>= k') := hk

/-- Only the second reads its state. -/
theorem Follows.getRight {k' : σ' → Attempt σ' β} (hk : ∀ s s', R s s' → FollowsAt total R V m (k' s') s s') :
    Follows total R V m (Attempt.get >>= k') := hk

theorem Follows.ofOption {o : Option α} {o' : Option β} (h : ∀ a, o = some a → ∃ b, o' = some b ∧ V a b) :
    Follows total R V (Attempt.ofOption o) (Attempt.ofOption o') := by
  cases o with
  | none =>
    intro s s' _ a t ht
    cases ht
  | some a =>
    obtain ⟨b, rfl, hV⟩ := h a rfl
    exact .pure hV

/-- The second assertion has to hold only if the run is to be total. -/
theorem Follows.assert {p p' : Prop} [Decidable p] [Decidable p'] (h : total → p → p') :
    Follows total R (fun _ _ => True) (Attempt.assert p) (Attempt.assert p') := by
  intro s s' hs a t ht
  have hp : p := by
    by_contra hp
    rw [Attempt.assert, if_neg hp] at ht
    cases ht
  rw [Attempt.assert, if_pos hp] at ht
  cases ht
  by_cases hp' : p'
  · rw [Attempt.assert, if_pos hp']
    refine ⟨fun b t' ht' => ?_, fun _ => ⟨(), s', rfl⟩⟩
    cases ht'
    exact ⟨trivial, hs⟩
  · rw [Attempt.assert, if_neg hp']
    exact ⟨fun b t' ht' => (by cases ht'), fun hfree => absurd (h hfree hp) hp'⟩

theorem Follows.modify {f : σ → σ} {f' : σ' → σ'} (h : ∀ s s', R s s' → R (f s) (f' s')) :
    Follows total R (fun _ _ => True) (Attempt.modify f) (Attempt.modify f') := by
  intro s s' hs a t ht
  cases ht
  refine ⟨fun b t' ht' => ?_, fun _ => ⟨_, _, rfl⟩⟩
  cases ht'
  exact ⟨trivial, h s s' hs⟩

/-- What neither of them does shows in the other state. -/
theorem Follows.hidden {m : Attempt σ Unit} {m' : Attempt σ' Unit}
    (h : ∀ s s', R s s' → Sat m s (fun _ t => R t s') fun _ => True)
    (h' : ∀ s s', R s s' → Sat m' s' (fun _ t' => R s t') fun _ => True)
    (htotal : total → ∀ s s', R s s' → ∃ b t', m' s' = (.returned b, t')) :
    Follows total R (fun _ _ => True) m m' := by
  intro s s' hs a t ht
  have hleft := (h s s' hs).returned ht
  exact ⟨fun b t' ht' => ⟨trivial, (h' t s' hleft).returned ht'⟩, fun hfree => htotal hfree s s' hs⟩

theorem Follows.fold {ε : Type} {f : α → ε → Attempt σ α} {f' : β → ε → Attempt σ' β} :
    ∀ {l : List ε} {a : α} {b : β}, (∀ x ∈ l, ∀ a b, V a b → Follows total R V (f a x) (f' b x)) → V a b →
      Follows total R V (Attempt.fold f a l) (Attempt.fold f' b l)
  | [], _, _, _, h => .pure h
  | x :: _, _, _, hf, h => .bind (hf x (List.mem_cons_self ..) _ _ h) fun _ _ h' =>
      .fold (fun y hy => hf y (List.mem_cons_of_mem _ hy)) h'

theorem Follows.mapEach {ε : Type} {f : ε → Attempt σ α} {f' : ε → Attempt σ' β} :
    ∀ {l : List ε}, (∀ x ∈ l, Follows total R V (f x) (f' x)) →
      Follows total R (List.Forall₂ V) (Attempt.mapEach f l) (Attempt.mapEach f' l)
  | [], _ => .pure .nil
  | x :: _, hf => .bind (hf x (List.mem_cons_self ..)) fun _ _ h =>
      .bind (.mapEach fun y hy => hf y (List.mem_cons_of_mem _ hy)) fun _ _ hs => .pure (.cons h hs)

end Dsnet.Attempt
