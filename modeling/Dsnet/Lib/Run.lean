import Mathlib.Tactic.Common

/-! Runs of a transition system whose steps are labelled with events. A run keeps the states it
    has passed, so that a statement about "some earlier state" can be made of it, and it may be
    held to a condition on the state before each step and the event (`C`).

    `Run.invariant` is the induction every safety theorem goes through; `Run.of_exec` turns the
    evaluation of a list of events into a run. -/

namespace Dsnet

/-- States `σ`, events `ε`; an event may be impossible in a state. -/
structure System (σ ε : Type) where
  init : σ
  step : σ → ε → Option σ

variable {σ ε : Type}

/-- `Run S C past s`: `s` is reached by steps that all meet `C`, through `past`, newest first. -/
inductive Run (S : System σ ε) (C : σ → ε → Prop) : List σ → σ → Prop
  | start : Run S C [] S.init
  | next {past : List σ} {s s' : σ} {e : ε} :
      Run S C past s → C s e → S.step s e = some s' → Run S C (s :: past) s'

namespace Run
variable {S : System σ ε} {C : σ → ε → Prop}

/-- What holds at the start and is kept by every step holds all along. -/
theorem invariant {I : List σ → σ → Prop} (h0 : I [] S.init)
    (hs : ∀ past s e s', Run S C past s → I past s → C s e → S.step s e = some s' →
      I (s :: past) s') {past : List σ} {s : σ} (h : Run S C past s) : I past s := by
  induction h with
  | start => exact h0
  | next hr hc hst ih => exact hs _ _ _ _ hr ih hc hst

/-- A run that meets a condition meets every weaker one. -/
theorem weaken {C' : σ → ε → Prop} (hC : ∀ s e, C s e → C' s e) {past : List σ} {s : σ}
    (h : Run S C past s) : Run S C' past s := by
  induction h with
  | start => exact .start
  | next _ hc hst ih => exact .next ih (hC _ _ hc) hst

/-- What a run's condition says of the states is so of all it has passed. -/
theorem forall_past {p : σ → Prop} (hC : ∀ s e, C s e → p s) {past : List σ} {s : σ}
    (h : Run S C past s) : ∀ t ∈ past, p t := by
  induction h with
  | start => exact fun t ht => by cases ht
  | next _ hc _ ih => exact List.forall_mem_cons.mpr ⟨hC _ _ hc, ih⟩

end Run

/-- The system, with the events that have led to its state, newest first. -/
def System.recorded (S : System σ ε) : System (σ × List ε) ε where
  init := (S.init, [])
  step x e := (S.step x.1 e).map fun s => (s, e :: x.2)

theorem System.recorded_step_eq_some {S : System σ ε} {x y : σ × List ε} {e : ε} :
    S.recorded.step x e = some y ↔ S.step x.1 e = some y.1 ∧ y.2 = e :: x.2 := by
  constructor
  · intro h
    obtain ⟨s, hs, rfl⟩ := Option.map_eq_some_iff.mp h
    exact ⟨hs, rfl⟩
  · rintro ⟨hs, hy⟩
    exact Option.map_eq_some_iff.mpr ⟨y.1, hs, Prod.ext rfl hy.symm⟩

/-- A run with its events is one without them. -/
theorem Run.of_recorded {S : System σ ε} {C : σ × List ε → ε → Prop} {past : List (σ × List ε)} {x : σ × List ε}
    (h : Run S.recorded C past x) : Run S (fun _ _ => True) (past.map Prod.fst) x.1 := by
  induction h with
  | start => exact .start
  | next _ _ hst ih => exact .next ih trivial (System.recorded_step_eq_some.mp hst).1

/-- The events of a run can be written down. -/
theorem Run.record {S : System σ ε} {C : σ → ε → Prop} {past : List σ} {s : σ} (h : Run S C past s) :
    ∃ past' es, Run S.recorded (fun x e => C x.1 e) past' (s, es) := by
  induction h with
  | start => exact ⟨_, _, .start⟩
  | next _ hc hst ih =>
    obtain ⟨past', es, ih⟩ := ih
    exact ⟨_, _, .next ih hc (System.recorded_step_eq_some.mpr ⟨hst, rfl⟩)⟩

/-- Take the events one after the other, as long as each is possible and meets `C`. -/
def exec (S : System σ ε) (C : σ → ε → Prop) [∀ s e, Decidable (C s e)] : σ → List ε → Option σ
  | s, [] => some s
  | s, e :: es => if C s e then (S.step s e).bind (exec S C · es) else none

theorem Run.of_exec {S : System σ ε} {C : σ → ε → Prop} [∀ s e, Decidable (C s e)] :
    ∀ {es : List ε} {past : List σ} {s s' : σ}, Run S C past s → exec S C s es = some s' →
      ∃ past', Run S C past' s'
  | [], past, s, s', h, he => by
      obtain rfl : s = s' := by simpa [exec] using he
      exact ⟨past, h⟩
  | e :: es, past, s, s', h, he => by
      unfold exec at he
      split_ifs at he with hc
      obtain ⟨s₁, hs, he⟩ := Option.bind_eq_some_iff.mp he
      exact Run.of_exec (.next h hc hs) he

/-- What can be seen of the state that a list of events leads to is so at the end of a run. -/
theorem Run.exists_of_exec (S : System σ ε) (C : σ → ε → Prop) [∀ s e, Decidable (C s e)]
    (es : List ε) (p : σ → Bool) (h : (exec S C S.init es).any p = true) :
    ∃ past s, Run S C past s ∧ p s = true := by
  obtain ⟨s, he, hp⟩ := (Option.any_eq_true _ _).mp h
  obtain ⟨past, hr⟩ := Run.of_exec .start he
  exact ⟨past, s, hr, hp⟩

end Dsnet
