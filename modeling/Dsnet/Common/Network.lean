import Dsnet.Lib.Frame
import Dsnet.Lib.Run
import Dsnet.Common.Replica

/-! `lib/transport.h`: a group of replicas and the network between them, for the protocols whose
    replicas never restart. Every packet ever sent stays in `net`; an event may deliver any of them at
    any time, so a run loses, duplicates and reorders messages as it likes. A replica whose handler
    was stopped by an assertion takes no further step.

    An invariant of such a group is stated against a ghost, a value that records what the messages
    under way and the replicas may rely on of each other (`GhostInvariant`). A step of one replica
    moves the ghost on, and what the others rely on stays true. -/

namespace Dsnet.Net
open Handler

variable {σ μ ν τ κ : Type}

/-- A message on its way to replica `dst`. -/
structure Packet (μ : Type) where
  src : Addr
  dst : Nat
  msg : μ
  deriving DecidableEq, Repr

/-- What a replica hands to its transport: messages `μ` to replicas, `ν` to clients. -/
inductive Output (μ ν : Type) where
  | toReplica (idx : Nat) (m : μ)
  | toAll (m : μ)
  | toAddr (addr : Addr) (m : μ)
  | toClient (addr : Addr) (m : ν)
  deriving DecidableEq, Repr

/-- A replication protocol: its replicas, with states `σ` and timers `τ`, and what clients ask. -/
structure Protocol (σ μ ν τ κ : Type) where
  n : Nat
  init : Nat → σ
  receive : Nat → Addr → μ → Handler σ (Output μ ν) Unit
  timeout : Nat → τ → Handler σ (Output μ ν) Unit
  active : σ → τ → Bool
  /-- The message in which a client asks for `κ`. -/
  ask : Nat → κ → μ

/-- What can happen next. -/
inductive Event (τ κ : Type) where
  /-- What a client asks reaches replica `r`. -/
  | client (r c : Nat) (k : κ)
  /-- The `i`-th packet is delivered. -/
  | deliver (i : Nat)
  /-- A timer of replica `r` fires. -/
  | timeout (r : Nat) (t : τ)
  deriving DecidableEq, Repr

/-- The group and its network. -/
structure Sys (σ μ : Type) where
  replica : Nat → σ
  stopped : Nat → Bool
  net : List (Packet μ)

/-- The packets an output of replica `src` puts on the network (`SendMessageToAll` leaves the sender
    out). -/
def packets (n src : Nat) : Output μ ν → List (Packet μ)
  | .toReplica i m => [⟨.replica src, i, m⟩]
  | .toAll m => ((List.range n).filter (· ≠ src)).map fun i => ⟨.replica src, i, m⟩
  | .toAddr (.replica i) m => [⟨.replica src, i, m⟩]
  | .toAddr (.client _) _ => []
  | .toClient _ _ => []

/-- Replica `r` has run a handler, with this outcome. -/
def Sys.after (n : Nat) (s : Sys σ μ) (r : Nat) (x : Option Unit × σ × List (Output μ ν)) :
    Sys σ μ where
  replica i := if i = r then x.2.1 else s.replica i
  stopped i := if i = r then x.1.isNone else s.stopped i
  net := s.net ++ x.2.2.flatMap (packets n r)

variable (P : Protocol σ μ ν τ κ)

/-- The replica that takes the step, and the handler it runs. -/
def Event.handler (s : Sys σ μ) : Event τ κ → Option (Nat × Handler σ (Output μ ν) Unit)
  | .client r c k => some (r, P.receive r (.client c) (P.ask c k))
  | .deliver i => s.net[i]?.map fun p => (p.dst, P.receive p.dst p.src p.msg)
  | .timeout r t => if P.active (s.replica r) t then some (r, P.timeout r t) else none

/-- One step of the group. -/
def Sys.step (s : Sys σ μ) (e : Event τ κ) : Option (Sys σ μ) :=
  (e.handler P s).bind fun (r, m) =>
    if r < P.n ∧ s.stopped r = false then some (s.after P.n r (m (s.replica r))) else none

/-- The group as it is constructed. -/
def Sys.initial : Sys σ μ where
  replica := P.init
  stopped _ := false
  net := []

/-- The runs of a group. -/
def system : System (Sys σ μ) (Event τ κ) := { init := Sys.initial P, step := Sys.step P }

variable {P}

/-- A step is the run of one handler by one replica, which has not been stopped. -/
theorem Sys.step_eq_some {s s' : Sys σ μ} {e : Event τ κ} (h : s.step P e = some s') :
    ∃ r m, e.handler P s = some (r, m) ∧ r < P.n ∧ s.stopped r = false ∧
      s' = s.after P.n r (m (s.replica r)) := by
  obtain ⟨⟨r, m⟩, hm, h⟩ := Option.bind_eq_some_iff.mp h
  simp only at h
  split_ifs at h with hr
  exact ⟨r, m, hm, hr.1, hr.2, (Option.some.inj h).symm⟩

/-- The handler of an event is that of something a client asks, of a packet under way, or of an active
    timer. -/
theorem Event.of_handler {s : Sys σ μ} {e : Event τ κ} {r : Nat}
    {m : Handler σ (Output μ ν) Unit} (h : e.handler P s = some (r, m)) :
    (∃ c k, e = .client r c k ∧ m = P.receive r (.client c) (P.ask c k)) ∨
    (∃ i p, e = .deliver i ∧ s.net[i]? = some p ∧ p.dst = r ∧ m = P.receive r p.src p.msg) ∨
    ∃ t, e = .timeout r t ∧ P.active (s.replica r) t = true ∧ m = P.timeout r t := by
  cases e with
  | client r' c k =>
    obtain ⟨rfl, rfl⟩ : r' = r ∧ _ := by simpa [Event.handler] using h
    exact Or.inl ⟨c, k, rfl, rfl⟩
  | deliver i =>
    obtain ⟨p, hp, hpe⟩ := Option.map_eq_some_iff.mp h
    cases hpe
    exact Or.inr (Or.inl ⟨i, p, rfl, hp, rfl, rfl⟩)
  | timeout r' t =>
    simp only [Event.handler] at h
    split_ifs at h with ht
    cases h
    exact Or.inr (Or.inr ⟨t, rfl, ht, rfl⟩)

/-- What every handler keeps of a replica holds of those that run. -/
theorem kept_of_run {I : σ → Prop} (hinit : ∀ r, I (P.init r))
    (hreceive : ∀ r a m, Relates (Kept I) (P.receive r a m))
    (htimeout : ∀ r t, Relates (Kept I) (P.timeout r t)) {C : Sys σ μ → Event τ κ → Prop}
    {past : List (Sys σ μ)} {s : Sys σ μ} (h : Run (system P) C past s) :
    ∀ r, s.stopped r = false → I (s.replica r) := by
  refine Run.invariant (I := fun _ s => ∀ r, s.stopped r = false → I (s.replica r))
    (fun r _ => hinit r) ?_ h
  intro _ s e s' _ hs _ hstep r hlive
  obtain ⟨x, m, hm, _, _, rfl⟩ := Sys.step_eq_some hstep
  have hkept : Relates (Kept I) m := by
    rcases Event.of_handler hm with ⟨_, _, _, rfl⟩ | ⟨_, _, _, _, _, rfl⟩ | ⟨_, _, _, rfl⟩
    · exact hreceive _ _ _
    · exact hreceive _ _ _
    · exact htimeout _ _
  by_cases hr : r = x
  · subst hr
    rcases (hkept (s.replica r)).cases with ⟨_, t, o, hrun, ht⟩ | ⟨t, o, hrun, _⟩
    · rw [hrun]
      simpa [Sys.after] using ht (hs r ‹_›)
    · rw [hrun] at hlive
      simp [Sys.after] at hlive
  · simp only [Sys.after, if_neg hr] at hlive ⊢
    exact hs r hlive

/-! ### What has arrived -/

variable (P) in
/-- The event brings the message to replica `r`. -/
def Brings (s : Sys σ μ) (r : Nat) (m : μ) : Event τ κ → Prop
  | .client r' c k => r' = r ∧ P.ask c k = m
  | .deliver i => ∃ p ∈ s.net[i]?, p.dst = r ∧ p.msg = m
  | .timeout _ _ => False

variable (P) in
/-- One of the events up to now has brought the message to replica `r`. -/
def Arrived (x : Sys σ μ × List (Event τ κ)) (r : Nat) (m : μ) : Prop := ∃ e ∈ x.2, Brings P x.1 r m e

/-- What an event runs is the handler of the message that it brings, or of a timer. -/
theorem brings_of_handler {s : Sys σ μ} {e : Event τ κ} {r : Nat} {h : Handler σ (Output μ ν) Unit}
    (hh : e.handler P s = some (r, h)) :
    (∃ a m, h = P.receive r a m ∧ ∀ r' m', Brings P s r' m' e ↔ r' = r ∧ m' = m) ∨
      ∃ t, P.active (s.replica r) t = true ∧ h = P.timeout r t ∧ ∀ r' m', ¬ Brings P s r' m' e := by
  rcases Event.of_handler hh with ⟨c, k, rfl, rfl⟩ | ⟨i, p, rfl, hp, rfl, rfl⟩ | ⟨t, rfl, hact, rfl⟩
  · refine Or.inl ⟨_, _, rfl, fun r' m' => ?_⟩
    rw [Brings, eq_comm, and_congr_right_iff]
    exact fun _ => eq_comm
  · refine Or.inl ⟨_, _, rfl, fun r' m' => ?_⟩
    simp only [Brings, hp, Option.mem_def, Option.some.injEq, exists_eq_left']
    rw [eq_comm, and_congr_right_iff]
    exact fun _ => eq_comm
  · exact Or.inr ⟨t, hact, rfl, fun _ _ => id⟩

theorem net_grows {s s' : Sys σ μ} {e : Event τ κ} (h : s.step P e = some s') : s.net <+: s'.net := by
  obtain ⟨r, m, -, -, -, rfl⟩ := Sys.step_eq_some h
  exact List.prefix_append ..

/-- A packet that is delivered is under way. -/
theorem deliver_lt {s s' : Sys σ μ} {i : Nat} (h : s.step P (.deliver i : Event τ κ) = some s') : i < s.net.length := by
  obtain ⟨r, m, hm, -⟩ := Sys.step_eq_some h
  obtain ⟨p, hp, -⟩ := Option.map_eq_some_iff.mp hm
  exact (List.getElem?_eq_some_iff.mp hp).1

theorem delivered_lt {C : Sys σ μ × List (Event τ κ) → Event τ κ → Prop} {past : List (Sys σ μ × List (Event τ κ))}
    {x : Sys σ μ × List (Event τ κ)} (h : Run (system P).recorded C past x) :
    ∀ i, Event.deliver i ∈ x.2 → i < x.1.net.length := by
  refine h.invariant (I := fun _ x => ∀ i, Event.deliver i ∈ x.2 → i < x.1.net.length) (fun _ hi => by cases hi) ?_
  intro _ x e y _ hx _ hst i hi
  obtain ⟨hs, hy⟩ := System.recorded_step_eq_some.mp hst
  refine Nat.lt_of_lt_of_le ?_ (net_grows hs).length_le
  rw [hy] at hi
  rcases List.mem_cons.mp hi with rfl | hi
  · exact deliver_lt hs
  · exact hx i hi

/-- What has arrived after one more step. -/
theorem arrived_iff {C : Sys σ μ × List (Event τ κ) → Event τ κ → Prop} {past : List (Sys σ μ × List (Event τ κ))}
    {x y : Sys σ μ × List (Event τ κ)} {e : Event τ κ} (h : Run (system P).recorded C past x)
    (hst : (system P).recorded.step x e = some y) {r : Nat} {m : μ} :
    Arrived P y r m ↔ Brings P x.1 r m e ∨ Arrived P x r m := by
  obtain ⟨hs, hy⟩ := System.recorded_step_eq_some.mp hst
  have hlater : ∀ e' ∈ e :: x.2, (Brings P y.1 r m e' ↔ Brings P x.1 r m e') := by
    intro e' he'
    cases e' with
    | client r' c k => exact Iff.rfl
    | timeout r' t => exact Iff.rfl
    | deliver i =>
      have hi : i < x.1.net.length := by
        rcases List.mem_cons.mp he' with rfl | he'
        · exact deliver_lt hs
        · exact delivered_lt h i he'
      obtain ⟨sent, hsent⟩ := net_grows hs
      rw [Brings, Brings, ← hsent, List.getElem?_append_left hi]
  rw [Arrived, hy]
  constructor
  · rintro ⟨e', he', hb⟩
    rw [hlater e' he'] at hb
    rcases List.mem_cons.mp he' with rfl | he'
    · exact Or.inl hb
    · exact Or.inr ⟨e', he', hb⟩
  · rintro (hb | ⟨e', he', hb⟩)
    · exact ⟨e, List.mem_cons_self, (hlater e List.mem_cons_self).mpr hb⟩
    · exact ⟨e', List.mem_cons_of_mem _ he', (hlater e' (List.mem_cons_of_mem _ he')).mpr hb⟩

/-! ### Ghost invariants -/

/-- An invariant of a group against a ghost `γ`: of the replicas that run, of those that were stopped,
    and of the packets. `advances r` is what a step of replica `r` may do to the ghost. -/
structure GhostInvariant (σ μ γ : Type) where
  running : γ → Nat → σ → Prop
  halted : γ → Nat → σ → Prop
  packet : γ → Packet μ → Prop
  advances : Nat → γ → γ → Prop
  refl : ∀ r g, advances r g g
  trans : ∀ {r g g' g''}, advances r g g' → advances r g' g'' → advances r g g''
  running_mono : ∀ {r g g' x s}, advances r g g' → x ≠ r → running g x s → running g' x s
  halted_mono : ∀ {r g g' x s}, advances r g g' → x ≠ r → halted g x s → halted g' x s
  packet_mono : ∀ {r g g' p}, advances r g g' → packet g p → packet g' p

namespace GhostInvariant
variable {γ α β : Type} (I : GhostInvariant σ μ γ)

/-- The invariant holds of the group, with this ghost. -/
structure Holds (n : Nat) (g : γ) (s : Sys σ μ) : Prop where
  running : ∀ r < n, s.stopped r = false → I.running g r (s.replica r)
  halted : ∀ r < n, s.stopped r = true → I.halted g r (s.replica r)
  packet : ∀ p ∈ s.net, I.packet g p

/-- A run of replica `r` that moves the ghost on from `g`, sends good packets, and ends with `J` of the
    ghost and the state. -/
def Ends (n r : Nat) (g : γ) (J : γ → σ → Prop) (s : σ) (o : List (Output μ ν)) : Prop :=
  ∃ g', I.advances r g g' ∧ J g' s ∧ ∀ x ∈ o, ∀ p ∈ packets n r x, I.packet g' p

/-- From ghost `g` and state `s`, the handler of replica `r` returns with `J`, or is stopped. -/
def Spec (n r : Nat) (g : γ) (m : Handler σ (Output μ ν) α) (s : σ) (J : α → γ → σ → Prop) : Prop :=
  Sat m s (fun a t o => I.Ends n r g (J a) t o) (fun t o => I.Ends n r g (I.halted · r) t o)

variable {I} {n r : Nat} {g g' : γ} {s : σ} {J : α → γ → σ → Prop}

/-- Nothing is sent. -/
theorem Ends.quiet {K : γ → σ → Prop} (hg : I.advances r g g') (h : K g' s) :
    I.Ends n r g K s ([] : List (Output μ ν)) := ⟨g', hg, h, by simp⟩

/-- Nothing is sent, and the ghost stays. -/
theorem Ends.same {K : γ → σ → Prop} (h : K g s) : I.Ends n r g K s ([] : List (Output μ ν)) :=
  .quiet (I.refl r g) h

/-- One output, and the ghost stays. -/
theorem Ends.sends {K : γ → σ → Prop} {x : Output μ ν} (h : K g s)
    (hx : ∀ p ∈ packets n r x, I.packet g p) : I.Ends n r g K s [x] :=
  ⟨g, I.refl r g, h, by simpa using hx⟩

theorem Ends.mono {K K' : γ → σ → Prop} {o : List (Output μ ν)} (h : I.Ends n r g K s o)
    (hK : ∀ g', I.advances r g g' → K g' s → K' g' s) : I.Ends n r g K' s o := by
  obtain ⟨g', hg, hs, ho⟩ := h
  exact ⟨g', hg, hK g' hg hs, ho⟩

/-- What comes after good packets have been sent. -/
theorem Ends.after {K : γ → σ → Prop} {o o' : List (Output μ ν)} (hg : I.advances r g g')
    (ho : ∀ x ∈ o, ∀ p ∈ packets n r x, I.packet g' p) (h : I.Ends n r g' K s o') :
    I.Ends n r g K s (o ++ o') := by
  obtain ⟨g'', hg', hs, ho'⟩ := h
  refine ⟨g'', I.trans hg hg', hs, fun x hx p hp => ?_⟩
  rcases List.mem_append.mp hx with hx | hx
  · exact I.packet_mono hg' (ho x hx p hp)
  · exact ho' x hx p hp

/-- Consequence. -/
theorem Spec.mono {m : Handler σ (Output μ ν) α} {J' : α → γ → σ → Prop} (h : I.Spec n r g m s J)
    (hJ : ∀ a g' t, I.advances r g g' → J a g' t → J' a g' t) : I.Spec n r g m s J' :=
  Sat.mono h (fun a t _ ht => ht.mono fun g' hg => hJ a g' t hg) fun _ _ ht => ht

/-- The ghost has moved on before. -/
theorem Spec.advance {m : Handler σ (Output μ ν) α} (hg : I.advances r g g')
    (h : I.Spec n r g' m s J) : I.Spec n r g m s J := by
  refine Sat.mono h (fun a t o ht => ?_) (fun t o ht => ?_)
  · simpa using Ends.after (o := []) hg (by simp) ht
  · simpa using Ends.after (o := []) hg (by simp) ht

/-- Sequencing. -/
theorem Spec.bind {m : Handler σ (Output μ ν) α} {f : α → Handler σ (Output μ ν) β}
    {K : β → γ → σ → Prop} (h : I.Spec n r g m s J)
    (hf : ∀ a g' t, I.advances r g g' → J a g' t → I.Spec n r g' (f a) t K) :
    I.Spec n r g (m >>= f) s K := by
  refine sat_bind.mpr (Sat.mono h ?_ (fun _ _ ht => ht))
  rintro a t o ⟨g', hg, ht, ho⟩
  refine Sat.mono (hf a g' t hg ht) (fun b t' o' ht' => ?_) (fun t' o' ht' => ?_)
  · exact Ends.after hg ho ht'
  · exact Ends.after hg ho ht'

@[simp] theorem spec_pure {a : α} :
    I.Spec (ν := ν) n r g (pure a) s J ↔ I.Ends n r g (J a) s ([] : List (Output μ ν)) := Iff.rfl

@[simp] theorem spec_modify {f : σ → σ} {K : Unit → γ → σ → Prop} :
    I.Spec (ν := ν) n r g (modify f) s K ↔ I.Ends n r g (K ()) (f s) ([] : List (Output μ ν)) :=
  Iff.rfl

@[simp] theorem spec_emit {x : Output μ ν} {K : Unit → γ → σ → Prop} :
    I.Spec n r g (emit x) s K ↔ I.Ends n r g (K ()) s [x] := Iff.rfl

@[simp] theorem spec_abort :
    I.Spec (ν := ν) n r g (abort : Handler σ (Output μ ν) α) s J ↔
      I.Ends n r g (I.halted · r) s ([] : List (Output μ ν)) := Iff.rfl

@[simp] theorem spec_ite {p : Prop} [Decidable p] {m m' : Handler σ (Output μ ν) α} :
    I.Spec n r g (if p then m else m') s J ↔
      (p → I.Spec n r g m s J) ∧ (¬ p → I.Spec n r g m' s J) := sat_ite

@[simp] theorem spec_pure_bind {a : β} {f : β → Handler σ (Output μ ν) α} :
    I.Spec n r g (pure a >>= f) s J ↔ I.Spec n r g (f a) s J := by
  simp only [Spec, sat_bind, sat_pure, List.nil_append]

@[simp] theorem spec_get_bind {f : σ → Handler σ (Output μ ν) α} :
    I.Spec n r g (get >>= f) s J ↔ I.Spec n r g (f s) s J := by
  simp only [Spec, sat_bind, sat_get, List.nil_append]

@[simp] theorem spec_modify_bind {f : σ → σ} {k : Unit → Handler σ (Output μ ν) α} :
    I.Spec n r g (modify f >>= k) s J ↔ I.Spec n r g (k ()) (f s) J := by
  simp only [Spec, sat_bind, sat_modify, List.nil_append]

@[simp] theorem spec_assert {p : Prop} [Decidable p] {K : Unit → γ → σ → Prop} :
    I.Spec (ν := ν) n r g (assert p) s K ↔
      (p → I.Ends n r g (K ()) s ([] : List (Output μ ν))) ∧
      (¬ p → I.Ends n r g (I.halted · r) s ([] : List (Output μ ν))) := sat_assert

@[simp] theorem spec_assert_bind {p : Prop} [Decidable p] {k : Unit → Handler σ (Output μ ν) α} :
    I.Spec n r g (assert p >>= k) s J ↔
      (p → I.Spec n r g (k ()) s J) ∧
      (¬ p → I.Ends n r g (I.halted · r) s ([] : List (Output μ ν))) := by
  simp only [Spec, sat_bind, sat_assert, List.nil_append]

@[simp] theorem spec_ofOption_bind {o : Option β} {k : β → Handler σ (Output μ ν) α} :
    I.Spec n r g (ofOption o >>= k) s J ↔
      (∀ b, o = some b → I.Spec n r g (k b) s J) ∧
      (o = none → I.Ends n r g (I.halted · r) s ([] : List (Output μ ν))) := by
  simp only [Spec, sat_bind, sat_ofOption, List.nil_append]

@[simp] theorem spec_when {p : Prop} [Decidable p] {m : Handler σ (Output μ ν) Unit}
    {K : Unit → γ → σ → Prop} :
    I.Spec n r g (when p m) s K ↔
      (p → I.Spec n r g m s K) ∧ (¬ p → I.Ends n r g (K ()) s ([] : List (Output μ ν))) := sat_when

@[simp] theorem spec_whenSome {o : Option α} {f : α → Handler σ (Output μ ν) Unit}
    {K : Unit → γ → σ → Prop} :
    I.Spec n r g (whenSome o f) s K ↔
      (∀ a, o = some a → I.Spec n r g (f a) s K) ∧
      (o = none → I.Ends n r g (K ()) s ([] : List (Output μ ν))) := sat_whenSome

/-- A message that is good is sent first. -/
theorem Spec.emit_bind {x : Output μ ν} {k : Unit → Handler σ (Output μ ν) α}
    (hx : ∀ p ∈ packets n r x, I.packet g p) (h : I.Spec n r g (k ()) s J) :
    I.Spec n r g (emit x >>= k) s J := by
  refine Spec.bind (J := fun _ g' t => g' = g ∧ t = s) (spec_emit.mpr (Ends.sends ⟨rfl, rfl⟩ hx)) ?_
  rintro _ _ _ _ ⟨rfl, rfl⟩
  exact h

/-- Loop rule: `K rest` is kept by an iteration, where `rest` is what is left to do. -/
theorem Spec.forEach {f : α → Handler σ (Output μ ν) Unit} (K : List α → γ → σ → Prop)
    (hstep : ∀ a rest g s, K (a :: rest) g s → I.Spec n r g (f a) s fun _ => K rest) :
    ∀ {l : List α} {g : γ} {s : σ}, K l g s → I.Spec n r g (forEach l f) s fun _ => K []
  | [], _, _, h => Ends.same h
  | a :: as, _, _, h => Spec.bind (hstep a as _ _ h) fun _ _ _ _ h' => Spec.forEach K hstep h'

/-- Loop rule for a counted loop, with the number of rounds that are left. -/
theorem Spec.iterate {body : Handler σ (Output μ ν) Unit} (K : Nat → γ → σ → Prop)
    (hstep : ∀ k g s, K (k + 1) g s → I.Spec n r g body s fun _ => K k) :
    ∀ {k : Nat} {g : γ} {s : σ}, K k g s → I.Spec n r g (iterate k body) s fun _ => K 0
  | 0, _, _, h => Ends.same h
  | k + 1, _, _, h => Spec.bind (hstep k _ _ h) fun _ _ _ _ h' => Spec.iterate K hstep h'

/-- A step keeps the invariant when the handler that runs keeps it. -/
theorem step {s : Sys σ μ} {m : Handler σ (Output μ ν) Unit} (h : I.Holds n g s)
    (hm : I.Spec n r g m (s.replica r) fun _ g' t => I.running g' r t) :
    ∃ g', I.advances r g g' ∧ I.Holds n g' (s.after n r (m (s.replica r))) := by
  have hnet {g' : γ} {x : Option Unit} {t : σ} {o : List (Output μ ν)} (hg : I.advances r g g')
      (ho : ∀ x ∈ o, ∀ p ∈ packets n r x, I.packet g' p) :
      ∀ p ∈ (s.after n r (x, t, o)).net, I.packet g' p := by
    intro p hp
    rcases List.mem_append.mp hp with hp | hp
    · exact I.packet_mono hg (h.packet p hp)
    · obtain ⟨x, hx, hpx⟩ := List.mem_flatMap.mp hp
      exact ho x hx p hpx
  rcases Sat.cases hm with ⟨u, t, o, hm, g', hg, ht, ho⟩ | ⟨t, o, hm, g', hg, ht, ho⟩
  · rw [hm]
    refine ⟨g', hg, fun i hi hlive => ?_, fun i hi hstop => ?_, hnet hg ho⟩
    · by_cases hir : i = r
      · subst hir
        simpa [Sys.after] using ht
      · simp only [Sys.after, if_neg hir] at hlive ⊢
        exact I.running_mono hg hir (h.running i hi hlive)
    · by_cases hir : i = r
      · subst hir
        simp [Sys.after] at hstop
      · simp only [Sys.after, if_neg hir] at hstop ⊢
        exact I.halted_mono hg hir (h.halted i hi hstop)
  · rw [hm]
    refine ⟨g', hg, fun i hi hlive => ?_, fun i hi hstop => ?_, hnet hg ho⟩
    · by_cases hir : i = r
      · subst hir
        simp [Sys.after] at hlive
      · simp only [Sys.after, if_neg hir] at hlive ⊢
        exact I.running_mono hg hir (h.running i hi hlive)
    · by_cases hir : i = r
      · subst hir
        simpa [Sys.after] using ht
      · simp only [Sys.after, if_neg hir] at hstop ⊢
        exact I.halted_mono hg hir (h.halted i hi hstop)

end GhostInvariant
end Dsnet.Net
