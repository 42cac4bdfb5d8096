import Mathlib.Logic.Relation
import Dsnet.Lib.Ghost
import Dsnet.Lib.Run

/-! Processes that send each other messages: clients, the replicas of their servers, and whatever else
    takes part. Every packet ever sent stays in `net`, and an event may deliver any of them at any time,
    so a run loses, duplicates and reorders messages as it likes. Otherwise a process acts by itself:
    an application calls it, or a timer fires. A process whose handler was stopped takes no further step.

    `ClusterInvariant` is an invariant of the processes and the packets against a ghost, and
    `ClusterInvariant.step` the step lemma: what one process does keeps it. -/

namespace Dsnet.Cluster
open Handler

/-- A message on its way. -/
structure Packet (π μ : Type) where
  src : π
  dst : π
  msg : μ
  deriving DecidableEq

/-- What a process hands to its transport: a message for several processes. -/
structure Send (π μ : Type) where
  dsts : List π
  msg : μ

/-- The packets that a send puts on the network. -/
def Send.packets {π μ : Type} (src : π) (x : Send π μ) : List (Packet π μ) :=
  x.dsts.map fun dst => ⟨src, dst, x.msg⟩

/-- Processes `π` with states `σ p`, which send messages `μ` and can be made to act (`κ`). -/
structure Protocol (π : Type) (σ : π → Type) (μ κ : Type) where
  /-- The processes there are. -/
  member : π → Bool
  init : ∀ p, σ p
  receive : ∀ p, π → μ → Handler (σ p) (Send π μ) Unit
  /-- What `p` does, if it can. -/
  act : ∀ p, κ → σ p → Option (Handler (σ p) (Send π μ) Unit)

/-- What can happen next. -/
inductive Event (π κ : Type) where
  /-- The `i`-th packet is delivered. -/
  | deliver (i : Nat)
  /-- A process acts. -/
  | act (p : π) (k : κ)
  deriving DecidableEq

/-- The processes and the network. -/
structure Sys (π : Type) (σ : π → Type) (μ : Type) where
  state : ∀ p, σ p
  stopped : π → Bool
  net : List (Packet π μ)

variable {π : Type} {σ : π → Type} {μ κ : Type} (P : Protocol π σ μ κ)

/-- The process that takes the step, and the handler it runs. -/
def Event.handler (s : Sys π σ μ) : Event π κ → Option ((p : π) × Handler (σ p) (Send π μ) Unit)
  | .deliver i => s.net[i]?.map fun x => ⟨x.dst, P.receive x.dst x.src x.msg⟩
  | .act p k => (P.act p k (s.state p)).map fun m => ⟨p, m⟩

/-- The processes as they are constructed. -/
def Sys.initial : Sys π σ μ where
  state := P.init
  stopped _ := false
  net := []

variable {P}

/-- The handler of an event is that of a packet under way, or one by which a process acts. -/
theorem Event.of_handler {s : Sys π σ μ} {e : Event π κ} {p : π} {m : Handler (σ p) (Send π μ) Unit}
    (h : e.handler P s = some ⟨p, m⟩) :
    (∃ i x, e = .deliver i ∧ s.net[i]? = some x ∧ x.dst = p ∧ m = P.receive p x.src x.msg) ∨
    ∃ k, e = .act p k ∧ P.act p k (s.state p) = some m := by
  cases e with
  | deliver i =>
    obtain ⟨x, hx, hxe⟩ := Option.map_eq_some_iff.mp h
    obtain ⟨rfl, hm⟩ := Sigma.mk.inj hxe
    exact Or.inl ⟨i, x, rfl, hx, rfl, (eq_of_heq hm).symm⟩
  | act q k =>
    obtain ⟨m', hm', hme⟩ := Option.map_eq_some_iff.mp h
    obtain ⟨rfl, hm⟩ := Sigma.mk.inj hme
    exact Or.inr ⟨k, rfl, (eq_of_heq hm) ▸ hm'⟩

variable [DecidableEq π]

/-- Process `p` has run a handler, with this outcome. -/
def Sys.after (s : Sys π σ μ) (p : π) (x : Option Unit × σ p × List (Send π μ)) : Sys π σ μ where
  state := Function.update s.state p x.2.1
  stopped := Function.update s.stopped p x.1.isNone
  net := s.net ++ x.2.2.flatMap (Send.packets p)

variable (P)

/-- One step. -/
def Sys.step (s : Sys π σ μ) (e : Event π κ) : Option (Sys π σ μ) :=
  (e.handler P s).bind fun x =>
    if P.member x.1 = true ∧ s.stopped x.1 = false then some (s.after x.1 (x.2 (s.state x.1))) else none

/-- The runs of the processes. -/
def system : System (Sys π σ μ) (Event π κ) := { init := Sys.initial P, step := Sys.step P }

variable {P}

/-- A step is the run of one handler by one process, which has not been stopped. -/
theorem Sys.step_eq_some {s s' : Sys π σ μ} {e : Event π κ} (h : s.step P e = some s') :
    ∃ p m, e.handler P s = some ⟨p, m⟩ ∧ P.member p = true ∧ s.stopped p = false ∧
      s' = s.after p (m (s.state p)) := by
  obtain ⟨⟨p, m⟩, hm, h⟩ := Option.bind_eq_some_iff.mp h
  simp only at h
  split_ifs at h with hp
  exact ⟨p, m, hm, hp.1, hp.2, (Option.some.inj h).symm⟩

/-- A delivery is the run of the receiver's handler. -/
theorem Sys.step_deliver {s s' : Sys π σ μ} {i : Nat} (h : s.step P (.deliver i) = some s')
    {x : Packet π μ} (hx : s.net[i]? = some x) : P.member x.dst = true ∧ s.stopped x.dst = false ∧
      s' = s.after x.dst (P.receive x.dst x.src x.msg (s.state x.dst)) := by
  obtain ⟨p, m, hm, hmem, hrun, rfl⟩ := Sys.step_eq_some h
  rcases Event.of_handler hm with ⟨j, y, hj, hy, rfl, rfl⟩ | ⟨k, hk, _⟩
  · cases hj
    obtain rfl : x = y := Option.some.inj (hx.symm.trans hy)
    exact ⟨hmem, hrun, rfl⟩
  · cases hk

/-- What a handler that has returned leaves. -/
theorem Sys.of_after {s : Sys π σ μ} {p : π} {m : Handler (σ p) (Send π μ) Unit} {Q : σ p → Prop}
    (h : Sat m (s.state p) (fun _ t _ => Q t) fun _ _ => True)
    (hrun : (s.after p (m (s.state p))).stopped p = false) : Q ((s.after p (m (s.state p))).state p) := by
  rcases h.cases with ⟨u, t, o, hm, ht⟩ | ⟨t, o, hm, _⟩
  · rw [hm]
    simpa [Sys.after] using ht
  · rw [hm] at hrun
    simp [Sys.after] at hrun

/-- What every handler that returns keeps of its process holds of the processes that run. -/
theorem invariant_of_handlers {C : Sys π σ μ → Event π κ → Prop} {I : ∀ p, σ p → Prop} (h0 : ∀ p, I p (P.init p))
    (hs : ∀ s e p m, C s e → e.handler P s = some ⟨p, m⟩ → I p (s.state p) →
      Sat m (s.state p) (fun _ t _ => I p t) fun _ _ => True)
    {past : List (Sys π σ μ)} {s : Sys π σ μ} (hr : Run (system P) C past s) :
    ∀ p, s.stopped p = false → I p (s.state p) := by
  refine hr.invariant (I := fun _ s => ∀ p, s.stopped p = false → I p (s.state p)) (fun p _ => h0 p) ?_
  intro past s e s' _ ih hC hstep p hrun
  obtain ⟨q, m, hm, _, hq, rfl⟩ := Sys.step_eq_some hstep
  by_cases hp : p = q
  · subst hp
    exact Sys.of_after (hs s e p m hC hm (ih p hq)) hrun
  · simp only [Sys.after, Function.update_of_ne hp] at hrun ⊢
    exact ih p hrun

/-- A process that is not there never does anything. -/
theorem state_of_not_member {C : Sys π σ μ → Event π κ → Prop} {past : List (Sys π σ μ)} {s : Sys π σ μ}
    (hr : Run (system P) C past s) {p : π} (hp : P.member p = false) : s.state p = P.init p := by
  refine hr.invariant (I := fun _ s => s.state p = P.init p) rfl fun past s e s' _ ih _ hstep => ?_
  obtain ⟨q, m, _, hmem, _, rfl⟩ := Sys.step_eq_some hstep
  have hne : p ≠ q := by
    rintro rfl
    rw [hp] at hmem
    cases hmem
  exact (Function.update_of_ne hne ..).trans ih

/-- An invariant against a ghost `γ`: of the processes that run, of those that were stopped, and of the
    packets. `advances p` is what a step of process `p` may do to the ghost. -/
structure ClusterInvariant (π : Type) (σ : π → Type) (μ γ : Type) where
  running : γ → ∀ p, σ p → Prop
  halted : γ → ∀ p, σ p → Prop
  packet : γ → Packet π μ → Prop
  advances : π → γ → γ → Prop
  refl : ∀ p g, advances p g g
  trans : ∀ {p g g' g''}, advances p g g' → advances p g' g'' → advances p g g''
  running_mono : ∀ {p g g' q s}, advances p g g' → q ≠ p → running g q s → running g' q s
  halted_mono : ∀ {p g g' q s}, advances p g g' → q ≠ p → halted g q s → halted g' q s
  packet_mono : ∀ {p g g' x}, advances p g g' → packet g x → packet g' x

namespace ClusterInvariant
variable {γ : Type} (I : ClusterInvariant π σ μ γ)

/-- The invariant holds of the processes and the network, with this ghost. -/
structure Holds (member : π → Bool) (g : γ) (s : Sys π σ μ) : Prop where
  running : ∀ p, member p = true → s.stopped p = false → I.running g p (s.state p)
  halted : ∀ p, member p = true → s.stopped p = true → I.halted g p (s.state p)
  packet : ∀ x ∈ s.net, I.packet g x

/-- What process `p` does to the ghost. -/
def ghost (p : π) : Ghost γ (σ p) (Send π μ) where
  advances := I.advances p
  halted g := I.halted g p
  sent g x := ∀ y ∈ x.packets p, I.packet g y
  refl := I.refl p
  trans := I.trans
  sent_mono hg h y hy := I.packet_mono hg (h y hy)

variable {I} {member : π → Bool} {g : γ}

/-- A step keeps the invariant when the handler that runs keeps it. -/
theorem step {s : Sys π σ μ} {p : π} {m : Handler (σ p) (Send π μ) Unit} (h : I.Holds member g s)
    (hm : (I.ghost p).Spec g m (s.state p) fun _ g' t => I.running g' p t) :
    ∃ g', I.advances p g g' ∧ I.Holds member g' (s.after p (m (s.state p))) := by
  have hnet {g' : γ} {x : Option Unit} {t : σ p} {o : List (Send π μ)} (hg : I.advances p g g')
      (ho : ∀ x ∈ o, (I.ghost p).sent g' x) : ∀ y ∈ (s.after p (x, t, o)).net, I.packet g' y := by
    intro y hy
    rcases List.mem_append.mp hy with hy | hy
    · exact I.packet_mono hg (h.packet y hy)
    · obtain ⟨x, hx, hy⟩ := List.mem_flatMap.mp hy
      exact ho x hx y hy
  have hothers {g' : γ} {x : Option Unit} {t : σ p} {o : List (Send π μ)} (hg : I.advances p g g')
      (q : π) (hq : q ≠ p) (hmem : member q = true) :
      ((s.after p (x, t, o)).stopped q = false → I.running g' q ((s.after p (x, t, o)).state q)) ∧
      ((s.after p (x, t, o)).stopped q = true → I.halted g' q ((s.after p (x, t, o)).state q)) := by
    simp only [Sys.after, Function.update_of_ne hq]
    exact ⟨fun hrun => I.running_mono hg hq (h.running q hmem hrun),
      fun hstop => I.halted_mono hg hq (h.halted q hmem hstop)⟩
  rcases Sat.cases hm with ⟨u, t, o, hm, g', hg, ht, ho⟩ | ⟨t, o, hm, g', hg, ht, ho⟩
  · rw [hm]
    refine ⟨g', hg, fun q hmem hrun => ?_, fun q hmem hstop => ?_, hnet hg ho⟩
    · by_cases hq : q = p
      · subst hq
        simpa [Sys.after] using ht
      · exact (hothers hg q hq hmem).1 hrun
    · by_cases hq : q = p
      · subst hq
        simp [Sys.after] at hstop
      · exact (hothers hg q hq hmem).2 hstop
  · rw [hm]
    refine ⟨g', hg, fun q hmem hrun => ?_, fun q hmem hstop => ?_, hnet hg ho⟩
    · by_cases hq : q = p
      · subst hq
        simp [Sys.after] at hrun
      · exact (hothers hg q hq hmem).1 hrun
    · by_cases hq : q = p
      · subst hq
        simpa [Sys.after, ghost] using ht
      · exact (hothers hg q hq hmem).2 hstop

/-- What steps of any processes may do to the ghost. -/
def Leads : γ → γ → Prop := Relation.ReflTransGen fun g g' => ∃ p, I.advances p g g'

omit [DecidableEq π] in
/-- What every process lets stand stays. -/
theorem Leads.keeps {p : γ → Prop} (hp : ∀ {q g g'}, I.advances q g g' → p g → p g') {g g' : γ}
    (h : I.Leads g g') (hg : p g) : p g' := by
  induction h with
  | refl => exact hg
  | tail _ hs ih =>
    obtain ⟨q, hq⟩ := hs
    exact hp hq ih

/-- The run lemma: what the handlers of all events keep holds of every state a run reaches, with some
    ghost, and the ghosts of the states before lead to it. -/
theorem of_run {P : Protocol π σ μ κ} {C : Sys π σ μ → Event π κ → Prop} {g₀ : γ}
    (h0 : I.Holds P.member g₀ (Sys.initial P))
    (hs : ∀ (g : γ) (s : Sys π σ μ) (e : Event π κ) (p : π) (m : Handler (σ p) (Send π μ) Unit),
      I.Holds P.member g s → C s e → e.handler P s = some ⟨p, m⟩ → P.member p = true →
      s.stopped p = false → (I.ghost p).Spec g m (s.state p) fun _ g' t => I.running g' p t)
    {past : List (Sys π σ μ)} {s : Sys π σ μ} (hr : Run (system P) C past s) :
    ∃ g, I.Holds P.member g s ∧ ∀ t ∈ past, ∃ g', I.Holds P.member g' t ∧ I.Leads g' g := by
  refine hr.invariant (I := fun past s => ∃ g, I.Holds P.member g s ∧
    ∀ t ∈ past, ∃ g', I.Holds P.member g' t ∧ I.Leads g' g) ⟨g₀, h0, by simp⟩ ?_
  rintro past s e s' _ ⟨g, h, hpast⟩ hC hstep
  obtain ⟨p, m, hm, hmem, hrun, rfl⟩ := Sys.step_eq_some hstep
  obtain ⟨g', hg, h'⟩ := step h (hs g s e p m h hC hm hmem hrun)
  have hlead : I.Leads g g' := .single ⟨p, hg⟩
  refine ⟨g', h', List.forall_mem_cons.mpr ⟨⟨g, h, hlead⟩, fun t ht => ?_⟩⟩
  obtain ⟨g'', h'', hl⟩ := hpast t ht
  exact ⟨g'', h'', hl.trans hlead⟩

end ClusterInvariant
end Dsnet.Cluster
