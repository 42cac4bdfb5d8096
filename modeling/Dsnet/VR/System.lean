import Dsnet.Lib.Run
import Dsnet.VR.Replica

/-! A group of VR replicas and the network between them. Every packet ever sent stays in `net`; an
    event may deliver any of them at any time, so a run loses, duplicates and reorders messages as
    it likes. A replica whose handler was stopped by an assertion takes no further step. -/

namespace Dsnet.VR
open Handler

/-- A group: its configuration, and what each replica is constructed with. -/
structure Group where
  config : Configuration
  batchSize : Nat → Nat
  app : Nat → App

/-- The environment of replica `r`. -/
def Group.env (G : Group) (r : Nat) : Env :=
  { config := G.config, replicaIdx := r, batchSize := G.batchSize r, app := G.app r }

/-- Three replicas that send a Prepare for every request and run the default application. -/
def threeReplicas : Group :=
  { config := { n := 3, f := 1 }, batchSize := fun _ => 1, app := fun _ => App.default }

/-- A message on its way to replica `dst`. -/
structure Packet where
  src : Addr
  dst : Nat
  msg : ToReplicaMessage
  deriving DecidableEq, Repr

/-- What can happen next. -/
inductive Event where
  /-- A client's request reaches replica `r`. -/
  | request (r client : Nat) (req : Request)
  /-- A client's unlogged request reaches replica `r`. -/
  | unlogged (r client : Nat) (op : String)
  /-- The `i`-th packet is delivered; `wild` is the argument of `completeViewChange`. -/
  | deliver (i : Nat) (wild : Option Nat)
  /-- A timer of replica `r` fires. -/
  | timeout (r : Nat) (t : Timer)
  /-- Replica `r` is restarted with `initialize = false`. -/
  | restart (r nonce : Nat)
  deriving DecidableEq, Repr

/-- The group and its network. `normalIn r` lists the views replica `r` has been in
    `STATUS_NORMAL` in. -/
structure Sys where
  replica : Nat → Replica
  stopped : Nat → Bool
  net : List Packet
  normalIn : Nat → List Nat

/-- The packets an output of replica `src` puts on the network (`SendMessageToAll` leaves the
    sender out). -/
def packets (n src : Nat) : Output → List Packet
  | .toReplica i m => [⟨.replica src, i, m⟩]
  | .toAll m => ((List.range n).filter (· ≠ src)).map fun i => ⟨.replica src, i, m⟩
  | .toAddr (.replica i) m => [⟨.replica src, i, m⟩]
  | .toAddr (.client _) _ => []
  | .toClient _ _ => []

/-- The packets of an output come from its sender and carry its message. -/
theorem of_mem_packets {n src : Nat} {x : Output} {p : Packet} (h : p ∈ packets n src x) :
    p.src = .replica src ∧ ∀ {P : ToReplicaMessage → Prop}, x.Carries P → P p.msg := by
  cases x with
  | toReplica i m =>
    obtain rfl : p = _ := List.mem_singleton.mp h
    exact ⟨rfl, fun hP => hP⟩
  | toAll m =>
    obtain ⟨i, _, rfl⟩ := List.mem_map.mp h
    exact ⟨rfl, fun hP => hP⟩
  | toAddr a m =>
    cases a with
    | replica i =>
      obtain rfl : p = _ := List.mem_singleton.mp h
      exact ⟨rfl, fun hP => hP⟩
    | client c => simp [packets] at h
  | toClient a m => simp [packets] at h

/-- Replica `r` has run a handler, with this outcome. -/
def Sys.after (G : Group) (s : Sys) (r : Nat) (x : Option Unit × Replica × List Output) : Sys where
  replica i := if i = r then x.2.1 else s.replica i
  stopped i := if i = r then x.1.isNone else s.stopped i
  net := s.net ++ x.2.2.flatMap (packets G.config.n r)
  normalIn i := if i = r ∧ x.2.1.status = .normal then x.2.1.view :: s.normalIn i else s.normalIn i

/-- The replica that takes the step, the handler it runs, and the state it runs it from. -/
def Event.handler (G : Group) (s : Sys) : Event → Option (Nat × VRHandler Unit × Replica)
  | .request r c req => some (r, receiveMessage (G.env r) none (.client c) (.request req), s.replica r)
  | .unlogged r c op =>
    some (r, receiveMessage (G.env r) none (.client c) (.unloggedRequest op), s.replica r)
  | .deliver i wild => s.net[i]?.map fun p =>
    (p.dst, receiveMessage (G.env p.dst) wild p.src p.msg, s.replica p.dst)
  | .timeout r t =>
    if (s.replica r).active t then some (r, VR.timeout (G.env r) t, s.replica r) else none
  | .restart r nonce =>
    some (r, sendRecoveryMessages (G.env r), Replica.restarted (G.env r) nonce)

/-- Does the event start a stopped replica again? -/
def Event.isRestart : Event → Bool
  | .restart .. => true
  | _ => false

/-- One step of the group. -/
def Sys.step (G : Group) (s : Sys) (e : Event) : Option Sys :=
  (e.handler G s).bind fun (r, h, st) =>
    if r < G.config.n ∧ (e.isRestart ∨ s.stopped r = false) then some (s.after G r (h st))
    else none

/-- The group as it is constructed. -/
def Sys.initial (G : Group) : Sys where
  replica r := Replica.initial (G.env r)
  stopped _ := false
  net := []
  normalIn _ := [0]

/-- The runs of a group. -/
def system (G : Group) : System Sys Event := { init := Sys.initial G, step := Sys.step G }

/-! ### What a step is -/

/-- The event hands replica `r` a message. -/
inductive Event.Receives (s : Sys) : Event → Nat → Option Nat → Addr → ToReplicaMessage → Prop
  | request {r c : Nat} {req : Request} :
      Receives s (.request r c req) r none (.client c) (.request req)
  | unlogged {r c : Nat} {op : String} :
      Receives s (.unlogged r c op) r none (.client c) (.unloggedRequest op)
  | deliver {i dst : Nat} {wild : Option Nat} {src : Addr} {msg : ToReplicaMessage}
      (h : s.net[i]? = some ⟨src, dst, msg⟩) : Receives s (.deliver i wild) dst wild src msg

/-- The handler an event runs: that of a message, of a timer, or the start of a recovery. -/
theorem Event.of_handler {G : Group} {s : Sys} {e : Event} {r : Nat} {m : VRHandler Unit}
    {st : Replica} (h : e.handler G s = some (r, m, st)) :
    (∃ wild remote msg, e.Receives s r wild remote msg ∧
      m = receiveMessage (G.env r) wild remote msg ∧ st = s.replica r) ∨
    (∃ t, e = .timeout r t ∧ (s.replica r).active t = true ∧
      m = VR.timeout (G.env r) t ∧ st = s.replica r) ∨
    ∃ nonce, e = .restart r nonce ∧ m = sendRecoveryMessages (G.env r) ∧
      st = Replica.restarted (G.env r) nonce := by
  cases e with
  | request r' c req =>
    obtain ⟨rfl, rfl, rfl⟩ : r' = r ∧ _ ∧ _ := by simpa [Event.handler] using h
    exact Or.inl ⟨_, _, _, .request, rfl, rfl⟩
  | unlogged r' c op =>
    obtain ⟨rfl, rfl, rfl⟩ : r' = r ∧ _ ∧ _ := by simpa [Event.handler] using h
    exact Or.inl ⟨_, _, _, .unlogged, rfl, rfl⟩
  | deliver i wild =>
    obtain ⟨p, hp, hpe⟩ := Option.map_eq_some_iff.mp h
    cases hpe
    exact Or.inl ⟨_, _, _, .deliver hp, rfl, rfl⟩
  | timeout r' t =>
    simp only [Event.handler] at h
    split_ifs at h with ht
    cases h
    exact Or.inr (Or.inl ⟨t, rfl, ht, rfl, rfl⟩)
  | restart r' nonce =>
    obtain ⟨rfl, rfl, rfl⟩ : r' = r ∧ _ ∧ _ := by simpa [Event.handler] using h
    exact Or.inr (Or.inr ⟨nonce, rfl, rfl, rfl⟩)

/-- A step is the run of one handler by one replica, which has not been stopped. -/
theorem Sys.step_eq_some {G : Group} {s s' : Sys} {e : Event} (h : s.step G e = some s') :
    ∃ r m st, e.handler G s = some (r, m, st) ∧ r < G.config.n ∧
      (e.isRestart = true ∨ s.stopped r = false) ∧ s' = s.after G r (m st) := by
  obtain ⟨⟨r, m, st⟩, hm, h⟩ := Option.bind_eq_some_iff.mp h
  simp only at h
  split_ifs at h with hr
  exact ⟨r, m, st, hm, hr.1, hr.2, (Option.some.inj h).symm⟩

/-- An invariant of each running replica and of each message is kept by a step when the handler
    that runs keeps it. -/
theorem Sys.local_step {G : Group} {s s' : Sys} {e : Event} {I : Nat → Replica → Prop}
    {P : ToReplicaMessage → Prop} (hI : ∀ r, s.stopped r = false → I r (s.replica r))
    (hP : ∀ p ∈ s.net, P p.msg) (hstep : s.step G e = some s')
    (hsat : ∀ r m st, e.handler G s = some (r, m, st) →
      (e.isRestart = true ∨ s.stopped r = false) →
      Sat m st (fun _ t o => I r t ∧ Sends P o) (fun _ o => Sends P o)) :
    (∀ r, s'.stopped r = false → I r (s'.replica r)) ∧ ∀ p ∈ s'.net, P p.msg := by
  obtain ⟨r, m, st, he, _, hlive, rfl⟩ := Sys.step_eq_some hstep
  have hrun := (hsat r m st he hlive).cases
  constructor
  · intro r' hr'
    by_cases hrr : r' = r
    · subst hrr
      rcases hrun with ⟨_, t, o, hm, ht, _⟩ | ⟨t, o, hm, _⟩
      · simpa [Sys.after, hm] using ht
      · simp [Sys.after, hm] at hr'
    · simp only [Sys.after, if_neg hrr] at hr' ⊢
      exact hI r' hr'
  · intro p hp
    rcases List.mem_append.mp hp with hp | hp
    · exact hP p hp
    · obtain ⟨x, hx, hpx⟩ := List.mem_flatMap.mp hp
      refine (of_mem_packets hpx).2 ?_
      rcases hrun with ⟨_, t, o, hm, _, ho⟩ | ⟨t, o, hm, ho⟩ <;> rw [hm] at hx <;> exact ho x hx

end Dsnet.VR
