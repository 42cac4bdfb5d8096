import Dsnet.Lib.Beside
import Dsnet.MinBFT.Sequence

/-! The order in which a MinBFT replica passes the UI messages of a sender to their handlers.

    The calls of the handlers are recorded beside the replica. A message waits in the queue of its sender
    until its turn (`Ordered`); the loop that takes messages out of the queue looks at the one with the
    smallest UI, and one that is older than the next stops it. -/

namespace Dsnet.MinBFT
open Handler

/-! ### The calls of the handlers -/

/-- Calls of handlers: the sender, the UI and the message. -/
abbrev Calls := List (Nat × Nat × UISub)

abbrev CHandler := Handler (Replica × Calls) Output

variable (E : Env)

/-- The handler of a UI message is called. -/
def passUi (remoteId ui : Nat) (sub : UISub) : CHandler Unit := do
  ghost fun _ calls => calls ++ [(remoteId, ui, sub)]
  beside (handleUi E ui sub)

/-- `drainQueue`, with its calls. -/
def drainQueueCalls (remoteId : Nat) : Nat → CHandler Unit
  | 0 => pure ()
  | n + 1 => do
    let s ← beside get
    match (s.uiQueue remoteId).toList with
    | [] => pure ()
    | (ui, m) :: _ =>
      if ui ≠ s.nextUi remoteId then pure ()
      else do
        beside (modify (·.countUi remoteId))
        passUi E remoteId ui m.sub
        beside (modify fun s => s.setQueue remoteId ((s.uiQueue remoteId).erase ui))
        drainQueueCalls remoteId n

/-- `receiveUi`, with its calls. -/
def receiveUiCalls (ui : Nat) (m : UIMessage) : CHandler Unit := do
  let s ← beside get
  if ui ≠ s.nextUi m.replicaId then
    beside (modify fun s => s.setQueue m.replicaId ((s.uiQueue m.replicaId).insert ui m))
  else do
    beside (modify (·.countUi m.replicaId))
    passUi E m.replicaId ui m.sub
    drainQueueCalls E m.replicaId (s.uiQueue m.replicaId).size
    beside concludeEpilogue

/-- `receiveMessage`, with its calls. -/
def receiveMessageCalls (remote : Addr) : Message → CHandler Unit
  | .signedRequest request => beside (receiveMessage E remote (.signedRequest request))
  | .uiMessage ui m => receiveUiCalls E ui m

variable {E}

/-! ### What the handlers leave -/

/-- What is next of every sender, and what waits. -/
def Replica.uis (s : Replica) : (Nat → Nat) × (Nat → StdMap Nat UIMessage) := (s.nextUi, s.uiQueue)

/-- If it returns, the handler leaves these as they were. -/
abbrev Apart {α : Type} (m : RHandler α) : Prop := Relates (Same Replica.uis) m

theorem apart_append (req : Request) : Apart (append req) :=
  relates_get.bind fun _ => relates_ofOption.bind fun _ => same_modify fun _ => rfl

theorem apart_sendUi (sub : UISub) : Apart (sendUi E sub) :=
  relates_get.bind fun _ => relates_emit.bind fun _ => same_modify fun _ => rfl

theorem apart_commitRange : ∀ n j, Apart (commitRange j n)
  | 0, _ => relates_pure
  | n + 1, _ => relates_get.bind fun _ => relates_ofOption.bind fun _ => Relates.bind (same_modify fun _ => rfl) fun _ =>
      apart_commitRange n _

theorem apart_executeNext (e : LogEntry) : Apart (executeNext E e) := by
  refine Relates.bind (same_modify fun _ => rfl) fun _ => relates_get.bind fun _ => ?_
  refine Relates.bind (same_modify fun _ => rfl) fun _ => Relates.whenSome fun _ => ?_
  exact Relates.bind (same_modify fun _ => rfl) fun _ => same_modify fun _ => rfl

theorem apart_executeLoop : ∀ n, Apart (executeLoop E n)
  | 0 => relates_pure
  | n + 1 => relates_get.bind fun _ => Relates.whenSome fun e => Relates.when <|
      (apart_executeNext e).bind fun _ => apart_executeLoop n

theorem apart_addCommit (m : Commit) : Apart (addCommit E m) := by
  refine Relates.bind (same_modify fun _ => rfl) fun _ => relates_get.bind fun _ => Relates.whenSome fun _ => ?_
  refine relates_get.bind fun _ => relates_ofOption.bind fun _ => ?_
  exact (apart_commitRange _ _).bind fun _ => apart_executeLoop _

theorem apart_sendCommit (ui : Nat) : Apart (sendCommit E ui) :=
  Relates.bind (same_modify fun _ => rfl) fun _ => relates_get.bind fun _ => (apart_sendUi _).bind fun _ => apart_addCommit _

theorem apart_appendRequests : ∀ reqs, Apart (appendRequests reqs)
  | [] => relates_pure
  | req :: reqs => (apart_append req).bind fun _ => apart_appendRequests reqs

theorem apart_handlePrepare (m : Prepare) (ui : Nat) : Apart (handlePrepare E m ui) := by
  refine relates_get.bind fun _ => relates_pure.ite (relates_abort.ite (relates_abort.ite ?_))
  refine Relates.bind (same_modify fun _ => rfl) fun _ => (apart_appendRequests _).bind fun _ => ?_
  exact Relates.bind (same_modify fun _ => rfl) fun _ => apart_sendCommit ui

theorem apart_handleUi (ui : Nat) : ∀ sub, Apart (handleUi E ui sub)
  | .prepare m => apart_handlePrepare m ui
  | .commit m => relates_get.bind fun _ => relates_pure.ite (apart_addCommit m)

theorem apart_closeBatch : Apart (closeBatch E) :=
  Relates.bind (same_modify fun _ => rfl) fun _ => relates_get.bind fun _ => Relates.bind (same_modify fun _ => rfl) fun _ =>
    (apart_sendUi _).bind fun _ => apart_sendCommit _

theorem apart_handleNewRequest (req : Request) (entry : ClientEntry) : Apart (handleNewRequest E req entry) := by
  refine Relates.bind (same_modify fun _ => rfl) fun _ => relates_get.bind fun _ => relates_pure.ite ?_
  refine (apart_append req).bind fun _ => Relates.bind (same_modify fun _ => rfl) fun _ => ?_
  exact relates_get.bind fun _ => apart_closeBatch.when

theorem apart_handleRequest (remote : Addr) (req : Request) : Apart (handleRequest E remote req) := by
  refine relates_get.bind fun s => ?_
  cases s.clientTable req.clientid with
  | none => exact apart_handleNewRequest req _
  | some entry =>
    exact relates_pure.ite ((Relates.whenSome fun _ => relates_emit).ite (apart_handleNewRequest req entry))

theorem apart_concludeEpilogue : Apart concludeEpilogue :=
  relates_get.bind fun _ => (Relates.forEach (fun _ => relates_emit) _).bind fun _ => same_modify fun _ => rfl

/-! ### Arrivals -/

/-- What makes a replica act: a message that arrives, or the timer of its batch. -/
inductive Input where
  | message (remote : Addr) (m : Message)
  | timer

/-- The UI message that arrives, with its UI. -/
def Input.arrival : Input → List (Nat × UIMessage)
  | .message _ (.uiMessage ui m) => [(ui, m)]
  | _ => []

/-- A replica, the calls of its handlers, and the UI messages that have arrived. -/
structure Seen where
  replica : Replica
  calls : Calls
  arrived : List (Nat × UIMessage)

/-- The handler of an input, if it is possible. -/
def Input.handler (E : Env) (s : Replica) : Input → Option (CHandler Unit)
  | .message remote m => some (receiveMessageCalls E remote m)
  | .timer => if s.timerStarted then some (beside (closeBatch E)) else none

/-- A replica that gets what it gets, in any order. A process that has ended takes no step. -/
def arrivals (E : Env) : System Seen Input where
  init := { replica := .initial E, calls := [], arrived := [] }
  step x e := (e.handler E x.replica).bind fun m =>
    match m (x.replica, x.calls) with
    | (some _, (replica, calls), _) => some { replica, calls, arrived := x.arrived ++ e.arrival }
    | (none, _) => none

theorem of_arrivals_step {x x' : Seen} {e : Input} (h : (arrivals E).step x e = some x') :
    ∃ m o, e.handler E x.replica = some m ∧ m (x.replica, x.calls) = (some (), (x'.replica, x'.calls), o) ∧
      x'.arrived = x.arrived ++ e.arrival := by
  obtain ⟨m, hm, h⟩ := Option.bind_eq_some_iff.mp h
  rcases hx : m (x.replica, x.calls) with ⟨_ | _, ⟨replica, calls⟩, o⟩ <;> rw [hx] at h
  · cases h
  · cases h
    exact ⟨m, o, hm, hx, rfl⟩

/-- The messages of sender `i` that its handlers have been called for, with their UIs. -/
def callsOf (i : Nat) (calls : Calls) : List (Nat × UISub) := (calls.filter (·.1 = i)).map (·.2)

/-- What a replica has of sender `i`: the next UI, the queue and the calls. -/
def ofSender (i : Nat) (x : Replica × Calls) : Nat × StdMap Nat UIMessage × List (Nat × UISub) :=
  (x.1.nextUi i, x.1.uiQueue i, callsOf i x.2)

theorem callsOf_concat (i j ui : Nat) (sub : UISub) (calls : Calls) :
    callsOf i (calls ++ [(j, ui, sub)]) = callsOf i calls ++ if j = i then [(ui, sub)] else [] := by
  rw [callsOf, List.filter_append, List.map_append]
  by_cases h : j = i <;> simp [callsOf, h]

/-- The UI message has arrived from sender `i`. -/
def Arrived (arrived : List (Nat × UIMessage)) (i ui : Nat) (sub : UISub) : Prop :=
  ∃ m, (ui, m) ∈ arrived ∧ m.replicaId = i ∧ m.sub = sub

instance (arrived : List (Nat × UIMessage)) (i ui : Nat) (sub : UISub) : Decidable (Arrived arrived i ui sub) :=
  decidable_of_iff (∃ a ∈ arrived, a.1 = ui ∧ a.2.replicaId = i ∧ a.2.sub = sub)
    ⟨fun ⟨⟨_, m⟩, ha, hui, h⟩ => ⟨m, hui ▸ ha, h⟩, fun ⟨m, ha, h⟩ => ⟨(ui, m), ha, rfl, h⟩⟩

/-- The calls for sender `i` are those of the UIs before the next one, in order, and each is for a message that
    has arrived; what has arrived and is not older than the next one is in the queue. -/
structure Ordered (arrived : List (Nat × UIMessage)) (i : Nat)
    (x : Nat × StdMap Nat UIMessage × List (Nat × UISub)) : Prop where
  pos : 1 ≤ x.1
  turns : x.2.2.map Prod.fst = List.range' 1 (x.1 - 1)
  came : ∀ c ∈ x.2.2, Arrived arrived i c.1 c.2
  queued : ∀ y ∈ x.2.1.toList, Arrived arrived i y.1 y.2.sub
  waits : ∀ ui sub, Arrived arrived i ui sub → x.1 ≤ ui → ui ∈ x.2.1.toList.map Prod.fst

namespace Ordered
variable {arrived : List (Nat × UIMessage)} {i ui : Nat} {m : UIMessage} {next : Nat} {queue : StdMap Nat UIMessage}
  {calls : List (Nat × UISub)}

/-- One more turn. -/
theorem turns_succ (h : Ordered arrived i (next, queue, calls)) (sub : UISub) :
    (calls ++ [(next, sub)]).map Prod.fst = List.range' 1 (next + 1 - 1) := by
  have hpos : 1 ≤ next := h.pos
  have hturns : calls.map Prod.fst = List.range' 1 (next - 1) := h.turns
  have hnext : next + 1 - 1 = next - 1 + 1 := by omega
  rw [List.map_append, hturns, hnext, List.range'_concat]
  simp only [List.map_cons, List.map_nil, List.append_cancel_left_eq, List.cons.injEq, and_true]
  omega

/-- A message of another sender arrives. -/
theorem ignore {x : Nat × StdMap Nat UIMessage × List (Nat × UISub)} {new : List (Nat × UIMessage)}
    (h : Ordered arrived i x) (hnew : ∀ a ∈ new, a.2.replicaId ≠ i) : Ordered (arrived ++ new) i x := by
  have hiff (ui sub) : Arrived (arrived ++ new) i ui sub ↔ Arrived arrived i ui sub := by
    refine ⟨fun ⟨m, hm, hi, hsub⟩ => ⟨m, ?_, hi, hsub⟩, fun ⟨m, hm, h⟩ => ⟨m, List.mem_append_left _ hm, h⟩⟩
    exact (List.mem_append.mp hm).resolve_right fun hm => hnew _ hm hi
  exact ⟨h.pos, h.turns, fun c hc => (hiff ..).mpr (h.came c hc), fun y hy => (hiff ..).mpr (h.queued y hy),
    fun ui sub ha => h.waits ui sub ((hiff ..).mp ha)⟩

/-- What has arrived when `m` arrives. -/
theorem arrived_concat (hm : m.replicaId = i) {u : Nat} {sub : UISub} :
    Arrived (arrived ++ [(ui, m)]) i u sub ↔ Arrived arrived i u sub ∨ u = ui ∧ m.sub = sub := by
  constructor
  · rintro ⟨m', hm', hi, hsub⟩
    rcases List.mem_append.mp hm' with hm' | hm'
    · exact Or.inl ⟨m', hm', hi, hsub⟩
    · cases List.mem_singleton.mp hm'
      exact Or.inr ⟨rfl, hsub⟩
  · rintro (⟨m', hm', h⟩ | ⟨rfl, rfl⟩)
    · exact ⟨m', List.mem_append_left _ hm', h⟩
    · exact ⟨m, by simp, hm, rfl⟩

/-- A message arrives that is not the next one. -/
theorem await (h : Ordered arrived i (next, queue, calls)) (hm : m.replicaId = i) :
    Ordered (arrived ++ [(ui, m)]) i (next, queue.insert ui m, calls) where
  pos := h.pos
  turns := h.turns
  came c hc := (arrived_concat hm).mpr (Or.inl (h.came c hc))
  queued y hy := by
    rcases StdMap.mem_insert hy with rfl | hy
    · exact (arrived_concat hm).mpr (Or.inr ⟨rfl, rfl⟩)
    · exact (arrived_concat hm).mpr (Or.inl (h.queued y hy))
  waits u sub ha hu := by
    rcases eq_or_ne u ui with rfl | hne
    · exact List.mem_map_of_mem (StdMap.mem_insert_self ..)
    · have ha := ((arrived_concat hm).mp ha).resolve_right fun h => hne h.1
      obtain ⟨⟨_, b⟩, hb, rfl⟩ := List.mem_map.mp (h.waits u sub ha hu)
      exact List.mem_map_of_mem (StdMap.mem_insert_of_ne hb hne)

/-- The next message arrives, and its handler is called. -/
theorem pass (h : Ordered arrived i (next, queue, calls)) (hm : m.replicaId = i) :
    Ordered (arrived ++ [(next, m)]) i (next + 1, queue, calls ++ [(next, m.sub)]) where
  pos := Nat.le_add_left 1 next
  turns := h.turns_succ m.sub
  came c hc := by
    rcases List.mem_append.mp hc with hc | hc
    · exact (arrived_concat hm).mpr (Or.inl (h.came c hc))
    · cases List.mem_singleton.mp hc
      exact (arrived_concat hm).mpr (Or.inr ⟨rfl, rfl⟩)
  queued y hy := (arrived_concat hm).mpr (Or.inl (h.queued y hy))
  waits u sub ha hu := by
    have hu : next + 1 ≤ u := hu
    have ha := ((arrived_concat hm).mp ha).resolve_right fun h => by omega
    exact h.waits u sub ha (Nat.le_of_succ_le hu)

/-- The next message is taken out of the queue, and its handler is called. -/
theorem take (h : Ordered arrived i (next, queue, calls)) (hm : (next, m) ∈ queue.toList) :
    Ordered arrived i (next + 1, queue.erase next, calls ++ [(next, m.sub)]) where
  pos := Nat.le_add_left 1 next
  turns := h.turns_succ m.sub
  came c hc := by
    rcases List.mem_append.mp hc with hc | hc
    · exact h.came c hc
    · cases List.mem_singleton.mp hc
      exact h.queued _ hm
  queued y hy := h.queued y (List.mem_of_mem_filter hy)
  waits u sub ha hu := by
    have hu : next + 1 ≤ u := hu
    obtain ⟨y, hy, rfl⟩ := List.mem_map.mp (h.waits u sub ha (Nat.le_of_succ_le hu))
    have hne : y.1 ≠ next := by omega
    exact List.mem_map_of_mem (List.mem_filter.mpr ⟨hy, by simpa using hne⟩)

end Ordered

/-! ### What a step does -/

section
variable {i j : Nat}

/-- If it returns, the handler leaves what the replica has of sender `i`. -/
abbrev Aside (i : Nat) {α : Type} (m : CHandler α) : Prop := Relates (Same (ofSender i)) m

theorem aside_beside {α : Type} {m : RHandler α} (h : Apart m) : Aside i (beside m) := by
  intro x
  refine sat_beside.mpr ((h x.1).mono (fun _ s _ huis => ?_) fun _ _ _ => trivial)
  have huis : (s.nextUi, s.uiQueue) = (x.1.nextUi, x.1.uiQueue) := huis
  simp only [Same, ofSender, (Prod.mk.inj huis).1, (Prod.mk.inj huis).2]

/-- The handler of a message is called. -/
theorem passUi_spec (ui : Nat) (sub : UISub) (x : Replica × Calls) :
    Sat (passUi E i ui sub) x
      (fun _ x' _ => ofSender i x' = (x.1.nextUi i, x.1.uiQueue i, callsOf i x.2 ++ [(ui, sub)])) fun _ _ => True := by
  refine sat_bind.mpr (sat_ghost.mpr ?_)
  have haside : Aside i (beside (handleUi E ui sub)) := aside_beside (apart_handleUi ui sub)
  refine (haside _).mono (fun _ x' _ hx => ?_) fun _ _ _ => trivial
  have hx : ofSender i x' = ofSender i (x.1, x.2 ++ [(i, ui, sub)]) := hx
  rw [hx, ofSender, callsOf_concat, if_pos rfl]

theorem aside_passUi (hji : j ≠ i) (ui : Nat) (sub : UISub) : Aside i (passUi E j ui sub) := by
  refine Relates.bind (relates_modify fun x => ?_) fun _ => aside_beside (apart_handleUi ui sub)
  simp only [Same, ofSender, callsOf_concat, if_neg hji, List.append_nil]

theorem aside_beside_modify {f : Replica → Replica}
    (h : ∀ s, (f s).nextUi i = s.nextUi i ∧ (f s).uiQueue i = s.uiQueue i) : Aside i (beside (modify f)) := by
  intro x
  refine sat_beside.mpr (sat_modify.mpr ?_)
  simp only [Same, ofSender, (h x.1).1, (h x.1).2]

theorem aside_countUi (hji : j ≠ i) : Aside i (beside (modify (·.countUi j))) :=
  aside_beside_modify fun _ => ⟨Function.update_of_ne hji.symm _ _, rfl⟩

theorem aside_setQueue (hji : j ≠ i) (f : Replica → StdMap Nat UIMessage) :
    Aside i (beside (modify fun s => s.setQueue j (f s))) :=
  aside_beside_modify fun _ => ⟨rfl, Function.update_of_ne hji.symm _ _⟩

theorem aside_drainQueue (hji : j ≠ i) : ∀ n, Aside i (drainQueueCalls E j n)
  | 0 => relates_pure
  | n + 1 => by
      refine Relates.bind (aside_beside relates_get) fun s => ?_
      cases (s.uiQueue j).toList with
      | nil => exact relates_pure
      | cons x rest =>
        refine relates_pure.ite (Relates.bind (aside_countUi hji) fun _ => ?_)
        refine Relates.bind (aside_passUi hji _ _) fun _ => Relates.bind (aside_setQueue hji _) fun _ => ?_
        exact aside_drainQueue hji n

/-- A message that is older than the next one stops the loop at once. -/
theorem drainQueue_of_stale (n : Nat) {x : Replica × Calls}
    (hstale : ∃ y ∈ (x.1.uiQueue i).toList, y.1 < x.1.nextUi i) :
    Sat (drainQueueCalls E i n) x (fun _ x' _ => x' = x) fun _ _ => True := by
  cases n with
  | zero => exact sat_pure.mpr rfl
  | succ n =>
    refine sat_bind.mpr (sat_beside.mpr (sat_get.mpr ?_))
    obtain ⟨y, hy, hlt⟩ := hstale
    have hs := (x.1.uiQueue i).sorted
    rcases hq : (x.1.uiQueue i).toList with _ | ⟨z, rest⟩
    · exact sat_pure.mpr rfl
    · -- The first message is no younger than the old one.
      rw [hq] at hy hs
      have hz : z.1 ≠ x.1.nextUi i := by
        rcases List.mem_cons.mp hy with rfl | hy
        · exact hlt.ne
        · have hzy : z.1 < y.1 := (List.pairwise_cons.mp hs).1 y.1 (List.mem_map_of_mem hy)
          exact (hzy.trans hlt).ne
      show Sat (if z.1 ≠ x.1.nextUi i then pure () else _) x _ _
      rw [if_pos hz]
      exact sat_pure.mpr rfl

/-- A round of the loop: a message is taken out of the queue. -/
theorem drainQueue_round (ui : Nat) (sub : UISub) (x : Replica × Calls) {m : CHandler Unit}
    {Q : Unit → Replica × Calls → List Output → Prop}
    (hm : ∀ x' o, ofSender i x' = (x.1.nextUi i + 1, (x.1.uiQueue i).erase ui, callsOf i x.2 ++ [(ui, sub)]) →
      Sat m x' (fun _ x'' o' => Q () x'' (o ++ o')) fun _ _ => True) :
    Sat (do
      beside (modify (·.countUi i))
      passUi E i ui sub
      beside (modify fun s => s.setQueue i ((s.uiQueue i).erase ui))
      m) x Q fun _ _ => True := by
  refine sat_bind.mpr (sat_beside.mpr (sat_modify.mpr (sat_bind.mpr ?_)))
  refine (passUi_spec _ _ _).mono (fun _ x₁ o hx₁ => ?_) fun _ _ _ => trivial
  refine sat_bind.mpr (sat_beside.mpr (sat_modify.mpr ?_))
  obtain ⟨hnext, hqueue, hcalls⟩ : _ ∧ _ ∧ _ := by simpa only [ofSender, Prod.mk.injEq] using hx₁
  have hnext : x₁.1.nextUi i = x.1.nextUi i + 1 := hnext.trans (Function.update_self ..)
  have hqueue : x₁.1.uiQueue i = x.1.uiQueue i := hqueue
  have hset : (x₁.1.setQueue i ((x₁.1.uiQueue i).erase ui)).uiQueue i = (x.1.uiQueue i).erase ui := by
    rw [← hqueue]
    exact Function.update_self ..
  exact hm _ _ (Prod.ext hnext (Prod.ext hset hcalls))

/-- Without such a message the loop ends with the next message not in the queue. -/
theorem drainQueueCalls_spec {arrived : List (Nat × UIMessage)} (n : Nat) {x : Replica × Calls}
    (h : Ordered arrived i (ofSender i x)) (hall : ∀ y ∈ (x.1.uiQueue i).toList, x.1.nextUi i ≤ y.1)
    (hn : (x.1.uiQueue i).size ≤ n) :
    Sat (drainQueueCalls E i n) x (fun _ x' _ => Ordered arrived i (ofSender i x') ∧
      x'.1.nextUi i ∉ (x'.1.uiQueue i).toList.map Prod.fst) fun _ _ => True := by
  induction n generalizing x with
  | zero =>
    have hq : (x.1.uiQueue i).toList = [] := List.length_eq_zero_iff.mp (Nat.le_zero.mp hn)
    exact sat_pure.mpr ⟨h, by simp [hq]⟩
  | succ n ih =>
    refine sat_bind.mpr (sat_beside.mpr (sat_get.mpr ?_))
    have hs := (x.1.uiQueue i).sorted
    rcases hq : (x.1.uiQueue i).toList with _ | ⟨⟨ui, m⟩, rest⟩
    · exact sat_pure.mpr ⟨h, by simp [hq]⟩
    · rw [hq] at hs hall
      obtain ⟨hlt, -⟩ := List.pairwise_cons.mp hs
      show Sat (if ui ≠ x.1.nextUi i then pure () else _) x _ _
      split_ifs with hui
      · refine sat_pure.mpr ⟨h, fun hmem => ?_⟩
        rw [hq] at hmem
        rcases List.mem_cons.mp hmem with heq | hmem
        · exact hui heq.symm
        · have hge : x.1.nextUi i ≤ ui := hall _ (List.mem_cons_self ..)
          exact absurd (hlt _ hmem) (Nat.not_lt.mpr hge)
      · obtain rfl : ui = x.1.nextUi i := not_not.mp hui
        refine drainQueue_round _ m.sub x fun x' o hx' => ?_
        obtain ⟨hnext, hqueue, -⟩ : _ ∧ _ ∧ _ := by simpa only [ofSender, Prod.mk.injEq] using hx'
        have hrest : (x'.1.uiQueue i).toList = rest := hqueue ▸ StdMap.toList_erase_head hq
        refine ih (hx' ▸ h.take (hq ▸ List.mem_cons_self ..)) ?_ ?_
        · intro y hy
          rw [hrest] at hy
          exact hnext ▸ hlt y.1 (List.mem_map_of_mem hy)
        · rw [StdMap.size, hrest]
          rw [StdMap.size, hq] at hn
          exact Nat.le_of_succ_le_succ hn

/-- A message of another sender. -/
theorem aside_receiveUi (ui : Nat) {m : UIMessage} (hm : m.replicaId ≠ i) : Aside i (receiveUiCalls E ui m) := by
  refine Relates.bind (aside_beside relates_get) fun s => Relates.ite (aside_setQueue hm _) ?_
  refine Relates.bind (aside_countUi hm) fun _ => Relates.bind (aside_passUi hm _ _) fun _ => ?_
  exact Relates.bind (aside_drainQueue hm _) fun _ => aside_beside apart_concludeEpilogue

/-- When message `ui` of sender `i` arrives in its turn and the one after it waits, no older one waits. -/
def Replica.InTurn (s : Replica) (i ui : Nat) : Prop :=
  ui = s.nextUi i → ui + 1 ∈ (s.uiQueue i).toList.map Prod.fst → ∀ y ∈ (s.uiQueue i).toList, ui ≤ y.1

/-- The next message of sender `i` is not in the queue. -/
def Replica.Drained (s : Replica) (i : Nat) : Prop := s.nextUi i ∉ (s.uiQueue i).toList.map Prod.fst

/-- A message of the sender. -/
theorem receiveUiCalls_spec {arrived : List (Nat × UIMessage)} (ui : Nat) {m : UIMessage} (hm : m.replicaId = i)
    {x : Replica × Calls} (h : Ordered arrived i (ofSender i x)) (hd : x.1.Drained i) :
    Sat (receiveUiCalls E ui m) x (fun _ x' _ => Ordered (arrived ++ [(ui, m)]) i (ofSender i x') ∧
      (x'.1.Drained i ↔ x.1.InTurn i ui)) fun _ _ => True := by
  subst hm
  refine sat_bind.mpr (sat_beside.mpr (sat_get.mpr (sat_ite.mpr ⟨fun hui => ?_, fun hui => ?_⟩)))
  · -- It waits.
    refine sat_beside.mpr (sat_modify.mpr ?_)
    have hset : ofSender m.replicaId (x.1.setQueue m.replicaId ((x.1.uiQueue m.replicaId).insert ui m), x.2) =
        (x.1.nextUi m.replicaId, (x.1.uiQueue m.replicaId).insert ui m, callsOf m.replicaId x.2) := by
      simp only [ofSender, Replica.setQueue, Function.update_self]
    refine ⟨hset ▸ h.await rfl, iff_of_true (fun hmem => ?_) fun heq => absurd heq hui⟩
    have hmem : x.1.nextUi m.replicaId ∈ ((x.1.uiQueue m.replicaId).insert ui m).toList.map Prod.fst := by
      simpa only [Replica.setQueue, Function.update_self] using hmem
    obtain ⟨y, hy, hyn⟩ := List.mem_map.mp hmem
    rcases StdMap.mem_insert hy with rfl | hy
    · exact hui hyn
    · exact hd (hyn ▸ List.mem_map_of_mem hy)
  · obtain rfl : ui = x.1.nextUi m.replicaId := not_not.mp hui
    refine sat_bind.mpr (sat_beside.mpr (sat_modify.mpr (sat_bind.mpr ?_)))
    refine (passUi_spec _ _ _).mono (fun _ x₁ _ hx₁ => sat_bind.mpr ?_) fun _ _ _ => trivial
    obtain ⟨hnext, hqueue, hcalls⟩ : _ ∧ _ ∧ _ := by simpa only [ofSender, Prod.mk.injEq] using hx₁
    have hnext : x₁.1.nextUi m.replicaId = x.1.nextUi m.replicaId + 1 := hnext.trans (Function.update_self ..)
    have hqueue : x₁.1.uiQueue m.replicaId = x.1.uiQueue m.replicaId := hqueue
    have hpass : Ordered (arrived ++ [(x.1.nextUi m.replicaId, m)]) m.replicaId (ofSender m.replicaId x₁) := by
      rw [ofSender, hnext, hqueue, hcalls]
      exact h.pass rfl
    have hconclude {x' x'' : Replica × Calls} (hx : Same (ofSender m.replicaId) x' x'') :
        (x''.1.Drained m.replicaId ↔ x'.1.Drained m.replicaId) := by
      obtain ⟨hn, hq, -⟩ : _ ∧ _ ∧ _ := by simpa only [Same, ofSender, Prod.mk.injEq] using hx
      rw [Replica.Drained, Replica.Drained, hn, hq]
    have haside : Aside m.replicaId (beside concludeEpilogue) := aside_beside apart_concludeEpilogue
    by_cases hstale : ∃ y ∈ (x.1.uiQueue m.replicaId).toList, y.1 < x.1.nextUi m.replicaId
    · -- An older message is the first of the queue, and nothing more is taken out.
      obtain ⟨y, hy, hlt⟩ := hstale
      refine (drainQueue_of_stale _ ⟨y, hqueue ▸ hy, hnext ▸ Nat.lt_succ_of_lt hlt⟩).mono ?_ fun _ _ _ => trivial
      rintro _ _ _ rfl
      refine (haside _).mono (fun _ x' _ hx => ⟨hx ▸ hpass, (hconclude hx).trans ?_⟩) fun _ _ _ => trivial
      rw [Replica.Drained, hnext, hqueue]
      exact ⟨fun hnot _ hmem => absurd hmem hnot, fun hin hmem => absurd (hin rfl hmem y hy) (Nat.not_le.mpr hlt)⟩
    · have hall : ∀ y ∈ (x.1.uiQueue m.replicaId).toList, x.1.nextUi m.replicaId + 1 ≤ y.1 := by
        intro y hy
        have hge : x.1.nextUi m.replicaId ≤ y.1 := Nat.not_lt.mp fun hlt => hstale ⟨y, hy, hlt⟩
        exact Nat.lt_of_le_of_ne hge fun heq => hd (heq ▸ List.mem_map_of_mem hy)
      refine (drainQueueCalls_spec _ hpass (by rwa [hnext, hqueue]) (by rw [hqueue])).mono ?_ fun _ _ _ => trivial
      rintro _ x₂ _ ⟨hx₂, hd₂⟩
      refine (haside _).mono (fun _ x' _ hx => ⟨hx ▸ hx₂, (hconclude hx).trans ?_⟩) fun _ _ _ => trivial
      exact iff_of_true hd₂ fun _ _ y hy => Nat.le_of_succ_le (hall y hy)

end

/-! ### Runs -/

/-- The handlers have been called for the messages `1..k` of sender `i`, in this order and each once, where `1..k`
    is the longest contiguous prefix of what has arrived. -/
def InOrder (x : Seen) (i : Nat) : Prop :=
  ∃ k, (∀ ui, 1 ≤ ui → ui ≤ k → ∃ sub, Arrived x.arrived i ui sub) ∧ (∀ sub, ¬ Arrived x.arrived i (k + 1) sub) ∧
    (callsOf i x.calls).map Prod.fst = List.range' 1 k ∧ ∀ c ∈ callsOf i x.calls, Arrived x.arrived i c.1 c.2

/-- The messages of sender `i` among an input come in their turn. -/
def Replica.Smooth (s : Replica) (i : Nat) (e : Input) : Prop := ∀ a ∈ e.arrival, a.2.replicaId = i → s.InTurn i a.1

instance (s : Replica) (i ui : Nat) : Decidable (s.InTurn i ui) :=
  inferInstanceAs (Decidable (_ → _ → ∀ y ∈ _, _))

instance (s : Replica) (i : Nat) (e : Input) : Decidable (s.Smooth i e) :=
  inferInstanceAs (Decidable (∀ a ∈ e.arrival, _ → _))

section
variable {i : Nat} {x x' : Seen} {e : Input}

/-- What a replica that gets what it gets has of sender `i`. -/
def Seen.ordered (x : Seen) (i : Nat) : Prop := Ordered x.arrived i (ofSender i (x.replica, x.calls))

theorem inOrder_iff (h : x.ordered i) : InOrder x i ↔ x.replica.Drained i := by
  have hturns : (callsOf i x.calls).map Prod.fst = List.range' 1 (x.replica.nextUi i - 1) := h.turns
  have hpos : 1 ≤ x.replica.nextUi i := h.pos
  constructor
  · rintro ⟨k, -, hnot, hcalls, -⟩ hmem
    have hk : x.replica.nextUi i = k + 1 := by
      have hlen : (List.range' 1 (x.replica.nextUi i - 1)).length = (List.range' 1 k).length := by
        rw [← hturns, hcalls]
      simp only [List.length_range'] at hlen
      omega
    obtain ⟨y, hy, hyn⟩ := List.mem_map.mp hmem
    exact hnot y.2.sub (hk ▸ hyn ▸ h.queued y hy)
  · intro hd
    refine ⟨x.replica.nextUi i - 1, fun ui h1 hui => ?_, fun sub ha => hd ?_, hturns, h.came⟩
    · have hmem : ui ∈ (callsOf i x.calls).map Prod.fst := by
        rw [hturns, List.mem_range'_1]
        omega
      obtain ⟨c, hc, rfl⟩ := List.mem_map.mp hmem
      exact ⟨c.2, h.came c hc⟩
    · rw [Nat.sub_add_cancel hpos] at ha
      exact h.waits _ sub ha (Nat.le_refl _)

/-- A step that brings no message of the sender. -/
theorem aside_handler {m : CHandler Unit} (hm : e.handler E x.replica = some m)
    (he : ∀ a ∈ e.arrival, a.2.replicaId ≠ i) : Aside i m := by
  cases e with
  | timer =>
    obtain ⟨-, hm⟩ := Option.ite_none_right_eq_some.mp hm
    obtain rfl := Option.some.inj hm
    exact aside_beside apart_closeBatch
  | message remote msg =>
    obtain rfl := Option.some.inj hm
    cases msg with
    | signedRequest request =>
      exact aside_beside ((apart_handleRequest remote request).bind fun _ => apart_concludeEpilogue)
    | uiMessage ui m => exact aside_receiveUi ui (he (ui, m) (List.mem_singleton_self _))

/-- One step, from a state where nothing that is next waits. -/
theorem ordered_step (h : x.ordered i) (hd : x.replica.Drained i) (hst : (arrivals E).step x e = some x') :
    x'.ordered i ∧ (x'.replica.Drained i ↔ x.replica.Smooth i e) := by
  obtain ⟨m, o, hm, hx, harr⟩ := of_arrivals_step hst
  by_cases he : ∀ a ∈ e.arrival, a.2.replicaId ≠ i
  · have hsame := aside_handler hm he (x.replica, x.calls)
    rw [Sat, hx] at hsame
    have hsame : ofSender i (x'.replica, x'.calls) = ofSender i (x.replica, x.calls) := hsame
    obtain ⟨hn, hq, -⟩ : _ ∧ _ ∧ _ := by simpa only [ofSender, Prod.mk.injEq] using hsame
    refine ⟨?_, iff_of_true ?_ fun a ha hi => absurd hi (he a ha)⟩
    · rw [Seen.ordered, hsame, harr]
      exact h.ignore he
    · rwa [Replica.Drained, hn, hq]
  · obtain ⟨a, ha, hi⟩ : ∃ a ∈ e.arrival, a.2.replicaId = i := by
      by_contra hno
      exact he fun a ha hi => hno ⟨a, ha, hi⟩
    rcases e with ⟨remote, request | ⟨ui, msg⟩⟩ | _
    · cases ha
    · cases List.mem_singleton.mp ha
      cases Option.some.inj hm
      have hspec := receiveUiCalls_spec (E := E) ui hi h hd
      rw [Sat, show receiveUiCalls E ui msg (x.replica, x.calls) = _ from hx] at hspec
      refine ⟨?_, hspec.2.trans ?_⟩
      · rw [Seen.ordered, harr]
        exact hspec.1
      · exact ⟨fun ht a ha _ => by cases List.mem_singleton.mp ha; exact ht, fun hs => hs _ ha hi⟩
    · cases ha

/-- A run whose messages of sender `i` come in their turn. -/
theorem ordered_run (hi : i < E.config.n) {past : List Seen}
    (hr : Run (arrivals E) (fun x e => x.replica.Smooth i e) past x) : x.ordered i ∧ x.replica.Drained i := by
  refine hr.invariant (I := fun _ x => x.ordered i ∧ x.replica.Drained i) ⟨?_, fun h => by cases h⟩ ?_
  · have hnext : (Replica.initial E).nextUi i = 1 := if_pos hi
    refine ⟨?_, ?_, fun c hc => ?_, fun y hy => ?_, fun ui sub ⟨m, hm, _⟩ => ?_⟩
    · exact hnext.ge
    · show [] = List.range' 1 ((Replica.initial E).nextUi i - 1)
      rw [hnext]
      rfl
    · cases hc
    · cases hy
    · cases hm
  · rintro _ x e x' _ ⟨h, hd⟩ hs hst
    obtain ⟨h', hiff⟩ := ordered_step h hd hst
    exact ⟨h', hiff.mpr hs⟩

end

/-- As long as no message older than the one that arrives in its turn waits when the one after it does, the
    handlers are called for what the sender has numbered, in order and each once; and the first time that one
    does, they are not. -/
theorem calls_inOrder_iff {E : Env} {i : Nat} (hi : i < E.config.n) {past : List Seen} {x : Seen}
    (hr : Run (arrivals E) (fun x e => x.replica.Smooth i e) past x) :
    InOrder x i ∧ ∀ e x', (arrivals E).step x e = some x' → (InOrder x' i ↔ x.replica.Smooth i e) := by
  obtain ⟨h, hd⟩ := ordered_run hi hr
  refine ⟨(inOrder_iff h).mpr hd, fun e x' hst => ?_⟩
  obtain ⟨h', hiff⟩ := ordered_step h hd hst
  exact (inOrder_iff h').trans hiff

/-- Commits of backup 2 arrive at backup 1 of three replicas. -/
def commitArrives (ui : Nat) : Input :=
  .message (.replica 2) (.uiMessage ui { sub := .commit { viewNumber := 0, primaryUi := ui, replicaId := 2 }, replicaId := 2 })

theorem calls_inOrder_iff_reordered : ∃ past x,
    Run (arrivals (threeReplicas.env 1)) (fun x e => x.replica.Smooth 2 e) past x ∧
      (callsOf 2 x.calls).map Prod.fst = [1, 2, 3] ∧ InOrder x 2 := by
  obtain ⟨past, x, hr, hx⟩ := Run.exists_of_exec (arrivals (threeReplicas.env 1)) (fun x e => x.replica.Smooth 2 e)
    [commitArrives 3, commitArrives 2, commitArrives 3, commitArrives 1]
    (fun x => decide ((callsOf 2 x.calls).map Prod.fst = [1, 2, 3])) (by decide +kernel)
  exact ⟨past, x, hr, of_decide_eq_true hx, (calls_inOrder_iff (by decide) hr).1⟩

/-- After a message that comes twice the queue is stuck. -/
theorem duplicate_blocks_queue : ∃ past x, Run (arrivals (threeReplicas.env 1)) (fun _ _ => True) past x ∧
    x.arrived.map Prod.fst = [1, 1, 3, 2] ∧ ¬ InOrder x 2 := by
  obtain ⟨past, x, hr, hx⟩ := Run.exists_of_exec (arrivals (threeReplicas.env 1)) (fun _ _ => True)
    [commitArrives 1, commitArrives 1, commitArrives 3, commitArrives 2]
    (fun x => decide ((callsOf 2 x.calls).map Prod.fst = [1, 2] ∧ x.arrived.map Prod.fst = [1, 1, 3, 2] ∧
      Arrived x.arrived 2 3 (.commit { viewNumber := 0, primaryUi := 3, replicaId := 2 }))) (by decide +kernel)
  obtain ⟨hcalls, harr, h3⟩ := of_decide_eq_true hx
  refine ⟨past, x, hr, harr, fun ⟨k, _, hnot, hk, _⟩ => ?_⟩
  obtain rfl : k = 2 := by
    rw [hcalls] at hk
    simpa using (congrArg List.length hk).symm
  exact hnot _ h3

end Dsnet.MinBFT
