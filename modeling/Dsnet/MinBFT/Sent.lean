import Dsnet.MinBFT.Replica

/-! The history `sent` of a MinBFT replica against the network: what it records has been sent, to all the other
    replicas. -/

namespace Dsnet.MinBFT
open Handler

variable {E : Env}

/-- What an output has of UI messages. -/
def subs : Output → List UISub
  | .toAll (.uiMessage _ m) => [m.sub]
  | _ => []

/-- The history records the UI messages that the handler sends. -/
abbrev Recorded {α : Type} (m : RHandler α) : Prop := Records Replica.sent subs m

theorem recorded_append (req : Request) : Recorded (append req) :=
  records_get.bind fun _ => records_ofOption.bind fun _ => records_modify fun _ => rfl

theorem recorded_sendUi (sub : UISub) : Recorded (sendUi E sub) := by
  intro s
  simp only [sendUi, sat_bind, sat_get, sat_emit, sat_modify]
  rfl

theorem recorded_commitRange : ∀ n j, Recorded (commitRange j n)
  | 0, _ => records_pure
  | n + 1, _ => records_get.bind fun _ => records_ofOption.bind fun _ => Records.bind (records_modify fun _ => rfl) fun _ =>
      recorded_commitRange n _

theorem recorded_executeNext (e : LogEntry) : Recorded (executeNext E e) := by
  refine Records.bind (records_modify fun _ => rfl) fun _ => records_get.bind fun _ => ?_
  refine Records.bind (records_modify fun _ => rfl) fun _ => Records.whenSome fun _ => ?_
  exact Records.bind (records_modify fun _ => rfl) fun _ => records_modify fun _ => rfl

theorem recorded_executeLoop : ∀ n, Recorded (executeLoop E n)
  | 0 => records_pure
  | n + 1 => records_get.bind fun _ => Records.whenSome fun e => Records.when <|
      (recorded_executeNext e).bind fun _ => recorded_executeLoop n

theorem recorded_addCommit (m : Commit) : Recorded (addCommit E m) := by
  refine Records.bind (records_modify fun _ => rfl) fun _ => records_get.bind fun _ => Records.whenSome fun _ => ?_
  refine records_get.bind fun _ => records_ofOption.bind fun _ => ?_
  exact (recorded_commitRange _ _).bind fun _ => recorded_executeLoop _

theorem recorded_sendCommit (ui : Nat) : Recorded (sendCommit E ui) :=
  Records.bind (records_modify fun _ => rfl) fun _ => records_get.bind fun _ => (recorded_sendUi _).bind fun _ =>
    recorded_addCommit _

theorem recorded_handleCommit (m : Commit) : Recorded (handleCommit E m) :=
  records_get.bind fun _ => records_pure.ite (recorded_addCommit m)

theorem recorded_appendRequests : ∀ reqs, Recorded (appendRequests reqs)
  | [] => records_pure
  | req :: reqs => (recorded_append req).bind fun _ => recorded_appendRequests reqs

theorem recorded_handlePrepare (m : Prepare) (ui : Nat) : Recorded (handlePrepare E m ui) := by
  refine records_get.bind fun _ => records_pure.ite (records_abort.ite (records_abort.ite ?_))
  refine Records.bind (records_modify fun _ => rfl) fun _ => (recorded_appendRequests _).bind fun _ => ?_
  exact Records.bind (records_modify fun _ => rfl) fun _ => recorded_sendCommit ui

theorem recorded_closeBatch : Recorded (closeBatch E) :=
  Records.bind (records_modify fun _ => rfl) fun _ => records_get.bind fun _ => Records.bind (records_modify fun _ => rfl) fun _ =>
    (recorded_sendUi _).bind fun _ => recorded_sendCommit _

theorem recorded_handleNewRequest (req : Request) (entry : ClientEntry) : Recorded (handleNewRequest E req entry) := by
  refine Records.bind (records_modify fun _ => rfl) fun _ => records_get.bind fun _ => records_pure.ite ?_
  refine (recorded_append req).bind fun _ => Records.bind (records_modify fun _ => rfl) fun _ => ?_
  exact records_get.bind fun _ => recorded_closeBatch.when

theorem recorded_handleRequest (remote : Addr) (req : Request) : Recorded (handleRequest E remote req) := by
  refine records_get.bind fun s => ?_
  cases s.clientTable req.clientid with
  | none => exact recorded_handleNewRequest req _
  | some entry =>
    exact records_pure.ite ((Records.whenSome fun _ => records_emit rfl).ite (recorded_handleNewRequest req entry))

theorem recorded_handleUi (ui : Nat) : ∀ sub, Recorded (handleUi E ui sub)
  | .prepare m => recorded_handlePrepare m ui
  | .commit m => recorded_handleCommit m

theorem recorded_drainQueue (i : Nat) : ∀ n, Recorded (drainQueue E i n)
  | 0 => records_pure
  | n + 1 => by
      refine records_get.bind fun s => ?_
      cases (s.uiQueue i).toList with
      | nil => exact records_pure
      | cons x rest =>
        refine records_pure.ite (Records.bind (records_modify fun _ => rfl) fun _ => (recorded_handleUi _ _).bind fun _ => ?_)
        exact Records.bind (records_modify fun _ => rfl) fun _ => recorded_drainQueue i n

theorem recorded_concludeEpilogue : Recorded concludeEpilogue :=
  records_get.bind fun _ => (Records.forEach (fun _ => records_emit rfl) _).bind fun _ => records_modify fun _ => rfl

theorem recorded_receiveMessage (remote : Addr) : ∀ m, Recorded (receiveMessage E remote m)
  | .signedRequest req => (recorded_handleRequest remote req).bind fun _ => recorded_concludeEpilogue
  | .uiMessage ui m => by
      refine records_get.bind fun _ => Records.ite (records_modify fun _ => rfl) ?_
      refine Records.bind (records_modify fun _ => rfl) fun _ => ?_
      exact (recorded_handleUi ui m.sub).bind fun _ => (recorded_drainQueue _ _).bind fun _ =>
        recorded_concludeEpilogue

/-! ### Runs -/

/-- Replica `i` has sent this message to replica `j`. -/
def OnNet (s : Sys) (i j : Nat) (sub : UISub) : Prop :=
  ∃ p ∈ s.net, p.src = .replica i ∧ p.dst = j ∧ ∃ ui m, p.msg = .uiMessage ui m ∧ m.sub = sub

variable {G : Group}

/-- An output that has a UI message sends it to all the other replicas. -/
theorem mem_packets_of_subs {x : Output} {sub : UISub} (hx : sub ∈ subs x) {n r j : Nat} (hj : j < n) (hjr : j ≠ r) :
    ∃ p ∈ Net.packets n r x, p.src = .replica r ∧ p.dst = j ∧ ∃ ui m, p.msg = .uiMessage ui m ∧ m.sub = sub := by
  cases x with
  | toReplica => cases hx
  | toAddr => cases hx
  | toClient => cases hx
  | toAll msg =>
    cases msg with
    | signedRequest => cases hx
    | uiMessage ui m =>
      refine ⟨⟨.replica r, j, .uiMessage ui m⟩, List.mem_map_of_mem ?_, rfl, rfl, ui, m, rfl,
        (List.mem_singleton.mp hx).symm⟩
      exact List.mem_filter.mpr ⟨List.mem_range.mpr hj, by simpa using hjr⟩

/-- What a history has is on the network. -/
theorem onNet_of_run {ok : Sys → Event → Prop} {past : List Sys} {s : Sys} (hr : Run G.system ok past s) {i j : Nat}
    (hj : j < G.config.n) (hji : j ≠ i) {sub : UISub} (hsub : sub ∈ (s.replica i).sent) : OnNet s i j sub := by
  refine hr.invariant (I := fun _ s => ∀ sub ∈ (s.replica i).sent, OnNet s i j sub) (fun _ h => by cases h) ?_ sub hsub
  rintro _ s e s' _ h - hst sub hsub
  obtain ⟨r, m, hm, -, -, rfl⟩ := Net.Sys.step_eq_some hst
  have hmono {x : Option Unit × Replica × List Output} :
      OnNet s i j sub → OnNet (s.after G.config.n r x) i j sub :=
    fun ⟨p, hp, hrest⟩ => ⟨p, List.mem_append_left _ hp, hrest⟩
  have hrecorded : Recorded m := by
    rcases Net.Event.of_handler hm with ⟨c, req, rfl, rfl⟩ | ⟨k, p, rfl, -, -, rfl⟩ | ⟨u, rfl, -, rfl⟩
    · exact recorded_receiveMessage _ (.signedRequest req)
    · exact recorded_receiveMessage _ _
    · exact recorded_closeBatch
  by_cases hir : i = r
  · subst hir
    have houtputs {x : Option Unit} {t : Replica} {o : List Output}
        (ht : t.sent = (s.replica i).sent ++ o.flatMap subs)
        (hsub : sub ∈ ((s.after G.config.n i (x, t, o)).replica i).sent) :
        OnNet (s.after G.config.n i (x, t, o)) i j sub := by
      simp only [Net.Sys.after, if_pos, ht] at hsub
      rcases List.mem_append.mp hsub with hsub | hsub
      · exact hmono (h sub hsub)
      · obtain ⟨y, hy, hsub⟩ := List.mem_flatMap.mp hsub
        obtain ⟨p, hp, hrest⟩ := mem_packets_of_subs hsub hj hji
        exact ⟨p, List.mem_append_right _ (List.mem_flatMap.mpr ⟨y, hy, hp⟩), hrest⟩
    rcases Sat.cases (hrecorded (s.replica i)) with ⟨u, t, o, hrun, ht⟩ | ⟨t, o, hrun, ht⟩
    · rw [show m (s.replica i) = (some u, t, o) from hrun] at hsub ⊢
      exact houtputs ht hsub
    · rw [show m (s.replica i) = (none, t, o) from hrun] at hsub ⊢
      exact houtputs ht hsub
  · simp only [Net.Sys.after, if_neg hir] at hsub
    exact hmono (h sub hsub)

end Dsnet.MinBFT
