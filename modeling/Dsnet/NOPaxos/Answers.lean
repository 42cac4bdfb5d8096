import Dsnet.NOPaxos.AtMostOnce

/-! The replies of a NOPaxos replica to a request that it has executed. `UpdateClientTable` stores the reply only
    at the leader, so one that executes a request as a follower (after a SyncCommit) has the number of the
    request in its client table, but not its reply. If it leads a later view and the request is sequenced once
    more, it answers with what is there: an older reply, or an empty one. -/

namespace Dsnet.NOPaxos
open Handler

variable {E : Env} {s s' s'' : Replica} {o o' : List Output} {P : Nat → Prop} {c id : Nat}

/-! ### The first execution -/

/-- What the application returns for the first execution of request `id` of client `c` among these upcalls, which
    come after others. -/
def firstResultAfter (E : Env) (c id : Nat) : List Upcall → List Upcall → Option String
  | _, [] => none
  | before, .execute op req :: us =>
    if req.clientid = c ∧ req.clientreqid = id then some (E.app.replicaUpcall before op req.op false)
    else firstResultAfter E c id (before ++ [.execute op req]) us
  | before, u :: us => firstResultAfter E c id (before ++ [u]) us

/-- The result of the first execution of the request. -/
def firstResult (E : Env) (c id : Nat) (upcalls : List Upcall) : Option String :=
  firstResultAfter E c id [] upcalls

theorem firstResultAfter_append (us' : List Upcall) : ∀ before us : List Upcall,
    firstResultAfter E c id before (us ++ us') =
      (firstResultAfter E c id before us).or (firstResultAfter E c id (before ++ us) us')
  | before, [] => by rw [List.append_nil]; rfl
  | before, u :: us => by
      have hrest := firstResultAfter_append us' (before ++ [u]) us
      rw [List.append_assoc, List.singleton_append] at hrest
      cases u with
      | execute op req =>
        simp only [List.cons_append, firstResultAfter]
        split_ifs
        · rfl
        · exact hrest
      | leader _ _ => exact hrest
      | unlogged _ => exact hrest
      | rollback _ _ _ => exact hrest
      | commit _ => exact hrest

/-- The first execution stays the first one. -/
theorem firstResult_append {upcalls : List Upcall} {result : String} (h : firstResult E c id upcalls = some result)
    (us : List Upcall) : firstResult E c id (upcalls ++ us) = some result := by
  rw [firstResult, firstResultAfter_append, show firstResultAfter E c id [] upcalls = some result from h,
    Option.some_or]

theorem mem_executedIds : id ∈ executedIds s c ↔
    ∃ x ∈ executions s.upcalls, x.2.clientid = c ∧ x.2.clientreqid = id := by
  simp [executedIds, and_assoc]

theorem firstResultAfter_none : ∀ (us before : List Upcall),
    (∀ x ∈ executions us, ¬ (x.2.clientid = c ∧ x.2.clientreqid = id)) → firstResultAfter E c id before us = none
  | [], _, _ => rfl
  | .execute op req :: us, before, h => by
      rw [firstResultAfter, if_neg (h (op, req) (List.mem_cons_self ..))]
      exact firstResultAfter_none us _ fun x hx => h x (List.mem_cons_of_mem _ hx)
  | .leader _ _ :: us, _, h => firstResultAfter_none us _ h
  | .unlogged _ :: us, _, h => firstResultAfter_none us _ h
  | .rollback _ _ _ :: us, _, h => firstResultAfter_none us _ h
  | .commit _ :: us, _, h => firstResultAfter_none us _ h

/-- The result of an execution that is the first one. -/
theorem firstResult_execute (hnew : id ∉ executedIds s c) {op : Nat} {req : Request} (hc : req.clientid = c)
    (hid : req.clientreqid = id) : firstResult E c id (s.upcalls ++ [.execute op req]) =
      some (E.app.replicaUpcall s.upcalls op req.op false) := by
  have hnone := firstResultAfter_none (E := E) _ [] fun x hx hx' => hnew (mem_executedIds.mpr ⟨x, hx, hx'⟩)
  rw [firstResult, firstResultAfter_append, hnone, Option.none_or, List.nil_append, firstResultAfter,
    if_pos ⟨hc, hid⟩]

/-! ### What is in the client table -/

/-- If request `id` of client `c` is the last one in the client table, then its first result is there. -/
def Cached (E : Env) (c id : Nat) (s : Replica) : Prop :=
  ∀ cte, s.clientTable c = some cte → cte.lastReqId = id →
    ∃ result, cte.reply.reply = some result ∧ firstResult E c id s.upcalls = some result

/-- The reply is to the request that the log has in this slot, and if that is request `id` of client `c`, then it
    carries its first result. -/
def Answered (E : Env) (c id : Nat) (s : Replica) (x : ReplyMessage × String) : Prop :=
  ∃ entry, s.log.find x.1.opnum = some entry ∧ entry.request.clientreqid = x.1.clientreqid ∧
    (entry.request.clientid = c → entry.request.clientreqid = id → firstResult E c id s.upcalls = some x.2)

/-- The application has been called further, and what was executed is in the log still. -/
structure Continues (s s' : Replica) : Prop where
  upcalls : ∃ us, s'.upcalls = s.upcalls ++ us
  lastExecutedOp : s.lastExecutedOp ≤ s'.lastExecutedOp
  log : KeepsLog s s'

theorem Continues.trans (h : Continues s s') (h' : Continues s' s'') : Continues s s'' := by
  obtain ⟨us, hus⟩ := h.upcalls
  obtain ⟨us', hus'⟩ := h'.upcalls
  refine ⟨⟨us ++ us', by rw [hus', hus, List.append_assoc]⟩, h.lastExecutedOp.trans h'.lastExecutedOp, ?_⟩
  intro op hop e he
  obtain ⟨e', he', hreq⟩ := h.log op hop e he
  obtain ⟨e'', he'', hreq'⟩ := h'.log op (hop.trans h.lastExecutedOp) e' he'
  exact ⟨e'', he'', hreq'.trans hreq⟩

theorem Still.continues (h : Still s s' o) : Continues s s' := by
  obtain ⟨ops, hops⟩ := h.upcalls
  exact ⟨⟨_, hops⟩, h.lastExecutedOp.ge, h.log⟩

theorem Advances.continues (h : Advances E s s' o) : Continues s s' := by
  refine ⟨?_, h.lastExecutedOp, fun op _ e he => ⟨e, by rwa [h.log], rfl⟩⟩
  cases h.next with
  | skipped hupcalls _ _ => exact ⟨[], by rw [hupcalls, List.append_nil]⟩
  | again _ _ _ _ _ hupcalls _ _ => exact ⟨[], by rw [hupcalls, List.append_nil]⟩
  | first _ _ _ _ _ _ _ hupcalls _ _ => exact ⟨_, hupcalls⟩

theorem Continues.executedIds (h : Continues s s') {c id : Nat} (hid : id ∈ executedIds s c) : id ∈ executedIds s' c := by
  obtain ⟨us, hus⟩ := h.upcalls
  rw [NOPaxos.executedIds, hus, executions_append, List.filter_append, List.map_append]
  exact List.mem_append_left _ hid

theorem Answered.extend {x : ReplyMessage × String} (h : Answered E c id s x) (hx : x.1.opnum ≤ s.lastExecutedOp)
    (hs : Continues s s') : Answered E c id s' x := by
  obtain ⟨entry, hentry, hreq, hresult⟩ := h
  obtain ⟨entry', hentry', heq⟩ := hs.log _ hx entry hentry
  obtain ⟨us, hus⟩ := hs.upcalls
  refine ⟨entry', hentry', by rw [heq, hreq], fun hc hid => ?_⟩
  rw [heq] at hc hid
  rw [hus]
  exact firstResult_append (hresult hc hid) us

/-- A step that leaves the entry of the client alone. -/
theorem Cached.extend (h : Cached E c id s) (hs : Continues s s') (ht : s'.clientTable c = s.clientTable c) :
    Cached E c id s' := by
  obtain ⟨us, hus⟩ := hs.upcalls
  intro cte hcte hid
  obtain ⟨result, hreply, hfirst⟩ := h cte (ht ▸ hcte) hid
  exact ⟨result, hreply, hus ▸ firstResult_append hfirst us⟩

/-! ### One step -/

/-- The request has been executed between the two states. -/
def Executes (c id : Nat) (s s' : Replica) : Prop := id ∉ executedIds s c ∧ id ∈ executedIds s' c

/-- The client table has the first result, and so have the replies. -/
structure Faithful (E : Env) (c id : Nat) (s : Replica) (o : List Output) : Prop where
  cached : Cached E c id s
  answers : ∀ x ∈ answers o, x.1.opnum ≤ s.lastExecutedOp ∧ Answered E c id s x

theorem Advances.faithful (h : Advances E s s' o) (hid : id ≠ 0) (hlead : Executes c id s s' → amLeader E s)
    (horder : InOrder s c) (hc : Cached E c id s) : Faithful E c id s' o := by
  have hext := h.continues
  have hanswers {entry : LogEntry} {result : String} (hentry : s.log.find s'.lastExecutedOp = some entry)
      (ho : AnswersWith s'.lastExecutedOp entry.request.clientreqid result o)
      (hresult : entry.request.clientid = c → entry.request.clientreqid = id →
        firstResult E c id s'.upcalls = some result) :
      ∀ x ∈ answers o, x.1.opnum ≤ s'.lastExecutedOp ∧ Answered E c id s' x := by
    intro x hx
    obtain ⟨hop, hreq, hres⟩ := ho x hx
    exact ⟨hop.le, entry, by rw [h.log, hop, hentry], hreq.symm, by rwa [hres]⟩
  cases h.next with
  | skipped hupcalls htable ho =>
    refine ⟨hc.extend hext (by rw [htable]), fun x hx => ?_⟩
    rw [ho] at hx
    cases hx
  | again entry cte hentry hcte hreq hupcalls htable ho =>
    refine ⟨hc.extend hext (by rw [htable]), hanswers hentry ho ?_⟩
    rintro rfl rfl
    obtain ⟨result, hreply, hfirst⟩ := hc cte hcte hreq.symm
    rw [hupcalls, hfirst, hreply]
    rfl
  | first entry op reply hentry hop hnew hreply hupcalls htable ho =>
    have hincreasing := (horder.advance h).increasing
    rw [executedIds_execute hupcalls] at hincreasing
    have hfirst (hec : entry.request.clientid = c) (heid : entry.request.clientreqid = id) :
        id ∉ executedIds s c ∧ firstResult E c id s'.upcalls = some reply := by
      rw [if_pos hec, heid] at hincreasing
      have hnot : id ∉ executedIds s c := fun hin =>
        absurd ((List.pairwise_append.mp hincreasing).2.2 id hin id (List.mem_singleton_self id)) (Nat.lt_irrefl id)
      rw [hupcalls, hreply]
      exact ⟨hnot, firstResult_execute hnot hec heid⟩
    refine ⟨fun cte hcte hlast => ?_, hanswers hentry ho fun hec heid => (hfirst hec heid).2⟩
    rw [htable, Replica.setClientEntry] at hcte
    by_cases hec : c = entry.request.clientid
    · simp only [if_pos hec, Option.some.injEq] at hcte
      subst hcte
      rw [lastReqId_executedEntry] at hlast
      obtain ⟨hnot, hres⟩ := hfirst hec.symm hlast
      have hleads : amLeader E s := hlead ⟨hnot, by
        rw [executedIds_execute hupcalls, if_pos hec.symm, hlast]
        exact List.mem_append_right _ (List.mem_singleton_self id)⟩
      -- the entry before is that of an earlier request, or there was none
      have hbefore : (s.clientEntry entry.request.clientid).lastReqId ≠ entry.request.clientreqid := by
        unfold Replica.clientEntry
        cases hold : s.clientTable entry.request.clientid with
        | none => exact fun h => hid (hlast ▸ h.symm)
        | some cte => exact (hnew cte hold).ne
      refine ⟨reply, ?_, hres⟩
      rw [executedEntry, if_neg hbefore, if_pos hleads]
    · simp only [if_neg hec] at hcte
      exact hc.extend hext (by rw [htable, Replica.setClientEntry]; exact if_neg hec) cte
        (by rw [htable, Replica.setClientEntry]; simpa only [if_neg hec] using hcte) hlast

/-- Of many steps, in views that the replica leads if the request is executed at all. -/
theorem Execution.faithful (hx : Execution E P s s' o) (hid : id ≠ 0) {K : Prop} (hP : ∀ v, P v → K → leads E v) :
    Continues s s' ∧ ((Executes c id s s' → K) → InOrder s c → Cached E c id s → Faithful E c id s' o) := by
  induction hx with
  | still hs =>
    refine ⟨hs.continues, fun _ _ hc => ⟨hc.extend hs.continues (by rw [hs.clientTable]), fun x hx => ?_⟩⟩
    rw [hs.answers] at hx
    cases hx
  | @next s s' o a hv hrun =>
    have hnext : Advances E s (executeNext E s).2.1 (executeNext E s).2.2 := advances_executeNext.outcome s
    rw [hrun] at hnext
    exact ⟨hnext.continues, fun hK horder hc => hnext.faithful hid (fun h => hP _ hv (hK h)) horder hc⟩
  | @trans s s' s'' o o' hx hx' ih ih' =>
    obtain ⟨hext, h⟩ := ih
    obtain ⟨hext', h'⟩ := ih'
    refine ⟨hext.trans hext', fun hK horder hc => ?_⟩
    have h₁ := h (fun hexec => hK ⟨hexec.1, hext'.executedIds hexec.2⟩) horder hc
    have h₂ := h' (fun hexec => hK ⟨fun hin => hexec.1 (hext.executedIds hin), hexec.2⟩) (horder.execution hx)
      h₁.cached
    refine ⟨h₂.cached, fun x hx => ?_⟩
    rw [answers_append] at hx
    rcases List.mem_append.mp hx with hx | hx
    · obtain ⟨hop, ha⟩ := h₁.answers x hx
      exact ⟨hop.trans hext'.lastExecutedOp, ha.extend hop hext'⟩
    · exact h₂.answers x hx

theorem Handled.faithful (hh : Handled E s s' o) (hid : id ≠ 0)
    (hlead : Executes c id s s' → leads E s.view ∨ leads E s'.view) (horder : InOrder s c)
    (hc : Cached E c id s) : Faithful E c id s' o := by
  obtain ⟨s₁, o₁, o₂, hq, rfl, hx⟩ := hh
  have hids := executedIds_quiet hq c
  have hc₁ : Cached E c id s₁ := by
    obtain ⟨ops, hops⟩ := hq.upcalls
    intro cte hcte hlast
    obtain ⟨result, hreply, hfirst⟩ := hc cte (hq.clientTable ▸ hcte) hlast
    exact ⟨result, hreply, hops ▸ firstResult_append hfirst _⟩
  have h := (hx.faithful hid fun v hv hK => hv.resolve_right fun hn => hK.elim hn.1 hn.2).2
    (fun hexec => hlead ⟨hids ▸ hexec.1, hexec.2⟩) (horder.quiet hq) hc₁
  refine ⟨h.cached, fun x hx => h.answers x ?_⟩
  rwa [answers_append, hq.answers, List.nil_append] at hx

/-! ### Runs -/

variable {G : Group} {past : List Sys} {t t' : Sys}

/-- A step in which replica `r` executes request `id` of client `c` is one before or after which it leads its
    view. -/
def LeadsWhenExecuting (G : Group) (r c id : Nat) (t : Sys) (e : Event) : Prop :=
  ∀ t', (system G).step t e = some t' → Executes c id (t.replica r) (t'.replica r) →
    leads (G.env r) (t.replica r).view ∨ leads (G.env r) (t'.replica r).view

theorem cached_of_run {r : Nat} (hid : id ≠ 0) (hr : Run (system G) (LeadsWhenExecuting G r c id) past t) :
    Cached (G.env r) c id (t.replica r) := by
  refine hr.invariant (I := fun _ t => Cached (G.env r) c id (t.replica r)) (fun _ h => by cases h) ?_
  intro _ t e t' hrun h hC hstep
  obtain ⟨i, m, -, hhandled, -, hother⟩ := handled_of_step hstep
  by_cases hi : r = i
  · subst hi
    exact (hhandled.faithful hid (hC t' hstep) (inOrder_of_run hrun r c) h).cached
  · rw [hother r hi]
    exact h

instance (s : Replica) (s' : Replica) : Decidable (Executes c id s s') := inferInstanceAs (Decidable (_ ∧ _))

instance (v : Nat) : Decidable (leads E v) := inferInstanceAs (Decidable (_ = _))

instance (r : Nat) (t : Sys) (e : Event) : Decidable (LeadsWhenExecuting G r c id t e) :=
  decidable_of_iff (∀ t' ∈ (system G).step t e, Executes c id (t.replica r) (t'.replica r) →
    leads (G.env r) (t.replica r).view ∨ leads (G.env r) (t'.replica r).view) Iff.rfl

/-- In every run in which a replica leads its view when it executes a request of a client: each reply with a result
    that it sends, in whatever view, is to the request that is in the slot, and if that is this one, then it
    carries the result of its first execution. -/
theorem answers_first_result (G : Group) {r c id : Nat} (hid : id ≠ 0)
    (hr : Run (system G) (LeadsWhenExecuting G r c id) past t) {e : Event} (he : LeadsWhenExecuting G r c id t e)
    (hstep : (system G).step t e = some t') {m : NOPaxosHandler Unit} (hm : e.handler G.protocol t = some (r, m)) :
    ∀ x ∈ answers (m (t.replica r)).2.2, Answered (G.env r) c id (t'.replica r) x := by
  obtain ⟨i, m', hm', hhandled, -, -⟩ := handled_of_step hstep
  obtain ⟨rfl, rfl⟩ := Prod.mk.inj (Option.some.inj (hm'.symm.trans hm))
  have h := hhandled.faithful hid (he t' hstep) (inOrder_of_run hr i c) (cached_of_run hid hr)
  exact fun x hx => (h.answers x hx).2

/-- The sequencer stamps the request once more, and the message comes to replica `r`. -/
def stampedAgain (r : Nat) : Event := .client r 0 (.request 0 1)

/-- The leader of view 0 answers the request once more. -/
theorem answers_first_result_again : ∃ past t t' x,
    Run (system retried) (LeadsWhenExecuting retried 0 0 1) past t ∧
    (system retried).step t (stampedAgain 0) = some t' ∧ executedIds (t.replica 0) 0 = [1] ∧
    x ∈ answers (receiveMessage (retried.env 0) (.client 0) (retried.ask 0 (.request 0 1)) (t.replica 0)).2.2 ∧
    Answered (retried.env 0) 0 1 (t'.replica 0) x := by
  obtain ⟨past, t, hr, ht⟩ := Run.exists_of_exec (system retried) (LeadsWhenExecuting retried 0 0 1)
    [.client 0 0 (.request 0 0)]
    (fun t => LeadsWhenExecuting retried 0 0 1 t (stampedAgain 0) ∧ executedIds (t.replica 0) 0 = [1] ∧
      ((system retried).step t (stampedAgain 0)).isSome ∧
      answers (receiveMessage (retried.env 0) (.client 0) (retried.ask 0 (.request 0 1)) (t.replica 0)).2.2 ≠ [])
    (by decide +kernel)
  obtain ⟨he, hids, hstep, hne⟩ := of_decide_eq_true ht
  obtain ⟨t', hstep⟩ := Option.isSome_iff_exists.mp hstep
  obtain ⟨x, hx⟩ := List.exists_mem_of_ne_nil _ hne
  exact ⟨past, t, t', x, hr, hstep, hids, hx, answers_first_result retried (by decide) hr he hstep rfl x hx⟩

/-- Replica 1 executes the request after a SyncCommit, leads view 1, and is sent the request once more: it has
    nothing to answer. -/
theorem answers_not_first_result : ∃ past t t' x, Run (system retried) (fun _ _ => True) past t ∧
    (system retried).step t (stampedAgain 1) = some t' ∧ leads (retried.env 1) (t.replica 1).view ∧
    x ∈ answers (receiveMessage (retried.env 1) (.client 0) (retried.ask 0 (.request 0 1)) (t.replica 1)).2.2 ∧
    x.2 = "" ∧ firstResult (retried.env 1) 0 1 (t.replica 1).upcalls = some "done" ∧
    ¬ Answered (retried.env 1) 0 1 (t'.replica 1) x := by
  obtain ⟨past, t, hr, ht⟩ := Run.exists_of_exec (system retried) (fun _ _ => True)
    [.client 0 0 (.request 0 0), .client 1 0 (.request 0 0), .timeout 0 .sync, .deliver 0, .deliver 2, .deliver 3,
      .timeout 1 .leaderSyncHeard, .deliver 6, .deliver 9]
    (fun t => leads (retried.env 1) (t.replica 1).view ∧
      firstResult (retried.env 1) 0 1 (t.replica 1).upcalls = some "done" ∧
      (∃ x ∈ answers (receiveMessage (retried.env 1) (.client 0) (retried.ask 0 (.request 0 1)) (t.replica 1)).2.2,
        x.1.opnum = 2 ∧ x.2 = "") ∧
      ((system retried).step t (stampedAgain 1)).any fun t' =>
        firstResult (retried.env 1) 0 1 (t'.replica 1).upcalls = some "done" ∧
        ((t'.replica 1).log.find 2).any fun entry => entry.request.clientid = 0 ∧ entry.request.clientreqid = 1)
    (by decide +kernel)
  obtain ⟨hlead, hfirst, ⟨x, hx, hop, hres⟩, ht'⟩ := of_decide_eq_true ht
  obtain ⟨t', hstep, ht'⟩ := (Option.any_eq_true _ _).mp ht'
  obtain ⟨hfirst', hentry⟩ := of_decide_eq_true ht'
  obtain ⟨entry, hentry, hreq⟩ := (Option.any_eq_true _ _).mp hentry
  obtain ⟨hc, hid⟩ := of_decide_eq_true hreq
  refine ⟨past, t, t', x, hr, hstep, hlead, hx, hres, hfirst, ?_⟩
  rintro ⟨entry', hentry', -, h⟩
  rw [hop] at hentry'
  obtain rfl := Option.some.inj (hentry.symm.trans hentry')
  rw [h hc hid, hres] at hfirst'
  exact absurd hfirst' (by decide)

end Dsnet.NOPaxos
