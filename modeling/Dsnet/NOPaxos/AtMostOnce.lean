import Mathlib.Data.List.Pairwise
import Dsnet.NOPaxos.Execution

/-! A NOPaxos replica executes the requests of a client in the order of their numbers, each at most once. A
    request may be in several slots of the log; the client table has the number of the last one that has been
    executed, and a request with another number that is not greater is passed over. -/

namespace Dsnet.NOPaxos
open Handler

variable {E : Env} {s s' : Replica} {o : List Output} {P : Nat → Prop}

/-! ### The next entry of the log -/

/-- The entry of the client table for a request that has just been executed. -/
def executedEntry (E : Env) (s : Replica) (req : Request) (reply : String) : ClientTableEntry :=
  if (s.clientEntry req.clientid).lastReqId = req.clientreqid then s.clientEntry req.clientid
  else { lastReqId := req.clientreqid
         reply := if amLeader E s then { reply := some reply } else (s.clientEntry req.clientid).reply }

@[simp] theorem lastReqId_executedEntry (req : Request) (reply : String) :
    (executedEntry E s req reply).lastReqId = req.clientreqid := by
  unfold executedEntry
  split_ifs with h
  · exact h
  · rfl
  · rfl

/-- The replies with a result are to request `id` in slot `op`, with this result. -/
def AnswersWith (op id : Nat) (result : String) (o : List Output) : Prop :=
  ∀ x ∈ answers o, x.1.opnum = op ∧ x.1.clientreqid = id ∧ x.2 = result

/-- What the loop of `ExecuteUptoOp` does in a round: nothing that counts, or it answers a request once more, or it
    executes one that is new to the client table. -/
inductive NextEntry (E : Env) (s s' : Replica) (o : List Output) : Prop
  | skipped : s'.upcalls = s.upcalls → s'.clientTable = s.clientTable → answers o = [] → NextEntry E s s' o
  | again (entry : LogEntry) (cte : ClientTableEntry) :
      s.log.find s'.lastExecutedOp = some entry → s.clientTable entry.request.clientid = some cte →
      entry.request.clientreqid = cte.lastReqId → s'.upcalls = s.upcalls → s'.clientTable = s.clientTable →
      AnswersWith s'.lastExecutedOp entry.request.clientreqid (cte.reply.reply.getD "") o → NextEntry E s s' o
  | first (entry : LogEntry) (op : Nat) (reply : String) :
      s.log.find s'.lastExecutedOp = some entry → op = s'.lastExecutedOp →
      (∀ cte, s.clientTable entry.request.clientid = some cte → cte.lastReqId < entry.request.clientreqid) →
      reply = E.app.replicaUpcall s.upcalls op entry.request.op false →
      s'.upcalls = s.upcalls ++ [.execute op entry.request] →
      s'.clientTable = (s.setClientEntry entry.request.clientid (executedEntry E s entry.request reply)).clientTable →
      AnswersWith s'.lastExecutedOp entry.request.clientreqid reply o → NextEntry E s s' o

/-- The log stays, and the replica does not go back. -/
structure Advances (E : Env) (s s' : Replica) (o : List Output) : Prop where
  log : s'.log = s.log
  lastExecutedOp : s.lastExecutedOp ≤ s'.lastExecutedOp
  next : NextEntry E s s' o

theorem replyExecuted_sat (op : Nat) (entry : LogEntry) (reply : String) : Sat (replyExecuted E op entry reply) s
    (fun _ s' o => s' = s ∧ AnswersWith op entry.request.clientreqid reply o) fun _ _ => False := by
  unfold replyExecuted
  rw [sat_when, sat_emit]
  refine ⟨fun _ => ⟨rfl, fun x hx => ?_⟩, fun _ => ⟨rfl, fun x hx => ?_⟩⟩
  · obtain rfl := List.mem_singleton.mp hx
    exact ⟨rfl, rfl, rfl⟩
  · cases hx

theorem executeRequest_sat {entry : LogEntry} {op : Nat} (hlast : s.lastExecutedOp = op)
    (hentry : s.log.find op = some entry)
    (hnew : ∀ cte, s.clientTable entry.request.clientid = some cte → cte.lastReqId < entry.request.clientreqid) :
    Sat (executeRequest E op entry) s (fun _ s' o => Advances E s s' o) fun _ _ => False := by
  have hle : (s.clientEntry entry.request.clientid).lastReqId ≤ entry.request.clientreqid := by
    unfold Replica.clientEntry
    cases hc : s.clientTable entry.request.clientid with
    | none => exact Nat.zero_le _
    | some cte => exact (hnew cte hc).le
  unfold executeRequest updateClientTable
  simp only [sat_bind, sat_get, sat_modify, sat_assert, List.nil_append]
  refine ⟨fun _ => (replyExecuted_sat _ _ _).mono (fun _ s' o h => ?_) fun _ _ h => h, fun hn => absurd hle hn⟩
  obtain ⟨rfl, ho⟩ := h
  refine ⟨rfl, Nat.le_refl _, .first entry op _ (hlast ▸ hentry) hlast.symm hnew rfl rfl rfl (hlast ▸ ho)⟩

/-- The number of the entry is written down before it is looked at. -/
theorem Advances.of_numbered {op : Nat} (hop : s.lastExecutedOp ≤ op)
    (h : Advances E { s with lastExecutedOp := op } s' o) : Advances E s s' o := by
  refine ⟨h.log, Nat.le_trans hop h.lastExecutedOp, ?_⟩
  cases h.next with
  | skipped hupcalls htable ho => exact .skipped hupcalls htable ho
  | again entry cte hentry hcte hid hupcalls htable ho =>
    exact .again entry cte hentry hcte hid hupcalls htable ho
  | first entry op reply hentry hop hnew hreply hupcalls htable ho =>
    exact .first entry op reply hentry hop hnew hreply hupcalls htable ho

theorem advances_executeNext : Always (Advances E) (executeNext E) := by
  intro s
  unfold executeNext
  simp only [sat_bind, sat_get, sat_assert, sat_ofOption, sat_modify, List.nil_append]
  have hskip : ∀ s' : Replica, s'.log = s.log → s.lastExecutedOp ≤ s'.lastExecutedOp → s'.upcalls = s.upcalls →
      s'.clientTable = s.clientTable → Advances E s s' [] := fun _ hlog hle hup ht => ⟨hlog, hle, .skipped hup ht rfl⟩
  refine ⟨fun _ => ⟨fun entry hentry => ?_, fun _ => hskip s rfl (Nat.le_refl _) rfl rfl⟩,
    fun _ => hskip s rfl (Nat.le_refl _) rfl rfl⟩
  rw [sat_when]
  refine ⟨fun _ => ?_, fun _ => hskip _ rfl (Nat.le_succ _) rfl rfl⟩
  have hfirst (hnew : ∀ cte, s.clientTable entry.request.clientid = some cte →
      cte.lastReqId < entry.request.clientreqid) :
      Sat (executeRequest E (s.lastExecutedOp + 1) entry) { s with lastExecutedOp := s.lastExecutedOp + 1 }
        (fun _ s' o => Advances E s s' o) fun s' o => Advances E s s' o := by
    have hrun : Sat (executeRequest E (s.lastExecutedOp + 1) entry) { s with lastExecutedOp := s.lastExecutedOp + 1 }
        (fun _ s' o => Advances E { s with lastExecutedOp := s.lastExecutedOp + 1 } s' o) fun _ _ => False :=
      executeRequest_sat rfl hentry hnew
    exact hrun.mono (fun _ _ _ h => h.of_numbered (Nat.le_succ _)) fun _ _ h => h.elim
  cases hcte : s.clientTable entry.request.clientid with
  | none => exact hfirst fun cte h => absurd (hcte.symm.trans h) (by simp)
  | some cte =>
    simp only [sat_ite, sat_pure]
    refine ⟨fun _ => hskip _ rfl (Nat.le_succ _) rfl rfl, fun hge => ⟨fun heq => ?_, fun hne => ?_⟩⟩
    · refine (replyExecuted_sat _ _ _).mono (fun _ s' o h => ?_) fun _ _ h => h.elim
      obtain ⟨rfl, ho⟩ := h
      exact ⟨rfl, Nat.le_succ _, .again entry cte hentry hcte heq rfl rfl ho⟩
    · refine hfirst fun cte' h => ?_
      obtain rfl := Option.some.inj (hcte.symm.trans h)
      omega

/-! ### The client table -/

/-- The numbers of the requests of client `c` that the replica has executed, in order. -/
def executedIds (s : Replica) (c : Nat) : List Nat :=
  ((executions s.upcalls).filter (·.2.clientid = c)).map (·.2.clientreqid)

/-- The numbers increase, and the client table has the last one. -/
structure InOrder (s : Replica) (c : Nat) : Prop where
  increasing : (executedIds s c).Pairwise (· < ·)
  last : (executedIds s c).getLast? = (s.clientTable c).map (·.lastReqId)

theorem executedIds_quiet (h : Quiet s s' o) (c : Nat) : executedIds s' c = executedIds s c := by
  obtain ⟨ops, hops⟩ := h.upcalls
  have hnone : ∀ ops : List String, executions (ops.map .unlogged) = [] := by
    intro ops
    induction ops with
    | nil => rfl
    | cons op ops ih => exact ih
  rw [executedIds, hops, executions_append, hnone, List.append_nil]
  rfl

theorem InOrder.quiet {c : Nat} (h : InOrder s c) (hq : Quiet s s' o) : InOrder s' c where
  increasing := executedIds_quiet hq c ▸ h.increasing
  last := by
    rw [executedIds_quiet hq c, hq.clientTable]
    exact h.last

/-- The request that is executed next is the last one. -/
theorem executedIds_execute {op : Nat} {req : Request} (h : s'.upcalls = s.upcalls ++ [.execute op req]) (c : Nat) :
    executedIds s' c = executedIds s c ++ if req.clientid = c then [req.clientreqid] else [] := by
  rw [executedIds, h, executions_append, List.filter_append, List.map_append]
  congr 1
  by_cases hc : req.clientid = c <;> simp [executions, hc]

theorem InOrder.advance {c : Nat} (h : InOrder s c) (ha : Advances E s s' o) : InOrder s' c := by
  have hsame (hupcalls : s'.upcalls = s.upcalls) (htable : s'.clientTable = s.clientTable) : InOrder s' c := by
    refine ⟨?_, ?_⟩
    · rw [executedIds, hupcalls]
      exact h.increasing
    · rw [executedIds, hupcalls, htable]
      exact h.last
  cases ha.next with
  | skipped hupcalls htable => exact hsame hupcalls htable
  | again _ _ _ _ _ hupcalls htable => exact hsame hupcalls htable
  | first entry op reply _ _ hnew _ hupcalls htable =>
    by_cases hc : entry.request.clientid = c
    · have hids : executedIds s' c = executedIds s c ++ [entry.request.clientreqid] := by
        rw [executedIds_execute hupcalls, if_pos hc]
      refine ⟨?_, ?_⟩
      · rw [hids]
        refine List.pairwise_append.mpr ⟨h.increasing, List.pairwise_singleton .., fun x hx y hy => ?_⟩
        obtain rfl := List.mem_singleton.mp hy
        -- the last of those before is in the client table
        have hne := List.ne_nil_of_mem hx
        have hlast := h.last
        rw [List.getLast?_eq_some_getLast hne] at hlast
        obtain ⟨cte, hcte, hid⟩ := Option.map_eq_some_iff.mp hlast.symm
        exact lt_of_le_of_lt (hid ▸ (h.increasing.imp le_of_lt).rel_getLast hx) (hnew cte (hc ▸ hcte))
      · rw [hids, List.getLast?_concat, htable, Replica.setClientEntry]
        simp only [if_pos hc.symm, Option.map_some, lastReqId_executedEntry]
    · have hids : executedIds s' c = executedIds s c := by
        rw [executedIds_execute hupcalls, if_neg hc, List.append_nil]
      refine ⟨hids ▸ h.increasing, ?_⟩
      rw [hids, htable, Replica.setClientEntry]
      simp only [if_neg (Ne.symm hc)]
      exact h.last

theorem InOrder.execution {c : Nat} (hx : Execution E P s s' o) (h : InOrder s c) : InOrder s' c := by
  induction hx with
  | still hs => exact h.quiet hs.toQuiet
  | @next s s' o a _ hrun =>
    have hnext : Advances E s (executeNext E s).2.1 (executeNext E s).2.2 := advances_executeNext.outcome s
    rw [hrun] at hnext
    exact h.advance hnext
  | trans _ _ ih ih' => exact ih' (ih h)

theorem InOrder.handled {c : Nat} (h : InOrder s c) (hh : Handled E s s' o) : InOrder s' c := by
  obtain ⟨s₁, o₁, o₂, hq, -, hx⟩ := hh
  exact (h.quiet hq).execution hx

/-! ### Runs -/

variable {G : Group} {past : List Sys} {t t' : Sys}

/-- A step is a handler of one replica; the others stay as they are. -/
theorem handled_of_step {e : Event} (h : (system G).step t e = some t') : ∃ r m, e.handler G.protocol t = some (r, m) ∧
    Handled (G.env r) (t.replica r) (t'.replica r) (m (t.replica r)).2.2 ∧
    (m (t.replica r)).2.1 = t'.replica r ∧ ∀ i, i ≠ r → t'.replica i = t.replica i := by
  obtain ⟨r, m, hm, -, -, rfl⟩ := Net.Sys.step_eq_some h
  have hself : (t.after G.protocol.n r (m (t.replica r))).replica r = (m (t.replica r)).2.1 := if_pos rfl
  refine ⟨r, m, hm, ?_, hself.symm, fun i hi => if_neg hi⟩
  rw [hself]
  have hall : Always (Handled (G.env r)) m := by
    rcases Net.Event.of_handler hm with ⟨_, _, _, rfl⟩ | ⟨_, _, _, _, _, rfl⟩ | ⟨_, _, _, rfl⟩
    · exact handled_receiveMessage _ _
    · exact handled_receiveMessage _ _
    · exact handled_timeout _
  exact hall.outcome _

theorem inOrder_of_run {C : Sys → Event → Prop} (hr : Run (system G) C past t) (r c : Nat) :
    InOrder (t.replica r) c := by
  revert r
  refine hr.invariant (I := fun _ t => ∀ r, InOrder (t.replica r) c) (fun r => ⟨List.Pairwise.nil, rfl⟩) ?_
  intro _ t e t' _ h _ hstep i
  obtain ⟨r, m, -, hhandled, -, hother⟩ := handled_of_step hstep
  by_cases hi : i = r
  · subst hi
    exact (h i).handled hhandled
  · rw [hother i hi]
    exact h i

/-- In every run, whatever is logged and however often: the numbers of the requests of a client that a replica
    executes increase, so each request is executed once at most. -/
theorem executedIds_increase (G : Group) (hr : Run (system G) (fun _ _ => True) past t) (r c : Nat) :
    (executedIds (t.replica r) c).Pairwise (· < ·) ∧
      ∀ id, (executedIds (t.replica r) c).count id ≤ 1 := by
  have h := (inOrder_of_run hr r c).increasing
  exact ⟨h, List.nodup_iff_count_le_one.mp (h.imp ne_of_lt)⟩

/-- Three replicas, and a sequencer that stamps the only request of a client again and again. -/
def retried : Group where
  config := { n := 3, f := 1 }
  app _ := { App.default with replicaUpcall := fun _ _ _ _ => "done" }
  lookupAddress _ := .client 0
  sequenced _ _ := { op := "", clientid := 0, clientreqid := 1 }

/-- The leader logs the request twice and executes it once. -/
theorem executedIds_increase_retried : ∃ past t, Run (system retried) (fun _ _ => True) past t ∧
    (t.replica 0).log.entries.length = 2 ∧ (t.replica 0).lastExecutedOp = 2 ∧
    executedIds (t.replica 0) 0 ≠ [] ∧ ∀ id, (executedIds (t.replica 0) 0).count id ≤ 1 := by
  obtain ⟨past, t, hr, ht⟩ := Run.exists_of_exec (system retried) (fun _ _ => True)
    [.client 0 0 (.request 0 0), .client 0 0 (.request 0 1)]
    (fun t => (t.replica 0).log.entries.length = 2 ∧ (t.replica 0).lastExecutedOp = 2 ∧
      executedIds (t.replica 0) 0 ≠ []) (by decide +kernel)
  obtain ⟨hlen, hlast, hne⟩ := of_decide_eq_true ht
  exact ⟨past, t, hr, hlen, hlast, hne, (executedIds_increase retried hr 0 0).2⟩

end Dsnet.NOPaxos
