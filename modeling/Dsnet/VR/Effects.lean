import Dsnet.VR.Replica

/-! What the helper functions of the VR replica do: one rule for each, which the proofs about the
    handlers use in place of its body. `CommitUpTo` is described by the executions it makes
    (`Commits`), the others by the one state they leave. -/

namespace Dsnet.VR
open Handler

variable {E : Env} {s : Replica} {A : Replica → List Output → Prop}

/-! ### Committing -/

/-- The state after the next entry `e` of the log has been executed. -/
def afterCommit (E : Env) (s : Replica) (e : LogEntry) : Replica :=
  let k := s.lastCommitted + 1
  let counted := { s with lastCommitted := k }
  let m : ReplyMessage :=
    { view := e.view
      opnum := e.opnum
      reply := E.app.replicaUpcall s.upcalls k e.request.op (amLeader E counted)
      clientreqid := e.request.clientreqid }
  recordReply { counted with
    upcalls := s.upcalls ++ [.execute k e.request]
    log := s.log.setStatus k .committed } e.request m

/-- One execution. -/
def CommitStep (E : Env) (s s' : Replica) : Prop :=
  ∃ e, s.log.find (s.lastCommitted + 1) = some e ∧ s' = afterCommit E s e

/-- Any number of executions. -/
def Commits (E : Env) : Replica → Replica → Prop := Relation.ReflTransGen (CommitStep E)

theorem Commits.lastCommitted_le {s s' : Replica} (h : Commits E s s') :
    s.lastCommitted ≤ s'.lastCommitted := by
  induction h with
  | refl => exact Nat.le_refl _
  | tail _ hstep ih =>
    obtain ⟨e, _, rfl⟩ := hstep
    exact Nat.le_succ_of_le ih

theorem sat_commitNext :
    Sat (commitNext E) s
      (fun _ s' o => CommitStep E s s' ∧ s'.lastCommitted = s.lastCommitted + 1 ∧
        ∀ x ∈ o, x.isReply)
      (fun s' o => s.log.find (s.lastCommitted + 1) = none ∧
        s' = { s with lastCommitted := s.lastCommitted + 1 } ∧ o = []) := by
  unfold commitNext
  simp only [sat_bind, sat_modify, sat_get, sat_ofOption, sat_whenSome, sat_emit,
    List.nil_append, List.append_nil]
  refine ⟨fun e he => ⟨?_, ?_⟩, fun h => ⟨h, by trivial⟩⟩
  · exact fun a _ => ⟨⟨e, he, rfl⟩, rfl, by simp [Output.isReply]⟩
  · exact fun _ => ⟨⟨e, he, rfl⟩, rfl, by simp⟩

/-- `CommitUpTo` executes up to `upto`, or is stopped where the log has no next entry. -/
theorem sat_commitUpTo {upto : Nat} :
    Sat (commitUpTo E upto) s
      (fun _ s' o => Commits E s s' ∧ s'.lastCommitted = max s.lastCommitted upto ∧
        ∀ x ∈ o, x.isReply)
      (fun s' o => ∃ t, Commits E s t ∧ t.lastCommitted < upto ∧
        t.log.find (t.lastCommitted + 1) = none ∧
        s' = { t with lastCommitted := t.lastCommitted + 1 } ∧ ∀ x ∈ o, x.isReply) := by
  unfold commitUpTo
  simp only [sat_bind, sat_get, List.nil_append]
  -- with `n` rounds left, the commit point is `n` below its final value
  refine sat_iterate (fun n t o => Commits E s t ∧
    t.lastCommitted + n = max s.lastCommitted upto ∧ ∀ x ∈ o, Output.isReply x)
    ⟨.refl, by omega, by simp⟩ ?_
  rintro n t o ⟨hc, hn, ho⟩
  refine sat_commitNext.mono ?_ ?_
  · rintro _ t' o' ⟨hstep, hlc, ho'⟩
    exact ⟨hc.tail hstep, by omega, fun x hx => (List.mem_append.mp hx).elim (ho x) (ho' x)⟩
  · rintro t' o' ⟨hfind, rfl, rfl⟩
    have hle := hc.lastCommitted_le
    exact ⟨t, hc, by omega, hfind, rfl, by simpa using ho⟩

/-- Executing touches the commit point, the states of the log's entries, the client table and the
    application. -/
theorem Commits.frame {s s' : Replica} (h : Commits E s s') :
    ∃ lc log table up, s' =
      { s with lastCommitted := lc, log := log, clientTable := table, upcalls := up } := by
  induction h with
  | refl => exact ⟨_, _, _, _, rfl⟩
  | tail _ hstep ih =>
    obtain ⟨_, _, _, _, rfl⟩ := ih
    obtain ⟨e, _, rfl⟩ := hstep
    exact ⟨_, _, _, _, rfl⟩

theorem Commits.contents {s s' : Replica} (h : Commits E s s') :
    s'.log.contents = s.log.contents := by
  induction h with
  | refl => rfl
  | tail _ hstep ih =>
    obtain ⟨e, _, rfl⟩ := hstep
    exact (Log.contents_setStatus ..).trans ih

/-- The replica has executed its log up to the commit point, in order. -/
def ExecutedLog (s : Replica) : Prop :=
  s.executed = (opnumbered s.log.contents).take s.lastCommitted

theorem Commits.executedLog {s s' : Replica} (h : Commits E s s') (hs : ExecutedLog s) :
    ExecutedLog s' := by
  induction h with
  | refl => exact hs
  | @tail s₁ _ _ hstep ih =>
    obtain ⟨e, he, rfl⟩ := hstep
    have hc : s₁.log.contents[s₁.lastCommitted]? = some e.content :=
      (Log.getElem?_contents_of_find he).2
    show executions (s₁.upcalls ++ [_]) = (opnumbered (s₁.log.setStatus _ _).contents).take
      (s₁.lastCommitted + 1)
    rw [Log.contents_setStatus, executions_append, take_opnumbered_succ hc]
    exact congrArg (· ++ _) ih

/-- What is executed at an opnum is the entry of the log there. -/
theorem ExecutedLog.of_mem (h : ExecutedLog s) {k : Nat} {req : Request}
    (hk : (k, req) ∈ s.executed) :
    1 ≤ k ∧ k ≤ s.lastCommitted ∧ ∃ v, s.log.contents[k - 1]? = some (v, req) := by
  rw [h] at hk
  obtain ⟨i, hi⟩ := List.mem_iff_getElem?.mp hk
  rw [List.getElem?_take] at hi
  split_ifs at hi with hlt
  rw [getElem?_opnumbered] at hi
  obtain ⟨x, hx, hxe⟩ := Option.map_eq_some_iff.mp hi
  obtain ⟨rfl, rfl⟩ := Prod.mk.inj hxe
  exact ⟨by omega, by omega, x.1, hx⟩

/-- Executions in the order of the log are numbered from 1. -/
theorem ExecutedLog.ordered (h : ExecutedLog s) :
    s.executed.map Prod.fst = List.range' 1 s.executed.length := by
  have hfst : (opnumbered s.log.contents).map Prod.fst =
      List.range' 1 s.log.contents.length := by
    rw [opnumbered, List.map_map]
    exact List.zipIdx_map_snd ..
  rw [h, List.map_take, hfst, List.length_take, length_opnumbered]
  rcases Nat.le_total s.lastCommitted s.log.contents.length with hle | hle
  · rw [List.take_range'_of_length_ge hle, min_eq_left hle]
  · rw [List.take_range'_of_length_le hle, min_eq_right hle]

/-- The entries up to the commit point are marked committed, the others prepared. -/
def MarkedLog (s : Replica) : Prop :=
  ∀ i e, s.log.entries[i]? = some e →
    e.state = if i < s.lastCommitted then .committed else .prepared

theorem Commits.markedLog {s s' : Replica} (h : Commits E s s') (hs : MarkedLog s) :
    MarkedLog s' := by
  induction h with
  | refl => exact hs
  | @tail s₁ _ _ hstep ih =>
    obtain ⟨x, _, rfl⟩ := hstep
    intro i e he
    have he' : (s₁.log.setStatus (s₁.lastCommitted + 1) .committed).entries[i]? = some e := he
    rw [Log.getElem?_entries_setStatus] at he'
    obtain ⟨e₀, he₀, rfl⟩ := Option.map_eq_some_iff.mp he'
    have h₀ := ih i e₀ he₀
    show _ = if i < s₁.lastCommitted + 1 then _ else _
    by_cases hi : i = s₁.lastCommitted
    · simp [hi]
    · rw [if_neg (by omega), h₀]
      exact if_congr (by omega) rfl rfl

/-! ### The client table -/

/-- The client table entry after `UpdateClientTable`. -/
def recordRequest (s : Replica) (req : Request) : Replica :=
  let entry := s.clientEntry req.clientid
  s.setClientEntry req.clientid
    (if entry.lastReqId = req.clientreqid then entry else { lastReqId := req.clientreqid })

@[simp] theorem sat_updateClientTable {req : Request} {Q : Unit → Replica → List Output → Prop} :
    Sat (updateClientTable req) s Q A ↔
      ((s.clientEntry req.clientid).lastReqId ≤ req.clientreqid → Q () (recordRequest s req) []) ∧
      (¬ (s.clientEntry req.clientid).lastReqId ≤ req.clientreqid → A s []) := by
  simp [updateClientTable, recordRequest]

theorem lastReqId_recordRequest (s : Replica) (req : Request) (c : Nat) :
    ((recordRequest s req).clientEntry c).lastReqId =
      if c = req.clientid then req.clientreqid else (s.clientEntry c).lastReqId := by
  unfold recordRequest Replica.setClientEntry Replica.clientEntry
  simp only
  split_ifs with hc heq
  · exact heq
  · rfl
  · rfl

theorem lastReqId_recordReply (s : Replica) (req : Request) (m : ReplyMessage) (c : Nat) :
    ((recordReply s req m).clientEntry c).lastReqId =
      if c = req.clientid then max (s.clientEntry c).lastReqId req.clientreqid
      else (s.clientEntry c).lastReqId := by
  unfold recordReply
  by_cases hc : c = req.clientid
  · subst hc
    rw [if_pos rfl]
    generalize s.clientEntry req.clientid = cte
    simp only [Replica.setClientEntry, Replica.clientEntry, if_true, Option.getD_some]
    by_cases hle : cte.lastReqId ≤ req.clientreqid
    · rw [if_pos hle, max_eq_right hle]
    · rw [if_neg hle, max_eq_left (Nat.le_of_not_le hle)]
  · simp only [Replica.setClientEntry, Replica.clientEntry, if_neg hc]

theorem lastReqId_afterCommit (s : Replica) (x : LogEntry) (c : Nat) :
    ((afterCommit E s x).clientEntry c).lastReqId =
      if c = x.request.clientid then max (s.clientEntry c).lastReqId x.request.clientreqid
      else (s.clientEntry c).lastReqId :=
  lastReqId_recordReply ..

/-- Executing only raises the request numbers of the client table. -/
theorem Commits.lastReqId_le {s s' : Replica} (h : Commits E s s') (c : Nat) :
    (s.clientEntry c).lastReqId ≤ (s'.clientEntry c).lastReqId ∧
      (s.clientTable c ≠ none → s'.clientTable c ≠ none) := by
  induction h with
  | refl => exact ⟨Nat.le_refl _, fun hc => hc⟩
  | @tail s₁ _ _ hstep ih =>
    obtain ⟨e, _, rfl⟩ := hstep
    refine ⟨ih.1.trans ?_, fun hc => ?_⟩
    · rw [lastReqId_afterCommit]
      split_ifs
      · exact le_max_left _ _
      · exact Nat.le_refl _
    · by_cases hce : c = e.request.clientid
      · simp [afterCommit, recordReply, Replica.setClientEntry, hce]
      · simp only [afterCommit, recordReply, Replica.setClientEntry, if_neg hce]
        exact ih.2 hc

/-! ### Views -/

/-- The state `EnterView` leaves. -/
def entered (E : Env) (s : Replica) (v : Nat) : Replica :=
  { s with
    view := v
    status := .normal
    lastBatchEnd := s.lastOp
    batchComplete := true
    active := (enterViewTimers E { s.stop .recovery with view := v }).active
    prepareOKQuorum := s.prepareOKQuorum.clear
    startViewChangeQuorum := s.startViewChangeQuorum.clear
    doViewChangeQuorum := s.doViewChangeQuorum.clear
    recoveryResponseQuorum := s.recoveryResponseQuorum.clear }

@[simp] theorem sat_enterView {v : Nat} {Q : Unit → Replica → List Output → Prop} :
    Sat (enterView E v) s Q A ↔ Q () (entered E s v) [] := by
  by_cases h : E.config.getLeaderIndex v = E.replicaIdx <;>
    simp [enterView, entered, enterViewTimers, amLeader, Replica.start, Replica.stop, h]

/-- The state `StartViewChange` leaves. -/
def changing (s : Replica) (v : Nat) : Replica :=
  { s with
    view := v
    status := .viewChange
    active := ((((s.start .viewChange).stop .nullCommit).stop .resendPrepare).stop
      .closeBatch).active }

/-- The message `StartViewChange` sends. -/
def startViewChangeOf (E : Env) (s : Replica) (v : Nat) : ToReplicaMessage :=
  .startViewChange { view := v, replicaidx := E.replicaIdx, lastcommitted := s.lastCommitted }

@[simp] theorem sat_startViewChange {v : Nat} {Q : Unit → Replica → List Output → Prop} :
    Sat (startViewChange E v) s Q A ↔
      Q () (changing s v) [.toAll (startViewChangeOf E s v)] := Iff.rfl

/-- A message of the view change to view `v` is not ignored. -/
def Heeds (s : Replica) (v : Nat) : Prop := ¬ v < s.view ∧ ¬ (v = s.view ∧ s.status ≠ .viewChange)

instance (s : Replica) (v : Nat) : Decidable (Heeds s v) := inferInstanceAs (Decidable (_ ∧ _))

/-! ### State transfer and acknowledgements -/

/-- The new bindings of a client table name requests of the log. -/
def Recorded (l : Log) (table table' : Nat → Option ClientTableEntry) : Prop :=
  ∀ c e, table' c = some e → table c = some e ∨
    ∃ k x, l.find k = some x ∧ x.request.clientid = c ∧ x.request.clientreqid = e.lastReqId

theorem Recorded.recordRequest {l : Log} {table : Nat → Option ClientTableEntry} {k : Nat}
    {x : LogEntry} (h : Recorded l table s.clientTable) (hx : l.find k = some x) :
    Recorded l table (recordRequest s x.request).clientTable := by
  intro c e he
  simp only [VR.recordRequest, Replica.setClientEntry] at he
  split_ifs at he with hc heq
  · obtain rfl := Option.some.inj he
    exact Or.inr ⟨k, x, hx, hc.symm, heq.symm⟩
  · obtain rfl := Option.some.inj he
    exact Or.inr ⟨k, x, hx, hc.symm, rfl⟩
  · exact h c e he

/-- What `SendPrepareOKs` leaves, whether or not it is stopped: acknowledgements of uncommitted
    entries of the log, and their requests in the client table. -/
structure Acknowledged (E : Env) (s : Replica) (old : Nat) (s' : Replica) (o : List Output) :
    Prop where
  frame : s' = { s with clientTable := s'.clientTable }
  recorded : Recorded s.log s.clientTable s'.clientTable
  sent : ∀ x ∈ o, ∃ i, old ≤ i ∧ i ≤ s.lastOp ∧ s.lastCommitted < i ∧ (s.log.find i).isSome ∧
    x = .toReplica (E.config.getLeaderIndex s.view)
      (.prepareOK { view := s.view, opnum := i, replicaidx := E.replicaIdx })

theorem sat_sendPrepareOKs {old : Nat} :
    Sat (sendPrepareOKs E old) s (fun _ => Acknowledged E s old) (Acknowledged E s old) := by
  unfold sendPrepareOKs
  simp only [sat_bind, sat_get, List.nil_append]
  refine (sat_forEach (fun rest t o => Acknowledged E s old t o ∧
    ∀ i ∈ rest, old ≤ i ∧ i ≤ s.lastOp) ?_ ?_).mono (fun _ _ _ h => h.1) (fun _ _ h => h)
  · refine ⟨⟨rfl, fun c e he => Or.inl he, by simp⟩, fun i hi => ?_⟩
    have := List.mem_range'_1.mp hi
    omega
  · rintro i rest t o ⟨⟨hframe, hrec, ho⟩, hrest⟩
    have hi := hrest i (List.mem_cons_self ..)
    have htail : ∀ i ∈ rest, old ≤ i ∧ i ≤ s.lastOp :=
      fun j hj => hrest j (List.mem_cons_of_mem _ hj)
    have hlog : t.log = s.log := by rw [hframe]
    have hview : t.view = s.view := by rw [hframe]
    have hlc : t.lastCommitted = s.lastCommitted := by rw [hframe]
    have hstay : Acknowledged E s old t (o ++ []) := ⟨hframe, hrec, by simpa using ho⟩
    simp only [sendPrepareOK, sat_bind, sat_get, sat_ite, sat_pure, sat_ofOption, sat_assert,
      sat_updateClientTable, sat_emit, List.nil_append, hlog, hview, hlc]
    refine ⟨fun _ => ⟨hstay, htail⟩, fun hgt => ⟨fun x hx => ⟨fun _ => ⟨fun _ => ⟨?_, htail⟩,
      fun _ => hstay⟩, fun _ => hstay⟩, fun _ => hstay⟩⟩
    refine ⟨?_, hrec.recordRequest hx, fun y hy => ?_⟩
    · rw [hframe]
      rfl
    · rcases List.mem_append.mp hy with hy | hy
      · exact ho y hy
      · exact ⟨i, hi.1, hi.2, by omega, by rw [hx]; rfl, by simpa using hy⟩

/-- Installing transferred entries touches the log and `lastOp`, whether or not it is stopped. -/
theorem sat_installTransferred_frame {k : Nat} : ∀ {es : List LogEntry} {old : Nat} {s : Replica},
    s.lastOp ≤ k → (∀ e ∈ es, e.opnum ≤ k) →
    Sat (installTransferred es old) s
      (fun _ s' o => (∃ log op, op ≤ k ∧ s' = { s with log := log, lastOp := op }) ∧ o = [])
      (fun s' o => (∃ log op, op ≤ k ∧ s' = { s with log := log, lastOp := op }) ∧ o = [])
  | [], old, s, hs, _ => by
      simp only [installTransferred, sat_pure, and_true]
      exact ⟨_, _, hs, rfl⟩
  | e :: es, old, s, hs, hes => by
      have he := hes e (List.mem_cons_self ..)
      have htail : ∀ x ∈ es, x.opnum ≤ k := fun x hx => hes x (List.mem_cons_of_mem _ hx)
      have hskip : ∃ log op, op ≤ k ∧ s = { s with log := log, lastOp := op } := ⟨_, _, hs, rfl⟩
      unfold installTransferred
      simp only [sat_bind, sat_get, sat_ite, sat_ofOption, sat_assert, sat_modify, List.nil_append,
        and_true]
      refine ⟨fun _ => sat_installTransferred_frame hs htail, fun _ => ⟨fun _ => ⟨fun x _ => ⟨fun _ => ⟨fun _ => ⟨fun _ => sat_installTransferred_frame hs htail,
        fun _ => hskip⟩, fun _ => ⟨fun _ => ⟨fun l _ => ⟨fun l' _ => ?_, fun _ => ?_⟩,
        fun _ => hskip⟩, fun _ => hskip⟩⟩, fun _ => hskip⟩, fun _ => hskip⟩,
        fun hgt => ⟨fun hnext => ⟨fun l _ => ?_, fun _ => ?_⟩, fun _ => hskip⟩⟩⟩
      · refine (sat_installTransferred_frame he htail).mono ?_ ?_
        · rintro _ s' o ⟨⟨_, op, hop, rfl⟩, ho⟩
          exact ⟨⟨_, op, hop, rfl⟩, ho⟩
        · rintro s' o ⟨⟨_, op, hop, rfl⟩, ho⟩
          exact ⟨⟨_, op, hop, rfl⟩, ho⟩
      · exact ⟨_, _, he, rfl⟩
      · have hop1 : s.lastOp + 1 ≤ k := by omega
        refine (sat_installTransferred_frame hop1 htail).mono ?_ ?_
        · rintro _ s' o ⟨⟨_, op, hop, rfl⟩, ho⟩
          exact ⟨⟨_, op, hop, rfl⟩, ho⟩
        · rintro s' o ⟨⟨_, op, hop, rfl⟩, ho⟩
          exact ⟨⟨_, op, hop, rfl⟩, ho⟩
      · exact ⟨_, s.lastOp + 1, by omega, rfl⟩

/-- Transferred entries that follow the log are appended. -/
theorem sat_installTransferred_append : ∀ {es : List LogEntry} {old : Nat} {s : Replica},
    Log.NumberedFrom (s.lastOp + 1) es → s.lastCommitted ≤ s.lastOp →
    Sat (installTransferred es old) s
      (fun old' s' o => (old' = old ∧ s'.log.entries = s.log.entries ++ es.map Log.installed ∧
        s' = { s with log := s'.log, lastOp := s.lastOp + es.length }) ∧ o = [])
      (fun _ o => o = [])
  | [], old, s, _, _ => by simp [installTransferred]
  | e :: es, old, s, hes, hlc => by
      obtain ⟨he, hes⟩ := Log.numberedFrom_cons.mp hes
      unfold installTransferred
      simp only [sat_bind, sat_get, sat_ite, sat_ofOption, sat_assert, sat_modify, List.nil_append,
        implies_true, and_true]
      refine ⟨fun h => absurd h (by omega), fun _ => ⟨fun h => absurd h (by omega),
        fun _ _ l hl => ?_⟩⟩
      have hl' := (Log.append_eq_some.mp hl).2
      refine (sat_installTransferred_append hes (by simp only; omega)).mono ?_ (fun _ _ h => h)
      rintro old' s' o ⟨⟨rfl, hlog, hs'⟩, ho⟩
      refine ⟨⟨rfl, ?_, ?_⟩, ho⟩
      · rw [hlog, hl', List.map_cons, List.append_assoc]
        rfl
      · rw [hs', List.length_cons, Nat.add_right_comm, Nat.add_assoc s.lastOp]

/-- What installing transferred entries leaves: the log of `Log.installPlan` for the entries that
    are not committed yet, with `lastOp` at its end if it has changed. -/
structure Transferred (s : Replica) (es : List LogEntry) (s' : Replica) : Prop where
  frame : s' = { s with log := s'.log, lastOp := s'.lastOp }
  entries : s'.log.entries =
    s.log.entries.take (s.log.installPlan (es.filter (s.lastCommitted < ·.opnum))).1 ++
      (s.log.installPlan (es.filter (s.lastCommitted < ·.opnum))).2.map Log.installed

theorem sat_installTransferred : ∀ {es : List LogEntry} {old k : Nat} {s : Replica},
    Log.NumberedFrom k es →
    Sat (installTransferred es old) s (fun _ s' o => Transferred s es s' ∧ o = [])
      (fun _ o => o = [])
  | [], old, k, s, _ => by
      simp only [installTransferred, sat_pure]
      exact ⟨⟨rfl, by simp [Log.installPlan]⟩, trivial⟩
  | e :: es, old, k, s, hes => by
      obtain ⟨he, hes⟩ := Log.numberedFrom_cons.mp hes
      unfold installTransferred
      simp only [sat_bind, sat_get, sat_ite, sat_ofOption, sat_assert, sat_modify, List.nil_append,
        implies_true, and_true]
      refine ⟨fun hlc => ?_, fun hlc => ?_⟩
      · refine (sat_installTransferred hes).mono (fun old' s' _ h => ⟨⟨h.1.frame, ?_⟩, h.2⟩)
          (fun _ _ h => h)
        rw [List.filter_cons_of_neg (by simpa using hlc)]
        exact h.1.entries
      have hkeep : (e :: es).filter (s.lastCommitted < ·.opnum) = e :: es :=
        (Log.numberedFrom_cons.mpr ⟨he, hes⟩).filter_eq (by omega)
      refine ⟨fun hop x hx _ => ⟨fun hv _ => ?_, fun hv _ l hl l' hl' => ?_⟩,
        fun hop hnext l hl => ?_⟩
      · refine (sat_installTransferred hes).mono (fun old' s' _ h => ⟨⟨h.1.frame, ?_⟩, h.2⟩)
          (fun _ _ h => h)
        rw [hkeep, Log.installPlan, hx]
        simp only [hv, ne_eq, not_true_eq_false, if_false]
        rw [← hes.filter_eq (show s.lastCommitted < k + 1 by omega)]
        exact h.1.entries
      · have hl₁ := (Log.removeAfter_eq_some hl).1
        have hl₂ := (Log.append_eq_some.mp hl').2
        have hnum : Log.NumberedFrom (e.opnum + 1) es := he ▸ hes
        refine (sat_installTransferred_append hnum (by simp only; omega)).mono
          (fun old' s' _ h => ⟨?_, h.2⟩) (fun _ _ h => h)
        obtain ⟨⟨rfl, hlog, hs'⟩, _⟩ := h
        refine ⟨by rw [hs'], ?_⟩
        rw [hkeep, Log.installPlan, hx]
        simp only [ne_eq, Ne.symm hv, not_false_eq_true, if_true]
        rw [hlog, hl₂, hl₁, List.map_cons, List.append_assoc]
        rfl
      · obtain ⟨hend, hl₁⟩ := Log.append_eq_some.mp hl
        have hnum : Log.NumberedFrom (s.lastOp + 1 + 1) es := by
          rw [← hnext, he]
          exact hes
        refine (sat_installTransferred_append hnum (by simp only; omega)).mono
          (fun old' s' _ h => ⟨?_, h.2⟩) (fun _ _ h => h)
        obtain ⟨⟨rfl, hlog, hs'⟩, _⟩ := h
        have hfind : s.log.find e.opnum = none :=
          (Log.find_eq_none (by omega)).mpr (by have : e.opnum = _ := hend; omega)
        refine ⟨by rw [hs'], ?_⟩
        rw [hkeep, Log.installPlan, hfind, hlog, hl₁, List.map_cons, List.append_assoc]
        simp

end Dsnet.VR
