import Dsnet.Lib.Always
import Dsnet.NOPaxos.Replica

/-! What a handler of the NOPaxos replica does to the application and to the client table: it executes next
    entries of the log, each in the view that the replica is in, and nothing else. A handler that goes on to
    another view either executes only before that, or it goes on to a view that the replica leads and executes
    only there. -/

namespace Dsnet.NOPaxos
open Handler

variable {E : Env} {s s' s'' : Replica} {o o' : List Output} {P P' : Nat → Prop}

/-! ### Steps that execute nothing -/

/-- The replies that carry a result, with the result. -/
def answers (o : List Output) : List (ReplyMessage × String) :=
  o.filterMap fun
    | .toClient _ (.reply m) => m.reply.map (m, ·)
    | _ => none

@[simp] theorem answers_append (o o' : List Output) : answers (o ++ o') = answers o ++ answers o' :=
  List.filterMap_append

/-- Nothing is executed, and no reply carries a result. -/
structure Quiet (s s' : Replica) (o : List Output) : Prop where
  upcalls : ∃ ops : List String, s'.upcalls = s.upcalls ++ ops.map .unlogged
  clientTable : s'.clientTable = s.clientTable
  lastExecutedOp : s'.lastExecutedOp = s.lastExecutedOp
  answers : answers o = []

instance : Composes Quiet where
  refl s := ⟨⟨[], (List.append_nil _).symm⟩, rfl, rfl, rfl⟩
  trans := by
    intro s s' s'' o o' h h'
    obtain ⟨ops, hops⟩ := h.upcalls
    obtain ⟨ops', hops'⟩ := h'.upcalls
    refine ⟨⟨ops ++ ops', ?_⟩, h'.clientTable.trans h.clientTable, h'.lastExecutedOp.trans h.lastExecutedOp, ?_⟩
    · rw [hops', hops, List.map_append, List.append_assoc]
    · rw [answers_append, h.answers, h'.answers]
      rfl

/-- The requests that have been executed are in the log still. -/
def KeepsLog (s s' : Replica) : Prop :=
  ∀ op ≤ s.lastExecutedOp, ∀ e, s.log.find op = some e → ∃ e', s'.log.find op = some e' ∧ e'.request = e.request

/-- A quiet step that keeps them. -/
structure Still (s s' : Replica) (o : List Output) : Prop extends Quiet s s' o where
  log : KeepsLog s s'

instance : Composes Still where
  refl s := ⟨Composes.refl s, fun _ _ e he => ⟨e, he, rfl⟩⟩
  trans := by
    intro s s' s'' o o' h h'
    refine ⟨Composes.trans h.toQuiet h'.toQuiet, fun op hop e he => ?_⟩
    obtain ⟨e', he', hreq⟩ := h.log op hop e he
    obtain ⟨e'', he'', hreq'⟩ := h'.log op (by rwa [h.lastExecutedOp]) e' he'
    exact ⟨e'', he'', hreq'.trans hreq⟩

/-- The members that tell what has been executed. -/
def Replica.executed (s : Replica) : List Upcall × (Nat → Option ClientTableEntry) × Nat × Log :=
  (s.upcalls, s.clientTable, s.lastExecutedOp, s.log)

theorem still_of_executed (h : s'.executed = s.executed) (ho : answers o = []) : Still s s' o := by
  obtain ⟨hupcalls, htable, hlast, hlog⟩ : s'.upcalls = s.upcalls ∧ s'.clientTable = s.clientTable ∧
      s'.lastExecutedOp = s.lastExecutedOp ∧ s'.log = s.log := by
    simpa [Replica.executed] using h
  refine ⟨⟨⟨[], ?_⟩, htable, hlast, ho⟩, fun op _ e he => ⟨e, ?_, rfl⟩⟩
  · rw [hupcalls]
    exact (List.append_nil _).symm
  · rwa [hlog]

/-! ### Executing -/

/-- Entries are executed, each in a view with `P`. -/
inductive Execution (E : Env) (P : Nat → Prop) : Replica → Replica → List Output → Prop
  | still {s s' : Replica} {o : List Output} : Still s s' o → Execution E P s s' o
  | next {s s' : Replica} {o : List Output} {a : Option Unit} :
      P s.view → executeNext E s = (a, s', o) → Execution E P s s' o
  | trans {s s' s'' : Replica} {o o' : List Output} :
      Execution E P s s' o → Execution E P s' s'' o' → Execution E P s s'' (o ++ o')

theorem Execution.mono (h : Execution E P s s' o) (hP : ∀ v, P v → P' v) : Execution E P' s s' o := by
  induction h with
  | still h => exact .still h
  | next hv h => exact .next (hP _ hv) h
  | trans _ _ ih ih' => exact ih.trans ih'

/-- The replica stays in its view, in which it may execute entries. -/
structure Within (E : Env) (s s' : Replica) (o : List Output) : Prop where
  view : s'.view = s.view
  execution : Execution E (· = s.view) s s' o

instance : Composes (Within E) where
  refl s := ⟨rfl, .still (Composes.refl s)⟩
  trans := fun h h' => ⟨h'.view.trans h.view, h.execution.trans (h'.execution.mono fun _ hv => hv.trans h.view)⟩

theorem within_of_executed (hview : s'.view = s.view) (h : s'.executed = s.executed) (ho : answers o = []) :
    Within E s s' o := ⟨hview, .still (still_of_executed h ho)⟩

theorem within_modify {g : Replica → Replica} (hview : ∀ s, (g s).view = s.view)
    (h : ∀ s, (g s).executed = s.executed) : Always (Within E) (modify g : NOPaxosHandler Unit) :=
  always_modify fun s => within_of_executed (hview s) (h s) rfl

theorem within_emit {x : Output} (h : answers [x] = []) : Always (Within E) (emit x : NOPaxosHandler Unit) :=
  always_emit fun _ => within_of_executed rfl rfl h

/-- The view is as before. -/
def SameView (s s' : Replica) (_ : List Output) : Prop := s'.view = s.view

instance : Composes SameView where
  refl _ := rfl
  trans h h' := Eq.trans h' h

theorem sameView_updateClientTable (req : Request) (reply : ReplyMessage) :
    Always SameView (updateClientTable E req reply) :=
  always_get.bind fun _ => always_assert.bind fun _ => always_modify fun _ => rfl

theorem sameView_executeRequest (op : Nat) (entry : LogEntry) : Always SameView (executeRequest E op entry) :=
  always_get.bind fun _ => .bind (always_modify fun _ => rfl) fun _ =>
    (sameView_updateClientTable _ _).bind fun _ => .when (always_emit fun _ => rfl)

theorem sameView_executeNext : Always SameView (executeNext E) := by
  refine always_get.bind fun s => always_assert.bind fun _ => always_ofOption.bind fun entry =>
    .bind (always_modify fun _ => rfl) fun _ => .when ?_
  split
  · exact sameView_executeRequest _ _
  · exact .ite always_pure <| .ite (.when (always_emit fun _ => rfl)) (sameView_executeRequest _ _)

theorem within_executeNext : Always (Within E) (executeNext E) := by
  intro s
  have hview := sameView_executeNext (E := E) s
  rcases hrun : executeNext E s with ⟨_ | a, s', o⟩
  · simp only [Sat, hrun] at hview ⊢
    exact ⟨hview, .next rfl hrun⟩
  · simp only [Sat, hrun] at hview ⊢
    exact ⟨hview, .next rfl hrun⟩

theorem within_executeUptoOp (opnum : Nat) : Always (Within E) (executeUptoOp E opnum) :=
  always_get.bind fun _ => .ite always_pure <| always_assert.bind fun _ => .iterate within_executeNext _

theorem within_sendSyncCommit : Always (Within E) (sendSyncCommit E) :=
  always_get.bind fun _ => always_assert.bind fun _ => within_emit rfl

theorem within_commitUptoOp (opnum : Nat) : Always (Within E) (commitUptoOp E opnum) :=
  always_get.bind fun _ => .ite always_pure <| always_assert.bind fun _ =>
    .bind (within_modify (fun _ => rfl) fun _ => rfl) fun _ =>
    within_sendSyncCommit.when.bind fun _ => within_executeUptoOp opnum

/-! ### Entering a view -/

/-- Once the members are set, the replica stays in the new view. -/
theorem enterView_sat (newsessnum newview : Nat) : Sat (enterView E newsessnum newview) s
    (fun _ s' o => Within E (s.entered newsessnum newview) s' o)
    fun s' o => (s' = s ∧ o = []) ∨ Within E (s.entered newsessnum newview) s' o := by
  unfold enterView
  simp only [sat_bind, sat_get, sat_assert, sat_modify, List.nil_append]
  refine ⟨fun _ => ⟨fun _ => ?_, fun _ => Or.inl ⟨trivial, trivial⟩⟩, fun _ => Or.inl ⟨trivial, trivial⟩⟩
  have hrest : Always (Within E) (if amLeader E (s.entered newsessnum newview) then do
        executeUptoOp E (s.entered newsessnum newview).lastOp
        modify (·.start .sync)
        let s ← get
        assert (s.leaderLastSyncPreparePoint ≤ s.lastOp)
        modify fun s => { s with
          leaderLastSyncPreparePoint := s.lastOp
          leaderLastSyncCommittedGaps := s.committedGaps }
        sendStartView E
      else do
        modify fun s => { s.start .leaderSyncHeard with
          receivedSyncPreparePoints := s.receivedSyncPreparePoints.insert s.lastOp }
        sendStartViewReply E) := by
    refine .ite ?_ ?_
    · exact (within_executeUptoOp _).bind fun _ => .bind (within_modify (fun _ => rfl) fun _ => rfl) fun _ =>
        always_get.bind fun _ => always_assert.bind fun _ => .bind (within_modify (fun _ => rfl) fun _ => rfl) fun _ =>
        always_get.bind fun _ => always_assert.bind fun _ => (within_emit rfl).bind fun _ =>
        within_modify (fun _ => rfl) fun _ => rfl
    · exact .bind (within_modify (fun _ => rfl) fun _ => rfl) fun _ => always_get.bind fun _ =>
        always_assert.bind fun _ => always_assert.bind fun _ => within_emit rfl
  exact (hrest _).mono (fun _ _ _ h => h) fun _ _ h => Or.inr h

theorem within_enterView (newsessnum : Nat) {newview : Nat} (hview : newview = s.view) :
    Sat (enterView E newsessnum newview) s (fun _ s' o => Within E s s' o) fun s' o => Within E s s' o := by
  have hentered : Within E s (s.entered newsessnum newview) [] := within_of_executed hview rfl rfl
  refine (enterView_sat newsessnum newview).mono (fun _ _ _ h => Composes.trans hentered h) fun s' o h => ?_
  rcases h with ⟨rfl, rfl⟩ | h
  · exact Composes.refl s'
  · exact Composes.trans hentered h

/-- A replica that does not lead the new view executes nothing. -/
theorem still_enterView (newsessnum : Nat) {newview : Nat} (hlead : E.config.getLeaderIndex newview ≠ E.replicaIdx) :
    Sat (enterView E newsessnum newview) s
      (fun _ s' o => Still s s' o ∧ s'.view = newview ∧ s'.stateTransferOpEnd = 0)
      fun s' o => Still s s' o ∧ (s'.view = s.view ∨ s'.view = newview) := by
  have hnot : ¬ amLeader E (s.entered newsessnum newview) := hlead
  unfold enterView sendStartViewReply
  simp only [sat_bind, sat_get, sat_assert, sat_modify, sat_emit, List.nil_append, if_neg hnot]
  refine ⟨fun _ => ⟨fun _ => ⟨fun _ => ⟨fun _ => ?_, fun _ => ?_⟩, fun _ => ?_⟩, fun _ => ?_⟩, fun _ => ?_⟩
  · exact ⟨still_of_executed rfl rfl, rfl, rfl⟩
  · exact ⟨still_of_executed rfl rfl, Or.inr rfl⟩
  · exact ⟨still_of_executed rfl rfl, Or.inr rfl⟩
  · exact ⟨Composes.refl s, Or.inl trivial⟩
  · exact ⟨Composes.refl s, Or.inl trivial⟩

theorem within_processSyncPrepare (syncpoint : Nat) : Always (Within E) (processSyncPrepare E syncpoint) :=
  always_get.bind fun _ => always_assert.bind fun _ => .ite
    ((within_commitUptoOp _).bind fun _ => within_modify (fun _ => rfl) fun _ => rfl) (within_emit rfl)

/-! ### Logging an operation -/

/-- The log has got longer. -/
theorem still_append {log : Log} {e : LogEntry} (hlog : s.log.append e = some log)
    (h : s'.executed = (s.upcalls, s.clientTable, s.lastExecutedOp, log)) : Still s s' [] := by
  obtain ⟨hupcalls, htable, hlast, rfl⟩ : s'.upcalls = s.upcalls ∧ s'.clientTable = s.clientTable ∧
      s'.lastExecutedOp = s.lastExecutedOp ∧ s'.log = log := by
    simpa [Replica.executed] using h
  refine ⟨⟨⟨[], ?_⟩, htable, hlast, rfl⟩, fun op _ e' he' => ⟨e', ?_, rfl⟩⟩
  · rw [hupcalls]
    exact (List.append_nil _).symm
  · obtain ⟨hop, he'⟩ := Log.find_eq_some.mp he'
    refine Log.find_eq_some.mpr ⟨hop, ?_⟩
    rw [(Log.append_eq_some.mp hlog).2, List.getElem?_append_left (List.getElem?_eq_some_iff.mp he').1]
    exact he'

/-- An entry of the log has another state. -/
theorem within_setStatus {k : Nat} {st : LogEntryState} (hview : s'.view = s.view)
    (h : s'.executed = (s.upcalls, s.clientTable, s.lastExecutedOp, s.log.setStatus k st)) : Within E s s' [] := by
  obtain ⟨hupcalls, htable, hlast, hlog⟩ : s'.upcalls = s.upcalls ∧ s'.clientTable = s.clientTable ∧
      s'.lastExecutedOp = s.lastExecutedOp ∧ s'.log = s.log.setStatus k st := by
    simpa [Replica.executed] using h
  refine ⟨hview, .still ⟨⟨⟨[], ?_⟩, htable, hlast, rfl⟩, fun op _ e he => ?_⟩⟩
  · rw [hupcalls]
    exact (List.append_nil _).symm
  · obtain ⟨hop, he⟩ := Log.find_eq_some.mp he
    refine ⟨if op - 1 + 1 = k then { e with state := st } else e, ?_, by split_ifs <;> rfl⟩
    rw [hlog]
    refine Log.find_eq_some.mpr ⟨hop, ?_⟩
    rw [Log.getElem?_entries_setStatus, he]
    rfl

theorem within_answerOperation (request : Request) (vs : Viewstamp) (state : LogEntryState) :
    Always (Within E) (answerOperation E request vs state) :=
  .ite (within_modify (fun _ => rfl) fun _ => rfl) <| .when <|
    .ite (within_executeUptoOp _) (within_emit rfl)

theorem within_logOperation (request : Request) (vs : Viewstamp) (state : LogEntryState) :
    Always (Within E) (logOperation E request vs state) := by
  intro s
  unfold logOperation
  simp only [sat_bind, sat_get, sat_assert, sat_modify, sat_ofOption, List.nil_append]
  refine ⟨fun _ => ⟨fun log hlog => ?_, fun _ => within_of_executed rfl rfl rfl⟩, fun _ => Composes.refl s⟩
  have hrest := (Always.when (p := s.active .gapRequest = true)
    (within_modify (E := E) (g := fun s => { s.stop .gapRequest with gapReplyQuorum := s.gapReplyQuorum.clear })
      (fun _ => rfl) fun _ => rfl)).bind fun _ => within_answerOperation request vs
        (if vs.opnum ∈ s.committedGaps.toList then .noop else state)
  have hlogged : Within E s { s with lastOp := vs.opnum, nextMsgnum := vs.msgnum + 1, log := log } [] :=
    ⟨rfl, .still (still_append hlog rfl)⟩
  simpa only [sat_bind] using hrest.after_nil hlogged

theorem within_completeStateTransfer (opnum : Nat) : Always (Within E) (completeStateTransfer E opnum) := by
  intro s
  unfold completeStateTransfer
  simp only [sat_bind, sat_get, sat_when, sat_modify, List.nil_append]
  refine ⟨fun _ => ?_, fun _ => Composes.refl s⟩
  have hstop : Within E s (s.stop .stateTransfer) [] := within_of_executed rfl rfl rfl
  split
  · exact hstop
  · exact (within_enterView s.sessnum (s := s.stop .stateTransfer) rfl).mono
      (fun _ _ _ h => Composes.trans hstop h) fun _ _ h => Composes.trans hstop h
  · exact (within_processSyncPrepare _).after_nil hstop

theorem within_processOperation (request : Request) (vs : Viewstamp) (state : LogEntryState) :
    Always (Within E) (processOperation E request vs state) :=
  (within_logOperation _ _ _).bind fun _ => within_completeStateTransfer _

theorem within_processGaps (request : Request) : ∀ (n : Nat) (vs : Viewstamp),
    Always (Within E) (processGaps E request n vs)
  | 0, _ => always_pure
  | n + 1, _ => always_get.bind fun _ => .when <| (within_processOperation _ _ _).bind fun _ =>
      within_processGaps request n _

theorem within_processNextOperation (request : Request) (vs : Viewstamp) (state : LogEntryState) :
    Always (Within E) (processNextOperation E request vs state) :=
  (within_processOperation _ _ _).bind fun _ => always_get.bind fun _ => within_processGaps _ _ _

theorem within_installGap (gap : Nat) : Always (Within E) (installGap E gap) :=
  always_get.bind fun _ => .ite always_pure <| .bind (within_modify (fun _ => rfl) fun _ => rfl) fun _ =>
    (within_processNextOperation _ _ _).when.bind fun _ => always_get.bind fun _ => .when <|
    always_ofOption.bind fun _ => .when <| always_assert.bind fun _ => always_assert.bind fun _ =>
    always_modify fun _ => within_setStatus rfl rfl

theorem within_installCommittedGaps (gaps : List Nat) : Always (Within E) (installCommittedGaps E gaps) :=
  .forEach within_installGap gaps

/-! ### Handlers that stay in the view -/

theorem within_sendGapRequest : Always (Within E) (sendGapRequest E) :=
  always_get.bind fun _ => .bind (by split_ifs <;> exact within_emit rfl) fun _ =>
    within_modify (fun _ => rfl) fun _ => rfl

theorem within_sendGapCommit : Always (Within E) (sendGapCommit E) :=
  always_get.bind fun _ => always_assert.bind fun _ => always_assert.bind fun _ => (within_emit rfl).bind fun _ =>
    within_modify (fun _ => rfl) fun _ => rfl

theorem within_sendStartView : Always (Within E) (sendStartView E) :=
  always_get.bind fun _ => always_assert.bind fun _ => (within_emit rfl).bind fun _ =>
    within_modify (fun _ => rfl) fun _ => rfl

theorem within_sendViewChange : Always (Within E) (sendViewChange E) :=
  always_get.bind fun _ => (within_emit rfl).bind fun _ => (within_emit rfl).when.bind fun _ =>
    within_modify (fun _ => rfl) fun _ => rfl

theorem within_sendStateTransferRequest : Always (Within E) sendStateTransferRequest :=
  always_get.bind fun _ => (within_emit rfl).bind fun _ => within_modify (fun _ => rfl) fun _ => rfl

theorem within_sendSyncPrepare : Always (Within E) (sendSyncPrepare E) :=
  always_get.bind fun _ => always_assert.bind fun _ => .bind (within_modify (fun _ => rfl) fun _ => rfl) fun _ =>
    within_emit rfl

theorem within_startGapAgreement : Always (Within E) (startGapAgreement E) :=
  always_get.bind fun _ => always_assert.bind fun _ => .bind (within_modify (fun _ => rfl) fun _ => rfl) fun _ =>
    (within_processNextOperation _ _ _).bind fun _ => within_sendGapCommit

theorem within_handleStateTransferRequest (remote : Addr) (msg : StateTransferRequestMessage) :
    Always (Within E) (handleStateTransferRequest remote msg) :=
  always_get.bind fun _ => .ite always_pure <| .ite always_pure <| always_ofOption.bind fun _ => within_emit <| by
    cases remote <;> rfl

theorem within_handleStateTransferReply (msg : StateTransferReplyMessage) :
    Always (Within E) (handleStateTransferReply E msg) :=
  always_get.bind fun _ => .ite always_pure <| .ite always_pure <| always_ofOption.bind fun _ =>
    always_assert.bind fun _ => always_ofOption.bind fun _ => always_assert.bind fun _ => always_assert.bind fun _ =>
    .forEach (fun _ => always_get.bind fun _ => always_assert.bind fun _ => within_processNextOperation _ _ _) _

theorem within_handleStartViewReply (msg : StartViewReplyMessage) : Always (Within E) (handleStartViewReply E msg) :=
  always_get.bind fun _ => .ite always_pure <| always_assert.bind fun _ => always_assert.bind fun _ => .when <|
    .bind (within_modify (fun _ => rfl) fun _ => rfl) fun _ => .whenSome fun _ =>
    (within_commitUptoOp _).bind fun _ => within_modify (fun _ => rfl) fun _ => rfl

theorem within_handleUnloggedRequest (remote : Addr) (op : String) :
    Always (Within E) (handleUnloggedRequest E remote op) :=
  always_get.bind fun _ => .bind
    (always_modify fun _ => ⟨rfl, .still ⟨⟨⟨[op], rfl⟩, rfl, rfl, rfl⟩, fun _ _ e he => ⟨e, he, rfl⟩⟩⟩)
    fun _ => within_emit rfl

/-! ### Handlers that go on to a later view -/

theorem startViewChange_sat (newsessnum newview : Nat) : Sat (startViewChange E newsessnum newview) s
    (fun _ s' o => Still s s' o ∧ s'.status = .viewChange ∧ s'.view = max newview s.view ∧ s'.stateTransferOpEnd = 0)
    fun s' o => s' = s ∧ o = [] := by
  unfold startViewChange sendViewChange
  simp only [sat_bind, sat_get, sat_assert, sat_modify, sat_emit, sat_when, List.nil_append]
  refine ⟨fun _ => ⟨fun _ => ?_, fun _ => ?_⟩, fun _ => ⟨trivial, trivial⟩⟩
  · exact ⟨still_of_executed rfl rfl, rfl, rfl, rfl⟩
  · exact ⟨still_of_executed rfl rfl, rfl, rfl, rfl⟩

/-- A handler that asks whether the message is of its view: either it stays there, or it has begun a view
    change. -/
def Checked (E : Env) (s s' : Replica) (o : List Output) : Prop :=
  Within E s s' o ∨ Still s s' o ∧ s'.status = .viewChange

theorem checked_startViewChange (newsessnum newview : Nat) : Always (Checked E) (startViewChange E newsessnum newview) :=
  fun s => (startViewChange_sat newsessnum newview).mono (fun _ _ _ h => Or.inr ⟨h.1, h.2.1⟩) fun s' o h => by
    rw [h.1, h.2]
    exact Or.inl (Composes.refl s)

theorem checked_body {sessnum view : Nat} {m : NOPaxosHandler Unit} (hm : Always (Within E) m) :
    Always (Checked E) (do
      let ok ← checkViewNumAndStatus E sessnum view
      when (ok = true) m) := by
  intro s
  unfold checkViewNumAndStatus
  simp only [sat_bind, sat_get, sat_ite, sat_pure, List.nil_append, List.append_nil]
  refine ⟨fun _ => (hm.when s).mono (fun _ _ _ => Or.inl) fun _ _ => Or.inl, fun _ => ⟨fun _ => ?_, fun _ => ?_⟩⟩
  · refine (checked_startViewChange sessnum view s).mono (fun _ s' o h => ?_) fun _ _ h => h
    simpa using h
  · exact (hm.when s).mono (fun _ _ _ => Or.inl) fun _ _ => Or.inl

/-- The replica leads view `v`. -/
def leads (E : Env) (v : Nat) : Prop := E.config.getLeaderIndex v = E.replicaIdx

/-- A whole handler: where the log may be cut, nothing is executed, and then entries are, in views that the
    replica leads if it leads its view before or after the handler. -/
def Handled (E : Env) (s s' : Replica) (o : List Output) : Prop :=
  ∃ s₁ o₁ o₂, Quiet s s₁ o₁ ∧ o = o₁ ++ o₂ ∧
    Execution E (fun v => leads E v ∨ ¬ leads E s.view ∧ ¬ leads E s'.view) s₁ s' o₂

theorem Still.handled (h : Still s s' o) : Handled E s s' o :=
  ⟨s, [], o, Composes.refl s, rfl, .still h⟩

theorem Within.handled (h : Within E s s' o) : Handled E s s' o := by
  refine ⟨s, [], o, Composes.refl s, rfl, h.execution.mono ?_⟩
  rintro v rfl
  rw [h.view, and_self]
  exact em _

theorem Checked.handled (h : Checked E s s' o) : Handled E s s' o := h.elim Within.handled fun h => h.1.handled

/-- The log may be cut before entries are executed, in a view that the replica stays in from then on. -/
def CutWithin (E : Env) (s s' : Replica) (o : List Output) : Prop :=
  ∃ s₁ o₁ o₂, Quiet s s₁ o₁ ∧ o = o₁ ++ o₂ ∧ Within E s₁ s' o₂

theorem Within.cutWithin (h : Within E s s' o) : CutWithin E s s' o := ⟨s, [], o, Composes.refl s, rfl, h⟩

theorem CutWithin.before (hq : Quiet s s' o) (h : CutWithin E s' s'' o') : CutWithin E s s'' (o ++ o') := by
  obtain ⟨s₁, o₁, o₂, hs₁, rfl, hw⟩ := h
  exact ⟨s₁, o ++ o₁, o₂, Composes.trans hq hs₁, (List.append_assoc ..).symm, hw⟩

theorem CutWithin.after (h : CutWithin E s s' o) (hw : Within E s' s'' o') : CutWithin E s s'' (o ++ o') := by
  obtain ⟨s₁, o₁, o₂, hs₁, rfl, hw₁⟩ := h
  exact ⟨s₁, o₁, o₂ ++ o', hs₁, List.append_assoc .., Composes.trans hw₁ hw⟩

/-- If the replica leads the view it stays in. -/
theorem CutWithin.handled (h : CutWithin E s s' o) (hlead : leads E s'.view) : Handled E s s' o := by
  obtain ⟨s₁, o₁, o₂, hs₁, rfl, hw⟩ := h
  refine ⟨s₁, o₁, o₂, hs₁, rfl, hw.execution.mono ?_⟩
  rintro v rfl
  exact Or.inl (hw.view ▸ hlead)

/-- Nothing that is pending is executed. -/
def Idle (E : Env) (s : Replica) : Prop :=
  s.status = .viewChange ∨ ¬ leads E s.view ∧ s.stateTransferOpEnd = 0

/-- A message has been handled, but for what is pending. -/
def Ready (E : Env) (s s' : Replica) (o : List Output) : Prop :=
  Within E s s' o ∨ Handled E s s' o ∧ Idle E s' ∨ CutWithin E s s' o ∧ leads E s'.view

theorem Checked.ready (h : Checked E s s' o) : Ready E s s' o :=
  h.imp_right fun h => Or.inl ⟨h.1.handled, Or.inl h.2⟩

/-! ### Rewinding -/

/-- The log may be cut, in the same view. -/
def Cuts (s s' : Replica) (o : List Output) : Prop := Quiet s s' o ∧ s'.view = s.view

instance : Composes Cuts where
  refl s := ⟨Composes.refl s, rfl⟩
  trans h h' := ⟨Composes.trans h.1 h'.1, h'.2.trans h.2⟩

/-- The members that `Cuts` is about. -/
def Replica.cutting (s : Replica) : Nat × List Upcall × (Nat → Option ClientTableEntry) × Nat :=
  (s.view, s.upcalls, s.clientTable, s.lastExecutedOp)

theorem cuts_modify {g : Replica → Replica} (h : ∀ s, (g s).cutting = s.cutting) :
    Always Cuts (modify g : NOPaxosHandler Unit) := by
  refine always_modify fun s => ?_
  obtain ⟨hview, hupcalls, htable, hlast⟩ : (g s).view = s.view ∧ (g s).upcalls = s.upcalls ∧
      (g s).clientTable = s.clientTable ∧ (g s).lastExecutedOp = s.lastExecutedOp := by
    simpa [Replica.cutting] using h s
  refine ⟨⟨⟨[], ?_⟩, htable, hlast, rfl⟩, hview⟩
  rw [hupcalls]
  exact (List.append_nil _).symm

theorem cuts_rewindLogToOpnum (opnum : Nat) : Always Cuts (rewindLogToOpnum opnum) :=
  always_get.bind fun _ => always_assert.bind fun _ => always_assert.bind fun _ =>
    .bind (cuts_modify fun _ => rfl) fun _ => always_ofOption.bind fun _ => cuts_modify fun _ => rfl

theorem cuts_rewindForStartView (msg : StartViewMessage) : Always Cuts (rewindForStartView msg) := by
  refine always_get.bind fun s => .ite ((cuts_rewindLogToOpnum _).bind fun _ => .when ?_) <|
    always_assert.bind fun _ => always_assert.bind fun _ => (cuts_rewindLogToOpnum _).when.bind fun _ => .when ?_
  -- in both branches the log is cut again where the last committed gap of the replica is after the message's
  all_goals
    split
    · exact (cuts_rewindLogToOpnum _).when
    · exact always_pure

/-- First the log may be cut, then entries executed, all in one view. -/
def CutsWithin (E : Env) (s s' : Replica) (o : List Output) : Prop := CutWithin E s s' o ∧ s'.view = s.view

theorem cutsWithin_of_within {α : Type} {m : NOPaxosHandler α} (hm : Always (Within E) m) : Always (CutsWithin E) m :=
  hm.mono fun _ _ _ h => ⟨h.cutWithin, h.view⟩

theorem cutsWithin_bind {α β : Type} {m : NOPaxosHandler α} {f : α → NOPaxosHandler β} (hm : Always Cuts m)
    (hf : ∀ a, Always (CutsWithin E) (f a)) : Always (CutsWithin E) (m >>= f) := fun s =>
  sat_bind.mpr ((hm s).mono
    (fun a s' _ h => (hf a s').mono (fun _ _ _ h' => ⟨.before h.1 h'.1, h'.2.trans h.2⟩)
      fun _ _ h' => ⟨.before h.1 h'.1, h'.2.trans h.2⟩)
    fun s' o h => ⟨⟨s', o, [], h.1, (List.append_nil o).symm, Composes.refl s'⟩, h.2⟩)

theorem within_mergeGaps (latest : Latest) : ∀ (msgs : List (Nat × ViewChangeMessage)) (latestOp : Nat)
    (idx : Option Nat), Always (Within E) (mergeGaps E latest msgs latestOp idx)
  | [], _, _ => always_pure
  | (_, x) :: rest, latestOp, idx => by
      rw [mergeGaps]
      refine always_assert.bind fun _ => always_assert.bind fun _ => ?_
      split_ifs
      · exact (within_installCommittedGaps _).bind fun _ => within_mergeGaps latest rest _ _
      · exact (within_installCommittedGaps _).bind fun _ => within_mergeGaps latest rest _ _
      · exact within_mergeGaps latest rest _ _

theorem within_startMergedView (latest : Latest) (latestOp : Nat) (idx : Option Nat) :
    Always (Within E) (startMergedView E latest latestOp idx) := by
  refine always_get_bind fun s => ?_
  rw [sat_bind, sat_assert]
  refine ⟨fun _ => ?_, fun _ => Composes.refl s⟩
  rw [sat_bind, sat_modify]
  simp only [List.nil_append]
  have hset : Within E s { s with
      startViewLastNormalSessnum := latest.sessnum
      startViewLastNormalView := latest.view
      startViewLastOp := latestOp
      startViewCommittedGaps := s.committedGaps } [] := within_of_executed rfl rfl rfl
  cases idx with
  | some idx =>
    refine Always.after_nil ?_ hset
    exact always_assert.bind fun _ => .bind (within_modify (fun _ => rfl) fun _ => rfl) fun _ =>
      within_sendStateTransferRequest
  | none =>
    simp only [sat_bind, sat_assert, List.nil_append]
    refine ⟨fun _ => ?_, fun _ => hset⟩
    refine (within_enterView _ ?_).mono (fun _ _ _ h => Composes.trans hset h) fun _ _ h => Composes.trans hset h
    rfl

theorem cutsWithin_mergeLogs (msgs : StdMap Nat ViewChangeMessage) : Always (CutsWithin E) (mergeLogs E msgs) :=
  cutsWithin_bind always_get fun _ => cutsWithin_bind
    (.when ((cuts_rewindLogToOpnum _).bind fun _ => cuts_modify fun _ => rfl)) fun _ =>
    cutsWithin_of_within <| (within_mergeGaps _ _ _ _).bind fun _ => within_startMergedView _ _ _

/-! ### Messages about views -/

/-- The replica stays as it is, or begins a view change. -/
theorem whenLater_sat (sessnum view : Nat) : Sat
    (when (sessnum > s.sessnum ∨ view > s.view) (startViewChange E sessnum view)) s
    (fun _ s' o => Quiet s s' o ∧ Checked E s s' o) fun s' o => s' = s ∧ o = [] :=
  sat_when.mpr ⟨fun _ => (startViewChange_sat sessnum view).mono
    (fun _ _ _ h => ⟨h.1.toQuiet, Or.inr ⟨h.1, h.2.1⟩⟩) fun _ _ h => h,
    fun _ => ⟨Composes.refl s, Or.inl (Composes.refl s)⟩⟩

/-- A replica that leads its view may merge logs. -/
theorem cutsWithin_addViewChange (remote : Addr) (msg : ViewChangeMessage) (s : Replica) : Always (CutsWithin E)
    (if s.status ≠ .viewChange then emit (.toAddr remote (.startView (startViewMessage s)))
    else do
      let q := s.viewChangeQuorum.add (msg.sessnum, msg.view) msg.replicaidx msg
      modify fun s => { s with viewChangeQuorum := q }
      whenSome (q.checkForQuorum (msg.sessnum, msg.view)) (mergeLogs E)) := by
  refine .ite (cutsWithin_of_within (within_emit (by cases remote <;> rfl))) ?_
  refine cutsWithin_bind (cuts_modify fun _ => rfl) fun _ => ?_
  cases (s.viewChangeQuorum.add (msg.sessnum, msg.view) msg.replicaidx msg).checkForQuorum
    (msg.sessnum, msg.view) with
  | none => exact cutsWithin_of_within always_pure
  | some msgs => exact cutsWithin_mergeLogs msgs

theorem handleViewChange_sat (remote : Addr) (msg : ViewChangeMessage) : Sat (handleViewChange E remote msg) s
    (fun _ s' o => Ready E s s' o) fun s' o => Handled E s s' o := by
  unfold handleViewChange
  rw [sat_bind, sat_get, sat_bind]
  simp only [List.nil_append]
  refine (whenLater_sat msg.sessnum msg.view).mono (fun _ s₁ o₁ h => ?_) fun s' o h => ?_
  · rw [sat_bind, sat_get, sat_ite]
    simp only [List.nil_append]
    refine ⟨fun _ => ?_, fun _ => ?_⟩
    · simpa using h.2.ready
    · rw [sat_bind, sat_assert]
      simp only [List.append_nil]
      refine ⟨fun hlead => ?_, fun _ => h.2.handled⟩
      -- the replica leads the view, and stays in it
      refine Sat.mono (cutsWithin_addViewChange remote msg s₁ s₁) (fun _ s' o h' => ?_) fun s' o h' => ?_
      · exact Or.inr (Or.inr ⟨.before h.1 h'.1, by rw [h'.2]; exact hlead⟩)
      · exact (CutWithin.before h.1 h'.1).handled (by rw [h'.2]; exact hlead)
  · rw [h.1, h.2]
    exact Still.handled (Composes.refl s)

/-- The replica has gone on to a view that it does not lead. -/
theorem enterStartedView_sat (msg : StartViewMessage) (hlead : ¬ leads E msg.view) : Sat (enterStartedView E msg) s
    (fun _ s' o => Still s s' o ∧ ¬ leads E s'.view ∧ Idle E s')
    fun s' o => Still s s' o ∧ (s'.view = s.view ∨ ¬ leads E s'.view) := by
  unfold enterStartedView
  rw [sat_bind, sat_get, sat_ite]
  simp only [List.nil_append]
  refine ⟨fun _ => ?_, fun _ => ?_⟩
  · unfold sendStateTransferRequest
    simp only [sat_bind, sat_modify, sat_get, sat_emit]
    exact ⟨still_of_executed rfl rfl, hlead, Or.inl rfl⟩
  · refine (still_enterView msg.sessnum hlead).mono (fun _ s' o h => ?_) fun s' o h => ?_
    · exact ⟨h.1, h.2.1 ▸ hlead, Or.inr ⟨h.2.1 ▸ hlead, h.2.2⟩⟩
    · exact ⟨h.1, h.2.imp_right fun hv => by rwa [hv]⟩

theorem CutsWithin.after (h : CutsWithin E s s' o) (hw : Within E s' s'' o') : CutsWithin E s s'' (o ++ o') :=
  ⟨h.1.after hw, hw.view.trans h.2⟩

/-- What is executed before a step to a view that the replica does not lead. -/
theorem CutsWithin.handled_still (h : CutsWithin E s s' o) (hstill : Still s' s'' o')
    (hview : s''.view = s'.view ∨ ¬ leads E s''.view) : Handled E s s'' (o ++ o') := by
  obtain ⟨⟨s₁, o₁, o₂, hs₁, rfl, hw⟩, hs⟩ := h
  refine ⟨s₁, o₁, o₂ ++ o', hs₁, List.append_assoc .., (hw.execution.mono ?_).trans (.still hstill)⟩
  rintro v rfl
  rw [← hw.view, hs]
  by_cases hlead : leads E s.view
  · exact Or.inl hlead
  · refine Or.inr ⟨hlead, hview.elim (fun hv => ?_) id⟩
    rwa [hv, hs]

theorem handleStartView_sat (msg : StartViewMessage) : Sat (handleStartView E msg) s
    (fun _ s' o => Ready E s s' o) fun s' o => Handled E s s' o := by
  unfold handleStartView
  rw [sat_bind, sat_get, sat_ite]
  simp only [List.nil_append]
  refine ⟨fun _ => Or.inl (Composes.refl s), fun _ => ?_⟩
  rw [sat_ite]
  refine ⟨fun _ => ?_, fun _ => ?_⟩
  · have hreply : Always (Within E) (sendStartViewReply E) := always_get.bind fun _ => always_assert.bind fun _ =>
      always_assert.bind fun _ => within_emit rfl
    exact (hreply s).mono (fun _ _ _ h => Or.inl h) fun _ _ h => h.handled
  rw [sat_bind, sat_assert]
  simp only [List.nil_append]
  refine ⟨fun hlead => ?_, fun _ => Still.handled (Composes.refl s)⟩
  rw [sat_bind]
  refine (cuts_rewindForStartView msg s).mono (fun _ s₁ o₁ h₁ => ?_) fun s₁ o₁ h₁ => ?_
  · rw [sat_bind, sat_modify, sat_bind]
    have hempty : Within E s₁ { s₁ with committedGaps := StdSet.empty } [] := within_of_executed rfl rfl rfl
    have h₂ : CutsWithin E s { s₁ with committedGaps := StdSet.empty } (o₁ ++ []) :=
      ⟨.before h₁.1 hempty.cutWithin, h₁.2⟩
    refine (within_installCommittedGaps msg.committedgaps _).mono (fun _ s₃ o₃ h₃ => ?_) fun s₃ o₃ h₃ => ?_
    · refine (enterStartedView_sat msg hlead).mono (fun _ s' o h => ?_) fun s' o h => ?_
      · have := (h₂.after h₃).handled_still h.1 (Or.inr h.2.1)
        exact Or.inr (Or.inl ⟨by simpa using this, h.2.2⟩)
      · have := (h₂.after h₃).handled_still h.1 h.2
        simpa using this
    · have := (h₂.after h₃).handled_still (Composes.refl s₃) (Or.inl rfl)
      simpa using this
  · have h₂ : CutsWithin E s s₁ o₁ := ⟨⟨s₁, o₁, [], h₁.1, (List.append_nil o₁).symm, Composes.refl s₁⟩, h₁.2⟩
    have := h₂.handled_still (Composes.refl s₁) (Or.inl rfl)
    simpa using this

/-! ### Pending requests -/

theorem within_startViewChange (newsessnum : Nat) {newview : Nat} (hview : newview ≤ s.view) :
    Sat (startViewChange E newsessnum newview) s (fun _ s' o => Within E s s' o) fun s' o => Within E s s' o := by
  refine (startViewChange_sat newsessnum newview).mono (fun _ s' o h => ?_) fun s' o h => ?_
  · exact ⟨h.2.2.1.trans (Nat.max_eq_right hview), .still h.1⟩
  · rw [h.1, h.2]
    exact Composes.refl s

theorem within_tryProcessClientRequest (msg : RequestMessage) : Always (Within E) (tryProcessClientRequest E msg) := by
  refine always_get_bind fun s => ?_
  have hrefl : Within E s s [] := Composes.refl s
  rw [sat_ite]
  refine ⟨fun _ => hrefl, fun _ => ?_⟩
  rw [sat_ite]
  refine ⟨fun _ => hrefl, fun _ => ?_⟩
  rw [sat_ite]
  refine ⟨fun _ => ?_, fun _ => ?_⟩
  · rw [sat_bind]
    refine (within_startViewChange msg.sessnum (le_refl s.view)).mono (fun _ s' o h => ?_) fun _ _ h => h
    simpa using h
  rw [sat_ite]
  refine ⟨fun _ => hrefl, fun _ => ?_⟩
  rw [sat_ite]
  refine ⟨fun _ => ?_, fun _ => ?_⟩
  · exact (within_sendGapRequest.when.bind fun _ => always_pure (R := Within E)) s
  · exact ((within_processNextOperation _ _ _).bind fun _ => always_pure (R := Within E)) s

theorem within_handleClientRequest (msg : RequestMessage) : Always (Within E) (handleClientRequest E msg) :=
  always_assert.bind fun _ => (within_tryProcessClientRequest msg).bind fun _ => .when <|
    within_modify (fun s => by unfold Replica.addPendingRequest; split_ifs <;> rfl)
      fun s => by unfold Replica.addPendingRequest; split_ifs <;> rfl

theorem within_processPending : ∀ reqs : List RequestMessage, Always (Within E) (processPending E reqs)
  | [] => always_pure
  | _ :: rest => (within_tryProcessClientRequest _).bind fun _ => .when <|
      .bind (within_modify (fun _ => rfl) fun _ => rfl) fun _ => within_processPending rest

theorem within_processPendingRequests : Always (Within E) (processPendingRequests E) :=
  always_get.bind fun _ => .when <| .when <| .bind (within_modify (fun _ => rfl) fun _ => rfl) fun _ =>
    within_processPending _

/-- A replica that follows in its view and waits for no entries goes on doing so, and executes nothing. -/
def Follows (E : Env) (s s' : Replica) (o : List Output) : Prop :=
  ¬ leads E s.view ∧ s.stateTransferOpEnd = 0 → Still s s' o ∧ s'.view = s.view ∧ s'.stateTransferOpEnd = 0

instance : Composes (Follows E) where
  refl s h := ⟨Composes.refl s, rfl, h.2⟩
  trans := by
    intro s s' s'' o o' h h' hs
    obtain ⟨hstill, hview, hend⟩ := h hs
    obtain ⟨hstill', hview', hend'⟩ := h' ⟨hview ▸ hs.1, hend⟩
    exact ⟨Composes.trans hstill hstill', hview'.trans hview, hend'⟩

theorem follows_of_executed (hview : s'.view = s.view) (hend : s'.stateTransferOpEnd = s.stateTransferOpEnd)
    (h : s'.executed = s.executed) (ho : answers o = []) : Follows E s s' o := fun hs =>
  ⟨still_of_executed h ho, hview, hend.trans hs.2⟩

theorem follows_modify {g : Replica → Replica} (hview : ∀ s, (g s).view = s.view)
    (hend : ∀ s, (g s).stateTransferOpEnd = s.stateTransferOpEnd) (h : ∀ s, (g s).executed = s.executed) :
    Always (Follows E) (modify g : NOPaxosHandler Unit) :=
  always_modify fun s => follows_of_executed (hview s) (hend s) (h s) rfl

theorem follows_emit {x : Output} (h : answers [x] = []) : Always (Follows E) (emit x : NOPaxosHandler Unit) :=
  always_emit fun _ => follows_of_executed rfl rfl rfl h

/-- Only from a state in which the replica follows and waits for nothing is there anything to show. -/
theorem follows_from {α : Type} {m : NOPaxosHandler α} (h : ¬ leads E s.view → s.stateTransferOpEnd = 0 →
    Sat m s (fun _ s' o => Follows E s s' o) fun s' o => Follows E s s' o) :
    Sat m s (fun _ s' o => Follows E s s' o) fun s' o => Follows E s s' o := by
  by_cases hs : ¬ leads E s.view ∧ s.stateTransferOpEnd = 0
  · exact h hs.1 hs.2
  · exact (sat_state m s).mono (fun _ _ _ _ h => absurd h hs) fun _ _ _ h => absurd h hs

theorem follows_answerOperation (request : Request) {vs : Viewstamp} (state : LogEntryState)
    (hlead : ¬ leads E vs.view) : Always (Follows E) (answerOperation E request vs state) := by
  refine .ite (follows_modify (fun _ => rfl) (fun _ => rfl) fun _ => rfl) (.when ?_)
  rw [if_neg (show ¬ E.config.getLeaderIndex vs.view = E.replicaIdx from hlead)]
  exact follows_emit rfl

theorem follows_processOperation {request : Request} (vs : Viewstamp) {state : LogEntryState}
    (hlead : ¬ leads E vs.view) (hop : vs.opnum ≠ 0) :
    Always (Follows E) (processOperation E request vs state) := by
  refine .bind (fun s => ?_) fun _ s => follows_from fun _ hend => ?_
  · unfold logOperation
    simp only [sat_bind, sat_get, sat_assert, sat_modify, sat_ofOption, List.nil_append]
    refine ⟨fun _ => ⟨fun log hlog => ?_, fun _ => follows_of_executed rfl rfl rfl rfl⟩, fun _ => Composes.refl s⟩
    have hrest := (Always.when (p := s.active .gapRequest = true)
      (follows_modify (E := E) (g := fun s => { s.stop .gapRequest with gapReplyQuorum := s.gapReplyQuorum.clear })
        (fun _ => rfl) (fun _ => rfl) fun _ => rfl)).bind fun _ => follows_answerOperation request
          (if vs.opnum ∈ s.committedGaps.toList then .noop else state) hlead
    have hlogged : Follows E s { s with lastOp := vs.opnum, nextMsgnum := vs.msgnum + 1, log := log } [] :=
      fun hs => ⟨still_append hlog rfl, rfl, hs.2⟩
    simpa only [sat_bind] using hrest.after_nil hlogged
  · unfold completeStateTransfer
    rw [sat_bind, sat_get, sat_when]
    simp only [List.nil_append]
    exact ⟨fun heq => absurd (heq.trans hend) hop, fun _ => Composes.refl s⟩

theorem follows_processGaps (request : Request) : ∀ (n : Nat) {vs : Viewstamp}, ¬ leads E vs.view →
    Always (Follows E) (processGaps E request n vs)
  | 0, _, _ => always_pure
  | n + 1, vs, hlead => by
      refine always_get.bind fun s => .when ?_
      exact (follows_processOperation { vs with opnum := s.lastOp + 1, msgnum := s.nextMsgnum } hlead
        (Nat.succ_ne_zero _)).bind fun _ => follows_processGaps request n hlead

theorem follows_tryProcessClientRequest (msg : RequestMessage) : Always (Follows E) (tryProcessClientRequest E msg) := by
  refine always_get_bind fun s => follows_from fun hlead hend => ?_
  have hrefl : Follows E s s [] := Composes.refl s
  rw [sat_ite]
  refine ⟨fun _ => hrefl, fun _ => ?_⟩
  rw [sat_ite]
  refine ⟨fun _ => hrefl, fun _ => ?_⟩
  rw [sat_ite]
  refine ⟨fun _ => ?_, fun _ => ?_⟩
  · rw [sat_bind]
    refine (startViewChange_sat msg.sessnum s.view).mono (fun _ s' o h _ => ?_) fun s' o h => ?_
    · rw [List.append_nil]
      exact ⟨h.1, h.2.2.1.trans (max_self _), h.2.2.2⟩
    · rw [h.1, h.2]
      exact hrefl
  rw [sat_ite]
  refine ⟨fun _ => hrefl, fun _ => ?_⟩
  rw [sat_ite]
  refine ⟨fun _ => ?_, fun _ => ?_⟩
  · have hsend : Always (Follows E) (sendGapRequest E) := always_get.bind fun _ => .bind
      (by split_ifs <;> exact follows_emit rfl) fun _ => follows_modify (fun _ => rfl) (fun _ => rfl) fun _ => rfl
    exact (hsend.when.bind fun _ => always_pure (R := Follows E)) s
  · exact (((follows_processOperation _ hlead (Nat.succ_ne_zero _)).bind fun _ => always_get.bind fun _ =>
      follows_processGaps _ _ hlead).bind fun _ => always_pure (R := Follows E)) s

theorem follows_processPending : ∀ reqs : List RequestMessage, Always (Follows E) (processPending E reqs)
  | [] => always_pure
  | _ :: rest => (follows_tryProcessClientRequest _).bind fun _ => .when <|
      .bind (follows_modify (fun _ => rfl) (fun _ => rfl) fun _ => rfl) fun _ => follows_processPending rest

/-- Pending requests are left alone, or wait. -/
theorem still_processPendingRequests (h : Idle E s) : Sat (processPendingRequests E) s
    (fun _ s' o => Still s s' o ∧ s'.view = s.view) fun s' o => Still s s' o ∧ s'.view = s.view := by
  rcases h with hstatus | hs
  · unfold processPendingRequests
    rw [sat_bind, sat_get, sat_when]
    simp only [List.nil_append]
    refine ⟨fun hn => ?_, fun _ => ⟨Composes.refl s, trivial⟩⟩
    rw [hstatus] at hn
    cases hn
  · have hall : Always (Follows E) (processPendingRequests E) := always_get.bind fun _ => .when <| .when <|
      .bind (follows_modify (fun _ => rfl) (fun _ => rfl) fun _ => rfl) fun _ => follows_processPending _
    exact (hall s).mono (fun _ s' o h => ⟨(h hs).1, (h hs).2.1⟩) fun s' o h => ⟨(h hs).1, (h hs).2.1⟩

/-! ### Messages of the view -/

theorem checked_handleGapRequest (remote : Addr) (msg : GapRequestMessage) :
    Always (Checked E) (handleGapRequest E remote msg) :=
  checked_body <| always_get.bind fun _ => always_ofOption.bind fun _ => .whenSome fun _ =>
    within_emit (by cases remote <;> rfl)

theorem checked_handleGapReply (msg : GapReplyMessage) : Always (Checked E) (handleGapReply E msg) :=
  checked_body <| always_get.bind fun _ => .when <| .ite always_assert <| .ite (within_processNextOperation _ _ _) <|
    .when <| .bind (within_modify (fun _ => rfl) fun _ => rfl) fun _ => .whenSome fun _ => within_startGapAgreement

theorem checked_handleGapCommit (remote : Addr) (msg : GapCommitMessage) :
    Always (Checked E) (handleGapCommit E remote msg) := by
  refine checked_body <| always_get.bind fun s => always_assert.bind fun _ =>
    .ite (within_modify (fun _ => rfl) fun _ => rfl) ?_
  have hreply : Always (Within E) (do
      let s ← get
      emit (.toAddr remote (.gapCommitReply
        { sessnum := s.sessnum, view := s.view, opnum := msg.opnum, replicaidx := E.replicaIdx }))) :=
    always_get.bind fun _ => within_emit (by cases remote <;> rfl)
  have hset : Always (Within E) (modify fun s => { s with
      committedGaps := s.committedGaps.insert msg.opnum
      log := s.log.setStatus msg.opnum .noop } : NOPaxosHandler Unit) :=
    always_modify fun _ => within_setStatus rfl rfl
  exact .ite (hset.bind fun _ => hreply) ((within_processNextOperation _ _ _).bind fun _ => hreply)

theorem checked_handleGapCommitReply (msg : GapCommitReplyMessage) :
    Always (Checked E) (handleGapCommitReply E msg) :=
  checked_body <| always_get.bind fun _ => .when <| .bind (within_modify (fun _ => rfl) fun _ => rfl) fun _ =>
    .whenSome fun _ => within_modify (fun _ => rfl) fun _ => rfl

theorem checked_handleViewChangeRequest (msg : ViewChangeRequestMessage) :
    Always (Checked E) (handleViewChangeRequest E msg) :=
  always_get_bind fun _ => (whenLater_sat msg.sessnum msg.view).mono (fun _ _ _ h => h.2) fun s' o h => by
    rw [h.1, h.2]
    exact Or.inl (Composes.refl _)

theorem checked_handleSyncPrepare (msg : SyncPrepareMessage) : Always (Checked E) (handleSyncPrepare E msg) :=
  checked_body <| .bind (within_modify (fun _ => rfl) fun _ => rfl) fun _ => always_get.bind fun _ => .when <|
    always_assert.bind fun _ => .bind (within_modify (fun _ => rfl) fun _ => rfl) fun _ =>
    (within_installCommittedGaps _).bind fun _ => always_get.bind fun _ =>
    .ite (.bind (within_modify (fun _ => rfl) fun _ => rfl) fun _ => within_sendStateTransferRequest.when)
      (within_processSyncPrepare _)

theorem checked_handleSyncPrepareReply (msg : SyncPrepareReplyMessage) :
    Always (Checked E) (handleSyncPrepareReply E msg) :=
  checked_body <| always_get.bind fun _ => always_assert.bind fun _ => .when <|
    .bind (within_modify (fun _ => rfl) fun _ => rfl) fun _ => .whenSome fun _ => within_commitUptoOp _

theorem checked_handleSyncCommit (msg : SyncCommitMessage) : Always (Checked E) (handleSyncCommit E msg) :=
  checked_body <| always_get.bind fun _ => always_assert.bind fun _ => .when <|
    .bind (within_modify (fun _ => rfl) fun _ => rfl) fun _ => .ite
      (.when <| (within_commitUptoOp _).bind fun _ => within_modify (fun _ => rfl) fun _ => rfl)
      (within_emit rfl)

theorem checked_handleSyncPrepareRequest (remote : Addr) (msg : SyncPrepareRequestMessage) :
    Always (Checked E) (handleSyncPrepareRequest E remote msg) :=
  checked_body <| always_get.bind fun _ => always_assert.bind fun _ =>
    (within_emit (by cases remote <;> rfl)).bind fun _ => .when (within_emit (by cases remote <;> rfl))

/-! ### Every event -/

theorem Handled.still (h : Handled E s s' o) (hstill : Still s' s'' o') (hview : s''.view = s'.view) :
    Handled E s s'' (o ++ o') := by
  obtain ⟨s₁, o₁, o₂, hs₁, rfl, hx⟩ := h
  refine ⟨s₁, o₁, o₂ ++ o', hs₁, List.append_assoc .., (hx.mono fun v hv => ?_).trans (.still hstill)⟩
  rwa [hview]

theorem handleMessage_sat (remote : Addr) (m : ToReplicaMessage) : Sat (handleMessage E remote m) s
    (fun _ s' o => Ready E s s' o) fun s' o => Handled E s s' o := by
  have hwithin : ∀ {m : NOPaxosHandler Unit}, Always (Within E) m → Sat m s
      (fun _ s' o => Ready E s s' o) fun s' o => Handled E s s' o := fun hm =>
    (hm s).mono (fun _ _ _ h => Or.inl h) fun _ _ h => h.handled
  have hchecked : ∀ {m : NOPaxosHandler Unit}, Always (Checked E) m → Sat m s
      (fun _ s' o => Ready E s s' o) fun s' o => Handled E s s' o := fun hm =>
    (hm s).mono (fun _ _ _ h => h.ready) fun _ _ h => h.handled
  cases m with
  | request m => exact hwithin (within_handleClientRequest m)
  | unloggedRequest op => exact hwithin (within_handleUnloggedRequest remote op)
  | gapRequest m => exact hchecked (checked_handleGapRequest remote m)
  | gapReply m => exact hchecked (checked_handleGapReply m)
  | stateTransferRequest m => exact hwithin (within_handleStateTransferRequest remote m)
  | stateTransferReply m => exact hwithin (within_handleStateTransferReply m)
  | gapCommit m => exact hchecked (checked_handleGapCommit remote m)
  | gapCommitReply m => exact hchecked (checked_handleGapCommitReply m)
  | viewChangeRequest m => exact hchecked (checked_handleViewChangeRequest m)
  | viewChange m => exact handleViewChange_sat remote m
  | startView m => exact handleStartView_sat m
  | startViewReply m => exact hwithin (within_handleStartViewReply m)
  | syncPrepareRequest m => exact hchecked (checked_handleSyncPrepareRequest remote m)
  | syncPrepare m => exact hchecked (checked_handleSyncPrepare m)
  | syncPrepareReply m => exact hchecked (checked_handleSyncPrepareReply m)
  | syncCommit m => exact hchecked (checked_handleSyncCommit m)

theorem handled_receiveMessage (remote : Addr) (m : ToReplicaMessage) : Always (Handled E) (receiveMessage E remote m) :=
  fun s => sat_bind.mpr <| (handleMessage_sat remote m).mono (fun _ s' o h => by
    rcases h with h | ⟨h, hidle⟩ | ⟨h, hlead⟩
    · exact (within_processPendingRequests s').mono (fun _ _ _ h' => (Composes.trans h h' : Within E s _ _).handled)
        fun _ _ h' => (Composes.trans h h' : Within E s _ _).handled
    · exact (still_processPendingRequests hidle).mono (fun _ _ _ h' => h.still h'.1 h'.2)
        fun _ _ h' => h.still h'.1 h'.2
    · exact (within_processPendingRequests s').mono
        (fun _ _ _ h' => (h.after h').handled (by rwa [h'.view]))
        fun _ _ h' => (h.after h').handled (by rwa [h'.view])) fun _ _ h => h

theorem handled_timeout (t : Timer) : Always (Handled E) (timeout E t) := by
  have hwithin : ∀ {m : NOPaxosHandler Unit}, Always (Within E) m → Always (Handled E) m := fun hm =>
    hm.mono fun _ _ _ => Within.handled
  cases t with
  | gapRequest => exact hwithin (always_get.bind fun _ => .ite within_startGapAgreement within_sendGapRequest)
  | gapCommit => exact hwithin within_sendGapCommit
  | viewChange => exact hwithin within_sendViewChange
  | stateTransfer => exact hwithin within_sendStateTransferRequest
  | startView => exact hwithin within_sendStartView
  | sync => exact hwithin within_sendSyncPrepare
  | leaderSyncHeard =>
    refine always_get_bind fun s => ?_
    exact (checked_startViewChange s.sessnum (s.view + 1) s).mono (fun _ _ _ h => h.handled) fun _ _ h => h.handled

end Dsnet.NOPaxos
