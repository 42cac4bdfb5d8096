import Dsnet.Lib.AtEach
import Dsnet.Tapir.Prepare

/-! What a TAPIR replica does with an operation that is proposed more than once, whatever messages it
    receives. It executes it once. The first reply carries the result of the execution, but the record has
    not kept it: until the client finalizes the operation, every later reply carries an empty result. -/

namespace Dsnet.Tapir
open Handler Transaction

variable {σ : Type} (E : ServerEnv σ)

/-! ### A replica by itself -/

/-- A message that the replica has handled: what it has executed of it, and what it has sent. -/
structure Handled where
  msg : Message
  executed : List Upcall
  sent : List Output

/-- A replica with the messages it has handled. -/
structure Serving (σ : Type) where
  server : Server σ
  log : List Handled
  running : Bool

/-- The replica handles a message. -/
def Serving.handled (t : Serving σ) (remote : Node) (msg : Message) : Handled where
  msg := msg
  executed := (serverReceive E remote msg t.server).2.1.upcalls.drop t.server.upcalls.length
  sent := (serverReceive E remote msg t.server).2.2

/-- Afterwards. -/
def Serving.handle (t : Serving σ) (remote : Node) (msg : Message) : Serving σ where
  server := (serverReceive E remote msg t.server).2.1
  log := t.log ++ [t.handled E remote msg]
  running := (serverReceive E remote msg t.server).1.isSome

/-- The runs of a replica that receives any messages from anyone. -/
def serving : System (Serving σ) (Node × Message) where
  init := { server := Server.initial E, log := [], running := true }
  step t x := if t.running = true then some (t.handle E x.1 x.2) else none

/-- The message proposes operation `o`, in one way or the other. -/
def Message.Proposes (o : OpId) : Message → Prop
  | .proposeInconsistent req => opidOf req = o
  | .proposeConsensus req => opidOf req = o
  | _ => False

/-- The message finalizes the result of operation `o`. -/
def Message.Finalizes (o : OpId) : Message → Prop
  | .finalizeConsensus o' _ => o' = o
  | _ => False

instance (o : OpId) : DecidablePred (Message.Proposes o) := fun m => by
  unfold Message.Proposes
  split <;> infer_instance

instance (o : OpId) : DecidablePred (Message.Finalizes o) := fun m => by
  unfold Message.Finalizes
  split <;> infer_instance

/-- What has been executed of the proposals of `o`. -/
def executions (o : OpId) (log : List Handled) : List Upcall :=
  (log.filter fun h => h.msg.Proposes o).flatMap Handled.executed

/-- What is replied to a proposal of `o` here, if `o` has not been finalized before, is the result of its
    one execution. -/
def ReplyOk (log : List Handled) (h : Handled) : Prop :=
  ∀ {dsts v i o r}, ⟨dsts, .consensusReply v i o r⟩ ∈ h.sent → (∀ h' ∈ log, ¬ h'.msg.Finalizes o) →
    ∃ u, executions o (log ++ [h]) = [u] ∧ r = prepareResult E u.result u.ret

/-- The operation proposed here has not been proposed before, or it has been finalized. -/
def Fresh (log : List Handled) (h : Handled) : Prop :=
  ∀ req, h.msg = .proposeConsensus req → (∃ h' ∈ log, h'.msg.Proposes (opidOf req)) →
    ∃ h' ∈ log, h'.msg.Finalizes (opidOf req)

/-- Every operation is executed once, and what is replied of it is the result. -/
structure Idempotent (log : List Handled) : Prop where
  once : ∀ o, (executions o log).length ≤ 1
  replies : AtEach (ReplyOk E) log

variable {E} {s : Server σ}

/-! ### One message -/

/-- A call of the application. -/
theorem replicaUpcall_run (txn : String) (arg : TxnArg) :
    Sat (replicaUpcall E txn arg) s
      (fun x s' out => out = [] ∧
        ∃ app, s' = { s with app := app, upcalls := s.upcalls ++ [⟨txn, arg, x.1, x.2⟩] })
      fun s' out => out = [] ∧ ∃ app, s' = { s with app := app } := by
  rw [replicaUpcall, sat_bind, sat_get]
  split
  · exact ⟨rfl, _, rfl⟩
  · exact ⟨rfl, _, rfl⟩

/-- A PREPARE that is in the record is answered from there. -/
theorem propose_again (remote : Node) {req : Request} {entry : RecordEntry}
    (h : s.record (opidOf req) = some entry) :
    serverReceive E remote (.proposeConsensus req) s = (some (), s,
      [⟨[remote], .consensusReply entry.view E.replicaIdx (opidOf req) entry.result⟩]) := by
  rw [serverReceive, handleProposeConsensus, get_bind, h]
  rfl

/-- A new PREPARE is executed and entered without a result, and the result is sent; or the replica stops. -/
theorem propose_first (remote : Node) {req : Request} (h : s.record (opidOf req) = none) :
    Sat (serverReceive E remote (.proposeConsensus req)) s
      (fun _ s' out => ∃ u app, s' = { s with
          app := app, upcalls := s.upcalls ++ [u]
          record := Function.update s.record (opidOf req)
            (some { view := s.view, state := .tentative, request := req }) } ∧
        out = [⟨[remote], .consensusReply s.view E.replicaIdx (opidOf req)
          (prepareResult E u.result u.ret)⟩])
      fun s' out => out = [] ∧ ∃ app, s' = { s with app := app } := by
  rw [serverReceive, handleProposeConsensus, sat_bind, sat_get]
  simp only [h, sat_bind, sat_assert]
  refine ⟨fun _ => (replicaUpcall_run _ _).mono ?_ fun _ _ h => h, fun _ => ⟨rfl, s.app, rfl⟩⟩
  rintro x s' _ ⟨rfl, app, rfl⟩
  simp only [addWithResult, add, sat_bind, sat_get, sat_assert, sat_modify, sat_emit]
  exact ⟨fun _ => ⟨_, app, rfl, rfl⟩, fun hno => (hno h).elim⟩

/-- What a message does to the record: it enters what is proposed, without a result. -/
structure RecordStep (msg : Message) (s s' : Server σ) : Prop where
  stays : ∀ {o}, (s.record o).isSome = true → (s'.record o).isSome = true
  new : ∀ {o}, (s'.record o).isSome = true → (s.record o).isSome = true ∨ msg.Proposes o
  result : ∀ {o e'}, s'.record o = some e' → ¬ msg.Finalizes o →
    e'.result = "" ∨ ∃ e, s.record o = some e ∧ e'.result = e.result

theorem RecordStep.same {msg : Message} {s' : Server σ} (h : s'.record = s.record) :
    RecordStep msg s s' where
  stays hs := by rwa [h]
  new hs := Or.inl (by rwa [← h])
  result he _ := Or.inr ⟨_, by rwa [← h], rfl⟩

/-- One entry is added or replaced. -/
theorem RecordStep.setEntry {msg : Message} {o : OpId} {e : RecordEntry} {s' : Server σ}
    (h : s'.record = Function.update s.record o (some e))
    (hnew : (s.record o).isSome = true ∨ msg.Proposes o)
    (hres : ¬ msg.Finalizes o → e.result = "" ∨ ∃ e', s.record o = some e' ∧ e.result = e'.result) :
    RecordStep msg s s' where
  stays {o'} hs := by
    by_cases hne : o' = o
    · subst hne
      simp [h]
    · rwa [h, Function.update_of_ne hne]
  new {o'} hs := by
    by_cases hne : o' = o
    · subst hne
      exact hnew
    · rw [h, Function.update_of_ne hne] at hs
      exact Or.inl hs
  result {o' e'} he hno := by
    rw [h] at he
    rcases record_setEntry he with ⟨rfl, rfl⟩ | ⟨_, he⟩
    · exact hres hno
    · exact Or.inr ⟨e', he, rfl⟩

/-- A message changes the record so; one that is handled to the end has entered what it proposes. -/
theorem serverReceive_record (remote : Node) (msg : Message) (s : Server σ) :
    Sat (serverReceive E remote msg) s
      (fun _ s' _ => RecordStep msg s s' ∧ ∀ o, msg.Proposes o → (s'.record o).isSome = true)
      fun s' _ => RecordStep msg s s' := by
  cases msg with
  | proposeInconsistent req =>
    rw [serverReceive, handleProposeInconsistent, sat_bind, sat_get]
    cases hrec : s.record (opidOf req) with
    | some entry => exact ⟨.same rfl, by rintro _ rfl; simp [hrec]⟩
    | none =>
      simp only [add, sat_bind, sat_get, sat_assert, sat_modify, sat_emit]
      refine ⟨fun _ => ⟨.setEntry rfl (Or.inr rfl) fun _ => Or.inl rfl, ?_⟩, fun _ => .same rfl⟩
      rintro _ rfl
      simp
  | finalizeInconsistent o =>
    simp only [serverReceive, handleFinalizeInconsistent, sat_bind, sat_get, sat_whenSome, sat_when,
      sat_modify, sat_assert, sat_emit]
    refine ⟨fun entry hentry => ⟨fun _ => ⟨fun _ => ?_, fun _ => ?_⟩, fun _ => ⟨.same rfl, ?_⟩⟩,
      fun _ => ⟨.same rfl, ?_⟩⟩
    · have hstep : ∀ {s' : Server σ}, s'.record = Function.update s.record o
          (some { entry with state := .finalized }) → RecordStep (.finalizeInconsistent o) s s' :=
        fun h => .setEntry h (Or.inl (by simp [hentry])) fun _ => Or.inr ⟨entry, hentry, rfl⟩
      refine (replicaUpcall_run _ _).mono ?_ ?_
      · rintro x s' _ ⟨_, app, rfl⟩
        exact ⟨fun _ => ⟨fun _ => ⟨fun _ => ⟨hstep rfl, fun _ h => h.elim⟩, fun _ => hstep rfl⟩,
          fun _ => hstep rfl⟩, fun _ => hstep rfl⟩
      · rintro s' _ ⟨_, app, rfl⟩
        exact hstep rfl
    · exact .setEntry rfl (Or.inl (by simp [hentry])) fun _ => Or.inr ⟨entry, hentry, rfl⟩
    · exact fun _ h => h.elim
    · exact fun _ h => h.elim
  | proposeConsensus req =>
    cases hrec : s.record (opidOf req) with
    | some entry =>
      rw [Sat, propose_again remote hrec]
      exact ⟨.same rfl, by rintro _ rfl; simp [hrec]⟩
    | none =>
      refine (propose_first remote hrec).mono ?_ ?_
      · rintro _ s' _ ⟨u, app, rfl, _⟩
        refine ⟨.setEntry rfl (Or.inr rfl) fun _ => Or.inl rfl, ?_⟩
        rintro _ rfl
        simp
      · rintro s' _ ⟨_, app, rfl⟩
        exact .same rfl
  | finalizeConsensus o r =>
    simp only [serverReceive, handleFinalizeConsensus, sat_bind, sat_get, sat_whenSome, sat_modify,
      sat_emit]
    refine ⟨fun entry hentry => ⟨.setEntry rfl (Or.inl (by simp [hentry])) fun hno => ?_, ?_⟩,
      fun _ => ⟨.same rfl, ?_⟩⟩
    · exact (hno rfl).elim
    · exact fun _ h => h.elim
    · exact fun _ h => h.elim
  | inconsistentReply | consensusReply | confirm =>
    rw [serverReceive, sat_abort]
    · exact .same rfl
    all_goals simp

/-- Nothing is executed of a proposal, and no result is sent. -/
structure QuietStep (msg : Message) (s s' : Server σ) (out : List Output) : Prop where
  upcalls : ∀ o, msg.Proposes o → s'.upcalls = s.upcalls
  sent : ∀ {dsts v i o r}, ⟨dsts, .consensusReply v i o r⟩ ∉ out

/-- Only proposals for a consensus are executed, and answered with a result. -/
theorem serverReceive_quiet (remote : Node) {msg : Message} (s : Server σ)
    (h : ∀ req, msg ≠ .proposeConsensus req) :
    Sat (serverReceive E remote msg) s (fun _ s' out => QuietStep msg s s' out) (QuietStep msg s) := by
  cases msg with
  | proposeInconsistent req =>
    rw [serverReceive, handleProposeInconsistent, sat_bind, sat_get]
    cases hrec : s.record (opidOf req) with
    | some entry => exact ⟨fun _ _ => rfl, by simp⟩
    | none =>
      simp only [add, sat_bind, sat_get, sat_assert, sat_modify, sat_emit]
      exact ⟨fun _ => ⟨fun _ _ => rfl, by simp⟩, fun _ => ⟨fun _ _ => rfl, by simp⟩⟩
  | finalizeInconsistent o =>
    simp only [serverReceive, handleFinalizeInconsistent, sat_bind, sat_get, sat_whenSome, sat_when,
      sat_modify, sat_assert, sat_emit]
    have hquiet : ∀ {s' : Server σ} {out : List Output}, (∀ x ∈ out, x.msg = .confirm s'.view E.replicaIdx o) →
        QuietStep (.finalizeInconsistent o) s s' out := fun hout =>
      ⟨fun _ h => h.elim, fun hx => by cases hout _ hx⟩
    refine ⟨fun entry hentry => ⟨fun _ => ⟨fun _ => ?_, fun _ => hquiet (by simp)⟩,
      fun _ => hquiet (by simp)⟩, fun _ => hquiet (by simp)⟩
    refine (replicaUpcall_run _ _).mono ?_ ?_
    · rintro x s' _ ⟨rfl, app, rfl⟩
      exact ⟨fun _ => ⟨fun _ => ⟨fun _ => hquiet (by simp), fun _ => hquiet (by simp)⟩,
        fun _ => hquiet (by simp)⟩, fun _ => hquiet (by simp)⟩
    · rintro s' _ ⟨rfl, _⟩
      exact hquiet (by simp)
  | proposeConsensus req => exact (h req rfl).elim
  | finalizeConsensus o r =>
    simp only [serverReceive, handleFinalizeConsensus, sat_bind, sat_get, sat_whenSome, sat_modify,
      sat_emit]
    exact ⟨fun entry hentry => ⟨fun _ h => h.elim, by simp⟩, fun _ => ⟨fun _ h => h.elim, by simp⟩⟩
  | inconsistentReply | consensusReply | confirm =>
    rw [serverReceive, sat_abort]
    · exact ⟨fun _ _ => rfl, by simp⟩
    all_goals simp

/-! ### Runs -/

/-- What is known of a replica that receives any messages. -/
structure ServingOk (t : Serving σ) : Prop where
  entered : ∀ {o}, (t.server.record o).isSome = true → ∃ h ∈ t.log, h.msg.Proposes o
  proposed : t.running = true → ∀ {o}, (∃ h ∈ t.log, h.msg.Proposes o) → (t.server.record o).isSome = true
  empty : ∀ {o e}, t.server.record o = some e → (∀ h ∈ t.log, ¬ h.msg.Finalizes o) → e.result = ""
  once : ∀ o, (executions o t.log).length ≤ 1

/-- The executions of another message are added. -/
theorem executions_concat (o : OpId) (log : List Handled) (h : Handled) :
    executions o (log ++ [h]) = executions o log ++ if h.msg.Proposes o then h.executed else [] := by
  by_cases hp : h.msg.Proposes o
  · simp [executions, hp]
  · simp [executions, hp]

/-- What has not been proposed has not been executed. -/
theorem executions_eq_nil {o : OpId} {log : List Handled} (h : ¬ ∃ h ∈ log, h.msg.Proposes o) :
    executions o log = [] := by
  rw [executions, List.filter_eq_nil_iff.mpr fun x hx => by simpa using fun hp => h ⟨x, hx, hp⟩]
  rfl

/-- A result that is sent has a reply, which an empty one has not. -/
theorem prepareResult_ne_empty (result : String) (ret : TxnRet) : prepareResult E result ret ≠ "" := by
  intro h
  have hparse := E.wire.parse_empty
  rw [← h, prepareResult, Codec.parse_serialize] at hparse
  exact Option.some_ne_none _ (congrArg ReplyMessage.reply hparse)

section
variable {t : Serving σ} {remote : Node} {req : Request} {msg : Message}

/-- A PREPARE that is in the record: nothing is executed. -/
theorem handled_again {entry : RecordEntry} (h : t.server.record (opidOf req) = some entry) :
    t.handled E remote (.proposeConsensus req) = ⟨.proposeConsensus req, [],
      [⟨[remote], .consensusReply entry.view E.replicaIdx (opidOf req) entry.result⟩]⟩ := by
  rw [Serving.handled, propose_again remote h]
  simp

/-- A new PREPARE: it is executed and answered, or the replica stops. -/
theorem handled_first (remote : Node) (h : t.server.record (opidOf req) = none) :
    (∃ u, t.handled E remote (.proposeConsensus req) = ⟨.proposeConsensus req, [u],
      [⟨[remote], .consensusReply t.server.view E.replicaIdx (opidOf req)
        (prepareResult E u.result u.ret)⟩]⟩) ∨
    t.handled E remote (.proposeConsensus req) = ⟨.proposeConsensus req, [], []⟩ := by
  rw [Serving.handled]
  rcases (propose_first (E := E) remote h).cases with ⟨_, s', out, hm, u, app, rfl, rfl⟩ |
    ⟨s', out, hm, rfl, app, rfl⟩
  · exact Or.inl ⟨u, by simp [hm]⟩
  · exact Or.inr (by simp [hm])

/-- Other messages have nothing executed of a proposal, and no result sent. -/
theorem handled_other (h : ∀ req, msg ≠ .proposeConsensus req) :
    (∀ o, msg.Proposes o → (t.handled E remote msg).executed = []) ∧
    ∀ {dsts v i o r}, ⟨dsts, .consensusReply v i o r⟩ ∉ (t.handled E remote msg).sent := by
  rw [Serving.handled]
  rcases (serverReceive_quiet (E := E) remote t.server h).cases with ⟨_, s', out, hm, hq⟩ |
    ⟨s', out, hm, hq⟩
  all_goals
    simp only [hm]
    exact ⟨fun o ho => by simp [hq.upcalls o ho], hq.sent⟩

/-- What a message has executed of what it proposes: nothing, or one call, the first. -/
theorem ServingOk.executed (ht : ServingOk t) (hrun : t.running = true) {o : OpId}
    (ho : msg.Proposes o) :
    (t.handled E remote msg).executed = [] ∨
      executions o t.log = [] ∧ (t.handled E remote msg).executed.length ≤ 1 := by
  by_cases hcons : ∃ req, msg = .proposeConsensus req
  · obtain ⟨req, rfl⟩ := hcons
    obtain rfl : opidOf req = o := ho
    cases hrec : t.server.record (opidOf req) with
    | some entry => exact Or.inl (by rw [handled_again hrec])
    | none =>
      refine Or.inr ⟨executions_eq_nil fun hp => ?_, ?_⟩
      · have := ht.proposed hrun hp
        simp [hrec] at this
      · rcases handled_first (E := E) remote hrec with ⟨u, hu⟩ | hu <;> simp [hu]
  · exact Or.inl ((handled_other fun req hreq => hcons ⟨req, hreq⟩).1 o ho)

/-- A reply carries the result of the execution just if what it replies to is fresh. -/
theorem ServingOk.replyOk_iff (ht : ServingOk t) (hrun : t.running = true) :
    ReplyOk E t.log (t.handled E remote msg) ↔ Fresh t.log (t.handled E remote msg) := by
  by_cases hcons : ∃ req, msg = .proposeConsensus req
  · obtain ⟨req, rfl⟩ := hcons
    cases hrec : t.server.record (opidOf req) with
    | some entry =>
      rw [handled_again hrec]
      constructor
      · intro hrep req' hreq' _
        obtain rfl : req = req' := Message.proposeConsensus.inj hreq'
        by_contra hno
        have hno' : ∀ h ∈ t.log, ¬ h.msg.Finalizes (opidOf req) := fun h hh hf => hno ⟨h, hh, hf⟩
        obtain ⟨u, _, hu⟩ := hrep (List.mem_singleton_self _) hno'
        rw [ht.empty hrec hno'] at hu
        exact prepareResult_ne_empty _ _ hu.symm
      · intro hfresh dsts v i o r hr hno
        cases List.mem_singleton.mp hr
        obtain ⟨h, hh, hf⟩ := hfresh req rfl (ht.entered (by rw [hrec]; rfl))
        exact (hno h hh hf).elim
    | none =>
      have hnot : ¬ ∃ h ∈ t.log, h.msg.Proposes (opidOf req) := fun hp => by
        have := ht.proposed hrun hp
        simp [hrec] at this
      rcases handled_first (E := E) remote hrec with ⟨u, hu⟩ | hu
      · rw [hu]
        refine iff_of_true (fun {dsts v i o r} hr _ => ?_) fun req' hreq' hp => ?_
        · cases List.mem_singleton.mp hr
          refine ⟨u, ?_, rfl⟩
          have hp : Message.Proposes (opidOf req) (.proposeConsensus req) := rfl
          rw [executions_concat, executions_eq_nil hnot, if_pos hp]
          rfl
        · obtain rfl : req = req' := Message.proposeConsensus.inj hreq'
          exact (hnot hp).elim
      · rw [hu]
        refine iff_of_true (fun {dsts v i o r} hr _ => by cases hr) fun req' hreq' hp => ?_
        obtain rfl : req = req' := Message.proposeConsensus.inj hreq'
        exact (hnot hp).elim
  · refine iff_of_true (fun {dsts v i o r} hr _ => ?_) fun req hreq _ => ?_
    · exact ((handled_other fun req hreq => hcons ⟨req, hreq⟩).2 hr).elim
    · exact (hcons ⟨req, hreq⟩).elim

/-- Every message keeps what is known. -/
theorem ServingOk.handle (ht : ServingOk t) (hrun : t.running = true) :
    ServingOk (t.handle E remote msg) := by
  have hrec : RecordStep msg t.server (t.handle E remote msg).server ∧
      ((t.handle E remote msg).running = true →
        ∀ o, msg.Proposes o → ((t.handle E remote msg).server.record o).isSome = true) := by
    rw [Serving.handle]
    rcases (serverReceive_record (E := E) remote msg t.server).cases with ⟨_, s', out, hm, hq⟩ |
      ⟨s', out, hm, hq⟩
    · rw [hm]
      exact ⟨hq.1, fun _ => hq.2⟩
    · rw [hm]
      exact ⟨hq, fun h => by cases h⟩
  have hmem : ∀ {p : Message → Prop}, (∃ h ∈ (t.handle E remote msg).log, p h.msg) ↔
      (∃ h ∈ t.log, p h.msg) ∨ p msg := by
    intro p
    simp [Serving.handle, Serving.handled, or_and_right, exists_or]
  constructor
  · intro o ho
    exact hmem.mpr ((hrec.1.new ho).imp_left ht.entered)
  · intro hr o ho
    rcases hmem.mp ho with ho | ho
    · exact hrec.1.stays (ht.proposed hrun ho)
    · exact hrec.2 hr o ho
  · intro o e he hno
    have hno' : ¬ ((∃ h ∈ t.log, h.msg.Finalizes o) ∨ msg.Finalizes o) := fun h => by
      obtain ⟨h, hh, hf⟩ := hmem.mpr h
      exact hno h hh hf
    rcases hrec.1.result he fun h => hno' (Or.inr h) with h | ⟨e', he', h⟩
    · exact h
    · rw [h]
      exact ht.empty he' fun x hx hf => hno' (Or.inl ⟨x, hx, hf⟩)
  · intro o
    show (executions o (t.log ++ [t.handled E remote msg])).length ≤ 1
    rw [executions_concat]
    by_cases ho : Message.Proposes o (t.handled E remote msg).msg
    · rw [if_pos ho]
      have hcases : (t.handled E remote msg).executed = [] ∨
          executions o t.log = [] ∧ (t.handled E remote msg).executed.length ≤ 1 := ht.executed hrun ho
      rcases hcases with h | ⟨h, hle⟩
      · simpa [h] using ht.once o
      · simpa [h] using hle
    · rw [if_neg ho, List.append_nil]
      exact ht.once o

end

/-- In every run of a replica, proposals are idempotent just when each PREPARE that is proposed again has
    been finalized. -/
theorem proposals_idempotent_iff (E : ServerEnv σ) {past : List (Serving σ)} {t : Serving σ}
    (hr : Run (serving E) (fun _ _ => True) past t) : Idempotent E t.log ↔ AtEach Fresh t.log := by
  have hinv : ServingOk t ∧ (AtEach (ReplyOk E) t.log ↔ AtEach Fresh t.log) := by
    refine Run.invariant (I := fun _ t => ServingOk t ∧ (AtEach (ReplyOk E) t.log ↔ AtEach Fresh t.log))
      ?_ ?_ hr
    · refine ⟨⟨fun h => (by cases h), fun _ _ h => ?_, fun h => (by cases h), fun _ => Nat.zero_le _⟩,
        iff_of_true atEach_nil atEach_nil⟩
      obtain ⟨_, h, _⟩ := h
      cases h
    · intro _ t e t' _ ht _ hstep
      by_cases hrun : t.running = true
      · obtain rfl : t.handle E e.1 e.2 = t' := by simpa [serving, hrun] using hstep
        refine ⟨ht.1.handle hrun, ?_⟩
        show AtEach _ (_ ++ [_]) ↔ AtEach _ (_ ++ [_])
        rw [atEach_concat, atEach_concat, ht.2, ht.1.replyOk_iff hrun]
      · simp [serving, hrun] at hstep
  exact ⟨fun h => hinv.2.mp h.replies, fun h => ⟨hinv.1.once, hinv.2.mpr h⟩⟩

/-- Client 0 proposes to prepare a transaction. -/
def proposal : Node × Message :=
  (.client 0, .proposeConsensus
    { op := threeReplicas.wire.txn.serialize { txnid := 1, op := .prepare, txn := putText }
      clientid := 0, clientreqid := 1 })

theorem proposals_idempotent_iff_first : ∃ t : Serving KVTxnServer, t.log.length = 1 ∧
    (∀ h ∈ t.log, h.executed.length = 1) ∧ Idempotent (threeReplicas.serverEnv 0) t.log := by
  obtain ⟨past, t, hr, ht⟩ := Run.exists_of_exec (serving (threeReplicas.serverEnv 0)) (fun _ _ => True)
    [proposal] (fun t => t.log.length = 1 ∧ t.log.all fun h => h.executed.length = 1) (by decide +kernel)
  obtain ⟨hlen, hexec⟩ := of_decide_eq_true ht
  obtain ⟨h, hlog⟩ := List.length_eq_one_iff.mp hlen
  refine ⟨t, hlen, by simpa using hexec, (proposals_idempotent_iff _ hr).mpr ?_⟩
  rw [hlog, ← List.nil_append [h], atEach_concat]
  exact ⟨atEach_nil, fun _ _ hp => by obtain ⟨_, hx, _⟩ := hp; cases hx⟩

/-- The second of two messages is replied to with the empty text. -/
def secondEmpty : List Handled → Bool
  | [h, h'] => h'.sent.any fun x =>
    match x.msg with
    | .consensusReply _ _ o r => r = "" && !decide (h.msg.Finalizes o)
    | _ => false
  | _ => false

theorem repeated_proposal_differs : ¬ ∀ past t,
    Run (serving (threeReplicas.serverEnv 0)) (fun _ _ => True) past t →
    Idempotent (threeReplicas.serverEnv 0) t.log := by
  intro hall
  obtain ⟨past, t, hr, ht⟩ := Run.exists_of_exec (serving (threeReplicas.serverEnv 0)) (fun _ _ => True)
    [proposal, proposal] (fun t => secondEmpty t.log) (by decide +kernel)
  unfold secondEmpty at ht
  split at ht
  next h h' hlog =>
    obtain ⟨⟨dsts, m⟩, hx, hm⟩ := List.any_eq_true.mp ht
    split at hm
    next v i o r hmsg =>
      obtain rfl : m = _ := hmsg
      obtain ⟨rfl, hno⟩ : r = "" ∧ ¬ h.msg.Finalizes o := by simpa using hm
      obtain ⟨u, _, hu⟩ := (hall past t hr).replies [h] h' [] hlog hx
        fun x hx => List.mem_singleton.mp hx ▸ hno
      exact prepareResult_ne_empty _ _ hu.symm
    · cases hm
  · cases ht

end Dsnet.Tapir
