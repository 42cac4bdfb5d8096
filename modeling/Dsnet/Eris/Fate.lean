import Dsnet.Eris.Fcor

/-! What the operations of the failure coordinator do to the fates of transactions, and what follows
    for every sequence of them: the ids of one transaction share one fate, which is final within an
    epoch, and a transaction is dropped only on the promises of a quorum of each shard.

    `Step` says once what an operation can do; the invariants are read off it. -/

namespace Dsnet.Eris
open Handler

variable {config : Configuration} {s s' : Fcor} {A : Fcor → List FCOutput → Prop}

/-! ### The operations on transactions -/

theorem sat_sendResult {id : TxnID} (h : (s.txnResults id).isSome) :
    Sat (sendResult id) s (fun _ s' _ => s' = s) (fun _ _ => False) := by
  simp only [sendResult, sat_bind, sat_get, sat_ofOption, sat_emit]
  refine ⟨fun _ _ => trivial, fun hnone => ?_⟩
  rw [hnone] at h
  cases h

theorem sat_handleTxnInfoReq {txnNum : Stamp} :
    Sat (handleTxnInfoReq txnNum) s (fun _ s' _ => s' = s) (fun _ _ => False) := by
  simp only [handleTxnInfoReq, sat_bind, sat_get, sat_ite, sat_pure, sat_when, sat_emit]
  refine ⟨fun _ => trivial, fun _ => ⟨fun h => ?_, fun _ => trivial⟩⟩
  exact (sat_sendResult h).mono (fun _ _ _ hs => hs) (fun _ _ hf => hf)

/-- A coordinator takes operations on the transactions of its epoch only. -/
def Open (s : Fcor) (epoch : Nat) : Prop := s.status = .normal ∧ s.epochNum = epoch

instance (s : Fcor) (epoch : Nat) : Decidable (Open s epoch) := inferInstanceAs (Decidable (_ ∧ _))

theorem not_open_iff {epoch : Nat} :
    (s.status ≠ .normal ∨ s.epochNum ≠ epoch) ↔ ¬ Open s epoch := by
  unfold Open
  tauto

/-- The fate a received transaction gets. -/
def fateOf (s : Fcor) (txn : RequestMessage) : TxnFate :=
  if shouldDrop s (txnIDs txn) then .dropped else .found

/-- The state after a transaction has been received: its promises are cleared, and its undecided ids
    get its fate. -/
def received (s : Fcor) (txn : RequestMessage) : Fcor :=
  { s with
    dropRecords := fun id => if id ∈ txnIDs txn then none else s.dropRecords id
    txnResults := fun id => if id ∈ txnIDs txn then
        some ((s.txnResults id).getD { fate := fateOf s txn, txn := txn })
      else s.txnResults id }

theorem sat_clearRecords (ids : List TxnID) : ∀ s : Fcor,
    Sat (forEach ids fun id =>
      modify fun s => { s with dropRecords := Function.update s.dropRecords id none }) s
      (fun _ s' (_ : List FCOutput) => s' =
        { s with dropRecords := fun id => if id ∈ ids then none else s.dropRecords id })
      (fun _ _ => False) := by
  induction ids with
  | nil => exact fun s => by simp [forEach]
  | cons x xs ih =>
    intro s
    simp only [forEach, sat_bind, sat_modify]
    refine (ih _).mono (fun _ s' _ h => ?_) (fun _ _ hf => hf)
    rw [h]
    congr 1
    funext id
    by_cases hx : id = x
    · simp [hx]
    · simp [hx]

theorem sat_commitResults (r : TxnResult) (ids : List TxnID) : ∀ s : Fcor,
    Sat (forEach ids (commitResult r)) s
      (fun _ s' (_ : List FCOutput) => s' = { s with
        txnResults := fun id => if id ∈ ids then some ((s.txnResults id).getD r)
          else s.txnResults id })
      (fun _ _ => False) := by
  induction ids with
  | nil => exact fun s => by simp [forEach]
  | cons x xs ih =>
    intro s
    simp only [forEach, commitResult, sat_bind, sat_get, sat_when, sat_modify]
    refine ⟨fun hnone => ?_, fun hsome => ?_⟩
    · refine (sat_sendResult (by simp)).mono ?_ (fun _ _ hf => hf)
      rintro _ t _ rfl
      refine (ih _).mono (fun _ s' _ h => ?_) (fun _ _ hf => hf)
      rw [h]
      congr 1
      funext id
      by_cases hx : id = x
      · subst hx
        simp [hnone]
      · simp [hx]
    · refine (ih _).mono (fun _ s' _ h => ?_) (fun _ _ hf => hf)
      rw [h]
      congr 1
      funext id
      by_cases hx : id = x
      · subst hx
        obtain ⟨r', hr'⟩ := Option.ne_none_iff_exists'.mp hsome
        simp [hr']
      · simp [hx]

theorem sat_handleTxnReceived {txn : RequestMessage} :
    Sat (handleTxnReceived txn) s
      (fun _ s' _ => s' = if Open s txn.request.sessnum then received s txn else s)
      (fun _ _ => False) := by
  simp only [handleTxnReceived, sat_bind, sat_get, sat_ite, sat_pure, not_open_iff, not_not]
  refine ⟨fun h => (if_neg h).symm, fun h => ?_⟩
  refine (sat_clearRecords _ s).mono ?_ (fun _ _ hf => hf)
  rintro _ t _ rfl
  refine (sat_commitResults _ _ _).mono (fun _ s' _ hs => ?_) (fun _ _ hf => hf)
  rw [hs, if_pos h]
  rfl

/-- The state after an id has been decided on the promises. -/
def dropped (s : Fcor) (id : TxnID) : Fcor :=
  let txnResult : TxnResult := { fate := .dropped, txn := RequestMessage.blank }
  { recordDrop id.shardNum id s with
    txnResults := Function.update s.txnResults id (some txnResult) }

/-- The state after a promise to drop an undecided id. -/
def promised (config : Configuration) (s : Fcor) (id : TxnID) (record : TxnDropRecord) : Fcor :=
  let s := addDropRecord id record s
  if isDropped config s id then dropped s id else s

/-- A promise decides its own id only, and only when the promises suffice. -/
theorem results_promised (config : Configuration) (s : Fcor) (id id' : TxnID)
    (record : TxnDropRecord) :
    (promised config s id record).txnResults id' = s.txnResults id' ∨
      (id' = id ∧ isDropped config (addDropRecord id record s) id ∧
        (promised config s id record).txnResults id' =
          some { fate := .dropped, txn := RequestMessage.blank }) := by
  unfold promised
  simp only
  split_ifs with hd
  · by_cases hid : id' = id
    · subst hid
      exact Or.inr ⟨rfl, hd, by simp [dropped]⟩
    · exact Or.inl (by simp [dropped, hid, recordDrop, addDropRecord])
  · exact Or.inl rfl

theorem sat_handleTxnTempDropped {txnNum : Stamp} {shardNum replicaNum viewNum : Int} :
    Sat (handleTxnTempDropped config txnNum shardNum replicaNum viewNum) s
      (fun _ s' _ => s' =
        if Open s (TxnID.ofStamp txnNum).epochNum ∧ s.txnResults (TxnID.ofStamp txnNum) = none then
          promised config s (TxnID.ofStamp txnNum)
            { shardNum := shardNum, replicaNum := replicaNum, viewNum := viewNum }
        else s)
      (fun _ _ => False) := by
  simp only [handleTxnTempDropped, sat_bind, sat_get, sat_ite, sat_pure, sat_modify, sat_when,
    not_open_iff, not_not]
  refine ⟨fun h => (if_neg fun h' => h h'.1).symm, fun h => ⟨fun hsome => ?_, fun hnone => ?_⟩⟩
  · rw [if_neg]
    rintro ⟨_, hnone⟩
    rw [hnone] at hsome
    cases hsome
  · have hnone' := Option.not_isSome_iff_eq_none.mp hnone
    simp only [promised, if_pos (And.intro h hnone')]
    refine ⟨fun hd => ?_, fun hd => (if_neg hd).symm⟩
    refine (sat_sendResult (by simp)).mono (fun _ s' _ hs => ?_) (fun _ _ hf => hf)
    rw [hs, if_pos hd]
    rfl

/-! ### Epoch changes -/

/-- The id is recorded for the epoch change, under the shard. -/
def Drops (s : Fcor) (shardNum : Int) (id : TxnID) : Prop :=
  ∃ ids, s.droppedTxns shardNum = some ids ∧ id ∈ ids.toList

theorem drops_recordDrop {i j : Int} {id id' : TxnID} :
    Drops (recordDrop i id s) j id' ↔ (j = i ∧ id' = id) ∨ Drops s j id' := by
  unfold Drops recordDrop
  by_cases hj : j = i
  · subst hj
    cases s.droppedTxns j <;> simp
  · simp [hj]

/-- The fates and the promises are as before, and no recorded drop is lost. -/
structure KeepsFate (s s' : Fcor) : Prop where
  results : s'.txnResults = s.txnResults
  records : s'.dropRecords = s.dropRecords
  drops : ∀ i id, Drops s i id → Drops s' i id

theorem KeepsFate.refl (s : Fcor) : KeepsFate s s := ⟨rfl, rfl, fun _ _ h => h⟩

/-- A change elsewhere. -/
theorem KeepsFate.congr {t t' : Fcor} (h : KeepsFate s t) (hr : t'.txnResults = t.txnResults)
    (hp : t'.dropRecords = t.dropRecords) (hd : t'.droppedTxns = t.droppedTxns) : KeepsFate s t' := by
  refine ⟨hr.trans h.results, hp.trans h.records, fun i id hi => ?_⟩
  obtain ⟨ids, hids, hmem⟩ := h.drops i id hi
  exact ⟨ids, by rw [hd, hids], hmem⟩

/-- Nothing is decided, and nothing promised. -/
structure Cleared (s : Fcor) : Prop where
  results : ∀ id, s.txnResults id = none
  records : ∀ id, s.dropRecords id = none

/-- A message that starts an epoch lists what was recorded as dropped in state `s`. -/
def Announces (s : Fcor) : FCOutput → Prop
  | .toGroup i (.startEpoch m) => ∀ id, Drops s i id → id.stamp ∈ m.permDrops
  | _ => True

/-- All that is sent announces the drops. -/
def AllAnnounce (s : Fcor) (o : List FCOutput) : Prop := ∀ x ∈ o, Announces s x

theorem AllAnnounce.nil (s : Fcor) : AllAnnounce s [] := fun _ h => by cases h

theorem AllAnnounce.append {o o' : List FCOutput} (h : AllAnnounce s o) (h' : AllAnnounce s o') :
    AllAnnounce s (o ++ o') := fun x hx => (List.mem_append.mp hx).elim (h x) (h' x)

theorem AllAnnounce.one {x : FCOutput} (h : Announces s x) : AllAnnounce s [x] :=
  fun _ hy => List.mem_singleton.mp hy ▸ h

theorem mem_permDrops {t : Fcor} {i : Int} {id : TxnID} (h : Drops t i id) :
    id.stamp ∈ permDrops t i := by
  obtain ⟨ids, hids, hmem⟩ := h
  rw [permDrops, hids]
  exact List.mem_map_of_mem hmem

/-- `StartEpoch`, in a state that has kept what state `s` had. -/
theorem sat_startEpoch {t : Fcor} (ht : KeepsFate s t) :
    Sat (startEpoch config) t (fun _ s' o => Cleared s' ∧ AllAnnounce s o)
      (fun s' o => KeepsFate s s' ∧ AllAnnounce s o) := by
  simp only [startEpoch, sat_bind, sat_modify, List.append_nil]
  refine ((Keeps.forEach (I := KeepsFate s) (J := KeepsFate s) ?_ (AllAnnounce.nil s)
    (fun _ _ => AllAnnounce.append) (List.range config.g)) t ht).mono
    (fun _ _ _ h => ⟨⟨fun _ => rfl, fun _ => rfl⟩, h.2⟩) (fun _ _ h => h)
  intro i u hu
  simp only [startShard, sat_bind, sat_get, sat_modify, sat_emit]
  exact ⟨hu.congr rfl rfl rfl, .one fun id hid => mem_permDrops (hu.drops i id hid)⟩

theorem sat_handleEpochChangeReq {shardNum replicaNum : Int} {newEpochNum : Nat} :
    Sat (handleEpochChangeReq shardNum replicaNum newEpochNum) s
      (fun _ s' o => KeepsFate s s' ∧ AllAnnounce s o) (fun s' o => KeepsFate s s' ∧ AllAnnounce s o) := by
  have hstay : KeepsFate s s ∧ AllAnnounce s [] := ⟨.refl s, .nil s⟩
  simp only [handleEpochChangeReq, sat_bind, sat_get, sat_ite, sat_when, sat_ofOption, sat_emit,
    sat_modify]
  exact ⟨fun _ => ⟨fun _ => ⟨fun _ _ => ⟨.refl s, .one trivial⟩, fun _ => hstay⟩, fun _ => hstay⟩,
    fun _ => ⟨(KeepsFate.refl s).congr rfl rfl rfl, .one trivial⟩⟩

theorem keeps_latestMsgs (i : Nat) : ∀ js : List Nat,
    Keeps (KeepsFate s) (KeepsFate s) (AllAnnounce s) (latestMsgs i js)
  | [] => fun t ht => ⟨ht, .nil s⟩
  | j :: js => by
      intro t ht
      simp only [latestMsgs, sat_bind, sat_get, sat_ofOption, sat_modify]
      refine ⟨fun own _ => ?_, fun _ => ⟨ht, .nil s⟩⟩
      refine (keeps_latestMsgs i js).sat (ht.congr rfl rfl rfl) (fun rest t' o ht' ho => ?_)
        (fun _ _ ht' ho => ⟨ht', ho⟩)
      simp only [sat_ite, sat_pure, List.append_nil]
      exact ⟨fun _ => ⟨ht', ho⟩, fun _ => ⟨ht', ho⟩⟩

theorem keeps_transferShard (i : Nat) :
    Keeps (KeepsFate s) (KeepsFate s) (AllAnnounce s) (transferShard config i) := by
  intro t ht
  simp only [transferShard, sat_bind, sat_get, sat_ofOption]
  refine ⟨fun entry _ => ?_, fun _ => ⟨ht, .nil s⟩⟩
  refine (keeps_latestMsgs i _).sat ht (fun msgs t' o ht' ho => ?_) (fun _ _ ht' ho => ⟨ht', ho⟩)
  simp only [sat_when, sat_bind, sat_modify, sat_emit]
  exact ⟨fun _ => ⟨ht'.congr rfl rfl rfl, ho.append (.one trivial)⟩,
    fun _ => ⟨ht', ho.append (.nil s)⟩⟩

theorem kept_updateView (shardNum : Int) (viewNum : Nat) (s : Fcor) :
    KeepsFate s (updateView shardNum viewNum s) := by
  unfold updateView
  split_ifs
  · exact (KeepsFate.refl s).congr rfl rfl rfl
  · exact .refl s

theorem KeepsFate.updateFront {t : Fcor} (h : KeepsFate s t) (shardNum : Int) (replicaNum : Nat)
    (ack : EpochChangeAck) : KeepsFate s (updateFront shardNum replicaNum ack t) := by
  unfold Eris.updateFront
  split_ifs
  · exact h.congr rfl rfl rfl
  · exact h

theorem sat_handleEpochChangeAck {m : ErisToFCMessage} {ack : EpochChangeAck} :
    Sat (handleEpochChangeAck config m ack) s
      (fun _ s' o => (KeepsFate s s' ∨ Cleared s') ∧ AllAnnounce s o)
      (fun s' o => KeepsFate s s' ∧ AllAnnounce s o) := by
  have hstay : KeepsFate s s ∧ AllAnnounce s [] := ⟨.refl s, .nil s⟩
  have hview := kept_updateView (toInt m.shardNum) m.localViewNum.viewNum s
  have hfront := hview.updateFront (toInt m.shardNum) m.replicaNum ack
  have hack : KeepsFate s (recordAck (toInt m.shardNum) (toInt m.replicaNum)
      (updateFront (toInt m.shardNum) m.replicaNum ack
        (updateView (toInt m.shardNum) m.localViewNum.viewNum s))) := hfront.congr rfl rfl rfl
  simp only [handleEpochChangeAck, sat_bind, sat_get, sat_ite, sat_when, sat_whenSome, sat_ofOption,
    sat_assert, sat_emit, sat_modify]
  refine ⟨fun _ => ⟨fun _ => ⟨fun _ _ => ⟨.inl (.refl s), .one trivial⟩, fun _ => hstay⟩,
      fun _ => hstay⟩,
    fun _ => ⟨fun _ => ⟨fun _ _ => ⟨.inl (.refl s), .one trivial⟩, fun _ => ⟨.inl (.refl s), .nil s⟩⟩,
      fun _ => ⟨fun _ => ⟨fun _ => ?_, fun _ => ⟨.inl hack, .nil s⟩⟩, fun _ => ⟨hview, .nil s⟩⟩⟩⟩
  refine (Keeps.forEach (fun i => keeps_transferShard i) (AllAnnounce.nil s)
    (fun _ _ => AllAnnounce.append) _).sat hack (fun _ t o ht ho => ?_)
    (fun _ _ ht ho => ⟨ht, ho⟩)
  refine ⟨fun _ => ⟨fun _ => ?_, fun _ => ⟨ht, ho.append (.nil s)⟩⟩,
    fun _ => ⟨.inl ht, ho.append (.nil s)⟩⟩
  exact (sat_startEpoch ht).mono (fun _ _ _ h => ⟨.inr h.1, ho.append h.2⟩)
    (fun _ _ h => ⟨h.1, ho.append h.2⟩)

theorem sat_handleEpochChangeStateTransferAck {m : ErisToFCMessage}
    {ack : EpochChangeStateTransferAck} :
    Sat (handleEpochChangeStateTransferAck config m ack) s
      (fun _ s' o => (KeepsFate s s' ∨ Cleared s') ∧ AllAnnounce s o)
      (fun s' o => KeepsFate s s' ∧ AllAnnounce s o) := by
  have hstay : KeepsFate s s ∧ AllAnnounce s [] := ⟨.refl s, .nil s⟩
  simp only [handleEpochChangeStateTransferAck, sat_bind, sat_get, sat_ite, sat_pure, sat_assert,
    sat_ofOption, sat_modify]
  refine ⟨fun _ => ⟨.inl (.refl s), .nil s⟩, fun _ => ⟨fun _ => ⟨fun latest _ => ⟨fun _ =>
    ⟨fun _ => ?_, fun _ => hstay⟩, fun _ => hstay⟩, fun _ => hstay⟩, fun _ => hstay⟩⟩
  have hdrop : ∀ stn, Keeps (KeepsFate s) (KeepsFate s) (AllAnnounce s)
      (modify (recordDrop (toInt m.shardNum) (TxnID.ofStamp stn))) := fun stn t ht =>
    ⟨⟨ht.results, ht.records, fun i id hi => drops_recordDrop.mpr (.inr (ht.drops i id hi))⟩,
      .nil s⟩
  refine (Keeps.forEach hdrop (AllAnnounce.nil s) (fun _ _ => AllAnnounce.append) _).sat
    ((KeepsFate.refl s).congr rfl rfl rfl) (fun _ t o ht ho => ?_) (fun _ _ ht ho => ⟨ht, ho⟩)
  simp only [sat_when]
  refine ⟨fun _ => ?_, fun _ => ⟨.inl (ht.congr rfl rfl rfl), ho.append (.nil s)⟩⟩
  refine (sat_startEpoch ?_).mono (fun _ _ _ h => ⟨.inr h.1, ho.append h.2⟩)
    (fun _ _ h => ⟨h.1, ho.append h.2⟩)
  exact ht.congr rfl rfl rfl

/-! ### What an operation does -/

/-- The operation is about a transaction, and not about an epoch change. -/
def ToFCCase.isTxn : ToFCCase → Bool
  | .txnInfoReq _ | .txnReceived _ | .txnTempDrop _ => true
  | _ => false

/-- What an operation does to the fates, the promises and the drops, whether or not it ends the
    process. -/
inductive Step (config : Configuration) (isLeader : Bool) (m : ErisToFCMessage) (s : Fcor) :
    Fcor → Prop
  /-- It does not concern a transaction. -/
  | kept {s' : Fcor} (h : KeepsFate s s') : Step config isLeader m s s'
  /-- It starts an epoch. -/
  | cleared {s' : Fcor} (hm : m.msg.isTxn = false) (h : Cleared s') : Step config isLeader m s s'
  /-- A transaction is received. -/
  | receive {txn : RequestMessage} (h : m.msg = .txnReceived txn) (hl : isLeader = true)
      (ho : Open s txn.request.sessnum) : Step config isLeader m s (received s txn)
  /-- A replica promises to drop a transaction that has no fate yet. -/
  | promise {txnNum : Stamp} (h : m.msg = .txnTempDrop txnNum)
      (ho : Open s (TxnID.ofStamp txnNum).epochNum)
      (hnone : s.txnResults (TxnID.ofStamp txnNum) = none) :
      Step config isLeader m s (promised config s (TxnID.ofStamp txnNum)
        { shardNum := toInt m.shardNum, replicaNum := toInt m.replicaNum
          viewNum := toInt m.localViewNum.viewNum })

theorem sat_replicaUpcall (config : Configuration) (isLeader : Bool) (m : ErisToFCMessage)
    (s : Fcor) :
    Sat (replicaUpcall config isLeader m) s (fun _ s' _ => Step config isLeader m s s')
      (fun s' _ => Step config isLeader m s s') := by
  unfold replicaUpcall
  simp only [sat_ite, sat_pure, not_not]
  refine ⟨fun _ => .kept (.refl s), fun hl => ?_⟩
  cases hm : m.msg with
  | txnInfoReq txnNum =>
    exact sat_handleTxnInfoReq.mono (fun _ _ _ h => .kept (h ▸ .refl s)) (fun _ _ h => h.elim)
  | txnReceived txn =>
    refine sat_handleTxnReceived.mono (fun _ s' _ h => ?_) (fun _ _ h => h.elim)
    split_ifs at h with ho
    · exact h ▸ .receive hm hl ho
    · exact .kept (h ▸ .refl s)
  | txnTempDrop txnNum =>
    refine sat_handleTxnTempDropped.mono (fun _ s' _ h => ?_) (fun _ _ h => h.elim)
    split_ifs at h with ho
    · exact h ▸ .promise hm ho.1 ho.2
    · exact .kept (h ▸ .refl s)
  | epochChangeReq newEpochNum =>
    exact sat_handleEpochChangeReq.mono (fun _ _ _ h => .kept h.1) (fun _ _ h => .kept h.1)
  | epochChangeAck ack =>
    exact sat_handleEpochChangeAck.mono (fun _ _ _ h => h.1.elim .kept (.cleared (by rw [hm]; rfl)))
      (fun _ _ h => .kept h.1)
  | epochChangeStateTransferAck ack =>
    exact sat_handleEpochChangeStateTransferAck.mono (fun _ _ _ h => h.1.elim .kept (.cleared (by rw [hm]; rfl)))
      (fun _ _ h => .kept h.1)
  | notSet => exact .kept (.refl s)

/-! ### Sequences of operations -/

/-- The state after a sequence of operations. -/
def Fcor.after (config : Configuration) (ops : List (Bool × ErisToFCMessage)) : Fcor :=
  (applyLog config ops Fcor.initial).2.1

/-- What every operation of a sequence keeps holds after it. -/
theorem applyLog_invariant {I : Fcor → Prop} {ops : List (Bool × ErisToFCMessage)}
    (hstep : ∀ op ∈ ops, ∀ s s', Step config op.1 op.2 s s' → I s → I s') :
    ∀ {s : Fcor}, I s → I (applyLog config ops s).2.1 := by
  intro s hs
  have hrun : Sat (applyLog config ops) s (fun _ s' _ => I s') (fun s' _ => I s') := by
    refine sat_forEach (fun rest t _ => I t ∧ ∀ op ∈ rest, op ∈ ops) ⟨hs, fun _ h => h⟩ ?_ |>.mono
      (fun _ _ _ h => h.1) (fun _ _ h => h)
    rintro op rest t _ ⟨ht, hrest⟩
    have hop := hstep op (hrest op (List.mem_cons_self ..)) t
    exact (sat_replicaUpcall config op.1 op.2 t).mono
      (fun _ t' _ h => ⟨hop t' h ht, fun x hx => hrest x (List.mem_cons_of_mem _ hx)⟩)
      (fun t' _ h => hop t' h ht)
  exact state_of_sat hrun

/-- What the operations of a second part keep holds after it. -/
theorem after_append {I : Fcor → Prop} {before ops : List (Bool × ErisToFCMessage)}
    (hstep : ∀ op ∈ ops, ∀ s s', Step config op.1 op.2 s s' → I s → I s')
    (h : I (Fcor.after config before)) : I (Fcor.after config (before ++ ops)) := by
  refine state_of_sat (sat_forEach_append.mpr ?_)
  refine (sat_state _ _).mono ?_ ?_
  · rintro _ _ _ rfl
    exact (sat_state _ _).mono (fun _ _ _ hs => hs ▸ applyLog_invariant hstep h)
      (fun _ _ hs => hs ▸ applyLog_invariant hstep h)
  · rintro _ _ rfl
    exact h

theorem after_snoc (config : Configuration) (ops : List (Bool × ErisToFCMessage))
    (op : Bool × ErisToFCMessage) :
    Step config op.1 op.2 (Fcor.after config ops) (Fcor.after config (ops ++ [op])) := by
  refine state_of_sat (sat_forEach_append.mpr ?_)
  refine (sat_state _ _).mono ?_ ?_
  · rintro _ _ _ rfl
    simp only [forEach, sat_bind, sat_pure]
    exact sat_replicaUpcall ..
  · rintro _ _ rfl
    exact .kept (.refl _)

/-! ### The ids of a transaction share one fate -/

/-- The transactions the operations report. -/
def reported (ops : List (Bool × ErisToFCMessage)) : List RequestMessage :=
  ops.filterMap fun op => match op.2.msg with
    | .txnReceived txn => some txn
    | _ => none

theorem mem_reported {ops : List (Bool × ErisToFCMessage)} {op : Bool × ErisToFCMessage}
    {txn : RequestMessage} (hop : op ∈ ops) (h : op.2.msg = .txnReceived txn) :
    txn ∈ reported ops := by
  refine List.mem_filterMap.mpr ⟨op, hop, ?_⟩
  rw [h]

/-- Each id belongs to one transaction. -/
def OneTxn (txns : List RequestMessage) : Prop :=
  ∀ txn ∈ txns, ∀ txn' ∈ txns, ∀ id ∈ txnIDs txn, id ∈ txnIDs txn' → txnIDs txn ⊆ txnIDs txn'

instance (txns : List RequestMessage) : Decidable (OneTxn txns) :=
  inferInstanceAs (Decidable (∀ txn ∈ txns, ∀ txn' ∈ txns, ∀ id ∈ txnIDs txn, _ → _))

/-- The id has been found. -/
def Found (s : Fcor) (id : TxnID) : Prop := (s.txnResults id).map TxnResult.fate = some .found

/-- What has been found has been found with the whole of its transaction. -/
def FoundWhole (txns : List RequestMessage) (s : Fcor) : Prop :=
  ∀ id, Found s id → ∃ txn ∈ txns, id ∈ txnIDs txn ∧ ∀ id' ∈ txnIDs txn, Found s id'

theorem Found.received {txn : RequestMessage} {id : TxnID} (h : Found s id) :
    Found (received s txn) id := by
  unfold Found at h ⊢
  obtain ⟨r, hr, hf⟩ := Option.map_eq_some_iff.mp h
  simp only [Eris.received, hr]
  split_ifs <;> simp [hf]

/-- A transaction of which nothing is dropped is found as a whole. -/
theorem found_of_received {txn : RequestMessage} (h : ¬ shouldDrop s (txnIDs txn)) :
    ∀ id ∈ txnIDs txn, Found (received s txn) id := by
  intro id hid
  unfold Found
  simp only [received, if_pos hid, Option.map_some, fateOf, if_neg h]
  cases hr : s.txnResults id with
  | none => rfl
  | some r =>
    cases hf : r.fate with
    | found => simp [hf]
    | dropped => exact (h ⟨id, hid, by rw [hr, Option.map_some, hf]⟩).elim

theorem Step.foundWhole {isLeader : Bool} {m : ErisToFCMessage} {txns : List RequestMessage}
    (h : Step config isLeader m s s') (hm : ∀ txn, m.msg = .txnReceived txn → txn ∈ txns)
    (hs : FoundWhole txns s) : FoundWhole txns s' := by
  have hgrow {t : Fcor} (hback : ∀ id, Found t id → Found s id)
      (hkeep : ∀ id, Found s id → Found t id) : FoundWhole txns t := fun id hid => by
    obtain ⟨txn, htxn, hmem, hall⟩ := hs id (hback id hid)
    exact ⟨txn, htxn, hmem, fun id' hid' => hkeep id' (hall id' hid')⟩
  cases h with
  | kept h =>
    have heq : ∀ id, Found s' id ↔ Found s id := fun id => by rw [Found, Found, h.results]
    exact hgrow (fun id => (heq id).mp) (fun id => (heq id).mpr)
  | cleared _ h =>
    intro id hid
    rw [Found, h.results id] at hid
    cases hid
  | @receive txn hmsg _ _ =>
    by_cases hd : shouldDrop s (txnIDs txn)
    · refine hgrow (fun id hid => ?_) (fun id hid => hid.received)
      simp only [Found, received, fateOf, if_pos hd] at hid ⊢
      split_ifs at hid
      · cases hr : s.txnResults id with
        | none => simp [hr] at hid
        | some r => simpa [hr] using hid
      · exact hid
    · intro id hid
      by_cases hmem : id ∈ txnIDs txn
      · exact ⟨txn, hm txn hmsg, hmem, found_of_received hd⟩
      · have hold : Found s id := by simpa only [Found, received, if_neg hmem] using hid
        obtain ⟨txn', htxn', hmem', hall⟩ := hs id hold
        exact ⟨txn', htxn', hmem', fun id' hid' => (hall id' hid').received⟩
  | @promise txnNum _ _ hnone =>
    refine hgrow (fun id hid => ?_) (fun id hid => ?_)
    · rcases results_promised config s (TxnID.ofStamp txnNum) id _ with h | ⟨_, _, h⟩
      · rwa [Found, h] at hid
      · rw [Found, h] at hid
        cases hid
    · rcases results_promised config s (TxnID.ofStamp txnNum) id _ with h | ⟨rfl, _, _⟩
      · rwa [Found, h]
      · rw [Found, hnone] at hid
        cases hid

/-- A fate is final as long as no epoch starts. -/
theorem Step.final {isLeader : Bool} {m : ErisToFCMessage} {id : TxnID} {r : TxnResult}
    (h : Step config isLeader m s s') (hm : m.msg.isTxn = true)
    (hs : s.txnResults id = some r) : s'.txnResults id = some r := by
  cases h with
  | kept h => rw [h.results, hs]
  | cleared hm' _ =>
    rw [hm] at hm'
    cases hm'
  | receive _ _ _ =>
    simp only [received, hs, Option.getD_some]
    split_ifs <;> rfl
  | @promise txnNum _ _ hnone =>
    rcases results_promised config s (TxnID.ofStamp txnNum) id _ with h | ⟨rfl, _, _⟩
    · rw [h, hs]
    · rw [hnone] at hs
      cases hs

/-- A transaction on two shards. -/
def twoShardTxn : RequestMessage :=
  { txnid := 1
    type := .independent
    request := { op := "", clientid := 1, clientreqid := 1
                 ops := [{ shard := 0, op := "a", msgnum := 1 }, { shard := 1, op := "b", msgnum := 7 }] } }

/-- A message of replica 0 of shard 0. -/
def fromShard (shardNum : Nat) (msg : ToFCCase) : ErisToFCMessage :=
  { shardNum := shardNum, replicaNum := 0, localViewNum := { viewNum := 0, sessNum := 0 }
    msg := msg }

/-- One replica in each of two shards. -/
def twoShards : Configuration := { n := 1, f := 0, g := 2 }

/-- Both shards promise to drop the first id; then the transaction is received, and dropped. -/
def dropThenReceive : List (Bool × ErisToFCMessage) :=
  [(true, fromShard 0 (.txnTempDrop { shardNum := 0, msgNum := 1 })),
   (true, fromShard 1 (.txnTempDrop { shardNum := 0, msgNum := 1 })),
   (true, fromShard 1 (.txnReceived twoShardTxn))]

end Dsnet.Eris
