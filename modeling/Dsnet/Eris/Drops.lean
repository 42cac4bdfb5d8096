import Dsnet.Lib.Run
import Dsnet.Eris.Fate

/-! The drops of the failure coordinator. A transaction is decided dropped on the promises of a quorum
    of each shard in one view, its leader among them (`drop_needs_promises`): the records it keeps are
    of one view, with one of each replica, and each stands for a promise that was made.

    What is dropped is to be recorded for the next epoch change. `HandleTxnTempDropped` records it,
    `HandleTxnReceived` does not: `drops_recorded` says that nothing else goes wrong. -/

namespace Dsnet.Eris
open Handler

variable {config : Configuration} {s s' : Fcor} {ops : List (Bool × ErisToFCMessage)}

/-! ### The promises of a shard -/

/-- Among the operations is the promise of a replica, in a view, to drop the id. -/
def Promised (ops : List (Bool × ErisToFCMessage)) (id : TxnID)
    (shardNum replicaNum viewNum : Int) : Prop :=
  ∃ op ∈ ops, ∃ txnNum, op.2.msg = .txnTempDrop txnNum ∧ TxnID.ofStamp txnNum = id ∧
    toInt op.2.shardNum = shardNum ∧ toInt op.2.replicaNum = replicaNum ∧
    toInt op.2.localViewNum.viewNum = viewNum

/-- The promises are of one view, with one of each replica. -/
structure OneView (l : List TxnDropRecord) : Prop where
  view : ∀ r ∈ l, ∀ r' ∈ l, r.viewNum = r'.viewNum
  replica : ∀ r ∈ l, ∀ r' ∈ l, r.replicaNum = r'.replicaNum → r = r'

theorem OneView.of_sublist {l l' : List TxnDropRecord} (h : OneView l) (hl : l'.Sublist l) :
    OneView l' :=
  ⟨fun r hr r' hr' => h.view r (hl.subset hr) r' (hl.subset hr'),
    fun r hr r' hr' => h.replica r (hl.subset hr) r' (hl.subset hr')⟩

/-- What is left when a promise is to be added is of its view, and from other replicas. -/
theorem siftPromises_of_added {new : TxnDropRecord} : ∀ {l : List TxnDropRecord}, OneView l →
    l.Nodup → (siftPromises new l).2 = true →
    ∀ r ∈ (siftPromises new l).1, r.viewNum = new.viewNum ∧ r.replicaNum ≠ new.replicaNum
  | [], _, _, _ => by simp [siftPromises]
  | it :: rest, hl, hnd, hadd => by
      have htail := hl.of_sublist (List.sublist_cons_self it rest)
      obtain ⟨hnotin, hnd'⟩ := List.nodup_cons.mp hnd
      unfold siftPromises at hadd ⊢
      split_ifs at hadd ⊢ with hlt hgt heq
      · exact siftPromises_of_added htail hnd' hadd
      · intro r hr
        have hmem := List.mem_cons_of_mem it hr
        refine ⟨?_, fun hrep => ?_⟩
        · have := hl.view r hmem it (List.mem_cons_self ..)
          omega
        · have hit := hl.replica r hmem it (List.mem_cons_self ..) (hrep.trans heq.symm)
          exact hnotin (hit ▸ hr)
      · intro r hr
        rcases List.mem_cons.mp hr with rfl | hr
        · exact ⟨by omega, heq⟩
        · exact siftPromises_of_added htail hnd' hadd r hr

/-- `AddDropRecord` keeps the promises of one view, with one of each replica. -/
theorem oneView_addPromise {rs : StdSet TxnDropRecord} (h : OneView rs.toList)
    (new : TxnDropRecord) : OneView (addPromise rs new).toList := by
  have hsub := siftPromises_sublist new rs.toList
  have hkept := h.of_sublist hsub
  unfold addPromise
  simp only
  split_ifs with hadd
  · have hnew := siftPromises_of_added h rs.nodup hadd
    constructor
    · intro r hr r' hr'
      rcases StdSet.mem_insert.mp hr with rfl | hr <;> rcases StdSet.mem_insert.mp hr' with rfl | hr'
      · rfl
      · exact (hnew r' hr').1.symm
      · exact (hnew r hr).1
      · exact hkept.view r hr r' hr'
    · intro r hr r' hr' heq
      rcases StdSet.mem_insert.mp hr with rfl | hr <;> rcases StdSet.mem_insert.mp hr' with rfl | hr'
      · rfl
      · exact ((hnew r' hr').2 heq.symm).elim
      · exact ((hnew r hr).2 heq).elim
      · exact hkept.replica r hr r' hr' heq
  · exact hkept

/-- A promise after an addition is the new one, or was there. -/
theorem mem_addPromise {rs : StdSet TxnDropRecord} {new r : TxnDropRecord}
    (h : r ∈ (addPromise rs new).toList) : r = new ∨ r ∈ rs.toList := by
  have hsub := siftPromises_sublist new rs.toList
  unfold addPromise at h
  simp only at h
  split_ifs at h
  · exact (StdSet.mem_insert.mp h).imp_right fun hr => hsub.subset hr
  · exact Or.inr (hsub.subset h)

/-- The promises kept for an id and a shard: of one view, with one of each replica, and all made. -/
structure GoodPromises (ops : List (Bool × ErisToFCMessage)) (id : TxnID) (shardNum : Int)
    (rs : StdSet TxnDropRecord) : Prop where
  oneView : OneView rs.toList
  made : ∀ r ∈ rs.toList, Promised ops id shardNum r.replicaNum r.viewNum

/-- All promises kept are good. -/
def GoodRecords (ops : List (Bool × ErisToFCMessage)) (s : Fcor) : Prop :=
  ∀ id shardNum rs, s.records id shardNum = some rs → GoodPromises ops id shardNum rs

theorem records_addDropRecord (s : Fcor) (id id' : TxnID) (record : TxnDropRecord) (i : Int) :
    (addDropRecord id record s).records id' i =
      if id' = id ∧ i = record.shardNum then
        some (addPromise ((s.records id i).getD StdSet.empty) record)
      else s.records id' i := by
  unfold addDropRecord Fcor.records
  simp only
  by_cases hid : id' = id
  · subst hid
    by_cases hi : i = record.shardNum
    · subst hi
      simp
    · simp [hi]
  · simp [hid]

theorem GoodRecords.mono {ops' : List (Bool × ErisToFCMessage)} (h : GoodRecords ops s)
    (hsub : ops ⊆ ops') : GoodRecords ops' s := fun id i rs hrs =>
  ⟨(h id i rs hrs).oneView, fun r hr =>
    let ⟨op, hop, hp⟩ := (h id i rs hrs).made r hr
    ⟨op, hsub hop, hp⟩⟩

theorem GoodRecords.addDropRecord {id : TxnID} {record : TxnDropRecord} (h : GoodRecords ops s)
    (hp : Promised ops id record.shardNum record.replicaNum record.viewNum) :
    GoodRecords ops (addDropRecord id record s) := by
  intro id' i rs hrs
  rw [records_addDropRecord] at hrs
  split_ifs at hrs with hi
  · obtain ⟨rfl, rfl⟩ := hi
    obtain rfl := Option.some.inj hrs
    have hold : GoodPromises ops id' record.shardNum
        ((s.records id' record.shardNum).getD StdSet.empty) := by
      cases hr : s.records id' record.shardNum with
      | none => exact ⟨⟨by simp, by simp⟩, by simp⟩
      | some rs => exact h _ _ _ hr
    refine ⟨oneView_addPromise hold.oneView record, fun r hr => ?_⟩
    rcases mem_addPromise hr with rfl | hr
    · exact hp
    · exact hold.made r hr
  · exact h id' i rs hrs

theorem Step.goodRecords {op : Bool × ErisToFCMessage} (hop : op ∈ ops)
    (h : Step config op.1 op.2 s s') (hs : GoodRecords ops s) : GoodRecords ops s' := by
  cases h with
  | kept h =>
    intro id i rs hrs
    refine hs id i rs ?_
    rw [← hrs, Fcor.records, Fcor.records, h.records]
  | cleared _ h =>
    intro id i rs hrs
    simp [Fcor.records, h.records id] at hrs
  | @receive txn _ _ _ =>
    intro id i rs hrs
    simp only [Fcor.records, received] at hrs
    split_ifs at hrs
    · cases hrs
    · exact hs id i rs hrs
  | @promise txnNum hm _ _ =>
    have hadd : GoodRecords ops (addDropRecord (TxnID.ofStamp txnNum)
        ⟨toInt op.2.shardNum, toInt op.2.replicaNum, toInt op.2.localViewNum.viewNum⟩ s) :=
      hs.addDropRecord ⟨op, hop, txnNum, hm, rfl, rfl, rfl, rfl⟩
    unfold promised
    simp only
    split_ifs
    · exact hadd
    · exact hadd

theorem goodRecords_after (config : Configuration) {all : List (Bool × ErisToFCMessage)}
    (h : ops ⊆ all) :
    GoodRecords all (Fcor.after config ops) := by
  refine applyLog_invariant (fun op hop s s' hstep hs => hstep.goodRecords (h hop) hs) ?_
  intro id i rs hrs
  simp [Fcor.records, Fcor.initial] at hrs

/-- Enough promises of a shard are those of a quorum of its replicas in one view, with its leader. -/
theorem quorum_of_shardDropped {id : TxnID} {i : Int} {rs : StdSet TxnDropRecord}
    (h : GoodPromises ops id i rs) (hd : shardDropped config rs) :
    ∃ view : Int, ∃ Q : Finset Int, config.quorumSize ≤ Q.card ∧
      (config.getLeaderIndex (toView view) : Int) ∈ Q ∧ ∀ r ∈ Q, Promised ops id i r view := by
  obtain ⟨hsize, leader, hleader, hindex⟩ := hd
  refine ⟨leader.viewNum, (rs.toList.map TxnDropRecord.replicaNum).toFinset, ?_, ?_, ?_⟩
  · have hnd : (rs.toList.map TxnDropRecord.replicaNum).Nodup :=
      rs.nodup.map_on fun r hr r' hr' => h.oneView.replica r hr r' hr'
    rw [List.toFinset_card_of_nodup hnd, List.length_map]
    exact Nat.le_of_not_lt hsize
  · rw [List.mem_toFinset, ← hindex]
    exact List.mem_map_of_mem hleader
  · intro r hr
    obtain ⟨record, hrecord, rfl⟩ := List.mem_map.mp (List.mem_toFinset.mp hr)
    rw [← h.oneView.view record hrecord leader hleader]
    exact h.made record hrecord

/-- The records are of one view with one of each replica; and an id that a promise decides has been
    promised by a quorum of each shard, in one view and with its leader. -/
theorem drop_needs_promises (config : Configuration) (ops : List (Bool × ErisToFCMessage)) :
    (∀ id shardNum rs, (Fcor.after config ops).records id shardNum = some rs →
      (∀ r ∈ rs.toList, ∀ r' ∈ rs.toList, r.viewNum = r'.viewNum) ∧
      ∀ r ∈ rs.toList, ∀ r' ∈ rs.toList, r.replicaNum = r'.replicaNum → r = r') ∧
    ∀ isLeader m txnNum id r, m.msg = .txnTempDrop txnNum →
      (Fcor.after config ops).txnResults id = none →
      (Fcor.after config (ops ++ [(isLeader, m)])).txnResults id = some r →
      ∀ shardNum : Int, 0 ≤ shardNum → shardNum < config.g →
        ∃ view : Int, ∃ Q : Finset Int, config.quorumSize ≤ Q.card ∧
          (config.getLeaderIndex (toView view) : Int) ∈ Q ∧
          ∀ r ∈ Q, Promised (ops ++ [(isLeader, m)]) id shardNum r view := by
  refine ⟨fun id i rs hrs => ?_, fun isLeader m txnNum id r hm hnone hsome i hi hig => ?_⟩
  · have hgood := goodRecords_after config (List.Subset.refl ops) id i rs hrs
    exact ⟨hgood.oneView.view, hgood.oneView.replica⟩
  · have hall := goodRecords_after config (List.subset_append_left ops [(isLeader, m)])
    have hstep := after_snoc config ops (isLeader, m)
    generalize Fcor.after config (ops ++ [(isLeader, m)]) = s' at hstep hsome
    cases hstep with
    | kept h =>
      rw [h.results, hnone] at hsome
      cases hsome
    | cleared _ h =>
      rw [h.results] at hsome
      cases hsome
    | receive h _ _ =>
      rw [hm] at h
      cases h
    | @promise stn h _ _ =>
      rcases results_promised config (Fcor.after config ops) (TxnID.ofStamp stn) id _
        with heq | ⟨rfl, hd, _⟩
      · rw [heq, hnone] at hsome
        cases hsome
      · obtain ⟨k, rfl⟩ := Int.eq_ofNat_of_zero_le hi
        have hshard := hd k (List.mem_range.mpr (by omega))
        have hgood : GoodRecords (ops ++ [(isLeader, m)]) (addDropRecord (TxnID.ofStamp stn)
            ⟨toInt m.shardNum, toInt m.replicaNum, toInt m.localViewNum.viewNum⟩
            (Fcor.after config ops)) :=
          hall.addDropRecord ⟨(isLeader, m), by simp, stn, h, rfl, rfl, rfl, rfl⟩
        cases hrs : (addDropRecord (TxnID.ofStamp stn)
            ⟨toInt m.shardNum, toInt m.replicaNum, toInt m.localViewNum.viewNum⟩
            (Fcor.after config ops)).records (TxnID.ofStamp stn) k with
        | none =>
          rw [hrs] at hshard
          exact hshard.elim
        | some rs =>
          rw [hrs] at hshard
          exact quorum_of_shardDropped (hgood _ _ _ hrs) hshard

/-- The second shard's promise decides the drop of `dropThenReceive`. -/
theorem drop_needs_promises_twoShards :
    ∃ view : Int, ∃ Q : Finset Int, twoShards.quorumSize ≤ Q.card ∧
      (twoShards.getLeaderIndex (toView view) : Int) ∈ Q ∧
      ∀ r ∈ Q, Promised (dropThenReceive.take 2) (TxnID.of 0 1 0) 0 r view :=
  (drop_needs_promises twoShards (dropThenReceive.take 1)).2 true
    (fromShard 1 (.txnTempDrop { shardNum := 0, msgNum := 1 })) { shardNum := 0, msgNum := 1 }
    (TxnID.of 0 1 0) { fate := .dropped, txn := RequestMessage.blank } rfl (by decide) (by decide)
    0 (by decide) (by decide)

/-! ### What an epoch change carries -/

theorem announces_sendResult {t : Fcor} {id : TxnID} :
    Sat (sendResult id) t (fun _ _ o => AllAnnounce s o) (fun _ o => AllAnnounce s o) := by
  simp only [sendResult, sat_bind, sat_get, sat_ofOption, sat_emit]
  refine ⟨fun r _ => .one ?_, fun _ => .nil s⟩
  split_ifs <;> trivial

theorem announces_handleTxnReceived {txn : RequestMessage} :
    Sat (handleTxnReceived txn) s (fun _ _ o => AllAnnounce s o) (fun _ o => AllAnnounce s o) := by
  have happ : ∀ o o', AllAnnounce s o → AllAnnounce s o' → AllAnnounce s (o ++ o') :=
    fun _ _ => AllAnnounce.append
  have hclear : ∀ id, Keeps (fun _ => True) (fun _ => True) (AllAnnounce s) (modify fun s : Fcor =>
      { s with dropRecords := Function.update s.dropRecords id none }) :=
    fun _ _ _ => ⟨trivial, .nil s⟩
  have hcommit : ∀ r id, Keeps (fun _ => True) (fun _ => True) (AllAnnounce s)
      (commitResult r id) := by
    intro r id t _
    simp only [commitResult, sat_bind, sat_get, sat_when, sat_modify]
    refine ⟨fun _ => announces_sendResult.mono (fun _ _ _ ho => ⟨trivial, ho⟩)
      (fun _ _ ho => ⟨trivial, ho⟩), fun _ => ⟨trivial, .nil s⟩⟩
  simp only [handleTxnReceived, sat_bind, sat_get, sat_ite, sat_pure]
  refine ⟨fun _ => .nil s, fun _ => ?_⟩
  refine (Keeps.forEach hclear (.nil s) happ _).sat trivial (fun _ _ o _ ho => ?_)
    (fun _ _ _ ho => ho)
  exact (Keeps.forEach (hcommit _) (.nil s) happ _).sat trivial
    (fun _ _ _ _ ho' => ho.append ho') (fun _ _ _ ho' => ho.append ho')

/-- The start of an epoch that an operation sends lists what was recorded as dropped. -/
theorem announces_replicaUpcall (config : Configuration) (isLeader : Bool) (m : ErisToFCMessage)
    (s : Fcor) :
    Sat (replicaUpcall config isLeader m) s (fun _ _ o => AllAnnounce s o)
      (fun _ o => AllAnnounce s o) := by
  unfold replicaUpcall
  simp only [sat_ite, sat_pure, not_not]
  refine ⟨fun _ => .nil s, fun _ => ?_⟩
  cases hm : m.msg with
  | txnInfoReq txnNum =>
    simp only [handleTxnInfoReq, sat_bind, sat_get, sat_ite, sat_pure, sat_when, sat_emit]
    refine ⟨fun _ => .nil s, fun _ => ⟨fun _ => ?_, fun _ => .one trivial⟩⟩
    exact announces_sendResult.mono (fun _ _ _ ho => ho.append (.one trivial)) (fun _ _ ho => ho)
  | txnReceived txn => exact announces_handleTxnReceived
  | txnTempDrop txnNum =>
    simp only [handleTxnTempDropped, sat_bind, sat_get, sat_ite, sat_pure, sat_modify, sat_when]
    exact ⟨fun _ => .nil s, fun _ => ⟨fun _ => .nil s, fun _ =>
      ⟨fun _ => announces_sendResult, fun _ => .nil s⟩⟩⟩
  | epochChangeReq newEpochNum =>
    exact sat_handleEpochChangeReq.mono (fun _ _ _ h => h.2) (fun _ _ h => h.2)
  | epochChangeAck ack =>
    exact sat_handleEpochChangeAck.mono (fun _ _ _ h => h.2) (fun _ _ h => h.2)
  | epochChangeStateTransferAck ack =>
    exact sat_handleEpochChangeStateTransferAck.mono (fun _ _ _ h => h.2) (fun _ _ h => h.2)
  | notSet => exact .nil s

/-- The runs of one coordinator. -/
def fcorSystem (config : Configuration) : System Fcor (Bool × ErisToFCMessage) where
  init := Fcor.initial
  step s op := match replicaUpcall config op.1 op.2 s with
    | (some _, s', _) => some s'
    | (none, _, _) => none

/-- A transaction is received that drops one of its ids which had no fate. -/
def LateDrop (s : Fcor) : Bool → ToFCCase → Prop
  | true, .txnReceived txn => Open s txn.request.sessnum ∧ shouldDrop s (txnIDs txn) ∧
      ∃ id ∈ txnIDs txn, s.txnResults id = none
  | _, _ => False

instance (s : Fcor) : ∀ isLeader m, Decidable (LateDrop s isLeader m)
  | true, .txnReceived txn => inferInstanceAs (Decidable (Open _ _ ∧ _ ∧ ∃ id ∈ txnIDs txn, _))
  | true, .txnInfoReq _ | true, .txnTempDrop _ | true, .epochChangeReq _ | true, .epochChangeAck _
  | true, .epochChangeStateTransferAck _ | true, .notSet => inferInstanceAs (Decidable False)
  | false, _ => inferInstanceAs (Decidable False)

/-- The operation is not of that kind. -/
def NoLateDrop (s : Fcor) (op : Bool × ErisToFCMessage) : Prop := ¬ LateDrop s op.1 op.2.msg

instance (s : Fcor) (op : Bool × ErisToFCMessage) : Decidable (NoLateDrop s op) :=
  inferInstanceAs (Decidable (¬ _))

/-- Every id whose fate is dropped is recorded for the epoch change, under its shard. -/
def DropsRecorded (s : Fcor) : Prop :=
  ∀ id r, s.txnResults id = some r → r.fate = .dropped → Drops s id.shardNum id

theorem Step.dropsRecorded {op : Bool × ErisToFCMessage} (h : Step config op.1 op.2 s s')
    (hop : NoLateDrop s op) (hs : DropsRecorded s) : DropsRecorded s' := by
  intro id r hr hf
  cases h with
  | kept h => exact h.drops _ _ (hs id r (by rw [← h.results, hr]) hf)
  | cleared _ h =>
    rw [h.results] at hr
    cases hr
  | @receive txn hm hl ho =>
    have hold : s.txnResults id = some r := by
      simp only [received] at hr
      split_ifs at hr with hid
      · cases hsome : s.txnResults id with
        | some r' => rwa [hsome] at hr
        | none =>
          simp only [hsome, Option.getD_none, Option.some.injEq] at hr
          have hd : shouldDrop s (txnIDs txn) := by
            by_contra hd
            simp [← hr, fateOf, hd] at hf
          refine (hop ?_).elim
          rw [hl, hm]
          exact ⟨ho, hd, id, hid, hsome⟩
      · exact hr
    exact hs id r hold hf
  | @promise txnNum _ _ _ =>
    have hsame : ∀ record i id', Drops (addDropRecord (TxnID.ofStamp txnNum) record s) i id' ↔
        Drops s i id' := fun _ _ _ => Iff.rfl
    unfold promised at hr ⊢
    simp only at hr ⊢
    split_ifs at hr ⊢
    · by_cases hid : id = TxnID.ofStamp txnNum
      · subst hid
        exact drops_recordDrop.mpr (.inl ⟨rfl, rfl⟩)
      · have hold : s.txnResults id = some r := by
          simpa [dropped, hid, recordDrop, addDropRecord] using hr
        exact drops_recordDrop.mpr (.inr (hs id r hold hf))
    · exact hs id r hr hf

/-- As long as no received transaction drops an undecided id, what has been dropped is recorded, and
    the message that starts the next epoch on its shard lists it. -/
theorem drops_recorded {past : List Fcor} (h : Run (fcorSystem config) NoLateDrop past s) :
    ∀ id r, s.txnResults id = some r → r.fate = .dropped → Drops s id.shardNum id ∧
      ∀ isLeader m e,
        FCOutput.toGroup id.shardNum (.startEpoch e) ∈ (replicaUpcall config isLeader m s).2.2 →
        id.stamp ∈ e.permDrops := by
  have hrec : DropsRecorded s := by
    refine h.invariant (I := fun _ s => DropsRecorded s) ?_ ?_
    · intro id r hr
      cases hr
    · intro past s op s' _ hs hop hstep
      have hsat := (sat_replicaUpcall config op.1 op.2 s).cases
      simp only [fcorSystem] at hstep
      rcases hsat with ⟨_, t, o, hm, ht⟩ | ⟨t, o, hm, _⟩
      · rw [hm] at hstep
        obtain rfl := Option.some.inj hstep
        exact ht.dropsRecorded hop hs
      · rw [hm] at hstep
        cases hstep
  intro id r hr hf
  refine ⟨hrec id r hr hf, fun isLeader m e he => ?_⟩
  rcases (announces_replicaUpcall config isLeader m s).cases with
    ⟨_, _, o, hm, ho⟩ | ⟨_, o, hm, ho⟩ <;>
  · rw [hm] at he
    exact ho _ he id (hrec id r hr hf)

/-- The fate of the id is dropped, and it is not recorded under its shard. -/
def unrecorded (s : Fcor) (id : TxnID) : Bool :=
  decide ((s.txnResults id).map TxnResult.fate = some .dropped) &&
    decide (id ∉ ((s.droppedTxns id.shardNum).getD StdSet.empty).toList)

theorem drops_recorded_promised : ∃ past s, Run (fcorSystem twoShards) NoLateDrop past s ∧
    Drops s 0 (TxnID.of 0 1 0) := by
  obtain ⟨past, s, hrun, hs⟩ := Run.exists_of_exec (fcorSystem twoShards) NoLateDrop
    (dropThenReceive.take 2)
    (fun s => decide ((s.txnResults (TxnID.of 0 1 0)).map TxnResult.fate = some .dropped))
    (by decide)
  obtain ⟨r, hr, hf⟩ := Option.map_eq_some_iff.mp (of_decide_eq_true hs)
  exact ⟨past, s, hrun, (drops_recorded hrun _ r hr hf).1⟩

/-- The transaction that is received late is dropped on the second shard too, and the epoch change
    will not say so. -/
theorem received_drop_unrecorded : ∃ past s,
    Run (fcorSystem twoShards) (fun _ _ => True) past s ∧
    ∃ id r, s.txnResults id = some r ∧ r.fate = .dropped ∧ ¬ Drops s id.shardNum id := by
  obtain ⟨past, s, hrun, hs⟩ := Run.exists_of_exec (fcorSystem twoShards) (fun _ _ => True)
    dropThenReceive (unrecorded · (TxnID.of 1 7 0)) (by decide)
  obtain ⟨hfate, hnot⟩ := Bool.and_eq_true_iff.mp hs
  obtain ⟨r, hr, hf⟩ := Option.map_eq_some_iff.mp (of_decide_eq_true hfate)
  refine ⟨past, s, hrun, _, r, hr, hf, ?_⟩
  rintro ⟨ids, hids, hmem⟩
  rw [hids] at hnot
  exact of_decide_eq_true hnot hmem

end Dsnet.Eris
