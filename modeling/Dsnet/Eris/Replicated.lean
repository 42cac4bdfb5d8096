import Dsnet.Eris.Drops

/-! The failure coordinator as a replicated application: the instances apply the same operations, each
    at a time when its replica leads or follows. A follower returns from `ReplicaUpcall` before it
    looks at the operation, so the instances agree only as long as the operations on which their
    status differs are ones that a leader has nothing to do for (`Idle`). -/

namespace Dsnet.Eris
open Handler

variable {config : Configuration} {s s' : Fcor} {m : ErisToFCMessage}

/-! ### Operations without effect -/

/-- The promise is recorded, or superseded by one of a newer view. -/
def KnownPromise (s : Fcor) (id : TxnID) (record : TxnDropRecord) : Prop :=
  ∃ rs, s.records id record.shardNum = some rs ∧
    ∃ r ∈ rs.toList, r = record ∨ record.viewNum < r.viewNum

/-- The acknowledgement has been counted, and has nothing new about its shard. -/
structure KnownAck (config : Configuration) (s : Fcor) (m : ErisToFCMessage)
    (ack : EpochChangeAck) : Prop where
  view : toInt m.localViewNum.viewNum ≤ (s.latestViewNums (toInt m.shardNum)).getD (-1)
  epoch : ack.lastNormalEpoch ≤ s.lastNormalEpoch
  front : ack.lastNormalEpoch = s.lastNormalEpoch →
    ∃ latest, s.latestMsgNums (toInt m.shardNum) = some latest ∧ ack.opNum ≤ latest.opNum
  counted : ∃ acks, s.epochChangeAcks (toInt m.shardNum) = some acks ∧
    toInt m.replicaNum ∈ acks.toList
  waiting : ¬ canStartEpoch config s

/-- The state transfer has been acknowledged already, and others are outstanding. -/
structure KnownTransfer (s : Fcor) (m : ErisToFCMessage) (ack : EpochChangeStateTransferAck) :
    Prop where
  outstanding : s.pendingStateTransfers.toList ≠ []
  latest : ∃ latest, s.latestMsgNums (toInt m.shardNum) = some latest ∧
    latest.replicaNum = m.replicaNum ∧ latest.opNum = ack.opNum
  drops : ∀ stn ∈ ack.drops, Drops s (toInt m.shardNum) (TxnID.ofStamp stn)
  done : s.pendingStateTransfers.find? (toLex (toInt m.shardNum, toInt m.replicaNum)) = none

/-- A leader that applies the operation goes on as it was. -/
def Idle (config : Configuration) (s : Fcor) (m : ErisToFCMessage) : Prop :=
  match m.msg with
  | .txnInfoReq _ => True
  | .txnReceived txn => Open s txn.request.sessnum →
      ∀ id ∈ txnIDs txn, (s.txnResults id).isSome ∧ s.dropRecords id = none
  | .txnTempDrop txnNum => Open s (TxnID.ofStamp txnNum).epochNum →
      s.txnResults (TxnID.ofStamp txnNum) = none →
      KnownPromise s (TxnID.ofStamp txnNum)
        ⟨toInt m.shardNum, toInt m.replicaNum, toInt m.localViewNum.viewNum⟩ ∧
      ¬ isDropped config s (TxnID.ofStamp txnNum)
  | .epochChangeReq newEpochNum => newEpochNum ≤ s.epochNum ∧
      (newEpochNum ≤ s.lastNormalEpoch → (s.lastStartEpochs (toInt m.shardNum)).isSome)
  | .epochChangeAck ack =>
      if s.status = .normal ∨ s.epochNum ≠ m.localViewNum.sessNum then
        m.localViewNum.sessNum ≤ s.epochNum ∧ (s.lastStartEpochs (toInt m.shardNum)).isSome
      else s.status = .pendingStateTransfer ∨ KnownAck config s m ack
  | .epochChangeStateTransferAck ack =>
      s.status ≠ .pendingStateTransfer ∨ m.localViewNum.sessNum ≠ s.epochNum ∨ KnownTransfer s m ack
  | .notSet => False

/-- Promises of the view of the new one stay, but for one of its replica. -/
theorem siftPromises_of_view {new : TxnDropRecord} : ∀ {l : List TxnDropRecord},
    (∀ r ∈ l, r.viewNum = new.viewNum) → (siftPromises new l).2 = true ∧
      ∀ r ∈ l, r ∈ (siftPromises new l).1 ∨ r.replicaNum = new.replicaNum
  | [], _ => by simp [siftPromises]
  | it :: rest, hl => by
      obtain ⟨hadd, hkeep⟩ := siftPromises_of_view fun r hr => hl r (List.mem_cons_of_mem it hr)
      have hit := hl it (List.mem_cons_self ..)
      unfold siftPromises
      rw [if_neg (by omega), if_neg (by omega)]
      split_ifs with heq
      · refine ⟨rfl, fun r hr => ?_⟩
        rcases List.mem_cons.mp hr with rfl | hr
        · exact Or.inr heq
        · exact Or.inl hr
      · refine ⟨hadd, fun r hr => ?_⟩
        rcases List.mem_cons.mp hr with rfl | hr
        · exact Or.inl (List.mem_cons_self ..)
        · exact (hkeep r hr).imp_left (List.mem_cons_of_mem _)

/-- A promise of an older view than the others is not added. -/
theorem addPromise_of_newer {rs : StdSet TxnDropRecord} {record r : TxnDropRecord}
    (h : OneView rs.toList) (hr : r ∈ rs.toList) (hlt : record.viewNum < r.viewNum) :
    addPromise rs record = rs := by
  obtain ⟨l, hl⟩ := rs
  cases l with
  | nil => cases hr
  | cons it rest =>
    have hnewer : record.viewNum < it.viewNum := by
      rw [h.view it (List.mem_cons_self ..) r hr]
      exact hlt
    have hsift : siftPromises record (it :: rest) = (it :: rest, false) := by
      rw [siftPromises, if_neg (by omega), if_pos hnewer]
    refine StdSet.ext_mem fun x => ?_
    simp [addPromise, hsift]

/-- A promise that is there is added in its own place. -/
theorem addPromise_of_mem {rs : StdSet TxnDropRecord} {record : TxnDropRecord}
    (h : OneView rs.toList) (hr : record ∈ rs.toList) : addPromise rs record = rs := by
  obtain ⟨hadd, hkeep⟩ := siftPromises_of_view fun r' hr' => h.view r' hr' record hr
  refine StdSet.ext_mem fun x => ⟨fun hx => ?_, fun hx => ?_⟩
  · exact (mem_addPromise hx).elim (fun heq => heq ▸ hr) fun hx => hx
  · simp only [addPromise, hadd, if_true]
    refine StdSet.mem_insert.mpr ?_
    rcases hkeep x hx with hx' | heq
    · exact Or.inr hx'
    · exact Or.inl (h.replica x hx record hr heq)

theorem addDropRecord_of_known {id : TxnID} {record : TxnDropRecord}
    (hs : ∀ id i rs, s.records id i = some rs → OneView rs.toList)
    (h : KnownPromise s id record) : addDropRecord id record s = s := by
  obtain ⟨rs, hrs, r, hr, hcase⟩ := h
  have hone := hs id record.shardNum rs hrs
  have hadd : addPromise rs record = rs := by
    rcases hcase with rfl | hlt
    · exact addPromise_of_mem hone hr
    · exact addPromise_of_newer hone hr hlt
  have hrec : s.dropRecords id = some (s.records id) := by
    cases hd : s.dropRecords id with
    | none => simp [Fcor.records, hd] at hrs
    | some records => rw [Fcor.records, hd, Option.getD_some]
  unfold addDropRecord
  rw [hrs, Option.getD_some]
  simp only
  rw [hadd, ← hrs, Function.update_eq_self, ← hrec, Function.update_eq_self]

theorem received_of_known {txn : RequestMessage}
    (h : ∀ id ∈ txnIDs txn, (s.txnResults id).isSome ∧ s.dropRecords id = none) :
    received s txn = s := by
  obtain ⟨results, records⟩ := s
  simp only [received, Fcor.mk.injEq, and_true]
  constructor
  · funext id
    split_ifs with hid
    · obtain ⟨r, hr⟩ := Option.isSome_iff_exists.mp (h id hid).1
      simp only at hr
      rw [hr, Option.getD_some]
    · rfl
  · funext id
    split_ifs with hid
    · exact (h id hid).2.symm
    · rfl

theorem recordAck_of_known {ack : EpochChangeAck} (h : KnownAck config s m ack) :
    recordAck (toInt m.shardNum) (toInt m.replicaNum)
      (updateFront (toInt m.shardNum) m.replicaNum ack
        (updateView (toInt m.shardNum) m.localViewNum.viewNum s)) = s := by
  have hview : updateView (toInt m.shardNum) m.localViewNum.viewNum s = s :=
    if_neg (not_lt.mpr h.view)
  have hfront : updateFront (toInt m.shardNum) m.replicaNum ack s = s := by
    unfold updateFront
    split_ifs with heq
    · obtain ⟨latest, hlatest, hop⟩ := h.front heq
      simp only [hlatest, Option.getD_some, if_neg (not_lt.mpr hop)]
      rw [← hlatest, Function.update_eq_self]
    · rfl
  obtain ⟨acks, hacks, hmem⟩ := h.counted
  rw [hview, hfront]
  simp only [recordAck, hacks, Option.getD_some, StdSet.insert_of_mem hmem]
  rw [← hacks, Function.update_eq_self]

theorem recordDrop_of_drops {i : Int} {id : TxnID} (h : Drops s i id) : recordDrop i id s = s := by
  obtain ⟨ids, hids, hmem⟩ := h
  simp only [recordDrop, hids, Option.getD_some, StdSet.insert_of_mem hmem]
  rw [← hids, Function.update_eq_self]

theorem sat_recordDrops {i : Int} {drops : List Stamp}
    (h : ∀ stn ∈ drops, Drops s i (TxnID.ofStamp stn)) :
    Sat (forEach drops fun stn => modify (recordDrop i (TxnID.ofStamp stn))) s
      (fun _ s' (_ : List FCOutput) => s' = s) (fun _ _ => False) := by
  refine (sat_forEach (fun rest t _ => t = s ∧ ∀ stn ∈ rest, Drops s i (TxnID.ofStamp stn))
    ⟨rfl, h⟩ ?_).mono (fun _ _ _ h => h.1) (fun _ _ h => h)
  rintro stn rest t _ ⟨rfl, hrest⟩
  rw [sat_modify, recordDrop_of_drops (hrest stn (List.mem_cons_self ..))]
  exact ⟨rfl, fun x hx => hrest x (List.mem_cons_of_mem _ hx)⟩

/-- A leader goes on as it was after an idle operation. -/
theorem sat_replicaUpcall_of_idle (hs : ∀ id i rs, s.records id i = some rs → OneView rs.toList)
    (h : Idle config s m) :
    Sat (replicaUpcall config true m) s (fun _ s' _ => s' = s) (fun _ _ => False) := by
  unfold replicaUpcall
  unfold Idle at h
  simp only [not_true_eq_false, if_false]
  cases hm : m.msg with
  | txnInfoReq txnNum => exact sat_handleTxnInfoReq
  | txnReceived txn =>
    simp only [hm] at h
    refine sat_handleTxnReceived.mono (fun _ s' _ hs' => ?_) (fun _ _ hf => hf)
    rw [hs']
    split_ifs with ho
    · exact received_of_known (h ho)
    · rfl
  | txnTempDrop txnNum =>
    simp only [hm] at h
    refine sat_handleTxnTempDropped.mono (fun _ s' _ hs' => ?_) (fun _ _ hf => hf)
    rw [hs']
    split_ifs with ho
    · obtain ⟨hknown, hnot⟩ := h ho.1 ho.2
      simp only [promised, addDropRecord_of_known hs hknown, if_neg hnot]
    · rfl
  | epochChangeReq newEpochNum =>
    simp only [hm] at h
    simp only [handleEpochChangeReq, sat_bind, sat_get, sat_ite, sat_when, sat_ofOption, sat_emit]
    refine ⟨fun _ => ⟨fun hle => ⟨fun _ _ => trivial, fun hnone => ?_⟩, fun _ => trivial⟩,
      fun hlt => (hlt h.1).elim⟩
    have hsome := h.2 hle
    rw [hnone] at hsome
    cases hsome
  | epochChangeAck ack =>
    simp only [hm] at h
    simp only [handleEpochChangeAck, sat_bind, sat_get, sat_ite, sat_when, sat_whenSome,
      sat_ofOption, sat_assert, sat_emit, sat_modify]
    refine ⟨fun hover => ?_, fun hnow => ?_⟩
    · rw [if_pos hover] at h
      refine ⟨fun _ => ⟨fun _ _ => trivial, fun hnone => ?_⟩, fun hlt => hlt h.1⟩
      have hsome := h.2
      rw [hnone] at hsome
      cases hsome
    · rw [if_neg hnow] at h
      refine ⟨fun _ => ⟨fun _ _ => trivial, fun _ => trivial⟩, fun hpending => ?_⟩
      have hknown := h.resolve_left hpending
      refine ⟨fun _ => ⟨fun hcan => ?_, fun _ => recordAck_of_known hknown⟩, fun hlt => ?_⟩
      · rw [recordAck_of_known hknown] at hcan
        exact (hknown.waiting hcan).elim
      · exact hlt hknown.epoch
  | epochChangeStateTransferAck ack =>
    simp only [hm] at h
    simp only [handleEpochChangeStateTransferAck, sat_bind, sat_get, sat_ite, sat_pure, sat_assert,
      sat_ofOption, sat_modify]
    refine ⟨fun _ => trivial, fun hnow => ?_⟩
    obtain ⟨hout, ⟨latest, hlatest, hrep, hop⟩, hdrops, hdone⟩ :=
      (h.resolve_left fun hst => hnow (.inl hst)).resolve_left fun hse => hnow (.inr hse)
    refine ⟨fun _ => ⟨fun l hl => ?_, fun hnone => ?_⟩, fun hnil => (hnil hout).elim⟩
    · obtain rfl := Option.some.inj (hlatest.symm.trans hl)
      have hsame : Function.update s.latestMsgNums (toInt m.shardNum)
          (some { latest with opNum := ack.opNum }) = s.latestMsgNums := by
        rw [← hop, ← hlatest, Function.update_eq_self]
      refine ⟨fun _ => ⟨fun _ => ?_, fun hlt => hlt hop.le⟩, fun hne => hne hrep⟩
      rw [hsame]
      refine (sat_recordDrops (s := s) hdrops).mono ?_ (fun _ _ hf => hf)
      rintro _ t _ rfl
      rw [StdMap.erase_of_find?_eq_none hdone, sat_when]
      exact ⟨fun hnil => (hout hnil).elim, fun _ => rfl⟩
    · rw [hlatest] at hnone
      cases hnone
  | notSet =>
    simp only [hm] at h

/-! ### Two instances -/

/-- An instance applies an operation; one whose process has ended applies nothing. -/
def applyUpcall (config : Configuration) (isLeader : Bool) (m : ErisToFCMessage)
    (s : Option Fcor) : Option Fcor := s.bind fun t => (fcorSystem config).step t (isLeader, m)

/-- Two instances that apply the same operations; an event says which of them lead. -/
def twoInstances (config : Configuration) :
    System (Option Fcor × Option Fcor) (Bool × Bool × ErisToFCMessage) where
  init := (some Fcor.initial, some Fcor.initial)
  step s e := some (applyUpcall config e.1 e.2.2 s.1, applyUpcall config e.2.1 e.2.2 s.2)

/-- The instances have the same status, or the operation is idle. -/
def SameOrIdle (config : Configuration) (s : Option Fcor × Option Fcor)
    (e : Bool × Bool × ErisToFCMessage) : Prop :=
  e.1 = e.2.1 ∨ ∀ t, s.1 = some t → Idle config t e.2.2

/-- A step of an instance that is running. -/
theorem step_of_applyUpcall {isLeader : Bool}
    (h : applyUpcall config isLeader m (some s) = some s') :
    Step config isLeader m s s' := by
  simp only [applyUpcall, Option.bind_some, fcorSystem] at h
  rcases (sat_replicaUpcall config isLeader m s).cases with ⟨_, t, o, hm, ht⟩ | ⟨t, o, hm, _⟩
  · rw [hm] at h
    exact Option.some.inj h ▸ ht
  · rw [hm] at h
    cases h

/-- An idle operation leaves a running instance as it is, whatever its status. -/
theorem applyUpcall_of_idle (hs : ∀ id i rs, s.records id i = some rs → OneView rs.toList)
    (h : Idle config s m) (isLeader : Bool) :
    applyUpcall config isLeader m (some s) = some s := by
  simp only [applyUpcall, Option.bind_some, fcorSystem]
  cases isLeader with
  | false => rfl
  | true =>
    rcases (sat_replicaUpcall_of_idle hs h).cases with ⟨_, t, o, hm, rfl⟩ | ⟨_, _, _, hf⟩
    · rw [hm]
    · exact hf.elim

/-- Two instances stay in the same state, whatever their leader status, as long as the operations on
    which it differs are idle. -/
theorem instances_agree {past : List (Option Fcor × Option Fcor)} {s s' : Option Fcor}
    (h : Run (twoInstances config) (SameOrIdle config) past (s, s')) : s = s' := by
  -- with it goes that the promises are of one view, which makes an idle promise one
  have hinv : s = s' ∧ ∀ t, s = some t → ∃ ops, GoodRecords ops t := by
    refine h.invariant (I := fun _ p => p.1 = p.2 ∧ ∀ t, p.1 = some t → ∃ ops, GoodRecords ops t)
      ?_ ?_
    · refine ⟨rfl, fun t ht => ⟨[], ?_⟩⟩
      obtain rfl := Option.some.inj ht
      intro id i rs hrs
      simp [Fcor.records, Fcor.initial] at hrs
    · rintro _ ⟨a, b⟩ ⟨l, l', m⟩ _ _ ⟨hab, hgood⟩ hcond hstep
      obtain rfl : a = b := hab
      obtain rfl := Option.some.inj hstep
      cases a with
      | none => exact ⟨rfl, fun t ht => by simp [applyUpcall] at ht⟩
      | some t =>
        obtain ⟨ops, hops⟩ := hgood t rfl
        constructor
        · rcases hcond with hsame | hidle
          · obtain rfl : l = l' := hsame
            rfl
          · have hone := fun id i rs hrs => (hops id i rs hrs).oneView
            have hkeep := applyUpcall_of_idle hone (hidle t rfl)
            exact (hkeep l).trans (hkeep l').symm
        · intro t' ht'
          have hall : GoodRecords ((l, m) :: ops) t := hops.mono (List.subset_cons_self ..)
          have hop : (l, m) ∈ (l, m) :: ops := List.mem_cons_self ..
          exact ⟨_, Step.goodRecords hop (step_of_applyUpcall ht') hall⟩
  exact hinv.1

/-- Both instances lead when the transaction is found; then one of them follows, and a replica asks for
    it. -/
theorem instances_agree_found : ∃ past s s',
    Run (twoInstances twoShards) (SameOrIdle twoShards) past (s, s') ∧ s = s' ∧
      s.map (·.txnResults (TxnID.of 0 1 0)) = some (some { fate := .found, txn := twoShardTxn }) := by
  have hrun := Run.next (Run.next (C := SameOrIdle twoShards) (Run.start (S := twoInstances twoShards))
    (e := (true, true, fromShard 0 (.txnReceived twoShardTxn))) (.inl rfl) rfl)
    (e := (false, true, fromShard 1 (.txnInfoReq { shardNum := 1, msgNum := 7 })))
    (.inr fun _ _ => trivial) rfl
  exact ⟨_, _, _, hrun, instances_agree hrun, by decide⟩

/-- An instance whose replica follows does not learn of the transaction. -/
theorem follower_misses_fate : ∃ past s s',
    Run (twoInstances twoShards) (fun _ _ => True) past (some s, some s') ∧
    s.txnResults ≠ s'.txnResults := by
  refine ⟨_, _, _, .next .start (e := (true, false, fromShard 0 (.txnReceived twoShardTxn))) trivial
    rfl, fun heq => ?_⟩
  have hid := congrFun heq (TxnID.of 0 1 0)
  revert hid
  decide

end Dsnet.Eris
