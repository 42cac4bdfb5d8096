import Dsnet.Eris.Handlers
import Dsnet.Lib.Frame
import Mathlib.Data.Finset.Lattice.Fold
import Mathlib.Order.Lattice.Nat

/-! What the failure coordinator of Eris does with the acknowledgements of an epoch change. For each shard it
    keeps the front of the first of the longest logs among those of the last epoch that was normal, and reads
    from it how far every shard has got once each has a quorum. That is the maximum over the acknowledgements
    when the longest log has got furthest, and it is there to be read unless a shard has none or they are all
    empty. -/

namespace Dsnet.Eris
open Handler

/-! ### The front of a shard -/

/-- An acknowledgement, with the message it came in. -/
abbrev Ack := ErisToFCMessage × EpochChangeAck

/-- The latest message number of a shard that an acknowledgement reports. -/
def EpochChangeAck.number (ack : EpochChangeAck) (shard : Nat) : Nat := (ack.logInfo.reverse.lookup shard).getD 0

/-- An acknowledgement is recorded when its log is longer. -/
def advance (o : Option LatestMsgRecord) (x : Ack) : Option LatestMsgRecord :=
  some (if x.2.opNum > (o.getD {}).opNum then .of x.1.replicaNum x.2 else o.getD {})

/-- What is recorded of the acknowledgements of a shard. -/
def front (acks : List Ack) : Option LatestMsgRecord := acks.foldl advance none

/-- The first of the longest logs, which is not empty. -/
def IsFront (acks : List Ack) (x : Ack) : Prop :=
  ∃ before after, acks = before ++ x :: after ∧ 0 < x.2.opNum ∧ (∀ y ∈ before, y.2.opNum < x.2.opNum) ∧
    ∀ y ∈ after, y.2.opNum ≤ x.2.opNum

theorem IsFront.mem {acks : List Ack} {x : Ack} (h : IsFront acks x) : x ∈ acks := by
  obtain ⟨before, after, rfl, -⟩ := h
  simp

/-- The longest log is found, unless there are only empty ones. -/
theorem empty_or_isFront (acks : List Ack) : (∀ x ∈ acks, x.2.opNum = 0) ∨ ∃ x, IsFront acks x := by
  induction acks using List.reverseRecOn with
  | nil => exact .inl fun _ h => by cases h
  | append_singleton acks y ih =>
    rcases ih with hzero | ⟨x, before, after, rfl, hpos, hbefore, hafter⟩
    · rcases Nat.eq_zero_or_pos y.2.opNum with hy | hy
      · refine .inl fun x hx => ?_
        rcases List.mem_append.mp hx with hx | hx
        · exact hzero x hx
        · rwa [List.mem_singleton.mp hx]
      · exact .inr ⟨y, acks, [], rfl, hy, fun x hx => by rwa [hzero x hx], by simp⟩
    · rcases Nat.lt_or_ge x.2.opNum y.2.opNum with hlt | hge
      · refine .inr ⟨y, before ++ x :: after, [], rfl, by omega, fun z hz => ?_, by simp⟩
        rcases List.mem_append.mp hz with hz | hz
        · exact (hbefore z hz).trans hlt
        · rcases List.mem_cons.mp hz with rfl | hz
          · exact hlt
          · exact (hafter z hz).trans_lt hlt
      · refine .inr ⟨x, before, after ++ [y], by simp, hpos, hbefore, fun z hz => ?_⟩
        rcases List.mem_append.mp hz with hz | hz
        · exact hafter z hz
        · rwa [List.mem_singleton.mp hz]

/-- Logs that are not longer are passed over. -/
theorem foldl_advance_of_le : ∀ {acks : List Ack} {r : LatestMsgRecord}, (∀ y ∈ acks, y.2.opNum ≤ r.opNum) →
    acks.foldl advance (some r) = some r
  | [], _, _ => rfl
  | x :: acks, r, h => by
      have hx : ¬ x.2.opNum > r.opNum := Nat.not_lt.mpr (h x (List.mem_cons_self ..))
      rw [List.foldl_cons, advance, Option.getD_some, if_neg hx]
      exact foldl_advance_of_le fun y hy => h y (List.mem_cons_of_mem _ hy)

/-- The record is not of a longer log than there are. -/
theorem opNum_foldl_advance {k : Nat} : ∀ {acks : List Ack} {o : Option LatestMsgRecord},
    (∀ y ∈ acks, y.2.opNum < k) → (o.getD {}).opNum < k → ((acks.foldl advance o).getD {}).opNum < k
  | [], _, _, ho => ho
  | x :: acks, o, h, ho => by
      rw [List.foldl_cons]
      refine opNum_foldl_advance (fun y hy => h y (List.mem_cons_of_mem _ hy)) ?_
      unfold advance
      rw [Option.getD_some]
      split_ifs
      · exact h x (List.mem_cons_self ..)
      · exact ho

theorem IsFront.front_eq {acks : List Ack} {x : Ack} (h : IsFront acks x) :
    front acks = some (.of x.1.replicaNum x.2) := by
  obtain ⟨before, after, rfl, hpos, hbefore, hafter⟩ := h
  have hlt : ((before.foldl advance none).getD {}).opNum < x.2.opNum := opNum_foldl_advance hbefore hpos
  rw [front, List.foldl_append, List.foldl_cons, advance, if_pos hlt]
  exact foldl_advance_of_le hafter

/-- Empty logs leave a record without message numbers. -/
theorem front_of_empty {acks : List Ack} (h : ∀ x ∈ acks, x.2.opNum = 0) :
    front acks = none ∨ front acks = some {} := by
  cases acks with
  | nil => exact .inl rfl
  | cons x acks =>
    have hx : ¬ x.2.opNum > 0 := by rw [h x (List.mem_cons_self ..)]; exact Nat.lt_irrefl 0
    refine .inr ?_
    rw [front, List.foldl_cons, advance, Option.getD_none, if_neg hx]
    exact foldl_advance_of_le fun y hy => (h y (List.mem_cons_of_mem _ hy)).le

/-! ### What a record says -/

theorem foldl_update {l : List (Nat × Nat)} {f : Nat → Option Nat} {shard : Nat} :
    l.foldl (fun (m : Nat → Option Nat) x => Function.update m x.1 (some x.2)) f shard =
      (l.reverse.lookup shard).or (f shard) := by
  induction l using List.reverseRecOn with
  | nil => rfl
  | append_singleton l x ih =>
    obtain ⟨k, v⟩ := x
    rw [List.foldl_append, List.foldl_cons, List.foldl_nil, List.reverse_append, List.reverse_singleton,
      List.singleton_append, Function.update_apply, ih]
    by_cases hx : shard = k
    · simp [hx]
    · simp [List.lookup_cons, hx, beq_eq_false_iff_ne.mpr hx]

@[simp] theorem msgNums_of (replicaNum : Nat) (ack : EpochChangeAck) (shard : Nat) :
    (LatestMsgRecord.of replicaNum ack).msgNums shard = ack.logInfo.reverse.lookup shard :=
  foldl_update.trans (Option.or_none ..)

/-- The acknowledgement reports on every shard, as one that is sent does. -/
def NamesShards (g : Nat) (ack : EpochChangeAck) : Prop := ∀ j < g, j ∈ ack.logInfo.map Prod.fst

instance (g : Nat) (ack : EpochChangeAck) : Decidable (NamesShards g ack) :=
  inferInstanceAs (Decidable (∀ j < g, _))

theorem NamesShards.msgNums_of {g : Nat} {ack : EpochChangeAck} (h : NamesShards g ack) (replicaNum : Nat)
    {j : Nat} (hj : j < g) : ∃ k, (LatestMsgRecord.of replicaNum ack).msgNums j = some k := by
  rw [Eris.msgNums_of]
  obtain ⟨x, hx, rfl⟩ := List.mem_map.mp (h j hj)
  rw [← Option.isSome_iff_exists, List.lookup_isSome_iff]
  exact ⟨x, List.mem_reverse.mpr hx, beq_self_eq_true _⟩

/-- The latest message number of a shard that is read from a record, where a missing one is 0. -/
def numberOf (o : Option LatestMsgRecord) (shard : Nat) : Nat := (o.bind (·.msgNums shard)).getD 0

/-- The greatest message number of a shard that is reported. -/
def greatest (acks : List Ack) (shard : Nat) : Nat := acks.toFinset.sup fun x => x.2.number shard

theorem le_greatest {acks : List Ack} {x : Ack} (hx : x ∈ acks) (shard : Nat) :
    x.2.number shard ≤ greatest acks shard :=
  Finset.le_sup (f := fun x : Ack => x.2.number shard) (List.mem_toFinset.mpr hx)

/-- Whatever is reported of a shard, the first of the longest logs has got as far. -/
def LongestAhead (g : Nat) (acks : List Ack) : Prop :=
  ∀ j < g, ∀ x ∈ acks, x.2.number j = 0 ∨ ∃ y, IsFront acks y ∧ x.2.number j ≤ y.2.number j

theorem numberOf_front_iff {g : Nat} {acks : List Ack} :
    (∀ j < g, numberOf (front acks) j = greatest acks j) ↔ LongestAhead g acks := by
  rcases empty_or_isFront acks with hzero | ⟨y, hy⟩
  · have hnone : ∀ j, numberOf (front acks) j = 0 := fun j => by
      rcases front_of_empty hzero with h | h <;> rw [h] <;> rfl
    have hno : ∀ y, ¬ IsFront acks y := fun y hy => by
      obtain ⟨_, _, _, hpos, -⟩ := id hy
      exact hpos.ne' (hzero y hy.mem)
    simp only [LongestAhead, hnone, hno, false_and, exists_false, or_false, greatest]
    refine forall₂_congr fun j _ => ?_
    rw [eq_comm, ← Nat.bot_eq_zero, Finset.sup_eq_bot_iff]
    simp
  · have hnumber : ∀ j, numberOf (front acks) j = y.2.number j := fun j => by
      rw [hy.front_eq, numberOf, Option.bind_some, msgNums_of, EpochChangeAck.number]
    have hfront : ∀ z, IsFront acks z → ∀ j, z.2.number j = y.2.number j := fun z hz j => by
      rw [← hnumber j, hz.front_eq, numberOf, Option.bind_some, msgNums_of, EpochChangeAck.number]
    refine forall₂_congr fun j _ => ?_
    rw [hnumber j]
    constructor
    · exact fun h x hx => .inr ⟨y, hy, h ▸ le_greatest hx j⟩
    · refine fun h => le_antisymm (le_greatest hy.mem j) (Finset.sup_le fun x hx => ?_)
      rcases h x (List.mem_toFinset.mp hx) with hx | ⟨z, hz, hx⟩
      · rw [hx]; exact Nat.zero_le _
      · exact hx.trans (hfront z hz j).le

/-- The record of a shard has a number for every shard, unless all its logs are empty. -/
theorem front_full {g : Nat} {acks : List Ack} (hnames : ∀ x ∈ acks, NamesShards g x.2)
    (h : ∃ x ∈ acks, 0 < x.2.opNum) : ∃ r, front acks = some r ∧ ∀ j < g, ∃ k, r.msgNums j = some k := by
  rcases empty_or_isFront acks with hzero | ⟨y, hy⟩
  · obtain ⟨x, hx, hpos⟩ := h
    exact absurd (hzero x hx) hpos.ne'
  · exact ⟨_, hy.front_eq, fun j hj => (hnames y hy.mem).msgNums_of _ hj⟩

/-- When they are, the record has none. -/
theorem front_lacks {acks : List Ack} (h : ¬ ∃ x ∈ acks, 0 < x.2.opNum) {r : LatestMsgRecord}
    (hr : front acks = some r) (j : Nat) : r.msgNums j = none := by
  have hzero : ∀ x ∈ acks, x.2.opNum = 0 := fun x hx => by
    by_contra hne
    exact h ⟨x, hx, Nat.pos_of_ne_zero hne⟩
  rcases front_of_empty hzero with hf | hf <;> rw [hf] at hr
  · cases hr
  · rw [← Option.some.inj hr]

/-! ### The acknowledgements that are counted -/

/-- A coordinator, with the acknowledgements it has counted in its epoch change. -/
structure Coordination where
  fc : Fcor
  acks : List Ack

/-- The coordinator counts the acknowledgements of the epoch that it changes to. -/
def Counts (s : Fcor) (m : ErisToFCMessage) : Prop := s.status = .epochChange ∧ s.epochNum = m.localViewNum.sessNum

instance (s : Fcor) (m : ErisToFCMessage) : Decidable (Counts s m) := inferInstanceAs (Decidable (_ ∧ _))

/-- What has been counted after an operation; a new epoch change starts anew. -/
def Coordination.counted (c : Coordination) (op : Bool × ErisToFCMessage) : List Ack :=
  if ¬ op.1 then c.acks
  else match op.2.msg with
    | .epochChangeReq newEpochNum => if c.fc.epochNum ≥ newEpochNum then c.acks else []
    | .epochChangeAck ack => if Counts c.fc op.2 then c.acks ++ [(op.2, ack)] else c.acks
    | _ => c.acks

/-- The runs of a coordinator. -/
def coordination (config : Configuration) : System Coordination (Bool × ErisToFCMessage) where
  init := ⟨Fcor.initial, []⟩
  step c op := match replicaUpcall config op.1 op.2 c.fc with
    | (some _, s', _) => some ⟨s', c.counted op⟩
    | (none, _, _) => none

/-- A shard and a replica are numbered by an `int`, and the acknowledgement has every shard. -/
def Sent (g : Nat) (x : Ack) : Prop :=
  x.1.shardNum < 2 ^ 31 ∧ x.1.replicaNum < 2 ^ 31 ∧ NamesShards g x.2

instance (g : Nat) (x : Ack) : Decidable (Sent g x) := inferInstanceAs (Decidable (_ ∧ _ ∧ _))

/-- If the operation is an acknowledgement, it is one that a replica sends. -/
def SentAck (config : Configuration) (_ : Coordination) (op : Bool × ErisToFCMessage) : Prop :=
  match op.2.msg with
  | .epochChangeAck ack => Sent config.g (op.2, ack)
  | _ => True

instance (config : Configuration) (c : Coordination) (op : Bool × ErisToFCMessage) :
    Decidable (SentAck config c op) := by
  unfold SentAck
  split <;> infer_instance

/-- The acknowledgements of a shard whose last normal epoch was this one. -/
def latest (acks : List Ack) (epoch shard : Nat) : List Ack :=
  acks.filter fun x => x.1.shardNum = shard ∧ x.2.lastNormalEpoch = epoch

/-- A quorum of the replicas of every shard has acknowledged. -/
def Quorums (config : Configuration) (acks : List Ack) : Prop :=
  ∀ i < config.g, config.quorumSize ≤
    ((acks.filter fun x => x.1.shardNum = i).map fun x => x.1.replicaNum).toFinset.card

/-- What the coordinator has recorded is what it has counted. -/
structure Counting (s : Fcor) (acks : List Ack) : Prop where
  pending : s.pendingStateTransfers.toList = []
  fronts : ∀ i : Nat, s.latestMsgNums i = front (latest acks s.lastNormalEpoch i)
  replicas : ∀ (i : Nat) (r : Int), r ∈ ((s.epochChangeAcks i).getD StdSet.empty).toList ↔
    ∃ x ∈ acks, x.1.shardNum = i ∧ (x.1.replicaNum : Int) = r

variable {g : Nat} {config : Configuration} {s s' : Fcor} {c : Coordination} {m : ErisToFCMessage}
  {ack : EpochChangeAck}

theorem toInt_of_lt {x : Nat} (h : x < 2 ^ 31) : toInt x = x := by
  have hmod : x % 2 ^ 32 = x := Nat.mod_eq_of_lt (by omega)
  rw [toInt, hmod, if_pos h]

/-- The coordinator when it has counted an acknowledgement. -/
def countAck (m : ErisToFCMessage) (ack : EpochChangeAck) (s : Fcor) : Fcor :=
  recordAck (toInt m.shardNum) (toInt m.replicaNum)
    (updateFront (toInt m.shardNum) m.replicaNum ack (updateView (toInt m.shardNum) m.localViewNum.viewNum s))

/-- What a new view leaves alone. -/
theorem updateView_fields (shardNum : Int) (viewNum : Nat) (s : Fcor) :
    ∃ views, updateView shardNum viewNum s = { s with latestViewNums := views } := by
  unfold updateView
  split_ifs
  · exact ⟨_, rfl⟩
  · exact ⟨s.latestViewNums, rfl⟩

/-- What counting changes. -/
theorem countAck_fields (hsent : Sent g (m, ack)) : ∃ views, countAck m ack s = { s with
    latestViewNums := views
    latestMsgNums := if ack.lastNormalEpoch = s.lastNormalEpoch then Function.update s.latestMsgNums m.shardNum
      (advance (s.latestMsgNums m.shardNum) (m, ack)) else s.latestMsgNums
    epochChangeAcks := Function.update s.epochChangeAcks m.shardNum
      (some (((s.epochChangeAcks m.shardNum).getD StdSet.empty).insert m.replicaNum)) } := by
  obtain ⟨views, hviews⟩ := updateView_fields (toInt m.shardNum) m.localViewNum.viewNum s
  refine ⟨views, ?_⟩
  rw [countAck, hviews, toInt_of_lt hsent.1, toInt_of_lt hsent.2.1, updateFront, recordAck]
  split_ifs <;> rfl

theorem latest_append (acks : List Ack) (x : Ack) (epoch shard : Nat) :
    latest (acks ++ [x]) epoch shard = if x.1.shardNum = shard ∧ x.2.lastNormalEpoch = epoch
      then latest acks epoch shard ++ [x] else latest acks epoch shard := by
  rw [latest, List.filter_append, List.filter_singleton]
  by_cases hx : x.1.shardNum = shard ∧ x.2.lastNormalEpoch = epoch
  · rw [if_pos hx, decide_eq_true hx]
    rfl
  · rw [if_neg hx, decide_eq_false hx]
    exact List.append_nil _

theorem front_append (acks : List Ack) (x : Ack) : front (acks ++ [x]) = advance (front acks) x := by
  rw [front, List.foldl_append, List.foldl_cons, List.foldl_nil, front]

theorem Counting.countAck {acks : List Ack} (h : Counting s acks) (hsent : Sent g (m, ack)) :
    Counting (countAck m ack s) (acks ++ [(m, ack)]) := by
  obtain ⟨views, hviews⟩ := countAck_fields (s := s) hsent
  rw [hviews]
  refine ⟨h.pending, fun i => ?_, fun i r => ?_⟩
  · simp only [latest_append]
    by_cases hepoch : ack.lastNormalEpoch = s.lastNormalEpoch
    · by_cases hi : m.shardNum = i
      · subst hi
        rw [if_pos hepoch, if_pos ⟨rfl, hepoch⟩, Function.update_self, front_append, h.fronts]
      · rw [if_pos hepoch, if_neg fun hx => hi hx.1, Function.update_of_ne (by omega), h.fronts]
    · rw [if_neg hepoch, if_neg fun hx => hepoch hx.2, h.fronts]
  · dsimp only
    by_cases hi : m.shardNum = i
    · subst hi
      rw [Function.update_self, Option.getD_some, StdSet.mem_insert, h.replicas]
      simp [or_comm, eq_comm]
    · rw [Function.update_of_ne (by omega), h.replicas]
      simp [hi]

/-- The quorums are of different replicas. -/
theorem Counting.canStartEpoch_iff {acks : List Ack} (h : Counting s acks) :
    canStartEpoch config s ↔ Quorums config acks := by
  have hsize : ∀ i : Nat, ((s.epochChangeAcks i).getD StdSet.empty).size =
      ((acks.filter fun x => x.1.shardNum = i).map fun x => x.1.replicaNum).toFinset.card := by
    intro i
    have hset : ((s.epochChangeAcks i).getD StdSet.empty).toList.toFinset =
        (((acks.filter fun x => x.1.shardNum = i).map fun x => x.1.replicaNum).toFinset).image Nat.cast := by
      ext r
      simp only [List.mem_toFinset, h.replicas, Finset.mem_image, List.mem_map, List.mem_filter,
        decide_eq_true_eq]
      constructor
      · rintro ⟨x, hx, hi, rfl⟩
        exact ⟨_, ⟨x, ⟨hx, hi⟩, rfl⟩, rfl⟩
      · rintro ⟨_, ⟨x, ⟨hx, hi⟩, rfl⟩, rfl⟩
        exact ⟨x, hx, hi, rfl⟩
    rw [StdSet.size, ← List.toFinset_card_of_nodup (StdSet.nodup _), hset,
      Finset.card_image_of_injective _ fun _ _ => Int.ofNat_inj.mp]
  simp only [canStartEpoch, Quorums, List.mem_range, Nat.not_lt, hsize]
  refine forall₂_congr fun i hi => ⟨fun hq => hq.1, fun hq => ⟨hq, ?_⟩⟩
  by_contra hnone
  rw [Option.not_isSome_iff_eq_none] at hnone
  have hempty := hsize i
  rw [hnone] at hempty
  exact absurd (hempty ▸ hq) (by simp [StdSet.size, StdSet.empty, Configuration.quorumSize])

/-! ### How far the other shards have got -/

/-- Every shard has a record, with a number for every shard. -/
def Full (config : Configuration) (s : Fcor) : Prop :=
  ∀ i < config.g, ∃ r, s.latestMsgNums (i : Nat) = some r ∧ ∀ j < config.g, ∃ k, r.msgNums j = some k

/-- Then nothing is created. -/
theorem latestMsgs_full (hfull : Full config s) {i : Nat} (hi : i < config.g) : ∀ {js : List Nat},
    (∀ j ∈ js, j < config.g) → Sat (latestMsgs i js) s (fun _ s' _ => s' = s) fun _ _ => False
  | [], _ => sat_pure.mpr rfl
  | j :: js, hjs => by
      obtain ⟨r, hr, hmsgs⟩ := hfull i hi
      obtain ⟨own, hown⟩ := hmsgs i hi
      obtain ⟨r', hr', hmsgs'⟩ := hfull j (hjs j (List.mem_cons_self ..))
      obtain ⟨k, hk⟩ := hmsgs' i hi
      have hsame : Function.update r'.msgNums i (some k) = r'.msgNums := by rw [← hk, Function.update_eq_self]
      have hsame' : Function.update s.latestMsgNums j (some r') = s.latestMsgNums := by
        rw [← hr', Function.update_eq_self]
      unfold latestMsgs
      simp only [sat_bind, sat_get, sat_ofOption, sat_modify, sat_ite, sat_pure, hr, hr', Option.bind_some, hown,
        Option.getD_some, hk, hsame, hsame', Option.some.injEq, reduceCtorEq, false_imp_iff, and_true,
        forall_eq']
      exact (latestMsgs_full hfull hi fun j hj => hjs j (List.mem_cons_of_mem _ hj)).mono
        (fun _ _ _ h => ⟨fun _ => h, fun _ => h⟩) fun _ _ h => h

/-- The state is as it was, or transfers are pending, and the records are those. -/
def Surveyed (s t : Fcor) : Prop :=
  t = s ∨ t.status = .pendingStateTransfer ∧ t.latestMsgNums = s.latestMsgNums

theorem transferShard_full (hfull : Full config s) {i : Nat} (hi : i < config.g) {t : Fcor}
    (ht : Surveyed s t) : Sat (transferShard config i) t (fun _ t' _ => Surveyed s t') fun _ _ => False := by
  have hrecords : t.latestMsgNums = s.latestMsgNums := ht.elim (fun h => by rw [h]) (·.2)
  have hfull' : Full config t := fun i hi => by rw [hrecords]; exact hfull i hi
  obtain ⟨r, hr, -⟩ := hfull' i hi
  simp only [transferShard, sat_bind, sat_get, sat_ofOption, hr, Option.some.injEq, forall_eq', reduceCtorEq,
    false_imp_iff, and_true]
  refine (latestMsgs_full hfull' hi fun j hj => List.mem_range.mp hj).mono (fun msgs t' _ heq => ?_) fun _ _ h => h
  subst heq
  simp only [sat_when, sat_bind, sat_modify, sat_emit]
  exact ⟨fun _ => .inr ⟨rfl, hrecords⟩, fun _ => ht⟩

theorem transferShards_full (hfull : Full config s) :
    Sat (forEach (List.range config.g) (transferShard config)) s (fun _ t _ => Surveyed s t) fun _ _ => False := by
  refine (sat_forEach (fun rest t _ => Surveyed s t ∧ ∀ i ∈ rest, i < config.g)
    ⟨.inl rfl, fun i hi => List.mem_range.mp hi⟩ ?_).mono (fun _ _ _ h => h.1) fun _ _ h => h
  intro i rest t _ h
  exact (transferShard_full hfull (h.2 i (List.mem_cons_self ..)) h.1).mono
    (fun _ _ _ ht => ⟨ht, fun j hj => h.2 j (List.mem_cons_of_mem _ hj)⟩) fun _ _ h => h

/-- The record of a shard does not have its own number. -/
def Lacks (i : Nat) (s : Fcor) : Prop := ∀ r, s.latestMsgNums i = some r → r.msgNums i = none

/-- What is created for another shard does not help. -/
theorem lacks_latestMsgs {i i' : Nat} (hne : i' ≠ i) : ∀ js : List Nat,
    Relates (Kept (Lacks i)) (latestMsgs i' js)
  | [] => relates_pure
  | j :: js => by
      refine relates_get_bind fun s => ?_
      simp only [sat_bind, sat_ofOption, sat_modify]
      refine ⟨fun own _ => ?_, fun _ => trivial⟩
      refine (lacks_latestMsgs hne js _).mono (fun rest t _ ht => ?_) fun _ _ _ => trivial
      have hkept : Lacks i s → Lacks i t := fun hs => ht fun r hr => by
        dsimp only at hr
        by_cases hj : (i : Int) = j
        · rw [hj, Function.update_self] at hr
          obtain rfl := Option.some.inj hr
          dsimp only
          rw [Function.update_of_ne hne.symm, ← hj]
          cases hi : s.latestMsgNums i with
          | none => rfl
          | some r => exact hs r hi
        · rw [Function.update_of_ne hj] at hr
          exact hs r hr
      simp only [sat_ite, sat_pure]
      exact ⟨fun _ => hkept, fun _ => hkept⟩

theorem lacks_modify {i : Nat} {h : Fcor → Fcor} (hh : ∀ s, (h s).latestMsgNums = s.latestMsgNums) :
    Relates (Kept (Lacks i)) (modify h : FcorHandler Unit) :=
  relates_modify fun s hs r hr => hs r (by rwa [hh] at hr)

theorem lacks_transferShard {i i' : Nat} (hne : i' ≠ i) : Relates (Kept (Lacks i)) (transferShard config i') := by
  refine relates_get.bind fun _ => relates_ofOption.bind fun _ => (lacks_latestMsgs hne _).bind fun _ => .when ?_
  exact .bind (lacks_modify fun _ => rfl) fun _ => .bind relates_emit fun _ => lacks_modify fun _ => rfl

/-- The coordinator stops when it reads the number. -/
theorem transferShards_lacks {i : Nat} (hi : i < config.g) (hs : Lacks i s) :
    Sat (forEach (List.range config.g) (transferShard config)) s (fun _ _ _ => False) fun _ _ => True := by
  refine (sat_forEach (fun rest t _ => i ∈ rest ∧ Lacks i t) ⟨List.mem_range.mpr hi, hs⟩ ?_).mono
    (fun _ _ _ h => by cases h.1) fun _ _ h => h
  rintro i' rest t _ ⟨hmem, ht⟩
  by_cases hne : i' = i
  · subst hne
    obtain ⟨n, hn⟩ := Nat.exists_eq_succ_of_ne_zero (Nat.ne_of_gt (Nat.zero_lt_of_lt hi))
    have hnone : (t.latestMsgNums i').bind (·.msgNums i') = none := by
      cases hr : t.latestMsgNums i' with
      | none => rfl
      | some r => exact ht r hr
    simp only [transferShard, sat_bind, sat_get, sat_ofOption]
    refine ⟨fun _ _ => ?_, fun _ => trivial⟩
    rw [hn, List.range_succ_eq_map]
    unfold latestMsgs
    simp only [sat_bind, sat_get, sat_ofOption, hnone, reduceCtorEq, false_imp_iff, implies_true, true_and]
  · exact (lacks_transferShard hne t).mono
      (fun _ t' _ h => ⟨(List.mem_cons.mp hmem).resolve_left (Ne.symm hne), h ht⟩) fun _ _ h => h

/-! ### An acknowledgement -/

/-- The numbers that are read from the records are the greatest reported in the last normal epoch. -/
def Maxima (config : Configuration) (s : Fcor) (epoch : Nat) (acks : List Ack) : Prop :=
  ∀ i < config.g, ∀ j < config.g, numberOf (s.latestMsgNums (i : Nat)) j = greatest (latest acks epoch i) j

theorem Counting.maxima_iff {acks : List Ack} (h : Counting s acks) :
    Maxima config s s.lastNormalEpoch acks ↔
      ∀ i < config.g, LongestAhead config.g (latest acks s.lastNormalEpoch i) := by
  refine forall₂_congr fun i _ => ?_
  rw [h.fronts, numberOf_front_iff]

/-- The records can be read when there is a log that is not empty for each. -/
theorem Counting.full {acks : List Ack} (h : Counting s acks) (hsent : ∀ x ∈ acks, Sent config.g x)
    (hlogs : ∀ i < config.g, ∃ x ∈ latest acks s.lastNormalEpoch i, 0 < x.2.opNum) : Full config s := by
  intro i hi
  rw [h.fronts]
  exact front_full (fun x hx => (hsent x (List.mem_of_mem_filter hx)).2.2) (hlogs i hi)

/-- A new epoch leaves the numbers alone. -/
theorem startEpoch_numbers : Sat (startEpoch config) s (fun _ s' _ => s'.status = .normal ∧
    ∀ i j, numberOf (s'.latestMsgNums i) j = numberOf (s.latestMsgNums i) j) fun _ _ => False := by
  simp only [startEpoch, sat_bind, sat_modify]
  refine (sat_forEach (fun _ t _ => ∀ i j, numberOf (t.latestMsgNums i) j = numberOf (s.latestMsgNums i) j)
    (fun _ _ => rfl) ?_).mono (fun _ _ _ h => ⟨trivial, h⟩) fun _ _ h => h
  intro i rest t _ ht
  simp only [startShard, sat_bind, sat_get, sat_modify, sat_emit]
  intro i' j
  rw [← ht i' j]
  by_cases hi : i' = i
  · subst hi
    rw [Function.update_self]
    rw [numberOf, numberOf]
    cases t.latestMsgNums (i : Int) <;> rfl
  · rw [Function.update_of_ne hi]

/-- What counting an acknowledgement comes to. -/
theorem countAck_sat {acks : List Ack} (hc : Counting s acks) (hs : s.status = .epochChange)
    (hsent : ∀ x ∈ acks, Sent config.g x) :
    Sat (do
        let s ← get
        when (canStartEpoch config s) do
          forEach (List.range config.g) (transferShard config)
          let s ← get
          when (s.status ≠ .pendingStateTransfer) do
            assert (s.pendingStateTransfers.toList = [])
            startEpoch config) s
      (fun _ s' _ => (s'.status = .epochChange → s' = s) ∧
        (Quorums config acks → ∀ i < config.g, ∃ x ∈ latest acks s.lastNormalEpoch i, 0 < x.2.opNum) ∧
        ∀ i j, numberOf (s'.latestMsgNums i) j = numberOf (s.latestMsgNums i) j)
      fun _ _ => Quorums config acks ∧
        ¬ ∀ i < config.g, ∃ x ∈ latest acks s.lastNormalEpoch i, 0 < x.2.opNum := by
  simp only [sat_bind, sat_get, sat_when, hc.canStartEpoch_iff]
  refine ⟨fun hq => ?_, fun hq => ⟨fun _ => trivial, fun h => absurd h hq, fun _ _ => trivial⟩⟩
  by_cases hlogs : ∀ i < config.g, ∃ x ∈ latest acks s.lastNormalEpoch i, 0 < x.2.opNum
  · refine (transferShards_full (hc.full hsent hlogs)).mono (fun _ t _ ht => ?_) fun _ _ h => h.elim
    rcases ht with rfl | ⟨hstatus, hrecords⟩
    · refine ⟨fun _ => sat_assert.mpr ⟨fun _ => ?_, fun hpending => absurd hc.pending hpending⟩,
        fun hpending => absurd (by rw [hs]; exact FcorStatus.noConfusion) hpending⟩
      exact startEpoch_numbers.mono
        (fun _ _ _ h => ⟨fun hn => (by rw [h.1] at hn; cases hn), fun _ => hlogs, h.2⟩) fun _ _ h => h.elim
    · exact ⟨fun h => absurd hstatus h, fun _ => ⟨fun h => (by rw [hstatus] at h; cases h), fun _ => hlogs,
        fun _ _ => by rw [hrecords]⟩⟩
  · obtain ⟨i, hi, hnone⟩ := not_forall₂.mp hlogs
    exact (transferShards_lacks hi fun r hr => front_lacks hnone (hc.fronts i ▸ hr) i).mono
      (fun _ _ _ h => h.elim) fun _ _ _ => ⟨hq, hlogs⟩

/-- The coordinator handles an acknowledgement: it neither throws nor fails an assertion, and when the
    acknowledgement counts, the numbers of every shard are the maxima. -/
def HandlesAck (config : Configuration) (c : Coordination) (m : ErisToFCMessage) (ack : EpochChangeAck) : Prop :=
  Sat (handleEpochChangeAck config m ack) c.fc
    (fun _ s' _ => Counts c.fc m → Maxima config s' c.fc.lastNormalEpoch (c.acks ++ [(m, ack)]))
    fun _ _ => False

/-- When it does. -/
structure Acceptable (config : Configuration) (c : Coordination) (m : ErisToFCMessage) (ack : EpochChangeAck) :
    Prop where
  /-- One that does not count is answered with the start of an epoch that there has been. -/
  late : c.fc.status = .normal ∨ c.fc.epochNum ≠ m.localViewNum.sessNum →
    m.localViewNum.sessNum ≤ c.fc.epochNum ∧ (c.fc.lastStartEpochs (toInt m.shardNum)).isSome
  /-- One that counts is not ahead of the coordinator. -/
  epoch : Counts c.fc m → ack.lastNormalEpoch ≤ c.fc.lastNormalEpoch
  /-- The longest log of every shard has got furthest. -/
  ahead : Counts c.fc m → ∀ i < config.g,
    LongestAhead config.g (latest (c.acks ++ [(m, ack)]) c.fc.lastNormalEpoch i)
  /-- The last one is there only when every shard has a log that is not empty. -/
  logs : Counts c.fc m → Quorums config (c.acks ++ [(m, ack)]) →
    ∀ i < config.g, ∃ x ∈ latest (c.acks ++ [(m, ack)]) c.fc.lastNormalEpoch i, 0 < x.2.opNum

/-- What the coordinator has counted is recorded as long as the epoch changes. -/
structure Follows (config : Configuration) (c : Coordination) : Prop where
  sent : ∀ x ∈ c.acks, Sent config.g x
  counting : c.fc.status = .epochChange → Counting c.fc c.acks

theorem countAck_status (hsent : Sent g (m, ack)) : (countAck m ack s).status = s.status ∧
    (countAck m ack s).lastNormalEpoch = s.lastNormalEpoch := by
  obtain ⟨views, hviews⟩ := countAck_fields (s := s) hsent
  rw [hviews]
  exact ⟨rfl, rfl⟩

/-- What an acknowledgement that counts comes to. -/
theorem Follows.counts (h : Follows config c) (hsent : Sent config.g (m, ack)) (hcounts : Counts c.fc m) :
    Sat (handleEpochChangeAck config m ack) c.fc
      (fun _ s' _ => (s'.status = .epochChange → Counting s' (c.acks ++ [(m, ack)])) ∧
        ack.lastNormalEpoch ≤ c.fc.lastNormalEpoch ∧
        (Quorums config (c.acks ++ [(m, ack)]) →
          ∀ i < config.g, ∃ x ∈ latest (c.acks ++ [(m, ack)]) c.fc.lastNormalEpoch i, 0 < x.2.opNum) ∧
        (Maxima config s' c.fc.lastNormalEpoch (c.acks ++ [(m, ack)]) ↔ ∀ i < config.g,
          LongestAhead config.g (latest (c.acks ++ [(m, ack)]) c.fc.lastNormalEpoch i)))
      fun _ _ => ack.lastNormalEpoch ≤ c.fc.lastNormalEpoch → ¬ (Quorums config (c.acks ++ [(m, ack)]) →
        ∀ i < config.g, ∃ x ∈ latest (c.acks ++ [(m, ack)]) c.fc.lastNormalEpoch i, 0 < x.2.opNum) := by
  obtain ⟨hstatus, hepoch⟩ := countAck_status (s := c.fc) hsent
  have hc := (h.counting hcounts.1).countAck hsent
  have hall : ∀ x ∈ c.acks ++ [(m, ack)], Sent config.g x := fun x hx =>
    (List.mem_append.mp hx).elim (h.sent x) fun hx => by rwa [List.mem_singleton.mp hx]
  have hsat := countAck_sat hc (hstatus.trans hcounts.1) hall
  have hmaxima : Maxima config _ _ _ ↔ _ := hc.maxima_iff
  rw [hepoch] at hsat hmaxima
  unfold handleEpochChangeAck
  rw [sat_bind, sat_get, sat_ite]
  refine ⟨fun hlate => ?_, fun _ => sat_ite.mpr ⟨fun hp => ?_, fun _ => ?_⟩⟩
  · exact (hlate.elim (fun h => by rw [hcounts.1] at h; cases h) fun h => h hcounts.2).elim
  · rw [hcounts.1] at hp
    cases hp
  · rw [sat_bind, sat_modify, sat_bind, sat_assert]
    refine ⟨fun hle => ?_, fun hle h => absurd h hle⟩
    · rw [sat_bind, sat_modify, sat_bind, sat_modify]
      refine hsat.mono (fun _ s' _ hs' => ⟨fun hs => hs'.1 hs ▸ hc, hle, hs'.2.1, ?_⟩) fun _ _ hs' _ hlogs => ?_
      · rw [← hmaxima]
        exact forall₂_congr fun i _ => forall₂_congr fun j _ => by rw [hs'.2.2]
      · exact hs'.2 (hlogs hs'.1)

/-- One that does not count changes nothing, and is answered, unless it is from a later epoch or there has been no
    epoch to start. -/
theorem handleEpochChangeAck_late (hcounts : ¬ Counts s m) :
    Sat (handleEpochChangeAck config m ack) s
      (fun _ s' _ => s' = s ∧ (s.status = .normal ∨ s.epochNum ≠ m.localViewNum.sessNum →
        m.localViewNum.sessNum ≤ s.epochNum ∧ (s.lastStartEpochs (toInt m.shardNum)).isSome))
      fun _ _ => (s.status = .normal ∨ s.epochNum ≠ m.localViewNum.sessNum) ∧
        ¬ (m.localViewNum.sessNum ≤ s.epochNum ∧ (s.lastStartEpochs (toInt m.shardNum)).isSome) := by
  have hstatus : ¬ (s.status = .normal ∨ s.epochNum ≠ m.localViewNum.sessNum) →
      s.status = .pendingStateTransfer := by
    intro hl
    rw [not_or, not_not] at hl
    cases hs : s.status with
    | normal => exact absurd hs hl.1
    | epochChange => exact absurd ⟨hs, hl.2⟩ hcounts
    | pendingStateTransfer => rfl
  unfold handleEpochChangeAck
  rw [sat_bind, sat_get, sat_ite]
  refine ⟨fun hl => ?_, fun hl => sat_ite.mpr ⟨fun _ => ?_, fun hs => absurd (hstatus hl) hs⟩⟩
  · simp only [sat_bind, sat_assert, sat_ofOption, sat_emit]
    refine ⟨fun hge => ⟨fun st hst => ⟨trivial, fun _ => ⟨hge, ?_⟩⟩, fun hnone => ⟨hl, fun h => ?_⟩⟩,
      fun hlt => ⟨hl, fun h => hlt h.1⟩⟩
    · rw [hst]
      rfl
    · have hsome := h.2
      rw [hnone] at hsome
      cases hsome
  · simp only [sat_whenSome, sat_emit]
    exact ⟨fun _ _ => ⟨trivial, fun h => absurd h hl⟩, fun _ => ⟨trivial, fun h => absurd h hl⟩⟩

theorem not_handlesAck (h : (handleEpochChangeAck config m ack c.fc).1.isNone) : ¬ HandlesAck config c m ack := by
  intro hh
  rcases hh.cases with ⟨_, _, _, hrun, -⟩ | ⟨_, _, _, hfalse⟩
  · rw [hrun] at h
    cases h
  · exact hfalse

/-- The condition is exact. -/
theorem Follows.handlesAck_iff (h : Follows config c) (hsent : Sent config.g (m, ack)) :
    HandlesAck config c m ack ↔ Acceptable config c m ack := by
  by_cases hcounts : Counts c.fc m
  · have hlate : ¬ (c.fc.status = .normal ∨ c.fc.epochNum ≠ m.localViewNum.sessNum) := by
      rintro (hs | hs)
      · rw [hcounts.1] at hs
        cases hs
      · exact hs hcounts.2
    have hsat := h.counts hsent hcounts
    constructor
    · intro hh
      rcases (hsat.and hh).cases with ⟨_, s', _, _, ⟨_, hle, hlogs, hiff⟩, hmax⟩ | ⟨_, _, _, _, hfalse⟩
      · exact ⟨fun hl => absurd hl hlate, fun _ => hle, fun _ => hiff.mp (hmax hcounts), fun _ => hlogs⟩
      · exact hfalse.elim
    · intro ha
      exact hsat.mono (fun _ _ _ hs' _ => hs'.2.2.2.mpr (ha.ahead hcounts))
        fun _ _ hs' => hs' (ha.epoch hcounts) (ha.logs hcounts)
  · have hsat : Sat (handleEpochChangeAck config m ack) c.fc _ _ := handleEpochChangeAck_late hcounts
    constructor
    · intro hh
      refine ⟨?_, fun hc => absurd hc hcounts, fun hc => absurd hc hcounts, fun hc => absurd hc hcounts⟩
      rcases (hsat.and hh).cases with ⟨_, _, _, _, ⟨_, hlate⟩, _⟩ | ⟨_, _, _, _, hfalse⟩
      · exact hlate
      · exact hfalse.elim
    · intro ha
      exact hsat.mono (fun _ _ _ _ hc => absurd hc hcounts) fun _ _ hs' => hs'.2 (ha.late hs'.1)

/-! ### Runs -/

/-- What the epoch change depends on. -/
def Fcor.changing (s : Fcor) :=
  (s.status, s.lastNormalEpoch, s.epochChangeAcks, s.latestMsgNums, s.pendingStateTransfers)

theorem Counting.congr {acks : List Ack} (h : Counting s acks) (hs : s'.changing = s.changing) : Counting s' acks := by
  simp only [Fcor.changing, Prod.mk.injEq] at hs
  obtain ⟨-, hepoch, hacks, hlatest, hpending⟩ := hs
  exact ⟨by rw [hpending]; exact h.pending, by rw [hlatest, hepoch]; exact h.fronts, by rw [hacks]; exact h.replicas⟩

theorem same_sendResult (id : TxnID) : Relates (Same Fcor.changing) (sendResult id) :=
  relates_get.bind fun _ => relates_ofOption.bind fun _ => relates_emit

/-- What is said of transactions has nothing to do with it. -/
theorem same_handleTxnInfoReq (txnNum : Stamp) : Relates (Same Fcor.changing) (handleTxnInfoReq txnNum) :=
  relates_get.bind fun _ => .ite relates_pure <| .bind (.when (same_sendResult _)) fun _ => relates_emit

theorem same_handleTxnReceived (txn : RequestMessage) : Relates (Same Fcor.changing) (handleTxnReceived txn) := by
  refine relates_get.bind fun _ => .ite relates_pure <| .bind (.forEach (fun _ => ?_) _) fun _ =>
    .forEach (fun _ => relates_get.bind fun _ => .when (.bind ?_ fun _ => same_sendResult _)) _
  · exact same_modify fun _ => rfl
  · exact same_modify fun _ => rfl

theorem same_handleTxnTempDropped (txnNum : Stamp) (shardNum replicaNum viewNum : Int) :
    Relates (Same Fcor.changing) (handleTxnTempDropped config txnNum shardNum replicaNum viewNum) := by
  refine relates_get.bind fun _ => .ite relates_pure <| .ite relates_pure <| .bind ?_ fun _ =>
    relates_get.bind fun _ => .when <| .bind ?_ fun _ => .bind ?_ fun _ => same_sendResult _
  all_goals exact same_modify fun _ => rfl

/-- A request begins an epoch change with nothing counted, or there is one as late already. -/
theorem handleEpochChangeReq_sat (shardNum replicaNum : Int) (newEpochNum : Nat) :
    Sat (handleEpochChangeReq shardNum replicaNum newEpochNum) s
      (fun _ s' _ => if s.epochNum ≥ newEpochNum then s' = s else Counting s' []) fun _ _ => True := by
  unfold handleEpochChangeReq
  rw [sat_bind, sat_get, sat_ite]
  constructor
  · intro hge
    simp only [sat_when, sat_bind, sat_ofOption, sat_emit, if_pos hge, implies_true, and_self]
  · intro hlt
    simp only [sat_bind, sat_modify, sat_emit, if_neg hlt]
    exact ⟨rfl, fun _ => rfl, fun _ _ => by simp⟩

/-- A state transfer that ends does not begin an epoch change. -/
theorem handleEpochChangeStateTransferAck_sat (m : ErisToFCMessage) (ack : EpochChangeStateTransferAck) :
    Sat (handleEpochChangeStateTransferAck config m ack) s (fun _ s' _ => s'.status = .epochChange → s' = s)
      fun _ _ => True := by
  unfold handleEpochChangeStateTransferAck
  simp only [sat_bind, sat_get, sat_ite, sat_pure, sat_assert, sat_ofOption, sat_modify, implies_true, and_true]
  refine ⟨trivial, fun hstatus _ latest _ _ _ => ?_⟩
  have hpending : s.status = .pendingStateTransfer := not_not.mp (not_or.mp hstatus).1
  have hdrop : ∀ stn : Stamp, Relates (Same Fcor.status)
      (modify (recordDrop (toInt m.shardNum) (TxnID.ofStamp stn)) : FcorHandler Unit) := fun _ =>
    same_modify fun _ => rfl
  refine (Relates.forEach hdrop _).sat (fun _ t _ ht => sat_when.mpr ⟨fun _ => ?_, fun _ hs => ?_⟩) fun _ _ => trivial
  · exact startEpoch_numbers.mono (fun _ _ _ h hs => by rw [h.1] at hs; cases hs) fun _ _ h => h.elim
  · exact absurd (hs.symm.trans (ht.trans hpending)) FcorStatus.noConfusion

theorem Follows.same (h : Follows config c) (hs : s'.changing = c.fc.changing) : Follows config ⟨s', c.acks⟩ := by
  refine ⟨h.sent, fun hc => (h.counting ?_).congr hs⟩
  rw [← hc]
  exact (congrArg Prod.fst hs).symm

/-- The coordinator goes on recording what it counts. -/
theorem Follows.upcall (h : Follows config c) {op : Bool × ErisToFCMessage} (hsent : SentAck config c op) :
    Sat (replicaUpcall config op.1 op.2) c.fc (fun _ s' _ => Follows config ⟨s', c.counted op⟩) fun _ _ => True := by
  obtain ⟨isLeader, m⟩ := op
  unfold replicaUpcall Coordination.counted
  rw [sat_ite]
  refine ⟨fun hl => ?_, fun hl => ?_⟩
  · rw [if_pos hl]
    exact h
  rw [if_neg hl]
  have hsame : ∀ {p : FcorHandler Unit}, Relates (Same Fcor.changing) p →
      Sat p c.fc (fun _ s' _ => Follows config ⟨s', c.acks⟩) fun _ _ => True := fun hp =>
    hp.sat (fun _ _ _ hs => h.same hs) fun _ _ => trivial
  cases hm : m.msg with
  | txnInfoReq txnNum => exact hsame (same_handleTxnInfoReq _)
  | txnReceived txn => exact hsame (same_handleTxnReceived _)
  | txnTempDrop txnNum => exact hsame (same_handleTxnTempDropped _ _ _ _)
  | epochChangeReq newEpochNum =>
    refine (handleEpochChangeReq_sat _ _ _).mono (fun _ s' _ hs' => ?_) fun _ _ _ => trivial
    by_cases hge : c.fc.epochNum ≥ newEpochNum
    · rw [if_pos hge] at hs'
      simp only [if_pos hge]
      exact hs' ▸ h
    · rw [if_neg hge] at hs'
      simp only [if_neg hge]
      exact ⟨fun _ hx => (List.not_mem_nil hx).elim, fun _ => hs'⟩
  | epochChangeAck ack =>
    simp only [SentAck, hm] at hsent
    by_cases hcounts : Counts c.fc m
    · simp only [if_pos hcounts]
      refine (h.counts hsent hcounts).mono (fun _ s' _ hs' => ⟨fun x hx => ?_, hs'.1⟩) fun _ _ _ => trivial
      rcases List.mem_append.mp hx with hx | hx
      · exact h.sent x hx
      · rwa [List.mem_singleton.mp hx]
    · simp only [if_neg hcounts]
      refine (handleEpochChangeAck_late hcounts).mono (fun _ s' _ hs' => hs'.1 ▸ h) fun _ _ _ => trivial
  | epochChangeStateTransferAck ack =>
    refine (handleEpochChangeStateTransferAck_sat _ _).mono (fun _ s' _ hs' => ⟨h.sent, fun hc => ?_⟩)
      fun _ _ _ => trivial
    obtain rfl := hs' hc
    exact h.counting hc
  | notSet => exact trivial

/-- In every run whose acknowledgements are such as are sent, the coordinator records what it counts. -/
theorem follows_of_run {past : List Coordination} (h : Run (coordination config) (SentAck config) past c) :
    Follows config c := by
  refine h.invariant (I := fun _ c => Follows config c) ?_ fun _ c op c' _ hc hsent hstep => ?_
  · exact ⟨fun _ hx => (List.not_mem_nil hx).elim, fun hs => by cases hs⟩
  · simp only [coordination] at hstep
    rcases (hc.upcall hsent).cases with ⟨_, s', o, hrun, hs'⟩ | ⟨s', o, hrun, -⟩ <;> rw [hrun] at hstep
    · exact Option.some.inj hstep ▸ hs'
    · cases hstep

/-- In every reachable state the coordinator handles an acknowledgement that is sent exactly when the condition
    is met. -/
theorem handles_epochChangeAck_iff {past : List Coordination}
    (h : Run (coordination config) (SentAck config) past c) (hsent : Sent config.g (m, ack)) :
    HandlesAck config c m ack ↔ Acceptable config c m ack := (follows_of_run h).handlesAck_iff hsent

/-! ### Shards that have logged nothing -/

/-- Two shards of three replicas. -/
def idleShards : Configuration := { n := 3, f := 1, g := 2 }

/-- The acknowledgement of an empty log. -/
def emptyAck : EpochChangeAck := { lastNormalEpoch := 0, opNum := 0, logInfo := [(0, 0), (1, 0)] }

/-- The message it comes in. -/
def idleMessage (shard replica : Nat) : ErisToFCMessage :=
  { shardNum := shard, replicaNum := replica, localViewNum := ⟨0, 1⟩, msg := .epochChangeAck emptyAck }

/-- The epoch change is asked for, and three of four acknowledgements come. -/
def idleEpochChange : List (Bool × ErisToFCMessage) :=
  [(true, { idleMessage 0 0 with msg := .epochChangeReq 1 }), (true, idleMessage 0 0), (true, idleMessage 0 1),
   (true, idleMessage 1 0)]

/-- The coordinator throws at the last of the acknowledgements. -/
theorem throws_at_empty_logs : ∃ past c, Run (coordination idleShards) (SentAck idleShards) past c ∧
    Sent idleShards.g (idleMessage 1 1, emptyAck) ∧ ¬ HandlesAck idleShards c (idleMessage 1 1) emptyAck := by
  obtain ⟨past, c, hr, hc⟩ := Run.exists_of_exec (coordination idleShards) (SentAck idleShards) idleEpochChange
    (fun c => (handleEpochChangeAck idleShards (idleMessage 1 1) emptyAck c.fc).1.isNone) (by decide)
  exact ⟨past, c, hr, by decide, not_handlesAck hc⟩

/-- The condition says so. -/
theorem handles_epochChangeAck_iff_idle : ∃ past c, Run (coordination idleShards) (SentAck idleShards) past c ∧
    ¬ Acceptable idleShards c (idleMessage 1 1) emptyAck := by
  obtain ⟨past, c, hr, hc⟩ := Run.exists_of_exec (coordination idleShards) (SentAck idleShards) idleEpochChange
    (fun c => (handleEpochChangeAck idleShards (idleMessage 1 1) emptyAck c.fc).1.isNone) (by decide)
  exact ⟨past, c, hr, fun ha => not_handlesAck hc ((handles_epochChangeAck_iff hr (by decide)).mpr ha)⟩

end Dsnet.Eris
