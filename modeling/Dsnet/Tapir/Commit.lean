import Dsnet.Tapir.Prepare
import Dsnet.Transaction.KVWrites

/-! What a COMMIT leaves in the store of a TAPIR replica. The message carries no writes: the replica puts
    those of the pending transaction, and nothing when there is none. So the store holds the writes
    afterwards if the replica has executed the PREPARE, provided that no key has been put a greater value
    before its last one (the write set is gone through in order), or if it held them already. -/

namespace Dsnet.Tapir
open Handler Transaction

/-- In the step from `s` to `s'`, replica `i` executes COMMIT of the transaction. -/
def CommitStep {σ : Type} (S : Shard σ) (s s' : Sys σ) (i txnid : Nat) : Prop :=
  ∃ k src o entry, s.net[k]? = some ⟨src, .replica i, .finalizeInconsistent o⟩ ∧
    (system S).step s (.deliver k) = some s' ∧ s'.stopped (.replica i) = false ∧
    Server.record (s.state (.replica i)) o = some entry ∧ entry.state = .tentative ∧
    (S.wire.txn.parse entry.request.op).op = .commit ∧
    (S.wire.txn.parse entry.request.op).txnid = txnid

/-- The store holds what the transaction with this text has written. -/
def HoldsWrites (E : KVEnv) (txn : String) (app : KVTxnServer) : Prop :=
  ∀ key value, written (E.puts txn) key = some value → app.store key = some value

/-- The transaction is pending, and the last value it puts for a key is the greatest; or it is not pending,
    and the store holds its writes. -/
def KnowsWrites (E : KVEnv) (txn : String) (txnid : Nat) (app : KVTxnServer) : Prop :=
  if (app.pendingTxns.find? txnid).isSome = true then
    ∀ key value, written (E.puts txn) key = some value →
      ∀ value', (key, value') ∈ E.puts txn → value' ≤ value
  else HoldsWrites E txn app

variable {wire : Wire} {config : Configuration} {E : KVEnv} {store : Nat → String → Option String}
  {txn : Nat → String}

/-- The write sets of the transactions. -/
def writeSets (E : KVEnv) (txn : Nat → String) (txnid : Nat) : StdSet (String ×ₗ String) :=
  writeSetOf (E.puts (txn txnid))

/-- The pending transactions of a replica keep the writes of their texts. -/
theorem keptBy_writesOf :
    (kvShard wire config E store txn).KeptBy (WritesOf (writeSets E txn)) where
  init _ := fun _ _ h => by cases h
  prepare i t s ht hop hs :=
    (invokeTransaction_sat hs fun _ => congrArg (fun x => writeSetOf (E.puts x)) (ht.1 hop)).mono
      (fun _ _ _ h => h.1) fun _ _ h => h
  finish i t s _ _ hs := by
    refine (invokeTransaction_sat hs fun harg => ?_).mono (fun _ _ _ h => h.1) fun _ _ h => h
    simp only [inconsistentArg] at harg
    split_ifs at harg <;> simp at harg

/-- What the application comes to by a call that returns. -/
theorem replicaUpcall_sat {σ : Type} {F : ServerEnv σ} {s : Server σ} {text : String} {arg : TxnArg}
    {Q : σ → Prop} (h : Sat (F.app.invokeTransaction text arg) s.app (fun _ app _ => Q app)
      fun _ _ => True) :
    Sat (replicaUpcall F text arg) s (fun _ s' _ => Q s'.app) fun _ _ => True := by
  rw [replicaUpcall, sat_bind]
  rcases h.cases with ⟨⟨result, ret⟩, app, o, hm, hQ⟩ | ⟨app, o, hm, _⟩
  · simpa [hm] using hQ
  · simp [hm]

/-- A COMMIT puts the writes of the transaction that it finds. -/
theorem handleFinalizeInconsistent_sat {W : Prop}
    {g : History (kvShard wire config E store txn) W} {i : Nat}
    {s : Server KVTxnServer} (hs : ReplicaOk g i s) (hw : WritesOf (writeSets E txn) s.app)
    {remote : Node} {o : OpId} {entry : RecordEntry} (hentry : s.record o = some entry)
    (hst : entry.state = .tentative) (hop : (wire.txn.parse entry.request.op).op = .commit) :
    Sat (handleFinalizeInconsistent ((kvShard wire config E store txn).serverEnv i) remote o) s
      (fun _ s' _ => s'.app.store = putAll s.app.store
        (s.app.txn E "" ⟨(wire.txn.parse entry.request.op).txnid, .commit⟩).writeSet.toList)
      fun _ _ => True := by
  obtain ⟨t, ht, hreq, _⟩ := (hs.record hentry).request
  have hparse : wire.txn.parse entry.request.op = t := by
    rw [hreq]
    exact wire.txn.parse_serialize t
  have hparse' : ((kvShard wire config E store txn).serverEnv i).wire.txn.parse entry.request.op = t :=
    hparse
  rw [hparse] at hop ⊢
  have htxn : t.txn = "" := (g.sends ht).2 (by rw [hop]; simp)
  have harg : inconsistentArg t = ⟨t.txnid, .commit⟩ := by rw [inconsistentArg, if_pos hop]
  simp only [handleFinalizeInconsistent, sat_bind, sat_get, sat_whenSome, sat_when, sat_modify,
    sat_assert, sat_emit]
  refine ⟨fun e he => ⟨fun _ => ⟨fun _ => ?_, fun _ => trivial⟩, fun hno => ?_⟩, fun hno => ?_⟩
  · obtain rfl : entry = e := Option.some.inj (hentry.symm.trans he)
    rw [hparse', htxn, harg]
    refine (replicaUpcall_sat (invokeTransaction_sat hw fun harg => ?_)).mono
      (fun x s' _ h => ?_) fun _ _ h => h
    · rcases harg with harg | harg <;> cases harg
    · exact ⟨fun _ => ⟨fun _ => ⟨fun _ => h.2 rfl, fun _ => trivial⟩, fun _ => trivial⟩, fun _ => trivial⟩
  · obtain rfl : entry = e := Option.some.inj (hentry.symm.trans he)
    exact (hno hst).elim
  · rw [hentry] at hno
    cases hno

/-- Putting the writes that are pending leaves those of the text just when they are known. -/
theorem holdsWrites_iff {app app' : KVTxnServer} {txnid : Nat} (hw : WritesOf (writeSets E txn) app)
    (happ : app'.store = putAll app.store (app.txn E "" ⟨txnid, .commit⟩).writeSet.toList) :
    HoldsWrites E (txn txnid) app' ↔ KnowsWrites E (txn txnid) txnid app := by
  rw [KnowsWrites, HoldsWrites, happ]
  split_ifs with hp
  · have hws : (app.txn E "" ⟨txnid, .commit⟩).writeSet = writeSetOf (E.puts (txn txnid)) :=
      txn_writeSet hw (fun h => by rcases h with h | h <;> cases h) fun _ => hp
    rw [hws]
    refine forall₂_congr fun key value => imp_congr_right fun hv => ?_
    have hmem := mem_writeSetOf.mpr (mem_of_written hv)
    rw [putAll_eq_some _ _ _ (writeSetOf _).sorted]
    constructor
    · rintro (⟨_, hall⟩ | ⟨hno, _⟩) value' hv'
      · exact hall value' (mem_writeSetOf.mpr hv')
      · exact (hno value hmem).elim
    · intro hall
      exact Or.inl ⟨hmem, fun value' hv' => hall value' (mem_writeSetOf.mp hv')⟩
  · rw [txn_writeSet_of_none rfl (Option.not_isSome_iff_eq_none.mp hp)]
    rfl

/-- In every run, a COMMIT leaves the writes of its transaction in the store just when the replica knows
    them. -/
theorem commit_holds_writes_iff (wire : Wire) (config : Configuration) (E : KVEnv)
    (store : Nat → String → Option String) (txn : Nat → String) {past : List (Sys KVTxnServer)}
    {s s' : Sys KVTxnServer}
    (hr : Run (system (kvShard wire config E store txn)) (fun _ _ => True) past s) {i txnid : Nat}
    (hc : CommitStep (kvShard wire config E store txn) s s' i txnid) :
    HoldsWrites E (txn txnid) (Server.app (s'.state (.replica i))) ↔
      KnowsWrites E (txn txnid) txnid (Server.app (s.state (.replica i))) := by
  obtain ⟨g, hs, -⟩ := invariant_of_run (W := False) (U := False) keptBy_writesOf (fun h => h.elim)
    (fun h => h.elim) (fun h => h.elim) hr
  obtain ⟨k, src, o, entry, hk, hstep, hrun, hentry, hst, hop, rfl⟩ := hc
  obtain ⟨hmem, hrun₀, hs'⟩ := Cluster.Sys.step_deliver hstep hk
  obtain ⟨hok, hw⟩ := hs.running (.replica i) hmem hrun₀
  refine holdsWrites_iff hw ?_
  rw [hs'] at hrun ⊢
  exact Cluster.Sys.of_after (handleFinalizeInconsistent_sat hok hw hentry hst hop) hrun

/-- The delivery of packet `k` is the step in which replica `i` commits, and `p` holds of its application
    before and after. -/
def commitsAt (S : Shard KVTxnServer) (k i txnid : Nat) (p : KVTxnServer → KVTxnServer → Bool)
    (s : Sys KVTxnServer) : Bool :=
  match s.net[k]? with
  | some ⟨_, .replica j, .finalizeInconsistent o⟩ => j = i &&
    ((system S).step s (.deliver k)).any fun s' => !s'.stopped (.replica i) &&
      (Server.record (s.state (.replica i)) o).any (fun entry => entry.state = .tentative &&
        (S.wire.txn.parse entry.request.op).op = .commit &&
        (S.wire.txn.parse entry.request.op).txnid = txnid) &&
      p (Server.app (s.state (.replica i))) (Server.app (s'.state (.replica i)))
  | _ => false

theorem commitStep_of_commitsAt {S : Shard KVTxnServer} {k i txnid : Nat}
    {p : KVTxnServer → KVTxnServer → Bool} {s : Sys KVTxnServer}
    (h : commitsAt S k i txnid p s = true) : ∃ s', CommitStep S s s' i txnid ∧
      p (Server.app (s.state (.replica i))) (Server.app (s'.state (.replica i))) = true := by
  rw [commitsAt] at h
  split at h
  next src j o hk =>
    rw [Bool.and_eq_true, decide_eq_true_eq] at h
    obtain ⟨rfl, h⟩ := h
    obtain ⟨s', hstep, h⟩ := (Option.any_eq_true _ _).mp h
    simp only [Bool.and_eq_true, Bool.not_eq_true'] at h
    obtain ⟨⟨hrun, h⟩, hp⟩ := h
    obtain ⟨entry, hentry, h⟩ := (Option.any_eq_true _ _).mp h
    simp only [Bool.and_eq_true, decide_eq_true_eq] at h
    exact ⟨s', ⟨k, src, o, entry, hk, hstep, hrun, hentry, h.1.1, h.1.2, h.2⟩, hp⟩
  · cases h

theorem puts_putText : (KVEnv.plain true).puts putText = [("k", "v")] := by
  rw [KVEnv.puts, if_neg (by decide +kernel), putText, Codec.parse_serialize]

/-- The client has its transaction prepared, and commits it. -/
def prepareThenCommit : List Event :=
  prepareAll ++ [.act (.client 0) (.commitAbort 1 true), .deliver 9, .deliver 10, .deliver 12, .deliver 13]

theorem commit_holds_writes_iff_pending : ∃ s s', CommitStep threeReplicas s s' 0 1 ∧
    HoldsWrites (.plain true) putText (Server.app (s'.state (.replica 0))) := by
  obtain ⟨past, s, hr, hs⟩ := Run.exists_of_exec (system threeReplicas) (fun _ _ => True)
    prepareThenCommit
    (commitsAt threeReplicas 14 0 1 fun app _ => (app.pendingTxns.find? 1).isSome) (by decide +kernel)
  obtain ⟨s', hc, hp⟩ := commitStep_of_commitsAt hs
  refine ⟨s, s', hc, (commit_holds_writes_iff _ _ _ _ _ hr hc).mpr ?_⟩
  rw [KnowsWrites, if_pos hp]
  intro key value hv value' hv'
  have hv := mem_of_written hv
  rw [puts_putText, List.mem_singleton] at hv hv'
  cases hv
  cases hv'
  exact le_refl _

/-- Seven replicas, which start empty. -/
def sevenReplicas : Shard KVTxnServer :=
  kvShard .plain { n := 7, f := 3 } (.plain true) (fun _ _ => none) fun _ => putText

/-- Six of the replicas prepare the transaction, and the client commits it. -/
def commitWithoutOne : List Event :=
  [.act (.client 0) (.prepare 1), .deliver 0, .deliver 1, .deliver 2, .deliver 3, .deliver 4, .deliver 5,
    .deliver 7, .deliver 8, .deliver 9, .deliver 10, .deliver 11, .deliver 12,
    .act (.client 0) (.commitAbort 1 true), .deliver 23, .deliver 24, .deliver 25, .deliver 26,
    .deliver 27, .deliver 28, .deliver 29, .deliver 30]

/-- The replica that has missed the PREPARE commits nothing. -/
theorem commit_misses_writes : ¬ ∀ past s s' i txnid,
    Run (system sevenReplicas) (fun _ _ => True) past s → CommitStep sevenReplicas s s' i txnid →
    HoldsWrites (.plain true) (sevenReplicas.txn txnid) (Server.app (s'.state (.replica i))) := by
  intro hall
  obtain ⟨past, s, hr, hs⟩ := Run.exists_of_exec (system sevenReplicas) (fun _ _ => True)
    commitWithoutOne (commitsAt sevenReplicas 37 6 1 fun _ app' => app'.store "k" ≠ some "v")
    (by decide +kernel)
  obtain ⟨s', hc, hp⟩ := commitStep_of_commitsAt hs
  have hv : written ((KVEnv.plain true).puts putText) "k" = some "v" := by
    rw [puts_putText]
    rfl
  exact of_decide_eq_true hp (hall past s s' 6 1 hr hc "k" "v" hv)

end Dsnet.Tapir
