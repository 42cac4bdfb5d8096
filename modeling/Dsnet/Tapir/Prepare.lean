import Dsnet.Tapir.ClientSteps
import Dsnet.Transaction.KVTxnServer

/-! A PREPARE that a TAPIR client reports as OK has been executed, without being blocked, by a quorum of the
    replicas, whatever path the decision was reached on, in every run in which no replica is asked again for
    what it was blocked on. One that is answers with the empty result that its record holds. That is parsed
    as an OK. -/

namespace Dsnet.Tapir
open Handler Transaction

variable {σ : Type} {S : Shard σ}

/-- Replica `i` has executed `TXN_PREPARE` of the transaction, and was not blocked. -/
def Prepared (S : Shard σ) (s : Sys σ) (txnid i : Nat) : Prop :=
  ∃ u ∈ Server.upcalls (s.state (.replica i)), u.txn = S.txn txnid ∧
    u.arg = { txnid := txnid, type := .prepare } ∧ u.ret.blocked = false

/-- Nothing is asked of the application. -/
theorem keptBy_true (S : Shard σ) : S.KeptBy fun _ => True where
  init _ := trivial
  prepare _ _ _ _ _ _ := by
    rw [Sat]
    split <;> trivial
  finish _ _ _ _ _ _ := by
    rw [Sat]
    split <;> trivial

/-- What is known of a replica, running or stopped. -/
theorem replicaOk_of_holds {W U : Prop} {J : σ → Prop} {g : History S W} {s : Sys σ}
    (h : (shardInvariant S W U J).Holds S.protocol.member g s) {i : Nat} (hi : i < S.config.n) :
    ReplicaOk g i (s.state (.replica i)) := by
  have hmem : S.protocol.member (.replica i) = true := decide_eq_true hi
  cases hst : s.stopped (.replica i) with
  | false => exact (h.running _ hmem hst).1
  | true => exact h.halted _ hmem hst

/-- What is known of a client, running or stopped. -/
theorem clientSaid_of_holds {W U : Prop} {J : σ → Prop} {g : History S W} {s : Sys σ}
    (h : (shardInvariant S W U J).Holds S.protocol.member g s) (c : Nat) :
    ClientSaid U g c (s.state (.client c)) := by
  cases hst : s.stopped (.client c) with
  | false => exact ClientOk.toClientSaid (h.running (.client c) rfl hst)
  | true => exact h.halted (.client c) rfl hst

/-- An OK for `Prepare` of a transaction means that a quorum have prepared it. -/
def OkMeansPrepared (S : Shard σ) (s : Sys σ) : Prop :=
  ∀ c w reply, (w, .ok, reply) ∈ IRClient.delivered (s.state (.client c)) →
    ∃ Q, IsQuorum S.config.n S.config.quorumSize Q ∧ ∀ i ∈ Q, Prepared S s w.txnid i

/-- So it does in every run in which no replica is asked again for what it was blocked on. -/
theorem prepare_ok_quorum (S : Shard σ) {past : List (Sys σ)} {s : Sys σ}
    (hr : Run (system S) (fun s e => reproposes S s e = false) past s) : OkMeansPrepared S s := by
  intro c w reply h
  obtain ⟨g, hs, -⟩ := invariant_of_run (W := True) (U := False) (keptBy_true S) (fun h => h.elim)
    (fun h => h.elim) (fun _ _ _ h => h) hr
  obtain ⟨k, t, r, ht, hop, hid, hdec, hok⟩ := (clientSaid_of_holds hs c).delivered _ h rfl
  obtain ⟨Q, hQ, hall⟩ := g.decided_ok trivial hdec hok
  refine ⟨Q, hQ, fun i hi => ?_⟩
  obtain ⟨t', ht', _, u, hu, htxn, harg, hret⟩ :=
    (replicaOk_of_holds hs (hQ.lt i hi)).prepared (hall i hi)
  obtain rfl : t = t' := Option.some.inj (ht.symm.trans ht')
  refine ⟨u, hu, ?_, ?_, hret⟩
  · rw [htxn, (g.sends ht).1 hop, hid]
  · rw [harg, hid]

/-- A shard of the key value store. -/
def kvShard (wire : Wire) (config : Configuration) (E : KVEnv) (store : Nat → String → Option String)
    (txn : Nat → String) : Shard KVTxnServer where
  wire := wire
  config := config
  app i := kvTxnServer E (store i)
  txn := txn

/-- The text of a transaction that puts one key. -/
def putText : String := (KVEnv.plain true).message.serialize { gets := [], puts := [("k", "v")] }

/-- Three replicas, which start empty. -/
def threeReplicas : Shard KVTxnServer :=
  kvShard .plain { n := 3, f := 1 } (.plain true) (fun _ _ => none) fun _ => putText

/-- All replicas answer a PREPARE, and the client takes the fast path. -/
def prepareAll : List Event :=
  [.act (.client 0) (.prepare 1), .deliver 0, .deliver 1, .deliver 2, .deliver 3, .deliver 4, .deliver 5]

theorem prepare_ok_quorum_fast : ∃ s : Sys KVTxnServer, ∃ reply,
    (⟨1, 1⟩, .ok, reply) ∈ IRClient.delivered (s.state (.client 0)) ∧
    ∃ Q, IsQuorum 3 2 Q ∧ ∀ i ∈ Q, Prepared threeReplicas s 1 i := by
  obtain ⟨past, s, hr, hs⟩ := Run.exists_of_exec (system threeReplicas)
    (fun s e => reproposes threeReplicas s e = false) prepareAll
    (fun s => (IRClient.delivered (s.state (.client 0))).any fun d => d.1 = ⟨1, 1⟩ ∧ d.2.1 = .ok)
    (by decide +kernel)
  obtain ⟨⟨w, st, reply⟩, hd, hok⟩ := List.any_eq_true.mp hs
  obtain ⟨rfl, rfl⟩ : w = ⟨1, 1⟩ ∧ st = .ok := by simpa using hok
  exact ⟨s, reply, hd, prepare_ok_quorum threeReplicas hr 0 _ _ hd⟩

/-- Another client has the key locked at all replicas, and the answers that say so are overtaken by those to
    copies of the proposals. -/
def proposeTwice : List Event :=
  [.act (.client 1) (.prepare 2), .deliver 0, .deliver 1, .deliver 2,
    .act (.client 0) (.prepare 1), .deliver 6, .deliver 7, .deliver 8, .deliver 6, .deliver 7, .deliver 8,
    .deliver 12, .deliver 13, .deliver 14]

/-- The client reports a PREPARE as OK that all replicas were blocked on. -/
theorem blocked_prepare_ok : ¬ ∀ past s, Run (system threeReplicas) (fun _ _ => True) past s →
    OkMeansPrepared threeReplicas s := by
  intro hall
  obtain ⟨past, s, hr, hs⟩ := Run.exists_of_exec (system threeReplicas) (fun _ _ => True) proposeTwice
    (fun s => ((IRClient.delivered (s.state (.client 0))).any fun d => d.1 = ⟨1, 1⟩ ∧ d.2.1 = .ok) &&
      (List.range 3).all fun i => (Server.upcalls (s.state (.replica i))).all fun u =>
        u.arg ≠ { txnid := 1, type := .prepare } ∨ u.ret.blocked = true) (by decide +kernel)
  obtain ⟨hd, hup⟩ := Bool.and_eq_true_iff.mp hs
  obtain ⟨⟨w, st, reply⟩, hd, hok⟩ := List.any_eq_true.mp hd
  obtain ⟨rfl, rfl⟩ : w = ⟨1, 1⟩ ∧ st = .ok := by simpa using hok
  obtain ⟨Q, hQ, hprep⟩ := hall past s hr 0 _ _ hd
  obtain ⟨i, hi⟩ : Q.Nonempty := Finset.card_pos.mp (lt_of_lt_of_le (by decide) hQ.card)
  obtain ⟨u, hu, _, harg, hret⟩ := hprep i hi
  have := List.all_eq_true.mp (List.all_eq_true.mp hup i (List.mem_range.mpr (hQ.lt i hi))) u hu
  simp [harg, hret] at this

end Dsnet.Tapir
