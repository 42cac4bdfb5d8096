import Dsnet.MinBFT.Votes
import Dsnet.PBFT.Votes

/-! Votes that come before what they are for: `InsertPrepare` and `HandleCommit` of PBFT, and `AddCommit` of MinBFT. -/

namespace Dsnet

/-- As long as few votes come ahead of their batch, no replica has a quorum for a batch that it has not logged. With
    three MinBFT replicas, whatever the order. -/
theorem quorums_logged (P : PBFT.Group) (G : MinBFT.Group) :
    (1 ≤ P.config.f → ∀ past x, Run P.system.recorded (PBFT.FewAhead P) past x →
      ∀ r, (x.1.replica r).QuorumsLogged P.config.f) ∧
    (∀ past x, Run G.system.recorded (MinBFT.FewAhead G) past x →
      ∀ r < G.config.n, (x.1.replica r).QuorumsLogged G.config.f) ∧
    (G.config.n = 2 * G.config.f + 1 → G.config.f = 1 → ∀ past s,
      Run G.system (fun _ _ => True) past s → ∀ r < G.config.n, (s.replica r).QuorumsLogged G.config.f) :=
  ⟨fun hf _ _ hr => PBFT.quorumsLogged_of_run hf hr, fun _ _ hr => MinBFT.quorumsLogged_of_run hr,
    fun hn hf _ _ hr => MinBFT.quorumsLogged_of_three hn hf.le hr⟩

/-- What is so of the message that an event brings can be checked. -/
instance {σ μ ν τ κ : Type} (P : Net.Protocol σ μ ν τ κ) (s : Net.Sys σ μ) (p : Nat → μ → Prop)
    [∀ r m, Decidable (p r m)] : ∀ e : Net.Event τ κ, Decidable (∀ r m, Net.Brings P s r m e → p r m)
  | .client r c k => decidable_of_iff (p r (P.ask c k)) (by simp [Net.Brings])
  | .deliver i => decidable_of_iff (∀ q ∈ s.net[i]?, p q.dst q.msg) ⟨fun h _ _ ⟨q, hq, hr, hm⟩ => hr ▸ hm ▸ h q hq,
      fun h q hq => h _ _ ⟨q, hq, rfl, rfl⟩⟩
  | .timeout _ _ => isTrue fun _ _ h => h.elim

namespace PBFT

instance (s : Replica) : ∀ m : Message, Decidable (m.isNext s)
  | .preprepare m _ => inferInstanceAs (Decidable (m.opNumber = s.log.lastOpnum + 1 ∧ 0 < m.batchSize))
  | .request _ | .prepare _ | .commit _ => isFalse id

/-- Votes come when their batch is in the log, or in its Preprepare. -/
def NoneAhead (G : Group) (x : Sys × List Event) (e : Event) : Prop :=
  ∀ r m, Net.Brings G.protocol x.1 r m e →
    ∀ v ∈ m.vote, v.1.opNumber ≤ (x.1.replica r).log.lastOpnum ∨ m.isNext (x.1.replica r)

instance (G : Group) (x : Sys × List Event) (e : Event) : Decidable (NoneAhead G x e) := by
  unfold NoneAhead
  infer_instance

theorem NoneAhead.few {G : Group} {x : Sys × List Event} {e : Event} (h : NoneAhead G x e) : FewAhead G x e :=
  fun r m b i hb hv => (h r m hb (b, i) hv).imp_right Or.inl

end PBFT

namespace MinBFT

/-- A Commit of a backup for a batch that the replica does not have. -/
def Message.ahead (s : Replica) : Message → Bool
  | .uiMessage _ m => match m.sub with
    | .commit c => m.replicaId ≠ primary ∧ s.lowOp c.primaryUi = none
    | .prepare _ => false
  | .signedRequest _ => false

/-- The replicas have the batches of the backups' Commits that have come. -/
def NoneAhead (G : Group) (x : Sys × List Event) (e : Event) : Prop :=
  ∀ e' ∈ e :: x.2, ∀ r m, Net.Brings G.protocol x.1 r m e' → m.ahead (x.1.replica r) = false

instance (G : Group) (x : Sys × List Event) (e : Event) : Decidable (NoneAhead G x e) := by
  unfold NoneAhead
  infer_instance

theorem NoneAhead.few {G : Group} {x : Sys × List Event} {e : Event} (h : NoneAhead G x e) : FewAhead G x e := by
  intro r _ ui hno Q hQ
  obtain rfl : Q = ∅ := Finset.eq_empty_of_forall_notMem fun j hj => by
    obtain ⟨hp, -, v, m, c, hm, rfl, hc, rfl, -⟩ := hQ j hj
    have hahead : Message.ahead (x.1.replica r) (.uiMessage v m) = false := by
      rcases hm with hb | ⟨e', he', hb⟩
      · exact h e (List.mem_cons_self ..) r _ hb
      · exact h e' (List.mem_cons_of_mem _ he') r _ hb
    simp only [Message.ahead, hc, decide_eq_false_iff_not] at hahead
    exact hahead ⟨hp, not_not.mp hno⟩
  exact Nat.zero_le _

/-- Five replicas, of which two may be faulty; a batch has one request. -/
def fiveReplicas : Group where
  config := { n := 5, f := 2 }
  batchSize := 1
  app _ := .default

end MinBFT

/-- A request is executed by a replica that has a quorum for its batch. -/
theorem quorums_logged_first :
    (∃ x : PBFT.Sys × List PBFT.Event, (x.1.replica 1).executed = [(1, PBFT.requestOf 1)] ∧
      ∀ r, (x.1.replica r).QuorumsLogged 1) ∧
    (∃ x : MinBFT.Sys × List MinBFT.Event, (x.1.replica 1).executed = [(1, MinBFT.firstRequest)] ∧
      ∀ r < 5, (x.1.replica r).QuorumsLogged 2) ∧
    ∃ s : MinBFT.Sys, (s.replica 1).executed = [(1, MinBFT.firstRequest)] ∧
      ∀ r < 3, (s.replica r).QuorumsLogged 1 := by
  refine ⟨?_, ?_, ?_⟩
  · obtain ⟨past, x, hr, hx⟩ := Run.exists_of_exec PBFT.fourReplicas.system.recorded
      (PBFT.NoneAhead PBFT.fourReplicas) PBFT.firstRequest
      (fun x => (x.1.replica 1).executed = [(1, PBFT.requestOf 1)]) (by decide +kernel)
    exact ⟨x, of_decide_eq_true hx,
      (quorums_logged PBFT.fourReplicas MinBFT.fiveReplicas).1 le_rfl past x (hr.weaken fun _ _ => PBFT.NoneAhead.few)⟩
  · obtain ⟨past, x, hr, hx⟩ := Run.exists_of_exec MinBFT.fiveReplicas.system.recorded
      (MinBFT.NoneAhead MinBFT.fiveReplicas)
      [.client 0 5 MinBFT.firstRequest, .deliver 0, .deliver 1, .deliver 4, .deliver 13]
      (fun x => (x.1.replica 1).executed = [(1, MinBFT.firstRequest)]) (by decide +kernel)
    exact ⟨x, of_decide_eq_true hx,
      (quorums_logged PBFT.fourReplicas MinBFT.fiveReplicas).2.1 past x (hr.weaken fun _ _ => MinBFT.NoneAhead.few)⟩
  · obtain ⟨past, s, hr, hs⟩ := Run.exists_of_exec MinBFT.threeReplicas.system (fun _ _ => True)
      [.client 0 5 MinBFT.firstRequest, .client 1 5 MinBFT.firstRequest, .deliver 2, .deliver 0, .deliver 4]
      (fun s => (s.replica 1).executed = [(1, MinBFT.firstRequest)]) (by decide +kernel)
    exact ⟨s, of_decide_eq_true hs, (quorums_logged PBFT.fourReplicas MinBFT.threeReplicas).2.2 rfl rfl past s hr⟩

/-- PBFT: the Prepares of replicas 1 and 2 come to replica 3 before the Preprepare. MinBFT: the Commits of three backups
    come to the fourth before the Prepare. The last replica stops, with a quorum for a batch that it has not logged. -/
theorem votes_overtake :
    (∃ past s, Run PBFT.fourReplicas.system (fun _ _ => True) past s ∧ s.stopped 3 = true ∧
      ¬ (s.replica 3).QuorumsLogged 1) ∧
    ∃ past s, Run MinBFT.fiveReplicas.system (fun _ _ => True) past s ∧ s.stopped 4 = true ∧
      ¬ (s.replica 4).QuorumsLogged 2 := by
  constructor
  · obtain ⟨past, s, hr, hs⟩ := Run.exists_of_exec PBFT.fourReplicas.system (fun _ _ => True)
      [.client 0 5 (.request (PBFT.requestOf 1)), .deliver 0, .deliver 1, .deliver 5, .deliver 8]
      (fun s => s.stopped 3 = true ∧ ∃ v ∈ s.net.filterMap (·.msg.vote), 2 ≤ ((s.replica 3).voters v.1).card ∧
        (s.replica 3).log.lastOpnum < v.1.opNumber) (by decide +kernel)
    obtain ⟨hstop, v, -, hquorum, hlast⟩ := of_decide_eq_true hs
    exact ⟨past, s, hr, hstop, fun h => absurd (h v.1 hquorum) (Nat.not_le.mpr hlast)⟩
  · obtain ⟨past, s, hr, hs⟩ := Run.exists_of_exec MinBFT.fiveReplicas.system (fun _ _ => True)
      [.client 0 5 MinBFT.firstRequest, .deliver 0, .deliver 1, .deliver 2, .deliver 11, .deliver 15, .deliver 19]
      (fun s => s.stopped 4 = true ∧ 3 ≤ ((s.replica 4).commitQuorum.messages 1).size ∧ (s.replica 4).lowOp 1 = none)
      (by decide +kernel)
    obtain ⟨hstop, hquorum, hno⟩ := of_decide_eq_true hs
    exact ⟨past, s, hr, hstop, fun h => h 1 hquorum hno⟩

end Dsnet
