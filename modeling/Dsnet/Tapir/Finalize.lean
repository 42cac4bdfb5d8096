import Dsnet.Tapir.Prepare

/-! The results that a TAPIR client finalizes. The slow path gives up on the fast path and keeps what it has
    decided for later retries, but a reply that completes the super quorum afterwards is decided on as
    if nothing had happened, and so is one that replaces another after the fast path. Runs in which that does
    not occur, unless the replies agree with the decision, have one result for each operation. -/

namespace Dsnet.Tapir
open Handler Transaction

variable {σ : Type} {S : Shard σ}

/-- One result for each operation: in all that is finalized, for the continuation, and in the records. -/
structure OneResult (S : Shard σ) (past : List (Sys σ)) (s : Sys σ) : Prop where
  sent : ∀ x ∈ s.net, ∀ y ∈ s.net, ∀ {o r r'}, x.msg = .finalizeConsensus o r →
    y.msg = .finalizeConsensus o r' → r = r'
  continued : ∀ {c k r}, (k, r) ∈ IRClient.continued (s.state (.client c)) →
    ∀ x ∈ s.net, ∀ {r'}, x.msg = .finalizeConsensus (c, k) r' → r = r'
  recorded : ∀ t ∈ past, ∀ {i o e}, i < S.config.n →
    Server.record (t.state (.replica i)) o = some e → e.state = .finalized →
    ∃ e', Server.record (s.state (.replica i)) o = some e' ∧ e'.state = .finalized ∧ e'.result = e.result

/-- What is under way to be finalized has been decided on. -/
theorem decided_of_finalize {W U : Prop} {J : σ → Prop} {g : History S W} {s : Sys σ}
    (h : (shardInvariant S W U J).Holds S.protocol.member g s) {x : Cluster.Packet Node Message}
    (hx : x ∈ s.net) {o : OpId} {r : String} (hm : x.msg = .finalizeConsensus o r) : g.decided o r := by
  have hpk := h.packet x hx
  obtain ⟨src, dst, m⟩ := x
  obtain rfl : m = _ := hm
  exact hpk.2

/-- What no process takes back stays. -/
theorem History.of_leads {W U : Prop} {J : σ → Prop} {g g' : History S W} (p : History S W → Prop)
    (hl : (shardInvariant S W U J).Leads g' g)
    (hp : ∀ {q : Node} {h h' : History S W}, h.Advances q h' → p h → p h') (h : p g') : p g :=
  hl.keeps hp h

/-- A finalized entry of a replica stays, with what it says, where its client decides only once. -/
theorem entry_unique {W : Prop} {J : σ → Prop} {g g' : History S W} {s t : Sys σ}
    (hs : (shardInvariant S W True J).Holds S.protocol.member g s)
    (ht : (shardInvariant S W True J).Holds S.protocol.member g' t)
    (hl : (shardInvariant S W True J).Leads g' g) {i : Nat} (hi : i < S.config.n) {o : OpId}
    {e : RecordEntry} (he : Server.record (t.state (.replica i)) o = some e)
    (hfin : e.state = .finalized) :
    ∃ e', Server.record (s.state (.replica i)) o = some e' ∧ e'.state = .finalized ∧
      e'.result = e.result := by
  have hrs := replicaOk_of_holds hs hi
  have hrt := replicaOk_of_holds ht hi
  have hstill : g.finalized o i := History.of_leads (·.finalized o i) hl
    (fun hg h => hg.finalized h) (hrt.finalized.mpr ⟨e, he, hfin⟩)
  obtain ⟨e', he', hfin'⟩ := hrs.finalized.mp hstill
  refine ⟨e', he', hfin', ?_⟩
  obtain ⟨a, ha, _, hempty, hprep⟩ := (hrt.record he).request
  obtain ⟨a', ha', _, hempty', hprep'⟩ := (hrs.record he').request
  have ha'' : g.request o = some a := History.of_leads (·.request o = some a) hl
    (fun hg h => hg.request h) ha
  obtain rfl : a = a' := Option.some.inj (ha''.symm.trans ha')
  by_cases hop : a.op = .prepare
  · have hdec : g.decided o e.result := History.of_leads (·.decided o e.result) hl
      (fun hg h => hg.decided h) (hprep hop hfin)
    exact (clientSaid_of_holds hs o.1).one trivial (hprep' hop hfin') hdec
  · rw [hempty hop, hempty' hop]

/-- In every run in which no client decides again on other replies, an operation has one result. -/
theorem one_result (S : Shard σ) (hv : S.config.Valid) {past : List (Sys σ)} {s : Sys σ}
    (hr : Run (system S) (fun s e => decidesAgain S s e = false) past s) : OneResult S past s := by
  obtain ⟨g, hs, hpast⟩ := invariant_of_run (W := False) (U := True) (keptBy_true S) (fun _ => hv)
    (fun _ _ _ h => h) (fun h => h.elim) hr
  have hone : ∀ {o r r'}, g.decided o r → g.decided o r' → r = r' := fun {o} _ _ h h' =>
    (clientSaid_of_holds hs o.1).one trivial h h'
  constructor
  · intro x hx y hy o r r' hxm hym
    exact hone (decided_of_finalize hs hx hxm) (decided_of_finalize hs hy hym)
  · intro c k r hk x hx r' hxm
    exact hone ((clientSaid_of_holds hs c).continued _ hk) (decided_of_finalize hs hx hxm)
  · intro t ht i o e hi he hfin
    obtain ⟨g', ht', hl⟩ := hpast t ht
    exact entry_unique hs ht' hl hi he hfin

theorem one_result_fast : ∃ past s,
    Run (system threeReplicas) (fun s e => decidesAgain threeReplicas s e = false) past s ∧
    OneResult threeReplicas past s ∧ (IRClient.continued (s.state (.client 0))).length = 1 := by
  obtain ⟨past, s, hr, hs⟩ := Run.exists_of_exec (system threeReplicas)
    (fun s e => decidesAgain threeReplicas s e = false) prepareAll
    (fun s => (IRClient.continued (s.state (.client 0))).length = 1) (by decide +kernel)
  exact ⟨past, s, hr, one_result threeReplicas rfl hr, of_decide_eq_true hs⟩

/-- The timer fires before there are any replies, replica 0 learns that RETRY has been decided on, and then
    the replies come in. -/
def slowThenFast : List Event :=
  [.act (.client 0) (.prepare 1), .act (.client 0) (.timer 1), .deliver 0, .deliver 3, .deliver 1,
    .deliver 2, .deliver 6, .deliver 8, .deliver 9, .deliver 10]

/-- Two results are finalized for one operation. -/
theorem two_results : ¬ ∀ past s, Run (system threeReplicas) (fun _ _ => True) past s →
    OneResult threeReplicas past s := by
  intro hall
  obtain ⟨past, s, hr, hs⟩ := Run.exists_of_exec (system threeReplicas) (fun _ _ => True) slowThenFast
    (fun s => s.net.any fun x => s.net.any fun y =>
      match x.msg, y.msg with
      | .finalizeConsensus o r, .finalizeConsensus o' r' => o = o' && r ≠ r'
      | _, _ => false) (by decide +kernel)
  obtain ⟨x, hx, hs⟩ := List.any_eq_true.mp hs
  obtain ⟨y, hy, hs⟩ := List.any_eq_true.mp hs
  split at hs
  next o r o' r' hxm hym =>
    obtain ⟨rfl, hne⟩ : o = o' ∧ r ≠ r' := by simpa using hs
    exact hne ((hall past s hr).sent x hx y hy hxm hym)
  · cases hs

end Dsnet.Tapir
