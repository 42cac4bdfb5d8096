import Dsnet.Eris.Handlers
import Dsnet.NOPaxos.Rewind

/-! `ErisServer::RewindLog`, which is written like `NOPaxosReplica::RewindLogToOpnum`, and what it does not do
    either: the entry that it rewinds to is gone, while `lastOp` goes on naming it. -/

namespace Dsnet.Eris
open Handler Transaction

variable {σ : Type}

/-- What `RewindLog` does: the entries below `k` are all that stays. -/
theorem rewindLog_spec (s : Server σ) (k : Nat) :
    Sat (rewindLog k) s
      (fun _ s' o => o = [] ∧ ∃ log, s.log.removeAfter k = some log ∧
        s' = { s with lastOp := k, log := log, nextMsgnum := log.lastViewstamp.msgnum + 1 })
      fun _ _ => True := by
  simp only [rewindLog, sat_bind, sat_get, sat_assert, sat_modify, sat_ofOption]
  exact ⟨fun _ => ⟨fun _ => ⟨fun log hlog => ⟨rfl, log, hlog, rfl⟩, fun _ => trivial⟩, fun _ => trivial⟩,
    fun _ => trivial⟩

/-- `RewindLog(k)` as the views and epochs rely on it. -/
abbrev RewindsTo (s : Server σ) (k : Nat) : Prop :=
  Rewinds (fun s : Server σ => s.log.find) (·.lastOp) (·.log.lastOpnum) (rewindLog k) s k

theorem not_rewindsTo (s : Server σ) (k : Nat) : ¬ RewindsTo s k := by
  refine not_rewinds ((rewindLog_spec s k).mono (fun _ s' _ h => ?_) fun _ _ h => h)
  obtain ⟨-, log, hlog, rfl⟩ := h
  obtain ⟨hk, hent⟩ := ErisLog.removeAfter_eq_some hlog
  simp only [ErisLog.lastOpnum_eq, hent, List.length_take]
  omega

/-- In no reachable state of a replica does either rewind do what it is for, whatever opnum between the last
    committed and the last one it is called with. -/
theorem never_rewinds (G : NOPaxos.Group) (E : ServerEnv σ) (k : Nat) :
    (∀ C past sys, Run (NOPaxos.system G) C past sys → ∀ r,
      (sys.replica r).lastCommittedOp ≤ k → k ≤ (sys.replica r).lastOp →
      ¬ NOPaxos.RewindsTo (sys.replica r) k) ∧
    ∀ C past s, Run (serverSystem E) C past s → s.lastCommittedOp ≤ k → k ≤ s.lastOp → ¬ RewindsTo s k :=
  ⟨fun _ _ sys _ r _ _ => NOPaxos.not_rewindsTo (sys.replica r) k,
    fun _ _ s _ _ _ => not_rewindsTo s k⟩

/-! ### A rewind to the last entry of the log -/

/-- Three replicas of NOPaxos, which are sent one operation. -/
def rewound : NOPaxos.Group :=
  { config := { n := 3, f := 1 }, app := fun _ => App.default, lookupAddress := fun _ => .client 7
    sequenced := fun _ _ => ⟨"x", 7, 1, ""⟩ }

/-- A replica of Eris, which is not the leader. -/
def rewoundServer : ServerEnv Unit :=
  { config := { n := 3, f := 1 }, groupIdx := 0, replicaIdx := 1
    app := { init := (), invokeTransaction := fun _ _ => pure ("", ⟨0, false, true, StdSet.empty, .normal⟩) } }

/-- A transaction of the shard, the first message of the first session. -/
def rewoundTxn : RequestMessage :=
  { txnid := 1, type := .independent
    request := { op := "x", clientid := 7, clientreqid := 1, ops := [⟨0, "x", 1⟩] } }

/-- The log of a replica that has logged one operation is empty after a rewind to it. -/
theorem rewind_loses_entry :
    (∃ past sys, Run (NOPaxos.system rewound) (fun _ _ => True) past sys ∧
      (sys.replica 1).lastCommittedOp ≤ 1 ∧ (sys.replica 1).lastOp = 1 ∧
      ((sys.replica 1).log.find 1).isSome = true ∧
      ((NOPaxos.rewindLogToOpnum 1 (sys.replica 1)).2.1.log.find 1) = none ∧
      ¬ NOPaxos.RewindsTo (sys.replica 1) 1) ∧
    ∃ past s, Run (serverSystem rewoundServer) (fun _ _ => True) past s ∧
      s.lastCommittedOp ≤ 1 ∧ s.lastOp = 1 ∧ (s.log.find 1).isSome = true ∧
      ((rewindLog 1 s).2.1.log.find 1) = none ∧ ¬ RewindsTo s 1 := by
  constructor
  · obtain ⟨past, sys, hr, hs⟩ := Run.exists_of_exec (NOPaxos.system rewound) (fun _ _ => True)
      [.client 1 7 (.request 0 0)]
      (fun sys => (sys.replica 1).lastCommittedOp ≤ 1 ∧ (sys.replica 1).lastOp = 1 ∧
        ((sys.replica 1).log.find 1).isSome = true ∧
        ((NOPaxos.rewindLogToOpnum 1 (sys.replica 1)).2.1.log.find 1) = none) (by decide)
    obtain ⟨hc, hl, hf, hn⟩ := of_decide_eq_true hs
    exact ⟨past, sys, hr, hc, hl, hf, hn, NOPaxos.not_rewindsTo _ _⟩
  · obtain ⟨past, s, hr, hs⟩ := Run.exists_of_exec (serverSystem rewoundServer) (fun _ _ => True)
      [.message (.client 7) 0 (fun _ => some 1) (.request rewoundTxn)]
      (fun s => s.lastCommittedOp ≤ 1 ∧ s.lastOp = 1 ∧ (s.log.find 1).isSome = true ∧
        ((rewindLog 1 s).2.1.log.find 1) = none) (by decide)
    obtain ⟨hc, hl, hf, hn⟩ := of_decide_eq_true hs
    exact ⟨past, s, hr, hc, hl, hf, hn, not_rewindsTo _ _⟩

/-- After one operation. -/
theorem never_rewinds_one :
    (∃ past sys, Run (NOPaxos.system rewound) (fun _ _ => True) past sys ∧ (sys.replica 1).lastOp = 1 ∧
      ¬ NOPaxos.RewindsTo (sys.replica 1) 1) ∧
    ∃ past s, Run (serverSystem rewoundServer) (fun _ _ => True) past s ∧ s.lastOp = 1 ∧ ¬ RewindsTo s 1 := by
  constructor
  · obtain ⟨past, sys, hr, hs⟩ := Run.exists_of_exec (NOPaxos.system rewound) (fun _ _ => True)
      [.client 1 7 (.request 0 0)]
      (fun sys => (sys.replica 1).lastCommittedOp ≤ 1 ∧ (sys.replica 1).lastOp = 1) (by decide)
    obtain ⟨hc, hl⟩ := of_decide_eq_true hs
    exact ⟨past, sys, hr, hl, (never_rewinds rewound rewoundServer 1).1 _ _ _ hr 1 hc hl.ge⟩
  · obtain ⟨past, s, hr, hs⟩ := Run.exists_of_exec (serverSystem rewoundServer) (fun _ _ => True)
      [.message (.client 7) 0 (fun _ => some 1) (.request rewoundTxn)]
      (fun s => s.lastCommittedOp ≤ 1 ∧ s.lastOp = 1) (by decide)
    obtain ⟨hc, hl⟩ := of_decide_eq_true hs
    exact ⟨past, s, hr, hl, (never_rewinds rewound rewoundServer 1).2 _ _ _ hr hc hl.ge⟩

end Dsnet.Eris
