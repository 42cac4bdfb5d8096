import Dsnet.NOPaxos.Replica

/-! `NOPaxosReplica::RewindLogToOpnum`: the log is to end with the entry of the given opnum. `Log::RemoveAfter`
    removes from an opnum on, that opnum included, so the entry goes too, and `lastOp` names an entry that
    is not there: no `Append` at `lastOp + 1` succeeds from then on. -/

namespace Dsnet
open Handler

/-- From `s` the handler `m` cuts the log after opnum `k`: what is in the log up to `k` stays, nothing comes
    after it, and `lastOp` is the last opnum of the log. -/
def Rewinds {σ μ ε : Type} (find : σ → Nat → Option ε) (lastOp lastOpnum : σ → Nat) (m : Handler σ μ Unit)
    (s : σ) (k : Nat) : Prop :=
  ∃ s' o, m s = (some (), s', o) ∧ (∀ j ≤ k, find s' j = find s j) ∧ (∀ j > k, find s' j = none) ∧
    lastOp s' = lastOpnum s'

/-- A handler that leaves `lastOp` past the end of the log does not. -/
theorem not_rewinds {σ μ ε : Type} {find : σ → Nat → Option ε} {lastOp lastOpnum : σ → Nat}
    {m : Handler σ μ Unit} {s : σ} {k : Nat}
    (h : Sat m s (fun _ s' _ => lastOpnum s' < lastOp s') fun _ _ => True) :
    ¬ Rewinds find lastOp lastOpnum m s k := by
  rintro ⟨s', o, hm, -, -, hlast⟩
  simp only [Sat, hm] at h
  omega

namespace NOPaxos
variable {s : Replica} {k : Nat}

/-- What `RewindLogToOpnum` does: the entries below `k` are all that stays. -/
theorem rewindLogToOpnum_spec (s : Replica) (k : Nat) :
    Sat (rewindLogToOpnum k) s
      (fun _ s' o => o = [] ∧ ∃ log, log.entries = s.log.entries.take (k - 1) ∧
        s' = { s with lastOp := k, log := log, nextMsgnum := log.lastViewstamp.msgnum + 1 } ∧
        1 ≤ k ∧ s.lastCommittedOp ≤ k ∧ s.lastExecutedOp ≤ k)
      fun _ _ => True := by
  simp only [rewindLogToOpnum, sat_bind, sat_get, sat_assert, sat_modify, sat_ofOption]
  refine ⟨fun hc => ⟨fun hx => ⟨fun log hlog => ?_, fun _ => trivial⟩, fun _ => trivial⟩, fun _ => trivial⟩
  obtain ⟨hent, hk⟩ := Log.removeAfter_eq_some hlog
  exact ⟨rfl, log, hent, rfl, hk, hc, by omega⟩

/-- `RewindLogToOpnum(k)` as the views and sessions rely on it. -/
abbrev RewindsTo (s : Replica) (k : Nat) : Prop :=
  Rewinds (fun s : Replica => s.log.find) (·.lastOp) (·.log.lastOpnum) (rewindLogToOpnum k) s k

theorem not_rewindsTo (s : Replica) (k : Nat) : ¬ RewindsTo s k := by
  refine not_rewinds ((rewindLogToOpnum_spec s k).mono (fun _ s' _ h => ?_) fun _ _ h => h)
  obtain ⟨-, log, hent, rfl, hk, -⟩ := h
  simp only [Log.lastOpnum_eq, hent, List.length_take]
  omega

end NOPaxos
end Dsnet
