import Dsnet.Transaction.Calls
import Dsnet.Transaction.KVLocks

/-! What the calls that have been made into the key value store say about its locks: a transaction whose last
    call was a PREPARE that was not blocked holds all the locks it needs, and one whose last call was a
    COMMIT or ABORT holds none. -/

namespace Dsnet.Transaction
open Handler

variable {E : KVEnv} {store : String → Option String}

/-- What the last call about a transaction says about its locks. -/
structure LocksSaid (E : KVEnv) (calls : List Call) (s : KVTxnServer) : Prop where
  ok : s.Ok E
  prepared : ∀ {t c}, lastCall calls t = some c → c.arg.type = .prepare → c.ret.blocked = false →
    ∀ w, ∀ key ∈ E.keys c.txn w, s.lockServer.Holds w key t
  finished : ∀ {t c}, lastCall calls t = some c → c.arg.type = .commit ∨ c.arg.type = .abort → s.Free t
  untouched : ∀ {t}, lastCall calls t = none → s.Free t

/-- One more call. -/
theorem LocksSaid.append {calls : List Call} {s s' : KVTxnServer} (h : LocksSaid E calls s) {c : Call}
    (hc : s.Invoked E c.txn c.arg c.ret s') : LocksSaid E (calls ++ [c]) s' := by
  have hfree : ∀ {t}, t ≠ c.arg.txnid → s.Free t → s'.Free t :=
    fun {t} hne hf => hf.kept (hc.others t hne) hc.ok.toLocksOk
  refine ⟨hc.ok, fun {t c'} hl hp hb w key hkey => ?_, fun {t c'} hl hf => ?_, fun {t} hl => ?_⟩
  · by_cases hne : t = c.arg.txnid
    · subst hne
      rw [lastCall_append_self] at hl
      cases hl
      exact (hc.prepared hp hb).2 w key (mem_keys_of_text (Or.inl hp) hkey)
    · rw [lastCall_append_of_ne hne] at hl
      exact (hc.others t hne).holds (h.prepared hl hp hb w key hkey)
  · by_cases hne : t = c.arg.txnid
    · subst hne
      rw [lastCall_append_self] at hl
      cases hl
      exact hc.finished (by rintro hp; simp [hp] at hf) (hc.answered hf)
    · rw [lastCall_append_of_ne hne] at hl
      exact hfree hne (h.finished hl hf)
  · by_cases hne : t = c.arg.txnid
    · subst hne
      rw [lastCall_append_self] at hl
      cases hl
    · rw [lastCall_append_of_ne hne] at hl
      exact hfree hne (h.untouched hl)

/-- In the store that some calls have left, the locks are as the calls say. -/
theorem locksSaid_of_made {calls : List Call} (h : (kvTxnServer E store).Made calls) :
    LocksSaid E calls ((kvTxnServer E store).after calls) := by
  refine h.induct (J := LocksSaid E) ?_ fun calls txn arg s opnum hs => ?_
  · have hok := KVTxnServer.ok_initial E store
    exact ⟨hok, fun h => by simp at h, fun h => by simp at h, fun _ => hok.free rfl⟩
  · exact (invokeTransaction_spec hs.ok txn arg).mono (fun x s' _ hx =>
      hs.append (c := ⟨opnum, txn, arg, x.2⟩) hx) fun _ _ _ => trivial

/-- With `retryLock` a call returns. -/
theorem invokeTransaction_returns (hE : E.retryLock = true) {s : KVTxnServer} (hs : s.Ok E)
    (txn : String) (arg : TxnArg) :
    ∃ x s' o, invokeTransaction E txn arg s = (some x, s', o) ∧ s.Invoked E txn arg x.2 s' := by
  rcases (invokeTransaction_spec hs txn arg).cases with h | ⟨_, _, _, h⟩
  · exact h
  · simp [hE] at h

end Dsnet.Transaction
