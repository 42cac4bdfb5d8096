import Mathlib.Tactic.Common

/-! `nistore/txnstore.h` and the two upcalls of `nistore/server.cc`: the interface of the transactional
    stores, the calls that `Server::ReplicaUpcall` makes of it and the inverse calls that
    `Server::RollbackUpcall` makes. The requests are taken as they are after parsing. -/

namespace Dsnet.NIStore

/-- `TxnStore`, over the states of a store. A call that ends the process gives `none`. -/
structure TxnStore (σ : Type) where
  begin : σ → Nat → σ
  get : σ → Nat → String → Option ((Int × String) × σ)
  put : σ → Nat → String → String → Option (Int × σ)
  prepare : σ → Nat → Nat → Option (Int × σ)
  commit : σ → Nat → Nat → Nat → Option σ
  abortTxn : σ → Nat → Nat → Option σ
  unbegin : σ → Nat → σ
  unget : σ → Nat → String → Option σ
  unput : σ → Nat → String → String → Option σ
  unprepare : σ → Nat → Nat → Option σ
  uncommit : σ → Nat → Nat → Nat → Option σ
  unabort : σ → Nat → Nat → Option σ
  specCommit : σ → Nat → σ

/-- The calls that requests stand for, with the opnum where the store is told it. -/
inductive Call where
  | begin (id : Nat)
  | get (id : Nat) (key : String)
  | put (id : Nat) (key value : String)
  | prepare (id op : Nat)
  | commit (id timestamp op : Nat)
  | abort (id op : Nat)
  deriving DecidableEq, Repr

/-- The transaction that a call is of. -/
def Call.txnid : Call → Nat
  | begin id | get id _ | put id _ _ | prepare id _ | commit id _ _ | abort id _ => id

namespace TxnStore
variable {σ : Type}

/-- The switch of `Server::ReplicaUpcall`: the status and the value of the reply. -/
def call (T : TxnStore σ) (s : σ) : Call → Option ((Int × String) × σ)
  | .begin id => some ((0, ""), T.begin s id)
  | .get id key => T.get s id key
  | .put id key value => (T.put s id key value).map fun (status, s) => ((status, ""), s)
  | .prepare id op => (T.prepare s id op).map fun (status, s) => ((status, ""), s)
  | .commit id timestamp op => (T.commit s id timestamp op).map fun s => ((0, ""), s)
  | .abort id op => (T.abortTxn s id op).map fun s => ((0, ""), s)

/-- The switch of `Server::RollbackUpcall`. -/
def uncall (T : TxnStore σ) (s : σ) : Call → Option σ
  | .begin id => some (T.unbegin s id)
  | .get id key => T.unget s id key
  | .put id key value => T.unput s id key value
  | .prepare id op => T.unprepare s id op
  | .commit id timestamp op => T.uncommit s id timestamp op
  | .abort id op => T.unabort s id op

/-- One call after the other. -/
def calls (T : TxnStore σ) (s : σ) (cs : List Call) : Option σ :=
  cs.foldlM (fun s c => (T.call s c).map Prod.snd) s

/-- What every call keeps, calls keep. -/
theorem calls_invariant (T : TxnStore σ) {I : σ → Prop}
    (hI : ∀ s c r s', I s → T.call s c = some (r, s') → I s') {cs : List Call} {s s' : σ} (hs : I s)
    (h : T.calls s cs = some s') : I s' := by
  induction cs generalizing s with
  | nil =>
    obtain rfl : s = s' := by simpa [calls] using h
    exact hs
  | cons c cs ih =>
    rw [calls, List.foldlM_cons] at h
    obtain ⟨s₁, h₁, h⟩ := Option.bind_eq_some_iff.mp h
    obtain ⟨⟨r, s₂⟩, hc, rfl⟩ := Option.map_eq_some_iff.mp h₁
    exact ih (hI s c r s₂ hs hc) h

end TxnStore
end Dsnet.NIStore
