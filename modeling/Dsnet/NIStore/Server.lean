import Dsnet.Lib.Undo
import Dsnet.Lib.StdMap
import Dsnet.NIStore.TxnStore
import Mathlib.Algebra.Group.Int.Defs

/-! `nistore/server.{h,cc}`: the upcalls that the replication protocols make of the server. An operation is
    a serialized request; `ReplicaUpcall` calls the store for it, and `RollbackUpcall` takes the operations
    it is given back, the last one first.

    What protobuf makes of a string is the parameter `parse`. The field `store` is declared to be a
    `TxnStore` by value, so that of the store assigned to it only the base is kept; the upcalls are those
    of a server whose store is the one that was assigned. -/

namespace Dsnet.NIStore

/-- `Request::Operation`. -/
inductive Operation where
  | begin | get | put | prepare | commit | abort
  deriving DecidableEq, Repr

/-- `Request`. An argument that is not there reads as empty. -/
structure Request where
  op : Operation
  txnid : Nat
  arg0 : String
  arg1 : String
  deriving DecidableEq, Repr

/-- The sign in front of a number. -/
def sign : List Char → Bool × List Char
  | '-' :: cs => (true, cs)
  | '+' :: cs => (false, cs)
  | cs => (false, cs)

/-- `stol`: blanks, a sign and digits, whatever follows. It throws, which ends the process, when there are no
    digits and when the number is none of a `long`. -/
def stol (str : String) : Option Int :=
  let (negative, rest) := sign (str.toList.dropWhile fun c => c = ' ' || (9 ≤ c.toNat && c.toNat ≤ 13))
  let digits := rest.takeWhile Char.isDigit
  let n : Nat := digits.foldl (fun n c => 10 * n + (c.toNat - 48)) 0
  let value : Int := if negative then -n else n
  if digits = [] then none
  else if -2 ^ 63 ≤ value ∧ value < 2 ^ 63 then some value
  else none

/-- What the request asks of the store, as the operation of that number. The timestamp of a commit is a
    `long` that is passed as a `uint64_t`. -/
def Request.call (opnum : Nat) (request : Request) : Option Call :=
  match request.op with
  | .begin => some (.begin request.txnid)
  | .get => some (.get request.txnid request.arg0)
  | .put => some (.put request.txnid request.arg0 request.arg1)
  | .prepare => some (.prepare request.txnid opnum)
  | .commit => (stol request.arg0).map fun timestamp =>
      .commit request.txnid (timestamp % 2 ^ 64).toNat opnum
  | .abort => some (.abort request.txnid opnum)

namespace Server
variable {σ γ : Type} (T : TxnStore σ) (parse : String → Request)

/-- What the operation asks of the store. -/
def callOf (op : Nat × String) : Option Call := (parse op.2).call op.1

/-- `ReplicaUpcall`: the status and the value of the reply. -/
def replicaUpcall (s : σ) (opnum : Nat) (str1 : String) : Option ((Int × String) × σ) :=
  (callOf parse (opnum, str1)).bind (T.call s)

/-- `RollbackUpcall`; the numbers it is passed beside the operations are not read. -/
def rollbackUpcall (s : σ) (opMap : StdMap Nat String) : Option σ :=
  opMap.toList.reverse.foldlM (fun s op => (callOf parse op).bind (T.uncall s)) s

/-- `CommitUpcall`. -/
def commitUpcall (s : σ) (opnum : Nat) : σ := T.specCommit s opnum

/-- The operations of the map, executed in the order of their numbers. -/
def replicaUpcalls (s : σ) (opMap : StdMap Nat String) : Option σ :=
  opMap.toList.foldlM (fun s op => (replicaUpcall T parse s op.1 op.2).map Prod.snd) s

/-- What is kept of the calls, of operations. -/
def nextOf (next : γ → σ → Call → γ) (g : γ) (s : σ) (op : Nat × String) : γ :=
  match callOf parse op with
  | some c => next g s c
  | none => g

/-- The calls that the operations ask for meet `C`, each in the state before it. -/
def Meets (next : γ → σ → Call → γ) (C : γ → σ → Call → Prop) (g : γ) (s : σ)
    (opMap : StdMap Nat String) : Prop :=
  Undo.Meets (fun s op => (replicaUpcall T parse s op.1 op.2).map Prod.snd) (nextOf parse next)
    (fun g s op => ∀ c, callOf parse op = some c → C g s c) g s opMap.toList

variable {T parse}

/-- Operations meet a condition when the calls of the first one and of the rest do. -/
theorem meets_cons {next : γ → σ → Call → γ} {C : γ → σ → Call → Prop} {g : γ} {s t : σ}
    {op : Nat × String} {ops : List (Nat × String)} {c : Call} {r : Int × String}
    (hop : callOf parse op = some c) (hc : C g s c) (hs : T.call s c = some (r, t))
    (h : Undo.Meets (fun s op => (replicaUpcall T parse s op.1 op.2).map Prod.snd) (nextOf parse next)
      (fun g s op => ∀ c, callOf parse op = some c → C g s c) (next g s c) t ops) :
    Undo.Meets (fun s op => (replicaUpcall T parse s op.1 op.2).map Prod.snd) (nextOf parse next)
      (fun g s op => ∀ c, callOf parse op = some c → C g s c) g s (op :: ops) := by
  refine .cons (fun c' hc' => ?_) (t := t) ?_ ?_
  · obtain rfl := Option.some.inj (hop.symm.trans hc')
    exact hc
  · show ((callOf parse op).bind (T.call s)).map Prod.snd = some t
    rw [hop, Option.bind_some, hs]
    rfl
  · rwa [nextOf, hop]

variable {next : γ → σ → Call → γ} {C : γ → σ → Call → Prop} {I : γ → σ → Prop} {A : γ → σ → σ → Prop}

/-- If each call that meets `C` can be taken back from a state that agrees with the one it led to, then
    operations whose calls meet it are taken back. Agreement may need what the calls keep (`I`). -/
theorem rollback_of_calls
    (hI : ∀ g s c r s', I g s → C g s c → T.call s c = some (r, s') → I (next g s c) s')
    (hrefl : ∀ g s, I g s → A g s s)
    (h1 : ∀ g s c r s' t', C g s c → T.call s c = some (r, s') → A (next g s c) s' t' →
      ∃ t, T.uncall t' c = some t ∧ A g s t)
    {g : γ} {s s' : σ} {opMap : StdMap Nat String} (hi : I g s) (hm : Meets T parse next C g s opMap)
    (h : replicaUpcalls T parse s opMap = some s') :
    ∃ t, rollbackUpcall T parse s' opMap = some t ∧ A g s t := by
  have hop : ∀ {g : γ} {s : σ} {op : Nat × String} {s' : σ},
      (∀ c, callOf parse op = some c → C g s c) →
      (replicaUpcall T parse s op.1 op.2).map Prod.snd = some s' →
      ∃ c r, callOf parse op = some c ∧ C g s c ∧ T.call s c = some (r, s') := by
    intro g s op s' hc hs
    obtain ⟨⟨r, s₁⟩, hr, rfl⟩ := Option.map_eq_some_iff.mp hs
    obtain ⟨c, hop, hcall⟩ := Option.bind_eq_some_iff.mp hr
    exact ⟨c, r, hop, hc c hop, hcall⟩
  refine Undo.foldlM_undo (fun g s op s' t' hc hs hA => ?_) hm h (hrefl _ s' ?_)
  · obtain ⟨c, r, hop, hc, hcall⟩ := hop hc hs
    rw [nextOf, hop] at hA
    obtain ⟨t, ht, hat⟩ := h1 g s c r s' t' hc hcall hA
    exact ⟨t, by rw [hop]; exact ht, hat⟩
  · refine Undo.kept_invariant (fun g s op s' hi hc hs => ?_) hi hm h
    obtain ⟨c, r, hop, hc, hcall⟩ := hop hc hs
    rw [nextOf, hop]
    exact hI g s c r s' hi hc hcall

/-- Some requests as they are serialized, and what parsing makes of them. -/
def requests : List (String × Request) :=
  [("\x08\x01\x10\x01", ⟨.begin, 1, "", ""⟩),
   ("\x08\x03\x10\x01\x1a\x01k\x22\x01v", ⟨.put, 1, "k", "v"⟩),
   ("\x08\x03\x10\x01\x1a\x01k\x22\x00", ⟨.put, 1, "k", ""⟩),
   ("\x08\x04\x10\x01", ⟨.prepare, 1, "", ""⟩),
   ("\x08\x05\x10\x01\x1a\x012", ⟨.commit, 1, "2", ""⟩)]

/-- `ParseFromString` on these. -/
def parseRequest (str : String) : Request :=
  ((requests.find? (·.1 = str)).map Prod.snd).getD ⟨.begin, 0, "", ""⟩

/-- A transaction that makes one put and commits. -/
def transaction (put : String) : StdMap Nat String :=
  ⟨[(1, "\x08\x01\x10\x01"), (2, put), (3, "\x08\x04\x10\x01"), (4, "\x08\x05\x10\x01\x1a\x012")], by simp⟩

end Server
end Dsnet.NIStore
