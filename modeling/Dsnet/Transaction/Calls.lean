import Dsnet.Common.Log
import Dsnet.Transaction.TxnServer

/-! What the servers of transactions on several shards have in common: the processes, their log entries, and
    the calls that a replica makes into its application (`common/replica.h`).

    Each replica keeps the calls that it has made, with what they returned. What the application has
    become is a function of them. -/

namespace Dsnet.Transaction
open Handler

/-- The processes: clients, and the replicas of each shard. -/
inductive Node where
  | client (id : Nat)
  | replica (shard idx : Nat)
  deriving DecidableEq

/-- `SendMessageToGroup`: the replicas of a shard. -/
def group (n shard : Nat) : List Node := (List.range n).map (.replica shard)

/-- `SendMessageToAll`: the other replicas of the shard. -/
def others (n shard idx : Nat) : List Node := ((List.range n).filter (· ≠ idx)).map (.replica shard)

/-- A log entry with what the protocol keeps about its transaction. -/
structure TxnLogEntry (δ : Type) extends LogEntry where
  txnData : δ

section
variable {ε : Type}

/-- `Log::Find`. -/
def findEntry (log : List ε) (opnum : Nat) : Option ε := if opnum < 1 then none else log[opnum - 1]?

/-- `Log::LastOpnum`. -/
def lastOpnum (opnum : ε → Nat) (log : List ε) : Nat := (log.getLast?.map opnum).getD 0

/-- The entry that a pointer leads to is changed where it is. -/
def setEntry (log : List ε) (opnum : Nat) (e : ε) : List ε := log.set (opnum - 1) e

variable {log : List ε} {opnum : Nat} {e e' : ε}

theorem findEntry_succ : findEntry log (opnum + 1) = log[opnum]? := rfl

theorem mem_of_findEntry (h : findEntry log opnum = some e) : e ∈ log := by
  rw [findEntry] at h
  split_ifs at h
  exact List.mem_of_getElem? h

/-- What an entry that is changed keeps of the old one, the log keeps. -/
theorem map_setEntry {α : Type} {f : ε → α} (h : findEntry log opnum = some e) (hf : f e' = f e) :
    (setEntry log opnum e').map f = log.map f := by
  rw [findEntry] at h
  split_ifs at h with hk
  rw [setEntry, List.map_set, hf]
  refine List.ext_getElem? fun i => ?_
  rw [List.getElem?_set]
  split_ifs with hi hl
  · subst hi
    rw [List.getElem?_map, h]
    rfl
  · subst hi
    rw [List.getElem?_eq_none (by simpa using hl)]
  · rfl

/-- What holds of all entries and of the new one. -/
theorem forall_mem_setEntry {p : ε → Prop} (h : ∀ x ∈ log, p x) (he : p e') :
    ∀ x ∈ setEntry log opnum e', p x := by
  intro x hx
  rcases List.mem_or_eq_of_mem_set hx with hx | rfl
  · exact h x hx
  · exact he

end

/-! ### Calls into the application -/

/-- A call of `ReplicaUpcall` with what it has returned. -/
structure Call where
  opnum : Nat
  txn : String
  arg : TxnArg
  ret : TxnRet

/-- The application of a replica, and the calls made into it. -/
structure AppState (σ : Type) where
  app : σ
  upcalls : List Call

variable {σ : Type} (A : TxnServer σ)

/-- The application as it is constructed. -/
def AppState.initial : AppState σ := { app := A.init, upcalls := [] }

/-- `Execute`: the result of the call, unless that has not returned. -/
def AppState.execute (s : AppState σ) (opnum : Nat) (txn : String) (arg : TxnArg) :
    Option (String × TxnRet) × AppState σ :=
  match A.invokeTransaction txn arg s.app with
  | (some (result, ret), app, _) =>
    (some (result, ret), { app := app, upcalls := s.upcalls ++ [⟨opnum, txn, arg, ret⟩] })
  | (none, app, _) => (none, { s with app := app })

/-- What the application has become after some calls. -/
def TxnServer.after (calls : List Call) : σ :=
  calls.foldl (fun s c => (A.invokeTransaction c.txn c.arg s).2.1) A.init

/-- Calls that have been made, one after the other, and have returned. -/
inductive TxnServer.Made : List Call → Prop
  | nil : Made []
  | snoc {calls : List Call} {c : Call} (result : String) : Made calls →
      (A.invokeTransaction c.txn c.arg (A.after calls)).1 = some (result, c.ret) → Made (calls ++ [c])

/-- The last call about a transaction. -/
def lastCall (calls : List Call) (txnid : Nat) : Option Call :=
  (calls.filter fun c => c.arg.txnid = txnid).getLast?

/-- The last PREPARE of a transaction. -/
def lastPrepare (calls : List Call) (txnid : Nat) : Option Call :=
  (calls.filter fun c => c.arg = { txnid := txnid, type := .prepare }).getLast?

variable {A}

/-- The last element with a property. -/
theorem getLast?_filter {α : Type} {p : α → Bool} {x : α} (hp : p x = true) : ∀ {l : List α} {i : Nat},
    l[i]? = some x → (∀ j y, i < j → l[j]? = some y → p y = false) → (l.filter p).getLast? = some x
  | [], i, hx, _ => by simp at hx
  | y :: ys, 0, hx, hlater => by
      obtain rfl : y = x := by simpa using hx
      have hnil : ys.filter p = [] := by
        refine List.filter_eq_nil_iff.mpr fun z hz => ?_
        obtain ⟨j, hj⟩ := List.mem_iff_getElem?.mp hz
        simp [hlater (j + 1) z (by omega) (by simpa using hj)]
      simp [hp, hnil]
  | y :: ys, i + 1, hx, hlater => by
      have ih := getLast?_filter hp (l := ys) (i := i) (by simpa using hx) fun j z hj hz =>
        hlater (j + 1) z (by omega) (by simpa using hz)
      rw [List.filter_cons]
      split
      · rw [List.getLast?_cons, ih]
        rfl
      · exact ih

theorem lastPrepare_eq_some {calls : List Call} {i t : Nat} {u : Call} (hu : calls[i]? = some u)
    (harg : u.arg = { txnid := t, type := .prepare }) (hlater : ∀ (j : Nat) (v : Call), i < j →
      calls[j]? = some v → v.arg ≠ { txnid := t, type := .prepare }) :
    lastPrepare calls t = some u := by
  refine getLast?_filter (by simpa using harg) hu fun j v hij hv => ?_
  simpa using hlater j v hij hv

@[simp] theorem lastCall_nil (txnid : Nat) : lastCall [] txnid = none := rfl

theorem lastCall_append_self {calls : List Call} {c : Call} :
    lastCall (calls ++ [c]) c.arg.txnid = some c := by
  simp [lastCall]

theorem lastCall_append_of_ne {calls : List Call} {c : Call} {txnid : Nat} (h : txnid ≠ c.arg.txnid) :
    lastCall (calls ++ [c]) txnid = lastCall calls txnid := by
  simp [lastCall, h.symm]

@[simp] theorem TxnServer.after_append (calls : List Call) (c : Call) :
    A.after (calls ++ [c]) = (A.invokeTransaction c.txn c.arg (A.after calls)).2.1 := by
  simp [TxnServer.after]

/-- The calls made first have been made. -/
theorem TxnServer.Made.of_prefix {calls calls' : List Call} (h : A.Made calls)
    (hp : calls' <+: calls) : A.Made calls' := by
  induction h with
  | nil => exact List.prefix_nil.mp hp ▸ .nil
  | snoc result h hret ih =>
    rcases List.prefix_concat_iff.mp hp with rfl | hp
    · exact .snoc result h hret
    · exact ih hp

/-- From a state of the application these calls can be made. -/
def TxnServer.returns (A : TxnServer σ) : σ → List Call → Bool
  | _, [] => true
  | s, c :: calls =>
    match A.invokeTransaction c.txn c.arg s with
    | (some (_, ret), s', _) => ret = c.ret && returns A s' calls
    | (none, _, _) => false

theorem TxnServer.made_of_returns {calls : List Call} : ∀ {pre : List Call}, A.Made pre →
    A.returns (A.after pre) calls = true → A.Made (pre ++ calls) := by
  induction calls with
  | nil =>
    intro pre h _
    rwa [List.append_nil]
  | cons c calls ih =>
    intro pre h hret
    rw [returns] at hret
    rcases hx : A.invokeTransaction c.txn c.arg (A.after pre) with ⟨_ | ⟨result, ret⟩, s', o⟩
    · simp [hx] at hret
    · simp only [hx, Bool.and_eq_true, decide_eq_true_eq] at hret
      have hmade : A.Made (pre ++ [c]) := .snoc result h (by rw [hx, hret.1])
      have hall := ih hmade (by rw [TxnServer.after_append, hx]; exact hret.2)
      rwa [List.append_assoc] at hall

/-- The calls have been made, and the application is what they have made of it. -/
structure AppState.Ok (A : TxnServer σ) (s : AppState σ) : Prop where
  made : A.Made s.upcalls
  app : s.app = A.after s.upcalls

/-- The same, when the process may have been stopped in a call that does not return. -/
structure AppState.Said (A : TxnServer σ) (s : AppState σ) : Prop where
  made : A.Made s.upcalls
  app : s.app = A.after s.upcalls ∨
    ∃ txn arg, (A.invokeTransaction txn arg (A.after s.upcalls)).1 = none

theorem AppState.Ok.said {s : AppState σ} (h : s.Ok A) : s.Said A := ⟨h.made, Or.inl h.app⟩

theorem AppState.ok_initial : (AppState.initial A).Ok A := ⟨.nil, rfl⟩

/-- A call that returns is made, and one that does not is not. -/
theorem AppState.execute_cases {s : AppState σ} (h : s.Ok A) (opnum : Nat) (txn : String) (arg : TxnArg) :
    (∃ result ret s', s.execute A opnum txn arg = (some (result, ret), s') ∧ s'.Ok A ∧
      s'.upcalls = s.upcalls ++ [⟨opnum, txn, arg, ret⟩]) ∨
    ∃ s', s.execute A opnum txn arg = (none, s') ∧ s'.Said A ∧ s'.upcalls = s.upcalls := by
  have happ := h.app
  rw [execute]
  rcases hx : A.invokeTransaction txn arg s.app with ⟨_ | ⟨result, ret⟩, app, o⟩
  · refine Or.inr ⟨_, rfl, ⟨h.made, Or.inr ⟨txn, arg, ?_⟩⟩, rfl⟩
    rw [← happ, hx]
  · refine Or.inl ⟨result, ret, _, rfl, ⟨.snoc result h.made ?_, ?_⟩, rfl⟩
    · rw [← happ, hx]
    · rw [TxnServer.after_append, ← happ, hx]

/-- What every call from a state in `J` keeps, if it returns, holds after all calls that have been made. -/
theorem TxnServer.Made.induct {J : List Call → σ → Prop} {calls : List Call} (h : A.Made calls)
    (h0 : J [] A.init)
    (hs : ∀ calls txn arg s opnum, J calls s → Sat (A.invokeTransaction txn arg) s
      (fun x s' _ => J (calls ++ [⟨opnum, txn, arg, x.2⟩]) s') fun _ _ => True) :
    J calls (A.after calls) := by
  induction h with
  | nil => exact h0
  | @snoc calls c _ _ hret ih =>
    rw [TxnServer.after_append]
    rcases (hs calls c.txn c.arg _ c.opnum ih).cases with ⟨⟨result', ret⟩, s', o, hx, hJ⟩ | ⟨s', o, hx, _⟩
    · rw [hx] at hret ⊢
      cases hret
      exact hJ
    · rw [hx] at hret
      cases hret

end Dsnet.Transaction
