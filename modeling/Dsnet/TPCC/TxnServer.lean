import Dsnet.Transaction.TxnServer
import Dsnet.TPCC.Transactions

/-! `transaction/apps/tpcc/dbserver.cc` and `txnserver.{h,cc}`: a work unit is handed to its transaction,
    and the server prepares, commits and aborts transactions.

    A work unit is what is deserialized from it, and a result what will be serialized; nothing is
    serialized before the transaction has returned. `none` is the end of the process. -/

namespace Dsnet.TPCC
open Attempt Transaction
variable {F : Type} [Amount F]

/-- The work units that `handle` knows. -/
inductive WorkUnit (F : Type) where
  | newOrder (wId dId cId : Int) (items : List NewOrderItem) (now : Text)
  | stockLevel (wId dId threshold : Int)
  | orderStatusById (wId dId cId : Int)
  | orderStatusByName (wId dId : Int) (last : Text)
  | paymentById (wId dId cWId cDId cId : Int) (last : Text) (amount : F) (now : Text)
  | paymentByName (wId dId cWId cDId cId : Int) (last : Text) (amount : F) (now : Text)
  | delivery (wId carrierId : Int) (now : Text)
  | newOrderHome (wId dId cId : Int) (items : List NewOrderItem) (now : Text)
  | newOrderRemote (wId : Int) (items : List NewOrderItem)
  | paymentHome (wId dId cWId cDId cId : Int) (last : Text) (amount : F) (now : Text)
  | paymentRemoteById (wId dId cWId cDId cId : Int) (last : Text) (amount : F) (now : Text)
  | paymentRemoteByName (wId dId cWId cDId cId : Int) (last : Text) (amount : F) (now : Text)
  | reset

/-- `hasWarehouse`. -/
def DBImpl.hasWarehouse (db : DBImpl F) (wId : Int) : Bool := ((db.rows .warehouse).find? wId).isSome

/-- `callNewOrderHome`: one of the further warehouses, if it is on this partition. It is called without
    an undo parameter. -/
def orderFurther (wId : Int) (items : List NewOrderItem) (output : NewOrderOutput F) (remote : Int) :
    Txn F (NewOrderOutput F) := do
  let s ← get
  if s.db.hasWarehouse remote then do
    let quantities ← ofOption (← newOrderRemote false wId remote items)
    ofOption (newOrderCombine quantities output)
  else return output

/-- `callNewOrderHome`. -/
def callNewOrderHome (undo : Bool) (wId dId cId : Int) (items : List NewOrderItem) (now : Text) :
    Txn F (Result F) := do
  let (commit, output) ← newOrderHome undo wId dId cId items now
  if commit then do
    let output ← fold (orderFurther wId items) output (newOrderRemoteWarehouses wId items)
    return .newOrder output
  else return .newOrder output

/-- `callNewOrderRemote`, from one of the warehouses on. On this partition it is called twice, the
    second time without an undo parameter. -/
def orderRemotes (undo : Bool) (wId : Int) (items : List NewOrderItem) :
    List Int → List Int → Txn F (Option (List Int))
  | final, [] => pure (some final)
  | final, remote :: remotes => do
    let s ← get
    if s.db.hasWarehouse remote then do
      match ← newOrderRemote undo wId remote items with
      | none => pure none
      | some quantities => do
        let again ← newOrderRemote false wId remote items
        let final ← ofOption (combineQuantities (again.getD quantities) final)
        orderRemotes undo wId items final remotes
    else orderRemotes undo wId items final remotes

/-- `callNewOrderRemote`; with an item that is not there no output is written. -/
def callNewOrderRemote (undo : Bool) (wId : Int) (items : List NewOrderItem) :
    Txn F (Option (Result F)) := do
  let final ← orderRemotes undo wId items (items.map fun _ => invalidQuantity)
    (newOrderRemoteWarehouses wId items)
  return final.map .quantities

/-- The transaction of a work unit, and is there one? Its output may be empty. -/
def callUnit (undo : Bool) : WorkUnit F → Txn F (Option (Option (Result F)))
  | .newOrder wId dId cId items now => do
    return some (some (.newOrder (← newOrder undo wId dId cId items now)))
  | .stockLevel wId dId threshold => do return some (some (.stockLevel (← stockLevel wId dId threshold)))
  | .orderStatusById wId dId cId => do return some (some (.orderStatus (← orderStatus wId dId cId)))
  | .orderStatusByName wId dId last => do
    return some (some (.orderStatus (← orderStatusByName wId dId last)))
  | .paymentById wId dId cWId cDId cId last amount now => do
    assert (cId ≠ 0 ∧ last = [])
    return some (some (.payment (← payment undo wId dId cWId cDId cId amount now)))
  | .paymentByName wId dId cWId cDId cId last amount now => do
    assert (cId = 0 ∧ last ≠ [])
    return some (some (.payment (← paymentByName undo wId dId cWId cDId last amount now)))
  | .delivery wId carrierId now => do return some (some (.delivery (← delivery undo wId carrierId now)))
  | .newOrderHome wId dId cId items now => do return some (some (← callNewOrderHome undo wId dId cId items now))
  | .newOrderRemote wId items => do return some (← callNewOrderRemote undo wId items)
  | .paymentHome wId dId cWId cDId cId _ amount now => do
    return some (some (.payment (← paymentHome undo wId dId cWId cDId cId amount now)))
  | .paymentRemoteById wId dId cWId cDId cId last amount _ => do
    assert (cId ≠ 0 ∧ last = [])
    return some (some (.payment (← paymentRemote undo wId dId cWId cDId cId amount)))
  | .paymentRemoteByName wId dId cWId cDId cId last amount _ => do
    assert (cId = 0 ∧ last ≠ [])
    return some (some (.payment (← paymentRemoteByName undo wId dId cWId cDId last amount)))
  | .reset => pure none

/-- What `handle` does when a lock was blocked. -/
def takeBack (undo : Bool) : Txn F (Option (Option (Result F))) := do
  assert (undo = true)
  let s ← get
  match s.undo with
  | none => pure none
  | some u => do
    let db ← ofOption (s.db.applyUndo u)
    modify fun _ => { db := db, undo := none }
    return none

/-- `DBServer::handle`: the output, when it returns true. -/
def handle (undo : Bool) (tid : Int) (unit : WorkUnit F) : Txn F (Option (Option (Result F))) := do
  let s ← get
  assert (tid = -1 ∨ (undo = true ∧ s.undo.isNone = true))
  tryCatch (callUnit undo unit) (takeBack undo)

/-- `Transaction`. -/
structure Prepared (F : Type) where
  undo : Option (TPCCUndo F)
  result : Option (Result F)

/-- What becomes of the undo buffer in a COMMIT or ABORT. -/
def Prepared.settle (t : Prepared F) (commit : Bool) (db : DBImpl F) : Option (DBImpl F) :=
  match t.undo with
  | none => some db
  | some u => if commit then some db else db.applyUndo u

/-- The members of `TPCCTxnServer`. -/
structure TPCCTxnServer (F : Type) where
  locking : Bool
  db : DBImpl F
  transactions : StdMap Int (Prepared F)

/-- `abs(int64_t(txnid))`. -/
def localId (txnid : Nat) : Int := Int.bmod (Int.bmod txnid (2 ^ 64)).natAbs (2 ^ 64)

/-- What a call answers: the result, and in `ret` the outcome. -/
structure Answer (F : Type) where
  result : Option (Result F)
  ret : TxnRet

namespace TPCCTxnServer

/-- A PREPARE. -/
def prepare (s : TPCCTxnServer F) (id : Int) (unit : WorkUnit F) (ret : TxnRet) :
    Option (Answer F × TPCCTxnServer F) :=
  match s.transactions.find? id with
  | some t => some (⟨t.result, { ret with blocked := false, commit := true }⟩, s)
  | none =>
    match handle true id unit { db := s.db.setTransaction id, undo := none } with
    | (.returned (some result), r) =>
      some (⟨result, { ret with blocked := false, commit := true }⟩,
        { s with db := r.db, transactions := s.transactions.insert id ⟨r.undo, result⟩ })
    | (.returned none, r) =>
      if r.undo.isNone then do
        let db ← r.db.endTransaction id
        return (⟨none, { ret with blocked := true, commit := false }⟩, { s with db := db })
      else none
    | (.thrown, _) | (.stopped, _) => none

/-- A COMMIT or ABORT. -/
def finish (s : TPCCTxnServer F) (id : Int) (commit : Bool) (ret : TxnRet) :
    Option (Answer F × TPCCTxnServer F) :=
  let answer : Answer F := ⟨none, { ret with blocked := false, commit := true }⟩
  match s.transactions.find? id with
  | none => some (answer, s)
  | some t => do
    let db ← t.settle commit s.db
    let db ← db.endTransaction id
    return (answer, { s with db := db, transactions := s.transactions.erase id })

/-- `InvokeTransaction`. -/
def invokeTransaction (s : TPCCTxnServer F) (unit : WorkUnit F) (arg : TxnArg) (ret : TxnRet) :
    Option (Answer F × TPCCTxnServer F) :=
  let ret := { ret with txnid := arg.txnid }
  let id := localId arg.txnid
  if s.locking then
    if id ≤ 0 then none
    else
      match arg.type with
      | .prepare => s.prepare id unit ret
      | .commit => s.finish id true ret
      | .abort => s.finish id false ret
      | .indep => none
  else
    match handle false (-1) unit { db := s.db, undo := none } with
    | (.returned result, r) => some (⟨result.join, ret⟩, { s with db := r.db })
    | (.thrown, _) | (.stopped, _) => none

end TPCCTxnServer

end Dsnet.TPCC
