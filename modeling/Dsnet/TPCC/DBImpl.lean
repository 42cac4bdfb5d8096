import Dsnet.Lib.Attempt
import Dsnet.TPCC.Tables

/-! `transaction/apps/tpcc/dbimpl.{h,cc}`: the tables with their indexes, the locks on rows, and undo.

    A pointer to a row is its table and key. The B-trees, which mark the keys that are deleted, are
    finite maps; a hash set is a list. A run works on the tables and on the undo buffer that its caller
    has for it; a lock that cannot be had is an exception. -/

namespace Dsnet.TPCC
open Attempt

/-- `Lock`. -/
structure Lock where
  exclusive : Bool
  refcnt : Nat
  deriving DecidableEq

/-- The members of `DBImpl`. -/
structure DBImpl (F : Type) where
  items : List (Item F)
  rows : (t : Table) → StdMap Int (Row F t)
  customersByName : List Int
  ordersByCustomer : StdMap Int Int
  history : List (Nat × History F)
  tid : Int
  tidLocks : StdMap Int (List Tuple)
  lockTable : Tuple → Option Lock

/-- The tables and the undo buffer of a transaction that is running. -/
structure Run (F : Type) where
  db : DBImpl F
  undo : Option (TPCCUndo F)

/-- What the transactions are made of. -/
abbrev Txn (F : Type) := Attempt (Run F)

variable {F : Type}

/-- The tables with another one in place of `t`. -/
def DBImpl.setRows (db : DBImpl F) (t : Table) (rows : StdMap Int (Row F t)) : DBImpl F :=
  { db with rows := Function.update db.rows t rows }

/-! ### Locks -/

/-- The locks of the running transaction. -/
def DBImpl.lockedTuples (db : DBImpl F) : List Tuple := (db.tidLocks.find? db.tid).getD []

/-- The lock table with this lock for a tuple. -/
def DBImpl.setLock (db : DBImpl F) (tuple : Tuple) (l : Lock) : DBImpl F :=
  { db with lockTable := Function.update db.lockTable tuple (some l) }

/-- `locked_tuples->insert(tuple)`. -/
def DBImpl.addLocked (db : DBImpl F) (tuple : Tuple) : DBImpl F :=
  { db with tidLocks := db.tidLocks.insert db.tid (tuple :: db.lockedTuples) }

/-- `tryLock`, for a transaction with an id. -/
def lockFor (tuple : Tuple) (exclusive : Bool) : Txn F Unit := do
  let s ← get
  assert ((s.db.tidLocks.find? s.db.tid).isSome = true)
  match s.db.lockTable tuple with
  | none => modify fun s => { s with db := (s.db.setLock tuple ⟨exclusive, 1⟩).addLocked tuple }
  | some l => do
    assert (1 ≤ l.refcnt)
    if tuple ∈ s.db.lockedTuples then
      if l.refcnt = 1 then
        modify fun s => { s with db := s.db.setLock tuple { l with exclusive := l.exclusive || exclusive } }
      else if exclusive then throw
      else assert (l.exclusive = false)
    else if l.exclusive ∨ exclusive then throw
    else modify fun s => { s with db := (s.db.setLock tuple { l with refcnt := l.refcnt + 1 }).addLocked tuple }

/-- `tryLock`. A transaction with id 0 only looks whether it would be blocked. -/
def tryLock (tuple : Tuple) (exclusive : Bool) : Txn F Unit := do
  let s ← get
  if s.db.tid = 0 then
    match s.db.lockTable tuple with
    | none => pure ()
    | some l => do
      assert (1 ≤ l.refcnt)
      if l.exclusive ∨ exclusive then throw else pure ()
  else lockFor tuple exclusive

/-- `tryRead` and `tryWrite` of a tuple that is there. -/
def tryTuple (tuple : Tuple) (exclusive : Bool) : Txn F Unit := do
  let s ← get
  when (s.db.tid ≠ -1) (tryLock tuple exclusive)

/-- `tryRead` of a row, which has to be there. -/
def tryRead (t : Table) (p : Option Int) : Txn F Int := do
  let p ← ofOption p
  tryTuple (.row t p) false
  return p

/-- `tryWrite`. -/
def tryWrite (t : Table) (p : Option Int) : Txn F Int := do
  let p ← ofOption p
  tryTuple (.row t p) true
  return p

/-- `setTransaction`. -/
def DBImpl.setTransaction (db : DBImpl F) (tid : Int) : DBImpl F :=
  { db with
    tid := tid
    tidLocks := if 0 < tid then db.tidLocks.emplace tid [] else db.tidLocks }

/-- What `endTransaction` does to the lock of a tuple. -/
def releaseLock (locks : Tuple → Option Lock) (tuple : Tuple) : Option (Tuple → Option Lock) :=
  match locks tuple with
  | none => none
  | some l =>
    if 1 ≤ l.refcnt then
      some (Function.update locks tuple (if l.refcnt = 1 then none else some { l with refcnt := l.refcnt - 1 }))
    else none

/-- `endTransaction`. -/
def DBImpl.endTransaction (db : DBImpl F) (tid : Int) : Option (DBImpl F) :=
  if 0 < tid then do
    let lockedTuples ← db.tidLocks.find? tid
    let locks ← lockedTuples.foldlM releaseLock db.lockTable
    return { db with lockTable := locks, tidLocks := db.tidLocks.erase tid }
  else none

/-! ### Rows -/

/-- `find`: the row with a key, which has to be one. -/
def find (t : Table) (key : Option Int) : Txn F (Option Int) := do
  let key ← ofOption key
  let s ← get
  return if ((s.db.rows t).find? key).isSome then some key else none

/-- The row at `p`. -/
def deref (t : Table) (p : Int) : Txn F (Row F t) := do
  let s ← get
  ofOption ((s.db.rows t).find? p)

/-- The row at `p` is written. -/
def assign (t : Table) (p : Int) (f : Row F t → Row F t) : Txn F Unit := do
  let row ← deref t p
  modify fun s => { s with db := s.db.setRows t ((s.db.rows t).insert p (f row)) }

/-- `insert`: a new row, whose key must be free. -/
def insert (t : Table) (key : Option Int) (row : Row F t) : Txn F Int := do
  let key ← ofOption key
  let s ← get
  assert ((s.db.rows t).find? key = none)
  modify fun s => { s with db := s.db.setRows t ((s.db.rows t).insert key row) }
  return key

def findWarehouse (wId : Int) : Txn F (Option Int) := find .warehouse (some wId)
def findStock (wId sId : Int) : Txn F (Option Int) := find .stock (makeStockKey wId sId)
def findDistrict (wId dId : Int) : Txn F (Option Int) := find .district (makeDistrictKey wId dId)
def findCustomer (wId dId cId : Int) : Txn F (Option Int) := find .customer (makeCustomerKey wId dId cId)
def findOrder (wId dId oId : Int) : Txn F (Option Int) := find .order (makeOrderKey wId dId oId)
def findOrderLine (wId dId oId number : Int) : Txn F (Option Int) :=
  find .orderLine (makeOrderLineKey wId dId oId number)

/-- `findItem`: the place of the item. -/
def findItem (id : Int) : Txn F (Option Nat) := do
  assert (1 ≤ id)
  let s ← get
  return if (id - 1).toNat < s.db.items.length then some (id - 1).toNat else none

/-- `insertOrder`. -/
def insertOrder (order : Order) : Txn F Int := do
  let tuple ← insert .order (makeOrderKey order.wId order.dId order.id) order
  let key ← ofOption (makeOrderByCustomerKey order.wId order.dId order.cId order.id)
  let s ← get
  assert (s.db.ordersByCustomer.find? key = none)
  modify fun s => { s with db := { s.db with ordersByCustomer := s.db.ordersByCustomer.insert key tuple } }
  return tuple

/-- `insertOrderLine`. -/
def insertOrderLine (line : OrderLine F) : Txn F Int :=
  insert .orderLine (makeOrderLineKey line.wId line.dId line.oId line.number) line

/-- `insertNewOrder`. -/
def insertNewOrder (wId dId oId : Int) : Txn F Int :=
  insert .newOrder (makeNewOrderKey wId dId oId) { wId, dId, oId : NewOrder }

/-- An address that none of the rows has. -/
def freshId (history : List (Nat × History F)) : Nat := (history.map fun h => h.1 + 1).foldl max 0

/-- `insertHistory`. -/
def insertHistory (h : History F) : Txn F Nat := do
  let s ← get
  let id := freshId s.db.history
  modify fun s => { s with db := { s.db with history := s.db.history ++ [(id, h)] } }
  return id

/-- `findLastOrderByCustomer`: the last order before those of the next customer. -/
def findLastOrderByCustomer (wId dId cId : Int) : Txn F (Option Int) := do
  let key ← ofOption (makeOrderByCustomerKey wId dId cId 1)
  let s ← get
  match (s.db.ordersByCustomer.toList.filter fun x => x.1 < key + 2 ^ 32).getLast? with
  | none => pure none
  | some (_, p) => do
    let order ← deref .order p
    assert (order.wId = wId ∧ order.dId = dId ∧ order.cId = cId)
    return some p

/-- The undelivered order of a district that `neworders_.lower_bound` finds. -/
def findFirstNewOrder (wId dId : Int) : Txn F (Option (Int × NewOrder)) := do
  let key ← ofOption (makeNewOrderKey wId dId 1)
  let s ← get
  return ((s.db.rows .newOrder).toList.find? fun x => key ≤ x.1).filter fun x =>
    x.2.dId = dId ∧ x.2.wId = wId

/-! ### Undo buffers -/

/-- `allocateUndo`, with an undo parameter or without. -/
def allocateUndo (undo : Bool) : Txn F Unit :=
  when (undo = true) <| modify fun s => { s with undo := some (s.undo.getD TPCCUndo.new) }

/-- A change of the undo buffer, which has to be there. -/
def record (f : TPCCUndo F → Option (TPCCUndo F)) : Txn F Unit := do
  let s ← get
  let u ← ofOption (s.undo.bind f)
  modify fun s => { s with undo := some u }

/-- `TPCCUndo::save`: a copy of the row, unless there is one. -/
def TPCCUndo.save (t : Table) (p : Int) (row : Row F t) (u : TPCCUndo F) : TPCCUndo F :=
  { u with modified := Function.update u.modified t ((u.modified t).emplace p row) }

/-- `TPCCUndo::inserted`. -/
def TPCCUndo.insert (t : Table) (p : Int) (u : TPCCUndo F) : Option (TPCCUndo F) :=
  if p ∈ u.inserted t then none
  else some { u with inserted := Function.update u.inserted t (p :: u.inserted t) }

/-- `TPCCUndo::inserted`, for the history. -/
def TPCCUndo.insertHistory (p : Nat) (u : TPCCUndo F) : Option (TPCCUndo F) :=
  if p ∈ u.insertedHistory then none else some { u with insertedHistory := p :: u.insertedHistory }

/-- `TPCCUndo::deleted`. -/
def TPCCUndo.delete (p : Int) (row : NewOrder) (u : TPCCUndo F) : Option (TPCCUndo F) :=
  if (u.deletedNewOrders.find? p).isSome then none
  else some { u with deletedNewOrders := u.deletedNewOrders.insert p row }

/-- `if (undo != NULL) (*undo)->save(..)`. -/
def save (undo : Bool) (t : Table) (p : Int) : Txn F Unit :=
  when (undo = true) do
    let row ← deref t p
    record fun u => some (u.save t p row)

/-- A row is saved, if there is an undo parameter, and then written. -/
def update (undo : Bool) (t : Table) (p : Int) (f : Row F t → Row F t) : Txn F Unit := do
  save undo t p
  assign t p f

/-- `restoreFromMap`. -/
def restoreFromMap (u : TPCCUndo F) (db : DBImpl F) (t : Table) : Option (DBImpl F) :=
  (u.modified t).toList.foldlM (fun db x =>
    if ((db.rows t).find? x.1).isSome then some (db.setRows t ((db.rows t).insert x.1 x.2)) else none) db

/-- `erase`, of the row at `p` under the key that its ids give. -/
def DBImpl.erase (t : Table) (db : DBImpl F) (p : Int) : Option (DBImpl F) := do
  let row ← (db.rows t).find? p
  let key ← Row.key t row
  if key = p then some (db.setRows t ((db.rows t).erase p)) else none

/-- `eraseOrder`. -/
def DBImpl.eraseOrder (db : DBImpl F) (p : Int) : Option (DBImpl F) := do
  let order ← (db.rows .order).find? p
  let db ← db.erase .order p
  let secondary ← makeOrderByCustomerKey order.wId order.dId order.cId order.id
  if db.ordersByCustomer.find? secondary = some p then
    some { db with ordersByCustomer := db.ordersByCustomer.erase secondary }
  else none

/-- `eraseHistory`: the last row takes the place of the one that is erased. -/
def DBImpl.eraseHistory (db : DBImpl F) (p : Nat) : Option (DBImpl F) := do
  let back ← db.history.reverse.findIdx? fun h => h.1 = p
  let last ← db.history.getLast?
  let i := db.history.length - 1 - back
  return { db with history := (db.history.set i last).dropLast }

/-- `insertNewOrderObject`. -/
def DBImpl.insertNewOrderObject (db : DBImpl F) (row : NewOrder) : Option (DBImpl F) := do
  let key ← makeNewOrderKey row.wId row.dId row.oId
  if (db.rows .newOrder).find? key = none then
    some (db.setRows .newOrder ((db.rows .newOrder).insert key row))
  else none

/-- `applyUndo`. -/
def DBImpl.applyUndo (db : DBImpl F) (u : TPCCUndo F) : Option (DBImpl F) := do
  let db ← [Table.warehouse, .district, .customer, .stock, .order, .orderLine].foldlM (restoreFromMap u) db
  let db ← (u.inserted .order).foldlM DBImpl.eraseOrder db
  let db ← (u.inserted .orderLine).foldlM (DBImpl.erase .orderLine) db
  let db ← (u.inserted .newOrder).foldlM (DBImpl.erase .newOrder) db
  let db ← u.insertedHistory.foldlM DBImpl.eraseHistory db
  (u.deletedNewOrders.toList.map Prod.snd).foldlM DBImpl.insertNewOrderObject db

end Dsnet.TPCC
