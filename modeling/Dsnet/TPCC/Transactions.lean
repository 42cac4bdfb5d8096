import Dsnet.TPCC.DBImpl

/-! `transaction/apps/tpcc/dbimpl.cc` and `tpccdb.cc`: the transactions of TPC-C on the tables of one
    partition. Those that change the tables are told whether they have an undo parameter (`undo`), and
    record what they change in the buffer behind it before they change it.

    A hash set of warehouses is gone through in the order of the items. The values that a transaction
    hands back through its parameters are returned. An assertion that stands between the recording of a
    row and its change is made before both. -/

namespace Dsnet.TPCC
open Attempt
variable {F : Type} [Amount F]

/-- The integers from `1` to `n`. -/
def upTo (n : Int) : List Int := (List.range n.toNat).map fun i => (i : Int) + 1

/-! ### Reads -/

/-- The lines of an order that `stockLevel` looks at, up to the first one that is not there; the check
    after that one is made in the source again and again. -/
def stockLevelOrder (wId dId threshold oId : Int) : List Int → List Int → Txn F (List Int)
  | sIIds, [] => pure sIIds
  | sIIds, n :: ns => do
    match ← findOrderLine wId dId oId n with
    | none => do
      when (n < Order.maxOlCnt) do
        let test ← findOrderLine wId dId oId (n + 1)
        assert (test = none)
      return sIIds
    | some p => do
      let line ← deref .orderLine p
      let stock ← deref .stock (← tryRead .stock (← findStock wId line.iId))
      stockLevelOrder wId dId threshold oId (if stock.quantity < threshold then sIIds ++ [line.iId] else sIIds) ns

/-- `stockLevel`. -/
def stockLevel (wId dId threshold : Int) : Txn F Int := do
  let d ← deref .district (← tryRead .district (← findDistrict wId dId))
  let orders := (upTo 20).map fun i => d.nextOId - 21 + i
  let sIIds ← fold (fun ids oId => stockLevelOrder wId dId threshold oId ids (upTo Order.maxOlCnt)) [] orders
  return sIIds.dedup.length

/-- `CustomerByNameOrdering`. -/
def nameBefore (a b : Int × Int × Text × Text) : Bool :=
  if a.1 ≠ b.1 then a.1 < b.1
  else if a.2.1 ≠ b.2.1 then a.2.1 < b.2.1
  else if a.2.2.1 ≠ b.2.2.1 then a.2.2.1 < b.2.2.1
  else a.2.2.2 < b.2.2.2

def Customer.nameKey (c : Customer F) : Int × Int × Text × Text := (c.wId, c.dId, c.last, c.first)

/-- The name at which `findCustomerByName` stops. -/
def nextLast (last : Text) : Text :=
  if last.length = Customer.maxLast then last.dropLast ++ [last.getLastD 0 + 1] else last ++ [65]

/-- `findCustomerByName`: the customer in the middle of those with the name, of which all but the first
    are locked. -/
def findCustomerByName (wId dId : Int) (last : Text) : Txn F (Int × Customer F) := do
  let s ← get
  let names := s.db.customersByName.filterMap fun p => ((s.db.rows .customer).find? p).map fun c => (p, c)
  let its := names.dropWhile fun x => nameBefore x.2.nameKey (wId, dId, last, [])
  let it ← ofOption its.head?
  assert (it.2.wId = wId ∧ it.2.dId = dId ∧ it.2.last = last)
  let range := its.takeWhile fun x => nameBefore x.2.nameKey (wId, dId, nextLast last, [])
  forEach (fun x => do
    tryTuple (.row .customer x.1) false
    assert (x.2.last = last)) range.tail
  let middle ← ofOption range[(range.length - 1) / 2]?
  assert (middle.2.wId = wId ∧ middle.2.dId = dId ∧ middle.2.last = last)
  return middle

/-- A line of an order's status. -/
def orderStatusLine (c : Customer F) (order : Order) (n : Int) : Txn F (OrderLineSubset F) := do
  let line ← deref .orderLine (← tryRead .orderLine (← findOrderLine c.wId c.dId order.id n))
  return { iId := line.iId, supplyWId := line.supplyWId, quantity := line.quantity, amount := line.amount
           deliveryD := line.deliveryD }

/-- `internalOrderStatus`. -/
def internalOrderStatus (customer : Option Int) : Txn F (OrderStatusOutput F) := do
  let c ← deref .customer (← tryRead .customer customer)
  let s ← get
  when (s.db.tid ≠ -1) do
    let _ ← tryRead .district (← findDistrict c.wId c.dId)
  let order ← deref .order (← tryRead .order (← findLastOrderByCustomer c.wId c.dId c.id))
  let lines ← mapEach (orderStatusLine c order) (upTo order.olCnt)
  forEach (fun n => do
    let test ← findOrderLine c.wId c.dId order.id n
    assert (test = none)) ((upTo Order.maxOlCnt).filter (order.olCnt < ·))
  return { cId := c.id, balance := c.balance, oId := order.id, carrierId := order.carrierId, lines := lines
           first := c.first, middle := c.middle, last := c.last, entryD := order.entryD }

/-- `orderStatus`. -/
def orderStatus (wId dId cId : Int) : Txn F (OrderStatusOutput F) := do
  internalOrderStatus (← findCustomer wId dId cId)

/-- `orderStatus`, by name. -/
def orderStatusByName (wId dId : Int) (last : Text) : Txn F (OrderStatusOutput F) := do
  let (p, _) ← findCustomerByName wId dId last
  internalOrderStatus (some p)

/-! ### New orders -/

/-- The items up to the first one that is not there. -/
def findItems : List NewOrderItem → Txn F (Option (List Nat))
  | [] => pure (some [])
  | item :: items => do
    match ← findItem item.iId with
    | none => pure none
    | some i => do
      let rest ← findItems items
      return rest.map (i :: ·)

/-- `findAndValidateItems`. -/
def findAndValidateItems (items : List NewOrderItem) : Txn F (Option (List Nat)) := do
  tryTuple .items false
  findItems items

/-- `newOrderRemoteWarehouses`. -/
def newOrderRemoteWarehouses (home : Int) (items : List NewOrderItem) : List Int :=
  ((items.map (·.supplyWId)).filter (· ≠ home)).dedup

/-- `newOrderCombine`: the quantities that are valid go where none has gone. -/
def combine {α : Type} (free : α → Bool) (set : Int → α → α) : List Int → List α → Option (List α)
  | [], [] => some []
  | q :: qs, x :: xs => do
    let rest ← combine free set qs xs
    if q = invalidQuantity then some (x :: rest)
    else if free x then some (set q x :: rest)
    else none
  | _, _ => none

/-- `newOrderCombine`, into the output of a new order. -/
def newOrderCombine (quantities : List Int) (output : NewOrderOutput F) : Option (NewOrderOutput F) := do
  let items ← combine (fun x : ItemInfo F => x.sQuantity = 0) (fun q x => { x with sQuantity := q })
    quantities output.items
  return { output with items := items }

/-- `newOrderCombine`, into quantities. -/
def combineQuantities : List Int → List Int → Option (List Int) :=
  combine (· = invalidQuantity) (fun q _ => q)

/-- The stock after an order line. -/
def Stock.order (quantity : Int) (remote : Bool) (s : Stock) : Stock :=
  { s with
    quantity := int32 (if s.quantity ≥ int32 (quantity + 10) then s.quantity - quantity
      else s.quantity - quantity + 91)
    ytd := int32 (s.ytd + quantity)
    orderCnt := int32 (s.orderCnt + 1)
    remoteCnt := if remote then int32 (s.remoteCnt + 1) else s.remoteCnt }

/-- An item in `newOrderRemote`: its quantity, if it belongs to the remote warehouse. -/
def orderStock (undo : Bool) (home remote : Int) (item : NewOrderItem) : Txn F Int :=
  if item.supplyWId ≠ remote then pure invalidQuantity
  else do
    let p ← tryWrite .stock (← findStock item.supplyWId item.iId)
    update undo .stock p (Stock.order item.quantity (item.supplyWId ≠ home))
    let stock ← deref .stock p
    return stock.quantity

/-- `newOrderRemote`: the quantities, or nothing when an item is not there. -/
def newOrderRemote (undo : Bool) (home remote : Int) (items : List NewOrderItem) :
    Txn F (Option (List Int)) := do
  match ← findAndValidateItems items with
  | none => pure none
  | some _ => do
    allocateUndo undo
    let quantities ← mapEach (orderStock undo home remote) items
    return some quantities

/-- `newOrderHome`: the order and the undelivered order are put in, and then locked. -/
def fileOrder (undo : Bool) (order : Order) : Txn F Unit := do
  let o ← insertOrder order
  let no ← insertNewOrder order.wId order.dId order.id
  when (undo = true) do
    record (TPCCUndo.insert .order o)
    record (TPCCUndo.insert .newOrder no)
  tryTuple (.row .order o) true
  tryTuple (.row .newOrder no) true

/-- `newOrderHome`: an order line is put in, and then locked. -/
def fileOrderLine (undo : Bool) (line : OrderLine F) : Txn F Unit := do
  let ol ← insertOrderLine line
  when (undo = true) (record (TPCCUndo.insert .orderLine ol))
  tryTuple (.row .orderLine ol) true

/-- `newOrderHome`: one of the items, numbered from `0`, with the output so far. The distribution info of
    the tenth district is read from behind the array, which is where the data of the stock begins. -/
def newOrderLine (undo : Bool) (wId dId oId : Int) (output : NewOrderOutput F)
    (x : (NewOrderItem × Nat) × Nat) : Txn F (NewOrderOutput F) := do
  let ((item, tuple), i) := x
  let p ← tryWrite .stock (← findStock item.supplyWId item.iId)
  tryTuple (.item tuple) false
  let stock ← deref .stock p
  let s ← get
  let row ← ofOption s.db.items[tuple]?
  let olAmount := (item.quantity : F) * row.price
  fileOrderLine undo
    { oId := oId, dId := dId, wId := wId, number := i + 1, iId := item.iId, supplyWId := item.supplyWId
      quantity := item.quantity, amount := olAmount, deliveryD := []
      distInfo := stock.dist[dId.toNat]?.getD (stock.data.take (Stock.distSize + 1)) }
  return { output with
    items := output.items ++
      [{ sQuantity := 0, price := row.price, olAmount := olAmount, name := row.name
         brand := strstr stock.data (text "ORIGINAL") && strstr row.data (text "ORIGINAL") }]
    total := output.total + olAmount }

/-- `newOrderHome`, once the items are known to be there. -/
def newOrderHomeValid (undo : Bool) (wId dId cId : Int) (items : List NewOrderItem) (now : Text) (d : Int)
    (itemTuples : List Nat) (output : NewOrderOutput F) : Txn F (NewOrderOutput F) := do
  allocateUndo undo
  update undo .district d fun d => { d with nextOId := int32 (d.nextOId + 1) }
  let w ← deref .warehouse (← tryRead .warehouse (← findWarehouse wId))
  assert (now.length = datetimeSize)
  fileOrder undo
    { id := output.oId, cId := cId, dId := dId, wId := wId, carrierId := Order.nullCarrierId
      olCnt := items.length, allLocal := if items.all (·.supplyWId = wId) then 1 else 0, entryD := now }
  let output ← fold (newOrderLine undo wId dId output.oId) { output with wTax := w.tax }
    (items.zip itemTuples).zipIdx
  let quantities ← ofOption (← newOrderRemote undo wId wId items)
  ofOption (newOrderCombine quantities output)

/-- `newOrderHome`: will the order be placed, and the output. -/
def newOrderHome (undo : Bool) (wId dId cId : Int) (items : List NewOrderItem) (now : Text) :
    Txn F (Bool × NewOrderOutput F) := do
  let s ← get
  assert (s.db.tid = -1 ∨ undo = true)
  let d ← tryWrite .district (← findDistrict wId dId)
  let district ← deref .district d
  let test ← findOrder wId dId district.nextOId
  assert (test = none)
  let c ← deref .customer (← tryRead .customer (← findCustomer wId dId cId))
  let output : NewOrderOutput F :=
    { wTax := 0, dTax := district.tax, oId := district.nextOId, discount := c.discount, total := 0, items := []
      last := c.last, credit := c.credit, status := [] }
  match ← findAndValidateItems items with
  | none => return (false, { output with status := invalidItemStatus })
  | some itemTuples => do
    let output ← newOrderHomeValid undo wId dId cId items now d itemTuples output
    return (true, output)

/-- `newOrder`: the home part, and then every other warehouse. -/
def newOrder (undo : Bool) (wId dId cId : Int) (items : List NewOrderItem) (now : Text) :
    Txn F (NewOrderOutput F) := do
  let (ok, output) ← newOrderHome undo wId dId cId items now
  if ok then
    fold (fun output remote => do
      let quantities ← ofOption (← newOrderRemote undo wId remote items)
      ofOption (newOrderCombine quantities output)) output (newOrderRemoteWarehouses wId items)
  else return output

/-! ### Payments -/

/-- The customer after a payment; one with bad credit has it put at the front of its data. -/
def Customer.pay (amount : F) (history : Text) (c : Customer F) : Customer F :=
  { c with
    balance := c.balance - amount
    ytdPayment := c.ytdPayment + amount
    paymentCnt := int32 (c.paymentCnt + 1)
    data := if c.credit = badCredit then history ++ c.data.take (maxData - history.length) else c.data }

/-- The fields of a customer that a payment shows. -/
def Customer.output (c : Customer F) : CustomerOutput F where
  creditLim := c.creditLim
  discount := c.discount
  balance := c.balance
  first := c.first
  middle := c.middle
  last := c.last
  address := c.address
  phone := c.phone
  since := c.since
  credit := c.credit
  data := c.data

/-- The zeroed fields of a customer. -/
def CustomerOutput.zero : CustomerOutput F where
  creditLim := 0
  discount := 0
  balance := 0
  first := []
  middle := []
  last := []
  address := Address.zero
  phone := []
  since := []
  credit := []
  data := []

/-- `paymentHome`: a row of the history is put in, and then locked. -/
def fileHistory (undo : Bool) (h : History F) : Txn F Unit := do
  let history ← insertHistory h
  when (undo = true) (record (TPCCUndo.insertHistory history))
  tryTuple (.history history) true

/-- `paymentHome`. -/
def paymentHome (undo : Bool) (wId dId cWId cDId cId : Int) (amount : F) (now : Text) :
    Txn F (PaymentOutput F) := do
  let w ← tryWrite .warehouse (← findWarehouse wId)
  allocateUndo undo
  update undo .warehouse w fun w => { w with ytd := w.ytd + amount }
  let warehouse ← deref .warehouse w
  let d ← tryWrite .district (← findDistrict wId dId)
  update undo .district d fun d => { d with ytd := d.ytd + amount }
  let district ← deref .district d
  fileHistory undo
    { cId := cId, cDId := cDId, cWId := cWId, dId := dId, wId := wId, amount := amount, date := now
      data := warehouse.name ++ text "    " ++ district.name }
  return { warehouse := warehouse.address, district := district.address, customer := CustomerOutput.zero }

/-- `internalPaymentRemote`. -/
def internalPaymentRemote (undo : Bool) (wId dId : Int) (customer : Option Int) (amount : F) :
    Txn F (CustomerOutput F) := do
  let p ← tryWrite .customer customer
  allocateUndo undo
  let c ← deref .customer p
  let history := Amount.snprintf c.id c.dId c.wId dId wId amount
  assert (c.credit = Customer.badCredit → history.length ≤ Customer.maxData)
  update undo .customer p (Customer.pay amount history)
  let c ← deref .customer p
  return c.output

/-- `payment`. -/
def payment (undo : Bool) (wId dId cWId cDId cId : Int) (amount : F) (now : Text) :
    Txn F (PaymentOutput F) := do
  let customer ← findCustomer cWId cDId cId
  let output ← paymentHome undo wId dId cWId cDId cId amount now
  let c ← internalPaymentRemote undo wId dId customer amount
  return { output with customer := c }

/-- `payment`, by name. -/
def paymentByName (undo : Bool) (wId dId cWId cDId : Int) (last : Text) (amount : F) (now : Text) :
    Txn F (PaymentOutput F) := do
  let (p, customer) ← findCustomerByName cWId cDId last
  let output ← paymentHome undo wId dId cWId cDId customer.id amount now
  let c ← internalPaymentRemote undo wId dId (some p) amount
  return { output with customer := c }

/-- `paymentRemote`. -/
def paymentRemote (undo : Bool) (wId dId cWId cDId cId : Int) (amount : F) : Txn F (PaymentOutput F) := do
  let c ← internalPaymentRemote undo wId dId (← findCustomer cWId cDId cId) amount
  return { warehouse := Address.zero, district := Address.zero, customer := c }

/-- `paymentRemote`, by name. -/
def paymentRemoteByName (undo : Bool) (wId dId cWId cDId : Int) (last : Text) (amount : F) :
    Txn F (PaymentOutput F) := do
  let (p, _) ← findCustomerByName cWId cDId last
  let c ← internalPaymentRemote undo wId dId (some p) amount
  return { warehouse := Address.zero, district := Address.zero, customer := c }

/-! ### Deliveries -/

/-- `delivery`: an undelivered order is taken out. -/
def takeNewOrder (undo : Bool) (p : Int) (row : NewOrder) : Txn F Unit := do
  modify fun s => { s with db := s.db.setRows .newOrder ((s.db.rows .newOrder).erase p) }
  when (undo = true) (record (TPCCUndo.delete p row))

/-- `delivery`: a line of the order, with the total so far. -/
def deliverLine (undo : Bool) (wId dId oId : Int) (now : Text) (total : F) (n : Int) : Txn F F := do
  let p ← tryWrite .orderLine (← findOrderLine wId dId oId n)
  let line ← deref .orderLine p
  assert (line.deliveryD = [] ∧ now.length = datetimeSize)
  update undo .orderLine p fun l => { l with deliveryD := now }
  return total + line.amount

/-- `delivery`: the oldest undelivered order of a district. -/
def deliverDistrict (undo : Bool) (wId carrierId : Int) (now : Text) (orders : List DeliveryOrderInfo)
    (dId : Int) : Txn F (List DeliveryOrderInfo) := do
  let s ← get
  when (s.db.tid ≠ -1) do
    let _ ← tryRead .district (← findDistrict wId dId)
  match ← findFirstNewOrder wId dId with
  | none => pure orders
  | some (p, row) => do
    takeNewOrder undo p row
    tryTuple (.row .newOrder p) true
    let o ← tryWrite .order (← findOrder wId dId row.oId)
    let order ← deref .order o
    assert (order.carrierId = Order.nullCarrierId)
    update undo .order o fun o => { o with carrierId := carrierId }
    let total ← fold (deliverLine undo wId dId row.oId now) 0 (upTo order.olCnt)
    let c ← tryWrite .customer (← findCustomer wId dId order.cId)
    update undo .customer c fun c =>
      { c with balance := c.balance + total, deliveryCnt := int32 (c.deliveryCnt + 1) }
    return orders ++ [{ dId := dId, oId := row.oId }]

/-- `delivery`. -/
def delivery (undo : Bool) (wId carrierId : Int) (now : Text) : Txn F (List DeliveryOrderInfo) := do
  allocateUndo undo
  fold (deliverDistrict undo wId carrierId now) [] (upTo District.numPerWarehouse)

end Dsnet.TPCC
