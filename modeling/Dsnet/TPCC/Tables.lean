import Mathlib.Data.Int.Order.Basic
import Mathlib.Algebra.Ring.Int.Defs
import Dsnet.Lib.StdMap

/-! `transaction/apps/tpcc/tpccdb.h` and the key packing of `dbimpl.cc`: the rows of the TPC-C tables,
    what the transactions return, and `TPCCUndo`.

    The fields of a row are named without the prefix that tells its table; those that no transaction
    reads are left out, and the five fields of an address are one. A `char` array is the text up to its
    end, the floats are a parameter, and the arithmetic of `int32_t` wraps around. -/

namespace Dsnet.TPCC

/-- The characters of a C string. -/
abbrev Text := List UInt8

def text (s : String) : Text := s.toUTF8.toList

/-- `strstr(s, sub) != NULL`. -/
def strstr (s sub : Text) : Bool := s.tails.any fun t => sub.isPrefixOf t

/-- The `float`s of the rows, and how `internalPaymentRemote` prints one of its payments. -/
class Amount (F : Type) extends Add F, Sub F, Mul F, Zero F, IntCast F where
  snprintf : (cId cDId cWId districtId warehouseId : Int) → F → Text

/-- `int32_t`. -/
def int32 (x : Int) : Int := Int.bmod x (2 ^ 32)

def datetimeSize : Nat := 14
def Warehouse.maxWarehouseId : Int := 100
def District.numPerWarehouse : Int := 10
def Stock.distSize : Nat := 24
def Stock.numStockPerWarehouse : Int := 100000
def Customer.numPerDistrict : Int := 3000
def Customer.maxLast : Nat := 16
def Customer.maxData : Nat := 500
def Customer.badCredit : Text := text "BC"
def Order.nullCarrierId : Int := 0
def Order.maxOlCnt : Int := 15
def Order.maxOrderId : Int := 10000000

/-! ### Rows -/

/-- `street_1`, `street_2`, `city`, `state` and `zip`. -/
structure Address where
  street1 : Text
  street2 : Text
  city : Text
  state : Text
  zip : Text
  deriving DecidableEq

/-- What `ZERO_ADDRESS` leaves. -/
def Address.zero : Address := ⟨[], [], [], [], []⟩

structure Item (F : Type) where
  price : F
  name : Text
  data : Text
  deriving DecidableEq

structure Warehouse (F : Type) where
  tax : F
  ytd : F
  name : Text
  address : Address
  deriving DecidableEq

structure District (F : Type) where
  tax : F
  ytd : F
  nextOId : Int
  name : Text
  address : Address
  deriving DecidableEq

/-- `s_dist` is indexed from `0`. -/
structure Stock where
  quantity : Int
  ytd : Int
  orderCnt : Int
  remoteCnt : Int
  dist : List Text
  data : Text
  deriving DecidableEq

structure Customer (F : Type) where
  id : Int
  dId : Int
  wId : Int
  creditLim : F
  discount : F
  balance : F
  ytdPayment : F
  paymentCnt : Int
  deliveryCnt : Int
  first : Text
  middle : Text
  last : Text
  address : Address
  phone : Text
  since : Text
  credit : Text
  data : Text
  deriving DecidableEq

structure Order where
  id : Int
  cId : Int
  dId : Int
  wId : Int
  carrierId : Int
  olCnt : Int
  allLocal : Int
  entryD : Text
  deriving DecidableEq

structure OrderLine (F : Type) where
  oId : Int
  dId : Int
  wId : Int
  number : Int
  iId : Int
  supplyWId : Int
  quantity : Int
  amount : F
  deliveryD : Text
  distInfo : Text
  deriving DecidableEq

structure NewOrder where
  wId : Int
  dId : Int
  oId : Int
  deriving DecidableEq

structure History (F : Type) where
  cId : Int
  cDId : Int
  cWId : Int
  dId : Int
  wId : Int
  amount : F
  date : Text
  data : Text
  deriving DecidableEq

/-- The tables whose rows are found by a packed key. -/
inductive Table where
  | warehouse | stock | district | customer | order | orderLine | newOrder
  deriving DecidableEq

/-- The rows of a table. -/
abbrev Row (F : Type) : Table → Type
  | .warehouse => Warehouse F
  | .stock => Stock
  | .district => District F
  | .customer => Customer F
  | .order => Order
  | .orderLine => OrderLine F
  | .newOrder => NewOrder

/-! ### Keys

    Each packs the ids of a row into one integer, and asserts that they are in range. -/

/-- `makeStockKey`. -/
def makeStockKey (wId sId : Int) : Option Int :=
  if 1 ≤ wId ∧ wId ≤ Warehouse.maxWarehouseId ∧ 1 ≤ sId ∧ sId ≤ Stock.numStockPerWarehouse then
    some (sId + wId * Stock.numStockPerWarehouse)
  else none

/-- `makeDistrictKey`. -/
def makeDistrictKey (wId dId : Int) : Option Int :=
  if 1 ≤ wId ∧ wId ≤ Warehouse.maxWarehouseId ∧ 1 ≤ dId ∧ dId ≤ District.numPerWarehouse then
    some (dId + wId * District.numPerWarehouse)
  else none

/-- `makeCustomerKey`. -/
def makeCustomerKey (wId dId cId : Int) : Option Int :=
  if 1 ≤ wId ∧ wId ≤ Warehouse.maxWarehouseId ∧ 1 ≤ dId ∧ dId ≤ District.numPerWarehouse ∧
      1 ≤ cId ∧ cId ≤ Customer.numPerDistrict then
    some ((wId * District.numPerWarehouse + dId) * Customer.numPerDistrict + cId)
  else none

/-- The ids of an order are in range. -/
def OrderIds (wId dId oId : Int) : Prop :=
  1 ≤ wId ∧ wId ≤ Warehouse.maxWarehouseId ∧ 1 ≤ dId ∧ dId ≤ District.numPerWarehouse ∧
    1 ≤ oId ∧ oId ≤ Order.maxOrderId

instance (wId dId oId : Int) : Decidable (OrderIds wId dId oId) :=
  inferInstanceAs (Decidable (_ ∧ _))

/-- `makeOrderKey`. The largest order ids do not fit. -/
def makeOrderKey (wId dId oId : Int) : Option Int :=
  let id := int32 ((oId * District.numPerWarehouse + dId) * Warehouse.maxWarehouseId + wId)
  if OrderIds wId dId oId ∧ 0 ≤ id then some id else none

/-- `makeOrderByCustomerKey`: the customer above, the order in the lower half. -/
def makeOrderByCustomerKey (wId dId cId oId : Int) : Option Int :=
  if OrderIds wId dId oId ∧ 1 ≤ cId ∧ cId ≤ Customer.numPerDistrict then
    some (((wId * District.numPerWarehouse + dId) * Customer.numPerDistrict + cId) * 2 ^ 32 + oId)
  else none

/-- `makeOrderLineKey`. -/
def makeOrderLineKey (wId dId oId number : Int) : Option Int :=
  let id := int32 (((oId * District.numPerWarehouse + dId) * Warehouse.maxWarehouseId + wId) *
    Order.maxOlCnt + number)
  if OrderIds wId dId oId ∧ 1 ≤ number ∧ number ≤ Order.maxOlCnt ∧ 0 ≤ id then some id else none

/-- `makeNewOrderKey`. -/
def makeNewOrderKey (wId dId oId : Int) : Option Int :=
  if OrderIds wId dId oId then some ((wId * Warehouse.maxWarehouseId + dId) * 2 ^ 32 + oId) else none

/-- The key that the ids in an inserted row give. -/
def Row.key {F : Type} : (t : Table) → Row F t → Option Int
  | .order, o => makeOrderKey o.wId o.dId o.id
  | .orderLine, l => makeOrderLineKey l.wId l.dId l.oId l.number
  | .newOrder, n => makeNewOrderKey n.wId n.dId n.oId
  | .warehouse, _ | .stock, _ | .district, _ | .customer, _ => none

/-- A pointer to something that can be locked: a row by its table and key, an item by its place, the
    table of items, or a row of the history by the allocation that made it. -/
inductive Tuple where
  | row (t : Table) (key : Int)
  | item (i : Nat)
  | items
  | history (id : Nat)
  deriving DecidableEq

/-! ### Inputs and outputs -/

structure NewOrderItem where
  iId : Int
  supplyWId : Int
  quantity : Int
  deriving DecidableEq

structure OrderLineSubset (F : Type) where
  iId : Int
  supplyWId : Int
  quantity : Int
  amount : F
  deliveryD : Text

structure OrderStatusOutput (F : Type) where
  cId : Int
  balance : F
  oId : Int
  carrierId : Int
  lines : List (OrderLineSubset F)
  first : Text
  middle : Text
  last : Text
  entryD : Text

/-- `NewOrderOutput::ItemInfo`; `brand` is that `brand_generic` is `BRAND`. -/
structure ItemInfo (F : Type) where
  sQuantity : Int
  price : F
  olAmount : F
  brand : Bool
  name : Text

structure NewOrderOutput (F : Type) where
  wTax : F
  dTax : F
  oId : Int
  discount : F
  total : F
  items : List (ItemInfo F)
  last : Text
  credit : Text
  status : Text

/-- `NewOrderOutput::INVALID_ITEM_STATUS`. -/
def invalidItemStatus : Text := text "Item number is not valid"

/-- `TPCCDB::INVALID_QUANTITY`. -/
def invalidQuantity : Int := -1

/-- The fields of a customer in a `PaymentOutput`. -/
structure CustomerOutput (F : Type) where
  creditLim : F
  discount : F
  balance : F
  first : Text
  middle : Text
  last : Text
  address : Address
  phone : Text
  since : Text
  credit : Text
  data : Text

/-- The addresses of the warehouse and the district, and the customer. -/
structure PaymentOutput (F : Type) where
  warehouse : Address
  district : Address
  customer : CustomerOutput F

structure DeliveryOrderInfo where
  dId : Int
  oId : Int
  deriving DecidableEq

/-- What is serialized as the result of a transaction. -/
inductive Result (F : Type) where
  | newOrder (output : NewOrderOutput F)
  | quantities (quantities : List Int)
  | stockLevel (count : Int)
  | orderStatus (output : OrderStatusOutput F)
  | payment (output : PaymentOutput F)
  | delivery (orders : List DeliveryOrderInfo)

/-! ### Undo buffers -/

/-- `TPCCUndo`: the copies of modified rows, and the rows that were inserted and deleted, table by
    table. A deleted row belongs to the buffer. -/
structure TPCCUndo (F : Type) where
  modified : (t : Table) → StdMap Int (Row F t)
  inserted : Table → List Int
  insertedHistory : List Nat
  deletedNewOrders : StdMap Int NewOrder

/-- `TPCCUndo()`. -/
def TPCCUndo.new {F : Type} : TPCCUndo F where
  modified _ := StdMap.empty
  inserted _ := []
  insertedHistory := []
  deletedNewOrders := StdMap.empty

end Dsnet.TPCC
