import Dsnet.TPCC.Rules
import Dsnet.TPCC.Transactions

/-! Each transaction keeps `Inv`, if it has an undo parameter: it is put together from the steps that do,
    and throws in between at most. Orders insert rows of three tables, a delivery takes rows out of one,
    and what else is changed is saved. -/

namespace Dsnet.TPCC
open Attempt
variable {F : Type} {plan : Plan} {db₀ : DBImpl F} {s : Run F}

theorem insert_eq_some {u u' : TPCCUndo F} {t : Table} {p : Int} (h : u.insert t p = some u') :
    u' = u.withInserted t p := by
  rw [TPCCUndo.insert] at h
  split_ifs at h
  exact (Option.some.inj h).symm

/-! ### Inserted and deleted rows -/

theorem keeps_fileOrder (ho : plan.use .order = .inserts) (hn : plan.use .newOrder = .inserts) (order : Order) :
    Keeps (Inv plan db₀) (fileOrder true order) := by
  intro s hs
  simp only [fileOrder, insertOrder, insertNewOrder, insert, record, sat_bind, sat_ofOption, sat_get, sat_assert,
    sat_modify, sat_when, sat_pure]
  intro o hkey hfree j hj hjfree no hnkey hnfree
  refine ⟨fun _ u₁ h₁ u₂ h₂ => ?_, fun hf => absurd trivial hf⟩
  obtain ⟨u, hu, h₁⟩ := Option.bind_eq_some_iff.mp h₁
  obtain rfl := insert_eq_some h₁
  obtain rfl := insert_eq_some h₂
  have h : Recorded plan db₀ u s.db := by
    rwa [Inv, hu] at hs
  have hnkey : Row.key (F := F) .newOrder { wId := order.wId, dId := order.dId, oId := order.id } = some no := hnkey
  have h' := (h.insertOrder hfree ho hkey hj hjfree).insertOther hnfree hn hnkey (by decide)
  refine Sat.mono (keeps_tryTuple (.row .order o) true _ (show Inv plan db₀ _ from h')) (fun _ s' h'' => ?_)
    (fun _ h'' => h'')
  exact keeps_tryTuple (.row .newOrder no) true s' h''

theorem keeps_fileOrderLine (hu : plan.use .orderLine = .inserts) (line : OrderLine F) :
    Keeps (Inv plan db₀) (fileOrderLine true line) := by
  intro s hs
  simp only [fileOrderLine, insertOrderLine, insert, record, sat_bind, sat_ofOption, sat_get, sat_assert,
    sat_modify, sat_when, sat_pure]
  intro p hkey hfree
  refine ⟨fun _ u₁ h₁ => ?_, fun hf => absurd trivial hf⟩
  obtain ⟨u, hsu, h₁⟩ := Option.bind_eq_some_iff.mp h₁
  obtain rfl := insert_eq_some h₁
  have h : Recorded plan db₀ u s.db := by
    rwa [Inv, hsu] at hs
  exact keeps_tryTuple (.row .orderLine p) true _ (h.insertOther hfree hu hkey (by decide))

theorem keeps_fileHistory (row : History F) : Keeps (Inv plan db₀) (fileHistory true row) := by
  intro s hs
  simp only [fileHistory, insertHistory, record, sat_bind, sat_ofOption, sat_get, sat_modify, sat_when, sat_pure]
  refine ⟨fun _ u₁ h₁ => ?_, fun hf => absurd trivial hf⟩
  obtain ⟨u, hsu, h₁⟩ := Option.bind_eq_some_iff.mp h₁
  have h : Recorded plan db₀ u s.db := by
    rwa [Inv, hsu] at hs
  obtain ⟨hnot, h'⟩ := h.insertHistory row
  rw [TPCCUndo.insertHistory, if_neg hnot] at h₁
  obtain rfl := Option.some.inj h₁
  exact keeps_tryTuple _ true _ h'

/-- The row that a delivery takes out is one of the undelivered orders. -/
theorem findFirstNewOrder_sat {B : Run F → Prop} (hs : Inv plan db₀ s) (wId dId : Int) :
    Sat (findFirstNewOrder wId dId) s (fun x s' => Inv plan db₀ s' ∧
      ∀ p row, x = some (p, row) → (s'.db.rows .newOrder).find? p = some row) B := by
  simp only [findFirstNewOrder, sat_bind, sat_ofOption, sat_get, sat_pure]
  refine fun key _ => ⟨hs, fun p row hx => ?_⟩
  obtain ⟨hx, _⟩ := Option.filter_eq_some_iff.mp hx
  exact StdMap.find?_of_mem (List.mem_of_find?_eq_some hx)

theorem takeNewOrder_sat {B : Run F → Prop} {p : Int} {row : NewOrder} (hs : Inv plan db₀ s)
    (hu : plan.use .newOrder = .deletes) (hrow : (s.db.rows .newOrder).find? p = some row) :
    Sat (takeNewOrder true p row) s (fun _ => Inv plan db₀) B := by
  simp only [takeNewOrder, record, sat_bind, sat_ofOption, sat_get, sat_modify, sat_when]
  refine ⟨fun _ u₁ h₁ => ?_, fun hf => absurd trivial hf⟩
  obtain ⟨u, hsu, h₁⟩ := Option.bind_eq_some_iff.mp h₁
  have h : Recorded plan db₀ u s.db := by
    rwa [Inv, hsu] at hs
  rw [TPCCUndo.delete] at h₁
  split_ifs at h₁
  obtain rfl := Option.some.inj h₁
  exact h.delete hrow hu

/-! ### Reads -/

section
variable (wId dId cId : Int)

theorem keeps_stockLevelOrder (threshold oId : Int) :
    ∀ (ns sIIds : List Int), Keeps (Inv plan db₀) (stockLevelOrder (F := F) wId dId threshold oId sIIds ns)
  | [], _ => .pure _
  | n :: ns, sIIds => by
      rw [stockLevelOrder]
      refine (keeps_find _ _).bind fun line => ?_
      cases line with
      | none => exact (Keeps.when ((keeps_find _ _).bind fun _ => .assert _)).bind fun _ => .pure _
      | some p =>
        exact (keeps_deref _ _).bind fun _ => (keeps_find _ _).bind fun _ => (keeps_tryRead _ _).bind fun _ =>
          (keeps_deref _ _).bind fun _ => keeps_stockLevelOrder threshold oId ns _

theorem keeps_stockLevel (threshold : Int) : Keeps (Inv plan db₀) (stockLevel (F := F) wId dId threshold) :=
  (keeps_find _ _).bind fun _ => (keeps_tryRead _ _).bind fun _ => (keeps_deref _ _).bind fun _ =>
    (Keeps.fold (fun _ _ => keeps_stockLevelOrder _ _ _ _ _ _) _ _).bind fun _ => .pure _

theorem keeps_findCustomerByName (last : Text) :
    Keeps (Inv plan db₀) (findCustomerByName (F := F) wId dId last) :=
  Keeps.get.bind fun _ => (Keeps.ofOption _).bind fun _ => (Keeps.assert _).bind fun _ =>
    (Keeps.fold (fun _ _ => (keeps_tryTuple _ _).bind fun _ => .assert _) _ _).bind fun _ =>
      (Keeps.ofOption _).bind fun _ => (Keeps.assert _).bind fun _ => .pure _

theorem keeps_internalOrderStatus (customer : Option Int) :
    Keeps (Inv plan db₀) (internalOrderStatus (F := F) customer) :=
  (keeps_tryRead _ _).bind fun _ => (keeps_deref _ _).bind fun _ => Keeps.get.bind fun _ =>
    (Keeps.when ((keeps_find _ _).bind fun _ => (keeps_tryRead _ _).bind fun _ => .pure _)).bind fun _ =>
      (keeps_findLastOrderByCustomer _ _ _).bind fun _ => (keeps_tryRead _ _).bind fun _ =>
        (keeps_deref _ _).bind fun _ =>
          (Keeps.mapEach (fun _ => (keeps_find _ _).bind fun _ => (keeps_tryRead _ _).bind fun _ =>
            (keeps_deref _ _).bind fun _ => .pure _) _).bind fun _ =>
            (Keeps.fold (fun _ _ => (keeps_find _ _).bind fun _ => .assert _) _ _).bind fun _ => .pure _

end

/-! ### Payments -/

/-- Rows of a table other than the stock may always be copied. -/
theorem keeps_update_other {t : Table} (hu : plan.use t = .saves) (ht : t ≠ .stock) (p : Int)
    (f : Row F t → Row F t) : Keeps (Inv plan db₀) (update true t p f) :=
  keeps_update hu (fun hs => absurd hs ht) f

section
variable [Amount F] (wId dId cWId cDId cId : Int) (amount : F) (now : Text)

theorem keeps_paymentHome (hw : plan.use .warehouse = .saves) (hd : plan.use .district = .saves) :
    Keeps (Inv plan db₀) (paymentHome true wId dId cWId cDId cId amount now) :=
  (keeps_find _ _).bind fun _ => (keeps_tryWrite _ _).bind fun w => (keeps_allocateUndo _).bind fun _ =>
    (keeps_update_other hw (by decide) w _).bind fun _ => (keeps_deref _ _).bind fun _ =>
      (keeps_find _ _).bind fun _ => (keeps_tryWrite _ _).bind fun d =>
        (keeps_update_other hd (by decide) d _).bind fun _ => (keeps_deref _ _).bind fun _ =>
          (keeps_fileHistory _).bind fun _ => .pure _

theorem keeps_internalPaymentRemote (hc : plan.use .customer = .saves) (customer : Option Int) :
    Keeps (Inv plan db₀) (internalPaymentRemote true wId dId customer amount) :=
  (keeps_tryWrite _ _).bind fun c => (keeps_allocateUndo _).bind fun _ => (keeps_deref _ _).bind fun _ =>
    (Keeps.assert _).bind fun _ => (keeps_update_other hc (by decide) c _).bind fun _ =>
      (keeps_deref _ _).bind fun _ => .pure _

/-! ### Deliveries -/

theorem keeps_deliverLine (hl : plan.use .orderLine = .saves) (oId : Int) (total : F) (n : Int) :
    Keeps (Inv plan db₀) (deliverLine true wId dId oId now total n) :=
  (keeps_find _ _).bind fun _ => (keeps_tryWrite _ _).bind fun p => (keeps_deref _ _).bind fun _ =>
    (Keeps.assert _).bind fun _ => (keeps_update_other hl (by decide) p _).bind fun _ => .pure _

theorem keeps_deliverDistrict (hn : plan.use .newOrder = .deletes) (ho : plan.use .order = .saves)
    (hl : plan.use .orderLine = .saves) (hc : plan.use .customer = .saves) (carrierId : Int)
    (orders : List DeliveryOrderInfo) :
    Keeps (Inv plan db₀) (deliverDistrict (F := F) true wId carrierId now orders dId) := by
  refine Keeps.get.bind fun s => (Keeps.when ?_).bind fun _ => ?_
  · exact (keeps_find _ _).bind fun _ => (keeps_tryRead _ _).bind fun _ => .pure _
  · intro s hs
    rw [sat_bind]
    refine (findFirstNewOrder_sat hs wId dId).mono (fun x s' hx => ?_) (fun _ h => h)
    obtain ⟨hs', hrow⟩ := hx
    cases x with
    | none => exact hs'
    | some x =>
      obtain ⟨p, row⟩ := x
      show Sat (_ >>= _) s' _ _
      rw [sat_bind]
      refine (takeNewOrder_sat hs' hn (hrow p row rfl)).mono (fun _ s'' h => ?_) (fun _ h => h)
      refine Keeps.bind (keeps_tryTuple _ _) (fun _ => ?_) s'' h
      exact (keeps_find _ _).bind fun _ => (keeps_tryWrite _ _).bind fun o => (keeps_deref _ _).bind fun _ =>
        (Keeps.assert _).bind fun _ => (keeps_update_other ho (by decide) o _).bind fun _ =>
          (Keeps.fold (fun _ _ => keeps_deliverLine _ _ _ hl _ _ _) _ _).bind fun _ =>
            (keeps_find _ _).bind fun _ => (keeps_tryWrite _ _).bind fun c =>
              (keeps_update_other hc (by decide) c _).bind fun _ => .pure _

end

end Dsnet.TPCC
