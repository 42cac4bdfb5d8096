import Dsnet.TPCC.Partition
import Dsnet.TPCC.Prepare

/-! `DBProxy::distNewOrder`: an order whose items are supplied by warehouses of several partitions. The home partition
    handles it once; `callNewOrderRemote` orders from each warehouse of another partition twice. -/

namespace Dsnet.TPCC
open Attempt
variable {F : Type}

/-! ### How often a row of the stock is ordered from -/

/-- The items that are ordered from this row of the stock of a warehouse. -/
def orders (items : List NewOrderItem) (remote k : Int) : Nat :=
  items.countP fun item => item.supplyWId = remote ∧ item.stockKey = some k

/-- The stock at `k` counts `m` orders more than in `db₀`. -/
structure Ordered (db₀ : DBImpl F) (k : Int) (m : Nat) (s : Run F) : Prop where
  items : s.db.items = db₀.items
  warehouses : s.db.rows .warehouse = db₀.rows .warehouse
  drift : Drift k m db₀ s.db

section Count
variable {db₀ : DBImpl F} {k : Int} {m : Nat} {s s' : Run F} {undo : Bool} {t : Table} {α : Type}

theorem Ordered.refl (k : Int) (s : Run F) : Ordered s.db k 0 s := ⟨rfl, rfl, .refl k s.db⟩

theorem Ordered.congr (h : Ordered db₀ k m s) (hitems : s'.db.items = s.db.items)
    (hwarehouses : s'.db.rows .warehouse = s.db.rows .warehouse) (hstock : s'.db.rows .stock = s.db.rows .stock) :
    Ordered db₀ k m s' := by
  refine ⟨hitems.trans h.items, hwarehouses.trans h.warehouses, fun hm => ?_, fun row hrow => ?_⟩
  · rw [hstock]
    exact h.drift.bound hm
  · rw [hstock] at hrow
    exact h.drift.count row hrow

theorem Ordered.hasWarehouse (h : Ordered db₀ k m s) (w : Int) : s.db.hasWarehouse w = db₀.hasWarehouse w := by
  rw [DBImpl.hasWarehouse, DBImpl.hasWarehouse, h.warehouses]

theorem Ordered.setRows (h : Ordered db₀ k m s) (hs : t ≠ .stock) (hw : t ≠ .warehouse) (rows : StdMap Int (Row F t)) :
    Ordered db₀ k m { s with db := s.db.setRows t rows } :=
  h.congr rfl (rows_setRows_of_ne _ _ (Ne.symm hw)) (rows_setRows_of_ne _ _ (Ne.symm hs))

/-- What does not show is no order. -/
theorem ordered_unseen {m' : Txn F α} (h : ∀ s, Sat m' s (fun _ => Unseen s) (Unseen s)) :
    Keeps (Ordered db₀ k m) m' :=
  fun s hs => (h s).mono (fun _ _ hu => hs.congr hu.items (congrFun hu.rows _) (congrFun hu.rows _))
    fun _ hu => hs.congr hu.items (congrFun hu.rows _) (congrFun hu.rows _)

theorem ordered_tryTuple (x : Tuple) (e : Bool) : Keeps (Ordered (F := F) db₀ k m) (tryTuple x e) :=
  ordered_unseen fun _ => tryTuple_unseen x e

theorem ordered_tryRead (t : Table) (q : Option Int) : Keeps (Ordered (F := F) db₀ k m) (tryRead t q) :=
  (Keeps.ofOption _).bind fun _ => (ordered_tryTuple _ _).bind fun _ => .pure _

theorem ordered_tryWrite (t : Table) (q : Option Int) : Keeps (Ordered (F := F) db₀ k m) (tryWrite t q) :=
  (Keeps.ofOption _).bind fun _ => (ordered_tryTuple _ _).bind fun _ => .pure _

theorem ordered_save (undo : Bool) (t : Table) (p : Int) : Keeps (Ordered (F := F) db₀ k m) (save undo t p) :=
  Keeps.when <| (keeps_deref t p).bind fun _ => ordered_unseen fun _ => record_unseen _

theorem ordered_update (hs : t ≠ .stock) (hw : t ≠ .warehouse) (p : Int) (f : Row F t → Row F t) :
    Keeps (Ordered db₀ k m) (update undo t p f) :=
  (ordered_save undo t p).bind fun _ => (keeps_deref t p).bind fun _ => fun _ h => h.setRows hs hw _

theorem ordered_insert (hs : t ≠ .stock) (hw : t ≠ .warehouse) (key : Option Int) (row : Row F t) :
    Keeps (Ordered db₀ k m) (insert t key row) :=
  (Keeps.ofOption _).bind fun _ => Keeps.get.bind fun _ => (Keeps.assert _).bind fun _ =>
    Keeps.bind (m := modify _) (fun _ h => h.setRows hs hw _) fun _ => .pure _

theorem ordered_fileOrder (order : Order) : Keeps (Ordered (F := F) db₀ k m) (fileOrder undo order) := by
  refine Keeps.bind ?_ fun o => (ordered_insert (by decide) (by decide) _ _).bind fun no => ?_
  · exact (ordered_insert (by decide) (by decide) _ _).bind fun _ => (Keeps.ofOption _).bind fun _ =>
      Keeps.get.bind fun _ => (Keeps.assert _).bind fun _ =>
        Keeps.bind (m := modify _) (fun _ h => h.congr rfl rfl rfl) fun _ => .pure _
  · exact (Keeps.when ((ordered_unseen fun _ => record_unseen _).bind fun _ =>
      ordered_unseen fun _ => record_unseen _)).bind fun _ => (ordered_tryTuple _ _).bind fun _ => ordered_tryTuple _ _

theorem ordered_fileOrderLine (line : OrderLine F) : Keeps (Ordered db₀ k m) (fileOrderLine undo line) :=
  (ordered_insert (by decide) (by decide) _ _).bind fun _ =>
    (Keeps.when (ordered_unseen fun _ => record_unseen _)).bind fun _ => ordered_tryTuple _ _

/-- An order from the stock at `p`. -/
theorem updateStock_ordered (h : Ordered db₀ k m s) (p quantity : Int) (remote : Bool) :
    Sat (update undo .stock p (Stock.order quantity remote)) s (fun _ => Ordered db₀ k (if p = k then m + 1 else m))
      fun _ => True := by
  refine (ordered_save undo .stock p).next h (fun _ u hu => ?_) fun _ _ => trivial
  simp only [assign, deref, sat_bind, sat_get, sat_ofOption, sat_modify]
  intro row hrow
  exact ⟨hu.items, (rows_setRows_of_ne _ _ (by decide)).trans hu.warehouses, hu.drift.order hrow quantity remote⟩

/-- An item of the remote warehouse is ordered. -/
theorem orderStock_ordered (h : Ordered db₀ k m s) (home remote : Int) (item : NewOrderItem) :
    Sat (orderStock undo home remote item) s
      (fun _ => Ordered db₀ k (if item.supplyWId = remote ∧ item.stockKey = some k then m + 1 else m))
      fun _ => True := by
  rw [orderStock, sat_ite]
  refine ⟨fun hne => ?_, fun hsupply => ?_⟩
  · rw [if_neg fun hk => hne hk.1]
    exact h
  · rw [findStock, sat_bind]
    refine (find_sat .stock _ s).mono (fun q u hq => ?_) fun _ h => h
    obtain ⟨rfl, hq⟩ := hq
    rw [tryWrite, sat_bind, sat_bind, sat_ofOption]
    rintro p rfl
    have hkey : item.stockKey = some p := (hq p rfl).1
    refine (ordered_tryTuple _ _).next h (fun _ v hv => ?_) fun _ _ => trivial
    rw [sat_pure, sat_bind]
    refine (updateStock_ordered hv p _ _).mono (fun _ v hv => ?_) fun _ h => h
    have hiff : (item.supplyWId = remote ∧ item.stockKey = some k) ↔ p = k := by
      rw [hkey, Option.some_inj]
      exact and_iff_right (not_not.mp hsupply)
    simp only [hiff]
    rw [sat_bind]
    exact deref_sat fun _ _ => hv

theorem mapEach_ordered (home remote : Int) : ∀ (items : List NewOrderItem) {m : Nat} {s : Run F}, Ordered db₀ k m s →
    Sat (mapEach (orderStock undo home remote) items) s (fun _ => Ordered db₀ k (m + orders items remote k))
      fun _ => True
  | [], _, _, h => h
  | item :: items, m, s, h => by
      rw [mapEach, sat_bind]
      refine (orderStock_ordered h home remote item).mono (fun _ u hu => ?_) fun _ h => h
      rw [sat_bind]
      refine (mapEach_ordered home remote items hu).mono (fun _ v hv => ?_) fun _ h => h
      have hcount : m + orders (item :: items) remote k =
          (if item.supplyWId = remote ∧ item.stockKey = some k then m + 1 else m) + orders items remote k := by
        rw [orders, orders, List.countP_cons]
        simp only [decide_eq_true_eq]
        split_ifs <;> omega
      rw [hcount]
      exact hv

/-- The items of the remote warehouse are ordered, if all items are there. -/
theorem newOrderRemote_ordered (h : Ordered db₀ k m s) (home remote : Int) (items : List NewOrderItem) :
    Sat (newOrderRemote undo home remote items) s
      (fun r s' => (r.isSome = true ↔ ItemsValid db₀ items) ∧
        Ordered db₀ k (if r.isSome then m + orders items remote k else m) s') fun _ => True := by
  rw [newOrderRemote, findAndValidateItems, sat_bind, sat_bind]
  refine (ordered_tryTuple _ _ s h).mono (fun _ u hu => ?_) fun _ _ => trivial
  refine (findItems_sat items u).mono (fun valid v hv => ?_) fun _ h => h
  obtain ⟨rfl, hv⟩ := hv
  have hvalid : ItemsValid v.db items ↔ ItemsValid db₀ items := by rw [ItemsValid, ItemsValid, hu.items]
  cases valid with
  | none => exact ⟨iff_of_false Bool.false_ne_true (hvalid.not.mp hv), hu⟩
  | some is =>
    refine (ordered_unseen fun _ => allocateUndo_unseen undo).next hu (fun _ u hu => ?_) fun _ _ => trivial
    rw [sat_bind]
    exact (mapEach_ordered home remote items hu).mono (fun _ w hw => ⟨iff_of_true rfl (hvalid.mp hv.1), hw⟩)
      fun _ h => h

/-- A row of the stock of another warehouse is not ordered from. -/
theorem orders_of_ne {items : List NewOrderItem} {w i remote : Int} (hk : makeStockKey w i = some k) (hne : remote ≠ w) :
    orders items remote k = 0 := by
  refine List.countP_eq_zero.mpr fun item _ hitem => ?_
  obtain ⟨hsupply, hkey⟩ := of_decide_eq_true hitem
  exact hne (hsupply ▸ warehouse_of_stockKey hkey hk)

variable [Amount F] (wId dId cId : Int) {items : List NewOrderItem} (now : Text)

theorem ordered_newOrderLine (oId : Int) (output : NewOrderOutput F) (x : (NewOrderItem × Nat) × Nat) :
    Keeps (Ordered db₀ k m) (newOrderLine undo wId dId oId output x) := by
  obtain ⟨⟨item, tuple⟩, i⟩ := x
  exact (keeps_find _ _).bind fun _ => (ordered_tryWrite _ _).bind fun _ => (ordered_tryTuple _ _).bind fun _ =>
    (keeps_deref _ _).bind fun _ => Keeps.get.bind fun _ => (Keeps.ofOption _).bind fun _ =>
      (ordered_fileOrderLine _).bind fun _ => .pure _

/-- The home part of an order is not one from the stock at `k`. -/
theorem newOrderHome_ordered (h : Ordered db₀ k m s) (hno : orders items wId k = 0) :
    Sat (newOrderHome undo wId dId cId items now) s (fun _ => Ordered db₀ k m) fun _ => True := by
  have hvalid : ∀ d itemTuples (output : NewOrderOutput F) u, Ordered db₀ k m u →
      Sat (newOrderHomeValid undo wId dId cId items now d itemTuples output) u (fun _ => Ordered db₀ k m)
        fun _ => True := by
    intro d itemTuples output u hu
    refine (ordered_unseen fun _ => allocateUndo_unseen undo).next hu (fun _ u hu => ?_) fun _ _ => trivial
    refine (ordered_update (by decide) (by decide) d _).next hu (fun _ u hu => ?_) fun _ _ => trivial
    refine (keeps_find _ _).next hu (fun _ u hu => ?_) fun _ _ => trivial
    refine (ordered_tryRead _ _).next hu (fun _ u hu => ?_) fun _ _ => trivial
    refine (keeps_deref _ _).next hu (fun _ u hu => ?_) fun _ _ => trivial
    refine (Keeps.assert _).next hu (fun _ u hu => ?_) fun _ _ => trivial
    refine (ordered_fileOrder _).next hu (fun _ u hu => ?_) fun _ _ => trivial
    refine (Keeps.fold (ordered_newOrderLine wId dId _) _ _).next hu (fun _ u hu => ?_) fun _ _ => trivial
    rw [sat_bind]
    refine (newOrderRemote_ordered hu wId wId items).mono (fun r v hv => ?_) fun _ h => h
    have hv : Ordered db₀ k m v := by
      rw [hno, Nat.add_zero, ite_self] at hv
      exact hv.2
    simp only [sat_bind, sat_ofOption]
    exact fun _ _ _ _ => hv
  refine Keeps.get.next h (fun _ u hu => ?_) fun _ _ => trivial
  refine (Keeps.assert _).next hu (fun _ u hu => ?_) fun _ _ => trivial
  refine (keeps_find _ _).next hu (fun _ u hu => ?_) fun _ _ => trivial
  refine (ordered_tryWrite _ _).next hu (fun d u hu => ?_) fun _ _ => trivial
  refine (keeps_deref _ _).next hu (fun _ u hu => ?_) fun _ _ => trivial
  refine (keeps_find _ _).next hu (fun _ u hu => ?_) fun _ _ => trivial
  refine (Keeps.assert _).next hu (fun _ u hu => ?_) fun _ _ => trivial
  refine (keeps_find _ _).next hu (fun _ u hu => ?_) fun _ _ => trivial
  refine (ordered_tryRead _ _).next hu (fun _ u hu => ?_) fun _ _ => trivial
  refine (keeps_deref _ _).next hu (fun _ u hu => ?_) fun _ _ => trivial
  rw [findAndValidateItems, sat_bind, sat_bind]
  refine (ordered_tryTuple _ _ u hu).mono (fun _ u hu => ?_) fun _ _ => trivial
  refine (findItems_sat items u).mono (fun valid v hv => ?_) fun _ h => h
  obtain ⟨rfl, -⟩ := hv
  cases valid with
  | none => exact hu
  | some itemTuples =>
    show Sat (_ >>= _) v _ _
    rw [sat_bind]
    exact hvalid d itemTuples _ v hu

/-- The items have rows in the stock, and there is a number for each. -/
def Numbered (items : List NewOrderItem) : Prop :=
  (∀ item ∈ items, item.stockKey ≠ none) ∧ (items.length : Int) ≤ Order.maxOlCnt

theorem newOrderLine_numbered (oId : Int) (output : NewOrderOutput F) (x : (NewOrderItem × Nat) × Nat) :
    Sat (newOrderLine undo wId dId oId output x) s
      (fun _ _ => x.1.1.stockKey ≠ none ∧ (x.2 : Int) + 1 ≤ Order.maxOlCnt) fun _ => True := by
  obtain ⟨⟨item, tuple⟩, i⟩ := x
  rw [newOrderLine, findStock, find, sat_bind, sat_bind, sat_ofOption]
  intro key hkey
  have hrow : item.stockKey ≠ none := fun hno => by cases hno.symm.trans hkey
  refine sat_of_forall (fun _ _ => ?_) fun _ => trivial
  iterate 5 refine sat_bind_of_forall (fun _ _ => ?_) fun _ => trivial
  rw [sat_bind]
  exact (fileOrderLine_number undo _).mono (fun _ _ hn => ⟨hrow, hn⟩) fun _ h => h

theorem newOrderHome_numbered : Sat (newOrderHome undo wId dId cId items now) s
    (fun r _ => if r.1 then Numbered items else r.2.status = invalidItemStatus) fun _ => True := by
  have hvalid : ∀ d itemTuples (output : NewOrderOutput F) u, itemTuples.length = items.length →
      Sat (newOrderHomeValid undo wId dId cId items now d itemTuples output) u (fun _ _ => Numbered items)
        fun _ => True := by
    intro d itemTuples output u hlen
    iterate 7 refine sat_bind_of_forall (fun _ _ => ?_) fun _ => trivial
    rw [sat_bind]
    let xs := (items.zip itemTuples).zipIdx
    refine (sat_fold (fun _ rest _ => ∀ x ∈ xs, x ∈ rest ∨ (x.1.1.stockKey ≠ none ∧ (x.2 : Int) + 1 ≤ Order.maxOlCnt))
      (fun output x rest s hI => ?_) fun x hx => Or.inl hx).mono (fun _ _ hall => ?_) fun _ h => h
    · refine (newOrderLine_numbered wId dId _ output x).mono (fun _ _ hx y hy => ?_) fun _ h => h
      rcases hI y hy with hm | hdone
      · rcases List.mem_cons.mp hm with rfl | hm
        · exact Or.inr hx
        · exact Or.inl hm
      · exact Or.inr hdone
    · have hnumbered : Numbered items := of_numbered hlen fun x hx => (hall x hx).resolve_left List.not_mem_nil
      exact sat_of_forall (fun _ _ => hnumbered) fun _ => trivial
  iterate 9 refine sat_bind_of_forall (fun _ _ => ?_) fun _ => trivial
  refine sat_bind_of_forall (fun _ u => ?_) fun _ => trivial
  rw [findAndValidateItems, sat_bind]
  refine sat_bind_of_forall (fun _ v => ?_) fun _ => trivial
  refine (findItems_sat items v).mono (fun valid w hw => ?_) fun _ h => h
  obtain ⟨rfl, hw⟩ := hw
  cases valid with
  | none => rfl
  | some itemTuples =>
    show Sat (_ >>= _) w _ _
    rw [sat_bind]
    exact (hvalid _ itemTuples _ w hw.2).mono (fun _ _ h => h) fun _ h => h

theorem newOrder_numbered : Sat (newOrder undo wId dId cId items now) s
    (fun out _ => out.status ≠ invalidItemStatus → Numbered items) fun _ => True := by
  rw [newOrder, sat_bind]
  refine (newOrderHome_numbered wId dId cId now).mono (fun r u hu => ?_) fun _ h => h
  obtain ⟨ok, output⟩ := r
  cases ok with
  | false => exact fun hvalid => absurd hu hvalid
  | true => exact sat_of_forall (fun _ _ _ => hu) fun _ => trivial

/-! Each of the further warehouses has its turn once. The row at `k` is one of the warehouse `w`. -/

variable {w i : Int}

theorem turn_of_nodup {a : Int} {rest : List Int} (n : Nat) (hnodup : (a :: rest).Nodup) :
    (if w ∈ a :: rest then 0 else n) + (if a = w then n else 0) = if w ∈ rest then 0 else n := by
  by_cases ha : a = w
  · subst ha
    rw [if_pos List.mem_cons_self, if_pos rfl, if_neg (List.nodup_cons.mp hnodup).1, Nat.zero_add]
  · rw [if_neg ha, Nat.add_zero]
    simp only [List.mem_cons, Ne.symm ha, false_or]

theorem orders_eq (hk : makeStockKey w i = some k) (remote : Int) :
    orders items remote k = if remote = w then orders items w k else 0 := by
  split_ifs with h
  · rw [h]
  · exact orders_of_ne hk h

theorem orders_eq_zero (hw : w ≠ wId) (hno : w ∉ newOrderRemoteWarehouses wId items) : orders items w k = 0 := by
  refine List.countP_eq_zero.mpr fun item hitem hp => hno ?_
  exact mem_newOrderRemoteWarehouses.mpr ⟨⟨item, hitem, (of_decide_eq_true hp).1⟩, hw⟩

theorem nodup_newOrderRemoteWarehouses : (newOrderRemoteWarehouses wId items).Nodup := List.nodup_dedup _

/-- With all warehouses in one database the stock counts every order once. -/
theorem newOrder_ordered (hk : makeStockKey w i = some k) (hw : w ≠ wId) :
    Sat (newOrder undo wId dId cId items now) s
      (fun out s' => out.status ≠ invalidItemStatus → Ordered s.db k (orders items w k) s')
      fun _ => True := by
  have hhome : Sat (newOrderHome undo wId dId cId items now) s (fun _ => Ordered s.db k 0) fun _ => True :=
    newOrderHome_ordered wId dId cId now (.refl k s) (orders_of_ne hk (Ne.symm hw))
  rw [newOrder, sat_bind]
  refine (hhome.and (newOrderHome_numbered wId dId cId now)).mono (fun r u hu => ?_) fun _ h => h.1
  obtain ⟨ok, output⟩ := r
  obtain ⟨hu, hok⟩ := hu
  cases ok with
  | false => exact fun hvalid => absurd hok hvalid
  | true =>
    refine (sat_fold (fun _ rest s' => rest.Nodup ∧ Ordered s.db k (if w ∈ rest then 0 else orders items w k) s')
      (fun output remote rest v hv => ?_) ⟨nodup_newOrderRemoteWarehouses wId, ?_⟩).mono
      (fun _ _ hv _ => hv.2) fun _ h => h
    · rw [sat_bind]
      refine (newOrderRemote_ordered hv.2 wId remote items).mono (fun r x hx => ?_) fun _ h => h
      simp only [sat_bind, sat_ofOption]
      rintro quantities rfl output' -
      have hx := hx.2
      rw [Option.isSome_some, if_pos rfl, orders_eq hk remote, turn_of_nodup _ hv.1] at hx
      exact ⟨(List.nodup_cons.mp hv.1).2, hx⟩
    · split_ifs with hmem
      · exact hu
      · rwa [orders_eq_zero wId hw hmem]

omit [Amount F] in
/-- `callNewOrderRemote` counts every order from a warehouse of the partition twice. -/
theorem orderRemotes_ordered {db₀ : DBImpl F} (hk : makeStockKey w i = some k) :
    ∀ (remotes : List Int) {final : List Int} {s : Run F}, remotes.Nodup →
      Ordered db₀ k (if w ∈ remotes then 0 else if db₀.hasWarehouse w then 2 * orders items w k else 0) s →
      Sat (orderRemotes undo wId items final remotes) s
        (fun r s' => r.isSome → Ordered db₀ k (if db₀.hasWarehouse w then 2 * orders items w k else 0) s')
        fun _ => True
  | [], _, _, _, h => fun _ => by simpa using h
  | remote :: remotes, final, s, hnodup, h => by
      have hrest := (List.nodup_cons.mp hnodup).2
      have hturn := turn_of_nodup (w := w) (if db₀.hasWarehouse w then 2 * orders items w k else 0) hnodup
      rw [orderRemotes, sat_bind, sat_get, h.hasWarehouse]
      by_cases hhas : db₀.hasWarehouse remote = true
      · rw [if_pos hhas, sat_bind]
        refine (newOrderRemote_ordered h wId remote items).mono (fun r u hu => ?_) fun _ h => h
        cases r with
        | none => exact fun h => absurd h Bool.false_ne_true
        | some quantities =>
          show Sat (_ >>= _) u _ _
          rw [sat_bind]
          refine (newOrderRemote_ordered hu.2 wId remote items).mono (fun again v hv => ?_) fun _ h => h
          have hagain : again.isSome = true := hv.1.mpr (hu.1.mp rfl)
          simp only [sat_bind, sat_ofOption]
          refine fun final' _ => orderRemotes_ordered hk remotes hrest ?_
          have hv := hv.2
          have htwice : orders items remote k + orders items remote k =
              if remote = w then if db₀.hasWarehouse w then 2 * orders items w k else 0 else 0 := by
            rw [orders_eq hk remote]
            split_ifs with hw hno
            · exact (Nat.two_mul _).symm
            · exact absurd (hw ▸ hhas) hno
            · rfl
          rw [if_pos hagain, Option.isSome_some, if_pos rfl, Nat.add_assoc, htwice, hturn] at hv
          exact hv
      · rw [if_neg hhas]
        refine orderRemotes_ordered hk remotes hrest ?_
        have hnone : 0 = if remote = w then if db₀.hasWarehouse w then 2 * orders items w k else 0 else 0 := by
          split_ifs with hw hthere
          · exact absurd (hw ▸ hthere) hhas
          · rfl
          · rfl
        rw [← hturn, ← hnone]
        exact h

omit [Amount F] in
theorem callNewOrderRemote_ordered (hk : makeStockKey w i = some k) (hw : w ≠ wId) :
    Sat (callNewOrderRemote undo wId items) s
      (fun r s' => r.isSome → Ordered s.db k (if s.db.hasWarehouse w then 2 * orders items w k else 0) s')
      fun _ => True := by
  rw [callNewOrderRemote, sat_bind]
  refine (orderRemotes_ordered wId hk _ (nodup_newOrderRemoteWarehouses wId) ?_).mono (fun r u hu hr => hu ?_) fun _ h => h
  · split_ifs with hmem
    · exact .refl k s
    · rw [orders_eq_zero wId hw hmem]
      exact .refl k s
    · exact .refl k s
  · rwa [Option.isSome_map] at hr

/-- The home partition does not order from a warehouse that it does not have. -/
theorem callNewOrderHome_ordered (hk : makeStockKey w i = some k) (hw : w ≠ wId)
    (hno : s.db.hasWarehouse w = false) :
    Sat (callNewOrderHome undo wId dId cId items now) s (fun _ => Ordered s.db k 0) fun _ => True := by
  have hhome : Sat (newOrderHome undo wId dId cId items now) s (fun _ => Ordered s.db k 0) fun _ => True :=
    newOrderHome_ordered wId dId cId now (.refl k s) (orders_of_ne hk (Ne.symm hw))
  rw [callNewOrderHome, sat_bind]
  refine hhome.mono (fun r u hu => ?_) fun _ h => h
  obtain ⟨ok, output⟩ := r
  cases ok with
  | false => exact hu
  | true =>
    show Sat (_ >>= _) u _ _
    rw [sat_bind]
    refine (sat_fold (fun _ _ => Ordered s.db k 0) (fun output remote rest v hv => ?_) hu).mono (fun _ _ hv => hv)
      fun _ h => h
    rw [orderFurther, sat_bind, sat_get, hv.hasWarehouse]
    by_cases hhas : s.db.hasWarehouse remote = true
    · rw [if_pos hhas, sat_bind]
      refine (newOrderRemote_ordered hv wId remote items).mono (fun r x hx => ?_) fun _ h => h
      have hne : remote ≠ w := fun heq => Bool.false_ne_true (hno.symm.trans (heq ▸ hhas))
      have hx := hx.2
      rw [orders_of_ne hk hne, ite_self] at hx
      simp only [sat_bind, sat_ofOption]
      exact fun _ _ _ _ => hx
    · rw [if_neg hhas]
      exact hv

end Count

/-! ### An order of several partitions -/

section Distributed
variable [Amount F]

/-- The other partitions of an order, in `distNewOrder`. -/
def remotePartitions (partition : Int → Nat) (wId : Int) (items : List NewOrderItem) : List Nat :=
  (((newOrderRemoteWarehouses wId items).map partition).filter (· ≠ partition wId)).dedup

/-- What the partitions answer to the requests of `distNewOrder`, and are left with. -/
structure Answers (F : Type) where
  output : NewOrderOutput F
  quantities : Nat → List Int
  run : Nat → Run F

/-- Each partition of the order has handled its request: NEW_ORDER_HOME, or else NEW_ORDER_REMOTE. -/
structure Answered (partition : Int → Nat) (undo : Bool) (wId dId cId : Int) (items : List NewOrderItem) (now : Text)
    (runs : Nat → Run F) (x : Answers F) : Prop where
  home : callNewOrderHome undo wId dId cId items now (runs (partition wId)) =
    (.returned (.newOrder x.output), x.run (partition wId))
  remote : ∀ q ∈ remotePartitions partition wId items,
    callNewOrderRemote undo wId items (runs q) = (.returned (some (.quantities (x.quantities q))), x.run q)

/-- `distNewOrder`: unless an item is not there, the quantities of the other partitions go into the output. -/
def distNewOrder (output : NewOrderOutput F) (quantities : List (List Int)) : Option (NewOrderOutput F) :=
  if output.status = invalidItemStatus then some output
  else quantities.foldlM (fun output qs => newOrderCombine qs output) output

/-- The partitions have answered with the output `out`, and are partitions of `db`. -/
def SameOrder (partition : Int → Nat) (undo : Bool) (wId dId cId : Int) (items : List NewOrderItem) (now : Text)
    (runs : Nat → Run F) (out : NewOrderOutput F) (db : DBImpl F) : Prop :=
  ∃ x, Answered partition undo wId dId cId items now runs x ∧
    (∀ q ∈ partition wId :: remotePartitions partition wId items, Agree (partition · = q) db (x.run q).db) ∧
    distNewOrder x.output ((remotePartitions partition wId items).map x.quantities) = some out

variable {partition : Int → Nat} {wId dId cId : Int} {items : List NewOrderItem} {now : Text} {s t : Run F}
  {out : NewOrderOutput F} {undo undo' : Bool} {runs : Nat → Run F}

theorem mem_remotePartitions {q : Nat} : q ∈ remotePartitions partition wId items ↔
    q ≠ partition wId ∧ ∃ item ∈ items, item.supplyWId ≠ wId ∧ partition item.supplyWId = q := by
  simp only [remotePartitions, List.mem_dedup, List.mem_filter, List.mem_map, mem_newOrderRemoteWarehouses,
    decide_eq_true_eq]
  constructor
  · rintro ⟨⟨_, ⟨⟨item, hitem, rfl⟩, hne⟩, rfl⟩, hq⟩
    exact ⟨hq, item, hitem, hne, rfl⟩
  · rintro ⟨hq, item, hitem, hne, rfl⟩
    exact ⟨⟨_, ⟨⟨item, hitem, rfl⟩, hne⟩, rfl⟩, hq⟩

omit [Amount F] in
/-- The same rows of the stock before and after, but another number of orders. -/
theorem Ordered.contradicts {here : Int → Prop} {s' t' : Run F} {w i k : Int} {n n' : Nat} (hw : here w)
    (hk : makeStockKey w i = some k) (h : Ordered s.db k n t) (h' : Ordered s'.db k n' t') (hpos : 0 < n)
    (hne : (n : Int) % 2 ^ 32 ≠ n' % 2 ^ 32) (hbefore : Agree here s.db s'.db) (hafter : Agree here t.db t'.db) : False := by
  have hkey : Key here .stock k := ⟨w, i, hw, hk⟩
  obtain ⟨row, hrow⟩ := Option.isSome_iff_exists.mp (h.drift.bound hpos)
  obtain ⟨row₀, hrow₀, hcount⟩ := h.drift.count row hrow
  obtain ⟨row₁, hrow₁, hcount'⟩ := h'.drift.count row ((hafter.rows .stock k hkey).trans hrow)
  obtain rfl := Option.some.inj (hrow₀.symm.trans ((hbefore.rows .stock k hkey).symm.trans hrow₁))
  omega

/-- An order from a warehouse that the home partition does not have is counted twice, or not at all. -/
theorem SameOrder.supplied (h : SameOrder partition undo' wId dId cId items now runs out t.db)
    (hrun : newOrder undo wId dId cId items now s = (.returned out, t)) (hvalid : out.status ≠ invalidItemStatus)
    (hplaced : ∀ q, Agree (partition · = q) s.db (runs q).db) {item : NewOrderItem} (hitem : item ∈ items)
    (hne : item.supplyWId ≠ wId) : (runs (partition wId)).db.hasWarehouse item.supplyWId = true := by
  have hnumbered := (newOrder_numbered wId dId cId now).returned hrun hvalid
  obtain ⟨x, hx, hagree, -⟩ := h
  by_contra hno
  obtain ⟨k, hk⟩ := Option.ne_none_iff_exists'.mp (hnumbered.1 item hitem)
  have hdone := (newOrder_ordered wId dId cId now hk hne).returned hrun hvalid
  have hpos : 0 < orders items item.supplyWId k :=
    List.countP_pos_iff.mpr ⟨item, hitem, decide_eq_true ⟨rfl, hk⟩⟩
  have hle : orders items item.supplyWId k ≤ 15 := by
    have hlen : (items.length : Int) ≤ 15 := hnumbered.2
    have hcount : orders items item.supplyWId k ≤ items.length := List.countP_le_length
    omega
  by_cases hq : partition item.supplyWId = partition wId
  · have hhome := (callNewOrderHome_ordered wId dId cId now hk hne (Bool.eq_false_iff.mpr hno)).returned hx.home
    exact hdone.contradicts hq hk hhome hpos (by omega) (hplaced _) (hagree _ List.mem_cons_self)
  · have hmem : partition item.supplyWId ∈ remotePartitions partition wId items :=
      mem_remotePartitions.mpr ⟨hq, item, hitem, hne, rfl⟩
    have hremote := (callNewOrderRemote_ordered wId hk hne).returned (hx.remote _ hmem) rfl
    refine hdone.contradicts (show (partition · = partition item.supplyWId) _ from rfl) hk hremote hpos ?_ (hplaced _) (hagree _ (List.mem_cons_of_mem _ hmem))
    split_ifs <;> omega

/-- An order of several partitions is the same as one of a single database exactly when the home partition has all the
    supplying warehouses: `callNewOrderRemote` orders twice. -/
theorem sameOrder_iff (hrun : newOrder undo wId dId cId items now s = (.returned out, t))
    (hvalid : out.status ≠ invalidItemStatus) (hplaced : ∀ q, Agree (partition · = q) s.db (runs q).db)
    (hlocks : ((runs (partition wId)).db.tid = -1 ∧ undo' = false) ∨
      ∃ result u, callNewOrderHome undo' wId dId cId items now (runs (partition wId)) = (.returned result, u)) :
    SameOrder partition undo' wId dId cId items now runs out t.db ↔
      ∀ item ∈ items, item.supplyWId = wId ∨ (runs (partition wId)).db.hasWarehouse item.supplyWId = true := by
  constructor
  · exact fun h item hitem => or_iff_not_imp_left.mpr fun hne => h.supplied hrun hvalid hplaced hitem hne
  · intro hhas
    have hhere : ∀ item ∈ items, partition item.supplyWId = partition wId := by
      intro item hitem
      rcases hhas item hitem with heq | hthere
      · rw [heq]
      · by_contra hno
        exact Bool.false_ne_true (((hplaced (partition wId)).others _ hno).symm.trans hthere)
    have hnone : remotePartitions partition wId items = [] := by
      refine List.eq_nil_iff_forall_not_mem.mpr fun q hq => ?_
      obtain ⟨hne, item, hitem, -, rfl⟩ := mem_remotePartitions.mp hq
      exact hne (hhere item hitem)
    have hsides : Sides ((runs (partition wId)).db.tid = -1 ∧ undo' = false) (partition · = partition wId)
        (newOrderRemoteWarehouses wId items) s (runs (partition wId)) := by
      refine ⟨hplaced _, And.left, fun w hw => ?_⟩
      obtain ⟨⟨item, hitem, rfl⟩, hne⟩ := mem_newOrderRemoteWarehouses.mp hw
      exact (hhas item hitem).resolve_left hne
    obtain ⟨hret, htotal⟩ := follows_newOrder dId cId now And.right
      (show (partition · = partition wId) wId from rfl) hhere (fun _ hw => hw) s _ hsides out t hrun
    obtain ⟨result, u, hhome⟩ : ∃ result u,
        callNewOrderHome undo' wId dId cId items now (runs (partition wId)) = (.returned result, u) :=
      hlocks.elim htotal id
    obtain ⟨rfl, hafter⟩ := hret result u hhome
    refine ⟨⟨out, fun _ => [], fun _ => u⟩, ⟨hhome, fun q hq => ?_⟩, fun q hq => ?_, ?_⟩
    · rw [hnone] at hq
      cases hq
    · rw [hnone] at hq
      obtain rfl := List.mem_singleton.mp hq
      exact hafter.agree
    · rw [hnone, distNewOrder, if_neg hvalid]
      rfl

end Distributed

/-! ### Two warehouses -/

/-- The partitions of the two warehouses: each has a copy of everything but the warehouses of the others. -/
def twoPartitions (partition : Int → Nat) (q : Nat) : Run Int :=
  let first := if partition 1 = q then twoRows .warehouse else (twoRows .warehouse).erase 1
  { db := twoWarehouses.db.setRows .warehouse (if partition 2 = q then first else first.erase 2), undo := none }

theorem twoPartitions_agree (partition : Int → Nat) (q : Nat) :
    Agree (partition · = q) twoWarehouses.db (twoPartitions partition q).db := by
  have hfind : ∀ w, ((twoPartitions partition q).db.rows .warehouse).find? w =
      if (w = 1 ∧ partition 1 ≠ q) ∨ (w = 2 ∧ partition 2 ≠ q) then none else (twoRows .warehouse).find? w := by
    intro w
    rw [twoPartitions, rows_setRows_self]
    by_cases h1 : partition 1 = q <;> by_cases h2 : partition 2 = q
    · simp [h1, h2]
    · simp [h1, h2, StdMap.find?_erase]
    · simp [h1, h2, StdMap.find?_erase]
    · by_cases hw : w = 2 <;> simp [h1, h2, StdMap.find?_erase, hw]
  refine ⟨rfl, fun t k hk => ?_, fun w hw => ?_, fun _ _ _ _ _ _ _ => rfl, fun _ => rfl⟩
  · cases t with
    | warehouse =>
      have hk : partition k = q := hk
      rw [hfind, if_neg]
      · rfl
      · rintro (⟨rfl, hne⟩ | ⟨rfl, hne⟩)
        · exact hne hk
        · exact hne hk
    | _ => rfl
  · rw [DBImpl.hasWarehouse, hfind]
    split_ifs with hno
    · rfl
    · have h1 : w ≠ 1 := fun heq => hno (Or.inl ⟨heq, heq ▸ hw⟩)
      have h2 : w ≠ 2 := fun heq => hno (Or.inr ⟨heq, heq ▸ hw⟩)
      rw [twoRows, StdMap.find?_insert, if_neg h2, StdMap.find?_insert, if_neg h1]
      rfl

/-- The order of one piece of the item, at the warehouse 1 from the stock of the warehouse 2. -/
def fromSecond : List NewOrderItem := [⟨1, 2, 5⟩]

def noon : Text := List.replicate datetimeSize 48

/-- Both warehouses are on one partition. -/
theorem sameOrder_iff_together : ∃ out t,
    newOrder false 1 1 1 fromSecond noon { db := twoWarehouses.db, undo := none } = (.returned out, t) ∧
      SameOrder (fun _ => 0) false 1 1 1 fromSecond noon (twoPartitions fun _ => 0) out t.db := by
  obtain ⟨out, t, hrun, hvalid⟩ := exists_returned (newOrder false 1 1 1 fromSecond noon)
    { db := twoWarehouses.db, undo := none } (fun out _ => out.status ≠ invalidItemStatus) (by decide +kernel)
  refine ⟨out, t, hrun, (sameOrder_iff hrun (of_decide_eq_true hvalid) (twoPartitions_agree _) (Or.inl ⟨rfl, rfl⟩)).mpr ?_⟩
  decide +kernel

/-- The result of a new order at home. -/
def ofNewOrder : Result Int → Bool
  | .newOrder _ => true
  | _ => false

/-- The quantities are returned, and the stock in the second warehouse counts two orders. -/
def countsTwice (r : Option (Result Int)) (db : DBImpl Int) : Bool :=
  match r with
  | some (.quantities _) => ((db.rows .stock).find? 200001).map Stock.orderCnt = some 2
  | _ => false

/-- Each warehouse is on a partition of its own: the order is counted twice in the stock of the second. -/
theorem remote_ordered_twice : ∃ out t,
    newOrder false 1 1 1 fromSecond noon { db := twoWarehouses.db, undo := none } = (.returned out, t) ∧
      out.status ≠ invalidItemStatus ∧ ((t.db.rows .stock).find? 200001).map Stock.orderCnt = some 1 ∧
      (∀ q, Agree (Int.toNat · = q) twoWarehouses.db (twoPartitions Int.toNat q).db) ∧
      (∃ x, Answered Int.toNat false 1 1 1 fromSecond noon (twoPartitions Int.toNat) x ∧
        (((x.run 2).db.rows .stock).find? 200001).map Stock.orderCnt = some 2) ∧
      ¬ SameOrder Int.toNat false 1 1 1 fromSecond noon (twoPartitions Int.toNat) out t.db := by
  obtain ⟨out, t, hrun, hsingle⟩ := exists_returned (newOrder false 1 1 1 fromSecond noon)
    { db := twoWarehouses.db, undo := none }
    (fun out t => out.status ≠ invalidItemStatus ∧ ((t.db.rows .stock).find? 200001).map Stock.orderCnt = some 1)
    (by decide +kernel)
  obtain ⟨hvalid, hcount⟩ := of_decide_eq_true hsingle
  obtain ⟨result, u, hhome, hresult⟩ := exists_returned (callNewOrderHome false 1 1 1 fromSecond noon)
    (twoPartitions Int.toNat 1) (fun r _ => ofNewOrder r) (by decide +kernel)
  obtain ⟨answer, v, hremote, hanswer⟩ := exists_returned (callNewOrderRemote false 1 fromSecond)
    (twoPartitions Int.toNat 2) (fun r v => countsTwice r v.db) (by decide +kernel)
  refine ⟨out, t, hrun, hvalid, hcount, twoPartitions_agree _, ?_, fun h => ?_⟩
  · cases result with
    | newOrder output =>
      unfold countsTwice at hanswer
      split at hanswer
      · rename_i quantities
        refine ⟨⟨output, fun _ => quantities, fun q => if q = 1 then u else v⟩, ⟨hhome, fun q hq => ?_⟩,
          of_decide_eq_true hanswer⟩
        obtain rfl : q = 2 := by simpa [remotePartitions, newOrderRemoteWarehouses, fromSecond] using hq
        exact hremote
      · cases hanswer
    | _ => cases hresult
  · have hhas := h.supplied hrun hvalid (twoPartitions_agree _) (List.mem_singleton_self _) (by decide)
    revert hhas
    decide +kernel

end Dsnet.TPCC
