import Dsnet.Lib.Follows
import Dsnet.TPCC.Units

/-! The tables of one partition beside tables that hold all warehouses. A partition has the rows of its own warehouses,
    and the stock of every warehouse: of those of the others only the distribution info and the data are read. What a
    transaction does to rows of the partition it does in the same way here and there. -/

namespace Dsnet.TPCC
open Attempt
variable {F : Type}

/-- The columns of the stock that are the same on every partition. -/
def Stock.replicated (s : Stock) : List Text × Text := (s.dist, s.data)

/-- The keys of the rows that belong to one of these warehouses. -/
def Key (here : Int → Prop) : Table → Int → Prop
  | .warehouse, k => here k
  | .district, k => ∃ w d, here w ∧ makeDistrictKey w d = some k
  | .customer, k => ∃ w d c, here w ∧ makeCustomerKey w d c = some k
  | .stock, k => ∃ w i, here w ∧ makeStockKey w i = some k
  | .order, k => ∃ w d o, here w ∧ makeOrderKey w d o = some k
  | .orderLine, k => ∃ w d o n, here w ∧ makeOrderLineKey w d o n = some k
  | .newOrder, k => ∃ w d o, here w ∧ makeNewOrderKey w d o = some k

/-- `db'` is the partition of these warehouses in `db`. -/
structure Agree (here : Int → Prop) (db db' : DBImpl F) : Prop where
  items : db'.items = db.items
  rows : ∀ t k, Key here t k → (db'.rows t).find? k = (db.rows t).find? k
  others : ∀ w, ¬ here w → db'.hasWarehouse w = false
  index : ∀ w d c o k, here w → makeOrderByCustomerKey w d c o = some k →
    db'.ordersByCustomer.find? k = db.ordersByCustomer.find? k
  replicated : ∀ k, ((db'.rows .stock).find? k).map Stock.replicated = ((db.rows .stock).find? k).map Stock.replicated

variable {here : Int → Prop} {db db' : DBImpl F} {t : Table} {p : Int}

/-- A row of the partition is put in, or written. -/
theorem Agree.setRows (h : Agree here db db') (hp : Key here t p) (row : Row F t) :
    Agree here (db.setRows t ((db.rows t).insert p row)) (db'.setRows t ((db'.rows t).insert p row)) := by
  have hrows : ∀ u k, ((db'.rows u).find? k = (db.rows u).find? k ∨ (u = t ∧ k = p)) →
      ((db'.setRows t ((db'.rows t).insert p row)).rows u).find? k =
        ((db.setRows t ((db.rows t).insert p row)).rows u).find? k := by
    intro u k hk
    by_cases hu : u = t
    · subst hu
      rw [rows_setRows_self, rows_setRows_self, StdMap.find?_insert, StdMap.find?_insert]
      by_cases hkp : k = p
      · rw [if_pos hkp, if_pos hkp]
      · rw [if_neg hkp, if_neg hkp]
        exact hk.resolve_right fun h => hkp h.2
    · rw [rows_setRows_of_ne _ _ hu, rows_setRows_of_ne _ _ hu]
      exact hk.resolve_right fun h => hu h.1
  refine ⟨h.items, fun u k hk => hrows u k (Or.inl (h.rows u k hk)), fun w hw => ?_, h.index, fun k => ?_⟩
  · have hno := h.others w hw
    rw [DBImpl.hasWarehouse] at hno ⊢
    by_cases ht : t = .warehouse
    · subst ht
      have hne : w ≠ p := fun heq => hw (heq ▸ hp)
      rwa [rows_setRows_self, StdMap.find?_insert, if_neg hne]
    · rwa [rows_setRows_of_ne _ _ (Ne.symm ht)]
  · by_cases hk : Table.stock = t ∧ k = p
    · rw [hrows .stock k (Or.inr hk)]
    · by_cases ht : Table.stock = t
      · subst ht
        have hkp : k ≠ p := fun hkp => hk ⟨rfl, hkp⟩
        rw [rows_setRows_self, rows_setRows_self, StdMap.find?_insert, StdMap.find?_insert, if_neg hkp, if_neg hkp]
        exact h.replicated k
      · rw [rows_setRows_of_ne _ _ ht, rows_setRows_of_ne _ _ ht]
        exact h.replicated k

/-! ### What does not show in the tables -/

/-- Locks and undo buffers may have changed. -/
structure Unseen (s s' : Run F) : Prop where
  items : s'.db.items = s.db.items
  rows : s'.db.rows = s.db.rows
  index : s'.db.ordersByCustomer = s.db.ordersByCustomer
  tid : s'.db.tid = s.db.tid

theorem Unseen.refl (s : Run F) : Unseen s s := ⟨rfl, rfl, rfl, rfl⟩

theorem Unseen.trans {s u v : Run F} (h : Unseen s u) (h' : Unseen u v) : Unseen s v :=
  ⟨h'.items.trans h.items, h'.rows.trans h.rows, h'.index.trans h.index, h'.tid.trans h.tid⟩

variable {s s' : Run F} {B : Run F → Prop}

theorem tryTuple_unseen (x : Tuple) (e : Bool) : Sat (tryTuple x e) s (fun _ => Unseen s) (Unseen s) := by
  have hsame {db' : DBImpl F} (h : db'.items = s.db.items ∧ db'.rows = s.db.rows ∧
      db'.ordersByCustomer = s.db.ordersByCustomer ∧ db'.tid = s.db.tid) : Unseen s { s with db := db' } :=
    ⟨h.1, h.2.1, h.2.2.1, h.2.2.2⟩
  simp only [tryTuple, tryLock, lockFor, sat_bind, sat_get, sat_when, sat_ite]
  refine ⟨fun _ => ⟨fun _ => ?_, fun _ => ?_⟩, fun _ => .refl s⟩
  · cases s.db.lockTable x with
    | none => exact .refl s
    | some l =>
      simp only [sat_bind, sat_assert, sat_ite, sat_throw, sat_pure]
      exact fun _ => ⟨fun _ => .refl s, fun _ => .refl s⟩
  · rw [sat_assert]
    intro _
    cases s.db.lockTable x with
    | none => exact hsame ⟨rfl, rfl, rfl, rfl⟩
    | some l =>
      simp only [sat_bind, sat_assert, sat_ite, sat_throw, sat_modify]
      exact fun _ => ⟨fun _ => ⟨fun _ => hsame ⟨rfl, rfl, rfl, rfl⟩, fun _ => ⟨fun _ => .refl s, fun _ _ => .refl s⟩⟩,
        fun _ => ⟨fun _ => .refl s, fun _ => hsame ⟨rfl, rfl, rfl, rfl⟩⟩⟩

theorem record_unseen (f : TPCCUndo F → Option (TPCCUndo F)) : Sat (record f) s (fun _ => Unseen s) B := by
  simp only [record, sat_bind, sat_get, sat_ofOption, sat_modify]
  exact fun _ _ => ⟨rfl, rfl, rfl, rfl⟩

theorem allocateUndo_unseen (undo : Bool) : Sat (allocateUndo undo) s (fun _ => Unseen s) B := by
  rw [allocateUndo, sat_when]
  exact ⟨fun _ => ⟨rfl, rfl, rfl, rfl⟩, fun _ => .refl s⟩

/-! ### The same steps on both sides -/

/-- The states here and there: tables with all warehouses, and a partition, which has the rows of the warehouses `ws`.
    If what is done there has to return, it is done without locks. -/
structure Sides (total : Prop) (here : Int → Prop) (ws : List Int) (s s' : Run F) : Prop where
  agree : Agree here s.db s'.db
  free : total → s'.db.tid = -1
  warehouses : ∀ w ∈ ws, s'.db.hasWarehouse w = true

section Steps
variable {total : Prop} {ws : List Int} {undo undo' : Bool} {key : Option Int}

theorem Sides.unseen {u u' : Run F} (h : Sides total here ws s s') (hu : Unseen s u) (hu' : Unseen s' u') :
    Sides total here ws u u' := by
  have hhas : ∀ w, u'.db.hasWarehouse w = s'.db.hasWarehouse w := fun w => by
    rw [DBImpl.hasWarehouse, DBImpl.hasWarehouse, hu'.rows]
  refine ⟨⟨?_, fun t k hk => ?_, fun w hw => ?_, fun w d c o k hw hk => ?_, fun k => ?_⟩, fun hfree => ?_, fun w hw => ?_⟩
  · rw [hu'.items, hu.items]
    exact h.agree.items
  · rw [hu'.rows, hu.rows]
    exact h.agree.rows t k hk
  · rw [hhas]
    exact h.agree.others w hw
  · rw [hu'.index, hu.index]
    exact h.agree.index w d c o k hw hk
  · rw [hu'.rows, hu.rows]
    exact h.agree.replicated k
  · rw [hu'.tid]
    exact h.free hfree
  · rw [hhas]
    exact h.warehouses w hw

/-- The same row on both sides. -/
theorem Sides.setRows (h : Sides total here ws s s') (hp : Key here t p) (row : Row F t) :
    Sides total here ws { s with db := s.db.setRows t ((s.db.rows t).insert p row) }
      { s' with db := s'.db.setRows t ((s'.db.rows t).insert p row) } := by
  refine ⟨h.agree.setRows hp row, h.free, fun w hw => ?_⟩
  have hthere := h.warehouses w hw
  rw [DBImpl.hasWarehouse] at hthere ⊢
  by_cases ht : t = .warehouse
  · subst ht
    rw [rows_setRows_self, StdMap.find?_insert]
    split_ifs
    · rfl
    · exact hthere
  · rwa [rows_setRows_of_ne _ _ (Ne.symm ht)]

/-- Steps that do not show in the tables. -/
theorem follows_unseen {m m' : Txn F Unit} (h : ∀ s, Sat m s (fun _ => Unseen s) (Unseen s))
    (h' : ∀ s, Sat m' s (fun _ => Unseen s) (Unseen s))
    (htotal : total → ∀ s : Run F, s.db.tid = -1 → ∃ b t, m' s = (.returned b, t)) :
    Follows total (Sides total here ws) (fun _ _ => True) m m' :=
  .hidden (fun s s' hs => (h s).mono (fun _ _ hu => hs.unseen hu (.refl s')) fun _ _ => trivial)
    (fun s s' hs => (h' s').mono (fun _ _ hu => hs.unseen (.refl s) hu) fun _ _ => trivial)
    fun hfree _ s' hs => htotal hfree s' (hs.free hfree)

theorem follows_tryTuple (x : Tuple) (e : Bool) :
    Follows total (Sides (F := F) total here ws) (fun _ _ => True) (tryTuple x e) (tryTuple x e) :=
  follows_unseen (fun _ => tryTuple_unseen x e) (fun _ => tryTuple_unseen x e) fun _ s hs =>
    ⟨(), s, by simp [tryTuple, bind, Attempt.get, Attempt.when, hs]; rfl⟩

theorem follows_allocateUndo :
    Follows total (Sides (F := F) total here ws) (fun _ _ => True) (allocateUndo undo) (allocateUndo undo') :=
  follows_unseen (fun _ => allocateUndo_unseen undo) (fun _ => allocateUndo_unseen undo') fun _ s _ => by
    cases undo' with
    | true => exact ⟨_, _, rfl⟩
    | false => exact ⟨_, _, rfl⟩

/-- Undo is recorded, on the partition only if the run may stop. -/
theorem follows_recorded (hundo : total → undo' = false) {m : Txn F Unit}
    (hm : ∀ s, Sat m s (fun _ => Unseen s) (Unseen s)) :
    Follows total (Sides total here ws) (fun _ _ => True) (when (undo = true) m) (when (undo' = true) m) := by
  have hwhen : ∀ (b : Bool) s, Sat (when (b = true) m) s (fun _ => Unseen s) (Unseen s) := fun b s =>
    sat_when.mpr ⟨fun _ => hm s, fun _ => .refl s⟩
  refine follows_unseen (hwhen undo) (hwhen undo') fun hfree s _ => ⟨(), s, ?_⟩
  rw [hundo hfree, Attempt.when, if_neg Bool.false_ne_true]
  rfl

theorem follows_find (hkey : ∀ k, key = some k → Key here t k) :
    Follows total (Sides (F := F) total here ws) (fun a b => a = b ∧ ∀ p, a = some p → key = some p)
      (find t key) (find t key) := by
  refine Follows.bind (V := fun k k' => k = k' ∧ key = some k) (.ofOption fun k hk => ⟨k, hk, rfl, hk⟩) ?_
  rintro k _ ⟨rfl, hk⟩
  refine Follows.get fun s s' hs => ?_
  rw [hs.agree.rows t k (hkey k hk)]
  refine Follows.pure ⟨rfl, fun p hp => ?_⟩ s s' hs
  split_ifs at hp
  rwa [← Option.some.inj hp]

theorem follows_deref (hp : Key here t p) :
    Follows total (Sides (F := F) total here ws) Eq (deref t p) (deref t p) :=
  Follows.get fun s s' hs => Follows.ofOption (fun row hrow => ⟨row, (hs.agree.rows t p hp).trans hrow, rfl⟩) s s' hs

theorem follows_assign (hp : Key here t p) (f : Row F t → Row F t) :
    Follows total (Sides total here ws) (fun _ _ => True) (assign t p f) (assign t p f) := by
  refine (follows_deref hp).bind ?_
  rintro row _ rfl
  exact .modify fun s s' hs => hs.setRows hp (f row)

theorem follows_update (hundo : total → undo' = false) (hp : Key here t p) (f : Row F t → Row F t) :
    Follows total (Sides total here ws) (fun _ _ => True) (update undo t p f) (update undo' t p f) :=
  (follows_recorded hundo fun _ => sat_bind.mpr (deref_sat fun _ _ => record_unseen _)).bind
    fun _ _ _ => follows_assign hp f

theorem follows_insert (hkey : ∀ k, key = some k → Key here t k) (row : Row F t) :
    Follows total (Sides total here ws) (fun a b => a = b ∧ key = some a) (insert t key row) (insert t key row) := by
  refine Follows.bind (V := fun k k' => k = k' ∧ key = some k) (.ofOption fun k hk => ⟨k, hk, rfl, hk⟩) ?_
  rintro k _ ⟨rfl, hk⟩
  refine Follows.get fun s s' hs => ?_
  rw [hs.agree.rows t k (hkey k hk)]
  refine Follows.bind (.assert fun _ h => h) (fun _ _ _ => ?_) s s' hs
  exact Follows.bind (.modify fun u u' hu => hu.setRows (hkey k hk) row) fun _ _ _ => .pure ⟨rfl, hk⟩

theorem follows_tryRead {q : Option Int} :
    Follows total (Sides (F := F) total here ws) (fun a b => a = b ∧ q = some a) (tryRead t q) (tryRead t q) := by
  refine Follows.bind (V := fun k k' => k = k' ∧ q = some k) (.ofOption fun k hk => ⟨k, hk, rfl, hk⟩) ?_
  rintro k _ ⟨rfl, hk⟩
  exact (follows_tryTuple _ _).bind fun _ _ _ => .pure ⟨rfl, hk⟩

theorem follows_tryWrite {q : Option Int} :
    Follows total (Sides (F := F) total here ws) (fun a b => a = b ∧ q = some a) (tryWrite t q) (tryWrite t q) := by
  refine Follows.bind (V := fun k k' => k = k' ∧ q = some k) (.ofOption fun k hk => ⟨k, hk, rfl, hk⟩) ?_
  rintro k _ ⟨rfl, hk⟩
  exact (follows_tryTuple _ _).bind fun _ _ _ => .pure ⟨rfl, hk⟩

end Steps

/-! ### The same order on both sides -/

section Order
variable {total : Prop} {ws : List Int} {undo undo' : Bool}

theorem follows_findItems : ∀ items : List NewOrderItem,
    Follows total (Sides (F := F) total here ws) Eq (findItems items) (findItems items)
  | [] => .pure rfl
  | item :: items => by
      have hfind : Follows total (Sides (F := F) total here ws) Eq (findItem item.iId) (findItem item.iId) :=
        Follows.bind (.assert fun _ h => h) fun _ _ _ => Follows.get fun s s' hs => by
          rw [hs.agree.items]
          exact Follows.pure rfl s s' hs
      refine hfind.bind ?_
      rintro i _ rfl
      cases i with
      | none => exact .pure rfl
      | some i =>
        refine (follows_findItems items).bind ?_
        rintro rest _ rfl
        exact .pure rfl

theorem follows_findAndValidateItems (items : List NewOrderItem) :
    Follows total (Sides (F := F) total here ws) Eq (findAndValidateItems items) (findAndValidateItems items) :=
  (follows_tryTuple _ _).bind fun _ _ _ => follows_findItems items

theorem follows_findStock {w i : Int} (hw : here w) :
    Follows total (Sides (F := F) total here ws) (fun a b => a = b ∧ ∀ p, a = some p → makeStockKey w i = some p)
      (findStock w i) (findStock w i) :=
  follows_find fun _ hk => ⟨w, i, hw, hk⟩

theorem follows_orderStock (hundo : total → undo' = false) {home remote : Int} (hremote : here remote)
    (item : NewOrderItem) :
    Follows total (Sides (F := F) total here ws) Eq (orderStock undo home remote item)
      (orderStock undo' home remote item) := by
  by_cases hne : item.supplyWId ≠ remote
  · rw [orderStock, orderStock, if_pos hne, if_pos hne]
    exact .pure rfl
  · rw [orderStock, orderStock, if_neg hne, if_neg hne]
    obtain rfl := not_not.mp hne
    refine (follows_findStock hremote).bind ?_
    rintro q _ ⟨rfl, hq⟩
    refine follows_tryWrite.bind ?_
    rintro p _ ⟨rfl, hp⟩
    have hkey : Key here .stock p := ⟨_, _, hremote, hq p hp⟩
    refine (follows_update hundo hkey _).bind fun _ _ _ => (follows_deref hkey).bind ?_
    rintro row _ rfl
    exact .pure rfl

theorem follows_newOrderRemote (hundo : total → undo' = false) {home remote : Int} (hremote : here remote)
    (items : List NewOrderItem) :
    Follows total (Sides (F := F) total here ws) Eq (newOrderRemote undo home remote items)
      (newOrderRemote undo' home remote items) := by
  refine (follows_findAndValidateItems items).bind ?_
  rintro valid _ rfl
  cases valid with
  | none => exact .pure rfl
  | some is =>
    refine follows_allocateUndo.bind fun _ _ _ => ?_
    refine (Follows.mapEach fun item _ => follows_orderStock hundo hremote item).bind ?_
    rintro qs qs' hqs
    rw [List.forall₂_eq_eq_eq] at hqs
    exact .pure (congrArg some hqs)

/-- The index of the orders of a customer. -/
theorem Sides.setIndex {s s' : Run F} (h : Sides total here ws s s') (key tuple : Int) :
    Sides total here ws
      { s with db := { s.db with ordersByCustomer := s.db.ordersByCustomer.insert key tuple } }
      { s' with db := { s'.db with ordersByCustomer := s'.db.ordersByCustomer.insert key tuple } } := by
  refine ⟨⟨h.agree.items, h.agree.rows, h.agree.others, fun w d c o k hw hk => ?_, h.agree.replicated⟩, h.free,
    h.warehouses⟩
  rw [StdMap.find?_insert, StdMap.find?_insert, h.agree.index w d c o k hw hk]

theorem follows_insertOrder {order : Order} (hw : here order.wId) :
    Follows total (Sides (F := F) total here ws) Eq (insertOrder order) (insertOrder order) := by
  refine (follows_insert (t := .order) (fun _ hk => ⟨_, _, _, hw, hk⟩) order).bind ?_
  rintro o _ ⟨rfl, -⟩
  refine Follows.bind (V := fun k k' => k = k' ∧ makeOrderByCustomerKey order.wId order.dId order.cId order.id = some k)
    (.ofOption fun k hk => ⟨k, hk, rfl, hk⟩) ?_
  rintro k _ ⟨rfl, hk⟩
  refine Follows.get fun s s' hs => ?_
  rw [hs.agree.index _ _ _ _ k hw hk]
  refine Follows.bind (.assert fun _ h => h) (fun _ _ _ => ?_) s s' hs
  exact Follows.bind (.modify fun u u' hu => hu.setIndex k o) fun _ _ _ => .pure rfl

theorem follows_fileOrder (hundo : total → undo' = false) {order : Order} (hw : here order.wId) :
    Follows total (Sides (F := F) total here ws) (fun _ _ => True) (fileOrder undo order) (fileOrder undo' order) := by
  refine (follows_insertOrder hw).bind ?_
  rintro o _ rfl
  refine (follows_insert (t := .newOrder) (fun _ hk => ⟨_, _, _, hw, hk⟩) _).bind ?_
  rintro no _ ⟨rfl, -⟩
  refine (follows_recorded hundo fun s => sat_bind.mpr ?_).bind fun _ _ _ =>
    (follows_tryTuple _ _).bind fun _ _ _ => follows_tryTuple _ _
  exact (record_unseen _).mono (fun _ u hu => (record_unseen _).mono (fun _ _ hv => hu.trans hv) fun _ h => h) fun _ h => h

theorem follows_fileOrderLine (hundo : total → undo' = false) {line : OrderLine F} (hw : here line.wId) :
    Follows total (Sides total here ws) (fun _ _ => True) (fileOrderLine undo line) (fileOrderLine undo' line) := by
  refine (follows_insert (t := .orderLine) (fun _ hk => ⟨_, _, _, _, hw, hk⟩) line).bind ?_
  rintro ol _ ⟨rfl, -⟩
  exact (follows_recorded hundo fun _ => record_unseen _).bind fun _ _ _ => follows_tryTuple _ _

variable [Amount F] {wId : Int} (dId cId : Int) {items : List NewOrderItem} (now : Text)

theorem item_mem {itemTuples : List Nat} {x : (NewOrderItem × Nat) × Nat} (h : x ∈ (items.zip itemTuples).zipIdx) :
    x.1.1 ∈ items := by
  obtain ⟨⟨item, tuple⟩, i⟩ := x
  obtain ⟨hi, hx⟩ := List.mem_zipIdx' h
  exact (List.of_mem_zip (hx ▸ List.getElem_mem hi)).1

theorem mem_newOrderRemoteWarehouses {home remote : Int} :
    remote ∈ newOrderRemoteWarehouses home items ↔ (∃ item ∈ items, item.supplyWId = remote) ∧ remote ≠ home := by
  simp [newOrderRemoteWarehouses]

theorem follows_newOrderLine (hundo : total → undo' = false) (hw : here wId) (oId : Int) (output : NewOrderOutput F)
    {x : (NewOrderItem × Nat) × Nat} (hx : here x.1.1.supplyWId) :
    Follows total (Sides total here ws) Eq (newOrderLine undo wId dId oId output x)
      (newOrderLine undo' wId dId oId output x) := by
  obtain ⟨⟨item, tuple⟩, i⟩ := x
  refine (follows_findStock hx).bind ?_
  rintro q _ ⟨rfl, hq⟩
  refine follows_tryWrite.bind ?_
  rintro p _ ⟨rfl, hp⟩
  have hkey : Key here .stock p := ⟨_, _, hx, hq p hp⟩
  refine (follows_tryTuple _ _).bind fun _ _ _ => (follows_deref hkey).bind ?_
  rintro stock _ rfl
  refine Follows.get fun s s' hs => ?_
  rw [hs.agree.items]
  refine Follows.bind (V := Eq) (.ofOption fun row hrow => ⟨row, hrow, rfl⟩) ?_ s s' hs
  rintro row _ rfl
  exact (follows_fileOrderLine hundo hw).bind fun _ _ _ => .pure rfl

theorem follows_newOrderHomeValid (hundo : total → undo' = false) (hw : here wId)
    (hitems : ∀ item ∈ items, here item.supplyWId) {d : Int} (hd : Key here .district d) (itemTuples : List Nat)
    (output : NewOrderOutput F) :
    Follows total (Sides total here ws) Eq (newOrderHomeValid undo wId dId cId items now d itemTuples output)
      (newOrderHomeValid undo' wId dId cId items now d itemTuples output) := by
  refine follows_allocateUndo.bind fun _ _ _ => (follows_update hundo hd _).bind fun _ _ _ => ?_
  refine (follows_find (t := .warehouse) fun k hk => (Option.some.inj hk).symm ▸ hw).bind ?_
  rintro q _ ⟨rfl, hq⟩
  refine follows_tryRead.bind ?_
  rintro p _ ⟨rfl, hp⟩
  have hwp : wId = p := Option.some.inj (hq p hp)
  refine (follows_deref (t := .warehouse) (hwp ▸ hw)).bind ?_
  rintro w _ rfl
  refine (Follows.assert fun _ h => h).bind fun _ _ _ => (follows_fileOrder hundo hw).bind fun _ _ _ => ?_
  refine (Follows.fold (fun x hx a b heq => ?_) rfl).bind ?_
  · obtain rfl := heq
    exact follows_newOrderLine dId hundo hw _ a (hitems _ (item_mem hx))
  · rintro out _ rfl
    refine (follows_newOrderRemote hundo hw items).bind ?_
    rintro qs _ rfl
    refine Follows.bind (V := Eq) (.ofOption fun q hq => ⟨q, hq, rfl⟩) ?_
    rintro qs _ rfl
    exact .ofOption fun q hq => ⟨q, hq, rfl⟩

theorem follows_newOrderHome (hundo : total → undo' = false) (hw : here wId)
    (hitems : ∀ item ∈ items, here item.supplyWId) :
    Follows total (Sides (F := F) total here ws) Eq (newOrderHome undo wId dId cId items now)
      (newOrderHome undo' wId dId cId items now) := by
  refine Follows.get fun s s' hs => ?_
  refine Follows.bind (.assert fun hfree _ => Or.inl (hs.free hfree)) (fun _ _ _ => ?_) s s' hs
  refine (follows_find (t := .district) fun k hk => ⟨_, _, hw, hk⟩).bind ?_
  rintro q _ ⟨rfl, hq⟩
  refine follows_tryWrite.bind ?_
  rintro d _ ⟨rfl, hd⟩
  have hd : Key here .district d := ⟨_, _, hw, hq d hd⟩
  refine (follows_deref hd).bind ?_
  rintro district _ rfl
  refine (follows_find (t := .order) fun k hk => ⟨_, _, _, hw, hk⟩).bind ?_
  rintro test _ ⟨rfl, -⟩
  refine (Follows.assert fun _ h => h).bind fun _ _ _ => ?_
  refine (follows_find (t := .customer) fun k hk => ⟨_, _, _, hw, hk⟩).bind ?_
  rintro c _ ⟨rfl, hc⟩
  refine follows_tryRead.bind ?_
  rintro p _ ⟨rfl, hp⟩
  have hcKey : Key here .customer p := ⟨_, _, _, hw, hc p hp⟩
  refine (follows_deref hcKey).bind ?_
  rintro customer _ rfl
  refine (follows_findAndValidateItems items).bind ?_
  rintro valid _ rfl
  cases valid with
  | none => exact .pure rfl
  | some itemTuples =>
    refine (follows_newOrderHomeValid dId cId now hundo hw hitems hd itemTuples _).bind ?_
    rintro output _ rfl
    exact .pure rfl

omit [Amount F] in
theorem follows_orderFurther {remote : Int} (hremote : here remote) (hws : remote ∈ ws)
    (output : NewOrderOutput F) :
    Follows total (Sides total here ws) Eq
      (do
        let quantities ← ofOption (← newOrderRemote undo wId remote items)
        ofOption (newOrderCombine quantities output))
      (orderFurther wId items output remote) := by
  refine Follows.getRight fun s s' hs => ?_
  rw [if_pos (hs.warehouses remote hws)]
  refine Follows.bind (follows_newOrderRemote (fun _ => rfl) hremote items) ?_ s s' hs
  rintro qs _ rfl
  refine Follows.bind (V := Eq) (.ofOption fun q hq => ⟨q, hq, rfl⟩) ?_
  rintro qs _ rfl
  exact .ofOption fun q hq => ⟨q, hq, rfl⟩

/-- When all the supplying warehouses are on the home partition, it does there what `newOrder` does with all
    warehouses. -/
theorem follows_newOrder (hundo : total → undo' = false) (hw : here wId) (hitems : ∀ item ∈ items, here item.supplyWId)
    (hws : ∀ w ∈ newOrderRemoteWarehouses wId items, w ∈ ws) :
    Follows total (Sides (F := F) total here ws) (fun output result => result = .newOrder output)
      (newOrder undo wId dId cId items now) (callNewOrderHome undo' wId dId cId items now) := by
  refine (follows_newOrderHome dId cId now hundo hw hitems).bind ?_
  rintro ⟨ok, output⟩ _ rfl
  cases ok with
  | false => exact .pure rfl
  | true =>
    refine Follows.mapRight (V := Eq) (Follows.fold (fun remote hremote a b heq => ?_) rfl) fun a b heq => heq ▸ rfl
    obtain rfl := heq
    obtain ⟨⟨item, hitem, rfl⟩, -⟩ := mem_newOrderRemoteWarehouses.mp hremote
    exact follows_orderFurther (hitems item hitem) (hws _ hremote) a

end Order

end Dsnet.TPCC
