import Dsnet.TPCC.Kept

/-! New orders keep `Inv`, and when they have been placed, more is known: the stock of every item is
    locked for the transaction alone, there are as many items as an order may have lines, and the rows of
    the stock that were copied are those of the warehouses that had an undo parameter. -/

namespace Dsnet.TPCC
open Attempt
variable {F : Type} {plan : Plan} {db₀ : DBImpl F} {s : Run F}

/-- What the tables are for in a new order. -/
structure Plan.Orders (plan : Plan) : Prop where
  warehouse : plan.use .warehouse = .saves
  district : plan.use .district = .saves
  stock : plan.use .stock = .saves
  order : plan.use .order = .inserts
  orderLine : plan.use .orderLine = .inserts
  newOrder : plan.use .newOrder = .inserts

theorem Plan.Orders.of_extends {plan' : Plan} (h : plan.Orders) (he : plan.Extends plan') : plan'.Orders := by
  constructor <;> rw [he.use]
  exacts [h.warehouse, h.district, h.stock, h.order, h.orderLine, h.newOrder]

/-- The stock of an item. -/
def NewOrderItem.stockKey (item : NewOrderItem) : Option Int := makeStockKey item.supplyWId item.iId

/-- The items are there. -/
def ItemsValid (db : DBImpl F) (items : List NewOrderItem) : Prop :=
  ∀ item ∈ items, 1 ≤ item.iId ∧ (item.iId - 1).toNat < db.items.length

/-- An extension of the plan with a property holds afterwards. -/
def Reached (db₀ : DBImpl F) (plan : Plan) (P : Plan → Prop) (s : Run F) : Prop :=
  ∃ plan', plan.Extends plan' ∧ P plan' ∧ Inv plan' db₀ s

theorem Reached.inv {P : Plan → Prop} (h : Reached db₀ plan P s) : Inv plan db₀ s := by
  obtain ⟨plan', he, _, h⟩ := h
  exact h.of_extends he

/-! ### Items -/

/-- Either an item is not there, or there is a place for each. -/
theorem findItems_sat {B : Run F → Prop} :
    ∀ (items : List NewOrderItem) (s : Run F), Sat (findItems items) s
      (fun r s' => s' = s ∧ match r with
        | none => ¬ ItemsValid s.db items
        | some is => ItemsValid s.db items ∧ is.length = items.length) B
  | [], s => ⟨rfl, fun _ h => (by cases h), rfl⟩
  | item :: items, s => by
      rw [findItems]
      simp only [findItem, sat_bind, sat_assert, sat_get, sat_pure]
      intro h1
      by_cases hlt : (item.iId - 1).toNat < s.db.items.length
      · rw [if_pos hlt]
        show Sat (_ >>= _) s _ _
        rw [sat_bind]
        refine (findItems_sat items s).mono (fun r s' h => ?_) (fun _ h => h)
        obtain ⟨rfl, h⟩ := h
        refine ⟨rfl, ?_⟩
        cases r with
        | none => exact fun hv => h fun i hi => hv i (List.mem_cons_of_mem _ hi)
        | some is =>
          refine ⟨fun i hi => ?_, congrArg (· + 1) h.2⟩
          rcases List.mem_cons.mp hi with rfl | hi
          · exact ⟨h1, hlt⟩
          · exact h.1 i hi
      · rw [if_neg hlt]
        exact ⟨rfl, fun hv => hlt (hv item List.mem_cons_self).2⟩

theorem Inv.itemsValid {items : List NewOrderItem} (h : Inv plan db₀ s) :
    ItemsValid s.db items ↔ ItemsValid db₀ items := by
  rw [ItemsValid, ItemsValid, h.items]

/-- The table of items is locked, and is not blocked if it was. -/
theorem findAndValidateItems_sat (h : Inv plan db₀ s) (items : List NewOrderItem) :
    Sat (findAndValidateItems items) s
      (fun r s' => Inv (plan.holding .items false) db₀ s' ∧ match r with
        | none => ¬ ItemsValid db₀ items
        | some is => ItemsValid db₀ items ∧ is.length = items.length)
      (fun s' => Inv plan db₀ s' ∧ (Tuple.items, false) ∉ plan.held) := by
  rw [findAndValidateItems, sat_bind]
  refine (tryTuple_sat h .items false).mono (fun _ s' h' => ?_) (fun s' h' => ⟨h'.1, fun hheld => ?_⟩)
  · refine (findItems_sat items s').mono (fun r s'' hr => ?_) (fun _ h => h)
    obtain ⟨rfl, hr⟩ := hr
    refine ⟨h', ?_⟩
    cases r with
    | none => exact fun hv => hr (h'.itemsValid.mpr hv)
    | some is => exact ⟨h'.itemsValid.mp hr.1, hr.2⟩
  · cases (h'.2 false hheld).2

/-! ### The stock -/

/-- A row of the stock is saved and ordered from. -/
theorem orderStock_sat (h : Inv plan db₀ s) (hp : plan.Orders) {home remote : Int}
    (hmay : ∀ i k, makeStockKey remote i = some k → k ∈ plan.mayKeep) (item : NewOrderItem) :
    Sat (orderStock true home remote item) s
      (fun _ => Reached db₀ plan fun plan' =>
        item.supplyWId = remote → ∀ k, item.stockKey = some k → k ∈ plan'.kept)
      (Inv plan db₀) := by
  rw [orderStock, sat_ite]
  refine ⟨fun hne => ⟨plan, .refl _, fun heq => absurd heq hne, h⟩, fun heq => ?_⟩
  obtain rfl := not_not.mp heq
  rw [findStock, sat_bind]
  refine (find_sat .stock _ s).mono (fun q s' hq => ?_) (fun _ h => h)
  obtain ⟨rfl, hq⟩ := hq
  rw [sat_bind]
  refine (tryWrite_sat h .stock q).mono (fun p s'' hp' => ?_) (fun s'' h' => h'.1)
  obtain ⟨rfl, h'⟩ := hp'
  have hkey := (hq p rfl).1
  rw [sat_bind]
  refine (update_sat h' hp.stock (fun _ => hmay _ _ hkey) _).mono
    (fun _ s₃ h₃ => ?_) (fun s₃ h₃ => h₃)
  rw [sat_bind]
  refine deref_sat fun row _ => ?_
  refine ⟨_, (plan.extends_holding _ _).trans (Plan.extends_keeping _ .stock p), fun _ k hk => ?_, h₃⟩
  obtain rfl : p = k := Option.some.inj (hkey.symm.trans hk)
  exact Set.mem_insert _ _

/-- A row of the stock of which there is a copy is ordered from again. -/
theorem orderStock_again (h : Inv plan db₀ s) {home remote : Int} {item : NewOrderItem}
    (hk : item.supplyWId = remote → ∀ k, item.stockKey = some k → k ∈ plan.kept) :
    Sat (orderStock false home remote item) s (fun _ => Inv plan db₀) (Inv plan db₀) := by
  rw [orderStock, sat_ite]
  refine ⟨fun _ => h, fun heq => ?_⟩
  rw [findStock, sat_bind]
  refine (find_sat .stock _ s).mono (fun q s' hq => ?_) (fun _ h => h)
  obtain ⟨rfl, hq⟩ := hq
  rw [sat_bind]
  refine (tryWrite_sat h .stock q).mono (fun p s'' hp' => ?_) (fun s'' h' => h'.1)
  obtain ⟨rfl, h'⟩ := hp'
  have hkept : p ∈ plan.kept := hk (not_not.mp heq) p (hq p rfl).1
  rw [sat_bind]
  refine (update_again h' hkept _).mono (fun _ s₃ h₃ => ?_) (fun s₃ h₃ => h₃)
  rw [sat_bind]
  exact deref_sat fun row _ => h₃.of_extends (plan.extends_holding _ _)

/-- Every item of the remote warehouse has its stock copied by a call with an undo parameter. -/
theorem newOrderRemote_sat (h : Inv plan db₀ s) (hp : plan.Orders) (home remote : Int)
    (hmay : ∀ i k, makeStockKey remote i = some k → k ∈ plan.mayKeep) (items : List NewOrderItem) :
    Sat (newOrderRemote true home remote items) s
      (fun r => Reached db₀ plan fun plan' => (r = none ↔ ¬ ItemsValid db₀ items) ∧ (r.isSome →
        ∀ item ∈ items, item.supplyWId = remote → ∀ k, item.stockKey = some k → k ∈ plan'.kept))
      (Inv plan db₀) := by
  rw [newOrderRemote, sat_bind]
  refine (findAndValidateItems_sat h items).mono (fun r s' hr => ?_) (fun _ h => h.1)
  obtain ⟨h', hr⟩ := hr
  have hext := plan.extends_holding .items false
  cases r with
  | none => exact ⟨_, hext, ⟨⟨fun _ => hr, fun _ => rfl⟩, fun hs => by cases hs⟩, h'⟩
  | some is =>
    show Sat (_ >>= _) s' _ _
    rw [sat_bind]
    refine (keeps_allocateUndo true s' h').mono (fun _ s'' h'' => ?_) (fun _ h'' => h''.of_extends hext)
    rw [sat_bind]
    -- the items that are left, or else have their stock copied
    let I (rest : List NewOrderItem) : Run F → Prop := Reached db₀ plan fun plan' =>
      ∀ item ∈ items, item ∈ rest ∨ (item.supplyWId = remote → ∀ k, item.stockKey = some k → k ∈ plan'.kept)
    have hloop := sat_mapEach (f := orderStock true home remote) (B := Inv plan db₀) I (fun item rest s hI => by
      obtain ⟨plan₁, he₁, hI, h₁⟩ := hI
      refine (orderStock_sat h₁ (hp.of_extends he₁) (fun i k hk => he₁.mayKeep ▸ hmay i k hk) item).mono
        (fun _ s₂ h₂ => ?_) (fun _ h₂ => h₂.of_extends he₁)
      obtain ⟨plan₂, he₂, hk, h₂⟩ := h₂
      refine ⟨plan₂, he₁.trans he₂, fun i hi => ?_, h₂⟩
      rcases hI i hi with hm | hkept
      · rcases List.mem_cons.mp hm with rfl | hm
        · exact Or.inr hk
        · exact Or.inl hm
      · exact Or.inr fun hs k hik => he₂.kept (hkept hs k hik)) (l := items) (s := s'')
      ⟨_, hext, fun item hi => Or.inl hi, h''⟩
    refine hloop.mono (fun q s₃ h₃ => ?_) (fun _ h => h)
    obtain ⟨plan', he, hk, h₃⟩ := h₃.2
    refine ⟨plan', he, ⟨⟨fun hn => (by cases hn), fun hv => absurd hr.1 hv⟩, fun _ item hi => ?_⟩, h₃⟩
    exact (hk item hi).resolve_left List.not_mem_nil

/-- A call without one keeps `Inv`, if the copies are there. -/
theorem newOrderRemote_again (h : Inv plan db₀ s) (home remote : Int) (items : List NewOrderItem)
    (hk : ∀ item ∈ items, item.supplyWId = remote → ∀ k, item.stockKey = some k → k ∈ plan.kept) :
    Sat (newOrderRemote false home remote items) s (fun _ => Inv plan db₀) (Inv plan db₀) := by
  rw [newOrderRemote, sat_bind]
  refine (findAndValidateItems_sat h items).mono (fun r s' hr => ?_) (fun _ h => h.1)
  have h' := hr.1.of_extends (plan.extends_holding .items false)
  cases r with
  | none => exact h'
  | some is =>
    show Sat (_ >>= _) s' _ _
    rw [sat_bind]
    refine (keeps_allocateUndo false s' h').mono (fun _ s'' h'' => ?_) (fun _ h'' => h'')
    rw [sat_bind]
    have hloop := sat_mapEach (f := orderStock (F := F) false home remote) (B := Inv plan db₀)
      (fun rest s => (∀ item ∈ rest, item ∈ items) ∧ Inv plan db₀ s) (fun item rest s hI => by
        refine (orderStock_again hI.2 (hk item (hI.1 item List.mem_cons_self))).mono
          (fun _ _ h₂ => ⟨fun i hi => hI.1 i (List.mem_cons_of_mem _ hi), h₂⟩) (fun _ h₂ => h₂))
      (l := items) (s := s'') ⟨fun _ hi => hi, h''⟩
    exact hloop.mono (fun _ _ h₃ => h₃.2.2) (fun _ h => h)

/-! ### The home warehouse -/

/-- The stock of an item is locked for the transaction alone. -/
def StockHeld (plan : Plan) (item : NewOrderItem) : Prop :=
  ∃ k, item.stockKey = some k ∧ (Tuple.row .stock k, true) ∈ plan.held

theorem StockHeld.of_extends {plan' : Plan} {item : NewOrderItem} (h : StockHeld plan item)
    (he : plan.Extends plan') : StockHeld plan' item := by
  obtain ⟨k, hk, hheld⟩ := h
  exact ⟨k, hk, he.held hheld⟩

/-- An order line that is put in has one of the numbers there are. -/
theorem fileOrderLine_number (undo : Bool) (line : OrderLine F) :
    Sat (fileOrderLine undo line) s (fun _ _ => line.number ≤ Order.maxOlCnt) (fun _ => True) := by
  rw [fileOrderLine, insertOrderLine, insert, sat_bind, sat_bind, sat_ofOption]
  intro key hkey
  rw [makeOrderLineKey] at hkey
  have hn : line.number ≤ Order.maxOlCnt := by
    by_contra hn
    rw [if_neg fun h => hn h.2.2.1] at hkey
    cases hkey
  exact sat_of_forall (fun _ _ => sat_of_forall (fun _ _ => hn) fun _ => trivial) fun _ => trivial

section
variable [Amount F] (wId dId cId : Int)

theorem newOrderLine_sat (h : Inv plan db₀ s) (hp : plan.Orders) (oId : Int) (output : NewOrderOutput F)
    (x : (NewOrderItem × Nat) × Nat) :
    Sat (newOrderLine true wId dId oId output x) s
      (fun _ => Reached db₀ plan fun plan' => StockHeld plan' x.1.1 ∧ (x.2 : Int) + 1 ≤ Order.maxOlCnt)
      (Inv plan db₀) := by
  obtain ⟨⟨item, tuple⟩, i⟩ := x
  rw [newOrderLine, findStock, sat_bind]
  refine (find_sat .stock _ s).mono (fun q s' hq => ?_) (fun _ h => h)
  obtain ⟨rfl, hq⟩ := hq
  rw [sat_bind]
  refine (tryWrite_sat h .stock q).mono (fun p s'' hp' => ?_) (fun s'' h' => h'.1)
  obtain ⟨rfl, h'⟩ := hp'
  have he := plan.extends_holding (.row .stock p) true
  refine Keeps.next (keeps_tryTuple _ _) h' (fun _ s₁ h₁ => ?_) (fun _ h => h.of_extends he)
  refine Keeps.next (keeps_deref _ _) h₁ (fun _ s₂ h₂ => ?_) (fun _ h => h.of_extends he)
  refine Keeps.next Keeps.get h₂ (fun _ s₃ h₃ => ?_) (fun _ h => h.of_extends he)
  refine Keeps.next (.ofOption _) h₃ (fun row s₄ h₄ => ?_) (fun _ h => h.of_extends he)
  rw [sat_bind]
  refine ((keeps_fileOrderLine (hp.of_extends he).orderLine _ s₄ h₄).and (fileOrderLine_number true _)).mono
    (fun _ s₅ h₅ => ?_) (fun _ h => h.1.of_extends he)
  exact ⟨_, he, ⟨⟨p, (hq p rfl).1, Set.mem_insert _ _⟩, h₅.2⟩, h₅.1⟩

/-- What holds when the home part of an order has been placed. -/
structure Placed (items : List NewOrderItem) (plan : Plan) : Prop where
  stock : ∀ item ∈ items, StockHeld plan item
  length : (items.length : Int) ≤ Order.maxOlCnt

/-- What holds of the numbered items holds of the items, and they are no more than the numbers. -/
theorem of_numbered {items : List NewOrderItem} {itemTuples : List Nat} {P : NewOrderItem → Prop}
    (hlen : itemTuples.length = items.length)
    (h : ∀ x ∈ (items.zip itemTuples).zipIdx, P x.1.1 ∧ (x.2 : Int) + 1 ≤ Order.maxOlCnt) :
    (∀ item ∈ items, P item) ∧ (items.length : Int) ≤ Order.maxOlCnt := by
  have hzip : (items.zip itemTuples).length = items.length := by simp [hlen]
  have hat : ∀ (i : Nat) (hi : i < (items.zip itemTuples).length),
      ((items.zip itemTuples)[i], i) ∈ (items.zip itemTuples).zipIdx := by
    intro i hi
    exact List.mem_iff_getElem.mpr ⟨i, by simpa using hi, by simp⟩
  refine ⟨fun item hitem => ?_, ?_⟩
  · obtain ⟨i, hi, rfl⟩ := List.mem_iff_getElem.mp hitem
    have := (h _ (hat i (by omega))).1
    simpa using this
  · by_cases hnil : items.length = 0
    · rw [hnil]
      decide
    · have hlast := (h _ (hat (items.length - 1) (by omega))).2
      simp only at hlast
      omega

theorem newOrderLines_sat {items : List NewOrderItem} {itemTuples : List Nat} (h : Inv plan db₀ s)
    (hp : plan.Orders) (hlen : itemTuples.length = items.length) (oId : Int) (output : NewOrderOutput F) :
    Sat (fold (newOrderLine true wId dId oId) output (items.zip itemTuples).zipIdx) s
      (fun _ => Reached db₀ plan (Placed items)) (Inv plan db₀) := by
  let xs := (items.zip itemTuples).zipIdx
  let I (_ : NewOrderOutput F) (rest : List ((NewOrderItem × Nat) × Nat)) : Run F → Prop :=
    Reached db₀ plan fun plan' => ∀ x ∈ xs, x ∈ rest ∨ (StockHeld plan' x.1.1 ∧ (x.2 : Int) + 1 ≤ Order.maxOlCnt)
  have hloop := sat_fold (f := newOrderLine true wId dId oId) (B := Inv plan db₀) I (fun output x rest s hI => by
    obtain ⟨plan₁, he₁, hI, h₁⟩ := hI
    refine (newOrderLine_sat wId dId h₁ (hp.of_extends he₁) oId output x).mono (fun _ s₂ h₂ => ?_)
      (fun _ h₂ => h₂.of_extends he₁)
    obtain ⟨plan₂, he₂, hx, h₂⟩ := h₂
    refine ⟨plan₂, he₁.trans he₂, fun y hy => ?_, h₂⟩
    rcases hI y hy with hm | hheld
    · rcases List.mem_cons.mp hm with rfl | hm
      · exact Or.inr hx
      · exact Or.inl hm
    · exact Or.inr ⟨hheld.1.of_extends he₂, hheld.2⟩) (l := xs) (b := output) (s := s)
    ⟨plan, .refl _, fun x hx => Or.inl hx, h⟩
  refine hloop.mono (fun _ s' h' => ?_) (fun _ h => h)
  obtain ⟨plan', he, hx, h'⟩ := h'
  have hdone := of_numbered hlen fun x hx' => (hx x hx').resolve_left List.not_mem_nil
  exact ⟨plan', he, ⟨hdone.1, hdone.2⟩, h'⟩

theorem Placed.of_extends {items : List NewOrderItem} {plan' : Plan} (h : Placed items plan)
    (he : plan.Extends plan') : Placed items plan' :=
  ⟨fun item hi => (h.stock item hi).of_extends he, h.length⟩

theorem newOrderHomeValid_sat {items : List NewOrderItem} {itemTuples : List Nat} (h : Inv plan db₀ s)
    (hp : plan.Orders) (hmay : ∀ i k, makeStockKey wId i = some k → k ∈ plan.mayKeep)
    (hlen : itemTuples.length = items.length) (now : Text) (d : Int) (output : NewOrderOutput F) :
    Sat (newOrderHomeValid true wId dId cId items now d itemTuples output) s
      (fun _ => Reached db₀ plan (Placed items)) (Inv plan db₀) := by
  rw [newOrderHomeValid]
  refine Keeps.next (keeps_allocateUndo true) h (fun _ s₁ h₁ => ?_) (fun _ h => h)
  refine Keeps.next (keeps_update_other hp.district (by decide) d _) h₁ (fun _ s₂ h₂ => ?_) (fun _ h => h)
  refine Keeps.next (keeps_find _ _) h₂ (fun _ s₃ h₃ => ?_) (fun _ h => h)
  refine Keeps.next (keeps_tryRead _ _) h₃ (fun _ s₄ h₄ => ?_) (fun _ h => h)
  refine Keeps.next (keeps_deref _ _) h₄ (fun _ s₅ h₅ => ?_) (fun _ h => h)
  refine Keeps.next (.assert _) h₅ (fun _ s₆ h₆ => ?_) (fun _ h => h)
  refine Keeps.next (keeps_fileOrder hp.order hp.newOrder _) h₆ (fun _ s₇ h₇ => ?_) (fun _ h => h)
  rw [sat_bind]
  refine (newOrderLines_sat wId dId h₇ hp hlen output.oId _).mono (fun _ s₈ h₈ => ?_) (fun _ h => h)
  obtain ⟨plan₁, he₁, hplaced, h₈⟩ := h₈
  rw [sat_bind]
  refine (newOrderRemote_sat h₈ (hp.of_extends he₁) wId wId (fun i k hk => he₁.mayKeep ▸ hmay i k hk) items).mono
    (fun _ s₉ h₉ => ?_) (fun _ h => h.of_extends he₁)
  obtain ⟨plan₂, he₂, _, h₉⟩ := h₉
  have hreached : Reached db₀ plan (Placed items) s₉ := ⟨plan₂, he₁.trans he₂, hplaced.of_extends he₂, h₉⟩
  refine Keeps.next (.ofOption _) hreached (fun _ s' h' => ?_) (fun _ h => h.inv)
  exact (Keeps.ofOption _ s' h').mono (fun _ _ h => h) (fun _ h => h.inv)

/-- The home part of an order is placed if the items are there. -/
theorem newOrderHome_sat {items : List NewOrderItem} (h : Inv plan db₀ s) (hp : plan.Orders)
    (hmay : ∀ i k, makeStockKey wId i = some k → k ∈ plan.mayKeep) (now : Text) :
    Sat (newOrderHome true wId dId cId items now) s
      (fun r => Reached db₀ plan fun plan' => (r.1 = true ↔ ItemsValid db₀ items) ∧
        (r.1 = true → (Tuple.items, false) ∈ plan'.held ∧ Placed items plan'))
      (Inv plan db₀) := by
  rw [newOrderHome]
  refine Keeps.next Keeps.get h (fun s₀ s₁ h₁ => ?_) (fun _ h => h)
  refine Keeps.next (.assert _) h₁ (fun _ s₂ h₂ => ?_) (fun _ h => h)
  refine Keeps.next (keeps_find _ _) h₂ (fun _ s₃ h₃ => ?_) (fun _ h => h)
  refine Keeps.next (keeps_tryWrite _ _) h₃ (fun d s₄ h₄ => ?_) (fun _ h => h)
  refine Keeps.next (keeps_deref _ _) h₄ (fun district s₅ h₅ => ?_) (fun _ h => h)
  refine Keeps.next (keeps_find _ _) h₅ (fun _ s₆ h₆ => ?_) (fun _ h => h)
  refine Keeps.next (.assert _) h₆ (fun _ s₇ h₇ => ?_) (fun _ h => h)
  refine Keeps.next (keeps_find _ _) h₇ (fun _ s₈ h₈ => ?_) (fun _ h => h)
  refine Keeps.next (keeps_tryRead _ _) h₈ (fun _ s₉ h₉ => ?_) (fun _ h => h)
  refine Keeps.next (keeps_deref _ _) h₉ (fun c s' h' => ?_) (fun _ h => h)
  rw [sat_bind]
  refine (findAndValidateItems_sat h' items).mono (fun r s'' hr => ?_) (fun _ h => h.1)
  obtain ⟨h'', hr⟩ := hr
  have he := plan.extends_holding .items false
  cases r with
  | none => exact ⟨_, he, ⟨⟨fun hf => (by cases hf), fun hv => absurd hv hr⟩, fun hf => by cases hf⟩, h''⟩
  | some is =>
    show Sat (_ >>= _) s'' _ _
    rw [sat_bind]
    refine (newOrderHomeValid_sat wId dId cId h'' (hp.of_extends he) hmay hr.2 now d _).mono
      (fun _ s₃ h₃ => ?_) (fun _ h => h.of_extends he)
    obtain ⟨plan', he', hplaced, h₃⟩ := h₃
    exact ⟨plan', he.trans he', ⟨⟨fun _ => hr.1, fun _ => rfl⟩,
      fun _ => ⟨he'.held (Set.mem_insert _ _), hplaced⟩⟩, h₃⟩

end

end Dsnet.TPCC
