import Dsnet.TPCC.Further

/-! The work units. After each of them the undo buffer and the locks cover the tables it was run on, with
    one exception: the orders of further warehouses of this partition in a NEW_ORDER_HOME. A unit that is
    blocked is covered always, and so is taken back. -/

namespace Dsnet.TPCC
open Attempt
variable {F : Type} {plan : Plan} {db₀ : DBImpl F} {s : Run F}

/-- What the tables are for in a new order. -/
def ordersUse : Table → Use
  | .order | .orderLine | .newOrder => .inserts
  | .warehouse | .stock | .district | .customer => .saves

/-- And in a delivery. -/
def deliveryUse : Table → Use
  | .newOrder => .deletes
  | .warehouse | .stock | .district | .customer | .order | .orderLine => .saves

/-- Nothing is known yet, and anything may be copied. -/
def Plan.start (use : Table → Use) : Plan := { use := use, held := ∅, kept := ∅, mayKeep := Set.univ }

/-- Of the stock only rows of this warehouse may be copied. -/
def Plan.home (wId : Int) : Plan :=
  { Plan.start ordersUse with mayKeep := fun k => ∃ i, makeStockKey wId i = some k }

/-- A transaction is about to run. -/
structure Starts (db : DBImpl F) : Prop where
  tid : 0 < db.tid
  entry : db.tidLocks.find? db.tid = some []
  filed : db.Filed

/-- The unit orders from the stock of a further warehouse on this partition. -/
def OrdersFurther (db : DBImpl F) : WorkUnit F → Prop
  | .newOrderHome wId _ _ items _ =>
    ItemsValid db items ∧ ∃ item ∈ items, item.supplyWId ≠ wId ∧ db.hasWarehouse item.supplyWId = true
  | _ => False

/-- Some buffer and locks cover `db₀`. -/
def Covered (db₀ : DBImpl F) (s : Run F) : Prop := ∃ plan : Plan, plan.use .newOrder ≠ .saves ∧ Inv plan db₀ s

/-- What is covered when the unit has been run. -/
def Done (db₀ : DBImpl F) (unit : WorkUnit F) (s : Run F) : Prop :=
  ∃ db₁, Covered db₁ s ∧ Beside db₀ db₁ ∧ (¬ OrdersFurther db₀ unit → db₁ = db₀) ∧
    (OrdersFurther db₀ unit → db₁.rows .stock ≠ db₀.rows .stock)

theorem orders_start : (Plan.start ordersUse).Orders := ⟨rfl, rfl, rfl, rfl, rfl, rfl⟩

theorem orders_home (wId : Int) : (Plan.home wId).Orders := ⟨rfl, rfl, rfl, rfl, rfl, rfl⟩

/-- Nothing was changed yet. -/
theorem Starts.inv (h : Starts db₀) (use : Table → Use) (mayKeep : Set Int) :
    Inv { Plan.start use with mayKeep := mayKeep } db₀ { db := db₀, undo := none } where
  tid := h.tid
  locks :=
    { tid := rfl
      entry := by rw [DBImpl.lockedTuples, h.entry]; rfl
      others := fun _ _ => rfl
      since := by
        rw [DBImpl.lockedTuples, h.entry]
        exact .refl _ }
  held := fun _ hx => hx.elim
  items := rfl
  names := rfl
  filed := h.filed
  tables := fun t => by
    have hj : (TPCCUndo.new : TPCCUndo F).journal t = Journal.empty := by cases t <;> rfl
    exact hj ▸ .refl _
  use := fun t => by
    have hj : (TPCCUndo.new : TPCCUndo F).journal t = Journal.empty := by cases t <;> rfl
    show (use t).Allows ((TPCCUndo.new : TPCCUndo F).journal t)
    rw [hj]
    cases use t <;> exact ⟨rfl, rfl⟩
  keyed := fun _ _ hk => by cases hk
  kept := fun _ hk => hk.elim
  mayKeep := fun _ hk => by cases hk
  index := ⟨[], .nil, .refl _⟩
  history := ⟨[], .refl _, rfl, List.nodup_nil, fun _ _ => List.not_mem_nil⟩

/-- A row of the stock tells its warehouse. -/
theorem warehouse_of_stockKey {wId wId' i i' k : Int} (h : makeStockKey wId i = some k)
    (h' : makeStockKey wId' i' = some k) : wId = wId' := by
  rw [makeStockKey] at h h'
  split_ifs at h h' with h1 h2
  rw [← h'] at h
  have heq := Option.some.inj h
  simp only [Stock.numStockPerWarehouse] at h1 h2 heq
  omega

/-- How a unit ends that is not blocked: it is done, or is no transaction and has changed nothing. -/
def Ran (db₀ : DBImpl F) (unit : WorkUnit F) (r : Option (Option (Result F))) (s : Run F) : Prop :=
  (r.isSome = true ∧ Done db₀ unit s) ∨ (r = none ∧ s = { db := db₀, undo := none })

section
variable {α : Type} {m : Txn F α} {unit : WorkUnit F}

/-- A transaction that keeps `Inv`, as a work unit. -/
theorem ran_of_keeps (use : Table → Use) (hs : Starts db₀) (huse : use .newOrder ≠ .saves)
    (hm : Keeps (Inv (Plan.start use) db₀) m) (hunit : ¬ OrdersFurther db₀ unit) (g : α → Option (Result F)) :
    Sat (do let a ← m; return some (g a)) { db := db₀, undo := none } (Ran db₀ unit) (Covered db₀) := by
  rw [sat_bind]
  refine (hm _ (hs.inv use Set.univ)).mono (fun _ s' h' => Or.inl ⟨rfl, db₀, ⟨_, huse, h'⟩, ⟨rfl, rfl, rfl, rfl⟩, ?_, ?_⟩)
    (fun s' h' => ⟨_, huse, h'⟩)
  · exact fun _ => rfl
  · exact fun hf => absurd hf hunit

/-- And one that asserts something of its arguments first. -/
theorem ran_of_assert (use : Table → Use) (hs : Starts db₀) (huse : use .newOrder ≠ .saves)
    (hm : Keeps (Inv (Plan.start use) db₀) m) (hunit : ¬ OrdersFurther db₀ unit) (g : α → Option (Result F))
    (p : Prop) [Decidable p] :
    Sat (do assert p; let a ← m; return some (g a)) { db := db₀, undo := none } (Ran db₀ unit) (Covered db₀) := by
  rw [sat_bind, sat_assert]
  exact fun _ => ran_of_keeps use hs huse hm hunit g

end

/-! ### New orders -/

theorem keeps_newOrderRemote (hp : plan.Orders) (hmay : plan.mayKeep = Set.univ) (home remote : Int)
    (items : List NewOrderItem) : Keeps (Inv plan db₀) (newOrderRemote true home remote items) :=
  fun _ hs => (newOrderRemote_sat hs hp home remote (fun _ _ _ => hmay ▸ Set.mem_univ _) items).mono
    (fun _ _ h => h.inv) (fun _ h => h)

theorem keeps_newOrder [Amount F] (hp : plan.Orders) (hmay : plan.mayKeep = Set.univ) (wId dId cId : Int)
    (items : List NewOrderItem) (now : Text) :
    Keeps (Inv plan db₀) (newOrder (F := F) true wId dId cId items now) := by
  refine Keeps.bind (fun _ hs => ?_) fun r => ?_
  · exact (newOrderHome_sat wId dId cId hs hp (fun _ _ _ => hmay ▸ Set.mem_univ _) now).mono
      (fun _ _ h => h.inv) (fun _ h => h)
  · obtain ⟨ok, output⟩ := r
    cases ok with
    | true =>
      exact Keeps.fold (fun _ remote => (keeps_newOrderRemote hp hmay wId remote items).bind fun _ =>
        (Keeps.ofOption _).bind fun _ => .ofOption _) _ _
    | false => exact .pure _

theorem keeps_orderRemotes (hp : plan.Orders) (hmay : plan.mayKeep = Set.univ) (wId : Int)
    (items : List NewOrderItem) : ∀ (remotes final : List Int),
    Keeps (Inv plan db₀) (orderRemotes (F := F) true wId items final remotes)
  | [], _ => .pure _
  | remote :: remotes, final => by
      intro s hs
      rw [orderRemotes, sat_bind, sat_get]
      split
      · rw [sat_bind]
        refine (newOrderRemote_sat hs hp wId remote (fun _ _ _ => hmay ▸ Set.mem_univ _) items).mono
          (fun r s₁ h₁ => ?_) (fun _ h => h)
        obtain ⟨plan₁, he₁, ⟨_, hkept⟩, h₁⟩ := h₁
        cases r with
        | none => exact h₁.of_extends he₁
        | some quantities =>
          show Sat (_ >>= _) s₁ _ _
          rw [sat_bind]
          -- the second call, without an undo parameter, finds the copies of the first one
          refine (newOrderRemote_again h₁ wId remote items (hkept rfl)).mono (fun again s₂ h₂ => ?_)
            (fun _ h => h.of_extends he₁)
          rw [sat_bind, sat_ofOption]
          exact fun final' _ => keeps_orderRemotes hp hmay wId items remotes final' s₂ (h₂.of_extends he₁)
      · exact keeps_orderRemotes hp hmay wId items remotes final s hs

/-- Where no further warehouse is on this partition nothing is left to do. -/
theorem orderFurther_none [Amount F] (hp : plan.Orders) (home : Int) (items : List NewOrderItem) (remotes : List Int)
    (hnone : ∀ x ∈ remotes, db₀.hasWarehouse x = false) (output : NewOrderOutput F) (hs : Inv plan db₀ s) :
    Sat (fold (orderFurther home items) output remotes) s (fun _ => Inv plan db₀) (Covered db₀) := by
  have hloop := sat_fold (f := orderFurther home items) (B := Covered db₀)
    (fun _ rest s => (∀ x ∈ rest, x ∈ remotes) ∧ Inv plan db₀ s) (fun output remote rest s hI => by
      obtain ⟨hsub, hs⟩ := hI
      have hw := hs.hasWarehouse hp ⟨rfl, rfl, rfl, rfl⟩ remote
      rw [hnone remote (hsub remote List.mem_cons_self)] at hw
      rw [orderFurther, sat_bind, sat_get, hw]
      exact ⟨fun x hx => hsub x (List.mem_cons_of_mem _ hx), hs⟩) (l := remotes) (b := output) (s := s)
    ⟨fun _ hx => hx, hs⟩
  exact hloop.mono (fun _ _ h => h.2) (fun _ h => h)

theorem callNewOrderHome_sat [Amount F] (hs : Starts db₀) (wId dId cId : Int) (items : List NewOrderItem) (now : Text) :
    Sat (callNewOrderHome true wId dId cId items now) { db := db₀, undo := none }
      (fun _ => Done db₀ (.newOrderHome wId dId cId items now)) (Covered db₀) := by
  have hnew : ordersUse .newOrder ≠ .saves := by decide
  rw [callNewOrderHome, sat_bind]
  by_cases hf : OrdersFurther db₀ (.newOrderHome wId dId cId items now)
  · obtain ⟨hvalid, item, hitem, hsupply, hhere⟩ := id hf
    refine (newOrderHome_sat wId dId cId (hs.inv ordersUse _) (orders_home wId) (fun i k hk => ⟨i, hk⟩) now).mono
      (fun r s₁ h₁ => ?_) (fun s₁ h₁ => ⟨Plan.home wId, hnew, h₁⟩)
    obtain ⟨plan, he, ⟨hok, hplaced⟩, h₁⟩ := h₁
    obtain ⟨ok, output⟩ := r
    obtain rfl : ok = true := hok.mpr hvalid
    obtain ⟨hitems, hplaced⟩ := hplaced rfl
    obtain ⟨k, hk, _⟩ := hplaced.stock item hitem
    have hmay : ∀ remote, remote ≠ wId → ∀ i j, makeStockKey remote i = some j → j ∉ plan.mayKeep := by
      rintro remote hne i j hj hm
      rw [he.mayKeep] at hm
      obtain ⟨i', hi'⟩ := hm
      exact hne (warehouse_of_stockKey hj hi')
    show Sat (_ >>= _) s₁ _ _
    rw [sat_bind]
    refine (orderFurther_unsaved h₁ ((orders_home wId).of_extends he) hvalid hitems hplaced hmay hitem hk hsupply
      hhere output).mono (fun _ s₂ h₂ => ?_) (fun _ h => h.elim)
    obtain ⟨db₁, m, h₂, hbeside, hdrift, hlo, hhi⟩ := h₂
    refine ⟨db₁, ⟨plan, ?_, h₂⟩, hbeside, fun hn => absurd hf hn, fun _ => hdrift.ne hlo (by omega)⟩
    rw [he.use]
    exact hnew
  · refine (newOrderHome_sat wId dId cId (hs.inv ordersUse Set.univ) orders_start
      (fun _ _ _ => Set.mem_univ _) now).mono (fun r s₁ h₁ => ?_) (fun s₁ h₁ => ⟨_, hnew, h₁⟩)
    have hinv := h₁.inv
    obtain ⟨plan, he, ⟨hok, _⟩, h₁⟩ := h₁
    obtain ⟨ok, output⟩ := r
    have hdone : ∀ s', Inv (Plan.start ordersUse) db₀ s' →
        Done db₀ (.newOrderHome wId dId cId items now) s' := fun s' h' =>
      ⟨db₀, ⟨_, hnew, h'⟩, ⟨rfl, rfl, rfl, rfl⟩, fun _ => rfl, fun h => absurd h hf⟩
    cases ok with
    | false => exact hdone _ hinv
    | true =>
      have hvalid := hok.mp rfl
      have hnone : ∀ x ∈ newOrderRemoteWarehouses wId items, db₀.hasWarehouse x = false := by
        intro x hx
        simp only [newOrderRemoteWarehouses, List.mem_dedup, List.mem_filter, List.mem_map,
          decide_eq_true_eq] at hx
        obtain ⟨⟨item, hitem, rfl⟩, hne⟩ := hx
        by_contra hhere
        exact hf ⟨hvalid, item, hitem, hne, by simpa using hhere⟩
      show Sat (_ >>= _) s₁ _ _
      rw [sat_bind]
      exact (orderFurther_none orders_start wId items _ hnone output hinv).mono (fun _ s₂ h₂ => hdone s₂ h₂)
        (fun _ h => h)

/-! ### All units -/

theorem not_saves_delivery : deliveryUse .newOrder ≠ .saves := by decide

theorem not_saves_orders : ordersUse .newOrder ≠ .saves := by decide

theorem callUnit_sat [Amount F] (hs : Starts db₀) (unit : WorkUnit F) :
    Sat (callUnit true unit) { db := db₀, undo := none } (Ran db₀ unit) (Covered db₀) := by
  cases unit with
  | newOrder wId dId cId items now =>
    exact ran_of_keeps ordersUse hs not_saves_orders (keeps_newOrder orders_start rfl wId dId cId items now) id _
  | stockLevel wId dId threshold =>
    exact ran_of_keeps ordersUse hs not_saves_orders (keeps_stockLevel wId dId threshold) id _
  | orderStatusById wId dId cId =>
    exact ran_of_keeps ordersUse hs not_saves_orders
      ((keeps_find _ _).bind fun customer => keeps_internalOrderStatus customer) id _
  | orderStatusByName wId dId last =>
    exact ran_of_keeps ordersUse hs not_saves_orders
      ((keeps_findCustomerByName wId dId last).bind fun c => keeps_internalOrderStatus (some c.1)) id _
  | paymentById wId dId cWId cDId cId last amount now =>
    refine ran_of_assert ordersUse hs not_saves_orders ((keeps_find _ _).bind fun customer => ?_) id _ _
    exact (keeps_paymentHome wId dId cWId cDId cId amount now rfl rfl).bind fun _ =>
      (keeps_internalPaymentRemote wId dId amount rfl customer).bind fun _ => .pure _
  | paymentByName wId dId cWId cDId cId last amount now =>
    refine ran_of_assert ordersUse hs not_saves_orders
      ((keeps_findCustomerByName cWId cDId last).bind fun c => ?_) id _ _
    exact (keeps_paymentHome wId dId cWId cDId c.2.id amount now rfl rfl).bind fun _ =>
      (keeps_internalPaymentRemote wId dId amount rfl (some c.1)).bind fun _ => .pure _
  | delivery wId carrierId now =>
    refine ran_of_keeps deliveryUse hs not_saves_delivery ((keeps_allocateUndo true).bind fun _ => ?_) id _
    exact Keeps.fold (fun orders dId => keeps_deliverDistrict wId dId now rfl rfl rfl rfl carrierId orders) _ _
  | newOrderHome wId dId cId items now =>
    rw [callUnit, sat_bind]
    exact (callNewOrderHome_sat hs wId dId cId items now).mono (fun _ _ h => Or.inl ⟨rfl, h⟩) (fun _ h => h)
  | newOrderRemote wId items =>
    refine ran_of_keeps ordersUse hs not_saves_orders ?_ id _
    exact (keeps_orderRemotes orders_start rfl wId items _ _).bind fun _ => .pure _
  | paymentHome wId dId cWId cDId cId last amount now =>
    exact ran_of_keeps ordersUse hs not_saves_orders
      (keeps_paymentHome wId dId cWId cDId cId amount now rfl rfl) id _
  | paymentRemoteById wId dId cWId cDId cId last amount now =>
    refine ran_of_assert ordersUse hs not_saves_orders ((keeps_find _ _).bind fun customer => ?_) id _ _
    exact (keeps_internalPaymentRemote wId dId amount rfl customer).bind fun _ => .pure _
  | paymentRemoteByName wId dId cWId cDId cId last amount now =>
    refine ran_of_assert ordersUse hs not_saves_orders
      ((keeps_findCustomerByName cWId cDId last).bind fun c => ?_) id _ _
    exact (keeps_internalPaymentRemote wId dId amount rfl (some c.1)).bind fun _ => .pure _
  | reset => exact Or.inr ⟨rfl, rfl⟩

end Dsnet.TPCC
