import Dsnet.TPCC.Orders
import Dsnet.TPCC.TxnServer

/-! What `callNewOrderHome` does for the further warehouses of an order. It has no undo parameter there, so
    the rows of the stock that are changed are not saved: the buffer then covers tables (`db₁`) in which
    these rows had been changed before. Each of them counts one order more, and none of the locks that are
    asked for can be blocked, since the home part of the order has taken them all. -/

namespace Dsnet.TPCC
open Attempt
variable {F : Type} {plan : Plan} {db₀ db₁ : DBImpl F} {s : Run F}

/-- The tables differ in the stock only. -/
structure Beside (db₀ db₁ : DBImpl F) : Prop where
  tid : db₁.tid = db₀.tid
  items : db₁.items = db₀.items
  warehouses : db₁.rows .warehouse = db₀.rows .warehouse
  tidLocks : db₁.tidLocks = db₀.tidLocks

theorem Beside.setStock {db₀ db₁ : DBImpl F} (h : Beside db₀ db₁) (m : StdMap Int (Row F .stock)) :
    Beside db₀ (db₁.setRows .stock m) :=
  ⟨h.tid, h.items, (rows_setRows_of_ne _ _ (by decide)).trans h.warehouses, h.tidLocks⟩

/-- The stock at `k` counts `m` orders more than it did. -/
structure Drift (k : Int) (m : Nat) (db₀ db₁ : DBImpl F) : Prop where
  bound : 0 < m → ((db₁.rows .stock).find? k).isSome
  count : ∀ r', (db₁.rows .stock).find? k = some r' → ∃ r, (db₀.rows .stock).find? k = some r ∧
    r'.orderCnt % 2 ^ 32 = (r.orderCnt + m) % 2 ^ 32

/-- The buffer covers tables in which the stock at `k` counts between `lo` and `hi` orders more. -/
def Drifted (plan : Plan) (db₀ : DBImpl F) (k : Int) (lo hi : Nat) (s : Run F) : Prop :=
  ∃ db₁ m, Inv plan db₁ s ∧ Beside db₀ db₁ ∧ Drift k m db₀ db₁ ∧ lo ≤ m ∧ m ≤ hi

theorem Drift.refl (k : Int) (db : DBImpl F) : Drift k 0 db db :=
  ⟨fun h => absurd h (lt_irrefl 0), fun r' h => ⟨r', h, by simp⟩⟩

theorem orderCnt_order (quantity : Int) (remote : Bool) (row : Stock) :
    (row.order quantity remote).orderCnt % 2 ^ 32 = (row.orderCnt + 1) % 2 ^ 32 := by
  show int32 (row.orderCnt + 1) % 2 ^ 32 = _
  exact Int.bmod_emod

/-- An order from the stock at `p`. -/
theorem Drift.order {k p : Int} {m : Nat} {row : Stock} (h : Drift k m db₀ db₁)
    (hrow : (db₁.rows .stock).find? p = some row) (quantity : Int) (remote : Bool) :
    Drift k (if p = k then m + 1 else m) db₀
      (db₁.setRows .stock ((db₁.rows .stock).insert p (row.order quantity remote))) := by
  by_cases hp : p = k
  · subst hp
    rw [if_pos rfl]
    refine ⟨fun _ => ?_, fun r' hr' => ?_⟩
    · rw [rows_setRows_self, StdMap.find?_insert_self]
      rfl
    · rw [rows_setRows_self, StdMap.find?_insert_self] at hr'
      obtain rfl := Option.some.inj hr'
      obtain ⟨r, hr, hcount⟩ := h.count row hrow
      refine ⟨r, hr, ?_⟩
      rw [orderCnt_order]
      push_cast
      omega
  · rw [if_neg hp]
    refine ⟨fun hm => ?_, fun r' hr' => ?_⟩
    · rw [rows_setRows_self, StdMap.find?_insert_of_ne _ _ (Ne.symm hp)]
      exact h.bound hm
    · rw [rows_setRows_self, StdMap.find?_insert_of_ne _ _ (Ne.symm hp)] at hr'
      exact h.count r' hr'

/-- A stock that counts some orders more, but not as many as make it wrap around, has changed. -/
theorem Drift.ne {k : Int} {m : Nat} (h : Drift k m db₀ db₁) (hm : 0 < m) (hlt : m < 2 ^ 32) :
    db₁.rows .stock ≠ db₀.rows .stock := by
  intro heq
  obtain ⟨r', hr'⟩ := Option.isSome_iff_exists.mp (h.bound hm)
  obtain ⟨r, hr, hcount⟩ := h.count r' hr'
  rw [heq, hr] at hr'
  obtain rfl := Option.some.inj hr'
  omega

/-- A row of the stock whose lock is had is ordered from, without a copy. -/
theorem orderStock_unsaved {k : Int} {lo hi : Nat} (h : Drifted plan db₀ k lo hi s) (hp : plan.Orders)
    {home remote : Int} {item : NewOrderItem} (hheld : StockHeld plan item)
    (hmay : item.supplyWId = remote → ∀ i, item.stockKey = some i → i ∉ plan.mayKeep) :
    Sat (orderStock false home remote item) s
      (fun _ s' => Drifted plan db₀ k lo (hi + 1) s' ∧
        (item.supplyWId = remote → item.stockKey = some k → Drifted plan db₀ k (lo + 1) (hi + 1) s'))
      (fun _ => False) := by
  obtain ⟨db₁, m, h, hbeside, hdrift, hlo, hhi⟩ := h
  rw [orderStock, sat_ite]
  refine ⟨fun hne => ⟨⟨db₁, m, h, hbeside, hdrift, hlo, by omega⟩, fun heq => absurd heq hne⟩, fun heq => ?_⟩
  obtain rfl := not_not.mp heq
  rw [findStock, sat_bind]
  refine (find_sat .stock _ s).mono (fun q s' hq => ?_) (fun _ h => h)
  obtain ⟨rfl, hq⟩ := hq
  rw [sat_bind]
  refine (tryWrite_sat h .stock q).mono (fun p s'' hp' => ?_) (fun s'' h' => ?_)
  · obtain ⟨rfl, h'⟩ := hp'
    have hkey : item.stockKey = some p := (hq p rfl).1
    have h' := h'.of_extends (plan.extends_holding _ _)
    rw [sat_bind]
    refine (update_unsaved h' hp.stock (hmay rfl p hkey) _).mono (fun _ s₃ h₃ => ?_) (fun _ h => h)
    obtain ⟨row, hrow, h₃⟩ := h₃
    rw [sat_bind]
    refine deref_sat fun _ _ => ?_
    have hdrift' := hdrift.order hrow item.quantity (decide (item.supplyWId ≠ home))
    refine ⟨⟨_, _, h₃, hbeside.setStock _, hdrift', ?_, ?_⟩, fun _ hk => ⟨_, _, h₃, hbeside.setStock _, hdrift', ?_, ?_⟩⟩
    · split_ifs <;> omega
    · split_ifs <;> omega
    · rw [if_pos (Option.some.inj (hkey.symm.trans hk))]
      omega
    · split_ifs <;> omega
  · -- the lock is the transaction's own
    obtain ⟨_, p, rfl, hnot⟩ := h'
    obtain ⟨k', hk', hheld⟩ := hheld
    have hkey : item.stockKey = some p := (hq p rfl).1
    obtain rfl := Option.some.inj (hkey.symm.trans hk')
    exact hnot hheld

theorem Drifted.mono {k : Int} {lo lo' hi hi' : Nat} (h : Drifted plan db₀ k lo hi s) (hlo : lo' ≤ lo)
    (hhi : hi ≤ hi') : Drifted plan db₀ k lo' hi' s := by
  obtain ⟨db₁, m, h, hbeside, hdrift, h1, h2⟩ := h
  exact ⟨db₁, m, h, hbeside, hdrift, by omega, by omega⟩

/-- The items of a further warehouse. If `item` is one of them its stock counts one order more. -/
theorem newOrderRemote_unsaved {k : Int} {lo hi : Nat} {items : List NewOrderItem}
    (h : Drifted plan db₀ k lo hi s) (hp : plan.Orders) (hvalid : ItemsValid db₀ items)
    (hitems : (Tuple.items, false) ∈ plan.held) (hplaced : Placed items plan) (home : Int) {remote : Int}
    (hmay : ∀ i j, makeStockKey remote i = some j → j ∉ plan.mayKeep) {item : NewOrderItem} (hitem : item ∈ items)
    (hk : item.stockKey = some k) :
    Sat (newOrderRemote false home remote items) s
      (fun _ s' => ∃ l, Drifted plan db₀ k l (hi + items.length) s' ∧ lo ≤ l ∧ (item.supplyWId = remote → lo + 1 ≤ l))
      (fun _ => False) := by
  rw [newOrderRemote, sat_bind]
  obtain ⟨db₁, m, h, hbeside, hdrift, hlo, hhi⟩ := h
  refine (findAndValidateItems_sat h items).mono (fun r s' hr => ?_) (fun _ h => h.2 hitems)
  obtain ⟨h', hr⟩ := hr
  have hd : Drifted plan db₀ k lo hi s' :=
    ⟨db₁, m, h'.of_extends (plan.extends_holding _ _), hbeside, hdrift, hlo, hhi⟩
  have hvalid₁ : ItemsValid db₁ items := by
    rw [ItemsValid, hbeside.items]
    exact hvalid
  cases r with
  | none => exact absurd hvalid₁ hr
  | some is =>
    show Sat (_ >>= _) s' _ _
    rw [allocateUndo, sat_bind, sat_when]
    refine ⟨fun hf => (by cases hf), fun _ => ?_⟩
    rw [sat_bind]
    -- `l` orders so far; the item is still to come, or not from here, or counted
    let I (rest : List NewOrderItem) (s : Run F) : Prop := ∃ l,
      Drifted plan db₀ k l (hi + (items.length - rest.length)) s ∧ lo ≤ l ∧ rest.length ≤ items.length ∧
        (∀ x ∈ rest, x ∈ items) ∧ (item ∈ rest ∨ (item.supplyWId = remote → lo + 1 ≤ l))
    have hloop := sat_mapEach (f := orderStock (F := F) false home remote) (B := fun _ => False) I
      (fun a rest s hI => by
        obtain ⟨l, hd, hl, hlen, hsub, hcount⟩ := hI
        rw [List.length_cons] at hd hlen
        have hhi' : hi + (items.length - (rest.length + 1)) + 1 = hi + (items.length - rest.length) := by omega
        refine (orderStock_unsaved hd hp (hplaced.stock a (hsub a List.mem_cons_self))
          (fun hs i hi => hmay a.iId i (by rw [← hs]; exact hi))).mono (fun _ s₂ h₂ => ?_) (fun _ h => h)
        rw [hhi'] at h₂
        have hsub' : ∀ x ∈ rest, x ∈ items := fun x hx => hsub x (List.mem_cons_of_mem _ hx)
        by_cases ha : item = a ∧ item.supplyWId = remote
        · obtain ⟨rfl, hs⟩ := ha
          exact ⟨l + 1, h₂.2 hs hk, by omega, by omega, hsub', Or.inr fun _ => by omega⟩
        · refine ⟨l, h₂.1, hl, by omega, hsub', ?_⟩
          rcases hcount with hm | hcount
          · rcases List.mem_cons.mp hm with rfl | hm
            · exact Or.inr fun hs => absurd ⟨rfl, hs⟩ ha
            · exact Or.inl hm
          · exact Or.inr hcount) (l := items) (s := s')
      ⟨lo, by rwa [Nat.sub_self], le_refl _, le_refl _, fun _ hx => hx, Or.inl hitem⟩
    refine hloop.mono (fun _ s₃ h₃ => ?_) (fun _ h => h)
    obtain ⟨_, l, hd, hl, _, _, hcount⟩ := h₃
    exact ⟨l, hd, hl, hcount.resolve_left List.not_mem_nil⟩

/-- The rows of the warehouses are where they were. -/
theorem Inv.hasWarehouse (h : Inv plan db₁ s) (hp : plan.Orders) (hbeside : Beside db₀ db₁) (wId : Int) :
    s.db.hasWarehouse wId = db₀.hasWarehouse wId := by
  obtain ⟨hins, hdel⟩ := h.saves hp.warehouse
  have hbefore := (h.tables .warehouse).before wId
  rw [Journal.before] at hbefore
  rw [DBImpl.hasWarehouse, DBImpl.hasWarehouse, ← hbeside.warehouses, hbefore]
  have hd : (((s.undo.getD TPCCUndo.new).journal .warehouse).deleted.find? wId) = none := rfl
  have hi : wId ∉ ((s.undo.getD TPCCUndo.new).journal .warehouse).inserted := by
    rw [TPCCUndo.journal, hins]
    exact List.not_mem_nil
  rw [hd, if_neg hi]
  cases hs : ((s.undo.getD TPCCUndo.new).journal .warehouse).saved.find? wId with
  | none => rfl
  | some r =>
    have := (h.tables .warehouse).saved wId (by rw [hs]; rfl)
    rw [this]
    rfl

/-- All further warehouses: the stock of an item of one that is on this partition has changed. -/
theorem orderFurther_unsaved [Amount F] {k : Int} {items : List NewOrderItem} (h : Inv plan db₀ s)
    (hp : plan.Orders) (hvalid : ItemsValid db₀ items) (hitems : (Tuple.items, false) ∈ plan.held)
    (hplaced : Placed items plan) {home : Int}
    (hmay : ∀ remote, remote ≠ home → ∀ i j, makeStockKey remote i = some j → j ∉ plan.mayKeep)
    {item : NewOrderItem} (hitem : item ∈ items) (hk : item.stockKey = some k) (hsupply : item.supplyWId ≠ home)
    (hhere : db₀.hasWarehouse item.supplyWId = true) (output : NewOrderOutput F) :
    Sat (fold (orderFurther home items) output (newOrderRemoteWarehouses home items)) s
      (fun _ => Drifted plan db₀ k 1 225) (fun _ => False) := by
  let remotes := newOrderRemoteWarehouses home items
  have hmem : ∀ x, x ∈ remotes ↔ (∃ i ∈ items, i.supplyWId = x) ∧ x ≠ home := by
    intro x
    simp [remotes, newOrderRemoteWarehouses]
  have hlen : remotes.length ≤ items.length := by
    refine (List.dedup_sublist _).length_le.trans ((List.length_filter_le _ _).trans ?_)
    rw [List.length_map]
  have hitems15 : items.length ≤ 15 := by
    have := hplaced.length
    rw [Order.maxOlCnt] at this
    omega
  let I (_ : NewOrderOutput F) (rest : List Int) (s : Run F) : Prop := ∃ l,
    Drifted plan db₀ k l ((remotes.length - rest.length) * items.length) s ∧ rest.length ≤ remotes.length ∧
      (∀ x ∈ rest, x ∈ remotes) ∧ (item.supplyWId ∈ rest ∨ 1 ≤ l)
  have hloop := sat_fold (f := orderFurther home items) (B := fun _ => False) I (fun output remote rest s hI => by
    obtain ⟨l, hd, hlen', hsub, hcount⟩ := hI
    rw [List.length_cons] at hd hlen'
    have hhi : (remotes.length - (rest.length + 1)) * items.length + items.length =
        (remotes.length - rest.length) * items.length := by
      rw [← Nat.succ_mul]
      congr 1
      omega
    have hsub' : ∀ x ∈ rest, x ∈ remotes := fun x hx => hsub x (List.mem_cons_of_mem _ hx)
    have hne : remote ≠ home := ((hmem remote).mp (hsub remote List.mem_cons_self)).2
    obtain ⟨db₁, m, h₁, hbeside, hrest⟩ := id hd
    have hw := h₁.hasWarehouse hp hbeside remote
    rw [orderFurther, sat_bind, sat_get]
    by_cases hthere : s.db.hasWarehouse remote = true
    · rw [if_pos hthere, sat_bind]
      refine (newOrderRemote_unsaved hd hp hvalid hitems hplaced home (hmay remote hne) hitem hk).mono
        (fun _ s₂ h₂ => ?_) (fun _ h => h)
      obtain ⟨l', hd', hl, hone⟩ := h₂
      rw [hhi] at hd'
      have hI' : ∀ output, I output rest s₂ := by
        refine fun _ => ⟨l', hd', by omega, hsub', ?_⟩
        rcases hcount with hm | hcount
        · rcases List.mem_cons.mp hm with heq | hm
          · exact Or.inr (by have := hone heq; omega)
          · exact Or.inl hm
        · exact Or.inr (by omega)
      rw [sat_bind, sat_ofOption]
      intro _ _
      rw [sat_ofOption]
      exact fun output' _ => hI' output'
    · rw [if_neg hthere]
      refine ⟨l, hd.mono (le_refl _) (by omega), by omega, hsub', ?_⟩
      rcases hcount with hm | hcount
      · rcases List.mem_cons.mp hm with heq | hm
        · rw [hw, ← heq] at hthere
          exact absurd hhere hthere
        · exact Or.inl hm
      · exact Or.inr hcount) (l := remotes) (b := output) (s := s)
    ⟨0, ⟨db₀, 0, h, ⟨rfl, rfl, rfl, rfl⟩, .refl k db₀, le_refl _, by omega⟩, le_refl _, fun _ hx => hx,
      Or.inl ((hmem _).mpr ⟨⟨item, hitem, rfl⟩, hsupply⟩)⟩
  refine hloop.mono (fun _ s' h' => ?_) (fun _ h => h)
  obtain ⟨l, hd, _, _, hcount⟩ := h'
  have hl := hcount.resolve_left List.not_mem_nil
  refine hd.mono hl ?_
  calc (remotes.length - ([] : List Int).length) * items.length
      ≤ 15 * 15 := Nat.mul_le_mul (by simp only [List.length_nil]; omega) hitems15
    _ = 225 := rfl

end Dsnet.TPCC
