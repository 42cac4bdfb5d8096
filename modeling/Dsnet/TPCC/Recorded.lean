import Dsnet.Lib.Journal
import Dsnet.TPCC.Locks

/-! What a running transaction has changed can be told from its undo buffer and its locks. `Recorded`
    holds between the tables as the transaction found them (`db₀`), its buffer, and the tables now; each
    change that is made together with its entry keeps it.

    The rows of a table are only saved, or only inserted, or only deleted in one transaction (`Use`). A
    `Plan` also says which locks the transaction is known to have, of which rows of the stock it has
    copies, and of which it may have. -/

namespace Dsnet.TPCC
open Attempt
variable {F : Type}

/-- What the entries about a table can be. -/
inductive Use where
  | saves | inserts | deletes
  deriving DecidableEq

def Use.Allows {κ ρ : Type} [LinearOrder κ] (j : Journal κ ρ) : Use → Prop
  | .saves => j.inserted = [] ∧ j.deleted = StdMap.empty
  | .inserts => j.saved = StdMap.empty ∧ j.deleted = StdMap.empty
  | .deletes => j.saved = StdMap.empty ∧ j.inserted = []

/-- What is known of a transaction while it runs. -/
structure Plan where
  use : Table → Use
  held : Set (Tuple × Bool)
  kept : Set Int
  mayKeep : Set Int

/-- The deleted rows of a table. -/
def TPCCUndo.deletedRows (u : TPCCUndo F) : (t : Table) → StdMap Int (Row F t)
  | .newOrder => u.deletedNewOrders
  | .warehouse | .stock | .district | .customer | .order | .orderLine => StdMap.empty

/-- The entries about a table. -/
def TPCCUndo.journal (u : TPCCUndo F) (t : Table) : Journal Int (Row F t) :=
  ⟨u.modified t, u.inserted t, u.deletedRows t⟩

/-- The inserted orders are found under their customers, and nothing else has changed there. -/
def IndexSince (db₀ : DBImpl F) (u : TPCCUndo F) (db : DBImpl F) : Prop :=
  ∃ js, List.Forall₂ (fun k j => ∃ o, (db.rows .order).find? k = some o ∧
      makeOrderByCustomerKey o.wId o.dId o.cId o.id = some j ∧ db.ordersByCustomer.find? j = some k)
    (u.inserted .order) js ∧
    Journal.Covers ⟨StdMap.empty, js, StdMap.empty⟩ db₀.ordersByCustomer db.ordersByCustomer

/-- The history is what it was and the inserted rows. -/
def HistorySince (history₀ history : List (Nat × History F)) (inserted : List Nat) : Prop :=
  ∃ new, history.Perm (new ++ history₀) ∧ new.map Prod.fst = inserted ∧ inserted.Nodup ∧
    ∀ x ∈ history₀, x.1 ∉ inserted

/-- The undelivered orders are filed under their ids. -/
def DBImpl.Filed (db : DBImpl F) : Prop :=
  ∀ k row, (db.rows .newOrder).find? k = some row → Row.key (F := F) .newOrder row = some k

/-- The changes from `db₀` to `db` can be told from the buffer and the locks. -/
structure Recorded (plan : Plan) (db₀ : DBImpl F) (u : TPCCUndo F) (db : DBImpl F) : Prop where
  tid : 0 < db₀.tid
  locks : LocksOf db₀ db
  held : ∀ x ∈ plan.held, Owns db.lockTable db.lockedTuples x.1 x.2
  items : db.items = db₀.items
  names : db.customersByName = db₀.customersByName
  filed : db₀.Filed
  tables : ∀ t, (u.journal t).Covers (db₀.rows t) (db.rows t)
  use : ∀ t, (plan.use t).Allows (u.journal t)
  keyed : ∀ t, ∀ k ∈ u.inserted t, ∀ row, (db.rows t).find? k = some row → Row.key t row = some k
  kept : ∀ k ∈ plan.kept, ((u.modified .stock).find? k).isSome
  mayKeep : ∀ k, ((u.modified .stock).find? k).isSome → k ∈ plan.mayKeep
  index : IndexSince db₀ u db
  history : HistorySince db₀.history db.history u.insertedHistory

/-- `Recorded` of a run; no buffer is an empty one. -/
def Inv (plan : Plan) (db₀ : DBImpl F) (s : Run F) : Prop :=
  Recorded plan db₀ (s.undo.getD TPCCUndo.new) s.db

variable {plan : Plan} {db₀ db : DBImpl F} {u : TPCCUndo F} {t : Table} {p : Int}

/-! ### Entries -/

theorem journal_save_self (u : TPCCUndo F) (t : Table) (p : Int) (row : Row F t) :
    (u.save t p row).journal t = { u.journal t with saved := (u.modified t).emplace p row } := by
  cases t <;> simp [TPCCUndo.journal, TPCCUndo.save, TPCCUndo.deletedRows]

theorem journal_save_of_ne (u : TPCCUndo F) {t t' : Table} (p : Int) (row : Row F t) (h : t' ≠ t) :
    (u.save t p row).journal t' = u.journal t' := by
  cases t' <;> simp [TPCCUndo.journal, TPCCUndo.save, TPCCUndo.deletedRows, Function.update_of_ne h]

/-- A row is saved under no key but its own. -/
theorem modified_save (u : TPCCUndo F) (t : Table) (p : Int) (row : Row F t) (t' : Table) (k : Int) :
    (((u.save t p row).modified t').find? k).isSome ↔
      ((u.modified t').find? k).isSome ∨ (t' = t ∧ k = p) := by
  by_cases ht : t' = t
  · subst ht
    simp only [TPCCUndo.save, Function.update_self, StdMap.find?_emplace]
    by_cases hk : k = p
    · rw [if_pos hk]
      cases (u.modified t').find? k <;> simp [hk]
    · simp [hk]
  · simp [TPCCUndo.save, ht]

theorem rows_setRows_self (db : DBImpl F) (t : Table) (m : StdMap Int (Row F t)) :
    (db.setRows t m).rows t = m := Function.update_self ..

theorem rows_setRows_of_ne (db : DBImpl F) {t t' : Table} (m : StdMap Int (Row F t)) (h : t' ≠ t) :
    (db.setRows t m).rows t' = db.rows t' := Function.update_of_ne h ..

theorem LocksOf.setRows (h : LocksOf db₀ db) (m : StdMap Int (Row F t)) : LocksOf db₀ (db.setRows t m) :=
  h.congr rfl rfl rfl

/-- Where no order was put in the index is as it was, whatever the rows. -/
theorem IndexSince.setRows (h : IndexSince db₀ u db) (m : StdMap Int (Row F t))
    (ht : t = .order → u.inserted .order = []) : IndexSince db₀ u (db.setRows t m) := by
  obtain ⟨js, hjs, hcov⟩ := h
  refine ⟨js, ?_, hcov⟩
  by_cases hto : t = .order
  · rw [ht hto] at hjs ⊢
    cases hjs
    exact .nil
  · rwa [rows_setRows_of_ne _ _ (Ne.symm hto)]

theorem Recorded.saves (h : Recorded plan db₀ u db) (hu : plan.use t = .saves) :
    u.inserted t = [] ∧ u.deletedRows t = StdMap.empty := by
  have := h.use t
  rwa [hu] at this

theorem Recorded.inserts (h : Recorded plan db₀ u db) (hu : plan.use t = .inserts) :
    u.modified t = StdMap.empty ∧ u.deletedRows t = StdMap.empty := by
  have := h.use t
  rwa [hu] at this

theorem Recorded.deletes (h : Recorded plan db₀ u db) (hu : plan.use t = .deletes) :
    u.modified t = StdMap.empty ∧ u.inserted t = [] := by
  have := h.use t
  rwa [hu] at this

/-- Where a row was saved none was inserted. -/
theorem Recorded.not_inserted (h : Recorded plan db₀ u db) (hs : ((u.modified t).find? p).isSome) :
    u.inserted t = [] := by
  cases hu : plan.use t with
  | saves => exact (h.saves hu).1
  | inserts =>
    rw [(h.inserts hu).1] at hs
    cases hs
  | deletes => exact (h.deletes hu).2

/-! ### Changes -/

/-- Locks. -/
theorem Recorded.withLocks {locks : Tuple → Option Lock} {own : List Tuple} {x : Tuple} {e : Bool}
    (h : Recorded plan db₀ u db) (hs : LocksSince db₀.lockTable locks own) (hx : Owns locks own x e)
    (hmono : ∀ y e', Owns db.lockTable db.lockedTuples y e' → Owns locks own y e') :
    Recorded { plan with held := Set.insert (x, e) plan.held } db₀ u (db.withLocks locks own) :=
  { h with
    locks := h.locks.withLocks hs
    held := by
      intro y hy
      have hown : (db.withLocks locks own).lockedTuples = own := by
        simp [DBImpl.withLocks, DBImpl.lockedTuples, StdMap.find?_insert_self]
      rw [hown]
      rcases hy with rfl | hy
      · exact hx
      · exact hmono y.1 y.2 (h.held y hy) }

/-- A row that is saved, or of which a copy is known to be there, is written. -/
theorem Recorded.write {row : Row F t} (h : Recorded plan db₀ u db) (hrow : (db.rows t).find? p = some row)
    (hs : ((u.modified t).find? p).isSome) (row' : Row F t) :
    Recorded plan db₀ u (db.setRows t ((db.rows t).insert p row')) := by
  have hins := h.not_inserted hs
  refine { h with locks := h.locks.setRows _, tables := ?_, keyed := ?_, index := ?_ }
  · intro t'
    by_cases ht : t' = t
    · subst ht
      rw [rows_setRows_self]
      exact (h.tables t').write hrow hs row'
    · rw [rows_setRows_of_ne _ _ ht]
      exact h.tables t'
  · intro t' k hk r hr
    have ht : t' ≠ t := by
      rintro rfl
      rw [hins] at hk
      cases hk
    rw [rows_setRows_of_ne _ _ ht] at hr
    exact h.keyed t' k hk r hr
  · exact h.index.setRows _ fun ht => ht ▸ hins

/-- A row is saved. -/
theorem Recorded.save {row : Row F t} (h : Recorded plan db₀ u db) (hrow : (db.rows t).find? p = some row)
    (hu : plan.use t = .saves) (hmay : t = .stock → p ∈ plan.mayKeep) :
    Recorded { plan with kept := if t = .stock then Set.insert p plan.kept else plan.kept } db₀
      (u.save t p row) db := by
  obtain ⟨hins, hdel⟩ := h.saves hu
  refine { h with tables := ?_, use := ?_, kept := ?_, mayKeep := ?_ }
  · intro t'
    by_cases ht : t' = t
    · subst ht
      rw [journal_save_self]
      exact (h.tables t').save hrow (by rw [TPCCUndo.journal, hins]; exact List.not_mem_nil)
    · rw [journal_save_of_ne _ _ _ ht]
      exact h.tables t'
  · intro t'
    by_cases ht : t' = t
    · subst ht
      rw [journal_save_self, hu]
      exact ⟨hins, hdel⟩
    · rw [journal_save_of_ne _ _ _ ht]
      exact h.use t'
  · intro k hk
    rw [modified_save]
    by_cases ht : t = .stock
    · rw [if_pos ht] at hk
      rcases hk with rfl | hk
      · exact Or.inr ⟨ht.symm, rfl⟩
      · exact Or.inl (h.kept k hk)
    · rw [if_neg ht] at hk
      exact Or.inl (h.kept k hk)
  · intro k hk
    rcases (modified_save ..).mp hk with hk | ⟨ht, rfl⟩
    · exact h.mayKeep k hk
    · exact hmay ht.symm

/-- The buffer with an inserted row. -/
def TPCCUndo.withInserted (u : TPCCUndo F) (t : Table) (p : Int) : TPCCUndo F :=
  { u with inserted := Function.update u.inserted t (p :: u.inserted t) }

theorem inserted_withInserted_self (u : TPCCUndo F) (t : Table) (p : Int) :
    (u.withInserted t p).inserted t = p :: u.inserted t := Function.update_self ..

theorem inserted_withInserted_of_ne (u : TPCCUndo F) {t t' : Table} (p : Int) (h : t' ≠ t) :
    (u.withInserted t p).inserted t' = u.inserted t' := Function.update_of_ne h ..

theorem journal_withInserted_self (u : TPCCUndo F) (t : Table) (p : Int) :
    (u.withInserted t p).journal t = { u.journal t with inserted := p :: u.inserted t } := by
  rw [TPCCUndo.journal, inserted_withInserted_self]
  cases t <;> rfl

theorem journal_withInserted_of_ne (u : TPCCUndo F) {t t' : Table} (p : Int) (h : t' ≠ t) :
    (u.withInserted t p).journal t' = u.journal t' := by
  rw [TPCCUndo.journal, inserted_withInserted_of_ne _ _ h]
  cases t' <;> rfl

/-- A row is inserted, with what becomes of the index. -/
theorem Recorded.insert {row : Row F t} {index : StdMap Int Int} (h : Recorded plan db₀ u db)
    (hfree : (db.rows t).find? p = none) (hu : plan.use t = .inserts) (hkey : Row.key t row = some p)
    (hindex : IndexSince db₀ (u.withInserted t p)
      { db.setRows t ((db.rows t).insert p row) with ordersByCustomer := index }) :
    Recorded plan db₀ (u.withInserted t p)
      { db.setRows t ((db.rows t).insert p row) with ordersByCustomer := index } := by
  obtain ⟨hsaved, hdel⟩ := h.inserts hu
  refine { h with locks := h.locks.congr rfl rfl rfl, tables := ?_, use := ?_, keyed := ?_, index := hindex }
  · intro t'
    by_cases ht : t' = t
    · subst ht
      rw [journal_withInserted_self]
      refine (rows_setRows_self db t' _).symm ▸ (h.tables t').insert hfree ?_ row
      rw [TPCCUndo.journal, hdel]
      rfl
    · rw [journal_withInserted_of_ne _ _ ht]
      exact (rows_setRows_of_ne db _ ht).symm ▸ h.tables t'
  · intro t'
    by_cases ht : t' = t
    · subst ht
      rw [journal_withInserted_self, hu]
      exact ⟨hsaved, hdel⟩
    · rw [journal_withInserted_of_ne _ _ ht]
      exact h.use t'
  · intro t' k hk r hr
    by_cases ht : t' = t
    · subst ht
      rw [inserted_withInserted_self] at hk
      have hr : ((db.rows t').insert p row).find? k = some r := by
        rwa [← rows_setRows_self db t' ((db.rows t').insert p row)]
      by_cases hkp : k = p
      · subst hkp
        rw [StdMap.find?_insert_self] at hr
        exact Option.some.inj hr ▸ hkey
      · rw [StdMap.find?_insert_of_ne _ _ hkp] at hr
        exact h.keyed t' k ((List.mem_cons.mp hk).resolve_left hkp) r hr
    · rw [inserted_withInserted_of_ne _ _ ht] at hk
      exact h.keyed t' k hk r (rows_setRows_of_ne db _ ht ▸ hr)

/-- A row that is no order leaves the index. -/
theorem Recorded.insertOther {row : Row F t} (h : Recorded plan db₀ u db) (hfree : (db.rows t).find? p = none)
    (hu : plan.use t = .inserts) (hkey : Row.key t row = some p) (ht : t ≠ .order) :
    Recorded plan db₀ (u.withInserted t p) (db.setRows t ((db.rows t).insert p row)) := by
  refine h.insert hfree hu hkey ?_
  obtain ⟨js, hjs, hcov⟩ := h.index
  refine ⟨js, ?_, hcov⟩
  rw [inserted_withInserted_of_ne _ _ ht.symm]
  exact (rows_setRows_of_ne db _ ht.symm).symm ▸ hjs

/-- An order is put in the index as well. -/
theorem Recorded.insertOrder {o : Order} {j : Int} (h : Recorded plan db₀ u db)
    (hfree : (db.rows .order).find? p = none) (hu : plan.use .order = .inserts)
    (hkey : Row.key (F := F) .order o = some p)
    (hj : makeOrderByCustomerKey o.wId o.dId o.cId o.id = some j) (hjfree : db.ordersByCustomer.find? j = none) :
    Recorded plan db₀ (u.withInserted .order p)
      { db.setRows .order ((db.rows .order).insert p o) with
        ordersByCustomer := db.ordersByCustomer.insert j p } := by
  refine h.insert hfree hu hkey ?_
  obtain ⟨js, hjs, hcov⟩ := h.index
  refine ⟨j :: js, ?_, hcov.insert hjfree rfl p⟩
  rw [inserted_withInserted_self]
  have hrows := rows_setRows_self db .order ((db.rows .order).insert p o)
  refine .cons ⟨o, ?_, hj, StdMap.find?_insert_self ..⟩ (hjs.imp fun k i hki => ?_)
  · rw [hrows, StdMap.find?_insert_self]
  · obtain ⟨o', ho', hi, hki⟩ := hki
    refine ⟨o', ?_, hi, ?_⟩
    · rw [hrows, StdMap.find?_insert_of_ne]
      · exact ho'
      · rintro rfl
        rw [hfree] at ho'
        cases ho'
    · rw [StdMap.find?_insert_of_ne]
      · exact hki
      · rintro rfl
        rw [hjfree] at hki
        cases hki

/-- An undelivered order is taken out. -/
theorem Recorded.delete {row : NewOrder} (h : Recorded plan db₀ u db)
    (hrow : (db.rows .newOrder).find? p = some row) (hu : plan.use .newOrder = .deletes) :
    Recorded plan db₀ { u with deletedNewOrders := u.deletedNewOrders.insert p row }
      (db.setRows .newOrder ((db.rows .newOrder).erase p)) := by
  obtain ⟨hsaved, hins⟩ := h.deletes hu
  have hother : ∀ t, t ≠ .newOrder →
      TPCCUndo.journal { u with deletedNewOrders := u.deletedNewOrders.insert p row } t = u.journal t := by
    intro t ht
    cases t <;> first | rfl | exact absurd rfl ht
  refine { h with locks := h.locks.setRows _, tables := ?_, use := ?_, keyed := ?_, index := ?_ }
  · intro t
    by_cases ht : t = .newOrder
    · subst ht
      rw [rows_setRows_self]
      refine (h.tables .newOrder).delete hrow ?_ ?_
      · rw [TPCCUndo.journal, hsaved]
        rfl
      · rw [TPCCUndo.journal, hins]
        exact List.not_mem_nil
    · rw [rows_setRows_of_ne _ _ ht, hother t ht]
      exact h.tables t
  · intro t
    by_cases ht : t = .newOrder
    · subst ht
      rw [hu]
      exact ⟨hsaved, hins⟩
    · rw [hother t ht]
      exact h.use t
  · intro t k hk r hr
    have ht : t ≠ .newOrder := by
      rintro rfl
      have hk : k ∈ u.inserted .newOrder := hk
      rw [hins] at hk
      cases hk
    rw [rows_setRows_of_ne _ _ ht] at hr
    exact h.keyed t k hk r hr
  · exact h.index.setRows _ fun ht => by cases ht

theorem lt_freshId {history : List (Nat × History F)} {x : Nat × History F} (hx : x ∈ history) :
    x.1 < freshId history := by
  have hle : ∀ (l : List Nat) (n m : Nat), m ∈ l ∨ m ≤ n → m ≤ l.foldl max n := by
    intro l
    induction l with
    | nil => intro n m h; exact h.resolve_left List.not_mem_nil
    | cons a l ih =>
      intro n m h
      refine ih _ _ ?_
      rcases h with h | h
      · rcases List.mem_cons.mp h with rfl | h
        · exact Or.inr (le_max_right _ _)
        · exact Or.inl h
      · exact Or.inr (h.trans (le_max_left _ _))
  exact hle _ _ _ (Or.inl (List.mem_map_of_mem (f := fun h : Nat × History F => h.1 + 1) hx))

/-- A row is put at the end of the history. -/
theorem Recorded.insertHistory (h : Recorded plan db₀ u db) (row : History F) :
    freshId db.history ∉ u.insertedHistory ∧
    Recorded plan db₀ { u with insertedHistory := freshId db.history :: u.insertedHistory }
      { db with history := db.history ++ [(freshId db.history, row)] } := by
  obtain ⟨new, hperm, hids, hnodup, hold⟩ := h.history
  have hfresh : ∀ x ∈ new ++ db₀.history, x.1 ≠ freshId db.history :=
    fun x hx => (lt_freshId (hperm.mem_iff.mpr hx)).ne
  have hnot : freshId db.history ∉ u.insertedHistory := by
    rw [← hids]
    intro hm
    obtain ⟨x, hx, heq⟩ := List.mem_map.mp hm
    exact hfresh x (List.mem_append_left _ hx) heq
  refine ⟨hnot, { h with
    locks := h.locks.congr rfl rfl rfl
    tables := fun t => ?_
    use := fun t => ?_
    history := ⟨(freshId db.history, row) :: new, ?_, by rw [List.map_cons, hids],
      List.nodup_cons.mpr ⟨hnot, hnodup⟩, fun x hx => ?_⟩ }⟩
  · exact h.tables t
  · exact h.use t
  · exact (List.perm_append_singleton _ _).trans (hperm.cons _)
  · exact List.mem_cons.not.mpr (not_or.mpr ⟨hfresh x (List.mem_append_right _ hx), hold x hx⟩)

/-- A row of the stock that is written with no copy of it is as if it had been found so. -/
theorem Recorded.overwrite {row : Stock} (h : Recorded plan db₀ u db)
    (hrow : (db.rows .stock).find? p = some row) (hu : plan.use .stock = .saves)
    (hs : (u.modified .stock).find? p = none) (row' : Stock) :
    (db₀.rows .stock).find? p = some row ∧
    Recorded plan (db₀.setRows .stock ((db₀.rows .stock).insert p row')) u
      (db.setRows .stock ((db.rows .stock).insert p row')) := by
  obtain ⟨hins, _⟩ := h.saves hu
  have hcov := (h.tables .stock).overwrite hrow hs (by rw [TPCCUndo.journal, hins]; exact List.not_mem_nil) row'
  refine ⟨hcov.1, { h with locks := ?_, filed := ?_, tables := ?_, keyed := ?_, index := ?_ }⟩
  · exact ⟨h.locks.tid, h.locks.entry, h.locks.others, h.locks.since⟩
  · intro k r hr
    rw [rows_setRows_of_ne _ _ (by simp)] at hr
    exact h.filed k r hr
  · intro t
    by_cases ht : t = .stock
    · subst ht
      rw [rows_setRows_self, rows_setRows_self]
      exact hcov.2
    · rw [rows_setRows_of_ne _ _ ht, rows_setRows_of_ne _ _ ht]
      exact h.tables t
  · intro t k hk r hr
    have ht : t ≠ .stock := by
      rintro rfl
      rw [hins] at hk
      cases hk
    rw [rows_setRows_of_ne _ _ ht] at hr
    exact h.keyed t k hk r hr
  · exact h.index.setRows (t := .stock) _ fun ht => by cases ht

end Dsnet.TPCC
