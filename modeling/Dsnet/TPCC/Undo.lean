import Dsnet.TPCC.Recorded

/-! `applyUndo` gives back the tables that a transaction found. Each entry that is taken back leaves a
    buffer without it, for which `Recorded` holds again; a buffer with no entries left means that the
    tables are those from before. -/

namespace Dsnet.TPCC
variable {F : Type} {plan : Plan} {db₀ db : DBImpl F} {u : TPCCUndo F} {t : Table} {p : Int}

/-- The plan without what is known of single rows and locks. -/
def Plan.bare (plan : Plan) : Plan := { use := plan.use, held := ∅, kept := ∅, mayKeep := Set.univ }

theorem Recorded.bare (h : Recorded plan db₀ u db) : Recorded plan.bare db₀ u db :=
  { h with
    held := fun _ hx => hx.elim
    kept := fun _ hk => hk.elim
    mayKeep := fun _ _ => trivial }

/-- The buffer with other copies of the rows of a table. -/
def TPCCUndo.withModified (u : TPCCUndo F) (t : Table) (m : StdMap Int (Row F t)) : TPCCUndo F :=
  { u with modified := Function.update u.modified t m }

theorem modified_withModified_self (u : TPCCUndo F) (t : Table) (m : StdMap Int (Row F t)) :
    (u.withModified t m).modified t = m := Function.update_self ..

theorem modified_withModified_of_ne (u : TPCCUndo F) {t t' : Table} (m : StdMap Int (Row F t)) (h : t' ≠ t) :
    (u.withModified t m).modified t' = u.modified t' := Function.update_of_ne h ..

theorem journal_withModified_self (u : TPCCUndo F) (t : Table) (m : StdMap Int (Row F t)) :
    (u.withModified t m).journal t = { u.journal t with saved := m } := by
  rw [TPCCUndo.journal, modified_withModified_self]
  cases t <;> rfl

theorem journal_withModified_of_ne (u : TPCCUndo F) {t t' : Table} (m : StdMap Int (Row F t)) (h : t' ≠ t) :
    (u.withModified t m).journal t' = u.journal t' := by
  rw [TPCCUndo.journal, modified_withModified_of_ne _ _ h]
  cases t' <;> rfl

/-! ### Copies -/

/-- A copy is put back. -/
theorem Recorded.restore {row : Row F t} (h : Recorded plan.bare db₀ u db)
    (hrow : (u.modified t).find? p = some row) :
    ((db.rows t).find? p).isSome ∧
    Recorded plan.bare db₀ (u.withModified t ((u.modified t).erase p))
      (db.setRows t ((db.rows t).insert p row)) := by
  have hins := h.not_inserted (by rw [hrow]; rfl)
  obtain ⟨hbound, hcov⟩ := (h.tables t).restore hrow
  refine ⟨hbound, { h with
    locks := h.locks.setRows _, held := fun _ hx => hx.elim, tables := ?_, use := ?_, keyed := ?_
    kept := fun _ hk => hk.elim, mayKeep := fun _ _ => trivial
    index := h.index.setRows _ fun ht => ht ▸ hins }⟩
  · intro t'
    by_cases ht : t' = t
    · subst ht
      rw [journal_withModified_self, rows_setRows_self]
      exact hcov
    · rw [journal_withModified_of_ne _ _ ht, rows_setRows_of_ne _ _ ht]
      exact h.tables t'
  · intro t'
    by_cases ht : t' = t
    · subst ht
      rw [journal_withModified_self]
      cases hu : plan.bare.use t' with
      | saves => exact h.saves hu
      | inserts =>
        rw [(h.inserts hu).1] at hrow
        cases hrow
      | deletes =>
        rw [(h.deletes hu).1] at hrow
        cases hrow
    · rw [journal_withModified_of_ne _ _ ht]
      exact h.use t'
  · intro t' k hk r hr
    have ht : t' ≠ t := by
      rintro rfl
      have hk : k ∈ u.inserted t' := hk
      rw [hins] at hk
      cases hk
    rw [rows_setRows_of_ne _ _ ht] at hr
    exact h.keyed t' k hk r hr

/-- And so are all copies of the rows of a table. -/
theorem Recorded.restoreAll : ∀ {l : List (Int × Row F t)} {u : TPCCUndo F} {db : DBImpl F},
    Recorded plan.bare db₀ u db → (u.modified t).toList = l →
    ∃ db', l.foldlM (fun db x =>
        if ((db.rows t).find? x.1).isSome then some (db.setRows t ((db.rows t).insert x.1 x.2)) else none) db =
        some db' ∧
      Recorded plan.bare db₀ (u.withModified t StdMap.empty) db'
  | [], u, db, h, hl => by
      have hempty : u.modified t = StdMap.empty := StdMap.eq_empty hl
      have hself : u.withModified t StdMap.empty = u := by
        rw [TPCCUndo.withModified, ← hempty, Function.update_eq_self]
      exact ⟨db, rfl, hself.symm ▸ h⟩
  | x :: xs, u, db, h, hl => by
      have hrow : (u.modified t).find? x.1 = some x.2 := StdMap.find?_of_mem (hl ▸ List.mem_cons_self)
      obtain ⟨hbound, h'⟩ := h.restore hrow
      obtain ⟨db', hdb, h''⟩ := h'.restoreAll (l := xs) (by
        rw [modified_withModified_self]
        exact StdMap.toList_erase_head hl)
      refine ⟨db', ?_, ?_⟩
      · rw [List.foldlM_cons, if_pos hbound]
        exact hdb
      · rwa [TPCCUndo.withModified, TPCCUndo.withModified, Function.update_idem] at h''

theorem Recorded.restoreFromMap {v : TPCCUndo F} (h : Recorded plan.bare db₀ u db)
    (hv : v.modified t = u.modified t) :
    ∃ db', TPCC.restoreFromMap v db t = some db' ∧
      Recorded plan.bare db₀ (u.withModified t StdMap.empty) db' := by
  rw [TPCC.restoreFromMap, hv]
  exact h.restoreAll rfl

/-- The buffer without the copies of rows of these tables. -/
def TPCCUndo.restored (u : TPCCUndo F) (ts : List Table) : TPCCUndo F :=
  { u with modified := fun t => if t ∈ ts then StdMap.empty else u.modified t }

/-- And all copies. -/
theorem Recorded.restoreTables : ∀ {ts : List Table} {u : TPCCUndo F} {db : DBImpl F} {v : TPCCUndo F},
    ts.Nodup → Recorded plan.bare db₀ u db → (∀ t ∈ ts, v.modified t = u.modified t) →
    ∃ db', ts.foldlM (TPCC.restoreFromMap v) db = some db' ∧ Recorded plan.bare db₀ (u.restored ts) db'
  | [], u, db, v, _, h, _ => ⟨db, rfl, h⟩
  | t :: ts, u, db, v, hnodup, h, hv => by
      obtain ⟨hnot, hnodup⟩ := List.nodup_cons.mp hnodup
      obtain ⟨db₁, h₁, hrec⟩ := h.restoreFromMap (hv t List.mem_cons_self)
      obtain ⟨db₂, h₂, hrec⟩ := hrec.restoreTables (v := v) hnodup fun t' ht' => by
        rw [modified_withModified_of_ne _ _ (ne_of_mem_of_not_mem ht' hnot)]
        exact hv t' (List.mem_cons_of_mem _ ht')
      refine ⟨db₂, ?_, ?_⟩
      · rw [List.foldlM_cons, h₁]
        exact h₂
      · have heq : (u.withModified t StdMap.empty).restored ts = u.restored (t :: ts) := by
          simp only [TPCCUndo.restored, TPCCUndo.withModified]
          congr 1
          funext t'
          by_cases ht : t' = t
          · subst ht
            simp [hnot]
          · simp [ht]
        exact heq ▸ hrec

/-! ### Inserted rows -/

/-- The buffer with other inserted rows of a table. -/
def TPCCUndo.setInserted (u : TPCCUndo F) (t : Table) (ks : List Int) : TPCCUndo F :=
  { u with inserted := Function.update u.inserted t ks }

theorem inserted_setInserted_self (u : TPCCUndo F) (t : Table) (ks : List Int) :
    (u.setInserted t ks).inserted t = ks := Function.update_self ..

theorem inserted_setInserted_of_ne (u : TPCCUndo F) {t t' : Table} (ks : List Int) (h : t' ≠ t) :
    (u.setInserted t ks).inserted t' = u.inserted t' := Function.update_of_ne h ..

theorem journal_setInserted_self (u : TPCCUndo F) (t : Table) (ks : List Int) :
    (u.setInserted t ks).journal t = { u.journal t with inserted := ks } := by
  rw [TPCCUndo.journal, inserted_setInserted_self]
  cases t <;> rfl

theorem journal_setInserted_of_ne (u : TPCCUndo F) {t t' : Table} (ks : List Int) (h : t' ≠ t) :
    (u.setInserted t ks).journal t' = u.journal t' := by
  rw [TPCCUndo.journal, inserted_setInserted_of_ne _ _ h]
  cases t' <;> rfl

theorem setInserted_setInserted (u : TPCCUndo F) (t : Table) (ks ks' : List Int) :
    (u.setInserted t ks).setInserted t ks' = u.setInserted t ks' := by
  simp [TPCCUndo.setInserted]

theorem setInserted_self {ks : List Int} (h : u.inserted t = ks) : u.setInserted t ks = u := by
  rw [TPCCUndo.setInserted, ← h, Function.update_eq_self]

/-- A row that was inserted is erased, with what becomes of the index. -/
theorem Recorded.erase {ks : List Int} {index : StdMap Int Int} (h : Recorded plan.bare db₀ u db)
    (hp : u.inserted t = p :: ks)
    (hindex : IndexSince db₀ (u.setInserted t ks)
      { db.setRows t ((db.rows t).erase p) with ordersByCustomer := index }) :
    ∃ row, (db.rows t).find? p = some row ∧ DBImpl.erase t db p = some (db.setRows t ((db.rows t).erase p)) ∧
      Recorded plan.bare db₀ (u.setInserted t ks)
        { db.setRows t ((db.rows t).erase p) with ordersByCustomer := index } := by
  have hbound := ((h.tables t).inserted p (by rw [TPCCUndo.journal, hp]; exact List.mem_cons_self)).1
  obtain ⟨row, hrow⟩ := Option.isSome_iff_exists.mp hbound
  have hkey := h.keyed t p (hp ▸ List.mem_cons_self) row hrow
  refine ⟨row, hrow, ?_, { h with
    locks := h.locks.congr rfl rfl rfl, held := fun _ hx => hx.elim, tables := ?_, use := ?_, keyed := ?_
    kept := fun _ hk => hk.elim, mayKeep := fun _ _ => trivial, index := hindex }⟩
  · rw [DBImpl.erase, hrow]
    simp only [Option.bind_eq_bind, Option.bind_some, hkey, if_pos]
  · intro t'
    by_cases ht : t' = t
    · subst ht
      rw [journal_setInserted_self]
      exact (rows_setRows_self db t' _).symm ▸ (h.tables t').uninsert hp
    · rw [journal_setInserted_of_ne _ _ ht]
      exact (rows_setRows_of_ne db _ ht).symm ▸ h.tables t'
  · intro t'
    by_cases ht : t' = t
    · subst ht
      rw [journal_setInserted_self]
      cases hu : plan.bare.use t' with
      | saves =>
        rw [(h.saves hu).1] at hp
        cases hp
      | inserts => exact h.inserts hu
      | deletes =>
        rw [(h.deletes hu).2] at hp
        cases hp
    · rw [journal_setInserted_of_ne _ _ ht]
      exact h.use t'
  · intro t' k hk r hr
    by_cases ht : t' = t
    · subst ht
      rw [inserted_setInserted_self] at hk
      have hr : ((db.rows t').erase p).find? k = some r := by
        rwa [← rows_setRows_self db t' ((db.rows t').erase p)]
      rw [StdMap.find?_erase] at hr
      split_ifs at hr
      exact h.keyed t' k (hp ▸ List.mem_cons_of_mem _ hk) r hr
    · rw [inserted_setInserted_of_ne _ _ ht] at hk
      exact h.keyed t' k hk r (rows_setRows_of_ne db _ ht ▸ hr)

/-- The inserted rows of a table that has no index are erased. -/
theorem Recorded.eraseAll (ht : t ≠ .order) : ∀ {ks : List Int} {u : TPCCUndo F} {db : DBImpl F},
    Recorded plan.bare db₀ u db → u.inserted t = ks →
    ∃ db', ks.foldlM (DBImpl.erase t) db = some db' ∧ Recorded plan.bare db₀ (u.setInserted t []) db'
  | [], u, db, h, hks => ⟨db, rfl, (setInserted_self hks).symm ▸ h⟩
  | p :: ks, u, db, h, hks => by
      have hindex : IndexSince db₀ (u.setInserted t ks) (db.setRows t ((db.rows t).erase p)) := by
        obtain ⟨js, hjs, hcov⟩ := h.index
        refine ⟨js, ?_, hcov⟩
        rw [inserted_setInserted_of_ne _ _ ht.symm, rows_setRows_of_ne _ _ ht.symm]
        exact hjs
      obtain ⟨_, _, herase, hrec⟩ := h.erase hks hindex
      obtain ⟨db', hdb, hrec⟩ := Recorded.eraseAll ht hrec (inserted_setInserted_self ..)
      refine ⟨db', ?_, setInserted_setInserted u t ks [] ▸ hrec⟩
      rw [List.foldlM_cons, herase]
      exact hdb

theorem forall₂_imp_of_mem {α β : Type} {R S : α → β → Prop} :
    ∀ {l : List α} {l' : List β}, List.Forall₂ R l l' → (∀ a ∈ l, ∀ b ∈ l', R a b → S a b) → List.Forall₂ S l l'
  | _, _, .nil, _ => .nil
  | _, _, .cons h hl, hs =>
      .cons (hs _ List.mem_cons_self _ List.mem_cons_self h)
        (forall₂_imp_of_mem hl fun a ha b hb => hs a (List.mem_cons_of_mem _ ha) b (List.mem_cons_of_mem _ hb))

/-- The inserted orders are erased. -/
theorem Recorded.eraseOrders : ∀ {ks : List Int} {u : TPCCUndo F} {db : DBImpl F},
    Recorded plan.bare db₀ u db → u.inserted .order = ks →
    ∃ db', ks.foldlM DBImpl.eraseOrder db = some db' ∧ Recorded plan.bare db₀ (u.setInserted .order []) db'
  | [], u, db, h, hks => ⟨db, rfl, (setInserted_self hks).symm ▸ h⟩
  | p :: ks, u, db, h, hks => by
      obtain ⟨js, hjs, hcov⟩ := h.index
      rw [hks] at hjs
      obtain ⟨j, js', ⟨o, ho, hj, hjp⟩, hjs', rfl⟩ := List.forall₂_cons_left_iff.mp hjs
      have hnodup := (h.tables .order).nodup
      rw [TPCCUndo.journal, hks] at hnodup
      have hnot : p ∉ ks := (List.nodup_cons.mp hnodup).1
      have hnotj : j ∉ js' := (List.nodup_cons.mp hcov.nodup).1
      have hindex : IndexSince db₀ (u.setInserted .order ks)
          { db.setRows .order ((db.rows .order).erase p) with ordersByCustomer := db.ordersByCustomer.erase j } := by
        refine ⟨js', ?_, hcov.uninsert rfl⟩
        rw [inserted_setInserted_self]
        refine forall₂_imp_of_mem hjs' fun k hk i hi hki => ?_
        obtain ⟨o', ho', hi', hki⟩ := hki
        refine ⟨o', ?_, hi', ?_⟩
        · rw [rows_setRows_self db .order ((db.rows .order).erase p), StdMap.find?_erase, if_neg (ne_of_mem_of_not_mem hk hnot)]
          exact ho'
        · rw [StdMap.find?_erase, if_neg (ne_of_mem_of_not_mem hi hnotj)]
          exact hki
      obtain ⟨_, _, herase, hrec⟩ := h.erase hks hindex
      obtain ⟨db', hdb, hrec⟩ := Recorded.eraseOrders hrec (inserted_setInserted_self ..)
      refine ⟨db', ?_, setInserted_setInserted u .order ks [] ▸ hrec⟩
      have hstep : DBImpl.eraseOrder db p =
          some { db.setRows .order ((db.rows .order).erase p) with
            ordersByCustomer := db.ordersByCustomer.erase j } := by
        rw [DBImpl.eraseOrder, ho]
        simp only [Option.bind_eq_bind, Option.bind_some, herase, hj]
        exact if_pos hjp
      rw [List.foldlM_cons, hstep]
      exact hdb

/-! ### The history -/

/-- The last element in place of another one. -/
theorem dropLast_set_perm {α : Type} {l : List α} {i : Nat} {a : α} (hi : i < l.length)
    (ha : l.getLast? = some a) : (l.set i a).dropLast.Perm (l.eraseIdx i) := by
  obtain ⟨l', rfl⟩ := List.getLast?_eq_some_iff.mp ha
  rw [List.length_append, List.length_singleton] at hi
  by_cases hlt : i < l'.length
  · rw [List.set_append_left _ _ hlt, List.dropLast_concat, List.eraseIdx_append_of_lt_length hlt]
    exact (List.set_perm_cons_eraseIdx hlt a).trans (List.perm_append_singleton _ _).symm
  · obtain rfl : i = l'.length := by omega
    rw [List.set_append_right _ _ (le_refl _), List.eraseIdx_append_of_length_le (le_refl _)]
    simp

/-- What `eraseHistory` erases, if only one row has the address. -/
theorem eraseHistory_perm {db : DBImpl F} {p : Nat} {x : Nat × History F} {rest : List (Nat × History F)}
    (hperm : db.history.Perm (x :: rest)) (hx : x.1 = p) (hrest : ∀ y ∈ rest, y.1 ≠ p) :
    ∃ history, db.eraseHistory p = some { db with history := history } ∧ history.Perm rest := by
  have hmem : x ∈ db.history.reverse := List.mem_reverse.mpr (hperm.mem_iff.mpr List.mem_cons_self)
  have hfound : (db.history.reverse.findIdx? fun h => decide (h.1 = p)).isSome = true := by
    rw [List.findIdx?_isSome, List.any_eq_true]
    exact ⟨x, hmem, by simp [hx]⟩
  obtain ⟨back, hback⟩ := Option.isSome_iff_exists.mp hfound
  obtain ⟨hlt, hid, _⟩ := List.findIdx?_eq_some_iff_getElem.mp hback
  rw [List.length_reverse] at hlt
  have hi : db.history.length - 1 - back < db.history.length := by omega
  have hat : db.history[db.history.length - 1 - back] = x := by
    rw [List.getElem_reverse] at hid
    have hid : (db.history[db.history.length - 1 - back]).1 = p := by simpa using hid
    rcases List.mem_cons.mp (hperm.mem_iff.mp (List.getElem_mem hi)) with h | h
    · exact h
    · exact absurd hid (hrest _ h)
  obtain ⟨last, hlast⟩ : ∃ last, db.history.getLast? = some last := by
    cases hl : db.history.getLast? with
    | none =>
      rw [List.getLast?_eq_none_iff] at hl
      simp [hl] at hlt
    | some last => exact ⟨last, rfl⟩
  refine ⟨(db.history.set (db.history.length - 1 - back) last).dropLast, ?_, ?_⟩
  · rw [DBImpl.eraseHistory, hback, hlast]
    rfl
  · refine (dropLast_set_perm hi hlast).trans (List.Perm.cons_inv (a := x) ?_)
    refine List.Perm.trans ?_ hperm
    have hcons := List.getElem_cons_eraseIdx_perm hi
    rwa [hat] at hcons

/-- The inserted rows of the history are erased. -/
theorem Recorded.eraseHistory : ∀ {ps : List Nat} {u : TPCCUndo F} {db : DBImpl F},
    Recorded plan.bare db₀ u db → u.insertedHistory = ps →
    ∃ db', ps.foldlM DBImpl.eraseHistory db = some db' ∧
      Recorded plan.bare db₀ { u with insertedHistory := [] } db'
  | [], u, db, h, hps => ⟨db, rfl, by rw [← hps]; exact h⟩
  | p :: ps, u, db, h, hps => by
      obtain ⟨new, hperm, hids, hnodup, hold⟩ := h.history
      rw [hps] at hids hnodup hold
      obtain ⟨hnot, hnodup⟩ := List.nodup_cons.mp hnodup
      obtain ⟨x, new, rfl⟩ : ∃ x new', new = x :: new' := by
        cases new with
        | nil => cases hids
        | cons x new => exact ⟨x, new, rfl⟩
      obtain ⟨hx, hids'⟩ := List.cons.inj hids
      obtain ⟨history, herase, hperm⟩ := eraseHistory_perm (p := p) hperm hx fun y hy => by
        rcases List.mem_append.mp hy with hy | hy
        · rintro rfl
          exact hnot (hids' ▸ List.mem_map_of_mem hy)
        · rintro rfl
          exact hold y hy List.mem_cons_self
      have hrec : Recorded plan.bare db₀ { u with insertedHistory := ps } { db with history := history } :=
        { h with
          locks := h.locks.congr rfl rfl rfl
          tables := fun t => h.tables t
          use := fun t => h.use t
          history := ⟨new, hperm, hids', hnodup, fun y hy hm => hold y hy (List.mem_cons_of_mem _ hm)⟩ }
      obtain ⟨db', hdb, hrec⟩ := Recorded.eraseHistory hrec rfl
      refine ⟨db', ?_, hrec⟩
      rw [List.foldlM_cons, herase]
      exact hdb

/-! ### Deleted rows -/

/-- The deleted rows are put back. -/
theorem Recorded.undeleteAll : ∀ {l : List (Int × NewOrder)} {u : TPCCUndo F} {db : DBImpl F},
    Recorded plan.bare db₀ u db → u.deletedNewOrders.toList = l →
    ∃ db', (l.map Prod.snd).foldlM DBImpl.insertNewOrderObject db = some db' ∧
      Recorded plan.bare db₀ { u with deletedNewOrders := StdMap.empty } db'
  | [], u, db, h, hl => ⟨db, rfl, by rw [← StdMap.eq_empty hl]; exact h⟩
  | x :: xs, u, db, h, hl => by
      have hrow : u.deletedNewOrders.find? x.1 = some x.2 := StdMap.find?_of_mem (hl ▸ List.mem_cons_self)
      have hu : plan.bare.use .newOrder = .deletes := by
        cases hu : plan.bare.use .newOrder with
        | saves =>
          have hdel : u.deletedNewOrders = StdMap.empty := (h.saves hu).2
          rw [hdel] at hrow
          cases hrow
        | inserts =>
          have hdel : u.deletedNewOrders = StdMap.empty := (h.inserts hu).2
          rw [hdel] at hrow
          cases hrow
        | deletes => rfl
      obtain ⟨hsaved, hins⟩ := h.deletes hu
      have hkey : makeNewOrderKey x.2.wId x.2.dId x.2.oId = some x.1 := by
        refine h.filed x.1 x.2 ?_
        have hdel : (u.journal .newOrder).deleted.find? x.1 = some x.2 := hrow
        rw [(h.tables .newOrder).before, Journal.before, hdel]
      obtain ⟨hfree, hcov⟩ := (h.tables .newOrder).undelete hrow (by rw [TPCCUndo.journal, hins]; exact List.not_mem_nil)
        (by rw [TPCCUndo.journal, hsaved]; rfl)
      have hother : ∀ t, t ≠ .newOrder →
          TPCCUndo.journal { u with deletedNewOrders := u.deletedNewOrders.erase x.1 } t = u.journal t := by
        intro t ht
        cases t <;> first | rfl | exact absurd rfl ht
      have hrec : Recorded plan.bare db₀ { u with deletedNewOrders := u.deletedNewOrders.erase x.1 }
          (db.setRows .newOrder ((db.rows .newOrder).insert x.1 x.2)) := by
        refine { h with
          locks := h.locks.setRows _, held := fun _ hx => hx.elim, tables := ?_, use := ?_, keyed := ?_
          index := h.index.setRows (t := .newOrder) _ fun ht => by cases ht }
        · intro t
          by_cases ht : t = .newOrder
          · subst ht
            rw [rows_setRows_self]
            exact hcov
          · rw [rows_setRows_of_ne _ _ ht, hother t ht]
            exact h.tables t
        · intro t
          by_cases ht : t = .newOrder
          · subst ht
            rw [hu]
            exact ⟨hsaved, hins⟩
          · rw [hother t ht]
            exact h.use t
        · intro t k hk r hr
          have ht : t ≠ .newOrder := by
            rintro rfl
            have hk : k ∈ u.inserted .newOrder := hk
            rw [hins] at hk
            cases hk
          rw [rows_setRows_of_ne _ _ ht] at hr
          exact h.keyed t k hk r hr
      obtain ⟨db', hdb, hrec⟩ := Recorded.undeleteAll hrec (StdMap.toList_erase_head hl)
      refine ⟨db', ?_, hrec⟩
      rw [List.map_cons, List.foldlM_cons, DBImpl.insertNewOrderObject, hkey]
      simp only [Option.bind_eq_bind, Option.bind_some, if_pos hfree]
      exact hdb

/-! ### The whole buffer -/

/-- The tables are the same, the history in some order. -/
structure SameTables (db₀ db : DBImpl F) : Prop where
  items : db.items = db₀.items
  rows : ∀ t, db.rows t = db₀.rows t
  customersByName : db.customersByName = db₀.customersByName
  ordersByCustomer : db.ordersByCustomer = db₀.ordersByCustomer
  history : db.history.Perm db₀.history

/-- A row whose table has no key in its ids was not inserted. -/
theorem Recorded.not_keyed (h : Recorded plan db₀ u db) (ht : ∀ row : Row F t, Row.key t row = none) :
    u.inserted t = [] := by
  cases hins : u.inserted t with
  | nil => rfl
  | cons k ks =>
    have hbound := ((h.tables t).inserted k (by rw [TPCCUndo.journal, hins]; exact List.mem_cons_self)).1
    obtain ⟨row, hrow⟩ := Option.isSome_iff_exists.mp hbound
    have := h.keyed t k (hins ▸ List.mem_cons_self) row hrow
    rw [ht row] at this
    cases this

/-- With an empty buffer the tables are as they were. -/
theorem Recorded.same (h : Recorded plan db₀ u db) (hmod : ∀ t, u.modified t = StdMap.empty)
    (hins : ∀ t, u.inserted t = []) (hhist : u.insertedHistory = [])
    (hdel : u.deletedNewOrders = StdMap.empty) : SameTables db₀ db := by
  refine ⟨h.items, fun t => ?_, h.names, ?_, ?_⟩
  · refine Journal.Covers.eq_of_empty ?_
    have hj : u.journal t = Journal.empty := by
      rw [TPCCUndo.journal, hmod, hins]
      cases t <;> simp [Journal.empty, TPCCUndo.deletedRows, hdel]
    exact hj ▸ h.tables t
  · obtain ⟨js, hjs, hcov⟩ := h.index
    rw [hins] at hjs
    cases hjs
    exact hcov.eq_of_empty
  · obtain ⟨new, hperm, hids, _, _⟩ := h.history
    rw [hhist, List.map_eq_nil_iff] at hids
    rwa [hids] at hperm

/-- Of undelivered orders there are no copies. -/
theorem Recorded.modified_newOrder (h : Recorded plan db₀ u db) (hplan : plan.use .newOrder ≠ .saves) :
    u.modified .newOrder = StdMap.empty := by
  cases hu : plan.use .newOrder with
  | saves => exact absurd hu hplan
  | inserts => exact (h.inserts hu).1
  | deletes => exact (h.deletes hu).1

/-- `applyUndo` gives back the tables as they were before, and leaves the locks. -/
theorem Recorded.applyUndo (h : Recorded plan db₀ u db) (hplan : plan.use .newOrder ≠ .saves) :
    ∃ db', db.applyUndo u = some db' ∧ SameTables db₀ db' ∧ LocksOf db₀ db' := by
  have hnone : ∀ t, t ≠ .order → t ≠ .orderLine → t ≠ .newOrder → u.inserted t = [] := by
    intro t h1 h2 h3
    refine h.not_keyed fun row => ?_
    cases t <;> first | rfl | contradiction
  let ts : List Table := [.warehouse, .district, .customer, .stock, .order, .orderLine]
  obtain ⟨db₁, h₁, r₁⟩ := h.bare.restoreTables (show ts.Nodup by decide) fun t _ => rfl
  obtain ⟨db₂, h₂, r₂⟩ := r₁.eraseOrders rfl
  obtain ⟨db₃, h₃, r₃⟩ := Recorded.eraseAll (t := .orderLine) (by decide) r₂ rfl
  obtain ⟨db₄, h₄, r₄⟩ := Recorded.eraseAll (t := .newOrder) (by decide) r₃ rfl
  obtain ⟨db₅, h₅, r₅⟩ := r₄.eraseHistory rfl
  obtain ⟨db₆, h₆, r₆⟩ := r₅.undeleteAll rfl
  refine ⟨db₆, ?_, r₆.same (fun t => ?_) (fun t => ?_) rfl rfl, r₆.locks⟩
  · rw [DBImpl.applyUndo]
    exact Option.bind_eq_some_iff.mpr ⟨db₁, h₁, Option.bind_eq_some_iff.mpr ⟨db₂, h₂,
      Option.bind_eq_some_iff.mpr ⟨db₃, h₃, Option.bind_eq_some_iff.mpr ⟨db₄, h₄,
        Option.bind_eq_some_iff.mpr ⟨db₅, h₅, h₆⟩⟩⟩⟩⟩
  · show (if t ∈ ts then StdMap.empty else u.modified t) = StdMap.empty
    split_ifs with ht
    · rfl
    · obtain rfl : t = .newOrder := by
        cases t <;> first | rfl | exact absurd (by decide) ht
      exact h.modified_newOrder hplan
  · cases t <;> first | rfl | exact hnone _ (by decide) (by decide) (by decide)

end Dsnet.TPCC
