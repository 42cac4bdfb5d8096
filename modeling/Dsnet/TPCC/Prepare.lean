import Dsnet.TPCC.Units

/-! A PREPARE that is blocked leaves the tables and locks as they were, and so does one that succeeds with
    the ABORT that follows it, unless it has ordered from a further warehouse of its partition. That is so
    in every state that the calls of `InvokeTransaction` lead to in locking mode, from any tables. -/

namespace Dsnet.TPCC
open Attempt Transaction
variable {F : Type} {db₀ db db' : DBImpl F} {unit : WorkUnit F}

/-- The tables, with the history in some order, and the locks are the same. -/
structure Same (db₀ db : DBImpl F) : Prop extends SameTables db₀ db where
  lockTable : db.lockTable = db₀.lockTable
  tidLocks : db.tidLocks = db₀.tidLocks

/-- The tables as they are loaded: no transaction has run on them. -/
structure Loaded (db : DBImpl F) : Prop where
  filed : db.Filed
  lockTable : db.lockTable = fun _ => none
  tidLocks : db.tidLocks = StdMap.empty

/-- The states that calls lead to, in locking mode. -/
inductive Reachable [Amount F] : TPCCTxnServer F → Prop
  | start {db : DBImpl F} (h : Loaded db) : Reachable ⟨true, db, StdMap.empty⟩
  | call {s s' : TPCCTxnServer F} {unit : WorkUnit F} {arg : TxnArg} {ret : TxnRet} {answer : Answer F} :
      Reachable s → s.invokeTransaction unit arg ret = some (answer, s') → Reachable s'

/-- Only prepared transactions have locks. -/
structure WellFormed (s : TPCCTxnServer F) : Prop where
  locking : s.locking = true
  filed : s.db.Filed
  prepared : ∀ id, s.transactions.find? id = none → s.db.tidLocks.find? id = none

/-! ### Undelivered orders and entries of locks -/

/-- The undelivered orders stay under their keys. -/
theorem Recorded.filed_now {plan : Plan} {u : TPCCUndo F} (h : Recorded plan db₀ u db)
    (hplan : plan.use .newOrder ≠ .saves) : db.Filed := by
  intro k row hrow
  by_cases hi : k ∈ u.inserted .newOrder
  · exact h.keyed .newOrder k hi row hrow
  · have hsaved := h.modified_newOrder hplan
    have hd := (h.tables .newOrder).not_deleted hrow
    refine h.filed k row ?_
    rw [(h.tables .newOrder).before, Journal.before, hd, TPCCUndo.journal, if_neg hi, hsaved]
    exact hrow

/-- What a loop over an undo buffer keeps. -/
theorem foldlM_keeps {α : Type} {f : DBImpl F → α → Option (DBImpl F)} {I : DBImpl F → Prop} :
    ∀ {l : List α} {db db' : DBImpl F}, (∀ a ∈ l, ∀ db db', I db → f db a = some db' → I db') → I db →
      l.foldlM f db = some db' → I db'
  | [], _, _, _, hI, h => Option.some.inj h ▸ hI
  | a :: l, db, db', hf, hI, h => by
      rw [List.foldlM_cons] at h
      obtain ⟨db₁, h₁, h⟩ := Option.bind_eq_some_iff.mp h
      exact foldlM_keeps (fun b hb => hf b (List.mem_cons_of_mem _ hb)) (hf a List.mem_cons_self db db₁ hI h₁) h

/-- The undelivered orders are under their keys, and these are the entries of locks. -/
def FiledWith (entries : StdMap Int (List Tuple)) (db : DBImpl F) : Prop := db.Filed ∧ db.tidLocks = entries

section
variable {entries : StdMap Int (List Tuple)} {t : Table} {p : Int}

theorem FiledWith.setRows (h : FiledWith entries db) (m : StdMap Int (Row F t))
    (hm : t = .newOrder → ∀ k row, m.find? k = some row → Row.key t row = some k) :
    FiledWith entries (db.setRows t m) := by
  refine ⟨fun k row hrow => ?_, h.2⟩
  by_cases ht : t = .newOrder
  · subst ht
    rw [rows_setRows_self] at hrow
    exact hm rfl k row hrow
  · rw [rows_setRows_of_ne _ _ (Ne.symm ht)] at hrow
    exact h.1 k row hrow

theorem FiledWith.erase (h : FiledWith entries db) (he : DBImpl.erase t db p = some db') :
    FiledWith entries db' := by
  rw [DBImpl.erase] at he
  obtain ⟨row, _, he⟩ := Option.bind_eq_some_iff.mp he
  obtain ⟨key, _, he⟩ := Option.bind_eq_some_iff.mp he
  split_ifs at he
  obtain rfl := Option.some.inj he
  refine h.setRows _ fun ht k row hrow => ?_
  subst ht
  rw [StdMap.find?_erase] at hrow
  split_ifs at hrow
  exact h.1 k row hrow

theorem FiledWith.eraseOrder (h : FiledWith entries db) (he : db.eraseOrder p = some db') :
    FiledWith entries db' := by
  rw [DBImpl.eraseOrder] at he
  obtain ⟨order, _, he⟩ := Option.bind_eq_some_iff.mp he
  obtain ⟨db₁, he₁, he⟩ := Option.bind_eq_some_iff.mp he
  obtain ⟨j, _, he⟩ := Option.bind_eq_some_iff.mp he
  split_ifs at he
  obtain rfl := Option.some.inj he
  have h₁ : FiledWith entries db₁ := h.erase he₁
  exact ⟨h₁.1, h₁.2⟩

theorem FiledWith.eraseHistory {p : Nat} (h : FiledWith entries db) (he : db.eraseHistory p = some db') :
    FiledWith entries db' := by
  rw [DBImpl.eraseHistory] at he
  obtain ⟨back, _, he⟩ := Option.bind_eq_some_iff.mp he
  obtain ⟨last, _, he⟩ := Option.bind_eq_some_iff.mp he
  obtain rfl := Option.some.inj he
  exact h

theorem FiledWith.insertNewOrderObject {row : NewOrder} (h : FiledWith entries db)
    (he : db.insertNewOrderObject row = some db') : FiledWith entries db' := by
  rw [DBImpl.insertNewOrderObject] at he
  obtain ⟨key, hkey, he⟩ := Option.bind_eq_some_iff.mp he
  split_ifs at he
  obtain rfl := Option.some.inj he
  refine h.setRows (t := .newOrder) _ fun _ k r hr => ?_
  rw [StdMap.find?_insert] at hr
  split_ifs at hr with hk
  · rw [← Option.some.inj hr, hk]
    exact hkey
  · exact h.1 k r hr

theorem FiledWith.restoreFromMap {u : TPCCUndo F} (h : FiledWith entries db) (ht : t ≠ .newOrder)
    (he : restoreFromMap u db t = some db') : FiledWith entries db' := by
  refine foldlM_keeps (fun x _ db db' hdb he => ?_) h he
  split_ifs at he
  obtain rfl := Option.some.inj he
  exact hdb.setRows _ fun hn => absurd hn ht

/-- `applyUndo` leaves the entries of locks, and undelivered orders under their keys. -/
theorem FiledWith.applyUndo {u : TPCCUndo F} (h : FiledWith entries db) (he : db.applyUndo u = some db') :
    FiledWith entries db' := by
  rw [DBImpl.applyUndo] at he
  obtain ⟨db₁, h₁, he⟩ := Option.bind_eq_some_iff.mp he
  obtain ⟨db₂, h₂, he⟩ := Option.bind_eq_some_iff.mp he
  obtain ⟨db₃, h₃, he⟩ := Option.bind_eq_some_iff.mp he
  obtain ⟨db₄, h₄, he⟩ := Option.bind_eq_some_iff.mp he
  obtain ⟨db₅, h₅, he⟩ := Option.bind_eq_some_iff.mp he
  have r₁ := foldlM_keeps (fun t ht _ _ hdb h => FiledWith.restoreFromMap hdb (by rintro rfl; simp at ht) h) h h₁
  have r₂ := foldlM_keeps (fun _ _ _ _ hdb h => FiledWith.eraseOrder hdb h) r₁ h₂
  have r₃ := foldlM_keeps (fun _ _ _ _ hdb h => FiledWith.erase hdb h) r₂ h₃
  have r₄ := foldlM_keeps (fun _ _ _ _ hdb h => FiledWith.erase hdb h) r₃ h₄
  have r₅ := foldlM_keeps (fun _ _ _ _ hdb h => FiledWith.eraseHistory hdb h) r₄ h₅
  exact foldlM_keeps (fun _ _ _ _ hdb h => FiledWith.insertNewOrderObject hdb h) r₅ he

theorem FiledWith.endTransaction {id : Int} (h : FiledWith entries db) (he : db.endTransaction id = some db') :
    FiledWith (entries.erase id) db' := by
  rw [DBImpl.endTransaction] at he
  split_ifs at he
  obtain ⟨own, _, he⟩ := Option.bind_eq_some_iff.mp he
  obtain ⟨locks, _, he⟩ := Option.bind_eq_some_iff.mp he
  obtain rfl := Option.some.inj he
  exact ⟨h.1, congrArg (StdMap.erase · id) h.2⟩

end

/-! ### One unit -/

/-- What `handle` has done when it returns. -/
def Handled (db₀ : DBImpl F) (unit : WorkUnit F) : Option (Option (Result F)) → Run F → Prop
  | some _, s => Done db₀ unit s
  | none, s => s.undo = none ∧ SameTables db₀ s.db ∧ LocksOf db₀ s.db

/-- A unit that is blocked is taken back. -/
theorem takeBack_sat {s : Run F} (h : Covered db₀ s) (unit : WorkUnit F) :
    Sat (takeBack true) s (Handled db₀ unit) (fun _ => False) := by
  obtain ⟨plan, hplan, h⟩ := h
  rw [takeBack, sat_bind, sat_assert]
  intro _
  rw [sat_bind, sat_get]
  cases hu : s.undo with
  | none =>
    refine ⟨hu, ?_, h.locks⟩
    have h : Recorded plan db₀ TPCCUndo.new s.db := by
      rwa [Inv, hu] at h
    exact h.same (fun _ => rfl) (fun _ => rfl) rfl rfl
  | some u =>
    have h : Recorded plan db₀ u s.db := by
      rwa [Inv, hu] at h
    obtain ⟨db', hdb, hsame, hlocks⟩ := h.applyUndo hplan
    show Sat (ofOption (s.db.applyUndo u) >>= _) s _ _
    rw [sat_bind, sat_ofOption]
    intro db'' hdb''
    obtain rfl := Option.some.inj (hdb.symm.trans hdb'')
    exact ⟨rfl, hsame, hlocks⟩

theorem handle_sat [Amount F] (hs : Starts db₀) (id : Int) (unit : WorkUnit F) :
    Sat (handle true id unit) { db := db₀, undo := none } (Handled db₀ unit) (fun _ => False) := by
  rw [handle, sat_bind, sat_get, sat_bind, sat_assert]
  intro _
  rw [sat_tryCatch]
  refine (callUnit_sat hs unit).mono (fun r s' h => ?_) (fun s' h => takeBack_sat h unit)
  rcases h with ⟨hr, h⟩ | ⟨rfl, rfl⟩
  · obtain ⟨r, rfl⟩ := Option.isSome_iff_exists.mp hr
    exact h
  · exact ⟨rfl, ⟨rfl, fun _ => rfl, rfl, rfl, .refl _⟩, (hs.inv ordersUse Set.univ).locks⟩

/-! ### The server -/

section
variable {s s' : TPCCTxnServer F} {id : Int} {ret : TxnRet} {answer : Answer F}

/-- A transaction that is not prepared is started. -/
theorem WellFormed.starts (h : WellFormed s) (hid : 0 < id) (hnew : s.transactions.find? id = none) :
    Starts (s.db.setTransaction id) where
  tid := hid
  entry := by
    rw [DBImpl.setTransaction, if_pos hid, StdMap.find?_emplace, h.prepared id hnew]
    simp
  filed := h.filed

/-- The entries of other transactions are those from before. -/
theorem LocksOf.find_other {id i : Int} (hlocks : LocksOf (db₀.setTransaction id) db) (hid : 0 < id) (hi : i ≠ id) :
    db.tidLocks.find? i = db₀.tidLocks.find? i := by
  rw [hlocks.others i (by rw [hlocks.tid]; exact hi), DBImpl.setTransaction, if_pos hid, StdMap.find?_emplace,
    if_neg hi, Option.or_none]

/-- When the tables are the same, so are they with the locks released. -/
theorem endTransaction_same (hid : 0 < id) (hnone : db₀.tidLocks.find? id = none)
    (hsame : SameTables (db₀.setTransaction id) db) (hlocks : LocksOf (db₀.setTransaction id) db) :
    ∃ db', db.endTransaction id = some db' ∧ Same db₀ db' := by
  refine ⟨_, hlocks.endTransaction hid, ⟨⟨hsame.items, hsame.rows, hsame.customersByName, hsame.ordersByCustomer,
    hsame.history⟩, rfl, StdMap.ext_find? fun i => ?_⟩⟩
  show (db.tidLocks.erase id).find? i = _
  rw [StdMap.find?_erase]
  split_ifs with hi
  · rw [hi, hnone]
  · exact hlocks.find_other hid hi

/-- How a PREPARE of a transaction that is not prepared ends: blocked, with everything as it was; or
    prepared, with what has been done. -/
theorem WellFormed.prepare_cases [Amount F] (h : WellFormed s) (hid : 0 < id) (hnew : s.transactions.find? id = none)
    (hp : s.prepare id unit ret = some (answer, s')) :
    (answer.ret.blocked = true ∧ s'.transactions = s.transactions ∧ s'.locking = s.locking ∧ Same s.db s'.db) ∨
    ∃ result r, answer.ret.blocked = false ∧ Done (s.db.setTransaction id) unit r ∧
      s' = { s with db := r.db, transactions := s.transactions.insert id ⟨r.undo, result⟩ } := by
  have hsat := handle_sat (h.starts hid hnew) id unit
  rw [TPCCTxnServer.prepare, hnew] at hp
  dsimp only at hp
  rcases hrun : handle true id unit { db := s.db.setTransaction id, undo := none } with ⟨_ | _ | _, r⟩
  · rename_i a
    rw [hrun] at hp
    have hd := hsat.returned hrun
    cases a with
    | none =>
      obtain ⟨hundo, hsame, hlocks⟩ := hd
      dsimp only at hp
      rw [hundo] at hp
      obtain ⟨db', hdb, hsame'⟩ := endTransaction_same hid (h.prepared id hnew) hsame hlocks
      simp only [Option.isNone_none, if_true, hdb, Option.bind_eq_bind, Option.bind_some] at hp
      cases hp
      exact Or.inl ⟨rfl, rfl, rfl, hsame'⟩
    | some result =>
      cases hp
      exact Or.inr ⟨result, r, rfl, hd, rfl⟩
  · exact (hsat.thrown hrun).elim
  · rw [hrun] at hp
    cases hp

/-- What the transaction has not touched when its unit is done. -/
theorem Done.frame {r : Run F} (h : Done (db₀.setTransaction id) unit r) (hid : 0 < id) :
    r.db.Filed ∧ ∀ i, i ≠ id → r.db.tidLocks.find? i = db₀.tidLocks.find? i := by
  obtain ⟨db₁, ⟨plan, hplan, hinv⟩, hbeside, _, _⟩ := h
  refine ⟨hinv.filed_now hplan, fun i hi => ?_⟩
  have htid : r.db.tid = id := hinv.locks.tid.trans hbeside.tid
  rw [hinv.locks.others i (by rw [htid]; exact hi), hbeside.tidLocks, DBImpl.setTransaction, if_pos hid,
    StdMap.find?_emplace, if_neg hi, Option.or_none]

/-- The ABORT of a transaction that was just prepared: it gives back everything, unless the unit has
    ordered from a further warehouse. -/
theorem Done.abort {r : Run F} {result : Option (Result F)} (h : Done (db₀.setTransaction id) unit r)
    (hid : 0 < id) (hnone : db₀.tidLocks.find? id = none) (hs : s.transactions.find? id = some ⟨r.undo, result⟩)
    (hdb : s.db = r.db) :
    ∃ db', s.finish id false ret = some
        (⟨none, { ret with blocked := false, commit := true }⟩,
          { s with db := db', transactions := s.transactions.erase id }) ∧
      (Same db₀ db' ↔ ¬ OrdersFurther db₀ unit) := by
  obtain ⟨db₁, ⟨plan, hplan, hinv⟩, hbeside, hsame, hdiff⟩ := h
  have hbefore : OrdersFurther (db₀.setTransaction id) unit ↔ OrdersFurther db₀ unit := by
    cases unit <;> exact Iff.rfl
  -- the tables that the buffer covers are given back
  obtain ⟨db', hsettle, htables, hlocks⟩ : ∃ db', Prepared.settle ⟨r.undo, result⟩ false r.db = some db' ∧
      SameTables db₁ db' ∧ LocksOf db₁ db' := by
    rw [Prepared.settle]
    cases hu : r.undo with
    | none =>
      have hinv' : Recorded plan db₁ TPCCUndo.new r.db := by
        rwa [Inv, hu] at hinv
      exact ⟨r.db, rfl, hinv'.same (fun _ => rfl) (fun _ => rfl) rfl rfl, hinv.locks⟩
    | some u =>
      have hinv' : Recorded plan db₁ u r.db := by
        rwa [Inv, hu] at hinv
      exact hinv'.applyUndo hplan
  have htid : db₁.tid = id := hbeside.tid
  have hend := hlocks.endTransaction (by rw [htid]; exact hid)
  rw [htid] at hend
  refine ⟨{ db' with lockTable := db₁.lockTable, tidLocks := db'.tidLocks.erase id }, ?_, ?_⟩
  · rw [TPCCTxnServer.finish, hs, hdb]
    simp only [hsettle, hend, Option.bind_eq_bind, Option.bind_some]
    rfl
  · constructor
    · intro hrest hf
      refine hdiff (hbefore.mpr hf) ?_
      rw [← htables.rows]
      exact hrest.rows .stock
    · intro hf
      obtain rfl := hsame fun h => hf (hbefore.mp h)
      obtain ⟨db'', hdb'', hrest⟩ := endTransaction_same hid hnone htables hlocks
      obtain rfl := Option.some.inj (hend.symm.trans hdb'')
      exact hrest

/-- Each call leaves only prepared transactions with locks. -/
theorem WellFormed.prepare [Amount F] (h : WellFormed s) (hid : 0 < id)
    (hp : s.prepare id unit ret = some (answer, s')) : WellFormed s' := by
  cases ht : s.transactions.find? id with
  | some t =>
    rw [TPCCTxnServer.prepare, ht] at hp
    cases hp
    exact h
  | none =>
    rcases h.prepare_cases hid ht hp with ⟨_, htrans, hlock, hsame⟩ | ⟨result, r, _, hdone, rfl⟩
    · refine ⟨hlock.trans h.locking, fun k row hrow => h.filed k row ?_, fun i hi => ?_⟩
      · rwa [← hsame.rows .newOrder]
      · rw [htrans] at hi
        rw [hsame.tidLocks]
        exact h.prepared i hi
    · obtain ⟨hfiled, hothers⟩ := hdone.frame hid
      refine ⟨h.locking, hfiled, fun i hi => ?_⟩
      rw [StdMap.find?_insert] at hi
      split_ifs at hi with hne
      exact (hothers i hne).trans (h.prepared i hi)

theorem WellFormed.finish [Amount F] {commit : Bool} (h : WellFormed s)
    (hf : s.finish id commit ret = some (answer, s')) : WellFormed s' := by
  rw [TPCCTxnServer.finish] at hf
  cases ht : s.transactions.find? id with
  | none =>
    rw [ht] at hf
    cases hf
    exact h
  | some t =>
    rw [ht] at hf
    obtain ⟨db₁, h₁, hf⟩ := Option.bind_eq_some_iff.mp hf
    obtain ⟨db₂, h₂, hf⟩ := Option.bind_eq_some_iff.mp hf
    cases hf
    have hfiled : FiledWith s.db.tidLocks s.db := ⟨h.filed, rfl⟩
    have hfiled₁ : FiledWith s.db.tidLocks db₁ := by
      rw [Prepared.settle] at h₁
      split at h₁
      · exact Option.some.inj h₁ ▸ hfiled
      · split_ifs at h₁
        · exact Option.some.inj h₁ ▸ hfiled
        · exact hfiled.applyUndo h₁
    obtain ⟨hfiled₂, hentries⟩ := hfiled₁.endTransaction h₂
    refine ⟨h.locking, hfiled₂, fun i hi => ?_⟩
    show db₂.tidLocks.find? i = none
    rw [hentries, StdMap.find?_erase]
    rw [StdMap.find?_erase] at hi
    split_ifs at hi ⊢ with hne
    · rfl
    · exact h.prepared i hi

/-- A call in locking mode is for a transaction with an id above 0. -/
theorem invokeTransaction_locking [Amount F] {arg : TxnArg} (h : s.locking = true)
    (hcall : s.invokeTransaction unit arg ret = some (answer, s')) :
    0 < localId arg.txnid ∧
      (match arg.type with
        | .prepare => s.prepare (localId arg.txnid) unit { ret with txnid := arg.txnid }
        | .commit => s.finish (localId arg.txnid) true { ret with txnid := arg.txnid }
        | .abort => s.finish (localId arg.txnid) false { ret with txnid := arg.txnid }
        | .indep => none) = some (answer, s') := by
  rw [TPCCTxnServer.invokeTransaction] at hcall
  simp only [h, if_true] at hcall
  split_ifs at hcall with hid
  exact ⟨by omega, hcall⟩

theorem Reachable.wellFormed [Amount F] (h : Reachable s) : WellFormed s := by
  induction h with
  | start h => exact ⟨rfl, h.filed, fun i _ => by rw [h.tidLocks]; rfl⟩
  | @call s s' unit arg ret answer _ hcall ih =>
    obtain ⟨hid, hcall⟩ := invokeTransaction_locking ih.locking hcall
    cases htype : arg.type with
    | prepare =>
      rw [htype] at hcall
      exact ih.prepare hid hcall
    | commit =>
      rw [htype] at hcall
      exact ih.finish hcall
    | abort =>
      rw [htype] at hcall
      exact ih.finish hcall
    | indep =>
      rw [htype] at hcall
      cases hcall

end

/-! ### Prepare, then abort -/

/-- A PREPARE of a transaction that is not prepared, in any state that calls lead to. When it is blocked,
    nothing has changed. Otherwise a further PREPARE changes nothing, and the ABORT gives back what was
    there just when the unit has not ordered from a further warehouse of this partition. -/
theorem prepare_abort_restores_iff [Amount F] {s s' : TPCCTxnServer F} {txnid : Nat} {ret : TxnRet}
    {answer : Answer F} (hs : Reachable s) (hnew : s.transactions.find? (localId txnid) = none)
    (hcall : s.invokeTransaction unit ⟨txnid, .prepare⟩ ret = some (answer, s')) :
    (answer.ret.blocked = true → Same s.db s'.db) ∧
    (answer.ret.blocked = false →
      (∀ unit' ret', ∃ answer', s'.invokeTransaction unit' ⟨txnid, .prepare⟩ ret' = some (answer', s')) ∧
      ∀ unit' ret', ∃ answer' s'', s'.invokeTransaction unit' ⟨txnid, .abort⟩ ret' = some (answer', s'') ∧
        (Same s.db s''.db ↔ ¬ OrdersFurther s.db unit)) := by
  have hwf := hs.wellFormed
  obtain ⟨hid, hcall⟩ := invokeTransaction_locking hwf.locking hcall
  rcases hwf.prepare_cases hid hnew hcall with ⟨hblocked, _, _, hsame⟩ | ⟨result, r, hblocked, hdone, rfl⟩
  · exact ⟨fun _ => hsame, fun h => absurd (h.symm.trans hblocked) Bool.false_ne_true⟩
  · refine ⟨fun h => absurd (hblocked.symm.trans h) Bool.false_ne_true, fun _ =>
      ⟨fun unit' ret' => ?_, fun unit' ret' => ?_⟩⟩
    all_goals
      rw [TPCCTxnServer.invokeTransaction]
      dsimp only
      rw [if_pos hwf.locking, if_neg (not_le.mpr hid)]
    · simp only [TPCCTxnServer.prepare, StdMap.find?_insert, if_true]
      exact ⟨_, rfl⟩
    · obtain ⟨db', hfinish, hiff⟩ := hdone.abort hid (hwf.prepared _ hnew)
        (s := ⟨s.locking, r.db, s.transactions.insert (localId txnid) ⟨r.undo, result⟩⟩)
        (by rw [StdMap.find?_insert, if_pos rfl]) rfl
      exact ⟨_, _, hfinish, hiff⟩

/-! ### Two warehouses on one partition -/

/-- Whole amounts, and none of them is printed. -/
instance wholeAmount : Amount Int where
  snprintf _ _ _ _ _ _ := []

/-- Two warehouses with one item in stock, and the customer 1 of the district 1. -/
def twoRows : (t : Table) → StdMap Int (Row Int t)
  | .warehouse => (StdMap.empty.insert 1 ⟨0, 0, [], .zero⟩).insert 2 ⟨0, 0, [], .zero⟩
  | .stock => (StdMap.empty.insert 100001 ⟨50, 0, 0, 0, [], []⟩).insert 200001 ⟨50, 0, 0, 0, [], []⟩
  | .district => StdMap.empty.insert 11 ⟨0, 0, 1, [], .zero⟩
  | .customer => StdMap.empty.insert 33001 ⟨1, 1, 1, 0, 0, 0, 0, 0, 0, [], [], [], .zero, [], [], [], []⟩
  | .order | .orderLine | .newOrder => StdMap.empty

def twoWarehouses : TPCCTxnServer Int where
  locking := true
  db :=
    { items := [⟨1, [], []⟩], rows := twoRows, customersByName := [], ordersByCustomer := StdMap.empty
      history := [], tid := -1, tidLocks := StdMap.empty, lockTable := fun _ => none }
  transactions := StdMap.empty

/-- The item is ordered at the warehouse 1, from the stock of the warehouse 2. -/
def orderElsewhere : WorkUnit Int := .newOrderHome 1 1 1 [⟨1, 2, 5⟩] (List.replicate datetimeSize 48)

/-- The same in one transaction. -/
def orderHere : WorkUnit Int := .newOrder 1 1 1 [⟨1, 2, 5⟩] (List.replicate datetimeSize 48)

def noRet : TxnRet := ⟨0, false, false, StdSet.empty, .normal⟩

theorem twoWarehouses_reachable : Reachable twoWarehouses := .start ⟨fun _ _ h => (by cases h), rfl, rfl⟩

/-- A NEW_ORDER with its ABORT. -/
theorem prepare_abort_restores_iff_orderHere : ∃ answer s',
    twoWarehouses.invokeTransaction orderHere ⟨7, .prepare⟩ noRet = some (answer, s') ∧
      answer.ret.blocked = false ∧ ∃ answer' s'',
        s'.invokeTransaction orderHere ⟨7, .abort⟩ noRet = some (answer', s'') ∧ Same twoWarehouses.db s''.db := by
  have hrun : (twoWarehouses.invokeTransaction orderHere ⟨7, .prepare⟩ noRet).map (fun r => r.1.ret.blocked) =
      some false := by decide +kernel
  obtain ⟨⟨answer, s'⟩, hcall, hblocked⟩ := Option.map_eq_some_iff.mp hrun
  obtain ⟨_, hprepared⟩ := prepare_abort_restores_iff twoWarehouses_reachable rfl hcall
  obtain ⟨answer', s'', habort, hiff⟩ := (hprepared hblocked).2 orderHere noRet
  exact ⟨answer, s', hcall, hblocked, answer', s'', habort, hiff.mpr id⟩

/-- After a NEW_ORDER_HOME and its ABORT the order stays counted in the stock of the warehouse 2. -/
theorem newOrderHome_not_restored : Reachable twoWarehouses ∧ ∃ answer s' answer' s'',
    twoWarehouses.invokeTransaction orderElsewhere ⟨7, .prepare⟩ noRet = some (answer, s') ∧
      answer.ret.blocked = false ∧
      s'.invokeTransaction orderElsewhere ⟨7, .abort⟩ noRet = some (answer', s'') ∧
      ¬ Same twoWarehouses.db s''.db := by
  have hrun : ((twoWarehouses.invokeTransaction orderElsewhere ⟨7, .prepare⟩ noRet).bind fun r =>
      (r.2.invokeTransaction orderElsewhere ⟨7, .abort⟩ noRet).map fun r' =>
        (r.1.ret.blocked, ((r'.2.db.rows .stock).find? 200001).map Stock.orderCnt)) = some (false, some 1) := by
    decide +kernel
  obtain ⟨⟨answer, s'⟩, hcall, hrun⟩ := Option.bind_eq_some_iff.mp hrun
  obtain ⟨⟨answer', s''⟩, habort, hend⟩ := Option.map_eq_some_iff.mp hrun
  obtain ⟨hblocked, hstock⟩ := Prod.mk.inj hend
  refine ⟨twoWarehouses_reachable, answer, s', answer', s'', hcall, hblocked, habort, fun hsame => ?_⟩
  have hbefore : ((twoWarehouses.db.rows .stock).find? 200001).map Stock.orderCnt = some 0 := rfl
  rw [← hsame.rows .stock, hstock] at hbefore
  cases hbefore

end Dsnet.TPCC
