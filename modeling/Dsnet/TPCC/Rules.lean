import Dsnet.TPCC.Undo

/-! What the steps of a transaction do to `Inv`: reads leave it, a lock adds to what is held, and each
    change of the tables keeps it because its entry goes with it. -/

namespace Dsnet.TPCC
open Attempt
variable {F : Type} {plan : Plan} {db₀ : DBImpl F} {s : Run F} {t : Table} {p : Int} {α : Type}

/-- The plan with a lock more. -/
def Plan.holding (plan : Plan) (x : Tuple) (e : Bool) : Plan :=
  { plan with held := Set.insert (x, e) plan.held }

/-- The plan with a copy more, if it is one of a row of the stock. -/
def Plan.keeping (plan : Plan) (t : Table) (p : Int) : Plan :=
  { plan with kept := if t = .stock then Set.insert p plan.kept else plan.kept }

/-- Less may be known. -/
theorem Inv.weaken {plan' : Plan} (h : Inv plan' db₀ s) (huse : plan'.use = plan.use)
    (hheld : plan.held ⊆ plan'.held) (hkept : plan.kept ⊆ plan'.kept)
    (hmay : plan'.mayKeep ⊆ plan.mayKeep) : Inv plan db₀ s :=
  { h with
    held := fun x hx => h.held x (hheld hx)
    use := fun t => huse ▸ h.use t
    kept := fun k hk => h.kept k (hkept hk)
    mayKeep := fun k hk => hmay (h.mayKeep k hk) }

/-- Nothing is forgotten, and no more may be copied. -/
structure Plan.Extends (plan plan' : Plan) : Prop where
  use : plan'.use = plan.use
  held : plan.held ⊆ plan'.held
  kept : plan.kept ⊆ plan'.kept
  mayKeep : plan'.mayKeep = plan.mayKeep

theorem Plan.Extends.refl (plan : Plan) : plan.Extends plan :=
  ⟨rfl, subset_refl _, subset_refl _, rfl⟩

theorem Plan.Extends.trans {plan plan' plan'' : Plan} (h : plan.Extends plan') (h' : plan'.Extends plan'') :
    plan.Extends plan'' :=
  ⟨h'.use.trans h.use, h.held.trans h'.held, h.kept.trans h'.kept, h'.mayKeep.trans h.mayKeep⟩

theorem Plan.extends_holding (plan : Plan) (x : Tuple) (e : Bool) : plan.Extends (plan.holding x e) :=
  ⟨rfl, Set.subset_insert _ _, subset_refl _, rfl⟩

theorem Plan.extends_keeping (plan : Plan) (t : Table) (p : Int) : plan.Extends (plan.keeping t p) := by
  refine ⟨rfl, subset_refl _, ?_, rfl⟩
  rw [Plan.keeping]
  split_ifs
  · exact Set.subset_insert _ _
  · exact subset_refl _

theorem Inv.of_extends {plan' : Plan} (h : Inv plan' db₀ s) (he : plan.Extends plan') : Inv plan db₀ s :=
  h.weaken he.use he.held he.kept he.mayKeep.subset

/-! ### Reads -/

section Reads
variable {I : Run F → Prop}

theorem keeps_find (t : Table) (key : Option Int) : Keeps I (find (F := F) t key) :=
  (Keeps.ofOption _).bind fun _ => Keeps.get.bind fun _ => .pure _

theorem keeps_deref (t : Table) (p : Int) : Keeps I (deref (F := F) t p) :=
  Keeps.get.bind fun _ => .ofOption _

theorem keeps_findLastOrderByCustomer (wId dId cId : Int) :
    Keeps I (findLastOrderByCustomer (F := F) wId dId cId) := by
  refine (Keeps.ofOption _).bind fun key => Keeps.get.bind fun s => ?_
  split
  · exact .pure _
  · exact (keeps_deref _ _).bind fun _ => (Keeps.assert _).bind fun _ => .pure _

end Reads

/-- What is found is the key, and the row is there. -/
theorem find_sat {B : Run F → Prop} (t : Table) (key : Option Int) (s : Run F) :
    Sat (find t key) s (fun q s' => s' = s ∧ ∀ p, q = some p → key = some p ∧ ((s.db.rows t).find? p).isSome) B := by
  simp only [find, sat_bind, sat_ofOption, sat_get, sat_pure]
  rintro k rfl
  refine ⟨trivial, fun p hp => ?_⟩
  split_ifs at hp with hb
  obtain rfl := Option.some.inj hp
  exact ⟨rfl, hb⟩

/-- The row that is read. -/
theorem deref_sat {Q : Row F t → Run F → Prop} {B : Run F → Prop}
    (h : ∀ row, (s.db.rows t).find? p = some row → Q row s) : Sat (deref t p) s Q B := by
  simpa only [deref, sat_bind, sat_get, sat_ofOption] using h

/-! ### Locks -/

/-- A lock is had afterwards; one that is held already is not blocked. -/
theorem tryTuple_sat (h : Inv plan db₀ s) (x : Tuple) (e : Bool) :
    Sat (tryTuple x e) s (fun _ => Inv (plan.holding x e) db₀)
      (fun s' => Inv plan db₀ s' ∧ ∀ e', (x, e') ∈ plan.held → e' = false ∧ e = true) := by
  have htid : 0 < s.db.tid := h.locks.tid ▸ h.tid
  rw [tryTuple, sat_bind, sat_get, sat_when]
  refine ⟨fun _ => ?_, fun hne => absurd hne (by omega)⟩
  rw [tryLock, sat_bind, sat_get, sat_ite]
  refine ⟨fun h0 => absurd h0 (by omega), fun _ => (lockFor_sat h.locks x e).mono ?_ ?_⟩
  · rintro _ s' ⟨locks, own, rfl, hsince, hx, hmono⟩
    exact h.withLocks hsince hx hmono
  · rintro s' ⟨rfl, hblocked⟩
    exact ⟨h, fun e' he' => hblocked e' (h.held _ he')⟩

theorem keeps_tryTuple (x : Tuple) (e : Bool) : Keeps (Inv plan db₀) (tryTuple x e) :=
  fun _ hs => (tryTuple_sat hs x e).mono (fun _ _ h => h.of_extends (plan.extends_holding x e)) (fun _ h => h.1)

theorem tryWrite_sat (h : Inv plan db₀ s) (t : Table) (q : Option Int) :
    Sat (tryWrite t q) s (fun p s' => q = some p ∧ Inv (plan.holding (.row t p) true) db₀ s')
      (fun s' => Inv plan db₀ s' ∧ ∃ p, q = some p ∧ (Tuple.row t p, true) ∉ plan.held) := by
  rw [tryWrite, sat_bind, sat_ofOption]
  rintro p rfl
  rw [sat_bind]
  refine (tryTuple_sat h _ true).mono (fun _ s' h' => ⟨rfl, h'⟩) (fun s' h' => ⟨h'.1, p, rfl, ?_⟩)
  intro hheld
  cases (h'.2 true hheld).1

theorem keeps_tryRead (t : Table) (q : Option Int) : Keeps (Inv plan db₀) (tryRead t q) :=
  (Keeps.ofOption _).bind fun _ => (keeps_tryTuple _ _).bind fun _ => .pure _

theorem keeps_tryWrite (t : Table) (q : Option Int) : Keeps (Inv plan db₀) (tryWrite t q) :=
  (Keeps.ofOption _).bind fun _ => (keeps_tryTuple _ _).bind fun _ => .pure _

/-! ### Changes -/

theorem keeps_allocateUndo (undo : Bool) : Keeps (Inv plan db₀) (allocateUndo undo) := by
  intro s hs
  rw [allocateUndo, sat_when]
  exact ⟨fun _ => hs, fun _ => hs⟩

/-- A row is saved and written. -/
theorem update_sat {B : Run F → Prop} (h : Inv plan db₀ s) (hu : plan.use t = .saves)
    (hmay : t = .stock → p ∈ plan.mayKeep) (f : Row F t → Row F t) :
    Sat (update true t p f) s (fun _ => Inv (plan.keeping t p) db₀) B := by
  simp only [update, save, record, assign, deref, sat_bind, sat_when, sat_get, sat_ofOption, sat_modify]
  refine ⟨fun _ row hrow u hundo row' hrow' => ?_, fun hn => absurd trivial hn⟩
  obtain ⟨u', hsu, hu'⟩ := Option.bind_eq_some_iff.mp hundo
  obtain rfl := Option.some.inj hu'
  have h' : Recorded plan db₀ u' s.db := by
    have := h
    rwa [Inv, hsu] at this
  exact (h'.save hrow hu hmay).write hrow' ((modified_save ..).mpr (Or.inr ⟨rfl, rfl⟩)) _

theorem keeps_update (hu : plan.use t = .saves) (hmay : t = .stock → p ∈ plan.mayKeep) (f : Row F t → Row F t) :
    Keeps (Inv plan db₀) (update true t p f) :=
  fun _ hs => (update_sat hs hu hmay f).mono (fun _ _ h => h.of_extends (plan.extends_keeping t p)) (fun _ h => h)

/-- A row of which there is a copy is written. -/
theorem update_again {B : Run F → Prop} (h : Inv plan db₀ s) (hk : p ∈ plan.kept) (f : Stock → Stock) :
    Sat (update false .stock p f) s (fun _ => Inv plan db₀) B := by
  simp only [update, save, assign, deref, sat_bind, sat_when, sat_get, sat_ofOption, sat_modify]
  exact ⟨fun hf => (by cases hf), fun _ row hrow => Recorded.write h hrow (h.kept p hk) _⟩

/-- A row of which there is no copy is written. -/
theorem update_unsaved {B : Run F → Prop} (h : Inv plan db₀ s) (hu : plan.use .stock = .saves)
    (hk : p ∉ plan.mayKeep) (f : Stock → Stock) :
    Sat (update false .stock p f) s (fun _ s' => ∃ row, (db₀.rows .stock).find? p = some row ∧
      Inv plan (db₀.setRows .stock ((db₀.rows .stock).insert p (f row))) s') B := by
  simp only [update, save, assign, deref, sat_bind, sat_when, sat_get, sat_ofOption, sat_modify]
  refine ⟨fun hf => (by cases hf), fun _ row hrow => ?_⟩
  have hnone : ((s.undo.getD TPCCUndo.new).modified .stock).find? p = none := by
    cases hs : ((s.undo.getD TPCCUndo.new).modified .stock).find? p with
    | none => rfl
    | some _ => exact absurd (h.mayKeep p (by rw [hs]; rfl)) hk
  obtain ⟨h₀, h'⟩ := Recorded.overwrite h hrow hu hnone (f row)
  exact ⟨row, h₀, h'⟩

end Dsnet.TPCC
