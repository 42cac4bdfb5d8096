import Dsnet.Lib.StdMap

/-! Undo records of a table. While a table is changed, a journal keeps a copy of each row that is
    written, from before its first change, the keys of the rows that are put in, and the rows that are
    taken out. `Covers t₀ t` is that the journal tells `t₀` from what the table is now.

    Each change of the table together with its entry keeps this, and so does each way to take an entry
    back; a journal with no entries covers only the table itself (`Covers.eq_of_empty`). -/

namespace Dsnet

/-- What is kept of the changes of a table. -/
structure Journal (κ ρ : Type) [LinearOrder κ] where
  saved : StdMap κ ρ
  inserted : List κ
  deleted : StdMap κ ρ

namespace Journal
variable {κ ρ : Type} [LinearOrder κ]

/-- Nothing was changed. -/
def empty : Journal κ ρ := ⟨StdMap.empty, [], StdMap.empty⟩

/-- The row that was at `k` before the changes. -/
def before (j : Journal κ ρ) (t : StdMap κ ρ) (k : κ) : Option ρ :=
  match j.deleted.find? k with
  | some r => some r
  | none =>
    if k ∈ j.inserted then none
    else
      match j.saved.find? k with
      | some r => some r
      | none => t.find? k

/-- The changes that led from `t₀` to `t` can be told from the journal. -/
structure Covers (j : Journal κ ρ) (t₀ t : StdMap κ ρ) : Prop where
  before : ∀ k, t₀.find? k = j.before t k
  saved : ∀ k, (j.saved.find? k).isSome → (t.find? k).isSome
  inserted : ∀ k ∈ j.inserted, (t.find? k).isSome ∧ j.saved.find? k = none
  deleted : ∀ k, (j.deleted.find? k).isSome → t.find? k = none
  nodup : j.inserted.Nodup

variable {j : Journal κ ρ} {t₀ t : StdMap κ ρ} {k : κ} {r r' : ρ}

theorem Covers.refl (t : StdMap κ ρ) : (empty : Journal κ ρ).Covers t t where
  before _ := rfl
  saved _ h := by cases h
  inserted _ h := by cases h
  deleted _ h := by cases h
  nodup := List.nodup_nil

/-- With no entries nothing was changed. -/
theorem Covers.eq_of_empty (h : (empty : Journal κ ρ).Covers t₀ t) : t = t₀ :=
  StdMap.ext_find? fun k => (h.before k).symm

/-- A row that is bound now was not taken out. -/
theorem Covers.not_deleted (h : j.Covers t₀ t) (hk : t.find? k = some r) : j.deleted.find? k = none := by
  cases hd : j.deleted.find? k with
  | none => rfl
  | some _ =>
    have hnone := h.deleted k (by simp [hd])
    rw [hk] at hnone
    cases hnone

/-- Nothing was put in or kept at a key that is free. -/
theorem Covers.free (h : j.Covers t₀ t) (hk : t.find? k = none) :
    k ∉ j.inserted ∧ j.saved.find? k = none := by
  constructor
  · intro hi
    have := (h.inserted k hi).1
    rw [hk] at this
    cases this
  · cases hs : j.saved.find? k with
    | none => rfl
    | some _ =>
      have := h.saved k (by simp [hs])
      rw [hk] at this
      cases this

/-! ### Changes with their entries -/

/-- A copy of a row that was not put in is kept, if there is none yet. -/
theorem Covers.save (h : j.Covers t₀ t) (hk : t.find? k = some r) (hi : k ∉ j.inserted) :
    Covers { j with saved := j.saved.emplace k r } t₀ t where
  before i := by
    rw [h.before, Journal.before, Journal.before, StdMap.find?_emplace]
    by_cases hik : i = k
    · subst hik
      rw [h.not_deleted hk, if_neg hi, if_pos rfl, hk, if_neg hi]
      cases j.saved.find? i <;> rfl
    · rw [if_neg hik, Option.or_none]
  saved i hs := by
    rw [StdMap.find?_emplace] at hs
    by_cases hik : i = k
    · rw [hik, hk]
      rfl
    · rw [if_neg hik, Option.or_none] at hs
      exact h.saved i hs
  inserted i hm := by
    have hik : i ≠ k := fun heq => hi (heq ▸ hm)
    refine ⟨(h.inserted i hm).1, ?_⟩
    rw [StdMap.find?_emplace, if_neg hik, Option.or_none]
    exact (h.inserted i hm).2
  deleted := h.deleted
  nodup := h.nodup

/-- A row of which there is a copy may be written. -/
theorem Covers.write (h : j.Covers t₀ t) (hk : t.find? k = some r) (hs : (j.saved.find? k).isSome) (r' : ρ) :
    j.Covers t₀ (t.insert k r') where
  before i := by
    rw [h.before, Journal.before, Journal.before, StdMap.find?_insert]
    by_cases hik : i = k
    · subst hik
      obtain ⟨r₀, hr₀⟩ := Option.isSome_iff_exists.mp hs
      rw [hr₀]
    · rw [if_neg hik]
  saved i hi := by
    rw [StdMap.find?_insert]
    split_ifs
    · rfl
    · exact h.saved i hi
  inserted i hm := by
    rw [StdMap.find?_insert]
    refine ⟨?_, (h.inserted i hm).2⟩
    split_ifs
    · rfl
    · exact (h.inserted i hm).1
  deleted i hi := by
    have hnone := h.deleted i hi
    rw [StdMap.find?_insert_of_ne]
    · exact hnone
    · rintro rfl
      rw [hk] at hnone
      cases hnone
  nodup := h.nodup

/-- A write without a copy is as if the row had been so before. -/
theorem Covers.overwrite (h : j.Covers t₀ t) (hk : t.find? k = some r) (hs : j.saved.find? k = none)
    (hi : k ∉ j.inserted) (r' : ρ) : t₀.find? k = some r ∧ j.Covers (t₀.insert k r') (t.insert k r') := by
  have hd := h.not_deleted hk
  have h₀ : t₀.find? k = some r := by
    rw [h.before, Journal.before, hd, if_neg hi, hs]
    exact hk
  refine ⟨h₀, ⟨fun i => ?_, fun i hsi => ?_, fun i hm => ?_, fun i hdi => ?_, h.nodup⟩⟩
  · rw [StdMap.find?_insert]
    by_cases hik : i = k
    · subst hik
      rw [if_pos rfl, Journal.before, hd, if_neg hi, hs, StdMap.find?_insert_self]
    · rw [if_neg hik, h.before, Journal.before, Journal.before, StdMap.find?_insert_of_ne _ _ hik]
  · rw [StdMap.find?_insert]
    split_ifs
    · rfl
    · exact h.saved i hsi
  · rw [StdMap.find?_insert]
    refine ⟨?_, (h.inserted i hm).2⟩
    split_ifs
    · rfl
    · exact (h.inserted i hm).1
  · have hnone := h.deleted i hdi
    rw [StdMap.find?_insert_of_ne]
    · exact hnone
    · rintro rfl
      rw [hk] at hnone
      cases hnone

/-- A row is put in where there was none. -/
theorem Covers.insert (h : j.Covers t₀ t) (hk : t.find? k = none) (hd : j.deleted.find? k = none) (r : ρ) :
    Covers { j with inserted := k :: j.inserted } t₀ (t.insert k r) := by
  obtain ⟨hi, hs⟩ := h.free hk
  refine ⟨fun i => ?_, fun i hsi => ?_, fun i hm => ?_, fun i hdi => ?_, List.nodup_cons.mpr ⟨hi, h.nodup⟩⟩
  · rw [h.before, Journal.before, Journal.before]
    by_cases hik : i = k
    · subst hik
      rw [hd, if_neg hi, hs, hk, if_pos List.mem_cons_self]
    · rw [StdMap.find?_insert_of_ne _ _ hik]
      simp [hik]
  · rw [StdMap.find?_insert]
    split_ifs
    · rfl
    · exact h.saved i hsi
  · rw [StdMap.find?_insert]
    rcases List.mem_cons.mp hm with rfl | hm
    · exact ⟨by simp, hs⟩
    · refine ⟨?_, (h.inserted i hm).2⟩
      split_ifs
      · rfl
      · exact (h.inserted i hm).1
  · rw [StdMap.find?_insert_of_ne]
    · exact h.deleted i hdi
    · rintro rfl
      simp [hd] at hdi

/-- A row that was neither put in nor written is taken out. -/
theorem Covers.delete (h : j.Covers t₀ t) (hk : t.find? k = some r) (hs : j.saved.find? k = none)
    (hi : k ∉ j.inserted) : Covers { j with deleted := j.deleted.insert k r } t₀ (t.erase k) where
  before i := by
    rw [h.before, Journal.before, Journal.before, StdMap.find?_insert, StdMap.find?_erase]
    by_cases hik : i = k
    · subst hik
      rw [h.not_deleted hk, if_neg hi, hs, hk, if_pos rfl]
    · rw [if_neg hik, if_neg hik]
  saved i hsi := by
    rw [StdMap.find?_erase, if_neg]
    · exact h.saved i hsi
    · rintro rfl
      simp [hs] at hsi
  inserted i hm := by
    rw [StdMap.find?_erase, if_neg]
    · exact h.inserted i hm
    · rintro rfl
      exact hi hm
  deleted i hdi := by
    rw [StdMap.find?_insert] at hdi
    rw [StdMap.find?_erase]
    split_ifs at hdi ⊢
    · rfl
    · exact h.deleted i hdi
  nodup := h.nodup

/-! ### Entries taken back -/

/-- A copy is put back. -/
theorem Covers.restore (h : j.Covers t₀ t) (hk : j.saved.find? k = some r) :
    (t.find? k).isSome ∧ Covers { j with saved := j.saved.erase k } t₀ (t.insert k r) := by
  have hbound := h.saved k (by simp [hk])
  obtain ⟨r', hr'⟩ := Option.isSome_iff_exists.mp hbound
  have hi : k ∉ j.inserted := fun hm => by simp [(h.inserted k hm).2] at hk
  have hd := h.not_deleted hr'
  refine ⟨hbound, ⟨fun i => ?_, fun i hsi => ?_, fun i hm => ?_, fun i hdi => ?_, h.nodup⟩⟩
  · rw [h.before, Journal.before, Journal.before, StdMap.find?_insert, StdMap.find?_erase]
    by_cases hik : i = k
    · subst hik
      rw [hd, if_neg hi, hk, if_neg hi, if_pos rfl, if_pos rfl]
    · rw [if_neg hik, if_neg hik]
  · rw [StdMap.find?_erase] at hsi
    rw [StdMap.find?_insert]
    split_ifs at hsi ⊢
    · rfl
    · exact h.saved i hsi
  · rw [StdMap.find?_insert, StdMap.find?_erase]
    have hik : i ≠ k := fun heq => hi (heq ▸ hm)
    rw [if_neg hik, if_neg hik]
    exact h.inserted i hm
  · have hnone := h.deleted i hdi
    rw [StdMap.find?_insert_of_ne]
    · exact hnone
    · rintro rfl
      rw [hr'] at hnone
      cases hnone

/-- A row that was put in is taken out. -/
theorem Covers.uninsert {ks : List κ} (h : j.Covers t₀ t) (hj : j.inserted = k :: ks) :
    Covers { j with inserted := ks } t₀ (t.erase k) := by
  obtain ⟨hbound, hs⟩ := h.inserted k (hj ▸ List.mem_cons_self)
  obtain ⟨r, hr⟩ := Option.isSome_iff_exists.mp hbound
  have hd := h.not_deleted hr
  obtain ⟨hnot, hnodup⟩ := List.nodup_cons.mp (hj ▸ h.nodup)
  refine ⟨fun i => ?_, fun i hsi => ?_, fun i hm => ?_, fun i hdi => ?_, hnodup⟩
  · rw [h.before, Journal.before, Journal.before, StdMap.find?_erase, hj]
    by_cases hik : i = k
    · subst hik
      rw [hd, if_pos List.mem_cons_self, if_neg hnot, hs, if_pos rfl]
    · simp [hik]
  · rw [StdMap.find?_erase, if_neg]
    · exact h.saved i hsi
    · rintro rfl
      simp [hs] at hsi
  · rw [StdMap.find?_erase, if_neg]
    · exact h.inserted i (hj ▸ List.mem_cons_of_mem _ hm)
    · rintro rfl
      exact hnot hm
  · rw [StdMap.find?_erase]
    split_ifs
    · rfl
    · exact h.deleted i hdi

/-- A row that was taken out is put back. -/
theorem Covers.undelete (h : j.Covers t₀ t) (hk : j.deleted.find? k = some r) (hi : k ∉ j.inserted)
    (hs : j.saved.find? k = none) :
    t.find? k = none ∧ Covers { j with deleted := j.deleted.erase k } t₀ (t.insert k r) := by
  have hfree := h.deleted k (by simp [hk])
  refine ⟨hfree, ⟨fun i => ?_, fun i hsi => ?_, fun i hm => ?_, fun i hdi => ?_, h.nodup⟩⟩
  · rw [h.before, Journal.before, Journal.before, StdMap.find?_erase, StdMap.find?_insert]
    by_cases hik : i = k
    · subst hik
      simp [hk, hi, hs]
    · rw [if_neg hik, if_neg hik]
  · rw [StdMap.find?_insert]
    split_ifs
    · rfl
    · exact h.saved i hsi
  · have hik : i ≠ k := fun heq => hi (heq ▸ hm)
    rw [StdMap.find?_insert_of_ne _ _ hik]
    exact h.inserted i hm
  · by_cases hik : i = k
    · rw [StdMap.find?_erase, if_pos hik] at hdi
      cases hdi
    · rw [StdMap.find?_erase, if_neg hik] at hdi
      rw [StdMap.find?_insert_of_ne _ _ hik]
      exact h.deleted i hdi

end Journal
end Dsnet
