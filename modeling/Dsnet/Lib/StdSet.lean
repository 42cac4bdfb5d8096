import Mathlib.Data.Finset.Card

/-! `std::set<κ>`: the elements in increasing order. As with `StdMap`, the order is a field, so
    iterating the list is iterating the set and its length is the number of elements. -/

namespace Dsnet

/-- A finite set, listed in order. -/
structure StdSet (κ : Type) [LinearOrder κ] where
  toList : List κ
  sorted : toList.Pairwise (· < ·)

namespace StdSet
variable {κ : Type} [LinearOrder κ]

instance : DecidableEq (StdSet κ) := fun s t =>
  decidable_of_iff (s.toList = t.toList) (by cases s; cases t; simp)

theorem sorted_nil : ([] : List κ).Pairwise (· < ·) := .nil

/-- No elements. -/
def empty : StdSet κ := ⟨[], sorted_nil⟩

/-- `set.size()`. -/
def size (s : StdSet κ) : Nat := s.toList.length

/-- Insertion into a list of elements. -/
def insertList (k : κ) : List κ → List κ
  | [] => [k]
  | x :: xs => if k < x then k :: x :: xs else if k = x then x :: xs else x :: insertList k xs

theorem mem_insertList {k x : κ} : ∀ {l : List κ}, x ∈ insertList k l ↔ x = k ∨ x ∈ l
  | [] => by simp [insertList]
  | y :: ys => by
      unfold insertList
      split_ifs with h1 h2
      · exact List.mem_cons
      · subst h2
        simp
      · rw [List.mem_cons, mem_insertList, List.mem_cons]
        tauto

theorem sorted_insertList {k : κ} :
    ∀ {l : List κ}, l.Pairwise (· < ·) → (insertList k l).Pairwise (· < ·)
  | [], _ => by simp [insertList]
  | y :: ys, h => by
      obtain ⟨hy, hys⟩ := List.pairwise_cons.mp h
      unfold insertList
      split_ifs with h1 h2
      · refine List.pairwise_cons.mpr ⟨fun z hz => ?_, h⟩
        rcases List.mem_cons.mp hz with rfl | hz
        · exact h1
        · exact lt_trans h1 (hy z hz)
      · exact h
      · refine List.pairwise_cons.mpr ⟨fun z hz => ?_, sorted_insertList hys⟩
        rcases mem_insertList.mp hz with rfl | hz
        · exact lt_of_le_of_ne (not_lt.mp h1) (Ne.symm h2)
        · exact hy z hz

/-- `set.insert(k)`. -/
def insert (s : StdSet κ) (k : κ) : StdSet κ := ⟨insertList k s.toList, sorted_insertList s.sorted⟩

/-- What is left when some elements are erased. -/
def ofSublist (s : StdSet κ) (l : List κ) (h : l.Sublist s.toList) : StdSet κ :=
  ⟨l, s.sorted.sublist h⟩

/-- `set.erase(k)`. -/
def erase (s : StdSet κ) (k : κ) : StdSet κ :=
  s.ofSublist (s.toList.filter (· ≠ k)) List.filter_sublist

/-- The elements up to `k`: what is left when the last element is erased as long as it is above. -/
def upTo (s : StdSet κ) (k : κ) : StdSet κ :=
  s.ofSublist (s.toList.filter (· ≤ k)) List.filter_sublist

@[simp] theorem toList_empty : (empty : StdSet κ).toList = [] := rfl

@[simp] theorem toList_ofSublist (s : StdSet κ) (l : List κ) (h : l.Sublist s.toList) :
    (s.ofSublist l h).toList = l := rfl

@[simp] theorem mem_insert {s : StdSet κ} {k x : κ} :
    x ∈ (s.insert k).toList ↔ x = k ∨ x ∈ s.toList := mem_insertList

@[simp] theorem mem_erase {s : StdSet κ} {k x : κ} :
    x ∈ (s.erase k).toList ↔ x ∈ s.toList ∧ x ≠ k := by
  rw [erase, toList_ofSublist, List.mem_filter, decide_eq_true_eq]

@[simp] theorem mem_upTo {s : StdSet κ} {k x : κ} :
    x ∈ (s.upTo k).toList ↔ x ∈ s.toList ∧ x ≤ k := by
  rw [upTo, toList_ofSublist, List.mem_filter, decide_eq_true_eq]

/-- What a loop of insertions leaves. -/
theorem mem_foldl_insert {α : Type} {f : α → κ} {x : κ} : ∀ {l : List α} {s : StdSet κ},
    x ∈ (l.foldl (fun s a => s.insert (f a)) s).toList ↔ x ∈ s.toList ∨ ∃ a ∈ l, f a = x
  | [], s => by simp
  | a :: as, s => by
      rw [List.foldl_cons, mem_foldl_insert, mem_insert, List.exists_mem_cons_iff, @eq_comm _ (f a) x]
      tauto

theorem nodup (s : StdSet κ) : s.toList.Nodup := s.sorted.imp fun h => ne_of_lt h

/-- Sets with the same elements are equal. -/
theorem ext_mem {s t : StdSet κ} (h : ∀ x, x ∈ s.toList ↔ x ∈ t.toList) : s = t := by
  have hperm : s.toList.Perm t.toList := (List.perm_ext_iff_of_nodup s.nodup t.nodup).mpr h
  obtain ⟨l, hl⟩ := s
  obtain ⟨l', hl'⟩ := t
  have heq : l = l' := hperm.eq_of_pairwise (fun a b _ _ hab hba => (lt_asymm hab hba).elim) hl hl'
  subst heq
  rfl

/-- Inserting an element again changes nothing. -/
theorem insert_of_mem {s : StdSet κ} {k : κ} (h : k ∈ s.toList) : s.insert k = s := by
  refine ext_mem fun x => ?_
  rw [mem_insert]
  constructor
  · rintro (rfl | hx)
    · exact h
    · exact hx
  · exact Or.inr

/-- Inserting what was erased. -/
theorem insert_erase {s : StdSet κ} {k : κ} (h : k ∈ s.toList) : (s.erase k).insert k = s :=
  ext_mem fun x => by
    rw [mem_insert, mem_erase]
    by_cases hx : x = k <;> simp [hx, h]

/-- Erasing what was inserted anew. -/
theorem erase_insert {s : StdSet κ} {k : κ} (h : k ∉ s.toList) : (s.insert k).erase k = s :=
  ext_mem fun x => by
    rw [mem_erase, mem_insert]
    by_cases hx : x = k <;> simp [hx, h]

theorem size_insert_of_not_mem {s : StdSet κ} {k : κ} (h : k ∉ s.toList) :
    (s.insert k).size = s.size + 1 := by
  have hperm : (s.insert k).toList.Perm (k :: s.toList) :=
    (List.perm_ext_iff_of_nodup (s.insert k).nodup (List.nodup_cons.mpr ⟨h, s.nodup⟩)).mpr fun x => by
      rw [mem_insert, List.mem_cons]
  exact hperm.length_eq

theorem size_erase_of_mem {s : StdSet κ} {k : κ} (h : k ∈ s.toList) :
    (s.erase k).size + 1 = s.size := by
  have hnot : k ∉ (s.erase k).toList := by simp
  rw [← size_insert_of_not_mem hnot, insert_erase h]

end StdSet
end Dsnet
