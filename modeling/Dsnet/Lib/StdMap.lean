import Mathlib.Data.Finset.Card
import Mathlib.Algebra.GroupWithZero.Nat

/-! `std::map<κ, β>`: the bindings in increasing order of their keys. The order is a field of the
    structure, so iterating the list is iterating the map, and the number of bindings is the
    number of distinct keys (`card_keys`). -/

namespace Dsnet

/-- A finite map, listed in key order. -/
structure StdMap (κ β : Type) [LinearOrder κ] where
  toList : List (κ × β)
  sorted : (toList.map Prod.fst).Pairwise (· < ·)

namespace StdMap
variable {κ β : Type} [LinearOrder κ]

/-- No bindings. -/
def empty : StdMap κ β := ⟨[], List.Pairwise.nil⟩

/-- `map.size()`. -/
def size (m : StdMap κ β) : Nat := m.toList.length

/-- Insertion into a list of bindings, replacing the binding of the same key. -/
def insertList (k : κ) (b : β) : List (κ × β) → List (κ × β)
  | [] => [(k, b)]
  | x :: xs =>
    if k < x.1 then (k, b) :: x :: xs
    else if k = x.1 then (k, b) :: xs
    else x :: insertList k b xs

theorem mem_insertList {k : κ} {b : β} {x : κ × β} :
    ∀ {l : List (κ × β)}, x ∈ insertList k b l → x = (k, b) ∨ x ∈ l
  | [], h => by simpa [insertList] using h
  | y :: ys, h => by
      unfold insertList at h
      split_ifs at h with h1 h2
      · simpa using h
      · rcases List.mem_cons.mp h with h | h
        · exact Or.inl h
        · exact Or.inr (List.mem_cons_of_mem _ h)
      · rcases List.mem_cons.mp h with h | h
        · exact Or.inr (h ▸ List.mem_cons_self ..)
        · exact (mem_insertList h).imp_right (List.mem_cons_of_mem _)

theorem sorted_insertList {k : κ} {b : β} :
    ∀ {l : List (κ × β)}, (l.map Prod.fst).Pairwise (· < ·) →
      ((insertList k b l).map Prod.fst).Pairwise (· < ·)
  | [], _ => by simp [insertList]
  | y :: ys, h => by
      obtain ⟨hy, hys⟩ := List.pairwise_cons.mp h
      unfold insertList
      split_ifs with h1 h2
      · refine List.pairwise_cons.mpr ⟨?_, h⟩
        intro z hz
        rcases List.mem_cons.mp hz with rfl | hz
        · exact h1
        · exact lt_trans h1 (hy z hz)
      · subst h2
        exact List.pairwise_cons.mpr ⟨hy, hys⟩
      · refine List.pairwise_cons.mpr ⟨?_, sorted_insertList hys⟩
        intro z hz
        obtain ⟨x, hx, rfl⟩ := List.mem_map.mp hz
        rcases mem_insertList hx with rfl | hx
        · exact lt_of_le_of_ne (not_lt.mp h1) (Ne.symm h2)
        · exact hy x.1 (List.mem_map_of_mem hx)

/-- `map[k] = b`. -/
def insert (m : StdMap κ β) (k : κ) (b : β) : StdMap κ β :=
  ⟨insertList k b m.toList, sorted_insertList m.sorted⟩

/-- `map.erase(k)`. -/
def erase (m : StdMap κ β) (k : κ) : StdMap κ β :=
  ⟨m.toList.filter (·.1 ≠ k), m.sorted.sublist (List.filter_sublist.map Prod.fst)⟩

/-- `map.find(k)`. -/
def find? (m : StdMap κ β) (k : κ) : Option β := (m.toList.find? (·.1 = k)).map Prod.snd

/-- `map.emplace(k, b)`, which leaves a key that is bound as it is. -/
def emplace (m : StdMap κ β) (k : κ) (b : β) : StdMap κ β := if (m.find? k).isSome then m else m.insert k b

/-- The map with the same keys whose values are `f` of each binding. -/
def map {γ : Type} (f : κ → β → γ) (m : StdMap κ β) : StdMap κ γ :=
  ⟨m.toList.map fun x => (x.1, f x.1 x.2), by
    rw [List.map_map]
    exact m.sorted⟩

/-- The keys bound by `m`. -/
def keys (m : StdMap κ β) : Finset κ := (m.toList.map Prod.fst).toFinset

@[simp] theorem toList_empty : (empty : StdMap κ β).toList = [] := rfl

@[simp] theorem card_keys (m : StdMap κ β) : m.keys.card = m.size := by
  have hnd : (m.toList.map Prod.fst).Nodup := m.sorted.imp (fun h => ne_of_lt h)
  rw [keys, List.toFinset_card_of_nodup hnd, List.length_map, size]

theorem mem_keys {m : StdMap κ β} {k : κ} : k ∈ m.keys ↔ ∃ b, (k, b) ∈ m.toList := by
  simp [keys]

theorem mem_insert {m : StdMap κ β} {k : κ} {b : β} {x : κ × β}
    (h : x ∈ (m.insert k b).toList) : x = (k, b) ∨ x ∈ m.toList := mem_insertList h

theorem mem_insert_self (m : StdMap κ β) (k : κ) (b : β) : (k, b) ∈ (m.insert k b).toList := by
  show (k, b) ∈ insertList k b m.toList
  generalize m.toList = l
  induction l with
  | nil => simp [insertList]
  | cons y ys ih =>
    unfold insertList
    split_ifs <;> simp [ih]

/-- What a lookup finds is a binding of the map. -/
theorem mem_of_find? {m : StdMap κ β} {k : κ} {b : β} (h : m.find? k = some b) :
    (k, b) ∈ m.toList := by
  obtain ⟨⟨k', b'⟩, hf, rfl⟩ := Option.map_eq_some_iff.mp h
  have hk : k' = k := by simpa using List.find?_some hf
  exact hk ▸ List.mem_of_find?_eq_some hf

/-- An insertion adds at most one binding. -/
theorem size_insert_le (m : StdMap κ β) (k : κ) (b : β) : (m.insert k b).size ≤ m.size + 1 := by
  show (insertList k b m.toList).length ≤ m.toList.length + 1
  generalize m.toList = l
  induction l with
  | nil => simp [insertList]
  | cons y ys ih =>
    unfold insertList
    split_ifs
    · simp
    · simp
    · simpa using ih

/-- And it takes none away. -/
theorem size_le_insert (m : StdMap κ β) (k : κ) (b : β) : m.size ≤ (m.insert k b).size := by
  show m.toList.length ≤ (insertList k b m.toList).length
  generalize m.toList = l
  induction l with
  | nil => simp
  | cons y ys ih =>
    unfold insertList
    split_ifs
    · simp
    · simp
    · simpa using ih

theorem find?_insert_self (m : StdMap κ β) (k : κ) (b : β) : (m.insert k b).find? k = some b := by
  show ((insertList k b m.toList).find? _).map Prod.snd = _
  generalize m.toList = l
  induction l with
  | nil => simp [insertList]
  | cons y ys ih =>
    unfold insertList
    by_cases h1 : k < y.1
    · simp [h1]
    · by_cases h2 : k = y.1
      · simp [← h2]
      · rw [if_neg h1, if_neg h2, List.find?_cons_of_neg (by simpa using Ne.symm h2)]
        exact ih

theorem find?_insert_of_ne (m : StdMap κ β) {k i : κ} (b : β) (h : i ≠ k) :
    (m.insert k b).find? i = m.find? i := by
  show ((insertList k b m.toList).find? _).map Prod.snd = (m.toList.find? _).map Prod.snd
  generalize m.toList = l
  induction l with
  | nil => simp [insertList, Ne.symm h]
  | cons y ys ih =>
    unfold insertList
    by_cases h1 : k < y.1
    · rw [if_pos h1, List.find?_cons_of_neg (by simpa using Ne.symm h)]
    · by_cases h2 : k = y.1
      · rw [if_neg h1, if_pos h2, List.find?_cons_of_neg (by simpa using Ne.symm h),
          List.find?_cons_of_neg (by simpa [← h2] using Ne.symm h)]
      · rw [if_neg h1, if_neg h2, List.find?_cons, List.find?_cons]
        split
        · rfl
        · exact ih

theorem find?_insert (m : StdMap κ β) (k i : κ) (b : β) :
    (m.insert k b).find? i = if i = k then some b else m.find? i := by
  split_ifs with h
  · rw [h, find?_insert_self]
  · exact find?_insert_of_ne m b h

theorem mem_emplace {m : StdMap κ β} {k : κ} {b : β} {x : κ × β} (h : x ∈ (m.emplace k b).toList) :
    x = (k, b) ∨ x ∈ m.toList := by
  rw [emplace] at h
  split_ifs at h
  · exact Or.inr h
  · exact mem_insert h

/-- A binding of the map is what a lookup finds. -/
theorem find?_of_mem {m : StdMap κ β} {k : κ} {b : β} (h : (k, b) ∈ m.toList) :
    m.find? k = some b := by
  unfold find?
  have hs := m.sorted
  generalize m.toList = l at h hs
  induction l with
  | nil => cases h
  | cons y ys ih =>
    obtain ⟨hy, hys⟩ := List.pairwise_cons.mp hs
    rcases List.mem_cons.mp h with rfl | h
    · simp
    · have hlt : y.1 < k := hy k (List.mem_map_of_mem h)
      rw [List.find?_cons_of_neg (by simpa using hlt.ne)]
      exact ih h hys

/-- An insertion leaves the bindings of other keys. -/
theorem mem_insert_of_ne {m : StdMap κ β} {k i : κ} {b b' : β} (h : (i, b') ∈ m.toList) (hi : i ≠ k) :
    (i, b') ∈ (m.insert k b).toList :=
  mem_of_find? ((find?_insert_of_ne m b hi).trans (find?_of_mem h))

/-- Binding a key to what it is bound to changes nothing. -/
theorem insert_of_find? {m : StdMap κ β} {k : κ} {b : β} (h : m.find? k = some b) :
    m.insert k b = m := by
  have heq : insertList k b m.toList = m.toList := by
    have hmem := mem_of_find? h
    have hs := m.sorted
    generalize m.toList = l at hmem hs
    induction l with
    | nil => cases hmem
    | cons y ys ih =>
      obtain ⟨hy, hys⟩ := List.pairwise_cons.mp hs
      unfold insertList
      rcases List.mem_cons.mp hmem with rfl | hmem
      · rw [if_neg (lt_irrefl _), if_pos rfl]
      · have hlt : y.1 < k := hy k (List.mem_map_of_mem hmem)
        rw [if_neg (not_lt.mpr hlt.le), if_neg hlt.ne', ih hmem hys]
  obtain ⟨l, hl⟩ := m
  simp only [insert, heq]

/-- Erasing a key that is not bound changes nothing. -/
theorem erase_of_find?_eq_none {m : StdMap κ β} {k : κ} (h : m.find? k = none) : m.erase k = m := by
  obtain ⟨l, hl⟩ := m
  have heq : l.filter (·.1 ≠ k) = l := by
    refine List.filter_eq_self.mpr fun x hx => ?_
    have := List.find?_eq_none.mp (Option.map_eq_none_iff.mp h) x hx
    simpa using this
  simp only [erase, heq]

/-- An erased key is not bound, and the other bindings stay. -/
theorem find?_erase (m : StdMap κ β) (k i : κ) :
    (m.erase k).find? i = if i = k then none else m.find? i := by
  show ((m.toList.filter _).find? _).map Prod.snd = ite _ _ ((m.toList.find? _).map Prod.snd)
  rw [List.find?_filter]
  split_ifs with h
  · subst h
    rw [Option.map_eq_none_iff, List.find?_eq_none]
    intro x _
    simp
  · congr 2
    funext x
    by_cases hx : x.1 = i
    · simp [hx, h]
    · simp [hx]

@[simp] theorem keys_map {γ : Type} (f : κ → β → γ) (m : StdMap κ β) :
    (m.map f).toList.map Prod.fst = m.toList.map Prod.fst := by
  rw [map, List.map_map]
  rfl

theorem find?_map {γ : Type} (f : κ → β → γ) (m : StdMap κ β) (k : κ) :
    (m.map f).find? k = (m.find? k).map (f k) := by
  show ((m.toList.map _).find? _).map Prod.snd = ((m.toList.find? _).map Prod.snd).map (f k)
  generalize m.toList = l
  induction l with
  | nil => rfl
  | cons y ys ih =>
    by_cases h : y.1 = k
    · subst h
      simp
    · rw [List.map_cons, List.find?_cons_of_neg (by simpa using h),
        List.find?_cons_of_neg (by simpa using h)]
      exact ih

/-- A key is bound when a lookup finds something. -/
theorem find?_isSome {m : StdMap κ β} {k : κ} :
    (m.find? k).isSome ↔ k ∈ m.toList.map Prod.fst := by
  rw [Option.isSome_iff_exists]
  constructor
  · rintro ⟨b, hb⟩
    exact List.mem_map_of_mem (mem_of_find? hb)
  · intro h
    obtain ⟨x, hx, rfl⟩ := List.mem_map.mp h
    exact ⟨x.2, find?_of_mem hx⟩

/-- A map whose keys are all among those of a map that is not larger has all of them. -/
theorem keys_eq_of_subset {γ : Type} {m : StdMap κ β} {m' : StdMap κ γ} (h : m.keys ⊆ m'.keys)
    (hs : m'.size ≤ m.size) : m.keys = m'.keys :=
  Finset.eq_of_subset_of_card_le h (by simpa using hs)

/-- Binding a key again leaves the keys as they are. -/
theorem keys_insert {m : StdMap κ β} {k : κ} (b : β) (h : k ∈ m.toList.map Prod.fst) :
    (m.insert k b).toList.map Prod.fst = m.toList.map Prod.fst := by
  show (insertList k b m.toList).map Prod.fst = _
  have hs := m.sorted
  generalize m.toList = l at h hs
  induction l with
  | nil => cases h
  | cons y ys ih =>
    obtain ⟨hy, hys⟩ := List.pairwise_cons.mp hs
    unfold insertList
    rcases List.mem_cons.mp h with rfl | h
    · rw [if_neg (lt_irrefl _), if_pos rfl]
      rfl
    · have hlt : y.1 < k := hy k h
      rw [if_neg (not_lt.mpr hlt.le), if_neg hlt.ne', List.map_cons, ih h hys]
      rfl

/-- The bindings of a map are what lookups find. -/
theorem mem_iff_find? {m : StdMap κ β} {k : κ} {b : β} : (k, b) ∈ m.toList ↔ m.find? k = some b :=
  ⟨find?_of_mem, mem_of_find?⟩

/-- The first binding found is that of the least key. -/
theorem le_of_find?_toList {m : StdMap κ β} {p : κ × β → Bool} {x y : κ × β}
    (h : m.toList.find? p = some x) (hy : y ∈ m.toList) (hp : p y) : x.1 ≤ y.1 := by
  obtain ⟨_, before, after, hl, hbefore⟩ := List.find?_eq_some_iff_append.mp h
  have hsorted := m.sorted
  rw [hl, List.map_append, List.map_cons] at hsorted
  rw [hl] at hy
  rcases List.mem_append.mp hy with hy | hy
  · have := hbefore y hy
    simp [hp] at this
  · rcases List.mem_cons.mp hy with rfl | hy
    · exact le_refl _
    · have hlater := (List.pairwise_cons.mp (List.pairwise_append.mp hsorted).2.1).1
      exact (hlater y.1 (List.mem_map_of_mem hy)).le

/-- Two maps in which every lookup finds the same are equal. -/
theorem ext_find? {m m' : StdMap κ β} (h : ∀ k, m.find? k = m'.find? k) : m = m' := by
  have hmem : ∀ x, x ∈ m.toList ↔ x ∈ m'.toList := by
    rintro ⟨k, b⟩
    rw [mem_iff_find?, mem_iff_find?, h]
  have hs : m.toList.Pairwise (fun x y => x.1 < y.1) := List.pairwise_map.mp m.sorted
  have hs' : m'.toList.Pairwise (fun x y => x.1 < y.1) := List.pairwise_map.mp m'.sorted
  have hperm : m.toList.Perm m'.toList := by
    refine (List.perm_ext_iff_of_nodup ?_ ?_).mpr hmem
    · exact hs.imp fun hlt heq => absurd (heq ▸ hlt) (lt_irrefl _)
    · exact hs'.imp fun hlt heq => absurd (heq ▸ hlt) (lt_irrefl _)
  have heq : m.toList = m'.toList :=
    hperm.eq_of_pairwise (fun x y _ _ hxy hyx => absurd (lt_trans hxy hyx) (lt_irrefl _)) hs hs'
  cases m
  cases m'
  cases heq
  rfl

instance [DecidableEq β] : DecidableEq (StdMap κ β) := fun m m' =>
  decidable_of_iff (m.toList = m'.toList) ⟨fun h => by cases m; cases m'; cases h; rfl, fun h => h ▸ rfl⟩

/-- Of two bindings of a key the later one counts. -/
theorem insert_insert (m : StdMap κ β) (k : κ) (b b' : β) :
    (m.insert k b).insert k b' = m.insert k b' :=
  ext_find? fun i => by
    rw [find?_insert, find?_insert, find?_insert]
    split_ifs <;> rfl

/-- Bindings of different keys may be made in either order. -/
theorem insert_comm (m : StdMap κ β) {k k' : κ} (b b' : β) (h : k ≠ k') :
    (m.insert k b).insert k' b' = (m.insert k' b').insert k b :=
  ext_find? fun i => by
    simp only [find?_insert]
    by_cases hi : i = k'
    · rw [if_pos hi, if_neg (by rw [hi]; exact Ne.symm h), if_pos hi]
    · rw [if_neg hi, if_neg hi]

theorem find?_emplace (m : StdMap κ β) (k i : κ) (b : β) :
    (m.emplace k b).find? i = (m.find? i).or (if i = k then some b else none) := by
  rw [emplace]
  by_cases hk : (m.find? k).isSome = true
  · obtain ⟨b', hb'⟩ := Option.isSome_iff_exists.mp hk
    rw [if_pos hk]
    split_ifs with hi
    · rw [hi, hb']
      rfl
    · rw [Option.or_none]
  · rw [if_neg hk, find?_insert]
    split_ifs with hi
    · rw [hi, Option.not_isSome_iff_eq_none.mp hk, Option.none_or]
    · rw [Option.or_none]

/-- And so may they be added. -/
theorem emplace_comm (m : StdMap κ β) {k k' : κ} (b b' : β) (h : k ≠ k') :
    (m.emplace k b).emplace k' b' = (m.emplace k' b').emplace k b :=
  ext_find? fun i => by
    simp only [find?_emplace]
    by_cases hi : i = k'
    · subst hi
      simp [Ne.symm h]
    · simp [hi]

/-- Erasing what was bound anew. -/
theorem erase_insert {m : StdMap κ β} {k : κ} (b : β) (h : m.find? k = none) :
    (m.insert k b).erase k = m :=
  ext_find? fun i => by
    rw [find?_erase, find?_insert]
    split_ifs with hi
    · rw [hi, h]
    · rfl

/-- Binding what was erased. -/
theorem insert_erase {m : StdMap κ β} {k : κ} {b : β} (h : m.find? k = some b) :
    (m.erase k).insert k b = m :=
  ext_find? fun i => by
    rw [find?_insert, find?_erase]
    split_ifs with hi
    · rw [hi, h]
    · rfl

theorem eq_empty {m : StdMap κ β} (h : m.toList = []) : m = empty := by
  cases m
  cases h
  rfl

theorem size_eq_zero {m : StdMap κ β} : m.size = 0 ↔ ∀ k, m.find? k = none := by
  refine ⟨fun h k => ?_, fun h => List.length_eq_zero_iff.mpr (List.eq_nil_iff_forall_not_mem.mpr fun x hx => ?_)⟩
  · rw [eq_empty (List.length_eq_zero_iff.mp h)]
    rfl
  · have hx' : m.find? x.1 = some x.2 := find?_of_mem hx
    rw [h] at hx'
    cases hx'

/-- The first binding is erased. -/
theorem toList_erase_head {m : StdMap κ β} {x : κ × β} {xs : List (κ × β)} (h : m.toList = x :: xs) :
    (m.erase x.1).toList = xs := by
  have hs := m.sorted
  rw [h] at hs
  obtain ⟨hlt, _⟩ := List.pairwise_cons.mp hs
  show m.toList.filter _ = xs
  rw [h, List.filter_cons_of_neg (by simp), List.filter_eq_self]
  intro y hy
  simpa using (hlt y.1 (List.mem_map_of_mem hy)).ne'

/-- The bindings with a property are as many as their keys. -/
theorem card_keys_filter (m : StdMap κ β) (p : κ × β → Bool) :
    ((m.toList.filter p).map Prod.fst).toFinset.card = m.toList.countP p := by
  have hnd : (m.toList.map Prod.fst).Nodup := m.sorted.imp (fun h => ne_of_lt h)
  rw [List.toFinset_card_of_nodup (hnd.sublist (List.filter_sublist.map _)), List.length_map,
    List.countP_eq_length_filter]

/-! ### Totals -/

/-- The total of `f` over the values. -/
def sum (m : StdMap κ β) (f : β → Nat) : Nat := (m.toList.map fun x => f x.2).sum

/-- The new total and what the key was bound to make the old total and what it is bound to. -/
theorem sum_insert (m : StdMap κ β) (k : κ) (b : β) (f : β → Nat) :
    (m.insert k b).sum f + ((m.find? k).map f).getD 0 = m.sum f + f b := by
  have hs := m.sorted
  show ((insertList k b m.toList).map fun x => f x.2).sum +
    (((m.toList.find? (·.1 = k)).map Prod.snd).map f).getD 0 = (m.toList.map fun x => f x.2).sum + f b
  generalize m.toList = l at hs
  induction l with
  | nil => simp [insertList]
  | cons y ys ih =>
    obtain ⟨hy, hys⟩ := List.pairwise_cons.mp hs
    have ih := ih hys
    rw [insertList]
    by_cases h1 : k < y.1
    · -- the keys that follow are greater
      have hnone : (y :: ys).find? (·.1 = k) = none := by
        refine List.find?_eq_none.mpr fun x hx => ?_
        rcases List.mem_cons.mp hx with rfl | hx
        · simpa using h1.ne'
        · simpa using (lt_trans h1 (hy x.1 (List.mem_map_of_mem hx))).ne'
      rw [if_pos h1, hnone]
      simp only [List.map_cons, List.sum_cons, Option.map_none, Option.getD_none]
      omega
    · by_cases h2 : k = y.1
      · rw [if_neg h1, if_pos h2, List.find?_cons_of_pos (by simpa using h2.symm)]
        simp only [List.map_cons, List.sum_cons, Option.map_some, Option.getD_some]
        omega
      · rw [if_neg h1, if_neg h2, List.find?_cons_of_neg (by simpa using Ne.symm h2)]
        simp only [List.map_cons, List.sum_cons]
        omega

/-- Apart from what a key is bound to, the total stays. -/
theorem exists_sum_insert (m : StdMap κ β) (k : κ) (f : β → Nat) :
    ∃ n, m.sum f = n + ((m.find? k).map f).getD 0 ∧ ∀ b, (m.insert k b).sum f = n + f b := by
  have hle : ((m.find? k).map f).getD 0 ≤ m.sum f := by
    cases hk : m.find? k with
    | none => exact Nat.zero_le _
    | some b =>
      obtain ⟨l, l', hl⟩ := List.append_of_mem (mem_of_find? hk)
      rw [sum, hl]
      simp only [Option.map_some, Option.getD_some, List.map_append, List.map_cons, List.sum_append,
        List.sum_cons]
      omega
  refine ⟨m.sum f - ((m.find? k).map f).getD 0, by omega, fun b => ?_⟩
  have := sum_insert m k b f
  omega

end StdMap
end Dsnet
