import Dsnet.NIStore.OCCStore

/-! What a put of a new version leaves in `nistore/versionedKVStore.cc`. A version that is newer than those
    that a key has is put in front, and `remove` takes it away again, as `uncommit` asserts. A version that is
    older than all is lost; one in between is kept, but `remove` takes the newest instead; and for a key that
    has none, `remove` leaves an empty list, whose front the next `put` would look at. -/

namespace Dsnet.NIStore.VersionedKVStore

variable {s s' : VersionedKVStore} {key value : String} {timestamp : Nat}

/-- The versions are in order, newest first. -/
def Sorted (versions : List (Nat × String)) : Prop := versions.Pairwise fun x y => x.1 > y.1

/-- The versions of a key. -/
def versions (s : VersionedKVStore) (key : String) : List (Nat × String) := (s.store.find? key).getD []

/-- `put` has stored the version, and left the others. -/
structure Stored (s : VersionedKVStore) (key value : String) (timestamp : Nat) (s' : VersionedKVStore) :
    Prop where
  put : s.put key value timestamp = some s'
  got : s'.getAt key timestamp = some value
  sorted : Sorted (s.versions key) → Sorted (s'.versions key)
  others : ∀ k version, (k, version.1) ≠ (key, timestamp) →
    (version ∈ s'.versions k ↔ version ∈ s.versions k)

/-- And `remove` takes it away again. -/
structure Undone (s : VersionedKVStore) (key value : String) (timestamp : Nat) (s' : VersionedKVStore) :
    Prop extends Stored s key value timestamp s' where
  removed : s'.remove key = some (some ((timestamp, value), s))

/-! ### Inserting a version -/

/-- What `put` makes of the versions of a key that has some. -/
theorem put_of_find? {x : Nat × String} {xs : List (Nat × String)}
    (h : s.store.find? key = some (x :: xs)) :
    s.put key value timestamp =
      some { store := s.store.insert key (insertOlder (timestamp, value) (x :: xs)) } := by
  rw [put, h]
  by_cases hx : timestamp > x.1
  · simp [insertOlder, hx]
  · simp [hx]

theorem versions_insert (s : VersionedKVStore) (key k : String) (l : List (Nat × String)) :
    versions { store := s.store.insert key l } k = if k = key then l else s.versions k := by
  rw [versions, StdMap.find?_insert]
  split_ifs <;> rfl

/-- The new version is in front of those of which it is newer. -/
theorem stored_of_insert (newer older : List (Nat × String)) (hl : s.versions key = newer ++ older)
    (hnewer : ∀ y ∈ newer, timestamp < y.1) (holder : Sorted older → ∀ y ∈ older, y.1 < timestamp)
    (hput : s.put key value timestamp = some s')
    (hs' : s' = { store := s.store.insert key (newer ++ (timestamp, value) :: older) }) :
    Stored s key value timestamp s' where
  put := hput
  got := by
    subst hs'
    rw [getAt, StdMap.find?_insert_self, Option.bind_some, List.find?_append]
    have hnone : newer.find? (fun x => decide (x.1 ≤ timestamp)) = none :=
      List.find?_eq_none.mpr fun y hy => by simpa using hnewer y hy
    simp [hnone]
  sorted h := by
    subst hs'
    rw [versions_insert, if_pos rfl]
    rw [hl] at h
    obtain ⟨hn, ho, hno⟩ := List.pairwise_append.mp h
    refine List.pairwise_append.mpr ⟨hn, List.pairwise_cons.mpr ⟨holder ho, ho⟩, fun y hy z hz => ?_⟩
    rcases List.mem_cons.mp hz with rfl | hz
    · exact hnewer y hy
    · exact hno y hy z hz
  others k version hne := by
    subst hs'
    rw [versions_insert]
    split_ifs with hk
    · subst hk
      have hne' : version ≠ (timestamp, value) := fun h => hne (by rw [h])
      rw [hl]
      simp [hne']
    · rfl

/-- It is stored, and taken away again, just when the key has versions and the version is newer than the
    newest. -/
theorem put_undone_iff (hnew : ∀ version ∈ s.versions key, version.1 ≠ timestamp) :
    (∃ s', Undone s key value timestamp s') ↔
      ∃ newest older, s.store.find? key = some (newest :: older) ∧ newest.1 < timestamp := by
  constructor
  · rintro ⟨s', h⟩
    have hput := h.put
    obtain ⟨rest, hrest, hs⟩ : ∃ rest, s'.store.find? key = some ((timestamp, value) :: rest) ∧
        { store := s'.store.insert key rest } = s := by
      have hremoved := h.removed
      rw [remove] at hremoved
      split at hremoved
      · cases hremoved
      · cases hremoved
      · next version rest hf =>
        obtain ⟨rfl, hs⟩ := Prod.mk.inj (Option.some.inj (Option.some.inj hremoved))
        exact ⟨rest, hf, hs⟩
    have hf : s.store.find? key = some rest := by
      rw [← hs]
      exact StdMap.find?_insert_self ..
    cases rest with
    | nil =>
      rw [put, hf] at hput
      cases hput
    | cons x xs =>
      refine ⟨x, xs, hf, ?_⟩
      rw [put_of_find? hf] at hput
      obtain rfl := Option.some.inj hput
      rw [StdMap.find?_insert_self, insertOlder] at hrest
      split_ifs at hrest with hlt
      · exact hlt
      · -- it would be there already
        obtain ⟨rfl, -⟩ := List.cons.inj (Option.some.inj hrest)
        exact (hnew (timestamp, value) (by simp [versions, hf]) rfl).elim
  · rintro ⟨newest, older, hf, hlt⟩
    have heq : insertOlder (timestamp, value) (newest :: older) =
        [] ++ (timestamp, value) :: newest :: older := by
      rw [insertOlder, if_pos hlt]
      rfl
    refine ⟨_, stored_of_insert [] (newest :: older) ?_ ?_ ?_ (put_of_find? hf) (by rw [heq]), ?_⟩
    · rw [versions, hf]
      rfl
    · simp
    · intro hsorted y hy
      rcases List.mem_cons.mp hy with rfl | hy
      · exact hlt
      · exact lt_trans ((List.pairwise_cons.mp hsorted).1 y hy) hlt
    · rw [remove, heq, StdMap.find?_insert_self]
      simp [StdMap.insert_insert, StdMap.insert_of_find? hf]

/-- A store in which a key has a version. -/
def oneVersion : VersionedKVStore := { store := StdMap.empty.insert "k" [(1, "a")] }

theorem put_undone_iff_newer : (∃ s', Undone oneVersion "k" "b" 2 s') ↔
    ∃ newest older, oneVersion.store.find? "k" = some (newest :: older) ∧ newest.1 < 2 :=
  put_undone_iff (by decide)

/-- A version that is older than all is lost. -/
theorem older_version_lost : ¬ ∀ (s : VersionedKVStore) (key value : String) (timestamp : Nat),
    (∀ version ∈ s.versions key, version.1 ≠ timestamp) → ∃ s', Undone s key value timestamp s' := by
  intro hall
  obtain ⟨s', h⟩ := hall oneVersion "k" "b" 0 (by decide)
  have hsame : oneVersion.put "k" "b" 0 = some oneVersion := by decide
  obtain rfl : oneVersion = s' := Option.some.inj (hsame.symm.trans h.put)
  exact absurd h.got (by decide)

end Dsnet.NIStore.VersionedKVStore
