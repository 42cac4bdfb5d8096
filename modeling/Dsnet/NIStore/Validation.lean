import Dsnet.NIStore.OCCStore

/-! Validation in `nistore/occstore.cc`: prepared transactions do not conflict, and what they have read is
    the latest (`Validated`).

    `prepare` establishes this for the transaction that it prepares; every other call either leaves the
    store as it is and prepares nothing (`Shrinks`), or is the commit of a transaction, which by
    the invariant writes nothing that another prepared one has read. -/

namespace Dsnet.NIStore.OCCStore
open OCC

/-- The key is among those bound. -/
def Has {β : Type} (m : StdMap String β) (key : String) : Prop := (m.find? key).isSome

theorem has_iff {β : Type} {m : StdMap String β} {key : String} :
    Has m key ↔ key ∈ m.toList.map Prod.fst := StdMap.find?_isSome

/-- No key that `t` writes is read or written by `t'`. -/
def Spares (t t' : Transaction) : Prop :=
  ∀ key, Has t.writeSet key → ¬ Has t'.writeSet key ∧ ¬ Has t'.readSet key

/-- The version of the key at the timestamp is the latest, and is what a read at the timestamp gives. -/
def Latest (s : VersionedKVStore) (key : String) (timestamp : Nat) : Prop :=
  ∃ value, s.get key = some (some (timestamp, value)) ∧ s.getAt key timestamp = some value

/-- Prepared transactions spare each other, and have read the latest versions. -/
structure Validated (s : OCCStore) : Prop where
  spares : ∀ id id' t t', id ≠ id' → s.prepared.find? id = some t → s.prepared.find? id' = some t' →
    Spares t t'
  latest : ∀ id t key timestamp count, s.prepared.find? id = some t →
    t.readSet.find? key = some (timestamp, count) → Latest s.store key timestamp

/-! ### The store -/

/-- The most recent version is the one valid at its timestamp. -/
theorem latest_of_get {s : VersionedKVStore} {key : String} {version : Nat × String}
    (h : s.get key = some (some version)) : Latest s key version.1 := by
  refine ⟨version.2, h, ?_⟩
  unfold VersionedKVStore.get at h
  unfold VersionedKVStore.getAt
  cases hf : s.store.find? key with
  | none => simp [hf] at h
  | some versions =>
    cases versions with
    | nil => simp [hf] at h
    | cons x xs =>
      obtain rfl : x = version := by simpa [hf] using h
      simp

theorem get_congr {s s' : VersionedKVStore} {key : String} (h : s'.store.find? key = s.store.find? key) :
    s'.get key = s.get key := by
  unfold VersionedKVStore.get
  rw [h]

theorem Latest.congr {s s' : VersionedKVStore} {key : String} {timestamp : Nat}
    (hl : Latest s key timestamp) (h : s'.store.find? key = s.store.find? key) :
    Latest s' key timestamp := by
  obtain ⟨value, hget, -⟩ := hl
  exact latest_of_get ((get_congr h).trans hget)

/-- `put` binds one key. -/
theorem find?_put {s s' : VersionedKVStore} {key value : String} {timestamp : Nat} {i : String}
    (h : s.put key value timestamp = some s') (hi : i ≠ key) :
    s'.store.find? i = s.store.find? i := by
  unfold VersionedKVStore.put at h
  split at h
  · obtain rfl := Option.some.inj h
    exact StdMap.find?_insert_of_ne _ _ hi
  · cases h
  · split_ifs at h <;>
    · obtain rfl := Option.some.inj h
      exact StdMap.find?_insert_of_ne _ _ hi

/-- The loop of `commit` binds the keys written. -/
theorem find?_putAll {timestamp : Nat} {i : String} : ∀ {writes : List (String × List String)}
    {s s' : VersionedKVStore}, putAll timestamp s writes = some s' → i ∉ writes.map Prod.fst →
      s'.store.find? i = s.store.find? i
  | [], s, s', h, _ => by
      obtain rfl : s = s' := by simpa [putAll] using h
      rfl
  | write :: writes, s, s', h, hi => by
      rw [putAll, List.foldlM_cons] at h
      obtain ⟨s₁, h₁, h⟩ := Option.bind_eq_some_iff.mp h
      obtain ⟨value, -, h₁⟩ := Option.bind_eq_some_iff.mp h₁
      rw [List.map_cons, List.mem_cons, not_or] at hi
      exact (find?_putAll h hi.2).trans (find?_put h₁ hi.1)

/-! ### Calls that prepare nothing -/

/-- The store is as it was, and nothing new is prepared. -/
structure Shrinks (s s' : OCCStore) : Prop where
  store : s'.store = s.store
  prepared : ∀ id t, s'.prepared.find? id = some t → s.prepared.find? id = some t

theorem Shrinks.refl (s : OCCStore) : Shrinks s s := ⟨rfl, fun _ _ h => h⟩

theorem shrinks_setRunning (s : OCCStore) (id : Nat) (txn : Transaction) :
    Shrinks s (s.setRunning id txn) := ⟨rfl, fun _ _ h => h⟩

theorem Shrinks.trans {s s' s'' : OCCStore} (h : Shrinks s s') (h' : Shrinks s' s'') : Shrinks s s'' :=
  ⟨h'.store.trans h.store, fun id t ht => h.prepared id t (h'.prepared id t ht)⟩

theorem Validated.shrinks {s s' : OCCStore} (h : Validated s) (hs : Shrinks s s') : Validated s' := by
  refine ⟨fun id id' t t' hne ht ht' => ?_, fun id t key timestamp count ht hr => ?_⟩
  · exact h.spares id id' t t' hne (hs.prepared id t ht) (hs.prepared id' t' ht')
  · rw [hs.store]
    exact h.latest id t key timestamp count (hs.prepared id t ht) hr

theorem getTxn_shrinks {s s' : OCCStore} {id : Nat} {txn : Transaction}
    (h : s.getTxn id = some (txn, s')) : Shrinks s s' := by
  unfold getTxn at h
  split at h
  · cases h
    exact shrinks_setRunning ..
  · split_ifs at h
    cases h
    exact Shrinks.refl s

theorem get_shrinks {s s' : OCCStore} {id : Nat} {key : String} {r : Int × String}
    (h : s.get id key = some (r, s')) : Shrinks s s' := by
  obtain ⟨⟨txn, s₁⟩, h₁, h⟩ := Option.bind_eq_some_iff.mp h
  refine (getTxn_shrinks h₁).trans ?_
  dsimp only at h
  split at h
  · obtain ⟨_, -, h⟩ := Option.map_eq_some_iff.mp h
    cases h
    exact Shrinks.refl _
  · split at h
    · obtain ⟨_, -, h⟩ := Option.map_eq_some_iff.mp h
      cases h
      exact shrinks_setRunning ..
    · obtain ⟨found, -, h⟩ := Option.map_eq_some_iff.mp h
      cases found <;> cases h
      · exact Shrinks.refl _
      · exact shrinks_setRunning ..

theorem put_shrinks {s s' : OCCStore} {id : Nat} {key value : String} {r : Int}
    (h : s.put id key value = some (r, s')) : Shrinks s s' := by
  obtain ⟨⟨txn, s₁⟩, h₁, h⟩ := Option.map_eq_some_iff.mp h
  cases h
  exact (getTxn_shrinks h₁).trans (shrinks_setRunning ..)

theorem abortTxn_shrinks {s s' : OCCStore} {id op : Nat} (h : s.abortTxn id op = some s') :
    Shrinks s s' := by
  unfold abortTxn at h
  split at h
  · cases h
    exact ⟨rfl, fun _ _ h => h⟩
  · split at h
    · cases h
      refine ⟨rfl, fun i t ht => ?_⟩
      have ht : (s.prepared.erase id).find? i = some t := ht
      rw [StdMap.find?_erase] at ht
      split_ifs at ht
      exact ht
    · cases h

/-! ### Prepare and commit -/

theorem mem_getPreparedWrites {s : OCCStore} {key : String} {id : Nat} {t : Transaction}
    (ht : s.prepared.find? id = some t) (hk : Has t.writeSet key) :
    key ∈ s.getPreparedWrites.toList := by
  refine StdSet.mem_foldl_insert.mpr (Or.inr ⟨key, ?_, rfl⟩)
  exact List.mem_flatMap.mpr ⟨(id, t), StdMap.mem_of_find? ht, has_iff.mp hk⟩

theorem mem_getPreparedReadWrites {s : OCCStore} {key : String} {id : Nat} {t : Transaction}
    (ht : s.prepared.find? id = some t) (hk : Has t.writeSet key ∨ Has t.readSet key) :
    key ∈ s.getPreparedReadWrites.toList := by
  refine StdSet.mem_foldl_insert.mpr (Or.inr ⟨key, ?_, rfl⟩)
  exact List.mem_flatMap.mpr ⟨(id, t), StdMap.mem_of_find? ht,
    List.mem_append.mpr (hk.imp has_iff.mp has_iff.mp)⟩

/-- What the first loop of `prepare` has checked. -/
theorem readsValid_spec {s : OCCStore} : ∀ {reads : List (String × Nat × Nat)},
    s.readsValid reads = some true → ∀ x ∈ reads,
      Latest s.store x.1 x.2.1 ∧ x.1 ∉ s.getPreparedWrites.toList
  | [], _, x, hx => by cases hx
  | (key, timestamp, count) :: rest, h, x, hx => by
      unfold readsValid at h
      split at h
      · cases h
      · cases h
      · rename_i cur hcur
        split_ifs at h with hts hmem
        · cases h
        · cases h
        rcases List.mem_cons.mp hx with rfl | hx
        · refine ⟨?_, hmem⟩
          rw [← not_not.mp hts]
          exact latest_of_get hcur
        · exact readsValid_spec h x hx

theorem Validated.prepare {s s' : OCCStore} {id op : Nat} {r : Int} (hs : Validated s)
    (h : s.prepare id op = some (r, s')) : Validated s' := by
  unfold OCCStore.prepare at h
  split at h
  · cases h
    exact hs
  rename_i txn _
  obtain ⟨valid, hreads, h⟩ := Option.bind_eq_some_iff.mp h
  split_ifs at h with hvalid
  · cases h
    obtain ⟨rfl, hwrites⟩ := Bool.and_eq_true_iff.mp hvalid
    have hreads' := readsValid_spec hreads
    -- what the transaction writes is neither written nor read by a prepared one
    have hout : ∀ i t, s.prepared.find? i = some t → Spares txn t := by
      intro i t ht key hkey
      obtain ⟨x, hx, rfl⟩ := List.mem_map.mp (has_iff.mp hkey)
      have hfree : x.1 ∉ s.getPreparedReadWrites.toList :=
        of_decide_eq_true (List.all_eq_true.mp hwrites x hx)
      exact ⟨fun hw => hfree (mem_getPreparedReadWrites ht (Or.inl hw)),
        fun hr => hfree (mem_getPreparedReadWrites ht (Or.inr hr))⟩
    -- what a prepared one writes is neither written nor read by the transaction
    have hin : ∀ i t, s.prepared.find? i = some t → Spares t txn := by
      intro i t ht key hkey
      refine ⟨fun hw => (hout i t ht key hw).1 hkey, fun hr => ?_⟩
      obtain ⟨x, hx, rfl⟩ := List.mem_map.mp (has_iff.mp hr)
      exact (hreads' x hx).2 (mem_getPreparedWrites ht hkey)
    refine ⟨fun i i' t t' hne ht ht' => ?_, fun i t key timestamp count ht hr => ?_⟩
    · simp only [StdMap.find?_insert] at ht ht'
      split_ifs at ht with hi <;> split_ifs at ht' with hi'
      · exact absurd (hi.trans hi'.symm) hne
      · cases ht
        exact hout i' t' ht'
      · cases ht'
        exact hin i t ht
      · exact hs.spares i i' t t' hne ht ht'
    · simp only [StdMap.find?_insert] at ht
      split_ifs at ht with hi
      · cases ht
        exact (hreads' _ (StdMap.mem_of_find? hr)).1
      · exact hs.latest i t key timestamp count ht hr
  · obtain ⟨s₁, h₁, h⟩ := Option.map_eq_some_iff.mp h
    cases h
    exact hs.shrinks (abortTxn_shrinks h₁)

theorem Validated.commit {s s' : OCCStore} {id timestamp op : Nat} (hs : Validated s)
    (h : s.commit id timestamp op = some s') : Validated s' := by
  unfold OCCStore.commit at h
  split at h
  · cases h
  rename_i txn htxn
  split_ifs at h
  obtain ⟨store, hput, h⟩ := Option.map_eq_some_iff.mp h
  cases h
  have hold : ∀ i t, (s.prepared.erase id).find? i = some t → i ≠ id ∧ s.prepared.find? i = some t := by
    intro i t ht
    rw [StdMap.find?_erase] at ht
    split_ifs at ht with hi
    exact ⟨hi, ht⟩
  refine ⟨fun i i' t t' hne ht ht' => ?_, fun i t key timestamp' count ht hr => ?_⟩
  · exact hs.spares i i' t t' hne (hold i t ht).2 (hold i' t' ht').2
  · obtain ⟨hne, ht⟩ := hold i t ht
    have hread : Has t.readSet key := by rw [Has, hr]; rfl
    have hfree : key ∉ txn.writeSet.toList.map Prod.fst := fun hw =>
      (hs.spares id i txn t (Ne.symm hne) htxn ht key (has_iff.mpr hw)).2 hread
    exact (hs.latest i t key timestamp' count ht hr).congr (find?_putAll hput hfree)

/-- Every call keeps prepared transactions valid. -/
theorem Validated.call {s s' : OCCStore} {c : Call} {r : Int × String} (hs : Validated s)
    (h : txnStore.call s c = some (r, s')) : Validated s' := by
  cases c with
  | begin id =>
    cases h
    exact hs.shrinks (shrinks_setRunning ..)
  | get id key => exact hs.shrinks (get_shrinks h)
  | put id key value =>
    obtain ⟨x, hx, hr⟩ := Option.map_eq_some_iff.mp h
    cases hr
    exact hs.shrinks (put_shrinks hx)
  | prepare id op =>
    obtain ⟨x, hx, hr⟩ := Option.map_eq_some_iff.mp h
    cases hr
    exact hs.prepare hx
  | commit id timestamp op =>
    obtain ⟨x, hx, hr⟩ := Option.map_eq_some_iff.mp h
    cases hr
    exact hs.commit hx
  | abort id op =>
    obtain ⟨x, hx, hr⟩ := Option.map_eq_some_iff.mp h
    cases hr
    exact hs.shrinks (abortTxn_shrinks hx)

theorem validated_new : Validated new :=
  ⟨(fun _ _ _ _ _ h => by cases h), fun _ _ _ _ _ h => by cases h⟩

/-- After any calls, prepared transactions neither write a common key nor read what another one writes,
    and every version that one has read is the latest of its key. -/
theorem validated_of_calls {cs : List Call} {s : OCCStore} (h : txnStore.calls new cs = some s) :
    (∀ id id' t t', id ≠ id' → s.prepared.find? id = some t → s.prepared.find? id' = some t' →
      ∀ key, Has t.writeSet key → ¬ Has t'.writeSet key ∧ ¬ Has t'.readSet key) ∧
    ∀ id t key timestamp count, s.prepared.find? id = some t →
      t.readSet.find? key = some (timestamp, count) → Latest s.store key timestamp := by
  have hv : Validated s := txnStore.calls_invariant (fun _ _ _ _ hs hc => hs.call hc) validated_new h
  exact ⟨hv.spares, hv.latest⟩

/-- One transaction commits a version, another one reads it and prepares. -/
def commitThenRead : List Call :=
  [.begin 1, .put 1 "k" "a", .prepare 1 1, .commit 1 5 2, .begin 2, .get 2 "k", .put 2 "l" "b", .prepare 2 3]

theorem validated_of_calls_commitThenRead :
    ∃ s t, txnStore.calls new commitThenRead = some s ∧ s.prepared.find? 2 = some t ∧
      t.readSet.find? "k" = some (5, 1) ∧ Latest s.store "k" 5 := by
  obtain ⟨s, hs, t, ht, hr⟩ : ∃ s, txnStore.calls new commitThenRead = some s ∧
      ∃ t, s.prepared.find? 2 = some t ∧ t.readSet.find? "k" = some (5, 1) :=
    ⟨_, rfl, _, rfl, rfl⟩
  exact ⟨s, t, hs, ht, hr, (validated_of_calls hs).2 2 t "k" 5 1 ht hr⟩

end Dsnet.NIStore.OCCStore
