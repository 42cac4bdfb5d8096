import Dsnet.NIStore.OCCRollback

/-! Of one call of `nistore/occstore.cc`, `Undoable` is exactly when its inverse takes it back
    (`uncall_iff`). -/

namespace Dsnet.NIStore.OCCStore
open OCC

/-! ### Running transactions -/

/-- There is a running transaction after `unget` and `unput`. -/
theorem getTxn_find? {s s' : OCCStore} {id : Nat} {txn : Transaction} (h : s.getTxn id = some (txn, s')) :
    s'.running.find? id = some txn := by
  unfold getTxn at h
  split at h
  · obtain ⟨rfl, rfl⟩ := Prod.mk.inj (Option.some.inj h)
    exact find?_setRunning ..
  · next hf =>
    split_ifs at h
    obtain ⟨rfl, rfl⟩ := Prod.mk.inj (Option.some.inj h)
    exact hf

theorem running_of_unget {s' s : OCCStore} {id : Nat} {key : String} (h : s'.unget id key = some s) :
    ∃ txn, s.running.find? id = some txn := by
  obtain ⟨⟨txn, s₁⟩, hget, heq⟩ := Option.map_eq_some_iff.mp h
  dsimp only at heq
  split at heq
  · split_ifs at heq <;>
    · subst heq
      exact ⟨_, find?_setRunning ..⟩
  · subst heq
    exact ⟨txn, getTxn_find? hget⟩

theorem undoable_get {s s' : OCCStore} {id : Nat} {key : String} {r : Int × String}
    (h : s.get id key = some (r, s')) (hu : s'.unget id key = some s) :
    Undoable [] s (.get id key) := by
  obtain ⟨txn, hf⟩ := running_of_unget hu
  obtain ⟨hid, -, reads, hf', hreads⟩ := get_frame hf h
  obtain ⟨t, ht, -, hft⟩ : ∃ t, s'.unget id key = some t ∧ _ := unget_running hf' hid
  obtain rfl : t = s := Option.some.inj (ht.symm.trans hu)
  have hback : unread reads key = txn.readSet :=
    congrArg Transaction.readSet (Option.some.inj (hft.symm.trans hf))
  exact ⟨txn, hf, fun _ => hreads.mp hback⟩

theorem undoable_put {s s' : OCCStore} {id : Nat} {key value : String}
    (hu : s'.unput id key value = some s) : Undoable [] s (.put id key value) := by
  obtain ⟨⟨txn, s₁⟩, -, heq⟩ := Option.bind_eq_some_iff.mp hu
  dsimp only at heq
  split at heq
  · cases heq
  · next values _ =>
    split_ifs at heq
    obtain rfl := Option.some.inj heq
    refine ⟨_, find?_setRunning .., fun _ => ?_⟩
    show ((txn.writeSet.insert key values.dropLast).find? key).isSome
    rw [StdMap.find?_insert_self]
    rfl

/-! ### Ended transactions -/

theorem getRetiredTxn_id {s s' : OCCStore} {op id : Nat} {state : RetiredState} {txn : Transaction}
    (h : s.getRetiredTxn op id state = some (txn, s')) :
    txn.id = id ∧ s' = { s with retired := s.retired.dropLast } := by
  unfold getRetiredTxn at h
  split at h
  · cases h
  · split_ifs at h with hc
    obtain ⟨rfl, rfl⟩ := Prod.mk.inj (Option.some.inj h)
    exact ⟨hc.2.1, rfl⟩

/-- What `unprepare` makes run is running, and not prepared. -/
theorem unprepare_spec {s' s : OCCStore} {id op : Nat} (h : s'.unprepare id op = some s) :
    (∃ txn, s.running.find? id = some txn) ∧ s.prepared.find? id = none ∧
      (s'.prepared.find? id = none → ∃ txn, s.running.find? id = some txn ∧ txn.id = id) := by
  unfold unprepare at h
  cases hp : s'.prepared.find? id with
  | some txn =>
    rw [hp] at h
    obtain rfl := Option.some.inj h
    exact ⟨⟨txn, find?_setRunning ..⟩, (StdMap.find?_erase ..).trans (if_pos rfl), nofun⟩
  | none =>
    rw [hp] at h
    obtain ⟨⟨txn, s₁⟩, hret, rfl⟩ := Option.map_eq_some_iff.mp h
    obtain ⟨hid, rfl⟩ := getRetiredTxn_id hret
    exact ⟨⟨txn, find?_setRunning ..⟩, hp, fun _ => ⟨txn, find?_setRunning .., hid⟩⟩

theorem undoable_prepare {s s' : OCCStore} {id op : Nat} {r : Int}
    (h : s.prepare id op = some (r, s')) (hu : s'.unprepare id op = some s) :
    Undoable [] s (.prepare id op) := by
  obtain ⟨⟨txn, hf⟩, hp, hid⟩ := unprepare_spec hu
  refine ⟨txn, hf, hp, ?_⟩
  rw [prepare, hf] at h
  obtain ⟨valid, hvalid, h⟩ := Option.bind_eq_some_iff.mp h
  split_ifs at h with hv
  · obtain ⟨rfl, hw⟩ := Bool.and_eq_true_iff.mp hv
    exact .inr ⟨hvalid, hw⟩
  · obtain ⟨s₁, h₁, heq⟩ := Option.map_eq_some_iff.mp h
    rw [abortTxn_running hf] at h₁
    obtain rfl := Option.some.inj h₁
    obtain rfl := (Prod.mk.inj heq).2
    obtain ⟨txn', hf', hid⟩ := hid hp
    obtain rfl : txn = txn' := Option.some.inj (hf.symm.trans hf')
    exact .inl hid

theorem undoable_abort {s s' : OCCStore} {id op : Nat} (h : s.abortTxn id op = some s')
    (hu : s'.unabort id op = some s) : Undoable [] s (.abort id op) := by
  intro txn hor
  have hlast : ∃ state, s'.retired.getLast? = some (op, ⟨txn, state⟩) := by
    cases hf : s.running.find? id with
    | some txn' =>
      rw [hf] at hor
      obtain rfl := Option.some.inj hor
      rw [abortTxn_running hf] at h
      obtain rfl := Option.some.inj h
      exact ⟨_, List.getLast?_concat⟩
    | none =>
      rw [hf, Option.none_or] at hor
      rw [abortTxn, hf, hor] at h
      obtain rfl := Option.some.inj h
      exact ⟨_, List.getLast?_concat⟩
  obtain ⟨state, hlast⟩ := hlast
  rw [unabort, hlast] at hu
  dsimp only at hu
  by_contra hne
  rw [if_neg fun hc => hne hc.2] at hu
  cases hu

/-! ### Committed versions -/

theorem insertOlder_eq_cons {version : Nat × String} : ∀ {versions : List (Nat × String)},
    VersionedKVStore.insertOlder version versions = version :: versions →
      ∃ n older rest, versions = List.replicate n version ++ older :: rest ∧ older.1 < version.1
  | [], h => by cases h
  | x :: xs, h => by
      rw [VersionedKVStore.insertOlder] at h
      split_ifs at h with hlt
      · exact ⟨0, x, xs, rfl, hlt⟩
      · obtain ⟨rfl, h⟩ := List.cons.inj h
        obtain ⟨n, older, rest, rfl, ho⟩ := insertOlder_eq_cons h
        exact ⟨n + 1, older, rest, rfl, ho⟩

/-- If removing the version gives what was there, it is the newest. -/
theorem newest_of_put {s s' : VersionedKVStore} {key value : String} {timestamp : Nat}
    {versions : List (Nat × String)} (h : s.put key value timestamp = some s')
    (h' : s'.store.find? key = some ((timestamp, value) :: versions))
    (hf : s.store.find? key = some versions) : Newest s key (timestamp, value) := by
  unfold VersionedKVStore.put at h
  rw [hf] at h
  cases versions with
  | nil => cases h
  | cons x xs =>
    dsimp only at h
    split_ifs at h with hlt
    · exact ⟨0, x, xs, hf, hlt⟩
    · obtain rfl := Option.some.inj h
      rw [StdMap.find?_insert_self] at h'
      obtain ⟨n, older, rest, heq, ho⟩ := insertOlder_eq_cons (Option.some.inj h')
      exact ⟨n, older, rest, hf.trans (congrArg some heq), ho⟩

theorem removeAll_cons (timestamp : Nat) (s : VersionedKVStore) (write : String × List String)
    (writes : List (String × List String)) {s' : VersionedKVStore}
    (h : removeAll timestamp s (write :: writes) = some s') :
    ∃ value versions, write.2.getLast? = some value ∧
      s.store.find? write.1 = some ((timestamp, value) :: versions) ∧
        removeAll timestamp ⟨s.store.insert write.1 versions⟩ writes = some s' := by
  rw [removeAll, List.foldlM_cons] at h
  obtain ⟨s₁, h₁, h⟩ := Option.bind_eq_some_iff.mp h
  unfold VersionedKVStore.remove at h₁
  cases hf : s.store.find? write.1 with
  | none => rw [hf] at h₁; cases h₁
  | some versions =>
    cases versions with
    | nil => rw [hf] at h₁; cases h₁
    | cons version versions =>
      rw [hf] at h₁
      dsimp only at h₁
      split_ifs at h₁ with hc
      obtain rfl := Option.some.inj h₁
      exact ⟨version.2, versions, hc.2, by rw [← hc.1], h⟩

/-- `removeAll` binds the keys written. -/
theorem find?_removeAll {timestamp : Nat} {i : String} : ∀ {writes : List (String × List String)}
    {s s' : VersionedKVStore}, removeAll timestamp s writes = some s' → i ∉ writes.map Prod.fst →
      s'.store.find? i = s.store.find? i
  | [], s, s', h, _ => by
      obtain rfl : s = s' := by simpa [removeAll] using h
      rfl
  | write :: writes, s, s', h, hi => by
      rw [List.map_cons, List.mem_cons, not_or] at hi
      obtain ⟨value, versions, -, -, h⟩ := removeAll_cons _ _ _ _ h
      exact (find?_removeAll h hi.2).trans (StdMap.find?_insert_of_ne _ _ hi.1)

/-- `removeAll` takes one version of each key written away. -/
theorem removeAll_spec {timestamp : Nat} : ∀ {writes : List (String × List String)}
    {s s' : VersionedKVStore}, (writes.map Prod.fst).Nodup → removeAll timestamp s writes = some s' →
      ∀ write ∈ writes, ∃ value versions, write.2.getLast? = some value ∧
        s.store.find? write.1 = some ((timestamp, value) :: versions) ∧
          s'.store.find? write.1 = some versions
  | [], _, _, _, _, write, hw => by cases hw
  | first :: writes, s, s', hnd, h, write, hw => by
      obtain ⟨hkey, hnd⟩ := List.nodup_cons.mp hnd
      obtain ⟨value, versions, hv, hf, h⟩ := removeAll_cons _ _ _ _ h
      rcases List.mem_cons.mp hw with rfl | hw
      · exact ⟨value, versions, hv, hf, (find?_removeAll h hkey).trans (StdMap.find?_insert_self ..)⟩
      · obtain ⟨value', versions', hv', hf', hf''⟩ := removeAll_spec hnd h write hw
        have hne : write.1 ≠ first.1 := fun heq => hkey (heq ▸ List.mem_map_of_mem hw)
        exact ⟨value', versions', hv', (StdMap.find?_insert_of_ne _ _ hne).symm.trans hf', hf''⟩

/-- `putAll` puts one version of each key written. -/
theorem putAll_spec {timestamp : Nat} : ∀ {writes : List (String × List String)}
    {s s' : VersionedKVStore}, (writes.map Prod.fst).Nodup → putAll timestamp s writes = some s' →
      ∀ write ∈ writes, ∃ (value : String) (s₁ s₂ : VersionedKVStore), write.2.getLast? = some value ∧
        s₁.put write.1 value timestamp = some s₂ ∧
          s₁.store.find? write.1 = s.store.find? write.1 ∧
            s₂.store.find? write.1 = s'.store.find? write.1
  | [], _, _, _, _, write, hw => by cases hw
  | first :: writes, s, s', hnd, h, write, hw => by
      obtain ⟨hkey, hnd⟩ := List.nodup_cons.mp hnd
      rw [putAll_cons] at h
      obtain ⟨s₁, h₁, hrest⟩ := Option.bind_eq_some_iff.mp h
      obtain ⟨value, hv, hput⟩ := Option.bind_eq_some_iff.mp h₁
      rcases List.mem_cons.mp hw with rfl | hw
      · exact ⟨value, s, s₁, hv, hput, rfl, (find?_putAll hrest hkey).symm⟩
      · obtain ⟨value', t, t', hv', hput', ht, ht'⟩ := putAll_spec hnd hrest write hw
        have hne : write.1 ≠ first.1 := fun heq => hkey (heq ▸ List.mem_map_of_mem hw)
        exact ⟨value', t, t', hv', hput', ht.trans (find?_put hput hne), ht'⟩

/-- What `removeAll` takes back to where `putAll` began was the newest. -/
theorem newest_of_putAll {timestamp : Nat} {writes : List (String × List String)}
    {s s' : VersionedKVStore} (hnd : (writes.map Prod.fst).Nodup)
    (h : putAll timestamp s writes = some s') (h' : removeAll timestamp s' writes = some s)
    {write : String × List String} (hw : write ∈ writes) {value : String}
    (hv : write.2.getLast? = some value) : Newest s write.1 (timestamp, value) := by
  obtain ⟨value₁, versions, hv₁, hf', hf⟩ := removeAll_spec hnd h' write hw
  obtain ⟨value₂, s₁, s₂, hv₂, hput, hs₁, hs₂⟩ := putAll_spec hnd h write hw
  obtain rfl : value = value₁ := Option.some.inj (hv.symm.trans hv₁)
  obtain rfl : value = value₂ := Option.some.inj (hv.symm.trans hv₂)
  obtain ⟨n, older, rest, hn, ho⟩ := newest_of_put hput (hs₂.trans hf') (hs₁.trans hf)
  exact ⟨n, older, rest, hs₁.symm.trans hn, ho⟩

theorem undoable_commit {s s' : OCCStore} {id timestamp op : Nat}
    (h : s.commit id timestamp op = some s') (hu : s'.uncommit id timestamp op = some s) :
    Undoable [] s (.commit id timestamp op) := by
  intro txn key values value hp hw hv
  rw [commit, hp] at h
  dsimp only at h
  split_ifs at h with hid
  obtain ⟨store, hput, rfl⟩ := Option.map_eq_some_iff.mp h
  obtain ⟨⟨txn', s₁⟩, hret, hu⟩ := Option.bind_eq_some_iff.mp hu
  obtain ⟨store', hremove, hu⟩ := Option.bind_eq_some_iff.mp hu
  have hret' : getRetiredTxn { s with store := store
                                      prepared := s.prepared.erase id
                                      retired := s.retired ++ [(op, ⟨txn, .committed⟩)] } op id .committed =
      some (txn, { s with store := store, prepared := s.prepared.erase id }) := by
    rw [getRetiredTxn]
    simp [hid]
  obtain ⟨rfl, rfl⟩ := Prod.mk.inj (Option.some.inj (hret.symm.trans hret'))
  split_ifs at hu
  have hstore : store' = s.store := congrArg OCCStore.store (Option.some.inj hu)
  rw [hstore] at hremove
  have hnd : (txn'.writeSet.toList.map Prod.fst).Nodup := txn'.writeSet.sorted.imp fun hlt => ne_of_lt hlt
  exact newest_of_putAll hnd hput hremove (StdMap.mem_of_find? hw) hv

/-- A call is taken back exactly if it can be. -/
theorem uncall_iff {s s' : OCCStore} {c : Call} {r : Int × String}
    (h : txnStore.call s c = some (r, s')) : txnStore.uncall s' c = some s ↔ Undoable [] s c := by
  refine ⟨fun hu => ?_, fun hc => ?_⟩
  · cases c with
    | begin id =>
      have heq : s'.unbegin id = s := Option.some.inj hu
      show s.running.find? id = none
      rw [← heq]
      exact (StdMap.find?_erase ..).trans (if_pos rfl)
    | get id key => exact undoable_get h hu
    | put id key value => exact undoable_put hu
    | prepare id op =>
      obtain ⟨⟨status, s₁⟩, h₁, heq⟩ := Option.map_eq_some_iff.mp h
      obtain rfl := (Prod.mk.inj heq).2
      exact undoable_prepare h₁ hu
    | commit id timestamp op =>
      obtain ⟨s₁, h₁, heq⟩ := Option.map_eq_some_iff.mp h
      obtain rfl := (Prod.mk.inj heq).2
      exact undoable_commit h₁ hu
    | abort id op =>
      obtain ⟨s₁, h₁, heq⟩ := Option.map_eq_some_iff.mp h
      obtain rfl := (Prod.mk.inj heq).2
      exact undoable_abort h₁ hu
  · obtain ⟨t, ht, ha⟩ := undo_call hc h (.refl _ s')
    rwa [ha.eq] at ht

/-- A first write: what is taken back leaves an empty list of writes. -/
theorem uncall_iff_put : ∃ s', txnStore.call (new.begin 1) (.put 1 "k" "a") = some ((0, ""), s') ∧
    (txnStore.uncall s' (.put 1 "k" "a") = some (new.begin 1) ↔
      Undoable [] (new.begin 1) (.put 1 "k" "a")) :=
  ⟨_, rfl, uncall_iff rfl⟩

end Dsnet.NIStore.OCCStore
