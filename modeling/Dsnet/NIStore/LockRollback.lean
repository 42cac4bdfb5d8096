import Dsnet.Lib.Agree
import Dsnet.NIStore.Isolation
import Dsnet.NIStore.LockUndo
import Dsnet.NIStore.Server

/-! Rollback of `nistore/lockstore.cc`: when operations that `nistore/server.cc` has executed are taken back,
    the values, the locks and the write sets are as they were (`Restored`), and no inverse stops the
    process.

    As for `nistore/occstore.cc`, transactions that have begun since may differ in what `unbegin` erases, and
    each call must be one that its inverse takes back (`Undoable`). What the queues of the locks hold is not
    taken back, so that nobody may wait for a lock that an inverse is to take again. -/

namespace Dsnet.NIStore

/-- The values that the key has had. -/
def KVStore.values (s : KVStore) (key : String) : List String := (s.store.find? key).getD []

namespace LockStore
open Locking

/-! ### Dropping locks and getting them again -/

theorem releaseWrites_spec {id : Nat} : ∀ {keys : List String} {s s' : LockServer}, keys.Nodup →
    releaseWrites id s keys = some s' → ∀ i,
      (if i ∈ keys then (s.lock i).releaseForWrite id else some (s.lock i)) = some (s'.lock i)
  | [], s, s', _, h, i => by
      obtain rfl : s = s' := by simpa [releaseWrites] using h
      simp
  | key :: keys, s, s', hnd, h, i => by
      obtain ⟨hkey, hnd⟩ := List.nodup_cons.mp hnd
      rw [releaseWrites, List.foldlM_cons] at h
      obtain ⟨s₁, h₁, h⟩ := Option.bind_eq_some_iff.mp h
      obtain ⟨l, hl, hlock⟩ := LockServer.exists_releaseForWrite h₁
      have hi := releaseWrites_spec hnd h i
      rw [hlock] at hi
      by_cases hik : i = key
      · subst hik
        rw [if_neg hkey, if_pos rfl] at hi
        rw [if_pos (List.mem_cons_self ..), hl, ← hi]
      · rw [if_neg hik] at hi
        simpa [hik] using hi

theorem releaseReads_spec (id : Nat) : ∀ {keys : List String} (s : LockServer), keys.Nodup → ∀ i,
    (releaseReads id s keys).lock i = if i ∈ keys then (s.lock i).releaseForRead id else s.lock i
  | [], s, _, i => by simp [releaseReads]
  | key :: keys, s, hnd, i => by
      obtain ⟨hkey, hnd⟩ := List.nodup_cons.mp hnd
      rw [releaseReads, List.foldl_cons, ← releaseReads, releaseReads_spec id _ hnd,
        LockServer.lock_releaseForRead]
      by_cases hik : i = key
      · subst hik
        rw [if_neg hkey, if_pos rfl, if_pos (List.mem_cons_self ..)]
      · simp [hik]

/-- A loop of `getLocks` takes each lock that it asks for, if each is granted. -/
theorem takeAll_spec (take : LockServer → String → Option (Bool × LockServer))
    (op : Lock → Clock → Option (Bool × Lock × Clock))
    (htake : ∀ s key, take s key = (op (s.lock key) s.clock).map fun (ok, l, clock) =>
      (ok, { s.setLock key l with clock := clock })) (g : String → Lock) :
    ∀ {keys : List String} (s : LockServer), keys.Nodup →
      (∀ key ∈ keys, ∀ clock, op (s.lock key) clock = some (true, g key, clock)) →
      ∃ s', takeAll take s keys = some s' ∧ ∀ i, s'.lock i = if i ∈ keys then g i else s.lock i
  | [], s, _, _ => ⟨s, rfl, fun i => by simp⟩
  | key :: keys, s, hnd, hg => by
      obtain ⟨hkey, hnd⟩ := List.nodup_cons.mp hnd
      have hlock : ∀ i, (s.setLock key (g key)).lock i = if i = key then g key else s.lock i :=
        fun i => LockServer.lock_setLock ..
      have hg' : ∀ i ∈ keys, ∀ clock, op ((s.setLock key (g key)).lock i) clock = some (true, g i, clock) := by
        intro i hm clock
        have hne : i ≠ key := fun he => hkey (he ▸ hm)
        rw [hlock, if_neg hne]
        exact hg i (List.mem_cons_of_mem _ hm) clock
      obtain ⟨s', hs', hi⟩ := takeAll_spec take op htake g (s.setLock key (g key)) hnd hg'
      refine ⟨s', ?_, fun i => ?_⟩
      · rw [takeAll, List.foldlM_cons, htake, hg key (List.mem_cons_self ..)]
        exact hs'
      · rw [hi, hlock]
        by_cases hik : i = key
        · subst hik
          rw [if_neg hkey, if_pos rfl, if_pos (List.mem_cons_self ..)]
        · simp [hik]

theorem nodup_keys {β : Type} (m : StdMap String β) : (m.toList.map Prod.fst).Nodup :=
  m.sorted.imp fun hlt => ne_of_lt hlt

/-- `dropLocks` drops each lock of the keys written and read. -/
theorem dropLocks_spec {s s' : LockStore} {txn : Transaction} (h : s.dropLocks txn = some s') :
    ∃ locks, s' = { s with locks := locks } ∧ ∀ i,
      (s.locks.lock i).drop txn.id (txn.writeSet.find? i).isSome (txn.readSet.find? i).isSome =
        some (locks.lock i) := by
  obtain ⟨locks, hw, rfl⟩ := Option.map_eq_some_iff.mp h
  refine ⟨_, rfl, fun i => ?_⟩
  have hi := releaseWrites_spec (nodup_keys txn.writeSet) hw i
  rw [releaseReads_spec _ _ (nodup_keys txn.readSet), Lock.drop]
  simp only [← StdMap.find?_isSome] at hi ⊢
  rw [hi]
  rfl

/-- The transaction holds the locks of what it has read and written, and nobody waits for them. -/
def Holds (s : LockStore) (txn : Transaction) : Prop :=
  ∀ key, Writes txn key ∨ Reads txn key →
    (s.locks.lock key).Held txn.id (txn.writeSet.find? key).isSome (txn.readSet.find? key).isSome ∧
      (s.locks.lock key).waitQ = []

/-- The locks that have been dropped are got again. -/
theorem getLocks_dropped {s t : LockStore} {txn : Transaction} {locks : LockServer}
    (hs : s.Holds txn)
    (hd : ∀ i, (s.locks.lock i).drop txn.id (txn.writeSet.find? i).isSome (txn.readSet.find? i).isSome =
      some (locks.lock i))
    (ht : locks.Same t.locks)
    (hq : ∀ key, Writes txn key ∨ Reads txn key → (t.locks.lock key).waitQ = []) :
    ∃ locks', t.getLocks txn = some { t with locks := locks' } ∧ s.locks.Same locks' ∧
      ∀ i, (locks'.lock i).waitQ = (t.locks.lock i).waitQ := by
  have hkey : ∀ i, ∃ m₁ n, (if (txn.writeSet.find? i).isSome then (t.locks.lock i).GivesWrite txn.id m₁
        else m₁ = t.locks.lock i) ∧
      (if (txn.readSet.find? i).isSome then m₁.GivesRead txn.id n else n = m₁) ∧
        (s.locks.lock i).Same n ∧ n.waitQ = (t.locks.lock i).waitQ := fun i =>
    Lock.Held.relock (fun hor => (hs i ((Bool.or_eq_true ..).mp hor)).1) (hd i) (ht i)
      fun hor => hq i ((Bool.or_eq_true ..).mp hor)
  choose m₁ n hm₁ hn hsame hwait using hkey
  obtain ⟨locks₁, h₁, hlock₁⟩ := takeAll_spec (·.lockForWrite · txn.id)
    (·.lockForWrite · txn.id) (fun _ _ => rfl) m₁ t.locks (nodup_keys txn.writeSet)
    fun key hmem clock => by
      have := hm₁ key
      rw [if_pos (StdMap.find?_isSome.mpr hmem)] at this
      exact this clock
  have hall : ∀ i, locks₁.lock i = m₁ i := fun i => by
    rw [hlock₁]
    split_ifs with hmem
    · rfl
    · have := hm₁ i
      rw [if_neg (mt StdMap.find?_isSome.mp hmem)] at this
      exact this.symm
  obtain ⟨locks₂, h₂, hlock₂⟩ := takeAll_spec (·.lockForRead · txn.id)
    (·.lockForRead · txn.id) (fun _ _ => rfl) n locks₁ (nodup_keys txn.readSet)
    fun key hmem clock => by
      have := hn key
      rw [if_pos (StdMap.find?_isSome.mpr hmem)] at this
      rw [hall]
      exact this clock
  have hall₂ : ∀ i, locks₂.lock i = n i := fun i => by
    rw [hlock₂]
    split_ifs with hmem
    · rfl
    · have := hn i
      rw [if_neg (mt StdMap.find?_isSome.mp hmem)] at this
      rw [hall, this]
  refine ⟨locks₂, ?_, fun i => ?_, fun i => ?_⟩
  · rw [getLocks, h₁, Option.bind_some, h₂]
    rfl
  · rw [hall₂]
    exact hsame i
  · rw [hall₂]
    exact hwait i

/-! ### Values -/

theorem values_insert (s : KVStore) (key : String) (values : List String) (i : String) :
    KVStore.values ⟨s.store.insert key values⟩ i = if i = key then values else s.values i := by
  rw [KVStore.values, StdMap.find?_insert]
  split_ifs <;> rfl

/-- `commit` puts one value of each key written. -/
theorem values_putAll {i : String} : ∀ {writes : List (String × List String)} {s s' : KVStore},
    (writes.map Prod.fst).Nodup → putAll s writes = some s' →
      if i ∈ writes.map Prod.fst then ∃ value, s'.values i = s.values i ++ [value] else s'.values i = s.values i
  | [], s, s', _, h => by
      obtain rfl : s = s' := by simpa [putAll] using h
      simp
  | (key, values) :: writes, s, s', hnd, h => by
      obtain ⟨hkey, hnd⟩ := List.nodup_cons.mp hnd
      rw [putAll, List.foldlM_cons] at h
      obtain ⟨s₁, h₁, h⟩ := Option.bind_eq_some_iff.mp h
      obtain ⟨value, -, rfl⟩ := Option.map_eq_some_iff.mp h₁
      have hi := values_putAll hnd h (i := i)
      have hput : (s.put key value).values i = if i = key then s.values key ++ [value] else s.values i :=
        values_insert ..
      rw [hput] at hi
      rw [List.map_cons]
      by_cases hik : i = key
      · subst hik
        rw [if_neg hkey, if_pos rfl] at hi
        rw [if_pos (List.mem_cons_self ..)]
        exact ⟨value, hi⟩
      · rw [if_neg hik] at hi
        simpa only [List.mem_cons, hik, false_or] using hi

/-- `uncommit` removes one value of each key written, if each that was written last is empty. -/
theorem values_removeAll : ∀ {writes : List (String × List String)} {s : KVStore},
    (writes.map Prod.fst).Nodup →
      (∀ write ∈ writes, write.2.getLast? = some "" ∧ s.values write.1 ≠ []) →
      ∃ s', removeAll s writes = some s' ∧ ∀ i,
        s'.values i = if i ∈ writes.map Prod.fst then (s.values i).dropLast else s.values i
  | [], s, _, _ => ⟨s, rfl, fun i => by simp⟩
  | (key, values) :: writes, s, hnd, hw => by
      obtain ⟨hkey, hnd⟩ := List.nodup_cons.mp hnd
      obtain ⟨hlast, hne⟩ := hw _ (List.mem_cons_self ..)
      have hremove : s.remove key = some ⟨s.store.insert key (s.values key).dropLast⟩ := by
        unfold KVStore.values at hne ⊢
        unfold KVStore.remove
        cases hf : s.store.find? key with
        | none => rw [hf] at hne; exact absurd rfl hne
        | some old =>
          rw [hf, Option.getD_some] at hne
          dsimp only
          rw [if_neg hne]
          rfl
      have hrest : ∀ write ∈ writes, write.2.getLast? = some "" ∧
          KVStore.values ⟨s.store.insert key (s.values key).dropLast⟩ write.1 ≠ [] := by
        intro write hm
        have hmem : write.1 ∈ writes.map Prod.fst := List.mem_map_of_mem hm
        have hne : write.1 ≠ key := fun he => hkey (he ▸ hmem)
        rw [values_insert, if_neg hne]
        exact hw write (List.mem_cons_of_mem _ hm)
      obtain ⟨s', hs', hi⟩ := values_removeAll hnd hrest
      refine ⟨s', ?_, fun i => ?_⟩
      · rw [removeAll, List.foldlM_cons, hremove, Option.bind_some, hlast, if_pos rfl]
        exact hs'
      · rw [hi, values_insert, List.map_cons]
        by_cases hik : i = key
        · subst hik
          rw [if_neg hkey, if_pos rfl, if_pos (List.mem_cons_self ..)]
        · simp only [List.mem_cons, hik, false_or, if_false]

/-- What `commit` puts, `uncommit` removes. -/
theorem removeAll_putAll {writes : List (String × List String)} {s s' t : KVStore}
    (hnd : (writes.map Prod.fst).Nodup) (h : putAll s writes = some s')
    (hw : ∀ write ∈ writes, write.2.getLast? = some "") (ht : ∀ i, t.values i = s'.values i) :
    ∃ t', removeAll t writes = some t' ∧ ∀ i, t'.values i = s.values i := by
  have hput : ∀ write ∈ writes, write.2.getLast? = some "" ∧ t.values write.1 ≠ [] := fun write hm => by
    have := values_putAll hnd h (i := write.1)
    rw [if_pos (List.mem_map_of_mem hm)] at this
    obtain ⟨value, hv⟩ := this
    refine ⟨hw write hm, ?_⟩
    rw [ht, hv]
    simp
  obtain ⟨t', ht', hi⟩ := values_removeAll hnd hput
  refine ⟨t', ht', fun i => ?_⟩
  have := values_putAll hnd h (i := i)
  rw [hi, ht]
  split_ifs at this ⊢ with hm
  · obtain ⟨value, hv⟩ := this
    rw [hv, List.dropLast_concat]
  · exact this

/-! ### What inverses take back -/

/-- The transactions that have begun, and the keys of those that have ended, since a state. -/
structure Past where
  begun : List Nat
  ended : List String

/-- The keys that the transaction has written or read. -/
def touchedKeys (txn : Transaction) : List String :=
  txn.writeSet.toList.map Prod.fst ++ txn.readSet.toList.map Prod.fst

/-- What a call adds. -/
def Past.next (g : Past) (s : LockStore) : Call → Past
  | .begin id => { g with begun := id :: g.begun }
  | .commit id _ _ => { g with ended := (s.prepared.find? id).elim [] touchedKeys ++ g.ended }
  | .abort id _ =>
    { g with ended := ((s.running.find? id).or (s.prepared.find? id)).elim [] touchedKeys ++ g.ended }
  | _ => g

/-- What lets a call be taken back. A transaction must not be running when it begins, and be running when it
    reads, writes or prepares. A read must not be of what it has both written and read before, and may be
    refused only if no transaction that has ended since has to get the lock again. A write must get its lock,
    and an older transaction must have written the key before. A transaction that ends must hold the locks of
    its keys, with nobody waiting for them, and one that commits must have written empty values. -/
def Undoable (g : Past) (s : LockStore) : Call → Prop
  | .begin id => s.running.find? id = none
  | .get id key => ∃ txn, s.running.find? id = some txn ∧
      match txn.readSet.find? key with
      | some count => txn.writeSet.find? key = none ∧ (s.store.get key).isSome ∧ 0 < count
      | none => txn.writeSet.find? key = none → (s.store.get key).isSome →
          ∀ ok locks, s.locks.lockForRead key id = some (ok, locks) →
            if ok then (s.locks.lock key).Joins id else key ∉ g.ended
  | .put id key _ => ∃ txn, s.running.find? id = some txn ∧ (id ∉ g.begun → Writes txn key) ∧
      (∃ locks, s.locks.lockForWrite key id = some (true, locks)) ∧
        ((s.locks.lock key).WriteHeld ↔ (txn.writeSet.find? key).getD [] ≠ [])
  | .prepare id _ => (∃ txn, s.running.find? id = some txn) ∧ s.prepared.find? id = none
  | .commit id _ _ => ∀ txn, s.prepared.find? id = some txn →
      (∀ key values, txn.writeSet.find? key = some values → values.getLast? = some "") ∧ s.Holds txn
  | .abort id _ => ∀ txn, (s.running.find? id).or (s.prepared.find? id) = some txn →
      txn.id = id ∧ s.Holds txn

/-- The values, the locks and the write sets are the same. -/
structure Restored (s t : LockStore) : Prop where
  values : ∀ key, t.store.values key = s.store.values key
  locks : s.locks.Same t.locks
  running : ∀ id, (t.running.find? id).map Transaction.writeSet = (s.running.find? id).map Transaction.writeSet
  prepared : ∀ id,
    (t.prepared.find? id).map Transaction.writeSet = (s.prepared.find? id).map Transaction.writeSet

/-! ### Agreement -/

/-- The two are one transaction, which has read the same, and written the same as far as `unput` can see. -/
structure Alike (txn txn' : Transaction) : Prop where
  id : txn'.id = txn.id
  readSet : txn'.readSet = txn.readSet
  writes : ∀ key, (txn'.writeSet.find? key).getD [] = (txn.writeSet.find? key).getD []

theorem Alike.refl (txn : Transaction) : Alike txn txn := ⟨rfl, rfl, fun _ => rfl⟩

/-- Nobody waits for a lock of a transaction that has ended. -/
def Idle (g : Past) (s : LockStore) : Prop := ∀ key ∈ g.ended, (s.locks.lock key).waitQ = []

/-- What the inverses of the calls so far have to give `t`, for the calls to have given `s`. -/
structure Agree (g : Past) (s t : LockStore) : Prop where
  values : ∀ key, t.store.values key = s.store.values key
  locks : s.locks.Same t.locks
  idle : Idle g t
  prepared : t.prepared = s.prepared
  retired : t.retired = s.retired
  running : Dsnet.Agree Alike g.begun s.running t.running

theorem Agree.refl {g : Past} {s : LockStore} (h : Idle g s) : Agree g s s :=
  ⟨fun _ => rfl, .refl _, h, rfl, rfl, .refl .refl _ _⟩

theorem Agree.restored {ended : List String} {s t : LockStore} (h : Agree ⟨[], ended⟩ s t) :
    Restored s t :=
  ⟨h.values, h.locks, fun id => by rw [h.running.eq], fun id => by rw [h.prepared]⟩

theorem mem_touchedKeys {txn : Transaction} {key : String} :
    key ∈ touchedKeys txn ↔ Writes txn key ∨ Reads txn key := by
  rw [touchedKeys, List.mem_append, ← StdMap.find?_isSome, ← StdMap.find?_isSome]
  rfl

/-! ### Nobody comes to wait -/

theorem Idle.of_lock {g : Past} {s s' : LockStore} (h : Idle g s)
    (hs : ∀ key ∈ g.ended, (s.locks.lock key).waitQ = [] → (s'.locks.lock key).waitQ = []) : Idle g s' :=
  fun key hk => hs key hk (h key hk)

/-- `dropLocks` leaves the queues. -/
theorem waitQ_drop {l l' : Lock} {r : Nat} {written read : Bool} (h : l.drop r written read = some l') :
    l'.waitQ = l.waitQ := by
  obtain ⟨l₁, hl₁, rfl⟩ := Option.map_eq_some_iff.mp h
  have h₁ : l₁.waitQ = l.waitQ := by
    cases written with
    | false => rw [← Option.some.inj hl₁]
    | true =>
      obtain ⟨m, hm, -, hq⟩ := (Lock.Same.refl l).releaseForWrite hl₁
      rw [← hq, Option.some.inj (hl₁.symm.trans hm)]
  cases read with
  | false => exact h₁
  | true => exact (Lock.waitQ_releaseForRead ..).trans h₁

/-- A transaction ends whose locks nobody waits for. -/
theorem Idle.ends {g : Past} {s s' s₁ s₂ : LockStore} {txn : Transaction} (h : Idle g s)
    (hs : s.Holds txn) (hd : s₁.dropLocks txn = some s₂) (h₁ : s₁.locks = s.locks)
    (h₂ : s'.locks = s₂.locks) : Idle { g with ended := touchedKeys txn ++ g.ended } s' := by
  obtain ⟨locks, rfl, hdrop⟩ := dropLocks_spec hd
  rw [h₁] at hdrop
  intro key hk
  rw [h₂]
  show (locks.lock key).waitQ = []
  rw [waitQ_drop (hdrop key)]
  rcases List.mem_append.mp hk with hk | hk
  · exact (hs key (mem_touchedKeys.mp hk)).2
  · exact h key hk

/-! ### Reads -/

/-- What `get` does for a running transaction: nothing, when it has written the key or there is none; a
    repeated read, which is counted; or a first read, which needs the lock. -/
theorem get_cases {s s' : LockStore} {id : Nat} {key : String} {r : Int × String} {txn : Transaction}
    (hf : s.running.find? id = some txn) (h : s.get id key = some (r, s')) :
    (s' = s ∧ (Writes txn key ∨ txn.writeSet.find? key = none ∧ s.store.get key = none)) ∨
      (txn.writeSet.find? key = none ∧ (s.store.get key).isSome ∧
        ((∃ count, txn.readSet.find? key = some count ∧
            s' = s.setRunning id { txn with readSet := txn.readSet.insert key (count + 1) }) ∨
          (txn.readSet.find? key = none ∧ ∃ ok locks, s.locks.lockForRead key id = some (ok, locks) ∧
            s' = if ok then
                { s with locks := locks }.setRunning id { txn with readSet := txn.readSet.insert key 1 }
              else { s with locks := locks }))) := by
  obtain ⟨⟨txn', s₁⟩, hget, h⟩ := Option.bind_eq_some_iff.mp h
  rw [getTxn, hf] at hget
  dsimp only at hget
  split_ifs at hget with hid
  obtain ⟨rfl, rfl⟩ := Prod.mk.inj (Option.some.inj hget)
  dsimp only at h
  cases hw : txn.writeSet.find? key with
  | some values =>
    rw [hw] at h
    obtain ⟨value, -, heq⟩ := Option.map_eq_some_iff.mp h
    exact .inl ⟨(Prod.mk.inj heq).2.symm, .inl (by rw [Writes, hw]; rfl)⟩
  | none =>
    rw [hw] at h
    dsimp only at h
    cases hv : s.store.get key with
    | none =>
      rw [hv] at h
      exact .inl ⟨(Prod.mk.inj (Option.some.inj h)).2.symm, .inr ⟨rfl, rfl⟩⟩
    | some value =>
      rw [hv] at h
      dsimp only at h
      refine .inr ⟨rfl, rfl, ?_⟩
      cases hr : txn.readSet.find? key with
      | some count =>
        rw [hr] at h
        exact .inl ⟨count, rfl, (Prod.mk.inj (Option.some.inj h)).2.symm⟩
      | none =>
        rw [hr] at h
        obtain ⟨⟨ok, locks⟩, hl, heq⟩ := Option.map_eq_some_iff.mp h
        refine .inr ⟨rfl, ok, locks, hl, ?_⟩
        cases ok with
        | true => exact (Prod.mk.inj heq).2.symm
        | false => exact (Prod.mk.inj heq).2.symm

theorem idle_get {g : Past} {s s' : LockStore} {id : Nat} {key : String} {r : Int × String}
    (hi : Idle g s) (hc : Undoable g s (.get id key)) (h : s.get id key = some (r, s')) : Idle g s' := by
  obtain ⟨txn, hf, hc⟩ := hc
  rcases get_cases hf h with ⟨rfl, -⟩ | ⟨hw, hv, ⟨count, hr, rfl⟩ | ⟨hr, ok, locks, hl, rfl⟩⟩
  · exact hi
  · exact hi
  · rw [hr] at hc
    have hok := hc hw hv ok locks hl
    obtain ⟨l, clock, hlock, hlocks⟩ := LockServer.exists_lockForRead hl
    cases ok with
    | true =>
      refine hi.of_lock fun i _ hq => ?_
      show (locks.lock i).waitQ = []
      rw [hlocks]
      split_ifs with hik
      · subst hik
        exact Lock.waitQ_lockForRead hlock hq
      · exact hq
    | false =>
      refine hi.of_lock fun i hk hq => ?_
      have hne : i ≠ key := fun he => hok (he ▸ hk)
      show (locks.lock i).waitQ = []
      rw [hlocks, if_neg hne]
      exact hq

theorem unget_running {t : LockStore} {id : Nat} {key : String} {txn : Transaction}
    (hf : t.running.find? id = some txn) : t.unget id key =
      match txn.readSet.find? key with
      | none => some t
      | some count =>
        if count > 1 then
          some (t.setRunning id { txn with readSet := txn.readSet.insert key (count - 1) })
        else
          some ({ t with locks := t.locks.releaseForRead key id }.setRunning id
            { txn with readSet := txn.readSet.erase key }) := by
  cases hr : txn.readSet.find? key <;> simp only [unget, hf, hr]

/-- A running transaction changes, together with the locks. -/
theorem Agree.back {g : Past} {s' t' : LockStore} {id : Nat} {txn u : Transaction} {locks : LockServer}
    (h : Agree g s' t') (s : LockStore) (hv : s'.store = s.store) (hp : s'.prepared = s.prepared)
    (hr : s'.retired = s.retired) (hrun : ∀ i, i ≠ id → s'.running.find? i = s.running.find? i)
    (hf : s.running.find? id = some txn) (ha : Alike txn u) (ho : id ∉ g.begun → u = txn)
    (hl : s.locks.Same locks) (hq : ∀ i, (locks.lock i).waitQ = (t'.locks.lock i).waitQ) :
    Agree g s ({ t' with locks := locks }.setRunning id u) :=
  ⟨fun key => by rw [← hv]; exact h.values key, hl, fun key hk => (hq key).trans (h.idle key hk),
    h.prepared.trans hp, h.retired.trans hr,
    h.running.of_binding hrun (fun _ hi => StdMap.find?_insert_of_ne _ _ hi) hf (StdMap.find?_insert_self ..)
      ha ho⟩

/-- A call that leaves the transactions. -/
theorem Agree.still {g : Past} {s' t : LockStore} (h : Agree g s' t) (s : LockStore) (hv : s'.store = s.store)
    (hp : s'.prepared = s.prepared) (hr : s'.retired = s.retired) (hrun : s'.running = s.running)
    (hl : s.locks.Same t.locks) : Agree g s t :=
  ⟨fun key => by rw [← hv]; exact h.values key, hl, h.idle, h.prepared.trans hp, h.retired.trans hr,
    by rw [← hrun]; exact h.running⟩

theorem undo_get {g : Past} {s s' t' : LockStore} {id : Nat} {key : String} {r : Int × String}
    (hc : Undoable g s (.get id key)) (h : s.get id key = some (r, s')) (ha : Agree g s' t') :
    ∃ t, t'.unget id key = some t ∧ Agree g s t := by
  obtain ⟨txn, hf, hc⟩ := hc
  rcases get_cases hf h with ⟨rfl, hno⟩ | ⟨hw, hv, ⟨count, hr, rfl⟩ | ⟨hr, ok, locks, hl, rfl⟩⟩
  · -- what has not been read is not taken back
    obtain ⟨u, hu, halike, -⟩ := ha.running.find? .refl hf
    have hnone : txn.readSet.find? key = none := by
      cases hr : txn.readSet.find? key with
      | none => rfl
      | some count =>
        rw [hr] at hc
        rcases hno with hw | ⟨-, hv⟩
        · rw [Writes, hc.1] at hw
          cases hw
        · rw [hv] at hc
          cases hc.2.1
    exact ⟨t', by rw [unget_running hu, halike.readSet, hnone], ha⟩
  · -- a repeated read
    obtain ⟨u, hu, halike, ho⟩ := ha.running.find? .refl (StdMap.find?_insert_self ..)
    rw [hr] at hc
    have hpos : count + 1 > 1 := by
      have := hc.2.2
      omega
    have hback : (txn.readSet.insert key (count + 1)).insert key count = txn.readSet := by
      rw [StdMap.insert_insert, StdMap.insert_of_find? hr]
    have hu' : Alike txn { u with readSet := txn.readSet } := ⟨halike.id, rfl, halike.writes⟩
    refine ⟨{ t' with locks := t'.locks }.setRunning id { u with readSet := txn.readSet }, ?_,
      ha.back s rfl rfl rfl (fun _ hi => StdMap.find?_insert_of_ne _ _ hi) hf hu' (fun hn => ?_) ha.locks
        fun _ => rfl⟩
    · rw [unget_running hu, halike.readSet]
      simp only [StdMap.find?_insert_self, hpos, if_true, Nat.add_sub_cancel, hback]
    · rw [ho hn]
  · rw [hr] at hc
    have hok := hc hw hv ok locks hl
    cases ok with
    | true =>
      -- a first read
      rw [if_pos rfl] at ha
      obtain ⟨u, hu, halike, ho⟩ := ha.running.find? .refl (StdMap.find?_insert_self ..)
      have hu' : Alike txn { u with readSet := txn.readSet } := ⟨halike.id, rfl, halike.writes⟩
      refine ⟨{ t' with locks := t'.locks.releaseForRead key id }.setRunning id
          { u with readSet := txn.readSet }, ?_,
        ha.back s rfl rfl rfl (fun _ hi => StdMap.find?_insert_of_ne _ _ hi) hf hu' (fun hn => ?_)
          (ha.locks.releaseForRead hl hok) fun i => ?_⟩
      · rw [unget_running hu, halike.readSet]
        simp only [StdMap.find?_insert_self, gt_iff_lt, lt_irrefl, if_false, StdMap.erase_insert _ hr]
      · rw [ho hn]
      · rw [LockServer.lock_releaseForRead]
        split_ifs with hik
        · rw [hik, Lock.waitQ_releaseForRead]
        · rfl
    | false =>
      -- a read that has been refused
      rw [if_neg Bool.false_ne_true] at ha
      obtain ⟨u, hu, halike, -⟩ := ha.running.find? .refl hf
      exact ⟨t', by rw [unget_running hu, halike.readSet, hr],
        ha.still s rfl rfl rfl rfl (ha.locks.of_refused hl)⟩

/-! ### Writes -/

/-- What `put` does for a running transaction that gets the lock. -/
theorem put_granted {s s' : LockStore} {id : Nat} {key value : String} {r : Int} {txn : Transaction}
    {locks : LockServer} (hf : s.running.find? id = some txn)
    (hl : s.locks.lockForWrite key id = some (true, locks)) (h : s.put id key value = some (r, s')) :
    s' = { s with locks := locks }.setRunning id
      { txn with writeSet := txn.writeSet.insert key ((txn.writeSet.find? key).getD [] ++ [value]) } := by
  obtain ⟨⟨txn', s₁⟩, hget, h⟩ := Option.bind_eq_some_iff.mp h
  rw [getTxn, hf] at hget
  dsimp only at hget
  split_ifs at hget with hid
  obtain ⟨rfl, rfl⟩ := Prod.mk.inj (Option.some.inj hget)
  dsimp only at h
  rw [hl, Option.map_some] at h
  exact (Prod.mk.inj (Option.some.inj h)).2.symm

theorem idle_put {g : Past} {s s' : LockStore} {id : Nat} {key value : String} {r : Int}
    (hi : Idle g s) (hc : Undoable g s (.put id key value)) (h : s.put id key value = some (r, s')) :
    Idle g s' := by
  obtain ⟨txn, hf, -, ⟨locks, hl⟩, -⟩ := hc
  obtain rfl := put_granted hf hl h
  obtain ⟨l, clock, hlock, hlocks⟩ := LockServer.exists_lockForWrite hl
  refine hi.of_lock fun i _ hq => ?_
  show (locks.lock i).waitQ = []
  rw [hlocks]
  split_ifs with hik
  · subst hik
    exact Lock.waitQ_lockForWrite hlock hq
  · exact hq

/-- The lock of a key that is written for the first time is released; others are kept. -/
theorem unput_locks {s locks t : LockServer} {key : String} {id : Nat} {values : List String}
    (hl : s.lockForWrite key id = some (true, locks)) (ht : locks.Same t)
    (hw : (s.lock key).WriteHeld ↔ values ≠ []) :
    ∃ t', (if values = [] then t.releaseForWrite key id else some t) = some t' ∧ s.Same t' ∧
      ∀ i, (t'.lock i).waitQ = (t.lock i).waitQ := by
  by_cases hv : values = []
  · rw [if_pos hv]
    exact ht.releaseForWrite hl fun hheld => hw.mp hheld hv
  · rw [if_neg hv]
    exact ⟨t, rfl, ht.of_writeHeld hl (hw.mpr hv), fun _ => rfl⟩

theorem undo_put {g : Past} {s s' t' : LockStore} {id : Nat} {key value : String} {r : Int}
    (hc : Undoable g s (.put id key value)) (h : s.put id key value = some (r, s'))
    (ha : Agree g s' t') : ∃ t, t'.unput id key value = some t ∧ Agree g s t := by
  obtain ⟨txn, hf, hold, ⟨locks, hl⟩, hw⟩ := hc
  obtain rfl := put_granted hf hl h
  obtain ⟨u, hu, halike, ho⟩ := ha.running.find? .refl (StdMap.find?_insert_self ..)
  generalize hvs : (txn.writeSet.find? key).getD [] = values at hw halike ho ha
  -- the value is the last that the transaction has written
  have hwrite : u.writeSet.find? key = some (values ++ [value]) := by
    have hlast := halike.writes key
    rw [StdMap.find?_insert_self, Option.getD_some] at hlast
    cases huw : u.writeSet.find? key with
    | none =>
      rw [huw] at hlast
      exact absurd hlast (by simp)
    | some written =>
      rw [huw, Option.getD_some] at hlast
      rw [hlast]
  obtain ⟨locks', hl', hsame, hwait⟩ := unput_locks hl ha.locks hw
  have hu' : Alike txn { u with writeSet := u.writeSet.insert key values } := by
    refine ⟨halike.id, halike.readSet, fun i => ?_⟩
    by_cases hik : i = key
    · rw [hik, StdMap.find?_insert_self, hvs]
      rfl
    · rw [StdMap.find?_insert_of_ne _ _ hik, halike.writes, StdMap.find?_insert_of_ne _ _ hik]
  refine ⟨{ t' with locks := locks' }.setRunning id { u with writeSet := u.writeSet.insert key values }, ?_,
    ha.back s rfl rfl rfl (fun _ hi => StdMap.find?_insert_of_ne _ _ hi) hf hu' (fun hn => ?_) hsame hwait⟩
  · rw [unput, hu]
    simp only [hwrite, List.getLast?_append, List.getLast?_singleton, Option.some_or, if_true,
      List.dropLast_concat, hl', Option.map_some]
  · obtain ⟨written, hwritten⟩ := Option.isSome_iff_exists.mp (hold hn)
    rw [hwritten, Option.getD_some] at hvs
    rw [ho hn]
    simp only [StdMap.insert_insert, ← hvs, StdMap.insert_of_find? hwritten]

/-! ### Transactions that begin and end -/

theorem undo_begin {g : Past} {s t' : LockStore} {id : Nat} (hc : s.running.find? id = none)
    (ha : Agree { g with begun := id :: g.begun } (s.begin id) t') : Agree g s (t'.unbegin id) :=
  ⟨ha.values, ha.locks, ha.idle, ha.prepared, ha.retired, ha.running.erase hc⟩

theorem undo_prepare {g : Past} {s s' t' : LockStore} {id op : Nat} {r : Int}
    (hc : Undoable g s (.prepare id op)) (h : s.prepare id op = (r, s')) (ha : Agree g s' t') :
    ∃ t, t'.unprepare id op = some t ∧ Agree g s t := by
  obtain ⟨⟨txn, hf⟩, hp⟩ := hc
  rw [prepare, hf] at h
  obtain rfl := (Prod.mk.inj h).2
  have hp' : t'.prepared.find? id = some txn := by rw [ha.prepared, StdMap.find?_insert_self]
  refine ⟨{ t'.setRunning id txn with prepared := t'.prepared.erase id }, by rw [unprepare, hp'],
    ha.values, ha.locks, ha.idle, ?_, ha.retired, ha.running.insert .refl hf⟩
  show t'.prepared.erase id = _
  rw [ha.prepared, StdMap.erase_insert _ hp]

/-- What `commit` does to a prepared transaction. -/
theorem commit_spec {s s' : LockStore} {id timestamp op : Nat} {txn : Transaction}
    (hp : s.prepared.find? id = some txn) (h : s.commit id timestamp op = some s') :
    txn.id = id ∧ ∃ store locks, putAll s.store txn.writeSet.toList = some store ∧
      dropLocks { s with store := store } txn = some { s with store := store, locks := locks } ∧
        s' = { s with store := store, locks := locks, prepared := s.prepared.erase id
                      retired := s.retired ++ [(op, ⟨txn, .committed⟩)] } := by
  rw [commit, hp] at h
  dsimp only at h
  split_ifs at h with hid
  obtain ⟨store, hput, h⟩ := Option.bind_eq_some_iff.mp h
  obtain ⟨s₁, hd, rfl⟩ := Option.map_eq_some_iff.mp h
  obtain ⟨locks, rfl, -⟩ := dropLocks_spec hd
  exact ⟨hid, store, locks, hput, hd, rfl⟩

theorem undo_commit {g : Past} {s s' t' : LockStore} {id timestamp op : Nat}
    (hc : Undoable g s (.commit id timestamp op)) (h : s.commit id timestamp op = some s')
    (ha : Agree (g.next s (.commit id timestamp op)) s' t') :
    ∃ t, t'.uncommit id timestamp op = some t ∧ Agree g s t := by
  cases hp : s.prepared.find? id with
  | none =>
    rw [commit, hp] at h
    cases h
  | some txn =>
    obtain ⟨hempty, hholds⟩ := hc txn hp
    obtain ⟨hid, store, locks, hput, hd, rfl⟩ := commit_spec hp h
    have hidle : ∀ key, Writes txn key ∨ Reads txn key → (t'.locks.lock key).waitQ = [] := fun key hk => by
      refine ha.idle key (List.mem_append_left _ ?_)
      rw [hp]
      exact mem_touchedKeys.mpr hk
    have hlast : t'.getRetiredTxn op id .committed = some (txn, { t' with retired := s.retired }) := by
      rw [getRetiredTxn, ha.retired]
      simp [hid]
    obtain ⟨store', hremove, hvalues⟩ := removeAll_putAll (nodup_keys txn.writeSet) hput
      (fun write hw => hempty write.1 write.2 (StdMap.find?_of_mem hw)) ha.values
    obtain ⟨locks₁, heq, hdrop⟩ := dropLocks_spec hd
    obtain rfl : locks = locks₁ := congrArg LockStore.locks heq
    obtain ⟨locks', hget, hsame, hwait⟩ := getLocks_dropped
      (t := { t' with retired := s.retired, store := store' }) hholds hdrop ha.locks hidle
    have hp' : t'.prepared.find? id = none := by rw [ha.prepared, StdMap.find?_erase, if_pos rfl]
    refine ⟨{ t' with retired := s.retired, store := store', locks := locks'
                      prepared := t'.prepared.insert id txn }, ?_, hvalues, hsame,
      fun key hk => (hwait key).trans (ha.idle key (List.mem_append_right _ hk)), ?_, rfl, ha.running⟩
    · rw [uncommit, hlast, Option.bind_some]
      simp [hremove, hget, hp']
    · show t'.prepared.insert id txn = _
      rw [ha.prepared, StdMap.insert_erase hp]

/-- What `abortTxn` does to a transaction that is running or prepared. -/
theorem abortTxn_spec {s s' : LockStore} {id op : Nat} {txn : Transaction}
    (hor : (s.running.find? id).or (s.prepared.find? id) = some txn) (h : s.abortTxn id op = some s') :
    ∃ locks, s.dropLocks txn = some { s with locks := locks } ∧
      ((s.running.find? id = some txn ∧
        s' = { s with locks := locks, retired := s.retired ++ [(op, ⟨txn, .abortedRunning⟩)]
                      running := s.running.erase id }) ∨
        (s.prepared.find? id = some txn ∧
          s' = { s with locks := locks, retired := s.retired ++ [(op, ⟨txn, .abortedPrepared⟩)]
                        prepared := s.prepared.erase id })) := by
  unfold abortTxn at h
  cases hf : s.running.find? id with
  | some txn' =>
    rw [hf] at h hor
    obtain rfl : txn' = txn := Option.some.inj hor
    obtain ⟨s₁, hd, rfl⟩ := Option.map_eq_some_iff.mp h
    obtain ⟨locks, rfl, -⟩ := dropLocks_spec hd
    exact ⟨locks, hd, .inl ⟨rfl, rfl⟩⟩
  | none =>
    rw [hf, Option.none_or] at hor
    rw [hf, hor] at h
    obtain ⟨s₁, hd, rfl⟩ := Option.map_eq_some_iff.mp h
    obtain ⟨locks, rfl, -⟩ := dropLocks_spec hd
    exact ⟨locks, hd, .inr ⟨hor, rfl⟩⟩

theorem undo_abort {g : Past} {s s' t' : LockStore} {id op : Nat} (hc : Undoable g s (.abort id op))
    (h : s.abortTxn id op = some s') (ha : Agree (g.next s (.abort id op)) s' t') :
    ∃ t, t'.unabort id op = some t ∧ Agree g s t := by
  cases hor : (s.running.find? id).or (s.prepared.find? id) with
  | none =>
    obtain ⟨hf, hp⟩ := Option.or_eq_none_iff.mp hor
    rw [abortTxn, hf, hp] at h
    cases h
  | some txn =>
    obtain ⟨hid, hholds⟩ := hc txn hor
    obtain ⟨locks, hd, hcases⟩ := abortTxn_spec hor h
    obtain ⟨locks₁, heq, hdrop⟩ := dropLocks_spec hd
    obtain rfl : locks = locks₁ := congrArg LockStore.locks heq
    have hidle : ∀ key, Writes txn key ∨ Reads txn key → (t'.locks.lock key).waitQ = [] := fun key hk => by
      refine ha.idle key (List.mem_append_left _ ?_)
      rw [hor]
      exact mem_touchedKeys.mpr hk
    have hend : ∀ key ∈ g.ended, (t'.locks.lock key).waitQ = [] := fun key hk =>
      ha.idle key (List.mem_append_right _ hk)
    rcases hcases with ⟨hf, rfl⟩ | ⟨hp, rfl⟩
    · obtain ⟨locks', hget, hsame, hwait⟩ := getLocks_dropped (t := t'.setRunning id txn) hholds hdrop
        ha.locks hidle
      have hr : t'.running.find? id = none :=
        ha.running.find?_eq_none .refl ((StdMap.find?_erase ..).trans (if_pos rfl))
      have hlast : t'.retired.getLast? = some (op, ⟨txn, .abortedRunning⟩) := by
        rw [ha.retired]
        simp
      refine ⟨{ t'.setRunning id txn with locks := locks', retired := t'.retired.dropLast }, ?_, ha.values,
        hsame, fun key hk => (hwait key).trans (hend key hk), ha.prepared, ?_, ha.running.insert .refl hf⟩
      · rw [unabort, hlast]
        simp only [hid, and_self, if_true, restore, hr, Option.isSome_none, Bool.false_eq_true, if_false,
          Option.bind_some, hget, Option.map_some]
        rfl
      · show t'.retired.dropLast = _
        rw [ha.retired, List.dropLast_concat]
    · obtain ⟨locks', hget, hsame, hwait⟩ := getLocks_dropped
        (t := { t' with prepared := t'.prepared.insert id txn }) hholds hdrop ha.locks hidle
      have hp' : t'.prepared.find? id = none := by rw [ha.prepared, StdMap.find?_erase, if_pos rfl]
      have hlast : t'.retired.getLast? = some (op, ⟨txn, .abortedPrepared⟩) := by
        rw [ha.retired]
        simp
      refine ⟨{ t' with locks := locks', prepared := t'.prepared.insert id txn
                        retired := t'.retired.dropLast }, ?_, ha.values, hsame,
        fun key hk => (hwait key).trans (hend key hk), ?_, ?_, ha.running⟩
      · rw [unabort, hlast]
        simp only [hid, and_self, if_true, restore, hp', Option.isSome_none, Bool.false_eq_true, if_false,
          Option.bind_some, hget, Option.map_some]
      · show t'.prepared.insert id txn = _
        rw [ha.prepared, StdMap.insert_erase hp]
      · show t'.retired.dropLast = _
        rw [ha.retired, List.dropLast_concat]

/-! ### Operations -/

/-- Nobody comes to wait for a lock of a transaction that has ended. -/
theorem idle_call {g : Past} {s s' : LockStore} {c : Call} {r : Int × String} (hi : Idle g s)
    (hc : Undoable g s c) (h : txnStore.call s c = some (r, s')) : Idle (g.next s c) s' := by
  cases c with
  | begin id =>
    obtain rfl := (Prod.mk.inj (Option.some.inj h)).2
    exact hi
  | get id key => exact idle_get hi hc h
  | put id key value =>
    obtain ⟨⟨status, s₁⟩, h₁, heq⟩ := Option.map_eq_some_iff.mp h
    obtain rfl := (Prod.mk.inj heq).2
    exact idle_put hi hc h₁
  | prepare id op =>
    obtain rfl : (s.prepare id op).2 = s' := (Prod.mk.inj (Option.some.inj h)).2
    obtain ⟨⟨txn, hf⟩, -⟩ := hc
    rw [prepare, hf]
    exact hi
  | commit id timestamp op =>
    obtain ⟨s₁, h₁, heq⟩ := Option.map_eq_some_iff.mp h
    obtain rfl := (Prod.mk.inj heq).2
    have h₁ : s.commit id timestamp op = some s₁ := h₁
    cases hp : s.prepared.find? id with
    | none =>
      rw [commit, hp] at h₁
      cases h₁
    | some txn =>
      obtain ⟨-, store, locks, -, hd, rfl⟩ := commit_spec hp h₁
      rw [Past.next, hp]
      exact hi.ends (hc txn hp).2 hd rfl rfl
  | abort id op =>
    obtain ⟨s₁, h₁, heq⟩ := Option.map_eq_some_iff.mp h
    obtain rfl := (Prod.mk.inj heq).2
    cases hor : (s.running.find? id).or (s.prepared.find? id) with
    | none =>
      obtain ⟨hf, hp⟩ := Option.or_eq_none_iff.mp hor
      have h₁ : s.abortTxn id op = some s₁ := h₁
      rw [abortTxn, hf, hp] at h₁
      cases h₁
    | some txn =>
      obtain ⟨locks, hd, hcases⟩ := abortTxn_spec hor h₁
      rw [Past.next, hor]
      rcases hcases with ⟨-, rfl⟩ | ⟨-, rfl⟩
      · exact hi.ends (hc txn hor).2 hd rfl rfl
      · exact hi.ends (hc txn hor).2 hd rfl rfl

/-- Each call that can be taken back is. -/
theorem undo_call {g : Past} {s s' t' : LockStore} {c : Call} {r : Int × String} (hc : Undoable g s c)
    (h : txnStore.call s c = some (r, s')) (ha : Agree (g.next s c) s' t') :
    ∃ t, txnStore.uncall t' c = some t ∧ Agree g s t := by
  cases c with
  | begin id =>
    obtain rfl := (Prod.mk.inj (Option.some.inj h)).2
    exact ⟨_, rfl, undo_begin hc ha⟩
  | get id key => exact undo_get hc h ha
  | put id key value =>
    obtain ⟨⟨status, s₁⟩, h₁, heq⟩ := Option.map_eq_some_iff.mp h
    obtain rfl := (Prod.mk.inj heq).2
    exact undo_put hc h₁ ha
  | prepare id op =>
    obtain rfl : (s.prepare id op).2 = s' := (Prod.mk.inj (Option.some.inj h)).2
    exact undo_prepare hc rfl ha
  | commit id timestamp op =>
    obtain ⟨s₁, h₁, heq⟩ := Option.map_eq_some_iff.mp h
    obtain rfl := (Prod.mk.inj heq).2
    exact undo_commit hc h₁ ha
  | abort id op =>
    obtain ⟨s₁, h₁, heq⟩ := Option.map_eq_some_iff.mp h
    obtain rfl := (Prod.mk.inj heq).2
    exact undo_abort hc h₁ ha

/-- Operations whose calls can be taken back are taken back by the server, from any state on, and no inverse
    stops the process. -/
theorem restores (parse : String → Request) {s s' : LockStore} {opMap : StdMap Nat String}
    (hm : Server.Meets txnStore parse Past.next Undoable ⟨[], []⟩ s opMap)
    (h : Server.replicaUpcalls txnStore parse s opMap = some s') :
    ∃ t, Server.rollbackUpcall txnStore parse s' opMap = some t ∧ Restored s t := by
  obtain ⟨t, ht, ha⟩ := Server.rollback_of_calls (I := Idle) (A := Agree) (fun _ _ _ _ _ => idle_call)
    (fun _ _ => Agree.refl) (fun _ _ _ _ _ _ => undo_call) (nofun : Idle ⟨[], []⟩ s) hm h
  exact ⟨t, ht, ha.restored⟩

theorem restores_emptyValue :
    ∃ s', Server.replicaUpcalls txnStore Server.parseRequest (new stopped)
          (Server.transaction "\x08\x03\x10\x01\x1a\x01k\x22\x00") = some s' ∧
      ∃ t, Server.rollbackUpcall txnStore Server.parseRequest s'
          (Server.transaction "\x08\x03\x10\x01\x1a\x01k\x22\x00") = some t ∧
        Restored (new stopped) t := by
  refine ⟨_, rfl, restores Server.parseRequest ?_ rfl⟩
  refine Server.meets_cons (c := .begin 1) (by decide) rfl rfl ?_
  refine Server.meets_cons (c := .put 1 "k" "") (by decide)
    ⟨_, rfl, fun h => absurd (by decide) h, ⟨_, rfl⟩, iff_of_false ?_ (by decide)⟩ rfl ?_
  · rintro (h | h) <;> exact absurd h (by decide)
  refine Server.meets_cons (c := .prepare 1 3) (by decide) ⟨⟨_, rfl⟩, rfl⟩ rfl ?_
  refine Server.meets_cons (c := .commit 1 2 4) (by decide) (fun txn hp => ?_) rfl trivial
  obtain rfl : ⟨1, StdMap.empty, StdMap.empty.insert "k" [""]⟩ = txn := Option.some.inj hp
  have hkey : ∀ key : String, (StdMap.empty.insert "k" [""]).find? key = if key = "k" then some [""] else none :=
    fun key => StdMap.find?_insert ..
  refine ⟨fun key values hw => ?_, fun key htouched => ?_⟩
  · dsimp only at hw
    rw [hkey] at hw
    split_ifs at hw
    rw [← Option.some.inj hw]
    rfl
  · have heq : key = "k" := by
      by_contra hne
      rcases htouched with hw | hr
      · rw [Writes, hkey, if_neg hne] at hw
        cases hw
      · cases hr
    rw [heq]
    exact ⟨⟨rfl, rfl⟩, rfl⟩

/-- A transaction that commits cannot be taken back. -/
theorem not_restores : ∃ (s s' : LockStore) (opMap : StdMap Nat String),
    Server.replicaUpcalls txnStore Server.parseRequest s opMap = some s' ∧
      Server.rollbackUpcall txnStore Server.parseRequest s' opMap = none :=
  ⟨new stopped, _, Server.transaction "\x08\x03\x10\x01\x1a\x01k\x22\x01v", rfl, rfl⟩

end LockStore
end Dsnet.NIStore
