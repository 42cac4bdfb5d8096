import Dsnet.Lib.Agree
import Dsnet.NIStore.Server
import Dsnet.NIStore.Validation

/-! Rollback of `nistore/occstore.cc`: when operations that `nistore/server.cc` has executed are taken back,
    the store is as it was.

    Of the transactions that have begun since nothing needs to be right but what later inverses look at,
    because `unbegin` erases them (`Agree`); each other call must be one that its inverse takes back
    (`Undoable`). -/

namespace Dsnet.NIStore.OCCStore
open OCC

/-! ### What inverses take back -/

/-- The store would hold the version in front of the versions that the key has, and has some. -/
def Newest (s : VersionedKVStore) (key : String) (version : Nat × String) : Prop :=
  ∃ n older rest, s.store.find? key = some (List.replicate n version ++ older :: rest) ∧
    older.1 < version.1

/-- `prepare` finds no conflict. -/
def Valid (s : OCCStore) (txn : Transaction) : Prop :=
  s.readsValid txn.readSet.toList = some true ∧ s.writesValid txn.writeSet.toList = true

/-- What lets a call be taken back when the transactions `fresh` have begun since. A transaction must not be
    running when it begins, and be running when it reads, writes or prepares. An older one must not read what
    it has both written and read before, and must write only what it has written before. What is committed
    must be newest versions of keys that exist. -/
def Undoable (fresh : List Nat) (s : OCCStore) : Call → Prop
  | .begin id => s.running.find? id = none
  | .get id key => ∃ txn, s.running.find? id = some txn ∧ (id ∉ fresh →
      ∀ read, txn.readSet.find? key = some read → txn.writeSet.find? key = none ∧ 0 < read.2)
  | .put id key _ => ∃ txn, s.running.find? id = some txn ∧ (id ∉ fresh → Has txn.writeSet key)
  | .prepare id _ => ∃ txn, s.running.find? id = some txn ∧ s.prepared.find? id = none ∧
      (txn.id = id ∨ s.Valid txn)
  | .commit id timestamp _ => ∀ txn key values value, s.prepared.find? id = some txn →
      txn.writeSet.find? key = some values → values.getLast? = some value →
        Newest s.store key (timestamp, value)
  | .abort id _ => ∀ txn, (s.running.find? id).or (s.prepared.find? id) = some txn → txn.id = id

/-- The transactions that have begun. -/
def begun (fresh : List Nat) (_ : OCCStore) : Call → List Nat
  | .begin id => id :: fresh
  | _ => fresh

/-! ### The versioned store -/

/-- Inserting a version that is the newest puts it in front. -/
theorem insertOlder_replicate {version older : Nat × String} (n : Nat) (rest : List (Nat × String))
    (h : older.1 < version.1) :
    VersionedKVStore.insertOlder version (List.replicate n version ++ older :: rest) =
      version :: (List.replicate n version ++ older :: rest) := by
  induction n with
  | zero => simp [VersionedKVStore.insertOlder, h]
  | succ n ih =>
    rw [List.replicate_succ, List.cons_append, VersionedKVStore.insertOlder, if_neg (lt_irrefl _), ih]

/-- `remove` takes the newest version away that `put` has added. -/
theorem remove_put {s : VersionedKVStore} {key value : String} {timestamp : Nat}
    (h : Newest s key (timestamp, value)) :
    ∃ versions, s.store.find? key = some versions ∧
      s.put key value timestamp = some ⟨s.store.insert key ((timestamp, value) :: versions)⟩ := by
  obtain ⟨n, older, rest, hf, hlt⟩ := h
  refine ⟨_, hf, ?_⟩
  unfold VersionedKVStore.put
  rw [hf]
  cases n with
  | zero => simp [hlt]
  | succ n =>
    rw [List.replicate_succ, List.cons_append]
    simp only [gt_iff_lt, lt_irrefl, if_false]
    rw [← List.cons_append, ← List.replicate_succ, insertOlder_replicate (n + 1) rest hlt]

/-- `put` of another key does not see what a key is bound to. -/
theorem put_insert {s : VersionedKVStore} {key i value : String} {timestamp : Nat}
    (versions : List (Nat × String)) (hi : key ≠ i) :
    VersionedKVStore.put ⟨s.store.insert i versions⟩ key value timestamp =
      (s.put key value timestamp).map fun s => ⟨s.store.insert i versions⟩ := by
  unfold VersionedKVStore.put
  rw [StdMap.find?_insert_of_ne _ _ hi]
  cases s.store.find? key with
  | none => simp [StdMap.insert_comm _ _ _ hi]
  | some l =>
    cases l with
    | nil => rfl
    | cons x xs =>
      by_cases hlt : timestamp > x.1
      · simp [hlt, StdMap.insert_comm _ _ _ hi]
      · simp [hlt, StdMap.insert_comm _ _ _ hi]

theorem putAll_cons (timestamp : Nat) (s : VersionedKVStore) (write : String × List String)
    (writes : List (String × List String)) :
    putAll timestamp s (write :: writes) =
      (write.2.getLast?.bind fun value => s.put write.1 value timestamp).bind (putAll timestamp · writes) :=
  rfl

theorem putAll_insert {timestamp : Nat} {i : String} (versions : List (Nat × String)) :
    ∀ {writes : List (String × List String)} {s : VersionedKVStore}, i ∉ writes.map Prod.fst →
      putAll timestamp ⟨s.store.insert i versions⟩ writes =
        (putAll timestamp s writes).map fun s => ⟨s.store.insert i versions⟩
  | [], s, _ => rfl
  | write :: writes, s, hi => by
      rw [List.map_cons, List.mem_cons, not_or] at hi
      rw [putAll_cons, putAll_cons]
      cases write.2.getLast? with
      | none => rfl
      | some value =>
        rw [Option.bind_some, Option.bind_some, put_insert versions (Ne.symm hi.1)]
        cases s.put write.1 value timestamp with
        | none => rfl
        | some s₁ => exact putAll_insert versions hi.2

/-- What `commit` puts, `uncommit` removes. -/
theorem removeAll_putAll {timestamp : Nat} : ∀ {writes : List (String × List String)}
    {s s' : VersionedKVStore}, (writes.map Prod.fst).Nodup →
      (∀ write ∈ writes, ∀ value, write.2.getLast? = some value → Newest s write.1 (timestamp, value)) →
      putAll timestamp s writes = some s' → removeAll timestamp s' writes = some s
  | [], s, s', _, _, h => by
      obtain rfl : s = s' := by simpa [putAll] using h
      rfl
  | (key, values) :: writes, s, s', hnd, hn, h => by
      obtain ⟨hkey, hnd⟩ := List.nodup_cons.mp hnd
      rw [putAll_cons] at h
      obtain ⟨s₁, h₁, h⟩ := Option.bind_eq_some_iff.mp h
      obtain ⟨value, hv, hput⟩ := Option.bind_eq_some_iff.mp h₁
      obtain ⟨versions, hf, hput'⟩ := remove_put (hn _ (List.mem_cons_self ..) value hv)
      obtain rfl := Option.some.inj (hput.symm.trans hput')
      obtain ⟨s₀, h₀, rfl⟩ := Option.map_eq_some_iff.mp ((putAll_insert _ hkey).symm.trans h)
      have hf₀ : s₀.store.find? key = some versions := (find?_putAll h₀ hkey).trans hf
      -- the store without the version that has been put first
      have hrest := removeAll_putAll hnd (fun write hw => hn write (List.mem_cons_of_mem _ hw)) h₀
      rw [removeAll, List.foldlM_cons]
      simp only [VersionedKVStore.remove, StdMap.find?_insert_self, StdMap.insert_insert, hv, and_self,
        if_true, StdMap.insert_of_find? hf₀]
      exact hrest

/-! ### Agreement -/

/-- The two are one transaction, which has written the same as far as `unput` can see. -/
def Alike (txn txn' : Transaction) : Prop :=
  txn'.id = txn.id ∧ ∀ key, (txn'.writeSet.find? key).getD [] = (txn.writeSet.find? key).getD []

theorem Alike.refl (txn : Transaction) : Alike txn txn := ⟨rfl, fun _ => rfl⟩

/-- What the inverses of the calls so far have to give `t`, for the calls to have given `s`. -/
structure Agree (fresh : List Nat) (s t : OCCStore) : Prop where
  store : t.store = s.store
  prepared : t.prepared = s.prepared
  retired : t.retired = s.retired
  running : Dsnet.Agree Alike fresh s.running t.running

theorem Agree.refl (fresh : List Nat) (s : OCCStore) : Agree fresh s s :=
  ⟨rfl, rfl, rfl, .refl .refl _ _⟩

/-- With no transaction begun, agreement is equality. -/
theorem Agree.eq {s t : OCCStore} (h : Agree [] s t) : t = s := by
  obtain ⟨store, running, prepared, retired⟩ := t
  obtain ⟨rfl, rfl, rfl, hrun⟩ := h
  obtain rfl : running = s.running := hrun.eq
  rfl

/-- The two differ in one running transaction at most. -/
structure Frame (id : Nat) (s s' : OCCStore) : Prop where
  store : s'.store = s.store
  prepared : s'.prepared = s.prepared
  retired : s'.retired = s.retired
  running : ∀ i, i ≠ id → s'.running.find? i = s.running.find? i

theorem Frame.refl (id : Nat) (s : OCCStore) : Frame id s s := ⟨rfl, rfl, rfl, fun _ _ => rfl⟩

theorem frame_setRunning (s : OCCStore) (id : Nat) (txn : Transaction) :
    Frame id s (s.setRunning id txn) :=
  ⟨rfl, rfl, rfl, fun _ hi => StdMap.find?_insert_of_ne _ _ hi⟩

@[simp] theorem find?_setRunning (s : OCCStore) (id : Nat) (txn : Transaction) :
    (s.setRunning id txn).running.find? id = some txn := StdMap.find?_insert_self ..

/-- A call of a running transaction that only changes it, and an inverse that takes that back. -/
theorem Agree.back {fresh : List Nat} {s s' t t' : OCCStore} {id : Nat} {txn txn' : Transaction}
    (h : Agree fresh s' t') (hs : Frame id s s') (ht : Frame id t' t)
    (hf : s.running.find? id = some txn) (hf' : t.running.find? id = some txn') (ha : Alike txn txn')
    (ho : id ∉ fresh → txn' = txn) : Agree fresh s t := by
  exact ⟨ht.store.trans (h.store.trans hs.store), ht.prepared.trans (h.prepared.trans hs.prepared),
    ht.retired.trans (h.retired.trans hs.retired),
    h.running.of_binding hs.running ht.running hf hf' ha ho⟩

/-! ### Calls of a running transaction -/

theorem getTxn_running {s : OCCStore} {id : Nat} {txn : Transaction}
    (h : s.running.find? id = some txn) : s.getTxn id = if txn.id = id then some (txn, s) else none := by
  rw [getTxn, h]

theorem undo_begin {fresh : List Nat} {s t' : OCCStore} {id : Nat} (h : Agree (id :: fresh) (s.begin id) t')
    (hf : s.running.find? id = none) : Agree fresh s (t'.unbegin id) :=
  ⟨h.store, h.prepared, h.retired, h.running.erase hf⟩

/-- What `unget` leaves of the reads. -/
def unread (reads : StdMap String (Nat × Nat)) (key : String) : StdMap String (Nat × Nat) :=
  match reads.find? key with
  | none => reads
  | some read => if read.2 > 1 then reads.insert key (read.1, read.2 - 1) else reads.erase key

/-- What has not been read is not taken back. -/
theorem unread_eq_self {reads : StdMap String (Nat × Nat)} {key : String} :
    unread reads key = reads ↔ reads.find? key = none := by
  rw [unread]
  cases hr : reads.find? key with
  | none => exact iff_of_true rfl rfl
  | some read =>
    refine iff_of_false (fun heq => ?_) nofun
    dsimp only at heq
    split_ifs at heq with hlt
    · have hf := hr
      rw [← heq, StdMap.find?_insert_self] at hf
      have : read.2 - 1 = read.2 := congrArg Prod.snd (Option.some.inj hf)
      omega
    · rw [← heq, StdMap.find?_erase, if_pos rfl] at hr
      cases hr

/-- A repeated read taken back. -/
theorem unread_again {reads : StdMap String (Nat × Nat)} {key : String} {read : Nat × Nat}
    (h : reads.find? key = some read) :
    unread (reads.insert key (read.1, read.2 + 1)) key = reads ↔ 0 < read.2 := by
  rw [unread, StdMap.find?_insert_self]
  by_cases hpos : 0 < read.2
  · have hlt : read.2 + 1 > 1 := by omega
    simp only [hlt, if_true, StdMap.insert_insert, Nat.add_sub_cancel, hpos, iff_true]
    exact StdMap.insert_of_find? h
  · have hlt : ¬ read.2 + 1 > 1 := by omega
    simp only [hlt, if_false, hpos, iff_false]
    intro heq
    rw [← heq, StdMap.find?_erase, if_pos rfl] at h
    cases h

/-- A first read taken back. -/
theorem unread_first {reads : StdMap String (Nat × Nat)} {key : String} (timestamp : Nat)
    (h : reads.find? key = none) : unread (reads.insert key (timestamp, 1)) key = reads := by
  rw [unread, StdMap.find?_insert_self]
  simp only [gt_iff_lt, lt_irrefl, if_false]
  exact StdMap.erase_insert _ h

/-- `get` changes at most the reads of the transaction. -/
theorem get_frame {s s' : OCCStore} {id : Nat} {key : String} {r : Int × String} {txn : Transaction}
    (hf : s.running.find? id = some txn) (h : s.get id key = some (r, s')) :
    txn.id = id ∧ Frame id s s' ∧ ∃ reads, s'.running.find? id = some { txn with readSet := reads } ∧
      (unread reads key = txn.readSet ↔
        ∀ read, txn.readSet.find? key = some read → txn.writeSet.find? key = none ∧ 0 < read.2) := by
  rw [get, getTxn_running hf] at h
  by_cases hid : txn.id = id
  · rw [if_pos hid, Option.bind_some] at h
    dsimp only at h
    refine ⟨hid, ?_⟩
    cases hw : txn.writeSet.find? key with
    | some values =>
      -- a read of its own write
      rw [hw] at h
      obtain ⟨value, -, heq⟩ := Option.map_eq_some_iff.mp h
      obtain rfl : s = s' := (Prod.mk.inj heq).2
      refine ⟨.refl id s, txn.readSet, hf, unread_eq_self.trans ⟨fun hr read hread => ?_, fun hc => ?_⟩⟩
      · rw [hr] at hread
        cases hread
      · cases hr : txn.readSet.find? key with
        | none => rfl
        | some read => cases (hc read hr).1
    | none =>
      rw [hw] at h
      dsimp only at h
      cases hr : txn.readSet.find? key with
      | some read =>
        rw [hr] at h
        obtain ⟨val, -, heq⟩ := Option.map_eq_some_iff.mp h
        obtain rfl := (Prod.mk.inj heq).2
        refine ⟨frame_setRunning .., _, find?_setRunning .., (unread_again hr).trans ⟨?_, fun hc => ?_⟩⟩
        · intro hpos read' hread
          exact ⟨rfl, Option.some.inj hread ▸ hpos⟩
        · exact (hc read rfl).2
      | none =>
        rw [hr] at h
        obtain ⟨found, -, heq⟩ := Option.map_eq_some_iff.mp h
        cases found with
        | none =>
          obtain rfl : s = s' := (Prod.mk.inj heq).2
          exact ⟨.refl id s, txn.readSet, hf, iff_of_true (unread_eq_self.mpr hr) nofun⟩
        | some version =>
          obtain rfl := (Prod.mk.inj heq).2
          exact ⟨frame_setRunning .., _, find?_setRunning .., iff_of_true (unread_first _ hr) nofun⟩
  · rw [if_neg hid] at h
    cases h

/-- `unget` changes at most the reads of the transaction. -/
theorem unget_running {t : OCCStore} {id : Nat} {key : String} {txn : Transaction}
    (hf : t.running.find? id = some txn) (hid : txn.id = id) :
    ∃ t₁, t.unget id key = some t₁ ∧ Frame id t t₁ ∧
      t₁.running.find? id = some { txn with readSet := unread txn.readSet key } := by
  rw [unget, getTxn_running hf, if_pos hid, Option.map_some]
  dsimp only
  cases hr : txn.readSet.find? key with
  | none =>
    rw [unread_eq_self.mpr hr]
    exact ⟨t, rfl, .refl id t, hf⟩
  | some read =>
    rw [unread, hr]
    dsimp only
    split_ifs with hlt
    · exact ⟨_, rfl, frame_setRunning .., find?_setRunning ..⟩
    · exact ⟨_, rfl, frame_setRunning .., find?_setRunning ..⟩

theorem undo_get {fresh : List Nat} {s s' t' : OCCStore} {id : Nat} {key : String} {r : Int × String}
    (hc : Undoable fresh s (.get id key)) (h : s.get id key = some (r, s')) (ha : Agree fresh s' t') :
    ∃ t, t'.unget id key = some t ∧ Agree fresh s t := by
  obtain ⟨txn, hf, hc⟩ := hc
  obtain ⟨hid, hs, reads, hf', hreads⟩ := get_frame hf h
  obtain ⟨txn', ht', halike, ho⟩ := ha.running.find? .refl hf'
  obtain ⟨t, ht, hfr, hf₁⟩ := unget_running ht' (halike.1.trans hid)
  refine ⟨t, ht, ha.back hs hfr hf hf₁ halike fun hn => ?_⟩
  obtain rfl := ho hn
  rw [hreads.mpr (hc hn)]

theorem undo_put {fresh : List Nat} {s s' t' : OCCStore} {id : Nat} {key value : String} {r : Int}
    (hc : Undoable fresh s (.put id key value)) (h : s.put id key value = some (r, s'))
    (ha : Agree fresh s' t') : ∃ t, t'.unput id key value = some t ∧ Agree fresh s t := by
  obtain ⟨txn, hf, hc⟩ := hc
  rw [put, getTxn_running hf] at h
  by_cases hid : txn.id = id
  · rw [if_pos hid, Option.map_some] at h
    obtain rfl := (Prod.mk.inj (Option.some.inj h)).2
    obtain ⟨txn', ht', halike, ho⟩ := ha.running.find? .refl (find?_setRunning ..)
    -- the value is the last that the transaction has written
    have hlast := halike.2 key
    rw [StdMap.find?_insert_self, Option.getD_some] at hlast
    cases hw : txn'.writeSet.find? key with
    | none =>
      rw [hw, Option.getD_none] at hlast
      exact absurd hlast (by simp)
    | some values =>
      rw [hw, Option.getD_some] at hlast
      subst hlast
      rw [unput, getTxn_running ht', if_pos (halike.1.trans hid), Option.bind_some]
      simp only [hw, List.getLast?_append, List.getLast?_singleton, Option.some_or, if_true,
        List.dropLast_concat]
      refine ⟨_, rfl, ha.back (frame_setRunning ..) (frame_setRunning ..) hf (find?_setRunning ..)
        ⟨halike.1, fun i => ?_⟩ fun hn => ?_⟩
      · by_cases hi : i = key
        · rw [hi, StdMap.find?_insert_self, Option.getD_some]
        · rw [StdMap.find?_insert_of_ne _ _ hi, halike.2 i, StdMap.find?_insert_of_ne _ _ hi]
      · obtain ⟨old, hold⟩ := Option.isSome_iff_exists.mp (hc hn)
        rw [ho hn]
        simp only [StdMap.insert_insert, hold, Option.getD_some, StdMap.insert_of_find? hold]
  · rw [if_neg hid] at h
    cases h

/-! ### Calls that end a transaction -/

theorem abortTxn_running {s : OCCStore} {id : Nat} {txn : Transaction}
    (hf : s.running.find? id = some txn) (op : Nat) :
    s.abortTxn id op = some { s with retired := s.retired ++ [(op, ⟨txn, .abortedRunning⟩)]
                                     running := s.running.erase id } := by
  rw [abortTxn, hf]

theorem undo_prepare {fresh : List Nat} {s s' t' : OCCStore} {id op : Nat} {r : Int}
    (hc : Undoable fresh s (.prepare id op)) (h : s.prepare id op = some (r, s'))
    (ha : Agree fresh s' t') : ∃ t, t'.unprepare id op = some t ∧ Agree fresh s t := by
  obtain ⟨txn, hf, hp, hc⟩ := hc
  rw [prepare, hf] at h
  obtain ⟨valid, hvalid, h⟩ := Option.bind_eq_some_iff.mp h
  split_ifs at h with hv
  · -- prepared
    obtain rfl := (Prod.mk.inj (Option.some.inj h)).2
    have hp' : t'.prepared.find? id = some txn := by rw [ha.prepared, StdMap.find?_insert_self]
    refine ⟨{ t'.setRunning id txn with prepared := t'.prepared.erase id }, by rw [unprepare, hp'],
      ha.store, ?_, ha.retired, ha.running.insert .refl hf⟩
    show t'.prepared.erase id = _
    rw [ha.prepared, StdMap.erase_insert _ hp]
  · -- aborted
    obtain ⟨s₁, h₁, heq⟩ := Option.map_eq_some_iff.mp h
    rw [abortTxn_running hf] at h₁
    obtain rfl := Option.some.inj h₁
    obtain rfl := (Prod.mk.inj heq).2
    have hid : txn.id = id := by
      refine hc.resolve_right fun hval => hv ?_
      rw [hval.1] at hvalid
      rw [← Option.some.inj hvalid, hval.2]
      rfl
    have hp' : t'.prepared.find? id = none := by rw [ha.prepared]; exact hp
    have hlast : t'.getRetiredTxn op id .abortedRunning =
        some (txn, { t' with retired := s.retired }) := by
      rw [getRetiredTxn, ha.retired]
      simp [hid]
    refine ⟨{ t' with retired := s.retired }.setRunning id txn, ?_,
      ha.store, ha.prepared, rfl, ha.running.insert .refl hf⟩
    rw [unprepare, hp', hlast]
    rfl

theorem undo_commit {fresh : List Nat} {s s' t' : OCCStore} {id timestamp op : Nat}
    (hc : Undoable fresh s (.commit id timestamp op)) (h : s.commit id timestamp op = some s')
    (ha : Agree fresh s' t') : ∃ t, t'.uncommit id timestamp op = some t ∧ Agree fresh s t := by
  rw [commit] at h
  cases hp : s.prepared.find? id with
  | none => rw [hp] at h; cases h
  | some txn =>
    rw [hp] at h
    dsimp only at h
    split_ifs at h with hid
    obtain ⟨store, hput, rfl⟩ := Option.map_eq_some_iff.mp h
    have hlast : t'.getRetiredTxn op id .committed = some (txn, { t' with retired := s.retired }) := by
      rw [getRetiredTxn, ha.retired]
      simp [hid]
    have hremove : removeAll timestamp t'.store txn.writeSet.toList = some s.store := by
      rw [ha.store]
      refine removeAll_putAll ?_ (fun write hw value hv => ?_) hput
      · exact txn.writeSet.sorted.imp fun hlt => ne_of_lt hlt
      · exact hc txn write.1 write.2 value hp (StdMap.find?_of_mem hw) hv
    have hp' : t'.prepared.find? id = none := by rw [ha.prepared, StdMap.find?_erase, if_pos rfl]
    refine ⟨{ t' with retired := s.retired, store := s.store, prepared := t'.prepared.insert id txn },
      ?_, rfl, ?_, rfl, ha.running⟩
    · rw [uncommit, hlast, Option.bind_some]
      simp [hremove, hp']
    · show t'.prepared.insert id txn = _
      rw [ha.prepared, StdMap.insert_erase hp]

theorem undo_abort {fresh : List Nat} {s s' t' : OCCStore} {id op : Nat}
    (hc : Undoable fresh s (.abort id op)) (h : s.abortTxn id op = some s') (ha : Agree fresh s' t') :
    ∃ t, t'.unabort id op = some t ∧ Agree fresh s t := by
  cases hf : s.running.find? id with
  | some txn =>
    rw [abortTxn_running hf] at h
    obtain rfl := Option.some.inj h
    have hid : txn.id = id := hc txn (by rw [hf]; rfl)
    have hr : t'.running.find? id = none :=
      ha.running.find?_eq_none .refl ((StdMap.find?_erase ..).trans (if_pos rfl))
    have hlast : t'.retired.getLast? = some (op, ⟨txn, .abortedRunning⟩) := by
      rw [ha.retired]
      simp
    refine ⟨{ t'.setRunning id txn with retired := t'.retired.dropLast }, ?_,
      ha.store, ha.prepared, ?_, ha.running.insert .refl hf⟩
    · rw [unabort, hlast]
      simp [hid, hr]
    · show t'.retired.dropLast = _
      rw [ha.retired, List.dropLast_concat]
  | none =>
    rw [abortTxn, hf] at h
    cases hp : s.prepared.find? id with
    | none => rw [hp] at h; cases h
    | some txn =>
      rw [hp] at h
      obtain rfl := Option.some.inj h
      have hid : txn.id = id := hc txn (by rw [hf, hp]; rfl)
      have hp' : t'.prepared.find? id = none := by rw [ha.prepared, StdMap.find?_erase, if_pos rfl]
      have hlast : t'.retired.getLast? = some (op, ⟨txn, .abortedPrepared⟩) := by
        rw [ha.retired]
        simp
      refine ⟨{ t' with prepared := t'.prepared.insert id txn, retired := t'.retired.dropLast }, ?_,
        ha.store, ?_, ?_, ha.running⟩
      · rw [unabort, hlast]
        simp [hid, hp']
      · show t'.prepared.insert id txn = _
        rw [ha.prepared, StdMap.insert_erase hp]
      · show t'.retired.dropLast = _
        rw [ha.retired, List.dropLast_concat]

/-! ### Operations -/

/-- Each call that can be taken back is. -/
theorem undo_call {fresh : List Nat} {s s' t' : OCCStore} {c : Call} {r : Int × String}
    (hc : Undoable fresh s c) (h : txnStore.call s c = some (r, s')) (ha : Agree (begun fresh s c) s' t') :
    ∃ t, txnStore.uncall t' c = some t ∧ Agree fresh s t := by
  cases c with
  | begin id =>
    obtain rfl := (Prod.mk.inj (Option.some.inj h)).2
    exact ⟨_, rfl, undo_begin ha hc⟩
  | get id key => exact undo_get hc h ha
  | put id key value =>
    obtain ⟨⟨status, s₁⟩, h₁, heq⟩ := Option.map_eq_some_iff.mp h
    obtain rfl := (Prod.mk.inj heq).2
    exact undo_put hc h₁ ha
  | prepare id op =>
    obtain ⟨⟨status, s₁⟩, h₁, heq⟩ := Option.map_eq_some_iff.mp h
    obtain rfl := (Prod.mk.inj heq).2
    exact undo_prepare hc h₁ ha
  | commit id timestamp op =>
    obtain ⟨s₁, h₁, heq⟩ := Option.map_eq_some_iff.mp h
    obtain rfl := (Prod.mk.inj heq).2
    exact undo_commit hc h₁ ha
  | abort id op =>
    obtain ⟨s₁, h₁, heq⟩ := Option.map_eq_some_iff.mp h
    obtain rfl := (Prod.mk.inj heq).2
    exact undo_abort hc h₁ ha

/-- Operations whose calls can be taken back are taken back by the server, from any state on. -/
theorem rolls_back (parse : String → Request) {s s' : OCCStore} {opMap : StdMap Nat String}
    (hm : Server.Meets txnStore parse begun Undoable [] s opMap)
    (h : Server.replicaUpcalls txnStore parse s opMap = some s') :
    Server.rollbackUpcall txnStore parse s' opMap = some s := by
  obtain ⟨t, ht, ha⟩ := Server.rollback_of_calls (I := fun _ _ => True) (fun _ _ _ _ _ _ _ _ => trivial)
    (fun g s _ => Agree.refl g s) (fun _ _ _ _ _ _ => undo_call) trivial hm h
  rwa [ha.eq] at ht

/-- A store in which one key has a value. -/
def loaded : OCCStore := { new with store := ⟨StdMap.empty.insert "k" [(1, "u")]⟩ }

theorem rolls_back_writeAndCommit :
    ∃ s', Server.replicaUpcalls txnStore Server.parseRequest loaded
          (Server.transaction "\x08\x03\x10\x01\x1a\x01k\x22\x01v") = some s' ∧
      Server.rollbackUpcall txnStore Server.parseRequest s'
          (Server.transaction "\x08\x03\x10\x01\x1a\x01k\x22\x01v") = some loaded := by
  refine ⟨_, rfl, rolls_back Server.parseRequest ?_ rfl⟩
  refine Server.meets_cons (c := .begin 1) (by decide) rfl rfl ?_
  refine Server.meets_cons (c := .put 1 "k" "v") (by decide) ⟨_, rfl, fun h => absurd (by decide) h⟩ rfl ?_
  refine Server.meets_cons (c := .prepare 1 3) (by decide) ⟨_, rfl, rfl, .inl rfl⟩ rfl ?_
  refine Server.meets_cons (c := .commit 1 2 4) (by decide) (fun txn key values value hp hw hv => ?_) rfl
    trivial
  obtain rfl : ⟨1, StdMap.empty, StdMap.empty.insert "k" ["v"]⟩ = txn := Option.some.inj hp
  by_cases hkey : key = "k"
  · subst hkey
    obtain rfl : ["v"] = values := Option.some.inj hw
    obtain rfl : "v" = value := Option.some.inj hv
    exact ⟨0, (1, "u"), [], rfl, by decide⟩
  · rw [StdMap.find?_insert_of_ne _ _ hkey] at hw
    cases hw

/-- A transaction that has begun before writes a key for the first time. -/
theorem not_rolls_back : ∃ (s s' t : OCCStore) (opMap : StdMap Nat String),
    Server.replicaUpcalls txnStore Server.parseRequest s opMap = some s' ∧
      Server.rollbackUpcall txnStore Server.parseRequest s' opMap = some t ∧ t ≠ s := by
  refine ⟨new.begin 1, _, _, StdMap.empty.insert 1 "\x08\x03\x10\x01\x1a\x01k\x22\x01v", rfl, rfl, ?_⟩
  decide

end Dsnet.NIStore.OCCStore
