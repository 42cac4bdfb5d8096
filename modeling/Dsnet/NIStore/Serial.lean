import Dsnet.NIStore.OCCRollback

/-! The transactions of `nistore/occstore.cc` that commit are serialized in the order of their commits: what
    such a transaction has read it would read just before its commit, with no other transaction about, and it
    would leave the same store (`serial_of_commit`).

    Its reads stay what they were because versions do (`Reads`), and are the latest when it commits by
    `Validated`. A read of a key that does not exist is not validated, so nothing is said about it. -/

namespace Dsnet.NIStore

/-- Some calls, one after the other, each with what it returned. -/
def TxnStore.trace {σ : Type} (T : TxnStore σ) (s : σ) :
    List Call → Option (List (Call × (Int × String)) × σ)
  | [] => some ([], s)
  | c :: cs => (T.call s c).bind fun (r, s') => (T.trace s' cs).map fun (tr, t) => ((c, r) :: tr, t)

/-- Is the call a read or a write? -/
def Call.isAccess : Call → Bool
  | .get _ _ | .put _ _ _ => true
  | _ => false

namespace OCCStore
open OCC

abbrev Trace := List (Call × (Int × String))

/-! ### What stays of a version -/

/-- There is a version of the key at the timestamp, with the value. -/
def Reads (s : VersionedKVStore) (key : String) (timestamp : Nat) (value : String) : Prop :=
  ∃ versions, s.store.find? key = some versions ∧
    versions.find? (·.1 ≤ timestamp) = some (timestamp, value)

theorem Reads.getAt {s : VersionedKVStore} {key value : String} {timestamp : Nat}
    (h : Reads s key timestamp value) : s.getAt key timestamp = some value := by
  obtain ⟨versions, hf, hv⟩ := h
  rw [VersionedKVStore.getAt, hf, Option.bind_some, hv, Option.map_some]

theorem reads_of_get {s : VersionedKVStore} {key : String} {version : Nat × String}
    (h : s.get key = some (some version)) : Reads s key version.1 version.2 := by
  unfold VersionedKVStore.get at h
  split at h
  · cases h
  · cases h
  · next x versions hf =>
    obtain rfl : x = version := by simpa using h
    exact ⟨_, hf, by simp⟩

/-- An older version is inserted behind what is read. -/
theorem find?_insertOlder {version x : Nat × String} {timestamp : Nat} : ∀ {versions : List (Nat × String)},
    versions.find? (·.1 ≤ timestamp) = some x → x.1 = timestamp →
      (VersionedKVStore.insertOlder version versions).find? (·.1 ≤ timestamp) = some x
  | [], h, _ => by cases h
  | y :: ys, h, hx => by
      rw [List.find?_cons] at h
      rw [VersionedKVStore.insertOlder]
      by_cases hy : y.1 ≤ timestamp
      · simp only [hy, decide_true, Option.some.injEq] at h
        subst h
        split_ifs with hv
        · simp [hx, hx ▸ hv]
        · simp [hx]
      · simp only [hy, decide_false] at h
        split_ifs with hv
        · have hlt : ¬ version.1 ≤ timestamp := by omega
          simpa [List.find?_cons, hlt, hy] using h
        · simpa [List.find?_cons, hy] using find?_insertOlder h hx

theorem Reads.put {s s' : VersionedKVStore} {key k value v : String} {timestamp t : Nat}
    (h : Reads s key timestamp value) (hput : s.put k v t = some s') : Reads s' key timestamp value := by
  by_cases hk : key = k
  · subst hk
    obtain ⟨versions, hf, hv⟩ := h
    rw [VersionedKVStore.put, hf] at hput
    cases versions with
    | nil => cases hv
    | cons x xs =>
      dsimp only at hput
      split_ifs at hput with ht
      · obtain rfl := Option.some.inj hput
        refine ⟨_, StdMap.find?_insert_self .., ?_⟩
        have hlt : ¬ t ≤ timestamp := by
          intro hle
          have hx : x.1 ≤ timestamp := by omega
          obtain rfl : x = (timestamp, value) := by simpa [List.find?_cons, hx] using hv
          dsimp only at ht
          omega
        simpa [List.find?_cons, hlt] using hv
      · obtain rfl := Option.some.inj hput
        exact ⟨_, StdMap.find?_insert_self .., find?_insertOlder hv rfl⟩
  · obtain ⟨versions, hf, hv⟩ := h
    exact ⟨versions, (find?_put hput hk).trans hf, hv⟩

/-- No key has an empty list of versions. -/
def Filled (s : VersionedKVStore) : Prop := ∀ key, s.store.find? key ≠ some []

theorem Filled.put {s s' : VersionedKVStore} {k v : String} {t : Nat} (h : Filled s)
    (hput : s.put k v t = some s') : Filled s' := by
  intro key
  by_cases hk : key = k
  · subst hk
    rw [VersionedKVStore.put] at hput
    split at hput
    · obtain rfl := Option.some.inj hput
      simp [StdMap.find?_insert_self]
    · cases hput
    · next x xs _ =>
      split_ifs at hput
      · obtain rfl := Option.some.inj hput
        simp [StdMap.find?_insert_self]
      · obtain rfl := Option.some.inj hput
        rw [StdMap.find?_insert_self, VersionedKVStore.insertOlder]
        split_ifs <;> simp
  · rw [find?_put hput hk]
    exact h key

/-- What every `put` keeps, the loop of `commit` keeps. -/
theorem putAll_invariant {I : VersionedKVStore → Prop} {timestamp : Nat}
    (hI : ∀ {s s' k v}, I s → s.put k v timestamp = some s' → I s') :
    ∀ {writes : List (String × List String)} {s s' : VersionedKVStore}, I s →
      putAll timestamp s writes = some s' → I s'
  | [], s, s', hs, h => by
      obtain rfl : s = s' := by simpa [putAll] using h
      exact hs
  | write :: writes, s, s', hs, h => by
      rw [putAll_cons] at h
      obtain ⟨s₁, h₁, h⟩ := Option.bind_eq_some_iff.mp h
      obtain ⟨value, -, hput⟩ := Option.bind_eq_some_iff.mp h₁
      exact putAll_invariant hI (hI hs hput) h

/-! ### What a transaction has done -/

/-- The values that have been written to the key, if any have. -/
def wrote (key : String) (body : Trace) : Option (List String) :=
  (body.map Prod.fst).foldl (fun values c => match c with
    | .put _ k value => if k = key then some (values.getD [] ++ [value]) else values
    | _ => values) none

theorem wrote_put (key : String) (body : Trace) (id : Nat) (k value : String) (r : Int × String) :
    wrote key (body ++ [(.put id k value, r)]) =
      if k = key then some ((wrote key body).getD [] ++ [value]) else wrote key body := by
  simp [wrote]

@[simp] theorem wrote_get (key : String) (body : Trace) (id : Nat) (k : String) (r : Int × String) :
    wrote key (body ++ [(.get id k, r)]) = wrote key body := by
  simp [wrote]

theorem wrote_ne_nil (key : String) (body : Trace) : wrote key body ≠ some [] := by
  induction body using List.reverseRecOn with
  | nil => simp [wrote]
  | append_singleton body x ih =>
    obtain ⟨c, r⟩ := x
    cases c with
    | put id k value =>
      rw [wrote_put]
      split_ifs
      · simp
      · exact ih
    | _ => simpa [wrote] using ih

/-- What a call that succeeds has returned. A read has returned the value that the transaction has written
    last, or that of the version it keeps the timestamp of. -/
def Saw (s : VersionedKVStore) (reads : StdMap String (Nat × Nat)) (front : Trace)
    (x : Call × (Int × String)) : Prop :=
  match x.1 with
  | .get _ key => ∀ value, x.2 = (0, value) →
    (∃ values, wrote key front = some values ∧ values.getLast? = some value) ∨
    (wrote key front = none ∧ ∃ timestamp count, reads.find? key = some (timestamp, count) ∧
      Reads s key timestamp value)
  | _ => x.2 = (0, "")

/-- This holds of the keys that have been read, with the timestamps of what was read. -/
def EachRead (P : String → Nat → Prop) (reads : StdMap String (Nat × Nat)) : Prop :=
  ∀ {key timestamp count}, reads.find? key = some (timestamp, count) → P key timestamp

/-- The transaction that has made these calls: its writes are theirs, and what they have read is there. -/
structure Did (s : VersionedKVStore) (id : Nat) (body : Trace) (txn : Transaction) : Prop where
  own : txn.id = id
  writes : ∀ key, txn.writeSet.find? key = wrote key body
  reads : EachRead (fun key timestamp => ∃ value, Reads s key timestamp value) txn.readSet
  saw : ∀ {front x back}, body = front ++ x :: back → Saw s txn.readSet front x

/-- Versions and the timestamps that are kept stay. -/
theorem Saw.mono {s s' : VersionedKVStore} {reads reads' : StdMap String (Nat × Nat)} {front : Trace}
    {x : Call × (Int × String)} (h : Saw s reads front x)
    (hs : ∀ {key timestamp value}, Reads s key timestamp value → Reads s' key timestamp value)
    (hr : EachRead (fun key timestamp => ∃ count, reads'.find? key = some (timestamp, count)) reads) : Saw s' reads' front x := by
  obtain ⟨c, r⟩ := x
  cases c with
  | get id key =>
    refine fun value hx => (h value hx).imp_right fun ⟨hw, t, n, hrd, hv⟩ => ⟨hw, t, ?_⟩
    obtain ⟨n', hn'⟩ := hr hrd
    exact ⟨n', hn', hs hv⟩
  | _ => exact h

theorem Did.mono {s s' : VersionedKVStore} {id : Nat} {body : Trace} {txn : Transaction}
    (h : Did s id body txn) (hs : ∀ {key timestamp value}, Reads s key timestamp value →
      Reads s' key timestamp value) : Did s' id body txn where
  own := h.own
  writes := h.writes
  reads hr := (h.reads hr).imp fun _ => hs
  saw hb := (h.saw hb).mono hs fun hr => ⟨_, hr⟩

theorem did_begin (s : VersionedKVStore) (id : Nat) : Did s id [] (Transaction.new id) :=
  ⟨rfl, fun _ => rfl, nofun, fun hb => by simp at hb⟩

/-- The transaction makes one more call. -/
theorem Did.concat {s : VersionedKVStore} {id : Nat} {body : Trace} {txn txn' : Transaction}
    {x : Call × (Int × String)} (h : Did s id body txn) (hown : txn'.id = txn.id)
    (hwrites : ∀ key, txn'.writeSet.find? key = wrote key (body ++ [x]))
    (hreads : EachRead (fun key timestamp => ∃ value, Reads s key timestamp value) txn'.readSet)
    (hkeeps : EachRead (fun key timestamp => ∃ count, txn'.readSet.find? key = some (timestamp, count))
      txn.readSet)
    (hx : Saw s txn'.readSet body x) : Did s id (body ++ [x]) txn' where
  own := hown.trans h.own
  writes := hwrites
  reads := hreads
  saw {front y back} hb := by
    rcases List.eq_nil_or_concat back with rfl | ⟨back', z, rfl⟩
    · obtain ⟨rfl, hy⟩ := List.append_inj' hb rfl
      exact (List.cons.inj hy).1 ▸ hx
    · rw [List.concat_eq_append, ← List.cons_append, ← List.append_assoc] at hb
      exact (h.saw (List.append_inj' hb rfl).1).mono (fun hv => hv) hkeeps

variable {s s' : OCCStore} {id : Nat} {body : Trace} {txn : Transaction}

/-- A running transaction reads: its own last write, or the version it has read before, or the latest one. -/
theorem Did.get (h : Did s.store id body txn) (hf : s.running.find? id = some txn) (hs : Filled s.store)
    (key : String) : ∃ r s', s.get id key = some (r, s') ∧ ∃ txn', s'.running.find? id = some txn' ∧
      Did s.store id (body ++ [(.get id key, r)]) txn' ∧ Frame id s s' ∧
      EachRead (fun k t => (∃ n, txn.readSet.find? k = some (t, n)) ∨ Latest s.store k t) txn'.readSet ∧
      (r.1 ≠ 0 → wrote key body = none ∧ s.store.get key = some none) := by
  rw [OCCStore.get, getTxn_running hf, if_pos h.own, Option.bind_some]
  dsimp only
  have hw := h.writes key
  cases hws : txn.writeSet.find? key with
  | some values =>
    rw [hws] at hw
    obtain ⟨value, hlast⟩ : ∃ value, values.getLast? = some value := by
      refine Option.ne_none_iff_exists'.mp fun hno => wrote_ne_nil key body ?_
      rw [← hw, List.getLast?_eq_none_iff.mp hno]
    refine ⟨(0, value), s, by dsimp only; rw [hlast]; rfl, txn, hf, h.concat rfl (by simpa using h.writes)
      h.reads (fun hr => ⟨_, hr⟩) fun v hx => ?_, .refl .., fun hr => Or.inl ⟨_, hr⟩, fun h0 => absurd rfl h0⟩
    cases hx
    exact Or.inl ⟨values, hw.symm, hlast⟩
  | none =>
    rw [hws] at hw
    dsimp only
    cases hrs : txn.readSet.find? key with
    | some read =>
      obtain ⟨timestamp, count⟩ := read
      obtain ⟨value, hv⟩ := h.reads hrs
      have hold : ∀ {k t n}, (txn.readSet.insert key (timestamp, count + 1)).find? k = some (t, n) →
          ∃ n', txn.readSet.find? k = some (t, n') := by
        intro k t n hr
        rw [StdMap.find?_insert] at hr
        split_ifs at hr with hk
        · cases hr
          exact ⟨count, hk ▸ hrs⟩
        · exact ⟨n, hr⟩
      refine ⟨(0, value), s.setRunning id { txn with readSet := txn.readSet.insert key (timestamp, count + 1) },
        by dsimp only; rw [hv.getAt]; rfl, _, find?_setRunning .., h.concat rfl (by simpa using h.writes)
        (fun hr => (hold hr).elim fun _ hr => h.reads hr) (fun {k t n} hr => ?_) fun v hx => ?_,
        frame_setRunning .., fun hr => Or.inl (hold hr), fun h0 => absurd rfl h0⟩
      · dsimp only
        rw [StdMap.find?_insert]
        split_ifs with hk
        · subst hk
          rw [hrs] at hr
          cases hr
          exact ⟨_, rfl⟩
        · exact ⟨n, hr⟩
      · cases hx
        exact Or.inr ⟨hw.symm, timestamp, _, StdMap.find?_insert_self .., hv⟩
    | none =>
      dsimp only
      cases hget : s.store.get key with
      | none =>
        rw [VersionedKVStore.get] at hget
        split at hget
        · cases hget
        · next hempty => exact absurd hempty (hs key)
        · cases hget
      | some found =>
        cases found with
        | none =>
          exact ⟨_, s, rfl, txn, hf, h.concat rfl (by simpa using h.writes) h.reads (fun hr => ⟨_, hr⟩)
            fun v hx => (by simp at hx), .refl .., fun hr => Or.inl ⟨_, hr⟩, fun _ => ⟨hw.symm, rfl⟩⟩
        | some version =>
          have hv := reads_of_get hget
          refine ⟨_, _, rfl, _, find?_setRunning .., h.concat rfl (by simpa using h.writes)
            (fun {k t n} hr => ?_) (fun {k t n} hr => ⟨n, ?_⟩) fun v hx => ?_, frame_setRunning ..,
            fun {k t n} hr => ?_, fun h0 => absurd rfl h0⟩
          · simp only [StdMap.find?_insert] at hr
            split_ifs at hr with hk
            · cases hr
              exact hk ▸ ⟨_, hv⟩
            · exact h.reads hr
          · rw [StdMap.find?_insert_of_ne, hr]
            rintro rfl
            rw [hrs] at hr
            cases hr
          · cases hx
            exact Or.inr ⟨hw.symm, version.1, 1, StdMap.find?_insert_self .., hv⟩
          · simp only [StdMap.find?_insert] at hr
            split_ifs at hr with hk
            · cases hr
              exact Or.inr (hk ▸ latest_of_get hget)
            · exact Or.inl ⟨n, hr⟩

/-- A running transaction writes. -/
theorem Did.put (h : Did s.store id body txn) (hf : s.running.find? id = some txn) (key value : String) :
    ∃ s', s.put id key value = some (0, s') ∧ ∃ txn', s'.running.find? id = some txn' ∧
      Did s.store id (body ++ [(.put id key value, (0, ""))]) txn' ∧ Frame id s s' ∧
      txn'.readSet = txn.readSet := by
  rw [OCCStore.put, getTxn_running hf, if_pos h.own, Option.map_some]
  refine ⟨_, rfl, _, find?_setRunning .., h.concat rfl (fun k => ?_) h.reads (fun hr => ⟨_, hr⟩) rfl,
    frame_setRunning .., rfl⟩
  rw [wrote_put, ← h.writes, StdMap.find?_insert]
  by_cases hk : k = key
  · rw [if_pos hk, if_pos hk.symm, hk, h.writes]
  · rw [if_neg hk, if_neg (Ne.symm hk), h.writes]

/-! ### Other transactions -/

theorem Frame.trans {s s' s'' : OCCStore} (h : Frame id s s') (h' : Frame id s' s'') : Frame id s s'' :=
  ⟨h'.store.trans h.store, h'.prepared.trans h.prepared, h'.retired.trans h.retired,
    fun i hi => (h'.running i hi).trans (h.running i hi)⟩

theorem frame_getTxn (h : s.getTxn id = some (txn, s')) : Frame id s s' := by
  rw [getTxn] at h
  split at h
  · cases h
    exact frame_setRunning ..
  · split_ifs at h
    cases h
    exact .refl ..

/-- `get` touches its own transaction only. -/
theorem frame_get {key : String} {r : Int × String} (h : s.get id key = some (r, s')) : Frame id s s' := by
  obtain ⟨⟨txn, s₁⟩, h₁, h⟩ := Option.bind_eq_some_iff.mp h
  refine (frame_getTxn h₁).trans ?_
  dsimp only at h
  split at h
  · obtain ⟨_, -, h⟩ := Option.map_eq_some_iff.mp h
    cases h
    exact .refl ..
  · split at h
    · obtain ⟨_, -, h⟩ := Option.map_eq_some_iff.mp h
      cases h
      exact frame_setRunning ..
    · obtain ⟨found, -, h⟩ := Option.map_eq_some_iff.mp h
      cases found <;> cases h
      · exact .refl ..
      · exact frame_setRunning ..

/-- `put` touches its own transaction only. -/
theorem frame_put {key value : String} {r : Int} (h : s.put id key value = some (r, s')) : Frame id s s' := by
  obtain ⟨⟨txn, s₁⟩, h₁, h⟩ := Option.map_eq_some_iff.mp h
  cases h
  exact (frame_getTxn h₁).trans (frame_setRunning ..)

/-- The two have the same transaction `id`. -/
def Beside (id : Nat) (s s' : OCCStore) : Prop :=
  s'.running.find? id = s.running.find? id ∧ s'.prepared.find? id = s.prepared.find? id

theorem Frame.beside {i : Nat} (h : Frame i s s') (hi : id ≠ i) : Beside id s s' :=
  ⟨h.running id hi, by rw [h.prepared]⟩

theorem beside_abortTxn {i op : Nat} (h : s.abortTxn i op = some s') (hi : id ≠ i) : Beside id s s' := by
  rw [abortTxn] at h
  split at h
  · cases h
    exact ⟨by rw [StdMap.find?_erase, if_neg hi], rfl⟩
  · split at h
    · cases h
      exact ⟨rfl, by rw [StdMap.find?_erase, if_neg hi]⟩
    · cases h

/-- What `prepare` does: it prepares a running transaction, or else none. -/
theorem prepare_cases {op : Nat} {r : Int} (h : s.prepare id op = some (r, s')) :
    (r = 0 ∧ ∃ txn, s.running.find? id = some txn ∧
      s' = { s with running := s.running.erase id, prepared := s.prepared.insert id txn }) ∨
    (r ≠ 0 ∧ (s' = s ∨ s.abortTxn id op = some s')) := by
  rw [OCCStore.prepare] at h
  split at h
  · cases h
    exact Or.inr ⟨by decide, Or.inl rfl⟩
  · next txn hf =>
    obtain ⟨valid, -, h⟩ := Option.bind_eq_some_iff.mp h
    split_ifs at h
    · cases h
      exact Or.inl ⟨rfl, txn, hf, rfl⟩
    · obtain ⟨s₁, h₁, h⟩ := Option.map_eq_some_iff.mp h
      cases h
      exact Or.inr ⟨by decide, Or.inr h₁⟩

/-- What `commit` does. -/
theorem commit_cases {timestamp op : Nat} (h : s.commit id timestamp op = some s') :
    ∃ txn, s.prepared.find? id = some txn ∧ txn.id = id ∧
      putAll timestamp s.store txn.writeSet.toList = some s'.store ∧ s'.running = s.running ∧
      s'.prepared = s.prepared.erase id := by
  rw [OCCStore.commit] at h
  split at h
  · cases h
  · next txn hf =>
    split_ifs at h with hid
    obtain ⟨store, hput, rfl⟩ := Option.map_eq_some_iff.mp h
    exact ⟨txn, hf, hid, hput, rfl, rfl⟩

/-- A call leaves all other transactions as they are, and only a commit changes the versioned store. -/
theorem effects_of_call {c : Call} {r : Int × String} (h : txnStore.call s c = some (r, s')) :
    (∀ id, id ≠ c.txnid → Beside id s s') ∧
    (s'.store = s.store ∨ ∃ timestamp writes, putAll timestamp s.store writes = some s'.store) := by
  cases c with
  | begin i =>
    cases h
    exact ⟨fun id hi => (frame_setRunning ..).beside hi, Or.inl rfl⟩
  | get i key => exact ⟨fun id hi => (frame_get h).beside hi, Or.inl (frame_get h).store⟩
  | put i key value =>
    obtain ⟨⟨r, s₁⟩, h₁, heq⟩ := Option.map_eq_some_iff.mp h
    cases heq
    exact ⟨fun id hi => (frame_put h₁).beside hi, Or.inl (frame_put h₁).store⟩
  | prepare i op =>
    obtain ⟨⟨r, s₁⟩, h₁, heq⟩ := Option.map_eq_some_iff.mp h
    cases heq
    rcases prepare_cases h₁ with ⟨-, txn, -, rfl⟩ | ⟨-, rfl | h₁⟩
    · exact ⟨fun id hi => ⟨(StdMap.find?_erase ..).trans (if_neg hi), StdMap.find?_insert_of_ne _ _ hi⟩,
        Or.inl rfl⟩
    · exact ⟨fun _ _ => ⟨rfl, rfl⟩, Or.inl rfl⟩
    · exact ⟨fun id hi => beside_abortTxn h₁ hi, Or.inl (abortTxn_shrinks h₁).store⟩
  | commit i timestamp op =>
    obtain ⟨s₁, h₁, heq⟩ := Option.map_eq_some_iff.mp h
    cases heq
    obtain ⟨txn, -, -, hput, hrun, hprep⟩ := commit_cases h₁
    exact ⟨fun id hi => ⟨by rw [hrun], hprep ▸ (StdMap.find?_erase ..).trans (if_neg hi)⟩, Or.inr ⟨_, _, hput⟩⟩
  | abort i op =>
    obtain ⟨s₁, h₁, heq⟩ := Option.map_eq_some_iff.mp h
    cases heq
    exact ⟨fun id hi => beside_abortTxn h₁ hi, Or.inl (abortTxn_shrinks h₁).store⟩

/-- What every `put` keeps, every call keeps. -/
theorem call_invariant {I : VersionedKVStore → Prop} (hI : ∀ {s s' k v t}, I s → s.put k v t = some s' → I s')
    {c : Call} {r : Int × String} (hc : txnStore.call s c = some (r, s')) (h : I s.store) : I s'.store := by
  rcases (effects_of_call hc).2 with hs | ⟨t, writes, hput⟩
  · rwa [hs]
  · exact putAll_invariant hI h hput

/-! ### Runs -/

/-- What the calls of a transaction have made of it: it runs, or it is prepared. -/
structure Kept (id : Nat) (own : Trace) (s : OCCStore) : Prop where
  running : ∀ {body}, own = (.begin id, (0, "")) :: body → (∀ x ∈ body, x.1.isAccess = true) →
    ∃ txn, s.running.find? id = some txn ∧ Did s.store id body txn
  prepared : ∀ {body op}, own = (.begin id, (0, "")) :: body ++ [(.prepare id op, (0, ""))] →
    (∀ x ∈ body, x.1.isAccess = true) → ∃ txn, s.prepared.find? id = some txn ∧ Did s.store id body txn

/-- The invariant of a run, with the calls that transaction `id` has made. -/
structure Serial (id : Nat) (own : Trace) (s : OCCStore) : Prop extends Kept id own s where
  valid : Validated s
  filled : Filled s.store

/-- The step lemma for a call of the transaction itself. -/
theorem Kept.call {own : Trace} {c : Call} {r : Int × String} (h : Kept id own s) (hs : Filled s.store)
    (hc : txnStore.call s c = some (r, s')) (hid : c.txnid = id) : Kept id (own ++ [(c, r)]) s' := by
  refine ⟨fun {body} hown hbody => ?_, fun {body op} hown hbody => ?_⟩
  · rcases List.eq_nil_or_concat body with rfl | ⟨front, x, rfl⟩
    · obtain ⟨-, hx⟩ := List.append_inj' (show own ++ [(c, r)] = [] ++ [(.begin id, (0, ""))] from hown) rfl
      obtain ⟨rfl, rfl⟩ := Prod.mk.inj (List.cons.inj hx).1
      cases hc
      exact ⟨_, find?_setRunning .., did_begin ..⟩
    · rw [List.concat_eq_append, ← List.cons_append] at hown
      obtain ⟨rfl, hx⟩ := List.append_inj' hown rfl
      obtain rfl := (List.cons.inj hx).1
      obtain ⟨txn, hf, hd⟩ := h.running rfl fun x hx => hbody x (by simp [hx])
      have haccess := hbody (c, r) (by simp)
      rw [List.concat_eq_append]
      cases c with
      | get i key =>
        obtain rfl : i = id := hid
        obtain ⟨r', t, ht, txn', hf', hd', hframe, -⟩ := hd.get hf hs key
        obtain ⟨rfl, rfl⟩ := Prod.mk.inj (Option.some.inj (ht.symm.trans hc))
        exact ⟨txn', hf', hframe.store ▸ hd'⟩
      | put i key value =>
        obtain rfl : i = id := hid
        obtain ⟨⟨r, s₁⟩, h₁, heq⟩ := Option.map_eq_some_iff.mp hc
        cases heq
        obtain ⟨t, ht, txn', hf', hd', hframe, -⟩ := hd.put hf key value
        obtain ⟨rfl, rfl⟩ := Prod.mk.inj (Option.some.inj (ht.symm.trans h₁))
        exact ⟨txn', hf', hframe.store ▸ hd'⟩
      | _ => cases haccess
  · obtain ⟨rfl, hx⟩ := List.append_inj' hown rfl
    obtain ⟨rfl, rfl⟩ := Prod.mk.inj (List.cons.inj hx).1
    obtain ⟨txn, hf, hd⟩ := h.running rfl hbody
    obtain ⟨⟨r, s₁⟩, h₁, heq⟩ := Option.map_eq_some_iff.mp hc
    cases heq
    rcases prepare_cases h₁ with ⟨-, txn', hf', rfl⟩ | ⟨hr, -⟩
    · obtain rfl : txn = txn' := Option.some.inj (hf.symm.trans hf')
      exact ⟨txn, StdMap.find?_insert_self .., hd⟩
    · exact absurd rfl hr

/-- The step lemma. -/
theorem Serial.call {own : Trace} {c : Call} {r : Int × String} (h : Serial id own s)
    (hc : txnStore.call s c = some (r, s')) :
    Serial id (own ++ [(c, r)].filter (·.1.txnid = id)) s' := by
  refine ⟨?_, h.valid.call hc, call_invariant (fun hs hput => Filled.put hs hput) hc h.filled⟩
  by_cases hid : c.txnid = id
  · simpa [hid] using h.toKept.call h.filled hc hid
  · obtain ⟨hrun, hprep⟩ := (effects_of_call hc).1 id (Ne.symm hid)
    have hnil : [(c, r)].filter (·.1.txnid = id) = [] := by simp [hid]
    rw [hnil, List.append_nil]
    refine ⟨fun hown hbody => ?_, fun hown hbody => ?_⟩
    · obtain ⟨txn, hf, hd⟩ := h.running hown hbody
      exact ⟨txn, hrun.trans hf, hd.mono fun hv => call_invariant (fun hv hput => Reads.put hv hput) hc hv⟩
    · obtain ⟨txn, hf, hd⟩ := h.prepared hown hbody
      exact ⟨txn, hprep.trans hf, hd.mono fun hv => call_invariant (fun hv hput => Reads.put hv hput) hc hv⟩

/-- The run lemma. -/
theorem Serial.trace : ∀ {cs : List Call} {s s' : OCCStore} {own tr : Trace},
    Serial id own s → txnStore.trace s cs = some (tr, s') →
      Serial id (own ++ tr.filter (·.1.txnid = id)) s'
  | [], s, s', own, tr, h, htr => by
      cases htr
      simpa using h
  | c :: cs, s, s', own, tr, h, htr => by
      obtain ⟨⟨r, s₁⟩, hc, htr⟩ := Option.bind_eq_some_iff.mp htr
      obtain ⟨⟨tr', t⟩, htr', heq⟩ := Option.map_eq_some_iff.mp htr
      cases heq
      have hrest := Serial.trace (h.call hc) htr'
      rwa [List.append_assoc, ← List.filter_append] at hrest

theorem serial_new (id : Nat) : Serial id [] new where
  running := nofun
  prepared := nofun
  valid := validated_new
  filled key h := by cases h

/-! ### The transaction alone -/

/-- The store with no transaction about. -/
def alone (s : OCCStore) : OCCStore :=
  { store := s.store, running := StdMap.empty, prepared := StdMap.empty, retired := [] }

/-- The transaction has made these calls, with no other about: what it has read is the latest. -/
structure Alone (store : VersionedKVStore) (id : Nat) (body : Trace) (s : OCCStore) : Prop where
  stored : s.store = store
  prepared : s.prepared = StdMap.empty
  running : ∃ txn, s.running.find? id = some txn ∧ Did store id body txn ∧
    EachRead (Latest store) txn.readSet

/-- Of a key, one version is the latest. -/
theorem Latest.get {s : VersionedKVStore} {key value : String} {timestamp : Nat}
    (h : Latest s key timestamp) (hv : Reads s key timestamp value) :
    s.get key = some (some (timestamp, value)) := by
  obtain ⟨value', hget, hat⟩ := h
  rw [hget, Option.some.inj (hat.symm.trans hv.getAt)]

/-- The same result, where the call has succeeded. -/
def Same (x y : Call × (Int × String)) : Prop := y.1 = x.1 ∧ (x.2.1 = 0 → y.2 = x.2)

/-- What is written depends on the calls alone. -/
theorem wrote_congr {key : String} {body body' : Trace} (h : body'.map Prod.fst = body.map Prod.fst) :
    wrote key body' = wrote key body := by
  rw [wrote, h, wrote]

/-- Two that have read latest versions have seen the same. -/
theorem eq_of_saw {store : VersionedKVStore} {reads reads' : StdMap String (Nat × Nat)} {front front' : Trace}
    {key value value' : String} (h : Saw store reads front (.get id key, (0, value)))
    (h' : Saw store reads' front' (.get id key, (0, value'))) (hw : wrote key front' = wrote key front)
    (hl : EachRead (Latest store) reads) (hl' : EachRead (Latest store) reads') : value' = value := by
  rcases h value rfl with ⟨values, hf, hv⟩ | ⟨hf, t, n, hr, hv⟩ <;>
    rcases h' value' rfl with ⟨values', hf', hv'⟩ | ⟨hf', t', n', hr', hv'⟩ <;>
    rw [hw, hf] at hf' <;> cases hf'
  · exact Option.some.inj (hv'.symm.trans hv)
  · have heq := ((hl hr).get hv).symm.trans ((hl' hr').get hv')
    simp only [Option.some.injEq, Prod.mk.injEq] at heq
    exact heq.2.symm

/-- Alone the transaction sees what it has seen. -/
theorem Alone.get {store : VersionedKVStore} {front : Trace} (h : Alone store id front s)
    (hs : Filled store) {key : String} {reads : StdMap String (Nat × Nat)} {r : Int × String}
    (hl : EachRead (Latest store) reads) (hsaw : Saw store reads body (.get id key, r)) (hcalls : front.map Prod.fst = body.map Prod.fst) :
    ∃ r' s', s.get id key = some (r', s') ∧ Alone store id (front ++ [(.get id key, r')]) s' ∧
      (r.1 = 0 → r' = r) := by
  obtain ⟨rfl, hprep, txn, hf, hd, hlatest⟩ := h
  obtain ⟨r', s', hget, txn', hf', hd', hframe, hreads, habsent⟩ := hd.get hf hs key
  have hlatest' : EachRead (Latest s.store) txn'.readSet := fun hr =>
    (hreads hr).elim (fun ⟨_, hr⟩ => hlatest hr) fun hl => hl
  refine ⟨r', s', hget, ⟨hframe.store, hframe.prepared.trans hprep, txn', hf', hd', hlatest'⟩, fun h0 => ?_⟩
  have hsaw' := hd'.saw (show front ++ [(.get id key, r')] = front ++ (.get id key, r') :: [] from rfl)
  obtain ⟨status, value⟩ := r
  obtain ⟨status', value'⟩ := r'
  obtain rfl : status = 0 := h0
  by_cases h0' : status' = 0
  · subst h0'
    rw [eq_of_saw hsaw hsaw' (wrote_congr hcalls) hl hlatest']
  · -- the key is not there, but it has been read
    obtain ⟨hno, hnone⟩ := habsent h0'
    rw [wrote_congr hcalls] at hno
    rcases hsaw value rfl with ⟨values, hyes, -⟩ | ⟨-, t, n, hr, hv⟩
    · rw [hno] at hyes
      cases hyes
    · rw [(hl hr).get hv] at hnone
      cases hnone

theorem Alone.put {store : VersionedKVStore} (h : Alone store id body s) (key value : String) :
    ∃ s', s.put id key value = some (0, s') ∧
      Alone store id (body ++ [(.put id key value, (0, ""))]) s' := by
  obtain ⟨rfl, hprep, txn, hf, hd, hlatest⟩ := h
  obtain ⟨s', hput, txn', hf', hd', hframe, hreads⟩ := hd.put hf key value
  exact ⟨s', hput, hframe.store, hframe.prepared.trans hprep, txn', hf', hd', hreads ▸ hlatest⟩

/-- Nothing stands in the way of what has read the latest versions, with nothing prepared. -/
theorem readsValid_alone (hprep : s.prepared = StdMap.empty) : ∀ {reads : List (String × Nat × Nat)},
    (∀ x ∈ reads, Latest s.store x.1 x.2.1) → s.readsValid reads = some true
  | [], _ => rfl
  | (key, timestamp, count) :: rest, h => by
      obtain ⟨value, hget, -⟩ := h _ List.mem_cons_self
      have hnone : key ∉ s.getPreparedWrites.toList := by
        rw [getPreparedWrites, hprep]
        exact List.not_mem_nil
      rw [readsValid, hget]
      simpa [hnone] using readsValid_alone hprep fun x hx => h x (List.mem_cons_of_mem _ hx)

/-- Alone the transaction prepares and commits, and its commit does the same. -/
theorem Alone.commit {store : VersionedKVStore} (h : Alone store id body s)
    {writes : StdMap String (List String)} (hwrites : ∀ key, writes.find? key = wrote key body)
    (op timestamp op' : Nat) {store' : VersionedKVStore}
    (hput : putAll timestamp store writes.toList = some store') :
    ∃ t, txnStore.trace s [.prepare id op, .commit id timestamp op'] =
      some ([(.prepare id op, (0, "")), (.commit id timestamp op', (0, ""))], t) ∧ t.store = store' := by
  obtain ⟨txn', hf, hd, hreads⟩ := h.running
  have heq : txn'.writeSet = writes := StdMap.ext_find? fun key => by rw [hd.writes, hwrites]
  have hvalid : s.readsValid txn'.readSet.toList = some true := by
    refine readsValid_alone h.prepared fun x hx => ?_
    rw [h.stored]
    exact hreads (StdMap.find?_of_mem hx)
  have hfree : s.writesValid txn'.writeSet.toList = true := by
    refine List.all_eq_true.mpr fun x _ => decide_eq_true ?_
    rw [getPreparedReadWrites, h.prepared]
    exact List.not_mem_nil
  set s₁ : OCCStore := { s with running := s.running.erase id, prepared := s.prepared.insert id txn' } with hs₁
  have hprepare : txnStore.call s (.prepare id op) = some ((0, ""), s₁) := by
    show (s.prepare id op).map _ = _
    rw [OCCStore.prepare, hf]
    simp [hvalid, hfree, hs₁]
  obtain ⟨s₂, hcommit, hstore⟩ : ∃ s₂, txnStore.call s₁ (.commit id timestamp op') = some ((0, ""), s₂) ∧
      s₂.store = store' := by
    show ∃ s₂, (s₁.commit id timestamp op').map _ = _ ∧ _
    rw [OCCStore.commit, hs₁, StdMap.find?_insert_self]
    dsimp only
    rw [if_pos hd.own, heq, h.stored, hput]
    exact ⟨_, rfl, rfl⟩
  exact ⟨s₂, by simp [TxnStore.trace, hprepare, hcommit], hstore⟩

/-- The run lemma of the transaction alone. -/
theorem Alone.trace {store : VersionedKVStore} (hfilled : Filled store) (hd : Did store id body txn)
    (hlatest : EachRead (Latest store) txn.readSet) (hids : ∀ x ∈ body, x.1.isAccess = true ∧ x.1.txnid = id)
    (op timestamp op' : Nat) {store' : VersionedKVStore}
    (hput : putAll timestamp store txn.writeSet.toList = some store') :
    ∀ {rest front front' : Trace} {s : OCCStore}, body = front ++ rest →
      front'.map Prod.fst = front.map Prod.fst → Alone store id front' s →
      ∃ tr t, txnStore.trace s (rest.map Prod.fst ++ [.prepare id op, .commit id timestamp op']) =
        some (tr ++ [(.prepare id op, (0, "")), (.commit id timestamp op', (0, ""))], t) ∧
        List.Forall₂ Same rest tr ∧ t.store = store'
  | [], front, front', s, hb, hcalls, h => by
      obtain rfl : body = front := by simpa using hb
      obtain ⟨t, ht, hstore⟩ := h.commit (fun key => (hd.writes key).trans (wrote_congr hcalls).symm) op
        timestamp op' hput
      exact ⟨[], t, ht, .nil, hstore⟩
  | (c, r) :: rest, front, front', s, hb, hcalls, h => by
      obtain ⟨haccess, hid⟩ := hids (c, r) (by simp [hb])
      have hsaw := hd.saw hb
      obtain ⟨r', s', hc, h', hsame⟩ : ∃ r' s', txnStore.call s c = some (r', s') ∧
          Alone store id (front' ++ [(c, r')]) s' ∧ (r.1 = 0 → r' = r) := by
        cases c with
        | get i key =>
          obtain rfl : i = id := hid
          exact h.get hfilled hlatest hsaw hcalls
        | put i key value =>
          obtain rfl : i = id := hid
          obtain ⟨s', hs', h'⟩ := h.put key value
          refine ⟨(0, ""), s', ?_, h', fun _ => Eq.symm hsaw⟩
          show (s.put i key value).map _ = _
          rw [hs']
          rfl
        | _ => cases haccess
      obtain ⟨tr, t, ht, hall, hstore⟩ := Alone.trace hfilled hd hlatest hids op timestamp op' hput
        (hb.trans (List.append_cons ..)) (by simp [hcalls]) h'
      refine ⟨(c, r') :: tr, t, ?_, .cons ⟨rfl, hsame⟩ hall, hstore⟩
      simp [TxnStore.trace, hc, ht]

/-- A transaction that commits could have run just then, with no other about: alone its calls succeed and
    return what they have returned, as far as they have succeeded, and its commit leaves the same store. -/
theorem serial_of_commit {cs : List Call} {tr body : Trace} {s s' : OCCStore} {id op timestamp op' : Nat}
    (h : txnStore.trace new cs = some (tr, s))
    (hown : tr.filter (·.1.txnid = id) = (.begin id, (0, "")) :: body ++ [(.prepare id op, (0, ""))])
    (hbody : ∀ x ∈ body, x.1.isAccess = true) (hc : s.commit id timestamp op' = some s') :
    ∃ tr' t, txnStore.trace s.alone
        (.begin id :: body.map Prod.fst ++ [.prepare id op, .commit id timestamp op']) =
      some ((.begin id, (0, "")) :: tr' ++ [(.prepare id op, (0, "")), (.commit id timestamp op', (0, ""))], t) ∧
      List.Forall₂ Same body tr' ∧ t.store = s'.store := by
  have hs : Serial id (tr.filter (·.1.txnid = id)) s := (serial_new id).trace h
  obtain ⟨txn, hf, hd⟩ := hs.prepared hown hbody
  obtain ⟨txn', hf', hid, hput, -, -⟩ := commit_cases hc
  obtain rfl : txn = txn' := Option.some.inj (hf.symm.trans hf')
  have hids : ∀ x ∈ body, x.1.isAccess = true ∧ x.1.txnid = id := by
    intro x hx
    have hmem : x ∈ tr.filter (·.1.txnid = id) := by
      rw [hown]
      simp [hx]
    exact ⟨hbody x hx, by simpa using (List.mem_filter.mp hmem).2⟩
  have halone : Alone s.store id [] (s.alone.begin id) :=
    ⟨rfl, rfl, _, find?_setRunning .., did_begin .., nofun⟩
  obtain ⟨tr', t, ht, hall, hstore⟩ := Alone.trace hs.filled hd (hs.valid.latest id txn _ _ _ hf) hids op
    timestamp op' hput (List.nil_append body).symm rfl halone
  refine ⟨tr', t, ?_, hall, hstore⟩
  have hbegin : txnStore.call s.alone (.begin id) = some ((0, ""), s.alone.begin id) := rfl
  rw [List.cons_append, TxnStore.trace, hbegin, Option.bind_some]
  dsimp only
  rw [ht]
  rfl

/-- One transaction commits a version, which another one reads before it writes; a third one comes between. -/
def readThenWrite : List Call :=
  [.begin 1, .put 1 "k" "a", .prepare 1 1, .commit 1 5 2, .begin 2, .get 2 "k", .begin 3, .put 2 "l" "b",
    .put 3 "m" "c", .prepare 3 3, .commit 3 7 4, .prepare 2 5]

theorem serial_of_commit_readThenWrite : ∃ (s s' t : OCCStore) (tr : Trace), s.commit 2 8 6 = some s' ∧
    txnStore.trace s.alone [.begin 2, .get 2 "k", .put 2 "l" "b", .prepare 2 5, .commit 2 8 6] =
      some ((.begin 2, (0, "")) :: tr ++ [(.prepare 2 5, (0, "")), (.commit 2 8 6, (0, ""))], t) ∧
    List.Forall₂ Same [(.get 2 "k", (0, "a")), (.put 2 "l" "b", (0, ""))] tr ∧ t.store = s'.store := by
  obtain ⟨tr, s, htr, hown, s', hc⟩ : ∃ tr s, txnStore.trace new readThenWrite = some (tr, s) ∧
      tr.filter (·.1.txnid = 2) = (.begin 2, (0, "")) :: [(.get 2 "k", (0, "a")), (.put 2 "l" "b", (0, ""))] ++
        [(.prepare 2 5, (0, ""))] ∧ ∃ s', s.commit 2 8 6 = some s' :=
    ⟨_, _, rfl, by decide, _, rfl⟩
  obtain ⟨tr', t, h⟩ := serial_of_commit htr hown (by decide) hc
  exact ⟨s, s', t, tr', hc, h⟩

end OCCStore
end Dsnet.NIStore
