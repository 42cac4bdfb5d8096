import Dsnet.Lib.Run
import Dsnet.NIStore.Locks
import Dsnet.NIStore.LockStore

/-! Isolation in `nistore/lockstore.cc`: what a transaction has read or written is left alone by the others
    until it ends, and its commit writes what it has put.

    A run keeps the calls made with their statuses. In every run the locks fit the read and write sets of the
    transactions that have not ended (`Isolated`), so that one who writes a key is the only one that reads
    or writes it. -/

namespace Dsnet.NIStore.LockStore
open Locking

/-! ### Histories -/

/-- The calls made so far and their statuses, oldest first. -/
abbrev History := List (Call × Int)

def isPrepareOf (id : Nat) : Call → Bool
  | .prepare i _ => i = id
  | _ => false

def isEndOf (id : Nat) : Call → Bool
  | .commit i _ _ => i = id
  | .abort i _ => i = id
  | _ => false

/-- The transaction has begun. -/
def Began (h : History) (id : Nat) : Prop := ∃ x ∈ h, x.1 = .begin id

/-- The transaction has been asked to prepare. -/
def Prepared (h : History) (id : Nat) : Prop := ∃ x ∈ h, isPrepareOf id x.1

/-- The transaction has committed or aborted. -/
def Ended (h : History) (id : Nat) : Prop := ∃ x ∈ h, isEndOf id x.1

/-- The transaction may read, write and prepare. -/
def Running (h : History) (id : Nat) : Prop := Began h id ∧ ¬ Prepared h id ∧ ¬ Ended h id

/-- A read or a write of the key by the transaction has returned 0. -/
def Touched (h : History) (id : Nat) (key : String) : Prop :=
  ∃ x ∈ h, x.2 = 0 ∧ (x.1 = .get id key ∨ ∃ value, x.1 = .put id key value)

/-- The value, if the call is a put of the key by the transaction that has returned 0. -/
def putOf (id : Nat) (key : String) : Call × Int → Option String
  | (.put i k value, status) => if i = id ∧ k = key ∧ status = 0 then some value else none
  | _ => none

/-- The values that the transaction has put successfully, the last one last. -/
def puts (h : History) (id : Nat) (key : String) : List String := h.filterMap (putOf id key)

/-- An id is begun once, before its other calls; after `prepare` it is committed or aborted only, and
    then not used again. -/
def Allowed (h : History) : Call → Prop
  | .begin id => ∀ x ∈ h, x.1.txnid ≠ id
  | .get id _ | .put id _ _ | .prepare id _ => Running h id
  | .commit id _ _ | .abort id _ => Began h id ∧ ¬ Ended h id

/-- A store and the calls made of it. -/
structure Traced where
  store : LockStore
  history : History

/-- A store that starts empty and reads the clock. -/
def system (clock : Clock) : System Traced Call where
  init := ⟨new clock, []⟩
  step s c := (txnStore.call s.store c).map fun (r, store) => ⟨store, s.history ++ [(c, r.1)]⟩

section History
variable {h : History} {x : Call × Int} {id : Nat} {key : String}

theorem began_concat : Began (h ++ [x]) id ↔ Began h id ∨ x.1 = .begin id := by
  simp [Began, or_and_right, exists_or]

theorem prepared_concat : Prepared (h ++ [x]) id ↔ Prepared h id ∨ isPrepareOf id x.1 := by
  simp [Prepared, or_and_right, exists_or]

theorem ended_concat : Ended (h ++ [x]) id ↔ Ended h id ∨ isEndOf id x.1 := by
  simp [Ended, or_and_right, exists_or]

theorem touched_concat : Touched (h ++ [x]) id key ↔
    Touched h id key ∨ (x.2 = 0 ∧ (x.1 = .get id key ∨ ∃ value, x.1 = .put id key value)) := by
  simp only [Touched, List.mem_append, List.mem_singleton, or_and_right, exists_or, exists_eq_left]

theorem puts_concat : puts (h ++ [x]) id key = puts h id key ++ (putOf id key x).toList := by
  rw [puts, List.filterMap_append, puts]
  cases hp : putOf id key x <;> simp [hp]

/-! A call of one transaction changes nothing that is said of another. -/

theorem not_isPrepareOf {c : Call} (hc : c.txnid ≠ id) : ¬ isPrepareOf id c = true := by
  cases c <;> simp_all [isPrepareOf, Call.txnid]

theorem not_isEndOf {c : Call} (hc : c.txnid ≠ id) : ¬ isEndOf id c = true := by
  cases c <;> simp_all [isEndOf, Call.txnid]

theorem prepared_other (hx : x.1.txnid ≠ id) : Prepared (h ++ [x]) id ↔ Prepared h id := by
  rw [prepared_concat, or_iff_left (not_isPrepareOf hx)]

theorem ended_other (hx : x.1.txnid ≠ id) : Ended (h ++ [x]) id ↔ Ended h id := by
  rw [ended_concat, or_iff_left (not_isEndOf hx)]

theorem running_other (hx : x.1.txnid ≠ id) : Running (h ++ [x]) id ↔ Running h id := by
  have hb : ¬ x.1 = .begin id := fun he => hx (congrArg Call.txnid he)
  rw [Running, prepared_other hx, ended_other hx, began_concat, or_iff_left hb, Running]

theorem touched_other (hx : x.1.txnid ≠ id) : Touched (h ++ [x]) id key ↔ Touched h id key := by
  rw [touched_concat, or_iff_left]
  rintro ⟨-, he | ⟨value, he⟩⟩ <;> exact hx (congrArg Call.txnid he)

theorem puts_other (hx : x.1.txnid ≠ id) : puts (h ++ [x]) id key = puts h id key := by
  have hnone : putOf id key x = none := by
    obtain ⟨c, status⟩ := x
    cases c with
    | put i k value =>
      have hne : i ≠ id := hx
      simp [putOf, hne]
    | _ => rfl
  rw [puts_concat, hnone, Option.toList_none, List.append_nil]

end History

/-! ### Who reads and who writes -/

/-- The key is in the read set. -/
def Reads (t : Transaction) (key : String) : Prop := (t.readSet.find? key).isSome

/-- The key is in the write set. -/
def Writes (t : Transaction) (key : String) : Prop := (t.writeSet.find? key).isSome

/-- The transactions of a table with a property of a key. -/
def users (sel : Transaction → String → Prop) (f : Nat → Option Transaction) (key : String) : Set Nat :=
  {i | ∃ t, f i = some t ∧ sel t key}

section Users
variable {sel : Transaction → String → Prop} {f : Nat → Option Transaction} {id : Nat} {t t' : Transaction}

/-- A transaction changes in other respects. -/
theorem users_same (h : ∀ key, sel t' key ↔ ∃ t, f id = some t ∧ sel t key) :
    users sel (Function.update f id (some t')) = users sel f := by
  funext key
  ext i
  by_cases hi : i = id
  · subst hi
    simp [users, h]
  · simp [users, hi]

/-- A transaction gets one more key. -/
theorem users_insert {key : String} (hf : f id = some t) (h : ∀ k, sel t' k ↔ k = key ∨ sel t k) :
    users sel (Function.update f id (some t')) =
      Function.update (users sel f) key (insert id (users sel f key)) := by
  funext k
  ext i
  by_cases hk : k = key
  · subst hk
    rw [Function.update_self]
    by_cases hi : i = id
    · subst hi
      simp [users, h]
    · simp [users, hi]
  · rw [Function.update_of_ne hk]
    by_cases hi : i = id
    · subst hi
      simp [users, h, hk, hf]
    · simp [users, hi]

/-- A transaction is gone. -/
theorem users_none : users sel (Function.update f id none) = fun key => users sel f key \ {id} := by
  funext key
  ext i
  by_cases hi : i = id
  · subst hi
    simp [users]
  · simp [users, hi]

end Users

/-- The transaction that has the id and has not ended. -/
def active (s : LockStore) (id : Nat) : Option Transaction :=
  (s.running.find? id).or (s.prepared.find? id)

theorem active_setRunning (s : LockStore) (id : Nat) (t : Transaction) :
    (s.setRunning id t).active = Function.update s.active id (some t) := by
  funext i
  by_cases hi : i = id
  · subst hi
    simp [active, setRunning, StdMap.find?_insert_self]
  · rw [Function.update_of_ne hi]
    simp [active, setRunning, StdMap.find?_insert_of_ne _ _ hi]

/-! ### Dropping locks -/

/-- One is taken from the sets of some keys. -/
def without (id : Nat) (keys : List String) (R : String → Set Nat) (key : String) : Set Nat :=
  if key ∈ keys then R key \ {id} else R key

theorem without_nil (id : Nat) (R : String → Set Nat) : without id [] R = R := by
  funext key
  simp [without]

theorem without_cons (id : Nat) (k : String) (keys : List String) (R : String → Set Nat) :
    without id (k :: keys) R = without id keys (Function.update R k (R k \ {id})) := by
  funext key
  by_cases hk : key = k
  · subst hk
    simp [without]
  · simp [without, hk]

/-- Taken from the sets of all keys where it is. -/
theorem without_all {id : Nat} {keys : List String} {R : String → Set Nat}
    (h : ∀ key, id ∈ R key → key ∈ keys) : without id keys R = fun key => R key \ {id} := by
  funext key
  rw [without]
  split_ifs with hk
  · rfl
  · exact (Set.sdiff_singleton_eq_self fun hmem => hk (h key hmem)).symm

theorem releaseWrites_fits {id : Nat} {R W : String → Set Nat} {keys : List String}
    {locks locks' : LockServer} (hf : locks.Fits R W) (h : releaseWrites id locks keys = some locks') :
    locks'.Fits R (without id keys W) := by
  induction keys generalizing locks W with
  | nil =>
    obtain rfl : locks = locks' := by simpa [releaseWrites] using h
    rwa [without_nil]
  | cons k keys ih =>
    rw [releaseWrites, List.foldlM_cons] at h
    obtain ⟨locks₁, h₁, h⟩ := Option.bind_eq_some_iff.mp h
    rw [without_cons]
    exact ih (hf.releaseForWrite h₁) h

theorem releaseReads_fits {id : Nat} {R W : String → Set Nat} {keys : List String}
    {locks : LockServer} (hf : locks.Fits R W) :
    (releaseReads id locks keys).Fits (without id keys R) W := by
  induction keys generalizing locks R with
  | nil => rwa [without_nil]
  | cons k keys ih =>
    rw [without_cons]
    exact ih (hf.releaseForRead k id)

/-- When a transaction drops its locks, it is neither a reader nor a writer any more. -/
theorem dropLocks_fits {s s' : LockStore} {txn : Transaction} (h : s.dropLocks txn = some s')
    (hf : s.locks.Fits (users Reads s.active) (users Writes s.active))
    (ht : s.active txn.id = some txn) :
    (∃ locks, s' = { s with locks := locks }) ∧
      s'.locks.Fits (fun key => users Reads s.active key \ {txn.id})
        (fun key => users Writes s.active key \ {txn.id}) := by
  obtain ⟨locks, hw, rfl⟩ := Option.map_eq_some_iff.mp h
  refine ⟨⟨_, rfl⟩, ?_⟩
  have hr : ∀ key, txn.id ∈ users Reads s.active key → key ∈ txn.readSet.toList.map Prod.fst := by
    rintro key ⟨t, ht', hsel⟩
    obtain rfl : t = txn := Option.some.inj (ht'.symm.trans ht)
    exact StdMap.find?_isSome.mp hsel
  have hw' : ∀ key, txn.id ∈ users Writes s.active key → key ∈ txn.writeSet.toList.map Prod.fst := by
    rintro key ⟨t, ht', hsel⟩
    obtain rfl : t = txn := Option.some.inj (ht'.symm.trans ht)
    exact StdMap.find?_isSome.mp hsel
  rw [← without_all hr, ← without_all hw']
  exact releaseReads_fits (releaseWrites_fits hf hw)

/-! ### The invariant -/

/-- The store is as the history says, and its locks fit the read and write sets. -/
structure Isolated (h : History) (s : LockStore) : Prop where
  running : ∀ id, (s.running.find? id).isSome ↔ Running h id
  prepared : ∀ id, (s.prepared.find? id).isSome ↔ Prepared h id ∧ ¬ Ended h id
  ids : ∀ id t, s.active id = some t → t.id = id
  touched : ∀ id t key, s.active id = some t → Touched h id key → Reads t key ∨ Writes t key
  writes : ∀ id t key, s.active id = some t →
    t.writeSet.find? key = if puts h id key = [] then none else some (puts h id key)
  locks : s.locks.Fits (users Reads s.active) (users Writes s.active)

variable {h : History} {s s' : LockStore} {x : Call × Int} {id : Nat} {t t' : Transaction}

theorem active_of_running (hrun : s.running.find? id = some t) : s.active id = some t := by
  rw [active, hrun]
  rfl

theorem active_of_prepared (hn : s.running.find? id = none) (hp : s.prepared.find? id = some t) :
    s.active id = some t := by
  rw [active, hn, hp]
  rfl

theorem isolated_new (clock : Clock) : Isolated [] (new clock) where
  running id := by simp [new, StdMap.find?, Running, Began]
  prepared id := by simp [new, StdMap.find?, Prepared]
  ids id t ht := by cases ht
  touched id t key ht := by cases ht
  writes id t key ht := by cases ht
  locks := by
    have hnone : ∀ sel, users sel (new clock).active = fun _ => ∅ := by
      intro sel
      funext key
      ext i
      simp [users, active, new, StdMap.find?]
    rw [hnone, hnone]
    exact LockServer.fits_new clock

/-- A transaction that is not prepared changes its sets, together with the locks. -/
theorem Isolated.access (hi : Isolated h s) (id : Nat) (t' : Transaction) (locks : LockServer)
    (hid : x.1.txnid = id)
    (hrun : Running (h ++ [x]) id) (ht : t'.id = id)
    (htouch : ∀ key, Touched (h ++ [x]) id key → Reads t' key ∨ Writes t' key)
    (hwrites : ∀ key, t'.writeSet.find? key =
      if puts (h ++ [x]) id key = [] then none else some (puts (h ++ [x]) id key))
    (hl : locks.Fits (users Reads (Function.update s.active id (some t')))
      (users Writes (Function.update s.active id (some t')))) :
    Isolated (h ++ [x]) ({ s with locks := locks }.setRunning id t') := by
  have hact : ({ s with locks := locks }.setRunning id t').active =
      Function.update s.active id (some t') := active_setRunning ..
  have hother : ∀ i, i ≠ id → x.1.txnid ≠ i := fun i hne he => hne (he.symm.trans hid)
  have hprep : ¬ Prepared h id := fun hp => hrun.2.1 (prepared_concat.mpr (Or.inl hp))
  refine ⟨fun i => ?_, fun i => ?_, fun i u hu => ?_, fun i u key hu htu => ?_, fun i u key hu => ?_, ?_⟩
  · show ((s.running.insert id t').find? i).isSome ↔ _
    by_cases hne : i = id
    · subst hne
      simpa [StdMap.find?_insert_self] using hrun
    · rw [StdMap.find?_insert_of_ne _ _ hne, running_other (hother i hne)]
      exact hi.running i
  · show (s.prepared.find? i).isSome ↔ _
    by_cases hne : i = id
    · subst hne
      rw [hi.prepared, iff_false_intro hprep, iff_false_intro hrun.2.1, false_and, false_and]
    · rw [prepared_other (hother i hne), ended_other (hother i hne)]
      exact hi.prepared i
  · rw [hact] at hu
    by_cases hne : i = id
    · subst hne
      rw [Function.update_self] at hu
      cases hu
      exact ht
    · rw [Function.update_of_ne hne] at hu
      exact hi.ids i u hu
  · rw [hact] at hu
    by_cases hne : i = id
    · subst hne
      rw [Function.update_self] at hu
      cases hu
      exact htouch key htu
    · rw [Function.update_of_ne hne] at hu
      exact hi.touched i u key hu ((touched_other (hother i hne)).mp htu)
  · rw [hact] at hu
    by_cases hne : i = id
    · subst hne
      rw [Function.update_self] at hu
      cases hu
      exact hwrites key
    · rw [Function.update_of_ne hne] at hu
      rw [puts_other (hother i hne)]
      exact hi.writes i u key hu
  · rw [hact]
    exact hl

/-- A transaction ends, having dropped its locks. -/
theorem Isolated.ends (hi : Isolated h s) (id : Nat) (hid : x.1.txnid = id) (hend : isEndOf id x.1)
    (hr : ∀ i, s'.running.find? i = if i = id then none else s.running.find? i)
    (hp : ∀ i, s'.prepared.find? i = if i = id then none else s.prepared.find? i)
    (hl : s'.locks.Fits (fun key => users Reads s.active key \ {id})
      (fun key => users Writes s.active key \ {id})) :
    Isolated (h ++ [x]) s' := by
  have hact : s'.active = Function.update s.active id none := by
    funext i
    rw [active, hr, hp]
    by_cases hne : i = id
    · subst hne
      simp
    · rw [if_neg hne, if_neg hne, Function.update_of_ne hne]
      rfl
  have hother : ∀ i, i ≠ id → x.1.txnid ≠ i := fun i hne he => hne (he.symm.trans hid)
  have hended : Ended (h ++ [x]) id := ended_concat.mpr (Or.inr hend)
  have hold : ∀ i u, s'.active i = some u → i ≠ id ∧ s.active i = some u := by
    intro i u hu
    rw [hact] at hu
    by_cases hne : i = id
    · subst hne
      rw [Function.update_self] at hu
      cases hu
    · rw [Function.update_of_ne hne] at hu
      exact ⟨hne, hu⟩
  refine ⟨fun i => ?_, fun i => ?_, fun i u hu => ?_, fun i u key hu htu => ?_, fun i u key hu => ?_, ?_⟩
  · rw [hr]
    by_cases hne : i = id
    · subst hne
      simp [Running, hended]
    · rw [if_neg hne, running_other (hother i hne)]
      exact hi.running i
  · rw [hp]
    by_cases hne : i = id
    · subst hne
      simp [hended]
    · rw [if_neg hne, prepared_other (hother i hne), ended_other (hother i hne)]
      exact hi.prepared i
  · exact hi.ids i u (hold i u hu).2
  · obtain ⟨hne, hu⟩ := hold i u hu
    exact hi.touched i u key hu ((touched_other (hother i hne)).mp htu)
  · obtain ⟨hne, hu⟩ := hold i u hu
    rw [puts_other (hother i hne)]
    exact hi.writes i u key hu
  · rw [hact, users_none, users_none]
    exact hl

/-! ### The calls -/

theorem getTxn_running (hrun : s.running.find? id = some t) (ht : t.id = id) :
    s.getTxn id = some (t, s) := by
  unfold getTxn
  rw [hrun]
  exact if_pos ht

theorem setRunning_self (hrun : s.running.find? id = some t) : s.setRunning id t = s := by
  rw [setRunning, StdMap.insert_of_find? hrun]

/-- Reads and writes leave a transaction running. -/
theorem running_concat (hrun : Running h id) (hp : ¬ isPrepareOf id x.1) (he : ¬ isEndOf id x.1) :
    Running (h ++ [x]) id :=
  ⟨began_concat.mpr (Or.inl hrun.1), fun hp' => (prepared_concat.mp hp').elim hrun.2.1 hp,
    fun he' => (ended_concat.mp he').elim hrun.2.2 he⟩

theorem puts_of_get {key k : String} {status : Int} :
    puts (h ++ [(.get id k, status)]) id key = puts h id key := by
  rw [puts_concat]
  exact List.append_nil _

theorem Isolated.begin (hi : Isolated h s) (hall : Allowed h (.begin id)) :
    Isolated (h ++ [(.begin id, 0)]) (s.begin id) := by
  have hnone : ∀ p : Call → Bool, (∀ c, p c → c.txnid = id) → ¬ ∃ x ∈ h, p x.1 := by
    rintro p hp ⟨x, hx, hpx⟩
    exact hall x hx (hp _ hpx)
  have hprep : ¬ Prepared h id := hnone _ fun c hc => by
    by_contra hne
    exact not_isPrepareOf hne hc
  have hend : ¬ Ended h id := hnone _ fun c hc => by
    by_contra hne
    exact not_isEndOf hne hc
  have hact : s.active id = none := by
    have h1 : s.running.find? id = none := Option.not_isSome_iff_eq_none.mp fun hsome =>
      (((hi.running id).mp hsome).1).elim fun x hx => hall x hx.1 (congrArg Call.txnid hx.2)
    have h2 : s.prepared.find? id = none := Option.not_isSome_iff_eq_none.mp fun hsome =>
      hprep ((hi.prepared id).mp hsome).1
    rw [active, h1, h2]
    rfl
  have huntouched : ∀ key, ¬ Touched (h ++ [(.begin id, 0)]) id key := by
    intro key htouch
    rcases touched_concat.mp htouch with ⟨x, hx, -, hc | ⟨value, hc⟩⟩ | ⟨-, hc | ⟨value, hc⟩⟩
    · exact hall x hx (congrArg Call.txnid hc)
    · exact hall x hx (congrArg Call.txnid hc)
    · cases hc
    · cases hc
  have hputs : ∀ key, puts (h ++ [(.begin id, 0)]) id key = [] := by
    intro key
    refine List.filterMap_eq_nil_iff.mpr fun x hx => ?_
    rcases List.mem_append.mp hx with hx | hx
    · obtain ⟨c, status⟩ := x
      cases c with
      | put i k value =>
        have hne : i ≠ id := hall _ hx
        simp [putOf, hne]
      | _ => rfl
    · obtain rfl := List.mem_singleton.mp hx
      rfl
  refine hi.access id (Transaction.new id) s.locks rfl
    ⟨began_concat.mpr (Or.inr rfl), ?_, ?_⟩ rfl (fun key hk => absurd hk (huntouched key))
    (fun key => by rw [hputs, if_pos rfl]; rfl) ?_
  · rw [prepared_concat, not_or]
    exact ⟨hprep, by simp [isPrepareOf]⟩
  · rw [ended_concat, not_or]
    exact ⟨hend, by simp [isEndOf]⟩
  · rw [users_same, users_same]
    · exact hi.locks
    · intro key
      simp [hact, Writes, Transaction.new, StdMap.find?]
    · intro key
      simp [hact, Reads, Transaction.new, StdMap.find?]

theorem Isolated.get (hi : Isolated h s) {key : String} {r : Int × String} (hall : Running h id)
    (hget : s.get id key = some (r, s')) : Isolated (h ++ [(.get id key, r.1)]) s' := by
  obtain ⟨t, hrun⟩ := Option.isSome_iff_exists.mp ((hi.running id).mpr hall)
  have hact := active_of_running hrun
  have hid := hi.ids id t hact
  have hrunning : Running (h ++ [(.get id key, r.1)]) id :=
    running_concat hall (by simp [isPrepareOf]) (by simp [isEndOf])
  -- the transaction keeps its writes, and has what it had read
  have step : ∀ (t' : Transaction) (locks : LockServer), t'.id = id → t'.writeSet = t.writeSet →
      (∀ k, Reads t k → Reads t' k) → (r.1 = 0 → Reads t' key ∨ Writes t' key) →
      locks.Fits (users Reads (Function.update s.active id (some t')))
        (users Writes (Function.update s.active id (some t'))) →
      Isolated (h ++ [(.get id key, r.1)]) ({ s with locks := locks }.setRunning id t') := by
    intro t' locks hid' hw hr hok hl
    refine hi.access id t' locks rfl hrunning hid' (fun k hk => ?_) (fun k => ?_) hl
    · rcases touched_concat.mp hk with hk | ⟨h0, hc | ⟨value, hc⟩⟩
      · rw [Writes, hw]
        exact (hi.touched id t k hact hk).imp_left (hr k)
      · cases hc
        exact hok h0
      · cases hc
    · rw [hw, puts_of_get]
      exact hi.writes id t k hact
  have hsame : users Reads (Function.update s.active id (some t)) = users Reads s.active ∧
      users Writes (Function.update s.active id (some t)) = users Writes s.active :=
    ⟨users_same fun k => by simp [hact], users_same fun k => by simp [hact]⟩
  -- the transaction stays as it is
  have stay : ∀ locks : LockServer, locks.Fits (users Reads s.active) (users Writes s.active) →
      (r.1 = 0 → Reads t key ∨ Writes t key) →
      Isolated (h ++ [(.get id key, r.1)]) { s with locks := locks } := by
    intro locks hl hok
    have := step t locks hid rfl (fun _ hk => hk) hok (by rw [hsame.1, hsame.2]; exact hl)
    rwa [setRunning_self (s := { s with locks := locks }) hrun] at this
  rw [LockStore.get, getTxn_running hrun hid, Option.bind_some] at hget
  dsimp only at hget
  split at hget
  · rename_i values hv
    obtain ⟨value, -, hr⟩ := Option.map_eq_some_iff.mp hget
    cases hr
    exact stay s.locks hi.locks fun _ => Or.inr (by rw [Writes, hv]; rfl)
  split at hget
  · cases hget
    exact stay s.locks hi.locks fun h0 => absurd h0 (by decide)
  split at hget
  · rename_i count hcount
    cases hget
    have hmem : id ∈ users Reads s.active key := ⟨t, hact, by rw [Reads, hcount]; rfl⟩
    have hreads : ∀ k, Reads { t with readSet := t.readSet.insert key (count + 1) } k ↔
        k = key ∨ Reads t k := by
      intro k
      simp only [Reads, StdMap.find?_insert]
      split_ifs with hk <;> simp [hk]
    refine step _ s.locks hid rfl (fun k hk => (hreads k).mpr (Or.inr hk))
      (fun _ => Or.inl ((hreads key).mpr (Or.inl rfl))) ?_
    rw [users_insert hact hreads, Set.insert_eq_of_mem hmem, Function.update_eq_self,
      users_same fun k => by simp [hact, Writes]]
    exact hi.locks
  · obtain ⟨⟨ok, locks⟩, hlock, hr⟩ := Option.map_eq_some_iff.mp hget
    have hfits := hi.locks.lockForRead hlock
    cases ok
    · cases hr
      exact stay locks hfits fun h0 => absurd (show (-2 : Int) = 0 from h0) (by decide)
    · cases hr
      have hreads : ∀ k, Reads { t with readSet := t.readSet.insert key 1 } k ↔
          k = key ∨ Reads t k := by
        intro k
        simp only [Reads, StdMap.find?_insert]
        split_ifs with hk <;> simp [hk]
      refine step _ locks hid rfl (fun k hk => (hreads k).mpr (Or.inr hk))
        (fun _ => Or.inl ((hreads key).mpr (Or.inl rfl))) ?_
      rw [users_insert hact hreads, users_same fun k => by simp [hact, Writes]]
      exact hfits

theorem Isolated.put (hi : Isolated h s) {key value : String} {r : Int} (hall : Running h id)
    (hput : s.put id key value = some (r, s')) : Isolated (h ++ [(.put id key value, r)]) s' := by
  obtain ⟨t, hrun⟩ := Option.isSome_iff_exists.mp ((hi.running id).mpr hall)
  have hact := active_of_running hrun
  have hid := hi.ids id t hact
  have hrunning : Running (h ++ [(.put id key value, r)]) id :=
    running_concat hall (by simp [isPrepareOf]) (by simp [isEndOf])
  rw [LockStore.put, getTxn_running hrun hid, Option.bind_some] at hput
  obtain ⟨⟨ok, locks⟩, hlock, hr⟩ := Option.map_eq_some_iff.mp hput
  have hfits := hi.locks.lockForWrite hlock
  have htouched : ∀ k, Touched (h ++ [(.put id key value, r)]) id k → (r = 0 ∧ k = key) ∨
      Reads t k ∨ Writes t k := by
    intro k hk
    rcases touched_concat.mp hk with hk | ⟨h0, hc | ⟨value, hc⟩⟩
    · exact Or.inr (hi.touched id t k hact hk)
    · cases hc
    · cases hc
      exact Or.inl ⟨h0, rfl⟩
  cases ok
  · cases hr
    have hputs : ∀ k, puts (h ++ [(.put id key value, -2)]) id k = puts h id k := by
      intro k
      rw [puts_concat]
      simp [putOf]
    have := hi.access (x := (.put id key value, -2)) id t locks rfl hrunning hid
      (fun k hk => (htouched k hk).resolve_left fun h0 => absurd h0.1 (by decide))
      (fun k => by rw [hputs]; exact hi.writes id t k hact)
      (by
        rw [users_same fun k => by simp [hact], users_same fun k => by simp [hact]]
        exact hfits)
    rwa [setRunning_self (s := { s with locks := locks }) hrun] at this
  · cases hr
    have hsel : ∀ k, Writes { t with
        writeSet := t.writeSet.insert key ((t.writeSet.find? key).getD [] ++ [value]) } k ↔
          k = key ∨ Writes t k := by
      intro k
      simp only [Writes, StdMap.find?_insert]
      split_ifs with hk <;> simp [hk]
    refine hi.access (x := (.put id key value, 0)) id _ locks rfl hrunning hid (fun k hk => ?_) (fun k => ?_) ?_
    · rcases htouched k hk with ⟨-, rfl⟩ | hk | hk
      · exact Or.inr ((hsel k).mpr (Or.inl rfl))
      · exact Or.inl hk
      · exact Or.inr ((hsel k).mpr (Or.inr hk))
    · have hold := hi.writes id t k hact
      rw [puts_concat]
      simp only [StdMap.find?_insert]
      by_cases hk : k = key
      · subst hk
        rw [if_pos rfl, hold]
        by_cases hnil : puts h id k = []
        · simp [putOf, hnil]
        · simp [putOf, hnil]
      · rw [if_neg hk, hold]
        simp [putOf, Ne.symm hk]
    · rw [users_insert hact hsel, users_same fun k => by simp [hact, Reads]]
      exact hfits

theorem Isolated.prepare (hi : Isolated h s) {op : Nat} (hall : Running h id) :
    Isolated (h ++ [(.prepare id op, (s.prepare id op).1)]) (s.prepare id op).2 := by
  obtain ⟨t, hrun⟩ := Option.isSome_iff_exists.mp ((hi.running id).mpr hall)
  have hact := active_of_running hrun
  have hprep : s.prepare id op =
      (0, { s with running := s.running.erase id, prepared := s.prepared.insert id t }) := by
    rw [LockStore.prepare, hrun]
  rw [hprep]
  have hsame : active { s with running := s.running.erase id, prepared := s.prepared.insert id t } =
      s.active := by
    funext i
    by_cases hne : i = id
    · subst hne
      simp [active, StdMap.find?_erase, StdMap.find?_insert, hrun]
    · simp [active, StdMap.find?_erase, StdMap.find?_insert, hne]
  have hother : ∀ i, i ≠ id → (Call.prepare id op).txnid ≠ i := fun i hne => Ne.symm hne
  have hnow : Prepared (h ++ [(.prepare id op, 0)]) id :=
    prepared_concat.mpr (Or.inr (by simp [isPrepareOf]))
  have hnot : ¬ Ended (h ++ [(.prepare id op, 0)]) id := fun he =>
    (ended_concat.mp he).elim hall.2.2 (by simp [isEndOf])
  refine ⟨fun i => ?_, fun i => ?_, fun i u hu => ?_, fun i u key hu htu => ?_, fun i u key hu => ?_, ?_⟩
  · simp only [StdMap.find?_erase]
    by_cases hne : i = id
    · subst hne
      simp [Running, hnow]
    · rw [if_neg hne, running_other (hother i hne)]
      exact hi.running i
  · simp only [StdMap.find?_insert]
    by_cases hne : i = id
    · subst hne
      simp [hnow, hnot]
    · rw [if_neg hne, prepared_other (hother i hne), ended_other (hother i hne)]
      exact hi.prepared i
  · rw [hsame] at hu
    exact hi.ids i u hu
  · rw [hsame] at hu
    refine hi.touched i u key hu ?_
    rcases touched_concat.mp htu with htu | ⟨-, hc | ⟨value, hc⟩⟩
    · exact htu
    · cases hc
    · cases hc
  · rw [hsame] at hu
    rw [puts_concat, show putOf i key (.prepare id op, 0) = none from rfl, Option.toList_none,
      List.append_nil]
    exact hi.writes i u key hu
  · rw [hsame]
    exact hi.locks

/-- A prepared transaction is not running. -/
theorem Isolated.not_running (hi : Isolated h s) (hp : s.prepared.find? id = some t) :
    s.running.find? id = none := by
  refine Option.not_isSome_iff_eq_none.mp fun hsome => ?_
  exact ((hi.running id).mp hsome).2.1 ((hi.prepared id).mp (by rw [hp]; rfl)).1

/-- What a commit does: it writes the values, drops the locks and forgets the transaction. -/
theorem commit_cases {timestamp op : Nat} (hc : s.commit id timestamp op = some s') :
    ∃ t store s₁, s.prepared.find? id = some t ∧ t.id = id ∧
      putAll s.store t.writeSet.toList = some store ∧
      dropLocks { s with store := store } t = some s₁ ∧
      s' = { s₁ with prepared := s₁.prepared.erase id
                     retired := s₁.retired ++ [(op, ⟨t, .committed⟩)] } := by
  unfold LockStore.commit at hc
  split at hc
  · cases hc
  rename_i t ht
  split_ifs at hc with hid
  obtain ⟨store, hput, hc⟩ := Option.bind_eq_some_iff.mp hc
  obtain ⟨s₁, hdrop, rfl⟩ := Option.map_eq_some_iff.mp hc
  refine ⟨t, store, s₁, ht, hid, hput, hdrop, ?_⟩
  obtain ⟨locks, -, rfl⟩ := Option.map_eq_some_iff.mp hdrop
  rfl

theorem Isolated.commit (hi : Isolated h s) {timestamp op : Nat}
    (hc : s.commit id timestamp op = some s') :
    Isolated (h ++ [(.commit id timestamp op, 0)]) s' := by
  obtain ⟨t, store, s₁, hp, hid, -, hdrop, rfl⟩ := commit_cases hc
  have hn := hi.not_running hp
  have hact := active_of_prepared hn hp
  obtain ⟨⟨locks, rfl⟩, hl⟩ := dropLocks_fits (s := { s with store := store }) hdrop hi.locks
    (hid.symm ▸ hact)
  rw [hid] at hl
  refine hi.ends id rfl (by simp [isEndOf]) (fun i => ?_) (fun i => ?_) hl
  · show s.running.find? i = _
    split_ifs with hne
    · rw [hne, hn]
    · rfl
  · exact StdMap.find?_erase ..

theorem Isolated.abort (hi : Isolated h s) {op : Nat} (hc : s.abortTxn id op = some s') :
    Isolated (h ++ [(.abort id op, 0)]) s' := by
  unfold LockStore.abortTxn at hc
  split at hc
  · rename_i t hrun
    obtain ⟨s₁, hdrop, rfl⟩ := Option.map_eq_some_iff.mp hc
    have hact := active_of_running hrun
    have hid := hi.ids id t hact
    obtain ⟨⟨locks, rfl⟩, hl⟩ := dropLocks_fits hdrop hi.locks (hid.symm ▸ hact)
    rw [hid] at hl
    have hnone : s.prepared.find? id = none := by
      refine Option.not_isSome_iff_eq_none.mp fun hsome => ?_
      obtain ⟨u, hu⟩ := Option.isSome_iff_exists.mp hsome
      rw [hi.not_running hu] at hrun
      cases hrun
    refine hi.ends id rfl (by simp [isEndOf]) (fun i => ?_) (fun i => ?_) hl
    · exact StdMap.find?_erase ..
    · show s.prepared.find? i = _
      split_ifs with hne
      · rw [hne, hnone]
      · rfl
  · rename_i hn
    split at hc
    · rename_i t hp
      obtain ⟨s₁, hdrop, rfl⟩ := Option.map_eq_some_iff.mp hc
      have hact := active_of_prepared hn hp
      have hid := hi.ids id t hact
      obtain ⟨⟨locks, rfl⟩, hl⟩ := dropLocks_fits hdrop hi.locks (hid.symm ▸ hact)
      rw [hid] at hl
      refine hi.ends id rfl (by simp [isEndOf]) (fun i => ?_) (fun i => ?_) hl
      · show s.running.find? i = _
        split_ifs with hne
        · rw [hne, hn]
        · rfl
      · exact StdMap.find?_erase ..
    · cases hc

/-- Every call keeps the invariant. -/
theorem Isolated.call (hi : Isolated h s) {c : Call} {r : Int × String} (hall : Allowed h c)
    (hc : txnStore.call s c = some (r, s')) : Isolated (h ++ [(c, r.1)]) s' := by
  cases c with
  | begin id =>
    cases hc
    exact hi.begin hall
  | get id key => exact hi.get hall hc
  | put id key value =>
    obtain ⟨x, hx, hr⟩ := Option.map_eq_some_iff.mp hc
    cases hr
    exact hi.put hall hx
  | prepare id op =>
    cases hc
    exact hi.prepare hall
  | commit id timestamp op =>
    obtain ⟨x, hx, hr⟩ := Option.map_eq_some_iff.mp hc
    cases hr
    exact hi.commit hx
  | abort id op =>
    obtain ⟨x, hx, hr⟩ := Option.map_eq_some_iff.mp hc
    cases hr
    exact hi.abort hx

/-! ### Runs -/

/-- Every call was of a transaction that had begun. -/
def AllBegan (h : History) : Prop := ∀ x ∈ h, Began h x.1.txnid

theorem AllBegan.concat {c : Call} {status : Int} (hb : AllBegan h) (hall : Allowed h c) :
    AllBegan (h ++ [(c, status)]) := by
  intro y hy
  refine began_concat.mpr ?_
  rcases List.mem_append.mp hy with hy | hy
  · exact Or.inl (hb y hy)
  · obtain rfl := List.mem_singleton.mp hy
    cases c with
    | begin id => exact Or.inr rfl
    | get id key => exact Or.inl hall.1
    | put id key value => exact Or.inl hall.1
    | prepare id op => exact Or.inl hall.1
    | commit id timestamp op => exact Or.inl hall.1
    | abort id op => exact Or.inl hall.1

/-- The transactions follow the discipline. -/
def Disciplined (s : Traced) (c : Call) : Prop := Allowed s.history c

theorem isolated_of_history {clock : Clock} {past : List Traced} {s : Traced}
    (hr : Run (system clock) Disciplined past s) :
    Isolated s.history s.store ∧ AllBegan s.history := by
  refine Run.invariant (I := fun _ s => Isolated s.history s.store ∧ AllBegan s.history)
    ⟨isolated_new clock, fun _ hx => by cases hx⟩ ?_ hr
  rintro _ s c s' - ⟨hi, hb⟩ hall hstep
  obtain ⟨⟨r, store⟩, hc, rfl⟩ := Option.map_eq_some_iff.mp hstep
  exact ⟨hi.call hall hc, hb.concat hall⟩

/-- One who has touched a key, and has not ended, reads or writes it. -/
theorem Isolated.uses (hi : Isolated h s) (hb : AllBegan h) {key : String} (ht : Touched h id key)
    (hne : ¬ Ended h id) : id ∈ users Reads s.active key ∨ id ∈ users Writes s.active key := by
  have hbegan : Began h id := by
    obtain ⟨x, hx, -, hc | ⟨value, hc⟩⟩ := ht
    · have := hb x hx
      rwa [hc] at this
    · have := hb x hx
      rwa [hc] at this
  obtain ⟨t, hact⟩ : ∃ t, s.active id = some t := by
    by_cases hp : Prepared h id
    · obtain ⟨t, hpt⟩ := Option.isSome_iff_exists.mp ((hi.prepared id).mpr ⟨hp, hne⟩)
      exact ⟨t, active_of_prepared (hi.not_running hpt) hpt⟩
    · obtain ⟨t, hrt⟩ := Option.isSome_iff_exists.mp ((hi.running id).mpr ⟨hbegan, hp, hne⟩)
      exact ⟨t, active_of_running hrt⟩
  exact (hi.touched id t key hact ht).imp (fun hk => ⟨t, hact, hk⟩) fun hk => ⟨t, hact, hk⟩

/-- One who writes a key is the only one that uses it. -/
theorem Isolated.alone (hi : Isolated h s) {key : String} {i : Nat}
    (hw : i ∈ users Writes s.active key)
    (hu : id ∈ users Reads s.active key ∨ id ∈ users Writes s.active key) : id = i := by
  obtain ⟨hW, hR⟩ := (hi.locks key).exclusive hw
  rcases hu with hu | hu
  · exact hR hu
  · rwa [hW] at hu

theorem get_put (store : KVStore) (k value key : String) :
    (store.put k value).get key = if key = k then some value else store.get key := by
  unfold KVStore.put KVStore.get
  rw [StdMap.find?_insert]
  split_ifs with hk <;> simp

/-- The loop of `commit` gives each key in it its last value. -/
theorem get_putAll {key : String} : ∀ {writes : List (String × List String)} {store store' : KVStore},
    (writes.map Prod.fst).Pairwise (· < ·) → putAll store writes = some store' →
      store'.get key = ((writes.find? (·.1 = key)).bind (·.2.getLast?)).or (store.get key)
  | [], store, store', _, h => by
      obtain rfl : store = store' := by simpa [putAll] using h
      rfl
  | write :: writes, store, store', hs, h => by
      rw [putAll, List.foldlM_cons] at h
      obtain ⟨store₁, h₁, h⟩ := Option.bind_eq_some_iff.mp h
      obtain ⟨value, hv, rfl⟩ := Option.map_eq_some_iff.mp h₁
      obtain ⟨hlt, hs⟩ := List.pairwise_cons.mp hs
      rw [get_putAll hs h, get_put]
      by_cases hk : write.1 = key
      · have hnone : writes.find? (·.1 = key) = none := by
          refine List.find?_eq_none.mpr fun x hx => ?_
          have := hlt x.1 (List.mem_map_of_mem hx)
          simpa using (hk ▸ this).ne'
        rw [hnone, List.find?_cons_of_pos (by simpa using hk), if_pos hk.symm]
        simp [hv]
      · rw [List.find?_cons_of_neg (by simpa using hk), if_neg (Ne.symm hk)]

/-- A commit gives each key that the transaction has put its last value, and leaves the others. -/
theorem Isolated.get_commit (hi : Isolated h s) {timestamp op : Nat}
    (hc : s.commit id timestamp op = some s') (key : String) :
    s'.store.get key = (puts h id key).getLast?.or (s.store.get key) := by
  obtain ⟨t, store, s₁, hp, -, hput, hdrop, rfl⟩ := commit_cases hc
  have hwrites := hi.writes id t key (active_of_prepared (hi.not_running hp) hp)
  obtain ⟨locks, -, rfl⟩ := Option.map_eq_some_iff.mp hdrop
  have hbind : (t.writeSet.toList.find? (·.1 = key)).bind (·.2.getLast?) =
      (t.writeSet.find? key).bind List.getLast? := by
    rw [StdMap.find?]
    cases t.writeSet.toList.find? (·.1 = key) <;> rfl
  have hlast : (t.writeSet.find? key).bind List.getLast? = (puts h id key).getLast? := by
    rw [hwrites]
    split_ifs with hnil
    · rw [hnil]
      rfl
    · rfl
  show store.get key = _
  rw [get_putAll t.writeSet.sorted hput, hbind, hlast]

/-- Transactions are isolated. In any run, a key that a transaction has read or written successfully, and
    that has not ended, is not changed by the commit of another one, and no other one puts it
    successfully; and a commit sets the keys that its transaction has put successfully, each to
    the last value. -/
theorem isolates {clock : Clock} {past : List Traced} {s : Traced} {c : Call} {r : Int × String}
    {store : LockStore} (hr : Run (system clock) Disciplined past s) (hall : Allowed s.history c)
    (hc : txnStore.call s.store c = some (r, store)) :
    (∀ id key, Touched s.history id key → ¬ Ended s.history id →
      (∀ i timestamp op, c = .commit i timestamp op → i ≠ id →
        store.store.get key = s.store.store.get key) ∧
      ∀ i value, c = .put i key value → i ≠ id → r.1 ≠ 0) ∧
    ∀ id timestamp op, c = .commit id timestamp op → ∀ key,
      store.store.get key = (puts s.history id key).getLast?.or (s.store.store.get key) := by
  obtain ⟨hi, hb⟩ := isolated_of_history hr
  have hcommit : ∀ id timestamp op, c = .commit id timestamp op → ∀ key,
      store.store.get key = (puts s.history id key).getLast?.or (s.store.store.get key) := by
    rintro id timestamp op rfl key
    obtain ⟨s₁, h₁, hr⟩ := Option.map_eq_some_iff.mp hc
    cases hr
    exact hi.get_commit (show s.store.commit id timestamp op = some store from h₁) key
  refine ⟨fun id key ht hne => ⟨?_, ?_⟩, hcommit⟩
  · rintro i timestamp op rfl hdiff
    rw [hcommit i timestamp op rfl key]
    obtain ⟨s₁, h₁, -⟩ := Option.map_eq_some_iff.mp hc
    obtain ⟨t, -, -, hp, -⟩ := commit_cases (show s.store.commit i timestamp op = some _ from h₁)
    have hact := active_of_prepared (hi.not_running hp) hp
    have hwrites := hi.writes i t key hact
    by_cases hnil : puts s.history i key = []
    · rw [hnil]
      rfl
    · rw [if_neg hnil] at hwrites
      have hw : i ∈ users Writes s.store.active key := ⟨t, hact, by rw [Writes, hwrites]; rfl⟩
      exact absurd (hi.alone hw (hi.uses hb ht hne)).symm hdiff
  · rintro i value rfl hdiff h0
    have hi' := hi.call hall hc
    have hb' : AllBegan (s.history ++ [(.put i key value, r.1)]) := hb.concat hall
    have hother : (Call.put i key value, r.1).1.txnid ≠ id := hdiff
    have huse := hi'.uses hb' ((touched_other hother).mpr ht) (mt (ended_other hother).mp hne)
    -- the put is now the last of the values that `i` has put
    obtain ⟨t, hrt⟩ := Option.isSome_iff_exists.mp ((hi'.running i).mpr
      (running_concat hall (by simp [isPrepareOf]) (by simp [isEndOf])))
    have hwrites := hi'.writes i t key (active_of_running hrt)
    have hputs : puts (s.history ++ [(.put i key value, r.1)]) i key ≠ [] := by
      rw [puts_concat]
      simp [putOf, h0]
    rw [if_neg hputs] at hwrites
    exact hdiff (hi'.alone ⟨t, active_of_running hrt, by rw [Writes, hwrites]; rfl⟩ huse).symm

/-- A clock that stands still. -/
def stopped : Clock := fun _ => ⟨0, 0⟩

/-- Of two transactions that want to write the same key the first one gets it, and commits. -/
theorem isolates_twoWriters : ∃ s r store,
    txnStore.call s (.commit 1 7 2) = some (r, store) ∧ store.store.get "k" = some "a" := by
  have hr : ∃ past s, Run (system stopped) Disciplined past s ∧
      s.history = [(.begin 1, 0), (.put 1 "k" "a", 0), (.begin 2, 0), (.put 2 "k" "b", -2),
        (.prepare 1 1, 0)] ∧
      ∃ r store, txnStore.call s.store (.commit 1 7 2) = some (r, store) := by
    refine ⟨_, _, .next (e := .prepare 1 1) (.next (e := .put 2 "k" "b") (.next (e := .begin 2)
      (.next (e := .put 1 "k" "a") (.next (e := .begin 1) .start ?_ rfl) ?_ rfl) ?_ rfl) ?_ rfl) ?_ rfl,
      rfl, _, _, rfl⟩
    all_goals simp [Disciplined, Allowed, Running, Began, Prepared, Ended, isPrepareOf, isEndOf,
      system, Call.txnid]
  obtain ⟨past, s, hrun, hh, r, store, hc⟩ := hr
  refine ⟨s.store, r, store, hc, ?_⟩
  have hall : Allowed s.history (.commit 1 7 2) := by
    rw [hh]
    simp [Allowed, Began, Ended, isEndOf]
  rw [(isolates hrun hall hc).2 1 7 2 rfl "k", hh]
  rfl

end Dsnet.NIStore.LockStore
