import Dsnet.Transaction.KVWrites
import Dsnet.Transaction.Locks

/-! The locks of the key value store. What is locked is locked by a pending transaction with that key, and a
    transaction that waits for a lock is blocked on its key: so a lock that is handed on goes to a
    transaction that wants it, and a transaction keeps its locks until it is finished, and has none
    afterwards. -/

namespace Dsnet.Transaction
open Handler

/-! ### Transactions and their locks -/

/-- The keys a transaction writes, or reads. -/
def KVTxn.keys (t : KVTxn) : Bool → List String
  | true => t.writeSet.toList.map fun kv => (ofLex kv).1
  | false => t.readSet.toList

/-- What a transaction reads and writes. -/
def KVTxn.sets (t : KVTxn) : StdSet String × StdSet (String ×ₗ String) := (t.readSet, t.writeSet)

theorem KVTxn.keys_congr {t t' : KVTxn} (h : t'.sets = t.sets) : t'.keys = t.keys := by
  obtain ⟨hr, hw⟩ := Prod.mk.inj h
  funext w
  cases w with
  | true => rw [keys, keys, hw]
  | false => rw [keys, keys, hr]

@[simp] theorem KVTxn.keys_blockedKeys (t : KVTxn) (bs : StdSet String) :
    { t with blockedKeys := bs }.keys = t.keys := KVTxn.keys_congr rfl

/-- The keys that the text of a transaction puts, or gets. -/
def KVEnv.keys (E : KVEnv) (txn : String) : Bool → List String
  | true => (E.puts txn).map Prod.fst
  | false => if txn = "" then [] else (E.message.parse txn).gets

namespace KVTxnServer
variable {E : KVEnv} {s s' s'' : KVTxnServer} {id : Nat}

/-- What is locked is locked by a pending transaction with that key. With `retryLock` no transaction waits;
    otherwise one that does is pending, and blocked on the key. -/
structure LocksOk (E : KVEnv) (s : KVTxnServer) : Prop where
  locks : s.lockServer.Ok
  retry : s.lockServer.retryLock = E.retryLock
  pending : ∀ {id t}, s.pendingTxns.find? id = some t →
    t.txnarg.txnid = id ∧ (E.retryLock = true → t.blockedKeys.size = 0)
  covered : ∀ {w key id}, s.lockServer.Holds w key id →
    ∃ t, s.pendingTxns.find? id = some t ∧ key ∈ t.keys w
  waiting : E.retryLock = false → ∀ {key id w}, s.lockServer.waiter key id = some w →
    ∃ t, s.pendingTxns.find? id = some t ∧ key ∈ t.blockedKeys.toList ∧
      ∀ m, w.wants m = true → key ∈ t.keys m

/-- Between two calls: the mode tells whether a transaction is pending. -/
structure Ok (E : KVEnv) (s : KVTxnServer) : Prop extends LocksOk E s where
  mode : s.mode = if s.pendingTxns.size = 0 then .normal else .locking

/-- What a pending transaction reads and writes. -/
def pendingSets (s : KVTxnServer) (id : Nat) : Option (StdSet String × StdSet (String ×ₗ String)) :=
  (s.pendingTxns.find? id).map KVTxn.sets

/-- The transaction is not pending, and holds no lock. -/
def Free (s : KVTxnServer) (id : Nat) : Prop :=
  s.pendingTxns.find? id = none ∧ ∀ w key, ¬ s.lockServer.Holds w key id

/-- Transaction `id` has kept its locks and its keys. -/
structure Kept (s s' : KVTxnServer) (id : Nat) : Prop where
  holds : ∀ {w key}, s.lockServer.Holds w key id → s'.lockServer.Holds w key id
  sets : s'.pendingSets id = s.pendingSets id

theorem Kept.refl (s : KVTxnServer) (id : Nat) : Kept s s id := ⟨fun h => h, rfl⟩

theorem Kept.trans (h : Kept s s' id) (h' : Kept s' s'' id) : Kept s s'' id where
  holds hl := h'.holds (h.holds hl)
  sets := h'.sets.trans h.sets

theorem LocksOk.free (h : s.LocksOk E) (hid : s.pendingTxns.find? id = none) : s.Free id := by
  refine ⟨hid, fun w key hheld => ?_⟩
  obtain ⟨t, ht, _⟩ := h.covered hheld
  rw [hid] at ht
  cases ht

/-- A transaction that is not pending is not after what it has kept. -/
theorem Free.kept (h : s.Free id) (hk : Kept s s' id) (hok : s'.LocksOk E) : s'.Free id := by
  refine hok.free ?_
  have := hk.sets
  rw [pendingSets, pendingSets, h.1] at this
  simpa using this

/-- A transaction that is not blocked waits for no lock. -/
theorem LocksOk.not_waiting (h : s.LocksOk E) (hE : E.retryLock = false) {t : KVTxn}
    (ht : s.pendingTxns.find? id = some t) (hb : t.blockedKeys.size = 0) (key : String) :
    s.lockServer.waiter key id = none := by
  cases hw : s.lockServer.waiter key id with
  | none => rfl
  | some w =>
    obtain ⟨t', ht', hkey, -⟩ := h.waiting hE hw
    rw [ht] at ht'
    cases ht'
    rw [List.length_eq_zero_iff.mp hb] at hkey
    cases hkey

/-- A server that is new. -/
theorem ok_initial (E : KVEnv) (store : String → Option String) : (initial E store).Ok E where
  locks := LockServer.ok_new _
  retry := rfl
  pending h := by cases h
  covered h := by
    simp [initial, LockServer.Holds, LockServer.lock, LockServer.new, Lock.new, Lock.Holds, StdMap.find?] at h
  waiting _ _ _ _ h := by
    simp [initial, LockServer.waiter, LockServer.lock, LockServer.new, Lock.new, StdMap.find?] at h
  mode := rfl

end KVTxnServer

variable {E : KVEnv}

/-! ### Taking the locks of a transaction -/

/-- The locks that `id` has taken: what was held is held, and what is held besides is a lock it wanted. For
    others it waits, and is blocked on their keys unless it asks again. -/
structure Took (E : KVEnv) (ls ls' : LockServer) (id : Nat) (wanted : Bool → String → Prop)
    (blockedKeys : StdSet String) : Prop where
  ok : ls'.Ok
  retry : ls'.retryLock = ls.retryLock
  keeps : ∀ {w key t}, ls.Holds w key t → ls'.Holds w key t
  only : ∀ {w key t}, ls'.Holds w key t → ls.Holds w key t ∨ (t = id ∧ wanted w key)
  waiters : ∀ {key t w'}, ls'.waiter key t = some w' → ls.waiter key t = some w' ∨
    (t = id ∧ (E.retryLock = false → key ∈ blockedKeys.toList) ∧ ∀ m, w'.wants m = true →
      wanted m key ∨ ∃ w, ls.waiter key t = some w ∧ w.wants m = true)

theorem Took.refl {ls : LockServer} (hls : ls.Ok) (id : Nat) (wanted : Bool → String → Prop)
    (blockedKeys : StdSet String) : Took E ls ls id wanted blockedKeys :=
  ⟨hls, rfl, fun h => h, Or.inl, Or.inl⟩

theorem Took.trans {ls ls' ls'' : LockServer} {id : Nat} {wanted : Bool → String → Prop}
    {bs bs' : StdSet String} (h : Took E ls ls' id wanted bs) (h' : Took E ls' ls'' id wanted bs')
    (hbs : ∀ key ∈ bs.toList, key ∈ bs'.toList) : Took E ls ls'' id wanted bs' where
  ok := h'.ok
  retry := h'.retry.trans h.retry
  keeps hl := h'.keeps (h.keeps hl)
  only hl := (h'.only hl).elim h.only Or.inr
  waiters {key t w'} hw := by
    rcases h'.waiters hw with hw | ⟨rfl, hbl, hwants⟩
    · exact (h.waiters hw).imp_right fun ⟨ht, hbl, hwants⟩ => ⟨ht, fun hE => hbs _ (hbl hE), hwants⟩
    · refine Or.inr ⟨rfl, hbl, fun m hm => ?_⟩
      rcases hwants m hm with hm | ⟨w, hw, hm⟩
      · exact Or.inl hm
      · rcases h.waiters hw with hw | ⟨-, -, hwants⟩
        · exact Or.inr ⟨w, hw, hm⟩
        · exact hwants m hm

/-- What a loop over keys that are locked has made of the transaction: it may be blocked on more keys. -/
structure Blocked (E : KVEnv) (t t' : KVTxn) : Prop where
  eq : t' = { t with blockedKeys := t'.blockedKeys }
  retry : E.retryLock = true → t' = t
  keys : ∀ key ∈ t.blockedKeys.toList, key ∈ t'.blockedKeys.toList

theorem Blocked.refl (t : KVTxn) : Blocked E t t := ⟨rfl, fun _ => rfl, fun _ h => h⟩

theorem Blocked.trans {t t' t'' : KVTxn} (h : Blocked E t t') (h' : Blocked E t' t'') : Blocked E t t'' where
  eq := by rw [h'.eq, h.eq]
  retry hE := (h'.retry hE).trans (h.retry hE)
  keys key hk := h'.keys key (h.keys key hk)

theorem Blocked.txnarg {t t' : KVTxn} (h : Blocked E t t') : t'.txnarg = t.txnarg := by rw [h.eq]

theorem Blocked.sets {t t' : KVTxn} (h : Blocked E t t') : t'.sets = t.sets := by rw [h.eq]; rfl

/-- A key is blocked, unless the client asks again. -/
theorem Blocked.insert (E : KVEnv) (t : KVTxn) (key : String) :
    Blocked E t (if E.retryLock then t else { t with blockedKeys := t.blockedKeys.insert key }) := by
  by_cases hE : E.retryLock = true
  · rw [if_pos hE]
    exact .refl t
  · rw [if_neg hE]
    exact ⟨rfl, fun h => (hE h).elim, fun k hk => StdSet.mem_insert.mpr (Or.inr hk)⟩

/-- A transaction asks for locks in one of the two ways. -/
theorem acquireLocks_spec {lock : LockServer → String → Nat → Option (Bool × LockServer)} {write : Bool}
    (ha : LockServer.Acquires lock write) (wanted : Bool → String → Prop) :
    ∀ {keys : List String} (t : KVTxn) (blocked : Bool) {s : KVTxnServer}, s.lockServer.Ok →
    (∀ key ∈ keys, wanted write key) →
    Sat (acquireLocks E lock keys t blocked) s
      (fun x s' _ => ∃ ls, s' = { s with lockServer := ls } ∧ Blocked E t x.1 ∧
        Took E s.lockServer ls t.txnarg.txnid wanted x.1.blockedKeys ∧ (blocked = true → x.2 = true) ∧
        (x.2 = false → ∀ key ∈ keys, ls.Holds write key t.txnarg.txnid))
      fun _ _ => False
  | [], t, _, s, hs, _ => ⟨s.lockServer, rfl, .refl t, .refl hs .., id, by simp⟩
  | key :: keys, t, blocked, s, hs, hw => by
      obtain ⟨b, ls, hl, hreq⟩ := ha s.lockServer key t.txnarg.txnid hs
      obtain ⟨hkey, hkeys⟩ := List.forall_mem_cons.mp hw
      -- the first request, when `t'` is what the transaction is then
      have htook : ∀ t' : KVTxn, (b = false → E.retryLock = false → key ∈ t'.blockedKeys.toList) →
          Took E s.lockServer ls t.txnarg.txnid wanted t'.blockedKeys := by
        intro t' ht'
        refine ⟨hreq.ok, hreq.retry, fun h => (hreq.holds ..).mpr (Or.inl h),
          fun h => ((hreq.holds ..).mp h).imp_right ?_, fun h => (hreq.waiters h).imp_right ?_⟩
        · rintro ⟨rfl, rfl, -, rfl⟩
          exact ⟨rfl, hkey⟩
        · rintro ⟨rfl, rfl, hb, hwants⟩
          refine ⟨rfl, ht' hb, fun m hm => (hwants m hm).imp_left ?_⟩
          rintro rfl
          exact hkey
      have hrest : ∀ (t' : KVTxn) (blocked' : Bool), Blocked E t t' →
          (b = false → E.retryLock = false → key ∈ t'.blockedKeys.toList) →
          Sat (acquireLocks E lock keys t' blocked') { s with lockServer := ls }
          (fun x s' _ => ∃ ls', s' = { s with lockServer := ls' } ∧ Blocked E t x.1 ∧
            Took E s.lockServer ls' t.txnarg.txnid wanted x.1.blockedKeys ∧ (blocked' = true → x.2 = true) ∧
            (x.2 = false → (∀ k ∈ keys, ls'.Holds write k t.txnarg.txnid) ∧
              (b = true → ls'.Holds write key t.txnarg.txnid))) fun _ _ => False := by
        intro t' blocked' hbl ht'
        refine (acquireLocks_spec ha wanted t' blocked' (s := { s with lockServer := ls }) hreq.ok
          hkeys).mono (fun x s' _ h => ?_) fun _ _ h => h
        rw [hbl.txnarg] at h
        obtain ⟨ls', rfl, hbl', htook', hb, hall⟩ := h
        exact ⟨ls', rfl, hbl.trans hbl', (htook t' ht').trans htook' hbl'.keys, hb, fun hf => ⟨hall hf,
          fun hb => htook'.keeps ((hreq.holds ..).mpr (Or.inr ⟨rfl, rfl, hb, rfl⟩))⟩⟩
      simp only [acquireLocks, sat_bind, sat_get, sat_ofOption, sat_modify, sat_ite, hl]
      refine ⟨fun x hx => ?_, by simp⟩
      cases hx
      refine ⟨fun hb => ?_, fun hb => ?_⟩
      · refine (hrest t blocked (.refl t) fun hf => by simp [hf] at hb).mono (fun x s' _ h => ?_)
          fun _ _ h => h
        obtain ⟨ls', hs', hx, htook', hbl, hall⟩ := h
        exact ⟨ls', hs', hx, htook', hbl, fun hf => List.forall_mem_cons.mpr ⟨(hall hf).2 hb, (hall hf).1⟩⟩
      · refine (hrest _ true (.insert E t key) fun _ hE => by simp [hE]).mono (fun x s' _ h => ?_)
          fun _ _ h => h
        obtain ⟨ls', hs', hx, htook', hbl, hall⟩ := h
        refine ⟨ls', hs', hx, htook', fun _ => hbl rfl, fun hf => ?_⟩
        rw [hbl rfl] at hf
        cases hf

/-! ### Releasing the locks of a transaction -/

variable {s : KVTxnServer}

/-- The locks of `r` have been released, for these keys; those of others may have been handed on to them. -/
structure LetGo (E : KVEnv) (s s' : KVTxnServer) (r : Nat) (released : Bool → String → Prop) : Prop where
  ok : s'.LocksOk E
  store : s'.store = s.store
  others : ∀ id, id ≠ r → KVTxnServer.Kept s s' id
  pending : s'.pendingTxns.find? r = s.pendingTxns.find? r
  holds : ∀ {w key}, s'.lockServer.Holds w key r → s.lockServer.Holds w key r ∧ ¬ released w key

theorem LetGo.trans {s s' s'' : KVTxnServer} {r : Nat} {released released' : Bool → String → Prop}
    (h : LetGo E s s' r released) (h' : LetGo E s' s'' r released') :
    LetGo E s s'' r fun w key => released w key ∨ released' w key where
  ok := h'.ok
  store := h'.store.trans h.store
  others id hne := (h.others id hne).trans (h'.others id hne)
  pending := h'.pending.trans h.pending
  holds ht := by
    obtain ⟨ht', hno'⟩ := h'.holds ht
    obtain ⟨ht, hno⟩ := h.holds ht'
    exact ⟨ht, fun hr => hr.elim hno hno'⟩

/-- A transaction that waits for a key no longer is blocked on one key less. -/
theorem KVTxnServer.LocksOk.unblock (hs : s.LocksOk E) (hE : E.retryLock = false) {holder : Nat}
    {t : KVTxn} (ht : s.pendingTxns.find? holder = some t) {key : String}
    (hnone : s.lockServer.waiter key holder = none) :
    KVTxnServer.LocksOk E { s with
      pendingTxns := s.pendingTxns.insert holder { t with blockedKeys := t.blockedKeys.erase key } } where
  locks := hs.locks
  retry := hs.retry
  pending {id t'} h := by
    simp only [StdMap.find?_insert] at h
    split_ifs at h with hid
    · cases h
      exact ⟨hid ▸ (hs.pending ht).1, fun h => by simp [hE] at h⟩
    · exact hs.pending h
  covered {w k id} h := by
    obtain ⟨t', ht', hk⟩ := hs.covered h
    simp only [StdMap.find?_insert]
    split_ifs with hid
    · rw [hid, ht] at ht'
      cases ht'
      exact ⟨_, rfl, by rwa [KVTxn.keys_blockedKeys]⟩
    · exact ⟨t', ht', hk⟩
  waiting _ k id w h := by
    obtain ⟨t', ht', hk, hwants⟩ := hs.waiting hE h
    simp only [StdMap.find?_insert]
    split_ifs with hid
    · rw [hid, ht] at ht'
      cases ht'
      refine ⟨_, rfl, StdSet.mem_erase.mpr ⟨hk, ?_⟩, fun m hm => ?_⟩
      · rintro rfl
        have h : s.lockServer.waiter k id = some w := h
        rw [hid, hnone] at h
        cases h
      · rw [KVTxn.keys_blockedKeys]
        exact hwants m hm
    · exact ⟨t', ht', hk, hwants⟩

/-- `ReleaseLocks`: those that have got the lock of `key` wait for it no longer. -/
theorem unblock_spec (key : String) : ∀ (holders : List Nat) (unblocked : StdSet Nat) {s : KVTxnServer},
    s.LocksOk E → (holders ≠ [] → E.retryLock = false) →
    (∀ h ∈ holders, s.lockServer.waiter key h = none) →
    Sat (unblock key holders unblocked) s
      (fun x s' _ => s'.LocksOk E ∧ s'.store = s.store ∧ s'.lockServer = s.lockServer ∧
        (∀ id, s'.pendingSets id = s.pendingSets id) ∧
        (∀ {id t}, s.pendingTxns.find? id = some t → t.blockedKeys.size = 0 →
          s'.pendingTxns.find? id = some t) ∧ (holders = [] → x = unblocked))
      fun _ _ => E.retryLock = false
  | [], unblocked, s, hs, _, _ => ⟨hs, rfl, rfl, fun _ => rfl, fun h _ => h, fun _ => rfl⟩
  | holder :: holders, unblocked, s, hs, hE, hno => by
      have hE := hE (by simp)
      obtain ⟨hnone, hno⟩ := List.forall_mem_cons.mp hno
      simp only [unblock, sat_bind, sat_get, sat_ofOption, sat_assert, sat_modify]
      refine ⟨fun t ht => ⟨fun hkey => ?_, fun _ => hE⟩, fun _ => hE⟩
      have hs₁ := hs.unblock hE ht hnone
      refine (unblock_spec key holders _ hs₁ (fun _ => hE) hno).mono (fun x s' _ h => ?_) fun _ _ h => h
      obtain ⟨hok, hst, hls, hsets, hkeep, -⟩ := h
      refine ⟨hok, hst, hls, fun id => (hsets id).trans ?_, fun {id t'} ht' hb => hkeep ?_ hb, by simp⟩
      · simp only [KVTxnServer.pendingSets, StdMap.find?_insert]
        split_ifs with hid
        · rw [hid, ht]
          rfl
        · rfl
      · simp only [StdMap.find?_insert]
        split_ifs with hid
        · rw [hid, ht] at ht'
          cases ht'
          rw [List.length_eq_zero_iff.mp hb] at hkey
          cases hkey
        · exact ht'

/-- A transaction that is not blocked releases locks in one of the two ways. -/
theorem releaseKeys_spec {release : LockServer → String → Nat → Option (LockServer × StdSet Nat)}
    {write : Bool} (hr : LockServer.Releases release write) {t : KVTxn} {r : Nat}
    (hb : t.blockedKeys.size = 0) :
    ∀ {keys : List String} (unblocked : StdSet Nat) {s : KVTxnServer}, s.LocksOk E →
    s.pendingTxns.find? r = some t →
    Sat (releaseKeys E release r keys unblocked) s
      (fun x s' _ => LetGo E s s' r (fun w key => w = write ∧ key ∈ keys) ∧
        (E.retryLock = true → x = unblocked))
      fun _ _ => E.retryLock = false
  | [], unblocked, s, hs, _ => ⟨⟨hs, rfl, fun _ _ => .refl .., rfl, fun h => ⟨h, by simp⟩⟩, fun _ => rfl⟩
  | key :: keys, unblocked, s, hs, ht => by
      obtain ⟨ls, newholders, hl, hh⟩ := hr s.lockServer key r hs.locks
      simp only [releaseKeys, sat_bind, sat_get, sat_ofOption, sat_modify, sat_assert, hl]
      refine ⟨fun x hx => ?_, by simp⟩
      cases hx
      have hempty : E.retryLock = true → newholders = StdSet.empty := fun hE => hh.none (hs.retry.trans hE)
      refine ⟨fun _ => ?_, fun hno => (hno fun hE => by rw [hempty hE]; rfl).elim⟩
      -- the locks after the release; those that have got one are blocked on its key still
      have hs₁ : KVTxnServer.LocksOk E { s with lockServer := ls } := by
        refine ⟨hh.ok, hh.retry.trans hs.retry, hs.pending, fun {w k id} h => ?_,
          fun hE k id w h => hs.waiting hE (hh.waiters h).1⟩
        rcases hh.only h with ⟨h, -⟩ | ⟨hE, w', hw', hwants⟩
        · exact hs.covered h
        · obtain ⟨t', ht', -, hkeys⟩ := hs.waiting (hs.retry.symm.trans hE) hw'
          exact ⟨t', ht', hkeys _ hwants⟩
      have hretry : newholders.toList ≠ [] → E.retryLock = false := by
        intro hne
        by_contra hE
        rw [hempty (by simpa using hE)] at hne
        exact hne rfl
      have hwaits : ∀ h ∈ newholders.toList, ls.waiter key h = none := by
        intro h hmem
        cases hw : ls.waiter key h with
        | none => rfl
        | some w => exact ((hh.waiters hw).2 rfl hmem).elim
      refine (unblock_spec key newholders.toList unblocked hs₁ hretry hwaits).mono (fun x s₂ _ h₂ => ?_)
        fun _ _ h => h
      obtain ⟨hs₂, hst₂, hls₂, hsets₂, hkeep₂, hx⟩ := h₂
      have hgo : LetGo E s s₂ r fun w k => w = write ∧ k = key := by
        have ht₂ : s₂.pendingTxns.find? r = some t := hkeep₂ ht hb
        refine ⟨hs₂, hst₂, fun id hne => ⟨fun h => ?_, hsets₂ id⟩, ht₂.trans ht.symm, fun {w k} h => ?_⟩
        · rw [hls₂]
          exact hh.keeps h fun hwt => hne hwt.2.2
        · rw [hls₂] at h
          rcases hh.only h with ⟨h, hno⟩ | ⟨hE, w', hw', -⟩
          · exact ⟨h, fun hwk => hno ⟨hwk.1, hwk.2, rfl⟩⟩
          · rw [hs.not_waiting (hs.retry.symm.trans hE) ht hb] at hw'
            cases hw'
      refine (releaseKeys_spec hr hb x hs₂ (hgo.pending.trans ht)).mono (fun x' s₃ _ h₃ => ?_)
        fun _ _ h => h
      obtain ⟨hgo₃, hx₃⟩ := h₃
      have hall := hgo.trans hgo₃
      refine ⟨⟨hall.ok, hall.store, hall.others, hall.pending, fun h => ?_⟩, fun hE => ?_⟩
      · obtain ⟨h, hno⟩ := hall.holds h
        refine ⟨h, fun hwk => hno ?_⟩
        rcases List.mem_cons.mp hwk.2 with hk | hk
        · exact Or.inl ⟨hwk.1, hk⟩
        · exact Or.inr ⟨hwk.1, hk⟩
      · rw [hx₃ hE, hx (by rw [hempty hE]; rfl)]

/-- `CleanupTxn` frees the transaction that it is about. -/
theorem cleanupTxn_spec (hs : s.LocksOk E) {t : KVTxn} (ht : s.pendingTxns.find? t.txnarg.txnid = some t)
    (hb : t.blockedKeys.size = 0) :
    Sat (cleanupTxn E t) s
      (fun x s' _ => (E.retryLock = true → x = StdSet.empty) ∧ s'.LocksOk E ∧ s'.store = s.store ∧
        s'.Free t.txnarg.txnid ∧ ∀ id, id ≠ t.txnarg.txnid → KVTxnServer.Kept s s' id)
      fun _ _ => E.retryLock = false := by
  simp only [cleanupTxn, releaseLocks, sat_bind, sat_assert, sat_modify, sat_pure]
  refine (releaseKeys_spec LockServer.releases_releaseForRead hb StdSet.empty hs ht).mono
    (fun x₁ s₁ _ h₁ => ?_) fun _ _ h => h
  obtain ⟨hgo₁, hx₁⟩ := h₁
  refine (releaseKeys_spec LockServer.releases_releaseForWrite hb x₁ hgo₁.ok
    (hgo₁.pending.trans ht)).mono (fun x₂ s₂ _ h₂ => ?_) fun _ _ h => h
  obtain ⟨hgo₂, hx₂⟩ := h₂
  refine ⟨fun _ => ?_, fun hno => (hno hb).elim⟩
  have hgo := hgo₁.trans hgo₂
  have ht₂ := hgo.pending.trans ht
  have hfind : ∀ id, (s₂.pendingTxns.erase t.txnarg.txnid).find? id =
      if id = t.txnarg.txnid then none else s₂.pendingTxns.find? id := StdMap.find?_erase _ _
  -- all that it could hold has been released
  have hnone : ∀ w key, ¬ s₂.lockServer.Holds w key t.txnarg.txnid := by
    intro w key h
    obtain ⟨t', ht', hkey⟩ := hgo.ok.covered h
    rw [ht₂] at ht'
    cases ht'
    refine (hgo.holds h).2 ?_
    cases w with
    | true => exact Or.inr ⟨rfl, hkey⟩
    | false => exact Or.inl ⟨rfl, hkey⟩
  have hok : KVTxnServer.LocksOk E { s₂ with pendingTxns := s₂.pendingTxns.erase t.txnarg.txnid } := by
    refine ⟨hgo.ok.locks, hgo.ok.retry, fun {id t'} h => ?_, fun {w key id} h => ?_,
      fun hE key id w h => ?_⟩
    · simp only [hfind] at h
      split_ifs at h
      exact hgo.ok.pending h
    · have hne : id ≠ t.txnarg.txnid := fun heq => hnone w key (heq ▸ h)
      simp only [hfind, if_neg hne]
      exact hgo.ok.covered h
    · have hne : id ≠ t.txnarg.txnid := by
        rintro rfl
        have h : s₂.lockServer.waiter key t.txnarg.txnid = some w := h
        rw [hgo.ok.not_waiting hE ht₂ hb] at h
        cases h
      simp only [hfind, if_neg hne]
      exact hgo.ok.waiting hE h
  refine ⟨fun hE => (hx₂ hE).trans (hx₁ hE), hok, hgo.store, hok.free (by simp [hfind]), fun id hne =>
    ⟨(hgo.others id hne).holds, ?_⟩⟩
  rw [← (hgo.others id hne).sets]
  simp only [KVTxnServer.pendingSets, hfind, if_neg hne]

/-! ### Calls -/

variable {txn : String} {arg : TxnArg}

@[simp] theorem txnarg_txn : (s.txn E txn arg).txnarg = arg := by
  rw [KVTxnServer.txn]
  split <;> rfl

/-- What a call finds its transaction blocked on. -/
theorem blockedKeys_txn : (s.txn E txn arg).blockedKeys =
    ((s.pendingTxns.find? arg.txnid).getD (KVTxn.new arg)).blockedKeys := by
  rw [KVTxnServer.txn]
  split <;> rfl

/-- With `retryLock` a transaction is not blocked when a call of it begins. -/
theorem size_blockedKeys_txn (hs : s.LocksOk E) (hE : E.retryLock = true) :
    (s.txn E txn arg).blockedKeys.size = 0 := by
  rw [blockedKeys_txn]
  cases hf : s.pendingTxns.find? arg.txnid with
  | none => rfl
  | some t => exact (hs.pending hf).2 hE

/-- The keys of a text are added to those there are. -/
theorem mem_keys_include {t : KVTxn} {m : KVTxnMessage} {w : Bool} {key : String} :
    key ∈ (t.include m).keys w ↔
      key ∈ t.keys w ∨ key ∈ (if w then m.puts.map Prod.fst else m.gets) := by
  cases w with
  | true =>
    simp only [KVTxn.keys, KVTxn.include, List.mem_map, StdSet.mem_foldl_insert, if_true]
    constructor
    · rintro ⟨kv, hkv | ⟨a, ha, rfl⟩, rfl⟩
      · exact Or.inl ⟨kv, hkv, rfl⟩
      · exact Or.inr ⟨a, ha, rfl⟩
    · rintro (⟨kv, hkv, rfl⟩ | ⟨a, ha, rfl⟩)
      · exact ⟨kv, Or.inl hkv, rfl⟩
      · exact ⟨toLex a, Or.inr ⟨a, ha, rfl⟩, rfl⟩
  | false =>
    have h := StdSet.mem_foldl_insert (f := id) (x := key) (l := m.gets) (s := t.readSet)
    simpa [KVTxn.keys, KVTxn.include] using h

/-- A transaction keeps its keys. -/
theorem mem_keys_of_pending {t : KVTxn} (ht : s.pendingTxns.find? arg.txnid = some t) {w : Bool}
    {key : String} (h : key ∈ t.keys w) : key ∈ (s.txn E txn arg).keys w := by
  simp only [KVTxnServer.txn, ht, Option.getD_some]
  split_ifs
  · exact mem_keys_include.mpr (Or.inl h)
  · exact h

/-- A PREPARE or INDEP adds the keys of its text. -/
theorem mem_keys_of_text (ht : arg.type = .prepare ∨ arg.type = .indep) {w : Bool} {key : String}
    (h : key ∈ E.keys txn w) : key ∈ (s.txn E txn arg).keys w := by
  have hne : txn ≠ "" := by
    rintro rfl
    cases w <;> simp [KVEnv.keys, KVEnv.puts] at h
  simp only [KVTxnServer.txn, if_pos (⟨ht, hne⟩ : (arg.type = .prepare ∨ arg.type = .indep) ∧ txn ≠ "")]
  refine mem_keys_include.mpr (Or.inr ?_)
  cases w <;> simpa [KVEnv.keys, KVEnv.puts, hne] using h

/-- A call changes the pending transaction that it is about, which may have taken locks that it wants. -/
theorem locksOk_insert (hs : s.LocksOk E) {ls : LockServer} {t : KVTxn}
    (hb : Blocked E (s.txn E txn arg) t)
    (ht : Took E s.lockServer ls arg.txnid (fun w key => key ∈ (s.txn E txn arg).keys w) t.blockedKeys) :
    KVTxnServer.LocksOk E { s with
      lockServer := ls, pendingTxns := s.pendingTxns.insert arg.txnid t } where
  locks := ht.ok
  retry := ht.retry.trans hs.retry
  pending {id t'} h := by
    simp only [StdMap.find?_insert] at h
    split_ifs at h with hid
    · cases h
      refine ⟨by rw [hb.txnarg, txnarg_txn, hid], fun hE => ?_⟩
      rw [hb.retry hE]
      exact size_blockedKeys_txn hs hE
    · exact hs.pending h
  covered {w key id} h := by
    simp only [StdMap.find?_insert]
    split_ifs with hid
    · refine ⟨t, rfl, ?_⟩
      rw [KVTxn.keys_congr hb.sets]
      rcases ht.only h with hold | ⟨-, hnew⟩
      · obtain ⟨t', ht', hkey⟩ := hs.covered hold
        exact mem_keys_of_pending (hid ▸ ht') hkey
      · exact hnew
    · exact hs.covered ((ht.only h).resolve_right fun hh => hid hh.1)
  waiting hE key id w h := by
    have hold : id = arg.txnid → ∀ {w}, s.lockServer.waiter key id = some w →
        key ∈ t.blockedKeys.toList ∧ ∀ m, w.wants m = true → key ∈ (s.txn E txn arg).keys m := by
      intro hid w hw
      obtain ⟨t', ht', hkey, hwants⟩ := hs.waiting hE hw
      rw [hid] at ht'
      refine ⟨hb.keys key ?_, fun m hm => mem_keys_of_pending ht' (hwants m hm)⟩
      rw [blockedKeys_txn, ht']
      exact hkey
    simp only [StdMap.find?_insert]
    split_ifs with hid
    · refine ⟨t, rfl, ?_⟩
      rw [KVTxn.keys_congr hb.sets]
      rcases ht.waiters h with hw | ⟨-, hbl, hwants⟩
      · exact hold hid hw
      · refine ⟨hbl hE, fun m hm => ?_⟩
        rcases hwants m hm with hm | ⟨w', hw', hm⟩
        · exact hm
        · exact (hold hid hw').2 m hm
    · exact hs.waiting hE ((ht.waiters h).resolve_right fun hh => hid hh.1)

/-- The other transactions keep what they have. -/
theorem kept_insert {ls : LockServer} {wanted : Bool → String → Prop} {bs : StdSet String}
    (ht : Took E s.lockServer ls arg.txnid wanted bs) (t : KVTxn) {id : Nat} (hid : id ≠ arg.txnid) :
    KVTxnServer.Kept s { s with
      lockServer := ls, pendingTxns := s.pendingTxns.insert arg.txnid t } id where
  holds := ht.keeps
  sets := congrArg _ (StdMap.find?_insert_of_ne _ _ hid)

/-- What `InvokeTransaction` has done up to the locks. -/
structure Prepared (E : KVEnv) (s : KVTxnServer) (txn : String) (arg : TxnArg) (x : KVTxn × Bool)
    (s' : KVTxnServer) : Prop where
  ok : s'.LocksOk E
  store : s'.store = s.store
  txnarg : x.1.txnarg = arg
  sets : x.1.sets = (s.txn E txn arg).sets
  free : E.retryLock = true → x.1.blockedKeys.size = 0
  keeps : ∀ {w key id}, s.lockServer.Holds w key id → s'.lockServer.Holds w key id
  others : ∀ id, id ≠ arg.txnid → KVTxnServer.Kept s s' id
  pending : s'.pendingTxns.find? arg.txnid = some x.1 ∨
    arg.type ≠ .prepare ∧ s'.pendingTxns.find? arg.txnid = none
  blocked : x.2 = true → arg.type = .prepare ∨ arg.type = .indep
  locked : arg.type = .prepare ∨ (arg.type = .indep ∧ s.mode = .locking) → x.2 = false →
    ∀ w, ∀ key ∈ (s.txn E txn arg).keys w, s'.lockServer.Holds w key arg.txnid

theorem lockTransaction_spec (hs : s.LocksOk E) (txn : String) (arg : TxnArg) :
    Sat (lockTransaction E txn arg) s (fun x s' _ => Prepared E s txn arg x s') fun _ _ => False := by
  have hid : (s.txn E txn arg).txnarg.txnid = arg.txnid := congrArg _ txnarg_txn
  have hsame : Took E s.lockServer s.lockServer arg.txnid (fun w key => key ∈ (s.txn E txn arg).keys w)
      (s.txn E txn arg).blockedKeys := .refl hs.locks ..
  simp only [lockTransaction, sat_bind, sat_get, sat_ite, sat_when, sat_modify, sat_pure]
  refine ⟨fun ht => ?_, fun ht => ⟨fun _ => ?_, fun hp => ?_⟩⟩
  · refine (acquireLocks_spec (E := E) LockServer.acquires_lockForRead
      (fun w key => key ∈ (s.txn E txn arg).keys w) (s.txn E txn arg) false hs.locks fun _ h => h).mono
      (fun x₁ s₁ _ h₁ => ?_) fun _ _ h => h
    obtain ⟨ls₁, rfl, hb₁, htook₁, _, hall₁⟩ := h₁
    have hkeys₁ := KVTxn.keys_congr hb₁.sets
    refine (acquireLocks_spec (E := E) LockServer.acquires_lockForWrite
      (fun w key => key ∈ (s.txn E txn arg).keys w) x₁.1 x₁.2 htook₁.ok fun key h => ?_).mono
      (fun x₂ s₂ _ h₂ => ?_) fun _ _ h => h
    · rw [← hkeys₁]
      exact h
    obtain ⟨ls₂, rfl, hb₂, htook₂, hbl₂, hall₂⟩ := h₂
    rw [hb₁.txnarg] at htook₂ hall₂
    rw [hid] at htook₁ htook₂ hall₁ hall₂
    have htook := htook₁.trans htook₂ hb₂.keys
    have hb := hb₁.trans hb₂
    refine ⟨locksOk_insert hs hb htook, rfl, hb.txnarg.trans txnarg_txn, hb.sets, fun hE => ?_,
      htook.keeps, fun id hne => kept_insert htook _ hne, Or.inl (StdMap.find?_insert_self ..),
      fun _ => ht.imp_right And.left, fun _ hf w key hkey => ?_⟩
    · rw [hb.retry hE]
      exact size_blockedKeys_txn hs hE
    · cases w with
      | true =>
        rw [← hkeys₁] at hkey
        exact hall₂ hf key hkey
      | false =>
        refine htook₂.keeps (hall₁ ?_ key hkey)
        by_contra hb
        rw [hbl₂ (by simpa using hb)] at hf
        cases hf
  · exact ⟨locksOk_insert hs (.refl _) hsame, rfl, txnarg_txn, rfl, size_blockedKeys_txn hs,
      fun h => h, fun id hne => kept_insert hsame _ hne, Or.inl (StdMap.find?_insert_self ..), by simp,
      fun h => (ht h).elim⟩
  · exact ⟨hs, rfl, txnarg_txn, rfl, size_blockedKeys_txn hs, fun h => h, fun id _ => .refl .., Or.inr
      ⟨fun h => ht (Or.inl h), by simpa using hp⟩, by simp, fun h => (ht h).elim⟩

/-- `ExecuteTransaction`: all but a PREPARE free the transaction. -/
theorem executeTransaction_spec (hs : s.LocksOk E) {t : KVTxn}
    (hb : E.retryLock = true → t.blockedKeys.size = 0)
    (ht : s.pendingTxns.find? t.txnarg.txnid = some t ∨ s.pendingTxns.find? t.txnarg.txnid = none) :
    Sat (executeTransaction E t) s
      (fun x s' _ => (E.retryLock = true → x.2.size = 0) ∧ s'.LocksOk E ∧
        s'.store = (if t.txnarg.type = .indep ∨ t.txnarg.type = .commit then
          putAll s.store t.writeSet.toList else s.store) ∧
        (∀ id, id ≠ t.txnarg.txnid → KVTxnServer.Kept s s' id) ∧
        (t.txnarg.type = .prepare → s' = s) ∧ (t.txnarg.type ≠ .prepare → s'.Free t.txnarg.txnid))
      fun _ _ => E.retryLock = false := by
  have hrest : ∀ store : String → Option String, (t.txnarg.type = .prepare → store = s.store) →
      t.blockedKeys.size = 0 →
      Sat (if t.txnarg.type ≠ .prepare ∧ (s.pendingTxns.find? t.txnarg.txnid).isSome = true then do
          let unblocked ← cleanupTxn E t
          return (E.reply.serialize { rgets := readAll s t }, unblocked)
        else return (E.reply.serialize { rgets := readAll s t }, StdSet.empty)) { s with store := store }
        (fun x s' _ => (E.retryLock = true → x.2.size = 0) ∧ s'.LocksOk E ∧ s'.store = store ∧
          (∀ id, id ≠ t.txnarg.txnid → KVTxnServer.Kept s s' id) ∧
          (t.txnarg.type = .prepare → s' = s) ∧ (t.txnarg.type ≠ .prepare → s'.Free t.txnarg.txnid))
        fun _ _ => E.retryLock = false := by
    intro store hprep hb
    have hs₁ : KVTxnServer.LocksOk E { s with store := store } :=
      ⟨hs.locks, hs.retry, hs.pending, hs.covered, hs.waiting⟩
    simp only [sat_ite, sat_bind, sat_pure]
    refine ⟨fun hc => ?_, fun hc => ⟨fun _ => rfl, hs₁, trivial, fun id _ => ⟨fun h => h, rfl⟩, fun h => ?_,
      fun hne => hs₁.free (by simpa [hne] using hc)⟩⟩
    · have ht₁ : s.pendingTxns.find? t.txnarg.txnid = some t := ht.resolve_right fun h => by simp [h] at hc
      refine (cleanupTxn_spec hs₁ ht₁ hb).mono (fun x s₂ _ h => ?_) fun _ _ h => h
      obtain ⟨hx, hok, hst, hfree, hothers⟩ := h
      exact ⟨fun hE => by rw [hx hE]; rfl, hok, hst, fun id hne => ⟨(hothers id hne).holds,
        (hothers id hne).sets⟩, fun h => (hc.1 h).elim, fun _ => hfree⟩
    · rw [hprep h]
  simp only [executeTransaction, sat_bind, sat_assert, sat_get, sat_when, sat_modify]
  refine ⟨fun hb => ⟨fun hw => ?_, fun hw => ?_⟩, fun hno => by simpa using fun h => hno (hb h)⟩
  · rw [if_pos hw]
    refine (hrest _ (fun h => ?_) hb).mono (fun _ _ _ h => h) fun _ _ h => h
    rcases hw with hw | hw <;> rw [h] at hw <;> cases hw
  · rw [if_neg hw]
    exact (hrest s.store (fun _ => rfl) hb).mono (fun _ _ _ h => h) fun _ _ h => h

/-- What a call puts: the writes of its transaction, when it is a COMMIT or INDEP that is not blocked. -/
def KVTxnServer.writes (E : KVEnv) (s : KVTxnServer) (txn : String) (arg : TxnArg) (ret : TxnRet) :
    List (String ×ₗ String) :=
  if ret.blocked = false ∧ (arg.type = .indep ∨ arg.type = .commit) then
    (s.txn E txn arg).writeSet.toList
  else []

/-- What a call of `InvokeTransaction` does. -/
structure KVTxnServer.Invoked (E : KVEnv) (s : KVTxnServer) (txn : String) (arg : TxnArg) (ret : TxnRet)
    (s' : KVTxnServer) : Prop where
  ok : s'.Ok E
  commit : ret.commit = !ret.blocked
  unblocked : E.retryLock = true → ret.unblockedTxns.size = 0
  store : s'.store = putAll s.store (s.writes E txn arg ret)
  others : ∀ id, id ≠ arg.txnid → Kept s s' id
  own : arg.type = .prepare → ∀ {w key}, s.lockServer.Holds w key arg.txnid →
    s'.lockServer.Holds w key arg.txnid
  prepared : arg.type = .prepare → ret.blocked = false →
    s'.pendingSets arg.txnid = some (s.txn E txn arg).sets ∧
      ∀ w, ∀ key ∈ (s.txn E txn arg).keys w, s'.lockServer.Holds w key arg.txnid
  answered : arg.type = .commit ∨ arg.type = .abort → ret.blocked = false
  finished : arg.type ≠ .prepare → ret.blocked = false → s'.Free arg.txnid
  alone : arg.type = .indep → ret.blocked = false → ∀ key ∈ (s.txn E txn arg).keys true,
    ∀ w id, id ≠ arg.txnid → ¬ s.lockServer.Holds w key id

/-- A lock that is held for writing is held by nobody else. -/
theorem LockServer.Holds.unique {ls : LockServer} (h : ls.Ok) {key : String} {w : Bool} {t t' : Nat}
    (ht : ls.Holds true key t) (ht' : ls.Holds w key t') : t' = t := by
  have hs : (ls.lock key).state = .lockedForWrite ∨ (ls.lock key).state = .lockedForReadWrite := ht.2.symm
  have hl := Lock.holders_eq_of_mem (h.locks key) hs ht.1
  have hmem := ht'.1
  rw [hl] at hmem
  exact List.mem_singleton.mp hmem

/-- `InvokeTransaction` does about locks what it should; with `retryLock` it returns. -/
theorem invokeTransaction_spec (hs : s.Ok E) (txn : String) (arg : TxnArg) :
    Sat (invokeTransaction E txn arg) s
      (fun x s' _ => s.Invoked E txn arg x.2 s') fun _ _ => E.retryLock = false := by
  rw [invokeTransaction, sat_bind]
  refine (lockTransaction_spec hs.toLocksOk txn arg).mono (fun x s₁ _ h₁ => ?_) fun _ _ h => h.elim
  obtain ⟨t, blocked⟩ := x
  have hmode : ∀ {s₂ : KVTxnServer}, s₂.LocksOk E → KVTxnServer.Ok E { s₂ with
      mode := if s₂.pendingTxns.size = 0 then .normal else .locking } := fun h =>
    ⟨⟨h.locks, h.retry, h.pending, h.covered, h.waiting⟩, rfl⟩
  simp only [sat_bind, sat_ite, sat_pure, sat_get, sat_modify]
  refine ⟨fun hb => ?_, fun hb => ?_⟩
  · have htype := h₁.blocked hb
    refine ⟨hmode h₁.ok, rfl, fun _ => rfl, ?_, fun id hne => ⟨(h₁.others id hne).holds,
      (h₁.others id hne).sets⟩, fun _ => h₁.keeps, fun _ hf => ?_, fun hfin => ?_, fun _ hf => ?_,
      fun _ hf => ?_⟩
    · refine h₁.store.trans ?_
      simp [KVTxnServer.writes, hb, putAll]
    · simp [hb] at hf
    · rcases htype with h | h <;> rw [h] at hfin <;> rcases hfin with hfin | hfin <;> cases hfin
    · simp [hb] at hf
    · simp [hb] at hf
  · have hf : blocked = false := by simpa using hb
    have hpend : s₁.pendingTxns.find? t.txnarg.txnid = some t ∨
        s₁.pendingTxns.find? t.txnarg.txnid = none := by
      have htx : t.txnarg = arg := h₁.txnarg
      rw [htx]
      exact h₁.pending.imp_right And.right
    refine (executeTransaction_spec h₁.ok h₁.free hpend).mono (fun x₂ s₂ _ h₂ => ?_) fun _ _ h => h
    obtain ⟨hun, hok₂, hst₂, hothers₂, hsame₂, hfree₂⟩ := h₂
    have htx : t.txnarg = arg := h₁.txnarg
    have hws : t.writeSet = (s.txn E txn arg).writeSet := (Prod.mk.inj h₁.sets).2
    rw [htx] at hst₂ hothers₂ hsame₂ hfree₂
    refine ⟨hmode hok₂, rfl, hun, ?_, fun id hne => ?_, fun hp => ?_, fun hp _ => ?_, fun _ => hf,
      fun hne _ => hfree₂ hne, fun hi _ key hkey w id hne hheld => ?_⟩
    · rw [KVTxnServer.writes]
      simp only [hf, true_and]
      refine hst₂.trans ?_
      rw [h₁.store, hws]
      split_ifs <;> rfl
    · have h := (h₁.others id hne).trans (hothers₂ id hne)
      exact ⟨h.holds, h.sets⟩
    · have hs₂ : s₂ = s₁ := hsame₂ hp
      subst hs₂
      exact fun {w key} h => h₁.keeps h
    · have hs₂ : s₂ = s₁ := hsame₂ hp
      subst hs₂
      refine ⟨?_, h₁.locked (Or.inl hp) hf⟩
      rcases h₁.pending with h | ⟨hno, -⟩
      · show (s₂.pendingTxns.find? arg.txnid).map KVTxn.sets = _
        rw [h, Option.map_some, h₁.sets]
      · exact (hno hp).elim
    · -- in the mode for locking it has the lock itself; otherwise nobody has one
      obtain ⟨t', ht', -⟩ := hs.covered hheld
      have hlocking : s.mode = .locking := by
        rw [hs.mode, if_neg]
        intro hsize
        rw [StdMap.find?, List.length_eq_zero_iff.mp hsize] at ht'
        cases ht'
      have hown := h₁.locked (Or.inr ⟨hi, hlocking⟩) hf true key hkey
      exact hne (LockServer.Holds.unique h₁.ok.locks hown ((h₁.others id hne).holds hheld))

end Dsnet.Transaction
