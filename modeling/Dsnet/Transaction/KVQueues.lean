import Dsnet.Transaction.KVCalls
import Dsnet.Transaction.KVIsolation

/-! The queues of the locks of the key value store, when clients ask again for locks they have not got. A
    transaction is taken off the queue of a lock when it is the first there and asks for a lock that
    nobody holds, and in no other way: not by a lock that it gets from its readers, and not by its COMMIT or
    ABORT. As long as no call meets with that, those in a queue are pending and lack the lock. -/

namespace Dsnet.Transaction
open Handler

/-! ### One lock -/

namespace Lock
variable {l l' : Lock} {r t : Nat} {b write : Bool}

/-- A request of `r` is granted while others read, or while it is the only one that reads: its place in the
    queue is not looked at. -/
def Passes (l : Lock) (r : Nat) (write : Bool) : Prop :=
  l.state = .lockedForRead ∧
    if write then l.holders.toList = [r] else r ∉ l.holders.toList ∧ l.isWriteNext = some false

instance : Decidable (l.Passes r write) :=
  inferInstanceAs (Decidable (_ ∧ if write then _ else _))

/-- `t` wants the lock in a way that it does not have it, and does not write. -/
def Lacks (l : Lock) (t : Nat) (wanted : Bool → Prop) : Prop :=
  ¬ l.Holds true t ∧ ∃ w, wanted w ∧ ¬ l.Holds w t

theorem Lacks.mono {wanted wanted' : Bool → Prop} (h : l.Lacks t wanted)
    (hw : ∀ w, wanted w → wanted' w) : l.Lacks t wanted' := by
  obtain ⟨hno, w, hwant, hlack⟩ := h
  exact ⟨hno, w, hw w hwant, hlack⟩

/-- What `t` does not get it goes on lacking. -/
theorem Lacks.of_holds {wanted : Bool → Prop} (h : l.Lacks t wanted)
    (hh : ∀ w, l'.Holds w t → l.Holds w t) : l'.Lacks t wanted := by
  obtain ⟨hno, w, hwant, hlack⟩ := h
  exact ⟨fun ht => hno (hh true ht), w, hwant, fun ht => hlack (hh w ht)⟩

theorem Left.mem_iff (h : Left l l' r) (hne : t ≠ r) : t ∈ l'.waitQ ↔ t ∈ l.waitQ := by
  rcases h with h | ⟨rest, hq, hrest, -⟩
  · rw [h.1]
  · rw [hq, hrest, List.mem_cons]
    exact ⟨Or.inr, fun h => h.resolve_left hne⟩

theorem mem_waitForLock (hq : l.Queued) : t ∈ (l.waitForLock r write).waitQ ↔ t ∈ l.waitQ ∨ t = r := by
  rw [waitForLock]
  cases hw : l.waiters r with
  | some w =>
    have hr : r ∈ l.waitQ := (hq.waiters r).mpr (by simp [hw])
    exact ⟨Or.inl, fun h => h.elim id fun h => h ▸ hr⟩
  | none => simp

/-- A request changes nothing about the place of others in the queue. -/
theorem Acquired.mem_waitQ (h : Acquired l l' r b write) (hq : l.Queued) (hne : t ≠ r) :
    t ∈ l'.waitQ ↔ t ∈ l.waitQ := by
  cases b with
  | true => exact (h.left rfl).mem_iff hne
  | false =>
    rw [(h.waits rfl).1, mem_waitForLock hq]
    exact ⟨fun h => h.resolve_right hne, Or.inl⟩

/-- What a request of `r` is about. Refused, it can pass the queue in the same call by none that follows it:
    a write does not follow a read. Granted, it stays in the queue only when it has passed it, has the lock
    for writing, or has had the lock. -/
structure Asked (l l' : Lock) (r : Nat) (b write : Bool) : Prop where
  refused : b = false → ¬ l'.Holds write r ∧ ¬ l'.Holds true r ∧
    ∀ m, (write = true → m = true) → ¬ l'.Passes r m
  granted : b = true → r ∈ l'.waitQ → r ∈ l.waitQ ∧ (l.Passes r write ∨ l.Holds true r ∨ l' = l)

/-- The lock goes to the first in the queue, who leaves it. -/
theorem asked_acquire (hs : l.state = .unlocked) (hok : l.Ok) (h : l.acquire r write = some (b, l')) :
    Asked l l' r b write := by
  obtain ⟨b₁, l₁, hl₁, hsame, hq₁, -, -⟩ := tryAcquireLock_spec hok.queued r write
  have hs₁ : l₁.state = .unlocked := hsame.1.trans hs
  have hsize : l₁.holders.size = 0 := by
    have hnil : l.holders.toList = [] := by simpa [Held, hs] using hok.held
    rw [hsame.2]
    exact List.length_eq_zero_iff.mpr hnil
  rw [acquire, hl₁] at h
  cases b₁ with
  | false =>
    simp only [Option.bind_some, if_true, Option.some.injEq, Prod.mk.injEq] at h
    obtain ⟨rfl, rfl⟩ := h
    exact ⟨fun _ => ⟨not_holds_of_unlocked hs₁, not_holds_of_unlocked hs₁,
      fun m _ hp => by rw [hp.1] at hs₁; cases hs₁⟩, by simp⟩
  | true =>
    simp only [Option.bind_some, Bool.true_eq_false, if_false, if_pos hsize, Option.some.injEq,
      Prod.mk.injEq] at h
    obtain ⟨rfl, rfl⟩ := h
    refine ⟨by simp, fun _ hr => ?_⟩
    -- the queue was empty, or `r` has been taken off it
    have hr₁ : r ∈ l₁.waitQ := hr
    rw [tryAcquireLock] at hl₁
    cases hq : l.waitQ with
    | nil =>
      simp only [hq, Option.some.injEq, Prod.mk.injEq, true_and] at hl₁
      rw [← hl₁, hq] at hr₁
      cases hr₁
    | cons first rest =>
      simp only [hq] at hl₁
      split_ifs at hl₁ with hf
      · subst hf
        obtain ⟨l₂, hl₂, -, -, hrest, -⟩ := popWaiter_spec hok.queued hq
        simp only [hl₂, Option.map_some, Option.some.injEq, Prod.mk.injEq, true_and] at hl₁
        rw [← hl₁, hrest] at hr₁
        have hnd := hok.queued.nodup
        rw [hq, List.nodup_cons] at hnd
        exact (hnd.1 hr₁).elim
      · simp at hl₁

/-- A writer that comes next comes next when a reader queues up. -/
theorem isWriteNext_waitForLock (h : l.isWriteNext = some true) :
    (l.waitForLock r false).isWriteNext = some true := by
  rw [isWriteNext] at h ⊢
  cases hq : l.waitQ with
  | nil => simp [hq] at h
  | cons first rest =>
    simp only [hq, Option.map_eq_some_iff] at h
    obtain ⟨w, hw, hwrite⟩ := h
    rw [waitForLock]
    cases hr : l.waiters r with
    | some w' =>
      simp only [hq, Function.update_apply, Bool.false_eq_true, if_false]
      by_cases hf : first = r
      · subst hf
        rw [hw] at hr
        cases hr
        simp [hwrite]
      · simp [hf, hw, hwrite]
    | none =>
      have hf : first ≠ r := by
        rintro rfl
        rw [hw] at hr
        cases hr
      simp [hq, hf, hw, hwrite]

/-- Who does not hold the lock waits for it, in one of the states in which it is held for writing. -/
theorem asked_of_writer (hs : l.state = .lockedForWrite ∨ l.state = .lockedForReadWrite)
    (hr : r ∉ l.holders.toList) (write : Bool) : Asked l (l.waitForLock r write) r false write := by
  have hsame := sameHolders_waitForLock l r write
  have hno : ∀ w, ¬ (l.waitForLock r write).Holds w r := fun w h => hr (hsame.holds.mp h).1
  refine ⟨fun _ => ⟨hno write, hno true, fun m _ hp => ?_⟩, by simp⟩
  have hst := hsame.1.symm.trans hp.1
  rcases hs with hs | hs <;> rw [hs] at hst <;> cases hst

/-- If `r` is in the queue, it lacks the lock, and none of the requests that are still to follow passes the
    queue: those to read and to write, or to write only. -/
def Waits (l : Lock) (r : Nat) (wanted : Bool → Prop) (write : Bool) : Prop :=
  r ∈ l.waitQ → l.Lacks r wanted ∧ ∀ m, wanted m → (write = true → m = true) → ¬ l.Passes r m

theorem Waits.writes {wanted : Bool → Prop} (h : l.Waits r wanted false) : l.Waits r wanted true :=
  fun hr => ⟨(h hr).1, fun m hm _ => (h hr).2 m hm (by simp)⟩

theorem Asked.waits {wanted : Bool → Prop} (h : Asked l l' r b write) (hwant : wanted write)
    (hl : l.Waits r wanted write) : l'.Waits r wanted write := by
  intro hr
  cases b with
  | false =>
    obtain ⟨hno, hnot, hp⟩ := h.refused rfl
    exact ⟨⟨hnot, write, hwant, hno⟩, fun m _ hm => hp m hm⟩
  | true =>
    obtain ⟨hr₁, hcase⟩ := h.granted rfl hr
    obtain ⟨hlacks, hpass⟩ := hl hr₁
    rcases hcase with hp | hh | rfl
    · exact (hpass write hwant id hp).elim
    · exact (hlacks.1 hh).elim
    · exact ⟨hlacks, hpass⟩

end Lock

namespace LockRef
open Lock (Asked)
variable {x x' : LockRef} {r : Nat} {b : Bool}

theorem asked_lockForRead (hok : x.lock.Ok) (h : x.lockForRead r = some (b, x')) :
    Asked x.lock x'.lock r b false := by
  have hwriter : x.lock.state = .lockedForWrite ∨ x.lock.state = .lockedForReadWrite →
      ∀ {n : Nat}, (if r ∈ x.lock.holders.toList then
          some (true, { x with lock := { x.lock with state := .lockedForReadWrite }, readers := n })
        else if x.lock.holders.size = 1 then
          some (false, { x with lock := x.lock.waitForLock r false })
        else none) = some (b, x') → Asked x.lock x'.lock r b false := by
    intro hs n h
    by_cases hr : r ∈ x.lock.holders.toList
    · rw [if_pos hr] at h
      cases h
      exact ⟨by simp, fun _ hq => ⟨hq, Or.inr (Or.inl ⟨hr, hs.symm⟩)⟩⟩
    · rw [if_neg hr, if_pos (Lock.size_eq_one hok hs)] at h
      cases h
      exact Lock.asked_of_writer hs hr false
  rw [lockForRead] at h
  cases hs : x.lock.state with
  | unlocked =>
    simp only [hs, Option.map_eq_some_iff, Prod.mk.injEq] at h
    obtain ⟨⟨b₁, l⟩, hl, rfl, rfl⟩ := h
    exact Lock.asked_acquire hs hok hl
  | lockedForRead =>
    simp only [hs] at h
    by_cases hr : r ∈ x.lock.holders.toList
    · rw [if_pos hr] at h
      cases h
      exact ⟨by simp, fun _ hq => ⟨hq, Or.inr (Or.inr rfl)⟩⟩
    · simp only [if_neg hr, Option.map_eq_some_iff] at h
      obtain ⟨next, hnext, h⟩ := h
      cases next with
      | false =>
        cases h
        exact ⟨by simp, fun _ hq => ⟨hq, Or.inl ⟨hs, hr, hnext⟩⟩⟩
      | true =>
        cases h
        have hsame := Lock.sameHolders_waitForLock x.lock r false
        have hno : ∀ w, ¬ (x.lock.waitForLock r false).Holds w r := fun w h => hr (hsame.holds.mp h).1
        refine ⟨fun _ => ⟨hno false, hno true, fun m _ hp => ?_⟩, by simp⟩
        obtain ⟨-, hp⟩ := hp
        cases m with
        | true =>
          rw [if_pos rfl, hsame.2] at hp
          exact hr (by simp [hp])
        | false =>
          have hw := Lock.isWriteNext_waitForLock (r := r) hnext
          rw [if_neg (by simp), hw] at hp
          simp at hp
  | lockedForWrite =>
    simp only [hs] at h
    exact hwriter (Or.inl hs) h
  | lockedForReadWrite =>
    simp only [hs] at h
    exact hwriter (Or.inr hs) h

theorem asked_lockForWrite (hok : x.lock.Ok) (h : x.lockForWrite r = some (b, x')) :
    Asked x.lock x'.lock r b true := by
  have hwriter : x.lock.state = .lockedForWrite ∨ x.lock.state = .lockedForReadWrite →
      (if x.lock.holders.size = 1 then
        if r ∈ x.lock.holders.toList then some (true, x)
        else some (false, { x with lock := x.lock.waitForLock r true })
      else none) = some (b, x') → Asked x.lock x'.lock r b true := by
    intro hs h
    rw [if_pos (Lock.size_eq_one hok hs)] at h
    by_cases hr : r ∈ x.lock.holders.toList
    · rw [if_pos hr] at h
      cases h
      exact ⟨by simp, fun _ hq => ⟨hq, Or.inr (Or.inr rfl)⟩⟩
    · rw [if_neg hr] at h
      cases h
      exact Lock.asked_of_writer hs hr true
  rw [lockForWrite] at h
  cases hs : x.lock.state with
  | unlocked =>
    simp only [hs, Option.map_eq_some_iff, Prod.mk.injEq] at h
    obtain ⟨⟨b₁, l⟩, hl, rfl, rfl⟩ := h
    exact Lock.asked_acquire hs hok hl
  | lockedForRead =>
    simp only [hs] at h
    by_cases hr : x.lock.holders.size = 1 ∧ r ∈ x.lock.holders.toList
    · rw [if_pos hr] at h
      cases h
      obtain ⟨t, ht⟩ := List.length_eq_one_iff.mp hr.1
      have hmem := hr.2
      rw [ht, List.mem_singleton] at hmem
      exact ⟨by simp, fun _ hq => ⟨hq, Or.inl ⟨hs, by rw [if_pos rfl, ht, hmem]⟩⟩⟩
    · rw [if_neg hr] at h
      cases h
      have hsame := Lock.sameHolders_waitForLock x.lock r true
      -- readers do not write
      have hno : ¬ (x.lock.waitForLock r true).Holds true r := by
        intro h
        have h := (hsame.holds.mp h).2
        simp [hs, Lock.stateFor] at h
      refine ⟨fun _ => ⟨hno, hno, fun m hm hp => hr ?_⟩, by simp⟩
      have hone := hp.2
      rw [hm rfl, if_pos rfl, hsame.2] at hone
      exact ⟨List.length_eq_one_iff.mpr ⟨r, hone⟩, by simp [hone]⟩
  | lockedForWrite =>
    simp only [hs] at h
    exact hwriter (Or.inl hs) h
  | lockedForReadWrite =>
    simp only [hs] at h
    exact hwriter (Or.inr hs) h

end LockRef

/-! ### The lock server -/

namespace LockServer
variable {s s' s'' : LockServer} {key : String} {r : Nat} {b write : Bool}

/-- Nobody but `r` has come into a queue, or has got a lock. -/
structure NoGain (s s' : LockServer) (r : Nat) : Prop where
  waits : ∀ {k t}, t ≠ r → t ∈ (s'.lock k).waitQ → t ∈ (s.lock k).waitQ
  holds : ∀ {w k t}, t ≠ r → s'.Holds w k t → s.Holds w k t

theorem NoGain.refl (s : LockServer) (r : Nat) : NoGain s s r := ⟨fun _ h => h, fun _ h => h⟩

theorem NoGain.trans (h : NoGain s s' r) (h' : NoGain s' s'' r) : NoGain s s'' r :=
  ⟨fun hne ht => h.waits hne (h'.waits hne ht), fun hne ht => h.holds hne (h'.holds hne ht)⟩

/-- What a request leaves, with the queues. -/
structure Asked (s s' : LockServer) (key : String) (r : Nat) (b write : Bool) : Prop where
  ok : s'.Ok
  asked : (s.lock key).Asked (s'.lock key) r b write
  others : NoGain s s' r
  same : ∀ k, k ≠ key → s'.lock k = s.lock k

/-- A call that asks for a lock in one of the two ways. -/
def Asks (lock : LockServer → String → Nat → Option (Bool × LockServer)) (write : Bool) : Prop :=
  ∀ (s : LockServer) (key : String) (r : Nat), s.Ok →
    ∃ b s', lock s key r = some (b, s') ∧ Asked s s' key r b write

theorem asks_of_answers {acquire : LockRef → Nat → Option (Bool × LockRef)} {write : Bool}
    (h : ∀ {x : LockRef}, x.lock.Ok → ∀ r, x.Answers r write (acquire x r))
    (hasked : ∀ {x x' : LockRef} {r : Nat} {b : Bool}, x.lock.Ok → acquire x r = some (b, x') →
      x.lock.Asked x'.lock r b write) :
    Asks (fun s key r => (acquire (s.ref key) r).map fun (ok, x) => (ok, s.setRef key x)) write := by
  intro s key r hs
  obtain ⟨b, x, hx, hacq, hcount⟩ := h (x := s.ref key) (hs.locks key) r
  have hne : ∀ k, k ≠ key → (s.setRef key x).lock k = s.lock k := fun k hk => lock_setRef_of_ne hk
  refine ⟨b, s.setRef key x, by simp [hx], ok_setRef hs hacq.ok hcount, ?_, ⟨fun {k t} ht hmem => ?_,
    fun {w k t} ht hh => ?_⟩, hne⟩
  · rw [lock_setRef_self]
    exact hasked (hs.locks key) hx
  · by_cases hk : k = key
    · subst hk
      rw [lock_setRef_self] at hmem
      exact (hacq.mem_waitQ (hs.locks k).queued ht).mp hmem
    · rwa [hne k hk] at hmem
  · by_cases hk : k = key
    · subst hk
      rw [Holds, lock_setRef_self] at hh
      exact ((hacq.holds ..).mp hh).resolve_right fun h => ht h.2.2
    · rwa [Holds, hne k hk] at hh

theorem asks_lockForRead : Asks lockForRead false :=
  asks_of_answers LockRef.lockForRead_spec LockRef.asked_lockForRead

theorem asks_lockForWrite : Asks lockForWrite true :=
  asks_of_answers LockRef.lockForWrite_spec LockRef.asked_lockForWrite

/-- A lock that is released, and left to whoever asks for it next: the queues are as they were. -/
def KeepsQueues (release : LockServer → String → Nat → Option (LockServer × StdSet Nat)) : Prop :=
  ∀ {s s' : LockServer} {key : String} {r : Nat} {newholders : StdSet Nat}, s.Ok → s.retryLock = true →
    release s key r = some (s', newholders) → ∀ k, (s'.lock k).waitQ = (s.lock k).waitQ

theorem keepsQueues_of_frees {release : LockRef → Nat → Option (LockRef × Bool)} {write : Bool}
    (h : ∀ {x : LockRef}, x.lock.Ok → ∀ r, x.Frees r write (release x r)) :
    KeepsQueues fun s key r => if (s.locks.find? key).isSome then (release (s.ref key) r).bind (s.promote key)
      else some (s, StdSet.empty) := by
  intro s s' key r newholders hs hretry hrel k
  by_cases hl : (s.locks.find? key).isSome = true
  · obtain ⟨x, next, hx, hfree, -⟩ := h (x := s.ref key) (hs.locks key) r
    simp only [if_pos hl, hx, Option.bind_some, promote, hretry, Bool.true_eq_false, and_false,
      if_false, Option.some.injEq, Prod.mk.injEq] at hrel
    obtain ⟨rfl, -⟩ := hrel
    by_cases hk : k = key
    · subst hk
      rw [lock_setRef_self]
      exact hfree.queue.1
    · rw [lock_setRef_of_ne hk]
  · simp only [if_neg hl, Option.some.injEq, Prod.mk.injEq] at hrel
    rw [hrel.1]

theorem keepsQueues_releaseForRead : KeepsQueues releaseForRead :=
  keepsQueues_of_frees LockRef.releaseForRead_spec

theorem keepsQueues_releaseForWrite : KeepsQueues releaseForWrite :=
  keepsQueues_of_frees LockRef.releaseForWrite_spec

end LockServer

/-! ### Transactions and the queues -/

variable {E : KVEnv} {s : KVTxnServer} {txn : String} {arg : TxnArg}

/-- The transactions in a queue are pending, and lack a lock that they want. -/
def KVTxnServer.QueuesOk (s : KVTxnServer) : Prop :=
  ∀ key t, t ∈ (s.lockServer.lock key).waitQ →
    ∃ kt, s.pendingTxns.find? t = some kt ∧ (s.lockServer.lock key).Lacks t fun w => key ∈ kt.keys w

/-- A call does not pass the queue of a lock in which its transaction is, and does not finish a
    transaction that has not got all its locks. -/
structure KVTxnServer.Orderly (E : KVEnv) (s : KVTxnServer) (txn : String) (arg : TxnArg) : Prop where
  asked : arg.type = .prepare ∨ arg.type = .indep → ∀ w, ∀ key ∈ (s.txn E txn arg).keys w,
    arg.txnid ∈ (s.lockServer.lock key).waitQ → ¬ (s.lockServer.lock key).Passes arg.txnid w
  finished : arg.type = .commit ∨ arg.type = .abort → ∀ w, ∀ key ∈ (s.txn E txn arg).keys w,
    (s.lockServer.lock key).Holds w arg.txnid

instance {l : Lock} {write : Bool} {t : Nat} : Decidable (l.Holds write t) :=
  inferInstanceAs (Decidable (_ ∧ _))

instance : Decidable (s.Orderly E txn arg) :=
  decidable_of_iff ((arg.type = .prepare ∨ arg.type = .indep → ∀ w, ∀ key ∈ (s.txn E txn arg).keys w,
      arg.txnid ∈ (s.lockServer.lock key).waitQ → ¬ (s.lockServer.lock key).Passes arg.txnid w) ∧
    (arg.type = .commit ∨ arg.type = .abort → ∀ w, ∀ key ∈ (s.txn E txn arg).keys w,
      (s.lockServer.lock key).Holds w arg.txnid))
    ⟨fun h => ⟨h.1, h.2⟩, fun h => ⟨h.1, h.2⟩⟩

/-- A transaction asks for locks in one of the two ways. -/
theorem acquireLocks_queues {lock : LockServer → String → Nat → Option (Bool × LockServer)} {write : Bool}
    (ha : LockServer.Asks lock write) {wanted : String → Bool → Prop} {id : Nat} :
    ∀ {keys : List String} (t : KVTxn) (blocked : Bool) {s : KVTxnServer}, s.lockServer.Ok →
    t.txnarg.txnid = id → (∀ key ∈ keys, wanted key write) →
    (∀ key, (s.lockServer.lock key).Waits id (wanted key) write) →
    Sat (acquireLocks E lock keys t blocked) s
      (fun _ s' _ => (∀ key, (s'.lockServer.lock key).Waits id (wanted key) write) ∧
        LockServer.NoGain s.lockServer s'.lockServer id)
      fun _ _ => True
  | [], _, _, s, _, _, _, hw => ⟨hw, .refl ..⟩
  | key :: keys, t, blocked, s, hs, ht, hwant, hw => by
      obtain ⟨b, ls, hl, hask⟩ := ha s.lockServer key id hs
      obtain ⟨hkey, hkeys⟩ := List.forall_mem_cons.mp hwant
      have hwaits : ∀ k, (ls.lock k).Waits id (wanted k) write := by
        intro k
        by_cases hk : k = key
        · subst hk
          exact hask.asked.waits hkey (hw k)
        · rw [hask.same k hk]
          exact hw k
      have hrest : ∀ (t' : KVTxn) (blocked' : Bool), t'.txnarg.txnid = id →
          Sat (acquireLocks E lock keys t' blocked') { s with lockServer := ls }
            (fun _ s' _ => (∀ k, (s'.lockServer.lock k).Waits id (wanted k) write) ∧
              LockServer.NoGain s.lockServer s'.lockServer id) fun _ _ => True := fun t' blocked' ht' =>
        (acquireLocks_queues ha t' blocked' (s := { s with lockServer := ls }) hask.ok ht' hkeys
          hwaits).mono (fun _ _ _ h => ⟨h.1, hask.others.trans h.2⟩) fun _ _ h => h
      simp only [acquireLocks, sat_bind, sat_get, sat_ofOption, sat_modify, sat_ite, ht, hl]
      refine ⟨fun x hx => ?_, by simp⟩
      cases hx
      refine ⟨fun _ => hrest t blocked ht, fun _ => hrest _ true ?_⟩
      split_ifs <;> exact ht

/-- `InvokeTransaction` up to the locks. -/
theorem lockTransaction_queues (hs : s.Ok E) (hq : s.QueuesOk) (ho : s.Orderly E txn arg) :
    Sat (lockTransaction E txn arg) s
      (fun _ s' _ => s'.QueuesOk ∧ (arg.type = .indep → s.mode = .normal →
        s'.pendingTxns.find? arg.txnid = none))
      fun _ _ => True := by
  have hid : (s.txn E txn arg).txnarg.txnid = arg.txnid := congrArg _ txnarg_txn
  -- it lacks locks of the keys it had, which are among those it has now
  have hlacks : ∀ {key}, arg.txnid ∈ (s.lockServer.lock key).waitQ →
      (s.lockServer.lock key).Lacks arg.txnid fun w => key ∈ (s.txn E txn arg).keys w := by
    intro key hmem
    obtain ⟨kt, hkt, hlack⟩ := hq _ _ hmem
    exact hlack.mono fun w hw => mem_keys_of_pending hkt hw
  have hinsert : ∀ {t : KVTxn} {ls : LockServer}, t.keys = (s.txn E txn arg).keys →
      LockServer.NoGain s.lockServer ls arg.txnid →
      (∀ key, arg.txnid ∈ (ls.lock key).waitQ →
        (ls.lock key).Lacks arg.txnid fun w => key ∈ (s.txn E txn arg).keys w) →
      KVTxnServer.QueuesOk { s with
        lockServer := ls, pendingTxns := s.pendingTxns.insert arg.txnid t } := by
    intro t ls hkeys hgain hown key id hmem
    simp only [StdMap.find?_insert]
    split_ifs with hne
    · subst hne
      exact ⟨t, rfl, by rw [hkeys]; exact hown key hmem⟩
    · obtain ⟨kt, hkt, hlack⟩ := hq _ _ (hgain.waits hne hmem)
      exact ⟨kt, hkt, hlack.of_holds fun w h => hgain.holds hne h⟩
  simp only [lockTransaction, sat_bind, sat_get, sat_ite, sat_when, sat_modify, sat_pure]
  refine ⟨fun ht => ?_, fun ht => ⟨fun hp => ?_, fun hp => ⟨hq, fun _ _ => by simpa using hp⟩⟩⟩
  · have htype : arg.type = .prepare ∨ arg.type = .indep := ht.imp_right And.left
    have hwaits : ∀ key, (s.lockServer.lock key).Waits arg.txnid
        (fun w => key ∈ (s.txn E txn arg).keys w) false := fun key hmem =>
      ⟨hlacks hmem, fun m hm _ => ho.asked htype m key hm hmem⟩
    refine ((acquireLocks_queues LockServer.asks_lockForRead (s.txn E txn arg) false hs.locks hid
      (fun key h => h) hwaits).and (acquireLocks_spec (E := E) LockServer.acquires_lockForRead
      (fun w key => key ∈ (s.txn E txn arg).keys w) (s.txn E txn arg) false hs.locks fun _ h => h)).mono
      (fun x₁ s₁ _ h₁ => ?_) fun _ _ _ => trivial
    obtain ⟨⟨hwaits₁, hgain₁⟩, ls₁, rfl, hb₁, htook₁, -⟩ := h₁
    have hid₁ : x₁.1.txnarg.txnid = arg.txnid := by rw [hb₁.txnarg, hid]
    have hkeys₁ := KVTxn.keys_congr hb₁.sets
    have hwrites : ∀ key ∈ x₁.1.keys true, key ∈ (s.txn E txn arg).keys true := by
      rw [hkeys₁]
      exact fun _ h => h
    refine ((acquireLocks_queues LockServer.asks_lockForWrite x₁.1 x₁.2 htook₁.ok hid₁ hwrites
      fun key => (hwaits₁ key).writes).and (acquireLocks_spec (E := E) LockServer.acquires_lockForWrite
      (fun w key => key ∈ (s.txn E txn arg).keys w) x₁.1 x₁.2 htook₁.ok hwrites)).mono
      (fun x₂ s₂ _ h₂ => ?_) fun _ _ _ => trivial
    obtain ⟨⟨hwaits₂, hgain₂⟩, ls₂, rfl, hb₂, -⟩ := h₂
    refine ⟨hinsert ((KVTxn.keys_congr hb₂.sets).trans hkeys₁) (hgain₁.trans hgain₂)
      (fun key hmem => (hwaits₂ key hmem).1), fun hi hm => ?_⟩
    rcases ht with ht | ht
    · rw [hi] at ht
      cases ht
    · rw [hm] at ht
      cases ht.2
  · refine ⟨hinsert rfl (.refl ..) fun key => hlacks, fun hi hm => ?_⟩
    have hsize := hs.mode
    rw [hm] at hsize
    obtain ⟨t, ht⟩ := Option.isSome_iff_exists.mp hp
    split_ifs at hsize with hz
    rw [StdMap.find?, List.length_eq_zero_iff.mp hz] at ht
    cases ht

/-- Locks are released in one of the two ways, and nobody gets one. -/
theorem releaseKeys_queues {release : LockServer → String → Nat → Option (LockServer × StdSet Nat)}
    {write : Bool} (hr : LockServer.Releases release write) (hk : LockServer.KeepsQueues release) {r : Nat}
    (hE : E.retryLock = true) :
    ∀ {keys : List String} (unblocked : StdSet Nat) {s : KVTxnServer}, s.lockServer.Ok →
    s.lockServer.retryLock = true →
    Sat (releaseKeys E release r keys unblocked) s
      (fun _ s' _ => s'.lockServer.Ok ∧ s'.lockServer.retryLock = true ∧ s'.pendingTxns = s.pendingTxns ∧
        (∀ key, (s'.lockServer.lock key).waitQ = (s.lockServer.lock key).waitQ) ∧
        ∀ {w key id}, s'.lockServer.Holds w key id → s.lockServer.Holds w key id)
      fun _ _ => True
  | [], _, s, hs, hretry => ⟨hs, hretry, rfl, fun _ => rfl, fun h => h⟩
  | key :: keys, unblocked, s, hs, hretry => by
      obtain ⟨ls, newholders, hl, hh⟩ := hr s.lockServer key r hs
      obtain rfl := hh.none hretry
      simp only [releaseKeys, sat_bind, sat_get, sat_ofOption, sat_modify, sat_assert, hl]
      refine ⟨fun x hx => ?_, by simp⟩
      cases hx
      refine ⟨fun _ => ?_, fun _ => trivial⟩
      simp only [StdSet.toList_empty, unblock, sat_pure]
      refine (releaseKeys_queues hr hk hE unblocked (s := { s with lockServer := ls }) hh.ok
        (hh.retry.trans hretry)).mono (fun _ s' _ h => ?_) fun _ _ h => h
      obtain ⟨hok, hretry', hpend, hqueue, hholds⟩ := h
      refine ⟨hok, hretry', hpend, fun k => (hqueue k).trans (hk hs hretry hl k), fun {w k id} h => ?_⟩
      rcases hh.only (hholds h) with ⟨h, -⟩ | ⟨hno, -⟩
      · exact h
      · rw [hretry] at hno
        cases hno

/-- A transaction that is finished lacks no lock, so it is in no queue. -/
theorem cleanupTxn_queues (hs : s.LocksOk E) (hE : E.retryLock = true) (hq : s.QueuesOk) {t : KVTxn}
    (ht : s.pendingTxns.find? t.txnarg.txnid = some t)
    (hall : ∀ w, ∀ key ∈ t.keys w, s.lockServer.Holds w key t.txnarg.txnid) :
    Sat (cleanupTxn E t) s (fun _ s' _ => s'.QueuesOk) fun _ _ => True := by
  simp only [cleanupTxn, releaseLocks, sat_bind, sat_assert, sat_modify, sat_pure]
  refine (releaseKeys_queues LockServer.releases_releaseForRead LockServer.keepsQueues_releaseForRead hE
    StdSet.empty hs.locks (hs.retry.trans hE)).mono (fun x₁ s₁ _ h₁ => ?_) fun _ _ h => h
  obtain ⟨hok₁, hretry₁, hpend₁, hqueue₁, hholds₁⟩ := h₁
  refine (releaseKeys_queues LockServer.releases_releaseForWrite LockServer.keepsQueues_releaseForWrite hE
    x₁ hok₁ hretry₁).mono (fun x₂ s₂ _ h₂ => ?_) fun _ _ h => h
  obtain ⟨-, -, hpend₂, hqueue₂, hholds₂⟩ := h₂
  refine ⟨fun _ key id hmem => ?_, fun _ => trivial⟩
  have hmem₀ : id ∈ (s.lockServer.lock key).waitQ := by
    rw [← hqueue₁, ← hqueue₂]
    exact hmem
  obtain ⟨kt, hkt, hlack⟩ := hq _ _ hmem₀
  have hne : id ≠ t.txnarg.txnid := by
    rintro rfl
    rw [ht] at hkt
    cases hkt
    obtain ⟨-, w, hkey, hno⟩ := hlack
    exact hno (hall w key hkey)
  refine ⟨kt, ?_, hlack.of_holds fun w h => hholds₁ (hholds₂ h)⟩
  simp only [StdMap.find?_erase, if_neg hne, hpend₂, hpend₁]
  exact hkt

theorem executeTransaction_queues (hs : s.LocksOk E) (hE : E.retryLock = true) (hq : s.QueuesOk) {t : KVTxn}
    (ht : s.pendingTxns.find? t.txnarg.txnid = some t ∨ s.pendingTxns.find? t.txnarg.txnid = none)
    (hall : t.txnarg.type ≠ .prepare → s.pendingTxns.find? t.txnarg.txnid = some t →
      ∀ w, ∀ key ∈ t.keys w, s.lockServer.Holds w key t.txnarg.txnid) :
    Sat (executeTransaction E t) s (fun _ s' _ => s'.QueuesOk) fun _ _ => True := by
  have hrest : ∀ store : String → Option String,
      Sat (if t.txnarg.type ≠ .prepare ∧ (s.pendingTxns.find? t.txnarg.txnid).isSome = true then do
          let unblocked ← cleanupTxn E t
          return (E.reply.serialize { rgets := readAll s t }, unblocked)
        else return (E.reply.serialize { rgets := readAll s t }, StdSet.empty)) { s with store := store }
        (fun _ s' _ => s'.QueuesOk) fun _ _ => True := by
    intro store
    simp only [sat_ite, sat_bind, sat_pure]
    refine ⟨fun hc => ?_, fun _ => hq⟩
    have ht₁ : s.pendingTxns.find? t.txnarg.txnid = some t := ht.resolve_right fun h => by simp [h] at hc
    have hs₁ : KVTxnServer.LocksOk E { s with store := store } :=
      ⟨hs.locks, hs.retry, hs.pending, hs.covered, hs.waiting⟩
    exact (cleanupTxn_queues hs₁ hE hq ht₁ (hall hc.1 ht₁)).mono (fun _ _ _ h => h) fun _ _ h => h
  simp only [executeTransaction, sat_bind, sat_assert, sat_get, sat_when, sat_modify]
  refine ⟨fun _ => ⟨fun hw => ?_, fun hw => ?_⟩, fun _ => trivial⟩
  · exact (hrest _).mono (fun _ _ _ h => h) fun _ _ h => h
  · exact (hrest s.store).mono (fun _ _ _ h => h) fun _ _ h => h

/-- One call. -/
theorem invokeTransaction_queues (hs : s.Ok E) (hE : E.retryLock = true) (hq : s.QueuesOk)
    (ho : s.Orderly E txn arg) :
    Sat (invokeTransaction E txn arg) s (fun _ s' _ => s'.QueuesOk) fun _ _ => True := by
  rw [invokeTransaction, sat_bind]
  refine ((lockTransaction_queues hs hq ho).and (lockTransaction_spec hs.toLocksOk txn arg)).mono
    (fun x s₁ _ h₁ => ?_) fun _ _ _ => trivial
  obtain ⟨t, blocked⟩ := x
  obtain ⟨⟨hq₁, hindep⟩, h₁⟩ := h₁
  simp only [sat_bind, sat_ite, sat_pure, sat_get, sat_modify]
  refine ⟨fun _ => hq₁, fun hb => ?_⟩
  have htx : t.txnarg = arg := h₁.txnarg
  refine (executeTransaction_queues h₁.ok hE hq₁ (htx ▸ h₁.pending.imp_right And.right)
    fun hne hp w key hkey => ?_).mono (fun _ _ _ h => h) fun _ _ h => h
  rw [KVTxn.keys_congr h₁.sets] at hkey
  rw [htx] at hne hp ⊢
  cases htype : arg.type with
  | prepare => exact (hne htype).elim
  | commit => exact h₁.keeps (ho.finished (Or.inl htype) w key hkey)
  | abort => exact h₁.keeps (ho.finished (Or.inr htype) w key hkey)
  | indep =>
    cases hm : s.mode with
    | normal =>
      rw [hindep htype hm] at hp
      cases hp
    | locking => exact h₁.locked (Or.inr ⟨htype, hm⟩) (by simpa using hb) w key hkey

/-! ### Runs -/

variable {store : String → Option String}

/-- Every one of the calls is orderly in the store that those before it have left. -/
def OrderlyCalls (E : KVEnv) (store : String → Option String) (calls : List Call) : Prop :=
  ∀ i (h : i < calls.length),
    ((kvTxnServer E store).after (calls.take i)).Orderly E calls[i].txn calls[i].arg

instance {calls : List Call} : Decidable (OrderlyCalls E store calls) :=
  inferInstanceAs (Decidable (∀ i (h : i < calls.length),
    ((kvTxnServer E store).after (calls.take i)).Orderly E calls[i].txn calls[i].arg))

theorem OrderlyCalls.of_append {calls : List Call} {c : Call} (h : OrderlyCalls E store (calls ++ [c])) :
    OrderlyCalls E store calls ∧ ((kvTxnServer E store).after calls).Orderly E c.txn c.arg := by
  refine ⟨fun i hi => ?_, ?_⟩
  · have := h i (by simp; omega)
    rwa [List.take_append_of_le_length hi.le, List.getElem_append_left hi] at this
  · simpa using h calls.length (by simp)

theorem queuesOk_of_made (hE : E.retryLock = true) {calls : List Call}
    (h : (kvTxnServer E store).Made calls) (ho : OrderlyCalls E store calls) :
    ((kvTxnServer E store).after calls).QueuesOk := by
  induction h with
  | nil =>
    intro key t hmem
    cases hmem
  | @snoc calls c result h hret ih =>
    obtain ⟨hos, hoc⟩ := ho.of_append
    rw [TxnServer.after_append]
    rcases (invokeTransaction_queues (locksSaid_of_made h).ok hE (ih hos) hoc).cases with
      ⟨x, s', o, hx, hq⟩ | ⟨s', o, hx, -⟩
    · have hx' : (kvTxnServer E store).invokeTransaction c.txn c.arg
          ((kvTxnServer E store).after calls) = (some x, s', o) := hx
      rw [hx']
      exact hq
    · have hx' : (kvTxnServer E store).invokeTransaction c.txn c.arg
          ((kvTxnServer E store).after calls) = (none, s', o) := hx
      rw [hx'] at hret
      cases hret

/-- A transaction whose last call was its COMMIT or ABORT has left the lock table: it holds no lock, and
    waits for none. -/
def FinishedLeft (E : KVEnv) (store : String → Option String) (calls : List Call) : Prop :=
  ∀ t c, lastCall calls t = some c → c.arg.type = .commit ∨ c.arg.type = .abort → ∀ key,
    t ∉ (((kvTxnServer E store).after calls).lockServer.lock key).holders.toList ∧
      t ∉ (((kvTxnServer E store).after calls).lockServer.lock key).waitQ

/-- Who holds a lock holds it in one of the ways. -/
theorem Lock.holds_of_mem {l : Lock} (hok : l.Ok) {t : Nat} (ht : t ∈ l.holders.toList) :
    ∃ w, l.Holds w t := by
  cases hs : l.state with
  | unlocked =>
    have hnil : l.holders.toList = [] := by simpa [Held, hs] using hok.held
    rw [hnil] at ht
    cases ht
  | lockedForRead => exact ⟨false, ht, Or.inr hs⟩
  | lockedForWrite => exact ⟨true, ht, Or.inr hs⟩
  | lockedForReadWrite => exact ⟨true, ht, Or.inl hs⟩

/-- After orderly calls, what is finished has left the lock table. -/
theorem finishedLeft_of_orderly (hE : E.retryLock = true) {calls : List Call}
    (h : (kvTxnServer E store).Made calls) (ho : OrderlyCalls E store calls) :
    FinishedLeft E store calls := by
  intro t c hl hf key
  have hsaid := locksSaid_of_made h
  obtain ⟨hnone, hno⟩ := hsaid.finished hl hf
  refine ⟨fun hmem => ?_, fun hmem => ?_⟩
  · obtain ⟨w, hw⟩ := Lock.holds_of_mem (hsaid.ok.locks.locks key) hmem
    exact hno w key hw
  · obtain ⟨kt, hkt, -⟩ := queuesOk_of_made hE h ho _ _ hmem
    rw [hnone] at hkt
    cases hkt

/-- Transaction 2 is refused a key, gets it when it asks again, and commits. -/
def refusedRetried : List Call :=
  [kvCall 1 .prepare [("k", "v")] false .locking, kvCall 2 .prepare [("k", "w")] true .locking,
    kvCall 1 .commit [] false .locking, kvCall 2 .prepare [("k", "w")] false .locking,
    kvCall 2 .commit [] false .normal]

theorem finishedLeft_refusedRetried : FinishedLeft (.plain true) (fun _ => none) refusedRetried :=
  finishedLeft_of_orderly rfl (TxnServer.made_of_returns (A := emptyStore) .nil (by decide +kernel))
    (by decide +kernel)

/-- Transaction 2 is refused a key, and aborts. -/
def refusedAborted : List Call :=
  [kvCall 1 .prepare [("k", "v")] false .locking, kvCall 2 .prepare [("k", "w")] true .locking,
    kvCall 2 .abort [] false .locking]

/-- A PREPARE that gets a key. -/
def kvRead (txnid : Nat) (blocked : Bool) : Call where
  opnum := 0
  txn := (KVEnv.plain true).message.serialize { gets := ["k"], puts := [] }
  arg := { txnid := txnid, type := .prepare }
  ret := { txnid := txnid, blocked := blocked, commit := !blocked, unblockedTxns := StdSet.empty,
           mode := .locking }

/-- Transactions 2 and 3 are refused a key that they read. When they ask again, 2 gets it as the first in
    the queue, and 3 because 2 reads. -/
def readersRetried : List Call :=
  [kvCall 1 .prepare [("k", "v")] false .locking, kvRead 2 true, kvRead 3 true,
    kvCall 1 .commit [] false .locking, kvRead 2 false, kvRead 3 false, kvCall 3 .commit [] false .locking]

/-- A transaction that was refused a key and aborts stays in the queue, and so does one that got it past the
    queue and commits; both were pending, and have been cleaned up. -/
theorem not_finishedLeft :
    (emptyStore.Made refusedAborted ∧
      ((emptyStore.after (refusedAborted.take 2)).pendingTxns.find? 2).isSome = true ∧
      (emptyStore.after refusedAborted).pendingTxns.find? 2 = none ∧
      ¬ FinishedLeft (.plain true) (fun _ => none) refusedAborted) ∧
    emptyStore.Made readersRetried ∧
      ((emptyStore.after (readersRetried.take 6)).pendingTxns.find? 3).isSome = true ∧
      (emptyStore.after readersRetried).pendingTxns.find? 3 = none ∧
      ¬ FinishedLeft (.plain true) (fun _ => none) readersRetried := by
  refine ⟨⟨TxnServer.made_of_returns .nil (by decide +kernel), by decide +kernel, ?_, fun h => ?_⟩,
    TxnServer.made_of_returns .nil (by decide +kernel), by decide +kernel, ?_, fun h => ?_⟩
  · exact Option.not_isSome_iff_eq_none.mp (by decide +kernel)
  · exact (h 2 _ rfl (Or.inr rfl) "k").2 (by decide +kernel)
  · exact Option.not_isSome_iff_eq_none.mp (by decide +kernel)
  · exact (h 3 _ rfl (Or.inl rfl) "k").2 (by decide +kernel)

end Dsnet.Transaction
