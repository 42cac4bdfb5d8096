import Dsnet.Transaction.LockServer

/-! What every call of the lock server keeps, in both of its modes: each lock is held as its state says, those
    in its queue are its waiters, and the counters of the server count the holds. A holder reads, writes
    or does both; acquiring and releasing a lock in one of the two ways changes that for the requester
    only, except that a lock that is released can go to those that wait for it. -/

namespace Dsnet.Transaction

/-! ### One lock -/

namespace Lock
variable {l l' : Lock} {r t : Nat} {b write : Bool}

/-- The lock is held as its state says: by nobody, by readers, or by one writer. -/
def Held (l : Lock) : Prop :=
  match l.state with
  | .unlocked => l.holders.toList = []
  | .lockedForRead => l.holders.toList ≠ []
  | .lockedForWrite | .lockedForReadWrite => ∃ t, l.holders.toList = [t]

/-- Those in the queue are the waiters. -/
structure Queued (l : Lock) : Prop where
  nodup : l.waitQ.Nodup
  waiters : ∀ r, r ∈ l.waitQ ↔ (l.waiters r).isSome = true

structure Ok (l : Lock) : Prop where
  held : l.Held
  queued : l.Queued

/-- The state of a lock that is held in one of the two ways only. -/
def stateFor (write : Bool) : LockState := if write then .lockedForWrite else .lockedForRead

/-- `t` holds the lock for writing, or for reading. -/
def Holds (l : Lock) (write : Bool) (t : Nat) : Prop :=
  t ∈ l.holders.toList ∧ (l.state = .lockedForReadWrite ∨ l.state = stateFor write)

/-- How many hold the lock for writing, or for reading. -/
def holdCount (l : Lock) (write : Bool) : Nat :=
  if l.state = .lockedForReadWrite ∨ l.state = stateFor write then l.holders.size else 0

/-- Only the queue of the lock differs. -/
def SameHolders (l l' : Lock) : Prop := l'.state = l.state ∧ l'.holders = l.holders

theorem SameHolders.held (h : SameHolders l l') (hl : l.Held) : l'.Held := by
  rw [Held, h.1, h.2]
  exact hl

theorem SameHolders.holds (h : SameHolders l l') : l'.Holds write t ↔ l.Holds write t := by
  rw [Holds, Holds, h.1, h.2]

theorem SameHolders.holdCount (h : SameHolders l l') : l'.holdCount write = l.holdCount write := by
  rw [Lock.holdCount, Lock.holdCount, h.1, h.2]

/-- Only the holders of the lock differ. -/
def SameQueue (l l' : Lock) : Prop := l'.waitQ = l.waitQ ∧ l'.waiters = l.waiters

/-- A request that works leaves the queue as it is, or takes the requester off its front. -/
def Left (l l' : Lock) (r : Nat) : Prop :=
  SameQueue l l' ∨
    ∃ rest, l.waitQ = r :: rest ∧ l'.waitQ = rest ∧ l'.waiters = Function.update l.waiters r none

theorem sameHolders_waitForLock (l : Lock) (r : Nat) (write : Bool) :
    SameHolders l (l.waitForLock r write) := by
  rw [waitForLock]
  split <;> exact ⟨rfl, rfl⟩

theorem queued_waitForLock (h : l.Queued) (r : Nat) (write : Bool) :
    (l.waitForLock r write).Queued := by
  rw [waitForLock]
  cases hw : l.waiters r with
  | some w =>
    refine ⟨h.nodup, fun t => ?_⟩
    by_cases ht : t = r
    · subst ht
      simp [h.waiters, hw]
    · simp [h.waiters, ht]
  | none =>
    have hr : r ∉ l.waitQ := by simp [h.waiters, hw]
    refine ⟨List.nodup_append.mpr ⟨h.nodup, by simp, ?_⟩, fun t => ?_⟩
    · rintro a ha b hb rfl
      exact hr (List.mem_singleton.mp hb ▸ ha)
    · by_cases ht : t = r
      · subst ht
        simp
      · simp [h.waiters, ht]

/-- `r` has to wait. -/
theorem ok_waitForLock (h : l.Ok) (r : Nat) (write : Bool) : (l.waitForLock r write).Ok :=
  ⟨(sameHolders_waitForLock l r write).held h.held, queued_waitForLock h.queued r write⟩

/-- The first in the queue has been waiting. -/
theorem popWaiter_spec {rest : List Nat} (h : l.Queued) (hq : l.waitQ = r :: rest) :
    ∃ l', l.popWaiter r rest = some l' ∧ SameHolders l l' ∧ l'.Queued ∧
      l'.waitQ = rest ∧ l'.waiters = Function.update l.waiters r none := by
  obtain ⟨w, hw⟩ := Option.isSome_iff_exists.mp ((h.waiters r).mp (by simp [hq]))
  have hnd := h.nodup
  rw [hq, List.nodup_cons] at hnd
  refine ⟨{ l with waitQ := rest, waiters := Function.update l.waiters r none },
    by rw [popWaiter, hw]; rfl, ⟨rfl, rfl⟩, ⟨hnd.2, fun t => ?_⟩, rfl, rfl⟩
  by_cases ht : t = r
  · subst ht
    simp [hnd.1]
  · simp [← h.waiters, hq, ht]

theorem tryAcquireLock_spec (h : l.Queued) (r : Nat) (write : Bool) :
    ∃ b l', l.tryAcquireLock r write = some (b, l') ∧ SameHolders l l' ∧ l'.Queued ∧
      (b = true → Left l l' r) ∧ (b = false → SameQueue (l.waitForLock r write) l') := by
  rw [tryAcquireLock]
  cases hq : l.waitQ with
  | nil => exact ⟨true, l, rfl, ⟨rfl, rfl⟩, h, fun _ => Or.inl ⟨rfl, rfl⟩, by simp⟩
  | cons first rest =>
    by_cases hf : first = r
    · subst hf
      obtain ⟨l', hl, hsame, hl', hrest, hw⟩ := popWaiter_spec h hq
      exact ⟨true, l', by simp [hl], hsame, hl', fun _ => Or.inr ⟨rest, hq, hrest, hw⟩, by simp⟩
    · exact ⟨false, l.waitForLock r write, by simp only [if_neg hf], sameHolders_waitForLock ..,
        queued_waitForLock h .., by simp, fun _ => ⟨rfl, rfl⟩⟩

theorem ok_new : new.Ok := ⟨rfl, List.nodup_nil, by simp [new]⟩

/-- Nobody holds a lock that is not locked. -/
theorem not_holds_of_unlocked (h : l.state = .unlocked) : ¬ l.Holds write t := by
  cases write <;> simp [Holds, h, stateFor]

/-- A lock that is held for writing has one holder. -/
theorem holders_eq_of_mem (hok : l.Ok) (hs : l.state = .lockedForWrite ∨ l.state = .lockedForReadWrite)
    (hr : r ∈ l.holders.toList) : l.holders.toList = [r] := by
  have hone : ∃ t, l.holders.toList = [t] := by
    rcases hs with hs | hs <;> simpa [Held, hs] using hok.held
  obtain ⟨t, ht⟩ := hone
  rw [ht] at hr ⊢
  rw [List.mem_singleton.mp hr]

theorem holdCount_of_unlocked (h : l.state = .unlocked) : l.holdCount write = 0 := by
  cases write <;> simp [holdCount, h, stateFor]

/-! ### Acquiring a lock -/

/-- `r` has asked for the lock: it is held as before, and in this way also by `r` if that has worked. -/
structure Acquired (l l' : Lock) (r : Nat) (b write : Bool) : Prop where
  ok : l'.Ok
  holds : ∀ w t, l'.Holds w t ↔ l.Holds w t ∨ (w = write ∧ b = true ∧ t = r)
  left : b = true → Left l l' r
  waits : b = false → SameQueue (l.waitForLock r write) l'

/-- `r` has to wait. -/
theorem acquired_waitForLock (hok : l.Ok) (r : Nat) (write : Bool) :
    Acquired l (l.waitForLock r write) r false write where
  ok := ok_waitForLock hok r write
  holds w t := by simp [(sameHolders_waitForLock l r write).holds]
  left := by simp
  waits _ := ⟨rfl, rfl⟩

/-- Nobody holds the lock, so it is taken, if it is not reserved for another. -/
theorem acquire_spec (hs : l.state = .unlocked) (hok : l.Ok) (r : Nat) (write : Bool) :
    ∃ b l', l.acquire r write = some (b, l') ∧ Acquired l l' r b write ∧
      ∀ w, l'.holdCount w = if b = true ∧ w = write then 1 else 0 := by
  have hnil : l.holders.toList = [] := by simpa [Held, hs] using hok.held
  have hno : ∀ w t, ¬ l.Holds w t := fun w t => not_holds_of_unlocked hs
  obtain ⟨b, l', hl, hsame, hq, hleft, hwaits⟩ := tryAcquireLock_spec hok.queued r write
  rw [acquire, hl]
  cases b with
  | false =>
    refine ⟨false, l', rfl, ⟨⟨hsame.held hok.held, hq⟩, fun w t => by simp [hsame.holds], by simp,
      hwaits⟩, fun w => ?_⟩
    rw [hsame.holdCount, holdCount_of_unlocked hs]
    simp
  | true =>
    have hnil' : l'.holders.toList = [] := hsame.2 ▸ hnil
    have hone : (l'.holders.insert r).toList = [r] := by
      show StdSet.insertList r l'.holders.toList = [r]
      rw [hnil']
      rfl
    refine ⟨true, { l' with state := stateFor write, holders := l'.holders.insert r },
      by simp [StdSet.size, hnil', stateFor], ⟨⟨?_, hq.nodup, hq.waiters⟩, fun w t => ?_, hleft,
        by simp⟩, fun w => ?_⟩
    · cases write <;> simp [Held, hone, stateFor]
    · cases write <;> cases w <;> simp [hno] <;> simp [Holds, hone, stateFor]
    · cases write <;> cases w <;> simp [holdCount, hone, stateFor, StdSet.size]

/-- `r` has the lock in this way already. -/
theorem acquired_of_holder (hok : l.Ok) (h : l.Holds write r) : Acquired l l r true write where
  ok := hok
  holds w t := by
    refine ⟨Or.inl, fun ht => ht.elim id ?_⟩
    rintro ⟨rfl, -, rfl⟩
    exact h
  left _ := Or.inl ⟨rfl, rfl⟩
  waits := by simp

/-- The one holder of the lock has it in both ways from now on. -/
theorem acquired_of_upgrade (hok : l.Ok) (hl : l.holders.toList = [r])
    (hs : l.state = stateFor (!write) ∨ l.state = .lockedForReadWrite) :
    Acquired l { l with state := .lockedForReadWrite } r true write where
  ok := ⟨⟨r, hl⟩, hok.queued.nodup, hok.queued.waiters⟩
  holds w t := by cases write <;> cases w <;> rcases hs with hs | hs <;> simp [Holds, hs, hl, stateFor]
  left _ := Or.inl ⟨rfl, rfl⟩
  waits := by simp

/-- `r` reads together with others. -/
theorem acquired_of_share (hok : l.Ok) (hs : l.state = .lockedForRead) :
    Acquired l { l with holders := l.holders.insert r } r true false where
  ok := by
    have hmem : r ∈ (l.holders.insert r).toList := StdSet.mem_insert.mpr (Or.inl rfl)
    refine ⟨?_, hok.queued.nodup, hok.queued.waiters⟩
    simp only [Held, hs]
    exact List.ne_nil_of_mem hmem
  holds w t := by cases w <;> simp [Holds, hs, stateFor, or_comm]
  left _ := Or.inl ⟨rfl, rfl⟩
  waits := by simp

/-- A lock that is held for writing has one holder. -/
theorem size_eq_one (hok : l.Ok) (hs : l.state = .lockedForWrite ∨ l.state = .lockedForReadWrite) :
    l.holders.size = 1 := by
  have hone : ∃ t, l.holders.toList = [t] := by
    rcases hs with hs | hs <;> simpa [Held, hs] using hok.held
  exact List.length_eq_one_iff.mpr hone

theorem isWriteNext_isSome (hok : l.Ok) : ∃ next, l.isWriteNext = some next := by
  rw [isWriteNext]
  cases hq : l.waitQ with
  | nil => exact ⟨false, rfl⟩
  | cons first rest =>
    obtain ⟨w, hw⟩ := Option.isSome_iff_exists.mp ((hok.queued.waiters first).mp (by simp [hq]))
    exact ⟨w.write, by simp [hw]⟩

/-! ### Releasing a lock -/

/-- `r` has released the lock: it is held as before, but by `r` no longer in this way. -/
structure Released (l l' : Lock) (r : Nat) (write : Bool) : Prop where
  ok : l'.Ok
  holds : ∀ w t, l'.Holds w t ↔ l.Holds w t ∧ ¬ (w = write ∧ t = r)
  queue : SameQueue l l'

/-- `r` did not hold the lock in this way. -/
theorem released_of_not (hok : l.Ok) (h : ¬ l.Holds write r) : Released l l r write where
  ok := hok
  holds w t := by
    refine ⟨fun ht => ⟨ht, ?_⟩, And.left⟩
    rintro ⟨rfl, rfl⟩
    exact h ht
  queue := ⟨rfl, rfl⟩

/-- The last holder of a lock that is held in this way only. -/
theorem released_of_last (hok : l.Ok) (hs : l.state = stateFor write)
    (hnil : (l.holders.erase r).toList = []) :
    Released l { l with state := .unlocked, holders := l.holders.erase r } r write := by
  have hno : ∀ t ∈ l.holders.toList, t = r := by
    intro t ht
    by_contra hne
    have hmem : t ∈ (l.holders.erase r).toList := StdSet.mem_erase.mpr ⟨ht, hne⟩
    rw [hnil] at hmem
    cases hmem
  refine ⟨⟨hnil, hok.queued.nodup, hok.queued.waiters⟩, fun w t => ?_, rfl, rfl⟩
  cases write <;> cases w <;> simp [Holds, hs, stateFor] <;> exact hno t

/-- The others go on reading. -/
theorem released_of_others (hok : l.Ok) (hs : l.state = .lockedForRead)
    (hne : (l.holders.erase r).toList ≠ []) :
    Released l { l with holders := l.holders.erase r } r false := by
  refine ⟨⟨?_, hok.queued.nodup, hok.queued.waiters⟩,
    fun w t => by cases w <;> simp [Holds, hs, stateFor], rfl, rfl⟩
  simp only [Held, hs]
  exact hne

/-- The one holder of the lock goes on holding it in the other way. -/
theorem released_of_downgrade (hok : l.Ok) (hs : l.state = .lockedForReadWrite)
    (hr : r ∈ l.holders.toList) (write : Bool) :
    Released l { l with state := stateFor (!write) } r write := by
  have hl := holders_eq_of_mem hok (Or.inr hs) hr
  refine ⟨⟨?_, hok.queued.nodup, hok.queued.waiters⟩, fun w t => ?_, rfl, rfl⟩
  · cases write <;> simp [Held, stateFor, hl]
  · cases write <;> cases w <;> simp [Holds, hs, hl, stateFor]

end Lock

/-! ### One lock and the counters -/

namespace LockRef
open Lock (Acquired Released stateFor)
variable {x x' : LockRef} {r t : Nat} {b write : Bool}

/-- The counter of writers, or of readers. -/
def counter (x : LockRef) (write : Bool) : Nat := if write then x.writers else x.readers

/-- The counters count the holds of the lock, and `n` of other locks. -/
def Counts (x : LockRef) (n : Bool → Nat) : Prop := ∀ w, x.counter w = n w + x.lock.holdCount w

/-- A request for the lock that is answered. -/
def Answers (x : LockRef) (r : Nat) (write : Bool) (y : Option (Bool × LockRef)) : Prop :=
  ∃ b x', y = some (b, x') ∧ Acquired x.lock x'.lock r b write ∧ ∀ n, x.Counts n → x'.Counts n

theorem answers_waitForLock (hok : x.lock.Ok) (r : Nat) (write : Bool) :
    x.Answers r write (some (false, { x with lock := x.lock.waitForLock r write })) := by
  refine ⟨false, _, rfl, Lock.acquired_waitForLock hok r write, fun n hn w => ?_⟩
  rw [(Lock.sameHolders_waitForLock x.lock r write).holdCount]
  exact hn w

theorem answers_of_holder (hok : x.lock.Ok) (h : x.lock.Holds write r) :
    x.Answers r write (some (true, x)) :=
  ⟨true, x, rfl, Lock.acquired_of_holder hok h, fun _ hn => hn⟩

theorem lockForRead_spec (hok : x.lock.Ok) (r : Nat) : x.Answers r false (x.lockForRead r) := by
  have hheld : x.lock.state = .lockedForWrite ∨ x.lock.state = .lockedForReadWrite →
      x.Answers r false (if r ∈ x.lock.holders.toList then
          some (true, { x with
            lock := { x.lock with state := .lockedForReadWrite }
            readers := if x.lock.state = .lockedForWrite then x.readers + 1 else x.readers })
        else if x.lock.holders.size = 1 then
          some (false, { x with lock := x.lock.waitForLock r false })
        else none) := by
    intro hs
    have hsize := Lock.size_eq_one hok hs
    by_cases hr : r ∈ x.lock.holders.toList
    · rw [if_pos hr]
      refine ⟨true, _, rfl, Lock.acquired_of_upgrade hok (Lock.holders_eq_of_mem hok hs hr) hs,
        fun n hn w => ?_⟩
      have := hn w
      rcases hs with hs | hs <;> cases w <;>
        simp [counter, Lock.holdCount, hs, stateFor, hsize] at this ⊢ <;> omega
    · rw [if_neg hr, if_pos hsize]
      exact answers_waitForLock hok r false
  rw [lockForRead]
  cases hs : x.lock.state with
  | unlocked =>
    obtain ⟨b, l', hl, hacq, hcount⟩ := Lock.acquire_spec hs hok r false
    refine ⟨b, _, by rw [hl]; rfl, hacq, fun n hn w => ?_⟩
    have := hn w
    rw [Lock.holdCount_of_unlocked hs] at this
    simp only [hcount]
    cases b <;> cases w <;> simp [counter] at this ⊢ <;> omega
  | lockedForRead =>
    by_cases hr : r ∈ x.lock.holders.toList
    · simp only [if_pos hr]
      exact answers_of_holder hok ⟨hr, Or.inr hs⟩
    · simp only [if_neg hr]
      obtain ⟨next, hnext⟩ := Lock.isWriteNext_isSome hok
      rw [hnext]
      cases next with
      | true => exact answers_waitForLock hok r false
      | false =>
        refine ⟨true, _, rfl, Lock.acquired_of_share hok hs, fun n hn w => ?_⟩
        have := hn w
        have hsize := StdSet.size_insert_of_not_mem hr
        cases w <;> simp [counter, Lock.holdCount, hs, stateFor, hsize] at this ⊢ <;> omega
  | lockedForWrite =>
    have h := hheld (Or.inl hs)
    rw [hs] at h
    exact h
  | lockedForReadWrite =>
    have h := hheld (Or.inr hs)
    rw [hs] at h
    exact h

theorem lockForWrite_spec (hok : x.lock.Ok) (r : Nat) : x.Answers r true (x.lockForWrite r) := by
  have hheld : x.lock.state = .lockedForWrite ∨ x.lock.state = .lockedForReadWrite →
      x.Answers r true (if x.lock.holders.size = 1 then
        if r ∈ x.lock.holders.toList then some (true, x)
        else some (false, { x with lock := x.lock.waitForLock r true })
      else none) := by
    intro hs
    rw [if_pos (Lock.size_eq_one hok hs)]
    by_cases hr : r ∈ x.lock.holders.toList
    · rw [if_pos hr]
      exact answers_of_holder hok ⟨hr, hs.symm⟩
    · rw [if_neg hr]
      exact answers_waitForLock hok r true
  rw [lockForWrite]
  cases hs : x.lock.state with
  | unlocked =>
    obtain ⟨b, l', hl, hacq, hcount⟩ := Lock.acquire_spec hs hok r true
    refine ⟨b, _, by rw [hl]; rfl, hacq, fun n hn w => ?_⟩
    have := hn w
    rw [Lock.holdCount_of_unlocked hs] at this
    simp only [hcount]
    cases b <;> cases w <;> simp [counter] at this ⊢ <;> omega
  | lockedForRead =>
    by_cases hr : x.lock.holders.size = 1 ∧ r ∈ x.lock.holders.toList
    · simp only [if_pos hr]
      obtain ⟨t, ht⟩ := List.length_eq_one_iff.mp hr.1
      have hmem := hr.2
      rw [ht, List.mem_singleton] at hmem
      refine ⟨true, _, rfl, Lock.acquired_of_upgrade hok (by rw [ht, hmem]) (Or.inl hs),
        fun n hn w => ?_⟩
      have := hn w
      cases w <;> simp [counter, Lock.holdCount, hs, stateFor, hr.1] at this ⊢ <;> omega
    · simp only [if_neg hr]
      exact answers_waitForLock hok r true
  | lockedForWrite => exact hheld (Or.inl hs)
  | lockedForReadWrite => exact hheld (Or.inr hs)

/-- A lock that is released, before it is handed on. -/
def Frees (x : LockRef) (r : Nat) (write : Bool) (y : Option (LockRef × Bool)) : Prop :=
  ∃ x' next, y = some (x', next) ∧ Released x.lock x'.lock r write ∧ ∀ n, x.Counts n → x'.Counts n

theorem frees_of_not (hok : x.lock.Ok) (h : ¬ x.lock.Holds write r) :
    x.Frees r write (some (x, false)) :=
  ⟨x, false, rfl, Lock.released_of_not hok h, fun _ hn => hn⟩

theorem releaseForRead_spec (hok : x.lock.Ok) (r : Nat) : x.Frees r false (x.releaseForRead r) := by
  rw [releaseForRead]
  by_cases hr : r ∈ x.lock.holders.toList
  · have herase := StdSet.size_erase_of_mem hr
    rw [if_pos hr]
    cases hs : x.lock.state with
    | unlocked => exact frees_of_not hok (Lock.not_holds_of_unlocked hs)
    | lockedForWrite => exact frees_of_not hok (by simp [Lock.Holds, hs, stateFor])
    | lockedForRead =>
      by_cases hsize : (x.lock.holders.erase r).size = 0
      · simp only [if_pos hsize]
        refine ⟨_, _, rfl, Lock.released_of_last hok hs (List.length_eq_zero_iff.mp hsize),
          fun n hn w => ?_⟩
        have := hn w
        cases w <;> simp [counter, Lock.holdCount, hs, stateFor] at this ⊢ <;> omega
      · simp only [if_neg hsize]
        refine ⟨_, _, rfl, Lock.released_of_others hok hs fun hnil => hsize ?_, fun n hn w => ?_⟩
        · exact List.length_eq_zero_iff.mpr hnil
        · have := hn w
          cases w <;> simp [counter, Lock.holdCount, hs, stateFor] at this ⊢ <;> omega
    | lockedForReadWrite =>
      have hone := Lock.size_eq_one hok (Or.inr hs)
      refine ⟨_, _, rfl, Lock.released_of_downgrade hok hs hr false, fun n hn w => ?_⟩
      have := hn w
      cases w <;> simp [counter, Lock.holdCount, hs, stateFor, hone] at this ⊢ <;> omega
  · rw [if_neg hr]
    exact frees_of_not hok fun h => hr h.1

theorem releaseForWrite_spec (hok : x.lock.Ok) (r : Nat) : x.Frees r true (x.releaseForWrite r) := by
  rw [releaseForWrite]
  by_cases hr : r ∈ x.lock.holders.toList
  · rw [if_pos hr]
    cases hs : x.lock.state with
    | unlocked => exact frees_of_not hok (Lock.not_holds_of_unlocked hs)
    | lockedForRead => exact frees_of_not hok (by simp [Lock.Holds, hs, stateFor])
    | lockedForWrite =>
      have hone := Lock.size_eq_one hok (Or.inl hs)
      have hl := Lock.holders_eq_of_mem hok (Or.inl hs) hr
      have hnil : (x.lock.holders.erase r).toList = [] := by simp [StdSet.erase, hl]
      have hsize : (x.lock.holders.erase r).size = 0 := List.length_eq_zero_iff.mpr hnil
      simp only [if_pos hsize]
      refine ⟨_, _, rfl, Lock.released_of_last hok hs hnil, fun n hn w => ?_⟩
      have := hn w
      cases w <;> simp [counter, Lock.holdCount, hs, stateFor, hone] at this ⊢ <;> omega
    | lockedForReadWrite =>
      have hone := Lock.size_eq_one hok (Or.inr hs)
      simp only [if_pos hone]
      refine ⟨_, _, rfl, Lock.released_of_downgrade hok hs hr true, fun n hn w => ?_⟩
      have := hn w
      cases w <;> simp [counter, Lock.holdCount, hs, stateFor, hone] at this ⊢ <;> omega
  · rw [if_neg hr]
    exact frees_of_not hok fun h => hr h.1

end LockRef

/-! ### Handing a lock on -/

/-- The waiter wants to write, or to read. -/
def Waiter.wants (w : Waiter) (write : Bool) : Bool := if write then w.write else w.read

namespace Lock
variable {l l' l'' : Lock} {r : Nat} {w : Waiter} {write : Bool}

/-- Who waits already for the lock in this way goes on waiting. -/
theorem waitForLock_of_waiting (hw : l.waiters r = some w) (h : w.wants write = true) :
    l.waitForLock r write = l := by
  have hsame : (if write then { w with write := true } else { w with read := true }) = w := by
    obtain ⟨read, write'⟩ := w
    cases write <;> simp [Waiter.wants] at h ⊢ <;> exact h
  rw [waitForLock, hw]
  simp only [hsame, ← hw, Function.update_eq_self]

/-- The first in the queue, which is `w`, has been served: it may hold the lock in the ways it wants, and
    may have left the queue. -/
structure Served (l l' : Lock) (r : Nat) (w : Waiter) : Prop where
  ok : l'.Ok
  keeps : ∀ {m t}, l.Holds m t → l'.Holds m t
  only : ∀ {m t}, l'.Holds m t → l.Holds m t ∨ (t = r ∧ w.wants m = true)
  left : Left l l' r

/-- Whether or not the first waiter has left the queue. -/
theorem Left.waiters (h : Left l l' r) {t : Nat} {w' : Waiter}
    (ht : l'.waiters t = some w') : l.waiters t = some w' := by
  rcases h with h | ⟨rest, -, -, hw⟩
  · rw [← h.2, ht]
  · rw [hw] at ht
    by_cases hne : t = r
    · subst hne
      simp at ht
    · rwa [Function.update_of_ne hne] at ht

/-- Those that wait when a request is answered. -/
theorem Acquired.waiters {b : Bool} (h : Acquired l l' r b write) {t : Nat} {w' : Waiter} (ht : l'.waiters t = some w') :
    l.waiters t = some w' ∨ (t = r ∧ b = false ∧ ∀ m, w'.wants m = true →
      m = write ∨ ∃ w, l.waiters t = some w ∧ w.wants m = true) := by
  cases b with
  | true => exact Or.inl ((h.left rfl).waiters ht)
  | false =>
    rw [(h.waits rfl).2] at ht
    by_cases hne : t = r
    · subst hne
      refine Or.inr ⟨rfl, rfl, fun m hm => ?_⟩
      rw [waitForLock] at ht
      cases hw : l.waiters t with
      | some w =>
        simp only [hw, Function.update_self, Option.some.injEq] at ht
        subst ht
        cases m <;> cases write <;> simp [Waiter.wants] at hm ⊢ <;> exact hm
      | none =>
        simp only [hw, Function.update_self, Option.some.injEq] at ht
        subst ht
        cases m <;> cases write <;> simp [Waiter.wants, Waiter.of] at hm ⊢
    · left
      rw [waitForLock] at ht
      cases hw : l.waiters r with
      | some w => simpa [hw, hne] using ht
      | none => simpa [hw, hne] using ht

theorem served_refl (hok : l.Ok) : Served l l r w := ⟨hok, id, Or.inl, Or.inl ⟨rfl, rfl⟩⟩

theorem SameQueue.trans (h : SameQueue l l') (h' : SameQueue l' l'') : SameQueue l l'' :=
  ⟨h'.1.trans h.1, h'.2.trans h.2⟩

theorem Left.trans_same (h : Left l l' r) (h' : SameQueue l' l'') : Left l l'' r := by
  rcases h with h | ⟨rest, hq, hrest, hw⟩
  · exact Or.inl (h.trans h')
  · exact Or.inr ⟨rest, hq, h'.1.trans hrest, h'.2.trans hw⟩

theorem SameQueue.trans_left (h : SameQueue l l') (h' : Left l' l'' r) : Left l l'' r := by
  rcases h' with h' | ⟨rest, hq, hrest, hw⟩
  · exact Or.inl (h.trans h')
  · exact Or.inr ⟨rest, h.1 ▸ hq, hrest, h.2 ▸ hw⟩

/-- One request for the first waiter, in a way that it wants. -/
theorem Acquired.served {b : Bool} (h : Acquired l l' r b write) (hwaiting : l.waiters r = some w)
    (hwants : w.wants write = true) : Served l l' r w where
  ok := h.ok
  keeps ht := (h.holds ..).mpr (Or.inl ht)
  only ht := by
    refine ((h.holds ..).mp ht).imp id ?_
    rintro ⟨rfl, -, rfl⟩
    exact ⟨rfl, hwants⟩
  left := by
    cases b with
    | true => exact h.left rfl
    | false =>
      have hsame := h.waits rfl
      rw [waitForLock_of_waiting hwaiting hwants] at hsame
      exact Or.inl hsame

end Lock

namespace LockRef
open Lock (Acquired Served Left SameQueue)
variable {x x' : LockRef} {r : Nat} {w : Waiter}

/-- Who holds the lock can read, and does not queue for that. -/
theorem lockForRead_of_holder (hok : x.lock.Ok) (hr : r ∈ x.lock.holders.toList) :
    ∃ x', x.lockForRead r = some (true, x') ∧ SameQueue x.lock x'.lock := by
  rw [lockForRead]
  cases hs : x.lock.state with
  | unlocked =>
    have hnil : x.lock.holders.toList = [] := by simpa [Lock.Held, hs] using hok.held
    rw [hnil] at hr
    cases hr
  | lockedForRead => exact ⟨x, by simp [hr], rfl, rfl⟩
  | lockedForWrite => exact ⟨_, if_pos hr, rfl, rfl⟩
  | lockedForReadWrite => exact ⟨_, if_pos hr, rfl, rfl⟩

/-- One request for the first waiter, if it wants the lock in that way. -/
theorem request_spec {lock : LockRef → Nat → Option (Bool × LockRef)} {write : Bool}
    (hlock : x.Answers r write (lock x r)) (hok : x.lock.Ok) (hw : x.lock.waiters r = some w) :
    ∃ b x', (if w.wants write then lock x r else some (true, x)) = some (b, x') ∧
      Served x.lock x'.lock r w ∧ (∀ n, x.Counts n → x'.Counts n) ∧
      (SameQueue x.lock x'.lock ∨ r ∈ x'.lock.holders.toList) := by
  by_cases hwants : w.wants write = true
  · obtain ⟨b, x', hx, hacq, hcount⟩ := hlock
    refine ⟨b, x', by rw [if_pos hwants, hx], hacq.served hw hwants, hcount, ?_⟩
    cases b with
    | true => exact Or.inr ((hacq.holds write r).mpr (Or.inr ⟨rfl, rfl, rfl⟩)).1
    | false =>
      have hsame := hacq.waits rfl
      rw [Lock.waitForLock_of_waiting hw hwants] at hsame
      exact Or.inl hsame
  · exact ⟨true, x, by rw [if_neg hwants], Lock.served_refl hok, fun _ hn => hn, Or.inl ⟨rfl, rfl⟩⟩

/-- What `TryAcquireForWaiters` asks for the first in the queue. -/
theorem acquireForWaiter_spec (hok : x.lock.Ok) (hw : x.lock.waiters r = some w) :
    ∃ b x', x.acquireForWaiter r w = some (b, x') ∧ Served x.lock x'.lock r w ∧
      ∀ n, x.Counts n → x'.Counts n := by
  obtain ⟨b₁, x₁, hx₁, hserved₁, hcount₁, hqueue⟩ := request_spec (lockForWrite_spec hok r) hok hw
  have hwrite : (if w.write then x.lockForWrite r else some (true, x)) = some (b₁, x₁) := hx₁
  rw [acquireForWaiter, hwrite]
  simp only [Option.bind_some]
  -- it is the first in the queue still, or has the lock
  rcases hqueue with hsame | hholder
  · have hw₁ : x₁.lock.waiters r = some w := by rw [hsame.2, hw]
    obtain ⟨b₂, x₂, hx₂, hserved₂, hcount₂, -⟩ :=
      request_spec (lockForRead_spec hserved₁.ok r) hserved₁.ok hw₁
    have hread : (if w.read then x₁.lockForRead r else some (true, x₁)) = some (b₂, x₂) := hx₂
    rw [hread]
    refine ⟨_, x₂, rfl, ⟨hserved₂.ok, fun h => hserved₂.keeps (hserved₁.keeps h), fun h => ?_,
      hsame.trans_left hserved₂.left⟩, fun n hn => hcount₂ n (hcount₁ n hn)⟩
    exact (hserved₂.only h).elim hserved₁.only Or.inr
  · by_cases hread : w.read = true
    · obtain ⟨x₂, hx₂, hsame⟩ := lockForRead_of_holder hserved₁.ok hholder
      obtain ⟨b, x₂', hx₂', hacq, hcount₂⟩ := lockForRead_spec hserved₁.ok r
      rw [hx₂] at hx₂'
      cases hx₂'
      rw [if_pos hread, hx₂]
      refine ⟨_, x₂, rfl, ⟨hacq.ok, fun h => (hacq.holds ..).mpr (Or.inl (hserved₁.keeps h)),
        fun h => ?_, hserved₁.left.trans_same hsame⟩, fun n hn => hcount₂ n (hcount₁ n hn)⟩
      rcases (hacq.holds ..).mp h with h | ⟨rfl, -, rfl⟩
      · exact hserved₁.only h
      · exact Or.inr ⟨rfl, hread⟩
    · rw [if_neg hread]
      exact ⟨_, x₁, rfl, hserved₁, hcount₁⟩

/-- A waiter that has been served leaves the queue. -/
theorem dequeue_spec {l : Lock} {rest : List Nat} (hl : l.Queued) (hq : l.waitQ = r :: rest)
    (h : Served l x.lock r w) :
    ∃ x', x.dequeue r = some x' ∧ Served l x'.lock r w ∧ x'.lock.waitQ = rest ∧
      x'.lock.waiters = Function.update l.waiters r none ∧ ∀ n, x.Counts n → x'.Counts n := by
  have hnd := hl.nodup
  rw [hq, List.nodup_cons] at hnd
  rcases h.left with hsame | ⟨rest', hq', hrest, hw⟩
  · have hqx : x.lock.waitQ = r :: rest := hsame.1.trans hq
    obtain ⟨l', hpop, hholders, hqueued, hrest, hw⟩ := Lock.popWaiter_spec h.ok.queued hqx
    refine ⟨{ x with lock := l' }, by simp [dequeue, hqx, hpop], ⟨⟨hholders.held h.ok.held, hqueued⟩,
      fun ht => hholders.holds.mpr (h.keeps ht), fun ht => h.only (hholders.holds.mp ht),
      Or.inr ⟨rest, hq, hrest, by rw [hw, hsame.2]⟩⟩, hrest, by rw [hw, hsame.2], fun n hn m => ?_⟩
    rw [hholders.holdCount]
    exact hn m
  · rw [hq] at hq'
    cases hq'
    refine ⟨x, ?_, h, hrest, hw, fun _ hn => hn⟩
    rw [dequeue, hrest]
    cases rest with
    | nil => rfl
    | cons first rest =>
      have hne : first ≠ r := fun heq => hnd.1 (heq ▸ List.mem_cons_self ..)
      simp only [if_neg hne]

/-- One round of `TryAcquireForWaiters`. -/
theorem round_spec (hok : x.lock.Ok) {rest : List Nat} (hq : x.lock.waitQ = r :: rest) :
    ∃ w b x₁ x₂, x.lock.waiters r = some w ∧ x.acquireForWaiter r w = some (b, x₁) ∧
      Served x.lock x₁.lock r w ∧ (∀ n, x.Counts n → x₁.Counts n) ∧
      x₁.dequeue r = some x₂ ∧ Served x.lock x₂.lock r w ∧ (∀ n, x.Counts n → x₂.Counts n) ∧
      x₂.lock.waitQ = rest ∧ x₂.lock.waiters = Function.update x.lock.waiters r none := by
  obtain ⟨w, hw⟩ := Option.isSome_iff_exists.mp ((hok.queued.waiters r).mp (by simp [hq]))
  obtain ⟨b, x₁, hx₁, hserved₁, hcount₁⟩ := acquireForWaiter_spec hok hw
  obtain ⟨x₂, hx₂, hserved₂, hrest, hwaiters, hcount₂⟩ := dequeue_spec hok.queued hq hserved₁
  exact ⟨w, b, x₁, x₂, hw, hx₁, hserved₁, hcount₁, hx₂, hserved₂, fun n hn => hcount₂ n (hcount₁ n hn),
    hrest, hwaiters⟩

/-- `TryAcquireForWaiters` has handed the lock on: it is held as before, and by waiters in the ways they
    wanted. Those that have got it wait no longer. -/
structure Handed (l l' : Lock) (newholders newholders' : StdSet Nat) : Prop where
  ok : l'.Ok
  keeps : ∀ {m t}, l.Holds m t → l'.Holds m t
  only : ∀ {m t}, l'.Holds m t → l.Holds m t ∨ ∃ w, l.waiters t = some w ∧ w.wants m = true
  waiters : ∀ {t w}, l'.waiters t = some w → l.waiters t = some w ∧
    (t ∈ newholders'.toList → t ∈ newholders.toList)

theorem Handed.refl {l : Lock} (hok : l.Ok) (newholders : StdSet Nat) : Handed l l newholders newholders :=
  ⟨hok, id, Or.inl, fun h => ⟨h, id⟩⟩

theorem acquireForWaiters_spec : ∀ (n : Nat) {x : LockRef} (newholders : StdSet Nat), x.lock.Ok →
    ∃ x' newholders', acquireForWaiters n x newholders = some (x', newholders') ∧
      Handed x.lock x'.lock newholders newholders' ∧ ∀ n, x.Counts n → x'.Counts n
  | 0, x, newholders, hok => ⟨x, newholders, rfl, .refl hok _, fun _ hn => hn⟩
  | n + 1, x, newholders, hok => by
      rw [acquireForWaiters]
      cases hq : x.lock.waitQ with
      | nil => exact ⟨x, newholders, rfl, .refl hok _, fun _ hn => hn⟩
      | cons r rest =>
        obtain ⟨w, b, x₁, x₂, hw, hx₁, hserved₁, hcount₁, hx₂, hserved₂, hcount₂, hrest, hwaiters⟩ :=
          round_spec hok hq
        have honly : ∀ {l' : Lock}, Served x.lock l' r w → ∀ {m t}, l'.Holds m t →
            x.lock.Holds m t ∨ ∃ w, x.lock.waiters t = some w ∧ w.wants m = true := by
          intro l' h m t ht
          refine (h.only ht).imp id ?_
          rintro ⟨rfl, hm⟩
          exact ⟨w, hw, hm⟩
        simp only [hw, hx₁, Option.bind_some]
        cases b with
        | false =>
          exact ⟨x₁, newholders, rfl, ⟨hserved₁.ok, hserved₁.keeps, honly hserved₁,
            fun h => ⟨hserved₁.left.waiters h, id⟩⟩, hcount₁⟩
        | true =>
          obtain ⟨x', newholders', hx', hh, hcount⟩ :=
            acquireForWaiters_spec n (newholders.insert r) hserved₂.ok
          simp only [hx₂, if_true, Option.bind_some]
          refine ⟨x', newholders', hx', ⟨hh.ok, fun ht => hh.keeps (hserved₂.keeps ht), fun ht => ?_,
            fun {t wt} ht => ?_⟩, fun n hn => hcount n (hcount₂ n hn)⟩
          · rcases hh.only ht with ht | ⟨w', hw', hm⟩
            · exact honly hserved₂ ht
            · exact Or.inr ⟨w', hserved₂.left.waiters hw', hm⟩
          · obtain ⟨ht₂, hnew⟩ := hh.waiters ht
            refine ⟨hserved₂.left.waiters ht₂, fun hmem => ?_⟩
            rcases StdSet.mem_insert.mp (hnew hmem) with rfl | hmem
            · rw [hwaiters] at ht₂
              simp at ht₂
            · exact hmem

end LockRef

/-! ### The lock server -/

namespace LockServer
open LockRef (Counts)

/-- The counter of writers, or of readers. -/
def counter (s : LockServer) (write : Bool) : Nat := if write then s.writers else s.readers

/-- Every lock is held as its state says and has its waiters in its queue, and the counters count the
    holds. -/
structure Ok (s : LockServer) : Prop where
  locks : ∀ key, (s.lock key).Ok
  counts : ∀ w, s.counter w = s.locks.sum fun l => l.holdCount w

/-- `t` holds the lock of `key` for writing, or for reading. -/
def Holds (s : LockServer) (write : Bool) (key : String) (t : Nat) : Prop := (s.lock key).Holds write t

/-- `t` waits for the lock of `key`, and how. -/
def waiter (s : LockServer) (key : String) (t : Nat) : Option Waiter := (s.lock key).waiters t

variable {s : LockServer} {key : String} {x : LockRef}

@[simp] theorem lock_setRef_self : (s.setRef key x).lock key = x.lock := by
  simp [lock, setRef, StdMap.find?_insert_self]

theorem lock_setRef_of_ne {k : String} (h : k ≠ key) : (s.setRef key x).lock k = s.lock k := by
  simp [lock, setRef, StdMap.find?_insert_of_ne _ _ h]

/-- A lock is changed, with the counters. -/
theorem ok_setRef (hs : s.Ok) (hx : x.lock.Ok) (hcount : ∀ n, (s.ref key).Counts n → x.Counts n) :
    (s.setRef key x).Ok := by
  refine ⟨fun k => ?_, fun w => ?_⟩
  · by_cases hk : k = key
    · subst hk
      rwa [lock_setRef_self]
    · rw [lock_setRef_of_ne hk]
      exact hs.locks k
  · -- a lock that is missing is a lock that nobody holds
    have hold : ∀ w, (((s.locks.find? key).map fun l => l.holdCount w).getD 0) = (s.lock key).holdCount w := by
      intro w
      rw [lock]
      cases s.locks.find? key with
      | some l => rfl
      | none => exact (Lock.holdCount_of_unlocked rfl).symm
    choose n hn hins using fun w => s.locks.exists_sum_insert key fun l => l.holdCount w
    have hx := hcount n fun w => by
      show s.counter w = _
      rw [hs.counts, hn, hold]
      rfl
    show x.counter w = (s.locks.insert key x.lock).sum _
    rw [hins]
    exact hx w

theorem ok_new (retryLock : Bool) : (new retryLock).Ok :=
  ⟨fun _ => Lock.ok_new, fun w => by cases w <;> rfl⟩

/-- What a request leaves: `r` may hold the lock besides those that hold it, or else waits for it. -/
structure Requested (s s' : LockServer) (key : String) (r : Nat) (b write : Bool) : Prop where
  ok : s'.Ok
  retry : s'.retryLock = s.retryLock
  holds : ∀ w k t, s'.Holds w k t ↔ s.Holds w k t ∨ (w = write ∧ k = key ∧ b = true ∧ t = r)
  waiters : ∀ {k t w'}, s'.waiter k t = some w' → s.waiter k t = some w' ∨
    (k = key ∧ t = r ∧ b = false ∧ ∀ m, w'.wants m = true →
      m = write ∨ ∃ w, s.waiter k t = some w ∧ w.wants m = true)

/-- A call that asks for a lock in one of the two ways. -/
def Acquires (lock : LockServer → String → Nat → Option (Bool × LockServer)) (write : Bool) : Prop :=
  ∀ (s : LockServer) (key : String) (r : Nat), s.Ok →
    ∃ b s', lock s key r = some (b, s') ∧ Requested s s' key r b write

theorem acquires_of_answers {acquire : LockRef → Nat → Option (Bool × LockRef)} {write : Bool}
    (h : ∀ {x : LockRef}, x.lock.Ok → ∀ r, x.Answers r write (acquire x r)) :
    Acquires (fun s key r => (acquire (s.ref key) r).map fun (ok, x) => (ok, s.setRef key x)) write := by
  intro s key r hs
  obtain ⟨b, x, hx, hacq, hcount⟩ := h (x := s.ref key) (hs.locks key) r
  refine ⟨b, s.setRef key x, by simp [hx], ok_setRef hs hacq.ok hcount, rfl, fun w k t => ?_,
    fun {k t w'} ht => ?_⟩
  · by_cases hk : k = key
    · subst hk
      simp [Holds, hacq.holds, ref]
    · simp [Holds, lock_setRef_of_ne hk, hk]
  · by_cases hk : k = key
    · subst hk
      rw [waiter, lock_setRef_self] at ht
      exact (hacq.waiters ht).imp id fun h => ⟨rfl, h⟩
    · rw [waiter, lock_setRef_of_ne hk] at ht
      exact Or.inl ht

theorem acquires_lockForRead : Acquires lockForRead false := acquires_of_answers LockRef.lockForRead_spec

theorem acquires_lockForWrite : Acquires lockForWrite true :=
  acquires_of_answers LockRef.lockForWrite_spec

/-- What a release leaves: `r` no longer holds the lock in this way. Those that have got it have waited
    for it, and wait no longer. -/
structure Handed (s s' : LockServer) (key : String) (r : Nat) (write : Bool) (newholders : StdSet Nat) :
    Prop where
  ok : s'.Ok
  retry : s'.retryLock = s.retryLock
  none : s.retryLock = true → newholders = StdSet.empty
  keeps : ∀ {w k t}, s.Holds w k t → ¬ (w = write ∧ k = key ∧ t = r) → s'.Holds w k t
  only : ∀ {w k t}, s'.Holds w k t → (s.Holds w k t ∧ ¬ (w = write ∧ k = key ∧ t = r)) ∨
    (s.retryLock = false ∧ ∃ w', s.waiter k t = some w' ∧ w'.wants w = true)
  waiters : ∀ {k t w'}, s'.waiter k t = some w' →
    s.waiter k t = some w' ∧ (k = key → t ∉ newholders.toList)

/-- A call that releases a lock in one of the two ways. -/
def Releases (release : LockServer → String → Nat → Option (LockServer × StdSet Nat)) (write : Bool) :
    Prop :=
  ∀ (s : LockServer) (key : String) (r : Nat), s.Ok →
    ∃ s' newholders, release s key r = some (s', newholders) ∧ Handed s s' key r write newholders

/-- The lock of one key is released, and may be handed on. -/
theorem handed_setRef {r : Nat} {write : Bool} {newholders : StdSet Nat} (hok : (s.setRef key x).Ok)
    (hnone : s.retryLock = true → newholders = StdSet.empty)
    (hkeeps : ∀ {w t}, (s.lock key).Holds w t → ¬ (w = write ∧ t = r) → x.lock.Holds w t)
    (honly : ∀ {w t}, x.lock.Holds w t → ((s.lock key).Holds w t ∧ ¬ (w = write ∧ t = r)) ∨
      (s.retryLock = false ∧ ∃ w', (s.lock key).waiters t = some w' ∧ w'.wants w = true))
    (hwaiters : ∀ {t w'}, x.lock.waiters t = some w' →
      (s.lock key).waiters t = some w' ∧ t ∉ newholders.toList) :
    Handed s (s.setRef key x) key r write newholders where
  ok := hok
  retry := rfl
  none := hnone
  keeps {w k t} ht hno := by
    by_cases hk : k = key
    · subst hk
      rw [Holds, lock_setRef_self]
      exact hkeeps ht fun hwt => hno ⟨hwt.1, rfl, hwt.2⟩
    · rwa [Holds, lock_setRef_of_ne hk]
  only {w k t} ht := by
    by_cases hk : k = key
    · subst hk
      rw [Holds, lock_setRef_self] at ht
      exact (honly ht).imp (fun h => ⟨h.1, fun hwt => h.2 ⟨hwt.1, hwt.2.2⟩⟩) id
    · rw [Holds, lock_setRef_of_ne hk] at ht
      exact Or.inl ⟨ht, fun hwt => hk hwt.2.1⟩
  waiters {k t w'} ht := by
    by_cases hk : k = key
    · subst hk
      rw [waiter, lock_setRef_self] at ht
      exact ⟨(hwaiters ht).1, fun _ => (hwaiters ht).2⟩
    · rw [waiter, lock_setRef_of_ne hk] at ht
      exact ⟨ht, fun h => (hk h).elim⟩

theorem releases_of_frees {release : LockRef → Nat → Option (LockRef × Bool)} {write : Bool}
    (h : ∀ {x : LockRef}, x.lock.Ok → ∀ r, x.Frees r write (release x r)) :
    Releases (fun s key r => if (s.locks.find? key).isSome then (release (s.ref key) r).bind (s.promote key)
      else some (s, StdSet.empty)) write := by
  intro s key r hs
  by_cases hl : (s.locks.find? key).isSome = true
  · obtain ⟨x, next, hx, hrel, hcount⟩ := h (x := s.ref key) (hs.locks key) r
    simp only [if_pos hl, hx, Option.bind_some, promote]
    have hqueue : x.lock.waiters = (s.lock key).waiters := hrel.queue.2
    by_cases hnext : next = true ∧ s.retryLock = false
    · obtain ⟨x', newholders, hx', hh, hcount'⟩ :=
        LockRef.acquireForWaiters_spec x.lock.waitQ.length StdSet.empty hrel.ok
      rw [if_pos hnext, hx']
      refine ⟨_, newholders, rfl, handed_setRef
        (ok_setRef hs hh.ok fun n hn => hcount' n (hcount n hn)) (by simp [hnext.2])
        (fun ht hno => hh.keeps ((hrel.holds ..).mpr ⟨ht, hno⟩)) (fun ht => ?_) fun ht => ?_⟩
      · rcases hh.only ht with ht | ⟨w', hw', hm⟩
        · exact Or.inl ((hrel.holds ..).mp ht)
        · exact Or.inr ⟨hnext.2, w', hqueue ▸ hw', hm⟩
      · obtain ⟨ht, hnew⟩ := hh.waiters ht
        exact ⟨hqueue ▸ ht, fun hmem => by simpa using hnew hmem⟩
    · rw [if_neg hnext]
      exact ⟨_, StdSet.empty, rfl, handed_setRef (ok_setRef hs hrel.ok hcount) (fun _ => rfl)
        (fun ht hno => (hrel.holds ..).mpr ⟨ht, hno⟩) (fun ht => Or.inl ((hrel.holds ..).mp ht))
        fun ht => ⟨hqueue ▸ ht, by simp⟩⟩
  · simp only [if_neg hl]
    have hnone : s.locks.find? key = Option.none := by simpa using hl
    refine ⟨s, StdSet.empty, rfl, hs, rfl, fun _ => rfl, fun ht _ => ht, fun {w k t} ht => Or.inl ⟨ht, ?_⟩,
      fun ht => ⟨ht, by simp⟩⟩
    rintro ⟨rfl, rfl, rfl⟩
    simp [Holds, lock, hnone, Lock.Holds, Lock.new] at ht

theorem releases_releaseForRead : Releases releaseForRead false :=
  releases_of_frees LockRef.releaseForRead_spec

theorem releases_releaseForWrite : Releases releaseForWrite true :=
  releases_of_frees LockRef.releaseForWrite_spec

/-! ### Calls -/

/-- A call of the lock server. -/
inductive Op where
  | lockForRead (key : String) (requester : Nat)
  | lockForWrite (key : String) (requester : Nat)
  | releaseForRead (key : String) (holder : Nat)
  | releaseForWrite (key : String) (holder : Nat)

/-- What a call leaves. -/
def step (s : LockServer) : Op → Option LockServer
  | .lockForRead key requester => (s.lockForRead key requester).map Prod.snd
  | .lockForWrite key requester => (s.lockForWrite key requester).map Prod.snd
  | .releaseForRead key holder => (s.releaseForRead key holder).map Prod.fst
  | .releaseForWrite key holder => (s.releaseForWrite key holder).map Prod.fst

/-- One call after the other. -/
def run : List Op → LockServer → Option LockServer
  | [], s => some s
  | op :: ops, s => (s.step op).bind (run ops)

theorem step_ok (hs : s.Ok) (op : Op) : ∃ s', s.step op = some s' ∧ s'.Ok := by
  cases op with
  | lockForRead key requester =>
    obtain ⟨b, s', hs', hreq⟩ := acquires_lockForRead s key requester hs
    exact ⟨s', by rw [step, hs']; rfl, hreq.ok⟩
  | lockForWrite key requester =>
    obtain ⟨b, s', hs', hreq⟩ := acquires_lockForWrite s key requester hs
    exact ⟨s', by rw [step, hs']; rfl, hreq.ok⟩
  | releaseForRead key holder =>
    obtain ⟨s', newholders, hs', hh⟩ := releases_releaseForRead s key holder hs
    exact ⟨s', by rw [step, hs']; rfl, hh.ok⟩
  | releaseForWrite key holder =>
    obtain ⟨s', newholders, hs', hh⟩ := releases_releaseForWrite s key holder hs
    exact ⟨s', by rw [step, hs']; rfl, hh.ok⟩

theorem run_ok : ∀ (ops : List Op) {s : LockServer}, s.Ok → ∃ s', run ops s = some s' ∧ s'.Ok
  | [], s, hs => ⟨s, rfl, hs⟩
  | op :: ops, s, hs => by
      obtain ⟨s₁, hs₁, hok₁⟩ := step_ok hs op
      obtain ⟨s₂, hs₂, hok₂⟩ := run_ok ops hok₁
      exact ⟨s₂, by rw [run, hs₁, Option.bind_some, hs₂], hok₂⟩

/-- The representation invariant. -/
structure Represents (s : LockServer) : Prop where
  unlocked : ∀ {key l}, s.locks.find? key = some l → (l.state = .unlocked ↔ l.holders.toList = [])
  one_holder : ∀ {key l}, s.locks.find? key = some l →
    l.state = .lockedForWrite ∨ l.state = .lockedForReadWrite → ∃ t, l.holders.toList = [t]
  nodup : ∀ {key l}, s.locks.find? key = some l → l.waitQ.Nodup
  waiters : ∀ {key l}, s.locks.find? key = some l → ∀ r, r ∈ l.waitQ ↔ (l.waiters r).isSome = true
  readers : s.readers = s.locks.sum fun l => l.holdCount false
  writers : s.writers = s.locks.sum fun l => l.holdCount true

theorem Ok.represents (hs : s.Ok) : s.Represents := by
  have hlock : ∀ {key l}, s.locks.find? key = some l → l.Ok := by
    intro key l hl
    have h := hs.locks key
    rwa [lock, hl] at h
  refine ⟨fun {key l} hl => ?_, fun {key l} hl hw => ?_, fun hl => (hlock hl).queued.nodup,
    fun hl => (hlock hl).queued.waiters, hs.counts false, hs.counts true⟩
  · have hheld := (hlock hl).held
    rw [Lock.Held] at hheld
    cases hst : l.state with
    | unlocked => simpa [hst] using hheld
    | lockedForRead => simpa [hst] using hheld
    | lockedForWrite =>
      simp only [hst] at hheld
      obtain ⟨t, ht⟩ := hheld
      simp [ht]
    | lockedForReadWrite =>
      simp only [hst] at hheld
      obtain ⟨t, ht⟩ := hheld
      simp [ht]
  · exact List.length_eq_one_iff.mp (Lock.size_eq_one (hlock hl) hw)

/-- After any calls, none of which fails, the representation invariant holds. -/
theorem represents_of_run (retryLock : Bool) (ops : List Op) :
    ∃ s, run ops (new retryLock) = some s ∧ s.Represents := by
  obtain ⟨s, hs, hok⟩ := run_ok ops (ok_new retryLock)
  exact ⟨s, hs, hok.represents⟩

end LockServer
end Dsnet.Transaction
