import Dsnet.Lib.AtEach
import Dsnet.NIStore.Locks

/-! What any run of `nistore/lockserver.cc` keeps: locks are held as their states say, the queue of a lock
    holds its waiters, and the counters count the holds. As long as the clock goes on, two things break this.
    Who waits for a lock in one way and asks for it in the other, once it is first in the queue of a lock that
    is free, fails an assertion; and who reads and writes is counted as one reader more for each time that it
    asks to read. -/

namespace Dsnet.NIStore

/-! ### The clock -/

/-- An earlier time. -/
def Timeval.Before (t t' : Timeval) : Prop := t.sec < t'.sec ∨ t.sec = t'.sec ∧ t.usec < t'.usec

theorem Timeval.Before.trans {t t' t'' : Timeval} (h : t.Before t') (h' : t'.Before t'') : t.Before t'' := by
  rcases h with h | ⟨h, hu⟩ <;> rcases h' with h' | ⟨h', hu'⟩
  · exact Or.inl (h.trans h')
  · exact Or.inl (h' ▸ h)
  · exact Or.inl (h ▸ h')
  · exact Or.inr ⟨h.trans h', hu.trans hu'⟩

namespace Clock
variable {clock clock' : Clock}

/-- Each reading is later than the one before. -/
def Increasing (clock : Clock) : Prop := ∀ n, (clock n).Before (clock (n + 1))

/-- Some readings have been made. -/
def Later (clock clock' : Clock) : Prop := ∃ n, ∀ k, clock' k = clock (k + n)

theorem Later.refl (clock : Clock) : Later clock clock := ⟨0, fun _ => rfl⟩

theorem later_tick (clock : Clock) : Later clock clock.tick := ⟨1, fun _ => rfl⟩

theorem Later.trans {clock'' : Clock} (h : Later clock clock') (h' : Later clock' clock'') :
    Later clock clock'' := by
  obtain ⟨n, hn⟩ := h
  obtain ⟨n', hn'⟩ := h'
  exact ⟨n' + n, fun k => by rw [hn', hn, Nat.add_assoc]⟩

theorem Later.increasing (h : Later clock clock') (hclock : clock.Increasing) : clock'.Increasing := by
  obtain ⟨n, hn⟩ := h
  intro k
  rw [hn, hn, show k + 1 + n = k + n + 1 by omega]
  exact hclock _

theorem Increasing.before (hclock : clock.Increasing) : ∀ n, (clock 0).Before (clock (n + 1))
  | 0 => hclock 0
  | n + 1 => (hclock.before n).trans (hclock (n + 1))

end Clock

/-- The time of the waiter is told from a later one. -/
theorem Waiter.checkTimeout_isSome {w : Waiter} {now : Timeval} (h : w.waitTime.Before now) :
    ∃ old, w.checkTimeout now = some old := by
  rw [checkTimeout]
  by_cases hsec : now.sec > w.waitTime.sec
  · exact ⟨true, if_pos hsec⟩
  · obtain ⟨heq, hlt⟩ := h.resolve_left hsec
    exact ⟨_, by rw [if_neg hsec, if_pos ⟨hlt, heq.symm⟩]⟩

/-! ### The queue -/

/-- Those in the queue are the waiters, and came before the readings of the clock to come. -/
structure Queued (clock : Clock) (waitQ : List Nat) (waiters : StdMap Nat Waiter) : Prop where
  nodup : waitQ.Nodup
  mem : ∀ r, r ∈ waitQ ↔ (waiters.find? r).isSome = true
  before : ∀ r w, waiters.find? r = some w → ∀ n, w.waitTime.Before (clock n)

namespace Queued
variable {clock clock' : Clock} {waitQ rest : List Nat} {waiters : StdMap Nat Waiter} {r : Nat}

theorem later (h : Queued clock waitQ waiters) (hl : clock.Later clock') : Queued clock' waitQ waiters where
  nodup := h.nodup
  mem := h.mem
  before r w hw n := by
    obtain ⟨k, hk⟩ := hl
    rw [hk]
    exact h.before r w hw _

/-- The first leaves the queue. -/
theorem tail (h : Queued clock (r :: rest) waiters) : Queued clock rest (waiters.erase r) := by
  obtain ⟨hr, hnd⟩ := List.nodup_cons.mp h.nodup
  refine ⟨hnd, fun t => ?_, fun t w hw => ?_⟩
  · rw [StdMap.find?_erase]
    by_cases ht : t = r
    · subst ht
      simp [hr]
    · rw [if_neg ht, ← h.mem, List.mem_cons, or_iff_right ht]
  · rw [StdMap.find?_erase] at hw
    split_ifs at hw
    exact h.before t w hw

/-- Another comes to wait. -/
theorem push (h : Queued clock waitQ waiters) (hclock : clock.Increasing) (hr : waiters.find? r = none)
    (write : Bool) :
    Queued clock.tick (waitQ ++ [r]) (waiters.insert r { write := write, waitTime := clock 0 }) := by
  have hnot : r ∉ waitQ := by rw [h.mem, hr]; simp
  refine ⟨List.nodup_append.mpr ⟨h.nodup, by simp, ?_⟩, fun t => ?_, fun t w hw n => ?_⟩
  · rintro a ha b hb rfl
    exact hnot (List.mem_singleton.mp hb ▸ ha)
  · rw [List.mem_append, List.mem_singleton, StdMap.find?_insert]
    by_cases ht : t = r
    · subst ht
      simp
    · rw [if_neg ht, h.mem, or_iff_left ht]
  · rw [StdMap.find?_insert] at hw
    split_ifs at hw
    · obtain rfl := Option.some.inj hw
      exact hclock.before n
    · exact h.before t w hw (n + 1)

/-- Old waiters are dropped from the front. -/
theorem prune : ∀ {waitQ : List Nat} {waiters : StdMap Nat Waiter}, Queued clock waitQ waiters →
    ∃ waitQ' waiters', Lock.prune (clock 0) waitQ waiters = some (waitQ', waiters') ∧
      Queued clock waitQ' waiters'
  | [], waiters, h => ⟨[], waiters, rfl, h⟩
  | w :: rest, waiters, h => by
      obtain ⟨waiter, hw⟩ := Option.isSome_iff_exists.mp ((h.mem w).mp (by simp))
      obtain ⟨old, hold⟩ := Waiter.checkTimeout_isSome (h.before w waiter hw 0)
      rw [Lock.prune, hw, Option.bind_some, hold, Option.bind_some]
      cases old with
      | true => exact prune h.tail
      | false => exact ⟨w :: rest, waiters, rfl, h⟩

end Queued

/-! ### One lock -/

namespace Lock
variable {l l' : Lock} {clock clock' : Clock} {r : Nat}

/-- The lock is held as its state says: by nobody, by readers, or by one writer. -/
def Consistent (l : Lock) : Prop :=
  match l.state with
  | .unlocked => l.holders.toList = []
  | .lockedForRead => l.holders.toList ≠ []
  | .lockedForWrite | .lockedForReadWrite => ∃ t, l.holders.toList = [t]

structure Ok (l : Lock) (clock : Clock) : Prop where
  consistent : l.Consistent
  queued : Queued clock l.waitQ l.waiters

/-- How many hold the lock for writing, or for reading. -/
def holdCount (l : Lock) (write : Bool) : Nat :=
  if l.state = .lockedForReadWrite ∨ l.state = (if write then .lockedForWrite else .lockedForRead) then
    l.holders.size
  else 0

/-- Only the queue of the lock differs. -/
def SameHolders (l l' : Lock) : Prop := l'.state = l.state ∧ l'.holders = l.holders

theorem SameHolders.holdCount (h : SameHolders l l') (write : Bool) :
    l'.holdCount write = l.holdCount write := by
  rw [Lock.holdCount, Lock.holdCount, h.1, h.2]

theorem ok_new (clock : Clock) : new.Ok clock :=
  ⟨rfl, List.nodup_nil, fun r => by simp [new, StdMap.find?], fun r w h => by simp [new, StdMap.find?] at h⟩

theorem Ok.later (h : l.Ok clock) (hl : clock.Later clock') : l.Ok clock' := ⟨h.consistent, h.queued.later hl⟩

theorem size_eq_one (h : l.Consistent) (hs : l.state = .lockedForWrite ∨ l.state = .lockedForReadWrite) :
    l.holders.size = 1 := by
  have hone : ∃ t, l.holders.toList = [t] := by rcases hs with hs | hs <;> simpa [Consistent, hs] using h
  exact List.length_eq_one_iff.mpr hone

/-- `r` has to wait. -/
theorem ok_waitForLock (h : l.Ok clock) (hclock : clock.Increasing) (r : Nat) (write : Bool) :
    (l.waitForLock clock r write).1.Ok (l.waitForLock clock r write).2 ∧
      clock.Later (l.waitForLock clock r write).2 ∧ SameHolders l (l.waitForLock clock r write).1 := by
  rw [waitForLock]
  by_cases hr : (l.waiters.find? r).isSome = true
  · rw [if_pos hr]
    exact ⟨h, .refl _, rfl, rfl⟩
  · rw [if_neg hr]
    exact ⟨⟨h.consistent, h.queued.push hclock (by simpa using hr) write⟩, Clock.later_tick _, rfl, rfl⟩

/-- `r` is the first in the queue once old waiters are dropped, and waits for the lock in the other way. -/
def WaitsOtherwise (l : Lock) (clock : Clock) (r : Nat) (write : Bool) : Prop :=
  ∃ rest waiters w, prune (clock 0) l.waitQ l.waiters = some (r :: rest, waiters) ∧
    waiters.find? r = some w ∧ w.write ≠ write

theorem tryAcquireLock_spec (h : l.Ok clock) (hclock : clock.Increasing) {write : Bool}
    (hno : ¬ l.WaitsOtherwise clock r write) :
    ∃ ok l' clock', l.tryAcquireLock clock r write = some (ok, l', clock') ∧ l'.Ok clock' ∧
      clock.Later clock' ∧ SameHolders l l' := by
  rw [tryAcquireLock]
  split_ifs with hq
  · exact ⟨true, l, clock, rfl, h, .refl _, rfl, rfl⟩
  · obtain ⟨waitQ, waiters, hprune, hqueued⟩ := h.queued.prune
    have hlater := Clock.later_tick clock
    rw [hprune, Option.bind_some]
    cases waitQ with
    | nil => exact ⟨true, _, _, rfl, ⟨h.consistent, hqueued.later hlater⟩, hlater, rfl, rfl⟩
    | cons first rest =>
      by_cases hf : first = r
      · subst hf
        obtain ⟨w, hw⟩ := Option.isSome_iff_exists.mp ((hqueued.mem first).mp (by simp))
        have hwrite : w.write = write := by
          by_contra hne
          exact hno ⟨rest, waiters, w, hprune, hw, hne⟩
        refine ⟨true, { l with waitQ := rest, waiters := waiters.erase first }, clock.tick, ?_,
          ⟨h.consistent, hqueued.tail.later hlater⟩, hlater, rfl, rfl⟩
        simp [hw, hwrite]
      · simp only [if_neg hf]
        have hok : Ok { l with waitQ := first :: rest, waiters := waiters } clock.tick :=
          ⟨h.consistent, hqueued.later hlater⟩
        obtain ⟨hok, hlater', hsame⟩ := ok_waitForLock hok (hlater.increasing hclock) r write
        exact ⟨false, _, _, rfl, hok, hlater.trans hlater', hsame⟩

/-- The assertion that fails. -/
theorem tryAcquireLock_of_waitsOtherwise {write : Bool} (h : l.WaitsOtherwise clock r write) :
    l.tryAcquireLock clock r write = none := by
  obtain ⟨rest, waiters, w, hprune, hw, hne⟩ := h
  have hq : l.waitQ ≠ [] := by
    intro hq
    rw [hq, prune] at hprune
    cases hprune
  rw [tryAcquireLock, if_neg hq, hprune, Option.bind_some]
  simp [hw, hne]

theorem isWriteNext_spec (h : l.Ok clock) :
    ∃ next l' clock', l.isWriteNext clock = some (next, l', clock') ∧ l'.Ok clock' ∧
      clock.Later clock' ∧ SameHolders l l' := by
  rw [isWriteNext]
  split_ifs with hq
  · exact ⟨false, l, clock, rfl, h, .refl _, rfl, rfl⟩
  · obtain ⟨waitQ, waiters, hprune, hqueued⟩ := h.queued.prune
    have hlater := Clock.later_tick clock
    rw [hprune, Option.bind_some]
    cases waitQ with
    | nil => exact ⟨false, _, _, rfl, ⟨h.consistent, hqueued.later hlater⟩, hlater, rfl, rfl⟩
    | cons first rest =>
      obtain ⟨w, hw⟩ := Option.isSome_iff_exists.mp ((hqueued.mem first).mp (by simp))
      refine ⟨w.write, { l with waitQ := first :: rest, waiters := waiters }, clock.tick, ?_,
        ⟨h.consistent, hqueued.later hlater⟩, hlater, rfl, rfl⟩
      simp only [hw]
      rfl

/-! ### Requests -/

/-- A request leaves the lock in order, and `r` holds it in that way for the first time if `counted`. -/
structure Requested (l : Lock) (clock : Clock) (l' : Lock) (clock' : Clock) (write counted : Bool) : Prop where
  ok : l'.Ok clock'
  later : clock.Later clock'
  count : ∀ w, l'.holdCount w = l.holdCount w + if counted = true ∧ w = write then 1 else 0

theorem requested_waitForLock (h : l.Ok clock) (hclock : clock.Increasing) (r : Nat) (write write' : Bool) :
    Requested l clock (l.waitForLock clock r write).1 (l.waitForLock clock r write).2 write' false := by
  obtain ⟨hok, hlater, hsame⟩ := ok_waitForLock h hclock r write
  exact ⟨hok, hlater, fun w => by simp [hsame.holdCount]⟩

theorem requested_self (h : l.Ok clock) (write : Bool) : Requested l clock l clock write false :=
  ⟨h, .refl _, fun w => by simp⟩

/-- A free lock is taken, unless it is reserved for another. -/
theorem acquire_requested (h : l.Ok clock) (hclock : clock.Increasing) (hs : l.state = .unlocked) {write : Bool}
    (hno : ¬ l.WaitsOtherwise clock r write) :
    ∃ ok l' clock', l.acquire clock r write = some (ok, l', clock') ∧
      Requested l clock l' clock' write ok := by
  obtain ⟨ok, l₁, clock₁, htry, hok, hlater, hsame⟩ := tryAcquireLock_spec h hclock hno
  have hnil : l.holders.toList = [] := by simpa [Consistent, hs] using h.consistent
  rw [acquire, htry, Option.bind_some]
  cases ok with
  | false => exact ⟨false, l₁, clock₁, rfl, hok, hlater, fun w => by simp [hsame.holdCount]⟩
  | true =>
    have hsize : l₁.holders.size = 0 := by rw [hsame.2]; simp [StdSet.size, hnil]
    have hone : (l₁.holders.insert r).toList = [r] := by
      show StdSet.insertList r l₁.holders.toList = [r]
      rw [hsame.2, hnil]
      rfl
    refine ⟨true, { l₁ with
      state := if write then .lockedForWrite else .lockedForRead, holders := l₁.holders.insert r }, clock₁,
      by simp [hsize], ⟨?_, hok.queued⟩, hlater, fun w => ?_⟩
    · cases write <;> simp [Consistent, hone]
    · cases write <;> cases w <;> simp [holdCount, hs, hone, StdSet.size]

/-- `readers++` in `lockForRead`, for a request with this answer: not when `r` reads together with others
    already. -/
def countsRead (l : Lock) (r : Nat) (ok : Bool) : Bool :=
  match l.state with
  | .lockedForRead => ok && !decide (r ∈ l.holders.toList)
  | .unlocked | .lockedForWrite | .lockedForReadWrite => ok

/-- `writers++` in `lockForWrite`: not when `r` writes already. -/
def countsWrite (l : Lock) (ok : Bool) : Bool :=
  match l.state with
  | .unlocked | .lockedForRead => ok
  | .lockedForWrite | .lockedForReadWrite => false

theorem lockForRead_spec (h : l.Ok clock) (hclock : clock.Increasing)
    (hno : l.state = .unlocked → ¬ l.WaitsOtherwise clock r false)
    (honce : l.state = .lockedForReadWrite → r ∉ l.holders.toList) :
    ∃ ok l' clock', l.lockForRead clock r = some (ok, l', clock') ∧
      Requested l clock l' clock' false (l.countsRead r ok) := by
  have hwaits := requested_waitForLock h hclock r false false
  rw [lockForRead]
  cases hs : l.state with
  | unlocked =>
    obtain ⟨ok, l', clock', hacq, hreq⟩ := acquire_requested h hclock hs (hno hs)
    exact ⟨ok, l', clock', hacq, by rwa [countsRead, hs]⟩
  | lockedForRead =>
    by_cases hr : r ∈ l.holders.toList
    · exact ⟨true, l, clock, if_pos hr, by simpa [countsRead, hs, hr] using requested_self h false⟩
    · obtain ⟨next, l₁, clock₁, hnext, hok, hlater, hsame⟩ := isWriteNext_spec h
      simp only [if_neg hr, hnext, Option.map_some]
      cases next with
      | true =>
        have hreq := requested_waitForLock hok (hlater.increasing hclock) r false false
        refine ⟨false, (l₁.waitForLock clock₁ r false).1, (l₁.waitForLock clock₁ r false).2, rfl, hreq.ok,
          hlater.trans hreq.later, fun w => ?_⟩
        rw [hreq.count, hsame.holdCount]
        simp [countsRead, hs]
      | false =>
        have hmem : r ∈ (l₁.holders.insert r).toList := StdSet.mem_insert.mpr (Or.inl rfl)
        have hsize : (l₁.holders.insert r).size = l.holders.size + 1 := by
          rw [hsame.2]
          exact StdSet.size_insert_of_not_mem hr
        refine ⟨true, { l₁ with holders := l₁.holders.insert r }, clock₁, rfl, ⟨?_, hok.queued⟩, hlater,
          fun w => ?_⟩
        · simp only [Consistent, hsame.1, hs]
          exact List.ne_nil_of_mem hmem
        · cases w <;> simp [holdCount, hsame.1, hs, hsize, countsRead, hr]
  | lockedForWrite =>
    have hsize := size_eq_one h.consistent (Or.inl hs)
    by_cases hr : r ∈ l.holders.toList
    · refine ⟨true, { l with state := .lockedForReadWrite }, clock, if_pos hr, ⟨?_, h.queued⟩, .refl _,
        fun w => ?_⟩
      · exact List.length_eq_one_iff.mp hsize
      · cases w <;> simp [holdCount, hs, hsize, countsRead]
    · simp only [if_neg hr, if_pos hsize]
      exact ⟨false, (l.waitForLock clock r false).1, (l.waitForLock clock r false).2, rfl,
        by simpa [countsRead, hs] using hwaits⟩
  | lockedForReadWrite =>
    have hsize := size_eq_one h.consistent (Or.inr hs)
    simp only [if_neg (honce hs), if_pos hsize]
    exact ⟨false, (l.waitForLock clock r false).1, (l.waitForLock clock r false).2, rfl,
      by simpa [countsRead, hs] using hwaits⟩

theorem lockForWrite_spec (h : l.Ok clock) (hclock : clock.Increasing)
    (hno : l.state = .unlocked → ¬ l.WaitsOtherwise clock r true) :
    ∃ ok l' clock', l.lockForWrite clock r = some (ok, l', clock') ∧
      Requested l clock l' clock' true (l.countsWrite ok) := by
  have hwaits := requested_waitForLock h hclock r true true
  rw [lockForWrite]
  cases hs : l.state with
  | unlocked =>
    obtain ⟨ok, l', clock', hacq, hreq⟩ := acquire_requested h hclock hs (hno hs)
    exact ⟨ok, l', clock', hacq, by rwa [countsWrite, hs]⟩
  | lockedForRead =>
    by_cases hr : l.holders.size = 1 ∧ r ∈ l.holders.toList
    · refine ⟨true, { l with state := .lockedForReadWrite }, clock, if_pos hr, ⟨?_, h.queued⟩, .refl _,
        fun w => ?_⟩
      · exact List.length_eq_one_iff.mp hr.1
      · cases w <;> simp [holdCount, hs, hr.1, countsWrite]
    · exact ⟨false, (l.waitForLock clock r true).1, (l.waitForLock clock r true).2, if_neg hr,
        by simpa [countsWrite, hs] using hwaits⟩
  | lockedForWrite | lockedForReadWrite =>
    have hsize := size_eq_one h.consistent (by simp [hs])
    simp only [if_pos hsize]
    by_cases hr : r ∈ l.holders.toList
    · exact ⟨true, l, clock, if_pos hr, by simpa [countsWrite, hs] using requested_self h true⟩
    · exact ⟨false, (l.waitForLock clock r true).1, (l.waitForLock clock r true).2, if_neg hr,
        by simpa [countsWrite, hs] using hwaits⟩

/-! ### Releases -/

/-- `readers--` in `releaseForRead`. -/
def uncountsRead (l : Lock) (holder : Nat) : Bool :=
  decide (holder ∈ l.holders.toList) && (l.state = .lockedForRead || l.state = .lockedForReadWrite)

/-- `writers--` in `releaseForWrite`. -/
def uncountsWrite (l : Lock) (holder : Nat) : Bool :=
  decide (holder ∈ l.holders.toList) && (l.state = .lockedForWrite || l.state = .lockedForReadWrite)

/-- A release leaves the lock in order, and `r` held it in that way if `uncounted`. -/
structure Released (l l' : Lock) (clock : Clock) (write uncounted : Bool) : Prop where
  ok : l'.Ok clock
  count : ∀ w, l'.holdCount w + (if uncounted = true ∧ w = write then 1 else 0) = l.holdCount w

theorem released_self (h : l.Ok clock) (write : Bool) : Released l l clock write false :=
  ⟨h, fun w => by simp⟩

/-- The one holder of the lock gives it up in one of two ways. -/
theorem released_of_downgrade (h : l.Ok clock) (hs : l.state = .lockedForReadWrite) (write : Bool) :
    Released l { l with state := if write then .lockedForRead else .lockedForWrite } clock write true := by
  have hsize := size_eq_one h.consistent (Or.inr hs)
  have hone := List.length_eq_one_iff.mp hsize
  refine ⟨⟨?_, h.queued⟩, fun w => ?_⟩
  · obtain ⟨t, ht⟩ := hone
    cases write <;> simp [Consistent, ht]
  · cases write <;> cases w <;> simp [holdCount, hs, hsize]

/-- The last holder of a lock that is held in one way gives it up. -/
theorem released_of_last (h : l.Ok clock) {write : Bool}
    (hs : l.state = if write then .lockedForWrite else .lockedForRead) (hr : r ∈ l.holders.toList)
    (hsize : (l.holders.erase r).size = 0) :
    Released l { l with holders := l.holders.erase r, state := .unlocked } clock write true := by
  have hone := StdSet.size_erase_of_mem hr
  have hnil : (l.holders.erase r).toList = [] := List.length_eq_zero_iff.mp hsize
  refine ⟨⟨hnil, h.queued⟩, fun w => ?_⟩
  cases write <;> cases w <;> simp [holdCount, hs, ← hone, hsize]

theorem releaseForRead_released (h : l.Ok clock) (r : Nat) :
    Released l (l.releaseForRead r) clock false (l.uncountsRead r) := by
  rw [releaseForRead, uncountsRead]
  by_cases hr : r ∈ l.holders.toList
  · rw [if_pos hr]
    cases hs : l.state with
    | unlocked | lockedForWrite => simpa [hr] using released_self h false
    | lockedForRead =>
      by_cases hsize : (l.holders.erase r).size = 0
      · simpa [hr, hsize] using released_of_last h (by simp [hs]) hr hsize
      · have hone := StdSet.size_erase_of_mem hr
        simp only [if_neg hsize, hr]
        refine ⟨⟨?_, h.queued⟩, fun w => ?_⟩
        · simp only [Consistent]
          exact fun hnil => hsize (List.length_eq_zero_iff.mpr hnil)
        · cases w <;> simp [holdCount, hs, hone]
    | lockedForReadWrite => simpa [hr] using released_of_downgrade h hs false
  · rw [if_neg hr]
    simpa [hr] using released_self h false

theorem releaseForWrite_released (h : l.Ok clock) (r : Nat) :
    ∃ l', l.releaseForWrite r = some l' ∧ Released l l' clock true (l.uncountsWrite r) := by
  rw [releaseForWrite, uncountsWrite]
  by_cases hr : r ∈ l.holders.toList
  · rw [if_pos hr]
    cases hs : l.state with
    | unlocked | lockedForRead => exact ⟨l, rfl, by simpa [hr] using released_self h true⟩
    | lockedForWrite =>
      have hone := size_eq_one h.consistent (Or.inl hs)
      have hsize : (l.holders.erase r).size = 0 := by
        have := StdSet.size_erase_of_mem hr
        omega
      exact ⟨_, if_pos hsize, by simpa [hr] using released_of_last h (by simp [hs]) hr hsize⟩
    | lockedForReadWrite =>
      exact ⟨_, if_pos (size_eq_one h.consistent (Or.inr hs)), by simpa [hr] using released_of_downgrade h hs true⟩
  · exact ⟨l, if_neg hr, by simpa [hr] using released_self h true⟩

end Lock

/-! ### The lock server with its counters -/

/-- `LockServer` with `readers` and `writers`. -/
structure CountedLockServer where
  server : LockServer
  readers : Nat
  writers : Nat

namespace CountedLockServer
variable {s s' : CountedLockServer} {clock : Clock}

/-- `LockServer()`. -/
def new (clock : Clock) : CountedLockServer := { server := LockServer.new clock, readers := 0, writers := 0 }

/-- `lockForRead`. -/
def lockForRead (s : CountedLockServer) (key : String) (requester : Nat) :
    Option (Bool × CountedLockServer) :=
  (s.server.lockForRead key requester).map fun (ok, server) => (ok, { s with
    server := server
    readers := if (s.server.lock key).countsRead requester ok then s.readers + 1 else s.readers })

/-- `lockForWrite`. -/
def lockForWrite (s : CountedLockServer) (key : String) (requester : Nat) :
    Option (Bool × CountedLockServer) :=
  (s.server.lockForWrite key requester).map fun (ok, server) => (ok, { s with
    server := server
    writers := if (s.server.lock key).countsWrite ok then s.writers + 1 else s.writers })

/-- `releaseForRead`. -/
def releaseForRead (s : CountedLockServer) (key : String) (holder : Nat) : CountedLockServer :=
  { s with
    server := s.server.releaseForRead key holder
    readers := if (s.server.lock key).uncountsRead holder then s.readers - 1 else s.readers }

/-- `releaseForWrite`. -/
def releaseForWrite (s : CountedLockServer) (key : String) (holder : Nat) : Option CountedLockServer :=
  (s.server.releaseForWrite key holder).map fun server => { s with
    server := server
    writers := if (s.server.lock key).uncountsWrite holder then s.writers - 1 else s.writers }

/-- A call of the lock server. -/
inductive Op where
  | lockForRead (key : String) (requester : Nat)
  | lockForWrite (key : String) (requester : Nat)
  | releaseForRead (key : String) (holder : Nat)
  | releaseForWrite (key : String) (holder : Nat)

/-- What a call leaves. -/
def step (s : CountedLockServer) : Op → Option CountedLockServer
  | .lockForRead key requester => (s.lockForRead key requester).map Prod.snd
  | .lockForWrite key requester => (s.lockForWrite key requester).map Prod.snd
  | .releaseForRead key holder => some (s.releaseForRead key holder)
  | .releaseForWrite key holder => s.releaseForWrite key holder

/-- One call after the other. -/
def run : List Op → CountedLockServer → Option CountedLockServer
  | [], s => some s
  | op :: ops, s => (s.step op).bind (run ops)

/-- The representation invariant. -/
structure Represents (s : CountedLockServer) : Prop where
  unlocked : ∀ {key l}, s.server.locks.find? key = some l → l.state = .unlocked → l.holders.toList = []
  one_holder : ∀ {key l}, s.server.locks.find? key = some l →
    l.state = .lockedForWrite ∨ l.state = .lockedForReadWrite → ∃ t, l.holders.toList = [t]
  nodup : ∀ {key l}, s.server.locks.find? key = some l → l.waitQ.Nodup
  waiters : ∀ {key l}, s.server.locks.find? key = some l →
    ∀ r, r ∈ l.waitQ ↔ (l.waiters.find? r).isSome = true
  readers : s.readers = s.server.locks.sum fun l => l.holdCount false
  writers : s.writers = s.server.locks.sum fun l => l.holdCount true

/-- The call asks for a lock in another way than it waits for it, or reads once more while it also writes. -/
def Breaks (s : CountedLockServer) : Op → Prop
  | .lockForRead key r =>
    ((s.server.lock key).state = .unlocked ∧ (s.server.lock key).WaitsOtherwise s.server.clock r false) ∨
      ((s.server.lock key).state = .lockedForReadWrite ∧ r ∈ (s.server.lock key).holders.toList)
  | .lockForWrite key r =>
    (s.server.lock key).state = .unlocked ∧ (s.server.lock key).WaitsOtherwise s.server.clock r true
  | .releaseForRead _ _ | .releaseForWrite _ _ => False

/-- Every lock is in order, and the counters count the holds. -/
structure Ok (s : CountedLockServer) : Prop where
  clock : s.server.clock.Increasing
  locks : ∀ key, (s.server.lock key).Ok s.server.clock
  readers : s.readers = s.server.locks.sum fun l => l.holdCount false
  writers : s.writers = s.server.locks.sum fun l => l.holdCount true

theorem Ok.represents (hs : s.Ok) : s.Represents := by
  have hlock : ∀ {key l}, s.server.locks.find? key = some l → l.Ok s.server.clock := by
    intro key l hl
    have h := hs.locks key
    rwa [LockServer.lock, hl] at h
  refine ⟨fun hl hst => ?_, fun hl hst => List.length_eq_one_iff.mp (Lock.size_eq_one (hlock hl).consistent hst),
    fun hl => (hlock hl).queued.nodup, fun hl => (hlock hl).queued.mem, hs.readers, hs.writers⟩
  simpa [Lock.Consistent, hst] using (hlock hl).consistent

theorem ok_new (hclock : clock.Increasing) : (new clock).Ok :=
  ⟨hclock, fun _ => Lock.ok_new clock, rfl, rfl⟩

/-! ### Calls -/

/-- A lock that is missing is a lock that nobody holds. -/
theorem getD_holdCount (s : CountedLockServer) (key : String) (w : Bool) :
    ((s.server.locks.find? key).map fun l => l.holdCount w).getD 0 = (s.server.lock key).holdCount w := by
  rw [LockServer.lock]
  cases s.server.locks.find? key with
  | some l => rfl
  | none => cases w <;> rfl

/-- A lock is changed, with the counters. -/
theorem ok_setLock (hs : s.Ok) {key : String} {l : Lock} {clock : Clock} {readers writers : Nat}
    (hlater : s.server.clock.Later clock) (hl : l.Ok clock)
    (hr : readers + (s.server.lock key).holdCount false = s.readers + l.holdCount false)
    (hw : writers + (s.server.lock key).holdCount true = s.writers + l.holdCount true) :
    Ok { server := { s.server.setLock key l with clock := clock }, readers := readers, writers := writers } := by
  refine ⟨hlater.increasing hs.clock, fun k => ?_, ?_, ?_⟩
  · show ((s.server.setLock key l).lock k).Ok clock
    rw [LockServer.lock_setLock]
    split_ifs
    · exact hl
    · exact (hs.locks k).later hlater
  · obtain ⟨n, hn, hins⟩ := s.server.locks.exists_sum_insert key fun l => l.holdCount false
    have hsum := hs.readers
    rw [hn, getD_holdCount] at hsum
    exact (by omega : readers = n + l.holdCount false).trans (hins l).symm
  · obtain ⟨n, hn, hins⟩ := s.server.locks.exists_sum_insert key fun l => l.holdCount true
    have hsum := hs.writers
    rw [hn, getD_holdCount] at hsum
    exact (by omega : writers = n + l.holdCount true).trans (hins l).symm

/-- Those that hold a lock are counted. -/
theorem Ok.holdCount_le (hs : s.Ok) (key : String) :
    (s.server.lock key).holdCount false ≤ s.readers ∧ (s.server.lock key).holdCount true ≤ s.writers := by
  rw [hs.readers, hs.writers]
  constructor
  · obtain ⟨n, hn, -⟩ := s.server.locks.exists_sum_insert key fun l => l.holdCount false
    rw [hn, getD_holdCount]
    exact Nat.le_add_left ..
  · obtain ⟨n, hn, -⟩ := s.server.locks.exists_sum_insert key fun l => l.holdCount true
    rw [hn, getD_holdCount]
    exact Nat.le_add_left ..

/-- A lock that is missing is not held. -/
theorem not_mem_of_missing {key : String} (h : ¬ (s.server.locks.find? key).isSome = true) (r : Nat) :
    r ∉ (s.server.lock key).holders.toList := by
  have hnone : s.server.locks.find? key = none := by simpa using h
  simp [LockServer.lock, hnone, Lock.new]

/-- A call that does not break anything leaves all in order. -/
theorem ok_step (hs : s.Ok) {op : Op} (hno : ¬ s.Breaks op) : ∃ s', s.step op = some s' ∧ s'.Ok := by
  cases op with
  | lockForRead key r =>
    obtain ⟨hwaits, hreads⟩ := not_or.mp hno
    obtain ⟨ok, l, clock, hl, hreq⟩ := Lock.lockForRead_spec (hs.locks key) hs.clock
      (fun hst h => hwaits ⟨hst, h⟩) fun hst h => hreads ⟨hst, h⟩
    refine ⟨_, by rw [step, lockForRead, LockServer.lockForRead, hl]; rfl,
      ok_setLock hs hreq.later hreq.ok ?_ (by rw [hreq.count]; simp)⟩
    rw [hreq.count]
    cases (s.server.lock key).countsRead r ok with
    | true => simp only [if_true, and_self]; omega
    | false => simp
  | lockForWrite key r =>
    obtain ⟨ok, l, clock, hl, hreq⟩ := Lock.lockForWrite_spec (hs.locks key) hs.clock
      fun hst h => hno ⟨hst, h⟩
    refine ⟨_, by rw [step, lockForWrite, LockServer.lockForWrite, hl]; rfl,
      ok_setLock hs hreq.later hreq.ok (by rw [hreq.count]; simp) ?_⟩
    rw [hreq.count]
    cases (s.server.lock key).countsWrite ok with
    | true => simp only [if_true, and_self]; omega
    | false => simp
  | releaseForRead key r =>
    refine ⟨_, rfl, ?_⟩
    by_cases hfind : (s.server.locks.find? key).isSome = true
    · have hrel := Lock.releaseForRead_released (hs.locks key) r
      have hread := hrel.count false
      have hle := (hs.holdCount_le key).1
      rw [releaseForRead, LockServer.releaseForRead, if_pos hfind]
      refine ok_setLock hs (.refl _) hrel.ok ?_ (by rw [← hrel.count true]; simp)
      cases hu : (s.server.lock key).uncountsRead r with
      | true =>
        simp only [hu, and_self, if_true] at hread ⊢
        omega
      | false =>
        simp only [hu, Bool.false_eq_true, false_and, if_false, Nat.add_zero] at hread ⊢
        rw [hread]
    · have hno := not_mem_of_missing hfind r
      rw [releaseForRead, LockServer.releaseForRead, if_neg hfind, Lock.uncountsRead]
      simpa [hno] using hs
  | releaseForWrite key r =>
    by_cases hfind : (s.server.locks.find? key).isSome = true
    · obtain ⟨l, hl, hrel⟩ := Lock.releaseForWrite_released (hs.locks key) r
      have hwrite := hrel.count true
      have hle := (hs.holdCount_le key).2
      refine ⟨_, by rw [step, releaseForWrite, LockServer.releaseForWrite, if_pos hfind, hl]; rfl,
        ok_setLock hs (.refl _) hrel.ok (by rw [← hrel.count false]; simp) ?_⟩
      cases hu : (s.server.lock key).uncountsWrite r with
      | true =>
        simp only [hu, and_self, if_true] at hwrite ⊢
        omega
      | false =>
        simp only [hu, Bool.false_eq_true, false_and, if_false, Nat.add_zero] at hwrite ⊢
        rw [hwrite]
    · have hno := not_mem_of_missing hfind r
      refine ⟨s, ?_, hs⟩
      rw [step, releaseForWrite, LockServer.releaseForWrite, if_neg hfind, Lock.uncountsWrite]
      simp [hno]

theorem run_concat : ∀ (ops : List Op) (op : Op) (s : CountedLockServer),
    run (ops ++ [op]) s = (run ops s).bind fun s => s.step op
  | [], op, s => by simp [run]
  | op' :: ops, op, s => by
      rw [List.cons_append, run, run, Option.bind_assoc]
      exact congrArg _ (funext fun s => run_concat ops op s)

/-- The calls before a call have left a state of which `P` holds. -/
def Finds (clock : Clock) (P : CountedLockServer → Op → Prop) (before : List Op) (op : Op) : Prop :=
  ∀ s, run before (new clock) = some s → P s op

/-- The server stands the calls up to this one, and is in order after it. -/
def Stands (clock : Clock) (before : List Op) (op : Op) : Prop :=
  ∃ s, run (before ++ [op]) (new clock) = some s ∧ s.Represents

theorem ok_of_run (hclock : clock.Increasing) {ops : List Op}
    (hno : AtEach (Finds clock fun s op => ¬ s.Breaks op) ops) :
    ∃ s, run ops (new clock) = some s ∧ s.Ok := by
  induction ops using List.reverseRecOn with
  | nil => exact ⟨_, rfl, ok_new hclock⟩
  | append_singleton ops op ih =>
    obtain ⟨hops, hop⟩ := atEach_concat.mp hno
    obtain ⟨s, hs, hok⟩ := ih hops
    obtain ⟨s', hs', hok'⟩ := ok_step hok (hop s hs)
    exact ⟨s', by rw [run_concat, hs, Option.bind_some, hs'], hok'⟩

/-- A call that breaks something fails, or counts a reader too many. -/
theorem Breaks.not_represents {op : Op} (h : s.Breaks op) (hs : s.Represents) (hstep : s.step op = some s') :
    ¬ s'.Represents := by
  intro hrep
  have hfails : ∀ {key : String} {r : Nat} {write : Bool}, (s.server.lock key).WaitsOtherwise s.server.clock r write →
      (s.server.lock key).acquire s.server.clock r write = none := by
    intro key r write hwaits
    rw [Lock.acquire, Lock.tryAcquireLock_of_waitsOtherwise hwaits]
    rfl
  cases op with
  | lockForRead key r =>
    rcases h with ⟨hst, hwaits⟩ | ⟨hst, hr⟩
    · rw [step, lockForRead, LockServer.lockForRead, Lock.lockForRead, hst, hfails hwaits] at hstep
      cases hstep
    · have hsame : (s.server.lock key).lockForRead s.server.clock r =
          some (true, s.server.lock key, s.server.clock) := by
        rw [Lock.lockForRead, hst]
        simp only [if_pos hr, ← hst]
      have hfind : (s.server.locks.find? key).isSome = true := by
        by_contra hnone
        exact not_mem_of_missing hnone r hr
      obtain ⟨l, hl⟩ := Option.isSome_iff_exists.mp hfind
      have hlocks : s.server.locks.insert key (s.server.lock key) = s.server.locks := by
        rw [LockServer.lock, hl]
        exact StdMap.insert_of_find? hl
      have hcounts : (s.server.lock key).countsRead r true = true := by rw [Lock.countsRead, hst]
      rw [step, lockForRead, LockServer.lockForRead, hsame] at hstep
      obtain rfl := Option.some.inj hstep
      have hreaders : (if (s.server.lock key).countsRead r true then s.readers + 1 else s.readers) =
          (s.server.locks.insert key (s.server.lock key)).sum fun l => l.holdCount false := hrep.readers
      rw [if_pos hcounts, hlocks, ← hs.readers] at hreaders
      exact Nat.succ_ne_self _ hreaders
  | lockForWrite key r =>
    rw [step, lockForWrite, LockServer.lockForWrite, Lock.lockForWrite, h.1, hfails h.2] at hstep
    cases hstep
  | releaseForRead key r | releaseForWrite key r => exact h

/-- With a clock that goes on, the server stands a run, and is in order all the time, just when no call asks
    for a lock in another way than it waits for it, and none reads once more while it also writes. -/
theorem stands_iff (hclock : clock.Increasing) (ops : List Op) :
    AtEach (Stands clock) ops ↔ AtEach (Finds clock fun s op => ¬ s.Breaks op) ops := by
  constructor
  · intro h before op rest hops s hs hbreaks
    have hrep : s.Represents := by
      rcases List.eq_nil_or_concat before with rfl | ⟨before', op', rfl⟩
      · obtain rfl : new clock = s := Option.some.inj hs
        exact (ok_new hclock).represents
      · rw [List.concat_eq_append] at hops hs
        obtain ⟨s₁, hs₁, hrep⟩ := h before' op' (op :: rest) (by rw [hops, List.append_assoc]; rfl)
        obtain rfl : s₁ = s := Option.some.inj (hs₁.symm.trans hs)
        exact hrep
    obtain ⟨s', hs', hrep'⟩ := h before op rest hops
    rw [run_concat, hs] at hs'
    exact hbreaks.not_represents hrep hs' hrep'
  · intro h before op rest hops
    obtain ⟨s, hs, hok⟩ := ok_of_run hclock (h.upTo hops)
    exact ⟨s, hs, hok.represents⟩

/-- A clock that goes on by one microsecond. -/
def microseconds : Clock := fun n => ⟨0, n⟩

theorem increasing_microseconds : microseconds.Increasing := fun n => Or.inr ⟨rfl, Nat.lt_succ_self n⟩

theorem stands_iff_release : AtEach (Stands microseconds) [.lockForWrite "k" 1, .releaseForWrite "k" 1] ↔
    AtEach (Finds microseconds fun s op => ¬ s.Breaks op) [.lockForWrite "k" 1, .releaseForWrite "k" 1] :=
  stands_iff increasing_microseconds _

/-- One writes, another waits to write, and asks to read once the lock is free. -/
def changesItsMind : List Op := [.lockForWrite "k" 1, .lockForWrite "k" 2, .releaseForWrite "k" 1]

theorem waiter_asserts : ¬ ∀ (clock : Clock) (ops : List Op), clock.Increasing →
    AtEach (Stands clock) ops := by
  intro hall
  obtain ⟨s, hs, -⟩ := hall microseconds (changesItsMind ++ [.lockForRead "k" 2]) increasing_microseconds
    changesItsMind (.lockForRead "k" 2) [] rfl
  have hnone : (run (changesItsMind ++ [.lockForRead "k" 2]) (new microseconds)).isNone = true := by
    decide +kernel
  rw [hs] at hnone
  cases hnone

end CountedLockServer
end Dsnet.NIStore
