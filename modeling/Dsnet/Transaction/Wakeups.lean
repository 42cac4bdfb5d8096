import Dsnet.Lib.AtEach
import Dsnet.Transaction.Locks

/-! Who is left waiting for a lock that has been released, when a lock goes to those in its queue. A release
    goes on to `TryAcquireForWaiters` when it frees the lock or gives up writing, but not when other readers
    are left: so the last of them is forgotten if it is itself the first in the queue, to write as well.
    And when a freed lock goes to the only waiter, `TryAcquireForWaiters` looks at the front of the queue
    after that has become empty. -/

namespace Dsnet.Transaction

/-! ### The first in the queue -/

namespace Lock
variable {l : Lock} {r : Nat} {w : Waiter} {rest : List Nat}

/-- The state of the lock allows that the waiter gets what it asks for. -/
def CanGrant (l : Lock) (t : Nat) (w : Waiter) : Prop :=
  match l.state with
  | .unlocked => True
  | .lockedForRead => w.write = true → l.holders.toList = [t]
  | .lockedForWrite | .lockedForReadWrite => t ∈ l.holders.toList

/-- The first in the queue waits with reason. -/
def HeadBlocked (l : Lock) : Prop :=
  ∀ t rest w, l.waitQ = t :: rest → l.waiters t = some w → ¬ l.CanGrant t w

theorem headBlocked_of_nil (h : l.waitQ = []) : l.HeadBlocked := by
  intro t rest w hq
  rw [h] at hq
  cases hq

/-- A free lock nobody waits for. -/
theorem HeadBlocked.nil_of_unlocked (h : l.HeadBlocked) (hok : l.Ok) (hs : l.state = .unlocked) :
    l.waitQ = [] := by
  cases hq : l.waitQ with
  | nil => rfl
  | cons t rest =>
    obtain ⟨w, hw⟩ := Option.isSome_iff_exists.mp ((hok.queued.waiters t).mp (by simp [hq]))
    exact (h t rest w hq hw (by simp [CanGrant, hs])).elim

/-- While there are readers, the first in the queue wants to write. -/
theorem HeadBlocked.writes (h : l.HeadBlocked) (hs : l.state = .lockedForRead) (hq : l.waitQ = r :: rest)
    (hw : l.waiters r = some w) : w.write = true := by
  by_contra hno
  exact h r rest w hq hw (by simp [CanGrant, hs, hno])

theorem SameHolders.canGrant {l' : Lock} (h : SameHolders l l') : l'.CanGrant r w ↔ l.CanGrant r w := by
  rw [CanGrant, CanGrant, h.1, h.2]

/-- Whoever waits wants to read or to write. -/
def Wanting (l : Lock) : Prop := ∀ {t w}, l.waiters t = some w → ∃ m, w.wants m = true

theorem Wanting.wait (h : l.Wanting) (r : Nat) (write : Bool) : (l.waitForLock r write).Wanting := by
  intro t w hw
  rw [waitForLock] at hw
  cases hr : l.waiters r with
  | some w' =>
    simp only [hr] at hw
    by_cases ht : t = r
    · subst ht
      refine ⟨write, ?_⟩
      obtain rfl : (if write then { w' with write := true } else { w' with read := true }) = w := by
        simpa using hw
      cases write <;> simp [Waiter.wants]
    · rw [Function.update_of_ne ht] at hw
      exact h hw
  | none =>
    simp only [hr] at hw
    by_cases ht : t = r
    · subst ht
      refine ⟨write, ?_⟩
      obtain rfl : Waiter.of write = w := by simpa using hw
      cases write <;> simp [Waiter.wants, Waiter.of]
    · rw [Function.update_of_ne ht] at hw
      exact h hw

/-- The only holder has the lock in this way alone, and one waits for it. -/
def FreesForOne (l : Lock) (write : Bool) (holder : Nat) : Prop :=
  l.state = stateFor write ∧ l.holders.toList = [holder] ∧ ∃ t, l.waitQ = [t]

theorem SameQueue.wanting {l' : Lock} (h : SameQueue l l') (hl : l.Wanting) : l'.Wanting := by
  intro t w ht
  rw [h.2] at ht
  exact hl ht

theorem Acquired.wanting {l' : Lock} {b write : Bool} (h : Acquired l l' r b write) (hl : l.Wanting) :
    l'.Wanting := by
  cases b with
  | true => exact fun ht => hl ((h.left rfl).waiters ht)
  | false =>
    intro t w ht
    rw [(h.waits rfl).2] at ht
    exact hl.wait r write ht

/-- The first in the queue after `r` has come to wait, or has asked for one way more. -/
theorem head_waitForLock (hok : l.Ok) (write : Bool) {t : Nat}
    (hq : (l.waitForLock r write).waitQ = t :: rest) (hw : (l.waitForLock r write).waiters t = some w) :
    (∃ rest, l.waitQ = t :: rest ∧ l.waiters t = some w) ∨
    t = r ∧ (write = true → w.write = true) ∧ (l.waitQ = [] ∨
      ∃ rest w', l.waitQ = r :: rest ∧ l.waiters r = some w' ∧ (w'.write = true → w.write = true)) := by
  rw [waitForLock] at hq hw
  cases hr : l.waiters r with
  | some w' =>
    simp only [hr] at hq hw
    by_cases ht : t = r
    · subst ht
      obtain rfl : (if write then { w' with write := true } else { w' with read := true }) = w := by
        simpa using hw
      refine Or.inr ⟨rfl, fun h => by simp [h], Or.inr ⟨rest, w', hq, rfl, fun h => ?_⟩⟩
      cases write <;> simp [h]
    · exact Or.inl ⟨rest, hq, by rwa [Function.update_of_ne ht] at hw⟩
  | none =>
    simp only [hr] at hq hw
    have hnot : r ∉ l.waitQ := by simp [hok.queued.waiters, hr]
    cases hnil : l.waitQ with
    | nil =>
      obtain ⟨rfl, _⟩ : r = t ∧ [] = rest := by simpa [hnil] using hq
      obtain rfl : Waiter.of write = w := by simpa using hw
      exact Or.inr ⟨rfl, fun h => h, Or.inl rfl⟩
    | cons first others =>
      obtain ⟨rfl, _⟩ : first = t ∧ others ++ [r] = rest := by simpa [hnil] using hq
      have hne : first ≠ r := by
        rintro rfl
        exact hnot (by simp [hnil])
      exact Or.inl ⟨others, rfl, by rwa [Function.update_of_ne hne] at hw⟩

/-- Who comes to wait for a lock that is held for writing does so with reason. -/
theorem HeadBlocked.wait_write (h : l.HeadBlocked) (hok : l.Ok) (write : Bool)
    (hs : l.state = .lockedForWrite ∨ l.state = .lockedForReadWrite) (hr : r ∉ l.holders.toList) :
    (l.waitForLock r write).HeadBlocked := by
  intro t rest w hq hw hgrant
  rw [(sameHolders_waitForLock l r write).canGrant] at hgrant
  rcases head_waitForLock hok write hq hw with ⟨rest, hq, hw⟩ | ⟨rfl, _⟩
  · exact h t rest w hq hw hgrant
  · rcases hs with hs | hs <;> exact hr (by simpa [CanGrant, hs] using hgrant)

/-- And so does who waits to write when there are other readers. -/
theorem HeadBlocked.wait_upgrade (h : l.HeadBlocked) (hok : l.Ok) (hs : l.state = .lockedForRead)
    (hr : l.holders.toList ≠ [r]) : (l.waitForLock r true).HeadBlocked := by
  intro t rest w hq hw hgrant
  rw [(sameHolders_waitForLock l r true).canGrant] at hgrant
  rcases head_waitForLock hok true hq hw with ⟨rest, hq, hw⟩ | ⟨rfl, hwrite, _⟩
  · exact h t rest w hq hw hgrant
  · exact hr ((by simpa [CanGrant, hs] using hgrant : w.write = true → _) (hwrite rfl))

/-- And who waits to read behind a writer. -/
theorem HeadBlocked.wait_read (h : l.HeadBlocked) (hok : l.Ok) (hs : l.state = .lockedForRead)
    (hnext : l.isWriteNext = some true) : (l.waitForLock r false).HeadBlocked := by
  intro t rest w hq hw hgrant
  rw [(sameHolders_waitForLock l r false).canGrant] at hgrant
  rcases head_waitForLock hok false hq hw with ⟨rest, hq, hw⟩ | ⟨rfl, _, hnil | ⟨rest, w', hq, hw', hwrite⟩⟩
  · exact h t rest w hq hw hgrant
  · simp [isWriteNext, hnil] at hnext
  · have hwr : w'.write = true := by simpa [isWriteNext, hq, hw'] using hnext
    refine h t rest w' hq hw' ?_
    simp only [CanGrant, hs] at hgrant ⊢
    exact fun hwr' => hgrant (hwrite hwr')

end Lock

/-! ### Requests -/

namespace LockRef
open Lock (CanGrant HeadBlocked SameQueue)
variable {x x' : LockRef} {r : Nat} {w : Waiter} {b : Bool} {rest : List Nat}

/-- A free lock that nobody waits for is taken. -/
theorem acquire_of_nil {l : Lock} (hok : l.Ok) (hs : l.state = .unlocked) (hq : l.waitQ = []) (r : Nat)
    (write : Bool) : l.acquire r write = some (true, { l with
      state := if write then .lockedForWrite else .lockedForRead, holders := l.holders.insert r }) := by
  have hnil : l.holders.size = 0 := List.length_eq_zero_iff.mpr (by simpa [Lock.Held, hs] using hok.held)
  rw [Lock.acquire, Lock.tryAcquireLock, hq]
  simp [hnil, hq]

/-- Another state with the same holders blocks the first in the queue, too. -/
theorem headBlocked_of_state {l l' : Lock} (h : l.HeadBlocked) (hq : SameQueue l l')
    (hgrant : ∀ t w rest, l.waitQ = t :: rest → l.waiters t = some w → l'.CanGrant t w → l.CanGrant t w) :
    l'.HeadBlocked := by
  intro t rest w ht hw hg
  rw [hq.1] at ht
  rw [hq.2] at hw
  exact h t rest w ht hw (hgrant t w rest ht hw hg)

/-- `lockForRead` leaves nobody waiting without reason. -/
theorem lockForRead_blocked (hok : x.lock.Ok) (h : x.lock.HeadBlocked)
    (hx : x.lockForRead r = some (b, x')) : x'.lock.HeadBlocked := by
  have hheld : (x.lock.state = .lockedForWrite ∨ x.lock.state = .lockedForReadWrite) →
      (if r ∈ x.lock.holders.toList then
          some (true, { x with
            lock := { x.lock with state := .lockedForReadWrite }
            readers := if x.lock.state = .lockedForWrite then x.readers + 1 else x.readers })
        else if x.lock.holders.size = 1 then
          some (false, { x with lock := x.lock.waitForLock r false })
        else none) = some (b, x') → x'.lock.HeadBlocked := by
    intro hs hx
    by_cases hr : r ∈ x.lock.holders.toList
    · rw [if_pos hr] at hx
      cases hx
      refine headBlocked_of_state h ⟨rfl, rfl⟩ fun t w rest _ _ hg => ?_
      rcases hs with hs | hs <;> simpa [CanGrant, hs] using hg
    · rw [if_neg hr, if_pos (Lock.size_eq_one hok hs)] at hx
      cases hx
      exact h.wait_write hok false hs hr
  rw [lockForRead] at hx
  cases hs : x.lock.state with
  | unlocked =>
    have hq := h.nil_of_unlocked hok hs
    rw [hs, acquire_of_nil hok hs hq] at hx
    cases hx
    exact Lock.headBlocked_of_nil hq
  | lockedForRead =>
    rw [hs] at hx
    simp only at hx
    split_ifs at hx with hr
    · cases hx
      exact h
    · obtain ⟨next, hnext, hx⟩ := Option.map_eq_some_iff.mp hx
      cases next with
      | true =>
        cases hx
        exact h.wait_read hok hs hnext
      | false =>
        cases hx
        -- the first in the queue would want to write
        refine Lock.headBlocked_of_nil (?_ : x.lock.waitQ = [])
        cases hq : x.lock.waitQ with
        | nil => rfl
        | cons t rest =>
          obtain ⟨w, hw⟩ := Option.isSome_iff_exists.mp ((hok.queued.waiters t).mp (by simp [hq]))
          have := h.writes hs hq hw
          simp [Lock.isWriteNext, hq, hw, this] at hnext
  | lockedForWrite =>
    rw [hs] at hx
    exact hheld (Or.inl hs) (by rw [hs]; exact hx)
  | lockedForReadWrite =>
    rw [hs] at hx
    exact hheld (Or.inr hs) (by rw [hs]; exact hx)

/-- Neither does `lockForWrite`. -/
theorem lockForWrite_blocked (hok : x.lock.Ok) (h : x.lock.HeadBlocked)
    (hx : x.lockForWrite r = some (b, x')) : x'.lock.HeadBlocked := by
  have hheld : (x.lock.state = .lockedForWrite ∨ x.lock.state = .lockedForReadWrite) →
      (if x.lock.holders.size = 1 then
        if r ∈ x.lock.holders.toList then some (true, x)
        else some (false, { x with lock := x.lock.waitForLock r true })
      else none) = some (b, x') → x'.lock.HeadBlocked := by
    intro hs hx
    split_ifs at hx with hsize hr
    · cases hx
      exact h
    · cases hx
      exact h.wait_write hok true hs hr
  rw [lockForWrite] at hx
  cases hs : x.lock.state with
  | unlocked =>
    have hq := h.nil_of_unlocked hok hs
    rw [hs, acquire_of_nil hok hs hq] at hx
    cases hx
    exact Lock.headBlocked_of_nil hq
  | lockedForRead =>
    rw [hs] at hx
    simp only at hx
    split_ifs at hx with hr
    · cases hx
      -- the first in the queue is not the one reader, or it would not wait
      obtain ⟨t, ht⟩ := List.length_eq_one_iff.mp hr.1
      refine headBlocked_of_state h ⟨rfl, rfl⟩ fun t' w rest hq hw hg => ?_
      simp only [CanGrant, hs, ht, List.mem_singleton] at hg ⊢
      rw [hg]
      exact fun _ => rfl
    · cases hx
      refine h.wait_upgrade hok hs fun hone => hr ?_
      simp [StdSet.size, hone]
  | lockedForWrite =>
    rw [hs] at hx
    exact hheld (Or.inl hs) hx
  | lockedForReadWrite =>
    rw [hs] at hx
    exact hheld (Or.inr hs) hx

/-! ### Handing a lock on -/

/-- A lock that nobody holds is reserved for the first in the queue. -/
theorem acquire_of_head {l : Lock} (hok : l.Ok) (hs : l.state = .unlocked) (hq : l.waitQ = r :: rest)
    (write : Bool) :
    ∃ l', l.acquire r write = some (true, l') ∧ l'.waitQ = rest ∧ l'.state ≠ .unlocked := by
  have hnil : l.holders.size = 0 := List.length_eq_zero_iff.mpr (by simpa [Lock.Held, hs] using hok.held)
  obtain ⟨l', hl', hsame, -, hrest, -⟩ := Lock.popWaiter_spec hok.queued hq
  have hsize : l'.holders.size = 0 := by rw [hsame.2, hnil]
  rw [Lock.acquire, Lock.tryAcquireLock, hq]
  refine ⟨{ l' with
    state := if write then .lockedForWrite else .lockedForRead, holders := l'.holders.insert r },
    by simp [hl', hsize], hrest, by cases write <;> simp⟩

/-- The first in the queue asks to write, as it waits to. -/
theorem lockForWrite_head (hok : x.lock.Ok) (hq : x.lock.waitQ = r :: rest)
    (hw : x.lock.waiters r = some w) (hwrite : w.write = true) (hx : x.lockForWrite r = some (b, x')) :
    (b = true ↔ x.lock.CanGrant r w) ∧ (b = false → x' = x) := by
  have hstays : ({ x with lock := x.lock.waitForLock r true } : LockRef) = x := by
    rw [Lock.waitForLock_of_waiting hw (show w.wants true = true from hwrite)]
  rw [lockForWrite] at hx
  rw [CanGrant]
  cases hs : x.lock.state with
  | unlocked =>
    obtain ⟨l', hl', -⟩ := acquire_of_head hok hs hq true
    rw [hs, hl'] at hx
    cases hx
    simp
  | lockedForRead =>
    rw [hs] at hx
    simp only at hx
    by_cases hr : x.lock.holders.size = 1 ∧ r ∈ x.lock.holders.toList
    · rw [if_pos hr] at hx
      cases hx
      obtain ⟨t, ht⟩ := List.length_eq_one_iff.mp hr.1
      have hrt : r = t := by simpa [ht] using hr.2
      simp [ht, hrt]
    · rw [if_neg hr, hstays] at hx
      cases hx
      refine ⟨⟨by simp, fun h => (hr ?_).elim⟩, fun _ => rfl⟩
      simp [StdSet.size, h hwrite]
  | lockedForWrite | lockedForReadWrite =>
    rw [hs] at hx
    simp only [Lock.size_eq_one hok (by simp [hs]), if_true] at hx
    by_cases hr : r ∈ x.lock.holders.toList
    · rw [if_pos hr] at hx
      cases hx
      simp [hr]
    · rw [if_neg hr, hstays] at hx
      cases hx
      simp [hr]

/-- The first in the queue asks to read, as it waits to. -/
theorem lockForRead_head (hok : x.lock.Ok) (hq : x.lock.waitQ = r :: rest)
    (hw : x.lock.waiters r = some w) (hread : w.read = true) (hx : x.lockForRead r = some (b, x')) :
    (b = true → x.lock.CanGrant r w ∨ x' = x) ∧ (b = false → x' = x ∧ ¬ x.lock.CanGrant r w) := by
  have hstays : ({ x with lock := x.lock.waitForLock r false } : LockRef) = x := by
    rw [Lock.waitForLock_of_waiting hw (show w.wants false = true from hread)]
  rw [lockForRead] at hx
  rw [CanGrant]
  cases hs : x.lock.state with
  | unlocked =>
    obtain ⟨l', hl', -⟩ := acquire_of_head hok hs hq false
    rw [hs, hl'] at hx
    cases hx
    simp
  | lockedForRead =>
    rw [hs] at hx
    simp only at hx
    by_cases hr : r ∈ x.lock.holders.toList
    · rw [if_pos hr] at hx
      cases hx
      simp
    · rw [if_neg hr, Lock.isWriteNext, hq] at hx
      simp only [hw, Option.map_some, hstays] at hx
      by_cases hwrite : w.write = true
      · rw [if_pos hwrite] at hx
        cases hx
        refine ⟨by simp, fun _ => ⟨rfl, fun h => hr ?_⟩⟩
        simp [h hwrite]
      · rw [if_neg hwrite] at hx
        cases hx
        simp [hwrite]
  | lockedForWrite | lockedForReadWrite =>
    rw [hs] at hx
    simp only [Lock.size_eq_one hok (by simp [hs]), if_true, hstays] at hx
    by_cases hr : r ∈ x.lock.holders.toList
    · rw [if_pos hr] at hx
      cases hx
      simp [hr]
    · rw [if_neg hr] at hx
      cases hx
      simp [hr]

/-- When the first in the queue does not get what it wants, nothing changes, and it waits with reason. -/
theorem acquireForWaiter_head (hok : x.lock.Ok) (hq : x.lock.waitQ = r :: rest)
    (hw : x.lock.waiters r = some w) (hx : x.acquireForWaiter r w = some (false, x')) :
    x' = x ∧ ¬ x.lock.CanGrant r w := by
  obtain ⟨⟨b₁, x₁⟩, hx₁, hx⟩ := Option.bind_eq_some_iff.mp hx
  obtain ⟨⟨b₂, x₂⟩, hx₂, heq⟩ := Option.map_eq_some_iff.mp hx
  obtain ⟨hb, rfl⟩ : (b₁ && b₂) = false ∧ x₂ = x' := by simpa using heq
  by_cases hwrite : w.write = true
  · rw [if_pos hwrite] at hx₁
    obtain ⟨hgrant, hsame⟩ := lockForWrite_head hok hq hw hwrite hx₁
    cases b₁ with
    | true =>
      -- it writes, and so it reads
      obtain rfl : b₂ = false := by simpa using hb
      by_cases hread : w.read = true
      · obtain ⟨_, _, hx₁', hacq, -⟩ := lockForWrite_spec hok r
        rw [hx₁] at hx₁'
        cases hx₁'
        obtain ⟨_, hx₂', -⟩ :=
          lockForRead_of_holder hacq.ok ((hacq.holds true r).mpr (Or.inr ⟨rfl, rfl, rfl⟩)).1
        rw [if_pos hread, hx₂'] at hx₂
        cases hx₂
      · rw [if_neg hread] at hx₂
        cases hx₂
    | false =>
      obtain rfl := hsame rfl
      have hno : ¬ x₁.lock.CanGrant r w := fun h => by simpa using hgrant.mpr h
      refine ⟨?_, hno⟩
      by_cases hread : w.read = true
      · rw [if_pos hread] at hx₂
        obtain ⟨htrue, hfalse⟩ := lockForRead_head hok hq hw hread hx₂
        cases b₂ with
        | true => exact (htrue rfl).resolve_left hno
        | false => exact (hfalse rfl).1
      · rw [if_neg hread] at hx₂
        cases hx₂
        rfl
  · rw [if_neg hwrite] at hx₁
    cases hx₁
    obtain rfl : b₂ = false := by simpa using hb
    by_cases hread : w.read = true
    · rw [if_pos hread] at hx₂
      exact (lockForRead_head hok hq hw hread hx₂).2 rfl
    · rw [if_neg hread] at hx₂
      cases hx₂

/-- `TryAcquireForWaiters` goes on until the first in the queue waits with reason. -/
theorem acquireForWaiters_blocked : ∀ (n : Nat) {x x' : LockRef} {newholders newholders' : StdSet Nat},
    x.lock.Ok → x.lock.waitQ.length ≤ n →
    acquireForWaiters n x newholders = some (x', newholders') → x'.lock.HeadBlocked
  | 0, x, x', newholders, newholders', _, hn, hx => by
      cases hx
      exact Lock.headBlocked_of_nil (List.length_eq_zero_iff.mp (Nat.le_zero.mp hn))
  | n + 1, x, x', newholders, newholders', hok, hn, hx => by
      rw [acquireForWaiters] at hx
      cases hq : x.lock.waitQ with
      | nil =>
        rw [hq] at hx
        cases hx
        exact Lock.headBlocked_of_nil hq
      | cons r rest =>
        obtain ⟨w, b, x₁, x₂, hw, hx₁, -, -, hx₂, hserved, -, hrest, -⟩ := round_spec hok hq
        simp only [hq, hw, hx₁, Option.bind_some] at hx
        cases b with
        | false =>
          cases hx
          obtain ⟨rfl, hno⟩ := acquireForWaiter_head hok hq hw hx₁
          intro t rest' w' hq' hw'
          obtain ⟨rfl, rfl⟩ : r = t ∧ rest = rest' := by simpa [hq] using hq'
          obtain rfl : w = w' := by simpa [hw] using hw'
          exact hno
        | true =>
          simp only [hx₂, if_true, Option.bind_some] at hx
          refine acquireForWaiters_blocked n hserved.ok ?_ hx
          rw [hq, List.length_cons] at hn
          rw [hrest]
          omega

/-! ### Releases -/

/-- A release of the lock for reading leaves one reader, which is the first in the queue. -/
def StrandsUpgrade (x : LockRef) (holder : Nat) : Prop :=
  x.lock.state = .lockedForRead ∧ holder ∈ x.lock.holders.toList ∧
    ∃ t rest, (x.lock.holders.erase holder).toList = [t] ∧ x.lock.waitQ = t :: rest

/-- `releaseForRead`, when it does not go on to `TryAcquireForWaiters`. -/
theorem releaseForRead_blocked (h : x.lock.HeadBlocked) (hno : ¬ x.StrandsUpgrade r)
    (hx : x.releaseForRead r = some (x', false)) : x'.lock.HeadBlocked := by
  rw [releaseForRead] at hx
  by_cases hr : r ∈ x.lock.holders.toList
  · rw [if_pos hr] at hx
    cases hs : x.lock.state with
    | unlocked | lockedForWrite =>
      rw [hs] at hx
      cases hx
      exact h
    | lockedForReadWrite =>
      rw [hs] at hx
      cases hx
      refine headBlocked_of_state h ⟨rfl, rfl⟩ fun t w rest _ _ hg => ?_
      simpa [CanGrant, hs] using hg
    | lockedForRead =>
      rw [hs] at hx
      by_cases hsize : (x.lock.holders.erase r).size = 0
      · simp only [if_pos hsize] at hx
        cases hx
      simp only [if_neg hsize] at hx
      cases hx
      refine headBlocked_of_state h ⟨rfl, rfl⟩ fun t w rest hq hw hg => ?_
      simp only [CanGrant, hs] at hg
      exact (hno ⟨hs, hr, t, rest, hg (h.writes hs hq hw), hq⟩).elim
  · rw [if_neg hr] at hx
    cases hx
    exact h

/-- `releaseForWrite` goes on to `TryAcquireForWaiters` whenever it changes anything. -/
theorem releaseForWrite_same (hx : x.releaseForWrite r = some (x', false)) : x' = x := by
  rw [releaseForWrite] at hx
  by_cases hr : r ∈ x.lock.holders.toList
  · rw [if_pos hr] at hx
    cases hs : x.lock.state with
    | unlocked | lockedForRead =>
      rw [hs] at hx
      cases hx
      rfl
    | lockedForWrite | lockedForReadWrite =>
      rw [hs] at hx
      simp only at hx
      split_ifs at hx
      cases hx
  · rw [if_neg hr] at hx
    cases hx
    rfl

/-- The one reader that is left could write. -/
theorem StrandsUpgrade.not_blocked (hstrands : x.StrandsUpgrade r) (hok : x.lock.Ok)
    (hx : x.releaseForRead r = some (x', b)) : b = false ∧ ¬ x'.lock.HeadBlocked := by
  obtain ⟨hs, hr, t, rest, hone, hq⟩ := hstrands
  have hsize : (x.lock.holders.erase r).size ≠ 0 := by simp [StdSet.size, hone]
  rw [releaseForRead, if_pos hr, hs] at hx
  simp only [if_neg hsize] at hx
  cases hx
  obtain ⟨w, hw⟩ := Option.isSome_iff_exists.mp ((hok.queued.waiters t).mp (by simp [hq]))
  exact ⟨rfl, fun hblocked => hblocked t rest w hq hw (by simp [CanGrant, hs, hone])⟩

/-! ### The front of the queue -/

/-- Does `TryAcquireForWaiters` look at the front of the queue when that is empty? The loop itself does not,
    but a waiter that has acquired the lock may have left the queue by then. -/
def looksAtEmpty : Nat → LockRef → Bool
  | 0, _ => false
  | n + 1, x =>
    match x.lock.waitQ with
    | [] => false
    | waiter :: _ =>
      match (x.lock.waiters waiter).bind (x.acquireForWaiter waiter) with
      | some (true, x) =>
        match x.lock.waitQ with
        | [] => true
        | _ :: _ => (x.dequeue waiter).any (looksAtEmpty n)
      | _ => false

/-- A lock that is held is shared, or its queue stays as it is. -/
theorem lockForRead_locked (hs : x.lock.state ≠ .unlocked) (hx : x.lockForRead r = some (true, x')) :
    x'.lock.state ≠ .unlocked ∧ x'.lock.waitQ = x.lock.waitQ := by
  rw [lockForRead] at hx
  cases hst : x.lock.state with
  | unlocked => exact (hs hst).elim
  | lockedForRead =>
    rw [hst] at hx
    simp only at hx
    by_cases hr : r ∈ x.lock.holders.toList
    · rw [if_pos hr] at hx
      cases hx
      exact ⟨hs, rfl⟩
    · rw [if_neg hr] at hx
      obtain ⟨next, -, hx⟩ := Option.map_eq_some_iff.mp hx
      cases next <;> cases hx
      exact ⟨hs, rfl⟩
  | lockedForWrite | lockedForReadWrite =>
    rw [hst] at hx
    simp only at hx
    by_cases hr : r ∈ x.lock.holders.toList
    · rw [if_pos hr] at hx
      cases hx
      exact ⟨by simp, rfl⟩
    · rw [if_neg hr] at hx
      split_ifs at hx
      cases hx

theorem lockForWrite_locked (hs : x.lock.state ≠ .unlocked) (hx : x.lockForWrite r = some (true, x')) :
    x'.lock.state ≠ .unlocked ∧ x'.lock.waitQ = x.lock.waitQ := by
  rw [lockForWrite] at hx
  cases hst : x.lock.state with
  | unlocked => exact (hs hst).elim
  | lockedForRead =>
    rw [hst] at hx
    simp only at hx
    split_ifs at hx <;> cases hx
    exact ⟨by simp, rfl⟩
  | lockedForWrite | lockedForReadWrite =>
    rw [hst] at hx
    simp only at hx
    split_ifs at hx <;> cases hx
    exact ⟨hs, rfl⟩

/-- The first in the queue leaves it when it takes a free lock. -/
theorem lockForRead_unlocked (hok : x.lock.Ok) (hs : x.lock.state = .unlocked)
    (hq : x.lock.waitQ = r :: rest) (hx : x.lockForRead r = some (b, x')) :
    x'.lock.state ≠ .unlocked ∧ x'.lock.waitQ = rest := by
  obtain ⟨l', hl', hrest, hstate⟩ := acquire_of_head hok hs hq false
  rw [lockForRead, hs, hl'] at hx
  cases hx
  exact ⟨hstate, hrest⟩

theorem lockForWrite_unlocked (hok : x.lock.Ok) (hs : x.lock.state = .unlocked)
    (hq : x.lock.waitQ = r :: rest) (hx : x.lockForWrite r = some (b, x')) :
    x'.lock.state ≠ .unlocked ∧ x'.lock.waitQ = rest := by
  obtain ⟨l', hl', hrest, hstate⟩ := acquire_of_head hok hs hq true
  rw [lockForWrite, hs, hl'] at hx
  cases hx
  exact ⟨hstate, hrest⟩

/-- What is left of the queue once the first in it has acquired the lock. -/
theorem acquireForWaiter_queue (hok : x.lock.Ok) (hq : x.lock.waitQ = r :: rest)
    (hwants : ∃ m, w.wants m = true) (hx : x.acquireForWaiter r w = some (true, x')) :
    x'.lock.state ≠ .unlocked ∧
      x'.lock.waitQ = if x.lock.state = .unlocked then rest else x.lock.waitQ := by
  obtain ⟨⟨b₁, x₁⟩, hx₁, hx⟩ := Option.bind_eq_some_iff.mp hx
  obtain ⟨⟨b₂, x₂⟩, hx₂, heq⟩ := Option.map_eq_some_iff.mp hx
  obtain ⟨⟨rfl, rfl⟩, rfl⟩ : (b₁ = true ∧ b₂ = true) ∧ x₂ = x' := by simpa using heq
  -- the first of the two requests takes it off the queue, if the lock is free
  have hfirst : ∀ {y : LockRef}, (y.lock.state ≠ .unlocked ∧ y.lock.waitQ = rest) ∧
      x.lock.state = .unlocked ∨ (y.lock.state ≠ .unlocked ∧ y.lock.waitQ = x.lock.waitQ) ∧
      x.lock.state ≠ .unlocked → y.lock.state ≠ .unlocked ∧
        y.lock.waitQ = if x.lock.state = .unlocked then rest else x.lock.waitQ := by
    rintro y (⟨h, hs⟩ | ⟨h, hs⟩)
    · rwa [if_pos hs]
    · rwa [if_neg hs]
  by_cases hwrite : w.write = true
  · rw [if_pos hwrite] at hx₁
    have h₁ := hfirst <| (em (x.lock.state = .unlocked)).imp
      (fun hs => ⟨lockForWrite_unlocked hok hs hq hx₁, hs⟩) fun hs => ⟨lockForWrite_locked hs hx₁, hs⟩
    by_cases hread : w.read = true
    · rw [if_pos hread] at hx₂
      obtain ⟨hs₂, hq₂⟩ := lockForRead_locked h₁.1 hx₂
      exact ⟨hs₂, hq₂.trans h₁.2⟩
    · rw [if_neg hread] at hx₂
      cases hx₂
      exact h₁
  · have hread : w.read = true := by
      obtain ⟨m, hm⟩ := hwants
      cases m with
      | true => exact (hwrite hm).elim
      | false => exact hm
    rw [if_neg hwrite] at hx₁
    cases hx₁
    rw [if_pos hread] at hx₂
    exact hfirst <| (em (x.lock.state = .unlocked)).imp
      (fun hs => ⟨lockForRead_unlocked hok hs hq hx₂, hs⟩) fun hs => ⟨lockForRead_locked hs hx₂, hs⟩

theorem wanting_acquireForWaiters {n : Nat} {newholders newholders' : StdSet Nat} (hok : x.lock.Ok)
    (h : x.lock.Wanting) (hx : acquireForWaiters n x newholders = some (x', newholders')) :
    x'.lock.Wanting := by
  obtain ⟨_, _, hx₁, hhanded, -⟩ := acquireForWaiters_spec n newholders hok
  rw [hx] at hx₁
  cases hx₁
  exact fun ht => h (hhanded.waiters ht).1

theorem dequeue_state (hx : x.dequeue r = some x') : x'.lock.state = x.lock.state := by
  rw [dequeue] at hx
  split at hx
  · cases hx
    rfl
  · split_ifs at hx
    · obtain ⟨l, hl, rfl⟩ := Option.map_eq_some_iff.mp hx
      obtain ⟨_, -, rfl⟩ := Option.map_eq_some_iff.mp hl
      rfl
    · cases hx
      rfl

/-- `TryAcquireForWaiters` looks at an empty queue just when a free lock goes to the only waiter. -/
theorem looksAtEmpty_iff : ∀ (n : Nat) {x : LockRef}, x.lock.Ok → x.lock.Wanting →
    x.lock.waitQ.length ≤ n →
    (looksAtEmpty n x = true ↔ x.lock.state = .unlocked ∧ ∃ t, x.lock.waitQ = [t])
  | 0, x, _, _, hn => by
      have hnil : x.lock.waitQ = [] := List.length_eq_zero_iff.mp (Nat.le_zero.mp hn)
      simp [looksAtEmpty, hnil]
  | n + 1, x, hok, hwant, hn => by
      rw [looksAtEmpty]
      cases hq : x.lock.waitQ with
      | nil => simp
      | cons r rest =>
        obtain ⟨w, b, x₁, x₂, hw, hx₁, -, -, hx₂, hserved, -, hrest, hwaiters⟩ := round_spec hok hq
        simp only [hw, hx₁, Option.bind_some]
        have hlen : rest.length ≤ n := by
          rw [hq, List.length_cons] at hn
          omega
        cases b with
        | false =>
          have hno := (acquireForWaiter_head hok hq hw hx₁).2
          simp only [Bool.false_eq_true, false_iff, not_and]
          exact fun hs => (hno (by simp [CanGrant, hs])).elim
        | true =>
          obtain ⟨hs₁, hq₁⟩ := acquireForWaiter_queue hok hq (hwant hw) hx₁
          have hs₂ : x₂.lock.state ≠ .unlocked := by rwa [dequeue_state hx₂]
          have hwant₂ : x₂.lock.Wanting := fun ht => hwant (hserved.left.waiters ht)
          have hnext := looksAtEmpty_iff n hserved.ok hwant₂ (by rwa [hrest])
          simp only [hs₂, false_and, iff_false, Bool.not_eq_true] at hnext
          dsimp only
          by_cases hs : x.lock.state = .unlocked
          · rw [if_pos hs] at hq₁
            rw [hq₁]
            cases rest <;> simp [hs, hx₂, hnext]
          · rw [if_neg hs, hq] at hq₁
            simp [hq₁, hs, hx₂, hnext]

/-- When the holders become none, there was one. -/
theorem holders_of_erase (hr : r ∈ x.lock.holders.toList) (h : (x.lock.holders.erase r).size = 0) :
    x.lock.holders.toList = [r] := by
  have hsize := StdSet.size_erase_of_mem hr
  obtain ⟨t, ht⟩ := List.length_eq_one_iff.mp (show x.lock.holders.toList.length = 1 by
    rw [h] at hsize
    exact hsize.symm)
  rw [ht] at hr ⊢
  rw [List.mem_singleton.mp hr]

/-- A lock is freed by its only holder. -/
theorem releaseForRead_frees (hx : x.releaseForRead r = some (x', true)) :
    x.lock.state = Lock.stateFor false ∧ x.lock.holders.toList = [r] := by
  rw [releaseForRead] at hx
  by_cases hr : r ∈ x.lock.holders.toList
  · rw [if_pos hr] at hx
    cases hs : x.lock.state with
    | unlocked | lockedForWrite | lockedForReadWrite =>
      rw [hs] at hx
      cases hx
    | lockedForRead =>
      rw [hs] at hx
      by_cases hsize : (x.lock.holders.erase r).size = 0
      · exact ⟨rfl, holders_of_erase hr hsize⟩
      · simp only [if_neg hsize] at hx
        cases hx
  · rw [if_neg hr] at hx
    cases hx

theorem releaseForWrite_frees (hx : x.releaseForWrite r = some (x', true))
    (hs' : x'.lock.state = .unlocked) :
    x.lock.state = Lock.stateFor true ∧ x.lock.holders.toList = [r] := by
  rw [releaseForWrite] at hx
  by_cases hr : r ∈ x.lock.holders.toList
  · rw [if_pos hr] at hx
    cases hs : x.lock.state with
    | unlocked | lockedForRead =>
      rw [hs] at hx
      cases hx
    | lockedForWrite =>
      rw [hs] at hx
      by_cases hsize : (x.lock.holders.erase r).size = 0
      · exact ⟨rfl, holders_of_erase hr hsize⟩
      · simp only [if_neg hsize] at hx
        cases hx
    | lockedForReadWrite =>
      -- it is still held for reading
      rw [hs] at hx
      simp only at hx
      split_ifs at hx
      cases hx
      cases hs'
  · rw [if_neg hr] at hx
    cases hx

/-- And the release goes on to `TryAcquireForWaiters`. -/
theorem releaseForRead_goes (hs : x.lock.state = Lock.stateFor false) (hr : x.lock.holders.toList = [r]) :
    ∃ x', x.releaseForRead r = some (x', true) ∧ x'.lock.state = .unlocked := by
  have hsize : (x.lock.holders.erase r).size = 0 := by simp [StdSet.size, StdSet.erase, hr]
  have hs : x.lock.state = .lockedForRead := hs
  rw [releaseForRead, if_pos (by simp [hr]), hs]
  simp only [if_pos hsize]
  exact ⟨_, rfl, rfl⟩

theorem releaseForWrite_goes (hs : x.lock.state = Lock.stateFor true) (hr : x.lock.holders.toList = [r]) :
    ∃ x', x.releaseForWrite r = some (x', true) ∧ x'.lock.state = .unlocked := by
  have hsize : (x.lock.holders.erase r).size = 0 := by simp [StdSet.size, StdSet.erase, hr]
  have hs : x.lock.state = .lockedForWrite := hs
  rw [releaseForWrite, if_pos (by simp [hr]), hs]
  simp only [if_pos hsize]
  exact ⟨_, rfl, rfl⟩

end LockRef

/-! ### Runs of the lock server -/

namespace LockServer
variable {s s' : LockServer} {op : Op} {k : String}

/-- The key a call is about. -/
def Op.key : Op → String
  | .lockForRead key _ | .lockForWrite key _ | .releaseForRead key _ | .releaseForWrite key _ => key

/-- Is the call a release? -/
def Op.releases : Op → Bool
  | .lockForRead _ _ | .lockForWrite _ _ => false
  | .releaseForRead _ _ | .releaseForWrite _ _ => true

/-- What a call has made of its lock. -/
inductive Leaves (s : LockServer) : Op → LockRef → Prop
  | lockForRead {key : String} {r : Nat} {b : Bool} {x : LockRef} :
      (s.ref key).lockForRead r = some (b, x) → Leaves s (.lockForRead key r) x
  | lockForWrite {key : String} {r : Nat} {b : Bool} {x : LockRef} :
      (s.ref key).lockForWrite r = some (b, x) → Leaves s (.lockForWrite key r) x
  | releaseForRead {key : String} {r : Nat} {x : LockRef} :
      (s.ref key).releaseForRead r = some (x, false) → Leaves s (.releaseForRead key r) x
  | releaseForWrite {key : String} {r : Nat} {x : LockRef} :
      (s.ref key).releaseForWrite r = some (x, false) → Leaves s (.releaseForWrite key r) x
  | promoteReader {key : String} {r : Nat} {x x' : LockRef} {newholders : StdSet Nat} :
      (s.ref key).releaseForRead r = some (x, true) →
      x.acquireForWaiters x.lock.waitQ.length StdSet.empty = some (x', newholders) →
      Leaves s (.releaseForRead key r) x'
  | promoteWriter {key : String} {r : Nat} {x x' : LockRef} {newholders : StdSet Nat} :
      (s.ref key).releaseForWrite r = some (x, true) →
      x.acquireForWaiters x.lock.waitQ.length StdSet.empty = some (x', newholders) →
      Leaves s (.releaseForWrite key r) x'

/-- A release goes on to `TryAcquireForWaiters` when the lock was freed, or given up for writing. -/
theorem promote_of_waiting {y : LockRef × Bool} {newholders : StdSet Nat} (hretry : s.retryLock = false)
    (h : s.promote k y = some (s', newholders)) :
    (y.2 = false ∧ s' = s.setRef k y.1) ∨ (y.2 = true ∧ ∃ x,
      y.1.acquireForWaiters y.1.lock.waitQ.length StdSet.empty = some (x, newholders) ∧
        s' = s.setRef k x) := by
  rw [promote] at h
  cases hy : y.2 with
  | false =>
    rw [hy] at h
    cases h
    exact Or.inl ⟨rfl, rfl⟩
  | true =>
    rw [if_pos ⟨hy, hretry⟩] at h
    obtain ⟨⟨x, newholders⟩, hx, heq⟩ := Option.map_eq_some_iff.mp h
    cases heq
    exact Or.inr ⟨rfl, x, hx, rfl⟩

/-- A call leaves the other locks alone. -/
theorem step_cases (hretry : s.retryLock = false) (h : s.step op = some s') :
    s' = s ∨ ∃ x, s' = s.setRef op.key x ∧ s.Leaves op x := by
  cases op with
  | lockForRead key r =>
    obtain ⟨⟨b, s₁⟩, h₁, rfl⟩ := Option.map_eq_some_iff.mp h
    obtain ⟨⟨b, x⟩, hx, heq⟩ := Option.map_eq_some_iff.mp h₁
    cases heq
    exact Or.inr ⟨x, rfl, .lockForRead hx⟩
  | lockForWrite key r =>
    obtain ⟨⟨b, s₁⟩, h₁, rfl⟩ := Option.map_eq_some_iff.mp h
    obtain ⟨⟨b, x⟩, hx, heq⟩ := Option.map_eq_some_iff.mp h₁
    cases heq
    exact Or.inr ⟨x, rfl, .lockForWrite hx⟩
  | releaseForRead key r =>
    obtain ⟨⟨s₁, newholders⟩, h₁, rfl⟩ := Option.map_eq_some_iff.mp h
    rw [LockServer.releaseForRead] at h₁
    split_ifs at h₁
    · obtain ⟨⟨x, next⟩, hx, h₂⟩ := Option.bind_eq_some_iff.mp h₁
      rcases promote_of_waiting hretry h₂ with ⟨rfl, rfl⟩ | ⟨rfl, x', hx', rfl⟩
      · exact Or.inr ⟨x, rfl, .releaseForRead hx⟩
      · exact Or.inr ⟨x', rfl, .promoteReader hx hx'⟩
    · cases h₁
      exact Or.inl rfl
  | releaseForWrite key r =>
    obtain ⟨⟨s₁, newholders⟩, h₁, rfl⟩ := Option.map_eq_some_iff.mp h
    rw [LockServer.releaseForWrite] at h₁
    split_ifs at h₁
    · obtain ⟨⟨x, next⟩, hx, h₂⟩ := Option.bind_eq_some_iff.mp h₁
      rcases promote_of_waiting hretry h₂ with ⟨rfl, rfl⟩ | ⟨rfl, x', hx', rfl⟩
      · exact Or.inr ⟨x, rfl, .releaseForWrite hx⟩
      · exact Or.inr ⟨x', rfl, .promoteWriter hx hx'⟩
    · cases h₁
      exact Or.inl rfl

theorem retryLock_step (hretry : s.retryLock = false) (h : s.step op = some s') : s'.retryLock = false := by
  rcases step_cases hretry h with rfl | ⟨x, rfl, -⟩ <;> exact hretry

/-- What each call keeps of its lock, it keeps of all of them. -/
theorem lock_step {P : Lock → Prop} (hretry : s.retryLock = false) (hs : ∀ key, P (s.lock key))
    (hop : ∀ {x}, s.Leaves op x → P x.lock) (h : s.step op = some s') (key : String) : P (s'.lock key) := by
  rcases step_cases hretry h with rfl | ⟨x, rfl, hx⟩
  · exact hs key
  · by_cases hk : key = op.key
    · subst hk
      rw [lock_setRef_self]
      exact hop hx
    · rw [lock_setRef_of_ne hk]
      exact hs key

theorem run_concat : ∀ (ops : List Op) (op : Op) (s : LockServer),
    run (ops ++ [op]) s = (run ops s).bind fun s => s.step op
  | [], op, s => by simp [run]
  | op' :: ops, op, s => by
      rw [List.cons_append, run, run, Option.bind_assoc]
      exact congrArg _ (funext fun s => run_concat ops op s)

/-- The calls before a call have left a state of which `P` holds, when waiters are to be served. -/
def Finds (P : LockServer → Op → Prop) (before : List Op) (op : Op) : Prop :=
  ∀ s, run before (new false) = some s → P s op

theorem retryLock_run : ∀ {ops : List Op} {s : LockServer}, run ops (new false) = some s →
    s.retryLock = false := by
  intro ops
  induction ops using List.reverseRecOn with
  | nil =>
    intro s h
    cases h
    rfl
  | append_singleton ops op ih =>
    intro s h
    rw [run_concat] at h
    obtain ⟨s₁, hs₁, h⟩ := Option.bind_eq_some_iff.mp h
    exact retryLock_step (ih hs₁) h

theorem ok_of_run {ops : List Op} (h : run ops (new false) = some s) : s.Ok := by
  obtain ⟨s', hs', hok⟩ := run_ok ops (ok_new false)
  rw [h] at hs'
  cases hs'
  exact hok

/-! ### Nobody is left waiting without reason -/

/-- A release leaves one reader, and this is the first in the queue. -/
def StrandsUpgrade (s : LockServer) : Op → Prop
  | .releaseForRead key holder => (s.ref key).StrandsUpgrade holder
  | _ => False

/-- After a release, the first in the queue of the lock does not get what it waits for. -/
def LeavesBlocked (s : LockServer) (op : Op) : Prop :=
  op.releases = true → ∀ s', s.step op = some s' → (s'.lock op.key).HeadBlocked

theorem blocked_step (hok : s.Ok) (hretry : s.retryLock = false) (hs : ∀ key, (s.lock key).HeadBlocked)
    (hno : ¬ s.StrandsUpgrade op) (h : s.step op = some s') (key : String) : (s'.lock key).HeadBlocked := by
  refine lock_step hretry hs (fun {x} hx => ?_) h key
  cases hx with
  | lockForRead hx => exact LockRef.lockForRead_blocked (hok.locks _) (hs _) hx
  | lockForWrite hx => exact LockRef.lockForWrite_blocked (hok.locks _) (hs _) hx
  | releaseForRead hx => exact LockRef.releaseForRead_blocked (hs _) hno hx
  | releaseForWrite hx =>
    rw [LockRef.releaseForWrite_same hx]
    exact hs _
  | promoteReader hx hx' =>
    obtain ⟨_, _, hx₁, hrel, -⟩ := LockRef.releaseForRead_spec (x := s.ref _) (hok.locks _) _
    rw [hx] at hx₁
    cases hx₁
    exact LockRef.acquireForWaiters_blocked _ hrel.ok le_rfl hx'
  | promoteWriter hx hx' =>
    obtain ⟨_, _, hx₁, hrel, -⟩ := LockRef.releaseForWrite_spec (x := s.ref _) (hok.locks _) _
    rw [hx] at hx₁
    cases hx₁
    exact LockRef.acquireForWaiters_blocked _ hrel.ok le_rfl hx'

theorem blocked_of_run {ops : List Op} (hno : AtEach (Finds fun s op => ¬ s.StrandsUpgrade op) ops) :
    ∀ {s : LockServer}, run ops (new false) = some s → ∀ key, (s.lock key).HeadBlocked := by
  induction ops using List.reverseRecOn with
  | nil =>
    intro s h key
    cases h
    exact Lock.headBlocked_of_nil rfl
  | append_singleton ops op ih =>
    intro s h
    obtain ⟨hops, hop⟩ := atEach_concat.mp hno
    rw [run_concat] at h
    obtain ⟨s₁, hs₁, h⟩ := Option.bind_eq_some_iff.mp h
    exact blocked_step (ok_of_run hs₁) (retryLock_run hs₁) (ih hops hs₁) (hop s₁ hs₁) h

/-- A reader that is left alone, and waits to write, is forgotten. -/
theorem StrandsUpgrade.not_leavesBlocked (h : s.StrandsUpgrade op) (hok : s.Ok) : ¬ s.LeavesBlocked op := by
  intro hblocked
  cases op with
  | lockForRead key r | lockForWrite key r | releaseForWrite key r => exact h
  | releaseForRead key r =>
    obtain ⟨⟨x, b⟩, hx⟩ : ∃ y, (s.ref key).releaseForRead r = some y := by
      obtain ⟨x, b, hx, -⟩ := LockRef.releaseForRead_spec (x := s.ref key) (hok.locks key) r
      exact ⟨(x, b), hx⟩
    obtain ⟨rfl, hno⟩ := LockRef.StrandsUpgrade.not_blocked h (hok.locks key) hx
    have hfind : (s.locks.find? key).isSome = true := by
      by_contra hnone
      have hnone : s.locks.find? key = none := by simpa using hnone
      have hmem : r ∈ (s.lock key).holders.toList := h.2.1
      simp [lock, hnone, Lock.new] at hmem
    refine hno ?_
    have hstep : s.step (.releaseForRead key r) = some (s.setRef key x) := by
      rw [step, LockServer.releaseForRead, if_pos hfind, hx]
      simp [promote]
    have := hblocked rfl _ hstep
    rwa [Op.key, lock_setRef_self] at this

/-- In a run, each release leaves the first in the queue waiting with reason just when none leaves one reader
    that is itself the first in the queue. -/
theorem release_wakes_iff (ops : List Op) :
    AtEach (Finds LeavesBlocked) ops ↔ AtEach (Finds fun s op => ¬ s.StrandsUpgrade op) ops := by
  constructor
  · intro h before op rest hops s hs hstrands
    exact hstrands.not_leavesBlocked (ok_of_run hs) (h before op rest hops s hs)
  · intro h before op rest hops s hs _ s' hs'
    refine blocked_of_run (h.upTo hops) ?_ op.key
    rw [run_concat, hs]
    exact hs'

/-- Two read, the first waits to write, and the second stops reading. -/
def strandingOps : List Op :=
  [.lockForRead "k" 1, .lockForRead "k" 2, .lockForWrite "k" 1, .releaseForRead "k" 2]

theorem upgrade_left_waiting : ¬ ∀ ops : List Op, AtEach (Finds LeavesBlocked) ops := by
  intro hall
  obtain ⟨s, hs, hok⟩ := run_ok [.lockForRead "k" 1, .lockForRead "k" 2, .lockForWrite "k" 1] (ok_new false)
  have hblocked : s.LeavesBlocked (.releaseForRead "k" 2) := hall strandingOps _ _ [] rfl s hs
  suffices hstrands : s.StrandsUpgrade (.releaseForRead "k" 2) from hstrands.not_leavesBlocked hok hblocked
  have hlock : (run [.lockForRead "k" 1, .lockForRead "k" 2, .lockForWrite "k" 1] (new false)).map
      (fun s => ((s.lock "k").state, (s.lock "k").holders, (s.lock "k").waitQ)) =
        some (.lockedForRead, (StdSet.empty.insert 1).insert 2, [1]) := by decide +kernel
  rw [hs] at hlock
  obtain ⟨hstate, hholders, hq⟩ : (s.lock "k").state = .lockedForRead ∧
      (s.lock "k").holders = (StdSet.empty.insert 1).insert 2 ∧ (s.lock "k").waitQ = [1] := by
    simpa using hlock
  refine ⟨hstate, ?_, 1, [], ?_, hq⟩
  · show 2 ∈ (s.lock "k").holders.toList
    rw [hholders]
    decide
  · show ((s.lock "k").holders.erase 2).toList = [1]
    rw [hholders]
    decide

/-! ### The front of an empty queue -/

/-- What a call goes on to `TryAcquireForWaiters` with. -/
def handsOn (s : LockServer) : Op → Option LockRef
  | .lockForRead _ _ | .lockForWrite _ _ => none
  | .releaseForRead key holder =>
    if (s.locks.find? key).isSome then ((s.ref key).releaseForRead holder).bind freed else none
  | .releaseForWrite key holder =>
    if (s.locks.find? key).isSome then ((s.ref key).releaseForWrite holder).bind freed else none
where
  freed (y : LockRef × Bool) : Option LockRef := if y.2 = true ∧ s.retryLock = false then some y.1 else none

/-- The call looks at the front of an empty queue. -/
def LooksAtEmpty (s : LockServer) (op : Op) : Prop :=
  ∃ x, s.handsOn op = some x ∧ x.looksAtEmpty x.lock.waitQ.length = true

/-- The only holder gives up a lock that it holds in one way, for which there is one waiter. -/
def FreesForOne (s : LockServer) : Op → Prop
  | .lockForRead _ _ | .lockForWrite _ _ => False
  | .releaseForRead key holder => (s.lock key).FreesForOne false holder
  | .releaseForWrite key holder => (s.lock key).FreesForOne true holder

theorem wanting_step (hok : s.Ok) (hretry : s.retryLock = false) (hs : ∀ key, (s.lock key).Wanting)
    (h : s.step op = some s') (key : String) : (s'.lock key).Wanting := by
  refine lock_step hretry hs (fun {x} hx => ?_) h key
  cases hx with
  | @lockForRead key r _ _ hx =>
    obtain ⟨_, _, hx₁, hacq, -⟩ := LockRef.lockForRead_spec (x := s.ref key) (hok.locks key) r
    rw [hx] at hx₁
    cases hx₁
    exact hacq.wanting (hs key)
  | @lockForWrite key r _ _ hx =>
    obtain ⟨_, _, hx₁, hacq, -⟩ := LockRef.lockForWrite_spec (x := s.ref key) (hok.locks key) r
    rw [hx] at hx₁
    cases hx₁
    exact hacq.wanting (hs key)
  | @releaseForRead key r _ hx =>
    obtain ⟨_, _, hx₁, hrel, -⟩ := LockRef.releaseForRead_spec (x := s.ref key) (hok.locks key) r
    rw [hx] at hx₁
    cases hx₁
    exact hrel.queue.wanting (hs key)
  | @releaseForWrite key r _ hx =>
    rw [LockRef.releaseForWrite_same hx]
    exact hs key
  | @promoteReader key r _ _ _ hx hx' =>
    obtain ⟨_, _, hx₁, hrel, -⟩ := LockRef.releaseForRead_spec (x := s.ref key) (hok.locks key) r
    rw [hx] at hx₁
    cases hx₁
    exact LockRef.wanting_acquireForWaiters hrel.ok (hrel.queue.wanting (hs key)) hx'
  | @promoteWriter key r _ _ _ hx hx' =>
    obtain ⟨_, _, hx₁, hrel, -⟩ := LockRef.releaseForWrite_spec (x := s.ref key) (hok.locks key) r
    rw [hx] at hx₁
    cases hx₁
    exact LockRef.wanting_acquireForWaiters hrel.ok (hrel.queue.wanting (hs key)) hx'

theorem wanting_of_run : ∀ {ops : List Op} {s : LockServer}, run ops (new false) = some s →
    ∀ key, (s.lock key).Wanting := by
  intro ops
  induction ops using List.reverseRecOn with
  | nil =>
    intro s h key t w hw
    cases h
    cases hw
  | append_singleton ops op ih =>
    intro s h
    rw [run_concat] at h
    obtain ⟨s₁, hs₁, h⟩ := Option.bind_eq_some_iff.mp h
    exact wanting_step (ok_of_run hs₁) (retryLock_run hs₁) (ih hs₁) h

theorem looksAtEmpty_release {release : LockRef → Nat → Option (LockRef × Bool)} {write : Bool} {r : Nat}
    (hspec : (s.ref k).Frees r write (release (s.ref k) r))
    (hfrees : ∀ {x}, release (s.ref k) r = some (x, true) → x.lock.state = .unlocked →
      (s.lock k).state = Lock.stateFor write ∧ (s.lock k).holders.toList = [r])
    (hgoes : (s.lock k).FreesForOne write r →
      ∃ x, release (s.ref k) r = some (x, true) ∧ x.lock.state = .unlocked)
    (hretry : s.retryLock = false) (hwant : (s.lock k).Wanting) :
    (∃ x, (if (s.locks.find? k).isSome then (release (s.ref k) r).bind (handsOn.freed s)
        else none) = some x ∧
      x.looksAtEmpty x.lock.waitQ.length = true) ↔ (s.lock k).FreesForOne write r := by
  obtain ⟨x₁, next, hx₁, hrel, -⟩ := hspec
  have hlooks := LockRef.looksAtEmpty_iff x₁.lock.waitQ.length hrel.ok (hrel.queue.wanting hwant) le_rfl
  have hq : x₁.lock.waitQ = (s.lock k).waitQ := hrel.queue.1
  constructor
  · rintro ⟨x, hx, hempty⟩
    split_ifs at hx
    rw [hx₁, Option.bind_some, handsOn.freed] at hx
    split_ifs at hx with hnext
    cases hx
    obtain rfl : next = true := hnext.1
    obtain ⟨hstate, hone⟩ := hlooks.mp hempty
    obtain ⟨hs, hholders⟩ := hfrees hx₁ hstate
    exact ⟨hs, hholders, hq ▸ hone⟩
  · intro h
    obtain ⟨x, hx, hstate⟩ := hgoes h
    obtain ⟨rfl, rfl⟩ : x₁ = x ∧ next = true := by simpa [hx₁] using hx
    have hfind : (s.locks.find? k).isSome = true := by
      by_contra hnone
      have hnone : s.locks.find? k = none := by simpa using hnone
      have hholders := h.2.1
      simp [lock, hnone, Lock.new] at hholders
    refine ⟨x₁, ?_, hlooks.mpr ⟨hstate, hq ▸ h.2.2⟩⟩
    rw [if_pos hfind, hx₁, Option.bind_some, handsOn.freed, if_pos ⟨rfl, hretry⟩]

/-- Whoever frees a lock for one waiter goes on to look at an empty queue. -/
theorem looksAtEmpty_iff (hok : s.Ok) (hretry : s.retryLock = false) (hwant : ∀ key, (s.lock key).Wanting)
    (op : Op) : s.LooksAtEmpty op ↔ s.FreesForOne op := by
  cases op with
  | lockForRead key r | lockForWrite key r => simp [LooksAtEmpty, handsOn, FreesForOne]
  | releaseForRead key r =>
    exact looksAtEmpty_release (LockRef.releaseForRead_spec (hok.locks key) r)
      (fun hx _ => LockRef.releaseForRead_frees hx) (fun h => LockRef.releaseForRead_goes h.1 h.2.1) hretry
      (hwant key)
  | releaseForWrite key r =>
    exact looksAtEmpty_release (LockRef.releaseForWrite_spec (hok.locks key) r)
      LockRef.releaseForWrite_frees (fun h => LockRef.releaseForWrite_goes h.1 h.2.1) hretry
      (hwant key)

/-- In a run, `TryAcquireForWaiters` never looks at an empty queue just when no call frees a lock that has one
    waiter. -/
theorem looks_at_empty_iff (ops : List Op) :
    AtEach (Finds fun s op => ¬ s.LooksAtEmpty op) ops ↔
      AtEach (Finds fun s op => ¬ s.FreesForOne op) ops := by
  have hiff : ∀ {before : List Op} {op : Op} {s : LockServer}, run before (new false) = some s →
      (s.LooksAtEmpty op ↔ s.FreesForOne op) := fun h =>
    looksAtEmpty_iff (ok_of_run h) (retryLock_run h) (wanting_of_run h) _
  constructor
  · intro h before op rest hops s hs hfrees
    exact h before op rest hops s hs ((hiff hs).mpr hfrees)
  · intro h before op rest hops s hs hlooks
    exact h before op rest hops s hs ((hiff hs).mp hlooks)

/-- One writes, another waits to, and the first stops writing. -/
theorem front_of_empty_queue : ¬ ∀ ops : List Op, AtEach (Finds fun s op => ¬ s.LooksAtEmpty op) ops := by
  intro hall
  have hno := (hall [.lockForWrite "k" 1, .lockForWrite "k" 2, .releaseForWrite "k" 1])
    [.lockForWrite "k" 1, .lockForWrite "k" 2] (.releaseForWrite "k" 1) [] rfl
  obtain ⟨s, hs, hok⟩ := run_ok [.lockForWrite "k" 1, .lockForWrite "k" 2] (ok_new false)
  have hlock : (run [.lockForWrite "k" 1, .lockForWrite "k" 2] (new false)).map
      (fun s => ((s.lock "k").state, (s.lock "k").holders, (s.lock "k").waitQ)) =
        some (.lockedForWrite, StdSet.empty.insert 1, [2]) := by decide +kernel
  rw [hs] at hlock
  obtain ⟨hstate, hholders, hq⟩ : (s.lock "k").state = .lockedForWrite ∧
      (s.lock "k").holders = StdSet.empty.insert 1 ∧ (s.lock "k").waitQ = [2] := by
    simpa using hlock
  refine hno s hs ((looksAtEmpty_iff hok (retryLock_run hs) (wanting_of_run hs) _).mpr ⟨hstate, ?_, 2, hq⟩)
  rw [hholders]
  rfl

end LockServer
end Dsnet.Transaction
