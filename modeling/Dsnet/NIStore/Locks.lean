import Dsnet.NIStore.LockServer

/-! What the locks of `nistore/lockserver.cc` guarantee.

    `Matches` relates the state of a lock and its holders to the sets of those who read and who write
    under it: one who writes is alone (`Matches.exclusive`). A lock that is granted adds the
    requester to a set, one that is not granted changes nothing, and a release removes the holder. -/

namespace Dsnet.NIStore

/-- The states of a lock with its holders, its readers and its writers. -/
inductive Matches : LockState → Set Nat → Set Nat → Set Nat → Prop
  | unlocked : Matches .unlocked ∅ ∅ ∅
  | read (R : Set Nat) : Matches .lockedForRead R R ∅
  | write (o : Nat) : Matches .lockedForWrite {o} ∅ {o}
  | readWrite (o : Nat) : Matches .lockedForReadWrite {o} {o} {o}

/-- One who writes is the only one who reads or writes. -/
theorem Matches.exclusive {st : LockState} {H R W : Set Nat} (h : Matches st H R W) {o : Nat}
    (ho : o ∈ W) : W = {o} ∧ R ⊆ {o} := by
  cases h with
  | unlocked => cases ho
  | read => cases ho
  | write p =>
    obtain rfl := Set.mem_singleton_iff.mp ho
    exact ⟨rfl, Set.empty_subset _⟩
  | readWrite p =>
    obtain rfl := Set.mem_singleton_iff.mp ho
    exact ⟨rfl, subset_rfl⟩

/-- Those who hold the lock. -/
def Lock.holderSet (l : Lock) : Set Nat := {i | i ∈ l.holders.toList}

/-- The lock fits the readers and the writers. -/
def Lock.Fits (l : Lock) (R W : Set Nat) : Prop := Matches l.state l.holderSet R W

theorem Lock.Fits.congr {l l' : Lock} {R W : Set Nat} (h : l.Fits R W) (hst : l'.state = l.state)
    (hh : l'.holders = l.holders) : l'.Fits R W := by
  rw [Lock.Fits, Lock.holderSet, hst, hh]
  exact h

namespace Lock
variable {l l' : Lock} {R W : Set Nat} {clock clock' : Clock} {r : Nat} {ok : Bool}

theorem fits_new : new.Fits ∅ ∅ := by
  have hempty : new.holderSet = ∅ := by
    ext i
    simp [holderSet, new]
  rw [Fits, hempty]
  exact .unlocked

theorem mem_holderSet {i : Nat} : i ∈ l.holderSet ↔ i ∈ l.holders.toList := Iff.rfl

theorem holderSet_insert (l : Lock) (st : LockState) (r : Nat) :
    holderSet { l with state := st, holders := l.holders.insert r } = insert r l.holderSet := by
  ext i
  simp [holderSet]

theorem holderSet_erase (l : Lock) (st : LockState) (r : Nat) :
    holderSet { l with state := st, holders := l.holders.erase r } = l.holderSet \ {r} := by
  ext i
  simp [holderSet, and_comm]

/-- No holders. -/
theorem holderSet_of_size {l : Lock} (h : l.holders.size = 0) : l.holderSet = ∅ := by
  ext i
  simp [holderSet, List.length_eq_zero_iff.mp h]

/-- The only holder. -/
theorem holderSet_of_size_one (h : l.holders.size = 1) (hr : r ∈ l.holders.toList) :
    l.holderSet = {r} := by
  obtain ⟨x, hx⟩ := List.length_eq_one_iff.mp h
  obtain rfl : r = x := by simpa [hx] using hr
  ext i
  simp [holderSet, hx]

/-! ### Waiting -/

@[simp] theorem state_waitForLock (l : Lock) (clock : Clock) (r : Nat) (write : Bool) :
    (l.waitForLock clock r write).1.state = l.state := by
  unfold waitForLock
  split_ifs <;> rfl

@[simp] theorem holders_waitForLock (l : Lock) (clock : Clock) (r : Nat) (write : Bool) :
    (l.waitForLock clock r write).1.holders = l.holders := by
  unfold waitForLock
  split_ifs <;> rfl

theorem Fits.waitForLock (h : l.Fits R W) (clock : Clock) (r : Nat) (write : Bool) :
    (l.waitForLock clock r write).1.Fits R W :=
  h.congr (state_waitForLock ..) (holders_waitForLock ..)

/-- The queue is looked at, and nothing but the queue changes. -/
theorem tryAcquireLock_frame {write : Bool}
    (h : l.tryAcquireLock clock r write = some (ok, l', clock')) :
    l'.state = l.state ∧ l'.holders = l.holders := by
  unfold tryAcquireLock at h
  split_ifs at h with hq
  · cases h
    exact ⟨rfl, rfl⟩
  obtain ⟨⟨q, waiters⟩, -, h⟩ := Option.bind_eq_some_iff.mp h
  cases q with
  | nil =>
    cases h
    exact ⟨rfl, rfl⟩
  | cons first rest =>
    dsimp only at h
    split_ifs at h with hfirst
    · obtain ⟨waiter, -, h⟩ := Option.bind_eq_some_iff.mp h
      split_ifs at h
      cases h
      exact ⟨rfl, rfl⟩
    · have h := Option.some.inj h
      obtain rfl : _ = l' := congrArg (·.2.1) h
      exact ⟨state_waitForLock .., holders_waitForLock ..⟩

theorem isWriteNext_frame (h : l.isWriteNext clock = some (ok, l', clock')) :
    l'.state = l.state ∧ l'.holders = l.holders := by
  unfold isWriteNext at h
  split_ifs at h with hq
  · cases h
    exact ⟨rfl, rfl⟩
  obtain ⟨⟨q, waiters⟩, -, h⟩ := Option.bind_eq_some_iff.mp h
  cases q with
  | nil =>
    cases h
    exact ⟨rfl, rfl⟩
  | cons first rest =>
    obtain ⟨waiter, -, h⟩ := Option.map_eq_some_iff.mp h
    cases h
    exact ⟨rfl, rfl⟩

/-! ### Taking a lock -/

/-- A lock that nobody holds has no readers and no writers. -/
theorem Fits.empty (hm : l.Fits R W) (hst : l.state = .unlocked) :
    l.holderSet = ∅ ∧ R = ∅ ∧ W = ∅ := by
  rw [Fits, hst] at hm
  generalize l.holderSet = H at hm
  cases hm
  exact ⟨rfl, rfl, rfl⟩

/-- A lock that is held for writing is held by its only writer, who may read. -/
theorem Fits.owner (hm : l.Fits R W)
    (hst : l.state = .lockedForWrite ∨ l.state = .lockedForReadWrite) :
    ∃ o, l.holderSet = {o} ∧ W = {o} ∧ R = if l.state = .lockedForWrite then ∅ else {o} := by
  rw [Fits] at hm
  generalize l.holderSet = H at hm
  rcases hst with hst | hst
  · rw [hst] at hm ⊢
    cases hm
    exact ⟨_, rfl, rfl, rfl⟩
  · rw [hst] at hm ⊢
    cases hm
    exact ⟨_, rfl, rfl, rfl⟩

/-- Taking a free lock: what is written is the state and the holder, if it is not reserved. -/
theorem acquire_cases {write : Bool} (h : l.acquire clock r write = some (ok, l', clock')) :
    (ok = false ∧ l'.state = l.state ∧ l'.holders = l.holders) ∨
      (ok = true ∧ l'.state = (if write then .lockedForWrite else .lockedForRead) ∧
        l'.holderSet = insert r l.holderSet) := by
  obtain ⟨⟨ok₁, l₁, clock₁⟩, htry, h⟩ := Option.bind_eq_some_iff.mp h
  obtain ⟨hst, hh⟩ := tryAcquireLock_frame htry
  dsimp only at h
  split_ifs at h with hok hsize hw
  · cases h
    exact Or.inl ⟨rfl, hst, hh⟩
  · cases h
    refine Or.inr ⟨rfl, by simp [hw], ?_⟩
    rw [holderSet_insert, holderSet, holderSet, hh]
  · cases h
    refine Or.inr ⟨rfl, by simp [hw], ?_⟩
    rw [holderSet_insert, holderSet, holderSet, hh]

/-- A lock that is granted for reading has the requester as a reader. -/
theorem Fits.lockForRead (hm : l.Fits R W) (h : l.lockForRead clock r = some (ok, l', clock')) :
    l'.Fits (if ok then insert r R else R) W := by
  unfold Lock.lockForRead at h
  split at h
  · rename_i hst
    obtain ⟨hH, rfl, rfl⟩ := hm.empty hst
    rcases acquire_cases h with ⟨rfl, hst', hh'⟩ | ⟨rfl, hst', hh'⟩
    · exact hm.congr hst' hh'
    · rw [Fits, hst', hh', hH]
      exact .read _
  · rename_i hst
    obtain ⟨hH, rfl⟩ : l.holderSet = R ∧ W = ∅ := by
      rw [Fits, hst] at hm
      generalize l.holderSet = H at hm
      cases hm
      exact ⟨rfl, rfl⟩
    split_ifs at h with hr
    · cases h
      rw [← mem_holderSet, hH] at hr
      rw [if_pos rfl, Set.insert_eq_of_mem hr]
      exact hm
    · obtain ⟨⟨next, l₁, clock₁⟩, hnext, h⟩ := Option.map_eq_some_iff.mp h
      obtain ⟨hst₁, hh₁⟩ := isWriteNext_frame hnext
      dsimp only at h
      split_ifs at h with hn
      · obtain ⟨rfl, rfl⟩ : false = ok ∧ (l₁.waitForLock clock₁ r false).1 = l' :=
          ⟨congrArg (·.1) h, congrArg (·.2.1) h⟩
        exact (hm.congr hst₁ hh₁).waitForLock _ _ _
      · cases h
        rw [Fits, holderSet_insert, hst₁, hst, holderSet, hh₁, ← holderSet, hH]
        exact .read _
  all_goals
    rename_i hst
    split_ifs at h with hr hsize
    · cases h
      obtain ⟨o, hH, rfl, hR⟩ := hm.owner (by simp [hst])
      rw [← mem_holderSet, hH, Set.mem_singleton_iff] at hr
      subst hr
      have hins : insert r R = {r} := by
        rw [hR]
        split_ifs <;> simp
      show Matches .lockedForReadWrite l.holderSet _ _
      rw [hH, if_pos rfl, hins]
      exact .readWrite r
    · have h := Option.some.inj h
      obtain ⟨rfl, rfl⟩ : false = ok ∧ (l.waitForLock clock r false).1 = l' :=
        ⟨congrArg (·.1) h, congrArg (·.2.1) h⟩
      exact hm.waitForLock _ _ _

/-- A lock that is granted for writing has the requester as a writer. -/
theorem Fits.lockForWrite (hm : l.Fits R W) (h : l.lockForWrite clock r = some (ok, l', clock')) :
    l'.Fits R (if ok then insert r W else W) := by
  unfold Lock.lockForWrite at h
  split at h
  · rename_i hst
    obtain ⟨hH, rfl, rfl⟩ := hm.empty hst
    rcases acquire_cases h with ⟨rfl, hst', hh'⟩ | ⟨rfl, hst', hh'⟩
    · exact hm.congr hst' hh'
    · rw [Fits, hst', hh', hH, if_pos rfl, if_pos rfl, insert_empty_eq]
      exact .write r
  · rename_i hst
    split_ifs at h with hr
    · cases h
      have hH := holderSet_of_size_one hr.1 hr.2
      rw [Fits, hst, hH] at hm
      show Matches .lockedForReadWrite l.holderSet _ _
      rw [hH]
      cases hm
      rw [if_pos rfl, insert_empty_eq]
      exact .readWrite r
    · have h := Option.some.inj h
      obtain ⟨rfl, rfl⟩ : false = ok ∧ (l.waitForLock clock r true).1 = l' :=
        ⟨congrArg (·.1) h, congrArg (·.2.1) h⟩
      exact hm.waitForLock _ _ _
  all_goals
    rename_i hst
    split_ifs at h with hsize hr
    · cases h
      obtain ⟨o, hH, rfl, hR⟩ := hm.owner (by simp [hst])
      rw [← mem_holderSet, hH] at hr
      rw [if_pos rfl, Set.insert_eq_of_mem hr]
      exact hm
    · have h := Option.some.inj h
      obtain ⟨rfl, rfl⟩ : false = ok ∧ (l.waitForLock clock r true).1 = l' :=
        ⟨congrArg (·.1) h, congrArg (·.2.1) h⟩
      exact hm.waitForLock _ _ _

/-! ### Releasing a lock -/

/-- One who does not hold the lock neither reads nor writes. -/
theorem Fits.outside (hm : l.Fits R W) (hr : r ∉ l.holders.toList) : r ∉ R ∧ r ∉ W := by
  rw [← mem_holderSet] at hr
  rw [Fits] at hm
  generalize l.state = st at hm
  generalize l.holderSet = H at hm hr
  cases hm with
  | unlocked => exact ⟨hr, hr⟩
  | read => exact ⟨hr, Set.notMem_empty r⟩
  | write => exact ⟨Set.notMem_empty r, hr⟩
  | readWrite => exact ⟨hr, hr⟩

/-- A release for reading takes the holder from the readers. -/
theorem Fits.releaseForRead (hm : l.Fits R W) (r : Nat) : (l.releaseForRead r).Fits (R \ {r}) W := by
  unfold Lock.releaseForRead
  by_cases hr : r ∈ l.holders.toList
  · rw [if_pos hr]
    rw [← mem_holderSet] at hr
    split
    · rename_i hst
      obtain ⟨hH, rfl, rfl⟩ := hm.empty hst
      rw [Set.empty_sdiff]
      exact hm
    · rename_i hst
      obtain ⟨o, hH, rfl, hR⟩ := hm.owner (Or.inl hst)
      rw [hst, if_pos rfl] at hR
      rw [hR, Set.empty_sdiff, ← hR]
      exact hm
    · rename_i hst
      obtain ⟨hH, rfl⟩ : l.holderSet = R ∧ W = ∅ := by
        rw [Fits, hst] at hm
        generalize l.holderSet = H at hm
        cases hm
        exact ⟨rfl, rfl⟩
      rw [Fits, holderSet_erase, hH]
      show Matches (if (l.holders.erase r).size = 0 then .unlocked else .lockedForRead) _ _ _
      split_ifs with hsize
      · have hnone := holderSet_of_size (l := { l with holders := l.holders.erase r }) hsize
        have herase := holderSet_erase l l.state r
        rw [hH] at herase
        rw [← herase, hnone]
        exact .unlocked
      · exact .read _
    · rename_i hst
      obtain ⟨o, hH, rfl, hR⟩ := hm.owner (Or.inr hst)
      rw [hst, if_neg (by decide)] at hR
      rw [hH, Set.mem_singleton_iff] at hr
      subst hr
      show Matches .lockedForWrite l.holderSet _ _
      rw [hH, hR, Set.sdiff_self]
      exact .write r
  · rw [if_neg hr, Set.sdiff_singleton_eq_self (hm.outside hr).1]
    exact hm

/-- A release for writing takes the holder from the writers. -/
theorem Fits.releaseForWrite (hm : l.Fits R W) (h : l.releaseForWrite r = some l') :
    l'.Fits R (W \ {r}) := by
  unfold Lock.releaseForWrite at h
  by_cases hr : r ∈ l.holders.toList
  · rw [if_pos hr] at h
    rw [← mem_holderSet] at hr
    split at h
    · rename_i hst
      obtain ⟨hH, rfl, rfl⟩ := hm.empty hst
      cases h
      rw [Set.empty_sdiff]
      exact hm
    · rename_i hst
      cases h
      have hW : W = ∅ := by
        rw [Fits, hst] at hm
        generalize l.holderSet = H at hm
        cases hm
        rfl
      rw [hW, Set.empty_sdiff, ← hW]
      exact hm
    · rename_i hst
      obtain ⟨o, hH, rfl, hR⟩ := hm.owner (Or.inl hst)
      rw [hst, if_pos rfl] at hR
      rw [hH, Set.mem_singleton_iff] at hr
      subst hr
      dsimp only at h
      split_ifs at h with hsize
      cases h
      rw [Fits, holderSet_erase, hH, hR, Set.sdiff_self]
      exact .unlocked
    · rename_i hst
      obtain ⟨o, hH, rfl, hR⟩ := hm.owner (Or.inr hst)
      rw [hst, if_neg (by decide)] at hR
      rw [hH, Set.mem_singleton_iff] at hr
      subst hr
      split_ifs at h with hsize
      cases h
      show Matches .lockedForRead l.holderSet _ _
      rw [hH, hR, Set.sdiff_self]
      exact .read _
  · rw [if_neg hr] at h
    cases h
    rw [Set.sdiff_singleton_eq_self (hm.outside hr).2]
    exact hm

end Lock

/-! ### The server -/

namespace LockServer
variable {s s' : LockServer} {key : String} {r : Nat} {ok : Bool} {R W : String → Set Nat}

/-- Every lock fits the readers and the writers of its key. -/
def Fits (s : LockServer) (R W : String → Set Nat) : Prop := ∀ key, (s.lock key).Fits (R key) (W key)

theorem fits_new (clock : Clock) : (new clock).Fits (fun _ => ∅) fun _ => ∅ := fun _ => Lock.fits_new

theorem lock_setLock (s : LockServer) (key i : String) (l : Lock) :
    (s.setLock key l).lock i = if i = key then l else s.lock i := by
  unfold lock setLock
  rw [StdMap.find?_insert]
  split_ifs <;> rfl

/-- A change of one lock. -/
theorem Fits.setLock (h : s.Fits R W) {l : Lock} {R' W' : String → Set Nat}
    (hl : l.Fits (R' key) (W' key)) (hR : ∀ i, i ≠ key → R' i = R i) (hW : ∀ i, i ≠ key → W' i = W i) :
    (s.setLock key l).Fits R' W' := by
  intro i
  rw [lock_setLock]
  split_ifs with hi
  · rw [hi]
    exact hl
  · rw [hR i hi, hW i hi]
    exact h i

theorem Fits.lockForRead (hs : s.Fits R W) (h : s.lockForRead key r = some (ok, s')) :
    s'.Fits (if ok then Function.update R key (insert r (R key)) else R) W := by
  obtain ⟨⟨ok₁, l, clock⟩, hl, h⟩ := Option.map_eq_some_iff.mp h
  cases h
  refine Fits.setLock (s := s) hs ?_ (fun i hi => ?_) fun _ _ => rfl
  · have := (hs key).lockForRead hl
    cases ok
    · exact this
    · simpa using this
  · cases ok
    · rfl
    · exact Function.update_of_ne hi _ _

theorem Fits.lockForWrite (hs : s.Fits R W) (h : s.lockForWrite key r = some (ok, s')) :
    s'.Fits R (if ok then Function.update W key (insert r (W key)) else W) := by
  obtain ⟨⟨ok₁, l, clock⟩, hl, h⟩ := Option.map_eq_some_iff.mp h
  cases h
  refine Fits.setLock (s := s) hs ?_ (fun _ _ => rfl) fun i hi => ?_
  · have := (hs key).lockForWrite hl
    cases ok
    · exact this
    · simpa using this
  · cases ok
    · rfl
    · exact Function.update_of_ne hi _ _

/-- A lock that the server does not have is free. -/
theorem Fits.free (hs : s.Fits R W) (h : s.locks.find? key = none) : R key = ∅ ∧ W key = ∅ :=
  ((hs key).empty (by rw [lock, h]; rfl)).2

theorem Fits.releaseForRead (hs : s.Fits R W) (key : String) (r : Nat) :
    (s.releaseForRead key r).Fits (Function.update R key (R key \ {r})) W := by
  unfold LockServer.releaseForRead
  split_ifs with hk
  · refine hs.setLock ?_ (fun i hi => Function.update_of_ne hi _ _) fun _ _ => rfl
    rw [Function.update_self]
    exact (hs key).releaseForRead r
  · have hnone := (hs.free (Option.not_isSome_iff_eq_none.mp hk)).1
    rw [hnone, Set.empty_sdiff, ← hnone, Function.update_eq_self]
    exact hs

theorem Fits.releaseForWrite (hs : s.Fits R W) (h : s.releaseForWrite key r = some s') :
    s'.Fits R (Function.update W key (W key \ {r})) := by
  unfold LockServer.releaseForWrite at h
  split_ifs at h with hk
  · obtain ⟨l, hl, rfl⟩ := Option.map_eq_some_iff.mp h
    refine hs.setLock ?_ (fun _ _ => rfl) fun i hi => Function.update_of_ne hi _ _
    rw [Function.update_self]
    exact (hs key).releaseForWrite hl
  · cases h
    have hnone := (hs.free (Option.not_isSome_iff_eq_none.mp hk)).2
    rw [hnone, Set.empty_sdiff, ← hnone, Function.update_eq_self]
    exact hs

end LockServer
end Dsnet.NIStore
