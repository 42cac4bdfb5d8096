import Dsnet.NIStore.Locks

/-! Locks of `nistore/lockserver.cc` that are given back and taken again when operations are undone.

    Whether a lock is held, and by whom, is what is compared (`Same`); the queues may differ. A release
    takes a lock that has just been granted back to where it was, and a lock that has been released is
    granted again to one who has held it, if nobody waits for it (`Held.relock`). -/

namespace Dsnet.NIStore.Lock

/-- The two are held by the same and in the same way. -/
structure Same (l m : Lock) : Prop where
  state : m.state = l.state
  holders : m.holders = l.holders

/-- The lock is held for writing. -/
def WriteHeld (l : Lock) : Prop := l.state = .lockedForWrite ∨ l.state = .lockedForReadWrite

/-- One who gets the lock for reading is not among its readers. -/
def Joins (l : Lock) (r : Nat) : Prop :=
  match l.state with
  | .unlocked | .lockedForWrite => True
  | .lockedForRead => l.holders.toList ≠ [] ∧ r ∉ l.holders.toList
  | .lockedForReadWrite => False

/-- One who has written or read, as the case may be, under the lock has it for that. -/
def Held (l : Lock) (r : Nat) (written read : Bool) : Prop :=
  match l.state with
  | .unlocked => False
  | .lockedForRead => r ∈ l.holders.toList ∧ written = false
  | .lockedForWrite => l.holders.toList = [r] ∧ read = false
  | .lockedForReadWrite => l.holders.toList = [r]

theorem Same.refl (l : Lock) : Same l l := ⟨rfl, rfl⟩

theorem Same.trans {l m n : Lock} (h : Same l m) (h' : Same m n) : Same l n :=
  ⟨h'.state.trans h.state, h'.holders.trans h.holders⟩

variable {l l' m : Lock} {clock clock' : Clock} {r : Nat}

/-! ### Releases -/

theorem Same.releaseForRead (h : Same l m) (r : Nat) : Same (l.releaseForRead r) (m.releaseForRead r) := by
  obtain ⟨st, H, q, w⟩ := l
  obtain ⟨st', H', q', w'⟩ := m
  obtain ⟨rfl, rfl⟩ := h
  unfold Lock.releaseForRead
  dsimp only
  by_cases hr : r ∈ H'.toList
  · rw [if_pos hr, if_pos hr]
    cases st' <;> exact ⟨rfl, rfl⟩
  · rw [if_neg hr, if_neg hr]
    exact ⟨rfl, rfl⟩

theorem Same.releaseForWrite (h : Same l m) (hl : l.releaseForWrite r = some l') :
    ∃ m', m.releaseForWrite r = some m' ∧ Same l' m' ∧ m'.waitQ = m.waitQ := by
  obtain ⟨st, H, q, w⟩ := l
  obtain ⟨st', H', q', w'⟩ := m
  obtain ⟨rfl, rfl⟩ := h
  unfold Lock.releaseForWrite at hl ⊢
  dsimp only at hl ⊢
  by_cases hr : r ∈ H'.toList
  · rw [if_pos hr] at hl ⊢
    cases st' with
    | unlocked | lockedForRead =>
      obtain rfl := Option.some.inj hl
      exact ⟨_, rfl, ⟨rfl, rfl⟩, rfl⟩
    | lockedForWrite | lockedForReadWrite =>
      dsimp only at hl ⊢
      split_ifs at hl ⊢ with hs
      obtain rfl := Option.some.inj hl
      exact ⟨_, rfl, ⟨rfl, rfl⟩, rfl⟩
  · rw [if_neg hr] at hl ⊢
    obtain rfl := Option.some.inj hl
    exact ⟨_, rfl, ⟨rfl, rfl⟩, rfl⟩

@[simp] theorem waitQ_releaseForRead (l : Lock) (r : Nat) : (l.releaseForRead r).waitQ = l.waitQ := by
  unfold Lock.releaseForRead
  split_ifs
  · cases l.state <;> rfl
  · rfl

/-! ### Locks that have just been granted -/

theorem same_waitForLock (l : Lock) (clock : Clock) (r : Nat) (write : Bool) :
    Same l (l.waitForLock clock r write).1 := ⟨state_waitForLock .., holders_waitForLock ..⟩

theorem acquire_spec {write ok : Bool} (h : l.acquire clock r write = some (ok, l', clock')) :
    if ok then l.holders = StdSet.empty ∧ l'.holders = StdSet.empty.insert r ∧
      l'.state = (if write then .lockedForWrite else .lockedForRead)
    else Same l l' := by
  obtain ⟨⟨ok₁, l₁, clock₁⟩, htry, h⟩ := Option.bind_eq_some_iff.mp h
  obtain ⟨hst, hh⟩ := tryAcquireLock_frame htry
  dsimp only at h
  split_ifs at h with hok hsize
  · cases h
    exact ⟨hst, hh⟩
  all_goals
    cases h
    have hempty : l₁.holders = StdSet.empty :=
      StdSet.ext_mem fun x => by rw [List.length_eq_zero_iff.mp hsize]; rfl
    exact ⟨hh.symm.trans hempty, by rw [← hempty], by simp [*]⟩

/-- A lock that is granted for reading to one who was no reader is as it was when it is released. -/
theorem releaseForRead_granted (h : l.lockForRead clock r = some (true, l', clock')) (hj : l.Joins r) :
    Same l (l'.releaseForRead r) := by
  unfold Lock.lockForRead at h
  unfold Joins at hj
  cases hst : l.state with
  | unlocked =>
    rw [hst] at h
    obtain ⟨hempty, hins, hst'⟩ := acquire_spec h
    unfold Lock.releaseForRead
    rw [if_pos (by simp [hins]), hst']
    have herase : l'.holders.erase r = StdSet.empty := by
      rw [hins, StdSet.erase_insert (by simp)]
    exact ⟨by simp [herase, hst, StdSet.size], by simp [herase, hempty]⟩
  | lockedForRead =>
    rw [hst] at h hj
    rw [if_neg hj.2] at h
    obtain ⟨⟨next, l₁, clock₁⟩, hnext, h⟩ := Option.map_eq_some_iff.mp h
    obtain ⟨hst₁, hh₁⟩ := isWriteNext_frame hnext
    dsimp only at h
    cases next with
    | true => cases h
    | false =>
      obtain rfl : _ = l' := congrArg (·.2.1) h
      have herase : (l₁.holders.insert r).erase r = l.holders := by
        rw [hh₁, StdSet.erase_insert hj.2]
      unfold Lock.releaseForRead
      rw [if_pos (by simp)]
      simp only [hst₁, hst]
      have hsize : l.holders.size ≠ 0 := fun hz => hj.1 (List.length_eq_zero_iff.mp hz)
      exact ⟨by simp [herase, hsize, hst], herase⟩
  | lockedForWrite =>
    rw [hst] at h
    dsimp only at h
    split_ifs at h with hr
    · obtain rfl : { l with state := .lockedForReadWrite } = l' := congrArg (·.2.1) (Option.some.inj h)
      unfold Lock.releaseForRead
      rw [if_pos hr]
      exact ⟨hst.symm, rfl⟩
    · cases (congrArg Prod.fst (Option.some.inj h))
  | lockedForReadWrite =>
    rw [hst] at hj
    exact hj.elim

/-- A lock that is granted for writing, and was not held so, is as it was when it is released. -/
theorem releaseForWrite_granted (h : l.lockForWrite clock r = some (true, l', clock'))
    (hw : ¬ l.WriteHeld) : ∃ m, l'.releaseForWrite r = some m ∧ Same l m := by
  unfold Lock.lockForWrite at h
  unfold Lock.releaseForWrite
  cases hst : l.state with
  | unlocked =>
    rw [hst] at h
    obtain ⟨hempty, hins, hst'⟩ := acquire_spec h
    have herase : l'.holders.erase r = StdSet.empty := by
      rw [hins, StdSet.erase_insert (by simp)]
    rw [if_pos (by simp [hins]), hst']
    refine ⟨{ l' with holders := StdSet.empty, state := .unlocked }, by simp [herase, StdSet.size], hst.symm, ?_⟩
    exact hempty.symm
  | lockedForRead =>
    rw [hst] at h
    dsimp only at h
    split_ifs at h with hr
    · obtain rfl : { l with state := .lockedForReadWrite } = l' := congrArg (·.2.1) (Option.some.inj h)
      rw [if_pos hr.2]
      refine ⟨{ l with state := .lockedForRead }, by simp [hr.1], hst.symm, rfl⟩
    · cases (congrArg Prod.fst (Option.some.inj h))
  | lockedForWrite => exact absurd (Or.inl hst) hw
  | lockedForReadWrite => exact absurd (Or.inr hst) hw

/-- A lock that is held for writing is granted to the one who holds it, and stays as it is. -/
theorem same_of_writeHeld (h : l.lockForWrite clock r = some (true, l', clock')) (hw : l.WriteHeld) :
    Same l l' := by
  unfold Lock.lockForWrite at h
  rcases hw with hst | hst <;>
  · rw [hst] at h
    dsimp only at h
    split_ifs at h with hsize hr
    · obtain rfl : l = l' := congrArg (·.2.1) (Option.some.inj h)
      exact .refl l
    · cases (congrArg Prod.fst (Option.some.inj h))

/-- A lock that is refused stays as it is. -/
theorem same_of_refused (h : l.lockForRead clock r = some (false, l', clock')) : Same l l' := by
  unfold Lock.lockForRead at h
  cases hst : l.state with
  | unlocked =>
    rw [hst] at h
    exact acquire_spec h
  | lockedForRead =>
    rw [hst] at h
    dsimp only at h
    split_ifs at h with hr
    · cases (congrArg Prod.fst (Option.some.inj h))
    · obtain ⟨⟨next, l₁, clock₁⟩, hnext, h⟩ := Option.map_eq_some_iff.mp h
      obtain ⟨hst₁, hh₁⟩ := isWriteNext_frame hnext
      cases next with
      | true =>
        obtain rfl : (l₁.waitForLock clock₁ r false).1 = l' := congrArg (·.2.1) h
        exact Same.trans ⟨hst₁, hh₁⟩ (same_waitForLock ..)
      | false => cases (congrArg Prod.fst h)
  | lockedForWrite | lockedForReadWrite =>
    rw [hst] at h
    dsimp only at h
    split_ifs at h with hr hsize
    · cases (congrArg Prod.fst (Option.some.inj h))
    · obtain rfl : (l.waitForLock clock r false).1 = l' := congrArg (·.2.1) (Option.some.inj h)
      exact same_waitForLock ..

/-! ### Locks for which nobody waits -/

theorem acquire_idle (hq : l.waitQ = []) (clock : Clock) (r : Nat) (write : Bool) :
    l.acquire clock r write = if l.holders.size = 0 then
      some (true, { l with state := if write then .lockedForWrite else .lockedForRead
                           holders := l.holders.insert r }, clock)
    else none := by
  rw [acquire, tryAcquireLock, if_pos hq]
  rfl

/-- A grant brings nobody to wait. -/
theorem waitQ_lockForRead (h : l.lockForRead clock r = some (true, l', clock')) (hq : l.waitQ = []) :
    l'.waitQ = [] := by
  unfold Lock.lockForRead at h
  cases hst : l.state with
  | unlocked =>
    rw [hst, acquire_idle hq] at h
    dsimp only at h
    by_cases hz : l.holders.size = 0
    · rw [if_pos hz] at h
      obtain rfl := congrArg (·.2.1) (Option.some.inj h)
      exact hq
    · rw [if_neg hz] at h
      cases h
  | lockedForRead =>
    rw [hst, isWriteNext, if_pos hq] at h
    dsimp only at h
    split_ifs at h with hr
    · obtain rfl := congrArg (·.2.1) (Option.some.inj h)
      exact hq
    · obtain rfl := congrArg (·.2.1) (Option.some.inj h)
      exact hq
  | lockedForWrite | lockedForReadWrite =>
    rw [hst] at h
    dsimp only at h
    split_ifs at h with hr
    · obtain rfl := congrArg (·.2.1) (Option.some.inj h)
      exact hq
    · cases (congrArg Prod.fst (Option.some.inj h))

theorem waitQ_lockForWrite (h : l.lockForWrite clock r = some (true, l', clock')) (hq : l.waitQ = []) :
    l'.waitQ = [] := by
  unfold Lock.lockForWrite at h
  cases hst : l.state with
  | unlocked =>
    rw [hst, acquire_idle hq] at h
    dsimp only at h
    by_cases hz : l.holders.size = 0
    · rw [if_pos hz] at h
      obtain rfl := congrArg (·.2.1) (Option.some.inj h)
      exact hq
    · rw [if_neg hz] at h
      cases h
  | lockedForRead =>
    rw [hst] at h
    dsimp only at h
    split_ifs at h with hr
    · obtain rfl := congrArg (·.2.1) (Option.some.inj h)
      exact hq
    · cases (congrArg Prod.fst (Option.some.inj h))
  | lockedForWrite | lockedForReadWrite =>
    rw [hst] at h
    dsimp only at h
    split_ifs at h with hsize hr
    · obtain rfl := congrArg (·.2.1) (Option.some.inj h)
      exact hq
    · cases (congrArg Prod.fst (Option.some.inj h))

/-- The lock is granted for reading at any time, and is `l` then. -/
def GivesRead (m : Lock) (r : Nat) (l : Lock) : Prop := ∀ clock, m.lockForRead clock r = some (true, l, clock)

/-- The lock is granted for writing at any time, and is `l` then. -/
def GivesWrite (m : Lock) (r : Nat) (l : Lock) : Prop := ∀ clock, m.lockForWrite clock r = some (true, l, clock)

/-- Released for writing, the lock is granted for writing again. -/
theorem regrab_write (hst : l.WriteHeld) (hh : l.holders.toList = [r])
    (hl : l.releaseForWrite r = some l') (hm : Same l' m) (hq : m.waitQ = []) :
    ∃ n, m.GivesWrite r n ∧ Same l n ∧ n.waitQ = [] := by
  obtain ⟨hms, hmh⟩ := hm
  unfold Lock.releaseForWrite at hl
  rw [if_pos (by simp [hh])] at hl
  have hr : r ∈ l.holders.toList := by simp [hh]
  have hone : l.holders.size = 1 := by simp [StdSet.size, hh]
  rcases hst with hst | hst
  · rw [hst] at hl
    dsimp only at hl
    split_ifs at hl with hz
    obtain rfl := Option.some.inj hl
    refine ⟨{ m with state := .lockedForWrite, holders := m.holders.insert r }, fun clock => ?_,
      ⟨hst.symm, ?_⟩, hq⟩
    · rw [Lock.lockForWrite, hms]
      dsimp only
      rw [acquire_idle hq, hmh, if_pos hz]
      rfl
    · show m.holders.insert r = _
      rw [hmh, StdSet.insert_erase hr]
  · rw [hst] at hl
    dsimp only at hl
    rw [if_pos hone] at hl
    obtain rfl := Option.some.inj hl
    refine ⟨{ m with state := .lockedForReadWrite }, fun clock => ?_, ⟨hst.symm, hmh⟩, hq⟩
    rw [Lock.lockForWrite, hms]
    dsimp only
    rw [hmh, if_pos ⟨hone, hr⟩]

/-- Released for reading, the lock is granted for reading again. -/
theorem regrab_read (hst : l.state = .lockedForRead ∨ l.state = .lockedForReadWrite)
    (hr : r ∈ l.holders.toList) (hm : Same (l.releaseForRead r) m) (hq : m.waitQ = []) :
    ∃ n, m.GivesRead r n ∧ Same l n ∧ n.waitQ = [] := by
  obtain ⟨hms, hmh⟩ := hm
  unfold Lock.releaseForRead at hms hmh
  rw [if_pos hr] at hms hmh
  rcases hst with hst | hst
  · rw [hst] at hms hmh
    dsimp only at hms hmh
    refine ⟨{ m with state := .lockedForRead, holders := m.holders.insert r }, fun clock => ?_,
      ⟨hst.symm, ?_⟩, hq⟩
    · by_cases hz : (l.holders.erase r).size = 0
      · rw [if_pos hz] at hms
        rw [Lock.lockForRead, hms]
        dsimp only
        rw [acquire_idle hq, hmh, if_pos hz]
        rfl
      · rw [if_neg hz] at hms
        rw [Lock.lockForRead, hms]
        dsimp only
        rw [if_neg (by simp [hmh]), isWriteNext, if_pos hq, ← hms]
        rfl
    · show m.holders.insert r = _
      rw [hmh, StdSet.insert_erase hr]
  · rw [hst] at hms hmh
    refine ⟨{ m with state := .lockedForReadWrite }, fun clock => ?_, ⟨hst.symm, hmh⟩, hq⟩
    rw [Lock.lockForRead, hms]
    dsimp only at hmh ⊢
    rw [if_pos (by rw [hmh]; exact hr)]

/-- Released for both, the lock is granted for writing and then for reading. -/
theorem regrab_both (hst : l.state = .lockedForReadWrite) (hh : l.holders.toList = [r])
    (hl : l.releaseForWrite r = some l') (hm : Same (l'.releaseForRead r) m) (hq : m.waitQ = []) :
    ∃ m₁ n, m.GivesWrite r m₁ ∧ m₁.GivesRead r n ∧ Same l n ∧ n.waitQ = [] := by
  obtain ⟨hms, hmh⟩ := hm
  have hr : r ∈ l.holders.toList := by simp [hh]
  have hone : l.holders.size = 1 := by simp [StdSet.size, hh]
  have hz : (l.holders.erase r).size = 0 := by
    have := StdSet.size_erase_of_mem hr
    omega
  unfold Lock.releaseForWrite at hl
  rw [if_pos hr, hst] at hl
  dsimp only at hl
  rw [if_pos hone] at hl
  obtain rfl := Option.some.inj hl
  unfold Lock.releaseForRead at hms hmh
  rw [if_pos hr] at hms hmh
  dsimp only at hms hmh
  rw [if_pos hz] at hms
  have hback : m.holders.insert r = l.holders := by rw [hmh, StdSet.insert_erase hr]
  refine ⟨{ m with state := .lockedForWrite, holders := m.holders.insert r },
    { m with state := .lockedForReadWrite, holders := m.holders.insert r }, fun clock => ?_,
    fun clock => ?_, ⟨hst.symm, hback⟩, hq⟩
  · rw [Lock.lockForWrite, hms]
    dsimp only
    rw [acquire_idle hq, hmh, if_pos hz]
    rfl
  · rw [Lock.lockForRead]
    dsimp only
    rw [if_pos (by simp)]

/-- What `dropLocks` makes of a lock. -/
def drop (l : Lock) (r : Nat) (written read : Bool) : Option Lock :=
  (if written then l.releaseForWrite r else some l).map fun l => if read then l.releaseForRead r else l

/-- One who has held a lock that nobody waits for gets it again. -/
theorem Held.relock {written read : Bool} (h : written || read → l.Held r written read)
    (hd : l.drop r written read = some l') (hm : Same l' m) (hq : written || read → m.waitQ = []) :
    ∃ m₁ n, (if written then m.GivesWrite r m₁ else m₁ = m) ∧
      (if read then m₁.GivesRead r n else n = m₁) ∧ Same l n ∧ n.waitQ = m.waitQ := by
  obtain ⟨l₁, hl₁, rfl⟩ := Option.map_eq_some_iff.mp hd
  unfold Held at h
  cases written with
  | false =>
    obtain rfl : l = l₁ := Option.some.inj hl₁
    cases read with
    | false => exact ⟨m, m, rfl, rfl, hm, rfl⟩
    | true =>
      have hq := hq rfl
      have h := h rfl
      have hstate : (l.state = .lockedForRead ∨ l.state = .lockedForReadWrite) ∧ r ∈ l.holders.toList := by
        cases hst : l.state with
        | unlocked => rw [hst] at h; exact h.elim
        | lockedForRead => rw [hst] at h; exact ⟨.inl rfl, h.1⟩
        | lockedForWrite => rw [hst] at h; cases h.2
        | lockedForReadWrite =>
          rw [hst] at h
          exact ⟨.inr rfl, by rw [h]; exact List.mem_singleton_self r⟩
      obtain ⟨n, hn, hs, hnq⟩ := regrab_read hstate.1 hstate.2 hm hq
      exact ⟨m, n, rfl, hn, hs, hnq.trans hq.symm⟩
  | true =>
    have hidle : m.waitQ = [] := hq (Bool.true_or _)
    have h := h (Bool.true_or _)
    have hwrite : l.WriteHeld ∧ l.holders.toList = [r] ∧ (read = true → l.state = .lockedForReadWrite) := by
      cases hst : l.state with
      | unlocked => rw [hst] at h; exact h.elim
      | lockedForRead => rw [hst] at h; cases h.2
      | lockedForWrite =>
        rw [hst] at h
        exact ⟨.inl hst, h.1, fun hr => by rw [h.2] at hr; cases hr⟩
      | lockedForReadWrite => rw [hst] at h; exact ⟨.inr hst, h, fun _ => rfl⟩
    obtain ⟨hheld, hh, hboth⟩ := hwrite
    cases read with
    | false =>
      obtain ⟨n, hn, hs, hnq⟩ := regrab_write hheld hh hl₁ hm hidle
      exact ⟨n, n, hn, rfl, hs, hnq.trans hidle.symm⟩
    | true =>
      obtain ⟨m₁, n, hm₁, hn, hs, hnq⟩ := regrab_both (hboth rfl) hh hl₁ hm hidle
      exact ⟨m₁, n, hm₁, hn, hs, hnq.trans hidle.symm⟩

end Dsnet.NIStore.Lock

/-! ### The server -/

namespace Dsnet.NIStore.LockServer
variable {s s' t : LockServer} {key : String} {r : Nat} {ok : Bool}

theorem lock_releaseForRead (s : LockServer) (key : String) (r : Nat) (i : String) :
    (s.releaseForRead key r).lock i = if i = key then (s.lock key).releaseForRead r else s.lock i := by
  unfold LockServer.releaseForRead
  by_cases hk : (s.locks.find? key).isSome
  · rw [if_pos hk, lock_setLock]
  · rw [if_neg hk]
    split_ifs with hi
    · rw [hi, lock, Option.not_isSome_iff_eq_none.mp hk]
      rfl
    · rfl

theorem releaseForWrite_spec {l : Lock} (h : (s.lock key).releaseForWrite r = some l) :
    ∃ s', s.releaseForWrite key r = some s' ∧ ∀ i, s'.lock i = if i = key then l else s.lock i := by
  unfold LockServer.releaseForWrite
  by_cases hk : (s.locks.find? key).isSome
  · rw [if_pos hk, h]
    exact ⟨_, rfl, fun i => lock_setLock ..⟩
  · rw [if_neg hk]
    refine ⟨s, rfl, fun i => ?_⟩
    split_ifs with hi
    · rw [lock, Option.not_isSome_iff_eq_none.mp hk] at h
      rw [hi, lock, Option.not_isSome_iff_eq_none.mp hk]
      exact Option.some.inj h
    · rfl

theorem exists_releaseForWrite (h : s.releaseForWrite key r = some s') :
    ∃ l, (s.lock key).releaseForWrite r = some l ∧ ∀ i, s'.lock i = if i = key then l else s.lock i := by
  unfold LockServer.releaseForWrite at h
  split_ifs at h with hk
  · obtain ⟨l, hl, rfl⟩ := Option.map_eq_some_iff.mp h
    exact ⟨l, hl, fun i => lock_setLock ..⟩
  · obtain rfl := Option.some.inj h
    have hnew : s.lock key = Lock.new := by rw [lock, Option.not_isSome_iff_eq_none.mp hk]; rfl
    refine ⟨Lock.new, by rw [hnew]; rfl, fun i => ?_⟩
    split_ifs with hi
    · rw [hi, hnew]
    · rfl

theorem exists_lockForRead (h : s.lockForRead key r = some (ok, s')) :
    ∃ l clock, (s.lock key).lockForRead s.clock r = some (ok, l, clock) ∧
      ∀ i, s'.lock i = if i = key then l else s.lock i := by
  obtain ⟨⟨ok₁, l, clock⟩, hl, h⟩ := Option.map_eq_some_iff.mp h
  cases h
  exact ⟨l, clock, hl, fun i => lock_setLock ..⟩

theorem exists_lockForWrite (h : s.lockForWrite key r = some (ok, s')) :
    ∃ l clock, (s.lock key).lockForWrite s.clock r = some (ok, l, clock) ∧
      ∀ i, s'.lock i = if i = key then l else s.lock i := by
  obtain ⟨⟨ok₁, l, clock⟩, hl, h⟩ := Option.map_eq_some_iff.mp h
  cases h
  exact ⟨l, clock, hl, fun i => lock_setLock ..⟩

/-- Every lock is held in the same way. -/
def Same (s t : LockServer) : Prop := ∀ key, (s.lock key).Same (t.lock key)

theorem Same.refl (s : LockServer) : Same s s := fun _ => .refl _

/-- A lock that has been granted for reading is released. -/
theorem Same.releaseForRead (h : Same s' t) (hl : s.lockForRead key r = some (true, s'))
    (hj : (s.lock key).Joins r) : Same s (t.releaseForRead key r) := by
  obtain ⟨l, clock, hl, hlock⟩ := exists_lockForRead hl
  intro i
  have hi := h i
  rw [hlock] at hi
  rw [lock_releaseForRead]
  split_ifs at hi ⊢ with hik
  · subst hik
    exact (Lock.releaseForRead_granted hl hj).trans (hi.releaseForRead r)
  · exact hi

/-- A lock that has been granted for writing is released. -/
theorem Same.releaseForWrite (h : Same s' t) (hl : s.lockForWrite key r = some (true, s'))
    (hw : ¬ (s.lock key).WriteHeld) : ∃ t', t.releaseForWrite key r = some t' ∧ Same s t' ∧
      ∀ i, (t'.lock i).waitQ = (t.lock i).waitQ := by
  obtain ⟨l, clock, hl, hlock⟩ := exists_lockForWrite hl
  obtain ⟨m, hm, hsame⟩ := Lock.releaseForWrite_granted hl hw
  have hkey := h key
  rw [hlock, if_pos rfl] at hkey
  obtain ⟨m', hm', hsame', hq⟩ := hkey.releaseForWrite hm
  obtain ⟨t', ht', hlock'⟩ := releaseForWrite_spec hm'
  refine ⟨t', ht', fun i => ?_, fun i => ?_⟩
  · have hi := h i
    rw [hlock] at hi
    rw [hlock']
    split_ifs at hi ⊢ with hik
    · subst hik
      exact hsame.trans hsame'
    · exact hi
  · rw [hlock']
    split_ifs with hik
    · rw [hik, hq]
    · rfl

/-- A lock that was held for writing already. -/
theorem Same.of_writeHeld (h : Same s' t) (hl : s.lockForWrite key r = some (true, s'))
    (hw : (s.lock key).WriteHeld) : Same s t := by
  obtain ⟨l, clock, hl, hlock⟩ := exists_lockForWrite hl
  intro i
  have hi := h i
  rw [hlock] at hi
  split_ifs at hi with hik
  · subst hik
    exact (Lock.same_of_writeHeld hl hw).trans hi
  · exact hi

/-- A lock that has been refused. -/
theorem Same.of_refused (h : Same s' t) (hl : s.lockForRead key r = some (false, s')) : Same s t := by
  obtain ⟨l, clock, hl, hlock⟩ := exists_lockForRead hl
  intro i
  have hi := h i
  rw [hlock] at hi
  split_ifs at hi with hik
  · subst hik
    exact (Lock.same_of_refused hl).trans hi
  · exact hi

end Dsnet.NIStore.LockServer
