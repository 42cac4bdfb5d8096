import Dsnet.TPCC.DBImpl

/-! The locks of a running transaction. A lock that it has is either one that it made, so that nobody
    else has it, or one that it shares: there it is the last of the readers to have come, and cannot
    write. So the lock table from before can be told from the one now (`LocksSince`), and to release the
    locks one by one gives it back (`LocksSince.released`). -/

namespace Dsnet.TPCC
open Attempt
variable {F : Type}

/-- `locks` is `locks₀` with the locks of `own`. -/
structure LocksSince (locks₀ locks : Tuple → Option Lock) (own : List Tuple) : Prop where
  nodup : own.Nodup
  other : ∀ x, x ∉ own → locks x = locks₀ x
  mine : ∀ x ∈ own, (locks₀ x = none ∧ ∃ e, locks x = some ⟨e, 1⟩) ∨
    ∃ n, 1 ≤ n ∧ locks₀ x = some ⟨false, n⟩ ∧ locks x = some ⟨false, n + 1⟩

/-- The transaction has the lock of `x`, for itself if `e`. -/
def Owns (locks : Tuple → Option Lock) (own : List Tuple) (x : Tuple) (e : Bool) : Prop :=
  x ∈ own ∧ (e = true → locks x = some ⟨true, 1⟩)

/-- What the running transaction has done to the locks. -/
structure LocksOf (db₀ db : DBImpl F) : Prop where
  tid : db.tid = db₀.tid
  entry : db.tidLocks.find? db.tid = some db.lockedTuples
  others : ∀ i, i ≠ db.tid → db.tidLocks.find? i = db₀.tidLocks.find? i
  since : LocksSince db₀.lockTable db.lockTable db.lockedTuples

variable {locks₀ locks : Tuple → Option Lock} {own : List Tuple} {x : Tuple}

theorem LocksSince.refl (locks : Tuple → Option Lock) : LocksSince locks locks [] :=
  ⟨List.nodup_nil, fun _ _ => rfl, fun _ h => by cases h⟩

/-- A lock that nobody had. -/
theorem LocksSince.make (h : LocksSince locks₀ locks own) (hx : locks x = none) (e : Bool) :
    LocksSince locks₀ (Function.update locks x (some ⟨e, 1⟩)) (x :: own) := by
  have hnot : x ∉ own := by
    intro hm
    rcases h.mine x hm with ⟨_, _, he⟩ | ⟨_, _, _, he⟩ <;> rw [hx] at he <;> cases he
  refine ⟨List.nodup_cons.mpr ⟨hnot, h.nodup⟩, fun y hy => ?_, fun y hy => ?_⟩
  · obtain ⟨hne, hy⟩ := not_or.mp (List.mem_cons.not.mp hy)
    rw [Function.update_of_ne hne, h.other y hy]
  · by_cases hyx : y = x
    · subst hyx
      rw [Function.update_self, ← h.other y hnot, hx]
      exact Or.inl ⟨rfl, e, rfl⟩
    · rw [Function.update_of_ne hyx]
      exact h.mine y ((List.mem_cons.mp hy).resolve_left hyx)

/-- A lock of others that is shared. -/
theorem LocksSince.join {n : Nat} (h : LocksSince locks₀ locks own) (hx : locks x = some ⟨false, n⟩)
    (hn : 1 ≤ n) (hnot : x ∉ own) :
    LocksSince locks₀ (Function.update locks x (some ⟨false, n + 1⟩)) (x :: own) := by
  refine ⟨List.nodup_cons.mpr ⟨hnot, h.nodup⟩, fun y hy => ?_, fun y hy => ?_⟩
  · obtain ⟨hne, hy⟩ := not_or.mp (List.mem_cons.not.mp hy)
    rw [Function.update_of_ne hne, h.other y hy]
  · by_cases hyx : y = x
    · subst hyx
      rw [Function.update_self, ← h.other y hnot, hx]
      exact Or.inr ⟨n, hn, rfl, rfl⟩
    · rw [Function.update_of_ne hyx]
      exact h.mine y ((List.mem_cons.mp hy).resolve_left hyx)

/-- A lock that the transaction has for itself. -/
theorem LocksSince.upgrade {e : Bool} (h : LocksSince locks₀ locks own) (hx : locks x = some ⟨e, 1⟩)
    (hm : x ∈ own) (e' : Bool) : LocksSince locks₀ (Function.update locks x (some ⟨e', 1⟩)) own := by
  refine ⟨h.nodup, fun y hy => ?_, fun y hy => ?_⟩
  · rw [Function.update_of_ne (ne_of_mem_of_not_mem hm hy).symm, h.other y hy]
  · by_cases hyx : y = x
    · subst hyx
      rw [Function.update_self]
      rcases h.mine y hy with ⟨h₀, _⟩ | ⟨n, hn, _, he⟩
      · exact Or.inl ⟨h₀, e', rfl⟩
      · rw [hx] at he
        simp only [Option.some.injEq, Lock.mk.injEq] at he
        omega
    · rw [Function.update_of_ne hyx]
      exact h.mine y hy

/-- A lock is released. -/
theorem LocksSince.releaseLock (h : LocksSince locks₀ locks (x :: own)) :
    ∃ locks', TPCC.releaseLock locks x = some locks' ∧ LocksSince locks₀ locks' own := by
  obtain ⟨hnot, hnodup⟩ := List.nodup_cons.mp h.nodup
  have hrest : ∀ (v : Option Lock), locks₀ x = v →
      LocksSince locks₀ (Function.update locks x v) own := by
    intro v hv
    refine ⟨hnodup, fun y hy => ?_, fun y hy => ?_⟩
    · by_cases hyx : y = x
      · rw [hyx, Function.update_self, hv]
      · rw [Function.update_of_ne hyx]
        exact h.other y (by simp [hyx, hy])
    · rw [Function.update_of_ne (ne_of_mem_of_not_mem hy hnot)]
      exact h.mine y (List.mem_cons_of_mem _ hy)
  rcases h.mine x List.mem_cons_self with ⟨h₀, e, he⟩ | ⟨n, hn, h₀, he⟩
  · refine ⟨_, ?_, hrest none h₀⟩
    simp [TPCC.releaseLock, he]
  · refine ⟨_, ?_, hrest _ h₀⟩
    have hne : n ≠ 0 := by omega
    simp [TPCC.releaseLock, he, hne]

/-- Only the members that are about locks count. -/
theorem LocksOf.congr {db₀ db db' : DBImpl F} (h : LocksOf db₀ db) (htid : db'.tid = db.tid)
    (hlocks : db'.lockTable = db.lockTable) (hentries : db'.tidLocks = db.tidLocks) : LocksOf db₀ db' := by
  have hown : db'.lockedTuples = db.lockedTuples := by
    rw [DBImpl.lockedTuples, DBImpl.lockedTuples, htid, hentries]
  refine ⟨htid.trans h.tid, ?_, fun i hi => ?_, ?_⟩
  · rw [hown, htid, hentries]
    exact h.entry
  · rw [hentries]
    exact h.others i (htid ▸ hi)
  · rw [hown, hlocks]
    exact h.since

/-- With all locks released the lock table is as it was. -/
theorem LocksSince.released : ∀ {own : List Tuple} {locks : Tuple → Option Lock},
    LocksSince locks₀ locks own → own.foldlM TPCC.releaseLock locks = some locks₀
  | [], locks, h => congrArg some (funext fun x => h.other x List.not_mem_nil)
  | x :: own, locks, h => by
      obtain ⟨locks', hr, h'⟩ := h.releaseLock
      rw [List.foldlM_cons, hr]
      exact h'.released

/-! ### Acquisitions -/

/-- The tables with other locks of the running transaction. -/
def DBImpl.withLocks (db : DBImpl F) (locks : Tuple → Option Lock) (own : List Tuple) : DBImpl F :=
  { db with lockTable := locks, tidLocks := db.tidLocks.insert db.tid own }

theorem LocksOf.withLocks {db₀ db : DBImpl F} (h : LocksOf db₀ db)
    (hs : LocksSince db₀.lockTable locks own) : LocksOf db₀ (db.withLocks locks own) := by
  have hown : (db.withLocks locks own).lockedTuples = own := by
    simp [DBImpl.withLocks, DBImpl.lockedTuples, StdMap.find?_insert_self]
  refine ⟨h.tid, ?_, fun i hi => ?_, ?_⟩
  · rw [hown]
    exact StdMap.find?_insert_self ..
  · exact (StdMap.find?_insert_of_ne _ _ hi).trans (h.others i hi)
  · rw [hown]
    exact hs

theorem withLocks_setLock {db₀ db : DBImpl F} (h : LocksOf db₀ db) (x : Tuple) (l : Lock) :
    db.setLock x l = db.withLocks (Function.update db.lockTable x (some l)) db.lockedTuples := by
  rw [DBImpl.setLock, DBImpl.withLocks, StdMap.insert_of_find? h.entry]

variable {db₀ : DBImpl F} {s : Run F}

/-- What an acquisition does: it changes the locks only, keeps what is owned, and gets the lock; or it
    is blocked, which it is not by a lock that is owned already, and has changed nothing. -/
theorem lockFor_sat (h : LocksOf db₀ s.db) (x : Tuple) (e : Bool) :
    Sat (lockFor x e) s
      (fun _ s' => ∃ locks own, s' = { s with db := s.db.withLocks locks own } ∧
        LocksSince db₀.lockTable locks own ∧ Owns locks own x e ∧
        ∀ y e', Owns s.db.lockTable s.db.lockedTuples y e' → Owns locks own y e')
      (fun s' => s' = s ∧ ∀ e', Owns s.db.lockTable s.db.lockedTuples x e' → e' = false ∧ e = true) := by
  have hsame : s = { s with db := s.db.withLocks s.db.lockTable s.db.lockedTuples } := by
    rw [DBImpl.withLocks, StdMap.insert_of_find? h.entry]
  unfold lockFor
  simp only [sat_bind, sat_get, sat_assert]
  intro _
  cases hl : s.db.lockTable x with
  | none =>
    refine ⟨Function.update s.db.lockTable x (some ⟨e, 1⟩), x :: s.db.lockedTuples, rfl,
      h.since.make hl e, ⟨List.mem_cons_self, fun he => ?_⟩, fun y e' hy => ?_⟩
    · rw [Function.update_self, he]
    · refine ⟨List.mem_cons_of_mem _ hy.1, fun he => ?_⟩
      have hne : y ≠ x := by
        rintro rfl
        have := hy.2 he
        rw [hl] at this
        cases this
      rw [Function.update_of_ne hne]
      exact hy.2 he
  | some l =>
    obtain ⟨le, n⟩ := l
    simp only [sat_bind, sat_assert]
    intro hn
    by_cases hm : x ∈ s.db.lockedTuples
    · rw [if_pos hm]
      by_cases h1 : n = 1
      · subst h1
        rw [if_pos rfl, sat_modify]
        refine ⟨Function.update s.db.lockTable x (some ⟨le || e, 1⟩), s.db.lockedTuples, ?_,
          h.since.upgrade hl hm _, ⟨hm, fun he => ?_⟩, fun y e' hy => ⟨hy.1, fun he => ?_⟩⟩
        · rw [withLocks_setLock h]
        · rw [Function.update_self, he, Bool.or_true]
        · by_cases hyx : y = x
          · subst hyx
            have hle := hy.2 he
            rw [hl] at hle
            simp only [Option.some.injEq, Lock.mk.injEq] at hle
            rw [Function.update_self, hle.1, Bool.true_or]
          · rw [Function.update_of_ne hyx]
            exact hy.2 he
      · rw [if_neg h1]
        cases e with
        | true =>
          rw [if_pos rfl, sat_throw]
          refine ⟨rfl, fun e' he' => ⟨?_, rfl⟩⟩
          cases e' with
          | false => rfl
          | true =>
            have := he'.2 rfl
            rw [hl] at this
            simp only [Option.some.injEq, Lock.mk.injEq] at this
            exact absurd this.2 h1
        | false =>
          rw [if_neg (by simp), sat_assert]
          exact fun _ => ⟨_, _, hsame, h.since, ⟨hm, by simp⟩, fun y e' hy => hy⟩
    · rw [if_neg hm, sat_ite]
      refine ⟨fun _ => ⟨rfl, fun e' he' => absurd he'.1 hm⟩, fun hne => ?_⟩
      obtain ⟨hle, he⟩ := not_or.mp hne
      obtain rfl : le = false := by simpa using hle
      refine ⟨Function.update s.db.lockTable x (some ⟨false, n + 1⟩), x :: s.db.lockedTuples, rfl,
        h.since.join hl hn hm, ⟨List.mem_cons_self, fun he' => absurd he' he⟩,
        fun y e' hy => ⟨List.mem_cons_of_mem _ hy.1, fun he' => ?_⟩⟩
      rw [Function.update_of_ne (ne_of_mem_of_not_mem hy.1 hm)]
      exact hy.2 he'

/-- `endTransaction` after the tables were restored gives back the locks as they were before. -/
theorem LocksOf.endTransaction {db₀ db : DBImpl F} (h : LocksOf db₀ db) (htid : 0 < db₀.tid) :
    db.endTransaction db₀.tid =
      some { db with lockTable := db₀.lockTable, tidLocks := db.tidLocks.erase db₀.tid } := by
  have hentry := h.entry
  rw [h.tid] at hentry
  rw [DBImpl.endTransaction, if_pos htid, hentry]
  simp only [Option.bind_eq_bind, Option.bind_some]
  rw [h.since.released]
  rfl

end Dsnet.TPCC
