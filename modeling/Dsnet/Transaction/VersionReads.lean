import Dsnet.Lib.Sorted
import Dsnet.Transaction.VersionStore

/-! What reads of a versioned store give. The store depends on the versions that were put and not on their
    order, and a read at a time gives the latest version up to it. That a version was read is not
    remembered: `commitGet` only renews what is remembered, and nothing is to begin with. -/

namespace Dsnet.Transaction

/-- Arguments of `put`. -/
structure Put where
  key : String
  value : String
  write : Timestamp
  deriving DecidableEq

/-- `p` is the latest of the puts with the property. -/
structure Latest (puts : List Put) (P : Put → Prop) (p : Put) : Prop where
  mem : p ∈ puts
  holds : P p
  le : ∀ q ∈ puts, P q → q.write ≤ p.write

namespace VersionedKVStore

variable {s : VersionedKVStore} {key : String} {t w : Timestamp} {v : String} {puts : List Put}

/-- One put after the other. -/
def putAll (puts : List Put) : VersionedKVStore := puts.foldl (fun s p => s.put p.key p.value p.write) new

/-- What a store with these versions answers. -/
structure Answers (s : VersionedKVStore) (puts : List Put) : Prop where
  latest : ∀ key w v, s.get key = some (w, v) ↔ Latest puts (·.key = key) ⟨key, v, w⟩
  latest_none : ∀ key, s.get key = none ↔ ∀ p ∈ puts, p.key ≠ key
  valid : ∀ key t w v, s.getAt key t = some (w, v) ↔
    Latest puts (fun p => p.key = key ∧ p.write ≤ t) ⟨key, v, w⟩
  valid_none : ∀ key t, s.getAt key t = none ↔ ∀ p ∈ puts, p.key = key → ¬ p.write ≤ t
  range_starts : ∀ key t, (s.getRange key t).map Prod.fst = (s.getAt key t).map Prod.fst
  range_ends : ∀ key t w w', s.getRange key t = some (w, some w') →
    (∃ p ∈ puts, p.key = key ∧ p.write = w') ∧ w < w' ∧
      ∀ p ∈ puts, p.key = key → w < p.write → w' ≤ p.write
  range_open : ∀ key t w, s.getRange key t = some (w, none) → ∀ p ∈ puts, p.key = key → p.write ≤ w

/-! ### Lookups -/

theorem inKeyOrder_versions (s : VersionedKVStore) (key : String) :
    InKeyOrder Prod.fst (s.versions key).toList := List.pairwise_map.mp (s.versions key).sorted

/-- The key has versions. -/
theorem inStore_iff : s.inStore key = true ↔ (s.versions key).toList ≠ [] := by
  rw [inStore, versions]
  cases s.store.find? key with
  | none => simp
  | some versions => simp [StdMap.size, List.length_pos_iff]

/-- The version that is found is the last of those up to `t`, and the later ones follow. -/
theorem getValue_eq (s : VersionedKVStore) (key : String) (t : Timestamp) :
    s.getValue key t = match ((s.versions key).toList.takeWhile (·.1 ≤ t)).getLast? with
      | none => []
      | some v => v :: (s.versions key).toList.dropWhile (·.1 ≤ t) := by
  rw [getValue]
  have hall := List.takeWhile_append_dropWhile (p := (·.1 ≤ t)) (l := (s.versions key).toList)
  generalize (s.versions key).toList.takeWhile (·.1 ≤ t) = before at hall ⊢
  generalize (s.versions key).toList.dropWhile (·.1 ≤ t) = it at hall ⊢
  rw [← hall]
  rcases List.eq_nil_or_concat before with rfl | ⟨before, v, rfl⟩
  · simp
  · have hlen : (before.concat v ++ it).length = before.length + 1 + it.length := by simp [add_assoc, add_comm 1]
    have hdrop : before.length + 1 + it.length - it.length - 1 = before.length := by omega
    rw [hlen, if_neg (by omega), hdrop, List.concat_eq_append, List.getLast?_concat, List.append_assoc,
      List.drop_left]
    rfl

theorem getValue_nil_of_not (h : ¬ s.inStore key = true) : s.getValue key t = [] := by
  have hnil : (s.versions key).toList = [] := by simpa [inStore_iff] using h
  rw [getValue_eq, hnil]
  rfl

/-- The version that is valid at `t`. -/
theorem getAt_eq (s : VersionedKVStore) (key : String) (t : Timestamp) :
    s.getAt key t = ((s.versions key).toList.takeWhile (·.1 ≤ t)).getLast? := by
  have hhead : (s.getValue key t).head? = ((s.versions key).toList.takeWhile (·.1 ≤ t)).getLast? := by
    rw [getValue_eq]
    cases ((s.versions key).toList.takeWhile (·.1 ≤ t)).getLast? <;> rfl
  rw [getAt]
  by_cases h : s.inStore key = true
  · rw [if_pos h, hhead]
  · rw [if_neg h, ← hhead, getValue_nil_of_not h]
    rfl

theorem getRange_eq (s : VersionedKVStore) (key : String) (t : Timestamp) :
    s.getRange key t = (s.getAt key t).map fun v =>
      (v.1, ((s.versions key).toList.dropWhile (·.1 ≤ t)).head?.map Prod.fst) := by
  rw [getRange, getAt]
  by_cases h : s.inStore key = true
  · rw [if_pos h, if_pos h, getValue_eq]
    cases ((s.versions key).toList.takeWhile (·.1 ≤ t)).getLast? <;> rfl
  · rw [if_neg h, if_neg h]
    rfl

theorem get_eq (s : VersionedKVStore) (key : String) : s.get key = (s.versions key).toList.getLast? := by
  rw [get]
  split_ifs with h
  · rfl
  · rw [inStore_iff, not_not] at h
    rw [h]
    rfl

/-! ### Puts -/

/-- The versions of each key are those that were put. -/
def Has (s : VersionedKVStore) (puts : List Put) : Prop :=
  ∀ key w v, (w, v) ∈ (s.versions key).toList ↔ ⟨key, v, w⟩ ∈ puts

theorem versions_put (s : VersionedKVStore) (p : Put) (key : String) :
    (s.put p.key p.value p.write).versions key =
      if key = p.key then (s.versions key).emplace p.write p.value else s.versions key := by
  rw [versions, put, StdMap.find?_insert]
  split_ifs with h
  · rw [h]
    rfl
  · rfl

/-- No put so far is of the same version. -/
theorem has_concat (p : Put) (h : s.Has puts) (hnew : ∀ q ∈ puts, (q.key, q.write) ≠ (p.key, p.write)) :
    (s.put p.key p.value p.write).Has (puts ++ [p]) := by
  intro key w v
  rw [versions_put, List.mem_append, List.mem_singleton]
  by_cases hk : key = p.key
  · subst hk
    have hfree : ((s.versions p.key).find? p.write) = none := by
      by_contra hbound
      obtain ⟨v', hv'⟩ := Option.ne_none_iff_exists'.mp hbound
      exact hnew _ ((h p.key p.write v').mp (StdMap.mem_of_find? hv')) rfl
    rw [if_pos rfl, StdMap.emplace, hfree, if_neg (by simp), StdMap.mem_iff_find?, StdMap.find?_insert,
      ← h p.key w v, StdMap.mem_iff_find?]
    by_cases hw : w = p.write
    · subst hw
      rw [if_pos rfl, hfree]
      constructor
      · intro hv
        obtain rfl := Option.some.inj hv
        exact Or.inr rfl
      · rintro (hv | hp)
        · cases hv
        · rw [← hp]
    · rw [if_neg hw]
      refine ⟨Or.inl, fun hv => hv.resolve_right fun hp => hw ?_⟩
      rw [← hp]
  · rw [if_neg hk, h]
    refine ⟨Or.inl, fun hv => hv.resolve_right fun hp => hk ?_⟩
    rw [← hp]

theorem putAll_concat (puts : List Put) (p : Put) :
    putAll (puts ++ [p]) = (putAll puts).put p.key p.value p.write := by
  rw [putAll, List.foldl_append]
  rfl

theorem has_putAll (hdistinct : (puts.map fun p => (p.key, p.write)).Nodup) : (putAll puts).Has puts := by
  induction puts using List.reverseRecOn with
  | nil => exact fun key w v => by simp [putAll, new, versions, StdMap.find?]
  | append_singleton puts p ih =>
    rw [List.map_append, List.nodup_append] at hdistinct
    rw [putAll_concat]
    refine has_concat p (ih hdistinct.1) fun q hq => ?_
    exact hdistinct.2.2 _ (List.mem_map_of_mem hq) _ (List.mem_singleton_self _)

/-- Versions that differ may be put in either order. -/
theorem put_comm (s : VersionedKVStore) {p q : Put} (h : (p.key, p.write) ≠ (q.key, q.write)) :
    (s.put p.key p.value p.write).put q.key q.value q.write =
      (s.put q.key q.value q.write).put p.key p.value p.write := by
  have hstore : ((s.put p.key p.value p.write).put q.key q.value q.write).store =
      ((s.put q.key q.value q.write).put p.key p.value p.write).store := by
    show (s.store.insert p.key _).insert q.key (((s.put p.key p.value p.write).versions q.key).emplace _ _) =
      (s.store.insert q.key _).insert p.key (((s.put q.key q.value q.write).versions p.key).emplace _ _)
    rw [versions_put, versions_put]
    by_cases hk : p.key = q.key
    · have hw : p.write ≠ q.write := fun hw => h (by rw [hk, hw])
      rw [if_pos hk.symm, if_pos hk, ← hk]
      simp only [StdMap.insert_insert, StdMap.emplace_comm _ _ _ hw]
    · rw [if_neg (Ne.symm hk), if_neg hk]
      exact StdMap.insert_comm _ _ _ hk
  exact congrArg (fun store => { s with store := store }) hstore

/-- The store does not depend on the order of the puts. -/
theorem putAll_perm {puts' : List Put} (hdistinct : (puts.map fun p => (p.key, p.write)).Nodup)
    (h : puts.Perm puts') : putAll puts' = putAll puts := by
  refine (h.foldl_eq' (fun p hp q hq s => ?_) new).symm
  by_cases hpq : p = q
  · rw [hpq]
  · exact put_comm s fun heq => hpq (List.inj_on_of_nodup_map hdistinct hp hq heq)

/-! ### Reads -/

theorem Has.get_iff (h : s.Has puts) : s.get key = some (w, v) ↔ Latest puts (·.key = key) ⟨key, v, w⟩ := by
  rw [get_eq, (inKeyOrder_versions s key).getLast?_eq_some_iff, h]
  constructor
  · rintro ⟨hmem, hle⟩
    refine ⟨hmem, rfl, fun q hq hk => hle (q.write, q.value) ((h ..).mpr ?_)⟩
    rw [← hk]
    exact hq
  · intro hl
    exact ⟨hl.mem, fun y hy => hl.le _ ((h ..).mp hy) rfl⟩

theorem Has.getAt_iff (h : s.Has puts) :
    s.getAt key t = some (w, v) ↔ Latest puts (fun p => p.key = key ∧ p.write ≤ t) ⟨key, v, w⟩ := by
  have hsorted := inKeyOrder_versions s key
  rw [getAt_eq, (hsorted.takeWhile _).getLast?_eq_some_iff]
  simp only [hsorted.mem_takeWhile]
  constructor
  · rintro ⟨⟨hmem, hwt⟩, hle⟩
    refine ⟨(h ..).mp hmem, ⟨rfl, hwt⟩, fun q hq hk => hle (q.write, q.value) ⟨(h ..).mpr ?_, hk.2⟩⟩
    rw [← hk.1]
    exact hq
  · intro hl
    exact ⟨⟨(h ..).mpr hl.mem, hl.holds.2⟩, fun y hy => hl.le _ ((h ..).mp hy.1) ⟨rfl, hy.2⟩⟩

/-- The later versions are those that follow the one found. -/
theorem Has.lt_of_later (h : s.Has puts) (hget : s.getAt key t = some (w, v)) {p : Put} (hp : p ∈ puts)
    (hk : p.key = key) (hw : w < p.write) :
    (p.write, p.value) ∈ (s.versions key).toList.dropWhile (·.1 ≤ t) := by
  rw [(inKeyOrder_versions s key).mem_dropWhile]
  refine ⟨(h ..).mpr (hk ▸ hp), not_le.mp fun hle => ?_⟩
  exact absurd ((h.getAt_iff.mp hget).le p hp ⟨hk, hle⟩) (not_le.mpr hw)

theorem getRange_cases {e : Option Timestamp} (h : s.getRange key t = some (w, e)) :
    (∃ v, s.getAt key t = some (w, v)) ∧
      e = ((s.versions key).toList.dropWhile (·.1 ≤ t)).head?.map Prod.fst := by
  rw [getRange_eq] at h
  obtain ⟨⟨w', v⟩, hget, heq⟩ := Option.map_eq_some_iff.mp h
  obtain ⟨rfl, rfl⟩ := Prod.mk.inj heq
  exact ⟨⟨v, hget⟩, rfl⟩

theorem Has.answers (h : s.Has puts) : s.Answers puts where
  latest key w v := h.get_iff
  latest_none key := by
    rw [get_eq, List.getLast?_eq_none_iff, List.eq_nil_iff_forall_not_mem]
    constructor
    · rintro hnone p hp rfl
      exact hnone (p.write, p.value) ((h ..).mpr hp)
    · intro hnone y hy
      exact hnone _ ((h ..).mp hy) rfl
  valid key t w v := h.getAt_iff
  valid_none key t := by
    rw [getAt_eq, List.getLast?_eq_none_iff, List.eq_nil_iff_forall_not_mem]
    simp only [(inKeyOrder_versions s key).mem_takeWhile]
    constructor
    · rintro hnone p hp rfl hle
      exact hnone (p.write, p.value) ⟨(h ..).mpr hp, hle⟩
    · intro hnone y hy
      exact hnone _ ((h ..).mp hy.1) rfl hy.2
  range_starts key t := by
    rw [getRange_eq, Option.map_map]
    rfl
  range_ends key t w w' hrange := by
    obtain ⟨⟨v, hget⟩, he⟩ := getRange_cases hrange
    obtain ⟨x, hx, rfl⟩ := Option.map_eq_some_iff.mp he.symm
    have hsorted := inKeyOrder_versions s key
    obtain ⟨hmem, hlt⟩ := hsorted.mem_dropWhile.mp (List.mem_of_head? hx)
    refine ⟨⟨_, (h ..).mp hmem, rfl, rfl⟩, lt_of_le_of_lt (h.getAt_iff.mp hget).holds.2 hlt, ?_⟩
    intro p hp hk hw
    exact (hsorted.dropWhile _).le_of_head? hx (h.lt_of_later hget hp hk hw)
  range_open key t w hrange p hp hk := by
    obtain ⟨⟨v, hget⟩, he⟩ := getRange_cases hrange
    have hnil := List.head?_eq_none_iff.mp (Option.map_eq_none_iff.mp he.symm)
    by_contra hw
    have hmem := h.lt_of_later hget hp hk (not_le.mp hw)
    rw [hnil] at hmem
    cases hmem

/-- Whatever versions are put, and in whatever order, reads give the latest version up to the time they are
    for. -/
theorem reads_versions (puts : List Put) (hdistinct : (puts.map fun p => (p.key, p.write)).Nodup) :
    (putAll puts).Answers puts ∧ ∀ puts', puts.Perm puts' → putAll puts' = putAll puts :=
  ⟨(has_putAll hdistinct).answers, fun _ => putAll_perm hdistinct⟩

/-- Versions put out of order. -/
def twoPuts : List Put := [⟨"k", "b", ⟨2, 0⟩⟩, ⟨"k", "a", ⟨1, 0⟩⟩]

theorem reads_versions_twoPuts :
    (putAll twoPuts).Answers twoPuts ∧ ∀ puts', twoPuts.Perm puts' → putAll puts' = putAll twoPuts :=
  reads_versions twoPuts (by decide)

/-! ### Reads that are committed -/

/-- A call that changes the store. -/
inductive Call where
  | put (key value : String) (t : Timestamp)
  | commitGet (key : String) (readTime commit : Timestamp)

/-- What a call leaves. -/
def call (s : VersionedKVStore) : Call → VersionedKVStore
  | .put key value t => s.put key value t
  | .commitGet key readTime commit => s.commitGet key readTime commit

/-- One call after the other, on a new store. -/
def run (calls : List Call) : VersionedKVStore := calls.foldl call new

/-- The timestamp at which a call commits a read of the version, if it is one. -/
def commitOf (s : VersionedKVStore) (key : String) (write : Timestamp) : Call → Option Timestamp
  | .put _ _ _ => none
  | .commitGet k readTime commit =>
    if k = key ∧ (s.getAt k readTime).map Prod.fst = some write then some commit else none

/-- The timestamps of the reads of the version. -/
def commitsOf (key : String) (write : Timestamp) : VersionedKVStore → List Call → List Timestamp
  | _, [] => []
  | s, c :: calls => (s.commitOf key write c).toList ++ commitsOf key write (s.call c) calls

/-- Nothing is remembered of a version until something is. -/
theorem lastReads_call (h : s.lastReads = StdMap.empty) (c : Call) : (s.call c).lastReads = StdMap.empty := by
  cases c with
  | put key value t => exact h
  | commitGet key readTime commit =>
    have hnone : ∀ write, s.lastRead key write = none := by
      intro write
      rw [lastRead, h]
      rfl
    rw [call, commitGet]
    split_ifs
    · cases s.getValue key readTime with
      | nil => exact h
      | cons it next =>
        simp only [hnone]
        exact h
    · exact h

theorem lastReads_run (calls : List Call) : (run calls).lastReads = StdMap.empty := by
  induction calls using List.reverseRecOn with
  | nil => rfl
  | append_singleton calls c ih =>
    rw [run, List.foldl_append]
    exact lastReads_call ih c

/-- What `getLastRead` gives for a version. -/
theorem getLastReadAt_of_getAt (h : s.getAt key t = some (w, v)) :
    s.getLastReadAt key t = some (s.lastRead key w) := by
  rw [getAt] at h
  rw [getLastReadAt]
  split_ifs at h ⊢ with hin
  obtain ⟨next, hnext⟩ := List.head?_eq_some_iff.mp h
  rw [hnext]

/-- For a version, `getLastRead` gives the latest commit of those that have read it just when nobody has. -/
theorem last_read_iff (calls : List Call) (h : (run calls).getAt key t = some (w, v)) :
    (run calls).getLastReadAt key t = some (commitsOf key w new calls).max? ↔ commitsOf key w new calls = [] := by
  have hnone : (run calls).lastRead key w = none := by
    rw [lastRead, lastReads_run]
    rfl
  rw [getLastReadAt_of_getAt h, hnone, Option.some_inj, eq_comm, List.max?_eq_none_iff]

/-- One version, which is read. -/
def readOnce : List Call := [.put "k" "v" ⟨1, 0⟩, .commitGet "k" ⟨1, 0⟩ ⟨2, 0⟩]

theorem last_read_iff_once :
    (run readOnce).getLastReadAt "k" ⟨1, 0⟩ = some (commitsOf "k" ⟨1, 0⟩ new readOnce).max? ↔
      commitsOf "k" ⟨1, 0⟩ new readOnce = [] :=
  last_read_iff readOnce (v := "v") (by decide +kernel)

theorem read_forgotten : ¬ ∀ (calls : List Call) (key : String) (t w : Timestamp) (v : String),
    (run calls).getAt key t = some (w, v) →
    (run calls).getLastReadAt key t = some (commitsOf key w new calls).max? := by
  intro hall
  exact absurd (hall readOnce "k" ⟨1, 0⟩ ⟨1, 0⟩ "v" (by decide +kernel)) (by decide +kernel)

end VersionedKVStore
end Dsnet.Transaction
