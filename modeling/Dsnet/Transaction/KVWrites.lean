import Dsnet.Transaction.KVTxnServer

/-! What the key value store writes for a transaction: the pairs of keys and values that its PREPARE has
    put, in increasing order. Until the transaction is finished, the server keeps them unchanged. -/

namespace Dsnet.Transaction
open Handler

variable (E : KVEnv)

/-- What the text of a transaction puts. -/
def KVEnv.puts (txn : String) : List (String × String) :=
  if txn = "" then [] else (E.message.parse txn).puts

/-- The write set with these pairs. -/
def writeSetOf (puts : List (String × String)) : StdSet (String ×ₗ String) :=
  puts.foldl (fun set kv => set.insert (toLex kv)) StdSet.empty

/-- One put. -/
def putOne (values : String → Option String) (kv : String × String) : String → Option String :=
  Function.update values kv.1 (some kv.2)

/-- The value that a transaction with these puts gives to each key: the last one. -/
def written (puts : List (String × String)) : String → Option String := puts.foldl putOne fun _ => none

@[simp] theorem mem_writeSetOf {puts : List (String × String)} {key value : String} :
    toLex (key, value) ∈ (writeSetOf puts).toList ↔ (key, value) ∈ puts := by
  rw [writeSetOf, StdSet.mem_foldl_insert]
  simp

theorem mem_of_foldl_putOne {key value : String} : ∀ (puts : List (String × String))
    {values : String → Option String}, puts.foldl putOne values key = some value →
    (key, value) ∈ puts ∨ values key = some value
  | [], _, h => Or.inr h
  | (key', value') :: puts, values, h => by
      rcases mem_of_foldl_putOne puts h with h | h
      · exact Or.inl (List.mem_cons_of_mem _ h)
      · rw [putOne] at h
        by_cases hk : key = key'
        · subst hk
          obtain rfl : value' = value := by simpa using h
          exact Or.inl List.mem_cons_self
        · rw [Function.update_of_ne hk] at h
          exact Or.inr h

/-- What is written is put. -/
theorem mem_of_written {puts : List (String × String)} {key value : String}
    (h : written puts key = some value) : (key, value) ∈ puts :=
  (mem_of_foldl_putOne puts h).resolve_right (by simp)

/-- Among the values of a key, the greatest is put last. -/
theorem putAll_eq_some (key value : String) : ∀ {writes : List (String ×ₗ String)}
    (store : String → Option String), writes.Pairwise (· < ·) →
    (putAll store writes key = some value ↔
      (toLex (key, value) ∈ writes ∧ ∀ value', toLex (key, value') ∈ writes → value' ≤ value) ∨
      ((∀ value', toLex (key, value') ∉ writes) ∧ store key = some value))
  | [], store, _ => by simp [putAll]
  | x :: writes, store, h => by
      obtain ⟨⟨key', value'⟩, rfl⟩ : ∃ y, x = toLex y := ⟨ofLex x, rfl⟩
      obtain ⟨hx, hs⟩ := List.pairwise_cons.mp h
      have ih := putAll_eq_some key value (Function.update store key' (some value')) hs
      have hstep : putAll store (toLex (key', value') :: writes) =
          putAll (Function.update store key' (some value')) writes := rfl
      rw [hstep, ih]
      by_cases hk : key = key'
      · subst hk
        -- what comes after it for the same key is greater
        have hlater : ∀ v, toLex (key, v) ∈ writes → value' < v := by
          intro v hv
          have := hx _ hv
          rw [Prod.Lex.toLex_lt_toLex] at this
          exact (this.resolve_left (lt_irrefl _)).2
        simp only [Function.update_self, Option.some.injEq, List.mem_cons, toLex_inj, Prod.mk.injEq,
          true_and, forall_eq_or_imp]
        constructor
        · rintro (⟨hm, hall⟩ | ⟨hno, rfl⟩)
          · exact Or.inl ⟨Or.inr hm, (hlater _ hm).le, hall⟩
          · exact Or.inl ⟨Or.inl rfl, le_refl _, fun v hv => (hno v hv).elim⟩
        · rintro (⟨rfl | hm, hle, hall⟩ | ⟨hno, _⟩)
          · exact Or.inr ⟨fun v hv => absurd (hall v hv) (not_le.mpr (hlater v hv)), rfl⟩
          · exact Or.inl ⟨hm, hall⟩
          · exact hno.1.elim
      · have hmem : ∀ v, toLex (key, v) ∈ toLex (key', value') :: writes ↔ toLex (key, v) ∈ writes := by
          intro v
          simp [hk]
        simp only [hmem, Function.update_of_ne hk]

/-! ### The write sets of pending transactions -/

/-- Every pending transaction has the writes `W` of its id. -/
def WritesOf (W : Nat → StdSet (String ×ₗ String)) (s : KVTxnServer) : Prop :=
  ∀ txnid t, s.pendingTxns.find? txnid = some t → t.txnarg.txnid = txnid ∧ t.writeSet = W txnid

variable {E} {W : Nat → StdSet (String ×ₗ String)} {s : KVTxnServer}

/-- A pending transaction is added or replaced. -/
theorem WritesOf.insert (h : WritesOf W s) {txnid : Nat} {t : KVTxn} (hid : t.txnarg.txnid = txnid)
    (hw : t.writeSet = W txnid) :
    WritesOf W { s with pendingTxns := s.pendingTxns.insert txnid t } := by
  intro txnid' t' h'
  by_cases hne : txnid' = txnid
  · subst hne
    rw [StdMap.find?_insert_self] at h'
    cases h'
    exact ⟨hid, hw⟩
  · simp only [StdMap.find?_insert_of_ne _ _ hne] at h'
    exact h _ _ h'

/-- Acquiring locks leaves the store, the pending transactions, and what the transaction writes. -/
theorem acquireLocks_sat (lock : LockServer → String → Nat → Option (Bool × LockServer)) :
    ∀ (keys : List String) (t : KVTxn) (blocked : Bool) (s : KVTxnServer),
    Sat (acquireLocks E lock keys t blocked) s
      (fun x s' _ => s'.store = s.store ∧ s'.pendingTxns = s.pendingTxns ∧ s'.mode = s.mode ∧
        x.1.txnarg = t.txnarg ∧ x.1.writeSet = t.writeSet)
      fun _ _ => True
  | [], t, blocked, s => by simp [acquireLocks]
  | key :: keys, t, blocked, s => by
      simp only [acquireLocks, sat_bind, sat_get, sat_ofOption, sat_modify, sat_ite]
      refine ⟨fun x _ => ⟨fun _ => ?_, fun _ => ?_⟩, fun _ => trivial⟩
      · exact (acquireLocks_sat lock keys t blocked _).mono (fun _ _ _ h => h) fun _ _ h => h
      · refine (acquireLocks_sat lock keys _ true _).mono (fun _ _ _ h => ?_) fun _ _ h => h
        obtain ⟨hst, hp, hm, ha, hw⟩ := h
        refine ⟨hst, hp, hm, ?_, ?_⟩
        · rw [ha]
          split <;> rfl
        · rw [hw]
          split <;> rfl

/-- What releasing locks leaves: the store, and what the pending transactions write. -/
def KeepsWrites (W : Nat → StdSet (String ×ₗ String)) (s s' : KVTxnServer) : Prop :=
  s'.store = s.store ∧ (WritesOf W s → WritesOf W s')

theorem KeepsWrites.trans {s s' s'' : KVTxnServer} (h : KeepsWrites W s s')
    (h' : KeepsWrites W s' s'') : KeepsWrites W s s'' :=
  ⟨h'.1.trans h.1, fun hw => h'.2 (h.2 hw)⟩

/-- `ReleaseLocks`: those that get a lock are no longer blocked on its key. -/
theorem unblock_sat (key : String) : ∀ (holders : List Nat) (unblocked : StdSet Nat) (s : KVTxnServer),
    Sat (unblock key holders unblocked) s (fun _ s' _ => KeepsWrites W s s') fun _ _ => True
  | [], unblocked, s => ⟨rfl, fun h => h⟩
  | holder :: holders, unblocked, s => by
      simp only [unblock, sat_bind, sat_get, sat_ofOption, sat_assert, sat_modify]
      refine ⟨fun t ht => ⟨fun _ => ?_, fun _ => trivial⟩, fun _ => trivial⟩
      refine (unblock_sat key holders _ _).mono (fun _ s' _ h => ?_) fun _ _ h => h
      exact ⟨h.1, fun hw => h.2 (hw.insert (hw _ _ ht).1 (hw _ _ ht).2)⟩

theorem releaseKeys_sat (release : LockServer → String → Nat → Option (LockServer × StdSet Nat))
    (txnid : Nat) : ∀ (keys : List String) (unblocked : StdSet Nat) (s : KVTxnServer),
    Sat (releaseKeys E release txnid keys unblocked) s (fun _ s' _ => KeepsWrites W s s') fun _ _ => True
  | [], unblocked, s => ⟨rfl, fun h => h⟩
  | key :: keys, unblocked, s => by
      simp only [releaseKeys, sat_bind, sat_get, sat_ofOption, sat_modify, sat_assert]
      refine ⟨fun x _ => ⟨fun _ => ?_, fun _ => trivial⟩, fun _ => trivial⟩
      refine (unblock_sat (W := W) key _ _ _).mono (fun _ s₁ _ h₁ => ?_) fun _ _ h => h
      refine (releaseKeys_sat release txnid keys _ s₁).mono (fun _ s₂ _ h₂ => ?_) fun _ _ h => h
      exact KeepsWrites.trans ⟨h₁.1, h₁.2⟩ h₂

/-- `CleanupTxn`. -/
theorem cleanupTxn_sat (t : KVTxn) (s : KVTxnServer) :
    Sat (cleanupTxn E t) s (fun _ s' _ => KeepsWrites W s s') fun _ _ => True := by
  simp only [cleanupTxn, releaseLocks, sat_bind, sat_assert, sat_modify, sat_pure]
  refine (releaseKeys_sat (W := W) _ _ _ _ s).mono (fun _ s₁ _ h₁ => ?_) fun _ _ h => h
  refine (releaseKeys_sat (W := W) _ _ _ _ s₁).mono (fun _ s₂ _ h₂ => ?_) fun _ _ h => h
  refine ⟨fun _ => ⟨h₂.1.trans h₁.1, fun hw txnid' t' ht' => ?_⟩, fun _ => trivial⟩
  have h := h₂.2 (h₁.2 hw)
  simp only [StdMap.find?_erase] at ht'
  split_ifs at ht' with hne
  exact h _ _ ht'

/-! ### Calls -/

/-- `ExecuteTransaction`: a COMMIT puts the writes of the transaction. -/
theorem executeTransaction_sat (t : KVTxn) (s : KVTxnServer) :
    Sat (executeTransaction E t) s
      (fun _ s' _ => (WritesOf W s → WritesOf W s') ∧ (t.txnarg.type = .commit →
        s'.store = putAll s.store t.writeSet.toList))
      fun _ _ => True := by
  simp only [executeTransaction, sat_bind, sat_assert, sat_get, sat_when, sat_modify, sat_ite, sat_pure]
  have hclean : ∀ s' : KVTxnServer, s'.pendingTxns = s.pendingTxns →
      (t.txnarg.type = .commit → s'.store = putAll s.store t.writeSet.toList) →
      Sat (cleanupTxn E t) s' (fun _ s'' _ => (WritesOf W s → WritesOf W s'') ∧
        (t.txnarg.type = .commit → s''.store = putAll s.store t.writeSet.toList)) fun _ _ => True := by
    intro s' hp hst
    refine (cleanupTxn_sat (W := W) t s').mono (fun _ s'' _ h => ⟨fun hw => h.2 ?_, fun hc => ?_⟩)
      fun _ _ h => h
    · rw [WritesOf, hp]
      exact hw
    · rw [h.1, hst hc]
  refine ⟨fun _ => ⟨fun _ => ⟨fun _ => ?_, fun _ => ?_⟩, fun hno => ⟨fun _ => ?_, fun _ => ?_⟩⟩,
    fun _ => trivial⟩
  · exact (hclean { s with store := putAll s.store t.writeSet.toList } rfl fun _ => rfl).mono
      (fun _ _ _ h => h) fun _ _ h => h
  · exact ⟨fun h => h, fun _ => trivial⟩
  · exact (hclean s rfl fun hc => (hno (Or.inr hc)).elim).mono (fun _ _ _ h => h) fun _ _ h => h
  · exact ⟨fun h => h, fun hc => (hno (Or.inr hc)).elim⟩

/-- The transaction of a call has its own writes, if its text puts these, or it is pending. -/
theorem txn_writeSet (h : WritesOf W s) {txn : String} {arg : TxnArg}
    (hW : arg.type = .prepare ∨ arg.type = .indep → writeSetOf (E.puts txn) = W arg.txnid)
    (hp : ¬ (arg.type = .prepare ∨ arg.type = .indep) →
      (s.pendingTxns.find? arg.txnid).isSome = true) :
    (s.txn E txn arg).writeSet = W arg.txnid := by
  have hinc : ∀ ws : StdSet (String ×ₗ String), arg.type = .prepare ∨ arg.type = .indep → txn ≠ "" →
      ws = W arg.txnid ∨ ws = StdSet.empty →
      (E.message.parse txn).puts.foldl (fun set kv => set.insert (toLex kv)) ws = W arg.txnid := by
    intro ws ht hne hws
    have hputs : E.puts txn = (E.message.parse txn).puts := if_neg hne
    rw [← hW ht, hputs] at hws ⊢
    rcases hws with rfl | rfl
    · refine StdSet.ext_mem fun x => ?_
      rw [StdSet.mem_foldl_insert, writeSetOf, StdSet.mem_foldl_insert]
      simp
    · rfl
  cases hf : s.pendingTxns.find? arg.txnid with
  | some t =>
    simp only [KVTxnServer.txn, hf, Option.getD_some]
    split_ifs with ht
    · exact hinc _ ht.1 ht.2 (Or.inl (h _ _ hf).2)
    · exact (h _ _ hf).2
  | none =>
    have ht : arg.type = .prepare ∨ arg.type = .indep := by
      by_contra hno
      have := hp hno
      simp [hf] at this
    simp only [KVTxnServer.txn, hf, Option.getD_none]
    split_ifs with hne
    · exact hinc _ ht hne.2 (Or.inr rfl)
    · have hempty : txn = "" := by
        by_contra hno
        exact hne ⟨ht, hno⟩
      rw [← hW ht, KVEnv.puts, if_pos hempty]
      rfl

/-- `InvokeTransaction` up to the locks. -/
theorem lockTransaction_sat (h : WritesOf W s) {txn : String} {arg : TxnArg}
    (hW : arg.type = .prepare ∨ arg.type = .indep → writeSetOf (E.puts txn) = W arg.txnid) :
    Sat (lockTransaction E txn arg) s
      (fun x s' _ => WritesOf W s' ∧ s'.store = s.store ∧ x.1.txnarg = arg ∧
        x.1.writeSet = (s.txn E txn arg).writeSet ∧ (arg.type = .commit → x.2 = false))
      fun _ _ => True := by
  have harg : (s.txn E txn arg).txnarg = arg := by
    rw [KVTxnServer.txn]
    split <;> rfl
  simp only [lockTransaction, sat_bind, sat_get, sat_ite, sat_when, sat_modify, sat_pure]
  refine ⟨fun ht => ?_, fun ht => ⟨fun hp => ⟨?_, trivial, harg, trivial, fun _ => trivial⟩,
    fun _ => ⟨h, trivial, harg, trivial, fun _ => trivial⟩⟩⟩
  · have ht' : arg.type = .prepare ∨ arg.type = .indep := ht.imp_right fun h => h.1
    refine (acquireLocks_sat _ _ _ _ _).mono (fun x₁ s₁ _ h₁ => ?_) fun _ _ h => h
    refine (acquireLocks_sat _ _ _ _ _).mono (fun x₂ s₂ _ h₂ => ?_) fun _ _ h => h
    obtain ⟨hst₁, hp₁, _, ha₁, hw₁⟩ := h₁
    obtain ⟨hst₂, hp₂, _, ha₂, hw₂⟩ := h₂
    have harg' : x₂.1.txnarg = arg := ha₂.trans (ha₁.trans harg)
    have hws := hw₂.trans hw₁
    refine ⟨WritesOf.insert ?_ (congrArg _ harg') ?_, hst₂.trans hst₁, harg', hws, fun hc => ?_⟩
    · rw [WritesOf, hp₂, hp₁]
      exact h
    · rw [hws]
      exact txn_writeSet h hW fun hno => (hno ht').elim
    · rw [hc] at ht'
      rcases ht' with ht' | ht' <;> cases ht'
  · have hs : (s.txn E txn arg).writeSet = W arg.txnid := by
      by_cases ht' : arg.type = .prepare ∨ arg.type = .indep
      · exact txn_writeSet h hW fun hno => (hno ht').elim
      · exact txn_writeSet h hW fun _ => hp
    exact h.insert (congrArg _ harg) hs

/-- `InvokeTransaction`: what a COMMIT puts is what the pending transaction writes. -/
theorem invokeTransaction_sat (h : WritesOf W s) {txn : String} {arg : TxnArg}
    (hW : arg.type = .prepare ∨ arg.type = .indep → writeSetOf (E.puts txn) = W arg.txnid) :
    Sat (invokeTransaction E txn arg) s
      (fun _ s' _ => WritesOf W s' ∧ (arg.type = .commit →
        s'.store = putAll s.store (s.txn E txn arg).writeSet.toList))
      fun _ _ => True := by
  rw [invokeTransaction, sat_bind]
  refine (lockTransaction_sat h hW).mono (fun x s₁ _ h₁ => ?_) fun _ _ h => h
  obtain ⟨hw₁, hst₁, ha, hws, hcomm⟩ := h₁
  obtain ⟨t, blocked⟩ := x
  simp only [sat_bind, sat_ite, sat_pure, sat_get, sat_modify]
  refine ⟨fun hb => ⟨hw₁, fun hc => ?_⟩, fun _ => ?_⟩
  · rw [show blocked = false from hcomm hc] at hb
    cases hb
  · refine (executeTransaction_sat (W := W) t s₁).mono (fun _ s₂ _ h₂ => ?_) fun _ _ h => h
    refine ⟨h₂.1 hw₁, fun hc => ?_⟩
    simp only at ha hws
    rw [← hws, ← hst₁]
    exact h₂.2 (by rw [ha]; exact hc)

/-- A COMMIT of a transaction that is not pending has nothing to put. -/
theorem txn_writeSet_of_none {txn : String} {arg : TxnArg} (ht : arg.type = .commit)
    (h : s.pendingTxns.find? arg.txnid = none) : (s.txn E txn arg).writeSet = StdSet.empty := by
  simp [KVTxnServer.txn, ht, h, KVTxn.new]

end Dsnet.Transaction
