import Dsnet.Transaction.Calls
import Dsnet.Transaction.KVLocks

/-! Isolation of the transactions of the key value store: from a PREPARE that is not blocked until the
    transaction is finished, no other transaction writes a key that it reads or writes. The store counts
    on its callers for that: a COMMIT is to follow only when the last that asked for the locks of the
    transaction, its PREPARE or its INDEP, has got them. -/

namespace Dsnet.Transaction
open Handler

variable {E : KVEnv} {store : String → Option String}

/-- The last call that has asked for the locks of a transaction. -/
def lastAsked (calls : List Call) (txnid : Nat) : Option Call :=
  (calls.filter fun c => c.arg.txnid = txnid ∧ (c.arg.type = .prepare ∨ c.arg.type = .indep)).getLast?

/-- A COMMIT follows only when the PREPARE or INDEP that was the last has not been blocked. -/
def CommitsLocked (calls : List Call) : Prop :=
  ∀ i (h : i < calls.length), calls[i].arg.type = .commit →
    ∃ u ∈ lastAsked (calls.take i) calls[i].arg.txnid, u.ret.blocked = false ∧ u.ret.commit = true

instance : DecidablePred CommitsLocked := fun calls =>
  inferInstanceAs (Decidable (∀ i (h : i < calls.length), calls[i].arg.type = .commit →
    ∃ u ∈ lastAsked (calls.take i) calls[i].arg.txnid, u.ret.blocked = false ∧ u.ret.commit = true))

/-- A COMMIT follows only when the last PREPARE has not been blocked. -/
def CommitsPrepared (calls : List Call) : Prop :=
  ∀ i (h : i < calls.length), calls[i].arg.type = .commit →
    ∃ u ∈ lastPrepare (calls.take i) calls[i].arg.txnid, u.ret.blocked = false ∧ u.ret.commit = true

instance : DecidablePred CommitsPrepared := fun calls =>
  inferInstanceAs (Decidable (∀ i (h : i < calls.length), calls[i].arg.type = .commit →
    ∃ u ∈ lastPrepare (calls.take i) calls[i].arg.txnid, u.ret.blocked = false ∧ u.ret.commit = true))

/-- What a transaction has prepared is not written by another, until a call of one of these types for it;
    and no lock is held when no transaction is pending. -/
structure IsolatedUntil (E : KVEnv) (store : String → Option String) (ends : List TxnType)
    (calls : List Call) : Prop where
  others : ∀ pre u mid c post, calls = pre ++ u :: mid ++ c :: post →
    u.arg.type = .prepare → u.ret.blocked = false → c.arg.txnid ≠ u.arg.txnid →
    (∀ v ∈ mid, v.arg.txnid = u.arg.txnid → v.arg.type ∉ ends) →
    ∃ t, ((kvTxnServer E store).after (pre ++ [u])).pendingTxns.find? u.arg.txnid = some t ∧
      (∀ w, ∀ key ∈ E.keys u.txn w, key ∈ t.keys w) ∧ ∀ w, ∀ key ∈ t.keys w,
        (∀ value, toLex (key, value) ∉
          ((kvTxnServer E store).after (pre ++ u :: mid)).writes E c.txn c.arg c.ret) ∧
        ((kvTxnServer E store).after (pre ++ u :: mid ++ [c])).store key =
          ((kvTxnServer E store).after (pre ++ u :: mid)).store key
  unlocked : ((kvTxnServer E store).after calls).pendingTxns.size = 0 →
    ∀ key, (((kvTxnServer E store).after calls).lockServer.lock key).holders.toList = []

/-! ### What calls have locked -/

namespace KVTxnServer
variable {s s' : KVTxnServer} {id : Nat}

/-- The transaction, if it is pending, holds all the locks it needs. -/
def AllLocked (s : KVTxnServer) (id : Nat) : Prop :=
  ∀ t, s.pendingTxns.find? id = some t → ∀ w, ∀ key ∈ t.keys w, s.lockServer.Holds w key id

theorem AllLocked.kept (h : s.AllLocked id) (hk : Kept s s' id) : s'.AllLocked id := by
  intro t' ht' w key hkey
  have hsets := hk.sets
  rw [pendingSets, pendingSets, ht', Option.map_some] at hsets
  obtain ⟨t, ht, heq⟩ := Option.map_eq_some_iff.mp hsets.symm
  rw [KVTxn.keys_congr heq.symm] at hkey
  exact hk.holds (h t ht w key hkey)

theorem Free.allLocked (h : s.Free id) : s.AllLocked id := by
  intro t ht
  rw [h.1] at ht
  cases ht

/-- Where no transaction is pending, no lock has a holder. -/
theorem Ok.unlocked (h : s.Ok E) (hp : s.pendingTxns.size = 0) (key : String) :
    (s.lockServer.lock key).holders.toList = [] := by
  have hnone : ∀ {w id}, ¬ s.lockServer.Holds w key id := by
    intro w id hheld
    obtain ⟨t, ht, -⟩ := h.covered hheld
    rw [StdMap.find?, List.length_eq_zero_iff.mp hp] at ht
    cases ht
  refine List.eq_nil_iff_forall_not_mem.mpr fun t ht => ?_
  have hheld := (h.locks.locks key).held
  rw [Lock.Held] at hheld
  cases hst : (s.lockServer.lock key).state with
  | unlocked =>
    simp only [hst] at hheld
    rw [hheld] at ht
    cases ht
  | lockedForRead => exact hnone (w := false) ⟨ht, Or.inr hst⟩
  | lockedForWrite => exact hnone (w := true) ⟨ht, Or.inr hst⟩
  | lockedForReadWrite => exact hnone (w := true) ⟨ht, Or.inl hst⟩

end KVTxnServer

theorem lastAsked_append_self {calls : List Call} {c : Call}
    (hc : c.arg.type = .prepare ∨ c.arg.type = .indep) : lastAsked (calls ++ [c]) c.arg.txnid = some c := by
  simp [lastAsked, hc]

theorem lastAsked_append_of_not {calls : List Call} {c : Call} {txnid : Nat}
    (hc : ¬ (c.arg.txnid = txnid ∧ (c.arg.type = .prepare ∨ c.arg.type = .indep))) :
    lastAsked (calls ++ [c]) txnid = lastAsked calls txnid := by
  rw [lastAsked, lastAsked, List.filter_append, List.filter_cons_of_neg (by simpa using hc)]
  simp

/-- After some calls: a transaction that has asked last without being blocked holds all that it needs. -/
structure AskedSaid (E : KVEnv) (calls : List Call) (s : KVTxnServer) : Prop where
  ok : s.Ok E
  locked : ∀ {id u}, lastAsked calls id = some u → u.ret.blocked = false → s.AllLocked id

theorem AskedSaid.append {calls : List Call} {s s' : KVTxnServer} (h : AskedSaid E calls s) {c : Call}
    (hc : s.Invoked E c.txn c.arg c.ret s') : AskedSaid E (calls ++ [c]) s' := by
  refine ⟨hc.ok, fun {id u} hl hb => ?_⟩
  by_cases hid : id = c.arg.txnid
  · subst hid
    by_cases hp : c.arg.type = .prepare
    · rw [lastAsked_append_self (Or.inl hp)] at hl
      cases hl
      obtain ⟨hsets, hholds⟩ := hc.prepared hp hb
      obtain ⟨t', ht', heq⟩ := Option.map_eq_some_iff.mp hsets
      intro t ht w key hkey
      rw [ht'] at ht
      cases ht
      rw [KVTxn.keys_congr heq] at hkey
      exact hholds w key hkey
    · by_cases hi : c.arg.type = .indep
      · rw [lastAsked_append_self (Or.inr hi)] at hl
        cases hl
        exact (hc.finished hp hb).allLocked
      · have hfin : c.arg.type = .commit ∨ c.arg.type = .abort := by
          cases ht : c.arg.type <;> simp_all
        exact (hc.finished hp (hc.answered hfin)).allLocked
  · rw [lastAsked_append_of_not fun hh => hid hh.1.symm] at hl
    exact (h.locked hl hb).kept (hc.others id hid)

theorem askedSaid_of_made {calls : List Call} (h : (kvTxnServer E store).Made calls) :
    AskedSaid E calls ((kvTxnServer E store).after calls) := by
  refine h.induct (J := AskedSaid E) ?_ fun calls txn arg s opnum hs => ?_
  · exact ⟨KVTxnServer.ok_initial E store, fun h => by simp [lastAsked] at h⟩
  · exact (invokeTransaction_spec hs.ok txn arg).mono (fun x s' _ hx =>
      hs.append (c := ⟨opnum, txn, arg, x.2⟩) hx) fun _ _ _ => trivial

/-- What the next of the calls that have been made does. -/
theorem invoked_of_made {calls : List Call} {c : Call} (h : (kvTxnServer E store).Made (calls ++ [c])) :
    ((kvTxnServer E store).after calls).Invoked E c.txn c.arg c.ret
      ((kvTxnServer E store).after (calls ++ [c])) := by
  have hpre := h.of_prefix (List.prefix_append calls [c])
  generalize hall : calls ++ [c] = all at h
  cases h with
  | nil => simp at hall
  | @snoc calls' c' result h hret =>
    obtain ⟨rfl, rfl⟩ : calls = calls' ∧ c = c' := by simpa using List.append_inj' hall rfl
    rw [TxnServer.after_append]
    rcases (invokeTransaction_spec (askedSaid_of_made hpre).ok c.txn c.arg).cases with
      ⟨⟨result', ret⟩, s', o, hx, hinv⟩ | ⟨s', o, hx, -⟩
    · have hx' : (kvTxnServer E store).invokeTransaction c.txn c.arg
          ((kvTxnServer E store).after calls) = (some (result', ret), s', o) := hx
      rw [hx'] at hret ⊢
      cases hret
      exact hinv
    · have hx' : (kvTxnServer E store).invokeTransaction c.txn c.arg
          ((kvTxnServer E store).after calls) = (none, s', o) := hx
      rw [hx'] at hret
      cases hret

/-! ### Isolation -/

/-- A key that is not among the writes keeps its value. -/
theorem putAll_of_not_mem {key : String} : ∀ {writes : List (String ×ₗ String)}
    (values : String → Option String), (∀ value, toLex (key, value) ∉ writes) →
    putAll values writes key = values key
  | [], values, _ => rfl
  | x :: writes, values, h => by
      obtain ⟨⟨key', value'⟩, rfl⟩ : ∃ y, x = toLex y := ⟨ofLex x, rfl⟩
      have hne : key ≠ key' := by
        rintro rfl
        exact h value' List.mem_cons_self
      have hrest := putAll_of_not_mem (Function.update values key' (some value'))
        fun value hv => h value (List.mem_cons_of_mem _ hv)
      exact hrest.trans (Function.update_of_ne hne _ _)

/-- A key that a transaction has locked is not written by a call for another. -/
theorem not_mem_writes {s s' : KVTxnServer} {c : Call} (hs : s.Ok E)
    (hc : s.Invoked E c.txn c.arg c.ret s')
    (hcommit : c.arg.type = .commit → s.AllLocked c.arg.txnid) {w : Bool} {key : String} {id : Nat}
    (hheld : s.lockServer.Holds w key id) (hne : c.arg.txnid ≠ id) (value : String) :
    toLex (key, value) ∉ s.writes E c.txn c.arg c.ret := by
  rw [KVTxnServer.writes]
  split_ifs with hw
  · intro hmem
    have hkey : key ∈ (s.txn E c.txn c.arg).keys true := List.mem_map.mpr ⟨_, hmem, rfl⟩
    rcases hw.2 with hi | hcm
    · exact hc.alone hi hw.1 key hkey w id hne.symm hheld
    · -- a COMMIT writes what its transaction has locked
      cases hp : s.pendingTxns.find? c.arg.txnid with
      | none =>
        rw [txn_writeSet_of_none hcm hp] at hmem
        cases hmem
      | some t =>
        have htxn : (s.txn E c.txn c.arg).keys = t.keys := by
          refine KVTxn.keys_congr ?_
          rw [KVTxnServer.txn, hp]
          simp [hcm, KVTxn.sets]
        rw [htxn] at hkey
        exact hne (LockServer.Holds.unique hs.locks (hcommit hcm t hp true key hkey) hheld).symm
  · simp

/-- What an unblocked PREPARE has locked stays locked. -/
theorem holds_of_made {pre mid : List Call} {u : Call}
    (h : (kvTxnServer E store).Made (pre ++ u :: mid)) (hu : u.arg.type = .prepare)
    (hub : u.ret.blocked = false)
    (hmid : ∀ v ∈ mid, v.arg.txnid = u.arg.txnid → v.arg.type ∉ [TxnType.commit, .abort, .indep]) {w : Bool}
    {key : String} (hkey : key ∈ (((kvTxnServer E store).after pre).txn E u.txn u.arg).keys w) :
    ((kvTxnServer E store).after (pre ++ u :: mid)).lockServer.Holds w key u.arg.txnid := by
  induction mid using List.reverseRecOn with
  | nil => exact ((invoked_of_made h).prepared hu hub).2 w key hkey
  | append_singleton mid v ih =>
    have heq : pre ++ u :: (mid ++ [v]) = (pre ++ u :: mid) ++ [v] := by simp
    rw [heq] at h ⊢
    have hheld := ih (h.of_prefix (List.prefix_append ..)) fun v' hv' => hmid v' (by simp [hv'])
    have hinv := invoked_of_made h
    by_cases hid : v.arg.txnid = u.arg.txnid
    · have htype : v.arg.type = .prepare := by
        have hends := hmid v (by simp) hid
        revert hends
        cases v.arg.type <;> decide
      rw [← hid] at hheld ⊢
      exact hinv.own htype hheld
    · exact (hinv.others _ (Ne.symm hid)).holds hheld

/-- Between an unblocked PREPARE and the COMMIT, ABORT or INDEP of its transaction no other call writes its
    keys, if COMMITs follow only on locks. -/
theorem isolated_of_made {calls : List Call} (h : (kvTxnServer E store).Made calls)
    (hc : CommitsLocked calls) : IsolatedUntil E store [.commit, .abort, .indep] calls where
  others pre u mid c post heq hu hub hne hmid := by
    have hmade : (kvTxnServer E store).Made (pre ++ u :: mid ++ [c]) :=
      h.of_prefix ⟨post, by simp [heq]⟩
    have hmade' := hmade.of_prefix (List.prefix_append _ [c])
    have hpre : (kvTxnServer E store).Made (pre ++ [u]) := h.of_prefix ⟨mid ++ c :: post, by simp [heq]⟩
    have hinv := invoked_of_made hmade
    have hasked := askedSaid_of_made hmade'
    have hsets := ((invoked_of_made hpre).prepared hu hub).1
    obtain ⟨t, ht, htsets⟩ := Option.map_eq_some_iff.mp hsets
    have hkeys := KVTxn.keys_congr htsets
    refine ⟨t, ht, fun w key hkey => ?_, fun w key hkey => ?_⟩
    · rw [hkeys]
      exact mem_keys_of_text (Or.inl hu) hkey
    · rw [hkeys] at hkey
      have hno : ∀ value, toLex (key, value) ∉ _ := not_mem_writes hasked.ok hinv (fun hcm => by
        have hget : calls[(pre ++ u :: mid).length]? = some c := by simp [heq]
        have htake : calls.take (pre ++ u :: mid).length = pre ++ u :: mid := by
          rw [heq, List.take_left']
          rfl
        obtain ⟨hi, hci⟩ := List.getElem?_eq_some_iff.mp hget
        obtain ⟨a, ha, hab, -⟩ := hc _ hi (by rwa [hci])
        rw [hci, htake] at ha
        exact hasked.locked ha hab) (holds_of_made hmade' hu hub hmid hkey) hne
      refine ⟨hno, ?_⟩
      rw [hinv.store]
      exact putAll_of_not_mem _ hno
  unlocked hp := (askedSaid_of_made h).ok.unlocked hp

/-- A call with its result, of a store that leaves waiting to its clients. -/
def kvCall (txnid : Nat) (type : TxnType) (puts : List (String × String)) (blocked : Bool)
    (mode : ServerMode) : Call where
  opnum := 0
  txn := if puts = [] then "" else (KVEnv.plain true).message.serialize { gets := [], puts := puts }
  arg := { txnid := txnid, type := type }
  ret := { txnid := txnid, blocked := blocked, commit := !blocked, unblockedTxns := StdSet.empty, mode := mode }

/-- The store of these calls. -/
def emptyStore : TxnServer KVTxnServer := kvTxnServer (.plain true) fun _ => none

/-- While transaction 1 is prepared, transaction 2 asks for its key and is blocked. -/
def prepareBlocked : List Call :=
  [kvCall 1 .prepare [("k", "v")] false .locking, kvCall 2 .prepare [("k", "w")] true .locking,
    kvCall 1 .commit [] false .locking]

theorem isolated_of_made_blocked :
    IsolatedUntil (.plain true) (fun _ => none) [.commit, .abort, .indep] prepareBlocked :=
  isolated_of_made (TxnServer.made_of_returns (A := emptyStore) .nil (by decide +kernel))
    (by decide +kernel)

/-- Transaction 2 commits after it has asked for one more key by an INDEP, which is blocked. -/
def independentBlocked : List Call :=
  [kvCall 1 .prepare [("k", "v")] false .locking, kvCall 2 .prepare [("l", "v")] false .locking,
    kvCall 2 .indep [("k", "w")] true .locking, kvCall 2 .commit [] false .locking]

/-- Transaction 1 is prepared and then executed by an INDEP. -/
def independentExecuted : List Call :=
  [kvCall 1 .prepare [("k", "v")] false .locking, kvCall 1 .indep [] false .normal,
    kvCall 2 .prepare [("k", "w")] false .locking, kvCall 2 .commit [] false .normal]

/-- The last of four calls writes a key of the transaction that the first has prepared. -/
theorem not_isolated {ends : List TxnType} {u v v' c : Call} (hu : u.arg.type = .prepare)
    (hub : u.ret.blocked = false) (hne : c.arg.txnid ≠ u.arg.txnid)
    (hmid : ∀ x ∈ [v, v'], x.arg.txnid = u.arg.txnid → x.arg.type ∉ ends)
    (hkey : "k" ∈ (KVEnv.plain true).keys u.txn true)
    (hchange : (emptyStore.after [u, v, v', c]).store "k" ≠ (emptyStore.after [u, v, v']).store "k") :
    ¬ IsolatedUntil (.plain true) (fun _ => none) ends [u, v, v', c] := by
  intro h
  obtain ⟨t, -, hkeys, hsame⟩ := h.others [] u [v, v'] c [] rfl hu hub hne hmid
  exact hchange (hsame true "k" (hkeys true "k" hkey)).2

/-- An INDEP that is blocked adds keys that are not locked to what a COMMIT writes; and an INDEP of a
    prepared transaction releases its locks. -/
theorem independent_not_isolated :
    (∃ calls, emptyStore.Made calls ∧ CommitsPrepared calls ∧
      ¬ IsolatedUntil (.plain true) (fun _ => none) [.commit, .abort] calls ∧
      ¬ IsolatedUntil (.plain true) (fun _ => none) [.commit, .abort, .indep] calls) ∧
    ∃ calls, emptyStore.Made calls ∧ CommitsPrepared calls ∧ CommitsLocked calls ∧
      ¬ IsolatedUntil (.plain true) (fun _ => none) [.commit, .abort] calls := by
  refine ⟨⟨independentBlocked, TxnServer.made_of_returns .nil (by decide +kernel), by decide +kernel,
    not_isolated rfl rfl (by decide) (by decide) (by decide +kernel) (by decide +kernel),
    not_isolated rfl rfl (by decide) (by decide) (by decide +kernel) (by decide +kernel)⟩,
    ⟨independentExecuted, TxnServer.made_of_returns .nil (by decide +kernel), by decide +kernel,
      by decide +kernel,
      not_isolated rfl rfl (by decide) (by decide) (by decide +kernel) (by decide +kernel)⟩⟩

end Dsnet.Transaction
