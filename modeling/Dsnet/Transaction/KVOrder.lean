import Dsnet.Transaction.KVIsolation

/-! In which order a transaction's puts take effect. The message lists them; the server keeps them as a set of
    pairs, which it goes through in increasing order. So a key that is put more than once ends with the
    greatest of its values, which is the last one or not. What the transaction gets is what there was
    before. -/

namespace Dsnet.Transaction
open Handler

variable {E : KVEnv} {store : String → Option String} {txn : String} {txnid : Nat}

/-- The keys that the text of a transaction gets, as a set. -/
def readSetOf (gets : List String) : StdSet String := gets.foldl StdSet.insert StdSet.empty

theorem mem_foldl_insert_keys {gets : List String} {set : StdSet String} {key : String} :
    key ∈ (gets.foldl StdSet.insert set).toList ↔ key ∈ set.toList ∨ key ∈ gets := by
  have h := StdSet.mem_foldl_insert (f := id) (x := key) (l := gets) (s := set)
  simpa using h

/-- What is pending under this number, if anything is, is this transaction. -/
def KVTxnServer.Knows (E : KVEnv) (s : KVTxnServer) (txn : String) (txnid : Nat) : Prop :=
  ∀ t, s.pendingTxns.find? txnid = some t →
    t.sets = (readSetOf (E.keys txn false), writeSetOf (E.puts txn))

/-- After some calls, the transaction is executed: as INDEP, or as PREPARE with all locks and, after calls for
    others, as COMMIT. Given are what has been replied, and the states just before and after its puts. -/
inductive Executes (E : KVEnv) (store : String → Option String) (txn : String) (txnid : Nat) :
    List Call → String → KVTxnServer → KVTxnServer → Prop
  | indep {calls : List Call} {result : String} {ret : TxnRet} {s' : KVTxnServer} {o : List Empty} :
      (kvTxnServer E store).Made calls →
      invokeTransaction E txn ⟨txnid, .indep⟩ ((kvTxnServer E store).after calls) =
        (some (result, ret), s', o) →
      ret.blocked = false →
      Executes E store txn txnid calls result ((kvTxnServer E store).after calls) s'
  | twoPhase {calls others : List Call} {opnum : Nat} {result text : String} {ret : TxnRet}
      {s₁ s' : KVTxnServer} {o o' : List Empty} {x : String × TxnRet} :
      (kvTxnServer E store).Made (calls ++ [⟨opnum, txn, ⟨txnid, .prepare⟩, ret⟩] ++ others) →
      invokeTransaction E txn ⟨txnid, .prepare⟩ ((kvTxnServer E store).after calls) =
        (some (result, ret), s₁, o) →
      ret.blocked = false →
      (∀ c ∈ others, c.arg.txnid ≠ txnid) →
      invokeTransaction E text ⟨txnid, .commit⟩ ((kvTxnServer E store).after
        (calls ++ [⟨opnum, txn, ⟨txnid, .prepare⟩, ret⟩] ++ others)) = (some x, s', o') →
      Executes E store txn txnid calls result ((kvTxnServer E store).after
        (calls ++ [⟨opnum, txn, ⟨txnid, .prepare⟩, ret⟩] ++ others)) s'

/-- The puts have been applied one after the other, and each get was answered with what there was. -/
structure InOrder (E : KVEnv) (txn : String) (first : KVTxnServer) (result : String)
    (s s' : KVTxnServer) : Prop where
  puts : s'.store = (E.puts txn).foldl putOne s.store
  gets : ∃ rgets, result = E.reply.serialize { rgets := rgets } ∧
    (∀ key, key ∈ rgets.map Prod.fst ↔ key ∈ E.keys txn false) ∧
    ∀ kv ∈ rgets, kv.2 = (first.store kv.1).getD ""

/-- The last value that is put for a key is the greatest. -/
def LastGreatest (puts : List (String × String)) : Prop :=
  ∀ key value, written puts key = some value → ∀ value', (key, value') ∈ puts → value' ≤ value

/-! ### Lists of puts -/

/-- A key has the value that is put last, or what it had. -/
theorem foldl_putOne (key : String) : ∀ (puts : List (String × String)) (values : String → Option String),
    puts.foldl putOne values key = (written puts key).orElse fun _ => values key
  | [], values => rfl
  | (key', value') :: puts, values => by
      rw [written, List.foldl_cons, List.foldl_cons, foldl_putOne key puts, foldl_putOne key puts]
      cases written puts key with
      | some value => rfl
      | none =>
        by_cases hk : key = key'
        · subst hk
          simp [putOne]
        · simp [putOne, hk]

/-- What is put is written. -/
theorem written_isSome {puts : List (String × String)} {key value : String} (h : (key, value) ∈ puts) :
    (written puts key).isSome = true := by
  induction puts with
  | nil => cases h
  | cons kv puts ih =>
    rw [written, List.foldl_cons, foldl_putOne]
    rcases List.mem_cons.mp h with rfl | h
    · cases written puts key <;> simp [putOne]
    · obtain ⟨value', hv⟩ := Option.isSome_iff_exists.mp (ih h)
      simp [hv]

/-- Putting the set in increasing order is putting the list, just when the last values are the greatest. -/
theorem putAll_writeSetOf_iff (puts : List (String × String)) (values : String → Option String) :
    putAll values (writeSetOf puts).toList = puts.foldl putOne values ↔ LastGreatest puts := by
  have hall : ∀ key value, putAll values (writeSetOf puts).toList key = some value ↔
      ((key, value) ∈ puts ∧ ∀ value', (key, value') ∈ puts → value' ≤ value) ∨
      ((∀ value', (key, value') ∉ puts) ∧ values key = some value) := by
    intro key value
    rw [putAll_eq_some _ _ _ (writeSetOf puts).sorted]
    simp only [mem_writeSetOf]
  constructor
  · intro h key value hv value' hv'
    have hput : puts.foldl putOne values key = some value := by rw [foldl_putOne, hv]; rfl
    rw [← h, hall] at hput
    rcases hput with ⟨_, hgreatest⟩ | ⟨hno, _⟩
    · exact hgreatest value' hv'
    · exact (hno value' hv').elim
  · intro h
    funext key
    refine Option.ext fun value => ?_
    rw [hall, foldl_putOne]
    cases hw : written puts key with
    | some value' =>
      have hmem := mem_of_written hw
      constructor
      · rintro (⟨hv, hgreatest⟩ | ⟨hno, _⟩)
        · exact congrArg some (le_antisymm (hgreatest _ hmem) (h key value' hw _ hv))
        · exact (hno _ hmem).elim
      · intro heq
        obtain rfl : value' = value := by simpa using heq
        exact Or.inl ⟨hmem, h key value' hw⟩
    | none =>
      have hno : ∀ value', (key, value') ∉ puts := fun value' hv => by
        have := written_isSome hv
        simp [hw] at this
      constructor
      · rintro (⟨hv, _⟩ | ⟨_, hv⟩)
        · exact (hno _ hv).elim
        · exact hv
      · exact fun hv => Or.inr ⟨hno, hv⟩

/-! ### Calls -/

/-- The transaction of a PREPARE or INDEP has the sets of its text. -/
theorem KVTxnServer.Knows.sets {s : KVTxnServer} (h : s.Knows E txn txnid) {type : TxnType}
    (ht : type = .prepare ∨ type = .indep) :
    (s.txn E txn ⟨txnid, type⟩).sets = (readSetOf (E.keys txn false), writeSetOf (E.puts txn)) := by
  -- adding the keys once more changes nothing
  have hinc : ∀ t : KVTxn, txn ≠ "" → t.sets = (StdSet.empty, StdSet.empty) ∨
      t.sets = (readSetOf (E.keys txn false), writeSetOf (E.puts txn)) →
      (t.include (E.message.parse txn)).sets =
        (readSetOf (E.keys txn false), writeSetOf (E.puts txn)) := by
    intro t hne hsets
    have hgets : E.keys txn false = (E.message.parse txn).gets := if_neg hne
    have hputs : E.puts txn = (E.message.parse txn).puts := if_neg hne
    rw [hgets, hputs] at hsets ⊢
    rcases hsets with hsets | hsets
    · obtain ⟨hr, hw⟩ := Prod.mk.inj hsets
      rw [KVTxn.sets, KVTxn.include, hr, hw]
      rfl
    · obtain ⟨hr, hw⟩ := Prod.mk.inj hsets
      rw [KVTxn.sets, KVTxn.include, hr, hw]
      refine Prod.ext (StdSet.ext_mem fun x => ?_) (StdSet.ext_mem fun x => ?_)
      · simp only [readSetOf, mem_foldl_insert_keys]
        simp
      · simp only [writeSetOf, StdSet.mem_foldl_insert]
        simp
  have hempty : txn = "" → (E.keys txn false = [] ∧ E.puts txn = []) := by
    rintro rfl
    exact ⟨rfl, rfl⟩
  cases hf : s.pendingTxns.find? txnid with
  | some t =>
    have hsets := h t hf
    simp only [KVTxnServer.txn, hf, Option.getD_some]
    split_ifs with hne
    · exact hinc _ hne.2 (Or.inr hsets)
    · exact hsets
  | none =>
    simp only [KVTxnServer.txn, hf, Option.getD_none]
    split_ifs with hne
    · exact hinc _ hne.2 (Or.inl rfl)
    · have hnil := hempty (by
        by_contra hno
        exact hne ⟨ht, hno⟩)
      rw [hnil.1, hnil.2]
      rfl

/-- `ExecuteTransaction` replies with what it has read. -/
theorem executeTransaction_result (t : KVTxn) (s : KVTxnServer) :
    Sat (executeTransaction E t) s (fun x _ _ => x.1 = E.reply.serialize { rgets := readAll s t })
      fun _ _ => True := by
  simp only [executeTransaction, sat_bind, sat_assert, sat_get, sat_when, sat_modify, sat_ite, sat_pure]
  have hclean : ∀ s' : KVTxnServer, Sat (cleanupTxn E t) s' (fun _ _ _ => True) fun _ _ => True :=
    fun s' => by
      rw [Sat]
      split <;> trivial
  refine ⟨fun _ => ⟨fun _ => ⟨fun _ => ?_, fun _ => trivial⟩, fun _ => ⟨fun _ => ?_, fun _ => trivial⟩⟩,
    fun _ => trivial⟩
  · exact (hclean _).mono (fun _ _ _ _ => trivial) fun _ _ h => h
  · exact (hclean _).mono (fun _ _ _ _ => trivial) fun _ _ h => h

/-- And so does `InvokeTransaction`, if it is not blocked. -/
theorem invokeTransaction_result {s : KVTxnServer} (hs : s.Ok E) (txn : String) (arg : TxnArg) :
    Sat (invokeTransaction E txn arg) s
      (fun x _ _ => x.2.blocked = false →
        x.1 = E.reply.serialize { rgets := readAll s (s.txn E txn arg) })
      fun _ _ => True := by
  rw [invokeTransaction, sat_bind]
  refine (lockTransaction_spec hs.toLocksOk txn arg).mono (fun x s₁ _ h₁ => ?_) fun _ _ h => h.elim
  obtain ⟨t, blocked⟩ := x
  have hread : readAll s₁ t = readAll s (s.txn E txn arg) := by
    have htx : t.txnarg = arg := h₁.txnarg
    have hr : t.readSet = (s.txn E txn arg).readSet := (Prod.mk.inj h₁.sets).1
    rw [readAll, readAll, htx, hr, h₁.store, txnarg_txn]
  simp only [sat_bind, sat_ite, sat_pure, sat_get, sat_modify]
  refine ⟨fun hb hf => ?_, fun _ => ?_⟩
  · rw [hf] at hb
    cases hb
  · refine (executeTransaction_result t s₁).mono (fun x₂ s₂ _ h₂ _ => ?_) fun _ _ h => h
    rw [h₂, hread]

/-- What a call that returns has done. -/
theorem invoked_of_run {s s' : KVTxnServer} (hs : s.Ok E) {arg : TxnArg} {x : String × TxnRet}
    {o : List Empty} (hrun : invokeTransaction E txn arg s = (some x, s', o)) :
    s.Invoked E txn arg x.2 s' := by
  have hinv := invokeTransaction_spec hs txn arg
  rwa [Sat, hrun] at hinv

/-- What a PREPARE or INDEP replies: for each key that its text gets, what there is. -/
theorem gets_of_run {s s' : KVTxnServer} (hs : s.Ok E) (hk : s.Knows E txn txnid) {type : TxnType}
    (ht : type = .prepare ∨ type = .indep) {result : String} {ret : TxnRet} {o : List Empty}
    (hrun : invokeTransaction E txn ⟨txnid, type⟩ s = (some (result, ret), s', o))
    (hb : ret.blocked = false) :
    ∃ rgets, result = E.reply.serialize { rgets := rgets } ∧
      (∀ key, key ∈ rgets.map Prod.fst ↔ key ∈ E.keys txn false) ∧
      ∀ kv ∈ rgets, kv.2 = (s.store kv.1).getD "" := by
  have hres := invokeTransaction_result hs txn ⟨txnid, type⟩
  rw [Sat, hrun] at hres
  have hread : (s.txn E txn ⟨txnid, type⟩).readSet = readSetOf (E.keys txn false) :=
    (Prod.mk.inj (hk.sets ht)).1
  have hall : readAll s (s.txn E txn ⟨txnid, type⟩) = (readSetOf (E.keys txn false)).toList.map
      fun key => (key, (s.store key).getD "") := by
    rw [readAll, txnarg_txn, if_pos ht, hread]
  refine ⟨_, hres hb, fun key => ?_, fun kv hkv => ?_⟩
  · rw [hall, List.map_map]
    simp [readSetOf, Function.comp_def, mem_foldl_insert_keys]
  · rw [hall] at hkv
    obtain ⟨key, _, rfl⟩ := List.mem_map.mp hkv
    rfl

/-- What is written from a set is written in order just when the last values are the greatest. -/
theorem inOrder_iff {first s s' : KVTxnServer} {result : String}
    (hgets : ∃ rgets, result = E.reply.serialize { rgets := rgets } ∧
      (∀ key, key ∈ rgets.map Prod.fst ↔ key ∈ E.keys txn false) ∧
      ∀ kv ∈ rgets, kv.2 = (first.store kv.1).getD "")
    (hst : s'.store = putAll s.store (writeSetOf (E.puts txn)).toList) :
    InOrder E txn first result s s' ↔ LastGreatest (E.puts txn) := by
  rw [← putAll_writeSetOf_iff (E.puts txn) s.store, ← hst]
  exact ⟨fun h => h.puts, fun h => ⟨h, hgets⟩⟩

/-- A PREPARE that is not blocked leaves its sets pending until its transaction is called again. -/
theorem pendingSets_of_made {calls others : List Call} {u : Call}
    (h : (kvTxnServer E store).Made (calls ++ [u] ++ others)) (hu : u.arg.type = .prepare)
    (hub : u.ret.blocked = false) (hothers : ∀ c ∈ others, c.arg.txnid ≠ u.arg.txnid) :
    ((kvTxnServer E store).after (calls ++ [u] ++ others)).pendingSets u.arg.txnid =
      some (((kvTxnServer E store).after calls).txn E u.txn u.arg).sets := by
  induction others using List.reverseRecOn with
  | nil =>
    rw [List.append_nil] at h ⊢
    exact ((invoked_of_made h).prepared hu hub).1
  | append_singleton others v ih =>
    rw [← List.append_assoc] at h ⊢
    have hsame := ((invoked_of_made h).others u.arg.txnid (hothers v (by simp)).symm).sets
    exact hsame.trans (ih (h.of_prefix (List.prefix_append ..)) fun c hc => hothers c (by simp [hc]))

/-- A COMMIT finds what is pending. -/
theorem writeSet_of_pending {s : KVTxnServer} {text : String}
    {sets : StdSet String × StdSet (String ×ₗ String)} (h : s.pendingSets txnid = some sets) :
    (s.txn E text ⟨txnid, .commit⟩).writeSet = sets.2 := by
  obtain ⟨t, ht, rfl⟩ := Option.map_eq_some_iff.mp h
  simp [KVTxnServer.txn, ht, KVTxn.sets]

/-- Whenever a transaction is executed, its puts take effect in their order, and its gets give what there was
    before, just when the last value that it puts for each key is the greatest. -/
theorem puts_in_order_iff {calls : List Call} {result : String} {s s' : KVTxnServer}
    (hk : ((kvTxnServer E store).after calls).Knows E txn txnid)
    (hx : Executes E store txn txnid calls result s s') :
    InOrder E txn ((kvTxnServer E store).after calls) result s s' ↔ LastGreatest (E.puts txn) := by
  cases hx with
  | indep hmade hrun hb =>
    have hok := (askedSaid_of_made hmade).ok
    have hinv := invoked_of_run hok hrun
    refine inOrder_iff (gets_of_run hok hk (Or.inr rfl) hrun hb) ?_
    have hw := (Prod.mk.inj (hk.sets (Or.inr rfl))).2
    rw [hinv.store, KVTxnServer.writes, if_pos ⟨hb, Or.inl rfl⟩, hw]
  | twoPhase hmade hrun hb hothers hcommit =>
    have hmade' : (kvTxnServer E store).Made calls := hmade.of_prefix (by simp)
    refine inOrder_iff (gets_of_run (askedSaid_of_made hmade').ok hk (Or.inl rfl) hrun hb) ?_
    have hinv := invoked_of_run (askedSaid_of_made hmade).ok hcommit
    have hpend := pendingSets_of_made hmade rfl hb hothers
    rw [hk.sets (Or.inl rfl)] at hpend
    rw [hinv.store, KVTxnServer.writes, if_pos ⟨hinv.answered (Or.inl rfl), Or.inr rfl⟩,
      writeSet_of_pending hpend]

/-- The text that gets a key, and puts it with these values. -/
def keyText (values : List String) : String :=
  (KVEnv.plain true).message.serialize { gets := ["k"], puts := values.map fun value => ("k", value) }

theorem puts_keyText (values : List String) :
    (KVEnv.plain true).puts (keyText values) = values.map fun value => ("k", value) := by
  have hne : keyText values ≠ "" := fun h => by
    have hgets := congrArg (fun text => ((KVEnv.plain true).message.parse text).gets) h
    simp only [keyText, Codec.parse_serialize] at hgets
    exact absurd hgets (by decide +kernel)
  rw [KVEnv.puts, if_neg hne, keyText, Codec.parse_serialize]

/-- The store before its first call. -/
def emptyServer : KVTxnServer := KVTxnServer.initial (.plain true) fun _ => none

/-- A first INDEP. -/
theorem executes_indep (values : List String) {x : Option (String × TxnRet)} {s' : KVTxnServer}
    {o : List Empty}
    (h : invokeTransaction (.plain true) (keyText values) ⟨1, .indep⟩ emptyServer = (x, s', o))
    (hx : x.any (fun y => !y.2.blocked) = true) :
    ∃ result, Executes (.plain true) (fun _ => none) (keyText values) 1 [] result emptyServer s' := by
  obtain ⟨⟨result, ret⟩, rfl, hb⟩ := (Option.any_eq_true _ _).mp hx
  exact ⟨result, .indep .nil h (by simpa using hb)⟩

theorem knows_emptyServer (txn : String) : emptyServer.Knows (.plain true) txn 1 := fun _ h => by cases h

theorem puts_in_order_iff_twice : ∃ result s',
    Executes (.plain true) (fun _ => none) (keyText ["a", "b"]) 1 [] result emptyServer s' ∧
    InOrder (.plain true) (keyText ["a", "b"]) emptyServer result emptyServer s' := by
  obtain ⟨result, hx⟩ := executes_indep ["a", "b"] rfl (by decide +kernel)
  refine ⟨result, _, hx, (puts_in_order_iff (knows_emptyServer _) hx).mpr ?_⟩
  rw [puts_keyText]
  intro key value hv value' hv'
  obtain rfl : key = "k" := by
    obtain ⟨_, _, heq⟩ := List.mem_map.mp (mem_of_written hv)
    exact (Prod.mk.inj heq).1.symm
  obtain rfl : "b" = value := by simpa [written, putOne] using hv
  obtain rfl | rfl : value' = "a" ∨ value' = "b" := by simpa using hv'
  · decide
  · exact le_refl _

/-- The key is put with "b" and then with "a", and keeps "b". -/
theorem last_put_lost : ¬ ∀ (E : KVEnv) (store : String → Option String) (txn : String) (txnid : Nat)
    (calls : List Call) (result : String) (s s' : KVTxnServer),
    ((kvTxnServer E store).after calls).Knows E txn txnid →
    Executes E store txn txnid calls result s s' →
    InOrder E txn ((kvTxnServer E store).after calls) result s s' := by
  intro hall
  obtain ⟨result, hx⟩ := executes_indep ["b", "a"] rfl (by decide +kernel)
  have hputs := (hall _ _ _ _ _ _ _ _ (knows_emptyServer _) hx).puts
  rw [puts_keyText] at hputs
  exact absurd (congrFun hputs "k") (by decide +kernel)

end Dsnet.Transaction
