import Dsnet.Granola.Client

/-! What the clients and the leaders of the shards have done, as a ghost: what each client has asked for
    under each number, what the leader of each shard has found when it prepared that, and which requests it
    has executed. A leader tells others its own status, or the fate of the transaction when it knows that;
    and the fate stays what it is when some statuses it is made of are replaced by it. -/

namespace Dsnet.Granola
open Handler Transaction

variable {σ : Type}

/-! ### The fate of a transaction -/

/-- The fate of a transaction, from the statuses that its shards have found. -/
def fate (l : List Status) : Status :=
  if .abort ∈ l then .abort else if .conflict ∈ l then .conflict else .commit

theorem fate_eq_abort {l : List Status} : fate l = .abort ↔ .abort ∈ l := by
  rw [fate]
  split_ifs <;> simp [*]

theorem fate_eq_conflict {l : List Status} : fate l = .conflict ↔ .abort ∉ l ∧ .conflict ∈ l := by
  rw [fate]
  split_ifs <;> simp [*]

theorem fate_congr {l l' : List Status} (ha : .abort ∈ l ↔ .abort ∈ l')
    (hc : .abort ∉ l' → (.conflict ∈ l ↔ .conflict ∈ l')) : fate l = fate l' := by
  simp only [fate, ha]
  split_ifs with h h₁ h₂ h₂
  · rfl
  · rfl
  · exact absurd ((hc h).mp h₁) h₂
  · exact absurd ((hc h).mpr h₂) h₁
  · rfl

/-- Statuses that are replaced by the fate leave it as it is. -/
theorem fate_absorbs {α : Type} {l : List α} {own said : α → Status}
    (h : ∀ x ∈ l, said x = own x ∨ said x = fate (l.map own)) : fate (l.map said) = fate (l.map own) := by
  have hsaid : ∀ st : Status, (fate (l.map own) = st → st ∈ l.map own) → st ∈ l.map said →
      st ∈ l.map own := by
    intro st hst hmem
    obtain ⟨x, hx, rfl⟩ := List.mem_map.mp hmem
    rcases h x hx with heq | heq
    · exact heq ▸ List.mem_map_of_mem hx
    · exact hst heq.symm
  have hown : ∀ st : Status, fate (l.map own) = st → st ∈ l.map own → st ∈ l.map said := by
    intro st hst hmem
    obtain ⟨x, hx, rfl⟩ := List.mem_map.mp hmem
    refine List.mem_map.mpr ⟨x, hx, ?_⟩
    rcases h x hx with heq | heq
    · exact heq
    · exact heq.trans hst
  refine fate_congr ⟨hsaid _ fate_eq_abort.mp, fun ha => hown _ (fate_eq_abort.mpr ha) ha⟩ fun hna =>
    ⟨hsaid _ fun hf => (fate_eq_conflict.mp hf).2, fun hc => hown _ (fate_eq_conflict.mpr ⟨hna, hc⟩) hc⟩

/-- The loop of `CheckVoteQuorum` comes to the fate of all the votes. -/
theorem tallyVotes_eq {v : Nat → Status} : ∀ {kvs : List (Nat × StdMap Nat VoteMessage)} {status : Status},
    status ≠ .abort → (∀ kv ∈ kvs, ∃ msg, kv.2.find? 0 = some msg ∧ msg.status = v kv.1) →
    tallyVotes kvs status = some (fate (status :: kvs.map fun kv => v kv.1))
  | [], status, hne, _ => by
      cases status
      · rfl
      · exact absurd rfl hne
      · rfl
  | kv :: kvs, status, hne, h => by
      obtain ⟨⟨msg, hmsg, hv⟩, hkvs⟩ := List.forall_mem_cons.mp h
      rw [tallyVotes, hmsg]
      simp only [Option.bind_some]
      by_cases ha : msg.status = .abort
      · rw [if_pos ha]
        congr 1
        refine (fate_eq_abort.mpr ?_).symm
        simp [← hv, ha]
      · rw [if_neg ha, tallyVotes_eq (by split_ifs <;> simp [hne]) hkvs]
        congr 1
        by_cases hc : msg.status = .conflict
        · rw [if_pos hc]
          refine fate_congr ?_ fun _ => ?_
          · simp [← hv, hc, hne.symm]
          · simp [← hv, hc]
        · rw [if_neg hc]
          refine fate_congr ?_ fun _ => ?_
          · simp [← hv, Ne.symm ha]
          · simp [← hv, Ne.symm hc]

/-! ### The ghost -/

/-- What a client asks of some shards. -/
structure Ask where
  txnid : Nat
  texts : StdMap Nat String

/-- The shards that are asked. -/
def Ask.shards (a : Ask) : List Nat := a.texts.toList.map Prod.fst

/-- How a request lists the shards. -/
def Ask.ops (a : Ask) : List ShardOp := a.texts.toList.map fun kv => { shard := kv.1, op := "" }

theorem Ask.map_ops (a : Ask) : a.ops.map ShardOp.shard = a.shards := by
  simp [ops, shards]

theorem Ask.length_ops (a : Ask) : a.ops.length = a.shards.length := by
  simp [ops, shards]

/-- A shard of the transaction has something to do. -/
theorem Ask.mem_shards {a : Ask} {q : Nat} {txn : String} (h : a.texts.find? q = some txn) : q ∈ a.shards :=
  List.mem_map.mpr ⟨_, StdMap.mem_of_find? h, rfl⟩

/-- What has been asked and found. The clients' transactions have ids of their own if `U`. -/
structure History (S : Shards σ) (U : Prop) where
  /-- By client and number. -/
  ask : Nat → Nat → Option Ask
  /-- The status that the leader of a shard has found, by shard, client and number. -/
  own : Nat → Nat → Nat → Option Status
  /-- What the leader of a shard has executed. -/
  done : Nat → Nat → Nat → Prop
  disjoint : U → ∀ {c k a c' k' b}, ask c k = some a → ask c' k' = some b → a.txnid = b.txnid → c = c'
  client : ∀ {c k a}, ask c k = some a → c ∈ S.clients
  asked : ∀ {q c k st}, own q c k = some st → ∃ a, ask c k = some a ∧ q ∈ a.shards
  leader : ∀ {q c k st}, own q c k = some st → S.protocol.member (.replica q 0) = true

variable {S : Shards σ} {U : Prop}

/-- Nothing has happened. -/
def History.none : History S U where
  ask _ _ := .none
  own _ _ _ := .none
  done _ _ _ := False
  disjoint _ _ _ _ _ _ _ h := by cases h
  client h := by cases h
  asked h := by cases h
  leader h := by cases h

/-- What process `p` may add: a client asks, the leader of a shard prepares and executes. -/
structure History.Advances (p : Node) (g g' : History S U) : Prop where
  ask : ∀ {c k a}, g.ask c k = some a → g'.ask c k = some a
  ask_of_ne : ∀ {c k}, p ≠ .client c → g'.ask c k = g.ask c k
  own : ∀ {q c k st}, g.own q c k = some st → g'.own q c k = some st
  own_of_ne : ∀ {q c k}, p ≠ .replica q 0 → g'.own q c k = g.own q c k
  done : ∀ {q c k}, g.done q c k → g'.done q c k
  done_of_ne : ∀ {q c k}, p ≠ .replica q 0 → g'.done q c k → g.done q c k

namespace History

theorem Advances.refl (p : Node) (g : History S U) : g.Advances p g where
  ask h := h
  ask_of_ne _ := rfl
  own h := h
  own_of_ne _ := rfl
  done h := h
  done_of_ne _ h := h

theorem Advances.trans {p : Node} {g g' g'' : History S U} (h : g.Advances p g')
    (h' : g'.Advances p g'') : g.Advances p g'' where
  ask ha := h'.ask (h.ask ha)
  ask_of_ne hp := (h'.ask_of_ne hp).trans (h.ask_of_ne hp)
  own ho := h'.own (h.own ho)
  own_of_ne hp := (h'.own_of_ne hp).trans (h.own_of_ne hp)
  done hd := h'.done (h.done hd)
  done_of_ne hp hd := h.done_of_ne hp (h'.done_of_ne hp hd)

variable (g : History S U)

/-- All shards of the transaction have prepared it. -/
def Knows (c k : Nat) : Prop := ∃ a, g.ask c k = some a ∧ ∀ q ∈ a.shards, (g.own q c k).isSome = true

/-- What its fate is then. -/
def outcome (c k : Nat) : Status :=
  fate ((((g.ask c k).map Ask.shards).getD []).filterMap fun q => g.own q c k)

/-- The fate of the transaction is settled. -/
def Settled (c k : Nat) (status : Status) : Prop := g.Knows c k ∧ g.outcome c k = status

/-- What shard `q` may say about the transaction: what it has found, or its fate. -/
def Voted (q c k : Nat) (status : Status) : Prop :=
  (∃ a, g.ask c k = some a ∧ q ∈ a.shards) ∧ (g.own q c k = some status ∨ g.Settled c k status)

/-- What shard `q` may reply: the fate, when it has executed that. -/
def Replied (q c k : Nat) (status : Status) : Prop :=
  (∃ a, g.ask c k = some a ∧ q ∈ a.shards) ∧ g.done q c k ∧ g.Settled c k status

/-- Shard `q` has been asked for this. -/
def Asked (q txnid : Nat) (req : SequencedRequest) : Prop :=
  ∃ a txn, g.ask req.clientid req.clientreqid = some a ∧ a.texts.find? q = some txn ∧ txnid = a.txnid ∧
    req.op = txn ∧ req.ops = a.ops

variable {g} {g' : History S U} {p : Node}

theorem Knows.mono {c k : Nat} (h : g.Knows c k) (hg : g.Advances p g') : g'.Knows c k := by
  obtain ⟨a, ha, hall⟩ := h
  refine ⟨a, hg.ask ha, fun q hq => ?_⟩
  obtain ⟨st, hst⟩ := Option.isSome_iff_exists.mp (hall q hq)
  rw [hg.own hst]
  rfl

/-- The fate of a transaction does not change. -/
theorem Settled.mono {c k : Nat} {status : Status} (h : g.Settled c k status) (hg : g.Advances p g') :
    g'.Settled c k status := by
  refine ⟨h.1.mono hg, ?_⟩
  obtain ⟨⟨a, ha, hall⟩, rfl⟩ := h
  rw [outcome, outcome, hg.ask ha, ha]
  refine congrArg fate (List.filterMap_congr fun q hq => ?_)
  obtain ⟨st, hst⟩ := Option.isSome_iff_exists.mp (hall q hq)
  rw [hst, hg.own hst]

/-- A transaction has one fate. -/
theorem Settled.unique {c k : Nat} {st st' : Status} (h : g.Settled c k st) (h' : g.Settled c k st') :
    st = st' := h.2.symm.trans h'.2

theorem Voted.mono {q c k : Nat} {status : Status} (h : g.Voted q c k status) (hg : g.Advances p g') :
    g'.Voted q c k status := by
  obtain ⟨⟨a, ha, hq⟩, hst⟩ := h
  exact ⟨⟨a, hg.ask ha, hq⟩, hst.imp hg.own fun hs => hs.mono hg⟩

theorem Replied.mono {q c k : Nat} {status : Status} (h : g.Replied q c k status)
    (hg : g.Advances p g') : g'.Replied q c k status := by
  obtain ⟨⟨a, ha, hq⟩, hd, hs⟩ := h
  exact ⟨⟨a, hg.ask ha, hq⟩, hg.done hd, hs.mono hg⟩

theorem Asked.mono {q txnid : Nat} {req : SequencedRequest} (h : g.Asked q txnid req)
    (hg : g.Advances p g') : g'.Asked q txnid req := by
  obtain ⟨a, txn, ha, hrest⟩ := h
  exact ⟨a, txn, hg.ask ha, hrest⟩

/-- The fate, when all shards have prepared. -/
theorem outcome_eq {c k : Nat} {a : Ask} (ha : g.ask c k = some a)
    (hall : ∀ q ∈ a.shards, (g.own q c k).isSome = true) :
    g.outcome c k = fate (a.shards.map fun q => (g.own q c k).getD .commit) := by
  rw [outcome, ha, Option.map_some, Option.getD_some]
  congr 1
  generalize a.shards = l at hall
  induction l with
  | nil => rfl
  | cons q l ih =>
    obtain ⟨hq, hl⟩ := List.forall_mem_cons.mp hall
    obtain ⟨st, hst⟩ := Option.isSome_iff_exists.mp hq
    rw [List.filterMap_cons, hst, List.map_cons, hst, ih hl]
    rfl

/-- A transaction on one shard has the fate that this has found. -/
theorem Voted.settled_of_single {q c k : Nat} {status : Status} (h : g.Voted q c k status) {a : Ask}
    (ha : g.ask c k = some a) (hone : a.shards.length = 1) : g.Settled c k status := by
  obtain ⟨⟨a', ha', hq⟩, hst | hs⟩ := h
  · obtain rfl : a = a' := Option.some.inj (ha.symm.trans ha')
    obtain ⟨x, hx⟩ := List.length_eq_one_iff.mp hone
    obtain rfl : q = x := by simpa [hx] using hq
    refine ⟨⟨a, ha, fun q' hq' => ?_⟩, ?_⟩
    · obtain rfl : q' = q := by simpa [hx] using hq'
      rw [hst]
      rfl
    · rw [outcome, ha]
      simp only [Option.map_some, Option.getD_some, hx, List.filterMap_cons, hst, List.filterMap_nil]
      cases status <;> rfl
  · exact hs

/-! ### What happens -/

/-- Client `c` asks for `b` under number `k`. -/
def put (g : History S U) (c k : Nat) (b : Ask) (hc : c ∈ S.clients) (hnew : g.ask c k = .none)
    (hd : U → ∀ {c' k' a}, g.ask c' k' = some a → a.txnid = b.txnid → c' = c) : History S U where
  ask c' k' := if c' = c ∧ k' = k then some b else g.ask c' k'
  own := g.own
  done := g.done
  disjoint hU {c₁ k₁ a₁ c₂ k₂ a₂} h₁ h₂ hid := by
    split_ifs at h₁ h₂ with h h' h'
    · exact h.1.trans h'.1.symm
    · cases h₁
      exact h.1.trans (hd hU h₂ hid.symm).symm
    · cases h₂
      exact (hd hU h₁ hid).trans h'.1.symm
    · exact g.disjoint hU h₁ h₂ hid
  client {c' k' a} h := by
    split_ifs at h with hne
    · exact hne.1 ▸ hc
    · exact g.client h
  asked h := by
    obtain ⟨a, ha, hq⟩ := g.asked h
    refine ⟨a, ?_, hq⟩
    rw [if_neg, ha]
    rintro ⟨rfl, rfl⟩
    rw [hnew] at ha
    cases ha
  leader := g.leader

theorem ask_put_self {c k : Nat} {b : Ask} {hc hnew}
    {hd : U → ∀ {c' k' a}, g.ask c' k' = some a → a.txnid = b.txnid → c' = c} :
    (g.put c k b hc hnew hd).ask c k = some b := by
  simp [put]

theorem ask_put_of_ne {c k k' : Nat} {b : Ask} {hc hnew}
    {hd : U → ∀ {c' k' a}, g.ask c' k' = some a → a.txnid = b.txnid → c' = c} (h : k' ≠ k) :
    (g.put c k b hc hnew hd).ask c k' = g.ask c k' := by
  simp [put, h]

theorem advances_put {c k : Nat} (b : Ask) (hc) (hnew : g.ask c k = .none)
    (hd : U → ∀ {c' k' a}, g.ask c' k' = some a → a.txnid = b.txnid → c' = c) :
    g.Advances (.client c) (g.put c k b hc hnew hd) where
  ask {c' k' a} h := by
    simp only [put]
    rw [if_neg, h]
    rintro ⟨rfl, rfl⟩
    rw [hnew] at h
    cases h
  ask_of_ne {c' k'} hp := by
    have hne : c' ≠ c := fun h => hp (h ▸ rfl)
    simp [put, hne]
  own h := h
  own_of_ne _ := rfl
  done h := h
  done_of_ne _ h := h

/-- The leader of shard `q` prepares. -/
def vote (g : History S U) (q c k : Nat) (status : Status)
    (hq : S.protocol.member (.replica q 0) = true) (ha : ∃ a, g.ask c k = some a ∧ q ∈ a.shards) :
    History S U where
  ask := g.ask
  own q' c' k' := if q' = q ∧ c' = c ∧ k' = k then some status else g.own q' c' k'
  done := g.done
  disjoint := g.disjoint
  client := g.client
  asked {q' c' k' st} h := by
    split_ifs at h with hne
    · obtain ⟨rfl, rfl, rfl⟩ := hne
      exact ha
    · exact g.asked h
  leader {q' c' k' st} h := by
    split_ifs at h with hne
    · exact hne.1 ▸ hq
    · exact g.leader h

theorem own_vote {q c k : Nat} {status : Status} {hq ha} {c' k' : Nat} :
    (g.vote q c k status hq ha).own q c' k' = if c' = c ∧ k' = k then some status else g.own q c' k' := by
  simp [vote]

theorem advances_vote {q c k : Nat} (status : Status) (hq) (ha) (hnew : g.own q c k = .none) :
    g.Advances (.replica q 0) (g.vote q c k status hq ha) where
  ask h := h
  ask_of_ne _ := rfl
  own {q' c' k' st} h := by
    simp only [vote]
    rw [if_neg, h]
    rintro ⟨rfl, rfl, rfl⟩
    rw [hnew] at h
    cases h
  own_of_ne {q' c' k'} hp := by
    have hne : q' ≠ q := fun h => hp (h ▸ rfl)
    simp [vote, hne]
  done h := h
  done_of_ne _ h := h

/-- The leader of shard `q` executes. -/
def finish (g : History S U) (q c k : Nat) : History S U where
  ask := g.ask
  own := g.own
  done q' c' k' := g.done q' c' k' ∨ (q' = q ∧ c' = c ∧ k' = k)
  disjoint := g.disjoint
  client := g.client
  asked := g.asked
  leader := g.leader

theorem advances_finish {q c k : Nat} : g.Advances (.replica q 0) (g.finish q c k) where
  ask h := h
  ask_of_ne _ := rfl
  own h := h
  own_of_ne _ := rfl
  done h := Or.inl h
  done_of_ne {q' c' k'} hp h := by
    rcases h with h | ⟨rfl, -⟩
    · exact h
    · exact absurd rfl hp

end History

end Dsnet.Granola
