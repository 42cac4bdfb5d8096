import Dsnet.Spanner.Client

/-! What the clients and the leaders of the shards rely on. The ghost is a `History`: what each client has
    asked for under each number, and what the leader of each shard has replied. A client asks for the next
    thing only when all shards have replied to the one before; so an OK stands until the COMMIT that it
    leads to, and a leader has done all that a client has asked of it before the client asks for more. -/

namespace Dsnet.Spanner
open Handler Transaction

variable {σ : Type}

/-! ### The ghost -/

/-- What a client asks of some shards. -/
structure Ask where
  txnid : Nat
  type : RequestType
  texts : StdMap Nat String

/-- The data that goes with each request. -/
def Ask.data (a : Ask) : TxnData := { txnid := a.txnid, type := a.type }

/-- The text for shard `q`. -/
def Ask.op (a : Ask) (txn : String) : String := if a.type = .prepare then txn else ""

/-- The shards that are asked. -/
def Ask.shards (a : Ask) : List Nat := a.texts.toList.map Prod.fst

/-- What may be asked for after `a`, when the shards have replied `res` to that: what to do with the same
    transaction, or to PREPARE a later one. -/
structure Follows (a b : Ask) (res : Nat → Option ReplyType) : Prop where
  replied : ∀ q ∈ a.shards, (res q).isSome = true
  next : (a.type = .prepare ∧ b.txnid = a.txnid ∧ b.texts = a.texts ∧ b.type ≠ .unknown ∧
      (b.type = .commit → ∀ q ∈ a.shards, res q = some .ok)) ∨
    (a.type ≠ .prepare ∧ b.type = .prepare ∧ a.txnid < b.txnid)

/-- Replies stand. -/
theorem Follows.mono {a b : Ask} {res res' : Nat → Option ReplyType} (h : Follows a b res)
    (hr : ∀ {q r}, res q = some r → res' q = some r) : Follows a b res' where
  replied q hq := by
    obtain ⟨r, hres⟩ := Option.isSome_iff_exists.mp (h.replied q hq)
    rw [hr hres]
    rfl
  next := h.next.imp_left fun ⟨ha, hid, ht, hu, hc⟩ => ⟨ha, hid, ht, hu, fun hb q hq => hr (hc hb q hq)⟩

/-- What has been asked and replied. -/
structure History (S : Shards σ) where
  /-- By client and number. -/
  ask : Nat → Nat → Option Ask
  /-- By shard, client and number. -/
  result : Nat → Nat → Nat → Option ReplyType
  zero : ∀ c, ask c 0 = none
  follows : ∀ {c k b}, ask c (k + 1) = some b → (k = 0 ∧ b.type = .prepare) ∨
    ∃ a, ask c k = some a ∧ Follows a b fun q => result q c k
  disjoint : ∀ {c k a c' k' b}, ask c k = some a → ask c' k' = some b → a.txnid = b.txnid → c = c'
  client : ∀ {c k a}, ask c k = some a → c ∈ S.clients
  leader : ∀ {q c k r}, result q c k = some r → S.protocol.member (.replica q 0) = true
  asked : ∀ {q c k r}, result q c k = some r → ∃ a, ask c k = some a ∧ q ∈ a.shards

variable {S : Shards σ}

/-- Nothing has happened. -/
def History.none : History S where
  ask _ _ := .none
  result _ _ _ := .none
  zero _ := rfl
  follows h := by cases h
  disjoint h := by cases h
  client h := by cases h
  leader h := by cases h
  asked h := by cases h

/-- What process `p` may add: a client asks, the leader of a shard replies. -/
structure History.Advances (p : Node) (g g' : History S) : Prop where
  ask : ∀ {c k a}, g.ask c k = some a → g'.ask c k = some a
  ask_of_ne : ∀ {c k}, p ≠ .client c → g'.ask c k = g.ask c k
  result : ∀ {q c k r}, g.result q c k = some r → g'.result q c k = some r
  result_of_ne : ∀ {q c k}, p ≠ .replica q 0 → g'.result q c k = g.result q c k

namespace History

theorem Advances.refl (p : Node) (g : History S) : g.Advances p g where
  ask h := h
  ask_of_ne _ := rfl
  result h := h
  result_of_ne _ := rfl

theorem Advances.trans {p : Node} {g g' g'' : History S} (h : g.Advances p g')
    (h' : g'.Advances p g'') : g.Advances p g'' where
  ask ha := h'.ask (h.ask ha)
  ask_of_ne hp := (h'.ask_of_ne hp).trans (h.ask_of_ne hp)
  result hr := h'.result (h.result hr)
  result_of_ne hp := (h'.result_of_ne hp).trans (h.result_of_ne hp)

/-- Client `c` asks for `b` under its next number. -/
def put (g : History S) (c k : Nat) (b : Ask) (hc : c ∈ S.clients) (hnew : ∀ k', k < k' → g.ask c k' = .none)
    (hf : (k = 0 ∧ b.type = .prepare) ∨ ∃ a, g.ask c k = some a ∧ Follows a b fun q => g.result q c k)
    (hd : ∀ {c' k' a}, g.ask c' k' = some a → a.txnid = b.txnid → c' = c) : History S where
  ask := Function.update g.ask c (Function.update (g.ask c) (k + 1) (some b))
  result := g.result
  zero c' := by
    by_cases hne : c' = c
    · subst hne
      rw [Function.update_self, Function.update_of_ne (Nat.zero_ne_add_one k)]
      exact g.zero c'
    · rw [Function.update_of_ne hne]
      exact g.zero c'
  follows {c' k' a} h := by
    by_cases hne : c' = c
    · subst hne
      simp only [Function.update_self] at h ⊢
      by_cases hk : k' = k
      · subst hk
        rw [Function.update_self] at h
        cases h
        rwa [Function.update_of_ne (Nat.ne_of_lt (Nat.lt_succ_self k'))]
      · rw [Function.update_of_ne (by omega)] at h
        rcases g.follows h with h | ⟨x, hx, hfol⟩
        · exact Or.inl h
        · refine Or.inr ⟨x, ?_, hfol⟩
          rw [Function.update_of_ne, hx]
          rintro rfl
          rw [hnew _ (Nat.lt_succ_self k)] at hx
          cases hx
    · rw [Function.update_of_ne hne] at h ⊢
      exact g.follows h
  disjoint {c₁ k₁ a₁ c₂ k₂ a₂} h₁ h₂ hid := by
    have hold : ∀ {c' k' a}, Function.update g.ask c (Function.update (g.ask c) (k + 1) (some b)) c' k' =
        some a → g.ask c' k' = some a ∨ (c' = c ∧ a = b) := by
      intro c' k' a h
      by_cases hne : c' = c
      · subst hne
        rw [Function.update_self] at h
        by_cases hk : k' = k + 1
        · subst hk
          rw [Function.update_self] at h
          exact Or.inr ⟨rfl, (Option.some.inj h).symm⟩
        · rw [Function.update_of_ne hk] at h
          exact Or.inl h
      · rw [Function.update_of_ne hne] at h
        exact Or.inl h
    rcases hold h₁ with hold₁ | ⟨rfl, rfl⟩
    · rcases hold h₂ with hold₂ | ⟨rfl, rfl⟩
      · exact g.disjoint hold₁ hold₂ hid
      · exact hd hold₁ hid
    · rcases hold h₂ with hold₂ | ⟨rfl, rfl⟩
      · exact (hd hold₂ hid.symm).symm
      · rfl
  client {c' k' a} h := by
    by_cases hne : c' = c
    · exact hne ▸ hc
    · rw [Function.update_of_ne hne] at h
      exact g.client h
  leader := g.leader
  asked {q c' k' r} h := by
    obtain ⟨a, ha, hq⟩ := g.asked h
    refine ⟨a, ?_, hq⟩
    by_cases hne : c' = c
    · subst hne
      rw [Function.update_self, Function.update_of_ne, ha]
      rintro rfl
      rw [hnew _ (Nat.lt_succ_self k)] at ha
      cases ha
    · rwa [Function.update_of_ne hne]

/-- The leader of shard `q` replies. -/
def reply (g : History S) (q c k : Nat) (r : ReplyType)
    (hq : S.protocol.member (.replica q 0) = true) (hres : g.result q c k = .none)
    (ha : ∃ a, g.ask c k = some a ∧ q ∈ a.shards) : History S where
  ask := g.ask
  result q' c' k' := if q' = q ∧ c' = c ∧ k' = k then some r else g.result q' c' k'
  zero := g.zero
  follows h := by
    refine (g.follows h).imp_right fun ⟨x, hx, hfol⟩ => ⟨x, hx, hfol.mono fun {q' r'} h => ?_⟩
    rw [if_neg, h]
    rintro ⟨rfl, rfl, rfl⟩
    rw [hres] at h
    cases h
  disjoint := g.disjoint
  client := g.client
  leader {q' c' k' r'} h := by
    split_ifs at h with hne
    · exact hne.1 ▸ hq
    · exact g.leader h
  asked {q' c' k' r'} h := by
    split_ifs at h with hne
    · obtain ⟨rfl, rfl, rfl⟩ := hne
      exact ha
    · exact g.asked h

theorem ask_put_self {g : History S} {c k : Nat} {b : Ask} {hc hnew hf}
    {hd : ∀ {c' k' a}, g.ask c' k' = some a → a.txnid = b.txnid → c' = c} :
    (g.put c k b hc hnew hf hd).ask c (k + 1) = some b := by
  simp [put]

theorem ask_put_of_ne {g : History S} {c k k' : Nat} {b : Ask} {hc hnew hf}
    {hd : ∀ {c' k' a}, g.ask c' k' = some a → a.txnid = b.txnid → c' = c} (h : k' ≠ k + 1) :
    (g.put c k b hc hnew hf hd).ask c k' = g.ask c k' := by
  simp [put, h]

theorem advances_put {g : History S} {c k : Nat} (b : Ask) (hc) (hnew : ∀ k', k < k' → g.ask c k' = .none)
    (hf) (hd : ∀ {c' k' a}, g.ask c' k' = some a → a.txnid = b.txnid → c' = c) :
    g.Advances (.client c) (g.put c k b hc hnew hf hd) where
  ask {c' k' a} h := by
    by_cases hne : c' = c
    · subst hne
      rw [ask_put_of_ne, h]
      rintro rfl
      rw [hnew _ (Nat.lt_succ_self k)] at h
      cases h
    · simpa only [put, Function.update_of_ne hne] using h
  ask_of_ne {c' k'} hp := by
    have hne : c' ≠ c := fun h => hp (h ▸ rfl)
    simp only [put, Function.update_of_ne hne]
  result h := h
  result_of_ne _ := rfl

theorem result_reply_self {g : History S} {q c k : Nat} {r : ReplyType} {hq hres ha} :
    (g.reply q c k r hq hres ha).result q c k = some r := by
  simp [reply]

theorem advances_reply {g : History S} {q c k : Nat} (r : ReplyType) (hq)
    (hres : g.result q c k = .none) (ha) :
    g.Advances (.replica q 0) (g.reply q c k r hq hres ha) where
  ask h := h
  ask_of_ne _ := rfl
  result {q' c' k' r'} h := by
    simp only [reply]
    rw [if_neg, h]
    rintro ⟨rfl, rfl, rfl⟩
    rw [hres] at h
    cases h
  result_of_ne {q' c' k'} hp := by
    simp only [reply]
    rw [if_neg]
    rintro ⟨rfl, -, -⟩
    exact hp rfl

/-! ### What the numbers say -/

variable (g : History S)

/-- Before a request there is one for every smaller number. -/
theorem exists_ask {c : Nat} : ∀ {k k' : Nat} {b : Ask}, g.ask c k' = some b → 0 < k → k ≤ k' →
    ∃ a, g.ask c k = some a
  | k, 0, b, h, hk, hle => absurd hle (by omega)
  | k, k' + 1, b, h, hk, hle => by
      by_cases heq : k = k' + 1
      · exact ⟨b, heq ▸ h⟩
      · rcases g.follows h with ⟨rfl, -⟩ | ⟨a, ha, -⟩
        · omega
        · exact exists_ask ha hk (by omega)

/-- A client works at its transactions one after the other. -/
theorem txnid_le {c : Nat} : ∀ {k k' : Nat} {a b : Ask}, g.ask c k = some a → g.ask c k' = some b →
    k < k' → a.txnid ≤ b.txnid ∧ (a.txnid = b.txnid → a.type = .prepare ∧ b.texts = a.texts)
  | k, 0, a, b, ha, hb, hlt => absurd hlt (by omega)
  | k, k' + 1, a, b, ha, hb, hlt => by
      rcases g.follows hb with ⟨rfl, -⟩ | ⟨x, hx, hfol⟩
      · obtain rfl : k = 0 := by omega
        rw [g.zero] at ha
        cases ha
      · rcases Nat.lt_or_ge k k' with hlt' | hge
        · obtain ⟨hle, heq⟩ := txnid_le ha hx hlt'
          rcases hfol.next with ⟨-, hid, ht, -⟩ | ⟨hfin, -, hid⟩
          · rw [hid, ht]
            exact ⟨hle, heq⟩
          · exact ⟨by omega, fun h => absurd h (by omega)⟩
        · obtain rfl : k = k' := by omega
          obtain rfl : a = x := Option.some.inj (ha.symm.trans hx)
          rcases hfol.next with ⟨hp, hid, ht, -⟩ | ⟨-, -, hid⟩
          · rw [hid]
            exact ⟨le_refl _, fun _ => ⟨hp, ht⟩⟩
          · exact ⟨by omega, fun h => absurd h (by omega)⟩

/-- All shards have replied to what a client has asked for before. -/
theorem replied_of_lt {c k k' : Nat} {a b : Ask} (ha : g.ask c k = some a) (hb : g.ask c k' = some b)
    (hlt : k < k') {q : Nat} (hq : q ∈ a.shards) : ∃ r, g.result q c k = some r := by
  obtain ⟨x, hx⟩ := g.exists_ask hb (Nat.zero_lt_succ k) hlt
  rcases g.follows hx with ⟨rfl, -⟩ | ⟨a', ha', hfol⟩
  · rw [g.zero] at ha
    cases ha
  · obtain rfl : a = a' := Option.some.inj (ha.symm.trans ha')
    exact Option.isSome_iff_exists.mp (hfol.replied q hq)

/-- Everything that is asked for has a type. -/
theorem type_ne_unknown {c : Nat} : ∀ {k : Nat} {a : Ask}, g.ask c k = some a → a.type ≠ .unknown
  | 0, a, h => by
      rw [g.zero] at h
      cases h
  | k + 1, a, h => by
      rcases g.follows h with ⟨-, hp⟩ | ⟨x, -, hfol⟩
      · simp [hp]
      · rcases hfol.next with ⟨-, -, -, hu, -⟩ | ⟨-, hp, -⟩
        · exact hu
        · simp [hp]

/-- A COMMIT comes after a PREPARE that all shards have replied OK to. -/
theorem prepared_of_commit {c k : Nat} {b : Ask} (h : g.ask c k = some b) (hb : b.type = .commit) :
    ∃ k' a, k = k' + 1 ∧ g.ask c k' = some a ∧ a.type = .prepare ∧ a.txnid = b.txnid ∧
      a.texts = b.texts ∧ ∀ q ∈ b.shards, g.result q c k' = some .ok := by
  cases k with
  | zero =>
    rw [g.zero] at h
    cases h
  | succ k =>
    rcases g.follows h with ⟨-, hp⟩ | ⟨a, ha, hfol⟩
    · rw [hb] at hp
      cases hp
    · rcases hfol.next with ⟨hp, hid, ht, -, hok⟩ | ⟨-, hp, -⟩
      · refine ⟨k, a, rfl, ha, hp, hid.symm, ht.symm, fun q hq => hok hb q ?_⟩
        rwa [Ask.shards, ht] at hq
      · rw [hb] at hp
        cases hp

end History
/-! ### What a leader keeps -/

/-- What the entries of the log are about. -/
def Server.ops (s : Server σ) : List (TxnData × Request) := s.log.map fun e => (e.txnData, e.request)

/-- Shard `q` has been asked for this. -/
def History.Asked (g : History S) (q : Nat) (x : TxnData × Request) : Prop :=
  ∃ a txn, g.ask x.2.clientid x.2.clientreqid = some a ∧ a.texts.find? q = some txn ∧
    x.1 = a.data ∧ x.2.op = a.op txn

/-- The leader of shard `q`, also one that was stopped: it logs what it is asked for, at most once and in
    order, and what it has replied is what its application has returned. -/
structure LeaderSaid (g : History S) (q : Nat) (s : Server σ) : Prop where
  asked : ∀ x ∈ s.ops, g.Asked q x
  sorted : s.ops.Pairwise fun x y => x.2.clientid = y.2.clientid → x.2.clientreqid < y.2.clientreqid
  calls : ∀ {i : Nat} {u : Call}, s.app.upcalls[i]? = some u → ∃ x, s.ops[i]? = some x ∧ u.txn = x.2.op ∧
    u.arg = x.1.arg ∧ g.result q x.2.clientid x.2.clientreqid = some (replyType x.1 u.ret)
  results : ∀ {c k r}, g.result q c k = some r → ∃ (i : Nat) (x : TxnData × Request), i < s.app.upcalls.length ∧ s.ops[i]? = some x ∧
    x.2.clientid = c ∧ x.2.clientreqid = k
  app : s.app.Said (S.app q 0)

/-- The leader of shard `q`, between two handlers. -/
structure LeaderOk (g : History S) (q : Nat) (s : Server σ) : Prop extends LeaderSaid g q s where
  view : s.view = 0
  entries : ∀ e ∈ s.log, e.view = 0 ∧ e.state ≠ .executed
  committed : s.lastCommitted = s.app.upcalls.length
  covers : ∀ x ∈ s.ops, ∃ e, s.clientTable x.2.clientid = some e ∧ x.2.clientreqid ≤ e.lastReqId
  replied : ∀ {c e}, s.clientTable c = some e → e.replied = true →
    g.result e.reply.shardNum c e.reply.clientreqid = some e.reply.type
  addresses : ∀ {c addr}, s.clientAddresses c = some addr → addr = .client c
  appOk : s.app.Ok (S.app q 0)

/-- Any other replica: it never takes itself for the leader. -/
structure FollowerOk (s : Server σ) : Prop where
  view : s.view = 0
  entries : ∀ e ∈ s.log, e.view = 0

/-! ### What a client keeps -/

/-- What the shards are asked for. -/
def PendingRequest.ask (req : PendingRequest) : Ask :=
  { txnid := req.txnid, type := req.type, texts := req.requests }

/-- Client `c`, also one that was stopped: it asks for what it has been called with. -/
structure ClientSaid (g : History S) (c : Nat) (s : Client) : Prop where
  invoked : ∀ {k a}, g.ask c k = some a → (a.txnid, a.texts) ∈ s.invocations
  asked : ∀ x ∈ s.invocations, ∃ k a, g.ask c k = some a ∧ a.txnid = x.1 ∧ a.texts = x.2

/-- Client `c`, between two handlers. -/
structure ClientOk (g : History S) (c : Nat) (s : Client) : Prop extends ClientSaid g c s where
  txnid : ∀ x ∈ s.invocations, x.1 ≤ s.txnid
  last : ∀ {k a}, g.ask c k = some a → k ≤ s.lastReqId
  pending : ∀ {req}, s.pendingRequest = some req →
    req.clientReqId = s.lastReqId ∧ g.ask c s.lastReqId = some req.ask ∧
    s.replySet.required s.lastReqId = some req.requests.size
  idle : s.pendingRequest = none → s.lastReqId = 0 ∨ ∃ a, g.ask c s.lastReqId = some a ∧
    a.type ≠ .prepare ∧ ∀ q ∈ a.shards, (g.result q c s.lastReqId).isSome = true
  heard : ∀ {k q r msg}, s.replySet.Has k q r msg → g.result q c k = some msg.type
  one : s.replySet.replicaRequired = 1

/-! ### The invariant -/

/-- What a packet says. -/
def PacketOk (g : History S) (x : Cluster.Packet Node Message) : Prop :=
  match x.msg with
  | .request d req => x.src = .client req.clientid ∧ ∀ q i, x.dst = .replica q i → g.Asked q (d, req)
  | .prepare view _ _ _ => view = 0
  | .reply m => ∀ c, x.dst = .client c → g.result m.shardNum c m.clientreqid = some m.type
  | .prepareOK .. | .commit .. => True

/-- A process that runs. -/
def RunningOk (g : History S) : ∀ p, StateOf σ p → Prop
  | .client c, s => ClientOk g c s
  | .replica q 0, s => LeaderOk g q s
  | .replica _ (_ + 1), s => FollowerOk s

/-- A process that was stopped. -/
def HaltedOk (g : History S) : ∀ p, StateOf σ p → Prop
  | .client c, s => ClientSaid g c s
  | .replica q 0, s => LeaderSaid g q s
  | .replica _ (_ + 1), _ => True

variable {g g' : History S} {p : Node}

theorem History.Asked.mono {q : Nat} {x : TxnData × Request} (h : g.Asked q x) (hg : g.Advances p g') :
    g'.Asked q x := by
  obtain ⟨a, txn, ha, hx⟩ := h
  exact ⟨a, txn, hg.ask ha, hx⟩

theorem LeaderSaid.mono {q : Nat} {s : Server σ} (h : LeaderSaid g q s) (hg : g.Advances p g')
    (hp : Node.replica q 0 ≠ p) : LeaderSaid g' q s where
  asked x hx := (h.asked x hx).mono hg
  sorted := h.sorted
  calls hu := by
    obtain ⟨x, hx, htxn, harg, hres⟩ := h.calls hu
    exact ⟨x, hx, htxn, harg, hg.result hres⟩
  results hr := h.results (hg.result_of_ne hp.symm ▸ hr)
  app := h.app

theorem LeaderOk.mono {q : Nat} {s : Server σ} (h : LeaderOk g q s) (hg : g.Advances p g')
    (hp : Node.replica q 0 ≠ p) : LeaderOk g' q s where
  toLeaderSaid := h.toLeaderSaid.mono hg hp
  view := h.view
  entries := h.entries
  committed := h.committed
  covers := h.covers
  replied he hr := hg.result (h.replied he hr)
  addresses := h.addresses
  appOk := h.appOk

theorem ClientSaid.mono {c : Nat} {s : Client} (h : ClientSaid g c s) (hg : g.Advances p g')
    (hp : Node.client c ≠ p) : ClientSaid g' c s where
  invoked ha := h.invoked (hg.ask_of_ne hp.symm ▸ ha)
  asked x hx := by
    obtain ⟨k, a, ha, hxa⟩ := h.asked x hx
    exact ⟨k, a, hg.ask ha, hxa⟩

theorem ClientOk.mono {c : Nat} {s : Client} (h : ClientOk g c s) (hg : g.Advances p g')
    (hp : Node.client c ≠ p) : ClientOk g' c s where
  toClientSaid := h.toClientSaid.mono hg hp
  txnid := h.txnid
  last ha := h.last (hg.ask_of_ne hp.symm ▸ ha)
  pending hreq := by
    obtain ⟨hid, hask, hreqd⟩ := h.pending hreq
    exact ⟨hid, hg.ask hask, hreqd⟩
  idle hnone := by
    refine (h.idle hnone).imp_right fun ⟨a, ha, ht, hall⟩ => ⟨a, hg.ask ha, ht, fun q hq => ?_⟩
    obtain ⟨r, hr⟩ := Option.isSome_iff_exists.mp (hall q hq)
    rw [hg.result hr]
    rfl
  heard hh := hg.result (h.heard hh)
  one := h.one

theorem PacketOk.mono {x : Cluster.Packet Node Message} (h : PacketOk g x) (hg : g.Advances p g') :
    PacketOk g' x := by
  obtain ⟨src, dst, msg⟩ := x
  cases msg with
  | request d req => exact ⟨h.1, fun q i hd => (h.2 q i hd).mono hg⟩
  | reply m => exact fun c hc => hg.result (h c hc)
  | prepare view opnum d req => exact h
  | prepareOK view opnum r => exact h
  | commit view opnum => exact h

/-- The invariant of the clients and the shards. -/
def shardsInvariant (S : Shards σ) : Cluster.ClusterInvariant Node (StateOf σ) Message (History S) where
  running := RunningOk
  halted := HaltedOk
  packet := PacketOk
  advances := History.Advances
  refl := History.Advances.refl
  trans := History.Advances.trans
  running_mono {p g g' q s} hg hp h := by
    rcases q with c | ⟨q, _ | i⟩
    · exact ClientOk.mono h hg hp
    · exact LeaderOk.mono h hg hp
    · exact h
  halted_mono {p g g' q s} hg hp h := by
    rcases q with c | ⟨q, _ | i⟩
    · exact ClientSaid.mono h hg hp
    · exact LeaderSaid.mono h hg hp
    · trivial
  packet_mono hg h := h.mono hg

end Dsnet.Spanner
