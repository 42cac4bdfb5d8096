import Dsnet.PBFT.Once

/-! Agreement of PBFT with faulty replicas. A replica takes an op number for decided when enough Commits have
    the same digest; two such quorums share a replica that follows the code. This makes their logs agree
    as far as that replica, and those who count its Commit, have the digest as the hash of their own
    log. No handler checks that they do: a Preprepare may come with a digest that is not that of its
    requests. -/

namespace Dsnet.PBFT.Agreement
open Handler Net.GhostInvariant
open Spec (Sha1 emptyHash lastHash appendHashed stamps hashKey nextHash Sound)

/-! ### Logs and digests -/

/-- The stamped logs of the replicas. -/
abbrev Logs := Nat → List (Request × String)

/-- The first `p` requests have this digest. -/
def HashedTo (l : List (Request × String)) (p : Nat) (digest : String) : Prop :=
  p ≤ l.length ∧ lastHashOf emptyHash (l.take p) = digest

instance (l : List (Request × String)) (p : Nat) (digest : String) : Decidable (HashedTo l p digest) :=
  inferInstanceAs (Decidable (_ ∧ _))

/-- A request as its client signs it: its two numbers determine it. -/
def Genuine (op : Nat → Nat → String) (req : Request) : Prop :=
  req = { op := op req.clientid req.clientreqid, clientid := req.clientid, clientreqid := req.clientreqid }

instance (op : Nat → Nat → String) (req : Request) : Decidable (Genuine op req) :=
  inferInstanceAs (Decidable (_ = _))

theorem Genuine.eq_of_key {op : Nat → Nat → String} {req req' : Request} (h : Genuine op req)
    (h' : Genuine op req') (hkey : hashKey req = hashKey req') : req = req' := by
  obtain ⟨hc, hi⟩ := Prod.mk.inj hkey
  rw [h, h', hc, hi]

/-- What the group, its clients and its faulty replicas are. -/
structure Setting where
  G : Group
  op : Nat → Nat → String
  faulty : Finset Nat

variable {S : Setting} {γ γ' : Logs} {r : Nat} {s s' : Replica}

/-- The environment of replica `r`. -/
abbrev Setting.env (S : Setting) (r : Nat) : Env := S.G.env r

theorem HashedTo.mono {l l' : List (Request × String)} {p : Nat} {digest : String} (h : HashedTo l p digest)
    (hl : l <+: l') : HashedTo l' p digest := by
  obtain ⟨t, rfl⟩ := hl
  exact ⟨Nat.le_trans h.1 (by simp), by rw [List.take_append_of_le_length h.1]; exact h.2⟩

/-! ### The invariant -/

/-- Replica `i` has had this digest as the hash of its log. -/
def Voted (γ : Logs) (i : Nat) (digest : String) : Prop := ∃ p, HashedTo (γ i) p digest

/-- A quorum has had the digest of a log that begins with the first `k` requests of replica `r`. -/
def Decided (S : Setting) (γ : Logs) (r k : Nat) : Prop :=
  ∃ p digest Q, k ≤ p ∧ HashedTo (γ r) p digest ∧ IsQuorum S.G.config.n (2 * S.G.config.f + 1) Q ∧
    ∀ i ∈ Q, i ∉ S.faulty → Voted γ i digest

/-- What a replica has counted a Commit for. -/
def Counted (S : Setting) (γ : Logs) (r i : Nat) (digest : String) : Prop :=
  i ≠ r ∧ i < S.G.config.n ∧ (i ∉ S.faulty → Voted γ i digest)

/-- A replica, against the logs of all. What it has executed was decided, unless it is faulty. -/
structure Running (S : Setting) (γ : Logs) (r : Nat) (s : Replica) : Prop where
  log : γ r = stamps s.log
  sound : Sound (Genuine S.op) S.G.sha1 (stamps s.log)
  buffered : ∀ x ∈ s.requestBuffer.toList, Genuine S.op x.2
  batch : ∀ req ∈ s.requestBatch, Genuine S.op req
  counted : r ∉ S.faulty → ∀ k digest, ∀ x ∈ (s.commitQuorum k digest).toList, Counted S γ r x.1 digest
  committed : r ∉ S.faulty → ∀ e ∈ s.log.entries, e.state = .committed → Decided S γ r e.opnum
  executed : r ∉ S.faulty → ∀ x ∈ s.executed, Decided S γ r x.1 ∧
    ∃ e, s.log.find x.1 = some e ∧ e.request = x.2

/-- A message that replicas send. -/
def GoodPacket (S : Setting) (γ : Logs) (p : Net.Packet Message) : Prop :=
  match p.msg with
  | .request req => Genuine S.op req
  | .preprepare _ reqs => ∀ req ∈ reqs, Genuine S.op req
  | .prepare _ => True
  | .commit m => Counted S γ p.dst m.replicaId m.digest

/-- The logs after a step of replica `r`. -/
def Advances (r : Nat) (γ γ' : Logs) : Prop := (∀ i, i ≠ r → γ' i = γ i) ∧ γ r <+: γ' r

theorem Advances.le (h : Advances r γ γ') (i : Nat) : γ i <+: γ' i := by
  by_cases hi : i = r
  · rw [hi]
    exact h.2
  · rw [h.1 i hi]

theorem Voted.mono {i : Nat} {digest : String} (h : Voted γ i digest) (hγ : Advances r γ γ') :
    Voted γ' i digest := by
  obtain ⟨p, hp⟩ := h
  exact ⟨p, hp.mono (hγ.le i)⟩

theorem Decided.mono {i k : Nat} (h : Decided S γ i k) (hγ : Advances r γ γ') : Decided S γ' i k := by
  obtain ⟨p, digest, Q, hk, hp, hQ, hall⟩ := h
  exact ⟨p, digest, Q, hk, hp.mono (hγ.le i), hQ, fun i hi hno => (hall i hi hno).mono hγ⟩

theorem Counted.mono {i j : Nat} {digest : String} (h : Counted S γ j i digest) (hγ : Advances r γ γ') :
    Counted S γ' j i digest := ⟨h.1, h.2.1, fun hno => (h.2.2 hno).mono hγ⟩

/-- What holds of a replica while another one takes a step. -/
theorem Running.mono {i : Nat} (h : Running S γ i s) (hi : i ≠ r) (hγ : Advances r γ γ') :
    Running S γ' i s where
  log := (hγ.1 i hi).trans h.log
  sound := h.sound
  buffered := h.buffered
  batch := h.batch
  counted hno k digest x hx := (h.counted hno k digest x hx).mono hγ
  committed hno e he hst := (h.committed hno e he hst).mono hγ
  executed hno x hx := ⟨(h.executed hno x hx).1.mono hγ, (h.executed hno x hx).2⟩

theorem GoodPacket.mono {p : Net.Packet Message} (h : GoodPacket S γ p) (hγ : Advances r γ γ') :
    GoodPacket S γ' p := by
  unfold GoodPacket at h ⊢
  split
  · simpa only [*] using h
  · simpa only [*] using h
  · trivial
  · rename_i m hm
    rw [hm] at h
    exact Counted.mono h hγ

/-- The invariant of the group, with the logs as its ghost. -/
def agreement (S : Setting) : Net.GhostInvariant Replica Message Logs where
  running := Running S
  halted := Running S
  packet := GoodPacket S
  advances := Advances
  refl _ _ := ⟨fun _ _ => rfl, List.prefix_rfl⟩
  trans h h' := ⟨fun i hi => (h'.1 i hi).trans (h.1 i hi), h.2.trans h'.2⟩
  running_mono h hx hs := hs.mono hx h
  halted_mono h hx hs := hs.mono hx h
  packet_mono h hp := hp.mono h

/-! ### States of a replica -/

/-- The logs, with that of replica `r` as it is now. -/
def now (γ : Logs) (r : Nat) (s : Replica) : Logs := Function.update γ r (stamps s.log)

/-- The log has not become shorter, and the invariant holds of the state. -/
def Good (S : Setting) (γ : Logs) (r : Nat) (s : Replica) : Prop :=
  γ r <+: stamps s.log ∧ Running S (now γ r s) r s

theorem Good.advances (h : Good S γ r s) : Advances r γ (now γ r s) := by
  refine ⟨fun i hi => Function.update_of_ne hi .., ?_⟩
  rw [now, Function.update_self]
  exact h.1

theorem Running.good (h : Running S γ r s) : Good S γ r s := by
  have hnow : now γ r s = γ := by
    rw [now, ← h.log, Function.update_eq_self]
  exact ⟨h.log ▸ List.prefix_rfl, by rw [hnow]; exact h⟩

/-- What is about neither the log nor what is counted or executed. -/
theorem Good.same (h : Good S γ r s) (hlog : s'.log = s.log) (hbuffer : s'.requestBuffer = s.requestBuffer)
    (hbatch : ∀ req ∈ s'.requestBatch, Genuine S.op req) (hcommit : s'.commitQuorum = s.commitQuorum)
    (hexec : s'.upcalls = s.upcalls) : Good S γ r s' := by
  obtain ⟨hpre, h⟩ := h
  have hnow : now γ r s' = now γ r s := by rw [now, now, hlog]
  refine ⟨hlog ▸ hpre, ?_⟩
  rw [hnow]
  refine ⟨hlog ▸ h.log, hlog ▸ h.sound, hbuffer ▸ h.buffered, hbatch, ?_, ?_, ?_⟩
  · rw [hcommit]
    exact h.counted
  · rw [hlog]
    exact h.committed
  · rw [Replica.executed, hexec, hlog]
    exact h.executed

/-- A genuine request is appended. -/
theorem Good.appended (h : Good S γ r s) {k : Nat} {req : Request} (hreq : Genuine S.op req)
    (hs' : Appended (S.env r) s k req s') : Good S γ r s' := by
  obtain ⟨hpre, h⟩ := h
  obtain ⟨log, hlog, rfl⟩ := hs'
  have hstamps := Spec.stamps_appendHashed hlog
  have hentries := (Log.append_eq_some.mp hlog).2
  have hadv : Advances r (now γ r s) (now γ r { s with log := log }) := by
    refine ⟨fun i hi => ?_, ?_⟩
    · rw [now, now, Function.update_of_ne hi, Function.update_of_ne hi]
    · rw [now, now, Function.update_self, Function.update_self, hstamps]
      exact List.prefix_append ..
  refine ⟨hpre.trans (hstamps ▸ List.prefix_append ..), ?_, ?_, h.buffered, h.batch, fun hno k digest x hx =>
    (h.counted hno k digest x hx).mono hadv, fun hno e he hst => ?_, fun hno x hx => ⟨?_, ?_⟩⟩
  · rw [now, Function.update_self]
  · rw [hstamps]
    exact h.sound.concat hreq
  · rw [hentries] at he
    rcases List.mem_append.mp he with he | he
    · exact (h.committed hno e he hst).mono hadv
    · -- the new entry is only received
      rw [List.mem_singleton.mp he] at hst
      cases hst
  · exact (h.executed hno x hx).1.mono hadv
  · obtain ⟨e, he, hreq⟩ := (h.executed hno x hx).2
    obtain ⟨h1, he⟩ := Log.find_eq_some.mp he
    refine ⟨e, Log.find_eq_some.mpr ⟨h1, ?_⟩, hreq⟩
    rw [hentries, List.getElem?_append_left (List.getElem?_eq_some_iff.mp he).1]
    exact he

/-- The state of an entry is set; it is decided if it becomes committed. -/
theorem Good.setStatus (h : Good S γ r s) (k : Nat) (st : LogEntryState)
    (hdecided : r ∉ S.faulty → st = .committed → Decided S (now γ r s) r k) :
    Good S γ r { s with log := s.log.setStatus k st } := by
  obtain ⟨hpre, h⟩ := h
  have hnow : now γ r { s with log := s.log.setStatus k st } = now γ r s := by
    rw [now, now, Spec.stamps_setStatus]
  refine ⟨?_, ?_⟩
  · rw [Spec.stamps_setStatus]
    exact hpre
  rw [hnow]
  refine ⟨?_, ?_, h.buffered, h.batch, h.counted, fun hno e he hst => ?_, fun hno x hx =>
    ⟨(h.executed hno x hx).1, ?_⟩⟩
  · rw [Spec.stamps_setStatus]
    exact h.log
  · rw [Spec.stamps_setStatus]
    exact h.sound
  · obtain ⟨i, hi⟩ := List.mem_iff_getElem?.mp he
    rw [Log.getElem?_entries_setStatus] at hi
    obtain ⟨e₀, he₀, rfl⟩ := Option.map_eq_some_iff.mp hi
    have hopnum := s.log.numbered i e₀ he₀
    split_ifs at hst ⊢ with hik
    · rw [show LogEntry.opnum { e₀ with state := st } = k from hopnum.trans hik]
      exact hdecided hno hst
    · exact h.committed hno e₀ (List.mem_of_getElem? he₀) hst
  · obtain ⟨e, he, hreq⟩ := (h.executed hno x hx).2
    obtain ⟨h1, he⟩ := Log.find_eq_some.mp he
    refine ⟨if x.1 - 1 + 1 = k then { e with state := st } else e, Log.find_eq_some.mpr ⟨h1, ?_⟩, ?_⟩
    · rw [Log.getElem?_entries_setStatus, he]
      rfl
    · split_ifs <;> exact hreq

/-- The next entry is executed, which is committed. -/
theorem Good.execute (h : Good S γ r s) {e : LogEntry} (he : s.log.find (s.commitNumber + 1) = some e)
    (hst : e.state = .committed) : Good S γ r { s with
      commitNumber := s.commitNumber + 1
      upcalls := s.upcalls ++ [.execute (s.commitNumber + 1) e.request] } := by
  obtain ⟨hpre, h⟩ := h
  refine ⟨hpre, h.log, h.sound, h.buffered, h.batch, h.counted, h.committed, fun hno x hx => ?_⟩
  rw [Replica.executed, executions_append] at hx
  rcases List.mem_append.mp hx with hx | hx
  · exact h.executed hno x hx
  · obtain rfl : x = (s.commitNumber + 1, e.request) := List.mem_singleton.mp hx
    refine ⟨?_, e, he, rfl⟩
    have hdec := h.committed hno e (List.mem_of_getElem? (Log.find_eq_some.mp he).2) hst
    rw [Log.opnum_of_find he] at hdec
    exact hdec

/-! ### What is sent -/

/-- The output is a reply to a client, or Prepares. -/
def Harmless (x : Output) : Prop := ∀ n r, ∀ p ∈ Net.packets n r x, ∃ m, p.msg = .prepare m

theorem harmless_toClient (a : Addr) (m : Reply) : Harmless (.toClient a m) := fun _ _ _ hp => by cases hp

/-- A handler that sends nothing that matters. -/
theorem spec_of_emits {α : Type} {n : Nat} {m : RHandler α} {J : α → Replica → Prop} (hm : Emits Harmless m)
    (h : Sat m s (fun a s' _ => Good S γ r s' ∧ J a s') fun s' _ => Good S γ r s') :
    (agreement S).Spec n r γ m s fun a γ' s' => Running S γ' r s' ∧ J a s' := by
  have hpacket : ∀ {γ' : Logs} {o : List Output}, (∀ x ∈ o, Harmless x) →
      ∀ x ∈ o, ∀ p ∈ Net.packets n r x, GoodPacket S γ' p := by
    intro γ' o ho x hx p hp
    obtain ⟨m, hm⟩ := ho x hx n r p hp
    rw [GoodPacket, hm]
    trivial
  refine (h.and (hm s)).mono (fun a s' o h => ?_) fun s' o h => ?_
  · exact ⟨now γ r s', h.1.1.advances, ⟨h.1.1.2, h.1.2⟩, hpacket h.2⟩
  · exact ⟨now γ r s', h.1.advances, h.1.2, hpacket h.2⟩

/-! ### Requests -/

theorem Running.same (h : Running S γ r s) (hlog : s'.log = s.log)
    (hbuffer : s'.requestBuffer = s.requestBuffer) (hbatch : ∀ req ∈ s'.requestBatch, Genuine S.op req)
    (hcommit : s'.commitQuorum = s.commitQuorum) (hexec : s'.upcalls = s.upcalls) : Running S γ r s' := by
  have hnow : now γ r s' = γ := by rw [now, hlog, ← h.log, Function.update_eq_self]
  have hgood := (h.good.same hlog hbuffer hbatch hcommit hexec).2
  rwa [hnow] at hgood

theorem closeBatch_spec {n : Nat} (h : Running S γ r s) :
    (agreement S).Spec n r γ (closeBatch (S.env r)) s fun _ γ' s' => Running S γ' r s' := by
  have h₁ : Running S γ r { s with timerActive := false } := h.same rfl rfl h.batch rfl rfl
  rw [closeBatch, spec_modify_bind, spec_get_bind, spec_assert_bind]
  refine ⟨fun _ => Spec.emit_bind (fun p hp => ?_) (spec_modify.mpr (Ends.same ?_)), fun _ => Ends.same h₁⟩
  · obtain ⟨j, -, rfl⟩ := List.mem_map.mp hp
    exact h.batch
  · exact h₁.same rfl rfl (fun _ hreq => by cases hreq) rfl rfl

theorem queueRequest_spec {n : Nat} (h : Running S γ r s) {req : Request} (hreq : Genuine S.op req)
    (entry : ClientEntry) :
    (agreement S).Spec n r γ (queueRequest (S.env r) req entry) s fun _ γ' s' => Running S γ' r s' := by
  have h₁ : Running S γ r { s with opNumber := s.opNumber + 1 } := h.same rfl rfl h.batch rfl rfl
  rw [queueRequest, spec_modify_bind, spec_get_bind]
  refine Spec.bind (spec_of_emits (J := fun _ _ => True) (emits_append _ _) ?_) fun _ γ' s₁ _ hs₁ => ?_
  · exact (append_spec _ req _).mono (fun _ s' _ hs' => ⟨h₁.good.appended hreq hs', trivial⟩)
      fun s' _ hs' => hs'.1 ▸ h₁.good
  · have hs₁ := hs₁.1
    have hbatch : ∀ x ∈ s₁.requestBatch ++ [req], Genuine S.op x := by
      intro x hx
      rcases List.mem_append.mp hx with hx | hx
      · exact hs₁.batch x hx
      · rw [List.mem_singleton.mp hx]
        exact hreq
    rw [spec_modify_bind, spec_modify_bind, spec_get_bind]
    have h₂ : Running S γ' r { (s₁.setClient req.clientid
        { entry with requestNumber := req.clientreqid, reply := none }) with
        requestBatch := s₁.requestBatch ++ [req]
        timerActive := true
        timerStarted := true } := hs₁.same rfl rfl hbatch rfl rfl
    exact spec_when.mpr ⟨fun _ => closeBatch_spec h₂, fun _ => Ends.same h₂⟩

theorem handleNewRequest_spec {n : Nat} (h : Running S γ r s) {req : Request} (hreq : Genuine S.op req)
    (entry : ClientEntry) :
    (agreement S).Spec n r γ (handleNewRequest (S.env r) req entry) s
      fun _ γ' s' => Running S γ' r s' := by
  rw [handleNewRequest, spec_get_bind, spec_ite]
  refine ⟨fun _ => spec_when.mpr ⟨fun _ => spec_emit.mpr (Ends.sends h fun p hp => ?_), fun _ => Ends.same h⟩,
    fun _ => queueRequest_spec h hreq entry⟩
  rw [List.mem_singleton.mp hp]
  exact hreq

theorem handleRequest_spec {n : Nat} (h : Running S γ r s) {req : Request} (hreq : Genuine S.op req)
    (remote : Addr) :
    (agreement S).Spec n r γ (handleRequest (S.env r) remote req) s fun _ γ' s' => Running S γ' r s' := by
  rw [handleRequest, spec_get_bind]
  cases s.standing req with
  | late => exact spec_pure.mpr (Ends.same h)
  | again entry =>
    refine spec_whenSome.mpr ⟨fun m _ => spec_emit.mpr (Ends.sends h fun p hp => ?_), fun _ => Ends.same h⟩
    cases hp
  | next entry => exact handleNewRequest_spec h hreq entry
  | unknown =>
    simp only [spec_ite]
    refine ⟨fun _ => spec_abort.mpr (Ends.same h), fun _ => spec_modify_bind.mpr ?_⟩
    have h₁ : Running S γ r (s.setClient req.clientid
        { requestNumber := req.clientreqid, reply := none, remote := remote }) :=
      h.same rfl rfl h.batch rfl rfl
    exact handleNewRequest_spec h₁ hreq _

/-! ### Prepares -/

/-- The log of the replica has the digest at the end of the batch. -/
def Binds (s : Replica) (opNumber batchSize : Nat) (digest : String) : Prop :=
  HashedTo (stamps s.log) (opNumber + batchSize - 1) digest

instance (s : Replica) (k n : Nat) (digest : String) : Decidable (Binds s k n digest) :=
  inferInstanceAs (Decidable (HashedTo ..))

/-- If the replica now sends a Commit, it is for its own log. -/
def BoundPrepare (S : Setting) (s : Replica) (m : Prepare) : Prop :=
  2 * S.G.config.f ≤ (s.prepares m).size → m.opNumber ≤ s.log.lastOpnum →
    Binds s m.opNumber m.batchSize m.digest

instance (S : Setting) (s : Replica) (m : Prepare) : Decidable (BoundPrepare S s m) :=
  inferInstanceAs (Decidable (_ → _ → _))

/-- Others may count the Commit of a replica whose log has the digest. -/
theorem counted_own (hr : r < S.G.config.n) {p i : Nat} {digest : String}
    (h : r ∉ S.faulty → HashedTo (stamps s.log) p digest) (hi : i ≠ r) :
    Counted S (now γ r s) i r digest := by
  refine ⟨hi.symm, hr, fun hno => ⟨p, ?_⟩⟩
  rw [now, Function.update_self]
  exact h hno

theorem insertPrepare_spec (hr : r < S.G.config.n) (h : Running S γ r s) {m : Prepare}
    (hbound : r ∉ S.faulty → BoundPrepare S s m) :
    (agreement S).Spec S.G.config.n r γ (insertPrepare (S.env r) m) s
      fun _ γ' s' => Running S γ' r s' := by
  have h₁ : Running S γ r { s with
      prepareQuorum := setQuorum s.prepareQuorum m.opNumber m.digest (s.prepares m) } :=
    h.same rfl rfl h.batch rfl rfl
  rw [insertPrepare, spec_get_bind, spec_modify_bind, spec_ite, spec_ite]
  refine ⟨fun _ => spec_pure.mpr (Ends.same h₁), fun hq => ⟨fun _ => spec_abort.mpr (Ends.same h₁),
    fun hlast => ?_⟩⟩
  rw [spec_ofOption_bind]
  refine ⟨fun e _ => ?_, fun _ => Ends.same h₁⟩
  have h₂ := (h₁.good.setStatus m.opNumber .prepared fun _ hst => by cases hst)
  rw [spec_modify_bind]
  refine Spec.advance h₂.advances (spec_emit.mpr (Ends.sends h₂.2 fun p hp => ?_))
  obtain ⟨i, hi, rfl⟩ := List.mem_map.mp hp
  have hne : i ≠ r := by simpa using (List.mem_filter.mp hi).2
  refine counted_own (p := m.opNumber + m.batchSize - 1) hr (fun hno => ?_) hne
  rw [Spec.stamps_setStatus]
  exact hbound hno (not_lt.mp hq) (not_lt.mp hlast)

theorem handlePrepare_spec (hr : r < S.G.config.n) (h : Running S γ r s) {m : Prepare}
    (hbound : r ∉ S.faulty → BoundPrepare S s m) :
    (agreement S).Spec S.G.config.n r γ (handlePrepare (S.env r) m) s
      fun _ γ' s' => Running S γ' r s' := by
  rw [handlePrepare, spec_get_bind, spec_ite, spec_ite, spec_ite, spec_ofOption_bind]
  refine ⟨fun _ => spec_pure.mpr (Ends.same h), fun _ => ⟨fun _ => spec_abort.mpr (Ends.same h), fun _ =>
    ⟨fun _ => ⟨fun e _ => ?_, fun _ => Ends.same h⟩, fun _ => insertPrepare_spec hr h hbound⟩⟩⟩
  exact spec_ite.mpr ⟨fun _ => spec_pure.mpr (Ends.same h), fun _ => insertPrepare_spec hr h hbound⟩

/-- The digest of a log that ends in the hash `h` when it is continued with these requests. -/
def hashAfter (sha1 : Sha1) (h : String) (reqs : List Request) : String :=
  reqs.foldl (fun h req => nextHash sha1 h (hashKey req)) h

/-- If the replica sends a Commit at a Preprepare whose requests come next, the digest is theirs. -/
def BoundPreprepare (S : Setting) (s : Replica) (m : Prepare) (reqs : List Request) : Prop :=
  2 * S.G.config.f ≤ (s.prepares m).size → m.opNumber = s.log.lastOpnum + 1 →
    hashAfter S.G.sha1 (lastHash s.log) reqs = m.digest

instance (S : Setting) (s : Replica) (m : Prepare) (reqs : List Request) :
    Decidable (BoundPreprepare S s m reqs) := inferInstanceAs (Decidable (_ → _ → _))

/-- A batch that is logged is hashed by the log. -/
theorem appendBatch_hashed {E : Env} : ∀ (reqs : List Request) (k : Nat) (s : Replica),
    Sat (appendBatch E k reqs) s (fun _ s' _ => HashedTo (stamps s'.log) (s.log.entries.length + reqs.length)
      (hashAfter E.sha1 (lastHash s.log) reqs)) fun _ _ => True
  | [], _, s => by
      refine ⟨Nat.le_of_eq (Spec.length_stamps _).symm, ?_⟩
      rw [List.length_nil, Nat.add_zero, ← Spec.length_stamps, List.take_length, ← Spec.lastHash_eq]
      rfl
  | req :: reqs, k, s => by
      rw [appendBatch, sat_bind]
      refine (append_spec k req s).mono (fun _ s₁ _ h₁ => ?_) fun _ _ _ => trivial
      obtain ⟨log, hlog, rfl⟩ := h₁
      have hlen : log.entries.length = s.log.entries.length + 1 := by
        rw [(Log.append_eq_some.mp hlog).2, List.length_append, List.length_singleton]
      have hhash : lastHash log = nextHash E.sha1 (lastHash s.log) (hashKey req) := by
        rw [Spec.lastHash_eq, Spec.stamps_appendHashed hlog, lastHashOf_concat, ← Spec.lastHash_eq]
        rfl
      refine (appendBatch_hashed reqs (k + 1) { s with log := log }).mono (fun _ s' _ h => ?_) fun _ _ h => h
      have h : HashedTo (stamps s'.log) (log.entries.length + reqs.length)
        (hashAfter E.sha1 (lastHash log) reqs) := h
      rw [hlen, hhash, Nat.add_right_comm] at h
      exact h

/-- What the log is hashed to stays so when more is logged. -/
theorem HashedTo.appended {E : Env} {p k : Nat} {digest : String} {req : Request}
    (h : HashedTo (stamps s.log) p digest) (hs' : Appended E s k req s') : HashedTo (stamps s'.log) p digest := by
  obtain ⟨log, hlog, rfl⟩ := hs'
  refine h.mono ?_
  rw [Spec.stamps_appendHashed hlog]
  exact List.prefix_append ..

/-- What storing the requests of a Preprepare leaves behind: they are logged if they come next. -/
structure Stored (E : Env) (k : Nat) (reqs : List Request) (s s' : Replica) : Prop where
  prepareQuorum : s'.prepareQuorum = s.prepareQuorum
  buffered : k ≠ s.log.lastOpnum + 1 → s'.log = s.log
  logged : k = s.log.lastOpnum + 1 → HashedTo (stamps s'.log) (s.log.entries.length + reqs.length)
    (hashAfter E.sha1 (lastHash s.log) reqs)

theorem storeRequests_stored {E : Env} (reqs : List Request) (k : Nat) (s : Replica) :
    Sat (storeRequests E k reqs) s (fun _ s' _ => Stored E k reqs s s') fun _ _ => True := by
  have hquorum := storeRequests_spec (E := E) (fun s' => s'.prepareQuorum = s.prepareQuorum)
    (fun _ _ => True) (fun h _ ⟨_, _, hs'⟩ => hs' ▸ h) (fun h _ => h) (fun _ _ _ => trivial)
    (s := s) rfl reqs k fun _ _ _ => trivial
  suffices hlog : Sat (storeRequests E k reqs) s (fun _ s' _ => (k ≠ s.log.lastOpnum + 1 → s'.log = s.log) ∧
      (k = s.log.lastOpnum + 1 → HashedTo (stamps s'.log) (s.log.entries.length + reqs.length)
        (hashAfter E.sha1 (lastHash s.log) reqs))) fun _ _ => True from
    (hquorum.and hlog).mono (fun _ _ _ h => ⟨h.1, h.2.1, h.2.2⟩) fun _ _ _ => trivial
  simp only [storeRequests, sat_bind, sat_get, sat_ite, sat_modify]
  refine ⟨fun hk => ⟨fun _ => trivial, fun hk' => (hk hk').elim⟩, fun hk => ?_⟩
  refine (appendBatch_hashed reqs k s).mono (fun _ s₁ _ h₁ => ?_) fun _ _ _ => trivial
  refine (appendBuffered_spec (fun s' => HashedTo (stamps s'.log) (s.log.entries.length + reqs.length)
    (hashAfter E.sha1 (lastHash s.log) reqs)) (fun _ _ => True) (fun h _ hs' => h.appended hs')
    (fun h _ => h) (fun _ _ _ => trivial) _ h₁).mono (fun _ s' _ h => ⟨fun hno => (hk hno).elim, fun _ => h⟩)
    fun _ _ _ => trivial

/-- Once its requests are stored, a Preprepare is a Prepare for the log. -/
theorem Stored.bound {E : Env} {m : Prepare} {reqs : List Request} (h : Stored E m.opNumber reqs s s')
    (hE : E.sha1 = S.G.sha1) (hlen : reqs.length = m.batchSize) (hlast : s.log.lastOpnum < m.opNumber)
    (hbound : BoundPreprepare S s m reqs) : BoundPrepare S s' m := by
  intro hsize hin
  have hprepares : s'.prepares m = s.prepares m := by rw [Replica.prepares, h.prepareQuorum, Replica.prepares]
  rw [hprepares] at hsize
  by_cases hk : m.opNumber = s.log.lastOpnum + 1
  · have hlogged := h.logged hk
    rw [hE, hbound hsize hk, hlen] at hlogged
    have hp : m.opNumber + m.batchSize - 1 = s.log.entries.length + m.batchSize := by
      rw [hk, s.log.lastOpnum_eq]
      omega
    rw [Binds, hp]
    exact hlogged
  · rw [h.buffered hk] at hin
    omega

theorem handlePreprepare_spec (hr : r < S.G.config.n) (h : Running S γ r s) {m : Prepare}
    {reqs : List Request} (hreqs : ∀ req ∈ reqs, Genuine S.op req) (hlen : reqs.length = m.batchSize)
    (hbound : r ∉ S.faulty → BoundPreprepare S s m reqs) :
    (agreement S).Spec S.G.config.n r γ (handlePreprepare (S.env r) m reqs) s
      fun _ γ' s' => Running S γ' r s' := by
  rw [handlePreprepare, spec_get_bind, spec_ite, spec_ite, spec_ite, spec_ite]
  refine ⟨fun _ => spec_pure.mpr (Ends.same h), fun _ => ⟨fun _ => spec_abort.mpr (Ends.same h), fun _ =>
    ⟨fun _ => spec_abort.mpr (Ends.same h), fun _ => ⟨fun _ => spec_pure.mpr (Ends.same h), fun hlast => ?_⟩⟩⟩⟩
  refine Spec.bind (spec_of_emits (J := fun _ s' => Stored (S.env r) m.opNumber reqs s s')
    (emits_storeRequests _ _) ?_) fun _ γ₁ s₁ _ hs₁ => ?_
  · refine ((storeRequests_spec (Good S γ r) (fun _ req => Genuine S.op req)
      (fun hs hreq hs' => hs.appended hreq hs')
      (fun hs hb => ⟨hs.1, hs.2.log, hs.2.sound, hb, hs.2.batch, hs.2.counted, hs.2.committed,
        hs.2.executed⟩)
      (fun hs => hs.2.buffered) h.good reqs m.opNumber
      fun i req hi => hreqs req (List.mem_of_getElem? hi)).and (storeRequests_stored _ _ s)).mono
      (fun _ _ _ h => h) fun _ _ h => h.1
  · obtain ⟨hs₁, hstored⟩ := hs₁
    refine Spec.bind (insertPrepare_spec hr hs₁ fun hno =>
      hstored.bound rfl hlen (not_le.mp hlast) (hbound hno)) fun _ γ₂ s₂ _ hs₂ => ?_
    rw [spec_get_bind, spec_when]
    refine ⟨fun _ => spec_emit.mpr (Ends.sends hs₂ fun p hp => ?_), fun _ => Ends.same hs₂⟩
    obtain ⟨i, -, rfl⟩ := List.mem_map.mp hp
    exact trivial

/-! ### Commits -/

/-- If the replica now takes a batch for committed, it is one of its own log. -/
def BoundCommit (S : Setting) (s : Replica) (m : Commit) : Prop :=
  2 * S.G.config.f ≤ (s.commits m).size → m.opNumber ≤ s.log.lastOpnum →
    Binds s m.opNumber m.batchSize m.digest

instance (S : Setting) (s : Replica) (m : Commit) : Decidable (BoundCommit S s m) :=
  inferInstanceAs (Decidable (_ → _ → _))

theorem mem_setQuorum {β : Type} {quorum : Nat → String → StdMap Nat β} {k k' : Nat} {digest digest' : String}
    {votes : StdMap Nat β} {x : Nat × β} (hx : x ∈ (setQuorum quorum k digest votes k' digest').toList) :
    (digest' = digest ∧ x ∈ votes.toList) ∨ x ∈ (quorum k' digest').toList := by
  by_cases hk : k' = k
  · subst hk
    by_cases hd : digest' = digest
    · subst hd
      rw [setQuorum, Function.update_self, Function.update_self] at hx
      exact Or.inl ⟨rfl, hx⟩
    · rw [setQuorum, Function.update_self, Function.update_of_ne hd] at hx
      exact Or.inr hx
  · rw [setQuorum, Function.update_of_ne hk] at hx
    exact Or.inr hx

theorem commitBatch_good : ∀ (n k : Nat) {s : Replica}, Good S γ r s →
    (∀ s' : Replica, stamps s'.log = stamps s.log → r ∉ S.faulty → ∀ j, k ≤ j → j < k + n →
      Decided S (now γ r s') r j) →
    Sat (commitBatch k n) s (fun _ s' _ => Good S γ r s') fun s' _ => Good S γ r s'
  | 0, _, _, h, _ => h
  | n + 1, k, s, h, hdec => by
      simp only [commitBatch, sat_bind, sat_get, sat_ofOption, sat_modify]
      refine ⟨fun _ _ => commitBatch_good n (k + 1) (h.setStatus k .committed fun hno _ =>
        hdec s rfl hno k le_rfl (by omega)) fun s' hs' hno j hj hjn => ?_, fun _ => h⟩
      exact hdec s' (hs'.trans (Spec.stamps_setStatus ..)) hno j (by omega) (by omega)

theorem executeLoop_good : ∀ (n : Nat) {s : Replica}, Good S γ r s →
    Sat (executeLoop (S.env r) n) s (fun _ s' _ => Good S γ r s') fun s' _ => Good S γ r s'
  | 0, _, h => h
  | n + 1, s, h => by
      simp only [executeLoop, executeNext, sat_bind, sat_get, sat_whenSome, sat_when, sat_modify,
        sat_ofOption, sat_emit]
      refine ⟨fun e he => ⟨fun hst => ⟨fun c _ => ?_, fun _ => h.execute he hst⟩, fun _ => h⟩, fun _ => h⟩
      exact executeLoop_good n ((h.execute he hst).same rfl rfl (h.execute he hst).2.batch rfl rfl)

/-- A quorum of Commits for a batch of its own log. -/
theorem decided_of_commits (hr : r < S.G.config.n) {digest : String} {votes : StdMap Nat Commit}
    (hvotes : ∀ x ∈ votes.toList, Counted S γ r x.1 digest) (hsize : 2 * S.G.config.f ≤ votes.size) {p k : Nat}
    (hp : HashedTo (γ r) p digest) (hk : k ≤ p) : Decided S γ r k := by
  refine ⟨p, digest, insert r votes.keys, hk, hp, ⟨?_, fun i hi => ?_⟩, fun i hi hno => ?_⟩
  · rw [Finset.card_insert_of_notMem, StdMap.card_keys]
    · omega
    · intro hmem
      obtain ⟨m, hm⟩ := StdMap.mem_keys.mp hmem
      exact (hvotes _ hm).1 rfl
  · rcases Finset.mem_insert.mp hi with rfl | hi
    · exact hr
    · obtain ⟨m, hm⟩ := StdMap.mem_keys.mp hi
      exact (hvotes _ hm).2.1
  · rcases Finset.mem_insert.mp hi with rfl | hi
    · exact ⟨p, hp⟩
    · obtain ⟨m, hm⟩ := StdMap.mem_keys.mp hi
      exact (hvotes _ hm).2.2 hno

theorem insertCommit_good (hr : r < S.G.config.n) (h : Running S γ r s) {m : Commit}
    (hm : r ∉ S.faulty → Counted S γ r m.replicaId m.digest) (hbound : r ∉ S.faulty → BoundCommit S s m) :
    Sat (insertCommit (S.env r) m) s (fun _ s' _ => Good S γ r s') fun s' _ => Good S γ r s' := by
  have hvotes : r ∉ S.faulty → ∀ x ∈ (s.commits m).toList, Counted S γ r x.1 m.digest := by
    intro hno x hx
    rcases StdMap.mem_insert hx with rfl | hx
    · exact hm hno
    · exact h.counted hno _ _ x hx
  have h₁ : Running S γ r { s with
      commitQuorum := setQuorum s.commitQuorum m.opNumber m.digest (s.commits m) } := by
    refine ⟨h.log, h.sound, h.buffered, h.batch, fun hno k digest x hx => ?_, h.committed, h.executed⟩
    rcases mem_setQuorum hx with ⟨rfl, hx'⟩ | hx'
    · exact hvotes hno x hx'
    · exact h.counted hno k digest x hx'
  simp only [insertCommit, sat_bind, sat_get, sat_modify, sat_ite, sat_pure, sat_abort]
  refine ⟨fun _ => h₁.good, fun hq => ⟨fun _ => h₁.good, fun hlast => ?_⟩⟩
  refine (commitBatch_good m.batchSize m.opNumber h₁.good fun s' hs' hno j hj hjn => ?_).mono
    (fun _ _ _ h₂ => executeLoop_good _ h₂) fun _ _ h => h
  have hnow : now γ r s' = γ := by rw [now, hs', ← h.log, Function.update_eq_self]
  rw [hnow]
  refine decided_of_commits hr (hvotes hno) (not_lt.mp hq) (p := m.opNumber + m.batchSize - 1) ?_ (by omega)
  rw [h.log]
  exact hbound hno (not_lt.mp hq) (not_lt.mp hlast)

theorem handleCommit_good (hr : r < S.G.config.n) (h : Running S γ r s) {m : Commit}
    (hm : r ∉ S.faulty → Counted S γ r m.replicaId m.digest) (hbound : r ∉ S.faulty → BoundCommit S s m) :
    Sat (handleCommit (S.env r) m) s (fun _ s' _ => Good S γ r s') fun s' _ => Good S γ r s' := by
  simp only [handleCommit, sat_bind, sat_get, sat_ite, sat_pure, sat_abort, sat_ofOption]
  exact ⟨fun _ => h.good, fun _ => ⟨fun _ => h.good, fun _ => ⟨fun _ => ⟨fun _ _ => ⟨fun _ => h.good, fun _ =>
    insertCommit_good hr h hm hbound⟩, fun _ => h.good⟩, fun _ => insertCommit_good hr h hm hbound⟩⟩⟩

/-! ### Runs -/

/-- What comes from outside: requests that clients have signed, and messages that faulty replicas have. -/
def WellSigned (S : Setting) : Message → Prop
  | .request req => Genuine S.op req
  | .preprepare _ reqs => ∀ req ∈ reqs, Genuine S.op req
  | .prepare m => m.replicaId ∈ S.faulty
  | .commit m => m.replicaId ∈ S.faulty

/-- If the message makes the replica send a Commit, or take a batch for committed, its log has the digest. -/
def Bound (S : Setting) (s : Replica) : Message → Prop
  | .request _ => True
  | .preprepare m reqs => BoundPreprepare S s m (reqs.take m.batchSize)
  | .prepare m => BoundPrepare S s m
  | .commit m => BoundCommit S s m

/-- A step of the group with its clients and faulty replicas, in which the digests are bound to the logs of those
    that are not faulty. -/
def BoundStep (S : Setting) (s : Sys) : Event → Prop
  | .client r _ m => WellSigned S m ∧ (r ∉ S.faulty → Bound S (s.replica r) m)
  | .deliver i => ∀ p ∈ s.net[i]?, p.dst ∉ S.faulty → Bound S (s.replica p.dst) p.msg
  | .timeout _ _ => True

theorem receiveMessage_spec (hr : r < S.G.config.n) (h : Running S γ r s) {m : Message}
    (hm : match m with
      | .request req => Genuine S.op req
      | .preprepare _ reqs => ∀ req ∈ reqs, Genuine S.op req
      | .prepare _ => True
      | .commit m => r ∉ S.faulty → Counted S γ r m.replicaId m.digest)
    (hbound : r ∉ S.faulty → Bound S s m) (remote : Addr) :
    (agreement S).Spec S.G.config.n r γ (receiveMessage (S.env r) remote m) s
      fun _ γ' s' => Running S γ' r s' := by
  cases m with
  | request req => exact handleRequest_spec h hm remote
  | preprepare m reqs =>
    refine spec_ite.mpr ⟨fun _ => spec_abort.mpr (Ends.same h), fun hlen => ?_⟩
    exact handlePreprepare_spec hr h (fun req hreq => hm req (List.mem_of_mem_take hreq))
      (List.length_take_of_le (not_lt.mp hlen)) hbound
  | prepare m => exact handlePrepare_spec hr h hbound
  | commit m =>
    refine (spec_of_emits (J := fun _ _ => True) (emits_handleCommit harmless_toClient m) ?_).mono
      fun _ _ _ _ h => h.1
    exact (handleCommit_good hr h hm hbound).mono (fun _ _ _ h => ⟨h, trivial⟩) fun _ _ h => h

theorem holds_initial : (agreement S).Holds S.G.config.n (fun _ => []) (Net.Sys.initial S.G.protocol) where
  running _ _ _ := ⟨rfl, Spec.sound_nil _ _, (fun _ hx => by cases hx), (fun _ hx => by cases hx),
    (fun _ _ _ _ hx => by cases hx), (fun _ _ he => by cases he), fun _ _ hx => by cases hx⟩
  halted _ _ hs := by cases hs
  packet _ hp := by cases hp

theorem holds_of_run (hfaulty : ∀ i ∈ S.faulty, i < S.G.config.n) {past : List Sys} {s : Sys}
    (hr : Run S.G.system (BoundStep S) past s) : ∃ γ, (agreement S).Holds S.G.config.n γ s := by
  refine hr.invariant (I := fun _ s => ∃ γ, (agreement S).Holds S.G.config.n γ s) ⟨_, holds_initial⟩ ?_
  rintro _ s e s' _ ⟨γ, h⟩ hc hst
  obtain ⟨r, m, hm, hr, hlive, rfl⟩ := Net.Sys.step_eq_some hst
  have hrun := h.running r hr hlive
  suffices hspec : (agreement S).Spec S.G.config.n r γ m (s.replica r) fun _ γ' t => Running S γ' r t by
    obtain ⟨γ', -, h'⟩ := Net.GhostInvariant.step h hspec
    exact ⟨γ', h'⟩
  rcases Net.Event.of_handler hm with ⟨c, k, rfl, rfl⟩ | ⟨i, p, rfl, hp, rfl, rfl⟩ | ⟨t, rfl, -, rfl⟩
  · refine receiveMessage_spec hr hrun ?_ hc.2 _
    cases k with
    | request req => exact hc.1
    | preprepare m reqs => exact hc.1
    | prepare m => exact trivial
    | commit m =>
      have hid : m.replicaId ∈ S.faulty := hc.1
      exact fun hno => ⟨fun heq => hno (heq ▸ hid), hfaulty _ hid, fun hno' => (hno' hid).elim⟩
  · have hgood := h.packet p (List.mem_of_getElem? hp)
    refine receiveMessage_spec hr hrun ?_ (hc p hp) _
    rcases p with ⟨src, dst, m⟩
    cases m with
    | request req => exact hgood
    | preprepare m reqs => exact hgood
    | prepare m => exact trivial
    | commit m => exact fun _ => hgood
  · exact closeBatch_spec hrun

/-! ### Agreement -/

/-- No two of the inputs that the replicas that are not faulty have hashed collide, and none of their digests is that
    of the empty log. -/
def NoneCollide (S : Setting) (s : Sys) : Prop :=
  ∀ i < S.G.config.n, i ∉ S.faulty → (∀ x ∈ stamps (s.replica i).log, x.2 ≠ emptyHash) ∧
    ∀ j < S.G.config.n, j ∉ S.faulty → NoCollision (nextHash S.G.sha1) hashKey emptyHash
      (stamps (s.replica i).log) (stamps (s.replica j).log)

/-- What can be assumed of the logs of replicas that are not faulty. -/
structure SoundLogs (S : Setting) (γ : Logs) : Prop where
  sound : ∀ i < S.G.config.n, i ∉ S.faulty → Sound (Genuine S.op) S.G.sha1 (γ i)
  nonempty : ∀ i < S.G.config.n, i ∉ S.faulty → ∀ x ∈ γ i, x.2 ≠ emptyHash
  free : ∀ i < S.G.config.n, i ∉ S.faulty → ∀ j < S.G.config.n, j ∉ S.faulty →
    NoCollision (nextHash S.G.sha1) hashKey emptyHash (γ i) (γ j)

/-- Two logs with the same digest are the same as far as it goes. -/
theorem SoundLogs.agree (h : SoundLogs S γ) {i j : Nat} (hi : i < S.G.config.n) (hino : i ∉ S.faulty)
    (hj : j < S.G.config.n) (hjno : j ∉ S.faulty) {p q : Nat} {digest : String} (hp : HashedTo (γ i) p digest)
    (hq : HashedTo (γ j) q digest) {k : Nat} (hk : k < p) :
    ∃ a b, (γ i)[k]? = some a ∧ (γ j)[k]? = some b ∧ a.1 = b.1 := by
  obtain ⟨-, hall⟩ := (h.sound i hi hino).chained.agree_of_lastHash (h.sound j hj hjno).chained
    (h.free i hi hino j hj hjno) (h.nonempty i hi hino) (h.nonempty j hj hjno) hp.1 hq.1
    (hp.2.trans hq.2.symm)
  obtain ⟨a, b, ha, hb, hkey⟩ := hall k hk
  exact ⟨a, b, ha, hb, ((h.sound i hi hino).genuine a (List.mem_of_getElem? ha)).eq_of_key
    ((h.sound j hj hjno).genuine b (List.mem_of_getElem? hb)) hkey⟩

/-- Where two replicas that are not faulty have decided, their logs are the same. -/
theorem Decided.agree (h : SoundLogs S γ) (hn : S.G.config.n = 3 * S.G.config.f + 1)
    (hcard : S.faulty.card ≤ S.G.config.f) {i j : Nat} (hi : i < S.G.config.n) (hino : i ∉ S.faulty)
    (hj : j < S.G.config.n) (hjno : j ∉ S.faulty) {k : Nat} (hdi : Decided S γ i (k + 1))
    (hdj : Decided S γ j (k + 1)) : ∃ a b, (γ i)[k]? = some a ∧ (γ j)[k]? = some b ∧ a.1 = b.1 := by
  obtain ⟨p, digest, Q, hkp, hp, hQ, hvoted⟩ := hdi
  obtain ⟨p', digest', Q', hkp', hp', hQ', hvoted'⟩ := hdj
  obtain ⟨m, hm, hm', hmno⟩ := hQ.meet_correct hQ' hcard (by omega)
  obtain ⟨q, hq⟩ := hvoted m hm hmno
  obtain ⟨q', hq'⟩ := hvoted' m hm' hmno
  have hmn := hQ.lt m hm
  obtain ⟨a, c, ha, hc, hac⟩ := h.agree hi hino hmn hmno hp hq hkp
  obtain ⟨b, c', hb, hc', hbc⟩ := h.agree hj hjno hmn hmno hp' hq' hkp'
  obtain rfl : c = c' := Option.some.inj (hc.symm.trans hc')
  exact ⟨a, b, ha, hb, hac.trans hbc.symm⟩

/-- What has been executed is in the log, and was decided. -/
theorem Running.of_executed (h : Running S γ r s) (hno : r ∉ S.faulty) {k : Nat} {x : Request}
    (hx : (k, x) ∈ s.executed) :
    ∃ i a, k = i + 1 ∧ Decided S γ r (i + 1) ∧ (γ r)[i]? = some a ∧ a.1 = x := by
  obtain ⟨hdec, e, he, rfl⟩ := h.executed hno _ hx
  obtain ⟨h1, hget⟩ := Log.find_eq_some.mp he
  have hk : k = k - 1 + 1 := (Nat.sub_add_cancel h1).symm
  refine ⟨k - 1, (e.request, e.hash), hk, hk ▸ hdec, ?_, rfl⟩
  rw [h.log, stamps, List.getElem?_map, hget]
  rfl

/-- With at most `f` faulty replicas of `3f + 1`, and digests that are bound to the logs of the others, these never
    execute different requests at the same op number. -/
theorem agree_of_run (hn : S.G.config.n = 3 * S.G.config.f + 1) (hfaulty : ∀ i ∈ S.faulty, i < S.G.config.n)
    (hcard : S.faulty.card ≤ S.G.config.f) {past : List Sys} {s : Sys}
    (hr : Run S.G.system (BoundStep S) past s) (hfree : NoneCollide S s) {i j : Nat} (hi : i < S.G.config.n)
    (hino : i ∉ S.faulty) (hj : j < S.G.config.n) (hjno : j ∉ S.faulty) {k : Nat} {x y : Request}
    (hx : (k, x) ∈ (s.replica i).executed) (hy : (k, y) ∈ (s.replica j).executed) : x = y := by
  obtain ⟨γ, h⟩ := holds_of_run hfaulty hr
  have hrunning : ∀ i < S.G.config.n, Running S γ i (s.replica i) := by
    intro i hi
    cases hstop : s.stopped i with
    | false => exact h.running i hi hstop
    | true => exact h.halted i hi hstop
  have hlogs : SoundLogs S γ := by
    refine ⟨fun i hi hino => ?_, fun i hi hino => ?_, fun i hi hino j hj hjno => ?_⟩
    · rw [(hrunning i hi).log]
      exact (hrunning i hi).sound
    · rw [(hrunning i hi).log]
      exact (hfree i hi hino).1
    · rw [(hrunning i hi).log, (hrunning j hj).log]
      exact (hfree i hi hino).2 j hj hjno
  obtain ⟨k, a, rfl, hdi, ha, rfl⟩ := (hrunning i hi).of_executed hino hx
  obtain ⟨k', b, hkk, hdj, hb, rfl⟩ := (hrunning j hj).of_executed hjno hy
  obtain rfl : k = k' := Nat.succ.inj hkk
  obtain ⟨a', b', ha', hb', hab⟩ := Decided.agree hlogs hn hcard hi hino hj hjno hdi hdj
  obtain rfl : a = a' := Option.some.inj (ha.symm.trans ha')
  obtain rfl : b = b' := Option.some.inj (hb.symm.trans hb')
  exact hab

instance (S : Setting) (s : Sys) : Decidable (NoneCollide S s) := by
  have : ∀ i j, Decidable (NoCollision (nextHash S.G.sha1) hashKey emptyHash
    (stamps (s.replica i).log) (stamps (s.replica j).log)) := fun _ _ => inferInstance
  unfold NoneCollide
  infer_instance

instance (S : Setting) : ∀ m, Decidable (WellSigned S m)
  | .request req => inferInstanceAs (Decidable (Genuine S.op req))
  | .preprepare _ reqs => inferInstanceAs (Decidable (∀ req ∈ reqs, Genuine S.op req))
  | .prepare m => inferInstanceAs (Decidable (m.replicaId ∈ S.faulty))
  | .commit m => inferInstanceAs (Decidable (m.replicaId ∈ S.faulty))

instance (S : Setting) (s : Replica) : ∀ m, Decidable (Bound S s m)
  | .request _ => isTrue trivial
  | .preprepare m reqs => inferInstanceAs (Decidable (BoundPreprepare S s m (reqs.take m.batchSize)))
  | .prepare m => inferInstanceAs (Decidable (BoundPrepare S s m))
  | .commit m => inferInstanceAs (Decidable (BoundCommit S s m))

instance (S : Setting) (s : Sys) : ∀ e, Decidable (BoundStep S s e)
  | .client r _ m => inferInstanceAs (Decidable (WellSigned S m ∧ (r ∉ S.faulty → Bound S (s.replica r) m)))
  | .deliver i => inferInstanceAs (Decidable (∀ p ∈ s.net[i]?, p.dst ∉ S.faulty →
      Bound S (s.replica p.dst) p.msg))
  | .timeout _ _ => isTrue trivial

/-- Four replicas, with one of them faulty. -/
def oneFaulty (r : Nat) : Setting where
  G := fourReplicas
  op _ _ := ""
  faulty := {r}

/-- The first request of a client is executed by two replicas. -/
theorem agree_first :
    ∃ s : Sys, (1, requestOf 1) ∈ (s.replica 1).executed ∧ (1, requestOf 1) ∈ (s.replica 2).executed ∧
      ∀ x y, (1, x) ∈ (s.replica 1).executed → (1, y) ∈ (s.replica 2).executed → x = y := by
  obtain ⟨past, s, hr, hs⟩ := Run.exists_of_exec (oneFaulty 3).G.system (BoundStep (oneFaulty 3)) firstRequest
    (fun s => NoneCollide (oneFaulty 3) s ∧ (1, requestOf 1) ∈ (s.replica 1).executed ∧
      (1, requestOf 1) ∈ (s.replica 2).executed) (by decide +kernel)
  obtain ⟨hfree, h₁, h₂⟩ := of_decide_eq_true hs
  exact ⟨s, h₁, h₂, fun x y hx hy => agree_of_run (S := oneFaulty 3) rfl (by decide) (by decide) hr hfree
    (i := 1) (j := 2) (by decide) (by decide) (by decide) (by decide) hx hy⟩

/-- What comes from outside has been signed by clients and faulty replicas. -/
def Signed (S : Setting) (_ : Sys) : Event → Prop
  | .client _ _ m => WellSigned S m
  | _ => True

instance (S : Setting) (s : Sys) : ∀ e, Decidable (Signed S s e)
  | .client _ _ m => inferInstanceAs (Decidable (WellSigned S m))
  | .deliver _ => isTrue trivial
  | .timeout _ _ => isTrue trivial

/-- The first request of another client. -/
def otherRequest : Request := { op := "", clientid := 6, clientreqid := 1 }

/-- The faulty primary sends Preprepares that differ in the requests only, and a Commit. -/
def equivocation : List Event :=
  let prepare : Prepare := { viewNumber := 0, opNumber := 1, batchSize := 1, digest := "d", replicaId := 0 }
  let commit : Commit := { viewNumber := 0, opNumber := 1, batchSize := 1, digest := "d", replicaId := 0 }
  [.client 1 5 (.request (requestOf 1)), .client 2 6 (.request otherRequest),
    .client 1 0 (.preprepare prepare [requestOf 1]), .client 2 0 (.preprepare prepare [otherRequest]),
    .deliver 1, .deliver 4, .client 1 0 (.commit commit), .deliver 7, .client 2 0 (.commit commit), .deliver 10]

/-- Two replicas execute different requests at the same op number. -/
theorem equivocation_disagrees :
    ∃ past s, Run (oneFaulty 0).G.system (Signed (oneFaulty 0)) past s ∧ NoneCollide (oneFaulty 0) s ∧
      (oneFaulty 0).G.config.n = 3 * (oneFaulty 0).G.config.f + 1 ∧
      (oneFaulty 0).faulty.card ≤ (oneFaulty 0).G.config.f ∧
      ∃ x y, x ≠ y ∧ (1, x) ∈ (s.replica 1).executed ∧ (1, y) ∈ (s.replica 2).executed := by
  obtain ⟨past, s, hr, hs⟩ := Run.exists_of_exec (oneFaulty 0).G.system (Signed (oneFaulty 0)) equivocation
    (fun s => NoneCollide (oneFaulty 0) s ∧ (1, requestOf 1) ∈ (s.replica 1).executed ∧
      (1, otherRequest) ∈ (s.replica 2).executed) (by decide +kernel)
  obtain ⟨hfree, h₁, h₂⟩ := of_decide_eq_true hs
  exact ⟨past, s, hr, hfree, rfl, by decide, requestOf 1, otherRequest, by decide, h₁, h₂⟩

end Dsnet.PBFT.Agreement
