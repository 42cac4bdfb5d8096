import Dsnet.Spec.Effects

/-! Runs of Speculative Paxos inside view 0: replicas may ask for another view, but nobody enters it, as
    no DoViewChange message is delivered. Then every log only grows, and what a message says of a log
    stays true of it.

    The leader compares hashes as soon as there are replies for a fast quorum, and either commits or
    asks for a view change (`Member.few`). So whenever it compares, all the hashes have to be equal, and
    a fast quorum has the hash it commits (`FastHeld`). A follower commits up to where its hash is the
    leader's. -/

namespace Dsnet.Spec

namespace OneView
open Handler Net.GhostInvariant

/-- What the messages may say about the group: each replica's log, and how much the leader has
    committed. -/
structure Snapshot where
  logs : Nat → List (Request × String)
  committed : Nat

/-- Replica `r` has extended its log to `l`. -/
def Snapshot.write (g : Snapshot) (r : Nat) (l : List (Request × String)) : Snapshot :=
  { g with logs := fun i => if i = r then l else g.logs i }

@[simp] theorem Snapshot.logs_write_self (g : Snapshot) (r : Nat) (l : List (Request × String)) :
    (g.write r l).logs r = l := if_pos rfl

/-- What a step of replica `r` may change. -/
structure Advances (r : Nat) (g g' : Snapshot) : Prop where
  others : ∀ x ≠ r, g'.logs x = g.logs x
  logs : g.logs r <+: g'.logs r
  committed : g.committed ≤ g'.committed
  follower : r ≠ 0 → g'.committed = g.committed

/-- A fast quorum, the leader among it, has the same hash at `k`. -/
def FastHeld (c : Configuration) (g : Snapshot) (k : Nat) : Prop :=
  ∃ h Q, IsQuorum c.n c.fastQuorumSize Q ∧ 0 ∈ Q ∧ ∀ q ∈ Q, hashAt (g.logs q) k = some h

/-- What holds of a packet. -/
def GoodPacket (G : Group) (g : Snapshot) (p : Net.Packet ToReplicaMessage) : Prop :=
  match p.msg with
  | .request req => G.Genuine req
  | .sync m => p.dst ≠ 0 ∧ m.view = 0 ∧ m.lastcommitted ≤ g.committed ∧
    (m.lastcommitted ≠ 0 → hashAt (g.logs 0) m.lastcommitted = some m.lastcommittedhash)
  | .syncReply m => m.replicaidx ≠ 0 ∧ m.replicaidx < G.config.n ∧
    (m.lastspeculative ≠ 0 →
      hashAt (g.logs m.replicaidx) m.lastspeculative = some m.lastspeculativehash)
  | .startView _ | .inView _ | .fillLogGap _ | .fillDVCGap _ => False
  | _ => True

/-- What holds of a replica, also when it was stopped. -/
structure Node (G : Group) (g : Snapshot) (r : Nat) (s : Replica) : Prop where
  log : stamps s.log = g.logs r
  sound : Sound G.Genuine G.sha1 (g.logs r)
  agrees : s.lastCommitted ≠ 0 →
    ∃ h, hashAt (g.logs r) s.lastCommitted = some h ∧ hashAt (g.logs 0) s.lastCommitted = some h
  committed_le : s.lastCommitted ≤ g.committed
  leader : r = 0 → g.committed = s.lastCommitted
  fast : r = 0 → s.lastCommitted ≠ 0 → FastHeld G.config g s.lastCommitted

/-- What holds of a replica that runs. -/
structure Member (G : Group) (g : Snapshot) (r : Nat) (s : Replica) : Prop extends Node G g r s where
  well : WellLogged G.Genuine G.sha1 s
  view : s.status = .normal → s.view = 0
  pendingSync : r = 0 → s.pendingSync = 0
  required : s.syncReplyQuorum.numRequired = G.config.fastQuorumSize - 1
  replies : r = 0 → ∀ k, ∀ x ∈ (s.syncReplyQuorum.messages k).toList, x.1 ≠ 0 ∧ x.1 < G.config.n ∧
    (k ≠ 0 → hashAt (g.logs x.1) k = some x.2.lastspeculativehash)
  few : r = 0 → s.status = .normal → ∀ k, s.lastCommitted < k →
    (s.syncReplyQuorum.messages k).size ≤ G.config.fastQuorumSize - 2

/-! ### What the ghost may do -/

theorem Advances.refl (r : Nat) (g : Snapshot) : Advances r g g :=
  ⟨fun _ _ => rfl, List.prefix_rfl, Nat.le_refl _, fun _ => rfl⟩

theorem Advances.trans {r : Nat} {g g' g'' : Snapshot} (h : Advances r g g') (h' : Advances r g' g'') :
    Advances r g g'' where
  others x hx := (h'.others x hx).trans (h.others x hx)
  logs := h.logs.trans h'.logs
  committed := h.committed.trans h'.committed
  follower hr := (h'.follower hr).trans (h.follower hr)

theorem Advances.prefix_logs {r : Nat} {g g' : Snapshot} (h : Advances r g g') (x : Nat) :
    g.logs x <+: g'.logs x := by
  by_cases hx : x = r
  · exact hx ▸ h.logs
  · rw [h.others x hx]

theorem Advances.hashAt {r x k : Nat} {g g' : Snapshot} {h : String} (hg : Advances r g g')
    (hx : hashAt (g.logs x) k = some h) : Spec.hashAt (g'.logs x) k = some h :=
  hashAt_mono (hg.prefix_logs x) hx

theorem FastHeld.mono {c : Configuration} {r k : Nat} {g g' : Snapshot} (hg : Advances r g g')
    (h : FastHeld c g k) : FastHeld c g' k := by
  obtain ⟨hash, Q, hQ, h0, hall⟩ := h
  exact ⟨hash, Q, hQ, h0, fun q hq => hg.hashAt (hall q hq)⟩

theorem GoodPacket.mono {G : Group} {r : Nat} {g g' : Snapshot} {p : Net.Packet ToReplicaMessage}
    (hg : Advances r g g') (h : GoodPacket G g p) : GoodPacket G g' p := by
  obtain ⟨src, dst, msg⟩ := p
  cases msg with
  | sync m =>
    obtain ⟨hdst, hview, hc, hhash⟩ := h
    exact ⟨hdst, hview, hc.trans hg.committed, fun h0 => hg.hashAt (hhash h0)⟩
  | syncReply m =>
    obtain ⟨h0, hn, hhash⟩ := h
    exact ⟨h0, hn, fun hk => hg.hashAt (hhash hk)⟩
  | _ => exact h

theorem Node.mono {G : Group} {r x : Nat} {g g' : Snapshot} {s : Replica} (hg : Advances r g g')
    (hx : x ≠ r) (h : Node G g x s) : Node G g' x s where
  log := h.log.trans (hg.others x hx).symm
  sound := (hg.others x hx).symm ▸ h.sound
  agrees hc := by
    obtain ⟨hash, hr, h0⟩ := h.agrees hc
    exact ⟨hash, hg.hashAt hr, hg.hashAt h0⟩
  committed_le := h.committed_le.trans hg.committed
  leader h0 := (hg.follower fun hr => hx (h0.trans hr.symm)).trans (h.leader h0)
  fast h0 hc := (h.fast h0 hc).mono hg

theorem Member.mono {G : Group} {r x : Nat} {g g' : Snapshot} {s : Replica} (hg : Advances r g g')
    (hx : x ≠ r) (h : Member G g x s) : Member G g' x s where
  toNode := h.toNode.mono hg hx
  well := h.well
  view := h.view
  pendingSync := h.pendingSync
  required := h.required
  replies h0 k y hy := by
    obtain ⟨hy0, hn, hhash⟩ := h.replies h0 k y hy
    exact ⟨hy0, hn, fun hk => hg.hashAt (hhash hk)⟩
  few := h.few

/-- The invariant of the group. -/
def invariant (G : Group) : Net.GhostInvariant Replica ToReplicaMessage Snapshot where
  running := Member G
  halted := Node G
  packet := GoodPacket G
  advances := Advances
  refl := Advances.refl
  trans := Advances.trans
  running_mono := Member.mono
  halted_mono := Node.mono
  packet_mono hg h := GoodPacket.mono hg h

/-- From ghost `g` and state `s`, the handler of replica `r` keeps the invariant and ends with `J`. -/
abbrev Meets {α : Type} (G : Group) (g : Snapshot) (r : Nat) (m : SpecHandler α) (s : Replica)
    (J : α → Snapshot → Replica → Prop) : Prop :=
  (invariant G).Spec G.config.n r g m s J

variable {G : Group} {g : Snapshot} {r : Nat} {s t : Replica}

/-! ### Handling requests -/

/-- A log that has grown. -/
theorem Node.grows (h : Node G g r s) (hst : Grows s t)
    (hs : Sound G.Genuine G.sha1 (stamps t.log)) :
    Advances r g (g.write r (stamps t.log)) ∧ Node G (g.write r (stamps t.log)) r t := by
  have hadv : Advances r g (g.write r (stamps t.log)) :=
    { others := fun x hx => if_neg hx
      logs := by
        rw [Snapshot.logs_write_self, ← h.log]
        exact hst.log
      committed := Nat.le_refl _
      follower := fun _ => rfl }
  refine ⟨hadv, ?_⟩
  exact
    { log := by simp
      sound := by simpa using hs
      agrees := fun hc => by
        rw [hst.committed] at hc ⊢
        obtain ⟨hash, hr, h0⟩ := h.agrees hc
        exact ⟨hash, hadv.hashAt hr, hadv.hashAt h0⟩
      committed_le := hst.committed.trans_le h.committed_le
      leader := fun h0 => (h.leader h0).trans hst.committed.symm
      fast := fun h0 hc => by
        rw [hst.committed] at hc ⊢
        exact (h.fast h0 hc).mono hadv }

/-- What is said while requests are handled is so. -/
theorem good_of_says (hr : r < G.config.n) (h : Node G g r t) (hview : t.status = .normal → t.view = 0)
    (hp : r = 0 → t.pendingSync = 0) {x : Output} (hx : Says (G.env r) t x) :
    ∀ p ∈ Net.packets G.config.n r x, GoodPacket G g p := by
  match x, hx with
  | .toClient .., _ => simp [Net.packets]
  | .toReplica i (.syncReply m), ⟨_, hsync, hidx, _, hhash⟩ =>
    refine List.forall_mem_singleton.mpr ⟨?_, ?_, ?_⟩
    · rw [hidx]
      exact fun h0 => hsync (hp h0)
    · rw [hidx]
      exact hr
    · rw [hidx]
      exact fun h0 => h.log ▸ hhash h0
  | .toAll (.sync m), ⟨hlead, hst, hv, hc, hhash⟩ =>
    have h0 : r = 0 := by
      rw [amLeader, Configuration.getLeaderIndex, hview hst, Nat.zero_mod] at hlead
      exact hlead.symm
    subst h0
    intro p hp
    obtain ⟨i, hi, rfl⟩ := List.mem_map.mp hp
    refine ⟨of_decide_eq_true (List.mem_filter.mp hi).2, hv.trans (hview hst), ?_, fun hc0 => ?_⟩
    · rw [hc, h.leader rfl]
    · exact h.log ▸ hhash hc0

/-- A handler that only handles requests keeps the invariant. -/
theorem Member.tame {m : SpecHandler Unit} (hr : r < G.config.n) (h : Member G g r s)
    (hm : Tame G.Genuine (G.env r) s m) : Meets G g r m s fun _ g' t => Member G g' r t := by
  refine Sat.mono hm ?_ ?_
  · rintro _ t o ⟨hw, hst, ho⟩
    obtain ⟨hadv, hnode⟩ := h.toNode.grows hst hw.sound
    have hview : t.status = .normal → t.view = 0 := fun ht => hst.view.trans (h.view (hst.status ▸ ht))
    have hp : r = 0 → t.pendingSync = 0 := fun h0 => hst.pendingSync.trans (h.pendingSync h0)
    refine ⟨_, hadv, ⟨hnode, hw, hview, hp, ?_, ?_, ?_⟩, fun x hx => good_of_says hr hnode hview hp (ho x hx)⟩
    · rw [hst.syncReply]
      exact h.required
    · intro h0 k x hx
      rw [hst.syncReply] at hx
      obtain ⟨hx0, hn, hhash⟩ := h.replies h0 k x hx
      exact ⟨hx0, hn, fun hk => hadv.hashAt (hhash hk)⟩
    · intro h0 ht k hk
      rw [hst.syncReply]
      exact h.few h0 (hst.status ▸ ht) k (hst.committed ▸ hk)
  · rintro t o ⟨hs, hst, ho⟩
    obtain ⟨hadv, hnode⟩ := h.toNode.grows hst hs
    exact ⟨_, hadv, hnode, fun x hx => good_of_says hr hnode
      (fun ht => hst.view.trans (h.view (hst.status ▸ ht)))
      (fun h0 => hst.pendingSync.trans (h.pendingSync h0)) (ho x hx)⟩

/-! ### Asking for another view -/

/-- What asking for another view leaves alone. -/
structure Leaves (s t : Replica) : Prop where
  log : t.log = s.log
  committed : t.lastCommitted = s.lastCommitted
  speculative : t.lastSpeculative = s.lastSpeculative
  pendingSync : t.pendingSync = s.pendingSync
  pendingRequests : t.pendingRequests = s.pendingRequests
  syncReply : t.syncReplyQuorum = s.syncReplyQuorum
  view : t.status = .viewChange ∨ (t.status = s.status ∧ t.view = s.view)

theorem Node.leaves (h : Node G g r s) (hst : Leaves s t) : Node G g r t where
  log := hst.log ▸ h.log
  sound := h.sound
  agrees := hst.committed ▸ h.agrees
  committed_le := hst.committed ▸ h.committed_le
  leader := hst.committed ▸ h.leader
  fast := hst.committed ▸ h.fast

theorem Member.leaves (h : Member G g r s) (hst : Leaves s t) : Member G g r t := by
  have hnormal : t.status = .normal → t.status = s.status ∧ t.view = s.view := by
    intro ht
    refine hst.view.resolve_left fun hv => ?_
    rw [ht] at hv
    cases hv
  refine ⟨h.toNode.leaves hst, ⟨?_, ?_, ?_, ?_⟩, ?_, ?_, ?_, ?_, ?_⟩
  · rw [hst.speculative, hst.log]
    exact h.well.full
  · rw [hst.committed, hst.log]
    exact h.well.committed
  · rw [hst.log]
    exact h.well.sound
  · rw [hst.pendingRequests]
    exact h.well.pending
  · exact fun ht => (hnormal ht).2.trans (h.view ((hnormal ht).1 ▸ ht))
  · exact hst.pendingSync ▸ h.pendingSync
  · exact hst.syncReply ▸ h.required
  · exact hst.syncReply ▸ h.replies
  · intro h0 ht
    rw [hst.syncReply, hst.committed]
    exact h.few h0 ((hnormal ht).1 ▸ ht)

/-- Asking for a view, from a state that is good once it has left its own. -/
theorem startViewChange_of_left {newview : Nat}
    (h : ∀ a, Member G g r { s with view := newview, status := .viewChange, active := a }) :
    Meets G g r (startViewChange (G.env r) newview) s fun _ g' t => Member G g' r t := by
  unfold startViewChange
  simp only [spec_modify_bind, spec_get_bind, spec_emit]
  refine Ends.sends (h _) fun p hp => ?_
  obtain ⟨i, _, rfl⟩ := List.mem_map.mp hp
  trivial

theorem startViewChange_meets (h : Member G g r s) (newview : Nat) :
    Meets G g r (startViewChange (G.env r) newview) s fun _ g' t => Member G g' r t :=
  startViewChange_of_left fun _ => h.leaves ⟨rfl, rfl, rfl, rfl, rfl, rfl, Or.inl rfl⟩

theorem handleRequestViewChange_meets (h : Member G g r s) (view : Nat) :
    Meets G g r (handleRequestViewChange (G.env r) view) s fun _ g' t => Member G g' r t := by
  unfold handleRequestViewChange
  simp only [spec_get_bind, spec_ite, spec_pure]
  exact ⟨fun _ => Ends.same h, fun _ => startViewChange_meets h _⟩

theorem handleStartViewChange_meets (h : Member G g r s) (m : StartViewChangeMessage) :
    Meets G g r (handleStartViewChange (G.env r) m) s fun _ g' t => Member G g' r t := by
  unfold handleStartViewChange
  simp only [spec_get_bind, spec_ite, spec_pure]
  refine ⟨fun _ => Ends.same h, fun _ => ⟨fun _ => Ends.same h, fun _ => ?_⟩⟩
  refine Spec.bind (J := fun _ g' t => Member G g' r t) ?_ fun _ g' t _ ht => ?_
  · exact spec_when.mpr ⟨fun _ => startViewChange_meets h _, fun _ => Ends.same h⟩
  · have hleave {q d k} : Member G g' r { t with
        startViewChangeQuorum := q, doViewChangeQuorum := d, sentDoViewChange := k } :=
      ht.leaves ⟨rfl, rfl, rfl, rfl, rfl, rfl, Or.inr ⟨rfl, rfl⟩⟩
    simp only [spec_get_bind, spec_assert_bind, spec_modify_bind, spec_whenSome, spec_ite, spec_pure,
      spec_emit, spec_modify]
    refine ⟨fun _ => ⟨fun msgs _ => ⟨fun _ => Ends.same hleave, fun _ => ⟨fun _ => Ends.same hleave,
      fun _ => ⟨fun _ => ⟨fun _ => Ends.sends hleave ?_, fun _ => Ends.same hleave⟩,
      fun _ => Ends.same hleave.toNode⟩⟩⟩, fun _ => Ends.same hleave⟩, fun _ => Ends.same ht.toNode⟩
    exact List.forall_mem_singleton.mpr trivial

/-! ### Synchronization -/

/-- A follower commits up to where its hash is that of the leader. -/
theorem Member.commits {k : Nat} {hash : String} {l : Log} {u : List Upcall} (h : Member G g r s)
    (hr : r ≠ 0) (hk : s.lastCommitted < k) (hk' : k ≤ g.committed)
    (hown : hashAt (g.logs r) k = some hash) (h0 : hashAt (g.logs 0) k = some hash)
    (hl : stamps l = stamps s.log) :
    Member G g r { s with lastCommitted := max s.lastCommitted k, log := l, upcalls := u } := by
  have hmax : max s.lastCommitted k = k := max_eq_right hk.le
  have hlen : l.entries.length = s.log.entries.length := by
    rw [← length_stamps, hl, length_stamps]
  have hle : k ≤ l.entries.length := by
    rw [hlen, ← length_stamps, h.log]
    exact (hashAt_le hown).2
  rw [hmax]
  exact
    { log := hl.trans h.log
      sound := h.sound
      agrees := fun _ => ⟨hash, hown, h0⟩
      committed_le := hk'
      leader := fun hr0 => absurd hr0 hr
      fast := fun hr0 => absurd hr0 hr
      well :=
        { full := h.well.full.trans hlen.symm
          committed := hle
          sound := hl ▸ h.well.sound
          pending := h.well.pending }
      view := h.view
      pendingSync := h.pendingSync
      required := h.required
      replies := h.replies
      few := fun hr0 => absurd hr0 hr }

/-- The leader is told the hash of a log. -/
theorem sendSyncReply_meets (hr : r < G.config.n) (h0 : r ≠ 0) (h : Member G g r s) (opnum : Nat) :
    Meets G g r (sendSyncReply (G.env r) opnum) s fun _ g' t => Member G g' r t := by
  refine Sat.mono (sendSyncReply_sat opnum) ?_ ?_
  · rintro _ t o ⟨rfl, m, rfl, _, hidx, _, hhash⟩
    refine Ends.sends h (List.forall_mem_singleton.mpr ⟨?_, ?_, ?_⟩)
    · rw [hidx]
      exact h0
    · rw [hidx]
      exact hr
    · rw [hidx]
      exact fun hk => h.log ▸ hhash hk
  · rintro t o ⟨rfl, rfl⟩
    exact Ends.same h.toNode

theorem handleSync_meets {m : SyncMessage} (hr : r < G.config.n) (h0 : r ≠ 0) (h : Member G g r s)
    (hv : m.view = 0) (hc : m.lastcommitted ≤ g.committed)
    (hhash : m.lastcommitted ≠ 0 → hashAt (g.logs 0) m.lastcommitted = some m.lastcommittedhash) :
    Meets G g r (handleSync (G.env r) m) s fun _ g' t => Member G g' r t := by
  unfold handleSync
  simp only [spec_get_bind, spec_ite, spec_pure, spec_assert_bind, spec_modify_bind]
  refine ⟨fun _ => Ends.same h, fun hst => ⟨fun _ => Ends.same h, fun _ => ⟨fun hgt => ?_,
    fun _ => ⟨fun _ => ⟨fun _ => startViewChange_meets ?_ _, fun hle => ?_⟩, fun _ => Ends.same h.toNode⟩⟩⟩⟩
  · rw [hv] at hgt
    exact absurd hgt (Nat.not_lt_zero _)
  · exact h.leaves ⟨rfl, rfl, rfl, rfl, rfl, rfl, Or.inr ⟨rfl, rfl⟩⟩
  · have ht : Member G g r (s.start .viewChange) :=
      h.leaves ⟨rfl, rfl, rfl, rfl, rfl, rfl, Or.inr ⟨rfl, rfl⟩⟩
    have hrest {g' : Snapshot} {t : Replica} (ht : Member G g' r t) :
        Meets G g' r (if m.lastspeculative > s.lastSpeculative then
            Handler.modify fun s => { s with pendingSync := m.lastspeculative }
          else sendSyncReply (G.env r) m.lastspeculative) t fun _ g' t => Member G g' r t := by
      refine spec_ite.mpr ⟨fun _ => Ends.same ?_, fun _ => sendSyncReply_meets hr h0 ht _⟩
      exact { ht with well := { ht.well with }, pendingSync := fun hr0 => absurd hr0 h0 }
    refine ⟨fun hgt => ?_, fun _ => spec_pure_bind.mpr (hrest ht)⟩
    refine spec_ofOption_bind.mpr ⟨fun e he => ?_, fun _ => Ends.same ht.toNode⟩
    refine spec_ite.mpr ⟨fun heq => ?_, fun _ => spec_pure_bind.mpr (startViewChange_meets ht _)⟩
    have hown : hashAt (g.logs r) m.lastcommitted = some m.lastcommittedhash := by
      rw [← h.log, ← heq]
      exact hashAt_of_find he
    refine Spec.bind (J := fun _ g' t => Member G g' r t) ?_ fun _ g' t _ ht => spec_pure_bind.mpr (hrest ht)
    refine Sat.mono (commitUpTo_sat ht.well.committed) ?_ ?_
    · rintro _ _ _ ⟨rfl, _, l, hl, rfl⟩
      exact Ends.same (ht.commits h0 hgt hc hown (hhash (by omega)) hl)
    · rintro _ _ ⟨rfl, hlt, _⟩
      have := (hashAt_le hown).2
      rw [← h.log, length_stamps] at this
      exact absurd hlt (not_lt.mpr this)

/-- A hash that as many have as there are is everybody's. -/
theorem eq_of_mem_matchingHashes {hashes : List String} {need : Nat} {h : String}
    (hneed : hashes.length ≤ need) (hh : h ∈ matchingHashes hashes need) : ∀ x ∈ hashes, x = h := by
  have hcount : need ≤ hashes.count h := of_decide_eq_true (List.mem_filter.mp hh).2
  have hle : hashes.count h ≤ hashes.length := List.count_le_length
  exact fun x hx => (List.count_eq_length.mp (by omega) x hx).symm

/-- A SyncReply has been counted. -/
theorem Member.counts {m : SyncReplyMessage} {st : ReplicaStatus} {v : Nat} {a : Timer → Bool}
    (h : Member G g r s) (hm0 : m.replicaidx ≠ 0) (hmn : m.replicaidx < G.config.n)
    (hhash : m.lastspeculative ≠ 0 →
      hashAt (g.logs m.replicaidx) m.lastspeculative = some m.lastspeculativehash)
    (hv : st = .normal → v = 0) (hst : st = .normal → s.status = .normal)
    (hfew : st = .normal → s.lastCommitted < m.lastspeculative →
      ((s.syncReplyQuorum.add m.lastspeculative m.replicaidx m).messages m.lastspeculative).size ≤
        G.config.fastQuorumSize - 2) :
    Member G g r { s with
      status := st, view := v, active := a
      syncReplyQuorum := s.syncReplyQuorum.add m.lastspeculative m.replicaidx m } where
  log := h.log
  sound := h.sound
  agrees := h.agrees
  committed_le := h.committed_le
  leader := h.leader
  fast := h.fast
  well := { h.well with }
  view := hv
  pendingSync := h.pendingSync
  required := h.required
  replies hr k x hx := by
    rcases QuorumSet.mem_messages_add hx with ⟨rfl, rfl⟩ | hx
    · exact ⟨hm0, hmn, hhash⟩
    · exact h.replies hr k x hx
  few hr ht k hk := by
    by_cases hkm : k = m.lastspeculative
    · subst hkm
      exact hfew ht hk
    · exact (congrArg StdMap.size (if_neg hkm)).trans_le (h.few hr (hst ht) k hk)

/-- The leader and those that have answered it with its own hash. -/
theorem fastHeld_of_replies {k : Nat} {hash : String} {msgs : StdMap Nat SyncReplyMessage}
    (hn : 0 < G.config.n) (hsize : G.config.fastQuorumSize ≤ msgs.size + 1)
    (hown : hashAt (g.logs 0) k = some hash)
    (hall : ∀ x ∈ msgs.toList, x.1 ≠ 0 ∧ x.1 < G.config.n ∧ hashAt (g.logs x.1) k = some hash) :
    FastHeld G.config g k := by
  obtain ⟨Q, hQ, h0, hmem⟩ := QuorumSet.isQuorum_of_counted (p := fun _ : Nat × SyncReplyMessage => true)
    (q := G.config.fastQuorumSize) hn (by rw [List.countP_true]; exact Nat.sub_le_of_le_add hsize)
    fun x hx _ => ⟨(hall x hx).1, (hall x hx).2.1⟩
  refine ⟨hash, Q, hQ, h0, fun q hq => ?_⟩
  rcases hmem q hq with rfl | ⟨m, hm, _⟩
  · exact hown
  · exact (hall _ hm).2.2

/-- The leader commits what a fast quorum has. -/
theorem Member.commitsFast {m : SyncReplyMessage} {a : Timer → Bool} {l : Log} {u : List Upcall}
    (h : Member G g 0 s) (hst : s.status = .normal) (hm0 : m.replicaidx ≠ 0)
    (hmn : m.replicaidx < G.config.n)
    (hhash : m.lastspeculative ≠ 0 →
      hashAt (g.logs m.replicaidx) m.lastspeculative = some m.lastspeculativehash)
    (hk : s.lastCommitted < m.lastspeculative) (hheld : FastHeld G.config g m.lastspeculative)
    (hl : stamps l = stamps s.log) :
    (invariant G).Ends G.config.n 0 g (fun g' t => Member G g' 0 t) { s with
      active := a, syncReplyQuorum := s.syncReplyQuorum.add m.lastspeculative m.replicaidx m
      lastCommitted := max s.lastCommitted m.lastspeculative, log := l, upcalls := u }
      ([] : List Output) := by
  have hmax : max s.lastCommitted m.lastspeculative = m.lastspeculative := max_eq_right hk.le
  have hlen : l.entries.length = s.log.entries.length := by
    rw [← length_stamps, hl, length_stamps]
  obtain ⟨hash, Q, hQ, h0, hall⟩ := id hheld
  have hle : m.lastspeculative ≤ l.entries.length := by
    rw [hlen, ← length_stamps, h.log]
    exact (hashAt_le (hall 0 h0)).2
  have hadv : Advances 0 g { g with committed := m.lastspeculative } :=
    ⟨fun _ _ => rfl, List.prefix_rfl, by rw [h.leader rfl]; exact hk.le, fun h0 => absurd rfl h0⟩
  refine Ends.quiet hadv ?_
  rw [hmax]
  exact
    { log := hl.trans h.log
      sound := h.sound
      agrees := fun _ => ⟨hash, hall 0 h0, hall 0 h0⟩
      committed_le := Nat.le_refl _
      leader := fun _ => rfl
      fast := fun _ _ => hheld.mono hadv
      well :=
        { full := h.well.full.trans hlen.symm
          committed := hle
          sound := hl ▸ h.well.sound
          pending := h.well.pending }
      view := h.view
      pendingSync := h.pendingSync
      required := h.required
      replies := fun _ k x hx => by
        rcases QuorumSet.mem_messages_add hx with ⟨rfl, rfl⟩ | hx
        · exact ⟨hm0, hmn, hhash⟩
        · exact h.replies rfl k x hx
      few := fun _ _ k hlt => by
        have hkm : k ≠ m.lastspeculative := ne_of_gt hlt
        exact (congrArg StdMap.size (if_neg hkm)).trans_le (h.few rfl hst k (hk.trans hlt)) }

/-- The leader compares the hashes when it has just enough of them. -/
theorem compareHashes_meets {m : SyncReplyMessage} {a : Timer → Bool} (hG : G.config.Valid)
    (h : Member G g 0 s) (hst : s.status = .normal) (hm0 : m.replicaidx ≠ 0)
    (hmn : m.replicaidx < G.config.n)
    (hhash : m.lastspeculative ≠ 0 →
      hashAt (g.logs m.replicaidx) m.lastspeculative = some m.lastspeculativehash)
    (hlt : s.lastCommitted < m.lastspeculative)
    (hsize : G.config.fastQuorumSize - 1 ≤
      ((s.syncReplyQuorum.add m.lastspeculative m.replicaidx m).messages m.lastspeculative).size) :
    Meets G g 0 (compareHashes (G.env 0) m
        ((s.syncReplyQuorum.add m.lastspeculative m.replicaidx m).messages m.lastspeculative))
      { s with active := a, syncReplyQuorum := s.syncReplyQuorum.add m.lastspeculative m.replicaidx m }
      fun _ g' t => Member G g' 0 t := by
  have hview : ReplicaStatus.viewChange = .normal → s.view + 1 = 0 := fun h => by cases h
  have hleft {b} := h.counts (a := b) hm0 hmn hhash hview (fun h => by cases h) (fun h => by cases h)
  set q := s.syncReplyQuorum.add m.lastspeculative m.replicaidx m with hq
  have hfast : 3 ≤ G.config.fastQuorumSize := by
    have : G.config.n = 2 * G.config.f + 1 := hG
    unfold Configuration.fastQuorumSize
    omega
  have hadded : (q.messages m.lastspeculative).size ≤ G.config.fastQuorumSize - 2 + 1 := by
    rw [hq, QuorumSet.messages_add_self]
    exact (StdMap.size_insert_le ..).trans (Nat.succ_le_succ (h.few rfl hst _ hlt))
  have hnode {b st v} : Node G g 0 { s with
      active := b, syncReplyQuorum := q, status := st, view := v } := { h.toNode with }
  unfold compareHashes
  simp only [spec_get_bind, spec_ofOption_bind]
  refine ⟨fun entry he => ?_, fun _ => Ends.same hnode⟩
  have hlen : ((q.messages m.lastspeculative).toList.map (·.2.lastspeculativehash) ++
      [entry.hash]).length ≤ G.config.fastQuorumSize := by
    have : (q.messages m.lastspeculative).toList.length = (q.messages m.lastspeculative).size := rfl
    rw [List.length_append, List.length_map, List.length_singleton]
    omega
  have hmatch := fun x => eq_of_mem_matchingHashes (h := x) hlen
  rw [show (G.env 0).config = G.config from rfl]
  generalize matchingHashes _ G.config.fastQuorumSize = matching at hmatch
  rcases matching with _ | ⟨x, _ | ⟨_, _⟩⟩
  · exact startViewChange_of_left fun b => hleft
  · have hall := hmatch x (List.mem_singleton_self x)
    have hx : entry.hash = x := hall _ (by simp)
    have hown : hashAt (g.logs 0) m.lastspeculative = some x := by
      rw [← hx, ← h.log]
      exact hashAt_of_find he
    have hcount : G.config.fastQuorumSize ≤ (q.messages m.lastspeculative).size + 1 := by omega
    have hheld : FastHeld G.config g m.lastspeculative := by
      refine fastHeld_of_replies (by omega) hcount hown fun y hy => ?_
      obtain ⟨hy0, hyn, hyh⟩ := (hleft (b := a)).replies rfl _ y hy
      refine ⟨hy0, hyn, (hyh (by omega)).trans (congrArg some (hall _ ?_))⟩
      exact List.mem_append_left _ (List.mem_map_of_mem hy)
    refine Spec.bind (J := fun _ g' t => g' = g ∧ t = { s with active := a, syncReplyQuorum := q })
      (spec_when.mpr ⟨fun hne => absurd hx hne, fun _ => Ends.same ⟨rfl, rfl⟩⟩) ?_
    rintro _ g' t _ ⟨rfl, rfl⟩
    refine Sat.mono (commitUpTo_sat h.well.committed) ?_ ?_
    · rintro _ _ _ ⟨rfl, _, l, hl, rfl⟩
      exact h.commitsFast hst hm0 hmn hhash hlt hheld hl
    · rintro _ _ ⟨rfl, hshort, _⟩
      have := (hashAt_le hown).2
      rw [← h.log, length_stamps] at this
      exact absurd hshort (not_lt.mpr this)
  · exact Ends.same hnode

theorem handleSyncReply_meets {m : SyncReplyMessage} (hG : G.config.Valid) (h : Member G g r s)
    (hm0 : m.replicaidx ≠ 0) (hmn : m.replicaidx < G.config.n)
    (hhash : m.lastspeculative ≠ 0 →
      hashAt (g.logs m.replicaidx) m.lastspeculative = some m.lastspeculativehash) :
    Meets G g r (handleSyncReply (G.env r) m) s fun _ g' t => Member G g' r t := by
  unfold handleSyncReply
  simp only [spec_get_bind, spec_ite, spec_pure, spec_assert_bind, spec_modify_bind]
  refine ⟨fun _ => Ends.same h, fun hst => ⟨fun _ => Ends.same h, fun _ => ⟨fun _ => ⟨fun hlead =>
    ⟨fun _ => ?_, fun _ => Ends.same h.toNode⟩, fun _ => Ends.same h.toNode⟩,
    fun _ => Ends.same h.toNode⟩⟩⟩
  have hnormal : s.status = .normal := not_not.mp hst
  obtain rfl : r = 0 := by
    rw [amLeader, Configuration.getLeaderIndex, h.view hnormal, Nat.zero_mod] at hlead
    exact hlead.symm
  refine spec_whenSome.mpr ⟨fun msgs hmsgs => ?_, fun hnone => ?_⟩
  · obtain ⟨rfl, hsize⟩ := QuorumSet.checkForQuorum_eq_some.mp hmsgs
    rw [QuorumSet.numRequired_add, h.required] at hsize
    simp only [spec_modify_bind, spec_ite, spec_pure]
    refine ⟨fun hle => Ends.same ?_, fun hgt => ?_⟩
    · exact h.counts hm0 hmn hhash h.view id fun _ hlt => absurd hlt (by omega)
    · exact compareHashes_meets hG h hnormal hm0 hmn hhash (by omega) hsize
  · refine Ends.same (h.counts hm0 hmn hhash h.view id fun _ _ => ?_)
    unfold QuorumSet.checkForQuorum at hnone
    rw [QuorumSet.numRequired_add, h.required] at hnone
    split_ifs at hnone with hsize
    omega

/-! ### The events -/

/-- A packet is handled, unless it is a DoViewChange message. -/
theorem receiveMessage_meets {p : Net.Packet ToReplicaMessage} (hG : G.config.Valid)
    (hr : r < G.config.n) (h : Member G g r s) (hdst : p.dst = r) (hp : GoodPacket G g p)
    (hno : ∀ m, p.msg ≠ .doViewChange m) :
    Meets G g r (receiveMessage (G.env r) p.src p.msg) s fun _ g' t => Member G g' r t := by
  obtain ⟨src, dst, msg⟩ := p
  subst hdst
  cases msg with
  | request req => exact h.tame hr (handleRequest_tame h.well hp)
  | unloggedRequest op => exact h.tame hr (handleUnloggedRequest_tame h.well)
  | sync m =>
    obtain ⟨h0, hv, hc, hhash⟩ := hp
    exact handleSync_meets hr h0 h hv hc hhash
  | syncReply m =>
    obtain ⟨h0, hn, hhash⟩ := hp
    exact handleSyncReply_meets hG h h0 hn hhash
  | requestViewChange view => exact handleRequestViewChange_meets h view
  | startViewChange m => exact handleStartViewChange_meets h m
  | doViewChange m => exact absurd rfl (hno m)
  | startView m | inView m | fillLogGap m | fillDVCGap m => exact hp.elim

theorem timeout_meets (hr : r < G.config.n) (h : Member G g r s) (t : Timer) :
    Meets G g r (timeout (G.env r) t) s fun _ g' t => Member G g' r t := by
  cases t with
  | sync => exact h.tame hr (Tame.sendSync h.well)
  | failedSync => exact spec_get_bind.mpr (startViewChange_meets h _)
  | viewChange => exact spec_get_bind.mpr (startViewChange_meets h _)

end OneView
end Dsnet.Spec
