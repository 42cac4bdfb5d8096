import Dsnet.Spec.Install

/-! Runs of Speculative Paxos with view changes. The leader of a view logs for it from when it enters it
    (`Snapshot.viewLog`), and StartView messages are pieces of that log. A replica that installs one has
    the leader's hash at its last opnum (`GoodInView`), and what it logs later comes after that.

    A step starts in a state that the ghost records (`Snapshot.past`), so what a replica showed when it
    joined a view can be pointed at after it has left. -/

namespace Dsnet.Spec.Views
open Handler Net.GhostInvariant

/-- What the messages may say about the group: the log of each view's leader, the logs with which replicas
    have joined views, and the states before this step. -/
structure Snapshot where
  past : List Sys
  viewLog : Nat → List (Request × String)
  joined : Nat → Nat → List (Request × String) → Prop

/-- The log of view `v` is now `l`. -/
def Snapshot.write (g : Snapshot) (v : Nat) (l : List (Request × String)) : Snapshot :=
  { g with viewLog := fun i => if i = v then l else g.viewLog i }

/-- Replica `r` has joined view `v` with the log `l`. -/
def Snapshot.join (g : Snapshot) (r v : Nat) (l : List (Request × String)) : Snapshot :=
  { g with joined := fun x u k => g.joined x u k ∨ (x = r ∧ u = v ∧ k = l) }

/-- The replica is in view `v`, with a log that starts with `l`. -/
def Shows (s : Replica) (v : Nat) (l : List (Request × String)) : Prop :=
  s.view = v ∧ s.status = .normal ∧ l <+: stamps s.log

/-- Replica `r` was in view `v` with a log that starts with `l`. -/
def Seen (g : Snapshot) (r v : Nat) (l : List (Request × String)) : Prop :=
  ∃ t ∈ g.past, Shows (t.replica r) v l

/-- What a step of replica `r` may change. -/
structure Advances (G : Group) (r : Nat) (g g' : Snapshot) : Prop where
  past : g'.past = g.past
  others : ∀ v, G.config.getLeaderIndex v ≠ r → g'.viewLog v = g.viewLog v
  viewLog : ∀ v, g.viewLog v <+: g'.viewLog v
  joins : ∀ x ≠ r, g'.joined x = g.joined x
  joined : ∀ v l, g.joined r v l → g'.joined r v l

/-- Replica `q` has joined view `v` with the leader's hash at `k`. -/
def GoodInView (G : Group) (g : Snapshot) (q v k : Nat) : Prop :=
  q < G.config.n ∧ q ≠ G.config.getLeaderIndex v ∧ ∃ l, g.joined q v l ∧
    (k ≠ 0 → ∃ h, hashAt l k = some h ∧ hashAt (g.viewLog v) k = some h)

/-- A StartView message ends with an entry of the view's log. -/
structure GoodStartView (G : Group) (g : Snapshot) (m : StartViewMessage) : Prop where
  genuine : ∀ e ∈ m.entries, G.Genuine e.request
  numbered : ∃ k, Log.NumberedFrom (k + 1) m.entries
  last : (m.lastspeculative = 0 ∧ m.entries = []) ∨ ∃ e, m.entries.getLast? = some e ∧
    e.opnum = m.lastspeculative ∧ hashAt (g.viewLog m.view) m.lastspeculative = some e.hash

/-- What holds of a packet. -/
def GoodPacket (G : Group) (g : Snapshot) (p : Net.Packet ToReplicaMessage) : Prop :=
  match p.msg with
  | .request req => G.Genuine req
  | .doViewChange m => ∀ e ∈ m.entries, G.Genuine e.request
  | .startView m => GoodStartView G g m
  | .inView m => GoodInView G g m.replicaidx m.view m.lastspeculative
  | .fillLogGap m => m.lastcommitted < (g.viewLog m.view).length
  | _ => True

/-- What holds of a replica, also when it was stopped. -/
structure Node (G : Group) (g : Snapshot) (r : Nat) (s : Replica) : Prop where
  seen : ∀ v l, g.joined r v l → Sound G.Genuine G.sha1 l ∧ (Seen g r v l ∨ Shows s v l)

/-- What holds of a replica that runs. -/
structure Member (G : Group) (g : Snapshot) (r : Nat) (s : Replica) : Prop extends Node G g r s where
  well : WellLogged G.Genuine G.sha1 s
  joins : ∀ v l, g.joined r v l → v < s.view ∨ Shows s v l
  leads : s.status = .normal → G.config.getLeaderIndex s.view = r → g.viewLog s.view = stamps s.log
  unstarted : ∀ v, G.config.getLeaderIndex v = r → s.view < v ∨ (s.view = v ∧ s.status ≠ .normal) →
    g.viewLog v = []
  required : s.inViewQuorum.numRequired = G.config.quorumSize - 1
  inViews : ∀ v, ∀ x ∈ (s.inViewQuorum.messages v).toList, GoodInView G g x.1 v x.2.lastspeculative
  dvcs : ∀ v, ∀ x ∈ (s.doViewChangeQuorum.messages v).toList, ∀ e ∈ x.2.entries,
    G.Genuine e.request

/-- All that replica `r` has joined was to be seen before this step. -/
def AllSeen (G : Group) (g : Snapshot) (r : Nat) : Prop :=
  ∀ v l, g.joined r v l → Sound G.Genuine G.sha1 l ∧ Seen g r v l

/-! ### What the ghost may do -/

variable {G : Group} {g g' g'' : Snapshot} {r x v k : Nat} {s t : Replica}

theorem Advances.refl (r : Nat) (g : Snapshot) : Advances G r g g :=
  ⟨rfl, fun _ _ => rfl, fun _ => List.prefix_rfl, fun _ _ => rfl, fun _ _ => id⟩

theorem Advances.trans (h : Advances G r g g') (h' : Advances G r g' g'') : Advances G r g g'' where
  past := h'.past.trans h.past
  others v hv := (h'.others v hv).trans (h.others v hv)
  viewLog v := (h.viewLog v).trans (h'.viewLog v)
  joins x hx := (h'.joins x hx).trans (h.joins x hx)
  joined v l hl := h'.joined v l (h.joined v l hl)

theorem Advances.joined_of (hg : Advances G r g g') {l : List (Request × String)}
    (h : g.joined x v l) : g'.joined x v l := by
  by_cases hx : x = r
  · subst hx
    exact hg.joined v l h
  · rwa [hg.joins x hx]

theorem Seen.mono (hg : Advances G r g g') {l : List (Request × String)} (h : Seen g x v l) :
    Seen g' x v l := by
  rw [Seen, hg.past]
  exact h

theorem GoodInView.mono (hg : Advances G r g g') (h : GoodInView G g x v k) :
    GoodInView G g' x v k := by
  obtain ⟨hn, hlead, l, hl, hhash⟩ := h
  refine ⟨hn, hlead, l, hg.joined_of hl, fun h0 => ?_⟩
  obtain ⟨hash, hown, hview⟩ := hhash h0
  exact ⟨hash, hown, hashAt_mono (hg.viewLog v) hview⟩

theorem GoodStartView.mono {m : StartViewMessage} (hg : Advances G r g g')
    (h : GoodStartView G g m) : GoodStartView G g' m := by
  refine { h with last := h.last.imp_right ?_ }
  rintro ⟨e, he, hop, hhash⟩
  exact ⟨e, he, hop, hashAt_mono (hg.viewLog _) hhash⟩

theorem GoodPacket.mono {p : Net.Packet ToReplicaMessage} (hg : Advances G r g g')
    (h : GoodPacket G g p) : GoodPacket G g' p := by
  obtain ⟨src, dst, msg⟩ := p
  cases msg with
  | startView m => exact GoodStartView.mono hg h
  | inView m => exact GoodInView.mono hg h
  | fillLogGap m => exact lt_of_lt_of_le h (hg.viewLog _).length_le
  | _ => exact h

theorem Node.mono (hg : Advances G r g g') (hx : x ≠ r) (h : Node G g x s) : Node G g' x s where
  seen v l hl := by
    rw [hg.joins x hx] at hl
    exact (h.seen v l hl).imp_right fun hs => hs.imp_left (Seen.mono hg)

theorem Member.mono (hg : Advances G r g g') (hx : x ≠ r) (h : Member G g x s) : Member G g' x s where
  toNode := h.toNode.mono hg hx
  well := h.well
  joins := hg.joins x hx ▸ h.joins
  leads hst hlead := (hg.others _ (hlead ▸ hx)).trans (h.leads hst hlead)
  unstarted v hv hlt := (hg.others v (hv ▸ hx)).trans (h.unstarted v hv hlt)
  required := h.required
  inViews v y hy := (h.inViews v y hy).mono hg
  dvcs := h.dvcs

/-- The invariant of the group. -/
def invariant (G : Group) : Net.GhostInvariant Replica ToReplicaMessage Snapshot where
  running := Member G
  halted := Node G
  packet := GoodPacket G
  advances := Advances G
  refl := Advances.refl
  trans := Advances.trans
  running_mono := Member.mono
  halted_mono := Node.mono
  packet_mono hg h := GoodPacket.mono hg h

/-- From ghost `g` and state `s`, the handler of replica `r` keeps the invariant and ends with `J`. -/
abbrev Meets {α : Type} (G : Group) (g : Snapshot) (r : Nat) (m : SpecHandler α) (s : Replica)
    (J : α → Snapshot → Replica → Prop) : Prop :=
  (invariant G).Spec G.config.n r g m s J

/-! ### Steps inside a view -/

/-- The sent messages are none that the invariant speaks of. -/
def Plain : Output → Prop
  | .toClient .. => True
  | .toReplica _ (.syncReply _) | .toAll (.sync _) | .toAll (.startViewChange _) => True
  | .toReplica _ (.fillDVCGap _) => True
  | _ => False

theorem good_of_plain {o : Output} (ho : Plain o) :
    ∀ p ∈ Net.packets G.config.n r o, GoodPacket G g p := by
  match o, ho with
  | .toClient .., _ => simp [Net.packets]
  | .toReplica _ (.syncReply _), _ => exact List.forall_mem_singleton.mpr trivial
  | .toReplica _ (.fillDVCGap _), _ => exact List.forall_mem_singleton.mpr trivial
  | .toAll (.sync _), _ | .toAll (.startViewChange _), _ =>
    intro p hp
    obtain ⟨i, _, rfl⟩ := List.mem_map.mp hp
    trivial

theorem Shows.grows {l : List (Request × String)} (hst : Grows s t) (h : Shows s v l) : Shows t v l :=
  ⟨hst.view.trans h.1, hst.status.trans h.2.1, h.2.2.trans hst.log⟩

theorem Node.grows (hst : Grows s t) (h : Node G g r s) : Node G g r t where
  seen v l hl := (h.seen v l hl).imp_right fun hs => hs.imp_right (Shows.grows hst)

/-- The leader's log is the log of its view, so this grows with it. -/
def growView (G : Group) (g : Snapshot) (r : Nat) (t : Replica) : Snapshot :=
  if t.status = .normal ∧ G.config.getLeaderIndex t.view = r then g.write t.view (stamps t.log) else g

theorem Member.grows (h : Member G g r s) (hst : Grows s t)
    (hw : WellLogged G.Genuine G.sha1 t) :
    Advances G r g (growView G g r t) ∧ Member G (growView G g r t) r t := by
  have hwrite : ∀ u, (growView G g r t).viewLog u = g.viewLog u ∨ (u = t.view ∧ t.status = .normal ∧
      G.config.getLeaderIndex u = r ∧ (growView G g r t).viewLog u = stamps t.log) := by
    intro u
    rw [growView]
    split_ifs with hlead
    · by_cases hu : u = t.view
      · subst hu
        exact Or.inr ⟨rfl, hlead.1, hlead.2, if_pos rfl⟩
      · exact Or.inl (if_neg hu)
    · exact Or.inl rfl
  have hjoined : (growView G g r t).joined = g.joined ∧ (growView G g r t).past = g.past := by
    rw [growView]
    split_ifs <;> exact ⟨rfl, rfl⟩
  have hadv : Advances G r g (growView G g r t) := by
    refine ⟨hjoined.2, fun u hu => ?_, fun u => ?_, fun x _ => by rw [hjoined.1],
      fun u l hl => by rwa [hjoined.1]⟩
    · exact (hwrite u).resolve_right fun hw => hu hw.2.2.1
    · rcases hwrite u with hw | ⟨rfl, hnormal, hlead, hw⟩
      · rw [hw]
      · have hold : g.viewLog t.view = stamps s.log := by
          rw [hst.view]
          exact h.leads (hst.status ▸ hnormal) (hst.view ▸ hlead)
        rw [hold, hw]
        exact hst.log
  refine ⟨hadv, ⟨⟨?_⟩, hw, ?_, ?_, ?_, ?_, ?_, ?_⟩⟩
  · intro u l hl
    rw [hjoined.1] at hl
    exact ((h.toNode.grows hst).seen u l hl).imp_right fun hs => hs.imp_left (Seen.mono hadv)
  · intro u l hl
    rw [hjoined.1] at hl
    rw [hst.view]
    exact (h.joins u l hl).imp_right (Shows.grows hst)
  · intro hnormal hlead
    rw [growView, if_pos ⟨hnormal, hlead⟩]
    exact if_pos rfl
  · intro u hlead hu
    rcases hwrite u with hw | ⟨rfl, hnormal, _⟩
    · rw [hw]
      refine h.unstarted u hlead ?_
      rwa [← hst.view, ← hst.status]
    · rcases hu with hu | ⟨_, hu⟩
      · exact absurd hu (lt_irrefl _)
      · exact absurd hnormal hu
  · rw [hst.inView]
    exact h.required
  · intro u y hy
    rw [hst.inView] at hy
    exact (h.inViews u y hy).mono hadv
  · rw [hst.doViewChange]
    exact h.dvcs

theorem plain_of_said {o : Output} (ho : Says (G.env r) t o) : Plain o := by
  match o, ho with
  | .toClient .., _ => trivial
  | .toReplica _ (.syncReply _), _ => trivial
  | .toAll (.sync _), _ => trivial

/-- A handler that only handles requests keeps the invariant. -/
theorem Member.tame {m : SpecHandler Unit} (h : Member G g r s)
    (hm : Tame G.Genuine (G.env r) s m) :
    Meets G g r m s fun _ g' t => Member G g' r t ∧ t.status = s.status ∧ t.view = s.view ∧
      stamps s.log <+: stamps t.log := by
  refine Sat.mono hm ?_ ?_
  · rintro _ t o ⟨hw, hst, ho⟩
    obtain ⟨hadv, hmem⟩ := h.grows hst hw
    exact ⟨_, hadv, ⟨hmem, hst.status, hst.view, hst.log⟩,
      fun x hx => good_of_plain (plain_of_said (ho x hx))⟩
  · rintro t o ⟨_, hst, ho⟩
    exact ⟨g, .refl r g, h.toNode.grows hst, fun x hx => good_of_plain (plain_of_said (ho x hx))⟩

/-! ### Committing and leaving -/

/-- What changes neither the log nor the view. -/
structure Same (s t : Replica) : Prop where
  status : t.status = s.status
  view : t.view = s.view
  speculative : t.lastSpeculative = s.lastSpeculative
  committed : t.lastCommitted ≤ s.log.entries.length
  log : stamps t.log = stamps s.log
  pendingRequests : t.pendingRequests = s.pendingRequests
  inView : t.inViewQuorum = s.inViewQuorum
  doViewChange : t.doViewChangeQuorum = s.doViewChangeQuorum

theorem Member.same (h : Member G g r s) (hst : Same s t) : Member G g r t := by
  have hlen : t.log.entries.length = s.log.entries.length := by
    rw [← length_stamps, hst.log, length_stamps]
  have hshows : ∀ {v l}, Shows s v l → Shows t v l := fun hs =>
    ⟨hst.view.trans hs.1, hst.status.trans hs.2.1, by rw [hst.log]; exact hs.2.2⟩
  refine ⟨⟨fun v l hl => (h.seen v l hl).imp_right fun hs => hs.imp_right hshows⟩,
    ⟨?_, ?_, ?_, ?_⟩, ?_, ?_, ?_, ?_, ?_, ?_⟩
  · rw [hst.speculative, hlen]
    exact h.well.full
  · rw [hlen]
    exact hst.committed
  · rw [hst.log]
    exact h.well.sound
  · rw [hst.pendingRequests]
    exact h.well.pending
  · rw [hst.view]
    exact fun v l hl => (h.joins v l hl).imp_right hshows
  · rw [hst.status, hst.view, hst.log]
    exact h.leads
  · rw [hst.status, hst.view]
    exact h.unstarted
  · rw [hst.inView]
    exact h.required
  · rw [hst.inView]
    exact h.inViews
  · rw [hst.doViewChange]
    exact h.dvcs

/-- What a replica has shown before it can take back. -/
theorem AllSeen.node (hseen : AllSeen G g r) : Node G g r t :=
  ⟨fun v l hl => (hseen v l hl).imp_right Or.inl⟩

theorem commitUpTo_meets {upto : Nat} (hseen : AllSeen G g r) (h : Member G g r s) :
    Meets G g r (commitUpTo upto) s fun _ g' t => g' = g ∧ Member G g r t ∧ Same s t := by
  refine Sat.mono (commitUpTo_sat h.well.committed) ?_ ?_
  · rintro _ _ _ ⟨rfl, hle, l, hl, rfl⟩
    have hst : Same s { s with lastCommitted := max s.lastCommitted upto, log := l
                               upcalls := s.upcalls ++ [.commit upto] } :=
      ⟨rfl, rfl, rfl, max_le h.well.committed hle, hl, rfl, rfl, rfl⟩
    exact Ends.same ⟨rfl, h.same hst, hst⟩
  · rintro _ _ ⟨rfl, _⟩
    exact Ends.same hseen.node

/-- A replica asks for a later view. -/
theorem startViewChange_meets {newview : Nat} (hseen : AllSeen G g r) (h : Member G g r s)
    (hv : s.view < newview) :
    Meets G g r (startViewChange (G.env r) newview) s fun _ g' t => g' = g ∧ Member G g r t ∧
      t.view = newview ∧ t.status = .viewChange := by
  rw [startViewChange]
  simp only [spec_modify_bind, spec_get_bind, spec_emit]
  refine Ends.sends ⟨rfl, ?_, rfl, rfl⟩ (good_of_plain trivial)
  refine ⟨hseen.node, { h.well with }, fun v l hl => Or.inl ?_, fun hst => (by cases hst),
    fun v hlead hlt => ?_, h.required, h.inViews, h.dvcs⟩
  · rcases h.joins v l hl with hlt | hs
    · exact hlt.trans hv
    · exact hs.1 ▸ hv
  · refine h.unstarted v hlead (Or.inl ?_)
    rcases hlt with hlt | ⟨rfl, _⟩
    · exact hv.trans hlt
    · exact hv

theorem handleRequestViewChange_meets (hseen : AllSeen G g r) (h : Member G g r s) (view : Nat) :
    Meets G g r (handleRequestViewChange (G.env r) view) s fun _ g' t => Member G g' r t := by
  rw [handleRequestViewChange]
  simp only [spec_get_bind, spec_ite, spec_pure]
  refine ⟨fun _ => Ends.same h, fun _ => ?_⟩
  refine (startViewChange_meets hseen h (Nat.lt_succ_self _)).mono ?_
  rintro _ _ t _ ⟨rfl, ht, _⟩
  exact ht

theorem genuine_of_stamps {l : Log} {P : Request → Prop} (h : ∀ x ∈ stamps l, P x.1) :
    ∀ e ∈ l.entries, P e.request :=
  fun _ he => h _ (List.mem_map_of_mem he)

/-- A DoViewChange message carries entries of the log. -/
theorem Member.doViewChange (h : Member G g r s) (start : Nat) :
    ∀ e ∈ (doViewChangeMessage (G.env r) s start).entries, G.Genuine e.request :=
  fun e he => genuine_of_stamps h.well.sound.genuine e (List.mem_of_mem_drop he)

/-- The DoViewChange messages that are counted carry what clients send. -/
theorem Member.withDvcs {q : QuorumSet Nat DoViewChangeMessage} (h : Member G g r s)
    (hq : ∀ v, ∀ x ∈ (q.messages v).toList, ∀ e ∈ x.2.entries, G.Genuine e.request) :
    Member G g r { s with doViewChangeQuorum := q } :=
  { h with well := { h.well with }, dvcs := hq }

theorem Member.addDvc {i u : Nat} {m : DoViewChangeMessage} (h : Member G g r s)
    (hm : ∀ e ∈ m.entries, G.Genuine e.request) :
    Member G g r { s with doViewChangeQuorum := s.doViewChangeQuorum.add u i m } := by
  refine h.withDvcs fun v x hx => ?_
  rcases QuorumSet.mem_messages_add hx with ⟨_, rfl⟩ | hx
  · exact hm
  · exact h.dvcs v x hx

theorem handleStartViewChange_meets (hseen : AllSeen G g r) (h : Member G g r s)
    (m : StartViewChangeMessage) :
    Meets G g r (handleStartViewChange (G.env r) m) s fun _ g' t => Member G g' r t := by
  rw [handleStartViewChange]
  simp only [spec_get_bind, spec_ite, spec_pure]
  refine ⟨fun _ => Ends.same h, fun hge => ⟨fun _ => Ends.same h, fun hne => ?_⟩⟩
  refine Spec.bind (J := fun _ g' t => g' = g ∧ Member G g r t) ?_ ?_
  · refine spec_when.mpr ⟨fun hgo => ?_, fun _ => Ends.same ⟨rfl, h⟩⟩
    refine (startViewChange_meets hseen h ?_).mono ?_
    · rcases hgo with hst | hgt
      · exact lt_of_le_of_ne (not_lt.mp hge) fun heq => hne ⟨heq.symm, hst⟩
      · exact hgt
    · rintro _ _ t _ ⟨rfl, ht, _⟩
      exact ⟨rfl, ht⟩
  rintro _ g' t _ ⟨rfl, ht⟩
  have hsame {q k} : Member G g' r { t with startViewChangeQuorum := q, sentDoViewChange := k } :=
    ht.same ⟨rfl, rfl, rfl, ht.well.committed, rfl, rfl, rfl, rfl⟩
  simp only [spec_get_bind, spec_assert_bind, spec_modify_bind, spec_whenSome, spec_ite, spec_pure,
    spec_emit, spec_modify]
  refine ⟨fun _ => ⟨fun msgs _ => ⟨fun _ => Ends.same hsame, fun _ => ⟨fun _ => Ends.same hsame,
    fun _ => ⟨fun _ => ⟨fun _ => Ends.sends hsame ?_, fun _ => Ends.same ?_⟩,
    fun _ => Ends.same hseen.node⟩⟩⟩, fun _ => Ends.same hsame⟩, fun _ => Ends.same hseen.node⟩
  · exact List.forall_mem_singleton.mpr (ht.doViewChange _)
  · exact (ht.addDvc (u := m.view) (i := r) (ht.doViewChange (fudgedStart t.lastSpeculative))).same
      ⟨rfl, rfl, rfl, ht.well.committed, rfl, rfl, rfl, rfl⟩

/-! ### Synchronization -/

theorem sendSyncReply_meets (hseen : AllSeen G g r) (h : Member G g r s) (opnum : Nat) :
    Meets G g r (sendSyncReply (G.env r) opnum) s fun _ g' t => Member G g' r t := by
  refine Sat.mono (sendSyncReply_sat opnum) ?_ ?_
  · rintro _ t o ⟨rfl, m, rfl, _⟩
    exact Ends.sends h (good_of_plain trivial)
  · rintro t o ⟨rfl, rfl⟩
    exact Ends.same hseen.node

theorem sendSync_meets (hseen : AllSeen G g r) (h : Member G g r s) :
    Meets G g r (sendSync (G.env r)) s fun _ g' t => Member G g' r t := by
  refine Sat.mono sendSync_sat ?_ ?_
  · rintro _ t o ⟨⟨k, rfl⟩, m, rfl, _⟩
    exact Ends.sends (h.same ⟨rfl, rfl, rfl, h.well.committed, rfl, rfl, rfl, rfl⟩)
      (good_of_plain trivial)
  · rintro t o ⟨rfl, _⟩
    exact Ends.same hseen.node

theorem handleSync_meets (hseen : AllSeen G g r) (h : Member G g r s) (m : SyncMessage) :
    Meets G g r (handleSync (G.env r) m) s fun _ g' t => Member G g' r t := by
  have hleave {t : Replica} {v : Nat} (ht : Member G g r t) (hv : t.view < v) :
      Meets G g r (startViewChange (G.env r) v) t fun _ g' t => Member G g' r t := by
    refine (startViewChange_meets hseen ht hv).mono ?_
    rintro _ _ u _ ⟨rfl, hu, _⟩
    exact hu
  have ht : Member G g r (s.start .viewChange) :=
    h.same ⟨rfl, rfl, rfl, h.well.committed, rfl, rfl, rfl, rfl⟩
  have hrest {t : Replica} (ht : Member G g r t) :
      Meets G g r (if m.lastspeculative > s.lastSpeculative then
          Handler.modify fun s => { s with pendingSync := m.lastspeculative }
        else sendSyncReply (G.env r) m.lastspeculative) t fun _ g' t => Member G g' r t := by
    refine spec_ite.mpr ⟨fun _ => Ends.same ?_, fun _ => sendSyncReply_meets hseen ht _⟩
    exact ht.same ⟨rfl, rfl, rfl, ht.well.committed, rfl, rfl, rfl, rfl⟩
  rw [handleSync]
  simp only [spec_get_bind, spec_ite, spec_pure, spec_assert_bind, spec_modify_bind]
  refine ⟨fun _ => Ends.same h, fun _ => ⟨fun _ => Ends.same h, fun _ => ⟨fun hgt =>
    hleave h (Nat.lt_succ_of_lt hgt), fun _ => ⟨fun _ => ⟨fun _ => hleave ht (Nat.lt_succ_self _),
    fun _ => ⟨fun _ => ?_, fun _ => spec_pure_bind.mpr (hrest ht)⟩⟩,
    fun _ => Ends.same hseen.node⟩⟩⟩⟩
  refine spec_ofOption_bind.mpr ⟨fun e _ => ?_, fun _ => Ends.same hseen.node⟩
  refine spec_ite.mpr ⟨fun _ => ?_, fun _ => spec_pure_bind.mpr (hleave ht (Nat.lt_succ_self _))⟩
  refine Spec.bind (commitUpTo_meets hseen ht) ?_
  rintro _ _ u _ ⟨rfl, hu, _⟩
  exact spec_pure_bind.mpr (hrest hu)

theorem compareHashes_meets (hseen : AllSeen G g r) (h : Member G g r s) (m : SyncReplyMessage)
    (msgs : StdMap Nat SyncReplyMessage) :
    Meets G g r (compareHashes (G.env r) m msgs) s fun _ g' t => Member G g' r t := by
  rw [compareHashes]
  simp only [spec_get_bind, spec_ofOption_bind]
  refine ⟨fun entry _ => ?_, fun _ => Ends.same hseen.node⟩
  have hleave := startViewChange_meets hseen h (Nat.lt_succ_self s.view)
  generalize matchingHashes _ _ = matching
  rcases matching with _ | ⟨x, _ | ⟨_, _⟩⟩
  · refine hleave.mono ?_
    rintro _ _ t _ ⟨rfl, ht, _⟩
    exact ht
  · refine Spec.bind (J := fun _ g' t => g' = g ∧ Member G g r t)
      (spec_when.mpr ⟨fun _ => hleave.mono ?_, fun _ => Ends.same ⟨rfl, h⟩⟩) ?_
    · rintro _ _ t _ ⟨rfl, ht, _⟩
      exact ⟨rfl, ht⟩
    · rintro _ _ t _ ⟨rfl, ht⟩
      refine (commitUpTo_meets hseen ht).mono ?_
      rintro _ _ u _ ⟨rfl, hu, _⟩
      exact hu
  · exact Ends.same hseen.node

theorem handleSyncReply_meets (hseen : AllSeen G g r) (h : Member G g r s) (m : SyncReplyMessage) :
    Meets G g r (handleSyncReply (G.env r) m) s fun _ g' t => Member G g' r t := by
  have hsame {q a} : Member G g r { s with syncReplyQuorum := q, active := a } :=
    h.same ⟨rfl, rfl, rfl, h.well.committed, rfl, rfl, rfl, rfl⟩
  rw [handleSyncReply]
  simp only [spec_get_bind, spec_ite, spec_pure, spec_assert_bind, spec_modify_bind, spec_whenSome]
  exact ⟨fun _ => Ends.same h, fun _ => ⟨fun _ => Ends.same h, fun _ => ⟨fun _ => ⟨fun _ =>
    ⟨fun _ => ⟨fun msgs _ => ⟨fun _ => Ends.same hsame, fun _ => compareHashes_meets hseen hsame m msgs⟩,
    fun _ => Ends.same hsame⟩, fun _ => Ends.same hseen.node⟩, fun _ => Ends.same hseen.node⟩,
    fun _ => Ends.same hseen.node⟩⟩⟩

theorem handleFillDVCGap_meets {remote : Addr} (hseen : AllSeen G g r) (h : Member G g r s)
    (m : FillDVCGapMessage) :
    Meets G g r (handleFillDVCGap (G.env r) remote m) s fun _ g' t => Member G g' r t := by
  rw [handleFillDVCGap]
  simp only [spec_get_bind, spec_ite, spec_pure, spec_assert_bind, spec_emit]
  refine ⟨fun _ => Ends.same h, fun _ => ⟨fun _ => Ends.sends h ?_, fun _ => Ends.same hseen.node⟩⟩
  cases remote with
  | replica i => exact List.forall_mem_singleton.mpr (h.doViewChange _)
  | client c => simp [Net.packets]

end Dsnet.Spec.Views
