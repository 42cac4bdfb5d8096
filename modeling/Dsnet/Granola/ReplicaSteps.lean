import Dsnet.Granola.LeaderSteps

/-! The handlers of the replicas keep the invariant of the shards: those by which a leader decides a
    transaction, and those of the other replicas. -/

namespace Dsnet.Granola
open Handler Transaction Ghost

variable {σ : Type} {S : Shards σ} {U : Prop} {g g' : History S U} {q i : Nat} {s s' : Server σ}

/-! ### Deciding -/

/-- `CheckVoteQuorum`, before the transaction is decided. -/
theorem checkVotes_spec (hE : S.locking = true) (h : LeaderOk g q s) {e : GranolaLogEntry}
    (hi : s.log[i]? = some e) (hts : e.txnData.tsDecided = false) :
    (leaderGhost S U q).Spec g (checkVotes (S.serverEnv q 0) e) s fun e' g' t =>
      LeaderOk g' q t ∧ t.log[i]? = some e' ∧ (e'.txnData.tsDecided = true → e'.Settled g') := by
  have hno : LeaderOk g q s ∧ s.log[i]? = some e ∧ (e.txnData.tsDecided = true → e.Settled g) :=
    ⟨h, hi, fun hyes => by simp [hts] at hyes⟩
  rw [checkVotes, spec_assert_bind]
  refine ⟨fun _ => ?_, fun _ => .same h.toLeaderSaid⟩
  rw [spec_get_bind]
  split
  · next msgs hq =>
    rw [spec_ite]
    refine ⟨fun hcom => ?_, fun _ => spec_pure.mpr (.same hno)⟩
    refine (decideTxn_spec hE h hi hcom.2 hts hq).mono fun e' g' t _ ht => ?_
    exact ⟨ht.1, ht.2.1, fun _ => ht.2.2⟩
  · exact spec_pure.mpr (.same hno)

/-- `CheckVoteQuorum`, of an entry that is decided only if its fate is settled. -/
theorem checkVoteQuorum_spec (hE : S.locking = true) (h : LeaderOk g q s) {e : GranolaLogEntry}
    (hi : s.log[i]? = some e) (hset : e.txnData.tsDecided = true → e.state = .committed → e.Settled g) :
    (leaderGhost S U q).Spec g (checkVoteQuorum (S.serverEnv q 0) e) s fun _ g' t => LeaderOk g' q t := by
  rw [checkVoteQuorum, spec_when]
  refine ⟨fun _ => ?_, fun _ => .same h⟩
  have hE' : (S.serverEnv q 0).locking = true := hE
  dsimp only
  rw [spec_ite]
  refine ⟨fun hd => ?_, fun hts => ?_⟩
  · rw [spec_pure_bind, spec_when]
    refine ⟨fun _ => ?_, fun hno => absurd hd hno⟩
    rw [spec_modify_bind, if_pos hE']
    refine executeTxn_spec ?_ hi (hset hd)
    exact h.congr rfl
  · refine Ghost.Spec.bind (checkVotes_spec hE h hi (by simpa using hts)) ?_
    rintro e' g' t _ ⟨ht, hti, hset'⟩
    rw [spec_when]
    refine ⟨fun hd => ?_, fun _ => .same ht⟩
    rw [spec_modify_bind, if_pos hE']
    refine executeTxn_spec ?_ hti fun _ => hset' hd
    exact ht.congr rfl

/-- The loop of `CommitUpTo`. -/
theorem commitNext_spec (hE : S.locking = true) (h : LeaderOk g q s)
    (hmem : S.protocol.member (.replica q 0) = true) :
    (leaderGhost S U q).Spec g (commitNext (S.serverEnv q 0)) s fun _ g' t => LeaderOk g' q t := by
  rw [commitNext, spec_modify_bind, spec_get_bind, spec_ofOption_bind]
  refine ⟨fun e he => ?_, fun _ => .same (h.toLeaderSaid.congr rfl rfl rfl h.app)⟩
  have hi : s.log[s.lastCommitted]? = some e := he
  obtain ⟨hstate, -⟩ := (h.entries hi).fresh (lt_irrefl _)
  rw [spec_when]
  refine ⟨fun _ => ?_, fun hno => absurd (by simp [hstate]) hno⟩
  have hop : ({ e with state := .committed } : GranolaLogEntry).opnum = s.lastCommitted + 1 :=
    h.log.opnum_eq (e := e) hi
  have hE' : (S.serverEnv q 0).locking = true := hE
  dsimp only
  rw [store, spec_modify_bind, hop, if_pos hE']
  refine Ghost.Spec.bind (prepareTxn_spec h hmem hi) ?_
  rintro e' g₁ t₁ _ ⟨h₁, hi₁⟩
  refine Ghost.Spec.bind (sendVote_spec h₁ hi₁) ?_
  rintro _ g₂ t₂ _ ⟨h₂, hi₂⟩
  refine checkVoteQuorum_spec hE h₂ hi₂.found fun hd _ => ?_
  -- a transaction on one shard has the fate that this shard has found
  obtain ⟨a, ha, -, -, hops⟩ := h₂.log.ask_of_mem (List.mem_of_getElem? hi₂.found)
  refine ((h₂.entries hi₂.found).voted (by simp [hi₂.state])).settled_of_single ha ?_
  rw [← Ask.length_ops, ← hops]
  exact hi₂.single hd

/-- `CommitUpTo`. -/
theorem commitUpTo_spec (hE : S.locking = true) (h : LeaderOk g q s)
    (hmem : S.protocol.member (.replica q 0) = true) (opnum : Nat) :
    (leaderGhost S U q).Spec g (commitUpTo (S.serverEnv q 0) opnum) s fun _ g' t => LeaderOk g' q t := by
  rw [commitUpTo, spec_get_bind]
  refine Ghost.Spec.bind (J := fun _ g' t => LeaderOk g' q t) ?_ fun _ _ _ _ h₁ => ?_
  · rw [spec_when, spec_emit]
    exact ⟨fun _ => .sends h (sent_to_all fun _ => trivial), fun _ => .same h⟩
  · refine Ghost.Spec.bind (J := fun _ g' t => LeaderOk g' q t) ?_ fun _ _ _ _ h₂ =>
      Ghost.Spec.iterate (fun _ g s => LeaderOk g q s) (fun _ _ _ h => commitNext_spec hE h hmem) h₂
    rw [spec_when, spec_modify]
    exact ⟨fun _ => .same (h₁.congr rfl), fun _ => .same h₁⟩

/-- `HandlePrepareOK`. -/
theorem handlePrepareOK_spec (hE : S.locking = true) (h : LeaderOk g q s)
    (hmem : S.protocol.member (.replica q 0) = true) (view opnum r : Nat) :
    (leaderGhost S U q).Spec g (handlePrepareOK (S.serverEnv q 0) view opnum r) s
      fun _ g' t => LeaderOk g' q t := by
  rw [handlePrepareOK, spec_get_bind, spec_assert_bind]
  refine ⟨fun _ => ?_, fun _ => .same h.toLeaderSaid⟩
  rw [spec_modify_bind, spec_get_bind, spec_whenSome]
  have h' : LeaderOk g q { s with prepareOKQuorum := s.prepareOKQuorum.add (view, opnum) r () } := h.congr rfl
  exact ⟨fun _ _ => commitUpTo_spec hE h' hmem opnum, fun _ => .same h'⟩

/-- A vote that another shard has sent is kept. -/
theorem LeaderOk.addVote (h : LeaderOk g q s) {msg : VoteMessage} (hne : msg.shardNum ≠ q)
    (hv : g.Voted msg.shardNum msg.clientid msg.clientreqid msg.status) :
    LeaderOk g q { s with
      voteQuorum := s.voteQuorum.add (msg.clientid, msg.clientreqid) msg.shardNum 0 msg } := by
  refine h.revote (fun hhas => ?_) (fun hr => Or.inl ?_) (by simpa using h.one)
  · rcases MessageSet.has_add hhas with ⟨hck, rfl, rfl, rfl⟩ | hhas
    · obtain ⟨rfl, rfl⟩ := Prod.mk.inj hck
      exact Or.inr ⟨rfl, hne, hv⟩
    · exact Or.inl hhas
  · rwa [MessageSet.required_add] at hr

/-- `HandleVote`. -/
theorem handleVote_spec (hE : S.locking = true) (h : LeaderOk g q s) {src : Node} {msg : VoteMessage}
    (hm : PacketOk g ⟨src, .replica q 0, .vote msg⟩) :
    (leaderGhost S U q).Spec g (handleVote (S.serverEnv q 0) msg) s fun _ g' t => LeaderOk g' q t := by
  obtain ⟨hne, hv, a, ha, hn⟩ := hm
  rw [handleVote, spec_assert_bind]
  refine ⟨fun _ => ?_, fun _ => .same h.toLeaderSaid⟩
  rw [spec_get_bind, spec_when]
  refine ⟨fun _ => ?_, fun _ => .same h⟩
  split
  · next e he =>
    obtain ⟨j, hj, -⟩ := h.log.of_findRequest he
    rw [spec_when]
    refine ⟨fun hts => ?_, fun _ => .same h⟩
    rw [spec_modify_bind]
    exact checkVoteQuorum_spec hE (h.addVote hne hv) hj fun hd => by simp [hts] at hd
  · -- the request has not come yet
    exact .same ((h.setRequired ha (congrArg (· - 1) hn)).addVote hne hv)

/-- `HandleVoteRequest`. -/
theorem handleVoteRequest_spec (h : LeaderOk g q s) {src : Node} {c k : Nat}
    (hm : PacketOk g ⟨src, .replica q 0, .voteRequest c k⟩) :
    (leaderGhost S U q).Spec g (handleVoteRequest (S.serverEnv q 0) src c k) s
      fun _ g' t => LeaderOk g' q t := by
  obtain ⟨p, j, rfl, hp⟩ := hm
  rw [handleVoteRequest, spec_get_bind, spec_when]
  refine ⟨fun _ => ?_, fun _ => .same h⟩
  rw [spec_whenSome]
  refine ⟨fun e he => ?_, fun _ => .same h⟩
  obtain ⟨i, hi, -⟩ := h.log.of_findRequest he
  rw [spec_when, spec_emit]
  refine ⟨fun hs => .sends h (sent_of fun dst hd => ?_), fun _ => .same h⟩
  rw [List.mem_singleton.mp hd]
  refine h.vote hi ?_ hp j
  rcases hs with hs | hs <;> simp [hs]

/-- `SendVoteRequest`. -/
theorem sendVoteRequest_spec (h : LeaderOk g q s) (opnum : Nat) :
    (leaderGhost S U q).Spec g (sendVoteRequest (S.serverEnv q 0) opnum) s
      fun _ g' t => LeaderOk g' q t := by
  rw [sendVoteRequest, spec_get_bind, spec_ofOption_bind]
  refine ⟨fun e _ => ?_, fun _ => .same h.toLeaderSaid⟩
  rw [spec_whenSome]
  refine ⟨fun votes _ => ?_, fun _ => .same h⟩
  rw [spec_when, spec_emit]
  refine ⟨fun _ => .sends h (sent_to_groups fun p hp j => ⟨q, 0, rfl, ?_⟩), fun _ => .same h⟩
  have hp' := (List.mem_filter.mp (List.mem_filter.mp hp).1).2
  exact fun heq => by simp [heq, Shards.serverEnv] at hp'

/-- A leader is what takes itself for one. -/
theorem LeaderOk.amLeader (h : LeaderOk g q s) : amLeader (S.serverEnv q 0) s = true := by
  simp [Granola.amLeader, Configuration.getLeaderIndex, h.view, Shards.serverEnv]

/-- The leader handles a message. -/
theorem leaderReceive_spec (hE : S.locking = true) (h : LeaderOk g q s)
    (hmem : S.protocol.member (.replica q 0) = true) {src : Node} {m : Message}
    (hm : PacketOk g ⟨src, .replica q 0, m⟩) :
    (leaderGhost S U q).Spec g (serverReceive (S.serverEnv q 0) src m) s fun _ g' t => LeaderOk g' q t := by
  cases m with
  | request txnid indep ro req =>
    obtain ⟨rfl, hasked⟩ := hm
    exact handleClientRequest_spec hE h indep ro hasked
  | prepare view opnum txnid indep ro req ts =>
    rw [serverReceive, handlePrepare, spec_get_bind, spec_assert_bind]
    exact ⟨fun hno => by simp [h.amLeader] at hno, fun _ => .same h.toLeaderSaid⟩
  | prepareOK view opnum r => exact handlePrepareOK_spec hE h hmem view opnum r
  | commit view opnum =>
    rw [serverReceive, handleCommit, spec_get_bind, spec_assert_bind]
    exact ⟨fun hno => by simp [h.amLeader] at hno, fun _ => .same h.toLeaderSaid⟩
  | vote msg => exact handleVote_spec hE h hm
  | voteRequest c k => exact handleVoteRequest_spec h hm
  | finalTimestamp view opnum ts status =>
    rw [serverReceive, handleFinalTimestamp, spec_get_bind, spec_assert_bind]
    exact ⟨fun hno => by simp [h.amLeader] at hno, fun _ => .same h.toLeaderSaid⟩
  | reply m => exact spec_abort.mpr (.same h.toLeaderSaid)

/-! ### The other replicas -/

/-- What another replica does to the ghost: nothing. -/
abbrev followerGhost (S : Shards σ) (U : Prop) (q i : Nat) : Ghost (History S U) (Server σ) Output :=
  (shardsInvariant S U).ghost (.replica q (i + 1))

namespace FollowerOk

theorem congr (h : FollowerOk s) (hview : s'.view = s.view) (hlog : s'.log = s.log)
    (hresend : s'.resendPrepareTimeout = s.resendPrepareTimeout) (hasks : s'.voteTimeouts = s.voteTimeouts) :
    FollowerOk s' :=
  ⟨hview.trans h.view, hlog ▸ h.entries, hresend.trans h.resends, hasks ▸ h.asks⟩

theorem amLeader (h : FollowerOk s) : amLeader (S.serverEnv q (i + 1)) s = false := by
  simp [Granola.amLeader, Configuration.getLeaderIndex, h.view, Shards.serverEnv]

theorem store (h : FollowerOk s) {e : GranolaLogEntry} (he : e.view = 0) :
    FollowerOk { s with log := setEntry s.log e.opnum e } :=
  ⟨h.view, forall_mem_setEntry (p := fun e : GranolaLogEntry => e.view = 0) h.entries he, h.resends, h.asks⟩

theorem append (h : FollowerOk s) {e : GranolaLogEntry} (he : e.view = 0) :
    (followerGhost S U q i).Spec g (append e) s fun _ _ t => FollowerOk t := by
  rw [Granola.append, spec_modify_bind, spec_get_bind, spec_assert_bind, spec_modify]
  refine ⟨fun _ => .same ⟨h.view, fun x hx => ?_, h.resends, h.asks⟩, fun _ => .same trivial⟩
  rcases List.mem_append.mp hx with hx | hx
  · exact h.entries x hx
  · rw [List.mem_singleton.mp hx]
    exact he

/-- Some entries in place of those that were missed. -/
theorem fillLog (h : FollowerOk s) (k : Nat) :
    (followerGhost S U q i).Spec g (iterate k (fillLog 0)) s fun _ _ t => FollowerOk t := by
  refine Ghost.Spec.iterate (fun _ _ s => FollowerOk s) (fun _ g s h => ?_) h
  rw [Granola.fillLog, spec_modify_bind, spec_get_bind]
  refine append ?_ rfl
  exact h.congr rfl rfl rfl rfl

/-- `HandlePrepare`. -/
theorem handlePrepare (hE : S.locking = true) (h : FollowerOk s) (opnum txnid : Nat) (indep ro : Bool)
    (req : SequencedRequest) (timestamp : Nat) :
    (followerGhost S U q i).Spec g
      (handlePrepare (S.serverEnv q (i + 1)) 0 opnum txnid indep ro req timestamp) s
      fun _ _ t => FollowerOk t := by
  rw [Granola.handlePrepare, spec_get_bind, spec_assert_bind]
  refine ⟨fun _ => ?_, fun _ => .same trivial⟩
  have hsent : ∀ (g : History S U) (view : Nat), (followerGhost S U q i).sent g
      ((S.serverEnv q (i + 1)).toLeader view (.prepareOK 0 opnum (i + 1))) := fun g view =>
    sent_of fun dst hd => by
      rw [List.mem_singleton.mp hd]
      trivial
  rw [spec_ite]
  refine ⟨fun _ => .sends h (hsent g _), fun _ => ?_⟩
  refine Ghost.Spec.bind (h.fillLog _) fun _ g₁ t₁ _ h₁ => ?_
  rw [spec_modify_bind, spec_get_bind, spec_insertPending_bind hE]
  have h₁' : FollowerOk { t₁ with lastOp := t₁.lastOp + 1 } := h₁.congr rfl rfl rfl rfl
  refine Ghost.Spec.bind (append h₁' rfl) fun _ g₂ t₂ _ h₂ => ?_
  refine Ghost.Spec.bind (updateClientTable_spec (by exact trivial)) ?_
  rintro _ _ _ _ ⟨rfl, rfl⟩
  rw [spec_emit]
  exact .sends (h₂.congr rfl rfl rfl rfl) (hsent _ _)

/-- `Execute`. -/
theorem execute (h : FollowerOk s) (opnum : Nat) (txn : String) (arg : TxnArg) :
    (followerGhost S U q i).Spec g (execute (S.serverEnv q (i + 1)) opnum txn arg) s
      fun _ _ t => FollowerOk t := by
  rw [Granola.execute, spec_get_bind]
  simp only [spec_modify_bind]
  cases (s.app.execute (S.serverEnv q (i + 1)).app opnum txn arg).1 with
  | none => exact .same trivial
  | some x => exact .same (h.congr rfl rfl rfl rfl)

/-- `ExecuteTxn`: only a leader replies. -/
theorem executeTxn (h : FollowerOk s) {entry : GranolaLogEntry} (hview : entry.view = 0) :
    (followerGhost S U q i).Spec g (executeTxn (S.serverEnv q (i + 1)) entry) s
      fun _ _ t => FollowerOk t := by
  rw [Granola.executeTxn, spec_when]
  refine ⟨fun _ => ?_, fun _ => .same h⟩
  rw [spec_assert_bind]
  refine ⟨fun _ => ?_, fun _ => .same trivial⟩
  refine Ghost.Spec.bind (J := fun _ _ t => FollowerOk t) ?_ fun _ g₁ t₁ _ h₁ => ?_
  · rw [spec_whenSome]
    refine ⟨fun type _ => Ghost.Spec.bind (h.execute ..) fun x g₁ t₁ _ h₁ => ?_, fun _ => .same h⟩
    rw [spec_assert_bind, spec_assert]
    exact ⟨fun _ => ⟨fun _ => .same h₁, fun _ => .same trivial⟩, fun _ => .same trivial⟩
  · have h₂ := h₁.store (e := { entry with state := .executed }) hview
    rw [Granola.store, spec_modify_bind, spec_get_bind, spec_when]
    refine ⟨fun _ => ?_, fun _ => .same h₂⟩
    rw [spec_modify_bind, spec_when]
    refine ⟨fun hl => ?_, fun _ => .same (h₂.congr rfl rfl rfl rfl)⟩
    simp [hview, Configuration.getLeaderIndex, Shards.serverEnv] at hl

/-- `CommitUpTo`: the entry is prepared. -/
theorem prepareTxn (h : FollowerOk s) {entry : GranolaLogEntry} (hview : entry.view = 0) :
    (followerGhost S U q i).Spec g (prepareTxn (S.serverEnv q (i + 1)) entry) s
      fun e _ t => FollowerOk t ∧ e.view = 0 := by
  rw [Granola.prepareTxn]
  refine Ghost.Spec.bind (h.execute ..) ?_
  rintro ⟨result, ret⟩ g₁ t₁ _ h₁
  have h₂ := h₁.store (e := entry.withStatus (prepareStatus ret)) hview
  dsimp only
  rw [Granola.store, spec_modify_bind, spec_get_bind]
  refine Ghost.Spec.bind (J := fun _ _ t => FollowerOk t) ?_ fun _ _ _ _ h₃ =>
    spec_pure.mpr (.same ⟨h₃, hview⟩)
  rw [spec_when, spec_modify]
  exact ⟨fun _ => .same (h₂.congr rfl rfl rfl rfl), fun _ => .same h₂⟩

/-- `CheckVoteQuorum`: only a leader decides. -/
theorem checkVoteQuorum (hE : S.locking = true) (h : FollowerOk s) {entry : GranolaLogEntry}
    (hview : entry.view = 0) :
    (followerGhost S U q i).Spec g (checkVoteQuorum (S.serverEnv q (i + 1)) entry) s
      fun _ _ t => FollowerOk t := by
  have hE' : (S.serverEnv q (i + 1)).locking = true := hE
  have hdone : ∀ {g : History S U} {s : Server σ}, FollowerOk s →
      (followerGhost S U q i).Spec g (Handler.when (entry.txnData.tsDecided = true) do
        modify fun s => { s with voteTimeouts := Function.update s.voteTimeouts entry.opnum false }
        if (S.serverEnv q (i + 1)).locking = true then Granola.executeTxn (S.serverEnv q (i + 1)) entry
        else executeTxns (S.serverEnv q (i + 1))) s fun _ _ t => FollowerOk t := by
    intro g s h
    rw [spec_when]
    refine ⟨fun _ => ?_, fun _ => .same h⟩
    rw [spec_modify_bind, if_pos hE']
    refine executeTxn ?_ hview
    refine ⟨h.view, h.entries, h.resends, fun n => ?_⟩
    by_cases hn : n = entry.opnum
    · simp [hn]
    · simpa [hn] using h.asks n
  rw [Granola.checkVoteQuorum, spec_when]
  refine ⟨fun _ => ?_, fun _ => .same h⟩
  dsimp only
  rw [spec_ite]
  refine ⟨fun _ => ?_, fun _ => ?_⟩
  · rw [spec_pure_bind]
    exact hdone h
  · refine Ghost.Spec.bind (J := fun e _ t => FollowerOk t ∧ e = entry) ?_ ?_
    · rw [checkVotes, spec_assert_bind]
      refine ⟨fun _ => ?_, fun _ => .same trivial⟩
      rw [spec_get_bind]
      split
      · rw [if_neg (by simp [hview, Configuration.getLeaderIndex, Shards.serverEnv])]
        exact spec_pure.mpr (.same ⟨h, rfl⟩)
      · exact spec_pure.mpr (.same ⟨h, rfl⟩)
    · rintro _ _ _ _ ⟨h₁, rfl⟩
      exact hdone h₁

/-- `CommitUpTo`. -/
theorem commitUpTo (hE : S.locking = true) (h : FollowerOk s) (opnum : Nat) :
    (followerGhost S U q i).Spec g (commitUpTo (S.serverEnv q (i + 1)) opnum) s
      fun _ _ t => FollowerOk t := by
  have hE' : (S.serverEnv q (i + 1)).locking = true := hE
  have hnext : ∀ (_ : Nat) g s, FollowerOk s → (followerGhost S U q i).Spec g
      (commitNext (S.serverEnv q (i + 1))) s fun _ _ t => FollowerOk t := by
    intro _ g s h
    rw [commitNext, spec_modify_bind, spec_get_bind, spec_ofOption_bind]
    refine ⟨fun entry hentry => ?_, fun _ => .same trivial⟩
    have hview := h.entries entry (mem_of_findEntry hentry)
    have h₀ : FollowerOk { s with lastCommitted := s.lastCommitted + 1 } := h.congr rfl rfl rfl rfl
    rw [spec_when]
    refine ⟨fun _ => ?_, fun _ => .same h₀⟩
    dsimp only
    rw [Granola.store, spec_modify_bind, if_pos hE']
    refine Ghost.Spec.bind ((h₀.store (e := { entry with state := .committed }) hview).prepareTxn hview) ?_
    rintro e g₁ t₁ _ ⟨h₁, he⟩
    refine Ghost.Spec.bind (J := fun _ _ t => FollowerOk t) ?_ fun _ _ _ _ h₂ => h₂.checkVoteQuorum hE he
    rw [sendVote, spec_get_bind, spec_when]
    exact ⟨fun hl => by simp [h₁.amLeader] at hl, fun _ => .same h₁⟩
  rw [Granola.commitUpTo, spec_get_bind]
  refine Ghost.Spec.bind (J := fun _ _ t => FollowerOk t) ?_ fun _ _ _ _ h₁ => ?_
  · rw [spec_when]
    exact ⟨fun hl => by simp [h.amLeader] at hl, fun _ => .same h⟩
  · refine Ghost.Spec.bind (J := fun _ _ t => FollowerOk t) ?_ fun _ _ _ _ h₂ =>
      Ghost.Spec.iterate (fun _ _ s => FollowerOk s) hnext h₂
    rw [spec_when, spec_modify]
    exact ⟨fun _ => .same ⟨h₁.view, h₁.entries, rfl, h₁.asks⟩, fun _ => .same h₁⟩

/-- `HandleFinalTimestamp`. -/
theorem handleFinalTimestamp (hE : S.locking = true) (h : FollowerOk s) (opnum timestamp : Nat)
    (status : Status) :
    (followerGhost S U q i).Spec g
      (handleFinalTimestamp (S.serverEnv q (i + 1)) 0 opnum timestamp status) s
      fun _ _ t => FollowerOk t := by
  have hE' : (S.serverEnv q (i + 1)).locking = true := hE
  rw [Granola.handleFinalTimestamp, spec_get_bind, spec_assert_bind]
  refine ⟨fun _ => ?_, fun _ => .same trivial⟩
  refine Ghost.Spec.bind (J := fun _ _ t => FollowerOk t) ?_ fun _ g₁ t₁ _ h₁ => ?_
  · rw [spec_when]
    refine ⟨fun _ => Ghost.Spec.bind (h.fillLog _) fun _ _ _ _ h₁ => ?_, fun _ => .same h⟩
    refine Ghost.Spec.bind (h₁.commitUpTo hE _) fun _ _ _ _ h₂ => ?_
    rw [Handler.when, if_neg (by simp [hE'])]
    exact .same h₂
  · rw [spec_get_bind, spec_ofOption_bind]
    refine ⟨fun entry hentry => ?_, fun _ => .same trivial⟩
    have hview := h₁.entries entry (mem_of_findEntry hentry)
    rw [Granola.store, spec_modify_bind]
    refine Ghost.Spec.bind ((h₁.store (e := { entry with txnData := { entry.txnData with
      finalTs := timestamp, tsDecided := true, status := status } }) hview).commitUpTo hE _)
      fun _ g₂ t₂ _ h₂ => ?_
    rw [if_pos hE', spec_get_bind, spec_ofOption_bind]
    exact ⟨fun e he => h₂.executeTxn (h₂.entries e (mem_of_findEntry he)), fun _ => .same trivial⟩

/-- Another replica handles a message. -/
theorem receive (hE : S.locking = true) (h : FollowerOk s) {src : Node} {m : Message}
    (hm : PacketOk g ⟨src, .replica q (i + 1), m⟩) :
    (followerGhost S U q i).Spec g (serverReceive (S.serverEnv q (i + 1)) src m) s
      fun _ _ t => FollowerOk t := by
  cases m with
  | request txnid indep ro req =>
    rw [serverReceive, handleClientRequest, spec_modify_bind, spec_get_bind, spec_when]
    have h' : ∀ addresses, FollowerOk { s with clientAddresses := addresses } := fun _ =>
      h.congr rfl rfl rfl rfl
    exact ⟨fun hl => by simp [(h' _).amLeader] at hl, fun _ => .same (h' _)⟩
  | prepare view opnum txnid indep ro req ts =>
    obtain rfl : view = 0 := hm
    exact h.handlePrepare hE opnum txnid indep ro req ts
  | prepareOK view opnum r =>
    rw [serverReceive, handlePrepareOK, spec_get_bind, spec_assert_bind]
    exact ⟨fun hl => by simp [h.amLeader] at hl, fun _ => .same trivial⟩
  | commit view opnum =>
    rw [serverReceive, handleCommit, spec_get_bind, spec_assert_bind, spec_when]
    exact ⟨fun _ => ⟨fun _ => h.commitUpTo hE opnum, fun _ => .same h⟩, fun _ => .same trivial⟩
  | vote msg =>
    rw [serverReceive, handleVote, spec_assert_bind, spec_get_bind, spec_when]
    exact ⟨fun _ => ⟨fun hl => by simp [h.amLeader] at hl, fun _ => .same h⟩, fun _ => .same trivial⟩
  | voteRequest c k =>
    rw [serverReceive, handleVoteRequest, spec_get_bind, spec_when]
    exact ⟨fun hl => by simp [h.amLeader] at hl, fun _ => .same h⟩
  | finalTimestamp view opnum ts status =>
    obtain rfl : view = 0 := hm
    exact h.handleFinalTimestamp hE opnum ts status
  | reply m => exact spec_abort.mpr (.same trivial)

end FollowerOk

end Dsnet.Granola
