import Dsnet.PBFT.Once

/-! The votes that a PBFT replica counts, in view 0. A Prepare and a Commit of another replica may come before
    the Preprepare of their batch, and so may `2f` of them: there are `3f - 1` other backups. A replica that has
    a quorum for a batch which it has not logged stops. -/

namespace Dsnet.PBFT
open Handler

variable {E : Env} {s s' : Replica}

/-! ### Votes -/

/-- What is voted for: a batch, to be prepared or to be committed. -/
structure Ballot where
  commit : Bool
  opNumber : Nat
  digest : String
  deriving DecidableEq, Repr

/-- The Prepares that are counted for a batch. -/
def Prepare.ballot (m : Prepare) : Ballot := ⟨false, m.opNumber, m.digest⟩

/-- The Commits that are counted for a batch. -/
def Commit.ballot (m : Commit) : Ballot := ⟨true, m.opNumber, m.digest⟩

/-- The vote that a message brings, and whose it is. A Preprepare has a Prepare of the primary. -/
def Message.vote : Message → Option (Ballot × Nat)
  | .request _ => none
  | .preprepare m _ => some (m.ballot, m.replicaId)
  | .prepare m => some (m.ballot, m.replicaId)
  | .commit m => some (m.ballot, m.replicaId)

/-- The replicas whose votes have been counted. -/
def Replica.voters (s : Replica) (b : Ballot) : Finset Nat :=
  if b.commit then (s.commitQuorum b.opNumber b.digest).keys else (s.prepareQuorum b.opNumber b.digest).keys

/-- Every quorum is for a batch in the log. In `InsertPrepare` and `HandleCommit` the process ends when it is not. -/
def Replica.QuorumsLogged (f : Nat) (s : Replica) : Prop :=
  ∀ b, 2 * f ≤ (s.voters b).card → b.opNumber ≤ s.log.lastOpnum

/-! ### What is counted -/

/-- The log grows, and no vote is counted but this one. -/
structure Counts (v : Option (Ballot × Nat)) (s s' : Replica) (_ : List Output) : Prop where
  log : s.log.entries.length ≤ s'.log.entries.length
  voters : ∀ b, ∀ j ∈ s'.voters b, j ∈ s.voters b ∨ v = some (b, j)

instance (v : Option (Ballot × Nat)) : Composes (Counts v) where
  refl _ := ⟨le_rfl, fun _ _ h => Or.inl h⟩
  trans h h' := ⟨h.log.trans h'.log, fun b j hj => (h'.voters b j hj).elim (h.voters b j) Or.inr⟩

variable {v : Option (Ballot × Nat)}

/-- An update that counts no vote. -/
theorem counts_modify {f : Replica → Replica} (hlog : ∀ s, (f s).log = s.log)
    (hprepare : ∀ s, (f s).prepareQuorum = s.prepareQuorum) (hcommit : ∀ s, (f s).commitQuorum = s.commitQuorum) :
    Always (Counts v) (modify f : RHandler Unit) :=
  always_modify fun s => ⟨(hlog s).symm ▸ le_rfl, fun b j hj => Or.inl (by
    rwa [Replica.voters, hprepare, hcommit] at hj)⟩

theorem counts_emit (x : Output) : Always (Counts v) (emit x : RHandler Unit) :=
  always_emit fun _ => ⟨le_rfl, fun _ _ h => Or.inl h⟩

theorem counts_log (s : Replica) (log : Log) (h : s.log.entries.length ≤ log.entries.length) :
    Counts v s { s with log := log } [] := ⟨h, fun _ _ h => Or.inl h⟩

theorem counts_storeRequests (k : Nat) (reqs : List Request) : Always (Counts v) (storeRequests E k reqs) :=
  always_storeRequests counts_log (fun _ _ => ⟨le_rfl, fun _ _ h => Or.inl h⟩) k reqs

/-- One more vote in one of the quorums. -/
theorem mem_keys_setQuorum {β : Type} {quorum : Nat → String → StdMap Nat β} {k k' : Nat} {d d' : String}
    {i j : Nat} {m : β} (h : j ∈ (setQuorum quorum k d ((quorum k d).insert i m) k' d').keys) :
    j ∈ (quorum k' d').keys ∨ (k = k' ∧ d = d') ∧ i = j := by
  by_cases hb : k = k' ∧ d = d'
  · obtain ⟨rfl, rfl⟩ := hb
    obtain ⟨m', hm'⟩ := StdMap.mem_keys.mp h
    rw [setQuorum, Function.update_self, Function.update_self] at hm'
    rcases StdMap.mem_insert hm' with heq | hm'
    · exact Or.inr ⟨⟨rfl, rfl⟩, (Prod.mk.inj heq).1.symm⟩
    · exact Or.inl (StdMap.mem_keys.mpr ⟨m', hm'⟩)
  · have hsame : setQuorum quorum k d ((quorum k d).insert i m) k' d' = quorum k' d' := by
      by_cases hk : k' = k
      · subst hk
        rw [setQuorum, Function.update_self, Function.update_of_ne fun hd => hb ⟨rfl, hd.symm⟩]
      · rw [setQuorum, Function.update_of_ne hk]
    rw [hsame] at h
    exact Or.inl h

/-- A Prepare is counted. -/
theorem counts_prepare (s : Replica) (m : Prepare) : Counts (some (m.ballot, m.replicaId)) s
    { s with prepareQuorum := setQuorum s.prepareQuorum m.opNumber m.digest (s.prepares m) } [] := by
  refine ⟨le_rfl, fun b j hj => ?_⟩
  cases hb : b.commit with
  | true =>
    rw [Replica.voters, if_pos hb] at hj ⊢
    exact Or.inl hj
  | false =>
    rw [Replica.voters, hb, if_neg Bool.false_ne_true] at hj ⊢
    refine (mem_keys_setQuorum hj).imp_right ?_
    rintro ⟨⟨hk, hd⟩, rfl⟩
    obtain ⟨_, _, _⟩ := b
    cases hb
    cases hk
    cases hd
    rfl

/-- A Commit is counted. -/
theorem counts_commit (s : Replica) (m : Commit) : Counts (some (m.ballot, m.replicaId)) s
    { s with commitQuorum := setQuorum s.commitQuorum m.opNumber m.digest (s.commits m) } [] := by
  refine ⟨le_rfl, fun b j hj => ?_⟩
  cases hb : b.commit with
  | false =>
    rw [Replica.voters, hb, if_neg Bool.false_ne_true] at hj ⊢
    exact Or.inl hj
  | true =>
    rw [Replica.voters, if_pos hb] at hj ⊢
    refine (mem_keys_setQuorum hj).imp_right ?_
    rintro ⟨⟨hk, hd⟩, rfl⟩
    obtain ⟨_, _, _⟩ := b
    cases hb
    cases hk
    cases hd
    rfl

theorem counts_insertPrepare (m : Prepare) : Always (Counts (some (m.ballot, m.replicaId))) (insertPrepare E m) :=
  .bind always_get fun _ => .bind (always_modify fun s => counts_prepare s m) fun _ =>
    .ite always_pure <| .ite always_abort <| .bind always_ofOption fun _ =>
      .bind (always_modify fun s => counts_log s _ (Log.length_entries_setStatus ..).ge) fun _ => counts_emit _

theorem counts_handlePreprepare (m : Prepare) (reqs : List Request) :
    Always (Counts (some (m.ballot, m.replicaId))) (handlePreprepare E m reqs) :=
  .bind always_get fun _ => .ite always_pure <| .ite always_abort <| .ite always_abort <| .ite always_pure <|
    .bind (counts_storeRequests _ _) fun _ => .bind (counts_insertPrepare m) fun _ =>
      .bind always_get fun _ => .when (counts_emit _)

theorem counts_handlePrepare (m : Prepare) : Always (Counts (some (m.ballot, m.replicaId))) (handlePrepare E m) :=
  .bind always_get fun _ => .ite always_pure <| .ite always_abort <| .ite
    (.bind always_ofOption fun _ => .ite always_pure (counts_insertPrepare m)) (counts_insertPrepare m)

theorem counts_executeLoop : ∀ n, Always (Counts v) (executeLoop E n)
  | 0 => always_pure
  | n + 1 => by
      refine .bind always_get fun _ => .whenSome fun e => .when (.bind ?_ fun _ => counts_executeLoop n)
      exact .bind (counts_modify (fun _ => rfl) (fun _ => rfl) fun _ => rfl) fun _ => .bind always_get fun _ =>
        .bind (counts_modify (fun _ => rfl) (fun _ => rfl) fun _ => rfl) fun _ => .bind always_ofOption fun _ =>
          .bind (counts_modify (fun _ => rfl) (fun _ => rfl) fun _ => rfl) fun _ => counts_emit _

theorem counts_handleCommit (m : Commit) : Always (Counts (some (m.ballot, m.replicaId))) (handleCommit E m) := by
  have hinsert : Always (Counts (some (m.ballot, m.replicaId))) (insertCommit E m) :=
    .bind always_get fun _ => .bind (always_modify fun s => counts_commit s m) fun _ =>
      .ite always_pure <| .ite always_abort <| .bind (always_commitBatch counts_log _ _) fun _ => counts_executeLoop _
  exact .bind always_get fun _ => .ite always_pure <| .ite always_abort <| .ite
    (.bind always_ofOption fun _ => .ite always_pure hinsert) hinsert

theorem counts_closeBatch : Always (Counts v) (closeBatch E) :=
  .bind (counts_modify (fun _ => rfl) (fun _ => rfl) fun _ => rfl) fun _ => .bind always_get fun _ =>
    .bind always_assert fun _ => .bind (counts_emit _) fun _ =>
      counts_modify (fun _ => rfl) (fun _ => rfl) fun _ => rfl

theorem counts_handleNewRequest (req : Request) (entry : ClientEntry) :
    Always (Counts v) (handleNewRequest E req entry) := by
  refine .bind always_get fun _ => .ite (.when (counts_emit _)) ?_
  exact .bind (counts_modify (fun _ => rfl) (fun _ => rfl) fun _ => rfl) fun _ => .bind always_get fun _ =>
    .bind (always_append counts_log _ _) fun _ =>
      .bind (counts_modify (fun _ => rfl) (fun _ => rfl) fun _ => rfl) fun _ =>
        .bind (counts_modify (fun _ => rfl) (fun _ => rfl) fun _ => rfl) fun _ => .bind always_get fun _ =>
          .when counts_closeBatch

theorem counts_handleRequest (remote : Addr) (req : Request) : Always (Counts v) (handleRequest E remote req) := by
  refine .bind always_get fun s => ?_
  cases s.standing req with
  | late => exact always_pure
  | again entry => exact .whenSome fun _ => counts_emit _
  | next entry => exact counts_handleNewRequest req entry
  | unknown =>
    exact .ite always_abort (.bind (counts_modify (fun _ => rfl) (fun _ => rfl) fun _ => rfl) fun _ =>
      counts_handleNewRequest req _)

theorem counts_receiveMessage (remote : Addr) : ∀ m : Message, Always (Counts m.vote) (receiveMessage E remote m)
  | .request req => counts_handleRequest remote req
  | .preprepare m _ => .ite always_abort (counts_handlePreprepare m _)
  | .prepare m => counts_handlePrepare m
  | .commit m => counts_handleCommit m

/-! ### Preprepares -/

/-- The batch of a Preprepare comes next in the log. -/
def Message.isNext (s : Replica) : Message → Prop
  | .preprepare m _ => m.opNumber = s.log.lastOpnum + 1 ∧ 0 < m.batchSize
  | _ => False

theorem Counts.lastOpnum {o : List Output} (h : Counts v s s' o) : s.log.lastOpnum ≤ s'.log.lastOpnum := by
  rw [Log.lastOpnum_eq, Log.lastOpnum_eq]
  exact h.log

theorem storeRequests_next {k : Nat} {reqs : List Request} (hnext : k = s.log.lastOpnum + 1) (hreqs : reqs ≠ []) :
    Sat (storeRequests E k reqs) s (fun _ s' _ => k ≤ s'.log.lastOpnum) fun _ _ => True := by
  obtain ⟨req, rest, rfl⟩ := List.exists_cons_of_ne_nil hreqs
  simp only [storeRequests, appendBatch, sat_bind, sat_get, sat_ite]
  refine ⟨fun h => (h hnext).elim, fun _ => (append_spec k req s).mono (fun _ s₁ _ h₁ => ?_) fun _ _ _ => trivial⟩
  have hlast : k ≤ s₁.log.lastOpnum := by
    rw [Log.lastOpnum_eq, ← Log.length_contents, h₁.contents, List.length_append, Log.length_contents, h₁.opNumber]
    exact le_rfl
  refine ((always_appendBatch (R := Counts none) counts_log rest (k + 1)) s₁).mono (fun _ s₂ _ h₂ => ?_)
    fun _ _ _ => trivial
  refine ((always_appendBuffered (R := Counts none) counts_log (fun _ _ => ⟨le_rfl, fun _ _ h => Or.inl h⟩) _) s₂).mono
    (fun _ s₃ _ h₃ => ?_) fun _ _ _ => trivial
  exact hlast.trans (h₂.lastOpnum.trans h₃.lastOpnum)

/-- A Preprepare that comes next is logged before its vote is counted. -/
theorem handlePreprepare_logs {m : Prepare} {reqs : List Request} (hnext : m.opNumber = s.log.lastOpnum + 1)
    (hreqs : reqs ≠ []) :
    Sat (handlePreprepare E m reqs) s (fun _ s' _ => (∀ b, s'.voters b ⊆ s.voters b) ∨ m.opNumber ≤ s'.log.lastOpnum)
      fun s' _ => (∀ b, s'.voters b ⊆ s.voters b) ∨ m.opNumber ≤ s'.log.lastOpnum := by
  have hstay : (∀ b, s.voters b ⊆ s.voters b) ∨ m.opNumber ≤ s.log.lastOpnum := Or.inl fun _ => Finset.Subset.refl _
  simp only [handlePreprepare, sat_bind, sat_get, sat_ite, sat_pure, sat_abort, sat_when, sat_emit]
  refine ⟨fun _ => hstay, fun _ => ⟨fun _ => hstay, fun _ => ⟨fun _ => hstay, fun _ => ⟨fun _ => hstay, fun _ => ?_⟩⟩⟩⟩
  refine ((storeRequests_next hnext hreqs).and (counts_storeRequests (v := none) m.opNumber reqs s)).mono
    (fun _ s₁ _ h₁ => ?_) fun s' _ h' => Or.inl fun b j hj => (h'.2.voters b j hj).resolve_right fun h => by cases h
  refine (counts_insertPrepare m s₁).mono (fun _ s₂ _ h₂ => ?_) fun s' _ h' => Or.inr (h₁.1.trans h'.lastOpnum)
  exact ⟨fun _ => Or.inr (h₁.1.trans h₂.lastOpnum), fun _ => Or.inr (h₁.1.trans h₂.lastOpnum)⟩

/-! ### Runs -/

variable {G : Group}

/-- The vote of this replica has been brought to replica `r`. -/
def Voted (G : Group) (x : Sys × List Event) (r : Nat) (b : Ballot) (j : Nat) : Prop :=
  ∃ m, Net.Arrived G.protocol x r m ∧ m.vote = some (b, j)

/-- A vote comes to a replica when its log has the batch, or in the Preprepare that comes next there, or else is
    one of fewer than `2f` votes that have been brought for the batch. -/
def FewAhead (G : Group) (x : Sys × List Event) (e : Event) : Prop :=
  ∀ r m b i, Net.Brings G.protocol x.1 r m e → m.vote = some (b, i) →
    b.opNumber ≤ (x.1.replica r).log.lastOpnum ∨ m.isNext (x.1.replica r) ∨
      ∀ Q : Finset Nat, (∀ j ∈ Q, j = i ∨ Voted G x r b j) → Q.card < 2 * G.config.f

/-- Only votes that have been brought are counted, and the quorums are for batches in the log. -/
structure Counted (G : Group) (x : Sys × List Event) : Prop where
  voted : ∀ r b, ∀ j ∈ (x.1.replica r).voters b, Voted G x r b j
  logged : ∀ r, (x.1.replica r).QuorumsLogged G.config.f

/-- A message that comes in order leaves the quorums those of batches in the log. -/
theorem receiveMessage_logged {f : Nat} {a : Addr} {m : Message} (h : s.QuorumsLogged f)
    (hm : ∀ b i, m.vote = some (b, i) → b.opNumber ≤ s.log.lastOpnum ∨ m.isNext s ∨
      (insert i (s.voters b)).card < 2 * f) : (receiveMessage E a m s).2.1.QuorumsLogged f := by
  have hcounts := (counts_receiveMessage (E := E) a m).outcome s
  intro b hb
  by_cases hsub : (receiveMessage E a m s).2.1.voters b ⊆ s.voters b
  · exact (h b (hb.trans (Finset.card_le_card hsub))).trans hcounts.lastOpnum
  obtain ⟨i, hi, hno⟩ := Finset.not_subset.mp hsub
  have hvote : m.vote = some (b, i) := (hcounts.voters b i hi).resolve_left hno
  rcases hm b i hvote with hle | hnext | hfew
  · exact hle.trans hcounts.lastOpnum
  · cases m with
    | preprepare p reqs =>
      obtain ⟨hop, hpos⟩ := hnext
      have hlogs : Sat (receiveMessage E a (.preprepare p reqs)) s
          (fun _ s' _ => (∀ b, s'.voters b ⊆ s.voters b) ∨ p.opNumber ≤ s'.log.lastOpnum)
          fun s' _ => (∀ b, s'.voters b ⊆ s.voters b) ∨ p.opNumber ≤ s'.log.lastOpnum := by
        refine sat_ite.mpr ⟨fun _ => Or.inl fun _ => Finset.Subset.refl _, fun hlen => handlePreprepare_logs hop ?_⟩
        exact List.ne_nil_of_length_pos (by rw [List.length_take]; omega)
      rcases state_of_sat (I := fun s' : Replica => (∀ b, s'.voters b ⊆ s.voters b) ∨ p.opNumber ≤ s'.log.lastOpnum)
        hlogs with hsame | hle
      · exact (hsub (hsame b)).elim
      · cases hvote
        exact hle
    | request | prepare | commit => exact hnext.elim
  · have hcard := Finset.card_le_card (s := (receiveMessage E a m s).2.1.voters b) (t := insert i (s.voters b))
      fun j hj => Finset.mem_insert.mpr ((hcounts.voters b j hj).symm.imp_left fun hj => by
        rw [hvote] at hj
        cases hj
        rfl)
    omega

theorem Counted.next {C : Sys × List Event → Event → Prop} {past : List (Sys × List Event)}
    {x y : Sys × List Event} {e : Event} (h : Counted G x) (hr : Run G.system.recorded C past x)
    (hc : FewAhead G x e) (hst : G.system.recorded.step x e = some y) : Counted G y := by
  obtain ⟨r, m, hm, -, -, hafter⟩ := Net.Sys.step_eq_some (System.recorded_step_eq_some.mp hst).1
  have hself : y.1.replica r = (m (x.1.replica r)).2.1 := by simp [hafter, Net.Sys.after]
  have hother : ∀ i, i ≠ r → y.1.replica i = x.1.replica i := fun i hi => by simp [hafter, Net.Sys.after, hi]
  have hvoted {i j : Nat} {b : Ballot} (hv : Voted G x i b j) : Voted G y i b j := by
    obtain ⟨msg, ha, hv⟩ := hv
    exact ⟨msg, (Net.arrived_iff hr hst).mpr (Or.inr ha), hv⟩
  have hstep : (∀ b, ∀ j ∈ (y.1.replica r).voters b, Voted G y r b j) ∧ (y.1.replica r).QuorumsLogged G.config.f := by
    rw [hself]
    rcases Net.brings_of_handler hm with ⟨a, msg, rfl, hb⟩ | ⟨_, -, rfl, -⟩
    · have hbrings : Net.Brings G.protocol x.1 r msg e := (hb r msg).mpr ⟨rfl, rfl⟩
      refine ⟨fun b j hj => ?_, receiveMessage_logged (h.logged r) fun b i hv => ?_⟩
      · rcases ((counts_receiveMessage a msg).outcome _).voters b j hj with hj | hv
        · exact hvoted (h.voted r b j hj)
        · exact ⟨msg, (Net.arrived_iff hr hst).mpr (Or.inl hbrings), hv⟩
      · refine (hc r msg b i hbrings hv).imp_right (Or.imp_right fun hfew => hfew _ fun j hj => ?_)
        exact (Finset.mem_insert.mp hj).imp_right (h.voted r b j)
    · have hcounts := (counts_closeBatch (v := none) (E := G.env r)).outcome (x.1.replica r)
      have hsub : ∀ b, (closeBatch (G.env r) (x.1.replica r)).2.1.voters b ⊆ (x.1.replica r).voters b :=
        fun b j hj => (hcounts.voters b j hj).resolve_right fun h => by cases h
      exact ⟨fun b j hj => hvoted (h.voted r b j (hsub b hj)),
        fun b hb => (h.logged r b (hb.trans (Finset.card_le_card (hsub b)))).trans hcounts.lastOpnum⟩
  refine ⟨fun i b j hj => ?_, fun i => ?_⟩
  · by_cases hi : i = r
    · subst hi
      exact hstep.1 b j hj
    · rw [hother i hi] at hj
      exact hvoted (h.voted i b j hj)
  · by_cases hi : i = r
    · subst hi
      exact hstep.2
    · rw [hother i hi]
      exact h.logged i

theorem voters_initial (b : Ballot) : Replica.initial.voters b = ∅ := by
  cases hc : b.commit with
  | true => rw [Replica.voters, if_pos hc]; rfl
  | false => rw [Replica.voters, hc]; rfl

/-- In every run in which the votes come in order, every quorum is for a batch in the log. -/
theorem quorumsLogged_of_run (hf : 1 ≤ G.config.f) {past : List (Sys × List Event)} {x : Sys × List Event}
    (hr : Run G.system.recorded (FewAhead G) past x) (r : Nat) : (x.1.replica r).QuorumsLogged G.config.f := by
  suffices h : Counted G x from h.logged r
  have hinit : ∀ r b, (G.system.recorded.init.1.replica r).voters b = ∅ := fun _ => voters_initial
  refine hr.invariant (I := fun _ x => Counted G x) ⟨fun r b j hj => ?_, fun r b hb => ?_⟩
    fun _ _ _ _ hr h hc hst => h.next hr hc hst
  · rw [hinit] at hj
    exact absurd hj (Finset.notMem_empty j)
  · rw [hinit, Finset.card_empty] at hb
    omega

end Dsnet.PBFT
