import Dsnet.Spec.OneView

/-! What committing by synchronization guarantees in Speculative Paxos, over all runs in which nobody
    enters another view: the leader commits what a fast quorum has, and the committed prefixes of any two
    replicas agree. A hash stands for the whole prefix as long as no two of the inputs that were hashed
    for the logs collide (`NoneCollide`). -/

namespace Dsnet.Spec
open Handler

/-- Nobody learns of the logs that a later view starts with: the event delivers no DoViewChange
    message. -/
def InOneView (s : Sys) : Event → Prop
  | .deliver i =>
    match s.net[i]? with
    | some ⟨_, _, .doViewChange _⟩ => False
    | _ => True
  | _ => True

instance (s : Sys) : ∀ e, Decidable (InOneView s e)
  | .client .. => inferInstanceAs (Decidable True)
  | .timeout .. => inferInstanceAs (Decidable True)
  | .deliver i =>
    match h : s.net[i]? with
    | some ⟨_, _, .doViewChange _⟩ => .isFalse (by simp [InOneView, h])
    | some ⟨_, _, .request _⟩ | some ⟨_, _, .unloggedRequest _⟩ | some ⟨_, _, .sync _⟩
    | some ⟨_, _, .syncReply _⟩ | some ⟨_, _, .requestViewChange _⟩
    | some ⟨_, _, .startViewChange _⟩ | some ⟨_, _, .startView _⟩ | some ⟨_, _, .inView _⟩
    | some ⟨_, _, .fillLogGap _⟩ | some ⟨_, _, .fillDVCGap _⟩ | none =>
      .isTrue (by simp only [InOneView, h])

/-- No two of the inputs that were hashed for the replicas' logs collide. -/
def NoneCollide (G : Group) (s : Sys) : Prop :=
  ∀ r < G.config.n, ∀ r' < G.config.n, NoCollision (nextHash G.sha1) hashKey emptyHash
    (stamps (s.replica r).log) (stamps (s.replica r').log)

/-- The requests that a replica has committed. -/
def committedPrefix (s : Replica) : List Request :=
  (s.log.entries.map LogEntry.request).take s.lastCommitted

theorem committedPrefix_eq (s : Replica) :
    committedPrefix s = ((stamps s.log).take s.lastCommitted).map Prod.fst := by
  rw [committedPrefix, stamps, ← List.map_take, ← List.map_take, List.map_map]
  rfl

/-- The hash of the log entry at opnum `k`. -/
def logHash (s : Replica) (k : Nat) : Option String := (s.log.find k).map LogEntry.hash

variable {G : Group} {past : List Sys} {s : Sys}

namespace OneView

/-- A step keeps the invariant. -/
theorem invariant_step {g : Snapshot} {s' : Sys} {e : Event} (hG : G.config.Valid)
    (h : (invariant G).Holds G.config.n g s) (hview : InOneView s e)
    (hstep : s.step G.protocol e = some s') : ∃ g', (invariant G).Holds G.config.n g' s' := by
  obtain ⟨r, m, hm, hr, hlive, rfl⟩ := Net.Sys.step_eq_some hstep
  have hmem : Member G g r (s.replica r) := h.running r hr hlive
  suffices hspec : Meets G g r m (s.replica r) fun _ g' t => Member G g' r t by
    obtain ⟨g', _, h'⟩ := Net.GhostInvariant.step h hspec
    exact ⟨g', h'⟩
  rcases Net.Event.of_handler hm with ⟨c, q, rfl, rfl⟩ | ⟨i, p, rfl, hp, hdst, rfl⟩ |
    ⟨t, rfl, _, rfl⟩
  · cases q with
    | request i => exact hmem.tame hr (handleRequest_tame hmem.well ⟨c, i, rfl⟩)
    | unlogged op => exact hmem.tame hr (handleUnloggedRequest_tame hmem.well)
    | viewChange view => exact handleRequestViewChange_meets hmem view
  · refine receiveMessage_meets hG hr hmem hdst (h.packet p (List.mem_of_getElem? hp)) fun m hmsg => ?_
    obtain ⟨src, dst, msg⟩ := p
    obtain rfl : msg = .doViewChange m := hmsg
    simp only [InOneView, hp] at hview
  · exact timeout_meets hr hmem t

/-- The group as it is constructed. -/
theorem invariant_initial (G : Group) :
    (invariant G).Holds G.config.n ⟨fun _ => [], 0⟩ (Net.Sys.initial G.protocol) := by
  refine ⟨fun r _ _ => ?_, fun r _ h => (by cases h), fun p hp => (by cases hp)⟩
  exact
    { log := rfl
      sound := sound_nil ..
      agrees := fun h => absurd rfl h
      committed_le := Nat.le_refl _
      leader := fun _ => rfl
      fast := fun _ h => absurd rfl h
      well :=
        { full := rfl
          committed := Nat.le_refl _
          sound := sound_nil ..
          pending := fun x hx => by cases hx }
      view := fun _ => rfl
      pendingSync := fun _ => rfl
      required := rfl
      replies := fun _ k x hx => by cases hx
      few := fun _ _ _ _ => Nat.zero_le _ }

theorem invariant_run (hG : G.config.Valid) (h : Run (system G) InOneView past s) :
    ∃ g, (invariant G).Holds G.config.n g s :=
  h.invariant (I := fun _ s => ∃ g, (invariant G).Holds G.config.n g s)
    ⟨_, invariant_initial G⟩
    fun _ _ _ _ _ ⟨_, hg⟩ hview hstep => invariant_step hG hg hview hstep

/-- What holds of every replica. -/
theorem node_of_holds {g : Snapshot} {r : Nat} (h : (invariant G).Holds G.config.n g s)
    (hr : r < G.config.n) : Node G g r (s.replica r) := by
  cases hs : s.stopped r with
  | false => exact (h.running r hr hs).toNode
  | true => exact h.halted r hr hs

/-- What a replica has committed is what the leader has. -/
theorem committed_agree {g : Snapshot} {r : Nat} (h : (invariant G).Holds G.config.n g s)
    (hfree : NoneCollide G s) (hr : r < G.config.n) :
    (s.replica r).lastCommitted ≤ (g.logs 0).length ∧
      (stamps (s.replica r).log).take (s.replica r).lastCommitted =
        (g.logs 0).take (s.replica r).lastCommitted := by
  have hnode := node_of_holds h hr
  have hnode0 := node_of_holds h (Nat.zero_lt_of_lt hr)
  rcases Nat.eq_zero_or_pos (s.replica r).lastCommitted with hc | hc
  · simp [hc]
  · obtain ⟨hash, hown, hlead⟩ := hnode.agrees (by omega)
    have hcol := hfree r hr 0 (Nat.zero_lt_of_lt hr)
    rw [hnode.log, hnode0.log] at hcol
    refine ⟨(hashAt_le hlead).2, ?_⟩
    rw [hnode.log]
    exact hnode.sound.agree hnode0.sound hcol (fun _ _ hp hp' hkey => hp.eq_of_key hp' hkey) hown hlead

end OneView

/-- What the leader has committed has the same hash at a fast quorum, the leader among it. When no
    hashed inputs collide, the committed prefixes of any two replicas agree, and a replica with another
    hash than the leader's at a committed opnum has not committed it. -/
theorem sync_commits_agree (hG : G.config.Valid) (h : Run (system G) InOneView past s) :
    ((s.replica 0).lastCommitted ≠ 0 → ∃ hash Q,
      IsQuorum G.config.n G.config.fastQuorumSize Q ∧ 0 ∈ Q ∧
        ∀ q ∈ Q, logHash (s.replica q) (s.replica 0).lastCommitted = some hash) ∧
    (NoneCollide G s →
      (∀ r < G.config.n, (committedPrefix (s.replica r)).length = (s.replica r).lastCommitted ∧
        ∀ r' < G.config.n, committedPrefix (s.replica r) <+: committedPrefix (s.replica r') ∨
          committedPrefix (s.replica r') <+: committedPrefix (s.replica r)) ∧
      ∀ r < G.config.n, ∀ k, logHash (s.replica r) k ≠ logHash (s.replica 0) k →
        (s.replica r).lastCommitted < k) := by
  obtain ⟨g, hg⟩ := OneView.invariant_run hG h
  have hnode := fun r hr => OneView.node_of_holds (r := r) hg hr
  have h0 : 0 < G.config.n := by
    have : G.config.n = 2 * G.config.f + 1 := hG
    omega
  have hhash : ∀ r < G.config.n, ∀ k, logHash (s.replica r) k = hashAt (g.logs r) k := by
    intro r hr k
    rw [logHash, find_eq_hashAt, (hnode r hr).log]
  refine ⟨fun hc => ?_, fun hfree => ⟨?_, ?_⟩⟩
  · obtain ⟨hash, Q, hQ, hmem, hall⟩ := (hnode 0 h0).fast rfl hc
    exact ⟨hash, Q, hQ, hmem, fun q hq => (hhash q (hQ.lt q hq) _).trans (hall q hq)⟩
  · have hpre : ∀ r < G.config.n, committedPrefix (s.replica r) =
        ((g.logs 0).map Prod.fst).take (s.replica r).lastCommitted := by
      intro r hr
      rw [committedPrefix_eq, (OneView.committed_agree hg hfree hr).2, List.map_take]
    intro r hr
    refine ⟨?_, fun r' hr' => ?_⟩
    · rw [hpre r hr, List.length_take, List.length_map]
      exact min_eq_left (OneView.committed_agree hg hfree hr).1
    · rw [hpre r hr, hpre r' hr']
      rcases Nat.le_total (s.replica r).lastCommitted (s.replica r').lastCommitted with hle | hle
      · exact Or.inl (List.take_prefix_take_left hle)
      · exact Or.inr (List.take_prefix_take_left hle)
  · intro r hr k hne
    by_contra hle
    refine hne ?_
    have hk : k ≤ (s.replica r).lastCommitted := not_lt.mp hle
    have hsame := (OneView.committed_agree hg hfree hr).2
    rw [(hnode r hr).log] at hsame
    rw [hhash r hr, hhash 0 h0, ← hashAt_take hk, hsame, hashAt_take hk]

/-! A group of three. A client's request reaches all of them, the leader commits it after a round of
    synchronization, and in the next round replica 1 does. -/

def oneClient : Group :=
  { config := { n := 3, f := 1 }, app := fun _ => App.default, op := fun _ _ => "a"
    sha1 := fun _ _ _ => digest }

def syncEvents : List Event :=
  [.client 0 7 (.request 1), .client 1 7 (.request 1), .client 2 7 (.request 1), .timeout 0 .sync,
    .deliver 0, .deliver 1, .deliver 2, .deliver 3, .timeout 0 .sync, .deliver 4]

def oneStamp : Request × String := ({ op := "a", clientid := 7, clientreqid := 1 }, digest)

theorem noCollision_oneStamp {sha1 : Sha1} {l l' : List (Request × String)} (hl : l <+: [oneStamp])
    (hl' : l' <+: [oneStamp]) : NoCollision (nextHash sha1) hashKey emptyHash l l' := by
  refine NoCollision.of_prefix ?_ hl hl'
  intro i j x y hx hy _
  obtain ⟨hi, rfl⟩ := List.getElem?_eq_some_iff.mp hx
  obtain ⟨hj, rfl⟩ := List.getElem?_eq_some_iff.mp hy
  obtain rfl : i = 0 := Nat.lt_one_iff.mp hi
  obtain rfl : j = 0 := Nat.lt_one_iff.mp hj
  exact ⟨rfl, rfl⟩

theorem sync_commits_agree_one : ∃ past s, Run (system oneClient) InOneView past s ∧
    (s.replica 0).lastCommitted = 1 ∧ (s.replica 1).lastCommitted = 1 ∧
    (∃ hash Q, IsQuorum 3 3 Q ∧ 0 ∈ Q ∧ ∀ q ∈ Q, logHash (s.replica q) 1 = some hash) ∧
    (committedPrefix (s.replica 0) <+: committedPrefix (s.replica 1) ∨
      committedPrefix (s.replica 1) <+: committedPrefix (s.replica 0)) := by
  obtain ⟨past, s, hrun, hs⟩ := Run.exists_of_exec (system oneClient) InOneView syncEvents
    (fun s => decide ((s.replica 0).lastCommitted = 1 ∧ (s.replica 1).lastCommitted = 1 ∧
      ∀ (r : Nat), r < 3 → stamps (s.replica r).log = [oneStamp])) (by decide +kernel)
  obtain ⟨h0, h1, hlogs⟩ := of_decide_eq_true hs
  have hvalid : oneClient.config.Valid := rfl
  obtain ⟨hfast, hagree⟩ := sync_commits_agree hvalid hrun
  have hfree : NoneCollide oneClient s := by
    intro r hr r' hr'
    exact noCollision_oneStamp (hlogs r hr ▸ List.prefix_rfl) (hlogs r' hr' ▸ List.prefix_rfl)
  refine ⟨past, s, hrun, h0, h1, ?_, ((hagree hfree).1 0 (by decide)).2 1 (by decide)⟩
  rw [h0] at hfast
  exact hfast Nat.one_ne_zero

end Dsnet.Spec
