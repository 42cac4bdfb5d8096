import Dsnet.FastPaxos.Follower
import Dsnet.FastPaxos.Leader

/-! What Fast Paxos guarantees, over all runs. Every replica executes the leader's log, and no request
    twice. What the leader commits is held by a quorum, unless a fast quorum makes it commit earlier
    slots as well: `HandlePrepareOK` commits up to the acknowledged opnum, while `HandleCommit` takes a
    fast-path commit for the next slot only. -/

namespace Dsnet.FastPaxos
open Handler Net.GhostInvariant

/-- The event does not make the leader commit on a fast quorum for a slot that is not the next one. -/
def FastInOrder (G : Group) (s : Sys) : Event → Prop
  | .client r c (.request i) =>
    let req : Request := { op := G.op c i, clientid := c, clientreqid := i }
    amLeader (G.env r) (s.replica r) → checkDuplicate (s.replica r) req = .fresh →
      InOrder (s.replica r) ((s.replica r).lastSlowPath + 1) req
        ((s.replica r).pendingPrepareOKs.map Prod.snd)
  | .deliver i =>
    match s.net[i]? with
    | some ⟨_, r, .prepareOK m⟩ =>
      amLeader (G.env r) (s.replica r) → m.slowpath = 0 →
        ∀ e ∈ (s.replica r).log.find m.opnum, matchesLog e.request m →
          InOrder (s.replica r) m.opnum e.request [m]
    | _ => True
  | _ => True

instance (G : Group) (s : Sys) : ∀ e, Decidable (FastInOrder G s e)
  | .client _ _ (.request _) => inferInstanceAs (Decidable (_ → _ → _))
  | .client _ _ (.unlogged _) => inferInstanceAs (Decidable True)
  | .timeout _ _ => inferInstanceAs (Decidable True)
  | .deliver i =>
    match h : s.net[i]? with
    | some ⟨_, r, .prepareOK m⟩ =>
      decidable_of_iff (amLeader (G.env r) (s.replica r) → m.slowpath = 0 →
        ∀ e ∈ (s.replica r).log.find m.opnum, matchesLog e.request m →
          InOrder (s.replica r) m.opnum e.request [m]) (by simp only [FastInOrder, h])
    | some ⟨_, _, .request _⟩ | some ⟨_, _, .unloggedRequest _⟩ | some ⟨_, _, .prepare _⟩
    | some ⟨_, _, .commit _⟩ | some ⟨_, _, .requestStateTransfer _⟩ | some ⟨_, _, .stateTransfer _⟩
    | some ⟨_, _, .notSet⟩ | none => .isTrue (by simp only [FastInOrder, h])

/-! ### Runs -/

variable {G : Group} {safe : Prop}

/-- A step keeps the invariant; the commits of one that is in order are durable. -/
theorem invariant_step {g : Snapshot} {s s' : Sys} {e : Event} (hop : g.op = G.op)
    (h : (invariant G.config safe).Holds G.config.n g s) (horder : safe → FastInOrder G s e)
    (hstep : s.step G.protocol e = some s') :
    ∃ g', g'.op = G.op ∧ (invariant G.config safe).Holds G.config.n g' s' := by
  obtain ⟨r, m, hm, hr, hlive, rfl⟩ := Net.Sys.step_eq_some hstep
  have hrun := h.running r hr hlive
  suffices hspec : (invariant G.config safe).Spec G.config.n r g m (s.replica r)
      fun _ g' t => Running G.config safe g' r t by
    obtain ⟨g', hg, h'⟩ := Net.GhostInvariant.step h hspec
    exact ⟨g', hg.op.trans hop, h'⟩
  by_cases h0 : r = 0
  · subst h0
    have hlead : GoodLeader G.config safe g (s.replica 0) := hrun
    rcases Net.Event.of_handler hm with ⟨c, q, rfl, rfl⟩ | ⟨i, p, rfl, hp, hdst, rfl⟩ |
      ⟨t, rfl, _, rfl⟩
    · cases q with
      | request i =>
        exact handleRequest_leader (E := G.env 0) rfl hr hlead ⟨by rw [hop], rfl⟩
          fun hs => horder hs (amLeader_of rfl hlead.view)
      | unlogged op => exact handleUnloggedRequest_leader (E := G.env 0) hlead
    · have hgood : GoodPacket G.config g p := h.packet p (List.mem_of_getElem? hp)
      refine receiveMessage_leader (E := G.env 0) rfl hr hlead hdst hgood ?_
      intro hs m hmsg hpath _ y hy hmatch
      obtain ⟨src, dst, msg⟩ := p
      obtain rfl : dst = 0 := hdst
      obtain rfl : msg = .prepareOK m := hmsg
      have hin := horder hs
      simp only [FastInOrder, hp] at hin
      have h1 : 1 ≤ m.opnum := GoodPrepareOK.opnum hgood
      obtain ⟨e, he, rfl⟩ : ∃ e, (s.replica 0).log.entries[m.opnum - 1]? = some e ∧
          e.content = y := by
        rwa [Log.contents, List.getElem?_map, Option.map_eq_some_iff] at hy
      exact hin (amLeader_of rfl hlead.view) hpath e (Log.find_eq_some.mpr ⟨h1, he⟩) hmatch
    · exact timeout_leader (E := G.env 0) rfl hlead
  · have hfollow : GoodFollower g r (s.replica r) := by
      rw [show (invariant G.config safe).running = Running G.config safe from rfl, Running,
        if_neg h0] at hrun
      exact hrun
    have hdone {m : FPHandler Unit}
        (hm : Meets (G.env r) safe g m (s.replica r) fun _ g' t => GoodFollower g' r t) :
        (invariant G.config safe).Spec G.config.n r g m (s.replica r)
          fun _ g' t => Running G.config safe g' r t := by
      refine hm.mono fun _ g' t _ ht => ?_
      rw [Running, if_neg h0]
      exact ht
    rcases Net.Event.of_handler hm with ⟨c, q, rfl, rfl⟩ | ⟨i, p, rfl, hp, hdst, rfl⟩ |
      ⟨t, rfl, _, rfl⟩
    · exact hdone (ask_follower (E := G.env r) h0 hr hfollow hop)
    · exact hdone (receiveMessage_follower (E := G.env r) h0 hr hfollow hdst
        (h.packet p (List.mem_of_getElem? hp)))
    · exact hdone (timeout_follower (E := G.env r) h0 hfollow)

/-- The group as it is constructed. -/
theorem invariant_initial (G : Group) (safe : Prop) :
    (invariant G.config safe).Holds G.config.n ⟨fun _ => [], fun _ => 0, G.op⟩
      (Net.Sys.initial G.protocol) := by
  refine ⟨fun r _ _ => ?_, fun r _ h => (by cases h), fun p hp => (by cases hp)⟩
  have hnode : Node ⟨fun _ => [], fun _ => 0, G.op⟩ r 0 (Replica.initial (G.env r)) :=
    { view := rfl, status := rfl, log := rfl, fast := rfl, committed := rfl
      views := fun x hx => by cases hx
      agrees := fun i hi => by cases hi
      slow := Nat.le_refl _
      committed_le := Nat.le_refl _
      executed := rfl }
  show Running _ _ _ _ _
  unfold Running
  split_ifs with h0
  · subst h0
    exact
      { toNode := hnode, full := rfl, unsent := fun _ => rfl, slowRequired := rfl
        fastRequired := rfl
        good := ⟨fun x hx => (by cases hx), List.Pairwise.nil⟩
        genuine := fun x hx => by cases hx
        table := fun x hx => by cases hx
        lastPrepare := fun p hp => by cases hp
        pendingOKs := fun x hx => by cases hx
        slowAcks := fun k x hx => by cases hx
        fastAcks := fun k x hx => by cases hx
        quorum := fun _ i hi => by cases hi }
  · exact ⟨hnode, fun x hx => by cases hx⟩

/-- The invariant holds all along a run; when it is to say that commits are durable, the run is one
    whose fast quorums are in order. -/
theorem invariant_run (safe : Prop) {C : Sys → Event → Prop} (hC : ∀ s e, C s e → safe → FastInOrder G s e)
    {past : List Sys} {s : Sys} (h : Run (system G) C past s) :
    ∃ g : Snapshot, g.op = G.op ∧ (invariant G.config safe).Holds G.config.n g s := by
  induction h with
  | start => exact ⟨_, rfl, invariant_initial G safe⟩
  | next _ hc hst ih =>
    obtain ⟨g, hop, hg⟩ := ih
    exact invariant_step hop hg (hC _ _ hc) hst

/-! ### Agreement -/

/-- What a replica has executed, running or stopped, is a piece of the leader's log. -/
theorem executed_of_holds {g : Snapshot} {s : Sys} {r : Nat}
    (h : (invariant G.config safe).Holds G.config.n g s) (hr : r < G.config.n) :
    ∃ k, (s.replica r).executed = (opnumbered (g.logs 0)).take k := by
  cases hstop : s.stopped r with
  | true =>
    obtain ⟨k, _, hk⟩ := Halted.executed (h.halted r hr hstop)
    exact ⟨k, hk⟩
  | false =>
    have hrun : Running G.config safe g r (s.replica r) := h.running r hr hstop
    unfold Running at hrun
    split_ifs at hrun with h0
    · exact ⟨_, hrun.executed⟩
    · exact ⟨_, hrun.executed⟩

/-- A replica's log is the one of the snapshot. -/
theorem log_of_holds {g : Snapshot} {s : Sys} {r : Nat}
    (h : (invariant G.config safe).Holds G.config.n g s) (hr : r < G.config.n) :
    (s.replica r).log.contents = g.logs r := by
  cases hstop : s.stopped r with
  | true => exact Halted.log (h.halted r hr hstop)
  | false =>
    have hrun : Running G.config safe g r (s.replica r) := h.running r hr hstop
    unfold Running at hrun
    split_ifs at hrun with h0
    · exact h0 ▸ hrun.log
    · exact hrun.log

/-- The leader's log is good, and what it has committed is durable. -/
theorem leader_of_holds {g : Snapshot} {s : Sys}
    (h : (invariant G.config safe).Holds G.config.n g s) (hn : 0 < G.config.n) :
    GoodLog (g.logs 0) ∧ (safe → ∀ i < (s.replica 0).lastCommitted, g.QuorumAt G.config i) := by
  cases hstop : s.stopped 0 with
  | true =>
    have hhalt : Halted G.config safe g 0 (s.replica 0) := h.halted 0 hn hstop
    exact ⟨hhalt.good rfl, hhalt.quorum rfl⟩
  | false =>
    have hrun : GoodLeader G.config safe g (s.replica 0) := h.running 0 hn hstop
    exact ⟨hrun.good, hrun.quorum⟩

/-- No two places of the leader's log have the same request. -/
theorem GoodLog.nodup {l : List (Nat × Request)} (h : GoodLog l) :
    ((opnumbered l).map fun x => (x.2.clientid, x.2.clientreqid)).Nodup := by
  have hmap : ((opnumbered l).map fun x => (x.2.clientid, x.2.clientreqid)) =
      l.map fun x => (x.2.clientid, x.2.clientreqid) := by
    refine List.ext_getElem? fun i => ?_
    rw [List.getElem?_map, getElem?_opnumbered, List.getElem?_map, Option.map_map]
    rfl
  rw [hmap, List.Nodup, List.pairwise_map]
  refine h.increasing.imp fun {x y} hlt heq => ?_
  obtain ⟨hid, hreqid⟩ := Prod.mk.inj heq
  exact (hlt hid).ne hreqid

/-- Every replica executes at each slot the request that the leader's log has there, and no request
    twice. -/
theorem executes_leader_log (G : Group) {past : List Sys} {s : Sys}
    (h : Run (system G) (fun _ _ => True) past s) {r : Nat} (hr : r < G.config.n) :
    (∀ k req, (k, req) ∈ (s.replica r).executed →
      ((s.replica (G.config.getLeaderIndex 0)).log.find k).map (·.request) = some req) ∧
    ((s.replica r).executed.map fun x => (x.2.clientid, x.2.clientreqid)).Nodup := by
  obtain ⟨g, _, hg⟩ := invariant_run False (fun _ _ _ hf => hf.elim) h
  have hn : 0 < G.config.n := by omega
  obtain ⟨k, hk⟩ := executed_of_holds hg hr
  have hlog := log_of_holds hg hn
  rw [Configuration.getLeaderIndex, Nat.zero_mod, hk]
  refine ⟨fun j req hj => ?_, ?_⟩
  · obtain ⟨i, hi⟩ := List.mem_iff_getElem?.mp (List.mem_of_mem_take hj)
    rw [getElem?_opnumbered, ← hlog, Log.contents, List.getElem?_map, Option.map_map] at hi
    obtain ⟨e, he, hje⟩ := Option.map_eq_some_iff.mp hi
    obtain ⟨rfl, rfl⟩ : i + 1 = j ∧ e.request = req := Prod.mk.inj hje
    rw [Log.find_eq_some.mpr ⟨Nat.succ_pos i, he⟩]
    rfl
  · exact ((leader_of_holds hg hn).1.nodup).sublist ((List.take_sublist _ _).map _)

/-- Three replicas, whose clients all send the same operation. -/
def threeReplicas : Group :=
  { config := { n := 3, f := 1 }, app := fun _ => App.default, op := fun _ _ => "x" }

/-- A request that reaches the three replicas, and the leader's commit on the two acknowledgements. -/
def fastCommit : List Event :=
  [.client 0 7 (.request 1), .client 1 7 (.request 1), .client 2 7 (.request 1), .deliver 0, .deliver 1,
    .deliver 2]

theorem executes_leader_log_threeReplicas : ∃ past s,
    Run (system threeReplicas) (fun _ _ => True) past s ∧ (s.replica 1).executed ≠ [] ∧
    ((∀ k req, (k, req) ∈ (s.replica 1).executed →
      ((s.replica (threeReplicas.config.getLeaderIndex 0)).log.find k).map (·.request) = some req) ∧
    ((s.replica 1).executed.map fun x => (x.2.clientid, x.2.clientreqid)).Nodup) := by
  obtain ⟨past, s, hrun, hs⟩ := Run.exists_of_exec (system threeReplicas) (fun _ _ => True) fastCommit
    (fun s => (s.replica 1).executed ≠ []) (by decide)
  exact ⟨past, s, hrun, by simpa using hs, executes_leader_log threeReplicas hrun (by decide)⟩

/-! ### Durability -/

/-- The replicas whose log has this request at slot `k`. -/
def holders (G : Group) (s : Sys) (k : Nat) (req : Request) : Finset Nat :=
  (Finset.range G.config.n).filter fun r => ((s.replica r).log.find k).map (·.request) = some req

/-- When the leader commits on fast quorums only for the next slot, every slot it has committed is held
    by a quorum, of which it is part. -/
theorem committed_held (G : Group) (hG : G.config.Valid) {past : List Sys} {s : Sys}
    (h : Run (system G) (FastInOrder G) past s) (k : Nat) (h1 : 1 ≤ k)
    (hk : k ≤ (s.replica (G.config.getLeaderIndex 0)).lastCommitted) :
    ∃ req, G.config.getLeaderIndex 0 ∈ holders G s k req ∧
      G.config.quorumSize ≤ (holders G s k req).card := by
  obtain ⟨g, _, hg⟩ := invariant_run True (fun _ _ hc _ => hc) h
  have hn : 0 < G.config.n := by
    rw [hG]
    omega
  rw [Configuration.getLeaderIndex, Nat.zero_mod] at hk ⊢
  obtain ⟨Q, hcard, hQ⟩ := (leader_of_holds hg hn).2 trivial (k - 1) (by omega)
  have hpos : 0 < Q.card := by
    unfold Configuration.quorumSize at hcard
    omega
  obtain ⟨q, hq⟩ := Finset.card_pos.mp hpos
  obtain ⟨x, _, hx⟩ := (hQ q hq).2
  have hholds {r : Nat} (hr : r < G.config.n) (hrx : (g.logs r)[k - 1]? = some x) :
      r ∈ holders G s k x.2 := by
    rw [← log_of_holds hg hr, Log.contents, List.getElem?_map] at hrx
    obtain ⟨e, he, rfl⟩ := Option.map_eq_some_iff.mp hrx
    refine Finset.mem_filter.mpr ⟨Finset.mem_range.mpr hr, ?_⟩
    rw [Log.find_eq_some.mpr ⟨h1, he⟩]
    rfl
  refine ⟨x.2, hholds hn hx, hcard.trans (Finset.card_le_card fun r hr => ?_)⟩
  obtain ⟨y, hry, hy⟩ := (hQ r hr).2
  obtain rfl : y = x := Option.some.inj (hy.symm.trans hx)
  exact hholds (hQ r hr).1 hry

theorem committed_held_threeReplicas : ∃ past s,
    Run (system threeReplicas) (FastInOrder threeReplicas) past s ∧ ∃ req,
      threeReplicas.config.getLeaderIndex 0 ∈ holders threeReplicas s 1 req ∧
      threeReplicas.config.quorumSize ≤ (holders threeReplicas s 1 req).card := by
  obtain ⟨past, s, hrun, hs⟩ := Run.exists_of_exec (system threeReplicas) (FastInOrder threeReplicas)
    fastCommit (fun s => (s.replica 0).lastCommitted = 1) (by decide)
  have hc : (s.replica (threeReplicas.config.getLeaderIndex 0)).lastCommitted = 1 :=
    of_decide_eq_true hs
  exact ⟨past, s, hrun,
    committed_held threeReplicas rfl hrun 1 (Nat.le_refl 1) hc.ge⟩

/-- The request of client 10 reaches the leader only and that of client 11 the others only; then that
    of client 12 reaches all. -/
def crossedRequests : List Event :=
  [.client 0 10 (.request 1), .client 1 11 (.request 1), .client 2 11 (.request 1),
    .client 0 12 (.request 1), .client 1 12 (.request 1), .client 2 12 (.request 1), .deliver 2,
    .deliver 3]

/-- The fast quorum for slot 2 commits slot 1, which only the leader holds. -/
theorem fast_commit_not_held :
    ¬ ∀ G : Group, G.config.Valid → ∀ past s, Run (system G) (fun _ _ => True) past s → ∀ k, 1 ≤ k →
      k ≤ (s.replica (G.config.getLeaderIndex 0)).lastCommitted → ∃ req,
        G.config.getLeaderIndex 0 ∈ holders G s k req ∧
        G.config.quorumSize ≤ (holders G s k req).card := by
  intro hall
  obtain ⟨past, s, hrun, hs⟩ := Run.exists_of_exec (system threeReplicas) (fun _ _ => True)
    crossedRequests (fun s => (s.replica 0).lastCommitted = 2 ∧
      ((s.replica 0).log.find 1).map (·.request) = some ⟨"x", 10, 1, ""⟩ ∧
      (holders threeReplicas s 1 ⟨"x", 10, 1, ""⟩).card = 1) (by decide)
  obtain ⟨hc, hfind, hcard⟩ := of_decide_eq_true hs
  obtain ⟨req, hmem, hq⟩ := hall threeReplicas rfl past s hrun 1 (Nat.le_refl 1)
    (show 1 ≤ (s.replica 0).lastCommitted by omega)
  obtain rfl : _ = req := Option.some.inj (hfind.symm.trans (Finset.mem_filter.mp hmem).2)
  rw [hcard] at hq
  exact absurd hq (by decide)

end Dsnet.FastPaxos
