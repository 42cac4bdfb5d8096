import Dsnet.PBFT.Once

/-! The batches of the primary of a PBFT group whose replicas all follow the code. The op numbers that are
    given out are those of the batches sent and of the pending batch, one after the other, so two batches share
    none of them. A batch is closed when it is full, which it is not before it has a request, or by the task
    of the timer. The task may have been queued before the batch it was for was full: then it finds
    none, and sends a Preprepare without requests. -/

namespace Dsnet.PBFT
open Handler Net.GhostInvariant

variable {E : Env} {g : History} {s s' : Replica} {r : Nat}

/-! ### Batches -/

/-- The batches that have been sent: their op numbers go up to `upTo`. -/
structure Sent where
  batches : List (Prepare × List Request)
  upTo : Nat
  size : ∀ b ∈ batches, b.1.batchSize = b.2.length
  nonempty : ∀ b ∈ batches, b.2 ≠ []
  bounded : ∀ b ∈ batches, b.1.opNumber + b.2.length ≤ upTo + 1
  ordered : batches.Pairwise fun b b' => b.1.opNumber + b.2.length ≤ b'.1.opNumber

/-- One more batch, with the op numbers that come next. -/
def Sent.push (B : Sent) (m : Prepare) (reqs : List Request) (hsize : m.batchSize = reqs.length)
    (hne : reqs ≠ []) (hop : m.opNumber = B.upTo + 1) : Sent where
  batches := B.batches ++ [(m, reqs)]
  upTo := B.upTo + reqs.length
  size := List.forall_mem_append.mpr ⟨B.size, by simpa using hsize⟩
  nonempty := List.forall_mem_append.mpr ⟨B.nonempty, by simpa using hne⟩
  bounded := List.forall_mem_append.mpr
    ⟨fun b hb => (B.bounded b hb).trans (by omega), by simp only [List.mem_singleton, forall_eq, hop]; omega⟩
  ordered := by
    refine List.pairwise_append.mpr ⟨B.ordered, List.pairwise_singleton _ _, fun b hb b' hb' => ?_⟩
    rw [List.mem_singleton.mp hb', hop]
    exact B.bounded b hb

/-- Two batches with an op number in common are the same. -/
theorem Sent.eq_of_covers (B : Sent) {b b' : Prepare × List Request} (hb : b ∈ B.batches) (hb' : b' ∈ B.batches)
    {i j : Nat} (hi : i < b.2.length) (hj : j < b'.2.length) (h : b.1.opNumber + i = b'.1.opNumber + j) :
    b = b' := by
  obtain ⟨x, hx, rfl⟩ := List.mem_iff_getElem.mp hb
  obtain ⟨y, hy, rfl⟩ := List.mem_iff_getElem.mp hb'
  have hord := List.pairwise_iff_getElem.mp B.ordered
  rcases lt_trichotomy x y with hxy | rfl | hxy
  · have := hord x y hx hy hxy
    omega
  · rfl
  · have := hord y x hy hx hxy
    omega

/-- The op numbers of the primary are those of the batches sent and of the pending one. -/
def Numbered (B : Sent) (s : Replica) : Prop := s.opNumber = B.upTo + s.requestBatch.length

/-- The invariant of the group, with the batches sent as its ghost. -/
def batching : Net.GhostInvariant Replica Message Sent where
  running B r s := r = 0 → Numbered B s
  halted _ _ _ := True
  packet B p := ∀ m reqs, p.msg = .preprepare m reqs → (m, reqs) ∈ B.batches
  advances r B B' := B.batches <+: B'.batches ∧ (r ≠ 0 → B' = B)
  refl _ _ := ⟨List.prefix_rfl, fun _ => rfl⟩
  trans h h' := ⟨h.1.trans h'.1, fun hr => (h'.2 hr).trans (h.2 hr)⟩
  running_mono {r B B' x s} h hx hs hx0 := by
    rw [h.2 fun hr => hx (hx0.trans hr.symm)]
    exact hs hx0
  halted_mono _ _ _ := trivial
  packet_mono h hp m reqs hm := h.1.subset (hp m reqs hm)

variable {B : Sent} {n : Nat}

/-- A handler that changes nothing here. -/
theorem batching_of_intake {m : RHandler Unit} (hm : Relates (Same Replica.intake) m)
    (he : Emits NoPreprepare m) (h : r = 0 → Numbered B s) :
    batching.Spec n r B m s fun _ B' s' => r = 0 → Numbered B' s' := by
  have hquiet : ∀ o : List Output, (∀ x ∈ o, NoPreprepare x) → ∀ x ∈ o, ∀ p ∈ Net.packets n r x,
      batching.packet B p := fun o ho x hx p hp m reqs hm => (ho x hx n r m reqs p hp hm).elim
  refine ((hm s).and (he s)).mono (fun _ s' o h' => ⟨B, batching.refl r B, fun h0 => ?_, hquiet o h'.2⟩)
    fun s' o h' => ⟨B, batching.refl r B, trivial, hquiet o h'.2⟩
  have hsame := h'.1
  simp only [Same, Replica.intake, Prod.mk.injEq] at hsame
  rw [Numbered, hsame.1, hsame.2.1]
  exact h h0

/-- A batch that has a request is closed. -/
theorem closeBatch_batching (h : Numbered B s) (hne : s.requestBatch ≠ []) :
    batching.Spec n 0 B (closeBatch E) s fun _ B' s' => 0 = 0 → Numbered B' s' := by
  have hop : (s.prepare E).opNumber = B.upTo + 1 := by
    rw [Replica.prepare, h, Nat.add_sub_cancel]
  rw [closeBatch, spec_modify_bind, spec_get_bind, spec_assert_bind]
  refine ⟨fun _ => ?_, fun _ => Ends.same trivial⟩
  have hpush : batching.advances 0 B (B.push (s.prepare E) s.requestBatch rfl hne hop) :=
    ⟨List.prefix_append _ _, fun h0 => (h0 rfl).elim⟩
  refine Spec.advance hpush ?_
  refine Spec.emit_bind (fun p hp m reqs hm => ?_) (spec_modify.mpr (Ends.same fun _ => h))
  obtain ⟨j, -, rfl⟩ := List.mem_map.mp hp
  cases hm
  exact List.mem_append_right _ (List.mem_singleton.mpr rfl)

theorem queueRequest_batching (h : Numbered B s) (req : Request) (entry : ClientEntry) :
    batching.Spec n 0 B (queueRequest E req entry) s fun _ B' s' => 0 = 0 → Numbered B' s' := by
  rw [queueRequest, spec_modify_bind, spec_get_bind]
  refine Spec.bind (J := fun _ B' s' => B' = B ∧ s'.opNumber = s.opNumber + 1 ∧
    s'.requestBatch = s.requestBatch) ?_ fun _ B' s₁ _ hs₁ => ?_
  · refine ((append_intake (E := E) (s.opNumber + 1) req _).and (emits_append (P := NoPreprepare) _ _ _)).mono
      (fun _ s' o hs' => ?_) fun s' o hs' => ⟨B, batching.refl 0 B, trivial, fun x hx p hp m reqs hm =>
        (hs'.2 x hx n 0 m reqs p hp hm).elim⟩
    obtain ⟨hop, hbatch, -⟩ : s'.opNumber = s.opNumber + 1 ∧ s'.requestBatch = s.requestBatch ∧ _ := by
      simpa only [Same, Replica.intake, Prod.mk.injEq] using hs'.1
    exact ⟨B, batching.refl 0 B, ⟨rfl, hop, hbatch⟩, fun x hx p hp m reqs hm =>
      (hs'.2 x hx n 0 m reqs p hp hm).elim⟩
  · obtain ⟨rfl, hop, hbatch⟩ := hs₁
    rw [spec_modify_bind, spec_modify_bind, spec_get_bind, spec_when]
    have hnumbered : s₁.opNumber = B'.upTo + (s₁.requestBatch ++ [req]).length := by
      rw [hop, hbatch, h, List.length_append, List.length_singleton, Nat.add_assoc]
    refine ⟨fun _ => closeBatch_batching hnumbered ?_, fun _ => Ends.same fun _ => hnumbered⟩
    exact List.append_ne_nil_of_right_ne_nil _ (List.cons_ne_nil _ _)

theorem handleNewRequest_batching (hE : E.replicaIdx = r) (hrun : Running g r s) (h : r = 0 → Numbered B s)
    (req : Request) (entry : ClientEntry) :
    batching.Spec n r B (handleNewRequest E req entry) s fun _ B' s' => r = 0 → Numbered B' s' := by
  rw [handleNewRequest, spec_get_bind, spec_ite, isPrimary_iff hE hrun]
  refine ⟨fun _ => batching_of_intake ?_ ?_ h, fun h0 => ?_⟩
  · exact Relates.when relates_emit
  · exact (emits_emit (noPreprepare_toReplica fun _ _ => Message.noConfusion)).when
  · obtain rfl : r = 0 := not_not.mp h0
    exact queueRequest_batching (h rfl) req entry

theorem handleRequest_batching (hE : E.replicaIdx = r) (hrun : Running g r s) (h : r = 0 → Numbered B s)
    (remote : Addr) (req : Request) :
    batching.Spec n r B (handleRequest E remote req) s fun _ B' s' => r = 0 → Numbered B' s' := by
  rw [handleRequest, spec_get_bind]
  cases s.standing req with
  | late => exact spec_pure.mpr (Ends.same h)
  | again entry =>
    refine batching_of_intake (Relates.whenSome fun _ => relates_emit) ?_ h
    exact Emits.whenSome fun m => emits_emit (noPreprepare_toClient _ _)
  | next entry => exact handleNewRequest_batching hE hrun h req entry
  | unknown =>
    simp only [spec_ite]
    refine ⟨fun _ => spec_abort.mpr (Ends.same trivial), fun _ => spec_modify_bind.mpr ?_⟩
    exact handleNewRequest_batching hE (hrun.setClient _ _) h req _

theorem receiveMessage_batching (hE : E.replicaIdx = r) (hrun : Running g r s) (h : r = 0 → Numbered B s)
    (remote : Addr) (m : Message) :
    batching.Spec n r B (receiveMessage E remote m) s fun _ B' s' => r = 0 → Numbered B' s' := by
  cases m with
  | request req => exact handleRequest_batching hE hrun h remote req
  | preprepare p reqs =>
    refine batching_of_intake ?_ ?_ h
    · exact Relates.ite relates_abort (handlePreprepare_intake _ _)
    · exact emits_abort.ite (emits_handlePreprepare _ _)
  | prepare p => exact batching_of_intake (handlePrepare_intake p) (emits_handlePrepare p) h
  | commit m => exact batching_of_intake (handleCommit_intake m) (emits_handleCommit noPreprepare_toClient m) h

/-! ### Runs -/

variable {G : Group}

/-- The task of the timer finds a batch to close, and no request that the primary lets through is in its log. -/
def InTime (s : Sys) (e : Event) : Prop :=
  NoneTwice s e ∧ ∀ t, e = .timeout 0 t → (s.replica 0).requestBatch ≠ []

/-- In every run whose steps are of this kind. -/
theorem batching_of_run {past : List Sys} {s : Sys} (hr : Run G.system InTime past s) :
    ∃ B, batching.Holds G.config.n B s := by
  refine hr.invariant (I := fun _ s => ∃ B, batching.Holds G.config.n B s) ⟨⟨[], 0, ?_, ?_, ?_, .nil⟩, ?_⟩ ?_
  · exact fun _ hb => by cases hb
  · exact fun _ hb => by cases hb
  · exact fun _ hb => by cases hb
  · exact ⟨fun _ _ _ _ => rfl, fun _ _ _ => trivial, fun _ hp => by cases hp⟩
  rintro past s e s' hpast ⟨B, h⟩ hc hst
  obtain ⟨g, hg⟩ := holds_of_run (hpast.weaken fun _ _ h => h.1)
  obtain ⟨r, m, hm, hr, hlive, rfl⟩ := Net.Sys.step_eq_some hst
  have hrun : Running g r (s.replica r) := hg.running r hr hlive
  have hB : r = 0 → Numbered B (s.replica r) := h.running r hr hlive
  suffices hspec : batching.Spec G.config.n r B m (s.replica r) fun _ B' t => r = 0 → Numbered B' t by
    obtain ⟨B', -, h'⟩ := Net.GhostInvariant.step h hspec
    exact ⟨B', h'⟩
  rcases Net.Event.of_handler hm with ⟨c, k, rfl, rfl⟩ | ⟨i, p, rfl, hp, rfl, rfl⟩ | ⟨t, rfl, hact, rfl⟩
  · exact receiveMessage_batching rfl hrun hB _ _
  · exact receiveMessage_batching rfl hrun hB _ _
  · obtain rfl : r = 0 := hrun.timer hact
    exact closeBatch_batching (hB rfl) (hc.2 t rfl)

/-- A Preprepare for these requests has been sent. -/
def Broadcast (s : Sys) (m : Prepare) (reqs : List Request) : Prop := ∃ p ∈ s.net, p.msg = .preprepare m reqs

/-- Every batch that has been sent has a request, and no request is twice in one, or in two of them. -/
structure Batched (s : Sys) : Prop where
  nonempty : ∀ m reqs, Broadcast s m reqs → reqs ≠ []
  nodup : ∀ m reqs, Broadcast s m reqs → (reqs.map key).Nodup
  once : ∀ m reqs m' reqs', Broadcast s m reqs → Broadcast s m' reqs' →
    ∀ req ∈ reqs, ∀ req' ∈ reqs', key req = key req' → m = m' ∧ reqs = reqs'

/-- A request has one op number. -/
theorem At.eq_of_key {k k' : Nat} {req req' : Request} (h : At g k req) (h' : At g k' req')
    (hkey : key req = key req') : k = k' := by
  have hnodup := List.nodup_iff_getElem?_ne_getElem?.mp g.once
  have hat : ∀ {i : Nat} {q : Request}, At g i q → (g.requests.map fun x => key x.2)[i - 1]? = some (key q) := by
    intro i q hq
    rw [List.getElem?_map, hq.2]
    rfl
  have hlen : ∀ {i : Nat} {q : Request}, At g i q → i - 1 < (g.requests.map fun x => key x.2).length :=
    fun hq => (List.getElem?_eq_some_iff.mp (hat hq)).1
  have heq : (g.requests.map fun x => key x.2)[k - 1]? = (g.requests.map fun x => key x.2)[k' - 1]? := by
    rw [hat h, hat h', hkey]
  have hk := h.1
  have hk' := h'.1
  rcases lt_trichotomy (k - 1) (k' - 1) with hlt | hkk | hlt
  · exact (hnodup _ _ hlt (hlen h') heq).elim
  · omega
  · exact (hnodup _ _ hlt (hlen h) heq.symm).elim

theorem batched_of_holds {s : Sys} (hg : invariant.Holds n g s) (hB : batching.Holds n B s) : Batched s := by
  have hsent : ∀ m reqs, Broadcast s m reqs → (m, reqs) ∈ B.batches := by
    rintro m reqs ⟨p, hp, hm⟩
    exact hB.packet p hp m reqs hm
  have hat : ∀ m reqs, Broadcast s m reqs → ∀ i req, reqs[i]? = some req → At g (m.opNumber + i) req := by
    rintro m reqs hb i req hi
    have hsize : m.batchSize = reqs.length := B.size _ (hsent m reqs hb)
    obtain ⟨p, hp, hm⟩ := hb
    refine hg.packet p hp m reqs hm i req ?_
    rwa [hsize, List.take_length]
  refine ⟨fun m reqs hb => B.nonempty _ (hsent m reqs hb), fun m reqs hb => ?_, ?_⟩
  · refine List.nodup_iff_getElem?_ne_getElem?.mpr fun i j hij hj heq => ?_
    rw [List.length_map] at hj
    rw [List.getElem?_map, List.getElem?_map, List.getElem?_eq_getElem (hij.trans hj),
      List.getElem?_eq_getElem hj] at heq
    have hkey := (hat m reqs hb i _ (List.getElem?_eq_getElem (hij.trans hj))).eq_of_key
      (hat m reqs hb j _ (List.getElem?_eq_getElem hj)) (Option.some.inj heq)
    omega
  · intro m reqs m' reqs' hb hb' req hreq req' hreq' hkey
    obtain ⟨i, hi, rfl⟩ := List.mem_iff_getElem.mp hreq
    obtain ⟨j, hj, rfl⟩ := List.mem_iff_getElem.mp hreq'
    have hop := (hat m reqs hb i _ (List.getElem?_eq_getElem hi)).eq_of_key
      (hat m' reqs' hb' j _ (List.getElem?_eq_getElem hj)) hkey
    exact Prod.mk.inj (B.eq_of_covers (hsent m reqs hb) (hsent m' reqs' hb') hi hj hop)

/-- In every run in which the timer's task finds a batch to close, and in which the primary lets no request
    through that it has logged, every Preprepare has a request, and none is in two of them. -/
theorem batches_of_run {past : List Sys} {s : Sys} (hr : Run G.system InTime past s) : Batched s := by
  obtain ⟨g, hg⟩ := holds_of_run (hr.weaken fun _ _ h => h.1)
  obtain ⟨B, hB⟩ := batching_of_run hr
  exact batched_of_holds hg hB

/-- Four replicas, with batches of two requests. -/
def pairs : Group := { fourReplicas with batchSize := 2 }

/-- The first request of another client. -/
def otherRequest : Request := { op := "", clientid := 6, clientreqid := 1 }

/-- Two requests fill a batch. -/
def twoRequests : List Event := [.client 0 5 (.request (requestOf 1)), .client 0 6 (.request otherRequest)]

/-- The messages that are the Preprepare of a batch with these requests. -/
def Message.carries (reqs : List Request) : Message → Bool
  | .preprepare _ reqs' => reqs' == reqs
  | _ => false

theorem broadcast_of_carries {s : Sys} {reqs : List Request} (h : s.net.any fun p => p.msg.carries reqs) :
    ∃ m, Broadcast s m reqs := by
  obtain ⟨p, hp, hm⟩ := List.any_eq_true.mp h
  cases hmsg : p.msg with
  | preprepare m reqs' =>
    rw [hmsg] at hm
    obtain rfl : reqs' = reqs := beq_iff_eq.mp hm
    exact ⟨m, p, hp, hmsg⟩
  | _ => rw [hmsg] at hm; cases hm

theorem batches_of_run_two : ∃ s : Sys, (∃ m, Broadcast s m [requestOf 1, otherRequest]) ∧ Batched s := by
  obtain ⟨past, s, hr, hs⟩ := Run.exists_of_exec pairs.system (fun s e => UpToDate s e ∧ e ≠ .timeout 0 ())
    twoRequests (fun s => s.net.any fun p => p.msg.carries [requestOf 1, otherRequest]) (by decide +kernel)
  exact ⟨s, broadcast_of_carries hs, batches_of_run (hr.weaken fun _ _ h =>
    ⟨h.1.noneTwice, fun _ ht => (h.2 ht).elim⟩)⟩

/-- The timer's task is queued before the request that fills the batch, and runs after it. -/
def lateTask : List Event := twoRequests ++ [.timeout 0 ()]

/-- Two Preprepares for the second request of the client, with different op numbers. -/
def twoBatches (s : Sys) : Bool :=
  s.net.any fun p => s.net.any fun q => match p.msg, q.msg with
    | .preprepare m reqs, .preprepare m' reqs' =>
      requestOf 2 ∈ reqs ∧ requestOf 2 ∈ reqs' ∧ m.opNumber < m'.opNumber
    | _, _ => false

/-- There are runs in which a Preprepare has no request, and runs in which two of them have the same. -/
theorem batches_fail :
    (∃ past s, Run pairs.system (OneOutstanding pairs) past s ∧ ∃ m, Broadcast s m []) ∧
      ∃ past s, Run fourReplicas.system (OneOutstanding fourReplicas) past s ∧ ∃ m reqs m' reqs',
        Broadcast s m reqs ∧ Broadcast s m' reqs' ∧ requestOf 2 ∈ reqs ∧ requestOf 2 ∈ reqs' ∧ m ≠ m' := by
  constructor
  · obtain ⟨past, s, hr, hs⟩ := Run.exists_of_exec pairs.system (OneOutstanding pairs) lateTask
      (fun s => s.net.any fun p => p.msg.carries []) (by decide +kernel)
    exact ⟨past, s, hr, broadcast_of_carries hs⟩
  · obtain ⟨past, s, hr, hs⟩ := Run.exists_of_exec fourReplicas.system (OneOutstanding fourReplicas) resent
      twoBatches (by decide +kernel)
    refine ⟨past, s, hr, ?_⟩
    obtain ⟨p, hp, hs⟩ := List.any_eq_true.mp hs
    obtain ⟨q, hq, hs⟩ := List.any_eq_true.mp hs
    split at hs
    · rename_i m reqs m' reqs' hm hm'
      obtain ⟨h, h', hlt⟩ := of_decide_eq_true hs
      exact ⟨m, reqs, m', reqs', ⟨p, hp, hm⟩, ⟨q, hq, hm'⟩, h, h', fun heq => by
        rw [heq] at hlt
        exact lt_irrefl _ hlt⟩
    · cases hs

end Dsnet.PBFT
