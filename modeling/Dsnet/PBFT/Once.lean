import Dsnet.PBFT.Effects

/-! At-most-once execution with PBFT replicas that all follow the code. Every log begins that of the primary, and
    a replica executes its log in order. So no request is executed twice as long as the primary logs none
    twice. Its client table keeps it from that, unless an entry of the log that it executes takes the
    number of a client back behind a request that it has queued. -/

namespace Dsnet.PBFT
open Handler Net.GhostInvariant

/-! ### The invariant -/

/-- What a client knows a request by. -/
def key (req : Request) : Nat × Nat := (req.clientid, req.clientreqid)

/-- The contents of the primary's log, which has no request twice. -/
structure History where
  requests : List (Nat × Request)
  once : (requests.map fun x => key x.2).Nodup

variable {E : Env} {g g' : History} {s s' : Replica} {r : Nat}

/-- The request is at this op number in the primary's log. -/
def At (g : History) (k : Nat) (req : Request) : Prop := 1 ≤ k ∧ g.requests[k - 1]? = some (0, req)

/-- The primary: the pending batch is the end of its log, and it knows the clients of the requests. -/
structure Leads (g : History) (s : Replica) : Prop where
  log : s.log.contents = g.requests
  opNumber : s.opNumber = g.requests.length
  batch : s.requestBatch.map (fun req => (0, req)) =
    g.requests.drop (g.requests.length - s.requestBatch.length)
  known : ∀ x ∈ g.requests, s.clientTable x.2.clientid ≠ none

/-- A replica, against the primary's log. -/
structure Running (g : History) (r : Nat) (s : Replica) : Prop where
  view : s.viewNumber = 0
  timer : s.timerStarted = true → r = 0
  log : s.log.contents <+: g.requests
  buffered : ∀ x ∈ s.requestBuffer.toList, At g x.1 x.2
  committed : s.commitNumber ≤ s.log.contents.length
  executed : s.executed = (opnumbered s.log.contents).take s.commitNumber
  leads : r = 0 → Leads g s

/-- A Preprepare has what the primary's log has. -/
def GoodPacket (g : History) (p : Net.Packet Message) : Prop :=
  ∀ m reqs, p.msg = .preprepare m reqs → ∀ i req, (reqs.take m.batchSize)[i]? = some req →
    At g (m.opNumber + i) req

theorem At.mono {k : Nat} {req : Request} (h : At g k req) (hg : g.requests <+: g'.requests) :
    At g' k req := ⟨h.1, getElem?_mono hg h.2⟩

/-- What holds of a replica other than the primary stays true when the primary's log grows. -/
theorem Running.mono (h : Running g r s) (hr : r ≠ 0) (hg : g.requests <+: g'.requests) :
    Running g' r s :=
  ⟨h.view, h.timer, h.log.trans hg, fun x hx => (h.buffered x hx).mono hg, h.committed, h.executed,
    fun h0 => (hr h0).elim⟩

/-- The invariant of the group, with the primary's log as its ghost. -/
def invariant : Net.GhostInvariant Replica Message History where
  running := Running
  halted := Running
  packet := GoodPacket
  advances r g g' := g.requests <+: g'.requests ∧ (r ≠ 0 → g' = g)
  refl _ g := ⟨List.prefix_refl _, fun _ => rfl⟩
  trans h h' := ⟨h.1.trans h'.1, fun hr => (h'.2 hr).trans (h.2 hr)⟩
  running_mono {r g g' x s} h hx hs := by
    by_cases hr : r = 0
    · exact hs.mono (fun h0 => hx (h0.trans hr.symm)) h.1
    · rw [h.2 hr]
      exact hs
  halted_mono {r g g' x s} h hx hs := by
    by_cases hr : r = 0
    · exact hs.mono (fun h0 => hx (h0.trans hr.symm)) h.1
    · rw [h.2 hr]
      exact hs
  packet_mono h hp m reqs hm i req hi := (hp m reqs hm i req hi).mono h.1

/-! ### What keeps it -/

/-- What changes neither the contents of the log nor what has been executed. -/
theorem Running.same (h : Running g r s) (hview : s'.viewNumber = s.viewNumber)
    (htimer : s'.timerStarted = s.timerStarted) (hlog : s'.log.contents = s.log.contents) (hop : s'.opNumber = s.opNumber)
    (hbuffer : s'.requestBuffer = s.requestBuffer) (hbatch : s'.requestBatch = s.requestBatch)
    (hcommit : s'.commitNumber = s.commitNumber) (hexec : s'.upcalls = s.upcalls)
    (hknown : ∀ c, s.clientTable c ≠ none → s'.clientTable c ≠ none) : Running g r s' := by
  refine ⟨hview.trans h.view, htimer ▸ h.timer, hlog ▸ h.log, hbuffer ▸ h.buffered, ?_, ?_, fun h0 => ?_⟩
  · rw [hlog, hcommit]
    exact h.committed
  · rw [Replica.executed, hexec, hlog, hcommit]
    exact h.executed
  · have hl := h.leads h0
    refine ⟨hlog.trans hl.log, hop.trans hl.opNumber, ?_, fun x hx => hknown _ (hl.known x hx)⟩
    rw [hbatch]
    exact hl.batch

theorem Running.setStatus (h : Running g r s) (k : Nat) (st : LogEntryState) :
    Running g r { s with log := s.log.setStatus k st } :=
  h.same rfl rfl (Log.contents_setStatus ..) rfl rfl rfl rfl rfl fun _ h => h

theorem Running.setClient (h : Running g r s) (c : Nat) (entry : ClientEntry) :
    Running g r (s.setClient c entry) := by
  refine h.same rfl rfl rfl rfl rfl rfl rfl rfl fun i hi => ?_
  by_cases hic : i = c
  · subst hic
    simp [Replica.setClient]
  · simpa [Replica.setClient, hic] using hi

/-- A backup appends what the primary has there. -/
theorem Running.appended (hr : r ≠ 0) (h : Running g r s) {k : Nat} {req : Request} (hreq : At g k req)
    (hs' : Appended E s k req s') : Running g r s' := by
  have hk := hs'.opNumber
  have hcontents := hs'.contents
  obtain ⟨log, -, rfl⟩ := hs'
  rw [h.view] at hcontents
  obtain ⟨t, ht⟩ := h.log
  have hnext : t.head? = some (0, req) := by
    have hat := hreq.2
    rw [hk, Nat.add_sub_cancel, ← ht, ← Log.length_contents, List.getElem?_append_right le_rfl,
      Nat.sub_self] at hat
    rwa [List.head?_eq_getElem?]
  obtain ⟨t', rfl⟩ := List.head?_eq_some_iff.mp hnext
  refine ⟨h.view, h.timer, ?_, h.buffered, ?_, ?_, fun h0 => (hr h0).elim⟩
  · rw [hcontents, ← ht]
    exact ⟨t', by simp⟩
  · rw [hcontents, List.length_append]
    exact Nat.le_add_right_of_le h.committed
  · rw [hcontents, take_opnumbered_mono (List.prefix_append ..) h.committed]
    exact h.executed

/-- The next entry is executed. -/
theorem Running.execute (h : Running g r s) {e : LogEntry} (he : s.log.find (s.commitNumber + 1) = some e) :
    Running g r { s with
      commitNumber := s.commitNumber + 1
      upcalls := s.upcalls ++ [.execute (s.commitNumber + 1) e.request] } := by
  obtain ⟨-, hfind⟩ := Log.find_eq_some.mp he
  have hat : s.log.contents[s.commitNumber]? = some e.content := by
    rw [Log.contents, List.getElem?_map, ← Nat.add_sub_cancel (n := s.commitNumber) (m := 1), hfind]
    rfl
  refine ⟨h.view, h.timer, h.log, h.buffered, (List.getElem?_eq_some_iff.mp hat).1, ?_, fun h0 => ?_⟩
  · have hexec := h.executed
    rw [Replica.executed] at hexec
    rw [Replica.executed, executions_append, take_opnumbered_succ hat, hexec]
    rfl
  · exact ⟨(h.leads h0).log, (h.leads h0).opNumber, (h.leads h0).batch, (h.leads h0).known⟩

/-! ### What is sent -/

/-- The output is no Preprepare. -/
def NoPreprepare (x : Output) : Prop := ∀ n r m reqs, ∀ p ∈ Net.packets n r x, p.msg ≠ .preprepare m reqs

theorem noPreprepare_toClient (a : Addr) (m : Reply) : NoPreprepare (.toClient a m) :=
  fun _ _ _ _ _ hp => by cases hp

theorem noPreprepare_toAll {m : Message} (hm : ∀ p reqs, m ≠ .preprepare p reqs) :
    NoPreprepare (.toAll m) := by
  intro n r m' reqs p hp
  obtain ⟨i, -, rfl⟩ := List.mem_map.mp hp
  exact hm m' reqs

theorem noPreprepare_toReplica {i : Nat} {m : Message} (hm : ∀ p reqs, m ≠ .preprepare p reqs) :
    NoPreprepare (.toReplica i m) := by
  intro n r m' reqs p hp
  rw [List.mem_singleton.mp hp]
  exact hm m' reqs

theorem emits_insertPrepare (m : Prepare) : Emits NoPreprepare (insertPrepare E m) :=
  emits_get.bind fun _ => emits_modify.bind fun _ => emits_pure.ite (emits_abort.ite
    (emits_ofOption.bind fun _ => emits_modify.bind fun _ =>
      emits_emit (noPreprepare_toAll fun _ _ => Message.noConfusion)))

theorem emits_handlePreprepare (m : Prepare) (reqs : List Request) :
    Emits NoPreprepare (handlePreprepare E m reqs) :=
  emits_get.bind fun _ => emits_pure.ite (emits_abort.ite (emits_abort.ite (emits_pure.ite
    ((emits_storeRequests _ _).bind fun _ => (emits_insertPrepare m).bind fun _ => emits_get.bind fun _ =>
      (emits_emit (noPreprepare_toAll fun _ _ => Message.noConfusion)).when))))

theorem emits_handlePrepare (m : Prepare) : Emits NoPreprepare (handlePrepare E m) :=
  emits_get.bind fun _ => emits_pure.ite (emits_abort.ite ((emits_ofOption.bind fun _ =>
    emits_pure.ite (emits_insertPrepare m)).ite (emits_insertPrepare m)))

/-- A handler that keeps the primary's log and sends no Preprepare. -/
theorem spec_of_emits {n : Nat} {m : RHandler Unit} (hm : Emits NoPreprepare m)
    (h : Sat m s (fun _ s' _ => Running g r s') fun s' _ => Running g r s') :
    invariant.Spec n r g m s fun _ g' s' => Running g' r s' :=
  (h.and (hm s)).mono
    (fun _ _ _ h => ⟨g, invariant.refl r g, h.1, fun x hx p hp m reqs hm => (h.2 x hx n r m reqs p hp hm).elim⟩)
    fun _ _ h => ⟨g, invariant.refl r g, h.1, fun x hx p hp m reqs hm => (h.2 x hx n r m reqs p hp hm).elim⟩

/-! ### Prepares and Commits -/

theorem insertPrepare_keeps (h : Running g r s) (m : Prepare) :
    Sat (insertPrepare E m) s (fun _ s' _ => Running g r s') fun s' _ => Running g r s' := by
  have h₁ : Running g r { s with
      prepareQuorum := setQuorum s.prepareQuorum m.opNumber m.digest (s.prepares m) } :=
    h.same rfl rfl rfl rfl rfl rfl rfl rfl fun _ h => h
  simp only [insertPrepare, sat_bind, sat_get, sat_modify, sat_ite, sat_pure, sat_abort, sat_ofOption,
    sat_emit]
  exact ⟨fun _ => h₁, fun _ => ⟨fun _ => h₁, fun _ => ⟨fun _ _ => h₁.setStatus m.opNumber .prepared,
    fun _ => h₁⟩⟩⟩

theorem handlePrepare_keeps (h : Running g r s) (m : Prepare) :
    Sat (handlePrepare E m) s (fun _ s' _ => Running g r s') fun s' _ => Running g r s' := by
  simp only [handlePrepare, sat_bind, sat_get, sat_ite, sat_pure, sat_abort, sat_ofOption]
  exact ⟨fun _ => h, fun _ => ⟨fun _ => h, fun _ => ⟨fun _ => ⟨fun _ _ => ⟨fun _ => h, fun _ =>
    insertPrepare_keeps h m⟩, fun _ => h⟩, fun _ => insertPrepare_keeps h m⟩⟩⟩

theorem handlePreprepare_keeps (hE : E.replicaIdx = r) (h : Running g r s) {m : Prepare}
    {reqs : List Request} (hreqs : ∀ i req, reqs[i]? = some req → At g (m.opNumber + i) req) :
    Sat (handlePreprepare E m reqs) s (fun _ s' _ => Running g r s') fun s' _ => Running g r s' := by
  simp only [handlePreprepare, sat_bind, sat_get, sat_ite, sat_pure, sat_abort]
  refine ⟨fun _ => h, fun _ => ⟨fun _ => h, fun _ => ⟨fun _ => h, fun hno => ⟨fun _ => h, fun _ => ?_⟩⟩⟩⟩
  have hr : r ≠ 0 := by
    rintro rfl
    rw [isPrimary, h.view, Configuration.getLeaderIndex, Nat.zero_mod] at hno
    exact hno hE.symm
  refine (storeRequests_spec (Running g r) (At g) (fun hs hreq hs' => hs.appended hr hreq hs')
    (fun hs hb => ⟨hs.view, hs.timer, hs.log, hb, hs.committed, hs.executed, fun h0 => (hr h0).elim⟩)
    (fun hs => hs.buffered) h reqs m.opNumber hreqs).mono (fun _ s₁ _ h₁ => ?_) fun _ _ h => h
  refine (insertPrepare_keeps h₁ m).mono (fun _ s₂ _ h₂ => ?_) fun _ _ h => h
  simp only [sat_when, sat_emit]
  exact ⟨fun _ => h₂, fun _ => h₂⟩

theorem commitBatch_keeps : ∀ (n k : Nat) {s : Replica}, Running g r s →
    Sat (commitBatch k n) s (fun _ s' _ => Running g r s') fun s' _ => Running g r s'
  | 0, _, _, h => h
  | n + 1, k, s, h => by
      simp only [commitBatch, sat_bind, sat_get, sat_ofOption, sat_modify]
      exact ⟨fun _ _ => commitBatch_keeps n (k + 1) (h.setStatus k .committed), fun _ => h⟩

theorem executeLoop_keeps : ∀ (n : Nat) {s : Replica}, Running g r s →
    Sat (executeLoop E n) s (fun _ s' _ => Running g r s') fun s' _ => Running g r s'
  | 0, _, h => h
  | n + 1, s, h => by
      simp only [executeLoop, executeNext, sat_bind, sat_get, sat_whenSome, sat_when, sat_modify,
        sat_ofOption, sat_emit]
      refine ⟨fun e he => ⟨fun _ => ⟨fun c _ => ?_, fun _ => h.execute he⟩, fun _ => h⟩, fun _ => h⟩
      exact executeLoop_keeps n ((h.execute he).setClient _ _)

theorem insertCommit_keeps (h : Running g r s) (m : Commit) :
    Sat (insertCommit E m) s (fun _ s' _ => Running g r s') fun s' _ => Running g r s' := by
  have h₁ : Running g r { s with
      commitQuorum := setQuorum s.commitQuorum m.opNumber m.digest (s.commits m) } :=
    h.same rfl rfl rfl rfl rfl rfl rfl rfl fun _ h => h
  simp only [insertCommit, sat_bind, sat_get, sat_modify, sat_ite, sat_pure, sat_abort]
  refine ⟨fun _ => h₁, fun _ => ⟨fun _ => h₁, fun _ => ?_⟩⟩
  exact (commitBatch_keeps _ _ h₁).mono (fun _ _ _ h₂ => executeLoop_keeps _ h₂) fun _ _ h => h

theorem handleCommit_keeps (h : Running g r s) (m : Commit) :
    Sat (handleCommit E m) s (fun _ s' _ => Running g r s') fun s' _ => Running g r s' := by
  simp only [handleCommit, sat_bind, sat_get, sat_ite, sat_pure, sat_abort, sat_ofOption]
  exact ⟨fun _ => h, fun _ => ⟨fun _ => h, fun _ => ⟨fun _ => ⟨fun _ _ => ⟨fun _ => h, fun _ =>
    insertCommit_keeps h m⟩, fun _ => h⟩, fun _ => insertCommit_keeps h m⟩⟩⟩

/-! ### Requests -/

/-- One more request, which has not been there. -/
def History.push (g : History) (req : Request) (h : ∀ x ∈ g.requests, key x.2 ≠ key req) : History where
  requests := g.requests ++ [(0, req)]
  once := by
    rw [List.map_append, List.nodup_append]
    refine ⟨g.once, List.nodup_singleton _, fun a ha b hb => ?_⟩
    obtain ⟨x, hx, rfl⟩ := List.mem_map.mp ha
    rw [List.map_singleton, List.mem_singleton] at hb
    rw [hb]
    exact h x hx

/-- The primary has logged the request and put it into the batch. -/
theorem Running.queued (h : Running g 0 s) {req : Request} (hfresh : ∀ x ∈ g.requests, key x.2 ≠ key req)
    (hview : s'.viewNumber = 0) (hlog : s'.log.contents = s.log.contents ++ [(0, req)])
    (hop : s'.opNumber = s.opNumber + 1) (hbuffer : s'.requestBuffer = s.requestBuffer)
    (hbatch : s'.requestBatch = s.requestBatch ++ [req]) (hcommit : s'.commitNumber = s.commitNumber)
    (hexec : s'.upcalls = s.upcalls) (hknown : ∀ c, s.clientTable c ≠ none → s'.clientTable c ≠ none)
    (hclient : s'.clientTable req.clientid ≠ none) : Running (g.push req hfresh) 0 s' := by
  have hl := h.leads rfl
  have hlen : s.requestBatch.length ≤ g.requests.length := by
    have hbatch := congrArg List.length hl.batch
    rw [List.length_map, List.length_drop] at hbatch
    omega
  refine ⟨hview, fun _ => rfl, ?_, ?_, ?_, ?_, fun _ => ⟨?_, ?_, ?_, fun x hx => ?_⟩⟩
  · rw [hlog, hl.log]
    exact List.prefix_rfl
  · rw [hbuffer]
    exact fun x hx => (h.buffered x hx).mono (List.prefix_append ..)
  · rw [hlog, hcommit, List.length_append]
    exact Nat.le_add_right_of_le h.committed
  · rw [Replica.executed, hexec, hlog, hcommit, take_opnumbered_mono (List.prefix_append ..) h.committed]
    exact h.executed
  · rw [hlog, hl.log]
    rfl
  · rw [hop, hl.opNumber]
    simp [History.push]
  · have hlast : (g.requests ++ [((0 : Nat), req)]).length - (s.requestBatch ++ [req]).length =
        g.requests.length - s.requestBatch.length := by
      rw [List.length_append, List.length_append, List.length_singleton, List.length_singleton]
      omega
    rw [hbatch, History.push, hlast, List.drop_append_of_le_length (Nat.sub_le ..), List.map_append, hl.batch]
    rfl
  · rcases List.mem_append.mp hx with hx | hx
    · exact hknown _ (hl.known x hx)
    · rw [List.mem_singleton.mp hx]
      exact hclient

theorem closeBatch_spec {n : Nat} (h : Running g 0 s) :
    invariant.Spec n 0 g (closeBatch E) s fun _ g' s' => Running g' 0 s' := by
  have hl := h.leads rfl
  have h₁ : Running g 0 { s with timerActive := false } := h.same rfl rfl rfl rfl rfl rfl rfl rfl fun _ h => h
  rw [closeBatch, spec_modify_bind, spec_get_bind, spec_assert_bind]
  refine ⟨fun _ => Spec.emit_bind (fun p hp m reqs hm i req hi => ?_) (spec_modify.mpr (Ends.same ?_)),
    fun _ => Ends.same h₁⟩
  · obtain ⟨j, -, rfl⟩ := List.mem_map.mp hp
    cases hm
    have hi : s.requestBatch[i]? = some req := by
      rw [List.getElem?_take] at hi
      split_ifs at hi
      exact hi
    have hat := congrArg (fun l : List (Nat × Request) => l[i]?) hl.batch
    rw [List.getElem?_map, hi, List.getElem?_drop] at hat
    refine ⟨Nat.le_add_right_of_le (Nat.le_add_left ..), ?_⟩
    have hpos : s.opNumber - s.requestBatch.length + 1 + i - 1 =
        g.requests.length - s.requestBatch.length + i := by
      rw [hl.opNumber]
      omega
    rw [Replica.prepare, hpos]
    exact hat.symm
  · refine ⟨h.view, h.timer, h.log, h.buffered, h.committed, h.executed, fun _ => ⟨hl.log, hl.opNumber, ?_, hl.known⟩⟩
    simp

theorem queueRequest_spec {n : Nat} (h : Running g 0 s) {req : Request}
    (hfresh : ∀ x ∈ g.requests, key x.2 ≠ key req) (entry : ClientEntry) :
    invariant.Spec n 0 g (queueRequest E req entry) s fun _ g' s' => Running g' 0 s' := by
  have hl := h.leads rfl
  have hlen : s.log.entries.length = g.requests.length := by rw [← Log.length_contents, hl.log]
  have hadv : invariant.advances 0 g (g.push req hfresh) := ⟨List.prefix_append .., fun h0 => (h0 rfl).elim⟩
  rw [queueRequest, spec_modify_bind, spec_get_bind]
  refine Spec.bind (J := fun _ g' s' => g' = g ∧
    Appended E { s with opNumber := s.opNumber + 1 } (s.opNumber + 1) req s') ?_ fun _ g' s₁ _ hs₁ => ?_
  · refine ((append_spec (s.opNumber + 1) req _).and (emits_append (P := NoPreprepare) _ _ _)).mono
      (fun _ s' _ hs' => ?_) fun s' _ hs' => ?_
    · exact ⟨g, invariant.refl 0 g, ⟨rfl, hs'.1⟩, fun x hx p hp m reqs hm =>
        (hs'.2 x hx n 0 m reqs p hp hm).elim⟩
    · refine (hs'.1.2 ?_).elim
      rw [hl.opNumber]
      exact congrArg (· + 1) hlen.symm
  · obtain ⟨rfl, hs₁⟩ := hs₁
    have hcontents := hs₁.contents
    obtain ⟨log, -, rfl⟩ := hs₁
    rw [spec_modify_bind, spec_modify_bind, spec_get_bind]
    refine Spec.advance hadv ?_
    have hq : Running (g'.push req hfresh) 0 { (Replica.setClient { s with
        opNumber := s.opNumber + 1
        log := log } req.clientid { entry with requestNumber := req.clientreqid, reply := none }) with
        requestBatch := s.requestBatch ++ [req]
        timerActive := true
        timerStarted := true } := by
      refine h.queued hfresh h.view ?_ rfl rfl rfl rfl rfl (fun c hc => ?_) ?_
      · have hlog : log.contents = s.log.contents ++ [(0, req)] := by simpa only [h.view] using hcontents
        exact hlog
      · by_cases hic : c = req.clientid
        · subst hic
          simp [Replica.setClient]
        · simpa [Replica.setClient, hic] using hc
      · simp [Replica.setClient]
    exact spec_when.mpr ⟨fun _ => closeBatch_spec hq, fun _ => Ends.same hq⟩

/-- The client table of the primary is not behind its log for a request that it lets through. -/
def NotBehind (s : Replica) (req : Request) : Prop :=
  ∀ entry ∈ s.clientTable req.clientid, entry.requestNumber < req.clientreqid →
    ∀ e ∈ s.log.entries, e.request.clientid = req.clientid → e.request.clientreqid < req.clientreqid

/-- A request that it lets through is not in its log. -/
def NotLogged (s : Replica) (req : Request) : Prop :=
  ∀ entry ∈ s.clientTable req.clientid, entry.requestNumber < req.clientreqid →
    ∀ e ∈ s.log.entries, key e.request ≠ key req

theorem NotBehind.notLogged {req : Request} (h : NotBehind s req) : NotLogged s req := by
  intro entry hentry hlt e he hkey
  obtain ⟨hc, hi⟩ := Prod.mk.inj hkey
  exact absurd (h entry hentry hlt e he hc) (by rw [← hi]; exact lt_irrefl _)

theorem isPrimary_iff (hE : E.replicaIdx = r) (h : Running g r s) : isPrimary E s ↔ r = 0 := by
  rw [isPrimary, h.view, Configuration.getLeaderIndex, Nat.zero_mod, hE]
  exact eq_comm

theorem handleNewRequest_spec {n : Nat} (hE : E.replicaIdx = r) (h : Running g r s) {req : Request}
    (hfresh : r = 0 → ∀ x ∈ g.requests, key x.2 ≠ key req) (entry : ClientEntry) :
    invariant.Spec n r g (handleNewRequest E req entry) s fun _ g' s' => Running g' r s' := by
  rw [handleNewRequest, spec_get_bind, spec_ite, isPrimary_iff hE h]
  refine ⟨fun _ => spec_of_emits ?_ ?_, fun h0 => ?_⟩
  · exact (emits_emit (noPreprepare_toReplica fun _ _ => Message.noConfusion)).when
  · exact sat_when.mpr ⟨fun _ => h, fun _ => h⟩
  · obtain rfl : r = 0 := not_not.mp h0
    exact queueRequest_spec h (hfresh rfl) entry

/-- A client that the primary knows nothing of has nothing in its log. -/
theorem fresh_of_unknown (h : Running g 0 s) {req : Request} (hno : s.clientTable req.clientid = none) :
    ∀ x ∈ g.requests, key x.2 ≠ key req := by
  intro x hx hkey
  refine (h.leads rfl).known x hx ?_
  rw [(Prod.mk.inj hkey).1]
  exact hno

theorem fresh_of_notLogged (h : Running g 0 s) {req : Request} (hreq : NotLogged s req)
    {entry : ClientEntry} (hentry : s.clientTable req.clientid = some entry)
    (hlt : entry.requestNumber < req.clientreqid) : ∀ x ∈ g.requests, key x.2 ≠ key req := by
  intro x hx
  rw [← (h.leads rfl).log] at hx
  obtain ⟨e, he, rfl⟩ := List.mem_map.mp hx
  exact hreq entry hentry hlt e he

theorem handleRequest_spec {n : Nat} (hE : E.replicaIdx = r) (h : Running g r s) {req : Request}
    (hreq : r = 0 → NotLogged s req) (remote : Addr) :
    invariant.Spec n r g (handleRequest E remote req) s fun _ g' s' => Running g' r s' := by
  rw [handleRequest, spec_get_bind]
  cases hst : s.standing req with
  | late => exact spec_pure.mpr (Ends.same h)
  | again entry =>
    refine spec_of_emits (Emits.whenSome fun m => emits_emit (noPreprepare_toClient _ _)) ?_
    exact sat_whenSome.mpr ⟨fun _ _ => h, fun _ => h⟩
  | next entry =>
    refine handleNewRequest_spec hE h (fun h0 => ?_) entry
    subst h0
    rw [Replica.standing] at hst
    split at hst
    · cases hst
    · rename_i entry' hentry
      split_ifs at hst with hlt heq
      cases hst
      exact fresh_of_notLogged h (hreq rfl) hentry (by omega)
  | unknown =>
    simp only [spec_ite]
    refine ⟨fun _ => spec_abort.mpr (Ends.same h), fun _ => spec_modify_bind.mpr ?_⟩
    refine handleNewRequest_spec hE (h.setClient _ _) (fun h0 => ?_) _
    subst h0
    rw [Replica.standing] at hst
    split at hst
    · rename_i hno
      exact fresh_of_unknown h hno
    · split_ifs at hst

/-! ### Runs -/

variable {G : Group}

/-- Nothing comes from outside but requests, and one that reaches the primary finds its table up to date. -/
def UpToDate (s : Sys) : Event → Prop
  | .client r _ (.request req) => r = 0 → NotBehind (s.replica 0) req
  | .client _ _ _ => False
  | .deliver i => ∀ p ∈ s.net[i]?, ∀ req, p.msg = .request req → p.dst = 0 → NotBehind (s.replica 0) req
  | .timeout _ _ => True

/-- Nothing comes from outside but requests, and one that the primary lets through is not in its log. -/
def NoneTwice (s : Sys) : Event → Prop
  | .client r _ (.request req) => r = 0 → NotLogged (s.replica 0) req
  | .client _ _ _ => False
  | .deliver i => ∀ p ∈ s.net[i]?, ∀ req, p.msg = .request req → p.dst = 0 → NotLogged (s.replica 0) req
  | .timeout _ _ => True

theorem UpToDate.noneTwice {s : Sys} : ∀ {e : Event}, UpToDate s e → NoneTwice s e
  | .client _ _ (.request _), h => fun h0 => (h h0).notLogged
  | .deliver _, h => fun p hp req hm h0 => (h p hp req hm h0).notLogged
  | .timeout _ _, _ => trivial

theorem receiveMessage_spec {n : Nat} (h : Running g r s) {m : Message}
    (hm : ∀ p reqs, m = .preprepare p reqs → ∀ i req, (reqs.take p.batchSize)[i]? = some req →
      At g (p.opNumber + i) req)
    (hreq : ∀ req, m = .request req → r = 0 → NotLogged s req) (remote : Addr) :
    invariant.Spec n r g (receiveMessage (G.env r) remote m) s fun _ g' s' => Running g' r s' := by
  cases m with
  | request req => exact handleRequest_spec rfl h (hreq req rfl) remote
  | preprepare p reqs =>
    refine spec_of_emits (emits_abort.ite (emits_handlePreprepare _ _)) ?_
    exact sat_ite.mpr ⟨fun _ => h, fun _ => handlePreprepare_keeps rfl h (hm p reqs rfl)⟩
  | prepare p => exact spec_of_emits (emits_handlePrepare p) (handlePrepare_keeps h p)
  | commit m => exact spec_of_emits (emits_handleCommit noPreprepare_toClient m) (handleCommit_keeps h m)

/-- At the start. -/
theorem holds_initial : invariant.Holds G.config.n ⟨[], List.nodup_nil⟩ (Net.Sys.initial G.protocol) where
  running _ _ _ := ⟨rfl, (fun ht => by cases ht), List.prefix_rfl, (fun _ hx => by cases hx), le_rfl, rfl,
    fun _ => ⟨rfl, rfl, rfl, fun _ hx => by cases hx⟩⟩
  halted _ _ hs := by cases hs
  packet _ hp := by cases hp

/-- In every run whose steps are of this kind. -/
theorem holds_of_run {past : List Sys} {s : Sys} (hr : Run G.system (fun s e => NoneTwice s e) past s) :
    ∃ g, invariant.Holds G.config.n g s := by
  refine hr.invariant (I := fun _ s => ∃ g, invariant.Holds G.config.n g s) ⟨_, holds_initial⟩ ?_
  rintro _ s e s' _ ⟨g, h⟩ hc hst
  obtain ⟨r, m, hm, hr, hlive, rfl⟩ := Net.Sys.step_eq_some hst
  have hrun := h.running r hr hlive
  suffices hspec : invariant.Spec G.config.n r g m (s.replica r) fun _ g' t => Running g' r t by
    obtain ⟨g', -, h'⟩ := Net.GhostInvariant.step h hspec
    exact ⟨g', h'⟩
  rcases Net.Event.of_handler hm with ⟨c, k, rfl, rfl⟩ | ⟨i, p, rfl, hp, rfl, rfl⟩ | ⟨t, rfl, hact, rfl⟩
  · cases k with
    | request req =>
      refine receiveMessage_spec (m := .request req) hrun (fun p reqs hm => by cases hm) (fun req' hm h0 => ?_) _
      cases hm
      subst h0
      exact hc rfl
    | preprepare p reqs => exact hc.elim
    | prepare p => exact hc.elim
    | commit m => exact hc.elim
  · refine receiveMessage_spec hrun (h.packet p (List.mem_of_getElem? hp)) (fun req hm h0 => ?_) _
    rw [h0]
    exact hc p hp req hm h0
  · obtain rfl : r = 0 := hrun.timer hact
    exact closeBatch_spec hrun

/-- The requests that an in-order execution has gone through, which are of a log without repetitions. -/
theorem Running.once (h : Running g r s) : (s.executed.map fun x => key x.2).Nodup := by
  have hkeys : ∀ l : List (Nat × Request), (opnumbered l).map (fun x => key x.2) = l.map fun x => key x.2 := by
    intro l
    refine List.ext_getElem? fun i => ?_
    rw [List.getElem?_map, getElem?_opnumbered, List.getElem?_map, Option.map_map]
    rfl
  rw [h.executed, take_opnumbered, hkeys]
  have hsub : s.log.contents.take s.commitNumber <+: g.requests := (List.take_prefix ..).trans h.log
  exact g.once.sublist (hsub.sublist.map _)

/-- In every run in which the primary's client table is up to date for what it lets through, no replica
    executes a request twice. -/
theorem executes_once {past : List Sys} {s : Sys} (hr : Run G.system (fun s e => UpToDate s e) past s)
    {r : Nat} (hrn : r < G.config.n) : ((s.replica r).executed.map fun x => key x.2).Nodup := by
  obtain ⟨g, h⟩ := holds_of_run (hr.weaken fun _ _ h => h.noneTwice)
  cases hstop : s.stopped r with
  | false => exact (h.running r hrn hstop).once
  | true => exact (h.halted r hrn hstop).once

instance (s : Replica) (req : Request) : Decidable (NotBehind s req) := by
  unfold NotBehind
  infer_instance

instance (s : Sys) : ∀ e, Decidable (UpToDate s e)
  | .client r _ (.request req) => inferInstanceAs (Decidable (r = 0 → NotBehind (s.replica 0) req))
  | .client _ _ (.preprepare _ _) | .client _ _ (.prepare _) | .client _ _ (.commit _) => isFalse id
  | .deliver i =>
    match h : s.net[i]? with
    | some ⟨_, dst, .request req⟩ =>
      decidable_of_iff (dst = 0 → NotBehind (s.replica 0) req) (by simp [UpToDate, h])
    | some ⟨_, _, .preprepare _ _⟩ | some ⟨_, _, .prepare _⟩ | some ⟨_, _, .commit _⟩ | none =>
      isTrue (by simp [UpToDate, h])
  | .timeout _ _ => isTrue trivial

/-- Four replicas, of which one may be faulty; a batch has one request. -/
def fourReplicas : Group where
  config := { n := 4, f := 1 }
  batchSize := 1
  app _ := .default
  sha1 h c i := (h.push (Char.ofNat (64 + c))).push (Char.ofNat (64 + i))

/-- The requests of one client. -/
def requestOf (i : Nat) : Request := { op := "", clientid := 5, clientreqid := i }

/-- The first request is executed by replicas 1 and 2. -/
def firstRequest : List Event :=
  [.client 0 5 (.request (requestOf 1)), .client 1 5 (.request (requestOf 1)),
    .client 2 5 (.request (requestOf 1)), .client 3 5 (.request (requestOf 1)),
    .deliver 0, .deliver 1, .deliver 2, .deliver 7, .deliver 4, .deliver 5,
    .deliver 16, .deliver 19, .deliver 13, .deliver 20]

theorem executes_once_first :
    ∃ s : Sys, (s.replica 1).executed = [(1, requestOf 1)] ∧
      ((s.replica 1).executed.map fun x => key x.2).Nodup := by
  obtain ⟨past, s, hr, hs⟩ := Run.exists_of_exec fourReplicas.system (fun s e => UpToDate s e) firstRequest
    (fun s => (s.replica 1).executed = [(1, requestOf 1)]) (by decide +kernel)
  exact ⟨s, of_decide_eq_true hs, executes_once hr (by decide)⟩

/-- Clients send their requests one after the other: the next when enough replicas have executed the last,
    which have answered it then. -/
def OneOutstanding (G : Group) (s : Sys) : Event → Prop
  | .client _ c (.request req) => req.clientid = c ∧ 1 ≤ req.clientreqid ∧ (req.clientreqid = 1 ∨
      G.config.f + 1 ≤ ((List.range G.config.n).filter fun r =>
        (c, req.clientreqid - 1) ∈ (s.replica r).executed.map fun x => key x.2).length)
  | .client _ _ _ => False
  | _ => True

instance (G : Group) (s : Sys) : ∀ e, Decidable (OneOutstanding G s e)
  | .client _ c (.request req) => inferInstanceAs (Decidable (req.clientid = c ∧ 1 ≤ req.clientreqid ∧ _))
  | .client _ _ (.preprepare _ _) | .client _ _ (.prepare _) | .client _ _ (.commit _) => isFalse id
  | .deliver _ => isTrue trivial
  | .timeout _ _ => isTrue trivial

/-- The primary queues the second request, executes the first, and gets the second again. -/
def resent : List Event :=
  firstRequest ++ [.client 0 5 (.request (requestOf 2)), .deliver 12, .deliver 15,
    .client 0 5 (.request (requestOf 2)),
    .deliver 21, .deliver 22, .deliver 23, .deliver 24, .deliver 25, .deliver 26,
    .deliver 31, .deliver 28, .deliver 29, .deliver 40, .deliver 37, .deliver 38,
    .deliver 49, .deliver 52, .deliver 58, .deliver 61]

/-- The second request is executed twice. -/
theorem resent_executed_twice :
    ∃ past s, Run fourReplicas.system (OneOutstanding fourReplicas) past s ∧
      ¬ ((s.replica 1).executed.map fun x => key x.2).Nodup := by
  obtain ⟨past, s, hr, hs⟩ := Run.exists_of_exec fourReplicas.system (OneOutstanding fourReplicas) resent
    (fun s => ¬ ((s.replica 1).executed.map fun x => key x.2).Nodup) (by decide +kernel)
  exact ⟨past, s, hr, of_decide_eq_true hs⟩

end Dsnet.PBFT
