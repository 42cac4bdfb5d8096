import Dsnet.Granola.LeaderLog

/-! The handlers of the leaders keep the invariant of the shards. -/

namespace Dsnet.Granola
open Handler Transaction Ghost

variable {σ : Type} {S : Shards σ} {U : Prop} {g g' : History S U} {q : Nat} {s s' : Server σ}

/-- What the leader of shard `q` does to the ghost. -/
abbrev leaderGhost (S : Shards σ) (U : Prop) (q : Nat) : Ghost (History S U) (Server σ) Output :=
  (shardsInvariant S U).ghost (.replica q 0)

/-- A reply of shard `q` is good for its client. -/
theorem packetOk_reply {src : Node} {c k : Nat} {m : ReplyMessage} (hk : m.clientreqid = k)
    (hq : m.shardNum = q) (h : g.Replied q c k m.status) : PacketOk g ⟨src, .client c, .reply m⟩ := by
  subst hk hq
  exact h

/-- A message that is good for everyone it is sent to. -/
theorem sent_of {p : Node} {dsts : List Node} {m : Message}
    (h : ∀ dst ∈ dsts, PacketOk g ⟨p, dst, m⟩) : ((shardsInvariant S U).ghost p).sent g ⟨dsts, m⟩ := by
  intro y hy
  obtain ⟨dst, hd, rfl⟩ := List.mem_map.mp hy
  exact h dst hd

/-- A message that is good for the other replicas of the shard. -/
theorem sent_to_all {i : Nat} {m : Message} (h : ∀ j, PacketOk g ⟨.replica q i, .replica q j, m⟩) :
    ((shardsInvariant S U).ghost (.replica q i)).sent g ((S.serverEnv q i).toAll m) := by
  refine sent_of fun dst hd => ?_
  obtain ⟨j, -, rfl⟩ := List.mem_map.mp hd
  exact h j

/-- A message that is good for the replicas of some shards. -/
theorem sent_to_groups {i : Nat} {shards : List Nat} {m : Message}
    (h : ∀ p ∈ shards, ∀ j, PacketOk g ⟨.replica q i, .replica p j, m⟩) :
    ((shardsInvariant S U).ghost (.replica q i)).sent g ((S.serverEnv q i).toGroups shards m) := by
  refine sent_of fun dst hd => ?_
  obtain ⟨p, hp, hd⟩ := List.mem_flatMap.mp hd
  obtain ⟨j, -, rfl⟩ := List.mem_map.mp hd
  exact h p hp j

/-- What is known of a leader that is stopped depends on its log and its calls alone. -/
theorem LeaderSaid.congr (h : LeaderSaid g q s) (hlog : s'.log = s.log)
    (hmap : s'.clientReqMap = s.clientReqMap) (hup : s'.app.upcalls = s.app.upcalls)
    (happ : s'.app.Said (S.app q 0)) : LeaderSaid g q s' where
  log := h.log.same (by rw [Server.ops, hlog, Server.ops]) hmap
  own c k := by rw [h.own, Server.ownStatus, Server.ownStatus, hmap, hup]
  decided := hlog ▸ h.decided
  done := hlog ▸ h.done
  finished := by
    rw [hlog, hup]
    exact h.finished
  app := happ

/-- An entry is about what its client asks of some shards. -/
theorem LogOk.ask_of_mem (h : LogOk g q s) {e : GranolaLogEntry} (he : e ∈ s.log) :
    ∃ a, g.ask e.request.clientid e.request.clientreqid = some a ∧ q ∈ a.shards ∧
      e.txnData.txnid = a.txnid ∧ e.request.ops = a.ops := by
  obtain ⟨a, txn, ha, htxn, hid, -, hops⟩ := h.asked _ (Server.mem_ops he)
  exact ⟨a, ha, Ask.mem_shards htxn, hid, hops⟩

/-! ### Requests -/

/-- `SendPrepare`. -/
theorem sendPrepare_spec (h : LeaderOk g q s) :
    (leaderGhost S U q).Spec g (sendPrepare (S.serverEnv q 0)) s fun _ g' t => LeaderOk g' q t := by
  rw [sendPrepare, spec_get_bind, spec_ofOption_bind]
  refine ⟨fun e he => ?_, fun _ => .same h.toLeaderSaid⟩
  obtain ⟨i, -, hi, -⟩ := h.log.of_find he
  refine Ghost.Spec.emit_bind (sent_to_all fun j => (h.entries hi).view) ?_
  rw [spec_modify]
  exact .same (h.congr rfl)

/-- The entry that `UpdateClientTable` leaves for the client of a request. -/
def Server.updated (s : Server σ) (req : SequencedRequest) : ClientTableEntry :=
  let entry := (s.clientTable req.clientid).getD {}
  if entry.lastReqId = req.clientreqid then entry else { lastReqId := req.clientreqid }

@[simp] theorem lastReqId_updated (s : Server σ) (req : SequencedRequest) :
    (s.updated req).lastReqId = req.clientreqid := by
  simp only [Server.updated]
  split_ifs with h
  · exact h
  · rfl

/-- `UpdateClientTable`. -/
theorem updateClientTable_spec {R : Ghost (History S U) (Server σ) Output} {req : SequencedRequest}
    (h : R.halted g s) :
    R.Spec g (updateClientTable req) s fun _ g' t => g = g' ∧ t = { s with
      clientTable := Function.update s.clientTable req.clientid (some (s.updated req)) } := by
  rw [updateClientTable, spec_get_bind, spec_assert_bind, spec_modify]
  exact ⟨fun _ => .same ⟨rfl, rfl⟩, fun _ => .same h⟩

/-- In locking mode nothing is pending. -/
theorem spec_insertPending_bind {R : Ghost (History S U) (Server σ) Output} {E : ServerEnv σ} {α : Type}
    {k : Unit → ServerHandler σ α} {J : α → History S U → Server σ → Prop} (hE : E.locking = true)
    (opnum timestamp : Nat) :
    R.Spec g (insertPending E opnum timestamp >>= k) s J ↔ R.Spec g (k ()) s J := by
  rw [insertPending, Handler.when, if_neg (by simp [hE]), spec_pure_bind]

/-- `GranolaLog::Append`, of the next entry. -/
theorem append_spec {R : Ghost (History S U) (Server σ) Output} {e : GranolaLogEntry}
    (hn : e.opnum = lastOpnum (fun e => e.opnum) s.log + 1) :
    R.Spec g (append e) s fun _ g' t => g = g' ∧ t = { s with
      clientReqMap := Function.update s.clientReqMap e.reqId (some e.opnum), log := s.log ++ [e] } := by
  rw [append, spec_modify_bind, spec_get_bind, spec_assert_of hn, spec_modify]
  exact .same ⟨rfl, rfl⟩

/-- The client table after `UpdateClientTable`. -/
theorem LeaderOk.updated (h : LeaderOk g q s) {req : SequencedRequest}
    (hnew : ∀ y ∈ s.ops, y.request.clientid = req.clientid → y.request.clientreqid < req.clientreqid) :
    LeaderOk g q { s with
      clientTable := Function.update s.clientTable req.clientid (some (s.updated req)) } := by
  have hlt : ∀ e ∈ s.log, e.request.clientid = req.clientid → e.request.clientreqid < req.clientreqid :=
    fun e he hc => hnew _ (Server.mem_ops he) hc
  refine h.table (fun e he hc => ?_) (fun e he _ hc hk => ?_) fun hr => ?_
  · rw [lastReqId_updated]
    exact (hlt e he hc).le
  · rw [lastReqId_updated] at hk
    exact absurd (hlt e he hc) (by omega)
  · simp only [Server.updated] at hr ⊢
    cases ht : s.clientTable req.clientid with
    | none =>
      simp only [ht, Option.getD_none] at hr
      split_ifs at hr
    | some e =>
      simp only [ht, Option.getD_some] at hr ⊢
      split_ifs at hr ⊢
      exact h.replied ht hr

/-- `HandleClientRequest`, for a request that is new to the leader. -/
theorem logRequest_spec (hE : S.locking = true) (h : LeaderOk g q s) {txnid : Nat} {req : SequencedRequest}
    (indep ro : Bool) (hx : g.Asked q txnid req)
    (hnew : ∀ y ∈ s.ops, y.request.clientid = req.clientid → y.request.clientreqid < req.clientreqid) :
    (leaderGhost S U q).Spec g (logRequest (S.serverEnv q 0) txnid indep ro req) s
      fun _ g' t => LeaderOk g' q t := by
  rw [logRequest]
  refine Ghost.Spec.bind (updateClientTable_spec h.toLeaderSaid) ?_
  rintro _ _ _ _ ⟨rfl, rfl⟩
  rw [spec_modify_bind, spec_get_bind, spec_insertPending_bind hE]
  have h₁ := h.updated hnew
  let e : GranolaLogEntry :=
    { viewstamp := { view := s.view, opnum := s.lastOp + 1 }, state := .prepared, request := req
      txnData := newTxnData txnid indep ro (s.localClock + 1) req }
  have hop : e.opnum = s.log.length + 1 := congrArg (· + 1) h.lastOp
  refine Ghost.Spec.bind (append_spec (e := e) ?_) ?_
  · rw [hop]
    exact congrArg (· + 1) h.log.lastOpnum_eq.symm
  rintro _ _ _ _ ⟨rfl, rfl⟩
  have h₂ := h₁.logged (e := e) hx hop h.view rfl (by simp [e, newTxnData]) hnew
    ⟨s.updated req, by simp [e], by simp [e]⟩
  have h₃ : LeaderOk g q { s with
      clientTable := Function.update s.clientTable req.clientid (some (s.updated req))
      lastOp := s.lastOp + 1
      localClock := s.localClock + 1
      clientReqMap := Function.update s.clientReqMap e.reqId (some e.opnum)
      log := s.log ++ [e] } := by
    refine h₂.congr ?_
    simp only [Server.kept, h.lastOp]
  refine Ghost.Spec.bind (J := fun _ g' t => LeaderOk g' q t) ?_ fun _ _ _ _ h' => sendPrepare_spec h'
  rw [spec_when, spec_modify]
  refine ⟨fun _ => .same ?_, fun _ => .same h₃⟩
  obtain ⟨a, txn, ha, -, -, -, hops⟩ := hx
  exact h₃.setRequired ha (by rw [hops, Ask.length_ops])

/-- `HandleClientRequest`. -/
theorem handleClientRequest_spec (hE : S.locking = true) (h : LeaderOk g q s) {txnid : Nat}
    {req : SequencedRequest} (indep ro : Bool) (hx : g.Asked q txnid req) :
    (leaderGhost S U q).Spec g
      (handleClientRequest (S.serverEnv q 0) (.client req.clientid) txnid indep ro req) s
      fun _ g' t => LeaderOk g' q t := by
  rw [handleClientRequest, spec_modify_bind, spec_get_bind, spec_when]
  have h' : LeaderOk g q { s with
      clientAddresses := Function.update s.clientAddresses req.clientid
        (some ((s.clientAddresses req.clientid).getD (.client req.clientid))) } := by
    refine { h with
      log := h.log.same rfl rfl
      own := h.own
      addresses := fun {c addr} ha => ?_ }
    by_cases hc : c = req.clientid
    · subst hc
      simp only [Function.update_self] at ha
      cases ht : s.clientAddresses req.clientid with
      | none => simpa [ht, eq_comm] using ha
      | some addr' => simpa [ht, h.addresses ht, eq_comm] using ha
    · simp only [Function.update_of_ne hc] at ha
      exact h.addresses ha
  refine ⟨fun _ => ?_, fun _ => .same h'⟩
  cases ht : s.clientTable req.clientid with
  | none =>
    refine logRequest_spec hE h' indep ro hx fun y hy hc => ?_
    obtain ⟨e, he, rfl⟩ := List.mem_map.mp hy
    obtain ⟨cte, hcte, _⟩ := h.covers e he
    have hc' : e.request.clientid = req.clientid := hc
    rw [hc', ht] at hcte
    cases hcte
  | some cte =>
    simp only [spec_ite, spec_when, spec_pure, spec_emit]
    refine ⟨fun _ => .same h', fun hge => ⟨fun heq => ⟨fun hrep => ?_, fun _ => .same h'⟩, fun hne => ?_⟩⟩
    · refine .sends h' (sent_of fun dst hd => ?_)
      rw [List.mem_singleton.mp hd]
      obtain ⟨hid, hsh, hrep⟩ := h.replied ht hrep
      exact packetOk_reply hid hsh hrep
    · refine logRequest_spec hE h' indep ro hx fun y hy hc => ?_
      obtain ⟨e, he, rfl⟩ := List.mem_map.mp hy
      have hle : e.logged.request.clientreqid ≤ cte.lastReqId := h.le_lastReqId he hc ht
      omega

/-! ### Executing -/

/-- `Execute`. -/
theorem execute_spec {R : Ghost (History S U) (Server σ) Output} {E : ServerEnv σ}
    (happ : s.app.Ok E.app) (opnum : Nat) (txn : String) (arg : TxnArg)
    (hhalt : ∀ app : AppState σ, app.Said E.app → app.upcalls = s.app.upcalls →
      R.halted g { s with app := app }) :
    R.Spec g (execute E opnum txn arg) s fun x g' t => g = g' ∧ ∃ app : AppState σ,
      t = { s with app := app } ∧ app.Ok E.app ∧
      app.upcalls = s.app.upcalls ++ [⟨opnum, txn, arg, x.2⟩] := by
  rw [execute, spec_get_bind]
  rcases AppState.execute_cases happ opnum txn arg with ⟨result, ret, app, hex, hok, hup⟩ |
    ⟨app, hex, hsaid, hup⟩
  · simp only [hex, spec_modify_bind]
    rw [ofOption, spec_pure]
    exact .same ⟨rfl, app, rfl, hok, hup⟩
  · simp only [hex, spec_modify_bind]
    rw [ofOption, spec_abort]
    exact .same (hhalt app hsaid hup)

/-- The type of the call that finishes a transaction. -/
theorem finishType_eq_some {status : Status} {type : TxnType} (h : finishType status = some type) :
    type = .commit ∨ type = .abort := by
  cases status <;> simp_all [finishType]

/-- `ExecuteTxn`, when the fate of the transaction is settled. -/
theorem executeTxn_spec (h : LeaderOk g q s) {i : Nat} {e : GranolaLogEntry} (hi : s.log[i]? = some e)
    (hset : e.state = .committed → e.Settled g) :
    (leaderGhost S U q).Spec g (executeTxn (S.serverEnv q 0) e) s fun _ g' t => LeaderOk g' q t := by
  rw [executeTxn, spec_when]
  refine ⟨fun _ => ?_, fun _ => .same h⟩
  rw [spec_assert_bind]
  refine ⟨fun hstate => ?_, fun _ => .same h.toLeaderSaid⟩
  have hset := hset hstate
  have hs : e.state ≠ .prepared := by rw [hstate]; simp
  have hlt := h.committed_of_state hi hs
  have hop := h.log.opnum_eq hi
  refine Ghost.Spec.bind (J := fun _ g' t => g = g' ∧ LeaderOk g q t ∧ t.log = s.log ∧
    (e.txnData.status ≠ .conflict → Finished t.app.upcalls e.txnData.txnid)) ?_ ?_
  · rw [spec_whenSome]
    refine ⟨fun type htype => ?_, fun hnone => .same ⟨rfl, h, rfl, fun hne => ?_⟩⟩
    · refine Ghost.Spec.bind (execute_spec h.appOk _ _ _ fun app hsaid hup =>
        h.toLeaderSaid.congr rfl rfl hup hsaid) ?_
      rintro ⟨result, ret⟩ _ _ _ ⟨rfl, app, rfl, happ, hup⟩
      have hfin := finishType_eq_some htype
      have h' : LeaderOk g q { s with app := app } :=
        h.call hfin (by show e.opnum ≤ s.lastCommitted; omega) hup happ
      rw [spec_assert_bind, spec_assert]
      refine ⟨fun _ => ⟨fun _ => .same ⟨rfl, h', rfl, fun _ => ?_⟩, fun _ => .same h'.toLeaderSaid⟩,
        fun _ => .same h'.toLeaderSaid⟩
      show Finished app.upcalls e.txnData.txnid
      rw [hup]
      exact ⟨_, lastCall_append_self, hfin⟩
    · cases hst : e.txnData.status <;> simp_all [finishType]
  rintro _ _ t _ ⟨rfl, ht, htlog, hfin⟩
  have hti : t.log[i]? = some e := htlog ▸ hi
  rw [store, spec_modify_bind, hop]
  have heok := ht.entries hti
  have hdone : ∃ x ∈ setEntry t.log (i + 1) { e with state := .executed },
      x.reqId = (e.request.clientid, e.request.clientreqid) ∧ x.state = .executed :=
    ⟨_, List.mem_of_getElem? (getElem?_setEntry_self hti), rfl, rfl⟩
  have h₁ : LeaderOk g q { t with log := setEntry t.log (i + 1) { e with state := .executed } } := by
    refine ht.store hti rfl hs (by simp) ⟨heok.view, fun hc => ?_, fun _ => heok.voted hs, fun _ => heok.waits hs⟩
      (fun _ => hset) (fun _ => rfl) fun _ => hfin
    exact absurd (ht.committed_of_state hti hs) hc
  have h₂ := h₁.finish hdone
  have hg := History.advances_finish (g := g) (q := q) (c := e.request.clientid) (k := e.request.clientreqid)
  refine Ghost.Spec.advance hg ?_
  rw [spec_get_bind, spec_when]
  refine ⟨fun hle => ?_, fun _ => .same h₂⟩
  obtain ⟨cte, hcte, hge⟩ := ht.covers e (List.mem_of_getElem? hti)
  have hle' : cte.lastReqId ≤ e.request.clientreqid := by simpa [hcte] using hle
  have hk : cte.lastReqId = e.request.clientreqid := by omega
  obtain ⟨hrid, hrsh⟩ := ht.tabled e (List.mem_of_getElem? hti) hs hcte hk
  obtain ⟨a, ha, hq, -, -⟩ := ht.log.ask_of_mem (List.mem_of_getElem? hti)
  have hrep : (g.finish q e.request.clientid e.request.clientreqid).Replied q e.request.clientid
      e.request.clientreqid e.txnData.status :=
    ⟨⟨a, ha, hq⟩, Or.inr ⟨rfl, rfl, rfl⟩, hset.mono hg⟩
  rw [spec_modify_bind]
  simp only [hcte, Option.getD_some]
  have h₃ : LeaderOk (g.finish q e.request.clientid e.request.clientreqid) q { t with
      log := setEntry t.log (i + 1) { e with state := .executed }
      clientTable := Function.update t.clientTable e.request.clientid
        (some ⟨e.request.clientreqid, true, { cte.reply with status := e.txnData.status }⟩) } := by
    refine h₂.table (fun x hx hc => ?_) (fun _ _ _ _ hk' => ?_) fun _ => ?_
    · exact (h₂.le_lastReqId hx hc hcte).trans hle'
    · have hk'' : e.request.clientreqid = _ := hk'
      exact ⟨hrid.trans hk'', hrsh⟩
    · exact ⟨hrid, hrsh, hrep⟩
  rw [spec_when]
  refine ⟨fun _ => ?_, fun _ => .same h₃⟩
  rw [spec_whenSome]
  refine ⟨fun addr haddr => ?_, fun _ => .same h₃⟩
  rw [spec_emit]
  refine .sends h₃ (sent_of fun dst hd => ?_)
  rw [List.mem_singleton.mp hd, ht.addresses haddr]
  exact packetOk_reply hrid hrsh hrep

/-- The entry that `CommitUpTo` prepares. -/
abbrev GranolaLogEntry.commit (e : GranolaLogEntry) : GranolaLogEntry := { e with state := .committed }

/-- An entry of the log that has been committed, and is decided only if its transaction is on one shard. -/
structure Committed (s : Server σ) (i : Nat) (e : GranolaLogEntry) : Prop where
  found : s.log[i]? = some e
  state : e.state = .committed
  single : e.txnData.tsDecided = true → e.request.ops.length = 1

/-- `CommitUpTo`: the next entry is prepared. -/
theorem prepareTxn_spec (h : LeaderOk g q s) (hmem : S.protocol.member (.replica q 0) = true)
    {e : GranolaLogEntry} (hi : s.log[s.lastCommitted]? = some e) :
    (leaderGhost S U q).Spec g (prepareTxn (S.serverEnv q 0) e.commit)
      { s with lastCommitted := s.lastCommitted + 1
               log := setEntry s.log (s.lastCommitted + 1) e.commit }
      fun e' g' t => LeaderOk g' q t ∧ Committed t s.lastCommitted e' := by
  have he := List.mem_of_getElem? hi
  obtain ⟨hstate, hts⟩ := (h.entries hi).fresh (lt_irrefl _)
  have hop := h.log.opnum_eq hi
  have hsaid : ∀ app : AppState σ, app.Said (S.app q 0) → app.upcalls = s.app.upcalls →
      LeaderSaid g q { s with
        lastCommitted := s.lastCommitted + 1, app := app
        log := setEntry s.log (s.lastCommitted + 1) e.commit } := by
    intro app hs hup
    refine h.said_commit hi (show e.commit.logged = e.logged from rfl) rfl rfl rfl rfl
      (History.Advances.refl (.replica q 0) g) (fun hd => hd) (fun c k => ?_) hs fun _ hfin => hup ▸ hfin
    rw [h.own, Server.ownStatus, Server.ownStatus, ← hup]
  rw [prepareTxn]
  refine Ghost.Spec.bind (execute_spec h.appOk _ _ _ hsaid) ?_
  rintro ⟨result, ret⟩ _ _ _ ⟨rfl, app, rfl, happ, hup⟩
  obtain ⟨cte, hcte, hge⟩ := h.covers e he
  have hset : setEntry (setEntry s.log (s.lastCommitted + 1) e.commit) e.opnum
      (e.commit.withStatus (prepareStatus ret)) =
      setEntry s.log (s.lastCommitted + 1) (e.commit.withStatus (prepareStatus ret)) := by
    rw [hop, setEntry, setEntry, setEntry, List.set_set]
  have hreq : (e.commit.withStatus (prepareStatus ret)).request = e.request := rfl
  have hopn : (e.commit.withStatus (prepareStatus ret)).opnum = e.opnum := rfl
  dsimp only
  rw [store, spec_modify_bind, spec_get_bind]
  simp only [hopn, hset, hreq, hcte, Option.getD_some]
  have hunreplied : cte.lastReqId = e.request.clientreqid → cte.replied = false := by
    intro hk
    by_contra hr
    obtain ⟨-, -, hrep⟩ := h.replied hcte (by simpa using hr)
    rw [hk] at hrep
    obtain ⟨x, hx, hid, hs⟩ := h.done hrep.2.1
    rw [h.log.unique hx he hid, hstate] at hs
    cases hs
  refine Ghost.Spec.bind (J := fun _ g' t => LeaderOk g' q t ∧ t.log = setEntry s.log (s.lastCommitted + 1)
    (e.commit.withStatus (prepareStatus ret))) ?_ ?_
  · rw [spec_when, spec_modify]
    refine ⟨fun hle => ?_, fun hgt => ?_⟩
    · rw [hreq, hcte, Option.getD_some] at hle
      have hk : cte.lastReqId = e.request.clientreqid := by omega
      have h₁ : LeaderOk g q { s with
          clientTable := Function.update s.clientTable e.request.clientid (some { cte with
            lastReqId := e.request.clientreqid
            reply := { clientreqid := e.request.clientreqid, shardNum := q, status := prepareStatus ret
                       reply := result } }) } :=
        h.table (fun x hx hc => ?_) (fun x hx _ _ hk' => ⟨hk', rfl⟩) fun hr => ?_
      · obtain ⟨g', hg, h₂⟩ := h₁.prepared hi hmem (u := ⟨e.opnum, e.request.op, ⟨e.txnData.txnid, .prepare⟩, ret⟩)
          rfl rfl hup happ fun {cte'} hc _ => by
            cases (Function.update_self ..).symm.trans hc
            exact ⟨rfl, rfl⟩
        exact .quiet hg ⟨h₂, rfl⟩
      · exact (h.le_lastReqId hx hc hcte).trans hle
      · have hr' : cte.replied = true := hr
        rw [hunreplied hk] at hr'
        cases hr'
    · rw [hreq, hcte, Option.getD_some] at hgt
      obtain ⟨g', hg, h₂⟩ := h.prepared hi hmem (u := ⟨e.opnum, e.request.op, ⟨e.txnData.txnid, .prepare⟩, ret⟩)
        rfl rfl hup happ fun {cte'} hc hk => by
          rw [hcte] at hc
          cases hc
          exact absurd hk.le hgt
      exact .quiet hg ⟨h₂, rfl⟩
  rintro _ g' t _ ⟨ht, htlog⟩
  rw [spec_pure]
  refine .same ⟨ht, ?_, rfl, hts⟩
  rw [htlog]
  exact getElem?_setEntry_self hi

/-! ### Votes -/

/-- The vote for an entry that has been prepared is good for the other shards. -/
theorem LeaderOk.vote (h : LeaderOk g q s) {i : Nat} {e : GranolaLogEntry} (hi : s.log[i]? = some e)
    (hs : e.state ≠ .prepared) {p : Nat} (hp : p ≠ q) (j : Nat) :
    PacketOk g ⟨.replica q 0, .replica p j, .vote ((S.serverEnv q 0).vote e)⟩ := by
  obtain ⟨a, ha, -, -, hops⟩ := h.log.ask_of_mem (List.mem_of_getElem? hi)
  refine ⟨hp.symm, (h.entries hi).voted hs, a, ha, ?_⟩
  rw [← Ask.length_ops, ← hops]
  rfl

/-- `CommitUpTo`: the leader votes. -/
theorem sendVote_spec (h : LeaderOk g q s) {i : Nat} {e : GranolaLogEntry} (hi : Committed s i e) :
    (leaderGhost S U q).Spec g (sendVote (S.serverEnv q 0) e) s
      fun _ g' t => LeaderOk g' q t ∧ Committed t i e := by
  rw [sendVote, spec_get_bind, spec_when]
  refine ⟨fun _ => ?_, fun _ => .same ⟨h, hi⟩⟩
  refine Ghost.Spec.emit_bind (sent_to_groups fun p hp j => ?_) ?_
  · have hne : p ≠ (S.serverEnv q 0).groupIdx := by simpa using (List.mem_filter.mp hp).2
    exact h.vote hi.found (by simp [hi.state]) hne j
  rw [spec_assert_bind, spec_modify]
  exact ⟨fun _ => .same ⟨h.congr rfl, hi.found, hi.state, hi.single⟩, fun _ => .same h.toLeaderSaid⟩

/-- Two lists of the same statuses have the same fate. -/
theorem fate_of_mem {l l' : List Status} (h : ∀ st, st ∈ l ↔ st ∈ l') : fate l = fate l' :=
  fate_congr (h _) fun _ => h _

/-- A quorum of votes has one of each other shard. -/
theorem LeaderOk.voters (h : LeaderOk g q s) {c k : Nat} {a : Ask} (ha : g.ask c k = some a)
    (hqa : q ∈ a.shards) {msgs : StdMap Nat (StdMap Nat VoteMessage)}
    (hq : s.voteQuorum.checkForQuorum (c, k) = some msgs) :
    ∃ vote : Nat → Status, (∀ kv ∈ msgs.toList, ∃ m, kv.2.find? 0 = some m ∧ m.status = vote kv.1) ∧
      (∀ p, p ∈ msgs.toList.map Prod.fst ↔ p ∈ a.shards ∧ p ≠ q) ∧
      ∀ p ∈ a.shards, p ≠ q → g.Voted p c k (vote p) := by
  obtain ⟨n, hmsgs, hsize, hone⟩ := MessageSet.checkForQuorum_eq_some hq
  obtain ⟨a', ha', hn⟩ := h.required (n := n) (c := c) (k := k) (by
    rw [MessageSet.required, hmsgs]
    rfl)
  obtain rfl : a = a' := Option.some.inj (ha.symm.trans ha')
  let vote : Nat → Status := fun p => (((msgs.find? p).bind fun ms => ms.find? 0).map
    VoteMessage.status).getD .commit
  have hvote : ∀ kv ∈ msgs.toList, kv.1 ≠ q ∧ g.Voted kv.1 c k (vote kv.1) ∧
      ∃ m, kv.2.find? 0 = some m ∧ m.status = vote kv.1 := by
    intro kv hkv
    have hpos := hone kv hkv
    rw [h.one] at hpos
    obtain ⟨⟨r, m⟩, hm⟩ := List.exists_mem_of_length_pos hpos
    obtain ⟨rfl, hne, hvoted⟩ := h.votes ⟨msgs, n, kv.2, hmsgs, hkv, hm⟩
    have hkv' : msgs.find? kv.1 = some kv.2 := StdMap.find?_of_mem hkv
    have hm' : kv.2.find? 0 = some m := StdMap.find?_of_mem hm
    have hst : m.status = vote kv.1 := by simp [vote, hkv', hm']
    exact ⟨hne, hst ▸ hvoted, m, hm', hst⟩
  have hqk : q ∈ a.texts.keys := List.mem_toFinset.mpr hqa
  have hkeys : msgs.keys = a.texts.keys.erase q := by
    refine Finset.eq_of_subset_of_card_le (fun p hp => ?_) ?_
    · obtain ⟨ms, hms⟩ := StdMap.mem_keys.mp hp
      obtain ⟨hne, ⟨⟨a', ha', hpa⟩, -⟩, -⟩ := hvote _ hms
      obtain rfl : a = a' := Option.some.inj (ha.symm.trans ha')
      exact Finset.mem_erase.mpr ⟨hne, List.mem_toFinset.mpr hpa⟩
    · rw [Finset.card_erase_of_mem hqk, StdMap.card_keys, StdMap.card_keys]
      have hlen : a.shards.length = a.texts.size := List.length_map _
      omega
  have hmem : ∀ p, p ∈ msgs.toList.map Prod.fst ↔ p ∈ a.shards ∧ p ≠ q := by
    intro p
    rw [← List.mem_toFinset]
    show p ∈ msgs.keys ↔ _
    rw [hkeys, Finset.mem_erase, and_comm]
    exact and_congr_left' List.mem_toFinset
  refine ⟨vote, fun kv hkv => (hvote kv hkv).2.2, hmem, fun p hp hne => ?_⟩
  obtain ⟨kv, hkv, rfl⟩ := List.mem_map.mp ((hmem p).mpr ⟨hp, hne⟩)
  exact (hvote kv hkv).2.1

/-- The votes of the other shards with the own status make the fate of the transaction. -/
theorem LeaderOk.decides (hE : S.locking = true) (h : LeaderOk g q s) {i : Nat} {e : GranolaLogEntry}
    (hi : s.log[i]? = some e) (hs : e.state ≠ .prepared) (hts : e.txnData.tsDecided = false)
    {msgs : StdMap Nat (StdMap Nat VoteMessage)} (hq : s.voteQuorum.checkForQuorum e.reqId = some msgs) :
    ∃ status, (if S.locking = true ∧ e.txnData.status ≠ .abort then
      tallyVotes msgs.toList e.txnData.status else some e.txnData.status) = some status ∧
      g.Settled e.request.clientid e.request.clientreqid status := by
  obtain ⟨a, ha, hqa, -, -⟩ := h.log.ask_of_mem (List.mem_of_getElem? hi)
  have hown := (h.entries hi).waits hs hts
  obtain ⟨vote, htally, hmem, hvoted⟩ := h.voters ha hqa hq
  set c := e.request.clientid
  set k := e.request.clientreqid
  have hall : ∀ p ∈ a.shards, (g.own p c k).isSome = true := by
    intro p hp
    by_cases hne : p = q
    · rw [hne, hown]
      rfl
    · obtain ⟨-, hst | ⟨⟨a', ha', hall⟩, -⟩⟩ := hvoted p hp hne
      · rw [hst]
        rfl
      · obtain rfl : a = a' := Option.some.inj (ha.symm.trans ha')
        exact hall p hp
  have hout := History.outcome_eq ha hall
  suffices hfate : (if S.locking = true ∧ e.txnData.status ≠ .abort then
      tallyVotes msgs.toList e.txnData.status else some e.txnData.status) =
      some (fate (a.shards.map fun p => (g.own p c k).getD .commit)) from
    ⟨_, hfate, ⟨a, ha, hall⟩, hout⟩
  by_cases habort : e.txnData.status = .abort
  · rw [if_neg (fun hh => hh.2 habort), habort]
    congr 1
    refine (fate_eq_abort.mpr (List.mem_map.mpr ⟨q, hqa, ?_⟩)).symm
    rw [hown, habort]
    rfl
  · rw [if_pos ⟨hE, habort⟩, tallyVotes_eq habort htally]
    congr 1
    let said : Nat → Status := fun p => if p = q then e.txnData.status else vote p
    have hsaid : fate (e.txnData.status :: msgs.toList.map fun kv => vote kv.1) =
        fate (a.shards.map said) := by
      refine fate_of_mem fun st => ⟨fun hst => ?_, fun hst => ?_⟩
      · rcases List.mem_cons.mp hst with rfl | hst
        · exact List.mem_map.mpr ⟨q, hqa, by simp [said]⟩
        · obtain ⟨kv, hkv, rfl⟩ := List.mem_map.mp hst
          obtain ⟨hp, hne⟩ := (hmem kv.1).mp (List.mem_map_of_mem hkv)
          exact List.mem_map.mpr ⟨kv.1, hp, by simp [said, hne]⟩
      · obtain ⟨p, hp, rfl⟩ := List.mem_map.mp hst
        by_cases hne : p = q
        · simp [said, hne]
        · obtain ⟨kv, hkv, rfl⟩ := List.mem_map.mp ((hmem p).mpr ⟨hp, hne⟩)
          refine List.mem_cons_of_mem _ (List.mem_map.mpr ⟨kv, hkv, ?_⟩)
          simp [said, hne]
    rw [hsaid]
    refine fate_absorbs fun p hp => ?_
    by_cases hne : p = q
    · left
      simp [said, hne, hown]
    · obtain ⟨-, hst | ⟨-, hst⟩⟩ := hvoted p hp hne
      · left
        simp [said, hne, hst]
      · right
        rw [← hout, hst]
        simp [said, hne]

/-- `CheckVoteQuorum`, with the votes of all shards. -/
theorem decideTxn_spec (hE : S.locking = true) (h : LeaderOk g q s) {i : Nat} {e : GranolaLogEntry}
    (hi : s.log[i]? = some e) (hcom : e.state = .committed) (hts : e.txnData.tsDecided = false)
    {msgs : StdMap Nat (StdMap Nat VoteMessage)}
    (hq : s.voteQuorum.checkForQuorum e.reqId = some msgs) :
    (leaderGhost S U q).Spec g (decideTxn (S.serverEnv q 0) e msgs) s
      fun e' g' t => LeaderOk g' q t ∧ t.log[i]? = some e' ∧ e'.Settled g' := by
  have hs : e.state ≠ .prepared := by rw [hcom]; simp
  obtain ⟨status, hstatus, hset⟩ := h.decides hE hi hs hts hq
  have hmem := List.mem_of_getElem? hi
  obtain ⟨a, ha, hqa, -, hops⟩ := h.log.ask_of_mem hmem
  have hop := h.log.opnum_eq hi
  have hstatus' : (if (S.serverEnv q 0).locking = true ∧ e.txnData.status ≠ .abort then
      tallyVotes msgs.toList e.txnData.status else some e.txnData.status) = some status := hstatus
  rw [decideTxn]
  simp only [hstatus', spec_ofOption_bind]
  refine ⟨fun st hst => ?_, fun hnone => by cases hnone⟩
  obtain rfl := Option.some.inj hst
  rw [store, spec_modify_bind, spec_modify_bind, spec_get_bind]
  set e' : GranolaLogEntry := { e with txnData := { e.txnData with
    finalTs := e.txnData.proposedTs, tsDecided := true, status := status } }
  have hop' : e'.opnum = i + 1 := hop
  have hset' : e'.Settled g := hset
  have h₁ : LeaderOk g q { s with log := setEntry s.log (i + 1) e' } := by
    refine h.store hi rfl hs hs ⟨(h.entries hi).view, fun hc => ?_, fun _ => ⟨⟨a, ha, hqa⟩, Or.inr hset'⟩,
      fun _ hf => by cases hf⟩ (fun _ => hset') (fun hex => hex) fun hex => ?_
    · exact absurd (h.committed_of_state hi hs) hc
    · have hex' : e.state = .executed := hex
      rw [hcom] at hex'
      cases hex'
  have h₂ : LeaderOk g q { s with
      log := setEntry s.log (i + 1) e', voteQuorum := s.voteQuorum.remove e'.reqId } :=
    h₁.revote (fun hv => Or.inl (MessageSet.has_remove hv))
      (fun hr => Or.inl (MessageSet.required_remove_eq_some hr)) h.one
  rw [hop']
  refine Ghost.Spec.emit_bind (sent_to_all fun _ => h.view) ?_
  rw [spec_pure]
  exact .same ⟨h₂, getElem?_setEntry_self hi, hset'⟩

end Dsnet.Granola
