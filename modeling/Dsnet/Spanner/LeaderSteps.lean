import Dsnet.Spanner.Invariant

/-! The handlers of the replicas keep the invariant of the shards. -/

namespace Dsnet.Spanner
open Handler Transaction

variable {σ : Type} {S : Shards σ} {g g' : History S} {q : Nat} {s s' : Server σ}

/-- What the leader of shard `q` does to the ghost. -/
abbrev leaderGhost (S : Shards σ) (q : Nat) : Ghost (History S) (Server σ) Output :=
  (shardsInvariant S).ghost (.replica q 0)

/-- A message that is good for everyone it is sent to. -/
theorem sent_of {p : Node} {dsts : List Node} {m : Message}
    (h : ∀ dst ∈ dsts, PacketOk g ⟨p, dst, m⟩) : ((shardsInvariant S).ghost p).sent g ⟨dsts, m⟩ := by
  intro y hy
  obtain ⟨dst, hd, rfl⟩ := List.mem_map.mp hy
  exact h dst hd

/-! ### The log -/

theorem LeaderSaid.congr (h : LeaderSaid g q s) (hops : s'.ops = s.ops) (happ : s'.app = s.app) :
    LeaderSaid g q s' where
  asked := hops ▸ h.asked
  sorted := hops ▸ h.sorted
  calls := by
    rw [happ, hops]
    exact h.calls
  results := by
    rw [happ, hops]
    exact h.results
  app := happ ▸ h.app

/-- The leader logs something new. -/
theorem LeaderSaid.append (h : LeaderSaid g q s) {x : TxnData × Request} (hx : g.Asked q x)
    (hnew : ∀ y ∈ s.ops, y.2.clientid = x.2.clientid → y.2.clientreqid < x.2.clientreqid)
    (hops : s'.ops = s.ops ++ [x]) (happ : s'.app = s.app) : LeaderSaid g q s' where
  asked := by
    rw [hops]
    intro y hy
    rcases List.mem_append.mp hy with hy | hy
    · exact h.asked y hy
    · exact List.mem_singleton.mp hy ▸ hx
  sorted := by
    rw [hops, List.pairwise_append]
    refine ⟨h.sorted, List.pairwise_singleton .., fun y hy z hz hc => ?_⟩
    obtain rfl := List.mem_singleton.mp hz
    exact hnew y hy hc
  calls {i u} hu := by
    rw [happ] at hu
    obtain ⟨y, hy, hrest⟩ := h.calls hu
    exact ⟨y, hops ▸ getElem?_mono (List.prefix_append ..) hy, hrest⟩
  results {c k r} hr := by
    obtain ⟨i, y, hi, hy, hyc⟩ := h.results hr
    exact ⟨i, y, happ ▸ hi, hops ▸ getElem?_mono (List.prefix_append ..) hy, hyc⟩
  app := happ ▸ h.app

/-- Each request is logged once. -/
theorem LeaderSaid.index_unique (h : LeaderSaid g q s) {i j : Nat} {x y : TxnData × Request}
    (hx : s.ops[i]? = some x) (hy : s.ops[j]? = some y) (hc : x.2.clientid = y.2.clientid)
    (hk : x.2.clientreqid = y.2.clientreqid) : i = j := by
  obtain ⟨hi, rfl⟩ := List.getElem?_eq_some_iff.mp hx
  obtain ⟨hj, rfl⟩ := List.getElem?_eq_some_iff.mp hy
  have hs := List.pairwise_iff_getElem.mp h.sorted
  rcases Nat.lt_trichotomy i j with hlt | heq | hgt
  · exact absurd (hs i j hi hj hlt hc) (by omega)
  · exact heq
  · exact absurd (hs j i hj hi hgt hc.symm) (by omega)

/-- Later entries of a client have greater numbers. -/
theorem LeaderSaid.lt_of_lt (h : LeaderSaid g q s) {i j : Nat} {x y : TxnData × Request}
    (hx : s.ops[i]? = some x) (hy : s.ops[j]? = some y) (hc : x.2.clientid = y.2.clientid)
    (hij : i < j) : x.2.clientreqid < y.2.clientreqid := by
  obtain ⟨hi, rfl⟩ := List.getElem?_eq_some_iff.mp hx
  obtain ⟨hj, rfl⟩ := List.getElem?_eq_some_iff.mp hy
  exact List.pairwise_iff_getElem.mp h.sorted i j hi hj hij hc

/-! ### Requests -/

/-- `SendPrepare`. -/
theorem sendPrepare_spec (h : LeaderOk g q s) :
    (leaderGhost S q).Spec g (sendPrepare (S.serverEnv q 0)) s fun _ g' t => LeaderOk g' q t := by
  rw [sendPrepare, Ghost.spec_get_bind, Ghost.spec_ofOption_bind]
  refine ⟨fun e he => ?_, fun _ => .same h.toLeaderSaid⟩
  refine Ghost.Spec.emit_bind (sent_of fun dst _ => (h.entries e (mem_of_findEntry he)).1) ?_
  rw [Ghost.spec_modify]
  exact .same ⟨h.toLeaderSaid.congr rfl rfl, h.view, h.entries, h.committed, h.covers, h.replied,
    h.addresses, h.appOk⟩

/-- The entry that `UpdateClientTable` leaves for the client of a request. -/
def Server.updated (s : Server σ) (req : Request) : ClientTableEntry :=
  let entry := (s.clientTable req.clientid).getD {}
  if entry.lastReqId = req.clientreqid then entry else { lastReqId := req.clientreqid }

/-- A request is logged. -/
theorem LeaderOk.log_request (h : LeaderOk g q s) {d : TxnData} {req : Request} (hx : g.Asked q (d, req))
    (hnew : ∀ y ∈ s.ops, y.2.clientid = req.clientid → y.2.clientreqid < req.clientreqid)
    (opnum : Nat) : LeaderOk g q { s with
      clientTable := Function.update s.clientTable req.clientid (some (s.updated req))
      lastOp := opnum
      log := s.log ++ [{ viewstamp := { view := s.view, opnum := opnum }, state := .prepared
                         request := req, txnData := d }] } where
  toLeaderSaid := h.toLeaderSaid.append hx hnew (List.map_append ..) rfl
  view := h.view
  entries e he := by
    rcases List.mem_append.mp he with he | he
    · exact h.entries e he
    · rw [List.mem_singleton.mp he]
      exact ⟨h.view, by simp⟩
  committed := h.committed
  covers y hy := by
    have hy' : y ∈ s.ops ∨ y = (d, req) := by
      rw [Server.ops, List.map_append, List.mem_append] at hy
      exact hy.imp_right List.mem_singleton.mp
    by_cases hc : y.2.clientid = req.clientid
    · rw [hc]
      refine ⟨_, Function.update_self .., ?_⟩
      have hle : y.2.clientreqid ≤ req.clientreqid := by
        rcases hy' with hy | rfl
        · exact (hnew y hy hc).le
        · exact le_refl _
      rw [Server.updated]
      split_ifs with heq
      · omega
      · exact hle
    · simp only [Function.update_of_ne hc]
      rcases hy' with hy | rfl
      · exact h.covers y hy
      · exact absurd rfl hc
  replied {c e} he hr := by
    by_cases hc : c = req.clientid
    · subst hc
      simp only [Function.update_self, Option.some.injEq] at he
      subst he
      cases ht : s.clientTable req.clientid with
      | none =>
        simp only [Server.updated, ht, Option.getD_none] at hr
        split_ifs at hr
      | some e =>
        simp only [Server.updated, ht, Option.getD_some] at hr ⊢
        split_ifs at hr ⊢ with heq
        exact h.replied ht hr
    · simp only [Function.update_of_ne hc] at he
      exact h.replied he hr
  addresses := h.addresses
  appOk := h.appOk

/-- `UpdateClientTable`. -/
theorem updateClientTable_spec {R : Ghost (History S) (Server σ) Output} {req : Request}
    (h : R.halted g s) :
    R.Spec g (updateClientTable req) s fun _ g' t => g = g' ∧ t = { s with
      clientTable := Function.update s.clientTable req.clientid (some (s.updated req)) } := by
  rw [updateClientTable, Ghost.spec_get_bind, Ghost.spec_assert_bind, Ghost.spec_modify]
  exact ⟨fun _ => .same ⟨rfl, rfl⟩, fun _ => .same h⟩

/-- `HandleClientRequest`, for a request that is new to the leader. -/
theorem logRequest_spec (h : LeaderOk g q s) {d : TxnData} {req : Request} (hx : g.Asked q (d, req))
    (hnew : ∀ y ∈ s.ops, y.2.clientid = req.clientid → y.2.clientreqid < req.clientreqid) :
    (leaderGhost S q).Spec g (logRequest (S.serverEnv q 0) d req) s fun _ g' t => LeaderOk g' q t := by
  have hsaid : ∀ s' : Server σ, s'.log = s.log → s'.app = s.app → LeaderSaid g q s' := by
    intro s' hlog happ
    exact h.toLeaderSaid.congr (by rw [Server.ops, hlog, Server.ops]) happ
  rw [logRequest]
  refine Ghost.Spec.bind (updateClientTable_spec h.toLeaderSaid) ?_
  rintro _ _ _ _ ⟨rfl, rfl⟩
  rw [Ghost.spec_modify_bind, Ghost.spec_get_bind, Ghost.spec_assert_bind]
  refine ⟨fun _ => ?_, fun _ => .same (hsaid _ rfl rfl)⟩
  refine Ghost.Spec.bind (J := fun _ g' t => LeaderOk g' q t) ?_ fun _ _ _ _ h' => sendPrepare_spec h'
  rw [append, Ghost.spec_get_bind, Ghost.spec_assert_bind, Ghost.spec_modify]
  exact ⟨fun _ => .same (h.log_request hx hnew _), fun _ => .same (hsaid _ rfl rfl)⟩

/-- `HandleClientRequest`. -/
theorem handleClientRequest_spec (h : LeaderOk g q s) {d : TxnData} {req : Request}
    (hx : g.Asked q (d, req)) :
    (leaderGhost S q).Spec g (handleClientRequest (S.serverEnv q 0) (.client req.clientid) d req) s
      fun _ g' t => LeaderOk g' q t := by
  rw [handleClientRequest, Ghost.spec_modify_bind, Ghost.spec_get_bind, Ghost.spec_when]
  have h' : LeaderOk g q { s with
      clientAddresses := Function.update s.clientAddresses req.clientid
        (some ((s.clientAddresses req.clientid).getD (.client req.clientid))) } := by
    refine ⟨h.toLeaderSaid.congr rfl rfl, h.view, h.entries, h.committed, h.covers, h.replied,
      fun {c addr} ha => ?_, h.appOk⟩
    by_cases hc : c = req.clientid
    · subst hc
      simp only [Function.update_self] at ha
      cases ht : s.clientAddresses req.clientid with
      | none =>
        rw [ht] at ha
        exact (Option.some.inj ha).symm
      | some addr' =>
        rw [ht] at ha
        exact Option.some.inj ha ▸ h.addresses ht
    · simp only [Function.update_of_ne hc] at ha
      exact h.addresses ha
  refine ⟨fun _ => ?_, fun _ => .same h'⟩
  cases ht : s.clientTable req.clientid with
  | none =>
    refine logRequest_spec h' hx fun y hy hc => ?_
    obtain ⟨e, he, _⟩ := h.covers y hy
    rw [hc, ht] at he
    cases he
  | some e =>
    simp only [Ghost.spec_ite, Ghost.spec_when, Ghost.spec_pure, Ghost.spec_emit]
    refine ⟨fun _ => .same h', fun hge => ⟨fun heq => ⟨fun hrep => ?_, fun _ => .same h'⟩, fun hne => ?_⟩⟩
    · refine .sends h' (sent_of fun dst hd c hc => ?_)
      obtain rfl : c = req.clientid := by
        rw [List.mem_singleton.mp hd] at hc
        exact (Node.client.inj hc).symm
      exact h.replied ht hrep
    · refine logRequest_spec h' hx fun y hy hc => ?_
      obtain ⟨e', he', hle⟩ := h.covers y hy
      rw [hc, ht] at he'
      cases he'
      omega

/-! ### Executing -/

theorem mem_shards {a : Ask} {txn : String} (h : a.texts.find? q = some txn) : q ∈ a.shards :=
  List.mem_map.mpr ⟨_, StdMap.mem_of_find? h, rfl⟩

/-- What a leader executes next is the last that it has logged for the client: before a client asks for
    more, the leader has replied. -/
theorem LeaderSaid.newest (h : LeaderSaid g q s) {x : TxnData × Request}
    (hx : s.ops[s.app.upcalls.length]? = some x) :
    ∀ y ∈ s.ops, y.2.clientid = x.2.clientid → y.2.clientreqid ≤ x.2.clientreqid := by
  intro y hy hc
  by_contra hlt
  obtain ⟨a, txn, ha, htxn, -⟩ := h.asked x (List.mem_of_getElem? hx)
  obtain ⟨b, -, hb, -⟩ := h.asked y hy
  rw [hc] at hb
  obtain ⟨r, hr⟩ := g.replied_of_lt ha hb (by omega) (mem_shards htxn)
  obtain ⟨i, z, hi, hz, hzc, hzk⟩ := h.results hr
  exact absurd (h.index_unique hz hx hzc hzk) (by omega)

/-- The leader calls its application for the next entry, and replies what that has returned. -/
theorem LeaderSaid.call (h : LeaderSaid g q s) (s' : Server σ) (hmem : S.protocol.member (.replica q 0) = true)
    {x : TxnData × Request} (hx : s.ops[s.app.upcalls.length]? = some x) {u : Call}
    (htxn : u.txn = x.2.op) (harg : u.arg = x.1.arg) (hops : s'.ops = s.ops)
    (hup : s'.app.upcalls = s.app.upcalls ++ [u]) (happ : s'.app.Said (S.app q 0)) :
    ∃ g', g.Advances (.replica q 0) g' ∧ LeaderSaid g' q s' ∧
      g'.result q x.2.clientid x.2.clientreqid = some (replyType x.1 u.ret) := by
  obtain ⟨a, txn, ha, hfind, -⟩ := h.asked x (List.mem_of_getElem? hx)
  have hres : g.result q x.2.clientid x.2.clientreqid = none := by
    by_contra hne
    obtain ⟨r, hr⟩ := Option.ne_none_iff_exists'.mp hne
    obtain ⟨i, z, hi, hz, hzc, hzk⟩ := h.results hr
    exact absurd (h.index_unique hz hx hzc hzk) (by omega)
  have hg := History.advances_reply (replyType x.1 u.ret) hmem hres ⟨a, ha, mem_shards hfind⟩
  refine ⟨_, hg, ⟨fun y hy => (h.asked y (hops ▸ hy)).mono hg, hops ▸ h.sorted, fun {i v} hv => ?_,
    fun {c k r} hr => ?_, happ⟩, History.result_reply_self⟩
  · rw [hup] at hv
    rcases of_getElem?_concat hv with hv | ⟨rfl, rfl⟩
    · obtain ⟨y, hy, hyt, hya, hyr⟩ := h.calls hv
      exact ⟨y, hops ▸ hy, hyt, hya, hg.result hyr⟩
    · exact ⟨x, hops ▸ hx, htxn, harg, History.result_reply_self⟩
  · simp only [History.reply] at hr
    rw [hup, hops, List.length_append]
    split_ifs at hr with hne
    · exact ⟨_, x, Nat.lt_succ_self _, hx, hne.2.1.symm, hne.2.2.symm⟩
    · obtain ⟨i, y, hi, hy⟩ := h.results hr
      exact ⟨i, y, Nat.lt_succ_of_lt hi, hy⟩

/-- `Execute`, for the next entry. -/
theorem execute_spec (h : LeaderSaid g q s) (happ : s.app.Ok (S.app q 0))
    (hmem : S.protocol.member (.replica q 0) = true) {x : TxnData × Request}
    (hx : s.ops[s.app.upcalls.length]? = some x) (opnum : Nat) :
    (leaderGhost S q).Spec g (execute (S.serverEnv q 0) opnum x.2.op x.1.arg) s fun r g' t =>
      LeaderSaid g' q t ∧ g'.result q x.2.clientid x.2.clientreqid = some (replyType x.1 r.2) ∧
      t = { s with app := t.app } ∧ t.app.Ok (S.app q 0) ∧
      t.app.upcalls.length = s.app.upcalls.length + 1 := by
  rw [execute, Ghost.spec_get_bind]
  rcases AppState.execute_cases happ opnum x.2.op x.1.arg with
    ⟨result, ret, app, hex, hok, hup⟩ | ⟨app, hex, hsaid, hup⟩
  · have hex' : s.app.execute (S.serverEnv q 0).app opnum x.2.op x.1.arg = (some (result, ret), app) := hex
    simp only [hex', Ghost.spec_modify_bind]
    obtain ⟨g', hg, h', hres⟩ := h.call { s with app := app } hmem hx
      (u := ⟨opnum, x.2.op, x.1.arg, ret⟩) rfl rfl rfl hup hok.said
    rw [ofOption, Ghost.spec_pure]
    exact .quiet hg ⟨h', hres, rfl, hok, by simp [hup]⟩
  · have hex' : s.app.execute (S.serverEnv q 0).app opnum x.2.op x.1.arg = (none, app) := hex
    simp only [hex', Ghost.spec_modify_bind]
    rw [ofOption, Ghost.spec_abort]
    refine .same ⟨h.asked, h.sorted, ?_, ?_, hsaid⟩
    · rw [hup]
      exact h.calls
    · rw [hup]
      exact h.results

/-- `ExecuteTxn`, for the next entry, which `CommitUpTo` has counted already. -/
theorem executeTxn_spec (entry : SpannerLogEntry) (h : LeaderOk g q s)
    (hmem : S.protocol.member (.replica q 0) = true)
    (hx : s.ops[s.app.upcalls.length]? = some (entry.txnData, entry.request)) :
    (leaderGhost S q).Spec g (executeTxn (S.serverEnv q 0) entry)
      { s with lastCommitted := s.lastCommitted + 1 } fun _ g' t => LeaderOk g' q t := by
  have hsaid : LeaderSaid g q { s with lastCommitted := s.lastCommitted + 1 } := h.toLeaderSaid.congr rfl rfl
  rw [executeTxn, Ghost.spec_assert_bind]
  refine ⟨fun _ => ?_, fun _ => .same hsaid⟩
  rw [Ghost.spec_assert_bind]
  refine ⟨fun _ => ?_, fun _ => .same hsaid⟩
  refine Ghost.Spec.bind (execute_spec hsaid h.appOk hmem hx entry.opnum) ?_
  rintro ⟨result, ret⟩ g' t hg ⟨ht, hres, hteq, htapp, hlen⟩
  simp only [Ghost.spec_assert_bind]
  refine ⟨fun _ => ⟨fun _ => ?_, fun _ => .same ht⟩, fun _ => .same ht⟩
  rw [Ghost.spec_modify_bind, Ghost.spec_get_bind, Ghost.spec_when]
  have hops : t.ops = s.ops := by rw [hteq]; rfl
  have hdone : LeaderOk g' q { t with
      clientTable := Function.update t.clientTable entry.request.clientid
        (some ⟨entry.request.clientreqid, true,
          ⟨entry.request.clientreqid, q, replyType entry.txnData ret, result⟩⟩) } := by
    refine ⟨ht.congr rfl rfl, by rw [hteq]; exact h.view, by rw [hteq]; exact h.entries, ?_,
      fun y hy => ?_, fun {c e} he hr => ?_, ?_, htapp⟩
    · rw [hlen, ← h.committed, hteq]
    · have hy' : y ∈ s.ops := hops ▸ hy
      by_cases hc : y.2.clientid = entry.request.clientid
      · rw [hc]
        exact ⟨_, Function.update_self .., h.newest hx y hy' hc⟩
      · obtain ⟨e, he, hle⟩ := h.covers y hy'
        refine ⟨e, ?_, hle⟩
        simp only [Function.update_of_ne hc]
        rw [hteq]
        exact he
    · by_cases hc : c = entry.request.clientid
      · subst hc
        simp only [Function.update_self, Option.some.injEq] at he
        subst he
        exact hres
      · simp only [Function.update_of_ne hc] at he
        rw [hteq] at he
        exact hg.result (h.replied he hr)
    · rw [hteq]
      exact h.addresses
  refine ⟨fun _ => ?_, fun _ => .same hdone⟩
  rw [Ghost.spec_whenSome]
  refine ⟨fun addr haddr => ?_, fun _ => .same hdone⟩
  refine .sends hdone (sent_of fun dst hd c hc => ?_)
  rw [hdone.addresses haddr, List.mem_singleton] at hd
  obtain rfl : c = entry.request.clientid := Node.client.inj (hc.symm.trans hd)
  exact hres

/-- The loop of `CommitUpTo`. -/
theorem commitNext_spec (h : LeaderOk g q s) (hmem : S.protocol.member (.replica q 0) = true) :
    (leaderGhost S q).Spec g (commitNext (S.serverEnv q 0)) s fun _ g' t => LeaderOk g' q t := by
  rw [commitNext, Ghost.spec_modify_bind, Ghost.spec_get_bind, Ghost.spec_ofOption_bind]
  refine ⟨fun entry hentry => ?_, fun _ => .same (h.toLeaderSaid.congr rfl rfl)⟩
  obtain ⟨hview, hstate⟩ := h.entries entry (mem_of_findEntry hentry)
  rw [Ghost.spec_when]
  refine ⟨fun _ => ?_, fun hno => absurd hstate hno⟩
  rw [Ghost.spec_modify_bind]
  have hops : ({ s with log := setEntry s.log (s.lastCommitted + 1) { entry with state := .committed } } :
      Server σ).ops = s.ops := map_setEntry hentry rfl
  have h' : LeaderOk g q
      { s with log := setEntry s.log (s.lastCommitted + 1) { entry with state := .committed } } :=
    ⟨h.toLeaderSaid.congr hops rfl, h.view, forall_mem_setEntry h.entries ⟨hview, by simp⟩, h.committed,
      hops ▸ h.covers, h.replied, h.addresses, h.appOk⟩
  refine executeTxn_spec { entry with state := .committed } h' hmem ?_
  rw [hops, ← h.committed, Server.ops, List.getElem?_map, ← findEntry_succ, hentry]
  rfl

/-- `CommitUpTo`. -/
theorem commitUpTo_spec (h : LeaderOk g q s) (hmem : S.protocol.member (.replica q 0) = true)
    (opnum : Nat) :
    (leaderGhost S q).Spec g (commitUpTo (S.serverEnv q 0) opnum) s fun _ g' t => LeaderOk g' q t := by
  have hloop : ∀ {g : History S} {s : Server σ} {k : Nat}, LeaderOk g q s →
      (leaderGhost S q).Spec g (iterate k (commitNext (S.serverEnv q 0))) s fun _ g' t => LeaderOk g' q t :=
    fun h => Ghost.Spec.iterate (fun _ g s => LeaderOk g q s) (fun _ _ _ h => commitNext_spec h hmem) h
  rw [commitUpTo, Ghost.spec_get_bind]
  refine Ghost.Spec.bind (J := fun _ g' t => g = g' ∧ s = t) ?_ ?_
  · rw [Ghost.spec_when, Ghost.spec_emit]
    exact ⟨fun _ => .sends ⟨rfl, rfl⟩ (sent_of fun _ _ => trivial), fun _ => .same ⟨rfl, rfl⟩⟩
  · rintro _ _ _ _ ⟨rfl, rfl⟩
    refine Ghost.Spec.bind (J := fun _ g' t => LeaderOk g' q t) ?_ fun _ _ _ _ h => hloop h
    rw [Ghost.spec_when, Ghost.spec_modify]
    exact ⟨fun _ => .same ⟨h.toLeaderSaid.congr rfl rfl, h.view, h.entries, h.committed, h.covers,
      h.replied, h.addresses, h.appOk⟩, fun _ => .same h⟩

/-- `HandlePrepareOK`. -/
theorem handlePrepareOK_spec (h : LeaderOk g q s) (hmem : S.protocol.member (.replica q 0) = true)
    (view opnum r : Nat) :
    (leaderGhost S q).Spec g (handlePrepareOK (S.serverEnv q 0) view opnum r) s
      fun _ g' t => LeaderOk g' q t := by
  rw [handlePrepareOK, Ghost.spec_get_bind, Ghost.spec_assert_bind]
  refine ⟨fun _ => ?_, fun _ => .same h.toLeaderSaid⟩
  have h' : LeaderOk g q { s with prepareOKQuorum := s.prepareOKQuorum.add (view, opnum) r () } :=
    ⟨h.toLeaderSaid.congr rfl rfl, h.view, h.entries, h.committed, h.covers, h.replied, h.addresses,
      h.appOk⟩
  rw [Ghost.spec_modify_bind, Ghost.spec_get_bind, Ghost.spec_whenSome]
  exact ⟨fun _ _ => commitUpTo_spec h' hmem opnum, fun _ => .same h'⟩

/-- A leader is what takes itself for one. -/
theorem LeaderOk.amLeader (h : LeaderOk g q s) : amLeader (S.serverEnv q 0) s = true := by
  simp [Spanner.amLeader, Configuration.getLeaderIndex, h.view, Shards.serverEnv]

/-- The leader handles a message. -/
theorem leaderReceive_spec (h : LeaderOk g q s) (hmem : S.protocol.member (.replica q 0) = true)
    {src : Node} {m : Message} (hm : PacketOk g ⟨src, .replica q 0, m⟩) :
    (leaderGhost S q).Spec g (serverReceive (S.serverEnv q 0) src m) s fun _ g' t => LeaderOk g' q t := by
  cases m with
  | request d req =>
    obtain ⟨rfl, hasked⟩ := hm
    exact handleClientRequest_spec h (hasked q 0 rfl)
  | prepare view opnum d req =>
    rw [serverReceive, handlePrepare, Ghost.spec_get_bind, Ghost.spec_assert_bind]
    exact ⟨fun hno => by simp [h.amLeader] at hno, fun _ => .same h.toLeaderSaid⟩
  | prepareOK view opnum r => exact handlePrepareOK_spec h hmem view opnum r
  | commit view opnum =>
    rw [serverReceive, handleCommit, Ghost.spec_get_bind, Ghost.spec_assert_bind]
    exact ⟨fun hno => by simp [h.amLeader] at hno, fun _ => .same h.toLeaderSaid⟩
  | reply m => exact Ghost.spec_abort.mpr (.same h.toLeaderSaid)

/-! ### The other replicas -/

/-- What another replica does to the ghost: nothing. -/
abbrev followerGhost (S : Shards σ) (q i : Nat) : Ghost (History S) (Server σ) Output :=
  (shardsInvariant S).ghost (.replica q (i + 1))

variable {i : Nat}

theorem FollowerOk.congr (h : FollowerOk s) (hview : s'.view = s.view) (hlog : s'.log = s.log) :
    FollowerOk s' where
  view := hview ▸ h.view
  entries := hlog ▸ h.entries

theorem FollowerOk.amLeader (h : FollowerOk s) : amLeader (S.serverEnv q (i + 1)) s = false := by
  simp [Spanner.amLeader, Configuration.getLeaderIndex, h.view, Shards.serverEnv]

/-- `log.Append`. -/
theorem FollowerOk.append (h : FollowerOk s) {e : SpannerLogEntry} (he : e.view = 0) :
    (followerGhost S q i).Spec g (append e) s fun _ _ t => FollowerOk t := by
  rw [Spanner.append, Ghost.spec_get_bind, Ghost.spec_assert_bind, Ghost.spec_modify]
  refine ⟨fun _ => .same ⟨h.view, fun x hx => ?_⟩, fun _ => .same trivial⟩
  rcases List.mem_append.mp hx with hx | hx
  · exact h.entries x hx
  · rw [List.mem_singleton.mp hx]
    exact he

/-- `HandlePrepare`. -/
theorem FollowerOk.handlePrepare (h : FollowerOk s) (opnum : Nat) (d : TxnData) (req : Request) :
    (followerGhost S q i).Spec g (handlePrepare (S.serverEnv q (i + 1)) 0 opnum d req) s
      fun _ _ t => FollowerOk t := by
  rw [Spanner.handlePrepare, Ghost.spec_get_bind, Ghost.spec_assert_bind]
  refine ⟨fun _ => ?_, fun _ => .same trivial⟩
  rw [Ghost.spec_ite]
  refine ⟨fun _ => .sends h (sent_of fun _ _ => trivial), fun _ => ?_⟩
  have hfill : ∀ (_ : Nat) g s, FollowerOk s →
      (followerGhost S q i).Spec g (fillLog 0) s fun _ _ t => FollowerOk t := by
    intro _ g s h
    rw [fillLog, Ghost.spec_modify_bind, Ghost.spec_get_bind]
    refine FollowerOk.append ?_ rfl
    exact h.congr rfl rfl
  refine Ghost.Spec.bind (Ghost.Spec.iterate (fun _ _ s => FollowerOk s) hfill h) ?_
  intro _ g₁ t₁ _ h₁
  rw [Ghost.spec_modify_bind, Ghost.spec_get_bind, Ghost.spec_assert_bind]
  refine ⟨fun _ => ?_, fun _ => .same trivial⟩
  refine Ghost.Spec.bind (J := fun _ _ t => FollowerOk t) ?_ ?_
  · refine FollowerOk.append ?_ rfl
    exact h₁.congr rfl rfl
  intro _ g₂ t₂ _ h₂
  refine Ghost.Spec.bind (updateClientTable_spec (by exact trivial)) ?_
  rintro _ _ _ _ ⟨rfl, rfl⟩
  rw [Ghost.spec_emit]
  exact .sends (h₂.congr rfl rfl) (sent_of fun _ _ => trivial)

/-- `ExecuteTxn`: only a leader replies. -/
theorem FollowerOk.executeTxn (h : FollowerOk s) {entry : SpannerLogEntry} (hview : entry.view = 0) :
    (followerGhost S q i).Spec g (executeTxn (S.serverEnv q (i + 1)) entry) s
      fun _ _ t => FollowerOk t := by
  rw [Spanner.executeTxn, Ghost.spec_assert_bind]
  refine ⟨fun _ => ?_, fun _ => .same trivial⟩
  rw [Ghost.spec_assert_bind]
  refine ⟨fun _ => ?_, fun _ => .same trivial⟩
  refine Ghost.Spec.bind (J := fun _ _ t => FollowerOk t) ?_ ?_
  · rw [execute, Ghost.spec_get_bind]
    simp only [Ghost.spec_modify_bind]
    cases (s.app.execute (S.serverEnv q (i + 1)).app entry.opnum entry.request.op entry.txnData.arg).1 with
    | none => exact .same trivial
    | some x => exact .same (h.congr rfl rfl)
  · rintro ⟨result, ret⟩ g₁ t₁ _ h₁
    simp only [Ghost.spec_assert_bind]
    refine ⟨fun _ => ⟨fun _ => ?_, fun _ => .same trivial⟩, fun _ => .same trivial⟩
    rw [Ghost.spec_modify_bind, Ghost.spec_get_bind, Ghost.spec_when]
    refine ⟨fun hl => ?_, fun _ => .same (h₁.congr rfl rfl)⟩
    simp [hview, Configuration.getLeaderIndex, Shards.serverEnv] at hl

/-- `CommitUpTo`. -/
theorem FollowerOk.commitUpTo (h : FollowerOk s) (opnum : Nat) :
    (followerGhost S q i).Spec g (commitUpTo (S.serverEnv q (i + 1)) opnum) s
      fun _ _ t => FollowerOk t := by
  have hnext : ∀ (_ : Nat) g s, FollowerOk s → (followerGhost S q i).Spec g
      (commitNext (S.serverEnv q (i + 1))) s fun _ _ t => FollowerOk t := by
    intro _ g s h
    rw [commitNext, Ghost.spec_modify_bind, Ghost.spec_get_bind, Ghost.spec_ofOption_bind]
    refine ⟨fun entry hentry => ?_, fun _ => .same trivial⟩
    have hview := h.entries entry (mem_of_findEntry hentry)
    rw [Ghost.spec_when]
    refine ⟨fun _ => ?_, fun _ => .same (h.congr rfl rfl)⟩
    rw [Ghost.spec_modify_bind]
    refine FollowerOk.executeTxn ?_ hview
    exact ⟨h.view, forall_mem_setEntry (p := fun e : SpannerLogEntry => e.view = 0) h.entries hview⟩
  rw [Spanner.commitUpTo, Ghost.spec_get_bind]
  refine Ghost.Spec.bind (J := fun _ _ t => FollowerOk t) ?_ fun _ _ _ _ h₁ => ?_
  · rw [Ghost.spec_when, Ghost.spec_emit]
    exact ⟨fun _ => .sends h (sent_of fun _ _ => trivial), fun _ => .same h⟩
  · refine Ghost.Spec.bind (J := fun _ _ t => FollowerOk t) ?_ fun _ _ _ _ h₂ =>
      Ghost.Spec.iterate (fun _ _ s => FollowerOk s) hnext h₂
    rw [Ghost.spec_when, Ghost.spec_modify]
    exact ⟨fun _ => .same (h₁.congr rfl rfl), fun _ => .same h₁⟩

/-- Another replica handles a message. -/
theorem followerReceive_spec (h : FollowerOk s) {src : Node} {m : Message}
    (hm : PacketOk g ⟨src, .replica q (i + 1), m⟩) :
    (followerGhost S q i).Spec g (serverReceive (S.serverEnv q (i + 1)) src m) s
      fun _ _ t => FollowerOk t := by
  cases m with
  | request d req =>
    rw [serverReceive, handleClientRequest, Ghost.spec_modify_bind, Ghost.spec_get_bind, Ghost.spec_when]
    have h' : ∀ addresses, FollowerOk { s with clientAddresses := addresses } := fun _ => h.congr rfl rfl
    exact ⟨fun hl => by simp [(h' _).amLeader] at hl, fun _ => .same (h' _)⟩
  | prepare view opnum d req =>
    obtain rfl : view = 0 := hm
    exact h.handlePrepare opnum d req
  | prepareOK view opnum r =>
    rw [serverReceive, handlePrepareOK, Ghost.spec_get_bind, Ghost.spec_assert_bind]
    exact ⟨fun hl => by simp [h.amLeader] at hl, fun _ => .same trivial⟩
  | commit view opnum =>
    rw [serverReceive, handleCommit, Ghost.spec_get_bind, Ghost.spec_assert_bind, Ghost.spec_when]
    exact ⟨fun _ => ⟨fun _ => h.commitUpTo opnum, fun _ => .same h⟩, fun _ => .same trivial⟩
  | reply m => exact Ghost.spec_abort.mpr (.same trivial)

/-- Its timer, if it runs. -/
theorem FollowerOk.sendPrepare (h : FollowerOk s) :
    (followerGhost S q i).Spec g (sendPrepare (S.serverEnv q (i + 1))) s fun _ _ t => FollowerOk t := by
  rw [Spanner.sendPrepare, Ghost.spec_get_bind, Ghost.spec_ofOption_bind]
  refine ⟨fun e he => ?_, fun _ => .same trivial⟩
  refine Ghost.Spec.emit_bind (sent_of fun dst _ => h.entries e (mem_of_findEntry he)) ?_
  rw [Ghost.spec_modify]
  exact .same (h.congr rfl rfl)

end Dsnet.Spanner
