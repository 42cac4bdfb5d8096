import Dsnet.Granola.Invariant

/-! What becomes of the invariant of a leader when it logs a request, prepares it, decides and executes it. -/

namespace Dsnet.Granola
open Handler Transaction

variable {σ : Type} {S : Shards σ} {U : Prop} {g g' : History S U} {q : Nat} {s s' : Server σ}

/-! ### The log -/

@[simp] theorem reqId_logged (e : GranolaLogEntry) : e.logged.reqId = e.reqId := rfl

@[simp] theorem opnum_logged (e : GranolaLogEntry) : e.logged.opnum = e.opnum := rfl

theorem Server.mem_ops {e : GranolaLogEntry} (he : e ∈ s.log) : e.logged ∈ s.ops := List.mem_map_of_mem he

theorem Server.getElem?_ops {i : Nat} : s.ops[i]? = s.log[i]?.map GranolaLogEntry.logged :=
  List.getElem?_map ..

namespace LogOk
variable (h : LogOk g q s)
include h

theorem same (hops : s'.ops = s.ops) (hmap : s'.clientReqMap = s.clientReqMap) : LogOk g q s' :=
  h.congr (History.Advances.refl (.replica q 0) g) hops hmap

theorem opnum_eq {i : Nat} {e : GranolaLogEntry} (he : s.log[i]? = some e) : e.opnum = i + 1 :=
  h.numbered (Server.getElem?_ops.trans (congrArg _ he))

/-- An entry that is found under a number is there. -/
theorem of_find {n : Nat} {e : GranolaLogEntry} (he : findEntry s.log n = some e) :
    ∃ i, n = i + 1 ∧ s.log[i]? = some e ∧ e.opnum = n := by
  rw [findEntry] at he
  split_ifs at he with hn
  exact ⟨n - 1, by omega, he, by rw [h.opnum_eq he]; omega⟩

theorem lastOpnum_eq : lastOpnum (fun e => e.opnum) s.log = s.log.length := by
  rw [lastOpnum, List.getLast?_eq_getElem?]
  cases he : s.log[s.log.length - 1]? with
  | none =>
    have hlen := List.getElem?_eq_none_iff.mp he
    simp only [Option.map_none, Option.getD_none]
    omega
  | some e =>
    have hlt := (List.getElem?_eq_some_iff.mp he).1
    simp only [Option.map_some, Option.getD_some, h.opnum_eq he]
    omega

/-- Each number is used once. -/
theorem eq_of_opnum {e e' : GranolaLogEntry} (he : e ∈ s.log) (he' : e' ∈ s.log)
    (hn : e.opnum = e'.opnum) : e = e' := by
  obtain ⟨i, hi⟩ := List.mem_iff_getElem?.mp he
  obtain ⟨j, hj⟩ := List.mem_iff_getElem?.mp he'
  rw [h.opnum_eq hi, h.opnum_eq hj] at hn
  obtain rfl : i = j := by omega
  exact Option.some.inj (hi.symm.trans hj)

/-- Each request is logged once. -/
theorem unique {e e' : GranolaLogEntry} (he : e ∈ s.log) (he' : e' ∈ s.log) (hid : e.reqId = e'.reqId) :
    e = e' := by
  have hn := h.listed _ (Server.mem_ops he)
  have hn' := h.listed _ (Server.mem_ops he')
  rw [reqId_logged, hid] at hn
  rw [reqId_logged, hn] at hn'
  exact h.eq_of_opnum he he' (Option.some.inj hn')

/-- Later entries of a client have greater numbers. -/
theorem lt_of_lt {e e' : GranolaLogEntry} (he : e ∈ s.log) (he' : e' ∈ s.log)
    (hc : e.request.clientid = e'.request.clientid) (hlt : e.opnum < e'.opnum) :
    e.request.clientreqid < e'.request.clientreqid := by
  obtain ⟨i, hi⟩ := List.mem_iff_getElem?.mp he
  obtain ⟨j, hj⟩ := List.mem_iff_getElem?.mp he'
  rw [h.opnum_eq hi, h.opnum_eq hj] at hlt
  have hi' : s.ops[i]? = some e.logged := Server.getElem?_ops.trans (congrArg _ hi)
  have hj' : s.ops[j]? = some e'.logged := Server.getElem?_ops.trans (congrArg _ hj)
  obtain ⟨hil, hie⟩ := List.getElem?_eq_some_iff.mp hi'
  obtain ⟨hjl, hje⟩ := List.getElem?_eq_some_iff.mp hj'
  have hs := List.pairwise_iff_getElem.mp h.sorted i j hil hjl (by omega)
  rw [hie, hje] at hs
  exact hs hc

/-- What a lookup by request finds. -/
theorem of_findRequest {r : Nat × Nat} {e : GranolaLogEntry} (he : s.findRequest r = some e) :
    ∃ i : Nat, s.log[i]? = some e ∧ e.reqId = r := by
  obtain ⟨n, hn, hfind⟩ := Option.bind_eq_some_iff.mp he
  obtain ⟨i, -, hi, hop⟩ := h.of_find hfind
  obtain ⟨x, hx, hxn, hxr⟩ := h.found hn
  obtain ⟨e', he', rfl⟩ := List.mem_map.mp hx
  obtain rfl := h.eq_of_opnum (List.mem_of_getElem? hi) he' (hop.trans hxn.symm)
  exact ⟨i, hi, hxr⟩

/-- A new request is logged. -/
theorem append {x : Logged} (hx : g.Asked q x.txnid x.request) (hn : x.opnum = s.log.length + 1)
    (hnew : ∀ y ∈ s.ops, y.request.clientid = x.request.clientid →
      y.request.clientreqid < x.request.clientreqid)
    (hops : s'.ops = s.ops ++ [x])
    (hmap : s'.clientReqMap = Function.update s.clientReqMap x.reqId (some x.opnum)) :
    LogOk g q s' := by
  have hne : ∀ y ∈ s.ops, y.reqId ≠ x.reqId := by
    intro y hy heq
    obtain ⟨hc, hk⟩ := Prod.mk.inj heq
    have := hnew y hy hc
    omega
  have hlen : s.ops.length = s.log.length := List.length_map _
  refine ⟨fun y hy => ?_, fun {i y} hy => ?_, fun y hy => ?_, fun {r n} hr => ?_, ?_⟩
  · rw [hops] at hy
    rcases List.mem_append.mp hy with hy | hy
    · exact h.asked y hy
    · exact List.mem_singleton.mp hy ▸ hx
  · rcases of_getElem?_concat (hops ▸ hy) with hy | ⟨rfl, rfl⟩
    · exact h.numbered hy
    · rw [hn, hlen]
  · rw [hops] at hy
    rw [hmap]
    rcases List.mem_append.mp hy with hy | hy
    · rw [Function.update_of_ne (hne y hy)]
      exact h.listed y hy
    · rw [List.mem_singleton.mp hy, Function.update_self]
  · rw [hmap] at hr
    rw [hops]
    by_cases hrx : r = x.reqId
    · subst hrx
      rw [Function.update_self] at hr
      exact ⟨x, by simp, Option.some.inj hr, rfl⟩
    · rw [Function.update_of_ne hrx] at hr
      obtain ⟨y, hy, hyn⟩ := h.found hr
      exact ⟨y, List.mem_append_left _ hy, hyn⟩
  · rw [hops, List.pairwise_append]
    refine ⟨h.sorted, List.pairwise_singleton .., fun y hy z hz hc => ?_⟩
    obtain rfl := List.mem_singleton.mp hz
    exact hnew y hy hc

end LogOk

/-! ### Entries that change -/

/-- The entries of a log in which one has changed. -/
theorem mem_setEntry {log : List GranolaLogEntry} {i : Nat} {e' x : GranolaLogEntry}
    (hx : x ∈ setEntry log (i + 1) e') : x = e' ∨ x ∈ log :=
  (List.mem_or_eq_of_mem_set hx).symm

theorem getElem?_setEntry_self {log : List GranolaLogEntry} {i : Nat} {e e' : GranolaLogEntry}
    (hi : log[i]? = some e) : (setEntry log (i + 1) e')[i]? = some e' := by
  rw [setEntry, Nat.add_sub_cancel, List.getElem?_set_self (List.getElem?_eq_some_iff.mp hi).1]

theorem getElem?_setEntry_of_ne {log : List GranolaLogEntry} {i j : Nat} {e' : GranolaLogEntry}
    (hj : j ≠ i) : (setEntry log (i + 1) e')[j]? = log[j]? := by
  rw [setEntry, Nat.add_sub_cancel, List.getElem?_set_ne hj.symm]

/-- The other entries stay. -/
theorem mem_setEntry_of_ne {log : List GranolaLogEntry} {i : Nat} {e e' x : GranolaLogEntry}
    (hi : log[i]? = some e) (hx : x ∈ log) (hne : x ≠ e) : x ∈ setEntry log (i + 1) e' := by
  obtain ⟨j, hj⟩ := List.mem_iff_getElem?.mp hx
  refine List.mem_of_getElem? (i := j) ?_
  rw [getElem?_setEntry_of_ne, hj]
  rintro rfl
  exact hne (Option.some.inj (hj.symm.trans hi))

theorem length_setEntry {log : List GranolaLogEntry} {n : Nat} {e' : GranolaLogEntry} :
    (setEntry log n e').length = log.length := List.length_set

/-- What the entries are about does not change. -/
theorem ops_setEntry {i : Nat} {e e' : GranolaLogEntry} (hi : s.log[i]? = some e)
    (hl : e'.logged = e.logged) (hlog : s'.log = setEntry s.log (i + 1) e') : s'.ops = s.ops := by
  rw [Server.ops, hlog]
  exact map_setEntry (by rw [findEntry_succ, hi]) hl

/-! ### Calls into the application -/

/-- A call that is no PREPARE finds nothing. -/
theorem ownStatus_append {u : Call} (hu : u.arg.type ≠ .prepare)
    (hmap : s'.clientReqMap = s.clientReqMap) (hup : s'.app.upcalls = s.app.upcalls ++ [u]) (c k : Nat) :
    s'.ownStatus c k = s.ownStatus c k := by
  rw [Server.ownStatus, Server.ownStatus, hmap, hup]
  congr 1
  funext n
  rw [List.find?_append]
  simp [hu]

/-- A PREPARE finds the status of its operation. -/
theorem ownStatus_prepare (hlog : LogOk g q s) {e : GranolaLogEntry} (he : e ∈ s.log)
    (hnone : ∀ u ∈ s.app.upcalls, u.opnum ≠ e.opnum) {u : Call} (hn : u.opnum = e.opnum)
    (hu : u.arg.type = .prepare) (hmap : s'.clientReqMap = s.clientReqMap)
    (hup : s'.app.upcalls = s.app.upcalls ++ [u]) (c k : Nat) :
    s'.ownStatus c k = if c = e.request.clientid ∧ k = e.request.clientreqid then
      some (prepareStatus u.ret) else s.ownStatus c k := by
  have hl := hlog.listed _ (Server.mem_ops he)
  rw [reqId_logged] at hl
  split_ifs with hck
  · obtain ⟨rfl, rfl⟩ := hck
    have hold : s.app.upcalls.find? (fun u => u.opnum = e.opnum ∧ u.arg.type = .prepare) = none :=
      List.find?_eq_none.mpr fun v hv => by simp [hnone v hv]
    rw [Server.ownStatus, hmap, hl, hup, Option.bind_some, opnum_logged, List.find?_append, hold]
    simp [hn, hu]
  · rw [Server.ownStatus, Server.ownStatus, hmap, hup]
    cases hr : s.clientReqMap (c, k) with
    | none => rfl
    | some n =>
      obtain ⟨x, hx, rfl, hxr⟩ := hlog.found hr
      have hne : u.opnum ≠ x.opnum := by
        intro heq
        obtain ⟨e', he', rfl⟩ := List.mem_map.mp hx
        obtain rfl := hlog.eq_of_opnum he he' (hn.symm.trans heq)
        obtain ⟨hc, hk⟩ := Prod.mk.inj hxr
        exact hck ⟨hc.symm, hk.symm⟩
      simp only [Option.bind_some, List.find?_append]
      simp [hne]

theorem finished_append {calls : List Call} {u : Call} {txnid : Nat} (h : Finished calls txnid)
    (hu : u.arg.type = .commit ∨ u.arg.type = .abort ∨ u.arg.txnid ≠ txnid) :
    Finished (calls ++ [u]) txnid := by
  by_cases hid : txnid = u.arg.txnid
  · subst hid
    refine ⟨u, lastCall_append_self, ?_⟩
    rcases hu with hu | hu | hu
    · exact Or.inl hu
    · exact Or.inr hu
    · exact absurd rfl hu
  · obtain ⟨v, hv, ht⟩ := h
    exact ⟨v, (lastCall_append_of_ne hid).trans hv, ht⟩

/-! ### What the handlers leave -/

/-- What the invariant is about. -/
def Server.kept (s : Server σ) :=
  (s.log, s.clientReqMap, s.app, s.view, s.lastOp, s.lastCommitted, s.voteQuorum, s.clientTable,
    s.clientAddresses)

theorem LeaderOk.congr (h : LeaderOk g q s) (hkept : s'.kept = s.kept) : LeaderOk g q s' := by
  cases s
  cases s'
  simp only [Server.kept, Prod.mk.injEq] at hkept
  obtain ⟨rfl, rfl, rfl, rfl, rfl, rfl, rfl, rfl, rfl⟩ := hkept
  exact { h with
    log := h.log.same rfl rfl
    own := h.own }

namespace LeaderOk
variable (h : LeaderOk g q s)
include h

/-- An entry that is not PREPARED has been committed. -/
theorem committed_of_state {i : Nat} {e : GranolaLogEntry} (hi : s.log[i]? = some e)
    (hs : e.state ≠ .prepared) : i < s.lastCommitted := by
  by_contra hlt
  exact hs ((h.entries hi).fresh hlt).1

/-- The client table knows the requests of the log. -/
theorem le_lastReqId {e : GranolaLogEntry} (he : e ∈ s.log) {c : Nat} (hc : e.request.clientid = c)
    {cte : ClientTableEntry} (ht : s.clientTable c = some cte) : e.request.clientreqid ≤ cte.lastReqId := by
  obtain ⟨cte', ht', hle⟩ := h.covers e he
  rw [hc, ht] at ht'
  cases ht'
  exact hle

/-- The entry of a client in the table changes. -/
theorem table {c : Nat} {cte : ClientTableEntry}
    (hcovers : ∀ e ∈ s.log, e.request.clientid = c → e.request.clientreqid ≤ cte.lastReqId)
    (htabled : ∀ e ∈ s.log, e.state ≠ .prepared → e.request.clientid = c →
      cte.lastReqId = e.request.clientreqid →
      cte.reply.clientreqid = e.request.clientreqid ∧ cte.reply.shardNum = q)
    (hreplied : cte.replied = true → cte.reply.clientreqid = cte.lastReqId ∧ cte.reply.shardNum = q ∧
      g.Replied q c cte.lastReqId cte.reply.status) :
    LeaderOk g q { s with clientTable := Function.update s.clientTable c (some cte) } := by
  refine { h with
    log := h.log.same rfl rfl
    own := h.own
    covers := fun e he => ?_
    tabled := fun e he hs {cte'} hc hk => ?_
    replied := fun {c' cte'} hc hr => ?_ }
  · by_cases hne : e.request.clientid = c
    · exact ⟨cte, by simp [hne], hcovers e he hne⟩
    · simp only [Function.update_of_ne hne]
      exact h.covers e he
  · by_cases hne : e.request.clientid = c
    · simp only [hne, Function.update_self, Option.some.injEq] at hc
      subst hc
      exact htabled e he hs hne hk
    · simp only [Function.update_of_ne hne] at hc
      exact h.tabled e he hs hc hk
  · by_cases hne : c' = c
    · subst hne
      simp only [Function.update_self, Option.some.injEq] at hc
      subst hc
      exact hreplied hr
    · simp only [Function.update_of_ne hne] at hc
      exact h.replied hc hr

/-- A request is logged. -/
theorem logged {e : GranolaLogEntry} (hx : g.Asked q e.txnData.txnid e.request)
    (hn : e.opnum = s.log.length + 1) (hview : e.view = 0) (hstate : e.state = .prepared)
    (hts : e.txnData.tsDecided = true → e.request.ops.length = 1)
    (hnew : ∀ y ∈ s.ops, y.request.clientid = e.request.clientid →
      y.request.clientreqid < e.request.clientreqid)
    (hcovers : ∃ cte, s.clientTable e.request.clientid = some cte ∧
      e.request.clientreqid ≤ cte.lastReqId) :
    LeaderOk g q { s with
      lastOp := s.log.length + 1
      clientReqMap := Function.update s.clientReqMap e.reqId (some e.opnum)
      log := s.log ++ [e] } := by
  have hmem : ∀ {x}, x ∈ s.log ++ [e] → x ∈ s.log ∨ x = e := by
    intro x hx
    exact (List.mem_append.mp hx).imp_right List.mem_singleton.mp
  refine {
    log := h.log.append (x := e.logged) hx hn hnew (List.map_append ..) rfl
    own := fun c k => (h.own c k).trans ?_
    decided := fun x hx hd => ?_
    done := fun {c k} hd => ?_
    finished := fun x hx hs hne hlater => ?_
    app := h.app
    view := h.view
    lastOp := by simp
    committed := by simpa using Nat.le_succ_of_le h.committed
    calls := h.calls
    entries := fun {i x} hi => ?_
    votes := h.votes
    required := h.required
    one := h.one
    covers := fun x hx => ?_
    tabled := fun x hx hs {cte} hc hk => ?_
    replied := h.replied
    addresses := h.addresses
    appOk := h.appOk }
  · -- no call is about the new operation
    rw [Server.ownStatus, Server.ownStatus]
    by_cases hck : (c, k) = e.reqId
    · have hnone : s.clientReqMap (c, k) = none := by
        by_contra hne
        obtain ⟨n, hn⟩ := Option.ne_none_iff_exists'.mp hne
        obtain ⟨y, hy, -, hyr⟩ := h.log.found hn
        obtain ⟨hc, hk⟩ := Prod.mk.inj (hyr.trans hck)
        have := hnew y hy hc
        omega
      rw [hnone]
      simp only [hck, Function.update_self, Option.bind_none, Option.bind_some]
      rw [List.find?_eq_none.mpr fun u hu => ?_]
      · rfl
      · have hle := h.calls u hu
        have hcom := h.committed
        have hne : u.opnum ≠ e.opnum := by omega
        simp [hne]
    · simp only [Function.update_of_ne hck]
  · rcases hmem hx with hx | rfl
    · exact h.decided x hx hd
    · rcases hd with hd | ⟨hd, hm⟩
      · rw [hstate] at hd
        cases hd
      · rw [hts hd] at hm
        exact absurd hm (lt_irrefl 1)
  · obtain ⟨x, hx, hrest⟩ := h.done hd
    exact ⟨x, List.mem_append_left _ hx, hrest⟩
  · rcases hmem hx with hx | rfl
    · exact h.finished x hx hs hne fun x' hx' => hlater x' (List.mem_append_left _ hx')
    · rw [hstate] at hs
      cases hs
  · rcases of_getElem?_concat hi with hi | ⟨rfl, rfl⟩
    · exact h.entries hi
    · exact ⟨hview, fun _ => ⟨hstate, hts⟩, fun hs => absurd hstate hs, fun hs => absurd hstate hs⟩
  · rcases hmem hx with hx | rfl
    · exact h.covers x hx
    · exact hcovers
  · rcases hmem hx with hx | rfl
    · exact h.tabled x hx hs hc hk
    · exact absurd hstate hs

/-- The votes that are kept change. -/
theorem revote {votes : MessageSet (Nat × Nat) VoteMessage}
    (hvotes : ∀ {c k p r m}, votes.Has (c, k) p r m → s.voteQuorum.Has (c, k) p r m ∨
      (r = 0 ∧ p ≠ q ∧ g.Voted p c k m.status))
    (hrequired : ∀ {c k n}, votes.required (c, k) = some n → s.voteQuorum.required (c, k) = some n ∨
      ∃ a, g.ask c k = some a ∧ n = a.shards.length - 1)
    (hone : votes.replicaRequired = 1) : LeaderOk g q { s with voteQuorum := votes } :=
  { h with
    log := h.log.same rfl rfl
    own := h.own
    votes := fun hv => (hvotes hv).elim h.votes id
    required := fun hr => (hrequired hr).elim h.required id
    one := hone }

/-- The votes that a transaction needs are set: one of each other shard. -/
theorem setRequired {c k n : Nat} {a : Ask} (ha : g.ask c k = some a) (hn : n = a.shards.length - 1) :
    LeaderOk g q { s with voteQuorum := s.voteQuorum.setShardRequired (c, k) n } := by
  refine h.revote (fun hv => Or.inl (MessageSet.has_setShardRequired hv)) (fun {c' k' m} hr => ?_) h.one
  by_cases hck : (c', k') = (c, k)
  · obtain ⟨rfl, rfl⟩ := Prod.mk.inj hck
    rw [MessageSet.required_setShardRequired] at hr
    exact Or.inr ⟨a, ha, (Option.some.inj hr).symm.trans hn⟩
  · rw [MessageSet.required_setShardRequired_of_ne hck] at hr
    exact Or.inl hr

/-- The leader has executed what the ghost says now. -/
theorem finish {c k : Nat} (he : ∃ e ∈ s.log, e.reqId = (c, k) ∧ e.state = .executed) :
    LeaderOk (g.finish q c k) q s := by
  have hg := History.advances_finish (g := g) (q := q) (c := c) (k := k)
  refine { h with
    log := h.log.congr hg rfl rfl
    own := h.own
    decided := fun e he hd => (h.decided e he hd).mono hg
    done := fun {c' k'} hd => ?_
    entries := fun hi => (h.entries hi).mono hg
    votes := fun hv => ?_
    required := h.required
    replied := fun hc hr => ?_ }
  · rcases hd with hd | ⟨-, rfl, rfl⟩
    · exact h.done hd
    · exact he
  · obtain ⟨hr, hp, hvoted⟩ := h.votes hv
    exact ⟨hr, hp, hvoted.mono hg⟩
  · obtain ⟨hid, hsh, hrep⟩ := h.replied hc hr
    exact ⟨hid, hsh, hrep.mono hg⟩

/-- An entry changes that is not PREPARED then: what was decided, done or finished before still is. -/
theorem said_store {i : Nat} {e e' : GranolaLogEntry} (hi : s.log[i]? = some e) (hl : e'.logged = e.logged)
    (hs' : e'.state ≠ .prepared) (hlog : s'.log = setEntry s.log (i + 1) e')
    (hmap : s'.clientReqMap = s.clientReqMap) (hg : g.Advances (.replica q 0) g')
    (hdone : ∀ {c k}, g'.done q c k → g.done q c k) (hown : ∀ c k, g'.own q c k = s'.ownStatus c k)
    (happ : s'.app.Said (S.app q 0)) (hdec : e'.Decided → e'.Settled g')
    (hex : e.state = .executed → e'.state = .executed)
    (hfin : e'.state = .executed → e'.txnData.status ≠ .conflict → Finished s'.app.upcalls e'.txnData.txnid)
    (hcalls : ∀ {x}, x ∈ s.log → x.state = .executed →
      (x.opnum < e.opnum → e.txnData.txnid ≠ x.txnData.txnid) → Finished s.app.upcalls x.txnData.txnid →
      Finished s'.app.upcalls x.txnData.txnid) : LeaderSaid g' q s' := by
  have hop : e'.opnum = e.opnum := congrArg Logged.opnum hl
  have htx : e'.txnData.txnid = e.txnData.txnid := congrArg Logged.txnid hl
  have hin : ∀ {x}, x ∈ s'.log → x = e' ∨ x ∈ s.log := fun hx => mem_setEntry (hlog ▸ hx)
  have hself : e' ∈ s'.log := hlog ▸ List.mem_of_getElem? (getElem?_setEntry_self hi)
  have hstays : ∀ {x}, x ∈ s.log → x ≠ e → x ∈ s'.log := fun hx hne => hlog ▸ mem_setEntry_of_ne hi hx hne
  refine ⟨h.log.congr hg (ops_setEntry hi hl hlog) hmap, hown, fun x hx => ?_, fun {c k} hd => ?_,
    fun x hx hs hne hlater => ?_, happ⟩
  · rcases hin hx with rfl | hx
    · exact hdec
    · exact fun hd => (h.decided x hx hd).mono hg
  · obtain ⟨x, hx, hid, hs⟩ := h.done (hdone hd)
    by_cases hxe : x = e
    · subst hxe
      exact ⟨e', hself, (congrArg Logged.reqId hl).trans hid, hex hs⟩
    · exact ⟨x, hstays hx hxe, hid, hs⟩
  · rcases hin hx with rfl | hx
    · exact hfin hs hne
    · -- if the entry that changes is a later one, it is not about the same transaction
      have hnot : x.opnum < e.opnum → e.txnData.txnid ≠ x.txnData.txnid := fun hlt hid =>
        hs' (hlater e' hself (by rwa [hop]) (htx.trans hid))
      refine hcalls hx hs hnot (h.finished x hx hs hne fun y hy hlt hid => ?_)
      by_cases hye : y = e
      · subst hye
        exact absurd hid (hnot hlt)
      · exact hlater y (hstays hy hye) hlt hid

/-- The next entry is committed. -/
theorem said_commit {e e' : GranolaLogEntry} (hi : s.log[s.lastCommitted]? = some e)
    (hl : e'.logged = e.logged) (hstate' : e'.state = .committed)
    (hts' : e'.txnData.tsDecided = e.txnData.tsDecided)
    (hlog : s'.log = setEntry s.log (s.lastCommitted + 1) e') (hmap : s'.clientReqMap = s.clientReqMap)
    (hg : g.Advances (.replica q 0) g') (hdone : ∀ {c k}, g'.done q c k → g.done q c k)
    (hown : ∀ c k, g'.own q c k = s'.ownStatus c k) (happ : s'.app.Said (S.app q 0))
    (hcalls : ∀ {txnid}, e.txnData.txnid ≠ txnid → Finished s.app.upcalls txnid →
      Finished s'.app.upcalls txnid) : LeaderSaid g' q s' := by
  obtain ⟨hstate, hts⟩ := (h.entries hi).fresh (lt_irrefl _)
  have hne : e'.state ≠ .executed := by simp [hstate']
  refine h.said_store hi hl (by simp [hstate']) hlog hmap hg hdone hown happ (fun hd => ?_)
    (fun hs => by simp [hstate] at hs) (fun hs => absurd hs hne) fun {x} hx hs hnot hf => hcalls (hnot ?_) hf
  · obtain ⟨hd, hm⟩ := hd.resolve_left hne
    have hreq : e'.request = e.request := congrArg Logged.request hl
    have := hts (hts' ▸ hd)
    rw [hreq] at hm
    omega
  · -- what has been executed has been committed
    obtain ⟨j, hj⟩ := List.mem_iff_getElem?.mp hx
    have hlt := h.committed_of_state hj (by simp [hs])
    have hn := h.log.opnum_eq hi
    have hnx := h.log.opnum_eq hj
    omega

/-- An entry that has been committed changes: its transaction is decided, or executed. -/
theorem store {i : Nat} {e e' : GranolaLogEntry} (hi : s.log[i]? = some e) (hl : e'.logged = e.logged)
    (hs : e.state ≠ .prepared) (hs' : e'.state ≠ .prepared) (hok : EntryOk g q (i < s.lastCommitted) e')
    (hdec : e'.Decided → e'.Settled g) (hex : e.state = .executed → e'.state = .executed)
    (hfin : e'.state = .executed → e'.txnData.status ≠ .conflict →
      Finished s.app.upcalls e'.txnData.txnid) :
    LeaderOk g q { s with log := setEntry s.log (i + 1) e' } := by
  have he : e ∈ s.log := List.mem_of_getElem? hi
  have hreq : e'.request = e.request := congrArg Logged.request hl
  refine { h with
    toLeaderSaid := h.said_store hi hl hs' rfl rfl (History.Advances.refl (.replica q 0) g) (fun hd => hd) h.own
      h.app hdec hex hfin fun _ _ _ hf => hf
    lastOp := by simpa [length_setEntry] using h.lastOp
    committed := by simpa [length_setEntry] using h.committed
    entries := fun {j x} hj => ?_
    covers := fun x hx => ?_
    tabled := fun x hx hsx {cte} hc hk => ?_ }
  · by_cases hji : j = i
    · subst hji
      rw [getElem?_setEntry_self hi] at hj
      exact Option.some.inj hj ▸ hok
    · rw [getElem?_setEntry_of_ne hji] at hj
      exact h.entries hj
  · rcases mem_setEntry hx with rfl | hx
    · rw [hreq]
      exact h.covers e he
    · exact h.covers x hx
  · rcases mem_setEntry hx with rfl | hx
    · rw [hreq] at hc hk ⊢
      exact h.tabled e he hs hc hk
    · exact h.tabled x hx hsx hc hk

/-- A call that finishes a transaction. -/
theorem call {u : Call} {app : AppState σ} (hu : u.arg.type = .commit ∨ u.arg.type = .abort)
    (hop : u.opnum ≤ s.lastCommitted) (hup : app.upcalls = s.app.upcalls ++ [u])
    (happ : app.Ok (S.app q 0)) : LeaderOk g q { s with app := app } := by
  have hu' : u.arg.type ≠ .prepare := by
    rcases hu with hu | hu <;> rw [hu] <;> simp
  refine { h with
    log := h.log.same rfl rfl
    own := fun c k => ?_
    finished := fun e he hs hne hlater => ?_
    app := happ.said
    calls := fun v hv => ?_
    appOk := happ }
  · rw [h.own]
    refine (ownStatus_append hu' ?_ ?_ c k).symm
    · rfl
    · exact hup
  · rw [hup]
    refine finished_append (h.finished e he hs hne hlater) ?_
    rcases hu with hu | hu
    · exact Or.inl hu
    · exact Or.inr (Or.inl hu)
  · rw [hup] at hv
    rcases List.mem_append.mp hv with hv | hv
    · exact h.calls v hv
    · exact List.mem_singleton.mp hv ▸ hop

/-- The next entry is committed, and prepared in the application. -/
theorem prepared {e : GranolaLogEntry} (hi : s.log[s.lastCommitted]? = some e)
    (hmem : S.protocol.member (.replica q 0) = true) {u : Call} {app : AppState σ}
    (hn : u.opnum = e.opnum) (hu : u.arg = { txnid := e.txnData.txnid, type := .prepare })
    (hup : app.upcalls = s.app.upcalls ++ [u]) (happ : app.Ok (S.app q 0))
    (htabled : ∀ {cte}, s.clientTable e.request.clientid = some cte →
      cte.lastReqId = e.request.clientreqid →
      cte.reply.clientreqid = e.request.clientreqid ∧ cte.reply.shardNum = q) :
    ∃ g', g.Advances (.replica q 0) g' ∧ LeaderOk g' q { s with
      lastCommitted := s.lastCommitted + 1
      app := app
      log := setEntry s.log (s.lastCommitted + 1)
        ({ e with state := .committed }.withStatus (prepareStatus u.ret)) } := by
  have he : e ∈ s.log := List.mem_of_getElem? hi
  have heok := h.entries hi
  have hop := h.log.opnum_eq hi
  have hnone : ∀ v ∈ s.app.upcalls, v.opnum ≠ e.opnum := by
    intro v hv
    have := h.calls v hv
    omega
  have hnew : g.own q e.request.clientid e.request.clientreqid = none := by
    rw [h.own, Server.ownStatus]
    have hl := h.log.listed _ (Server.mem_ops he)
    rw [reqId_logged] at hl
    rw [hl, Option.bind_some, Option.map_eq_none_iff, List.find?_eq_none]
    intro v hv
    simp [hnone v hv]
  obtain ⟨a, txn, ha, htxn, -, -, hops⟩ := h.log.asked _ (Server.mem_ops he)
  have hasked : ∃ a, g.ask e.request.clientid e.request.clientreqid = some a ∧ q ∈ a.shards :=
    ⟨a, ha, Ask.mem_shards htxn⟩
  have hg := History.advances_vote (prepareStatus u.ret) hmem hasked hnew
  refine ⟨_, hg, ?_⟩
  set e' := { e with state := .committed }.withStatus (prepareStatus u.ret) with hedef
  have hlt := (List.getElem?_eq_some_iff.mp hi).1
  refine {
    toLeaderSaid := h.said_commit hi (show e'.logged = e.logged by rw [hedef]; rfl) rfl rfl rfl rfl hg
      (fun hd => hd) (fun c k => ?_) happ.said fun hid hfin => ?_
    view := h.view
    lastOp := by simpa [length_setEntry] using h.lastOp
    committed := by simpa only [length_setEntry] using Nat.succ_le_of_lt hlt
    calls := fun v hv => ?_
    entries := fun {j x} hj => ?_
    votes := fun hv => ?_
    required := h.required
    one := h.one
    covers := fun x hx => ?_
    tabled := fun x hx hs {cte} hc hk => ?_
    replied := fun hc hr => ?_
    addresses := h.addresses
    appOk := happ }
  · rw [History.own_vote, h.own]
    refine (ownStatus_prepare h.log he hnone hn (by rw [hu]) ?_ ?_ c k).symm
    · rfl
    · exact hup
  · rw [hup]
    exact finished_append hfin (Or.inr (Or.inr (by rwa [hu])))
  · rw [hup] at hv
    rcases List.mem_append.mp hv with hv | hv
    · exact Nat.le_succ_of_le (h.calls v hv)
    · rw [List.mem_singleton.mp hv, hn, hop]
  · by_cases hji : j = s.lastCommitted
    · subst hji
      rw [getElem?_setEntry_self hi] at hj
      obtain rfl : e' = x := Option.some.inj hj
      have hvote : ((g.vote q e.request.clientid e.request.clientreqid (prepareStatus u.ret) hmem hasked).own
          q e.request.clientid e.request.clientreqid) = some (prepareStatus u.ret) := by
        rw [History.own_vote, if_pos ⟨rfl, rfl⟩]
      exact ⟨heok.view, fun hc => absurd (Nat.lt_succ_self _) hc, fun _ => ⟨hasked, Or.inl hvote⟩,
        fun _ _ => hvote⟩
    · rw [getElem?_setEntry_of_ne hji] at hj
      have hjok := (h.entries hj).mono hg
      exact ⟨hjok.view, fun hc => hjok.fresh fun hlt' => hc (Nat.lt_succ_of_lt hlt'), hjok.voted,
        hjok.waits⟩
  · obtain ⟨hr, hp, hvoted⟩ := h.votes hv
    exact ⟨hr, hp, hvoted.mono hg⟩
  · rcases mem_setEntry hx with rfl | hx
    · exact h.covers e he
    · exact h.covers x hx
  · rcases mem_setEntry hx with rfl | hx
    · exact htabled hc hk
    · exact h.tabled x hx hs hc hk
  · obtain ⟨hid, hsh, hrep⟩ := h.replied hc hr
    exact ⟨hid, hsh, hrep.mono hg⟩

end LeaderOk

end Dsnet.Granola
