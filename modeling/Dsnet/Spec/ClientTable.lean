import Dsnet.Spec.Effects

/-! The client table of a Speculative Paxos replica. All along a run it is what the requests of the log
    lead to, one after the other (`tableOf`), and each log entry keeps the opnum that the table had
    for its client before it (`Tabled`). So `RollbackTo` finds for each client what the table was when
    the log was shorter (`rollbackTo_sat`), unless it comes to an entry that had not changed the table
    (`Repeats`), where its assertion fails. `HandleRequest` logs no such entry, and what it logs
    speculatively can be rolled back (`rollbackTo_restores`). -/

namespace Dsnet.Spec
open Handler

variable {E : Env} {s t : Replica} {l l' : Log} {clientid : Nat}

/-! ### The table of a log -/

/-- The client table entry that the requests of the log lead to. -/
def tableOf (l : Log) (clientid : Nat) : ClientTableEntry :=
  l.entries.foldl (fun entry e =>
    if e.request.clientid = clientid then entry.update e.request.clientreqid e.opnum else entry) {}

/-- Only the requests and the hashes matter, as the entries are numbered. -/
theorem tableOf_of_stamps (h : stamps l = stamps l') : tableOf l = tableOf l' := by
  have heq : l.entries.map (fun e => (e.request, e.opnum)) =
      l'.entries.map fun e => (e.request, e.opnum) := by
    refine List.ext_getElem? fun i => ?_
    have hi := congrArg (fun m : List (Request × String) => m[i]?) h
    simp only [stamps, List.getElem?_map] at hi ⊢
    cases hx : l.entries[i]? with
    | none => cases hy : l'.entries[i]? with
      | none => rfl
      | some y => simp [hx, hy] at hi
    | some x => cases hy : l'.entries[i]? with
      | none => simp [hx, hy] at hi
      | some y =>
        rw [hx, hy] at hi
        have hreq : x.request = y.request := congrArg Prod.fst (Option.some.inj hi)
        have hop : x.opnum = y.opnum := (l.numbered i x hx).trans (l'.numbered i y hy).symm
        rw [Option.map_some, Option.map_some, hreq, hop]
  have hfold : ∀ (m : Log) (c : Nat), tableOf m c =
      (m.entries.map fun e => (e.request, e.opnum)).foldl (fun entry x =>
        if x.1.clientid = c then entry.update x.1.clientreqid x.2 else entry) {} := by
    intro m c
    rw [List.foldl_map, tableOf]
  funext c
  rw [hfold, hfold, heq]

/-- One more entry. -/
theorem tableOf_concat {e : LogEntry} (h : l'.entries = l.entries ++ [e]) (clientid : Nat) :
    tableOf l' clientid = if e.request.clientid = clientid then
      (tableOf l clientid).update e.request.clientreqid e.opnum else tableOf l clientid := by
  rw [tableOf, h, List.foldl_append]
  rfl

theorem entries_take_succ {k : Nat} {e : LogEntry} (h : l.find (k + 1) = some e) :
    (l.take (k + 1)).entries = (l.take k).entries ++ [e] := by
  have he : l.entries[k]? = some e := (Log.find_eq_some.mp h).2
  rw [Log.entries_take, Log.entries_take, List.take_add_one, he]
  rfl

/-- What the table says of a client is the number of one of its requests, under its opnum. -/
theorem tableOf_take_names (l : Log) (clientid : Nat) : ∀ k ≤ l.entries.length,
    tableOf (l.take k) clientid = {} ∨ ∃ e,
      l.find (tableOf (l.take k) clientid).lastReqOpnum = some e ∧ e.request.clientid = clientid ∧
      e.request.clientreqid = (tableOf (l.take k) clientid).lastReqId := by
  intro k
  induction k with
  | zero =>
    intro _
    left
    rw [tableOf, Log.entries_take, List.take_zero]
    rfl
  | succ k ih =>
    intro hk
    obtain ⟨e, he⟩ : ∃ e, l.find (k + 1) = some e := by
      rcases hnone : l.find (k + 1) with _ | e
      · have := (Log.find_eq_none (Nat.le_add_left 1 k)).mp hnone
        omega
      · exact ⟨e, rfl⟩
    rw [tableOf_concat (entries_take_succ he)]
    unfold ClientTableEntry.update
    split_ifs with hc hid
    · exact ih (Nat.le_of_succ_le hk)
    · exact Or.inr ⟨e, by rw [Log.opnum_of_find he]; exact he, hc, rfl⟩
    · exact ih (Nat.le_of_succ_le hk)

/-- The entry after opnum `k` has not changed the table: the client's last request number was its own. -/
def Repeats (l : Log) (k : Nat) : Prop :=
  ∃ e, l.find (k + 1) = some e ∧ (tableOf (l.take k) e.request.clientid).lastReqId = e.request.clientreqid

/-- The client table, and what the log entries keep of it, are those of the log. -/
structure Tabled (s : Replica) : Prop where
  full : s.lastSpeculative = s.log.entries.length
  committed : s.lastCommitted ≤ s.log.entries.length
  table : ∀ c, s.clientEntry c = tableOf s.log c
  prev : ∀ k e, s.log.find (k + 1) = some e →
    s.prevClientReqOpnum (k + 1) = (tableOf (s.log.take k) e.request.clientid).lastReqOpnum

@[simp] theorem clientEntry_setClientEntry (s : Replica) (c c' : Nat) (e : ClientTableEntry) :
    (s.setClientEntry c e).clientEntry c' = if c' = c then e else s.clientEntry c' := by
  show (if c' = c then some e else s.clientTable c').getD {} = _
  split_ifs <;> rfl

/-! ### Rolling back -/

/-- One entry is taken back, unless it had not changed the table. -/
theorem rollBackClient_tableOf {k : Nat} {e : LogEntry} (he : s.log.find (k + 1) = some e)
    (htable : ∀ c, s.clientEntry c = tableOf (s.log.take (k + 1)) c)
    (hprev : s.prevClientReqOpnum (k + 1) =
      (tableOf (s.log.take k) e.request.clientid).lastReqOpnum) :
    Sat (rollBackClient (k + 1)) s
      (fun _ t o => o = [] ∧ t = s.setClientEntry e.request.clientid
        (tableOf (s.log.take k) e.request.clientid))
      (fun _ o => o = [] ∧ Repeats s.log k) := by
  have hlast := tableOf_concat (entries_take_succ he) e.request.clientid
  rw [if_pos rfl] at hlast
  have hlong : k ≤ s.log.entries.length :=
    ((List.getElem?_eq_some_iff.mp (Log.find_eq_some.mp he).2).1).le
  unfold rollBackClient
  simp only [sat_bind, sat_get, sat_ofOption, sat_assert, sat_ite, sat_modify, List.nil_append, hprev]
  refine ⟨fun e' he' => ?_, fun hnone => by rw [he] at hnone; cases hnone⟩
  obtain rfl : e = e' := Option.some.inj (he.symm.trans he')
  refine ⟨fun _ => ⟨fun hpos => ⟨fun old hold => ⟨trivial, ?_⟩, fun hnone => ?_⟩,
    fun hzero => ⟨trivial, ?_⟩⟩, fun hne => ⟨trivial, e, he, ?_⟩⟩
  · rcases tableOf_take_names s.log e.request.clientid k hlong with hempty | ⟨x, hx, _, hid⟩
    · rw [hempty] at hpos
      exact absurd hpos (lt_irrefl 0)
    · obtain rfl : x = old := Option.some.inj (hx.symm.trans hold)
      rw [hid]
  · rcases tableOf_take_names s.log e.request.clientid k hlong with hempty | ⟨x, hx, _, _⟩
    · rw [hempty] at hpos
      exact absurd hpos (lt_irrefl 0)
    · rw [hx] at hnone
      cases hnone
  · rcases tableOf_take_names s.log e.request.clientid k hlong with hempty | ⟨x, hx, _, _⟩
    · rw [hempty]
    · exact absurd (Log.find_eq_some.mp hx).1 (by omega)
  · rw [htable, hlast, ClientTableEntry.update] at hne
    split_ifs at hne with hid
    · exact hid
    · exact absurd rfl hne

/-- The entries above `backto` are taken back, the last first. -/
theorem rollBackClients_tableOf {backto : Nat} : ∀ (n : Nat) {s : Replica},
    backto + n ≤ s.log.entries.length →
    (∀ c, s.clientEntry c = tableOf (s.log.take (backto + n)) c) →
    (∀ k e, s.log.find (k + 1) = some e →
      s.prevClientReqOpnum (k + 1) = (tableOf (s.log.take k) e.request.clientid).lastReqOpnum) →
    Sat (forEach (List.range' (backto + 1) n).reverse rollBackClient) s
      (fun _ t o => o = [] ∧ (∃ c, t = { s with clientTable := c }) ∧
        ∀ c, t.clientEntry c = tableOf (s.log.take backto) c)
      (fun _ o => o = [] ∧ ∃ k, backto ≤ k ∧ Repeats s.log k)
  | 0, s, _, htable, _ => ⟨rfl, ⟨s.clientTable, rfl⟩, htable⟩
  | n + 1, s, hlen, htable, hprev => by
      obtain ⟨e, he⟩ : ∃ e, s.log.find (backto + n + 1) = some e := by
        rcases hnone : s.log.find (backto + n + 1) with _ | e
        · have := (Log.find_eq_none (Nat.le_add_left 1 _)).mp hnone
          omega
        · exact ⟨e, rfl⟩
      rw [List.range'_concat, List.reverse_append, List.reverse_singleton, List.singleton_append,
        Nat.one_mul, Nat.add_right_comm, forEach, sat_bind]
      refine (rollBackClient_tableOf he htable (hprev _ e he)).mono ?_ ?_
      · rintro _ t o ⟨rfl, rfl⟩
        refine (rollBackClients_tableOf n (s := s.setClientEntry e.request.clientid
          (tableOf (s.log.take (backto + n)) e.request.clientid)) (Nat.le_of_succ_le hlen)
          (fun c => ?_) hprev).mono ?_ ?_
        · rw [clientEntry_setClientEntry]
          split_ifs with hc
          · rw [hc]
            rfl
          · rw [htable, ← Nat.add_assoc, tableOf_concat (entries_take_succ he), if_neg (Ne.symm hc)]
            rfl
        · rintro _ t o ⟨rfl, ⟨c, rfl⟩, hc⟩
          exact ⟨rfl, ⟨c, rfl⟩, hc⟩
        · rintro t o ⟨rfl, hrep⟩
          exact ⟨rfl, hrep⟩
      · rintro t o ⟨rfl, hrep⟩
        exact ⟨rfl, _, Nat.le_add_right .., hrep⟩

/-- The operations above `backto` in the log. -/
def undone (l : Log) (backto : Nat) : List (Nat × String) :=
  (l.entries.drop backto).map fun e => (e.opnum, e.request.op)

theorem rolledBack_eq (l : Log) (backto : Nat) :
    rolledBack l l.entries.length backto = some (undone l backto) := by
  have hmap : ∀ (n b : Nat), b + n = l.entries.length →
      (List.range' (b + 1) n).mapM (fun x => (l.find x).map fun e => (x, e.request.op)) =
        some (undone l b) := by
    intro n
    induction n with
    | zero =>
      intro b hb
      rw [undone, List.drop_eq_nil_of_le (by omega)]
      rfl
    | succ n ih =>
      intro b hb
      have hlt : b < l.entries.length := by omega
      have hfind : l.find (b + 1) = some l.entries[b] :=
        Log.find_eq_some.mpr ⟨Nat.le_add_left .., List.getElem?_eq_getElem hlt⟩
      have hop : l.entries[b].opnum = b + 1 := Log.opnum_of_find hfind
      rw [List.range'_succ, List.mapM_cons, hfind, ih (b + 1) (by omega), undone, undone,
        List.drop_eq_getElem_cons hlt, List.map_cons, hop]
      rfl
  rcases Nat.le_total backto l.entries.length with hle | hle
  · exact hmap _ backto (Nat.add_sub_cancel' hle)
  · rw [rolledBack, Nat.sub_eq_zero_of_le hle, undone, List.drop_eq_nil_of_le hle]
    rfl

/-- `RollbackTo` makes the log and the client table what they were, with one upcall, unless something to
    be taken back is committed or repeats a request. -/
theorem rollbackTo_sat (backto : Nat) (h : Tabled s) : Sat (rollbackTo backto) s
    (fun _ t o => o = [] ∧ Tabled t ∧ ((s.lastSpeculative ≤ backto ∧ t = s) ∨
      (backto < s.lastSpeculative ∧ s.lastCommitted ≤ backto ∧ ∃ c, t = { s with
        clientTable := c, log := s.log.take backto, lastSpeculative := backto
        upcalls := s.upcalls ++ [.rollback s.lastSpeculative backto (undone s.log backto)] })))
    (fun _ o => o = [] ∧ (backto < s.lastCommitted ∨ ∃ k, backto ≤ k ∧ Repeats s.log k)) := by
  unfold rollbackTo
  refine sat_bind.mpr (sat_get.mpr (sat_ite.mpr ⟨fun hge => ⟨rfl, h, Or.inl ⟨hge, rfl⟩⟩, fun hlt => ?_⟩))
  have hfull := h.full
  refine sat_bind.mpr (sat_assert.mpr ⟨fun hback => ?_, fun hback => ⟨rfl, Or.inl (by omega)⟩⟩)
  have hsplit : backto + (s.lastSpeculative - backto) = s.log.entries.length := by omega
  have hall : s.log.take s.log.entries.length = s.log := by
    rw [Log.mk.injEq, Log.entries_take, List.take_length]
  refine sat_bind.mpr ((rollBackClients_tableOf (s.lastSpeculative - backto) hsplit.le
    (fun c => by rw [hsplit, hall, h.table]) h.prev).mono ?_ ?_)
  · rintro _ t o ⟨rfl, ⟨c, rfl⟩, htable⟩
    simp only [sat_bind, sat_get, sat_ofOption, sat_modify, List.nil_append, h.full, rolledBack_eq,
      Log.removeAfter_succ, Option.some.injEq, reduceCtorEq, false_imp_iff, and_true, forall_eq']
    have hlen : (s.log.take backto).entries.length = backto := by
      rw [Log.entries_take, List.length_take]
      omega
    have htake : ∀ k ≤ backto, (s.log.take backto).take k = s.log.take k := by
      intro k hk
      rw [Log.mk.injEq, Log.entries_take, Log.entries_take, Log.entries_take, List.take_take,
        min_eq_left hk]
    refine ⟨trivial, ⟨hlen.symm, hback.trans_eq hlen.symm, htable, fun k e he => ?_⟩, Or.inr
      ⟨by omega, hback, c, rfl⟩⟩
    obtain ⟨hk, he⟩ := Log.find_eq_some.mp he
    have hlt := (List.getElem?_eq_some_iff.mp he).1
    rw [hlen] at hlt
    rw [Log.entries_take, List.getElem?_take_of_lt (by omega)] at he
    rw [htake k (by omega)]
    exact h.prev k e (Log.find_eq_some.mpr ⟨hk, he⟩)
  · rintro t o ⟨rfl, hrep⟩
    exact ⟨rfl, Or.inr hrep⟩

/-! ### Logging -/

/-- The shorter part of a log. -/
theorem take_of_extends {k : Nat} (h : l.entries <+: l'.entries) (hk : k ≤ l.entries.length) :
    l'.take k = l.take k := by
  rw [Log.mk.injEq, Log.entries_take, Log.entries_take]
  exact (List.prefix_iff_eq_take.mp ((List.take_prefix k l.entries).trans h) ▸ by
    rw [List.length_take, min_eq_left hk])

theorem find_of_extends {k : Nat} {e : LogEntry} (h : l.entries <+: l'.entries)
    (he : l.find k = some e) : l'.find k = some e := by
  obtain ⟨hk, he⟩ := Log.find_eq_some.mp he
  exact Log.find_eq_some.mpr ⟨hk, getElem?_mono h he⟩

theorem take_all (l : Log) : l.take l.entries.length = l := by
  rw [Log.mk.injEq, Log.entries_take, List.take_length]

variable {sha1 : Sha1} {v : Viewstamp} {req : Request}

/-- The viewstamp of the next request. -/
def Replica.nextViewstamp (s : Replica) : Viewstamp :=
  { view := s.view, opnum := s.lastSpeculative + 1 }

/-- A replica that has executed a request and recorded it in the client table. -/
def Replica.logged (s : Replica) (l : Log) (v : Viewstamp) (req : Request)
    (reply : SpeculativeReplyMessage) : Replica :=
  Replica.recorded { s with lastSpeculative := s.lastSpeculative + 1, log := l
                            upcalls := s.upcalls ++ [.execute v.opnum req] } req v.opnum reply

/-- The new entry is that of the request, and comes last. -/
theorem entries_of_append (h : appendHashed sha1 s.log
    { viewstamp := v, state := .speculative, request := req } = some l) :
    v.opnum = s.log.entries.length + 1 ∧ s.log.entries <+: l.entries ∧
      ∃ e, l.entries = s.log.entries ++ [e] ∧ e.opnum = v.opnum ∧ e.request = req := by
  obtain ⟨hop, hl⟩ := Log.append_eq_some.mp h
  exact ⟨hop, hl ▸ List.prefix_append .., _, hl, rfl, rfl⟩

/-- Recording the request keeps the table that of the log. -/
theorem Tabled.logged (h : Tabled s) (hl : appendHashed sha1 s.log
    { viewstamp := v, state := .speculative, request := req } = some l)
    (reply : SpeculativeReplyMessage) : Tabled (s.logged l v req reply) := by
  obtain ⟨hop, hpre, e, hentries, heop, hereq⟩ := entries_of_append hl
  have hlen : l.entries.length = s.log.entries.length + 1 := by
    rw [hentries, List.length_append]
    rfl
  refine ⟨?_, ?_, fun c => ?_, fun k x hx => ?_⟩
  · show s.lastSpeculative + 1 = l.entries.length
    rw [hlen, h.full]
  · exact h.committed.trans hpre.length_le
  · show (if c = req.clientid then some _ else s.clientTable c).getD {} = tableOf l c
    rw [tableOf_concat hentries, hereq, heop]
    split_ifs with hc hc' hc'
    · rw [hc, ← h.table]
      rfl
    · exact absurd hc.symm hc'
    · exact absurd hc'.symm hc
    · exact h.table c
  · show (if k + 1 = v.opnum then (s.clientEntry req.clientid).lastReqOpnum
      else s.prevClientReqOpnum (k + 1)) = (tableOf (l.take k) x.request.clientid).lastReqOpnum
    obtain ⟨hk, hx⟩ := Log.find_eq_some.mp hx
    have hx' : l.entries[k]? = some x := hx
    have hlt := (List.getElem?_eq_some_iff.mp hx').1
    rw [hentries] at hx'
    split_ifs with hk'
    · obtain rfl : k = s.log.entries.length := by omega
      rw [take_of_extends hpre (Nat.le_refl _), take_all, h.table]
      obtain rfl : e = x := by simpa using hx'
      rw [hereq]
    · rw [take_of_extends hpre (by omega)]
      rw [List.getElem?_append_left (by omega)] at hx'
      exact h.prev k x (Log.find_eq_some.mpr ⟨hk, hx'⟩)

/-- The new entry repeats a request just when the table has its number. -/
theorem repeats_append (h : Tabled s) (hl : appendHashed sha1 s.log
    { viewstamp := v, state := .speculative, request := req } = some l) :
    Repeats l s.log.entries.length ↔ (s.clientEntry req.clientid).lastReqId = req.clientreqid := by
  obtain ⟨hop, hpre, e, hentries, _, rfl⟩ := entries_of_append hl
  have hfind : l.find (s.log.entries.length + 1) = some e := by
    refine Log.find_eq_some.mpr ⟨Nat.le_add_left .., ?_⟩
    rw [hentries]
    simp
  unfold Repeats
  rw [hfind, take_of_extends hpre (Nat.le_refl _), take_all, h.table]
  simp

/-! ### Handling requests -/

variable {remote : Addr}

/-- The log with one more request, executed from this state. -/
def nextLog (E : Env) (s : Replica) (req : Request) : Option Log :=
  appendHashed E.sha1 s.log { viewstamp := s.nextViewstamp, state := .speculative, request := req }

/-- `HandleRequest` of a new request logs it. -/
theorem processRequest_logged : Sat (processRequest E remote req) s
    (fun _ t _ => ∃ l reply k, nextLog E s req = some l ∧
      t = { s.logged l s.nextViewstamp req reply with lastSync := k })
    (fun _ _ => True) := by
  unfold processRequest
  simp only [sat_bind, sat_modify, sat_get]
  refine (execute_appends ..).mono ?_ fun _ _ _ => trivial
  rintro reply _ _ ⟨rfl, l, hl, rfl, _⟩
  refine sat_emit.mpr ((updateClientTable_recorded ..).mono ?_ fun _ _ _ => trivial)
  rintro _ _ _ ⟨rfl, rfl, _⟩
  have htail : Sat (when (amLeader E (s.logged l s.nextViewstamp req reply) ∧
      s.lastSpeculative + 1 ≥ s.lastSync + syncTimeoutRequests) (sendSync E))
      (s.logged l s.nextViewstamp req reply)
      (fun _ t _ => ∃ l' reply' k, nextLog E s req = some l' ∧
        t = { s.logged l' s.nextViewstamp req reply' with lastSync := k })
      (fun _ _ => True) := by
    refine sat_when.mpr ⟨fun _ => sendSync_sat.mono ?_ fun _ _ _ => trivial,
      fun _ => ⟨l, reply, s.lastSync, hl, rfl⟩⟩
    rintro _ _ _ ⟨⟨k, rfl⟩, _⟩
    exact ⟨l, reply, k, hl, rfl⟩
  refine sat_when.mpr ⟨fun _ => (sendSyncReply_sat _).mono ?_ fun _ _ _ => trivial, fun _ => htail⟩
  rintro _ _ _ ⟨rfl, _⟩
  exact htail

/-- The reply apart from what is said of its being committed. -/
def SpeculativeReplyMessage.unmarked (m : SpeculativeReplyMessage) : SpeculativeReplyMessage :=
  { m with committed := false }

/-- What `HandleRequest` may do: log the request, mark the reply to an old one as committed, or keep the
    request for later. -/
theorem handleRequest_cases : Sat (handleRequest E remote req) s
    (fun _ t _ => ∃ a,
      (∃ p, t = { s with clientAddresses := a, pendingRequests := p }) ∨
      (∃ k r r', s.replyMessage k = some r ∧ r'.unmarked = r.unmarked ∧
        t = { s with
          clientAddresses := a
          replyMessage := fun j => if j = k then some r' else s.replyMessage j }) ∨
      ∃ l reply k, checkDuplicate s req = .fresh ∧ nextLog E s req = some l ∧
        t = { s.logged l s.nextViewstamp req reply with
          clientAddresses := a, lastSync := k })
    (fun _ _ => True) := by
  unfold handleRequest
  simp only [sat_bind, sat_get, sat_modify]
  cases hdup : checkDuplicate s req with
  | stale => exact ⟨_, Or.inl ⟨s.pendingRequests, rfl⟩⟩
  | duplicate k =>
    unfold resendReply
    simp only [sat_bind, sat_get, sat_ofOption, sat_modify, sat_emit]
    refine ⟨fun le _ => ⟨fun r hr => ⟨_, Or.inr (Or.inl ⟨k, r, _, hr, ?_, rfl⟩)⟩, fun _ => trivial⟩,
      fun _ => trivial⟩
    split_ifs <;> rfl
  | fresh =>
    refine sat_ite.mpr ⟨fun _ => ⟨_, Or.inl ⟨_, rfl⟩⟩, fun _ => ?_⟩
    refine processRequest_logged.mono ?_ fun _ _ _ => trivial
    rintro _ _ _ ⟨l, reply, k, hl, rfl⟩
    exact ⟨_, Or.inr (Or.inr ⟨l, reply, k, rfl, hl, rfl⟩)⟩

/-- A request that is new has a number that the table does not have, if it is one a client gives. -/
theorem lastReqId_of_fresh (hfresh : checkDuplicate s req = .fresh) (hid : 1 ≤ req.clientreqid) :
    (s.clientEntry req.clientid).lastReqId ≠ req.clientreqid := by
  unfold checkDuplicate at hfresh
  unfold Replica.clientEntry
  cases hentry : s.clientTable req.clientid with
  | none => exact (Nat.ne_of_lt hid)
  | some entry =>
    rw [hentry] at hfresh
    simp only at hfresh
    split_ifs at hfresh with hlt heq
    exact Ne.symm heq

/-- Handling requests only adds to the log, and nothing that it adds repeats a request. -/
structure Speculated (s t : Replica) : Prop where
  log : s.log.entries <+: t.log.entries
  committed : t.lastCommitted = s.lastCommitted
  prev : ∀ k ≤ s.log.entries.length, t.prevClientReqOpnum k = s.prevClientReqOpnum k
  replies : ∀ k ≤ s.log.entries.length, (t.replyMessage k).map SpeculativeReplyMessage.unmarked =
    (s.replyMessage k).map SpeculativeReplyMessage.unmarked
  fresh : ∀ k, s.log.entries.length ≤ k → ¬ Repeats t.log k

theorem not_repeats_of_le {k : Nat} (h : l.entries.length ≤ k) : ¬ Repeats l k := by
  rintro ⟨e, he, _⟩
  have hlt := (List.getElem?_eq_some_iff.mp (Log.find_eq_some.mp he).2).1
  omega

theorem Speculated.refl (s : Replica) : Speculated s s :=
  ⟨List.prefix_refl _, rfl, fun _ _ => rfl, fun _ _ => rfl, fun _ => not_repeats_of_le⟩

theorem Speculated.trans {u : Replica} (h : Speculated s t) (h' : Speculated t u) : Speculated s u where
  log := h.log.trans h'.log
  committed := h'.committed.trans h.committed
  prev k hk := (h'.prev k (hk.trans h.log.length_le)).trans (h.prev k hk)
  replies k hk := (h'.replies k (hk.trans h.log.length_le)).trans (h.replies k hk)
  fresh := by
    intro k hk hrep
    rcases Nat.lt_or_ge k t.log.entries.length with hlt | hge
    · refine h.fresh k hk ?_
      obtain ⟨e, he, hid⟩ := hrep
      obtain ⟨x, hx⟩ : ∃ x, t.log.find (k + 1) = some x :=
        ⟨_, Log.find_eq_some.mpr ⟨Nat.le_add_left .., List.getElem?_eq_getElem hlt⟩⟩
      obtain rfl : x = e := Option.some.inj ((find_of_extends h'.log hx).symm.trans he)
      exact ⟨x, hx, by rwa [take_of_extends h'.log hlt.le] at hid⟩
    · exact h'.fresh k hge hrep

/-- What a replica may do while it speculates. -/
def Speculates (s t : Replica) : Prop := Tabled s → Tabled t ∧ Speculated s t

instance : Std.Refl Speculates := ⟨fun s h => ⟨h, .refl s⟩⟩

instance : IsTrans Replica Speculates :=
  ⟨fun _ _ _ h h' hs => ⟨(h' (h hs).1).1, (h hs).2.trans (h' (h hs).1).2⟩⟩

theorem handleRequest_tabled : Relates (Kept Tabled) (handleRequest E remote req) := by
  intro s
  refine handleRequest_cases.mono ?_ fun _ _ _ => trivial
  rintro _ _ _ ⟨a, ⟨p, rfl⟩ | ⟨k, r, r', _, _, rfl⟩ | ⟨l, reply, k, _, hl, rfl⟩⟩ h
  · exact { h with }
  · exact { h with }
  · exact { h.logged hl reply with }

theorem handleRequest_speculates (hid : 1 ≤ req.clientreqid) :
    Relates Speculates (handleRequest E remote req) := by
  intro s
  refine handleRequest_cases.mono ?_ fun _ _ _ => trivial
  rintro _ _ _ ⟨a, ⟨p, rfl⟩ | ⟨k, r, r', hr, hmark, rfl⟩ | ⟨l, reply, k, hfresh, hl, rfl⟩⟩ h
  · exact ⟨{ h with }, { Speculated.refl s with }⟩
  · refine ⟨{ h with }, { Speculated.refl s with replies := fun j _ => ?_ }⟩
    show (if j = k then some r' else s.replyMessage j).map _ = _
    split_ifs with hj
    · rw [hj, hr, Option.map_some, Option.map_some, hmark]
    · rfl
  · obtain ⟨hop, hpre, _⟩ := entries_of_append hl
    have hop' : s.lastSpeculative + 1 = s.log.entries.length + 1 := hop
    refine ⟨{ h.logged hl reply with }, hpre, rfl, fun j hj => if_neg ?_, fun j hj => ?_, fun j hj => ?_⟩
    · show ¬ j = s.lastSpeculative + 1
      omega
    · show (if j = s.lastSpeculative + 1 then some reply else s.replyMessage j).map _ = _
      rw [if_neg (by omega)]
    · show ¬ Repeats l j
      rcases Nat.eq_or_lt_of_le hj with rfl | hlt
      · rw [repeats_append h hl]
        exact lastReqId_of_fresh hfresh hid
      · refine not_repeats_of_le ?_
        rw [(Log.append_eq_some.mp hl).2, List.length_append]
        exact hlt

/-! ### The other handlers -/

/-- What the client table depends on. -/
def core (s : Replica) : Nat × Nat × Log × (Nat → Nat) × (Nat → Option ClientTableEntry) :=
  (s.lastSpeculative, s.lastCommitted, s.log, s.prevClientReqOpnum, s.clientTable)

theorem Tabled.of_core (s t : Replica) (h : core t = core s) (hs : Tabled s) : Tabled t := by
  simp only [core, Prod.mk.injEq] at h
  obtain ⟨hspec, hcommitted, hlog, hprev, htable⟩ := h
  refine ⟨?_, ?_, fun c => ?_, ?_⟩
  · rw [hspec, hlog, hs.full]
  · rw [hcommitted, hlog]
    exact hs.committed
  · rw [Replica.clientEntry, htable, hlog, ← hs.table]
    rfl
  · rw [hprev, hlog]
    exact hs.prev

/-- A handler that leaves these alone. -/
theorem tabled_of_core {α : Type} {m : SpecHandler α} (h : Relates (Same core) m) :
    Relates (Kept Tabled) m := h.kept Tabled.of_core

theorem startViewChange_core (newview : Nat) : Relates (Same core) (startViewChange E newview) := by
  unfold startViewChange
  refine (same_modify fun _ => by rfl).bind fun _ => (same_modify fun _ => by rfl).bind fun _ => ?_
  exact relates_get.bind fun _ => relates_emit

theorem sendSyncReply_core (opnum : Nat) : Relates (Same core) (sendSyncReply E opnum) := by
  unfold sendSyncReply
  exact relates_get.bind fun _ => .ite relates_emit (relates_ofOption.bind fun _ => relates_emit)

theorem sendSync_core : Relates (Same core) (sendSync E) := by
  unfold sendSync
  refine relates_get.bind fun _ => relates_assert.bind fun _ => relates_assert.bind fun _ =>
    (same_modify fun _ => by rfl).bind fun _ => .ite ?_ relates_emit
  exact relates_ofOption.bind fun _ => relates_emit

/-- Committing changes the states of entries only. -/
theorem commitUpTo_tabled (upto : Nat) : Relates (Kept Tabled) (commitUpTo upto) := by
  refine relates_kept fun s h => (commitUpTo_sat h.committed).mono ?_ fun _ _ _ => trivial
  rintro _ _ _ ⟨_, hle, l, hl, rfl⟩
  have hlen : l.entries.length = s.log.entries.length := by
    rw [← length_stamps, hl, length_stamps]
  have htake : ∀ k, tableOf (l.take k) = tableOf (s.log.take k) :=
    fun k => tableOf_of_stamps (by rw [stamps_take, stamps_take, hl])
  refine ⟨h.full.trans hlen.symm, hlen ▸ max_le h.committed hle, fun c => ?_, fun k e he => ?_⟩
  · rw [tableOf_of_stamps hl]
    exact h.table c
  · obtain ⟨x, hx, hreq⟩ : ∃ x, s.log.find (k + 1) = some x ∧ x.request = e.request := by
      have hk := (Log.find_eq_some.mp he).2
      have hat := congrArg (fun m : List (Request × String) => m[k]?) hl
      simp only [stamps, List.getElem?_map] at hat
      rw [Nat.add_sub_cancel] at hk
      rw [hk] at hat
      obtain ⟨x, hx, hxe⟩ := Option.map_eq_some_iff.mp hat.symm
      exact ⟨x, Log.find_eq_some.mpr ⟨Nat.le_add_left .., hx⟩, congrArg Prod.fst hxe⟩
    rw [htake, ← hreq]
    exact h.prev k x hx

theorem rollbackTo_tabled (backto : Nat) : Relates (Kept Tabled) (rollbackTo backto) :=
  relates_kept fun _ h => (rollbackTo_sat _ h).mono (fun _ _ _ ht => ht.2.1) fun _ _ _ => trivial

/-- The entry that `InstallLog` executes is recorded. -/
theorem installEntry_tabled (entries : List LogEntry) (entriesStart i : Nat) :
    Relates (Kept Tabled) (installEntry E entries entriesStart i) := by
  refine relates_kept fun s h => ?_
  unfold installEntry
  simp only [sat_bind, sat_ofOption, sat_modify, sat_get]
  refine ⟨fun e _ => (execute_appends ..).mono ?_ fun _ _ _ => trivial, fun _ => trivial⟩
  rintro reply _ _ ⟨rfl, l, hl, rfl, _⟩
  refine sat_whenSome.mpr ⟨fun _ _ => sat_emit.mpr ?_, fun _ => ?_⟩ <;>
  · refine (updateClientTable_recorded ..).mono ?_ fun _ _ _ => trivial
    rintro _ _ _ ⟨rfl, rfl, _⟩
    exact sat_assert.mpr ⟨fun _ => h.logged hl reply, fun _ => trivial⟩

theorem installEntries_tabled (entries : List LogEntry) (entriesStart last committed : Nat) :
    Relates (Kept Tabled) (installEntries E entries entriesStart last committed) := by
  unfold installEntries
  refine relates_get.bind fun _ => relates_ofOption.bind fun _ => (Relates.when ?_).bind fun _ => ?_
  · exact (commitUpTo_tabled _).bind fun _ => relates_get.bind fun _ => relates_assert
  refine relates_get.bind fun _ => relates_assert.bind fun _ => relates_ofOption.bind fun _ =>
    (rollbackTo_tabled _).bind fun _ => relates_get.bind fun _ => relates_assert.bind fun _ => ?_
  refine (Relates.forEach (fun _ => installEntry_tabled _ _ _) _).bind fun _ => ?_
  exact relates_get.bind fun _ => relates_assert.bind fun _ => (commitUpTo_tabled _).bind fun _ =>
    relates_get.bind fun _ => relates_assert

theorem installLog_tabled (entries : List LogEntry) : Relates (Kept Tabled) (installLog E entries) := by
  unfold installLog
  refine relates_get.bind fun _ => ?_
  cases entries with
  | nil => exact relates_assert.bind fun _ => installEntries_tabled _ _ _ _
  | cons first rest =>
    exact .ite (relates_assert.bind fun _ => installEntries_tabled _ _ _ _) (installEntries_tabled _ _ _ _)

theorem enterView_tabled (newview : Nat) : Relates (Kept Tabled) (enterView E newview) := by
  unfold enterView
  have htimers : Relates (Same core) (modify (enterViewTimers E) : SpecHandler Unit) := by
    refine same_modify fun s => ?_
    unfold enterViewTimers
    split_ifs <;> rfl
  refine tabled_of_core (same_modify fun _ => by rfl) |>.bind fun _ => (tabled_of_core htimers).bind fun _ =>
    (tabled_of_core (same_modify fun _ => by rfl)).bind fun _ => relates_get.bind fun _ =>
    (tabled_of_core (same_modify fun _ => by rfl)).bind fun _ => ?_
  exact .forEach (fun _ => handleRequest_tabled) _

theorem handleUnloggedRequest_core (op : String) :
    Relates (Same core) (handleUnloggedRequest E remote op) := by
  unfold handleUnloggedRequest
  exact relates_get.bind fun _ => .ite relates_pure
    ((same_modify fun _ => by rfl).bind fun _ => relates_emit)

theorem handleSync_tabled (m : SyncMessage) : Relates (Kept Tabled) (handleSync E m) := by
  have hview : ∀ v, Relates (Kept Tabled) (startViewChange E v) :=
    fun v => tabled_of_core (startViewChange_core v)
  unfold handleSync
  refine relates_get.bind fun _ => .ite relates_pure (.ite relates_pure (.ite (hview _) ?_))
  refine relates_assert.bind fun _ => (tabled_of_core (same_modify fun _ => by rfl)).bind fun _ =>
    .ite (hview _) ?_
  have hrest : ∀ (different : Bool) (s : Replica), Relates (Kept Tabled) (if different then
      startViewChange E (s.view + 1)
    else if m.lastspeculative > s.lastSpeculative then
      modify fun s => { s with pendingSync := m.lastspeculative }
    else sendSyncReply E m.lastspeculative) := fun _ s =>
    .ite (hview _) (.ite (tabled_of_core (same_modify fun _ => by rfl))
      (tabled_of_core (sendSyncReply_core _)))
  refine .ite ?_ (relates_pure.bind fun _ => hrest _ _)
  refine relates_ofOption.bind fun _ => .ite ?_ (relates_pure.bind fun _ => hrest _ _)
  exact (commitUpTo_tabled _).bind fun _ => relates_pure.bind fun _ => hrest _ _

theorem compareHashes_tabled (m : SyncReplyMessage) (msgs : StdMap Nat SyncReplyMessage) :
    Relates (Kept Tabled) (compareHashes E m msgs) := by
  unfold compareHashes
  refine relates_get.bind fun s => relates_ofOption.bind fun entry => ?_
  dsimp only
  split
  · exact tabled_of_core (startViewChange_core _)
  · exact (Relates.when (tabled_of_core (startViewChange_core _))).bind fun _ => commitUpTo_tabled _
  · exact relates_abort

theorem handleSyncReply_tabled (m : SyncReplyMessage) : Relates (Kept Tabled) (handleSyncReply E m) := by
  unfold handleSyncReply
  refine relates_get.bind fun _ => .ite relates_pure (.ite relates_pure (relates_assert.bind fun _ =>
    relates_assert.bind fun _ => relates_assert.bind fun _ =>
    (tabled_of_core (same_modify fun _ => by rfl)).bind fun _ => .whenSome fun _ => ?_))
  exact (tabled_of_core (same_modify fun _ => by rfl)).bind fun _ =>
    .ite relates_pure (compareHashes_tabled _ _)

theorem handleStartViewChange_core (m : StartViewChangeMessage) :
    Relates (Same core) (handleStartViewChange E m) := by
  unfold handleStartViewChange
  refine relates_get.bind fun _ => .ite relates_pure (.ite relates_pure ?_)
  refine (Relates.when (startViewChange_core _)).bind fun _ => relates_get.bind fun _ =>
    relates_assert.bind fun _ => (same_modify fun _ => by rfl).bind fun _ => .whenSome fun _ => ?_
  refine .ite relates_pure (.ite relates_pure ((same_modify fun _ => by rfl).bind fun _ =>
    relates_assert.bind fun _ => .ite relates_emit (same_modify fun _ => by rfl)))

theorem needFillDVCGap_core (view : Nat) : Relates (Same core) (needFillDVCGap E view) := by
  unfold needFillDVCGap
  refine relates_get.bind fun _ => relates_assert.bind fun _ => (Relates.forEach ?_ _).bind fun _ =>
    same_modify fun _ => by rfl
  exact fun _ => .when (relates_assert.bind fun _ => relates_get.bind fun _ => relates_emit)

theorem mergeIfQuorum_tabled (m : DoViewChangeMessage) (maxStart : Nat) :
    Relates (Kept Tabled) (mergeIfQuorum E m maxStart) := by
  unfold mergeIfQuorum completeViewChange
  refine relates_get.bind fun _ => .whenSome fun _ => ?_
  exact relates_get.bind fun _ => relates_ofOption.bind fun _ => (installLog_tabled _).bind fun _ =>
    relates_get.bind fun _ => (enterView_tabled _).bind fun _ => relates_get.bind fun _ =>
    relates_assert.bind fun _ => relates_emit

theorem handleDoViewChange_tabled (m : DoViewChangeMessage) :
    Relates (Kept Tabled) (handleDoViewChange E m) := by
  unfold handleDoViewChange
  refine relates_get.bind fun _ => .ite relates_pure (.ite relates_pure ?_)
  refine (Relates.when (tabled_of_core (startViewChange_core _))).bind fun _ =>
    relates_assert.bind fun _ => relates_get.bind fun s => .ite (.ite ?_ ?_) ?_
  · exact relates_assert.bind fun _ => relates_get.bind fun _ => relates_emit
  · exact (tabled_of_core (same_modify fun _ => by rfl)).bind fun _ => mergeIfQuorum_tabled _ _
  · refine (tabled_of_core (same_modify fun _ => by rfl)).bind fun _ =>
      relates_ofOption.bind fun start => ?_
    cases start with
    | none => exact tabled_of_core (needFillDVCGap_core _)
    | some maxStart => exact mergeIfQuorum_tabled _ _

theorem handleStartView_tabled (m : StartViewMessage) :
    Relates (Kept Tabled) (handleStartView E remote m) := by
  unfold handleStartView installStartView
  refine relates_get.bind fun _ => .ite relates_pure (.ite relates_pure ?_)
  refine relates_assert.bind fun _ => relates_ofOption.bind fun _ => .ite relates_emit ?_
  exact relates_assert.bind fun _ => (installLog_tabled _).bind fun _ =>
    (commitUpTo_tabled _).bind fun _ => relates_emit.bind fun _ => relates_get.bind fun _ =>
    relates_assert.bind fun _ => relates_assert.bind fun _ => (enterView_tabled _).bind fun _ =>
    relates_get.bind fun _ => relates_assert

theorem handleInView_tabled (m : InViewMessage) : Relates (Kept Tabled) (handleInView E m) := by
  unfold handleInView
  refine relates_get.bind fun _ => .ite relates_pure (relates_assert.bind fun _ =>
    relates_assert.bind fun _ => (tabled_of_core (same_modify fun _ => by rfl)).bind fun _ =>
    .whenSome fun _ => relates_assert.bind fun _ => .ite relates_pure ?_)
  exact (commitUpTo_tabled _).bind fun _ => tabled_of_core sendSync_core

/-- Every message keeps the client table that of the log. -/
theorem receiveMessage_tabled (m : ToReplicaMessage) :
    Relates (Kept Tabled) (receiveMessage E remote m) := by
  cases m with
  | request req => exact handleRequest_tabled
  | unloggedRequest op => exact tabled_of_core (handleUnloggedRequest_core op)
  | sync m => exact handleSync_tabled m
  | syncReply m => exact handleSyncReply_tabled m
  | requestViewChange view =>
    exact relates_get.bind fun _ => .ite relates_pure (tabled_of_core (startViewChange_core _))
  | startViewChange m => exact tabled_of_core (handleStartViewChange_core m)
  | doViewChange m => exact handleDoViewChange_tabled m
  | startView m => exact handleStartView_tabled m
  | inView m => exact handleInView_tabled m
  | fillLogGap m =>
    exact relates_get.bind fun _ => .ite relates_pure (relates_assert.bind fun _ => relates_emit)
  | fillDVCGap m =>
    exact relates_get.bind fun _ => .ite relates_pure (relates_assert.bind fun _ => relates_emit)

theorem timeout_tabled (timer : Timer) : Relates (Kept Tabled) (timeout E timer) := by
  cases timer with
  | sync => exact tabled_of_core sendSync_core
  | failedSync => exact relates_get.bind fun _ => tabled_of_core (startViewChange_core _)
  | viewChange => exact relates_get.bind fun _ => tabled_of_core (startViewChange_core _)

/-! ### Rolling back what was speculated -/

variable {G : Group} {C : Sys → Event → Prop} {past : List Sys} {w : Sys} {r : Nat}

theorem initial_tabled (E : Env) : Tabled (Replica.initial E) :=
  ⟨rfl, Nat.le_refl 0, fun _ => rfl, fun k e he => by cases (Log.find_eq_some.mp he).2⟩

/-- In every run, the client table of a replica that is not stopped is that of its log. -/
theorem tabled_of_run (h : Run (system G) C past w) (hlive : w.stopped r = false) :
    Tabled (w.replica r) :=
  Net.kept_of_run (P := G.protocol) (fun r => initial_tabled (G.env r))
    (fun _ _ m => receiveMessage_tabled m) (fun _ t => timeout_tabled t) h r hlive

/-- `u` is as `s` was before the requests that `t` has logged, which the application is told to undo. -/
structure Restored (s t u : Replica) : Prop where
  log : u.log = s.log
  lastSpeculative : u.lastSpeculative = s.lastSpeculative
  clients : ∀ c, u.clientEntry c = s.clientEntry c
  prev : ∀ k ≤ s.lastSpeculative, u.prevClientReqOpnum k = s.prevClientReqOpnum k
  replies : ∀ k ≤ s.lastSpeculative, (u.replyMessage k).map SpeculativeReplyMessage.unmarked =
    (s.replyMessage k).map SpeculativeReplyMessage.unmarked
  upcalls : u.upcalls = t.upcalls ++ if s.lastSpeculative < t.lastSpeculative then
    [.rollback t.lastSpeculative s.lastSpeculative (undone t.log s.lastSpeculative)] else []
  opnums : (undone t.log s.lastSpeculative).map Prod.fst =
    List.range' (s.lastSpeculative + 1) (t.lastSpeculative - s.lastSpeculative)

theorem undone_opnums (l : Log) (k : Nat) :
    (undone l k).map Prod.fst = List.range' (k + 1) (l.entries.length - k) := by
  refine List.ext_getElem? fun i => ?_
  rw [undone, List.map_map, List.getElem?_map, List.getElem?_drop]
  by_cases hi : k + i < l.entries.length
  · have hx := List.getElem?_eq_getElem hi
    have hop := l.numbered _ _ hx
    rw [hx, List.getElem?_range' (by omega), Option.map_some]
    simp only [Function.comp, hop]
    congr 1
    omega
  · rw [List.getElem?_eq_none (by omega), List.getElem?_eq_none (by rw [List.length_range']; omega)]
    rfl

/-- What is left of the log of a replica that has speculated from `s`. -/
theorem Speculated.restored (hs : Tabled s) (ht : Tabled t) (h : Speculated s t) {u : Replica}
    {c : Nat → Option ClientTableEntry} (hu : Tabled u) (hlt : s.lastSpeculative < t.lastSpeculative)
    (heq : u = { t with
      clientTable := c, log := t.log.take s.lastSpeculative, lastSpeculative := s.lastSpeculative
      upcalls := t.upcalls ++
        [.rollback t.lastSpeculative s.lastSpeculative (undone t.log s.lastSpeculative)] }) :
    Restored s t u := by
  have hlog : t.log.take s.lastSpeculative = s.log := by
    rw [hs.full, take_of_extends h.log (Nat.le_refl _), take_all]
  subst heq
  refine ⟨hlog, rfl, fun c' => ?_, fun k hk => h.prev k (hs.full ▸ hk),
    fun k hk => h.replies k (hs.full ▸ hk), by rw [if_pos hlt], ?_⟩
  · rw [hu.table, hs.table]
    exact congrFun (congrArg tableOf hlog) c'
  · rw [undone_opnums, ← ht.full]

/-- `RollbackTo` takes back what a replica has speculated since a state of a run. -/
theorem rollbackTo_restores (h : Run (system G) C past w) (hlive : w.stopped r = false)
    {calls : List (Addr × Request)} (hids : ∀ x ∈ calls, 1 ≤ x.2.clientreqid) {o : List Output}
    (hcalls : forEach calls (fun x => handleRequest (G.env r) x.1 x.2) (w.replica r) = (some (), t, o)) :
    ∃ u, rollbackTo (w.replica r).lastSpeculative t = (some (), u, []) ∧
      Restored (w.replica r) t u := by
  have hs := tabled_of_run h hlive
  have hcalls' : Relates Speculates (forEach calls fun x => handleRequest (G.env r) x.1 x.2) :=
    Relates.forEach_mem fun x hx => handleRequest_speculates (hids x hx)
  obtain ⟨ht, hst⟩ : Tabled t ∧ Speculated (w.replica r) t := by
    have hsat := hcalls' (w.replica r)
    unfold Sat at hsat
    rw [hcalls] at hsat
    exact hsat hs
  rcases (rollbackTo_sat (w.replica r).lastSpeculative ht).cases with
    ⟨_, u, _, hrun, rfl, hu, ⟨hle, rfl⟩ | ⟨hlt, _, c, hu'⟩⟩ | ⟨_, _, _, _, hcommitted | ⟨k, hk, hrep⟩⟩
  · refine ⟨u, hrun, ?_⟩
    have hlog : u.log = (w.replica r).log := by
      rw [Log.mk.injEq]
      have hlen := hst.log.length_le
      exact (hst.log.eq_of_length (by rw [← ht.full, ← hs.full] at *; omega)).symm
    have hspec : u.lastSpeculative = (w.replica r).lastSpeculative := by
      rw [ht.full, hlog, hs.full]
    refine ⟨hlog, hspec, fun c => by rw [ht.table, hlog, hs.table], fun k hk => hst.prev k (hs.full ▸ hk),
      fun k hk => hst.replies k (hs.full ▸ hk), ?_, ?_⟩
    · rw [if_neg (by omega), List.append_nil]
    · rw [undone_opnums, ← ht.full]
  · exact ⟨u, hrun, hst.restored hs ht hu hlt hu'⟩
  · rw [hst.committed] at hcommitted
    have hle := hs.committed
    rw [← hs.full] at hle
    omega
  · exact absurd hrep (hst.fresh k (hs.full ▸ hk))

/-- Three replicas, whose application answers nothing. -/
def threeReplicas : Group :=
  { config := { n := 3, f := 1 }, app := fun _ => .default, op := fun _ _ => "op", sha1 := fun _ _ _ => digest }

/-- Two requests of one client. -/
def twoCalls : List (Addr × Request) :=
  [(.client 7, { op := "op", clientid := 7, clientreqid := 1 }),
   (.client 7, { op := "op", clientid := 7, clientreqid := 2 })]

theorem rollbackTo_restores_two : ∃ t o u,
    forEach twoCalls (fun x => handleRequest (threeReplicas.env 1) x.1 x.2)
      (Replica.initial (threeReplicas.env 1)) = (some (), t, o) ∧ t.lastSpeculative = 2 ∧
    rollbackTo 0 t = (some (), u, []) ∧ Restored (Replica.initial (threeReplicas.env 1)) t u := by
  have hcalls : ∃ t o, forEach twoCalls (fun x => handleRequest (threeReplicas.env 1) x.1 x.2)
      (Replica.initial (threeReplicas.env 1)) = (some (), t, o) ∧ t.lastSpeculative = 2 :=
    ⟨_, _, rfl, rfl⟩
  obtain ⟨t, o, hcalls, hspec⟩ := hcalls
  have hrun : Run (system threeReplicas) (fun _ _ => True) [] (system threeReplicas).init := .start
  obtain ⟨u, hu⟩ := rollbackTo_restores (r := 1) hrun rfl (by decide) hcalls
  exact ⟨t, o, u, hcalls, hspec, hu⟩

end Dsnet.Spec
