import Dsnet.Spec.ClientTable
import Dsnet.Spec.Install

/-! `SpecReplica::InstallLog`, when nothing stands in its way.

    The new entries start at some opnum, and the replica holds all before it; they are chained on from
    what it holds, and agree with what it has committed (`Installable`). Then no assertion fails. What
    is common to the old log and the new one stays, the rest of the old log is rolled back and the rest
    of the new one executed, and the client table names the last request of each client again
    (`installLog_installed`). -/

namespace Dsnet.Spec
open Handler

/-! ### Common prefixes -/

section CommonLength
variable {α : Type} [DecidableEq α]

/-- The length of the longest common prefix. -/
def commonLength : List α → List α → Nat
  | x :: xs, y :: ys => if x = y then commonLength xs ys + 1 else 0
  | _, _ => 0

/-- Two lists that are the same up to `k`, and differ there or end. -/
theorem commonLength_eq : ∀ {k : Nat} {l l' : List α}, l.take k = l'.take k → k ≤ l.length →
    k ≤ l'.length → (∀ x y, l[k]? = some x → l'[k]? = some y → x ≠ y) → commonLength l l' = k
  | 0, [], _, _, _, _, _ => by simp [commonLength]
  | 0, _ :: _, [], _, _, _, _ => by simp [commonLength]
  | 0, x :: xs, y :: ys, _, _, _, hne => by
      rw [commonLength, if_neg (hne x y rfl rfl)]
  | k + 1, [], _, _, hk, _, _ => absurd hk (Nat.not_succ_le_zero k)
  | k + 1, _ :: _, [], _, _, hk, _ => absurd hk (Nat.not_succ_le_zero k)
  | k + 1, x :: xs, y :: ys, heq, hk, hk', hne => by
      rw [List.take_succ_cons, List.take_succ_cons] at heq
      obtain ⟨hxy, htake⟩ := List.cons.inj heq
      rw [commonLength, if_pos hxy, commonLength_eq htake (Nat.le_of_succ_le_succ hk)
        (Nat.le_of_succ_le_succ hk') fun a b ha hb => hne a b ha hb]

end CommonLength

/-! ### Ascending requests -/

/-- Each client's request numbers grow. -/
def Increasing (reqs : List Request) : Prop :=
  reqs.Pairwise fun x y => x.clientid = y.clientid → x.clientreqid < y.clientreqid

/-- They grow from 1. -/
structure Ascending (reqs : List Request) : Prop where
  positive : ∀ req ∈ reqs, 1 ≤ req.clientreqid
  pairwise : Increasing reqs

/-- The last request of a client in a log, as a client table entry. -/
def lastRequest (l : Log) (clientid : Nat) : ClientTableEntry :=
  ((l.entries.reverse.find? (·.request.clientid = clientid)).map fun e =>
    { lastReqId := e.request.clientreqid, lastReqOpnum := e.opnum }).getD {}

/-- The requests of a log. -/
def requests (l : Log) : List Request := l.entries.map LogEntry.request

variable {E : Env} {s t : Replica} {l l' : Log} {entries : List LogEntry} {start : Nat}

theorem requests_eq (l : Log) : requests l = (stamps l).map Prod.fst := by
  rw [requests, stamps, List.map_map]
  rfl

theorem Ascending.of_prefix {reqs reqs' : List Request} (h : Ascending reqs) (hp : reqs' <+: reqs) :
    Ascending reqs' :=
  ⟨fun req hreq => h.positive req (hp.subset hreq), List.Pairwise.sublist hp.sublist h.pairwise⟩

theorem lastRequest_concat {e : LogEntry} (h : l'.entries = l.entries ++ [e]) (clientid : Nat) :
    lastRequest l' clientid = if e.request.clientid = clientid then
      { lastReqId := e.request.clientreqid, lastReqOpnum := e.opnum } else lastRequest l clientid := by
  rw [lastRequest, h, List.reverse_append, List.reverse_singleton, List.singleton_append,
    List.find?_cons]
  by_cases hc : e.request.clientid = clientid
  · simp [hc]
  · simp [hc, lastRequest]

/-- The last request of a client is in the log. -/
theorem lastRequest_mem (l : Log) (clientid : Nat) : lastRequest l clientid = {} ∨
    ∃ req ∈ requests l, req.clientid = clientid ∧
      req.clientreqid = (lastRequest l clientid).lastReqId := by
  unfold lastRequest
  cases hf : l.entries.reverse.find? (·.request.clientid = clientid) with
  | none => exact Or.inl rfl
  | some e =>
    have hmem := List.mem_reverse.mp (List.mem_of_find?_eq_some hf)
    have hc : e.request.clientid = clientid := by simpa using List.find?_some hf
    exact Or.inr ⟨e.request, List.mem_map_of_mem hmem, hc, rfl⟩

/-- A request after an ascending log has a number above what the log has of its client. -/
theorem Ascending.lastReqId_lt {req : Request} (h : Ascending (requests l ++ [req])) :
    (lastRequest l req.clientid).lastReqId < req.clientreqid := by
  have hpos := h.positive req (List.mem_append_right _ (List.mem_singleton_self req))
  rcases lastRequest_mem l req.clientid with hempty | ⟨x, hx, hc, hid⟩
  · rw [hempty]
    exact hpos
  · rw [← hid]
    exact (List.pairwise_append.mp h.pairwise).2.2 x hx req (List.mem_singleton_self req) hc

/-- In an ascending log each request is recorded, so the table names the last of each client. -/
theorem Ascending.tableOf_take (h : Ascending (requests l)) (clientid : Nat) :
    ∀ k ≤ l.entries.length, tableOf (l.take k) clientid = lastRequest (l.take k) clientid := by
  intro k
  induction k with
  | zero =>
    intro _
    rw [tableOf, lastRequest, Log.entries_take, List.take_zero]
    rfl
  | succ k ih =>
    intro hk
    have he : l.find (k + 1) = some l.entries[k] :=
      Log.find_eq_some.mpr ⟨Nat.le_add_left .., List.getElem?_eq_getElem hk⟩
    have hentries := entries_take_succ he
    have hasc : Ascending (requests (l.take k) ++ [l.entries[k].request]) := by
      refine h.of_prefix ?_
      rw [requests, ← List.map_singleton, ← List.map_append, ← hentries]
      exact (List.take_prefix ..).map LogEntry.request
    have hih := ih (Nat.le_of_succ_le hk)
    rw [tableOf_concat hentries, lastRequest_concat hentries, hih]
    split_ifs with hc
    · have hlt := hasc.lastReqId_lt
      rw [hc] at hlt
      exact if_neg (Nat.ne_of_lt hlt)
    · rfl

theorem Ascending.tableOf_eq (h : Ascending (requests l)) : tableOf l = lastRequest l := by
  funext c
  have := h.tableOf_take c l.entries.length (Nat.le_refl _)
  rwa [take_all] at this

theorem Ascending.not_repeats (h : Ascending (requests l)) (k : Nat) : ¬ Repeats l k := by
  rintro ⟨e, he, hid⟩
  have hlt := (List.getElem?_eq_some_iff.mp (Log.find_eq_some.mp he).2).1
  have hasc : Ascending (requests (l.take k) ++ [e.request]) := by
    refine h.of_prefix ?_
    rw [requests, ← List.map_singleton, ← List.map_append, ← entries_take_succ he]
    exact (List.take_prefix ..).map LogEntry.request
  rw [h.tableOf_take _ k (by omega)] at hid
  exact Nat.ne_of_lt hasc.lastReqId_lt hid

/-- The client table names the last log entry of each client. -/
structure TableNames (s : Replica) : Prop where
  full : s.lastSpeculative = s.log.entries.length
  committed : s.lastCommitted ≤ s.log.entries.length
  table : ∀ c, s.clientEntry c = lastRequest s.log c

/-- And each log entry names the one of its client before it. -/
structure NamesLast (s : Replica) : Prop extends TableNames s where
  prev : ∀ k e, s.log.find (k + 1) = some e →
    s.prevClientReqOpnum (k + 1) = (lastRequest (s.log.take k) e.request.clientid).lastReqOpnum

/-- Of an ascending log, that is so just when the table is that of the log. -/
theorem Ascending.namesLast_iff (h : Ascending (requests s.log)) : NamesLast s ↔ Tabled s := by
  have htake : ∀ k e, s.log.find (k + 1) = some e →
      tableOf (s.log.take k) e.request.clientid = lastRequest (s.log.take k) e.request.clientid := by
    intro k e he
    refine h.tableOf_take _ k ?_
    have := (List.getElem?_eq_some_iff.mp (Log.find_eq_some.mp he).2).1
    omega
  constructor
  · rintro ⟨⟨hfull, hcommitted, htable⟩, hprev⟩
    exact ⟨hfull, hcommitted, fun c => by rw [htable, h.tableOf_eq],
      fun k e he => by rw [hprev k e he, htake k e he]⟩
  · rintro ⟨hfull, hcommitted, htable, hprev⟩
    exact ⟨⟨hfull, hcommitted, fun c => by rw [htable, h.tableOf_eq]⟩,
      fun k e he => by rw [hprev k e he, htake k e he]⟩

/-! ### What may be installed -/

/-- The opnum of the last committed entry, or 0. -/
def lastCommittedOf (entries : List LogEntry) : Nat :=
  ((entries.filter (·.state = .committed)).getLast?.map LogEntry.opnum).getD 0

/-- What the log has before `start`, and the new entries after it. -/
def newLog (l : Log) (start : Nat) (entries : List LogEntry) : List (Request × String) :=
  (stamps l).take (start - 1) ++ entries.map stamp

/-- The entries go on from the log's entry before `start`, and reach and agree with all that is
    committed. -/
structure Continues (sha1 : Sha1) (s : Replica) (start : Nat) (entries : List LogEntry) : Prop where
  nonempty : entries ≠ []
  positive : 1 ≤ start
  numbered : Log.NumberedFrom start entries
  state : ∃ c, ∀ e ∈ entries, e.state = if e.opnum ≤ c then .committed else .speculative
  chained : Chained (nextHash sha1) hashKey (lastHashOf emptyHash ((stamps s.log).take (start - 1)))
    (entries.map stamp)
  increasingOld : Increasing (requests s.log)
  increasingNew : Increasing ((newLog s.log start entries).map Prod.fst)
  agree : ∀ x ∈ s.log.entries, ∀ e ∈ entries, x.opnum = e.opnum → x.opnum ≤ s.lastCommitted →
    x.hash = e.hash
  reaches : s.lastCommitted < start + entries.length
  starts : start ≤ s.lastCommitted + 1 ∨
    ∃ x ∈ s.log.entries, ∃ e ∈ entries, x.opnum = start ∧ e.opnum = start ∧ x.hash = e.hash

/-- Requests are numbered from 1. -/
def RequestsFromOne (l : Log) (entries : List LogEntry) : Prop :=
  ∀ req ∈ requests l ++ entries.map LogEntry.request, 1 ≤ req.clientreqid

/-- Entries for the same opnum with the same hash have the same request. -/
def HashNamesRequest (l : Log) (entries : List LogEntry) : Prop :=
  ∀ x ∈ l.entries, ∀ e ∈ entries, x.opnum = e.opnum → x.hash = e.hash → x.request = e.request

/-- What may be installed. -/
structure Installable (sha1 : Sha1) (s : Replica) (start : Nat) (entries : List LogEntry) : Prop extends
    Continues sha1 s start entries where
  fromOne : RequestsFromOne s.log entries
  same : HashNamesRequest s.log entries

theorem Installable.ascendingOld {sha1 : Sha1} (h : Installable sha1 s start entries) :
    Ascending (requests s.log) :=
  ⟨fun req hreq => h.fromOne req (List.mem_append_left _ hreq), h.increasingOld⟩

theorem Installable.ascendingNew {sha1 : Sha1} (h : Installable sha1 s start entries) :
    Ascending ((newLog s.log start entries).map Prod.fst) := by
  refine ⟨fun req hreq => h.fromOne req ?_, h.increasingNew⟩
  rw [newLog, List.map_append, List.map_take, ← requests_eq, List.map_map] at hreq
  exact List.mem_append.mpr ((List.mem_append.mp hreq).imp_left List.mem_of_mem_take)

theorem newEntryAt_eq (hnum : Log.NumberedFrom start entries) {i : Nat} (hstart : start ≤ i)
    (hlt : i < start + entries.length) : ∃ e, newEntryAt entries start i = some e ∧
      entries[i - start]? = some e ∧ e.opnum = i := by
  have he := List.getElem?_eq_getElem (l := entries) (i := i - start) (by omega)
  have hop := hnum _ _ he
  refine ⟨_, ?_, he, by omega⟩
  rw [newEntryAt, if_pos hstart, he]

section Installable

variable {sha1 : Sha1} (hfull : s.lastCommitted ≤ s.log.entries.length)
  (h : Installable sha1 s start entries)

include hfull h

/-- The replica holds what is before the new entries. -/
theorem Installable.held : start - 1 ≤ s.log.entries.length := by
  rcases h.starts with hle | ⟨x, hx, _, _, hop, _⟩
  · omega
  · obtain ⟨i, hi⟩ := List.mem_iff_getElem?.mp hx
    have hnum := s.log.numbered i x hi
    have hlt := (List.getElem?_eq_some_iff.mp hi).1
    omega

theorem Installable.length_newLog :
    (newLog s.log start entries).length = start - 1 + entries.length := by
  have hheld := h.held hfull
  rw [newLog, List.length_append, List.length_take, length_stamps, List.length_map,
    min_eq_left hheld]

/-- The new log past the entries that are kept. -/
theorem Installable.getElem?_newLog {i : Nat} (hi : start ≤ i) :
    (newLog s.log start entries)[i - 1]? = entries[i - start]?.map stamp := by
  have hheld := h.held hfull
  have hpos := h.positive
  rw [newLog, List.getElem?_append_right (by rw [List.length_take, length_stamps]; omega),
    List.length_take, length_stamps, min_eq_left hheld, List.getElem?_map]
  congr 2
  omega

/-- As far as the hashes are the same, the logs are. -/
theorem Installable.take_newLog {p : Nat}
    (hall : ∀ i, start ≤ i → i ≤ p → HasHash (stamps s.log) entries start i) :
    (stamps s.log).take p = (newLog s.log start entries).take p := by
  have hheld := h.held hfull
  have hpos := h.positive
  refine List.ext_getElem? fun i => ?_
  rw [List.getElem?_take, List.getElem?_take]
  split_ifs with hip
  · rcases Nat.lt_or_ge i (start - 1) with hlt | hge
    · rw [newLog, List.getElem?_append_left (by rw [List.length_take, length_stamps]; omega),
        List.getElem?_take, if_pos hlt]
    · obtain ⟨e, he, hhash⟩ := hall (i + 1) (by omega) (by omega)
      obtain ⟨_, x, hx, hxe⟩ := hashAt_eq_some.mp hhash
      rw [Nat.add_sub_cancel] at hx
      rw [newEntryAt, if_pos (by omega)] at he
      have hnew := h.getElem?_newLog hfull (i := i + 1) (by omega)
      rw [Nat.add_sub_cancel, he] at hnew
      rw [hx, hnew]
      obtain ⟨y, hy, rfl⟩ : ∃ y, s.log.entries[i]? = some y ∧ stamp y = x := by
        rw [stamps, List.getElem?_map] at hx
        exact Option.map_eq_some_iff.mp hx
      have hopy := s.log.numbered i y hy
      have hope := h.numbered _ e he
      have hreq := h.same y (List.mem_of_getElem? hy) e (List.mem_of_getElem? he) (by omega) hxe
      rw [Option.map_some, stamp, stamp, hreq]
      congr 2
  · rfl

/-- What is committed is the same. -/
theorem Installable.hasHash_committed {i : Nat} (hi : start ≤ i) (hle : i ≤ s.lastCommitted) :
    HasHash (stamps s.log) entries start i := by
  have hpos := h.positive
  have hreaches := h.reaches
  obtain ⟨e, hnew, he, hope⟩ := newEntryAt_eq h.numbered hi (by omega)
  have hx := List.getElem?_eq_getElem (l := s.log.entries) (i := i - 1) (by omega)
  have hopx := s.log.numbered _ _ hx
  have hhash := h.agree _ (List.mem_of_getElem? hx) e (List.mem_of_getElem? he) (by omega) (by omega)
  refine ⟨e, hnew, hashAt_eq_some.mpr ⟨by omega, stamp s.log.entries[i - 1], ?_, hhash⟩⟩
  rw [stamps, List.getElem?_map, hx]
  rfl

/-- An entry to be executed carries the hash that the log computes for it. -/
theorem Installable.nextHash_eq {i : Nat} (hi : start ≤ i) {e : LogEntry}
    (he : entries[i - start]? = some e) :
    nextHash sha1 (lastHashOf emptyHash ((newLog s.log start entries).take (i - 1))) (hashKey e.request) =
      e.hash := by
  have hheld := h.held hfull
  have hpos := h.positive
  have htake : (newLog s.log start entries).take (i - 1) =
      (stamps s.log).take (start - 1) ++ (entries.map stamp).take (i - start) := by
    rw [newLog, List.take_append, List.take_take, List.length_take, length_stamps,
      min_eq_left hheld, min_eq_right (by omega)]
    congr 2
    omega
  rw [htake, lastHashOf_append]
  exact (h.chained (i - start) (stamp e) (by rw [List.getElem?_map, he]; rfl)).symm

end Installable

/-! ### The parts of the function -/

/-- `CommitUpcall`. -/
def isCommit : Upcall → Bool
  | .commit _ => true
  | _ => false

/-- The upcalls that execute operations or undo them. -/
def work (upcalls : List Upcall) : List Upcall := upcalls.filter fun u => !isCommit u

/-- Between two parts: the log is `l`, committed up to `c`, and `calls` have been made since `s`. -/
structure Stage (s t : Replica) (l : List (Request × String)) (c : Nat) (calls : List Upcall) : Prop where
  tabled : Tabled t
  log : stamps t.log = l
  lastCommitted : t.lastCommitted = c
  calls : work t.upcalls = work s.upcalls ++ calls

section Stages

variable {l : List (Request × String)} {c p : Nat} {calls : List Upcall}

theorem Stage.length (h : Stage s t l c calls) : t.log.entries.length = l.length := by
  rw [← h.log, length_stamps]

theorem Stage.lastSpeculative (h : Stage s t l c calls) : t.lastSpeculative = l.length := by
  rw [h.tabled.full, h.length]

theorem commitUpTo_stage (upto : Nat) (h : Stage s t l c calls) (hle : upto ≤ l.length) :
    Sat (commitUpTo upto) t (fun _ u _ => Stage s u l (max c upto) calls) (fun _ _ => False) := by
  refine ((commitUpTo_sat h.tabled.committed).and (commitUpTo_tabled upto t)).mono ?_ ?_
  · rintro _ u o ⟨⟨_, _, l', hl', rfl⟩, hu⟩
    refine ⟨hu h.tabled, hl'.trans h.log, by rw [← h.lastCommitted], ?_⟩
    rw [← h.calls, work, work, List.filter_append]
    exact List.append_nil _
  · rintro u o ⟨⟨_, hlt, _⟩, _⟩
    rw [h.length] at hlt
    omega

theorem undone_of_stamps {l l' : Log} (h : stamps l = stamps l') (k : Nat) : undone l k = undone l' k := by
  refine List.ext_getElem? fun i => ?_
  have hi := congrArg (fun m : List (Request × String) => m[k + i]?) h
  simp only [stamps, List.getElem?_map] at hi
  rw [undone, undone, List.getElem?_map, List.getElem?_map, List.getElem?_drop, List.getElem?_drop]
  cases hx : l.entries[k + i]? with
  | none =>
    rw [hx] at hi
    rw [Option.map_eq_none_iff.mp hi.symm]
  | some x =>
    rw [hx] at hi
    obtain ⟨y, hy, hyx⟩ := Option.map_eq_some_iff.mp hi.symm
    have hopx := l.numbered _ x hx
    have hopy := l'.numbered _ y hy
    have hreq : y.request = x.request := congrArg Prod.fst hyx
    rw [hy, Option.map_some, Option.map_some, hopx, hopy, hreq]

theorem rollbackTo_stage (h : Stage s t l c calls) (hasc : Ascending (l.map Prod.fst)) (hc : c ≤ p)
    (hp : p ≤ l.length) : Sat (rollbackTo p) t
      (fun _ u _ => Stage s u (l.take p) c
        (calls ++ if p < l.length then [.rollback l.length p (undone t.log p)] else []))
      (fun _ _ => False) := by
  have hspec := h.lastSpeculative
  refine (rollbackTo_sat p h.tabled).mono ?_ ?_
  · rintro _ u _ ⟨rfl, hu, ⟨hge, rfl⟩ | ⟨hlt, _, c', rfl⟩⟩
    · have hpl : p = l.length := by omega
      rw [if_neg (by omega), List.append_nil, hpl, List.take_length]
      exact h
    · rw [hspec] at hlt
      refine ⟨hu, ?_, h.lastCommitted, ?_⟩
      · rw [← h.log]
        exact stamps_take _ _
      · show work (t.upcalls ++ [.rollback t.lastSpeculative p (undone t.log p)]) = _
        rw [if_pos hlt, ← List.append_assoc, ← h.calls, hspec, work, work, List.filter_append]
        rfl
  · rintro u _ ⟨rfl, hcommitted | ⟨k, _, hrep⟩⟩
    · rw [h.lastCommitted] at hcommitted
      omega
    · rw [← h.log, ← requests_eq] at hasc
      exact hasc.not_repeats k hrep

/-- The next entry of the new log is executed. -/
theorem installEntry_stage (hs : s.lastCommitted ≤ s.log.entries.length)
    (hE : Installable E.sha1 s start entries) {i : Nat} (hi : start ≤ i)
    (hlt : i < start + entries.length)
    (h : Stage s t ((newLog s.log start entries).take (i - 1)) c calls) :
    Sat (installEntry E entries start i) t
      (fun _ u _ => ∃ e, entries[i - start]? = some e ∧
        Stage s u ((newLog s.log start entries).take i) c (calls ++ [.execute i e.request]))
      (fun _ _ => False) := by
  have hheld := hE.held hs
  have hpos := hE.positive
  have hlong := hE.length_newLog hs
  obtain ⟨e, hnew, he, hop⟩ := newEntryAt_eq hE.numbered hi hlt
  have hlen : t.log.entries.length = i - 1 := by
    rw [h.length, List.length_take]
    omega
  have hnext : (newLog s.log start entries)[i - 1]? = some (stamp e) := by
    rw [hE.getElem?_newLog hs hi, he]
    rfl
  have htake : (newLog s.log start entries).take i =
      (newLog s.log start entries).take (i - 1) ++ [stamp e] := by
    have hsucc := List.take_add_one (l := newLog s.log start entries) (i := i - 1)
    rw [hnext, Nat.sub_add_cancel (by omega)] at hsucc
    exact hsucc
  have hhash := hE.nextHash_eq hs hi he
  rw [← h.log] at hhash
  have hasc : Ascending (requests t.log ++ [e.request]) := by
    refine hE.ascendingNew.of_prefix ?_
    rw [requests_eq, h.log, show [e.request] = [stamp e].map Prod.fst from rfl, ← List.map_append, ← htake]
    exact (List.take_prefix ..).map Prod.fst
  have hnum : (t.clientEntry e.request.clientid).lastReqId ≤ e.request.clientreqid := by
    rw [h.tabled.table, (hasc.of_prefix (List.prefix_append ..)).tableOf_eq]
    exact hasc.lastReqId_lt.le
  unfold installEntry
  rw [hnew]
  simp only [sat_bind, sat_ofOption, sat_modify, sat_get, Option.some.injEq, forall_eq', reduceCtorEq,
    false_imp_iff, and_true]
  refine (execute_appends ..).mono ?_ ?_
  · rintro reply _ _ ⟨rfl, l, hl, rfl, _⟩
    have hstamps := stamps_appendHashed hl
    rw [show nextHash E.sha1 (lastHashOf emptyHash (stamps t.log)) (hashKey e.request) = e.hash from hhash,
      show stamps t.log = (newLog s.log start entries).take (i - 1) from h.log] at hstamps
    refine sat_whenSome.mpr ⟨fun _ _ => sat_emit.mpr ?_, fun _ => ?_⟩ <;>
    · refine (updateClientTable_recorded ..).mono ?_ ?_
      · rintro _ _ _ ⟨rfl, rfl, _⟩
        refine sat_assert.mpr ⟨fun _ => ⟨e, he, h.tabled.logged hl reply, hstamps.trans htake.symm,
          h.lastCommitted, ?_⟩, fun hne => hne ?_⟩
        · show work (t.upcalls ++ [.execute e.opnum e.request]) = _
          rw [hop, ← List.append_assoc, ← h.calls, work, work, List.filter_append]
          rfl
        · show lastHash l = e.hash
          rw [lastHash_eq, hstamps]
          exact lastHashOf_concat _
      · rintro _ _ ⟨rfl, rfl, hnot⟩
        exact hnot hnum
  · rintro _ _ ⟨_, _, hne⟩
    refine hne ?_
    show e.opnum = t.log.entries.length + 1
    omega

/-- All that comes after opnum `p` is. -/
theorem installLoop_stage (hs : s.lastCommitted ≤ s.log.entries.length)
    (hE : Installable E.sha1 s start entries) : ∀ (n : Nat) {p : Nat} {t : Replica} {calls : List Upcall},
    start - 1 ≤ p → p + n = (newLog s.log start entries).length →
    Stage s t ((newLog s.log start entries).take p) c calls →
    Sat (forEach (List.range' (p + 1) n) (installEntry E entries start)) t
      (fun _ u _ => Stage s u (newLog s.log start entries) c
        (calls ++ (entries.drop (p + 1 - start)).map fun e => .execute e.opnum e.request))
      (fun _ _ => False)
  | 0, p, t, calls, hp, hn, h => by
      have hlong := hE.length_newLog hs
      have hpos := hE.positive
      have hdrop : entries.drop (p + 1 - start) = [] := List.drop_eq_nil_of_le (by omega)
      rw [hdrop, List.map_nil, List.append_nil]
      rwa [List.take_of_length_le (by omega)] at h
  | n + 1, p, t, calls, hp, hn, h => by
      have hlong := hE.length_newLog hs
      have hpos := hE.positive
      rw [List.range'_succ, forEach, sat_bind]
      refine (installEntry_stage (i := p + 1) hs hE (by omega) (by omega) h).mono ?_ fun _ _ hf => hf
      rintro _ u _ ⟨e, he, hu⟩
      obtain ⟨hlt, rfl⟩ := List.getElem?_eq_some_iff.mp he
      have hop := hE.numbered _ _ he
      refine (installLoop_stage hs hE n (by omega) (by omega) hu).mono ?_ fun _ _ hf => hf
      intro _ u' _ hu'
      rw [List.append_assoc] at hu'
      rw [List.drop_eq_getElem_cons hlt, List.map_cons, show p + 1 - start + 1 = p + 1 + 1 - start by omega,
        hop, show start + (p + 1 - start) = p + 1 by omega]
      exact hu'

end Stages

/-! ### The whole function -/

theorem exists_find {i : Nat} (hi : 1 ≤ i) (hle : i ≤ l.entries.length) : ∃ x, l.find i = some x :=
  ⟨_, Log.find_eq_some.mpr ⟨hi, List.getElem?_eq_getElem (by omega)⟩⟩

/-- Where both logs have entries, the first different one is found. -/
theorem firstDifferent_exists : ∀ {n k : Nat}, (∀ i, k ≤ i → i < k + n →
    (∃ x, l.find i = some x) ∧ ∃ e, newEntryAt entries start i = some e) →
    ∃ j, firstDifferent l entries start n k = some j ∧ (j < k + n → ∀ x e, l.find j = some x →
      newEntryAt entries start j = some e → x.hash ≠ e.hash)
  | 0, k, _ => ⟨k, rfl, fun h => absurd h (lt_irrefl k)⟩
  | n + 1, k, h => by
      obtain ⟨⟨x, hx⟩, e, he⟩ := h k (Nat.le_refl k) (by omega)
      rw [firstDifferent, hx, he]
      by_cases hne : x.hash = e.hash
      · obtain ⟨j, hj, hdiff⟩ := firstDifferent_exists (n := n) (k := k + 1) fun i h1 h2 =>
          h i (by omega) (by omega)
        refine ⟨j, ?_, fun hlt => hdiff (by omega)⟩
        simp only [Option.bind_eq_bind, Option.bind_some, hne, ne_eq, not_true_eq_false, if_false, hj]
      · refine ⟨k, ?_, fun _ y f hy hf => ?_⟩
        · simp only [Option.bind_eq_bind, Option.bind_some, ne_eq, hne, not_false_eq_true, if_true]
        · rwa [← Option.some.inj (hx.symm.trans hy), ← Option.some.inj (he.symm.trans hf)]

/-- The calls that take the application from the old log to the new one. -/
def changes (s : Replica) (start : Nat) (entries : List LogEntry) : List Upcall :=
  let p := commonLength (stamps s.log) (newLog s.log start entries)
  (if p < s.log.entries.length then [.rollback s.log.entries.length p (undone s.log p)] else []) ++
    (entries.drop (p + 1 - start)).map fun e => .execute e.opnum e.request

section Whole

variable {committed : Nat} (h : Tabled s) (hE : Installable E.sha1 s start entries)

include h hE

/-- The first part commits what is the same in both logs. -/
theorem commitSame_stage (hle : s.lastCommitted ≤ committed) {toCommit : Nat} (hto : firstDifferent s.log entries start
      (min committed s.lastSpeculative + 1 - max (s.lastCommitted + 1) start)
      (max (s.lastCommitted + 1) start) = some toCommit) :
    Sat (when (toCommit > start) do
        commitUpTo (toCommit - 1)
        let s ← get
        assert (s.lastCommitted = toCommit - 1)) s
      (fun _ t _ => ∃ c ≤ committed, c ≤ s.log.entries.length ∧ Stage s t (stamps s.log) c [] ∧
        ∀ i, start ≤ i → i ≤ c → HasHash (stamps s.log) entries start i)
      (fun _ _ => False) := by
  have hs := h.committed
  have hfull := h.full
  have hsame := fun i => hE.hasHash_committed hs (i := i)
  have hstage : Stage s s (stamps s.log) s.lastCommitted [] := ⟨h, rfl, rfl, (List.append_nil _).symm⟩
  obtain ⟨hto1, hto2, hall⟩ := firstDifferent_spec hto
  refine sat_when.mpr ⟨fun hgt => ?_, fun _ => ⟨s.lastCommitted, hle, hs, hstage, hsame⟩⟩
  refine sat_bind.mpr ((commitUpTo_stage (toCommit - 1) hstage
    (by rw [length_stamps]; omega)).mono ?_ fun _ _ hf => hf)
  intro _ t _ ht
  have hmax : max s.lastCommitted (toCommit - 1) = toCommit - 1 := by omega
  rw [hmax] at ht
  simp only [sat_bind, sat_get, sat_assert, ht.lastCommitted, forall_const, not_true_eq_false,
    false_imp_iff, and_true]
  refine ⟨toCommit - 1, by omega, by omega, ht, fun i h1 h2 => ?_⟩
  rcases Nat.lt_or_ge s.lastCommitted i with hlt | hge
  · exact hall i (by omega) (by omega)
  · exact hsame i h1 hge

/-- The rest goes back to what the logs have in common, and on from there. -/
theorem installEntries_stage (hle : s.lastCommitted ≤ committed)
    (hlast : committed < start + entries.length) :
    Sat (installEntries E entries start (start - 1 + entries.length) committed) s
      (fun _ t _ => Stage s t (newLog s.log start entries) committed (changes s start entries))
      (fun _ _ => False) := by
  have hs := h.committed
  have hfull := h.full
  have hpos := hE.positive
  have hheld := hE.held hs
  have hlong := hE.length_newLog hs
  have hexists : ∀ l' : Log, l'.entries.length = s.log.entries.length → ∀ i, start ≤ i →
      i ≤ s.log.entries.length → i < start + entries.length →
      (∃ x, l'.find i = some x) ∧ ∃ e, newEntryAt entries start i = some e := by
    intro l' hlen i h1 h2 h3
    obtain ⟨e, he, _⟩ := newEntryAt_eq hE.numbered h1 h3
    exact ⟨exists_find (by omega) (by omega), e, he⟩
  obtain ⟨toCommit, hto, _⟩ := firstDifferent_exists
    (n := min committed s.lastSpeculative + 1 - max (s.lastCommitted + 1) start)
    (k := max (s.lastCommitted + 1) start)
    fun i h1 h2 => hexists s.log rfl i (by omega) (by omega) (by omega)
  unfold installEntries
  simp only [sat_bind, sat_get, sat_ofOption, hto, Option.some.injEq, forall_eq', reduceCtorEq,
    false_imp_iff, and_true]
  refine (commitSame_stage h hE hle hto).mono ?_ fun _ _ hf => hf
  rintro _ t _ ⟨c, hc, hcs, ht, hsame⟩
  have htlen : t.log.entries.length = s.log.entries.length := by rw [ht.length, length_stamps]
  have htspec : t.lastSpeculative = s.log.entries.length := by rw [ht.tabled.full, htlen]
  -- what is the same up to `p` is the common prefix
  obtain ⟨fd, hfd, hdiff⟩ := firstDifferent_exists
    (n := min (start - 1 + entries.length) s.log.entries.length + 1 - max (c + 1) start)
    (k := max (c + 1) start)
    fun i h1 h2 => hexists _ htlen i (by omega) (by omega) (by omega)
  obtain ⟨hfd1, hfd2, hall⟩ := firstDifferent_spec hfd
  obtain ⟨p, rfl⟩ : ∃ p, fd = p + 1 := ⟨fd - 1, by omega⟩
  have hkept : (stamps s.log).take p = (newLog s.log start entries).take p := by
    refine hE.take_newLog hs fun i h1 h2 => ?_
    rcases Nat.lt_or_ge c i with hlt | hge
    · exact ht.log ▸ hall i (by omega) (by omega)
    · exact hsame i h1 hge
  have hcommon : commonLength (stamps s.log) (newLog s.log start entries) = p := by
    refine commonLength_eq hkept (by rw [length_stamps]; omega) (by omega) fun x y hx hy hxy => ?_
    have hlt := (List.getElem?_eq_some_iff.mp hx).1
    have hlt' := (List.getElem?_eq_some_iff.mp hy).1
    rw [length_stamps] at hlt
    obtain ⟨⟨z, hz⟩, e, he⟩ := hexists _ htlen (p + 1) (by omega) (by omega) (by omega)
    refine hdiff (by omega) z e hz he ?_
    have hzx : some (stamp z) = some x := by
      have hz' := (Log.find_eq_some.mp hz).2
      rw [Nat.add_sub_cancel] at hz'
      rw [← hx, ← ht.log, stamps, List.getElem?_map, hz']
      rfl
    have hey : some (stamp e) = some y := by
      rw [newEntryAt, if_pos (by omega)] at he
      rw [← hy, ← Nat.add_sub_cancel p 1, hE.getElem?_newLog hs (by omega), he]
      rfl
    exact congrArg Prod.snd (Option.some.inj (hzx.trans (hxy ▸ hey.symm)))
  simp only [ht.lastCommitted, hc, htspec, hfd, sat_assert, forall_const, not_true_eq_false,
    false_imp_iff, and_true, Option.some.injEq, forall_eq', Nat.add_sub_cancel,
    reduceCtorEq]
  refine (rollbackTo_stage (p := p) ht ?_ (by omega) (by rw [length_stamps]; omega)).mono ?_
    fun _ _ hf => hf
  · rw [← requests_eq]
    exact hE.ascendingOld
  intro _ u _ hu
  rw [List.nil_append, length_stamps, undone_of_stamps ht.log] at hu
  have huspec : u.lastSpeculative = p := by
    rw [hu.lastSpeculative, List.length_take, length_stamps]
    omega
  rw [hkept] at hu
  simp only [huspec, Nat.lt_succ_self, forall_const, not_true_eq_false, false_imp_iff, and_true]
  refine (installLoop_stage hs hE (start - 1 + entries.length - p) (by omega) (by omega) hu).mono ?_
    fun _ _ hf => hf
  intro _ w _ hw
  have hwspec : w.lastSpeculative = start - 1 + entries.length := by rw [hw.lastSpeculative, hlong]
  simp only [hwspec, forall_const, not_true_eq_false, false_imp_iff, and_true]
  refine (commitUpTo_stage committed hw (by omega)).mono ?_ fun _ _ hf => hf
  intro _ z _ hz
  rw [max_eq_right hc] at hz
  simp only [hz.lastCommitted, forall_const, not_true_eq_false, false_imp_iff, and_true]
  unfold changes
  rw [hcommon]
  exact hz

end Whole

/-- The state after the entries from `start` on are installed. -/
structure Installed (s t : Replica) (start : Nat) (entries : List LogEntry) : Prop where
  log : stamps t.log = newLog s.log start entries
  lastSpeculative : t.lastSpeculative = start - 1 + entries.length
  lastCommitted : t.lastCommitted = max s.lastCommitted (lastCommittedOf entries)
  calls : work t.upcalls = work s.upcalls ++ changes s start entries
  names : NamesLast t

/-- The entries that are not speculative are the committed ones. -/
theorem Installable.newLastCommitted_eq {sha1 : Sha1} (h : Installable sha1 s start entries) :
    newLastCommitted entries = lastCommittedOf entries := by
  obtain ⟨c, hstate⟩ := h.state
  have hfilter : entries.filter (fun e => e.state = .committed) =
      entries.filter (fun e => e.state ≠ .speculative) := by
    refine List.filter_congr fun e he => ?_
    rw [hstate e he]
    split_ifs <;> rfl
  rw [newLastCommitted, lastCommittedOf, hfilter, ← List.head?_filter, List.filter_reverse,
    List.head?_reverse]

theorem Installable.lastCommittedOf_lt {sha1 : Sha1} (h : Installable sha1 s start entries) :
    lastCommittedOf entries < start + entries.length := by
  have hreaches := h.reaches
  unfold lastCommittedOf
  cases hl : (entries.filter (·.state = .committed)).getLast? with
  | none => exact Nat.lt_of_le_of_lt (Nat.zero_le _) hreaches
  | some e =>
    obtain ⟨i, hi⟩ := List.mem_iff_getElem?.mp (List.mem_of_mem_filter (List.mem_of_getLast? hl))
    have hop := h.numbered i e hi
    have hlt := (List.getElem?_eq_some_iff.mp hi).1
    show e.opnum < _
    omega

theorem Installable.lastOpnum_eq {sha1 : Sha1} (h : Installable sha1 s start entries) :
    lastOpnum entries = start - 1 + entries.length := by
  have hlen := List.length_pos_of_ne_nil h.nonempty
  have hpos := h.positive
  have hlast : entries[entries.length - 1]? = some (entries.getLast h.nonempty) := by
    rw [← List.getLast?_eq_getElem?, List.getLast?_eq_getLast_of_ne_nil]
  have hop := h.numbered _ _ hlast
  rw [lastOpnum, List.getLast?_eq_getLast_of_ne_nil h.nonempty]
  show (entries.getLast h.nonempty).opnum = _
  omega

/-- Installing a log that continues what the replica has committed fails no assertion, and takes the log,
    the application and the client table from the old log to the new one. -/
theorem installLog_installed (h : NamesLast s) (hE : Installable E.sha1 s start entries) :
    Sat (installLog E entries) s (fun _ t _ => Installed s t start entries) (fun _ _ => False) := by
  have htabled := hE.ascendingOld.namesLast_iff.mp h
  have hcommitted := hE.newLastCommitted_eq
  have hlt := hE.lastCommittedOf_lt
  have hreaches := hE.reaches
  have hpos := hE.positive
  have hlast := hE.lastOpnum_eq
  have hfirst : ∀ e rest, entries = e :: rest → e.opnum = start := by
    rintro e rest rfl
    exact hE.numbered 0 e rfl
  have hdone : ∀ committed t, committed = max s.lastCommitted (lastCommittedOf entries) →
      Stage s t (newLog s.log start entries) committed (changes s start entries) →
      Installed s t start entries := by
    intro committed t hc ht
    refine ⟨ht.log, ?_, ht.lastCommitted.trans hc, ht.calls, ?_⟩
    · rw [ht.lastSpeculative, hE.length_newLog h.committed]
    · refine Ascending.namesLast_iff ?_ |>.mpr ht.tabled
      rw [requests_eq, ht.log]
      exact hE.ascendingNew
  unfold installLog
  cases hentries : entries with
  | nil => exact absurd hentries hE.nonempty
  | cons e rest =>
    dsimp only
    rw [hfirst e rest hentries, ← hentries, hlast, hcommitted]
    refine sat_bind.mpr (sat_get.mpr (sat_ite.mpr ⟨fun hlt' => ?_, fun hge => ?_⟩))
    · refine sat_bind.mpr (sat_assert.mpr ⟨fun _ => ?_, fun hne => hne (by omega)⟩)
      exact (installEntries_stage htabled hE (Nat.le_refl _) hreaches).mono
        (fun _ t _ ht => hdone _ t (by omega) ht) fun _ _ hf => hf
    · exact (installEntries_stage htabled hE (by omega) hlt).mono
        (fun _ t _ ht => hdone _ t (by omega) ht) fun _ _ hf => hf

/-- A handler that is not stopped leaves its postcondition true. -/
theorem Sat.result {α : Type} {m : SpecHandler α} {Q : Replica → Prop}
    (h : Sat m s (fun _ t _ => Q t) (fun _ _ => False)) : Q (m s).2.1 := by
  unfold Sat at h
  split at h
  · next heq =>
      rw [heq]
      exact h
  · exact h.elim

/-! A replica whose log is the first request of client 7, which came first there. -/

/-- A hash that is the numbers of all requests. -/
def listing : Sha1 := fun lastHash clientid clientreqid =>
  String.ofList (lastHash.toList ++ [Char.ofNat clientid, Char.ofNat clientreqid])

/-- An entry for opnum 1. -/
def firstOf (op : String) (clientid clientreqid : Nat) : LogEntry :=
  { viewstamp := { view := 0, opnum := 1 }, state := .speculative
    request := { op := op, clientid := clientid, clientreqid := clientreqid }
    hash := listing emptyHash clientid clientreqid }

theorem firstOf_numbered (op : String) (clientid clientreqid : Nat) :
    Log.NumberedFrom 1 [firstOf op clientid clientreqid] :=
  Log.numberedFrom_cons.mpr ⟨rfl, Log.numberedFrom_nil _⟩

def listingEnv : Env :=
  { config := { n := 3, f := 1 }, replicaIdx := 1, app := .default, sha1 := listing }

/-- Its entry names `prev` as its client's entry before it. -/
def holding (prev : Nat) : Replica :=
  { Replica.initial listingEnv with
    lastSpeculative := 1
    log := ⟨[firstOf "a" 7 1], fun i e he => (firstOf_numbered "a" 7 1 i e he).trans (Nat.add_comm 1 i)⟩
    prevClientReqOpnum := fun _ => prev
    clientTable := fun c => if c = 7 then some { lastReqId := 1, lastReqOpnum := 1 } else none }

theorem holding_tableNames (prev : Nat) : TableNames (holding prev) where
  full := rfl
  committed := Nat.zero_le _
  table := by
    intro c
    show (if c = 7 then some { lastReqId := 1, lastReqOpnum := 1 } else none : Option ClientTableEntry).getD {} =
      (([firstOf "a" 7 1].find? (·.request.clientid = c)).map _).getD {}
    by_cases hc : c = 7
    · subst hc
      rfl
    · have hne : decide ((firstOf "a" 7 1).request.clientid = c) = false := decide_eq_false (Ne.symm hc)
      rw [if_neg hc, List.find?_cons, hne]
      rfl

theorem holding_namesLast : NamesLast (holding 0) where
  toTableNames := holding_tableNames 0
  prev := by
    intro k e he
    have hlt := (List.getElem?_eq_some_iff.mp (Log.find_eq_some.mp he).2).1
    obtain rfl : k = 0 := Nat.lt_one_iff.mp hlt
    rfl

theorem holding_continues (prev : Nat) (op : String) (clientid clientreqid : Nat) :
    Continues listing (holding prev) 1 [firstOf op clientid clientreqid] where
  nonempty := List.cons_ne_nil _ _
  positive := Nat.le_refl 1
  numbered := firstOf_numbered op clientid clientreqid
  state := ⟨0, fun e he => by rw [List.mem_singleton.mp he]; rfl⟩
  chained := chained_nil.concat (x := stamp (firstOf op clientid clientreqid)) rfl
  increasingOld := List.pairwise_singleton ..
  increasingNew := List.pairwise_singleton ..
  agree := by
    intro x hx e _ _ hop
    obtain rfl : x = firstOf "a" 7 1 := List.mem_singleton.mp hx
    exact absurd hop (Nat.not_succ_le_zero 0)
  reaches := Nat.succ_pos 1
  starts := Or.inl (Nat.le_refl 1)

theorem holding_fromOne {prev clientid clientreqid : Nat} {op : String} (h : 1 ≤ clientreqid) :
    RequestsFromOne (holding prev).log [firstOf op clientid clientreqid] := by
  intro req hreq
  have hreq' : req ∈ [(firstOf "a" 7 1).request, (firstOf op clientid clientreqid).request] := hreq
  rcases List.mem_cons.mp hreq' with rfl | hlast
  · exact Nat.le_refl 1
  · rw [List.mem_singleton.mp hlast]
    exact h

theorem holding_same {prev clientid clientreqid : Nat} {op : String}
    (h : listing emptyHash 7 1 ≠ listing emptyHash clientid clientreqid) :
    HashNamesRequest (holding prev).log [firstOf op clientid clientreqid] := by
  intro x hx e he _ hhash
  obtain rfl : x = firstOf "a" 7 1 := List.mem_singleton.mp hx
  rw [List.mem_singleton.mp he] at hhash
  exact absurd hhash h

/-- Another client's request takes the place of that of client 7. -/
theorem installLog_installed_other : Sat (installLog listingEnv [firstOf "b" 8 1]) (holding 0)
    (fun _ t _ => Installed (holding 0) t 1 [firstOf "b" 8 1]) (fun _ _ => False) := by
  have hinstallable : Installable listing (holding 0) 1 [firstOf "b" 8 1] :=
    ⟨holding_continues .., holding_fromOne (Nat.le_refl 1), holding_same (by decide +kernel)⟩
  exact @installLog_installed listingEnv (holding 0) [firstOf "b" 8 1] 1 holding_namesLast hinstallable

/-- It is not so with a request numbered 0, for which the client table is not updated; when a request
    of the same number is in the log with another operation, which the hash leaves out; nor when the
    entry in the log names a wrong entry before it. -/
theorem installLog_not_installed :
    (NamesLast (holding 0) ∧ Continues listing (holding 0) 1 [firstOf "b" 8 0] ∧
      HashNamesRequest (holding 0).log [firstOf "b" 8 0] ∧
      ¬ Sat (installLog listingEnv [firstOf "b" 8 0]) (holding 0)
        (fun _ t _ => TableNames t) (fun _ _ => False)) ∧
    (NamesLast (holding 0) ∧ Continues listing (holding 0) 1 [firstOf "b" 7 1] ∧
      RequestsFromOne (holding 0).log [firstOf "b" 7 1] ∧
      ¬ Sat (installLog listingEnv [firstOf "b" 7 1]) (holding 0)
        (fun _ t _ => stamps t.log = newLog (holding 0).log 1 [firstOf "b" 7 1]) (fun _ _ => False)) ∧
    (TableNames (holding 1) ∧ Installable listing (holding 1) 1 [firstOf "b" 8 1] ∧
      ¬ Sat (installLog listingEnv [firstOf "b" 8 1]) (holding 1)
        (fun _ t _ => TableNames t) (fun _ _ => False)) := by
  refine ⟨⟨holding_namesLast, holding_continues .., holding_same (by decide +kernel), mt Sat.result ?_⟩,
    ⟨holding_namesLast, holding_continues .., holding_fromOne (Nat.le_refl 1), mt Sat.result ?_⟩,
    ⟨holding_tableNames 1, ⟨holding_continues .., holding_fromOne (Nat.le_refl 1),
      holding_same (by decide +kernel)⟩, mt Sat.result ?_⟩⟩
  · exact fun h => absurd (h.table 8) (by decide +kernel)
  · decide +kernel
  · exact fun h => absurd (h.table 7) (by decide +kernel)

end Dsnet.Spec
