import Dsnet.PBFT.Once

/-! The client table of a PBFT replica and the replies that it sends. A client gets its entry when a request of
    it first reaches the replica, and keeps it. The requests of the log come with the Preprepares, so a replica
    may execute one of a client that has never reached it, and then there is nobody to answer. -/

namespace Dsnet.PBFT
open Handler

variable {E : Env} {s s' : Replica} {n : Nat}

/-- The client is in the table. -/
def Replica.Knows (s : Replica) (c : Nat) : Prop := s.clientTable c ≠ none

/-- For every request that has been executed there is an address to send the reply to. -/
def Replica.Answers (s : Replica) : Prop := ∀ x ∈ s.executed, s.Knows x.2.clientid

theorem Replica.knows_setClient {c i : Nat} {entry : ClientEntry} :
    (s.setClient c entry).Knows i ↔ s.Knows i ∨ i = c := by
  by_cases hi : i = c
  · subst hi
    simp [Replica.Knows, Replica.setClient]
  · simp [Replica.Knows, Replica.setClient, hi]

/-! ### What does not execute -/

/-- Nothing is executed, and no client is forgotten. -/
def Serves (s s' : Replica) (_ : List Output) : Prop := s'.upcalls = s.upcalls ∧ ∀ c, s.Knows c → s'.Knows c

instance : Composes Serves where
  refl _ := ⟨rfl, fun _ h => h⟩
  trans h h' := ⟨h'.1.trans h.1, fun c hc => h'.2 c (h.2 c hc)⟩

theorem Serves.answers {o : List Output} (h : Serves s s' o) (hs : s.Answers) : s'.Answers := by
  intro x hx
  rw [Replica.executed, h.1] at hx
  exact h.2 _ (hs x hx)

/-- A change of other parts of the state. -/
theorem serves_modify {f : Replica → Replica} (hup : ∀ s, (f s).upcalls = s.upcalls)
    (htable : ∀ s, (f s).clientTable = s.clientTable) : Always Serves (modify f : RHandler Unit) :=
  always_modify fun s => ⟨hup s, fun c hc => by rwa [Replica.Knows, htable s]⟩

theorem serves_setClient (c : Nat) (entry : ClientEntry) :
    Always Serves (modify (·.setClient c entry) : RHandler Unit) :=
  always_modify fun _ => ⟨rfl, fun _ hi => Replica.knows_setClient.mpr (Or.inl hi)⟩

theorem serves_emit (x : Output) : Always Serves (emit x : RHandler Unit) := always_emit fun _ => ⟨rfl, fun _ h => h⟩

theorem serves_log (s : Replica) (log : Log) : Serves s { s with log := log } [] := ⟨rfl, fun _ h => h⟩

theorem serves_storeRequests (k : Nat) (reqs : List Request) : Always Serves (storeRequests E k reqs) :=
  always_storeRequests (fun s log _ => serves_log s log) (fun _ _ => ⟨rfl, fun _ h => h⟩) k reqs

theorem serves_insertPrepare (m : Prepare) : Always Serves (insertPrepare E m) :=
  .bind always_get fun _ => .bind (serves_modify (fun _ => rfl) fun _ => rfl) fun _ =>
    .ite always_pure <| .ite always_abort <| .bind always_ofOption fun _ =>
      .bind (serves_modify (fun _ => rfl) fun _ => rfl) fun _ => serves_emit _

theorem serves_handlePreprepare (m : Prepare) (reqs : List Request) :
    Always Serves (handlePreprepare E m reqs) :=
  .bind always_get fun _ => .ite always_pure <| .ite always_abort <| .ite always_abort <| .ite always_pure <|
    .bind (serves_storeRequests _ _) fun _ => .bind (serves_insertPrepare m) fun _ =>
      .bind always_get fun _ => .when (serves_emit _)

theorem serves_handlePrepare (m : Prepare) : Always Serves (handlePrepare E m) :=
  .bind always_get fun _ => .ite always_pure <| .ite always_abort <| .ite
    (.bind always_ofOption fun _ => .ite always_pure (serves_insertPrepare m)) (serves_insertPrepare m)

theorem serves_closeBatch : Always Serves (closeBatch E) :=
  .bind (serves_modify (fun _ => rfl) fun _ => rfl) fun _ => .bind always_get fun _ =>
    .bind always_assert fun _ => .bind (serves_emit _) fun _ => serves_modify (fun _ => rfl) fun _ => rfl

theorem serves_handleNewRequest (req : Request) (entry : ClientEntry) :
    Always Serves (handleNewRequest E req entry) := by
  refine .bind always_get fun _ => .ite (.when (serves_emit _)) ?_
  exact .bind (serves_modify (fun _ => rfl) fun _ => rfl) fun _ => .bind always_get fun _ =>
    .bind (always_append (fun s log _ => serves_log s log) _ _) fun _ => .bind (serves_setClient _ _) fun _ =>
      .bind (serves_modify (fun _ => rfl) fun _ => rfl) fun _ => .bind always_get fun _ =>
        .when serves_closeBatch

theorem serves_handleRequest (remote : Addr) (req : Request) : Always Serves (handleRequest E remote req) := by
  refine .bind always_get fun s => ?_
  cases s.standing req with
  | late => exact always_pure
  | again entry => exact .whenSome fun _ => serves_emit _
  | next entry => exact serves_handleNewRequest req entry
  | unknown =>
    exact .ite always_abort (.bind (serves_setClient _ _) fun _ => serves_handleNewRequest req _)

/-! ### What executes -/

/-- The entry is committed, and so are those between it and what has been executed. -/
def Replica.Ready (s : Replica) (k : Nat) (e : LogEntry) : Prop :=
  s.commitNumber < k ∧ s.log.find k = some e ∧
    ∀ j, s.commitNumber < j → j ≤ k → ∃ e', s.log.find j = some e' ∧ e'.state = .committed

/-- No entry is ready when the next one is missing, or not committed. -/
theorem not_ready (h : ∀ e, s.log.find (s.commitNumber + 1) = some e → e.state ≠ .committed) {k : Nat}
    {e : LogEntry} : ¬ s.Ready k e := by
  rintro ⟨hk, -, hall⟩
  obtain ⟨e', he', hc⟩ := hall (s.commitNumber + 1) (Nat.lt_succ_self _) hk
  exact h e' he' hc

/-- `s₁` is the state after the next entry has been executed, and its client answered. -/
structure ExecutedNext (s : Replica) (e : LogEntry) (s₁ : Replica) : Prop where
  log : s₁.log = s.log
  commitNumber : s₁.commitNumber = s.commitNumber + 1
  executed : s₁.executed = s.executed ++ [(s.commitNumber + 1, e.request)]
  knows : ∀ i, s₁.Knows i ↔ s.Knows i
  client : s.Knows e.request.clientid

/-- What is ready is the entry that has been executed, and what is still ready. -/
theorem ExecutedNext.ready_iff {e : LogEntry} {s₁ : Replica} (h : ExecutedNext s e s₁)
    (he : s.log.find (s.commitNumber + 1) = some e) (hc : e.state = .committed) {k : Nat} {e' : LogEntry} :
    s.Ready k e' ↔ k = s.commitNumber + 1 ∧ e' = e ∨ s₁.Ready k e' := by
  simp only [Replica.Ready, h.log, h.commitNumber]
  constructor
  · rintro ⟨hk, hfind, hall⟩
    rcases eq_or_lt_of_le (Nat.succ_le_of_lt hk) with rfl | hlt
    · exact Or.inl ⟨rfl, Option.some.inj (hfind.symm.trans he)⟩
    · exact Or.inr ⟨hlt, hfind, fun j hj hjk => hall j (Nat.lt_of_succ_lt hj) hjk⟩
  · rintro (⟨rfl, rfl⟩ | ⟨hk, hfind, hall⟩)
    · refine ⟨Nat.lt_succ_self _, he, fun j hj hjk => ?_⟩
      obtain rfl : j = s.commitNumber + 1 := by omega
      exact ⟨e', he, hc⟩
    · refine ⟨Nat.lt_of_succ_lt hk, hfind, fun j hj hjk => ?_⟩
      rcases eq_or_lt_of_le (Nat.succ_le_of_lt hj) with rfl | hlt
      · exact ⟨e, he, hc⟩
      · exact hall j hlt hjk

theorem ExecutedNext.answers {e : LogEntry} {s₁ : Replica} (h : ExecutedNext s e s₁) (hs : s.Answers) :
    s₁.Answers := by
  intro x hx
  rw [h.executed] at hx
  refine (h.knows _).mpr ?_
  rcases List.mem_append.mp hx with hx | hx
  · exact hs x hx
  · rw [List.mem_singleton.mp hx]
    exact h.client

theorem executeLoop_answers : ∀ (n : Nat) {s : Replica}, s.Answers →
    s.log.entries.length ≤ s.commitNumber + n →
    Sat (executeLoop E n) s
      (fun _ s' _ => s'.Answers ↔ ∀ k e, s.Ready k e → s.Knows e.request.clientid)
      fun s' _ => s'.Answers ↔ ∀ k e, s.Ready k e → s.Knows e.request.clientid
  | 0, s, hs, hn => by
      refine iff_of_true hs fun k e hke => (not_ready (fun e he _ => ?_) hke).elim
      have hlen := (List.getElem?_eq_some_iff.mp (Log.find_eq_some.mp he).2).1
      omega
  | n + 1, s, hs, hn => by
      have hrest : ∀ {e : LogEntry} {s₁ : Replica}, ExecutedNext s e s₁ →
          s.log.find (s.commitNumber + 1) = some e → e.state = .committed →
          Sat (executeLoop E n) s₁
            (fun _ s' _ => s'.Answers ↔ ∀ k e, s.Ready k e → s.Knows e.request.clientid)
            fun s' _ => s'.Answers ↔ ∀ k e, s.Ready k e → s.Knows e.request.clientid := by
        intro e s₁ h₁ he hc
        have hiff : (∀ k e, s₁.Ready k e → s₁.Knows e.request.clientid) ↔
            ∀ k e, s.Ready k e → s.Knows e.request.clientid := by
          constructor
          · intro h k e' hke
            rcases (h₁.ready_iff he hc).mp hke with ⟨rfl, rfl⟩ | hke
            · exact h₁.client
            · exact (h₁.knows _).mp (h k e' hke)
          · exact fun h k e' hke => (h₁.knows _).mpr (h k e' ((h₁.ready_iff he hc).mpr (Or.inr hke)))
        refine (executeLoop_answers n (h₁.answers hs) ?_).mono (fun _ _ _ h => h.trans hiff) fun _ _ h => h.trans hiff
        rw [h₁.log, h₁.commitNumber]
        omega
      simp only [executeLoop, executeNext, sat_bind, sat_get, sat_whenSome, sat_when, sat_modify,
        sat_ofOption, sat_emit]
      refine ⟨fun e he => ⟨fun hc => ⟨fun client hclient => ?_, fun hnone => ?_⟩, fun hc => ?_⟩, fun hnone => ?_⟩
      · have hknown : s.Knows e.request.clientid := fun h => by cases h.symm.trans hclient
        refine hrest (e := e) ⟨rfl, rfl, ?_, fun i => ?_, hknown⟩ he hc
        · simp [Replica.executed, Replica.setClient, executions]
        · refine Replica.knows_setClient.trans ⟨fun h => ?_, Or.inl⟩
          rcases h with h | rfl
          · exact h
          · exact hknown
      · refine iff_of_false (fun h => ?_) fun h => ?_
        · refine h (s.commitNumber + 1, e.request) ?_ hnone
          simp [Replica.executed, executions]
        · refine h (s.commitNumber + 1) e ⟨Nat.lt_succ_self _, he, fun j hj hjk => ?_⟩ hnone
          obtain rfl : j = s.commitNumber + 1 := by omega
          exact ⟨e, he, hc⟩
      · refine iff_of_true hs fun k e' hke => (not_ready (fun e'' he'' hc'' => ?_) hke).elim
        rw [he] at he''
        exact hc (Option.some.inj he'' ▸ hc'')
      · refine iff_of_true hs fun k e' hke => (not_ready (fun e'' he'' _ => ?_) hke).elim
        rw [hnone] at he''
        cases he''

/-! ### Commits -/

/-- The entry and those between it and what has been executed are committed when the batch of the Commit is. -/
def Replica.Due (s : Replica) (m : Commit) (k : Nat) (e : LogEntry) : Prop :=
  s.commitNumber < k ∧ s.log.find k = some e ∧ ∀ j, s.commitNumber < j → j ≤ k →
    ∃ e', s.log.find j = some e' ∧ (e'.state = .committed ∨ m.opNumber ≤ j ∧ j < m.opNumber + m.batchSize)

/-- The Commit is one too many for a batch that is in the log and not committed yet. -/
structure Completes (E : Env) (s : Replica) (m : Commit) : Prop where
  view : m.viewNumber = s.viewNumber
  quorum : 2 * E.config.f ≤ (s.commits m).size
  pending : ∃ e, s.log.find m.opNumber = some e ∧ e.state ≠ .committed
  logged : ∀ j, m.opNumber ≤ j → j < m.opNumber + m.batchSize → s.log.find j ≠ none

/-- The batch has been committed: nothing else has changed. -/
structure BatchCommitted (s : Replica) (k n : Nat) (s' : Replica) : Prop where
  state : s' = { s with log := s'.log }
  length : s'.log.entries.length = s.log.entries.length
  find : ∀ j, s'.log.find j =
    (s.log.find j).map fun e => if k ≤ j ∧ j < k + n then { e with state := .committed } else e

theorem commitBatch_spec : ∀ (n k : Nat) (s : Replica),
    Sat (commitBatch k n) s
      (fun _ s' _ => BatchCommitted s k n s' ∧ ∀ j, k ≤ j → j < k + n → s.log.find j ≠ none)
      fun s' _ => Serves s s' [] ∧ ∃ j, k ≤ j ∧ j < k + n ∧ s.log.find j = none
  | 0, k, s => by
      refine ⟨⟨rfl, rfl, fun j => ?_⟩, fun j hj hjk => by omega⟩
      have hno : ¬ (k ≤ j ∧ j < k + 0) := by omega
      simp only [if_neg hno, Option.map_id']
  | n + 1, k, s => by
      simp only [commitBatch, sat_bind, sat_get, sat_ofOption, sat_modify]
      refine ⟨fun e he => ?_, fun hnone => ⟨Composes.refl (R := Serves) s, k, le_rfl, by omega, hnone⟩⟩
      have hfind : ∀ j, (s.log.setStatus k .committed).find j = none ↔ s.log.find j = none := fun j => by
        rw [Log.find_setStatus, Option.map_eq_none_iff]
      refine (commitBatch_spec n (k + 1) _).mono (fun _ s' _ h => ?_) fun s' _ h => ?_
      · obtain ⟨⟨hstate, hlen, hall⟩, hlogged⟩ := h
        refine ⟨⟨hstate, hlen.trans (Log.length_entries_setStatus ..), fun j => ?_⟩, fun j hj hjk => ?_⟩
        · rw [hall, Log.find_setStatus, Option.map_map]
          congr 1
          funext e'
          by_cases hjk : j = k
          · subst hjk
            have hno : ¬ (j + 1 ≤ j ∧ j < j + 1 + n) := by omega
            have hyes : j ≤ j ∧ j < j + (n + 1) := by omega
            simp only [Function.comp_apply, if_true, if_neg hno, if_pos hyes]
          · have hiff : (k + 1 ≤ j ∧ j < k + 1 + n) ↔ k ≤ j ∧ j < k + (n + 1) := by omega
            simp only [Function.comp_apply, if_neg hjk, hiff]
        · rcases eq_or_lt_of_le hj with rfl | hlt
          · exact fun hnone => by cases hnone.symm.trans he
          · exact fun hnone => hlogged j hlt (by omega) ((hfind j).mpr hnone)
      · obtain ⟨hserves, j, hj, hjk, hnone⟩ := h
        exact ⟨hserves, j, by omega, by omega, (hfind j).mp hnone⟩

/-- What is due is what is ready when the batch is committed. -/
theorem BatchCommitted.ready_iff {m : Commit} (h : BatchCommitted s m.opNumber m.batchSize s') :
    (∀ k e, s'.Ready k e → s'.Knows e.request.clientid) ↔ ∀ k e, s.Due m k e → s.Knows e.request.clientid := by
  have hcommit : s'.commitNumber = s.commitNumber := by rw [h.state]
  have hknows : ∀ c, s'.Knows c ↔ s.Knows c := fun c => by rw [h.state]; rfl
  have hall : ∀ j, (∃ e, s'.log.find j = some e ∧ e.state = .committed) ↔
      ∃ e, s.log.find j = some e ∧ (e.state = .committed ∨ m.opNumber ≤ j ∧ j < m.opNumber + m.batchSize) := by
    intro j
    rw [h.find]
    by_cases hj : m.opNumber ≤ j ∧ j < m.opNumber + m.batchSize
    · simp only [if_pos hj, Option.map_eq_some_iff]
      exact ⟨fun ⟨_, ⟨e, he, _⟩, _⟩ => ⟨e, he, Or.inr hj⟩, fun ⟨e, he, _⟩ => ⟨_, ⟨e, he, rfl⟩, rfl⟩⟩
    · simp only [if_neg hj, Option.map_id', or_iff_left hj]
  constructor
  · rintro hs k e ⟨hk, he, hdue⟩
    have he' : s'.log.find k = some (if m.opNumber ≤ k ∧ k < m.opNumber + m.batchSize then
        { e with state := .committed } else e) := by rw [h.find, he, Option.map_some]
    have hready := (hknows _).mp (hs k _ ⟨hcommit ▸ hk, he', fun j hj hjk => (hall j).mpr (hdue j (hcommit ▸ hj) hjk)⟩)
    split_ifs at hready <;> exact hready
  · rintro hs k e' ⟨hk, he', hready⟩
    have hfind := he'
    rw [h.find] at hfind
    obtain ⟨e, he, rfl⟩ := Option.map_eq_some_iff.mp hfind
    have hdue := hs k e ⟨hcommit ▸ hk, he, fun j hj hjk => (hall j).mp (hready j (hcommit.symm ▸ hj) hjk)⟩
    refine (hknows _).mpr ?_
    split_ifs <;> exact hdue

/-- A Commit leaves everybody answered just when it is not the one that makes a request due whose client is
    not known. -/
theorem handleCommit_answers (hs : s.Answers) (m : Commit) :
    Sat (handleCommit E m) s
      (fun _ s' _ => s'.Answers ↔ (Completes E s m → ∀ k e, s.Due m k e → s.Knows e.request.clientid))
      fun s' _ => s'.Answers ↔ (Completes E s m → ∀ k e, s.Due m k e → s.Knows e.request.clientid) := by
  have hskip {s' : Replica} (hserves : Serves s s' []) (h : ¬ Completes E s m) :
      s'.Answers ↔ (Completes E s m → ∀ k e, s.Due m k e → s.Knows e.request.clientid) :=
    iff_of_true (hserves.answers hs) fun h' => (h h').elim
  have hinsert (hview : m.viewNumber = s.viewNumber)
      (hpending : m.opNumber ≤ s.log.lastOpnum → ∃ e, s.log.find m.opNumber = some e ∧ e.state ≠ .committed) :
      Sat (insertCommit E m) s
        (fun _ s' _ => s'.Answers ↔ (Completes E s m → ∀ k e, s.Due m k e → s.Knows e.request.clientid))
        fun s' _ => s'.Answers ↔ (Completes E s m → ∀ k e, s.Due m k e → s.Knows e.request.clientid) := by
    simp only [insertCommit, sat_bind, sat_get, sat_modify, sat_ite, sat_pure, sat_abort]
    refine ⟨fun hq => hskip ⟨rfl, fun _ h => h⟩ fun h => absurd h.quorum (by omega), fun hq =>
      ⟨fun hlast => hskip ⟨rfl, fun _ h => h⟩ fun h => ?_, fun hlast => ?_⟩⟩
    · obtain ⟨e, he, -⟩ := h.pending
      have hlen := (List.getElem?_eq_some_iff.mp (Log.find_eq_some.mp he).2).1
      rw [Log.lastOpnum_eq] at hlast
      omega
    · refine (commitBatch_spec m.batchSize m.opNumber _).mono (fun _ s₂ _ h₂ => ?_) fun s' _ h' => ?_
      · obtain ⟨hbatch, hlogged⟩ := h₂
        have hcompletes : Completes E s m :=
          ⟨hview, Nat.not_lt.mp hq, hpending (Nat.not_lt.mp hlast), hlogged⟩
        have hiff := hbatch.ready_iff
        obtain ⟨hstate, hlen, -⟩ := hbatch
        have hserves : Serves s s₂ [] := by
          rw [hstate]
          exact ⟨rfl, fun _ h => h⟩
        refine (executeLoop_answers _ (hserves.answers hs) ?_).mono (fun _ s' _ h => ?_) fun s' _ h => ?_
        · rw [hlen]
          exact Nat.le_add_left _ _
        · exact (h.trans hiff).trans ⟨fun h _ => h, fun h => h hcompletes⟩
        · exact (h.trans hiff).trans ⟨fun h _ => h, fun h => h hcompletes⟩
      · obtain ⟨hserves, j, hj, hjk, hnone⟩ := h'
        exact hskip hserves fun h => h.logged j hj hjk hnone
  have hsame : Serves s s [] := ⟨rfl, fun _ h => h⟩
  simp only [handleCommit, sat_bind, sat_get, sat_ite, sat_pure, sat_abort, sat_ofOption]
  refine ⟨fun hlt => hskip hsame fun h => absurd h.view (by omega), fun hle =>
    ⟨fun hgt => hskip hsame fun h => absurd h.view (by omega), fun hge => ⟨fun hlast => ⟨fun e he =>
      ⟨fun hc => hskip hsame fun h => ?_, fun hc => hinsert (by omega) fun _ => ⟨e, he, hc⟩⟩, fun hnone =>
        hskip hsame fun h => ?_⟩, fun hlast => hinsert (by omega) fun h => (hlast h).elim⟩⟩⟩
  · obtain ⟨e', he', hc'⟩ := h.pending
    exact hc' (Option.some.inj (he.symm.trans he') ▸ hc)
  · obtain ⟨e', he', -⟩ := h.pending
    cases hnone.symm.trans he'

/-! ### Who is known -/

/-- When the client is known, the same clients are known after as before. -/
def Remembers (c : Nat) (s s' : Replica) : Prop := s.Knows c → ∀ i, s'.Knows i ↔ s.Knows i

instance (c : Nat) : Std.Refl (Remembers c) := ⟨fun _ _ _ => Iff.rfl⟩

instance (c : Nat) : IsTrans Replica (Remembers c) :=
  ⟨fun _ _ _ h h' hc i => (h' ((h hc c).mpr hc) i).trans (h hc i)⟩

theorem knows_of_intake (h : s'.intake = s.intake) (i : Nat) : s'.Knows i ↔ s.Knows i := by
  have hi : (s'.clientTable i).isSome = (s.clientTable i).isSome := congrFun (congrArg (·.2.2) h) i
  rw [Replica.Knows, Replica.Knows, ← Option.isSome_iff_ne_none, ← Option.isSome_iff_ne_none, hi]

theorem remembers_modify {f : Replica → Replica} (htable : ∀ s, (f s).clientTable = s.clientTable) (c : Nat) :
    Relates (Remembers c) (modify f : RHandler Unit) :=
  relates_modify fun s _ i => by rw [Replica.Knows, htable s]; rfl

theorem closeBatch_table : Relates (Same Replica.clientTable) (closeBatch E) :=
  Relates.bind (same_modify fun _ => rfl) fun _ => Relates.bind relates_get fun _ =>
    Relates.bind relates_assert fun _ => Relates.bind relates_emit fun _ => same_modify fun _ => rfl

theorem remembers_handleNewRequest (req : Request) (entry : ClientEntry) :
    Relates (Remembers req.clientid) (handleNewRequest E req entry) := by
  have hclose : Relates (Remembers req.clientid) (closeBatch E) :=
    closeBatch_table.mono fun s s' h _ i => by rw [Replica.Knows, show s'.clientTable = s.clientTable from h]; rfl
  have hclient : Relates (Remembers req.clientid) (modify (·.setClient req.clientid
      { entry with requestNumber := req.clientreqid, reply := none }) : RHandler Unit) :=
    relates_modify fun s hc i => Replica.knows_setClient.trans ⟨fun h => h.elim id fun hi => hi ▸ hc, Or.inl⟩
  refine Relates.bind relates_get fun _ => Relates.ite (Relates.when relates_emit) ?_
  exact Relates.bind (remembers_modify (fun _ => rfl) _) fun _ => Relates.bind relates_get fun _ =>
    Relates.bind ((append_intake _ _).mono fun _ _ h _ => knows_of_intake h) fun _ => Relates.bind hclient fun _ =>
      Relates.bind (remembers_modify (fun _ => rfl) _) fun _ => Relates.bind relates_get fun _ => Relates.when hclose

theorem handleRequest_knows (remote : Addr) (req : Request) (s : Replica) :
    Sat (handleRequest E remote req) s (fun _ s' _ => ∀ c, s'.Knows c ↔ s.Knows c ∨ req.clientid = c)
      fun _ _ => True := by
  have hknown (h : s.Knows req.clientid) (c : Nat) : s.Knows c ↔ s.Knows c ∨ req.clientid = c :=
    ⟨Or.inl, fun hc => hc.elim id fun hc => hc ▸ h⟩
  rw [handleRequest, sat_bind, sat_get]
  cases hst : s.standing req with
  | late => exact hknown fun h => by simp [Replica.standing, h] at hst
  | again entry =>
    exact sat_whenSome.mpr ⟨fun _ _ => hknown fun h => by simp [Replica.standing, h] at hst,
      fun _ => hknown fun h => by simp [Replica.standing, h] at hst⟩
  | next entry =>
    have h : s.Knows req.clientid := fun h => by simp [Replica.standing, h] at hst
    exact (remembers_handleNewRequest req entry s).mono (fun _ _ _ h' c => (h' h c).trans (hknown h c))
      fun _ _ _ => trivial
  | unknown =>
    simp only [sat_ite, sat_abort, sat_bind, sat_modify]
    refine ⟨fun _ => trivial, fun _ => (remembers_handleNewRequest req _ _).mono (fun _ _ _ h' c => ?_)
      fun _ _ _ => trivial⟩
    rw [h' (Replica.knows_setClient.mpr (Or.inr rfl)) c, Replica.knows_setClient, eq_comm]

theorem receiveMessage_knows (remote : Addr) (m : Message) (s : Replica) :
    Sat (receiveMessage E remote m) s
      (fun _ s' _ => ∀ c, s'.Knows c ↔ s.Knows c ∨ ∃ req, m = .request req ∧ req.clientid = c)
      fun _ _ => True := by
  have hsame {m : Message} {h : RHandler Unit} (hh : Relates (Same Replica.intake) h)
      (hm : ∀ req, m ≠ .request req) :
      Sat h s (fun _ s' _ => ∀ c, s'.Knows c ↔ s.Knows c ∨ ∃ req, m = .request req ∧ req.clientid = c)
        fun _ _ => True :=
    (hh s).mono (fun _ _ _ h c => (knows_of_intake h c).trans ⟨Or.inl, fun hc => hc.elim id
      fun ⟨req, hreq, _⟩ => (hm req hreq).elim⟩) fun _ _ _ => trivial
  cases m with
  | request req =>
    refine (handleRequest_knows remote req s).mono (fun _ _ _ h c => (h c).trans ?_) fun _ _ _ => trivial
    simp
  | preprepare p reqs =>
    exact hsame (Relates.ite relates_abort (handlePreprepare_intake _ _)) fun _ => Message.noConfusion
  | prepare p => exact hsame (handlePrepare_intake p) fun _ => Message.noConfusion
  | commit m => exact hsame (handleCommit_intake m) fun _ => Message.noConfusion

/-! ### Runs -/

variable {G : Group}

/-- A request of the client has reached replica `r`. -/
def HasAsked (G : Group) (x : Sys × List Event) (r c : Nat) : Prop :=
  ∃ req, Net.Arrived G.protocol x r (.request req) ∧ req.clientid = c

/-- A Commit that makes requests of the log of a replica due finds that their clients have asked the replica. -/
def Introduced (G : Group) (x : Sys × List Event) (e : Event) : Prop :=
  ∀ r m, Net.Brings G.protocol x.1 r (.commit m) e → Completes (G.env r) (x.1.replica r) m →
    ∀ k entry, (x.1.replica r).Due m k entry → HasAsked G x r entry.request.clientid

/-- The clients that a replica knows are those that have asked it. -/
def KnowsAsked (G : Group) (x : Sys × List Event) : Prop :=
  ∀ r, x.1.stopped r = false → ∀ c, (x.1.replica r).Knows c ↔ HasAsked G x r c

theorem knowsAsked_of_run {C : Sys × List Event → Event → Prop} {past : List (Sys × List Event)}
    {x : Sys × List Event} (hr : Run G.system.recorded C past x) : KnowsAsked G x := by
  refine hr.invariant (I := fun _ x => KnowsAsked G x) (fun _ _ c => ?_) ?_
  · exact iff_of_false (fun h => h rfl) fun ⟨_, ⟨_, he, _⟩, _⟩ => by cases he
  intro _ x e y hr h _ hst r' hlive' c
  obtain ⟨r, m, hm, -, hlive, hafter⟩ := Net.Sys.step_eq_some (System.recorded_step_eq_some.mp hst).1
  have hasked : HasAsked G y r' c ↔ HasAsked G x r' c ∨
      ∃ req, Net.Brings G.protocol x.1 r' (.request req) e ∧ req.clientid = c := by
    simp only [HasAsked, Net.arrived_iff hr hst]
    constructor
    · rintro ⟨req, hb | ha, hc⟩
      · exact Or.inr ⟨req, hb, hc⟩
      · exact Or.inl ⟨req, ha, hc⟩
    · rintro (⟨req, ha, hc⟩ | ⟨req, hb, hc⟩)
      · exact ⟨req, Or.inr ha, hc⟩
      · exact ⟨req, Or.inl hb, hc⟩
  rw [hasked]
  by_cases hrr : r' = r
  · subst hrr
    rw [← h r' hlive c]
    have hknows : Sat m (x.1.replica r') (fun _ s' _ => ∀ c, s'.Knows c ↔ (x.1.replica r').Knows c ∨
        ∃ req, Net.Brings G.protocol x.1 r' (.request req) e ∧ req.clientid = c) fun _ _ => True := by
      rcases Net.brings_of_handler hm with ⟨a, msg, rfl, hb⟩ | ⟨_, -, rfl, hb⟩
      · simp only [hb, true_and]
        exact (receiveMessage_knows a msg _).mono (fun _ _ _ h c => by simpa only [eq_comm] using h c) fun _ _ h => h
      · refine (closeBatch_table _).mono (fun _ s' _ h c => ?_) fun _ _ _ => trivial
        rw [Replica.Knows, show s'.clientTable = _ from h]
        exact ⟨Or.inl, fun hc => hc.elim id fun ⟨_, hb', _⟩ => (hb _ _ hb').elim⟩
    rw [hafter] at hlive' ⊢
    rcases hknows.cases with ⟨_, s', o, hrun, hs'⟩ | ⟨s', o, hrun, -⟩
    · simp only [Net.Sys.after, hrun, if_true]
      exact hs' c
    · simp [Net.Sys.after, hrun] at hlive'
  · have hno : ¬ ∃ req, Net.Brings G.protocol x.1 r' (.request req) e ∧ req.clientid = c := by
      rintro ⟨req, hb, -⟩
      rcases Net.brings_of_handler hm with ⟨a, msg, rfl, hb'⟩ | ⟨_, -, rfl, hb'⟩
      · exact hrr ((hb' _ _).mp hb).1
      · exact hb' _ _ hb
    rw [hafter] at hlive' ⊢
    simp only [Net.Sys.after, if_neg hrr] at hlive' ⊢
    rw [or_iff_left hno]
    exact h r' hlive' c

/-- One step: everybody stays answered just when the requests that become due are of clients that have asked. -/
theorem answers_step {x y : Sys × List Event} {e : Event} (h : KnowsAsked G x)
    (hx : ∀ r, (x.1.replica r).Answers) (hst : G.system.recorded.step x e = some y) :
    (∀ r, (y.1.replica r).Answers) ↔ Introduced G x e := by
  obtain ⟨r, m, hm, hr, hlive, hafter⟩ := Net.Sys.step_eq_some (System.recorded_step_eq_some.mp hst).1
  have hall : (∀ i, (y.1.replica i).Answers) ↔ (m (x.1.replica r)).2.1.Answers := by
    rw [hafter]
    constructor
    · intro h
      simpa [Net.Sys.after] using h r
    · intro h i
      by_cases hi : i = r
      · simpa [Net.Sys.after, hi] using h
      · simpa [Net.Sys.after, hi] using hx i
  have hserves (hs : Always Serves m) (hno : ∀ r' c, ¬ Net.Brings G.protocol x.1 r' (.commit c) e) :
      (m (x.1.replica r)).2.1.Answers ↔ Introduced G x e :=
    iff_of_true ((hs.outcome _).answers (hx r)) fun r' c hb => (hno r' c hb).elim
  rw [hall]
  rcases Net.brings_of_handler hm with ⟨a, msg, rfl, hb⟩ | ⟨_, -, rfl, hb⟩
  · cases msg with
    | request req => exact hserves (serves_handleRequest a req) fun r' c h => by cases ((hb _ _).mp h).2
    | preprepare p reqs =>
      exact hserves (.ite always_abort (serves_handlePreprepare _ _)) fun r' c h => by cases ((hb _ _).mp h).2
    | prepare p => exact hserves (serves_handlePrepare p) fun r' c h => by cases ((hb _ _).mp h).2
    | commit c =>
      refine (state_of_sat (I := fun s' : Replica => s'.Answers ↔ _) (handleCommit_answers (hx r) c)).trans ?_
      constructor
      · intro hc r' c' hb'
        obtain ⟨rfl, hcc⟩ := (hb _ _).mp hb'
        cases hcc
        exact fun hcompl k entry hdue => (h r' hlive _).mp (hc hcompl k entry hdue)
      · exact fun hi hcompl k entry hdue => (h r hlive _).mpr
          (hi r c ((hb _ _).mpr ⟨rfl, rfl⟩) hcompl k entry hdue)
  · exact hserves serves_closeBatch fun r' c => hb _ _

/-- In every run: every request that was executed had somebody to answer, just when each Commit that made
    requests due came to a replica that their clients had asked before. -/
theorem answers_iff {past : List (Sys × List Event)} {x : Sys × List Event}
    (hr : Run G.system.recorded (fun _ _ => True) past x) :
    (∀ y ∈ x :: past, ∀ r, (y.1.replica r).Answers) ↔ Run G.system.recorded (Introduced G) past x := by
  have hinit : ∀ r, ((Net.Sys.initial G.protocol).replica r).Answers := fun _ _ h => by cases h
  constructor
  · intro h
    induction hr with
    | start => exact .start
    | next hr _ hst ih =>
      obtain ⟨hnew, hold⟩ := List.forall_mem_cons.mp h
      have hx := (List.forall_mem_cons.mp hold).1
      exact .next (ih hold) ((answers_step (knowsAsked_of_run hr) hx hst).mp hnew) hst
  · intro h
    induction h with
    | start => exact List.forall_mem_singleton.mpr hinit
    | next hi hc hst ih =>
      have hold := ih (hi.weaken fun _ _ _ => trivial)
      have hx := (List.forall_mem_cons.mp hold).1
      exact List.forall_mem_cons.mpr ⟨(answers_step (knowsAsked_of_run hi) hx hst).mpr hc, hold⟩

/-- The first request reaches every replica before it is executed. -/
theorem answers_iff_first : ∃ past x, (x.1.replica 1).executed = [(1, requestOf 1)] ∧
    ((∀ y ∈ x :: past, ∀ r, (y.1.replica r).Answers) ↔
      Run fourReplicas.system.recorded (Introduced fourReplicas) past x) := by
  obtain ⟨past, x, hr, hx⟩ := Run.exists_of_exec fourReplicas.system.recorded (fun _ _ => True) firstRequest
    (fun x => (x.1.replica 1).executed = [(1, requestOf 1)]) (by decide +kernel)
  exact ⟨past, x, of_decide_eq_true hx, answers_iff hr⟩

/-- The client's broadcast is lost on its way to replica 1. -/
def lostBroadcast : List Event := firstRequest.filter (· ≠ .client 1 5 (.request (requestOf 1)))

/-- Replica 1 executes the request, and has nobody to answer. -/
theorem nobody_to_answer : ∃ past s, Run fourReplicas.system (OneOutstanding fourReplicas) past s ∧
    (s.replica 1).executed = [(1, requestOf 1)] ∧ ¬ (s.replica 1).Answers ∧ s.stopped 1 = true := by
  obtain ⟨past, s, hr, hs⟩ := Run.exists_of_exec fourReplicas.system (OneOutstanding fourReplicas) lostBroadcast
    (fun s => (s.replica 1).executed = [(1, requestOf 1)] ∧ (s.replica 1).clientTable 5 = none ∧
      s.stopped 1 = true) (by decide +kernel)
  obtain ⟨hexec, hno, hstop⟩ := of_decide_eq_true hs
  exact ⟨past, s, hr, hexec, fun h => h (1, requestOf 1) (by simp [hexec]) hno, hstop⟩

end Dsnet.PBFT
