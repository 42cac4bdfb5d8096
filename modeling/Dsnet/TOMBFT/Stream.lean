import Dsnet.TOMBFT.Effects

/-! Within one session a TOMBFT replica executes the stream of the sequencer from the first packet on:
    the log is a piece of the stream without gaps, and what is in the buffer comes later than what is
    missing. A session whose number is a multiple of 256 looks to the replica like none, so each packet
    is taken for the first. -/

namespace Dsnet.TOMBFT
open Handler

variable {E : Env} {msg : Nat → Request} {sess : Nat} {s s' : Replica} {p : Packet}

/-- The requests that arrive are those of one session, in which the request of each number is `msg`. -/
def InSession (msg : Nat → Request) (sess : Nat) (_ : Replica) (e : Addr × Message) : Prop :=
  ∀ p, e.2 = .request p → p.session = sess ∧ p.number ≠ 0 ∧ p.request = msg p.number

/-- The log is the messages after `offset`, in order, each once, and the buffer has none that could come
    next. -/
structure Delivered (msg : Nat → Request) (s : Replica) : Prop where
  numbers : s.log.map (fun e => (e.packet.number : Int)) =
    (List.range s.lastExecuted).map fun i : Nat => s.offset + 1 + (i : Int)
  requests : ∀ e ∈ s.log, e.request = msg e.packet.number
  buffer : ∀ x ∈ s.tomBuffer.toList, s.offset + s.lastExecuted + 1 < x.1

/-! ### The invariant -/

/-- No packet has come yet. -/
structure Fresh (s : Replica) : Prop where
  status : s.status = .normal
  verified : s.highVerified = 2 ^ 64 - 1
  session : s.sessionNumber = 0
  lastExecuted : s.lastExecuted = 0
  log : s.log = []
  buffer : s.tomBuffer.toList = []

/-- The log has no gap, and what is buffered comes after it. -/
structure Contiguous (msg : Nat → Request) (sess : Nat) (s : Replica) : Prop where
  status : s.status = .normal
  verified : s.highVerified = 2 ^ 64 - 1
  session : s.sessionNumber = sess % 2 ^ 8
  numbers : s.log.map (fun e => (e.packet.number : Int)) =
    (List.range s.lastExecuted).map fun i : Nat => s.offset + 1 + (i : Int)
  requests : ∀ e ∈ s.log, e.request = msg e.packet.number
  later : ∀ x ∈ s.tomBuffer.toList, s.lastNumber < x.1
  buffered : ∀ x ∈ s.tomBuffer.toList, x.2.number = x.1 ∧ x.2.request = msg x.1

/-- The next message of the stream is executed. -/
theorem Contiguous.executed (h : Contiguous msg sess s) (hp : (p.number : Int) = s.lastNumber + 1)
    (hreq : p.request = msg p.number) (hx : Executed s p s') {buffer : StdMap Nat Packet}
    (hbuffer : ∀ x ∈ buffer.toList, x ∈ s.tomBuffer.toList)
    (hlater : ∀ x ∈ buffer.toList, s.lastNumber + 1 < x.1) :
    Contiguous msg sess { s' with tomBuffer := buffer } := by
  obtain ⟨ct, us, rfl⟩ := hx
  refine ⟨h.status, h.verified, h.session, ?_, fun e he => ?_, fun x hx => ?_, fun x hx =>
    h.buffered x (hbuffer x hx)⟩
  · simp only [Replica.append, List.map_append, List.map_cons, List.map_nil, List.range_succ, h.numbers]
    rw [hp, Replica.lastNumber]
    simp only [List.append_cancel_left_eq, List.cons.injEq, and_true]
    omega
  · rcases List.mem_append.mp he with he | he
    · exact h.requests e he
    · rw [List.mem_singleton.mp he]
      exact hreq
  · have := hlater x hx
    simp only [Replica.lastNumber, Replica.append] at this ⊢
    omega

/-- In an increasing list all that follow are greater. -/
theorem later_of_sorted {m : StdMap Nat Packet} {x : Nat × Packet} {rest : List (Nat × Packet)}
    (h : m.toList = x :: rest) : ∀ y ∈ rest, x.1 < y.1 := by
  intro y hy
  have hs := m.sorted
  rw [h, List.map_cons, List.pairwise_cons] at hs
  exact hs.1 y.1 (List.mem_map_of_mem hy)

/-- `TryExecute` ends with a gap before all that is buffered. -/
theorem Contiguous.tryExecute (h : Contiguous msg sess s) :
    Sat (tryExecute E) s (fun _ s' _ => Contiguous msg sess s' ∧ Delivered msg s') fun _ _ => False := by
  refine (tryExecute_spec (Contiguous msg sess) (fun {s x rest s'} hs hq hnext hx => ?_) h).mono
    (fun _ s' _ hs' => ⟨hs'.1, hs'.1.numbers, hs'.1.requests, fun x hx => ?_⟩) fun _ _ h => h
  · have hbuf := hs.buffered x (by simp [hq])
    have hmem : ∀ y ∈ (s.tomBuffer.erase x.1).toList, y ∈ rest := by
      intro y hy
      have hy' : y ∈ s.tomBuffer.toList.filter (·.1 ≠ x.1) := hy
      rw [hq, List.filter_cons_of_neg (by simp)] at hy'
      exact (List.mem_filter.mp hy').1
    have hx' : s'.tomBuffer = s.tomBuffer := by
      obtain ⟨ct, us, rfl⟩ := hx
      rfl
    rw [hx']
    refine hs.executed (by rw [hbuf.1, hnext]) (by rw [hbuf.2, hbuf.1]) hx
      (fun y hy => by rw [hq]; exact List.mem_cons_of_mem _ (hmem y hy)) fun y hy => ?_
    have := later_of_sorted hq y (hmem y hy)
    omega
  · have hlater := hs'.1.later x hx
    have hne : (x.1 : Int) ≠ s'.lastNumber + 1 := by
      intro heq
      cases hq : s'.tomBuffer.toList with
      | nil =>
        rw [hq] at hx
        cases hx
      | cons y rest =>
        have hy := hs'.1.later y (by simp [hq])
        have hyx : y.1 ≤ x.1 := by
          rw [hq] at hx
          rcases List.mem_cons.mp hx with rfl | hx
          · exact le_rfl
          · exact (later_of_sorted hq x hx).le
        rcases hs'.2 y (by simp [hq]) with hv | hne
        · have hlt := y.2.number_lt
          rw [(hs'.1.buffered y (by simp [hq])).1] at hlt
          rw [hs'.1.verified] at hv
          omega
        · omega
    simp only [Replica.lastNumber] at hlater hne
    omega

/-! ### Requests -/

/-- With a gap before all that is buffered. -/
theorem Contiguous.delivered (h : Contiguous msg sess s)
    (hgap : ∀ x ∈ s.tomBuffer.toList, s.lastNumber + 1 < x.1) : Delivered msg s :=
  ⟨h.numbers, h.requests, hgap⟩

/-- A packet of the session. -/
theorem Contiguous.handleInSession (h : Contiguous msg sess s)
    (hgap : ∀ x ∈ s.tomBuffer.toList, s.lastNumber + 1 < x.1) (hreq : p.request = msg p.number)
    (remote : Addr) :
    Sat (handleInSession E remote p) s (fun _ s' _ => Contiguous msg sess s' ∧ Delivered msg s')
      fun _ _ => False := by
  have hrest : ∀ addresses : Nat → Option Addr, ¬ (p.number : Int) ≤ s.lastNumber → Sat (do
        if (p.number : Int) ≠ s.lastNumber + 1 then modify fun s => s.buffer p
        else executeOne E p
        TOMBFT.tryExecute E) { s with addressTable := addresses }
      (fun _ s' _ => Contiguous msg sess s' ∧ Delivered msg s') fun _ _ => False := by
    intro addresses hlt
    have h₁ : Contiguous msg sess { s with addressTable := addresses } :=
      ⟨h.status, h.verified, h.session, h.numbers, h.requests, h.later, h.buffered⟩
    simp only [sat_bind, sat_ite, sat_modify]
    refine ⟨fun _ => ?_, fun hnext => ?_⟩
    · refine Contiguous.tryExecute ⟨h₁.status, h₁.verified, h₁.session, h₁.numbers, h₁.requests,
        fun x hx => ?_, fun x hx => ?_⟩
      · rcases StdMap.mem_emplace hx with rfl | hx
        · exact not_le.mp hlt
        · exact h₁.later x hx
      · rcases StdMap.mem_emplace hx with rfl | hx
        · exact ⟨rfl, hreq⟩
        · exact h₁.buffered x hx
    · have hnext : (p.number : Int) = s.lastNumber + 1 := not_not.mp hnext
      refine (executeOne_spec p _).mono (fun _ s₂ _ h₂ => ?_) fun _ _ h => h
      have hbuf₂ : s₂.tomBuffer = s.tomBuffer := by
        obtain ⟨ct, us, rfl⟩ := h₂
        rfl
      refine Contiguous.tryExecute (h₁.executed hnext hreq h₂ (fun x hx => ?_) fun x hx => ?_)
      · rw [hbuf₂] at hx
        exact hx
      · rw [hbuf₂] at hx
        exact hgap x hx
  simp only [TOMBFT.handleInSession]
  rw [sat_bind, sat_get, sat_ite]
  refine ⟨fun _ => ⟨h, h.delivered hgap⟩, fun hlt => ?_⟩
  rw [sat_bind, sat_when]
  exact ⟨fun _ => hrest _ hlt, fun _ => hrest _ hlt⟩

/-- The first packet of the session. -/
theorem Fresh.join (h : Fresh s) (hs : p.session = sess) :
    Contiguous msg sess (s.join p) ∧ (s.join p).tomBuffer.toList = [] := by
  rw [Replica.join, if_pos h.session]
  have hnone : ∀ x ∈ s.tomBuffer.toList, False := by simp [h.buffer]
  refine ⟨⟨h.status, h.verified, by rw [Packet.sessionNumber, hs], ?_, ?_, fun x hx => (hnone x hx).elim,
    fun x hx => (hnone x hx).elim⟩, h.buffer⟩
  · show s.log.map _ = (List.range s.lastExecuted).map _
    rw [h.log, h.lastExecuted]
    rfl
  · simp [h.log]

/-- A request when no packet has come, or in the session. -/
theorem handleRequest_spec (hsess : sess % 2 ^ 8 ≠ 0) (h : Fresh s ∨ Contiguous msg sess s ∧ Delivered msg s)
    (hs : p.session = sess) (hreq : p.request = msg p.number) (remote : Addr) :
    Sat (handleRequest E remote p) s (fun _ s' _ => Contiguous msg sess s' ∧ Delivered msg s')
      fun _ _ => False := by
  have hnormal : s.status = .normal := h.elim (fun h => h.status) fun h => h.1.status
  have hjoin : Contiguous msg sess (s.join p) ∧
      ∀ x ∈ (s.join p).tomBuffer.toList, (s.join p).lastNumber + 1 < x.1 := by
    rcases h with h | ⟨h, hd⟩
    · obtain ⟨hc, hnil⟩ := Fresh.join h hs
      exact ⟨hc, by simp [hnil]⟩
    · have hsame : s.join p = s := by rw [Replica.join, if_neg (by rw [h.session]; exact hsess)]
      rw [hsame]
      exact ⟨h, hd.buffer⟩
  have hin : (s.join p).sessionNumber = p.sessionNumber := by
    rw [hjoin.1.session, Packet.sessionNumber, hs]
  simp only [handleRequest]
  rw [sat_bind, sat_get, sat_ite]
  refine ⟨fun hno => (hno hnormal).elim, fun _ => ?_⟩
  rw [sat_bind, sat_modify, sat_bind, sat_get, sat_ite]
  exact ⟨fun hne => (hne hin).elim, fun _ => hjoin.1.handleInSession hjoin.2 hreq remote⟩

/-- While the status is normal, the other messages leave the replica as it is. -/
theorem receiveMessage_quiet (h : s.status = .normal) (remote : Addr) {m : Message}
    (hm : ∀ p, m ≠ .request p) :
    Sat (receiveMessage E remote m) s (fun _ s' _ => s' = s) fun _ _ => False := by
  have hno : ¬ s.status = .epochChange := by simp [h]
  cases m with
  | request p => exact (hm p rfl).elim
  | viewChange m => simp [receiveMessage, handleViewChange, hno]
  | viewStart m => simp [receiveMessage, handleViewStart, hno]
  | epochStart m => simp [receiveMessage, handleEpochStart, hno]
  | query m =>
    simp only [receiveMessage, handleQueryMessage, sat_bind, sat_get, sat_whenSome, sat_emit]
    exact ⟨fun _ _ => trivial, fun _ => trivial⟩

/-! ### Runs -/

theorem fresh_initial : Fresh Replica.initial := ⟨rfl, rfl, rfl, rfl, rfl, rfl⟩

/-- In every run within one session. -/
theorem contiguous_of_run (hsess : sess % 2 ^ 8 ≠ 0) {past : List Replica}
    (hr : Run (system E) (InSession msg sess) past s) :
    Fresh s ∨ Contiguous msg sess s ∧ Delivered msg s := by
  refine hr.invariant (I := fun _ s => Fresh s ∨ Contiguous msg sess s ∧ Delivered msg s)
    (Or.inl fresh_initial) fun _ s e s' _ hs hc hst => ?_
  obtain ⟨remote, m⟩ := e
  cases hst
  refine state_of_sat (m := receiveMessage E remote m)
    (I := fun s => Fresh s ∨ Contiguous msg sess s ∧ Delivered msg s) ?_
  by_cases hm : ∃ p, m = .request p
  · obtain ⟨p, rfl⟩ := hm
    obtain ⟨hses, -, hreq⟩ := hc p rfl
    have hs₁ : ∀ queries : StdMap Nat Packet, Fresh { s with queryBuffer := queries } ∨
        Contiguous msg sess { s with queryBuffer := queries } ∧
          Delivered msg { s with queryBuffer := queries } := by
      intro queries
      rcases hs with h | ⟨h, hd⟩
      · exact Or.inl ⟨h.status, h.verified, h.session, h.lastExecuted, h.log, h.buffer⟩
      · exact Or.inr ⟨⟨h.status, h.verified, h.session, h.numbers, h.requests, h.later, h.buffered⟩,
          hd.numbers, hd.requests, hd.buffer⟩
    rw [receiveMessage, sat_bind, sat_modify]
    exact (handleRequest_spec hsess (hs₁ _) hses hreq remote).mono (fun _ _ _ h => Or.inr h)
      fun _ _ h => h.elim
  · have hnormal : s.status = .normal := hs.elim (fun h => h.status) fun h => h.1.status
    refine (receiveMessage_quiet hnormal remote fun p hp => hm ⟨p, hp⟩).mono (fun _ s' _ h => ?_)
      fun _ _ h => h.elim
    rw [h]
    exact hs

/-- In every run of packets of one session, whose number is no multiple of 256: once the first packet has been
    executed, the log is the stream after `offset`. -/
theorem delivers_in_order (hsess : sess % 2 ^ 8 ≠ 0) {past : List Replica}
    (hr : Run (system E) (InSession msg sess) past s) (hfirst : 0 < s.lastExecuted) : Delivered msg s := by
  rcases contiguous_of_run hsess hr with h | h
  · exact absurd h.lastExecuted hfirst.ne'
  · exact h.2

instance : ∀ s e, Decidable (InSession msg sess s e)
  | _, (_, .request p) =>
    decidable_of_iff (p.session = sess ∧ p.number ≠ 0 ∧ p.request = msg p.number) (by simp [InSession])
  | _, (_, .viewChange _) => isTrue (by simp [InSession])
  | _, (_, .viewStart _) => isTrue (by simp [InSession])
  | _, (_, .epochStart _) => isTrue (by simp [InSession])
  | _, (_, .query _) => isTrue (by simp [InSession])

/-- One of four replicas, which may have one fault. -/
def fourReplicas : Env := { config := { n := 4, f := 1 }, replicaIdx := 1, app := .default }

/-- The requests of one client. -/
def requestOf (number : Nat) : Request := { op := "", clientid := 1, clientreqid := number }

/-- The third packet overtakes the second. -/
def overtaken : List (Addr × Message) :=
  [(.client 1, .request { number := 7, session := 1, request := requestOf 7 }),
    (.client 1, .request { number := 9, session := 1, request := requestOf 9 }),
    (.client 1, .request { number := 8, session := 1, request := requestOf 8 })]

theorem delivers_in_order_overtaken :
    ∃ s : Replica, s.lastExecuted = 3 ∧ Delivered requestOf s := by
  obtain ⟨past, s, hr, hs⟩ := Run.exists_of_exec (system fourReplicas) (InSession requestOf 1) overtaken
    (fun s => s.lastExecuted = 3) (by decide +kernel)
  have hs : s.lastExecuted = 3 := of_decide_eq_true hs
  exact ⟨s, hs, delivers_in_order (by decide) hr (by omega)⟩

/-- Two packets of session 256. -/
def aliased : List (Addr × Message) :=
  [(.client 1, .request { number := 1, session := 256, request := requestOf 1 }),
    (.client 1, .request { number := 2, session := 256, request := requestOf 2 })]

/-- In session 256 the second packet moves `offset`, and is not executed. -/
theorem session_256_not_delivered :
    ∃ past s, Run (system fourReplicas) (InSession requestOf 256) past s ∧ 0 < s.lastExecuted ∧
      ¬ Delivered requestOf s := by
  obtain ⟨past, s, hr, hs⟩ := Run.exists_of_exec (system fourReplicas) (InSession requestOf 256) aliased
    (fun s => s.lastExecuted = 1 ∧ s.log.map (fun e => (e.packet.number : Int)) = [1] ∧ s.offset = 1)
    (by decide +kernel)
  obtain ⟨hlast, hlog, hoffset⟩ := of_decide_eq_true hs
  refine ⟨past, s, hr, by omega, fun h => ?_⟩
  have hnumbers := h.numbers
  rw [hlog, hlast, hoffset] at hnumbers
  revert hnumbers
  decide

end Dsnet.TOMBFT
