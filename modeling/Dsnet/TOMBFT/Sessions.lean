import Dsnet.TOMBFT.Stream

/-! Sessions of a TOMBFT replica. Each log entry has the number that the offset of the replica gives to its
    position, so two replicas agree on a position just when they have had the same offset. What the
    replica buffers during an epoch change it executes in the session it enters then: its numbering is
    that of one session as long as nothing else was buffered. -/

namespace Dsnet.TOMBFT
open Handler

variable {E : Env} {full : Nat → Nat} {U : Prop} {b : Nat} {s s' : Replica} {p : Packet}

/-! ### The invariant -/

/-- The packet was stamped with a session, the one that the replica takes its session number for. -/
def Stamped (full : Nat → Nat) (p : Packet) : Prop :=
  p.sessionNumber ≠ 0 ∧ p.session = full p.sessionNumber

/-- What holds of the log and the buffer at any time. Where `U` holds, every entry was stamped with the session
    it was executed in. The packets numbered 0, which were not multicast, are never executed. -/
structure Core (full : Nat → Nat) (U : Prop) (s : Replica) : Prop where
  length : s.log.length = s.lastExecuted
  numbered : ∀ (i : Nat) e, s.log[i]? = some e → (e.packet.number : Int) = e.offset + ((i : Int) + 1)
  nonneg : 0 ≤ s.lastNumber
  keys : ∀ x ∈ s.tomBuffer.toList, x.2.number = x.1
  logged : U → ∀ e ∈ s.log, e.packet.sessionNumber = e.session ∧ e.packet.session = full e.session
  stamps : U → ∀ x ∈ s.tomBuffer.toList, x.1 ≠ 0 → Stamped full x.2

/-- In a session, with what belongs to it in the buffer. -/
structure Within (full : Nat → Nat) (U : Prop) (b : Nat) (s : Replica) : Prop extends Core full U s where
  status : s.status = .normal
  session : s.sessionNumber = b
  within : U → ∀ x ∈ s.tomBuffer.toList, x.1 ≠ 0 → x.2.sessionNumber = b

/-- When it is in a session, the replica has only buffered what belongs to the session. -/
structure Inv (full : Nat → Nat) (U : Prop) (s : Replica) : Prop extends Core full U s where
  here : U → s.status = .normal → ∀ x ∈ s.tomBuffer.toList, x.1 ≠ 0 → x.2.sessionNumber = s.sessionNumber

theorem Within.inv (h : Within full U b s) : Inv full U s where
  toCore := h.toCore
  here hu _ x hx hne := (h.within hu x hx hne).trans h.session.symm

theorem Inv.inSession (h : Inv full U s) (hs : s.status = .normal) : Within full U s.sessionNumber s where
  toCore := h.toCore
  status := hs
  session := rfl
  within hu := h.here hu hs

/-- The packets of `buffer` are in the buffer. -/
def Sub (buffer : StdMap Nat Packet) (s : Replica) : Prop :=
  ∀ x ∈ buffer.toList, x ∈ s.tomBuffer.toList

/-- The next packet is executed, in its session. -/
theorem Core.executed (h : Core full U s) (hp : (p.number : Int) = s.lastNumber + 1)
    (hU : U → p.sessionNumber = s.sessionNumber ∧ Stamped full p)
    (hx : Executed s p s') {buffer : StdMap Nat Packet} (hb : Sub buffer s) :
    Core full U { s' with tomBuffer := buffer } := by
  obtain ⟨ct, us, rfl⟩ := hx
  have hnonneg := h.nonneg
  refine ⟨?_, fun i e he => ?_, ?_, fun x hx => h.keys x (hb x hx), fun hu e he => ?_,
    fun hu x hx => h.stamps hu x (hb x hx)⟩
  · simp [Replica.append, h.length]
  · simp only [Replica.append] at he
    rcases of_getElem?_concat he with he | ⟨rfl, rfl⟩
    · exact h.numbered i e he
    · rw [hp, Replica.lastNumber, h.length]
      exact Int.add_assoc s.offset _ 1
  · simp only [Replica.lastNumber, Replica.append] at hnonneg ⊢
    omega
  · rcases List.mem_append.mp he with he | he
    · exact h.logged hu e he
    · rw [List.mem_singleton.mp he]
      obtain ⟨hsess, hfull⟩ := hU hu
      exact ⟨hsess, hfull.2.trans (congrArg full hsess)⟩

/-- A packet is buffered. -/
theorem Core.buffer (h : Core full U s) (hU : U → p.number ≠ 0 → Stamped full p) :
    Core full U (s.buffer p) := by
  refine ⟨h.length, h.numbered, h.nonneg, fun x hx => ?_, h.logged, fun hu x hx => ?_⟩
  · rcases StdMap.mem_emplace hx with rfl | hx
    · rfl
    · exact h.keys x hx
  · rcases StdMap.mem_emplace hx with rfl | hx
    · exact hU hu
    · exact h.stamps hu x hx

/-- A packet of the session is buffered. -/
theorem Within.buffer (h : Within full U b s) (hU : U → p.number ≠ 0 → Stamped full p)
    (hp : p.sessionNumber = b) : Within full U b (s.buffer p) := by
  refine ⟨h.toCore.buffer hU, h.status, h.session, fun hu x hx hne => ?_⟩
  rcases StdMap.mem_emplace hx with rfl | hx
  · exact hp
  · exact h.within hu x hx hne

/-- The next packet of the session is executed. -/
theorem Within.executed (h : Within full U b s) (hp : (p.number : Int) = s.lastNumber + 1)
    (hU : U → p.sessionNumber = b ∧ Stamped full p) (hx : Executed s p s')
    {buffer : StdMap Nat Packet} (hb : Sub buffer s) : Within full U b { s' with tomBuffer := buffer } := by
  refine ⟨h.toCore.executed hp (fun hu => ?_) hx hb, ?_, ?_, fun hu x hx => h.within hu x (hb x hx)⟩
  · rw [h.session]
    exact hU hu
  · obtain ⟨ct, us, rfl⟩ := hx
    exact h.status
  · obtain ⟨ct, us, rfl⟩ := hx
    exact h.session

/-- `TryExecute`. -/
theorem Within.tryExecute (h : Within full U b s) :
    Sat (tryExecute E) s (fun _ s' _ => Within full U b s') fun _ _ => False := by
  refine (tryExecute_spec (Within full U b) (fun {s x rest s'} hs hq hnext hx => ?_) h).mono
    (fun _ _ _ h => h.1) fun _ _ h => h
  have hmem : x ∈ s.tomBuffer.toList := by simp [hq]
  have hne : x.1 ≠ 0 := by
    have := hs.nonneg
    omega
  have hsub : Sub (s'.tomBuffer.erase x.1) s := by
    obtain ⟨ct, us, rfl⟩ := hx
    exact fun y hy => (List.mem_filter.mp hy).1
  refine hs.executed ?_ (fun hu => ⟨hs.within hu x hmem hne, hs.stamps hu x hmem hne⟩) hx hsub
  rw [hs.keys x hmem, hnext]

/-! ### Epoch changes -/

/-- The epoch change goes on, or the replica has entered a session. -/
def Reaches (full : Nat → Nat) (U : Prop) (b : Nat) (s : Replica) : Prop :=
  Core full U s ∧ s.status = .epochChange ∨ Within full U b s

theorem Reaches.inv (h : Reaches full U b s) : Inv full U s := by
  rcases h with ⟨h, hs⟩ | h
  · exact ⟨h, fun _ hn => by simp [hs] at hn⟩
  · exact h.inv

/-- Does this make a quorum of epoch starts? -/
def completes (E : Env) (s : Replica) (m : EpochStart) : Prop :=
  E.quorum ≤ (s.epochStartSet.emplace m.replicaIndex m).size

instance (E : Env) (s : Replica) (m : EpochStart) : Decidable (completes E s m) :=
  inferInstanceAs (Decidable (E.quorum ≤ _))

/-- What is buffered belongs to session `b`. -/
def Only (b : Nat) (s : Replica) : Prop :=
  ∀ x ∈ s.tomBuffer.toList, x.1 ≠ 0 → x.2.sessionNumber = b

instance (b : Nat) (s : Replica) : Decidable (Only b s) :=
  inferInstanceAs (Decidable (∀ x ∈ s.tomBuffer.toList, x.1 ≠ 0 → x.2.sessionNumber = b))

theorem insertEpochStart_spec (h : Core full U s) (hs : s.status = .epochChange) (m : EpochStart)
    (hU : U → completes E s m → Only m.sessionNumber s) :
    Sat (insertEpochStart E m) s (fun _ s' _ => Reaches full U m.sessionNumber s') fun _ _ => False := by
  simp only [insertEpochStart, sat_bind, sat_modify, sat_get, sat_ite, sat_pure]
  refine ⟨fun _ => Or.inl ⟨⟨h.length, h.numbered, h.nonneg, h.keys, h.logged, h.stamps⟩, hs⟩,
    fun hq => ?_⟩
  refine Sat.mono (Within.tryExecute (?_ : Within full U m.sessionNumber _)) (fun _ _ _ h => Or.inr h)
    fun _ _ h => h
  refine ⟨⟨h.length, h.numbered, ?_, h.keys, h.logged, h.stamps⟩, rfl, rfl, fun hu =>
    hU hu (not_lt.mp hq)⟩
  simp only [Replica.lastNumber]
  omega

theorem sendEpochStart_spec (h : Core full U s) (hs : s.status = .epochChange) (sessionNumber : Nat)
    (hU : U → completes E s (s.epochStart E sessionNumber) → Only (sessionNumber % 2 ^ 32) s) :
    Sat (sendEpochStart E sessionNumber) s (fun _ s' _ => Reaches full U (sessionNumber % 2 ^ 32) s')
      fun _ _ => False := by
  simp only [sendEpochStart, sat_bind, sat_get, sat_emit]
  exact insertEpochStart_spec h hs _ hU

theorem insertViewChange_spec (h : Core full U s) (hs : s.status = .epochChange) (m : ViewChange)
    (hU : U → E.quorum ≤ (s.viewChangeSet.emplace m.replicaIndex m).size →
      completes E s (s.epochStart E m.nextViewNumber) → Only (m.nextViewNumber % 2 ^ 32) s) :
    Sat (insertViewChange E m) s (fun _ s' _ => Reaches full U (m.nextViewNumber % 2 ^ 32) s')
      fun _ _ => False := by
  have h₁ : Core full U { s with viewChangeSet := s.viewChangeSet.emplace m.replicaIndex m } :=
    ⟨h.length, h.numbered, h.nonneg, h.keys, h.logged, h.stamps⟩
  simp only [insertViewChange, sat_bind, sat_modify, sat_get, sat_ite, sat_pure, sat_emit]
  exact ⟨fun _ => Or.inl ⟨h₁, hs⟩, fun hq => sendEpochStart_spec h₁ hs _ fun hu => hU hu (not_lt.mp hq)⟩

/-- `StartEpochChange`, of which the packet that has started it is kept. -/
theorem startEpochChange_spec (h : Core full U s) (hU : U → p.number ≠ 0 → Stamped full p) :
    Sat (do
        startEpochChange E p.sessionNumber
        modify fun s => s.buffer p) s (fun _ s' _ => Inv full U s') fun _ _ => False := by
  have h₁ : Core full U { s with
      status := .epochChange
      tomBuffer := StdMap.empty } :=
    ⟨h.length, h.numbered, h.nonneg, (fun _ hx => by cases hx), h.logged, fun _ _ hx => by cases hx⟩
  have hp : p.sessionNumber % 2 ^ 32 = p.sessionNumber := by
    simp only [Packet.sessionNumber]
    omega
  have hbuffer : ∀ {s' : Replica}, Reaches full U p.sessionNumber s' → Inv full U (s'.buffer p) := by
    rintro s' (⟨h', hs'⟩ | h')
    · exact Reaches.inv (b := 0) (Or.inl ⟨h'.buffer hU, hs'⟩)
    · exact (h'.buffer hU rfl).inv
  simp only [startEpochChange, sat_bind, sat_modify, sat_get, sat_emit, sat_when]
  refine ⟨fun _ => ?_, fun _ => hbuffer (Or.inl ⟨h₁, rfl⟩)⟩
  refine (insertViewChange_spec h₁ rfl _ fun _ _ _ x hx => by cases hx).mono (fun _ s' _ hs' => ?_)
    fun _ _ h => h
  refine hbuffer ?_
  rwa [hp] at hs'

/-! ### Handlers -/

/-- The session that a message lets the replica enter. -/
def entersSession (E : Env) (s : Replica) : Message → Option Nat
  | .epochStart m => if s.status = .epochChange ∧ completes E s m then some m.sessionNumber else none
  | .viewStart m =>
    if s.status = .epochChange ∧ completes E s (s.epochStart E m.viewNumber)
    then some (m.viewNumber % 2 ^ 32) else none
  | .viewChange m =>
    if s.status = .epochChange ∧ E.quorum ≤ (s.viewChangeSet.emplace m.replicaIndex m).size ∧
      completes E s (s.epochStart E m.nextViewNumber)
    then some (m.nextViewNumber % 2 ^ 32) else none
  | _ => none

/-- A request is `Stamped`, and a replica enters a session with nothing of another one in its buffer. -/
def Apart (E : Env) (full : Nat → Nat) (s : Replica) (e : Addr × Message) : Prop :=
  (∀ p, e.2 = .request p → p.number ≠ 0 → Stamped full p) ∧ ∀ b ∈ entersSession E s e.2, Only b s

/-- The first packet says what session the replica is in; nothing has been buffered by then. -/
theorem Inv.join (h : Inv full U s) (hs : s.status = .normal) (p : Packet) : Inv full U (s.join p) := by
  rw [Replica.join]
  split_ifs with h0
  · refine ⟨⟨h.length, h.numbered, ?_, h.keys, h.logged, h.stamps⟩, fun hu _ x hx hne => ?_⟩
    · simp only [Replica.lastNumber]
      omega
    · have hzero := h.here hu hs x hx hne
      exact ((h.stamps hu x hx hne).1 (hzero.trans h0)).elim
  · exact h

theorem Within.handleInSession (h : Within full U b s) (hU : U → p.number ≠ 0 → Stamped full p)
    (hp : p.sessionNumber = b) (remote : Addr) :
    Sat (handleInSession E remote p) s (fun _ s' _ => Within full U b s') fun _ _ => False := by
  have hrest : ∀ addresses : Nat → Option Addr, Sat (do
        if (p.number : Int) ≠ s.lastNumber + 1 then modify fun s => s.buffer p
        else executeOne E p
        TOMBFT.tryExecute E) { s with addressTable := addresses }
      (fun _ s' _ => Within full U b s') fun _ _ => False := by
    intro addresses
    have h₁ : Within full U b { s with addressTable := addresses } :=
      ⟨⟨h.length, h.numbered, h.nonneg, h.keys, h.logged, h.stamps⟩, h.status, h.session, h.within⟩
    simp only [sat_bind, sat_ite, sat_modify]
    refine ⟨fun _ => (h₁.buffer hU hp).tryExecute, fun hnext => ?_⟩
    have hnext : (p.number : Int) = s.lastNumber + 1 := not_not.mp hnext
    have hne : p.number ≠ 0 := by
      have := h.nonneg
      omega
    refine (executeOne_spec p _).mono (fun _ s₂ _ h₂ => ?_) fun _ _ h => h
    have hbuf : s₂.tomBuffer = s.tomBuffer := by
      obtain ⟨ct, us, rfl⟩ := h₂
      rfl
    exact (h₁.executed hnext (fun hu => ⟨hp, hU hu hne⟩) h₂ fun x hx => by rwa [hbuf] at hx).tryExecute
  simp only [TOMBFT.handleInSession]
  rw [sat_bind, sat_get, sat_ite]
  refine ⟨fun _ => h, fun _ => ?_⟩
  rw [sat_bind, sat_when]
  exact ⟨fun _ => hrest _, fun _ => hrest _⟩

theorem handleRequest_keeps (h : Inv full U s) (hU : U → p.number ≠ 0 → Stamped full p) (remote : Addr) :
    Sat (handleRequest E remote p) s (fun _ s' _ => Inv full U s') fun _ _ => False := by
  simp only [handleRequest]
  rw [sat_bind, sat_get, sat_ite]
  refine ⟨fun hs => ⟨h.toCore.buffer hU, fun _ hn => (hs hn).elim⟩, fun hs => ?_⟩
  have hs : s.status = .normal := not_not.mp hs
  have hj := h.join hs p
  have hjs : (s.join p).status = .normal := by
    rw [Replica.join]
    split_ifs <;> exact hs
  rw [sat_bind, sat_modify, sat_bind, sat_get, sat_ite]
  refine ⟨fun _ => startEpochChange_spec hj.toCore hU, fun hp => ?_⟩
  exact ((hj.inSession hjs).handleInSession hU (not_not.mp hp).symm remote).mono (fun _ _ _ h => h.inv)
    fun _ _ h => h

theorem receiveMessage_keeps (h : Inv full U s) {e : Addr × Message} (hU : U → Apart E full s e) :
    Sat (receiveMessage E e.1 e.2) s (fun _ s' _ => Inv full U s') fun _ _ => False := by
  obtain ⟨remote, m⟩ := e
  cases m with
  | request p =>
    have h₁ : Inv full U { s with queryBuffer := s.queryBuffer.insert p.number p } :=
      ⟨⟨h.length, h.numbered, h.nonneg, h.keys, h.logged, h.stamps⟩, h.here⟩
    rw [receiveMessage, sat_bind, sat_modify]
    exact handleRequest_keeps h₁ (fun hu => (hU hu).1 p rfl) remote
  | viewChange m =>
    simp only [receiveMessage, handleViewChange, sat_bind, sat_get, sat_when]
    refine ⟨fun hs => ?_, fun _ => h⟩
    refine (insertViewChange_spec h.toCore hs m fun hu hq hc => ?_).mono (fun _ _ _ h => h.inv)
      fun _ _ h => h
    exact (hU hu).2 _ (if_pos ⟨hs, hq, hc⟩)
  | viewStart m =>
    simp only [receiveMessage, handleViewStart, sat_bind, sat_get, sat_when]
    refine ⟨fun hs => ?_, fun _ => h⟩
    refine (sendEpochStart_spec h.toCore hs m.viewNumber fun hu hc => ?_).mono (fun _ _ _ h => h.inv)
      fun _ _ h => h
    exact (hU hu).2 _ (if_pos ⟨hs, hc⟩)
  | epochStart m =>
    simp only [receiveMessage, handleEpochStart, sat_bind, sat_get, sat_when]
    refine ⟨fun hs => ?_, fun _ => h⟩
    refine (insertEpochStart_spec h.toCore hs m fun hu hc => ?_).mono (fun _ _ _ h => h.inv)
      fun _ _ h => h
    exact (hU hu).2 _ (if_pos ⟨hs, hc⟩)
  | query m =>
    simp only [receiveMessage, handleQueryMessage, sat_bind, sat_get, sat_whenSome, sat_emit]
    exact ⟨fun _ _ => h, fun _ => h⟩

/-! ### Runs -/

theorem inv_initial : Inv full U Replica.initial where
  length := rfl
  numbered _ _ he := by cases he
  nonneg := le_rfl
  keys _ hx := by cases hx
  logged _ _ he := by cases he
  stamps _ _ hx := by cases hx
  here _ _ _ hx := by cases hx

/-- In every run, the steps of which are `Apart` where `U` holds. -/
theorem inv_of_run {C : Replica → Addr × Message → Prop} (hC : ∀ s e, C s e → U → Apart E full s e)
    {past : List Replica} (hr : Run (system E) C past s) : Inv full U s := by
  refine hr.invariant (I := fun _ s => Inv full U s) inv_initial fun _ s e s' _ hs hc hst => ?_
  cases hst
  exact state_of_sat (m := receiveMessage E e.1 e.2)
    ((receiveMessage_keeps hs (hC s e hc)).mono (fun _ _ _ h => h) fun _ _ h => h.elim)

/-- In every run in which no session is entered with packets of another one in the buffer: what is executed in
    a session was stamped with its number. -/
theorem isolated_of_run {past : List Replica} (hr : Run (system E) (Apart E full) past s) :
    ∀ e ∈ s.log, e.packet.sessionNumber = e.session ∧ e.packet.session = full e.session :=
  (inv_of_run (U := True) (fun _ _ h _ => h) hr).logged trivial

instance (full : Nat → Nat) (p : Packet) : Decidable (Stamped full p) :=
  inferInstanceAs (Decidable (_ ∧ _))

instance (E : Env) (full : Nat → Nat) : ∀ s e, Decidable (Apart E full s e)
  | s, (a, .request p) =>
    decidable_of_iff ((p.number ≠ 0 → Stamped full p) ∧
      ∀ b ∈ entersSession E s (.request p), Only b s) (by simp [Apart])
  | s, (a, .viewChange m) =>
    decidable_of_iff (∀ b ∈ entersSession E s (.viewChange m), Only b s) (by simp [Apart])
  | s, (a, .viewStart m) =>
    decidable_of_iff (∀ b ∈ entersSession E s (.viewStart m), Only b s) (by simp [Apart])
  | s, (a, .epochStart m) =>
    decidable_of_iff (∀ b ∈ entersSession E s (.epochStart m), Only b s) (by simp [Apart])
  | s, (a, .query m) =>
    decidable_of_iff (∀ b ∈ entersSession E s (.query m), Only b s) (by simp [Apart])

/-- The packet of one client with a number in a session. -/
def packetOf (number : Nat) (session : Nat)
    (h : number < 2 ^ 32 ∧ session < 2 ^ 16 ∧ (number = 0 ↔ session = 0) := by decide) : Addr × Message :=
  (.client 1, .request
    { number, session, request := requestOf number, number_lt := h.1, session_lt := h.2.1, sequenced := h.2.2 })

/-- The messages of an epoch change to session 2. -/
def toSession2 : List (Addr × Message) :=
  [(.replica 0, .viewStart { viewNumber := 2, highMessageNumber := 1 }),
    (.replica 0, .epochStart { sessionNumber := 2, highMessageNumber := 1, replicaIndex := 0 }),
    (.replica 2, .epochStart { sessionNumber := 2, highMessageNumber := 1, replicaIndex := 2 })]

/-- The sequencer changes from session 1 to session 2. -/
def changed : List (Addr × Message) :=
  [packetOf 1 1, packetOf 1 2] ++ toSession2 ++ [packetOf 2 2]

theorem isolated_of_run_changed :
    ∃ s : Replica, s.log.map (fun e => (e.packet.session, e.packet.number)) = [(1, 1), (2, 1), (2, 2)] ∧
      ∀ e ∈ s.log, e.packet.sessionNumber = e.session ∧ e.packet.session = e.session := by
  obtain ⟨past, s, hr, hs⟩ := Run.exists_of_exec (system fourReplicas) (Apart fourReplicas fun b => b)
    changed (fun s => s.log.map (fun e => (e.packet.session, e.packet.number)) = [(1, 1), (2, 1), (2, 2)])
    (by decide +kernel)
  exact ⟨s, of_decide_eq_true hs, isolated_of_run hr⟩

/-- The second packet of session 1 is late. -/
def delayed : List (Addr × Message) :=
  [packetOf 1 1, packetOf 1 2, packetOf 2 1] ++ toSession2

/-- It is executed as the second packet of session 2. -/
theorem delayed_not_isolated :
    ∃ past s, Run (system fourReplicas) (fun _ _ => True) past s ∧
      ∃ e ∈ s.log, e.packet.session = 1 ∧ e.session = 2 := by
  obtain ⟨past, s, hr, hs⟩ := Run.exists_of_exec (system fourReplicas) (fun _ _ => True) delayed
    (fun s => ∃ e ∈ s.log, e.packet.session = 1 ∧ e.session = 2) (by decide +kernel)
  exact ⟨past, s, hr, of_decide_eq_true hs⟩

/-- Another one of the four replicas. -/
def otherReplica : Env := { fourReplicas with replicaIdx := 2 }

end Dsnet.TOMBFT
