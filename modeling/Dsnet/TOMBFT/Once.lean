import Dsnet.Lib.LastNumber
import Dsnet.TOMBFT.Sessions

/-! Whether a TOMBFT replica executes a request once. The reply that it keeps for a client has the number of the
    client's last request in 32 bits, and requests have 64. -/

namespace Dsnet.TOMBFT
open Handler LastNumber

variable {E : Env} {c : Nat} {s s' : Replica} {p : Packet}

/-- The numbers of the requests of client `c` that have been executed, in their order. -/
def Replica.numbersOf (s : Replica) (c : Nat) : List Nat :=
  ((executions s.upcalls).filter (·.2.clientid = c)).map (·.2.clientreqid)

/-- The number that is kept for client `c`. -/
def Replica.keptOf (s : Replica) (c : Nat) : Option Nat := (s.clientTable c).map (·.clientRequest)

/-- Requests are executed at most once: none has been executed twice, none that has been executed is executed again,
    and one that is newer than all of them is. -/
structure OnceOnly (E : Env) (c : Nat) (s : Replica) : Prop where
  once : (s.numbersOf c).Nodup
  old : ∀ p : Packet, p.request.clientid = c → p.request.clientreqid ∈ s.numbersOf c →
    (executeOne E p s).2.1.upcalls = s.upcalls
  new : ∀ p : Packet, p.request.clientid = c → (∀ n ∈ s.numbersOf c, n < p.request.clientreqid) →
    (executeOne E p s).2.1.upcalls = s.upcalls ++ [.execute (s.lastExecuted + 1) p.request]

/-! ### What `ExecuteOne` does -/

/-- The table with the reply to a request. -/
def Replica.kept (s : Replica) (req : Request) : Nat → Option Nat :=
  Function.update s.keptOf req.clientid (some (req.clientreqid % 2 ^ 32))

/-- The upcalls and the table when the request of the packet has been executed, or not. -/
def Settled (s : Replica) (req : Request) (s' : Replica) : Prop :=
  (s'.upcalls, s'.keptOf) =
    if Accepts (s.keptOf req.clientid) req.clientreqid then (s.upcalls ++ [.execute (s.lastExecuted + 1) req], s.kept req)
    else (s.upcalls, s.keptOf)

/-- The request is executed and answered. -/
theorem execute_settled (p : Packet) (ha : Accepts (s.keptOf p.request.clientid) p.request.clientreqid) :
    Sat (do
      let reply ← execute E p.request
      sendReply p.request.clientid reply) (s.append p) (fun _ s' _ => Settled s p.request s') fun _ _ => False := by
  simp only [execute, sat_bind, sat_get, sat_modify, sat_pure]
  refine (sendReply_spec p.request.clientid _ _).mono (fun _ s' _ h => ?_) fun _ _ h => h
  rw [h, Settled, if_pos ha]
  refine Prod.ext rfl (funext fun c => ?_)
  by_cases hc : c = p.request.clientid
  · subst hc
    simp only [Replica.keptOf, Replica.kept, Function.update_self, Option.map_some]
  · simp only [Replica.keptOf, Replica.kept, Function.update_of_ne hc, Replica.append]

/-- `ExecuteOne` compares the number with the kept one. -/
theorem executeOne_settled (p : Packet) (s : Replica) :
    Sat (executeOne E p) s (fun _ s' _ => Settled s p.request s') fun _ _ => False := by
  have hkept (h : s.clientTable p.request.clientid = none) : s.keptOf p.request.clientid = none := by
    rw [Replica.keptOf, h]
    rfl
  simp only [executeOne, sat_bind, sat_modify, sat_get]
  have htable : (s.append p).clientTable = s.clientTable := rfl
  rw [htable]
  cases hct : s.clientTable p.request.clientid with
  | none =>
    refine execute_settled p fun k hk => ?_
    rw [Replica.keptOf, hct] at hk
    cases hk
  | some reply =>
    have hk : s.keptOf p.request.clientid = some reply.clientRequest := by rw [Replica.keptOf, hct]; rfl
    have hno (hle : p.request.clientreqid ≤ reply.clientRequest) : Settled s p.request (s.append p) := by
      rw [Settled, if_neg]
      · rfl
      · exact fun ha => Nat.not_lt.mpr hle (ha _ hk)
    simp only [sat_ite, sat_pure]
    refine ⟨fun hlt => hno hlt.le, fun hge => ⟨fun heq => ?_, fun hne => execute_settled p fun k hk' => ?_⟩⟩
    · refine (sendReply_spec p.request.clientid reply (s.append p)).mono (fun _ s' _ h => ?_) fun _ _ h => h
      exact h ▸ hno heq.ge
    · cases hk.symm.trans hk'
      omega

/-- The numbers after `ExecuteOne`. -/
theorem Settled.numbersOf (h : Settled s p.request s') (hc : p.request.clientid = c) :
    s'.numbersOf c = (if Accepts (s.keptOf c) p.request.clientreqid then s.numbersOf c ++ [p.request.clientreqid]
      else s.numbersOf c) ∧
    s'.keptOf c = if Accepts (s.keptOf c) p.request.clientreqid then some (p.request.clientreqid % 2 ^ 32)
      else s.keptOf c := by
  subst hc
  rw [Settled] at h
  split_ifs at h with ha
  · obtain ⟨hus, hct⟩ : _ ∧ _ := by simpa only [Prod.mk.injEq] using h
    rw [if_pos ha, if_pos ha, hct, Replica.kept, Function.update_self, Replica.numbersOf, hus]
    refine ⟨?_, rfl⟩
    simp [Replica.numbersOf, executions]
  · obtain ⟨hus, hct⟩ : _ ∧ _ := by simpa only [Prod.mk.injEq] using h
    rw [if_neg ha, if_neg ha, hct, Replica.numbersOf, hus]
    exact ⟨rfl, rfl⟩

/-- The request of another client. -/
theorem Settled.other (h : Settled s p.request s') (hc : p.request.clientid ≠ c) :
    s'.numbersOf c = s.numbersOf c ∧ s'.keptOf c = s.keptOf c := by
  rw [Settled] at h
  split_ifs at h with ha
  · obtain ⟨hus, hct⟩ : _ ∧ _ := by simpa only [Prod.mk.injEq] using h
    rw [hct, Replica.kept, Function.update_of_ne hc.symm, Replica.numbersOf, hus]
    refine ⟨?_, rfl⟩
    simp [Replica.numbersOf, executions, hc]
  · obtain ⟨hus, hct⟩ : _ ∧ _ := by simpa only [Prod.mk.injEq] using h
    rw [hct, Replica.numbersOf, hus]
    exact ⟨rfl, rfl⟩

theorem settled_executeOne (p : Packet) (s : Replica) : Settled s p.request (executeOne E p s).2.1 :=
  state_of_sat (I := fun s' => Settled s p.request s')
    ((executeOne_settled p s).mono (fun _ _ _ h => h) fun _ _ h => h.elim)

/-- In terms of the table. -/
theorem onceOnly_iff : OnceOnly E c s ↔ AtMostOnce (s.numbersOf c) (Accepts (s.keptOf c)) := by
  have hupcalls (p : Packet) (hp : p.request.clientid = c) : (executeOne E p s).2.1.upcalls =
      if Accepts (s.keptOf c) p.request.clientreqid then s.upcalls ++ [.execute (s.lastExecuted + 1) p.request]
      else s.upcalls := by
    have h : Settled s p.request (executeOne E p s).2.1 := settled_executeOne p s
    rw [Settled, hp] at h
    refine (congrArg Prod.fst h).trans ?_
    split <;> rfl
  constructor
  · intro h
    refine ⟨h.once, fun n hn ha => ?_, fun n hn => ?_⟩
    · have hold := h.old { number := 0, session := 0, request := { op := "", clientid := c, clientreqid := n } } rfl hn
      rw [hupcalls _ rfl, if_pos ha] at hold
      simp at hold
    · by_contra ha
      have hnew := h.new { number := 0, session := 0, request := { op := "", clientid := c, clientreqid := n } } rfl hn
      rw [hupcalls _ rfl, if_neg ha] at hnew
      simp at hnew
  · intro h
    refine ⟨h.once, fun p hp hn => ?_, fun p hp hn => ?_⟩
    · rw [hupcalls p hp, if_neg (h.old _ hn)]
    · rw [hupcalls p hp, if_pos (h.new _ hn)]

/-! ### Numbers that fit -/

/-- The request of the packet, if it is of client `c`, has a number of 32 bits. -/
def Packet.Short (c : Nat) (p : Packet) : Prop := p.request.clientid = c → p.request.clientreqid < 2 ^ 32

/-- All that client `c` has sent has numbers of 32 bits. -/
structure Short (c : Nat) (s : Replica) : Prop where
  last : Last (2 ^ 32) (s.numbersOf c) (s.keptOf c)
  executed : ∀ n ∈ s.numbersOf c, n < 2 ^ 32
  buffered : ∀ x ∈ s.tomBuffer.toList, x.2.Short c

/-- What `Short` depends on. -/
theorem Short.of_eq {t : Replica} (h : Short c s) (hus : t.upcalls = s.upcalls) (hct : t.clientTable = s.clientTable)
    (hbuf : ∀ x ∈ t.tomBuffer.toList, x ∈ s.tomBuffer.toList ∨ x.2.Short c) : Short c t := by
  refine ⟨?_, ?_, fun x hx => (hbuf x hx).elim (h.buffered x) id⟩
  · rw [Replica.numbersOf, Replica.keptOf, hus, hct]
    exact h.last
  · rw [Replica.numbersOf, hus]
    exact h.executed

theorem short_executeOne (hp : p.Short c) : Relates (Kept (Short c)) (executeOne E p) := by
  refine relates_kept fun s h => ?_
  refine ((executeOne_settled p s).and (executeOne_spec p s)).mono (fun _ s' _ ⟨hs, hx⟩ => ?_) fun _ _ _ => trivial
  have hbuf : s'.tomBuffer = s.tomBuffer := by
    obtain ⟨ct, us, rfl⟩ := hx
    rfl
  have hbuffered : ∀ x ∈ s'.tomBuffer.toList, x.2.Short c := hbuf ▸ h.buffered
  by_cases hc : p.request.clientid = c
  · obtain ⟨hns, hkept⟩ := hs.numbersOf hc
    split_ifs at hns hkept with ha
    · refine ⟨?_, fun n hn => ?_, hbuffered⟩
      · rw [hns, hkept]
        exact h.last.accept ha
      · rcases List.mem_append.mp (hns ▸ hn) with hn | hn
        · exact h.executed n hn
        · exact List.mem_singleton.mp hn ▸ hp hc
    · exact ⟨by rw [hns, hkept]; exact h.last, by rw [hns]; exact h.executed, hbuffered⟩
  · obtain ⟨hns, hkept⟩ := hs.other hc
    exact ⟨by rw [hns, hkept]; exact h.last, by rw [hns]; exact h.executed, hbuffered⟩

/-- A change of what `Short` does not depend on, or that empties the buffer or keeps it. -/
theorem short_modify {f : Replica → Replica}
    (hf : ∀ s, (f s).upcalls = s.upcalls ∧ (f s).clientTable = s.clientTable ∧
      ∀ x ∈ (f s).tomBuffer.toList, x ∈ s.tomBuffer.toList ∨ x.2.Short c) :
    Relates (Kept (Short c)) (modify f : RHandler Unit) :=
  relates_modify fun s h => h.of_eq (hf s).1 (hf s).2.1 (hf s).2.2

theorem short_tryExecuteLoop : ∀ n, Relates (Kept (Short c)) (tryExecuteLoop E n)
  | 0 => relates_pure
  | n + 1 => by
      refine relates_kept fun s hs => sat_bind.mpr (sat_get.mpr ?_)
      rcases hq : s.tomBuffer.toList with _ | ⟨⟨number, p⟩, rest⟩
      · exact sat_pure.mpr hs
      · show Sat (if s.highVerified < number then pure () else _) s _ _
        split_ifs with hv hne
        · exact sat_pure.mpr hs
        · exact sat_pure.mpr hs
        · -- The packet comes out of the buffer, so its number is short.
          have hp : p.Short c := hs.buffered (number, p) (by simp [hq])
          have hround : Relates (Kept (Short c)) (do
              executeOne E p
              modify fun s => { s with tomBuffer := s.tomBuffer.erase number }
              tryExecuteLoop E n) :=
            (short_executeOne hp).bind fun _ => Relates.bind
              (short_modify fun s => ⟨rfl, rfl, fun x hx => Or.inl (List.mem_of_mem_filter hx)⟩) fun _ =>
              short_tryExecuteLoop n
          exact (hround s).mono (fun _ _ _ h => h hs) fun _ _ h => h

theorem short_tryExecute : Relates (Kept (Short c)) (tryExecute E) :=
  relates_get.bind fun _ => short_tryExecuteLoop _

theorem short_insertEpochStart (m : EpochStart) : Relates (Kept (Short c)) (insertEpochStart E m) := by
  refine Relates.bind (short_modify fun s => ⟨rfl, rfl, fun x hx => Or.inl hx⟩) fun _ => relates_get.bind fun _ => ?_
  exact relates_pure.ite (Relates.bind (short_modify fun s => ⟨rfl, rfl, fun x hx => Or.inl hx⟩) fun _ =>
    short_tryExecute)

theorem short_sendEpochStart (k : Nat) : Relates (Kept (Short c)) (sendEpochStart E k) :=
  relates_get.bind fun _ => relates_emit.bind fun _ => short_insertEpochStart _

theorem short_insertViewChange (m : ViewChange) : Relates (Kept (Short c)) (insertViewChange E m) := by
  refine Relates.bind (short_modify fun s => ⟨rfl, rfl, fun x hx => Or.inl hx⟩) fun _ => relates_get.bind fun _ => ?_
  exact relates_pure.ite (relates_emit.bind fun _ => short_sendEpochStart _)

theorem short_startEpochChange (k : Nat) : Relates (Kept (Short c)) (startEpochChange E k) := by
  refine Relates.bind (short_modify fun s => ⟨rfl, rfl, fun x hx => by cases hx⟩) fun _ => relates_get.bind fun _ => ?_
  exact relates_emit.bind fun _ => Relates.when (short_insertViewChange _)

theorem short_buffer (hp : p.Short c) : Relates (Kept (Short c)) (modify fun s => s.buffer p : RHandler Unit) := by
  refine short_modify fun s => ⟨rfl, rfl, fun x hx => ?_⟩
  rcases StdMap.mem_emplace hx with rfl | hx
  · exact Or.inr hp
  · exact Or.inl hx

theorem short_handleInSession (hp : p.Short c) (remote : Addr) :
    Relates (Kept (Short c)) (handleInSession E remote p) := by
  refine relates_get.bind fun s => relates_pure.ite (Relates.bind ?_ fun _ => ?_)
  · exact Relates.when (short_modify fun s => ⟨rfl, rfl, fun x hx => Or.inl hx⟩)
  · exact Relates.ite (Relates.bind (short_buffer hp) fun _ => short_tryExecute)
      (Relates.bind (short_executeOne hp) fun _ => short_tryExecute)

theorem short_handleRequest (hp : p.Short c) (remote : Addr) :
    Relates (Kept (Short c)) (handleRequest E remote p) := by
  refine relates_get.bind fun s => (short_buffer hp).ite ?_
  refine Relates.bind (short_modify fun s => ?_) fun _ => relates_get.bind fun _ => ?_
  · rw [Replica.join]
    split_ifs <;> exact ⟨rfl, rfl, fun x hx => Or.inl hx⟩
  · exact Relates.ite (Relates.bind (short_startEpochChange _) fun _ => short_buffer hp)
      (short_handleInSession hp remote)

/-- The message, if it is a request of client `c`, has a number of 32 bits. -/
def ShortNumbers (c : Nat) (_ : Replica) (e : Addr × Message) : Prop := ∀ p, e.2 = .request p → p.Short c

theorem short_receiveMessage (remote : Addr) {m : Message} (hm : ∀ p, m = .request p → p.Short c) :
    Relates (Kept (Short c)) (receiveMessage E remote m) := by
  cases m with
  | request p =>
    exact Relates.bind (short_modify fun s => ⟨rfl, rfl, fun x hx => Or.inl hx⟩) fun _ =>
      short_handleRequest (hm p rfl) remote
  | viewChange m => exact relates_get.bind fun _ => (short_insertViewChange m).when
  | viewStart m => exact relates_get.bind fun _ => (short_sendEpochStart _).when
  | epochStart m => exact relates_get.bind fun _ => (short_insertEpochStart m).when
  | query m => exact relates_get.bind fun _ => Relates.whenSome fun _ => relates_emit

/-! ### Runs -/

theorem short_initial : Short c Replica.initial where
  last := .nil
  executed _ hn := by cases hn
  buffered _ hx := by cases hx

/-- In every run in which the requests of client `c` have numbers of 32 bits. -/
theorem short_of_run {past : List Replica} (hr : Run (system E) (ShortNumbers c) past s) : Short c s := by
  refine (hr.invariant (I := fun _ s => Inv id False s ∧ Short c s) ⟨inv_initial, short_initial⟩ ?_).2
  rintro _ s e s' _ ⟨hinv, hs⟩ hc hst
  obtain rfl := Option.some.inj hst
  have hboth := (receiveMessage_keeps (E := E) hinv (e := e) False.elim).and (short_receiveMessage e.1 hc s)
  exact state_of_sat (I := fun s => Inv id False s ∧ Short c s)
    (hboth.mono (fun _ _ _ h => ⟨h.1, h.2 hs⟩) fun _ _ h => h.1.elim)

/-- Then requests are executed at most once; and they still are after one more, exactly when its number has
    32 bits. -/
theorem onceOnly_of_run {past : List Replica} (hr : Run (system E) (ShortNumbers c) past s) :
    OnceOnly E c s ∧ ∀ p, p.request.clientid = c →
      (OnceOnly E c (executeOne E p s).2.1 ↔ p.request.clientreqid < 2 ^ 32) := by
  have hs := short_of_run hr
  have honce := (hs.last.atMostOnce_iff (by decide)).mpr hs.executed
  refine ⟨onceOnly_iff.mpr honce, fun p hp => ?_⟩
  obtain ⟨hns, hkept⟩ := (settled_executeOne (E := E) p s).numbersOf hp
  rw [onceOnly_iff, hns, hkept]
  split_ifs with ha
  · exact hs.last.next_iff (by decide) hs.executed ha
  · -- A number that is not accepted is no greater than one that was.
    refine iff_of_true honce ?_
    obtain ⟨k, hk, hlt⟩ : ∃ k ∈ s.keptOf c, ¬ k < p.request.clientreqid := by simpa [Accepts] using ha
    obtain ⟨n, hn, rfl⟩ := hs.last.mem k hk
    exact Nat.lt_of_le_of_lt (Nat.not_lt.mp hlt) (Nat.mod_lt n (by decide))

end Dsnet.TOMBFT
