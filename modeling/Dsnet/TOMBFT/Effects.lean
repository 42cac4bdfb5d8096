import Dsnet.TOMBFT.Replica

/-! What the handlers of a TOMBFT replica do to its state, as far as the order of the requests depends on it:
    executing a packet appends it to the log, and the loop over the buffer ends when the first packet in
    it is not the next. -/

namespace Dsnet.TOMBFT
open Handler

variable {E : Env} {s s' : Replica} {p : Packet}

/-- A replica that takes messages from anywhere; its handlers always return. -/
def system (E : Env) : System Replica (Addr × Message) where
  init := .initial
  step s e := some (receiveMessage E e.1 e.2 s).2.1

/-- The packet has been executed: besides the log only what is known of clients differs. -/
def Executed (s : Replica) (p : Packet) (s' : Replica) : Prop :=
  ∃ ct us, s' = { s.append p with clientTable := ct, upcalls := us }

theorem execute_spec (req : Request) (s : Replica) :
    Sat (execute E req) s
      (fun _ s' _ => ∃ ct us, s' = { s with clientTable := ct, upcalls := us }) fun _ _ => False := by
  simp only [execute, sat_bind, sat_get, sat_modify, sat_pure]
  exact ⟨_, _, rfl⟩

theorem sendReply_spec (clientid : Nat) (reply : ReplyMessage) (s : Replica) :
    Sat (sendReply clientid reply) s (fun _ s' _ => s' = s) fun _ _ => False := by
  simp only [sendReply, sat_bind, sat_get, sat_whenSome, sat_emit]
  exact ⟨fun _ _ => trivial, fun _ => trivial⟩

theorem executeOne_spec (p : Packet) (s : Replica) :
    Sat (executeOne E p) s (fun _ s' _ => Executed s p s') fun _ _ => False := by
  have hrun : Sat (do
      let reply ← execute E p.request
      sendReply p.request.clientid reply) (s.append p) (fun _ s' _ => Executed s p s')
      fun _ _ => False := by
    rw [sat_bind]
    refine (execute_spec p.request (s.append p)).mono (fun reply s₁ _ h => ?_) fun _ _ h => h
    refine (sendReply_spec p.request.clientid reply s₁).mono (fun _ s₂ _ h₂ => ?_) fun _ _ h => h
    rw [h₂]
    exact h
  simp only [executeOne, sat_bind, sat_modify, sat_get]
  cases (s.append p).clientTable p.request.clientid with
  | none => exact hrun
  | some reply =>
    simp only [sat_ite, sat_pure]
    refine ⟨fun _ => ⟨_, _, rfl⟩, fun _ => ⟨fun _ => ?_, fun _ => hrun⟩⟩
    refine (sendReply_spec p.request.clientid reply (s.append p)).mono (fun _ s₂ _ h₂ => ?_) fun _ _ h => h
    rw [h₂]
    exact ⟨_, _, rfl⟩

/-! ### The buffer -/

/-- The first packet in the buffer is not the next. -/
def Drained (s : Replica) : Prop :=
  ∀ x ∈ s.tomBuffer.toList.head?, s.highVerified < x.1 ∨ (x.1 : Int) ≠ s.lastNumber + 1

/-- What executing the first packet of the buffer keeps, as long as it is the next, the loop keeps. -/
theorem tryExecuteLoop_spec (I : Replica → Prop) (hI : ∀ {s x rest s'}, I s →
      s.tomBuffer.toList = x :: rest → (x.1 : Int) = s.lastNumber + 1 → Executed s x.2 s' →
      I { s' with tomBuffer := s'.tomBuffer.erase x.1 }) :
    ∀ {n : Nat} {s : Replica}, I s → s.tomBuffer.toList.length ≤ n →
      Sat (tryExecuteLoop E n) s (fun _ s' _ => I s' ∧ Drained s') fun _ _ => False
  | 0, s, hs, hn => by
      have hnil : s.tomBuffer.toList = [] := List.length_eq_zero_iff.mp (Nat.le_zero.mp hn)
      exact ⟨hs, by simp [Drained, hnil]⟩
  | n + 1, s, hs, hn => by
      simp only [tryExecuteLoop, sat_bind, sat_get]
      cases hq : s.tomBuffer.toList with
      | nil => exact ⟨hs, by simp [Drained, hq]⟩
      | cons x rest =>
        simp only [sat_ite, sat_pure, sat_bind, sat_modify]
        refine ⟨fun hv => ⟨hs, by simp [Drained, hq, hv]⟩, fun _ => ⟨fun hne => ⟨hs, ?_⟩, fun hnext => ?_⟩⟩
        · intro y hy
          rw [hq] at hy
          cases hy
          exact Or.inr hne
        · have hnext : (x.1 : Int) = s.lastNumber + 1 := not_not.mp hnext
          refine (executeOne_spec x.2 s).mono (fun _ s₁ _ h₁ => ?_) fun _ _ h => h
          refine (tryExecuteLoop_spec I hI (hI hs hq hnext h₁) ?_).mono (fun _ _ _ h => h) fun _ _ h => h
          obtain ⟨ct, us, rfl⟩ := h₁
          have hlt : (s.tomBuffer.toList.filter (·.1 ≠ x.1)).length < s.tomBuffer.toList.length :=
            List.length_filter_lt_length_iff_exists.mpr ⟨x, by simp [hq], by simp⟩
          have hlen : (s.tomBuffer.toList.filter (·.1 ≠ x.1)).length ≤ n := by omega
          exact hlen

/-- `TryExecute`. -/
theorem tryExecute_spec (I : Replica → Prop) (hI : ∀ {s x rest s'}, I s →
      s.tomBuffer.toList = x :: rest → (x.1 : Int) = s.lastNumber + 1 → Executed s x.2 s' →
      I { s' with tomBuffer := s'.tomBuffer.erase x.1 }) (hs : I s) :
    Sat (tryExecute E) s (fun _ s' _ => I s' ∧ Drained s') fun _ _ => False := by
  simp only [tryExecute, sat_bind, sat_get]
  exact (tryExecuteLoop_spec I hI hs le_rfl).mono (fun _ _ _ h => h) fun _ _ h => h

end Dsnet.TOMBFT
