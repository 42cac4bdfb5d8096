import Dsnet.Lib.Always
import Dsnet.PBFT.Replica

/-! What the handlers of a PBFT replica do to its state, as rules: a property of the state that the parts of a
    handler keep, the handler keeps. Requests are only ever appended to the log; the rest of what
    happens to it are changes of the states of its entries. -/

namespace Dsnet.PBFT
open Handler
open Spec (appendHashed lastHash)

variable {E : Env} {s s' : Replica}

/-! ### The log -/

/-- The request has been appended to the log. -/
def Appended (E : Env) (s : Replica) (opNumber : Nat) (req : Request) (s' : Replica) : Prop :=
  ∃ log, appendHashed E.sha1 s.log (s.entryOf opNumber req) = some log ∧ s' = { s with log := log }

theorem append_spec (opNumber : Nat) (req : Request) (s : Replica) :
    Sat (append E opNumber req) s (fun _ s' _ => Appended E s opNumber req s')
      fun s' _ => s' = s ∧ opNumber ≠ s.log.entries.length + 1 := by
  simp only [append, sat_bind, sat_get, sat_ofOption, sat_modify]
  exact ⟨fun log hlog => ⟨log, hlog, rfl⟩, fun hnone => ⟨trivial, Log.append_eq_none.mp hnone⟩⟩

/-- It comes next. -/
theorem Appended.opNumber {k : Nat} {req : Request} (h : Appended E s k req s') :
    k = s.log.entries.length + 1 := by
  obtain ⟨log, hlog, -⟩ := h
  exact (Log.append_eq_some.mp hlog).1

theorem Appended.contents {k : Nat} {req : Request} (h : Appended E s k req s') :
    s'.log.contents = s.log.contents ++ [(s.viewNumber, req)] := by
  obtain ⟨log, hlog, rfl⟩ := h
  rw [Log.contents, (Log.append_eq_some.mp hlog).2, List.map_append]
  rfl

theorem mem_bufferBatch : ∀ {reqs : List Request} {buffer : StdMap Nat Request} {k : Nat} {x : Nat × Request},
    x ∈ (bufferBatch buffer k reqs).toList →
    x ∈ buffer.toList ∨ ∃ i, reqs[i]? = some x.2 ∧ x.1 = k + i
  | [], _, _, _, hx => Or.inl hx
  | req :: reqs, buffer, k, x, hx => by
      have hx : x ∈ (buffer.insert k req).toList ∨ ∃ i, reqs[i]? = some x.2 ∧ x.1 = k + 1 + i :=
        mem_bufferBatch hx
      rcases hx with hx | ⟨i, hi, hk⟩
      · rcases StdMap.mem_insert hx with rfl | hx
        · exact Or.inr ⟨0, rfl, rfl⟩
        · exact Or.inl hx
      · exact Or.inr ⟨i + 1, hi, by omega⟩

section Storing
variable (I : Replica → Prop) (P : Nat → Request → Prop)
  (happend : ∀ {s k req s'}, I s → P k req → Appended E s k req s' → I s')
  (hbuffer : ∀ {s} {buffer : StdMap Nat Request}, I s → (∀ x ∈ buffer.toList, P x.1 x.2) →
    I { s with requestBuffer := buffer })
  (hbuffered : ∀ {s}, I s → ∀ x ∈ s.requestBuffer.toList, P x.1 x.2)
include happend

theorem appendBatch_spec : ∀ (reqs : List Request) (k : Nat) {s : Replica}, I s →
    (∀ i req, reqs[i]? = some req → P (k + i) req) →
    Sat (appendBatch E k reqs) s (fun _ s' _ => I s') fun s' _ => I s'
  | [], _, _, hs, _ => hs
  | req :: reqs, k, s, hs, hP => by
      rw [appendBatch, sat_bind]
      refine (append_spec k req s).mono (fun _ s₁ _ h₁ => ?_) fun s' _ h => h.1 ▸ hs
      refine appendBatch_spec reqs (k + 1) (happend hs (hP 0 req rfl) h₁) fun i req' hi => ?_
      rw [Nat.add_assoc, Nat.add_comm 1 i]
      exact hP (i + 1) req' hi

include hbuffer hbuffered

theorem appendBuffered_spec : ∀ (n : Nat) {s : Replica}, I s →
    Sat (appendBuffered E n) s (fun _ s' _ => I s') fun s' _ => I s'
  | 0, _, hs => hs
  | n + 1, s, hs => by
      simp only [appendBuffered, sat_bind, sat_get]
      cases hq : s.requestBuffer.toList with
      | nil => exact hs
      | cons x rest =>
        simp only [sat_ite, sat_pure, sat_bind, sat_modify]
        refine ⟨fun _ => hs, fun _ => ?_⟩
        have hx : P x.1 x.2 := hbuffered hs x (by simp [hq])
        refine (append_spec x.1 x.2 s).mono (fun _ s₁ _ h₁ => ?_) fun s' _ h => h.1 ▸ hs
        have hs₁ := happend hs hx h₁
        exact appendBuffered_spec n (hbuffer hs₁ fun y hy => hbuffered hs₁ y (List.mem_filter.mp hy).1)

theorem storeRequests_spec (hs : I s) (reqs : List Request) (k : Nat)
    (hP : ∀ i req, reqs[i]? = some req → P (k + i) req) :
    Sat (storeRequests E k reqs) s (fun _ s' _ => I s') fun s' _ => I s' := by
  simp only [storeRequests, sat_bind, sat_get, sat_ite, sat_modify]
  refine ⟨fun _ => hbuffer hs fun x hx => ?_, fun _ => ?_⟩
  · rcases mem_bufferBatch hx with hx | ⟨i, hi, hk⟩
    · exact hbuffered hs x hx
    · rw [hk]
      exact hP i x.2 hi
  · refine (appendBatch_spec I P happend reqs k hs hP).mono (fun _ s₁ _ hs₁ => ?_) fun _ _ h => h
    exact appendBuffered_spec I P happend hbuffer hbuffered _ hs₁

end Storing

/-! ### What is logged, however a handler ends -/

section Logging
variable {R : Replica → Replica → List Output → Prop} [Composes R]
  (hlog : ∀ (s : Replica) (log : Log), s.log.entries.length ≤ log.entries.length → R s { s with log := log } [])
  (hbuffer : ∀ (s : Replica) (buffer : StdMap Nat Request), R s { s with requestBuffer := buffer } [])
include hlog

theorem always_append (k : Nat) (req : Request) : Always R (append E k req) := by
  intro s
  simp only [append, sat_bind, sat_get, sat_ofOption, sat_modify]
  refine ⟨fun log h => hlog s log ?_, fun _ => Composes.refl s⟩
  rw [(Log.append_eq_some.mp h).2, List.length_append]
  exact Nat.le_add_right ..

theorem always_appendBatch : ∀ (reqs : List Request) (k : Nat), Always R (appendBatch E k reqs)
  | [], _ => always_pure
  | _ :: reqs, k => .bind (always_append hlog _ _) fun _ => always_appendBatch reqs (k + 1)

theorem always_commitBatch : ∀ n k : Nat, Always R (commitBatch k n)
  | 0, _ => always_pure
  | n + 1, k => .bind always_get fun _ => .bind always_ofOption fun _ =>
      .bind (always_modify fun s => hlog s _ (Log.length_entries_setStatus ..).ge) fun _ => always_commitBatch n (k + 1)

include hbuffer

theorem always_appendBuffered : ∀ n, Always R (appendBuffered E n)
  | 0 => always_pure
  | n + 1 => by
      refine .bind always_get fun s => ?_
      cases s.requestBuffer.toList with
      | nil => exact always_pure
      | cons x rest =>
        refine .ite always_pure (.bind (always_append hlog _ _) fun _ => ?_)
        exact .bind (always_modify fun s => hbuffer s _) fun _ => always_appendBuffered n

theorem always_storeRequests (k : Nat) (reqs : List Request) : Always R (storeRequests E k reqs) :=
  .bind always_get fun _ => .ite (always_modify fun s => hbuffer s _) <|
    .bind (always_appendBatch hlog reqs k) fun _ => .bind always_get fun _ => always_appendBuffered hlog hbuffer _

end Logging

/-! ### What is sent -/

section Sending
variable {P : Output → Prop}

theorem emits_append (k : Nat) (req : Request) : Emits P (append E k req) :=
  emits_get.bind fun _ => emits_ofOption.bind fun _ => emits_modify

theorem emits_appendBatch : ∀ (reqs : List Request) (k : Nat), Emits P (appendBatch E k reqs)
  | [], _ => emits_pure
  | _ :: reqs, _ => (emits_append _ _).bind fun _ => emits_appendBatch reqs _

theorem emits_appendBuffered : ∀ n, Emits P (appendBuffered E n)
  | 0 => emits_pure
  | n + 1 => by
      refine emits_get.bind fun s => ?_
      cases s.requestBuffer.toList with
      | nil => exact emits_pure
      | cons x rest =>
        refine emits_pure.ite ((emits_append _ _).bind fun _ => emits_modify.bind fun _ => ?_)
        exact emits_appendBuffered n

theorem emits_storeRequests (k : Nat) (reqs : List Request) : Emits P (storeRequests E k reqs) :=
  emits_get.bind fun _ => emits_modify.ite
    ((emits_appendBatch reqs k).bind fun _ => emits_get.bind fun _ => emits_appendBuffered _)

theorem emits_commitBatch : ∀ (n k : Nat), Emits P (commitBatch k n)
  | 0, _ => emits_pure
  | n + 1, _ => emits_get.bind fun _ => emits_ofOption.bind fun _ => emits_modify.bind fun _ =>
      emits_commitBatch n _

variable (hreply : ∀ a m, P (.toClient a m))
include hreply

theorem emits_executeNext (e : LogEntry) : Emits P (executeNext E e) :=
  emits_modify.bind fun _ => emits_get.bind fun _ => emits_modify.bind fun _ =>
    emits_ofOption.bind fun _ => emits_modify.bind fun _ => emits_emit (hreply _ _)

theorem emits_executeLoop : ∀ n, Emits P (executeLoop E n)
  | 0 => emits_pure
  | n + 1 => emits_get.bind fun _ => Emits.whenSome fun e =>
      ((emits_executeNext hreply e).bind fun _ => emits_executeLoop n).when

theorem emits_insertCommit (m : Commit) : Emits P (insertCommit E m) :=
  emits_get.bind fun _ => emits_modify.bind fun _ => emits_pure.ite (emits_abort.ite
    ((emits_commitBatch _ _).bind fun _ => emits_executeLoop hreply _))

theorem emits_handleCommit (m : Commit) : Emits P (handleCommit E m) :=
  emits_get.bind fun _ => emits_pure.ite (emits_abort.ite ((emits_ofOption.bind fun _ =>
    emits_pure.ite (emits_insertCommit hreply m)).ite (emits_insertCommit hreply m)))

end Sending

/-! ### What only requests change -/

/-- The numbering, the pending batch, and which clients are known. -/
def Replica.intake (s : Replica) : Nat × List Request × (Nat → Bool) :=
  (s.opNumber, s.requestBatch, fun c => (s.clientTable c).isSome)

theorem append_intake (k : Nat) (req : Request) : Relates (Same Replica.intake) (append E k req) :=
  Relates.bind relates_get fun _ => Relates.bind relates_ofOption fun _ => same_modify fun _ => rfl

theorem appendBatch_intake : ∀ (reqs : List Request) (k : Nat),
    Relates (Same Replica.intake) (appendBatch E k reqs)
  | [], _ => relates_pure
  | _ :: reqs, k => Relates.bind (append_intake _ _) fun _ => appendBatch_intake reqs (k + 1)

theorem appendBuffered_intake : ∀ n, Relates (Same Replica.intake) (appendBuffered E n)
  | 0 => relates_pure
  | n + 1 => by
      refine Relates.bind relates_get fun s => ?_
      cases s.requestBuffer.toList with
      | nil => exact relates_pure
      | cons x rest =>
        refine Relates.ite relates_pure (Relates.bind (append_intake _ _) fun _ => ?_)
        exact Relates.bind (same_modify fun _ => rfl) fun _ => appendBuffered_intake n

theorem storeRequests_intake (k : Nat) (reqs : List Request) :
    Relates (Same Replica.intake) (storeRequests E k reqs) :=
  Relates.bind relates_get fun _ => Relates.ite (same_modify fun _ => rfl)
    (Relates.bind (appendBatch_intake reqs k) fun _ => Relates.bind relates_get fun _ => appendBuffered_intake _)

theorem insertPrepare_intake (m : Prepare) : Relates (Same Replica.intake) (insertPrepare E m) :=
  Relates.bind relates_get fun _ => Relates.bind (same_modify fun _ => rfl) fun _ =>
    Relates.ite relates_pure (Relates.ite relates_abort (Relates.bind relates_ofOption fun _ =>
      Relates.bind (same_modify fun _ => rfl) fun _ => relates_emit))

theorem handlePreprepare_intake (m : Prepare) (reqs : List Request) :
    Relates (Same Replica.intake) (handlePreprepare E m reqs) :=
  Relates.bind relates_get fun _ => Relates.ite relates_pure (Relates.ite relates_abort
    (Relates.ite relates_abort (Relates.ite relates_pure (Relates.bind (storeRequests_intake _ _) fun _ =>
      Relates.bind (insertPrepare_intake m) fun _ => Relates.bind relates_get fun _ =>
        Relates.when relates_emit))))

theorem handlePrepare_intake (m : Prepare) : Relates (Same Replica.intake) (handlePrepare E m) :=
  Relates.bind relates_get fun _ => Relates.ite relates_pure (Relates.ite relates_abort
    (Relates.ite (Relates.bind relates_ofOption fun _ => Relates.ite relates_pure (insertPrepare_intake m))
      (insertPrepare_intake m)))

theorem commitBatch_intake : ∀ n k : Nat, Relates (Same Replica.intake) (commitBatch k n)
  | 0, _ => relates_pure
  | n + 1, k => Relates.bind relates_get fun _ => Relates.bind relates_ofOption fun _ =>
      Relates.bind (same_modify fun _ => rfl) fun _ => commitBatch_intake n (k + 1)

/-- A client that is known already has a new entry. -/
theorem Replica.intake_setClient {c : Nat} {entry entry' : ClientEntry} (h : s.clientTable c = some entry) :
    (s.setClient c entry').intake = s.intake := by
  have hknown : (fun i => ((s.setClient c entry').clientTable i).isSome) = fun i => (s.clientTable i).isSome := by
    funext i
    by_cases hi : i = c
    · subst hi
      simp [Replica.setClient, h]
    · simp [Replica.setClient, hi]
  rw [Replica.intake, hknown]
  rfl

theorem executeNext_intake (e : LogEntry) : Relates (Same Replica.intake) (executeNext E e) := by
  intro s
  simp only [executeNext, sat_bind, sat_modify, sat_get, sat_ofOption, sat_emit]
  exact ⟨fun client hclient => Replica.intake_setClient hclient, fun _ => trivial⟩

theorem executeLoop_intake : ∀ n, Relates (Same Replica.intake) (executeLoop E n)
  | 0 => relates_pure
  | n + 1 => Relates.bind relates_get fun _ => Relates.whenSome fun e =>
      Relates.when (Relates.bind (executeNext_intake e) fun _ => executeLoop_intake n)

theorem handleCommit_intake (m : Commit) : Relates (Same Replica.intake) (handleCommit E m) := by
  have hinsert : Relates (Same Replica.intake) (insertCommit E m) :=
    Relates.bind relates_get fun _ => Relates.bind (same_modify fun _ => rfl) fun _ =>
      Relates.ite relates_pure (Relates.ite relates_abort
        (Relates.bind (commitBatch_intake _ _) fun _ => executeLoop_intake _))
  exact Relates.bind relates_get fun _ => Relates.ite relates_pure (Relates.ite relates_abort
    (Relates.ite (Relates.bind relates_ofOption fun _ => Relates.ite relates_pure hinsert) hinsert))

end Dsnet.PBFT
