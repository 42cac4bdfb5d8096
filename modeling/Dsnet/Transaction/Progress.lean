import Dsnet.Lib.Cluster
import Dsnet.Transaction.Calls

/-! How far the leader of a shard has got: what it has logged, what of it is committed, and whether the timer
    runs that sends the last PREPARE again. One timer serves all operations, so the commit of one that is not
    the last stops it for those that come after. -/

namespace Dsnet.Transaction
open Handler Cluster

/-- What a leader has logged and committed. -/
structure Progress where
  opnums : List Nat
  lastOp : Nat
  lastCommitted : Nat
  resend : Bool

namespace Progress

/-- The log has the operations up to the last one. -/
def Complete (p : Progress) : Prop := p.opnums = List.range' 1 p.lastOp

/-- While an operation is not committed, the timer runs. -/
def Retrying (p : Progress) : Prop := p.lastCommitted < p.lastOp → p.resend = true

/-- Another operation is logged, and the timer started. -/
def log (p : Progress) : Progress :=
  { p with opnums := p.opnums ++ [p.lastOp + 1], lastOp := p.lastOp + 1, resend := true }

/-- The operations up to `k` are committed, and the timer stopped. -/
def commit (p : Progress) (k : Nat) : Progress := { p with lastCommitted := k, resend := false }

/-- What a leader can do. -/
inductive Moves (p : Progress) : Progress → Prop
  | stay : Moves p p
  | resend : Moves p { p with resend := true }
  | log : Moves p p.log
  | commit {k : Nat} (hk : p.lastCommitted < k) : Moves p (p.commit k)

variable {p p' : Progress}

theorem Moves.complete (h : Moves p p') (hp : p.Complete) : p'.Complete := by
  cases h with
  | stay | resend | commit => exact hp
  | log =>
    show p.opnums ++ [p.lastOp + 1] = List.range' 1 (p.lastOp + 1)
    rw [hp, List.range'_concat, Nat.one_mul, Nat.add_comm 1]

/-- The timer goes on running, unless an operation is committed that is not the last. -/
theorem Moves.retrying (h : Moves p p') (hp : p.Retrying)
    (hlast : p'.lastCommitted ≠ p.lastCommitted → p.lastOp ≤ p'.lastCommitted) : p'.Retrying := by
  cases h with
  | stay => exact hp
  | resend | log => exact fun _ => rfl
  | commit hk => exact fun hlt => absurd hlt (Nat.not_lt.mpr (hlast (Nat.ne_of_gt hk)))

/-- If one is, it stops. -/
theorem not_retrying_commit {k : Nat} (hk : k < p.lastOp) : ¬ (p.commit k).Retrying := fun h => by
  cases h hk

/-- What a message comes to at which the leader commits this far, if at all. -/
def After (p : Progress) (commits : Option Nat) (p' : Progress) : Prop :=
  match commits with
  | some k => p.lastCommitted < k ∧ p' = p.commit k
  | none => p.Moves p' ∧ p'.lastCommitted = p.lastCommitted

theorem After.cases {commits : Option Nat} (h : p.After commits p') :
    ((commits.all fun k => p.lastOp ≤ k) = true ∧ p.Moves p' ∧
      (p'.lastCommitted ≠ p.lastCommitted → p.lastOp ≤ p'.lastCommitted)) ∨
    (¬ (commits.all fun k => p.lastOp ≤ k) = true ∧ ∃ k < p.lastOp, p' = p.commit k) := by
  cases commits with
  | none => exact .inl ⟨rfl, h.1, fun hne => absurd h.2 hne⟩
  | some k =>
    obtain ⟨hk, rfl⟩ := h
    rcases Nat.lt_or_ge k p.lastOp with hlt | hge
    · exact .inr ⟨fun hle => Nat.not_le.mpr hlt (of_decide_eq_true hle), k, hlt, rfl⟩
    · exact .inl ⟨decide_eq_true hge, .commit hk, fun _ => hge⟩

end Progress

/-- The last entry of a log is found where it is numbered. -/
theorem exists_findEntry {ε : Type} {opnum : ε → Nat} {log : List ε} {n : Nat}
    (h : log.map opnum = List.range' 1 n) (hn : 0 < n) : ∃ e, findEntry log n = some e ∧ opnum e = n := by
  obtain ⟨k, rfl⟩ := Nat.exists_eq_succ_of_ne_zero hn.ne'
  have hk : (log.map opnum)[k]? = some (k + 1) := by
    rw [h, List.getElem?_range' (Nat.lt_succ_self k)]
    simp [Nat.add_comm]
  rw [List.getElem?_map] at hk
  obtain ⟨e, he, hopnum⟩ := Option.map_eq_some_iff.mp hk
  exact ⟨e, he, hopnum⟩

/-! ### Leaders among the processes -/

variable {π : Type} {σ : π → Type} {μ κ : Type} [DecidableEq π]

/-- Some of the processes lead, with this progress, and `C` says of an event that no leader commits at it while it
    has a later operation. -/
structure Led (P : Protocol π σ μ κ) (lead : ∀ p, σ p → Option Progress) (C : Sys π σ μ → Event π κ → Prop) :
    Prop where
  init : ∀ p x, lead p (P.init p) = some x → x.Complete ∧ x.Retrying
  step : ∀ t e p m, e.handler P t = some ⟨p, m⟩ → (∀ x, lead p (t.state p) = some x → x.Complete) →
    Sat m (t.state p) (fun _ s' _ =>
      (C t e ∧ ∀ y, lead p s' = some y → ∃ x, lead p (t.state p) = some x ∧ x.Moves y ∧
        (y.lastCommitted ≠ x.lastCommitted → x.lastOp ≤ y.lastCommitted)) ∨
      (¬ C t e ∧ ∃ x k, lead p (t.state p) = some x ∧ k < x.lastOp ∧ lead p s' = some (x.commit k))) fun _ _ => True

namespace Led
variable {P : Protocol π σ μ κ} {lead : ∀ p, σ p → Option Progress} {C : Sys π σ μ → Event π κ → Prop}
  {past : List (Sys π σ μ)} {t t' : Sys π σ μ}

/-- The leaders go on retrying when all steps meet the condition. -/
theorem of_run (h : Led P lead C) (hr : Run (Cluster.system P) C past t) {p : π} (hrun : t.stopped p = false)
    {x : Progress} (hx : lead p (t.state p) = some x) : x.Complete ∧ x.Retrying := by
  refine invariant_of_handlers (I := fun p s => ∀ x, lead p s = some x → x.Complete ∧ x.Retrying) h.init
    (fun t e p m hC hm ih => ?_) hr p hrun x hx
  refine (h.step t e p m hm fun x hx => (ih x hx).1).mono (fun _ s' _ hs' y hy => ?_) fun _ _ _ => trivial
  rcases hs' with ⟨-, hmoves⟩ | ⟨hnot, -⟩
  · obtain ⟨x, hx, hxy, hlast⟩ := hmoves y hy
    obtain ⟨hc, hretry⟩ := ih x hx
    exact ⟨hxy.complete hc, hxy.retrying hretry hlast⟩
  · exact absurd hC hnot

/-- A step that does not meet it stops the timer of a leader, or the leader. -/
theorem iff_of_step (h : Led P lead C) (hr : Run (Cluster.system P) C past t) {e : Event π κ}
    (hstep : (Cluster.system P).step t e = some t') (hstopped : ∀ p, t'.stopped p = t.stopped p) :
    (∀ p x, P.member p = true → t'.stopped p = false → lead p (t'.state p) = some x → x.Retrying) ↔ C t e := by
  refine ⟨fun hall => ?_, fun hC p x _ hrun hx => (h.of_run (hr.next hC hstep) hrun hx).2⟩
  obtain ⟨p, m, hm, hmem, hrun, rfl⟩ := Sys.step_eq_some hstep
  have hrun' := (hstopped p).trans hrun
  have hsat := h.step t e p m hm fun x hx => (h.of_run hr hrun hx).1
  rcases Sys.of_after hsat hrun' with ⟨hC, -⟩ | ⟨-, x, k, hx, hk, hcommit⟩
  · exact hC
  · exact absurd (hall p _ hmem hrun' hcommit) (Progress.not_retrying_commit hk)

end Led
end Dsnet.Transaction
