import Mathlib.Data.Finset.Card
import Dsnet.Lib.Run

/-! What the clients of the Byzantine protocols do with replies: `received` notes which replicas have replied to the
    pending request, and when enough have, the result of the last reply is handed over. What the other replies said
    is not kept, so the result has enough vouchers exactly when all that have replied reported it
    (`vouched_iff_agreed`). -/

namespace Dsnet

/-! ### A client -/

/-- `PendingRequest`. The array `received` of the source has 16 places. -/
structure PendingRequest where
  requestNumber : Nat
  op : String
  received : Nat → Bool

/-- `pending_request->received[i] = true`. -/
def PendingRequest.note (p : PendingRequest) (i : Nat) : PendingRequest :=
  { p with received := Function.update p.received i true }

/-- The number of replicas that have replied. -/
def PendingRequest.count (p : PendingRequest) (n : Nat) : Nat := ((List.range n).filter p.received).length

/-- What a client reads of a reply. -/
structure Report where
  requestNumber : Nat
  replicaId : Nat
  result : String
  deriving DecidableEq, Repr

/-- What is handed to the application. -/
structure Answer where
  op : String
  result : String
  deriving DecidableEq, Repr

/-- The members that the clients have in common. -/
structure Collector where
  requestNumber : Nat
  pending : Option PendingRequest
  resending : Bool

namespace Collector

/-- The state the constructor sets up. -/
def initial : Collector where
  requestNumber := 0
  pending := none
  resending := false

/-- `Invoke`; a second pending request panics. The request is sent, and the timer is reset. -/
def invoke (s : Collector) (op : String) : Option Collector :=
  match s.pending with
  | some _ => none
  | none => some {
      requestNumber := s.requestNumber + 1
      pending := some { requestNumber := s.requestNumber + 1, op := op, received := fun _ => false }
      resending := true }

/-- `ReceiveMessage`; `stops` says that the timer is stopped with the answer. There is no state when the reply names
    a replica beyond the array. -/
def receive (s : Collector) (n threshold : Nat) (stops : Bool) (m : Report) : Option (Collector × Option Answer) :=
  match s.pending with
  | none => some (s, none)
  | some p =>
    if m.requestNumber ≠ p.requestNumber then some (s, none)
    else if 16 ≤ m.replicaId then none
    else if (p.note m.replicaId).count n < threshold then some ({ s with pending := some (p.note m.replicaId) }, none)
    else some ({ s with pending := none, resending := s.resending && !stops }, some { op := p.op, result := m.result })

/-- What a reply does: nothing, or it is noted, or it is the one that makes enough. -/
theorem receive_cases {s s' : Collector} {n threshold : Nat} {stops : Bool} {m : Report} {answer : Option Answer}
    (h : s.receive n threshold stops m = some (s', answer)) :
    (answer = none ∧ s' = s ∧ ∀ p ∈ s.pending, m.requestNumber ≠ p.requestNumber) ∨
    ∃ p ∈ s.pending, m.requestNumber = p.requestNumber ∧
      ((p.note m.replicaId).count n < threshold ∧ answer = none ∧ s'.pending = some (p.note m.replicaId) ∨
        threshold ≤ (p.note m.replicaId).count n ∧ answer = some { op := p.op, result := m.result } ∧
          s'.pending = none) := by
  rw [receive] at h
  cases hp : s.pending with
  | none =>
    rw [hp] at h
    cases h
    exact Or.inl ⟨rfl, rfl, fun p hp' => by cases hp'⟩
  | some p =>
    simp only [hp] at h
    split_ifs at h with hnum hid hfew
    · cases h
      exact Or.inl ⟨rfl, rfl, fun q hq => Option.some.inj hq ▸ hnum⟩
    · cases h
      exact Or.inr ⟨p, rfl, not_not.mp hnum, Or.inl ⟨hfew, rfl, rfl⟩⟩
    · cases h
      exact Or.inr ⟨p, rfl, not_not.mp hnum, Or.inr ⟨Nat.not_lt.mp hfew, rfl, rfl⟩⟩

end Collector

/-- A client that goes on as a `Collector` does. -/
structure ReplyProtocol where
  State : Type
  Msg : Type
  n : Nat
  threshold : Nat
  stops : Bool
  init : State
  invoke : State → String → Option State
  receive : State → Msg → Option (State × Option Answer)
  base : State → Collector
  report : Msg → Report
  threshold_pos : 0 < threshold
  base_init : base init = .initial
  base_invoke : ∀ s op, (invoke s op).map base = (base s).invoke op
  base_receive : ∀ s m, (receive s m).map (fun x => (base x.1, x.2)) = (base s).receive n threshold stops (report m)

/-! ### Replies -/

/-- A result that has been handed over, with the replies to its request that have come, and their senders. -/
structure Handed where
  result : String
  heard : List (Nat × String)
  deriving DecidableEq

/-- At least `threshold` replicas have reported the result. -/
def Handed.Vouched (a : Handed) (threshold : Nat) : Prop :=
  threshold ≤ ((a.heard.filter (·.2 = a.result)).map Prod.fst).toFinset.card

/-- All replicas that have replied have reported the result. -/
def Handed.Agreed (a : Handed) : Prop := ∀ x ∈ a.heard, (x.1, a.result) ∈ a.heard

instance (a : Handed) (threshold : Nat) : Decidable (a.Vouched threshold) := inferInstanceAs (Decidable (_ ≤ _))

instance (a : Handed) : Decidable a.Agreed := inferInstanceAs (Decidable (∀ x ∈ _, _))

namespace ReplyProtocol
variable (P : ReplyProtocol)

/-- A client, the replies to its pending request that have come, and what it has handed over. -/
structure Seen where
  client : P.State
  heard : List (Nat × String)
  handed : List Handed

/-- The application invokes an operation, or a message of replica `sender` arrives. -/
inductive Event where
  | invoke (op : String)
  | reply (sender : Nat) (m : P.Msg)

/-- The message is a reply to the pending request. -/
def Answers (s : P.State) (m : P.Msg) : Prop := ∃ p ∈ (P.base s).pending, (P.report m).requestNumber = p.requestNumber

instance (s : P.State) (m : P.Msg) : Decidable (P.Answers s m) := by
  unfold Answers
  exact inferInstanceAs (Decidable (∃ p ∈ (P.base s).pending, _))

/-- The replies that have come with this one. -/
def hear (x : P.Seen) (sender : Nat) (m : P.Msg) : List (Nat × String) :=
  if P.Answers x.client m then x.heard ++ [(sender, (P.report m).result)] else x.heard

/-- The runs of a client, with any messages in any order. -/
def system : System P.Seen P.Event where
  init := { client := P.init, heard := [], handed := [] }
  step x
    | .invoke op => (P.invoke x.client op).map fun s => { client := s, heard := [], handed := x.handed }
    | .reply sender m => (P.receive x.client m).map fun y =>
        { client := y.1
          heard := P.hear x sender m
          handed := x.handed ++ (y.2.map fun a => { result := a.result, heard := P.hear x sender m }).toList }

/-- A reply names its sender, which is a replica. -/
def Genuine (_ : P.Seen) : P.Event → Prop
  | .invoke _ => True
  | .reply sender m => (P.report m).replicaId = sender ∧ sender < P.n

instance : ∀ (x : P.Seen) (e : P.Event), Decidable (P.Genuine x e)
  | _, .invoke _ => isTrue trivial
  | _, .reply _ _ => inferInstanceAs (Decidable (_ ∧ _))

/-! ### What has been heard -/

/-- The replicas that have replied. -/
def senders (heard : List (Nat × String)) : Finset Nat := (heard.map Prod.fst).toFinset

theorem mem_senders {heard : List (Nat × String)} {i : Nat} : i ∈ senders heard ↔ ∃ r, (i, r) ∈ heard := by
  simp [senders]

theorem senders_concat (heard : List (Nat × String)) (i : Nat) (r : String) :
    senders (heard ++ [(i, r)]) = insert i (senders heard) := by
  ext j
  simp only [mem_senders, List.mem_append, List.mem_singleton, Prod.mk.injEq, Finset.mem_insert, exists_or]
  constructor
  · rintro (⟨s, hs⟩ | ⟨_, rfl, _⟩)
    · exact Or.inr ⟨s, hs⟩
    · exact Or.inl rfl
  · rintro (rfl | ⟨s, hs⟩)
    · exact Or.inr ⟨r, rfl, rfl⟩
    · exact Or.inl ⟨s, hs⟩

/-- When exactly as many as are needed have replied, the result is vouched for if they all have reported it. -/
theorem vouched_iff_agreed {a : Handed} {threshold : Nat} (h : (senders a.heard).card = threshold) :
    a.Vouched threshold ↔ a.Agreed := by
  have hsub : ((a.heard.filter (·.2 = a.result)).map Prod.fst).toFinset ⊆ senders a.heard := by
    intro i hi
    obtain ⟨x, hx, rfl⟩ := List.mem_map.mp (List.mem_toFinset.mp hi)
    exact mem_senders.mpr ⟨x.2, List.mem_of_mem_filter hx⟩
  have hmem (i : Nat) : i ∈ ((a.heard.filter (·.2 = a.result)).map Prod.fst).toFinset ↔ (i, a.result) ∈ a.heard := by
    simp only [List.mem_toFinset, List.mem_map, List.mem_filter, decide_eq_true_eq]
    constructor
    · rintro ⟨⟨_, r⟩, ⟨hx, rfl⟩, rfl⟩
      exact hx
    · exact fun hi => ⟨(i, a.result), ⟨hi, rfl⟩, rfl⟩
  constructor
  · intro hv x hx
    have heq := Finset.eq_of_subset_of_card_le hsub (h.trans_le hv)
    exact (hmem x.1).mp (heq ▸ mem_senders.mpr ⟨x.2, hx⟩)
  · intro hagree
    refine h.symm.trans_le (Finset.card_le_card fun i hi => (hmem i).mpr ?_)
    obtain ⟨r, hr⟩ := mem_senders.mp hi
    exact hagree (i, r) hr

/-- The pending request has noted the replicas that have been heard, which are not yet enough. -/
structure Noted (n threshold : Nat) (p : PendingRequest) (heard : List (Nat × String)) : Prop where
  received : ∀ i, p.received i = true ↔ i ∈ senders heard
  lt : ∀ i ∈ senders heard, i < n
  few : (senders heard).card < threshold

theorem count_eq {n : Nat} {p : PendingRequest} {heard : List (Nat × String)}
    (hrec : ∀ i, p.received i = true ↔ i ∈ senders heard) (hlt : ∀ i ∈ senders heard, i < n) :
    p.count n = (senders heard).card := by
  have hnd : ((List.range n).filter p.received).Nodup := List.nodup_range.filter _
  rw [PendingRequest.count, ← List.toFinset_card_of_nodup hnd]
  congr 1
  ext i
  simp only [List.mem_toFinset, List.mem_filter, List.mem_range, hrec]
  exact ⟨fun h => h.2, fun h => ⟨hlt i h, h⟩⟩

/-- One more reply. -/
theorem Noted.note {n threshold : Nat} {p : PendingRequest} {heard : List (Nat × String)} (h : Noted n threshold p heard)
    {i : Nat} (hi : i < n) (r : String) :
    (∀ j, (p.note i).received j = true ↔ j ∈ senders (heard ++ [(i, r)])) ∧
      (∀ j ∈ senders (heard ++ [(i, r)]), j < n) ∧ (senders (heard ++ [(i, r)])).card ≤ threshold := by
  rw [senders_concat]
  refine ⟨fun j => ?_, fun j hj => ?_, ?_⟩
  · rw [Finset.mem_insert, PendingRequest.note]
    by_cases hj : j = i
    · simp [hj]
    · simp only [Function.update_of_ne hj, h.received, hj, false_or]
  · rcases Finset.mem_insert.mp hj with rfl | hj
    · exact hi
    · exact h.lt j hj
  · exact (Finset.card_insert_le i _).trans h.few

/-! ### Runs -/

/-- What a client has noted, and what it has handed over. -/
structure Inv (x : P.Seen) : Prop where
  noted : ∀ p ∈ (P.base x.client).pending, Noted P.n P.threshold p x.heard
  handed : ∀ a ∈ x.handed, (senders a.heard).card = P.threshold

variable {P} {x x' : P.Seen}

theorem inv_invoke (h : P.Inv x) {op : String} (hst : P.system.step x (.invoke op) = some x') : P.Inv x' := by
  obtain ⟨s, hs, rfl⟩ := Option.map_eq_some_iff.mp hst
  refine ⟨fun p hp => ?_, h.handed⟩
  have hbase := P.base_invoke x.client op
  rw [hs, Option.map_some, Collector.invoke] at hbase
  split at hbase
  · cases hbase
  · rw [Option.some.inj hbase] at hp
    cases hp
    exact ⟨fun i => by simp [senders], fun i hi => by simp [senders] at hi, P.threshold_pos⟩

theorem inv_reply (h : P.Inv x) {sender : Nat} {m : P.Msg} (hg : P.Genuine x (.reply sender m))
    (hst : P.system.step x (.reply sender m) = some x') : P.Inv x' := by
  obtain ⟨⟨s, answer⟩, hy, rfl⟩ := Option.map_eq_some_iff.mp hst
  obtain ⟨hid, hlt⟩ := hg
  have hbase := P.base_receive x.client m
  rw [hy, Option.map_some] at hbase
  rcases Collector.receive_cases hbase.symm with ⟨rfl, hs, hno⟩ | ⟨p, hp, hnum, hrest⟩
  · have hhear : P.hear x sender m = x.heard := if_neg fun ⟨p, hp, hnum⟩ => hno p hp hnum
    exact ⟨by rw [hs, hhear]; exact h.noted, by simpa using h.handed⟩
  · have hhear : P.hear x sender m = x.heard ++ [(sender, (P.report m).result)] := if_pos ⟨p, hp, hnum⟩
    obtain ⟨hrec, hbound, hcard⟩ := (h.noted p hp).note hlt (P.report m).result
    rw [hid] at hrest
    rw [← hhear] at hrec hbound hcard
    rw [count_eq hrec hbound] at hrest
    rcases hrest with ⟨hfew, rfl, hs⟩ | ⟨hmany, rfl, hs⟩
    · refine ⟨fun q hq => ?_, by simpa using h.handed⟩
      cases hs.symm.trans hq
      exact ⟨hrec, hbound, hfew⟩
    · refine ⟨fun q hq => (nomatch hs.symm.trans hq), fun a ha => ?_⟩
      rcases List.mem_append.mp ha with ha | ha
      · exact h.handed a ha
      · obtain rfl := List.mem_singleton.mp ha
        exact Nat.le_antisymm hcard hmany

/-- As long as replies name their senders: what a client hands over has been reported by as many replicas as it
    needs, exactly when all that have replied to the request have reported it. -/
theorem handed_iff {past : List P.Seen} (hr : Run P.system P.Genuine past x) :
    ∀ a ∈ x.handed, a.Vouched P.threshold ↔ a.Agreed := by
  have hinv : P.Inv x := by
    refine hr.invariant (I := fun _ x => P.Inv x) ⟨fun p hp => ?_, fun a ha => by cases ha⟩ ?_
    · have hnone : (P.base P.init).pending = none := by
        rw [P.base_init]
        rfl
      cases hnone.symm.trans hp
    · intro _ x e x' _ h hc hst
      cases e with
      | invoke op => exact inv_invoke h hst
      | reply sender m => exact inv_reply h hc hst
  exact fun a ha => vouched_iff_agreed (hinv.handed a ha)

end ReplyProtocol
end Dsnet
