import Dsnet.Lib.StdMap
import Dsnet.Lib.Quorum

/-! `lib/configuration.{h,cc}` and `common/quorumset.h`: group sizes, quorum sizes, and the sets in
    which a replica counts the messages of the others. -/

namespace Dsnet

/-- `Configuration`: `g` groups of `n` replicas, of which `f` may fail. -/
structure Configuration where
  n : Nat
  f : Nat
  g : Nat := 1
  deriving DecidableEq, Repr

namespace Configuration

/-- `Configuration::GetLeaderIndex`. -/
def getLeaderIndex (c : Configuration) (view : Nat) : Nat := view % c.n

/-- `Configuration::QuorumSize`. -/
def quorumSize (c : Configuration) : Nat := c.f + 1

/-- `Configuration::FastQuorumSize`. -/
def fastQuorumSize (c : Configuration) : Nat := c.f + (c.f + 1) / 2 + 1

/-- The group sizes the protocols are run with. -/
def Valid (c : Configuration) : Prop := c.n = 2 * c.f + 1

theorem Valid.leader_lt {c : Configuration} (h : c.Valid) (view : Nat) :
    c.getLeaderIndex view < c.n := Nat.mod_lt _ (by rw [h]; omega)

end Configuration

/-- `QuorumSet<IDTYPE, MSGTYPE>`. -/
structure QuorumSet (ι μ : Type) where
  numRequired : Nat
  messages : ι → StdMap Nat μ

namespace QuorumSet
variable {ι μ : Type}

def new (numRequired : Nat) : QuorumSet ι μ := ⟨numRequired, fun _ => StdMap.empty⟩

/-- `Clear()`. -/
def clear (q : QuorumSet ι μ) : QuorumSet ι μ := { q with messages := fun _ => StdMap.empty }

/-- `CheckForQuorum`. -/
def checkForQuorum (q : QuorumSet ι μ) (vs : ι) : Option (StdMap Nat μ) :=
  if (q.messages vs).size ≥ q.numRequired then some (q.messages vs) else none

/-- The update of `AddAndCheckForQuorum`: a later message of a replica replaces its earlier one. -/
def add [DecidableEq ι] (q : QuorumSet ι μ) (vs : ι) (replicaIdx : Nat) (msg : μ) : QuorumSet ι μ :=
  { q with messages := fun i => if i = vs then (q.messages vs).insert replicaIdx msg
                                else q.messages i }

@[simp] theorem numRequired_clear (q : QuorumSet ι μ) : q.clear.numRequired = q.numRequired := rfl

@[simp] theorem numRequired_add [DecidableEq ι] (q : QuorumSet ι μ) (vs : ι) (r : Nat) (m : μ) :
    (q.add vs r m).numRequired = q.numRequired := rfl

@[simp] theorem messages_clear (q : QuorumSet ι μ) (vs : ι) :
    q.clear.messages vs = StdMap.empty := rfl

theorem messages_add_self [DecidableEq ι] (q : QuorumSet ι μ) (vs : ι) (r : Nat) (m : μ) :
    (q.add vs r m).messages vs = (q.messages vs).insert r m := if_pos rfl

/-- A message of the set after an addition is the new one or was there. -/
theorem mem_messages_add [DecidableEq ι] {q : QuorumSet ι μ} {vs i : ι} {r : Nat} {m : μ} {x : Nat × μ}
    (h : x ∈ ((q.add vs r m).messages i).toList) :
    (i = vs ∧ x = (r, m)) ∨ x ∈ (q.messages i).toList := by
  unfold add at h
  simp only at h
  split_ifs at h with hi
  · subst hi
    exact (StdMap.mem_insert h).imp_left (fun hx => ⟨rfl, hx⟩)
  · exact Or.inr h

/-- A quorum is the stored set, of at least the required size. -/
theorem checkForQuorum_eq_some {q : QuorumSet ι μ} {vs : ι} {ms : StdMap Nat μ} :
    q.checkForQuorum vs = some ms ↔ ms = q.messages vs ∧ q.numRequired ≤ ms.size := by
  unfold checkForQuorum
  split_ifs with h
  · constructor
    · rintro ⟨rfl⟩
      exact ⟨rfl, h⟩
    · rintro ⟨rfl, _⟩
      rfl
  · simp only [false_iff]
    rintro ⟨rfl, h'⟩
    exact h h'

/-- A replica and those whose messages it counts. -/
theorem isQuorum_of_counted {n q r : Nat} {msgs : StdMap Nat μ} {p : Nat × μ → Bool} (hr : r < n)
    (hcount : q - 1 ≤ msgs.toList.countP p)
    (hall : ∀ x ∈ msgs.toList, p x = true → x.1 ≠ r ∧ x.1 < n) :
    ∃ Q, IsQuorum n q Q ∧ r ∈ Q ∧ ∀ i ∈ Q, i = r ∨ ∃ m, (i, m) ∈ msgs.toList ∧ p (i, m) = true := by
  have hmem : ∀ i ∈ ((msgs.toList.filter p).map Prod.fst).toFinset,
      ∃ m, (i, m) ∈ msgs.toList ∧ p (i, m) = true := by
    intro i hi
    obtain ⟨x, hx, rfl⟩ := List.mem_map.mp (List.mem_toFinset.mp hi)
    exact ⟨x.2, List.mem_filter.mp hx⟩
  refine ⟨insert r ((msgs.toList.filter p).map Prod.fst).toFinset, ⟨?_, fun i hi => ?_⟩,
    Finset.mem_insert_self .., fun i hi => (Finset.mem_insert.mp hi).imp_right (hmem i)⟩
  · rw [Finset.card_insert_of_notMem, StdMap.card_keys_filter]
    · omega
    · intro h
      obtain ⟨m, hm, hp⟩ := hmem r h
      exact (hall _ hm hp).1 rfl
  · rcases Finset.mem_insert.mp hi with rfl | hi
    · exact hr
    · obtain ⟨m, hm, hp⟩ := hmem i hi
      exact (hall _ hm hp).2

end QuorumSet
end Dsnet
