import Dsnet.Lib.StdMap

/-! `common/messageset.h`: the messages received from the replicas of several shards, for each of several
    numbers. What is received counts only after the number of shards has been set for it. -/

namespace Dsnet

/-- `MessageSet<IDTYPE, MSGTYPE>`. -/
structure MessageSet (ι μ : Type) where
  replicaRequired : Nat
  messages : ι → Option (StdMap Nat (StdMap Nat μ) × Nat)

namespace MessageSet
variable {ι μ : Type} [DecidableEq ι]

def new (replicaRequired : Nat) : MessageSet ι μ :=
  { replicaRequired := replicaRequired, messages := fun _ => none }

/-- `Clear()`. -/
def clear (s : MessageSet ι μ) : MessageSet ι μ := { s with messages := fun _ => none }

/-- `Remove`. -/
def remove (s : MessageSet ι μ) (vs : ι) : MessageSet ι μ :=
  { s with messages := Function.update s.messages vs none }

/-- `GetMessages`. -/
def getMessages (s : MessageSet ι μ) (vs : ι) : Option (StdMap Nat (StdMap Nat μ)) :=
  (s.messages vs).map Prod.fst

/-- `CheckForQuorum`. -/
def checkForQuorum (s : MessageSet ι μ) (vs : ι) : Option (StdMap Nat (StdMap Nat μ)) :=
  (s.messages vs).bind fun x =>
    if x.1.size ≥ x.2 ∧ ∀ kv ∈ x.1.toList, ¬ kv.2.size < s.replicaRequired then some x.1 else none

/-- `Add`, and the update of `AddAndCheckForQuorum`. -/
def add (s : MessageSet ι μ) (vs : ι) (shard replica : Nat) (msg : μ) : MessageSet ι μ :=
  match s.messages vs with
  | none => s
  | some (m, required) =>
    let m := m.insert shard (((m.find? shard).getD StdMap.empty).insert replica msg)
    { s with messages := Function.update s.messages vs (some (m, required)) }

/-- `SetShardRequired`. -/
def setShardRequired (s : MessageSet ι μ) (vs : ι) (num : Nat) : MessageSet ι μ :=
  let m := ((s.messages vs).map Prod.fst).getD StdMap.empty
  { s with messages := Function.update s.messages vs (some (m, num)) }

/-- The set holds `msg` from a replica of a shard. -/
def Has (s : MessageSet ι μ) (vs : ι) (shard replica : Nat) (msg : μ) : Prop :=
  ∃ m required ms, s.messages vs = some (m, required) ∧ (shard, ms) ∈ m.toList ∧ (replica, msg) ∈ ms.toList

variable {s : MessageSet ι μ} {vs i : ι} {shard replica q r : Nat} {msg msg' : μ}

omit [DecidableEq ι] in
theorem not_has_new (n : Nat) : ¬ (new n : MessageSet ι μ).Has vs shard replica msg := by
  rintro ⟨m, required, ms, h, _⟩
  cases h

omit [DecidableEq ι] in
theorem not_has_clear : ¬ s.clear.Has vs shard replica msg := by
  rintro ⟨m, required, ms, h, _⟩
  cases h

/-- A message of the set after an addition is the new one or was there. -/
theorem has_add (h : (s.add vs shard replica msg).Has i q r msg') :
    (i = vs ∧ q = shard ∧ r = replica ∧ msg' = msg) ∨ s.Has i q r msg' := by
  obtain ⟨m, required, ms, hm, hq, hr⟩ := h
  rw [add] at hm
  cases hs : s.messages vs with
  | none =>
    simp only [hs] at hm
    exact Or.inr ⟨m, required, ms, hm, hq, hr⟩
  | some x =>
    simp only [hs] at hm
    by_cases hi : i = vs
    · subst hi
      simp only [Function.update_self, Option.some.injEq, Prod.mk.injEq] at hm
      obtain ⟨rfl, rfl⟩ := hm
      rcases StdMap.mem_insert hq with heq | hq
      · obtain ⟨rfl, rfl⟩ := Prod.mk.inj heq
        rcases StdMap.mem_insert hr with heq | hr
        · obtain ⟨rfl, rfl⟩ := Prod.mk.inj heq
          exact Or.inl ⟨rfl, rfl, rfl, rfl⟩
        · right
          cases hf : x.1.find? q with
          | none =>
            rw [hf] at hr
            cases hr
          | some ms =>
            rw [hf] at hr
            exact ⟨x.1, x.2, ms, hs, StdMap.mem_of_find? hf, hr⟩
      · exact Or.inr ⟨x.1, x.2, ms, hs, hq, hr⟩
    · rw [Function.update_of_ne hi] at hm
      exact Or.inr ⟨m, required, ms, hm, hq, hr⟩

theorem has_setShardRequired {num : Nat} (h : (s.setShardRequired vs num).Has i q r msg) :
    s.Has i q r msg := by
  obtain ⟨m, required, ms, hm, hq, hr⟩ := h
  rw [setShardRequired] at hm
  by_cases hi : i = vs
  · subst hi
    simp only [Function.update_self, Option.some.injEq, Prod.mk.injEq] at hm
    obtain ⟨rfl, rfl⟩ := hm
    cases hs : s.messages i with
    | none =>
      rw [hs] at hq
      cases hq
    | some x =>
      rw [hs] at hq
      exact ⟨x.1, x.2, ms, hs, hq, hr⟩
  · simp only [Function.update_of_ne hi] at hm
    exact ⟨m, required, ms, hm, hq, hr⟩

theorem has_remove (h : (s.remove vs).Has i q r msg) : s.Has i q r msg := by
  obtain ⟨m, required, ms, hm, hq, hr⟩ := h
  rw [remove] at hm
  by_cases hi : i = vs
  · subst hi
    simp at hm
  · simp only [Function.update_of_ne hi] at hm
    exact ⟨m, required, ms, hm, hq, hr⟩

@[simp] theorem replicaRequired_add :
    (s.add vs shard replica msg).replicaRequired = s.replicaRequired := by
  rw [add]
  split <;> rfl

/-- For how many shards the set waits. -/
def required (s : MessageSet ι μ) (vs : ι) : Option Nat := (s.messages vs).map Prod.snd

@[simp] theorem required_setShardRequired {num : Nat} :
    (s.setShardRequired vs num).required vs = some num := by
  simp [required, setShardRequired]

theorem required_setShardRequired_of_ne {num : Nat} (h : i ≠ vs) :
    (s.setShardRequired vs num).required i = s.required i := by
  simp [required, setShardRequired, Function.update_of_ne h]

theorem required_remove_eq_some {num : Nat} (h : (s.remove vs).required i = some num) :
    s.required i = some num := by
  by_cases hi : i = vs
  · subst hi
    simp [required, remove] at h
  · simpa [required, remove, Function.update_of_ne hi] using h

@[simp] theorem required_add : (s.add vs shard replica msg).required i = s.required i := by
  rw [required, add]
  cases hs : s.messages vs with
  | none => rfl
  | some x =>
    by_cases hi : i = vs
    · subst hi
      simp [required, hs]
    · simp [required, Function.update_of_ne hi]

omit [DecidableEq ι] in
/-- What a quorum is: enough shards, and enough replicas of each. -/
theorem checkForQuorum_eq_some {ms : StdMap Nat (StdMap Nat μ)} (h : s.checkForQuorum vs = some ms) :
    ∃ required, s.messages vs = some (ms, required) ∧ required ≤ ms.size ∧
      ∀ kv ∈ ms.toList, s.replicaRequired ≤ kv.2.size := by
  obtain ⟨⟨m, required⟩, hs, h⟩ := Option.bind_eq_some_iff.mp h
  simp only at h
  split_ifs at h with hq
  cases h
  exact ⟨required, hs, hq.1, fun kv hkv => not_lt.mp (hq.2 kv hkv)⟩

end MessageSet
end Dsnet
