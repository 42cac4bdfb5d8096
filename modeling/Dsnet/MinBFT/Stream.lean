import Dsnet.MinBFT.Replica

/-! The UI messages of the primary as a stream. A Prepare holds the requests that follow those of the Prepares
    before it, so its UI stands for a range of op numbers, the same one wherever the stream is followed;
    a Commit in between takes a UI but no op number. -/

namespace Dsnet.MinBFT
open Handler

/-! ### Batches -/

/-- The requests that a UI message brings. -/
def UISub.requests : UISub → List Request
  | .prepare m => m.signedRequest
  | .commit _ => []

/-- The requests of a stream. -/
def batched (l : List UISub) : List Request := l.flatMap UISub.requests

/-- The op numbers of the batch with this UI. -/
def rangeOf (l : List UISub) : Nat → Option (Nat × Nat)
  | 0 => none
  | i + 1 =>
    match l[i]? with
    | some (.prepare m) =>
      some ((batched (l.take i)).length + 1, (batched (l.take i)).length + m.signedRequest.length)
    | _ => none

variable {l l' : List UISub} {ui ui' lo hi lo' hi' k : Nat}

theorem batched_append : batched (l ++ l') = batched l ++ batched l' := List.flatMap_append ..

theorem prefix_batched (h : l <+: l') : batched l <+: batched l' := by
  obtain ⟨t, rfl⟩ := h
  rw [batched_append]
  exact List.prefix_append ..

theorem batched_concat (x : UISub) : batched (l ++ [x]) = batched l ++ x.requests := by
  rw [batched_append]
  simp [batched]

/-- The first `i + 1` messages. -/
theorem batched_take_succ {i : Nat} {x : UISub} (h : l[i]? = some x) :
    batched (l.take (i + 1)) = batched (l.take i) ++ x.requests := by
  rw [List.take_add_one, h]
  exact batched_concat x

theorem rangeOf_eq_some : rangeOf l ui = some (lo, hi) ↔ ∃ i m, ui = i + 1 ∧ l[i]? = some (.prepare m) ∧
    lo = (batched (l.take i)).length + 1 ∧ hi = (batched (l.take i)).length + m.signedRequest.length := by
  cases ui with
  | zero => simp [rangeOf]
  | succ i =>
    cases hi' : l[i]? with
    | none => simp [rangeOf, hi']
    | some x =>
      cases x with
      | commit c => simp [rangeOf, hi']
      | prepare m =>
        simp only [rangeOf, hi', Option.some.injEq, Prod.mk.injEq]
        refine ⟨fun h => ⟨i, m, rfl, hi', h.1.symm, h.2.symm⟩, ?_⟩
        rintro ⟨j, m', hj, hm, rfl, rfl⟩
        cases Nat.succ.inj hj
        cases hi'.symm.trans hm
        exact ⟨rfl, rfl⟩

theorem rangeOf_nil : rangeOf [] ui = none := by
  cases ui <;> rfl

theorem rangeOf_mono (hl : l <+: l') (h : rangeOf l ui = some (lo, hi)) : rangeOf l' ui = some (lo, hi) := by
  obtain ⟨i, m, rfl, hm, rfl, rfl⟩ := rangeOf_eq_some.mp h
  have hi := (List.getElem?_eq_some_iff.mp hm).1
  refine rangeOf_eq_some.mpr ⟨i, m, rfl, getElem?_mono hl hm, ?_⟩
  obtain ⟨t, rfl⟩ := hl
  rw [List.take_append_of_le_length hi.le]
  exact ⟨rfl, rfl⟩

/-- A batch ends before a later one begins. -/
theorem rangeOf_lt (h : rangeOf l ui = some (lo, hi)) (h' : rangeOf l ui' = some (lo', hi')) (hlt : ui < ui') :
    hi < lo' := by
  obtain ⟨j, m', rfl, -, rfl, -⟩ := rangeOf_eq_some.mp h'
  obtain ⟨i, m, rfl, hm, rfl, rfl⟩ := rangeOf_eq_some.mp h
  have htake : l.take (i + 1) <+: l.take j := List.take_prefix_take_left (by omega)
  have hpre := (prefix_batched htake).length_le
  rw [batched_take_succ hm, List.length_append] at hpre
  exact Nat.lt_succ_of_le hpre

/-- An op number is in one batch. -/
theorem rangeOf_unique (h : rangeOf l ui = some (lo, hi)) (h' : rangeOf l ui' = some (lo', hi'))
    (hk : lo ≤ k ∧ k ≤ hi) (hk' : lo' ≤ k ∧ k ≤ hi') : ui = ui' := by
  rcases Nat.lt_trichotomy ui ui' with hlt | heq | hlt
  · have := rangeOf_lt h h' hlt
    omega
  · exact heq
  · have := rangeOf_lt h' h hlt
    omega

theorem rangeOf_concat_of_ne (x : UISub) (h : ui ≠ l.length + 1) : rangeOf (l ++ [x]) ui = rangeOf l ui := by
  cases ui with
  | zero => rfl
  | succ i =>
    have hi : i ≠ l.length := fun hi => h (congrArg Nat.succ hi)
    rcases Nat.lt_or_gt_of_ne hi with hi | hi
    · rw [rangeOf, rangeOf, List.getElem?_append_left hi, List.take_append_of_le_length hi.le]
    · rw [rangeOf, rangeOf, List.getElem?_eq_none (by simp; omega), List.getElem?_eq_none hi.le]

/-- A Commit has no range. -/
theorem rangeOf_concat_commit (c : Commit) : rangeOf (l ++ [.commit c]) = rangeOf l := by
  funext ui
  by_cases h : ui = l.length + 1
  · rw [h, rangeOf, rangeOf, List.getElem?_concat_length, List.getElem?_eq_none (Nat.le_refl _)]
  · exact rangeOf_concat_of_ne _ h

/-- The range of a new Prepare. -/
theorem rangeOf_concat_prepare (m : Prepare) : rangeOf (l ++ [.prepare m]) (l.length + 1) =
    some ((batched l).length + 1, (batched l).length + m.signedRequest.length) := by
  refine rangeOf_eq_some.mpr ⟨l.length, m, rfl, List.getElem?_concat_length, ?_⟩
  rw [List.take_left]
  exact ⟨rfl, rfl⟩

/-- The maps of a replica when one more Prepare is entered. -/
theorem update_rangeOf (f : Nat × Nat → Nat) (m : Prepare) :
    Function.update (fun ui => (rangeOf l ui).map f) (l.length + 1)
      (some (f ((batched l).length + 1, (batched l).length + m.signedRequest.length))) =
    fun ui => (rangeOf (l ++ [.prepare m]) ui).map f := by
  funext ui
  by_cases h : ui = l.length + 1
  · subst h
    rw [Function.update_self, rangeOf_concat_prepare]
    rfl
  · rw [Function.update_of_ne h, rangeOf_concat_of_ne _ h]

/-! ### The log -/

variable {s s' : Replica}

/-- These requests have been logged, and nothing else has changed. -/
def Logged (s : Replica) (reqs : List Request) (s' : Replica) : Prop :=
  ∃ log : Log, s' = { s with log := log } ∧ log.contents = s.log.contents ++ reqs.map (Prod.mk s.viewNumber) ∧
    ∀ e ∈ log.entries, e ∈ s.log.entries ∨ e.state = .prepared

theorem append_spec (req : Request) (s : Replica) :
    Sat (append req) s (fun _ s' _ => Logged s [req] s') fun _ _ => False := by
  simp only [append, sat_bind, sat_get, sat_ofOption, sat_modify]
  refine ⟨fun log hlog => ⟨log, rfl, Log.contents_append hlog, fun e he => ?_⟩, fun hnone => ?_⟩
  · rw [(Log.append_eq_some.mp hlog).2] at he
    rcases List.mem_append.mp he with he | he
    · exact Or.inl he
    · rw [List.mem_singleton.mp he]
      exact Or.inr rfl
  · exact Log.append_eq_none.mp hnone (congrArg Nat.succ s.log.lastOpnum_eq)

theorem appendRequests_spec : ∀ (reqs : List Request) (s : Replica),
    Sat (appendRequests reqs) s (fun _ s' _ => Logged s reqs s') fun _ _ => False
  | [], s => ⟨s.log, rfl, (List.append_nil _).symm, fun _ he => Or.inl he⟩
  | req :: reqs, s => by
      rw [appendRequests, sat_bind]
      refine (append_spec req s).mono (fun _ s₁ _ h₁ => ?_) fun _ _ h => h
      obtain ⟨log, rfl, hlog, hmem⟩ := h₁
      refine (appendRequests_spec reqs { s with log := log }).mono (fun _ s₂ _ h₂ => ?_) fun _ _ h => h
      obtain ⟨log', rfl, hlog', hmem'⟩ := h₂
      refine ⟨log', rfl, ?_, fun e he => ?_⟩
      · rw [hlog']
        simp only [hlog, List.append_assoc]
        rfl
      · rcases hmem' e he with he | he
        · exact hmem e he
        · exact Or.inr he

end Dsnet.MinBFT
