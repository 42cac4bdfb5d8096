import Dsnet.Eris.Handlers

/-! The order of `ErisServer::pendingRequests`. A request of an earlier session is less, but then the message
    numbers are compared whichever the sessions are: of two requests of different sessions each can be less
    than the other. The comparator is an order just where message numbers do not fall from one session to a
    later one, and there it is that of the pairs of a session and a message number. -/

namespace Dsnet.Eris

variable {reqs : List PendingRequest} {x y z : PendingRequest}

/-- The session number and the message number. -/
def PendingRequest.key (r : PendingRequest) : Nat ×ₗ Nat := toLex (r.sessnum, r.msgnum)

theorem PendingRequest.key_lt : x.key < y.key ↔
    x.sessnum < y.sessnum ∨ x.sessnum = y.sessnum ∧ x.msgnum < y.msgnum := Prod.Lex.toLex_lt_toLex

theorem PendingRequest.less_iff : x.less y = true ↔ x.sessnum < y.sessnum ∨ x.msgnum < y.msgnum := by
  simp [less]

/-- Message numbers do not fall from one session to a later one. -/
def InStep (reqs : List PendingRequest) : Prop :=
  ∀ x ∈ reqs, ∀ y ∈ reqs, x.sessnum < y.sessnum → x.msgnum ≤ y.msgnum

/-- There the comparator is the order of the pairs. -/
theorem InStep.less_iff (h : InStep reqs) (hx : x ∈ reqs) (hy : y ∈ reqs) :
    x.less y = true ↔ x.key < y.key := by
  rw [PendingRequest.less_iff, PendingRequest.key_lt]
  constructor
  · rintro (hsess | hmsg)
    · exact Or.inl hsess
    · rcases Nat.lt_trichotomy x.sessnum y.sessnum with hlt | heq | hgt
      · exact Or.inl hlt
      · exact Or.inr ⟨heq, hmsg⟩
      · exact absurd (h y hy x hx hgt) (Nat.not_le_of_lt hmsg)
  · rintro (hsess | ⟨-, hmsg⟩)
    · exact Or.inl hsess
    · exact Or.inr hmsg

/-- Two requests of different sessions can each be less than the other. -/
theorem less_both (hsess : x.sessnum < y.sessnum) (hmsg : y.msgnum < x.msgnum) :
    x.less y = true ∧ y.less x = true :=
  ⟨PendingRequest.less_iff.mpr (Or.inl hsess), PendingRequest.less_iff.mpr (Or.inr hmsg)⟩

/-! ### The set -/

/-- The set after these requests have been inserted. -/
def buffered (reqs : List PendingRequest) : List PendingRequest :=
  reqs.foldl (fun set r => insertPending r set) []

theorem insertPending_subset (r : PendingRequest) : ∀ {l : List PendingRequest},
    x ∈ insertPending r l → x = r ∨ x ∈ l
  | [], h => Or.inl (List.mem_singleton.mp h)
  | y :: ys, h => by
      rw [insertPending] at h
      split_ifs at h
      · rcases List.mem_cons.mp h with rfl | hys
        · exact Or.inr (List.mem_cons_self ..)
        · exact (insertPending_subset r hys).imp_right (List.mem_cons_of_mem y)
      · exact (List.mem_cons.mp h)
      · exact Or.inr h

/-- What was in the set stays, and one with the key of the new request is there. -/
theorem insertPending_keys (h : InStep reqs) {r : PendingRequest} (hr : r ∈ reqs) :
    ∀ {l : List PendingRequest}, (∀ x ∈ l, x ∈ reqs) →
      (∀ x ∈ l, x ∈ insertPending r l) ∧ ∃ x ∈ insertPending r l, x.key = r.key
  | [], _ => ⟨fun _ hx => absurd hx List.not_mem_nil, r, List.mem_singleton_self r, rfl⟩
  | y :: ys, hl => by
      have hy := hl y (List.mem_cons_self ..)
      obtain ⟨hkeep, x, hx, hkey⟩ := insertPending_keys h hr fun x hx => hl x (List.mem_cons_of_mem y hx)
      rw [insertPending]
      split_ifs with hyr hry
      · refine ⟨fun z hz => ?_, x, List.mem_cons_of_mem y hx, hkey⟩
        rcases List.mem_cons.mp hz with rfl | hz
        · exact List.mem_cons_self ..
        · exact List.mem_cons_of_mem y (hkeep z hz)
      · exact ⟨fun z hz => List.mem_cons_of_mem r hz, r, List.mem_cons_self .., rfl⟩
      · refine ⟨fun z hz => hz, y, List.mem_cons_self .., ?_⟩
        rw [h.less_iff hy hr] at hyr
        rw [h.less_iff hr hy] at hry
        exact le_antisymm (le_of_not_gt hry) (le_of_not_gt hyr)

/-- The set stays in the order of the keys. -/
theorem insertPending_pairwise (h : InStep reqs) {r : PendingRequest} (hr : r ∈ reqs) :
    ∀ {l : List PendingRequest}, (∀ x ∈ l, x ∈ reqs) → l.Pairwise (·.key < ·.key) →
      (insertPending r l).Pairwise (·.key < ·.key)
  | [], _, _ => List.pairwise_singleton ..
  | y :: ys, hl, hp => by
      have hy := hl y (List.mem_cons_self ..)
      obtain ⟨hyys, hys⟩ := List.pairwise_cons.mp hp
      rw [insertPending]
      split_ifs with hyr hry
      · refine List.pairwise_cons.mpr ⟨fun z hz => ?_,
          insertPending_pairwise h hr (fun x hx => hl x (List.mem_cons_of_mem y hx)) hys⟩
        rcases insertPending_subset r hz with rfl | hz
        · exact (h.less_iff hy hr).mp hyr
        · exact hyys z hz
      · have hlt := (h.less_iff hr hy).mp hry
        refine List.pairwise_cons.mpr ⟨fun z hz => ?_, hp⟩
        rcases List.mem_cons.mp hz with rfl | hz
        · exact hlt
        · exact hlt.trans (hyys z hz)
      · exact hp

/-- All that is in the set has been inserted, and one with the key of each request is in it. -/
theorem buffered_keys (h : InStep reqs) : (∀ x ∈ buffered reqs, x ∈ reqs) ∧
    (buffered reqs).Pairwise (·.key < ·.key) ∧ ∀ r ∈ reqs, ∃ x ∈ buffered reqs, x.key = r.key := by
  have hfold : ∀ (rs l : List PendingRequest), (∀ r ∈ rs, r ∈ reqs) → (∀ x ∈ l, x ∈ reqs) →
      l.Pairwise (·.key < ·.key) →
      (∀ x ∈ rs.foldl (fun set r => insertPending r set) l, x ∈ reqs) ∧
      (rs.foldl (fun set r => insertPending r set) l).Pairwise (·.key < ·.key) ∧
      (∀ x ∈ l, x ∈ rs.foldl (fun set r => insertPending r set) l) ∧
      ∀ r ∈ rs, ∃ x ∈ rs.foldl (fun set r => insertPending r set) l, x.key = r.key := by
    intro rs
    induction rs with
    | nil => exact fun l _ hl hp => ⟨hl, hp, fun _ hx => hx, fun r hr => absurd hr List.not_mem_nil⟩
    | cons r rs ih =>
      intro l hrs hl hp
      have hr := hrs r (List.mem_cons_self ..)
      obtain ⟨hkeep, z, hz, hzkey⟩ := insertPending_keys h hr hl
      have hl' : ∀ x ∈ insertPending r l, x ∈ reqs := fun x hx =>
        (insertPending_subset r hx).elim (fun he => he ▸ hr) (hl x)
      obtain ⟨hin, hsorted, hstays, hkeys⟩ := ih (insertPending r l)
        (fun x hx => hrs x (List.mem_cons_of_mem r hx)) hl' (insertPending_pairwise h hr hl hp)
      refine ⟨hin, hsorted, fun x hx => hstays x (hkeep x hx), fun x hx => ?_⟩
      rcases List.mem_cons.mp hx with rfl | hx
      · exact ⟨z, hstays z hz, hzkey⟩
      · exact hkeys x hx
  obtain ⟨hin, hsorted, -, hkeys⟩ := hfold reqs [] (fun _ hr => hr) (fun x hx => absurd hx List.not_mem_nil)
    List.Pairwise.nil
  exact ⟨hin, hsorted, hkeys⟩

/-- The comparator is a strict weak order on these requests, and `begin()` has the least pair of a session
    and a message number. -/
structure Ordered (reqs : List PendingRequest) : Prop where
  strictWeak : IsStrictWeakOrder {x // x ∈ reqs} fun x y => x.1.less y.1 = true
  least : ∀ first, (buffered reqs).head? = some first → first ∈ reqs ∧ ∀ r ∈ reqs, first.key ≤ r.key

/-- A replica of a group of three. -/
def bufferingServer : ServerEnv Unit :=
  { config := { n := 3, f := 1 }, groupIdx := 0, replicaIdx := 1
    app := { init := (), invokeTransaction := fun _ _ => pure ("", ⟨0, false, true, StdSet.empty, .normal⟩) } }

/-- The transaction that has this number in a session. -/
def stampedTxn (sessnum msgnum : Nat) : RequestMessage :=
  { txnid := 1, type := .independent
    request := { op := "x", clientid := 7, clientreqid := 1, ops := [⟨0, "x", msgnum⟩], sessnum := sessnum } }

end Dsnet.Eris
