import Dsnet.HotStuff.Replica

/-! What the order of execution depends on in the state of a HotStuff replica, and how the handlers
    change it: the loop of `EnterNextView` executes a piece of the log, and a block that comes next
    extends the log. -/

namespace Dsnet.HotStuff
open Handler

/-! ### Slots of a log -/

/-- The request of an entry, if it has one. -/
def slot (e : LogEntry) : Option Request := if e.state = .noop then none else some e.request

/-- The requests of a log, with the empty entries. -/
def slots (l : Log) : List (Option Request) := l.entries.map slot

/-- The requests with their op numbers: what executing all of them in order gives. -/
def operations (l : List (Option Request)) : List (Nat × Request) :=
  (l.zipIdx 1).filterMap fun x => x.1.map fun req => (x.2, req)

@[simp] theorem length_slots (l : Log) : (slots l).length = l.entries.length := List.length_map ..

theorem lastOpnum_eq_slots (l : Log) : l.lastOpnum = (slots l).length := by
  rw [l.lastOpnum_eq, length_slots]

theorem operations_append (l l' : List (Option Request)) : operations (l ++ l') =
    operations l ++ (l'.zipIdx (1 + l.length)).filterMap fun x => x.1.map fun req => (x.2, req) := by
  rw [operations, List.zipIdx_append, List.filterMap_append, operations]

theorem prefix_operations {l l' : List (Option Request)} (h : l <+: l') :
    operations l <+: operations l' := by
  obtain ⟨t, rfl⟩ := h
  rw [operations_append]
  exact List.prefix_append ..

/-- The next slot. -/
theorem operations_take_succ {l : List (Option Request)} {k : Nat} {x : Option Request}
    (h : l[k]? = some x) :
    operations (l.take (k + 1)) = operations (l.take k) ++ (x.map fun req => (k + 1, req)).toList := by
  have hk : k < l.length := (List.getElem?_eq_some_iff.mp h).1
  rw [List.take_add_one, h, operations_append, List.length_take_of_le hk.le]
  cases x with
  | none => rfl
  | some req => simp [Nat.add_comm]

theorem operations_eq_nil {l : List (Option Request)} (h : ∀ x ∈ l, x = none) : operations l = [] := by
  refine List.filterMap_eq_nil_iff.mpr fun x hx => ?_
  rw [h x.1 (List.fst_mem_of_mem_zipIdx hx)]
  rfl

/-- What two replicas have executed of one log. -/
theorem operations_take_or (l : List (Option Request)) (j k : Nat) :
    operations (l.take j) <+: operations (l.take k) ∨ operations (l.take k) <+: operations (l.take j) := by
  rcases le_total j k with h | h
  · exact Or.inl (prefix_operations (List.take_prefix_take_left h))
  · exact Or.inr (prefix_operations (List.take_prefix_take_left h))

theorem slots_append {l l' : Log} {e : LogEntry} (h : l.append e = some l') :
    slots l' = slots l ++ [slot e] := by
  rw [slots, (Log.append_eq_some.mp h).2, List.map_append]
  rfl

theorem slot_of_find {l : Log} {k : Nat} {e : LogEntry} (h : l.find k = some e) :
    1 ≤ k ∧ (slots l)[k - 1]? = some (slot e) := by
  obtain ⟨hk, he⟩ := Log.find_eq_some.mp h
  exact ⟨hk, by rw [slots, List.getElem?_map, he]; rfl⟩

/-- A request that is executed stays where it is. -/
theorem slots_setStatus {l : Log} {k : Nat} {e : LogEntry} (h : l.find k = some e)
    (he : e.state ≠ .noop) : slots (l.setStatus k .committed) = slots l := by
  obtain ⟨hk, hke⟩ := Log.find_eq_some.mp h
  refine List.ext_getElem? fun i => ?_
  rw [slots, slots, List.getElem?_map, List.getElem?_map, Log.getElem?_entries_setStatus, Option.map_map]
  by_cases hi : i + 1 = k
  · have hik : i = k - 1 := by omega
    simp only [if_pos hi]
    rw [hik, hke]
    simp [slot, he]
  · simp only [if_neg hi]
    rfl

/-! ### Outlines -/

/-- What the order of execution depends on. -/
structure Outline where
  genericQC : Option QC
  lockedQC : Option QC
  pending : Block
  blockBuffer : StdMap Nat Block
  slots : List (Option Request)
  executed : List (Nat × Request)

/-- The outline of a replica. -/
def Replica.outline (s : Replica) : Outline where
  genericQC := s.genericQC
  lockedQC := s.lockedQC
  pending := s.pending
  blockBuffer := s.blockBuffer
  slots := HotStuff.slots s.log
  executed := s.executed

variable {E : Env} {s : Replica}

@[simp] theorem outline_ensureStarted (s : Replica) (t : Timer) :
    (s.ensureStarted t).outline = s.outline := by
  rw [Replica.ensureStarted]
  split_ifs <;> rfl

theorem outline_addPending (s : Replica) (req : Request) : (s.addPending req).outline =
    { s.outline with pending := { s.outline.pending with request := s.outline.pending.request ++ [req] } } := rfl

@[simp] theorem outline_requested (s : Replica) (remote : Addr) (req : Request) :
    (s.requested remote req).outline = s.outline := rfl

theorem append_spec (e : LogEntry) (s : Replica) :
    Sat (append e) s
      (fun _ s' _ => e.opnum = s.outline.slots.length + 1 ∧
        s'.outline = { s.outline with slots := s.outline.slots ++ [slot e] })
      fun s' _ => e.opnum ≠ s.outline.slots.length + 1 ∧ s' = s := by
  simp only [append, sat_bind, sat_get, sat_ofOption, sat_modify]
  refine ⟨fun log hlog => ⟨?_, ?_⟩, fun hnone => ⟨?_, trivial⟩⟩
  · rw [(Log.append_eq_some.mp hlog).1, ← length_slots]
    rfl
  · simp only [Replica.outline, slots_append hlog]
    rfl
  · have := Log.append_eq_none.mp hnone
    rwa [← length_slots] at this

/-! ### Executing -/

/-- The operations up to `k` have been executed. -/
def Outline.doneTo (o : Outline) (k : Nat) : Outline := { o with executed := operations (o.slots.take k) }

/-- One operation is executed, if its slot has one. -/
theorem executeOp_spec (k : Nat) (s : Replica) :
    Sat (executeOp E (k + 1)) s
      (fun _ s' _ => k < s.outline.slots.length ∧
        (s.outline = s.outline.doneTo k → s'.outline = s.outline.doneTo (k + 1)))
      fun s' _ => s'.outline = s.outline := by
  simp only [executeOp, sat_bind, sat_get, sat_ite, sat_abort, sat_ofOption, sat_pure, sat_modify,
    sat_whenSome, sat_emit]
  refine ⟨fun _ => trivial, fun hlast => ⟨fun e he => ?_, fun _ => trivial⟩⟩
  rw [lastOpnum_eq_slots] at hlast
  have hlt : k < s.outline.slots.length := not_lt.mp hlast
  obtain ⟨-, hslot⟩ := slot_of_find he
  have hnext := operations_take_succ hslot
  refine ⟨fun hno => ⟨hlt, fun hdone => ?_⟩, fun hno => ?_⟩
  · rw [slot, if_pos hno, Option.map_none, Option.toList_none, List.append_nil,
      Nat.add_sub_cancel] at hnext
    rw [hdone]
    simp only [Outline.doneTo, Replica.outline, hnext]
  · rw [slot, if_neg hno, Nat.add_sub_cancel] at hnext
    have hout : ∀ table, s.outline = s.outline.doneTo k → Replica.outline { s with
        log := s.log.setStatus (k + 1) .committed
        upcalls := s.upcalls ++ [.execute (k + 1) e.request]
        clientTable := table } = s.outline.doneTo (k + 1) := by
      intro table hdone
      have hexec : s.executed = operations ((slots s.log).take k) := congrArg Outline.executed hdone
      simp only [Replica.outline, Outline.doneTo, Replica.executed, executions_append,
        slots_setStatus he hno, hnext]
      rw [← hexec]
      rfl
    exact ⟨fun c _ => ⟨hlt, hout _⟩, fun _ => ⟨hlt, hout _⟩⟩

/-- A piece of the log is executed. -/
theorem executeOps_spec : ∀ (m k : Nat) {s : Replica}, k ≤ s.outline.slots.length →
    s.outline = s.outline.doneTo k →
    Sat (forEach (List.range' (k + 1) m) (executeOp E)) s
      (fun _ s' _ => k + m ≤ s.outline.slots.length ∧ s'.outline = s.outline.doneTo (k + m))
      fun s' _ => ∃ j, s'.outline = s.outline.doneTo j
  | 0, k, s, hk, hs => ⟨hk, hs⟩
  | m + 1, k, s, hk, hs => by
      rw [List.range'_succ, forEach, sat_bind]
      refine (executeOp_spec k s).mono (fun _ s₁ _ h₁ => ?_) fun s' _ hs' => ⟨k, hs'.trans hs⟩
      obtain ⟨hlt, h₁⟩ := h₁
      have h₁ := h₁ hs
      have hs₁ : s₁.outline = s₁.outline.doneTo (k + 1) := by
        rw [h₁]
        rfl
      have hk₁ : k + 1 ≤ s₁.outline.slots.length := by
        rw [h₁]
        exact hlt
      have hadd : k + 1 + m = k + (m + 1) := by omega
      refine (executeOps_spec m (k + 1) hk₁ hs₁).mono (fun _ s' _ h' => ?_) fun s' _ h' => ?_
      · rw [hadd, h₁] at h'
        exact h'
      · obtain ⟨j, hj⟩ := h'
        refine ⟨j, ?_⟩
        rw [hj, h₁]
        rfl

/-- A piece that begins beyond the log is not executed. -/
theorem executeOps_beyond {k m : Nat} (hk : s.outline.slots.length < k) (hm : 0 < m) :
    Sat (forEach (List.range' k m) (executeOp E)) s (fun _ _ _ => False) fun s' _ => s' = s := by
  obtain ⟨m, rfl⟩ := Nat.exists_eq_add_of_le' hm
  have hlast : s.log.lastOpnum < k := by rwa [lastOpnum_eq_slots]
  rw [List.range'_succ, forEach, sat_bind, executeOp, sat_bind, sat_get, sat_ite]
  exact ⟨fun _ => rfl, fun h => (h hlast).elim⟩

/-! ### Blocks -/

/-- The slots of a block. -/
def Block.slots (b : Block) : List (Option Request) := none :: b.request.map some

theorem appendRequests_spec : ∀ (reqs : List Request) (k : Nat) (s : Replica),
    Sat (appendRequests k reqs) s
      (fun _ s' _ => s'.outline = { s.outline with slots := s.outline.slots ++ reqs.map some })
      fun _ _ => k ≠ s.outline.slots.length + 1
  | [], k, s => by simp [appendRequests]
  | req :: reqs, k, s => by
      rw [appendRequests, sat_bind]
      refine (append_spec (requestEntry k req) s).mono (fun _ s₁ _ h₁ => ?_) fun _ _ h => h.1
      obtain ⟨hk, h₁⟩ := h₁
      have hlen : s₁.outline.slots.length = s.outline.slots.length + 1 := by simp [h₁]
      refine (appendRequests_spec reqs (k + 1) s₁).mono (fun _ s' _ h' => ?_) fun _ _ h => ?_
      · rw [h', h₁]
        simp [slot, requestEntry]
      · have hk : k = s.outline.slots.length + 1 := hk
        omega

/-- The block is logged when it comes next. -/
theorem appendBlock_spec (b : Block) (s : Replica) :
    Sat (appendBlock b) s
      (fun _ s' _ => b.opNumber = s.outline.slots.length + 1 ∧
        s'.outline = { s.outline with slots := s.outline.slots ++ b.slots })
      fun s' _ => s' = s := by
  rw [appendBlock, sat_bind]
  refine (append_spec (noopEntry b.opNumber) s).mono (fun _ s₁ _ h₁ => ?_) fun _ _ h => h.2
  obtain ⟨hk, h₁⟩ := h₁
  have hlen : s₁.outline.slots.length = s.outline.slots.length + 1 := by simp [h₁]
  refine (appendRequests_spec b.request (b.opNumber + 1) s₁).mono (fun _ s' _ h' => ⟨hk, ?_⟩)
    fun _ _ h => ?_
  · rw [h', h₁]
    simp [slot, noopEntry, Block.slots]
  · have hk : b.opNumber = s.outline.slots.length + 1 := hk
    omega

end Dsnet.HotStuff
