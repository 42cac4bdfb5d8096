import Dsnet.NOPaxos.Logging

/-! `NOPaxosReplica::HandleStateTransferReply`. The loop over the entries of a reply takes the slots one by one and
    asserts that each is the next one, but `ProcessNextOperation` goes on over the committed gaps that follow,
    and the check for the end of the transfer compares the slot that is logged with `stateTransferOpEnd`,
    which is the first slot after the range. -/

namespace Dsnet.NOPaxos
open Handler

variable {E : Env} {s s' : Replica} {t t' : Replica × Nat}

/-! ### The loop over the entries -/

/-- The entry with which slot `e.opnum` is logged when a reply has `e` for it. -/
def installedEntry (gaps : StdSet Nat) (e : LogEntry) : LogEntry :=
  { viewstamp := { view := e.view, opnum := e.opnum, sessnum := e.viewstamp.sessnum, msgnum := e.viewstamp.msgnum }
    state := if e.opnum ∈ gaps.toList then .noop else e.state
    request := e.request }

theorem loggedEntry_eq (s : Replica) (e : LogEntry) :
    loggedEntry s e.request { view := e.view, opnum := e.opnum, sessnum := e.viewstamp.sessnum
                              msgnum := e.viewstamp.msgnum } e.state = installedEntry s.committedGaps e := rfl

/-- Slots that have not been logged are committed gaps after as before. -/
theorem Logged.mem_gaps {es : List LogEntry} (h : Logged E s s' es) {x : Nat} (hx : s'.lastOp < x) :
    x ∈ s'.committedGaps.toList ↔ x ∈ s.committedGaps.toList := by
  rw [h.gaps]
  refine ⟨fun h' => h'.resolve_right ?_, Or.inl⟩
  rintro ⟨e, he, -, rfl⟩
  obtain ⟨i, hi⟩ := List.mem_iff_getElem?.mp he
  have hnum := h.numbered i e hi
  have hlt := (List.getElem?_eq_some_iff.mp hi).1
  have hlast := h.lastOp
  omega

/-- An entry is installed, and the slots after it that are committed gaps. -/
theorem installTransferred_spec (e : LogEntry) (s : Replica) :
    Sat (installTransferred E e) s
      (fun _ s' _ => e.opnum = s.lastOp + 1 ∧ ∃ es, Logged E s s' (installedEntry s.committedGaps e :: es) ∧
        (∀ x ∈ es, x.state = .noop ∧ x.opnum ∈ s.committedGaps.toList) ∧
        s'.lastOp + 1 ∉ s'.committedGaps.toList)
      fun _ _ => e.opnum = s.lastOp + 1 → ¬ s.Sound E := by
  simp only [installTransferred, sat_bind, sat_get, sat_assert]
  refine ⟨fun hop => ?_, fun hne h => absurd h hne⟩
  refine (processNextOperation_spec e.request
    { view := e.view, opnum := e.opnum, sessnum := e.viewstamp.sessnum, msgnum := e.viewstamp.msgnum }
    e.state hop).mono (fun _ s' _ h => ?_) fun _ _ h _ => h
  obtain ⟨es, hl, h⟩ := h
  rw [loggedEntry_eq] at hl
  exact ⟨hop, es, hl, h⟩

/-- No gap lies among the slots after the first: every entry finds its slot. -/
theorem installAll_spec : ∀ (es : List LogEntry) (s : Replica), Log.NumberedFrom (s.lastOp + 1) es →
    (∀ x ∈ s.committedGaps.toList, ¬ (s.lastOp + 1 < x ∧ x < s.lastOp + 1 + es.length)) →
    Sat (forEach es (installTransferred E)) s
      (fun _ s' _ => ∃ extra, Logged E s s' (es.map (installedEntry s.committedGaps) ++ extra))
      fun _ _ => ¬ s.Sound E
  | [], s, _, _ => ⟨[], .refl s⟩
  | e :: es, s, hnum, hgap => by
      obtain ⟨he, hes⟩ := Log.numberedFrom_cons.mp hnum
      simp only [forEach, sat_bind]
      refine (installTransferred_spec e s).mono (fun _ s₁ _ h₁ => ?_) fun _ _ h => h he
      obtain ⟨-, gaps, hl₁, hgaps, -⟩ := h₁
      -- a slot that is logged without an entry of the reply is a gap, and comes after all of them
      have hextra : es ≠ [] → gaps = [] := by
        intro hne
        cases gaps with
        | nil => rfl
        | cons g gs =>
          have h2 := hl₁.numbered 1 g rfl
          have hpos := List.length_pos_iff.mpr hne
          refine absurd ?_ (hgap g.opnum (hgaps g (List.mem_cons_self ..)).2)
          simp only [List.length_cons]
          omega
      by_cases hne : es = []
      · subst hne
        exact ⟨gaps, by simpa [forEach] using hl₁⟩
      · obtain rfl := hextra hne
        have hlast : s₁.lastOp = s.lastOp + 1 := hl₁.lastOp
        refine (installAll_spec es s₁ (by rwa [hlast]) fun x hx hin => ?_).mono (fun _ s₂ _ h₂ => ?_)
          fun _ _ h hs => h (hl₁.sound hs)
        · refine hgap x ((hl₁.mem_gaps (by omega)).mp hx) ?_
          simp only [List.length_cons]
          omega
        · obtain ⟨extra, hl₂⟩ := h₂
          refine ⟨extra, ?_⟩
          have hmap : es.map (installedEntry s₁.committedGaps) = es.map (installedEntry s.committedGaps) := by
            refine List.map_congr_left fun x hx => ?_
            obtain ⟨i, hi⟩ := List.mem_iff_getElem?.mp hx
            have := hes i x hi
            simp only [installedEntry, hl₁.mem_gaps (show s₁.lastOp < x.opnum by omega)]
          rw [List.map_cons, ← hmap]
          exact hl₁.trans hl₂

/-- A gap among them: the entry of the gap's slot comes when the slot has been logged already. -/
theorem installAll_stopped : ∀ (es : List LogEntry) (s : Replica), Log.NumberedFrom (s.lastOp + 1) es →
    (∃ x ∈ s.committedGaps.toList, s.lastOp + 1 < x ∧ x < s.lastOp + 1 + es.length) →
    Sat (forEach es (installTransferred E)) s (fun _ _ _ => False) fun _ _ => True
  | [], s, _, h => by
      obtain ⟨x, -, hlt, hlt'⟩ := h
      simp only [List.length_nil] at hlt'
      omega
  | e :: es, s, hnum, h => by
      obtain ⟨x, hx, hlt, hlt'⟩ := h
      obtain ⟨he, hes⟩ := Log.numberedFrom_cons.mp hnum
      simp only [List.length_cons] at hlt'
      simp only [forEach, sat_bind]
      refine (installTransferred_spec e s).mono (fun _ s₁ _ h₁ => ?_) fun _ _ _ => trivial
      obtain ⟨-, gaps, hl₁, hgaps, hend⟩ := h₁
      have hlast : s₁.lastOp = s.lastOp + (gaps.length + 1) := hl₁.lastOp
      by_cases hnil : gaps = []
      · subst hnil
        simp only [List.length_nil, Nat.zero_add] at hlast
        refine installAll_stopped es s₁ (by rwa [hlast]) ⟨x, ?_, ?_, by omega⟩
        · exact (hl₁.mem_gaps (by omega)).mpr hx
        · -- the next slot is no gap, or it would have been logged
          have hne : x ≠ s₁.lastOp + 1 := by
            rintro rfl
            exact hend ((hl₁.mem_gaps (by omega)).mpr hx)
          omega
      · have hpos := List.length_pos_iff.mpr hnil
        cases es with
        | nil =>
          simp only [List.length_nil] at hlt'
          omega
        | cons e' es =>
          have he' := (Log.numberedFrom_cons.mp hes).1
          simp only [forEach, sat_bind]
          refine (installTransferred_spec e' s₁).mono (fun _ s₂ _ h₂ => ?_) fun _ _ _ => trivial
          obtain ⟨hop, -⟩ := h₂
          omega

/-! ### A reply -/

/-- The reply is of the replica's view and has an entry for every slot from `begin` to `end`, the next slot of
    the replica among them. -/
structure Covers (s : Replica) (m : StateTransferReplyMessage) : Prop where
  sessnum : m.sessnum = s.sessnum
  view : m.view = s.view
  first : m.opBegin ≤ s.lastOp + 1
  last : s.lastOp + 1 < m.opEnd
  numbered : Log.NumberedFrom m.opBegin m.entries
  length : m.opBegin + m.entries.length = m.opEnd

/-- The entries of the reply that the replica lacks. -/
def missing (s : Replica) (m : StateTransferReplyMessage) : List LogEntry := m.entries.drop (s.lastOp + 1 - m.opBegin)

variable {m : StateTransferReplyMessage}

theorem Covers.missing_numbered (h : Covers s m) : Log.NumberedFrom (s.lastOp + 1) (missing s m) := by
  intro i e hi
  rw [missing, List.getElem?_drop] at hi
  have h1 := h.numbered _ _ hi
  have h2 := h.first
  omega

theorem Covers.length_missing (h : Covers s m) : s.lastOp + 1 + (missing s m).length = m.opEnd := by
  have h1 := h.length
  have h2 := h.first
  have h3 := h.last
  rw [missing, List.length_drop]
  omega

/-- Such a reply passes the checks before the loop. -/
theorem sat_handleStateTransferReply (h : Covers s m) {Q : Unit → Replica → List Output → Prop}
    {A : Replica → List Output → Prop} :
    Sat (handleStateTransferReply E m) s Q A ↔ Sat (forEach (missing s m) (installTransferred E)) s Q A := by
  have hlen := h.length
  have hlast := h.last
  have hfirst := h.first
  obtain ⟨e, es, hes⟩ := List.exists_cons_of_length_pos (show 0 < m.entries.length by omega)
  obtain ⟨x, hx⟩ : ∃ x, m.entries[m.entries.length - 1]? = some x :=
    ⟨_, List.getElem?_eq_getElem (by omega)⟩
  have he : e.opnum = m.opBegin := h.numbered 0 e (by rw [hes]; rfl)
  have hxop := h.numbered _ x hx
  have hid : ¬ (m.sessnum ≠ s.sessnum ∨ m.view ≠ s.view) := by simp [h.sessnum, h.view]
  have hnew : ¬ (1 ≤ m.opEnd ∧ m.opEnd - 1 ≤ s.lastOp) := by omega
  have hhead : m.entries.head? = some e := by rw [hes]; rfl
  have hgetLast : m.entries.getLast? = some x := by rw [List.getLast?_eq_getElem?, hx]
  simp only [handleStateTransferReply, sat_bind, sat_get, sat_ite, sat_ofOption, sat_assert, hid, hnew, hhead,
    hgetLast, missing, List.nil_append, false_implies, true_and, not_false_eq_true, true_implies,
    Option.some.injEq, forall_eq', he, hfirst, reduceCtorEq, and_true, not_true_eq_false]
  refine ⟨fun h => h.1 (by omega), fun h => ⟨fun _ => h, fun hn => absurd (by omega) hn⟩⟩

/-- The replica takes all the slots it lacks, each once: a NOOP where it has a committed gap, and the entry of
    the reply elsewhere. What else it logs comes after the slots of the reply. -/
def Installs (E : Env) (s : Replica) (m : StateTransferReplyMessage) : Prop :=
  ∃ s' o extra, handleStateTransferReply E m s = (some (), s', o) ∧
    s'.log.entries = s.log.entries ++ (missing s m).map (installedEntry s.committedGaps) ++ extra ∧
    ∀ e ∈ extra, m.opEnd ≤ e.opnum

/-- A committed gap among the slots that the replica lacks, after the first of them. -/
def InnerGap (s : Replica) (m : StateTransferReplyMessage) : Prop :=
  ∃ x ∈ s.committedGaps.toList, s.lastOp + 1 < x ∧ x < m.opEnd

/-- In a state from which no other assertion fails, a reply is installed if and only if the log ends with the
    last operation and there is no committed gap inside. -/
theorem installs_iff_of_covers (h : Covers s m) (hs : s.Whole → s.Sound E) :
    Installs E s m ↔ s.Whole ∧ ¬ InnerGap s m := by
  have hlen := h.length_missing
  constructor
  · rintro ⟨s', o, extra, hrun, hlog, -⟩
    have hreturns : Sat (forEach (missing s m) (installTransferred E)) s (fun _ _ _ => True) (fun _ _ => False) :=
      (sat_handleStateTransferReply h).mp (by simp [Sat, hrun])
    by_cases hgap : InnerGap s m
    · have hstop : Sat (forEach (missing s m) (installTransferred E)) s (fun _ _ _ => False) fun _ _ => True :=
        installAll_stopped _ s h.missing_numbered (by rwa [InnerGap, ← hlen] at hgap)
      obtain ⟨_, _, _, _, hboth⟩ | ⟨_, _, _, hboth⟩ := (hreturns.and hstop).cases
      · exact hboth.2.elim
      · exact hboth.1.elim
    · refine ⟨?_, hgap⟩
      have hloop := installAll_spec (E := E) (missing s m) s h.missing_numbered fun x hx hin =>
        hgap ⟨x, hx, by omega⟩
      obtain ⟨_, s₁, _, _, hboth⟩ | ⟨_, _, _, hboth⟩ := (hreturns.and hloop).cases
      · obtain ⟨-, extra, hl⟩ := hboth
        refine hl.whole fun hnil => ?_
        have := congrArg List.length hnil
        have hlast := h.last
        simp only [List.length_append, List.length_map, List.length_nil] at this
        omega
      · exact hboth.1.elim
  · rintro ⟨hw, hgap⟩
    have hloop := installAll_spec (E := E) (missing s m) s h.missing_numbered fun x hx hin =>
      hgap ⟨x, hx, by omega⟩
    obtain ⟨_, s', o, hrun, extra, hl⟩ | ⟨_, _, _, hno⟩ := ((sat_handleStateTransferReply h).mpr hloop).cases
    · refine ⟨s', o, extra, hrun, by rw [hl.log, List.append_assoc], fun e he => ?_⟩
      obtain ⟨i, hi⟩ := List.mem_iff_getElem?.mp he
      have := hl.numbered ((missing s m).length + i) e (by
        rw [List.getElem?_append_right (by simp), List.length_map, Nat.add_sub_cancel_left]
        exact hi)
      omega
    · exact absurd (hs hw) hno

/-! ### Counting the calls of `stateTransferCallback` -/

variable (E)

/-- The body of the loop of `HandleStateTransferReply`, with the count. -/
def installTransferredCounted (entry : LogEntry) : Handler (Replica × Nat) Output Unit := do
  let s ← beside get
  assert (entry.opnum = s.lastOp + 1)
  processNextOperationCounted E entry.request
    { view := entry.view, opnum := entry.opnum
      sessnum := entry.viewstamp.sessnum, msgnum := entry.viewstamp.msgnum } entry.state

/-- `HandleStateTransferReply`, with the count. -/
def handleStateTransferReplyCounted (msg : StateTransferReplyMessage) : Handler (Replica × Nat) Output Unit := do
  let s ← beside get
  if msg.sessnum ≠ s.sessnum ∨ msg.view ≠ s.view then return
  if 1 ≤ msg.opEnd ∧ msg.opEnd - 1 ≤ s.lastOp then return
  let first ← ofOption msg.entries.head?
  assert (first.opnum = msg.opBegin)
  let last ← ofOption msg.entries.getLast?
  assert (last.opnum + 1 = msg.opEnd)
  assert (msg.opBegin ≤ s.lastOp + 1)
  forEach (msg.entries.drop (s.lastOp + 1 - msg.opBegin)) (installTransferredCounted E)

variable {E}

/-- What a state transfer has come to since `t`: which slots have been logged, and how often the callback has
    been called. Every slot but those of `sent` was a committed gap. -/
structure Progress (t t' : Replica × Nat) (sent : Nat → Prop) : Prop where
  le : t.1.lastOp ≤ t'.1.lastOp
  counts : Counts t t'
  sessnum : t'.1.sessnum = t.1.sessnum
  view : t'.1.view = t.1.view
  gaps : ∀ x, t'.1.lastOp < x → (x ∈ t'.1.committedGaps.toList ↔ x ∈ t.1.committedGaps.toList)
  logged : ∀ x, t.1.lastOp < x → x ≤ t'.1.lastOp → x ∈ t.1.committedGaps.toList ∨ sent x
  next : t'.1.lastOp = t.1.lastOp ∨ t'.1.lastOp + 1 ∉ t'.1.committedGaps.toList

theorem Progress.refl (t : Replica × Nat) (sent : Nat → Prop) : Progress t t sent :=
  ⟨le_refl _, .refl t, rfl, rfl, fun _ _ => Iff.rfl, fun _ h h' => absurd h' (by omega), Or.inl rfl⟩

theorem Progress.mono {sent sent' : Nat → Prop} (h : Progress t t' sent) (hs : ∀ x, sent x → sent' x) :
    Progress t t' sent' :=
  { h with logged := fun x hx hx' => (h.logged x hx hx').imp_right (hs x) }

theorem Progress.trans {t'' : Replica × Nat} {sent : Nat → Prop} (h : Progress t t' sent)
    (h' : Progress t' t'' sent) : Progress t t'' sent where
  le := h.le.trans h'.le
  counts := h.counts.trans h'.counts h.le h'.le
  sessnum := h'.sessnum.trans h.sessnum
  view := h'.view.trans h.view
  gaps x hx := (h'.gaps x hx).trans (h.gaps x (lt_of_le_of_lt h'.le hx))
  logged x hx hx' := by
    by_cases hle : x ≤ t'.1.lastOp
    · exact h.logged x hx hle
    · exact (h'.logged x (by omega) hx').imp_left (h.gaps x (by omega)).mp
  next := by
    rcases h'.next with heq | hno
    · rcases h.next with heq' | hno
      · exact Or.inl (heq.trans heq')
      · rw [heq]
        exact Or.inr fun hmem => hno ((h'.gaps _ (by omega)).mp hmem)
    · exact Or.inr hno

/-- One entry. -/
theorem installTransferredCounted_spec (e : LogEntry) (t : Replica × Nat) :
    Sat (installTransferredCounted E e) t
      (fun _ t' _ => Progress t t' (· = e.opnum) ∧ e.opnum ≤ t'.1.lastOp) fun _ _ => True := by
  simp only [installTransferredCounted, sat_bind, sat_beside, sat_get, sat_assert, implies_true, and_true]
  intro hop
  refine (processNextOperationCounted_spec e.request
    { view := e.view, opnum := e.opnum, sessnum := e.viewstamp.sessnum, msgnum := e.viewstamp.msgnum }
    e.state hop).mono (fun _ t' _ h => ?_) fun _ _ _ => trivial
  obtain ⟨es, hl, hc, hes, hend⟩ := h
  have hlast := hl.lastOp
  simp only [List.length_cons] at hlast
  refine ⟨⟨by omega, hc, hl.sessnum, hl.view, fun x hx => hl.mem_gaps hx, fun x hx hx' => ?_, Or.inr hend⟩, by omega⟩
  -- the slot is that of the entry, or of a gap that has been logged after it
  obtain ⟨i, rfl⟩ : ∃ i, x = t.1.lastOp + 1 + i := ⟨x - (t.1.lastOp + 1), by omega⟩
  cases i with
  | zero => exact Or.inr (by omega)
  | succ i =>
    obtain ⟨g, hg⟩ : ∃ g, es[i]? = some g := ⟨_, List.getElem?_eq_getElem (by omega)⟩
    have hnum := hl.numbered (i + 1) g hg
    rw [← hnum]
    exact Or.inl (hes g (List.mem_of_getElem? hg)).2

theorem installAllCounted_spec : ∀ (es : List LogEntry) (t : Replica × Nat),
    Sat (forEach es (installTransferredCounted E)) t
      (fun _ t' _ => Progress t t' (fun x => ∃ e ∈ es, x = e.opnum) ∧ ∀ e ∈ es, e.opnum ≤ t'.1.lastOp)
      fun _ _ => True
  | [], t => ⟨.refl t _, by simp⟩
  | e :: es, t => by
      simp only [forEach, sat_bind]
      refine (installTransferredCounted_spec e t).mono (fun _ t₁ _ h₁ => ?_) fun _ _ h => h
      refine (installAllCounted_spec es t₁).mono (fun _ t₂ _ h₂ => ?_) fun _ _ h => h
      refine ⟨(h₁.1.mono fun x hx => ?_).trans (h₂.1.mono fun x hx => ?_), fun x hx => ?_⟩
      · exact ⟨e, List.mem_cons_self .., hx⟩
      · obtain ⟨y, hy, rfl⟩ := hx
        exact ⟨y, List.mem_cons_of_mem _ hy, rfl⟩
      · rcases List.mem_cons.mp hx with rfl | hx
        · exact h₁.2.trans h₂.1.le
        · exact h₂.2 x hx

/-- The reply is of the view that the replica is in. -/
def Answers (s : Replica) (m : StateTransferReplyMessage) : Prop := m.sessnum = s.sessnum ∧ m.view = s.view

/-- The entries are those of the slots from `begin` to `end`, as `HandleStateTransferRequest` dumps them. -/
def Dumped (m : StateTransferReplyMessage) : Prop :=
  Log.NumberedFrom m.opBegin m.entries ∧ m.opBegin + m.entries.length = m.opEnd

/-- One reply. -/
theorem handleStateTransferReplyCounted_spec (hm : Dumped m) (t : Replica × Nat) :
    Sat (handleStateTransferReplyCounted E m) t
      (fun _ t' _ => Progress t t' (fun x => Answers t.1 m ∧ x < m.opEnd) ∧
        (Answers t.1 m → m.opEnd ≤ t'.1.lastOp + 1))
      fun _ _ => True := by
  obtain ⟨hnum, hlen⟩ := hm
  simp only [handleStateTransferReplyCounted, sat_bind, sat_beside, sat_get, sat_ite, sat_pure, sat_ofOption,
    sat_assert, implies_true, and_true]
  refine ⟨fun hid => ⟨.refl t _, fun h => ?_⟩, fun hid => ⟨fun hold => ⟨.refl t _, fun _ => by omega⟩,
    fun hnew first hhead hfirst last hgetLast hlast hbegin => ?_⟩⟩
  · exact absurd hid (by simp [h.1, h.2])
  have hanswers : Answers t.1 m := by
    rw [not_or, not_not, not_not] at hid
    exact hid
  refine (installAllCounted_spec _ t).mono (fun _ t' _ h => ⟨h.1.mono fun x hx => ?_, fun _ => ?_⟩) fun _ _ h => h
  · obtain ⟨e, he, rfl⟩ := hx
    obtain ⟨i, hi⟩ := List.mem_iff_getElem?.mp (List.mem_of_mem_drop he)
    have h1 := hnum i e hi
    have h2 := (List.getElem?_eq_some_iff.mp hi).1
    exact ⟨hanswers, by omega⟩
  · -- the last entry is that of the last slot
    have hmem : last ∈ m.entries.drop (t.1.lastOp + 1 - m.opBegin) := by
      refine List.mem_of_getLast? ?_
      rw [List.getLast?_drop, if_neg (by omega)]
      exact hgetLast
    have := h.2 last hmem
    omega

/-- Any number of replies. -/
theorem handleReplies_spec : ∀ {ms : List StateTransferReplyMessage}, (∀ m ∈ ms, Dumped m) →
    ∀ t : Replica × Nat, Sat (forEach ms (handleStateTransferReplyCounted E)) t
      (fun _ t' _ => Progress t t' (fun x => ∃ m ∈ ms, Answers t.1 m ∧ x < m.opEnd) ∧
        ∀ m ∈ ms, Answers t.1 m → m.opEnd ≤ t'.1.lastOp + 1)
      fun _ _ => True
  | [], _, t => ⟨.refl t _, by simp⟩
  | m :: ms, hms, t => by
      obtain ⟨hm, hms⟩ := List.forall_mem_cons.mp hms
      simp only [forEach, sat_bind]
      refine (handleStateTransferReplyCounted_spec hm t).mono (fun _ t₁ _ h₁ => ?_) fun _ _ h => h
      obtain ⟨hp₁, hend₁⟩ := h₁
      have hsame : ∀ {x}, Answers t₁.1 x ↔ Answers t.1 x := by
        simp only [Answers, hp₁.sessnum, hp₁.view, implies_true]
      refine (handleReplies_spec hms t₁).mono (fun _ t₂ _ h₂ => ?_) fun _ _ h => h
      obtain ⟨hp₂, hend₂⟩ := h₂
      refine ⟨(hp₁.mono fun x hx => ?_).trans (hp₂.mono fun x hx => ?_), fun x hx ha => ?_⟩
      · exact ⟨m, List.mem_cons_self .., hx⟩
      · obtain ⟨y, hy, ha, hlt⟩ := hx
        exact ⟨y, List.mem_cons_of_mem _ hy, hsame.mp ha, hlt⟩
      · rcases List.mem_cons.mp hx with rfl | hx
        · exact (hend₁ ha).trans (Nat.succ_le_succ hp₂.le)
        · exact hend₂ x hx (hsame.mpr ha)

/-- A state transfer of the slots up to `stateTransferOpEnd`, and any replies, in any order and any number of
    times. Before the last slot is installed the callback has not been called. Once it is, the callback has been
    called exactly once and the timer is stopped if and only if the slot after the range is a committed gap as
    well, or has come with a reply. -/
theorem callback_called_iff (E : Env) {s : Replica} (hpending : s.lastOp + 1 < s.stateTransferOpEnd)
    {ms : List StateTransferReplyMessage} (hms : ∀ m ∈ ms, Dumped m) :
    Sat (forEach ms (handleStateTransferReplyCounted E)) (s, 0)
      (fun _ t _ => (t.1.lastOp + 1 < s.stateTransferOpEnd → t.2 = 0) ∧
        (s.stateTransferOpEnd ≤ t.1.lastOp + 1 →
          ((t.2 = 1 ∧ t.1.active .stateTransfer = false) ↔
            (s.stateTransferOpEnd ∈ s.committedGaps.toList ∨
              ∃ m ∈ ms, Answers s m ∧ s.stateTransferOpEnd < m.opEnd))))
      fun _ _ => True := by
  refine (handleReplies_spec hms (s, 0)).mono (fun _ t _ h => ?_) fun _ _ h => h
  obtain ⟨hp, hend⟩ := h
  -- the callback has been called if and only if the slot after the range has been logged
  have hcalled : t.2 = (if s.stateTransferOpEnd ≤ t.1.lastOp then 1 else 0) ∧
      (s.stateTransferOpEnd ≤ t.1.lastOp → t.1.active .stateTransfer = false) := by
    split_ifs with hle
    · obtain ⟨hn, hact, -⟩ := hp.counts.called (by simp only; omega) hle
      exact ⟨hn, fun _ => hact⟩
    · obtain ⟨hn, -, -⟩ := hp.counts.uncalled (by simp only; omega)
      exact ⟨hn, fun h => absurd h hle⟩
  refine ⟨fun hlt => by rw [hcalled.1, if_neg (by omega)], fun hall => ?_⟩
  constructor
  · rintro ⟨hone, -⟩
    have hle : s.stateTransferOpEnd ≤ t.1.lastOp := by
      by_contra hgt
      rw [hcalled.1, if_neg hgt] at hone
      cases hone
    exact hp.logged _ (by simp only; omega) hle
  · intro hcond
    have hle : s.stateTransferOpEnd ≤ t.1.lastOp := by
      rcases hcond with hgap | ⟨m, hm, ha, hlt⟩
      · by_contra hgt
        have hlast : t.1.lastOp + 1 = s.stateTransferOpEnd := by omega
        rcases hp.next with heq | hno
        · simp only at heq
          omega
        · refine hno ?_
          rw [hlast]
          exact (hp.gaps _ (by omega)).mpr hgap
      · have := hend m hm ha
        omega
    exact ⟨by rw [hcalled.1, if_pos hle], hcalled.2 hle⟩

/-! ### A run -/

/-- Three replicas, and sequencers that stamp one request after the other. -/
def threeReplicas : Group where
  config := { n := 3, f := 1 }
  app _ := App.default
  lookupAddress _ := .client 0
  sequenced _ i := { op := "", clientid := 0, clientreqid := i }

/-- Entry `i` of the first session. -/
def firstEntry (i : Nat) : LogEntry :=
  { viewstamp := { view := 0, opnum := i, sessnum := 0, msgnum := i }, state := .received
    request := { op := "", clientid := 0, clientreqid := i } }

/-- The first `n` entries, as the leader of view 0 sends them. -/
def firstEntries (n : Nat) : StateTransferReplyMessage :=
  { sessnum := 0, view := 0, opBegin := 1, opEnd := n + 1, entries := (List.range' 1 n).map firstEntry }

theorem dumped_firstEntries (n : Nat) : Dumped (firstEntries n) := by
  refine ⟨fun i e hi => ?_, by simp [firstEntries]; omega⟩
  simp only [firstEntries, List.getElem?_map, Option.map_eq_some_iff] at hi
  obtain ⟨j, hj, rfl⟩ := hi
  have hlt : i < n := by simpa using (List.getElem?_eq_some_iff.mp hj).1
  rw [List.getElem?_range' hlt] at hj
  cases hj
  simp [firstEntry, firstEntries, LogEntry.opnum]

/-- A replica has missed the request that a SyncPrepare covers, and is sent that request and the next one. -/
theorem callback_called_iff_two : ∃ past sys, Run (system threeReplicas) (fun _ _ => True) past sys ∧
    Sat (forEach [firstEntries 2] (handleStateTransferReplyCounted (threeReplicas.env 2))) (sys.replica 2, 0)
      (fun _ t _ => (sys.replica 2).stateTransferOpEnd ≤ t.1.lastOp + 1 →
        t.2 = 1 ∧ t.1.active .stateTransfer = false)
      fun _ _ => True := by
  obtain ⟨past, sys, hr, hsys⟩ := Run.exists_of_exec (system threeReplicas) (fun _ _ => True)
    [.client 0 0 (.request 0 0), .timeout 0 .sync, .deliver 1]
    (fun sys => (sys.replica 2).lastOp + 1 < (sys.replica 2).stateTransferOpEnd ∧
      (sys.replica 2).stateTransferOpEnd = 2 ∧ (sys.replica 2).viewId = (0, 0)) (by decide +kernel)
  obtain ⟨hpending, hend, hid⟩ := of_decide_eq_true hsys
  obtain ⟨hsess, hview⟩ := Prod.mk.inj hid
  refine ⟨past, sys, hr, ?_⟩
  have hdumped : ∀ m ∈ [firstEntries 2], Dumped m := by simpa using dumped_firstEntries 2
  refine (callback_called_iff (threeReplicas.env 2) hpending hdumped).mono
    (fun _ t _ h hall => (h.2 hall).mpr (Or.inr ?_)) fun _ _ h => h
  exact ⟨_, List.mem_singleton_self _, ⟨hsess.symm, hview.symm⟩, by rw [hend]; decide⟩

/-- It is sent what it has asked for: the slot is installed, the callback is not called and the timer goes on. -/
theorem callback_not_called : ∃ past sys, Run (system threeReplicas) (fun _ _ => True) past sys ∧
    sys.net[3]?.map (fun p => (p.dst, p.msg)) = some (2, .stateTransferReply (firstEntries 1)) ∧
    (sys.replica 2).lastOp + 1 < (sys.replica 2).stateTransferOpEnd ∧
    ∃ t o, handleStateTransferReplyCounted (threeReplicas.env 2) (firstEntries 1) (sys.replica 2, 0) =
        (some (), t, o) ∧
      (sys.replica 2).stateTransferOpEnd ≤ t.1.lastOp + 1 ∧ t.2 = 0 ∧ t.1.active .stateTransfer = true := by
  obtain ⟨past, sys, hr, hsys⟩ := Run.exists_of_exec (system threeReplicas) (fun _ _ => True)
    [.client 0 0 (.request 0 0), .timeout 0 .sync, .deliver 1, .deliver 2]
    (fun sys => sys.net[3]?.map (fun p => (p.dst, p.msg)) = some (2, .stateTransferReply (firstEntries 1)) ∧
      (sys.replica 2).lastOp + 1 < (sys.replica 2).stateTransferOpEnd ∧
      let x := handleStateTransferReplyCounted (threeReplicas.env 2) (firstEntries 1) (sys.replica 2, 0)
      x.1 = some () ∧ (sys.replica 2).stateTransferOpEnd ≤ x.2.1.1.lastOp + 1 ∧ x.2.1.2 = 0 ∧
        x.2.1.1.active .stateTransfer = true) (by decide +kernel)
  obtain ⟨hnet, hpending, hrun, hall, hcount, hactive⟩ := of_decide_eq_true hsys
  exact ⟨past, sys, hr, hnet, hpending, _, _, Prod.ext hrun rfl, hall, hcount, hactive⟩

end Dsnet.NOPaxos
