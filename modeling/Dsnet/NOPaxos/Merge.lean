import Dsnet.NOPaxos.Runs

/-! `NOPaxosReplica::HandleViewChange`: the leader of a new view merges the logs of a quorum. It takes the greatest
    opnum that a log of the latest view reaches, and installs the committed gaps of those logs in its own,
    before it asks for what it lacks. An installed gap may bring its log as far as the merged log, or it may be
    cut back to a commit point that is already the end of the merged log, and then the assertion that there is
    something to ask for fails. -/

namespace Dsnet.NOPaxos
open Handler

variable {E : Env} {s t : Replica}

/-! ### The merge and its assertions -/

/-- `HandleViewChange` up to the assertions on the merged log: the last opnum of that log, and the replica to ask
    for it. -/
def mergeEntries (E : Env) (msgs : StdMap Nat ViewChangeMessage) : NOPaxosHandler (Nat × Option Nat) := do
  let s ← get
  let latest := findLatest s msgs.toList
  when (s.isBehind latest.sessnum latest.view) do
    rewindLogToOpnum s.lastCommittedOp
    modify fun s => { s with committedGaps := StdSet.empty }
  mergeGaps E latest msgs.toList latest.op none

/-- `HandleViewChange` merges the logs, and then comes to the assertions. -/
theorem sat_mergeLogs {msgs : StdMap Nat ViewChangeMessage} {Q : Unit → Replica → List Output → Prop}
    {A : Replica → List Output → Prop} : Sat (mergeLogs E msgs) s Q A ↔
      Sat (mergeEntries E msgs) s (fun x t o => Sat (startMergedView E (findLatest s msgs.toList) x.1 x.2) t
        (fun u t' o' => Q u t' (o ++ o')) fun t' o' => A t' (o ++ o')) A := by
  simp only [mergeLogs, mergeEntries, sat_bind, sat_get, List.nil_append, List.append_assoc]

/-- What `HandleViewChange` asserts of the last opnum of the merged log: all gaps are within it, and there is more
    to ask for, or nothing. -/
def Asserted (s : Replica) (latestOp : Nat) (idx : Option Nat) : Prop :=
  (∀ lastGap ∈ s.committedGaps.toList.getLast?, lastGap ≤ latestOp) ∧
    match idx with
    | some _ => s.lastOp < latestOp
    | none => latestOp = s.lastOp

/-- A replica of which that is not so is stopped. -/
theorem startMergedView_stops {latest : Latest} {latestOp : Nat} {idx : Option Nat}
    (h : ¬ Asserted s latestOp idx) :
    Sat (startMergedView E latest latestOp idx) s (fun _ _ _ => False) fun _ _ => True := by
  simp only [startMergedView, sat_bind, sat_get, sat_assert, sat_modify, implies_true, and_true]
  intro hgaps
  have hidx := mt (And.intro hgaps) h
  cases idx with
  | none =>
    simp only [sat_bind, sat_assert, implies_true, and_true]
    exact fun heq => absurd heq hidx
  | some i =>
    simp only [sat_bind, sat_assert, implies_true, and_true]
    exact fun hgt => absurd hgt hidx

/-- No assertion on the merged log fails. -/
def MergeAsserts (E : Env) (s : Replica) (msgs : StdMap Nat ViewChangeMessage) : Prop :=
  Sat (mergeEntries E msgs) s (fun x t _ => Asserted t x.1 x.2) fun _ _ => True

/-- The state in which `HandleViewChange` merges the logs, and the messages, if it does. -/
def mergeInput (E : Env) (m : ViewChangeMessage) (s : Replica) :
    Option (Replica × StdMap Nat ViewChangeMessage) :=
  let t := s.caughtUp m.sessnum m.view
  if m.sessnum < t.sessnum ∨ m.view < t.view ∨ ¬ amLeader E t ∨ t.status ≠ .viewChange then none
  else ((t.withViewChange m).viewChangeQuorum.checkForQuorum (m.sessnum, m.view)).map fun msgs =>
    (t.withViewChange m, msgs)

/-- It is called with a quorum. -/
theorem of_mergeInput {m : ViewChangeMessage} {msgs : StdMap Nat ViewChangeMessage}
    (h : mergeInput E m s = some (t, msgs)) : t = (s.caughtUp m.sessnum m.view).withViewChange m ∧
      msgs = t.viewChangeQuorum.messages (m.sessnum, m.view) ∧ t.viewId = (m.sessnum, m.view) ∧ amLeader E t ∧
      t.status = .viewChange := by
  simp only [mergeInput] at h
  split_ifs at h with hc
  obtain ⟨msgs', hq, hmk⟩ := Option.map_eq_some_iff.mp h
  obtain ⟨rfl, rfl⟩ := Prod.mk.inj hmk
  simp only [not_or, not_not, not_lt] at hc
  obtain ⟨hsess, hview, hl, hst⟩ := hc
  refine ⟨rfl, (QuorumSet.checkForQuorum_eq_some.mp hq).1, ?_, hl, hst⟩
  -- a replica that has caught up is not behind the message
  have hle : m.sessnum ≤ (s.caughtUp m.sessnum m.view).sessnum ∧ m.view ≤ (s.caughtUp m.sessnum m.view).view := by
    unfold Replica.caughtUp
    split_ifs with hnew
    · exact ⟨le_max_left .., le_max_left ..⟩
    · omega
  exact Prod.ext (le_antisymm hsess hle.1) (le_antisymm hview hle.2)

/-- A replica catches up without fail. -/
theorem catchUp_returns (s : Replica) (sessnum view : Nat) :
    ∃ o, when (sessnum > s.sessnum ∨ view > s.view) (startViewChange E sessnum view) s =
      (some (), s.caughtUp sessnum view, o) := by
  have hsat : Sat (when (sessnum > s.sessnum ∨ view > s.view) (startViewChange E sessnum view)) s
      (fun _ t _ => t = s.caughtUp sessnum view) fun _ _ => False := by
    rw [sat_when, Replica.caughtUp]
    refine ⟨fun hnew => ?_, fun hold => (if_neg hold).symm⟩
    simp only [startViewChange, sendViewChange, sat_bind, sat_get, sat_assert, sat_modify, sat_emit, sat_when,
      if_pos hnew, implies_true, true_and]
    exact fun hn => hn hnew
  obtain ⟨_, _, o, hrun, rfl⟩ | ⟨_, _, _, hno⟩ := hsat.cases
  · exact ⟨o, hrun⟩
  · exact hno.elim

/-- The run of `HandleViewChange` is then that of the merge. -/
theorem sat_handleViewChange {remote : Addr} {m : ViewChangeMessage} {msgs : StdMap Nat ViewChangeMessage}
    (h : mergeInput E m s = some (t, msgs)) {Q A : Replica → Prop} :
    Sat (handleViewChange E remote m) s (fun _ s' _ => Q s') (fun s' _ => A s') ↔
      Sat (mergeLogs E msgs) t (fun _ s' _ => Q s') fun s' _ => A s' := by
  obtain ⟨o, hrun⟩ := catchUp_returns (E := E) s m.sessnum m.view
  simp only [mergeInput] at h
  split_ifs at h with hc
  obtain ⟨msgs', hq, hmk⟩ := Option.map_eq_some_iff.mp h
  obtain ⟨rfl, rfl⟩ := Prod.mk.inj hmk
  simp only [not_or, not_not] at hc
  obtain ⟨hsess, hview, hl, hst⟩ := hc
  have hchanging : ¬ (s.caughtUp m.sessnum m.view).status ≠ .viewChange := not_not.mpr hst
  have hold : ¬ (m.sessnum < (s.caughtUp m.sessnum m.view).sessnum ∨ m.view < (s.caughtUp m.sessnum m.view).view) :=
    not_or.mpr ⟨hsess, hview⟩
  have hquorum : ((s.caughtUp m.sessnum m.view).viewChangeQuorum.add (m.sessnum, m.view) m.replicaidx m).checkForQuorum
      (m.sessnum, m.view) = some msgs' := hq
  simp only [handleViewChange, sat_bind, sat_get]
  rw [Sat, hrun]
  simp only [if_neg hold, if_neg hchanging, sat_bind, sat_assert, hl, sat_modify, sat_whenSome, hquorum,
    not_true_eq_false, false_implies, true_implies, and_true, Option.some.injEq, forall_eq', reduceCtorEq]
  rfl

/-- When one of them fails the process of the leader ends. -/
theorem handleViewChange_stops {m : ViewChangeMessage} {msgs : StdMap Nat ViewChangeMessage}
    (h : mergeInput E m s = some (t, msgs))
    (hfails : Sat (mergeEntries E msgs) t (fun x t' _ => ¬ Asserted t' x.1 x.2) fun _ _ => True) (remote : Addr) :
    Sat (handleViewChange E remote m) s (fun _ _ _ => False) fun _ _ => True :=
  (sat_handleViewChange h).mpr <| sat_mergeLogs.mpr <|
    hfails.mono (fun _ _ _ hno => startMergedView_stops hno) fun _ _ h => h

/-! ### Installing the gaps -/

variable {p : Nat → Prop}

/-- What installing gaps of the kind `p` does to the log of the leader: the log grows by slots that are gaps, and
    not at all when it has been rewound. -/
structure Fills (p : Nat → Prop) (s s' : Replica) : Prop where
  lastOp : s.lastOp ≤ s'.lastOp
  slots : ∀ x, s.lastOp < x → x ≤ s'.lastOp → x ∈ s.committedGaps.toList ∨ p x
  gaps : ∀ x ∈ s'.committedGaps.toList, x ∈ s.committedGaps.toList ∨ p x
  rewound : ¬ s.Whole → s'.lastOp = s.lastOp ∧ ¬ s'.Whole
  still : (∀ x, p x → x ≤ s.lastOp) → s'.lastOp = s.lastOp

instance : Std.Refl (Fills p) :=
  ⟨fun _ => ⟨le_refl _, fun _ h h' => absurd h (by omega), fun _ h => Or.inl h, fun h => ⟨rfl, h⟩, fun _ => rfl⟩⟩

instance : IsTrans Replica (Fills p) where
  trans s s' s'' h h' := by
    refine ⟨h.lastOp.trans h'.lastOp, fun x hx hx' => ?_, fun x hx => ?_, fun hw => ?_, fun hp => ?_⟩
    · by_cases hle : x ≤ s'.lastOp
      · exact h.slots x hx hle
      · exact (h'.slots x (by omega) hx').elim (h.gaps x) Or.inr
    · exact (h'.gaps x hx).elim (h.gaps x) Or.inr
    · obtain ⟨heq, hw'⟩ := h.rewound hw
      obtain ⟨heq', hw''⟩ := h'.rewound hw'
      exact ⟨heq'.trans heq, hw''⟩
    · exact (h'.still fun x hx => (hp x hx).trans h.lastOp).trans (h.still hp)

theorem fills_setGap {gap : Nat} (hp : p gap) (s : Replica) :
    Fills p s { s with committedGaps := s.committedGaps.insert gap } where
  lastOp := le_refl _
  slots _ h h' := absurd h (by simp only at h'; omega)
  gaps x hx := by
    rcases StdSet.mem_insert.mp hx with rfl | hx
    · exact Or.inr hp
    · exact Or.inl hx
  rewound h := ⟨rfl, h⟩
  still _ := rfl

/-- The gap is logged, and the gaps that follow it. -/
theorem fills_logGap {request : Request} {vs : Viewstamp} (hp : p vs.opnum) (hvs : vs.opnum = s.lastOp + 1) :
    Sat (processNextOperation E request vs .noop) s (fun _ s' _ => Fills p s s') fun _ _ => True := by
  refine (processNextOperation_spec request vs .noop hvs).mono (fun _ s' _ h => ?_) fun _ _ _ => trivial
  obtain ⟨es, hl, hes, -⟩ := h
  have hnoop : ∀ e ∈ loggedEntry s request vs .noop :: es, e.opnum ∈ s.committedGaps.toList ∨ p e.opnum := by
    intro e he
    rcases List.mem_cons.mp he with rfl | he
    · exact Or.inr hp
    · exact Or.inl (hes e he).2
  refine ⟨by rw [hl.lastOp]; omega, fun x hx hx' => ?_, fun x hx => ?_, fun hw => ?_, fun hle => ?_⟩
  · -- every slot has its entry
    obtain ⟨i, rfl⟩ : ∃ i, x = s.lastOp + 1 + i := ⟨x - (s.lastOp + 1), by omega⟩
    have hlast := hl.lastOp
    obtain ⟨e, he⟩ : ∃ e, (loggedEntry s request vs .noop :: es)[i]? = some e :=
      ⟨_, List.getElem?_eq_getElem (by omega)⟩
    rw [← hl.numbered i e he]
    exact hnoop e (List.mem_of_getElem? he)
  · rcases (hl.gaps x).mp hx with hx | ⟨e, he, -, rfl⟩
    · exact Or.inl hx
    · exact hnoop e he
  · exact absurd (hl.whole (by simp)) hw
  · have := hle vs.opnum hp
    omega

theorem fills_installGap {gap : Nat} (hp : p gap) : Relates (Fills p) (installGap E gap) := by
  refine relates_get_bind fun s => sat_ite.mpr ⟨fun _ => Std.Refl.refl (r := Fills p) s, fun _ => ?_⟩
  have hset := fills_setGap hp s
  have hlog : Sat (when (s.lastOp + 1 = gap) <| processNextOperation E noopRequest
      { s.log.lastViewstamp with opnum := s.lastOp + 1, msgnum := s.nextMsgnum } .noop)
      { s with committedGaps := s.committedGaps.insert gap } (fun _ s' _ => Fills p s s') fun _ _ => True := by
    rw [sat_when]
    refine ⟨fun heq => ?_, fun _ => hset⟩
    exact (fills_logGap (by rwa [heq]) rfl).mono (fun _ _ _ h => IsTrans.trans (r := Fills p) _ _ _ hset h)
      fun _ _ h => h
  refine sat_bind.mpr (sat_bind.mpr (hlog.mono (fun _ s₁ _ h₁ => ?_) fun _ _ h => h))
  -- the state of an entry does not matter
  have hstatus : Relates (Fills p) (do
      let s ← get
      when (s.lastOp ≥ gap) do
        let entry ← ofOption (s.log.find gap)
        when (entry.state ≠ .noop) do
          assert (s.lastCommittedOp < gap)
          assert (¬ s.lastExecutedOp ≥ gap)
          modify fun s => { s with log := s.log.setStatus gap .noop } : NOPaxosHandler Unit) :=
    relates_get.bind fun _ => .when <| relates_ofOption.bind fun _ => .when <| relates_assert.bind fun _ =>
      relates_assert.bind fun _ => relates_modify fun s =>
        ⟨le_refl _, fun _ h h' => absurd h (by simp only at h'; omega), fun _ h => Or.inl h,
          fun hw => ⟨rfl, by rwa [Replica.Whole, Log.length_entries_setStatus]⟩, fun _ => rfl⟩
  exact (hstatus s₁).mono (fun _ _ _ h => IsTrans.trans (r := Fills p) _ _ _ h₁ h) fun _ _ h => h

theorem fills_installCommittedGaps {gaps : List Nat} (hp : ∀ gap ∈ gaps, p gap) :
    Relates (Fills p) (installCommittedGaps E gaps) := .forEach_mem fun gap hgap => fills_installGap (hp gap hgap)

/-! ### The latest view -/

/-- The message is of the latest view. -/
def Latest.Names (l : Latest) (x : ViewChangeMessage) : Prop :=
  x.lastnormalsessnum = l.sessnum ∧ x.lastnormalview = l.view

instance (l : Latest) (x : ViewChangeMessage) : Decidable (l.Names x) := inferInstanceAs (Decidable (_ ∧ _))

theorem Latest.update_cases (l : Latest) (x : ViewChangeMessage) :
    (l.update x = l ∨ (l.sessnum < (l.update x).sessnum ∨ l.view < (l.update x).view) ∧ (l.update x).op = 0) ∧
      x.lastnormalsessnum ≤ (l.update x).sessnum ∧ x.lastnormalview ≤ (l.update x).view := by
  by_cases hsess : x.lastnormalsessnum > l.sessnum <;> by_cases hview : x.lastnormalview > l.view <;>
    simp only [Latest.update, hsess, hview, if_true, if_false, true_or, or_true, and_self, true_and] <;> omega

theorem foldl_update (msgs : List (Nat × ViewChangeMessage)) (l : Latest) :
    let r := msgs.foldl (fun l kv => l.update kv.2) l
    (r = l ∨ (l.sessnum < r.sessnum ∨ l.view < r.view) ∧ r.op = 0) ∧ l.sessnum ≤ r.sessnum ∧ l.view ≤ r.view ∧
      ∀ kv ∈ msgs, kv.2.lastnormalsessnum ≤ r.sessnum ∧ kv.2.lastnormalview ≤ r.view := by
  induction msgs generalizing l with
  | nil => exact ⟨Or.inl rfl, le_refl _, le_refl _, by simp⟩
  | cons kv msgs ih =>
    obtain ⟨hcases, hsess, hview, hall⟩ := ih (l.update kv.2)
    obtain ⟨hupdate, hx⟩ := l.update_cases kv.2
    obtain ⟨h1, h2⟩ := l.le_update kv.2
    refine ⟨?_, h1.trans hsess, h2.trans hview, List.forall_mem_cons.mpr ⟨⟨hx.1.trans hsess, hx.2.trans hview⟩, hall⟩⟩
    rcases hcases with heq | ⟨hlt, hop⟩
    · rw [List.foldl_cons, heq]
      exact hupdate
    · exact Or.inr ⟨by simp only [List.foldl_cons]; omega, hop⟩

/-- A leader that is not behind the latest view has been last in normal operation in it, and its own log counts;
    otherwise it does not. -/
theorem findLatest_cases (s : Replica) (msgs : List (Nat × ViewChangeMessage)) :
    (¬ s.isBehind (findLatest s msgs).sessnum (findLatest s msgs).view ∧
      findLatest s msgs = ⟨s.lastNormalSessnum, s.lastNormalView, s.lastOp⟩) ∨
    (s.isBehind (findLatest s msgs).sessnum (findLatest s msgs).view ∧ (findLatest s msgs).op = 0) := by
  rcases (foldl_update msgs ⟨s.lastNormalSessnum, s.lastNormalView, s.lastOp⟩).1 with heq | ⟨hlt, hop⟩
  · refine Or.inl ⟨?_, heq⟩
    rw [findLatest, heq]
    simp [Replica.isBehind]
  · exact Or.inr ⟨hlt, hop⟩

/-- What the second loop of `HandleViewChange` finds, and what it does to the log. -/
theorem mergeGaps_spec (latest : Latest) :
    ∀ (msgs : List (Nat × ViewChangeMessage)) (latestOp : Nat) (idx : Option Nat) (s : Replica),
      (∀ kv ∈ msgs, latest.Names kv.2 → ∀ gap ∈ kv.2.committedgaps, p gap) → Sat (mergeGaps E latest msgs latestOp idx) s
        (fun x s' _ => Fills p s s' ∧ latestOp ≤ x.1 ∧ (∀ kv ∈ msgs, latest.Names kv.2 → kv.2.lastop ≤ x.1) ∧
          (x = (latestOp, idx) ∨ x.2.isSome ∧ latestOp < x.1 ∧ ∃ kv ∈ msgs, latest.Names kv.2 ∧ kv.2.lastop = x.1))
        fun _ _ => True
  | [], _, _, s, _ => ⟨Std.Refl.refl (r := Fills p) s, le_refl _, by simp, Or.inl rfl⟩
  | (k, x) :: rest, latestOp, idx, s, hp => by
      have ih (op : Nat) (i : Option Nat) (t : Replica) := mergeGaps_spec latest rest op i t fun kv hkv =>
        hp kv (List.mem_cons_of_mem _ hkv)
      simp only [mergeGaps, sat_bind, sat_assert, implies_true, and_true, sat_ite]
      refine fun _ _ => ⟨fun hnames => ?_, fun hno => ?_⟩
      · refine (fills_installCommittedGaps (hp (k, x) (List.mem_cons_self ..) hnames)).sat (fun _ t _ ht => ⟨fun hgt => ?_, fun hle => ?_⟩) fun _ _ => trivial
        · refine (ih x.lastop (some x.replicaidx) t).mono (fun y t' _ h => ?_) fun _ _ h => h
          obtain ⟨hf, hle, hall, hcases⟩ := h
          refine ⟨IsTrans.trans (r := Fills p) _ _ _ ht hf, by omega, List.forall_mem_cons.mpr ⟨fun _ => hle, hall⟩, Or.inr ?_⟩
          rcases hcases with rfl | ⟨hsome, hlt, kv, hkv, hkvn, heq⟩
          · exact ⟨rfl, hgt, (k, x), List.mem_cons_self .., hnames, rfl⟩
          · exact ⟨hsome, by omega, kv, List.mem_cons_of_mem _ hkv, hkvn, heq⟩
        · refine (ih latestOp idx t).mono (fun y t' _ h => ?_) fun _ _ h => h
          obtain ⟨hf, hle', hall, hcases⟩ := h
          refine ⟨IsTrans.trans (r := Fills p) _ _ _ ht hf, hle', List.forall_mem_cons.mpr ⟨fun _ => by simp only; omega, hall⟩,
            hcases.imp_right fun h => ⟨h.1, h.2.1, h.2.2.imp fun _ h => ⟨List.mem_cons_of_mem _ h.1, h.2⟩⟩⟩
      · refine (ih latestOp idx s).mono (fun y t' _ h => ?_) fun _ _ h => h
        obtain ⟨hf, hle, hall, hcases⟩ := h
        exact ⟨hf, hle, List.forall_mem_cons.mpr ⟨fun hn => absurd hn hno, hall⟩,
          hcases.imp_right fun h => ⟨h.1, h.2.1, h.2.2.imp fun _ h => ⟨List.mem_cons_of_mem _ h.1, h.2⟩⟩⟩

/-! ### The assertions -/

/-- The leader has more to ask for than it has: when it cuts its log back to its commit point, a log of the latest
    view reaches further, and when it does not, but another log of that view is longer, then some slot of that log
    is not a committed gap that it knows or is told of. -/
def Mergeable (s : Replica) (msgs : List (Nat × ViewChangeMessage)) : Prop :=
  let latest := findLatest s msgs
  if s.isBehind latest.sessnum latest.view then
    ∃ kv ∈ msgs, latest.Names kv.2 ∧ s.lastCommittedOp < kv.2.lastop
  else
    (∃ kv ∈ msgs, latest.Names kv.2 ∧ s.lastOp < kv.2.lastop) →
      ∃ slot, s.lastOp < slot ∧ (∃ kv ∈ msgs, latest.Names kv.2 ∧ slot ≤ kv.2.lastop) ∧
        slot ∉ s.committedGaps.toList ∧ ∀ kv ∈ msgs, latest.Names kv.2 → slot ∉ kv.2.committedgaps

/-- The assertions hold of a leader whose gaps lie in its log or have been reported, as those of the messages do. -/
theorem mergeAsserts_of_mergeable {msgs : StdMap Nat ViewChangeMessage} (hmsgs : msgs = s.viewChangeQuorum.messages s.viewId)
    (hgaps : ∀ kv ∈ msgs.toList, ∀ gap ∈ kv.2.committedgaps, gap ≤ kv.2.lastop)
    (hown : ∀ x ∈ s.committedGaps.toList, x ≤ s.lastOp ∨ Reported s x) (h : Mergeable s msgs.toList) :
    MergeAsserts E s msgs := by
  have hle := (foldl_update msgs.toList ⟨s.lastNormalSessnum, s.lastNormalView, s.lastOp⟩).2.2.2
  simp only [Mergeable] at h
  simp only [MergeAsserts, mergeEntries, sat_bind, sat_get, sat_when]
  generalize hlatest : findLatest s msgs.toList = latest at h ⊢
  have hfill := fun op i => mergeGaps_spec (E := E)
    (p := fun gap => ∃ kv ∈ msgs.toList, latest.Names kv.2 ∧ gap ∈ kv.2.committedgaps) latest msgs.toList op i
  have hp : ∀ kv ∈ msgs.toList, latest.Names kv.2 → ∀ gap ∈ kv.2.committedgaps,
      ∃ kv ∈ msgs.toList, latest.Names kv.2 ∧ gap ∈ kv.2.committedgaps :=
    fun kv hkv hn gap hgap => ⟨kv, hkv, hn, hgap⟩
  have hcases := findLatest_cases s msgs.toList
  rw [hlatest] at hcases
  refine ⟨fun hbehind => ?_, fun hnot => ?_⟩
  · -- the log ends with the commit point, and nothing can be appended to it
    rw [if_pos hbehind] at h
    obtain ⟨y, hy, hyn, hylt⟩ := h
    have hop : latest.op = 0 := (hcases.resolve_left fun hc => hc.1 hbehind).2
    simp only [sat_modify]
    refine (rewindLogToOpnum_spec s _).mono (fun _ t _ ht => ?_) fun _ _ _ => trivial
    obtain ⟨-, log, hent, rfl, hpos, -⟩ := ht
    refine (hfill latest.op none _ hp).mono (fun x t' _ hx => ?_) fun _ _ _ => trivial
    obtain ⟨hf, -, hall, hidx⟩ := hx
    have hstill : t'.lastOp = s.lastCommittedOp := by
      refine (hf.rewound fun hw => ?_).1
      simp only [Replica.Whole, hent, List.length_take] at hw
      omega
    have hreach := hall y hy hyn
    refine ⟨fun lastGap hlast => ?_, ?_⟩
    · obtain ⟨kv, hkv, hkvn, hgap⟩ := (hf.gaps _ (List.mem_of_getLast? hlast)).resolve_left List.not_mem_nil
      exact (hgaps kv hkv _ hgap).trans (hall kv hkv hkvn)
    · rcases hidx with rfl | ⟨hsome, -⟩
      · simp only at hreach
        omega
      · obtain ⟨i, hi⟩ := Option.isSome_iff_exists.mp hsome
        simp only [hi]
        omega
  · rw [if_neg hnot] at h
    obtain rfl : latest = ⟨s.lastNormalSessnum, s.lastNormalView, s.lastOp⟩ := (hcases.resolve_right fun hc => hnot hc.1).2
    refine (hfill s.lastOp none s hp).mono (fun x t' _ hx => ?_) fun _ _ _ => trivial
    obtain ⟨hf, hstart, hall, hidx⟩ := hx
    refine ⟨fun lastGap hlast => ?_, ?_⟩
    · rcases hf.gaps _ (List.mem_of_getLast? hlast) with hin | ⟨kv, hkv, hkvn, hgap⟩
      · rcases hown _ hin with hle' | ⟨k, y, hy, hyle, hynormal⟩
        · exact hle'.trans hstart
        · -- no message is of a later view than the latest
          subst hmsgs
          have hmax := hle (k, y) hy
          rw [← findLatest, hlatest] at hmax
          refine hyle.trans (hall (k, y) hy (hynormal.resolve_right fun hb => ?_))
          simp only [Replica.isBehind] at hb
          simp only at hmax
          omega
      · exact (hgaps kv hkv _ hgap).trans (hall kv hkv hkvn)
    · rcases hidx with rfl | ⟨hsome, hlt, z, hz, hzn, hzeq⟩
      · refine (hf.still ?_).symm
        rintro gap ⟨kv, hkv, hkvn, hgap⟩
        exact (hgaps kv hkv _ hgap).trans (hall kv hkv hkvn)
      · obtain ⟨i, hi⟩ := Option.isSome_iff_exists.mp hsome
        obtain ⟨slot, hslot, ⟨y, hy, hyn, hyle⟩, hno, hnone⟩ := h ⟨z, hz, hzn, by omega⟩
        simp only [hi]
        by_contra hge
        have hreach := hall y hy hyn
        rcases hf.slots slot hslot (by omega) with hin | ⟨kv, hkv, hkvn, hgap⟩
        · exact hno hin
        · exact hnone kv hkv hkvn hgap

/-- The state in which a replica merges the logs is one between two steps. -/
theorem running_mergeInput {G : Group} {r : Nat} {g : Sent} {m : ViewChangeMessage} {msgs : StdMap Nat ViewChangeMessage}
    (h : Running g (G.env r) s) (hm : g.viewChange m.replicaidx (m.sessnum, m.view) = some m)
    (hin : mergeInput (G.env r) m s = some (t, msgs)) : ∃ g', Running g' (G.env r) t := by
  obtain ⟨o, hrun⟩ := catchUp_returns (E := G.env r) s m.sessnum m.view
  have hspec := spec_catchUp h m.sessnum m.view
  rw [Group.Spec, Net.GhostInvariant.Spec, Sat, hrun] at hspec
  obtain ⟨g', hg, ⟨hcaught, -⟩, -⟩ := hspec
  obtain ⟨rfl, -, hid, -, -⟩ := of_mergeInput hin
  exact ⟨g', running_withViewChange hcaught (hg.viewChange _ _ _ hm) hid⟩

/-- In every run: when a leader merges the logs of a quorum, no assertion on the merged log fails if there is more
    to ask for than it has. -/
theorem merge_asserts_hold (G : Group) {past : List Sys} {sys : Sys} (h : Run (system G) (fun _ _ => True) past sys)
    {p : Net.Packet ToReplicaMessage} (hp : p ∈ sys.net) {m : ViewChangeMessage} (hm : p.msg = .viewChange m)
    (hr : p.dst < G.config.n) (hlive : sys.stopped p.dst = false) {msgs : StdMap Nat ViewChangeMessage}
    (hin : mergeInput (G.env p.dst) m (sys.replica p.dst) = some (t, msgs)) (hc : Mergeable t msgs.toList) :
    MergeAsserts (G.env p.dst) t msgs := by
  obtain ⟨g, hg⟩ := holds_of_run h
  have hgood : Good g p := hg.packet p hp
  rw [Good, hm] at hgood
  obtain ⟨g', ht⟩ := running_mergeInput (hg.running p.dst hr hlive) hgood hin
  obtain ⟨-, rfl, hid, hl, hst⟩ := of_mergeInput hin
  refine mergeAsserts_of_mergeable (by rw [hid]) (fun kv hkv => ?_) (ht.merging hst hl) hc
  exact g'.gaps_le _ _ _ (ht.quorum _ kv.1 kv.2 hkv)

/-- The ViewChange message of replica 2 for view 1, when it has logged one operation. -/
def changeToOne (committedgaps : List Nat) : ViewChangeMessage :=
  { sessnum := 0, view := 1, lastnormalsessnum := 0, lastnormalview := 0, lastop := 1
    committedgaps := committedgaps, replicaidx := 2 }

/-- Replica 2 tells the leader of view 1 of an operation that the leader has not got. -/
theorem merge_asserts_hold_one : ∃ past sys t msgs, Run (system threeReplicas) (fun _ _ => True) past sys ∧
    mergeInput (threeReplicas.env 1) (changeToOne []) (sys.replica 1) = some (t, msgs) ∧
    MergeAsserts (threeReplicas.env 1) t msgs := by
  obtain ⟨past, sys, hr, hsys⟩ := Run.exists_of_exec (system threeReplicas) (fun _ _ => True)
    [.client 2 0 (.request 0 0), .timeout 2 .leaderSyncHeard]
    (fun sys => sys.stopped 1 = false ∧ ⟨.replica 2, 1, .viewChange (changeToOne [])⟩ ∈ sys.net ∧
      (mergeInput (threeReplicas.env 1) (changeToOne []) (sys.replica 1)).any fun x =>
        x.1.lastOp = 0 ∧ x.1.committedGaps.toList = [] ∧ x.2.toList = [(2, changeToOne [])] ∧
          findLatest x.1 x.2.toList = ⟨0, 0, 0⟩ ∧ ¬ x.1.isBehind 0 0) (by decide +kernel)
  obtain ⟨hlive, hnet, hany⟩ := of_decide_eq_true hsys
  obtain ⟨⟨t, msgs⟩, hin, hx⟩ := (Option.any_eq_true _ _).mp hany
  obtain ⟨hlast, hgaps, hmsgs, hlatest, hnot⟩ := of_decide_eq_true hx
  refine ⟨past, sys, t, msgs, hr, hin,
    merge_asserts_hold threeReplicas hr hnet rfl (by decide) hlive hin ?_⟩
  rw [Mergeable, hlatest, if_neg hnot, hlast, hgaps, hmsgs]
  exact fun _ => ⟨1, by decide, ⟨_, List.mem_singleton_self _, by decide⟩, List.not_mem_nil, by decide⟩

/-- The operation is a gap: the leader installs it, nothing is left to ask for, and the process ends. -/
theorem merge_assertion_fails : ∃ past sys t msgs, Run (system threeReplicas) (fun _ _ => True) past sys ∧
    sys.stopped 1 = false ∧ ⟨.replica 2, 1, .viewChange (changeToOne [1])⟩ ∈ sys.net ∧
    mergeInput (threeReplicas.env 1) (changeToOne [1]) (sys.replica 1) = some (t, msgs) ∧
    ¬ MergeAsserts (threeReplicas.env 1) t msgs ∧
    Sat (handleViewChange (threeReplicas.env 1) (.replica 2) (changeToOne [1])) (sys.replica 1)
      (fun _ _ _ => False) fun _ _ => True := by
  obtain ⟨past, sys, hr, hsys⟩ := Run.exists_of_exec (system threeReplicas) (fun _ _ => True)
    [.client 0 0 (.request 0 1), .timeout 0 .gapRequest, .deliver 3, .timeout 2 .leaderSyncHeard]
    (fun sys => sys.stopped 1 = false ∧ ⟨.replica 2, 1, .viewChange (changeToOne [1])⟩ ∈ sys.net ∧
      (mergeInput (threeReplicas.env 1) (changeToOne [1]) (sys.replica 1)).any fun x =>
        (mergeEntries (threeReplicas.env 1) x.2 x.1).1 = some (1, some 2) ∧
          (mergeEntries (threeReplicas.env 1) x.2 x.1).2.1.lastOp = 1) (by decide +kernel)
  obtain ⟨hlive, hnet, hany⟩ := of_decide_eq_true hsys
  obtain ⟨⟨t, msgs⟩, hin, hx⟩ := (Option.any_eq_true _ _).mp hany
  obtain ⟨hmerged, hlast⟩ := of_decide_eq_true hx
  obtain ⟨t', o, hrun⟩ : ∃ t' o, mergeEntries (threeReplicas.env 1) msgs t = (some (1, some 2), t', o) :=
    ⟨_, _, Prod.ext hmerged rfl⟩
  rw [hrun] at hlast
  have hfails : ¬ Asserted t' 1 (some 2) := by
    rintro ⟨-, hlt⟩
    simp only at hlast hlt
    omega
  refine ⟨past, sys, t, msgs, hr, hlive, hnet, hin, fun h => hfails ?_, handleViewChange_stops hin ?_ _⟩
  · simpa only [MergeAsserts, Sat, hrun] using h
  · simpa only [Sat, hrun] using hfails

end Dsnet.NOPaxos
