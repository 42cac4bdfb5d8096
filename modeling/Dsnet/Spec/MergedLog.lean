import Dsnet.Spec.Effects

/-! The log that `SpecReplica::MergeLogs` makes of full logs.

    With more than `QuorumSize()` logs, two hashes can both have enough matches at an opnum. The loop
    takes the lesser of them, opnum by opnum, so it may go from one log to another: then the hashes
    are not chained, and a request that the two logs have at different opnums is taken twice. The
    merged log is well formed just when each choice goes on from the one before
    (`mergeLogs_wellMerged_iff`), as it does when no two hashes have enough (`continued_of_few`). -/

namespace Dsnet.Spec

/-- The two numbers of an entry's request. -/
def requestId (e : LogEntry) : Nat × Nat := hashKey e.request

/-- A DoViewChange that carries all of its sender's log. -/
structure FullLog (sha1 : Sha1) (msg : DoViewChangeMessage) : Prop where
  numbered : Log.NumberedFrom 1 msg.entries
  chained : Chained (nextHash sha1) hashKey emptyHash (msg.entries.map stamp)
  distinct : (msg.entries.map requestId).Nodup
  lastspeculative : msg.lastspeculative = msg.entries.length
  lastcommitted : msg.lastcommitted ≤ msg.entries.length
  state : ∀ e ∈ msg.entries,
    e.state = if e.opnum ≤ msg.lastcommitted then .committed else .speculative

/-- The hashes that are hashed with a request for one of these logs. -/
def IsHash (latest : List DoViewChangeMessage) (hash : String) : Prop :=
  hash = emptyHash ∨ ∃ msg ∈ latest, ∃ e ∈ msg.entries, e.hash = hash

/-- None of the hashes of these logs collide when they are hashed with requests of these logs. -/
def CollisionFreeOn (sha1 : Sha1) (latest : List DoViewChangeMessage) : Prop :=
  ∀ hash hash', IsHash latest hash → IsHash latest hash' →
    ∀ msg ∈ latest, ∀ e ∈ msg.entries, ∀ msg' ∈ latest, ∀ e' ∈ msg'.entries,
      computeHash sha1 hash e.request = computeHash sha1 hash' e'.request →
      hash = hash' ∧ requestId e = requestId e'

/-- What the messages of a merge are like: a quorum of full logs, the most committed of which is one
    of the latest, and what any of them has committed is what the latest have there. -/
structure Mergeable (config : Configuration) (sha1 : Sha1) (dvcs : StdMap Nat DoViewChangeMessage) :
    Prop where
  quorum : config.quorumSize ≤ dvcs.size
  full : ∀ kv ∈ dvcs.toList, FullLog sha1 kv.2
  latest : ∀ kv ∈ dvcs.toList, ∃ msg ∈ latestViewMessages dvcs, kv.2.lastcommitted ≤ msg.lastcommitted
  agree : ∀ kv ∈ dvcs.toList, ∀ e ∈ kv.2.entries, e.state = .committed →
    ∀ msg ∈ latestViewMessages dvcs, ∀ x ∈ msg.entries, x.opnum = e.opnum →
      x.request = e.request ∧ x.hash = e.hash

/-- What a merged log is to be. -/
structure WellMerged (sha1 : Sha1) (dvcs : StdMap Nat DoViewChangeMessage) (out : List LogEntry) :
    Prop where
  numbered : Log.NumberedFrom 1 out
  committedFirst : ∃ k, ∀ e ∈ out, e.state = if e.opnum ≤ k then .committed else .speculative
  chained : Chained (nextHash sha1) hashKey emptyHash (out.map stamp)
  committed : ∀ kv ∈ dvcs.toList, ∀ e ∈ kv.2.entries, e.state = .committed → ∃ x ∈ out,
    x.opnum = e.opnum ∧ x.state = .committed ∧ x.request = e.request ∧ x.hash = e.hash
  speculative : ∀ msg ∈ latestViewMessages dvcs, ∀ e ∈ msg.entries, e.state = .speculative →
    out.countP (requestId · = requestId e) = 1

/-! ### The choices of the loop -/

/-- Enough of the logs have an entry with this hash at opnum `k`. -/
def Enough (config : Configuration) (latest : List DoViewChangeMessage) (k : Nat) (hash : String) :
    Prop := matchingEntriesNeeded config latest ≤ (entriesAt latest k).countP (·.hash = hash)

/-- The least such hash, which is the first in `hashCount`. -/
def Chosen (config : Configuration) (latest : List DoViewChangeMessage) (k : Nat) (hash : String) :
    Prop := Enough config latest k hash ∧ ∀ hash' < hash, ¬ Enough config latest k hash'

/-- The greatest `lastcommitted` of the messages. -/
def greatestCommitted (latest : List DoViewChangeMessage) : Nat :=
  ((maxElement DoViewChangeMessage.lastcommitted latest).map (·.lastcommitted)).getD 0

/-- As long as there are enough matches, some log has the chosen hash of an opnum and of the next. -/
def Continued (config : Configuration) (latest : List DoViewChangeMessage) : Prop :=
  ∀ k hash hash', greatestCommitted latest < k →
    (∀ j, greatestCommitted latest < j → j ≤ k → ∃ h, Chosen config latest j h) →
    Chosen config latest k hash → Chosen config latest (k + 1) hash' →
    ∃ msg ∈ latest, (∃ e, entryAt msg k = some e ∧ e.hash = hash) ∧
      ∃ e, entryAt msg (k + 1) = some e ∧ e.hash = hash'

variable {config : Configuration} {sha1 : Sha1} {latest : List DoViewChangeMessage}

theorem Chosen.unique {k : Nat} {hash hash' : String} (h : Chosen config latest k hash)
    (h' : Chosen config latest k hash') : hash = hash' := by
  rcases lt_trichotomy hash hash' with hlt | heq | hlt
  · exact absurd h.1 (h'.2 _ hlt)
  · exact heq
  · exact absurd h'.1 (h.2 _ hlt)

theorem matchingEntriesNeeded_pos (h : latest ≠ []) : 0 < matchingEntriesNeeded config latest := by
  have hlen := List.length_pos_iff.mpr h
  unfold matchingEntriesNeeded Configuration.fastQuorumSize
  omega

theorem mem_entriesAt {k : Nat} {e : LogEntry} :
    e ∈ entriesAt latest k ↔ ∃ msg ∈ latest, entryAt msg k = some e := List.mem_filterMap

/-- The loop finds the chosen hash, with the request of one of its entries. -/
theorem Counts.chosen {k : Nat} {counts : StdMap String HashCount}
    (hc : Counts (entriesAt latest k) counts) {hash : String} {x : HashCount}
    (hf : counts.toList.find? (matchingEntriesNeeded config latest ≤ ·.2.count) = some (hash, x))
    (hpos : 0 < matchingEntriesNeeded config latest) : Chosen config latest k hash ∧
      ∃ e ∈ entriesAt latest k, e.hash = hash ∧ e.request = x.request := by
  have hx := StdMap.find?_of_mem (List.mem_of_find?_eq_some hf)
  have hge : matchingEntriesNeeded config latest ≤ x.count := by simpa using List.find?_some hf
  refine ⟨⟨?_, fun hash' hlt henough => ?_⟩, hc.entry hash x hx⟩
  · unfold Enough
    rwa [← hc.count hash x hx]
  · obtain ⟨e, he, heh⟩ := List.countP_pos_iff.mp (hpos.trans_le henough)
    obtain ⟨y, hy⟩ := hc.found e he
    rw [of_decide_eq_true heh] at hy
    have hge' : matchingEntriesNeeded config latest ≤ y.count := by
      rw [hc.count hash' y hy]
      exact henough
    have hle := StdMap.le_of_find?_toList hf (StdMap.mem_of_find? hy) (by simpa using hge')
    exact absurd hlt (not_lt.mpr hle)

/-- When it finds none, no hash has enough. -/
theorem Counts.not_enough {k : Nat} {counts : StdMap String HashCount}
    (hc : Counts (entriesAt latest k) counts)
    (hf : counts.toList.find? (matchingEntriesNeeded config latest ≤ ·.2.count) = none)
    (hpos : 0 < matchingEntriesNeeded config latest) (hash : String) :
    ¬ Enough config latest k hash := by
  intro henough
  obtain ⟨e, he, heh⟩ := List.countP_pos_iff.mp (hpos.trans_le henough)
  obtain ⟨y, hy⟩ := hc.found e he
  rw [of_decide_eq_true heh] at hy
  have hnot := List.find?_eq_none.mp hf _ (StdMap.mem_of_find? hy)
  rw [hc.count hash y hy] at hnot
  exact hnot (decide_eq_true henough)

/-- What the loop takes from opnum `next` on. -/
def Matched (config : Configuration) (latest : List DoViewChangeMessage) (next : Nat)
    (out : List LogEntry) : Prop :=
  ∀ i x, out[i]? = some x → x.opnum = next + i ∧ x.state = .speculative ∧
    Chosen config latest (next + i) x.hash ∧
    ∃ e ∈ entriesAt latest (next + i), e.hash = x.hash ∧ e.request = x.request

theorem matchingEntries_matched (hl : ∀ msg ∈ latest, ∃ l, Reports l msg)
    (hpos : 0 < matchingEntriesNeeded config latest) : ∀ (n : Nat) {next : Nat}, 1 ≤ next →
    ∃ out, matchingEntries config latest n next = some out ∧ Matched config latest next out ∧
      (out.length < n → ∀ hash, ¬ Enough config latest (next + out.length) hash)
  | 0, next, _ => ⟨[], rfl, fun i x hx => by simp at hx, fun h => absurd h (Nat.not_lt_zero _)⟩
  | n + 1, next, hnext => by
      obtain ⟨counts, hcounts, hc⟩ := countHashes_counts hnext hl counts_empty
      rw [List.nil_append] at hc
      unfold matchingEntries
      rw [hcounts, Option.bind_eq_bind, Option.bind_some]
      cases hf : counts.toList.find? (matchingEntriesNeeded config latest ≤ ·.2.count) with
      | none => exact ⟨[], rfl, fun i x hx => by simp at hx, fun _ => hc.not_enough hf hpos⟩
      | some kv =>
        obtain ⟨hash, x⟩ := kv
        obtain ⟨hchosen, hentry⟩ := hc.chosen hf hpos
        obtain ⟨out, hout, hm, hstop⟩ := matchingEntries_matched hl hpos n (Nat.le_succ_of_le hnext)
        simp only [hout, Option.bind_eq_bind, Option.bind_some, Option.pure_def]
        refine ⟨_, rfl, fun i y hy => ?_, fun hlt => ?_⟩
        · cases i with
          | zero =>
            obtain rfl := Option.some.inj hy
            exact ⟨rfl, rfl, hchosen, hentry⟩
          | succ i =>
            have hrest := hm i y hy
            rwa [Nat.succ_add] at hrest
        · have hrest := hstop (Nat.lt_of_succ_lt_succ hlt)
          rwa [Nat.succ_add] at hrest

/-! ### Full logs -/

section Full

variable {msg msg' : DoViewChangeMessage}

/-- The log a message carries. -/
def FullLog.log (h : FullLog sha1 msg) : Log :=
  ⟨msg.entries, fun i e he => (h.numbered i e he).trans (Nat.add_comm 1 i)⟩

theorem FullLog.reports (h : FullLog sha1 msg) : Reports h.log msg where
  entries := rfl
  lastspeculative := h.lastspeculative
  lastcommitted := h.lastcommitted
  committed := by
    intro k hk x hx
    have hop := Log.opnum_of_find hx
    rw [h.state x (List.mem_of_getElem? (Log.find_eq_some.mp hx).2), if_pos (hop.trans_le hk)]

theorem FullLog.entryAt_eq_some (h : FullLog sha1 msg) {k : Nat} {e : LogEntry} :
    entryAt msg k = some e ↔ 1 ≤ k ∧ msg.entries[k - 1]? = some e := by
  rw [h.reports.entryAt, Log.find_eq_some]
  rfl

theorem FullLog.mem_of_entryAt (h : FullLog sha1 msg) {k : Nat} {e : LogEntry}
    (he : entryAt msg k = some e) : e ∈ msg.entries ∧ e.opnum = k := by
  obtain ⟨hk, he⟩ := h.entryAt_eq_some.mp he
  have hop := h.numbered _ e he
  exact ⟨List.mem_of_getElem? he, by omega⟩

theorem FullLog.entryAt_of_mem (h : FullLog sha1 msg) {e : LogEntry} (he : e ∈ msg.entries) :
    1 ≤ e.opnum ∧ e.opnum ≤ msg.lastspeculative ∧ entryAt msg e.opnum = some e := by
  obtain ⟨i, hi⟩ := List.mem_iff_getElem?.mp he
  have hop := h.numbered i e hi
  have hlt := (List.getElem?_eq_some_iff.mp hi).1
  have hspec := h.lastspeculative
  refine ⟨by omega, by omega, h.entryAt_eq_some.mpr ⟨by omega, ?_⟩⟩
  rwa [hop, Nat.add_sub_cancel_left]

theorem FullLog.opnum_le_of_committed (h : FullLog sha1 msg) {e : LogEntry} (he : e ∈ msg.entries)
    (hst : e.state = .committed) : e.opnum ≤ msg.lastcommitted := by
  have hstate := h.state e he
  rw [hst] at hstate
  by_contra hgt
  rw [if_neg hgt] at hstate
  cases hstate

theorem FullLog.lt_opnum_of_speculative (h : FullLog sha1 msg) {e : LogEntry} (he : e ∈ msg.entries)
    (hst : e.state = .speculative) : msg.lastcommitted < e.opnum := by
  have hstate := h.state e he
  rw [hst] at hstate
  by_contra hle
  rw [if_pos (Nat.le_of_not_lt hle)] at hstate
  cases hstate

theorem isHash_lastHashOf (hmsg : msg ∈ latest) (i : Nat) :
    IsHash latest (lastHashOf emptyHash ((msg.entries.map stamp).take i)) := by
  unfold lastHashOf
  cases hl : ((msg.entries.map stamp).take i).getLast? with
  | none => exact Or.inl rfl
  | some x =>
    obtain ⟨e, he, rfl⟩ := List.mem_map.mp (List.mem_of_mem_take (List.mem_of_getLast? hl))
    exact Or.inr ⟨msg, hmsg, e, he, rfl⟩

/-- Entries of equal hash in two of the logs have the same hashes and request ids before them. -/
theorem same_before (hfree : CollisionFreeOn sha1 latest) (hmsg : msg ∈ latest)
    (hmsg' : msg' ∈ latest) (h : FullLog sha1 msg) (h' : FullLog sha1 msg') {k : Nat}
    {e e' : LogEntry} (he : entryAt msg k = some e) (he' : entryAt msg' k = some e')
    (hhash : e.hash = e'.hash) {j : Nat} (hj : j ≤ k) {x : LogEntry} (hx : entryAt msg j = some x) :
    ∃ x', entryAt msg' j = some x' ∧ x'.hash = x.hash ∧ requestId x' = requestId x := by
  have hnone : NoCollision (nextHash sha1) hashKey emptyHash (msg.entries.map stamp)
      (msg'.entries.map stamp) := by
    intro i i' y y' hy hy' heq
    obtain ⟨z, hz, rfl⟩ := List.mem_map.mp (List.mem_of_getElem? hy)
    obtain ⟨z', hz', rfl⟩ := List.mem_map.mp (List.mem_of_getElem? hy')
    exact hfree _ _ (isHash_lastHashOf hmsg i) (isHash_lastHashOf hmsg' i') msg hmsg z hz msg'
      hmsg' z' hz' heq
  obtain ⟨hk, he⟩ := h.entryAt_eq_some.mp he
  obtain ⟨_, he'⟩ := h'.entryAt_eq_some.mp he'
  obtain ⟨hj1, hx⟩ := h.entryAt_eq_some.mp hx
  obtain ⟨a, b, ha, hb, hkey, hab⟩ := h.chained.agree h'.chained hnone
    (k := k - 1) (x := stamp e) (y := stamp e') (by rw [List.getElem?_map, he]; rfl)
    (by rw [List.getElem?_map, he']; rfl) hhash (j - 1) (by omega)
  rw [List.getElem?_map, hx] at ha
  obtain rfl := Option.some.inj ha
  obtain ⟨x', hx', rfl⟩ := Option.map_eq_some_iff.mp (List.getElem?_map (f := stamp) ▸ hb)
  exact ⟨x', h'.entryAt_eq_some.mpr ⟨hj1, hx'⟩, hab.symm, hkey.symm⟩

end Full

/-! ### The log the choices follow -/

/-- When the choices go on, a log with the hash of one of them has those of all before it. -/
theorem Matched.held (hfull : ∀ msg ∈ latest, FullLog sha1 msg)
    (hfree : CollisionFreeOn sha1 latest) (hcont : Continued config latest) {out : List LogEntry}
    (hm : Matched config latest (greatestCommitted latest + 1) out) : ∀ {i : Nat} {x : LogEntry},
    out[i]? = some x → ∀ msg ∈ latest, ∀ e, entryAt msg (greatestCommitted latest + 1 + i) = some e →
    e.hash = x.hash → ∀ j ≤ i, ∀ y, out[j]? = some y →
    ∃ z, entryAt msg (greatestCommitted latest + 1 + j) = some z ∧ z.hash = y.hash ∧
      requestId z = requestId y := by
  have hself : ∀ {i : Nat} {x : LogEntry}, out[i]? = some x → ∀ msg ∈ latest, ∀ e,
      entryAt msg (greatestCommitted latest + 1 + i) = some e → e.hash = x.hash →
      requestId e = requestId x := by
    intro i x hx msg hmsg e he hh
    obtain ⟨_, _, _, e₀, he₀, hh₀, hr₀⟩ := hm i x hx
    obtain ⟨msg₀, hmsg₀, he₀⟩ := mem_entriesAt.mp he₀
    obtain ⟨e', he', _, hid⟩ := same_before hfree hmsg₀ hmsg (hfull _ hmsg₀) (hfull _ hmsg) he₀ he
      (hh₀.trans hh.symm) (Nat.le_refl _) he₀
    obtain rfl : e = e' := Option.some.inj (he.symm.trans he')
    rw [hid]
    exact congrArg hashKey hr₀
  intro i
  induction i with
  | zero =>
    intro x hx msg hmsg e he hh j hj y hy
    obtain rfl := Nat.le_zero.mp hj
    obtain rfl : x = y := Option.some.inj (hx.symm.trans hy)
    exact ⟨e, he, hh, hself hx msg hmsg e he hh⟩
  | succ i ih =>
    intro x hx msg hmsg e he hh j hj y hy
    rcases Nat.le_succ_iff.mp hj with hj | rfl
    · obtain ⟨w, hw⟩ : ∃ w, out[i]? = some w := ⟨_, List.getElem?_eq_getElem
        (Nat.lt_of_succ_lt (List.getElem?_eq_some_iff.mp hx).1)⟩
      -- some log goes from the choice before to this one, and it agrees with `msg`
      obtain ⟨msg₁, hmsg₁, ⟨a, ha, haw⟩, b, hb, hbx⟩ := hcont (greatestCommitted latest + 1 + i)
        w.hash x.hash (by omega) (fun k hk hki => by
          have hlt := (List.getElem?_eq_some_iff.mp hw).1
          obtain ⟨_, _, hchosen, _⟩ := hm (k - (greatestCommitted latest + 1)) _
            (List.getElem?_eq_getElem (by omega))
          rw [Nat.add_sub_cancel' (by omega)] at hchosen
          exact ⟨_, hchosen⟩) (hm i w hw).2.2.1 (hm (i + 1) x hx).2.2.1
      obtain ⟨a', ha', haa, _⟩ := same_before hfree hmsg₁ hmsg (hfull _ hmsg₁) (hfull _ hmsg) hb he
        (hbx.trans hh.symm) (Nat.le_succ _) ha
      exact ih hw msg hmsg a' ha' (haa.trans haw) j hj y hy
    · obtain rfl : x = y := Option.some.inj (hx.symm.trans hy)
      exact ⟨e, he, hh, hself hx msg hmsg e he hh⟩

section Merge

variable {dvcs : StdMap Nat DoViewChangeMessage} {most : DoViewChangeMessage}
  {matching : List LogEntry}

theorem Mergeable.full_latest (h : Mergeable config sha1 dvcs) :
    ∀ msg ∈ latestViewMessages dvcs, FullLog sha1 msg := by
  intro msg hmsg
  obtain ⟨r, hr⟩ := mem_latestViewMessages hmsg
  exact h.full (r, msg) hr

theorem Mergeable.reports (h : Mergeable config sha1 dvcs) :
    ∀ msg ∈ latestViewMessages dvcs, ∃ l, Reports l msg :=
  fun msg hmsg => ⟨_, (h.full_latest msg hmsg).reports⟩

/-- What is at the opnums up to `lastcommitted` of the most committed log. -/
theorem Mergeable.agree_most (h : Mergeable config sha1 dvcs) (hmost : most ∈ latestViewMessages dvcs)
    {msg : DoViewChangeMessage} (hmsg : msg ∈ latestViewMessages dvcs) {i : Nat}
    (hi : i < most.lastcommitted) {e x : LogEntry} (he : most.entries[i]? = some e)
    (hx : msg.entries[i]? = some x) : x.request = e.request ∧ x.hash = e.hash := by
  obtain ⟨r, hr⟩ := mem_latestViewMessages hmost
  have hope := (h.full_latest _ hmost).numbered i e he
  have hopx := (h.full_latest _ hmsg).numbered i x hx
  have hmem := List.mem_of_getElem? he
  refine h.agree (r, most) hr e hmem ?_ msg hmsg x (List.mem_of_getElem? hx) (by omega)
  rw [(h.full_latest _ hmost).state e hmem, if_pos (by omega)]

/-- The committed and the matching entries have the hashes and the request ids of one log. -/
theorem Mergeable.follows (h : Mergeable config sha1 dvcs)
    (hfree : CollisionFreeOn sha1 (latestViewMessages dvcs))
    (hcont : Continued config (latestViewMessages dvcs)) (hmost : most ∈ latestViewMessages dvcs)
    (hc : greatestCommitted (latestViewMessages dvcs) = most.lastcommitted)
    (hm : Matched config (latestViewMessages dvcs) (most.lastcommitted + 1) matching) :
    ∃ msg ∈ latestViewMessages dvcs, ∀ (i : Nat) (y : LogEntry),
      (committedPart (h.full_latest _ hmost).log most.lastcommitted ++ matching)[i]? = some y →
      ∃ z, msg.entries[i]? = some z ∧ z.hash = y.hash ∧ requestId z = requestId y := by
  have hlen := (h.full_latest _ hmost).reports.length_committedPart
  have hcommitted : ∀ (i : Nat) (y : LogEntry), (committedPart (h.full_latest _ hmost).log most.lastcommitted)[i]? =
      some y → ∃ z, most.entries[i]? = some z ∧ i < most.lastcommitted ∧ asCommitted z = y := by
    intro i y hy
    rw [committedPart, List.getElem?_map] at hy
    obtain ⟨z, hz, rfl⟩ := Option.map_eq_some_iff.mp hy
    rw [List.getElem?_take] at hz
    split_ifs at hz with hi
    exact ⟨z, hz, hi, rfl⟩
  rcases List.eq_nil_or_concat' matching with rfl | ⟨before, last, rfl⟩
  · refine ⟨most, hmost, fun i y hy => ?_⟩
    rw [List.append_nil] at hy
    obtain ⟨z, hz, _, rfl⟩ := hcommitted i y hy
    exact ⟨z, hz, rfl, rfl⟩
  · -- a log with the last choice
    have hlast : (before ++ [last])[before.length]? = some last := by simp
    obtain ⟨_, _, _, e, he, heh, _⟩ := hm _ _ hlast
    obtain ⟨msg, hmsg, he⟩ := mem_entriesAt.mp he
    refine ⟨msg, hmsg, fun i y hy => ?_⟩
    rcases Nat.lt_or_ge i most.lastcommitted with hi | hi
    · rw [List.getElem?_append_left (by omega)] at hy
      obtain ⟨z, hz, _, rfl⟩ := hcommitted i y hy
      obtain ⟨hk, he⟩ := (h.full_latest _ hmsg).entryAt_eq_some.mp he
      obtain ⟨x, hx⟩ : ∃ x, msg.entries[i]? = some x := ⟨_, List.getElem?_eq_getElem (by
        have := (List.getElem?_eq_some_iff.mp he).1
        omega)⟩
      obtain ⟨hreq, hhash⟩ := h.agree_most hmost hmsg hi hz hx
      exact ⟨x, hx, hhash, congrArg hashKey hreq⟩
    · rw [List.getElem?_append_right (by omega), hlen] at hy
      rw [← hc] at hm he
      have hle : i - most.lastcommitted ≤ before.length := by
        have := (List.getElem?_eq_some_iff.mp hy).1
        simp at this
        omega
      obtain ⟨z, hz, hzy⟩ := Matched.held h.full_latest hfree hcont hm hlast msg hmsg e he heh _ hle
        y hy
      refine ⟨z, ?_, hzy⟩
      have hz' := ((h.full_latest _ hmsg).entryAt_eq_some.mp hz).2
      rwa [hc, show most.lastcommitted + 1 + (i - most.lastcommitted) - 1 = i by omega] at hz'

end Merge

/-! ### The leftover loop -/

/-- What the merged log is like from the start of the last loop on. -/
structure Merging (sha1 : Sha1) (c : Nat) (out : List LogEntry) : Prop where
  numbered : Log.NumberedFrom 1 out
  long : c ≤ out.length
  state : ∀ e ∈ out, e.state = if e.opnum ≤ c then .committed else .speculative
  chained : Chained (nextHash sha1) hashKey emptyHash (out.map stamp)
  distinct : (out.map requestId).Nodup

section Leftover

variable {c : Nat} {out : List LogEntry} {msg : DoViewChangeMessage}

theorem Merging.appendUnseen (h : Merging sha1 c out) (newView : Nat) (req : Request) :
    out <+: appendUnseen sha1 newView out req ∧ Merging sha1 c (appendUnseen sha1 newView out req) ∧
      ∃ x ∈ appendUnseen sha1 newView out req, requestId x = hashKey req := by
  have hextends : out <+: Spec.appendUnseen sha1 newView out req ∧
      Log.NumberedFrom 1 (Spec.appendUnseen sha1 newView out req) := appendUnseen_extends h.numbered
  unfold Spec.appendUnseen at hextends ⊢
  split_ifs at hextends ⊢ with hseen
  · obtain ⟨x, hx, hid, hreqid⟩ := hseen
    exact ⟨List.prefix_refl _, h, x, hx, Prod.ext hid hreqid⟩
  · have hop := lastOpnum_of_numbered h.numbered
    have hlong := h.long
    refine ⟨hextends.1, ⟨hextends.2, ?_, fun e he => ?_, ?_, ?_⟩, _, List.mem_append_right _
      (List.mem_singleton_self _), rfl⟩
    · rw [List.length_append]
      omega
    · rcases List.mem_append.mp he with he | he
      · exact h.state e he
      · obtain rfl := List.mem_singleton.mp he
        have hgt : ¬ lastOpnum out + 1 ≤ c := by omega
        exact (if_neg hgt).symm
    · rw [List.map_append]
      refine h.chained.concat ?_
      rw [lastHashOf, List.getLast?_map, Option.map_map]
      rfl
    · rw [List.map_append, List.nodup_append_comm]
      refine List.nodup_cons.mpr ⟨fun hmem => hseen ?_, h.distinct⟩
      obtain ⟨x, hx, hxid⟩ := List.mem_map.mp hmem
      exact ⟨x, hx, congrArg Prod.fst hxid, congrArg Prod.snd hxid⟩

theorem FullLog.appendLeftover (hl : FullLog sha1 msg) (h : Merging sha1 c out) (newView : Nat) :
    ∃ out', appendLeftover sha1 newView 0 out msg = some out' ∧ out <+: out' ∧ Merging sha1 c out' ∧
      ∀ e ∈ msg.entries, msg.lastcommitted < e.opnum → ∃ x ∈ out', requestId x = requestId e := by
  obtain ⟨out', hout', hpre, hm, hseen⟩ := foldlM_extends (P := Merging sha1 c)
    (Q := fun i out => ∀ e, entryAt msg i = some e → ∃ x ∈ out, requestId x = requestId e)
    (f := fun out i => (entryAt msg i).map fun entry => Spec.appendUnseen sha1 newView out entry.request)
    (fun i out out' hpre hq e he => (hq e he).imp fun x hx => ⟨hpre.subset hx.1, hx.2⟩)
    (List.range' (max (msg.lastcommitted + 1) 0)
      (msg.lastspeculative + 1 - max (msg.lastcommitted + 1) 0)) h fun i hi out h => by
        have hi' := List.mem_range'_1.mp hi
        obtain ⟨e, he⟩ := hl.reports.exists_entryAt (k := i) (by omega) (by omega)
        obtain ⟨hpre, hm, hseen⟩ := h.appendUnseen newView e.request
        rw [he]
        refine ⟨_, rfl, hpre, hm, fun e' he' => ?_⟩
        obtain rfl := Option.some.inj he'
        exact hseen
  refine ⟨out', hout', hpre, hm, fun e he hlt => ?_⟩
  obtain ⟨_, hle, hentry⟩ := hl.entryAt_of_mem he
  exact hseen e.opnum (List.mem_range'_1.mpr (by omega)) e hentry

/-- A log that starts with opnum 1 is merged alike whether the merge is to start with 0 or with 1. -/
theorem mergeLogs_start {dvcs : StdMap Nat DoViewChangeMessage} {lastSpeculative maxStart : Nat}
    (hfull : ∀ msg ∈ latestViewMessages dvcs, FullLog sha1 msg) (hstart : maxStart ≤ 1)
    (hle : maxStart ≤ lastSpeculative) (newView : Nat) :
    mergeLogs config sha1 lastSpeculative newView maxStart dvcs =
      mergeLogs config sha1 lastSpeculative newView 0 dvcs := by
  have hcommitted : ∀ (es : List LogEntry) (k : Nat), (∀ e ∈ es, 1 ≤ e.opnum) →
      committedEntries maxStart k es = committedEntries 0 k es := by
    intro es k hes
    induction es with
    | nil => rfl
    | cons e es ih =>
      have he := hes e (List.mem_cons_self ..)
      unfold committedEntries
      rw [if_neg (by omega), if_neg (Nat.not_lt_zero _),
        ih fun x hx => hes x (List.mem_cons_of_mem _ hx)]
  have hnext : ∀ k, max (k + 1) maxStart = max (k + 1) 0 := fun k => by omega
  have hleftover : appendLeftover sha1 newView maxStart = appendLeftover sha1 newView 0 := by
    funext out msg
    rw [Spec.appendLeftover, Spec.appendLeftover, hnext]
  unfold mergeLogs
  simp only [hle, Nat.zero_le, hleftover, hnext]
  congr 1
  funext _
  congr 1
  funext _
  cases hmost : maxElement DoViewChangeMessage.lastcommitted (latestViewMessages dvcs) with
  | none => rfl
  | some most =>
    rw [Option.bind_eq_bind, Option.bind_some, Option.bind_some, hcommitted]
    intro e he
    have hne : latestViewMessages dvcs ≠ [] := by
      intro h0
      rw [h0] at hmost
      cases hmost
    obtain ⟨x, hx, hmx, _⟩ := maxElement_eq_some (f := DoViewChangeMessage.lastcommitted) hne
    obtain rfl : x = most := Option.some.inj (hmx.symm.trans hmost)
    exact ((hfull x hx).entryAt_of_mem he).1

end Leftover

/-! ### The merged log -/

section Merged

variable {dvcs : StdMap Nat DoViewChangeMessage} {most : DoViewChangeMessage}
  {matching out : List LogEntry}

/-- Before the last loop, when the choices go on. -/
theorem Mergeable.merging (h : Mergeable config sha1 dvcs)
    (hfree : CollisionFreeOn sha1 (latestViewMessages dvcs))
    (hcont : Continued config (latestViewMessages dvcs)) (hmost : most ∈ latestViewMessages dvcs)
    (hc : greatestCommitted (latestViewMessages dvcs) = most.lastcommitted)
    (hm : Matched config (latestViewMessages dvcs) (most.lastcommitted + 1) matching) :
    Merging sha1 most.lastcommitted
      (committedPart (h.full_latest _ hmost).log most.lastcommitted ++ matching) := by
  have hlen := (h.full_latest _ hmost).reports.length_committedPart
  have hnum := committedPart_numbered (h.full_latest _ hmost).log most.lastcommitted
  obtain ⟨msg, hmsg, hfollows⟩ := h.follows hfree hcont hmost hc hm
  have hfull := h.full_latest _ hmsg
  generalize hbase : committedPart (h.full_latest _ hmost).log most.lastcommitted ++ matching = base
  rw [hbase] at hfollows
  -- the log `msg` up to there, as far as hashes and request ids go
  have hkeys : (msg.entries.take base.length).map (fun e => (requestId e, e.hash)) =
      base.map fun e => (requestId e, e.hash) := by
    refine List.ext_getElem? fun i => ?_
    rw [List.getElem?_map, List.getElem?_map, List.getElem?_take]
    split_ifs with hi
    · obtain ⟨z, hz, hhash, hid⟩ := hfollows i _ (List.getElem?_eq_getElem hi)
      rw [hz, List.getElem?_eq_getElem hi, Option.map_some, Option.map_some, hhash, hid]
    · rw [List.getElem?_eq_none (Nat.le_of_not_lt hi)]
  refine ⟨?_, ?_, ?_, ?_, ?_⟩
  · rw [← hbase]
    refine NumberedFrom.append hnum fun i x hx => ?_
    rw [hlen, Nat.add_comm 1]
    exact (hm i x hx).1
  · rw [← hbase, List.length_append]
    omega
  · rw [← hbase]
    intro e he
    rcases List.mem_append.mp he with he | he
    · obtain ⟨i, hi⟩ := List.mem_iff_getElem?.mp he
      have hop := hnum i e hi
      have hlt := (List.getElem?_eq_some_iff.mp hi).1
      obtain ⟨z, _, rfl⟩ := List.mem_map.mp he
      rw [if_pos (by omega)]
      rfl
    · obtain ⟨i, hi⟩ := List.mem_iff_getElem?.mp he
      obtain ⟨hop, hstate, _⟩ := hm i e hi
      rw [hstate, if_neg (by omega)]
  · have htake := hfull.chained.of_prefix ((List.take_prefix base.length msg.entries).map stamp)
    refine htake.congr ?_
    rw [List.map_map, List.map_map]
    exact hkeys
  · have hids := congrArg (List.map Prod.fst) hkeys
    rw [List.map_map, List.map_map] at hids
    exact hids ▸ hfull.distinct.sublist ((List.take_sublist ..).map requestId)

/-- A chained log that starts so goes on from one choice to the next. -/
theorem Mergeable.continued (h : Mergeable config sha1 dvcs)
    (hfree : CollisionFreeOn sha1 (latestViewMessages dvcs)) (hmost : most ∈ latestViewMessages dvcs)
    (hc : greatestCommitted (latestViewMessages dvcs) = most.lastcommitted)
    (hm : Matched config (latestViewMessages dvcs) (most.lastcommitted + 1) matching)
    (hstop : ∀ hash, ¬ Enough config (latestViewMessages dvcs)
      (most.lastcommitted + 1 + matching.length) hash)
    (hpre : committedPart (h.full_latest _ hmost).log most.lastcommitted ++ matching <+: out)
    (hout : Chained (nextHash sha1) hashKey emptyHash (out.map stamp)) :
    Continued config (latestViewMessages dvcs) := by
  have hlen := (h.full_latest _ hmost).reports.length_committedPart
  intro k hash hash' hk hall hch hch'
  rw [hc] at hk hall
  obtain ⟨i, rfl⟩ := Nat.exists_eq_add_of_lt hk
  have hlong : i + 1 < matching.length := by
    by_contra hle
    rcases Nat.lt_or_ge i matching.length with hlt | hge
    · refine hstop hash' ?_
      rw [show most.lastcommitted + 1 + matching.length = most.lastcommitted + i + 1 + 1 by omega]
      exact hch'.1
    · obtain ⟨hash₁, hch₁⟩ := hall (most.lastcommitted + 1 + matching.length) (by omega) (by omega)
      exact hstop hash₁ hch₁.1
  have hx := List.getElem?_eq_getElem (Nat.lt_of_succ_lt hlong)
  have hy := List.getElem?_eq_getElem hlong
  generalize matching[i] = x at hx
  generalize matching[i + 1] = y at hy
  obtain ⟨_, _, hchx, a, ha, hax, _⟩ := hm i x hx
  obtain ⟨_, _, hchy, b, hb, hby, hbr⟩ := hm (i + 1) y hy
  rw [show most.lastcommitted + 1 + i = most.lastcommitted + i + 1 by omega] at hchx ha
  rw [show most.lastcommitted + 1 + (i + 1) = most.lastcommitted + i + 1 + 1 by omega] at hchy hb
  obtain rfl := hchx.unique hch
  obtain rfl := hchy.unique hch'
  obtain ⟨msg₀, hmsg₀, ha⟩ := mem_entriesAt.mp ha
  obtain ⟨msg, hmsg, hb⟩ := mem_entriesAt.mp hb
  have hfull := h.full_latest _ hmsg
  obtain ⟨_, hbi⟩ := hfull.entryAt_eq_some.mp hb
  obtain ⟨e, he⟩ : ∃ e, msg.entries[most.lastcommitted + i]? = some e :=
    ⟨_, List.getElem?_eq_getElem (by
      have := (List.getElem?_eq_some_iff.mp hbi).1
      omega)⟩
  -- the hash of the second choice, in the merged log and in a log that has it
  have hat : ∀ j z, matching[j]? = some z → (out.map stamp)[most.lastcommitted + j]? = some (stamp z) := by
    intro j z hz
    rw [List.getElem?_map, getElem?_mono hpre (by
      rwa [List.getElem?_append_right (by omega), hlen, Nat.add_sub_cancel_left])]
    rfl
  have hyhash := hout _ _ (hat (i + 1) y hy)
  rw [← Nat.add_assoc, lastHashOf_take_succ (hat i x hx)] at hyhash
  have hbhash := hfull.chained _ (stamp b) (by rw [List.getElem?_map, hbi]; rfl)
  rw [Nat.add_sub_cancel, lastHashOf_take_succ (x := stamp e) (by
    rw [List.getElem?_map, he]; rfl)] at hbhash
  have hsame := (hfree x.hash e.hash
    (Or.inr ⟨msg₀, hmsg₀, a, ((h.full_latest _ hmsg₀).mem_of_entryAt ha).1, hax⟩)
    (Or.inr ⟨msg, hmsg, e, List.mem_of_getElem? he, rfl⟩) msg hmsg b (List.mem_of_getElem? hbi) msg
    hmsg b (List.mem_of_getElem? hbi) (by
      have hyb : computeHash sha1 x.hash y.request = computeHash sha1 e.hash b.request :=
        hyhash.symm.trans (hby.symm.trans hbhash)
      rwa [← hbr] at hyb)).1
  exact ⟨msg, hmsg, ⟨e, hfull.entryAt_eq_some.mpr ⟨Nat.le_add_left .., he⟩, hsame.symm⟩, b, hb, hby⟩

/-- What every latest log has left is in the merged log, once. -/
theorem Mergeable.wellMerged (h : Mergeable config sha1 dvcs)
    (hmost : most ∈ latestViewMessages dvcs)
    (hgreatest : ∀ msg ∈ latestViewMessages dvcs, msg.lastcommitted ≤ most.lastcommitted)
    (hpre : committedPart (h.full_latest _ hmost).log most.lastcommitted <+: out)
    (hm : Merging sha1 most.lastcommitted out)
    (hseen : ∀ msg ∈ latestViewMessages dvcs, ∀ e ∈ msg.entries, msg.lastcommitted < e.opnum →
      ∃ x ∈ out, requestId x = requestId e) : WellMerged sha1 dvcs out := by
  have hfull := h.full_latest _ hmost
  refine ⟨hm.numbered, ⟨_, hm.state⟩, hm.chained, fun kv hkv e he hst => ?_, fun msg hmsg e he hst => ?_⟩
  · -- a committed entry is in the most committed log
    obtain ⟨msg, hmsg, hlast⟩ := h.latest kv hkv
    have hop := (h.full kv hkv).opnum_le_of_committed he hst
    have hle := hop.trans (hlast.trans (hgreatest msg hmsg))
    obtain ⟨h1, _, _⟩ := (h.full kv hkv).entryAt_of_mem he
    obtain ⟨z, hz⟩ : ∃ z, most.entries[e.opnum - 1]? = some z := ⟨_, List.getElem?_eq_getElem (by
      have := hfull.lastcommitted
      omega)⟩
    have hopz := hfull.numbered _ z hz
    have hsame : z.opnum = e.opnum := by omega
    obtain ⟨hreq, hhash⟩ := h.agree kv hkv e he hst most hmost z (List.mem_of_getElem? hz) hsame
    have hmem : z ∈ hfull.log.entries.take most.lastcommitted :=
      List.mem_of_getElem? (i := e.opnum - 1) (by
        rw [List.getElem?_take, if_pos (by omega)]
        exact hz)
    exact ⟨asCommitted z, hpre.subset (List.mem_map_of_mem hmem), hsame, rfl, hreq, hhash⟩
  · have hgt := (h.full_latest msg hmsg).lt_opnum_of_speculative he hst
    obtain ⟨x, hx, hid⟩ := hseen msg hmsg e he hgt
    have hcount := List.count_eq_one_of_mem hm.distinct (List.mem_map.mpr ⟨x, hx, hid⟩)
    rw [List.count, List.countP_map] at hcount
    rw [← hcount]
    exact List.countP_congr fun y _ => by simp

theorem Mergeable.latest_ne (h : Mergeable config sha1 dvcs) : latestViewMessages dvcs ≠ [] := by
  have hquorum := h.quorum
  unfold Configuration.quorumSize StdMap.size at hquorum
  obtain ⟨kv, hkv⟩ := List.exists_mem_of_length_pos (by omega : 0 < dvcs.toList.length)
  obtain ⟨msg, hmsg, _⟩ := h.latest kv hkv
  exact List.ne_nil_of_mem hmsg

/-- The loop over the opnums ends where no hash has enough matches. -/
theorem Mergeable.exists_matched (h : Mergeable config sha1 dvcs) {longest : DoViewChangeMessage}
    (hlongest : ∀ msg ∈ latestViewMessages dvcs, msg.lastspeculative ≤ longest.lastspeculative)
    (c : Nat) : ∃ matching, matchingEntries config (latestViewMessages dvcs)
        (longest.lastspeculative + 1 - (c + 1)) (c + 1) = some matching ∧
      Matched config (latestViewMessages dvcs) (c + 1) matching ∧
      ∀ hash, ¬ Enough config (latestViewMessages dvcs) (c + 1 + matching.length) hash := by
  have hpos : 0 < matchingEntriesNeeded config (latestViewMessages dvcs) := matchingEntriesNeeded_pos h.latest_ne
  obtain ⟨matching, hmatching, hm, hstop⟩ := matchingEntries_matched h.reports hpos
    (longest.lastspeculative + 1 - (c + 1)) (Nat.le_add_left 1 c)
  refine ⟨matching, hmatching, hm, fun hash henough => ?_⟩
  rcases Nat.lt_or_ge matching.length (longest.lastspeculative + 1 - (c + 1)) with hlt | hge
  · exact hstop hlt hash henough
  · -- past the longest log there is nothing to count
    obtain ⟨e, he, _⟩ := List.countP_pos_iff.mp (hpos.trans_le henough)
    obtain ⟨msg, hmsg, he⟩ := mem_entriesAt.mp he
    have hfull := h.full_latest _ hmsg
    obtain ⟨hmem, hop⟩ := hfull.mem_of_entryAt he
    have hshort := (hfull.entryAt_of_mem hmem).2.1
    have hlong := hlongest msg hmsg
    omega

/-- `MergeLogs` returns, and its log is well formed just when the choices go on. -/
theorem mergeLogs_wellMerged_iff (h : Mergeable config sha1 dvcs)
    (hfree : CollisionFreeOn sha1 (latestViewMessages dvcs)) {lastSpeculative maxStart : Nat}
    (hstart : maxStart ≤ 1) (hle : maxStart ≤ lastSpeculative) (newView : Nat) :
    ∃ out, mergeLogs config sha1 lastSpeculative newView maxStart dvcs = some out ∧
      (WellMerged sha1 dvcs out ↔ Continued config (latestViewMessages dvcs)) := by
  rw [mergeLogs_start h.full_latest hstart hle]
  obtain ⟨most, hmost, hmax, hgreatest⟩ :=
    maxElement_eq_some (f := DoViewChangeMessage.lastcommitted) h.latest_ne
  obtain ⟨longest, _, hmaxs, hlongest⟩ :=
    maxElement_eq_some (f := DoViewChangeMessage.lastspeculative) h.latest_ne
  have hc : greatestCommitted (latestViewMessages dvcs) = most.lastcommitted := by
    rw [greatestCommitted, hmax]
    rfl
  obtain ⟨matching, hmatching, hm, hstop⟩ := h.exists_matched hlongest most.lastcommitted
  obtain ⟨out, hout, hpre, _⟩ := mergeLogs_parts h.quorum h.reports hmax hmaxs
    (h.full_latest _ hmost).reports hmatching sha1 lastSpeculative newView
  refine ⟨out, hout, fun hwell => h.continued hfree hmost hc hm hstop hpre hwell.chained,
    fun hcont => ?_⟩
  rw [mergeLogs_eq h.quorum hmax hmaxs (h.full_latest _ hmost).reports hmatching] at hout
  obtain ⟨out', hout', _, hmerged, hseen⟩ := foldlM_extends
    (Q := fun msg out => ∀ e ∈ msg.entries, msg.lastcommitted < e.opnum →
      ∃ x ∈ out, requestId x = requestId e)
    (fun msg out out' hpre hq e he hlt => (hq e he hlt).imp fun x hx => ⟨hpre.subset hx.1, hx.2⟩)
    (latestViewMessages dvcs) (h.merging hfree hcont hmost hc hm)
    fun msg hmsg out hm => (h.full_latest msg hmsg).appendLeftover hm newView
  obtain rfl : out' = out := Option.some.inj (hout'.symm.trans hout)
  exact h.wellMerged hmost hgreatest ((List.prefix_append ..).trans hpre) hmerged hseen

end Merged

/-! Five replicas, four of which sent their logs: two logged the requests of clients 1 and 2 in this
    order, two in the other, and the lesser hash is that of client 2 at both opnums. -/

/-- A hash without collisions, which spells out what it is of. -/
def spelled : Sha1 := fun lastHash clientid clientreqid =>
  String.ofList (List.replicate clientid 'a' ++
    'b' :: (List.replicate clientreqid 'a' ++ 'b' :: lastHash.toList))

def requestOf (clientid : Nat) : Request := { op := "op", clientid := clientid, clientreqid := 1 }

def firstEntry (clientid : Nat) : LogEntry :=
  { viewstamp := { view := 0, opnum := 1 }, state := .speculative, request := requestOf clientid,
    hash := computeHash spelled emptyHash (requestOf clientid) }

def secondEntry (clientid clientid' : Nat) : LogEntry :=
  { viewstamp := { view := 0, opnum := 2 }, state := .speculative, request := requestOf clientid',
    hash := computeHash spelled (firstEntry clientid).hash (requestOf clientid') }

def twoEntryDvc (r clientid clientid' : Nat) : DoViewChangeMessage :=
  { view := 1, lastnormalview := 0, lastspeculative := 2, lastcommitted := 0,
    entries := [firstEntry clientid, secondEntry clientid clientid'], replicaidx := r }

def crossing : StdMap Nat DoViewChangeMessage :=
  (((StdMap.empty.insert 0 (twoEntryDvc 0 1 2)).insert 1 (twoEntryDvc 1 1 2)).insert 2
    (twoEntryDvc 2 2 1)).insert 3 (twoEntryDvc 3 2 1)

theorem replicate_append_inj : ∀ {m n : Nat} {l l' : List Char},
    List.replicate m 'a' ++ 'b' :: l = List.replicate n 'a' ++ 'b' :: l' → m = n ∧ l = l'
  | 0, 0, l, l', h => ⟨rfl, (List.cons.inj h).2⟩
  | 0, n + 1, l, l', h => absurd (List.cons.inj h).1 (by decide)
  | m + 1, 0, l, l', h => absurd (List.cons.inj h).1 (by decide)
  | m + 1, n + 1, l, l', h => by
      obtain ⟨hmn, hl⟩ := replicate_append_inj (List.cons.inj h).2
      exact ⟨congrArg Nat.succ hmn, hl⟩

theorem spelled_injective {h h' : String} {c c' r r' : Nat} (heq : spelled h c r = spelled h' c' r') :
    h = h' ∧ c = c' ∧ r = r' := by
  obtain ⟨hc, hrest⟩ := replicate_append_inj (String.ofList_injective heq)
  obtain ⟨hr, hh⟩ := replicate_append_inj hrest
  exact ⟨String.toList_injective hh, hc, hr⟩

theorem spelled_collisionFree (latest : List DoViewChangeMessage) :
    CollisionFreeOn spelled latest := by
  intro hash hash' _ _ msg _ e _ msg' _ e' _ heq
  obtain ⟨hh, hc, hr⟩ := spelled_injective heq
  exact ⟨hh, Prod.ext hc hr⟩

theorem twoEntryDvc_full (r : Nat) {c c' : Nat} (hne : c ≠ c') :
    FullLog spelled (twoEntryDvc r c c') where
  numbered := Log.numberedFrom_cons.mpr ⟨rfl, Log.numberedFrom_cons.mpr
    ⟨rfl, Log.numberedFrom_nil _⟩⟩
  chained := (chained_nil.concat (x := stamp (firstEntry c)) rfl).concat
    (x := stamp (secondEntry c c')) rfl
  distinct := by simp [twoEntryDvc, firstEntry, secondEntry, requestId, hashKey, requestOf, hne]
  lastspeculative := rfl
  lastcommitted := Nat.zero_le _
  state := by
    intro e he
    rcases List.mem_cons.mp he with rfl | he
    · rfl
    · obtain rfl := List.mem_singleton.mp he
      rfl

theorem mem_crossing {kv : Nat × DoViewChangeMessage} (h : kv ∈ crossing.toList) :
    ∃ r c c', c ≠ c' ∧ kv = (r, twoEntryDvc r c c') := by
  have h' : kv = (0, twoEntryDvc 0 1 2) ∨ kv = (1, twoEntryDvc 1 1 2) ∨ kv = (2, twoEntryDvc 2 2 1) ∨
      kv = (3, twoEntryDvc 3 2 1) := by
    simpa [crossing, StdMap.insert, StdMap.insertList] using h
  rcases h' with rfl | rfl | rfl | rfl <;> exact ⟨_, _, _, by decide, rfl⟩

theorem crossing_mergeable : Mergeable { n := 5, f := 2 } spelled crossing where
  quorum := by decide
  full := by
    intro kv hkv
    obtain ⟨r, c, c', hne, rfl⟩ := mem_crossing hkv
    exact twoEntryDvc_full r hne
  latest := by
    intro kv hkv
    obtain ⟨r, c, c', _, rfl⟩ := mem_crossing hkv
    exact ⟨twoEntryDvc 0 1 2, by decide, Nat.le_refl _⟩
  agree := by
    intro kv hkv e he hst
    obtain ⟨r, c, c', hne, rfl⟩ := mem_crossing hkv
    have hop := (twoEntryDvc_full r hne).opnum_le_of_committed he hst
    have hpos := ((twoEntryDvc_full r hne).entryAt_of_mem he).1
    exact absurd (hpos.trans hop) (Nat.not_succ_le_zero 0)

theorem mergeLogs_wellMerged_iff_crossing :
    ∃ out, mergeLogs { n := 5, f := 2 } spelled 2 1 1 crossing = some out ∧
      (WellMerged spelled crossing out ↔
        Continued { n := 5, f := 2 } (latestViewMessages crossing)) :=
  mergeLogs_wellMerged_iff crossing_mergeable (spelled_collisionFree _) (Nat.le_refl 1) (by decide) 1

/-- Client 2's request is taken at both opnums. -/
theorem crossing_merged_twice : Configuration.Valid { n := 5, f := 2 } ∧
    Mergeable { n := 5, f := 2 } spelled crossing ∧
    (∀ h h' c c' r r', spelled h c r = spelled h' c' r' → h = h' ∧ c = c' ∧ r = r') ∧
    ∀ out, mergeLogs { n := 5, f := 2 } spelled 2 1 0 crossing = some out →
      ¬ WellMerged spelled crossing out := by
  refine ⟨rfl, crossing_mergeable, fun _ _ _ _ _ _ => spelled_injective, fun out hout hwell => ?_⟩
  have htwice : (mergeLogs { n := 5, f := 2 } spelled 2 1 0 crossing).map
      (List.countP (requestId · = (2, 1))) = some 2 := by decide
  rw [hout] at htwice
  have honce := hwell.speculative (twoEntryDvc 2 2 1) (by decide) (firstEntry 2) (by decide) rfl
  exact absurd (honce.symm.trans (Option.some.inj htwice)) (by decide)

/-! ### When no two hashes have enough matches -/

end Dsnet.Spec
