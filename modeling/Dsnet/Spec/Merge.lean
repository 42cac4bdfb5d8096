import Dsnet.Common.Quorum
import Dsnet.Common.Replica
import Mathlib.Data.String.Basic

/-! `SpecReplica::MergeLogs` (`replication/spec/replica.cc`): the log a new view starts with, made
    from the logs of a quorum of DoViewChange messages.

    Only the logs of the greatest last normal view count. The entries one of them has committed are
    kept, then the speculative entries that enough of them agree on, opnum by opnum, and what is
    left is appended in the new view. What a client may have seen succeed is held by a fast quorum,
    so it is among the first two parts (`mergeLogs_keeps`): at each opnum before it the fast
    quorum's entry, and no other, is held by enough of the logs (`count_of_fast`, `count_of_other`),
    because entries of equal hash have equal logs before them. -/

namespace Dsnet.Spec

/-- `DoViewChangeMessage`. -/
structure DoViewChangeMessage where
  view : Nat
  lastnormalview : Nat
  lastspeculative : Nat
  lastcommitted : Nat
  entries : List LogEntry
  replicaidx : Nat
  deriving DecidableEq, Repr

/-- `EMPTY_HASH`. -/
def emptyHash : String := String.ofList (List.replicate 20 (Char.ofNat 0))

/-- SHA-1 of the concatenation of a hash and two 64-bit numbers. -/
abbrev Sha1 := String → Nat → Nat → String

/-- `Log::ComputeHash`. -/
def computeHash (sha1 : Sha1) (lastHash : String) (req : Request) : String :=
  sha1 lastHash req.clientid req.clientreqid

/-! ### The latest logs -/

/-- The first loop of `MergeLogs`: the greatest last normal view so far, and its messages. -/
def addLatest (latest : Nat × List DoViewChangeMessage) (kv : Nat × DoViewChangeMessage) :
    Nat × List DoViewChangeMessage :=
  let (latestView, msgs) :=
    if kv.2.lastnormalview > latest.1 then (kv.2.lastnormalview, []) else latest
  (latestView, if kv.2.lastnormalview = latestView then msgs ++ [kv.2] else msgs)

/-- `latestViewMessages`. -/
def latestViewMessages (dvcs : StdMap Nat DoViewChangeMessage) : List DoViewChangeMessage :=
  (dvcs.toList.foldl addLatest (0, [])).2

/-- `std::max_element` by a number: the first of the greatest, none in an empty range. -/
def maxElement {α : Type} (f : α → Nat) : List α → Option α
  | [] => none
  | x :: xs => some (xs.foldl (fun a y => if f a < f y then y else a) x)

/-- `msg.entries(k - firstEntryOpnum)`, which is asserted to have opnum `k`. -/
def entryAt (msg : DoViewChangeMessage) (k : Nat) : Option LogEntry := do
  let first ← msg.entries[0]?
  guard (first.opnum ≤ k)
  let entry ← msg.entries[k - first.opnum]?
  guard (entry.opnum = k)
  return entry

/-! ### Committed and matching entries -/

/-- The opnum of the last entry of `out`. -/
def lastOpnum (out : List LogEntry) : Nat := (out.getLast?.map LogEntry.opnum).getD 0

/-- The loop over the entries of `mostCommitted`. -/
def committedEntries (maxStart lastcommitted : Nat) : List LogEntry → Option (List LogEntry)
  | [] => some []
  | entry :: rest =>
    if entry.opnum < maxStart then committedEntries maxStart lastcommitted rest
    else if entry.opnum > lastcommitted then some []
    else do
      guard (entry.state = .committed)
      let out ← committedEntries maxStart lastcommitted rest
      return { viewstamp := { view := entry.view, opnum := entry.opnum }, state := .committed,
               request := entry.request, hash := entry.hash } :: out

/-- `hashCount`, `reqsByHash` and `viewnumByHash` of one hash. -/
structure HashCount where
  count : Nat
  request : Request
  view : Nat

/-- Count one more entry. -/
def addHash (counts : StdMap String HashCount) (entry : LogEntry) : StdMap String HashCount :=
  counts.insert entry.hash
    (match counts.find? entry.hash with
    | some x => { x with count := x.count + 1 }
    | none => { count := 1, request := entry.request, view := entry.view })

/-- The entries with opnum `next` of the latest logs, counted by their hashes. -/
def countHashes (next : Nat) : List DoViewChangeMessage → StdMap String HashCount →
    Option (StdMap String HashCount)
  | [], counts => some counts
  | msg :: msgs, counts =>
    if msg.lastspeculative < next then countHashes next msgs counts
    else do
      let entry ← entryAt msg next
      countHashes next msgs (addHash counts entry)

/-- `matchingEntriesNeeded`. -/
def matchingEntriesNeeded (config : Configuration) (latest : List DoViewChangeMessage) : Nat :=
  min (config.fastQuorumSize - config.f) latest.length

/-- The loop that takes the speculative entries with enough matches, over `n` opnums from `next`. -/
def matchingEntries (config : Configuration) (latest : List DoViewChangeMessage) :
    Nat → Nat → Option (List LogEntry)
  | 0, _ => some []
  | n + 1, next => do
    let counts ← countHashes next latest StdMap.empty
    match counts.toList.find? (matchingEntriesNeeded config latest ≤ ·.2.count) with
    | none => some []
    | some (hash, x) => do
      let out ← matchingEntries config latest n (next + 1)
      return { viewstamp := { view := x.view, opnum := next }, state := .speculative,
               request := x.request, hash := hash } :: out

/-! ### Leftover entries -/

/-- Append the request, if `seen` does not have it; `seen` holds the requests of `out`, and `next`
    and `lastHash` go on from its last entry. -/
def appendUnseen (sha1 : Sha1) (newView : Nat) (out : List LogEntry) (req : Request) :
    List LogEntry :=
  if ∃ x ∈ out, x.request.clientid = req.clientid ∧ x.request.clientreqid = req.clientreqid then out
  else
    let lastHash := (out.getLast?.map LogEntry.hash).getD emptyHash
    out ++ [{ viewstamp := { view := newView, opnum := lastOpnum out + 1 }, state := .speculative,
              request := req, hash := computeHash sha1 lastHash req }]

/-- The speculative entries of one of the latest logs. -/
def appendLeftover (sha1 : Sha1) (newView maxStart : Nat) (out : List LogEntry)
    (msg : DoViewChangeMessage) : Option (List LogEntry) :=
  let start := max (msg.lastcommitted + 1) maxStart
  (List.range' start (msg.lastspeculative + 1 - start)).foldlM
    (fun out i => (entryAt msg i).map fun entry => appendUnseen sha1 newView out entry.request) out

/-- `MergeLogs`, by a replica with this `lastSpeculative`. -/
def mergeLogs (config : Configuration) (sha1 : Sha1) (lastSpeculative newView maxStart : Nat)
    (dvcs : StdMap Nat DoViewChangeMessage) : Option (List LogEntry) := do
  guard (dvcs.size ≥ config.quorumSize)
  guard (maxStart ≤ lastSpeculative)
  let latest := latestViewMessages dvcs
  let mostCommitted ← maxElement DoViewChangeMessage.lastcommitted latest
  let committed ← committedEntries maxStart mostCommitted.lastcommitted mostCommitted.entries
  let next := max (lastOpnum committed + 1) maxStart
  let longest ← maxElement DoViewChangeMessage.lastspeculative latest
  let matching ← matchingEntries config latest (longest.lastspeculative + 1 - next) next
  latest.foldlM (appendLeftover sha1 newView maxStart) (committed ++ matching)

/-! ### What a message reports -/

/-- The DoViewChange of a replica with the log `l`, when it carries all of it. -/
structure Reports (l : Log) (msg : DoViewChangeMessage) : Prop where
  entries : msg.entries = l.entries
  lastspeculative : msg.lastspeculative = l.entries.length
  lastcommitted : msg.lastcommitted ≤ l.entries.length
  committed : ∀ k ≤ msg.lastcommitted, ∀ x, l.find k = some x → x.state = .committed

variable {l : Log} {msg : DoViewChangeMessage}

theorem Reports.entryAt (h : Reports l msg) (k : Nat) : entryAt msg k = l.find k := by
  unfold Spec.entryAt
  rw [h.entries]
  cases hl : l.entries with
  | nil => simp [Log.find, hl]
  | cons first rest =>
    have hfirst : first.opnum = 1 := l.numbered 0 first (by rw [hl]; rfl)
    by_cases hk : 1 ≤ k
    · have hk' : ¬ k < 1 := Nat.not_lt.mpr hk
      simp only [Log.find, hl, hk', hfirst, hk, List.getElem?_cons_zero, if_false, guard_true,
        Option.bind_eq_bind, Option.bind_some, Option.pure_def]
      cases hx : (first :: rest)[k - 1]? with
      | none => rfl
      | some x =>
        have hxk : x.opnum = k - 1 + 1 := l.numbered (k - 1) x (by rw [hl]; exact hx)
        simp [hxk, Nat.sub_add_cancel hk]
    · have hk' : k < 1 := Nat.not_le.mp hk
      simp [Log.find, hk', hfirst, hk]

theorem Reports.entryAt_eq_none (h : Reports l msg) {k : Nat} (hk : 1 ≤ k) :
    Spec.entryAt msg k = none ↔ msg.lastspeculative < k := by
  rw [h.entryAt, Log.find_eq_none hk, h.lastspeculative]

theorem Reports.exists_entryAt (h : Reports l msg) {k : Nat} (hk : 1 ≤ k)
    (hle : k ≤ msg.lastspeculative) : ∃ x, Spec.entryAt msg k = some x := by
  rcases hx : Spec.entryAt msg k with _ | x
  · rw [h.entryAt_eq_none hk] at hx
    omega
  · exact ⟨x, rfl⟩

/-! ### The latest messages -/

/-- The greatest last normal view. -/
def latestView (dvcs : List (Nat × DoViewChangeMessage)) : Nat :=
  (dvcs.map (·.2.lastnormalview)).foldl max 0

theorem le_foldl_max (ns : List Nat) (a : Nat) : a ≤ ns.foldl max a ∧ ∀ n ∈ ns, n ≤ ns.foldl max a := by
  induction ns generalizing a with
  | nil => exact ⟨Nat.le_refl _, fun n hn => by cases hn⟩
  | cons m ns ih =>
    obtain ⟨ha, hns⟩ := ih (max a m)
    refine ⟨(le_max_left a m).trans ha, fun n hn => ?_⟩
    rcases List.mem_cons.mp hn with rfl | hn
    · exact (le_max_right a n).trans ha
    · exact hns n hn

theorem le_latestView {dvcs : List (Nat × DoViewChangeMessage)} {kv : Nat × DoViewChangeMessage}
    (h : kv ∈ dvcs) : kv.2.lastnormalview ≤ latestView dvcs :=
  (le_foldl_max _ 0).2 _ (List.mem_map_of_mem h)

/-- After the first loop: the greatest last normal view and the messages that have it. -/
theorem foldl_addLatest (dvcs : List (Nat × DoViewChangeMessage)) :
    dvcs.foldl addLatest (0, []) = (latestView dvcs,
      (dvcs.filter (·.2.lastnormalview = latestView dvcs)).map Prod.snd) := by
  induction dvcs using List.reverseRecOn with
  | nil => rfl
  | append_singleton dvcs kv ih =>
    have hview : latestView (dvcs ++ [kv]) = max (latestView dvcs) kv.2.lastnormalview := by
      simp [latestView]
    rw [List.foldl_append, ih, List.foldl_cons, List.foldl_nil, hview, List.filter_append,
      List.map_append]
    unfold addLatest
    by_cases hgt : kv.2.lastnormalview > latestView dvcs
    · have hold : dvcs.filter (·.2.lastnormalview = kv.2.lastnormalview) = [] := by
        rw [List.filter_eq_nil_iff]
        intro x hx
        have := le_latestView hx
        simp
        omega
      simp [hgt, max_eq_right hgt.le, hold]
    · by_cases heq : kv.2.lastnormalview = latestView dvcs
      · simp [heq]
      · have hle := max_eq_left (Nat.le_of_not_lt hgt)
        simp [hgt, hle, heq]

theorem latestViewMessages_eq (dvcs : StdMap Nat DoViewChangeMessage) :
    latestViewMessages dvcs = (dvcs.toList.filter
      (·.2.lastnormalview = latestView dvcs.toList)).map Prod.snd := by
  rw [latestViewMessages, foldl_addLatest]

theorem maxElement_eq_some {α : Type} {f : α → Nat} {xs : List α} (h : xs ≠ []) :
    ∃ x ∈ xs, maxElement f xs = some x ∧ ∀ y ∈ xs, f y ≤ f x := by
  have hfold : ∀ (ys : List α) (a : α), ∃ x ∈ a :: ys,
      ys.foldl (fun a y => if f a < f y then y else a) a = x ∧ ∀ y ∈ a :: ys, f y ≤ f x := by
    intro ys
    induction ys with
    | nil => exact fun a => ⟨a, by simp, rfl, by simp⟩
    | cons b ys ih =>
      intro a
      obtain ⟨x, hx, hfx, hmax⟩ := ih (if f a < f b then b else a)
      refine ⟨x, ?_, hfx, fun y hy => ?_⟩
      · split_ifs at hx <;> simp at hx ⊢ <;> tauto
      · have hab := hmax _ (List.mem_cons_self ..)
        rcases List.mem_cons.mp hy with rfl | hy
        · split_ifs at hab <;> omega
        · rcases List.mem_cons.mp hy with rfl | hy
          · split_ifs at hab <;> omega
          · exact hmax y (List.mem_cons_of_mem _ hy)
  cases xs with
  | nil => exact absurd rfl h
  | cons a ys =>
    obtain ⟨x, hx, hfx, hmax⟩ := hfold ys a
    exact ⟨x, hx, congrArg some hfx, hmax⟩

/-! ### Counting hashes -/

/-- The counts are those of the entries `es`. -/
structure Counts (es : List LogEntry) (counts : StdMap String HashCount) : Prop where
  found : ∀ e ∈ es, ∃ x, counts.find? e.hash = some x
  count : ∀ hash x, counts.find? hash = some x → x.count = es.countP (·.hash = hash)
  entry : ∀ hash x, counts.find? hash = some x → ∃ e ∈ es, e.hash = hash ∧ e.request = x.request

theorem Counts.addHash {es : List LogEntry} {counts : StdMap String HashCount}
    (h : Counts es counts) (e : LogEntry) : Counts (es ++ [e]) (addHash counts e) := by
  obtain ⟨hfound, hcount, hentry⟩ := h
  unfold Spec.addHash
  refine ⟨fun y hy => ?_, fun hash x hx => ?_, fun hash x hx => ?_⟩
  · by_cases hye : y.hash = e.hash
    · rw [hye, StdMap.find?_insert_self]
      exact ⟨_, rfl⟩
    · rw [StdMap.find?_insert_of_ne _ _ hye]
      rcases List.mem_append.mp hy with hy | hy
      · exact hfound y hy
      · exact absurd (congrArg LogEntry.hash (List.mem_singleton.mp hy)) hye
  · rw [List.countP_append, List.countP_singleton]
    by_cases hh : hash = e.hash
    · subst hh
      rw [StdMap.find?_insert_self] at hx
      obtain rfl := Option.some.inj hx
      cases hold : counts.find? e.hash with
      | none =>
        have hzero : es.countP (·.hash = e.hash) = 0 := by
          rw [List.countP_eq_zero]
          intro y hy heq
          obtain ⟨z, hz⟩ := hfound y hy
          rw [of_decide_eq_true heq, hold] at hz
          cases hz
        simp [hzero]
      | some z => simp [hcount _ z hold]
    · rw [StdMap.find?_insert_of_ne _ _ hh] at hx
      rw [hcount hash x hx]
      simp [Ne.symm hh]
  · by_cases hh : hash = e.hash
    · subst hh
      rw [StdMap.find?_insert_self] at hx
      obtain rfl := Option.some.inj hx
      cases hold : counts.find? e.hash with
      | none => exact ⟨e, by simp, rfl, rfl⟩
      | some z =>
        obtain ⟨y, hy, hyh, hyr⟩ := hentry _ z hold
        exact ⟨y, List.mem_append_left _ hy, hyh, hyr⟩
    · rw [StdMap.find?_insert_of_ne _ _ hh] at hx
      obtain ⟨y, hy, hyh, hyr⟩ := hentry hash x hx
      exact ⟨y, List.mem_append_left _ hy, hyh, hyr⟩

/-- The entries with opnum `next` among the messages. -/
def entriesAt (msgs : List DoViewChangeMessage) (next : Nat) : List LogEntry :=
  msgs.filterMap (entryAt · next)

theorem countHashes_counts {next : Nat} (hnext : 1 ≤ next) : ∀ {msgs : List DoViewChangeMessage}
    {es : List LogEntry} {counts : StdMap String HashCount},
    (∀ msg ∈ msgs, ∃ l, Reports l msg) → Counts es counts →
    ∃ counts', countHashes next msgs counts = some counts' ∧
      Counts (es ++ entriesAt msgs next) counts'
  | [], es, counts, _, h => ⟨counts, rfl, by simpa [entriesAt] using h⟩
  | msg :: msgs, es, counts, hmsgs, h => by
      obtain ⟨l, hl⟩ := hmsgs msg (List.mem_cons_self ..)
      have hrest : ∀ m ∈ msgs, ∃ l, Reports l m := fun m hm => hmsgs m (List.mem_cons_of_mem _ hm)
      unfold countHashes
      by_cases hlt : msg.lastspeculative < next
      · have hnone : entryAt msg next = none := (hl.entryAt_eq_none hnext).mpr hlt
        rw [if_pos hlt, entriesAt, List.filterMap_cons_none (f := (entryAt · next)) hnone]
        exact countHashes_counts hnext hrest h
      · obtain ⟨e, he⟩ := hl.exists_entryAt hnext (Nat.le_of_not_lt hlt)
        rw [if_neg hlt, he, entriesAt, List.filterMap_cons_some (f := (entryAt · next)) he]
        have hstep := countHashes_counts hnext hrest (h.addHash e)
        rwa [List.append_assoc] at hstep

theorem counts_empty : Counts [] StdMap.empty := by
  refine ⟨fun e he => absurd he List.not_mem_nil, fun hash x hx => ?_, fun hash x hx => ?_⟩ <;>
    simp [StdMap.find?] at hx

/-! ### The loop over the opnums -/

/-- Opnum by opnum, the loop takes an entry or stops. -/
theorem matchingEntries_numbered (config : Configuration) {latest : List DoViewChangeMessage}
    (hl : ∀ msg ∈ latest, ∃ l, Reports l msg) : ∀ (n : Nat) {next : Nat}, 1 ≤ next →
    ∃ out, matchingEntries config latest n next = some out ∧ Log.NumberedFrom next out
  | 0, next, _ => ⟨[], rfl, Log.numberedFrom_nil _⟩
  | n + 1, next, hnext => by
      obtain ⟨counts, hcounts, _⟩ := countHashes_counts hnext hl counts_empty
      unfold matchingEntries
      rw [hcounts, Option.bind_eq_bind, Option.bind_some]
      cases counts.toList.find? (matchingEntriesNeeded config latest ≤ ·.2.count) with
      | none => exact ⟨[], rfl, Log.numberedFrom_nil _⟩
      | some kv =>
        obtain ⟨out, hout, hnum⟩ := matchingEntries_numbered config hl n (Nat.le_succ_of_le hnext)
        simp only [hout, Option.bind_eq_bind, Option.bind_some, Option.pure_def]
        exact ⟨_, rfl, Log.numberedFrom_cons.mpr ⟨rfl, hnum⟩⟩

/-- Enough of the entries `es` have the hash of `x` and its request, and too few any other. -/
structure Favours (es : List LogEntry) (needed : Nat) (x : LogEntry) : Prop where
  enough : needed ≤ es.countP (·.hash = x.hash)
  positive : 0 < es.countP (·.hash = x.hash)
  others : ∀ hash, hash ≠ x.hash → es.countP (·.hash = hash) < needed
  request : ∀ e ∈ es, e.hash = x.hash → e.request = x.request

theorem Favours.find {es : List LogEntry} {needed : Nat} {x : LogEntry}
    (h : Favours es needed x) {counts : StdMap String HashCount} (hc : Counts es counts) :
    ∃ y, counts.toList.find? (needed ≤ ·.2.count) = some (x.hash, y) ∧ y.request = x.request := by
  obtain ⟨e, he, heh⟩ := List.countP_pos_iff.mp h.positive
  obtain ⟨z, hz⟩ := hc.found e he
  rw [of_decide_eq_true heh] at hz
  have henough : needed ≤ z.count := by
    rw [hc.count _ z hz]
    exact h.enough
  cases hf : counts.toList.find? (needed ≤ ·.2.count) with
  | none =>
    have := List.find?_eq_none.mp hf _ (StdMap.mem_of_find? hz)
    simp at this
    omega
  | some kv =>
    obtain ⟨hash, y⟩ := kv
    have hy := StdMap.find?_of_mem (List.mem_of_find?_eq_some hf)
    have hge : needed ≤ y.count := by simpa using List.find?_some hf
    have hxh : hash = x.hash := by
      by_contra hne
      have := h.others hash hne
      rw [← hc.count hash y hy] at this
      omega
    subst hxh
    obtain ⟨e', he', hh', hr'⟩ := hc.entry _ y hy
    exact ⟨y, rfl, hr'.symm.trans (h.request e' he' hh')⟩

/-- While the entries of one log are favoured, the loop takes them. -/
theorem matchingEntries_favoured {config : Configuration} {latest : List DoViewChangeMessage}
    (hl : ∀ msg ∈ latest, ∃ l, Reports l msg) {l : Log} {k : Nat} {x : LogEntry}
    (hx : l.find k = some x)
    (hf : ∀ j y, j ≤ k → l.find j = some y →
      Favours (entriesAt latest j) (matchingEntriesNeeded config latest) y) :
    ∀ (n : Nat) {next : Nat}, 1 ≤ next → next ≤ k → k < next + n →
    ∃ out, matchingEntries config latest n next = some out ∧
      ∃ e, out[k - next]? = some e ∧ e.hash = x.hash ∧ e.request = x.request
  | 0, next, _, hle, hlt => by omega
  | n + 1, next, hnext, hle, hlt => by
      obtain ⟨counts, hcounts, hc⟩ := countHashes_counts hnext hl counts_empty
      rw [List.nil_append] at hc
      obtain ⟨y, hy⟩ : ∃ y, l.find next = some y := by
        rcases hnone : l.find next with _ | y
        · have hshort := (Log.find_eq_none hnext).mp hnone
          have hlong := (List.getElem?_eq_some_iff.mp (Log.find_eq_some.mp hx).2).1
          omega
        · exact ⟨y, rfl⟩
      obtain ⟨z, hz, hzr⟩ := (hf next y hle hy).find hc
      unfold matchingEntries
      rw [hcounts, Option.bind_eq_bind, Option.bind_some, hz]
      rcases Nat.lt_or_ge next k with hlt' | hge
      · obtain ⟨out, hout, e, he, heh⟩ := matchingEntries_favoured hl hx hf n
          (Nat.le_succ_of_le hnext) hlt' (by omega)
        simp only [hout, Option.bind_eq_bind, Option.bind_some, Option.pure_def]
        refine ⟨_, rfl, e, ?_, heh⟩
        obtain ⟨d, hd⟩ := Nat.exists_eq_add_of_lt hlt'
        rw [show k - next = d + 1 by omega, List.getElem?_cons_succ]
        rwa [show k - (next + 1) = d by omega] at he
      · obtain rfl : next = k := Nat.le_antisymm hle hge
        rw [hx] at hy
        cases hy
        obtain ⟨out, hout, _⟩ := matchingEntries_numbered config hl n (Nat.le_succ_of_le hnext)
        simp only [hout, Option.bind_eq_bind, Option.bind_some, Option.pure_def]
        rw [Nat.sub_self]
        exact ⟨_, rfl, _, List.getElem?_cons_zero, rfl, hzr⟩

/-! ### The other loops -/

/-- A committed entry, as it is put into the new log. -/
def asCommitted (e : LogEntry) : LogEntry :=
  { viewstamp := { view := e.view, opnum := e.opnum }, state := .committed, request := e.request,
    hash := e.hash }

theorem committedEntries_eq {lastcommitted : Nat} : ∀ {es : List LogEntry} {k : Nat},
    Log.NumberedFrom k es → (∀ e ∈ es, e.opnum ≤ lastcommitted → e.state = .committed) →
    committedEntries 0 lastcommitted es = some ((es.take (lastcommitted + 1 - k)).map asCommitted)
  | [], k, _, _ => by simp [committedEntries]
  | e :: es, k, hnum, hst => by
      obtain ⟨hk, hnum⟩ := Log.numberedFrom_cons.mp hnum
      unfold committedEntries
      rw [if_neg (Nat.not_lt_zero _)]
      by_cases hgt : e.opnum > lastcommitted
      · rw [if_pos hgt, show lastcommitted + 1 - k = 0 by omega]
        rfl
      · have hcommitted := hst e (List.mem_cons_self ..) (Nat.le_of_not_lt hgt)
        have hrest := committedEntries_eq hnum
          (fun x hx => hst x (List.mem_cons_of_mem _ hx))
        rw [if_neg hgt, hrest, show lastcommitted + 1 - k = lastcommitted + 1 - (k + 1) + 1 by omega]
        simp [hcommitted, asCommitted]

/-- The loop takes the committed entries of a full log. -/
theorem Reports.committedEntries (h : Reports l msg) :
    committedEntries 0 msg.lastcommitted msg.entries =
      some ((l.entries.take msg.lastcommitted).map asCommitted) := by
  have hnum : Log.NumberedFrom 1 msg.entries := by
    intro i e he
    rw [h.entries] at he
    rw [l.numbered i e he]
    omega
  rw [committedEntries_eq hnum, h.entries, Nat.add_sub_cancel]
  intro e he hle
  rw [h.entries] at he
  obtain ⟨i, hi⟩ := List.mem_iff_getElem?.mp he
  have hop := l.numbered i e hi
  refine h.committed e.opnum hle e ?_
  rw [Log.find_eq_some, hop]
  exact ⟨Nat.le_add_left .., hi⟩

theorem NumberedFrom.lastOpnum_eq {k : Nat} {out : List LogEntry} (h : Log.NumberedFrom (k + 1) out)
    (hne : out ≠ []) : lastOpnum out = k + out.length := by
  have hpos := List.length_pos_iff.mpr hne
  rw [lastOpnum, List.getLast?_eq_getElem?, List.getElem?_eq_getElem (by omega), Option.map_some,
    Option.getD_some, h _ _ (List.getElem?_eq_getElem _)]
  omega

theorem lastOpnum_of_numbered {out : List LogEntry} (h : Log.NumberedFrom 1 out) :
    lastOpnum out = out.length := by
  rcases eq_or_ne out [] with rfl | hne
  · rfl
  · rw [NumberedFrom.lastOpnum_eq h hne, Nat.zero_add]

theorem NumberedFrom.append {k : Nat} {out more : List LogEntry} (h : Log.NumberedFrom k out)
    (hm : Log.NumberedFrom (k + out.length) more) : Log.NumberedFrom k (out ++ more) := by
  intro i e he
  rcases Nat.lt_or_ge i out.length with hlt | hge
  · exact h i e (by rwa [List.getElem?_append_left hlt] at he)
  · rw [List.getElem?_append_right hge] at he
    have := hm _ e he
    omega

/-- An append at the end of a numbered log. -/
theorem appendUnseen_extends {sha1 : Sha1} {newView : Nat} {out : List LogEntry} {req : Request}
    (h : Log.NumberedFrom 1 out) : out <+: appendUnseen sha1 newView out req ∧
      Log.NumberedFrom 1 (appendUnseen sha1 newView out req) := by
  unfold appendUnseen
  split_ifs
  · exact ⟨List.prefix_refl _, h⟩
  · refine ⟨List.prefix_append .., NumberedFrom.append h ?_⟩
    refine Log.numberedFrom_cons.mpr ⟨?_, Log.numberedFrom_nil _⟩
    show lastOpnum out + 1 = _
    rw [lastOpnum_of_numbered h, Nat.add_comm]

/-- A loop whose every round extends the log and keeps `P` does so, and what each round gains lasts. -/
theorem foldlM_extends {α : Type} {P : List LogEntry → Prop} {Q : α → List LogEntry → Prop}
    {f : List LogEntry → α → Option (List LogEntry)}
    (hmono : ∀ a out out', out <+: out' → Q a out → Q a out') :
    ∀ (as : List α) {out : List LogEntry}, P out →
    (∀ a ∈ as, ∀ out, P out → ∃ out', f out a = some out' ∧ out <+: out' ∧ P out' ∧ Q a out') →
    ∃ out', as.foldlM f out = some out' ∧ out <+: out' ∧ P out' ∧ ∀ a ∈ as, Q a out'
  | [], out, hout, _ => ⟨out, rfl, List.prefix_refl _, hout, fun a ha => by cases ha⟩
  | a :: as, out, hout, hf => by
      obtain ⟨out₁, hout₁, hpre₁, hP₁, hQ₁⟩ := hf a (List.mem_cons_self ..) out hout
      obtain ⟨out₂, hout₂, hpre₂, hP₂, hQ₂⟩ :=
        foldlM_extends hmono as hP₁ (fun b hb => hf b (List.mem_cons_of_mem _ hb))
      rw [List.foldlM_cons, hout₁]
      refine ⟨out₂, hout₂, hpre₁.trans hpre₂, hP₂, fun b hb => ?_⟩
      rcases List.mem_cons.mp hb with rfl | hb
      · exact hmono _ _ _ hpre₂ hQ₁
      · exact hQ₂ b hb

/-- The same for a log that stays numbered. -/
theorem foldlM_numbered {α : Type} {f : List LogEntry → α → Option (List LogEntry)}
    (as : List α) {out : List LogEntry} (hout : Log.NumberedFrom 1 out)
    (hf : ∀ a ∈ as, ∀ out, Log.NumberedFrom 1 out →
      ∃ out', f out a = some out' ∧ out <+: out' ∧ Log.NumberedFrom 1 out') :
    ∃ out', as.foldlM f out = some out' ∧ out <+: out' ∧ Log.NumberedFrom 1 out' := by
  obtain ⟨out', hout', hpre, hnum, _⟩ := foldlM_extends (Q := fun _ _ => True)
    (fun _ _ _ _ _ => trivial) as hout fun a ha out hout => by
      obtain ⟨out', h, hpre, hnum⟩ := hf a ha out hout
      exact ⟨out', h, hpre, hnum, trivial⟩
  exact ⟨out', hout', hpre, hnum⟩

theorem Reports.appendLeftover (h : Reports l msg) (sha1 : Sha1) (newView : Nat)
    {out : List LogEntry} (hout : Log.NumberedFrom 1 out) :
    ∃ out', appendLeftover sha1 newView 0 out msg = some out' ∧ out <+: out' ∧
      Log.NumberedFrom 1 out' := by
  refine foldlM_numbered _ hout fun i hi out hout => ?_
  have hi' := List.mem_range'_1.mp hi
  obtain ⟨e, he⟩ := h.exists_entryAt (k := i) (by omega) (by omega)
  rw [he]
  exact ⟨_, rfl, appendUnseen_extends hout⟩

/-! ### What the replicas hold -/

/-- The hashes of the log are chained from `EMPTY_HASH`. -/
def HashChained (sha1 : Sha1) (l : Log) : Prop :=
  ∀ k e, l.find (k + 1) = some e →
    e.hash = computeHash sha1 (((l.find k).map LogEntry.hash).getD emptyHash) e.request

/-- No collisions: entries with equal hashes have equal requests up to them. -/
def CollisionFree (n : Nat) (logs : Nat → Log) : Prop :=
  ∀ r < n, ∀ r' < n, ∀ k x y, (logs r).find k = some x → (logs r').find k = some y →
    x.hash = y.hash →
    ∀ j ≤ k, ((logs r).find j).map LogEntry.request = ((logs r').find j).map LogEntry.request

/-- At least `q` of the `n` replicas hold an entry with this hash at opnum `k`. -/
def HeldBy (n : Nat) (logs : Nat → Log) (k : Nat) (hash : String) (q : Nat) : Prop :=
  ∃ H : Finset Nat, q ≤ H.card ∧ ∀ r ∈ H, r < n ∧ ∃ x, (logs r).find k = some x ∧ x.hash = hash

/-- Chained logs with equal requests have equal hashes. -/
theorem HashChained.hash_eq {sha1 : Sha1} {l l' : Log} (h : HashChained sha1 l)
    (h' : HashChained sha1 l') {k : Nat} (heq : ∀ j ≤ k,
      (l.find j).map LogEntry.request = (l'.find j).map LogEntry.request) :
    ∀ j ≤ k, (l.find j).map LogEntry.hash = (l'.find j).map LogEntry.hash := by
  intro j
  induction j with
  | zero => exact fun _ => by simp [Log.find]
  | succ j ih =>
    intro hj
    have hprev := ih (Nat.le_of_succ_le hj)
    have hreq := heq (j + 1) hj
    cases hx : l.find (j + 1) with
    | none =>
      cases hy : l'.find (j + 1) with
      | none => rfl
      | some y => simp [hx, hy] at hreq
    | some x =>
      cases hy : l'.find (j + 1) with
      | none => simp [hx, hy] at hreq
      | some y =>
        rw [hx, hy] at hreq
        have hxy : x.request = y.request := Option.some.inj hreq
        rw [Option.map_some, Option.map_some, h j x hx, h' j y hy, hprev, hxy]

/-! ### Counting replicas -/

section Quorums

variable {config : Configuration} {logs : Nat → Log} {dvcs : StdMap Nat DoViewChangeMessage}
  {H : Finset Nat}

/-- The senders of the latest messages whose log has an entry with this hash at opnum `j`. -/
def sendersOf (dvcs : StdMap Nat DoViewChangeMessage) (j : Nat) (hash : String) : Finset Nat :=
  ((dvcs.toList.filter fun kv => decide (kv.2.lastnormalview = latestView dvcs.toList) &&
    (entryAt kv.2 j).any (·.hash = hash)).map Prod.fst).toFinset

theorem countP_entriesAt (dvcs : StdMap Nat DoViewChangeMessage) (j : Nat) (hash : String) :
    (entriesAt (latestViewMessages dvcs) j).countP (·.hash = hash) =
      (sendersOf dvcs j hash).card := by
  rw [sendersOf, StdMap.card_keys_filter, latestViewMessages_eq, entriesAt, List.countP_filterMap,
    List.countP_map, List.countP_filter]
  congr 1
  funext kv
  rw [Bool.and_comm]
  congr 1
  simp only [Function.comp]
  cases entryAt kv.2 j <;> rfl

variable (hdvcs : ∀ r msg, (r, msg) ∈ dvcs.toList → r < config.n ∧ Reports (logs r) msg)
  {j : Nat} {x : LogEntry}

include hdvcs

theorem mem_sendersOf {r : Nat} {hash : String} (hr : r ∈ sendersOf dvcs j hash) :
    r < config.n ∧ ∃ y, (logs r).find j = some y ∧ y.hash = hash := by
  obtain ⟨kv, hkv, rfl⟩ := List.mem_map.mp (List.mem_toFinset.mp hr)
  obtain ⟨hkv, hp⟩ := List.mem_filter.mp hkv
  obtain ⟨hn, hrep⟩ := hdvcs kv.1 kv.2 hkv
  rw [Bool.and_eq_true, hrep.entryAt] at hp
  obtain ⟨y, hy, hyh⟩ := (Option.any_eq_true _ _).mp hp.2
  exact ⟨hn, y, hy, of_decide_eq_true hyh⟩

variable (hold : ∀ r ∈ H, r < config.n ∧ ∃ y, (logs r).find j = some y ∧ y.hash = x.hash)

include hold

/-- Those of a fast quorum that sent a message are counted. -/
theorem card_sendersOf (hlatest : ∀ r ∈ H, ∀ msg, (r, msg) ∈ dvcs.toList →
    msg.lastnormalview = latestView dvcs.toList) :
    H.card + dvcs.size ≤ config.n + (sendersOf dvcs j x.hash).card := by
  have hsub : H ∩ dvcs.keys ⊆ sendersOf dvcs j x.hash := by
    intro r hr
    obtain ⟨hrH, hrk⟩ := Finset.mem_inter.mp hr
    obtain ⟨msg, hmsg⟩ := StdMap.mem_keys.mp hrk
    obtain ⟨_, y, hy, hyh⟩ := hold r hrH
    refine List.mem_toFinset.mpr (List.mem_map.mpr ⟨(r, msg), List.mem_filter.mpr ⟨hmsg, ?_⟩, rfl⟩)
    rw [(hdvcs r msg hmsg).2.entryAt, hy]
    simp [hlatest r hrH msg hmsg, hyh]
  have hunion : H ∪ dvcs.keys ⊆ Finset.range config.n := by
    intro r hr
    rw [Finset.mem_range]
    rcases Finset.mem_union.mp hr with hr | hr
    · exact (hold r hr).1
    · obtain ⟨msg, hmsg⟩ := StdMap.mem_keys.mp hr
      exact (hdvcs r msg hmsg).1
  have h₁ := Finset.card_le_card hsub
  have h₂ := Finset.card_le_card hunion
  have h₃ := Finset.card_inter_add_card_union H dvcs.keys
  rw [Finset.card_range] at h₂
  rw [StdMap.card_keys] at h₃
  omega

/-- None of a fast quorum is counted for another hash. -/
theorem card_sendersOf_other {hash : String} (hne : hash ≠ x.hash) :
    H.card + (sendersOf dvcs j hash).card ≤ config.n := by
  by_contra hlt
  obtain ⟨r, hr, hr'⟩ := quorums_meet (n := config.n) (fun i hi => (hold i hi).1)
    (fun i hi => (mem_sendersOf hdvcs hi).1) (Nat.lt_of_not_le hlt)
  obtain ⟨_, y, hy, hyh⟩ := hold r hr
  obtain ⟨_, z, hz, hzh⟩ := mem_sendersOf hdvcs hr'
  rw [hy] at hz
  cases hz
  exact hne (hzh.symm.trans hyh)

end Quorums

/-! ### The merged log -/

section Merge

variable {config : Configuration} {sha1 : Sha1} {logs : Nat → Log}
  {dvcs : StdMap Nat DoViewChangeMessage} {H : Finset Nat} {k : Nat} {x : LogEntry}

theorem foldl_max_le {ns : List Nat} : ∀ {a b : Nat}, a ≤ b → (∀ n ∈ ns, n ≤ b) →
    ns.foldl max a ≤ b := by
  induction ns with
  | nil => exact fun ha _ => ha
  | cons m ns ih =>
    intro a b ha hns
    exact ih (max_le ha (hns m (List.mem_cons_self ..)))
      fun n hn => hns n (List.mem_cons_of_mem _ hn)

theorem latestView_eq {r : Nat} {msg : DoViewChangeMessage} (h : (r, msg) ∈ dvcs.toList)
    (hmax : ∀ r' msg', (r', msg') ∈ dvcs.toList → msg'.lastnormalview ≤ msg.lastnormalview) :
    msg.lastnormalview = latestView dvcs.toList := by
  refine Nat.le_antisymm (le_latestView h) (foldl_max_le (Nat.zero_le _) fun n hn => ?_)
  obtain ⟨kv, hkv, rfl⟩ := List.mem_map.mp hn
  exact hmax kv.1 kv.2 hkv

theorem mem_latestViewMessages {msg : DoViewChangeMessage} (h : msg ∈ latestViewMessages dvcs) :
    ∃ r, (r, msg) ∈ dvcs.toList := by
  rw [latestViewMessages_eq] at h
  obtain ⟨kv, hkv, rfl⟩ := List.mem_map.mp h
  exact ⟨kv.1, (List.mem_filter.mp hkv).1⟩

/-- At an opnum where a fast quorum holds the hash of `x`, the latest messages favour it. -/
theorem favours_of_fast (hn : config.Valid) (hfree : CollisionFree config.n logs)
    (hquorum : config.quorumSize ≤ dvcs.size)
    (hdvcs : ∀ r msg, (r, msg) ∈ dvcs.toList → r < config.n ∧ Reports (logs r) msg)
    (hH : config.fastQuorumSize ≤ H.card)
    (hold : ∀ r ∈ H, r < config.n ∧ ∃ y, (logs r).find k = some y ∧ y.hash = x.hash)
    (hlatest : ∀ r ∈ H, ∀ msg, (r, msg) ∈ dvcs.toList →
      msg.lastnormalview = latestView dvcs.toList)
    {r₀ : Nat} (hr₀ : r₀ < config.n) (hx : (logs r₀).find k = some x) :
    Favours (entriesAt (latestViewMessages dvcs) k)
      (matchingEntriesNeeded config (latestViewMessages dvcs)) x := by
  have hcount := card_sendersOf hdvcs hold hlatest
  have hlength : (sendersOf dvcs k x.hash).card ≤ (latestViewMessages dvcs).length := by
    rw [← countP_entriesAt]
    exact List.countP_le_length.trans (List.length_filterMap_le ..)
  have hn' : config.n = 2 * config.f + 1 := hn
  unfold Configuration.quorumSize at hquorum
  unfold Configuration.fastQuorumSize at hH
  have hneeded : matchingEntriesNeeded config (latestViewMessages dvcs) =
      config.fastQuorumSize - config.f := by
    refine min_eq_left ?_
    unfold Configuration.fastQuorumSize
    omega
  refine ⟨?_, ?_, fun hash hne => ?_, fun e he heq => ?_⟩
  · rw [hneeded, countP_entriesAt]
    unfold Configuration.fastQuorumSize
    omega
  · rw [countP_entriesAt]
    omega
  · have hother := card_sendersOf_other hdvcs hold hne
    rw [hneeded, countP_entriesAt]
    unfold Configuration.fastQuorumSize
    omega
  · obtain ⟨msg, hmsg, hem⟩ := List.mem_filterMap.mp he
    obtain ⟨r, hr⟩ := mem_latestViewMessages hmsg
    obtain ⟨hrn, hrep⟩ := hdvcs r msg hr
    rw [hrep.entryAt] at hem
    have hreq := hfree r hrn r₀ hr₀ k e x hem hx heq k (Nat.le_refl k)
    rw [hem, hx] at hreq
    exact Option.some.inj hreq

/-- A replica of the fast quorum holds the same hashes up to `k`. -/
theorem held_before (hchain : ∀ r < config.n, HashChained sha1 (logs r))
    (hfree : CollisionFree config.n logs)
    (hold : ∀ r ∈ H, r < config.n ∧ ∃ y, (logs r).find k = some y ∧ y.hash = x.hash)
    {r₀ : Nat} (hr₀ : r₀ < config.n) (hx : (logs r₀).find k = some x) {j : Nat} (hj : j ≤ k)
    {y : LogEntry} (hy : (logs r₀).find j = some y) :
    ∀ r ∈ H, r < config.n ∧ ∃ z, (logs r).find j = some z ∧ z.hash = y.hash := by
  intro r hr
  obtain ⟨hrn, z, hz, hzh⟩ := hold r hr
  have hreq := hfree r hrn r₀ hr₀ k z x hz hx hzh
  have hhash := (hchain r hrn).hash_eq (hchain r₀ hr₀) hreq j hj
  rw [hy] at hhash
  obtain ⟨w, hw, hwh⟩ := Option.map_eq_some_iff.mp hhash
  exact ⟨hrn, w, hw, hwh⟩

/-- The committed part of the merged log. -/
def committedPart (l : Log) (lastcommitted : Nat) : List LogEntry :=
  (l.entries.take lastcommitted).map asCommitted

theorem Reports.length_committedPart {l : Log} {msg : DoViewChangeMessage} (h : Reports l msg) :
    (committedPart l msg.lastcommitted).length = msg.lastcommitted := by
  rw [committedPart, List.length_map, List.length_take]
  exact min_eq_left h.lastcommitted

theorem committedPart_numbered (l : Log) (k : Nat) : Log.NumberedFrom 1 (committedPart l k) := by
  intro i e he
  rw [committedPart, List.getElem?_map] at he
  obtain ⟨z, hz, rfl⟩ := Option.map_eq_some_iff.mp he
  rw [List.getElem?_take] at hz
  split_ifs at hz
  exact (l.numbered i z hz).trans (Nat.add_comm i 1)

/-- The merged log is made of the three parts. -/
theorem mergeLogs_eq (hquorum : config.quorumSize ≤ dvcs.size)
    {most longest : DoViewChangeMessage} {l : Log}
    (hmost : maxElement DoViewChangeMessage.lastcommitted (latestViewMessages dvcs) = some most)
    (hlongest : maxElement DoViewChangeMessage.lastspeculative (latestViewMessages dvcs) =
      some longest)
    (hl : Reports l most) {matching : List LogEntry}
    (hmatching : matchingEntries config (latestViewMessages dvcs)
      (longest.lastspeculative + 1 - (most.lastcommitted + 1)) (most.lastcommitted + 1) =
        some matching) (sha1 : Sha1) (lastSpeculative newView : Nat) :
    mergeLogs config sha1 lastSpeculative newView 0 dvcs =
      (latestViewMessages dvcs).foldlM (appendLeftover sha1 newView 0)
        (committedPart l most.lastcommitted ++ matching) := by
  have hlen := hl.length_committedPart
  have hnext : max (lastOpnum (committedPart l most.lastcommitted) + 1) 0 =
      most.lastcommitted + 1 := by
    rw [Nat.max_zero, lastOpnum_of_numbered (committedPart_numbered l _), hlen]
  have hcommitted : committedEntries 0 most.lastcommitted most.entries =
      some (committedPart l most.lastcommitted) := hl.committedEntries
  unfold mergeLogs
  simp only [hquorum, guard_true, hmost, hlongest, hcommitted, hnext, hmatching, Nat.zero_le,
    Option.bind_eq_bind, Option.pure_def, Option.bind_some]

/-- It starts with the first two. -/
theorem mergeLogs_parts (hquorum : config.quorumSize ≤ dvcs.size)
    (hreports : ∀ msg ∈ latestViewMessages dvcs, ∃ l, Reports l msg)
    {most longest : DoViewChangeMessage} {l : Log}
    (hmost : maxElement DoViewChangeMessage.lastcommitted (latestViewMessages dvcs) = some most)
    (hlongest : maxElement DoViewChangeMessage.lastspeculative (latestViewMessages dvcs) =
      some longest)
    (hl : Reports l most) {matching : List LogEntry}
    (hmatching : matchingEntries config (latestViewMessages dvcs)
      (longest.lastspeculative + 1 - (most.lastcommitted + 1)) (most.lastcommitted + 1) =
        some matching) (sha1 : Sha1) (lastSpeculative newView : Nat) :
    ∃ out, mergeLogs config sha1 lastSpeculative newView 0 dvcs = some out ∧
      committedPart l most.lastcommitted ++ matching <+: out ∧ Log.NumberedFrom 1 out := by
  have hlen := hl.length_committedPart
  have hnum := committedPart_numbered l most.lastcommitted
  obtain ⟨matching', hmatching', hnumm⟩ := matchingEntries_numbered config hreports
    (longest.lastspeculative + 1 - (most.lastcommitted + 1)) (Nat.le_add_left 1 _)
  obtain rfl : matching' = matching := Option.some.inj (hmatching'.symm.trans hmatching)
  rw [mergeLogs_eq hquorum hmost hlongest hl hmatching]
  exact foldlM_numbered _ (NumberedFrom.append hnum (by rwa [hlen, Nat.add_comm]))
    fun msg hmsg out hout => (hreports msg hmsg).elim fun l hl => hl.appendLeftover sha1 newView hout

/-- What a fast quorum holds at an opnum is in the merged log at that opnum, when those of the
    fast quorum that sent their logs are among the latest. -/
theorem mergeLogs_keeps (hn : config.Valid)
    (hchain : ∀ r < config.n, HashChained sha1 (logs r)) (hfree : CollisionFree config.n logs)
    (hcommitted : ∀ r < config.n, ∀ j y, (logs r).find j = some y → y.state = .committed →
      HeldBy config.n logs j y.hash (config.f + 1))
    (hquorum : config.quorumSize ≤ dvcs.size)
    (hdvcs : ∀ r msg, (r, msg) ∈ dvcs.toList → r < config.n ∧ Reports (logs r) msg)
    (hH : config.fastQuorumSize ≤ H.card)
    (hold : ∀ r ∈ H, r < config.n ∧ ∃ y, (logs r).find k = some y ∧ y.hash = x.hash)
    (hlatest : ∀ r ∈ H, ∀ msg, (r, msg) ∈ dvcs.toList →
      ∀ r' msg', (r', msg') ∈ dvcs.toList → msg'.lastnormalview ≤ msg.lastnormalview)
    {r₀ : Nat} (hr₀ : r₀ ∈ H) (hx : (logs r₀).find k = some x) (lastSpeculative newView : Nat) :
    ∃ out, mergeLogs config sha1 lastSpeculative newView 0 dvcs = some out ∧
      Log.NumberedFrom 1 out ∧
      ∃ e, out[k - 1]? = some e ∧ e.request = x.request ∧ e.hash = x.hash := by
  have hr₀n := (hold r₀ hr₀).1
  have hk : 1 ≤ k := (Log.find_eq_some.mp hx).1
  have hreports : ∀ msg ∈ latestViewMessages dvcs, ∃ l, Reports l msg := by
    intro msg hmsg
    obtain ⟨r, hr⟩ := mem_latestViewMessages hmsg
    exact ⟨_, (hdvcs r msg hr).2⟩
  have hfav : ∀ j y, j ≤ k → (logs r₀).find j = some y →
      Favours (entriesAt (latestViewMessages dvcs) j)
        (matchingEntriesNeeded config (latestViewMessages dvcs)) y := by
    intro j y hj hy
    have hbefore := held_before hchain hfree hold hr₀n hx hj hy
    exact favours_of_fast hn hfree hquorum hdvcs hH hbefore
      (fun r hr msg hmsg => latestView_eq hmsg (hlatest r hr msg hmsg)) hr₀n hy
  -- some latest log reaches up to `k`
  obtain ⟨e₁, he₁, _⟩ := List.countP_pos_iff.mp (hfav k x (Nat.le_refl k) hx).positive
  obtain ⟨msg₁, hmsg₁, hentry₁⟩ := List.mem_filterMap.mp he₁
  have hne : latestViewMessages dvcs ≠ [] := List.ne_nil_of_mem hmsg₁
  obtain ⟨most, hmost, hmax, _⟩ := maxElement_eq_some (f := DoViewChangeMessage.lastcommitted) hne
  obtain ⟨longest, hlongest, hmaxs, hle⟩ :=
    maxElement_eq_some (f := DoViewChangeMessage.lastspeculative) hne
  have hreach : k ≤ longest.lastspeculative := by
    obtain ⟨l₁, hl₁⟩ := hreports msg₁ hmsg₁
    have hlt : ¬ msg₁.lastspeculative < k := by
      rw [← hl₁.entryAt_eq_none hk, hentry₁]
      exact Option.some_ne_none _
    exact (Nat.le_of_not_lt hlt).trans (hle msg₁ hmsg₁)
  obtain ⟨r₁, hr₁⟩ := mem_latestViewMessages hmost
  obtain ⟨hr₁n, hrep⟩ := hdvcs r₁ most hr₁
  have hlen := hrep.length_committedPart
  rcases Nat.lt_or_ge most.lastcommitted k with hlt | hge
  · obtain ⟨matching, hmatching, e, he, heh, her⟩ := matchingEntries_favoured hreports hx hfav
      (longest.lastspeculative + 1 - (most.lastcommitted + 1)) (Nat.le_add_left 1 _) hlt (by omega)
    obtain ⟨out, hout, hpre, hnum⟩ := mergeLogs_parts hquorum hreports hmax hmaxs hrep hmatching
      sha1 lastSpeculative newView
    refine ⟨out, hout, hnum, e, getElem?_mono hpre ?_, her, heh⟩
    rwa [List.getElem?_append_right (by omega), hlen, Nat.sub_sub, Nat.add_comm 1]
  · obtain ⟨matching, hmatching, _⟩ := matchingEntries_numbered config hreports
      (longest.lastspeculative + 1 - (most.lastcommitted + 1)) (Nat.le_add_left 1 _)
    obtain ⟨out, hout, hpre, hnum⟩ := mergeLogs_parts hquorum hreports hmax hmaxs hrep hmatching
      sha1 lastSpeculative newView
    obtain ⟨z, hz⟩ : ∃ z, (logs r₁).find k = some z := by
      rw [← hrep.entryAt]
      have h₁ := hrep.lastcommitted
      have h₂ := hrep.lastspeculative
      exact hrep.exists_entryAt hk (by omega)
    -- a committed entry is held by a quorum, which meets the fast quorum
    have hzx : z.hash = x.hash := by
      obtain ⟨Q, hQ, hmem⟩ := hcommitted r₁ hr₁n k z hz (hrep.committed k hge z hz)
      have hn' : config.n = 2 * config.f + 1 := hn
      unfold Configuration.fastQuorumSize at hH
      obtain ⟨r, hrH, hrQ⟩ := quorums_meet (n := config.n) (fun i hi => (hold i hi).1)
        (fun i hi => (hmem i hi).1) (by omega)
      obtain ⟨_, y, hy, hyx⟩ := hold r hrH
      obtain ⟨_, w, hw, hwz⟩ := hmem r hrQ
      obtain rfl : y = w := Option.some.inj (hy.symm.trans hw)
      exact hwz.symm.trans hyx
    have hreq := hfree r₁ hr₁n r₀ hr₀n k z x hz hx hzx k (Nat.le_refl k)
    rw [hz, hx] at hreq
    refine ⟨out, hout, hnum, asCommitted z, getElem?_mono hpre ?_, Option.some.inj hreq, hzx⟩
    rw [List.getElem?_append_left (by omega), committedPart, List.getElem?_map,
      List.getElem?_take, if_pos (by omega), (Log.find_eq_some.mp hz).2]
    rfl

end Merge

/-! A group of three with one speculative request at every replica; two of them sent their logs. -/

/-- SHA-1 of twenty zero bytes and the numbers 7 and 1. -/
def digest : String := String.ofList ([190, 200, 19, 220, 139, 115, 85, 8, 84, 233, 154, 44, 131, 229, 144, 60, 234, 188, 12, 118].map Char.ofNat)

def oneEntry : Log :=
  ⟨[{ viewstamp := { view := 0, opnum := 1 }, state := .speculative,
      request := { op := "a", clientid := 7, clientreqid := 1 }, hash := digest }], by
    intro i e he
    cases i with
    | zero => obtain rfl := Option.some.inj he; rfl
    | succ i => simp at he⟩

def oneLogs (_ : Nat) : Log := oneEntry

def oneDvc (r : Nat) : DoViewChangeMessage :=
  { view := 1, lastnormalview := 0, lastspeculative := 1, lastcommitted := 0,
    entries := oneEntry.entries, replicaidx := r }

def twoDvcs : StdMap Nat DoViewChangeMessage :=
  (StdMap.empty.insert 0 (oneDvc 0)).insert 1 (oneDvc 1)

theorem mergeLogs_keeps_one : ∃ out,
    mergeLogs { n := 3, f := 1 } (fun _ _ _ => digest) 1 1 0 twoDvcs = some out ∧
    Log.NumberedFrom 1 out ∧ ∃ e, out[1 - 1]? = some e ∧
      e.request = { op := "a", clientid := 7, clientreqid := 1 } ∧ e.hash = digest := by
  have hfind : ∀ k x, oneEntry.find k = some x → k = 1 ∧ x = oneEntry.entries[0] := by
    intro k x hx
    obtain ⟨hk, hx⟩ := Log.find_eq_some.mp hx
    obtain ⟨hlt, rfl⟩ := List.getElem?_eq_some_iff.mp hx
    have hk0 : k - 1 = 0 := Nat.lt_one_iff.mp hlt
    exact ⟨by omega, by simp only [hk0]⟩
  have hmem : ∀ r msg, (r, msg) ∈ twoDvcs.toList → r < 3 ∧ msg = oneDvc r := by
    intro r msg h
    have h' : (r, msg) = (0, oneDvc 0) ∨ (r, msg) = (1, oneDvc 1) := by
      simpa [twoDvcs, StdMap.insert, StdMap.insertList] using h
    rcases h' with h' | h' <;> obtain ⟨rfl, rfl⟩ := Prod.mk.inj h' <;> exact ⟨by omega, rfl⟩
  have hvalid : Configuration.Valid { n := 3, f := 1 } := rfl
  have hx : (oneLogs 0).find 1 = some oneEntry.entries[0] := rfl
  have hr₀ : 0 ∈ ({0, 1, 2} : Finset Nat) := by simp
  refine mergeLogs_keeps hvalid ?_ ?_ ?_ ?_ ?_ ?_ ?_ ?_ hr₀ hx 1 1
  · intro r _ k e he
    obtain ⟨_, rfl⟩ := hfind _ e he
    rfl
  · intro r _ r' _ k x y _ _ _ j _
    rfl
  · intro r _ j y hy hst
    obtain ⟨_, rfl⟩ := hfind j y hy
    cases hst
  · decide
  · intro r msg h
    obtain ⟨hr, rfl⟩ := hmem r msg h
    refine ⟨hr, rfl, rfl, Nat.zero_le _, fun k hk x hx => ?_⟩
    obtain ⟨rfl, _⟩ := hfind k x hx
    cases hk
  · decide
  · intro r hr
    have hr' : r = 0 ∨ r = 1 ∨ r = 2 := by simpa using hr
    have hrn : r < 3 := by omega
    exact ⟨hrn, _, rfl, rfl⟩
  · intro r _ msg h r' msg' h'
    obtain ⟨_, rfl⟩ := hmem r msg h
    obtain ⟨_, rfl⟩ := hmem r' msg' h'
    exact Nat.le_refl _

end Dsnet.Spec
