import Dsnet.MinBFT.Stream
import Dsnet.MinBFT.Sent

/-! One replicated sequence in MinBFT. The streams of what the replicas have sent are the ghost: a backup has
    followed that of the primary up to some point, and its log and its ranges are those of the stream up to
    there. A replica takes an op number for decided when enough streams hold a Commit for its batch. -/

namespace Dsnet.MinBFT
open Handler Net.GhostInvariant

/-- What the replicas have sent with their UIs. -/
abbrev Streams := Nat → List UISub

/-- The primary of view 0. -/
abbrev primary : Nat := 0

/-- What a client and its number determine. -/
def key (req : Request) : Nat × Nat := (req.clientid, req.clientreqid)

variable {G : Group} {γ γ' : Streams} {l : List UISub} {r : Nat} {t : Nat → Nat} {s s' : Replica}

/-! ### The invariant -/

/-- Replica `i` has sent a Commit for this UI of the primary. -/
def Committed (γ : Streams) (i ui : Nat) : Prop := ∃ c, UISub.commit c ∈ γ i ∧ c.primaryUi = ui

/-- A quorum with replica `r` has sent Commits for the batch of op number `k`. -/
def Decided (G : Group) (γ : Streams) (r k : Nat) : Prop :=
  ∃ ui lo hi, rangeOf (γ primary) ui = some (lo, hi) ∧ lo ≤ k ∧ k ≤ hi ∧
    ∃ Q, IsQuorum G.config.n (G.config.f + 1) Q ∧ r ∈ Q ∧ ∀ i ∈ Q, Committed γ i ui

/-- The message stands in the stream of its sender. -/
structure GoodUi (G : Group) (γ : Streams) (ui : Nat) (m : UIMessage) : Prop where
  sent : ∃ i, ui = i + 1 ∧ (γ m.replicaId)[i]? = some m.sub
  lt : m.replicaId < G.config.n
  prepare : ∀ q, m.sub = .prepare q → m.replicaId = primary ∧ q.viewNumber = 0
  commit : ∀ c, m.sub = .commit c → c.replicaId = m.replicaId

/-- The messages that are under way. -/
def GoodPacket (G : Group) (γ : Streams) (p : Net.Packet Message) : Prop :=
  ∀ ui m, p.msg = .uiMessage ui m → GoodUi G γ ui m

/-- The log and the ranges are those of a piece `l` of the primary's stream; what comes after is the batch of the
    primary. -/
structure Follows (γ : Streams) (l : List UISub) (r : Nat) (log : Log) (batch : List Request)
    (low high : Nat → Option Nat) : Prop where
  stream : l <+: γ primary
  log : log.contents = (batched l ++ batch).map (Prod.mk 0)
  low : low = fun ui => (rangeOf l ui).map Prod.fst
  high : high = fun ui => (rangeOf l ui).map Prod.snd
  backup : r ≠ primary → batch = []
  leads : r = primary → l = γ primary

/-- The client table is up to date for the log. -/
structure Numbers (log : Log) (table : Nat → Option ClientEntry) : Prop where
  table : ∀ x ∈ log.contents, ∃ e, table x.2.clientid = some e ∧ x.2.clientreqid ≤ e.requestNumber
  once : (log.contents.map fun x => key x.2).Nodup

/-- What is counted has been sent. -/
structure Counts (G : Group) (γ : Streams) (quorum : QuorumSet Nat Commit) : Prop where
  required : quorum.numRequired = G.config.f + 1
  counted : ∀ ui, ∀ x ∈ (quorum.messages ui).toList, x.1 < G.config.n ∧ Committed γ x.1 ui

/-- What waits is good, and waits in the queue of its sender. -/
def Queued (G : Group) (γ : Streams) (queue : Nat → StdMap Nat UIMessage) : Prop :=
  ∀ i, ∀ x ∈ (queue i).toList, GoodUi G γ x.1 x.2 ∧ x.2.replicaId = i

/-- What has been executed begins the log, and was decided. -/
structure Executes (G : Group) (γ : Streams) (r : Nat) (log : Log) (k : Nat) (executed : List (Nat × Request)) :
    Prop where
  committed : ∀ e ∈ log.entries, e.state = .committed → Decided G γ r e.opnum
  le : k ≤ log.contents.length
  executed : executed = (opnumbered log.contents).take k
  decided : ∀ j, 1 ≤ j → j ≤ k → Decided G γ r j

/-- A replica that has followed the primary's stream as far as `l`, at any point of a handler. -/
structure Core (G : Group) (γ : Streams) (l : List UISub) (r : Nat) (t : Nat → Nat) (s : Replica) : Prop where
  view : s.viewNumber = 0
  next : s.nextUi = t
  follows : Follows γ l r s.log s.requestBatch s.lowOp s.highOp
  numbers : r = primary → Numbers s.log s.clientTable
  counts : Counts G γ s.commitQuorum
  queued : Queued G γ s.uiQueue
  sent : γ r = s.sent
  ui : s.sUi = s.sent.length
  executes : Executes G γ r s.log s.commitNumber s.executed
  timer : r ≠ primary → s.timerStarted = false

/-- The replica has sent Commits for the batches it knows. -/
def Own (γ : Streams) (l : List UISub) (r : Nat) : Prop := ∀ ui x, rangeOf l ui = some x → Committed γ r ui

/-- A replica between two handlers. A backup has followed the stream up to the next UI of the primary. -/
def Running (G : Group) (γ : Streams) (r : Nat) (s : Replica) : Prop :=
  ∃ l, Core G γ l r s.nextUi s ∧ Own γ l r ∧ (r ≠ primary → s.nextUi primary = l.length + 1)

/-- A replica that has been stopped. -/
def Halted (G : Group) (γ : Streams) (r : Nat) (s : Replica) : Prop := ∃ l t, Core G γ l r t s

/-- What a step of replica `r` adds to the streams. -/
def Advances (r : Nat) (γ γ' : Streams) : Prop := (∀ i, i ≠ r → γ' i = γ i) ∧ γ r <+: γ' r

/-! ### Longer streams -/

theorem Advances.le (h : Advances r γ γ') (i : Nat) : γ i <+: γ' i := by
  by_cases hi : i = r
  · rw [hi]
    exact h.2
  · rw [h.1 i hi]

theorem Committed.mono {i ui : Nat} (h : Committed γ i ui) (hγ : ∀ i, γ i <+: γ' i) : Committed γ' i ui := by
  obtain ⟨c, hc, hui⟩ := h
  exact ⟨c, (hγ i).subset hc, hui⟩

theorem Decided.mono {k : Nat} (h : Decided G γ r k) (hγ : ∀ i, γ i <+: γ' i) : Decided G γ' r k := by
  obtain ⟨ui, lo, hi, hrange, hlo, hhi, Q, hQ, hr, hall⟩ := h
  exact ⟨ui, lo, hi, rangeOf_mono (hγ primary) hrange, hlo, hhi, Q, hQ, hr, fun i hi => (hall i hi).mono hγ⟩

theorem GoodUi.mono {ui : Nat} {m : UIMessage} (h : GoodUi G γ ui m) (hγ : ∀ i, γ i <+: γ' i) :
    GoodUi G γ' ui m := by
  obtain ⟨i, hui, hi⟩ := h.sent
  exact ⟨⟨i, hui, getElem?_mono (hγ _) hi⟩, h.lt, h.prepare, h.commit⟩

theorem Counts.mono {quorum : QuorumSet Nat Commit} (h : Counts G γ quorum) (hγ : ∀ i, γ i <+: γ' i) :
    Counts G γ' quorum :=
  ⟨h.required, fun ui x hx => ⟨(h.counted ui x hx).1, (h.counted ui x hx).2.mono hγ⟩⟩

theorem Queued.mono {queue : Nat → StdMap Nat UIMessage} (h : Queued G γ queue) (hγ : ∀ i, γ i <+: γ' i) :
    Queued G γ' queue := fun i x hx => ⟨(h i x hx).1.mono hγ, (h i x hx).2⟩

theorem Executes.mono {log : Log} {k : Nat} {executed : List (Nat × Request)}
    (h : Executes G γ r log k executed) (hγ : ∀ i, γ i <+: γ' i) : Executes G γ' r log k executed :=
  ⟨fun e he hst => (h.committed e he hst).mono hγ, h.le, h.executed, fun j h1 hj => (h.decided j h1 hj).mono hγ⟩

theorem Own.mono (h : Own γ l r) (hγ : ∀ i, γ i <+: γ' i) : Own γ' l r := fun ui x hx => (h ui x hx).mono hγ

/-- What holds of a replica while another one takes a step. -/
theorem Core.mono {i : Nat} (h : Core G γ l i t s) (hγ : Advances r γ γ') (hi : i ≠ r) : Core G γ' l i t s where
  view := h.view
  next := h.next
  follows :=
    { stream := h.follows.stream.trans (hγ.le primary)
      log := h.follows.log
      low := h.follows.low
      high := h.follows.high
      backup := h.follows.backup
      leads := fun hp => by
        subst hp
        rw [hγ.1 primary hi]
        exact h.follows.leads rfl }
  numbers := h.numbers
  counts := h.counts.mono hγ.le
  queued := h.queued.mono hγ.le
  sent := (hγ.1 i hi).trans h.sent
  ui := h.ui
  executes := h.executes.mono hγ.le
  timer := h.timer

/-- The invariant of the group, with the streams as its ghost. -/
def sequence (G : Group) : Net.GhostInvariant Replica Message Streams where
  running := Running G
  halted := Halted G
  packet := GoodPacket G
  advances := Advances
  refl _ _ := ⟨fun _ _ => rfl, List.prefix_rfl⟩
  trans h h' := ⟨fun i hi => (h'.1 i hi).trans (h.1 i hi), h.2.trans h'.2⟩
  running_mono h hx hs := by
    obtain ⟨l, hcore, hown, hnext⟩ := hs
    exact ⟨l, hcore.mono h hx, hown.mono h.le, hnext⟩
  halted_mono h hx hs := by
    obtain ⟨l, t, hcore⟩ := hs
    exact ⟨l, t, hcore.mono h hx⟩
  packet_mono h hp ui m hm := (hp ui m hm).mono h.le

/-! ### Execution -/

theorem Executes.setStatus {log : Log} {k : Nat} {executed : List (Nat × Request)}
    (h : Executes G γ r log k executed) {j : Nat} (hj : Decided G γ r j) :
    Executes G γ r (log.setStatus j .committed) k executed := by
  refine ⟨fun e he hst => ?_, ?_, ?_, h.decided⟩
  · obtain ⟨i, hi⟩ := List.mem_iff_getElem?.mp he
    rw [Log.getElem?_entries_setStatus] at hi
    obtain ⟨e₀, he₀, rfl⟩ := Option.map_eq_some_iff.mp hi
    have hopnum := log.numbered i e₀ he₀
    split_ifs at hst ⊢ with hij
    · rw [show LogEntry.opnum { e₀ with state := .committed } = j from hopnum.trans hij]
      exact hj
    · exact h.committed e₀ (List.mem_of_getElem? he₀) hst
  · rw [Log.contents_setStatus]
    exact h.le
  · rw [Log.contents_setStatus]
    exact h.executed

/-- The next entry is executed, which is committed. -/
theorem Executes.next {log : Log} {k : Nat} {executed : List (Nat × Request)}
    (h : Executes G γ r log k executed) {e : LogEntry} (he : log.find (k + 1) = some e)
    (hst : e.state = .committed) : Executes G γ r log (k + 1) (executed ++ [(k + 1, e.request)]) := by
  have hat := (Log.getElem?_contents_of_find he).2
  rw [Nat.add_sub_cancel] at hat
  have hdec := h.committed e (List.mem_of_getElem? (Log.find_eq_some.mp he).2) hst
  rw [Log.opnum_of_find he] at hdec
  refine ⟨h.committed, (List.getElem?_eq_some_iff.mp hat).1, ?_, fun j h1 hj => ?_⟩
  · rw [take_opnumbered_succ hat, h.executed]
    rfl
  · rcases Nat.le_succ_iff.mp hj with hj | rfl
    · exact h.decided j h1 hj
    · exact hdec

theorem Core.setStatus (h : Core G γ l r t s) {j : Nat} (hj : Decided G γ r j) :
    Core G γ l r t { s with log := s.log.setStatus j .committed } where
  view := h.view
  next := h.next
  follows := ⟨h.follows.stream, (Log.contents_setStatus ..).trans h.follows.log, h.follows.low, h.follows.high,
    h.follows.backup, h.follows.leads⟩
  numbers hr := by
    obtain ⟨htable, honce⟩ := h.numbers hr
    rw [← Log.contents_setStatus s.log j .committed] at htable honce
    exact ⟨htable, honce⟩
  counts := h.counts
  queued := h.queued
  sent := h.sent
  ui := h.ui
  executes := h.executes.setStatus hj
  timer := h.timer

theorem Core.execute (h : Core G γ l r t s) {e : LogEntry} (he : s.log.find (s.commitNumber + 1) = some e)
    (hst : e.state = .committed) : Core G γ l r t { s with
      commitNumber := s.commitNumber + 1
      upcalls := s.upcalls ++ [.execute (s.commitNumber + 1) e.request] } where
  view := h.view
  next := h.next
  follows := h.follows
  numbers := h.numbers
  counts := h.counts
  queued := h.queued
  sent := h.sent
  ui := h.ui
  executes := by
    rw [Replica.executed, executions_append]
    exact h.executes.next he hst
  timer := h.timer

/-- A client table entry with the same number, or a later one. -/
theorem Numbers.setClient {log : Log} (h : Numbers log s.clientTable) {c : Nat} {entry : ClientEntry}
    (hentry : ∀ e, s.clientTable c = some e → e.requestNumber ≤ entry.requestNumber) :
    Numbers log (s.setClient c entry).clientTable := by
  refine ⟨fun x hx => ?_, h.once⟩
  obtain ⟨e, he, hle⟩ := h.table x hx
  by_cases hc : x.2.clientid = c
  · rw [hc] at he ⊢
    exact ⟨entry, Function.update_self .., hle.trans (hentry e he)⟩
  · exact ⟨e, (Function.update_of_ne hc ..).trans he, hle⟩

theorem Core.setClient (h : Core G γ l r t s) {c : Nat} {entry : ClientEntry}
    (hentry : ∀ e, s.clientTable c = some e → e.requestNumber ≤ entry.requestNumber) :
    Core G γ l r t (s.setClient c entry) :=
  ⟨h.view, h.next, h.follows, fun hr => (h.numbers hr).setClient hentry, h.counts, h.queued, h.sent, h.ui,
    h.executes, h.timer⟩

theorem Core.setReply (h : Core G γ l r t s) {c : Nat} {client : ClientEntry} (hc : s.clientTable c = some client)
    (reply : Option Reply) (replies : List (Addr × Reply)) :
    Core G γ l r t { s.setClient c { client with ready := reply } with epilogueList := replies } := by
  have h₁ : Core G γ l r t (s.setClient c { client with ready := reply }) := h.setClient fun e he => by
    cases hc.symm.trans he
    exact Nat.le_refl _
  exact ⟨h₁.view, h₁.next, h₁.follows, h₁.numbers, h₁.counts, h₁.queued, h₁.sent, h₁.ui, h₁.executes, h₁.timer⟩

theorem executeLoop_core {E : Env} : ∀ (n : Nat) {s : Replica}, Core G γ l r t s →
    Sat (executeLoop E n) s (fun _ s' _ => Core G γ l r t s') fun s' _ => Core G γ l r t s'
  | 0, _, h => h
  | n + 1, s, h => by
      simp only [executeLoop, executeNext, sat_bind, sat_get, sat_whenSome, sat_when, sat_modify]
      refine ⟨fun e he => ⟨fun hst => ⟨fun client hc => ?_, fun _ => ?_⟩, fun _ => h⟩, fun _ => h⟩
      · exact executeLoop_core n ((h.execute he hst).setReply hc _ _)
      · exact executeLoop_core n (h.execute he hst)

/-! ### Commits -/

theorem commitRange_core : ∀ (n j : Nat) {s : Replica}, Core G γ l r t s →
    (∀ k, j ≤ k → k < j + n → Decided G γ r k) →
    Sat (commitRange j n) s (fun _ s' _ => Core G γ l r t s') fun s' _ => Core G γ l r t s'
  | 0, _, _, h, _ => h
  | n + 1, j, s, h, hdec => by
      simp only [commitRange, sat_bind, sat_get, sat_ofOption, sat_modify]
      refine ⟨fun _ _ => commitRange_core n (j + 1) (h.setStatus (hdec j le_rfl (by omega))) fun k hk hkn => ?_,
        fun _ => h⟩
      exact hdec k (by omega) (by omega)

/-- A quorum of Commits for a batch that the replica knows. -/
theorem decided_of_quorum (hr : r < G.config.n) (hown : Own γ l r) (hstream : l <+: γ primary)
    {quorum : QuorumSet Nat Commit} (h : Counts G γ quorum) {ui lo hi k : Nat}
    (hrange : rangeOf l ui = some (lo, hi)) (hsize : G.config.f + 1 ≤ (quorum.messages ui).size) (hlo : lo ≤ k)
    (hhi : k ≤ hi) : Decided G γ r k := by
  refine ⟨ui, lo, hi, rangeOf_mono hstream hrange, hlo, hhi, insert r (quorum.messages ui).keys,
    ⟨?_, fun i hi => ?_⟩, Finset.mem_insert_self .., fun i hi => ?_⟩
  · rw [← StdMap.card_keys] at hsize
    exact hsize.trans (Finset.card_le_card (Finset.subset_insert ..))
  · rcases Finset.mem_insert.mp hi with rfl | hi
    · exact hr
    · obtain ⟨m, hm⟩ := StdMap.mem_keys.mp hi
      exact (h.counted ui _ hm).1
  · rcases Finset.mem_insert.mp hi with rfl | hi
    · exact hown ui _ hrange
    · obtain ⟨m, hm⟩ := StdMap.mem_keys.mp hi
      exact (h.counted ui _ hm).2

theorem commitBatch_core {E : Env} (hr : r < G.config.n) (h : Core G γ l r t s) (hown : Own γ l r) {ui : Nat}
    (hsize : G.config.f + 1 ≤ (s.commitQuorum.messages ui).size) :
    Sat (commitBatch E ui) s (fun _ s' _ => Core G γ l r t s') fun s' _ => Core G γ l r t s' := by
  simp only [commitBatch, sat_bind, sat_get, sat_ofOption]
  refine ⟨fun lo hlo => ?_, fun _ => h⟩
  rw [h.follows.low] at hlo
  obtain ⟨⟨_, hi⟩, hrange, rfl⟩ := Option.map_eq_some_iff.mp hlo
  have hhigh : s.highOp ui = some hi := by
    rw [h.follows.high]
    exact congrArg (Option.map Prod.snd) hrange
  rw [hhigh]
  refine (commitRange_core _ _ h fun k hk hkn => ?_).mono (fun _ _ _ h₁ => executeLoop_core _ h₁) fun _ _ h => h
  exact decided_of_quorum hr hown h.follows.stream h.counts hrange hsize hk (by simp at hkn; omega)

theorem addCommit_core {E : Env} (hr : r < G.config.n) (h : Core G γ l r t s) (hown : Own γ l r) {m : Commit}
    (hlt : m.replicaId < G.config.n) (hm : Committed γ m.replicaId m.primaryUi) :
    Sat (addCommit E m) s (fun _ s' _ => Core G γ l r t s') fun s' _ => Core G γ l r t s' := by
  have h₁ : Core G γ l r t { s with commitQuorum := s.commitQuorum.add m.primaryUi m.replicaId m } := by
    refine ⟨h.view, h.next, h.follows, h.numbers, ⟨h.counts.required, fun ui x hx => ?_⟩, h.queued, h.sent, h.ui,
      h.executes, h.timer⟩
    rcases QuorumSet.mem_messages_add hx with ⟨rfl, rfl⟩ | hx
    · exact ⟨hlt, hm⟩
    · exact h.counts.counted ui x hx
  simp only [addCommit, sat_bind, sat_modify, sat_get, sat_whenSome]
  refine ⟨fun msgs hmsgs => ?_, fun _ => h₁⟩
  obtain ⟨rfl, hsize⟩ := QuorumSet.checkForQuorum_eq_some.mp hmsgs
  rw [h₁.counts.required] at hsize
  exact commitBatch_core hr h₁ hown hsize

theorem handleCommit_core {E : Env} (hr : r < G.config.n) (h : Core G γ l r t s) (hown : Own γ l r) {m : Commit}
    (hlt : m.replicaId < G.config.n) (hm : Committed γ m.replicaId m.primaryUi) :
    Sat (handleCommit E m) s (fun _ s' _ => Core G γ l r t s') fun s' _ => Core G γ l r t s' := by
  simp only [handleCommit, sat_bind, sat_get, sat_ite, sat_pure]
  exact ⟨fun _ => h, fun _ => addCommit_core hr h hown hlt hm⟩

/-! ### What is sent -/

/-- The handler sends nothing. -/
abbrev Silent {α : Type} (m : RHandler α) : Prop := Emits (fun _ : Output => False) m

theorem silent_append (req : Request) : Silent (append req) :=
  emits_get.bind fun _ => emits_ofOption.bind fun _ => emits_modify

theorem silent_appendRequests : ∀ reqs, Silent (appendRequests reqs)
  | [] => emits_pure
  | req :: reqs => (silent_append req).bind fun _ => silent_appendRequests reqs

theorem silent_commitRange : ∀ n j, Silent (commitRange j n)
  | 0, _ => emits_pure
  | n + 1, _ => emits_get.bind fun _ => emits_ofOption.bind fun _ => emits_modify.bind fun _ =>
      silent_commitRange n _

theorem silent_executeLoop {E : Env} : ∀ n, Silent (executeLoop E n)
  | 0 => emits_pure
  | n + 1 => emits_get.bind fun _ => Emits.whenSome fun _ => Emits.when <|
      (emits_modify.bind fun _ => emits_get.bind fun _ => emits_modify.bind fun _ =>
        Emits.whenSome fun _ => emits_modify.bind fun _ => emits_modify).bind fun _ => silent_executeLoop n

theorem silent_addCommit {E : Env} (m : Commit) : Silent (addCommit E m) :=
  emits_modify.bind fun _ => emits_get.bind fun _ => Emits.whenSome fun _ =>
    emits_get.bind fun _ => emits_ofOption.bind fun _ => (silent_commitRange _ _).bind fun _ =>
      silent_executeLoop _

theorem silent_handleCommit {E : Env} (m : Commit) : Silent (handleCommit E m) :=
  emits_get.bind fun _ => emits_pure.ite (silent_addCommit m)

/-- A handler that sends nothing leaves the streams as they are. -/
theorem spec_of_silent {α : Type} {n : Nat} {m : RHandler α} {J : Replica → Prop} (hm : Silent m)
    (h : Sat m s (fun _ s' _ => J s') fun s' _ => Halted G γ r s') :
    (sequence G).Spec n r γ m s fun _ γ' s' => γ' = γ ∧ J s' := by
  refine (h.and (hm s)).mono (fun a s' o h => ?_) fun s' o h => ?_
  · exact ⟨γ, (sequence G).refl r γ, ⟨rfl, h.1⟩, fun x hx => (h.2 x hx).elim⟩
  · exact ⟨γ, (sequence G).refl r γ, h.1, fun x hx => (h.2 x hx).elim⟩

/-- The streams when replica `r` has sent one more message. -/
def Streams.push (γ : Streams) (r : Nat) (sub : UISub) : Streams := Function.update γ r (γ r ++ [sub])

theorem Streams.push_self (sub : UISub) : γ.push r sub r = γ r ++ [sub] := Function.update_self ..

theorem advances_push (sub : UISub) : Advances r γ (γ.push r sub) := by
  refine ⟨fun i hi => Function.update_of_ne hi .., ?_⟩
  rw [Streams.push_self]
  exact List.prefix_append ..

/-- A message that may be sent with a UI. -/
structure Sendable (r : Nat) (sub : UISub) : Prop where
  prepare : ∀ q, sub = .prepare q → r = primary ∧ q.viewNumber = 0
  commit : ∀ c, sub = .commit c → c.replicaId = r

/-- A message is sent with the UI that has been allocated. -/
theorem sendUi_bind {α : Type} {J : α → Streams → Replica → Prop} {k : Unit → RHandler α} (hr : r < G.config.n)
    (hsent : γ r = s.sent) (hui : s.sUi = s.sent.length + 1) {sub : UISub} (hsub : Sendable r sub)
    (h : (sequence G).Spec G.config.n r (γ.push r sub) (k ()) { s with sent := s.sent ++ [sub] } J) :
    (sequence G).Spec G.config.n r γ (sendUi (G.env r) sub >>= k) s J := by
  refine Spec.bind (J := fun _ γ' s' => γ' = γ.push r sub ∧ s' = { s with sent := s.sent ++ [sub] }) ?_ ?_
  · simp only [sendUi, Net.GhostInvariant.Spec, sat_bind, sat_get, sat_emit, sat_modify]
    refine ⟨γ.push r sub, advances_push sub, ⟨rfl, rfl⟩, fun x hx p hp ui m hm => ?_⟩
    obtain rfl := List.mem_singleton.mp hx
    obtain ⟨i, -, rfl⟩ := List.mem_map.mp hp
    cases hm
    have hlast : (γ.push r sub r)[s.sent.length]? = some sub := by
      rw [Streams.push_self, hsent]
      exact List.getElem?_concat_length
    exact ⟨⟨s.sent.length, hui, hlast⟩, hr, hsub.prepare, hsub.commit⟩
  · rintro _ _ _ _ ⟨rfl, rfl⟩
    exact h

/-- A Commit is sent. -/
theorem sendCommit_spec (hr : r < G.config.n) (h : Core G γ l r t s) {ui : Nat}
    (hown : ∀ ui' x, rangeOf l ui' = some x → ui' ≠ ui → Committed γ r ui') :
    (sequence G).Spec G.config.n r γ (sendCommit (G.env r) ui) s fun _ γ' s' =>
      ∃ l', Core G γ' l' r t s' ∧ Own γ' l' r ∧ (r ≠ primary → l' = l) := by
  rw [sendCommit, spec_modify_bind, spec_get_bind]
  obtain ⟨m, hm, hid, hprimary⟩ : ∃ m, Replica.commitFor (G.env r) { s with sUi := s.sUi + 1 } ui = m ∧
      m.replicaId = r ∧ m.primaryUi = ui := ⟨_, rfl, rfl, rfl⟩
  rw [hm]
  have hle := (advances_push (γ := γ) (r := r) (.commit m)).le
  have hsub : Sendable r (.commit m) := ⟨(fun _ hq => by cases hq), fun c hc => UISub.commit.inj hc ▸ hid⟩
  refine sendUi_bind (s := { s with sUi := s.sUi + 1 }) hr h.sent (congrArg Nat.succ h.ui) hsub ?_
  have hcommitted : Committed (γ.push r (.commit m)) r ui := by
    refine ⟨m, ?_, hprimary⟩
    rw [Streams.push_self]
    exact List.mem_concat_self
  -- a Commit of the primary is in the stream that it follows itself
  obtain ⟨l', hfollows, hrange, hl'⟩ : ∃ l', Follows (γ.push r (.commit m)) l' r s.log s.requestBatch s.lowOp s.highOp ∧
      rangeOf l' = rangeOf l ∧ (r ≠ primary → l' = l) := by
    have hf := h.follows
    by_cases hp : r = primary
    · subst hp
      have hbatched : batched (l ++ [.commit m]) = batched l := by
        rw [batched_concat]
        exact List.append_nil _
      refine ⟨l ++ [.commit m], ⟨?_, ?_, ?_, ?_, fun h0 => (h0 rfl).elim, fun _ => ?_⟩, rangeOf_concat_commit m,
        fun h0 => (h0 rfl).elim⟩
      · rw [Streams.push_self, hf.leads rfl]
      · rw [hbatched]
        exact hf.log
      · rw [rangeOf_concat_commit]
        exact hf.low
      · rw [rangeOf_concat_commit]
        exact hf.high
      · rw [Streams.push_self, hf.leads rfl]
    · exact ⟨l, ⟨hf.stream.trans (hle primary), hf.log, hf.low, hf.high, hf.backup, fun h0 => (hp h0).elim⟩, rfl,
        fun _ => rfl⟩
  have hown' : Own (γ.push r (.commit m)) l' r := by
    intro ui' x hx
    rw [hrange] at hx
    by_cases hui : ui' = ui
    · rw [hui]
      exact hcommitted
    · exact (hown ui' x hx hui).mono hle
  have hcore : Core G (γ.push r (.commit m)) l' r t { s with
      sUi := s.sUi + 1
      sent := s.sent ++ [.commit m] } := by
    refine ⟨h.view, h.next, hfollows, h.numbers, h.counts.mono hle, h.queued.mono hle, ?_, ?_, h.executes.mono hle,
      h.timer⟩
    · rw [Streams.push_self, h.sent]
    · rw [List.length_append, ← h.ui]
      rfl
  have hcounted : Committed (γ.push r (.commit m)) m.replicaId m.primaryUi := by
    rw [hid, hprimary]
    exact hcommitted
  refine (spec_of_silent (silent_addCommit m) ((addCommit_core hr hcore hown' (hid ▸ hr) hcounted).mono
    (fun _ _ _ h => h) fun _ _ h => ⟨l', t, h⟩)).mono fun _ _ s' _ hs' => ?_
  obtain ⟨rfl, hs'⟩ := hs'
  exact ⟨l', hs', hown', hl'⟩

/-! ### Prepares -/

theorem lastOpnum_eq_contents (log : Log) : log.lastOpnum = log.contents.length := by
  rw [log.lastOpnum_eq, Log.length_contents]

theorem prefix_concat {x : UISub} {m : List UISub} (hl : l <+: m) (hx : m[l.length]? = some x) : l ++ [x] <+: m := by
  obtain ⟨rest, rfl⟩ := hl
  rw [List.getElem?_append_right (Nat.le_refl _), Nat.sub_self] at hx
  cases rest with
  | nil => cases hx
  | cons y rest =>
    cases hx
    exact ⟨rest, List.append_assoc ..⟩

theorem Executes.logged {log log' : Log} {k : Nat} {executed : List (Nat × Request)}
    (h : Executes G γ r log k executed) (hpre : log.contents <+: log'.contents)
    (hmem : ∀ e ∈ log'.entries, e ∈ log.entries ∨ e.state = .prepared) : Executes G γ r log' k executed := by
  refine ⟨fun e he hst => ?_, h.le.trans hpre.length_le, ?_, h.decided⟩
  · rcases hmem e he with he | he
    · exact h.committed e he hst
    · rw [he] at hst
      cases hst
  · rw [take_opnumbered_mono hpre h.le]
    exact h.executed

/-- The next message of the primary is a Prepare, whose requests a backup logs. -/
theorem Follows.prepare {log log' : Log} {batch : List Request} {low high : Nat → Option Nat}
    (h : Follows γ l r log batch low high) (hr : r ≠ primary) {m : Prepare}
    (hm : (γ primary)[l.length]? = some (.prepare m))
    (hlog : log'.contents = log.contents ++ m.signedRequest.map (Prod.mk 0)) :
    Follows γ (l ++ [.prepare m]) r log' batch
      (Function.update low (l.length + 1) (some (log.lastOpnum + 1)))
      (Function.update high (l.length + 1) (some log'.lastOpnum)) := by
  have hbatch := h.backup hr
  have hcontents : log.contents = (batched l).map (Prod.mk 0) := by
    rw [h.log, hbatch, List.append_nil]
  have hlast : log.lastOpnum = (batched l).length := by
    rw [lastOpnum_eq_contents, hcontents, List.length_map]
  have hlast' : log'.lastOpnum = (batched l).length + m.signedRequest.length := by
    rw [lastOpnum_eq_contents, hlog, List.length_append, List.length_map, ← lastOpnum_eq_contents, hlast]
  refine ⟨prefix_concat h.stream hm, ?_, ?_, ?_, fun _ => hbatch, fun h0 => (hr h0).elim⟩
  · rw [hlog, hcontents, hbatch, List.append_nil, batched_concat, List.map_append]
    rfl
  · rw [h.low, hlast]
    exact update_rangeOf Prod.fst m
  · rw [h.high, hlast']
    exact update_rangeOf Prod.snd m

theorem getLeaderIndex_zero (c : Configuration) : c.getLeaderIndex 0 = primary := Nat.zero_mod _

/-- What handling a message of the primary's stream leaves, or one of another stream. -/
def Handled (G : Group) (l : List UISub) (k r : Nat) (t : Nat → Nat) (γ : Streams) (s : Replica) : Prop :=
  ∃ l', Core G γ l' r t s ∧ Own γ l' r ∧ (r ≠ primary → l'.length = l.length + k)

theorem handlePrepare_spec (hr : r < G.config.n) (h : Core G γ l r t s) (hown : Own γ l r) {m : Prepare} {ui : Nat}
    (hview : m.viewNumber = 0) (hm : r ≠ primary → ui = l.length + 1 ∧ (γ primary)[l.length]? = some (.prepare m)) :
    (sequence G).Spec G.config.n r γ (handlePrepare (G.env r) m ui) s fun _ => Handled G l 1 r t := by
  rw [handlePrepare, spec_get_bind, spec_ite, spec_ite, spec_ite]
  refine ⟨fun hlt => ?_, fun _ => ⟨fun _ => spec_abort.mpr (Ends.same ⟨l, t, h⟩), fun _ =>
    ⟨fun _ => spec_abort.mpr (Ends.same ⟨l, t, h⟩), fun hno => ?_⟩⟩⟩
  · rw [hview, h.view] at hlt
    exact (Nat.lt_irrefl 0 hlt).elim
  have hp : r ≠ primary := by
    rw [h.view, getLeaderIndex_zero] at hno
    exact fun h0 => hno h0.symm
  obtain ⟨rfl, hnext⟩ := hm hp
  rw [spec_modify_bind]
  refine Spec.bind (spec_of_silent (silent_appendRequests _) ((appendRequests_spec ..).mono
    (fun _ _ _ h => h) fun _ _ h => h.elim)) ?_
  rintro _ γ₁ _ _ ⟨hγ, log, rfl, hlog, hmem⟩
  subst hγ
  simp only [h.view] at hlog
  rw [spec_modify_bind]
  have hcore : Core G γ₁ (l ++ [.prepare m]) r t { s with
      lowOp := Function.update s.lowOp (l.length + 1) (some (s.log.lastOpnum + 1))
      log := log
      highOp := Function.update s.highOp (l.length + 1) (some log.lastOpnum) } :=
    ⟨h.view, h.next, h.follows.prepare hp hnext hlog, fun h0 => (hp h0).elim, h.counts, h.queued, h.sent, h.ui,
      h.executes.logged (hlog ▸ List.prefix_append ..) hmem, h.timer⟩
  refine (sendCommit_spec hr hcore fun ui' x hx (hui : ui' ≠ l.length + 1) => ?_).mono fun _ γ' s' _ hs' => ?_
  · rw [rangeOf_concat_of_ne _ hui] at hx
    exact hown ui' x hx
  · obtain ⟨l', hcore', hown', hl'⟩ := hs'
    exact ⟨l', hcore', hown', fun _ => by rw [hl' hp, List.length_append, List.length_singleton]⟩

/-! ### The order of the UIs -/

/-- The next message of the primary is a Commit. -/
theorem Core.skip (h : Core G γ l r t s) (hp : r ≠ primary) {c : Commit}
    (hc : (γ primary)[l.length]? = some (.commit c)) : Core G γ (l ++ [.commit c]) r t s := by
  have hf := h.follows
  have hbatched : batched (l ++ [.commit c]) = batched l := by
    rw [batched_concat]
    exact List.append_nil _
  refine ⟨h.view, h.next, ⟨prefix_concat hf.stream hc, ?_, ?_, ?_, hf.backup, fun h0 => (hp h0).elim⟩, h.numbers,
    h.counts, h.queued, h.sent, h.ui, h.executes, h.timer⟩
  · rw [hbatched]
    exact hf.log
  · rw [rangeOf_concat_commit]
    exact hf.low
  · rw [rangeOf_concat_commit]
    exact hf.high

theorem handleUi_spec (hr : r < G.config.n) (h : Core G γ l r t s) (hown : Own γ l r) {ui : Nat} {m : UIMessage}
    (hm : GoodUi G γ ui m) (hui : m.replicaId = primary → r ≠ primary → ui = l.length + 1) :
    (sequence G).Spec G.config.n r γ (handleUi (G.env r) ui m.sub) s
      fun _ => Handled G l (if m.replicaId = primary then 1 else 0) r t := by
  obtain ⟨i, rfl, hi⟩ := hm.sent
  cases hsub : m.sub with
  | prepare q =>
    obtain ⟨hp, hview⟩ := hm.prepare q hsub
    rw [if_pos hp]
    refine handlePrepare_spec hr h hown hview fun h0 => ?_
    have hil : i = l.length := Nat.succ.inj (hui hp h0)
    rw [hsub, hp, hil] at hi
    exact ⟨congrArg Nat.succ hil, hi⟩
  | commit c =>
    rw [hsub] at hi
    have hid := hm.commit c hsub
    have hcommitted : Committed γ c.replicaId c.primaryUi := ⟨c, hid ▸ List.mem_of_getElem? hi, rfl⟩
    refine (spec_of_silent (silent_handleCommit c) ((handleCommit_core hr h hown (hid ▸ hm.lt) hcommitted).mono
      (fun _ _ _ h => h) fun _ _ h => ⟨l, t, h⟩)).mono fun _ _ s' _ hs' => ?_
    obtain ⟨rfl, hs'⟩ := hs'
    by_cases hp : m.replicaId = primary
    · rw [if_pos hp]
      by_cases h0 : r = primary
      · exact ⟨l, hs', hown, fun hno => (hno h0).elim⟩
      · have hil : i = l.length := Nat.succ.inj (hui hp h0)
        rw [hp, hil] at hi
        refine ⟨l ++ [.commit c], hs'.skip h0 hi, fun ui x hx => ?_, fun _ => by simp⟩
        rw [rangeOf_concat_commit] at hx
        exact hown ui x hx
    · rw [if_neg hp]
      exact ⟨l, hs', hown, fun _ => rfl⟩

theorem Replica.nextUi_countUi_self (s : Replica) (i : Nat) : (s.countUi i).nextUi i = s.nextUi i + 1 :=
  Function.update_self ..

theorem Replica.nextUi_countUi_of_ne (s : Replica) {i j : Nat} (h : i ≠ j) : (s.countUi j).nextUi i = s.nextUi i :=
  Function.update_of_ne h ..

/-- The message that comes next in the stream of its sender is handled. -/
theorem handleCounted_spec (hr : r < G.config.n) (h : Running G γ r s) {m : UIMessage}
    (hm : GoodUi G γ (s.nextUi m.replicaId) m) :
    (sequence G).Spec G.config.n r γ (handleUi (G.env r) (s.nextUi m.replicaId) m.sub) (s.countUi m.replicaId)
      fun _ γ' s' => Running G γ' r s' := by
  obtain ⟨l, hcore, hown, hnext⟩ := h
  have hcounted : Core G γ l r (s.countUi m.replicaId).nextUi (s.countUi m.replicaId) :=
    ⟨hcore.view, rfl, hcore.follows, hcore.numbers, hcore.counts, hcore.queued, hcore.sent, hcore.ui, hcore.executes,
      hcore.timer⟩
  refine (handleUi_spec hr hcounted hown hm fun hp h0 => ?_).mono fun _ γ' s' _ hs' => ?_
  · rw [hp]
    exact hnext h0
  · obtain ⟨l', hcore', hown', hlen⟩ := hs'
    refine ⟨l', hcore'.next ▸ hcore', hown', fun h0 => ?_⟩
    rw [hcore'.next, hlen h0]
    by_cases hp : m.replicaId = primary
    · rw [if_pos hp, hp, s.nextUi_countUi_self, hnext h0]
    · rw [if_neg hp, s.nextUi_countUi_of_ne (Ne.symm hp), hnext h0]

theorem Replica.uiQueue_setQueue_self (s : Replica) (i : Nat) (queue : StdMap Nat UIMessage) :
    (s.setQueue i queue).uiQueue i = queue := Function.update_self ..

theorem Replica.uiQueue_setQueue_of_ne (s : Replica) {i j : Nat} (queue : StdMap Nat UIMessage) (h : j ≠ i) :
    (s.setQueue i queue).uiQueue j = s.uiQueue j := Function.update_of_ne h ..

/-- What is in the queues changes. -/
theorem Running.setQueue (h : Running G γ r s) {i : Nat} {queue : StdMap Nat UIMessage}
    (hqueue : ∀ x ∈ queue.toList, GoodUi G γ x.1 x.2 ∧ x.2.replicaId = i) : Running G γ r (s.setQueue i queue) := by
  obtain ⟨l, hcore, hown, hnext⟩ := h
  refine ⟨l, ⟨hcore.view, hcore.next, hcore.follows, hcore.numbers, hcore.counts, fun j x hx => ?_, hcore.sent,
    hcore.ui, hcore.executes, hcore.timer⟩, hown, hnext⟩
  by_cases hj : j = i
  · subst hj
    rw [s.uiQueue_setQueue_self] at hx
    exact hqueue x hx
  · rw [s.uiQueue_setQueue_of_ne queue hj] at hx
    exact hcore.queued j x hx

theorem Running.queued (h : Running G γ r s) : Queued G γ s.uiQueue := by
  obtain ⟨l, hcore, -⟩ := h
  exact hcore.queued

theorem Running.setReplies (h : Running G γ r s) (replies : List (Addr × Reply)) :
    Running G γ r { s with epilogueList := replies } := by
  obtain ⟨l, hcore, hown, hnext⟩ := h
  exact ⟨l, ⟨hcore.view, hcore.next, hcore.follows, hcore.numbers, hcore.counts, hcore.queued, hcore.sent, hcore.ui,
    hcore.executes, hcore.timer⟩, hown, hnext⟩

theorem drainQueue_spec (hr : r < G.config.n) {i : Nat} : ∀ (n : Nat) {γ : Streams} {s : Replica},
    Running G γ r s →
    (sequence G).Spec G.config.n r γ (drainQueue (G.env r) i n) s fun _ γ' s' => Running G γ' r s'
  | 0, _, _, h => Ends.same h
  | n + 1, γ, s, h => by
      rw [drainQueue, spec_get_bind]
      cases hq : (s.uiQueue i).toList with
      | nil => exact Ends.same h
      | cons x rest =>
        obtain ⟨ui, m⟩ := x
        obtain ⟨hm, hid⟩ := h.queued i (ui, m) (hq ▸ List.mem_cons_self ..)
        have hm : GoodUi G γ ui m := hm
        have hid : m.replicaId = i := hid
        subst hid
        refine spec_ite.mpr ⟨fun _ => Ends.same h, fun hui => ?_⟩
        obtain rfl := not_not.mp hui
        rw [spec_modify_bind]
        refine Spec.bind (handleCounted_spec hr h hm) fun _ γ₁ s₁ _ h₁ => ?_
        rw [spec_modify_bind]
        refine drainQueue_spec hr n (h₁.setQueue fun x hx => ?_)
        exact h₁.queued _ x (List.mem_filter.mp hx).1

theorem concludeEpilogue_spec (h : Running G γ r s) :
    (sequence G).Spec G.config.n r γ concludeEpilogue s fun _ γ' s' => Running G γ' r s' := by
  rw [concludeEpilogue, spec_get_bind]
  refine Spec.bind (Spec.forEach (fun _ γ' s' => Running G γ' r s') (fun x rest γ' s' h' => ?_) h)
    fun _ γ' s' _ h' => spec_modify.mpr (Ends.same (h'.setReplies []))
  exact spec_emit.mpr (Ends.sends h' fun p hp => by cases hp)

theorem receiveUi_spec (hr : r < G.config.n) (h : Running G γ r s) {ui : Nat} {m : UIMessage}
    (hm : GoodUi G γ ui m) :
    (sequence G).Spec G.config.n r γ (receiveUi (G.env r) ui m) s fun _ γ' s' => Running G γ' r s' := by
  rw [receiveUi, spec_get_bind, spec_ite]
  refine ⟨fun _ => spec_modify.mpr (Ends.same (h.setQueue fun x hx => ?_)), fun hui => ?_⟩
  · rcases StdMap.mem_insert hx with rfl | hx
    · exact ⟨hm, rfl⟩
    · exact h.queued _ x hx
  · obtain rfl := not_not.mp hui
    rw [spec_modify_bind]
    refine Spec.bind (handleCounted_spec hr h hm) fun _ _ s₁ _ h₁ => ?_
    exact Spec.bind (drainQueue_spec hr _ h₁) fun _ _ s₂ _ h₂ => concludeEpilogue_spec h₂

/-! ### Requests -/

/-- The primary closes its batch. -/
theorem Follows.close {log : Log} {batch : List Request} {low high : Nat → Option Nat} {m : Prepare}
    (h : Follows γ l primary log batch low high) (hm : m.signedRequest = batch) :
    Follows (γ.push primary (.prepare m)) (l ++ [.prepare m]) primary log []
      (Function.update low (l.length + 1) (some (log.lastOpnum - batch.length + 1)))
      (Function.update high (l.length + 1) (some log.lastOpnum)) := by
  have hlast : log.lastOpnum = (batched l).length + m.signedRequest.length := by
    rw [lastOpnum_eq_contents, h.log, List.length_map, List.length_append, hm]
  have hself : l ++ [.prepare m] = γ.push primary (.prepare m) primary := by
    rw [Streams.push_self, h.leads rfl]
  refine ⟨by rw [hself], ?_, ?_, ?_, fun h0 => (h0 rfl).elim, fun _ => hself⟩
  · rw [h.log, batched_concat, List.append_nil, ← hm]
    rfl
  · rw [h.low, hlast, hm, Nat.add_sub_cancel]
    exact update_rangeOf Prod.fst m
  · rw [h.high, hlast]
    exact update_rangeOf Prod.snd m

theorem closeBatch_spec (hr : primary < G.config.n) (h : Running G γ primary s) :
    (sequence G).Spec G.config.n primary γ (closeBatch (G.env primary)) s
      fun _ γ' s' => Running G γ' primary s' := by
  obtain ⟨l, hcore, hown, -⟩ := h
  rw [closeBatch, spec_modify_bind, spec_get_bind, spec_modify_bind]
  obtain ⟨m, hm, hview, hbatch⟩ : ∃ m : Prepare, { viewNumber := s.viewNumber, signedRequest := s.requestBatch } = m ∧
      m.viewNumber = 0 ∧ m.signedRequest = s.requestBatch := ⟨_, rfl, hcore.view, rfl⟩
  have hle := (advances_push (γ := γ) (r := primary) (.prepare m)).le
  have hlen : s.sUi + 1 = l.length + 1 := by
    rw [hcore.ui, ← hcore.sent, ← hcore.follows.leads rfl]
  simp only [hm, hlen]
  have hsub : Sendable primary (.prepare m) :=
    ⟨fun q hq => ⟨rfl, UISub.prepare.inj hq ▸ hview⟩, (fun _ hc => by cases hc)⟩
  refine sendUi_bind (s := { s with
      timerActive := false
      sUi := l.length + 1
      lowOp := Function.update s.lowOp (l.length + 1) (some (s.log.lastOpnum - s.requestBatch.length + 1))
      highOp := Function.update s.highOp (l.length + 1) (some s.log.lastOpnum)
      requestBatch := [] }) hr hcore.sent (hlen.symm.trans (congrArg Nat.succ hcore.ui)) hsub ?_
  have hcore' : Core G (γ.push primary (.prepare m)) (l ++ [.prepare m]) primary s.nextUi { s with
      timerActive := false
      sUi := l.length + 1
      lowOp := Function.update s.lowOp (l.length + 1) (some (s.log.lastOpnum - s.requestBatch.length + 1))
      highOp := Function.update s.highOp (l.length + 1) (some s.log.lastOpnum)
      requestBatch := []
      sent := s.sent ++ [.prepare m] } := by
    refine ⟨hcore.view, rfl, hcore.follows.close hbatch, hcore.numbers, hcore.counts.mono hle, hcore.queued.mono hle,
      ?_, ?_, hcore.executes.mono hle, fun h0 => (h0 rfl).elim⟩
    · rw [Streams.push_self, hcore.sent]
    · rw [List.length_append, ← hcore.ui, ← hlen]
      rfl
  refine (sendCommit_spec hr hcore' fun ui' x hx (hui : ui' ≠ l.length + 1) => ?_).mono fun _ γ' s' _ hs' => ?_
  · rw [rangeOf_concat_of_ne _ hui] at hx
    exact (hown ui' x hx).mono hle
  · obtain ⟨l', hcore'', hown'', -⟩ := hs'
    exact ⟨l', hcore''.next ▸ hcore'', hown'', fun h0 => (h0 rfl).elim⟩

/-- The primary takes one more request into its batch. -/
theorem Follows.push {log log' : Log} {batch : List Request} {low high : Nat → Option Nat}
    (h : Follows γ l primary log batch low high) {req : Request}
    (hlog : log'.contents = log.contents ++ [(0, req)]) : Follows γ l primary log' (batch ++ [req]) low high := by
  refine ⟨h.stream, ?_, h.low, h.high, fun h0 => (h0 rfl).elim, h.leads⟩
  rw [hlog, h.log, ← List.append_assoc, List.map_append, List.map_append, List.map_append]
  rfl

theorem Numbers.push {log log' : Log} {table : Nat → Option ClientEntry} (h : Numbers log table) {req : Request}
    (hlog : log'.contents = log.contents ++ [(0, req)]) (hnew : ∀ x ∈ log.contents, key x.2 ≠ key req)
    (hentry : ∃ e, table req.clientid = some e ∧ req.clientreqid ≤ e.requestNumber) : Numbers log' table := by
  refine ⟨fun x hx => ?_, ?_⟩
  · rw [hlog] at hx
    rcases List.mem_append.mp hx with hx | hx
    · exact h.table x hx
    · obtain rfl := List.mem_singleton.mp hx
      exact hentry
  · rw [hlog, List.map_append]
    refine h.once.append (List.nodup_singleton _) (List.disjoint_singleton.mpr fun hmem => ?_)
    obtain ⟨x, hx, hkey⟩ := List.mem_map.mp hmem
    exact hnew x hx hkey

theorem queueRequest_spec (hr : primary < G.config.n) (h : Running G γ primary s) {req : Request}
    (hnew : ∀ x ∈ s.log.contents, key x.2 ≠ key req)
    (hentry : ∃ e, s.clientTable req.clientid = some e ∧ req.clientreqid ≤ e.requestNumber) :
    (sequence G).Spec G.config.n primary γ (queueRequest (G.env primary) req) s
      fun _ γ' s' => Running G γ' primary s' := by
  obtain ⟨l, hcore, hown, -⟩ := h
  rw [queueRequest]
  refine Spec.bind (spec_of_silent (silent_append req) ((append_spec req s).mono (fun _ _ _ h => h)
    fun _ _ h => h.elim)) ?_
  rintro _ γ₁ _ _ ⟨hγ, log, rfl, hlog, hmem⟩
  subst hγ
  have hlog : log.contents = s.log.contents ++ [(0, req)] := by
    rw [hlog, hcore.view]
    rfl
  have h₁ : Running G γ₁ primary { s with
      log := log
      requestBatch := s.requestBatch ++ [req]
      timerActive := true
      timerStarted := true } :=
    ⟨l, ⟨hcore.view, rfl, hcore.follows.push hlog, fun _ => (hcore.numbers rfl).push hlog hnew hentry, hcore.counts,
      hcore.queued, hcore.sent, hcore.ui, hcore.executes.logged (hlog ▸ List.prefix_append ..) hmem,
      fun h0 => (h0 rfl).elim⟩, hown, fun h0 => (h0 rfl).elim⟩
  rw [spec_modify_bind, spec_get_bind, spec_when]
  exact ⟨fun _ => closeBatch_spec hr h₁, fun _ => Ends.same h₁⟩

theorem handleNewRequest_spec (hr : r < G.config.n) (h : Running G γ r s) {req : Request}
    (hlate : ∀ e, s.clientTable req.clientid = some e → e.requestNumber < req.clientreqid) (entry : ClientEntry) :
    (sequence G).Spec G.config.n r γ (handleNewRequest (G.env r) req entry) s
      fun _ γ' s' => Running G γ' r s' := by
  obtain ⟨l, hcore, hown, hnext⟩ := h
  have h₁ : Running G γ r (s.setClient req.clientid { entry with
      requestNumber := req.clientreqid
      ready := none }) := ⟨l, hcore.setClient fun e he => (hlate e he).le, hown, hnext⟩
  rw [handleNewRequest, spec_modify_bind, spec_get_bind, spec_ite]
  refine ⟨fun _ => Ends.same h₁, fun hleads => ?_⟩
  have hview : (s.setClient req.clientid { entry with
      requestNumber := req.clientreqid
      ready := none }).viewNumber = 0 := hcore.view
  rw [hview, getLeaderIndex_zero] at hleads
  obtain rfl : primary = r := not_not.mp hleads
  refine queueRequest_spec hr h₁ (fun x hx hkey => ?_) ⟨_, Function.update_self .., Nat.le_refl _⟩
  obtain ⟨hc, hi⟩ := Prod.mk.inj hkey
  obtain ⟨e, he, hle⟩ := (hcore.numbers rfl).table x hx
  rw [hc] at he
  have hlt := hlate e he
  omega

theorem handleRequest_spec (hr : r < G.config.n) (h : Running G γ r s) (req : Request) (remote : Addr) :
    (sequence G).Spec G.config.n r γ (handleRequest (G.env r) remote req) s fun _ γ' s' => Running G γ' r s' := by
  rw [handleRequest, spec_get_bind]
  cases htable : s.clientTable req.clientid with
  | none => exact handleNewRequest_spec hr h (fun e he => by cases htable.symm.trans he) _
  | some entry =>
    simp only [spec_ite, spec_whenSome, spec_pure]
    refine ⟨fun _ => Ends.same h, fun hlate => ⟨fun _ => ⟨fun m _ => spec_emit.mpr (Ends.sends h fun p hp => ?_),
      fun _ => Ends.same h⟩, fun hne => handleNewRequest_spec hr h (fun e he => ?_) entry⟩⟩
    · cases hp
    · cases htable.symm.trans he
      omega

/-! ### Runs -/

theorem receiveMessage_spec (hr : r < G.config.n) (h : Running G γ r s) {m : Message}
    (hm : ∀ ui um, m = .uiMessage ui um → GoodUi G γ ui um) (remote : Addr) :
    (sequence G).Spec G.config.n r γ (receiveMessage (G.env r) remote m) s fun _ γ' s' => Running G γ' r s' := by
  cases m with
  | signedRequest req =>
    exact Spec.bind (handleRequest_spec hr h req remote) fun _ _ _ _ h₁ => concludeEpilogue_spec h₁
  | uiMessage ui um => exact receiveUi_spec hr h (hm ui um rfl)

theorem holds_initial : (sequence G).Holds G.config.n (fun _ => []) (Net.Sys.initial G.protocol) where
  running r hr _ := by
    refine ⟨[], ⟨rfl, rfl, ⟨List.nil_prefix, rfl, ?_, ?_, fun _ => rfl, fun _ => rfl⟩, fun _ =>
      ⟨(fun _ hx => by cases hx), List.nodup_nil⟩, ⟨rfl, fun _ _ hx => by cases hx⟩, (fun _ _ hx => by cases hx), rfl,
      rfl, ⟨(fun _ he => by cases he), Nat.le_refl 0, rfl,
      fun j h1 hj => (Nat.not_succ_le_zero 0 (Nat.le_trans h1 hj)).elim⟩, fun _ => rfl⟩,
      fun ui x hx => ?_, fun _ => ?_⟩
    · funext ui
      rw [rangeOf_nil]
      rfl
    · funext ui
      rw [rangeOf_nil]
      rfl
    · rw [rangeOf_nil] at hx
      cases hx
    · exact if_pos (Nat.lt_of_le_of_lt (Nat.zero_le r) hr)
  halted _ _ hs := by cases hs
  packet _ hp := by cases hp

theorem holds_of_run {ok : Sys → Event → Prop} {past : List Sys} {s : Sys} (hr : Run G.system ok past s) :
    ∃ γ, (sequence G).Holds G.config.n γ s := by
  refine hr.invariant (I := fun _ s => ∃ γ, (sequence G).Holds G.config.n γ s) ⟨_, holds_initial⟩ ?_
  rintro _ s e s' _ ⟨γ, h⟩ - hst
  obtain ⟨r, m, hm, hr, hlive, rfl⟩ := Net.Sys.step_eq_some hst
  have hrun := h.running r hr hlive
  suffices hspec : (sequence G).Spec G.config.n r γ m (s.replica r) fun _ γ' t => Running G γ' r t by
    obtain ⟨γ', -, h'⟩ := Net.GhostInvariant.step h hspec
    exact ⟨γ', h'⟩
  rcases Net.Event.of_handler hm with ⟨c, req, rfl, rfl⟩ | ⟨i, p, rfl, hp, rfl, rfl⟩ | ⟨u, rfl, hact, rfl⟩
  · exact receiveMessage_spec hr hrun (m := .signedRequest req) (fun _ _ hm => by cases hm) _
  · exact receiveMessage_spec hr hrun (h.packet p (List.mem_of_getElem? hp)) _
  · obtain rfl : r = primary := by
      by_contra h0
      obtain ⟨l, hcore, -⟩ := hrun
      have hact : (s.replica r).timerStarted = true := hact
      rw [hcore.timer h0] at hact
      cases hact
    exact closeBatch_spec hr hrun

/-- What holds of a replica, whether it runs or has been stopped. -/
theorem core_of_holds {s : Sys} (h : (sequence G).Holds G.config.n γ s) {i : Nat} (hi : i < G.config.n) :
    ∃ l t, Core G γ l i t (s.replica i) := by
  cases hstop : s.stopped i with
  | false =>
    obtain ⟨l, hcore, -⟩ := h.running i hi hstop
    exact ⟨l, _, hcore⟩
  | true => exact h.halted i hi hstop

/-! ### One sequence -/

/-- The batch of the primary with this UI has op number `k`. -/
def InBatch (p : Replica) (ui k : Nat) : Prop :=
  ∃ lo hi, p.lowOp ui = some lo ∧ p.highOp ui = some hi ∧ lo ≤ k ∧ k ≤ hi

/-- Replica `i` has sent a Commit for this UI of the primary to all the others. -/
def SentCommit (G : Group) (s : Sys) (i ui : Nat) : Prop :=
  ∃ c, UISub.commit c ∈ (s.replica i).sent ∧ c.primaryUi = ui ∧
    ∀ j < G.config.n, j ≠ i → OnNet s i j (.commit c)

/-- The replicas execute one replicated sequence. -/
structure Replicated (G : Group) (s : Sys) : Prop where
  logs : ∀ r < G.config.n, (s.replica r).log.contents <+: (s.replica primary).log.contents
  inOrder : ∀ r < G.config.n, ∃ k, (s.replica r).executed = (opnumbered (s.replica r).log.contents).take k
  once : ∀ r < G.config.n, ((s.replica r).executed.map fun x => key x.2).Nodup
  committed : ∀ r < G.config.n, ∀ x ∈ (s.replica r).executed,
    ∃ ui, (∀ v, InBatch (s.replica primary) v x.1 ↔ v = ui) ∧
      ∃ Q, IsQuorum G.config.n (G.config.f + 1) Q ∧ r ∈ Q ∧ ∀ i ∈ Q, SentCommit G s i ui

/-- The batches that the primary knows are those of its stream. -/
theorem Core.inBatch (h : Core G γ l primary t s) {ui k : Nat} :
    InBatch s ui k ↔ ∃ lo hi, rangeOf (γ primary) ui = some (lo, hi) ∧ lo ≤ k ∧ k ≤ hi := by
  have hl : l = γ primary := h.follows.leads rfl
  rw [← hl]
  refine ⟨?_, ?_⟩
  · rintro ⟨lo, hi, hlo, hhi, hk⟩
    rw [h.follows.low] at hlo
    rw [h.follows.high] at hhi
    obtain ⟨x, hx, rfl⟩ := Option.map_eq_some_iff.mp hlo
    obtain ⟨y, hy, rfl⟩ := Option.map_eq_some_iff.mp hhi
    cases hx.symm.trans hy
    exact ⟨x.1, x.2, hx, hk⟩
  · rintro ⟨lo, hi, hrange, hk⟩
    refine ⟨lo, hi, ?_, ?_, hk⟩
    · rw [h.follows.low]
      exact congrArg (Option.map Prod.fst) hrange
    · rw [h.follows.high]
      exact congrArg (Option.map Prod.snd) hrange

/-- An op number that has been decided is in one batch. -/
theorem Core.inBatch_iff (h : Core G γ l primary t s) {ui lo hi k : Nat}
    (hrange : rangeOf (γ primary) ui = some (lo, hi)) (hlo : lo ≤ k) (hhi : k ≤ hi) (v : Nat) :
    InBatch s v k ↔ v = ui := by
  rw [h.inBatch]
  refine ⟨?_, ?_⟩
  · rintro ⟨lo', hi', hrange', hk'⟩
    exact rangeOf_unique hrange' hrange hk' ⟨hlo, hhi⟩
  · rintro rfl
    exact ⟨lo, hi, hrange, hlo, hhi⟩

/-- A backup's log is a piece of the primary's. -/
theorem Core.contents_prefix {l' : List UISub} {t' : Nat → Nat} {p : Replica} (h : Core G γ l r t s)
    (hp : Core G γ l' primary t' p) (hr : r ≠ primary) : s.log.contents <+: p.log.contents := by
  have hl' : l' = γ primary := hp.follows.leads rfl
  rw [h.follows.log, hp.follows.log, h.follows.backup hr, List.append_nil, hl']
  exact ((prefix_batched h.follows.stream).trans (List.prefix_append ..)).map _

theorem map_key_opnumbered (l : List (Nat × Request)) :
    (opnumbered l).map (fun x => key x.2) = l.map fun x => key x.2 := by
  refine List.ext_getElem? fun i => ?_
  rw [List.getElem?_map, getElem?_opnumbered, List.getElem?_map, Option.map_map]
  rfl

/-- The replicas of a group that all follow the code execute one replicated sequence, whatever is lost, duplicated,
    delayed and reordered. -/
theorem executes_one_sequence {past : List Sys} {s : Sys} (hr : Run G.system (fun _ _ => True) past s) :
    Replicated G s := by
  obtain ⟨γ, h⟩ := holds_of_run hr
  have hcore : ∀ r < G.config.n, ∃ l t, Core G γ l r t (s.replica r) := fun r hrn => core_of_holds h hrn
  have hbelow : ∀ r < G.config.n, (s.replica r).log.contents <+: (s.replica primary).log.contents := by
    intro r hrn
    by_cases hp : r = primary
    · rw [hp]
    · obtain ⟨l, t, hc⟩ := hcore r hrn
      obtain ⟨l', t', hc'⟩ := hcore primary (Nat.zero_lt_of_lt hrn)
      exact hc.contents_prefix hc' hp
  refine ⟨hbelow, fun r hrn => ?_, fun r hrn => ?_, fun r hrn x hx => ?_⟩
  · obtain ⟨l, t, hc⟩ := hcore r hrn
    exact ⟨_, hc.executes.executed⟩
  · obtain ⟨l, t, hc⟩ := hcore r hrn
    obtain ⟨l', t', hc'⟩ := hcore primary (Nat.zero_lt_of_lt hrn)
    rw [hc.executes.executed, take_opnumbered, map_key_opnumbered]
    have hsub : (s.replica r).log.contents.take (s.replica r).commitNumber <+: (s.replica primary).log.contents :=
      (List.take_prefix ..).trans (hbelow r hrn)
    exact (hc'.numbers rfl).once.sublist (hsub.sublist.map _)
  · obtain ⟨l, t, hc⟩ := hcore r hrn
    obtain ⟨l', t', hc'⟩ := hcore primary (Nat.zero_lt_of_lt hrn)
    have hk : 1 ≤ x.1 ∧ x.1 ≤ (s.replica r).commitNumber := by
      rw [hc.executes.executed] at hx
      obtain ⟨i, hi⟩ := List.mem_iff_getElem?.mp hx
      rw [List.getElem?_take] at hi
      split_ifs at hi with hik
      rw [getElem?_opnumbered] at hi
      obtain ⟨y, -, rfl⟩ := Option.map_eq_some_iff.mp hi
      exact ⟨Nat.le_add_left 1 i, hik⟩
    obtain ⟨ui, lo, hi, hrange, hlo, hhi, Q, hQ, hrQ, hall⟩ := hc.executes.decided x.1 hk.1 hk.2
    refine ⟨ui, hc'.inBatch_iff hrange hlo hhi, Q, hQ, hrQ, fun i hi => ?_⟩
    obtain ⟨c, hmem, hui⟩ := hall i hi
    obtain ⟨li, ti, hci⟩ := hcore i (hQ.lt i hi)
    rw [hci.sent] at hmem
    exact ⟨c, hmem, hui, fun j hj hji => onNet_of_run hr hj hji hmem⟩

/-- Three replicas, with one request a batch. -/
def threeReplicas : Group where
  config := { n := 3, f := 1 }
  batchSize := 1
  app _ := .default

/-- The first request of a client. -/
def firstRequest : Request := { op := "", clientid := 5, clientreqid := 1 }

/-- The primary and a backup execute the request; the Commit of the primary reaches the backup before its Prepare. -/
theorem executes_one_sequence_first :
    ∃ s : Sys, (s.replica 0).executed = [(1, firstRequest)] ∧ (s.replica 1).executed = [(1, firstRequest)] ∧
      Replicated threeReplicas s := by
  obtain ⟨past, s, hr, hs⟩ := Run.exists_of_exec threeReplicas.system (fun _ _ => True)
    [.client 0 5 firstRequest, .client 1 5 firstRequest, .deliver 2, .deliver 0, .deliver 4]
    (fun s => (s.replica 0).executed = [(1, firstRequest)] ∧ (s.replica 1).executed = [(1, firstRequest)])
    (by decide +kernel)
  obtain ⟨h₀, h₁⟩ := of_decide_eq_true hs
  exact ⟨s, h₀, h₁, executes_one_sequence hr⟩

end Dsnet.MinBFT
