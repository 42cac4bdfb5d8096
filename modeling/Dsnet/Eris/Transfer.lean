import Dsnet.Eris.Handlers

/-! `ErisServer::HandleStateTransferReply`: what a replica makes of the entries that another one has sent it.
    The number of the next message is taken on from one entry to the next, while the sender's numbers begin
    again with every session; and what a rewind has left behind, in the log and in the two maps, is still there
    when the entries come. -/

namespace Dsnet.Eris
open Handler Transaction

variable {σ : Type} {E : ServerEnv σ}

/-! ### The operations of a message -/

/-- The operations are later than what their shards have had, and than each other. -/
structure Later (shards : StdMap Nat Nat) (ops : List ShardOp) : Prop where
  known : ∀ op ∈ ops, (shards.find? op.shard).getD 0 < op.msgnum
  sorted : ops.Pairwise fun op op' => op.shard = op'.shard → op.msgnum < op'.msgnum

/-- The number that the last operation for the shard has. -/
def lastNumber (ops : List ShardOp) (shard : Nat) : Option Nat :=
  (ops.filter fun op => op.shard = shard).getLast?.map (·.msgnum)

/-- The second map has the numbers of the operations, and else what the first one has. -/
def Numbers (shards shards' : StdMap Nat Nat) (ops : List ShardOp) : Prop :=
  ∀ shard, shards'.find? shard = (lastNumber ops shard).or (shards.find? shard)

theorem later_nil (shards : StdMap Nat Nat) : Later shards [] := ⟨by simp, .nil⟩

theorem numbers_nil (shards : StdMap Nat Nat) : Numbers shards shards [] := fun _ => rfl

theorem lastNumber_append (ops ops' : List ShardOp) (shard : Nat) :
    lastNumber (ops ++ ops') shard = (lastNumber ops' shard).or (lastNumber ops shard) := by
  simp only [lastNumber, List.filter_append, List.getLast?_append]
  cases (ops'.filter fun op => op.shard = shard).getLast? <;> rfl

theorem Numbers.append {m m' m'' : StdMap Nat Nat} {ops ops' : List ShardOp} (h : Numbers m m' ops)
    (h' : Numbers m' m'' ops') : Numbers m m'' (ops ++ ops') := fun shard => by
  rw [h' shard, h shard, lastNumber_append, Option.or_assoc]

theorem numbers_insert (shards : StdMap Nat Nat) (op : ShardOp) :
    Numbers shards (shards.insert op.shard op.msgnum) [op] := fun shard => by
  rw [StdMap.find?_insert, lastNumber]
  by_cases h : shard = op.shard
  · simp [h]
  · simp [h, Ne.symm h]

theorem Later.left {m : StdMap Nat Nat} {ops ops' : List ShardOp} (h : Later m (ops ++ ops')) : Later m ops :=
  ⟨fun op hop => h.known op (List.mem_append_left _ hop), (List.pairwise_append.mp h.sorted).1⟩

/-- What the last operation for a shard is: there is one, and no later one. -/
theorem lastNumber_eq_some {ops : List ShardOp} {shard n : Nat} (h : lastNumber ops shard = some n) :
    ∃ op ∈ ops, op.shard = shard ∧ op.msgnum = n := by
  obtain ⟨op, hlast, rfl⟩ := Option.map_eq_some_iff.mp h
  obtain ⟨hmem, hshard⟩ := List.mem_filter.mp (List.mem_of_getLast? hlast)
  exact ⟨op, hmem, by simpa using hshard, rfl⟩

theorem lastNumber_eq_none {ops : List ShardOp} {shard : Nat} :
    lastNumber ops shard = none ↔ ∀ op ∈ ops, op.shard ≠ shard := by
  simp [lastNumber]

/-- The last operation for a shard is its latest one. -/
theorem Later.le_lastNumber {m : StdMap Nat Nat} : ∀ {ops : List ShardOp} {op : ShardOp} {n : Nat},
    Later m ops → op ∈ ops → lastNumber ops op.shard = some n → op.msgnum ≤ n
  | x :: ops, op, n, h, hop, hn => by
      obtain ⟨hx, hsorted⟩ := List.pairwise_cons.mp h.sorted
      have hrest : Later m ops := ⟨fun op hop => h.known op (List.mem_cons_of_mem _ hop), hsorted⟩
      have hsplit : lastNumber (x :: ops) op.shard =
          (lastNumber ops op.shard).or (lastNumber [x] op.shard) := lastNumber_append [x] ops _
      rw [hsplit] at hn
      cases hlast : lastNumber ops op.shard with
      | none =>
        have hno := lastNumber_eq_none.mp hlast
        rcases List.mem_cons.mp hop with rfl | hop
        · rw [hlast, Option.none_or] at hn
          obtain ⟨y, hy, -, rfl⟩ := lastNumber_eq_some hn
          rw [List.mem_singleton.mp hy]
        · exact (hno op hop rfl).elim
      | some k =>
        rw [hlast, Option.some_or, Option.some.injEq] at hn
        subst hn
        rcases List.mem_cons.mp hop with rfl | hop
        · obtain ⟨y, hy, hshard, rfl⟩ := lastNumber_eq_some hlast
          exact (hx y hy hshard.symm).le
        · exact hrest.le_lastNumber hop hlast

/-- The operations are later in turn, those of one message after those of another. -/
theorem later_append {m m' : StdMap Nat Nat} {ops ops' : List ShardOp} (h : Numbers m m' ops) :
    Later m (ops ++ ops') ↔ Later m ops ∧ Later m' ops' := by
  constructor
  · intro hl
    obtain ⟨-, hs', hcross⟩ := List.pairwise_append.mp hl.sorted
    refine ⟨hl.left, ⟨fun op hop => ?_, hs'⟩⟩
    rw [h op.shard]
    cases hlast : lastNumber ops op.shard with
    | none => exact hl.known op (List.mem_append_right _ hop)
    | some n =>
      obtain ⟨x, hx, hshard, rfl⟩ := lastNumber_eq_some hlast
      exact hcross x hx op hop hshard
  · rintro ⟨hl, hl'⟩
    have hnumber : ∀ op' ∈ ops', ∀ n, lastNumber ops op'.shard = some n → n < op'.msgnum := by
      intro op' hop' n hn
      have := hl'.known op' hop'
      rwa [h op'.shard, hn] at this
    refine ⟨fun op hop => ?_, List.pairwise_append.mpr ⟨hl.sorted, hl'.sorted, ?_⟩⟩
    · rcases List.mem_append.mp hop with hop | hop
      · exact hl.known op hop
      · have hlater := hl'.known op hop
        rw [h op.shard] at hlater
        cases hlast : lastNumber ops op.shard with
        | none => rwa [hlast] at hlater
        | some n =>
          obtain ⟨x, hx, hshard, rfl⟩ := lastNumber_eq_some hlast
          have := hl.known x hx
          rw [hshard] at this
          exact this.trans (hnumber op hop _ hlast)
    · intro op hop op' hop' hshard
      cases hlast : lastNumber ops op'.shard with
      | none => exact (lastNumber_eq_none.mp hlast op hop hshard).elim
      | some n => exact (hl.le_lastNumber hop (hshard ▸ hlast)).trans_lt (hnumber op' hop' n hlast)

/-- The operations of a message are put into the maps, unless one of them is not later. -/
theorem indexOps_sat (sessnum opnum : Nat) : ∀ (ops : List ShardOp) (s : Server σ),
    Sat (forEach ops (indexOp sessnum opnum)) s
      (fun _ s' o => o = [] ∧ Later s.shardToMsgnum ops ∧ ∃ lookup shards,
        s' = { s with txnLookup := lookup, shardToMsgnum := shards } ∧ Numbers s.shardToMsgnum shards ops ∧
        ∀ stamp, lookup stamp = (s.txnLookup stamp).or
          (if stamp ∈ ops.map fun op => MsgStamp.of op.shard op.msgnum sessnum then some opnum else none))
      fun _ _ => ¬ Later s.shardToMsgnum ops
  | [], s => ⟨rfl, later_nil _, s.txnLookup, s.shardToMsgnum, rfl, numbers_nil _, fun stamp => by simp⟩
  | op :: ops, s => by
      have hfirst : Later s.shardToMsgnum [op] ↔ (s.shardToMsgnum.find? op.shard).getD 0 < op.msgnum :=
        ⟨fun h => h.known op (List.mem_singleton_self _),
          fun h => ⟨by simpa using h, List.pairwise_singleton _ _⟩⟩
      have hcons : Later s.shardToMsgnum (op :: ops) ↔ Later s.shardToMsgnum [op] ∧
          Later (s.shardToMsgnum.insert op.shard op.msgnum) ops := later_append (numbers_insert _ _)
      simp only [forEach, indexOp, sat_bind, sat_modify, sat_get, sat_assert]
      refine ⟨fun hgt => ?_, fun hle h => hle (hfirst.mp (hcons.mp h).1)⟩
      refine (indexOps_sat sessnum opnum ops _).mono (fun _ s' o h => ?_) fun _ _ h hl => h (hcons.mp hl).2
      obtain ⟨rfl, hl, lookup, shards, rfl, hnum, hlookup⟩ := h
      refine ⟨rfl, hcons.mpr ⟨hfirst.mpr hgt, hl⟩, lookup, shards, rfl,
        (numbers_insert _ op).append hnum, fun stamp => ?_⟩
      rw [hlookup stamp, insertLookup]
      cases hold : s.txnLookup (.of op.shard op.msgnum sessnum) with
      | some k =>
        by_cases hst : stamp = .of op.shard op.msgnum sessnum
        · simp [hst, hold]
        · simp [hst]
      | none =>
        by_cases hst : stamp = .of op.shard op.msgnum sessnum
        · simp [hst, hold]
        · simp [hst]

/-! ### The entries -/

/-- The operations of a message that has been received. -/
def ErisLogEntry.received (e : ErisLogEntry) : List ShardOp := if e.state = .received then e.request.ops else []

/-- Their stamps. -/
def ErisLogEntry.receivedStamps (e : ErisLogEntry) : List MsgStamp :=
  if e.state = .received then stamps e.request else []

/-- The stamp that the replica looks up an entry with among its drops. -/
def ErisLogEntry.stamp (e : ErisLogEntry) : MsgStamp :=
  .of e.viewstamp.shardnum e.viewstamp.msgnum e.viewstamp.sessnum

/-- What the replica logs for an entry that is sent to it. -/
def Server.copy (s : Server σ) (e : ErisLogEntry) : ErisLogEntry :=
  if e.stamp ∈ s.permDrops.toList then
    { viewstamp := e.viewstamp, state := .noop, request := RequestMessage.blank.request }
  else { e with request := if e.state = .noop then RequestMessage.blank.request else e.request }

theorem Server.copy_viewstamp (s : Server σ) (e : ErisLogEntry) : (s.copy e).viewstamp = e.viewstamp := by
  rw [Server.copy]
  split_ifs <;> rfl

theorem copy_congr {s s' : Server σ} (h : s'.permDrops = s.permDrops) : s'.copy = s.copy :=
  funext fun e => by rw [Server.copy, Server.copy, h]

/-- The entries follow the log of the replica. -/
structure Continuing (s : Server σ) (es : List ErisLogEntry) : Prop where
  whole : es ≠ [] → s.log.entries.length = s.lastOp
  places : ∀ i e, es[i]? = some e → e.viewstamp.opnum = s.lastOp + 1 + i
  counted : ∀ i e, es[i]? = some e → e.viewstamp.msgnum = s.nextMsgnum + i
  later : Later s.shardToMsgnum ((es.map s.copy).flatMap (·.received))

/-- The first entry that has the stamp. -/
def place (es : List ErisLogEntry) (stamp : MsgStamp) : Option Nat :=
  (es.find? fun e => stamp ∈ e.receivedStamps).map (·.viewstamp.opnum)

/-- The entries have been put into the log and the maps. -/
structure Installed (s : Server σ) (es : List ErisLogEntry) (s' : Server σ) : Prop where
  log : s'.log.entries = s.log.entries ++ es
  numbers : Numbers s.shardToMsgnum s'.shardToMsgnum (es.flatMap (·.received))
  lookup : ∀ stamp, s'.txnLookup stamp = (s.txnLookup stamp).or (place es stamp)

theorem Installed.trans {s s' s'' : Server σ} {es es' : List ErisLogEntry} (h : Installed s es s')
    (h' : Installed s' es' s'') : Installed s (es ++ es') s'' where
  log := by rw [h'.log, h.log, List.append_assoc]
  numbers := by
    rw [List.flatMap_append]
    exact h.numbers.append h'.numbers
  lookup stamp := by
    rw [h'.lookup, h.lookup, Option.or_assoc, place, place, place, List.find?_append, Option.map_or]

theorem Continuing.head {s : Server σ} {e : ErisLogEntry} {es : List ErisLogEntry} (h : Continuing s (e :: es)) :
    Continuing s [e] where
  whole _ := h.whole (List.cons_ne_nil _ _)
  places := by
    rintro (_ | i) x hx
    · exact h.places 0 x hx
    · cases hx
  counted := by
    rintro (_ | i) x hx
    · exact h.counted 0 x hx
    · cases hx
  later := by
    have hl := h.later
    rw [← List.singleton_append, List.map_append, List.flatMap_append] at hl
    exact hl.left

/-- The first entry is accepted for itself and those after it by what comes of it. -/
theorem continuing_cons {s s' : Server σ} {e : ErisLogEntry} {es : List ErisLogEntry}
    (h : Installed s [s.copy e] s') (hdrops : s'.permDrops = s.permDrops)
    (hlast : s'.lastOp = e.viewstamp.opnum) (hnext : s'.nextMsgnum = e.viewstamp.msgnum + 1)
    (hfirst : Continuing s [e]) : Continuing s (e :: es) ↔ Continuing s' es := by
  have hop : e.viewstamp.opnum = s.lastOp + 1 := hfirst.places 0 e rfl
  have hnum : e.viewstamp.msgnum = s.nextMsgnum := hfirst.counted 0 e rfl
  have hlater : Later s.shardToMsgnum (((e :: es).map s.copy).flatMap (·.received)) ↔
      Later s.shardToMsgnum (([e].map s.copy).flatMap (·.received)) ∧
        Later s'.shardToMsgnum ((es.map s'.copy).flatMap (·.received)) := by
    rw [copy_congr hdrops, List.map_cons, List.map_cons, List.map_nil, ← later_append h.numbers,
      ← List.flatMap_append, List.singleton_append]
  constructor
  · intro ha
    refine ⟨fun _ => ?_, fun i x hx => ?_, fun i x hx => ?_, (hlater.mp ha.later).2⟩
    · have := ha.whole (List.cons_ne_nil _ _)
      rw [h.log, List.length_append, List.length_singleton]
      omega
    · have := ha.places (i + 1) x hx
      omega
    · have := ha.counted (i + 1) x hx
      omega
  · intro ha
    refine ⟨fun _ => hfirst.whole (List.cons_ne_nil _ _), ?_, ?_, hlater.mpr ⟨hfirst.later, ha.later⟩⟩
    · rintro (_ | i) x hx
      · exact hfirst.places 0 x hx
      · have := ha.places i x hx
        omega
    · rintro (_ | i) x hx
      · exact hfirst.counted 0 x hx
      · have := ha.counted i x hx
        omega

/-- `InstallLogEntry` needs the place after the last one, and operations that are later. -/
theorem installLogEntry_sat (s : Server σ) (e : ErisLogEntry) :
    Sat (installLogEntry e.viewstamp e.state e.message) s
      (fun _ s' o => o = [] ∧
        (e.viewstamp.opnum = s.log.entries.length + 1 ∧ Later s.shardToMsgnum e.received) ∧
        Installed s [e] s' ∧ s'.permDrops = s.permDrops ∧ s'.lastOp = e.viewstamp.opnum ∧
        s'.nextMsgnum = e.viewstamp.msgnum + 1)
      fun _ _ => ¬ (e.viewstamp.opnum = s.log.entries.length + 1 ∧ Later s.shardToMsgnum e.received) := by
  simp only [installLogEntry, append, sat_bind, sat_modify, sat_get, sat_ofOption, sat_when]
  refine ⟨fun log hlog => ?_, fun hnone hfits => ?_⟩
  · obtain ⟨hop, hent⟩ := ErisLog.append_eq_some hlog
    have hplace : ∀ stamp, place [e] stamp =
        if stamp ∈ e.receivedStamps then some e.viewstamp.opnum else none := by
      intro stamp
      rw [place, List.find?_singleton]
      by_cases h : stamp ∈ e.receivedStamps <;> simp [h]
    refine ⟨fun hrec => ?_, fun hrec => ?_⟩
    · have hops : e.received = e.request.ops := if_pos hrec
      have hstamps : e.receivedStamps = stamps e.request := if_pos hrec
      refine (indexOps_sat _ _ _ _).mono (fun _ s' o h => ?_) fun _ _ h hfits => h (hops ▸ hfits.2)
      obtain ⟨rfl, hl, lookup, shards, rfl, hnum, hlookup⟩ := h
      refine ⟨rfl, ⟨hop, hops ▸ hl⟩, ⟨hent, ?_, fun stamp => ?_⟩, rfl, rfl, rfl⟩
      · rw [List.flatMap_singleton, hops]
        exact hnum
      · rw [hplace, hstamps]
        exact hlookup stamp
    · have hops : e.received = [] := if_neg hrec
      have hstamps : e.receivedStamps = [] := if_neg hrec
      refine ⟨rfl, ⟨hop, hops ▸ later_nil _⟩, ⟨hent, ?_, fun stamp => ?_⟩, trivial, trivial, trivial⟩
      · rw [List.flatMap_singleton, hops]
        exact numbers_nil _
      · simp [hplace, hstamps]
  · rw [ErisLog.append, dif_pos (s.log.lastOpnum_eq ▸ hfits.1)] at hnone
    cases hnone

/-- One entry, as it is sent, is installed if it follows the log. -/
theorem installEntry_sat (s : Server σ) (e : ErisLogEntry) :
    Sat (installEntry (dumpEntry e)) s
      (fun _ s' o => o = [] ∧ Continuing s [e] ∧ Installed s [s.copy e] s' ∧ s'.permDrops = s.permDrops ∧
        s'.lastOp = e.viewstamp.opnum ∧ s'.nextMsgnum = e.viewstamp.msgnum + 1)
      fun _ _ => ¬ Continuing s [e] := by
  simp only [installEntry, sat_bind, sat_get, sat_assert]
  refine ⟨fun hop => ⟨fun hnum => ?_, fun hnum ha => hnum (ha.counted 0 e rfl)⟩,
    fun hop ha => hop (ha.places 0 e rfl)⟩
  have hinstall := installLogEntry_sat s (s.copy e)
  rw [s.copy_viewstamp] at hinstall
  have hiff : Continuing s [e] ↔
      e.viewstamp.opnum = s.log.entries.length + 1 ∧ Later s.shardToMsgnum (s.copy e).received := by
    have hreceived : (([e].map s.copy).flatMap (·.received)) = (s.copy e).received := List.flatMap_singleton _ _
    constructor
    · intro ha
      have hwhole := ha.whole (List.cons_ne_nil _ _)
      exact ⟨hwhole ▸ hop, hreceived ▸ ha.later⟩
    · rintro ⟨hplace, hl⟩
      refine ⟨fun _ => ?_, ?_, ?_, hreceived ▸ hl⟩
      · exact Nat.succ_injective (hplace.symm.trans hop)
      · rintro (_ | i) x hx
        · cases hx
          exact hop
        · cases hx
      · rintro (_ | i) x hx
        · cases hx
          exact hnum
        · cases hx
  rw [← hiff] at hinstall
  have hsame : installLogEntry e.viewstamp (s.copy e).state (s.copy e).message =
      if e.stamp ∈ s.permDrops.toList then installLogEntry e.viewstamp .noop .blank
      else installLogEntry (σ := σ) e.viewstamp e.state (dumpEntry e).request := by
    rw [Server.copy, dumpEntry]
    split_ifs <;> rfl
  rw [hsame] at hinstall
  exact hinstall

/-- All of them are if they do. -/
theorem installEntries_sat : ∀ (es : List ErisLogEntry) (s : Server σ),
    Sat (forEach (es.map dumpEntry) installEntry) s
      (fun _ s' o => o = [] ∧ Continuing s es ∧ Installed s (es.map s.copy) s')
      fun _ _ => ¬ Continuing s es
  | [], s => ⟨rfl, ⟨fun h => (h rfl).elim, by simp, by simp, later_nil _⟩, by simp, numbers_nil _,
      by simp [place]⟩
  | e :: es, s => by
      rw [List.map_cons, forEach, sat_bind]
      refine (installEntry_sat s e).mono (fun _ s₁ o h => ?_) fun _ _ h ha => h ha.head
      obtain ⟨rfl, hfirst, hi, hdrops, hlast, hnext⟩ := h
      have hiff : Continuing s (e :: es) ↔ Continuing s₁ es := continuing_cons hi hdrops hlast hnext hfirst
      refine (installEntries_sat es s₁).mono (fun _ s' o h => ?_) fun _ _ h ha => h (hiff.mp ha)
      obtain ⟨rfl, ha, hi'⟩ := h
      rw [copy_congr hdrops] at hi'
      exact ⟨rfl, hiff.mpr ha, hi.trans hi'⟩

/-! ### The reply -/

/-- The entries with the places from `start` on and below `stop`. -/
def ErisLog.between (l : ErisLog) (start stop : Nat) : List ErisLogEntry :=
  (List.range' start (stop - start)).filterMap l.find

/-- `HandleStateTransferReply`, as far as the entries are installed. -/
def installTransferred (msg : StateTransferReply) : ServerHandler σ Unit := do
  let s ← get
  let first ← ofOption msg.entries.head?
  let last ← ofOption msg.entries.getLast?
  assert (first.opNum = msg.start)
  assert (last.opNum + 1 = msg.stop)
  assert (¬ s.lastOp + 1 < msg.start)
  forEach (msg.entries.drop (s.lastOp + 1 - msg.start)) installEntry

/-- `HandleStateTransferReply`, once they are. -/
def completeTransfer (E : ServerEnv σ) (msg : StateTransferReply) : ServerHandler σ Unit := do
  let s ← get
  when (s.active .stateTransfer = true ∧ msg.stop ≥ s.pendingStateTransfer.stop) do
    stop .stateTransfer
    transferCallback E s.pendingStateTransfer.callback

theorem mapM_eq_some {α : Type} : ∀ {l : List (Option α)} {es : List α}, l.mapM id = some es → l = es.map some
  | [], es, h => by
      obtain rfl : [] = es := by simpa using h
      rfl
  | x :: l, es, h => by
      simp only [List.mapM_cons, Option.bind_eq_bind, Option.bind_eq_some_iff, Option.pure_def, id_eq] at h
      obtain ⟨e, rfl, es', hes, rfl⟩ : ∃ e, x = some e ∧ ∃ es', l.mapM id = some es' ∧ e :: es' = es := by
        simpa using h
      rw [mapM_eq_some hes, List.map_cons]

/-- The reply has the entries of the sender that were asked for. -/
theorem reply_spec {S : Server σ} {remote : Node} {req : StateTransferRequest} {msg : StateTransferReply}
    (h : (handleStateTransferRequest remote req S).2.2 = [.toNodes [remote] (.stateTransferReply msg)]) :
    msg.view = S.viewNum ∧ ∃ es : List ErisLogEntry, msg.entries = es.map dumpEntry ∧
      (List.range' msg.start (msg.stop - msg.start)).map S.log.find = es.map some := by
  have hsat : Sat (handleStateTransferRequest remote req) S
      (fun _ _ o => ∀ m, o = [.toNodes [remote] (.stateTransferReply m)] →
        m.view = S.viewNum ∧ ∃ es : List ErisLogEntry, m.entries = es.map dumpEntry ∧
          (List.range' m.start (m.stop - m.start)).map S.log.find = es.map some) fun _ o => o = [] := by
    simp only [handleStateTransferRequest, sat_bind, sat_get, sat_when, sat_ofOption, sat_emit]
    refine ⟨fun _ => ⟨fun es hes m hm => ?_, fun _ => rfl⟩, fun _ m hm => by cases hm⟩
    obtain rfl : _ = m := by simpa using hm
    exact ⟨rfl, es, rfl, mapM_eq_some hes⟩
  rcases hsat.cases with ⟨_, _, o, hrun, hspec⟩ | ⟨_, o, hrun, hnil⟩
  · rw [hrun] at h
    exact hspec msg h
  · rw [hrun, hnil] at h
    cases h

/-- A sender that has what it is asked for sends it. -/
theorem reply_of_entries {S : Server σ} (remote : Node) (req : StateTransferRequest) (es : List ErisLogEntry)
    (hview : req.view = S.viewNum) (hstart : req.start ≤ S.lastOp) (hstop : req.stop ≤ S.lastOp + 1)
    (hes : ((List.range' req.start (req.stop - req.start)).map S.log.find).mapM id = some es) :
    (handleStateTransferRequest remote req S).2.2 = [.toNodes [remote] (.stateTransferReply
      { view := S.viewNum, start := req.start, stop := req.stop, entries := es.map dumpEntry })] := by
  have hguard : req.view = S.viewNum ∧ ¬ (req.start > S.lastOp ∨ req.stop > S.lastOp + 1) :=
    ⟨hview, by omega⟩
  rw [handleStateTransferRequest, get_bind, when, if_pos hguard, hes]
  rfl

/-- A reply that the replica does not ignore is handled in two parts. -/
theorem handleStateTransferReply_of_installed {L L' : Server σ} {msg : StateTransferReply}
    (hview : msg.view = L.viewNum) (hlag : L.lastOp + 1 < msg.stop)
    (h : installTransferred msg L = (some (), L', [])) :
    handleStateTransferReply E msg L = completeTransfer E msg L' := by
  have hparts : handleStateTransferReply E msg L =
      (installTransferred msg >>= fun _ => completeTransfer E msg) L := by
    have hguard : msg.view = L.viewNum ∧ ¬ (msg.stop ≠ 0 ∧ msg.stop - 1 ≤ L.lastOp) := ⟨hview, by omega⟩
    simp only [installTransferred, bind_bind]
    rw [handleStateTransferReply, get_bind, get_bind, when, if_pos hguard]
    rfl
  rw [hparts, bind_of_eq h]

/-! ### What is transferred -/

/-- `s'` has what the sender has from `start` on and below `stop`: the entries, the latest numbers of the shards
    that the messages among them are for, and the places of their stamps. -/
structure SameOn (S s' : Server σ) (start stop : Nat) : Prop where
  log : ∀ k, start ≤ k → k < stop → s'.log.find k = S.log.find k
  numbers : ∀ e ∈ S.log.between start stop, ∀ op ∈ e.received,
    s'.shardToMsgnum.find? op.shard = S.shardToMsgnum.find? op.shard
  lookup : ∀ stamp k, start ≤ k → k < stop → (s'.txnLookup stamp = some k ↔ S.txnLookup stamp = some k)

/-- The entries of the sender go on where the log of the replica ends, and their stamps are in the index of the
    sender as they would be put into that of the replica. -/
structure Transferable (S L : Server σ) (msg : StateTransferReply) : Prop where
  reaches : msg.start ≤ L.lastOp + 1
  whole : L.log.entries.length = L.lastOp
  counted : ∀ i e, (S.log.between (L.lastOp + 1) msg.stop)[i]? = some e → e.viewstamp.msgnum = L.nextMsgnum + i
  noops : ∀ e ∈ S.log.between (L.lastOp + 1) msg.stop, e.state = .noop →
    e.request = RequestMessage.blank.request
  dropped : ∀ e ∈ S.log.between (L.lastOp + 1) msg.stop, e.stamp ∈ L.permDrops.toList →
    e.state = .noop ∧ e.txnData = {}
  later : Later L.shardToMsgnum ((S.log.between (L.lastOp + 1) msg.stop).flatMap (·.received))
  latest : ∀ shard n, lastNumber ((S.log.between (L.lastOp + 1) msg.stop).flatMap (·.received)) shard = some n →
    S.shardToMsgnum.find? shard = some n
  indexed : ∀ stamp k, L.lastOp < k → k < msg.stop → (S.txnLookup stamp = some k ↔ L.txnLookup stamp = some k ∨
    (L.txnLookup stamp = none ∧ place (S.log.between (L.lastOp + 1) msg.stop) stamp = some k))

theorem Server.copy_eq_self {s : Server σ} {e : ErisLogEntry} : s.copy e = e ↔
    (e.state = .noop → e.request = RequestMessage.blank.request) ∧
      (e.stamp ∈ s.permDrops.toList → e.state = .noop ∧ e.txnData = {}) := by
  rcases e with ⟨vs, state, request, data⟩
  rw [Server.copy]
  split_ifs with hdrop hnoop
  · simp only [ErisLogEntry.mk.injEq, true_and, hdrop, forall_const]
    constructor
    · rintro ⟨rfl, rfl, rfl⟩
      exact ⟨fun _ => rfl, rfl, rfl⟩
    · rintro ⟨hreq, rfl, rfl⟩
      exact ⟨rfl, (hreq rfl).symm, rfl⟩
  · obtain rfl : state = .noop := hnoop
    simp only [ErisLogEntry.mk.injEq, true_and, hdrop, forall_const, false_implies, and_true]
    exact eq_comm
  · have hstate : state ≠ .noop := hnoop
    simp [hdrop, hstate]

theorem map_eq_self {α : Type} {f : α → α} {l : List α} : l.map f = l ↔ ∀ x ∈ l, f x = x := by
  simpa using List.map_eq_map_iff (f := f) (g := id) (l := l)

theorem between_of_map {l : ErisLog} {start stop : Nat} {es : List ErisLogEntry}
    (h : (List.range' start (stop - start)).map l.find = es.map some) : l.between start stop = es := by
  have := congrArg (List.filterMap id) h
  simpa [List.filterMap_map, ErisLog.between] using this

theorem place_of_find {l : ErisLog} {k : Nat} {e : ErisLogEntry} (h : l.find k = some e) :
    e.viewstamp.opnum = k := by
  obtain ⟨hk, he⟩ := ErisLog.find_eq_some.mp h
  have := l.numbered _ _ he
  omega

theorem length_of_map {l : ErisLog} {start stop : Nat} {es : List ErisLogEntry}
    (h : (List.range' start (stop - start)).map l.find = es.map some) : es.length = stop - start := by
  simpa using (congrArg List.length h).symm

theorem find_of_map {l : ErisLog} {start stop i : Nat} {es : List ErisLogEntry}
    (h : (List.range' start (stop - start)).map l.find = es.map some) (hi : i < stop - start) :
    l.find (start + i) = es[i]? := by
  have hat := congrArg (·[i]?) h
  simp only [List.getElem?_map, List.getElem?_range' hi, one_mul, Option.map_some] at hat
  rw [List.getElem?_eq_getElem (length_of_map h ▸ hi)] at hat ⊢
  exact Option.some_injective _ hat

/-- The lists that a log has at its end and at the places of a range are the same when the entries are. -/
theorem eq_iff_find {l l' : ErisLog} {start stop : Nat} {es es' base : List ErisLogEntry}
    (h : (List.range' start (stop - start)).map l.find = es.map some) (hl' : l'.entries = base ++ es')
    (hbase : base.length + 1 = start) (hlen : es'.length = es.length) :
    (∀ k, start ≤ k → k < stop → l'.find k = l.find k) ↔ es' = es := by
  have hes := length_of_map h
  have hfind' : ∀ i, l'.find (start + i) = es'[i]? := by
    intro i
    rw [ErisLog.find, findEntry, if_neg (by omega), hl', List.getElem?_append_right (by omega)]
    congr 1
    omega
  constructor
  · intro hfind
    refine List.ext_getElem? fun i => ?_
    by_cases hi : i < stop - start
    · rw [← find_of_map h hi, ← hfind' i]
      exact hfind _ (by omega) (by omega)
    · rw [List.getElem?_eq_none (by omega), List.getElem?_eq_none (by omega)]
  · rintro rfl k hk hk'
    obtain ⟨i, rfl⟩ := Nat.exists_eq_add_of_le hk
    rw [hfind' i, find_of_map h (by omega)]

variable {S L L' : Server σ} {remote : Node} {req : StateTransferRequest} {msg : StateTransferReply}

/-- The missing entries are those that the reply has from the next place on. -/
theorem missing_of_entries {es : List ErisLogEntry} {start : Nat} (hstart : msg.start ≤ start)
    (hes : (List.range' msg.start (msg.stop - msg.start)).map S.log.find = es.map some) :
    (List.range' start (msg.stop - start)).map S.log.find = (es.drop (start - msg.start)).map some := by
  have hdrop := congrArg (List.drop (start - msg.start)) hes
  rw [← List.map_drop, ← List.map_drop, List.drop_range'] at hdrop
  convert hdrop using 2
  congr 1 <;> omega

/-- The part of the handler that installs the entries of the sender does so if they follow the log. -/
theorem installTransferred_sat {es : List ErisLogEntry} (hentries : msg.entries = es.map dumpEntry)
    (hes : (List.range' msg.start (msg.stop - msg.start)).map S.log.find = es.map some)
    (hreach : msg.start ≤ L.lastOp + 1) (hlag : L.lastOp + 1 < msg.stop) :
    Sat (installTransferred msg) L
      (fun _ s' o => o = [] ∧ Continuing L (S.log.between (L.lastOp + 1) msg.stop) ∧
        Installed L ((S.log.between (L.lastOp + 1) msg.stop).map L.copy) s')
      fun _ _ => ¬ Continuing L (S.log.between (L.lastOp + 1) msg.stop) := by
  have hmissing := between_of_map (missing_of_entries hreach hes)
  have hplaced : ∀ i e, es[i]? = some e → e.viewstamp.opnum = msg.start + i := by
    intro i e he
    have hi := (List.getElem?_eq_some_iff.mp he).1
    rw [length_of_map hes] at hi
    exact place_of_find ((find_of_map hes hi).trans he)
  have hlen := length_of_map hes
  have hfirst : ∀ x, msg.entries.head? = some x → x.opNum = msg.start := by
    intro x hx
    rw [hentries, List.head?_eq_getElem?, List.getElem?_map] at hx
    obtain ⟨e, he, rfl⟩ := Option.map_eq_some_iff.mp hx
    exact hplaced 0 e he
  have hlast : ∀ x, msg.entries.getLast? = some x → x.opNum + 1 = msg.stop := by
    intro x hx
    rw [hentries, List.getLast?_eq_getElem?, List.getElem?_map, List.length_map] at hx
    obtain ⟨e, he, rfl⟩ := Option.map_eq_some_iff.mp hx
    have : e.viewstamp.opnum = msg.start + (es.length - 1) := hplaced _ e he
    show e.viewstamp.opnum + 1 = msg.stop
    omega
  have hne : msg.entries ≠ [] := by
    rw [hentries, ← List.length_pos_iff, List.length_map]
    omega
  simp only [installTransferred, sat_bind, sat_get, sat_ofOption, sat_assert]
  refine ⟨fun x hx => ⟨fun y hy => ⟨fun _ => ⟨fun _ => ⟨fun _ => ?_, fun h => (h (by omega)).elim⟩,
    fun h => (h (hlast y hy)).elim⟩, fun h => (h (hfirst x hx)).elim⟩,
    fun h => (hne (List.getLast?_eq_none_iff.mp h)).elim⟩, fun h => (hne (List.head?_eq_none_iff.mp h)).elim⟩
  rw [hmissing, hentries, ← List.map_drop]
  exact installEntries_sat _ L

/-- A reply that begins after the next place is not installed. -/
theorem reaches_of_installed (h : installTransferred msg L = (some (), L', [])) : msg.start ≤ L.lastOp + 1 := by
  have hsat : Sat (installTransferred msg) L (fun _ _ _ => msg.start ≤ L.lastOp + 1) fun _ _ => True := by
    simp only [installTransferred, sat_bind, sat_get, sat_ofOption, sat_assert]
    refine ⟨fun x _ => ⟨fun y _ => ⟨fun _ => ⟨fun _ => ⟨fun hreach => ?_, fun _ => trivial⟩, fun _ => trivial⟩,
      fun _ => trivial⟩, fun _ => trivial⟩, fun _ => trivial⟩
    exact (sat_state _ _).mono (fun _ _ _ _ => not_lt.mp hreach) fun _ _ _ => trivial
  rwa [Sat, h] at hsat

/-- What comes of installing entries is what the sender has, if they are logged as they are there and the
    sender's maps have them. -/
theorem sameOn_iff {missing : List ErisLogEntry}
    (hrange : (List.range' (L.lastOp + 1) (msg.stop - (L.lastOp + 1))).map S.log.find = missing.map some)
    (hwhole : L.log.entries.length = L.lastOp) (hi : Installed L (missing.map L.copy) L') :
    SameOn S L' (L.lastOp + 1) msg.stop ↔ (∀ e ∈ missing, L.copy e = e) ∧
      (∀ shard n, lastNumber (missing.flatMap (·.received)) shard = some n →
        S.shardToMsgnum.find? shard = some n) ∧
      ∀ stamp k, L.lastOp < k → k < msg.stop → (S.txnLookup stamp = some k ↔
        L.txnLookup stamp = some k ∨ (L.txnLookup stamp = none ∧ place missing stamp = some k)) := by
  have hbetween : S.log.between (L.lastOp + 1) msg.stop = missing := between_of_map hrange
  have hlog := eq_iff_find hrange hi.log (by omega) (by simp)
  have hcopies : missing.map L.copy = missing ↔ ∀ e ∈ missing, L.copy e = e := map_eq_self
  rw [← hcopies, ← hlog]
  constructor
  · intro h
    have hsame := hlog.mp h.log
    rw [hsame] at hi
    refine ⟨h.log, fun shard n hn => ?_, fun stamp k hk hk' => ?_⟩
    · obtain ⟨op, hop, rfl, -⟩ := lastNumber_eq_some hn
      obtain ⟨e, he, hop⟩ := List.mem_flatMap.mp hop
      rw [← h.numbers e (hbetween ▸ he) op hop, hi.numbers, hn]
      rfl
    · rw [← h.lookup stamp k hk hk', hi.lookup stamp, Option.or_eq_some_iff]
  · rintro ⟨hfind, hlatest, hindexed⟩
    rw [hlog.mp hfind] at hi
    refine ⟨hfind, fun e he op hop => ?_, fun stamp k hk hk' => ?_⟩
    · have hmem : op ∈ missing.flatMap (·.received) := List.mem_flatMap.mpr ⟨e, hbetween ▸ he, hop⟩
      cases hn : lastNumber (missing.flatMap (·.received)) op.shard with
      | none => exact (lastNumber_eq_none.mp hn op hmem rfl).elim
      | some n =>
        rw [hi.numbers, hn, hlatest _ _ hn]
        rfl
    · rw [hindexed stamp k hk hk', hi.lookup stamp, Option.or_eq_some_iff]

/-- The reply of a sender brings what it is to bring just when its entries go on where the log of the replica
    ends. -/
theorem transfers_iff (E : ServerEnv σ)
    (hreply : (handleStateTransferRequest remote req S).2.2 = [.toNodes [remote] (.stateTransferReply msg)])
    (hview : msg.view = L.viewNum) (hlag : L.lastOp + 1 < msg.stop) :
    (∃ L', installTransferred msg L = (some (), L', []) ∧
      handleStateTransferReply E msg L = completeTransfer E msg L' ∧ SameOn S L' (L.lastOp + 1) msg.stop) ↔
    Transferable S L msg := by
  obtain ⟨-, es, hentries, hes⟩ := reply_spec hreply
  constructor
  · rintro ⟨L', hrun, -, hsame⟩
    have hreach := reaches_of_installed hrun
    have hrange := missing_of_entries hreach hes
    rw [← between_of_map hrange] at hrange
    have hsat := installTransferred_sat hentries hes hreach hlag
    rw [Sat, hrun] at hsat
    obtain ⟨-, ha, hi⟩ := hsat
    have hne : S.log.between (L.lastOp + 1) msg.stop ≠ [] := by
      rw [← List.length_pos_iff, length_of_map hrange]
      omega
    obtain ⟨hcopies, hlatest, hindexed⟩ := (sameOn_iff hrange (ha.whole hne) hi).mp hsame
    have hlater := ha.later
    rw [map_eq_self.mpr hcopies] at hlater
    exact ⟨hreach, ha.whole hne, ha.counted, fun e he => (Server.copy_eq_self.mp (hcopies e he)).1,
      fun e he => (Server.copy_eq_self.mp (hcopies e he)).2, hlater, hlatest, hindexed⟩
  · intro ht
    have hrange := missing_of_entries ht.reaches hes
    rw [← between_of_map hrange] at hrange
    have hcopies : ∀ e ∈ S.log.between (L.lastOp + 1) msg.stop, L.copy e = e := fun e he =>
      Server.copy_eq_self.mpr ⟨ht.noops e he, ht.dropped e he⟩
    have ha : Continuing L (S.log.between (L.lastOp + 1) msg.stop) := by
      refine ⟨fun _ => ht.whole, fun i e he => ?_, ht.counted, ?_⟩
      · have hi := (List.getElem?_eq_some_iff.mp he).1
        rw [length_of_map hrange] at hi
        exact place_of_find ((find_of_map hrange hi).trans he)
      · rw [map_eq_self.mpr hcopies]
        exact ht.later
    rcases (installTransferred_sat hentries hes ht.reaches hlag).cases with
      ⟨_, L', o, hrun, rfl, -, hi⟩ | ⟨_, _, -, hno⟩
    · exact ⟨L', hrun, handleStateTransferReply_of_installed hview hlag hrun,
        (sameOn_iff hrange ht.whole hi).mpr ⟨hcopies, ht.latest, ht.indexed⟩⟩
    · exact (hno ha).elim

/-! ### A replica that has missed an epoch -/

/-- The replica of the shard with this index; the first one leads. -/
def transferServer (replicaIdx : Nat) : ServerEnv Unit :=
  { config := { n := 3, f := 1 }, groupIdx := 0, replicaIdx := replicaIdx
    app := { init := (), invokeTransaction := fun _ _ => pure ("", ⟨0, false, true, StdSet.empty, .normal⟩) } }

/-- The first message of a session. -/
def sessionTxn (sessnum : Nat) : RequestMessage :=
  { txnid := sessnum, type := .independent
    request :=
      { op := "x", clientid := 7, clientreqid := sessnum + 1, ops := [⟨0, "x", 1⟩], sessnum := sessnum } }

/-- It comes from the sequencer. -/
def sessionEvent (sessnum : Nat) : ServerEvent :=
  .message (.client 7) sessnum (fun _ => some 1) (.request (sessionTxn sessnum))

/-- The failure coordinator starts an epoch after another one, with the log of the leader. -/
def startEvent (sessnum lastNormal latestOpNum : Nat) : ServerEvent :=
  .message (.client 0) 0 (fun _ => none) (.fc (.startEpoch
    { newView := ⟨0, sessnum⟩, lastNormalEpochNum := lastNormal, permDrops := [], latestReplicaNum := 0
      latestOpNum := latestOpNum }))

/-- What the leader answers with. -/
def transferReply : StateTransferReply where
  view := ⟨0, 3⟩
  start := 2
  stop := 4
  entries := [
    { view := 0, opNum := 2, sessNum := 1, msgNum := 1, shardNum := 0, state := .received
      request := sessionTxn 1 },
    { view := 0, opNum := 3, sessNum := 2, msgNum := 1, shardNum := 0, state := .received
      request := sessionTxn 2 }]

/-- A replica that has entered the second epoch and hears next of the start of the fourth one asks for what the
    second and the third one have logged. The leader's answer ends the process. -/
theorem epochs_not_transferred :
    ∃ past S past' L, Run (serverSystem (transferServer 0)) (fun _ _ => True) past S ∧
      Run (serverSystem (transferServer 1)) (fun _ _ => True) past' L ∧
      (L.pendingStateTransfer.start = 2 ∧ L.pendingStateTransfer.stop = 4 ∧
        L.pendingStateTransfer.replicaIdx = 0) ∧
      (handleStateTransferRequest (.replica 0 1) ⟨L.viewNum, 2, 4⟩ S).2.2 =
        [.toNodes [.replica 0 1] (.stateTransferReply transferReply)] ∧
      transferReply.view = L.viewNum ∧ L.lastOp + 1 < transferReply.stop ∧
      (∃ e e', S.log.find 2 = some e ∧ S.log.find 3 = some e' ∧ e.viewstamp.sessnum ≠ e'.viewstamp.sessnum) ∧
      (handleStateTransferReply (transferServer 1) transferReply L).1 = none ∧
      ¬ ∃ L', installTransferred transferReply L = (some (), L', []) ∧
        handleStateTransferReply (transferServer 1) transferReply L =
          completeTransfer (transferServer 1) transferReply L' ∧
        SameOn S L' (L.lastOp + 1) transferReply.stop := by
  obtain ⟨past, S, hr, hS⟩ := Run.exists_of_exec (serverSystem (transferServer 0)) (fun _ _ => True)
    [sessionEvent 0, startEvent 1 0 1, sessionEvent 1, startEvent 2 1 2, sessionEvent 2, startEvent 3 2 3]
    (fun S => S.viewNum = ⟨0, 3⟩ ∧ S.lastOp = 3 ∧ ((List.range' 2 2).map S.log.find).mapM id = some
      [⟨⟨0, 2, 1, 1, 0⟩, .received, (sessionTxn 1).request, ⟨1, .independent⟩⟩,
        ⟨⟨0, 3, 2, 1, 0⟩, .received, (sessionTxn 2).request, ⟨2, .independent⟩⟩]) (by decide +kernel)
  obtain ⟨hview, hlast, hes⟩ := of_decide_eq_true hS
  obtain ⟨past', L, hr', hL⟩ := Run.exists_of_exec (serverSystem (transferServer 1)) (fun _ _ => True)
    [sessionEvent 0, startEvent 1 0 1, startEvent 3 2 3]
    (fun L => L.viewNum = ⟨0, 3⟩ ∧ L.lastOp = 1 ∧ L.pendingStateTransfer.start = 2 ∧
      L.pendingStateTransfer.stop = 4 ∧ L.pendingStateTransfer.replicaIdx = 0 ∧
      (installTransferred transferReply L).1 = none ∧
      (handleStateTransferReply (transferServer 1) transferReply L).1 = none) (by decide +kernel)
  obtain ⟨hview', hlast', hstart, hstop, hidx, hfail, hend⟩ := of_decide_eq_true hL
  have hfind := mapM_eq_some hes
  refine ⟨past, S, past', L, hr, hr', ⟨hstart, hstop, hidx⟩, ?_, hview'.symm, by rw [hlast']; decide, ?_,
    hend, ?_⟩
  · rw [reply_of_entries (.replica 0 1) ⟨L.viewNum, 2, 4⟩ _ (hview'.trans hview.symm) (by simp [hlast])
      (by simp [hlast]) hes, hview]
    rfl
  · simp only [List.range', List.map_cons, List.map_nil, List.cons.injEq] at hfind
    exact ⟨_, _, hfind.1, hfind.2.1, by decide⟩
  · rintro ⟨L', hrun, -⟩
    rw [hrun] at hfail
    cases hfail

/-- What a replica logs first. -/
def missedEntry : ErisLogEntry := ⟨⟨0, 1, 0, 1, 0⟩, .received, (sessionTxn 0).request, ⟨0, .independent⟩⟩

/-- The leader, when it has just logged it. -/
def missedSender : Server Unit :=
  { Server.initial (transferServer 0) with
    log := ⟨[missedEntry], by
      rintro (_ | i) e he
      · cases he
        rfl
      · cases he⟩
    lastOp := 1, nextMsgnum := 2, shardToMsgnum := StdMap.empty.insert 0 1
    txnLookup := Function.update (fun _ => none) (.of 0 1 0) (some 1) }

/-- A replica that has missed it is brought to where the leader is. -/
theorem transfers_iff_first :
    ∃ (msg : StateTransferReply) (L' : Server Unit),
      (handleStateTransferRequest (.replica 0 1) ⟨⟨0, 0⟩, 1, 2⟩ missedSender).2.2 =
        [.toNodes [.replica 0 1] (.stateTransferReply msg)] ∧
      installTransferred msg (.initial (transferServer 1)) = (some (), L', []) ∧
      SameOn missedSender L' 1 msg.stop := by
  have hreply := reply_of_entries (S := missedSender) (.replica 0 1) ⟨⟨0, 0⟩, 1, 2⟩ [missedEntry] rfl (by decide)
    (by decide) (by decide)
  have hbetween : missedSender.log.between 1 2 = [missedEntry] := by decide
  obtain ⟨L', hinst, -, hsame⟩ := (transfers_iff (transferServer 1) (L := .initial (transferServer 1)) hreply
    rfl (by decide)).mpr
    { reaches := by decide
      whole := by decide
      counted := by
        rintro (_ | i) e he
        · cases he
          rfl
        · cases he
      noops := by decide
      dropped := by decide
      later := ⟨by decide, by decide⟩
      latest := by
        intro shard n hn
        obtain ⟨op, hop, rfl, rfl⟩ := lastNumber_eq_some hn
        revert op
        decide
      indexed := by
        intro stamp k hk hk'
        obtain rfl : k = 1 := by
          have : k < 2 := hk'
          have : 0 < k := hk
          omega
        show Function.update (fun _ => none) (MsgStamp.of 0 1 0) (some 1) stamp = some 1 ↔
          (none : Option Nat) = some 1 ∨ ((none : Option Nat) = none ∧
            place (missedSender.log.between 1 2) stamp = some 1)
        have hstamps : missedEntry.receivedStamps = [.of 0 1 0] := by decide
        rw [hbetween, place, List.find?_singleton, hstamps]
        by_cases h : stamp = .of 0 1 0
        · subst h
          decide
        · simp [h] }
  exact ⟨_, L', hreply, hinst, hsame⟩

end Dsnet.Eris
