import Mathlib.Data.Finset.Lattice.Fold
import Mathlib.Order.Lattice.Nat
import Mathlib.Data.Finset.Union
import Dsnet.Eris.Transfer
import Dsnet.Lib.Frame

/-! `ErisServer::HandleEpochChangeStateTransferReply`: in whatever order the replies of the other shards arrive,
    what they make of the log is one function of all the messages that they report. Each message stands at
    the slot of its number, the slots between are NOOPs, and these are the drops that the failure
    coordinator is told of, once. -/

namespace Dsnet.Eris
open Handler Transaction

variable {σ : Type} {E : ServerEnv σ} {s₀ s s' : Server σ} {request : Nat → RequestMessage}
  {seen : Finset Nat} {hi n : Nat}

/-- The entry with this message number, when these messages have been reported. -/
def slot (E : ServerEnv σ) (s₀ : Server σ) (request : Nat → RequestMessage) (seen : Finset Nat) (i : Nat) :
    ErisLogEntry :=
  let vs : Viewstamp :=
    { view := s₀.view, opnum := s₀.lastOp + 1 + (i - s₀.nextMsgnum), sessnum := s₀.lastNormalSessnum
      msgnum := i, shardnum := E.groupIdx }
  if i ∈ seen then
    { viewstamp := vs, state := .received, request := (request i).request
      txnData := { txnid := (request i).txnid, type := (request i).type } }
  else { viewstamp := vs, state := .noop, request := RequestMessage.blank.request }

/-- The replica has the slots below `hi`, and these messages in them. -/
structure Merged (E : ServerEnv σ) (s₀ : Server σ) (request : Nat → RequestMessage) (seen : Finset Nat)
    (hi : Nat) (s : Server σ) : Prop where
  le : s₀.nextMsgnum ≤ hi
  within : ∀ i ∈ seen, s₀.nextMsgnum ≤ i ∧ i < hi
  next : s.nextMsgnum = hi
  lastOp : s.lastOp = s₀.lastOp + (hi - s₀.nextMsgnum)
  log : s.log.entries =
    s₀.log.entries ++ (List.range' s₀.nextMsgnum (hi - s₀.nextMsgnum)).map (slot E s₀ request seen)
  drops : ∀ x, x ∈ s.pendingECStateTransfer.drops.toList ↔
    x ∈ s₀.pendingECStateTransfer.drops.toList ∨
      ∃ i, s₀.nextMsgnum ≤ i ∧ i < hi ∧ i ∉ seen ∧ x = s₀.stampOf E i
  rest : s = { s₀ with
    log := s.log, lastOp := s.lastOp, nextMsgnum := s.nextMsgnum
    pendingECStateTransfer := s.pendingECStateTransfer, active := s.active }

/-- What the replica has asked the other shards for. -/
abbrev Server.requested (s : Server σ) := s.pendingECStateTransfer.requests

/-- What is reported goes to the slots after the log, and numbers are narrowed to what they were. -/
structure Mergeable (E : ServerEnv σ) (s₀ : Server σ) : Prop where
  lastOp : s₀.log.entries.length = s₀.lastOp
  next : s₀.nextMsgnum ≤ 2 ^ 32
  drops : ∀ i, s₀.nextMsgnum ≤ i → i < 2 ^ 32 →
    s₀.stampOf E i ∉ s₀.pendingECStateTransfer.drops.toList

/-- One entry of the log is changed. -/
theorem ErisLog.entries_change (l : ErisLog) (k : Nat) (state : LogEntryState) (request : SequencedRequest)
    (data : TxnData) : (l.change (k + 1) state request data).entries =
      l.entries.modify k ({ · with state := state, request := request, txnData := data }) := by
  simp [ErisLog.change]

namespace Merged

theorem start (s₀ : Server σ) : Merged E s₀ request ∅ s₀.nextMsgnum s₀ where
  le := le_refl _
  within _ h := absurd h (Finset.notMem_empty _)
  next := rfl
  lastOp := by simp
  log := by simp
  drops x := ⟨Or.inl, fun h => h.elim id fun ⟨i, hle, hlt, _⟩ => absurd hlt (by omega)⟩
  rest := rfl

/-- All else is as it was, also when these change again. -/
theorem rest_with (h : Merged E s₀ request seen hi s) (log : ErisLog) (lastOp nextMsgnum : Nat)
    (pending : ECStateTransfer) (active : Timer → Bool) :
    { s with log := log, lastOp := lastOp, nextMsgnum := nextMsgnum, pendingECStateTransfer := pending
             active := active } =
      { s₀ with log := log, lastOp := lastOp, nextMsgnum := nextMsgnum, pendingECStateTransfer := pending
                active := active } := by
  rw [h.rest]

theorem stampOf_eq (h : Merged E s₀ request seen hi s) (i : Nat) : s.stampOf E i = s₀.stampOf E i := by
  rw [h.rest]
  rfl

/-- Below 2^32 numbers are told apart. -/
theorem stampOf_inj {i j : Nat} (hi : i < 2 ^ 32) (hj : j < 2 ^ 32) (h : s₀.stampOf E i = s₀.stampOf E j) :
    i = j := by
  have hnum : toView (toInt i) = toView (toInt j) := congrArg MsgStamp.msgNum h
  unfold toView toInt at hnum
  split_ifs at hnum <;> omega

/-- The entry at the slot of a message. -/
theorem getElem? (h : Merged E s₀ request seen hi s) (h₀ : Mergeable E s₀) {i : Nat}
    (hle : s₀.nextMsgnum ≤ i) (hlt : i < hi) :
    s.log.entries[s₀.lastOp + (i - s₀.nextMsgnum)]? = some (slot E s₀ request seen i) := by
  rw [h.log, ← h₀.lastOp, List.getElem?_append_right (by omega), Nat.add_sub_cancel_left,
    List.getElem?_map, List.getElem?_range' (by omega)]
  simp only [Option.map_some, Option.some.injEq]
  congr 1
  omega

/-- The next slot, for a message that has this number or a NOOP. -/
theorem append (h : Merged E s₀ request seen hi s) (h₀ : Mergeable E s₀) {m : ECTransferEntry}
    (hm : m.request = request m.msgNum) (hle : hi ≤ m.msgNum) :
    Sat (appendNext E m) s (fun _ s' o => o = [] ∧
      Merged E s₀ request (if hi = m.msgNum then insert hi seen else seen) (hi + 1) s') fun _ _ => False := by
  have hlen : s.log.entries.length = s.lastOp := by
    rw [h.log, List.length_append, h₀.lastOp, List.length_map, List.length_range', h.lastOp]
  have hnew : hi ∉ seen := fun hmem => lt_irrefl _ (h.within hi hmem).2
  have hslot : ∀ {seen' : Finset Nat}, (∀ i, i < hi → (i ∈ seen' ↔ i ∈ seen)) →
      ∀ {e : ErisLogEntry}, e = slot E s₀ request seen' hi → s.log.entries ++ [e] = s₀.log.entries ++
        (List.range' s₀.nextMsgnum (hi + 1 - s₀.nextMsgnum)).map (slot E s₀ request seen') := by
    rintro seen' hseen _ rfl
    have hle := h.le
    rw [h.log, Nat.succ_sub hle, List.range'_concat, List.map_append, List.append_assoc]
    congr 2
    · refine List.map_congr_left fun i hi => ?_
      have hlt := (List.mem_range'_1.mp hi).2
      simp only [slot, hseen i (by omega)]
    · simp only [List.map_cons, List.map_nil]
      congr 2
      omega
  have hview : s.view = s₀.view := by rw [h.rest]
  have hsess : s.lastNormalSessnum = s₀.lastNormalSessnum := by rw [h.rest]
  have happend : ∀ e : ErisLogEntry, e.viewstamp.opnum = s.lastOp + 1 → s.log.append e ≠ none := by
    intro e he
    rw [ErisLog.append, dif_pos (by rw [s.log.lastOpnum_eq, hlen, he])]
    exact Option.some_ne_none _
  have hop : s.lastOp + 1 = s₀.lastOp + 1 + (hi - s₀.nextMsgnum) := by
    rw [h.lastOp]
    omega
  have hlast : s.lastOp + 1 = s₀.lastOp + (hi + 1 - s₀.nextMsgnum) := by
    have := h.le
    omega
  rw [appendNext, sat_bind, sat_get]
  simp only [sat_bind, sat_modify, h.next, sat_ite, Eris.append, sat_get, sat_ofOption, List.nil_append]
  refine ⟨fun hlt => ⟨fun log hlog => ?_, fun hno => absurd hno (happend _ rfl)⟩,
    fun hge => ⟨fun log hlog => ?_, fun hno => absurd hno (happend _ rfl)⟩⟩
  · rw [if_neg (by omega)]
    refine ⟨trivial, h.le.trans (Nat.le_succ _), fun i hi => (h.within i hi).imp_right Nat.lt_succ_of_lt,
      rfl, hlast, ?_, fun x => ?_, h.rest_with ..⟩
    · refine (ErisLog.append_eq_some hlog).2.trans (hslot (fun _ _ => Iff.rfl) ?_)
      rw [slot, if_neg hnew, hop, hview, hsess]
    · have hstamp := h.stampOf_eq hi
      show x ∈ (s.pendingECStateTransfer.drops.insert (s.stampOf E hi)).toList ↔ _
      rw [StdSet.mem_insert, h.drops, hstamp, or_left_comm]
      refine or_congr_right ⟨?_, ?_⟩
      · rintro (rfl | ⟨i, hle, hlt, hi, rfl⟩)
        · exact ⟨hi, h.le, Nat.lt_succ_self _, hnew, rfl⟩
        · exact ⟨i, hle, Nat.lt_succ_of_lt hlt, hi, rfl⟩
      · rintro ⟨i, hle, hlt, hi, rfl⟩
        rcases Nat.lt_succ_iff_lt_or_eq.mp hlt with hlt | rfl
        · exact Or.inr ⟨i, hle, hlt, hi, rfl⟩
        · exact Or.inl rfl
  · obtain rfl : hi = m.msgNum := by omega
    rw [if_pos rfl]
    refine ⟨trivial, h.le.trans (Nat.le_succ _), fun i hi => ?_, rfl, hlast, ?_, fun x => ?_, h.rest_with ..⟩
    · rcases Finset.mem_insert.mp hi with rfl | hi
      · exact ⟨h.le, Nat.lt_succ_self _⟩
      · exact (h.within i hi).imp_right Nat.lt_succ_of_lt
    · refine (ErisLog.append_eq_some hlog).2.trans (hslot (fun i hi => ?_) ?_)
      · simp [ne_of_lt hi]
      · rw [slot, if_pos (Finset.mem_insert_self _ _), hop, hview, hsess, hm]
    · refine (h.drops x).trans (or_congr_right (exists_congr fun i => and_congr_right fun hle => ?_))
      simp only [Finset.mem_insert, not_or]
      constructor
      · rintro ⟨hlt, hi, rfl⟩
        exact ⟨Nat.lt_succ_of_lt hlt, ⟨ne_of_lt hlt, hi⟩, rfl⟩
      · rintro ⟨hlt, ⟨hne, hi⟩, rfl⟩
        exact ⟨by omega, hi, rfl⟩

/-- A message takes the slot that has been kept for it, if it has not got it yet. -/
theorem replace (h : Merged E s₀ request seen hi s) (h₀ : Mergeable E s₀) {m : ECTransferEntry}
    (hm : m.request = request m.msgNum) (hle : s₀.nextMsgnum ≤ m.msgNum) (hlt : m.msgNum < hi)
    (hhi : hi ≤ 2 ^ 32) :
    Sat (replaceEntry E m) s (fun _ s' o => o = [] ∧ Merged E s₀ request (insert m.msgNum seen) hi s')
      fun _ _ => False := by
  have hop : s.lastOp + 1 - (s.nextMsgnum - m.msgNum) = s₀.lastOp + (m.msgNum - s₀.nextMsgnum) + 1 := by
    rw [h.lastOp, h.next]
    omega
  have hfind : s.log.find (s₀.lastOp + (m.msgNum - s₀.nextMsgnum) + 1) =
      some (slot E s₀ request seen m.msgNum) :=
    ErisLog.find_eq_some.mpr ⟨Nat.succ_pos _, h.getElem? h₀ hle hlt⟩
  rw [replaceEntry, sat_bind, sat_get]
  simp only [sat_bind, sat_ofOption, sat_when, sat_modify, hop, hfind, List.nil_append]
  refine ⟨fun e he => ?_, fun hno => by cases hno⟩
  obtain rfl := Option.some.inj he
  by_cases hseen : m.msgNum ∈ seen
  · rw [Finset.insert_eq_of_mem hseen]
    exact ⟨fun hnoop => by simp [slot, hseen] at hnoop, fun _ => ⟨trivial, h⟩⟩
  · refine ⟨fun _ => ⟨trivial, h.le, fun i hi => ?_, h.next, h.lastOp, ?_, fun x => ?_, h.rest_with ..⟩,
      fun hno => absurd (by simp [slot, hseen]) hno⟩
    · rcases Finset.mem_insert.mp hi with rfl | hi
      · exact ⟨hle, hlt⟩
      · exact h.within i hi
    · -- one entry of the log is another one
      refine (s.log.entries_change ..).trans ?_
      rw [h.log, ← h₀.lastOp]
      refine List.ext_getElem? fun j => ?_
      rw [List.getElem?_modify]
      by_cases hj : j < s₀.log.entries.length
      · rw [List.getElem?_append_left hj, List.getElem?_append_left hj]
        simp [show s₀.log.entries.length + (m.msgNum - s₀.nextMsgnum) ≠ j by omega]
      · rw [List.getElem?_append_right (by omega), List.getElem?_append_right (by omega), List.getElem?_map,
          List.getElem?_map]
        cases hr : (List.range' s₀.nextMsgnum (hi - s₀.nextMsgnum))[j - s₀.log.entries.length]? with
        | none => rfl
        | some i =>
          obtain ⟨hlen, hi⟩ := List.getElem?_eq_some_iff.mp hr
          rw [List.getElem_range'] at hi
          by_cases him : i = m.msgNum
          · subst him
            have hidx : s₀.log.entries.length + (m.msgNum - s₀.nextMsgnum) = j := by omega
            simp [slot, hm, hidx, hseen]
          · have hidx : s₀.log.entries.length + (m.msgNum - s₀.nextMsgnum) ≠ j := by omega
            simp [slot, him, hidx]
    · have hstamp := h.stampOf_eq m.msgNum
      show x ∈ (s.pendingECStateTransfer.drops.erase (s.stampOf E m.msgNum)).toList ↔ _
      rw [StdSet.mem_erase, h.drops, hstamp]
      simp only [Finset.mem_insert, not_or]
      constructor
      · rintro ⟨hx | ⟨i, hle, hlt, hi, rfl⟩, hne⟩
        · exact Or.inl hx
        · exact Or.inr ⟨i, hle, hlt, ⟨fun heq => hne (heq ▸ rfl), hi⟩, rfl⟩
      · rintro (hx | ⟨i, hle', hlt', ⟨hne, hi⟩, rfl⟩)
        · exact ⟨Or.inl hx, fun heq => h₀.drops _ hle (by omega) (heq ▸ hx)⟩
        · exact ⟨Or.inr ⟨i, hle', hlt', hi, rfl⟩, fun heq => hne (stampOf_inj (by omega) (by omega) heq)⟩

/-- One message. -/
theorem message (h : Merged E s₀ request seen hi s) (h₀ : Mergeable E s₀) {m : ECTransferEntry}
    (hm : m.request = request m.msgNum) (hle : s₀.nextMsgnum ≤ m.msgNum) (hlt : m.msgNum < 2 ^ 32)
    (hhi : hi ≤ 2 ^ 32) :
    Sat (transferMessage E m) s (fun _ s' o => o = [] ∧
      if s₀.stampOf E m.msgNum ∈ s₀.permDrops.toList then Merged E s₀ request seen hi s'
      else Merged E s₀ request (insert m.msgNum seen) (max hi (m.msgNum + 1)) s') fun _ _ => False := by
  have hperm : s.permDrops = s₀.permDrops := by rw [h.rest]
  rw [transferMessage, sat_bind, sat_get, h.stampOf_eq, hperm, h.next]
  simp only [sat_when, sat_ite, List.nil_append]
  refine ⟨fun hno => ⟨fun hlow => ?_, fun hhigh => ?_⟩, fun hno => ?_⟩
  · simp only [if_neg hno, Nat.max_eq_left hlow]
    exact h.replace h₀ hm hle hlow hhi
  · simp only [if_neg hno, Nat.max_eq_right (by omega : hi ≤ m.msgNum + 1)]
    -- NOOPs go before the message, which comes in the last round
    refine (sat_iterate (fun k s o => o = [] ∧
      ((k = 0 ∧ Merged E s₀ request (insert m.msgNum seen) (m.msgNum + 1) s) ∨
        (0 < k ∧ k ≤ m.msgNum + 1 ∧ Merged E s₀ request seen (m.msgNum + 1 - k) s)))
      ⟨rfl, Or.inr ⟨by omega, by omega, ?_⟩⟩ ?_).mono (fun _ s' o h => ⟨h.1, ?_⟩) fun _ _ h => h
    · rwa [show m.msgNum + 1 - (m.msgNum + 1 - hi) = hi by omega]
    · rintro k s o ⟨rfl, ⟨hk, -⟩ | ⟨-, hk, h⟩⟩
      · cases hk
      · refine (h.append h₀ hm (by omega)).mono ?_ fun _ _ h => h
        rintro _ s' o ⟨rfl, h'⟩
        refine ⟨rfl, ?_⟩
        by_cases hk0 : k = 0
        · subst hk0
          exact Or.inl ⟨rfl, by simpa using h'⟩
        · rw [if_neg (by omega)] at h'
          refine Or.inr ⟨by omega, by omega, ?_⟩
          rwa [show m.msgNum + 1 - k = m.msgNum + 1 - (k + 1) + 1 by omega]
    · rcases h.2 with ⟨-, h⟩ | ⟨hpos, -⟩
      · exact h
      · exact absurd hpos (lt_irrefl 0)
  · exact ⟨trivial, by rw [if_pos (not_not.mp hno)]; exact h⟩

end Merged

/-! ### Replies -/

/-- The numbers of the messages that are not dropped for good. -/
def reportedBy (E : ServerEnv σ) (s₀ : Server σ) (entries : List ECTransferEntry) : Finset Nat :=
  (entries.map ECTransferEntry.msgNum).toFinset.filter fun i => s₀.stampOf E i ∉ s₀.permDrops.toList

/-- The number after the greatest of these, and after those that the log has got. -/
def top (s₀ : Server σ) (seen : Finset Nat) : Nat := max s₀.nextMsgnum (seen.sup (· + 1))

theorem top_insert (s₀ : Server σ) (i : Nat) (seen : Finset Nat) :
    top s₀ (insert i seen) = max (top s₀ seen) (i + 1) := by
  rw [top, top, Finset.sup_insert, max_assoc]
  congr 1
  exact sup_comm _ _

theorem top_le {m : Nat} (hn : s₀.nextMsgnum ≤ m) (h : ∀ i ∈ seen, i < m) : top s₀ seen ≤ m :=
  max_le hn (Finset.sup_le fun i hi => h i hi)

/-- The entries of a reply: their numbers are new and have 32 bits, and each has the request of its number. -/
def EntriesOk (s₀ : Server σ) (request : Nat → RequestMessage) (entries : List ECTransferEntry) : Prop :=
  ∀ m ∈ entries, s₀.nextMsgnum ≤ m.msgNum ∧ m.msgNum < 2 ^ 32 ∧ m.request = request m.msgNum

/-- The messages of a reply. -/
theorem Merged.messages (h : Merged E s₀ request seen (top s₀ seen) s) (h₀ : Mergeable E s₀)
    (hseen : ∀ i ∈ seen, i < 2 ^ 32) {entries : List ECTransferEntry} (hm : EntriesOk s₀ request entries) :
    Sat (forEach entries (transferMessage E)) s (fun _ s' o => o = [] ∧
      ∃ seen', seen' = seen ∪ reportedBy E s₀ entries ∧ Merged E s₀ request seen' (top s₀ seen') s')
      fun _ _ => False := by
  refine (sat_forEach (A := fun _ _ => False) (fun rest s o => o = [] ∧ EntriesOk s₀ request rest ∧
    ∃ done, (∀ i ∈ done, i < 2 ^ 32) ∧ Merged E s₀ request done (top s₀ done) s ∧
      done ∪ reportedBy E s₀ rest = seen ∪ reportedBy E s₀ entries)
    ⟨rfl, hm, seen, hseen, h, rfl⟩ ?_).mono ?_ fun _ _ h => h
  · rintro m rest s o ⟨rfl, hm, done, hdone, h, heq⟩
    obtain ⟨⟨hle, hlt, hreq⟩, hrest⟩ := List.forall_mem_cons.mp hm
    refine (h.message h₀ hreq hle hlt (top_le h₀.next hdone)).mono ?_ fun _ _ h => h
    rintro _ s' o ⟨rfl, h'⟩
    refine ⟨rfl, hrest, ?_⟩
    by_cases hperm : s₀.stampOf E m.msgNum ∈ s₀.permDrops.toList
    · rw [if_pos hperm] at h'
      refine ⟨done, hdone, h', heq ▸ ?_⟩
      simp [reportedBy, Finset.filter_insert, hperm]
    · rw [if_neg hperm, ← top_insert] at h'
      refine ⟨insert m.msgNum done, fun i hi => ?_, h', heq ▸ ?_⟩
      · rcases Finset.mem_insert.mp hi with rfl | hi
        · exact hlt
        · exact hdone i hi
      · simp [reportedBy, Finset.filter_insert, hperm]
  · rintro _ s' o ⟨rfl, -, done, -, h', heq⟩
    exact ⟨rfl, done, by simpa [reportedBy] using heq, h'⟩

/-- Messages leave the requests as they are. -/
theorem same_transferMessage (m : ECTransferEntry) :
    Relates (Same Server.requested) (transferMessage E m) := by
  refine relates_get.bind fun s => .when (.ite ?_ (.iterate ?_ _))
  · exact relates_get.bind fun s => relates_ofOption.bind fun e => .when (same_modify fun _ => rfl)
  · have happend : ∀ e, Relates (Same (Server.requested (σ := σ))) (append e) := fun e =>
      relates_get.bind fun s => relates_ofOption.bind fun log => same_modify fun _ => rfl
    refine relates_get.bind fun s => ?_
    dsimp only
    refine Relates.bind ?_ fun _ => Relates.ite (Relates.bind (happend _) fun _ => ?_) (happend _)
    · exact same_modify fun _ => rfl
    · exact same_modify fun _ => rfl

/-- What the replica tells the failure coordinator when it has got all replies. -/
def ServerEnv.transferAck (E : ServerEnv σ) (s : Server σ) : Output :=
  .toFC { shardNum := E.groupIdx, replicaNum := E.replicaIdx, localViewNum := s.viewNum
          msg := .epochChangeStateTransferAck
            { opNum := s.lastOp, drops := s.pendingECStateTransfer.drops.toList.map MsgStamp.stamp } }

/-- The reply of shard `q` to what the replica has asked it for. -/
structure TransferAnswer (s₀ : Server σ) (request : Nat → RequestMessage) (q : Nat) (msg : ECTransferReply) :
    Prop where
  shard : msg.shardNum = q
  session : msg.sessNum = s₀.sessnum
  last : msg.stateTransferSessNum = s₀.lastNormalSessnum
  entries : EntriesOk s₀ request msg.entries

/-- All that the shards report that the replica has asked. -/
def reports (E : ServerEnv σ) (s₀ : Server σ) (replies : Nat → ECTransferReply) (shards : Finset Nat) :
    Finset Nat := shards.biUnion fun q => reportedBy E s₀ (replies q).entries

variable {replies : Nat → ECTransferReply}

/-- Some shards have replied, and the failure coordinator has been told if these are all. -/
structure Replied (E : ServerEnv σ) (s₀ : Server σ) (request : Nat → RequestMessage)
    (replies : Nat → ECTransferReply) (done : Finset Nat) (s : Server σ) (o : List Output) : Prop where
  merged : Merged E s₀ request (reports E s₀ replies done) (top s₀ (reports E s₀ replies done)) s
  requests : ∀ q, s.requested.find? q =
    if q ∈ done then none else s₀.requested.find? q
  told : o = if s.requested.size = 0 then [E.transferAck s] else []

/-- The step lemma: one more reply arrives, or one that has arrived before. -/
theorem Replied.reply {done : Finset Nat} {o : List Output} (h : Replied E s₀ request replies done s o)
    (h₀ : Mergeable E s₀) (hstatus : s₀.status = .epochChange)
    (hall : ∀ q, (s₀.requested.find? q).isSome = true → TransferAnswer s₀ request q (replies q))
    (hdone : ∀ q ∈ done, (s₀.requested.find? q).isSome = true) {q : Nat}
    (hq : (s₀.requested.find? q).isSome = true) :
    Sat (handleECTransferReply E (replies q)) s
      (fun _ s' o' => Replied E s₀ request replies (insert q done) s' (o ++ o')) fun _ _ => False := by
  obtain ⟨hshard, hsess, hlast, hentries⟩ := hall q hq
  have hsess' : s.sessnum = s₀.sessnum := by rw [h.merged.rest]
  have hlast' : s.lastNormalSessnum = s₀.lastNormalSessnum := by rw [h.merged.rest]
  have hstatus' : s.status = .epochChange := by rw [h.merged.rest]; exact hstatus
  rw [handleECTransferReply, sat_bind, sat_get]
  simp only [sat_when, sat_bind, sat_assert, List.nil_append]
  refine ⟨fun _ => ⟨fun _ => ⟨fun hpending => ?_, fun hno => ?_⟩, fun hno => ?_⟩, fun hno => ?_⟩
  · rw [hshard] at hpending
    have hnew : q ∉ done := fun hmem => by simp [h.requests, hmem] at hpending
    have hout : o = [] := by
      rw [h.told, if_neg]
      intro h0
      simp [StdMap.size_eq_zero.mp h0 q] at hpending
    have hseen : ∀ i ∈ reports E s₀ replies done, i < 2 ^ 32 := by
      intro i hi
      obtain ⟨p, hp, hi⟩ := Finset.mem_biUnion.mp hi
      obtain ⟨m, hm, rfl⟩ := List.mem_map.mp (List.mem_toFinset.mp (Finset.mem_filter.mp hi).1)
      exact ((hall p (hdone p hp)).entries m hm).2.1
    subst hout
    refine ((h.merged.messages h₀ hseen hentries).and
      (Relates.forEach (same_transferMessage (E := E)) (replies q).entries s)).mono ?_ fun _ _ h => h.1
    rintro _ s₁ o₁ ⟨⟨rfl, seen, hseen, h₁⟩, hsame⟩
    have hreq : ∀ p, (s₁.requested.erase q).find? p =
        if p ∈ insert q done then none else s₀.requested.find? p := by
      intro p
      rw [StdMap.find?_erase, show s₁.requested = _ from hsame, h.requests]
      by_cases hp : p = q <;> simp [hp]
    obtain rfl : seen = reports E s₀ replies (insert q done) := by
      rw [hseen, reports, reports, Finset.biUnion_insert, Finset.union_comm]
    rw [hshard]
    simp only [completeECStateTransfer, sendEpochChangeStateTransferAck, stop, reset, invokeFC, sat_modify,
      sat_get, sat_bind, sat_emit, List.nil_append, List.append_nil]
    refine ⟨fun hsize => ⟨{ h₁ with rest := h₁.rest_with .. }, hreq, ?_⟩,
      fun hsize => ⟨{ h₁ with rest := h₁.rest_with .. }, hreq, ?_⟩⟩
    · rw [if_pos hsize]
      rfl
    · rw [if_neg hsize]
  · -- the reply is one that has arrived before
    rw [hshard] at hno
    have hmem : q ∈ done := by
      by_contra hnew
      rw [h.requests, if_neg hnew] at hno
      exact hno hq
    rw [Finset.insert_eq_of_mem hmem, List.append_nil]
    exact h
  · exact hno (hlast.trans hlast'.symm)
  · exact absurd (fun hor => hor.elim (fun hne => hne (hsess.trans hsess'.symm)) fun hne => hne hstatus') hno

/-- The message with this number. -/
def numbered (i : Nat) : RequestMessage := { sessionTxn 0 with txnid := i }

/-- A replica that has logged nothing and asked the shards 1 and 2. -/
def awaiting : Server Unit :=
  { Server.initial (transferServer 0) with
    status := .epochChange, sessnum := 1
    pendingECStateTransfer :=
      { requests := (StdMap.empty.insert 1 (0, ⟨1, 0, 0, 1, 4⟩)).insert 2 (0, ⟨1, 0, 0, 1, 2⟩)
        drops := StdSet.empty } }

/-- Shard 1 has the third message, and shard 2 the first one. -/
def twoReplies (q : Nat) : ECTransferReply :=
  { sessNum := 1, stateTransferSessNum := 0, shardNum := q
    entries := if q = 1 then [⟨3, numbered 3⟩] else [⟨1, numbered 1⟩] }

end Dsnet.Eris
