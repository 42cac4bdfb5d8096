import Dsnet.Common.Network
import Dsnet.Spec.Merge

/-! `replication/spec/spec-proto.proto` and `replication/spec/replica.{h,cc}`: the Speculative Paxos
    messages and replica, handler by handler.

    Replicas execute requests speculatively in the order they receive them. The leader commits a prefix
    when the log hashes of a fast quorum match (`HandleSyncReply`), or when enough replicas have
    entered its view with its log (`HandleInView`). Logging, latency measurement and the code under
    `PARANOID`, which the build leaves off, are left out; `RPanic` and a failed `ASSERT` both end the
    process. -/

namespace Dsnet.Spec
open Handler

/-! ### Messages -/

/-- `SpeculativeReplyMessage`. -/
structure SpeculativeReplyMessage where
  clientreqid : Nat
  replicaidx : Nat
  view : Nat
  opnum : Nat
  loghash : String
  reply : String
  committed : Bool
  deriving DecidableEq, Repr

/-- `ToClientMessage`. -/
inductive ToClientMessage where
  | reply (m : SpeculativeReplyMessage)
  | unloggedReply (reply : String)
  deriving DecidableEq, Repr

/-- `SyncMessage`. -/
structure SyncMessage where
  view : Nat
  lastcommitted : Nat
  lastcommittedhash : String
  lastspeculative : Nat
  deriving DecidableEq, Repr

/-- `SyncReplyMessage`. -/
structure SyncReplyMessage where
  view : Nat
  lastspeculative : Nat
  lastspeculativehash : String
  replicaidx : Nat
  deriving DecidableEq, Repr

/-- `StartViewChangeMessage`. -/
structure StartViewChangeMessage where
  view : Nat
  replicaidx : Nat
  lastcommitted : Nat
  deriving DecidableEq, Repr

/-- `StartViewMessage`. -/
structure StartViewMessage where
  view : Nat
  lastspeculative : Nat
  lastcommitted : Nat
  entries : List LogEntry
  deriving DecidableEq, Repr

/-- `InViewMessage`. -/
structure InViewMessage where
  view : Nat
  lastspeculative : Nat
  replicaidx : Nat
  deriving DecidableEq, Repr

/-- `FillLogGapMessage`. -/
structure FillLogGapMessage where
  view : Nat
  lastcommitted : Nat
  deriving DecidableEq, Repr

/-- `FillDVCGapMessage`. -/
structure FillDVCGapMessage where
  view : Nat
  lastcommitted : Nat
  deriving DecidableEq, Repr

/-- `ToReplicaMessage`. -/
inductive ToReplicaMessage where
  | request (req : Request)
  | unloggedRequest (op : String)
  | sync (m : SyncMessage)
  | syncReply (m : SyncReplyMessage)
  | requestViewChange (view : Nat)
  | startViewChange (m : StartViewChangeMessage)
  | doViewChange (m : DoViewChangeMessage)
  | startView (m : StartViewMessage)
  | inView (m : InViewMessage)
  | fillLogGap (m : FillLogGapMessage)
  | fillDVCGap (m : FillDVCGapMessage)
  deriving DecidableEq, Repr

/-! ### The state of a replica -/

/-- `ClientTableEntry`. -/
structure ClientTableEntry where
  lastReqId : Nat := 0
  lastReqOpnum : Nat := 0
  deriving DecidableEq, Repr

/-- The arguments of the constructor, and the hash function. -/
structure Env where
  config : Configuration
  replicaIdx : Nat
  app : App
  sha1 : Sha1

/-- The timers of a replica. -/
inductive Timer where
  | sync | failedSync | viewChange
  deriving DecidableEq, Repr

/-- The members of `SpecReplica`. `prevClientReqOpnum` and `replyMessage` are the fields of the log
    entries with these names, by opnum. -/
structure Replica where
  status : ReplicaStatus
  view : Nat
  lastCommitted : Nat
  lastSpeculative : Nat
  pendingSync : Nat
  lastSync : Nat
  sentDoViewChange : Nat
  needFillDVC : Nat
  log : Log
  prevClientReqOpnum : Nat → Nat
  replyMessage : Nat → Option SpeculativeReplyMessage
  clientAddresses : Nat → Option Addr
  clientTable : Nat → Option ClientTableEntry
  pendingRequests : List (Addr × Request)
  syncReplyQuorum : QuorumSet Nat SyncReplyMessage
  startViewChangeQuorum : QuorumSet Nat StartViewChangeMessage
  doViewChangeQuorum : QuorumSet Nat DoViewChangeMessage
  inViewQuorum : QuorumSet Nat InViewMessage
  active : Timer → Bool
  upcalls : List Upcall

/-- What a handler hands to the transport. -/
abbrev Output := Net.Output ToReplicaMessage ToClientMessage

/-- What a `SpecReplica` handler computes. -/
abbrev SpecHandler := Handler Replica Output

namespace Replica

/-- `timer->Reset()` and `timer->Start()`. -/
def start (s : Replica) (t : Timer) : Replica :=
  { s with active := fun u => if u = t then true else s.active u }

/-- `timer->Stop()`. -/
def stop (s : Replica) (t : Timer) : Replica :=
  { s with active := fun u => if u = t then false else s.active u }

/-- `clientTable[clientid]`, which creates the entry when it is missing. -/
def clientEntry (s : Replica) (clientid : Nat) : ClientTableEntry :=
  (s.clientTable clientid).getD {}

def setClientEntry (s : Replica) (clientid : Nat) (e : ClientTableEntry) : Replica :=
  { s with clientTable := fun c => if c = clientid then some e else s.clientTable c }

end Replica

/-! ### The hashed log -/

/-- `Log::LastHash`. -/
def lastHash (l : Log) : String := (l.entries.getLast?.map LogEntry.hash).getD emptyHash

/-- `Log::Append` of a hashed log. -/
def appendHashed (sha1 : Sha1) (l : Log) (e : LogEntry) : Option Log :=
  l.append { e with hash := computeHash sha1 (lastHash l) e.request }

variable (E : Env)

/-- `AmLeader`. -/
def amLeader (s : Replica) : Prop := E.config.getLeaderIndex s.view = E.replicaIdx

instance (s : Replica) : Decidable (amLeader E s) := inferInstanceAs (Decidable (_ = _))

/-- `LOG_FUDGE` is what `DVC_FUDGE` has replaced. -/
def dvcFudge : Nat := 25

/-- `SYNC_TIMEOUT_REQUESTS`. -/
def syncTimeoutRequests : Nat := 10000

/-! ### Committing and rolling back -/

/-- `CommitUpTo`. -/
def commitUpTo (upto : Nat) : SpecHandler Unit := do
  let s ← get
  iterate (upto - s.lastCommitted) do
    modify fun s => { s with lastCommitted := s.lastCommitted + 1 }
    let s ← get
    assert ((s.log.find s.lastCommitted).isSome)
    modify fun s => { s with log := s.log.setStatus s.lastCommitted .committed }
  modify fun s => { s with upcalls := s.upcalls ++ [.commit upto] }

/-- The client table without the entry at opnum `i`. -/
def rollBackClient (i : Nat) : SpecHandler Unit := do
  let s ← get
  let entry ← ofOption (s.log.find i)
  let cte := s.clientEntry entry.request.clientid
  assert (cte.lastReqOpnum = entry.opnum)
  let opnum := s.prevClientReqOpnum i
  if opnum > 0 then
    let oldEntry ← ofOption (s.log.find opnum)
    modify (·.setClientEntry entry.request.clientid
      { lastReqOpnum := opnum, lastReqId := oldEntry.request.clientreqid })
  else
    modify (·.setClientEntry entry.request.clientid { lastReqOpnum := opnum, lastReqId := 0 })

/-- The operations at opnums above `backto`, up to `current`. -/
def rolledBack (log : Log) (current backto : Nat) : Option (List (Nat × String)) :=
  (List.range' (backto + 1) (current - backto)).mapM fun x =>
    (log.find x).map fun e => (x, e.request.op)

/-- `RollbackTo`. -/
def rollbackTo (backto : Nat) : SpecHandler Unit := do
  let s ← get
  if backto ≥ s.lastSpeculative then return
  assert (backto ≥ s.lastCommitted)
  forEach (List.range' (backto + 1) (s.lastSpeculative - backto)).reverse rollBackClient
  let s ← get
  let reqs ← ofOption (rolledBack s.log s.lastSpeculative backto)
  modify fun s => { s with upcalls := s.upcalls ++ [.rollback s.lastSpeculative backto reqs] }
  let log ← ofOption (s.log.removeAfter (backto + 1))
  modify fun s => { s with log := log, lastSpeculative := backto }

/-- `UpdateClientTable` for a new log entry with this opnum. -/
def updateClientTable (req : Request) (opnum : Nat) (reply : SpeculativeReplyMessage) :
    SpecHandler Unit := do
  let s ← get
  let entry := s.clientEntry req.clientid
  assert (entry.lastReqId ≤ req.clientreqid)
  modify fun s => { s with
    prevClientReqOpnum := fun k => if k = opnum then entry.lastReqOpnum else s.prevClientReqOpnum k
    replyMessage := fun k => if k = opnum then some reply else s.replyMessage k }
  modify (·.setClientEntry req.clientid
    (if entry.lastReqId = req.clientreqid then entry
    else { lastReqId := req.clientreqid, lastReqOpnum := opnum }))

/-! ### Synchronization messages -/

/-- `SendSync`. -/
def sendSync : SpecHandler Unit := do
  let s ← get
  assert (amLeader E s)
  assert (s.status = .normal)
  modify fun s => { s with lastSync := s.lastSpeculative }
  if s.lastCommitted ≠ 0 then
    let entry ← ofOption (s.log.find s.lastCommitted)
    emit (.toAll (.sync
      { view := s.view, lastcommitted := s.lastCommitted, lastcommittedhash := entry.hash
        lastspeculative := s.lastSpeculative }))
  else
    emit (.toAll (.sync
      { view := s.view, lastcommitted := s.lastCommitted, lastcommittedhash := ""
        lastspeculative := s.lastSpeculative }))

/-- `SendSyncReply`. -/
def sendSyncReply (opnum : Nat) : SpecHandler Unit := do
  let s ← get
  if opnum = 0 then
    emit (.toReplica (E.config.getLeaderIndex s.view) (.syncReply
      { replicaidx := E.replicaIdx, view := s.view, lastspeculative := opnum
        lastspeculativehash := "" }))
  else
    let entry ← ofOption (s.log.find opnum)
    emit (.toReplica (E.config.getLeaderIndex s.view) (.syncReply
      { replicaidx := E.replicaIdx, view := s.view, lastspeculative := opnum
        lastspeculativehash := entry.hash }))

/-! ### Requests -/

/-- Execute a request speculatively as the entry with this viewstamp, which is appended to the log, and
    make the reply to it. -/
def execute (v : Viewstamp) (req : Request) (committed : Bool) :
    SpecHandler SpeculativeReplyMessage := do
  let s ← get
  let log ← ofOption (appendHashed E.sha1 s.log
    { viewstamp := v, state := .speculative, request := req })
  modify fun s => { s with log := log }
  let reply := E.app.replicaUpcall s.upcalls v.opnum req.op false
  modify fun s => { s with upcalls := s.upcalls ++ [.execute v.opnum req] }
  return { clientreqid := req.clientreqid, view := v.view, opnum := v.opnum
           replicaidx := E.replicaIdx, loghash := lastHash log, reply := reply
           committed := committed }

/-- `HandleRequest` of a new request in normal operation. -/
def processRequest (remote : Addr) (req : Request) : SpecHandler Unit := do
  modify fun s => { s with lastSpeculative := s.lastSpeculative + 1 }
  let s ← get
  let opnum := s.lastSpeculative
  let reply ← execute E { view := s.view, opnum := opnum } req false
  emit (.toClient remote (.reply reply))
  updateClientTable req opnum reply
  let s ← get
  when (opnum = s.pendingSync) (sendSyncReply E s.pendingSync)
  let s ← get
  when (amLeader E s ∧ opnum ≥ s.lastSync + syncTimeoutRequests) (sendSync E)

/-- How `HandleRequest` finds the request in the client table. -/
inductive Duplicate where
  | stale | duplicate (lastReqOpnum : Nat) | fresh
  deriving DecidableEq

/-- The check of `HandleRequest` against the client table. -/
def checkDuplicate (s : Replica) (req : Request) : Duplicate :=
  match s.clientTable req.clientid with
  | none => .fresh
  | some entry =>
    if req.clientreqid < entry.lastReqId then .stale
    else if req.clientreqid = entry.lastReqId then .duplicate entry.lastReqOpnum
    else .fresh

/-- `HandleRequest` of a duplicate: the reply of its log entry is sent again. -/
def resendReply (remote : Addr) (lastReqOpnum : Nat) : SpecHandler Unit := do
  let s ← get
  let le ← ofOption (s.log.find lastReqOpnum)
  let reply ← ofOption (s.replyMessage lastReqOpnum)
  let reply := if le.state = .committed then { reply with committed := true } else reply
  modify fun s => { s with
    replyMessage := fun k => if k = lastReqOpnum then some reply else s.replyMessage k }
  emit (.toClient remote (.reply reply))

/-- `HandleRequest`. -/
def handleRequest (remote : Addr) (req : Request) : SpecHandler Unit := do
  let s ← get
  modify fun s => { s with
    clientAddresses := fun c => if c = req.clientid then some remote else s.clientAddresses c }
  match checkDuplicate s req with
  | .stale => pure ()
  | .duplicate k => resendReply remote k
  | .fresh =>
    if s.status ≠ .normal then
      modify fun s => { s with pendingRequests := s.pendingRequests ++ [(remote, req)] }
    else
      processRequest E remote req

/-- `HandleUnloggedRequest`. -/
def handleUnloggedRequest (remote : Addr) (op : String) : SpecHandler Unit := do
  let s ← get
  if s.status ≠ .normal then return
  modify fun s => { s with upcalls := s.upcalls ++ [.unlogged op] }
  emit (.toClient remote (.unloggedReply (E.app.unloggedUpcall s.upcalls op)))

/-! ### Views -/

/-- The timers after `EnterView`, and `lastSync`. -/
def enterViewTimers (s : Replica) : Replica :=
  if amLeader E s then
    { ((s.stop .viewChange).start .sync).start .failedSync with lastSync := s.lastCommitted }
  else ((s.start .viewChange).stop .sync).stop .failedSync

/-- `EnterView`. -/
def enterView (newview : Nat) : SpecHandler Unit := do
  modify fun s => { s with view := newview, status := .normal }
  modify (enterViewTimers E)
  modify fun s => { s with
    syncReplyQuorum := s.syncReplyQuorum.clear
    startViewChangeQuorum := s.startViewChangeQuorum.clear
    doViewChangeQuorum := s.doViewChangeQuorum.clear
    inViewQuorum := s.inViewQuorum.clear
    pendingSync := 0 }
  let s ← get
  modify fun s => { s with pendingRequests := [] }
  forEach s.pendingRequests fun (remote, req) => handleRequest E remote req

/-- `StartViewChange`. -/
def startViewChange (newview : Nat) : SpecHandler Unit := do
  modify fun s => { s with view := newview, status := .viewChange }
  modify fun s => ((s.start .viewChange).stop .sync).stop .failedSync
  let s ← get
  emit (.toAll (.startViewChange
    { view := newview, replicaidx := E.replicaIdx, lastcommitted := s.lastCommitted }))

/-! ### Synchronization -/

/-- `HandleSync`. -/
def handleSync (msg : SyncMessage) : SpecHandler Unit := do
  let s ← get
  if s.status ≠ .normal then return
  if msg.view < s.view then return
  if msg.view > s.view then
    startViewChange E (msg.view + 1)
  else
    assert (¬ amLeader E s)
    modify (·.start .viewChange)
    if msg.lastcommitted > s.lastSpeculative then
      startViewChange E (s.view + 1)
    else
      let different ←
        if msg.lastcommitted > s.lastCommitted then
          let entry ← ofOption (s.log.find msg.lastcommitted)
          if entry.hash = msg.lastcommittedhash then
            commitUpTo msg.lastcommitted
            pure false
          else pure true
        else pure false
      if different then
        startViewChange E (s.view + 1)
      else if msg.lastspeculative > s.lastSpeculative then
        modify fun s => { s with pendingSync := msg.lastspeculative }
      else
        sendSyncReply E msg.lastspeculative

/-- The hashes that are there at least `need` times. -/
def matchingHashes (hashes : List String) (need : Nat) : List String :=
  hashes.dedup.filter (need ≤ hashes.count ·)

/-- `HandleSyncReply` with a quorum of replies for an opnum that is not committed. -/
def compareHashes (msg : SyncReplyMessage) (msgs : StdMap Nat SyncReplyMessage) :
    SpecHandler Unit := do
  let s ← get
  let entry ← ofOption (s.log.find msg.lastspeculative)
  let hashes := msgs.toList.map (·.2.lastspeculativehash) ++ [entry.hash]
  match matchingHashes hashes E.config.fastQuorumSize with
  | [] => startViewChange E (s.view + 1)
  | [matchingHash] => do
    when (entry.hash ≠ matchingHash) (startViewChange E (s.view + 1))
    commitUpTo msg.lastspeculative
  | _ :: _ :: _ => abort

/-- `HandleSyncReply`. -/
def handleSyncReply (msg : SyncReplyMessage) : SpecHandler Unit := do
  let s ← get
  if s.status ≠ .normal then return
  if msg.view < s.view then return
  assert (¬ msg.view > s.view)
  assert (amLeader E s)
  assert (msg.lastspeculative ≤ s.lastSpeculative)
  let q := s.syncReplyQuorum.add msg.lastspeculative msg.replicaidx msg
  modify fun s => { s with syncReplyQuorum := q }
  whenSome (q.checkForQuorum msg.lastspeculative) fun msgs => do
    modify (·.start .failedSync)
    if msg.lastspeculative ≤ s.lastCommitted then return
    compareHashes E msg msgs

/-! ### View changes -/

/-- `HandleRequestViewChange`. -/
def handleRequestViewChange (view : Nat) : SpecHandler Unit := do
  let s ← get
  if view ≠ s.view then return
  startViewChange E (s.view + 1)

/-- Where the entries of a DoViewChange or StartView message start. -/
def fudgedStart (lastSpeculative : Nat) : Nat :=
  if lastSpeculative > dvcFudge then lastSpeculative - dvcFudge else 1

/-- The DoViewChange message of a replica, with its log from opnum `start` on. -/
def doViewChangeMessage (s : Replica) (start : Nat) : DoViewChangeMessage where
  view := s.view
  lastnormalview := s.log.lastViewstamp.view
  lastspeculative := s.lastSpeculative
  lastcommitted := s.lastCommitted
  replicaidx := E.replicaIdx
  entries := s.log.dump start

/-- `HandleStartViewChange`. -/
def handleStartViewChange (msg : StartViewChangeMessage) : SpecHandler Unit := do
  let s ← get
  if msg.view < s.view then return
  if msg.view = s.view ∧ s.status ≠ .viewChange then return
  when (s.status ≠ .viewChange ∨ msg.view > s.view) (startViewChange E msg.view)
  let s ← get
  assert (msg.view = s.view)
  let q := s.startViewChangeQuorum.add msg.view msg.replicaidx msg
  modify fun s => { s with startViewChangeQuorum := q }
  whenSome (q.checkForQuorum msg.view) fun msgs => do
    if s.sentDoViewChange = msg.view then return
    let leader := E.config.getLeaderIndex s.view
    if E.replicaIdx ≠ leader ∧ msgs.find? leader = none then return
    modify fun s => { s with sentDoViewChange := msg.view }
    let minCommitted := fudgedStart s.lastSpeculative
    let dvc := doViewChangeMessage E s minCommitted
    assert (s.lastSpeculative + 1 - minCommitted = dvc.entries.length)
    if leader ≠ E.replicaIdx then
      emit (.toReplica leader (.doViewChange dvc))
    else
      modify fun s => { s with
        doViewChangeQuorum := s.doViewChangeQuorum.add msg.view E.replicaIdx dvc }

/-! ### Installing a log -/

/-- `entries[k - entriesStart]`, when there is one. -/
def newEntryAt (entries : List LogEntry) (entriesStart k : Nat) : Option LogEntry :=
  if entriesStart ≤ k then entries[k - entriesStart]? else none

/-- The first opnum from `k` on, among the next `n`, at which the log and the new entries have different
    hashes; the one after them, when there is none. -/
def firstDifferent (log : Log) (entries : List LogEntry) (entriesStart : Nat) :
    Nat → Nat → Option Nat
  | 0, k => some k
  | n + 1, k => do
    let oldEntry ← log.find k
    let newEntry ← newEntryAt entries entriesStart k
    if oldEntry.hash ≠ newEntry.hash then some k
    else firstDifferent log entries entriesStart n (k + 1)

/-- The opnum of the last entry that is not speculative, or 0. -/
def newLastCommitted (entries : List LogEntry) : Nat :=
  ((entries.reverse.find? (·.state ≠ .speculative)).map LogEntry.opnum).getD 0

/-- The body of the loop of `InstallLog` that installs the entry for opnum `i`. -/
def installEntry (entries : List LogEntry) (entriesStart : Nat) (i : Nat) : SpecHandler Unit := do
  let newEntry ← ofOption (newEntryAt entries entriesStart i)
  modify fun s => { s with lastSpeculative := s.lastSpeculative + 1 }
  let reply ← execute E newEntry.viewstamp newEntry.request (newEntry.state = .committed)
  let s ← get
  whenSome (s.clientAddresses newEntry.request.clientid) fun addr =>
    emit (.toClient addr (.reply reply))
  updateClientTable newEntry.request newEntry.opnum reply
  assert (lastHash s.log = newEntry.hash)

/-- `InstallLog` once the last opnums of the new log are known. -/
def installEntries (entries : List LogEntry) (entriesStart newLastSpeculative committed : Nat) :
    SpecHandler Unit := do
  let s ← get
  -- commit what is the same, as far as the new log has it committed
  let start := max (s.lastCommitted + 1) entriesStart
  let toCommit ← ofOption (firstDifferent s.log entries entriesStart
    (min committed s.lastSpeculative + 1 - start) start)
  when (toCommit > entriesStart) do
    commitUpTo (toCommit - 1)
    let s ← get
    assert (s.lastCommitted = toCommit - 1)
  let s ← get
  assert (committed ≥ s.lastCommitted)
  -- roll back what is different
  let start := max (s.lastCommitted + 1) entriesStart
  let firstDiverging ← ofOption (firstDifferent s.log entries entriesStart
    (min newLastSpeculative s.lastSpeculative + 1 - start) start)
  rollbackTo (firstDiverging - 1)
  let s ← get
  assert (s.lastSpeculative < firstDiverging)
  -- and install what is new
  forEach (List.range' (s.lastSpeculative + 1) (newLastSpeculative - s.lastSpeculative))
    (installEntry E entries entriesStart)
  let s ← get
  assert (s.lastSpeculative = newLastSpeculative)
  commitUpTo committed
  let s ← get
  assert (s.lastCommitted = committed)

/-- `InstallLog`. -/
def installLog (entries : List LogEntry) : SpecHandler Unit := do
  let s ← get
  match entries with
  | [] => do
    assert (s.lastCommitted = 0)
    installEntries E [] 0 0 0
  | first :: rest => do
    let newLastSpeculative := lastOpnum (first :: rest)
    let committed := newLastCommitted (first :: rest)
    if committed < s.lastCommitted then
      assert (newLastSpeculative ≥ s.lastCommitted)
      installEntries E (first :: rest) first.opnum newLastSpeculative s.lastCommitted
    else
      installEntries E (first :: rest) first.opnum newLastSpeculative committed

/-! ### DoViewChange messages -/

/-- `SendFillDVCGapMessage`. -/
def sendFillDVCGapMessage (replicaIdx view : Nat) : SpecHandler Unit := do
  assert (replicaIdx ≠ E.replicaIdx)
  let s ← get
  emit (.toReplica replicaIdx (.fillDVCGap { view := view, lastcommitted := s.lastCommitted }))

/-- A message with no field set. -/
def emptyDoViewChange : DoViewChangeMessage :=
  { view := 0, lastnormalview := 0, lastspeculative := 0, lastcommitted := 0, entries := []
    replicaidx := 0 }

/-- `NeedFillDVCGap`. -/
def needFillDVCGap (view : Nat) : SpecHandler Unit := do
  let s ← get
  assert (view = s.view)
  let dvcs := s.doViewChangeQuorum.messages view
  forEach dvcs.toList fun (r, _) => when (r ≠ E.replicaIdx) (sendFillDVCGapMessage E r view)
  let mine := (dvcs.find? E.replicaIdx).getD emptyDoViewChange
  modify fun s => { s with
    doViewChangeQuorum := s.doViewChangeQuorum.clear.add view E.replicaIdx mine
    needFillDVC := view }

/-- The greatest opnum at which the entries of a message start. -/
def greatestStart (dvcs : List (Nat × DoViewChangeMessage)) : Nat :=
  dvcs.foldl (fun maxStart kv =>
    match kv.2.entries with
    | [] => maxStart
    | e :: _ => max maxStart e.opnum) 0

/-- Do the messages with entries reach back to `maxStart`, with the hash `hash` there? `none` when an
    assertion fails before one is found that does not. -/
def reachBack (maxStart : Nat) (hash : String) : List (Nat × DoViewChangeMessage) → Option Bool
  | [] => some true
  | (_, m) :: rest =>
    match m.entries with
    | [] => reachBack maxStart hash rest
    | first :: _ =>
      if m.lastspeculative < maxStart then some false
      else do
        let entry ← newEntryAt m.entries first.opnum maxStart
        guard (entry.opnum = maxStart)
        if entry.hash ≠ hash then some false
        else reachBack maxStart hash rest

/-- Do the messages of the quorum need more entries? The opnum from which the logs are merged, when
    they do not. -/
def checkStarts (s : Replica) (dvcs : List (Nat × DoViewChangeMessage)) : Option (Option Nat) :=
  let maxStart := greatestStart dvcs
  if maxStart > s.lastSpeculative then some none
  else if maxStart > 0 then do
    let myEntry ← s.log.find maxStart
    let ok ← reachBack maxStart myEntry.hash dvcs
    return if ok then some maxStart else none
  else some (some maxStart)

/-- `HandleDoViewChange` with a quorum of messages. (What `minCommitted` is set to before it becomes
    `fudgedStart` has no effect.) -/
def completeViewChange (msg : DoViewChangeMessage) (maxStart : Nat)
    (msgs : StdMap Nat DoViewChangeMessage) : SpecHandler Unit := do
  let s ← get
  let newLog ← ofOption (mergeLogs E.config E.sha1 s.lastSpeculative s.view maxStart msgs)
  installLog E newLog
  let s ← get
  let minCommitted := fudgedStart s.lastSpeculative
  enterView E msg.view
  let s ← get
  assert (amLeader E s)
  emit (.toAll (.startView
    { view := s.view, lastspeculative := s.lastSpeculative, lastcommitted := s.lastCommitted
      entries := s.log.dump minCommitted }))

/-- `HandleDoViewChange` from the quorum check on. -/
def mergeIfQuorum (msg : DoViewChangeMessage) (maxStart : Nat) : SpecHandler Unit := do
  let s ← get
  whenSome (s.doViewChangeQuorum.checkForQuorum msg.view) (completeViewChange E msg maxStart)

/-- Does a message that was asked for still start too late? -/
def startsLate (s : Replica) (msg : DoViewChangeMessage) : Bool :=
  match msg.entries with
  | [] => false
  | first :: _ =>
    ¬ (s.lastCommitted = 0 ∧ first.opnum = 1) ∧
      (first.opnum > s.lastCommitted ∨ first.opnum > msg.lastcommitted)

/-- `HandleDoViewChange`. -/
def handleDoViewChange (msg : DoViewChangeMessage) : SpecHandler Unit := do
  let s ← get
  if msg.view < s.view then return
  if msg.view = s.view ∧ s.status ≠ .viewChange then return
  when (s.status ≠ .viewChange ∨ msg.view > s.view) (startViewChange E msg.view)
  assert (E.config.getLeaderIndex msg.view = E.replicaIdx)
  let s ← get
  if s.needFillDVC = msg.view then
    if startsLate s msg then
      sendFillDVCGapMessage E msg.replicaidx msg.view
    else
      modify fun s => { s with
        doViewChangeQuorum := s.doViewChangeQuorum.add msg.view msg.replicaidx msg }
      mergeIfQuorum E msg 0
  else
    let q := s.doViewChangeQuorum.add msg.view msg.replicaidx msg
    modify fun s => { s with doViewChangeQuorum := q }
    let start ← ofOption (checkStarts s (q.messages msg.view).toList)
    match start with
    | none => needFillDVCGap E msg.view
    | some maxStart => mergeIfQuorum E msg maxStart

/-- `HandleFillDVCGap`. -/
def handleFillDVCGap (remote : Addr) (msg : FillDVCGapMessage) : SpecHandler Unit := do
  let s ← get
  if msg.view ≠ s.view then return
  assert (¬ amLeader E s)
  emit (.toAddr remote (.doViewChange
    (doViewChangeMessage E s (min s.lastCommitted msg.lastcommitted))))

/-! ### StartView and InView messages -/

/-- `ConvertLog`: are the opnums of the entries consecutive? (A last opnum of 0 is not compared.) -/
def consecutive : Nat → List LogEntry → Bool
  | _, [] => true
  | last, e :: es => (last = 0 ∨ last + 1 = e.opnum) ∧ consecutive e.opnum es

/-- Does a StartView message start after what the replica knows to be in the new log? -/
def needsLongerLog (s : Replica) (msg : StartViewMessage) : Option Bool :=
  match msg.entries with
  | [] => some false
  | first :: _ =>
    if first.opnum > s.lastCommitted + 1 then
      if first.opnum > s.lastSpeculative then some true
      else (s.log.find first.opnum).map fun e => decide (first.hash ≠ e.hash)
    else some false

/-- `HandleStartView` when the message has enough entries. -/
def installStartView (msg : StartViewMessage) : SpecHandler Unit := do
  assert (consecutive 0 msg.entries = true)
  installLog E msg.entries
  commitUpTo msg.lastcommitted
  emit (.toReplica (E.config.getLeaderIndex msg.view) (.inView
    { replicaidx := E.replicaIdx, view := msg.view, lastspeculative := msg.lastspeculative }))
  let s ← get
  assert (s.lastSpeculative = msg.lastspeculative)
  assert (s.lastCommitted ≥ msg.lastcommitted)
  enterView E msg.view
  let s ← get
  assert (¬ amLeader E s)

/-- `HandleStartView`. -/
def handleStartView (remote : Addr) (msg : StartViewMessage) : SpecHandler Unit := do
  let s ← get
  if msg.view < s.view then return
  if msg.view = s.view ∧ s.status ≠ .viewChange then return
  assert (E.config.getLeaderIndex msg.view ≠ E.replicaIdx)
  let longer ← ofOption (needsLongerLog s msg)
  if longer then
    emit (.toAddr remote (.fillLogGap { view := msg.view, lastcommitted := s.lastCommitted }))
  else
    installStartView E msg

/-- `HandleInView`. -/
def handleInView (msg : InViewMessage) : SpecHandler Unit := do
  let s ← get
  if msg.view < s.view then return
  assert (¬ (msg.view > s.view ∨ s.status ≠ .normal))
  assert (E.config.getLeaderIndex msg.view = E.replicaIdx)
  let q := s.inViewQuorum.add msg.view msg.replicaidx msg
  modify fun s => { s with inViewQuorum := q }
  whenSome (q.checkForQuorum msg.view) fun _ => do
    assert (msg.lastspeculative ≤ s.lastSpeculative)
    if msg.lastspeculative < s.lastCommitted then return
    commitUpTo msg.lastspeculative
    sendSync E

/-- `HandleFillLogGap`. -/
def handleFillLogGap (remote : Addr) (msg : FillLogGapMessage) : SpecHandler Unit := do
  let s ← get
  if msg.view ≠ s.view then return
  assert (amLeader E s)
  emit (.toAddr remote (.startView
    { view := s.view, lastspeculative := s.lastSpeculative, lastcommitted := s.lastCommitted
      entries := s.log.dump msg.lastcommitted }))

/-! ### The group -/

/-- `ReceiveMessage`. -/
def receiveMessage (remote : Addr) : ToReplicaMessage → SpecHandler Unit
  | .request req => handleRequest E remote req
  | .unloggedRequest op => handleUnloggedRequest E remote op
  | .sync m => handleSync E m
  | .syncReply m => handleSyncReply E m
  | .requestViewChange view => handleRequestViewChange E view
  | .startViewChange m => handleStartViewChange E m
  | .doViewChange m => handleDoViewChange E m
  | .startView m => handleStartView E remote m
  | .inView m => handleInView E m
  | .fillLogGap m => handleFillLogGap E remote m
  | .fillDVCGap m => handleFillDVCGap E remote m

/-- The callback of a timer. -/
def timeout : Timer → SpecHandler Unit
  | .sync => sendSync E
  | .failedSync | .viewChange => do
    let s ← get
    startViewChange E (s.view + 1)

/-- The state the constructor sets up, with `EnterView(0)`. -/
def Replica.initial : Replica where
  status := .normal
  view := 0
  lastCommitted := 0
  lastSpeculative := 0
  pendingSync := 0
  lastSync := 0
  sentDoViewChange := 0
  needFillDVC := 0
  log := Log.empty
  prevClientReqOpnum _ := 0
  replyMessage _ := none
  clientAddresses _ := none
  clientTable _ := none
  pendingRequests := []
  syncReplyQuorum := QuorumSet.new (E.config.fastQuorumSize - 1)
  startViewChangeQuorum := QuorumSet.new (E.config.quorumSize - 1)
  doViewChangeQuorum := QuorumSet.new E.config.quorumSize
  inViewQuorum := QuorumSet.new (E.config.quorumSize - 1)
  active t := if E.config.getLeaderIndex 0 = E.replicaIdx then decide (t ≠ .viewChange)
    else decide (t = .viewChange)
  upcalls := []

/-- A group: its configuration, the application of each replica, the operation that each client sends
    under each of its request numbers, and the hash function. -/
structure Group where
  config : Configuration
  app : Nat → App
  op : Nat → Nat → String
  sha1 : Sha1

/-- The environment of replica `r`. -/
def Group.env (G : Group) (r : Nat) : Env :=
  { config := G.config, replicaIdx := r, app := G.app r, sha1 := G.sha1 }

/-- What a client asks: the operation with a request number, an unlogged one, or a view change. -/
inductive Ask where
  | request (clientreqid : Nat)
  | unlogged (op : String)
  | viewChange (view : Nat)
  deriving DecidableEq, Repr

/-- What the client with this id sends. -/
def Group.ask (G : Group) (clientid : Nat) : Ask → ToReplicaMessage
  | .request i => .request { op := G.op clientid i, clientid := clientid, clientreqid := i }
  | .unlogged op => .unloggedRequest op
  | .viewChange view => .requestViewChange view

/-- The protocol a group runs. -/
def Group.protocol (G : Group) : Net.Protocol Replica ToReplicaMessage ToClientMessage Timer Ask where
  n := G.config.n
  init r := Replica.initial (G.env r)
  receive r := receiveMessage (G.env r)
  timeout r := Spec.timeout (G.env r)
  active s t := s.active t
  ask := G.ask

abbrev Sys := Net.Sys Replica ToReplicaMessage

abbrev Event := Net.Event Timer Ask

/-- The runs of a group. -/
abbrev system (G : Group) : System Sys Event := Net.system G.protocol

end Dsnet.Spec
