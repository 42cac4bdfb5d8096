import Dsnet.Lib.HashChain
import Dsnet.Spec.Replica

/-! What the handlers of a Speculative Paxos replica do to its log. Apart from committing, which changes
    nothing that is hashed (`commitUpTo_sat`), handling a request extends the log by one entry that
    carries the hash of all before it, and leaves the view, what is committed and the quorums alone
    (`Tame`). -/

namespace Dsnet.Spec
open Handler

/-! ### The hashes of a log -/

/-- The requests of a log, each with the hash of its entry. -/
def stamps (l : Log) : List (Request × String) := l.entries.map fun e => (e.request, e.hash)

/-- The request and the hash of an entry. -/
def stamp (e : LogEntry) : Request × String := (e.request, e.hash)

/-- What is hashed of a request. -/
def hashKey (req : Request) : Nat × Nat := (req.clientid, req.clientreqid)

/-- The hash of an entry, from that of the entry before it. -/
def nextHash (sha1 : Sha1) (lastHash : String) (key : Nat × Nat) : String := sha1 lastHash key.1 key.2

/-- The hash at opnum `k`. -/
def hashAt (l : List (Request × String)) (k : Nat) : Option String :=
  if k < 1 then none else l[k - 1]?.map Prod.snd

/-- The hashes are those of the chain, and the requests are those that clients send. -/
structure Sound (P : Request → Prop) (sha1 : Sha1) (l : List (Request × String)) : Prop where
  chained : Chained (nextHash sha1) hashKey emptyHash l
  genuine : ∀ x ∈ l, P x.1

/-- A request as its client sends it: its two numbers determine it. -/
def Group.Genuine (G : Group) (req : Request) : Prop :=
  ∃ c i, req = { op := G.op c i, clientid := c, clientreqid := i }

theorem Group.Genuine.eq_of_key {G : Group} {req req' : Request} (h : G.Genuine req)
    (h' : G.Genuine req') (hkey : hashKey req = hashKey req') : req = req' := by
  obtain ⟨c, i, rfl⟩ := h
  obtain ⟨c', i', rfl⟩ := h'
  obtain ⟨rfl, rfl⟩ : c = c' ∧ i = i' := Prod.mk.inj hkey
  rfl

variable {P : Request → Prop} {E : Env} {s t : Replica} {l l' : List (Request × String)}

@[simp] theorem length_stamps (l : Log) : (stamps l).length = l.entries.length := List.length_map ..

@[simp] theorem stamps_take (l : Log) (k : Nat) : stamps (l.take k) = (stamps l).take k := by
  simp [stamps]

@[simp] theorem stamps_setStatus (l : Log) (k : Nat) (st : LogEntryState) :
    stamps (l.setStatus k st) = stamps l := by
  refine List.ext_getElem? fun i => ?_
  rw [stamps, stamps, List.getElem?_map, List.getElem?_map, Log.getElem?_entries_setStatus,
    Option.map_map]
  congr 1
  funext e
  simp only [Function.comp]
  split_ifs <;> rfl

theorem lastHash_eq (l : Log) : lastHash l = lastHashOf emptyHash (stamps l) := by
  unfold lastHash lastHashOf stamps
  rw [List.getLast?_map, Option.map_map]
  rfl

/-- An appended entry carries the next hash of the chain. -/
theorem stamps_appendHashed {sha1 : Sha1} {l l' : Log} {e : LogEntry}
    (h : appendHashed sha1 l e = some l') : stamps l' = stamps l ++
      [(e.request, nextHash sha1 (lastHashOf emptyHash (stamps l)) (hashKey e.request))] := by
  rw [← lastHash_eq, stamps, (Log.append_eq_some.mp h).2, List.map_append]
  rfl

theorem find_eq_hashAt (l : Log) (k : Nat) : (l.find k).map LogEntry.hash = hashAt (stamps l) k := by
  unfold Log.find hashAt stamps
  split_ifs
  · rfl
  · rw [List.getElem?_map, Option.map_map]
    rfl

theorem hashAt_of_find {l : Log} {k : Nat} {e : LogEntry} (h : l.find k = some e) :
    hashAt (stamps l) k = some e.hash := by
  rw [← find_eq_hashAt, h]
  rfl

theorem hashAt_eq_some {k : Nat} {h : String} :
    hashAt l k = some h ↔ 1 ≤ k ∧ ∃ x, l[k - 1]? = some x ∧ x.2 = h := by
  unfold hashAt
  split_ifs with hk
  · simp only [false_iff]
    omega
  · rw [Option.map_eq_some_iff]
    exact ⟨fun hx => ⟨by omega, hx⟩, fun hx => hx.2⟩

theorem hashAt_le {k : Nat} {h : String} (hk : hashAt l k = some h) : 1 ≤ k ∧ k ≤ l.length := by
  obtain ⟨h1, x, hx, _⟩ := hashAt_eq_some.mp hk
  have := (List.getElem?_eq_some_iff.mp hx).1
  omega

theorem hashAt_mono {k : Nat} {h : String} (hp : l <+: l') (hk : hashAt l k = some h) :
    hashAt l' k = some h := by
  obtain ⟨h1, x, hx, hh⟩ := hashAt_eq_some.mp hk
  exact hashAt_eq_some.mpr ⟨h1, x, getElem?_mono hp hx, hh⟩

theorem hashAt_take {c k : Nat} (hk : k ≤ c) : hashAt (l.take c) k = hashAt l k := by
  unfold hashAt
  split_ifs
  · rfl
  · rw [List.getElem?_take, if_pos (by omega)]

theorem sound_nil (P : Request → Prop) (sha1 : Sha1) : Sound P sha1 [] :=
  ⟨chained_nil, fun x hx => by cases hx⟩

theorem Sound.of_prefix {sha1 : Sha1} (h : Sound P sha1 l) (hp : l' <+: l) : Sound P sha1 l' :=
  ⟨h.chained.of_prefix hp, fun x hx => h.genuine x (hp.subset hx)⟩

theorem Sound.concat {sha1 : Sha1} {req : Request} (h : Sound P sha1 l) (hreq : P req) :
    Sound P sha1 (l ++ [(req, nextHash sha1 (lastHashOf emptyHash l) (hashKey req))]) := by
  refine ⟨h.chained.concat rfl, fun x hx => ?_⟩
  rcases List.mem_append.mp hx with hx | hx
  · exact h.genuine x hx
  · obtain rfl := List.mem_singleton.mp hx
    exact hreq

/-- Two chains with the same hash at `k` have the same requests and hashes up to there, when no two of
    the inputs hashed for them collide and a request is known by what is hashed of it. -/
theorem Sound.agree {sha1 : Sha1} {k : Nat} {h : String} (hl : Sound P sha1 l)
    (hl' : Sound P sha1 l') (hfree : NoCollision (nextHash sha1) hashKey emptyHash l l')
    (hP : ∀ r r', P r → P r' → hashKey r = hashKey r' → r = r') (hk : hashAt l k = some h)
    (hk' : hashAt l' k = some h) : l.take k = l'.take k := by
  obtain ⟨h1, x, hx, rfl⟩ := hashAt_eq_some.mp hk
  obtain ⟨_, y, hy, hxy⟩ := hashAt_eq_some.mp hk'
  refine List.ext_getElem? fun i => ?_
  rw [List.getElem?_take, List.getElem?_take]
  split_ifs with hi
  · obtain ⟨a, b, ha, hb, hkey, hhash⟩ := hl.chained.agree hl'.chained hfree hx hy hxy.symm i (by omega)
    rw [ha, hb]
    congr 1
    exact Prod.ext (hP _ _ (hl.genuine a (List.mem_of_getElem? ha))
      (hl'.genuine b (List.mem_of_getElem? hb)) hkey) hhash
  · rfl

/-! ### Committing -/

/-- `CommitUpTo` changes nothing that is hashed; it is stopped when the log is too short. -/
theorem commitUpTo_sat {upto : Nat} (h : s.lastCommitted ≤ s.log.entries.length) :
    Sat (commitUpTo upto) s
      (fun _ t o => o = [] ∧ upto ≤ s.log.entries.length ∧ ∃ l, stamps l = stamps s.log ∧
        t = { s with lastCommitted := max s.lastCommitted upto, log := l
                     upcalls := s.upcalls ++ [.commit upto] })
      (fun t o => o = [] ∧ s.log.entries.length < upto ∧ ∃ c l, stamps l = stamps s.log ∧
        t = { s with lastCommitted := c, log := l }) := by
  unfold commitUpTo
  simp only [sat_bind, sat_get, List.nil_append]
  refine Sat.mono (sat_iterate (A := fun t o => o = [] ∧ s.log.entries.length < upto ∧
    ∃ c l, stamps l = stamps s.log ∧ t = { s with lastCommitted := c, log := l })
    (fun left t o => o = [] ∧ t.lastCommitted + left = max s.lastCommitted upto ∧
    t.lastCommitted ≤ s.log.entries.length ∧ ∃ c l, stamps l = stamps s.log ∧
      t = { s with lastCommitted := c, log := l }) ?_ ?_) ?_ fun _ _ ht => ht
  · exact ⟨rfl, by omega, h, s.lastCommitted, s.log, rfl, rfl⟩
  · rintro left t o ⟨rfl, hleft, hc, c, l, hl, rfl⟩
    have hlen : l.entries.length = s.log.entries.length := by
      rw [← length_stamps, hl, length_stamps]
    simp only [sat_bind, sat_modify, sat_get, sat_assert, List.nil_append]
    simp only at hleft hc
    refine ⟨fun hsome => ?_, fun hnone => ?_⟩
    · obtain ⟨e, he⟩ := Option.isSome_iff_exists.mp hsome
      have := (List.getElem?_eq_some_iff.mp (Log.find_eq_some.mp he).2).1
      exact ⟨trivial, by omega, by omega, c + 1, _, (stamps_setStatus ..).trans hl, rfl⟩
    · have := (Log.find_eq_none (Nat.succ_pos c)).mp (Option.not_isSome_iff_eq_none.mp hnone)
      exact ⟨trivial, by omega, c + 1, l, hl, rfl⟩
  · rintro _ t o ⟨rfl, hleft, hc, c, l, hl, rfl⟩
    simp only at hleft hc
    simp only [sat_modify, List.nil_append]
    exact ⟨trivial, by omega, l, hl, by rw [← hleft]; rfl⟩

/-! ### Handling requests -/

/-- A replica that is not in the middle of a handler. -/
structure WellLogged (P : Request → Prop) (sha1 : Sha1) (s : Replica) : Prop where
  full : s.lastSpeculative = s.log.entries.length
  committed : s.lastCommitted ≤ s.log.entries.length
  sound : Sound P sha1 (stamps s.log)
  pending : ∀ x ∈ s.pendingRequests, P x.2

/-- What handling requests leaves alone: all but the log, which grows, and the clients. -/
structure Grows (s t : Replica) : Prop where
  status : t.status = s.status
  view : t.view = s.view
  committed : t.lastCommitted = s.lastCommitted
  pendingSync : t.pendingSync = s.pendingSync
  syncReply : t.syncReplyQuorum = s.syncReplyQuorum
  startViewChange : t.startViewChangeQuorum = s.startViewChangeQuorum
  doViewChange : t.doViewChangeQuorum = s.doViewChangeQuorum
  inView : t.inViewQuorum = s.inViewQuorum
  log : stamps s.log <+: stamps t.log

theorem Grows.refl (s : Replica) : Grows s s :=
  ⟨rfl, rfl, rfl, rfl, rfl, rfl, rfl, rfl, List.prefix_rfl⟩

theorem Grows.trans {s t u : Replica} (h : Grows s t) (h' : Grows t u) : Grows s u where
  status := h'.status.trans h.status
  view := h'.view.trans h.view
  committed := h'.committed.trans h.committed
  pendingSync := h'.pendingSync.trans h.pendingSync
  syncReply := h'.syncReply.trans h.syncReply
  startViewChange := h'.startViewChange.trans h.startViewChange
  doViewChange := h'.doViewChange.trans h.doViewChange
  inView := h'.inView.trans h.inView
  log := h.log.trans h'.log

/-- A SyncReply tells the hash of a log. -/
def TellsReply (E : Env) (s : Replica) (m : SyncReplyMessage) : Prop :=
  m.replicaidx = E.replicaIdx ∧ m.view = s.view ∧
    (m.lastspeculative ≠ 0 → hashAt (stamps s.log) m.lastspeculative = some m.lastspeculativehash)

/-- A Sync tells what is committed of a log. -/
def TellsSync (E : Env) (s : Replica) (m : SyncMessage) : Prop :=
  amLeader E s ∧ s.status = .normal ∧ m.view = s.view ∧ m.lastcommitted = s.lastCommitted ∧
    (m.lastcommitted ≠ 0 → hashAt (stamps s.log) m.lastcommitted = some m.lastcommittedhash)

/-- What a replica sends while it handles requests. -/
def Says (E : Env) (s : Replica) : Output → Prop
  | .toClient .. => True
  | .toReplica i (.syncReply m) =>
    i = E.config.getLeaderIndex s.view ∧ s.pendingSync ≠ 0 ∧ TellsReply E s m
  | .toAll (.sync m) => TellsSync E s m
  | _ => False

theorem TellsReply.mono {m : SyncReplyMessage} (h : Grows s t) (hm : TellsReply E s m) :
    TellsReply E t m :=
  ⟨hm.1, hm.2.1.trans h.view.symm, fun h0 => hashAt_mono h.log (hm.2.2 h0)⟩

theorem TellsSync.mono {m : SyncMessage} (h : Grows s t) (hm : TellsSync E s m) :
    TellsSync E t m := by
  obtain ⟨hlead, hst, hview, hc, hhash⟩ := hm
  refine ⟨?_, h.status.trans hst, hview.trans h.view.symm, hc.trans h.committed.symm, fun h0 => ?_⟩
  · rwa [amLeader, h.view]
  · exact hashAt_mono h.log (hhash h0)

theorem Says.mono {x : Output} (h : Grows s t) (hx : Says E s x) : Says E t x := by
  match x, hx with
  | .toClient .., _ => trivial
  | .toReplica i (.syncReply m), ⟨hi, hp, hm⟩ =>
    exact ⟨h.view ▸ hi, h.pendingSync ▸ hp, hm.mono h⟩
  | .toAll (.sync m), hm => exact TellsSync.mono h hm

/-- The run of a handler that does not change what `Grows` names and adds only sound entries to the
    log. -/
def Tame {α : Type} (P : Request → Prop) (E : Env) (s : Replica) (m : SpecHandler α) : Prop :=
  Sat m s (fun _ t o => WellLogged P E.sha1 t ∧ Grows s t ∧ ∀ x ∈ o, Says E t x)
    (fun t o => Sound P E.sha1 (stamps t.log) ∧ Grows s t ∧ ∀ x ∈ o, Says E t x)

/-- Nothing happens. -/
theorem Tame.skip (h : WellLogged P E.sha1 s) : Tame P E s (pure ()) :=
  sat_pure.mpr ⟨h, .refl s, by simp⟩

/-- Sequencing. -/
theorem Tame.bind {α β : Type} {m : SpecHandler α} {f : α → SpecHandler β} (h : Tame P E s m)
    (hf : ∀ a t, WellLogged P E.sha1 t → Grows s t → Tame P E t (f a)) : Tame P E s (m >>= f) := by
  refine sat_bind.mpr (Sat.mono h ?_ fun _ _ ht => ht)
  rintro a t o ⟨ht, hst, ho⟩
  have hout {u : Replica} {o' : List Output} (hu : Grows t u) (ho' : ∀ x ∈ o', Says E u x) :
      ∀ x ∈ o ++ o', Says E u x := by
    intro x hx
    rcases List.mem_append.mp hx with hx | hx
    · exact (ho x hx).mono hu
    · exact ho' x hx
  refine Sat.mono (hf a t ht hst) ?_ ?_
  · rintro b u o' ⟨hw, hu, ho'⟩
    exact ⟨hw, hst.trans hu, hout hu ho'⟩
  · rintro u o' ⟨hw, hu, ho'⟩
    exact ⟨hw, hst.trans hu, hout hu ho'⟩

theorem Tame.forEach {α : Type} {f : α → SpecHandler Unit} {l : List α}
    (hf : ∀ a ∈ l, ∀ s, WellLogged P E.sha1 s → Tame P E s (f a)) (h : WellLogged P E.sha1 s) :
    Tame P E s (forEach l f) := by
  induction l generalizing s with
  | nil => exact .skip h
  | cons a as ih =>
    refine Tame.bind (hf a (List.mem_cons_self ..) s h) fun _ t ht _ => ?_
    exact ih (fun b hb => hf b (List.mem_cons_of_mem _ hb)) ht

/-- The reply to a request that is executed from this state. -/
def replyFrom (E : Env) (s : Replica) (v : Viewstamp) (req : Request) (committed : Bool) (l : Log) :
    SpeculativeReplyMessage :=
  { clientreqid := req.clientreqid, view := v.view, opnum := v.opnum, replicaidx := E.replicaIdx
    loghash := lastHash l, reply := E.app.replicaUpcall s.upcalls v.opnum req.op false
    committed := committed }

/-- `Execute` appends the request and calls the application, if its opnum is the next one. -/
theorem execute_appends (v : Viewstamp) (req : Request) (committed : Bool) :
    Sat (execute E v req committed) s
      (fun reply t o => o = [] ∧ ∃ l, appendHashed E.sha1 s.log
          { viewstamp := v, state := .speculative, request := req } = some l ∧
        t = { s with log := l, upcalls := s.upcalls ++ [.execute v.opnum req] } ∧
        reply = replyFrom E s v req committed l)
      (fun t o => o = [] ∧ t = s ∧ v.opnum ≠ s.log.entries.length + 1) := by
  unfold execute
  simp only [sat_bind, sat_get, sat_ofOption, sat_modify, sat_pure, List.nil_append]
  exact ⟨fun l hl => ⟨trivial, l, hl, rfl, rfl⟩, fun hn => ⟨trivial, trivial, Log.append_eq_none.mp hn⟩⟩

/-- The log of it. -/
theorem execute_sat (v : Viewstamp) (req : Request) (committed : Bool) :
    Sat (execute E v req committed) s
      (fun _ t o => o = [] ∧ v.opnum = s.log.entries.length + 1 ∧ ∃ l u,
        stamps l = stamps s.log ++
          [(req, nextHash E.sha1 (lastHashOf emptyHash (stamps s.log)) (hashKey req))] ∧
        t = { s with log := l, upcalls := u })
      (fun t o => o = [] ∧ t = s) := by
  refine (execute_appends v req committed).mono ?_ fun _ _ h => ⟨h.1, h.2.1⟩
  rintro _ _ _ ⟨rfl, l, hl, rfl, _⟩
  exact ⟨rfl, (Log.append_eq_some.mp hl).1, l, _, stamps_appendHashed hl, rfl⟩

/-- The client table entry after a request with this opnum. -/
def ClientTableEntry.update (entry : ClientTableEntry) (clientreqid opnum : Nat) : ClientTableEntry :=
  if entry.lastReqId = clientreqid then entry
  else { lastReqId := clientreqid, lastReqOpnum := opnum }

/-- What `UpdateClientTable` records of a new entry. -/
def Replica.recorded (s : Replica) (req : Request) (opnum : Nat) (reply : SpeculativeReplyMessage) :
    Replica :=
  { s.setClientEntry req.clientid ((s.clientEntry req.clientid).update req.clientreqid opnum) with
    prevClientReqOpnum := fun k =>
      if k = opnum then (s.clientEntry req.clientid).lastReqOpnum else s.prevClientReqOpnum k
    replyMessage := fun k => if k = opnum then some reply else s.replyMessage k }

theorem updateClientTable_recorded (req : Request) (opnum : Nat) (reply : SpeculativeReplyMessage) :
    Sat (updateClientTable req opnum reply) s
      (fun _ t o => o = [] ∧ t = s.recorded req opnum reply ∧
        (s.clientEntry req.clientid).lastReqId ≤ req.clientreqid)
      (fun t o => o = [] ∧ t = s ∧ ¬ (s.clientEntry req.clientid).lastReqId ≤ req.clientreqid) := by
  unfold updateClientTable
  simp only [sat_bind, sat_get, sat_assert, sat_modify, List.nil_append]
  exact ⟨fun h => ⟨trivial, rfl, h⟩, fun h => ⟨trivial, trivial, h⟩⟩

theorem updateClientTable_sat (req : Request) (opnum : Nat) (reply : SpeculativeReplyMessage) :
    Sat (updateClientTable req opnum reply) s
      (fun _ t o => o = [] ∧ ∃ p r c,
        t = { s with prevClientReqOpnum := p, replyMessage := r, clientTable := c })
      (fun t o => o = [] ∧ t = s) := by
  refine (updateClientTable_recorded req opnum reply).mono ?_ fun _ _ h => ⟨h.1, h.2.1⟩
  rintro _ _ _ ⟨rfl, rfl, _⟩
  exact ⟨rfl, _, _, _, rfl⟩

theorem sendSyncReply_sat (opnum : Nat) :
    Sat (sendSyncReply E opnum) s
      (fun _ t o => t = s ∧ ∃ m, o = [.toReplica (E.config.getLeaderIndex s.view) (.syncReply m)] ∧
        m.lastspeculative = opnum ∧ TellsReply E s m)
      (fun t o => o = [] ∧ t = s) := by
  unfold sendSyncReply
  simp only [sat_bind, sat_get, sat_ite, sat_ofOption, sat_emit, List.nil_append]
  refine ⟨fun h0 => ⟨trivial, _, rfl, rfl, rfl, rfl, fun h => absurd h0 h⟩,
    fun _ => ⟨fun e he => ⟨trivial, _, rfl, rfl, rfl, rfl, fun _ => hashAt_of_find he⟩,
      fun _ => ⟨trivial, trivial⟩⟩⟩

theorem sendSync_sat : Sat (sendSync E) s
    (fun _ t o => (∃ k, t = { s with lastSync := k }) ∧ ∃ m, o = [.toAll (.sync m)] ∧ TellsSync E t m)
    (fun t o => o = [] ∧ ∃ k, t = { s with lastSync := k }) := by
  unfold sendSync
  simp only [sat_bind, sat_get, sat_assert, sat_modify, sat_ite, sat_ofOption, sat_emit,
    List.nil_append]
  refine ⟨fun hlead => ⟨fun hst => ⟨fun h0 => ⟨fun e he => ⟨⟨_, rfl⟩, _, rfl, ?_⟩,
    fun _ => ⟨trivial, _, rfl⟩⟩, fun h0 => ⟨⟨_, rfl⟩, _, rfl, ?_⟩⟩, fun _ => ⟨trivial, s.lastSync, rfl⟩⟩,
    fun _ => ⟨trivial, s.lastSync, rfl⟩⟩
  · exact ⟨hlead, hst, rfl, rfl, fun _ => hashAt_of_find he⟩
  · exact ⟨hlead, hst, rfl, rfl, fun h => absurd h h0⟩

/-- A SyncReply for an opnum that a Sync has asked for. -/
theorem Tame.sendSyncReply (h : WellLogged P E.sha1 s) (hp : s.pendingSync ≠ 0) (opnum : Nat) :
    Tame P E s (sendSyncReply E opnum) := by
  refine Sat.mono (sendSyncReply_sat opnum) ?_ ?_
  · rintro _ t o ⟨rfl, m, rfl, _, hm⟩
    exact ⟨h, .refl _, List.forall_mem_singleton.mpr ⟨rfl, hp, hm⟩⟩
  · rintro t o ⟨rfl, rfl⟩
    exact ⟨h.sound, .refl _, by simp⟩

theorem Tame.sendSync (h : WellLogged P E.sha1 s) : Tame P E s (sendSync E) := by
  refine Sat.mono sendSync_sat ?_ ?_
  · rintro _ t o ⟨⟨k, rfl⟩, m, rfl, hm⟩
    exact ⟨{ h with }, { Grows.refl s with }, List.forall_mem_singleton.mpr hm⟩
  · rintro t o ⟨rfl, k, rfl⟩
    exact ⟨h.sound, { Grows.refl s with }, by simp⟩

@[simp] theorem tame_get_bind {α : Type} {f : Replica → SpecHandler α} :
    Tame P E s (get >>= f) ↔ Tame P E s (f s) := by
  simp only [Tame, sat_bind, sat_get, List.nil_append]

theorem Tame.when {p : Prop} [Decidable p] {m : SpecHandler Unit} (h : WellLogged P E.sha1 s)
    (hm : p → Tame P E s m) : Tame P E s (when p m) :=
  sat_when.mpr ⟨hm, fun _ => ⟨h, .refl s, by simp⟩⟩

variable {remote : Addr} {req : Request}

/-- A new request is logged, with the hash of all before it. -/
theorem processRequest_tame (h : WellLogged P E.sha1 s) (hreq : P req) :
    Tame P E s (processRequest E remote req) := by
  unfold processRequest
  refine sat_bind.mpr (sat_modify.mpr (sat_bind.mpr (sat_get.mpr (sat_bind.mpr ?_))))
  refine Sat.mono (execute_sat ..) ?_ ?_
  · rintro reply _ _ ⟨rfl, hop, l, u, hl, rfl⟩
    simp only at hl hop
    have hlen : l.entries.length = s.log.entries.length + 1 := by
      rw [← length_stamps, hl, List.length_append, length_stamps]
      rfl
    have hsound : Sound P E.sha1 (stamps l) := hl ▸ h.sound.concat hreq
    refine sat_bind.mpr (sat_emit.mpr (sat_bind.mpr (Sat.mono (updateClientTable_sat ..) ?_ ?_)))
    · rintro _ _ _ ⟨rfl, p, r, c, rfl⟩
      set t : Replica := { s with
        lastSpeculative := s.lastSpeculative + 1, log := l, upcalls := u
        prevClientReqOpnum := p, replyMessage := r, clientTable := c }
      have hgrown : Grows s t := { Grows.refl s with log := hl ▸ List.prefix_append .. }
      have hw : WellLogged P E.sha1 t :=
        { pending := h.pending, sound := hsound
          full := by rw [show t.log = l from rfl, hlen, ← h.full]
          committed := by
            rw [show t.log = l from rfl, hlen]
            exact h.committed.trans (Nat.le_succ _) }
      have htail : Tame P E t (do
          let s' ← get
          Handler.when (s.lastSpeculative + 1 = s'.pendingSync) (sendSyncReply E s'.pendingSync)
          let s' ← get
          Handler.when (amLeader E s' ∧ s.lastSpeculative + 1 ≥ s'.lastSync + syncTimeoutRequests)
            (sendSync E)) := by
        refine tame_get_bind.mpr (Tame.bind (Tame.when hw fun hs => ?_) fun _ t ht _ => ?_)
        · exact .sendSyncReply hw (by omega) _
        · exact tame_get_bind.mpr (Tame.when ht fun _ => .sendSync ht)
      refine Sat.mono htail ?_ ?_
      · rintro _ t' o ⟨hw', hgrown', ho⟩
        exact ⟨hw', hgrown.trans hgrown', List.forall_mem_cons.mpr ⟨trivial, ho⟩⟩
      · rintro t' o ⟨hs', hgrown', ho⟩
        exact ⟨hs', hgrown.trans hgrown', List.forall_mem_cons.mpr ⟨trivial, ho⟩⟩
    · rintro t o ⟨rfl, rfl⟩
      exact ⟨hsound, { Grows.refl s with log := hl ▸ List.prefix_append .. },
        List.forall_mem_singleton.mpr trivial⟩
  · rintro t o ⟨rfl, rfl⟩
    exact ⟨h.sound, { Grows.refl s with }, by simp⟩

theorem resendReply_tame (h : WellLogged P E.sha1 s) (k : Nat) :
    Tame P E s (resendReply remote k) := by
  unfold resendReply Tame
  simp only [sat_bind, sat_get, sat_ofOption, sat_modify, sat_emit, List.nil_append]
  have hself : Grows s s := .refl s
  refine ⟨fun e _ => ⟨fun m _ => ⟨{ h with }, { hself with }, List.forall_mem_singleton.mpr trivial⟩,
    fun _ => ⟨h.sound, hself, by simp⟩⟩, fun _ => ⟨h.sound, hself, by simp⟩⟩

/-- `HandleRequest` logs a new request in normal operation, and keeps it for later otherwise. -/
theorem handleRequest_tame (h : WellLogged P E.sha1 s) (hreq : P req) :
    Tame P E s (handleRequest E remote req) := by
  unfold handleRequest
  refine tame_get_bind.mpr (Tame.bind ?_ fun _ t ht hst => ?_)
  · exact sat_modify.mpr ⟨{ h with }, { Grows.refl s with }, by simp⟩
  · cases checkDuplicate s req with
    | stale => exact .skip ht
    | duplicate k => exact resendReply_tame ht k
    | fresh =>
      refine sat_ite.mpr ⟨fun _ => sat_modify.mpr ⟨?_, { Grows.refl t with }, by simp⟩, fun _ => ?_⟩
      · refine { ht with pending := fun x hx => ?_ }
        rcases List.mem_append.mp hx with hx | hx
        · exact ht.pending x hx
        · obtain rfl := List.mem_singleton.mp hx
          exact hreq
      · exact processRequest_tame ht hreq

theorem handleUnloggedRequest_tame {op : String} (h : WellLogged P E.sha1 s) :
    Tame P E s (handleUnloggedRequest E remote op) := by
  unfold handleUnloggedRequest Tame
  simp only [sat_bind, sat_get, sat_ite, sat_pure, sat_modify, sat_emit, List.nil_append]
  exact ⟨fun _ => ⟨h, .refl s, by simp⟩,
    fun _ => ⟨{ h with }, { Grows.refl s with }, List.forall_mem_singleton.mpr trivial⟩⟩

end Dsnet.Spec
