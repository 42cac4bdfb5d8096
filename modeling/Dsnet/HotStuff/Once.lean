import Dsnet.Lib.LastNumber
import Dsnet.HotStuff.Execution

/-! Whether a HotStuff replica takes a request once. The client table has the number of a client's last request in
    32 bits, and requests have 64. -/

namespace Dsnet.HotStuff
open Handler LastNumber

variable {E : Env} {c : Nat}

/-- The numbers that are kept for the clients. -/
def Replica.keptOf (s : Replica) (c : Nat) : Option Nat := (s.clientTable c).map (·.clientRequest)

/-- The requests of the log, in their order. -/
def Replica.logged (s : Replica) : List Request := (slots s.log).filterMap id

/-- What requests change. -/
def Replica.asked (s : Replica) : (Nat → Option Nat) × List Request := (s.keptOf, s.logged)

theorem standing_eq_fresh {s : Replica} {req : Request} :
    s.standing req = .fresh ↔ Accepts (s.keptOf req.clientid) req.clientreqid := by
  rw [Replica.standing, Replica.keptOf, Accepts]
  cases s.clientTable req.clientid with
  | none => simp
  | some entry =>
    simp only [Option.map_some, Option.mem_def, Option.some.injEq, forall_eq']
    split_ifs with hlt heq
    · simp only [false_iff]
      omega
    · simp only [false_iff]
      omega
    · simp only [true_iff]
      omega

/-! ### What the handlers leave -/

/-- If it returns, the handler leaves these as they were. -/
abbrev Unasked {α : Type} (m : RHandler α) : Prop := Relates (Same Replica.asked) m

/-- If it returns, the handler leaves the numbers as they were. -/
abbrev Unnumbered {α : Type} (m : RHandler α) : Prop := Relates (Same Replica.keptOf) m

theorem Unasked.unnumbered {α : Type} {m : RHandler α} (h : Unasked m) : Unnumbered m :=
  h.mono fun _ _ h => congrArg Prod.fst h

theorem logged_of_append {s : Replica} {log : Log} {e : LogEntry} (h : s.log.append e = some log) :
    Replica.logged { s with log := log } = s.logged ++ (slot e).toList := by
  rw [Replica.logged, slots_append h, List.filterMap_append]
  cases slot e <;> rfl

/-- An empty entry is logged. -/
theorem unasked_appendNoop (k : Nat) : Unasked (append (noopEntry k)) := by
  refine relates_get_bind fun s => sat_bind.mpr (sat_ofOption.mpr ⟨fun log hlog => ?_, fun _ => trivial⟩)
  refine sat_modify.mpr (Prod.ext rfl ?_)
  exact (logged_of_append hlog).trans (List.append_nil _)

theorem unnumbered_append (e : LogEntry) : Unnumbered (append e) :=
  relates_get.bind fun _ => relates_ofOption.bind fun _ => same_modify fun _ => rfl

theorem unasked_start (t : Timer) : Unasked (modify (·.start t)) := same_modify fun _ => rfl

theorem unasked_sendVote (k : Nat) : Unasked (sendVote E k) := relates_emit.bind fun _ => unasked_start _

theorem unasked_closeBatch : Unasked (closeBatch E) := by
  refine relates_abort.ite (Relates.bind (unasked_start _) fun _ => relates_get.bind fun _ => Relates.whenSome fun _ => ?_)
  refine Relates.bind ?_ fun _ => relates_assert.bind fun _ => relates_emit
  exact Relates.bind (same_modify fun _ => rfl) fun _ => relates_get.bind fun _ => unasked_appendNoop _

/-- The reply that a client's entry gets leaves its number. -/
theorem keptOf_setReply {s : Replica} {clientid : Nat} {entry : ClientEntry} (h : s.clientTable clientid = some entry)
    (m : ReplyMessage) : (s.setReply clientid entry m).keptOf = s.keptOf := by
  funext c
  by_cases hc : c = clientid
  · subst hc
    simp only [Replica.keptOf, Replica.setReply, Function.update_self, h, Option.map_some]
  · simp only [Replica.keptOf, Replica.setReply, Function.update_of_ne hc]

theorem unasked_executeOp (k : Nat) : Unasked (executeOp E k) := by
  refine relates_get_bind fun s => sat_ite.mpr ⟨fun _ => trivial, fun _ => sat_bind.mpr ?_⟩
  refine sat_ofOption.mpr ⟨fun e he => sat_ite.mpr ⟨fun _ => rfl, fun hno => sat_bind.mpr (sat_modify.mpr ?_)⟩,
    fun _ => trivial⟩
  have hlogged : (slots (s.log.setStatus k .committed)).filterMap id = s.logged := by
    rw [slots_setStatus he hno, Replica.logged]
  simp only [sat_whenSome, sat_bind, sat_emit, sat_modify]
  exact ⟨fun c hc => Prod.ext (keptOf_setReply hc _) hlogged, fun _ => Prod.ext rfl hlogged⟩

theorem unasked_enterNextView (qc : QC) : Unasked (enterNextView E qc) := by
  refine relates_get.bind fun s => Relates.bind (same_modify fun _ => rfl) fun _ => Relates.whenSome fun commit => ?_
  exact Relates.when (Relates.whenSome fun _ => Relates.forEach (fun k => unasked_executeOp k) _)

theorem unasked_handleVote (m : VoteMessage) : Unasked (handleVote E m) := by
  refine relates_abort.ite (relates_get.bind fun s => Relates.when ?_)
  exact Relates.bind (same_modify fun _ => rfl) fun _ => Relates.when (unasked_enterNextView _)

theorem unasked_timeout : ∀ t, Unasked (timeout E t)
  | .resendVote => relates_get.bind fun _ => unasked_sendVote _
  | .closeBatch => unasked_closeBatch

theorem unnumbered_appendRequests : ∀ (reqs : List Request) (k : Nat), Unnumbered (appendRequests k reqs)
  | [], _ => relates_pure
  | _ :: reqs, k => (unnumbered_append _).bind fun _ => unnumbered_appendRequests reqs (k + 1)

theorem unnumbered_appendBlock (b : Block) : Unnumbered (appendBlock b) :=
  (unnumbered_append _).bind fun _ => unnumbered_appendRequests _ _

theorem unnumbered_appendBuffered : ∀ n, Unnumbered (appendBuffered n)
  | 0 => relates_pure
  | n + 1 => by
      refine relates_get.bind fun s => ?_
      rcases s.blockBuffer.toList with _ | ⟨⟨k, b⟩, rest⟩
      · exact relates_pure
      · refine relates_abort.ite (relates_pure.ite ((unnumbered_appendBlock b).bind fun _ => ?_))
        exact Relates.bind (same_modify fun _ => rfl) fun _ => unnumbered_appendBuffered n

theorem unnumbered_storeBlock (b : Block) : Unnumbered (storeBlock b) := by
  refine relates_get.bind fun s => relates_abort.ite (Relates.ite (same_modify fun _ => rfl) ?_)
  exact (unnumbered_appendBlock b).bind fun _ => relates_get.bind fun _ => unnumbered_appendBuffered _

theorem unnumbered_handleGeneric (b : Block) : Unnumbered (handleGeneric E b) := by
  refine relates_abort.ite ((unasked_sendVote _).unnumbered.bind fun _ => (unnumbered_storeBlock b).bind fun _ => ?_)
  exact relates_get.bind fun _ => Relates.when (unasked_enterNextView _).unnumbered

/-! ### Requests -/

/-- The table and the log when the replica has taken the request as a new one. -/
def Replica.taken (E : Env) (s : Replica) (req : Request) : (Nat → Option Nat) × List Request :=
  (Function.update s.keptOf req.clientid (some (req.clientreqid % 2 ^ 32)),
    if E.isPrimary then s.logged ++ [req] else s.logged)

theorem keptOf_requested (s : Replica) (remote : Addr) (req : Request) :
    (s.requested remote req).keptOf = Function.update s.keptOf req.clientid (some (req.clientreqid % 2 ^ 32)) := by
  funext c
  by_cases hc : c = req.clientid
  · subst hc
    rw [Function.update_self, Replica.keptOf, Replica.requested]
    cases s.clientTable req.clientid <;> simp [Function.update_self]
  · rw [Function.update_of_ne hc, Replica.keptOf, Replica.requested]
    simp only [Function.update_of_ne hc, Replica.keptOf]

theorem assign_asked (req : Request) (s : Replica) :
    Sat (assign E req) s (fun _ s' _ => s'.asked = (s.keptOf, s.logged ++ [req])) fun _ _ => True := by
  refine sat_bind.mpr (sat_get.mpr (sat_bind.mpr ?_))
  refine sat_bind.mpr (sat_get.mpr (sat_bind.mpr (sat_ofOption.mpr ⟨fun log hlog => sat_modify.mpr ?_, fun _ => trivial⟩)))
  have hlogged := logged_of_append hlog
  have hrest : Unasked (do
      modify (·.addPending req)
      modify (·.ensureStarted .closeBatch)
      let s ← get
      when (E.batchSize ≤ s.pending.request.length) (closeBatch E)) := by
    refine Relates.bind (same_modify fun _ => rfl) fun _ => Relates.bind (same_modify fun s => ?_) fun _ => ?_
    · rw [Replica.ensureStarted]
      split_ifs <;> rfl
    · exact relates_get.bind fun _ => Relates.when unasked_closeBatch
  exact (hrest _).mono (fun _ _ _ h => h.trans (Prod.ext rfl hlogged)) fun _ _ h => h

/-- `HandleRequest` takes the request as a new one when the table says so, and leaves the table and the log
    otherwise. -/
theorem handleRequest_asked (remote : Addr) (req : Request) (s : Replica) :
    Sat (handleRequest E remote req) s
      (fun _ s' _ => s'.asked = if s.standing req = .fresh then s.taken E req else s.asked) fun _ _ => True := by
  refine sat_bind.mpr (sat_get.mpr ?_)
  cases hst : s.standing req with
  | late => exact sat_pure.mpr rfl
  | again reply => exact sat_whenSome.mpr ⟨fun m _ => sat_emit.mpr rfl, fun _ => rfl⟩
  | fresh =>
    refine sat_bind.mpr (sat_modify.mpr (sat_when.mpr ⟨fun hp => ?_, fun hp => ?_⟩))
    · refine (assign_asked req _).mono (fun _ s' _ h => ?_) fun _ _ h => h
      rw [h, if_pos rfl, Replica.taken, if_pos hp, keptOf_requested]
      rfl
    · rw [if_pos rfl, Replica.taken, if_neg hp, Replica.asked, keptOf_requested]
      rfl

/-! ### Runs of a replica -/

/-- What makes a replica act: a message that arrives, or a timer. -/
inductive Input where
  | message (remote : Addr) (m : Message)
  | timer (t : Timer)

/-- The handler of an input, if it is possible. -/
def Input.handler (E : Env) (s : Replica) : Input → Option (RHandler Unit)
  | .message remote m => some (receiveMessage E remote m)
  | .timer t => if s.active t then some (timeout E t) else none

/-- The request of an input that the table takes for a new one. -/
def Input.fresh (s : Replica) : Input → List Request
  | .message _ (.request req) => if s.standing req = .fresh then [req] else []
  | _ => []

/-- A replica, and the requests that `HandleRequest` has taken as new ones. -/
structure Seen where
  replica : Replica
  handled : List Request

/-- A replica that gets what it gets, in any order. A process that has ended takes no step. -/
def requests (E : Env) : System Seen Input where
  init := { replica := .initial E, handled := [] }
  step x e := (e.handler E x.replica).bind fun m =>
    match m x.replica with
    | (some _, replica, _) => some { replica, handled := x.handled ++ e.fresh x.replica }
    | (none, _) => none

/-- The numbers of the requests of client `c` that have been taken, in their order. -/
def Seen.numbersOf (x : Seen) (c : Nat) : List Nat := (x.handled.filter (·.clientid = c)).map (·.clientreqid)

/-- Requests are taken at most once: none has been taken twice, none that has been is taken again, and one that is
    newer than all of them is. -/
structure OnceOnly (c : Nat) (x : Seen) : Prop where
  once : (x.numbersOf c).Nodup
  old : ∀ req, req.clientid = c → req.clientreqid ∈ x.numbersOf c → x.replica.standing req ≠ .fresh
  new : ∀ req, req.clientid = c → (∀ n ∈ x.numbersOf c, n < req.clientreqid) → x.replica.standing req = .fresh

/-- The message, if it is a request of client `c`, has a number of 32 bits. -/
def ShortNumbers (c : Nat) (_ : Seen) (e : Input) : Prop :=
  ∀ remote req, e = .message remote (.request req) → req.clientid = c → req.clientreqid < 2 ^ 32

/-- The requests that have been taken, against the table and the log. -/
structure Taken (E : Env) (c : Nat) (x : Seen) : Prop where
  last : Last (2 ^ 32) (x.numbersOf c) (x.replica.keptOf c)
  logged : E.isPrimary → x.replica.logged = x.handled

section
variable {x x' : Seen} {e : Input}

theorem of_requests_step (h : (requests E).step x e = some x') :
    ∃ m o, e.handler E x.replica = some m ∧ m x.replica = (some (), x'.replica, o) ∧
      x'.handled = x.handled ++ e.fresh x.replica := by
  obtain ⟨m, hm, h⟩ := Option.bind_eq_some_iff.mp h
  rcases hx : m x.replica with ⟨_ | _, replica, o⟩ <;> rw [hx] at h
  · cases h
  · cases h
    exact ⟨m, o, hm, hx, rfl⟩

/-- An input that is no request leaves the numbers, and the log of the primary. -/
theorem asked_of_no_request {m : RHandler Unit} {o : List Output} (hm : e.handler E x.replica = some m)
    (hx : m x.replica = (some (), x'.replica, o)) (he : ∀ remote req, e ≠ .message remote (.request req)) :
    x'.replica.keptOf = x.replica.keptOf ∧ (E.isPrimary → x'.replica.logged = x.replica.logged) := by
  have hboth (h : Unasked m) : x'.replica.asked = x.replica.asked := by
    have hs := h x.replica
    rw [Sat, hx] at hs
    exact hs
  have hsplit (h : Unasked m) :
      x'.replica.keptOf = x.replica.keptOf ∧ (E.isPrimary → x'.replica.logged = x.replica.logged) :=
    ⟨congrArg Prod.fst (hboth h), fun _ => congrArg Prod.snd (hboth h)⟩
  rcases e with ⟨remote, req | b | v⟩ | t
  · exact absurd rfl (he remote req)
  · obtain rfl := Option.some.inj hm
    refine ⟨?_, fun hp => ?_⟩
    · have hs := unnumbered_handleGeneric (E := E) b x.replica
      rw [Sat, show handleGeneric E b x.replica = _ from hx] at hs
      exact hs
    · -- The primary gets no blocks.
      have habort : handleGeneric E b x.replica = (none, x.replica, []) := by
        rw [handleGeneric, if_pos hp]
        rfl
      cases habort.symm.trans (show handleGeneric E b x.replica = _ from hx)
  · obtain rfl := Option.some.inj hm
    exact hsplit (unasked_handleVote v)
  · obtain ⟨-, hm⟩ := Option.ite_none_right_eq_some.mp hm
    obtain rfl := Option.some.inj hm
    exact hsplit (unasked_timeout t)

/-- A step takes a request as a new one, or leaves the table and the log of the primary. -/
theorem requests_step_cases (h : (requests E).step x e = some x') :
    (x'.handled = x.handled ∧ x'.replica.keptOf = x.replica.keptOf ∧
      (E.isPrimary → x'.replica.logged = x.replica.logged)) ∨
    ∃ remote req, e = .message remote (.request req) ∧ x.replica.standing req = .fresh ∧
      x'.handled = x.handled ++ [req] ∧ x'.replica.asked = x.replica.taken E req := by
  obtain ⟨m, o, hm, hx, hhandled⟩ := of_requests_step h
  by_cases he : ∀ remote req, e ≠ .message remote (.request req)
  · have hfresh : e.fresh x.replica = [] := by
      rcases e with ⟨remote, req | b | v⟩ | t
      · exact absurd rfl (he remote req)
      all_goals rfl
    exact Or.inl ⟨by rw [hhandled, hfresh, List.append_nil], asked_of_no_request hm hx he⟩
  · obtain ⟨remote, req, rfl⟩ : ∃ remote req, e = .message remote (.request req) := by
      by_contra hno
      exact he fun remote req heq => hno ⟨remote, req, heq⟩
    obtain rfl := Option.some.inj hm
    have hasked := handleRequest_asked (E := E) remote req x.replica
    rw [Sat, show handleRequest E remote req x.replica = _ from hx] at hasked
    by_cases hst : x.replica.standing req = .fresh
    · exact Or.inr ⟨remote, req, rfl, hst, hhandled.trans (congrArg _ (if_pos hst)), hasked.trans (if_pos hst)⟩
    · have hsame : x'.replica.asked = x.replica.asked := hasked.trans (if_neg hst)
      have hnone : x'.handled = x.handled ++ [] := hhandled.trans (congrArg _ (if_neg hst))
      exact Or.inl ⟨hnone.trans (List.append_nil _), congrArg Prod.fst hsame, fun _ => congrArg Prod.snd hsame⟩

/-- A request of client `c` is the next one that the table takes, or changes nothing of it. -/
theorem numbersOf_step (h : (requests E).step x e = some x') (c : Nat) :
    (x'.numbersOf c = x.numbersOf c ∧ x'.replica.keptOf c = x.replica.keptOf c) ∨
      ∃ remote req, e = .message remote (.request req) ∧ req.clientid = c ∧
        Accepts (x.replica.keptOf c) req.clientreqid ∧ x'.numbersOf c = x.numbersOf c ++ [req.clientreqid] ∧
        x'.replica.keptOf c = some (req.clientreqid % 2 ^ 32) := by
  rcases requests_step_cases h with ⟨hhandled, hkept, -⟩ | ⟨remote, req, rfl, hst, hhandled, hasked⟩
  · exact Or.inl ⟨by rw [Seen.numbersOf, hhandled, Seen.numbersOf], congrFun hkept c⟩
  · have hkept : x'.replica.keptOf = Function.update x.replica.keptOf req.clientid (some (req.clientreqid % 2 ^ 32)) :=
      congrArg Prod.fst hasked
    by_cases hc : req.clientid = c
    · refine Or.inr ⟨remote, req, rfl, hc, hc ▸ standing_eq_fresh.mp hst, ?_, ?_⟩
      · simp [Seen.numbersOf, hhandled, hc]
      · rw [hkept, hc, Function.update_self]
    · refine Or.inl ⟨?_, ?_⟩
      · simp [Seen.numbersOf, hhandled, hc]
      · rw [hkept, Function.update_of_ne (Ne.symm hc)]

theorem logged_step (h : (requests E).step x e = some x') (hp : E.isPrimary)
    (hlogged : x.replica.logged = x.handled) : x'.replica.logged = x'.handled := by
  rcases requests_step_cases h with ⟨hhandled, -, hsame⟩ | ⟨remote, req, rfl, -, hhandled, hasked⟩
  · rw [hsame hp, hlogged, hhandled]
  · rw [hhandled, ← hlogged]
    exact (congrArg Prod.snd hasked).trans (if_pos hp)

/-! ### Runs -/

theorem onceOnly_iff : OnceOnly c x ↔ AtMostOnce (x.numbersOf c) (Accepts (x.replica.keptOf c)) := by
  have hfresh (req : Request) (hc : req.clientid = c) :
      x.replica.standing req = .fresh ↔ Accepts (x.replica.keptOf c) req.clientreqid := hc ▸ standing_eq_fresh
  constructor
  · intro h
    refine ⟨h.once, fun n hn ha => ?_, fun n hn => ?_⟩
    · exact h.old { op := "", clientid := c, clientreqid := n } rfl hn ((hfresh _ rfl).mpr ha)
    · exact (hfresh _ rfl).mp (h.new { op := "", clientid := c, clientreqid := n } rfl hn)
  · intro h
    refine ⟨h.once, fun req hc hn hst => ?_, fun req hc hn => ?_⟩
    · exact h.old _ hn ((hfresh req hc).mp hst)
    · exact (hfresh req hc).mpr (h.new _ hn)

/-- All that has been taken of client `c` has numbers of 32 bits. -/
structure Short (c : Nat) (x : Seen) : Prop where
  last : Last (2 ^ 32) (x.numbersOf c) (x.replica.keptOf c)
  taken : ∀ n ∈ x.numbersOf c, n < 2 ^ 32

theorem short_of_run {past : List Seen} (hr : Run (requests E) (ShortNumbers c) past x) : Short c x := by
  refine hr.invariant (I := fun _ x => Short c x) ⟨.nil, fun n hn => by cases hn⟩ ?_
  intro _ x e x' _ hs hc hst
  rcases numbersOf_step hst c with ⟨hns, hkept⟩ | ⟨remote, req, rfl, hreq, ha, hns, hkept⟩
  · exact ⟨by rw [hns, hkept]; exact hs.last, by rw [hns]; exact hs.taken⟩
  · refine ⟨by rw [hns, hkept]; exact hs.last.accept ha, fun n hn => ?_⟩
    rcases List.mem_append.mp (hns ▸ hn) with hn | hn
    · exact hs.taken n hn
    · exact List.mem_singleton.mp hn ▸ hc remote req rfl hreq

/-- The log of the primary has the requests that it has taken. -/
theorem logged_of_run (hp : E.isPrimary) {C : Seen → Input → Prop} {past : List Seen}
    (hr : Run (requests E) C past x) : x.replica.logged = x.handled := by
  refine hr.invariant (I := fun _ x => x.replica.logged = x.handled) ?_ fun _ x e x' _ hs _ hst =>
    logged_step hst hp hs
  show (slots (Replica.initial E).log).filterMap id = []
  rw [Replica.initial, if_pos hp]
  rfl

/-- As long as the requests of client `c` have numbers of 32 bits, each is taken at most once; and that is still so
    after one more, exactly when its number has 32 bits. -/
theorem onceOnly_of_run {past : List Seen} (hr : Run (requests E) (ShortNumbers c) past x) :
    OnceOnly c x ∧ ∀ remote req x', req.clientid = c →
      (requests E).step x (.message remote (.request req)) = some x' →
      (OnceOnly c x' ↔ req.clientreqid < 2 ^ 32) := by
  have hs := short_of_run hr
  have honce := (hs.last.atMostOnce_iff (by decide)).mpr hs.taken
  refine ⟨onceOnly_iff.mpr honce, fun remote req x' hreq hst => ?_⟩
  rw [onceOnly_iff]
  rcases numbersOf_step hst c with ⟨hns, hkept⟩ | ⟨_, _, heq, -, ha, hns, hkept⟩
  · -- A number that is not taken is no greater than one that was.
    rw [hns, hkept]
    refine iff_of_true honce ?_
    by_contra hge
    have hfresh : x.replica.standing req = .fresh := by
      rw [standing_eq_fresh, hreq]
      intro k hk
      obtain ⟨n, -, rfl⟩ := hs.last.mem k hk
      exact Nat.lt_of_lt_of_le (Nat.mod_lt n (by decide)) (Nat.not_lt.mp hge)
    obtain ⟨_, _, -, -, hhandled⟩ := of_requests_step hst
    have htaken : x'.handled = x.handled ++ [req] := hhandled.trans (congrArg _ (if_pos hfresh))
    simp [Seen.numbersOf, htaken, hreq] at hns
  · cases heq
    rw [hns, hkept]
    exact hs.last.next_iff (by decide) hs.taken ha

end

end Dsnet.HotStuff
