import Dsnet.HotStuff.Outline

/-! The execution of HotStuff replicas. Every log is a piece of the primary's from its start, and the
    pieces that the views execute follow one another, so nothing is missing once the first of them
    begins where the log does. That is not so when a certificate of a later block is the first. -/

namespace Dsnet.HotStuff
open Handler Net.GhostInvariant

variable {E : Env} {g g' : List (Option Request)} {o : Outline} {s : Replica} {b : Block}

/-! ### The invariant -/

/-- The block is a piece of the primary's log. -/
def GoodBlock (g : List (Option Request)) (b : Block) : Prop :=
  1 ≤ b.opNumber ∧ b.slots <+: g.drop (b.opNumber - 1)

/-- A replica, against the primary's log. It has executed all that comes before its locked certificate, or
    nothing. -/
structure Good (g : List (Option Request)) (o : Outline) : Prop where
  slots : o.slots <+: g
  buffered : ∀ x ∈ o.blockBuffer.toList, GoodBlock g x.2
  ordered : ∀ c ∈ o.lockedQC, ∃ q, o.genericQC = some q ∧ c.opNumber < q.opNumber
  done : o.executed = [] ∨ ∃ c ∈ o.lockedQC, c.opNumber ≠ 0 ∧ c.opNumber ≤ o.slots.length + 1 ∧
    o.executed = operations (o.slots.take (c.opNumber - 1))

/-- The primary: its pending block is the end of its log. -/
structure Leads (g : List (Option Request)) (o : Outline) : Prop where
  slots : o.slots = g
  pending : 1 ≤ o.pending.opNumber ∧ o.pending.slots = g.drop (o.pending.opNumber - 1)

/-- What replica `r` has executed begins its log. -/
structure Executed (g : List (Option Request)) (r : Nat) (o : Outline) : Prop where
  slots : o.slots <+: g
  leads : r = primary → o.slots = g
  done : ∃ k, o.executed = operations (o.slots.take k)

/-- A replica that runs. -/
structure Running (g : List (Option Request)) (r : Nat) (o : Outline) : Prop
    extends Good g o where
  leads : r = primary → Leads g o

theorem GoodBlock.mono (h : GoodBlock g b) (hg : g <+: g') : GoodBlock g' b :=
  ⟨h.1, h.2.trans (hg.drop _)⟩

theorem Good.mono (h : Good g o) (hg : g <+: g') : Good g' o :=
  ⟨h.slots.trans hg, fun x hx => (h.buffered x hx).mono hg, h.ordered, h.done⟩

theorem Good.executed (h : Good g o) {r : Nat} (hr : r = primary → o.slots = g) :
    Executed g r o := by
  refine ⟨h.slots, hr, ?_⟩
  rcases h.done with h | ⟨c, -, -, h⟩
  · exact ⟨0, h⟩
  · exact ⟨_, h.2⟩

/-- In terms of the primary's log. -/
theorem Executed.of_log {r : Nat} (h : Executed g r o) : ∃ k, o.executed = operations (g.take k) := by
  obtain ⟨k, hk⟩ := h.done
  refine ⟨min k o.slots.length, ?_⟩
  obtain ⟨t, ht⟩ := h.slots
  rw [hk, ← ht, List.take_append_of_le_length (min_le_right ..)]
  rcases le_total k o.slots.length with hle | hle
  · rw [min_eq_left hle]
  · rw [min_eq_right hle, List.take_of_length_le hle, List.take_length]

/-- The packets that are under way: the blocks among them are the primary's. -/
def GoodPacket (g : List (Option Request)) (p : Net.Packet Message) : Prop :=
  ∀ b, p.msg = .generic b → GoodBlock g b

/-- The invariant of the group, with the primary's log as its ghost. -/
def invariant : Net.GhostInvariant Replica Message (List (Option Request)) where
  running g r s := Running g r s.outline
  halted g r s := Executed g r s.outline
  packet := GoodPacket
  advances r g g' := g <+: g' ∧ (r ≠ primary → g' = g)
  refl _ g := ⟨List.prefix_refl g, fun _ => rfl⟩
  trans h h' := ⟨h.1.trans h'.1, fun hr => (h'.2 hr).trans (h.2 hr)⟩
  running_mono {r g g' x s} h hx hs := by
    by_cases hr : r = primary
    · exact ⟨hs.toGood.mono h.1, fun hxp => (hx (hxp.trans hr.symm)).elim⟩
    · rw [h.2 hr]
      exact hs
  halted_mono {r g g' x s} h hx hs := by
    by_cases hr : r = primary
    · exact ⟨hs.slots.trans h.1, fun hxp => (hx (hxp.trans hr.symm)).elim, hs.done⟩
    · rw [h.2 hr]
      exact hs
  packet_mono h hp b hb := (hp b hb).mono h.1

/-! ### What is sent -/

/-- The output has no block. -/
def Blockless (x : Output) : Prop := ∀ n r b, ∀ p ∈ Net.packets n r x, p.msg ≠ .generic b

theorem blockless_toClient (a : Addr) (m : ReplyMessage) : Blockless (.toClient a m) :=
  fun _ _ _ _ hp => by cases hp

theorem emits_append (e : LogEntry) : Emits Blockless (append e) :=
  emits_get.bind fun _ => emits_ofOption.bind fun _ => emits_modify

theorem emits_appendRequests : ∀ (reqs : List Request) (k : Nat), Emits Blockless (appendRequests k reqs)
  | [], _ => emits_pure
  | _ :: reqs, _ => (emits_append _).bind fun _ => emits_appendRequests reqs _

theorem emits_appendBlock (b : Block) : Emits Blockless (appendBlock b) :=
  (emits_append _).bind fun _ => emits_appendRequests _ _

theorem emits_appendBuffered : ∀ n, Emits Blockless (appendBuffered n)
  | 0 => emits_pure
  | n + 1 => by
      refine emits_get.bind fun s => ?_
      cases s.blockBuffer.toList with
      | nil => exact emits_pure
      | cons x rest =>
        refine emits_abort.ite (emits_pure.ite ?_)
        exact (emits_appendBlock x.2).bind fun _ => emits_modify.bind fun _ => emits_appendBuffered n

theorem emits_storeBlock (b : Block) : Emits Blockless (storeBlock b) := by
  refine emits_get.bind fun s => emits_abort.ite (emits_modify.ite ?_)
  exact (emits_appendBlock b).bind fun _ => emits_get.bind fun _ => emits_appendBuffered _

theorem emits_sendVote (k : Nat) : Emits Blockless (sendVote E k) := by
  refine (emits_emit fun n r b p hp => ?_).bind fun _ => emits_modify
  rw [List.mem_singleton.mp hp]
  exact Message.noConfusion

theorem emits_executeOp (k : Nat) : Emits Blockless (executeOp E k) := by
  refine emits_get.bind fun s => emits_abort.ite (emits_ofOption.bind fun e => emits_pure.ite ?_)
  refine emits_modify.bind fun _ => Emits.whenSome fun c => ?_
  exact (emits_emit (blockless_toClient _ _)).bind fun _ => emits_modify

theorem emits_enterNextView (qc : QC) : Emits Blockless (enterNextView E qc) :=
  emits_get.bind fun _ => emits_modify.bind fun _ => Emits.whenSome fun _ =>
    (Emits.whenSome fun _ => Emits.forEach emits_executeOp _).when

theorem emits_handleVote (m : VoteMessage) : Emits Blockless (handleVote E m) :=
  emits_abort.ite (emits_get.bind fun _ =>
    (emits_modify.bind fun _ => (emits_enterNextView _).when).when)

theorem emits_handleGeneric (b : Block) : Emits Blockless (handleGeneric E b) :=
  emits_abort.ite ((emits_sendVote _).bind fun _ => (emits_storeBlock b).bind fun _ =>
    emits_get.bind fun _ => (emits_enterNextView _).when)

/-- A handler that sends no block. -/
theorem spec_of_emits {α : Type} {n r : Nat} {m : RHandler α} {J : α → List (Option Request) → Replica → Prop}
    (hm : Emits Blockless m)
    (h : Sat m s (fun a s' _ => ∃ g', invariant.advances r g g' ∧ J a g' s')
      fun s' _ => Executed g r s'.outline) : invariant.Spec n r g m s J := by
  refine (h.and (hm s)).mono (fun a s' _ h => ?_) fun s' _ h => ?_
  · obtain ⟨⟨g', hg, hs'⟩, ho⟩ := h
    exact ⟨g', hg, hs', fun x hx p hp b hb => (ho x hx n r b p hp hb).elim⟩
  · exact ⟨g, invariant.refl r g, h.1, fun x hx p hp b hb => (h.2 x hx n r b p hp hb).elim⟩

/-! ### Views -/

/-- Where nothing has been executed, the locked certificate is not for a block with a request before it. -/
def NoneBefore (g : List (Option Request)) (o : Outline) : Prop :=
  ∀ c ∈ o.lockedQC, c.opNumber ≠ 0 → o.executed = [] → c.opNumber ≤ o.slots.length →
    ∀ x ∈ g.take (c.opNumber - 1), x = none

/-- What comes before the locked certificate has been executed. -/
theorem Good.doneTo (h : Good g o) (hfirst : NoneBefore g o) {c : QC}
    (hc : c ∈ o.lockedQC) (h0 : c.opNumber ≠ 0) (hlen : c.opNumber ≤ o.slots.length) :
    o = o.doneTo (c.opNumber - 1) := by
  have hexec : o.executed = operations (o.slots.take (c.opNumber - 1)) := by
    rcases h.done with hnil | ⟨c', hc', -, -, hdone⟩
    · rw [hnil, operations_eq_nil fun x hx => ?_]
      exact hfirst c hc h0 hnil hlen x ((h.slots.take _).subset hx)
    · cases (Option.mem_unique hc hc' : c = c')
      exact hdone
  cases o
  simp only [Outline.doneTo, Outline.mk.injEq, true_and]
  exact hexec

/-- The certificates move on. -/
theorem Running.entered {r : Nat} (h : Running g r o) {qc : QC} {executed : List (Nat × Request)}
    (hnew : ∀ q ∈ o.genericQC, q.opNumber < qc.opNumber) (hdone : executed = [] ∨
      ∃ c ∈ o.genericQC, c.opNumber ≠ 0 ∧ c.opNumber ≤ o.slots.length + 1 ∧
        executed = operations (o.slots.take (c.opNumber - 1))) :
    Running g r { o with
      genericQC := some qc
      lockedQC := o.genericQC
      executed := executed } :=
  ⟨⟨h.slots, h.buffered, fun c hc => ⟨qc, rfl, hnew c hc⟩, hdone⟩, fun hr => ⟨(h.leads hr).slots, (h.leads hr).pending⟩⟩

theorem Running.halts {r : Nat} (h : Running g r o) : Executed g r o :=
  h.toGood.executed fun hr => (h.leads hr).slots

theorem enterNextView_spec {r : Nat} (h : Running g r s.outline) {qc : QC} (hnew : s.newer qc.opNumber)
    (hfirst : NoneBefore g s.outline) :
    Sat (enterNextView E qc) s (fun _ s' _ => Running g r s'.outline)
      fun s' _ => Executed g r s'.outline := by
  simp only [enterNextView, sat_bind, sat_get, sat_modify, sat_whenSome, sat_when]
  refine ⟨fun commit hc => ⟨fun h0 => ⟨fun locked hl => ?_, fun hl => ?_⟩, fun h0 => ?_⟩, fun hc => ?_⟩
  · obtain ⟨q, hq, hlt⟩ := h.ordered commit hc
    cases (Option.some.inj (hl.symm.trans hq) : locked = q)
    by_cases hlen : commit.opNumber ≤ s.outline.slots.length
    · have hdone := h.toGood.doneTo hfirst hc h0 hlen
      have hnext : commit.opNumber - 1 + 1 = commit.opNumber := by omega
      have hend : commit.opNumber - 1 + (locked.opNumber - commit.opNumber) = locked.opNumber - 1 := by omega
      have hloop := executeOps_spec (E := E) (locked.opNumber - commit.opNumber) (commit.opNumber - 1) (s := { s with
        lockedQC := s.genericQC
        genericQC := some qc }) (Nat.sub_le_of_le_add (Nat.le_succ_of_le hlen)) (congrArg (fun o : Outline => { o with
          lockedQC := s.genericQC
          genericQC := some qc }) hdone)
      rw [hnext, hend] at hloop
      refine hloop.mono (fun _ s' _ hs' => ?_) fun s' _ hs' => ?_
      · obtain ⟨hlast, hs'⟩ := hs'
        rw [hs']
        exact h.entered hnew (Or.inr ⟨locked, hl, by omega, Nat.le_add_of_sub_le hlast, rfl⟩)
      · obtain ⟨j, hj⟩ := hs'
        rw [hj]
        exact ⟨h.slots, fun hr => (h.leads hr).slots, j, rfl⟩
    · have hm : 0 < locked.opNumber - commit.opNumber := by omega
      refine Sat.mono (executeOps_beyond (not_le.mp hlen) hm) (fun _ _ _ hs' => hs'.elim) fun s' _ hs' => ?_
      rw [hs']
      exact ⟨h.slots, fun hr => (h.leads hr).slots, h.halts.done⟩
  · obtain ⟨q, hq, -⟩ := h.ordered commit hc
    exact absurd (hl.symm.trans hq) (by simp)
  · refine h.entered hnew (Or.inl ?_)
    rcases h.done with hnil | ⟨c, hc', hne, -⟩
    · exact hnil
    · cases (Option.mem_unique hc hc' : commit = c)
      exact (h0 hne).elim
  · refine h.entered hnew (Or.inl ?_)
    rcases h.done with hnil | ⟨c, hc', -⟩
    · exact hnil
    · exact absurd (hc.symm.trans hc') (by simp)

/-! ### Backups -/

theorem prefix_of_append {l l' : List (Option Request)} (h : l <+: g) (h' : l' <+: g.drop l.length) :
    l ++ l' <+: g := by
  obtain ⟨t, rfl⟩ := h
  rw [List.drop_left] at h'
  exact (List.prefix_append_right_inj l).mpr h'

/-- A block that comes next is logged. -/
theorem Running.extend {r : Nat} (hr : r ≠ primary) (h : Running g r o)
    (hop : b.opNumber = o.slots.length + 1) (hb : GoodBlock g b) :
    Running g r { o with slots := o.slots ++ b.slots } := by
  have hdrop := hb.2
  rw [hop, Nat.add_sub_cancel] at hdrop
  refine ⟨⟨prefix_of_append h.slots hdrop, h.buffered, h.ordered, ?_⟩, fun h' => (hr h').elim⟩
  refine h.done.imp_right fun ⟨c, hc, h0, hlen, hexec⟩ => ⟨c, hc, h0, ?_, ?_⟩
  · rw [List.length_append]
    omega
  · rw [hexec, List.take_append_of_le_length (by omega)]

/-- Other blocks are buffered. -/
theorem Running.rebuffer {r : Nat} (h : Running g r o) {buffer : StdMap Nat Block}
    (hb : ∀ x ∈ buffer.toList, GoodBlock g x.2) : Running g r { o with blockBuffer := buffer } :=
  ⟨⟨h.slots, hb, h.ordered, h.done⟩, fun hr => ⟨(h.leads hr).slots, (h.leads hr).pending⟩⟩

/-- Only the log and the buffer differ. -/
def Stored (o o' : Outline) : Prop :=
  o' = { o with
    slots := o'.slots
    blockBuffer := o'.blockBuffer }

theorem Stored.trans {o o' o'' : Outline} (h : Stored o o') (h' : Stored o' o'') : Stored o o'' := by
  unfold Stored at h h'
  rw [h'] at *
  rw [h]
  rfl

/-- The blocks that come next are taken from the buffer. -/
theorem appendBuffered_spec {r : Nat} (hr : r ≠ primary) : ∀ (n : Nat) {s : Replica},
    Running g r s.outline →
    Sat (appendBuffered n) s (fun _ s' _ => Running g r s'.outline ∧ Stored s.outline s'.outline)
      fun s' _ => Executed g r s'.outline
  | 0, s, h => ⟨h, rfl⟩
  | n + 1, s, h => by
      simp only [appendBuffered, sat_bind, sat_get]
      cases hq : s.blockBuffer.toList with
      | nil => exact ⟨h, rfl⟩
      | cons x rest =>
        simp only [sat_ite, sat_abort, sat_pure, sat_bind, sat_modify]
        refine ⟨fun _ => h.halts, fun _ => ⟨fun _ => ⟨h, rfl⟩, fun _ => ?_⟩⟩
        have hx : GoodBlock g x.2 := h.buffered x (by simp [Replica.outline, hq])
        refine (appendBlock_spec x.2 s).mono (fun _ s₁ _ h₁ => ?_) fun s' _ hs' => hs' ▸ h.halts
        obtain ⟨hop, h₁⟩ := h₁
        have hs₁ : Running g r s₁.outline := h₁ ▸ h.extend hr hop hx
        have hs₂ : Running g r (Replica.outline { s₁ with blockBuffer := s₁.blockBuffer.erase x.1 }) :=
          hs₁.rebuffer fun y hy => hs₁.buffered y (List.mem_filter.mp hy).1
        refine (appendBuffered_spec hr n hs₂).mono (fun _ s' _ h' => ⟨h'.1, Stored.trans ?_ h'.2⟩)
          fun _ _ h => h
        have hout : Stored s.outline s₁.outline := by
          rw [h₁]
          rfl
        exact hout.trans rfl

theorem storeBlock_spec {r : Nat} (hr : r ≠ primary) (h : Running g r s.outline) (hb : GoodBlock g b) :
    Sat (storeBlock b) s (fun _ s' _ => Running g r s'.outline ∧ Stored s.outline s'.outline ∧
        (s'.outline.slots = s.outline.slots ∨ b.opNumber = s.log.lastOpnum + 1))
      fun s' _ => Executed g r s'.outline := by
  simp only [storeBlock, sat_bind, sat_get, sat_ite, sat_abort, sat_modify]
  refine ⟨fun _ => h.halts, fun _ => ⟨fun _ => ⟨h.rebuffer fun x hx => ?_, rfl, Or.inl rfl⟩, fun _ => ?_⟩⟩
  · rcases StdMap.mem_insert hx with rfl | hx
    · exact hb
    · exact h.buffered x hx
  · refine (appendBlock_spec b s).mono (fun _ s₁ _ h₁ => ?_) fun s' _ hs' => hs' ▸ h.halts
    obtain ⟨hop, h₁⟩ := h₁
    have hs₁ : Running g r s₁.outline := h₁ ▸ h.extend hr hop hb
    refine (appendBuffered_spec hr s₁.blockBuffer.size hs₁).mono (fun _ s' _ h' => ⟨h'.1, ?_, Or.inr ?_⟩)
      fun _ _ h => h
    · refine Stored.trans ?_ h'.2
      rw [h₁]
      rfl
    · rwa [lastOpnum_eq_slots]

/-- With a block in hand, up to where the log will go. -/
def NoneBeforeWith (g : List (Option Request)) (s : Replica) (b : Block) : Prop :=
  ∀ c ∈ s.lockedQC, c.opNumber ≠ 0 → s.executed = [] →
    (c.opNumber ≤ s.log.lastOpnum ∨ b.opNumber = s.log.lastOpnum + 1) →
    ∀ x ∈ g.take (c.opNumber - 1), x = none

theorem handleGeneric_spec {r : Nat} (hE : E.replicaIdx = r) (hr : r ≠ primary)
    (h : Running g r s.outline) (hb : GoodBlock g b)
    (hfirst : s.newer b.justify.opNumber → NoneBeforeWith g s b) :
    Sat (handleGeneric E b) s (fun _ s' _ => Running g r s'.outline)
      fun s' _ => Executed g r s'.outline := by
  have hno : ¬ E.isPrimary := by rwa [Env.isPrimary, hE]
  simp only [handleGeneric, if_neg hno, sendVote, sat_bind, sat_emit, sat_modify]
  refine (storeBlock_spec (s := s.start .resendVote) hr h hb).mono (fun _ s₁ _ h₁ => ?_) fun _ _ h => h
  obtain ⟨hs₁, hstored, hlog⟩ := h₁
  have hgeneric : s₁.genericQC = s.genericQC := congrArg Outline.genericQC hstored
  have hlocked : s₁.lockedQC = s.lockedQC := congrArg Outline.lockedQC hstored
  have hexec : s₁.executed = s.executed := congrArg Outline.executed hstored
  simp only [sat_get, sat_when]
  refine ⟨fun hnew => enterNextView_spec hs₁ hnew fun c hc h0 hnil hlen => ?_, fun _ => hs₁⟩
  rw [Replica.newer, hgeneric] at hnew
  refine hfirst hnew c (hlocked ▸ hc) h0 (hexec ▸ hnil) ?_
  rw [lastOpnum_eq_slots]
  refine hlog.imp (fun hsame => ?_) fun hnext => ?_
  · rwa [hsame] at hlen
  · rwa [lastOpnum_eq_slots] at hnext

/-! ### The primary -/

theorem handleVote_spec {m : VoteMessage} {r : Nat} (h : Running g r s.outline)
    (hfirst : s.newer m.opNumber → 2 * E.config.f ≤ (s.votes m).size → NoneBefore g s.outline) :
    Sat (handleVote E m) s (fun _ s' _ => Running g r s'.outline)
      fun s' _ => Executed g r s'.outline := by
  simp only [handleVote, sat_ite, sat_abort, sat_bind, sat_get, sat_when, sat_modify]
  exact ⟨fun _ => h.halts, fun _ => ⟨fun hnew => ⟨fun hq => enterNextView_spec (s := { s with
    highQC := Function.update s.highQC m.opNumber (s.votes m) }) h hnew (hfirst hnew hq), fun _ => h⟩,
    fun _ => h⟩⟩

/-- The primary logs an entry; its pending block becomes one that ends there. -/
theorem Running.grow (h : Running g primary o) (x : Option Request) (pending : Block)
    (hpending : 1 ≤ pending.opNumber ∧ pending.slots = (g ++ [x]).drop (pending.opNumber - 1)) :
    Running (g ++ [x]) primary { o with
      slots := o.slots ++ [x]
      pending := pending } := by
  have hslots := (h.leads rfl).slots
  refine ⟨⟨by rw [hslots], fun y hy => (h.buffered y hy).mono (List.prefix_append ..), h.ordered, ?_⟩,
    fun _ => ⟨by rw [hslots], hpending⟩⟩
  refine h.done.imp_right fun ⟨c, hc, h0, hlen, hexec⟩ => ⟨c, hc, h0, ?_, ?_⟩
  · rw [List.length_append]
    omega
  · rw [hexec, List.take_append_of_le_length (by omega)]

/-- The pending block is not empty. -/
theorem Leads.lt (h : Leads g o) : o.pending.opNumber - 1 < g.length := by
  by_contra hge
  have hnil := h.pending.2
  rw [List.drop_eq_nil_of_le (not_lt.mp hge)] at hnil
  cases hnil

theorem startNextBatch_spec (h : Running g primary s.outline) :
    Sat startNextBatch s (fun _ s' _ => ∃ g', invariant.advances primary g g' ∧
        Running g' primary s'.outline)
      fun s' _ => Executed g primary s'.outline := by
  have hslots := (h.leads rfl).slots
  have hdrop : [none] = (g ++ [none]).drop (s.log.lastOpnum + 1 - 1) := by
    have hlen : (slots s.log).length = g.length := congrArg List.length hslots
    rw [Nat.add_sub_cancel, lastOpnum_eq_slots, hlen, List.drop_left]
  simp only [startNextBatch, sat_bind, sat_modify, sat_get]
  refine (append_spec _ _).mono (fun _ s' _ hs' => ?_) fun s' _ hs' => ?_
  · refine ⟨g ++ [none], ⟨List.prefix_append .., fun hr => (hr rfl).elim⟩, ?_⟩
    obtain ⟨-, hs'⟩ := hs'
    rw [hs']
    exact h.grow none { opNumber := s.log.lastOpnum + 1 } ⟨Nat.le_add_left .., hdrop⟩
  · rw [hs'.2]
    exact ⟨h.slots, fun _ => hslots, h.halts.done⟩

theorem closeBatch_spec {n : Nat} (h : Running g primary s.outline) :
    invariant.Spec n primary g (closeBatch E) s fun _ g' s' => Running g' primary s'.outline := by
  rw [closeBatch, spec_ite]
  refine ⟨fun _ => Ends.same h.halts, fun _ => ?_⟩
  rw [spec_modify_bind, spec_get_bind, spec_whenSome]
  refine ⟨fun qc _ => ?_, fun _ => Ends.same h⟩
  refine Spec.bind (spec_of_emits (emits_modify.bind fun _ => emits_get.bind fun _ => emits_append _)
    (startNextBatch_spec (s := s.start .closeBatch) h)) fun _ g' s' hg hs' => ?_
  refine spec_assert_bind.mpr ⟨fun _ => spec_emit.mpr (Ends.sends hs' fun p hp b hb => ?_),
    fun _ => Ends.same hs'.halts⟩
  obtain ⟨i, -, rfl⟩ := List.mem_map.mp hp
  cases hb
  obtain ⟨hop, hend⟩ := (h.leads rfl).pending
  exact GoodBlock.mono ⟨hop, hend ▸ List.prefix_rfl⟩ hg.1

/-- The request goes to the end of the pending block. -/
theorem Leads.add (h : Leads g o) (req : Request) :
    1 ≤ o.pending.opNumber ∧ Block.slots { o.pending with request := o.pending.request ++ [req] } =
      (g ++ [some req]).drop (o.pending.opNumber - 1) := by
  refine ⟨h.pending.1, ?_⟩
  rw [List.drop_append_of_le_length h.lt.le, ← h.pending.2]
  simp [Block.slots]

/-- The primary takes a request. -/
theorem assign_spec {n : Nat} (h : Running g primary s.outline) (req : Request) :
    invariant.Spec n primary g (assign E req) s fun _ g' s' => Running g' primary s'.outline := by
  rw [assign, spec_get_bind]
  refine Spec.bind (J := fun _ g' s' => g' = g ++ [some req] ∧
    s'.outline = { s.outline with slots := s.outline.slots ++ [some req] })
    (spec_of_emits (emits_append _) ?_) fun _ g' s' _ hs' => ?_
  · refine (append_spec _ s).mono (fun _ s' _ hs' => ?_) fun s' _ hs' => hs'.2 ▸ h.halts
    exact ⟨g ++ [some req], ⟨List.prefix_append .., fun hr => (hr rfl).elim⟩, rfl, hs'.2⟩
  · obtain ⟨rfl, hout⟩ := hs'
    have hgrow : Running (g ++ [some req]) primary ((s'.addPending req).ensureStarted .closeBatch).outline := by
      rw [outline_ensureStarted, outline_addPending, hout]
      exact h.grow (some req) _ ((h.leads rfl).add req)
    rw [spec_modify_bind, spec_modify_bind, spec_get_bind, spec_when]
    exact ⟨fun _ => closeBatch_spec hgrow, fun _ => Ends.same hgrow⟩

/-- A request, at any replica. -/
theorem handleRequest_spec {n r : Nat} (hE : E.replicaIdx = r) (h : Running g r s.outline) (remote : Addr)
    (req : Request) :
    invariant.Spec n r g (handleRequest E remote req) s fun _ g' s' => Running g' r s'.outline := by
  rw [handleRequest, spec_get_bind]
  cases s.standing req with
  | late => exact spec_pure.mpr (Ends.same h)
  | again reply =>
    refine spec_whenSome.mpr ⟨fun m _ => spec_emit.mpr (Ends.sends h fun p hp b hb => ?_), fun _ => Ends.same h⟩
    exact (blockless_toClient remote m n r b p hp hb).elim
  | fresh =>
    have h₁ : Running g r (s.requested remote req).outline := by rwa [outline_requested]
    refine spec_modify_bind.mpr (spec_when.mpr ⟨fun hp => ?_, fun _ => Ends.same h₁⟩)
    obtain rfl : r = primary := hE.symm.trans hp
    exact assign_spec h₁ req

/-! ### Runs -/

variable {G : Group}

/-- The message makes the replica enter the next view. -/
def Enters (f : Nat) (s : Replica) : Message → Prop
  | .request _ => False
  | .generic b => s.newer b.justify.opNumber
  | .vote m => s.newer m.opNumber ∧ 2 * f ≤ (s.votes m).size

/-- The replica has operation `k` in its log, or may get it with the message. -/
def Reaches (s : Replica) (k : Nat) : Message → Prop
  | .generic b => k ≤ s.log.lastOpnum ∨ b.opNumber = s.log.lastOpnum + 1
  | _ => k ≤ s.log.lastOpnum

/-- If replica `r` now begins to execute, nothing that the primary has logged comes before. -/
def FromFirst (G : Group) (s : Sys) (r : Nat) (m : Message) : Prop :=
  Enters G.config.f (s.replica r) m → ∀ c ∈ (s.replica r).lockedQC, c.opNumber ≠ 0 →
    (s.replica r).executed = [] → Reaches (s.replica r) c.opNumber m →
    ∀ e ∈ (s.replica primary).log.entries.take (c.opNumber - 1), e.state = .noop

/-- In this step. -/
def BeginsFirst (G : Group) (s : Sys) : Event → Prop
  | .client r _ k => FromFirst G s r k.message
  | .deliver i => ∀ p ∈ s.net[i]?, FromFirst G s p.dst p.msg
  | .timeout _ _ => True

/-- Empty entries have empty slots. -/
theorem slots_take_none {l : Log} {k : Nat} (h : ∀ e ∈ l.entries.take k, e.state = .noop) :
    ∀ x ∈ (slots l).take k, x = none := by
  intro x hx
  rw [slots, ← List.map_take] at hx
  obtain ⟨e, he, rfl⟩ := List.mem_map.mp hx
  exact if_pos (h e he)

theorem receiveMessage_spec {sys : Sys} {r : Nat} (h : Running g r (sys.replica r).outline)
    (hg : slots (sys.replica primary).log = g) {m : Message} (hm : ∀ b, m = .generic b → GoodBlock g b)
    (hfirst : FromFirst G sys r m) (remote : Addr) :
    invariant.Spec G.config.n r g (receiveMessage (G.env r) remote m) (sys.replica r)
      fun _ g' s' => Running g' r s'.outline := by
  cases m with
  | request req => exact handleRequest_spec (E := G.env r) rfl h remote req
  | vote m =>
    refine spec_of_emits (emits_handleVote (E := G.env r) m) ?_
    refine (handleVote_spec h fun hnew hq c hc h0 hnil hlen => ?_).mono
      (fun _ _ _ h => ⟨g, invariant.refl r g, h⟩) fun _ _ h => h
    rw [← hg]
    have hreach : c.opNumber ≤ (sys.replica r).log.lastOpnum := by rwa [lastOpnum_eq_slots]
    exact slots_take_none (hfirst ⟨hnew, hq⟩ c hc h0 hnil hreach)
  | generic b =>
    refine spec_of_emits (emits_handleGeneric (E := G.env r) b) ?_
    by_cases hr : r = primary
    · rw [receiveMessage, handleGeneric, if_pos (show (G.env r).isPrimary from hr)]
      exact h.halts
    · refine (handleGeneric_spec (E := G.env r) rfl hr h (hm b rfl) fun hnew c hc h0 hnil hlen => ?_).mono
        (fun _ _ _ h => ⟨g, invariant.refl r g, h⟩) fun _ _ h => h
      rw [← hg]
      exact slots_take_none (hfirst hnew c hc h0 hnil hlen)

theorem timeout_spec {r : Nat} (h : Running g r s.outline) (t : Timer) :
    invariant.Spec G.config.n r g (timeout (G.env r) t) s fun _ g' s' => Running g' r s'.outline := by
  cases t with
  | resendVote =>
    refine spec_of_emits (emits_get.bind fun _ => emits_sendVote _) ?_
    simp only [timeout, sendVote, sat_bind, sat_get, sat_emit, sat_modify]
    exact ⟨g, invariant.refl r g, h⟩
  | closeBatch =>
    by_cases hr : r = primary
    · subst hr
      exact closeBatch_spec h
    · rw [timeout, closeBatch, if_pos (show ¬ (G.env r).isPrimary from hr)]
      exact spec_abort.mpr (Ends.same h.halts)

/-- At the start the primary has logged the first empty entry. -/
theorem holds_initial : invariant.Holds G.config.n [none] (Net.Sys.initial G.protocol) where
  running r _ _ := by
    by_cases hr : r = primary
    · subst hr
      refine ⟨⟨List.prefix_rfl, (fun _ hx => by cases hx), (fun _ hc => by cases hc), Or.inl rfl⟩, fun _ => ⟨rfl, ?_⟩⟩
      exact ⟨le_rfl, rfl⟩
    · have hlog : (Replica.initial (G.env r)).log = Log.empty := if_neg hr
      refine ⟨⟨?_, (fun _ hx => by cases hx), (fun _ hc => by cases hc), Or.inl rfl⟩, fun h => (hr h).elim⟩
      show slots (Replica.initial (G.env r)).log <+: [none]
      rw [hlog]
      exact List.nil_prefix
  halted _ _ hs := by cases hs
  packet _ hp := by cases hp

/-- In every run whose steps are of this kind, for the primary's log. -/
theorem holds_of_run {past : List Sys} {s : Sys} (hr : Run G.system (BeginsFirst G) past s) :
    ∃ g, invariant.Holds G.config.n g s := by
  refine hr.invariant (I := fun _ s => ∃ g, invariant.Holds G.config.n g s) ⟨_, holds_initial⟩ ?_
  rintro _ s e s' _ ⟨g, h⟩ hc hst
  obtain ⟨r, m, hm, hr, hlive, rfl⟩ := Net.Sys.step_eq_some hst
  have hrun := h.running r hr hlive
  have hg : slots (s.replica primary).log = g := by
    have h0 : primary < G.config.n := Nat.zero_lt_of_lt hr
    cases hstop : s.stopped primary with
    | false => exact ((h.running primary h0 hstop).leads rfl).slots
    | true => exact (h.halted primary h0 hstop).leads rfl
  suffices hspec : invariant.Spec G.config.n r g m (s.replica r) fun _ g' t => Running g' r t.outline by
    obtain ⟨g', -, h'⟩ := Net.GhostInvariant.step h hspec
    exact ⟨g', h'⟩
  rcases Net.Event.of_handler hm with ⟨c, k, rfl, rfl⟩ | ⟨i, p, rfl, hp, rfl, rfl⟩ | ⟨t, rfl, -, rfl⟩
  · refine receiveMessage_spec hrun hg (fun b hb => ?_) hc _
    cases k <;> cases hb
  · exact receiveMessage_spec hrun hg (h.packet p (List.mem_of_getElem? hp)) (hc p hp) _
  · exact timeout_spec hrun t

/-- In every run in which no replica begins to execute behind the first request: each has executed the
    requests at the start of its log, in order, and what two replicas have executed begins alike. -/
theorem executes_without_holes {past : List Sys} {s : Sys} (hr : Run G.system (BeginsFirst G) past s) :
    (∀ r < G.config.n, ∃ k, (s.replica r).executed = operations ((slots (s.replica r).log).take k)) ∧
    ∀ r < G.config.n, ∀ r' < G.config.n, (s.replica r).executed <+: (s.replica r').executed ∨
      (s.replica r').executed <+: (s.replica r).executed := by
  obtain ⟨g, h⟩ := holds_of_run hr
  have hall : ∀ r < G.config.n, Executed g r (s.replica r).outline := fun r hr => by
    cases hstop : s.stopped r with
    | false => exact (h.running r hr hstop).halts
    | true => exact h.halted r hr hstop
  refine ⟨fun r hr => (hall r hr).done, fun r hr r' hr' => ?_⟩
  obtain ⟨k, hk⟩ := (hall r hr).of_log
  obtain ⟨k', hk'⟩ := (hall r' hr').of_log
  have hk : (s.replica r).executed = operations (g.take k) := hk
  have hk' : (s.replica r').executed = operations (g.take k') := hk'
  rw [hk, hk']
  exact operations_take_or g k k'

instance (f : Nat) (s : Replica) : ∀ m, Decidable (Enters f s m)
  | .request _ => inferInstanceAs (Decidable False)
  | .generic b => inferInstanceAs (Decidable (s.newer b.justify.opNumber))
  | .vote m => inferInstanceAs (Decidable (s.newer m.opNumber ∧ 2 * f ≤ (s.votes m).size))

instance (s : Replica) (k : Nat) : ∀ m, Decidable (Reaches s k m)
  | .request _ => inferInstanceAs (Decidable (k ≤ s.log.lastOpnum))
  | .generic b => inferInstanceAs (Decidable (k ≤ s.log.lastOpnum ∨ b.opNumber = s.log.lastOpnum + 1))
  | .vote _ => inferInstanceAs (Decidable (k ≤ s.log.lastOpnum))

instance (G : Group) (s : Sys) (r : Nat) (m : Message) : Decidable (FromFirst G s r m) := by
  unfold FromFirst
  infer_instance

instance (G : Group) (s : Sys) : ∀ e, Decidable (BeginsFirst G s e)
  | .client r _ k => inferInstanceAs (Decidable (FromFirst G s r k.message))
  | .deliver i => inferInstanceAs (Decidable (∀ p ∈ s.net[i]?, FromFirst G s p.dst p.msg))
  | .timeout _ _ => isTrue trivial

/-- Four replicas, of which one may be faulty; a block has one request. -/
def fourReplicas : Group := { config := { n := 4, f := 1 }, batchSize := 1, app := fun _ => .default }

/-- The requests of one client. -/
def requestOf (i : Nat) : Request := { op := "", clientid := 1, clientreqid := i }

/-- The votes for each block arrive before the next block. -/
def steady : List Event :=
  [.timeout 1 .resendVote, .timeout 2 .resendVote, .deliver 0, .deliver 1,
    .client 0 1 (.request (requestOf 1)), .deliver 2, .deliver 3, .deliver 5, .deliver 6,
    .client 0 1 (.request (requestOf 2)), .deliver 7, .deliver 8, .deliver 10, .deliver 11,
    .client 0 1 (.request (requestOf 3)), .deliver 12, .deliver 13, .deliver 15, .deliver 16]

theorem executes_without_holes_steady :
    ∃ s : Sys, (s.replica 0).executed = [(2, requestOf 1)] ∧
      (∃ k, (s.replica 0).executed = operations ((slots (s.replica 0).log).take k)) ∧
      ((s.replica 0).executed <+: (s.replica 1).executed ∨
        (s.replica 1).executed <+: (s.replica 0).executed) := by
  obtain ⟨past, s, hr, hs⟩ := Run.exists_of_exec fourReplicas.system (BeginsFirst fourReplicas) steady
    (fun s => (s.replica 0).executed = [(2, requestOf 1)]) (by decide +kernel)
  have hall := executes_without_holes hr
  exact ⟨s, of_decide_eq_true hs, hall.1 0 (by decide), hall.2 0 (by decide) 1 (by decide)⟩

/-- The votes for the second block overtake those for the first. -/
def overtaking : List Event :=
  [.timeout 1 .resendVote, .timeout 2 .resendVote, .deliver 0, .deliver 1,
    .client 0 1 (.request (requestOf 1)), .client 0 1 (.request (requestOf 2)),
    .deliver 2, .deliver 3, .deliver 5, .deliver 6, .deliver 10, .deliver 11,
    .client 0 1 (.request (requestOf 3)), .deliver 12, .deliver 13, .deliver 15, .deliver 16,
    .client 0 1 (.request (requestOf 4)), .deliver 17, .deliver 18, .deliver 20, .deliver 21]

/-- The primary begins with the second request. -/
theorem overtaking_skips_first :
    ∃ past s, Run fourReplicas.system (fun _ _ => True) past s ∧
      ¬ ∃ k, (s.replica 0).executed = operations ((slots (s.replica 0).log).take k) := by
  obtain ⟨past, s, hr, hs⟩ := Run.exists_of_exec fourReplicas.system (fun _ _ => True) overtaking
    (fun s => (s.replica 0).executed = [(4, requestOf 2)] ∧
      (slots (s.replica 0).log).take 2 = [none, some (requestOf 1)]) (by decide +kernel)
  obtain ⟨hexec, hlog⟩ := of_decide_eq_true hs
  refine ⟨past, s, hr, fun ⟨k, hk⟩ => ?_⟩
  rw [hexec] at hk
  -- the first request would have been executed before it
  have hpre := operations_take_or (slots (s.replica 0).log) 2 k
  rw [hlog, ← hk] at hpre
  revert hpre
  decide

end Dsnet.HotStuff
