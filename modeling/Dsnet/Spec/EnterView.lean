import Dsnet.Spec.Views

/-! How replicas enter a view: the leader with the merged log (`completeViewChange`), the others with what
    a StartView message brings (`installStartView`), from where they tell the leader that they are in.
    They have its hash at the last opnum of the message if that was not committed before, or if the
    hashes agree there (`MeetsCommitted`). -/

namespace Dsnet.Spec.Views
open Handler Net.GhostInvariant

variable {G : Group} {g g' : Snapshot} {r v : Nat} {s t : Replica}

/-- Does the replica heed a StartView message for view `v`? -/
def Heeds (s : Replica) (v : Nat) : Prop := s.view < v ∨ (s.view = v ∧ s.status = .viewChange)

/-- Where a StartView message ends with an opnum that is committed already, its hash is the log's. -/
def MeetsCommitted (s : Replica) (m : StartViewMessage) : Prop :=
  ∀ e ∈ m.entries.getLast?, e.opnum = s.lastCommitted →
    (s.log.find s.lastCommitted).map LogEntry.hash = some e.hash

/-! ### Entering -/

theorem enterViewTimers_eq (E : Env) (s : Replica) :
    ∃ a k, enterViewTimers E s = { s with active := a, lastSync := k } := by
  rw [enterViewTimers]
  split_ifs
  · exact ⟨_, _, rfl⟩
  · exact ⟨_, s.lastSync, rfl⟩

/-- A replica whose log is ready for the view. -/
structure Ready (G : Group) (g : Snapshot) (r v : Nat) (s : Replica) : Prop where
  well : WellLogged G.Genuine G.sha1 s
  seen : ∀ u l, g.joined r u l → Sound G.Genuine G.sha1 l ∧
    (Seen g r u l ∨ (v = u ∧ l <+: stamps s.log))
  joins : ∀ u l, g.joined r u l → u < v ∨ (v = u ∧ l <+: stamps s.log)
  leads : G.config.getLeaderIndex v = r → g.viewLog v = stamps s.log
  unstarted : ∀ u, G.config.getLeaderIndex u = r → v < u → g.viewLog u = []
  required : s.inViewQuorum.numRequired = G.config.quorumSize - 1

/-- The replica enters the view and handles the requests that have waited. -/
theorem enterView_meets (h : Ready G g r v s) :
    Meets G g r (enterView (G.env r) v) s fun _ g' t => Member G g' r t ∧ t.status = .normal ∧
      t.view = v ∧ stamps s.log <+: stamps t.log := by
  rw [enterView]
  simp only [spec_modify_bind, spec_get_bind]
  obtain ⟨a, k, hk⟩ := enterViewTimers_eq (G.env r) { s with view := v, status := .normal }
  rw [hk]
  refine Spec.mono (Member.tame ?_ (Tame.forEach ?_ ?_)) fun _ _ _ _ ht => ht
  · exact
      { seen := fun u l hl => (h.seen u l hl).imp_right fun hs => hs.imp_right fun hs =>
          ⟨hs.1, rfl, hs.2⟩
        well := { h.well with pending := fun x hx => by cases hx }
        joins := fun u l hl => (h.joins u l hl).imp_right fun hs => ⟨hs.1, rfl, hs.2⟩
        leads := fun _ hlead => h.leads hlead
        unstarted := fun u hlead hu => by
          rcases hu with hu | ⟨_, hu⟩
          · exact h.unstarted u hlead hu
          · exact absurd rfl hu
        required := h.required
        inViews := fun u x hx => by cases hx
        dvcs := fun u x hx => by cases hx }
  · exact fun x hx t ht => handleRequest_tame ht (h.well.pending x hx)
  · exact { h.well with pending := fun x hx => by cases hx }

/-- Installing sends nothing that the invariant speaks of. -/
theorem meets_of_installing {α : Type} {m : SpecHandler α} {Q : α → Replica → Prop}
    (hseen : AllSeen G g r) (hm : Installing m s Q) :
    Meets G g r m s fun a g' t => g' = g ∧ Q a t := by
  have hquiet {o : List Output} (ho : Quiet o) :
      ∀ x ∈ o, ∀ p ∈ Net.packets G.config.n r x, GoodPacket G g p := by
    intro x hx
    obtain ⟨a, m, rfl⟩ := ho x hx
    exact good_of_plain trivial
  refine Sat.mono hm ?_ ?_
  · rintro a t o ⟨ho, ht⟩
    exact ⟨g, .refl r g, ⟨rfl, ht⟩, hquiet ho⟩
  · exact fun t o ho => ⟨g, .refl r g, hseen.node, hquiet ho⟩

/-- Before a replica enters a view, it has not joined it, and it has not led it. -/
theorem Member.before (h : Member G g r s) (hv : Heeds s v) :
    (∀ u l, g.joined r u l → u < v) ∧
      ∀ u, G.config.getLeaderIndex u = r → v ≤ u → g.viewLog u = [] := by
  refine ⟨fun u l hl => ?_, fun u hlead hu => h.unstarted u hlead ?_⟩
  · rcases h.joins u l hl with hlt | ⟨rfl, hst, _⟩
    · rcases hv with hv | ⟨rfl, _⟩
      · exact hlt.trans hv
      · exact hlt
    · rcases hv with hv | ⟨_, hv⟩
      · exact hv
      · rw [hst] at hv
        cases hv
  · rcases hv with hv | ⟨rfl, hv⟩
    · exact Or.inl (lt_of_lt_of_le hv hu)
    · rcases Nat.eq_or_lt_of_le hu with rfl | hlt
      · exact Or.inr ⟨rfl, by rw [hv]; exact fun h => by cases h⟩
      · exact Or.inl hlt

/-! ### The leader -/

/-- A piece of the leader's log that reaches its end. -/
theorem Member.goodStartView {start : Nat} {lastcommitted : Nat} (h : Member G g r s)
    (hst : s.status = .normal) (hlead : G.config.getLeaderIndex s.view = r)
    (hstart : s.log.entries = [] ∨ max start 1 ≤ s.log.entries.length) :
    GoodStartView G g { view := s.view, lastspeculative := s.lastSpeculative
                        lastcommitted := lastcommitted, entries := s.log.dump start } where
  genuine _ he := genuine_of_stamps h.well.sound.genuine _ (List.mem_of_mem_drop he)
  numbered := ⟨max start 1 - 1, by
    rw [Nat.sub_add_cancel (le_max_right ..)]
    exact Log.numberedFrom_dump s.log start⟩
  last := by
    simp only
    rcases hstart with hnil | hstart
    · left
      rw [h.well.full, Log.dump, hnil]
      exact ⟨rfl, List.drop_nil⟩
    · right
      have hpos : 0 < s.log.entries.length := lt_of_lt_of_le (by omega) hstart
      obtain ⟨e, he⟩ : ∃ e, s.log.entries[s.log.entries.length - 1]? = some e :=
        ⟨_, List.getElem?_eq_getElem (by omega)⟩
      have hop := s.log.numbered _ _ he
      refine ⟨e, ?_, by rw [hop, h.well.full]; omega, ?_⟩
      · rw [Log.dump, List.getLast?_drop, if_neg (by omega), List.getLast?_eq_getElem?, he]
      · rw [h.leads hst hlead, h.well.full]
        refine hashAt_eq_some.mpr ⟨hpos, (e.request, e.hash), ?_, rfl⟩
        rw [stamps, List.getElem?_map, he]
        rfl

/-- What `DoViewChange` messages start from is in the log. -/
theorem fudgedStart_le {n k : Nat} (h : n ≤ k) (hk : 1 ≤ k) : max (fudgedStart n) 1 ≤ k := by
  rw [fudgedStart]
  split_ifs <;> omega

theorem completeViewChange_meets {m : DoViewChangeMessage} {maxStart : Nat}
    {msgs : StdMap Nat DoViewChangeMessage} (hseen : AllSeen G g r) (h : Member G g r s)
    (hlead : G.config.getLeaderIndex m.view = r) (hview : s.view = m.view)
    (hst : s.status = .viewChange)
    (hmsgs : ∀ x ∈ msgs.toList, ∀ e ∈ x.2.entries, G.Genuine e.request) :
    Meets G g r (completeViewChange (G.env r) m maxStart msgs) s fun _ g' t => Member G g' r t := by
  obtain ⟨hbefore, hempty⟩ := h.before (Or.inr ⟨hview, hst⟩)
  rw [completeViewChange]
  simp only [spec_get_bind, spec_ofOption_bind]
  refine ⟨fun newLog hmerge => ?_, fun _ => Ends.same hseen.node⟩
  refine Spec.bind (meets_of_installing hseen
    (installLog_installing (E := G.env r) h.well (mergeLogs_requests hmerge hmsgs))) ?_
  rintro _ g' t _ ⟨rfl, ht, hinst, _⟩
  rw [spec_get_bind]
  have hadv : Advances G r g' (g'.write m.view (stamps t.log)) := by
    refine ⟨rfl, fun u hu => if_neg ?_, fun u => ?_, fun _ _ => rfl, fun _ _ => id⟩
    · rintro rfl
      exact hu hlead
    by_cases hu : u = m.view
    · subst hu
      rw [hempty _ hlead (Nat.le_refl _)]
      exact List.nil_prefix
    · rw [show (g'.write m.view (stamps t.log)).viewLog u = g'.viewLog u from if_neg hu]
  refine Spec.advance hadv (Spec.bind (enterView_meets (v := m.view) ?_) ?_)
  · exact
      { well := ht
        seen := fun u l hl => (hseen u l hl).imp_right fun hs => Or.inl (hs.mono hadv)
        joins := fun u l hl => Or.inl (hbefore u l hl)
        leads := fun _ => if_pos rfl
        unstarted := fun u hu hlt =>
          (if_neg (ne_of_gt hlt)).trans (hempty u hu hlt.le)
        required := by
          rw [hinst.inView]
          exact h.required }
  · rintro _ g'' u _ ⟨hu, hst', hview', hlog⟩
    simp only [spec_get_bind, spec_assert_bind, spec_emit]
    have hlead' : G.config.getLeaderIndex u.view = r := by rw [hview', hlead]
    refine ⟨fun _ => Ends.sends hu ?_, fun _ => Ends.same hu.toNode⟩
    intro p hp
    obtain ⟨i, _, rfl⟩ := List.mem_map.mp hp
    refine hu.goodStartView hst' hlead' ?_
    rcases Nat.eq_zero_or_pos u.log.entries.length with h0 | hpos
    · exact Or.inl (List.length_eq_zero_iff.mp h0)
    · refine Or.inr (fudgedStart_le ?_ hpos)
      rw [ht.full, ← length_stamps, ← length_stamps]
      exact hlog.length_le

/-! ### DoViewChange messages -/

theorem mergeIfQuorum_meets {m : DoViewChangeMessage} {maxStart : Nat} (hseen : AllSeen G g r)
    (h : Member G g r s) (hlead : G.config.getLeaderIndex m.view = r) (hview : s.view = m.view)
    (hst : s.status = .viewChange) :
    Meets G g r (mergeIfQuorum (G.env r) m maxStart) s fun _ g' t => Member G g' r t := by
  rw [mergeIfQuorum]
  simp only [spec_get_bind, spec_whenSome]
  refine ⟨fun msgs hmsgs => ?_, fun _ => Ends.same h⟩
  obtain ⟨rfl, _⟩ := QuorumSet.checkForQuorum_eq_some.mp hmsgs
  exact completeViewChange_meets hseen h hlead hview hst (h.dvcs _)

theorem sendFillDVCGapMessage_meets {i u : Nat} (hseen : AllSeen G g r) :
    Meets G g r (sendFillDVCGapMessage (G.env r) i u) s fun _ g' t => g' = g ∧ t = s := by
  rw [sendFillDVCGapMessage]
  simp only [spec_get_bind, spec_assert_bind, spec_emit]
  exact ⟨fun _ => Ends.sends ⟨rfl, rfl⟩ (good_of_plain trivial), fun _ => Ends.same hseen.node⟩

theorem needFillDVCGap_meets {u : Nat} (hseen : AllSeen G g r) (h : Member G g r s) :
    Meets G g r (needFillDVCGap (G.env r) u) s fun _ g' t => Member G g' r t := by
  rw [needFillDVCGap]
  simp only [spec_get_bind, spec_assert_bind]
  refine ⟨fun _ => Spec.bind (Spec.forEach (fun _ g' t => g' = g ∧ t = s) ?_ ⟨rfl, rfl⟩) ?_,
    fun _ => Ends.same hseen.node⟩
  · rintro ⟨i, _⟩ rest _ _ ⟨rfl, rfl⟩
    exact spec_when.mpr ⟨fun _ => sendFillDVCGapMessage_meets hseen, fun _ => Ends.same ⟨rfl, rfl⟩⟩
  · rintro _ g' t _ ⟨rfl, rfl⟩
    refine Ends.same ((h.withDvcs (q := t.doViewChangeQuorum.clear.add u r
      (((t.doViewChangeQuorum.messages u).find? r).getD emptyDoViewChange)) fun v x hx => ?_).same
        ⟨rfl, rfl, rfl, h.well.committed, rfl, rfl, rfl, rfl⟩)
    rcases QuorumSet.mem_messages_add hx with ⟨_, rfl⟩ | hx
    · cases hmine : (t.doViewChangeQuorum.messages u).find? r with
      | none => exact fun e he => by cases he
      | some mine => exact h.dvcs u _ (StdMap.mem_of_find? hmine)
    · cases hx

theorem handleDoViewChange_meets {m : DoViewChangeMessage} (hseen : AllSeen G g r)
    (h : Member G g r s) (hm : ∀ e ∈ m.entries, G.Genuine e.request) :
    Meets G g r (handleDoViewChange (G.env r) m) s fun _ g' t => Member G g' r t := by
  rw [handleDoViewChange]
  simp only [spec_get_bind, spec_ite, spec_pure]
  refine ⟨fun _ => Ends.same h, fun hge => ⟨fun _ => Ends.same h, fun hne => ?_⟩⟩
  refine Spec.bind (J := fun _ g' t => g' = g ∧ Member G g r t ∧ t.view = m.view ∧
    t.status = .viewChange) ?_ ?_
  · refine spec_when.mpr ⟨fun hgo => ?_, fun hstay => Ends.same ⟨rfl, h, ?_⟩⟩
    · refine startViewChange_meets hseen h ?_
      rcases hgo with hst | hgt
      · exact lt_of_le_of_ne (not_lt.mp hge) fun heq => hne ⟨heq.symm, hst⟩
      · exact hgt
    · obtain ⟨hst, hle⟩ := not_or.mp hstay
      exact ⟨Nat.le_antisymm (not_lt.mp hge) (not_lt.mp hle), not_not.mp hst⟩
  rintro _ g' t _ ⟨rfl, ht, hview, hst⟩
  simp only [spec_assert_bind, spec_get_bind]
  refine ⟨fun hlead => spec_ite.mpr ⟨fun _ => spec_ite.mpr ⟨fun _ => ?_, fun _ => ?_⟩, fun _ => ?_⟩,
    fun _ => Ends.same hseen.node⟩
  · refine (sendFillDVCGapMessage_meets hseen).mono ?_
    rintro _ _ _ _ ⟨rfl, rfl⟩
    exact ht
  · exact spec_modify_bind.mpr (mergeIfQuorum_meets hseen (ht.addDvc hm) hlead hview hst)
  · refine spec_modify_bind.mpr (spec_ofOption_bind.mpr ⟨fun start _ => ?_, fun _ =>
      Ends.same hseen.node⟩)
    cases start with
    | none => exact needFillDVCGap_meets hseen (ht.addDvc hm)
    | some maxStart => exact mergeIfQuorum_meets hseen (ht.addDvc hm) hlead hview hst

/-! ### StartView messages -/

/-- What a StartView message says of the log it installs. -/
theorem GoodStartView.installed {m : StartViewMessage} (hm : GoodStartView G g m)
    (hmeets : MeetsCommitted s m)
    (ht : WellLogged G.Genuine G.sha1 t) (hinst : Installs s t)
    (hspec : t.lastSpeculative = lastOpnum m.entries)
    (hlast : ∀ k, Log.NumberedFrom (k + 1) m.entries → ∀ e, m.entries.getLast? = some e →
      s.lastCommitted < e.opnum → hashAt (stamps t.log) e.opnum = some e.hash) :
    t.lastSpeculative = m.lastspeculative ∧ (m.lastspeculative ≠ 0 → ∃ hash,
      hashAt (stamps t.log) m.lastspeculative = some hash ∧
        hashAt (g.viewLog m.view) m.lastspeculative = some hash) := by
  rcases hm.last with ⟨h0, hnil⟩ | ⟨e, he, hop, hhash⟩
  · refine ⟨?_, fun hne => absurd h0 hne⟩
    rw [hspec, hnil, h0]
    rfl
  · have hlen : t.lastSpeculative = m.lastspeculative := by
      rw [hspec, lastOpnum, he]
      exact hop
    refine ⟨hlen, fun hne => ⟨e.hash, ?_, hhash⟩⟩
    obtain ⟨k, hnum⟩ := hm.numbered
    rw [← hop]
    rcases Nat.lt_or_ge s.lastCommitted e.opnum with hlt | hge
    · exact hlast k hnum e he hlt
    · -- the opnum is committed, and is the last one
      have hc : e.opnum = s.lastCommitted := by
        have := ht.committed
        have := hinst.committed
        have := ht.full
        omega
      have hown := hmeets e he hc
      rw [find_eq_hashAt, ← hashAt_take (Nat.le_refl _)] at hown
      rw [hc]
      exact hashAt_mono hinst.kept hown

theorem installStartView_meets {m : StartViewMessage} (hr : r < G.config.n) (hseen : AllSeen G g r)
    (h : Member G g r s) (hm : GoodStartView G g m) (hmeets : MeetsCommitted s m)
    (hlead : G.config.getLeaderIndex m.view ≠ r)
    (hview : Heeds s m.view) :
    Meets G g r (installStartView (G.env r) m) s fun _ g' t => Member G g' r t := by
  obtain ⟨hbefore, hempty⟩ := h.before hview
  rw [installStartView]
  refine spec_assert_bind.mpr ⟨fun _ => ?_, fun _ => Ends.same hseen.node⟩
  refine Spec.bind (meets_of_installing hseen
    (installLog_installing (E := G.env r) h.well hm.genuine)) ?_
  rintro _ g' t _ ⟨rfl, ht, hinst, hspec, hlast⟩
  obtain ⟨hlen, hhash⟩ := hm.installed hmeets ht hinst hspec hlast
  refine Spec.bind (meets_of_installing hseen (commitUpTo_installing (E := G.env r) ht)) ?_
  rintro _ g t' _ ⟨rfl, ht', hinst', hspec', hcommitted, hstamps⟩
  -- it joins the view with the log that it has now
  have hadv : Advances G r g (g.join r m.view (stamps t'.log)) :=
    ⟨rfl, fun _ _ => rfl, fun _ => List.prefix_rfl, fun x hx => by
      funext u l
      simp [Snapshot.join, hx], fun _ _ => Or.inl⟩
  have hgood : GoodInView G (g.join r m.view (stamps t'.log)) r m.view m.lastspeculative := by
    refine ⟨hr, hlead.symm, _, Or.inr ⟨rfl, rfl, rfl⟩, fun h0 => ?_⟩
    rw [hstamps]
    exact hhash h0
  have hready : Ready G (g.join r m.view (stamps t'.log)) r m.view t' :=
    { well := ht'
      seen := fun u l hl => by
        rcases hl with hl | ⟨_, rfl, rfl⟩
        · exact (hseen u l hl).imp_right fun hs => Or.inl (hs.mono hadv)
        · exact ⟨ht'.sound, Or.inr ⟨rfl, List.prefix_rfl⟩⟩
      joins := fun u l hl => by
        rcases hl with hl | ⟨_, rfl, rfl⟩
        · exact Or.inl (hbefore u l hl)
        · exact Or.inr ⟨rfl, List.prefix_rfl⟩
      leads := fun hl => absurd hl hlead
      unstarted := fun u hu hlt => hempty u hu hlt.le
      required := by
        rw [hinst'.inView, hinst.inView]
        exact h.required }
  refine Spec.advance hadv (Spec.emit_bind (List.forall_mem_singleton.mpr hgood) ?_)
  simp only [spec_get_bind, spec_assert_bind]
  refine ⟨fun _ => ⟨fun _ => ?_, fun hlt => ?_⟩, fun hne => ?_⟩
  · refine Spec.bind (enterView_meets hready) ?_
    rintro _ g' u _ ⟨hu, _⟩
    exact spec_get_bind.mpr (spec_assert.mpr ⟨fun _ => Ends.same hu, fun _ => Ends.same hu.toNode⟩)
  · exact absurd (hcommitted ▸ le_max_right ..) hlt
  · exact absurd (hspec'.trans hlen) hne

/-- A replica asks for more only when the view's log is longer than what it has committed. -/
theorem GoodStartView.longer {m : StartViewMessage} (hm : GoodStartView G g m)
    (hl : needsLongerLog s m = some true) : s.lastCommitted < (g.viewLog m.view).length := by
  rw [needsLongerLog] at hl
  split at hl
  · cases Option.some.inj hl
  · rename_i first rest hentries
    have hgt : first.opnum > s.lastCommitted + 1 := by
      by_contra hle
      rw [if_neg hle] at hl
      cases Option.some.inj hl
    rcases hm.last with ⟨_, hnil⟩ | ⟨e, he, hop, hhash⟩
    · rw [hentries] at hnil
      cases hnil
    · obtain ⟨k, hnum⟩ := hm.numbered
      rw [hentries] at he hnum
      rw [List.getLast?_eq_getElem?] at he
      have hfirst : first.opnum = k + 1 + 0 := hnum 0 first rfl
      have hlast := hnum _ e he
      have := (hashAt_le hhash).2
      omega

theorem handleStartView_meets {m : StartViewMessage} {remote : Addr} (hr : r < G.config.n)
    (hseen : AllSeen G g r) (h : Member G g r s) (hm : GoodStartView G g m)
    (hmeets : Heeds s m.view → MeetsCommitted s m) :
    Meets G g r (handleStartView (G.env r) remote m) s fun _ g' t => Member G g' r t := by
  rw [handleStartView]
  simp only [spec_get_bind, spec_ite, spec_pure, spec_assert_bind, spec_ofOption_bind]
  refine ⟨fun _ => Ends.same h, fun hge => ⟨fun _ => Ends.same h, fun hne => ⟨fun hlead =>
    ⟨fun longer hlonger => ⟨fun hl => ?_, fun _ => ?_⟩, fun _ => Ends.same hseen.node⟩,
    fun _ => Ends.same hseen.node⟩⟩⟩
  · refine Ends.sends h ?_
    cases remote with
    | client c => simp [Net.packets]
    | replica i =>
      have hlong : needsLongerLog s m = some true := hlonger.trans (congrArg some hl)
      exact List.forall_mem_singleton.mpr (hm.longer hlong)
  · have hheeds : Heeds s m.view := by
      rcases Nat.lt_or_eq_of_le (not_lt.mp hge) with hlt | heq
      · exact Or.inl hlt
      · exact Or.inr ⟨heq, by_contra fun hst => hne ⟨heq.symm, hst⟩⟩
    exact installStartView_meets hr hseen h hm (hmeets hheeds) hlead hheeds

theorem handleFillLogGap_meets {m : FillLogGapMessage} {remote : Addr} (hseen : AllSeen G g r)
    (h : Member G g r s) (hm : m.lastcommitted < (g.viewLog m.view).length) :
    Meets G g r (handleFillLogGap (G.env r) remote m) s fun _ g' t => Member G g' r t := by
  rw [handleFillLogGap]
  simp only [spec_get_bind, spec_ite, spec_pure, spec_assert_bind, spec_emit]
  refine ⟨fun _ => Ends.same h, fun hview => ⟨fun hlead => Ends.sends h ?_,
    fun _ => Ends.same hseen.node⟩⟩
  cases remote with
  | client c => simp [Net.packets]
  | replica i =>
    have hv : m.view = s.view := not_not.mp hview
    have hlead' : G.config.getLeaderIndex s.view = r := hlead
    rw [hv] at hm
    have hst : s.status = .normal := by
      by_contra hst
      rw [h.unstarted s.view hlead' (Or.inr ⟨rfl, hst⟩)] at hm
      exact absurd hm (Nat.not_lt_zero _)
    refine List.forall_mem_singleton.mpr (h.goodStartView hst hlead' (Or.inr ?_))
    rw [h.leads hst hlead', length_stamps] at hm
    omega

/-! ### InView messages -/

theorem handleInView_meets {m : InViewMessage} (hseen : AllSeen G g r) (h : Member G g r s)
    (hm : GoodInView G g m.replicaidx m.view m.lastspeculative) :
    Meets G g r (handleInView (G.env r) m) s fun _ g' t => Member G g' r t := by
  have hadd : Member G g r { s with inViewQuorum := s.inViewQuorum.add m.view m.replicaidx m } :=
    { h with
      well := { h.well with }
      inViews := fun v x hx => by
        rcases QuorumSet.mem_messages_add hx with ⟨rfl, rfl⟩ | hx
        · exact hm
        · exact h.inViews v x hx }
  rw [handleInView]
  simp only [spec_get_bind, spec_ite, spec_pure, spec_assert_bind, spec_modify_bind, spec_whenSome]
  refine ⟨fun _ => Ends.same h, fun _ => ⟨fun _ => ⟨fun _ => ⟨fun msgs _ => ⟨fun _ =>
    ⟨fun _ => Ends.same hadd, fun _ => ?_⟩, fun _ => Ends.same hseen.node⟩, fun _ => Ends.same hadd⟩,
    fun _ => Ends.same hseen.node⟩, fun _ => Ends.same hseen.node⟩⟩
  refine Spec.bind (commitUpTo_meets hseen hadd) ?_
  rintro _ _ t _ ⟨rfl, ht, _⟩
  exact sendSync_meets hseen ht

end Dsnet.Spec.Views
