import Dsnet.Transport.Reassembly

/-! When an assertion of `ProcessPacket` fails on what peers have sent. Those about the size and the header
    of a packet hold for every datagram with something in it (`Framed`); the one about the ids fails for a
    fragment of an older message that arrives while a newer one is put together. -/

namespace Dsnet.Transport

/-- A datagram as `SendMessageInternal` makes them. -/
def Framed (buf : List UInt8) : Prop :=
  (∃ m, buf = word 4 nonfragMagic ++ m) ∨
    ∃ id m start, id < 2 ^ 64 ∧ m.length < 2 ^ 64 ∧ start < m.length ∧ buf = fragment id m start

/-- A fragment with an id smaller than that of the message which is put together. -/
def Older (info : FragInfo) (buf : List UInt8) : Prop :=
  readWord 4 buf = fragMagic ∧ info.msgId ≠ 0 ∧ readWord 8 (buf.drop 4) < info.msgId

instance (info : FragInfo) (buf : List UInt8) : Decidable (Older info buf) :=
  inferInstanceAs (Decidable (_ ∧ _ ∧ _))

/-- What is sent is framed, whatever the counter. -/
theorem sendMessageInternal_framed (last : Nat) (m : Body) : ∀ buf ∈ (sendMessageInternal last m).1, Framed buf := by
  intro buf hbuf
  have hfits := m.fits
  unfold sendMessageInternal at hbuf
  split_ifs at hbuf with hshort
  · exact Or.inl ⟨m.data, List.mem_singleton.mp hbuf⟩
  · obtain ⟨i, hi, rfl⟩ := List.mem_map.mp hbuf
    refine Or.inr ⟨_, m.data, _, Nat.mod_lt _ (Nat.two_pow_pos 64), by omega, ?_, rfl⟩
    have hle : i ≤ (m.data.length - 1) / maxUdpMessageSize := Nat.lt_succ_iff.mp (List.mem_range.mp hi)
    have hmul := (Nat.le_div_iff_mul_le (by decide)).mp hle
    have hmax : maxUdpMessageSize = 9000 := rfl
    omega

/-- The assertion that is left after the header. -/
theorem reassemble_eq_none {info : FragInfo} {id start len : Nat} {payload : List UInt8} :
    reassemble info id start len payload = none ↔ info.msgId ≠ 0 ∧ id < info.msgId := by
  unfold reassemble
  by_cases h0 : info.msgId = 0
  · simp only [h0, if_true]
    split_ifs <;> simp_all
  · simp only [if_neg h0]
    split_ifs with hold <;> simp [h0] <;> omega

/-- `ProcessPacket` stops at an assertion for a datagram with nothing in it, and for an older fragment. -/
theorem processPacket_eq_none {info : FragInfo} {buf : List UInt8} (h : Framed buf) :
    processPacket info buf = none ↔ buf.length = 4 ∨ Older info buf := by
  rcases h with ⟨m, rfl⟩ | ⟨id, m, start, hid, hlen, hstart, rfl⟩
  · have hmagic : readWord 4 (word 4 nonfragMagic ++ m) = nonfragMagic := readWord_word (by decide) _
    have hne : ¬ Older info (word 4 nonfragMagic ++ m) := fun h => absurd (hmagic.symm.trans h.1) (by decide)
    have hsize : (word 4 nonfragMagic ++ m).length = 4 + m.length := by
      rw [List.length_append, length_word]
    unfold processPacket
    rw [hmagic, if_pos rfl]
    split_ifs with hshort
    · simp only [true_iff]
      exact Or.inl (by omega)
    · simp only [false_iff, not_or]
      exact ⟨by omega, hne⟩
  · have hmagic : readWord 4 (fragment id m start) = fragMagic := readWord_word (by decide) _
    have hread : readWord 8 ((fragment id m start).drop 4) = id := by
      rw [fragment, drop_word]
      exact readWord_word (by omega) _
    have hsize : (fragment id m start).length ≠ 4 := by
      simp only [fragment, List.length_append, length_word]
      omega
    rw [processPacket_fragment hid hlen hstart, reassemble_eq_none, Older, hmagic, hread]
    simp [hsize]

/-- Everything on the way is framed. -/
theorem framed_of_run {past : List Net} {s : Net} (h : Run system (fun _ _ => True) past s) :
    ∀ x ∈ s.wire, Framed x.2 := by
  refine Run.invariant (I := fun _ s => ∀ x ∈ s.wire, Framed x.2) (fun x hx => by cases hx) ?_ h
  intro past s e s' _ hs _ hstep
  cases e with
  | send addr m =>
    obtain rfl := Option.some.inj hstep
    intro x hx
    rcases List.mem_append.mp hx with hx | hx
    · exact hs x hx
    · obtain ⟨buf, hbuf, rfl⟩ := List.mem_map.mp hx
      exact sendMessageInternal_framed _ m buf hbuf
  | receive i drop reorder =>
    obtain ⟨x, _, hr⟩ := Option.bind_eq_some_iff.mp hstep
    obtain ⟨⟨info, out⟩, _, rfl⟩ := Option.map_eq_some_iff.mp hr
    cases out <;> exact hs

/-- In every state that sending and receiving lead to, and for every datagram on the way, lost, repeated and
    reordered as they may be: its arrival fails an assertion just when it is that of an empty message, or a
    fragment of an older message than the one that is put together for its sender. -/
theorem receive_asserts_iff {past : List Net} {s : Net} (h : Run system (fun _ _ => True) past s) {i addr : Nat}
    {buf : List UInt8} (hbuf : s.wire[i]? = some (addr, buf)) (drop reorder : Bool) :
    system.step s (.receive i drop reorder) = none ↔ buf.length = 4 ∨ Older (s.fragInfo addr) buf := by
  have hframed := framed_of_run h _ (List.mem_of_getElem? hbuf)
  rw [← processPacket_eq_none hframed]
  show (s.wire[i]?.bind fun x => s.receive x.1 x.2 drop reorder) = none ↔ _
  rw [hbuf, Option.bind_some, Net.receive, Option.map_eq_none_iff]

/-- A message in one datagram. -/
theorem receive_asserts_iff_short : ∃ past s, Run system (fun _ _ => True) past s ∧
    s.wire[0]? = some (5, word 4 nonfragMagic ++ [1, 2, 3]) ∧
      system.step s (.receive 0 false false) ≠ none := by
  have hrun : Run system (fun _ _ => True) [system.init] (system.init.send 5 ⟨[1, 2, 3], by decide⟩) :=
    .next (e := .send 5 ⟨[1, 2, 3], by decide⟩) .start trivial rfl
  refine ⟨_, _, hrun, rfl, fun hnone => ?_⟩
  rcases (receive_asserts_iff hrun (i := 0) rfl false false).mp hnone with hsize | holder
  · exact absurd hsize (by decide)
  · exact holder.2.1 rfl

/-- A message that takes one fragment. -/
theorem send_one_fragment {m : Body} (h : m.data.length = maxUdpMessageSize) :
    sendMessageInternal 0 m = ([fragment 1 m.data 0], 1) := by
  rw [sendMessageInternal, if_neg (by omega), fragments, h]
  rfl

/-- One that takes two. -/
theorem send_two_fragments {m : Body} (h : m.data.length = maxUdpMessageSize + 1) :
    sendMessageInternal 1 m = ([fragment 2 m.data 0, fragment 2 m.data maxUdpMessageSize], 2) := by
  rw [sendMessageInternal, if_neg (by omega), fragments, h]
  rfl

/-- The first of two fragments starts the buffer. -/
theorem reassemble_first {m : Body} (h : m.data.length = maxUdpMessageSize + 1) :
    reassemble ⟨0, []⟩ 2 0 m.data.length ((m.data.drop 0).take maxUdpMessageSize) =
      some (⟨2, m.data.take maxUdpMessageSize⟩, none) := by
  have hshort : ([] ++ (m.data.drop 0).take maxUdpMessageSize).length ≠ m.data.length := by
    rw [List.nil_append, List.drop_zero, List.length_take, h]
    omega
  rw [reassemble]
  simp only [if_true, ne_eq, not_true_eq_false, false_and, if_false, List.length_nil, if_neg hshort]
  rw [List.nil_append, List.drop_zero]

/-- A message in one fragment and one in two are sent, and the first fragment to arrive is one of the second
    message. -/
theorem exists_second_first {m₁ m₂ : Body} (h₁ : m₁.data.length = maxUdpMessageSize)
    (h₂ : m₂.data.length = maxUdpMessageSize + 1) : ∃ past s, Run system (fun _ _ => True) past s ∧
      s.wire[0]? = some (5, fragment 1 m₁.data 0) ∧ (s.fragInfo 5).msgId = 2 := by
  let s₁ := system.init.send 5 m₁
  let s₂ := s₁.send 5 m₂
  have hlast : (s₁.senders 5).lastFragMsgId = 1 := congrArg Prod.snd (send_one_fragment h₁)
  have hwire₁ : s₁.wire = [(5, fragment 1 m₁.data 0)] := by
    show [] ++ (sendMessageInternal 0 m₁).1.map _ = _
    rw [send_one_fragment h₁]
    rfl
  have hwire₂ : s₂.wire = [(5, fragment 1 m₁.data 0), (5, fragment 2 m₂.data 0),
      (5, fragment 2 m₂.data maxUdpMessageSize)] := by
    show s₁.wire ++ (sendMessageInternal (s₁.senders 5).lastFragMsgId m₂).1.map _ = _
    rw [hlast, hwire₁, send_two_fragments h₂]
    rfl
  have hfirst : processPacket (s₂.fragInfo 5) (fragment 2 m₂.data 0) =
      some (⟨2, m₂.data.take maxUdpMessageSize⟩, none) := by
    rw [processPacket_fragment (by decide) (by rw [h₂]; decide) (by omega)]
    exact reassemble_first h₂
  let s₃ : Net := { s₂ with fragInfo := Function.update s₂.fragInfo 5 ⟨2, m₂.data.take maxUdpMessageSize⟩ }
  have hstep : system.step s₂ (.receive 1 false false) = some s₃ := by
    show (s₂.wire[1]?.bind fun x => s₂.receive x.1 x.2 false false) = _
    rw [hwire₂]
    show s₂.receive 5 _ false false = _
    rw [Net.receive, hfirst]
    rfl
  have hrun : Run system (fun _ _ => True) [s₂, s₁, system.init] s₃ :=
    .next (e := .receive 1 false false) (.next (e := .send 5 m₂) (.next (e := .send 5 m₁) .start trivial rfl)
      trivial rfl) trivial hstep
  refine ⟨_, s₃, hrun, ?_, ?_⟩
  · show s₂.wire[0]? = _
    rw [hwire₂]
    rfl
  · have hinfo : s₃.fragInfo 5 = ⟨2, m₂.data.take maxUdpMessageSize⟩ :=
      Function.update_self 5 _ s₂.fragInfo
    rw [hinfo]

/-- A message of this size, all zeros. -/
def zeros (n : Nat) (h : n + 4 < 2 ^ 64) : Body := ⟨List.replicate n 0, by rwa [List.length_replicate]⟩

/-- The fragment of a first message, of 9000 bytes, arrives after one of the two fragments of a second one. -/
theorem older_fragment_asserts : ∃ past s, Run system (fun _ _ => True) past s ∧
    s.wire[0]? = some (5, fragment 1 (zeros 9000 (by decide)).data 0) ∧
      system.step s (.receive 0 false false) = none := by
  have hlen : (zeros 9000 (by decide)).data.length = maxUdpMessageSize := List.length_replicate ..
  obtain ⟨past, s, hrun, hwire, hid⟩ :=
    exists_second_first hlen (show (zeros 9001 (by decide)).data.length = _ from List.length_replicate ..)
  refine ⟨past, s, hrun, hwire, ?_⟩
  show (s.wire[0]?.bind fun x => s.receive x.1 x.2 false false) = none
  rw [hwire, Option.bind_some, Net.receive, Option.map_eq_none_iff,
    processPacket_fragment (by decide) (by rw [hlen]; decide) (by rw [hlen]; decide), reassemble_eq_none, hid]
  exact ⟨by decide, by decide⟩

end Dsnet.Transport
