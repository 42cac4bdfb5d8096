import Dsnet.Transport.UDPTransport

/-! The integrity of what `lib/udptransport.cc` delivers: every message is one that the sender has sent.

    The datagrams on the way are whole messages or fragments (`FromSender`), and a sender's buffer is the
    beginning of the message that its id stands for (`Holds`). A fragment is appended only if it is of
    this message and starts where the buffer ends (`reassemble_holds`). -/

namespace Dsnet.Transport

/-! ### Numbers in buffers -/

@[simp] theorem length_word (w n : Nat) : (word w n).length = w := by
  rw [word, List.length_map, length_bytes]

/-- A number is read as it was written. -/
theorem readWord_word {w n : Nat} (h : n < 256 ^ w) (rest : List UInt8) :
    readWord w (word w n ++ rest) = n := by
  have hback : ((word w n).map UInt8.toNat) = bytes w n := by
    rw [word, List.map_map]
    refine (List.map_congr_left fun b hb => ?_).trans (List.map_id' _)
    exact Nat.mod_eq_of_lt (lt_of_mem_bytes hb)
  rw [readWord, List.take_left' (length_word w n), hback, ofDigits_bytes_of_lt h]

theorem drop_word (w n : Nat) (rest : List UInt8) : (word w n ++ rest).drop w = rest :=
  List.drop_left' (length_word w n)

/-! ### One sender -/

/-- The ids of a sender's fragmented messages. -/
structure Sender.Sound (x : Sender) : Prop where
  last : x.lastFragMsgId < 2 ^ 64
  ids : ∀ id m, (id, m) ∈ x.fragmented → 1 ≤ id ∧ id ≤ x.lastFragMsgId ∧ m ∈ x.sent ∧ m.length < 2 ^ 64
  unique : ∀ id m m', (id, m) ∈ x.fragmented → (id, m') ∈ x.fragmented → m = m'

/-- A datagram is a message of the sender, or a fragment of one. -/
def Sender.FromSender (x : Sender) (buf : List UInt8) : Prop :=
  (∃ m ∈ x.sent, buf = word 4 nonfragMagic ++ m) ∨
    ∃ id m start, (id, m) ∈ x.fragmented ∧ start < m.length ∧ buf = fragment id m start

/-- A buffer that is in use has the beginning of the message of its id. -/
def Sender.Holds (x : Sender) (info : FragInfo) : Prop :=
  info.msgId = 0 ∨ ∃ m, (info.msgId, m) ∈ x.fragmented ∧ info.data <+: m

/-- The sender has sent more. -/
structure Sender.Grows (x y : Sender) : Prop where
  sent : ∀ m ∈ x.sent, m ∈ y.sent
  fragmented : ∀ p ∈ x.fragmented, p ∈ y.fragmented

theorem Sender.FromSender.grows {x y : Sender} {buf : List UInt8} (h : x.FromSender buf)
    (hg : x.Grows y) : y.FromSender buf := by
  rcases h with ⟨m, hm, rfl⟩ | ⟨id, m, start, hm, hs, rfl⟩
  · exact Or.inl ⟨m, hg.sent m hm, rfl⟩
  · exact Or.inr ⟨id, m, start, hg.fragmented _ hm, hs, rfl⟩

theorem Sender.Holds.grows {x y : Sender} {info : FragInfo} (h : x.Holds info) (hg : x.Grows y) :
    y.Holds info :=
  h.imp_right fun ⟨m, hm, hp⟩ => ⟨m, hg.fragmented _ hm, hp⟩

theorem Sender.send_grows (x : Sender) (m : Body) : x.Grows (x.send m) := by
  refine ⟨fun p hp => List.mem_append_left _ hp, fun p hp => ?_⟩
  show p ∈ ite _ _ _
  split_ifs
  · exact hp
  · exact List.mem_append_left _ hp

/-- The next id is a new one. -/
theorem Sender.Sound.send {x : Sender} {m : Body} (h : x.Sound) (hlast : x.lastFragMsgId + 1 < 2 ^ 64) :
    (x.send m).Sound := by
  have hnext : (x.lastFragMsgId + 1) % 2 ^ 64 = x.lastFragMsgId + 1 := Nat.mod_eq_of_lt hlast
  have hfits := m.fits
  unfold Sender.send sendMessageInternal
  by_cases hshort : 4 + m.data.length ≤ maxUdpMessageSize
  · simp only [if_pos hshort]
    refine ⟨h.last, fun id b hb => ?_, h.unique⟩
    obtain ⟨h1, h2, h3, h4⟩ := h.ids id b hb
    exact ⟨h1, h2, List.mem_append_left _ h3, h4⟩
  · simp only [if_neg hshort, hnext]
    refine ⟨hlast, fun id b hb => ?_, fun id b b' hb hb' => ?_⟩
    · rcases List.mem_append.mp hb with hb | hb
      · obtain ⟨h1, h2, h3, h4⟩ := h.ids id b hb
        exact ⟨h1, Nat.le_succ_of_le h2, List.mem_append_left _ h3, h4⟩
      · obtain ⟨rfl, rfl⟩ := Prod.mk.inj (List.mem_singleton.mp hb)
        exact ⟨Nat.le_add_left .., Nat.le_refl _, List.mem_append_right _ (List.mem_singleton_self _),
          by omega⟩
    · rcases List.mem_append.mp hb with hb | hb <;> rcases List.mem_append.mp hb' with hb' | hb'
      · exact h.unique id b b' hb hb'
      · obtain ⟨rfl, rfl⟩ := Prod.mk.inj (List.mem_singleton.mp hb')
        have := (h.ids _ b hb).2.1
        omega
      · obtain ⟨rfl, rfl⟩ := Prod.mk.inj (List.mem_singleton.mp hb)
        have := (h.ids _ b' hb').2.1
        omega
      · rw [(Prod.mk.inj (List.mem_singleton.mp hb)).2, (Prod.mk.inj (List.mem_singleton.mp hb')).2]

/-- What is sent is a message or its fragments. -/
theorem Sender.send_fromSender (x : Sender) (m : Body) :
    ∀ buf ∈ (sendMessageInternal x.lastFragMsgId m).1, (x.send m).FromSender buf := by
  intro buf hbuf
  unfold Sender.send
  unfold sendMessageInternal at hbuf ⊢
  by_cases hshort : 4 + m.data.length ≤ maxUdpMessageSize
  · simp only [if_pos hshort, List.mem_singleton] at hbuf ⊢
    exact Or.inl ⟨m.data, List.mem_append_right _ (List.mem_singleton_self _), hbuf⟩
  · simp only [if_neg hshort] at hbuf ⊢
    obtain ⟨i, hi, rfl⟩ := List.mem_map.mp hbuf
    refine Or.inr ⟨_, m.data, _, List.mem_append_right _ (List.mem_singleton_self _), ?_, rfl⟩
    have hi := List.mem_range.mp hi
    have hle : i ≤ (m.data.length - 1) / maxUdpMessageSize := Nat.lt_succ_iff.mp hi
    have hmul := (Nat.le_div_iff_mul_le (by decide)).mp hle
    have : maxUdpMessageSize = 9000 := rfl
    omega

/-! ### Reassembly -/

/-- A fragment is appended only where it continues the message, and a message that is complete is the one
    that was sent. -/
theorem reassemble_holds {x : Sender} {info info' : FragInfo} {id start : Nat} {m : List UInt8}
    {out : Option (List UInt8)} (hx : x.Sound) (hinfo : x.Holds info) (hm : (id, m) ∈ x.fragmented)
    (h : reassemble info id start m.length ((m.drop start).take maxUdpMessageSize) = some (info', out)) :
    x.Holds info' ∧ ∀ b, out = some b → b = m := by
  have hid := (hx.ids id m hm).1
  -- the buffer once it is the one of this message
  obtain ⟨data, hdata, h⟩ : ∃ data, data <+: m ∧
      (if start ≠ data.length then some (FragInfo.mk id data, none)
        else if (data ++ (m.drop start).take maxUdpMessageSize).length = m.length then
          some (FragInfo.mk 0 [], some (data ++ (m.drop start).take maxUdpMessageSize))
        else some (FragInfo.mk id (data ++ (m.drop start).take maxUdpMessageSize), none)) =
          some (info', out) := by
    unfold reassemble at h
    by_cases h0 : info.msgId = 0
    · refine ⟨[], List.nil_prefix, ?_⟩
      simpa [h0] using h
    · simp only [if_neg h0] at h
      by_cases hsame : info.msgId = id
      · obtain ⟨b, hb, hp⟩ := hinfo.resolve_left h0
        rw [hsame] at hb
        obtain rfl := hx.unique id b m hb hm
        refine ⟨info.data, hp, ?_⟩
        subst hsame
        simpa using h
      · refine ⟨[], List.nil_prefix, ?_⟩
        split_ifs at h with hbad <;> simp_all
  obtain ⟨rest, rfl⟩ := hdata
  split_ifs at h with hstart hfull
  · cases h
    exact ⟨Or.inr ⟨_, hm, List.prefix_append ..⟩, fun b hb => by cases hb⟩
  · obtain rfl := not_not.mp hstart
    rw [List.drop_left] at h hfull
    cases h
    refine ⟨Or.inl rfl, fun b hb => ?_⟩
    cases hb
    simp only [List.length_append, Nat.add_left_cancel_iff] at hfull
    rw [(List.take_prefix maxUdpMessageSize rest).eq_of_length hfull]
  · obtain rfl := not_not.mp hstart
    rw [List.drop_left] at h
    cases h
    refine ⟨Or.inr ⟨_, hm, ?_⟩, fun b hb => by cases hb⟩
    exact (List.prefix_append_right_inj data).mpr (List.take_prefix ..)

/-- The header of a fragment is read as it was written. -/
theorem processPacket_fragment {info : FragInfo} {id start : Nat} {m : List UInt8} (hid : id < 2 ^ 64)
    (hlen : m.length < 2 ^ 64) (hstart : start < m.length) :
    processPacket info (fragment id m start) =
      reassemble info id start m.length ((m.drop start).take maxUdpMessageSize) := by
  have hpay : 0 < ((m.drop start).take maxUdpMessageSize).length := by
    rw [List.length_take, List.length_drop, maxUdpMessageSize]
    omega
  have h4 : (fragment id m start).drop 4 = word 8 id ++ (word 8 start ++ (word 8 m.length ++
      (m.drop start).take maxUdpMessageSize)) := drop_word ..
  have h12 : (fragment id m start).drop 12 = word 8 start ++ (word 8 m.length ++
      (m.drop start).take maxUdpMessageSize) := by
    rw [← List.drop_drop (i := 8) (j := 4), h4, drop_word]
  have h20 : (fragment id m start).drop 20 =
      word 8 m.length ++ (m.drop start).take maxUdpMessageSize := by
    rw [← List.drop_drop (i := 8) (j := 12), h12, drop_word]
  have h28 : (fragment id m start).drop 28 = (m.drop start).take maxUdpMessageSize := by
    rw [← List.drop_drop (i := 8) (j := 20), h20, drop_word]
  have hsize : 28 < (fragment id m start).length := by
    rw [← h28, List.length_drop] at hpay
    omega
  have hmagic : readWord 4 (fragment id m start) = fragMagic := readWord_word (by decide) _
  unfold processPacket
  rw [if_neg (by omega), hmagic, if_neg (by decide), if_pos rfl, if_neg (by omega), h4, h12, h20, h28,
    readWord_word (by omega), readWord_word (by omega), readWord_word (by omega)]
  refine if_pos ?_
  rw [List.length_take, List.length_drop, Nat.min_comm, Nat.sub_add_comm hstart.le,
    Nat.add_mod_right, Nat.mod_eq_of_lt (by omega)]

/-- A datagram of a sender keeps the sender's buffer, and what it completes is a message of the sender. -/
theorem processPacket_holds {x : Sender} {info info' : FragInfo} {buf : List UInt8}
    {out : Option (List UInt8)} (hx : x.Sound) (hinfo : x.Holds info) (hbuf : x.FromSender buf)
    (h : processPacket info buf = some (info', out)) :
    x.Holds info' ∧ ∀ b, out = some b → b ∈ x.sent := by
  rcases hbuf with ⟨m, hm, rfl⟩ | ⟨id, m, start, hm, hstart, rfl⟩
  · have hmagic : readWord 4 (word 4 nonfragMagic ++ m) = nonfragMagic := readWord_word (by decide) _
    unfold processPacket at h
    rw [hmagic, if_pos rfl, drop_word] at h
    split_ifs at h
    cases h
    exact ⟨hinfo, fun b hb => Option.some.inj hb ▸ hm⟩
  · obtain ⟨-, hle, hsent, hlen⟩ := hx.ids id m hm
    rw [processPacket_fragment (Nat.lt_of_le_of_lt hle hx.last) hlen hstart] at h
    obtain ⟨hinfo', hout⟩ := reassemble_holds hx hinfo hm h
    exact ⟨hinfo', fun b hb => hout b hb ▸ hsent⟩

/-! ### The system -/

/-- What is on the way, what is in the buffers and what has been delivered comes from the senders. -/
structure Sound (s : Net) : Prop where
  senders : ∀ a, (s.senders a).Sound
  wire : ∀ x ∈ s.wire, (s.senders x.1).FromSender x.2
  fragInfo : ∀ a, (s.senders a).Holds (s.fragInfo a)
  reorderBuffer : ∀ x, s.reorderBuffer = some x → x.2 ∈ (s.senders x.1).sent
  delivered : ∀ x ∈ s.delivered, x.2 ∈ (s.senders x.1).sent

theorem Sound.send {s : Net} {addr : Nat} {m : Body} (h : Sound s)
    (hlast : (s.senders addr).lastFragMsgId + 1 < 2 ^ 64) : Sound (s.send addr m) := by
  have hgrows : ∀ a, (s.senders a).Grows ((s.send addr m).senders a) := by
    intro a
    by_cases ha : a = addr
    · subst ha
      simp only [Net.send, Function.update_self]
      exact Sender.send_grows ..
    · simp only [Net.send, Function.update_of_ne ha]
      exact ⟨fun _ hm => hm, fun _ hp => hp⟩
  refine ⟨fun a => ?_, fun x hx => ?_, fun a => (h.fragInfo a).grows (hgrows a),
    fun x hx => (hgrows x.1).sent _ (h.reorderBuffer x hx),
    fun x hx => (hgrows x.1).sent _ (h.delivered x hx)⟩
  · by_cases ha : a = addr
    · subst ha
      simp only [Net.send, Function.update_self]
      exact (h.senders a).send hlast
    · simp only [Net.send, Function.update_of_ne ha]
      exact h.senders a
  · rcases List.mem_append.mp hx with hx | hx
    · exact (h.wire x hx).grows (hgrows x.1)
    · obtain ⟨buf, hbuf, rfl⟩ := List.mem_map.mp hx
      simp only [Net.send, Function.update_self]
      exact Sender.send_fromSender _ _ buf hbuf

/-- The dispatch delivers and keeps nothing but what it is given. -/
theorem mem_dispatch {α : Type} {drop reorder : Bool} {buffer : Option α} {m x : α}
    (h : x ∈ (dispatch drop reorder buffer m).1 ∨ (dispatch drop reorder buffer m).2 = some x) :
    x = m ∨ buffer = some x := by
  unfold dispatch at h
  split_ifs at h
  · exact Or.inr (by simpa using h)
  · simp only [List.not_mem_nil, false_or, Option.some.injEq] at h
    exact Or.inl h.symm
  · simpa using h

theorem Sound.deliver {s : Net} {addr : Nat} {drop reorder : Bool} {out : Option (List UInt8)}
    (h : Sound s) (hout : ∀ b, out = some b → b ∈ (s.senders addr).sent) :
    Sound (s.deliver addr drop reorder out) := by
  cases out with
  | none => exact h
  | some m =>
    have hx : ∀ x, x = (addr, m) ∨ s.reorderBuffer = some x → x.2 ∈ (s.senders x.1).sent := by
      rintro x (rfl | hx)
      · exact hout m rfl
      · exact h.reorderBuffer x hx
    refine ⟨h.senders, h.wire, h.fragInfo, fun x hb => hx x (mem_dispatch (Or.inr hb)), fun x hd => ?_⟩
    rcases List.mem_append.mp hd with hd | hd
    · exact h.delivered x hd
    · exact hx x (mem_dispatch (Or.inl hd))

theorem Sound.receive {s s' : Net} {addr : Nat} {buf : List UInt8} {drop reorder : Bool} (h : Sound s)
    (hbuf : (s.senders addr).FromSender buf) (hr : s.receive addr buf drop reorder = some s') :
    Sound s' := by
  obtain ⟨⟨info, out⟩, hp, rfl⟩ := Option.map_eq_some_iff.mp hr
  obtain ⟨hinfo, hout⟩ := processPacket_holds (h.senders addr) (h.fragInfo addr) hbuf hp
  refine Sound.deliver (s := { s with fragInfo := Function.update s.fragInfo addr info })
    ⟨h.senders, h.wire, fun a => ?_, h.reorderBuffer, h.delivered⟩ hout
  by_cases ha : a = addr
  · subst ha
    simp only [Function.update_self]
    exact hinfo
  · simp only [Function.update_of_ne ha]
    exact h.fragInfo a

end Dsnet.Transport
