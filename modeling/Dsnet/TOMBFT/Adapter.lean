import Dsnet.Lib.Sha256

/-! `replication/tombft/adapter.cc`: what `TOMBFTAdapter` puts around a message, and which packets it accepts.

    The header of a multicast packet shares its first 32 bytes with the digest of the payload, and the sequencer
    signs what then stands there: `Parse` puts the session, the number, the chain hash and zeros over the hash, so
    six bytes of the hash are left (`regen_eq_iff`). -/

namespace Dsnet.TOMBFT.Adapter

/-- 32 bytes. -/
abbrev Digest := Fin 32 → UInt8

/-- libcrypto and libsecp256k1, as the adapter calls them: `ecdsaVerify` is with `SWITCH_PUBKEY`, and `replacedSig`
    is `REPLACED_SIG`. -/
structure Crypto where
  Signature : Type
  sha256 : List UInt8 → Digest
  parseCompact : List UInt8 → Option Signature
  ecdsaVerify : Signature → Digest → Bool
  replacedSig : Signature

/-! ### The layout -/

/-- Memory, by the offsets of its bytes. -/
abbrev Memory := Nat → UInt8

/-- `memcpy(m + off, bs)`. -/
def write (m : Memory) (off : Nat) (bs : List UInt8) : Memory := fun i =>
  if off ≤ i ∧ i < off + bs.length then bs.getD (i - off) 0 else m i

/-- The `len` bytes at `off`. -/
def field (buf : List UInt8) (off len : Nat) : List UInt8 := (buf.drop off).take len

/-- `sizeof(Layout().unicast)` and `sizeof(Layout().multicast)`. -/
def unicastSize : Nat := 2

def multicastSize : Nat := 80

/-- `unicast.flag`, in the place of `multicast.session_number`. -/
def sessionField (buf : List UInt8) : List UInt8 := field buf 0 2

def messageField (buf : List UInt8) : List UInt8 := field buf 4 4

def chainHash (buf : List UInt8) : List UInt8 := field buf 8 4

def signature (buf : List UInt8) : List UInt8 := field buf 16 64

/-- `multicast.inner_buf`. -/
def payload (buf : List UInt8) : List UInt8 := buf.drop multicastSize

/-- The number in network byte order. -/
def beToHost (bs : List UInt8) : Nat := Nat.ofDigits 256 (bs.map UInt8.toNat).reverse

/-- A digest in memory. -/
def Digest.memory (d : Digest) : Memory := fun i => if h : i < 32 then d ⟨i, h⟩ else 0

/-- The first 32 bytes. -/
def Memory.digest (m : Memory) : Digest := fun i => m i

variable (C : Crypto)

/-- `regen`: the digest in the view of the switch. -/
def regen (buf : List UInt8) : Memory :=
  let m := (C.sha256 (payload buf)).memory
  let m := write m 0 (sessionField buf)
  let m := write m 4 (messageField buf)
  let m := write m 8 (chainHash buf)
  write m 16 (List.replicate 64 0)

/-! ### Sending and receiving -/

/-- `Serialize`; the switch fills in what is zero. -/
def serialize (isMulticast : Bool) (inner : List UInt8) : List UInt8 :=
  if isMulticast then
    let m := (C.sha256 inner).memory
    let m := write m 0 (List.replicate 2 0)
    let m := write m 4 (List.replicate 4 0)
    let m := write m 8 (List.replicate 4 0)
    let m := write m 16 (List.replicate 64 0)
    (List.range multicastSize).map m ++ inner
  else List.replicate unicastSize 0 ++ inner

/-- What an adapter has read. `is_signed` of a unicast packet is not set. -/
structure Parsed where
  isMulticast : Bool
  isVerified : Bool
  isSigned : Bool
  messageNumber : Nat
  sessionNumber : Nat
  inner : Option (List UInt8)
  deriving DecidableEq

/-- Is a byte of the signature not zero? -/
def isSigned (buf : List UInt8) : Bool := (signature buf).any (· ≠ 0)

/-- Is the flag set? -/
def isMulticast (buf : List UInt8) : Bool := (sessionField buf).any (· ≠ 0)

/-- The verification of a signature; `demo` is the build with `DSNET_TOM_FPGA_DEMO`. -/
def verifies (demo : Bool) (buf : List UInt8) : Bool :=
  match C.parseCompact (signature buf) with
  | none => if demo then C.ecdsaVerify C.replacedSig (regen C buf).digest || isMulticast buf else false
  | some sig =>
    if demo then C.ecdsaVerify sig (regen C buf).digest || isMulticast buf
    else C.ecdsaVerify sig (regen C buf).digest

/-- `Parse`. There is nothing when it panics, or when the packet is shorter than its header. -/
def parse (demo : Bool) (buf : List UInt8) : Option Parsed :=
  if buf.length < unicastSize then none
  else if isMulticast buf = false then
    some { isMulticast := false, isVerified := true, isSigned := false, messageNumber := 0, sessionNumber := 0,
           inner := some (buf.drop unicastSize) }
  else if buf.length < multicastSize then none
  else if isSigned buf && !verifies C demo buf then
    some { isMulticast := true, isVerified := false, isSigned := true, messageNumber := 0, sessionNumber := 0,
           inner := none }
  else if beToHost (messageField buf) = 0 then none
  else
    some { isMulticast := true, isVerified := true, isSigned := isSigned buf
           messageNumber := beToHost (messageField buf), sessionNumber := beToHost (sessionField buf)
           inner := some (payload buf) }

/-- The adapter accepts a multicast packet with this payload. -/
def Accepts (demo : Bool) (buf inner : List UInt8) : Prop :=
  ∃ r, parse C demo buf = some r ∧ r.isMulticast ∧ r.isVerified ∧ r.inner = some inner

/-- The header fields and the signature. -/
def header (buf : List UInt8) : List UInt8 × List UInt8 × List UInt8 × List UInt8 :=
  (sessionField buf, messageField buf, chainHash buf, signature buf)

variable {C} {demo : Bool} {buf buf' inner inner' : List UInt8}

/-! ### The digest -/

/-- The bytes of a hash that the header leaves. -/
def keptBytes : List (Fin 32) := [2, 3, 12, 13, 14, 15]

theorem length_field {off len : Nat} (h : off + len ≤ buf.length) : (field buf off len).length = len := by
  rw [field, List.length_take, List.length_drop]
  omega

theorem getD_zeros (n i : Nat) : (List.replicate n (0 : UInt8)).getD i 0 = 0 := by
  rw [List.getD_eq_getElem?_getD, List.getElem?_replicate]
  split <;> rfl

/-- The digest that is verified, byte by byte. -/
theorem regen_digest (hlen : multicastSize ≤ buf.length) (i : Fin 32) : (regen C buf).digest i =
    if i.val < 2 then (sessionField buf).getD i 0
    else if i.val < 4 then C.sha256 (payload buf) i
    else if i.val < 8 then (messageField buf).getD (i - 4) 0
    else if i.val < 12 then (chainHash buf).getD (i - 8) 0
    else if i.val < 16 then C.sha256 (payload buf) i
    else 0 := by
  have hlen : 80 ≤ buf.length := hlen
  have h₁ : (sessionField buf).length = 2 := length_field (by omega)
  have h₂ : (messageField buf).length = 4 := length_field (by omega)
  have h₃ : (chainHash buf).length = 4 := length_field (by omega)
  have hi := i.isLt
  simp only [Memory.digest, regen, write, List.length_replicate, h₁, h₂, h₃, Digest.memory, getD_zeros]
  split_ifs <;> first | rfl | omega

/-- Under the same header fields, only the kept bytes of the hashes matter. -/
theorem regen_eq_iff (hlen : multicastSize ≤ buf.length) (hlen' : multicastSize ≤ buf'.length)
    (hh : header buf = header buf') :
    (regen C buf).digest = (regen C buf').digest ↔
      ∀ i ∈ keptBytes, C.sha256 (payload buf) i = C.sha256 (payload buf') i := by
  obtain ⟨hsession, hmessage, hchain, -⟩ : _ ∧ _ ∧ _ ∧ _ := by simpa only [header, Prod.mk.injEq] using hh
  constructor
  · intro heq i hi
    have hi' := congrFun heq i
    rw [regen_digest hlen, regen_digest hlen'] at hi'
    simp only [keptBytes, List.mem_cons, List.not_mem_nil, or_false] at hi
    rcases hi with rfl | rfl | rfl | rfl | rfl | rfl <;> exact hi'
  · intro hkept
    funext i
    rw [regen_digest hlen, regen_digest hlen', hsession, hmessage, hchain]
    have hi : (i.val < 4 ∧ 2 ≤ i.val ∨ 12 ≤ i.val ∧ i.val < 16) → i ∈ keptBytes := by
      revert i
      decide
    split_ifs
    · rfl
    · exact hkept i (hi (by omega))
    · rfl
    · rfl
    · exact hkept i (hi (by omega))
    · rfl

/-- The header of a packet that is written from memory. -/
theorem getD_header (m : Memory) {i : Nat} (hi : i < multicastSize) :
    ((List.range multicastSize).map m ++ inner).getD i 0 = m i := by
  have hlen : i < ((List.range multicastSize).map m).length := by simpa using hi
  rw [List.getD_eq_getElem?_getD, List.getElem?_append_left hlen, List.getElem?_map, List.getElem?_range hi]
  rfl

theorem getD_field (m : Memory) {off len i : Nat} (hi : i < len) (hlen : off + len ≤ multicastSize) :
    (field ((List.range multicastSize).map m ++ inner) off len).getD i 0 = m (off + i) := by
  have hheader : ((List.range multicastSize).map m ++ inner).getD (off + i) 0 = m (off + i) := getD_header m (by omega)
  rw [← hheader, field, List.getD_eq_getElem?_getD, List.getElem?_take_of_lt hi, List.getElem?_drop,
    ← List.getD_eq_getElem?_getD]

/-- A field that is written in the header. -/
theorem field_eq (m : Memory) {off len : Nat} {bs : List UInt8} (hb : bs.length = len)
    (hlen : off + len ≤ multicastSize) (h : ∀ i < len, m (off + i) = bs.getD i 0) :
    field ((List.range multicastSize).map m ++ inner) off len = bs := by
  have hl : (field ((List.range multicastSize).map m ++ inner) off len).length = len :=
    length_field (by simp; omega)
  refine List.ext_getElem (hl.trans hb.symm) fun i hi hi' => ?_
  rw [List.getElem_eq_getD 0, List.getElem_eq_getD 0, getD_field m (by omega) hlen, h i (by omega)]

/-! ### What is accepted -/

theorem accepts_iff : Accepts C demo buf inner ↔
    isMulticast buf ∧ multicastSize ≤ buf.length ∧ (isSigned buf → verifies C demo buf) ∧
      beToHost (messageField buf) ≠ 0 ∧ payload buf = inner := by
  have hsize : unicastSize ≤ multicastSize := by decide
  rw [Accepts, parse]
  split_ifs with h₁ h₂ h₃ h₄ h₅
  · simp only [false_and, exists_false, false_iff]
    omega
  · simp [h₂]
  · simp only [false_and, exists_false, false_iff]
    omega
  · simp only [Bool.and_eq_true, Bool.not_eq_true'] at h₄
    simp [h₄.1, h₄.2]
  · simp [h₅]
  · have hv : isSigned buf = true → verifies C demo buf = true := by
      intro hs
      simpa [hs] using h₄
    have hmc : isMulticast buf = true := by simpa using h₂
    simp only [Option.some.injEq, exists_eq_left', true_and, hmc]
    exact ⟨fun h => ⟨Nat.not_lt.mp h₃, hv, h₅, h⟩, fun h => h.2.2.2⟩

/-- Whether a packet is accepted depends on the header and on the digest. -/
theorem accepts_congr (hlen' : multicastSize ≤ buf'.length)
    (hh : header buf = header buf')
    (hverify : demo = false → isSigned buf → (regen C buf).digest = (regen C buf').digest)
    (ha : Accepts C demo buf inner) :
    Accepts C demo buf' (payload buf') := by
  obtain ⟨hmc, -, hv, hn, -⟩ := accepts_iff.mp ha
  obtain ⟨hsession, hmessage, -, hsig⟩ : _ ∧ _ ∧ _ ∧ _ := by simpa only [header, Prod.mk.injEq] using hh
  have hmc' : isMulticast buf' = true := by rwa [isMulticast, ← hsession]
  have hsigned : isSigned buf' = isSigned buf := by rw [isSigned, isSigned, hsig]
  refine accepts_iff.mpr ⟨hmc', hlen', fun hs => ?_, hmessage ▸ hn, rfl⟩
  have hs : isSigned buf = true := hsigned ▸ hs
  have hv := hv hs
  cases demo with
  | true =>
    -- The session of a multicast packet is not zero, so its signature does not matter.
    rw [verifies]
    split <;> simp [hmc']
  | false =>
    rw [verifies, ← hsig, ← hverify rfl hs]
    rw [verifies] at hv
    simpa using hv

/-- The switch has issued the signatures, each for one digest: no other pair of a signature and a digest
    verifies. -/
def Unforgeable (C : Crypto) (issued : C.Signature → Option Digest) : Prop :=
  ∀ sig d, C.ecdsaVerify sig d = true → issued sig = some d

/-- A packet that is accepted binds its payload, against a packet with the same header fields and signature, exactly
    when it is signed, the build verifies signatures, and the hashes of the payloads differ in one of the kept
    bytes. -/
theorem payload_bound_iff {issued : C.Signature → Option Digest} (hC : Unforgeable C issued)
    (hh : header buf = header buf') (ha : Accepts C demo buf inner) :
    (Accepts C demo buf' (payload buf') → payload buf' = inner) ↔
      payload buf' = inner ∨ demo = false ∧ isSigned buf ∧
        ∃ i ∈ keptBytes, C.sha256 inner i ≠ C.sha256 (payload buf') i := by
  obtain ⟨hmc, hlen, hv, hn, rfl⟩ := accepts_iff.mp ha
  have hsig : signature buf = signature buf' := congrArg (·.2.2.2) hh
  have hlen' : multicastSize ≤ buf'.length := by
    -- The signature ends where the header does.
    have hsize : multicastSize = 80 := rfl
    have h₁ : (signature buf).length = 64 := length_field (by omega)
    have h₂ : (signature buf').length = min 64 (buf'.length - 16) := by
      rw [signature, field, List.length_take, List.length_drop]
    rw [← hsig, h₁] at h₂
    omega
  constructor
  · intro himp
    by_contra hno
    obtain ⟨hne, hno⟩ := not_or.mp hno
    refine hne (himp (accepts_congr hlen' hh (fun hd hs => ?_) ha))
    refine (regen_eq_iff hlen hlen' hh).mpr fun i hi => ?_
    by_contra hi'
    exact hno ⟨hd, hs, i, hi, hi'⟩
  · rintro (h | ⟨rfl, hs, i, hi, hne⟩) ha'
    · exact h
    · -- The signature would have been issued for two digests.
      obtain ⟨-, -, hv', -, -⟩ := accepts_iff.mp ha'
      have hs' : isSigned buf' = true := by rwa [isSigned, ← hsig]
      have hissued {b : List UInt8} (hb : signature b = signature buf) (hvb : verifies C false b = true) :
          ∃ sig, C.parseCompact (signature buf) = some sig ∧ issued sig = some (regen C b).digest := by
        rw [verifies, hb] at hvb
        cases hsig : C.parseCompact (signature buf) with
        | none => simp [hsig] at hvb
        | some sig => exact ⟨sig, rfl, hC sig _ (by simpa [hsig] using hvb)⟩
      obtain ⟨sig, hp, hd⟩ := hissued rfl (hv hs)
      obtain ⟨sig', hp', hd'⟩ := hissued hsig.symm (hv' hs')
      cases hp.symm.trans hp'
      have heq := Option.some.inj (hd.symm.trans hd')
      exact absurd ((regen_eq_iff hlen hlen' hh).mp heq i hi) hne

/-! ### Two payloads under one signature -/

/-- A signature that is made with `SWITCH_SECKEY`. -/
def switchSignature : List UInt8 :=
  [0x17, 0xf5, 0x32, 0x89, 0xea, 0xc9, 0x61, 0xe5, 0xad, 0xc8, 0x58, 0xd3, 0xca, 0x50, 0xda, 0xb0,
   0x56, 0xdd, 0xca, 0x7a, 0x1a, 0x90, 0x6c, 0x08, 0x15, 0xa0, 0x36, 0x93, 0x12, 0xd1, 0xaa, 0x49,
   0x52, 0x3a, 0xf9, 0x10, 0x55, 0xd3, 0x64, 0xc8, 0x91, 0x34, 0x62, 0xd5, 0x9e, 0xd8, 0x14, 0xb4,
   0x39, 0xe5, 0x38, 0xde, 0xc8, 0xcc, 0x61, 0x21, 0x4c, 0x41, 0xf9, 0x9b, 0x4c, 0x13, 0x87, 0xdf]

/-- The digest that it is of. -/
def switchDigest : List UInt8 :=
  [0x00, 0x01, 0x6b, 0xb3, 0x00, 0x00, 0x00, 0x01, 0x00, 0x00, 0x00, 0x00, 0x49, 0x80, 0x46, 0xa4,
   0x00, 0x00, 0x00, 0x00, 0x00, 0x00, 0x00, 0x00, 0x00, 0x00, 0x00, 0x00, 0x00, 0x00, 0x00, 0x00]

/-- SHA-256, and a switch that has made one signature. -/
def oneSignature : Crypto where
  Signature := List UInt8
  sha256 m i := (Sha256.hash m).getD i 0
  parseCompact sig := some sig
  ecdsaVerify sig d := sig = switchSignature ∧ ∀ i, d i = switchDigest.getD i 0
  replacedSig := []

/-- A request of client 1, with an operation of eight bytes, from a `SignedAdapter` that does not sign. -/
def requestOf (op : List UInt8) : List UInt8 :=
  [0x41, 0x6c, 0x65, 0x78, 0, 0, 0, 0, 0x0a, 0x0e, 0x0a, 0x08] ++ op ++ [0x10, 0x01, 0x18, 0x01]

/-- The operations "006e4513" and "00c27f1d". -/
def opA : List UInt8 := [0x30, 0x30, 0x36, 0x65, 0x34, 0x35, 0x31, 0x33]

def opB : List UInt8 := [0x30, 0x30, 0x63, 0x32, 0x37, 0x66, 0x31, 0x64]

/-- The packet with number 1 of session 1, as the switch sends it. -/
def stampedPacket (inner : List UInt8) : List UInt8 :=
  [0x00, 0x01, 0x6b, 0xb3, 0x00, 0x00, 0x00, 0x01, 0x00, 0x00, 0x00, 0x00, 0x49, 0x80, 0x46, 0xa4] ++
    switchSignature ++ inner

/-- What the signature has been issued for. -/
def issuedOnce (sig : List UInt8) : Option Digest :=
  if sig = switchSignature then some fun i => switchDigest.getD i 0 else none

theorem unforgeable_oneSignature : Unforgeable oneSignature issuedOnce := by
  intro (sig : List UInt8) d h
  obtain ⟨hsig, hd⟩ : sig = switchSignature ∧ ∀ i, d i = switchDigest.getD i 0 := of_decide_eq_true h
  rw [issuedOnce, if_pos hsig, (funext hd : d = _)]

/-- A payload that differs in a kept byte is not accepted in the place of the signed one. -/
theorem payload_bound_iff_other_op :
    Accepts oneSignature false (stampedPacket (requestOf opA)) (requestOf opA) ∧
      ¬ Accepts oneSignature false (stampedPacket (requestOf (List.replicate 8 0x30)))
        (requestOf (List.replicate 8 0x30)) := by
  have ha : Accepts oneSignature false (stampedPacket (requestOf opA)) (requestOf opA) :=
    accepts_iff.mpr (by decide +kernel)
  have hh : header (stampedPacket (requestOf opA)) = header (stampedPacket (requestOf (List.replicate 8 0x30))) := by
    decide +kernel
  have hiff := payload_bound_iff unforgeable_oneSignature hh ha
  exact ⟨ha, fun hacc => absurd (hiff.mpr (Or.inr (by decide +kernel)) hacc) (by decide)⟩

/-- The hashes of these two requests differ, but not in the kept bytes: both are accepted under one header and
    signature. -/
theorem two_payloads_one_signature :
    Unforgeable oneSignature issuedOnce ∧
      (∃ i, oneSignature.sha256 (requestOf opA) i ≠ oneSignature.sha256 (requestOf opB) i) ∧
      header (stampedPacket (requestOf opA)) = header (stampedPacket (requestOf opB)) ∧
      isSigned (stampedPacket (requestOf opA)) ∧
      Accepts oneSignature false (stampedPacket (requestOf opA)) (requestOf opA) ∧
      Accepts oneSignature false (stampedPacket (requestOf opB)) (requestOf opB) ∧ requestOf opA ≠ requestOf opB :=
  ⟨unforgeable_oneSignature, by decide +kernel, by decide +kernel, by decide +kernel,
    accepts_iff.mpr (by decide +kernel), accepts_iff.mpr (by decide +kernel), by decide⟩

/-! ### What is read back -/

/-- What `Serialize` has written, with the fields that the switch fills in. -/
def stamp (C : Crypto) (inner session message chain : List UInt8) : Memory :=
  write (write (write ((serialize C true inner).getD · 0) 0 session) 4 message) 8 chain

/-- The packet as the switch sends it. -/
def stamped (C : Crypto) (inner session message chain sig : List UInt8) : List UInt8 :=
  (List.range multicastSize).map (write (stamp C inner session message chain) 16 sig) ++ inner

section
variable {session message chain sig : List UInt8}

theorem payload_stamped : payload (stamped C inner session message chain sig) = inner := by
  rw [stamped, payload, List.drop_left' (by simp)]

variable (hs : session.length = 2) (hm : message.length = 4) (hc : chain.length = 4) (hl : sig.length = 64)
include hs hm hc hl

theorem header_stamped : header (stamped C inner session message chain sig) = (session, message, chain, sig) := by
  simp only [header, Prod.mk.injEq]
  refine ⟨field_eq _ hs (by decide) fun i hi => ?_, field_eq _ hm (by decide) fun i hi => ?_,
    field_eq _ hc (by decide) fun i hi => ?_, field_eq _ hl (by decide) fun i hi => ?_⟩ <;>
  · simp only [stamp, write, hs, hm, hc, hl]
    split_ifs <;> first | omega | simp

/-- The switch signs the first 32 bytes of what it has stamped. `Parse` restores them. -/
theorem regen_stamped : (regen C (stamped C inner session message chain sig)).digest =
    (stamp C inner session message chain).digest := by
  have hh : header (stamped C inner session message chain sig) = _ := header_stamped hs hm hc hl
  obtain ⟨h₁, h₂, h₃, -⟩ : _ ∧ _ ∧ _ ∧ _ := by simpa only [header, Prod.mk.injEq] using hh
  funext i
  have hi : i.val < multicastSize := i.isLt.trans (by decide)
  rw [regen_digest (by simp [stamped]), h₁, h₂, h₃, payload_stamped]
  simp only [Memory.digest, stamp, write, hs, hm, hc, serialize, if_pos, getD_header _ hi, List.length_replicate,
    Digest.memory, getD_zeros]
  split_ifs <;> first | rfl | omega

/-- What `Serialize` has written, the switch has stamped, and has signed unless it leaves the signature zero,
    `Parse` reads back: the numbers and the payload. -/
theorem parse_stamped (hsession : session.any (· ≠ 0)) (hmessage : beToHost message ≠ 0)
    (hsig : sig.any (· ≠ 0) → ∃ x, C.parseCompact sig = some x ∧
      C.ecdsaVerify x (stamp C inner session message chain).digest = true) :
    parse C demo (stamped C inner session message chain sig) =
      some { isMulticast := true, isVerified := true, isSigned := sig.any (· ≠ 0)
             messageNumber := beToHost message, sessionNumber := beToHost session, inner := some inner } := by
  have hlen : multicastSize ≤ (stamped C inner session message chain sig).length := by simp [stamped]
  have hpayload : payload (stamped C inner session message chain sig) = inner := payload_stamped
  have hh : header (stamped C inner session message chain sig) = _ := header_stamped hs hm hc hl
  have hdigest : (regen C (stamped C inner session message chain sig)).digest = _ := regen_stamped hs hm hc hl
  generalize stamped C inner session message chain sig = buf at *
  obtain ⟨h₁, h₂, -, h₄⟩ : _ ∧ _ ∧ _ ∧ _ := by simpa only [header, Prod.mk.injEq] using hh
  have hmulticast : isMulticast buf = true := by rwa [isMulticast, h₁]
  have hverify : isSigned buf = true → verifies C demo buf = true := by
    intro hsigned
    rw [isSigned, h₄] at hsigned
    obtain ⟨x, hx, hv⟩ := hsig hsigned
    rw [verifies, h₄, hx, hdigest]
    cases demo <;> simp [hv]
  have hsize : unicastSize ≤ multicastSize := by decide
  rw [parse, if_neg (by omega), if_neg (by simp [hmulticast]), if_neg (by omega),
    if_neg (by simpa using hverify), if_neg (by rwa [h₂]), h₁, h₂, hpayload, isSigned, h₄]

end

theorem parse_stamped_request :
    parse oneSignature false (stamped oneSignature (requestOf opA) [0, 1] [0, 0, 0, 1] [0, 0, 0, 0] switchSignature) =
      some { isMulticast := true, isVerified := true, isSigned := switchSignature.any (· ≠ 0)
             messageNumber := beToHost [0, 0, 0, 1], sessionNumber := beToHost [0, 1]
             inner := some (requestOf opA) } :=
  parse_stamped rfl rfl rfl rfl (by decide) (by decide) fun _ => ⟨switchSignature, rfl, by decide +kernel⟩

end Dsnet.TOMBFT.Adapter
