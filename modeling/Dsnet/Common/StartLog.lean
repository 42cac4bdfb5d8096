import Dsnet.Common.Log
import Dsnet.Lib.Bytes
import Dsnet.Lib.HashChain

/-! The class `Log` of `common/log.{h,cc}` and `common/log-impl.h` with all that its constructor
    takes: whether `Append` hashes, the opnum the log starts with and the hash before its first entry.
    `Log` is the case of an unhashed log that starts with 1 (`Log.toStartLog`).

    `RemoveAfter` and `Install` together, as a view change calls them, put the entries of a message
    in the place of all entries from the first of them on (`splice`). In a hashed log the last hash
    tells which requests came before it (`ids_eq_of_lastHash`). -/

namespace Dsnet

/-- A log whose entries have the opnums from `start` on, as `Append` asserts. Opnums start with 1:
    0 is `LastOpnum` of the empty log that starts with 1. -/
structure StartLog where
  useHash : Bool
  start : Nat
  initialHash : String
  entries : List LogEntry
  positive : 1 ≤ start
  numbered : Log.NumberedFrom start entries

namespace StartLog

/-- `EMPTY_HASH`. -/
def emptyHash : String := String.ofList (List.replicate 20 (Char.ofNat 0))

theorem toList_emptyHash : emptyHash.toList = List.replicate 20 (Char.ofNat 0) :=
  String.toList_ofList

/-- The bytes of a 64-bit number in memory, as characters. -/
def uint64Bytes (n : Nat) : List Char := (bytes 8 n).map Char.ofNat

/-- The client's numbers in an entry. -/
def ids (e : LogEntry) : Nat × Nat := (e.request.clientid, e.request.clientreqid)

/-- The digest of a hash and two numbers. -/
def digest (sha1 : String → String) (lastHash : String) (x : Nat × Nat) : String :=
  sha1 (lastHash ++ String.ofList (uint64Bytes x.1 ++ uint64Bytes x.2))

/-- `Log::ComputeHash`. -/
def computeHash (sha1 : String → String) (lastHash : String) (entry : LogEntry) : String :=
  digest sha1 lastHash (ids entry)

/-- The constructor's result. -/
def new (useHash : Bool) (start : Nat) (initialHash : String) (positive : 1 ≤ start) : StartLog where
  useHash := useHash
  start := start
  initialHash := initialHash
  entries := []
  positive := positive
  numbered := Log.numberedFrom_nil start

/-- `Log::FirstOpnum`. -/
def firstOpnum (l : StartLog) : Nat := l.start

/-- `Log::LastOpnum`. -/
def lastOpnum (l : StartLog) : Nat :=
  match l.entries.getLast? with
  | none => l.start - 1
  | some e => e.opnum

/-- `Log::LastHash`. -/
def lastHash (l : StartLog) : String :=
  match l.entries.getLast? with
  | none => l.initialHash
  | some e => e.hash

/-- `Log::Find`; the assertion that the entry has the opnum holds by the numbering. -/
def find (l : StartLog) (opnum : Nat) : Option LogEntry :=
  if l.entries = [] then none
  else if opnum < l.start then none
  else if opnum - l.start > l.entries.length - 1 then none
  else l.entries[opnum - l.start]?

theorem lastOpnum_eq (l : StartLog) : l.lastOpnum = l.start + l.entries.length - 1 := by
  unfold lastOpnum
  cases h : l.entries.getLast? with
  | none => simp [List.getLast?_eq_none_iff.mp h]
  | some e =>
    rw [List.getLast?_eq_getElem?] at h
    have hlt := (List.getElem?_eq_some_iff.mp h).1
    have hnum : e.opnum = l.start + (l.entries.length - 1) := l.numbered _ _ h
    show e.opnum = l.start + l.entries.length - 1
    omega

/-- What `Append` asserts the opnum of the new entry to be. -/
def nextOpnum (l : StartLog) : Nat := if l.entries = [] then l.start else l.lastOpnum + 1

theorem nextOpnum_eq (l : StartLog) : l.nextOpnum = l.start + l.entries.length := by
  have hlast := l.lastOpnum_eq
  have hpos := l.positive
  unfold nextOpnum
  split_ifs with h
  · rw [h]
    rfl
  · have := List.length_pos_iff.mpr h
    omega

/-- The entry as it is stored. -/
def hashed (sha1 : String → String) (l : StartLog) (e : LogEntry) : LogEntry :=
  if l.useHash then { e with hash := computeHash sha1 l.lastHash e } else e

@[simp] theorem opnum_hashed (sha1 : String → String) (l : StartLog) (e : LogEntry) :
    (l.hashed sha1 e).opnum = e.opnum := by
  unfold hashed
  split_ifs <;> rfl

/-- `Log::Append`. -/
def append (sha1 : String → String) (l : StartLog) (e : LogEntry) : Option StartLog :=
  if h : e.opnum = l.nextOpnum then
    some { l with
      entries := l.entries ++ [l.hashed sha1 e]
      numbered := by
        intro i x hx
        rcases of_getElem?_concat hx with hx | ⟨rfl, rfl⟩
        · exact l.numbered i x hx
        · rw [opnum_hashed, h, l.nextOpnum_eq] }
  else none

/-- Keep the first `k` entries. -/
def take (l : StartLog) (k : Nat) : StartLog :=
  { l with
    entries := l.entries.take k
    numbered := fun i e hi => l.numbered i e (by
      rw [List.getElem?_take] at hi
      split_ifs at hi
      exact hi) }

/-- `Log::RemoveAfter`: removes the entries from `op` on. Below the start the difference in the
    assertion `op - start < entries.size()` wraps, and the assertion fails. -/
def removeAfter (l : StartLog) (op : Nat) : Option StartLog :=
  if op > l.lastOpnum then some l
  else if l.start ≤ op ∧ op - l.start < l.entries.length then some (l.take (op - l.start))
  else none

/-- The second loop of `Log::Install`. -/
def installRest (sha1 : String → String) (l : StartLog) : List LogEntry → Option StartLog
  | [] => some l
  | e :: es => (l.append sha1 (Log.installed e)).bind (installRest sha1 · es)

/-- `Log::Install`: skip the entries that are there with the same view, then replace. -/
def install (sha1 : String → String) (l : StartLog) : List LogEntry → Option StartLog
  | [] => some l
  | e :: es =>
    match l.find e.opnum with
    | none => installRest sha1 l (e :: es)
    | some oldEntry =>
      if e.view ≠ oldEntry.view then
        (l.removeAfter e.opnum).bind (installRest sha1 · (e :: es))
      else install sha1 l es

/-! ### Lemmas -/

variable {sha1 : String → String} {l l' : StartLog} {e : LogEntry} {es : List LogEntry}

theorem find_eq (l : StartLog) {k : Nat} (hk : l.start ≤ k) :
    l.find k = l.entries[k - l.start]? := by
  unfold find
  split_ifs with hnil hlt hbig
  · rw [hnil, List.getElem?_nil]
  · omega
  · rw [List.getElem?_eq_none (by omega)]
  · rfl

theorem append_eq (sha1 : String → String) (h : e.opnum = l.start + l.entries.length) :
    ∃ l', l.append sha1 e = some l' ∧ l'.entries = l.entries ++ [l.hashed sha1 e] ∧
      l'.start = l.start ∧ l'.useHash = l.useHash := by
  rw [← l.nextOpnum_eq] at h
  exact ⟨_, dif_pos h, rfl, rfl, rfl⟩

theorem entries_of_append (h : l.append sha1 e = some l') :
    l'.entries = l.entries ++ [l.hashed sha1 e] ∧ l'.useHash = l.useHash ∧
      l'.initialHash = l.initialHash := by
  unfold append at h
  split_ifs at h
  obtain rfl := Option.some.inj h
  exact ⟨rfl, rfl, rfl⟩

theorem entries_of_removeAfter {op : Nat} (h : l.removeAfter op = some l') :
    l'.entries <+: l.entries ∧ l'.useHash = l.useHash ∧ l'.initialHash = l.initialHash := by
  unfold removeAfter at h
  split_ifs at h
  · obtain rfl := Option.some.inj h
    exact ⟨List.prefix_refl _, rfl, rfl⟩
  · obtain rfl := Option.some.inj h
    exact ⟨List.take_prefix _ _, rfl, rfl⟩

/-- `RemoveAfter` of an opnum from the start on keeps the entries below it. -/
theorem removeAfter_eq (l : StartLog) {op : Nat} (h : l.start ≤ op) :
    l.removeAfter op = some (l.take (op - l.start)) := by
  have hlast := l.lastOpnum_eq
  have hpos := l.positive
  unfold removeAfter
  split_ifs with h1 h2
  · have hall : l.entries.take (op - l.start) = l.entries := List.take_of_length_le (by omega)
    cases l
    simp only [take, hall]
  · rfl
  · omega

/-! ### Splicing -/

/-- What `Install` keeps or appends of an entry: its place in the views and its request. -/
def stamp (e : LogEntry) : Nat × Nat × Request := (e.view, e.opnum, e.request)

/-- The viewstamp has a view and an opnum only, as those that `Install` and the VR handlers make. -/
def Plain (e : LogEntry) : Prop := e.viewstamp = { view := e.view, opnum := e.opnum }

theorem installRest_eq (sha1 : String → String) (hu : l.useHash = false)
    (hes : Log.NumberedFrom (l.start + l.entries.length) es) :
    ∃ l', l.installRest sha1 es = some l' ∧ l'.entries = l.entries ++ es.map Log.installed ∧
      l'.start = l.start ∧ l'.useHash = false := by
  induction es generalizing l with
  | nil => exact ⟨l, rfl, by simp, rfl, hu⟩
  | cons e es ih =>
    obtain ⟨he, hes⟩ := Log.numberedFrom_cons.mp hes
    obtain ⟨l₁, h₁, hent, hstart, hu₁⟩ := append_eq sha1 (e := Log.installed e) he
    have hent : l₁.entries = l.entries ++ [Log.installed e] := by rw [hent, hashed, hu]; rfl
    obtain ⟨l', h', hent', hstart', hu'⟩ := ih (l := l₁) (hu₁.trans hu) (by
      rw [hent, hstart, List.length_append]
      exact hes)
    refine ⟨l', by rw [installRest, h₁]; exact h', ?_, hstart'.trans hstart, hu'⟩
    rw [hent', hent, List.append_assoc]
    rfl

/-- Installing entries that continue the first `a` of the log, and reach as far as the log does, puts
    them in the place of the rest. What is compared (`f`) must not tell an installed entry from the one
    it is made of, nor an entry that is kept from the one of the same view. -/
theorem install_eq {γ : Type} {f : LogEntry → γ} (sha1 : String → String) (hu : l.useHash = false) :
    ∀ {es : List LogEntry} {a : Nat}, Log.NumberedFrom (l.start + a) es → a ≤ l.entries.length →
      l.entries.length ≤ a + es.length → (∀ e ∈ es, f (Log.installed e) = f e) →
      (∀ x ∈ l.entries, ∀ e ∈ es, x.view = e.view → x.opnum = e.opnum → f x = f e) →
      ∃ l', l.install sha1 es = some l' ∧
        l'.entries.map f = (l.entries.take a).map f ++ es.map f ∧ l'.start = l.start
  | [], a, _, ha, hlen, _, _ => by
      refine ⟨l, rfl, ?_, rfl⟩
      rw [List.take_of_length_le (by simpa using hlen)]
      simp
  | e :: es, a, hes, ha, hlen, hinst, hsame => by
      obtain ⟨he, hes'⟩ := Log.numberedFrom_cons.mp hes
      have hmap : ((e :: es).map Log.installed).map f = (e :: es).map f := by
        rw [List.map_map]
        exact List.map_congr_left hinst
      have hfind : l.find e.opnum = l.entries[a]? := by
        rw [find_eq l (by omega), he, Nat.add_sub_cancel_left]
      rw [install]
      cases hf : l.entries[a]? with
      | none =>
        obtain rfl : a = l.entries.length := by
          have := List.getElem?_eq_none_iff.mp hf
          omega
        obtain ⟨l', h', hent, hstart, -⟩ := installRest_eq sha1 hu hes
        refine ⟨l', by simpa only [hfind, hf] using h', ?_, hstart⟩
        rw [hent, List.map_append, hmap, List.take_length]
      | some old =>
        have hlt := (List.getElem?_eq_some_iff.mp hf).1
        simp only [hfind, hf]
        by_cases hv : e.view = old.view
        · have hold : old.opnum = e.opnum := by rw [l.numbered _ _ hf, he]
          obtain ⟨l', h', hent, hstart⟩ := install_eq sha1 hu (a := a + 1) hes' hlt
            (by rw [List.length_cons] at hlen; omega)
            (fun x hx => hinst x (List.mem_cons_of_mem _ hx))
            (fun x hx y hy => hsame x hx y (List.mem_cons_of_mem _ hy))
          refine ⟨l', by rw [if_neg (not_not.mpr hv)]; exact h', ?_, hstart⟩
          have hfe : f old = f e :=
            hsame old (List.mem_of_getElem? hf) e List.mem_cons_self hv.symm hold
          rw [hent, List.take_add_one, hf, List.map_append, List.append_assoc]
          simp [hfe]
        · have hcut : l.removeAfter e.opnum = some (l.take a) := by
            rw [removeAfter_eq l (by omega), he, Nat.add_sub_cancel_left]
          have hlen' : (l.take a).entries.length = a := List.length_take_of_le ha
          obtain ⟨l', h', hent, hstart, -⟩ := installRest_eq sha1 (l := l.take a) hu
            (by rw [hlen']; exact hes)
          refine ⟨l', by rw [if_pos hv, hcut]; exact h', ?_, hstart⟩
          rw [hent, List.map_append, hmap]
          rfl

/-- The entries below an opnum are the first ones. -/
theorem filter_opnum_lt (l : StartLog) (k : Nat) :
    l.entries.filter (·.opnum < k) = l.entries.take (k - l.start) := by
  rw [← List.take_append_drop (k - l.start) l.entries, List.filter_append,
    List.filter_eq_self.mpr, List.filter_eq_nil_iff.mpr, List.append_nil, List.take_append_drop]
  · intro e he
    obtain ⟨i, hi⟩ := List.mem_iff_getElem?.mp he
    rw [List.getElem?_drop] at hi
    have := l.numbered _ _ hi
    simp only [decide_eq_true_eq]
    omega
  · intro e he
    obtain ⟨i, hi⟩ := List.mem_iff_getElem?.mp he
    rw [List.getElem?_take] at hi
    split_ifs at hi with hlt
    have := l.numbered _ _ hi
    exact decide_eq_true (by omega)

/-- `RemoveAfter` of the opnum after the last entry, and then `Install`. -/
theorem removeAfter_install {γ : Type} {f : LogEntry → γ} {first : Nat} (sha1 : String → String)
    (hu : l.useHash = false)
    (hes : Log.NumberedFrom first es) (hfirst : l.firstOpnum ≤ first)
    (hnext : first ≤ l.lastOpnum + 1) (hinst : ∀ e ∈ es, f (Log.installed e) = f e)
    (hsame : ∀ x ∈ l.entries, ∀ e ∈ es, x.view = e.view → x.opnum = e.opnum → f x = f e) :
    ∃ l₁ l₂, l.removeAfter (first + es.length) = some l₁ ∧ l₁.install sha1 es = some l₂ ∧
      l₂.start = l.start ∧
      l₂.entries.map f = (l.entries.filter (·.opnum < first)).map f ++ es.map f := by
  rw [firstOpnum] at hfirst
  have hlast := l.lastOpnum_eq
  have hpos := l.positive
  obtain ⟨a, rfl⟩ := Nat.exists_eq_add_of_le hfirst
  have hcut : l.removeAfter (l.start + a + es.length) = some (l.take (a + es.length)) := by
    rw [removeAfter_eq l (by omega), Nat.add_assoc, Nat.add_sub_cancel_left]
  have hlen : (l.take (a + es.length)).entries.length = min (a + es.length) l.entries.length :=
    List.length_take
  obtain ⟨l₂, h₂, hent, hstart⟩ := install_eq sha1 (l := l.take (a + es.length)) (f := f) hu
    (a := a) hes (by omega) (by omega) hinst (fun x hx => hsame x (List.mem_of_mem_take hx))
  refine ⟨_, l₂, hcut, h₂, hstart, ?_⟩
  rw [hent, filter_opnum_lt, Nat.add_sub_cancel_left]
  simp only [take, List.take_take, Nat.min_eq_left (Nat.le_add_right a es.length)]

/-- Truncation and installation splice: the log has what it had below `first`, then the entries, and
    `Find` returns them under their opnums. The entries agree with the log's of the same view and
    opnum on the request. Where all viewstamps are plain, they agree in full. -/
theorem splice {first : Nat} (sha1 : String → String) (l : StartLog) (es : List LogEntry)
    (hu : l.useHash = false) (hne : es ≠ []) (hes : Log.NumberedFrom first es)
    (hfirst : l.firstOpnum ≤ first) (hnext : first ≤ l.lastOpnum + 1)
    (hreq : ∀ x ∈ l.entries, ∀ e ∈ es, x.view = e.view → x.opnum = e.opnum → x.request = e.request) :
    ∃ l₁ l₂, l.removeAfter ((es.getLast hne).opnum + 1) = some l₁ ∧ l₁.install sha1 es = some l₂ ∧
      l₂.entries.map stamp = (l.entries.filter (·.opnum < first) ++ es).map stamp ∧
      ((∀ x ∈ l.entries, Plain x) → (∀ x ∈ es, Plain x) →
        l₂.entries.map (fun e => (e.viewstamp, e.request)) =
          (l.entries.filter (·.opnum < first) ++ es).map fun e => (e.viewstamp, e.request)) ∧
      Log.NumberedFrom l.firstOpnum l₂.entries ∧
      (∀ k, l.firstOpnum ≤ k → k ≤ (es.getLast hne).opnum → ∃ e, l₂.find k = some e ∧ e.opnum = k) ∧
      ∀ x ∈ l.entries.filter (·.opnum < first) ++ es, ∃ e, l₂.find x.opnum = some e ∧
        stamp e = stamp x := by
  have hend : (es.getLast hne).opnum + 1 = first + es.length := by
    have hpos := List.length_pos_iff.mpr hne
    have := hes (es.length - 1) (es.getLast hne) (by
      rw [← List.getLast?_eq_getElem?, List.getLast?_eq_some_getLast hne])
    omega
  obtain ⟨l₁, l₂, h₁, h₂, hstart, hent⟩ := removeAfter_install sha1 (f := stamp) hu hes hfirst
    hnext (fun _ _ => rfl) (fun x hx e he hv hop => by
      simp only [stamp, hreq x hx e he hv hop, hv, hop])
  rw [← List.map_append] at hent
  have hnum : Log.NumberedFrom l.start l₂.entries := hstart ▸ l₂.numbered
  have hlen : l₂.start + l₂.entries.length = first + es.length := by
    have hlast := l.lastOpnum_eq
    have hpos := l.positive
    have hcount := congrArg List.length hent
    rw [firstOpnum] at hfirst
    rw [filter_opnum_lt, List.length_map, List.length_map, List.length_append, List.length_take]
      at hcount
    omega
  refine ⟨l₁, l₂, hend ▸ h₁, h₂, hent, fun hpl hpe => ?_, hnum, fun k hk hk' => ?_, fun x hx => ?_⟩
  · obtain ⟨m₁, m₂, g₁, g₂, -, hfull⟩ := removeAfter_install sha1
      (f := fun e => (e.viewstamp, e.request)) hu hes hfirst hnext
      (fun e he => by rw [hpe e he]; rfl)
      (fun x hx e he hv hop => by rw [hpl x hx, hpe e he, hreq x hx e he hv hop, hv, hop])
    obtain rfl : l₁ = m₁ := Option.some.inj (h₁.symm.trans g₁)
    obtain rfl : l₂ = m₂ := Option.some.inj (h₂.symm.trans g₂)
    rw [hfull, List.map_append]
  · have hlt : k - l₂.start < l₂.entries.length := by
      rw [firstOpnum] at hk
      omega
    rw [find_eq l₂ (hstart ▸ hk), List.getElem?_eq_getElem hlt]
    refine ⟨_, rfl, ?_⟩
    have := l₂.numbered _ _ (List.getElem?_eq_getElem hlt)
    rw [firstOpnum] at hk
    omega
  · obtain ⟨e, he, hex⟩ := List.mem_map.mp (hent ▸ List.mem_map_of_mem (f := stamp) hx)
    obtain ⟨i, hi⟩ := List.mem_iff_getElem?.mp he
    have hop : x.opnum = l₂.start + i := by
      rw [← l₂.numbered _ _ hi]
      exact (congrArg (·.2.1) hex).symm
    refine ⟨e, ?_, hex⟩
    rw [find_eq l₂ (by omega), hop, Nat.add_sub_cancel_left, hi]

/-- An entry of the example. -/
def entryOf (view opnum clientreqid : Nat) : LogEntry :=
  { viewstamp := { view := view, opnum := opnum }, state := .prepared,
    request := { op := "op", clientid := 7, clientreqid := clientreqid } }

/-- A log of three entries that starts with 5. -/
def threeEntries : StartLog where
  useHash := false
  start := 5
  initialHash := emptyHash
  entries := [entryOf 1 5 1, entryOf 1 6 2, entryOf 1 7 3]
  positive := by decide
  numbered := Log.numberedFrom_cons.mpr ⟨rfl, Log.numberedFrom_cons.mpr ⟨rfl,
    Log.numberedFrom_cons.mpr ⟨rfl, Log.numberedFrom_nil _⟩⟩⟩

/-- The first entry given is there, the second replaces one of an older view. -/
theorem splice_threeEntries :
    ∃ l₁ l₂, threeEntries.removeAfter 8 = some l₁ ∧
      l₁.install id [entryOf 1 6 2, entryOf 2 7 4] = some l₂ ∧
      l₂.entries.map stamp = [entryOf 1 5 1, entryOf 1 6 2, entryOf 2 7 4].map stamp := by
  have hes : Log.NumberedFrom 6 [entryOf 1 6 2, entryOf 2 7 4] :=
    Log.numberedFrom_cons.mpr ⟨rfl, Log.numberedFrom_cons.mpr ⟨rfl, Log.numberedFrom_nil _⟩⟩
  obtain ⟨l₁, l₂, h₁, h₂, hent, -⟩ := splice id threeEntries [entryOf 1 6 2, entryOf 2 7 4] rfl (by decide) hes
    (by decide) (by decide) (by decide)
  exact ⟨l₁, l₂, h₁, h₂, hent⟩

/-! ### The hash chain -/

/-- The client's numbers are 64-bit numbers. -/
def Fits (e : LogEntry) : Prop := e.request.clientid < 2 ^ 64 ∧ e.request.clientreqid < 2 ^ 64

instance : DecidablePred Fits := fun _ => inferInstanceAs (Decidable (_ ∧ _))

/-- The calls that change a hashed log. -/
inductive Call where
  | append (e : LogEntry) (fits : Fits e)
  | removeAfter (op : Nat)

def call (sha1 : String → String) (l : StartLog) : Call → Option StartLog
  | .append e _ => l.append sha1 e
  | .removeAfter op => l.removeAfter op

/-- The bytes tell the number. -/
theorem eq_of_uint64Bytes {m n : Nat} (hm : m < 2 ^ 64) (hn : n < 2 ^ 64)
    (h : uint64Bytes m = uint64Bytes n) : m = n := by
  have hback : ∀ k, k < 2 ^ 64 → Nat.ofDigits 256 ((uint64Bytes k).map Char.toNat) = k := by
    intro k hk
    have hid : (uint64Bytes k).map Char.toNat = bytes 8 k := by
      rw [uint64Bytes, List.map_map]
      refine (List.map_congr_left fun b hb => ?_).trans (List.map_id' _)
      have hlt := lt_of_mem_bytes hb
      show (Char.ofNat b).toNat = b
      rw [Char.ofNat, dif_pos (Or.inl (by omega))]
      rfl
    rw [hid, ofDigits_bytes_of_lt (by omega)]
  rw [← hback m hm, ← hback n hn, h]

theorem length_uint64Bytes (n : Nat) : (uint64Bytes n).length = 8 := by
  simp [uint64Bytes]

/-- The inputs of two equal hashes are equal. -/
theorem eq_of_digest (hinj : Function.Injective sha1) {h h' : String} {x y : LogEntry}
    (hx : Fits x) (hy : Fits y) (heq : digest sha1 h (ids x) = digest sha1 h' (ids y)) :
    h = h' ∧ ids x = ids y := by
  have hcat := congrArg String.toList (hinj heq)
  simp only [String.toList_append, String.toList_ofList] at hcat
  obtain ⟨hh, hnums⟩ := List.append_inj' hcat (by simp only [List.length_append, length_uint64Bytes])
  obtain ⟨hid, hreqid⟩ := List.append_inj hnums (by simp only [length_uint64Bytes])
  exact ⟨String.toList_inj.mp hh, Prod.ext (eq_of_uint64Bytes hx.1 hy.1 hid)
    (eq_of_uint64Bytes hx.2 hy.2 hreqid)⟩

/-- The entries with their hashes. -/
def hashes (l : StartLog) : List (LogEntry × String) := l.entries.map fun e => (e, e.hash)

theorem lastHash_eq (l : StartLog) : l.lastHash = lastHashOf l.initialHash l.hashes := by
  unfold lastHash lastHashOf hashes
  rw [List.getLast?_map, Option.map_map]
  cases l.entries.getLast? <;> rfl

/-- A hashed log that chains its entries from `EMPTY_HASH` on. -/
structure HashChained (sha1 : String → String) (l : StartLog) : Prop where
  useHash : l.useHash = true
  initialHash : l.initialHash = emptyHash
  fits : ∀ e ∈ l.entries, Fits e
  chained : Chained (digest sha1) ids emptyHash l.hashes

theorem hashChained_new (sha1 : String → String) (start : Nat) (h : 1 ≤ start) :
    HashChained sha1 (new true start emptyHash h) :=
  ⟨rfl, rfl, (fun _ he => by cases he), chained_nil⟩

/-- Each call keeps the chain: an appended entry is hashed with the hash of the entry before it, and
    what is left after a truncation has kept its hashes. -/
theorem HashChained.call {c : Call} (hl : HashChained sha1 l) (h : l.call sha1 c = some l') :
    HashChained sha1 l' := by
  cases c with
  | append e fits =>
    obtain ⟨hent, hu, hi⟩ := entries_of_append h
    have hash : l.hashed sha1 e = { e with hash := computeHash sha1 l.lastHash e } := by
      rw [hashed, hl.useHash, if_pos rfl]
    rw [hash] at hent
    refine ⟨hu.trans hl.useHash, hi.trans hl.initialHash, fun x hx => ?_, ?_⟩
    · rw [hent] at hx
      rcases List.mem_append.mp hx with hx | hx
      · exact hl.fits x hx
      · obtain rfl := List.mem_singleton.mp hx
        exact fits
    · rw [hashes, hent, List.map_append]
      refine hl.chained.concat ?_
      rw [← hl.initialHash, ← lastHash_eq]
      rfl
  | removeAfter op =>
    obtain ⟨hp, hu, hi⟩ := entries_of_removeAfter h
    exact ⟨hu.trans hl.useHash, hi.trans hl.initialHash, fun x hx => hl.fits x (hp.subset hx),
      hl.chained.of_prefix (hp.map _)⟩

theorem HashChained.calls {cs : List Call} (hl : HashChained sha1 l)
    (h : cs.foldlM (StartLog.call sha1) l = some l') : HashChained sha1 l' := by
  induction cs generalizing l with
  | nil =>
    obtain rfl : l = l' := by simpa using h
    exact hl
  | cons c cs ih =>
    rw [List.foldlM_cons] at h
    obtain ⟨l₁, h₁, h⟩ := Option.bind_eq_some_iff.mp h
    exact ih (hl.call h₁) h

/-- No stored hash is that of the empty log. -/
theorem HashChained.hash_ne (hl : HashChained sha1 l) (hne : ∀ x, sha1 x ≠ emptyHash) :
    ∀ x ∈ l.hashes, x.2 ≠ emptyHash := by
  intro x hx
  obtain ⟨i, hi⟩ := List.mem_iff_getElem?.mp hx
  rw [hl.chained i x hi]
  exact hne _

/-- The last hash identifies the log: two hashed logs, each reached from an empty one by calls of
    `Append` and `RemoveAfter`, have the same requests when their last hashes are equal. -/
theorem ids_eq_of_lastHash {start start' : Nat} {cs cs' : List Call} (hinj : Function.Injective sha1)
    (hne : ∀ x, sha1 x ≠ emptyHash) (hs : 1 ≤ start) (hs' : 1 ≤ start')
    (h : cs.foldlM (call sha1) (new true start emptyHash hs) = some l)
    (h' : cs'.foldlM (call sha1) (new true start' emptyHash hs') = some l')
    (heq : l.lastHash = l'.lastHash) :
    l.entries.length = l'.entries.length ∧ l.entries.map ids = l'.entries.map ids := by
  have hl := (hashChained_new sha1 start hs).calls h
  have hl' := (hashChained_new sha1 start' hs').calls h'
  have hfree : NoCollision (digest sha1) ids emptyHash l.hashes l'.hashes := by
    intro i j x y hx hy hxy
    obtain ⟨e, he, rfl⟩ := List.mem_map.mp (List.mem_of_getElem? hx)
    obtain ⟨e', he', rfl⟩ := List.mem_map.mp (List.mem_of_getElem? hy)
    exact eq_of_digest hinj (hl.fits e he) (hl'.fits e' he') hxy
  rw [lastHash_eq, lastHash_eq, hl.initialHash, hl'.initialHash] at heq
  obtain ⟨hlen, hall⟩ := hl.chained.agree_of_lastHash hl'.chained hfree (hl.hash_ne hne)
    (hl'.hash_ne hne) (p := l.hashes.length) (q := l'.hashes.length) (Nat.le_refl _) (Nat.le_refl _)
    (by rwa [List.take_length, List.take_length])
  simp only [hashes, List.length_map] at hlen hall
  refine ⟨hlen, List.ext_getElem? fun j => ?_⟩
  rw [List.getElem?_map, List.getElem?_map]
  by_cases hj : j < l.entries.length
  · obtain ⟨a, b, ha, hb, hab⟩ := hall j hj
    rw [List.getElem?_map] at ha hb
    obtain ⟨e, he, rfl⟩ := Option.map_eq_some_iff.mp ha
    obtain ⟨e', he', rfl⟩ := Option.map_eq_some_iff.mp hb
    rw [he, he', Option.map_some, Option.map_some, hab]
  · rw [List.getElem?_eq_none (by omega), List.getElem?_eq_none (by omega)]

/-- A digest of the example: one more byte. -/
def oneMore (s : String) : String := "h" ++ s

theorem toList_oneMore (s : String) : (oneMore s).toList = 'h' :: s.toList := by
  rw [oneMore, String.toList_append]
  rfl

theorem oneMore_injective : Function.Injective oneMore := by
  intro s t h
  have h' := congrArg String.toList h
  rw [toList_oneMore, toList_oneMore] at h'
  exact String.toList_inj.mp (List.cons.inj h').2

theorem oneMore_ne (s : String) : oneMore s ≠ emptyHash := by
  intro h
  have h' := congrArg String.toList h
  rw [toList_oneMore, toList_emptyHash] at h'
  exact absurd (List.cons.inj h').1 (by decide)

/-- The second request is cut and another one logged in its place. -/
def replaced : List Call :=
  [.append (entryOf 1 1 1) (by decide), .append (entryOf 1 2 2) (by decide), .removeAfter 2,
    .append (entryOf 2 2 3) (by decide)]

/-- The other one at once. -/
def direct : List Call :=
  [.append (entryOf 2 1 1) (by decide), .append (entryOf 2 2 3) (by decide)]

theorem ids_eq_of_lastHash_replaced :
    ∃ l l', replaced.foldlM (call oneMore) (new true 1 emptyHash (by decide)) = some l ∧
      direct.foldlM (call oneMore) (new true 1 emptyHash (by decide)) = some l' ∧
      l.entries.map ids = l'.entries.map ids := by
  have h : replaced.foldlM (call oneMore) (new true 1 emptyHash (by decide)) = some _ := rfl
  have h' : direct.foldlM (call oneMore) (new true 1 emptyHash (by decide)) = some _ := rfl
  exact ⟨_, _, h, h', (ids_eq_of_lastHash oneMore_injective oneMore_ne _ _ h h' rfl).2⟩

/-! ### The unhashed log that starts with 1 -/

end StartLog

namespace Log
variable {sha1 : String → String}

/-- The log as one that knows its start. -/
def toStartLog (l : Log) : StartLog where
  useHash := false
  start := 1
  initialHash := StartLog.emptyHash
  entries := l.entries
  positive := Nat.le_refl 1
  numbered i e h := by rw [l.numbered i e h, Nat.add_comm]

theorem toStartLog_find (l : Log) (k : Nat) : l.toStartLog.find k = l.find k := by
  by_cases hk : k < 1
  · have hstart : l.toStartLog.start = 1 := rfl
    rw [StartLog.find, find, if_pos hk, hstart, if_pos hk, ite_self]
  · rw [StartLog.find_eq _ (Nat.le_of_not_lt hk), find, if_neg hk]
    rfl

theorem toStartLog_append (l : Log) (e : LogEntry) :
    l.toStartLog.append sha1 e = (l.append e).map toStartLog := by
  unfold StartLog.append append
  have hnext : l.toStartLog.nextOpnum = l.lastOpnum + 1 := by
    rw [StartLog.nextOpnum_eq, l.lastOpnum_eq]
    exact Nat.add_comm ..
  by_cases h : e.opnum = l.lastOpnum + 1
  · rw [dif_pos (hnext ▸ h), dif_pos h]
    rfl
  · rw [dif_neg (hnext ▸ h), dif_neg h]
    rfl

theorem toStartLog_removeAfter (l : Log) (k : Nat) :
    l.toStartLog.removeAfter k = (l.removeAfter k).map toStartLog := by
  have hlast : l.toStartLog.lastOpnum = l.lastOpnum := rfl
  have hlen := l.lastOpnum_eq
  unfold StartLog.removeAfter removeAfter
  rw [hlast]
  split_ifs with h1 h2 h3 h3
  · rfl
  · exact absurd h2.1 (by rw [h3]; exact Nat.not_succ_le_zero 0)
  · rfl
  · rfl
  · exact absurd ⟨Nat.one_le_iff_ne_zero.mpr h3, show k - 1 < l.entries.length by omega⟩ h2

theorem toStartLog_installRest (l : Log) (es : List LogEntry) :
    l.toStartLog.installRest sha1 es = (l.installRest es).map toStartLog := by
  induction es generalizing l with
  | nil => rfl
  | cons e es ih =>
    rw [StartLog.installRest, installRest, toStartLog_append]
    cases l.append (installed e) with
    | none => rfl
    | some l₁ => exact ih l₁

/-- `Install` of the one is `Install` of the other. -/
theorem toStartLog_install (l : Log) (es : List LogEntry) :
    l.toStartLog.install sha1 es = (l.install es).map toStartLog := by
  induction es with
  | nil => rfl
  | cons e es ih =>
    rw [StartLog.install, install, toStartLog_find]
    cases l.find e.opnum with
    | none => exact toStartLog_installRest l (e :: es)
    | some old =>
      simp only
      split_ifs with hv
      · rw [toStartLog_removeAfter]
        cases l.removeAfter e.opnum with
        | none => rfl
        | some l₁ => exact toStartLog_installRest l₁ (e :: es)
      · exact ih

end Log
end Dsnet
