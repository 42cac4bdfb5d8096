import Mathlib.Data.List.Infix

/-! `common/request.proto`, `lib/viewstamp.h` and `common/log.{h,cc}`, `common/log-impl.h`: a
    replica's log of requests.

    A `Log` carries the numbering that `Append` asserts (entry `i` of the vector has opnum
    `i + 1`), so the assertion inside `Find` always holds and is not modelled as a failure. All
    replicas modelled here construct their log with `start = 1`. An operation whose `ASSERT` can
    fail returns `none` there. 64-bit counters are natural numbers; where the source subtracts
    below zero the wrapped value fails the assertion that follows, and so it does here. -/

namespace Dsnet

/-- What a list has, every extension has at the same place. -/
theorem getElem?_mono {α : Type} {p l : List α} {i : Nat} {x : α} (h : p <+: l)
    (hx : p[i]? = some x) : l[i]? = some x := by
  obtain ⟨t, rfl⟩ := h
  rw [List.getElem?_append_left (List.getElem?_eq_some_iff.mp hx).1]
  exact hx

/-- `viewstamp_t`. -/
structure Viewstamp where
  view : Nat
  opnum : Nat
  sessnum : Nat := 0
  msgnum : Nat := 0
  shardnum : Nat := 0
  deriving DecidableEq, Repr

/-- `ShardOp`; an optional number reads as 0 when it is not set. -/
structure ShardOp where
  shard : Nat
  op : String
  msgnum : Nat := 0
  deriving DecidableEq, Repr

/-- `Request`, with the fields the replication protocols read. -/
structure Request where
  op : String
  clientid : Nat
  clientreqid : Nat
  clientaddr : String := ""
  deriving DecidableEq, Repr

/-- A `Request` with the fields a sequencer fills in. -/
structure SequencedRequest extends Request where
  ops : List ShardOp := []
  sessnum : Nat := 0
  deriving DecidableEq, Repr

/-- `LogEntryState`. -/
inductive LogEntryState where
  | committed | prepared | speculative | fastprepared | received | noop | executed
  deriving DecidableEq, Repr

/-- `LogEntry`, and `MsgLogEntry`, which has the same fields. -/
structure LogEntry where
  viewstamp : Viewstamp
  state : LogEntryState
  request : Request
  hash : String := ""
  deriving DecidableEq, Repr

namespace LogEntry

abbrev view (e : LogEntry) : Nat := e.viewstamp.view
abbrev opnum (e : LogEntry) : Nat := e.viewstamp.opnum

/-- What an entry says apart from its state: the view it was logged in and its request. -/
def content (e : LogEntry) : Nat × Request := (e.view, e.request)

end LogEntry

/-- An entry is added at the end. -/
theorem of_getElem?_concat {α : Type} {l : List α} {x y : α} {i : Nat} (h : (l ++ [x])[i]? = some y) :
    l[i]? = some y ∨ i = l.length ∧ x = y := by
  rcases Nat.lt_trichotomy i l.length with hlt | rfl | hgt
  · exact Or.inl ((List.getElem?_append_left hlt).symm.trans h)
  · exact Or.inr ⟨rfl, by simpa using h⟩
  · rw [List.getElem?_eq_none (by simp; omega)] at h
    cases h

/-- The entries, numbered from 1. -/
structure Log where
  entries : List LogEntry
  numbered : ∀ i e, entries[i]? = some e → e.opnum = i + 1

namespace Log

def empty : Log := ⟨[], by simp⟩

/-- `Log::LastOpnum`. -/
def lastOpnum (l : Log) : Nat :=
  match l.entries.getLast? with
  | none => 0
  | some e => e.opnum

/-- `Log::LastViewstamp`. -/
def lastViewstamp (l : Log) : Viewstamp :=
  match l.entries.getLast? with
  | none => { view := 0, opnum := 0 }
  | some e => e.viewstamp

/-- `Log::Find`. -/
def find (l : Log) (k : Nat) : Option LogEntry :=
  if k < 1 then none else l.entries[k - 1]?

theorem lastOpnum_eq (l : Log) : l.lastOpnum = l.entries.length := by
  unfold lastOpnum
  cases h : l.entries.getLast? with
  | none => simp [List.getLast?_eq_none_iff.mp h]
  | some e =>
    have hpos : 0 < l.entries.length := by
      rcases List.eq_nil_or_concat l.entries with h' | ⟨_, _, h'⟩ <;> simp_all
    rw [List.getLast?_eq_getElem?] at h
    have hnum : e.opnum = l.entries.length - 1 + 1 := l.numbered _ _ h
    show e.opnum = l.entries.length
    omega

/-- `Log::Append` of an unhashed log. -/
def append (l : Log) (e : LogEntry) : Option Log :=
  if h : e.opnum = l.lastOpnum + 1 then
    some ⟨l.entries ++ [e], by
      intro i e' hi
      rcases of_getElem?_concat hi with hi | ⟨rfl, rfl⟩
      · exact l.numbered i e' hi
      · rw [h, l.lastOpnum_eq]⟩
  else none

/-- `Log::SetStatus`. -/
def setStatus (l : Log) (k : Nat) (st : LogEntryState) : Log :=
  ⟨if k < 1 then l.entries else l.entries.modify (k - 1) ({ · with state := st }), by
    intro i e hi
    split_ifs at hi with hk
    · exact l.numbered i e hi
    · rw [List.getElem?_modify] at hi
      obtain ⟨e', he', rfl⟩ := Option.map_eq_some_iff.mp hi
      have := l.numbered i e' he'
      split_ifs <;> exact this⟩

/-- `Log::SetRequest` of an unhashed log; without an entry nothing happens. -/
def setRequest (l : Log) (k : Nat) (req : Request) : Log :=
  ⟨if k < 1 then l.entries else l.entries.modify (k - 1) ({ · with request := req }), by
    intro i e hi
    split_ifs at hi with hk
    · exact l.numbered i e hi
    · rw [List.getElem?_modify] at hi
      obtain ⟨e', he', rfl⟩ := Option.map_eq_some_iff.mp hi
      have := l.numbered i e' he'
      split_ifs <;> exact this⟩

/-- Keep the first `k` entries. -/
def take (l : Log) (k : Nat) : Log :=
  ⟨l.entries.take k, fun i e hi => l.numbered i e (by
    rw [List.getElem?_take] at hi
    split_ifs at hi
    exact hi)⟩

/-- `Log::RemoveAfter`: removes the entries from `k` on. For `k = 0` the assertion
    `op - start < entries.size()` compares the wrapped difference. -/
def removeAfter (l : Log) (k : Nat) : Option Log :=
  if k > l.lastOpnum then some l
  else if k = 0 then none
  else some (l.take (k - 1))

/-- `Log::Dump(from, out)`. -/
def dump (l : Log) (start : Nat) : List LogEntry := l.entries.drop (max start 1 - 1)

/-- `Log::Dump(from, to, out)`. -/
def dumpTo (l : Log) (start stop : Nat) : Option (List LogEntry) :=
  if stop ≤ l.lastOpnum + 1 then some ((l.entries.take (stop - 1)).drop (max start 1 - 1))
  else none

/-- The entry `Log::Install` appends for one of a message. -/
def installed (e : LogEntry) : LogEntry :=
  { viewstamp := { view := e.view, opnum := e.opnum }, state := .prepared, request := e.request }

/-- The second loop of `Log::Install`. -/
def installRest (l : Log) : List LogEntry → Option Log
  | [] => some l
  | e :: es => (l.append (installed e)).bind (installRest · es)

/-- `Log::Install`: skip the entries that are there with the same view, then replace. -/
def install (l : Log) : List LogEntry → Option Log
  | [] => some l
  | e :: es =>
    match l.find e.opnum with
    | none => installRest l (e :: es)
    | some old =>
      if e.view ≠ old.view then (l.removeAfter e.opnum).bind (installRest · (e :: es))
      else install l es

/-- What `install` does to the entries: how many of them stay, and which of the given ones then
    follow. -/
def installPlan (l : Log) : List LogEntry → Nat × List LogEntry
  | [] => (l.entries.length, [])
  | e :: es =>
    match l.find e.opnum with
    | none => (l.entries.length, e :: es)
    | some old => if e.view ≠ old.view then (e.opnum - 1, e :: es) else installPlan l es

/-! ### Lemmas -/

/-- The contents of the entries, in order. -/
def contents (l : Log) : List (Nat × Request) := l.entries.map LogEntry.content

@[simp] theorem length_contents (l : Log) : l.contents.length = l.entries.length :=
  List.length_map ..

@[simp] theorem entries_take (l : Log) (k : Nat) : (l.take k).entries = l.entries.take k := rfl

theorem find_eq_some {l : Log} {k : Nat} {e : LogEntry} :
    l.find k = some e ↔ 1 ≤ k ∧ l.entries[k - 1]? = some e := by
  unfold find
  split_ifs with h
  · simp only [false_iff]
    omega
  · exact ⟨fun he => ⟨by omega, he⟩, fun he => he.2⟩

theorem find_eq_none {l : Log} {k : Nat} (hk : 1 ≤ k) :
    l.find k = none ↔ l.entries.length < k := by
  unfold find
  rw [if_neg (by omega), List.getElem?_eq_none_iff]
  omega

/-- An entry is found under its own opnum. -/
theorem opnum_of_find {l : Log} {k : Nat} {e : LogEntry} (h : l.find k = some e) :
    e.opnum = k := by
  obtain ⟨hk, he⟩ := find_eq_some.mp h
  have := l.numbered _ _ he
  omega

theorem append_eq_some {l l' : Log} {e : LogEntry} :
    l.append e = some l' ↔ e.opnum = l.entries.length + 1 ∧ l'.entries = l.entries ++ [e] := by
  have hlast := l.lastOpnum_eq
  unfold append
  split_ifs with h
  · constructor
    · rintro ⟨rfl⟩
      exact ⟨by omega, rfl⟩
    · rintro ⟨_, he⟩
      cases l'
      cases he
      rfl
  · simp only [false_iff, not_and]
    intro h'
    omega

theorem append_eq_none {l : Log} {e : LogEntry} :
    l.append e = none ↔ e.opnum ≠ l.entries.length + 1 := by
  have hlast := l.lastOpnum_eq
  unfold append
  split_ifs with h
  · simp only [false_iff, not_not]
    omega
  · simp only [true_iff]
    omega

theorem removeAfter_eq_some {l l' : Log} {k : Nat} (h : l.removeAfter k = some l') :
    l'.entries = l.entries.take (k - 1) ∧ 1 ≤ k := by
  unfold removeAfter at h
  rw [l.lastOpnum_eq] at h
  split_ifs at h with h1 h2
  · obtain rfl := Option.some.inj h
    exact ⟨(List.take_of_length_le (by omega)).symm, by omega⟩
  · obtain rfl := Option.some.inj h
    exact ⟨rfl, by omega⟩

/-- `RemoveAfter` of the opnum after `k` keeps the first `k` entries. -/
theorem removeAfter_succ (l : Log) (k : Nat) : l.removeAfter (k + 1) = some (l.take k) := by
  have hlast := l.lastOpnum_eq
  unfold removeAfter
  split_ifs with h h0
  · have hall : l.entries.take k = l.entries := List.take_of_length_le (by omega)
    cases l
    simp only [take, hall]
  · cases h0
  · rfl

theorem getElem?_entries_setStatus (l : Log) (k : Nat) (st : LogEntryState) (i : Nat) :
    (l.setStatus k st).entries[i]? =
      l.entries[i]?.map fun e => if i + 1 = k then { e with state := st } else e := by
  by_cases h : k < 1
  · have hne : ¬ i + 1 = k := by omega
    simp only [setStatus, if_pos h, if_neg hne, Option.map_id']
  · have hiff : k - 1 = i ↔ i + 1 = k := by omega
    simp only [setStatus, if_neg h, List.getElem?_modify, hiff, Option.map_eq_map]

theorem find_setStatus (l : Log) (k : Nat) (st : LogEntryState) (j : Nat) :
    (l.setStatus k st).find j = (l.find j).map fun e => if j = k then { e with state := st } else e := by
  by_cases hj : j < 1
  · simp only [find, if_pos hj, Option.map_none]
  · simp only [find, if_neg hj, getElem?_entries_setStatus, Nat.sub_add_cancel (Nat.not_lt.mp hj)]

@[simp] theorem length_entries_setStatus (l : Log) (k : Nat) (st : LogEntryState) :
    (l.setStatus k st).entries.length = l.entries.length := by
  unfold setStatus
  simp only
  split_ifs <;> simp

@[simp] theorem contents_setStatus (l : Log) (k : Nat) (st : LogEntryState) :
    (l.setStatus k st).contents = l.contents := by
  refine List.ext_getElem? fun i => ?_
  rw [contents, contents, List.getElem?_map, List.getElem?_map, getElem?_entries_setStatus,
    Option.map_map]
  congr 1
  funext e
  simp only [Function.comp]
  split_ifs <;> rfl

@[simp] theorem length_entries_setRequest (l : Log) (k : Nat) (req : Request) :
    (l.setRequest k req).entries.length = l.entries.length := by
  unfold setRequest
  simp only
  split_ifs <;> simp

/-- `SetRequest` changes one place of the contents. -/
theorem getElem?_contents_setRequest (l : Log) (k : Nat) (req : Request) (i : Nat) :
    (l.setRequest k req).contents[i]? =
      l.contents[i]?.map fun x => if i + 1 = k then (x.1, req) else x := by
  rw [contents, contents, List.getElem?_map, List.getElem?_map]
  by_cases h : k < 1
  · have hne : ¬ i + 1 = k := by omega
    simp only [setRequest, if_pos h, if_neg hne, Option.map_id']
  · have hiff : k - 1 = i ↔ i + 1 = k := by omega
    simp only [setRequest, if_neg h, List.getElem?_modify, hiff, Option.map_eq_map, Option.map_map]
    congr 1
    funext e
    simp only [Function.comp]
    split_ifs <;> rfl

theorem getElem?_contents_of_find {l : Log} {k : Nat} {e : LogEntry} (h : l.find k = some e) :
    1 ≤ k ∧ l.contents[k - 1]? = some e.content := by
  obtain ⟨hk, he⟩ := find_eq_some.mp h
  exact ⟨hk, by rw [contents, List.getElem?_map, he]; rfl⟩

theorem contents_append {l l' : Log} {e : LogEntry} (h : l.append e = some l') :
    l'.contents = l.contents ++ [e.content] := by
  rw [contents, (append_eq_some.mp h).2, List.map_append]
  rfl

@[simp] theorem content_installed (e : LogEntry) : (installed e).content = e.content := rfl

/-! ### Runs of entries -/

/-- The entries have the opnums from `k` on. -/
def NumberedFrom (k : Nat) (es : List LogEntry) : Prop :=
  ∀ i e, es[i]? = some e → e.opnum = k + i

theorem numberedFrom_nil (k : Nat) : NumberedFrom k [] := fun _ _ h => by simp at h

theorem numberedFrom_cons {k : Nat} {e : LogEntry} {es : List LogEntry} :
    NumberedFrom k (e :: es) ↔ e.opnum = k ∧ NumberedFrom (k + 1) es := by
  constructor
  · refine fun h => ⟨h 0 e rfl, fun i x hx => ?_⟩
    have := h (i + 1) x hx
    omega
  · rintro ⟨he, hes⟩ i x hx
    cases i with
    | zero =>
      obtain rfl : e = x := by simpa using hx
      exact he
    | succ i =>
      have := hes i x hx
      omega

/-- Entries numbered above `j` are all above it. -/
theorem NumberedFrom.filter_eq {k j : Nat} {es : List LogEntry} (h : NumberedFrom k es)
    (hj : j < k) : es.filter (j < ·.opnum) = es := by
  refine List.filter_eq_self.mpr fun e he => ?_
  obtain ⟨i, hi⟩ := List.mem_iff_getElem?.mp he
  have := h i e hi
  exact decide_eq_true (by omega)

/-- What a log dumps is numbered. -/
theorem numberedFrom_dump (l : Log) (k : Nat) : NumberedFrom (max k 1) (l.dump k) := by
  intro i e hi
  rw [dump, List.getElem?_drop] at hi
  have := l.numbered _ _ hi
  omega

/-! ### Installing -/

theorem installRest_entries : ∀ {es : List LogEntry} {l l' : Log}, l.installRest es = some l' →
    l'.entries = l.entries ++ es.map installed
  | [], l, l', h => by
      obtain rfl : l = l' := by simpa [installRest] using h
      simp
  | e :: es, l, l', h => by
      obtain ⟨l₁, h₁, h⟩ := Option.bind_eq_some_iff.mp h
      rw [installRest_entries h, (append_eq_some.mp h₁).2, List.map_cons, List.append_assoc]
      rfl

theorem installPlan_le (l : Log) : ∀ es : List LogEntry,
    (l.installPlan es).1 ≤ l.entries.length
  | [] => Nat.le_refl _
  | e :: es => by
      unfold installPlan
      cases hf : l.find e.opnum with
      | none => exact Nat.le_refl _
      | some old =>
        have hlt : e.opnum - 1 < l.entries.length :=
          (List.getElem?_eq_some_iff.mp (find_eq_some.mp hf).2).1
        simp only
        split_ifs
        · exact hlt.le
        · exact installPlan_le l es

theorem install_entries {l l' : Log} : ∀ {es : List LogEntry}, l.install es = some l' →
    l'.entries = l.entries.take (l.installPlan es).1 ++ (l.installPlan es).2.map installed
  | [], h => by
      obtain rfl : l = l' := by simpa [install] using h
      simp [installPlan]
  | e :: es, h => by
      unfold install at h
      unfold installPlan
      cases hf : l.find e.opnum with
      | none =>
        simp only [hf] at h ⊢
        rw [installRest_entries h, List.take_of_length_le (Nat.le_refl _)]
      | some old =>
        simp only [hf] at h ⊢
        split_ifs at h ⊢ with hv
        · obtain ⟨l₁, h₁, h⟩ := Option.bind_eq_some_iff.mp h
          rw [installRest_entries h, (removeAfter_eq_some h₁).1]
        · exact install_entries h

theorem contents_dump (l : Log) (k : Nat) :
    (l.dump k).map LogEntry.content = l.contents.drop (max k 1 - 1) := by
  rw [dump, List.map_drop]
  rfl

end Log
end Dsnet
